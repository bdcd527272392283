import DeliveryPipeline.Engine.Access
import DeliveryPipeline.Image

/-! # Images of apps

The image that an app's mapping stands for: the mapped image itself, the same with the tag `latest`, or
with a tag made from the branch and its newest commit. Only the last asks source control. An app without
a mapping, or whose history cannot be read, has no image; that is no error.
-/

namespace DeliveryPipeline.Engine

set_option autoImplicit false

open Operation

/-- The address that a mapping stands for. -/
def resolveImage (mapping : ImageMapping) (repository : Repository) (fullName branch : String) :
    Operation String :=
  match mapping.policy with
  | .origin => pure mapping.image
  | .latest => pure (Image.withTag mapping.image "latest")
  | .systemDefault => do
    let commits ← errand (.history fullName branch) (.commits repository fullName (.latest branch))
    pure (Image.withTag mapping.image (Image.defaultTag branch commits))

def mappedImage (arrangement : Arrangement) (app : App) (repository : Repository) (branch : String) :
    Operation (Option (ImageMapping × String)) := do
  match ← lookup (.imageMapping arrangement.id app.id) with
  | none => pure none
  | some mapping =>
    match ← attempt (resolveImage mapping repository app.fullName branch) with
    | .ok image => pure (some (mapping, image))
    | .error _ => pure none

def appImage (environment : Int64) (app : App) (repository : Repository) (branch : String) :
    Operation (Option String) := do
  match ← lookup (.arrangement app.id environment) with
  | none => pure none
  | some arrangement => do
    let mapped ← mappedImage arrangement app repository branch
    pure (mapped.map (·.2))

end DeliveryPipeline.Engine
