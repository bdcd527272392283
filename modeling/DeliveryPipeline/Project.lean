import DeliveryPipeline.Named
import DeliveryPipeline.Text.Affix

/-! # Projects

The reference data of a project: its apps and their source repositories, the environment of each
stage, the containers apps are compiled in, and, per app and environment, the arrangement that is
deployed and the image in it that a deploy sets.
-/

namespace DeliveryPipeline

set_option autoImplicit false

inductive ProjectStatus where
  | active
  | ended
deriving DecidableEq, Repr, Inhabited

instance : Named ProjectStatus where
  all := [.active, .ended]
  name
    | .active => "active"
    | .ended => "ended"

structure Project where
  id : Int64
  name : String
  status : ProjectStatus
deriving DecidableEq, Repr

structure App where
  id : Int64
  project : Int64
  name : String
  /-- path of the source on its host -/
  fullName : String
  language : String
  repository : Int64
  buildPath : String
  compileEnvironment : Option Int64
deriving DecidableEq, Repr

inductive HostKind where
  | github
  | gitlab
  | gitea
deriving DecidableEq, Repr, Inhabited

instance : NamedText HostKind where
  all := [.github, .gitlab, .gitea]
  name
    | .github => "github"
    | .gitlab => "gitlab"
    | .gitea => "gitea"
  complaint := "unsupported repository kind"

structure Repository where
  id : Int64
  kind : HostKind
  baseUrl : String
  user : String
  token : String
deriving DecidableEq, Repr

namespace Repository

def host (repository : Repository) : String := Text.hostOfAddress repository.baseUrl

def cloneUrl (repository : Repository) (fullName : String) : String :=
  Text.baseAddress repository.baseUrl ++ "/" ++ fullName ++ ".git"

end Repository

/-- The environment of a stage: where its jobs run and where its apps are deployed. -/
structure Environment where
  id : Int64
  project : Int64
  name : String
  space : String
  ciServer : Int64
  cluster : Int64
  registry : Int64
deriving DecidableEq, Repr

structure CompileEnvironment where
  id : Int64
  name : String
  image : String
  command : String
  args : String
deriving DecidableEq, Repr

structure Arrangement where
  id : Int64
  app : Int64
  environment : Int64
  manifest : String
deriving DecidableEq, Repr

inductive TagPolicy where
  | systemDefault
  | latest
  | origin
deriving DecidableEq, Repr, Inhabited

instance : NamedText TagPolicy where
  all := [.systemDefault, .latest, .origin]
  name
    | .systemDefault => "system_default"
    | .latest => "latest"
    | .origin => "origin"
  complaint := "unknown tag policy"

/-- The image of an arrangement that belongs to an app, and how its tag is chosen. -/
structure ImageMapping where
  id : Int64
  arrangement : Int64
  app : Int64
  image : String
  policy : TagPolicy
deriving DecidableEq, Repr

end DeliveryPipeline
