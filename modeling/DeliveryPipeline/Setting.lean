import DeliveryPipeline.Named
import DeliveryPipeline.Text.Blank

/-! # Integration settings

A setting names an outside system and holds what is needed to reach it: a CI server, a cluster or a
container registry.
-/

namespace DeliveryPipeline

set_option autoImplicit false

inductive SettingKind where
  | ciServer
  | cluster
  | registry
deriving DecidableEq, Repr, Inhabited

instance : Named SettingKind where
  all := [.ciServer, .cluster, .registry]
  name
    | .ciServer => "ci-driver"
    | .cluster => "cluster"
    | .registry => "registry"

structure CiServer where
  url : String
  user : String
  token : String
  workspace : String
deriving DecidableEq, Repr

def CiServer.missingFields (server : CiServer) : List String :=
  ([("url", server.url), ("user", server.user), ("token", server.token),
    ("workspace", server.workspace)].filter fun (_, value) => (Text.trim value.toList).isEmpty).map
    (·.1)

structure Cluster where
  url : String
  token : String
deriving DecidableEq, Repr

structure Registry where
  url : String
  user : String
  password : String
deriving DecidableEq, Repr

inductive Integration where
  | ciServer (server : CiServer)
  | cluster (cluster : Cluster)
  | registry (registry : Registry)
deriving DecidableEq, Repr

def Integration.kind : Integration → SettingKind
  | .ciServer _ => .ciServer
  | .cluster _ => .cluster
  | .registry _ => .registry

structure Setting where
  id : Int64
  name : String
  config : Integration
deriving DecidableEq, Repr

end DeliveryPipeline
