import DeliveryPipeline.Call
import DeliveryPipeline.Http.Delivery
import DeliveryPipeline.Http.Status
import DeliveryPipeline.Text.Base64
import DeliveryPipeline.Wire.Message

/-! # Errands over HTTP

How the outside systems are asked: the request that each errand becomes, and its answer read from what
came of the request. A system that refuses is quoted with its status and the text of its answer.
-/

namespace DeliveryPipeline

set_option autoImplicit false

open Text (ofInt64)

namespace Remote

def authorization (value : String) : String × String := ("authorization", value)

def basic (user password : String) : String × String :=
  authorization ("Basic " ++ Text.Base64.encodeText (user ++ ":" ++ password))

def jsonHeader : String × String := ("content-type", "application/json")

def serverRequest (server : CiServer) (method path : String) (body : Option Json) : Http.Outgoing where
  method := method
  url := Text.baseAddress server.url ++ path
  query := []
  headers := basic server.user server.token :: (body.map fun _ => jsonHeader).toList
  body := body

/-- The path of a project on a host that takes it as one segment. -/
def oneSegment (fullName : String) : String :=
  .ofList (fullName.toList.flatMap fun c => if c = '/' then "%2F".toList else [c])

def commitsRequest (repository : Repository) (fullName : String) (history : HistoryQuery) :
    Http.Outgoing :=
  let base := Text.baseAddress repository.baseUrl
  let page := Nat.repr history.page.toNat
  let size := Nat.repr history.pageSize.toNat
  match repository.kind with
  | .github =>
    { method := "GET", url := base ++ "/repos/" ++ fullName ++ "/commits",
      query := [("sha", history.branch), ("page", page), ("per_page", size)],
      headers := [authorization ("Bearer " ++ repository.token), ("user-agent", "conveyor")],
      body := none }
  | .gitlab =>
    { method := "GET",
      url := base ++ "/api/v4/projects/" ++ oneSegment fullName ++ "/repository/commits",
      query := [("ref_name", history.branch), ("page", page), ("per_page", size),
        ("order", history.order)],
      headers := [("private-token", repository.token)],
      body := none }
  | .gitea =>
    { method := "GET", url := base ++ "/api/v1/repos/" ++ fullName ++ "/commits",
      query := [("sha", history.branch), ("page", page), ("limit", size)],
      headers := [authorization ("token " ++ repository.token)],
      body := none }

end Remote

namespace Errand

open Remote

def request : Errand → Http.Outgoing
  | ping server => serverRequest server "GET" "/api/ping" none
  | submit server name plan =>
    serverRequest server "POST" ("/api/jobs/" ++ name ++ "/builds") (some (Wire.encode plan))
  | cancel server name run =>
    serverRequest server "POST" ("/api/jobs/" ++ name ++ "/builds/" ++ ofInt64 run ++ "/abort") none
  | commits repository fullName history => commitsRequest repository fullName history
  | apply cluster request =>
    { method := "POST", url := Text.baseAddress cluster.url ++ "/api/v1/apply", query := [],
      headers := (if cluster.token.isEmpty then []
        else [authorization ("Bearer " ++ cluster.token)]) ++ [jsonHeader],
      body := some (Wire.encode request) }

def undelivered : Errand → String
  | ping _ => "Failed to reach CI server"
  | submit .. => "Failed to submit build"
  | cancel .. => "Failed to abort build"
  | commits _ fullName _ => "Failed to list commits of " ++ fullName
  | apply _ request => "Failed to reach cluster " ++ request.cluster

def refusal : Errand → String
  | ping _ => "CI server ping failed"
  | apply _ request => "Failed to apply manifest on cluster " ++ request.cluster
  | e => e.undelivered

structure Acceptance where
  run : Int64

instance : WireRecord Acceptance where
  fields := Acceptance.mk <$> Wire.field "run_id"
  entries a := [("run_id", Wire.encode a.run)]

def parse {α : Type} [Wire α] (complaint : String) (received : Http.Received) :
    Except ErrandError α :=
  (Wire.ofText received.body).mapError fun _ => ⟨[complaint, "error decoding response body"]⟩

def accepted (received : Http.Received) : (errand : Errand) → Except ErrandError errand.Answer
  | ping _ | cancel .. | apply .. => .ok ()
  | submit .. => (parse "Failed to parse build response" received).map Acceptance.run
  | commits .. => parse "Failed to parse commit list" received

def outcome (errand : Errand) (delivery : Http.Delivery) : Except ErrandError errand.Answer :=
  match delivery with
  | .error cause => .error ⟨errand.undelivered :: cause.chain⟩
  | .ok received =>
    if received.isSuccess then accepted received errand
    else .error ⟨[errand.refusal ++ ": " ++ Http.statusText received.status ++ " - " ++ received.body]⟩

end Errand

end DeliveryPipeline
