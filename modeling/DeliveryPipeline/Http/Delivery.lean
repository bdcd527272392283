import DeliveryPipeline.Http.Address
import DeliveryPipeline.Http.Basic
import DeliveryPipeline.Json.Printer

/-! # Deliveries

A request that is sent to another system, and what comes of it: an answer, or no connection.
-/

namespace DeliveryPipeline.Http

set_option autoImplicit false

structure Outgoing where
  method : String
  /-- the address, without a query -/
  url : String
  query : List (String × String)
  headers : List (String × String)
  body : Option Json
deriving Repr

/-- The scheme and host of an address, and the rest of it. -/
def splitUrl (url : String) : String × String :=
  let scheme := if "https://".toList.isPrefixOf url.toList then "https://".toList
    else if "http://".toList.isPrefixOf url.toList then "http://".toList else []
  let rest := url.toList.drop scheme.length
  let host := rest.takeWhile fun c => c ≠ '/' && c ≠ '?' && c ≠ '#' && c ≠ '\\'
  (.ofList (scheme ++ host), .ofList (rest.drop host.length))

namespace Outgoing

def target (o : Outgoing) : String :=
  let target := sentTarget (splitUrl o.url).2
  if o.query.isEmpty then target
  else target ++ (if '?' ∈ target.toList then "&" else "?") ++ formQuery o.query

def sentUrl (o : Outgoing) : String := (splitUrl o.url).1 ++ o.target

end Outgoing

/-- Why a request did not arrive: its address, and the causes, outermost first. -/
structure ConnectionError where
  url : String
  causes : List String
deriving DecidableEq, Repr

namespace ConnectionError

def message (e : ConnectionError) : String := "error sending request for url (" ++ e.url ++ ")"

def chain (e : ConnectionError) : List String := e.message :: e.causes

def unreachable (o : Outgoing) : ConnectionError :=
  ⟨o.sentUrl, ["client error (Connect)", "tcp connect error", "Network is unreachable (os error 101)"]⟩

end ConnectionError

/-- What comes of a request: the answer's status and body, or no connection. -/
structure Received where
  status : Nat
  body : String
deriving DecidableEq, Repr

abbrev Delivery := Except ConnectionError Received

def Received.isSuccess (r : Received) : Bool := 200 ≤ r.status && r.status < 300

def Body.content : Body → String
  | .empty => ""
  | .text s => s
  | .json j => Json.render j

def Answer.received (answer : Answer) : Received := ⟨answer.status, answer.body.content⟩

end DeliveryPipeline.Http
