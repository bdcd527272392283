import DeliveryPipeline.CommandLine.Report

/-! # The command line program

Reads the address of the service from the environment, and carries the arguments out. It has no means to
open connections, so every request is reported as one that did not arrive.
-/

set_option autoImplicit false

open DeliveryPipeline

def main (arguments : List String) : IO UInt32 := do
  let serverUrl := (← IO.getEnv "CONVEYOR_ORCHESTRATOR_URL").getD "http://localhost:8080"
  let report ← CommandLine.run serverUrl
    (fun request => pure (.error (Http.ConnectionError.unreachable request))) arguments
  (← IO.getStdout).putStr report.out
  (← IO.getStderr).putStr report.err
  return report.exit
