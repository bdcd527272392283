import DeliveryPipeline.Collaborators
import DeliveryPipeline.Configuration
import DeliveryPipeline.Database.Schema
import DeliveryPipeline.FaultPlan
import DeliveryPipeline.Main
import DeliveryPipeline.Api.Server
import DeliveryPipeline.Proofs.Session.Cancellation
import DeliveryPipeline.Proofs.Session.Confinement
import DeliveryPipeline.Proofs.Session.Orders
import DeliveryPipeline.Proofs.Session.Walk
import DeliveryPipeline.Proofs.Session.Finished
import DeliveryPipeline.Proofs.Session.Redelivery
import DeliveryPipeline.Proofs.Engine.Isolation
import DeliveryPipeline.Proofs.Engine.Terminal
import DeliveryPipeline.Proofs.Engine.Conflict
import DeliveryPipeline.Proofs.Interleaving.Abort
import DeliveryPipeline.Proofs.Interleaving.Submission
import DeliveryPipeline.Proofs.Session.Submissions
import DeliveryPipeline.Proofs.Json.Lexing
import DeliveryPipeline.Proofs.Api.Reporting
import DeliveryPipeline.Proofs.Api.Callback
import DeliveryPipeline.Proofs.Engine.Runnable
import DeliveryPipeline.Proofs.Engine.Rollout
import DeliveryPipeline.Proofs.Engine.Clearance
import DeliveryPipeline.Proofs.Engine.Omission
import DeliveryPipeline.Proofs.Engine.Progress
import DeliveryPipeline.Proofs.Engine.Preview
import DeliveryPipeline.Proofs.Engine.Forecast
import DeliveryPipeline.Proofs.Engine.Confirmation
import DeliveryPipeline.Proofs.Engine.StageEnd
import DeliveryPipeline.Proofs.Api.Failure
import DeliveryPipeline.Proofs.Json.Fields
import DeliveryPipeline.Proofs.Wire.Lawful
import DeliveryPipeline.Proofs.Wire.Message
import DeliveryPipeline.Proofs.Http.Address
import DeliveryPipeline.Proofs.Api.Routing
import DeliveryPipeline.Proofs.Api.Conversation
import DeliveryPipeline.Proofs.Image
import DeliveryPipeline.Proofs.Engine.Retagging
import DeliveryPipeline.Proofs.Manifest.Occurrences
import DeliveryPipeline.Proofs.Manifest.Substitution
import DeliveryPipeline.Proofs.Engine.Origin
import DeliveryPipeline.Proofs.Engine.Planning
import DeliveryPipeline.Proofs.Engine.Toolchain
import DeliveryPipeline.Proofs.Manifest.Join
import DeliveryPipeline.Proofs.CommandLine.Argument
import DeliveryPipeline.Proofs.Plan
import DeliveryPipeline.Proofs.Plan.Directory
import DeliveryPipeline.Proofs.Database.Record
import DeliveryPipeline.Proofs.Engine.Credentials
