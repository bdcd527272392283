import DeliveryPipeline.Api.Command
import DeliveryPipeline.World

/-! # Sessions

A session carries out commands one after another, each in the world that the one before left, while a
rule disturbs their calls. Every call is kept as a deed, so that statements can be made about what the
engine does and about every world on the way, not only about the last one.
-/

namespace DeliveryPipeline

set_option autoImplicit false

open Api (Command)

/-- A call that a command makes, with what was exchanged before it and the worlds around it. -/
structure Deed where
  command : Command
  past : List Exchange
  before : World
  call : Call
  reply : call.Reply
  after : World

def Deed.exchange (deed : Deed) : Exchange := ⟨deed.call, deed.reply⟩

variable {σ α : Type}

def Program.deeds (rule : Rule σ) (command : Command) :
    Program α → List Exchange → World → σ → List Deed
  | done _, _, _, _ => []
  | call c next, past, world, state =>
    let (disturbance, state) := rule state c
    let (reply, after) := world.reply disturbance c
    ⟨command, past, world, c, reply, after⟩ ::
      deeds rule command (next reply) (past ++ [⟨c, reply⟩]) after state

structure Session (σ : Type) where
  engine : Engine
  rule : Rule σ
  state : σ
  start : World
  commands : List Command

namespace Session

def deedsFrom (engine : Engine) (rule : Rule σ) :
    List Command → List Exchange → World → σ → List Deed
  | [], _, _, _ => []
  | command :: rest, past, world, state =>
    let program := (command.operation engine).run
    let run := program.run rule world state
    program.deeds rule command past world state ++
      deedsFrom engine rule rest (past ++ run.exchanges) run.world run.state

def deeds (session : Session σ) : List Deed :=
  deedsFrom session.engine session.rule session.commands [] session.start session.state

def worlds (session : Session σ) : List World := session.start :: session.deeds.map Deed.after

end Session

end DeliveryPipeline
