import DeliveryPipeline.Engine.Access
import DeliveryPipeline.Proofs.Program.Prepares

/-! # Worlds that differ in their orders

A call that is not about orders is answered alike in worlds that differ in their orders only. So a program
that makes such calls only does the same in both. One that looks an order up does so, too, if it goes on
alike with what it finds in the one and in the other.
-/

namespace DeliveryPipeline

set_option autoImplicit false

variable {σ α β : Type}

def World.withOrders (world : World) (orders : List Order) : World :=
  { world with store := { world.store with orders := orders } }

def Call.sparesOrders : Call → Bool
  | .lookup (.order _) | .update (.setOrderStatus ..) | .update (.moveOrder ..) => false
  | _ => true

theorem Call.sparesOrders_of_isReference {c : Call} (h : c.isReference = true) :
    c.sparesOrders = true := by
  cases c with
  | lookup l => cases l <;> first | rfl | cases h
  | update u => cases h
  | errand e => rfl

theorem Store.insertJob_withOrders (store : Store) (orders : List Order) (draft : JobDraft) :
    ({ store with orders := orders } : Store).insertJob draft =
      ((store.insertJob draft).1, { (store.insertJob draft).2 with orders := orders }) := by
  unfold insertJob
  have hActive : ({ store with orders := orders } : Store).activeJobs draft.scope =
      store.activeJobs draft.scope := rfl
  rw [hActive]
  cases store.activeJobs draft.scope with
  | cons job rest => rfl
  | nil =>
    cases nextNumber? (store.jobs.map (·.id)) with
    | none => rfl
    | some id => rfl

theorem Store.addConfirmation_withOrders (store : Store) (orders : List Order)
    (draft : ConfirmationDraft) :
    ({ store with orders := orders } : Store).addConfirmation draft =
      ((store.addConfirmation draft).1, { (store.addConfirmation draft).2 with orders := orders }) := by
  unfold addConfirmation
  dsimp only
  split <;> rfl

theorem World.reply_withOrders {c : Call} (h : c.sparesOrders = true) (world : World)
    (orders : List Order) (disturbance : Disturbance) :
    (world.withOrders orders).reply disturbance c =
      ((world.reply disturbance c).1, (world.reply disturbance c).2.withOrders orders) := by
  cases c with
  | lookup l =>
    cases l with
    | order id => cases h
    | _ => cases disturbance <;> rfl
  | errand e => cases e <;> cases disturbance <;> rfl
  | update u =>
    cases u with
    | setOrderStatus | moveOrder => cases h
    | startJob | setJobStatus => cases disturbance <;> rfl
    | insertJob draft =>
      have hStored := world.store.insertJob_withOrders orders draft
      cases disturbance <;> first | rfl | simp [reply, answerUpdate, Store.update, withOrders, hStored]
    | addConfirmation draft =>
      have hStored := world.store.addConfirmation_withOrders orders draft
      cases disturbance <;> first | rfl | simp [reply, answerUpdate, Store.update, withOrders, hStored]

/-- The runs made the same calls, ended alike, and left worlds that differ in their orders only. -/
structure Run.Agrees (run run' : Run σ α) : Prop where
  value : run'.value = run.value
  calls : run'.exchanges.map Exchange.call = run.exchanges.map Exchange.call
  world : ∃ orders, run'.world = run.world.withOrders orders

namespace Program

/-- Under every rule, the programs' runs in these worlds agree. -/
def Alike (world world' : World) (p p' : Program α) : Prop :=
  ∀ (σ : Type) (rule : Rule σ) (state : σ), (p.run rule world state).Agrees (p'.run rule world' state)

theorem alike_done (world : World) (orders : List Order) (a : α) :
    Alike world (world.withOrders orders) (done a) (done a) :=
  fun _ _ _ => ⟨rfl, rfl, orders, rfl⟩

theorem alike_call {world world' : World} {c : Call} {next next' : c.Reply → Program α}
    (rest : ∀ disturbance, Alike (world.reply disturbance c).2 (world'.reply disturbance c).2
      (next (world.reply disturbance c).1) (next' (world'.reply disturbance c).1)) :
    Alike world world' (call c next) (call c next') := by
  intro σ rule state
  obtain ⟨hValue, hCalls, hWorld⟩ := rest (rule state c).1 σ rule (rule state c).2
  exact ⟨hValue, congrArg (c :: ·) hCalls, hWorld⟩

theorem Obeys.alike {ends : α → Knowledge} {past : List Exchange} {p : Program α}
    (h : p.Obeys (fun c _ => c.sparesOrders = true) ends past) (world : World) (orders : List Order) :
    Alike world (world.withOrders orders) p p := by
  induction p generalizing past world with
  | done a => exact alike_done world orders a
  | call c next ih =>
    refine alike_call fun disturbance => ?_
    rw [World.reply_withOrders h.1]
    exact ih _ (h.2 _) _

end Program

namespace Operation

variable {world : World} {orders : List Order}

theorem OnlyMakes.alike {x : Operation α} (h : x.OnlyMakes Call.sparesOrders) (world : World)
    (orders : List Order) : x.run.Alike world (world.withOrders orders) x.run :=
  Program.Obeys.alike (h []) world orders

theorem OnlyMakes.alike_bind {x : Operation α} {f f' : α → Operation β}
    (h : x.OnlyMakes Call.isReference)
    (rest : ∀ a, (f a).run.Alike world (world.withOrders orders) (f' a).run) :
    (x >>= f).run.Alike world (world.withOrders orders) (x >>= f').run := by
  suffices hBind : ∀ (p : Program (Except EngineError α)) (past : List Exchange),
      p.Obeys (fun c _ => c.isReference = true) (known (fun _ _ => True) fun _ _ => True) past →
        (Program.bind (ExceptT.bindCont f) p).Alike world (world.withOrders orders)
          (Program.bind (ExceptT.bindCont f') p) from hBind x.run [] (h [])
  intro p past hRefers
  induction p generalizing past with
  | done result =>
    cases result with
    | ok a => exact rest a
    | error e => exact Program.alike_done world orders (Except.error e)
  | call c next ih =>
    obtain ⟨hCall, hNext⟩ := hRefers
    refine Program.alike_call fun disturbance => ?_
    rw [World.reply_withOrders (Call.sparesOrders_of_isReference hCall),
      World.reply_of_isQuiet (Call.isQuiet_of_isReference hCall)]
    exact ih _ _ (hNext _)

theorem alike_findOrder_bind {id : Int64} {f : Order → Operation β} {order order' : Order}
    (found : world.store.answer (.order id) = some order)
    (found' : (world.withOrders orders).store.answer (.order id) = some order')
    (rest : (f order).run.Alike world (world.withOrders orders) (f order').run) :
    (Engine.findOrder id >>= f).run.Alike world (world.withOrders orders)
      (Engine.findOrder id >>= f).run := by
  unfold Engine.findOrder
  rw [bind_assoc]
  refine Program.alike_call fun disturbance => ?_
  have hFound : (require (.absent (.order id)) (world.store.answer (.order id)) >>= f).run.Alike world
      (world.withOrders orders) (require (.absent (.order id))
        ((world.withOrders orders).store.answer (.order id)) >>= f).run := by
    rw [found, found']
    exact rest
  cases disturbance with
  | storeFails e => exact Program.alike_done world orders _
  | findsNothing => exact Program.alike_done world orders _
  | none | errandFails _ | scopeBusy _ => exact hFound

theorem alike_findOrderOf_bind {project id : Int64} {f : Order → Operation β} {order order' : Order}
    (found : world.store.answer (.order id) = some order)
    (found' : (world.withOrders orders).store.answer (.order id) = some order')
    (project' : order'.project = order.project)
    (rest : (f order).run.Alike world (world.withOrders orders) (f order').run) :
    (Engine.findOrderOf project id >>= f).run.Alike world (world.withOrders orders)
      (Engine.findOrderOf project id >>= f).run := by
  unfold Engine.findOrderOf
  simp only [bind_assoc, pure_bind]
  refine (onlyMakes_lookup rfl).alike_bind fun answer => (onlyMakes_require _ _).alike_bind fun _ => ?_
  refine (onlyMakes_ensure _ _).alike_bind fun _ => alike_findOrder_bind found found' ?_
  rw [project']
  exact (onlyMakes_ensure _ _).alike_bind fun _ => rest

end Operation

end DeliveryPipeline
