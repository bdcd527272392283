import DeliveryPipeline.Proofs.Program.Deeds
import DeliveryPipeline.Proofs.Program.Obeys
import DeliveryPipeline.Proofs.Program.Reads

/-! # Preparations

Before a job is stored, its plan is prepared: the store is looked at, systems are asked, and manifests
are applied to a cluster, none of which changes the store. A preparing operation makes such calls only,
whatever it is told, and what is known at its end can be read off its own exchanges. An operation may
also lead to another: it prepares, and then it fails or goes on as that one.
-/

namespace DeliveryPipeline

set_option autoImplicit false

def Call.isPreparation : Call → Bool
  | .errand (.apply ..) => true
  | c => c.isQuiet

/-- Quiet calls that look at anything but an order. -/
def Call.isReference : Call → Bool
  | .lookup (.order _) => false
  | c => c.isQuiet

def Call.looks : Call → Bool
  | .lookup _ | .errand (.commits ..) => true
  | _ => false

theorem Call.isQuiet_of_looks {c : Call} (h : c.looks = true) : c.isQuiet = true := by
  cases c with
  | lookup _ => rfl
  | update _ => cases h
  | errand e => cases e <;> first | rfl | cases h

theorem Call.isQuiet_of_isReference {c : Call} (h : c.isReference = true) : c.isQuiet = true := by
  cases c with
  | lookup _ => rfl
  | update _ | errand _ => exact h

theorem Call.isPreparation_of_isQuiet {c : Call} (h : c.isQuiet = true) : c.isPreparation = true := by
  cases c with
  | errand e => cases e <;> first | rfl | cases h
  | lookup _ | update _ => exact h

def Call.submits : Call → Bool
  | .errand (.submit ..) => true
  | _ => false

theorem World.reply_of_isPreparation {c : Call} (h : c.isPreparation = true) (world : World)
    (disturbance : Disturbance) : (world.reply disturbance c).2 = world := by
  cases c with
  | lookup l => exact world.reply_lookup disturbance l
  | update u => cases h
  | errand e =>
    cases e with
    | apply => cases disturbance <;> rfl
    | ping | commits => exact World.reply_of_isQuiet rfl world disturbance
    | submit | cancel => cases h

def Prepared : Knowledge := fun past => ∀ e ∈ past, e.call.isPreparation = true

theorem prepared_nil : Prepared [] := by
  intro e he
  cases he

theorem Prepared.snoc {past : List Exchange} {e : Exchange} (h : Prepared past)
    (he : e.call.isPreparation = true) : Prepared (past ++ [e]) :=
  List.forall_mem_append.mpr ⟨h, List.forall_mem_singleton.mpr he⟩

variable {α β : Type}

theorem Program.Obeys.after {kind : Call → Bool} {allowed : Call → Knowledge}
    {ends ends' : α → Knowledge} {past own : List Exchange} {p : Program α}
    (h : p.Obeys (fun c _ => kind c = true) ends own) (made : ∀ e ∈ own, kind e.call = true)
    (calls : ∀ c own, (∀ e ∈ own, kind e.call = true) → kind c = true → allowed c (past ++ own))
    (values : ∀ a own, (∀ e ∈ own, kind e.call = true) → ends a own → ends' a (past ++ own)) :
    p.Obeys allowed ends' (past ++ own) := by
  induction p generalizing own with
  | done a => exact values a own made h
  | call c next ih =>
    refine ⟨calls c own made h.1, fun reply => ?_⟩
    rw [List.append_assoc]
    exact ih reply (h.2 reply) (List.forall_mem_append.mpr ⟨made, List.forall_mem_singleton.mpr h.1⟩)

theorem Program.Obeys.reads {kind : Call → Bool} {ends : α → Knowledge} {p : Program α}
    {past : List Exchange} (h : p.Obeys (fun c _ => kind c = true) ends past)
    (quiet : ∀ c, kind c = true → c.isQuiet = true) (world : World) : p.Reads world fun _ => True := by
  induction p generalizing past with
  | done a => trivial
  | call c next ih => exact ⟨quiet c h.1, fun disturbance => ih _ (h.2 _)⟩

namespace Operation

/-- Whatever it is told, the operation prepares, and what it then knows from its own exchanges. -/
def Prepares (found : α → Knowledge) (x : Operation α) : Prop :=
  Obeys (fun c _ => c.isPreparation = true) found (fun _ _ => True) x []

abbrev OnlyPrepares (x : Operation α) : Prop := x.Prepares fun _ _ => True

variable {found : α → Knowledge} {found' : β → Knowledge}

theorem Prepares.obeys {allowed : Call → Knowledge} {ends : α → Knowledge}
    {fails : EngineError → Knowledge} {past : List Exchange} {x : Operation α} (h : x.Prepares found)
    (calls : ∀ c own, Prepared own → c.isPreparation = true → allowed c (past ++ own))
    (values : ∀ a own, Prepared own → found a own → ends a (past ++ own))
    (errors : ∀ e own, Prepared own → fails e (past ++ own)) : x.Obeys allowed ends fails past := by
  have hAfter : x.run.Obeys allowed (known ends fails) (past ++ []) :=
    Program.Obeys.after h prepared_nil calls fun result own hOwn hKnown => by
      cases result with
      | ok a => exact values a own hOwn hKnown
      | error e => exact errors e own hOwn
  rwa [List.append_nil] at hAfter

theorem Prepares.obeys_bind {allowed : Call → Knowledge} {ends : β → Knowledge}
    {fails : EngineError → Knowledge} {past : List Exchange} {x : Operation α} {f : α → Operation β}
    (h : x.Prepares found)
    (calls : ∀ c own, Prepared own → c.isPreparation = true → allowed c (past ++ own))
    (errors : ∀ e own, Prepared own → fails e (past ++ own))
    (rest : ∀ a own, Prepared own → found a own → (f a).Obeys allowed ends fails (past ++ own)) :
    (x >>= f).Obeys allowed ends fails past :=
  Operation.obeys_bind.mpr (h.obeys calls rest errors)

theorem Prepares.bind {x : Operation α} {f : α → Operation β} (h : x.Prepares found)
    (rest : ∀ a own, found a own → (f a).Prepares fun b own' => found' b (own ++ own')) :
    (x >>= f).Prepares found' := by
  refine h.obeys_bind (fun _ _ _ => id) (fun _ _ _ => trivial) fun a own _ hFound => ?_
  exact (rest a own hFound).obeys (fun _ _ _ => id) (fun _ _ _ => id) fun _ _ _ => trivial

theorem prepares_pure {a : α} (h : found a []) : (pure a : Operation α).Prepares found := h

theorem prepares_require {error : EngineError} {value : Option α}
    (h : ∀ a, value = some a → found a []) : (require error value).Prepares found :=
  obeys_require h fun _ => trivial

theorem prepares_lookup {l : Lookup} :
    (lookup l).Prepares fun answer own => own = [⟨.lookup l, .ok answer⟩] :=
  obeys_lookup rfl (fun _ => rfl) fun _ => trivial

theorem prepares_errand {purpose : Purpose} {e : Errand} (h : (Call.errand e).isPreparation = true) :
    (errand purpose e).Prepares fun answer own => own = [⟨.errand e, .ok answer⟩] :=
  obeys_errand h (fun _ => rfl) fun _ => trivial

/-- Whatever it is told, the operation makes calls of one kind only. -/
def OnlyMakes (kind : Call → Bool) (x : Operation α) : Prop :=
  ∀ past, x.Obeys (fun c _ => kind c = true) (fun _ _ => True) (fun _ _ => True) past

section OnlyMakes

variable {kind kind' : Call → Bool}

theorem OnlyMakes.mono {x : Operation α} (h : x.OnlyMakes kind)
    (weaken : ∀ c, kind c = true → kind' c = true) : x.OnlyMakes kind' := fun past =>
  (h past).relax (fun c _ => weaken c) (fun _ _ => id) fun _ _ => id

theorem OnlyMakes.onlyPrepares {x : Operation α} (h : x.OnlyMakes Call.isReference) : x.OnlyPrepares :=
  h.mono (fun _ hReference => Call.isPreparation_of_isQuiet (Call.isQuiet_of_isReference hReference)) []

theorem OnlyMakes.bind {x : Operation α} {f : α → Operation β} (h : x.OnlyMakes kind)
    (rest : ∀ a, (f a).OnlyMakes kind) : (x >>= f).OnlyMakes kind := fun past =>
  Operation.obeys_bind.mpr ((h past).relax (fun _ _ => id) (fun a later _ => rest a (past ++ later))
    fun _ _ => id)

theorem OnlyMakes.obeys_bind {allowed : Call → Knowledge} {ends : β → Knowledge}
    {fails : EngineError → Knowledge} {past : List Exchange} {x : Operation α} {f : α → Operation β}
    (h : x.OnlyMakes kind)
    (calls : ∀ c own, (∀ e ∈ own, kind e.call = true) → kind c = true → allowed c (past ++ own))
    (errors : ∀ e own, (∀ e ∈ own, kind e.call = true) → fails e (past ++ own))
    (rest : ∀ a own, (∀ e ∈ own, kind e.call = true) → (f a).Obeys allowed ends fails (past ++ own)) :
    (x >>= f).Obeys allowed ends fails past := by
  have hOwn : ∀ e ∈ ([] : List Exchange), kind e.call = true := fun _ he => nomatch he
  have hAfter : x.run.Obeys allowed (known (fun a => (f a).Obeys allowed ends fails) fails) (past ++ []) :=
    Program.Obeys.after (h []) hOwn calls fun result own made _ => by
      cases result with
      | ok a => exact rest a own made
      | error e => exact errors e own made
  rw [List.append_nil] at hAfter
  exact Operation.obeys_bind.mpr hAfter

theorem OnlyMakes.world_of_run {σ : Type} {x : Operation α}
    (h : x.OnlyMakes kind) (quiet : ∀ c, kind c = true → c.isQuiet = true) (rule : Rule σ)
    (world : World) (state : σ) :
    let run := x.run.run rule world state
    run.world = world ∧ ∀ e ∈ run.exchanges, kind e.call = true := by
  intro run
  constructor
  · have hMeets : x.run.Meets (fun _ _ _ => True) (fun _ _ here => here = world) [] world :=
      (Program.Obeys.reads (h []) quiet world).meets (fun _ _ _ => trivial) fun _ _ _ _ => rfl
    exact hMeets.ends_run rule state
  · intro e he
    have hMeets := Program.Obeys.meets (h []) world
    obtain ⟨_, _, hKind⟩ := hMeets.allowed_of_mem_exchanges rule state e he
    exact hKind

theorem onlyMakes_pure (a : α) : (pure a : Operation α).OnlyMakes kind := fun _ => trivial

theorem onlyMakes_throw (e : EngineError) : (throw e : Operation α).OnlyMakes kind := fun _ => trivial

theorem onlyMakes_require (error : EngineError) (value : Option α) :
    (require error value).OnlyMakes kind := fun _ =>
  obeys_require (fun _ _ => trivial) fun _ => trivial

theorem onlyMakes_ensure (condition : Bool) (error : EngineError) :
    (ensure condition error).OnlyMakes kind := fun _ =>
  obeys_ensure (fun _ => trivial) fun _ => trivial

theorem onlyMakes_lookup {l : Lookup} (h : kind (.lookup l) = true) : (lookup l).OnlyMakes kind :=
  fun _ => obeys_lookup h (fun _ => trivial) fun _ => trivial

theorem onlyMakes_update {u : Update} (h : kind (.update u) = true) : (update u).OnlyMakes kind :=
  fun _ => obeys_update h (fun _ => trivial) fun _ => trivial

theorem onlyMakes_errand {purpose : Purpose} {e : Errand} (h : kind (.errand e) = true) :
    (errand purpose e).OnlyMakes kind :=
  fun _ => obeys_errand h (fun _ => trivial) fun _ => trivial

theorem onlyMakes_find {l : Lookup} {error : EngineError} {read : l.Answer → Option α}
    (h : kind (.lookup l) = true) :
    (lookup l >>= fun answer => require error (read answer)).OnlyMakes kind :=
  (onlyMakes_lookup h).bind fun _ => onlyMakes_require _ _

theorem OnlyMakes.attempt {x : Operation α} (h : x.OnlyMakes kind) : (attempt x).OnlyMakes kind :=
  fun past => obeys_attempt.mpr (h past)

theorem onlyMakes_mapM {f : α → Operation β} (h : ∀ a, (f a).OnlyMakes kind) (l : List α) :
    (l.mapM f).OnlyMakes kind := by
  induction l with
  | nil => exact onlyMakes_pure []
  | cons a rest ih =>
    rw [List.mapM_cons]
    exact (h a).bind fun _ => ih.bind fun _ => onlyMakes_pure _

end OnlyMakes

/-- The program prepares until it fails or goes on as one that is reached. -/
inductive LeadsTo (reached : Operation α → Knowledge) : Operation α → Knowledge
  | fails (e : EngineError) (past : List Exchange) : LeadsTo reached (throw e) past
  | prepares {c : Call} {next : c.Reply → Operation α} {past : List Exchange}
    (preparation : c.isPreparation = true)
    (rest : ∀ reply, LeadsTo reached (next reply) (past ++ [⟨c, reply⟩])) :
    LeadsTo reached (ExceptT.mk (.call c next)) past
  | reaches {x : Operation α} {past : List Exchange} (h : reached x past) : LeadsTo reached x past

variable {reached : Operation β → Knowledge} {past : List Exchange}

theorem leadsTo_bind {ends : Except EngineError α → Knowledge}
    {f : Except EngineError α → Operation β} {own : List Exchange}
    {p : Program (Except EngineError α)} (h : p.Obeys (fun c _ => c.isPreparation = true) ends own)
    (prepared : Prepared own)
    (rest : ∀ result own, Prepared own → ends result own → LeadsTo reached (f result) (past ++ own)) :
    LeadsTo reached (ExceptT.mk (Program.bind (fun result => (f result).run) p)) (past ++ own) := by
  induction p generalizing own with
  | done result => exact rest result own prepared h
  | call c next ih =>
    refine .prepares h.1 fun reply => ?_
    rw [List.append_assoc]
    exact ih reply (h.2 reply) (prepared.snoc h.1)

theorem Prepares.leadsTo_bind {x : Operation α} {f : α → Operation β} (h : x.Prepares found)
    (rest : ∀ a own, Prepared own → found a own → LeadsTo reached (f a) (past ++ own)) :
    LeadsTo reached (x >>= f) past := by
  have hRest : ∀ result own, Prepared own → known found (fun _ _ => True) result own →
      LeadsTo reached (ExceptT.bindCont f result : Operation β) (past ++ own) := by
    intro result own hOwn hKnown
    cases result with
    | ok a => exact rest a own hOwn hKnown
    | error e => exact .fails e _
  have hBind := Operation.leadsTo_bind h prepared_nil hRest
  rw [List.append_nil] at hBind
  exact hBind

theorem OnlyMakes.leadsTo_bind {x : Operation α} {f : α → Operation β}
    (h : x.OnlyMakes Call.isReference) (rest : ∀ a own, LeadsTo reached (f a) (past ++ own)) :
    LeadsTo reached (x >>= f) past :=
  h.onlyPrepares.leadsTo_bind fun a own _ _ => rest a own

theorem LeadsTo.obeys {allowed : Call → Knowledge} {ends : β → Knowledge}
    {fails : EngineError → Knowledge} {x : Operation β} (h : LeadsTo reached x past)
    (calls : ∀ c past, c.isPreparation = true → allowed c past) (errors : ∀ e past, fails e past)
    (values : ∀ x past, reached x past → x.Obeys allowed ends fails past) :
    x.Obeys allowed ends fails past := by
  induction h with
  | fails e past => exact errors e past
  | prepares preparation rest ih => exact ⟨calls _ _ preparation, ih⟩
  | reaches h => exact values _ _ h

/-- The exchanges are ones that the world may have had, if nothing has changed it. -/
def Told (world : World) : Knowledge := fun past =>
  ∀ e ∈ past, ∃ disturbance, (world.reply disturbance e.call).1 = e.reply

theorem LeadsTo.meets {allowed : Call → Assertion} {ends : β → Assertion}
    {fails : EngineError → Assertion} {world : World} {x : Operation β} (h : LeadsTo reached x past)
    (prepared : Prepared past) (told : Told world past)
    (calls : ∀ c past, Prepared past → c.isPreparation = true → allowed c past world)
    (errors : ∀ e past, Prepared past → fails e past world)
    (values : ∀ x past, Prepared past → Told world past → reached x past →
      x.Meets allowed ends fails past world) : x.Meets allowed ends fails past world := by
  induction h with
  | fails e past => exact errors e past prepared
  | @prepares c next past preparation rest ih =>
    refine ⟨calls c past prepared preparation, fun disturbance => ?_⟩
    rw [World.reply_of_isPreparation preparation]
    exact ih _ (prepared.snoc preparation)
      (List.forall_mem_append.mpr ⟨told, List.forall_mem_singleton.mpr ⟨disturbance, rfl⟩⟩)
  | reaches h => exact values _ _ prepared told h

end Operation

end DeliveryPipeline
