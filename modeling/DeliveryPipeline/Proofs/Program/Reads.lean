import DeliveryPipeline.Proofs.Program.Meets

/-! # Operations that only look

Lookups, and the errands that ask a system without changing anything, leave the world as it is. An
operation made of such calls is described by what holds of its value; where it stands in a larger one,
the rest goes on in the same world.
-/

namespace DeliveryPipeline

set_option autoImplicit false

/-- Calls that change neither the store nor an outside system. -/
def Call.isQuiet : Call → Bool
  | .lookup _ | .errand (.ping _) | .errand (.commits ..) => true
  | _ => false

theorem World.reply_of_isQuiet {c : Call} (h : c.isQuiet = true) (world : World)
    (disturbance : Disturbance) : (world.reply disturbance c).2 = world := by
  cases c with
  | lookup l => cases disturbance <;> rfl
  | update u => cases h
  | errand e => cases e <;> cases h <;> cases disturbance <;> rfl

def Quiet (past : List Exchange) : Prop := ∀ e ∈ past, e.call.isQuiet = true

theorem quiet_nil : Quiet [] := fun _ h => nomatch h

variable {α β : Type}

/-- In the given world the program makes quiet calls only, and what holds of its value. -/
def Program.Reads (world : World) (found : α → Prop) : Program α → Prop
  | done a => found a
  | call c next =>
    c.isQuiet = true ∧ ∀ disturbance, (next (world.reply disturbance c).1).Reads world found

theorem Program.reads_bind {world : World} {found : β → Prop} {f : α → Program β} {p : Program α} :
    (bind f p).Reads world found ↔ p.Reads world fun a => (f a).Reads world found := by
  induction p with
  | done a => exact Iff.rfl
  | call c next ih => simp only [bind, Reads, ih]

theorem Program.Reads.mono {world : World} {found found' : α → Prop} {p : Program α}
    (h : p.Reads world found) (weaken : ∀ a, found a → found' a) : p.Reads world found' := by
  induction p with
  | done a => exact weaken a h
  | call c next ih => exact ⟨h.1, fun disturbance => ih _ (h.2 disturbance)⟩

theorem Program.Reads.meets {world : World} {found : α → Prop} {p : Program α}
    {allowed : Call → Assertion} {ends : α → Assertion} {past : List Exchange}
    (h : p.Reads world found) (quiet : ∀ c past, c.isQuiet = true → allowed c past world)
    (ends' : ∀ a seen, found a → (∀ e ∈ seen, e.call.isQuiet = true) → ends a (past ++ seen) world) :
    p.Meets allowed ends past world := by
  induction p generalizing past with
  | done a =>
    have hEnds := ends' a [] h (by simp)
    rwa [List.append_nil] at hEnds
  | call c next ih =>
    refine ⟨quiet c past h.1, fun disturbance => ?_⟩
    rw [World.reply_of_isQuiet h.1]
    refine ih _ (h.2 disturbance) fun a seen hFound hSeen => ?_
    rw [List.append_assoc]
    refine ends' a _ hFound fun e he => ?_
    rcases List.mem_append.mp he with he | he
    · rw [List.mem_singleton.mp he]
      exact h.1
    · exact hSeen e he

namespace Operation

/-- In the given world the operation makes quiet calls only, and what holds of its value if it does
not end with an error. -/
def Reads (world : World) (found : α → Prop) (operation : Operation α) : Prop :=
  operation.run.Reads world fun result => ∀ a, result = .ok a → found a

variable {world : World} {found : α → Prop}

theorem Reads.bind {found' : β → Prop} {x : Operation α} {f : α → Operation β}
    (h : Reads world found x) (rest : ∀ a, found a → Reads world found' (f a)) :
    Reads world found' (x >>= f) := by
  unfold Reads
  change (Program.bind _ x.run).Reads world _
  rw [Program.reads_bind]
  refine Program.Reads.mono h fun result hResult => ?_
  cases result with
  | ok a => exact rest a (hResult a rfl)
  | error e => intro b hb; cases hb

theorem reads_pure {a : α} (h : found a) : Reads world found (pure a) := by
  intro b hb
  cases hb
  exact h

theorem reads_throw {e : EngineError} : Reads world found (throw e) := by
  intro a ha
  cases ha

theorem reads_require {error : EngineError} {value : Option α} :
    Reads world (fun a => value = some a) (require error value) := by
  cases value with
  | none => exact reads_throw
  | some a => exact reads_pure rfl

theorem reads_ensure {condition : Bool} {error : EngineError} :
    Reads world (fun _ => condition = true) (ensure condition error) := by
  cases condition with
  | false => exact reads_throw
  | true => exact reads_pure rfl

theorem reads_attempt {x : Operation α} (h : Reads world found x) :
    Reads world (fun result => ∀ a, result = .ok a → found a) (attempt x) := by
  unfold Reads
  change (Program.bind _ x.run).Reads world _
  rw [Program.reads_bind]
  refine Program.Reads.mono h fun result hResult => ?_
  intro tried hTried
  cases hTried
  exact hResult

theorem reads_lookup {l : Lookup} :
    Reads world (fun answer => answer = world.store.answer l ∨ answer = l.nothing) (lookup l) := by
  refine ⟨rfl, fun disturbance => ?_⟩
  cases disturbance with
  | storeFails e => exact reads_throw
  | findsNothing => exact reads_pure (.inr rfl)
  | none | errandFails _ | scopeBusy _ => exact reads_pure (.inl rfl)

theorem reads_errand {purpose : Purpose} {e : Errand} (h : (Call.errand e).isQuiet = true) :
    Reads world (fun _ => True) (errand purpose e) := by
  refine ⟨h, fun disturbance => ?_⟩
  generalize (world.reply disturbance (.errand e)).1 = reply
  cases reply with
  | error failure => exact reads_throw
  | ok answer => exact reads_pure trivial

theorem reads_commits {purpose : Purpose} {repository : Repository} {fullName : String}
    {history : HistoryQuery} :
    Reads world (fun commits => commits = world.commits repository fullName history.branch)
      (errand purpose (.commits repository fullName history)) := by
  refine ⟨rfl, fun disturbance => ?_⟩
  cases disturbance with
  | errandFails failure => exact reads_throw
  | none | storeFails _ | findsNothing | scopeBusy _ => exact reads_pure rfl

theorem reads_mapM {f : α → Operation β} {found : α → β → Prop} (h : ∀ a, Reads world (found a) (f a))
    (l : List α) : Reads world (List.Forall₂ found l) (l.mapM f) := by
  induction l with
  | nil => exact reads_pure .nil
  | cons a rest ih =>
    rw [List.mapM_cons]
    refine (h a).bind fun b hb => ih.bind fun values hValues => reads_pure ?_
    exact .cons hb hValues

theorem Reads.weaken {found' : α → Prop} {x : Operation α} (h : Reads world found x)
    (weaken : ∀ a, found a → found' a) : Reads world found' x :=
  Program.Reads.mono h fun _ hResult a ha => weaken a (hResult a ha)

theorem Reads.meets_bind {x : Operation α} {f : α → Operation β} {allowed : Call → Assertion}
    {ends : β → Assertion} {fails : EngineError → Assertion} {past : List Exchange}
    (h : Reads world found x) (quiet : ∀ c past, c.isQuiet = true → allowed c past world)
    (fails' : ∀ e past, fails e past world)
    (rest : ∀ a past, found a → Meets allowed ends fails (f a) past world) :
    Meets allowed ends fails (x >>= f) past world := by
  rw [Operation.meets_bind]
  refine Program.Reads.meets h quiet fun result seen hResult _ => ?_
  cases result with
  | ok a => exact rest a _ (hResult a rfl)
  | error e => exact fails' e _

/-- In the given world the operation looks around until it fails or goes on as one that is reached. -/
inductive ComesTo (world : World) (reached : Operation α → Prop) : Operation α → Prop
  | fails (e : EngineError) : ComesTo world reached (throw e)
  | looks {c : Call} {next : c.Reply → Operation α} (quiet : c.isQuiet = true)
    (rest : ∀ disturbance, ComesTo world reached (next (world.reply disturbance c).1)) :
    ComesTo world reached (ExceptT.mk (.call c next))
  | reaches {x : Operation α} (h : reached x) : ComesTo world reached x

variable {reached : Operation β → Prop}

theorem comesTo_bind {found : Except EngineError α → Prop} {f : Except EngineError α → Operation β}
    {p : Program (Except EngineError α)} (h : p.Reads world found)
    (rest : ∀ result, found result → ComesTo world reached (f result)) :
    ComesTo world reached (ExceptT.mk (Program.bind (fun result => (f result).run) p)) := by
  induction p with
  | done result => exact rest result h
  | call c next ih => exact .looks h.1 fun disturbance => ih _ (h.2 disturbance)

theorem Reads.comesTo_bind {x : Operation α} {f : α → Operation β} (h : Reads world found x)
    (rest : ∀ a, found a → ComesTo world reached (f a)) : ComesTo world reached (x >>= f) := by
  have hRest : ∀ result, (∀ a, result = .ok a → found a) →
      ComesTo world reached (ExceptT.bindCont f result : Operation β) := by
    intro result hFound
    cases result with
    | ok a => exact rest a (hFound a rfl)
    | error e => exact .fails e
  exact Operation.comesTo_bind h hRest

theorem ComesTo.meets {allowed : Call → Assertion} {ends : β → Assertion}
    {fails : EngineError → Assertion} {past : List Exchange} {x : Operation β}
    (h : ComesTo world reached x)
    (calls : ∀ c own, Quiet own → c.isQuiet = true → allowed c (past ++ own) world)
    (errors : ∀ e own, Quiet own → fails e (past ++ own) world)
    (values : ∀ x own, Quiet own → reached x → x.Meets allowed ends fails (past ++ own) world) :
    x.Meets allowed ends fails past world := by
  rw [← List.append_nil past]
  induction h generalizing past with
  | fails e => exact errors e [] quiet_nil
  | @looks c next quiet rest ih =>
    refine ⟨calls c [] quiet_nil quiet, fun disturbance => ?_⟩
    have hOwn : ∀ reply own, Quiet own → Quiet ([⟨c, reply⟩] ++ own) := fun _ own hOwn =>
      List.forall_mem_cons.mpr ⟨quiet, hOwn⟩
    rw [World.reply_of_isQuiet quiet, List.append_nil, ← List.append_nil (past ++ _)]
    apply ih disturbance
    · intro c own hQuiet
      rw [List.append_assoc]
      exact calls c _ (hOwn _ own hQuiet)
    · intro e own hQuiet
      rw [List.append_assoc]
      exact errors e _ (hOwn _ own hQuiet)
    · intro x own hQuiet
      rw [List.append_assoc]
      exact values x _ (hOwn _ own hQuiet)
  | reaches h => exact values _ [] quiet_nil h

end Operation

end DeliveryPipeline
