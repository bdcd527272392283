import DeliveryPipeline.Proofs.Engine.Creation

/-! # Launches, whatever they are told

A job is launched for a request, or by a completion that moves its order to a step which runs one. For
the calls of either to be allowed by some rule, it is enough that the rule allows all calls that concern
no job, and the four calls of a launch where they stand.
-/

namespace DeliveryPipeline

set_option autoImplicit false

open Operation

def Call.sparesJobs : Call → Bool
  | .update (.insertJob _) | .update (.startJob ..) | .update (.setJobStatus ..)
  | .errand (.submit ..) => false
  | _ => true

theorem Call.sparesJobs_of_isPreparation {c : Call} (h : c.isPreparation = true) :
    c.sparesJobs = true := by
  cases c with
  | lookup l => rfl
  | update u => cases h
  | errand e => cases e <;> first | rfl | cases h

theorem Call.submits_of_sparesJobs {c : Call} (h : c.sparesJobs = true) : c.submits = false := by
  cases c with
  | errand e => cases e <;> first | rfl | cases h
  | lookup _ | update _ => rfl

def Call.plan? : Call → Option Plan
  | .errand (.submit _ _ plan) => some plan
  | _ => none

theorem Call.exists_of_plan? {c : Call} {plan : Plan} (h : c.plan? = some plan) :
    ∃ server name, c = .errand (.submit server name plan) := by
  cases c with
  | lookup _ | update _ => cases h
  | errand e =>
    cases e with
    | submit server name other =>
      cases h
      exact ⟨server, name, rfl⟩
    | _ => cases h

namespace Engine

variable {α : Type} {allowed : Call → Knowledge} {past : List Exchange}

theorem obeys_insertJob_bind {ends : α → Knowledge} {fails : EngineError → Knowledge} {draft : JobDraft}
    {f : Int64 → Operation α} (calls : allowed (.update (.insertJob draft)) past)
    (rest : ∀ id, (f id).Obeys allowed ends fails
      (past ++ [⟨.update (.insertJob draft), .ok (.created id)⟩]))
    (errors : ∀ e reply, fails e (past ++ [⟨.update (.insertJob draft), reply⟩])) :
    (insertJob draft >>= f).Obeys allowed ends fails past := by
  refine obeys_bind.mpr (obeys_update_bind calls (fun answer => ?_) fun e => errors _ _)
  cases answer with
  | created id => exact rest id
  | busy ids => exact errors _ _

/-- The calls of a launch: between the job's creation and its submission nothing is submitted, and the
run that is recorded is that of the job. -/
theorem obeys_launch {engine : Engine} {found : Order} {server : CiServer} {draft : JobDraft}
    {planFor : Int64 → Plan} (spares : ∀ c past, c.sparesJobs = true → allowed c past)
    (insert : allowed (.update (.insertJob draft)) past)
    (submit : ∀ id between, Unsubmitted between →
      allowed (.errand (.submit server
          (engine.jobName draft.kind draft.project draft.order draft.stage) (planFor id)))
        (past ++ ⟨.update (.insertJob draft), .ok (.created id)⟩ :: between))
    (record : ∀ id run between,
      allowed (.update (.startJob id run))
        (past ++ ⟨.update (.insertJob draft), .ok (.created id)⟩ :: between)) :
    (launch engine found server draft planFor).Obeys allowed (fun _ _ => True) (fun _ _ => True)
      past := by
  refine obeys_insertJob_bind insert (fun job => ?_) fun _ _ => trivial
  have hSubmit : ∀ between, Unsubmitted between →
      (do
        let run ← errand (.submission draft.kind) (.submit server
          (engine.jobName draft.kind draft.project draft.order draft.stage) (planFor job))
        update (.startJob job run)
        pure (⟨run, engine.jobName draft.kind draft.project draft.order draft.stage⟩ : Launch) :
          Operation Launch).Obeys allowed (fun _ _ => True) (fun _ _ => True)
        (past ++ ⟨.update (.insertJob draft), .ok (.created job)⟩ :: between) := by
    intro between hBetween
    refine obeys_errand_bind (submit job between hBetween) (fun run => ?_) fun _ => trivial
    rw [List.append_assoc]
    exact obeys_update_bind (record job run _) (fun _ => trivial) fun _ => trivial
  unfold startOrder
  split
  · refine obeys_update_bind (spares _ _ rfl) (fun answer => ?_) fun _ => trivial
    rw [List.append_assoc]
    exact hSubmit [⟨.update (.setOrderStatus found.id .running), .ok answer⟩] fun e he => by
      rw [List.mem_singleton.mp he]
      rfl
  · exact hSubmit [] fun _ h => nomatch h

section Completion

variable (engine : Engine) (spares : ∀ c past, c.sparesJobs = true → allowed c past)
  (create : ∀ (request : JobRequest) project order stage past,
    (request.create engine project order stage).Obeys allowed (fun _ _ => True) (fun _ _ => True) past)

include spares create in
theorem obeys_launchApps (found : Order) (stage : Int64) (kind : JobKind) (creator : String)
    (past : List Exchange) :
    (launchApps engine found stage kind creator).Obeys allowed (fun _ _ => True) (fun _ _ => True)
      past := by
  refine obeys_lookup_bind (spares _ _ rfl) (fun apps => ?_) fun _ => trivial
  cases kind with
  | build => exact create (.build (buildRequestOf creator apps)) _ _ _ _
  | deploy => exact create (.deploy (deployRequestOf creator apps)) _ _ _ _

include spares in
theorem obeys_finishStage (found : Order) (snapshot : Snapshot) (stage : Int64) (past : List Exchange) :
    (finishStage found snapshot stage).Obeys allowed (fun _ _ => True) (fun _ _ => True) past := by
  unfold finishStage
  split
  · exact obeys_update_bind (spares _ _ rfl) (fun _ => trivial) fun _ => trivial
  · split
    · exact obeys_update_bind (spares _ _ rfl) (fun _ => trivial) fun _ => trivial
    · trivial

include spares create in
theorem obeys_advance (found : Order) (stageId : Int64) (creator : String) (past : List Exchange) :
    (advance engine found stageId creator).Obeys allowed (fun _ _ => True) (fun _ _ => True) past := by
  unfold advance
  refine (onlyRefers_findSnapshot found).onlyPrepares.obeys_bind
    (fun _ _ _ hPrepares => spares _ _ (Call.sparesJobs_of_isPreparation hPrepares))
    (fun _ _ _ => trivial) fun snapshot own _ _ => ?_
  refine obeys_bind.mpr (obeys_require (fun stage _ => ?_) fun _ => trivial)
  split
  · exact obeys_finishStage spares found snapshot stageId _
  refine obeys_bind.mpr (obeys_require (fun next _ => ?_) fun _ => trivial)
  refine obeys_update_bind (spares _ _ rfl) (fun _ => ?_) fun _ => trivial
  unfold launchNext
  split
  · trivial
  rename_i kind _
  refine obeys_bind.mpr (obeys_bind.mpr (obeys_attempt.mpr ?_))
  refine (obeys_launchApps engine spares create found stage.id kind creator _).relax (fun _ _ => id)
    (fun _ _ _ => trivial) fun _ _ _ => trivial

end Completion

end Engine

end DeliveryPipeline
