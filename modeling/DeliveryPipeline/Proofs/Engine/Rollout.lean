import DeliveryPipeline.Proofs.Engine.Conflict
import DeliveryPipeline.Proofs.Engine.Gathering
import DeliveryPipeline.Proofs.Engine.Launching
import DeliveryPipeline.Proofs.Engine.Terminal

/-! # What a deploy rolls out

The requested apps that can be rendered are rendered once, in the order of the request. The manifest that is
applied, the apps that the job remembers and the workloads that its plan checks are all made from this one
list, and what is rendered comes from the store and from source control alone.
-/

namespace DeliveryPipeline

set_option autoImplicit false

open Operation

theorem exists_sublist_of_forall₂ {α β : Type} {R : α → β → Prop} {asked : List α}
    {results : List (Option β)} (h : List.Forall₂ (fun a r => ∀ b, r = some b → R a b) asked results) :
    ∃ chosen : List α, chosen.Sublist asked ∧ List.Forall₂ R chosen (results.filterMap id) := by
  induction h with
  | nil => exact ⟨[], .slnil, .nil⟩
  | @cons a r asked results hFirst _ ih =>
    obtain ⟨chosen, hSublist, hRest⟩ := ih
    cases r with
    | none => exact ⟨chosen, hSublist.cons a, hRest⟩
    | some b => exact ⟨a :: chosen, hSublist.cons_cons a, .cons (hFirst b rfl) hRest⟩

def optionText (option value : String) : String := " --" ++ option ++ " " ++ value

theorem JobContext.script_eq (context : JobContext) (name : String) (arguments : List (String × String)) :
    context.script name arguments = "sh 'python3 " ++ context.scripts ++ "/" ++ name ++
      (optionText "project-id" (Text.ofInt64 context.project) ++
        (optionText "stage-id" (Text.ofInt64 context.stage) ++
          (optionText "publish-job-id" (Text.ofInt64 context.job) ++
            String.join (arguments.map fun argument => optionText argument.1 argument.2)))) ++ "'" := by
  rw [← String.join_cons, ← String.join_cons, ← String.join_cons]
  rfl

/-- The text of the command that checks a workload for a job. -/
def Workload.checkText (workload : Workload) (scripts : String) (project stage job : Int64)
    (cluster space : String) : String :=
  "sh 'python3 " ++ scripts ++ "/healthcheck.py --project-id " ++ Text.ofInt64 project ++
    " --stage-id " ++ Text.ofInt64 stage ++ " --publish-job-id " ++ Text.ofInt64 job ++
    " --cluster " ++ cluster ++ " --namespace " ++ space ++ " --app-name " ++ workload.app ++
    " --service-name " ++ workload.resource ++ "'"

theorem Workload.command_eq (workload : Workload) (scripts : String) (project stage job : Int64)
    (cluster space : String) :
    workload.command ⟨project, stage, job, scripts⟩ cluster space =
      ⟨workload.resource, agentContainer, workload.checkText scripts project stage job cluster space⟩ := by
  have hName : ∀ rest : String, "/" ++ ("healthcheck.py" ++ (" --project-id " ++ rest)) =
      "/healthcheck.py --project-id " ++ rest := by
    intro rest
    rw [← String.append_assoc, ← String.append_assoc]
    simp only [String.reduceAppend]
  unfold Workload.command Workload.checkText
  rw [JobContext.script_eq]
  simp only [List.map_cons, List.map_nil, String.join_cons, String.join_nil, String.append_empty,
    optionText, String.reduceAppend]
  simp only [String.append_assoc, hName]

namespace Engine

variable {engine : Engine} {project orderId stage : Int64} {past : List Exchange} {world : World}

theorem Deployment.steps_plan (deployment : Deployment) {job : Int64} {step : RenderedStep}
    (h : step ∈ (deployment.plan engine project orderId stage job).steps) :
    step.kind = .healthCheck ∧ step.commands = deployment.rendered.flatMap fun app =>
      app.workloads.map fun workload => ⟨workload.resource, agentContainer, workload.checkText
        engine.scripts project stage job deployment.clusterName deployment.environment.space⟩ := by
  obtain ⟨task, hTask, rfl⟩ := List.mem_map.mp h
  have hCommand := funext fun workload : Workload => workload.command_eq engine.scripts project stage job
    deployment.clusterName deployment.environment.space
  refine ⟨of_decide_eq_true (List.mem_filter.mp hTask).2, ?_⟩
  rw [← List.map_flatMap, ← hCommand]
  rfl

def worksOf (past : List Exchange) : List Exchange := past.filter fun e => e.call.works

theorem worksOf_of_quiet (h : Quiet past) : worksOf past = [] := by
  apply List.filter_eq_nil_iff.mpr
  intro e he
  rw [Call.works_of_isQuiet (h e he)]
  exact Bool.false_ne_true

theorem worksOf_snoc {e : Exchange} (h : e.call.works = true) :
    worksOf (past ++ [e]) = worksOf past ++ [e] := by
  have hAll : ∀ other ∈ [e], other.call.works = true := List.forall_mem_singleton.mpr h
  unfold worksOf
  rw [List.filter_append, List.filter_eq_self.mpr hAll]

theorem worksOf_snoc_of_not {e : Exchange} (h : e.call.works = false) :
    worksOf (past ++ [e]) = worksOf past := by
  have hNone : ∀ other ∈ [e], ¬ other.call.works = true :=
    List.forall_mem_singleton.mpr (by simp [h])
  unfold worksOf
  rw [List.filter_append, List.filter_eq_nil_iff.mpr hNone, List.append_nil]

/-- Nothing has been submitted, or a job was stored and its plan submitted after the given work. -/
def LaunchedAfter (work : List Exchange) (server : CiServer) (name : String) (draft : JobDraft)
    (planFor : Int64 → Plan) : Knowledge := fun past =>
  Unsubmitted past ∨ ∃ job reply, worksOf past = work ++
    [⟨.update (.insertJob draft), .ok (.created job)⟩] ++
    [⟨.errand (.submit server name (planFor job)), reply⟩]

theorem launchedAfter_launch {work : List Exchange} {found : Order} {server : CiServer}
    {draft : JobDraft} {planFor : Int64 → Plan} (unsubmitted : Unsubmitted past)
    (done : worksOf past = work) :
    let launched := LaunchedAfter work server
      (engine.jobName draft.kind draft.project draft.order draft.stage) draft planFor
    (launch engine found server draft planFor).Obeys (fun _ _ => True) (fun _ => launched)
      (fun _ => launched) past := by
  intro launched
  have hSubmit : ∀ job between, worksOf between =
        work ++ [⟨.update (.insertJob draft), .ok (.created job)⟩] →
      (do
        let run ← errand (.submission draft.kind) (.submit server
          (engine.jobName draft.kind draft.project draft.order draft.stage) (planFor job))
        update (.startJob job run)
        pure (⟨run, engine.jobName draft.kind draft.project draft.order draft.stage⟩ : Launch) :
          Operation Launch).Obeys (fun _ _ => True) (fun _ => launched) (fun _ => launched)
        between := by
    intro job between hBetween
    apply obeys_errand_bind trivial
    · intro run
      apply obeys_update_bind trivial
      · intro _
        exact .inr ⟨job, .ok run, by rw [worksOf_snoc_of_not rfl, worksOf_snoc rfl, hBetween]⟩
      · intro _
        exact .inr ⟨job, .ok run, by rw [worksOf_snoc_of_not rfl, worksOf_snoc rfl, hBetween]⟩
    · intro failure
      exact .inr ⟨job, .error failure, by rw [worksOf_snoc rfl, hBetween]⟩
  apply obeys_insertJob_bind trivial
  · -- starting the order is no work, so both ways lead to the same submission
    intro job
    unfold startOrder
    split
    · refine obeys_update_bind trivial (fun _ => ?_) fun _ => .inl ((unsubmitted.snoc rfl).snoc rfl)
      exact hSubmit job _ (by rw [worksOf_snoc_of_not rfl, worksOf_snoc rfl, done])
    · exact hSubmit job _ (by rw [worksOf_snoc rfl, done])
  · intro _ _
    exact .inl (unsubmitted.snoc rfl)

/-- The apps that a deploy rolls out: a part of those requested, in their order, each rendered from what is
stored for it, for the environment of the stage. -/
structure Rollout (world : World) (project orderId stage : Int64) (request : DeployRequest) where
  environment : Environment
  environment_stored : world.store.answer (.environment project stage) = some environment
  clusterName : String
  cluster : Cluster
  cluster_stored : ∃ setting, world.store.answer (.setting environment.cluster) = some setting ∧
    setting.name = clusterName ∧ setting.config = .cluster cluster
  chosen : List DeployApp
  chosen_sublist : chosen.Sublist request.apps
  rendered : List RenderedApp
  rendered_forall₂ : List.Forall₂ (fun requested rendered => ∃ source : Source,
    source.RendersTo world orderId environment.id requested rendered) chosen rendered

namespace Rollout

variable {request : DeployRequest}

def applied (rollout : Rollout world project orderId stage request) : Exchange :=
  ⟨.errand (.apply rollout.cluster
    { cluster := rollout.clusterName, space := rollout.environment.space,
      manifest := Manifest.join (rollout.rendered.map (·.manifest)), project := project, stage := stage,
      waitReady := true }), .ok ()⟩

def inserted (rollout : Rollout world project orderId stage request) (job : Int64) : Exchange :=
  ⟨.update (.insertJob
    { order := orderId, project := project, stage := stage, kind := .deploy, creator := request.creator,
      apps := rollout.rendered.map (·.record) }), .ok (.created job)⟩

def checks (rollout : Rollout world project orderId stage request) (scripts : String) (job : Int64) :
    List StepCommand :=
  rollout.rendered.flatMap fun app => app.workloads.map fun workload =>
    ⟨workload.resource, agentContainer, workload.checkText scripts project stage job rollout.clusterName
      rollout.environment.space⟩

end Rollout

/-- Every plan that was submitted belongs to a rollout, whose manifests were applied and whose apps the job
remembers before. -/
def RollsOut (engine : Engine) (world : World) (project orderId stage : Int64) (request : DeployRequest) :
    Knowledge := fun past =>
  ∀ server name plan reply, ⟨.errand (.submit server name plan), reply⟩ ∈ past →
    ∃ (rollout : Rollout world project orderId stage request) (job : Int64),
      worksOf past = [rollout.applied, rollout.inserted job,
        ⟨.errand (.submit server name plan), reply⟩] ∧
      ∀ step ∈ plan.steps, step.kind = .healthCheck ∧ step.commands = rollout.checks engine.scripts job

theorem rollsOut_of_unsubmitted {request : DeployRequest} (h : Unsubmitted past) :
    engine.RollsOut world project orderId stage request past := by
  intro server name plan reply hMem
  cases h _ hMem

theorem Deployment.rollsOut_rest {deployment : Deployment} {request : DeployRequest}
    (stored : deployment.StoredIn world project orderId stage request) (quiet : Quiet past) :
    (deployment.rest engine project orderId stage request).Obeys (fun _ _ => True)
      (fun _ => engine.RollsOut world project orderId stage request)
      (fun _ => engine.RollsOut world project orderId stage request) past := by
  obtain ⟨chosen, hSublist, hRendered⟩ := exists_sublist_of_forall₂ stored.results
  let rollout : Rollout world project orderId stage request :=
    { environment := deployment.environment
      environment_stored := stored.environment
      clusterName := deployment.clusterName
      cluster := deployment.cluster
      cluster_stored := stored.cluster
      chosen := chosen
      chosen_sublist := hSublist
      rendered := deployment.rendered
      rendered_forall₂ := hRendered }
  have hUnsubmitted := quiet.unsubmitted
  -- the launch knows nothing of rollouts: it says in which order work was done after the manifests
  have hRollsOut : ∀ later, LaunchedAfter [rollout.applied] deployment.server
      (engine.jobName .deploy project orderId stage) (deployment.draft project orderId stage request)
      (deployment.plan engine project orderId stage) later →
      engine.RollsOut world project orderId stage request later := by
    rintro later (hNone | ⟨job, reply, hWorks⟩)
    · exact rollsOut_of_unsubmitted hNone
    · intro server name plan answer hMem
      have hSubmit : ⟨.errand (.submit server name plan), answer⟩ ∈ worksOf later :=
        List.mem_filter.mpr ⟨hMem, rfl⟩
      rw [hWorks] at hSubmit
      rcases List.mem_append.mp hSubmit with hOther | hSubmit
      · simp [Rollout.applied] at hOther
      · cases List.mem_singleton.mp hSubmit
        exact ⟨rollout, job, hWorks, fun step hStep => deployment.steps_plan hStep⟩
  apply obeys_errand_bind trivial
  · intro answer
    have hDone : worksOf (past ++ [rollout.applied]) = [rollout.applied] := by
      rw [worksOf_snoc rfl, worksOf_of_quiet quiet]
      rfl
    apply (launchedAfter_launch (hUnsubmitted.snoc rfl) hDone).relax
    · intro _ _ _
      trivial
    · intro _ later
      exact hRollsOut _
    · intro _ later
      exact hRollsOut _
  · intro failure
    exact rollsOut_of_unsubmitted (hUnsubmitted.snoc rfl)

theorem rollsOut_deploy (engine : Engine) (world : World) (project orderId stage : Int64)
    (request : DeployRequest) :
    (deploy engine project orderId stage request).Meets (fun _ _ _ => True)
      (fun _ past _ => engine.RollsOut world project orderId stage request past)
      (fun _ past _ => engine.RollsOut world project orderId stage request past) [] world := by
  apply (comesTo_deploy request).meets
  · intro _ _ _ _
    trivial
  · intro _ own hQuiet
    exact rollsOut_of_unsubmitted hQuiet.unsubmitted
  · rintro _ own hQuiet ⟨deployment, hStored, rfl⟩
    exact (deployment.rollsOut_rest hStored hQuiet).meets world

/-- For each plan that a deploy submits there is a rollout: the manifest that was applied joins those of its
apps, the job remembers the same apps, and each step of the plan checks the workloads of the same manifests,
where they were applied and for the same job. -/
theorem exists_rollout_of_submit {σ : Type} (engine : Engine) (project orderId stage : Int64)
    (request : DeployRequest) (rule : Rule σ) (world : World) (state : σ) {server : CiServer}
    {name : String} {plan : Plan} {reply : Except ErrandError Int64} :
    let run := (deploy engine project orderId stage request).run.run rule world state
    ⟨.errand (.submit server name plan), reply⟩ ∈ run.exchanges →
      ∃ (rollout : Rollout world project orderId stage request) (job : Int64),
        run.exchanges.filter (fun e => e.call.works) = [rollout.applied, rollout.inserted job,
          ⟨.errand (.submit server name plan), reply⟩] ∧
        ∀ step ∈ plan.steps,
          step.kind = .healthCheck ∧ step.commands = rollout.checks engine.scripts job := by
  intro run submitted
  have hEnds := Program.Meets.ends_run (rollsOut_deploy engine world project orderId stage request) rule state
  have hRollsOut : engine.RollsOut world project orderId stage request run.exchanges := by
    change outcome _ _ run.value ([] ++ run.exchanges) _ at hEnds
    generalize run.value = value at hEnds
    cases value with
    | ok launch => exact hEnds
    | error e => exact hEnds
  exact hRollsOut server name plan reply submitted

def bundle : World :=
  { contested with store := { contested.store with
      jobs := []
      arrangements := [⟨32, 12, 3, "kind: Deployment\nmetadata:\n  name: web\nspec:\n" ++
        "  image: registry/app:v1\n---\nkind: StatefulSet\nmetadata:\n  name: search\n"⟩] } }

/-- The app is asked for twice, and its repository is not found the first time. -/
theorem exists_rollout_of_submit_in_bundle :
    let engine := Engine.ofServer "http://conveyor.local"
    let request : DeployRequest := ⟨"alice", [⟨12⟩, ⟨12⟩]⟩
    let run := (engine.deploy 1 5 3 request).run.run FaultPlan.disturb bundle
      { FaultPlan.none with gaps := [(.repository, .after 0)] }
    ∃ server name plan reply, ⟨.errand (.submit server name plan), reply⟩ ∈ run.exchanges ∧
      plan.steps.flatMap (fun step => step.commands.map (·.name)) = ["web", "search"] ∧
      ∃ (rollout : Rollout bundle 1 5 3 request) (job : Int64),
        run.exchanges.filter (fun e => e.call.works) = [rollout.applied, rollout.inserted job,
          ⟨.errand (.submit server name plan), reply⟩] ∧
        ∀ step ∈ plan.steps,
          step.kind = .healthCheck ∧ step.commands = rollout.checks engine.scripts job := by
  intro engine request run
  have hChecks : (run.exchanges.any fun e => e.call.plan?.any fun plan =>
      plan.steps.flatMap (fun step => step.commands.map (·.name)) = ["web", "search"]) = true := by
    decide +kernel
  obtain ⟨⟨c, reply⟩, hMem, hCall⟩ := List.any_eq_true.mp hChecks
  obtain ⟨plan, hPlan, hNames⟩ := (Option.any_eq_true _ _).mp hCall
  obtain ⟨server, name, rfl⟩ := Call.exists_of_plan? hPlan
  exact ⟨server, name, plan, reply, hMem, of_decide_eq_true hNames,
    exists_rollout_of_submit engine 1 5 3 request FaultPlan.disturb bundle _ hMem⟩

end Engine

end DeliveryPipeline
