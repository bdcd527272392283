import DeliveryPipeline.Call

/-! # The store

The records that the engine looks up and changes. A lookup takes the first record that fits; where
several may fit and the order matters, it says which one. Updates of records that are not there change
nothing. New jobs and confirmations are numbered upwards.
-/

namespace DeliveryPipeline

set_option autoImplicit false

structure Store where
  projects : List Project
  apps : List App
  repositories : List Repository
  environments : List Environment
  compileEnvironments : List CompileEnvironment
  arrangements : List Arrangement
  mappings : List ImageMapping
  orders : List Order
  orderApps : List OrderApp
  snapshots : List Snapshot
  jobs : List Job
  confirmations : List Confirmation
  settings : List Setting
  branches : List (Int64 × List String)
  tokens : List (String × String)

def sortedBy {α : Type} (key : α → Int64) (records : List α) : List α :=
  records.mergeSort fun a b => key a ≤ key b

/-- The number after all given ones, if there is one; the first number is one. -/
def nextNumber? (numbers : List Int64) : Option Int64 :=
  let greatest := numbers.foldl max 0
  if greatest < Int64.maxValue then some (greatest + 1) else none

namespace Store

def activeJobs (store : Store) (scope : Scope) : List Job :=
  sortedBy Job.id (store.jobs.filter fun job => job.isActive && scope.covers job)

def answer (store : Store) : (lookup : Lookup) → lookup.Answer
  | .project id => store.projects.find? fun p => p.id = id
  | .app id => store.apps.find? fun a => a.id = id
  | .apps ids => sortedBy App.id (store.apps.filter fun a => ids.contains a.id)
  | .environment project stage =>
    store.environments.find? fun e => e.id = stage && e.project = project
  | .repository id => store.repositories.find? fun r => r.id = id
  | .arrangement app environment =>
    store.arrangements.find? fun a => a.app = app && a.environment = environment
  | .imageMapping arrangement app =>
    (sortedBy ImageMapping.id
      (store.mappings.filter fun m => m.arrangement = arrangement && m.app = app)).head?
  | .compileEnvironment id => store.compileEnvironments.find? fun e => e.id = id
  | .compileEnvironmentNamed name => store.compileEnvironments.find? fun e => e.name = name
  | .branches app => (store.branches.lookup app).getD []
  | .setting id => store.settings.find? fun s => s.id = id
  | .token user => store.tokens.lookup user
  | .order id => store.orders.find? fun o => o.id = id
  | .orderApps order => sortedBy OrderApp.id (store.orderApps.filter fun a => a.order = order)
  | .orderApp order app => store.orderApps.find? fun a => a.order = order && a.app = app
  | .snapshot id => store.snapshots.find? fun s => s.id = id
  | .activeJobs scope => store.activeJobs scope
  | .job id => store.jobs.find? fun j => j.id = id
  | .latestJob order => (sortedBy Job.id (store.jobs.filter fun j => j.order = order)).getLast?
  | .confirmations snapshot stage stepIndex =>
    (sortedBy (fun c : Confirmation => c.id) (store.confirmations.filter fun c =>
      c.snapshot = snapshot && c.stage = stage && c.stepIndex = stepIndex)).reverse

def changeFirst {α : Type} (key : α → Int64) (id : Int64) (change : α → α) : List α → List α
  | [] => []
  | record :: rest =>
    if key record = id then change record :: rest else record :: changeFirst key id change rest

def changeOrder (store : Store) (id : Int64) (change : Order → Order) : Store :=
  { store with orders := changeFirst Order.id id change store.orders }

def changeJob (store : Store) (id : Int64) (change : Job → Job) : Store :=
  { store with jobs := changeFirst Job.id id change store.jobs }

def insertJob (store : Store) (draft : JobDraft) : Except StorageError Insertion × Store :=
  match store.activeJobs draft.scope with
  | [] =>
    match nextNumber? (store.jobs.map (·.id)) with
    | some id =>
      (.ok (.created id), { store with jobs := store.jobs ++ [Job.ofDraft id draft] })
    | none => (.error .unavailable, store)
  | active => (.ok (.busy (active.map (·.id))), store)

def addConfirmation (store : Store) (draft : ConfirmationDraft) :
    Except StorageError Int64 × Store :=
  match nextNumber? (store.confirmations.map (·.id)) with
  | some id =>
    (.ok id, { store with confirmations := store.confirmations ++ [⟨draft, id⟩] })
  | none => (.error .unavailable, store)

def update (store : Store) : (update : Update) → Except StorageError update.Answer × Store
  | .setOrderStatus id status =>
    (.ok (), store.changeOrder id fun order => { order with status := status })
  | .moveOrder id stepIndex step stepType status =>
    (.ok (), store.changeOrder id fun order =>
      if stepIndex < order.stepIndex then order
      else { order with stepIndex := stepIndex, step := step, stepType := stepType, status := status })
  | .insertJob draft => store.insertJob draft
  | .startJob id run =>
    (.ok (), store.changeJob id fun job => { job with run := some run, status := .running })
  | .setJobStatus id status => (.ok (), store.changeJob id fun job => { job with status := status })
  | .addConfirmation draft => store.addConfirmation draft

end Store

end DeliveryPipeline
