import DeliveryPipeline.Proofs.Wire.Lawful
import DeliveryPipeline.Wire.Message

/-! # Requests and answers are read as they were written

Each record names its fields once for reading and once for writing, with the same keys. So a request and an
answer come out of their wire forms as they went in.
-/

namespace DeliveryPipeline

set_option autoImplicit false

open WireRecord (entries)

instance : LawfulWire JobKind 0 := .ofNamed fun kind => by cases kind <;> rfl

instance : LawfulWire JobStatus 0 := .ofNamed fun status => by cases status <;> rfl

instance : LawfulWire Outcome 0 := .ofNamed fun outcome => by cases outcome <;> rfl

instance : LawfulWire OrderStatus 0 := .ofNamed fun status => by cases status <;> rfl

instance : LawfulRecord Variable 0 where
  recovers {a _} h := by
    cases a
    refine .seq (.map (h.field ?_)) (h.field ?_) <;> simp [entries]

instance : LawfulRecord BuildApp 0 where
  recovers {a _} h := by
    cases a
    refine .seq (.seq (.seq (.map (h.field ?_)) (h.field ?_)) (h.field ?_)) (h.field ?_) <;> simp [entries]

instance : LawfulRecord BuildRequest 2 where
  recovers {a _} h := by
    cases a
    refine .seq (.seq (.map (h.field ?_)) (h.field ?_)) (h.field ?_) <;> simp [entries]

instance : LawfulRecord DeployApp 0 where
  recovers {a _} h := by
    cases a
    exact .map (h.field (by simp [entries]))

instance : LawfulRecord DeployRequest 2 where
  recovers {a _} h := by
    cases a
    refine .seq (.map (h.field ?_)) (h.field ?_) <;> simp [entries]

instance : LawfulRecord TerminateRequest 0 where
  recovers {a _} h := by
    cases a
    exact .map (h.field (by simp [entries]))

instance : LawfulRecord Callback 0 where
  recovers {a _} h := by
    cases a
    refine .seq (.map (h.field ?_)) (h.field ?_) <;> simp [entries]

instance : LawfulRecord ConfirmRequest 0 where
  recovers {a _} h := by
    cases a
    refine .seq (.map (h.field ?_)) (h.field ?_) <;> simp [entries]

instance : LawfulRecord Launch 0 where
  recovers {a _} h := by
    cases a
    refine .seq (.map (h.field ?_)) (h.field ?_) <;> simp [entries]

instance : LawfulRecord Progress 1 where
  recovers {a _} h := by
    cases a
    refine .seq (.seq (.seq (.map (h.field ?_)) (h.field ?_)) (h.field ?_)) (h.field ?_) <;> simp [entries]

instance : LawfulRecord StepRecord 0 where
  recovers {a _} h := by
    cases a
    refine .seq (.seq (.map (h.field ?_)) (h.field ?_)) (h.field ?_) <;> simp [entries]

instance : LawfulRecord ManualHistory 1 where
  recovers {a _} h := by
    cases a
    refine .seq (.map (h.field ?_)) (h.field ?_) <;> simp [entries]

instance : LawfulRecord StepTypeInfo 0 where
  recovers {a _} h := by
    cases a
    refine .seq (.map (h.field ?_)) (h.field ?_) <;> simp [entries]

instance : LawfulRecord LastStepCheck 0 where
  recovers {a _} h := by
    cases a
    refine .seq (.map (h.field ?_)) (h.field ?_) <;> simp [entries]

instance : LawfulRecord BranchChoice 1 where
  recovers {a _} h := by
    cases a
    refine .seq (.seq (.seq (.seq (.seq (.seq (.seq (.seq (.map (h.field ?_)) (h.field ?_))
      (h.field ?_)) (h.field ?_)) (h.field ?_)) (h.field ?_)) (h.field ?_)) (h.field ?_)) (h.field ?_) <;>
        simp [entries]

instance : LawfulRecord BranchPreview 3 where
  recovers {a _} h := by
    cases a
    refine .seq (.seq (.map (h.field ?_)) (h.field ?_)) (h.field ?_) <;> simp [entries]

instance : LawfulRecord AppImage 0 where
  recovers {a _} h := by
    cases a
    refine .seq (.seq (.seq (.map (h.field ?_)) (h.field ?_)) (h.field ?_)) (h.field ?_) <;> simp [entries]

end DeliveryPipeline
