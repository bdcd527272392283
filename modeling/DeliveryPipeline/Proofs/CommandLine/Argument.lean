import DeliveryPipeline.CommandLine.Argument
import DeliveryPipeline.Proofs.Text.Integer
import DeliveryPipeline.Text.Blank

/-! # Arguments are read as they are written

An app to build is written as a number, a branch and possibly a command, with colons between them, and a
variable as a key and a value with an equals sign between them. Exactly the arguments that are written like
this are read, and what is read are the parts that were written.
-/

namespace DeliveryPipeline

set_option autoImplicit false

open Text (IsDecimal)

namespace BuildApp

def written (id branch : String) (command : Option String) : String :=
  id ++ ":" ++ branch ++ command.elim "" (":" ++ ·)

/-- The argument consists of the app's number, its branch and its command, if it has one. -/
structure IsWrittenAs (app : BuildApp) (argument : String) : Prop where
  parts : ∃ id, IsDecimal id.toList app.app.toInt ∧
    argument = written id app.branch app.compileCommand
  nonempty : app.branch ≠ ""
  unmarked : ':' ∉ app.branch.toList
  path : app.path = ""

theorem toList_written (id branch : String) (command : Option String) :
    (written id branch command).toList = id.toList ++ ':' :: (branch.toList ++
      match command with
      | none => []
      | some command => ':' :: command.toList) := by
  cases command <;> simp [written, String.toList_append]

theorem colon_not_mem {id : List Char} {n : Int} (h : IsDecimal id n) : ':' ∉ id := by
  intro hMem
  rcases h.mem hMem with hColon | hColon | hColon <;> revert hColon <;> decide

theorem ofArgument_of_isWrittenAs {app : BuildApp} {argument : String} (h : app.IsWrittenAs argument) :
    ofArgument argument = .ok app := by
  obtain ⟨n, branch, path, command⟩ := app
  obtain ⟨⟨id, hId, rfl⟩, hNonempty, hUnmarked, hPath⟩ := h
  dsimp only at hId hNonempty hUnmarked hPath
  subst hPath
  have hNumber : Text.readInt64 id = .ok n := Text.readInt64_eq_ok_iff.mpr hId
  have hBranch : branch.toList.isEmpty = false := by simpa using hNonempty
  unfold ofArgument
  rw [toList_written, Text.cut_eq_some_iff.mpr ⟨colon_not_mem hId, rfl⟩]
  cases command with
  | none =>
    rw [List.append_nil]
    simp [Text.cut_eq_none_iff.mpr hUnmarked, hBranch, hNumber]
  | some command =>
    simp [Text.cut_eq_some_iff.mpr ⟨hUnmarked, rfl⟩, hBranch, hNumber]

theorem isWrittenAs_of_parts {app : BuildApp} {argument : String} {id branch : List Char}
    {command : Option String} (parts : argument.toList = (written (.ofList id) (.ofList branch) command).toList)
    (unmarked : ':' ∉ branch)
    (h : (if branch.isEmpty then .error (.noBranch argument)
      else match Text.readInt64 (.ofList id) with
        | .ok n => .ok ⟨n, .ofList branch, "", command⟩
        | .error _ => .error (.badAppId (.ofList id))) = Except.ok (ε := ArgumentError) app) :
    app.IsWrittenAs argument := by
  split at h
  · cases h
  rename_i hNonempty
  split at h
  · rename_i n hNumber
    cases h
    refine ⟨⟨.ofList id, Text.readInt64_eq_ok_iff.mp hNumber, String.toList_inj.mp parts⟩, ?_, ?_, rfl⟩
    · simpa using hNonempty
    · simpa using unmarked
  · cases h

theorem isWrittenAs_of_ofArgument {app : BuildApp} {argument : String} (h : ofArgument argument = .ok app) :
    app.IsWrittenAs argument := by
  unfold ofArgument at h
  split at h
  · cases h
  rename_i id rest hCut
  obtain ⟨-, hArgument⟩ := Text.cut_eq_some_iff.mp hCut
  cases hSecond : Text.cut ':' rest with
  | none =>
    simp only [hSecond] at h
    refine isWrittenAs_of_parts ?_ (Text.cut_eq_none_iff.mp hSecond) h
    rw [hArgument, toList_written]
    simp
  | some halves =>
    simp only [hSecond] at h
    obtain ⟨hUnmarked, hRest⟩ := Text.cut_eq_some_iff.mp hSecond
    refine isWrittenAs_of_parts ?_ hUnmarked h
    rw [hArgument, toList_written, hRest]
    simp

theorem ofArgument_eq_ok_iff {app : BuildApp} {argument : String} :
    ofArgument argument = .ok app ↔ app.IsWrittenAs argument :=
  ⟨isWrittenAs_of_ofArgument, ofArgument_of_isWrittenAs⟩

end BuildApp

namespace Variable

/-- The argument consists of the variable's key and its value. -/
structure IsWrittenAs (entry : Variable) (argument : String) : Prop where
  parts : argument = entry.key ++ "=" ++ entry.value
  nonempty : entry.key ≠ ""
  unmarked : '=' ∉ entry.key.toList

theorem ofArgument_eq_ok_iff {entry : Variable} {argument : String} :
    ofArgument argument = .ok entry ↔ entry.IsWrittenAs argument := by
  obtain ⟨key, value⟩ := entry
  constructor
  · intro h
    unfold ofArgument at h
    split at h
    · rename_i c rest text hCut
      cases h
      obtain ⟨hUnmarked, hArgument⟩ := Text.cut_eq_some_iff.mp hCut
      refine ⟨String.toList_inj.mp ?_, ?_, ?_⟩
      · simpa using hArgument
      · simp
      · simpa using hUnmarked
    · cases h
  · rintro ⟨hParts, hNonempty, hUnmarked⟩
    dsimp only at hParts hNonempty hUnmarked
    have hCut : Text.cut '=' argument.toList = some (key.toList, value.toList) :=
      Text.cut_eq_some_iff.mpr ⟨hUnmarked, by simp [hParts]⟩
    obtain ⟨c, rest, hKey⟩ : ∃ c rest, key.toList = c :: rest :=
      List.exists_cons_of_ne_nil (by simpa using hNonempty)
    unfold ofArgument
    rw [hCut, hKey]
    simp [← hKey]

theorem ofArgument_of_keyless {argument : String}
    (keyless : '=' ∉ argument.toList ∨ ∃ value, argument = "=" ++ value) :
    ofArgument argument = .error (.noKey argument) := by
  unfold ofArgument
  rcases keyless with hUnmarked | ⟨value, rfl⟩
  · rw [Text.cut_eq_none_iff.mpr hUnmarked]
  · rw [Text.cut_eq_some_iff.mpr ⟨List.not_mem_nil, String.toList_append⟩]

end Variable

/-- An app that is written with the decimal text of its number is read back, and nothing is read as an app
that is not written as one; likewise for variables, of which those without a key are refused. -/
theorem CommandLine.arguments_read_as_written :
    (∀ (n : Int64) (branch : String) (command : Option String), branch ≠ "" → ':' ∉ branch.toList →
      BuildApp.ofArgument (BuildApp.written (Text.ofInt64 n) branch command) =
        .ok ⟨n, branch, "", command⟩) ∧
    (∀ (argument : String) (app : BuildApp),
      BuildApp.ofArgument argument = .ok app ↔ app.IsWrittenAs argument) ∧
    (∀ key value : String, key ≠ "" → '=' ∉ key.toList →
      Variable.ofArgument (key ++ "=" ++ value) = .ok ⟨key, value⟩) ∧
    (∀ (argument : String) (entry : Variable),
      Variable.ofArgument argument = .ok entry ↔ entry.IsWrittenAs argument) ∧
    ∀ argument : String, ('=' ∉ argument.toList ∨ ∃ value, argument = "=" ++ value) →
      Variable.ofArgument argument = .error (.noKey argument) := by
  refine ⟨?_, fun _ _ => BuildApp.ofArgument_eq_ok_iff, ?_, fun _ _ => Variable.ofArgument_eq_ok_iff,
    fun _ => Variable.ofArgument_of_keyless⟩
  · intro n branch command hNonempty hUnmarked
    exact BuildApp.ofArgument_of_isWrittenAs
      ⟨⟨_, Text.isDecimal_ofInt64 n, rfl⟩, hNonempty, hUnmarked, rfl⟩
  · intro key value hNonempty hUnmarked
    exact Variable.ofArgument_eq_ok_iff.mpr ⟨rfl, hNonempty, hUnmarked⟩

/-- A negative number and a command with colons, a value with equals signs, and two variables without key. -/
theorem CommandLine.arguments_read_as_written_in_sample :
    BuildApp.ofArgument "-12:release:make build:all" = .ok ⟨-12, "release", "", some "make build:all"⟩ ∧
      Variable.ofArgument "GOFLAGS=-mod=vendor" = .ok ⟨"GOFLAGS", "-mod=vendor"⟩ ∧
      Variable.ofArgument "NOVALUE" = .error (.noKey "NOVALUE") ∧
      Variable.ofArgument "=x" = .error (.noKey "=x") := by
  obtain ⟨hApp, -, hVariable, -, hKeyless⟩ := arguments_read_as_written
  refine ⟨?_, ?_, ?_, ?_⟩
  · exact hApp (-12) "release" (some "make build:all") (by decide) (by decide)
  · exact hVariable "GOFLAGS" "-mod=vendor" (by decide) (by decide)
  · exact hKeyless "NOVALUE" (.inl (by decide))
  · exact hKeyless "=x" (.inr ⟨"x", rfl⟩)

end DeliveryPipeline
