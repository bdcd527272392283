import DeliveryPipeline.Plan
import Mathlib.Tactic.Common

/-! # What the stage text says

The stage text of a plan is written line by line, and names, containers and commands go into it as they are.
A part ends where the mark behind it stands for the first time. As long as no part holds its own mark, the
text says which stages there are, in which containers they run and with which commands; a command may well
have several lines, quotes and braces.
-/

namespace DeliveryPipeline

set_option autoImplicit false

namespace Text

/-- Of the text with the mark behind it, only the end is the mark. -/
def EndedBy (mark s : List Char) : Prop := ¬ mark <:+: s ++ mark.dropLast

instance (mark s : List Char) : Decidable (EndedBy mark s) := inferInstanceAs (Decidable (¬ _))

variable {mark s t rest rest' : List Char}

theorem EndedBy.eq_nil {before : List Char} (h : EndedBy mark s)
    (split : s ++ mark = before ++ mark ++ rest) : rest = [] := by
  by_contra hRest
  refine h ⟨before, rest.dropLast, ?_⟩
  have hMark : mark ≠ [] := by
    rintro rfl
    exact h List.nil_infix
  have hInit := congrArg List.dropLast split
  rwa [List.dropLast_append_of_ne_nil hMark, List.dropLast_append_of_ne_nil hRest, eq_comm] at hInit

theorem EndedBy.eq_of_length_le (h : EndedBy mark t) (le : s.length ≤ t.length)
    (same : s ++ mark ++ rest = t ++ mark ++ rest') : s = t := by
  have hPrefix : s ++ mark <+: t ++ mark := by
    refine List.prefix_of_prefix_length_le (List.prefix_append _ rest) ?_ ?_
    · rw [same]
      exact List.prefix_append _ rest'
    · simp only [List.length_append]
      omega
  obtain ⟨more, hMore⟩ := hPrefix
  obtain rfl := h.eq_nil hMore.symm
  rw [List.append_nil] at hMore
  exact List.append_cancel_right hMore

theorem EndedBy.eq (hs : EndedBy mark s) (ht : EndedBy mark t)
    (same : s ++ mark ++ rest = t ++ mark ++ rest') : s = t ∧ rest = rest' := by
  have hPart : s = t := by
    rcases Nat.le_total s.length t.length with hLe | hLe
    · exact ht.eq_of_length_le hLe same
    · exact (hs.eq_of_length_le hLe same.symm).symm
  subst hPart
  exact ⟨rfl, List.append_cancel_left same⟩

theorem endedBy_of_not_mem {c : Char} (last : mark.getLast? = some c) (unmarked : c ∉ s) :
    EndedBy mark s := by
  obtain ⟨init, rfl⟩ := List.getLast?_eq_some_iff.mp last
  intro hInfix
  have hCount := hInfix.sublist.count_le c
  rw [List.dropLast_concat, List.count_append, List.count_append, List.count_eq_zero_of_not_mem unmarked,
    List.count_singleton_self] at hCount
  omega

end Text

/-- What stands behind the name of a stage, and behind the name of a container. -/
def headerMark : List Char := ['\x27', ')', ' ', '\x7b', '\n']

def commandMark : List Char := ['\n', ' ', ' ', ' ', ' ', '\x7d', '\n']

/-- The container and the command hold no mark of their own. -/
structure StepCommand.IsPlain (c : StepCommand) : Prop where
  container : Text.EndedBy headerMark c.container.toList
  command : Text.EndedBy commandMark c.command.toList

structure RenderedStep.IsPlain (step : RenderedStep) : Prop where
  name : Text.EndedBy headerMark step.name.toList
  commands : ∀ c ∈ step.commands, c.IsPlain

def RenderedStep.outline (step : RenderedStep) : String × List (String × String) :=
  (step.name, step.commands.map fun c => (c.container, c.command))

theorem StepCommand.toList_text (c : StepCommand) :
    c.text.toList = "    container('".toList ++ (c.container.toList ++ headerMark ++
      ("        ".toList ++ (c.command.toList ++ commandMark))) := by
  have hHeader : ("') \x7b\n        " : String).toList = headerMark ++ "        ".toList := by decide
  have hCommand : ("\n    \x7d\n" : String).toList = commandMark := by decide
  unfold StepCommand.text
  simp only [String.toList_append, List.append_assoc]
  rw [hHeader, hCommand, List.append_assoc]

theorem RenderedStep.toList_text (step : RenderedStep) :
    step.text.toList = "stage('".toList ++ (step.name.toList ++ headerMark ++
      (step.commands.flatMap (fun c => c.text.toList) ++ "\x7d".toList)) := by
  have hHeader : ("') \x7b\n" : String).toList = headerMark := by decide
  unfold RenderedStep.text
  simp only [String.toList_append, String.toList_join, List.flatMap_map, List.append_assoc]
  rw [hHeader]

/-- Commands are told apart by what stands behind them: a bracket at the margin, where a further command is
indented. -/
theorem outline_of_commands_text {commands commands' : List StepCommand} {rest rest' : List Char}
    (plain : ∀ c ∈ commands, c.IsPlain) (plain' : ∀ c ∈ commands', c.IsPlain)
    (same : commands.flatMap (fun c => c.text.toList) ++ ("\x7d".toList ++ rest) =
      commands'.flatMap (fun c => c.text.toList) ++ ("\x7d".toList ++ rest')) :
    commands.map (fun c => (c.container, c.command)) = commands'.map (fun c => (c.container, c.command)) ∧
      rest = rest' := by
  induction commands generalizing commands' with
  | nil =>
    cases commands' with
    | nil => exact ⟨rfl, List.append_cancel_left same⟩
    | cons c' more' =>
      rw [List.flatMap_nil, List.flatMap_cons, c'.toList_text] at same
      exact absurd (List.cons.inj same).1 (by decide)
  | cons c more ih =>
    cases commands' with
    | nil =>
      rw [List.flatMap_nil, List.flatMap_cons, c.toList_text] at same
      exact absurd (List.cons.inj same).1 (by decide)
    | cons c' more' =>
      obtain ⟨hPlain, hMore⟩ := List.forall_mem_cons.mp plain
      obtain ⟨hPlain', hMore'⟩ := List.forall_mem_cons.mp plain'
      rw [List.flatMap_cons, List.flatMap_cons, c.toList_text, c'.toList_text] at same
      simp only [List.append_assoc, List.append_cancel_left_eq] at same
      simp only [← List.append_assoc _ headerMark] at same
      obtain ⟨hContainer, hSame⟩ := hPlain.container.eq hPlain'.container same
      rw [List.append_cancel_left_eq, ← List.append_assoc, ← List.append_assoc _ commandMark] at hSame
      obtain ⟨hCommand, hSame⟩ := hPlain.command.eq hPlain'.command hSame
      obtain ⟨hOutline, hRest⟩ := ih hMore hMore' hSame
      refine ⟨?_, hRest⟩
      rw [List.map_cons, List.map_cons, hOutline, String.toList_inj.mp hContainer,
        String.toList_inj.mp hCommand]

theorem outline_of_step_text {step step' : RenderedStep} {rest rest' : List Char} (plain : step.IsPlain)
    (plain' : step'.IsPlain) (same : step.text.toList ++ rest = step'.text.toList ++ rest') :
    step.outline = step'.outline ∧ rest = rest' := by
  rw [step.toList_text, step'.toList_text] at same
  simp only [List.append_assoc, List.append_cancel_left_eq] at same
  simp only [← List.append_assoc _ headerMark] at same
  obtain ⟨hName, hSame⟩ := plain.name.eq plain'.name same
  obtain ⟨hCommands, hRest⟩ := outline_of_commands_text plain.commands plain'.commands hSame
  refine ⟨?_, hRest⟩
  rw [RenderedStep.outline, RenderedStep.outline, hCommands, String.toList_inj.mp hName]

def linesOf (steps : List RenderedStep) : List Char := steps.flatMap fun step => '\n' :: step.text.toList

theorem toList_stagesText (step : RenderedStep) (more : List RenderedStep) :
    (stagesText (step :: more)).toList = step.text.toList ++ linesOf more := by
  induction more generalizing step with
  | nil => simp [stagesText, linesOf]
  | cons next more ih =>
    have hNext : (stagesText (next :: more)).toList = next.text.toList ++ linesOf more := ih next
    rw [stagesText, List.map_cons] at hNext
    rw [stagesText, List.map_cons, List.map_cons, String.intercalate_cons_cons, String.toList_append,
      String.toList_append, hNext]
    simp [linesOf]

theorem outline_of_linesOf {steps steps' : List RenderedStep} (plain : ∀ step ∈ steps, step.IsPlain)
    (plain' : ∀ step ∈ steps', step.IsPlain) (same : linesOf steps = linesOf steps') :
    steps.map RenderedStep.outline = steps'.map RenderedStep.outline := by
  induction steps generalizing steps' with
  | nil =>
    cases steps' with
    | nil => rfl
    | cons step' more' => cases same
  | cons step more ih =>
    cases steps' with
    | nil => cases same
    | cons step' more' =>
      obtain ⟨hPlain, hMore⟩ := List.forall_mem_cons.mp plain
      obtain ⟨hPlain', hMore'⟩ := List.forall_mem_cons.mp plain'
      obtain ⟨hOutline, hRest⟩ := outline_of_step_text hPlain hPlain' (List.cons.inj same).2
      rw [List.map_cons, List.map_cons, hOutline, ih hMore hMore' hRest]

theorem outline_of_stagesText {steps steps' : List RenderedStep} (plain : ∀ step ∈ steps, step.IsPlain)
    (plain' : ∀ step ∈ steps', step.IsPlain) (same : stagesText steps = stagesText steps') :
    steps.map RenderedStep.outline = steps'.map RenderedStep.outline := by
  refine outline_of_linesOf plain plain' ?_
  have hSame := congrArg String.toList same
  cases steps with
  | nil =>
    cases steps' with
    | nil => rfl
    | cons step' more' =>
      rw [toList_stagesText, step'.toList_text] at hSame
      cases hSame
  | cons step more =>
    cases steps' with
    | nil =>
      rw [toList_stagesText, step.toList_text] at hSame
      cases hSame
    | cons step' more' =>
      rw [toList_stagesText, toList_stagesText] at hSame
      exact congrArg ('\n' :: ·) hSame

theorem RenderedStep.text_eq (step : RenderedStep) :
    step.text = RenderedStep.text ⟨step.outline.1, .unknown,
      step.outline.2.map fun (container, command) => ⟨"", container, command⟩⟩ := by
  have hCommands : step.commands.map StepCommand.text = (step.outline.2.map fun (container, command) =>
      (⟨"", container, command⟩ : StepCommand)).map StepCommand.text := by
    rw [RenderedStep.outline, List.map_map, List.map_map]
    rfl
  exact congrArg (fun texts => "stage('" ++ step.name ++ "') \x7b\n" ++ String.join texts ++ "\x7d") hCommands

theorem stagesText_eq_of_outline {steps steps' : List RenderedStep}
    (same : steps.map RenderedStep.outline = steps'.map RenderedStep.outline) :
    stagesText steps = stagesText steps' := by
  have hTexts := congrArg (List.map fun outline : String × List (String × String) =>
    RenderedStep.text ⟨outline.1, .unknown, outline.2.map fun (container, command) =>
      ⟨"", container, command⟩⟩) same
  simp only [List.map_map, Function.comp_def, ← RenderedStep.text_eq] at hTexts
  rw [stagesText, stagesText, hTexts]

theorem RenderedStep.isPlain_of_single_lines {step : RenderedStep} (name : '\n' ∉ step.name.toList)
    (commands : ∀ c ∈ step.commands, '\n' ∉ c.container.toList ∧ '\n' ∉ c.command.toList) :
    step.IsPlain where
  name := Text.endedBy_of_not_mem rfl name
  commands c hc := ⟨Text.endedBy_of_not_mem rfl (commands c hc).1, Text.endedBy_of_not_mem rfl (commands c hc).2⟩

/-- Two plans have the same stage text exactly if their steps have the same names, containers and commands, one
by one and in order; as long as no name and no container holds the end of its header, and no command holds
the line that closes its container. -/
theorem Plan.stages_eq_iff_of_plain (jobVariables jobVariables' : List Variable)
    (containers containers' : List ContainerTemplate) (callback callback' : CallbackDescriptor)
    (steps steps' : List RenderedStep) (plain : ∀ step ∈ steps, step.IsPlain)
    (plain' : ∀ step ∈ steps', step.IsPlain) :
    (ofSteps jobVariables containers steps callback).stages =
        (ofSteps jobVariables' containers' steps' callback').stages ↔
      steps.map RenderedStep.outline = steps'.map RenderedStep.outline :=
  ⟨outline_of_stagesText plain plain', stagesText_eq_of_outline⟩

/-- A script of two lines, with quotes, is not taken for two commands. -/
theorem Plan.stages_eq_iff_of_plain_in_sample :
    let script : RenderedStep := ⟨"compile", .compile, [⟨"web", "web", "sh 'npm ci\nnpm test'"⟩]⟩
    let commands : RenderedStep :=
      ⟨"compile", .compile, [⟨"web", "web", "sh 'npm ci"⟩, ⟨"web", "web", "npm test'"⟩]⟩
    script.IsPlain ∧ commands.IsPlain ∧ (ofSteps [] [] [script] ⟨"", "", .null⟩).stages ≠
      (ofSteps [] [] [commands] ⟨"", "", .null⟩).stages := by
  intro script commands
  have hScript : script.IsPlain := by
    refine ⟨Text.endedBy_of_not_mem (c := '\n') rfl (by decide), List.forall_mem_singleton.mpr ⟨?_, ?_⟩⟩
    · exact Text.endedBy_of_not_mem (c := '\n') rfl (by decide)
    · simp [Text.EndedBy, commandMark, List.infix_cons_iff]
  have hCommands : commands.IsPlain := RenderedStep.isPlain_of_single_lines (by decide) (by decide)
  refine ⟨hScript, hCommands, fun hSame => ?_⟩
  have hOutlines := (stages_eq_iff_of_plain [] [] [] [] _ _ [script] [commands]
    (List.forall_mem_singleton.mpr hScript) (List.forall_mem_singleton.mpr hCommands)).mp hSame
  revert hOutlines
  decide

/-- Line feeds in a command, in the name of a container and in the name of a step. Each closes what is open and
opens something else, so that the text of one command or step is that of two. -/
theorem Plan.stages_of_one_and_of_two :
    let stages := fun steps => (ofSteps [] [] steps ⟨"", "", .null⟩).stages
    let compile := fun commands : List (String × String) =>
      RenderedStep.mk "compile" .compile (commands.map fun (container, command) => ⟨"web", container, command⟩)
    let collide := fun steps steps' =>
      stages steps = stages steps' ∧ steps.map RenderedStep.outline ≠ steps'.map RenderedStep.outline
    collide [compile [("web", "sh 'make\n    \x7d\n    container('kaniko') \x7b\n        id'")]]
        [compile [("web", "sh 'make"), ("kaniko", "id'")]] ∧
      collide [compile [("web') \x7b\n        make\n    \x7d\n    container('kaniko", "id")]]
        [compile [("web", "make"), ("kaniko", "id")]] ∧
      collide [⟨"compile') \x7b\n\x7d\nstage('pack", .compile, []⟩]
        [⟨"compile", .compile, []⟩, ⟨"pack", .compile, []⟩] := by
  decide +kernel

end DeliveryPipeline
