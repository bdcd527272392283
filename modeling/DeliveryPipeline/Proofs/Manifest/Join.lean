import DeliveryPipeline.Manifest
import DeliveryPipeline.Proofs.Yaml.Event
import DeliveryPipeline.Proofs.Yaml.Separator

/-! # The workloads of joined manifests

Joining manifests puts a line with a document marker between their texts, without the line feeds around them.
What is read from the whole is what is read from the parts, one after the other. Only the line feeds
matter: the last ones of a manifest may belong to a block scalar, which is another text without them.
-/

namespace DeliveryPipeline

set_option autoImplicit false

open Yaml

theorem Yaml.Document.split_append {E E' : List Event} {d : Document} {documents more : List Document}
    (h : split E d = some documents) (h' : split E' .empty = some more)
    (starts : E' = [] ∨ ∃ rest, E' = .documentStart :: rest) : split (E ++ E') d = some (documents ++ more) := by
  induction E generalizing d documents with
  | nil =>
    obtain rfl := Option.some.inj h
    rcases starts with rfl | ⟨rest, rfl⟩
    · exact h'
    · exact h'
  | cons e E ih =>
    cases e with
    | documentStart => exact ih h
    | documentEnd =>
      obtain ⟨rest, hRest, rfl⟩ := Option.map_eq_some_iff.mp h
      simp only [List.cons_append, split, ih hRest, Option.map_some]
    | _ =>
      obtain ⟨d', hAdd, hRest⟩ := Option.bind_eq_some_iff.mp h
      simp only [List.cons_append, split, hAdd, Option.bind_some, ih hRest]

namespace Manifest

variable {text more : List Char} {names names' : List String} {E E' : List Event}

def eventNames (events : List Event) : Option (List String) := do
  let documents ← Document.split events .empty
  let nodes ← documents.mapM Document.node?
  some (nodes.filterMap workloadName?)

/-- The workloads that the documents of a text declare. -/
def textNames (text : List Char) : Option (List String) := do
  let tokens ← Token.ofChars? text
  let events ← Event.ofTokens? tokens
  eventNames events

/-- The null of a text without documents declares nothing. -/
theorem resourceNames_eq_ok_iff {manifest : String} :
    resourceNames manifest = .ok names ↔ textNames manifest.toList = some names := by
  have hDocuments : (Node.documents? manifest.toList).map (·.filterMap workloadName?) =
      textNames manifest.toList := by
    unfold Node.documents? textNames
    cases Token.ofChars? manifest.toList with
    | none => rfl
    | some tokens =>
      dsimp only [Option.bind_eq_bind, Option.bind_some]
      cases Event.ofTokens? tokens with
      | none => rfl
      | some events =>
        dsimp only [Option.bind_some, eventNames]
        cases Document.split events .empty with
        | none => rfl
        | some documents =>
          cases documents with
          | nil => rfl
          | cons document documents => exact Option.map_eq_bind
  rw [← hDocuments, resourceNames]
  cases Node.documents? manifest.toList with
  | none => simp
  | some documents => simp

theorem eventNames_append (h : eventNames E = some names) (h' : eventNames E' = some names')
    (starts : E' = [] ∨ ∃ rest, E' = .documentStart :: rest) : eventNames (E ++ E') = some (names ++ names') := by
  obtain ⟨documents, hSplit, h⟩ := Option.bind_eq_some_iff.mp h
  obtain ⟨nodes, hNodes, h⟩ := Option.bind_eq_some_iff.mp h
  obtain ⟨documents', hSplit', h'⟩ := Option.bind_eq_some_iff.mp h'
  obtain ⟨nodes', hNodes', h'⟩ := Option.bind_eq_some_iff.mp h'
  obtain rfl := Option.some.inj h
  obtain rfl := Option.some.inj h'
  simp [eventNames, Document.split_append hSplit hSplit' starts, List.mapM_append, hNodes, hNodes']

theorem eventNames_emptyDocument : eventNames Machine.emptyDocument = some [] := rfl

theorem textNames_append (h : textNames (text ++ ['\n']) = some names) (h' : textNames more = some names') :
    textNames (text ++ Yaml.separator ++ more) = some (names ++ names') := by
  obtain ⟨tokens, hTokens, hRead⟩ := Option.bind_eq_some_iff.mp h
  obtain ⟨events, hEvents, hNames⟩ := Option.bind_eq_some_iff.mp hRead
  obtain ⟨tokens', hTokens', hRead'⟩ := Option.bind_eq_some_iff.mp h'
  obtain ⟨events', hEvents', hNames'⟩ := Option.bind_eq_some_iff.mp hRead'
  obtain ⟨T, rfl, hUnended⟩ := Token.exists_of_ofChars? hTokens
  obtain ⟨T', rfl, hUnended'⟩ := Token.exists_of_ofChars? hTokens'
  obtain ⟨T₀, hT, hBoth⟩ := Token.ofChars?_append hTokens hTokens'
  obtain rfl := List.append_cancel_right hT
  have hClosed : Stream.nesting T.reverse = 0 := by
    rw [nesting_reverse]
    exact Event.depth_eq_zero hEvents hUnended
  obtain ⟨between, hBetween, hAll⟩ := Event.ofTokens?_append hEvents hEvents' hUnended hUnended'
  have hStarts := Machine.run_streamStart hEvents'
  have hSecond : eventNames (between ++ events') = some names' := by
    rcases hBetween with rfl | rfl
    · exact hNames'
    · exact eventNames_append eventNames_emptyDocument hNames' hStarts
  have hStarts' : between ++ events' = [] ∨ ∃ rest, between ++ events' = .documentStart :: rest := by
    rcases hBetween with rfl | rfl
    · exact hStarts
    · exact .inr ⟨_, rfl⟩
  simp only [textNames, hBoth hClosed, hAll, Option.bind_eq_bind, Option.bind_some,
    eventNames_append hNames hSecond hStarts']

theorem resourceNames_append {first rest : String} (h : resourceNames (first ++ "\n") = .ok names)
    (h' : resourceNames rest = .ok names') :
    resourceNames (first ++ separator ++ rest) = .ok (names ++ names') := by
  rw [resourceNames_eq_ok_iff, String.toList_append] at h
  rw [resourceNames_eq_ok_iff] at h' ⊢
  rw [String.toList_append, String.toList_append]
  exact textNames_append h h'

theorem join_cons {manifest next : String} {later : List String} :
    join (manifest :: next :: later) = trimmed manifest ++ separator ++ join (next :: later) :=
  String.intercalate_cons_cons

theorem exists_of_mapM_cons {α β ε : Type} {g : α → Except ε β} {a : α} {l : List α} {found : List β}
    (h : (a :: l).mapM g = .ok found) : ∃ b rest, g a = .ok b ∧ l.mapM g = .ok rest ∧ found = b :: rest := by
  rw [List.mapM_cons] at h
  cases hOwn : g a with
  | error e =>
    rw [hOwn] at h
    cases h
  | ok b =>
    cases hRest : l.mapM g with
    | error e =>
      rw [hOwn, hRest] at h
      cases h
    | ok rest =>
      rw [hOwn, hRest] at h
      exact ⟨b, rest, rfl, rfl, (Except.ok.inj h).symm⟩

/-- Joined manifests declare what each of them declares, one after the other, as long as each does so without
the line feeds around it. Those before the last one keep the line feed that ends their last line. -/
theorem resourceNames_join {manifests : List String} {names : List (List String)}
    (accepted : manifests.mapM resourceNames = .ok names)
    (ended : ∀ manifest ∈ manifests.dropLast, resourceNames (trimmed manifest ++ "\n") = resourceNames manifest)
    (last : ∀ manifest ∈ manifests.getLast?, resourceNames (trimmed manifest) = resourceNames manifest) :
    resourceNames (join manifests) = .ok names.flatten := by
  induction manifests generalizing names with
  | nil =>
    obtain rfl := Except.ok.inj accepted
    rfl
  | cons manifest manifests ih =>
    obtain ⟨own, others, hOwn, hOthers, rfl⟩ := exists_of_mapM_cons accepted
    cases manifests with
    | nil =>
      obtain rfl := Except.ok.inj hOthers
      have hJoin : join [manifest] = trimmed manifest := String.intercalate_singleton
      rw [hJoin, last manifest rfl, hOwn]
      simp
    | cons next later =>
      rw [join_cons, List.flatten_cons]
      refine resourceNames_append ((ended manifest List.mem_cons_self).trans hOwn) (ih hOthers ?_ ?_)
      · exact fun m hm => ended m (List.mem_cons_of_mem _ hm)
      · exact fun m hm => last m hm

theorem resourceNames_join_of_two :
    resourceNames (join ["kind: Deployment\nmetadata:\n  name: web\n",
      "# data\nkind: StatefulSet\nmetadata: { name: db }\n"]) = .ok ["web", "db"] := by
  refine @resourceNames_join _ [["web"], ["db"]] rfl ?_ ?_
  · intro manifest hManifest
    obtain rfl := List.mem_singleton.mp hManifest
    rfl
  · rintro manifest ⟨⟩
    rfl

/-- The line feed that ends a block scalar is part of it, and lost with the others. -/
theorem resourceNames_join_of_block :
    ¬∀ (manifests : List String) (names : List (List String)), manifests.mapM resourceNames = .ok names →
      resourceNames (join manifests) = .ok names.flatten := by
  intro h
  have hJoined : resourceNames (join ["metadata:\n  name: web\nkind: |\n  Deployment\n"]) = .ok ["web"] := rfl
  have hAlone := h ["metadata:\n  name: web\nkind: |\n  Deployment\n"] [[]] rfl
  rw [hJoined] at hAlone
  simp at hAlone

end Manifest

end DeliveryPipeline
