import DeliveryPipeline.Interleaving
import DeliveryPipeline.Proofs.Program.Obeys

/-! # Two programs under one invariant

Each program keeps to rules about its own exchanges, however the other one changes the world. What
relates the moves of both to the world is an invariant: it holds throughout if every call that the rules
of its side allow preserves it.
-/

namespace DeliveryPipeline

set_option autoImplicit false

def World.move (world : World) (turn : Turn) (c : Call) : Move :=
  ⟨turn.side, world, c, (world.reply turn.disturbance c).1, (world.reply turn.disturbance c).2⟩

theorem World.eq_of_move_exchange {world : World} {turn : Turn} {c c' : Call} {reply : c'.Reply}
    (h : (world.move turn c).exchange = ⟨c', reply⟩) :
    c = c' ∧ (world.reply turn.disturbance c').1 = reply := by
  obtain ⟨hCall, hReply⟩ := Exchange.mk.inj h
  subst hCall
  exact ⟨rfl, eq_of_heq hReply⟩

namespace Side

def exchanges (side : Side) (moves : List Move) : List Exchange :=
  (moves.filter fun move => move.side = side).map Move.exchange

theorem mem_exchanges {side : Side} {moves : List Move} {e : Exchange} :
    e ∈ side.exchanges moves ↔ ∃ move ∈ moves, move.side = side ∧ move.exchange = e := by
  simp [exchanges, and_assoc]

theorem exchanges_move (side : Side) {turn : Turn} (h : turn.side = side) {past : List Move}
    {world : World} {c : Call} : side.exchanges (past ++ [world.move turn c]) =
      side.exchanges past ++ [⟨c, (world.reply turn.disturbance c).1⟩] := by
  simp [exchanges, World.move, Move.exchange, h]

theorem exchanges_move_of_ne (side : Side) {turn : Turn} (h : turn.side ≠ side) {past : List Move}
    {world : World} {c : Call} :
    side.exchanges (past ++ [world.move turn c]) = side.exchanges past := by
  simp [exchanges, World.move, h]

end Side

variable {α β : Type}

theorem Program.Obeys.ends_of_isDone {allowed : Call → Knowledge} {ends : α → Knowledge}
    {past : List Exchange} {p : Program α} (h : p.Obeys allowed ends past) (done : p.isDone = true) :
    ∃ a, ends a past := by
  cases p with
  | done a => exact ⟨a, h⟩
  | call c next => cases done

/-- What two programs keep to: which calls either makes, and how it ends. -/
structure Rules (α β : Type) where
  calls : Side → Call → Knowledge
  left : α → Knowledge
  right : β → Knowledge

namespace Interleaving

def start (left : Operation α) (right : Operation β) (world : World) :
    Interleaving (Except EngineError α) (Except EngineError β) :=
  ⟨left.run, right.run, world⟩

structure Obeys (rules : Rules α β) (past : List Move) (pair : Interleaving α β) : Prop where
  left : pair.left.Obeys (rules.calls .left) rules.left (Side.left.exchanges past)
  right : pair.right.Obeys (rules.calls .right) rules.right (Side.right.exchanges past)

variable {rules : Rules α β} {past : List Move} {pair : Interleaving α β}

theorem Obeys.step_cases (h : pair.Obeys rules past) (turn : Turn) :
    pair.step turn = (none, pair) ∨ ∃ c pair', rules.calls turn.side c (turn.side.exchanges past) ∧
      pair.step turn = (some (pair.world.move turn c), pair') ∧
      pair'.world = (pair.world.move turn c).after ∧
      pair'.Obeys rules (past ++ [pair.world.move turn c]) := by
  obtain ⟨left, right, world⟩ := pair
  obtain ⟨side, disturbance⟩ := turn
  obtain ⟨hLeft, hRight⟩ := h
  cases side with
  | left =>
    cases left with
    | done a => exact .inl rfl
    | call c next =>
      obtain ⟨hAllowed, hNext⟩ := hLeft
      have hSide : Turn.side ⟨.left, disturbance⟩ = .left := rfl
      have hMoved := hNext (world.reply disturbance c).1
      rw [← Side.left.exchanges_move hSide] at hMoved
      refine .inr ⟨c, ⟨_, right, _⟩, hAllowed, rfl, rfl, hMoved, ?_⟩
      rwa [Side.right.exchanges_move_of_ne (by simp)]
  | right =>
    cases right with
    | done b => exact .inl rfl
    | call c next =>
      obtain ⟨hAllowed, hNext⟩ := hRight
      have hSide : Turn.side ⟨.right, disturbance⟩ = .right := rfl
      have hMoved := hNext (world.reply disturbance c).1
      rw [← Side.right.exchanges_move hSide] at hMoved
      refine .inr ⟨c, ⟨left, _, _⟩, hAllowed, rfl, rfl, ?_, hMoved⟩
      rwa [Side.left.exchanges_move_of_ne (by simp)]

theorem Obeys.holds (h : pair.Obeys rules past) (I : List Move → World → Prop) (turns : List Turn)
    (start : I [] pair.world)
    (step : ∀ turn ∈ turns, ∀ moves world c,
      rules.calls turn.side c (turn.side.exchanges (past ++ moves)) → I moves world →
        I (moves ++ [world.move turn c]) (world.move turn c).after) :
    I (pair.moves turns) (pair.finish turns).world ∧
      (pair.finish turns).Obeys rules (past ++ pair.moves turns) := by
  suffices hAll : ∀ moves, pair.Obeys rules (past ++ moves) → I moves pair.world →
      I (moves ++ pair.moves turns) (pair.finish turns).world ∧
        (pair.finish turns).Obeys rules (past ++ (moves ++ pair.moves turns)) from
    hAll [] (by rwa [List.append_nil]) start
  clear h start
  induction turns generalizing pair with
  | nil =>
    intro moves hObeys hHolds
    rw [Interleaving.moves, List.append_nil]
    exact ⟨hHolds, hObeys⟩
  | cons turn rest ih =>
    obtain ⟨hStep, hRest⟩ := List.forall_mem_cons.mp step
    intro moves hObeys hHolds
    rw [Interleaving.moves, finish]
    rcases hObeys.step_cases turn with hPass | ⟨c, pair', hAllowed, hMove, hWorld, hObeys'⟩
    · rw [hPass]
      exact ih hRest moves hObeys hHolds
    · have hHolds' := hStep moves pair.world c hAllowed hHolds
      rw [← hWorld] at hHolds'
      rw [List.append_assoc] at hObeys'
      have hEnd := ih hRest _ hObeys' hHolds'
      rw [List.append_assoc] at hEnd
      rw [hMove]
      exact hEnd

theorem exists_turn_of_moves_eq {turns : List Turn} {before after : List Move} {move : Move}
    (h : pair.moves turns = before ++ move :: after) :
    ∃ earlier turn later pair', turns = earlier ++ turn :: later ∧ pair.moves earlier = before ∧
      (pair.finish earlier).step turn = (some move, pair') ∧ pair'.moves later = after := by
  induction turns generalizing pair before with
  | nil => simp [moves] at h
  | cons turn rest ih =>
    rw [moves] at h
    generalize hStep : pair.step turn = stepped at h
    obtain ⟨none | first, pair'⟩ := stepped
    · obtain ⟨earlier, turn', later, pair'', rfl, hBefore, hMove, hAfter⟩ := ih h
      refine ⟨turn :: earlier, turn', later, pair'', rfl, ?_, ?_, hAfter⟩
      · simp [moves, hStep, hBefore]
      · simp [finish, hStep, hMove]
    · rcases before with _ | ⟨head, before⟩
      · obtain ⟨rfl, rfl⟩ := List.cons.inj h
        exact ⟨[], turn, rest, pair', rfl, rfl, hStep, rfl⟩
      · obtain ⟨rfl, hRest⟩ := List.cons.inj h
        obtain ⟨earlier, turn', later, pair'', rfl, hBefore, hMove, hAfter⟩ := ih hRest
        refine ⟨turn :: earlier, turn', later, pair'', rfl, ?_, ?_, hAfter⟩
        · simp [moves, hStep, hBefore]
        · simp [finish, hStep, hMove]

theorem moves_append (pair : Interleaving α β) (turns turns' : List Turn) :
    pair.moves (turns ++ turns') = pair.moves turns ++ (pair.finish turns).moves turns' := by
  induction turns generalizing pair with
  | nil => rfl
  | cons turn rest ih => simp [moves, finish, ih]

theorem finish_append (pair : Interleaving α β) (turns turns' : List Turn) :
    pair.finish (turns ++ turns') = (pair.finish turns).finish turns' := by
  induction turns generalizing pair with
  | nil => rfl
  | cons turn rest ih => exact ih _

theorem split_of_getElem? {γ : Type} {moves : List Move} {view : Move → γ} {n : Nat} {seen : γ}
    (h : (moves.map view)[n]? = some seen) :
    ∃ move, moves = moves.take n ++ move :: moves.drop (n + 1) ∧ view move = seen := by
  rw [List.getElem?_map] at h
  obtain ⟨move, hMove, hSeen⟩ := Option.map_eq_some_iff.mp h
  obtain ⟨hLength, rfl⟩ := List.getElem?_eq_some_iff.mp hMove
  refine ⟨_, ?_, hSeen⟩
  rw [← List.drop_eq_getElem_cons hLength, List.take_append_drop]

def sampleStore : Store where
  projects := [⟨1, "shop", .active⟩]
  apps := [⟨12, 1, "web", "team/web", "node", 1, "/", none⟩]
  repositories := [⟨1, .gitea, "https://git.local/", "bot", "git-token"⟩]
  environments := [⟨3, 1, "production", "shop", 21, 22, 23⟩]
  compileEnvironments := [⟨1, "jnlp", "jenkins/agent", "", ""⟩, ⟨2, "kaniko", "kaniko:debug", "", ""⟩]
  arrangements := []
  mappings := []
  orders := [⟨5, 1, "v1.2.0", "spring release", 3, 1, "build", "build", .running, "alice", 1⟩]
  orderApps := [⟨2, 5, 12, "dev", none⟩]
  snapshots := [⟨1, [⟨3, "production",
    [⟨1, 1, "build", .build, []⟩, ⟨2, 2, "rebuild", .build, []⟩]⟩]⟩]
  jobs := []
  confirmations := []
  settings := [⟨21, "ci-main", .ciServer ⟨"http://ci.local", "ci", "ci-token", "/ws"⟩⟩,
    ⟨23, "registry", .registry ⟨"https://registry.local", "push", "secret"⟩⟩]
  branches := []
  tokens := [("admin", "admin-token")]

end Interleaving

end DeliveryPipeline
