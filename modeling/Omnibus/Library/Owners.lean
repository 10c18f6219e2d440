import Mathlib.Data.List.Basic
import Mathlib.Logic.Basic

/-!
# Names that own keys

Names of several kinds hold keys, and a move gives a name another key unless a name of its own
kind has it. The check does not look at other kinds, so whether a list of moves leaves every key
with one owner is a question of what the other kinds held before.
-/

namespace Omnibus.Library.Owners

variable {Name Kind Key : Type} {kind : Name → Kind} {holds : Name → Key → Prop}

def OneOwner (holds : Name → Key → Prop) : Prop :=
  ∀ key left right, holds left key → holds right key → left = right

def Taken (kind : Name → Kind) (holds : Name → Key → Prop) (move : Name × Key) : Prop :=
  ∃ other, other ≠ move.1 ∧ kind other = kind move.1 ∧ holds other move.2

/-- The name holds the key and nothing else. -/
def Given (holds : Name → Key → Prop) (move : Name × Key) : Name → Key → Prop :=
  fun name key => (name = move.1 ∧ key = move.2) ∨ (name ≠ move.1 ∧ holds name key)

/-- One move is declined or performed. -/
inductive Move (kind : Name → Kind) (holds : Name → Key → Prop) (move : Name × Key) :
    (Name → Key → Prop) → Prop
  | declined (taken : Taken kind holds move) : Move kind holds move holds
  | performed (free : ¬Taken kind holds move) : Move kind holds move (Given holds move)

inductive Moves (kind : Name → Kind) :
    (Name → Key → Prop) → List (Name × Key) → (Name → Key → Prop) → Prop
  | nil (holds : Name → Key → Prop) : Moves kind holds [] holds
  | cons {holds next final : Name → Key → Prop} {move : Name × Key} {rest : List (Name × Key)}
      (first : Move kind holds move next) (others : Moves kind next rest final) :
      Moves kind holds (move :: rest) final

/-- Moves of different names to different keys that no moved name has. -/
structure Apart (holds : Name → Key → Prop) (moves : List (Name × Key)) : Prop where
  names : (moves.map (·.1)).Nodup
  keys : (moves.map (·.2)).Nodup
  fresh : ∀ move ∈ moves, ∀ other ∈ moves, ¬holds move.1 other.2

/-- Whoever has a destination is of the kind that moves there. -/
def SameKind (kind : Name → Kind) (holds : Name → Key → Prop) (moves : List (Name × Key)) :
    Prop :=
  ∀ move ∈ moves, ∀ holder, holds holder move.2 → kind holder = kind move.1

section Step

variable {move : Name × Key} {next : Name → Key → Prop}

theorem Move.other (step : Move kind holds move next) {name : Name} (other : name ≠ move.1)
    (key : Key) : next name key ↔ holds name key := by
  cases step with
  | declined taken => exact Iff.rfl
  | performed free =>
      constructor
      · rintro (⟨same, _⟩ | ⟨_, held⟩)
        · exact absurd same other
        · exact held
      · exact fun held => .inr ⟨other, held⟩

theorem Move.one_owner (step : Move kind holds move next) (one : OneOwner holds)
    (same : ∀ holder, holds holder move.2 → kind holder = kind move.1) : OneOwner next := by
  cases step with
  | declined taken => exact one
  | performed free =>
      have unheld (name : Name) (other : name ≠ move.1) : ¬holds name move.2 := fun held =>
        free ⟨name, other, same name held, held⟩
      rintro key left right (⟨isLeft, isKey⟩ | ⟨otherLeft, heldLeft⟩)
        (⟨isRight, isKey'⟩ | ⟨otherRight, heldRight⟩)
      · exact isLeft.trans isRight.symm
      · exact absurd (isKey ▸ heldRight) (unheld right otherRight)
      · exact absurd (isKey' ▸ heldLeft) (unheld left otherLeft)
      · exact one key left right heldLeft heldRight

theorem Move.shared (step : Move kind holds move next) (one : OneOwner holds) {holder : Name}
    (held : holds holder move.2) (differs : kind holder ≠ kind move.1) :
    next holder move.2 ∧ next move.1 move.2 := by
  have other : holder ≠ move.1 := fun same => differs (congrArg kind same)
  cases step with
  | declined taken =>
      obtain ⟨owner, _, sameKind, owns⟩ := taken
      rw [one _ _ _ held owns] at differs
      exact absurd sameKind differs
  | performed free => exact ⟨.inr ⟨other, held⟩, .inl ⟨rfl, rfl⟩⟩

end Step

section Run

variable {moves : List (Name × Key)} {final : Name → Key → Prop}

theorem Moves.other (run : Moves kind holds moves final) {name : Name}
    (other : ∀ move ∈ moves, name ≠ move.1) (key : Key) : final name key ↔ holds name key := by
  induction run with
  | nil => exact Iff.rfl
  | cons first _ induction =>
      rw [induction fun move member => other move (List.mem_cons_of_mem _ member)]
      exact first.other (other _ List.mem_cons_self) key

theorem Apart.tail {move : Name × Key} {next : Name → Key → Prop}
    (apart : Apart holds (move :: moves)) (step : Move kind holds move next) :
    Apart next moves := by
  refine ⟨(List.nodup_cons.mp apart.names).2, (List.nodup_cons.mp apart.keys).2, ?_⟩
  intro later laterMem another anotherMem held
  have other : later.1 ≠ move.1 := fun same =>
    (List.nodup_cons.mp apart.names).1 (List.mem_map.mpr ⟨later, laterMem, same⟩)
  exact apart.fresh later (List.mem_cons_of_mem _ laterMem) another
    (List.mem_cons_of_mem _ anotherMem) ((step.other other _).mp held)

theorem Apart.later_held {move later : Name × Key} {next : Name → Key → Prop}
    (apart : Apart holds (move :: moves)) (step : Move kind holds move next)
    (laterMem : later ∈ moves) (holder : Name) :
    next holder later.2 ↔ holds holder later.2 := by
  by_cases isMoved : holder = move.1
  · subst isMoved
    have unheld : ¬holds move.1 later.2 :=
      apart.fresh move List.mem_cons_self later (List.mem_cons_of_mem _ laterMem)
    refine ⟨fun held => ?_, fun held => absurd held unheld⟩
    cases step with
    | declined taken => exact held
    | performed free =>
        obtain ⟨_, isKey⟩ := held.resolve_right fun other => other.1 rfl
        exact absurd (List.mem_map.mpr ⟨later, laterMem, isKey⟩)
          (List.nodup_cons.mp apart.keys).1
  · exact step.other isMoved _

/-- Every key keeps one owner exactly when no move goes where a name of another kind is. -/
theorem Moves.one_owner_iff (run : Moves kind holds moves final) (one : OneOwner holds)
    (apart : Apart holds moves) : OneOwner final ↔ SameKind kind holds moves := by
  induction run with
  | nil => exact ⟨fun _ _ member => absurd member List.not_mem_nil, fun _ => one⟩
  | @cons holds next final move rest first others induction =>
      have tail := apart.tail first
      constructor
      · intro oneAfter
        have here : ∀ holder, holds holder move.2 → kind holder = kind move.1 := by
          by_contra mixed
          push Not at mixed
          obtain ⟨holder, held, differs⟩ := mixed
          have shared := first.shared one held differs
          have holderStays : ∀ later ∈ rest, holder ≠ later.1 := fun later laterMem same =>
            apart.fresh later (List.mem_cons_of_mem _ laterMem) move List.mem_cons_self
              (same ▸ held)
          have movedStays : ∀ later ∈ rest, move.1 ≠ later.1 := fun later laterMem same =>
            (List.nodup_cons.mp apart.names).1 (List.mem_map.mpr ⟨later, laterMem, same.symm⟩)
          have same := oneAfter move.2 holder move.1
            ((others.other holderStays _).mpr shared.1)
            ((others.other movedStays _).mpr shared.2)
          exact differs (congrArg kind same)
        have sameRest := (induction (first.one_owner one here) tail).mp oneAfter
        intro later laterMem holder held
        rcases List.mem_cons.mp laterMem with rfl | inRest
        · exact here holder held
        · exact sameRest later inRest holder ((apart.later_held first inRest holder).mpr held)
      · intro same
        have here := same move List.mem_cons_self
        apply (induction (first.one_owner one here) tail).mpr
        intro later inRest holder held
        exact same later (List.mem_cons_of_mem _ inRest) holder
          ((apart.later_held first inRest holder).mp held)

end Run

end Omnibus.Library.Owners
