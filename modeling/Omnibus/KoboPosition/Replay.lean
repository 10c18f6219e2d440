import Omnibus.KoboPosition.Walk
import Omnibus.Library.Collapse

/-!
# Replaying a cluster and landing on a character

What the three replay loops return, in terms of the collapse of the raw text
around the split they stop at, and the offsets `land` and `back_land` reach.
-/

namespace Omnibus.KoboPosition

open Omnibus.Library.Strings Omnibus.Library.Collapse

/-- The normalized stream of `text` read from collapse state `run`. -/
def collapsed (run : Bool) (text : Text) : Text := collapse isWhitespace ' ' run text

def utf16Length (text : Text) : Nat := extent utf16Width text

theorem collapsed_append (run : Bool) (left right : Text) :
    collapsed run (left ++ right) =
      collapsed run left ++ collapsed (runAfter isWhitespace run left) right :=
  collapse_append _ _ run left right

theorem collapsed_cons_length (run : Bool) (symbol : Char) (rest : Text) :
    (collapsed run (symbol :: rest)).length =
      (if emits isWhitespace run symbol then 1 else 0) +
        (collapsed (isWhitespace symbol) rest).length :=
  collapse_cons_length _ _ run symbol rest

theorem collapsed_through_length (run : Bool) (left : Text) (symbol : Char)
    (written : emits isWhitespace (runAfter isWhitespace run left) symbol = true) :
    (collapsed run (left ++ [symbol])).length = (collapsed run left).length + 1 := by
  rw [collapsed_append, List.length_append]
  simp only [collapsed, collapse_single_length, written, if_true]

theorem replay_offset_from_split (target : Nat) (left right : Text) (symbol : Char)
    (normPos utf16 : Nat) (run : Bool)
    (written : emits isWhitespace (runAfter isWhitespace run left) symbol = true)
    (reached : target = normPos + (collapsed run left).length) :
    replayOffsetFrom target (left ++ symbol :: right) normPos utf16 run =
      some (utf16 + utf16Length left) := by
  induction left generalizing normPos utf16 run with
  | nil =>
      have here : normPos = target := by simpa [collapsed, collapse] using reached.symm
      cases space : isWhitespace symbol <;> cases run <;>
        simp_all [replayOffsetFrom, emits, runAfter, utf16Length]
  | cons first rest induction =>
      rw [collapsed_cons_length] at reached
      have later := induction (normPos + if emits isWhitespace run first then 1 else 0)
        (utf16 + utf16Width first) (isWhitespace first) written (by omega)
      have offset : utf16 + utf16Length (first :: rest) =
          utf16 + utf16Width first + utf16Length rest := by
        simp [utf16Length]
        omega
      rw [offset, ← later]
      cases space : isWhitespace first <;> cases run <;>
        simp only [emits, space, Bool.and_true, Bool.and_false, Bool.not_true, Bool.not_false,
          if_true, if_false, Bool.false_eq_true] at reached ⊢ <;>
        simp only [List.cons_append, replayOffsetFrom, space, if_true, if_false,
          Bool.false_eq_true, Nat.add_zero]
      all_goals rw [if_neg (by omega)]

theorem replay_offset_after_from_split (target : Nat) (left right : Text) (symbol : Char)
    (normPos utf16 : Nat) (run : Bool)
    (written : emits isWhitespace (runAfter isWhitespace run left) symbol = true)
    (reached : target = normPos + (collapsed run left).length) :
    replayOffsetAfterFrom target (left ++ symbol :: right) normPos utf16 run =
      some (utf16 + utf16Length (left ++ [symbol])) := by
  induction left generalizing normPos utf16 run with
  | nil =>
      have here : normPos = target := by simpa [collapsed, collapse] using reached.symm
      cases space : isWhitespace symbol <;> cases run <;>
        simp_all [replayOffsetAfterFrom, emits, runAfter, utf16Length]
  | cons first rest induction =>
      rw [collapsed_cons_length] at reached
      have later := induction (normPos + if emits isWhitespace run first then 1 else 0)
        (utf16 + utf16Width first) (isWhitespace first) written (by omega)
      have offset : utf16 + utf16Length (first :: rest ++ [symbol]) =
          utf16 + utf16Width first + utf16Length (rest ++ [symbol]) := by
        simp [utf16Length]
        omega
      rw [offset, ← later]
      cases space : isWhitespace first <;> cases run <;>
        simp only [emits, space, Bool.and_true, Bool.and_false, Bool.not_true, Bool.not_false,
          if_true, if_false, Bool.false_eq_true] at reached ⊢ <;>
        simp only [List.cons_append, replayOffsetAfterFrom, space, if_true, if_false,
          Bool.false_eq_true, Nat.add_zero, Bool.not_true, Bool.not_false, Bool.or_true,
          Bool.or_false]
      all_goals rw [if_neg (by omega)]

theorem replay_norm_from_split (left right : Text) (normPos utf16 : Nat) (run : Bool) :
    replayNormFrom (utf16 + utf16Length left) (left ++ right) normPos utf16 run =
      normPos + (collapsed run left).length := by
  induction left generalizing normPos utf16 run with
  | nil => cases right <;> simp [replayNormFrom, utf16Length, collapsed, collapse]
  | cons first rest induction =>
      have later := induction (normPos + if emits isWhitespace run first then 1 else 0)
        (utf16 + utf16Width first) (isWhitespace first)
      have offset : utf16 + utf16Length (first :: rest) =
          utf16 + utf16Width first + utf16Length rest := by
        simp [utf16Length]
        omega
      have ahead : ¬utf16 ≥ utf16 + utf16Width first + utf16Length rest := by
        have := utf16_width_positive first
        omega
      rw [collapsed_cons_length, offset, List.cons_append, replayNormFrom, if_neg ahead,
        ← Nat.add_assoc, ← later]
      cases space : isWhitespace first <;> cases run <;> simp [emits, space]

/-! ## Landing -/

theorem land_from_visible (text : Text) (idx : Nat) (symbol : Char)
    (head : text.head? = some symbol) (visible : symbol ≠ ' ') :
    landFrom text idx = some idx := by
  cases text with
  | nil => simp at head
  | cons first rest =>
      obtain rfl : first = symbol := by simpa using head
      simp [landFrom, visible]

theorem land_from_some (text : Text) (idx landed : Nat) (found : landFrom text idx = some landed) :
    ∃ skipped, landed = idx + skipped ∧ (∀ symbol ∈ text.take skipped, symbol = ' ') ∧
      ∃ symbol, text[skipped]? = some symbol ∧ symbol ≠ ' ' := by
  induction text generalizing idx with
  | nil => simp [landFrom] at found
  | cons first rest induction =>
      by_cases space : first = ' '
      · obtain ⟨skipped, place, spaces, visible⟩ :=
          induction (idx + 1) (by simpa [landFrom, space] using found)
        exact ⟨skipped + 1, by omega, by simpa [space] using spaces, by simpa using visible⟩
      · have place : idx = landed := by simpa [landFrom, space] using found
        exact ⟨0, by omega, by simp, first, by simp, space⟩

theorem land_from_none (text : Text) (idx : Nat) :
    landFrom text idx = none ↔ ∀ symbol ∈ text, symbol = ' ' := by
  induction text generalizing idx with
  | nil => simp [landFrom]
  | cons first rest induction =>
      by_cases space : first = ' '
      · simp [landFrom, space, induction]
      · simp [landFrom, space]

namespace FileIndex

variable (index : FileIndex)

/-- Offset `t` holds a visible character. -/
def VisibleAt (t : Nat) : Prop := ∃ symbol, index.norm[t]? = some symbol ∧ symbol ≠ ' '

variable {index}

theorem VisibleAt.inside {t : Nat} (visible : index.VisibleAt t) : t < index.norm.length := by
  obtain ⟨symbol, found, _⟩ := visible
  exact (List.getElem?_eq_some_iff.mp found).1

theorem land_of_visible {t : Nat} (visible : index.VisibleAt t) : index.land t = some t := by
  obtain ⟨symbol, found, solid⟩ := visible
  have head : (index.norm.drop t).head? = some symbol := by rw [List.head?_drop, found]
  rw [land, land_from_visible _ t symbol head solid]

/-- Where `land` goes: the first visible offset from `t` on, or, when none is left,
the last character of the stream. -/
theorem land_cases {t landed : Nat} (found : index.land t = some landed) :
    (t ≤ landed ∧ index.VisibleAt landed ∧
        ∀ between, t ≤ between → between < landed → ¬index.VisibleAt between) ∨
      (landed + 1 = index.norm.length ∧ ∀ later, t ≤ later → ¬index.VisibleAt later) := by
  unfold land at found
  split at found
  · rename_i idx reached
    cases found
    obtain ⟨skipped, rfl, spaces, symbol, here, solid⟩ := land_from_some _ _ _ reached
    rw [List.getElem?_drop] at here
    refine Or.inl ⟨by omega, ⟨symbol, here, solid⟩, ?_⟩
    intro between lower upper ⟨other, there, otherSolid⟩
    have member : other ∈ (index.norm.drop t).take skipped := by
      rw [List.mem_iff_getElem?]
      exact ⟨between - t, by
        rw [List.getElem?_take, if_pos (by omega), List.getElem?_drop,
          show t + (between - t) = between by omega, there]⟩
    exact otherSolid (spaces other member)
  · rename_i reached
    rw [land_from_none] at reached
    split_ifs at found with blank
    cases found
    refine Or.inr ⟨by omega, ?_⟩
    intro later lower ⟨other, there, otherSolid⟩
    have member : other ∈ index.norm.drop t := by
      rw [List.mem_iff_getElem?]
      exact ⟨later - t, by rw [List.getElem?_drop, show t + (later - t) = later by omega, there]⟩
    exact otherSolid (reached other member)

theorem land_isSome (t : Nat) (shape : index.norm ≠ []) : ∃ landed, index.land t = some landed := by
  unfold land
  have positive := List.length_pos_iff.mpr shape
  split
  · exact ⟨_, rfl⟩
  · rw [if_neg (by omega)]
    exact ⟨_, rfl⟩

theorem land_inside {t landed : Nat} (found : index.land t = some landed) :
    landed < index.norm.length := by
  rcases land_cases found with ⟨_, visible, _⟩ | ⟨last, _⟩
  · exact visible.inside
  · omega

theorem land_land {t landed : Nat} (found : index.land t = some landed) :
    index.land landed = some landed := by
  rcases land_cases found with ⟨_, visible, _⟩ | ⟨last, blank⟩
  · exact land_of_visible visible
  · by_cases visible : index.VisibleAt landed
    · exact land_of_visible visible
    · obtain ⟨again, reached⟩ : ∃ again, index.land landed = some again :=
        land_isSome landed (List.length_pos_iff.mp (by omega))
      rcases land_cases reached with ⟨lower, solid, _⟩ | ⟨end', _⟩
      · have inside := solid.inside
        have same : again = landed := by omega
        exact absurd (same ▸ solid) visible
      · have same : again = landed := by omega
        rw [reached, same]

theorem back_land_cases {t landed : Nat} (found : index.backLand t = some landed) :
    landed ≤ t ∧ index.VisibleAt landed ∧
      ∀ between, landed < between → between ≤ t → ¬index.VisibleAt between := by
  obtain ⟨entry, last, rfl⟩ := Option.map_eq_some_iff.mp found
  obtain ⟨front, split⟩ := List.getLast?_eq_some_iff.mp last
  have member : entry ∈ (index.norm.take (t + 1)).zipIdx.filter fun entry => entry.1 ≠ ' ' := by
    rw [split]
    simp
  rw [List.mem_filter, List.mem_zipIdx_iff_getElem?] at member
  obtain ⟨here, solid⟩ := member
  have solid' : entry.1 ≠ ' ' := by simpa using solid
  rw [List.getElem?_take] at here
  split_ifs at here with inside
  refine ⟨by omega, ⟨entry.1, here, solid'⟩, ?_⟩
  intro between lower upper ⟨other, there, otherSolid⟩
  have otherMember : (other, between) ∈
      (index.norm.take (t + 1)).zipIdx.filter fun entry => entry.1 ≠ ' ' := by
    rw [List.mem_filter, List.mem_zipIdx_iff_getElem?]
    exact ⟨by rw [List.getElem?_take, if_pos (by omega)]; exact there, by simpa using otherSolid⟩
  have ordered : ((index.norm.take (t + 1)).zipIdx.filter fun entry => entry.1 ≠ ' ').Pairwise
      fun left right => left.2 < right.2 := by
    apply List.Pairwise.filter
    rw [List.pairwise_iff_getElem]
    intro i j hi hj lt
    simpa using lt
  rw [split] at otherMember ordered
  rcases List.mem_append.mp otherMember with before | same
  · have := (List.pairwise_append.mp ordered).2.2 _ before entry (by simp)
    simp only at this
    omega
  · have same' : (other, between) = entry := by simpa using same
    rw [← same'] at lower
    simp at lower

theorem back_land_isSome {t k : Nat} (within : k ≤ t) (visible : index.VisibleAt k) :
    ∃ landed, index.backLand t = some landed := by
  obtain ⟨symbol, found, solid⟩ := visible
  have member : (symbol, k) ∈
      (index.norm.take (t + 1)).zipIdx.filter fun entry => entry.1 ≠ ' ' := by
    rw [List.mem_filter, List.mem_zipIdx_iff_getElem?]
    exact ⟨by rw [List.getElem?_take, if_pos (by omega)]; exact found, by simpa using solid⟩
  have shape : ((index.norm.take (t + 1)).zipIdx.filter fun entry => entry.1 ≠ ' ') ≠ [] :=
    List.ne_nil_of_mem member
  exact ⟨_, by rw [backLand, List.getLast?_eq_some_getLast shape]; rfl⟩

theorem back_land_of_visible {t : Nat} (visible : index.VisibleAt t) :
    index.backLand t = some t := by
  obtain ⟨landed, found⟩ := back_land_isSome (le_refl t) visible
  obtain ⟨upper, _, none⟩ := back_land_cases found
  by_contra other
  have lower : landed < t := by
    rcases Nat.lt_or_ge landed t with less | more
    · exact less
    · exact absurd (show index.backLand t = some t by rw [found]; congr 1; omega) other
  exact none t lower (le_refl t) visible

theorem land_before_of_visible {t : Nat} (visible : index.VisibleAt t) :
    index.landBefore (t + 1) = some t := by
  simp [landBefore, back_land_of_visible visible]

end FileIndex

end Omnibus.KoboPosition
