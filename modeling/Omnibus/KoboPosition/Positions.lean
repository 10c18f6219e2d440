import Mathlib.Data.List.Nodup
import Omnibus.KoboPosition.Addresses

/-!
# Positions and tails

Every offset of the stream lies at one character of one cluster, the tail written for
it names that cluster, and reading the tail back lands on the same character.
-/

namespace Omnibus.KoboPosition

open Omnibus.Library.Strings Omnibus.Library.Collapse

theorem tiles_cover (clusters : List Cluster) (pos : Nat) (run : Bool) (t : Nat)
    (tiles : Tiles pos run clusters) (lower : pos ≤ t)
    (upper : t < pos + (collapsed run (rawText clusters)).length) :
    ∃ cluster, cluster ∈ clusters ∧ clusters.find? (·.covers t) = some cluster ∧
      cluster.covers t = true := by
  induction clusters generalizing pos run with
  | nil =>
      simp only [rawText, collapsed, List.flatMap_nil, collapse, List.length_nil] at upper
      omega
  | cons first rest induction =>
      obtain ⟨place, entered, length, later⟩ := tiles
      by_cases covers : first.covers t = true
      · exact ⟨first, by simp, by simp [covers], covers⟩
      · have split : rawText (first :: rest) = first.raw ++ rawText rest := rfl
        rw [split, collapsed_append, List.length_append, ← length] at upper
        have past : pos + first.normLen ≤ t := by
          by_contra inside
          apply covers
          simp only [Cluster.covers, Bool.and_eq_true, decide_eq_true_eq]
          omega
        obtain ⟨cluster, member, found, covered⟩ := induction _ _ later past (by omega)
        exact ⟨cluster, by simp [member], by simp [covers, found], covered⟩

/-- Offset `t` was written by `symbol`, which follows `left` in the raw text of `cluster`. -/
structure Located (index : FileIndex) (t : Nat) (cluster : Cluster) (left : Text)
    (symbol : Char) (right : Text) : Prop where
  covering : index.clusterCovering t = some cluster
  member : cluster ∈ index.clusters
  raw : cluster.raw = left ++ symbol :: right
  written : emits isWhitespace (runAfter isWhitespace cluster.enteredInRun left) symbol = true
  place : t = cluster.normStart + (collapsed cluster.enteredInRun left).length

theorem tiles_member (clusters : List Cluster) (pos : Nat) (run : Bool) (cluster : Cluster)
    (tiles : Tiles pos run clusters) (member : cluster ∈ clusters) :
    cluster.normLen = (collapsed cluster.enteredInRun cluster.raw).length := by
  obtain ⟨front, back, rfl⟩ := List.append_of_mem member
  obtain ⟨_, entered, length, _⟩ := ((tiles_append pos run front (cluster :: back)).mp tiles).2
  rw [entered, length]

theorem exists_located (events : List Event) (t : Nat)
    (inside : t < (indexFile events).norm.length) :
    ∃ cluster left symbol right, Located (indexFile events) t cluster left symbol right := by
  have tiled := walk_tiled events
  have norm : (indexFile events).norm = collapsed true (rawText (indexFile events).clusters) := by
    rw [show (indexFile events).clusters = (walk events).clusters from rfl, tiled.symbols]
    exact tiled.norm
  obtain ⟨cluster, member, found, covers⟩ := tiles_cover (indexFile events).clusters 0 true t
    tiled.tiles (Nat.zero_le t) (by rw [Nat.zero_add, ← norm]; exact inside)
  have length := tiles_member _ 0 true cluster tiled.tiles member
  simp only [Cluster.covers, Bool.and_eq_true, decide_eq_true_eq] at covers
  obtain ⟨left, symbol, right, raw, written, count⟩ :=
    exists_emission isWhitespace ' ' cluster.enteredInRun cluster.raw (t - cluster.normStart)
      (by rw [show collapse isWhitespace ' ' cluster.enteredInRun cluster.raw =
        collapsed cluster.enteredInRun cluster.raw from rfl]; omega)
  exact ⟨cluster, left, symbol, right, found, member, raw, written, by
    rw [collapsed, count]; omega⟩

namespace Located

variable {index : FileIndex} {t : Nat} {cluster : Cluster} {left : Text} {symbol : Char}
  {right : Text}

theorem replay_offset (located : Located index t cluster left symbol right) :
    replayOffset cluster t = some (utf16Length left) := by
  rw [replayOffset, located.raw,
    replay_offset_from_split t left right symbol _ 0 _ located.written located.place, Nat.zero_add]

theorem replay_offset_after (located : Located index t cluster left symbol right) :
    replayOffsetAfter cluster t = some (utf16Length (left ++ [symbol])) := by
  rw [replayOffsetAfter, located.raw,
    replay_offset_after_from_split t left right symbol _ 0 _ located.written located.place,
    Nat.zero_add]

theorem replay_norm (located : Located index t cluster left symbol right) :
    replayNorm cluster (utf16Length left) = t := by
  have split := replay_norm_from_split left (symbol :: right) cluster.normStart 0
    cluster.enteredInRun
  rw [Nat.zero_add] at split
  rw [replayNorm, located.raw, split, ← located.place]

theorem replay_norm_after (located : Located index t cluster left symbol right) :
    replayNorm cluster (utf16Length (left ++ [symbol])) = t + 1 := by
  have split := replay_norm_from_split (left ++ [symbol]) right cluster.normStart 0
    cluster.enteredInRun
  rw [Nat.zero_add, List.append_assoc] at split
  rw [replayNorm, located.raw, show left ++ symbol :: right = left ++ ([symbol] ++ right) from rfl,
    split, collapsed_through_length _ left symbol located.written, located.place]
  omega

end Located

theorem tail_cluster_tail (index : FileIndex) (distinct : (addresses index.clusters).Nodup)
    (cluster : Cluster) (member : cluster ∈ index.clusters) (offsetUtf16 : Nat) :
    index.tailCluster (cluster.tail offsetUtf16) = some cluster := by
  have found : index.clusters.find? (fun c => c.elementSteps = cluster.elementSteps ∧
      c.textIndex = cluster.textIndex) = some cluster := by
    cases search : index.clusters.find? (fun c => c.elementSteps = cluster.elementSteps ∧
        c.textIndex = cluster.textIndex) with
    | none =>
        have := List.find?_eq_none.mp search cluster member
        simp at this
    | some other =>
        have same := List.find?_some search
        have otherMember := List.mem_of_find?_eq_some search
        simp only [decide_eq_true_eq] at same
        congr 1
        exact List.inj_on_of_nodup_map distinct otherMember member (by
          simp [Cluster.address, same])
  unfold FileIndex.tailCluster
  exact (congrArg (Option.or · _) found).trans rfl

theorem tail_at_located (index : FileIndex) (t landed : Nat) (cluster : Cluster) (left : Text)
    (symbol : Char) (right : Text) (landing : index.land t = some landed)
    (located : Located index landed cluster left symbol right) :
    index.tailAt t = some (cluster.tail (utf16Length left), index.anchor landed) := by
  simp [FileIndex.tailAt, landing, located.covering, located.replay_offset]

theorem tail_end_at_located (index : FileIndex) (t last : Nat) (cluster : Cluster) (left : Text)
    (symbol : Char) (right : Text) (landing : index.landBefore t = some last)
    (located : Located index last cluster left symbol right) :
    index.tailEndAt t =
      some (cluster.tail (utf16Length (left ++ [symbol])), index.anchor last) := by
  simp [FileIndex.tailEndAt, landing, located.covering, located.replay_offset_after]

theorem offset_at_located (index : FileIndex) (distinct : (addresses index.clusters).Nodup)
    (t landed : Nat) (cluster : Cluster) (left : Text) (symbol : Char) (right : Text)
    (landing : index.land t = some landed)
    (located : Located index landed cluster left symbol right) :
    index.offsetAt (cluster.tail (utf16Length left)) = some (index.anchor landed) := by
  have named := tail_cluster_tail index distinct cluster located.member (utf16Length left)
  have stays := FileIndex.land_land landing
  simp [FileIndex.offsetAt, named, show (cluster.tail (utf16Length left)).offsetUtf16 =
    utf16Length left from rfl, located.replay_norm, stays]

theorem offset_end_at_located (index : FileIndex) (distinct : (addresses index.clusters).Nodup)
    (last : Nat) (cluster : Cluster) (left : Text) (symbol : Char) (right : Text)
    (visible : index.VisibleAt last)
    (located : Located index last cluster left symbol right) :
    index.offsetEndAt (cluster.tail (utf16Length (left ++ [symbol]))) =
      some (index.anchor last) := by
  have named := tail_cluster_tail index distinct cluster located.member
    (utf16Length (left ++ [symbol]))
  have stays := FileIndex.land_before_of_visible visible
  simp [FileIndex.offsetEndAt, named, show (cluster.tail (utf16Length (left ++ [symbol]))).offsetUtf16
    = utf16Length (left ++ [symbol]) from rfl, located.replay_norm_after, stays]

/-! ## The characters of the stream -/

theorem norm_eq (events : List Event) :
    (indexFile events).norm = collapsed true (read events).symbols :=
  (walk_tiled events).norm

theorem glyph_split (r : Reading) (j : Nat) (glyph : Glyph) (found : r.glyphs[j]? = some glyph) :
    r.symbols = r.symbols.take j ++ glyph.symbol :: r.symbols.drop (j + 1) := by
  have symbol : r.symbols[j]? = some glyph.symbol := by simp [Reading.symbols, found]
  obtain ⟨inside, here⟩ := List.getElem?_eq_some_iff.mp symbol
  rw [← here, List.getElem_cons_drop, List.take_append_drop]

theorem not_space_of_visible (glyph : Glyph) (visible : glyph.visible = true) :
    glyph.symbol ≠ ' ' := by
  intro space
  simp [Glyph.visible, space] at visible
  revert visible
  decide

theorem visible_at_norm (events : List Event) (j : Nat) (glyph : Glyph)
    (found : (read events).glyphs[j]? = some glyph) (visible : glyph.visible = true) :
    (indexFile events).VisibleAt ((read events).normAt j) := by
  have solid : isWhitespace glyph.symbol = false := by simpa [Glyph.visible] using visible
  refine ⟨glyph.symbol, ?_, not_space_of_visible glyph visible⟩
  have written := collapse_at_emission isWhitespace ' ' true ((read events).symbols.take j)
    ((read events).symbols.drop (j + 1)) glyph.symbol (emits_of_not_blank _ _ _ solid)
  rw [← glyph_split (read events) j glyph found, solid] at written
  rw [norm_eq]
  exact written

theorem exists_glyph (events : List Event) (t : Nat) (visible : (indexFile events).VisibleAt t) :
    ∃ j glyph, (read events).glyphs[j]? = some glyph ∧ glyph.visible = true ∧
      (read events).normAt j = t := by
  obtain ⟨written, here, solid⟩ := visible
  have inside := (List.getElem?_eq_some_iff.mp here).1
  rw [norm_eq] at here inside
  obtain ⟨left, symbol, right, parts, emitted, count⟩ :=
    exists_emission isWhitespace ' ' true (read events).symbols t inside
  have value := collapse_at_emission isWhitespace ' ' true left right symbol emitted
  rw [← parts, count] at value
  have same : (if isWhitespace symbol then ' ' else symbol) = written :=
    Option.some.inj (value.symm.trans here)
  have place : (read events).glyphs[left.length]?.map (·.symbol) = some symbol := by
    rw [← List.getElem?_map]
    show (read events).symbols[left.length]? = some symbol
    rw [parts]
    simp
  obtain ⟨glyph, found, rfl⟩ := Option.map_eq_some_iff.mp place
  refine ⟨left.length, glyph, found, ?_, ?_⟩
  · by_contra blank
    simp only [Glyph.visible, Bool.not_eq_true, Bool.not_eq_false'] at blank
    rw [if_pos blank] at same
    exact solid same.symm
  · rw [Reading.normAt, parts, List.take_left]
    exact count

theorem norm_at_mono (r : Reading) {i j : Nat} (le : i ≤ j) : r.normAt i ≤ r.normAt j := by
  have split : r.symbols.take j = r.symbols.take i ++ (r.symbols.take j).drop i := by
    have parts := List.take_append_drop i (r.symbols.take j)
    rw [List.take_take, Nat.min_eq_left le] at parts
    exact parts.symm
  rw [Reading.normAt, Reading.normAt, split, collapsed_append, List.length_append]
  omega

theorem norm_at_succ (r : Reading) (j : Nat) (glyph : Glyph) (found : r.glyphs[j]? = some glyph)
    (visible : glyph.visible = true) : r.normAt (j + 1) = r.normAt j + 1 := by
  have solid : isWhitespace glyph.symbol = false := by simpa [Glyph.visible] using visible
  have symbol : r.symbols[j]? = some glyph.symbol := by simp [Reading.symbols, found]
  have split : r.symbols.take (j + 1) = r.symbols.take j ++ [glyph.symbol] := by
    rw [List.take_add_one, symbol]
    rfl
  rw [Reading.normAt, split, collapsed_through_length _ _ _ (emits_of_not_blank _ _ _ solid)]
  rfl

theorem norm_at_lt_iff (r : Reading) (i j : Nat) (glyph : Glyph)
    (found : r.glyphs[i]? = some glyph) (visible : glyph.visible = true) :
    r.normAt i < r.normAt j ↔ i < j := by
  constructor
  · intro less
    by_contra more
    have := norm_at_mono r (Nat.le_of_not_lt more)
    omega
  · intro less
    have := norm_at_mono r (show i + 1 ≤ j from less)
    rw [norm_at_succ r i glyph found visible] at this
    omega

theorem first_visible_ge (r : Reading) (j : Nat) : j ≤ r.firstVisible j := Nat.le_add_right _ _

theorem first_visible_spec (r : Reading) (j i : Nat) (glyph : Glyph)
    (found : r.glyphs[i]? = some glyph) (visible : glyph.visible = true) (le : j ≤ i) :
    r.firstVisible j ≤ i ∧
      ∃ first, r.glyphs[r.firstVisible j]? = some first ∧ first.visible = true := by
  have here : (r.glyphs.drop j)[i - j]? = some glyph := by
    rw [List.getElem?_drop, show j + (i - j) = i by omega, found]
  obtain ⟨inside, same⟩ := List.getElem?_eq_some_iff.mp here
  have upper : (r.glyphs.drop j).findIdx (·.visible) ≤ i - j := by
    by_contra more
    have := List.not_of_lt_findIdx (Nat.lt_of_not_le more)
    rw [same, visible] at this
    exact absurd this (by simp)
  have below : (r.glyphs.drop j).findIdx (·.visible) < (r.glyphs.drop j).length := by omega
  refine ⟨by unfold Reading.firstVisible; omega, _, ?_, List.findIdx_getElem (w := below)⟩
  rw [Reading.firstVisible, ← List.getElem?_drop]
  exact List.getElem?_eq_getElem below

theorem first_visible_least (r : Reading) (j i : Nat) (glyph : Glyph)
    (found : r.glyphs[i]? = some glyph) (le : j ≤ i) (before : i < r.firstVisible j) :
    glyph.visible = false := by
  have here : (r.glyphs.drop j)[i - j]? = some glyph := by
    rw [List.getElem?_drop, show j + (i - j) = i by omega, found]
  obtain ⟨inside, same⟩ := List.getElem?_eq_some_iff.mp here
  have less : i - j < (r.glyphs.drop j).findIdx (·.visible) := by
    unfold Reading.firstVisible at before
    omega
  have := List.not_of_lt_findIdx less
  rw [same] at this
  simpa using this

/-- Skipping characters that are not visible does not change the first visible one. -/
theorem first_visible_between (r : Reading) (j p i : Nat) (glyph : Glyph)
    (found : r.glyphs[i]? = some glyph) (visible : glyph.visible = true) (lower : j ≤ p)
    (upper : p ≤ r.firstVisible j) (le : j ≤ i) : r.firstVisible p = r.firstVisible j := by
  obtain ⟨_, first, firstFound, firstVisible⟩ := first_visible_spec r j i glyph found visible le
  obtain ⟨atMost, again, againFound, againVisible⟩ :=
    first_visible_spec r p _ first firstFound firstVisible upper
  by_contra other
  have blank := first_visible_least r j _ again againFound
    (Nat.le_trans lower (first_visible_ge r p)) (by omega)
  rw [againVisible] at blank
  exact absurd blank (by simp)

theorem norm_at_after_visible (r : Reading) (j : Nat) (glyph : Glyph)
    (found : r.glyphs[j]? = some glyph) (visible : glyph.visible = true)
    (inside : j + 1 < r.glyphs.length) : r.normAt (j + 1) < r.normAt r.glyphs.length := by
  have solid : isWhitespace glyph.symbol = false := by simpa [Glyph.visible] using visible
  have symbol : r.symbols[j]? = some glyph.symbol := by simp [Reading.symbols, found]
  have next : r.symbols[j + 1]? = some (r.glyphs[j + 1]).symbol := by simp [Reading.symbols, inside]
  have run : runAfter isWhitespace true (r.symbols.take (j + 1)) = false := by
    rw [List.take_add_one, symbol, run_after_append]
    exact solid
  have step : r.normAt (j + 2) = r.normAt (j + 1) + 1 := by
    have written := collapsed_through_length true (r.symbols.take (j + 1)) (r.glyphs[j + 1]).symbol
      (by rw [run]; simp [emits])
    rw [Reading.normAt, List.take_add_one, next]
    exact written
  have := norm_at_mono r (show j + 2 ≤ r.glyphs.length from inside)
  omega

theorem norm_length (events : List Event) :
    (indexFile events).norm.length = (read events).normAt (read events).glyphs.length := by
  rw [norm_eq, Reading.normAt, List.take_of_length_le (by simp [Reading.symbols])]

/-- Landing from the place of character number `p` reaches the first visible one from it on. -/
theorem land_norm_at (events : List Event) (p i : Nat) (glyph : Glyph)
    (found : (read events).glyphs[i]? = some glyph) (visible : glyph.visible = true)
    (le : p ≤ i) :
    (indexFile events).land ((read events).normAt p) =
      some ((read events).normAt ((read events).firstVisible p)) := by
  obtain ⟨_, first, firstFound, firstVisible⟩ :=
    first_visible_spec (read events) p i glyph found visible le
  have solid := visible_at_norm events _ first firstFound firstVisible
  obtain ⟨landed, landing⟩ := FileIndex.land_isSome ((read events).normAt p)
    (List.length_pos_iff.mp (Nat.zero_lt_of_lt solid.inside))
  have ordered := norm_at_mono (read events) (first_visible_ge (read events) p)
  rw [landing]
  congr 1
  rcases FileIndex.land_cases landing with ⟨lower, landedVisible, quiet⟩ | ⟨_, blank⟩
  · rcases Nat.lt_trichotomy landed ((read events).normAt ((read events).firstVisible p)) with
      before | same | after
    · obtain ⟨j, other, otherFound, otherVisible, rfl⟩ := exists_glyph events landed landedVisible
      rw [norm_at_lt_iff _ _ _ other otherFound otherVisible] at before
      have behind : j < p := by
        by_contra inside
        have := first_visible_least (read events) p j other otherFound (by omega) before
        rw [otherVisible] at this
        exact absurd this (by simp)
      rw [← norm_at_lt_iff _ _ _ other otherFound otherVisible] at behind
      omega
    · exact same
    · exact absurd solid (quiet _ ordered after)
  · exact absurd solid (blank _ ordered)

/-! ## The two directions are inverse -/

/-- Reading a position's tail back gives its anchor, for starts and for exclusive ends. -/
theorem offset_at_tail_at (events : List Event) (single : SingleRoot events) (t : Nat) :
    ((∃ glyph ∈ (read events).glyphs, glyph.visible = true) →
      ∃ tail landed back, (indexFile events).tailAt t = some (tail, landed) ∧
        (indexFile events).offsetAt tail = some back ∧
        back.normOffset = landed.normOffset ∧ back.snippet = landed.snippet) ∧
    ((∃ before < t, (indexFile events).VisibleAt before) →
      ∃ tail landed back, (indexFile events).tailEndAt t = some (tail, landed) ∧
        (indexFile events).offsetEndAt tail = some back ∧
        back.normOffset = landed.normOffset ∧ back.snippet = landed.snippet) := by
  have distinct := addresses_nodup events single
  constructor
  · intro ⟨glyph, member, visible⟩
    obtain ⟨j, found⟩ := List.mem_iff_getElem?.mp member
    have shape : (indexFile events).norm ≠ [] := by
      have inside := (visible_at_norm events j glyph found visible).inside
      exact List.length_pos_iff.mp (by omega)
    obtain ⟨landed, landing⟩ := FileIndex.land_isSome t shape
    obtain ⟨cluster, left, symbol, right, located⟩ :=
      exists_located events landed (FileIndex.land_inside landing)
    exact ⟨_, _, _, tail_at_located _ t landed cluster left symbol right landing located,
      offset_at_located _ distinct t landed cluster left symbol right landing located, rfl, rfl⟩
  · intro ⟨before, less, visible⟩
    obtain ⟨last, landing⟩ := FileIndex.back_land_isSome (t := t - 1) (by omega) visible
    have landing' : (indexFile events).landBefore t = some last := by
      rw [FileIndex.landBefore, if_neg (by omega), landing]
    obtain ⟨_, solid, _⟩ := FileIndex.back_land_cases landing
    obtain ⟨cluster, left, symbol, right, located⟩ := exists_located events last solid.inside
    exact ⟨_, _, _, tail_end_at_located _ t last cluster left symbol right landing' located,
      offset_end_at_located _ distinct last cluster left symbol right solid located, rfl, rfl⟩

/-- `<p>Hi </p>` in a body. -/
def shortDocument : List Event :=
  [.start ['h', 't', 'm', 'l'] ['h', 't', 'm', 'l'] none,
    .start ['b', 'o', 'd', 'y'] ['b', 'o', 'd', 'y'] none,
    .start ['p'] ['p'] none, .text ['H', 'i', ' '] 3, .close, .close, .close]

theorem offset_at_tail_at_short_document :
    (∃ tail landed back, (indexFile shortDocument).tailAt 5 = some (tail, landed) ∧
      (indexFile shortDocument).offsetAt tail = some back ∧
      back.normOffset = landed.normOffset ∧ back.snippet = landed.snippet) ∧
    ∃ tail landed back, (indexFile shortDocument).tailEndAt 5 = some (tail, landed) ∧
      (indexFile shortDocument).offsetEndAt tail = some back ∧
      back.normOffset = landed.normOffset ∧ back.snippet = landed.snippet := by
  have both := offset_at_tail_at shortDocument (by decide) 5
  exact ⟨both.1 (by decide), both.2 ⟨0, by decide, 'H', by decide, by decide⟩⟩

end Omnibus.KoboPosition
