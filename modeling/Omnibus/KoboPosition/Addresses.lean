import Omnibus.KoboPosition.Tiling

/-!
# Every cluster has its own address

The counts of the open elements say which addresses were given out already. A text
node opens at an address not given out, and an address given out stays so for the
rest of a document with one root.
-/

namespace Omnibus.KoboPosition

open Omnibus.Library.Strings

/-- Whether an address lies in what was read, by the child and text counts of the open
elements, the root's first. An element that closed is read whole. -/
def Used : List (Nat × Nat) → List Nat → Nat → Prop
  | [], _, _ => False
  | (_, texts) :: _, [], index => index < 2 * texts + 1
  | (children, _) :: inner, step :: rest, index =>
      step < 2 * children ∨ (step = 2 * children ∧ (inner = [] ∨ Used inner rest index))

def stepsOf (frames : List (Nat × Nat)) : List Nat := frames.map fun frame => 2 * frame.1

theorem used_under (outer : List (Nat × Nat)) {last next : List (Nat × Nat)} {index : Nat}
    (isSome : last ≠ []) (known : ∀ steps, Used last steps index → Used next steps index)
    (steps : List Nat) (used : Used (outer ++ last) steps index) :
    Used (outer ++ next) steps index := by
  induction outer generalizing steps with
  | nil => exact known steps used
  | cons frame rest induction =>
      cases steps with
      | nil => exact used
      | cons step deeper =>
          rcases used with earlier | ⟨same, empty | inner⟩
          · exact Or.inl earlier
          · exact absurd (List.append_eq_nil_iff.mp empty).2 isSome
          · exact Or.inr ⟨same, Or.inr (induction deeper inner)⟩

theorem used_open (outer : List (Nat × Nat)) (children texts : Nat) (steps : List Nat)
    (index : Nat) (used : Used (outer ++ [(children, texts)]) steps index) :
    Used (outer ++ [(children + 1, texts), (0, 0)]) steps index := by
  apply used_under outer (List.cons_ne_nil _ _) _ steps used
  intro steps used
  cases steps with
  | nil => exact used
  | cons step rest =>
      simp only [Used] at used ⊢
      omega

theorem used_close (outer : List (Nat × Nat)) (frame inner : Nat × Nat) (steps : List Nat)
    (index : Nat) (used : Used (outer ++ [frame, inner]) steps index) :
    Used (outer ++ [frame]) steps index := by
  apply used_under outer (List.cons_ne_nil _ _) _ steps used
  intro steps used
  cases steps with
  | nil => exact used
  | cons step rest =>
      rcases used with earlier | ⟨same, _⟩
      · exact Or.inl earlier
      · exact Or.inr ⟨same, Or.inl rfl⟩

theorem used_text (outer : List (Nat × Nat)) (children texts : Nat) (steps : List Nat)
    (index : Nat) (used : Used (outer ++ [(children, texts)]) steps index) :
    Used (outer ++ [(children, texts + 1)]) steps index := by
  apply used_under outer (List.cons_ne_nil _ _) _ steps used
  intro steps used
  cases steps with
  | nil =>
      simp only [Used] at used ⊢
      omega
  | cons step rest => exact used

theorem used_below (outer : List (Nat × Nat)) (frame : Nat × Nat) (steps : List Nat)
    (index : Nat) :
    Used (outer ++ [frame]) (stepsOf outer ++ steps) index ↔ Used [frame] steps index := by
  induction outer with
  | nil => rfl
  | cons first rest induction =>
      rw [← induction]
      simp [stepsOf, Used]

namespace Builder

def openFrames (b : Builder) : List (Nat × Nat) := (b.childCounts.zip b.textCounts).reverse

theorem open_frames_of (b : Builder) (frames : List (Nat × Nat))
    (childCounts : b.childCounts = (frames.map Prod.fst).reverse)
    (textCounts : b.textCounts = (frames.map Prod.snd).reverse) : b.openFrames = frames := by
  rw [openFrames, childCounts, textCounts, ← List.map_reverse, ← List.map_reverse, List.zip_map']
  simp

end Builder

structure Shaped (b : Builder) (r : Reading) : Prop where
  childCounts : b.childCounts.length = r.stack.length
  textCounts : b.textCounts.length = r.stack.length
  steps : b.steps = (b.childCounts.tail.map (2 * ·)).reverse
  bodyDepth : b.bodyDepth ≤ r.stack.length

namespace Shaped

theorem frames {b : Builder} {r : Reading} (shaped : Shaped b r) :
    b.childCounts = (b.openFrames.map Prod.fst).reverse ∧
      b.textCounts = (b.openFrames.map Prod.snd).reverse ∧
      b.steps = stepsOf b.openFrames.dropLast ∧ b.openFrames.length = r.stack.length := by
  have counts := shaped.childCounts
  have texts := shaped.textCounts
  have childCounts : b.childCounts = (b.openFrames.map Prod.fst).reverse := by
    rw [Builder.openFrames, List.map_reverse, List.reverse_reverse, List.map_fst_zip (by omega)]
  refine ⟨childCounts, ?_, ?_, ?_⟩
  · rw [Builder.openFrames, List.map_reverse, List.reverse_reverse, List.map_snd_zip (by omega)]
  · rw [shaped.steps, childCounts, stepsOf, List.tail_reverse, List.map_reverse,
      List.reverse_reverse, ← List.map_dropLast, List.map_map]
    rfl
  · have length := congrArg List.length childCounts
    rw [List.length_reverse, List.length_map] at length
    omega

theorem opened {b : Builder} {r : Reading} (shaped : Shaped b r) : Shaped b.opened r := by
  cases openCluster : b.openCluster with
  | none =>
      rw [Builder.opened_of_none b openCluster]
      exact { shaped with textCounts := by simp [shaped.textCounts] }
  | some i => rwa [Builder.opened_of_some b i openCluster]

theorem keeps : Keeps fun b r => Tiled b r ∧ Shaped b r where
  start b r localName qname id both := by
    obtain ⟨tiled, shaped⟩ := both
    refine ⟨Tiled.keeps.start b r localName qname id tiled, ?_⟩
    rw [Builder.element_start_eq]
    exact {
      childCounts := by simp [Reading.start, shaped.childCounts]
      textCounts := by simp [Reading.start, shaped.textCounts]
      steps := by
        rw [shaped.steps]
        cases b.childCounts with
        | nil => rfl
        | cons count outer => simp [Builder.nextStep, Nat.mul_comm]
      bodyDepth := by
        have := shaped.bodyDepth
        simp only [Reading.start, List.length_cons]
        split_ifs <;> omega }
  close b r both := by
    obtain ⟨tiled, shaped⟩ := both
    refine ⟨Tiled.keeps.close b r tiled, ?_⟩
    rw [Builder.element_end_eq]
    exact {
      childCounts := by simp [Reading.close, shaped.childCounts]
      textCounts := by simp [Reading.close, shaped.textCounts]
      steps := by
        rw [shaped.steps]
        rcases b.childCounts with _ | ⟨inner, _ | ⟨outer, rest⟩⟩ <;> simp
      bodyDepth := by
        have := shaped.bodyDepth
        simp only [Reading.close, List.length_tail]
        omega }
  text b r decoded sourceBytes both := by
    obtain ⟨tiled, shaped⟩ := both
    refine ⟨Tiled.keeps.text b r decoded sourceBytes tiled, ?_⟩
    by_cases inBody : b.bodyDepth = 0
    · rwa [Builder.chars, if_pos inBody, Reading.text, if_pos (by rw [← tiled.bodyDepth, inBody])]
    · obtain ⟨front, cluster, last⟩ := tiled.opened_last
      rw [Builder.chars_eq decoded sourceBytes b inBody front cluster last, Reading.text,
        if_neg (by rwa [← tiled.bodyDepth])]
      obtain ⟨childCounts, textCounts, steps, bodyDepth⟩ := shaped.opened
      exact ⟨childCounts, textCounts, steps, bodyDepth⟩
  flag b r both := by
    refine ⟨Tiled.keeps.flag b r both.1, ?_⟩
    obtain ⟨childCounts, textCounts, steps, bodyDepth⟩ := both.2
    unfold Builder.flagMarkup
    split <;> exact ⟨childCounts, textCounts, steps, bodyDepth⟩
  pending b r both := by
    refine ⟨Tiled.keeps.pending b r both.1, ?_⟩
    obtain ⟨childCounts, textCounts, steps, bodyDepth⟩ := both.2
    exact ⟨childCounts, textCounts, steps, bodyDepth⟩

end Shaped

/-- An address no cluster of the rest of the document can get. -/
def Taken (b : Builder) (r : Reading) (steps : List Nat) (index : Nat) : Prop :=
  r.roots = 1 ∧ (r.stack = [] ∨ Used b.openFrames steps index)

section Taken

variable {b : Builder} {r : Reading} {steps : List Nat} {index : Nat}

theorem open_frames_start (shaped : Shaped b r) (localName qname : Text) (id : Option Text)
    (outer : List (Nat × Nat)) (children texts : Nat)
    (frames : b.openFrames = outer ++ [(children, texts)]) :
    (b.elementStart localName qname id).openFrames =
      outer ++ [(children + 1, texts), (0, 0)] := by
  obtain ⟨childCounts, textCounts, _, _⟩ := shaped.frames
  rw [Builder.element_start_eq]
  exact Builder.open_frames_of _ _ (by simp [childCounts, frames]) (by simp [textCounts, frames])

theorem open_frames_close (shaped : Shaped b r) :
    b.elementEnd.openFrames = b.openFrames.dropLast := by
  obtain ⟨childCounts, textCounts, _, _⟩ := shaped.frames
  rw [Builder.element_end_eq]
  exact Builder.open_frames_of _ _ (by simp [childCounts]) (by simp [textCounts])

theorem open_frames_opened (shaped : Shaped b r) (closed : b.openCluster = none)
    (outer : List (Nat × Nat)) (children texts : Nat)
    (frames : b.openFrames = outer ++ [(children, texts)]) :
    b.opened.openFrames = outer ++ [(children, texts + 1)] := by
  obtain ⟨childCounts, textCounts, _, _⟩ := shaped.frames
  rw [Builder.opened_of_none b closed]
  exact Builder.open_frames_of _ _ (by simp [childCounts, frames]) (by simp [textCounts, frames])

theorem taken_start (shaped : Shaped b r) (localName qname : Text) (id : Option Text)
    (single : (r.start localName id).roots ≤ 1) (taken : Taken b r steps index) :
    Taken (b.elementStart localName qname id) (r.start localName id) steps index := by
  obtain ⟨rooted, free⟩ := taken
  have inside : r.stack ≠ [] := by
    intro empty
    simp [Reading.start, empty, rooted] at single
  have used := free.resolve_left inside
  refine ⟨by simp [Reading.start, inside, rooted], Or.inr ?_⟩
  rcases b.openFrames.eq_nil_or_concat with empty | ⟨outer, ⟨children, texts⟩, frames⟩
  · rw [empty] at used
    exact used.elim
  · rw [List.concat_eq_append] at frames
    rw [open_frames_start shaped localName qname id outer children texts frames]
    rw [frames] at used
    exact used_open outer children texts steps index used

theorem taken_close (shaped : Shaped b r) (taken : Taken b r steps index) :
    Taken b.elementEnd r.close steps index := by
  obtain ⟨rooted, closed | used⟩ := taken
  · exact ⟨rooted, Or.inl (by simp [Reading.close, closed])⟩
  · refine ⟨rooted, ?_⟩
    obtain ⟨_, _, _, length⟩ := shaped.frames
    rw [open_frames_close shaped]
    rcases b.openFrames.eq_nil_or_concat with empty | ⟨outer, last, frames⟩
    · rw [empty] at used
      exact used.elim
    · rw [List.concat_eq_append] at frames
      rw [frames] at used length ⊢
      rw [List.dropLast_concat]
      rcases outer.eq_nil_or_concat with rfl | ⟨front, frame, rfl⟩
      · left
        apply List.eq_nil_of_length_eq_zero
        simp [Reading.close, ← length]
      · right
        rw [List.concat_eq_append] at used ⊢
        exact used_close front frame last steps index (by simpa using used)

theorem taken_opened (shaped : Shaped b r) (taken : Taken b r steps index) :
    Taken b.opened r steps index := by
  cases openCluster : b.openCluster with
  | some i => rwa [Builder.opened_of_some b i openCluster]
  | none =>
      obtain ⟨rooted, closed | used⟩ := taken
      · exact ⟨rooted, Or.inl closed⟩
      · refine ⟨rooted, Or.inr ?_⟩
        rcases b.openFrames.eq_nil_or_concat with empty | ⟨outer, ⟨children, texts⟩, frames⟩
        · rw [empty] at used
          exact used.elim
        · rw [List.concat_eq_append] at frames
          rw [open_frames_opened shaped openCluster outer children texts frames]
          rw [frames] at used
          exact used_text outer children texts steps index used

theorem fresh_taken (shaped : Shaped b r) (rooted : r.roots = 1) (inBody : b.bodyDepth ≠ 0)
    (closed : b.openCluster = none) :
    ¬Taken b r b.freshCluster.elementSteps b.freshCluster.textIndex ∧
      Taken b.opened r b.freshCluster.elementSteps b.freshCluster.textIndex := by
  obtain ⟨_, textCounts, steps, length⟩ := shaped.frames
  have depth := shaped.bodyDepth
  rcases b.openFrames.eq_nil_or_concat with empty | ⟨outer, ⟨children, texts⟩, frames⟩
  · simp only [empty, List.length_nil] at length
    omega
  · rw [List.concat_eq_append] at frames
    have stack : r.stack ≠ [] := by
      intro empty
      simp [empty, frames] at length
    have address : b.freshCluster.elementSteps = stepsOf outer ++ [] := by
      rw [List.append_nil]
      show b.steps = stepsOf outer
      rw [steps, frames, List.dropLast_concat]
    have index : b.freshCluster.textIndex = texts * 2 + 1 := by
      simp [Builder.freshCluster, textCounts, frames]
    rw [address, index]
    constructor
    · rintro ⟨_, empty | used⟩
      · exact stack empty
      · rw [frames, used_below] at used
        simp only [Used] at used
        omega
    · refine ⟨rooted, Or.inr ?_⟩
      rw [open_frames_opened shaped closed outer children texts frames, used_below]
      simp only [Used]
      omega

end Taken

def Cluster.address (cluster : Cluster) : List Nat × Nat :=
  (cluster.elementSteps, cluster.textIndex)

def addresses (clusters : List Cluster) : List (List Nat × Nat) := clusters.map (·.address)

/-- While the document keeps one root, the clusters' addresses are taken and distinct. -/
structure Addressed (b : Builder) (r : Reading) : Prop where
  tiled : Tiled b r
  shaped : Shaped b r
  unopened : r.roots = 0 → r.stack = []
  taken : r.roots ≤ 1 → ∀ address ∈ addresses b.clusters, Taken b r address.1 address.2
  distinct : r.roots ≤ 1 → (addresses b.clusters).Nodup

namespace Addressed

theorem opened {b : Builder} {r : Reading} (addressed : Addressed b r)
    (inBody : b.bodyDepth ≠ 0) : Addressed b.opened r := by
  obtain ⟨tiled, shaped, unopened, taken, distinct⟩ := addressed
  cases openCluster : b.openCluster with
  | some i =>
      rw [Builder.opened_of_some b i openCluster]
      exact ⟨tiled, shaped, unopened, taken, distinct⟩
  | none =>
      have rooted : r.roots ≠ 0 := by
        intro zero
        have := shaped.bodyDepth
        simp only [unopened zero, List.length_nil] at this
        omega
      have shape : addresses b.opened.clusters = addresses b.clusters ++ [b.freshCluster.address] := by
        rw [Builder.opened_of_none b openCluster]
        simp [addresses]
      have fresh := fun single : r.roots ≤ 1 =>
        fresh_taken shaped (by omega) inBody openCluster
      refine ⟨tiled.opened, shaped.opened, unopened, ?_, ?_⟩
      · intro single address member
        rw [shape] at member
        rcases List.mem_append.mp member with before | last
        · exact taken_opened shaped (taken single address before)
        · rw [List.mem_singleton.mp last]
          exact (fresh single).2
      · intro single
        rw [shape, List.nodup_append]
        refine ⟨distinct single, by simp, ?_⟩
        intro address before other last same
        rw [same, List.mem_singleton.mp last] at before
        exact (fresh single).1 (taken single _ before)

theorem congr {b b' : Builder} {r r' : Reading} (addressed : Addressed b r)
    (tiled : Tiled b' r') (shaped : Shaped b' r') (roots : r'.roots = r.roots)
    (stack : r'.stack = r.stack) (frames : b'.openFrames = b.openFrames)
    (same : addresses b'.clusters = addresses b.clusters) : Addressed b' r' where
  tiled := tiled
  shaped := shaped
  unopened := by
    rw [roots, stack]
    exact addressed.unopened
  taken := by
    rw [roots, same]
    intro single address member
    obtain ⟨rooted, free⟩ := addressed.taken single address member
    exact ⟨roots.trans rooted, by rwa [stack, frames]⟩
  distinct := by
    rw [roots, same]
    exact addressed.distinct

theorem keeps : Keeps Addressed where
  start b r localName qname id addressed := by
    obtain ⟨tiled, shaped, unopened, taken, distinct⟩ := addressed
    have both := Shaped.keeps.start b r localName qname id ⟨tiled, shaped⟩
    have grows : r.roots ≤ (r.start localName id).roots := by
      simp only [Reading.start]
      split_ifs <;> omega
    have same : (b.elementStart localName qname id).clusters = b.clusters := by
      rw [Builder.element_start_eq]
    refine ⟨both.1, both.2, ?_, ?_, ?_⟩
    · intro zero
      have empty := unopened (by omega)
      simp [Reading.start, empty] at zero
    · rw [same]
      intro single address member
      exact taken_start shaped localName qname id single (taken (by omega) address member)
    · rw [same]
      exact fun single => distinct (by omega)
  close b r addressed := by
    obtain ⟨tiled, shaped, unopened, taken, distinct⟩ := addressed
    have both := Shaped.keeps.close b r ⟨tiled, shaped⟩
    have same : b.elementEnd.clusters = b.clusters := by
      rw [Builder.element_end_eq]
    refine ⟨both.1, both.2, fun zero => by simp [Reading.close, unopened zero], ?_, ?_⟩
    · rw [same]
      exact fun single address member => taken_close shaped (taken single address member)
    · rwa [same]
  text b r decoded sourceBytes addressed := by
    have both := Shaped.keeps.text b r decoded sourceBytes ⟨addressed.tiled, addressed.shaped⟩
    by_cases inBody : b.bodyDepth = 0
    · rwa [Builder.chars, if_pos inBody, Reading.text,
        if_pos (by rw [← addressed.tiled.bodyDepth, inBody])]
    · have opened := addressed.opened inBody
      obtain ⟨front, cluster, last⟩ := addressed.tiled.opened_last
      rw [Builder.chars_eq decoded sourceBytes b inBody front cluster last] at both ⊢
      refine opened.congr both.1 both.2 ?_ ?_ rfl ?_
      · rw [Reading.text, if_neg (by rwa [← addressed.tiled.bodyDepth])]
      · rw [Reading.text, if_neg (by rwa [← addressed.tiled.bodyDepth])]
      · rw [last.clusters]
        simp [addresses, Builder.absorb, Cluster.address, Builder.extendCluster]
  flag b r addressed := by
    have both := Shaped.keeps.flag b r ⟨addressed.tiled, addressed.shaped⟩
    cases openCluster : b.openCluster with
    | none => rwa [Builder.flagMarkup, openCluster]
    | some i =>
        obtain ⟨front, cluster, last⟩ := addressed.tiled.opened_last
        rw [Builder.opened_of_some b i openCluster] at last
        rw [Builder.flag_markup_last b front cluster last] at both ⊢
        apply addressed.congr both.1 both.2 rfl rfl rfl
        rw [last.clusters]
        simp [addresses, Cluster.address]
  pending b r addressed := by
    have both := Shaped.keeps.pending b r ⟨addressed.tiled, addressed.shaped⟩
    exact addressed.congr both.1 both.2 rfl rfl rfl rfl

end Addressed

theorem walk_addressed (events : List Event) : Addressed (walk events) (read events) :=
  Addressed.keeps.walk
    { tiled := walk_tiled []
      shaped := by constructor <;> simp
      unopened := fun _ => rfl
      taken := by simp [addresses]
      distinct := by simp [addresses] }
    events

theorem addresses_nodup (events : List Event) (single : SingleRoot events) :
    (addresses (indexFile events).clusters).Nodup :=
  (walk_addressed events).distinct single

def Parity (address : List Nat × Nat) : Prop :=
  (∀ step ∈ address.1, step % 2 = 0) ∧ address.2 % 2 = 1

theorem fresh_parity {b : Builder} {r : Reading} (shaped : Shaped b r) :
    Parity b.freshCluster.address := by
  obtain ⟨_, _, steps, _⟩ := shaped.frames
  refine ⟨?_, by simp [Cluster.address, Builder.freshCluster]⟩
  intro step member
  have listed : step ∈ b.steps := member
  rw [steps] at listed
  obtain ⟨frame, _, rfl⟩ := List.mem_map.mp listed
  exact Nat.mul_mod_right 2 frame.1

theorem parity_keeps : Keeps fun b r =>
    (Tiled b r ∧ Shaped b r) ∧ ∀ address ∈ addresses b.clusters, Parity address where
  start b r localName qname id both := by
    refine ⟨Shaped.keeps.start b r localName qname id both.1, ?_⟩
    rw [Builder.element_start_eq]
    exact both.2
  close b r both := by
    refine ⟨Shaped.keeps.close b r both.1, ?_⟩
    rw [Builder.element_end_eq]
    exact both.2
  text b r decoded sourceBytes both := by
    refine ⟨Shaped.keeps.text b r decoded sourceBytes both.1, ?_⟩
    by_cases inBody : b.bodyDepth = 0
    · rw [Builder.chars, if_pos inBody]
      exact both.2
    · obtain ⟨front, cluster, last⟩ := both.1.1.opened_last
      rw [Builder.chars_eq decoded sourceBytes b inBody front cluster last]
      have same : addresses (front ++ [cluster]) = addresses b.opened.clusters := by
        rw [last.clusters]
      have opened : ∀ address ∈ addresses b.opened.clusters, Parity address := by
        cases openCluster : b.openCluster with
        | some i =>
            rw [Builder.opened_of_some b i openCluster]
            exact both.2
        | none =>
            rw [Builder.opened_of_none b openCluster]
            intro address member
            simp only [addresses, List.map_append, List.mem_append] at member
            rcases member with before | fresh
            · exact both.2 address before
            · simp only [List.map_cons, List.map_nil, List.mem_singleton] at fresh
              rw [fresh]
              exact fresh_parity both.1.2
      rw [← same] at opened
      simpa [addresses, Builder.absorb, Cluster.address, Builder.extendCluster] using opened
  flag b r both := by
    refine ⟨Shaped.keeps.flag b r both.1, ?_⟩
    cases openCluster : b.openCluster with
    | none =>
        rw [Builder.flagMarkup, openCluster]
        exact both.2
    | some i =>
        obtain ⟨front, cluster, last⟩ := both.1.1.opened_last
        rw [Builder.opened_of_some b i openCluster] at last
        rw [Builder.flag_markup_last b front cluster last]
        have parity := both.2
        rw [last.clusters] at parity
        simpa [addresses, Cluster.address] using parity
  pending b r both := ⟨Shaped.keeps.pending b r both.1, both.2⟩

theorem walk_parity (events : List Event) (cluster : Cluster)
    (member : cluster ∈ (indexFile events).clusters) : Parity cluster.address :=
  (parity_keeps.walk ⟨⟨walk_tiled [], by constructor <;> simp⟩, by simp [addresses]⟩ events).2 _
    (List.mem_map_of_mem member)

end Omnibus.KoboPosition
