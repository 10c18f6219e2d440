import Omnibus.KoboPosition.Nesting

/-!
# The text of one element

The addresses below an element's steps are those of the text nodes inside it, and its
own text nodes are numbered from one. So an element anchor finds the first text node of
the element's own when there is one, and the first one inside it otherwise.
-/

namespace Omnibus.KoboPosition

open Omnibus.Library.Strings

/-- The text node lies inside the element with start tag `tag`, at any depth. -/
def TextNode.within (tag : Nat) (node : TextNode) : Bool := node.stack.any (·.tag == tag)

/-- The text node is a child of the element with start tag `tag`. -/
def TextNode.ownOf (tag : Nat) (node : TextNode) : Bool :=
  node.stack.head?.any (·.tag == tag)

theorem within_of_own (tag : Nat) (node : TextNode) (own : node.ownOf tag = true) :
    node.within tag = true := by
  unfold TextNode.ownOf at own
  unfold TextNode.within
  cases shape : node.stack with
  | nil => simp [shape] at own
  | cons frame rest => simp_all

def named (b : Builder) (r : Reading) : List ((List Nat × Nat) × TextNode) :=
  (addresses b.clusters).zip r.textNodes

section Element

variable (base : List (Nat × Nat)) (outer : List Frame) (frame : Frame)

/-- Among the addresses, those below `base` belong to text inside the element. -/
def Names (pair : (List Nat × Nat) × TextNode) : Prop :=
  (stepsOf base <+: pair.1.1 ↔ pair.2.within frame.tag = true) ∧
    (pair.1.1 = stepsOf base ↔ pair.2.ownOf frame.tag = true)

/-- The element is open, below the elements counted by `base`. -/
def Inside (b : Builder) (r : Reading) : Prop :=
  ∃ own deeper inner, b.openFrames = base ++ own :: deeper ∧
    r.stack = inner ++ frame :: outer ∧ inner.length = deeper.length ∧
    (own.2 ≠ 0 → ∃ pair ∈ named b r, pair.2.ownOf frame.tag = true)

/-- The element closed: no address below it can be given out again. -/
def Outside (b : Builder) (r : Reading) : Prop :=
  (∀ other ∈ r.stack, other.tag ≠ frame.tag) ∧
    ∀ rest index, Taken b r (stepsOf base ++ rest) index

structure Around (b : Builder) (r : Reading) : Prop where
  addressed : Addressed b r
  mirrored : Mirrored b r
  nested : Nested r
  passed : frame.tag < r.node
  names : r.roots ≤ 1 → ∀ pair ∈ named b r, Names base frame pair
  phase : r.roots ≤ 1 → Inside base outer frame b r ∨ Outside base frame b r
  first : r.roots ≤ 1 → ∀ pair,
    (named b r).find? (·.2.ownOf frame.tag) = some pair → pair.1.2 = 1
  lead : r.roots ≤ 1 → ∀ pair,
    (named b r).find? (·.2.within frame.tag) = some pair → pair.2.first = frame.openedAt
  quiet : (named b r).find? (·.2.within frame.tag) = none → frame ∈ r.stack →
    r.glyphs.length = frame.openedAt

variable {base outer frame} {b : Builder} {r : Reading}

theorem within_of_mem (node : TextNode) (member : frame ∈ node.stack) :
    node.within frame.tag = true := by
  simp only [TextNode.within, List.any_eq_true, beq_iff_eq]
  exact ⟨frame, member, rfl⟩

theorem inside_start (shaped : Shaped b r) (localName qname : Text) (id : Option Text)
    (inside : Inside base outer frame b r) :
    Inside base outer frame (b.elementStart localName qname id) (r.start localName id) := by
  obtain ⟨own, deeper, inner, frames, stack, depth, started⟩ := inside
  have kept : named (b.elementStart localName qname id) (r.start localName id) = named b r := by
    rw [Builder.element_start_eq]
    rfl
  rcases deeper.eq_nil_or_concat with rfl | ⟨between, ⟨children, texts⟩, rfl⟩
  · refine ⟨(own.1 + 1, own.2), [(0, 0)], r.newFrame id :: inner, ?_, ?_, ?_, by rwa [kept]⟩
    · rw [open_frames_start shaped localName qname id base own.1 own.2 frames]
    · simp only [Reading.start, stack]
      rfl
    · simp [List.length_eq_zero_iff.mp depth]
  · rw [List.concat_eq_append] at frames depth
    refine ⟨own, between ++ [(children + 1, texts), (0, 0)], r.newFrame id :: inner, ?_, ?_, ?_,
      by rwa [kept]⟩
    · rw [open_frames_start shaped localName qname id (base ++ own :: between) children texts
        (by rw [frames]; simp)]
      simp
    · simp only [Reading.start, stack]
      rfl
    · simp only [List.length_append, List.length_cons, List.length_nil] at depth ⊢
      omega

theorem inside_close (shaped : Shaped b r) (inside : Inside base outer frame b r)
    (nested : Nested r) (rooted : r.roots = 1) (below : base ≠ []) :
    Inside base outer frame b.elementEnd r.close ∨ Outside base frame b.elementEnd r.close := by
  obtain ⟨own, deeper, inner, frames, stack, depth, started⟩ := inside
  have kept : named b.elementEnd r.close = named b r := by
    rw [Builder.element_end_eq]
    rfl
  rcases inner with _ | ⟨closed, inner⟩
  · obtain rfl := List.length_eq_zero_iff.mp depth.symm
    right
    constructor
    · intro other member
      have ordered := nested.decreasing
      rw [stack, List.nil_append, List.pairwise_cons] at ordered
      have outside : other ∈ outer := by simpa [Reading.close, stack] using member
      exact Nat.ne_of_lt (ordered.1 other outside)
    · intro rest index
      refine ⟨rooted, Or.inr ?_⟩
      rw [open_frames_close shaped, frames, List.dropLast_concat]
      rcases base.eq_nil_or_concat with empty | ⟨front, last, rfl⟩
      · exact absurd empty below
      · rw [List.concat_eq_append, show stepsOf (front ++ [last]) ++ rest =
          stepsOf front ++ (2 * last.1 :: rest) by simp [stepsOf], used_below]
        exact Or.inr ⟨rfl, Or.inl rfl⟩
  · left
    have shape : deeper ≠ [] := by
      intro equal
      subst equal
      simp at depth
    refine ⟨own, deeper.dropLast, inner, ?_, ?_, ?_, by rwa [kept]⟩
    · rw [open_frames_close shaped, frames, List.dropLast_append_of_ne_nil (by simp),
        List.dropLast_cons_of_ne_nil shape]
    · simp [Reading.close, stack]
    · rw [List.length_dropLast, ← depth]
      simp

theorem named_opened (mirrored : Mirrored b r) (closed : b.openCluster = none) :
    named b.opened r.opened =
      named b r ++ [(b.freshCluster.address, r.newTextNode)] := by
  have textOpen : r.textOpen = false := by rw [mirrored.openText, closed]; rfl
  have length := nodes_at_length 0 _ _ mirrored.places
  rw [Builder.opened_of_none b closed]
  simp only [named, addresses, Reading.opened, textOpen, Bool.false_eq_true, if_false,
    List.map_append, List.map_cons, List.map_nil]
  rw [List.zip_append (by simpa using length)]
  rfl

theorem named_nodes (mirrored : Mirrored b r) : (named b r).map Prod.snd = r.textNodes := by
  have length := nodes_at_length 0 _ _ mirrored.places
  rw [named, List.map_snd_zip]
  simp [addresses, length]

theorem exists_named (mirrored : Mirrored b r) (node : TextNode) (member : node ∈ r.textNodes) :
    ∃ pair ∈ named b r, pair.2 = node := by
  rw [← named_nodes mirrored] at member
  simpa using member

theorem fresh_names (shaped : Shaped b r) (nested : Nested r) (rooted : r.roots = 1)
    (inBody : b.bodyDepth ≠ 0) (closed : b.openCluster = none)
    (phase : Inside base outer frame b r ∨ Outside base frame b r) :
    Names base frame (b.freshCluster.address, r.newTextNode) := by
  obtain ⟨_, _, steps, _⟩ := shaped.frames
  have address : b.freshCluster.address.1 = b.steps := rfl
  have stackSame : r.newTextNode.stack = r.stack := rfl
  rcases phase with ⟨own, deeper, inner, frames, stack, depth, _⟩ | ⟨left, taken⟩
  · have below : b.steps = stepsOf base ++ stepsOf (own :: deeper).dropLast := by
      rw [steps, frames, List.dropLast_append_of_ne_nil (by simp)]
      simp [stepsOf]
    have within : r.newTextNode.within frame.tag = true :=
      within_of_mem _ (by rw [stackSame, stack]; simp)
    refine ⟨⟨fun _ => within, fun _ => ⟨_, by rw [address, below]⟩⟩, ?_⟩
    rw [address, below, TextNode.ownOf, stackSame, stack]
    rcases inner with _ | ⟨head, inner⟩
    · obtain rfl := List.length_eq_zero_iff.mp depth.symm
      simp [stepsOf]
    · have ordered := nested.decreasing
      rw [stack, List.cons_append, List.pairwise_cons] at ordered
      have less := ordered.1 frame (by simp)
      rcases deeper with _ | ⟨next, deeper⟩
      · simp at depth
      · simp [stepsOf, Nat.ne_of_gt less]
  · have free := (fresh_taken shaped rooted inBody closed).1
    have apart : ¬stepsOf base <+: b.steps := by
      rintro ⟨rest, same⟩
      apply free
      have := taken rest b.freshCluster.textIndex
      rwa [same] at this
    have notWithin : r.newTextNode.within frame.tag = false := by
      simpa [TextNode.within, stackSame] using left
    refine ⟨⟨fun under => absurd under apart, fun within => by simp [notWithin] at within⟩,
      ⟨fun same => absurd ⟨[], by rw [List.append_nil]; exact same.symm⟩ apart, fun own => ?_⟩⟩
    rw [within_of_own _ _ own] at notWithin
    exact absurd notWithin (by simp)

theorem inside_opened (shaped : Shaped b r) (mirrored : Mirrored b r)
    (closed : b.openCluster = none) (inside : Inside base outer frame b r) :
    Inside base outer frame b.opened r.opened := by
  obtain ⟨own, deeper, inner, frames, stack, depth, started⟩ := inside
  rw [Inside, named_opened mirrored closed]
  rcases deeper.eq_nil_or_concat with rfl | ⟨between, ⟨children, texts⟩, rfl⟩
  · refine ⟨(own.1, own.2 + 1), [], inner, ?_, stack, depth, fun _ => ?_⟩
    · exact open_frames_opened shaped closed base own.1 own.2 frames
    · refine ⟨_, List.mem_append_right _ (List.mem_singleton_self _), ?_⟩
      obtain rfl := List.length_eq_zero_iff.mp depth
      simp [TextNode.ownOf, Reading.newTextNode, stack]
  · rw [List.concat_eq_append] at frames depth
    refine ⟨own, between ++ [(children, texts + 1)], inner, ?_, stack, by simpa using depth, ?_⟩
    · rw [open_frames_opened shaped closed (base ++ own :: between) children texts
        (by rw [frames]; simp)]
      simp
    · intro texted
      obtain ⟨pair, member, own⟩ := started texted
      exact ⟨pair, List.mem_append_left _ member, own⟩

theorem fresh_first (shaped : Shaped b r) (nested : Nested r)
    (phase : Inside base outer frame b r ∨ Outside base frame b r)
    (none : (named b r).find? (·.2.ownOf frame.tag) = none)
    (own : r.newTextNode.ownOf frame.tag = true) : b.freshCluster.textIndex = 1 := by
  obtain ⟨_, textCounts, _, _⟩ := shaped.frames
  rcases phase with ⟨counts, deeper, inner, frames, stack, depth, started⟩ | ⟨left, _⟩
  · rcases inner with _ | ⟨head, inner⟩
    · obtain rfl := List.length_eq_zero_iff.mp depth.symm
      have fresh : counts.2 = 0 := by
        by_contra texted
        obtain ⟨pair, member, owned⟩ := started texted
        exact absurd owned (List.find?_eq_none.mp none pair member)
      simp [Builder.freshCluster, textCounts, frames, fresh]
    · have ordered := nested.decreasing
      rw [stack, List.cons_append, List.pairwise_cons] at ordered
      have less := ordered.1 frame (by simp)
      have same : head.tag = frame.tag := by
        simpa [TextNode.ownOf, Reading.newTextNode, stack] using own
      omega
  · have within := within_of_own _ _ own
    simp only [TextNode.within, List.any_eq_true, beq_iff_eq] at within
    obtain ⟨other, inside, same⟩ := within
    exact absurd same (left other inside)

namespace Around

/-- The phases, the names and the counts read only these parts of the two states. -/
theorem congr {b' : Builder} {r' : Reading} (around : Around base outer frame b r)
    (addressed : Addressed b' r') (mirrored : Mirrored b' r') (nested : Nested r')
    (passed : frame.tag < r'.node) (same : named b' r' = named b r)
    (roots : r'.roots = r.roots) (stack : r'.stack = r.stack)
    (frames : b'.openFrames = b.openFrames)
    (quiet : (named b r).find? (·.2.within frame.tag) = none → frame ∈ r.stack →
      r'.glyphs.length = frame.openedAt) : Around base outer frame b' r' where
  addressed := addressed
  mirrored := mirrored
  nested := nested
  passed := passed
  names := by
    rw [roots, same]
    exact around.names
  phase := by
    rw [roots]
    intro single
    rcases around.phase single with inside | ⟨left, taken⟩
    · left
      rwa [Inside, frames, stack, same]
    · right
      refine ⟨by rwa [stack], fun rest index => ?_⟩
      obtain ⟨rooted, free⟩ := taken rest index
      exact ⟨roots.trans rooted, by rwa [stack, frames]⟩
  first := by
    rw [roots, same]
    exact around.first
  lead := by
    rw [roots, same]
    exact around.lead
  quiet := by
    rw [same, stack]
    exact quiet

theorem rooted (around : Around base outer frame b r) (single : r.roots ≤ 1)
    (inBody : b.bodyDepth ≠ 0) : r.roots = 1 := by
  by_contra other
  have empty := around.addressed.unopened (by omega)
  have depth := around.addressed.shaped.bodyDepth
  simp only [empty, List.length_nil] at depth
  omega

theorem opened (around : Around base outer frame b r) (inBody : b.bodyDepth ≠ 0) :
    Around base outer frame b.opened r.opened := by
  have mirrored := around.mirrored.opened
  have shaped : Shaped b.opened r.opened := by
    obtain ⟨childCounts, textCounts, steps, bodyDepth⟩ := around.addressed.shaped.opened
    exact ⟨childCounts, textCounts, steps, bodyDepth⟩
  have addressed : Addressed b.opened r.opened :=
    (around.addressed.opened inBody).congr mirrored.tiled shaped rfl rfl rfl rfl
  cases closed : b.openCluster with
  | some i =>
      have textOpen : r.textOpen = true := by rw [around.mirrored.openText, closed]; rfl
      have sameReading : r.opened = r := by
        cases r
        simp_all [Reading.opened]
      rwa [Builder.opened_of_some b i closed, sameReading]
  | none =>
      have shape := named_opened around.mirrored closed
      have nested : Nested r.opened := by
        obtain ⟨decreasing, below, opened, encloses, nodes, glyphs⟩ := around.nested
        refine ⟨decreasing, below, opened, encloses, ?_, glyphs⟩
        intro node member inner inside
        simp only [Reading.opened] at member
        split_ifs at member
        · exact nodes node member inner inside
        · rcases List.mem_append.mp member with before | last
          · exact nodes node before inner inside
          · rw [List.mem_singleton.mp last] at inside
            exact below inner inside
      have member : frame ∈ r.stack → r.newTextNode.within frame.tag = true :=
        fun member => within_of_mem _ member
      exact {
        addressed := addressed
        mirrored := mirrored
        nested := nested
        passed := around.passed
        names := by
          intro single pair member
          rw [shape] at member
          rcases List.mem_append.mp member with before | last
          · exact around.names single pair before
          · rw [List.mem_singleton.mp last]
            exact fresh_names around.addressed.shaped around.nested
              (around.rooted single inBody) inBody closed (around.phase single)
        phase := by
          intro single
          rcases around.phase single with inside | ⟨left, taken⟩
          · exact Or.inl (inside_opened around.addressed.shaped around.mirrored closed inside)
          · refine Or.inr ⟨left, fun rest index => ?_⟩
            obtain ⟨rooted, free⟩ := taken_opened around.addressed.shaped (taken rest index)
            exact ⟨rooted, free⟩
        first := by
          intro single pair found
          rw [shape, List.find?_append, Option.or_eq_some_iff] at found
          rcases found with before | ⟨none, last⟩
          · exact around.first single pair before
          · obtain ⟨own, rfl⟩ := by simpa using last
            exact fresh_first around.addressed.shaped around.nested (around.phase single) none own
        lead := by
          intro single pair found
          rw [shape, List.find?_append, Option.or_eq_some_iff] at found
          rcases found with before | ⟨none, last⟩
          · exact around.lead single pair before
          · obtain ⟨within, rfl⟩ := by simpa using last
            rcases around.phase single with ⟨_, _, inner, _, stack, _⟩ | ⟨left, _⟩
            · exact around.quiet none (by rw [stack]; simp)
            · simp only [TextNode.within, List.any_eq_true, beq_iff_eq] at within
              obtain ⟨other, inside, same⟩ := within
              exact absurd same (left other inside)
        quiet := by
          intro none open'
          rw [shape, List.find?_append, Option.or_eq_none_iff] at none
          have := member open'
          simp [this] at none }

theorem keeps (below : base ≠ []) : Keeps (Around base outer frame) where
  start b r localName qname id around := by
    have kept : named (b.elementStart localName qname id) (r.start localName id) = named b r := by
      rw [Builder.element_start_eq]
      rfl
    have grows : r.roots ≤ (r.start localName id).roots := by
      simp only [Reading.start]
      split_ifs <;> omega
    have shaped := around.addressed.shaped
    exact {
      addressed := Addressed.keeps.start b r localName qname id around.addressed
      mirrored := Mirrored.keeps.start b r localName qname id around.mirrored
      nested := Nested.keeps.start b r localName qname id around.nested
      passed := Nat.lt_succ_of_lt around.passed
      names := by
        rw [kept]
        exact fun single => around.names (by omega)
      phase := by
        intro single
        rcases around.phase (by omega) with inside | ⟨left, taken⟩
        · exact Or.inl (inside_start shaped localName qname id inside)
        · refine Or.inr ⟨?_, fun rest index =>
            taken_start shaped localName qname id single (taken rest index)⟩
          intro other member
          rcases List.mem_cons.mp member with rfl | before
          · exact Nat.ne_of_gt around.passed
          · exact left other before
      first := by
        rw [kept]
        exact fun single => around.first (by omega)
      lead := by
        rw [kept]
        exact fun single => around.lead (by omega)
      quiet := by
        rw [kept]
        intro none member
        rcases List.mem_cons.mp member with rfl | before
        · exact absurd around.passed (Nat.lt_irrefl _)
        · exact around.quiet none before }
  close b r around := by
    have kept : named b.elementEnd r.close = named b r := by
      rw [Builder.element_end_eq]
      rfl
    have shaped := around.addressed.shaped
    exact {
      addressed := Addressed.keeps.close b r around.addressed
      mirrored := Mirrored.keeps.close b r around.mirrored
      nested := Nested.keeps.close b r around.nested
      passed := Nat.lt_succ_of_lt around.passed
      names := by
        rw [kept]
        exact around.names
      phase := by
        intro single
        rcases around.phase single with inside | ⟨left, taken⟩
        · have rooted : r.roots = 1 := by
            obtain ⟨_, _, inner, _, stack, _⟩ := inside
            by_contra other
            have empty := around.addressed.unopened (by
              have : r.roots ≤ 1 := single
              omega)
            simp [empty] at stack
          exact inside_close shaped inside around.nested rooted below
        · exact Or.inr ⟨fun other member => left other (List.mem_of_mem_tail member),
            fun rest index => taken_close shaped (taken rest index)⟩
      first := by
        rw [kept]
        exact around.first
      lead := by
        rw [kept]
        exact around.lead
      quiet := by
        rw [kept]
        exact fun none member => around.quiet none (List.mem_of_mem_tail member) }
  text b r decoded sourceBytes around := by
    have addressed := Addressed.keeps.text b r decoded sourceBytes around.addressed
    have mirrored := Mirrored.keeps.text b r decoded sourceBytes around.mirrored
    have nested := Nested.keeps.text b r decoded sourceBytes around.nested
    by_cases inBody : b.bodyDepth = 0
    · rwa [Builder.chars, if_pos inBody, Reading.text,
        if_pos (by rw [← around.mirrored.tiled.bodyDepth, inBody])]
    · have opened := around.opened inBody
      obtain ⟨front, cluster, last⟩ := around.mirrored.tiled.opened_last
      rw [Builder.chars_eq decoded sourceBytes b inBody front cluster last] at addressed mirrored ⊢
      rw [Reading.text_eq decoded r (by rwa [← around.mirrored.tiled.bodyDepth])] at *
      refine opened.congr addressed mirrored nested around.passed ?_ rfl rfl rfl ?_
      · rw [named, named, last.clusters]
        simp [addresses, Builder.absorb, Cluster.address, Builder.extendCluster]
      · intro none member
        obtain ⟨nodes, node, _, _, shape, _, stack, _⟩ := opened.mirrored.last rfl
        obtain ⟨pair, paired, rfl⟩ := exists_named opened.mirrored node (by rw [shape]; simp)
        have within : pair.2.within frame.tag = true :=
          within_of_mem pair.2 (by rw [stack]; exact member)
        exact absurd within (List.find?_eq_none.mp none pair paired)
  flag b r around := by
    have addressed := Addressed.keeps.flag b r around.addressed
    have mirrored := Mirrored.keeps.flag b r around.mirrored
    cases openCluster : b.openCluster with
    | none => rwa [Builder.flagMarkup, openCluster]
    | some i =>
        obtain ⟨front, cluster, last⟩ := around.mirrored.tiled.opened_last
        rw [Builder.opened_of_some b i openCluster] at last
        rw [Builder.flag_markup_last b front cluster last] at addressed mirrored ⊢
        refine around.congr addressed mirrored around.nested around.passed ?_ rfl rfl rfl
          around.quiet
        rw [named, named, last.clusters]
        simp [addresses, Cluster.address]
  pending b r around := by
    exact around.congr (Addressed.keeps.pending b r around.addressed)
      (Mirrored.keeps.pending b r around.mirrored) around.nested around.passed rfl rfl rfl rfl
      around.quiet

end Around

end Element

end Omnibus.KoboPosition
