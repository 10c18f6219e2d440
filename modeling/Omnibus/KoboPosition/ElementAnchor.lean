import Omnibus.KoboPosition.Elements

/-!
# Element anchors

A point CFI that ends on an element's steps is read as the start of the element's text
node number one. It resolves to the first visible character inside the element exactly
when no visible character of the element comes before that node.
-/

namespace Omnibus.KoboPosition

open Omnibus.Library.Strings Omnibus.Library.Collapse

structure Opening where
  before : List Event
  localName : Text
  qname : Text
  id : Option Text
  after : List Event

namespace Opening

def events (o : Opening) : List Event :=
  o.before ++ .start o.localName o.qname o.id :: o.after

def steps (o : Opening) : List Nat :=
  ((walk o.before).elementStart o.localName o.qname o.id).steps

def frame (o : Opening) : Frame := (read o.before).newFrame o.id

def ownText (o : Opening) : Option TextNode :=
  (read o.events).textNodes.find? (·.ownOf o.frame.tag)

def firstVisible (o : Opening) : Nat := (read o.events).firstVisible o.frame.openedAt

/-- An element below the root of a document, with visible text inside it. -/
structure Proper (o : Opening) : Prop where
  single : SingleRoot o.events
  below : (read o.before).stack ≠ []
  visible : ∃ glyph ∈ (read o.events).glyphs, glyph.visible = true ∧
    ∃ frame ∈ glyph.stack, frame.tag = o.frame.tag

end Opening

theorem named_get (b : Builder) (r : Reading) (front back : List ((List Nat × Nat) × TextNode))
    (pair : (List Nat × Nat) × TextNode) (shape : named b r = front ++ pair :: back) :
    ∃ cluster, b.clusters[front.length]? = some cluster ∧ cluster.address = pair.1 ∧
      r.textNodes[front.length]? = some pair.2 := by
  have found : (named b r)[front.length]? = some pair := by
    rw [shape]
    simp
  rw [named, List.getElem?_zip_eq_some] at found
  obtain ⟨address, node⟩ := found
  rw [addresses, List.getElem?_map, Option.map_eq_some_iff] at address
  obtain ⟨cluster, here, same⟩ := address
  exact ⟨cluster, here, same, node⟩

theorem replay_norm_zero (cluster : Cluster) : replayNorm cluster 0 = cluster.normStart := by
  have split := replay_norm_from_split [] cluster.raw cluster.normStart 0 cluster.enteredInRun
  simpa [replayNorm, utf16Length, collapsed, collapse] using split

namespace Opening

variable {o : Opening}

theorem read_events (o : Opening) :
    read o.events = o.after.foldl Reading.event ((read o.before).start o.localName o.id) := by
  simp [events, read, List.foldl_append, Reading.event]

theorem walk_events (o : Opening) :
    walk o.events =
      o.after.foldl Builder.event ((walk o.before).elementStart o.localName o.qname o.id) := by
  simp [events, walk, List.foldl_append, Builder.event]

theorem around (o : Opening) (below : (read o.before).stack ≠ []) :
    ∃ base, base ≠ [] ∧ stepsOf base = o.steps ∧
      Around base (read o.before).stack o.frame (walk o.events) (read o.events) := by
  have addressed := walk_addressed o.before
  have mirrored := walk_mirrored o.before
  have nested := read_nested o.before
  obtain ⟨_, _, steps, length⟩ := addressed.shaped.frames
  rcases (walk o.before).openFrames.eq_nil_or_concat with empty | ⟨front, ⟨children, texts⟩, frames⟩
  · rw [empty] at length
    exact absurd (List.length_eq_zero_iff.mp length.symm) below
  rw [List.concat_eq_append] at frames
  have started := open_frames_start addressed.shaped o.localName o.qname o.id front children texts
    frames
  have kept : named ((walk o.before).elementStart o.localName o.qname o.id)
      ((read o.before).start o.localName o.id) = named (walk o.before) (read o.before) := by
    rw [Builder.element_start_eq]
    rfl
  have notWithin : ∀ pair ∈ named (walk o.before) (read o.before),
      pair.2.within o.frame.tag = false := by
    intro pair member
    have node : pair.2 ∈ (read o.before).textNodes := (List.of_mem_zip member).2
    simp only [TextNode.within, List.any_eq_false, beq_iff_eq]
    intro frame inside same
    have := nested.nodes pair.2 node frame inside
    rw [same] at this
    exact absurd this (Nat.lt_irrefl _)
  have notOwn : ∀ pair ∈ named (walk o.before) (read o.before),
      pair.2.ownOf o.frame.tag = false := by
    intro pair member
    by_contra own
    rw [Bool.not_eq_false] at own
    have := within_of_own _ _ own
    rw [notWithin pair member] at this
    exact absurd this (by simp)
  refine ⟨front ++ [(children + 1, texts)], by simp, ?_, ?_⟩
  · have fromStart := Addressed.keeps.start _ _ o.localName o.qname o.id addressed
    obtain ⟨_, _, steps, _⟩ := fromStart.shaped.frames
    rw [Opening.steps, steps, started, show [(children + 1, texts), (0, 0)] =
      [(children + 1, texts)] ++ [(0, 0)] from rfl, ← List.append_assoc, List.dropLast_concat]
  · rw [read_events, walk_events]
    apply (Around.keeps (by simp)).events _ _ o.after
    exact {
      addressed := Addressed.keeps.start _ _ o.localName o.qname o.id addressed
      mirrored := Mirrored.keeps.start _ _ o.localName o.qname o.id mirrored
      nested := Nested.keeps.start (walk o.before) _ o.localName o.qname o.id nested
      passed := Nat.lt_succ_self _
      names := by
        rw [kept]
        intro single pair member
        have one : (read o.before).roots ≤ 1 := by
          simp only [Reading.start, below, if_false] at single
          exact single
        have apart : ¬stepsOf (front ++ [(children + 1, texts)]) <+: pair.1.1 := by
          rintro ⟨rest, same⟩
          obtain ⟨_, free⟩ := addressed.taken one pair.1 (List.of_mem_zip member).1
          have used := free.resolve_left below
          rw [frames, ← same, show stepsOf (front ++ [(children + 1, texts)]) ++ rest =
            stepsOf front ++ (2 * (children + 1) :: rest) by simp [stepsOf], used_below] at used
          simp only [Used] at used
          omega
        refine ⟨⟨fun under => absurd under apart, fun within => ?_⟩,
          ⟨fun same => absurd ⟨[], by rw [List.append_nil]; exact same.symm⟩ apart, fun own => ?_⟩⟩
        · rw [notWithin pair member] at within
          exact absurd within (by simp)
        · rw [notOwn pair member] at own
          exact absurd own (by simp)
      phase := by
        intro _
        left
        refine ⟨(0, 0), [], [], ?_, rfl, rfl, by simp⟩
        rw [started]
        simp
      first := by
        rw [kept]
        intro _ pair found
        have := List.find?_some found
        rw [notOwn pair (List.mem_of_find?_eq_some found)] at this
        exact absurd this (by simp)
      lead := by
        rw [kept]
        intro _ pair found
        have := List.find?_some found
        rw [notWithin pair (List.mem_of_find?_eq_some found)] at this
        exact absurd this (by simp)
      quiet := fun _ _ => rfl }

def tail (o : Opening) : CfiTail where
  elementSteps := o.steps
  textIndex := 1
  offsetUtf16 := 0

theorem opened_le_first (proper : o.Proper) (i : Nat) (node : TextNode)
    (found : (read o.events).textNodes[i]? = some node)
    (within : node.within o.frame.tag = true) : o.frame.openedAt ≤ node.first := by
  obtain ⟨base, _, steps, around⟩ := o.around proper.below
  have nodes := named_nodes around.mirrored
  rw [← nodes, List.getElem?_map, Option.map_eq_some_iff] at found
  obtain ⟨pair, paired, rfl⟩ := found
  have some : ((named (walk o.events) (read o.events)).find?
      (·.2.within o.frame.tag)).isSome :=
    List.find?_isSome.mpr ⟨pair, List.mem_of_getElem? paired, within⟩
  obtain ⟨leading, leadingFound⟩ := Option.isSome_iff_exists.mp some
  obtain ⟨_, earlier, later, shape, outside⟩ := List.find?_eq_some_iff_append.mp leadingFound
  obtain ⟨_, _, _, leadingNode⟩ := named_get _ _ earlier later leading shape
  have before : earlier.length ≤ i := by
    by_contra more
    rw [shape, List.getElem?_append_left (by omega)] at paired
    have := outside pair (List.mem_of_getElem? paired)
    simp [within] at this
  rw [← around.lead proper.single leading leadingFound]
  apply around.mirrored.first_mono _ i _ _ before leadingNode
  rw [← nodes, List.getElem?_map, paired]
  rfl

theorem tail_cluster_own (proper : o.Proper) (node : TextNode) (own : o.ownText = some node) :
    ∃ cluster, (indexFile o.events).tailCluster o.tail = some cluster ∧
      cluster.normStart = (read o.events).normAt node.first ∧
      o.frame.openedAt ≤ node.first := by
  obtain ⟨base, _, steps, around⟩ := o.around proper.below
  have nodes := named_nodes around.mirrored
  rw [ownText, ← nodes, List.find?_map, Option.map_eq_some_iff] at own
  obtain ⟨pair, found, rfl⟩ := own
  obtain ⟨owned, front, back, shape, _⟩ := List.find?_eq_some_iff_append.mp found
  have names := around.names proper.single pair (List.mem_of_find?_eq_some found)
  have index := around.first proper.single pair found
  obtain ⟨cluster, clusterFound, address, nodeFound⟩ := named_get _ _ front back pair shape
  have resolved := tail_cluster_tail (indexFile o.events)
    (addresses_nodup o.events proper.single) cluster (List.mem_of_getElem? clusterFound) 0
  have same : cluster.tail 0 = o.tail := by
    have first : cluster.elementSteps = o.steps := by
      rw [← steps, ← names.2.mpr owned, ← address]
      rfl
    have second : cluster.textIndex = 1 := by
      rw [← index, ← address]
      rfl
    simp [Cluster.tail, tail, first, second]
  refine ⟨cluster, same ▸ resolved,
    around.mirrored.norm_start front.length cluster pair.2 clusterFound nodeFound, ?_⟩
  exact opened_le_first proper front.length pair.2 nodeFound (within_of_own _ _ owned)

theorem exists_within (proper : o.Proper) :
    ∃ node ∈ (read o.events).textNodes, node.within o.frame.tag = true := by
  obtain ⟨glyph, member, _, frame, inside, tag⟩ := proper.visible
  obtain ⟨j, found⟩ := List.mem_iff_getElem?.mp member
  rw [(walk_mirrored o.events).glyphs] at found
  obtain ⟨before, cluster, node, left, right, place⟩ := exists_glyph_at _ _ j glyph found
  refine ⟨node, List.mem_of_getElem? place.nodes, ?_⟩
  rw [place.stack] at inside
  rw [← tag]
  exact within_of_mem node inside

theorem tail_cluster_nested (proper : o.Proper) (none : o.ownText = none) :
    ∃ cluster, (indexFile o.events).tailCluster o.tail = some cluster ∧
      cluster.normStart = (read o.events).normAt o.frame.openedAt := by
  obtain ⟨base, _, steps, around⟩ := o.around proper.below
  have names := around.names proper.single
  obtain ⟨node, nodeMember, nodeWithin⟩ := exists_within proper
  obtain ⟨_, paired, rfl⟩ := exists_named around.mirrored node nodeMember
  have within : ((named (walk o.events) (read o.events)).find?
      (·.2.within o.frame.tag)).isSome := List.find?_isSome.mpr ⟨_, paired, nodeWithin⟩
  obtain ⟨leading, found⟩ := Option.isSome_iff_exists.mp within
  obtain ⟨leadingWithin, front, back, shape, outside⟩ := List.find?_eq_some_iff_append.mp found
  obtain ⟨cluster, clusterFound, address, nodeFound⟩ := named_get _ _ front back leading shape
  have length := nodes_at_length 0 _ _ around.mirrored.places
  have namedAddresses : (named (walk o.events) (read o.events)).map Prod.fst =
      addresses (walk o.events).clusters :=
    List.map_fst_zip (by simp [addresses, length])
  have pairOf : ∀ c ∈ (indexFile o.events).clusters,
      ∃ pair ∈ named (walk o.events) (read o.events), pair.1 = c.address := by
    intro c member
    have listed : c.address ∈ (named (walk o.events) (read o.events)).map Prod.fst := by
      rw [namedAddresses]
      exact List.mem_map_of_mem member
    simpa using listed
  have notOwn : (indexFile o.events).clusters.find? (fun c =>
      c.elementSteps = o.tail.elementSteps ∧ c.textIndex = o.tail.textIndex) = Option.none := by
    rw [List.find?_eq_none]
    intro c member
    obtain ⟨pair, pairMember, same⟩ := pairOf c member
    simp only [decide_eq_true_eq, not_and]
    intro stepsSame
    have own : pair.2.ownOf o.frame.tag = true := by
      rw [← (names pair pairMember).2, same, steps]
      exact stepsSame
    have textMember : pair.2 ∈ (read o.events).textNodes := (List.of_mem_zip pairMember).2
    exact absurd own (List.find?_eq_none.mp none pair.2 textMember)
  have under : (indexFile o.events).clusters.find? (fun c =>
      o.tail.elementSteps.isPrefixOf c.elementSteps) = some cluster := by
    rw [List.find?_eq_some_iff_getElem]
    obtain ⟨inside, here⟩ := List.getElem?_eq_some_iff.mp clusterFound
    refine ⟨?_, front.length, inside, here, ?_⟩
    · rw [List.isPrefixOf_iff_prefix]
      have := (names leading (List.mem_of_find?_eq_some found)).1.mpr leadingWithin
      rwa [← address, steps] at this
    · intro j less
      have here := names front[j] (by rw [shape]; simp)
      have notWithin := outside front[j] (List.getElem_mem less)
      have listed : (addresses (walk o.events).clusters)[j]? = some front[j].1 := by
        rw [← namedAddresses, List.getElem?_map, shape, List.getElem?_append_left less,
          List.getElem?_eq_getElem less]
        rfl
      rw [addresses, List.getElem?_map, List.getElem?_eq_getElem (by omega)] at listed
      have same : ((walk o.events).clusters[j]).elementSteps = front[j].1.1 :=
        congrArg Prod.fst (Option.some.inj listed)
      rw [Bool.not_eq_true', ← Bool.not_eq_true, List.isPrefixOf_iff_prefix]
      show ¬o.steps <+: ((walk o.events).clusters[j]).elementSteps
      rw [same, ← steps, here.1]
      simpa using notWithin
  refine ⟨cluster, ?_, ?_⟩
  · unfold FileIndex.tailCluster
    exact (congrArg (Option.or · _) notOwn).trans under
  · rw [around.mirrored.norm_start front.length cluster leading.2 clusterFound nodeFound,
      around.lead proper.single leading found]

theorem exists_visible_after (proper : o.Proper) :
    ∃ i glyph, (read o.events).glyphs[i]? = some glyph ∧ glyph.visible = true ∧
      o.frame.openedAt ≤ i := by
  have mirrored := walk_mirrored o.events
  obtain ⟨glyph, member, visible, frame, inside, tag⟩ := proper.visible
  obtain ⟨j, found⟩ := List.mem_iff_getElem?.mp member
  refine ⟨j, glyph, found, visible, ?_⟩
  rw [mirrored.glyphs] at found
  obtain ⟨before, cluster, node, left, right, place⟩ := exists_glyph_at _ _ j glyph found
  rw [place.stack] at inside
  have within : node.within o.frame.tag = true := tag ▸ within_of_mem node inside
  have start := opened_le_first proper before.length node place.nodes within
  have first := nodes_at_get 0 _ _ before.length node mirrored.places place.nodes
  obtain ⟨after, shape⟩ := place.clusters
  rw [shape, List.take_left, Nat.zero_add] at first
  have := place.count
  omega

end Opening

theorem offset_at_cluster (index : FileIndex) (tail : CfiTail) (cluster : Cluster)
    (resolved : index.tailCluster tail = some cluster) (zero : tail.offsetUtf16 = 0) :
    (index.offsetAt tail).map (·.normOffset) = index.land cluster.normStart := by
  cases landing : index.land cluster.normStart <;>
    simp [FileIndex.offsetAt, resolved, zero, replay_norm_zero, landing, FileIndex.anchor]

/-- Where landing from the place of character `p` is the first visible character after `k`. -/
theorem land_first_visible_iff (events : List Event) (k p i : Nat) (glyph : Glyph)
    (found : (read events).glyphs[i]? = some glyph) (visible : glyph.visible = true)
    (after : k ≤ i) (lower : k ≤ p) :
    (indexFile events).land ((read events).normAt p) =
        some ((read events).normAt ((read events).firstVisible k)) ↔
      p ≤ (read events).firstVisible k ∨
        (read events).firstVisible k + 1 = (read events).glyphs.length := by
  obtain ⟨_, first, firstFound, firstVisible⟩ :=
    first_visible_spec (read events) k i glyph found visible after
  have inside := (List.getElem?_eq_some_iff.mp firstFound).1
  by_cases upper : p ≤ (read events).firstVisible k
  · have same := first_visible_between (read events) k p i glyph found visible lower upper after
    rw [land_norm_at events p _ first firstFound firstVisible upper, same]
    simp [upper]
  · by_cases later : ∃ j other, (read events).glyphs[j]? = some other ∧ other.visible = true ∧ p ≤ j
    · obtain ⟨j, other, otherFound, otherVisible, le⟩ := later
      rw [land_norm_at events p j other otherFound otherVisible le]
      have past := first_visible_ge (read events) p
      have ordered := (norm_at_lt_iff (read events) _ ((read events).firstVisible p) first
        firstFound firstVisible).mpr (by omega)
      have beyond := (List.getElem?_eq_some_iff.mp otherFound).1
      constructor
      · intro same
        have := Option.some.inj same
        omega
      · rintro (le | last) <;> omega
    · have solid := visible_at_norm events _ first firstFound firstVisible
      obtain ⟨landed, landing⟩ := FileIndex.land_isSome ((read events).normAt p)
        (List.length_pos_iff.mp (Nat.zero_lt_of_lt solid.inside))
      have succ := norm_at_succ (read events) _ first firstFound firstVisible
      have length := norm_length events
      rw [landing, Option.some.injEq]
      rcases FileIndex.land_cases landing with ⟨reach, landedVisible, _⟩ | ⟨last, _⟩
      · obtain ⟨j, other, otherFound, otherVisible, rfl⟩ := exists_glyph events landed landedVisible
        have behind : j < p := by
          by_contra beyond
          exact later ⟨j, other, otherFound, otherVisible, by omega⟩
        rw [← norm_at_lt_iff _ _ _ other otherFound otherVisible] at behind
        omega
      · constructor
        · intro equal
          subst equal
          right
          by_contra more
          have := norm_at_after_visible (read events) _ first firstFound firstVisible (by omega)
          omega
        · rintro (le | only)
          · exact absurd le upper
          · rw [← only] at length
            omega

/-- An element anchor resolves to the first visible character inside the element if and
only if that character does not come before the element's first own text node, or no
character follows it. -/
theorem offset_at_element_iff (o : Opening) (spineIndex : Nat) (proper : o.Proper)
    (spineBounded : 2 * (spineIndex + 1) < u32Bound)
    (stepsBounded : ∀ step ∈ o.steps, step < u32Bound) :
    (∃ cfi, parseCfi (elementCfi spineIndex o.steps) = some cfi ∧
      ((indexFile o.events).offsetAt cfi.tail).map (·.normOffset) =
        some ((read o.events).normAt o.firstVisible)) ↔
    ∀ node, o.ownText = some node →
      node.first ≤ o.firstVisible ∨ o.firstVisible + 1 = (read o.events).glyphs.length := by
  obtain ⟨base, shape, steps, _⟩ := o.around proper.below
  have parsed := parse_cfi_element spineIndex o.steps (by rw [← steps]; simpa [stepsOf] using shape)
    spineBounded (fun step member => ⟨by
      rw [← steps] at member
      obtain ⟨frame, _, rfl⟩ := List.mem_map.mp member
      omega, stepsBounded step member⟩)
  obtain ⟨i, glyph, found, visible, after⟩ := Opening.exists_visible_after proper
  simp only [parsed, Option.some.injEq, exists_eq_left']
  show ((indexFile o.events).offsetAt o.tail).map (·.normOffset) = _ ↔ _
  cases own : o.ownText with
  | none =>
      obtain ⟨cluster, resolved, start⟩ := Opening.tail_cluster_nested proper own
      rw [offset_at_cluster _ _ cluster resolved rfl, start,
        land_norm_at o.events o.frame.openedAt i glyph found visible after]
      simp [Opening.firstVisible]
  | some node =>
      obtain ⟨cluster, resolved, start, lower⟩ := Opening.tail_cluster_own proper node own
      rw [offset_at_cluster _ _ cluster resolved rfl, start]
      simp only [Option.some.injEq, forall_eq']
      exact land_first_visible_iff o.events o.frame.openedAt node.first i glyph found visible
        after lower

/-- `<p>Hi</p>` in a body. -/
def plainParagraph : Opening where
  before := [.start ['h', 't', 'm', 'l'] ['h', 't', 'm', 'l'] none,
    .start ['b', 'o', 'd', 'y'] ['b', 'o', 'd', 'y'] none]
  localName := ['p']
  qname := ['p']
  id := none
  after := [.text ['H', 'i'] 2, .close, .close, .close]

theorem plain_paragraph_proper : plainParagraph.Proper :=
  ⟨by decide, by decide, by decide⟩

theorem offset_at_plain_paragraph :
    (∃ cfi, parseCfi (elementCfi 0 plainParagraph.steps) = some cfi ∧
      ((indexFile plainParagraph.events).offsetAt cfi.tail).map (·.normOffset) =
        some ((read plainParagraph.events).normAt plainParagraph.firstVisible)) ↔
    ∀ node, plainParagraph.ownText = some node →
      node.first ≤ plainParagraph.firstVisible ∨
        plainParagraph.firstVisible + 1 = (read plainParagraph.events).glyphs.length :=
  offset_at_element_iff plainParagraph 0 plain_paragraph_proper (by decide) (by decide)

/-- `<p><b>Hi</b> you</p>`: the paragraph's own text node comes after its bold start. -/
def boldParagraph : Opening where
  before := plainParagraph.before
  localName := ['p']
  qname := ['p']
  id := none
  after := [.start ['b'] ['b'] none, .text ['H', 'i'] 2, .close,
    .text [' ', 'y', 'o', 'u'] 4, .close, .close, .close]

theorem bold_paragraph_misses :
    boldParagraph.Proper ∧
      ¬∃ cfi, parseCfi (elementCfi 0 boldParagraph.steps) = some cfi ∧
        ((indexFile boldParagraph.events).offsetAt cfi.tail).map (·.normOffset) =
          some ((read boldParagraph.events).normAt boldParagraph.firstVisible) := by
  refine ⟨⟨by decide, by decide, by decide⟩, ?_⟩
  intro ⟨cfi, parsed, resolved⟩
  have expected : parseCfi (elementCfi 0 boldParagraph.steps) =
      some { spineIndex := 0, tail := boldParagraph.tail, elementAnchored := true } := by decide
  obtain rfl := Option.some.inj (expected.symm.trans parsed)
  revert resolved
  decide

end Omnibus.KoboPosition
