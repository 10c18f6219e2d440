import Omnibus.KoboPosition.Positions

/-!
# Clusters are text nodes

The clusters of the walk and the text nodes of the reading are the same list: each
cluster's raw text is its node's characters, so a character's node and offset say which
cluster holds it and where.
-/

namespace Omnibus.KoboPosition

open Omnibus.Library.Strings Omnibus.Library.Collapse

def nodeGlyphs : List Cluster → List TextNode → List Glyph
  | cluster :: clusters, node :: nodes =>
      glyphRun node.stack node.node 0 cluster.raw ++ nodeGlyphs clusters nodes
  | _, _ => []

/-- Each text node starts after the characters of the ones before it. -/
def NodesAt : Nat → List Cluster → List TextNode → Prop
  | _, [], [] => True
  | pos, cluster :: clusters, node :: nodes =>
      node.first = pos ∧ NodesAt (pos + cluster.raw.length) clusters nodes
  | _, _, _ => False

theorem glyph_run_append (stack : List Frame) (node offset : Nat) (left right : Text) :
    glyphRun stack node offset (left ++ right) =
      glyphRun stack node offset left ++
        glyphRun stack node (offset + utf16Length left) right := by
  induction left generalizing offset with
  | nil => simp [glyphRun, utf16Length]
  | cons symbol rest induction => simp [glyphRun, induction, utf16Length, Nat.add_assoc]

theorem glyph_run_length (stack : List Frame) (node offset : Nat) (text : Text) :
    (glyphRun stack node offset text).length = text.length := by
  rw [← List.length_map (·.symbol), glyph_run_symbols]

theorem glyph_run_at (stack : List Frame) (node offset : Nat) (text : Text) (j : Nat)
    (glyph : Glyph) (found : (glyphRun stack node offset text)[j]? = some glyph) :
    ∃ left right, text = left ++ glyph.symbol :: right ∧ left.length = j ∧
      glyph.stack = stack ∧ glyph.node = node ∧ glyph.offset = offset + utf16Length left := by
  induction text generalizing offset j with
  | nil => simp [glyphRun] at found
  | cons symbol rest induction =>
      cases j with
      | zero =>
          obtain rfl := Option.some.inj found
          exact ⟨[], rest, rfl, rfl, rfl, rfl, rfl⟩
      | succ before =>
          obtain ⟨left, right, rfl, count, sameStack, sameNode, place⟩ :=
            induction (offset + utf16Width symbol) before found
          exact ⟨symbol :: left, right, rfl, by simp [count], sameStack, sameNode, by
            simp [place, utf16Length, Nat.add_assoc]⟩

theorem nodes_at_length (pos : Nat) (clusters : List Cluster) (nodes : List TextNode)
    (places : NodesAt pos clusters nodes) : clusters.length = nodes.length := by
  induction clusters generalizing pos nodes with
  | nil =>
      cases nodes with
      | nil => rfl
      | cons node rest => exact places.elim
  | cons cluster clusters induction =>
      cases nodes with
      | nil => exact places.elim
      | cons node nodes => simp [induction _ nodes places.2]

theorem nodes_at_append (pos : Nat) (clusters : List Cluster) (nodes : List TextNode)
    (cluster : Cluster) (node : TextNode) (same : clusters.length = nodes.length) :
    NodesAt pos (clusters ++ [cluster]) (nodes ++ [node]) ↔
      NodesAt pos clusters nodes ∧ node.first = pos + (rawText clusters).length := by
  induction clusters generalizing pos nodes with
  | nil =>
      obtain rfl := List.length_eq_zero_iff.mp same.symm
      simp [NodesAt, rawText]
  | cons first clusters induction =>
      cases nodes with
      | nil => simp at same
      | cons head nodes =>
          have text : rawText (first :: clusters) = first.raw ++ rawText clusters := rfl
          simp only [List.cons_append, NodesAt, induction _ nodes (by simpa using same), text,
            List.length_append, and_assoc, Nat.add_assoc]

theorem node_glyphs_append (clusters : List Cluster) (nodes : List TextNode)
    (cluster : Cluster) (node : TextNode) (same : clusters.length = nodes.length) :
    nodeGlyphs (clusters ++ [cluster]) (nodes ++ [node]) =
      nodeGlyphs clusters nodes ++ glyphRun node.stack node.node 0 cluster.raw := by
  induction clusters generalizing nodes with
  | nil =>
      obtain rfl := List.length_eq_zero_iff.mp same.symm
      simp [nodeGlyphs]
  | cons first clusters induction =>
      cases nodes with
      | nil => simp at same
      | cons head nodes => simp [nodeGlyphs, induction nodes (by simpa using same)]

/-- Character number `j` in its cluster and text node. -/
structure GlyphAt (clusters : List Cluster) (nodes : List TextNode) (j : Nat) (glyph : Glyph)
    (before : List Cluster) (cluster : Cluster) (node : TextNode) (left right : Text) : Prop where
  clusters : ∃ after, clusters = before ++ cluster :: after
  nodes : nodes[before.length]? = some node
  raw : cluster.raw = left ++ glyph.symbol :: right
  stack : glyph.stack = node.stack
  node : glyph.node = node.node
  offset : glyph.offset = utf16Length left
  count : j = (rawText before).length + left.length

theorem exists_glyph_at (clusters : List Cluster) (nodes : List TextNode) (j : Nat)
    (glyph : Glyph) (found : (nodeGlyphs clusters nodes)[j]? = some glyph) :
    ∃ before cluster node left right,
      GlyphAt clusters nodes j glyph before cluster node left right := by
  induction clusters generalizing nodes j with
  | nil => simp [nodeGlyphs] at found
  | cons first clusters induction =>
      cases nodes with
      | nil => simp [nodeGlyphs] at found
      | cons head nodes =>
          rw [nodeGlyphs, List.getElem?_append] at found
          rw [glyph_run_length] at found
          split_ifs at found with here
          · obtain ⟨left, right, raw, count, stack, node, offset⟩ :=
              glyph_run_at _ _ _ _ _ _ found
            exact ⟨[], first, head, left, right,
              { clusters := ⟨clusters, rfl⟩
                nodes := rfl
                raw := raw
                stack := stack
                node := node
                offset := by rw [offset, Nat.zero_add]
                count := by simp [rawText, count] }⟩
          · obtain ⟨before, cluster, node, left, right, ⟨after, shape⟩, place, raw, stack, number,
              offset, count⟩ := induction nodes (j - first.raw.length) found
            exact ⟨first :: before, cluster, node, left, right,
              { clusters := ⟨after, by rw [shape]; rfl⟩
                nodes := by simpa using place
                raw := raw
                stack := stack
                node := number
                offset := offset
                count := by
                  have text : rawText (first :: before) = first.raw ++ rawText before := rfl
                  rw [text, List.length_append]
                  omega }⟩

namespace Reading

def opened (r : Reading) : Reading :=
  { r with
    textNodes := if r.textOpen then r.textNodes else r.textNodes ++ [r.newTextNode]
    textOpen := true }

theorem text_eq (decoded : Text) (r : Reading) (inBody : r.bodyDepth ≠ 0) :
    r.text decoded =
      { r.opened with
        glyphs := r.glyphs ++ glyphRun r.stack r.node r.offset decoded
        offset := r.offset + utf16Length decoded } := by
  rw [text, if_neg inBody]
  rfl

end Reading

structure Mirrored (b : Builder) (r : Reading) : Prop where
  tiled : Tiled b r
  glyphs : r.glyphs = nodeGlyphs b.clusters r.textNodes
  places : NodesAt 0 b.clusters r.textNodes
  ordered : r.textNodes.Pairwise (·.node < ·.node)
  number : ∀ node ∈ r.textNodes, node.node ≤ r.node
  openText : r.textOpen = b.openCluster.isSome
  closed : r.textOpen = false → r.offset = 0 ∧ ∀ node ∈ r.textNodes, node.node < r.node
  last : r.textOpen = true → ∃ nodes node clusters cluster, r.textNodes = nodes ++ [node] ∧
    b.clusters = clusters ++ [cluster] ∧ node.stack = r.stack ∧ node.node = r.node ∧
    r.offset = utf16Length cluster.raw

namespace Mirrored

theorem opened {b : Builder} {r : Reading} (mirrored : Mirrored b r) :
    Mirrored b.opened r.opened := by
  cases openCluster : b.openCluster with
  | some i =>
      have textOpen : r.textOpen = true := by rw [mirrored.openText, openCluster]; rfl
      rw [Builder.opened_of_some b i openCluster]
      have same : r.opened = r := by
        cases r
        simp_all [Reading.opened]
      rwa [same]
  | none =>
      have textOpen : r.textOpen = false := by rw [mirrored.openText, openCluster]; rfl
      have same := nodes_at_length 0 _ _ mirrored.places
      obtain ⟨offset, earlier⟩ := mirrored.closed textOpen
      have symbols := mirrored.tiled.symbols
      have tiled := mirrored.tiled.opened
      rw [Builder.opened_of_none b openCluster] at tiled ⊢
      have shape : r.opened.textNodes = r.textNodes ++ [r.newTextNode] := by
        simp [Reading.opened, textOpen]
      exact {
        tiled := {
          bodyDepth := tiled.bodyDepth
          symbols := tiled.symbols
          norm := tiled.norm
          normLen := tiled.normLen
          run := tiled.run
          tiles := tiled.tiles
          last := tiled.last }
        glyphs := by
          rw [shape, node_glyphs_append _ _ _ _ same]
          simpa [Builder.freshCluster, glyphRun, Reading.opened] using mirrored.glyphs
        places := by
          rw [shape, nodes_at_append 0 _ _ _ _ same]
          refine ⟨mirrored.places, ?_⟩
          rw [symbols]
          simp [Reading.newTextNode, Reading.symbols]
        ordered := by
          rw [shape, List.pairwise_append]
          refine ⟨mirrored.ordered, List.pairwise_singleton _ _, ?_⟩
          intro node member other last
          rw [List.mem_singleton.mp last]
          exact earlier node member
        number := by
          rw [shape]
          intro node member
          rcases List.mem_append.mp member with before | last
          · exact mirrored.number node before
          · rw [List.mem_singleton.mp last]
            exact Nat.le_refl r.node
        openText := rfl
        closed := by simp [Reading.opened]
        last := fun _ => ⟨r.textNodes, r.newTextNode, b.clusters, b.freshCluster, shape, rfl, rfl,
          rfl, by
            show r.offset = utf16Length []
            rw [offset]
            rfl⟩ }

theorem absorbed (front : List Cluster) (cluster : Cluster) (decoded : Text) (sourceBytes : Nat)
    (b : Builder) (r : Reading) (mirrored : Mirrored b r) (textOpen : r.textOpen = true)
    (last : b.LastOpen front cluster)
    (tiled : Tiled
      (Builder.absorb front (Builder.extendCluster decoded sourceBytes cluster) decoded
        { b with clusters := front ++ [Builder.extendCluster decoded sourceBytes cluster] })
      { r with
        glyphs := r.glyphs ++ glyphRun r.stack r.node r.offset decoded
        offset := r.offset + utf16Length decoded }) :
    Mirrored
      (Builder.absorb front (Builder.extendCluster decoded sourceBytes cluster) decoded
        { b with clusters := front ++ [Builder.extendCluster decoded sourceBytes cluster] })
      { r with
        glyphs := r.glyphs ++ glyphRun r.stack r.node r.offset decoded
        offset := r.offset + utf16Length decoded } := by
  obtain ⟨nodes, node, clusters, found, nodesShape, clustersShape, stack, number, offset⟩ :=
    mirrored.last textOpen
  obtain ⟨rfl, same⟩ := List.append_inj' (last.clusters.symm.trans clustersShape) rfl
  obtain rfl : cluster = found := by simpa using same
  have length : front.length = nodes.length := by
    have := nodes_at_length 0 _ _ mirrored.places
    rw [nodesShape, clustersShape] at this
    simpa using this
  have places := mirrored.places
  have glyphs := mirrored.glyphs
  rw [nodesShape, clustersShape, nodes_at_append 0 _ _ _ _ length] at places
  rw [nodesShape, clustersShape, node_glyphs_append _ _ _ _ length] at glyphs
  exact {
    tiled := tiled
    glyphs := by
      simp only [nodesShape, Builder.absorb]
      rw [node_glyphs_append _ _ _ _ length, glyphs]
      simp only [Builder.extendCluster, glyph_run_append, stack, number, offset, Nat.zero_add,
        List.append_assoc]
    places := by
      simp only [nodesShape, Builder.absorb]
      exact (nodes_at_append 0 _ _ _ _ length).mpr places
    ordered := mirrored.ordered
    number := mirrored.number
    openText := mirrored.openText
    closed := fun shut => absurd (textOpen.symm.trans shut) (by simp)
    last := fun _ => ⟨nodes, node, front, _, nodesShape, rfl, stack, number, by
      simp [Builder.extendCluster, offset, utf16Length]⟩ }

theorem keeps : Keeps Mirrored where
  start b r localName qname id mirrored := by
    have tiled := Tiled.keeps.start b r localName qname id mirrored.tiled
    rw [Builder.element_start_eq] at tiled ⊢
    exact {
      tiled := tiled
      glyphs := mirrored.glyphs
      places := mirrored.places
      ordered := mirrored.ordered
      number := fun node member => Nat.le_succ_of_le (mirrored.number node member)
      openText := rfl
      closed := fun _ =>
        ⟨rfl, fun node member => Nat.lt_succ_of_le (mirrored.number node member)⟩
      last := by simp [Reading.start] }
  close b r mirrored := by
    have tiled := Tiled.keeps.close b r mirrored.tiled
    rw [Builder.element_end_eq] at tiled ⊢
    exact {
      tiled := tiled
      glyphs := mirrored.glyphs
      places := mirrored.places
      ordered := mirrored.ordered
      number := fun node member => Nat.le_succ_of_le (mirrored.number node member)
      openText := rfl
      closed := fun _ =>
        ⟨rfl, fun node member => Nat.lt_succ_of_le (mirrored.number node member)⟩
      last := by simp [Reading.close] }
  text b r decoded sourceBytes mirrored := by
    have tiled := Tiled.keeps.text b r decoded sourceBytes mirrored.tiled
    by_cases inBody : b.bodyDepth = 0
    · rwa [Builder.chars, if_pos inBody, Reading.text,
        if_pos (by rw [← mirrored.tiled.bodyDepth, inBody])]
    · obtain ⟨front, cluster, last⟩ := mirrored.tiled.opened_last
      rw [Builder.chars_eq decoded sourceBytes b inBody front cluster last,
        Reading.text_eq decoded r (by rwa [← mirrored.tiled.bodyDepth])] at tiled ⊢
      exact absorbed front cluster decoded sourceBytes b.opened r.opened mirrored.opened rfl last
        tiled
  flag b r mirrored := by
    have tiled := Tiled.keeps.flag b r mirrored.tiled
    cases openCluster : b.openCluster with
    | none => rwa [Builder.flagMarkup, openCluster]
    | some i =>
        have textOpen : r.textOpen = true := by rw [mirrored.openText, openCluster]; rfl
        obtain ⟨nodes, node, front, cluster, nodesShape, shape, stack, number, offset⟩ :=
          mirrored.last textOpen
        have length : front.length = nodes.length := by
          have := nodes_at_length 0 _ _ mirrored.places
          rw [nodesShape, shape] at this
          simpa using this
        have index : i = front.length := by
          have := mirrored.tiled.last i openCluster
          rw [shape] at this
          simpa using this
        rw [Builder.flag_markup_last b front cluster ⟨shape, by rw [openCluster, index]⟩] at tiled ⊢
        have places := mirrored.places
        have glyphs := mirrored.glyphs
        rw [nodesShape, shape, nodes_at_append 0 _ _ _ _ length] at places
        rw [nodesShape, shape, node_glyphs_append _ _ _ _ length] at glyphs
        exact {
          tiled := tiled
          glyphs := by
            rw [nodesShape, node_glyphs_append _ _ _ _ length]
            exact glyphs
          places := by
            rw [nodesShape]
            exact (nodes_at_append 0 _ _ _ _ length).mpr places
          ordered := mirrored.ordered
          number := mirrored.number
          openText := mirrored.openText
          closed := mirrored.closed
          last := fun _ => ⟨nodes, node, front, _, nodesShape, rfl, stack, number, offset⟩ }
  pending b r mirrored := by
    exact {
      tiled := Tiled.keeps.pending b r mirrored.tiled
      glyphs := mirrored.glyphs
      places := mirrored.places
      ordered := mirrored.ordered
      number := mirrored.number
      openText := mirrored.openText
      closed := mirrored.closed
      last := mirrored.last }

end Mirrored

theorem walk_mirrored (events : List Event) : Mirrored (walk events) (read events) :=
  Mirrored.keeps.walk
    { tiled := walk_tiled []
      glyphs := rfl
      places := trivial
      ordered := List.Pairwise.nil
      number := by simp
      openText := rfl
      closed := by simp
      last := by simp }
    events

theorem nodes_at_get (pos : Nat) (clusters : List Cluster) (nodes : List TextNode) (i : Nat)
    (node : TextNode) (places : NodesAt pos clusters nodes) (found : nodes[i]? = some node) :
    node.first = pos + (rawText (clusters.take i)).length := by
  induction clusters generalizing pos nodes i with
  | nil =>
      cases nodes with
      | nil => simp at found
      | cons head rest => exact places.elim
  | cons cluster clusters induction =>
      cases nodes with
      | nil => exact places.elim
      | cons head nodes =>
          cases i with
          | zero =>
              obtain rfl := Option.some.inj found
              simpa [rawText] using places.1
          | succ i =>
              have text : rawText ((cluster :: clusters).take (i + 1)) =
                  cluster.raw ++ rawText (clusters.take i) := rfl
              rw [text, List.length_append, ← Nat.add_assoc]
              exact induction _ nodes i places.2 found

namespace Mirrored

variable {b : Builder} {r : Reading}

theorem norm_start (mirrored : Mirrored b r) (i : Nat) (cluster : Cluster) (node : TextNode)
    (clusterFound : b.clusters[i]? = some cluster) (nodeFound : r.textNodes[i]? = some node) :
    cluster.normStart = r.normAt node.first := by
  obtain ⟨inside, here⟩ := List.getElem?_eq_some_iff.mp clusterFound
  have split : b.clusters = b.clusters.take i ++ cluster :: b.clusters.drop (i + 1) := by
    rw [← here, List.getElem_cons_drop, List.take_append_drop]
  have place := nodes_at_get 0 _ _ i node mirrored.places nodeFound
  have tiles := mirrored.tiled.tiles
  rw [split] at tiles
  have symbols : r.symbols =
      rawText (b.clusters.take i) ++ rawText (cluster :: b.clusters.drop (i + 1)) := by
    rw [← raw_text_append, ← split, mirrored.tiled.symbols]
  rw [(tiles_at _ _ cluster tiles).1, Reading.normAt, symbols, place, Nat.zero_add,
    List.take_left]

theorem first_mono (mirrored : Mirrored b r) (i j : Nat) (earlier later : TextNode) (le : i ≤ j)
    (earlierFound : r.textNodes[i]? = some earlier) (laterFound : r.textNodes[j]? = some later) :
    earlier.first ≤ later.first := by
  rw [nodes_at_get 0 _ _ i earlier mirrored.places earlierFound,
    nodes_at_get 0 _ _ j later mirrored.places laterFound]
  have split : b.clusters.take j = b.clusters.take i ++ (b.clusters.take j).drop i := by
    have parts := List.take_append_drop i (b.clusters.take j)
    rw [List.take_take, Nat.min_eq_left le] at parts
    exact parts.symm
  rw [split, raw_text_append, List.length_append]
  omega

end Mirrored

/-! ## Characters in their clusters -/

theorem tiles_before (front back : List Cluster) (pos : Nat) (run : Bool) (cluster earlier : Cluster)
    (tiles : Tiles pos run (front ++ cluster :: back)) (member : earlier ∈ front) :
    earlier.normStart + earlier.normLen ≤ cluster.normStart := by
  obtain ⟨left, right, rfl⟩ := List.append_of_mem member
  rw [List.append_assoc, List.cons_append, tiles_append] at tiles
  obtain ⟨_, start, _, _, rest⟩ := tiles
  rw [tiles_append] at rest
  obtain ⟨_, later, _⟩ := rest
  omega

/-- A visible character is located in the cluster of its text node, at its own offset. -/
theorem located_of_glyph_at (events : List Event) (j : Nat) (glyph : Glyph)
    (visible : glyph.visible = true) (before : List Cluster) (cluster : Cluster)
    (node : TextNode) (left right : Text)
    (place : GlyphAt (walk events).clusters (read events).textNodes j glyph before cluster node
      left right) :
    Located (indexFile events) ((read events).normAt j) cluster left glyph.symbol right := by
  have tiled := walk_tiled events
  obtain ⟨after, shape⟩ := place.clusters
  have tiles := tiled.tiles
  rw [shape] at tiles
  obtain ⟨start, entered, length⟩ := tiles_at before after cluster tiles
  have solid : isWhitespace glyph.symbol = false := by simpa [Glyph.visible] using visible
  have symbols : (read events).symbols =
      (rawText before ++ left) ++ (glyph.symbol :: right ++ rawText after) := by
    rw [← tiled.symbols, shape, raw_text_append, show rawText (cluster :: after) =
      cluster.raw ++ rawText after from rfl, place.raw]
    simp
  have norm : (read events).normAt j =
      cluster.normStart + (collapsed cluster.enteredInRun left).length := by
    rw [Reading.normAt, symbols, List.take_left' (by simp [place.count]), collapsed_append,
      List.length_append, start, entered]
  have inside : (collapsed cluster.enteredInRun left).length < cluster.normLen := by
    have through := collapsed_through_length cluster.enteredInRun left glyph.symbol
      (emits_of_not_blank _ _ _ solid)
    rw [length, place.raw, show left ++ glyph.symbol :: right = (left ++ [glyph.symbol]) ++ right by
      simp, collapsed_append, List.length_append]
    omega
  exact {
    covering := by
      show (walk events).clusters.find? _ = _
      rw [shape, List.find?_append, Option.or_eq_some_iff]
      right
      constructor
      · rw [List.find?_eq_none]
        intro earlier member
        have := tiles_before before after 0 true cluster earlier tiles member
        simp only [Cluster.covers, Bool.and_eq_true, decide_eq_true_eq]
        omega
      · rw [List.find?_cons_of_pos]
        simp only [Cluster.covers, Bool.and_eq_true, decide_eq_true_eq]
        omega
    member := by
      show cluster ∈ (walk events).clusters
      rw [shape]
      simp
    raw := place.raw
    written := emits_of_not_blank _ _ _ solid
    place := norm }

theorem same_cluster (events : List Event) (i j : Nat) (earlier later : Glyph)
    (before before' : List Cluster) (cluster cluster' : Cluster) (node node' : TextNode)
    (left right left' right' : Text) (same : earlier.node = later.node)
    (place : GlyphAt (walk events).clusters (read events).textNodes i earlier before cluster node
      left right)
    (place' : GlyphAt (walk events).clusters (read events).textNodes j later before' cluster' node'
      left' right') : cluster = cluster' ∧ before = before' := by
  have number : node.node = node'.node := by rw [← place.node, ← place'.node, same]
  have ordered := (walk_mirrored events).ordered
  have length : before.length = before'.length := by
    rcases Nat.lt_trichotomy before.length before'.length with less | equal | more
    · have := List.pairwise_iff_getElem.mp ordered before.length before'.length
        (List.getElem?_eq_some_iff.mp place.nodes).1 (List.getElem?_eq_some_iff.mp place'.nodes).1
        less
      rw [(List.getElem?_eq_some_iff.mp place.nodes).2,
        (List.getElem?_eq_some_iff.mp place'.nodes).2] at this
      omega
    · exact equal
    · have := List.pairwise_iff_getElem.mp ordered before'.length before.length
        (List.getElem?_eq_some_iff.mp place'.nodes).1 (List.getElem?_eq_some_iff.mp place.nodes).1
        more
      rw [(List.getElem?_eq_some_iff.mp place.nodes).2,
        (List.getElem?_eq_some_iff.mp place'.nodes).2] at this
      omega
  obtain ⟨after, shape⟩ := place.clusters
  obtain ⟨after', shape'⟩ := place'.clusters
  obtain ⟨front, rest⟩ := List.append_inj (shape.symm.trans shape') length
  exact ⟨(List.cons.inj rest).1, front⟩

end Omnibus.KoboPosition
