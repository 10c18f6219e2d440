import Omnibus.KoboPosition.Reading

/-!
# The clusters tile the normalized stream

Read one after the other, the raw texts of the clusters are the body's character
data, and each cluster holds the place and the collapse state the stream had when it
opened. Every event of the walk keeps this.
-/

namespace Omnibus.KoboPosition

open Omnibus.Library.Strings Omnibus.Library.Collapse

def rawText (clusters : List Cluster) : Text := clusters.flatMap (·.raw)

/-- The clusters fill the stream from offset `pos` and collapse state `run` on. -/
def Tiles : Nat → Bool → List Cluster → Prop
  | _, _, [] => True
  | pos, run, cluster :: rest =>
      cluster.normStart = pos ∧ cluster.enteredInRun = run ∧
        cluster.normLen = (collapsed run cluster.raw).length ∧
        Tiles (pos + cluster.normLen) (runAfter isWhitespace run cluster.raw) rest

@[simp] theorem raw_text_append (left right : List Cluster) :
    rawText (left ++ right) = rawText left ++ rawText right := by
  simp [rawText]

@[simp] theorem raw_text_single (cluster : Cluster) : rawText [cluster] = cluster.raw := by
  simp [rawText]

theorem tiles_append (pos : Nat) (run : Bool) (left right : List Cluster) :
    Tiles pos run (left ++ right) ↔
      Tiles pos run left ∧
        Tiles (pos + (collapsed run (rawText left)).length)
          (runAfter isWhitespace run (rawText left)) right := by
  induction left generalizing pos run with
  | nil => simp [Tiles, rawText, collapsed, collapse, runAfter]
  | cons cluster rest induction =>
      have text : rawText (cluster :: rest) = cluster.raw ++ rawText rest := rfl
      simp only [List.cons_append, Tiles, induction, text, collapsed_append, List.length_append,
        run_after_append]
      constructor
      · rintro ⟨place, entered, length, inner, outer⟩
        rw [length] at inner outer
        exact ⟨⟨place, entered, length, by rw [length]; exact inner⟩,
          by rw [← Nat.add_assoc]; exact outer⟩
      · rintro ⟨⟨place, entered, length, inner⟩, outer⟩
        rw [← Nat.add_assoc, ← length] at outer
        exact ⟨place, entered, length, inner, outer⟩

theorem tiles_at (left right : List Cluster) (cluster : Cluster)
    (tiles : Tiles 0 true (left ++ cluster :: right)) :
    cluster.normStart = (collapsed true (rawText left)).length ∧
      cluster.enteredInRun = runAfter isWhitespace true (rawText left) ∧
      cluster.normLen = (collapsed cluster.enteredInRun cluster.raw).length := by
  obtain ⟨place, entered, length, _⟩ := ((tiles_append 0 true left (cluster :: right)).mp tiles).2
  rw [Nat.zero_add] at place
  exact ⟨place, entered, entered.symm ▸ length⟩

namespace Builder

/-- The collapse state: inside a run, or nothing emitted yet. -/
def run (b : Builder) : Bool := b.inRun || !b.emittedAny

/-- What reading `text` into the last cluster leaves behind. -/
def absorb (front : List Cluster) (cluster : Cluster) (text : Text) (b : Builder) : Builder :=
  { b with
    norm := b.norm ++ collapsed b.run text
    normLen := b.normLen + (collapsed b.run text).length
    clusters := front ++ [{ cluster with
      normLen := cluster.normLen + (collapsed b.run text).length }]
    inRun := runAfter isWhitespace b.inRun text
    emittedAny := b.emittedAny || text.any fun symbol => !isWhitespace symbol
    spans := b.spans ++
      if text.all isWhitespace then []
      else b.pendingSpans.map fun span =>
        { n := span.1
          m := span.2
          normStart := b.normLen + (collapsed b.run (text.takeWhile isWhitespace)).length }
    pendingSpans := if text.all isWhitespace then b.pendingSpans else [] }

theorem modify_last {Item : Type*} (front : List Item) (item : Item) (change : Item → Item) :
    (front ++ [item]).modify front.length change = front ++ [change item] := by
  induction front with
  | nil => rfl
  | cons first rest induction => simpa using induction

theorem count_emitted_last (front : List Cluster) (cluster : Cluster) :
    countEmitted front.length (front ++ [cluster]) =
      front ++ [{ cluster with normLen := cluster.normLen + 1 }] := by
  exact modify_last front cluster _

theorem push_char_absorb (front : List Cluster) (cluster : Cluster) (symbol : Char)
    (rest : Text) (b : Builder) (shape : b.clusters = front ++ [cluster]) :
    ∃ next, (pushChar front.length b symbol).clusters = front ++ [next] ∧
      absorb front next rest (pushChar front.length b symbol) =
        absorb front cluster (symbol :: rest) b := by
  cases space : isWhitespace symbol with
  | false =>
      refine ⟨{ cluster with normLen := cluster.normLen + 1 }, ?_, ?_⟩
      · simp [pushChar, space, shape, count_emitted_last]
      · simp [absorb, pushChar, space, collapsed, collapse, run, runAfter]
        omega
  | true =>
      cases inside : b.inRun <;> cases started : b.emittedAny
      · refine ⟨cluster, ?_, ?_⟩
        · simp [pushChar, space, shape, inside, started]
        · simp [absorb, pushChar, space, collapsed, collapse, run, runAfter, inside, started]
      · refine ⟨{ cluster with normLen := cluster.normLen + 1 }, ?_, ?_⟩
        · simp [pushChar, space, shape, inside, started, count_emitted_last]
        · simp [absorb, pushChar, space, collapsed, collapse, run, runAfter, inside, started,
            Nat.add_assoc, Nat.add_comm 1]
      · refine ⟨cluster, ?_, ?_⟩
        · simp [pushChar, space, shape, inside, started]
        · simp [absorb, pushChar, space, collapsed, collapse, run, runAfter, inside, started]
      · refine ⟨cluster, ?_, ?_⟩
        · simp [pushChar, space, shape, inside, started]
        · simp [absorb, pushChar, space, collapsed, collapse, run, runAfter, inside, started]

theorem push_chars_absorb (front : List Cluster) (cluster : Cluster) (text : Text) (b : Builder)
    (shape : b.clusters = front ++ [cluster]) :
    text.foldl (pushChar front.length) b = absorb front cluster text b := by
  induction text generalizing b cluster with
  | nil =>
      simp [absorb, collapsed, collapse, runAfter, ← shape]
  | cons symbol rest induction =>
      obtain ⟨next, nextShape, same⟩ := push_char_absorb front cluster symbol rest b shape
      rw [List.foldl_cons, induction next _ nextShape, same]

def opened (b : Builder) : Builder :=
  { b.ensureCluster.2 with openCluster := some b.ensureCluster.1 }

def freshCluster (b : Builder) : Cluster where
  elementSteps := b.steps
  textIndex := b.textCounts.headD 0 * 2 + 1
  parent := b.open.headD 0
  markupInside := b.takePendingMarkup.1
  sourceBytes := 0
  normStart := b.normLen
  normLen := 0
  enteredInRun := b.run
  raw := []

def extendCluster (text : Text) (sourceBytes : Nat) (cluster : Cluster) : Cluster :=
  { cluster with raw := cluster.raw ++ text, sourceBytes := cluster.sourceBytes + sourceBytes }

theorem opened_of_some (b : Builder) (i : Nat) (open' : b.openCluster = some i) :
    b.opened = b := by
  have same : b.ensureCluster = (i, b) := by
    unfold ensureCluster
    rw [open']
  unfold opened
  rw [same]
  dsimp only
  rw [← open']

theorem opened_of_none (b : Builder) (closed : b.openCluster = none) :
    b.opened =
      { b with
        textCounts := b.textCounts.modifyHead (· + 1)
        markupPending := b.takePendingMarkup.2.markupPending
        clusters := b.clusters ++ [b.freshCluster]
        openCluster := some b.clusters.length } := by
  unfold opened ensureCluster freshCluster takePendingMarkup
  rw [closed]
  dsimp only
  split_ifs <;> rfl

structure LastOpen (b : Builder) (front : List Cluster) (cluster : Cluster) : Prop where
  clusters : b.clusters = front ++ [cluster]
  openCluster : b.openCluster = some front.length

theorem chars_eq (text : Text) (sourceBytes : Nat) (b : Builder) (inBody : b.bodyDepth ≠ 0)
    (front : List Cluster) (cluster : Cluster) (last : LastOpen b.opened front cluster) :
    chars text sourceBytes b =
      absorb front (extendCluster text sourceBytes cluster) text
        { b.opened with clusters := front ++ [extendCluster text sourceBytes cluster] } := by
  have index : b.ensureCluster.1 = front.length := by
    have := last.openCluster
    simpa [opened] using this
  have shape : b.ensureCluster.2.clusters = front ++ [cluster] := last.clusters
  have unfolded : chars text sourceBytes b =
      text.foldl (pushChar b.ensureCluster.1)
        { b.ensureCluster.2 with
          openCluster := some b.ensureCluster.1
          clusters := b.ensureCluster.2.clusters.modify b.ensureCluster.1
            (extendCluster text sourceBytes) } := by
    unfold chars
    rw [if_neg inBody]
    rfl
  rw [unfolded, index, shape, modify_last, push_chars_absorb front _ text _ rfl]
  simp [opened, index]

theorem flag_markup_last (b : Builder) (front : List Cluster) (cluster : Cluster)
    (last : LastOpen b front cluster) :
    b.flagMarkup = { b with clusters := front ++ [{ cluster with markupInside := true }] } := by
  rw [flagMarkup, last.openCluster, last.clusters]
  simp only [modify_last]

end Builder

structure Tiled (b : Builder) (r : Reading) : Prop where
  bodyDepth : b.bodyDepth = r.bodyDepth
  symbols : rawText b.clusters = r.symbols
  norm : b.norm = collapsed true r.symbols
  normLen : b.normLen = (collapsed true r.symbols).length
  run : b.run = runAfter isWhitespace true r.symbols
  tiles : Tiles 0 true b.clusters
  /-- The open cluster, when there is one, is the last. -/
  last : ∀ i, b.openCluster = some i → i + 1 = b.clusters.length

namespace Tiled

theorem opened_last {b : Builder} {r : Reading} (tiled : Tiled b r) :
    ∃ front cluster, b.opened.LastOpen front cluster := by
  cases openCluster : b.openCluster with
  | none =>
      rw [Builder.opened_of_none b openCluster]
      exact ⟨b.clusters, b.freshCluster, rfl, rfl⟩
  | some i =>
      rw [Builder.opened_of_some b i openCluster]
      have last := tiled.last i openCluster
      have shape : b.clusters ≠ [] := by
        intro empty
        simp [empty] at last
      refine ⟨b.clusters.dropLast, b.clusters.getLast shape,
        (List.dropLast_concat_getLast shape).symm, ?_⟩
      rw [openCluster, List.length_dropLast]
      congr 1
      omega

theorem opened {b : Builder} {r : Reading} (tiled : Tiled b r) : Tiled b.opened r := by
  cases openCluster : b.openCluster with
  | none =>
      rw [Builder.opened_of_none b openCluster]
      exact {
        bodyDepth := tiled.bodyDepth
        symbols := by simp [tiled.symbols, Builder.freshCluster]
        norm := tiled.norm
        normLen := tiled.normLen
        run := tiled.run
        tiles := by
          simp [tiles_append, tiled.tiles, Tiles, Builder.freshCluster, tiled.symbols,
            tiled.normLen, tiled.run, collapsed, collapse]
        last := by simp }
  | some i => rwa [Builder.opened_of_some b i openCluster]

end Tiled

theorem glyph_run_symbols (stack : List Frame) (node offset : Nat) (decoded : Text) :
    (glyphRun stack node offset decoded).map (·.symbol) = decoded := by
  induction decoded generalizing offset with
  | nil => rfl
  | cons symbol rest induction => simp [glyphRun, induction]

theorem symbols_text (decoded : Text) (r : Reading) (inBody : r.bodyDepth ≠ 0) :
    (r.text decoded).symbols = r.symbols ++ decoded := by
  rw [Reading.text, if_neg inBody]
  simp [Reading.symbols, glyph_run_symbols]

theorem run_absorb (inRun emittedAny : Bool) (text : Text) :
    (runAfter isWhitespace inRun text ||
        !(emittedAny || text.any fun symbol => !isWhitespace symbol)) =
      runAfter isWhitespace (inRun || !emittedAny) text := by
  induction text generalizing inRun emittedAny with
  | nil => simp [runAfter]
  | cons symbol rest induction =>
      have later := induction (isWhitespace symbol) (emittedAny || !isWhitespace symbol)
      have entered : (isWhitespace symbol || !(emittedAny || !isWhitespace symbol)) =
          isWhitespace symbol := by
        cases isWhitespace symbol <;> simp
      rw [entered] at later
      rw [runAfter, List.any_cons, ← Bool.or_assoc emittedAny, later, runAfter]

namespace Tiled

theorem absorbed (front : List Cluster) (cluster : Cluster) (decoded : Text)
    (sourceBytes : Nat) (b : Builder) (r : Reading) (inBody : r.bodyDepth ≠ 0)
    (tiled : Tiled b r) (last : b.LastOpen front cluster) :
    Tiled
      (Builder.absorb front (Builder.extendCluster decoded sourceBytes cluster) decoded
        { b with clusters := front ++ [Builder.extendCluster decoded sourceBytes cluster] })
      (r.text decoded) := by
  have shape := last.clusters
  have symbols : rawText front ++ cluster.raw = r.symbols := by
    rw [← tiled.symbols, shape]
    simp
  have place := tiled.tiles
  rw [shape, tiles_append] at place
  obtain ⟨earlier, start, entered, length, _⟩ := place
  have run : runAfter isWhitespace true (rawText front ++ cluster.raw) = b.run := by
    rw [symbols, tiled.run]
  rw [run_after_append, ← entered] at run
  exact {
    bodyDepth := by
      rw [Reading.text, if_neg inBody]
      exact tiled.bodyDepth
    symbols := by
      rw [symbols_text decoded r inBody, ← symbols]
      simp [Builder.absorb, Builder.extendCluster]
    norm := by
      rw [symbols_text decoded r inBody, collapsed_append, ← tiled.run, ← tiled.norm]
      rfl
    normLen := by
      rw [symbols_text decoded r inBody, collapsed_append, ← tiled.run, List.length_append,
        ← tiled.normLen]
      rfl
    run := by
      rw [symbols_text decoded r inBody, run_after_append, ← tiled.run]
      exact run_absorb b.inRun b.emittedAny decoded
    tiles := by
      refine (tiles_append 0 true front _).mpr ⟨earlier, start, entered, ?_, trivial⟩
      rw [← entered] at length ⊢
      simp only [Builder.extendCluster, collapsed_append, List.length_append, run, length]
      rfl
    last := by
      intro i openCluster
      have := last.openCluster.symm.trans openCluster
      simp only [Option.some.injEq] at this
      simp [Builder.absorb, this] }

theorem keeps : Keeps Tiled where
  start b r localName qname id tiled := by
    rw [Builder.element_start_eq]
    exact {
      bodyDepth := by
        simp only [Reading.start, tiled.bodyDepth]
      symbols := tiled.symbols
      norm := tiled.norm
      normLen := tiled.normLen
      run := tiled.run
      tiles := tiled.tiles
      last := by simp }
  close b r tiled := by
    rw [Builder.element_end_eq]
    exact {
      bodyDepth := by
        simp only [Reading.close, tiled.bodyDepth]
      symbols := tiled.symbols
      norm := tiled.norm
      normLen := tiled.normLen
      run := tiled.run
      tiles := tiled.tiles
      last := by simp }
  text b r decoded sourceBytes tiled := by
    by_cases inBody : r.bodyDepth = 0
    · have outside : b.bodyDepth = 0 := by rw [tiled.bodyDepth, inBody]
      rwa [Builder.chars, if_pos outside, Reading.text, if_pos inBody]
    · obtain ⟨front, cluster, last⟩ := tiled.opened_last
      rw [Builder.chars_eq decoded sourceBytes b (by rw [tiled.bodyDepth]; exact inBody) front
        cluster last]
      exact absorbed front cluster decoded sourceBytes b.opened r inBody tiled.opened last
  flag b r tiled := by
    cases openCluster : b.openCluster with
    | none => rwa [Builder.flagMarkup, openCluster]
    | some i =>
        obtain ⟨front, cluster, last⟩ := tiled.opened_last
        rw [Builder.opened_of_some b i openCluster] at last
        rw [Builder.flag_markup_last b front cluster last]
        have shape := last.clusters
        exact {
          bodyDepth := tiled.bodyDepth
          symbols := by
            rw [← tiled.symbols, shape]
            simp
          norm := tiled.norm
          normLen := tiled.normLen
          run := tiled.run
          tiles := by
            have tiles := tiled.tiles
            rw [shape, tiles_append] at tiles
            exact (tiles_append 0 true front _).mpr tiles
          last := by
            intro j other
            simpa [shape] using tiled.last j other }
  pending b r tiled := by
    exact {
      bodyDepth := tiled.bodyDepth
      symbols := tiled.symbols
      norm := tiled.norm
      normLen := tiled.normLen
      run := tiled.run
      tiles := tiled.tiles
      last := tiled.last }

end Tiled

theorem walk_tiled (events : List Event) : Tiled (walk events) (read events) :=
  Tiled.keeps.walk (by
    constructor <;>
      simp [rawText, Reading.symbols, collapsed, collapse, Builder.run, runAfter, Tiles]) events

end Omnibus.KoboPosition
