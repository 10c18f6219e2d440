import Omnibus.CrossFormat.Link

/-!
# Declarations and confirmations, interleaved

A declaration reads the link outside its write transaction and writes the pairs back whole.
What it reads may be out of date by then, so what survives depends on the order of the
calls' steps.
-/

namespace Omnibus.CrossFormat

open Omnibus.Library.Runs

variable {Call : Type*} [DecidableEq Call] {spots : Call → Spot} {world next : World Call}

/-- A step of a declaration that writes no row: the phase it enters, and what it read. -/
inductive Advance (world : World Call) (call : Call) : Phase → Prop
  | gotLink (link : Link) (here : world.phases call = .start) (stored : world.link = some link) :
      Advance world call (.read ⟨link, false, world.confirms⟩)
  | unlinked (here : world.phases call = .start) (absent : world.link = none) :
      Advance world call .unlinked
  | autoLinked (link : Link) (here : world.phases call = .unlinked)
      (auto : autoSequenceLink world.files = some link) :
      Advance world call (.read ⟨link, true, world.confirms⟩)
  | checked (reading : Reading) (here : world.phases call = .read reading)
      (current : snapshot world.files = reading.link.audioSnapshot) :
      Advance world call (.checked reading)
  | resolved (reading : Reading) (pair : Pair) (here : world.phases call = .checked reading) :
      Advance world call (.resolved reading ⟨pair, snapshot world.files,
        reading.link.mode, reading.link.primaryBookFileId⟩)
  | refused (here : ∀ declared, world.phases call ≠ .committed declared) :
      Advance world call .refused

theorem step_cases {action : Action Call} (stepped : step spots world action = some next) :
    (∃ call phase, Advance world call phase ∧ next = world.enter call phase) ∨
      (∃ call reading declared, action = .store call ∧
        world.phases call = .resolved reading declared ∧
        next = storeStep world call reading declared) ∨
      ∃ mode primary order, action = .confirmLink mode primary order ∧
        next = confirmStep world mode primary order := by
  cases action with
  | getLink call =>
      simp only [step] at stepped
      split at stepped
      · rename_i here
        split at stepped
        · rename_i link stored
          exact .inl ⟨call, _, .gotLink link here stored, (Option.some.inj stepped).symm⟩
        · rename_i absent
          exact .inl ⟨call, _, .unlinked here absent, (Option.some.inj stepped).symm⟩
      · cases stepped
  | autoLink call =>
      simp only [step] at stepped
      split at stepped
      · rename_i here
        split at stepped
        · rename_i link auto
          exact .inl ⟨call, _, .autoLinked link here auto, (Option.some.inj stepped).symm⟩
        · exact .inl ⟨call, _, .refused (by simp [here]), (Option.some.inj stepped).symm⟩
      · cases stepped
  | linkIsStale call =>
      simp only [step] at stepped
      split at stepped
      · rename_i reading here
        split at stepped
        · rename_i current
          exact .inl ⟨call, _, .checked reading here current, (Option.some.inj stepped).symm⟩
        · exact .inl ⟨call, _, .refused (by simp [here]), (Option.some.inj stepped).symm⟩
      · cases stepped
  | resolve call =>
      simp only [step] at stepped
      split at stepped
      · rename_i reading here
        split at stepped
        · rename_i pair _
          exact .inl ⟨call, _, .resolved reading pair here, (Option.some.inj stepped).symm⟩
        · exact .inl ⟨call, _, .refused (by simp [here]), (Option.some.inj stepped).symm⟩
      · cases stepped
  | store call =>
      simp only [step] at stepped
      split at stepped
      · rename_i reading declared here
        exact .inr (.inl ⟨call, reading, declared, rfl, here, (Option.some.inj stepped).symm⟩)
      · cases stepped
  | confirmLink mode primary order =>
      exact .inr (.inr ⟨mode, primary, order, rfl, (Option.some.inj stepped).symm⟩)

omit [DecidableEq Call] in
theorem Advance.uncommitted {call : Call} {phase : Phase}
    (advance : Advance world call phase) :
    (∀ declared, phase ≠ .committed declared) ∧
      ∀ declared, world.phases call ≠ .committed declared := by
  cases advance <;> simp_all

section Declarations

def linked (link : Link) (files : List AudioFile) : World Call where
  link := some link
  files := files
  phases := fun _ => .start
  confirms := 0

def Action.isDeclaration : Action Call → Bool
  | .confirmLink _ _ _ => false
  | _ => true

/-- Every committed pair far enough from every other one is among the stored pairs. -/
def Kept (world : World Call) : Prop :=
  ∀ call declared, world.phases call = .committed declared →
    (∀ other another, other ≠ call → world.phases other = .committed another →
      syncPointReplaceSlack ≤ |another.pair.1 - declared.pair.1|) →
    ∃ link ∈ world.link, ∃ anchor ∈ link.userAnchors, anchor.pair = declared.pair

/-- The pairs a declaration is about to write back are still the stored ones. -/
def freshAnchors (world : World Call) : Action Call → Bool
  | .store call =>
      match world.phases call with
      | .resolved reading _ =>
          world.link.all fun link => link.userAnchors = reading.link.userAnchors
      | _ => true
  | _ => true

def LinkedKept (world : World Call) : Prop := world.link.isSome = true ∧ Kept world

theorem kept_enter {call : Call} {phase : Phase} (kept : Kept world)
    (uncommitted : ∀ declared, phase ≠ .committed declared)
    (before : ∀ declared, world.phases call ≠ .committed declared) :
    Kept (world.enter call phase) := by
  have same (other : Call) (declared : Measured) :
      (world.enter call phase).phases other = .committed declared ↔
        world.phases other = .committed declared := by
    by_cases isCall : other = call
    · subst isCall
      simp [World.enter, uncommitted, before]
    · simp [World.enter, isCall]
  intro other declared committed apart
  rw [same] at committed
  apply kept other declared committed
  intro third another different thirdCommitted
  exact apart third another different ((same third another).mpr thirdCommitted)

/-- A write of what was read, with the declared pair folded in, loses no pair far from it. -/
theorem kept_store {call : Call} {reading : Reading} {declared : Measured} {link : Link}
    (kept : Kept world) (here : world.phases call = .resolved reading declared)
    (stored : world.link = some link)
    (fresh : link.userAnchors = reading.link.userAnchors) :
    Kept { world.enter call (.committed declared) with
      link := world.link.map fun stored =>
        { stored with userAnchors := storeMeasured reading.link.userAnchors declared } } := by
  intro other another committed apart
  simp only [stored, Option.map_some, Option.mem_some_iff, exists_eq_left']
  by_cases isCall : other = call
  · subst isCall
    have same : another = declared := by simpa [World.enter, eq_comm] using committed
    exact ⟨declared, (mem_store_measured _ _ _).mpr (.inr rfl), by rw [same]⟩
  · have before : world.phases other = .committed another := by
      simpa [World.enter, isCall] using committed
    have farFromNew : syncPointReplaceSlack ≤ |declared.pair.1 - another.pair.1| :=
      apart call declared (fun same => isCall same.symm) (by simp [World.enter])
    obtain ⟨link', isLink, anchor, member, samePair⟩ := kept other another before
      fun third value different thirdCommitted => by
        have notCall : third ≠ call := by
          intro equal
          subst equal
          rw [here] at thirdCommitted
          cases thirdCommitted
        exact apart third value different (by simpa [World.enter, notCall])
    rw [stored, Option.mem_some_iff] at isLink
    subst isLink
    refine ⟨anchor, (mem_store_measured _ _ _).mpr (.inl ⟨fresh ▸ member, ?_⟩), samePair⟩
    rw [samePair, abs_sub_comm]
    exact farFromNew

/-- No declaration is lost when every write finds the pairs it read. -/
theorem no_declaration_lost (spots : Call → Spot) (link : Link) (files : List AudioFile)
    (actions : List (Action Call)) (last : World Call)
    (declarations : ∀ action ∈ actions, action.isDeclaration = true)
    (fresh : Meets (step spots) (fun world action => freshAnchors world action = true)
      (linked link files) actions)
    (ran : run (step spots) (linked link files) actions = some last) : Kept last := by
  have start : LinkedKept (linked link files : World Call) :=
    ⟨rfl, fun call declared committed => by cases committed⟩
  refine (run_keeps (step spots) (fun state action next invariant condition stepped => ?_)
    actions start (fresh.and_all (step spots) declarations) ran : LinkedKept last).2
  obtain ⟨isLinked, kept⟩ := invariant
  obtain ⟨declaration, isFresh⟩ := condition
  rcases step_cases stepped with ⟨call, phase, advance, rfl⟩ |
    ⟨call, reading, declared, rfl, here, rfl⟩ | ⟨mode, primary, order, rfl, rfl⟩
  · obtain ⟨after, before⟩ := advance.uncommitted
    exact ⟨isLinked, kept_enter kept after before⟩
  · obtain ⟨stored, isStored⟩ := Option.isSome_iff_exists.mp isLinked
    unfold storeStep
    split
    · rw [isStored]
      exact ⟨isLinked, kept_enter kept nofun (by simp [here])⟩
    · have same : stored.userAnchors = reading.link.userAnchors := by
        simpa [freshAnchors, here, isStored] using isFresh
      exact ⟨by simp [isStored], kept_store kept here isStored same⟩
  · cases declaration

def oneFile : List AudioFile := [⟨1, "book.m4b", 4096, 255, 100⟩]

def sequenceLink (files : List AudioFile) : Link := ⟨.sequence, none, snapshot files, true, []⟩

def twoSpots : Bool → Spot
  | false => ⟨1 / 5, none, 20⟩
  | true => ⟨4 / 5, none, 80⟩

def declares (call : Bool) : List (Action Bool) :=
  [.getLink call, .linkIsStale call, .resolve call, .store call]

def seen (world : World Bool) : Phase × Phase × Option Link :=
  (world.phases false, world.phases true, world.link)

theorem no_declaration_lost_in_turn :
    ∃ last, run (step twoSpots) (linked (sequenceLink oneFile) oneFile)
      (declares false ++ declares true) = some last ∧ Kept last := by
  have runs : (run (step twoSpots) (linked (sequenceLink oneFile) oneFile)
      (declares false ++ declares true)).isSome = true := by
    decide +kernel
  obtain ⟨last, ran⟩ := Option.isSome_iff_exists.mp runs
  exact ⟨last, ran, no_declaration_lost twoSpots _ _ _ _ (by decide) (by decide +kernel) ran⟩

/-- Both declarations read the link before either writes. -/
theorem concurrent_declaration_lost :
    ¬∀ (actions : List (Action Bool)) (last : World Bool),
      (∀ action ∈ actions, action.isDeclaration = true) →
      run (step twoSpots) (linked (sequenceLink oneFile) oneFile) actions = some last →
      (∀ call, ∃ declared, last.phases call = .committed declared) → Kept last := by
  intro claimed
  have outcome : (run (step twoSpots) (linked (sequenceLink oneFile) oneFile)
      ([.getLink false, .linkIsStale false, .resolve false] ++ declares true ++
        [.store false])).map seen = some
      (.committed ⟨(1 / 5, 20), (sequenceLink oneFile).ruler⟩,
        .committed ⟨(4 / 5, 80), (sequenceLink oneFile).ruler⟩,
        some { sequenceLink oneFile with
          userAnchors := [⟨(1 / 5, 20), (sequenceLink oneFile).ruler⟩] }) := by
    decide +kernel
  obtain ⟨last, ran, outcome⟩ := Option.map_eq_some_iff.mp outcome
  simp only [seen, Prod.mk.injEq] at outcome
  obtain ⟨first, second, stored⟩ := outcome
  have kept := claimed _ last (by decide) ran fun
    | false => ⟨_, first⟩
    | true => ⟨_, second⟩
  obtain ⟨link, isLink, anchor, member, samePair⟩ := kept true _ second fun
    | false, another, _, committed => by
        rw [first] at committed
        cases committed
        norm_num [syncPointReplaceSlack, abs_of_neg]
    | true, _, different, _ => absurd rfl different
  rw [stored, Option.mem_some_iff] at isLink
  subst isLink
  simp only [List.mem_singleton] at member
  rw [member] at samePair
  norm_num at samePair

end Declarations

section Confirmations

def unconfirmed (files : List AudioFile) : World Call where
  link := none
  files := files
  phases := fun _ => .start
  confirms := 0

/-- Every stored pair was measured on what its link records. -/
def MeasuredOnRuler (world : World Call) : Prop :=
  ∀ link ∈ world.link, ∀ anchor ∈ link.userAnchors, anchor.ruler = link.ruler

/-- No confirmation committed since the call read an existing link, and no confirmation swaps
a missing primary for the id the comparison reads it as. -/
def undisturbed (world : World Call) : Action Call → Bool
  | .store call =>
      match world.phases call with
      | .resolved reading _ => reading.createdHere || reading.confirmsSeen = world.confirms
      | _ => true
  | .confirmLink _ primary _ => world.link.all fun link =>
      link.primaryBookFileId.getD (-1) ≠ primary.getD (-1) || link.primaryBookFileId = primary
  | _ => true

def Phase.reading : Phase → Option Reading
  | .read reading | .checked reading | .resolved reading _ => some reading
  | _ => none

/-- Nothing has been committed that changes what the reading's link is measured on. -/
def Reading.Current (reading : Reading) (world : World Call) : Prop :=
  if reading.createdHere then world.link = none else reading.confirmsSeen = world.confirms

/-- The calls under way hold readings that are right as long as they are current. -/
structure ReadingsSound (world : World Call) : Prop where
  stored : MeasuredOnRuler world
  seen : ∀ call, ∀ reading ∈ (world.phases call).reading, reading.confirmsSeen ≤ world.confirms
  anchors : ∀ call, ∀ reading ∈ (world.phases call).reading,
    ∀ anchor ∈ reading.link.userAnchors, anchor.ruler = reading.link.ruler
  ruler : ∀ call, ∀ reading ∈ (world.phases call).reading, reading.createdHere = false →
    reading.Current world → ∃ link, world.link = some link ∧ link.ruler = reading.link.ruler
  checked : ∀ call reading, world.phases call = .checked reading → reading.Current world →
    snapshot world.files = reading.link.audioSnapshot
  resolved : ∀ call reading declared, world.phases call = .resolved reading declared →
    reading.Current world → declared.ruler = reading.link.ruler

theorem readings_sound_enter {call : Call} {phase : Phase} (sound : ReadingsSound world)
    (advance : Advance world call phase) : ReadingsSound (world.enter call phase) := by
  have reads (other : Call) : (world.enter call phase).phases other =
      if other = call then phase else world.phases other := by
    simp [World.enter, Function.update_apply]
  have current (reading : Reading) :
      reading.Current (world.enter call phase) ↔ reading.Current world := Iff.rfl
  -- what holds of the entering call's own reading
  have entered : ∀ reading ∈ phase.reading, reading.confirmsSeen ≤ world.confirms ∧
      (∀ anchor ∈ reading.link.userAnchors, anchor.ruler = reading.link.ruler) ∧
      (reading.createdHere = false → reading.Current world →
        ∃ link, world.link = some link ∧ link.ruler = reading.link.ruler) := by
    intro reading isReading
    cases advance with
    | gotLink link here stored =>
        cases isReading
        exact ⟨le_refl _, fun anchor member => sound.stored link stored anchor member,
          fun _ _ => ⟨link, stored, rfl⟩⟩
    | unlinked here absent => cases isReading
    | autoLinked link here auto =>
        cases isReading
        unfold autoSequenceLink at auto
        split at auto
        · cases auto
          exact ⟨le_refl _, nofun, nofun⟩
        · cases auto
    | checked old here matching =>
        cases isReading
        exact ⟨sound.seen call _ (by simp [here, Phase.reading]),
          sound.anchors call _ (by simp [here, Phase.reading]),
          sound.ruler call _ (by simp [here, Phase.reading])⟩
    | resolved old pair here =>
        cases isReading
        exact ⟨sound.seen call _ (by simp [here, Phase.reading]),
          sound.anchors call _ (by simp [here, Phase.reading]),
          sound.ruler call _ (by simp [here, Phase.reading])⟩
    | refused here => cases isReading
  constructor
  · exact sound.stored
  · intro other reading isReading
    rw [reads] at isReading
    split at isReading
    · exact (entered reading isReading).1
    · exact sound.seen other reading isReading
  · intro other reading isReading
    rw [reads] at isReading
    split at isReading
    · exact (entered reading isReading).2.1
    · exact sound.anchors other reading isReading
  · intro other reading isReading
    rw [reads] at isReading
    split at isReading
    · exact (entered reading isReading).2.2
    · exact sound.ruler other reading isReading
  · intro other reading isChecked isCurrent
    rw [reads] at isChecked
    split at isChecked
    · subst isChecked
      cases advance with
      | checked old here matching => exact matching
    · exact sound.checked other reading isChecked isCurrent
  · intro other reading declared isResolved isCurrent
    rw [reads] at isResolved
    split at isResolved
    · subst isResolved
      cases advance with
      | resolved old pair here =>
          have matching := sound.checked call reading here isCurrent
          simp only [Link.ruler, matching]
    · exact sound.resolved other reading declared isResolved isCurrent

theorem readings_sound_commit {call : Call} {declared : Measured} (sound : ReadingsSound world)
    (written : Link) (measured : ∀ anchor ∈ written.userAnchors, anchor.ruler = written.ruler)
    (sameRuler : ∀ link, world.link = some link → written.ruler = link.ruler) :
    ReadingsSound { world.enter call (.committed declared) with link := some written } := by
  set after : World Call := { world.enter call (.committed declared) with link := some written }
    with isAfter
  have reads (other : Call) : after.phases other =
      if other = call then .committed declared else world.phases other := by
    simp [isAfter, World.enter, Function.update_apply]
  have under (other : Call) {reading : Reading}
      (isReading : reading ∈ (after.phases other).reading) :
      reading ∈ (world.phases other).reading := by
    rw [reads] at isReading
    split at isReading
    · cases isReading
    · exact isReading
  have current {reading : Reading} (isCurrent : reading.Current after) :
      reading.createdHere = false ∧ reading.Current world := by
    unfold Reading.Current at isCurrent ⊢
    split at isCurrent
    · cases isCurrent
    · rename_i existing
      rw [Bool.not_eq_true] at existing
      exact ⟨existing, by rw [existing]; exact isCurrent⟩
  constructor
  · rintro link ⟨⟩
    exact measured
  · exact fun other reading isReading => sound.seen other reading (under other isReading)
  · exact fun other reading isReading => sound.anchors other reading (under other isReading)
  · intro other reading isReading existing isCurrent
    obtain ⟨link, stored, same⟩ := sound.ruler other reading (under other isReading) existing
      (current isCurrent).2
    exact ⟨written, rfl, (sameRuler link stored).trans same⟩
  · intro other reading isChecked isCurrent
    rw [reads] at isChecked
    split at isChecked
    · cases isChecked
    · exact sound.checked other reading isChecked (current isCurrent).2
  · intro other reading another isResolved isCurrent
    rw [reads] at isResolved
    split at isResolved
    · cases isResolved
    · exact sound.resolved other reading another isResolved (current isCurrent).2

theorem readings_sound_store {call : Call} {reading : Reading} {declared : Measured}
    (sound : ReadingsSound world) (here : world.phases call = .resolved reading declared)
    (quiet : reading.createdHere = true ∨ reading.confirmsSeen = world.confirms) :
    ReadingsSound (storeStep world call reading declared) := by
  have own : reading ∈ (world.phases call).reading := by simp [here, Phase.reading]
  have written (isCurrent : reading.Current world) :
      ∀ anchor ∈ storeMeasured reading.link.userAnchors declared,
        anchor.ruler = reading.link.ruler := by
    intro anchor member
    rcases (mem_store_measured _ _ _).mp member with ⟨old, _⟩ | rfl
    · exact sound.anchors call reading own anchor old
    · exact sound.resolved call reading _ here isCurrent
  unfold storeStep
  split
  · rename_i created
    split
    · exact readings_sound_enter sound (.refused (by simp [here]))
    · rename_i absent
      have isCurrent : reading.Current world := by
        unfold Reading.Current
        rw [if_pos created]
        exact absent
      exact readings_sound_commit sound { reading.link with userAnchors := _ }
        (written isCurrent) (by simp [absent])
  · rename_i existing
    rw [Bool.not_eq_true] at existing
    have isCurrent : reading.Current world := by
      unfold Reading.Current
      rw [existing]
      simpa [existing] using quiet
    obtain ⟨link, stored, same⟩ := sound.ruler call reading own existing isCurrent
    rw [stored]
    refine readings_sound_commit sound { link with userAnchors := _ } ?_ ?_
    · intro anchor member
      exact (written isCurrent anchor member).trans same.symm
    · intro other isOther
      rw [stored, Option.some.injEq] at isOther
      rw [← isOther]
      rfl

omit [DecidableEq Call] in
/-- A confirmation keeps the pairs only on the ruler they have, and ends every reading. -/
theorem readings_sound_confirm {mode : Mode} {primary : Option Int} {order : Option (List Int)}
    (sound : ReadingsSound world)
    (samePrimary : ∀ link ∈ world.link,
      link.primaryBookFileId.getD (-1) = primary.getD (-1) → link.primaryBookFileId = primary) :
    ReadingsSound (confirmStep world mode primary order) := by
  unfold confirmStep
  simp only
  split
  · exact sound
  · rename_i files _
    have outdated {call : Call} {reading : Reading}
        (own : reading ∈ (world.phases call).reading)
        (isCurrent : reading.Current { world with
          files := files
          link := some (confirmed mode primary (snapshot files) world.link)
          confirms := world.confirms + 1 }) : False := by
      have seen := sound.seen call reading own
      unfold Reading.Current at isCurrent
      split at isCurrent
      · cases isCurrent
      · simp only at isCurrent
        omega
    constructor
    · rintro link ⟨⟩ anchor member
      unfold confirmed at member
      simp only at member
      split at member
      · cases member
      · rename_i old isOld
        split at member
        · rename_i same
          have oldRuler := sound.stored old isOld anchor member
          have primaries := samePrimary old isOld same.2.2
          rw [oldRuler]
          simp only [Link.ruler, confirmed, same.1, same.2.1, primaries]
        · cases member
    · intro call reading own
      exact (sound.seen call reading own).trans (Nat.le_succ _)
    · exact sound.anchors
    · exact fun call reading own _ isCurrent => (outdated own isCurrent).elim
    · intro call reading isChecked isCurrent
      have own : reading ∈ (world.phases call).reading := by
        simp [show world.phases call = .checked reading from isChecked, Phase.reading]
      exact (outdated own isCurrent).elim
    · intro call reading declared isResolved isCurrent
      have own : reading ∈ (world.phases call).reading := by
        simp [show world.phases call = .resolved reading declared from isResolved, Phase.reading]
      exact (outdated own isCurrent).elim

/-- While no confirmation falls between a declaration's reading and its write, every stored
pair is measured on what its link records. -/
theorem sync_points_on_ruler (spots : Call → Spot) (files : List AudioFile)
    (actions : List (Action Call)) (last : World Call)
    (quiet : Meets (step spots) (fun world action => undisturbed world action = true)
      (unconfirmed files) actions)
    (ran : run (step spots) (unconfirmed files) actions = some last) : MeasuredOnRuler last := by
  have start : ReadingsSound (unconfirmed files : World Call) := by
    constructor <;> simp [unconfirmed, MeasuredOnRuler, Phase.reading]
  refine (run_keeps (step spots) (fun state action next sound condition stepped => ?_)
    actions start quiet ran : ReadingsSound last).stored
  rcases step_cases stepped with ⟨call, phase, advance, rfl⟩ |
    ⟨call, reading, declared, rfl, here, rfl⟩ | ⟨mode, primary, order, rfl, rfl⟩
  · exact readings_sound_enter sound advance
  · apply readings_sound_store sound here
    simpa [undisturbed, here] using condition
  · apply readings_sound_confirm sound
    intro link isLink same
    have allowed : (state.link.all fun link =>
        link.primaryBookFileId.getD (-1) ≠ primary.getD (-1) ||
          link.primaryBookFileId = primary) = true := condition
    rw [Option.mem_def.mp isLink] at allowed
    simpa [same] using allowed

def twoFiles : List AudioFile :=
  [⟨1, "one.mp3", 4096, 255, 100⟩, ⟨2, "two.mp3", 8192, 255, 100⟩]

def oneSpot : Unit → Spot := fun _ => ⟨1 / 5, some 2, 10⟩

theorem sync_points_on_ruler_then_reordered :
    ∃ last, run (step oneSpot) (unconfirmed twoFiles)
      [.confirmLink .sequence none none, .getLink (), .linkIsStale (), .resolve (), .store (),
        .confirmLink .sequence none (some [2, 1])] = some last ∧ MeasuredOnRuler last := by
  have runs : (run (step oneSpot) (unconfirmed twoFiles)
      [.confirmLink .sequence none none, .getLink (), .linkIsStale (), .resolve (), .store (),
        .confirmLink .sequence none (some [2, 1])]).isSome = true := by
    decide +kernel
  obtain ⟨last, ran⟩ := Option.isSome_iff_exists.mp runs
  exact ⟨last, ran, sync_points_on_ruler oneSpot twoFiles _ last (by decide +kernel) ran⟩

/-- The files are reordered between the declaration's reads and its write. -/
theorem reordered_before_store :
    ¬∀ (actions : List (Action Unit)) (last : World Unit),
      run (step oneSpot) (unconfirmed twoFiles) actions = some last → MeasuredOnRuler last := by
  intro claimed
  have outcome : (run (step oneSpot) (unconfirmed twoFiles)
      [.confirmLink .sequence none none, .getLink (), .linkIsStale (), .resolve (),
        .confirmLink .sequence none (some [2, 1]), .store ()]).map (·.link) = some
      (some { sequenceLink twoFiles.reverse with
        userAnchors := [⟨(1 / 5, 110), (sequenceLink twoFiles).ruler⟩] }) := by
    decide +kernel
  obtain ⟨last, ran, stored⟩ := Option.map_eq_some_iff.mp outcome
  have measured := claimed _ last ran _ stored _ List.mem_cons_self
  revert measured
  decide

end Confirmations

end Omnibus.CrossFormat
