import Omnibus.Annotations.Listings

/-!
# Once a listing is complete

A listing that no write disturbs and that was not cut leaves the device holding what the
server does, in every run whose steps are careful. An edit in the second a cut page ended in
shows why they have to be.
-/

namespace Omnibus.Annotations

open Omnibus.Library Omnibus.Library.Runs

variable {book : Uuid} {world next : World}

section Quiet

theorem row_of_highlight {store : Store} {clientId : String} {highlight : KoreaderAnnotation}
    (isFound : store.annotationOf book clientId = some highlight) :
    ∃ row ∈ store.rows, row.bookUuid = book ∧ row.toKoreader = some highlight ∧
      highlight.clientId = clientId := by
  obtain ⟨row, member, isShown⟩ := List.exists_of_findSome?_eq_some isFound
  rw [Option.filter_eq_some_iff] at isShown
  exact ⟨row, List.mem_of_mem_filter member, by simpa using (List.mem_filter.mp member).2,
    isShown.1, by simpa using isShown.2⟩

theorem annotation_of_iff {store : Store} (valid : store.Valid) (clientId : String)
    (highlight : KoreaderAnnotation) :
    store.annotationOf book clientId = some highlight ↔
      ∃ row ∈ store.rows, row.bookUuid = book ∧ row.toKoreader = some highlight ∧
        highlight.clientId = clientId := by
  refine ⟨row_of_highlight, ?_⟩
  intro ⟨row, member, isBook, isShown, equal⟩
  subst equal
  cases search : store.annotationOf book highlight.clientId with
  | none =>
      have absent := List.findSome?_eq_none_iff.mp search row
        (List.mem_filter.mpr ⟨member, by simpa using isBook⟩)
      rw [isShown] at absent
      simp at absent
  | some other =>
      obtain ⟨holder, holderMem, _, isOther, sameId⟩ := row_of_highlight search
      have own := (to_koreader_eq_some row highlight isShown).1
      have isHolder : holder = row := row_of_client valid holderMem member
        (sameId ▸ (to_koreader_eq_some holder other isOther).1) own
      rw [← isOther, isHolder, isShown]

/-- A listing under way that no write has disturbed. -/
structure Quiet (book : Uuid) (world : World) : Prop where
  unlocked : world.writing = none
  named : world.phase ≠ .idle → (∀ now, world.phase ≠ .began now) →
    ∀ row ∈ world.store.rows, row.Anchored book → row.clientId ≠ none
  /-- A page that was not cut brings the copy up to date. -/
  read : ∀ now rows, world.phase = .rowsRead now rows →
    Feed.cut listHighlightsLimit rows = false → ∀ row ∈ world.store.rows, row.Anchored book →
      ∃ highlight, row.toKoreader = some highlight ∧
        world.shown highlight.clientId = some highlight
  answered : world.phase = .idle → world.more = false → world.Agrees book

theorem quiet_read_rows {now : Int} (sound : Sound book world) (quiet : Quiet book world)
    (isPhase : world.phase = .minted now) :
    Quiet book { world with
      phase := .rowsRead now (rowsSince book world.store world.cursor) } := by
  have position : world.position = world.cursor.row := by simp [World.position, isPhase]
  have shown : world.shown = world.copy := by simp [World.shown, isPhase]
  have named := quiet.named (by simp [isPhase]) (by simp [isPhase])
  refine ⟨quiet.unlocked, fun _ _ => named, ?_, by simp⟩
  rintro _ _ ⟨⟩ whole row member anchored
  have isListable := listable_of_anchored anchored (named row member anchored)
  obtain ⟨highlight, isShown⟩ := to_koreader_of_listable isListable
  have read : ∀ row ∈ rowsSince book world.store world.cursor, row ∈ world.store.rows :=
    fun row member => (rows_since_mem member).1
  by_cases past : world.cursor.row < row.key
  · have inPage := Feed.mem_page_of_not_cut Annotation.key whole
      (List.mem_filter.mpr ⟨member, isListable⟩) past
    exact ⟨highlight, isShown, overwrite_own sound.valid read member isShown (.inl inPage)⟩
  · obtain ⟨held, isHeld, inCopy⟩ :=
      (sound.synced row member anchored).resolve_left (position ▸ past)
    rw [shown] at inCopy
    exact ⟨held, isHeld, overwrite_own sound.valid read member isHeld (.inr inCopy)⟩

theorem quiet_read_tombstones {now : Int} {rows : List Annotation} (sound : Sound book world)
    (quiet : Quiet book world) (isPhase : world.phase = .rowsRead now rows) :
    Quiet book { world with
      phase := .idle
      cursor := nextCursor now rows (tombstonesSince book world.store world.cursor)
      copy := forget (overwrite world.copy rows)
        ((tombstonesSince book world.store world.cursor).map (·.clientId))
      more := Feed.cut listHighlightsLimit rows ||
        Feed.cut listHighlightsLimit (tombstonesSince book world.store world.cursor) } := by
  set page := tombstonesSince book world.store world.cursor with isPage
  have shown : world.shown = overwrite world.copy rows := by simp [World.shown, isPhase]
  refine ⟨quiet.unlocked, fun notIdle => absurd rfl notIdle, ?_, fun _ whole clientId => ?_⟩
  · rintro _ _ ⟨⟩
  simp only [Bool.or_eq_false_iff] at whole
  have upToDate := quiet.read now rows isPhase whole.1
  rw [shown] at upToDate
  change forget (overwrite world.copy rows) (page.map (·.clientId)) clientId =
    world.store.annotationOf book clientId
  refine Option.ext fun highlight => ?_
  rw [annotation_of_iff sound.valid]
  constructor
  · intro held
    have remains : clientId ∉ page.map (·.clientId) := by
      intro deleted
      rw [forget_of_mem deleted] at held
      cases held
    rw [forget_of_not_mem remains] at held
    have present : world.shown clientId ≠ none := by
      rw [shown, held]
      exact Option.some_ne_none highlight
    rcases sound.forgotten clientId present with
      ⟨row, member, isClient, anchored⟩ | ⟨tombstone, member, isBook, isClient, past⟩
    · obtain ⟨current, isShown, inCopy⟩ := upToDate row member anchored
      have own := (to_koreader_eq_some row current isShown).1
      have sameId : current.clientId = clientId := Option.some.inj (own.symm.trans isClient)
      rw [sameId, held, Option.some.injEq] at inCopy
      exact ⟨row, member, anchored.1, inCopy ▸ isShown, inCopy ▸ sameId⟩
    · have inPage := Feed.mem_page_of_not_cut Tombstone.key whole.2
        (List.mem_filter.mpr ⟨member, by simpa using isBook⟩) past
      exact absurd (List.mem_map.mpr ⟨tombstone, inPage, isClient⟩) remains
  · rintro ⟨row, member, isBook, isShown, equal⟩
    subst equal
    obtain ⟨own, isCfi⟩ := to_koreader_eq_some row highlight isShown
    obtain ⟨current, isCurrent, inCopy⟩ := upToDate row member ⟨isBook, by rw [isCfi]; rfl⟩
    rw [isShown, Option.some.injEq] at isCurrent
    rw [← isCurrent] at inCopy
    rw [forget_of_not_mem, inCopy]
    intro deleted
    obtain ⟨tombstone, inPage, sameId⟩ := List.mem_map.mp deleted
    exact sound.valid.deleted tombstone (tombstones_since_mem inPage) row member (sameId ▸ own)

theorem quiet_step {action : Action} (sound : Sound book world) (quiet : Quiet book world)
    (reading : action ≠ .begin) (stepped : step book world action = some next) :
    Quiet book next := by
  cases action with
  | tick seconds =>
      cases stepped
      exact ⟨quiet.unlocked, quiet.named, quiet.read, quiet.answered⟩
  | begin => exact absurd rfl reading
  | write write => simp [step, quiet.unlocked] at stepped
  | commit => simp [step, quiet.unlocked] at stepped
  | rollback => simp [step, quiet.unlocked] at stepped
  | readNow =>
      obtain ⟨-, rfl⟩ := step_read_now stepped
      exact ⟨quiet.unlocked, fun _ notBegan => absurd rfl (notBegan _), by simp, by simp⟩
  | mint minted =>
      obtain ⟨now, -, -, -, rfl⟩ := step_mint stepped
      exact ⟨quiet.unlocked, fun _ _ => mint_names minted, by simp, by simp⟩
  | readRows =>
      obtain ⟨now, isPhase, rfl⟩ := step_read_rows stepped
      exact quiet_read_rows sound quiet isPhase
  | readTombstones =>
      obtain ⟨now, rows, isPhase, rfl⟩ := step_read_tombstones stepped
      exact quiet_read_tombstones sound quiet isPhase

end Quiet

/-- A store as a device finds it: nothing is stamped before the epoch or after the clock. -/
structure Opened (now : Int) (store : Store) : Prop where
  valid : store.Valid
  clock : 0 ≤ now
  rows : ∀ row ∈ store.rows, 0 ≤ row.updatedAt ∧ row.updatedAt ≤ now
  tombstones : ∀ tombstone ∈ store.tombstones, tombstone.deletedAt ≤ now

/-- A device with the default cursor and nothing of the book. -/
def newDevice (now : Int) (store : Store) : World where
  now := now
  store := store
  writing := none
  phase := .idle
  cursor := .default
  copy := fun _ => none
  more := true

theorem sound_new_device {now : Int} {store : Store} (opened : Opened now store) :
    Sound book (newDevice now store) where
  valid := opened.valid
  upTo := ⟨fun row member => (opened.rows row member).2, opened.tombstones, opened.clock,
    opened.clock, nofun, nofun⟩
  began := nofun
  writing := nofun
  synced row member _ := by
    refine .inl ?_
    rw [key_lt_iff]
    have since := (opened.rows row member).1
    have positive := (opened.valid.numbered row member).1
    change 0 < row.updatedAt ∨ 0 = row.updatedAt ∧ 0 < row.id
    omega
  forgotten _ held := absurd rfl held
  unnamed := nofun

/-- Once a listing that no write disturbed answers that there is no more, the device holds
what the server does. -/
theorem koreader_misses_no_change (book : Uuid) (now : Int) (store : Store)
    (earlier later : List Action) (middle last : World) (opened : Opened now store)
    (careful : Meets (step book) (Careful book) (newDevice now store) earlier)
    (ran : run (step book) (newDevice now store) earlier = some middle)
    (unlocked : middle.writing = none)
    (carefulLater : Meets (step book) (Careful book) middle (.readNow :: later))
    (listed : run (step book) middle (.readNow :: later) = some last)
    (undisturbed : ∀ action ∈ later, action ≠ .begin)
    (idle : last.phase = .idle) (complete : last.more = false) : last.Agrees book := by
  have sound : Sound book middle :=
    run_keeps (step book) (fun _ _ _ sound careful stepped => sound_step sound careful stepped)
      earlier (sound_new_device opened) careful ran
  obtain ⟨first, stepped, listed⟩ := Option.bind_eq_some_iff.mp listed
  have soundFirst : Sound book first := sound_step sound carefulLater.1 stepped
  have quietFirst : Quiet book first := by
    obtain ⟨-, rfl⟩ := step_read_now stepped
    exact ⟨unlocked, fun _ notBegan => absurd rfl (notBegan _), nofun, nofun⟩
  have keeps (world : World) (action : Action) (next : World)
      (holds : Sound book world ∧ Quiet book world)
      (meets : action ≠ .begin ∧ Careful book world action)
      (stepped : step book world action = some next) : Sound book next ∧ Quiet book next :=
    ⟨sound_step holds.1 meets.2 stepped, quiet_step holds.1 holds.2 meets.1 stepped⟩
  have meets : Meets (step book) (fun world action => action ≠ .begin ∧ Careful book world action)
      first later :=
    (carefulLater.tail (step book) stepped).and_all (step book) undisturbed
  have quiet : Sound book last ∧ Quiet book last :=
    run_keeps (step book) keeps later ⟨soundFirst, quietFirst⟩ meets listed
  exact quiet.2.answered idle complete

section Example

def highlight (clientId : Option String) : CreateHighlight :=
  ⟨"b", "epubcfi(/6/2!/4/2,/1:0,/1:5)", .amber, some "words", clientId, none⟩

def listing : List Action := [.readNow, .mint fun _ => "minted", .readRows, .readTombstones]

def listedThenDeleted : List Action :=
  [.begin, .write (.createHighlight (highlight none)), .commit] ++ listing ++
    [.tick 1, .begin, .write (.deleteHighlight 1), .commit]

theorem koreader_misses_no_change_of_deletion :
    ∃ middle last,
      run (step "b") (newDevice 100 ⟨[], [], 0⟩) listedThenDeleted = some middle ∧
        middle.cursor ≠ .default ∧ run (step "b") middle listing = some last ∧
          last.Agrees "b" := by
  have runs : ((run (step "b") (newDevice 100 ⟨[], [], 0⟩) listedThenDeleted).map fun middle =>
        (middle.writing, decide (middle.cursor ≠ .default),
          decide (Meets (step "b") (Careful "b") middle listing),
            (run (step "b") middle listing).map fun last => (last.phase, last.more))) =
      some (none, true, true, some (.idle, false)) := by
    decide +kernel
  obtain ⟨middle, ran, outcome⟩ := Option.map_eq_some_iff.mp runs
  simp only [Prod.mk.injEq, decide_eq_true_eq] at outcome
  obtain ⟨unlocked, moved, careful, listed⟩ := outcome
  obtain ⟨last, listed, outcome⟩ := Option.map_eq_some_iff.mp listed
  rw [Prod.mk.injEq] at outcome
  refine ⟨middle, last, ran, moved, listed, ?_⟩
  exact koreader_misses_no_change "b" 100 ⟨[], [], 0⟩ _ _ middle last
    ⟨by decide, by decide, by simp, by simp⟩ (by decide +kernel) ran unlocked careful listed
    (by simp) outcome.1 outcome.2

def fullName (index : Nat) : String := String.singleton (Char.ofNat (index + 1000))

def fullRow (index : Nat) : Annotation where
  id := index + 1
  bookUuid := "b"
  epubCfiRange := some "epubcfi(/6/2!/4/2,/1:0,/1:5)"
  koboLocation := none
  koboLocationStale := false
  color := .amber
  text := none
  note := none
  clientId := some (fullName index)
  createdAt := 50
  updatedAt := if index = 999 then 100 else 50

def fullStore : Store := ⟨(List.range 1000).map fullRow, [], 1000⟩

theorem mem_full_store (row : Annotation) :
    row ∈ fullStore.rows ↔ ∃ index, index ∈ List.range 1000 ∧ fullRow index = row := by
  rw [fullStore, List.mem_map]

theorem full_store_opened : Opened 100 fullStore := by
  have chars : ∀ index ∈ List.range 1000, (Char.ofNat (index + 1000)).toNat = index + 1000 := by
    decide +kernel
  have named {left right : Nat} (leftMem : left ∈ List.range 1000)
      (rightMem : right ∈ List.range 1000) (same : fullName left = fullName right) :
      left = right := by
    have sameChar := congrArg (fun name => name.toList.map Char.toNat) same
    simp only [fullName, String.toList_singleton, List.map_cons, List.map_nil, List.cons.injEq,
      and_true] at sameChar
    rw [chars left leftMem, chars right rightMem] at sameChar
    omega
  constructor
  · constructor
    · decide
    · rw [fullStore, List.map_map]
      refine List.Nodup.map (fun left right same => ?_) List.nodup_range
      have sum : (left : Int) + 1 = right + 1 := same
      omega
    · intro row member
      obtain ⟨index, isIndex, rfl⟩ := (mem_full_store row).mp member
      have bound := List.mem_range.mp isIndex
      change 0 < (index : Int) + 1 ∧ (index : Int) + 1 ≤ 1000
      omega
    · intro left leftMem right rightMem _ same
      obtain ⟨index, isIndex, rfl⟩ := (mem_full_store left).mp leftMem
      obtain ⟨other, isOther, rfl⟩ := (mem_full_store right).mp rightMem
      rw [named isIndex isOther (Option.some.inj same)]
    · simp [fullStore]
    · simp [fullStore]
  · decide
  · intro row member
    obtain ⟨index, _, rfl⟩ := (mem_full_store row).mp member
    change 0 ≤ (if index = 999 then (100 : Int) else 50) ∧
      (if index = 999 then (100 : Int) else 50) ≤ 100
    split <;> omega
  · simp [fullStore]

def lists : List Action := [.readNow, .mint fun _ => "", .readRows, .readTombstones]

def recolours : List Action :=
  lists ++ [.begin, .write (.updateHighlightColor 999 .green), .commit, .tick 1]

/-- The listing is complete and the copy has the old colour. -/
def missed (last : World) : Bool :=
  last.phase = .idle && !last.more &&
    (last.copy (fullName 998)).map (·.color) = some .amber &&
    last.store.rows.all fun row => row.clientId ≠ some (fullName 998) || row.color = .green

theorem recoloured_behind_cut_page :
    ¬∀ (store : Store) (earlier later : List Action) (middle last : World), Opened 100 store →
      run (step "b") (newDevice 100 store) earlier = some middle → middle.writing = none →
      run (step "b") middle (.readNow :: later) = some last →
      (∀ action ∈ later, action ≠ .begin) → last.phase = .idle → last.more = false →
      last.Agrees "b" := by
  intro claimed
  have runs : ((run (step "b") (newDevice 100 fullStore) recolours).map fun middle =>
      (middle.writing.isNone, (run (step "b") middle lists).map missed)) =
      some (true, some true) := by
    decide +kernel
  obtain ⟨middle, ran, outcome⟩ := Option.map_eq_some_iff.mp runs
  rw [Prod.mk.injEq, Option.isNone_iff_eq_none] at outcome
  obtain ⟨last, listed, isMissed⟩ := Option.map_eq_some_iff.mp outcome.2
  simp only [missed, Bool.and_eq_true, decide_eq_true_eq, Bool.not_eq_true'] at isMissed
  obtain ⟨⟨⟨idle, complete⟩, held⟩, recoloured⟩ := isMissed
  have agrees := claimed fullStore recolours _ middle last full_store_opened ran outcome.1 listed
    (by simp) idle complete
  obtain ⟨highlight, inCopy, isAmber⟩ := Option.map_eq_some_iff.mp held
  obtain ⟨row, member, _, isShown, sameId⟩ :=
    row_of_highlight ((agrees (fullName 998)).symm.trans inCopy)
  have own := (to_koreader_eq_some row highlight isShown).1
  have isGreen : row.color = .green := by
    have checked := List.all_eq_true.mp recoloured row member
    simpa [own, sameId] using checked
  have sameColor : highlight.color = row.color := by
    unfold Annotation.toKoreader at isShown
    split at isShown
    · cases isShown
      rfl
    · cases isShown
  rw [sameColor, isGreen] at isAmber
  cases isAmber

end Example

end Omnibus.Annotations
