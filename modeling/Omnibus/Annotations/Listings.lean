import Omnibus.Annotations.Koreader

/-!
# A device misses no change

The listing answers every row past the device's cursor, or leaves the row past the next one.
Since a transaction's stamps are from after it took the lock, and the minting waits for the
lock, a transaction that commits after the rows were read stamps no earlier than the
listing's own time; what can fall behind the cursor is only a stamp of the very second a cut
page ended in.
-/

namespace Omnibus.Annotations

open Omnibus.Library

variable {book : Uuid} {world next : World}

def Annotation.Anchored (book : Uuid) (row : Annotation) : Prop :=
  row.bookUuid = book ∧ row.epubCfiRange.isSome = true

instance (book : Uuid) (row : Annotation) : Decidable (row.Anchored book) :=
  inferInstanceAs (Decidable (_ ∧ _))

/-- Nothing committed, read or answered is from after the second. -/
structure UpTo (store : Store) (cursor : KoreaderCursor) (phase : Phase) (second : Int) :
    Prop where
  rows : ∀ row ∈ store.rows, row.updatedAt ≤ second
  tombstones : ∀ tombstone ∈ store.tombstones, tombstone.deletedAt ≤ second
  row : cursor.rowAt ≤ second
  tombstone : cursor.tombAt ≤ second
  minted : ∀ now, phase = .minted now → now ≤ second
  rowsRead : ∀ now rows, phase = .rowsRead now rows →
    now ≤ second ∧ ∀ row ∈ rows, row.updatedAt ≤ second

abbrev World.UpTo (world : World) (second : Int) : Prop :=
  Annotations.UpTo world.store world.cursor world.phase second

/-- What holds between the steps of a device that has missed nothing. -/
structure Sound (book : Uuid) (world : World) : Prop where
  valid : world.store.Valid
  upTo : world.UpTo world.now
  began : ∀ now, world.phase = .began now → now ≤ world.now
  writing : ∀ writing ∈ world.writing, writing.store.Valid ∧ world.UpTo writing.began ∧
    writing.began ≤ world.now ∧ Advances writing.began world.now world.store writing.store
  /-- A row behind the position is in the copy as it is. -/
  synced : ∀ row ∈ world.store.rows, row.Anchored book → world.position < row.key ∨
    ∃ highlight, row.toKoreader = some highlight ∧
      world.shown highlight.clientId = some highlight
  /-- What the copy holds has a row, or a tombstone past the cursor. -/
  forgotten : ∀ clientId, world.shown clientId ≠ none →
    (∃ row ∈ world.store.rows, row.clientId = some clientId ∧ row.Anchored book) ∨
      ∃ tombstone ∈ world.store.tombstones, tombstone.bookUuid = book ∧
        tombstone.clientId = clientId ∧ world.cursor.tombstone < tombstone.key
  /-- A row without a client id came after the minting. -/
  unnamed : ∀ now, world.phase = .minted now → ∀ row ∈ world.store.rows, row.Anchored book →
    row.clientId = none → now ≤ row.updatedAt

/-- The commit leaves no stamp of the position's own second at or behind it, and takes the
CFI from no row the device holds. -/
structure CommitsPast (book : Uuid) (world : World) (writing : Writing) : Prop where
  rows : ∀ row ∈ writing.store.rows, row.Anchored book →
    (world.store.rows.any fun old => row.sameAs old) = false →
    row.updatedAt = (ofLex world.position).1 → (ofLex world.position).2 < row.id
  tombstones : ∀ tombstone ∈ writing.store.tombstones, tombstone.bookUuid = book →
    tombstone ∉ world.store.tombstones → tombstone.deletedAt = world.cursor.tombAt →
    world.cursor.tombClientId < tombstone.clientId
  anchors : ∀ row ∈ writing.store.rows, row.bookUuid = book → row.epubCfiRange = none →
    row.clientId.all fun clientId => (world.shown clientId).isNone

instance (book : Uuid) (world : World) (writing : Writing) :
    Decidable (CommitsPast book world writing) :=
  decidable_of_iff
    ((∀ row ∈ writing.store.rows, row.Anchored book →
        (world.store.rows.any fun old => row.sameAs old) = false →
        row.updatedAt = (ofLex world.position).1 → (ofLex world.position).2 < row.id) ∧
      (∀ tombstone ∈ writing.store.tombstones, tombstone.bookUuid = book →
        tombstone ∉ world.store.tombstones → tombstone.deletedAt = world.cursor.tombAt →
        world.cursor.tombClientId < tombstone.clientId) ∧
      ∀ row ∈ writing.store.rows, row.bookUuid = book → row.epubCfiRange = none →
        row.clientId.all fun clientId => (world.shown clientId).isNone)
    ⟨fun ⟨rows, tombstones, anchors⟩ => ⟨rows, tombstones, anchors⟩,
      fun past => ⟨past.rows, past.tombstones, past.anchors⟩⟩

/-- A cut page skips no row for its missing client id. -/
def ReadsNamed (book : Uuid) (world : World) (now : Int) : Prop :=
  Feed.cut listHighlightsLimit (rowsSince book world.store world.cursor) = true →
    ∀ row ∈ world.store.rows, row.Anchored book → row.clientId = none →
      rowPosition now (rowsSince book world.store world.cursor) < row.key

instance (book : Uuid) (world : World) (now : Int) : Decidable (ReadsNamed book world now) :=
  inferInstanceAs (Decidable (_ → _))

/-- What is asked of a step. -/
def Careful (book : Uuid) (world : World) (action : Action) : Prop :=
  match action, world.writing, world.phase with
  | .commit, some writing, _ => CommitsPast book world writing
  | .readRows, _, .minted now => ReadsNamed book world now
  | _, _, _ => True

instance (book : Uuid) (world : World) (action : Action) :
    Decidable (Careful book world action) := by
  unfold Careful
  split <;> infer_instance

theorem key_lt_iff (position : Int ×ₗ Int) (row : Annotation) : position < row.key ↔
    (ofLex position).1 < row.updatedAt ∨
      ((ofLex position).1 = row.updatedAt ∧ (ofLex position).2 < row.id) := by
  rw [Prod.Lex.lt_iff]
  rfl

theorem tombstone_key_lt_iff (position : Int ×ₗ String) (tombstone : Tombstone) :
    position < tombstone.key ↔ (ofLex position).1 < tombstone.deletedAt ∨
      ((ofLex position).1 = tombstone.deletedAt ∧
        (ofLex position).2 < tombstone.clientId) := by
  rw [Prod.Lex.lt_iff]
  rfl

section Positions

theorem row_position_at {second now : Int} {rows : List Annotation} (began : now ≤ second)
    (bounded : ∀ row ∈ rows, row.updatedAt ≤ second) :
    (ofLex (rowPosition now rows)).1 ≤ second := by
  rcases Feed.position_cases Annotation.key listHighlightsLimit (toLex (now, 0)) rows with fallback |
    ⟨last, lastMem, isLast⟩
  · rw [rowPosition, fallback]
    exact began
  · rw [rowPosition, isLast]
    exact bounded last lastMem

theorem tombstone_position_at {second now : Int} {tombstones : List Tombstone}
    (began : now ≤ second) (bounded : ∀ tombstone ∈ tombstones, tombstone.deletedAt ≤ second) :
    (ofLex (tombstonePosition now tombstones)).1 ≤ second := by
  rcases Feed.position_cases Tombstone.key listHighlightsLimit (toLex (now, "")) tombstones with
    fallback | ⟨last, lastMem, isLast⟩
  · rw [tombstonePosition, fallback]
    exact began
  · rw [tombstonePosition, isLast]
    exact bounded last lastMem

theorem position_at {second : Int} (upTo : world.UpTo second) :
    (ofLex world.position).1 ≤ second := by
  unfold World.position
  split
  · rename_i now rows isPhase
    obtain ⟨began, bounded⟩ := upTo.rowsRead now rows isPhase
    exact row_position_at began bounded
  · exact upTo.row

theorem UpTo.mono {second later : Int} (upTo : world.UpTo second) (after : second ≤ later) :
    world.UpTo later where
  rows row member := (upTo.rows row member).trans after
  tombstones tombstone member := (upTo.tombstones tombstone member).trans after
  row := upTo.row.trans after
  tombstone := upTo.tombstone.trans after
  minted now isPhase := (upTo.minted now isPhase).trans after
  rowsRead now rows isPhase := by
    obtain ⟨began, bounded⟩ := upTo.rowsRead now rows isPhase
    exact ⟨began.trans after, fun row member => (bounded row member).trans after⟩

end Positions

section Writers

/-- A row the transaction stamped is past the position, unless it bears the position's own
second. -/
theorem stamped_past {writing : Writing} (upTo : world.UpTo writing.began) {row : Annotation}
    (stamped : writing.began ≤ row.updatedAt)
    (careful : row.updatedAt = (ofLex world.position).1 → (ofLex world.position).2 < row.id) :
    world.position < row.key := by
  rw [key_lt_iff]
  have bound := position_at upTo
  by_cases same : (ofLex world.position).1 = row.updatedAt
  · exact .inr ⟨same, careful same.symm⟩
  · exact .inl (by omega)

theorem to_koreader_same {row old : Annotation} (same : row.sameAs old = true)
    {highlight : KoreaderAnnotation} (isShown : old.toKoreader = some highlight) :
    row.toKoreader = some highlight := by
  obtain ⟨⟨_, _, cfi, color, text, note, created, updated⟩, client⟩ :=
    Annotation.same_as_iff _ _ |>.mp same
  have named := (to_koreader_eq_some old highlight isShown).1
  have client : row.clientId = old.clientId := client.resolve_right (by rw [named]; nofun)
  unfold Annotation.toKoreader at isShown ⊢
  rw [client, cfi, color, text, note, created, updated]
  exact isShown

theorem sound_commit {writing : Writing} (sound : Sound book world)
    (isWriting : world.writing = some writing) (careful : Careful book world .commit) :
    Sound book { world with store := writing.store, writing := none } := by
  obtain ⟨valid, upTo, before, advances⟩ := sound.writing writing isWriting
  have careful : CommitsPast book world writing := by simpa [Careful, isWriting] using careful
  have past {row : Annotation} (member : row ∈ writing.store.rows) (anchored : row.Anchored book)
      (changed : ∀ old ∈ world.store.rows, row.sameAs old = false)
      (stamped : writing.began ≤ row.updatedAt) : world.position < row.key :=
    stamped_past upTo stamped (careful.rows row member anchored (by simpa using changed))
  have rowCases {row : Annotation} (member : row ∈ writing.store.rows) :
      (∃ old ∈ world.store.rows, row.sameAs old = true) ∨
        ((∀ old ∈ world.store.rows, row.sameAs old = false) ∧
          writing.began ≤ row.updatedAt ∧ row.updatedAt ≤ world.now) := by
    by_cases same : ∃ old ∈ world.store.rows, row.sameAs old = true
    · exact .inl same
    · refine .inr ⟨fun old oldMem => ?_, (advances.rows row member).resolve_left same⟩
      rw [Bool.eq_false_iff]
      exact fun isSame => same ⟨old, oldMem, isSame⟩
  constructor
  · exact valid
  · constructor
    · intro row member
      rcases rowCases member with ⟨old, oldMem, same⟩ | ⟨_, _, bound⟩
      · obtain ⟨⟨_, _, _, _, _, _, _, stamp⟩, _⟩ := Annotation.same_as_iff _ _ |>.mp same
        rw [stamp]
        exact sound.upTo.rows old oldMem
      · exact bound
    · intro tombstone member
      rcases advances.tombstones tombstone member with old | ⟨_, bound⟩
      · exact sound.upTo.tombstones tombstone old
      · exact bound
    · exact sound.upTo.row
    · exact sound.upTo.tombstone
    · exact sound.upTo.minted
    · exact sound.upTo.rowsRead
  · exact sound.began
  · exact nofun
  · intro row member anchored
    rcases rowCases member with ⟨old, oldMem, same⟩ | ⟨changed, stamped, _⟩
    · obtain ⟨⟨id, isBook, cfi, _, _, _, _, stamp⟩, _⟩ := Annotation.same_as_iff _ _ |>.mp same
      have key : row.key = old.key := by
        unfold Annotation.key
        rw [id, stamp]
      have oldAnchored : old.Anchored book := ⟨isBook ▸ anchored.1, cfi ▸ anchored.2⟩
      refine (sound.synced old oldMem oldAnchored).imp (fun later => ?_) ?_
      · rw [key]
        exact later
      · rintro ⟨highlight, isShown, held⟩
        exact ⟨highlight, to_koreader_same same isShown, held⟩
    · exact .inl (past member anchored changed stamped)
  · intro clientId held
    rcases sound.forgotten clientId held with
      ⟨old, oldMem, isClient, anchored⟩ | ⟨tombstone, member, isBook, isClient, later⟩
    · rcases advances.found old oldMem clientId isClient with
        ⟨row, member, rowClient, isBook⟩ | ⟨tombstone, member, tombClient, isBook⟩
      · refine .inl ⟨row, member, rowClient, isBook.trans anchored.1, ?_⟩
        cases isCfi : row.epubCfiRange with
        | some cfi => rfl
        | none =>
            have gone := careful.anchors row member (isBook.trans anchored.1) isCfi
            rw [rowClient, Option.all_some, Option.isNone_iff_eq_none] at gone
            exact absurd gone held
      · refine .inr ⟨tombstone, member, isBook.trans anchored.1, tombClient, ?_⟩
        have isNew : tombstone ∉ world.store.tombstones := by
          intro old'
          exact sound.valid.deleted tombstone old' old oldMem (tombClient ▸ isClient)
        obtain ⟨stamped, _⟩ := (advances.tombstones tombstone member).resolve_left isNew
        have bound := upTo.tombstone
        rw [tombstone_key_lt_iff]
        by_cases same : world.cursor.tombAt = tombstone.deletedAt
        · exact .inr ⟨same, careful.tombstones tombstone member (isBook.trans anchored.1) isNew
            same.symm⟩
        · refine .inl ?_
          change world.cursor.tombAt < _
          omega
    · exact .inr ⟨tombstone, advances.remembered tombstone member, isBook, isClient, later⟩
  · intro now isPhase row member anchored absent
    rcases rowCases member with ⟨old, oldMem, same⟩ | ⟨_, stamped, _⟩
    · obtain ⟨⟨_, isBook, cfi, _, _, _, _, stamp⟩, client⟩ := Annotation.same_as_iff _ _ |>.mp same
      rw [stamp]
      apply sound.unnamed now isPhase old oldMem ⟨isBook ▸ anchored.1, cfi ▸ anchored.2⟩
      rcases client with named | unnamed
      · exact named ▸ absent
      · exact unnamed
    · exact (upTo.minted now isPhase).trans stamped

end Writers

section Listings

theorem anchored_of_unnamed (row : Annotation) : unnamed book row = true ↔
    row.Anchored book ∧ row.clientId = none := by
  simp only [Annotations.unnamed, Annotation.Anchored, Bool.and_eq_true, decide_eq_true_eq]
  tauto

theorem listable_of_anchored {row : Annotation} (anchored : row.Anchored book)
    (named : row.clientId ≠ none) : listable book row = true :=
  (listable_iff row).mpr ⟨anchored.1, named, anchored.2⟩

theorem mint_advances (valid : world.store.Valid) (minted : Int → String)
    (fresh : freshDraws book world.store minted = true) (since upto : Int) :
    (mintClientIds book world.store minted).Valid ∧
      Advances since upto world.store (mintClientIds book world.store minted) := by
  simp only [freshDraws, List.all_eq_true, List.mem_filter, Bool.and_eq_true, Store.unused,
    Bool.not_eq_true', Bool.or_eq_true, decide_eq_true_eq, and_imp] at fresh
  constructor
  · refine name_valid valid (unnamed book) _ minted (fun _ => rfl) (fun row selected => ?_)
      (fun row member selected _ => (fresh row member selected).1)
      fun left leftMem right rightMem leftIs rightIs same => ?_
    · rw [((anchored_of_unnamed row).mp selected).2]
      rfl
    · exact ((fresh left leftMem leftIs).2 right rightMem rightIs).resolve_left (not_not.mpr same)
  · apply name_advances since upto _ _
    intro row _ selected
    apply Annotation.same_as_iff _ _ |>.mpr
    exact ⟨⟨rfl, rfl, rfl, rfl, rfl, rfl, rfl, rfl⟩, .inr ((anchored_of_unnamed row).mp selected).2⟩

theorem mint_names (minted : Int → String) :
    ∀ row ∈ (mintClientIds book world.store minted).rows, row.Anchored book →
      row.clientId ≠ none := by
  intro row member anchored
  obtain ⟨old, _, rfl⟩ := (mem_update _ _ _).mp member
  split
  · nofun
  · rename_i selected
    rw [if_neg selected] at anchored
    rw [anchored_of_unnamed, not_and] at selected
    exact selected anchored

theorem sound_mint {now : Int} {minted : Int → String} (sound : Sound book world)
    (isPhase : world.phase = .began now) (unlocked : world.writing = none)
    (fresh : freshDraws book world.store minted = true) :
    Sound book { world with
      store := mintClientIds book world.store minted
      phase := .minted now } := by
  obtain ⟨valid, advances⟩ := mint_advances sound.valid minted fresh (world.now + 1) world.now
  have old {row : Annotation} (member : row ∈ (mintClientIds book world.store minted).rows) :
      ∃ old ∈ world.store.rows, row.sameAs old = true :=
    (advances.rows row member).resolve_right (by omega)
  have position : world.position = world.cursor.row := by simp [World.position, isPhase]
  have shown : world.shown = world.copy := by simp [World.shown, isPhase]
  constructor
  · exact valid
  · constructor
    · intro row member
      obtain ⟨was, wasMem, same⟩ := old member
      obtain ⟨⟨_, _, _, _, _, _, _, stamp⟩, _⟩ := Annotation.same_as_iff _ _ |>.mp same
      rw [stamp]
      exact sound.upTo.rows was wasMem
    · exact sound.upTo.tombstones
    · exact sound.upTo.row
    · exact sound.upTo.tombstone
    · rintro _ ⟨⟩
      exact sound.began now isPhase
    · exact nofun
  · exact nofun
  · intro writing isWriting
    rw [unlocked] at isWriting
    cases isWriting
  · intro row member anchored
    obtain ⟨was, wasMem, same⟩ := old member
    obtain ⟨⟨id, isBook, cfi, _, _, _, _, stamp⟩, _⟩ := Annotation.same_as_iff _ _ |>.mp same
    have key : row.key = was.key := by
      unfold Annotation.key
      rw [id, stamp]
    refine (sound.synced was wasMem ⟨isBook ▸ anchored.1, cfi ▸ anchored.2⟩).imp (fun later => ?_) ?_
    · change world.cursor.row < row.key
      rw [key, ← position]
      exact later
    · intro ⟨highlight, isShown, held⟩
      rw [shown] at held
      exact ⟨highlight, to_koreader_same same isShown, held⟩
  · intro clientId held
    have held : world.shown clientId ≠ none := by rw [shown]; exact held
    rcases sound.forgotten clientId held with ⟨was, wasMem, isClient, anchored⟩ | tombstoned
    · have kept : unnamed book was = false := by
        rw [Bool.eq_false_iff, ne_eq, anchored_of_unnamed, isClient]
        rintro ⟨_, ⟨⟩⟩
      exact .inl ⟨was, (mem_update _ _ _).mpr ⟨was, wasMem, by simp [kept]⟩, isClient, anchored⟩
    · exact .inr tombstoned
  · rintro _ ⟨⟩ row member anchored absent
    exact absurd absent (mint_names minted row member anchored)

/-- A row of the store that is in the page, or that the copy already shows, is shown after. -/
theorem overwrite_own (valid : world.store.Valid) {rows : List Annotation}
    (read : ∀ row ∈ rows, row ∈ world.store.rows) {row : Annotation}
    (member : row ∈ world.store.rows) {highlight : KoreaderAnnotation}
    (isShown : row.toKoreader = some highlight)
    (held : row ∈ rows ∨ world.copy highlight.clientId = some highlight) :
    overwrite world.copy rows highlight.clientId = some highlight := by
  have own := (to_koreader_eq_some row highlight isShown).1
  rcases overwrite_cases world.copy rows highlight.clientId with
    ⟨other, otherMem, another, isOther, sameId, written⟩ | ⟨absent, same⟩
  · have otherOwn := (to_koreader_eq_some other another isOther).1
    have isRow : other = row :=
      row_of_client valid (read other otherMem) member (sameId ▸ otherOwn) own
    rw [isRow, isShown, Option.some.injEq] at isOther
    rw [written, ← isOther]
  · rw [same]
    refine held.resolve_left fun inPage => ?_
    rcases absent row inPage with other | unshown
    · exact other own
    · rw [isShown] at unshown
      cases unshown

theorem rows_since_mem {cursor : KoreaderCursor} {row : Annotation}
    (member : row ∈ rowsSince book world.store cursor) :
    row ∈ world.store.rows ∧ listable book row = true :=
  List.mem_filter.mp (Feed.mem_page Annotation.key member).1

theorem tombstones_since_mem {cursor : KoreaderCursor} {tombstone : Tombstone}
    (member : tombstone ∈ tombstonesSince book world.store cursor) :
    tombstone ∈ world.store.tombstones :=
  List.mem_of_mem_filter (Feed.mem_page Tombstone.key member).1

theorem writing_imp {upTo : Int → Prop} (sound : Sound book world)
    (holds : ∀ {second}, world.UpTo second → upTo second) :
    ∀ writing ∈ world.writing, writing.store.Valid ∧ upTo writing.began ∧
      writing.began ≤ world.now ∧ Advances writing.began world.now world.store writing.store := by
  intro writing isWriting
  obtain ⟨valid, bound, before, advances⟩ := sound.writing writing isWriting
  exact ⟨valid, holds bound, before, advances⟩

theorem sound_read_now (sound : Sound book world) (isPhase : world.phase = .idle) :
    Sound book { world with phase := .began world.now } := by
  have position : world.position = world.cursor.row := by simp [World.position, isPhase]
  have shown : world.shown = world.copy := by simp [World.shown, isPhase]
  have synced := sound.synced
  have forgotten := sound.forgotten
  rw [position, shown] at synced
  rw [shown] at forgotten
  have upTo {second : Int} (upTo : world.UpTo second) :
      Annotations.UpTo world.store world.cursor (.began world.now) second :=
    ⟨upTo.rows, upTo.tombstones, upTo.row, upTo.tombstone, nofun, nofun⟩
  refine ⟨sound.valid, upTo sound.upTo, ?_, ?_, synced, forgotten, nofun⟩
  · rintro _ ⟨⟩
    exact le_refl _
  · have writes := writing_imp sound upTo
    exact writes

theorem sound_read_rows {now : Int} (sound : Sound book world)
    (isPhase : world.phase = .minted now) (careful : Careful book world .readRows) :
    Sound book { world with
      phase := .rowsRead now (rowsSince book world.store world.cursor) } := by
  set page := rowsSince book world.store world.cursor with isPage
  have position : world.position = world.cursor.row := by simp [World.position, isPhase]
  have shown : world.shown = world.copy := by simp [World.shown, isPhase]
  have read : ∀ row ∈ page, row ∈ world.store.rows := fun row member => (rows_since_mem member).1
  have upTo {second : Int} (upTo : world.UpTo second) :
      Annotations.UpTo world.store world.cursor (.rowsRead now page) second := by
    refine ⟨upTo.rows, upTo.tombstones, upTo.row, upTo.tombstone, nofun, ?_⟩
    rintro _ _ ⟨⟩
    exact ⟨upTo.minted now isPhase, fun row member => upTo.rows row (read row member)⟩
  constructor
  · exact sound.valid
  · exact upTo sound.upTo
  · exact nofun
  · have writes := writing_imp sound upTo
    exact writes
  · intro row member anchored
    change rowPosition now page < row.key ∨
      ∃ highlight, row.toKoreader = some highlight ∧
        overwrite world.copy page highlight.clientId = some highlight
    by_cases named : row.clientId = none
    · refine .inl ?_
      cases whole : Feed.cut listHighlightsLimit page with
      | true =>
          have careful : ReadsNamed book world now := by simpa [Careful, isPhase] using careful
          exact careful whole row member anchored named
      | false =>
          rw [rowPosition, Feed.position_of_not_cut _ whole, key_lt_iff]
          have since := sound.unnamed now isPhase row member anchored named
          have positive := (sound.valid.numbered row member).1
          change now < row.updatedAt ∨ now = row.updatedAt ∧ 0 < row.id
          omega
    · have isListable := listable_of_anchored anchored named
      obtain ⟨highlight, isShown⟩ := to_koreader_of_listable isListable
      by_cases past : world.cursor.row < row.key
      · have apart : ∀ left ∈ world.store.rows.filter (listable book),
            ∀ right ∈ world.store.rows.filter (listable book), left.key = right.key →
            left = right := by
          intro left leftMem right rightMem same
          refine row_of_id sound.valid (List.mem_of_mem_filter leftMem)
            (List.mem_of_mem_filter rightMem) ?_
          exact congrArg (fun key => (ofLex key).2) same
        rcases Feed.mem_page_or_past Annotation.key (toLex (now, 0))
          (by decide : 0 < listHighlightsLimit) apart
          (List.mem_filter.mpr ⟨member, isListable⟩) past with inPage | later
        · exact .inr ⟨highlight, isShown,
            overwrite_own sound.valid read member isShown (.inl inPage)⟩
        · exact .inl later
      · obtain ⟨held, isHeld, inCopy⟩ :=
          (sound.synced row member anchored).resolve_left (position ▸ past)
        rw [shown] at inCopy
        exact .inr ⟨held, isHeld, overwrite_own sound.valid read member isHeld (.inr inCopy)⟩
  · intro clientId held
    change overwrite world.copy page clientId ≠ none at held
    rcases overwrite_cases world.copy page clientId with
      ⟨row, rowMem, highlight, isShown, sameId, _⟩ | ⟨_, same⟩
    · obtain ⟨member, isListable⟩ := rows_since_mem rowMem
      obtain ⟨isBook, _, isCfi⟩ := (listable_iff row).mp isListable
      have own := (to_koreader_eq_some row highlight isShown).1
      exact .inl ⟨row, member, sameId ▸ own, isBook, isCfi⟩
    · rw [same, ← shown] at held
      exact sound.forgotten clientId held
  · exact nofun

theorem sound_read_tombstones {now : Int} {rows : List Annotation} (sound : Sound book world)
    (isPhase : world.phase = .rowsRead now rows) (more : Bool) :
    Sound book { world with
      phase := .idle
      cursor := nextCursor now rows (tombstonesSince book world.store world.cursor)
      copy := forget (overwrite world.copy rows)
        ((tombstonesSince book world.store world.cursor).map (·.clientId))
      more := more } := by
  set page := tombstonesSince book world.store world.cursor with isPage
  have position : world.position = rowPosition now rows := by simp [World.position, isPhase]
  have shown : world.shown = overwrite world.copy rows := by simp [World.shown, isPhase]
  have read : ∀ tombstone ∈ page, tombstone ∈ world.store.tombstones :=
    fun tombstone member => tombstones_since_mem member
  have upTo {second : Int} (upTo : world.UpTo second) :
      Annotations.UpTo world.store (nextCursor now rows page) .idle second := by
    obtain ⟨began, bounded⟩ := upTo.rowsRead now rows isPhase
    exact ⟨upTo.rows, upTo.tombstones, row_position_at began bounded,
      tombstone_position_at began fun tombstone member =>
        upTo.tombstones tombstone (read tombstone member), nofun, nofun⟩
  constructor
  · exact sound.valid
  · exact upTo sound.upTo
  · exact nofun
  · have writes := writing_imp sound upTo
    exact writes
  · intro row member anchored
    change rowPosition now rows < row.key ∨
      ∃ highlight, row.toKoreader = some highlight ∧
        forget (overwrite world.copy rows) (page.map (·.clientId)) highlight.clientId =
          some highlight
    rw [← position, ← shown]
    apply (sound.synced row member anchored).imp_right
    intro ⟨highlight, isShown, held⟩
    refine ⟨highlight, isShown, ?_⟩
    rw [forget_of_not_mem, held]
    intro deleted
    obtain ⟨tombstone, inPage, sameId⟩ := List.mem_map.mp deleted
    have own := (to_koreader_eq_some row highlight isShown).1
    exact sound.valid.deleted tombstone (read tombstone inPage) row member (sameId ▸ own)
  · intro clientId held
    change forget (overwrite world.copy rows) (page.map (·.clientId)) clientId ≠ none at held
    have remains : clientId ∉ page.map (·.clientId) := fun deleted => held (forget_of_mem deleted)
    rw [forget_of_not_mem remains, ← shown] at held
    apply (sound.forgotten clientId held).imp_right
    intro ⟨tombstone, member, isBook, isClient, past⟩
    refine ⟨tombstone, member, isBook, isClient, ?_⟩
    have apart : ∀ left ∈ world.store.tombstones.filter (·.bookUuid = book),
        ∀ right ∈ world.store.tombstones.filter (·.bookUuid = book), left.key = right.key →
        left = right := by
      intro left leftMem right rightMem same
      refine sound.valid.tombstoneIds left (List.mem_of_mem_filter leftMem) right
        (List.mem_of_mem_filter rightMem) ?_
      exact congrArg (fun key => (ofLex key).2) same
    rcases Feed.mem_page_or_past Tombstone.key (toLex (now, ""))
      (by decide : 0 < listHighlightsLimit) apart
      (List.mem_filter.mpr ⟨member, by simpa using isBook⟩) past with inPage | later
    · exact absurd (List.mem_map.mpr ⟨tombstone, inPage, isClient⟩) remains
    · exact later
  · exact nofun

end Listings

theorem sound_step {action : Action} (sound : Sound book world)
    (careful : Careful book world action) (stepped : step book world action = some next) :
    Sound book next := by
  cases action with
  | tick seconds =>
      cases stepped
      have later : world.now ≤ world.now + seconds := by omega
      refine ⟨sound.valid, sound.upTo.mono later, fun now isPhase =>
        (sound.began now isPhase).trans later, fun writing isWriting => ?_, sound.synced,
        sound.forgotten, sound.unnamed⟩
      obtain ⟨valid, bound, before, advances⟩ := sound.writing writing isWriting
      exact ⟨valid, bound, before.trans later,
        advances.trans (Advances.refl writing.began _ _) (le_refl _) later⟩
  | begin =>
      simp only [step] at stepped
      split at stepped
      · cases stepped
        refine ⟨sound.valid, sound.upTo, sound.began, ?_, sound.synced, sound.forgotten,
          sound.unnamed⟩
        rintro _ ⟨⟩
        exact ⟨sound.valid, sound.upTo, le_refl _, Advances.refl _ _ _⟩
      · cases stepped
  | write write =>
      simp only [step] at stepped
      split at stepped
      · cases stepped
      · rename_i writing isWriting
        obtain ⟨store, ran, rfl⟩ := Option.map_eq_some_iff.mp stepped
        obtain ⟨valid, bound, before, advances⟩ := sound.writing writing isWriting
        obtain ⟨stillValid, more⟩ := write_advances valid write ran
        refine ⟨sound.valid, sound.upTo, sound.began, ?_, sound.synced, sound.forgotten,
          sound.unnamed⟩
        rintro _ ⟨⟩
        exact ⟨stillValid, bound, before, advances.trans more before (le_refl _)⟩
  | commit =>
      obtain ⟨writing, isWriting, rfl⟩ := Option.map_eq_some_iff.mp stepped
      exact sound_commit sound isWriting careful
  | rollback =>
      obtain ⟨writing, isWriting, rfl⟩ := Option.map_eq_some_iff.mp stepped
      exact ⟨sound.valid, sound.upTo, sound.began, by simp, sound.synced, sound.forgotten,
        sound.unnamed⟩
  | readNow =>
      obtain ⟨isPhase, rfl⟩ := step_read_now stepped
      exact sound_read_now sound isPhase
  | mint minted =>
      obtain ⟨now, isPhase, unlocked, fresh, rfl⟩ := step_mint stepped
      exact sound_mint sound isPhase unlocked fresh
  | readRows =>
      obtain ⟨now, isPhase, rfl⟩ := step_read_rows stepped
      exact sound_read_rows sound isPhase careful
  | readTombstones =>
      obtain ⟨now, rows, isPhase, rfl⟩ := step_read_tombstones stepped
      exact sound_read_tombstones sound isPhase _

end Omnibus.Annotations
