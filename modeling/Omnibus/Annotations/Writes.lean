import Omnibus.Annotations.Store
import Mathlib.Algebra.Order.Ring.Int

/-!
# What the writers leave

Every statement keeps the store valid. It stamps each row it changes and each tombstone it
makes with the second it runs at; the rows it does not stamp show what they showed, and a
client id that had a row has one still or is tombstoned.
-/

namespace Omnibus.Annotations

variable {store next : Store} {now : Int}

/-- The row but for its Kobo anchor, and for a client id where there was none. -/
def Annotation.sameAs (row old : Annotation) : Bool :=
  { row with
    koboLocation := old.koboLocation
    koboLocationStale := old.koboLocationStale
    clientId := old.clientId } = old &&
  (row.clientId = old.clientId || old.clientId = none)

namespace Annotation

theorem same_as_iff (row old : Annotation) : row.sameAs old = true ↔
    (row.id = old.id ∧ row.bookUuid = old.bookUuid ∧ row.epubCfiRange = old.epubCfiRange ∧
      row.color = old.color ∧ row.text = old.text ∧ row.note = old.note ∧
      row.createdAt = old.createdAt ∧ row.updatedAt = old.updatedAt) ∧
    (row.clientId = old.clientId ∨ old.clientId = none) := by
  obtain ⟨_, _, _, _, _, _, _, _, _, _, _⟩ := row
  obtain ⟨_, _, _, _, _, _, _, _, _, _, _⟩ := old
  simp [sameAs]

theorem same_as_refl (row : Annotation) : row.sameAs row = true := by
  simp [same_as_iff]

theorem same_as_trans {row middle old : Annotation} (first : middle.sameAs old = true)
    (second : row.sameAs middle = true) : row.sameAs old = true := by
  rw [same_as_iff] at *
  obtain ⟨⟨id, book, cfi, color, text, note, created, updated⟩, client⟩ := first
  obtain ⟨⟨id', book', cfi', color', text', note', created', updated'⟩, client'⟩ := second
  refine ⟨⟨id'.trans id, book'.trans book, cfi'.trans cfi, color'.trans color, text'.trans text,
    note'.trans note, created'.trans created, updated'.trans updated⟩, ?_⟩
  rcases client with same | absent
  · rw [← same]
    exact client'
  · exact .inr absent

end Annotation

/-- What statements run between two seconds make of a store. -/
structure Advances (since upto : Int) (before after : Store) : Prop where
  rows : ∀ row ∈ after.rows, (∃ old ∈ before.rows, row.sameAs old = true) ∨
    (since ≤ row.updatedAt ∧ row.updatedAt ≤ upto)
  tombstones : ∀ tombstone ∈ after.tombstones, tombstone ∈ before.tombstones ∨
    (since ≤ tombstone.deletedAt ∧ tombstone.deletedAt ≤ upto)
  remembered : ∀ tombstone ∈ before.tombstones, tombstone ∈ after.tombstones
  found : ∀ old ∈ before.rows, ∀ clientId, old.clientId = some clientId →
    (∃ row ∈ after.rows, row.clientId = some clientId ∧ row.bookUuid = old.bookUuid) ∨
      ∃ tombstone ∈ after.tombstones,
        tombstone.clientId = clientId ∧ tombstone.bookUuid = old.bookUuid

namespace Advances

theorem refl (since upto : Int) (store : Store) : Advances since upto store store where
  rows row member := .inl ⟨row, member, row.same_as_refl⟩
  tombstones _ member := .inl member
  remembered _ member := member
  found old member _ isClient := .inl ⟨old, member, isClient, rfl⟩

theorem trans {since upto since' upto' : Int} {before middle after : Store}
    (first : Advances since upto before middle) (second : Advances since' upto' middle after)
    (later : since ≤ since') (beyond : upto ≤ upto') : Advances since upto' before after where
  rows row member := by
    rcases second.rows row member with ⟨old, oldMem, same⟩ | ⟨low, high⟩
    · rcases first.rows old oldMem with ⟨oldest, oldestMem, same'⟩ | ⟨low, high⟩
      · exact .inl ⟨oldest, oldestMem, Annotation.same_as_trans same' same⟩
      · obtain ⟨⟨_, _, _, _, _, _, _, stamp⟩, _⟩ := Annotation.same_as_iff _ _ |>.mp same
        exact .inr ⟨by omega, by omega⟩
    · exact .inr ⟨by omega, high⟩
  tombstones tombstone member := by
    rcases second.tombstones tombstone member with old | ⟨low, high⟩
    · exact (first.tombstones tombstone old).imp_right fun ⟨low, high⟩ => ⟨low, by omega⟩
    · exact .inr ⟨by omega, high⟩
  remembered tombstone member := second.remembered _ (first.remembered tombstone member)
  found old member clientId isClient := by
    rcases first.found old member clientId isClient with
      ⟨row, rowMem, rowClient, book⟩ | ⟨tombstone, tombMem, tombClient, book⟩
    · rcases second.found row rowMem clientId rowClient with
        ⟨last, lastMem, lastClient, book'⟩ | ⟨tombstone, tombMem, tombClient, book'⟩
      · exact .inl ⟨last, lastMem, lastClient, book'.trans book⟩
      · exact .inr ⟨tombstone, tombMem, tombClient, book'.trans book⟩
    · exact .inr ⟨tombstone, second.remembered _ tombMem, tombClient, book⟩

end Advances

section Operations

theorem row_of_id (valid : store.Valid) {left right : Annotation} (leftMem : left ∈ store.rows)
    (rightMem : right ∈ store.rows) (same : left.id = right.id) : left = right :=
  List.inj_on_of_nodup_map valid.ids leftMem rightMem same

theorem row_of_client (valid : store.Valid) {left right : Annotation} {clientId : String}
    (leftMem : left ∈ store.rows) (rightMem : right ∈ store.rows)
    (isLeft : left.clientId = some clientId) (isRight : right.clientId = some clientId) :
    left = right := by
  refine row_of_id valid leftMem rightMem (valid.clientIds left leftMem right rightMem ?_ ?_)
  · rw [isLeft]; nofun
  · rw [isLeft, isRight]

theorem not_tombstoned {clientId : String} (free : store.tombstoned clientId = false) :
    ∀ tombstone ∈ store.tombstones, tombstone.clientId ≠ clientId := by
  simpa [Store.tombstoned] using free

theorem not_held {clientId : String} (free : store.holds clientId = false) :
    ∀ row ∈ store.rows, row.clientId ≠ some clientId := by
  simpa [Store.holds] using free

theorem insert_valid (valid : store.Valid) (row : Int → Annotation)
    (named : (row (store.sequence + 1)).id = store.sequence + 1)
    (free : ∀ clientId, (row (store.sequence + 1)).clientId = some clientId →
      store.tombstoned clientId = false ∧ store.holds clientId = false) :
    (store.insert row).Valid := by
  set added := row (store.sequence + 1) with isAdded
  have rows : (store.insert row).rows = store.rows ++ [added] := rfl
  have unheld (old : Annotation) (member : old ∈ store.rows) (present : added.clientId ≠ none)
      (same : added.clientId = old.clientId) : False := by
    obtain ⟨clientId, isClient⟩ := Option.ne_none_iff_exists'.mp present
    exact not_held (free clientId isClient).2 old member (same ▸ isClient)
  have positive := valid.counted
  constructor
  · change 0 ≤ store.sequence + 1
    omega
  · rw [rows, List.map_append, List.nodup_append]
    refine ⟨valid.ids, List.nodup_singleton _, ?_⟩
    intro id member other isOther same
    obtain ⟨old, oldMem, rfl⟩ := List.mem_map.mp member
    rw [List.map_singleton, List.mem_singleton, named] at isOther
    have bound := (valid.numbered old oldMem).2
    omega
  · intro other member
    rw [rows, List.mem_append, List.mem_singleton] at member
    change 0 < other.id ∧ other.id ≤ store.sequence + 1
    rcases member with old | rfl
    · have bound := valid.numbered other old
      omega
    · rw [named]
      omega
  · intro left leftMem right rightMem present same
    rw [rows, List.mem_append, List.mem_singleton] at leftMem rightMem
    rcases leftMem with leftOld | rfl
    · rcases rightMem with rightOld | rfl
      · exact valid.clientIds left leftOld right rightOld present same
      · exact (unheld left leftOld (same ▸ present) same.symm).elim
    · rcases rightMem with rightOld | rfl
      · exact (unheld right rightOld present same).elim
      · rfl
  · intro tombstone tombMem other member isClient
    rw [rows, List.mem_append, List.mem_singleton] at member
    rcases member with old | rfl
    · exact valid.deleted tombstone tombMem other old isClient
    · exact not_tombstoned (free _ isClient).1 tombstone tombMem rfl
  · exact valid.tombstoneIds

theorem insert_advances (row : Int → Annotation)
    (stamped : (row (store.sequence + 1)).updatedAt = now) :
    Advances now now store (store.insert row) where
  rows other member := by
    rcases List.mem_append.mp member with old | isNew
    · exact .inl ⟨other, old, other.same_as_refl⟩
    · rw [List.mem_singleton.mp isNew, stamped]
      exact .inr ⟨le_refl _, le_refl _⟩
  tombstones _ member := .inl member
  remembered _ member := member
  found old member _ isClient := .inl ⟨old, List.mem_append_left _ member, isClient, rfl⟩

theorem mem_update (selects : Annotation → Bool) (change : Annotation → Annotation)
    (row : Annotation) : row ∈ (store.update selects change).rows ↔
      ∃ old ∈ store.rows, (if selects old then change old else old) = row := by
  simp [Store.update]

theorem update_valid (valid : store.Valid) (selects : Annotation → Bool)
    (change : Annotation → Annotation)
    (named : ∀ row, (change row).id = row.id ∧ (change row).clientId = row.clientId) :
    (store.update selects change).Valid := by
  have same (row : Annotation) : (if selects row then change row else row).id = row.id ∧
      (if selects row then change row else row).clientId = row.clientId := by
    split
    · exact named row
    · exact ⟨rfl, rfl⟩
  constructor
  · exact valid.counted
  · have ids : (store.update selects change).rows.map (·.id) = store.rows.map (·.id) := by
      simp only [Store.update, List.map_map]
      exact List.map_congr_left fun row _ => (same row).1
    rw [ids]
    exact valid.ids
  · intro row member
    obtain ⟨old, oldMem, rfl⟩ := (mem_update _ _ _).mp member
    rw [(same old).1]
    exact valid.numbered old oldMem
  · intro left leftMem right rightMem present agreed
    obtain ⟨left, leftOld, rfl⟩ := (mem_update _ _ _).mp leftMem
    obtain ⟨right, rightOld, rfl⟩ := (mem_update _ _ _).mp rightMem
    rw [(same left).1, (same right).1]
    rw [(same left).2] at present agreed
    rw [(same right).2] at agreed
    exact valid.clientIds left leftOld right rightOld present agreed
  · intro tombstone tombMem row member
    obtain ⟨old, oldMem, rfl⟩ := (mem_update _ _ _).mp member
    rw [(same old).2]
    exact valid.deleted tombstone tombMem old oldMem
  · exact valid.tombstoneIds

theorem update_advances (selects : Annotation → Bool) (change : Annotation → Annotation)
    (named : ∀ row, (change row).bookUuid = row.bookUuid ∧ (change row).clientId = row.clientId)
    (stamped : ∀ row, (change row).updatedAt = now) :
    Advances now now store (store.update selects change) where
  rows row member := by
    obtain ⟨old, oldMem, rfl⟩ := (mem_update _ _ _).mp member
    split
    · exact .inr (by rw [stamped]; exact ⟨le_refl _, le_refl _⟩)
    · exact .inl ⟨old, oldMem, old.same_as_refl⟩
  tombstones _ member := .inl member
  remembered _ member := member
  found old member clientId isClient := by
    refine .inl ⟨_, (mem_update _ _ _).mpr ⟨old, member, rfl⟩, ?_⟩
    split
    · exact ⟨(named old).2.trans isClient, (named old).1⟩
    · exact ⟨isClient, rfl⟩

theorem mem_delete_tombstones (selects : Annotation → Bool) (tombstone : Tombstone) :
    tombstone ∈ (store.delete now selects).tombstones ↔
      (tombstone ∈ store.tombstones ∧ ∀ row ∈ store.rows, selects row = true →
        row.clientId ≠ some tombstone.clientId) ∨
      ∃ row ∈ store.rows, selects row = true ∧
        ∃ clientId, row.clientId = some clientId ∧ ⟨row.bookUuid, clientId, now⟩ = tombstone := by
  simp only [Store.delete, List.mem_append, List.mem_filter, Bool.not_eq_true', List.any_eq_false,
    List.mem_filterMap, Option.map_eq_some_iff, decide_eq_true_eq, and_assoc]
  refine or_congr_left (and_congr_right fun _ => ⟨?_, ?_⟩)
  · intro apart row rowMem selected isClient
    exact apart _ ⟨row, rowMem, selected, _, isClient, rfl⟩ rfl
  · intro apart _ ⟨row, rowMem, selected, clientId, isClient, equal⟩ same
    subst equal
    exact apart row rowMem selected (isClient.trans (congrArg some same))

theorem delete_valid (valid : store.Valid) (selects : Annotation → Bool) :
    (store.delete now selects).Valid := by
  have kept (row : Annotation) (member : row ∈ (store.delete now selects).rows) :
      row ∈ store.rows ∧ selects row = false := by
    simpa [Store.delete] using member
  constructor
  · exact valid.counted
  · exact valid.ids.sublist (List.filter_sublist.map _)
  · exact fun row member => valid.numbered row (kept row member).1
  · exact fun left leftMem right rightMem =>
      valid.clientIds left (kept left leftMem).1 right (kept right rightMem).1
  · intro tombstone tombMem row member isClient
    obtain ⟨rowMem, remains⟩ := kept row member
    rcases (mem_delete_tombstones selects tombstone).mp tombMem with
      ⟨old, _⟩ | ⟨gone, goneMem, selected, clientId, goneClient, rfl⟩
    · exact valid.deleted tombstone old row rowMem isClient
    · rw [row_of_client valid rowMem goneMem isClient goneClient, selected] at remains
      cases remains
  · intro left leftMem right rightMem same
    rcases (mem_delete_tombstones selects left).mp leftMem with
      ⟨leftOld, leftApart⟩ | ⟨row, rowMem, selected, clientId, isClient, rfl⟩
    · rcases (mem_delete_tombstones selects right).mp rightMem with
        ⟨rightOld, _⟩ | ⟨row, rowMem, selected, clientId, isClient, rfl⟩
      · exact valid.tombstoneIds left leftOld right rightOld same
      · exact absurd (isClient.trans (congrArg some same.symm)) (leftApart row rowMem selected)
    · rcases (mem_delete_tombstones selects right).mp rightMem with
        ⟨_, rightApart⟩ | ⟨other, otherMem, _, otherId, otherClient, rfl⟩
      · exact absurd (isClient.trans (congrArg some same)) (rightApart row rowMem selected)
      · change clientId = otherId at same
        subst same
        rw [row_of_client valid rowMem otherMem isClient otherClient]

theorem delete_advances (valid : store.Valid) (selects : Annotation → Bool) :
    Advances now now store (store.delete now selects) where
  rows row member := .inl ⟨row, List.mem_of_mem_filter member, row.same_as_refl⟩
  tombstones tombstone member := by
    rcases (mem_delete_tombstones selects tombstone).mp member with
      ⟨old, _⟩ | ⟨row, _, _, clientId, _, rfl⟩
    · exact .inl old
    · exact .inr ⟨le_refl _, le_refl _⟩
  remembered tombstone member := (mem_delete_tombstones selects tombstone).mpr
    (.inl ⟨member, fun row rowMem _ => valid.deleted tombstone member row rowMem⟩)
  found old member clientId isClient := by
    cases selected : selects old with
    | false => exact .inl ⟨old, by simp [Store.delete, member, selected], isClient, rfl⟩
    | true =>
        exact .inr ⟨⟨old.bookUuid, clientId, now⟩, (mem_delete_tombstones selects _).mpr
          (.inr ⟨old, member, selected, clientId, isClient, rfl⟩), rfl, rfl⟩

/-- Rows that are given a client id where they had none, a different unused one each. -/
theorem name_valid (valid : store.Valid) (selects : Annotation → Bool)
    (change : Annotation → Annotation) (minted : Int → String)
    (named : ∀ row, (change row).id = row.id)
    (drawn : ∀ row, selects row = true →
      (change row).clientId = row.clientId.or (some (minted row.id)))
    (fresh : ∀ row ∈ store.rows, selects row = true → row.clientId = none →
      store.tombstoned (minted row.id) = false ∧ store.holds (minted row.id) = false)
    (apart : ∀ left ∈ store.rows, ∀ right ∈ store.rows, selects left = true →
      selects right = true → minted left.id = minted right.id → left.id = right.id) :
    (store.update selects change).Valid := by
  have same (row : Annotation) : (if selects row then change row else row).id = row.id := by
    split
    · exact named row
    · rfl
  -- a client id is the old one, or the one drawn for the row
  have client (row : Annotation) (member : row ∈ store.rows) (clientId : String)
      (isClient : (if selects row then change row else row).clientId = some clientId) :
      row.clientId = some clientId ∨ (selects row = true ∧ minted row.id = clientId ∧
        store.tombstoned clientId = false ∧ store.holds clientId = false) := by
    split at isClient
    · rename_i selected
      rw [drawn row selected] at isClient
      cases absent : row.clientId with
      | some old =>
          rw [absent] at isClient
          exact .inl isClient
      | none =>
          rw [absent, Option.none_or, Option.some.injEq] at isClient
          subst isClient
          exact .inr ⟨selected, rfl, fresh row member selected absent⟩
    · exact .inl isClient
  constructor
  · exact valid.counted
  · have ids : (store.update selects change).rows.map (·.id) = store.rows.map (·.id) := by
      simp only [Store.update, List.map_map]
      exact List.map_congr_left fun row _ => same row
    rw [ids]
    exact valid.ids
  · intro row member
    obtain ⟨old, oldMem, rfl⟩ := (mem_update _ _ _).mp member
    rw [same old]
    exact valid.numbered old oldMem
  · intro left leftMem right rightMem present agreed
    obtain ⟨left, leftOld, rfl⟩ := (mem_update _ _ _).mp leftMem
    obtain ⟨right, rightOld, rfl⟩ := (mem_update _ _ _).mp rightMem
    obtain ⟨clientId, isLeft⟩ := Option.ne_none_iff_exists'.mp present
    rw [same left, same right]
    rcases client left leftOld clientId isLeft with leftClient | ⟨selected, isDrawn, _, unheld⟩
    · rcases client right rightOld clientId (agreed ▸ isLeft) with rightClient | ⟨_, _, _, unheld⟩
      · exact congrArg Annotation.id (row_of_client valid leftOld rightOld leftClient rightClient)
      · exact absurd leftClient (not_held unheld left leftOld)
    · rcases client right rightOld clientId (agreed ▸ isLeft) with
        rightClient | ⟨selected', isDrawn', _, _⟩
      · exact absurd rightClient (not_held unheld right rightOld)
      · exact apart left leftOld right rightOld selected selected' (isDrawn.trans isDrawn'.symm)
  · intro tombstone tombMem row member isClient
    obtain ⟨old, oldMem, rfl⟩ := (mem_update _ _ _).mp member
    rcases client old oldMem _ isClient with oldClient | ⟨_, _, free, _⟩
    · exact valid.deleted tombstone tombMem old oldMem oldClient
    · exact not_tombstoned free tombstone tombMem rfl
  · exact valid.tombstoneIds

theorem name_advances (since upto : Int) (selects : Annotation → Bool)
    (change : Annotation → Annotation)
    (same : ∀ row ∈ store.rows, selects row = true → (change row).sameAs row = true) :
    Advances since upto store (store.update selects change) where
  rows row member := by
    obtain ⟨old, oldMem, rfl⟩ := (mem_update _ _ _).mp member
    refine .inl ⟨old, oldMem, ?_⟩
    split
    · rename_i selected
      exact same old oldMem selected
    · exact old.same_as_refl
  tombstones _ member := .inl member
  remembered _ member := member
  found old member clientId isClient := by
    refine .inl ⟨_, (mem_update _ _ _).mpr ⟨old, member, rfl⟩, ?_⟩
    split
    · rename_i selected
      obtain ⟨⟨_, book, _⟩, client⟩ := Annotation.same_as_iff _ _ |>.mp (same old member selected)
      rcases client with kept | absent
      · exact ⟨kept.trans isClient, book⟩
      · rw [absent] at isClient
        cases isClient
    · exact ⟨isClient, rfl⟩

end Operations

theorem inserted_advances (valid : store.Valid) (row : Int → Annotation)
    (named : (row (store.sequence + 1)).id = store.sequence + 1)
    (stamped : (row (store.sequence + 1)).updatedAt = now)
    (free : ∀ clientId, (row (store.sequence + 1)).clientId = some clientId →
      store.tombstoned clientId = false ∧ store.holds clientId = false) :
    (store.insert row).Valid ∧ Advances now now store (store.insert row) :=
  ⟨insert_valid valid row named free, insert_advances row stamped⟩

theorem rewritten_advances (valid : store.Valid) (selects : Annotation → Bool)
    (change : Annotation → Annotation)
    (named : ∀ row, (change row).id = row.id ∧ (change row).clientId = row.clientId)
    (book : ∀ row, (change row).bookUuid = row.bookUuid)
    (stamped : ∀ row, (change row).updatedAt = now) :
    (store.update selects change).Valid ∧ Advances now now store (store.update selects change) :=
  ⟨update_valid valid selects change named,
    update_advances selects change (fun row => ⟨book row, (named row).2⟩) stamped⟩

/-- An upsert by client id: nothing over a tombstone, else a rewriting or a first row. -/
theorem upserted_advances (valid : store.Valid) (clientId : String)
    (selects : Annotation → Bool) (change : Annotation → Annotation) (row : Int → Annotation)
    (kept : ∀ old, (change old).id = old.id ∧ (change old).clientId = old.clientId)
    (book : ∀ old, (change old).bookUuid = old.bookUuid)
    (restamped : ∀ old, (change old).updatedAt = now)
    (named : (row (store.sequence + 1)).id = store.sequence + 1)
    (stamped : (row (store.sequence + 1)).updatedAt = now)
    (isClient : (row (store.sequence + 1)).clientId = some clientId) :
    let upserted := if store.tombstoned clientId then store
      else if store.holds clientId then store.update selects change else store.insert row
    upserted.Valid ∧ Advances now now store upserted := by
  dsimp only
  split
  · exact ⟨valid, Advances.refl _ _ _⟩
  · rename_i live
    split
    · exact rewritten_advances valid selects change kept book restamped
    · rename_i free
      refine inserted_advances valid row named stamped fun other isOther => ?_
      rw [isClient, Option.some.injEq] at isOther
      rw [← isOther]
      exact ⟨by simpa using live, by simpa using free⟩

theorem write_advances (valid : store.Valid) (write : Write)
    (ran : write.run now store = some next) : next.Valid ∧ Advances now now store next := by
  have unchanged : store.Valid ∧ Advances now now store store := ⟨valid, Advances.refl _ _ _⟩
  cases write with
  | createHighlight input =>
      cases ran
      unfold Store.createHighlight
      split
      · exact unchanged
      · rename_i live
        split
        · exact unchanged
        · rename_i free
          apply inserted_advances valid _ rfl rfl
          intro clientId isClient
          change input.clientId = some clientId at isClient
          rw [isClient] at live free
          exact ⟨by simpa using live, by simpa using free⟩
  | updateHighlightColor id color =>
      cases ran
      exact rewritten_advances valid _ _ (fun _ => ⟨rfl, rfl⟩) (fun _ => rfl) fun _ => rfl
  | updateHighlightNote id note =>
      cases ran
      exact rewritten_advances valid _ _ (fun _ => ⟨rfl, rfl⟩) (fun _ => rfl) fun _ => rfl
  | deleteHighlight id =>
      cases ran
      exact ⟨delete_valid valid _, delete_advances valid _⟩
  | deleteWithTombstones book clientId =>
      cases ran
      exact ⟨delete_valid valid _, delete_advances valid _⟩
  | upsertKoreaderAnnotation book highlight =>
      cases ran
      exact upserted_advances valid highlight.clientId _ _ _ (fun _ => ⟨rfl, rfl⟩) (fun _ => rfl)
        (fun _ => rfl) rfl rfl rfl
  | upsertKoboAnnotation book highlight =>
      cases ran
      exact upserted_advances valid highlight.clientId _ _ _ (fun _ => ⟨rfl, rfl⟩) (fun _ => rfl)
        (fun _ => rfl) rfl rfl rfl
  | backfillCfi id location cfi =>
      cases ran
      exact rewritten_advances valid _ _ (fun _ => ⟨rfl, rfl⟩) (fun _ => rfl) fun _ => rfl
  | applyDerivedLocation id snapshotCfi location minted =>
      simp only [Write.run] at ran
      split at ran
      · rename_i free
        cases ran
        have free : store.tombstoned minted = false ∧ store.holds minted = false := by
          simpa [Store.unused] using free
        refine ⟨name_valid valid _ _ (fun _ => minted) (fun _ => rfl) (fun _ _ => rfl)
          (fun _ _ _ _ => free) ?_, name_advances now now _ _ ?_⟩
        · intro left _ right _ leftIs rightIs _
          simp only [Bool.and_eq_true, decide_eq_true_eq] at leftIs rightIs
          rw [leftIs.1.1, rightIs.1.1]
        · intro row _ _
          apply Annotation.same_as_iff _ _ |>.mpr
          refine ⟨⟨rfl, rfl, rfl, rfl, rfl, rfl, rfl, rfl⟩, ?_⟩
          cases row.clientId with
          | none => exact .inr rfl
          | some _ => exact .inl rfl
      · cases ran

end Omnibus.Annotations
