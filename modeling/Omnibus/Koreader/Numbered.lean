import Omnibus.Koreader.Highlights

/-!
# The ids of the highlights

Every highlight leaves the numbering with an id of its own, and the table by id names its slot.
The rest of a sync's opening changes no id and nothing of a highlight but its stamp.
-/

namespace Omnibus.Koreader

open Omnibus.Library.Strings

def idAt (items : Items) (slot : Nat) : Option Text := (held items slot).bind (·.omnibusId)

def DistinctIds (items : Items) : Prop :=
  ∀ slot other id, idAt items slot = some id → idAt items other = some id → slot = other

/-- `new_id` never mints the same id twice, nor one that is in use. -/
structure Mints (items : Items) (agreed : Table Agreed) (newId : Nat → Text) : Prop where
  once : ∀ first second, newId first = newId second → first = second
  unused : ∀ call slot, idAt items slot ≠ some (newId call)
  unagreed : ∀ call, newId call ∉ agreed

def Indexed (items : Items) (list : List Nat) (byId : Table Nat) : Prop :=
  ∀ slot ∈ list, ∀ id, idAt items slot = some id → byId.lookup id = some slot

theorem indexed_fold_sound (items : Items) (list : List Nat) (byId : Table Nat)
    (sound : ∀ id slot, byId.lookup id = some slot → idAt items slot = some id) (id : Text)
    (slot : Nat)
    (named : (list.foldl (enter items) byId).lookup id = some slot) : idAt items slot = some id := by
  induction list generalizing byId with
  | nil => exact sound id slot named
  | cons first rest induction =>
      refine induction _ ?_ named
      intro other place found
      rw [enter] at found
      cases here : (held items first).bind (·.omnibusId) with
      | none =>
          rw [here] at found
          exact sound other place found
      | some mark =>
          simp only [here] at found
          by_cases same : other = mark
          · subst same
            rw [AList.lookup_insert, Option.some.injEq] at found
            subst found
            exact here
          · rw [AList.lookup_insert_ne same] at found
            exact sound other place found

theorem indexed_fold_complete (items : Items) (list : List Nat) (byId : Table Nat) (id : Text)
    (known : (byId.lookup id).isSome ∨ ∃ slot ∈ list, idAt items slot = some id) :
    ((list.foldl (enter items) byId).lookup id).isSome := by
  induction list generalizing byId with
  | nil => simpa using known
  | cons first rest induction =>
      apply induction _
      obtain found | ⟨slot, place, marked⟩ := known
      · left
        rw [enter]
        split
        · rename_i mark _
          by_cases same : id = mark
          · rw [same, AList.lookup_insert]
            rfl
          · rwa [AList.lookup_insert_ne same]
        · exact found
      · obtain rfl | later := List.mem_cons.mp place
        · left
          have here : (held items slot).bind (·.omnibusId) = some id := marked
          simp [enter, here, AList.lookup_insert]
        · exact Or.inr ⟨slot, later, marked⟩

theorem indexed_sound (items : Items) (list : List Nat) (id : Text) (slot : Nat)
    (named : (indexed items list).lookup id = some slot) : idAt items slot = some id :=
  indexed_fold_sound items list ∅ (by simp [AList.lookup_empty]) id slot named

theorem indexed_named (items : Items) (list : List Nat) (distinct : DistinctIds items) :
    Indexed items list (indexed items list) := by
  intro slot place id marked
  have found := indexed_fold_complete items list ∅ id (Or.inr ⟨slot, place, marked⟩)
  obtain ⟨other, named⟩ := Option.isSome_iff_exists.mp found
  have same := distinct other slot id (indexed_sound items list id other named) marked
  rw [← same]
  exact named

theorem agreed_id_at_free (item : Item) (agreed : Table Agreed) (claimed : Table Nat) (id : Text)
    (found : agreedIdAt item agreed claimed = some id) :
    claimed.lookup id = none ∧ id ∈ agreed := by
  have general : ∀ (entries : List (Sigma fun _ : Text => Agreed)) (start : Option Text),
      entries ⊆ agreed.entries →
      (∀ id, start = some id → claimed.lookup id = none ∧ id ∈ agreed) →
      ∀ id, entries.foldl (weighPlace item claimed) start = some id →
        claimed.lookup id = none ∧ id ∈ agreed := by
    intro entries
    induction entries with
    | nil => exact fun start _ free => free
    | cons entry rest induction =>
        intro start within free
        have member : entry.1 ∈ agreed :=
          List.mem_map_of_mem (f := Sigma.fst) (within List.mem_cons_self)
        apply induction _ (fun _ later => within (List.mem_cons_of_mem _ later))
        intro id chosen
        rw [weighPlace] at chosen
        split at chosen
        · rename_i eligible
          have unclaimed := Option.isNone_iff_eq_none.mp eligible.1
          cases start with
          | none =>
              simp only [smaller, Option.some.injEq] at chosen
              subst chosen
              exact ⟨unclaimed, member⟩
          | some best =>
              simp only [smaller] at chosen
              split at chosen
              · simp only [Option.some.injEq] at chosen
                subst chosen
                exact ⟨unclaimed, member⟩
              · exact free id chosen
        · exact free id chosen
  exact general agreed.entries none (fun _ present => present) (by simp) id found

/-- What the numbering keeps: every id names its slot, and comes from the document, from what
was agreed or from a call of `new_id` made so far. -/
structure Numbers (items : Items) (list : List Nat) (agreed : Table Agreed)
    (newId : Nat → Text) (state : Numbering) : Prop where
  named : Indexed state.items list state.byId
  sound : ∀ id slot, state.byId.lookup id = some slot → idAt state.items slot = some id
  origin : ∀ id ∈ state.byId,
    (∃ slot, idAt items slot = some id) ∨ id ∈ agreed ∨ ∃ call < state.calls, id = newId call

theorem id_at_change (items : Items) (slot other : Nat) (id : Text) :
    idAt (change items slot fun item => { item with omnibusId := some id }) other =
      if slot = other then (held items slot).map fun _ => id else idAt items other := by
  split
  · rename_i same
    subst same
    rw [idAt, held_change_self]
    cases held items slot <;> rfl
  · rename_i apart
    rw [idAt, held_change_ne _ _ _ _ apart, idAt]

theorem number_step (items : Items) (list : List Nat) (agreed : Table Agreed)
    (newId : Nat → Text) (mints : Mints items agreed newId) (state : Numbering) (slot : Nat)
    (numbers : Numbers items list agreed newId state) :
    Numbers items list agreed newId (number agreed newId state slot) := by
  rw [number]
  split
  · exact numbers
  · rename_i item holds
    split
    · exact numbers
    · let found := agreedIdAt item agreed state.byId
      have fresh : state.byId.lookup (found.getD (newId state.calls)) = none := by
        cases chosen : found with
        | some id => exact (agreed_id_at_free item agreed state.byId id chosen).1
        | none =>
            apply AList.lookup_eq_none.mpr
            intro used
            obtain ⟨slot, marked⟩ | known | ⟨call, earlier, same⟩ := numbers.origin _ used
            · exact mints.unused state.calls slot marked
            · exact mints.unagreed state.calls known
            · exact absurd (mints.once _ _ same) (Nat.ne_of_gt earlier)
      constructor
      · intro other among id marked
        rw [id_at_change] at marked
        split at marked
        · rename_i same
          subst same
          rw [holds, Option.map_some, Option.some.injEq] at marked
          rw [← marked]
          exact AList.lookup_insert state.byId
        · have kept := numbers.named other among id marked
          have apart : id ≠ found.getD (newId state.calls) := by
            intro same
            rw [← same, kept] at fresh
            exact absurd fresh (by simp)
          exact (AList.lookup_insert_ne apart).trans kept
      · intro id other naming
        rw [id_at_change]
        by_cases same : id = found.getD (newId state.calls)
        · have here : slot = other := by
            rw [same] at naming
            exact Option.some.inj ((AList.lookup_insert state.byId).symm.trans naming)
          rw [if_pos here, holds, same]
          rfl
        · have earlier := numbers.sound id other ((AList.lookup_insert_ne same).symm.trans naming)
          have apart : slot ≠ other := by
            intro equal
            subst equal
            rw [idAt, holds, Option.bind_some] at earlier
            simp_all
          rw [if_neg apart, earlier]
      · intro id used
        obtain same | earlier := (AList.mem_insert state.byId).mp used
        · cases chosen : found with
          | some free =>
              have member := (agreed_id_at_free item agreed state.byId free chosen).2
              simp only [found] at chosen
              rw [same, chosen]
              exact Or.inr (Or.inl member)
          | none =>
              simp only [found] at chosen
              rw [same]
              simp only [chosen, Option.getD_none, Option.isSome_none, Bool.false_eq_true, if_false]
              exact Or.inr (Or.inr ⟨state.calls, Nat.lt_succ_self _, rfl⟩)
        · obtain marked | known | ⟨call, before, same⟩ := numbers.origin id earlier
          · exact Or.inl marked
          · exact Or.inr (Or.inl known)
          · refine Or.inr (Or.inr ⟨call, ?_, same⟩)
            dsimp only
            split <;> omega

theorem numbers_fold (items : Items) (list : List Nat) (agreed : Table Agreed)
    (newId : Nat → Text) (mints : Mints items agreed newId) (slots : List Nat)
    (state : Numbering) (numbers : Numbers items list agreed newId state) :
    Numbers items list agreed newId (slots.foldl (number agreed newId) state) := by
  induction slots generalizing state with
  | nil => exact numbers
  | cons slot rest induction =>
      exact induction _ (number_step items list agreed newId mints state slot numbers)

theorem numbered_numbers (items : Items) (agreed : Table Agreed) (newId : Nat → Text)
    (distinct : DistinctIds items) (mints : Mints items agreed newId) :
    Numbers items (highlights items) agreed newId (numberedHighlights items agreed newId) := by
  refine numbers_fold items _ agreed newId mints (highlights items) _ ⟨?_, ?_, ?_⟩
  · exact indexed_named items (highlights items) distinct
  · exact indexed_sound items (highlights items)
  · intro id used
    obtain ⟨slot, named⟩ := Option.isSome_iff_exists.mp (AList.lookup_isSome.mpr used)
    exact Or.inl ⟨slot, indexed_sound items _ id slot named⟩

theorem number_held (agreed : Table Agreed) (newId : Nat → Text) (state : Numbering)
    (first slot : Nat) (item : Item) (id : Text) (holds : held state.items slot = some item)
    (marked : item.omnibusId = some id) :
    held (number agreed newId state first).items slot = some item := by
  rw [number]
  split
  · exact holds
  · rename_i other found
    split
    · exact holds
    · rename_i unmarked
      have apart : first ≠ slot := by
        intro equal
        subst equal
        rw [holds, Option.some.injEq] at found
        rw [← found, marked] at unmarked
        exact absurd unmarked (by simp)
      exact (held_change_ne _ _ _ _ apart).trans holds

theorem numbered_held (items : Items) (agreed : Table Agreed) (newId : Nat → Text) (slot : Nat)
    (item : Item) (id : Text) (holds : held items slot = some item)
    (marked : item.omnibusId = some id) :
    held (numberedHighlights items agreed newId).items slot = some item := by
  have fold : ∀ (slots : List Nat) (state : Numbering), held state.items slot = some item →
      held (slots.foldl (number agreed newId) state).items slot = some item := by
    intro slots
    induction slots with
    | nil => exact fun _ found => found
    | cons first rest induction =>
        intro state found
        exact induction _ (number_held agreed newId state first slot item id found marked)
  exact fold (highlights items) _ holds

theorem stamp_edits_held (items : Items) (list : List Nat) (agreed : Table Agreed)
    (now : Nat → Int) (slot : Nat) :
    ∃ restamp : Item → Item,
      (∀ item, ∃ seen, restamp item = { item with omnibusEditedAt := seen }) ∧
        held (stampEdits items list agreed now) slot = (held items slot).map restamp := by
  rw [stampEdits]
  induction list generalizing items with
  | nil => exact ⟨id, fun item => ⟨item.omnibusEditedAt, rfl⟩, by simp⟩
  | cons first rest induction =>
      obtain ⟨later, only, found⟩ := induction (change items first (stampEdit agreed now first))
      by_cases same : first = slot
      · subst same
        refine ⟨later ∘ stampEdit agreed now first, ?_, ?_⟩
        · intro item
          obtain ⟨seen, restamped⟩ := only (stampEdit agreed now first item)
          refine ⟨seen, restamped.trans ?_⟩
          rw [stampEdit]
          split <;> rfl
        · rw [List.foldl_cons, found, held_change_self, Option.map_map]
      · refine ⟨later, only, ?_⟩
        rw [List.foldl_cons, found, held_change_ne _ _ _ _ same]

theorem stamp_edits_id (items : Items) (list : List Nat) (agreed : Table Agreed)
    (now : Nat → Int) (slot : Nat) :
    idAt (stampEdits items list agreed now) slot = idAt items slot := by
  obtain ⟨restamp, only, found⟩ := stamp_edits_held items list agreed now slot
  rw [idAt, idAt, found]
  cases held items slot with
  | none => rfl
  | some item =>
      obtain ⟨seen, restamped⟩ := only item
      simp [restamped]

theorem mem_highlights (items : Items) (slot : Nat) :
    slot ∈ highlights items ↔ (held items slot).any isHighlight = true := by
  simp only [highlights, List.mem_filter, List.mem_range, and_iff_right_iff_imp]
  intro highlight
  cases holds : held items slot with
  | none => simp [holds] at highlight
  | some item => exact (List.getElem?_eq_some_iff.mp (Option.join_eq_some_iff.mp holds)).1

theorem change_highlight (items : Items) (slot other : Nat) (edit : Item → Item)
    (keeps : ∀ item, isHighlight (edit item) = isHighlight item) :
    (held (change items slot edit) other).any isHighlight =
      (held items other).any isHighlight := by
  by_cases same : slot = other
  · subst same
    rw [held_change_self]
    cases held items slot with
    | none => rfl
    | some item => exact keeps item
  · rw [held_change_ne _ _ _ _ same]

/-- The opening of a sync makes no entry a highlight and no highlight anything else. -/
theorem opening_highlight (items : Items) (agreed : Table Agreed) (cursor : Option Text)
    (deps : Deps) (slot : Nat) :
    (held (opening items agreed cursor deps).state.items slot).any isHighlight =
      (held items slot).any isHighlight := by
  have numbering : ∀ (slots : List Nat) (state : Numbering),
      (held (slots.foldl (number agreed deps.newId) state).items slot).any isHighlight =
        (held state.items slot).any isHighlight := by
    intro slots
    induction slots with
    | nil => exact fun _ => rfl
    | cons first rest induction =>
        intro state
        rw [List.foldl_cons, induction, number]
        split
        · rfl
        · split
          · rfl
          · exact change_highlight _ _ _ _ fun _ => rfl
  have stamping : ∀ (slots : List Nat) (start : Items),
      (held (stampEdits start slots agreed deps.now) slot).any isHighlight =
        (held start slot).any isHighlight := by
    intro slots
    induction slots with
    | nil => exact fun _ => rfl
    | cons first rest induction =>
        intro start
        refine (induction _).trans (change_highlight _ _ _ _ fun item => ?_)
        rw [stampEdit]
        split <;> rfl
  exact (stamping _ _).trans (numbering _ _)

theorem opening_held (items : Items) (agreed : Table Agreed) (cursor : Option Text)
    (deps : Deps) (slot : Nat) (item : Item) (id : Text) (holds : held items slot = some item)
    (marked : item.omnibusId = some id) :
    ∃ seen, held (opening items agreed cursor deps).state.items slot =
      some { item with omnibusEditedAt := seen } := by
  obtain ⟨restamp, only, found⟩ := stamp_edits_held
    (numberedHighlights items agreed deps.newId).items (highlights items) agreed deps.now slot
  obtain ⟨seen, restamped⟩ := only item
  refine ⟨seen, found.trans ?_⟩
  rw [numbered_held items agreed deps.newId slot item id holds marked, Option.map_some, restamped]

theorem mem_upserts (items : Items) (list : List Nat) (agreed : Table Agreed)
    (parseDatetime : Text → Option Int) (up : Upsert) :
    up ∈ upserts items list agreed parseDatetime ↔
      ∃ slot ∈ list, ∃ item id, held items slot = some item ∧ item.omnibusId = some id ∧
        differs agreed id (fingerprint item) = true ∧
          up = ⟨id, fingerprint item, slot, sentAs parseDatetime id item (agreed.lookup id)⟩ := by
  simp only [upserts, List.mem_filterMap, upsertAt, Option.bind_eq_some_iff,
    Option.ite_none_right_eq_some, Option.some.injEq]
  constructor
  · intro ⟨slot, place, item, holds, id, marked, edited, equal⟩
    subst equal
    exact ⟨slot, place, item, id, holds, marked, edited, rfl⟩
  · intro ⟨slot, place, item, id, holds, marked, edited, equal⟩
    subst equal
    exact ⟨slot, place, item, holds, id, marked, edited, rfl⟩

theorem forget_lookup (agreed : Table Agreed) (ids : List Text) (id : Text) (kept : id ∉ ids) :
    (forget agreed ids).lookup id = agreed.lookup id := by
  rw [forget]
  induction ids generalizing agreed with
  | nil => rfl
  | cons first rest induction =>
      have apart : id ≠ first := fun same => kept (same ▸ List.mem_cons_self)
      have later : id ∉ rest := List.not_mem_of_not_mem_cons kept
      rw [List.foldl_cons, induction _ later, AList.lookup_erase_ne apart]

theorem departed_unnamed (byId : Table Nat) (agreed : Table Agreed) (localOnly : Bool) (id : Text)
    (gone : id ∈ departed byId agreed localOnly) : byId.lookup id = none := by
  simp only [departed, List.mem_map, List.mem_filter, decide_eq_true_eq,
    Option.isNone_iff_eq_none] at gone
  obtain ⟨entry, ⟨-, unnamed, -⟩, rfl⟩ := gone
  exact unnamed

end Omnibus.Koreader
