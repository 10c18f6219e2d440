import Omnibus.Koreader.Numbered

/-!
# An edit the push did not land

A highlight that differs from what was agreed and whose push was not answered. The pull of the
same run compares a listed version with the agreement alone, never with the time of the edit.
-/

namespace Omnibus.Koreader

open Omnibus.Library.Strings

/-- The highlight of a slot as the push finds it, with the id it is pushed under: it differs
from the entry agreed on. -/
structure Edited (start : Opening) (agreed : Table Agreed) (slot : Nat) (item : Item)
    (id : Text) : Prop where
  holds : held start.state.items slot = some item
  highlight : isHighlight item = true
  marked : item.omnibusId = some id
  differs : differs agreed id (fingerprint item) = true

/-- No settled request carried a verdict on the slot's upsert. -/
def Unanswered (state : Sync) (slot : Nat) : Prop :=
  ∀ batch ∈ state.settled, ∀ up ∈ batch.1, up.slot = slot →
    ∀ answer, answerFor batch.2 up.id = some answer → answer.outcome = .other

def DeletesId (state : Sync) (id : Text) : Prop := ∃ page ∈ state.pages, id ∈ deletedIds page

def listed (pages : List Listing) : List Wire :=
  pages.flatMap fun page => page.annotations.getD []

def ListsNewer (state : Sync) (id : Text) (item : Item) : Prop :=
  ∃ wire ∈ listed state.pages, ∃ updatedAt, wire.id = some id ∧ wire.updatedAt = some updatedAt ∧
    ∀ edited, item.omnibusEditedAt = some edited → edited ≤ updatedAt

structure SameHighlight (before after : Item) : Prop where
  note : after.note = before.note
  text : after.text = before.text
  color : after.color = before.color
  pos0 : after.pos0 = before.pos0
  pos1 : after.pos1 = before.pos1

/-- The edit is still on the device, and the next sync pushes it. -/
def KeepsEdit (state : Sync) (slot : Nat) (item : Item) : Prop :=
  (∃ after, held state.items slot = some after ∧ SameHighlight item after) ∧
    ∀ next : Deps, ∃ up ∈ (opening state.items state.agreed state.cursor next).ups, up.slot = slot

/-- Every version of the id is older than the agreement or what it was made on. -/
def NoNews (wires : List Wire) (id : Text) (entry : Option Agreed) : Prop :=
  ∀ wire ∈ wires, ∀ updatedAt, wire.id = some id → wire.updatedAt = some updatedAt →
    ∀ known, entry = some known → newerOnServer known wire updatedAt = false

/-- A relation of states that every settled request keeps holds over a whole push. -/
theorem push_rule (relates : Sync → Sync → Prop) (reflexive : ∀ state, relates state state)
    (transitive : ∀ first middle last, relates first middle → relates middle last →
      relates first last)
    (allUps : List Upsert) (allDels : List Text)
    (step : ∀ state sent results gone, sent ⊆ allUps → gone ⊆ allDels →
      relates state (settleBatch sent results gone state))
    (deps : Deps) (maxItems : ℕ+) (upsertAlone : Bool) (call : Nat) (refused : List Text)
    (ups : List Upsert) (dels : List Text) (state : Sync) (someUps : ups ⊆ allUps)
    (someDels : dels ⊆ allDels) :
    relates state (push deps maxItems upsertAlone call refused ups dels state).state := by
  fun_induction push deps maxItems upsertAlone call refused ups dels state with
  | case1 | case5 | case6 | case7 | case8 => exact reflexive _
  | case2 _ _ _ _ _ _ _ _ _ _ _ _ induction => exact induction someUps someDels
  | case3 _ _ _ _ _ _ _ _ _ _ _ _ _ induction => exact induction someUps someDels
  | case4 _ _ _ _ _ _ _ _ _ _ _ _ _ _ _ induction =>
      exact induction (fun _ left => someUps (List.mem_of_mem_drop left))
        (fun _ left => someDels (List.mem_of_mem_drop left))
  | case9 maxItems upsertAlone call refused ups dels state _ sent gone _ _ _ _ _
      results _ _ _ induction =>
      have fewer : sent ⊆ allUps := fun _ member =>
        someUps ((take_upserts_initial deps.encoded ups maxItems).subset member)
      have some' : gone ⊆ allDels := by
        intro id member
        cases upsertAlone with
        | true => simp [gone, takeDeletes] at member
        | false => exact someDels (List.mem_of_mem_take member)
      exact transitive _ _ _ (step state sent (results.answers.getD []) gone fewer some')
        (induction (fun _ left => someUps (List.mem_of_mem_drop left))
          (fun _ left => someDels (List.mem_of_mem_drop left)))

/-- The device's highlight of an id, in its slot, and what is agreed on for it. -/
structure Untouched (state : Sync) (slot : Nat) (item : Item) (id : Text)
    (entry : Option Agreed) : Prop where
  holds : held state.items slot = some item
  named : state.byId.lookup id = some slot
  alone : ∀ other, state.byId.lookup other = some slot → other = id
  agreed : state.agreed.lookup id = entry

theorem erased_alone (byId : Table Nat) (gone : Text) (slot : Nat) (id : Text)
    (alone : ∀ other, byId.lookup other = some slot → other = id) :
    ∀ other, (byId.erase gone).lookup other = some slot → other = id := by
  intro other naming
  by_cases same : other = gone
  · rw [same, AList.lookup_erase] at naming
    exact absurd naming (by simp)
  · exact alone other ((AList.lookup_erase_ne same).symm.trans naming)

theorem settle_upsert_records (results : List Answer) (state : Sync) (up : Upsert) :
    (settleUpsert results state up).settled = state.settled ∧
      (settleUpsert results state up).pages = state.pages := by
  rw [settleUpsert]
  split <;> exact ⟨rfl, rfl⟩

theorem settle_upsert_other (results : List Answer) (state : Sync) (up : Upsert) (slot : Nat)
    (item : Item) (id : Text) (entry : Option Agreed) (otherSlot : up.slot ≠ slot)
    (otherId : up.id ≠ id) (untouched : Untouched state slot item id entry) :
    Untouched (settleUpsert results state up) slot item id entry := by
  obtain ⟨holds, named, alone, agreed⟩ := untouched
  rw [settleUpsert]
  split
  case h_2 =>
    exact ⟨(held_change_ne _ _ _ _ otherSlot).trans holds, named, alone,
      (AList.lookup_insert_ne otherId.symm).trans agreed⟩
  case h_4 =>
    exact ⟨(held_remove_ne _ _ _ otherSlot).trans holds,
      (AList.lookup_erase_ne otherId.symm).trans named, erased_alone state.byId up.id slot id alone,
      (AList.lookup_erase_ne otherId.symm).trans agreed⟩
  case h_6 => exact ⟨holds, named, alone, agreed⟩
  all_goals exact ⟨holds, named, alone, (AList.lookup_insert_ne otherId.symm).trans agreed⟩

theorem settle_upsert_unanswered (results : List Answer) (state : Sync) (up : Upsert)
    (none' : ∀ answer, answerFor results up.id = some answer → answer.outcome = .other) :
    settleUpsert results state up = state := by
  rw [settleUpsert]
  split
  case h_6 => rfl
  all_goals exact absurd (none' _ (by assumption)) (by simp)

theorem settle_fold_untouched (results : List Answer) (sent : List Upsert) (state : Sync)
    (slot : Nat) (item : Item) (id : Text) (entry : Option Agreed)
    (own : ∀ up ∈ sent, up.id = id → up.slot = slot)
    (none' : ∀ up ∈ sent, up.slot = slot →
      ∀ answer, answerFor results up.id = some answer → answer.outcome = .other)
    (untouched : Untouched state slot item id entry) :
    Untouched (sent.foldl (settleUpsert results) state) slot item id entry := by
  induction sent generalizing state with
  | nil => exact untouched
  | cons up rest induction =>
      refine induction _ (fun other later => own other (List.mem_cons_of_mem _ later))
        (fun other later => none' other (List.mem_cons_of_mem _ later)) ?_
      by_cases same : up.slot = slot
      · rw [settle_upsert_unanswered results state up (none' up List.mem_cons_self same)]
        exact untouched
      · exact settle_upsert_other results state up slot item id entry same
          (fun shared => same (own up List.mem_cons_self shared)) untouched

theorem settle_fold_records (results : List Answer) (sent : List Upsert) (state : Sync) :
    (sent.foldl (settleUpsert results) state).settled = state.settled ∧
      (sent.foldl (settleUpsert results) state).pages = state.pages := by
  induction sent generalizing state with
  | nil => exact ⟨rfl, rfl⟩
  | cons up rest induction =>
      obtain ⟨settled, pages⟩ := settle_upsert_records results state up
      obtain ⟨later, laterPages⟩ := induction (settleUpsert results state up)
      exact ⟨later.trans settled, laterPages.trans pages⟩

/-- What a push does to a highlight whose upsert nobody answers. -/
structure Passes (slot : Nat) (item : Item) (id : Text) (entry : Option Agreed)
    (state pushed : Sync) : Prop where
  settled : state.settled ⊆ pushed.settled
  pages : pushed.pages = state.pages
  untouched : Unanswered pushed slot → Untouched state slot item id entry →
    Untouched pushed slot item id entry

theorem settle_batch_passes (slot : Nat) (item : Item) (id : Text) (entry : Option Agreed)
    (sent : List Upsert) (results : List Answer) (gone : List Text) (state : Sync)
    (own : ∀ up ∈ sent, up.id = id → up.slot = slot) (stays : id ∉ gone) :
    Passes slot item id entry state (settleBatch sent results gone state) := by
  obtain ⟨settled, pages⟩ := settle_fold_records results sent state
  constructor
  · intro batch earlier
    simp only [settleBatch, settleResults, settled]
    exact List.mem_append_left _ earlier
  · exact pages
  · intro unanswered untouched
    have here := unanswered (sent, results) (by simp [settleBatch, settleResults])
    obtain ⟨holds, named, alone, agreed⟩ :=
      settle_fold_untouched results sent state slot item id entry own here untouched
    exact ⟨holds, named, alone, (forget_lookup _ gone id stays).trans agreed⟩

theorem push_passes (slot : Nat) (item : Item) (id : Text) (entry : Option Agreed)
    (deps : Deps) (maxItems : ℕ+) (upsertAlone : Bool) (call : Nat) (refused : List Text)
    (ups : List Upsert) (dels : List Text) (state : Sync)
    (own : ∀ up ∈ ups, up.id = id → up.slot = slot) (stays : id ∉ dels) :
    Passes slot item id entry state
      (push deps maxItems upsertAlone call refused ups dels state).state := by
  refine push_rule (Passes slot item id entry) ?_ ?_ ups dels ?_ deps maxItems upsertAlone call
    refused ups dels state (fun _ present => present) (fun _ present => present)
  · exact fun state => ⟨fun _ present => present, rfl, fun _ untouched => untouched⟩
  · intro first middle last ⟨settled, pages, kept⟩ ⟨laterSettled, laterPages, laterKept⟩
    refine ⟨fun _ earlier => laterSettled (settled earlier), laterPages.trans pages, ?_⟩
    intro unanswered untouched
    exact laterKept unanswered
      (kept (fun batch earlier => unanswered batch (laterSettled earlier)) untouched)
  · intro state sent results gone fewer some'
    exact settle_batch_passes slot item id entry sent results gone state
      (fun up member => own up (fewer member)) (fun member => stays (some' member))

/-- The highlight as it is after a listed version was taken for it: the device and the agreement
say the same, so that nothing is left to push. -/
def Overwritten (state : Sync) (slot : Nat) (id : Text) : Prop :=
  ∃ item entry, Untouched state slot item id (some entry) ∧ item.omnibusId = some id ∧
    entry.fp = fingerprint item

theorem apply_wire_other (add : Wire → Option Item) (gone : List Text) (state : Sync)
    (wire : Wire) (slot : Nat) (item : Item) (id : Text) (entry : Option Agreed)
    (other : wire.id ≠ some id) (untouched : Untouched state slot item id entry) :
    Untouched (applyWire add gone state wire) slot item id entry := by
  obtain ⟨holds, named, alone, agreed⟩ := untouched
  have bound : slot < state.items.length :=
    (List.getElem?_eq_some_iff.mp (Option.join_eq_some_iff.mp holds)).1
  rw [applyWire]
  split
  · rename_i key updatedAt keyed _
    have apart : id ≠ key := fun same => other (same ▸ keyed)
    split
    · exact ⟨holds, named, alone, agreed⟩
    · split
      · split
        · exact ⟨holds, named, alone, agreed⟩
        · refine ⟨held_append _ _ _ _ holds, (AList.lookup_insert_ne apart).trans named, ?_,
            (AList.lookup_insert_ne apart).trans agreed⟩
          intro stranger naming
          by_cases same : stranger = key
          · rw [same, AList.lookup_insert, Option.some.injEq] at naming
            exact absurd naming (Nat.ne_of_gt bound)
          · exact alone stranger ((AList.lookup_insert_ne same).symm.trans naming)
      · rename_i place known naming _
        have away : place ≠ slot := fun same => apart (alone key (same ▸ naming)).symm
        split
        · exact ⟨holds, named, alone, agreed⟩
        · split
          · exact ⟨(held_change_ne _ _ _ _ away).trans holds, named, alone,
              (AList.lookup_insert_ne apart).trans agreed⟩
          · exact ⟨holds, named, alone, agreed⟩
      · exact ⟨holds, named, alone, agreed⟩
  · exact ⟨holds, named, alone, agreed⟩

theorem apply_wire_own (add : Wire → Option Item) (gone : List Text) (state : Sync)
    (wire : Wire) (updatedAt : Int) (slot : Nat) (item : Item) (id : Text)
    (entry : Option Agreed) (own : wire.id = some id) (timed : wire.updatedAt = some updatedAt)
    (stays : id ∉ gone) (untouched : Untouched state slot item id entry) :
    (Untouched (applyWire add gone state wire) slot item id entry ∧
      ∀ known, entry = some known → newerOnServer known wire updatedAt = false) ∨
    ∃ known, entry = some known ∧ newerOnServer known wire updatedAt = true ∧
      Untouched (applyWire add gone state wire) slot (takeServerVersion wire (some known) item) id
        (some (agree (fingerprint (takeServerVersion wire (some known) item))
          (takeServerVersion wire (some known) item) wire)) := by
  obtain ⟨holds, named, alone, agreed⟩ := untouched
  simp only [applyWire, own, timed, if_neg stays, named, agreed]
  cases entry with
  | none => exact Or.inl ⟨⟨holds, named, alone, agreed⟩, by simp⟩
  | some known =>
      simp only [holds]
      cases news : newerOnServer known wire updatedAt with
      | false =>
          refine Or.inl ⟨⟨holds, named, alone, agreed⟩, ?_⟩
          rintro other ⟨⟩
          exact news
      | true =>
          refine Or.inr ⟨known, rfl, news, ?_, named, alone, AList.lookup_insert _⟩
          simp only [if_true]
          rw [held_change_self, holds]
          rfl

theorem apply_wire_untimed (add : Wire → Option Item) (gone : List Text) (state : Sync)
    (wire : Wire) (untimed : wire.updatedAt = none) : applyWire add gone state wire = state := by
  rw [applyWire, untimed]
  split <;> simp_all

theorem apply_wire_overwritten (add : Wire → Option Item) (gone : List Text) (state : Sync)
    (wire : Wire) (slot : Nat) (id : Text) (stays : id ∉ gone)
    (overwritten : Overwritten state slot id) :
    Overwritten (applyWire add gone state wire) slot id := by
  obtain ⟨item, entry, untouched, marked, same⟩ := overwritten
  by_cases own : wire.id = some id
  · cases timed : wire.updatedAt with
    | none =>
        rw [apply_wire_untimed add gone state wire timed]
        exact ⟨item, entry, untouched, marked, same⟩
    | some updatedAt =>
        obtain ⟨kept, -⟩ | ⟨known, -, -, taken⟩ :=
          apply_wire_own add gone state wire updatedAt slot item id (some entry) own timed stays
            untouched
        · exact ⟨item, entry, kept, marked, same⟩
        · exact ⟨_, _, taken, marked, rfl⟩
  · exact ⟨item, entry, apply_wire_other add gone state wire slot item id _ own untouched, marked,
      same⟩

/-- The annotations of one page leave the highlight alone, or one of them is news and
overwrites it. -/
theorem apply_wires (add : Wire → Option Item) (gone : List Text) (wires : List Wire)
    (state : Sync) (slot : Nat) (item : Item) (id : Text) (entry : Option Agreed)
    (marked : item.omnibusId = some id) (stays : id ∉ gone)
    (untouched : Untouched state slot item id entry) :
    (Untouched (wires.foldl (applyWire add gone) state) slot item id entry ∧
      NoNews wires id entry) ∨
    (Overwritten (wires.foldl (applyWire add gone) state) slot id ∧ ¬NoNews wires id entry) := by
  induction wires generalizing state with
  | nil => exact Or.inl ⟨untouched, by simp [NoNews]⟩
  | cons wire rest induction =>
      rw [List.foldl_cons]
      by_cases news : ∃ updatedAt known, wire.id = some id ∧ wire.updatedAt = some updatedAt ∧
          entry = some known ∧ newerOnServer known wire updatedAt = true
      · obtain ⟨updatedAt, known, own, timed, agreed, new⟩ := news
        refine Or.inr ⟨?_, fun none' => ?_⟩
        · obtain ⟨-, quiet⟩ | ⟨_, -, -, taken⟩ :=
            apply_wire_own add gone state wire updatedAt slot item id entry own timed stays
              untouched
          · exact absurd (quiet known agreed) (by simp [new])
          · exact List.foldlRecOn rest _ ⟨_, _, taken, marked, rfl⟩ fun later lost _ _ =>
              apply_wire_overwritten add gone later _ slot id stays lost
        · exact absurd (none' wire List.mem_cons_self updatedAt own timed known agreed)
            (by simp [new])
      · have quiet : ∀ updatedAt, wire.id = some id → wire.updatedAt = some updatedAt →
            ∀ known, entry = some known → newerOnServer known wire updatedAt = false := by
          intro updatedAt own timed known agreed
          exact Bool.eq_false_iff.mpr fun new =>
            news ⟨updatedAt, known, own, timed, agreed, new⟩
        have kept : Untouched (applyWire add gone state wire) slot item id entry := by
          by_cases own : wire.id = some id
          · cases timed : wire.updatedAt with
            | none =>
                rw [apply_wire_untimed add gone state wire timed]
                exact untouched
            | some updatedAt =>
                obtain ⟨kept, -⟩ | ⟨known, agreed, new, -⟩ :=
                  apply_wire_own add gone state wire updatedAt slot item id entry own timed stays
                    untouched
                · exact kept
                · exact absurd ⟨updatedAt, known, own, timed, agreed, new⟩ news
          · exact apply_wire_other add gone state wire slot item id entry own untouched
        obtain ⟨later, none'⟩ | ⟨later, other⟩ := induction _ kept
        · exact Or.inl ⟨later, List.forall_mem_cons.mpr ⟨quiet, none'⟩⟩
        · exact Or.inr ⟨later, fun none' => other (List.forall_mem_cons.mp none').2⟩

theorem remove_gone_other (state : Sync) (gone : Text) (slot : Nat) (item : Item) (id : Text)
    (entry : Option Agreed) (other : gone ≠ id) (untouched : Untouched state slot item id entry) :
    Untouched (removeGone state gone) slot item id entry := by
  obtain ⟨holds, named, alone, agreed⟩ := untouched
  unfold removeGone
  cases naming : state.byId.lookup gone with
  | none =>
      dsimp only
      split
      · exact ⟨holds, named, alone, agreed⟩
      · exact ⟨holds, named, alone, (AList.lookup_erase_ne other.symm).trans agreed⟩
  | some place =>
      have away : place ≠ slot := fun same => other (alone gone (same ▸ naming))
      have stays := (held_remove_ne state.items place slot away).trans holds
      have stillNamed := (AList.lookup_erase_ne other.symm).trans named
      have stillAlone := erased_alone state.byId gone slot id alone
      dsimp only
      split
      · exact ⟨stays, stillNamed, stillAlone, agreed⟩
      · exact ⟨stays, stillNamed, stillAlone, (AList.lookup_erase_ne other.symm).trans agreed⟩

/-- A sync's pull so far: the highlight stands as the push left it and no page had news of it,
or a page had news and its version was taken. -/
def PulledSo (state : Sync) (slot : Nat) (item : Item) (id : Text) (entry : Option Agreed) :
    Prop :=
  (Untouched state slot item id entry ∧ NoNews (listed state.pages) id entry) ∨
    (Overwritten state slot id ∧ ¬NoNews (listed state.pages) id entry)

theorem no_news_append (first second : List Wire) (id : Text) (entry : Option Agreed) :
    NoNews (first ++ second) id entry ↔ NoNews first id entry ∧ NoNews second id entry :=
  List.forall_mem_append

def Sync.records (state : Sync) : List (List Upsert × List Answer) × List Listing :=
  (state.settled, state.pages)

theorem apply_wire_records (add : Wire → Option Item) (gone : List Text) (state : Sync)
    (wire : Wire) : (applyWire add gone state wire).records = state.records := by
  rw [applyWire]
  repeat' split
  all_goals rfl

theorem remove_gone_records (state : Sync) (gone : Text) :
    (removeGone state gone).records = state.records := by
  rw [removeGone]
  cases state.byId.lookup gone with
  | none => dsimp only; split <;> rfl
  | some slot => dsimp only; split <;> rfl

theorem apply_listing_records (add : Wire → Option Item) (annotations : List Wire)
    (listing : Listing) (state : Sync) :
    (applyListing add annotations listing state).records =
      (state.settled, state.pages ++ [listing]) := by
  have wires := List.foldlRecOn (motive := fun later => later.records = state.records)
    annotations (applyWire add (deletedIds listing)) rfl
      fun later same wire _ => (apply_wire_records add _ later wire).trans same
  have removed := List.foldlRecOn (motive := fun later => later.records = state.records)
    (deletedIds listing) removeGone wires
      fun later same id _ => (remove_gone_records later id).trans same
  obtain ⟨settled, pages⟩ := Prod.mk.inj removed
  rw [applyListing]
  split <;> simp [Sync.records, settled, pages]

theorem apply_listing_pages (add : Wire → Option Item) (annotations : List Wire)
    (listing : Listing) (state : Sync) :
    (applyListing add annotations listing state).pages = state.pages ++ [listing] :=
  congrArg Prod.snd (apply_listing_records add annotations listing state)

theorem removals_untouched (gone : List Text) (state : Sync) (slot : Nat) (item : Item)
    (id : Text) (entry : Option Agreed) (stays : id ∉ gone)
    (untouched : Untouched state slot item id entry) :
    Untouched (gone.foldl removeGone state) slot item id entry :=
  List.foldlRecOn gone removeGone untouched fun later kept other member =>
    remove_gone_other later other slot item id entry (fun same => stays (same ▸ member)) kept

theorem apply_listing_untouched (add : Wire → Option Item) (annotations : List Wire)
    (listing : Listing) (state : Sync) (slot : Nat) (item : Item) (id : Text)
    (entry : Option Agreed) (stays : id ∉ deletedIds listing)
    (untouched : Untouched (annotations.foldl (applyWire add (deletedIds listing)) state) slot item
      id entry) :
    Untouched (applyListing add annotations listing state) slot item id entry := by
  obtain ⟨holds, named, alone, agreed⟩ :=
    removals_untouched (deletedIds listing) _ slot item id entry stays untouched
  rw [applyListing]
  split <;> exact ⟨holds, named, alone, agreed⟩

theorem apply_listing_pulled (add : Wire → Option Item) (annotations : List Wire)
    (listing : Listing) (state : Sync) (slot : Nat) (item : Item) (id : Text)
    (entry : Option Agreed) (marked : item.omnibusId = some id)
    (readable : listing.annotations = some annotations) (stays : id ∉ deletedIds listing)
    (pulled : PulledSo state slot item id entry) :
    PulledSo (applyListing add annotations listing state) slot item id entry := by
  have pages : listed (applyListing add annotations listing state).pages =
      listed state.pages ++ annotations := by
    simp [apply_listing_pages, listed, readable]
  rw [PulledSo, pages, no_news_append]
  obtain ⟨untouched, earlier⟩ | ⟨overwritten, news⟩ := pulled
  · obtain ⟨kept, none'⟩ | ⟨⟨other, known, taken, own, same⟩, news⟩ :=
      apply_wires add _ annotations state slot item id entry marked stays untouched
    · exact Or.inl ⟨apply_listing_untouched add annotations listing state slot item id entry stays
        kept, earlier, none'⟩
    · exact Or.inr ⟨⟨other, known, apply_listing_untouched add annotations listing state slot other
        id _ stays taken, own, same⟩, fun both => news both.2⟩
  · obtain ⟨other, known, taken, own, same⟩ : Overwritten
        (annotations.foldl (applyWire add (deletedIds listing)) state) slot id :=
      List.foldlRecOn (motive := fun later => Overwritten later slot id) annotations _ overwritten
        fun later lost wire _ => apply_wire_overwritten add _ later wire slot id stays lost
    exact Or.inr ⟨⟨other, known, apply_listing_untouched add annotations listing state slot other
      id _ stays taken, own, same⟩, fun both => news both.1⟩

theorem pull_pages (deps : Deps) (left call : Nat) (state : Sync) :
    state.pages ⊆ (pull deps left call state).2.pages := by
  induction left generalizing call state with
  | zero => exact List.Subset.refl _
  | succ left induction =>
      rw [pull]
      split
      · exact List.Subset.refl _
      · split
        · exact List.Subset.refl _
        · rename_i listing annotations _
          have grown : state.pages ⊆
              (applyListing deps.add annotations listing state).pages := by
            rw [apply_listing_pages]
            exact List.subset_append_left _ _
          dsimp only
          split
          · exact List.Subset.trans grown (induction _ _)
          · exact grown

theorem pull_settled (deps : Deps) (left call : Nat) (state : Sync) :
    (pull deps left call state).2.settled = state.settled := by
  induction left generalizing call state with
  | zero => rfl
  | succ left induction =>
      rw [pull]
      split
      · rfl
      · split
        · rfl
        · dsimp only
          split
          · exact (induction _ _).trans (congrArg Prod.fst (apply_listing_records _ _ _ _))
          · exact congrArg Prod.fst (apply_listing_records _ _ _ _)

theorem pull_pulled (deps : Deps) (left call : Nat) (state : Sync) (slot : Nat) (item : Item)
    (id : Text) (entry : Option Agreed) (marked : item.omnibusId = some id)
    (stays : ¬DeletesId (pull deps left call state).2 id)
    (pulled : PulledSo state slot item id entry) :
    PulledSo (pull deps left call state).2 slot item id entry := by
  induction left generalizing call state with
  | zero => exact pulled
  | succ left induction =>
      rw [pull] at stays ⊢
      split
      · exact pulled
      · split
        · exact pulled
        · rename_i clear _ listing annotations read
          obtain ⟨page, found, paired⟩ := Option.bind_eq_some_iff.mp read
          obtain ⟨wires, readable, same⟩ := Option.map_eq_some_iff.mp paired
          obtain ⟨rfl, rfl⟩ := Prod.mk.inj same.symm
          have here : listing ∈ (applyListing deps.add annotations listing state).pages := by
            simp [apply_listing_pages]
          simp only [clear, read] at stays ⊢
          split
          · rename_i more
            rw [if_pos more] at stays
            apply induction _ _ stays
            refine apply_listing_pulled deps.add annotations listing state slot item id entry marked
              readable (fun gone => stays ?_) pulled
            exact ⟨listing, pull_pages deps left (call + 1) _ here, gone⟩
          · rename_i last
            rw [if_neg last] at stays
            exact apply_listing_pulled deps.add annotations listing state slot item id entry marked
              readable (fun gone => stays ⟨listing, here, gone⟩) pulled

/-- The id of an upsert names its slot, and a delete is of an id that names none. -/
theorem opening_names (items : Items) (agreed : Table Agreed) (cursor : Option Text)
    (deps : Deps) (distinct : DistinctIds items) (mints : Mints items agreed deps.newId)
    (slot : Nat) (item : Item) (id : Text)
    (edited : Edited (opening items agreed cursor deps) agreed slot item id) :
    Untouched (opening items agreed cursor deps).state slot item id (agreed.lookup id) ∧
      (∀ up ∈ (opening items agreed cursor deps).ups, up.id = id → up.slot = slot) ∧
      id ∉ (opening items agreed cursor deps).dels := by
  obtain ⟨holds, highlight, marked, -⟩ := edited
  let numbered := numberedHighlights items agreed deps.newId
  have numbers := numbered_numbers items agreed deps.newId distinct mints
  have sameId : ∀ place, idAt numbered.items place =
      idAt (opening items agreed cursor deps).state.items place :=
    fun place => (stamp_edits_id numbered.items (highlights items) agreed deps.now place).symm
  have place : slot ∈ highlights items := by
    rw [mem_highlights, ← opening_highlight items agreed cursor deps slot, holds]
    exact highlight
  have naming : numbered.byId.lookup id = some slot := by
    apply numbers.named slot place id
    rw [sameId, idAt, holds]
    exact marked
  refine ⟨⟨holds, naming, ?_, ?_⟩, ?_, ?_⟩
  · intro other shared
    have own := numbers.sound other slot shared
    rw [sameId, idAt, holds, Option.bind_some, marked, Option.some.injEq] at own
    exact own.symm
  · apply forget_lookup agreed _ id
    intro gone
    rw [departed_unnamed _ _ _ _ gone] at naming
    exact absurd naming (by simp)
  · intro up sent own
    obtain ⟨other, among, entry, key, found, keyed, -, rfl⟩ := (mem_upserts _ _ _ _ _).mp sent
    have here := (congrArg (fun found : Option Item => found.bind (·.omnibusId)) found).trans keyed
    have named := numbers.named other among key ((sameId other).trans here)
    simp only at own
    rw [own, naming, Option.some.injEq] at named
    exact named.symm
  · intro gone
    rw [departed_unnamed _ _ _ _ ((List.mem_mergeSort).mp gone)] at naming
    exact absurd naming (by simp)

/-- After a whole sync an unanswered edit stands as it was pushed and no page had news of it, or
a page had news and overwrote it. -/
theorem sync_pulled (items : Items) (agreed : Table Agreed) (cursor : Option Text)
    (deps : Deps) (distinct : DistinctIds items) (mints : Mints items agreed deps.newId)
    (slot : Nat) (item : Item) (id : Text)
    (edited : Edited (opening items agreed cursor deps) agreed slot item id)
    (unanswered : Unanswered (syncAnnotations items agreed cursor deps).state slot)
    (stays : ¬DeletesId (syncAnnotations items agreed cursor deps).state id) :
    PulledSo (syncAnnotations items agreed cursor deps).state slot item id (agreed.lookup id) := by
  obtain ⟨untouched, own, left⟩ :=
    opening_names items agreed cursor deps distinct mints slot item id edited
  have passes := push_passes slot item id (agreed.lookup id) deps pushBatch false 0 []
    (opening items agreed cursor deps).ups (opening items agreed cursor deps).dels
    (opening items agreed cursor deps).state own left
  have unread : listed (push deps pushBatch false 0 [] (opening items agreed cursor deps).ups
      (opening items agreed cursor deps).dels (opening items agreed cursor deps).state).state.pages
        = [] := by
    rw [passes.pages]
    rfl
  rw [syncAnnotations] at unanswered stays ⊢
  dsimp only at unanswered stays ⊢
  split
  · rename_i stop
    rw [if_pos stop] at unanswered
    refine Or.inl ⟨passes.untouched unanswered untouched, ?_⟩
    rw [unread]
    exact fun _ none' => absurd none' (by simp)
  · rename_i pulls
    rw [if_neg pulls] at unanswered stays
    refine pull_pulled deps maxPages 0 _ slot item id _ edited.marked stays (Or.inl ⟨?_, ?_⟩)
    · refine passes.untouched (fun batch earlier => unanswered batch ?_) untouched
      rw [pull_settled]
      exact earlier
    · rw [unread]
      exact fun _ none' => absurd none' (by simp)

/-- The next sync pushes a slot's highlight when its agreement is on something else. -/
theorem keeps_edit_of_untouched (state : Sync) (agreed : Table Agreed) (slot : Nat) (item : Item)
    (id : Text) (highlight : isHighlight item = true) (marked : item.omnibusId = some id)
    (edited : differs agreed id (fingerprint item) = true)
    (untouched : Untouched state slot item id (agreed.lookup id)) : KeepsEdit state slot item := by
  refine ⟨⟨item, untouched.holds, ⟨rfl, rfl, rfl, rfl, rfl⟩⟩, fun next => ?_⟩
  obtain ⟨seen, found⟩ := opening_held state.items state.agreed state.cursor next slot item id
    untouched.holds marked
  have place : slot ∈ highlights state.items := by
    rw [mem_highlights, untouched.holds]
    exact highlight
  refine ⟨_, (mem_upserts _ _ _ _ _).mpr ⟨slot, place, _, id, found, marked, ?_, rfl⟩, rfl⟩
  rw [differs, untouched.agreed]
  exact edited

theorem overwritten_lost (state : Sync) (slot : Nat) (item : Item) (id : Text) (deps : Deps)
    (overwritten : Overwritten state slot id) : ¬KeepsEdit state slot item := by
  rintro ⟨-, pushed⟩
  obtain ⟨taken, entry, untouched, marked, same⟩ := overwritten
  obtain ⟨up, sent, own⟩ := pushed deps
  obtain ⟨place, -, after, key, found, keyed, different, rfl⟩ := (mem_upserts _ _ _ _ _).mp sent
  obtain ⟨seen, stands⟩ := opening_held state.items state.agreed state.cursor deps slot taken id
    untouched.holds marked
  simp only at own
  subst own
  have here : after = { taken with omnibusEditedAt := seen } :=
    Option.some.inj (found.symm.trans stands)
  subst here
  have sameKey : id = key := Option.some.inj (marked.symm.trans keyed)
  subst sameKey
  rw [differs, untouched.agreed] at different
  simp only [Option.all_some, bne_iff_ne, ne_eq] at different
  exact different same

/-- An edit whose push nobody answered is kept and pushed again, unless a page deletes it or
lists a version at least as new, exactly when no older version a page lists is news to what the
device had agreed on. -/
theorem unanswered_edit_kept_iff (items : Items) (agreed : Table Agreed) (cursor : Option Text)
    (deps : Deps) (distinct : DistinctIds items) (mints : Mints items agreed deps.newId)
    (slot : Nat) (item : Item) (id : Text)
    (edited : Edited (opening items agreed cursor deps) agreed slot item id)
    (unanswered : Unanswered (syncAnnotations items agreed cursor deps).state slot) :
    let after := (syncAnnotations items agreed cursor deps).state
    (KeepsEdit after slot item ∨ DeletesId after id ∨ ListsNewer after id item) ↔
      (NoNews (listed after.pages) id (agreed.lookup id) ∨ DeletesId after id ∨
        ListsNewer after id item) := by
  intro after
  by_cases gone : DeletesId after id
  · simp [gone]
  · obtain ⟨untouched, none'⟩ | ⟨overwritten, news⟩ :=
      sync_pulled items agreed cursor deps distinct mints slot item id edited unanswered gone
    · have kept := keeps_edit_of_untouched after agreed slot item id edited.highlight edited.marked
        edited.differs untouched
      simp [kept, none', after]
    · have lost := overwritten_lost after slot item id deps overwritten
      simp [lost, news, after]

/-! ## A failed push that meets another device's older edit -/

def heldHighlight (note : Text) : Item :=
  ⟨some "lighten".toList, some "/body/p[1].0".toList, some "/body/p[1].5".toList, none,
    some "quote".toList, some note, none, none, some "h1".toList, none⟩

def listedHighlight (note : Text) (updatedAt : Int) : Wire :=
  ⟨some "h1".toList, some "/body/p[1].0".toList, some "/body/p[1].5".toList,
    some "quote".toList, some note, none, none, some updatedAt⟩

def agreedHighlight : Table Agreed :=
  AList.insert "h1".toList
    (agree (fingerprint (heldHighlight "draft".toList)) (heldHighlight "draft".toList)
      (listedHighlight "draft".toList 10)) ∅

/-- The push meets an HTTP 500, and the listing carries what another device wrote at 50. -/
def failingPush : Deps where
  now _ := 100
  newId call := List.replicate (call + 5) 'f'
  encoded _ := 100
  parseDatetime _ := none
  post _ := ⟨some 500, none, []⟩
  get _ := ⟨some 200, some ⟨some [listedHighlight "elsewhere".toList 50], [], none, false⟩, []⟩
  add _ := none

def stampedHighlight : Item :=
  { heldHighlight "edited at 100".toList with omnibusEditedAt := some 100 }

theorem failing_push_distinct : DistinctIds [some (heldHighlight "edited at 100".toList)] := by
  intro slot other id first second
  cases slot with
  | succ slot => simp [idAt, held] at first
  | zero =>
      cases other with
      | succ other => simp [idAt, held] at second
      | zero => rfl

theorem failing_push_mints :
    Mints [some (heldHighlight "edited at 100".toList)] agreedHighlight failingPush.newId := by
  constructor
  · intro first second same
    simpa [failingPush] using congrArg List.length same
  · intro call slot marked
    cases slot with
    | succ slot => simp [idAt, held] at marked
    | zero =>
        simp only [idAt, held, List.getElem?_cons_zero, Option.join_some, Option.bind_some,
          heldHighlight, Option.some.injEq] at marked
        exact absurd (congrArg List.length marked) (by simp [failingPush])
  · intro call known
    rw [agreedHighlight, AList.mem_insert] at known
    obtain same | empty := known
    · exact absurd (congrArg List.length same) (by simp [failingPush])
    · simp at empty

theorem failing_push_edited :
    Edited (opening [some (heldHighlight "edited at 100".toList)] agreedHighlight none failingPush)
      agreedHighlight 0 stampedHighlight "h1".toList :=
  ⟨by decide +kernel, by decide +kernel, by decide +kernel, by decide +kernel⟩

theorem failing_push_settles_nothing :
    (syncAnnotations [some (heldHighlight "edited at 100".toList)] agreedHighlight none
      failingPush).state.settled = [] := by
  decide +kernel

theorem failing_push_pages :
    (syncAnnotations [some (heldHighlight "edited at 100".toList)] agreedHighlight none
      failingPush).state.pages =
        [⟨some [listedHighlight "elsewhere".toList 50], [], none, false⟩] := by
  decide +kernel

theorem failing_push_unanswered :
    Unanswered (syncAnnotations [some (heldHighlight "edited at 100".toList)] agreedHighlight none
      failingPush).state 0 := by
  intro batch settled
  rw [failing_push_settles_nothing] at settled
  exact absurd settled (by simp)

/-- The push fails, and the pull of the same run replaces the note written at 100 by one from 50:
nothing is left to push. -/
theorem unanswered_edit_overwritten :
    let after := (syncAnnotations [some (heldHighlight "edited at 100".toList)] agreedHighlight none
      failingPush).state
    Unanswered after 0 ∧ ¬DeletesId after "h1".toList ∧
      ¬ListsNewer after "h1".toList stampedHighlight ∧ ¬KeepsEdit after 0 stampedHighlight := by
  refine ⟨failing_push_unanswered, ?_, ?_, ?_⟩
  · intro ⟨page, applied, gone⟩
    rw [failing_push_pages, List.mem_singleton] at applied
    subst applied
    simp [deletedIds] at gone
  · rintro ⟨wire, present, updatedAt, -, timed, newer⟩
    rw [failing_push_pages] at present
    simp only [listed, List.flatMap_cons, List.flatMap_nil, Option.getD_some, List.append_nil,
      List.mem_singleton] at present
    subst present
    have before := newer 100 rfl
    simp only [listedHighlight, Option.some.injEq] at timed
    omega
  · rintro ⟨⟨item, stands, same⟩, -⟩
    have taken : (held (syncAnnotations [some (heldHighlight "edited at 100".toList)]
        agreedHighlight none failingPush).state.items 0).map (·.note) =
          some (some "elsewhere".toList) := by
      decide +kernel
    rw [stands, Option.map_some, Option.some.injEq, same.note] at taken
    exact absurd taken (by decide +kernel)

theorem unanswered_edit_kept_iff_after_500 :
    let after := (syncAnnotations [some (heldHighlight "edited at 100".toList)] agreedHighlight none
      failingPush).state
    (KeepsEdit after 0 stampedHighlight ∨ DeletesId after "h1".toList ∨
        ListsNewer after "h1".toList stampedHighlight) ↔
      (NoNews (listed after.pages) "h1".toList (agreedHighlight.lookup "h1".toList) ∨
        DeletesId after "h1".toList ∨ ListsNewer after "h1".toList stampedHighlight) :=
  unanswered_edit_kept_iff _ agreedHighlight none failingPush failing_push_distinct
    failing_push_mints 0 stampedHighlight "h1".toList failing_push_edited failing_push_unanswered

end Omnibus.Koreader
