import Omnibus.Cleanup.Effects
import Omnibus.Library.Runs

/-!
# Where a merged-away name leads

In a run of merges and undos that never absorbs an entity an alias names, every alias row names a
live entity and a name that a standing merge absorbed leads to whoever holds its books.
-/

open Omnibus.Library.Runs

namespace Omnibus.Cleanup

section Statement

/-- A row of `cleanup_log`. -/
structure LogRow where
  kind : MergeEntity
  snapshot : MergeSnapshot
  undone : Bool

structure State where
  db : Database
  log : List LogRow

/-- A merge, or the undo of a row of the log. -/
inductive Action where
  | merge (kind : MergeEntity) (sourceIds : List Int) (canonicalId : Int)
  | undo (logId : Nat)

def step (state : State) : Action → Option State
  | .merge kind sourceIds canonicalId =>
      (applyMerge kind sourceIds canonicalId state.db).map fun (db, snapshot) =>
        ⟨db, state.log ++ [⟨kind, snapshot, false⟩]⟩
  | .undo logId =>
      state.log[logId]?.bind fun entry =>
        if entry.undone then none
        else (undoMerge entry.kind entry.snapshot state.db).map fun db =>
          ⟨db, state.log.set logId { entry with undone := true }⟩

/-- Every alias names a live entity, and a name absorbed and not recreated leads to the entity
that holds its books. -/
structure NamesResolve (state : State) : Prop where
  live : ∀ row ∈ state.db.aliases, ∃ entity ∈ (state.db.taxa row.kind).rows,
    entity.id = row.canonicalId
  resolves : ∀ entry ∈ state.log, entry.undone = false → ∀ source ∈ entry.snapshot.sources,
    (∀ entity ∈ (state.db.taxa entry.kind).rows, sameName entity.name source.name = false) →
      ∃ id, resolveEntityAliases state.db.aliases entry.kind source.name = some id ∧
        (∃ entity ∈ (state.db.taxa entry.kind).rows, entity.id = id) ∧
          ∀ link ∈ source.links, (state.db.taxa entry.kind).Linked link.bookId id

/-- A canonical entity keeps a book: that of the merge, and those that aliases name. -/
def KeepsBook (state : State) : Action → Prop
  | .merge kind sourceIds canonicalId =>
      (∃ link ∈ (state.db.taxa kind).links,
        link.entity = canonicalId ∨ link.entity ∈ sourceIds) ∧
          ∀ row ∈ state.db.aliases, ∃ link ∈ (state.db.taxa row.kind).links,
            link.entity = row.canonicalId
  | .undo _ => True

instance KeepsBook.decidable (state : State) :
    (action : Action) → Decidable (KeepsBook state action)
  | .merge kind sourceIds canonicalId =>
      inferInstanceAs (Decidable ((∃ link ∈ (state.db.taxa kind).links,
        link.entity = canonicalId ∨ link.entity ∈ sourceIds) ∧
          ∀ row ∈ state.db.aliases, ∃ link ∈ (state.db.taxa row.kind).links,
            link.entity = row.canonicalId))
  | .undo _ => inferInstanceAs (Decidable True)

/-- No source of a merge is what an alias names; an undo restores aliases to live entities only,
and takes from the canonical no book of a source of another standing merge. -/
def LeavesAliases (state : State) : Action → Prop
  | .merge kind sourceIds _ =>
      ∀ row ∈ state.db.aliases, row.kind = kind → row.canonicalId ∉ sourceIds
  | .undo logId => ∀ entry, state.log[logId]? = some entry →
      (∀ source ∈ entry.snapshot.sources, ∀ previous, source.previousAlias = some previous →
        ∃ entity ∈ (state.db.taxa entry.kind).rows, entity.id = previous) ∧
      ∀ other otherEntry, other ≠ logId → state.log[other]? = some otherEntry →
        otherEntry.undone = false → otherEntry.kind = entry.kind →
          ∀ source ∈ otherEntry.snapshot.sources, ∀ link ∈ source.links,
            ¬Takes entry.snapshot entry.snapshot.sources link.bookId
              otherEntry.snapshot.canonicalId

instance Takes.decidable (snapshot : MergeSnapshot) (sources : List MergedSource)
    (book entity : Int) : Decidable (Takes snapshot sources book entity) :=
  inferInstanceAs (Decidable (entity = snapshot.canonicalId ∧
    book ∉ snapshot.canonicalBookIdsBefore ∧
      ∃ source ∈ sources, ∃ link ∈ source.links, link.bookId = book))

instance LeavesAliases.decidable (state : State) :
    (action : Action) → Decidable (LeavesAliases state action)
  | .merge kind sourceIds _ =>
      inferInstanceAs (Decidable (∀ row ∈ state.db.aliases, row.kind = kind →
        row.canonicalId ∉ sourceIds))
  | .undo logId =>
      decidable_of_iff (∀ entry ∈ state.log[logId]?,
        (∀ source ∈ entry.snapshot.sources, ∀ previous ∈ source.previousAlias,
          ∃ entity ∈ (state.db.taxa entry.kind).rows, entity.id = previous) ∧
        ∀ placed ∈ state.log.zipIdx, placed.2 ≠ logId → placed.1.undone = false →
          placed.1.kind = entry.kind →
            ∀ source ∈ placed.1.snapshot.sources, ∀ link ∈ source.links,
              ¬Takes entry.snapshot entry.snapshot.sources link.bookId
                placed.1.snapshot.canonicalId) (by
        refine forall₂_congr fun entry _ => and_congr_right' ?_
        constructor
        · intro kept other otherEntry apart found
          exact kept (otherEntry, other) (List.mk_mem_zipIdx_iff_getElem?.mpr found) apart
        · exact fun kept placed member apart =>
            kept placed.2 placed.1 apart (List.mk_mem_zipIdx_iff_getElem?.mp member))

end Statement

section Invariant

structure Held (db : Database) (entry : LogRow) (source : MergedSource) : Prop where
  absent : ∀ pair ∈ (db.taxa entry.kind).names, sameName pair.2 source.name = false
  written : ⟨entry.kind, source.name, entry.snapshot.canonicalId⟩ ∈ db.aliases
  only : ∀ row ∈ db.aliases, row.kind = entry.kind → sameName row.aliasName source.name = true →
    row.canonicalId = entry.snapshot.canonicalId
  links : ∀ link ∈ source.links,
    (db.taxa entry.kind).Linked link.bookId entry.snapshot.canonicalId

/-- The names are those of the start, aliases lead to live entities, and standing merges hold what
they absorbed, each name once. -/
structure Tracked (known : MergeEntity → String → Prop) (state : State) : Prop where
  distinct : ∀ kind, (state.db.taxa kind).Distinct
  liveKnown : ∀ kind, ∀ pair ∈ (state.db.taxa kind).names, known kind pair.2
  aliasKnown : ∀ row ∈ state.db.aliases, known row.kind row.aliasName
  logKnown : ∀ entry ∈ state.log, ∀ source ∈ entry.snapshot.sources,
    known entry.kind source.name
  live : ∀ row ∈ state.db.aliases, ∃ name,
    (row.canonicalId, name) ∈ (state.db.taxa row.kind).names
  standing : ∀ entry ∈ state.log, entry.undone = false → ∀ source ∈ entry.snapshot.sources,
    Held state.db entry source
  apart : ∀ (i j : Nat) (left right : LogRow), i ≠ j → state.log[i]? = some left →
    state.log[j]? = some right → left.undone = false → right.undone = false →
    left.kind = right.kind →
      ∀ source ∈ left.snapshot.sources, ∀ other ∈ right.snapshot.sources,
        source.name ≠ other.name

/-- Known names that SQLite takes for one are one. -/
def OneSpelling (known : MergeEntity → String → Prop) : Prop :=
  ∀ kind left right, known kind left → known kind right → sameName left right = true →
    left = right

theorem Taxon.Distinct.same {taxon : Taxon} (distinct : taxon.Distinct) {left right : Int × String}
    (leftMem : left ∈ taxon.names) (rightMem : right ∈ taxon.names)
    (same : sameName left.2 right.2 = true) : left = right := by
  by_contra apart
  have symmetric : Std.Symm fun left right : Int × String => sameName left.2 right.2 = false :=
    ⟨fun left right unlike => (same_name_comm ..).trans unlike⟩
  have unlike := distinct.forall leftMem rightMem apart
  rw [same] at unlike
  cases unlike

theorem resolve_only {aliases : List AliasRow} {kind : MergeEntity} {name : String} {id : Int}
    (written : ⟨kind, name, id⟩ ∈ aliases)
    (only : ∀ row ∈ aliases, row.kind = kind → sameName row.aliasName name = true →
      row.canonicalId = id) : resolveEntityAliases aliases kind name = some id := by
  unfold resolveEntityAliases
  have inRows : (⟨kind, name, id⟩ : AliasRow) ∈ aliases.filter fun row =>
      row.kind = kind && sameName row.aliasName name :=
    List.mem_filter.mpr ⟨written, by simp [same_name_refl]⟩
  obtain ⟨last, isLast⟩ := Option.isSome_iff_exists.mp
    (List.getLast?_isSome.mpr (List.ne_nil_of_mem inRows))
  obtain ⟨lastMem, matching⟩ := List.mem_filter.mp (List.mem_of_getLast? isLast)
  simp only [Bool.and_eq_true, decide_eq_true_eq] at matching
  rw [isLast, Option.map_some, only last lastMem matching.1 matching.2]

theorem Tracked.names_resolve {known : MergeEntity → String → Prop} {state : State}
    (tracked : Tracked known state) : NamesResolve state := by
  have alive {kind : MergeEntity} {id : Int}
      (live : ∃ name, (id, name) ∈ (state.db.taxa kind).names) :
      ∃ entity ∈ (state.db.taxa kind).rows, entity.id = id := by
    obtain ⟨name, member⟩ := live
    obtain ⟨entity, entityMem, isId, _⟩ := mem_names.mp member
    exact ⟨entity, entityMem, isId⟩
  constructor
  · exact fun row member => alive (tracked.live row member)
  · intro entry entryMem stands source sourceMem _
    have held := tracked.standing entry entryMem stands source sourceMem
    exact ⟨_, resolve_only held.written held.only, alive (tracked.live _ held.written),
      held.links⟩

end Invariant

section Steps

variable {known : MergeEntity → String → Prop} {state : State} {kind : MergeEntity}
  {sourceIds : List Int} {canonicalId : Int} {db : Database} {snapshot : MergeSnapshot}

/-- A standing merge keeps what it holds when another merge leaves its canonical alone. -/
theorem Held.merged {entry : LogRow} {source : MergedSource} (held : Held state.db entry source)
    (merged : Merged kind sourceIds canonicalId state.db db snapshot)
    (leaves : ∀ row ∈ state.db.aliases, row.kind = kind → row.canonicalId ∉ sourceIds) :
    Held db entry source := by
  -- the sources of the merge are live, and what the standing merge absorbed is not
  have apart (sameKind : entry.kind = kind) (other : MergedSource)
      (otherMem : other ∈ snapshot.sources) : sameName other.name source.name = false := by
    have live := (merged.known other otherMem).2
    rw [← sameKind] at live
    exact held.absent _ live
  constructor
  · exact fun pair member => held.absent pair ((merged.names entry.kind).subset member)
  · refine (merged.aliases _).mpr (.inl ⟨held.written, fun other otherMem => ?_⟩)
    apply Bool.eq_false_iff.mpr
    intro isFor
    obtain ⟨sameKind, isName⟩ := is_for_iff.mp isFor
    have unlike := apart sameKind other otherMem
    rw [← isName, same_name_refl] at unlike
    cases unlike
  · intro row member sameKind isName
    rcases (merged.aliases row).mp member with ⟨before, _⟩ | ⟨other, otherMem, rfl⟩
    · exact held.only row before sameKind isName
    · have unlike := apart sameKind.symm other otherMem
      rw [isName] at unlike
      cases unlike
  · intro link linkMem
    have linked := held.links link linkMem
    by_cases sameKind : entry.kind = kind
    · have notSource := leaves _ held.written sameKind
      rw [sameKind] at linked ⊢
      exact merged.kept _ _ notSource linked
    · exact merged.others _ _ _ sameKind linked

theorem Tracked.held_new (tracked : Tracked known state) (spelling : OneSpelling known)
    (merged : Merged kind sourceIds canonicalId state.db db snapshot) {source : MergedSource}
    (member : source ∈ snapshot.sources) : Held db ⟨kind, snapshot, false⟩ source := by
  obtain ⟨isSource, live⟩ := merged.known source member
  have canonical := merged.canonical
  constructor
  · intro pair pairMem
    refine Bool.eq_false_iff.mpr fun same => merged.gone pair pairMem ?_
    rw [(tracked.distinct kind).same ((merged.names kind).subset pairMem) live same]
    exact isSource
  · refine (merged.aliases _).mpr (.inr ⟨source, member, ?_⟩)
    rw [canonical]
  · intro row rowMem sameKind isName
    rcases (merged.aliases row).mp rowMem with ⟨before, unnamed⟩ | ⟨other, _, rfl⟩
    · have ofKind : row.kind = kind := sameKind
      have isSame := spelling kind row.aliasName source.name
        (ofKind ▸ tracked.aliasKnown row before) (tracked.liveKnown kind _ live) isName
      have isFor := is_for_iff.mpr ⟨sameKind, isSame⟩
      rw [unnamed source member] at isFor
      cases isFor
    · exact canonical.symm
  · intro link linkMem
    change (db.taxa kind).Linked link.bookId snapshot.canonicalId
    rw [canonical]
    exact merged.held source member link linkMem

theorem Tracked.merged (tracked : Tracked known state) (spelling : OneSpelling known)
    (merged : Merged kind sourceIds canonicalId state.db db snapshot)
    (keeps : KeepsBook state (.merge kind sourceIds canonicalId))
    (leaves : LeavesAliases state (.merge kind sourceIds canonicalId)) :
    Tracked known ⟨db, state.log ++ [⟨kind, snapshot, false⟩]⟩ := by
  have logMem {entry : LogRow} (member : entry ∈ state.log ++ [⟨kind, snapshot, false⟩]) :
      entry ∈ state.log ∨ entry = ⟨kind, snapshot, false⟩ := by
    rwa [List.mem_append, List.mem_singleton] at member
  have sourceKnown (source : MergedSource) (member : source ∈ snapshot.sources) :
      known kind source.name := tracked.liveKnown kind _ (merged.known source member).2
  -- no live name of a new source is one that a standing merge absorbed
  have newApart {entry : LogRow} (entryMem : entry ∈ state.log) (stands : entry.undone = false)
      (sameKind : entry.kind = kind) (source : MergedSource)
      (sourceMem : source ∈ entry.snapshot.sources) (other : MergedSource)
      (otherMem : other ∈ snapshot.sources) : other.name ≠ source.name := by
    intro same
    have absent := (tracked.standing entry entryMem stands source sourceMem).absent
      (other.id, other.name) (sameKind ▸ (merged.known other otherMem).2)
    rw [same, same_name_refl] at absent
    cases absent
  constructor
  · exact fun other => (tracked.distinct other).sublist (merged.names other)
  · exact fun other pair member => tracked.liveKnown other pair ((merged.names other).subset member)
  · intro row member
    rcases (merged.aliases row).mp member with ⟨before, _⟩ | ⟨source, sourceMem, rfl⟩
    · exact tracked.aliasKnown row before
    · exact sourceKnown source sourceMem
  · intro entry member source sourceMem
    rcases logMem member with before | rfl
    · exact tracked.logKnown entry before source sourceMem
    · exact sourceKnown source sourceMem
  · intro row member
    rcases (merged.aliases row).mp member with ⟨before, _⟩ | ⟨source, sourceMem, rfl⟩
    · obtain ⟨name, live⟩ := tracked.live row before
      obtain ⟨link, linkMem, isEntity⟩ := keeps.2 row before
      have linked : (state.db.taxa row.kind).Linked link.book row.canonicalId :=
        ⟨link, linkMem, rfl, isEntity⟩
      refine ⟨name, merged.stays _ _ _ link.book live (leaves row before) ?_⟩
      by_cases sameKind : row.kind = kind
      · have notSource := leaves row before sameKind
        rw [sameKind] at linked ⊢
        exact merged.kept _ _ notSource linked
      · exact merged.others _ _ _ sameKind linked
    · obtain ⟨name, live⟩ := merged.live
      obtain ⟨link, linkMem, isEntity⟩ := keeps.1
      refine ⟨name, merged.stays kind canonicalId name link.book live (fun _ => merged.apart) ?_⟩
      rcases isEntity with isCanonical | isSource
      · exact merged.kept _ _ merged.apart ⟨link, linkMem, rfl, isCanonical⟩
      · exact merged.gives _ _ isSource ⟨link, linkMem, rfl, rfl⟩
  · intro entry member stands source sourceMem
    rcases logMem member with before | rfl
    · exact (tracked.standing entry before stands source sourceMem).merged merged leaves
    · exact tracked.held_new spelling merged sourceMem
  · intro i j left right different isLeft isRight leftStands rightStands sameKind source sourceMem
      other otherMem
    have placed {k : Nat} {entry : LogRow}
        (isEntry : (state.log ++ [⟨kind, snapshot, false⟩])[k]? = some entry) :
        state.log[k]? = some entry ∨ k = state.log.length ∧ entry = ⟨kind, snapshot, false⟩ := by
      rw [List.getElem?_append] at isEntry
      split_ifs at isEntry with inLog
      · exact .inl isEntry
      · rw [List.getElem?_singleton] at isEntry
        split_ifs at isEntry with isLast
        cases isEntry
        exact .inr ⟨by omega, rfl⟩
    rcases placed isLeft with leftBefore | ⟨isLast, rfl⟩
    · rcases placed isRight with rightBefore | ⟨_, rfl⟩
      · exact tracked.apart i j left right different leftBefore rightBefore leftStands rightStands
          sameKind source sourceMem other otherMem
      · exact (newApart (List.mem_of_getElem? leftBefore) leftStands sameKind source sourceMem other
          otherMem).symm
    · rcases placed isRight with rightBefore | ⟨isLast', _⟩
      · exact newApart (List.mem_of_getElem? rightBefore) rightStands sameKind.symm other otherMem
          source sourceMem
      · exact absurd (isLast.trans isLast'.symm) different

/-- A standing merge keeps what it holds when the undo of another takes none of it. -/
theorem Held.undone {entry undone : LogRow} {source : MergedSource}
    (held : Held state.db entry source) (spelling : OneSpelling known)
    (restored : Restored undone.kind undone.snapshot undone.snapshot.sources state.db db)
    (sourceKnown : known entry.kind source.name)
    (othersKnown : ∀ other ∈ undone.snapshot.sources, known undone.kind other.name)
    (apart : entry.kind = undone.kind → ∀ other ∈ undone.snapshot.sources,
      source.name ≠ other.name)
    (untaken : entry.kind = undone.kind → ∀ link ∈ source.links,
      ¬Takes undone.snapshot undone.snapshot.sources link.bookId entry.snapshot.canonicalId) :
    Held db entry source := by
  have unlike (sameKind : entry.kind = undone.kind) (other : MergedSource)
      (otherMem : other ∈ undone.snapshot.sources) : sameName other.name source.name = false := by
    refine Bool.eq_false_iff.mpr fun same => apart sameKind other otherMem ?_
    exact (spelling undone.kind _ _ (othersKnown other otherMem) (sameKind ▸ sourceKnown)
      same).symm
  constructor
  · intro pair member
    by_cases sameKind : entry.kind = undone.kind
    · rw [sameKind] at member
      rcases restored.comes pair member with before | ⟨other, otherMem, isName⟩
      · exact held.absent pair (sameKind ▸ before)
      · rw [isName]
        exact unlike sameKind other otherMem
    · rw [(restored.others _ sameKind).1] at member
      exact held.absent pair member
  · apply restored.aliasStays _ held.written
    intro other otherMem
    apply Bool.eq_false_iff.mpr
    intro isFor
    obtain ⟨sameKind, isName⟩ := is_for_iff.mp isFor
    exact apart sameKind other otherMem isName
  · intro row member sameKind isName
    rcases restored.aliasComes row member with before | ⟨other, otherMem, _, _, rfl⟩
    · exact held.only row before sameKind isName
    · have differs := unlike sameKind.symm other otherMem
      rw [isName] at differs
      cases differs
  · intro link linkMem
    have linked := held.links link linkMem
    by_cases sameKind : entry.kind = undone.kind
    · have stays := untaken sameKind link linkMem
      rw [sameKind] at linked ⊢
      exact restored.kept _ _ linked stays
    · unfold Taxon.Linked
      rw [(restored.others _ sameKind).2]
      exact linked

theorem Tracked.undone (tracked : Tracked known state) (spelling : OneSpelling known)
    {logId : Nat} {undone : LogRow} (isUndone : state.log[logId]? = some undone)
    (stood : undone.undone = false)
    (restored : Restored undone.kind undone.snapshot undone.snapshot.sources state.db db)
    (leaves : LeavesAliases state (.undo logId)) :
    Tracked known ⟨db, state.log.set logId { undone with undone := true }⟩ := by
  obtain ⟨aliasesLive, untaken⟩ := leaves undone isUndone
  have undoneMem := List.mem_of_getElem? isUndone
  have placed {k : Nat} {entry : LogRow}
      (isEntry : (state.log.set logId { undone with undone := true })[k]? = some entry) :
      (k ≠ logId ∧ state.log[k]? = some entry) ∨ entry = { undone with undone := true } := by
    rw [List.getElem?_set] at isEntry
    split_ifs at isEntry with isLog inLog
    · cases isEntry
      exact .inr rfl
    · exact .inl ⟨Ne.symm isLog, isEntry⟩
  have sourceKnown (other : MergedSource) (otherMem : other ∈ undone.snapshot.sources) :
      known undone.kind other.name := tracked.logKnown undone undoneMem other otherMem
  have stays {kind : MergeEntity} {pair : Int × String}
      (live : pair ∈ (state.db.taxa kind).names) : pair ∈ (db.taxa kind).names := by
    by_cases sameKind : kind = undone.kind
    · subst sameKind
      exact restored.stays pair live
    · rw [(restored.others kind sameKind).1]
      exact live
  constructor
  · intro kind
    by_cases sameKind : kind = undone.kind
    · subst sameKind
      exact restored.distinct (tracked.distinct _)
    · change (db.taxa kind).names.Pairwise _
      rw [(restored.others kind sameKind).1]
      exact tracked.distinct kind
  · intro kind pair member
    by_cases sameKind : kind = undone.kind
    · subst sameKind
      rcases restored.comes pair member with before | ⟨other, otherMem, isName⟩
      · exact tracked.liveKnown _ pair before
      · exact isName ▸ sourceKnown other otherMem
    · rw [(restored.others kind sameKind).1] at member
      exact tracked.liveKnown kind pair member
  · intro row member
    rcases restored.aliasComes row member with before | ⟨other, otherMem, _, _, rfl⟩
    · exact tracked.aliasKnown row before
    · exact sourceKnown other otherMem
  · intro entry member source sourceMem
    obtain ⟨k, isEntry⟩ := List.getElem?_of_mem member
    rcases placed isEntry with ⟨_, before⟩ | rfl
    · exact tracked.logKnown entry (List.mem_of_getElem? before) source sourceMem
    · exact sourceKnown source sourceMem
  · intro row member
    rcases restored.aliasComes row member with before | ⟨other, otherMem, previous, was, rfl⟩
    · exact (tracked.live row before).imp fun _ live => stays live
    · obtain ⟨entity, entityMem, isId⟩ := aliasesLive other otherMem previous was
      exact ⟨entity.name, stays (mem_names.mpr ⟨entity, entityMem, isId, rfl⟩)⟩
  · intro entry member stands source sourceMem
    obtain ⟨k, isEntry⟩ := List.getElem?_of_mem member
    rcases placed isEntry with ⟨other, before⟩ | rfl
    · have entryMem := List.mem_of_getElem? before
      have held := tracked.standing entry entryMem stands source sourceMem
      refine held.undone spelling restored (tracked.logKnown entry entryMem source sourceMem)
        sourceKnown (fun sameKind => ?_) fun sameKind link linkMem => ?_
      · exact tracked.apart k logId entry undone other before isUndone stands stood sameKind source
          sourceMem
      · exact untaken k entry other before stands sameKind source sourceMem link linkMem
    · cases stands
  · intro i j left right different isLeft isRight leftStands rightStands
    rcases placed isLeft with ⟨_, leftBefore⟩ | rfl
    · rcases placed isRight with ⟨_, rightBefore⟩ | rfl
      · exact tracked.apart i j left right different leftBefore rightBefore leftStands rightStands
      · cases rightStands
    · cases leftStands

theorem step_tracked (spelling : OneSpelling known) {action : Action} {next : State}
    (tracked : Tracked known state) (keeps : KeepsBook state action)
    (leaves : LeavesAliases state action) (stepped : step state action = some next) :
    Tracked known next := by
  cases action with
  | merge kind sourceIds canonicalId =>
      obtain ⟨⟨db, snapshot⟩, applied, rfl⟩ := Option.map_eq_some_iff.mp stepped
      exact tracked.merged spelling (apply_merge_merged applied) keeps leaves
  | undo logId =>
      obtain ⟨entry, isEntry, later⟩ := Option.bind_eq_some_iff.mp stepped
      split_ifs at later with undone
      obtain ⟨db, isUndone, rfl⟩ := Option.map_eq_some_iff.mp later
      exact tracked.undone spelling isEntry (Bool.eq_false_iff.mpr undone)
        (undo_merge_restored isUndone) leaves

end Steps

section Main

theorem names_resolve_always (start : Database) (actions : List Action) (state : State)
    (distinct : ∀ kind, (start.taxa kind).Distinct) (empty : start.aliases = [])
    (meets : Meets step (fun state action => KeepsBook state action ∧ LeavesAliases state action)
      ⟨start, []⟩ actions)
    (ran : run step ⟨start, []⟩ actions = some state) : NamesResolve state := by
  have spelling : OneSpelling fun kind name => ∃ id, (id, name) ∈ (start.taxa kind).names :=
    fun kind left right ⟨_, leftLive⟩ ⟨_, rightLive⟩ same =>
      congrArg Prod.snd ((distinct kind).same leftLive rightLive same)
  have tracked : Tracked (fun kind name => ∃ id, (id, name) ∈ (start.taxa kind).names)
      ⟨start, []⟩ := by
    refine ⟨distinct, fun _ pair member => ⟨pair.1, member⟩, ?_, by simp, ?_, by simp, by simp⟩
    · rw [empty]
      simp
    · rw [empty]
      simp
  exact (run_keeps step (fun _ _ _ tracked meets stepped =>
    step_tracked spelling tracked meets.1 meets.2 stepped) actions tracked meets ran).names_resolve

def threeAuthors : Database where
  taxa
    | .author =>
        { rows := [⟨1, "A. Writer", none⟩, ⟨2, "Ann Writer", none⟩, ⟨3, "Writer", none⟩]
          lastId := 3
          links := [⟨10, 1, some 0⟩, ⟨20, 2, some 0⟩, ⟨30, 3, some 0⟩]
          overrideNames := [] }
    | _ => ⟨[], 0, [], []⟩
  photos := []
  aliases := []
  ignored := []

theorem three_authors_distinct (kind : MergeEntity) : (threeAuthors.taxa kind).Distinct := by
  cases kind with
  | author =>
      have unlike : (threeAuthors.taxa .author).names.Pairwise fun left right =>
          sameName left.2 right.2 = false := by decide
      exact unlike
  | series => exact List.Pairwise.nil
  | tag => exact List.Pairwise.nil

def mergesAndUndo : List Action :=
  [.merge .author [1] 2, .merge .author [3] 2, .undo 0]

theorem merges_and_undo_resolve : ∃ state,
    run step ⟨threeAuthors, []⟩ mergesAndUndo = some state ∧ NamesResolve state := by
  obtain ⟨state, ran⟩ : ∃ state, run step ⟨threeAuthors, []⟩ mergesAndUndo = some state :=
    Option.isSome_iff_exists.mp rfl
  exact ⟨state, ran, names_resolve_always threeAuthors mergesAndUndo state
    three_authors_distinct rfl (by decide +kernel) ran⟩

/-- An alias whose entity a later merge absorbed names nothing. -/
theorem chained_alias_dangles : ∃ state,
    run step ⟨threeAuthors, []⟩ [.merge .author [1] 2, .merge .author [2] 3] = some state ∧
      Meets step KeepsBook ⟨threeAuthors, []⟩ [.merge .author [1] 2, .merge .author [2] 3] ∧
        ⟨.author, "A. Writer", 2⟩ ∈ state.db.aliases ∧ ¬NamesResolve state := by
  obtain ⟨state, ran⟩ : ∃ state,
      run step ⟨threeAuthors, []⟩ [.merge .author [1] 2, .merge .author [2] 3] = some state :=
    Option.isSome_iff_exists.mp rfl
  have left : (run step ⟨threeAuthors, []⟩ [.merge .author [1] 2, .merge .author [2] 3]).map
      (fun state => (state.db.aliases, (state.db.taxa .author).rows.map (·.id))) =
        some ([⟨.author, "A. Writer", 2⟩, ⟨.author, "Ann Writer", 3⟩], [3]) := by
    decide +kernel
  rw [ran, Option.map_some, Option.some.injEq, Prod.mk.injEq] at left
  have written : ⟨.author, "A. Writer", 2⟩ ∈ state.db.aliases := by
    rw [left.1]
    exact List.mem_cons_self
  refine ⟨state, ran, by decide +kernel, written, fun resolves => ?_⟩
  obtain ⟨entity, member, isId⟩ := resolves.live _ written
  have isThird : entity.id ∈ [3] := left.2 ▸ List.mem_map_of_mem member
  rw [isId] at isThird
  exact absurd isThird (by decide)

end Main

end Omnibus.Cleanup
