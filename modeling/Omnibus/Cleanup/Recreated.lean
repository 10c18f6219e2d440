import Omnibus.Cleanup.Exact

/-!
# Bringing entities back

What an undo writes where the names that it recreates are free: the rows under ids not given out
before, their links and photos, and the alias rows; everything else stays.
-/

namespace Omnibus.Cleanup

variable {kind : MergeEntity} {db after : Database} {taxon : Taxon}

section Recreate

structure Bounded (kind : MergeEntity) (db : Database) : Prop where
  rows : ∀ row ∈ (db.taxa kind).rows, row.id ≤ (db.taxa kind).lastId
  links : ∀ link ∈ (db.taxa kind).links, link.entity ≤ (db.taxa kind).lastId
  photos : kind = .author → ∀ photo ∈ db.photos, photo.1 ≤ (db.taxa kind).lastId

theorem recreate_absent {name : String} (sort : Option String)
    (absent : ∀ row ∈ taxon.rows, sameName row.name name = false) :
    recreateEntity kind taxon name sort =
      ({ taxon with
          rows := taxon.rows ++ [⟨taxon.lastId + 1, name, if kind.hasSort then sort else none⟩]
          lastId := taxon.lastId + 1 }, taxon.lastId + 1) := by
  have notFound : taxon.rows.find? (fun row => sameName row.name name) = none :=
    List.find?_eq_none.mpr fun row member => Bool.eq_false_iff.mp (absent row member)
  unfold recreateEntity
  rw [notFound]

/-- What the links of a snapshot keep of the table's keys and positions. -/
structure Given (kind : MergeEntity) (links : List BookLink) : Prop where
  books : ∀ left ∈ links, ∀ right ∈ links, left.bookId = right.bookId → left = right
  positions : ∀ link ∈ links, link.position.isSome = kind.hasPosition

theorem Given.tail {link : BookLink} {links : List BookLink} (given : Given kind (link :: links)) :
    Given kind links :=
  ⟨fun left leftMem right rightMem => given.books left (List.mem_cons_of_mem _ leftMem) right
      (List.mem_cons_of_mem _ rightMem),
    fun other member => given.positions other (List.mem_cons_of_mem _ member)⟩

theorem given_of_told {id : Int} {links : List BookLink} (sound : TaxonSound kind taxon)
    (told : ∀ link, link ∈ links ↔ ⟨link.bookId, id, link.position⟩ ∈ taxon.links) :
    Given kind links := by
  refine ⟨fun left leftMem right rightMem same => ?_, fun link linkMem => ?_⟩
  · have sameLink := sound.keys _ ((told left).mp leftMem) _ ((told right).mp rightMem) same rfl
    obtain ⟨_, _⟩ := left
    obtain ⟨_, _⟩ := right
    cases sameLink
    rfl
  · exact sound.positions _ ((told link).mp linkMem)

theorem written_position {position : Option Int} (isSome : position.isSome = kind.hasPosition) :
    (if kind.hasPosition then some (position.getD 0) else none) = position := by
  rw [← isSome]
  cases position <;> rfl

theorem mem_insert_link {book id : Int} {position : Option Int}
    (isSome : position.isSome = kind.hasPosition)
    (free : ∀ other ∈ taxon.links, other.entity = id → other.book = book →
      other.position = position) (link : LinkRow) :
    link ∈ (insertLink kind taxon book id position).links ↔
      link ∈ taxon.links ∨ link = ⟨book, id, position⟩ := by
  unfold insertLink
  dsimp only
  rw [written_position isSome, mem_insert_or_ignore]
  refine ⟨fun member => member.imp_right And.left, fun member => ?_⟩
  rcases member with before | rfl
  · exact .inl before
  · by_cases held : ∃ other ∈ taxon.links, SameKey other ⟨book, id, position⟩
    · obtain ⟨other, otherMem, isBook, isEntity⟩ := held
      have isPosition := free other otherMem isEntity isBook
      obtain ⟨otherBook, otherEntity, otherPosition⟩ := other
      dsimp only at isBook isEntity isPosition
      subst isBook isEntity isPosition
      exact .inl otherMem
    · exact .inr ⟨rfl, fun other otherMem same => held ⟨other, otherMem, same⟩⟩

theorem mem_insert_links {id : Int} {links : List BookLink} (given : Given kind links)
    (free : ∀ other ∈ taxon.links, other.entity = id → ∀ link ∈ links, link.bookId = other.book →
      other.position = link.position) (link : LinkRow) :
    link ∈ (links.foldl (fun taxon link =>
        insertLink kind taxon link.bookId id link.position) taxon).links ↔
      link ∈ taxon.links ∨ ∃ row ∈ links, link = ⟨row.bookId, id, row.position⟩ := by
  induction links generalizing taxon with
  | nil => simp
  | cons first links induction =>
      have firstFree : ∀ other ∈ taxon.links, other.entity = id → other.book = first.bookId →
          other.position = first.position := fun other otherMem isEntity isBook =>
        free other otherMem isEntity first List.mem_cons_self isBook.symm
      have inserted := mem_insert_link (given.positions first List.mem_cons_self) firstFree
      rw [List.foldl_cons, induction given.tail, inserted, or_assoc, List.exists_mem_cons_iff]
      intro other otherMem isEntity row rowMem isBook
      rcases (inserted other).mp otherMem with before | rfl
      · exact free other before isEntity row (List.mem_cons_of_mem _ rowMem) isBook
      · rw [given.books row (List.mem_cons_of_mem _ rowMem) first List.mem_cons_self isBook]

variable {snapshot : MergeSnapshot}

theorem mem_restore_link {id : Int} {given : BookLink}
    (isSome : given.position.isSome = kind.hasPosition) (apart : id ≠ snapshot.canonicalId)
    (free : ∀ other ∈ taxon.links, other.entity = id → other.book = given.bookId →
      other.position = given.position) (link : LinkRow) :
    link ∈ (restoreLink kind snapshot id taxon given).links ↔
      (link ∈ taxon.links ∧ ¬(link.entity = snapshot.canonicalId ∧
        link.book ∉ snapshot.canonicalBookIdsBefore ∧ given.bookId = link.book)) ∨
        link = ⟨given.bookId, id, given.position⟩ := by
  have inserted := mem_insert_link isSome free link
  unfold restoreLink
  dsimp only
  split_ifs with held
  · rw [inserted]
    refine or_congr_left ⟨fun member => ⟨member, ?_⟩, And.left⟩
    intro ⟨_, notHeld, isBook⟩
    exact notHeld (isBook ▸ held)
  · unfold deleteLink
    simp only [List.mem_filter, Bool.not_eq_true', Bool.and_eq_false_iff, decide_eq_false_iff_not]
    rw [inserted]
    constructor
    · rintro ⟨before | rfl, other⟩
      · refine .inl ⟨before, ?_⟩
        rintro ⟨isCanonical, _, isBook⟩
        exact other.elim (· isBook.symm) (· isCanonical)
      · exact .inr rfl
    · rintro (⟨before, kept⟩ | rfl)
      · refine ⟨.inl before, ?_⟩
        by_contra both
        rw [not_or, not_not, not_not] at both
        exact kept ⟨both.2, both.1 ▸ held, both.1.symm⟩
      · exact ⟨.inr rfl, .inr apart⟩

theorem mem_restore_links {id : Int} {links : List BookLink} (given : Given kind links)
    (apart : id ≠ snapshot.canonicalId)
    (free : ∀ other ∈ taxon.links, other.entity = id → ∀ link ∈ links, link.bookId = other.book →
      other.position = link.position) (link : LinkRow) :
    link ∈ (links.foldl (restoreLink kind snapshot id) taxon).links ↔
      (link ∈ taxon.links ∧ ¬(link.entity = snapshot.canonicalId ∧
        link.book ∉ snapshot.canonicalBookIdsBefore ∧ ∃ row ∈ links, row.bookId = link.book)) ∨
        ∃ row ∈ links, link = ⟨row.bookId, id, row.position⟩ := by
  induction links generalizing taxon with
  | nil => simp
  | cons first links induction =>
      have firstFree : ∀ other ∈ taxon.links, other.entity = id → other.book = first.bookId →
          other.position = first.position := fun other otherMem isEntity isBook =>
        free other otherMem isEntity first List.mem_cons_self isBook.symm
      have inserted := mem_restore_link (given.positions first List.mem_cons_self) apart firstFree
      rw [List.foldl_cons, induction given.tail, inserted]
      · simp only [List.exists_mem_cons_iff]
        constructor
        · rintro (⟨⟨before, notFirst⟩ | isFirst, notLater⟩ | isLater)
          · refine .inl ⟨before, ?_⟩
            rintro ⟨isCanonical, isNew, isBook | isBook⟩
            · exact notFirst ⟨isCanonical, isNew, isBook⟩
            · exact notLater ⟨isCanonical, isNew, isBook⟩
          · exact .inr (.inl isFirst)
          · exact .inr (.inr isLater)
        · rintro (⟨before, kept⟩ | isFirst | isLater)
          · exact .inl ⟨.inl ⟨before, fun taken => kept ⟨taken.1, taken.2.1, .inl taken.2.2⟩⟩,
              fun taken => kept ⟨taken.1, taken.2.1, .inr taken.2.2⟩⟩
          · refine .inl ⟨.inr isFirst, fun taken => apart ?_⟩
            rw [isFirst] at taken
            exact taken.1
          · exact .inr isLater
      · intro other otherMem isEntity row rowMem isBook
        rcases (inserted other).mp otherMem with ⟨before, _⟩ | rfl
        · exact free other before isEntity row (List.mem_cons_of_mem _ rowMem) isBook
        · rw [given.books row (List.mem_cons_of_mem _ rowMem) first List.mem_cons_self isBook]

theorem insert_links_taxon (id : Int) (links : List BookLink) (taxon : Taxon) :
    links.foldl (fun taxon link => insertLink kind taxon link.bookId id link.position) taxon =
      { taxon with
        links := (links.foldl (fun taxon link =>
          insertLink kind taxon link.bookId id link.position) taxon).links } := by
  induction links generalizing taxon with
  | nil => rfl
  | cons link links induction =>
      rw [List.foldl_cons, induction]
      rfl

theorem restore_links_taxon (id : Int) (links : List BookLink) (taxon : Taxon) :
    links.foldl (restoreLink kind snapshot id) taxon =
      { taxon with links := (links.foldl (restoreLink kind snapshot id) taxon).links } := by
  induction links generalizing taxon with
  | nil => rfl
  | cons link links induction =>
      rw [List.foldl_cons, induction]
      unfold restoreLink
      dsimp only
      split_ifs <;> rfl

end Recreate

section Sources

variable {sources : List MergedSource} {snapshot : MergeSnapshot}

/-- What a snapshot of a source keeps of the tables' constraints. -/
structure Returnable (kind : MergeEntity) (source : MergedSource) : Prop where
  links : Given kind source.links
  sort : kind.hasSort = false → source.sort = none

/-- The sources are back, each under an id of its own that was not given out before. -/
structure Returned (kind : MergeEntity) (snapshot : MergeSnapshot) (sources : List MergedSource)
    (fresh : Int → Int) (db after : Database) : Prop where
  others : ∀ other, other ≠ kind → after.taxa other = db.taxa other
  lastId : (db.taxa kind).lastId ≤ (after.taxa kind).lastId
  overrides : (after.taxa kind).overrideNames = (db.taxa kind).overrideNames
  ids : ∀ source ∈ sources, (db.taxa kind).lastId < fresh source.id ∧
    fresh source.id ≤ (after.taxa kind).lastId
  apart : ∀ left ∈ sources, ∀ right ∈ sources, fresh left.id = fresh right.id → left.id = right.id
  rows : ∀ row, row ∈ (after.taxa kind).rows ↔ row ∈ (db.taxa kind).rows ∨
    ∃ source ∈ sources, row = ⟨fresh source.id, source.name, source.sort⟩
  links : ∀ link, link ∈ (after.taxa kind).links ↔
    (link ∈ (db.taxa kind).links ∧ ¬Takes snapshot sources link.book link.entity) ∨
      ∃ source ∈ sources, ∃ given ∈ source.links,
        link = ⟨given.bookId, fresh source.id, given.position⟩
  photos : ∀ pair, pair ∈ after.photos ↔ pair ∈ db.photos ∨ kind = .author ∧
    ∃ source ∈ sources, ∃ photo, source.photo = some photo ∧ pair = (fresh source.id, photo)
  ignored : after.ignored = db.ignored
  aliases : ∀ row, row ∈ after.aliases ↔
    (row ∈ db.aliases ∧ ∀ source ∈ sources, row.isFor kind source.name = false) ∨
      ∃ source ∈ sources, ∃ previous, source.previousAlias = some previous ∧
        row = ⟨kind, source.name, previous⟩

theorem Returned.bounded {fresh : Int → Int} (bounded : Bounded kind db)
    (returned : Returned kind snapshot sources fresh db after) : Bounded kind after := by
  constructor
  · intro row member
    rcases (returned.rows row).mp member with before | ⟨source, sourceMem, rfl⟩
    · exact (bounded.rows row before).trans returned.lastId
    · exact (returned.ids source sourceMem).2
  · intro link member
    rcases (returned.links link).mp member with ⟨before, _⟩ | ⟨source, sourceMem, _, _, rfl⟩
    · exact (bounded.links link before).trans returned.lastId
    · exact (returned.ids source sourceMem).2
  · intro isAuthor photo member
    rcases (returned.photos photo).mp member with before | ⟨_, source, sourceMem, _, _, rfl⟩
    · exact (bounded.photos isAuthor photo before).trans returned.lastId
    · exact (returned.ids source sourceMem).2

theorem mem_write_fresh {id : Int} {photo : Photo} (written : writePhoto db id photo = some after)
    (fresh : ∀ pair ∈ db.photos, pair.1 ≠ id) (pair : Int × Photo) :
    pair ∈ after.photos ↔ pair ∈ db.photos ∨ pair = (id, photo) := by
  rw [mem_write_photo written]
  exact or_congr_left ⟨And.left, fun member => ⟨member, fresh pair member⟩⟩

theorem write_fresh_photo {id : Int} (photo : Option Photo)
    (live : ∃ row ∈ (db.taxa .author).rows, row.id = id)
    (fresh : ∀ pair ∈ db.photos, pair.1 ≠ id) :
    ∃ after, photo.elim (some db) (writePhoto db id) = some after ∧ after.taxa = db.taxa ∧
      after.aliases = db.aliases ∧ after.ignored = db.ignored ∧
      ∀ pair, pair ∈ after.photos ↔ pair ∈ db.photos ∨
        ∃ given, photo = some given ∧ pair = (id, given) := by
  cases photo with
  | none => exact ⟨db, rfl, rfl, rfl, rfl, by simp⟩
  | some photo =>
      obtain ⟨after, written⟩ := write_photo_live photo live
      obtain ⟨taxa, aliases, ignored⟩ := write_photo_taxa written
      refine ⟨after, written, taxa, aliases, ignored, fun pair => ?_⟩
      rw [mem_write_fresh written fresh]
      simp

theorem author_pictured {linked : Database} {id : Int} (source : MergedSource)
    (live : kind = .author → ∃ row ∈ (linked.taxa .author).rows, row.id = id)
    (unpictured : kind = .author → ∀ pair ∈ linked.photos, pair.1 ≠ id) :
    ∃ pictured,
      (match kind, source.photo with
        | .author, some photo => writePhoto linked id photo
        | _, _ => some linked) = some pictured ∧
      pictured.taxa = linked.taxa ∧ pictured.aliases = linked.aliases ∧
      pictured.ignored = linked.ignored ∧
      ∀ pair, pair ∈ pictured.photos ↔ pair ∈ linked.photos ∨ kind = .author ∧
        ∃ photo, source.photo = some photo ∧ pair = (id, photo) := by
  by_cases isAuthor : kind = .author
  · subst isAuthor
    obtain ⟨pictured, written, taxa, sameAliases, sameIgnored, photos⟩ :=
      write_fresh_photo source.photo (live rfl) (unpictured rfl)
    refine ⟨pictured, ?_, taxa, sameAliases, sameIgnored, fun pair => ?_⟩
    · rw [← written]
      cases source.photo <;> rfl
    · rw [photos]
      simp
  · refine ⟨linked, ?_, rfl, rfl, rfl, fun pair => ?_⟩
    · split
      · exact absurd rfl isAuthor
      · rfl
    · exact ⟨.inl, fun member => member.elim (fun old => old) fun gained => absurd gained.1 isAuthor⟩

theorem restore_source_returned {source : MergedSource} (bounded : Bounded kind db)
    (absent : ∀ row ∈ (db.taxa kind).rows, sameName row.name source.name = false)
    (returnable : Returnable kind source)
    (known : snapshot.canonicalId ≤ (db.taxa kind).lastId) :
    ∃ after, restoreSource kind snapshot db source = some after ∧
      Returned kind snapshot [source] (fun _ => (db.taxa kind).lastId + 1) db after := by
  unfold restoreSource
  rw [recreate_absent source.sort absent]
  dsimp only
  have isSort : (if kind.hasSort = true then source.sort else none) = source.sort := by
    split_ifs with sorted
    · rfl
    · exact (returnable.sort (Bool.eq_false_iff.mpr sorted)).symm
  rw [isSort, restore_links_taxon]
  generalize isRecreated : ({ db.taxa kind with
    rows := (db.taxa kind).rows ++ [⟨(db.taxa kind).lastId + 1, source.name, source.sort⟩]
    lastId := (db.taxa kind).lastId + 1 } : Taxon) = recreated
  have sameLinks : recreated.links = (db.taxa kind).links := by
    rw [← isRecreated]
  have newId : (db.taxa kind).lastId + 1 ≠ snapshot.canonicalId := by omega
  have free : ∀ other ∈ recreated.links, other.entity = (db.taxa kind).lastId + 1 →
      ∀ link ∈ source.links, link.bookId = other.book → other.position = link.position := by
    intro other otherMem isEntity
    have := bounded.links other (sameLinks ▸ otherMem)
    omega
  have linksIff := mem_restore_links returnable.links newId free
  generalize (source.links.foldl (restoreLink kind snapshot ((db.taxa kind).lastId + 1))
    recreated).links = links at linksIff
  generalize isLinked : db.setTaxon kind { recreated with links := links } = linked
  have taxon : linked.taxa kind =
      ⟨(db.taxa kind).rows ++ [⟨(db.taxa kind).lastId + 1, source.name, source.sort⟩],
        (db.taxa kind).lastId + 1, links, (db.taxa kind).overrideNames⟩ := by
    rw [← isLinked, set_taxon_same, ← isRecreated]
  have photosBefore : linked.photos = db.photos := by
    rw [← isLinked]
    rfl
  have ignored : linked.ignored = db.ignored := by
    rw [← isLinked]
    rfl
  have aliases : linked.aliases = db.aliases := by
    rw [← isLinked]
    rfl
  have live (isAuthor : kind = .author) :
      ∃ row ∈ (linked.taxa .author).rows, row.id = (db.taxa kind).lastId + 1 := by
    subst isAuthor
    rw [taxon]
    exact ⟨_, List.mem_append_right _ List.mem_cons_self, rfl⟩
  have unpictured (isAuthor : kind = .author) (pair : Int × Photo) (member : pair ∈ linked.photos) :
      pair.1 ≠ (db.taxa kind).lastId + 1 := by
    subst isAuthor
    rw [photosBefore] at member
    have atMost := bounded.photos rfl pair member
    omega
  obtain ⟨pictured, isPictured, taxa, sameAliases, sameIgnored, photos⟩ :=
    author_pictured source live unpictured
  rw [photosBefore] at photos
  refine ⟨_, Option.map_eq_some_iff.mpr ⟨pictured, isPictured, rfl⟩, ?_⟩
  constructor
  · intro other apart
    change pictured.taxa other = _
    rw [taxa, ← isLinked, set_taxon_other apart]
  · change _ ≤ (pictured.taxa kind).lastId
    rw [taxa, taxon]
    dsimp only
    omega
  · change (pictured.taxa kind).overrideNames = _
    rw [taxa, taxon]
  · intro other _
    change _ ∧ _ ≤ (pictured.taxa kind).lastId
    rw [taxa, taxon]
    dsimp only
    omega
  · intro left leftMem right rightMem _
    rw [List.mem_singleton.mp leftMem, List.mem_singleton.mp rightMem]
  · intro row
    change row ∈ (pictured.taxa kind).rows ↔ _
    rw [taxa, taxon]
    simp
  · intro link
    change link ∈ (pictured.taxa kind).links ↔ _
    rw [taxa, taxon]
    simp only [List.mem_singleton, exists_eq_left, Takes]
    rw [← sameLinks]
    exact linksIff link
  · intro pair
    simp only [List.mem_singleton, exists_eq_left]
    exact photos pair
  · exact sameIgnored.trans ignored
  · intro row
    simp only [List.mem_singleton, forall_eq, exists_eq_left]
    rw [← aliases, ← sameAliases]
    exact mem_restore_alias source

theorem takes_cons {source : MergedSource} {book entity : Int} :
    Takes snapshot (source :: sources) book entity ↔
      Takes snapshot [source] book entity ∨ Takes snapshot sources book entity := by
  unfold Takes
  simp only [List.exists_mem_cons_iff, List.not_mem_nil, false_and, exists_false, or_false,
    and_or_left]

theorem put_back_twice {before spared later first rest : Prop} (stays : first → later) :
    (((before ∧ spared) ∨ first) ∧ later) ∨ rest ↔
      (before ∧ spared ∧ later) ∨ first ∨ rest := by
  rw [or_and_right, and_assoc, and_iff_left_of_imp stays, or_assoc]

theorem Returned.single_rows {source : MergedSource} {id : Int}
    (one : Returned kind snapshot [source] (fun _ => id) db after) (row : EntityRow) :
    row ∈ (after.taxa kind).rows ↔
      row ∈ (db.taxa kind).rows ∨ row = ⟨id, source.name, source.sort⟩ := by
  rw [one.rows]
  simp

theorem Returned.single_links {source : MergedSource} {id : Int}
    (one : Returned kind snapshot [source] (fun _ => id) db after) (link : LinkRow) :
    link ∈ (after.taxa kind).links ↔
      (link ∈ (db.taxa kind).links ∧ ¬Takes snapshot [source] link.book link.entity) ∨
        ∃ given ∈ source.links, link = ⟨given.bookId, id, given.position⟩ := by
  rw [one.links]
  simp

theorem Returned.single_photos {source : MergedSource} {id : Int}
    (one : Returned kind snapshot [source] (fun _ => id) db after) (pair : Int × Photo) :
    pair ∈ after.photos ↔ pair ∈ db.photos ∨
      kind = .author ∧ ∃ photo, source.photo = some photo ∧ pair = (id, photo) := by
  rw [one.photos]
  simp

theorem Returned.single_aliases {source : MergedSource} {fresh : Int → Int}
    (one : Returned kind snapshot [source] fresh db after) (row : AliasRow) :
    row ∈ after.aliases ↔ (row ∈ db.aliases ∧ row.isFor kind source.name = false) ∨
      ∃ previous, source.previousAlias = some previous ∧ row = ⟨kind, source.name, previous⟩ := by
  rw [one.aliases]
  simp

theorem Returned.cons {source : MergedSource} {middle : Database} {fresh : Int → Int}
    (known : snapshot.canonicalId ≤ (db.taxa kind).lastId)
    (newId : source.id ∉ sources.map (·.id))
    (newName : ∀ other ∈ sources, sameName source.name other.name = false)
    (one : Returned kind snapshot [source] (fun _ => (db.taxa kind).lastId + 1) db middle)
    (rest : Returned kind snapshot sources fresh middle after) :
    Returned kind snapshot (source :: sources)
      (fun id => if id = source.id then (db.taxa kind).lastId + 1 else fresh id) db after := by
  have first := one.ids source List.mem_cons_self
  -- the first source keeps the id it was given, the others theirs
  have apart (other : MergedSource) (otherMem : other ∈ sources) : other.id ≠ source.id :=
    fun same => newId (same ▸ List.mem_map_of_mem otherMem)
  generalize isAll : (fun id => if id = source.id then (db.taxa kind).lastId + 1 else fresh id) = all
  have allFirst : all source.id = (db.taxa kind).lastId + 1 := by
    rw [← isAll]
    exact if_pos rfl
  have allRest (other : MergedSource) (otherMem : other ∈ sources) :
      all other.id = fresh other.id := by
    rw [← isAll]
    exact if_neg (apart other otherMem)
  have later (other : MergedSource) (otherMem : other ∈ sources) :
      all source.id < all other.id := by
    rw [allFirst, allRest other otherMem]
    exact first.2.trans_lt (rest.ids other otherMem).1
  have restIds (given : Int → MergedSource → Prop) :
      (∃ other ∈ sources, given (fresh other.id) other) ↔
        ∃ other ∈ sources, given (all other.id) other := by
    apply exists_congr
    intro other
    apply and_congr_right
    intro otherMem
    rw [allRest other otherMem]
  constructor
  · exact fun other notKind => (rest.others other notKind).trans (one.others other notKind)
  · exact one.lastId.trans rest.lastId
  · exact rest.overrides.trans one.overrides
  · intro other member
    rcases List.mem_cons.mp member with rfl | inRest
    · rw [allFirst]
      exact ⟨first.1, first.2.trans rest.lastId⟩
    · rw [allRest other inRest]
      have later := rest.ids other inRest
      exact ⟨lt_of_le_of_lt one.lastId later.1, later.2⟩
  · intro left leftMem right rightMem same
    rcases List.mem_cons.mp leftMem with rfl | leftRest
    · rcases List.mem_cons.mp rightMem with rfl | rightRest
      · rfl
      · exact absurd same (later right rightRest).ne
    · rcases List.mem_cons.mp rightMem with rfl | rightRest
      · exact absurd same (later left leftRest).ne'
      · rw [allRest left leftRest, allRest right rightRest] at same
        exact rest.apart left leftRest right rightRest same
  · intro row
    rw [rest.rows, one.single_rows, or_assoc, List.exists_mem_cons_iff, allFirst]
    exact or_congr_right (or_congr_right
      (restIds fun id other => row = ⟨id, other.name, other.sort⟩))
  · intro link
    have taken : Takes snapshot (source :: sources) link.book link.entity ↔
        Takes snapshot [source] link.book link.entity ∨
          Takes snapshot sources link.book link.entity := takes_cons
    rw [rest.links, one.single_links, taken, List.exists_mem_cons_iff, allFirst]
    have others : (∃ other ∈ sources, ∃ given ∈ other.links,
        link = ⟨given.bookId, fresh other.id, given.position⟩) ↔
        ∃ other ∈ sources, ∃ given ∈ other.links,
          link = ⟨given.bookId, all other.id, given.position⟩ :=
      restIds fun id other => ∃ given ∈ other.links, link = ⟨given.bookId, id, given.position⟩
    rw [others, not_or]
    apply put_back_twice
    intro isFirst taken
    obtain ⟨given, _, rfl⟩ := isFirst
    have isCanonical := taken.1
    dsimp only at isCanonical
    omega
  · intro pair
    rw [rest.photos, one.single_photos, or_assoc, ← and_or_left, List.exists_mem_cons_iff, allFirst]
    exact or_congr_right (and_congr_right fun _ => or_congr_right
      (restIds fun id other => ∃ photo, other.photo = some photo ∧ pair = (id, photo)))
  · exact rest.ignored.trans one.ignored
  · intro row
    rw [rest.aliases, one.single_aliases]
    simp only [List.mem_cons, forall_eq_or_imp, exists_eq_or_imp]
    apply put_back_twice
    intro isFirst other otherMem
    obtain ⟨previous, _, rfl⟩ := isFirst
    rw [Bool.eq_false_iff]
    intro isFor
    have isName : source.name = other.name := (is_for_iff.mp isFor).2
    have notSame := newName other otherMem
    rw [isName, same_name_refl] at notSame
    cases notSame

theorem restore_sources_returned (bounded : Bounded kind db) (ids : (sources.map (·.id)).Nodup)
    (names : sources.Pairwise fun left right => sameName left.name right.name = false)
    (absent : ∀ source ∈ sources, ∀ row ∈ (db.taxa kind).rows,
      sameName row.name source.name = false)
    (returnable : ∀ source ∈ sources, Returnable kind source)
    (known : snapshot.canonicalId ≤ (db.taxa kind).lastId) :
    ∃ after fresh, sources.foldlM (restoreSource kind snapshot) db = some after ∧
      Returned kind snapshot sources fresh db after := by
  induction sources generalizing db with
  | nil =>
      exact ⟨db, id, rfl, fun _ _ => rfl, le_rfl, rfl, by simp, by simp, by simp,
        by simp [Takes], by simp, rfl, by simp⟩
  | cons source sources induction =>
      obtain ⟨middle, restored, one⟩ := restore_source_returned bounded
        (absent source List.mem_cons_self) (returnable source List.mem_cons_self) known
      rw [List.map_cons, List.nodup_cons] at ids
      obtain ⟨namesFirst, namesRest⟩ := List.pairwise_cons.mp names
      have absentRest (other : MergedSource) (otherMem : other ∈ sources) (row : EntityRow)
          (member : row ∈ (middle.taxa kind).rows) : sameName row.name other.name = false := by
        rcases (one.rows row).mp member with before | ⟨_, isSource, rfl⟩
        · exact absent other (List.mem_cons_of_mem _ otherMem) row before
        · rw [List.mem_singleton.mp isSource]
          exact namesFirst other otherMem
      obtain ⟨after, fresh, restoredRest, rest⟩ := induction (one.bounded bounded) ids.2 namesRest
        absentRest (fun other otherMem => returnable other (List.mem_cons_of_mem _ otherMem))
        (known.trans one.lastId)
      refine ⟨after, _, ?_, one.cons known ids.1 namesFirst rest⟩
      rw [List.foldlM_cons, restored]
      exact restoredRest

end Sources

end Omnibus.Cleanup
