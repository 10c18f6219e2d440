import Mathlib.Data.List.Nodup
import Mathlib.Tactic.Linarith
import Omnibus.LibraryMirror.Pass

/-!
# A promoted mirror is the whole library

A stored cursor promises that every book before it is staged. A pass that restarts an aged-out one
breaks the promise until it stores its own first cursor, and a promotion breaks it until the
cursor is deleted: an interruption in between leaves a cursor with nothing staged behind it.
-/

namespace Omnibus.LibraryMirror

open Omnibus.Library.Runs

variable {Cursor : Type}

def Covers (library : Library Cursor) (staging : List BookRow) (cursor : Option Cursor) : Prop :=
  ∀ row ∈ library.books.take (library.passed cursor), row ∈ staging

theorem same_row (library : Library Cursor) (first second : BookRow) (held : first ∈ library.books)
    (other : second ∈ library.books) (same : first.uuid = second.uuid) : first = second :=
  List.inj_on_of_nodup_map library.distinct held other same

theorem mem_put_row (library : Library Cursor) (rows : List BookRow) (row other : BookRow)
    (added : row ∈ library.books) (held : other ∈ library.books)
    (present : other ∈ rows ∨ other = row) : other ∈ putRow rows row := by
  rw [putRow]
  split
  · rename_i known
    obtain ⟨old, place, same⟩ := List.any_eq_true.mp known
    by_cases own : other.uuid = row.uuid
    · have equal : other = row := same_row library other row held added own
      exact List.mem_map.mpr ⟨old, place, by rw [if_pos (of_decide_eq_true same), equal]⟩
    · obtain kept | rfl := present
      · exact List.mem_map.mpr ⟨other, kept, if_neg own⟩
      · exact absurd rfl own
  · exact List.mem_append.mpr (present.imp id List.mem_singleton.mpr)

theorem put_row_subset (rows : List BookRow) (row other : BookRow)
    (present : other ∈ putRow rows row) : other ∈ rows ∨ other = row := by
  rw [putRow] at present
  split at present
  · obtain ⟨old, place, same⟩ := List.mem_map.mp present
    split at same
    · exact Or.inr same.symm
    · exact Or.inl (same ▸ place)
  · exact (List.mem_append.mp present).imp id List.mem_singleton.mp

theorem mem_put_rows (library : Library Cursor) (rows added : List BookRow) (other : BookRow)
    (books : added ⊆ library.books) (held : other ∈ library.books)
    (present : other ∈ rows ∨ other ∈ added) : other ∈ putRows rows added := by
  rw [putRows]
  induction added generalizing rows with
  | nil => simpa using present
  | cons row rest induction =>
      have first : row ∈ library.books := books List.mem_cons_self
      apply induction _ (fun _ later => books (List.mem_cons_of_mem _ later))
      obtain kept | new := present
      · exact Or.inl (mem_put_row library rows row other first held (Or.inl kept))
      · obtain same | later := List.mem_cons.mp new
        · exact Or.inl (mem_put_row library rows row other first held (Or.inr same))
        · exact Or.inr later

theorem put_rows_subset (rows added : List BookRow) (other : BookRow)
    (present : other ∈ putRows rows added) : other ∈ rows ∨ other ∈ added := by
  rw [putRows] at present
  induction added generalizing rows with
  | nil => exact Or.inl present
  | cons row rest induction =>
      obtain earlier | later := induction _ present
      · obtain kept | same := put_row_subset rows row other earlier
        · exact Or.inl kept
        · exact Or.inr (List.mem_cons.mpr (Or.inl same))
      · exact Or.inr (List.mem_cons_of_mem _ later)

theorem page_books (library : Library Cursor) (cursor : Option Cursor) :
    (library.page cursor).1 ⊆ library.books := by
  intro row present
  cases after : (library.page cursor).2 with
  | none =>
      rw [library.last cursor after]
      exact List.mem_append_right _ present
  | some next =>
      apply List.mem_of_mem_take (i := library.passed (some next))
      rw [library.more cursor next after]
      exact List.mem_append_right _ present

/-- What the mirror promises: every promotion found the library staged, the mirror holds it since,
and no download of one of its books was deleted. -/
structure Whole (library : Library Cursor) (store : Store Cursor) : Prop where
  promoted : ∀ staged ∈ store.promoted, ∀ row, row ∈ staged ↔ row ∈ library.books
  mirrored : store.promoted ≠ [] → ∀ row ∈ library.books, row ∈ store.books
  pruned : ∀ record ∈ store.pruned, ∀ row ∈ library.books, row.uuid ≠ record.bookUuid

/-- The stored cursor is resumable: what lies before it is staged, or its pass has aged out. -/
def Resumable (library : Library Cursor) (store : Store Cursor) : Prop :=
  ∀ cursor, store.cursor = some cursor →
    Covers library store.staging (some cursor) ∨ agedOut store.startedAt store.clock = true

/-- A cursor is stored that the pass has left behind: the pass restarted an aged-out one and has
not yet stored a cursor of its own, or it has promoted and not yet deleted the cursor. -/
def Torn (store : Store Cursor) : Stage Cursor → Bool
  | .countStaged none | .fetching none _ | .appending none _ _ _ | .putCursor none _ _
  | .promote none | .dropCursor => store.cursor.isSome
  | _ => false

def Stage.fetches : Stage Cursor → Bool
  | .fetching _ _ => true
  | _ => false

/-- Not interrupted where a left-behind cursor is stored, and no call enters while another awaits
its throttle. -/
def Uninterrupted (world : World Cursor) : Action → Prop
  | .sync _ => world.passes = [] ∨ world.syncing = true
  | .advance index reached =>
      reached = true ∨
        ∀ stage ∈ world.passes[index]?, stage.fetches = true → Torn world.store stage = false
  | .kill => ∀ stage ∈ world.passes, Torn world.store stage = false
  | .wait _ => True
  | .download _ => True

instance Uninterrupted.decidable (world : World Cursor) :
    (action : Action) → Decidable (Uninterrupted world action)
  | .sync _ => inferInstanceAs (Decidable (world.passes = [] ∨ world.syncing = true))
  | .advance index reached =>
      inferInstanceAs (Decidable (reached = true ∨
        ∀ stage ∈ world.passes[index]?, stage.fetches = true → Torn world.store stage = false))
  | .kill =>
      inferInstanceAs (Decidable (∀ stage ∈ world.passes, Torn world.store stage = false))
  | .wait _ => .isTrue trivial
  | .download _ => .isTrue trivial

def InHand (library : Library Cursor) (store : Store Cursor) : Stage Cursor → Prop
  | .readStarted cursor => store.cursor = some cursor
  | .clearAged => agedOut store.startedAt store.clock = true
  | .clearForPass => store.cursor = none ∨ agedOut store.startedAt store.clock = true
  | .putStarted =>
      store.staging = [] ∧ (store.cursor = none ∨ agedOut store.startedAt store.clock = true)
  | .countStaged cursor =>
      Covers library store.staging cursor ∧ (cursor = none → store.staging = [])
  | .fetching cursor _ => Covers library store.staging cursor
  | .appending cursor _ rows next =>
      Covers library store.staging cursor ∧ library.page cursor = (rows, next)
  | .putCursor _ _ next => Covers library store.staging (some next)
  | .promote _ => ∀ row ∈ library.books, row ∈ store.staging
  | .dropCursor | .dropStarted | .putCompleted | .countBooks | .checkKinds | .prune _ =>
      store.promoted ≠ []
  | _ => True

structure Sound (library : Library Cursor) (store : Store Cursor) : Prop where
  whole : Whole library store
  staged : store.staging ⊆ library.books

theorem Sound.of_tables {library : Library Cursor} {store later : Store Cursor}
    (sound : Sound library store) (books : later.books = store.books)
    (promoted : later.promoted = store.promoted) (pruned : later.pruned = store.pruned)
    (staged : later.staging ⊆ library.books) : Sound library later := by
  obtain ⟨⟨exact', mirrored, kept⟩, -⟩ := sound
  rw [← promoted] at exact'
  rw [← promoted, ← books] at mirrored
  rw [← pruned] at kept
  exact ⟨⟨exact', mirrored, kept⟩, staged⟩

/-- The stage after a call, or the end of the pass, finds what it relies on. -/
def Follows (library : Library Cursor) (store : Store Cursor) : Option (Stage Cursor) → Prop
  | none => Resumable library store
  | some stage => InHand library store stage ∧ (Torn store stage = false → Resumable library store)

theorem covers_start (library : Library Cursor) (staging : List BookRow) :
    Covers library staging none := by
  intro row before
  rw [library.start] at before
  simp at before

theorem resumable_of_none (library : Library Cursor) (store : Store Cursor)
    (none' : store.cursor = none) : Resumable library store := by
  intro cursor stored
  rw [none'] at stored
  cases stored

theorem loop_follows (library : Library Cursor) (store : Store Cursor) (cursor : Option Cursor)
    (fetched : Nat) (covers : Covers library store.staging cursor)
    (resumable : fetched < maxSyncedBooks ∧ cursor = none ∨ Resumable library store) :
    Follows library store (some (loop cursor fetched)) := by
  rw [loop]
  split
  · refine ⟨covers, fun whole => ?_⟩
    obtain ⟨-, rfl⟩ | resumable := resumable
    · apply resumable_of_none library store
      simpa [Torn] using whole
    · exact resumable
  · rename_i full
    refine ⟨trivial, fun _ => ?_⟩
    obtain ⟨under, -⟩ | resumable := resumable
    · exact absurd under full
    · exact resumable

theorem append_follows (library : Library Cursor) (reached : Bool) (store : Store Cursor)
    (cursor : Option Cursor) (count : Nat) (rows : List BookRow) (next : Option Cursor)
    (sound : Sound library store) (covers : Covers library store.staging cursor)
    (paged : library.page cursor = (rows, next))
    (resumable : Torn store (.appending cursor count rows next) = false →
      Resumable library store) :
    let after := Stage.advance library reached store (.appending cursor count rows next)
    Sound library after.1 ∧ Follows library after.1 after.2 := by
  have fromPage : (library.page cursor).1 = rows := by rw [paged]
  have added : rows ⊆ library.books := by
    rw [← fromPage]
    exact page_books library cursor
  have grown : ∀ row ∈ library.books, row ∈ store.staging ∨ row ∈ rows →
      row ∈ putRows store.staging rows :=
    fun row held => mem_put_rows library store.staging rows row added held
  have staged : putRows store.staging rows ⊆ library.books := by
    intro row present
    exact (put_rows_subset store.staging rows row present).elim (fun old => sound.staged old)
      fun new => added new
  have resumes : Torn store (.appending cursor count rows next) = false →
      Resumable library { store with staging := putRows store.staging rows } := by
    intro whole other stored
    exact (resumable whole other stored).imp
      (fun covered row before => grown row (List.mem_of_mem_take before)
        (Or.inl (covered row before))) id
  have passed : ∀ row ∈ library.books.take (library.passed cursor) ++ rows,
      row ∈ putRows store.staging rows := by
    intro row before
    obtain earlier | here := List.mem_append.mp before
    · exact grown row (List.mem_of_mem_take earlier) (Or.inl (covers row earlier))
    · exact grown row (added here) (Or.inr here)
  refine ⟨sound.of_tables rfl rfl rfl staged, ?_⟩
  cases next with
  | none =>
      refine ⟨fun row held => passed row ?_, fun whole => resumes (by cases cursor <;> exact whole)⟩
      rw [← fromPage, ← library.last cursor (by rw [paged])]
      exact held
  | some next =>
      refine ⟨fun row before => passed row ?_,
        fun whole => resumes (by cases cursor <;> exact whole)⟩
      rw [← fromPage, ← library.more cursor next (by rw [paged])]
      exact before

theorem promote_follows (library : Library Cursor) (store : Store Cursor)
    (sound : Sound library store) (staged : ∀ row ∈ library.books, row ∈ store.staging) :
    let later := { store with
      books := store.staging, staging := [], promoted := store.promoted ++ [store.staging] }
    Sound library later ∧ Follows library later (some .dropCursor) := by
  refine ⟨⟨⟨?_, fun _ => staged, sound.whole.pruned⟩, List.nil_subset _⟩, by simp [InHand], ?_⟩
  · intro found member row
    obtain earlier | here := List.mem_append.mp member
    · exact sound.whole.promoted found earlier row
    · rw [List.mem_singleton.mp here]
      exact ⟨fun present => sound.staged present, staged row⟩
  · intro whole
    exact resumable_of_none library _ (by simpa [Torn] using whole)

theorem prune_sound (library : Library Cursor) (store : Store Cursor)
    (kinds : List DownloadKind) (sound : Sound library store) (mirrored : store.promoted ≠ []) :
    Sound library { store with
      downloads := store.downloads.filter fun record => !orphaned store.books kinds record
      pruned := store.pruned ++ store.downloads.filter (orphaned store.books kinds) } := by
  refine ⟨⟨sound.whole.promoted, sound.whole.mirrored, ?_⟩, sound.staged⟩
  intro record member row held same
  obtain earlier | here := List.mem_append.mp member
  · exact sound.whole.pruned record earlier row held same
  · have orphan := (List.mem_filter.mp here).2
    have present := sound.whole.mirrored mirrored row held
    simp only [orphaned, Bool.and_eq_true, Bool.not_eq_true', List.any_eq_false,
      decide_eq_true_eq] at orphan
    exact orphan.2 row present same

theorem publish_sound (library : Library Cursor) (store : Store Cursor)
    (sound : Sound library store) :
    Sound library { store with books := putRows store.books store.staging } := by
  refine ⟨⟨sound.whole.promoted, fun mirrored row held => ?_, sound.whole.pruned⟩, sound.staged⟩
  exact mem_put_rows library store.books store.staging row sound.staged held
    (Or.inl (sound.whole.mirrored mirrored row held))

/-- One awaited call keeps what the tables promise, and the stage after it finds what it relies
on, or the pass may be resumed. -/
theorem advance_follows (library : Library Cursor) (reached : Bool) (store : Store Cursor)
    (stage : Stage Cursor) (sound : Sound library store) (inHand : InHand library store stage)
    (resumable : Torn store stage = false → Resumable library store)
    (fetched : reached = true ∨ (stage.fetches = true → Torn store stage = false)) :
    Sound library (stage.advance library reached store).1 ∧
      Follows library (stage.advance library reached store).1
        (stage.advance library reached store).2 := by
  cases stage with
  | checkRecent =>
      refine ⟨sound, ?_⟩
      simp only [Stage.advance]
      split
      · exact resumable rfl
      · exact ⟨trivial, fun _ => resumable rfl⟩
  | readCursor =>
      refine ⟨sound, ?_⟩
      simp only [Stage.advance]
      split
      · rename_i stored
        exact ⟨Or.inl stored, fun _ => resumable rfl⟩
      · rename_i stored
        exact ⟨stored, fun _ => resumable rfl⟩
  | readStarted cursor =>
      refine ⟨sound, ?_⟩
      simp only [Stage.advance]
      split
      · rename_i aged
        exact ⟨aged, fun _ => resumable rfl⟩
      · rename_i fresh
        obtain covers | aged := resumable rfl cursor inHand
        · exact ⟨⟨covers, by simp⟩, fun _ => resumable rfl⟩
        · exact absurd aged fresh
  | clearAged =>
      refine ⟨sound.of_tables rfl rfl rfl (List.nil_subset _), ?_⟩
      exact ⟨Or.inr inHand, fun _ _ _ => Or.inr inHand⟩
  | clearForPass =>
      refine ⟨sound.of_tables rfl rfl rfl (List.nil_subset _), ?_⟩
      refine ⟨⟨rfl, inHand⟩, fun _ cursor stored => Or.inr ?_⟩
      obtain none' | aged := inHand
      · exact absurd (none'.symm.trans stored) (by simp)
      · exact aged
  | putStarted =>
      refine ⟨sound.of_tables rfl rfl rfl sound.staged, ?_⟩
      refine ⟨⟨covers_start library _, fun _ => inHand.1⟩, fun whole => ?_⟩
      exact resumable_of_none library _ (by simpa [Torn] using whole)
  | countStaged cursor =>
      refine ⟨sound, loop_follows library store cursor _ inHand.1 ?_⟩
      cases cursor with
      | none =>
          refine Or.inl ⟨?_, rfl⟩
          rw [inHand.2 rfl]
          decide
      | some cursor => exact Or.inr (resumable rfl)
  | fetching cursor count =>
      refine ⟨sound, ?_⟩
      simp only [Stage.advance]
      split
      · exact ⟨⟨inHand, rfl⟩, fun whole => resumable (by cases cursor <;> exact whole)⟩
      · rename_i failed
        refine ⟨trivial, fun _ => resumable ?_⟩
        obtain reached | whole := fetched
        · exact absurd reached failed
        · exact whole rfl
  | appending cursor count rows next =>
      exact append_follows library reached store cursor count rows next sound inHand.1 inHand.2 resumable
  | putCursor cursor count next =>
      refine ⟨sound.of_tables rfl rfl rfl sound.staged, ?_⟩
      refine loop_follows library _ _ _ inHand (Or.inr fun other stored => Or.inl ?_)
      exact Option.some.inj stored ▸ inHand
  | promote cursor => exact promote_follows library store sound inHand
  | dropCursor =>
      refine ⟨sound.of_tables rfl rfl rfl sound.staged, ?_⟩
      exact ⟨inHand, fun _ => resumable_of_none library _ rfl⟩
  | dropStarted =>
      refine ⟨sound.of_tables rfl rfl rfl sound.staged, ?_⟩
      exact ⟨inHand, fun _ cursor _ => Or.inr rfl⟩
  | putCompleted =>
      refine ⟨sound.of_tables rfl rfl rfl sound.staged, ?_⟩
      exact ⟨inHand, fun _ => resumable rfl⟩
  | countBooks =>
      refine ⟨sound, ?_⟩
      simp only [Stage.advance]
      split
      · exact resumable rfl
      · exact ⟨inHand, fun _ => resumable rfl⟩
  | checkKinds =>
      refine ⟨sound, ?_⟩
      simp only [Stage.advance]
      split
      · exact resumable rfl
      · exact ⟨inHand, fun _ => resumable rfl⟩
  | prune kinds => exact ⟨prune_sound library store kinds sound inHand, resumable rfl⟩
  | interruptedBooks =>
      refine ⟨sound, ?_⟩
      simp only [Stage.advance]
      split
      · exact ⟨trivial, fun _ => resumable rfl⟩
      · exact resumable rfl
  | interruptedStaged =>
      refine ⟨sound, ?_⟩
      simp only [Stage.advance]
      split
      · exact resumable rfl
      · exact ⟨trivial, fun _ => resumable rfl⟩
  | publish => exact ⟨publish_sound library store sound, resumable rfl⟩

/-- The device between two steps: at most one pass, at a stage that finds what it relies on. -/
structure Steady (library : Library Cursor) (world : World Cursor) : Prop where
  sound : Sound library world.store
  pass : (world.passes = [] ∧ Resumable library world.store) ∨
    ∃ stage, world.passes = [stage] ∧ Follows library world.store (some stage)

section Later

variable (library : Library Cursor) (store later : Store Cursor)

theorem resumable_outlasts (cursor : later.cursor = store.cursor)
    (staging : later.staging = store.staging)
    (aged : agedOut store.startedAt store.clock = true →
      agedOut later.startedAt later.clock = true)
    (resumable : Resumable library store) : Resumable library later := by
  intro other stored
  rw [staging]
  rw [cursor] at stored
  exact (resumable other stored).imp id aged

/-- What a pass relies on outlasts the passing of time and what other parts of the app do. -/
theorem follows_outlasts (cursor : later.cursor = store.cursor)
    (staging : later.staging = store.staging) (promoted : later.promoted = store.promoted)
    (aged : agedOut store.startedAt store.clock = true →
      agedOut later.startedAt later.clock = true)
    (stage : Stage Cursor) (follows : Follows library store (some stage)) :
    Follows library later (some stage) := by
  obtain ⟨inHand, resumable⟩ := follows
  refine ⟨?_, fun whole => resumable_outlasts library store later cursor staging aged (resumable ?_)⟩
  · cases stage with
    | clearAged => exact aged inHand
    | clearForPass => exact inHand.imp (fun none' => cursor.trans none') aged
    | putStarted => exact ⟨staging.trans inHand.1, inHand.2.imp (fun none' => cursor.trans none') aged⟩
    | readStarted other => exact cursor.trans inHand
    | countStaged _ | fetching _ _ | appending _ _ _ _ | putCursor _ _ _ | promote _ | dropCursor
    | dropStarted | putCompleted | countBooks | checkKinds | prune _ =>
        simpa only [InHand, staging, promoted] using inHand
    | _ => trivial
  · rw [← whole]
    simp only [Torn, cursor]

end Later

theorem aged_out_wait (startedAt : Option Int) (clock : ℚ) (seconds : ℚ≥0)
    (aged : agedOut startedAt clock = true) : agedOut startedAt (clock + seconds) = true := by
  cases startedAt with
  | none => rfl
  | some started =>
      have passed : (0 : ℚ) ≤ seconds := seconds.2
      simp only [agedOut, Option.all_some, decide_eq_true_eq] at aged ⊢
      linarith

theorem steady_step (library : Library Cursor) (world : World Cursor) (action : Action)
    (next : World Cursor) (steady : Steady library world) (whole : Uninterrupted world action)
    (stepped : world.step library action = some next) : Steady library next := by
  obtain ⟨sound, pass⟩ := steady
  cases action with
  | sync force =>
      simp only [World.step] at stepped
      split at stepped
      · obtain rfl := Option.some.inj stepped
        exact ⟨sound, pass⟩
      · rename_i entering
        obtain rfl := Option.some.inj stepped
        obtain none' | syncing := whole
        · obtain ⟨-, resumable⟩ | ⟨stage, one, -⟩ := pass
          · refine ⟨sound, Or.inr ⟨if force then .readCursor else .checkRecent, ?_, ?_⟩⟩
            · rw [none']
              rfl
            · cases force <;> exact ⟨trivial, fun _ => resumable⟩
          · exact absurd one (by simp [none'])
        · exact absurd syncing entering
  | advance index reached =>
      simp only [World.step] at stepped
      cases place : world.passes[index]? with
      | none => simp [place] at stepped
      | some stage =>
          obtain ⟨none', -⟩ | ⟨only, one, inHand, resumable⟩ := pass
          · simp [none'] at place
          · have here : index = 0 ∧ only = stage := by
              rw [one] at place
              cases index with
              | zero => exact ⟨rfl, Option.some.inj place⟩
              | succ index => simp at place
            obtain ⟨rfl, rfl⟩ := here
            have fetched : reached = true ∨ (only.fetches = true → Torn world.store only = false) :=
              whole.imp id fun safe => safe only place
            obtain ⟨later, follows⟩ :=
              advance_follows library reached world.store only sound inHand resumable fetched
            simp only [place] at stepped
            split at stepped
            · rename_i after ended
              obtain rfl := Option.some.inj stepped
              rw [ended] at follows
              exact ⟨later, Or.inr ⟨after, by rw [one]; rfl, follows⟩⟩
            · rename_i ended
              obtain rfl := Option.some.inj stepped
              rw [ended] at follows
              exact ⟨later, Or.inl ⟨by rw [one]; rfl, follows⟩⟩
  | kill =>
      obtain rfl := Option.some.inj stepped
      refine ⟨sound, Or.inl ⟨rfl, ?_⟩⟩
      obtain ⟨-, resumable⟩ | ⟨stage, one, follows⟩ := pass
      · exact resumable
      · exact follows.2 (whole stage (by rw [one]; exact List.mem_singleton_self stage))
  | wait seconds =>
      obtain rfl := Option.some.inj stepped
      have aged := aged_out_wait world.store.startedAt world.store.clock seconds
      refine ⟨sound.of_tables rfl rfl rfl sound.staged, pass.imp ?_ ?_⟩
      · exact fun steady => ⟨steady.1, resumable_outlasts library world.store _ rfl rfl aged steady.2⟩
      · intro ⟨stage, one, follows⟩
        refine ⟨stage, one, ?_⟩
        exact follows_outlasts library world.store
          { world.store with clock := world.store.clock + seconds } rfl rfl rfl aged stage follows
  | download record =>
      obtain rfl := Option.some.inj stepped
      refine ⟨sound.of_tables rfl rfl rfl sound.staged, pass.imp ?_ ?_⟩
      · exact fun steady => ⟨steady.1, resumable_outlasts library world.store _ rfl rfl id steady.2⟩
      · intro ⟨stage, one, follows⟩
        exact ⟨stage, one, follows_outlasts library world.store _ rfl rfl rfl id stage follows⟩

/-- As long as no pass is interrupted where a left-behind cursor is stored, and none starts beside
another, every promotion finds the whole library staged, the mirror holds it since, and no
download of a book of the library is deleted. -/
theorem promoted_mirror_whole (library : Library Cursor) (clock : ℚ) (books : List BookRow)
    (downloads : List DownloadRecord) (actions : List Action) (world : World Cursor)
    (meets : Meets (World.step library) Uninterrupted (World.launch clock books downloads) actions)
    (ran : run (World.step library) (World.launch clock books downloads) actions = some world) :
    Whole library world.store := by
  have start : Steady library (World.launch clock books downloads) :=
    ⟨⟨⟨by simp [World.launch], by simp [World.launch], by simp [World.launch]⟩,
      List.nil_subset _⟩, Or.inl ⟨rfl, resumable_of_none library _ rfl⟩⟩
  exact (run_keeps (World.step library) (steady_step library) actions start meets ran).sound.whole

/-! ## An aged-out pass that fails on its first page -/

def firstBook : BookRow := ⟨"a".toList, ["epub".toList], "A".toList⟩

def secondBook : BookRow := ⟨"b".toList, ["epub".toList], "B".toList⟩

def twoPages : Library Unit where
  books := [firstBook, secondBook]
  distinct := by decide
  page
    | none => ([firstBook], some ())
    | some () => ([secondBook], none)
  passed
    | none => 0
    | some () => 1
  start := rfl
  more cursor next after := by
    cases cursor with
    | none => rfl
    | some cursor => cases after
  last cursor after := by
    cases cursor with
    | none => cases after
    | some cursor => rfl

def reach (steps : Nat) : List Action := List.replicate steps (.advance 0 true)

def heldDownload : DownloadRecord := ⟨"a".toList, .ebook⟩

/-- The first pass stops on its second page and ages out, the next fails on its first page, and the
third resumes from the cursor of the first. -/
def agedOutRun : List Action :=
  [.sync true] ++ reach 7 ++ [.advance 0 false] ++ reach 3 ++
    [.download heldDownload, .wait 3601] ++
    [.sync true] ++ reach 6 ++ [.advance 0 false] ++ reach 1 ++ [.sync true] ++ reach 12

/-- The promotion finds the second book alone, and the download of the first is deleted. -/
theorem stale_cursor_promotes_half :
    ∃ world, run (World.step twoPages) (World.launch 0 [] []) agedOutRun = some world ∧
      world.store.promoted = [[secondBook]] ∧ world.store.books = [secondBook] ∧
        world.store.pruned = [heldDownload] ∧ ¬Whole twoPages world.store := by
  obtain ⟨world, ran⟩ := Option.isSome_iff_exists.mp
    (show (run (World.step twoPages) (World.launch 0 [] []) agedOutRun).isSome = true by
      decide +kernel)
  have tables : (run (World.step twoPages) (World.launch 0 [] []) agedOutRun).map
      (fun world => (world.store.promoted, world.store.books, world.store.pruned)) =
        some ([[secondBook]], [secondBook], [heldDownload]) := by
    decide +kernel
  rw [ran, Option.map_some, Option.some.injEq, Prod.mk.injEq, Prod.mk.injEq] at tables
  obtain ⟨promoted, books, pruned⟩ := tables
  refine ⟨world, ran, promoted, books, pruned, fun whole => ?_⟩
  exact whole.pruned heldDownload (by simp [pruned]) firstBook (by simp [twoPages]) rfl

/-- The same device, whose passes all run to their end. -/
theorem promoted_mirror_whole_two_pages :
    ∃ world, run (World.step twoPages) (World.launch 0 [firstBook] [heldDownload])
        ([.sync true] ++ reach 16) = some world ∧ Whole twoPages world.store := by
  obtain ⟨world, ran⟩ := Option.isSome_iff_exists.mp
    (show (run (World.step twoPages) (World.launch 0 [firstBook] [heldDownload])
      ([.sync true] ++ reach 16)).isSome = true by decide +kernel)
  exact ⟨world, ran, promoted_mirror_whole twoPages 0 [firstBook] [heldDownload] _ world
    (by decide +kernel) ran⟩

end Omnibus.LibraryMirror
