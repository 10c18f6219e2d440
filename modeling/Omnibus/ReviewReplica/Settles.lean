import Omnibus.ReviewReplica.Quiet

/-!
# The replica settles

While requests go out only for answers that tell of all the replica shows, an answer that is stored
is the server's reviews, and after a write somebody still reads them back until one is.
-/

namespace Omnibus.ReviewReplica

open Omnibus.Library.Strings
open Omnibus.Library.Runs
open Omnibus.Outbox

namespace Caller

variable {Household : Type}

def generation? : Caller Household → Option Nat
  | .captured _ generation => some generation
  | .ready _ generation => some generation
  | .asking _ generation => some generation
  | .answered _ generation _ => some generation
  | .storing _ generation _ => some generation
  | _ => none

/-- The caller will store an answer, unless the key is held off or the server is not reached. -/
def Owed (generation : Nat) : Caller Household → Prop
  | .refused _ => False
  | .returned => False
  | caller => ∀ held ∈ caller.generation?, held = generation

def Refreshes : Caller Household → Prop
  | .shown _ => True
  | .pushing _ => True
  | .capturing origin => origin = .refresh
  | .captured origin _ => origin = .refresh
  | .ready origin _ => origin = .refresh
  | .asking origin _ => origin = .refresh
  | .answered origin _ _ => origin = .refresh
  | .storing origin _ _ => origin = .refresh
  | _ => False

end Caller

section Sound

variable {Household : Type} (uuid : Text) (empty : Household)
  (serve : List PendingOp → BookReviews Household)

/-- An answer that could still be stored is the server's reviews, now and until it is stored. -/
def Fresh (device : Device Household) : Caller Household → Prop
  | .asking _ generation => generation = device.generation → Quiet device
  | .answered _ generation answer =>
      generation = device.generation → Quiet device ∧ answer = serve device.world.log.accepted
  | .storing _ generation answer =>
      generation = device.generation → Quiet device ∧ answer = serve device.world.log.accepted
  | _ => True

def Refreshing (device : Device Household) : Prop :=
  ∃ caller ∈ device.callers, caller.Refreshes ∧ caller.Owed device.generation

/-- A refresh was held off, and somebody has still to read the server or to empty the queue. -/
def Awaiting (device : Device Household) : Prop :=
  device.heldOff = true ∧ (device.callers = [] ∨ device.world.store.ops.rows ≠ [] ∨
    ∃ caller ∈ device.callers, caller.Owed device.generation)

structure Sound (device : Device Household) : Prop where
  engine : Engine uuid device.world
  writes : ∀ write, .shown write ∈ device.callers → IsReviewWrite uuid write
  owned : ∀ (call : Nat) (entry : Call), device.world.calls[call]? = some entry →
    hasReturned entry.stage = false →
      .pushing call ∈ device.callers ∨ .draining call ∈ device.callers
  held : ∀ caller ∈ device.callers, ∀ held ∈ caller.generation?, held ≤ device.generation
  fresh : ∀ caller ∈ device.callers, Fresh serve device caller
  adopted : device.adopted = true → Quiet device ∧ device.Synced serve
  queued : device.world.store.ops.rows ≠ [] → device.heldOff = true ∨ Refreshing device
  settles : device.missed = true ∨ Refreshing device ∨ Awaiting device ∨ device.Synced serve

variable {device : Device Household}

theorem mem_moved {index : Nat} {before other : Caller Household} (after : Caller Household)
    (found : device.callers[index]? = some before) (member : other ∈ device.callers) :
    other = before ∨ other ∈ (device.moved index after).callers := by
  obtain ⟨place, here⟩ := List.getElem?_of_mem member
  by_cases same : index = place
  · rw [← same, found, Option.some.injEq] at here
    exact Or.inl here.symm
  · right
    apply List.mem_of_getElem? (i := place)
    rw [Device.moved, List.getElem?_set_ne same]
    exact here

theorem moved_mem {index : Nat} {before after : Caller Household}
    (found : device.callers[index]? = some before) :
    after ∈ (device.moved index after).callers :=
  List.mem_of_getElem? (i := index)
    (List.getElem?_set_self (List.getElem?_eq_some_iff.mp found).1)

/-- Nothing is quiet about a shown change, and a caller that shows none leaves it so. -/
theorem quiet_moved {index : Nat} {after : Caller Household} (quiet : Quiet device)
    (silent : ∀ write, after ≠ .shown write) : Quiet (device.moved index after) := by
  refine ⟨quiet.1, fun write member => ?_⟩
  rcases List.mem_or_eq_of_mem_set member with old | same
  · exact quiet.2 write old
  · exact silent write same.symm

/-- What is fresh stays so while nothing writes the key, if a quiet device stays quiet. -/
theorem fresh_carried {later : Device Household} {caller : Caller Household}
    (fresh : Fresh serve device caller) (unwritten : later.generation = device.generation)
    (quiet : Quiet device →
      Quiet later ∧ later.world.log.accepted = device.world.log.accepted) :
    Fresh serve later caller := by
  have answers {generation : Nat} {answer : BookReviews Household}
      (was : generation = device.generation →
        Quiet device ∧ answer = serve device.world.log.accepted)
      (same : generation = later.generation) :
      Quiet later ∧ answer = serve later.world.log.accepted := by
    obtain ⟨wasQuiet, isAnswer⟩ := was (same.trans unwritten)
    obtain ⟨stays, accepted⟩ := quiet wasQuiet
    rw [accepted]
    exact ⟨stays, isAnswer⟩
  cases caller with
  | asking origin generation => exact fun same => (quiet (fresh (same.trans unwritten))).1
  | answered origin generation answer => exact answers fresh
  | storing origin generation answer => exact answers fresh
  | _ => trivial

theorem fresh_moved {index : Nat} {after other : Caller Household}
    (fresh : Fresh serve device other) (silent : ∀ write, after ≠ .shown write) :
    Fresh serve (device.moved index after) other :=
  fresh_carried serve fresh rfl fun quiet => ⟨quiet_moved quiet silent, rfl⟩

/-- A caller that only moves on, and owes no less unless the key is held off or the server was not
reached. -/
theorem sound_moved (sound : Sound uuid serve device) {index : Nat}
    {before : Caller Household} (after : Caller Household)
    (found : device.callers[index]? = some before) (heldOff missed : Bool)
    (heldStays : device.heldOff = true → heldOff = true)
    (missedStays : device.missed = true → missed = true)
    (silent : ∀ write, after ≠ .shown write)
    (served : ∀ call, before = .pushing call ∨ before = .draining call →
      (device.world.calls[call]?.any fun entry => hasReturned entry.stage) = true)
    (bounded : ∀ held ∈ after.generation?, held ≤ device.generation)
    (fresh : Fresh serve device after)
    (refreshes : before.Refreshes → before.Owed device.generation →
      after.Refreshes ∧ after.Owed device.generation ∨
        missed = true ∧ device.world.store.ops.rows = [] ∨
          heldOff = true ∧ device.world.store.ops.rows ≠ [])
    (owes : before.Owed device.generation → device.heldOff = true →
      after.Owed device.generation ∨ device.world.store.ops.rows ≠ [] ∨ missed = true) :
    Sound uuid serve { device.moved index after with heldOff := heldOff, missed := missed } := by
  have refreshing (was : Refreshing device) :
      Refreshing (device.moved index after) ∨
        missed = true ∧ device.world.store.ops.rows = [] ∨
          heldOff = true ∧ device.world.store.ops.rows ≠ [] := by
    obtain ⟨caller, member, reads, owed⟩ := was
    rcases mem_moved after found member with same | stays
    · subst same
      exact (refreshes reads owed).imp_left fun still => ⟨after, moved_mem found, still⟩
    · exact Or.inl ⟨caller, stays, reads, owed⟩
  refine ⟨sound.engine, ?_, ?_, ?_, ?_, ?_, ?_, ?_⟩
  · intro write member
    rcases List.mem_or_eq_of_mem_set member with old | same
    · exact sound.writes write old
    · exact absurd same.symm (silent write)
  · intro call entry place going
    have returned (held : before = .pushing call ∨ before = .draining call) : False := by
      have done := served call held
      rw [show device.world.calls[call]? = some entry from place, Option.any_some, going] at done
      cases done
    rcases sound.owned call entry place going with pushing | draining
    · rcases mem_moved after found pushing with same | stays
      · exact (returned (Or.inl same.symm)).elim
      · exact Or.inl stays
    · rcases mem_moved after found draining with same | stays
      · exact (returned (Or.inr same.symm)).elim
      · exact Or.inr stays
  · intro caller member
    rcases List.mem_or_eq_of_mem_set member with old | same
    · exact sound.held caller old
    · rw [same]
      exact bounded
  · intro caller member
    rcases List.mem_or_eq_of_mem_set member with old | same
    · exact fresh_moved serve (sound.fresh caller old) silent
    · rw [same]
      exact fresh_moved serve fresh silent
  · intro adopted
    exact ⟨quiet_moved (sound.adopted adopted).1 silent, (sound.adopted adopted).2⟩
  · intro some'
    rcases sound.queued some' with held | was
    · exact Or.inl (heldStays held)
    · rcases refreshing was with still | lost | held
      · exact Or.inr still
      · exact absurd lost.2 some'
      · exact Or.inl held.1
  · rcases sound.settles with lost | was | ⟨held, awaits⟩ | synced
    · exact Or.inl (missedStays lost)
    · rcases refreshing was with still | lost | held
      · exact Or.inr (Or.inl still)
      · exact Or.inl lost.1
      · exact Or.inr (Or.inr (Or.inl ⟨held.1, Or.inr (Or.inl held.2)⟩))
    · rcases awaits with none' | some' | ⟨caller, member, owed⟩
      · rw [none'] at found
        cases found
      · exact Or.inr (Or.inr (Or.inl ⟨heldStays held, Or.inr (Or.inl some')⟩))
      · rcases mem_moved after found member with same | stays
        · subst same
          rcases owes owed held with still | some' | lost
          · exact Or.inr (Or.inr (Or.inl
              ⟨heldStays held, Or.inr (Or.inr ⟨after, moved_mem found, still⟩)⟩))
          · exact Or.inr (Or.inr (Or.inl ⟨heldStays held, Or.inr (Or.inl some')⟩))
          · exact Or.inl lost
        · exact Or.inr (Or.inr (Or.inl
            ⟨heldStays held, Or.inr (Or.inr ⟨caller, stays, owed⟩)⟩))
    · exact Or.inr (Or.inr (Or.inr synced))

theorem fresh_stale (later : Device Household) (caller : Caller Household)
    (older : ∀ held ∈ caller.generation?, held < later.generation) : Fresh serve later caller := by
  cases caller with
  | asking origin generation =>
      intro same
      exact absurd (older generation rfl) (by omega)
  | answered origin generation answer =>
      intro same
      exact absurd (older generation rfl) (by omega)
  | storing origin generation answer =>
      intro same
      exact absurd (older generation rfl) (by omega)
  | _ => trivial

theorem sound_shown (sound : Sound uuid serve device)
    (mutate : BookReviews Household → BookReviews Household) (write : Write)
    (isReview : IsReviewWrite uuid write) :
    Sound uuid serve (device.mutateLocalReviews empty mutate write) := by
  have refreshing : Refreshing (device.mutateLocalReviews empty mutate write) :=
    ⟨.shown write, List.mem_append_right _ List.mem_cons_self, trivial, nofun⟩
  refine ⟨sound.engine, ?_, ?_, ?_, ?_, ?_, ?_, ?_⟩
  · intro other member
    rcases List.mem_append.mp member with old | new
    · exact sound.writes other old
    · rw [List.mem_singleton, Caller.shown.injEq] at new
      rw [new]
      exact isReview
  · intro call entry place going
    exact (sound.owned call entry place going).imp (List.mem_append_left _) (List.mem_append_left _)
  · intro caller member held isHeld
    rcases List.mem_append.mp member with old | new
    · exact Nat.le_succ_of_le (sound.held caller old held isHeld)
    · rw [List.mem_singleton.mp new] at isHeld
      cases isHeld
  · intro caller member
    apply fresh_stale
    intro held isHeld
    rcases List.mem_append.mp member with old | new
    · exact Nat.lt_succ_of_le (sound.held caller old held isHeld)
    · rw [List.mem_singleton.mp new] at isHeld
      cases isHeld
  · intro adopted
    cases adopted
  · exact fun _ => Or.inr refreshing
  · exact Or.inr (Or.inl refreshing)

theorem sound_opened (sound : Sound uuid serve device) :
    Sound uuid serve { device with callers := device.callers ++ [.opening] } := by
  have quiet (was : Quiet device) :
      Quiet { device with callers := device.callers ++ [.opening] } := by
    refine ⟨was.1, fun write member => ?_⟩
    rcases List.mem_append.mp member with old | new
    · exact was.2 write old
    · cases List.mem_singleton.mp new
  have refreshing (was : Refreshing device) :
      Refreshing { device with callers := device.callers ++ [.opening] } := by
    obtain ⟨caller, member, reads⟩ := was
    exact ⟨caller, List.mem_append_left _ member, reads⟩
  refine ⟨sound.engine, ?_, ?_, ?_, ?_, ?_, ?_, ?_⟩
  · intro write member
    rcases List.mem_append.mp member with old | new
    · exact sound.writes write old
    · cases List.mem_singleton.mp new
  · intro call entry place going
    exact (sound.owned call entry place going).imp (List.mem_append_left _) (List.mem_append_left _)
  · intro caller member held isHeld
    rcases List.mem_append.mp member with old | new
    · exact sound.held caller old held isHeld
    · rw [List.mem_singleton.mp new] at isHeld
      cases isHeld
  · intro caller member
    rcases List.mem_append.mp member with old | new
    · exact fresh_carried serve (sound.fresh caller old) rfl fun was => ⟨quiet was, rfl⟩
    · rw [List.mem_singleton.mp new]
      trivial
  · intro adopted
    exact ⟨quiet (sound.adopted adopted).1, (sound.adopted adopted).2⟩
  · exact fun some' => (sound.queued some').imp_right refreshing
  · rcases sound.settles with lost | was | ⟨held, -⟩ | synced
    · exact Or.inl lost
    · exact Or.inr (Or.inl (refreshing was))
    · exact Or.inr (Or.inr (Or.inl ⟨held, Or.inr (Or.inr
        ⟨.opening, List.mem_append_right _ List.mem_cons_self, nofun⟩)⟩))
    · exact Or.inr (Or.inr (Or.inr synced))

theorem sound_written (sound : Sound uuid serve device) {index : Nat} (write : Write)
    (found : device.callers[index]? = some (.shown write)) (world : World)
    (stepped : device.world.step (.write write .none) = some world) :
    Sound uuid serve
      { device.moved index (.pushing device.world.calls.length) with world := world } := by
  have shown : Caller.shown write ∈ device.callers := List.mem_of_getElem? found
  obtain ⟨engine, -, -, calls⟩ := sound.engine.write write (sound.writes write shown) stepped
  have refreshing : Refreshing
      { device.moved index (.pushing device.world.calls.length) with world := world } :=
    ⟨.pushing device.world.calls.length, moved_mem found, trivial, nofun⟩
  refine ⟨engine, ?_, ?_, ?_, ?_, ?_, fun _ => Or.inr refreshing, Or.inr (Or.inl refreshing)⟩
  · intro other member
    rcases List.mem_or_eq_of_mem_set member with old | same
    · exact sound.writes other old
    · cases same
  · intro call entry place going
    dsimp only at place
    rw [calls] at place
    rcases placed_before_or_last place with old | same
    · rcases sound.owned call entry old going with pushing | draining
      · exact Or.inl ((mem_moved _ found pushing).resolve_left nofun)
      · exact Or.inr ((mem_moved _ found draining).resolve_left nofun)
    · rw [same]
      exact Or.inl (moved_mem found)
  · intro caller member held isHeld
    rcases List.mem_or_eq_of_mem_set member with old | same
    · exact sound.held caller old held isHeld
    · rw [same] at isHeld
      cases isHeld
  · intro caller member
    rcases List.mem_or_eq_of_mem_set member with old | same
    · exact fresh_carried serve (sound.fresh caller old) rfl fun was =>
        absurd shown (was.2 write)
    · rw [same]
      trivial
  · intro adopted
    exact absurd shown ((sound.adopted adopted).1.2 write)

theorem sound_drained (sound : Sound uuid serve device) {index : Nat}
    (found : device.callers[index]? = some .opening) (world : World)
    (stepped : device.world.step .drain = some world) :
    Sound uuid serve
      { device.moved index (.draining device.world.calls.length) with world := world } := by
  obtain ⟨engine, store, log, calls⟩ := sound.engine.drain stepped
  have moved := sound_moved uuid serve sound (.draining device.world.calls.length) found
    device.heldOff device.missed id id nofun nofun nofun trivial nofun fun _ _ => Or.inl nofun
  have quiet (was : Quiet (device.moved index (.draining device.world.calls.length))) :
      Quiet { device.moved index (.draining device.world.calls.length) with world := world } := by
    refine ⟨?_, was.2⟩
    change world.store.ops.rows = []
    rw [store]
    exact was.1
  refine ⟨engine, moved.writes, ?_, moved.held, ?_, ?_, ?_, ?_⟩
  · intro call entry place going
    dsimp only at place
    rw [calls] at place
    rcases placed_before_or_last place with old | same
    · exact moved.owned call entry old going
    · rw [same]
      exact Or.inr (moved_mem found)
  · exact fun caller member => fresh_carried serve (moved.fresh caller member) rfl fun was =>
      ⟨quiet was, congrArg Log.accepted log⟩
  · intro adopted
    refine ⟨quiet (moved.adopted adopted).1, ?_⟩
    rw [Device.Synced, log]
    exact (moved.adopted adopted).2
  · rw [store]
    exact moved.queued
  · rw [Awaiting, Device.Synced, store, log]
    exact moved.settles

theorem sound_stored (sound : Sound uuid serve device) {index : Nat} (origin : Origin)
    (answer : BookReviews Household)
    (found : device.callers[index]? = some (.storing origin device.generation answer)) :
    Sound uuid serve (device.cachePut index origin device.generation answer) := by
  obtain ⟨quiet, same⟩ := sound.fresh _ (List.mem_of_getElem? found) rfl
  have moved := sound_moved uuid serve sound .returned found device.heldOff true id
    (fun _ => rfl) nofun nofun nofun trivial (fun _ _ => Or.inr (Or.inl ⟨rfl, quiet.1⟩))
      fun _ _ => Or.inr (Or.inr rfl)
  have synced : some answer = some (serve device.world.log.accepted) := congrArg some same
  unfold Device.cachePut
  rw [if_pos rfl]
  refine ⟨sound.engine, moved.writes, moved.owned, ?_, ?_, ?_,
    fun some' => absurd quiet.1 some', Or.inr (Or.inr (Or.inr synced))⟩
  · exact fun caller member held isHeld => Nat.le_succ_of_le (moved.held caller member held isHeld)
  · intro caller member
    apply fresh_stale
    exact fun held isHeld => Nat.lt_succ_of_le (moved.held caller member held isHeld)
  · exact fun _ => ⟨quiet_moved quiet nofun, synced⟩

theorem sound_engine (sound : Sound uuid serve device) (world : World)
    (engine : Engine uuid world) (advanced : Advanced device.world world) :
    Sound uuid serve { device with world := world } := by
  have owned (call : Nat) (entry : Call) (place : world.calls[call]? = some entry)
      (going : hasReturned entry.stage = false) :
      .pushing call ∈ device.callers ∨ .draining call ∈ device.callers := by
    obtain ⟨old, was, wasGoing⟩ := advanced.calls call entry place going
    exact sound.owned call old was wasGoing
  have quiet (was : Quiet device) : Quiet { device with world := world } :=
    ⟨(advanced.quiet was.1).1, was.2⟩
  refine ⟨engine, sound.writes, owned, sound.held, ?_, ?_, ?_, ?_⟩
  · exact fun caller member => fresh_carried serve (sound.fresh caller member) rfl fun was =>
      ⟨quiet was, (advanced.quiet was.1).2⟩
  · intro adopted
    obtain ⟨was, synced⟩ := sound.adopted adopted
    refine ⟨quiet was, ?_⟩
    rw [Device.Synced, (advanced.quiet was.1).2]
    exact synced
  · intro some'
    exact sound.queued fun none' => some' (advanced.quiet none').1
  · rcases sound.settles with lost | was | ⟨held, none' | some' | owed⟩ | synced
    · exact Or.inl lost
    · exact Or.inr (Or.inl was)
    · exact Or.inr (Or.inr (Or.inl ⟨held, Or.inl none'⟩))
    · refine Or.inr (Or.inr (Or.inl ⟨held, Or.inr ?_⟩))
      by_cases empty : world.store.ops.rows = []
      · -- The pass that took the last row is still going, and whoever started it waits.
        obtain ⟨id, pass, place, going⟩ := advanced.going some' empty
        obtain ⟨call, write, joins⟩ := engine.joined id pass place going
        rcases owned call _ joins rfl with pushing | draining
        · exact Or.inr ⟨_, pushing, nofun⟩
        · exact Or.inr ⟨_, draining, nofun⟩
      · exact Or.inl empty
    · exact Or.inr (Or.inr (Or.inl ⟨held, Or.inr (Or.inr owed)⟩))
    · rcases advanced.accepted with same | some'
      · refine Or.inr (Or.inr (Or.inr ?_))
        rw [Device.Synced, same]
        exact synced
      · rcases sound.queued fun none' => some' (advanced.quiet none').1 with held | was
        · exact Or.inr (Or.inr (Or.inl ⟨held, Or.inr (Or.inl some')⟩))
        · exact Or.inr (Or.inl was)

theorem sound_held_off (sound : Sound uuid serve device) {index : Nat}
    {before : Caller Household} (found : device.callers[index]? = some before) (origin : Origin)
    (waits : ∀ call, before ≠ .pushing call ∧ before ≠ .draining call)
    (reads : before.Refreshes → origin = .refresh)
    (queued : device.world.store.ops.rows ≠ []) :
    Sound uuid serve (device.holdOff index origin) := by
  apply sound_moved uuid serve sound .returned found _ device.missed _ id nofun _ nofun trivial
  · intro refreshes _
    exact Or.inr (Or.inr ⟨by simp [reads refreshes], queued⟩)
  · exact fun _ _ => Or.inr (Or.inl queued)
  · intro held
    simp [held]
  · rintro call (same | same)
    · exact absurd same (waits call).1
    · exact absurd same (waits call).2

theorem sound_resume (sound : Sound uuid serve device) (index : Nat) (cancelled : Bool)
    (caller : Caller Household) (found : device.callers[index]? = some caller)
    (asks : AsksQuietly device (.resume index cancelled)) (next : Device Household)
    (stepped : device.resume uuid index cancelled caller = some next) : Sound uuid serve next := by
  have goes (after : Caller Household) :=
    sound_moved uuid serve sound after found device.heldOff device.missed id id
  have held := sound.held caller (List.mem_of_getElem? found)
  have fresh := sound.fresh caller (List.mem_of_getElem? found)
  have blocked := sound.engine.blocked_iff
  cases caller with
  | shown write =>
      simp only [Device.resume, Option.map_eq_some_iff] at stepped
      obtain ⟨world, ran, rfl⟩ := stepped
      exact sound_written uuid serve sound write found world ran
  | pushing call =>
      simp only [Device.resume, Option.ite_none_right_eq_some, Option.some.injEq] at stepped
      obtain ⟨done, rfl⟩ := stepped
      apply goes (.capturing .refresh) nofun
      · rintro other (same | same)
        · rw [← Caller.pushing.inj same]
          exact done
        · cases same
      · nofun
      · trivial
      · exact fun _ _ => Or.inl ⟨rfl, nofun⟩
      · exact fun _ _ => Or.inl nofun
  | opening =>
      simp only [Device.resume] at stepped
      split at stepped
      · obtain ⟨world, ran, rfl⟩ := Option.map_eq_some_iff.mp stepped
        exact sound_drained uuid serve sound found world ran
      · obtain rfl := Option.some.inj stepped
        exact goes (.capturing (.read 0)) nofun nofun nofun trivial nofun
          fun _ _ => Or.inl nofun
  | draining call =>
      simp only [Device.resume, Option.ite_none_right_eq_some, Option.some.injEq] at stepped
      obtain ⟨done, rfl⟩ := stepped
      apply goes .rechecking nofun
      · rintro other (same | same)
        · cases same
        · rw [← Caller.draining.inj same]
          exact done
      · nofun
      · trivial
      · nofun
      · exact fun _ _ => Or.inl nofun
  | rechecking =>
      simp only [Device.resume] at stepped
      split at stepped
      · rename_i off
        obtain rfl := Option.some.inj stepped
        exact goes .returned nofun nofun nofun trivial nofun
          fun _ _ => Or.inr (Or.inl (blocked.mp off))
      · obtain rfl := Option.some.inj stepped
        exact goes (.capturing (.read 0)) nofun nofun nofun trivial nofun
          fun _ _ => Or.inl nofun
  | capturing origin =>
      obtain rfl := Option.some.inj stepped
      have current : (Caller.captured origin device.generation : Caller Household).Owed
          device.generation := fun count isHeld => (Option.some.inj isHeld).symm
      apply goes (.captured origin device.generation) nofun nofun
      · exact fun count isHeld => Nat.le_of_eq (Option.some.inj isHeld).symm
      · trivial
      · exact fun reads _ => Or.inl ⟨reads, current⟩
      · exact fun _ _ => Or.inl current
  | captured origin generation =>
      simp only [Device.resume] at stepped
      split at stepped
      · rename_i off
        obtain rfl := Option.some.inj stepped
        exact sound_held_off uuid serve sound found origin (fun _ => ⟨nofun, nofun⟩) id
          (blocked.mp off.2)
      · obtain rfl := Option.some.inj stepped
        exact goes (.ready origin generation) nofun nofun held trivial
          (fun reads owed => Or.inl ⟨reads, owed⟩) fun owed _ => Or.inl owed
  | ready origin generation =>
      obtain rfl := Option.some.inj stepped
      apply goes (.asking origin generation) nofun nofun held
      · intro same
        exact asks origin (same ▸ found)
      · exact fun reads owed => Or.inl ⟨reads, owed⟩
      · exact fun owed _ => Or.inl owed
  | asking origin generation => cases stepped
  | answered origin generation answer =>
      simp only [Device.resume] at stepped
      split at stepped
      · rename_i off
        obtain rfl := Option.some.inj stepped
        exact sound_held_off uuid serve sound found origin (fun _ => ⟨nofun, nofun⟩) id
          (blocked.mp off)
      · obtain rfl := Option.some.inj stepped
        exact goes (.storing origin generation answer) nofun nofun held fresh
          (fun reads owed => Or.inl ⟨reads, owed⟩) fun owed _ => Or.inl owed
  | storing origin generation answer =>
      obtain rfl := Option.some.inj stepped
      by_cases same : generation = device.generation
      · rw [same]
        exact sound_stored uuid serve sound origin answer (same ▸ found)
      · have refused (owed : (Caller.storing origin generation answer).Owed device.generation) :
            False := same (owed generation rfl)
        unfold Device.cachePut
        rw [if_neg same]
        cases origin with
        | refresh =>
            exact goes .returned nofun nofun nofun trivial (fun _ owed => (refused owed).elim)
              fun owed _ => (refused owed).elim
        | read attempt =>
            exact goes (.refused attempt) nofun nofun nofun trivial
              (fun _ owed => (refused owed).elim) fun owed _ => (refused owed).elim
  | refused attempt =>
      simp only [Device.resume] at stepped
      split at stepped
      · obtain rfl := Option.some.inj stepped
        exact goes (.capturing (.read 1)) nofun nofun nofun trivial nofun
          fun owed _ => owed.elim
      · obtain rfl := Option.some.inj stepped
        exact goes .returned nofun nofun nofun trivial nofun fun owed _ => owed.elim
  | returned => cases stepped

theorem sound_step (device next : Device Household) (act : Act) (sound : Sound uuid serve device)
    (asks : AsksQuietly device act) (stepped : device.step uuid empty serve act = some next) :
    Sound uuid serve next := by
  have outbox (action : Action) (ran : device.engine action = some next)
      (keeps : ∀ world, device.world.step action = some world →
        Engine uuid world ∧ Advanced device.world world) : Sound uuid serve next := by
    obtain ⟨world, taken, rfl⟩ := Option.map_eq_some_iff.mp ran
    obtain ⟨engine, advanced⟩ := keeps world taken
    exact sound_engine uuid serve sound world engine advanced
  cases act with
  | patchReview patch now =>
      simp only [Device.step] at stepped
      split at stepped
      · obtain rfl := Option.some.inj stepped
        exact sound
      · obtain rfl := Option.some.inj stepped
        exact sound_shown uuid empty serve sound _ _ (Or.inl ⟨_, rfl⟩)
  | deleteReview =>
      obtain rfl := Option.some.inj stepped
      exact sound_shown uuid empty serve sound _ _ (Or.inr rfl)
  | read =>
      obtain rfl := Option.some.inj stepped
      exact sound_opened uuid serve sound
  | resume index cancelled =>
      obtain ⟨caller, found, went⟩ := Option.bind_eq_some_iff.mp stepped
      exact sound_resume uuid serve sound index cancelled caller found asks next went
  | answer index =>
      simp only [Device.step] at stepped
      split at stepped
      · rename_i origin generation found
        obtain rfl := Option.some.inj stepped
        have fresh := sound.fresh _ (List.mem_of_getElem? found)
        have held := sound.held _ (List.mem_of_getElem? found)
        exact sound_moved uuid serve sound
          (.answered origin generation (serve device.world.log.accepted)) found device.heldOff
          device.missed id id nofun nofun held (fun same => ⟨fresh same, rfl⟩)
          (fun reads owed => Or.inl ⟨reads, owed⟩) fun owed _ => Or.inl owed
      · cases stepped
  | lose index =>
      simp only [Device.step] at stepped
      split at stepped
      · rename_i origin generation found
        obtain rfl := Option.some.inj stepped
        have fresh := sound.fresh _ (List.mem_of_getElem? found)
        apply sound_moved uuid serve sound .returned found device.heldOff _ id _ nofun nofun nofun
          trivial
        · intro reads owed
          have isRefresh : origin = .refresh := reads
          exact Or.inr (Or.inl ⟨by simp [isRefresh], (fresh (owed generation rfl)).1⟩)
        · intro _ held
          exact Or.inr (Or.inr (by simp [held]))
        · intro lost
          simp [lost]
      · cases stepped
  | bound call => exact outbox _ stepped fun world => sound.engine.bound call
  | arrive call => exact outbox _ stepped fun world => sound.engine.arrive call
  | finish call queryFails =>
      exact outbox _ stepped fun world => sound.engine.finish call queryFails
  | advance pass reaches => exact outbox _ stepped fun world => sound.engine.advance pass reaches

theorem sound_launch (ops : Ops) (queue : ReviewQueue uuid ops.rows)
    (replica : Option (BookReviews Household)) :
    Sound uuid serve (Device.launch ops replica) := by
  have landing : Landing uuid (fun _ => .null) (World.launch ⟨true, ops⟩) := by
    refine ⟨⟨ledger_launch _, by simp [World.launch]⟩, chained_launch _, bounded_launch _, rfl, queue,
      ?_, by simp [World.launch]⟩
    rw [oneByOne, World.launch, List.foldl_map]
    rfl
  refine ⟨⟨landing, ?_, ?_, ?_⟩, ?_, ?_, ?_, ?_, ?_, fun _ => Or.inl rfl,
    Or.inr (Or.inr (Or.inl ⟨rfl, Or.inl rfl⟩))⟩
  · exact fun pass member => absurd member List.not_mem_nil
  · exact fun pass member => absurd member List.not_mem_nil
  · intro id pass place
    simp [Device.launch, World.launch] at place
  · exact fun write member => absurd member List.not_mem_nil
  · intro call entry place
    simp [Device.launch, World.launch] at place
  · exact fun caller member => absurd member List.not_mem_nil
  · exact fun caller member => absurd member List.not_mem_nil
  · exact fun adopted => by cases adopted

/-- Once every call and read is over and the queue is empty, a refresh failed to reach the server
or the replica is the server's reviews; and an answer that was stored last is. -/
theorem review_replica_settles (ops : Ops) (queue : ReviewQueue uuid ops.rows)
    (replica : Option (BookReviews Household)) (acts : List Act) (device : Device Household)
    (meets : Meets (Device.step uuid empty serve) AsksQuietly (Device.launch ops replica) acts)
    (ran : run (Device.step uuid empty serve) (Device.launch ops replica) acts = some device)
    (called : device.callers ≠ []) (ended : ∀ caller ∈ device.callers, caller = .returned)
    (emptied : device.world.store.ops.rows = []) :
    (device.missed = true ∨ device.Synced serve) ∧
      (device.adopted = true → device.Synced serve) := by
  have sound := run_keeps (Device.step uuid empty serve)
    (fun before act next => sound_step uuid empty serve before next act) acts
    (sound_launch uuid serve ops queue replica) meets ran
  constructor
  · rcases sound.settles with lost | ⟨caller, member, -, owed⟩ |
      ⟨-, none' | queued | ⟨caller, member, owed⟩⟩ | synced
    · exact Or.inl lost
    · rw [ended caller member] at owed
      exact owed.elim
    · exact absurd none' called
    · exact absurd emptied queued
    · rw [ended caller member] at owed
      exact owed.elim
    · exact Or.inr synced
  · exact fun adopted => (sound.adopted adopted).2

end Sound

/-! ## A read between a shown change and its queueing -/

def isShown {Household : Type} : Caller Household → Bool
  | .shown _ => true
  | _ => false

instance {Household : Type} (device : Device Household) : Decidable (Quiet device) :=
  decidable_of_iff (device.world.store.ops.rows = [] ∧ ∀ caller ∈ device.callers,
      isShown caller = false) (by
    apply and_congr_right'
    constructor
    · intro none' write member
      cases none' _ member
    · intro none' caller member
      cases caller with
      | shown write => exact absurd member (none' write)
      | _ => rfl)

def asksAt {Household : Type} (generation : Nat) : Caller Household → Bool
  | .ready _ captured => captured = generation
  | _ => false

instance {Household : Type} (device : Device Household) (act : Act) :
    Decidable (AsksQuietly device act) := by
  cases act with
  | resume index cancelled =>
      apply decidable_of_iff
        ((device.callers[index]?.any (asksAt device.generation)) = true → Quiet device)
      constructor
      · intro asks origin found
        apply asks
        rw [found]
        simp [asksAt]
      · intro asks isAsking
        cases found : device.callers[index]? with
        | none =>
            rw [found] at isAsking
            cases isAsking
        | some caller =>
            rw [found, Option.any_some] at isAsking
            cases caller with
            | ready origin captured =>
                have same : captured = device.generation := of_decide_eq_true isAsking
                exact asks origin (same ▸ found)
            | _ => cases isAsking
  | _ => exact inferInstanceAs (Decidable True)

def fourStars : ReviewPatch := ⟨.set 4, .unchanged, .unchanged, none⟩

/-- A server that holds four stars from the first request on. -/
def starred : List PendingOp → BookReviews Unit
  | [] => ⟨none, ()⟩
  | _ :: _ => ⟨(Review.blank "b".toList 0).applying fourStars 0, ()⟩

def steps (index count : Nat) : List Act := List.replicate count (.resume index false)

/-- What queues a caller's change and has the server take it. -/
def pushed (index call : Nat) : List Act :=
  [.resume index false, .bound call, .arrive call] ++ List.replicate 8 (.advance call true) ++
    [.finish call false]

/-- A server that takes the stars back when it is asked to. -/
def reviewed (accepted : List PendingOp) : BookReviews Unit :=
  accepted.foldl (fun reviews op =>
    if op.method = .delete then reviews.deletingMine
    else reviews.applying fourStars "b".toList 0) ⟨none, ()⟩

/-- The stars are set and read back. A read of the page answers after the review was deleted, is
refused, and asks once more when the server has taken that too. -/
def starsSetAndDeleted : List Act :=
  [.patchReview fourStars 0] ++ pushed 0 0 ++ steps 0 4 ++ [.answer 0] ++ steps 0 2 ++
    [.read] ++ steps 1 4 ++ [.answer 1, .deleteReview] ++ steps 1 2 ++ pushed 2 1 ++
      steps 2 4 ++ [.answer 2] ++ steps 2 2 ++ steps 1 4 ++ [.answer 1] ++ steps 1 2

theorem review_replica_settles_stars_deleted :
    ∃ device, run (Device.step "b".toList () reviewed) (Device.launch Ops.empty none)
        starsSetAndDeleted = some device ∧
      (device.missed = true ∨ device.Synced reviewed) ∧
        (device.adopted = true → device.Synced reviewed) := by
  obtain ⟨device, ran⟩ := Option.isSome_iff_exists.mp (show (run
    (Device.step "b".toList () reviewed) (Device.launch Ops.empty none)
      starsSetAndDeleted).isSome = true by
        decide +kernel)
  have ended : ((run (Device.step "b".toList () reviewed) (Device.launch Ops.empty none)
      starsSetAndDeleted).all fun device => decide (device.callers ≠ [] ∧
        (∀ caller ∈ device.callers, caller = .returned) ∧ device.world.store.ops.rows = [])) =
          true := by
    decide +kernel
  rw [ran, Option.all_some, decide_eq_true_eq] at ended
  exact ⟨device, ran, review_replica_settles "b".toList () reviewed Ops.empty
    (Or.inr fun row member => absurd member List.not_mem_nil) none starsSetAndDeleted device
    (by decide +kernel) ran ended.1 ended.2.1 ended.2.2⟩

/-- The page reads before the stars are queued and stores its answer after the refresh began. -/
def starsUndone : List Act :=
  [.patchReview fourStars 0, .read] ++ steps 1 4 ++ [.answer 1] ++ pushed 0 0 ++ steps 0 4 ++
    [.answer 0] ++ steps 1 2 ++ steps 0 2

/-- All is over, nothing failed, and the replica is what the server held before the stars. -/
theorem stale_answer_stays :
    ∃ device, run (Device.step "b".toList () starred) (Device.launch Ops.empty none) starsUndone =
        some device ∧
      (∀ caller ∈ device.callers, caller = .returned) ∧ device.world.store.ops.rows = [] ∧
        device.missed = false ∧ device.replica = some (starred []) ∧ ¬device.Synced starred := by
  obtain ⟨device, ran⟩ := Option.isSome_iff_exists.mp (show (run
    (Device.step "b".toList () starred) (Device.launch Ops.empty none) starsUndone).isSome = true by
      decide +kernel)
  have ended : ((run (Device.step "b".toList () starred) (Device.launch Ops.empty none)
      starsUndone).all fun device => decide ((∀ caller ∈ device.callers, caller = .returned) ∧
        device.world.store.ops.rows = [] ∧ device.missed = false ∧
          device.replica = some (starred []) ∧
            device.replica ≠ some (starred device.world.log.accepted))) = true := by
    decide +kernel
  rw [ran, Option.all_some, decide_eq_true_eq] at ended
  exact ⟨device, ran, ended⟩

end Omnibus.ReviewReplica
