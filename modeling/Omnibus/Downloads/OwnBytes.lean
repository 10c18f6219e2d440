import Mathlib.Data.List.Perm.Basic
import Omnibus.Downloads.Segments
import Omnibus.Library.Runs

/-!
# A record is given its own bytes

In a run whose starts register only when nothing of an earlier start is on its way, whatever turns
complete holds the bytes of its own transfers. A start that registers over a completion on its way
does not: the record of the second start is given what the first one fetched.
-/

namespace Omnibus.Downloads

open Omnibus.Library.Strings Omnibus.Library.Runs

/-- A call that holds nothing of the latest start's: no bytes, no transfers to make, nothing to give
up, and no answer of the store that it waits for. -/
def Stage.light : Stage → Bool
  | .opening _ _ => false
  | .landed _ _ _ => false
  | .checked _ _ _ _ => false
  | .cleared _ _ => false
  | .giving _ _ _ => false
  | .reading _ => false
  | .read _ _ => false
  | .restarting files _ => files.isEmpty
  | .removed => false
  | _ => true

/-- When the next segment of a call leaves every record its own bytes. -/
def Stage.Orderly (m : Manager) (finished : Transfer → Bool) : Stage → Prop
  | .calling _ _ captured =>
      (∀ transfer ∈ m.live, transfer ∈ captured ∧ finished transfer = false) ∧
      ∀ task ∈ m.tasks, task.write = none ∧ task.stage.light = true
  | .stopped ordinal .transient resumeData _ =>
      resumeData = false → m.record.bind (·.file ordinal) ≠ none → m.Parkable
  | .parking _ _ => m.Parkable
  | .read stored _ => ∀ record ∈ stored, record.state ≠ .complete
  | _ => True

/-- The condition on a step: a start registers when no other call of the book holds anything of an
earlier start's or waits for a write, and cancels every live transfer before it is finished; an
interrupted transfer is parked only under a record that is not complete; and a completion adopts no
complete record. -/
def Act.Orderly (m : Manager) : Act → Prop
  | .run index outcome => ∀ task ∈ m.tasks[index]?, task.write = none →
      task.stage.Orderly { m with tasks := m.tasks.eraseIdx index } outcome.finished
  | .kill _ _ => False
  | _ => True

instance Stage.Orderly.decidable (m : Manager) (finished : Transfer → Bool) :
    (stage : Stage) → Decidable (stage.Orderly m finished)
  | .calling _ _ captured => inferInstanceAs (Decidable
      ((∀ transfer ∈ m.live, transfer ∈ captured ∧ finished transfer = false) ∧
        ∀ task ∈ m.tasks, task.write = none ∧ task.stage.light = true))
  | .stopped _ .transient _ _ => inferInstanceAs (Decidable (_ → _ → m.Parkable))
  | .stopped _ .terminal _ _ => isTrue trivial
  | .parking _ _ => inferInstanceAs (Decidable m.Parkable)
  | .read stored _ => inferInstanceAs (Decidable (∀ record ∈ stored, record.state ≠ .complete))
  | .planning _ _ => isTrue trivial
  | .opening _ _ => isTrue trivial
  | .landed _ _ _ => isTrue trivial
  | .checked _ _ _ _ => isTrue trivial
  | .cleared _ _ => isTrue trivial
  | .marking => isTrue trivial
  | .giving _ _ _ => isTrue trivial
  | .settled _ => isTrue trivial
  | .reading _ => isTrue trivial
  | .parked => isTrue trivial
  | .listing _ => isTrue trivial
  | .restarting _ _ => isTrue trivial
  | .cancelling _ => isTrue trivial
  | .removing => isTrue trivial
  | .removed => isTrue trivial

instance Act.Orderly.decidable (m : Manager) : (act : Act) → Decidable (act.Orderly m)
  | .run index outcome => inferInstanceAs (Decidable (∀ task ∈ m.tasks[index]?, task.write = none →
      task.stage.Orderly { m with tasks := m.tasks.eraseIdx index } outcome.finished))
  | .kill _ _ => isFalse id
  | .land _ _ _ => isTrue trivial
  | .drop _ _ _ _ => isTrue trivial
  | .reconnect => isTrue trivial
  | .start _ => isTrue trivial
  | .redownload _ => isTrue trivial
  | .cancel => isTrue trivial
  | .remove => isTrue trivial

/-- A process that found nothing on its way: no record, or the complete one it keeps. -/
structure Manager.Launched (m : Manager) : Prop where
  tasks : m.tasks = []
  live : m.live = []
  minted : m.minted = 0
  replacing : m.replacing = none
  stored : m.stored = m.record
  record : ∀ record ∈ m.record, record.state = .complete ∧ record.start = some 0 ∧
    (record.files.map (·.ordinal)).Nodup ∧ (record.files.map (·.name)).Nodup
  incoming : ∀ name, m.disk.incoming name = none

section Steps

variable {shape : List (Int × Text)} {m : Manager}

theorem installed_of_older {disk : Disk} (owned : Owned shape m) {record : DownloadRecord}
    (before : DownloadRecord) (was : m.record = some before) (incomplete : before.state ≠ .complete)
    (older : record.Older m.minted) (same : before.start = record.start) :
    record.Installed disk := by
  rcases older with ⟨empty, _⟩ | ⟨own, number, less⟩
  · intro file member
    rw [empty] at member
    cases member
  · rw [number] at same
    rcases ours_of_incomplete (owned.memory before was) incomplete with ⟨_, bare⟩ | ⟨latest, _⟩
    · rw [bare] at same
      cases same
    · obtain rfl := Option.some.inj (latest.symm.trans same)
      exact absurd less (Nat.lt_irrefl _)

theorem segment_completes {result : Manager × Option Task} (owned : Owned shape m)
    (segment : Segment shape m result) (record : DownloadRecord)
    (completes : m.Completes (Manager.spawn result) record) :
    record.Installed (Manager.spawn result).disk := by
  obtain ⟨here, complete, before, was, incomplete, same⟩ := completes
  rcases segment.turns before was incomplete record here complete with installed | older
  · exact installed
  · exact installed_of_older owned before was incomplete older same

theorem dated_of_stands {disk : Disk} {quiet : Prop} {start : Nat} {record : DownloadRecord}
    (stands : Stands shape start disk quiet record) : record.Dated start := by
  rcases stands with (bare | ⟨own, _⟩) | ⟨_, _, dated⟩
  · exact Or.inl bare
  · exact Or.inr ⟨start, own, Nat.le_refl start⟩
  · exact dated

theorem quiet_giving (index : Nat) (task : Task) (here : m.tasks[index]? = some task)
    (gives : task.stage.givesUp = true) (owned : Owned shape m) :
    Manager.Quiet { m with tasks := m.tasks.eraseIdx index } := by
  obtain ⟨inside, same⟩ := List.getElem?_eq_some_iff.mp here
  have counted := (List.getElem_cons_eraseIdx_perm inside).countP_eq (·.stage.givesUp)
  have once := owned.once
  rw [same, List.countP_cons, if_pos gives] at counted
  cases flag : m.abandoned with
  | false =>
      rw [flag, Bool.toNat_false] at once
      omega
  | true =>
      rw [flag, Bool.toNat_true] at once
      have none : (m.tasks.eraseIdx index).countP (·.stage.givesUp) = 0 := by omega
      refine ⟨rfl, fun other listed => ?_⟩
      simpa using List.countP_eq_zero.mp none other listed

theorem segment_give_up (finished : Transfer → Bool) (message : Text) (inInstall : Bool)
    (captured : List Transfer) (quiet : m.Quiet) (owned : Owned shape m)
    (ours : ∀ record ∈ m.record, Ours shape m.minted m.disk record) :
    Segment shape m (m.giveUp finished message inInstall captured) := by
  let disk := Manager.discardIncoming ((m.record.map (·.files)).getD []) m.disk
  have nearby : Nearby shape m.minted m.disk disk :=
    nearby_of_less (discard_incoming_less _ m.disk) fun _ _ present => present
  have live : ∀ transfer ∈ (m.stop finished captured).live, transfer ∈ m.live :=
    fun transfer member => List.mem_of_mem_filter member
  rw [Manager.giveUp]
  cases kept : m.replacing with
  | some previous =>
      obtain ⟨complete, older⟩ := owned.replacing previous kept
      have dated : previous.Dated m.minted :=
        older.imp id fun ⟨own, number, less⟩ => ⟨own, number, Nat.le_of_lt less⟩
      have stands : Stands shape m.minted disk m.Quiet previous := Or.inr ⟨complete, quiet, dated⟩
      simp only [Manager.stop, kept]
      exact {
        minted := rfl
        tasks := rfl
        stored := fun _ member => member
        abandoned := id
        nearby := nearby
        live := fun transfer member => Or.inl (live transfer member)
        memory := by
          intro record same
          obtain rfl := Option.some.inj same
          exact Or.inr stands
        present := fun _ none => by cases none
        replacing := fun _ none => by cases none
        next := by
          intro task last
          obtain rfl := Option.some.inj last
          refine ⟨⟨?_, trivial⟩, fun asks => (by cases asks), fun gives => (by cases gives)⟩
          intro record same
          obtain rfl := Option.some.inj same
          exact stands
        turns := by
          intro _ _ _ record same _
          obtain rfl := Option.some.inj same
          exact Or.inr older }
  | none =>
      have untouched : Untouched m { m.stop finished captured with disk, replacing := none } :=
        ⟨rfl, rfl, rfl, rfl, rfl, fun _ none => by cases none⟩
      simp only [Manager.stop, kept]
      apply segment_after untouched nearby live
      apply segment_update
      case stands =>
        intro record here
        left
        rcases ours record here with bare | ⟨own, same, _⟩
        · exact Or.inl ⟨by simp [DownloadRecord.failedWith, bare.1], bare.2⟩
        · refine Or.inr ⟨own, (skeleton_map record.files (fun file => { file with done := false })
            fun _ => ⟨rfl, rfl⟩).trans same, ?_⟩
          intro file member done
          obtain ⟨_, _, rfl⟩ := List.mem_map.mp member
          cases done
      case turns =>
        intro _ _ _ complete
        cases complete
      case fits => trivial
      case asks => rfl
      case gives => rfl

theorem segment_fail (plan : Plan) (message : Text) : Segment shape m (m.fail plan message) := by
  let record : DownloadRecord := ⟨plan.format, .failed, [], some message, none⟩
  have stands : Stands shape m.minted m.disk m.Quiet record := Or.inl (Or.inl ⟨rfl, rfl⟩)
  exact {
    minted := rfl
    tasks := rfl
    stored := fun _ member => member
    abandoned := id
    nearby := nearby_self
    live := fun _ member => Or.inl member
    memory := by
      intro other same
      obtain rfl : record = other := Option.some.inj same
      exact Or.inr stands
    present := fun _ none => by cases none
    replacing := fun _ member => member
    next := by
      intro task last
      obtain rfl := Option.some.inj last
      refine ⟨⟨?_, trivial⟩, fun asks => (by cases asks), fun gives => (by cases gives)⟩
      intro other same
      obtain rfl : record = other := Option.some.inj same
      exact stands
    turns := by
      intro _ _ _ other same complete
      obtain rfl : record = other := Option.some.inj same
      cases complete }

theorem segment_planning (outcome : Outcome) (previous : Option DownloadRecord) (plan : Plan)
    (fits : ∀ record ∈ previous, record.state = .complete ∧ record.Dated m.minted) :
    Segment shape m (Manager.advance outcome m (.planning previous plan)) := by
  have called : Segment shape m (m, some ⟨none, .calling previous plan m.live⟩) := by
    exact segment_calm (untouched_self _) nearby_self (fun _ member => Or.inl member)
      (calm_call fits rfl rfl)
  unfold Manager.advance
  cases previous with
  | some kept =>
      simp only
      split_ifs
      · exact called
      · exact segment_ended
  | none =>
      simp only
      split_ifs
      · exact called
      · exact segment_fail plan outcome.message

theorem segment_remove (finished : Transfer → Bool) (captured : List Transfer) :
    Segment shape m (m.stop finished captured).remove := by
  refine segment_calm ⟨rfl, rfl, rfl, rfl, rfl, fun _ member => member⟩
    (nearby_of_less (discard_incoming_less _ m.disk) fun _ _ present => present) ?_ ?_
  · exact fun transfer member => Or.inl (List.mem_of_mem_filter member)
  · exact calm_call trivial rfl rfl

theorem resume_live (files : List DownloadFile) (start : Option Nat)
    (own : files = [] ∨ start = some m.minted) :
    ∀ transfer ∈ (m.resume files start).live,
      transfer ∈ m.live ∨ transfer.start = some m.minted := by
  intro transfer member
  rcases List.mem_append.mp member with before | made
  · exact Or.inl before
  · right
    obtain ⟨index, inside, rfl⟩ := List.mem_mapIdx.mp made
    rcases own with rfl | own
    · cases inside
    · exact own

theorem segment_resume_interrupted : Segment shape m m.resumeInterrupted := by
  rw [Manager.resumeInterrupted]
  split_ifs
  · exact segment_ended
  · exact segment_calm ⟨rfl, rfl, rfl, rfl, rfl, fun _ member => member⟩ nearby_self
      (fun _ member => Or.inl member) (calm_call trivial rfl rfl)

theorem segment_pass_ended : Segment shape m ({ m with isResuming := false }, none) :=
  segment_calm ⟨rfl, rfl, rfl, rfl, rfl, fun _ member => member⟩ nearby_self
    (fun _ member => Or.inl member) (fun _ none => by cases none)

theorem segment_listing (outcome : Outcome) (captured : List Transfer) (owned : Owned shape m) :
    Segment shape m (Manager.advance outcome m (.listing captured)) := by
  rw [Manager.advance]
  split
  · next record here =>
    split_ifs with running
    · apply segment_calm (untouched_self _) nearby_self (fun _ member => Or.inl member)
      apply calm_call _ rfl rfl
      have incomplete : record.state ≠ .complete := by simp [running]
      rcases ours_of_incomplete (owned.memory record here) incomplete with ⟨empty, _⟩ | ⟨own, _⟩
      · left
        rw [empty]
        rfl
      · exact Or.inr own
    · exact segment_pass_ended
  · exact segment_pass_ended

theorem segment_restarting (outcome : Outcome) (files : List DownloadFile) (start : Option Nat)
    (fits : files = [] ∨ start = some m.minted) :
    Segment shape m (Manager.advance outcome m (.restarting files start)) := by
  cases files with
  | nil => exact segment_pass_ended
  | cons file rest =>
      have own : start = some m.minted := fits.resolve_left (List.cons_ne_nil file rest)
      have later (disk : Disk) :=
        @calm_call shape m disk (.restarting rest start) (Or.inr own) rfl rfl
      have nearby (resume : Text → Bool) : Nearby shape m.minted m.disk { m.disk with resume } :=
        nearby_of_less (fun _ _ present => present) fun _ _ present => present
      simp only [Manager.advance]
      split_ifs
      · exact segment_calm ⟨rfl, rfl, rfl, rfl, rfl, fun _ member => member⟩ (nearby _)
          (resume_live [file] start (Or.inr own)) (later _)
      · exact segment_calm (untouched_self _) (nearby _) (fun _ member => Or.inl member) (later _)

theorem segment_deleted (faults : Faults) :
    Segment shape m (m.deleteDownload faults, some ⟨none, .removed⟩) := by
  have nearby : Nearby shape m.minted m.disk (m.deleteDownload faults).disk :=
    nearby_of_less (sweep_incoming faults _ m.disk) fun ordinal bytes present =>
      sweep_staged faults ((m.stored.map (·.files)).getD []) m.disk ▸ present
  refine segment_same rfl rfl rfl (fun _ none => by cases none) id nearby
    (fun _ member => Or.inl member) (fun _ member => member) ?_
  intro task last
  obtain rfl := Option.some.inj last
  exact ⟨⟨fun _ none => (by cases none), trivial⟩, fun _ => Or.inr rfl,
    fun gives => (by cases gives)⟩

theorem dated_next {start : Nat} {record : DownloadRecord} (dated : record.Dated start) :
    record.Older (start + 1) :=
  dated.imp id fun ⟨own, number, less⟩ => ⟨own, number, Nat.lt_succ_of_le less⟩

theorem older_next {start : Nat} {record : DownloadRecord} (older : record.Older start) :
    record.Older (start + 1) :=
  older.imp id fun ⟨own, number, less⟩ => ⟨own, number, Nat.lt_succ_of_lt less⟩

theorem dated_later {start : Nat} {record : DownloadRecord} (dated : record.Dated start) :
    record.Dated (start + 1) :=
  dated.imp id fun ⟨own, number, less⟩ => ⟨own, number, Nat.le_succ_of_le less⟩

theorem light_calls (stage : Stage) (light : stage.light = true) :
    stage.asks = false ∧ stage.givesUp = false := by
  cases stage with
  | giving _ _ _ => cases light
  | reading _ => cases light
  | removed => cases light
  | _ => exact ⟨rfl, rfl⟩

/-- Such a call goes on under the next start, and a start keeps what it is to replace. -/
theorem light_fits {start : Nat} {disk other : Disk} {quiet calm : Prop}
    {parts : List (Int × Text)} (stage : Stage) (light : stage.light = true)
    (fits : stage.Fits shape start disk quiet) : stage.Fits parts (start + 1) other calm := by
  cases stage with
  | planning previous _ =>
      exact fun record member => ⟨(fits record member).1, dated_later (fits record member).2⟩
  | calling previous _ _ =>
      exact fun record member => ⟨(fits record member).1, dated_later (fits record member).2⟩
  | restarting files _ => exact Or.inl (List.isEmpty_iff.mp light)
  | opening _ _ => cases light
  | landed _ _ _ => cases light
  | checked _ _ _ _ => cases light
  | cleared _ _ => cases light
  | reading _ => cases light
  | read _ _ => cases light
  | _ => trivial

theorem register_owned (finished : Transfer → Bool) (plan : Plan)
    (previous : Option DownloadRecord) (captured : List Transfer)
    (fits : ∀ record ∈ previous, record.state = .complete ∧ record.Dated m.minted)
    (cancelled : ∀ transfer ∈ m.live, transfer ∈ captured ∧ finished transfer = false)
    (alone : ∀ task ∈ m.tasks, task.write = none ∧ task.stage.light = true)
    (owned : Owned shape m) :
    Owned (skeleton plan.files) (Manager.spawn (m.register finished plan previous captured)) := by
  let start := some (m.minted + 1)
  let record : DownloadRecord := ⟨plan.format, .running, plan.files, none, start⟩
  let opening : Task := ⟨some record, .opening plan.files start⟩
  have stands (quiet : Prop) : Stands (skeleton plan.files) (m.minted + 1) m.disk quiet record := by
    refine Or.inl (Or.inr ⟨rfl, rfl, ?_⟩)
    intro file member done
    rw [plan.fresh file member] at done
    cases done
  have calls : ∀ task ∈ m.tasks ++ [opening],
      task.stage.asks = false ∧ task.stage.givesUp = false := by
    intro task member
    rcases List.mem_append.mp member with before | last
    · exact light_calls task.stage (alone task before).2
    · rw [List.mem_singleton.mp last]
      exact ⟨rfl, rfl⟩
  exact {
    ordinals := skeleton_ordinals plan.files ▸ plan.ordinals
    names := skeleton_names plan.files ▸ plan.names
    live := by
      intro transfer member
      obtain ⟨live, stays⟩ := List.mem_filter.mp member
      obtain ⟨listed, unfinished⟩ := cancelled transfer live
      simp [listed, unfinished] at stays
    tasks := by
      intro task member
      rcases List.mem_append.mp member with before | last
      · refine ⟨fun write waits => ?_, ?_⟩
        · rw [(alone task before).1] at waits
          cases waits
        · exact light_fits task.stage (alone task before).2 (owned.tasks task before).stage
      · obtain rfl : task = opening := List.mem_singleton.mp last
        refine ⟨fun write waits => ?_, rfl⟩
        obtain rfl : record = write := Option.some.inj waits
        exact stands _
    memory := by
      intro other same
      obtain rfl : record = other := Option.some.inj same
      exact stands _
    store := Or.inr ⟨Option.some_ne_none record, fun task member => (calls task member).1⟩
    replacing := by
      intro other member
      have either : other ∈ previous ∨ other ∈ m.replacing := by
        revert member
        show previous.or m.replacing = some other → _
        cases previous with
        | some kept => exact Or.inl
        | none => exact Or.inr
      rcases either with kept | before
      · exact ⟨(fits other kept).1, dated_next (fits other kept).2⟩
      · exact ⟨(owned.replacing other before).1, older_next (owned.replacing other before).2⟩
    once := by
      show (m.tasks ++ [opening]).countP (·.stage.givesUp) ≤ 0
      rw [Nat.le_zero, List.countP_eq_zero]
      intro task member
      rw [(calls task member).2]
      exact Bool.false_ne_true }

/-- What a step keeps, and what it does when a record turns complete. -/
def Keeps (m next : Manager) : Prop :=
  (∃ shape, Owned shape next) ∧ ∀ record, m.Completes next record → record.Installed next.disk

theorem keeps_of_segment {result : Manager × Option Task} (owned : Owned shape m)
    (segment : Segment shape m result) : Keeps m (Manager.spawn result) :=
  ⟨⟨shape, segment_owned segment owned⟩, segment_completes owned segment⟩

theorem keeps_of_incomplete {next : Manager} (owned : Owned shape next)
    (incomplete : ∀ record ∈ next.record, record.state ≠ .complete) : Keeps m next :=
  ⟨⟨shape, owned⟩, fun record completes =>
    absurd completes.2.1 (incomplete record completes.1)⟩

theorem keeps_calling (finished : Transfer → Bool) (plan : Plan)
    (previous : Option DownloadRecord) (captured : List Transfer)
    (fits : ∀ record ∈ previous, record.state = .complete ∧ record.Dated m.minted)
    (orderly : (Stage.calling previous plan captured).Orderly m finished) (owned : Owned shape m) :
    Keeps m (Manager.spawn (m.register finished plan previous captured)) := by
  apply keeps_of_incomplete
    (register_owned finished plan previous captured fits orderly.1 orderly.2 owned)
  intro record same
  obtain rfl := Option.some.inj same
  exact fun complete => by cases complete

theorem adopted_owned (record : DownloadRecord)
    (stands : Stands shape m.minted m.disk m.Quiet record) (owned : Owned shape m) :
    Owned shape { m with record := some record } :=
  { owned with
    memory := by
      intro other same
      obtain rfl : record = other := Option.some.inj same
      exact stands
    store := owned.store.imp id fun asked => ⟨Option.some_ne_none record, asked.2⟩ }

/-- What is adopted is not complete, so it is given its own bytes if it turns complete. -/
theorem keeps_adopted {result : Manager × Option Task} (record : DownloadRecord)
    (stands : Stands shape m.minted m.disk m.Quiet record) (incomplete : record.state ≠ .complete)
    (owned : Owned shape m) (segment : Segment shape { m with record := some record } result) :
    Keeps m (Manager.spawn result) := by
  refine ⟨⟨shape, segment_owned segment (adopted_owned record stands owned)⟩, ?_⟩
  intro last ⟨here, complete, before, was, open', same⟩
  rcases segment.turns record rfl incomplete last here complete with installed | older
  · exact installed
  · exact installed_of_older owned before was open' older same

theorem keeps_adopt (faults : Faults) (stored : Option DownloadRecord) (call : Stage)
    (stands : ∀ record ∈ stored, Stands shape m.minted m.disk m.Quiet record)
    (incomplete : ∀ record ∈ stored, record.state ≠ .complete)
    (fits : call.Fits shape m.minted m.disk m.Quiet) (owned : Owned shape m) :
    Keeps m (Manager.spawn (m.adopt faults stored call)) := by
  have ended : Keeps m (Manager.spawn (m, none)) := keeps_of_segment owned segment_ended
  cases call with
  | landed ordinal status staged =>
      cases stored with
      | none => exact keeps_of_segment owned (segment_discarded ordinal staged segment_ended)
      | some record =>
          have known := stands record rfl
          exact keeps_adopted record known (incomplete record rfl) owned
            (segment_finish_known (adopted_owned record known owned) faults ordinal status staged
              record rfl fits)
  | stopped ordinal failure resumeData message =>
      cases stored with
      | none => exact ended
      | some record =>
          have known := stands record rfl
          apply keeps_adopted record known (incomplete record rfl) owned
          apply segment_fallen (adopted_owned record known owned)
          intro _ _ _ other same
          obtain rfl : record = other := Option.some.inj same
          exact incomplete record rfl
  | _ => exact ended

theorem keeps_removed (owned : Owned shape m)
    (stands : ∀ record ∈ m.stored, Stands shape m.minted m.disk m.Quiet record) :
    Keeps m (Manager.spawn
      ({ m with record := none, replacing := none, attempt := none }, none)) := by
  rw [Manager.spawn, Option.toList_none, List.append_nil]
  have cleared : Owned shape { m with record := none, replacing := none, attempt := none } := {
    ordinals := owned.ordinals
    names := owned.names
    live := owned.live
    tasks := owned.tasks
    memory := fun _ none => by cases none
    store := Or.inl stands
    replacing := fun _ none => by cases none
    once := owned.once }
  exact keeps_of_incomplete cleared fun _ none => by cases none

theorem advance_keeps (index : Nat) (task : Task) (outcome : Outcome)
    (here : m.tasks[index]? = some task)
    (orderly : task.stage.Orderly { m with tasks := m.tasks.eraseIdx index } outcome.finished)
    (owned : Owned shape m) :
    Keeps m (Manager.spawn
      (Manager.advance outcome { m with tasks := m.tasks.eraseIdx index } task.stage)) := by
  show Keeps { m with tasks := m.tasks.eraseIdx index } _
  have member := List.mem_of_getElem? here
  have rest := owned_erase index owned
  have fits := (task_nearby nearby_self (@quiet_erase m index) (owned.tasks task member)).stage
  have segment {result : Manager × Option Task}
      (segment : Segment shape { m with tasks := m.tasks.eraseIdx index } result) :
      Keeps { m with tasks := m.tasks.eraseIdx index } (Manager.spawn result) :=
    keeps_of_segment rest segment
  obtain ⟨write, stage⟩ := task
  cases stage with
  | planning previous plan => exact segment (segment_planning outcome previous plan fits)
  | calling previous plan captured =>
      exact keeps_calling outcome.finished plan previous captured fits orderly rest
  | opening files own =>
      exact segment (segment_calm ⟨rfl, rfl, rfl, rfl, rfl, fun _ member => member⟩ nearby_self
        (resume_live files own (Or.inr fits)) fun _ none => by cases none)
  | landed ordinal status staged =>
      exact segment (segment_finish rest outcome.faults ordinal status staged fits)
  | checked ordinal name errored before =>
      exact segment (segment_after_check rest outcome ordinal name errored before fits.2 fits.1)
  | cleared ordinal name =>
      exact segment (segment_stage_in rest outcome.faults ordinal name fits.2 fits.1)
  | marking =>
      apply segment
      simp only [Manager.advance]
      split_ifs with done
      · apply segment_install rest
        intro record found
        rw [found] at done
        exact done
      · exact segment_ended
  | giving message inInstall captured =>
      apply segment
      have quiet := quiet_giving index _ here rfl owned
      apply segment_give_up outcome.finished message inInstall captured quiet rest
      intro record found
      rcases owned.memory record found with ours | ⟨_, busy, _⟩
      · exact ours
      · cases busy.2 _ member
  | settled inInstall => exact segment (segment_released inInstall)
  | stopped ordinal failure resumeData message =>
      apply segment
      simp only [Manager.advance]
      split_ifs with known
      · apply segment_fallen rest
        intro equal
        subst equal
        exact orderly
      · have gone : m.record = none := by simpa using known
        exact segment_asked (m := { m with tasks := m.tasks.eraseIdx index }) gone
          (.stopped ordinal failure resumeData message) trivial
  | reading call =>
      have trusted : ∀ record ∈ m.stored, Stands shape m.minted m.disk
          (Manager.Quiet { m with tasks := m.tasks.eraseIdx index }) record := by
        rcases owned.store with stands | ⟨_, asked⟩
        · exact fun record found =>
            stands_nearby nearby_self (@quiet_erase m index) (stands record found)
        · cases asked _ member
      apply segment
      exact segment_calm (untouched_self _) nearby_self (fun _ member => Or.inl member)
        (calm_call ⟨trusted, fits⟩ rfl rfl)
  | read stored call => exact keeps_adopt outcome.faults stored call fits.1 orderly fits.2 rest
  | parking ordinal message => exact segment (segment_park rest ordinal message orderly)
  | parked =>
      apply segment
      simp only [Manager.advance]
      split_ifs
      · exact segment_resume_interrupted
      · exact segment_ended
  | listing captured => exact segment (segment_listing outcome captured rest)
  | restarting files own => exact segment (segment_restarting outcome files own fits)
  | cancelling captured => exact segment (segment_remove outcome.finished captured)
  | removing => exact segment (segment_deleted outcome.faults)
  | removed =>
      apply keeps_removed rest
      rcases owned.store with stands | ⟨_, asked⟩
      · exact fun record found =>
          stands_nearby nearby_self (@quiet_erase m index) (stands record found)
      · cases asked _ member

theorem write_owned (index : Nat) (record : DownloadRecord) (stage : Stage)
    (here : m.tasks[index]? = some ⟨some record, stage⟩) (owned : Owned shape m) :
    Owned shape { m with stored := some record, tasks := m.tasks.set index ⟨none, stage⟩ } := by
  have listed := List.mem_of_getElem? here
  have inside := (List.getElem?_eq_some_iff.mp here).1
  have written := owned.tasks _ listed
  have split : ∀ task ∈ m.tasks.set index ⟨none, stage⟩, task ∈ m.tasks ∨ task = ⟨none, stage⟩ :=
    fun task member => List.mem_or_eq_of_mem_set member
  have still : m.Quiet → Manager.Quiet { m with
      stored := some record, tasks := m.tasks.set index ⟨none, stage⟩ } := by
    refine fun quiet => ⟨quiet.1, fun task member => ?_⟩
    rcases split task member with before | rfl
    · exact quiet.2 task before
    · exact (quiet.2 _ listed : stage.givesUp = false)
  exact {
    ordinals := owned.ordinals
    names := owned.names
    live := owned.live
    tasks := by
      intro task member
      rcases split task member with before | rfl
      · exact task_nearby nearby_self still (owned.tasks task before)
      · exact ⟨fun _ none => (by cases none), stage_nearby nearby_self still stage written.stage⟩
    memory := fun other found => stands_nearby nearby_self still (owned.memory other found)
    store := by
      left
      intro other same
      obtain rfl : record = other := Option.some.inj same
      exact stands_nearby nearby_self still (written.write record rfl)
    replacing := owned.replacing
    once := by
      have erased := (List.getElem_cons_eraseIdx_perm inside).countP_eq (·.stage.givesUp)
      have set := (List.set_perm_cons_eraseIdx inside (⟨none, stage⟩ : Task)).countP_eq
        (·.stage.givesUp)
      have same : m.tasks[index] = ⟨some record, stage⟩ :=
        (List.getElem?_eq_some_iff.mp here).2
      rw [same, List.countP_cons] at erased
      rw [List.countP_cons] at set
      show (m.tasks.set index ⟨none, stage⟩).countP (·.stage.givesUp) ≤ m.abandoned.toNat
      rw [set, erased]
      exact owned.once }

theorem segment_landed (index : Nat) (transfer : Transfer) (status : Nat) (moved : Bool)
    (here : m.live[index]? = some transfer) (owned : Owned shape m) :
    Segment shape m ({ m with
      live := m.live.eraseIdx index
      disk := { m.disk with
        staged := Function.update m.disk.staged transfer.ordinal
          (if moved then some (.fetched transfer) else none) } },
      some ⟨none, .landed transfer.ordinal status moved⟩) := by
  have own := owned.live transfer (List.mem_of_getElem? here)
  have brought : ∀ bytes, (if moved then some (Bytes.fetched transfer) else none) = some bytes →
      bytes.Own m.minted transfer.ordinal := by
    intro bytes same
    split_ifs at same
    exact ⟨transfer, (Option.some.inj same).symm, rfl, own⟩
  refine segment_calm ⟨rfl, rfl, rfl, rfl, rfl, fun _ member => member⟩ ⟨?_, ?_⟩ ?_ ?_
  · exact fun _ _ _ present => Or.inl present
  · intro ordinal bytes present
    by_cases same : ordinal = transfer.ordinal
    · subst same
      exact Or.inr (brought bytes (by simpa using present))
    · exact Or.inl (by simpa [same] using present)
  · exact fun _ member => Or.inl (List.mem_of_mem_eraseIdx member)
  · exact calm_call (fun bytes present => brought bytes (by simpa using present)) rfl rfl

theorem segment_dropped (index : Nat) (ordinal : Int) (failure : DownloadFailure)
    (resumeData : Bool) (message : Text) :
    Segment shape m ({ m with live := m.live.eraseIdx index },
      some ⟨none, .stopped ordinal failure resumeData message⟩) := by
  exact segment_calm ⟨rfl, rfl, rfl, rfl, rfl, fun _ member => member⟩ nearby_self
    (fun _ member => Or.inl (List.mem_of_mem_eraseIdx member)) (calm_call trivial rfl rfl)

theorem segment_started (plan : Plan) (previous : Option DownloadRecord)
    (fits : ∀ record ∈ previous, record.state = .complete ∧ record.Dated m.minted) :
    Segment shape m (m, some ⟨none, .planning previous plan⟩) :=
  segment_calm (untouched_self _) nearby_self (fun _ member => Or.inl member)
    (calm_call fits rfl rfl)

theorem segment_cancelled :
    Segment shape m ({ m with abandoned := true }, some ⟨none, .cancelling m.live⟩) := by
  refine segment_same rfl rfl rfl (fun _ member => member) (fun _ => rfl) nearby_self
    (fun _ member => Or.inl member) (fun _ member => member) ?_
  intro task last
  obtain rfl := Option.some.inj last
  exact ⟨⟨fun _ none => (by cases none), trivial⟩, fun asks => (by cases asks),
    fun gives => (by cases gives)⟩

theorem step_keeps (act : Act) (next : Manager) (owned : Owned shape m) (orderly : act.Orderly m)
    (stepped : m.step act = some next) : Keeps m next := by
  cases act with
  | land index status moved =>
      obtain ⟨transfer, here, landed⟩ := Option.bind_eq_some_iff.mp stepped
      obtain rfl := Option.some.inj landed
      exact keeps_of_segment owned (segment_landed index transfer status moved here owned)
  | drop index failure resumeData message =>
      obtain ⟨transfer, _, dropped⟩ := Option.bind_eq_some_iff.mp stepped
      obtain rfl := Option.some.inj dropped
      exact keeps_of_segment owned
        (segment_dropped index transfer.ordinal failure resumeData message)
  | reconnect =>
      obtain rfl := Option.some.inj stepped
      exact keeps_of_segment owned segment_resume_interrupted
  | run index outcome =>
      obtain ⟨task, here, moved⟩ := Option.bind_eq_some_iff.mp stepped
      obtain ⟨write, stage⟩ := task
      cases write with
      | some record =>
          obtain rfl := Option.some.inj moved
          refine ⟨⟨shape, write_owned index record stage here owned⟩, ?_⟩
          intro last ⟨same, complete, before, was, incomplete, _⟩
          obtain rfl := Option.some.inj (was.symm.trans same)
          exact absurd complete incomplete
      | none =>
          obtain rfl := Option.some.inj moved
          exact advance_keeps index ⟨none, stage⟩ outcome here (orderly _ here rfl) owned
  | kill _ _ => exact orderly.elim
  | start plan =>
      obtain rfl := Option.some.inj stepped
      exact keeps_of_segment owned (segment_started plan none fun _ none => by cases none)
  | redownload plan =>
      obtain rfl := Option.some.inj stepped
      apply keeps_of_segment owned (segment_started plan m.replaceable _)
      intro record kept
      obtain ⟨here, complete⟩ := Option.filter_eq_some_iff.mp kept
      exact ⟨by simpa using complete, dated_of_stands (owned.memory record here)⟩
  | cancel =>
      obtain rfl := Option.some.inj stepped
      exact keeps_of_segment owned segment_cancelled
  | remove =>
      obtain rfl := Option.some.inj stepped
      apply keeps_of_segment owned
      exact segment_calm ⟨rfl, rfl, rfl, rfl, rfl, fun _ member => member⟩
        (nearby_of_less (discard_incoming_less _ m.disk) fun _ _ present => present)
        (fun _ member => Or.inl member) (calm_call trivial rfl rfl)

theorem launched_owned (launched : m.Launched) : ∃ shape, Owned shape m := by
  have stands : ∀ record ∈ m.record,
      Stands (skeleton record.files) m.minted m.disk m.Quiet record := by
    intro record here
    obtain ⟨_, own, _⟩ := launched.record record here
    refine Or.inl (Or.inr ⟨own.trans (congrArg some launched.minted.symm), rfl, ?_⟩)
    intro file _ _ bytes present
    rw [launched.incoming] at present
    cases present
  let shape := skeleton ((m.record.map (·.files)).getD [])
  have memory : ∀ record ∈ m.record, Stands shape m.minted m.disk m.Quiet record := by
    intro record here
    have same : shape = skeleton record.files := by
      simp only [shape]
      rw [show m.record = some record from here]
      rfl
    rw [same]
    exact stands record here
  have distinct : ((shape.map Prod.fst).Nodup ∧ (shape.map Prod.snd).Nodup) := by
    simp only [shape, skeleton_ordinals, skeleton_names]
    cases here : m.record with
    | none => exact ⟨List.nodup_nil, List.nodup_nil⟩
    | some record => exact (launched.record record here).2.2
  exact ⟨shape, {
    ordinals := distinct.1
    names := distinct.2
    live := by
      intro transfer member
      rw [launched.live] at member
      cases member
    tasks := by
      intro task member
      rw [launched.tasks] at member
      cases member
    memory := memory
    store := by
      left
      rw [launched.stored]
      exact memory
    replacing := by
      intro record member
      rw [launched.replacing] at member
      cases member
    once := by
      rw [launched.tasks]
      exact Nat.zero_le _ }⟩

end Steps

/-- In every run whose steps are orderly, a record that turns complete holds under every name the
bytes of a transfer made for that record. -/
theorem installs_own_bytes (first m next : Manager) (launched : first.Launched) (acts : List Act)
    (act : Act) (ran : run Manager.step first acts = some m) (stepped : m.step act = some next)
    (orderly : Meets Manager.step (fun m act => act.Orderly m) first (acts ++ [act]))
    (record : DownloadRecord) (completes : m.Completes next record) :
    record.Installed next.disk := by
  obtain ⟨before, last⟩ := Meets.concat Manager.step orderly
  have keeps : ∀ (m : Manager) act next, (∃ shape, Owned shape m) → act.Orderly m →
      m.step act = some next → ∃ shape, Owned shape next := by
    intro m act next owned condition stepped
    obtain ⟨shape, owned⟩ := owned
    exact (step_keeps act next owned condition stepped).1
  obtain ⟨shape, owned⟩ := run_keeps Manager.step keeps acts (launched_owned launched) before ran
  exact (step_keeps act next owned (last m ran) stepped).2 record completes

def emptyShelf : Manager where
  disk := ⟨fun _ => none, fun _ => none, fun _ => none, fun _ => false, fun _ => none⟩
  record := none
  stored := none
  replacing := none
  abandoned := false
  attempt := none
  minted := 0
  installing := false
  isResuming := false
  live := []
  made := 0
  tasks := []

theorem empty_shelf_launched : emptyShelf.Launched :=
  ⟨rfl, rfl, rfl, rfl, rfl, fun _ none => (by cases none), fun _ => rfl⟩

def onePart : Plan where
  format := "epub".toList
  files := [⟨0, "b.epub".toList, false⟩]
  nonempty := by simp
  names := by simp
  ordinals := by simp
  fresh := by simp

def goes (index : Nat) : Act := .run index {}

/-- A start is cancelled with its transfer on its way, and a second one is registered and stored and
its transfer lands; the completion has staged its bytes and waits for its write. -/
def fetchedAgain : List Act :=
  [.start onePart, goes 0, goes 0, goes 0, goes 0, .cancel, goes 0, goes 0, goes 0,
    .start onePart, goes 0, goes 0, goes 0, goes 0, .land 0 200 true, goes 0, goes 0]

theorem installs_own_bytes_again :
    ∃ m next record, run Manager.step emptyShelf fetchedAgain = some m ∧
      m.step (goes 0) = some next ∧ m.Completes next record ∧ record.start = some 2 ∧
        record.Installed next.disk := by
  refine ⟨_, _, _, rfl, rfl, ⟨rfl, rfl, _, rfl, by decide, rfl⟩, rfl, ?_⟩
  apply installs_own_bytes emptyShelf _ _ empty_shelf_launched fetchedAgain (goes 0) rfl rfl
  · decide +kernel
  · exact ⟨rfl, rfl, _, rfl, by decide, rfl⟩

/-- The transfer of a first start lands, the download is cancelled and started again, and only then
does the completion go on. -/
def overtaken : List Act :=
  [.start onePart, goes 0, goes 0, goes 0, goes 0, .land 0 200 true,
    .cancel, goes 1, goes 1, goes 1, .start onePart, goes 1, goes 1, goes 0, goes 1]

/-- The record of the second start is complete with the bytes of the first start's transfer. -/
theorem first_bytes_installed :
    ∃ m next record, run Manager.step emptyShelf overtaken = some m ∧
      m.step (goes 1) = some next ∧ m.Completes next record ∧ record.start = some 2 ∧
      next.disk.held "b.epub".toList = some (.fetched ⟨0, 0, some 1⟩) ∧
      ¬record.Installed next.disk := by
  refine ⟨_, _, _, rfl, rfl, ⟨rfl, rfl, _, rfl, by decide, rfl⟩, rfl, rfl, ?_⟩
  intro installed
  obtain ⟨transfer, held, _, start⟩ := installed _ (List.mem_singleton_self _)
  obtain rfl := Bytes.fetched.inj (Option.some.inj held)
  cases start

end Omnibus.Downloads
