import Mathlib.Data.List.Perm.Basic
import Omnibus.Downloads.Replacement

/-!
# The book survives its replacement

Every segment of a run whose steps are safe keeps what a replacement in flight promises, so that
a device on which nothing is left to do holds all of one copy or all of the other.
-/

namespace Omnibus.Downloads

open Omnibus.Library.Strings Omnibus.Library.Runs

section Install

variable {previous : DownloadRecord} {plan : Plan} {m : Manager}

theorem going_installing (abandoned : m.abandoned = true) (going : Going previous plan m) :
    Going previous plan { m with installing := true } := by
  obtain ⟨sound, record, here, phase⟩ := going
  refine ⟨⟨sound.store, sound.writes, sound.staged, sound.named, sound.started⟩, record, here, ?_⟩
  rcases phase with ⟨standing, given, waited⟩ | resting
  · exact Or.inl ⟨{ standing with guarded := fun _ => abandoned }, given, waited⟩
  · exact Or.inr ⟨resting.replacing, resting.complete, resting.intact⟩

theorem install_abandon_going (message : Text) (nearly : Nearly previous plan m) :
    Going previous plan
      (Manager.spawn (Manager.abandon message true { m with installing := true })) := by
  by_cases abandoned : m.abandoned = true
  · have unmoved : Unmoved m { m with installing := false } :=
      ⟨rfl, rfl, rfl, rfl, rfl, rfl, fun _ _ present => Or.inl present, fun flag => by cases flag⟩
    have shape : Manager.abandon message true { m with installing := true } =
        ({ m with installing := false }, none) := by
      rw [Manager.abandon, if_pos abandoned]
      rfl
    rw [shape]
    exact going_idle unmoved rfl (fun _ none => by cases none)
      (going_of_abandoned nearly abandoned)
  · have given := abandon_going message true nearly
    rw [Manager.abandon, if_neg abandoned] at given ⊢
    exact going_installing (m := Manager.spawn
      ({ m with abandoned := true }, some ⟨none, .giving message true m.live⟩)) rfl given

theorem unmoved_undone (disk : Disk) (held : disk.held = m.disk.held)
    (incoming : disk.incoming = m.disk.incoming) (staged : disk.staged = m.disk.staged) :
    Unmoved m { m with disk } :=
  ⟨rfl, rfl, rfl, rfl, held, incoming,
    fun ordinal bytes present => Or.inl (by rw [← staged]; exact present), id⟩

theorem nearly_undone (disk : Disk) (held : disk.held = m.disk.held)
    (incoming : disk.incoming = m.disk.incoming) (staged : disk.staged = m.disk.staged)
    (nearly : Nearly previous plan m) : Nearly previous plan { m with disk } := by
  have unmoved := unmoved_undone disk held incoming staged
  have fewer : ∀ task ∈ m.tasks, task ∈ m.tasks ∨ Idle plan task := fun _ member => Or.inl member
  refine ⟨sound_frame unmoved fewer nearly.sound, ?_⟩
  obtain ⟨record, here, ⟨standing, given⟩ | resting⟩ := nearly.memory
  · exact ⟨record, here, Or.inl ⟨standing_frame unmoved fewer standing, given⟩⟩
  · exact ⟨record, here, Or.inr (resting_frame unmoved resting)⟩

/-- What a successful swap holds: the new files, each with the bytes of its part. -/
theorem swapped_new (faults : Faults) (record : DownloadRecord)
    (standing : Standing previous plan record m) (done : record.allDone = true)
    (present : ∀ name ∈ record.files.map (·.name), m.disk.incoming name ≠ none)
    (success : (swapIntoPlace faults (record.files.map (·.name)) m.disk).1 ≠ none) :
    ∀ file ∈ plan.files, ∃ bytes, (swapIntoPlace faults (record.files.map (·.name)) m.disk).2.held
      file.name = some bytes ∧ bytes.Brought file.ordinal := by
  have names : record.files.map (·.name) = plan.files.map (·.name) := by
    rw [← skeleton_names, ← skeleton_names, standing.shape]
  intro file member
  have listed : (file.ordinal, file.name) ∈ skeleton record.files := by
    rw [standing.shape]
    exact List.mem_map_of_mem member
  obtain ⟨other, within, same⟩ := List.mem_map.mp listed
  obtain ⟨ordinal, name⟩ := Prod.mk.inj same
  have inside : file.name ∈ record.files.map (·.name) := by
    rw [← name]
    exact List.mem_map_of_mem within
  rw [swap_placed _ (names ▸ plan.names) m.disk success file.name inside]
  obtain ⟨bytes, here⟩ := Option.ne_none_iff_exists'.mp (present file.name inside)
  have finished : other.done = true := List.all_eq_true.mp done other within
  have fetched := standing.arrived other within finished bytes (by rw [name]; exact here)
  rw [ordinal] at fetched
  exact ⟨bytes, here, fetched⟩

theorem install_going (faults : Faults)
    (undoes : ∀ record ∈ m.record, Undoes faults (record.files.map (·.name)))
    (nearly : Nearly previous plan m)
    (unstored : m.replacing ≠ none → ∀ stored ∈ m.stored, stored.state ≠ .complete)
    (done : ∀ record ∈ m.record, record.allDone = true) :
    Going previous plan (Manager.spawn (m.install faults)) := by
  obtain ⟨record, here, phase⟩ := nearly.memory
  rw [Manager.install, here]
  simp only
  split_ifs with settled missing
  · apply ended_going
    rcases phase with ⟨standing, given⟩ | resting
    · apply going_of_abandoned nearly
      rcases settled with flag | complete
      · exact standing.guarded flag
      · rw [standing.running] at complete
        cases complete
    · exact ⟨nearly.sound, record, here, Or.inr resting⟩
  · have given := install_abandon_going "The download is missing some of its files.".toList nearly
    rwa [here] at given
  · have standing : Standing previous plan record m :=
      (phase.resolve_right fun resting => settled (Or.inr resting.complete)).1
    have names : record.files.map (·.name) = plan.files.map (·.name) := by
      rw [← skeleton_names, ← skeleton_names, standing.shape]
    have distinct : (record.files.map (·.name)).Nodup := names ▸ plan.names
    have staged := @swap_staged faults (record.files.map (·.name)) m.disk
    have undone := swap_undone _ (undoes record here) distinct m.disk
    have placed := swapped_new faults record standing (done record here) (by
      intro name member none
      apply missing
      rw [List.any_eq_true]
      exact ⟨name, member, by rw [none]; rfl⟩)
    cases swapped : swapIntoPlace faults (record.files.map (·.name)) m.disk with
    | mk result disk =>
        rw [swapped] at staged undone placed
        cases result with
        | none =>
            obtain ⟨held, incoming⟩ := undone rfl
            have given := install_abandon_going "move failed".toList
              (nearly_undone disk held incoming staged nearly)
            simp only [here] at given
            exact given
        | some replaced =>
            let complete : DownloadRecord := { record with state := .complete, error := none }
            let final := Manager.sweepReplaced faults (record.files.map (·.name)) replaced
              m.replacing disk
            have intact : Intact previous plan complete final := by
              refine Or.inr ⟨standing.shape, fun file member => ?_⟩
              have inside : file.name ∈ record.files.map (·.name) := by
                rw [names]
                exact List.mem_map_of_mem member
              rw [sweep_replaced_held faults _ _ _ _ _ inside]
              exact placed (Option.some_ne_none _) file member
            have kept : final.staged = m.disk.staged :=
              (sweep_replaced_staged faults _ _ _ _).trans staged
            have installed : Sound previous plan { m with
                installing := true, disk := final, replacing := none, record := some complete } := {
              store := fun stored member whole =>
                absurd whole (unstored (by rw [standing.replacing]; simp) stored member)
              writes := fun task member write waits whole =>
                absurd whole (standing.unwritten task member write waits)
              staged := fun ordinal bytes present =>
                nearly.sound.staged ordinal bytes (kept ▸ present)
              named := nearly.sound.named
              started := nearly.sound.started }
            refine ⟨?_, complete, rfl, Or.inr ⟨rfl, rfl, intact⟩⟩
            apply sound_spawn installed _ (fun _ none => by cases none) rfl
            intro write waits _
            obtain rfl := Option.some.inj waits
            exact intact

theorem give_up_going (complete : previous.state = .complete) (finished : Transfer → Bool)
    (message : Text) (inInstall : Bool) (captured : List Transfer) (record : DownloadRecord)
    (sound : Sound previous plan m) (standing : Standing previous plan record m) :
    Going previous plan (Manager.spawn (m.giveUp finished message inInstall captured)) := by
  have intact : Intact previous plan previous m.disk := Or.inl ⟨rfl, standing.old⟩
  rw [Manager.giveUp]
  simp only [Manager.stop, standing.replacing]
  have restored : Sound previous plan { m with
      live := m.live.filter fun transfer => transfer ∉ captured || finished transfer
      replacing := none, record := some previous
      disk := Manager.discardIncoming ((m.record.map (·.files)).getD []) m.disk } :=
    ⟨sound.store, sound.writes, sound.staged, sound.named, sound.started⟩
  refine ⟨?_, previous, rfl, Or.inr ⟨rfl, complete, intact⟩⟩
  apply sound_spawn restored _ (fun _ none => by cases none) rfl
  intro write waits _
  obtain rfl := Option.some.inj waits
  exact intact

end Install

section Steps

variable {previous : DownloadRecord} {plan : Plan} {m : Manager}

theorem unfinished_plan (plan : Plan) (format : Text) (state : DownloadState)
    (error : Option Text) (start : Option Nat) :
    DownloadRecord.allDone ⟨format, state, plan.files, error, start⟩ = false := by
  obtain ⟨file, rest, shape⟩ := List.exists_cons_of_ne_nil plan.nonempty
  have fresh := plan.fresh file (by rw [shape]; exact List.mem_cons_self ..)
  rw [DownloadRecord.allDone]
  simp [shape, fresh]

theorem register_going (finished : Transfer → Bool) (installing : m.installing = false)
    (old : Old previous m.disk) (staged : ∀ ordinal, m.disk.staged ordinal = none)
    (stored : m.stored = some previous)
    (tasks : ∀ task ∈ m.tasks, task.write = none ∧ ∃ captured, task.stage = .listing captured) :
    Going previous plan (Manager.spawn (m.register finished plan (some previous) [])) := by
  let start := some (m.minted + 1)
  let attempt : DownloadRecord := ⟨plan.format, .running, plan.files, none, start⟩
  let opening : Task := ⟨some attempt, .opening plan.files start⟩
  refine ⟨?_, attempt, rfl, Or.inl ⟨?_, ?_, ?_⟩⟩
  · have registered : Sound previous plan { m.stop finished [] with
        abandoned := false, attempt := start, minted := m.minted + 1
        replacing := some previous, record := some attempt } := {
      store := by
        intro other member _
        obtain rfl := Option.some.inj (stored.symm.trans member)
        exact Or.inl ⟨rfl, old⟩
      writes := by
        intro task member write waits
        rw [(tasks task member).1] at waits
        cases waits
      staged := by
        intro ordinal bytes present
        cases (staged ordinal).symm.trans present
      named := by
        intro task member part staging
        obtain ⟨_, captured, stage⟩ := tasks task member
        rw [stage] at staging
        cases staging
      started := by
        intro task member
        obtain ⟨_, captured, stage⟩ := tasks task member
        rw [stage]
        rfl }
    apply sound_spawn registered _ (fun _ none => by cases none) rfl
    intro write waits complete
    obtain rfl := Option.some.inj waits
    cases complete
  · exact {
      replacing := rfl
      running := rfl
      shape := rfl
      old := old
      arrived := by
        intro file member done
        rw [plan.fresh file member] at done
        cases done
      guarded := by
        intro flag
        cases installing.symm.trans flag
      unwritten := by
        intro task member write waits
        rcases mem_spawned member with before | rfl
        · rw [(tasks task before).1] at waits
          cases waits
        · obtain rfl := Option.some.inj waits
          simp
      stored := by
        intro member
        rcases mem_spawned member with before | same
        · obtain ⟨_, captured, stage⟩ := tasks _ before
          cases stage
        · cases congrArg Task.write same }
  · intro abandoned
    cases abandoned
  · intro done
    rw [unfinished_plan plan] at done
    cases done

/-- Where transfers, resume data and the pass over them stand is nothing to a record. -/
theorem unmoved_transfers (live : List Transfer) (made : Nat) (resume : Text → Bool)
    (isResuming : Bool) :
    Unmoved m { m with live, made, isResuming, disk := { m.disk with resume } } :=
  ⟨rfl, rfl, rfl, rfl, rfl, rfl, fun _ _ present => Or.inl present, id⟩

theorem idle_transfers (files : List DownloadFile) (start : Option Nat) :
    ∀ task ∈ some (⟨none, .restarting files start⟩ : Task), Idle plan task :=
  idle_call rfl (by simp) fun _ none => by cases none

theorem resume_going (going : Going previous plan m) :
    Going previous plan (Manager.spawn m.resumeInterrupted) := by
  rw [Manager.resumeInterrupted]
  split_ifs
  · exact ended_going going
  · exact going_idle (unmoved_transfers m.live m.made m.disk.resume true) rfl
      (idle_call rfl (by simp) fun _ none => by cases none) going

theorem list_going (outcome : Outcome) (captured : List Transfer) (going : Going previous plan m) :
    Going previous plan (Manager.spawn (Manager.advance outcome m (.listing captured))) := by
  have ended : Going previous plan (Manager.spawn ({ m with isResuming := false }, none)) :=
    going_idle (unmoved_transfers m.live m.made m.disk.resume false) rfl
      (fun _ none => by cases none) going
  rw [Manager.advance]
  split
  · split_ifs
    · exact going_idle (unmoved_self m.tasks) rfl (idle_transfers _ _) going
    · exact ended
  · exact ended

theorem restart_going (outcome : Outcome) (files : List DownloadFile) (start : Option Nat)
    (going : Going previous plan m) :
    Going previous plan (Manager.spawn (Manager.advance outcome m (.restarting files start))) := by
  cases files with
  | nil =>
      exact going_idle (unmoved_transfers m.live m.made m.disk.resume false) rfl
        (fun _ none => by cases none) going
  | cons file rest =>
      have idle := @idle_transfers plan rest start
      simp only [Manager.advance]
      split_ifs
      · exact going_idle (unmoved_transfers (m.resume [file] start).live _ _ m.isResuming) rfl idle
          going
      · exact going_idle (unmoved_transfers m.live m.made _ m.isResuming) rfl idle going

theorem advance_going (complete : previous.state = .complete) (index : Nat) (task : Task)
    (outcome : Outcome) (here : m.tasks[index]? = some task) (written : task.write = none)
    (safe : task.stage.Safe outcome m) (going : Going previous plan m) :
    Going previous plan (Manager.spawn
      (Manager.advance outcome { m with tasks := m.tasks.eraseIdx index } task.stage)) := by
  obtain ⟨write, stage⟩ := task
  obtain rfl : write = none := written
  have member := List.mem_of_getElem? here
  have rest (unmarked : stage ≠ .marking) (keeps : stage.givesUp = false) :
      Going previous plan { m with tasks := m.tasks.eraseIdx index } :=
    going_erase here unmarked keeps going
  cases stage with
  | planning _ _ => exact absurd (going.sound.started _ member) (by simp [Stage.absent])
  | calling _ _ _ => exact absurd (going.sound.started _ member) (by simp [Stage.absent])
  | reading _ => exact absurd (going.sound.started _ member) (by simp [Stage.absent])
  | read _ _ => exact absurd (going.sound.started _ member) (by simp [Stage.absent])
  | cancelling _ => exact absurd (going.sound.started _ member) (by simp [Stage.absent])
  | removing => exact absurd (going.sound.started _ member) (by simp [Stage.absent])
  | removed => exact absurd (going.sound.started _ member) (by simp [Stage.absent])
  | opening files start =>
      exact going_idle (unmoved_transfers (m := { m with tasks := m.tasks.eraseIdx index })
        (m.resume files start).live (m.resume files start).made m.disk.resume m.isResuming) rfl
        (fun _ none => by cases none) (rest (by simp) rfl)
  | landed ordinal status staged =>
      exact finish_going outcome.faults ordinal status staged (rest (by simp) rfl)
  | checked ordinal name errored before =>
      exact after_check_going outcome ordinal name errored before
        (going.sound.named _ member _ rfl) (rest (by simp) rfl)
  | cleared ordinal name =>
      exact stage_in_going outcome.faults ordinal name (going.sound.named _ member _ rfl)
        (rest (by simp) rfl)
  | marking =>
      have nearly := nearly_erase here rfl going
      obtain ⟨record, found, phase⟩ := going.memory
      simp only [Manager.advance]
      by_cases done : record.allDone = true
      · have all : m.record.any (·.allDone) = true := by rw [found]; exact done
        rw [if_pos all]
        apply install_going (m := { m with tasks := m.tasks.eraseIdx index }) outcome.faults safe
          nearly
        · intro replaced
          rcases phase with ⟨standing, _⟩ | resting
          · exact standing.stored member
          · exact absurd resting.replacing replaced
        · intro other same
          obtain rfl := Option.some.inj (found.symm.trans same)
          exact done
      · have undone : ¬m.record.any (·.allDone) = true := by rw [found]; exact done
        rw [if_neg undone]
        apply ended_going
        obtain ⟨sound, other, same, phase⟩ := nearly
        obtain rfl := Option.some.inj (found.symm.trans same)
        refine ⟨sound, record, found, phase.imp (fun standing => ⟨standing.1, standing.2, ?_⟩) id⟩
        exact fun finished => absurd finished done
  | giving message inInstall captured =>
      obtain ⟨record, found, phase⟩ := going.memory
      have standing : Standing previous plan record m :=
        (phase.resolve_right fun resting => safe resting.replacing).1
      have fewer : ∀ other ∈ m.tasks.eraseIdx index, other ∈ m.tasks ∨ Idle plan other :=
        fun other member => Or.inl (List.mem_of_mem_eraseIdx member)
      exact give_up_going complete outcome.finished message inInstall captured record
        (sound_frame (unmoved_self _) fewer going.sound)
        (standing_frame (unmoved_self _) fewer standing)
  | settled inInstall =>
      exact going_idle (unmoved_released inInstall) (released_tasks inInstall)
        (fun _ none => by cases none) (rest (by simp) rfl)
  | stopped ordinal failure resumeData message =>
      obtain ⟨record, found, _⟩ := going.memory
      simp only [Manager.advance]
      rw [if_pos (by rw [found]; rfl)]
      cases failure with
      | transient => exact hold_going ordinal resumeData message safe (rest (by simp) rfl)
      | terminal => exact abandon_going _ _ (rest (by simp) rfl).nearly
  | parking ordinal message => exact park_going ordinal message safe (rest (by simp) rfl)
  | parked =>
      simp only [Manager.advance]
      split_ifs
      · exact resume_going (rest (by simp) rfl)
      · exact ended_going (rest (by simp) rfl)
  | listing captured => exact list_going outcome captured (rest (by simp) rfl)
  | restarting files start => exact restart_going outcome files start (rest (by simp) rfl)

theorem write_going (index : Nat) (record : DownloadRecord) (stage : Stage)
    (here : m.tasks[index]? = some ⟨some record, stage⟩) (going : Going previous plan m) :
    Going previous plan
      { m with stored := some record, tasks := m.tasks.set index ⟨none, stage⟩ } := by
  have listed := List.mem_of_getElem? here
  have split : ∀ task ∈ m.tasks.set index ⟨none, stage⟩, task ∈ m.tasks ∨ task = ⟨none, stage⟩ :=
    fun task member => List.mem_or_eq_of_mem_set member
  have stays : ∀ task ∈ m.tasks, ∃ other ∈ m.tasks.set index ⟨none, stage⟩,
      other.stage = task.stage := by
    intro task member
    obtain ⟨place, found⟩ := List.mem_iff_getElem?.mp member
    have inside := (List.getElem?_eq_some_iff.mp here).1
    by_cases same : place = index
    · subst same
      obtain rfl := Option.some.inj (found.symm.trans here)
      exact ⟨⟨none, stage⟩, List.mem_set inside _, rfl⟩
    · refine ⟨task, List.mem_iff_getElem?.mpr ⟨place, ?_⟩, rfl⟩
      rw [List.getElem?_set_ne (Ne.symm same), found]
  have sound := going.sound
  refine ⟨?_, ?_⟩
  · exact {
      store := by
        intro stored member complete
        obtain rfl := Option.some.inj member
        exact sound.writes _ listed _ rfl complete
      writes := by
        intro task member write waits complete
        rcases split task member with before | rfl
        · exact sound.writes task before write waits complete
        · cases waits
      staged := sound.staged
      named := by
        intro task member part staging
        rcases split task member with before | rfl
        · exact sound.named task before part staging
        · exact sound.named _ listed part staging
      started := by
        intro task member
        rcases split task member with before | rfl
        · exact sound.started task before
        · exact (sound.started _ listed : stage.absent = false) }
  · obtain ⟨found, known, ⟨standing, given, waited⟩ | resting⟩ := going.memory
    · refine ⟨found, known, Or.inl ⟨?_, ?_, ?_⟩⟩
      · exact {
          replacing := standing.replacing
          running := standing.running
          shape := standing.shape
          old := standing.old
          arrived := standing.arrived
          guarded := standing.guarded
          unwritten := by
            intro task member write waits
            rcases split task member with before | rfl
            · exact standing.unwritten task before write waits
            · cases waits
          stored := by
            intro _ stored member
            obtain rfl := Option.some.inj member
            exact standing.unwritten _ listed _ rfl }
      · intro abandoned
        obtain ⟨task, member, gives⟩ := given abandoned
        obtain ⟨other, within, same⟩ := stays task member
        exact ⟨other, within, by rw [same]; exact gives⟩
      · intro done
        obtain ⟨task, member, attends⟩ := waited done
        obtain ⟨other, within, same⟩ := stays task member
        exact ⟨other, within, by rw [same]; exact attends⟩
    · exact ⟨found, known, Or.inr ⟨resting.replacing, resting.complete, resting.intact⟩⟩

theorem hydrate_going (survivors : List Transfer) (stored : DownloadRecord)
    (here : m.stored = some stored) (complete : stored.state = .complete)
    (going : Going previous plan m) : Going previous plan (hydrate survivors false m) := by
  have settled : ¬((stored.state = .running ∨ stored.state = .queued) ∧ survivors = []) := by
    simp [complete]
  have intact := going.sound.store stored here complete
  rw [hydrate]
  simp only [here]
  rw [if_neg settled, if_neg (by simp)]
  refine ⟨?_, stored, rfl, Or.inr ⟨rfl, complete, intact⟩⟩
  exact {
    store := by
      intro other member _
      obtain rfl : stored = other := Option.some.inj member
      exact intact
    writes := fun _ none => by cases none
    staged := by
      intro ordinal bytes present
      simp only at present
      split_ifs at present
      · exact going.sound.staged ordinal bytes present
      · cases present
    named := fun _ none => by cases none
    started := fun _ none => by cases none }

theorem land_going (index : Nat) (transfer : Transfer) (status : Nat) (moved : Bool)
    (going : Going previous plan m) :
    Going previous plan (Manager.spawn ({ m with
      live := m.live.eraseIdx index
      disk := { m.disk with
        staged := Function.update m.disk.staged transfer.ordinal
          (if moved then some (.fetched transfer) else none) } },
      some ⟨none, .landed transfer.ordinal status moved⟩)) := by
  refine going_idle (m := m) ⟨rfl, rfl, rfl, rfl, rfl, rfl, ?_, id⟩ rfl ?_ going
  · intro other bytes present
    by_cases same : other = transfer.ordinal
    · subst same
      cases moved <;> simp at present
      exact Or.inr ⟨transfer, present.symm, rfl⟩
    · exact Or.inl (by simpa [same] using present)
  · exact idle_call rfl (by simp) fun _ none => by cases none

theorem Early.without (early : Early previous plan m) (index : Nat) :
    Early previous plan { m with tasks := m.tasks.eraseIdx index } :=
  have fewer := List.eraseIdx_sublist m.tasks index
  { early with
    tasks := fun task member => early.tasks task (fewer.subset member)
    once := fewer.countP_le.trans early.once }

theorem Early.spawned (early : Early previous plan m) (isResuming : Bool) (last : Option Task)
    (waits : ∀ task ∈ last, task.write = none ∧ (task.stage = .calling (some previous) plan [] ∨
      ∃ captured, task.stage = .listing captured))
    (once : (m.tasks ++ last.toList).countP (·.stage.absent) ≤ 1) :
    Early previous plan (Manager.spawn ({ m with isResuming }, last)) :=
  { early with
    tasks := by
      intro task member
      rcases List.mem_append.mp member with before | added
      · exact early.tasks task before
      · obtain ⟨clear, waiting⟩ := waits task (Option.mem_toList.mp added)
        exact ⟨clear, .inr waiting⟩
    once := once }

theorem Early.only (early : Early previous plan m) {index : Nat} {task : Task}
    (here : m.tasks[index]? = some task) (absent : task.stage.absent = true) :
    (m.tasks.eraseIdx index).countP (·.stage.absent) = 0 := by
  obtain ⟨inside, same⟩ := List.getElem?_eq_some_iff.mp here
  have counted := (List.getElem_cons_eraseIdx_perm inside).countP_eq (·.stage.absent)
  rw [same, List.countP_cons, if_pos absent] at counted
  have once := early.once
  omega

theorem early_run (complete : previous.state = .complete) (index : Nat) (outcome : Outcome)
    (next : Manager) (early : Early previous plan m)
    (stepped : m.step (.run index outcome) = some next) : Kept previous plan next := by
  obtain ⟨task, here, moved⟩ := Option.bind_eq_some_iff.mp stepped
  obtain ⟨written, stage⟩ := early.tasks task (List.mem_of_getElem? here)
  obtain ⟨write, at'⟩ := task
  obtain rfl : write = none := written
  obtain rfl := Option.some.inj moved
  have without := early.without index
  -- What a pass or an attempt that was never planned leaves.
  have quiet (isResuming : Bool) : Early previous plan (Manager.spawn
      ({ m with tasks := m.tasks.eraseIdx index, isResuming }, none)) :=
    without.spawned isResuming none nofun (by simpa using without.once)
  rcases stage with planning | calling | ⟨captured, listing⟩
  · obtain rfl : at' = .planning (some previous) plan := planning
    simp only [Manager.advance]
    split_ifs
    · left
      apply without.spawned m.isResuming
      · intro task member
        obtain rfl := Option.mem_some.mp member
        rw [early.live]
        exact ⟨rfl, .inl rfl⟩
      · rw [List.countP_append, early.only here rfl, Nat.zero_add]
        exact List.countP_le_length
    · exact Or.inl (quiet m.isResuming)
  · obtain rfl : at' = .calling (some previous) plan [] := calling
    right
    apply @register_going _ _ { m with tasks := m.tasks.eraseIdx index } outcome.finished
      early.installing
      early.old early.staged early.stored
    intro other listed
    have absent := List.countP_eq_zero.mp (early.only here rfl) other listed
    obtain ⟨clear, planning | calling | listing⟩ := without.tasks other listed
    · rw [planning] at absent
      exact absurd rfl absent
    · rw [calling] at absent
      exact absurd rfl absent
    · exact ⟨clear, listing⟩
  · obtain rfl : at' = .listing captured := listing
    have idle : ¬previous.state = .running := by simp [complete]
    simp only [Manager.advance, early.record, if_neg idle]
    exact Or.inl (by simpa only [early.record] using quiet false)

/-- Before the registration only the call of `redownload` and passes that find nothing go on. -/
theorem early_step (complete : previous.state = .complete) (act : Act) (next : Manager)
    (early : Early previous plan m) (safe : act.Safe m) (stepped : m.step act = some next) :
    Kept previous plan next := by
  cases act with
  | land index status moved =>
      rw [Manager.step, early.live] at stepped
      cases stepped
  | drop index failure resumeData message =>
      rw [Manager.step, early.live] at stepped
      cases stepped
  | reconnect =>
      obtain rfl := Option.some.inj stepped
      rw [Manager.resumeInterrupted]
      split_ifs
      · left
        have same : Manager.spawn (m, none) = m := by simp [Manager.spawn]
        rwa [same]
      · left
        apply early.spawned true
        · intro task member
          obtain rfl := Option.mem_some.mp member
          exact ⟨rfl, .inr ⟨_, rfl⟩⟩
        · rw [List.countP_append]
          exact early.once
  | run index outcome => exact early_run complete index outcome next early stepped
  | kill survivors onlyPart =>
      obtain ⟨rfl, _⟩ := safe
      rw [Manager.step] at stepped
      split_ifs at stepped with fewer
      obtain rfl := Option.some.inj stepped
      rw [early.live] at fewer
      obtain rfl : survivors = [] := by
        cases survivors with
        | nil => rfl
        | cons _ _ => cases fewer
      left
      rw [hydrate]
      simp only [early.stored]
      rw [if_neg (by simp [complete]), if_neg (by simp)]
      exact {
        record := rfl
        stored := rfl
        replacing := rfl
        live := rfl
        old := early.old
        staged := fun _ => rfl
        installing := rfl
        tasks := fun _ none => by cases none
        once := Nat.zero_le _ }
  | start _ => exact safe.elim
  | redownload _ => exact safe.elim
  | cancel => exact safe.elim
  | remove => exact safe.elim

theorem going_step (complete : previous.state = .complete) (act : Act) (next : Manager)
    (going : Going previous plan m) (safe : act.Safe m) (stepped : m.step act = some next) :
    Going previous plan next := by
  cases act with
  | land index status moved =>
      obtain ⟨transfer, _, landed⟩ := Option.bind_eq_some_iff.mp stepped
      obtain rfl := Option.some.inj landed
      exact land_going index transfer status moved going
  | drop index failure resumeData message =>
      obtain ⟨ordinal, _, dropped⟩ := Option.bind_eq_some_iff.mp stepped
      obtain rfl := Option.some.inj dropped
      exact going_idle
        (unmoved_transfers (m.live.eraseIdx index) m.made m.disk.resume m.isResuming) rfl
        (idle_call rfl (by simp) fun _ none => by cases none) going
  | reconnect =>
      obtain rfl := Option.some.inj stepped
      exact resume_going going
  | run index outcome =>
      obtain ⟨task, here, moved⟩ := Option.bind_eq_some_iff.mp stepped
      obtain ⟨write, stage⟩ := task
      cases write with
      | some record =>
          obtain rfl := Option.some.inj moved
          exact write_going index record stage here going
      | none =>
          obtain rfl := Option.some.inj moved
          exact advance_going complete index ⟨none, stage⟩ outcome here rfl
            (safe ⟨none, stage⟩ here rfl) going
  | kill survivors onlyPart =>
      obtain ⟨rfl, stored, here, whole⟩ := safe
      rw [Manager.step] at stepped
      split_ifs at stepped
      obtain rfl := Option.some.inj stepped
      exact hydrate_going survivors stored here whole going
  | start _ => exact safe.elim
  | redownload _ => exact safe.elim
  | cancel => exact safe.elim
  | remove => exact safe.elim

end Steps

def Stage.finishes : Stage → Bool
  | .landed _ _ _ => true
  | .checked _ _ _ _ => true
  | .cleared _ _ => true
  | .marking => true
  | .giving _ _ _ => true
  | _ => false

/-- No transfer is live, no part of a running record waits to be resumed, and nothing is being
finished or installed. -/
structure Manager.Settled (m : Manager) : Prop where
  live : m.live = []
  parked : ∀ record ∈ m.record, record.state = .running → record.allDone = true
  finished : ∀ task ∈ m.tasks, task.stage.finishes = false

/-- The record is complete and its local files are all the previous ones, unchanged, or all the
new ones. -/
structure Manager.HoldsOne (previous : DownloadRecord) (plan : Plan) (m : Manager) : Prop where
  complete : ∃ record, m.record = some record ∧ record.state = .complete
  files : (m.localFiles = inOrder previous.files ∧ Old previous m.disk) ∨
    (m.localFiles = inOrder plan.files ∧ New plan m.disk)

section Reader

variable {previous : DownloadRecord} {plan : Plan} {m : Manager}

theorem in_order_skeleton (files others : List DownloadFile)
    (same : skeleton files = skeleton others) : inOrder files = inOrder others := by
  rw [inOrder, inOrder]
  exact congrArg (fun pairs : List (Int × Text) =>
    (pairs.mergeSort fun first second => first.1 ≤ second.1).map Prod.snd) same

theorem mem_in_order (files : List DownloadFile) (name : Text) (member : name ∈ inOrder files) :
    ∃ file ∈ files, file.name = name := by
  obtain ⟨pair, listed, rfl⟩ := List.mem_map.mp member
  rw [List.mem_mergeSort] at listed
  obtain ⟨file, inside, rfl⟩ := List.mem_map.mp listed
  exact ⟨file, inside, rfl⟩

theorem local_files_eq (record : DownloadRecord) (files : List DownloadFile)
    (here : m.record = some record) (complete : record.state = .complete)
    (shape : skeleton record.files = skeleton files) (nonempty : files ≠ [])
    (present : ∀ file ∈ files, m.disk.held file.name ≠ none) :
    m.localFiles = inOrder files := by
  have some' : record.files ≠ [] := by
    intro empty
    rw [empty] at shape
    exact nonempty (List.map_eq_nil_iff.mp shape.symm)
  have all : (inOrder files).all (fun name => (m.disk.held name).isSome) = true := by
    rw [List.all_eq_true]
    intro name member
    obtain ⟨file, inside, rfl⟩ := mem_in_order files name member
    exact Option.isSome_iff_ne_none.mpr (present file inside)
  rw [Manager.localFiles, here]
  simp only
  rw [if_neg (by simp [complete, some']), in_order_skeleton _ _ shape, if_pos all]

theorem holds_one_of_intact (nonempty : previous.files ≠ []) (record : DownloadRecord)
    (here : m.record = some record) (complete : record.state = .complete)
    (intact : Intact previous plan record m.disk) : m.HoldsOne previous plan := by
  refine ⟨⟨record, here, complete⟩, ?_⟩
  rcases intact with ⟨shape, old⟩ | ⟨shape, new⟩
  · left
    refine ⟨local_files_eq record _ here complete shape nonempty ?_, old⟩
    intro file member
    rw [old file member]
    exact Option.some_ne_none _
  · right
    refine ⟨local_files_eq record _ here complete shape plan.nonempty ?_, new⟩
    intro file member
    obtain ⟨bytes, here, _⟩ := new file member
    rw [here]
    exact Option.some_ne_none _

theorem holds_one_of_kept (complete : previous.state = .complete) (nonempty : previous.files ≠ [])
    (kept : Kept previous plan m) (settled : m.Settled) : m.HoldsOne previous plan := by
  rcases kept with early | going
  · exact holds_one_of_intact nonempty previous early.record complete (Or.inl ⟨rfl, early.old⟩)
  · obtain ⟨record, here, ⟨standing, _, waited⟩ | resting⟩ := going.memory
    · obtain ⟨task, member, attends⟩ := waited (settled.parked record here standing.running)
      have busy : task.stage.finishes = true := by
        rcases attends with marking | gives
        · rw [marking]
          rfl
        · revert gives
          cases task.stage <;> simp [Stage.givesUp, Stage.finishes]
      rw [settled.finished task member] at busy
      cases busy
    · exact holds_one_of_intact nonempty record here resting.complete resting.intact

end Reader

/-- In every run from a call of `redownload` whose steps are all safe, a settled device holds the
book: all of the previous copy or all of the new one. -/
theorem redownload_keeps_book (previous : DownloadRecord) (plan : Plan) (disk : Disk)
    (complete : previous.state = .complete) (nonempty : previous.files ≠ [])
    (old : Old previous disk) (acts : List Act) (last : Manager)
    (ran : run Manager.step (Manager.called plan previous disk) acts = some last)
    (safe : Meets Manager.step (fun m act => act.Safe m) (Manager.called plan previous disk) acts)
    (settled : last.Settled) : last.HoldsOne previous plan := by
  have start : Early previous plan (Manager.called plan previous disk) := {
    record := rfl
    stored := rfl
    replacing := rfl
    live := rfl
    old := old
    staged := fun _ => rfl
    installing := rfl
    tasks := fun task member => by
      rw [List.mem_singleton.mp member]
      exact ⟨rfl, Or.inl rfl⟩
    once := Nat.le_refl 1 }
  have keeps : ∀ m act next, Kept previous plan m → act.Safe m → m.step act = some next →
      Kept previous plan next := by
    intro m act next kept condition stepped
    rcases kept with early | going
    · exact early_step complete act next early condition stepped
    · exact Or.inr (going_step complete act next going condition stepped)
  exact holds_one_of_kept complete nonempty
    (run_keeps Manager.step keeps acts (Or.inl start) safe ran) settled

def heldBook : DownloadRecord :=
  ⟨"epub".toList, .complete, [⟨0, "b.epub".toList, true⟩], none, none⟩

def newBook : Plan where
  format := "epub".toList
  files := [⟨0, "b.epub".toList, false⟩]
  nonempty := List.cons_ne_nil _ _
  names := List.nodup_singleton _
  ordinals := List.nodup_singleton _
  fresh := List.forall_mem_singleton.mpr rfl

def shelf : Disk where
  held := fun name => if name = "b.epub".toList then some (.kept name) else none
  incoming := fun _ => none
  superseded := fun _ => none
  resume := fun _ => false
  staged := fun _ => none

/-- The next segment of the only suspended call, with nothing in its way. -/
def onward : Act := .run 0 {}

/-- The replacement is registered and stored, its transfer lands and it is installed. -/
def replaced : List Act :=
  [onward, onward, onward, onward, .land 0 200 true, onward, onward, onward, onward, onward]

theorem redownload_keeps_book_replaced :
    ∃ last, run Manager.step (Manager.called newBook heldBook shelf) replaced = some last ∧
      last.HoldsOne heldBook newBook := by
  refine ⟨_, rfl, ?_⟩
  apply redownload_keeps_book heldBook newBook shelf rfl (by simp [heldBook]) _ replaced _ rfl
  · decide +kernel
  · refine ⟨rfl, ?_, fun _ none => by cases none⟩
    intro record here running
    obtain rfl := Option.some.inj here
    cases running
  · intro file member
    obtain rfl := List.mem_singleton.mp member
    rfl

/-- The process dies while the replacement is under way: the record fails and the book is gone,
though its file is held. -/
theorem replacement_lost :
    ∃ last, run Manager.step (Manager.called newBook heldBook shelf)
        [onward, onward, onward, .kill [] false] = some last ∧
      last.Settled ∧ last.disk.held "b.epub".toList = some (.kept "b.epub".toList) ∧
      last.localFiles = [] ∧ ¬last.HoldsOne heldBook newBook := by
  refine ⟨_, rfl, ⟨rfl, ?_, fun _ none => by cases none⟩, rfl, rfl, ?_⟩
  · intro record here running
    obtain rfl := Option.some.inj here
    cases running
  · intro holds
    obtain ⟨record, here, complete⟩ := holds.complete
    obtain rfl := Option.some.inj here
    cases complete

end Omnibus.Downloads
