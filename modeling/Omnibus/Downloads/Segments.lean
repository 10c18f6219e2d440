import Omnibus.Downloads.Owned

/-!
# The segments between two registrations

Each leaves a completion of the latest start its own part, stages and installs only what that
start's transfers brought, and takes no other record back from complete.
-/

namespace Omnibus.Downloads

open Omnibus.Library.Strings

section Segments

variable {shape : List (Int × Text)} {m : Manager}

/-- Nothing a record or a registration looks at differs. -/
structure Untouched (m other : Manager) : Prop where
  minted : other.minted = m.minted
  tasks : other.tasks = m.tasks
  stored : other.stored = m.stored
  abandoned : other.abandoned = m.abandoned
  record : other.record = m.record
  replacing : ∀ record ∈ other.replacing, record ∈ m.replacing

theorem untouched_self (disk : Disk) : Untouched m { m with disk } :=
  ⟨rfl, rfl, rfl, rfl, rfl, fun _ member => member⟩

theorem quiet_untouched {other : Manager} (untouched : Untouched m other) :
    other.Quiet = m.Quiet := by
  rw [Manager.Quiet, Manager.Quiet, untouched.abandoned, untouched.tasks]

/-- A call that waits for no write, asks for nothing and gives nothing up. -/
structure Calm (shape : List (Int × Text)) (m : Manager) (disk : Disk) (task : Task) : Prop where
  write : task.write = none
  stage : task.stage.Fits shape m.minted disk m.Quiet
  asks : task.stage.asks = false
  gives : task.stage.givesUp = false

theorem segment_same {other : Manager} {next : Option Task} (record : other.record = m.record)
    (minted : other.minted = m.minted) (tasks : other.tasks = m.tasks)
    (stored : ∀ record ∈ other.stored, record ∈ m.stored)
    (abandoned : m.abandoned = true → other.abandoned = true)
    (nearby : Nearby shape m.minted m.disk other.disk)
    (live : ∀ transfer ∈ other.live, transfer ∈ m.live ∨ transfer.start = some m.minted)
    (replacing : ∀ record ∈ other.replacing, record ∈ m.replacing)
    (calls : ∀ task ∈ next, task.Fits shape m.minted other.disk m.Quiet ∧
      (task.stage.asks = true → m.record = none ∨ other.stored = none) ∧
      (task.stage.givesUp = true → m.abandoned = false ∧ other.abandoned = true)) :
    Segment shape m (other, next) where
  minted := minted
  tasks := tasks
  stored := stored
  abandoned := abandoned
  nearby := nearby
  live := live
  memory := fun found member => Or.inl (record ▸ member)
  present := fun present => by
    show other.record ≠ none
    rwa [record]
  replacing := replacing
  next := calls
  turns := by
    intro before here incomplete last same complete
    rw [record, here] at same
    obtain rfl := Option.some.inj same
    exact absurd complete incomplete

theorem segment_calm {other : Manager} {next : Option Task} (untouched : Untouched m other)
    (nearby : Nearby shape m.minted m.disk other.disk)
    (live : ∀ transfer ∈ other.live, transfer ∈ m.live ∨ transfer.start = some m.minted)
    (calm : ∀ task ∈ next, Calm shape m other.disk task) : Segment shape m (other, next) := by
  apply segment_same untouched.record untouched.minted untouched.tasks
    (fun record member => untouched.stored ▸ member) (fun flag => untouched.abandoned.trans flag)
    nearby live untouched.replacing
  intro task last
  have idle := calm task last
  refine ⟨⟨fun record waits => ?_, idle.stage⟩, fun asks => ?_, fun gives => ?_⟩
  · rw [idle.write] at waits
    cases waits
  · rw [idle.asks] at asks
    cases asks
  · rw [idle.gives] at gives
    cases gives

theorem calm_call {disk : Disk} {stage : Stage} (fits : stage.Fits shape m.minted disk m.Quiet)
    (asks : stage.asks = false) (gives : stage.givesUp = false) :
    ∀ task ∈ some (⟨none, stage⟩ : Task), Calm shape m disk task := by
  intro task last
  obtain rfl := Option.some.inj last
  exact ⟨rfl, fits, asks, gives⟩

theorem segment_after {other : Manager} {result : Manager × Option Task}
    (untouched : Untouched m other) (nearby : Nearby shape m.minted m.disk other.disk)
    (live : ∀ transfer ∈ other.live, transfer ∈ m.live)
    (segment : Segment shape other result) : Segment shape m result where
  minted := segment.minted.trans untouched.minted
  tasks := segment.tasks.trans untouched.tasks
  stored := fun record member => untouched.stored ▸ segment.stored record member
  abandoned := fun flag => segment.abandoned (untouched.abandoned.trans flag)
  nearby := by
    have later := segment.nearby
    rw [untouched.minted] at later
    refine ⟨fun part member bytes present => ?_, fun ordinal bytes present => ?_⟩
    · exact (later.incoming part member bytes present).elim
        (nearby.incoming part member bytes) Or.inr
    · exact (later.staged ordinal bytes present).elim (nearby.staged ordinal bytes) Or.inr
  live := by
    intro transfer member
    rw [← untouched.minted]
    exact (segment.live transfer member).imp (live transfer) id
  memory := by
    intro record member
    have later := segment.memory record member
    rwa [untouched.record, untouched.minted, quiet_untouched untouched] at later
  present := fun present => segment.present (by rwa [untouched.record])
  replacing := fun record member => untouched.replacing record (segment.replacing record member)
  next := by
    intro task last
    have later := segment.next task last
    rwa [untouched.record, untouched.minted, untouched.abandoned, quiet_untouched untouched]
      at later
  turns := by
    have later := segment.turns
    rwa [untouched.record, untouched.minted] at later

theorem segment_ended : Segment shape m (m, none) :=
  segment_calm (untouched_self m.disk) nearby_self (fun _ member => Or.inl member)
    (fun _ none => by cases none)

theorem segment_asked (gone : m.record = none) (call : Stage)
    (fits : call.Fits shape m.minted m.disk m.Quiet) :
    Segment shape m (m, some ⟨none, .reading call⟩) := by
  refine segment_same rfl rfl rfl (fun _ member => member) id nearby_self
    (fun _ member => Or.inl member) (fun _ member => member) ?_
  intro task last
  obtain rfl := Option.some.inj last
  exact ⟨⟨fun _ none => (by cases none), fits⟩, fun _ => Or.inl gone,
    fun gives => (by cases gives)⟩

theorem segment_released (inInstall : Bool) : Segment shape m (m.released inInstall, none) := by
  rw [Manager.released]
  split_ifs
  · exact segment_calm ⟨rfl, rfl, rfl, rfl, rfl, fun _ member => member⟩ nearby_self
      (fun _ member => Or.inl member) (fun _ none => by cases none)
  · exact segment_ended

theorem segment_abandon (message : Text) (inInstall : Bool) :
    Segment shape m (m.abandon message inInstall) := by
  rw [Manager.abandon]
  split_ifs with abandoned
  · exact segment_released inInstall
  · refine segment_same rfl rfl rfl (fun _ member => member) (fun _ => rfl) nearby_self
      (fun _ member => Or.inl member) (fun _ member => member) ?_
    intro task last
    obtain rfl := Option.some.inj last
    refine ⟨⟨fun _ none => (by cases none), trivial⟩, fun asks => (by cases asks), fun _ => ?_⟩
    exact ⟨by simpa using abandoned, rfl⟩

theorem segment_update (change : DownloadRecord → DownloadRecord) (next : Stage)
    (stands : ∀ record ∈ m.record, Stands shape m.minted m.disk m.Quiet (change record))
    (turns : ∀ record ∈ m.record, record.state ≠ .complete → (change record).state = .complete →
      (change record).Installed m.disk)
    (fits : next.Fits shape m.minted m.disk m.Quiet) (asks : next.asks = false)
    (gives : next.givesUp = false) : Segment shape m (m.update change next) := by
  rw [Manager.update]
  cases here : m.record with
  | none =>
      exact segment_calm (untouched_self m.disk) nearby_self (fun _ member => Or.inl member)
        (calm_call fits asks gives)
  | some record =>
      have changed := stands record here
      exact {
        minted := rfl
        tasks := rfl
        stored := fun _ member => member
        abandoned := id
        nearby := nearby_self
        live := fun _ member => Or.inl member
        memory := by
          intro other same
          obtain rfl := Option.some.inj same
          exact Or.inr changed
        present := fun _ none => by cases none
        replacing := fun _ member => member
        next := by
          intro task last
          obtain rfl := Option.some.inj last
          refine ⟨⟨?_, fits⟩, fun again => ?_, fun again => ?_⟩
          · intro other same
            obtain rfl := Option.some.inj same
            exact changed
          · rw [asks] at again
            cases again
          · rw [gives] at again
            cases again
        turns := by
          intro before same incomplete other last complete
          obtain rfl := Option.some.inj (here.symm.trans same)
          obtain rfl := Option.some.inj last
          exact Or.inl (turns record here incomplete complete) }

theorem stands_change {start : Nat} {disk : Disk} {quiet : Prop} {record changed : DownloadRecord}
    (stands : Stands shape start disk quiet record) (files : changed.files = record.files)
    (own : changed.start = record.start)
    (state : record.state = .complete → changed.state = .complete) :
    Stands shape start disk quiet changed := by
  rcases stands with ours | ⟨complete, rests, dated⟩
  · left
    rwa [Ours, DownloadRecord.Bare, files, own]
  · refine Or.inr ⟨state complete, rests, ?_⟩
    rwa [DownloadRecord.Dated, DownloadRecord.Bare, files, own]

theorem ours_of_incomplete {start : Nat} {disk : Disk} {quiet : Prop} {record : DownloadRecord}
    (stands : Stands shape start disk quiet record) (incomplete : record.state ≠ .complete) :
    Ours shape start disk record :=
  stands.resolve_right fun rests => incomplete rests.1

theorem discard_disk (ordinal : Int) (staged : Bool) :
    Untouched m (m.discardStaged ordinal staged) ∧
      Nearby shape m.minted m.disk (m.discardStaged ordinal staged).disk ∧
      (m.discardStaged ordinal staged).live = m.live := by
  rw [Manager.discardStaged]
  split_ifs
  · refine ⟨untouched_self _, ⟨fun _ _ _ present => Or.inl present, ?_⟩, rfl⟩
    intro other bytes present
    by_cases same : other = ordinal
    · simp [same] at present
    · exact Or.inl (by simpa [same] using present)
  · exact ⟨untouched_self m.disk, nearby_self, rfl⟩

theorem segment_discarded (ordinal : Int) (staged : Bool) {result : Manager × Option Task}
    (segment : Segment shape (m.discardStaged ordinal staged) result) : Segment shape m result := by
  obtain ⟨untouched, nearby, live⟩ := @discard_disk shape m ordinal staged
  exact segment_after untouched nearby (fun _ member => live ▸ member) segment

variable (owned : Owned shape m)

include owned

theorem segment_park (ordinal : Int) (message : Text) (parkable : m.Parkable) :
    Segment shape m (m.park ordinal message) := by
  rw [Manager.park]
  apply segment_update
  case stands =>
    intro record here
    exact stands_change (owned.memory record here) rfl rfl
      fun complete => absurd complete (parkable record here)
  case turns =>
    intro _ _ _ complete
    cases complete
  case fits => trivial
  case asks => rfl
  case gives => rfl

theorem segment_hold (ordinal : Int) (resumeData : Bool) (message : Text)
    (parkable : resumeData = false → m.record.bind (·.file ordinal) ≠ none → m.Parkable) :
    Segment shape m (m.holdForResume ordinal resumeData message) := by
  rw [Manager.holdForResume]
  cases found : m.record.bind (·.file ordinal) with
  | none => exact segment_ended
  | some file =>
      cases resumeData with
      | true =>
          exact segment_calm (untouched_self _) (nearby_of_less (fun _ _ present => present)
            fun _ _ present => present) (fun _ member => Or.inl member) (calm_call trivial rfl rfl)
      | false => exact segment_park owned ordinal message (parkable rfl (by rw [found]; simp))

theorem part_of_name {left right : Int × Text} (leftPart : left ∈ shape) (rightPart : right ∈ shape)
    (same : left.2 = right.2) : left = right :=
  List.inj_on_of_nodup_map owned.names leftPart rightPart same

theorem part_of_ordinal {left right : Int × Text} (leftPart : left ∈ shape)
    (rightPart : right ∈ shape) (same : left.1 = right.1) : left = right :=
  List.inj_on_of_nodup_map owned.ordinals leftPart rightPart same

theorem stands_marked (ordinal : Int) (name : Text) (part : (ordinal, name) ∈ shape) (disk : Disk)
    (brought : ∀ bytes, disk.incoming name = some bytes → bytes.Own m.minted ordinal)
    {record : DownloadRecord} (stands : Stands shape m.minted disk m.Quiet record) :
    Stands shape m.minted disk m.Quiet (record.marked ordinal) := by
  rcases stands with (⟨empty, own⟩ | ⟨own, same, arrived⟩) | ⟨complete, rests, dated⟩
  · exact Or.inl (Or.inl ⟨by simp [DownloadRecord.marked, empty], own⟩)
  · refine Or.inl (Or.inr ⟨own, (skeleton_marked ordinal record).trans same, ?_⟩)
    intro file member done bytes present
    rcases done_of_marked ordinal record file member done with here | before
    · have listed : (file.ordinal, file.name) ∈ shape := by
        rw [← same, ← skeleton_marked ordinal record]
        exact List.mem_map_of_mem member
      have pair := part_of_ordinal owned listed part here
      rw [here]
      exact brought bytes (by rw [← (Prod.mk.inj pair).2]; exact present)
    · exact arrived file before done bytes present
  · refine Or.inr ⟨complete, rests, dated.imp ?_ id⟩
    exact fun bare => ⟨by simp [DownloadRecord.marked, bare.1], bare.2⟩

theorem segment_stage_in (faults : Faults) (ordinal : Int) (name : Text)
    (part : (ordinal, name) ∈ shape) (own : StagedOwn m.minted m.disk ordinal) :
    Segment shape m (m.stageIn faults ordinal name) := by
  let incoming := removeFile (faults .sweep name) m.disk.incoming name
  have less : ∀ other bytes, incoming other = some bytes → m.disk.incoming other = some bytes :=
    fun other bytes => remove_file_less _ _ _ _ bytes
  have cleared : Nearby shape m.minted m.disk { m.disk with incoming } :=
    nearby_of_less less fun _ _ present => present
  have thrown : Untouched m { m with disk := { m.disk with incoming } } := untouched_self _
  rw [Manager.stageIn]
  cases staged : m.disk.staged ordinal with
  | none => exact segment_after thrown cleared (fun _ member => member) (segment_abandon _ _)
  | some bytes =>
      simp only
      split_ifs with fault
      · exact segment_after thrown cleared (fun _ member => member)
          (segment_discarded ordinal true (segment_abandon _ _))
      · let disk : Disk := { m.disk with
          incoming := Function.update incoming name (some bytes)
          staged := Function.update m.disk.staged ordinal none }
        have brought := own bytes staged
        have nearby : Nearby shape m.minted m.disk disk := by
          constructor
          · intro other member found present
            by_cases same : other.2 = name
            · have pair := part_of_name owned member part same
              have here : some bytes = some found := by simpa [disk, same] using present
              rw [← Option.some.inj here, pair]
              exact Or.inr brought
            · exact Or.inl (less other.2 found (by simpa [disk, same] using present))
          · intro other found present
            by_cases same : other = ordinal
            · simp [disk, same] at present
            · exact Or.inl (by simpa [disk, same] using present)
        have moved : Untouched m { m with disk } := untouched_self disk
        apply segment_after moved nearby fun _ member => member
        apply segment_update
        case stands =>
          intro record here
          apply stands_marked owned ordinal name part disk
          · intro found present
            have same : some bytes = some found := by simpa [disk] using present
            rw [← Option.some.inj same]
            exact brought
          · exact stands_nearby nearby id (owned.memory record here)
        case turns =>
          intro record _ incomplete complete
          exact absurd complete incomplete
        case fits => trivial
        case asks => rfl
        case gives => rfl

theorem segment_clear_error (faults : Faults) (ordinal : Int) (name : Text) (errored : Bool)
    (part : (ordinal, name) ∈ shape) (own : StagedOwn m.minted m.disk ordinal) :
    Segment shape m (m.clearError faults ordinal name errored) := by
  rw [Manager.clearError]
  split_ifs
  · apply segment_update
    case stands =>
      intro record here
      exact stands_change (owned.memory record here) rfl rfl id
    case turns =>
      intro record _ incomplete complete
      exact absurd complete incomplete
    case fits => exact ⟨own, part⟩
    case asks => rfl
    case gives => rfl
  · exact segment_stage_in owned faults ordinal name part own

theorem segment_after_check (outcome : Outcome) (ordinal : Int) (name : Text) (errored : Bool)
    (before : Option Nat) (part : (ordinal, name) ∈ shape)
    (own : StagedOwn m.minted m.disk ordinal) :
    Segment shape m (m.afterCheck outcome ordinal name errored before) := by
  rw [Manager.afterCheck]
  split_ifs
  · exact segment_clear_error owned outcome.faults ordinal name errored part own
  · exact segment_discarded ordinal true (segment_abandon _ _)
  · exact segment_discarded ordinal true segment_ended

theorem segment_refused (ordinal : Int) (status : Nat) (staged : Bool) (parkable : m.Parkable) :
    Segment shape m (Manager.finishKnown.refused ordinal status staged m) := by
  obtain ⟨untouched, nearby, live⟩ := @discard_disk shape m ordinal staged
  have discarded : Owned shape (m.discardStaged ordinal staged) := by
    have ended := segment_owned (segment_after untouched nearby (fun _ member => live ▸ member)
      (@segment_ended shape _)) owned
    rwa [Manager.spawn, Option.toList_none, List.append_nil] at ended
  rw [Manager.finishKnown.refused]
  apply segment_discarded ordinal staged
  split_ifs
  · apply segment_hold discarded
    intro _ _ record here
    rw [untouched.record] at here
    exact parkable record here
  · exact segment_abandon _ _

theorem segment_finish_known (faults : Faults) (ordinal : Int) (status : Nat) (staged : Bool)
    (record : DownloadRecord) (here : m.record = some record)
    (own : StagedOwn m.minted m.disk ordinal) :
    Segment shape m (m.finishKnown faults ordinal status staged record) := by
  rw [Manager.finishKnown]
  by_cases complete : record.state = .complete
  · rw [if_pos complete]
    exact segment_discarded ordinal staged segment_ended
  · rw [if_neg complete]
    have parkable : m.Parkable := by
      intro other same
      obtain rfl := Option.some.inj (here.symm.trans same)
      exact complete
    cases found : record.file ordinal with
    | none => exact segment_refused owned ordinal status staged parkable
    | some file =>
        have part : (ordinal, file.name) ∈ shape := by
          have listed := List.mem_of_find?_eq_some found
          have same : file.ordinal = ordinal := by simpa using List.find?_some found
          rcases ours_of_incomplete (owned.memory record here) complete with ⟨empty, _⟩ | ⟨_, eq, _⟩
          · rw [empty] at listed
            cases listed
          · rw [← eq, ← same]
            exact List.mem_map_of_mem listed
        simp only
        split_ifs
        · exact segment_calm (untouched_self _) nearby_self (fun _ member => Or.inl member)
            (calm_call ⟨own, part⟩ rfl rfl)
        · exact segment_clear_error owned faults ordinal file.name _ part own
        · exact segment_refused owned ordinal status staged parkable

theorem segment_finish (faults : Faults) (ordinal : Int) (status : Nat) (staged : Bool)
    (own : StagedOwn m.minted m.disk ordinal) :
    Segment shape m (m.finish faults ordinal status staged) := by
  rw [Manager.finish]
  split_ifs
  · exact segment_discarded ordinal staged segment_ended
  · cases here : m.record with
    | some record => exact segment_finish_known owned faults ordinal status staged record here own
    | none =>
        exact segment_asked here (.landed ordinal status staged) own

theorem segment_fallen (ordinal : Int) (failure : DownloadFailure) (resumeData : Bool)
    (message : Text) (parkable : failure = .transient → resumeData = false →
      m.record.bind (·.file ordinal) ≠ none → m.Parkable) :
    Segment shape m (m.fallen ordinal failure resumeData message) := by
  cases failure with
  | transient => exact segment_hold owned ordinal resumeData message (parkable rfl)
  | terminal => exact segment_abandon _ _

theorem installed_of_swapped (faults : Faults) (record : DownloadRecord)
    (ours : Ours shape m.minted m.disk record) (done : record.allDone = true)
    (present : ∀ name ∈ record.files.map (·.name), m.disk.incoming name ≠ none)
    (success : (swapIntoPlace faults (record.files.map (·.name)) m.disk).1 ≠ none) (disk : Disk)
    (held : ∀ name ∈ record.files.map (·.name), disk.held name =
      (swapIntoPlace faults (record.files.map (·.name)) m.disk).2.held name) :
    record.Installed disk := by
  intro file member
  rcases ours with ⟨empty, _⟩ | ⟨own, same, arrived⟩
  · rw [empty] at member
    cases member
  · have named : file.name ∈ record.files.map (·.name) := List.mem_map_of_mem member
    have distinct : (record.files.map (·.name)).Nodup := by
      rw [← skeleton_names, same]
      exact owned.names
    obtain ⟨bytes, came⟩ := Option.ne_none_iff_exists'.mp (present file.name named)
    obtain ⟨transfer, rfl, ordinal, start⟩ :=
      arrived file member (List.all_eq_true.mp done file member) bytes came
    refine ⟨transfer, ?_, ordinal, start.trans own.symm⟩
    rw [held file.name named, swap_placed _ distinct m.disk success file.name named, came]

theorem segment_install (faults : Faults) (done : ∀ record ∈ m.record, record.allDone = true) :
    Segment shape m (m.install faults) := by
  rw [Manager.install]
  cases here : m.record with
  | none => exact segment_ended
  | some record =>
      simp only
      have flagged (disk : Disk) (replacing : Option DownloadRecord)
          (fewer : ∀ other ∈ replacing, other ∈ m.replacing) : Untouched m
            { m with record := some record, installing := true, disk, replacing } :=
        ⟨rfl, rfl, rfl, rfl, here.symm, fewer⟩
      have kept : ∀ other ∈ m.replacing, other ∈ m.replacing := fun _ member => member
      split_ifs with settled missing
      · exact segment_ended
      · exact segment_after (flagged m.disk m.replacing kept) nearby_self (fun _ member => member)
          (segment_abandon _ _)
      · have stands := owned.memory record here
        have ours := ours_of_incomplete stands fun complete => settled (Or.inr complete)
        have came : ∀ name ∈ record.files.map (·.name), m.disk.incoming name ≠ none := by
          intro name member none
          apply missing
          rw [List.any_eq_true]
          exact ⟨name, member, by rw [none]; rfl⟩
        have installed := installed_of_swapped owned faults record ours (done record here) came
        have distinct : (record.files.map (·.name)).Nodup := by
          rcases ours with ⟨empty, _⟩ | ⟨_, same, _⟩
          · rw [empty]
            exact List.nodup_nil
          · rw [← skeleton_names, same]
            exact owned.names
        have incoming := @swap_incoming faults _ distinct m.disk
        have staged := @swap_staged faults (record.files.map (·.name)) m.disk
        cases swapped : swapIntoPlace faults (record.files.map (·.name)) m.disk with
        | mk result disk =>
            rw [swapped] at incoming staged installed
            cases result with
            | none =>
                exact segment_after (flagged disk m.replacing kept)
                  (nearby_of_less incoming fun ordinal bytes present => staged ▸ present)
                  (fun _ member => member) (segment_abandon _ _)
            | some replaced =>
                let names := record.files.map (·.name)
                let final := Manager.sweepReplaced faults names replaced m.replacing disk
                have nearby : Nearby shape m.minted m.disk final := by
                  apply nearby_of_less
                  · intro name bytes present
                    exact incoming name bytes
                      (sweep_replaced_incoming faults names replaced m.replacing disk name bytes
                        present)
                  · intro ordinal bytes present
                    rw [← staged, ← sweep_replaced_staged faults names replaced m.replacing disk]
                    exact present
                refine segment_after (flagged final none fun _ none => by cases none) nearby
                  (fun _ member => member) ?_
                apply segment_update
                case stands =>
                  intro other same
                  obtain rfl := Option.some.inj same
                  exact stands_change (stands_nearby nearby id stands) rfl rfl fun _ => rfl
                case turns =>
                  intro other same _ _
                  obtain rfl := Option.some.inj same
                  exact installed (Option.some_ne_none _) final fun name member =>
                    sweep_replaced_held faults names replaced m.replacing disk name member
                case fits => trivial
                case asks => rfl
                case gives => rfl

end Segments

end Omnibus.Downloads
