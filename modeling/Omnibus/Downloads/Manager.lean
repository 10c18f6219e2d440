import Omnibus.Downloads.Install

/-!
# The download manager

`DownloadManager` for one book and kind. Everything between two awaits of the main actor is one
segment; a suspended call first sees the store write it awaits done and then runs its next segment.
Transfers go on outside and survive the process. A start is numbered, and its record and transfers
carry the number; the source has the token of the latest start alone.
-/

namespace Omnibus.Downloads

open Omnibus.Library.Strings

structure DownloadFile where
  ordinal : Int
  name : Text
  done : Bool := false
  deriving DecidableEq

inductive DownloadState where
  | queued
  | running
  | complete
  | failed
  deriving DecidableEq

structure DownloadRecord where
  format : Text
  state : DownloadState
  files : List DownloadFile
  error : Option Text
  start : Option Nat
  deriving DecidableEq

namespace DownloadRecord

def file (record : DownloadRecord) (ordinal : Int) : Option DownloadFile :=
  record.files.find? fun file => file.ordinal = ordinal

def allDone (record : DownloadRecord) : Bool := record.files.all (·.done)

def marked (ordinal : Int) (record : DownloadRecord) : DownloadRecord :=
  { record with
    files := record.files.map fun file =>
      if file.ordinal = ordinal then { file with done := true } else file }

def failedWith (message : Text) (record : DownloadRecord) : DownloadRecord :=
  { record with
    state := .failed
    error := some message
    files := record.files.map fun file => { file with done := false } }

/-- A CBZ carries checksums and a PDF a structure; only these are checked. -/
def verified (record : DownloadRecord) : Bool :=
  let format := record.format.map Char.toLower
  format = "cbz".toList || format = "pdf".toList

end DownloadRecord

inductive DownloadFailure where
  | transient
  | terminal
  deriving DecidableEq

/-- The status a part came back with, as a failure; none for a success. -/
def classify (status : Nat) : Option DownloadFailure :=
  if 200 ≤ status ∧ status < 300 then none
  else if status = 408 ∨ status = 429 ∨ (500 ≤ status ∧ status < 600) then some .transient
  else some .terminal

def describe (message : Text) (ordinal : Int) : Text :=
  if ordinal > 0 then
    "Part ".toList ++ decimal ordinal.toNat ++ ": ".toList ++ message
  else message

/-- What `plan` makes: at least one file, each under a name and an ordinal of its own. -/
structure Plan where
  format : Text
  files : List DownloadFile
  nonempty : files ≠ []
  names : (files.map (·.name)).Nodup
  ordinals : (files.map (·.ordinal)).Nodup
  fresh : ∀ file ∈ files, file.done = false

inductive Stage where
  | planning (previous : Option DownloadRecord) (plan : Plan)
  | calling (previous : Option DownloadRecord) (plan : Plan) (captured : List Transfer)
  | opening (files : List DownloadFile) (start : Option Nat)
  | landed (ordinal : Int) (status : Nat) (staged : Bool)
  | checked (ordinal : Int) (name : Text) (errored : Bool) (attempt : Option Nat)
  | cleared (ordinal : Int) (name : Text)
  | marking
  | giving (message : Text) (inInstall : Bool) (captured : List Transfer)
  | settled (inInstall : Bool)
  | stopped (ordinal : Int) (failure : DownloadFailure) (resumeData : Bool) (message : Text)
  /-- A completion or a failure that asks the store for the record, and has its answer. -/
  | reading (call : Stage)
  | read (stored : Option DownloadRecord) (call : Stage)
  | parking (ordinal : Int) (message : Text)
  | parked
  | listing (captured : List Transfer)
  | restarting (files : List DownloadFile) (start : Option Nat)
  | cancelling (captured : List Transfer)
  | removing
  | removed

structure Task where
  write : Option DownloadRecord
  stage : Stage

structure Manager where
  disk : Disk
  record : Option DownloadRecord
  stored : Option DownloadRecord
  /-- The completed record a re-download is standing in for. -/
  replacing : Option DownloadRecord
  abandoned : Bool
  attempt : Option Nat
  minted : Nat
  installing : Bool
  isResuming : Bool
  live : List Transfer
  /-- How many transfers were ever made. -/
  made : Nat
  tasks : List Task

/-- What a segment meets outside: the plan it could make, the integrity check, the moves, whether
the device is online and a request can be authorized, and which transfers were finished when they
were cancelled. -/
structure Outcome where
  planned : Bool := true
  message : Text := []
  intact : Bool := true
  online : Bool := false
  authorized : Bool := true
  faults : Faults := fun _ _ => false
  finished : Transfer → Bool := fun _ => false

namespace Manager

/-- The record in memory first, then its copy in the store. -/
def update (change : DownloadRecord → DownloadRecord) (next : Stage) (m : Manager) :
    Manager × Option Task :=
  match m.record with
  | some record => ({ m with record := some (change record) }, some ⟨some (change record), next⟩)
  | none => (m, some ⟨none, next⟩)

def discardStaged (ordinal : Int) (staged : Bool) (m : Manager) : Manager :=
  if staged then
    { m with disk := { m.disk with staged := Function.update m.disk.staged ordinal none } }
  else m

def discardIncoming (files : List DownloadFile) (disk : Disk) : Disk :=
  { disk with
    incoming := files.foldl (fun folder file => Function.update folder file.name none)
      disk.incoming }

def released (inInstall : Bool) (m : Manager) : Manager :=
  if inInstall then { m with installing := false } else m

def abandon (message : Text) (inInstall : Bool) (m : Manager) : Manager × Option Task :=
  if m.abandoned then (m.released inInstall, none)
  else ({ m with abandoned := true }, some ⟨none, .giving message inInstall m.live⟩)

/-- The transfers that were listed are cancelled. One that was finished has still to be reported. -/
def stop (finished : Transfer → Bool) (captured : List Transfer) (m : Manager) : Manager :=
  { m with live := m.live.filter fun transfer => transfer ∉ captured || finished transfer }

/-- A transfer for each file, under the number of its start. -/
def resume (files : List DownloadFile) (start : Option Nat) (m : Manager) : Manager :=
  { m with
    live := m.live ++ files.mapIdx fun index file => ⟨m.made + index, file.ordinal, start⟩
    made := m.made + files.length }

/-- The rest of `abandon`, once the transfers are listed. -/
def giveUp (finished : Transfer → Bool) (message : Text) (inInstall : Bool)
    (captured : List Transfer) (m : Manager) : Manager × Option Task :=
  let files := (m.record.map (·.files)).getD []
  let m := { m.stop finished captured with disk := discardIncoming files m.disk }
  match m.replacing with
  | some previous =>
      ({ m with replacing := none, record := some previous },
        some ⟨some previous, .settled inInstall⟩)
  | none => m.update (·.failedWith message) (.settled inInstall)

def park (ordinal : Int) (message : Text) (m : Manager) : Manager × Option Task :=
  m.update (fun record =>
    { record with state := .running, error := some (describe message ordinal) }) .parked

def holdForResume (ordinal : Int) (resumeData : Bool) (message : Text) (m : Manager) :
    Manager × Option Task :=
  match m.record.bind (·.file ordinal) with
  | none => (m, none)
  | some file =>
      if resumeData then
        ({ m with disk := { m.disk with resume := Function.update m.disk.resume file.name true } },
          some ⟨none, .parking ordinal message⟩)
      else m.park ordinal message

def resumeInterrupted (m : Manager) : Manager × Option Task :=
  if m.isResuming then (m, none)
  else ({ m with isResuming := true }, some ⟨none, .listing m.live⟩)

def sweepFile (faults : Faults) (disk : Disk) (file : DownloadFile) : Disk :=
  { disk with
    held := removeFile (faults .sweep file.name) disk.held file.name
    incoming := removeFile (faults .sweep file.name) disk.incoming file.name
    superseded := removeFile (faults .sweep file.name) disk.superseded file.name
    resume := Function.update disk.resume file.name false }

/-- What an install leaves of the copy it replaced: only files the new plan names. -/
def sweepReplaced (faults : Faults) (installed : List Text) (replaced : List Text)
    (previous : Option DownloadRecord) (disk : Disk) : Disk :=
  let gone := ((previous.map (·.files)).getD []).filter fun file => file.name ∉ installed
  let swept := gone.foldl (sweepFile faults) disk
  { swept with
    superseded := replaced.foldl (fun folder name => removeFile (faults .sweep name) folder name)
      swept.superseded }

def install (faults : Faults) (m : Manager) : Manager × Option Task :=
  match m.record with
  | none => (m, none)
  | some record =>
      if m.installing ∨ record.state = .complete then (m, none)
      else
        let m := { m with installing := true }
        let names := record.files.map (·.name)
        if names.any fun name => (m.disk.incoming name).isNone then
          m.abandon "The download is missing some of its files.".toList true
        else
          match swapIntoPlace faults names m.disk with
          | (none, disk) => abandon "move failed".toList true { m with disk }
          | (some replaced, disk) =>
              let m := { m with
                disk := sweepReplaced faults names replaced m.replacing disk
                replacing := none }
              m.update (fun record => { record with state := .complete, error := none })
                (.settled true)

def stageIn (faults : Faults) (ordinal : Int) (name : Text) (m : Manager) :
    Manager × Option Task :=
  let incoming := removeFile (faults .sweep name) m.disk.incoming name
  let cleared := { m.disk with incoming }
  match m.disk.staged ordinal with
  | some bytes =>
      if faults .stage name = true ∨ incoming name ≠ none then
        abandon "move failed".toList false (discardStaged ordinal true { m with disk := cleared })
      else
        update (·.marked ordinal) .marking { m with
          disk := { cleared with
            incoming := Function.update incoming name (some bytes)
            staged := Function.update m.disk.staged ordinal none } }
  | none => abandon "move failed".toList false { m with disk := cleared }

def clearError (faults : Faults) (ordinal : Int) (name : Text) (errored : Bool) (m : Manager) :
    Manager × Option Task :=
  if errored then m.update (fun record => { record with error := none }) (.cleared ordinal name)
  else m.stageIn faults ordinal name

/-- The same attempt on both sides of the integrity check, not abandoned, and a record there. -/
def completionIsCurrent (before : Option Nat) (m : Manager) : Bool :=
  !m.abandoned && m.record.isSome && before == m.attempt

/-- The rest of `finish`, once the registry holds the record. -/
def finishKnown (faults : Faults) (ordinal : Int) (status : Nat) (staged : Bool)
    (record : DownloadRecord) (m : Manager) : Manager × Option Task :=
  if record.state = .complete then (m.discardStaged ordinal staged, none)
  else
    match record.file ordinal with
    | some file =>
        if 200 ≤ status ∧ status < 300 ∧ staged = true then
          if record.verified then
            (m, some ⟨none, .checked ordinal file.name record.error.isSome m.attempt⟩)
          else m.clearError faults ordinal file.name record.error.isSome
        else refused ordinal status staged m
    | none => refused ordinal status staged m
where
  refused (ordinal : Int) (status : Nat) (staged : Bool) (m : Manager) : Manager × Option Task :=
    let m := m.discardStaged ordinal staged
    if classify status = some .transient then
      m.holdForResume ordinal false ("Server returned ".toList ++ decimal status)
    else
      m.abandon (describe ("Download failed (".toList ++ decimal status ++ ")".toList) ordinal)
        false

def finish (faults : Faults) (ordinal : Int) (status : Nat) (staged : Bool) (m : Manager) :
    Manager × Option Task :=
  if m.abandoned then (m.discardStaged ordinal staged, none)
  else
    match m.record with
    | some record => m.finishKnown faults ordinal status staged record
    | none => (m, some ⟨none, .reading (.landed ordinal status staged)⟩)

/-- The rest of a transfer's failure, once the registry holds the record. -/
def fallen (ordinal : Int) (failure : DownloadFailure) (resumeData : Bool) (message : Text)
    (m : Manager) : Manager × Option Task :=
  match failure with
  | .transient => m.holdForResume ordinal resumeData message
  | .terminal => m.abandon (describe message ordinal) false

/-- A record the delegate saw before the registry held it is adopted from the store. -/
def adopt (faults : Faults) (stored : Option DownloadRecord) (m : Manager) :
    Stage → Manager × Option Task
  | .landed ordinal status staged =>
      match stored with
      | some record =>
          finishKnown faults ordinal status staged record { m with record := some record }
      | none => (m.discardStaged ordinal staged, none)
  | .stopped ordinal failure resumeData message =>
      match stored with
      | some record => fallen ordinal failure resumeData message { m with record := some record }
      | none => (m, none)
  | _ => (m, none)

def afterCheck (outcome : Outcome) (ordinal : Int) (name : Text) (errored : Bool)
    (before : Option Nat) (m : Manager) : Manager × Option Task :=
  if m.completionIsCurrent before then
    if outcome.intact then m.clearError outcome.faults ordinal name errored
    else
      abandon "The download failed its integrity check.".toList false (m.discardStaged ordinal true)
  else (m.discardStaged ordinal true, none)

/-- The registration of a start, in memory; its transfers are made once it is stored. -/
def register (finished : Transfer → Bool) (plan : Plan) (previous : Option DownloadRecord)
    (captured : List Transfer) (m : Manager) : Manager × Option Task :=
  let start := some (m.minted + 1)
  let record : DownloadRecord := ⟨plan.format, .running, plan.files, none, start⟩
  ({ m.stop finished captured with
    abandoned := false
    attempt := start
    minted := m.minted + 1
    replacing := previous.or m.replacing
    record := some record }, some ⟨some record, .opening plan.files start⟩)

/-- A start whose plan cannot be made says so, unless it was to replace something. -/
def fail (plan : Plan) (message : Text) (m : Manager) : Manager × Option Task :=
  let record : DownloadRecord := ⟨plan.format, .failed, [], some message, none⟩
  ({ m with record := some record }, some ⟨some record, .settled false⟩)

def remove (m : Manager) : Manager × Option Task :=
  let files := (m.record.map (·.files)).getD []
  ({ m with disk := discardIncoming files m.disk }, some ⟨none, .removing⟩)

def deleteDownload (faults : Faults) (m : Manager) : Manager :=
  let files := (m.stored.map (·.files)).getD []
  { m with stored := none, disk := files.foldl (sweepFile faults) m.disk }

/-- The next segment of a suspended call, with what it leaves suspended. -/
def advance (outcome : Outcome) (m : Manager) : Stage → Manager × Option Task
  | .planning previous plan =>
      if outcome.planned then (m, some ⟨none, .calling previous plan m.live⟩)
      else
        match previous with
        | some _ => (m, none)
        | none => m.fail plan outcome.message
  | .calling previous plan captured => m.register outcome.finished plan previous captured
  | .opening files start => (m.resume files start, none)
  | .landed ordinal status staged => m.finish outcome.faults ordinal status staged
  | .checked ordinal name errored before => m.afterCheck outcome ordinal name errored before
  | .cleared ordinal name => m.stageIn outcome.faults ordinal name
  | .marking =>
      if m.record.any (·.allDone) then m.install outcome.faults else (m, none)
  | .giving message inInstall captured =>
      m.giveUp outcome.finished message inInstall captured
  | .settled inInstall => (m.released inInstall, none)
  | .stopped ordinal failure resumeData message =>
      if m.record.isSome then m.fallen ordinal failure resumeData message
      else (m, some ⟨none, .reading (.stopped ordinal failure resumeData message)⟩)
  | .reading call => (m, some ⟨none, .read m.stored call⟩)
  | .read stored call => m.adopt outcome.faults stored call
  | .parking ordinal message => m.park ordinal message
  | .parked => if outcome.online then m.resumeInterrupted else (m, none)
  | .listing captured =>
      match m.record with
      | some record =>
          if record.state = .running then
            (m, some ⟨none, .restarting (record.files.filter fun file =>
              !file.done && file.ordinal ∉ captured.map (·.ordinal)) record.start⟩)
          else ({ m with isResuming := false }, none)
      | none => ({ m with isResuming := false }, none)
  | .restarting [] _ => ({ m with isResuming := false }, none)
  | .restarting (file :: rest) start =>
      let parked := m.disk.resume file.name
      let m := { m with
        disk := { m.disk with resume := Function.update m.disk.resume file.name false } }
      (if parked || outcome.authorized then m.resume [file] start else m,
        some ⟨none, .restarting rest start⟩)
  | .cancelling captured => (m.stop outcome.finished captured).remove
  | .removing => (m.deleteDownload outcome.faults, some ⟨none, .removed⟩)
  | .removed => ({ m with record := none, replacing := none, attempt := none }, none)

end Manager

/-- A failure in which nothing resumes, and the bytes staged so far are dead weight. -/
def interrupted (record : DownloadRecord) : DownloadRecord :=
  record.failedWith "Interrupted".toList

def hasParkedResume (disk : Disk) (record : DownloadRecord) : Bool :=
  record.files.any fun file => !file.done && disk.resume file.name

/-- An audiobook record of a build that stored one part and called the download complete. -/
def retired (record : DownloadRecord) : DownloadRecord :=
  { record with
    state := .failed
    error := some
      "Only part of this audiobook was downloaded — download it again.".toList }

/-- A relaunch: memory is gone, the transfers that survive are the system's, and what the store
holds is read back. A record no transfer serves has failed, unless a part of it is parked, and a
complete one is retired when it is found to hold only a part. -/
def hydrate (survivors : List Transfer) (onlyPart : Bool) (m : Manager) : Manager :=
  let swept : Disk := { m.disk with
    staged := fun ordinal =>
      if ordinal ∈ survivors.map (·.ordinal) then m.disk.staged ordinal else none }
  let base : Manager := { m with
    disk := swept, record := m.stored, replacing := none, abandoned := false, attempt := none
    installing := false, isResuming := false, live := survivors, tasks := [] }
  match m.stored with
  | none => base
  | some record =>
      if (record.state = .running ∨ record.state = .queued) ∧ survivors = [] then
        if hasParkedResume m.disk record then
          let parked := { record with state := .running }
          { base with
            record := some parked, stored := some parked, isResuming := true
            tasks := [⟨none, .listing survivors⟩] }
        else
          { base with
            record := some (interrupted record), stored := some (interrupted record)
            disk := Manager.discardIncoming record.files swept }
      else if onlyPart = true ∧ record.state = .complete then
        { base with record := some (retired record), stored := some (retired record) }
      else base

inductive Act where
  /-- A transfer finished: its bytes are staged, unless that move failed. -/
  | land (index : Nat) (status : Nat) (moved : Bool)
  | drop (index : Nat) (failure : DownloadFailure) (resumeData : Bool) (message : Text)
  | reconnect
  | run (index : Nat) (outcome : Outcome)
  | kill (survivors : List Transfer) (onlyPart : Bool)
  | start (plan : Plan)
  | redownload (plan : Plan)
  | cancel
  | remove

namespace Manager

def spawn (result : Manager × Option Task) : Manager :=
  { result.1 with tasks := result.1.tasks ++ result.2.toList }

/-- What `redownload` has `start` replace: a complete record. -/
def replaceable (m : Manager) : Option DownloadRecord :=
  m.record.filter fun record => record.state = .complete

def step (m : Manager) : Act → Option Manager
  | .land index status moved => do
      let transfer ← m.live[index]?
      some (spawn ({ m with
        live := m.live.eraseIdx index
        disk := { m.disk with
          staged := Function.update m.disk.staged transfer.ordinal
            (if moved then some (.fetched transfer) else none) } },
        some ⟨none, .landed transfer.ordinal status moved⟩))
  | .drop index failure resumeData message => do
      let transfer ← m.live[index]?
      some (spawn ({ m with live := m.live.eraseIdx index },
        some ⟨none, .stopped transfer.ordinal failure resumeData message⟩))
  | .reconnect => some (spawn m.resumeInterrupted)
  | .run index outcome => do
      let task ← m.tasks[index]?
      match task.write with
      | some record =>
          some { m with
            stored := some record
            tasks := m.tasks.set index { task with write := none } }
      | none =>
          some (spawn (advance outcome { m with tasks := m.tasks.eraseIdx index } task.stage))
  | .kill survivors onlyPart =>
      if survivors.isSublist m.live then some (hydrate survivors onlyPart m) else none
  | .start plan => some (spawn (m, some ⟨none, .planning none plan⟩))
  | .redownload plan => some (spawn (m, some ⟨none, .planning m.replaceable plan⟩))
  | .cancel => some (spawn ({ m with abandoned := true }, some ⟨none, .cancelling m.live⟩))
  | .remove => some (spawn m.remove)

/-- A complete record no transfer belongs to, and `redownload` just called for it. -/
def called (plan : Plan) (previous : DownloadRecord) (disk : Disk) : Manager where
  disk := { disk with staged := fun _ => none }
  record := some previous
  stored := some previous
  replacing := none
  abandoned := false
  attempt := none
  minted := 0
  installing := false
  isResuming := false
  live := []
  made := 0
  tasks := [⟨none, .planning (some previous) plan⟩]

end Manager

def inOrder (files : List DownloadFile) : List Text :=
  ((files.map fun file => (file.ordinal, file.name)).mergeSort
    fun first second => first.1 ≤ second.1).map Prod.snd

/-- The local files of the book, when the record is complete and all of them are there. -/
def Manager.localFiles (m : Manager) : List Text :=
  match m.record with
  | none => []
  | some record =>
      if record.state ≠ .complete ∨ record.files = [] then []
      else
        let names := inOrder record.files
        if names.all fun name => (m.disk.held name).isSome then names else []

end Omnibus.Downloads
