import Mathlib.Algebra.Order.Ring.Int
import Omnibus.KoboSync.ReadingState
import Omnibus.Library.Strings

/-!
# The reading state of a book on the KOReader plugin and on the server

The plugin's `settle`, `capture`, `flush` and `pull_plan` for one book, and the server's
`put_state` with the two rows it writes.
-/

namespace Omnibus.Koreader.State

open Omnibus.KoboSync (ReadStatus ReadStatusRow Position ProgressRow KoboBookState setReadStatusAt
  executeUpsert markStarted rowToKoboState)
open Omnibus.Library.Strings (Text trim)

inductive Arm where
  | percent
  | status
  deriving DecidableEq

/-- What device and server agreed on for one book, and what still waits to be pushed. -/
structure Entry where
  percent : Option Int
  percentAt : Option Int
  xpointer : Option String
  dirtyPercent : Bool
  status : Option String
  statusAt : Option Int
  dirtyStatus : Bool
  deriving DecidableEq

structure Current where
  percent : Option Int
  xpointer : Option String
  status : Option String
  deriving DecidableEq

structure StatePut where
  percent : Option Int
  xpointer : Option String
  status : Option String
  eventAt : Int
  deriving DecidableEq

structure PositionAnswer where
  percent : Int
  eventAt : Int
  xpointer : Option String
  deriving DecidableEq

structure StatusAnswer where
  status : String
  eventAt : Int
  deriving DecidableEq

structure StateBody where
  position : Option PositionAnswer
  status : Option StatusAnswer
  deriving DecidableEq

/-- The source EPUB of the book: its `book_files` id and what the converter proves against it. -/
structure Source where
  id : Option Int
  xpointerToCfi : String → Option String
  cfiToXpointer : String → Option String

/-- The server's clock, the book's source EPUB and the reader's rows for the book. -/
structure Server where
  clock : Int
  source : Source
  progress : Option ProgressRow
  readStatus : Option ReadStatusRow

/-! ## The server -/

def readStatusFor (koreader : String) : Option ReadStatus :=
  if koreader = "reading" then some .reading
  else if koreader = "complete" then some .finished
  else none

/-- A KOReader's own XPointer taken in the source edition, else one derived from the stored CFI. -/
def positionXpointer (source : Source) (stored : Position) : Option String :=
  match stored.koreaderXpointer with
  | some xpointer =>
      if stored.bookFileId.all fun edition => source.id = some edition then some xpointer
      else stored.epubCfi.bind source.cfiToXpointer
  | none => stored.epubCfi.bind source.cfiToXpointer

/-- The token of a status; an unread book has none. -/
def koreaderStatus : ReadStatus → Option String
  | .reading => some "reading"
  | .finished => some "complete"
  | .unread => none

def StateBody.new (source : Source) : Option KoboBookState → StateBody
  | none => ⟨none, none⟩
  | some stored =>
      { position := stored.position.bind fun position => position.progressPercent.map fun percent =>
          ⟨percent, stored.progressUpdatedAt, positionXpointer source position⟩
        status := (koreaderStatus stored.status).map fun status =>
          ⟨status, stored.statusUpdatedAt⟩ }

/-- `stored_state`. -/
def stateBody (server : Server) : StateBody :=
  StateBody.new server.source
    (if server.progress.isSome || server.readStatus.isSome then
      some (rowToKoboState server.readStatus server.progress)
    else none)

/-- `start_unread_at_tx`: an unread book is started by a newer position. -/
def startUnreadAt (clock : Int) (stored : ReadStatusRow) (eventAt : Int) : ReadStatusRow :=
  if stored.status = .unread then setReadStatusAt clock .reading eventAt (some stored) else stored

def epubCfiMaxLen : Nat := 4096

/-- The XPointer of a PUT: it rides with a percent, and a blank one is none. -/
def StatePut.sentXpointer (body : StatePut) : Option String :=
  body.xpointer.filter fun xpointer => body.percent.isSome && !(trim xpointer.toList).isEmpty

/-- The position a PUT stores, with the CFI its XPointer converts to. -/
def StatePut.position (source : Source) (body : StatePut) : Position where
  epubCfi := body.sentXpointer.bind source.xpointerToCfi
  progressPercent := body.percent
  koboLocation := none
  bookFileId := none
  koreaderXpointer := body.sentXpointer
  koreaderPercentage := none

/-- The checks of `put_state` and of `ProgressUpdate::validate`. -/
def StatePut.valid (source : Source) (body : StatePut) (eventAt : Int) : Bool :=
  (body.percent.isSome || body.status.isSome) &&
    body.sentXpointer.all (fun xpointer => xpointer.length ≤ epubCfiMaxLen) &&
    decide (0 ≤ eventAt) && body.percent.all (fun percent => 0 ≤ percent && percent ≤ 100) &&
    (body.position source).epubCfi.all fun cfi =>
      !(trim cfi.toList).isEmpty && cfi.length ≤ epubCfiMaxLen

/-- The status row after the position of a PUT was stored or refused. -/
def startedBy (clock : Int) (status : Option ReadStatus) (stored : Option ReadStatusRow)
    (surviving : ProgressRow) (eventAt : Int) : ReadStatusRow :=
  let marked := markStarted surviving stored
  if surviving.eventTime ≤ eventAt ∧ status = none then startUnreadAt clock marked eventAt
  else marked

/-- Store the device's position and status: 200, 409 when the stored position is newer, 400. -/
def putState (server : Server) (body : StatePut) : Nat × Server :=
  let eventAt := min body.eventAt server.clock
  if body.valid server.source eventAt then
    let status := body.status.bind readStatusFor
    let chosen := match status with
      | none => server.readStatus
      | some status => some (setReadStatusAt server.clock status eventAt server.readStatus)
    match body.percent with
    | none => (200, { server with readStatus := chosen })
    | some _ =>
        let surviving :=
          executeUpsert server.clock (body.position server.source) (some eventAt) server.progress
        (if eventAt < surviving.eventTime then 409 else 200,
          { server with
            progress := some surviving
            readStatus := some (startedBy server.clock status chosen surviving eventAt) })
  else (400, server)

/-! ## The plugin -/

def wireStatus (status : Option String) : Option String :=
  status.filter fun status => status = "reading" || status = "complete"

def Entry.pending (entry : Entry) : Bool := entry.dirtyPercent || entry.dirtyStatus

/-- What opening a book changes; all absent stands for no plan. -/
structure PullPlan where
  percent : Option Int
  percentAt : Option Int
  xpointer : Option String
  status : Option String
  statusAt : Option Int
  deriving DecidableEq

/-- Record the device's own state as agreed for the arms that have a clock. -/
def settle (entry : Entry) (current : Current) (clocks : PullPlan) : Entry where
  percent := if clocks.percentAt.isSome then current.percent else entry.percent
  percentAt := clocks.percentAt.or entry.percentAt
  xpointer := if clocks.percentAt.isSome then current.xpointer else entry.xpointer
  dirtyPercent := if clocks.percentAt.isSome then false else entry.dirtyPercent
  status := if clocks.statusAt.isSome then wireStatus current.status else entry.status
  statusAt := clocks.statusAt.or entry.statusAt
  dirtyStatus := if clocks.statusAt.isSome then false else entry.dirtyStatus

def withoutFirst : Text → Text
  | '[' :: '1' :: ']' :: rest => withoutFirst rest
  | char :: rest => char :: withoutFirst rest
  | [] => []

/-- Every `[1]` step taken out. -/
def normalized (xpointer : String) : Text := withoutFirst xpointer.toList

def xpointerMoved (entry : Entry) (current : Current) : Bool :=
  match entry.xpointer, current.xpointer with
  | some agreed, some here => normalized agreed != normalized here
  | _, _ => false

def capturePercent (entry : Entry) (current : Current) (now : Int) : Entry :=
  if entry.percent ≠ current.percent ∨ xpointerMoved entry current then
    { entry with
      percent := current.percent, percentAt := some now, dirtyPercent := true
      xpointer := current.xpointer }
  else entry

def captureStatus (entry : Entry) (current : Current) (now : Int) : Entry :=
  if entry.status ≠ wireStatus current.status then
    { entry with
      status := wireStatus current.status, statusAt := some now
      dirtyStatus := (wireStatus current.status).isSome }
  else entry

/-- Mark each field that differs from the agreed one pending at `now`. -/
def capture (entry : Entry) (current : Current) (now : Int) : Entry :=
  if current.percent = none then entry
  else captureStatus (capturePercent entry current now) current now

/-- The PUTs a book needs: one for each pending field, or one for both when they share a time. -/
def batches (entry : Entry) : List (List Arm) :=
  match entry.dirtyPercent, entry.dirtyStatus with
  | true, true =>
      if entry.percentAt = entry.statusAt then [[.percent, .status]] else [[.percent], [.status]]
  | true, false => [[.percent]]
  | false, true => [[.status]]
  | false, false => []

def Entry.at (entry : Entry) : Arm → Option Int
  | .percent => entry.percentAt
  | .status => entry.statusAt

def putBody (entry : Entry) (arms : List Arm) : StatePut where
  percent := if .percent ∈ arms then entry.percent else none
  xpointer := if .percent ∈ arms ∧ entry.percent.isSome then entry.xpointer else none
  status := if .status ∈ arms then entry.status else none
  eventAt := (arms.head?.bind entry.at).getD 0

/-- The time a pushed field is settled at: the server's when the write landed, else its own. -/
def settledAt (at' stored : Option Int) : Option Int :=
  match stored with
  | none => at'
  | some stored => if stored ≤ at'.getD 0 then some stored else at'

def settleAnswer (answer : StateBody) (entry : Entry) : Arm → Entry
  | .percent =>
      { entry with
        percentAt := settledAt entry.percentAt (answer.position.map (·.eventAt))
        dirtyPercent := false }
  | .status =>
      { entry with
        statusAt := settledAt entry.statusAt (answer.status.map (·.eventAt))
        dirtyStatus := false }

/-- A flush so far: the book's entry, none once the book was dropped, and the answers' codes. -/
structure Flushed where
  entry : Option Entry
  server : Server
  codes : List Nat

def pushArms (flushed : Flushed) (arms : List Arm) : Flushed :=
  match flushed.entry with
  | none => flushed
  | some entry =>
      let (code, server) := putState flushed.server (putBody entry arms)
      if code = 200 ∨ code = 409 then
        ⟨some (arms.foldl (settleAnswer (stateBody server)) entry), server, flushed.codes ++ [code]⟩
      else ⟨none, server, flushed.codes ++ [code]⟩

def flushBook (entry : Entry) (server : Server) : Flushed :=
  (batches entry).foldl pushArms ⟨some entry, server, []⟩

def noPlan : PullPlan := ⟨none, none, none, none, none⟩

def pullPercent (entry : Entry) (server : PositionAnswer) (current : Current) : PullPlan :=
  let localValue := if entry.percentAt.isSome then entry.percent else current.percent
  let localXpointer :=
    if entry.percentAt.isSome then entry.xpointer.or current.xpointer else current.xpointer
  let byXpointer := server.xpointer.isSome && current.xpointer.isSome
  if entry.dirtyPercent ∨ server.eventAt < entry.percentAt.getD 0 then noPlan
  else if byXpointer ∧ server.xpointer.map normalized ≠ localXpointer.map normalized then
    { noPlan with
      xpointer := server.xpointer
      percent := some server.percent
      percentAt := some server.eventAt }
  else if some server.percent ≠ localValue then
    { noPlan with
      percentAt := some server.eventAt
      percent := if byXpointer then none else some server.percent }
  else noPlan

def pullStatus (entry : Entry) (server : StatusAnswer) (current : Current) : PullPlan :=
  let localValue := if entry.statusAt.isSome then entry.status else wireStatus current.status
  if entry.dirtyStatus ∨ server.eventAt < entry.statusAt.getD 0 then noPlan
  else if some server.status ≠ localValue then
    { noPlan with status := some server.status, statusAt := some server.eventAt }
  else noPlan

def pullPlan (entry : Entry) (remote : StateBody) (current : Current) : PullPlan :=
  let position := (remote.position.map (pullPercent entry · current)).getD noPlan
  let status := (remote.status.map (pullStatus entry · current)).getD noPlan
  { position with status := status.status, statusAt := status.statusAt }

/-- The device after a plan: it reports exactly what was applied. A device that reports XPointers
reports the one of the place a bare percent took it to. -/
def applyPlan (plan : PullPlan) (current : Current) (landed : String) : Current where
  percent := plan.percent.or current.percent
  xpointer :=
    if plan.xpointer.isSome then plan.xpointer
    else if plan.percent.isSome then current.xpointer.map fun _ => landed
    else current.xpointer
  status := plan.status.or current.status

end Omnibus.Koreader.State
