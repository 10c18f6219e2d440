import Mathlib.Data.Rat.Defs
import Omnibus.Library.Runs
import Omnibus.Library.Strings
import Omnibus.Library.Tables

/-!
# Book requests

`requests/store.rs`: the statements on a reader's requests and the versions found for them, those
of the readers, of the searches and of the download poller. One that changes no row is none.
-/

namespace Omnibus.Requests

open Omnibus.Library.Strings Omnibus.Library.Tables

inductive RequestKind where
  | ebook
  | audiobook
  deriving DecidableEq

inductive RequestState where
  | looking
  | choose
  | chosen
  | onItsWay
  | ready
  | stuck
  | cancelled
  deriving DecidableEq

inductive StuckReason where
  | notFound
  | searchFailed
  | stoppedMoving
  | couldntAdd
  deriving DecidableEq

structure RequestRow where
  bookUuid : Text
  userId : Int
  kind : RequestKind
  state : RequestState := .looking
  stuckReason : Option StuckReason := none
  stuckDetail : Option Text := none
  chosenResultId : Option Nat := none
  clientTag : Option Text := none
  importKey : Option Text := none
  removeTag : Option Text := none
  progress : Option ℚ := none
  movedAt : Option Int := none
  cancelAt : Option Int := none
  cancelledBy : Option Int := none
  priorState : Option RequestState := none
  note : Option Text := none

structure Ranked where
  guid : Text
  rejected : Bool

structure ResultRow extends Ranked where
  requestId : Nat
  tried : Bool := false

inductive SearchOutcome where
  | found (ranked : List Ranked)
  | notFound (detail : Option Text)
  | searchFailed (detail : Option Text)

structure Store where
  requests : Table RequestRow := .empty
  results : Table ResultRow := .empty

/-- `LIVE_STATES`. -/
def RequestState.live : RequestState → Bool
  | .looking | .choose | .chosen | .onItsWay => true
  | _ => false

/-- `omnibus-<request>-<version>`. -/
def tagOf (id pick : Nat) : Text := "omnibus-".toList ++ (decimal id ++ '-' :: decimal pick)

/-! ## One row -/

section Row

variable (row : RequestRow)

def RequestRow.asks : Int × Text × RequestKind := (row.userId, row.bookUuid, row.kind)

def RequestRow.stuckOn (reason : StuckReason) : Bool :=
  row.state = .stuck && row.stuckReason = some reason

def RequestRow.downloading : Bool := row.state = .onItsWay && row.progress.all (· < 1)

def settleSearch : SearchOutcome → Option RequestRow
  | .found _ =>
      if row.state = .looking then
        some { row with state := .choose, stuckReason := none, stuckDetail := none }
      else none
  | .notFound detail =>
      if row.state = .looking then
        some { row with state := .stuck, stuckReason := some .notFound, stuckDetail := detail }
      else none
  | .searchFailed detail =>
      if row.state = .looking then
        some { row with state := .stuck, stuckReason := some .searchFailed, stuckDetail := detail }
      else none

/-- `swap_in`, where `kept` says that another version is left. -/
def swap (kept : Bool) (note : Option Text) : Option RequestRow :=
  if row.removeTag = none ∧ (row.downloading ∨ row.stuckOn .stoppedMoving) then
    some { row with
      state := if kept then .choose else .looking
      removeTag := row.clientTag
      clientTag := none
      chosenResultId := none
      progress := none
      movedAt := none
      stuckReason := none
      stuckDetail := none
      note }
  else none

/-- The part of `restart` for a download that could not be added. -/
def importAgain : Option RequestRow :=
  if row.stuckOn .couldntAdd then
    some { row with
      state := .onItsWay, progress := some 1, stuckReason := none, stuckDetail := none }
  else none

def searchAgain : Option RequestRow :=
  if row.state = .looking ∨ row.state = .stuck then
    some { row with state := .looking, stuckReason := none, stuckDetail := none }
  else none

def choose (pick : Nat) : Option RequestRow :=
  if row.state = .choose then
    some { row with state := .chosen, chosenResultId := some pick, note := none }
  else none

def cancel (canceller now : Int) : Option RequestRow :=
  if row.state = .looking ∨ row.state = .choose ∨ row.state = .chosen ∨ row.downloading then
    some { row with
      priorState := some row.state, state := .cancelled, cancelledBy := some canceller
      cancelAt := some (now + 10) }
  else none

def undoCancel (now : Int) : Option RequestRow :=
  match row.priorState with
  | none => none
  | some prior =>
      if row.state = .cancelled ∧ row.cancelAt.any (now < ·) then
        some { row with state := prior, priorState := none, cancelledBy := none, cancelAt := none }
      else none

/-- A due cancel, unless an earlier download is still being removed. -/
def claimDueCancel (now : Int) : RequestRow :=
  if row.cancelAt.any (· ≤ now) ∧ (row.removeTag = none ∨ row.clientTag = none) then
    { row with
      removeTag := row.clientTag.or row.removeTag, clientTag := none, cancelAt := none }
  else row

def finishRemoval (tag : Text) : Option RequestRow :=
  if row.removeTag = some tag then some { row with removeTag := none } else none

def beginDownload (id : Nat) : Option RequestRow :=
  match row.chosenResultId with
  | none => none
  | some pick =>
      if row.state = .chosen then some { row with clientTag := some (tagOf id pick) } else none

def markOnItsWay (now : Int) : Option RequestRow :=
  if row.state = .chosen then some { row with state := .onItsWay, movedAt := some now } else none

inductive Verdict where
  | ready
  | progress (done : ℚ) (movedAt : Int)
  | placed (importKey : Text)
  | stoppedMoving (detail : Text)
  | couldntAdd (detail : Text)

/-- `mark_ready`, `record_progress`, `set_import_key` and `mark_stuck`, which name the pick they are
about. -/
def mark (chosen : Option Nat) (verdict : Verdict) : Option RequestRow :=
  if row.chosenResultId ≠ chosen ∨ chosen = none then none
  else match verdict with
    | .ready => if row.state = .onItsWay then some { row with state := .ready } else none
    | .progress done movedAt =>
        if row.state = .onItsWay then
          some { row with progress := some done, movedAt := some movedAt }
        else none
    | .placed importKey =>
        if row.state = .onItsWay then some { row with importKey := some importKey } else none
    | .stoppedMoving detail =>
        if row.state = .chosen ∨ row.state = .onItsWay then
          some { row with
            state := .stuck, stuckReason := some .stoppedMoving, stuckDetail := some detail }
        else none
    | .couldntAdd detail =>
        if row.state = .chosen ∨ row.state = .onItsWay then
          some { row with
            state := .stuck, stuckReason := some .couldntAdd, stuckDetail := some detail }
        else none

/-- `drop_requests`, for a request of the deleted book: one whose download may be in the client is
cancelled, due now. -/
def drop (now : Int) : Option RequestRow :=
  if row.clientTag = none ∧ row.removeTag = none then none
  else some { row with state := .cancelled, priorState := none, cancelAt := some now }

end Row

/-! ## The tables -/

inductive Act where
  | start (userId : Int) (bookUuid : Text) (kind : RequestKind) (maxLive : Nat)
  | finishSearch (id : Nat) (outcome : SearchOutcome)
  | swap (id : Nat) (note : Option Text)
  | restart (id maxLive : Nat)
  | choose (id pick : Nat)
  | cancel (id : Nat) (canceller now : Int)
  | undoCancel (id : Nat) (now : Int) (maxLive : Nat)
  | claimDueCancels (now : Int)
  | finishRemoval (id : Nat) (tag : Text)
  | beginDownload (id : Nat)
  | markOnItsWay (id : Nat) (now : Int)
  | mark (id : Nat) (chosen : Option Nat) (verdict : Verdict)
  | dropRequests (bookUuid : Text) (now : Int)
  | deleteUser (userId : Int)
  | retarget (one : Option Nat) (source target : Text)

namespace Store

variable (store : Store)

def modify (id : Nat) (results : Table ResultRow) (change : RequestRow → Option RequestRow) :
    Option Store :=
  ((store.requests.get id).bind change).map fun next =>
    { requests := store.requests.alter fun other row => some (if other = id then next else row)
      results }

def live (test : RequestRow → Bool) : Nat :=
  store.requests.rows.countP fun row => row.state.live && test row

def start (userId : Int) (bookUuid : Text) (kind : RequestKind) (maxLive : Nat) : Option Store :=
  if store.live (·.asks = (userId, bookUuid, kind)) = 0 ∧
      store.live (·.userId = userId) < maxLive then
    some { store with requests := store.requests.insert { bookUuid, userId, kind } }
  else none

def withoutGivenUp (id : Nat) : SearchOutcome → SearchOutcome
  | .found ranked =>
      let left := ranked.filter fun result => store.results.rows.all fun old =>
        old.requestId ≠ id || !old.tried || old.guid ≠ result.guid
      if left.all (·.rejected) then .notFound none else .found left
  | stuck => stuck

def recorded (id : Nat) : SearchOutcome → Table ResultRow
  | .found ranked =>
      ranked.foldl (fun results result => results.insert { result with requestId := id })
        (store.results.alter fun _ old =>
          if old.requestId = id ∧ ¬old.tried then none else some old)
  | _ => store.results

def finishSearch (id : Nat) (outcome : SearchOutcome) : Option Store :=
  let outcome := store.withoutGivenUp id outcome
  store.modify id (store.recorded id outcome) (settleSearch · outcome)

/-- `ensure_room`, before the change. -/
def ifRoom (maxLive : Nat) (change : RequestRow → Option RequestRow) (row : RequestRow) :
    Option RequestRow :=
  if store.live (·.asks = row.asks) = 0 ∧ store.live (·.userId = row.userId) < maxLive then
    change row
  else none

def reject (pick : Option Nat) : Table ResultRow :=
  store.results.alter fun key result =>
    some (if some key = pick then { result with rejected := true, tried := true } else result)

def swap (id : Nat) (note : Option Text) : Option Store :=
  let results := store.reject ((store.requests.get id).bind (·.chosenResultId))
  let kept := results.rows.any fun result => result.requestId = id && !result.rejected
  store.modify id results (Requests.swap · kept note)

def restart (id maxLive : Nat) : Option Store :=
  if (store.requests.get id).any (·.stuckOn .stoppedMoving) then store.swap id none
  else if (store.requests.get id).any (·.stuckOn .couldntAdd) then
    store.modify id store.results (store.ifRoom maxLive importAgain)
  else
    store.modify id (store.results.alter fun _ result =>
      if result.requestId = id then none else some result) searchAgain

def choose (id pick : Nat) : Option Store :=
  if (store.results.get pick).any fun result => result.requestId = id && !result.rejected then
    store.modify id store.results (Requests.choose · pick)
  else none

def cascade (requests : Table RequestRow) : Store where
  requests
  results := store.results.alter fun _ result =>
    if (requests.get result.requestId).isSome then some result else none

def dropRequests (bookUuid : Text) (now : Int) : Store :=
  store.cascade (store.requests.alter fun _ row =>
    if row.bookUuid = bookUuid then drop row now else some row)

def deleteUser (userId : Int) : Store :=
  store.cascade (store.requests.alter fun _ row => if row.userId = userId then none else some row)

/-- Every row becomes what the change makes of it. -/
def each (change : Nat → RequestRow → RequestRow) : Store where
  requests := store.requests.alter fun id row => some (change id row)
  results := store.results

/-- A merge moves the requests of one book to another; taking it back moves them one by one. -/
def retarget (one : Option Nat) (source target : Text) (id : Nat) (row : RequestRow) : RequestRow :=
  if row.bookUuid = source ∧ one.all (· = id) then { row with bookUuid := target } else row

def step : Act → Option Store
  | .start userId bookUuid kind maxLive => store.start userId bookUuid kind maxLive
  | .finishSearch id outcome => store.finishSearch id outcome
  | .swap id note => store.swap id note
  | .restart id maxLive => store.restart id maxLive
  | .choose id pick => store.choose id pick
  | .cancel id canceller now => store.modify id store.results (cancel · canceller now)
  | .undoCancel id now maxLive =>
      store.modify id store.results (store.ifRoom maxLive (undoCancel · now))
  | .claimDueCancels now => some (store.each fun _ row => claimDueCancel row now)
  | .finishRemoval id tag => store.modify id store.results (finishRemoval · tag)
  | .beginDownload id => store.modify id store.results (beginDownload · id)
  | .markOnItsWay id now => store.modify id store.results (markOnItsWay · now)
  | .mark id chosen verdict => store.modify id store.results (mark · chosen verdict)
  | .dropRequests bookUuid now => some (store.dropRequests bookUuid now)
  | .deleteUser userId => some (store.deleteUser userId)
  | .retarget one source target => some (store.each (retarget one source target))

end Store

end Omnibus.Requests
