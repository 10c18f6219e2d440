import Omnibus.Outbox.ReviewsLand

/-!
# The review replica

`patchReview` and `deleteReview` show a change in the replica, queue it, drain, and read the
reviews back; `Cache.live` reads them with its writes guarded. Each stands still at every `await`.
The queue and its drains are the outbox's; a device is that world, the replica under the book's
reviews key with the count of its writes, and the calls that go on.
-/

namespace Omnibus.ReviewReplica

open Omnibus.Library.Strings
open Omnibus.Outbox

structure Review where
  bookUUID : Text
  stars : Option ℚ
  bodyMd : Option Text
  bodyHtml : Option Text
  notesMd : Option Text
  notesHtml : Option Text
  spoiler : Bool
  ratedAt : Option Int
  createdAt : Int
  updatedAt : Int
  deriving DecidableEq

/-- The page of a book's reviews. The other readers' reviews and their summary are the server's. -/
structure BookReviews (Household : Type) where
  mine : Option Review
  household : Household
  deriving DecidableEq

/-- One field of a merge patch: left out, set, or cleared with an explicit null. -/
inductive PatchField (Content : Type) where
  | unchanged
  | set (content : Content)
  | cleared
  deriving DecidableEq

structure ReviewPatch where
  stars : PatchField ℚ
  bodyMd : PatchField Text
  notesMd : PatchField Text
  spoiler : Option Bool
  deriving DecidableEq

namespace ReviewPatch

def isEmpty (patch : ReviewPatch) : Bool :=
  patch.stars = .unchanged && patch.bodyMd = .unchanged && patch.notesMd = .unchanged &&
    patch.spoiler = none

def encodeField {Content : Type} (key : Text) (write : Content → Value) :
    PatchField Content → Fields
  | .unchanged => []
  | .set content => [(key, write content)]
  | .cleared => [(key, .null)]

def encode (patch : ReviewPatch) : Fields :=
  encodeField PatchCoalescing.starsKey .number patch.stars ++
    encodeField "body_md".toList .string patch.bodyMd ++
      encodeField "notes_md".toList .string patch.notesMd ++
        (patch.spoiler.map fun spoiler => ("spoiler".toList, Value.bool spoiler)).toList

end ReviewPatch

/-- What the server stores for a text once it is sent; blank text counts as none. -/
def storedText : PatchField Text → Option Text
  | .set content => if (nilIfBlank content).isSome then some content else none
  | _ => none

namespace Review

def applyStars (review : Review) (now : Int) : PatchField ℚ → Review
  | .unchanged => review
  | .set stars =>
      { review with
        stars := some stars
        ratedAt := if review.stars = some stars then review.ratedAt else some now }
  | .cleared => { review with stars := none, ratedAt := none }

/-- The review once a patch lands, none when the patch leaves it empty. Notes are private: editing
only them moves nothing that other readers see. -/
def applying (review : Review) (patch : ReviewPatch) (now : Int) : Option Review :=
  let starred := review.applyStars now patch.stars
  let written :=
    if patch.bodyMd = .unchanged then starred
    else { starred with bodyMd := storedText patch.bodyMd, bodyHtml := none }
  let noted :=
    if patch.notesMd = .unchanged then written
    else { written with notesMd := storedText patch.notesMd, notesHtml := none }
  let spoiled := { noted with spoiler := patch.spoiler.getD noted.spoiler }
  let publicChange :=
    patch.stars ≠ .unchanged ∨ patch.bodyMd ≠ .unchanged ∨ patch.spoiler ≠ none
  let next := if publicChange then { spoiled with updatedAt := now } else spoiled
  if next.stars.isSome || next.bodyMd.isSome || next.notesMd.isSome then some next else none

def blank (uuid : Text) (now : Int) : Review :=
  ⟨uuid, none, none, none, none, none, false, none, now, now⟩

end Review

namespace BookReviews

variable {Household : Type}

def applying (reviews : BookReviews Household) (patch : ReviewPatch) (uuid : Text) (now : Int) :
    BookReviews Household :=
  { reviews with mine := (reviews.mine.getD (.blank uuid now)).applying patch now }

def deletingMine (reviews : BookReviews Household) : BookReviews Household :=
  { reviews with mine := none }

end BookReviews

/-- Who asks the server: the refresh after a write, or a guarded read in its first or second
attempt. -/
inductive Origin where
  | refresh
  | read (attempt : Nat)
  deriving DecidableEq

inductive Caller (Household : Type) where
  | shown (write : Write)
  | pushing (call : Nat)
  | opening
  | draining (call : Nat)
  | rechecking
  | capturing (origin : Origin)
  | captured (origin : Origin) (generation : Nat)
  | ready (origin : Origin) (generation : Nat)
  | asking (origin : Origin) (generation : Nat)
  | answered (origin : Origin) (generation : Nat) (answer : BookReviews Household)
  | storing (origin : Origin) (generation : Nat) (answer : BookReviews Household)
  | refused (attempt : Nat)
  | returned
  deriving DecidableEq

/-- A device, and what its replica went through: whether what was stored last is an answer of the
server, and whether since then a refresh was held off by the queue or did not reach the server. A
guarded read only stands in for a refresh that was held off, or that an earlier process owed. -/
structure Device (Household : Type) where
  world : World
  generation : Nat
  replica : Option (BookReviews Household)
  callers : List (Caller Household)
  adopted : Bool
  heldOff : Bool
  missed : Bool
  deriving DecidableEq

inductive Act where
  | patchReview (patch : ReviewPatch) (now : Int)
  | deleteReview
  | read
  | resume (index : Nat) (cancelled : Bool)
  | answer (index : Nat)
  | lose (index : Nat)
  | bound (call : Nat)
  | arrive (call : Nat)
  | finish (call : Nat) (queryFails : Bool)
  | advance (pass : Nat) (reaches : Bool)
  deriving DecidableEq

/-- Whether a queued kind describes a write of the book's reviews. -/
def touches (uuid kind : Text) : Bool := kind = reviewKind uuid || kind = ratingKind uuid

/-- `OutboxScope.isBlocked` for the book's reviews, by the kinds of the pending rows. -/
def isBlocked (uuid : Text) (ops : Ops) : Bool :=
  ops.rows.any fun row => row.pending && touches uuid row.kind

def hasReturned : CallStage → Bool
  | .returned _ => true
  | _ => false

section Steps

variable {Household : Type} (uuid : Text) (empty : Household)
  (serve : List PendingOp → BookReviews Household)

namespace Device

def Synced (device : Device Household) : Prop :=
  device.replica = some (serve device.world.log.accepted)

def launch (ops : Ops) (replica : Option (BookReviews Household)) : Device Household :=
  ⟨World.launch ⟨true, ops⟩, 0, replica, [], false, true, false⟩

def moved (device : Device Household) (index : Nat) (caller : Caller Household) :
    Device Household :=
  { device with callers := device.callers.set index caller }

/-- A change shown in the replica before it is queued. -/
def mutateLocalReviews (device : Device Household)
    (mutate : BookReviews Household → BookReviews Household) (write : Write) : Device Household :=
  { device with
    generation := device.generation + 1
    replica := some (mutate (device.replica.getD ⟨none, empty⟩))
    callers := device.callers ++ [.shown write]
    adopted := false
    heldOff := false
    missed := false }

/-- The guarded put: the answer is stored only if nothing has written the key since the count was
captured. A read that is refused may ask once more. -/
def cachePut (device : Device Household) (index : Nat) (origin : Origin) (generation : Nat)
    (answer : BookReviews Household) : Device Household :=
  if generation = device.generation then
    { device.moved index .returned with
      generation := device.generation + 1
      replica := some answer
      adopted := true
      heldOff := false
      missed := false }
  else
    match origin with
    | .refresh => device.moved index .returned
    | .read attempt => device.moved index (.refused attempt)

/-- The queue holds off a call's answer. -/
def holdOff (device : Device Household) (index : Nat) (origin : Origin) : Device Household :=
  { device.moved index .returned with heldOff := device.heldOff || origin = .refresh }

/-- A caller from one await to the next; the request itself is answered or lost. -/
def resume (device : Device Household) (index : Nat) (cancelled : Bool) :
    Caller Household → Option (Device Household)
  | .shown write =>
      (device.world.step (.write write .none)).map fun world =>
        { device.moved index (.pushing device.world.calls.length) with world := world }
  | .pushing call =>
      if device.world.calls[call]?.any fun entry => hasReturned entry.stage then
        some (device.moved index (.capturing .refresh))
      else none
  | .opening =>
      if isBlocked uuid device.world.store.ops then
        (device.world.step .drain).map fun world =>
          { device.moved index (.draining device.world.calls.length) with world := world }
      else some (device.moved index (.capturing (.read 0)))
  | .draining call =>
      if device.world.calls[call]?.any fun entry => hasReturned entry.stage then
        some (device.moved index .rechecking)
      else none
  | .rechecking =>
      if isBlocked uuid device.world.store.ops then some (device.moved index .returned)
      else some (device.moved index (.capturing (.read 0)))
  | .capturing origin => some (device.moved index (.captured origin device.generation))
  | .captured origin generation =>
      if origin = .refresh ∧ isBlocked uuid device.world.store.ops then
        some (device.holdOff index origin)
      else some (device.moved index (.ready origin generation))
  | .ready origin generation => some (device.moved index (.asking origin generation))
  | .answered origin generation answer =>
      if isBlocked uuid device.world.store.ops then some (device.holdOff index origin)
      else some (device.moved index (.storing origin generation answer))
  | .storing origin generation answer => some (device.cachePut index origin generation answer)
  | .refused attempt =>
      if attempt = 0 ∧ ¬isBlocked uuid device.world.store.ops ∧ ¬cancelled then
        some (device.moved index (.capturing (.read 1)))
      else some (device.moved index .returned)
  | .asking _ _ => none
  | .returned => none

/-- A step of the outbox: the server accepts what reaches it. -/
def engine (device : Device Household) (action : Action) : Option (Device Household) :=
  (device.world.step action).map fun world => { device with world := world }

def step (device : Device Household) : Act → Option (Device Household)
  | .patchReview patch now =>
      if patch.isEmpty then some device
      else
        some (device.mutateLocalReviews empty (fun reviews => reviews.applying patch uuid now)
          (Outbox.patchReview uuid patch.encode))
  | .deleteReview =>
      some (device.mutateLocalReviews empty BookReviews.deletingMine (Outbox.deleteReview uuid))
  | .read => some { device with callers := device.callers ++ [.opening] }
  | .resume index cancelled =>
      device.callers[index]?.bind (device.resume uuid index cancelled)
  | .answer index =>
      match device.callers[index]? with
      | some (.asking origin generation) =>
          some (device.moved index
            (.answered origin generation (serve device.world.log.accepted)))
      | _ => none
  | .lose index =>
      match device.callers[index]? with
      | some (.asking origin _) =>
          some { device.moved index .returned with
            missed := device.missed || origin = .refresh || device.heldOff }
      | _ => none
  | .bound call => device.engine (.bound call)
  | .arrive call => device.engine (.arrive call)
  | .finish call queryFails => device.engine (.resume call queryFails)
  | .advance pass reaches =>
      device.engine (.advance pass (if reaches then .response else .offline))

end Device

/-- No write of the book is queued, and none is shown that has still to be queued. -/
def Quiet (device : Device Household) : Prop :=
  device.world.store.ops.rows = [] ∧ ∀ write, Caller.shown write ∉ device.callers

/-- A request goes out for an answer that could still be stored only while the server has taken
every change that the replica shows. -/
def AsksQuietly (device : Device Household) : Act → Prop
  | .resume index _ => ∀ origin,
      device.callers[index]? = some (.ready origin device.generation) → Quiet device
  | _ => True

end Steps

end Omnibus.ReviewReplica
