import Mathlib.Data.Char
import Mathlib.Data.List.AList
import Mathlib.Data.List.Lex
import Mathlib.Data.PNat.Basic
import Omnibus.Library.Strings

/-!
# The highlight sync of the KOReader plugin

`sync_annotations` of `omnibussync.lua` with everything it calls. The document's annotation list
is a list of slots: a removed item leaves its slot empty and an added one takes a new slot, so
that a slot number stands for the Lua table the plugin holds a reference to.
-/

namespace Omnibus.Koreader

open Omnibus.Library.Strings

abbrev Table (Value : Type) := AList (fun _ : Text => Value)

/-- An entry of the document's annotation list; a position that is no string is absent. -/
structure Item where
  drawer : Option Text
  pos0 : Option Text
  pos1 : Option Text
  page : Option Text
  text : Option Text
  note : Option Text
  color : Option Text
  datetime : Option Text
  omnibusId : Option Text
  omnibusEditedAt : Option Int
  deriving DecidableEq

/-- An annotation as the server sends it, with the fields that have the type asked for. -/
structure Wire where
  id : Option Text
  pos0 : Option Text
  pos1 : Option Text
  text : Option Text
  note : Option Text
  color : Option Text
  createdAt : Option Int
  updatedAt : Option Int
  deriving DecidableEq

structure Agreed where
  fp : Text
  pos0 : Option Text
  pos1 : Option Text
  serverAt : Option Int
  serverColor : Option Text
  serverFp : Option Text
  localOnly : Bool
  deriving DecidableEq

structure Sent where
  id : Text
  pos0 : Option Text
  pos1 : Option Text
  text : Option Text
  note : Option Text
  color : Option Text
  createdAt : Int
  updatedAt : Int
  deriving DecidableEq

structure Upsert where
  id : Text
  fp : Text
  slot : Nat
  wire : Sent
  deriving DecidableEq

inductive Verdict where
  | applied
  | stale
  | deleted
  | unplaceable
  | other
  deriving DecidableEq

structure Answer where
  id : Option Text
  outcome : Verdict
  annotation : Option Wire
  deriving DecidableEq

/-- The `results` of a reply. -/
inductive Results where
  | absent
  | table (answers : List Answer)
  | other
  deriving DecidableEq

def Results.answers : Results → Option (List Answer)
  | .table answers => some answers
  | _ => none

structure Posted where
  code : Option Nat
  reply : Option Results
  err : Text
  deriving DecidableEq

structure Listing where
  annotations : Option (List Wire)
  deleted : List (Option Text)
  cursor : Option Text
  more : Bool
  deriving DecidableEq

structure Got where
  code : Option Nat
  listing : Option Listing
  err : Text
  deriving DecidableEq

/-- What `sync_annotations` reads besides the document: `now` by slot, `newId`, `post` and `get`
by the number of the call. -/
structure Deps where
  now : Nat → Int
  newId : Nat → Text
  encoded : Sent → Nat
  parseDatetime : Text → Option Int
  post : Nat → Posted
  get : Nat → Got
  add : Wire → Option Item

abbrev Items := List (Option Item)

def held (items : Items) (slot : Nat) : Option Item := items[slot]?.join

def change (items : Items) (slot : Nat) (edit : Item → Item) : Items :=
  items.modify slot (Option.map edit)

def remove (items : Items) (slot : Nat) : Items := items.modify slot (fun _ => none)

theorem held_change_self (items : Items) (slot : Nat) (edit : Item → Item) :
    held (change items slot edit) slot = (held items slot).map edit := by
  simp only [held, change, List.getElem?_modify_eq]
  cases items[slot]? with
  | none => rfl
  | some entry => cases entry <;> rfl

theorem held_change_ne (items : Items) (slot other : Nat) (edit : Item → Item)
    (apart : slot ≠ other) : held (change items slot edit) other = held items other := by
  simp only [held, change, List.getElem?_modify_ne _ _ apart]

theorem held_remove_ne (items : Items) (slot other : Nat) (apart : slot ≠ other) :
    held (remove items slot) other = held items other := by
  simp only [held, remove, List.getElem?_modify_ne _ _ apart]

theorem held_append (items : Items) (slot : Nat) (item : Item) (added : Option Item)
    (holds : held items slot = some item) : held (items ++ [added]) slot = some item := by
  have present : items[slot]? = some (some item) := Option.join_eq_some_iff.mp holds
  obtain ⟨bound, -⟩ := List.getElem?_eq_some_iff.mp present
  rw [held, List.getElem?_append_left bound, present]
  rfl

def isHighlight (item : Item) : Bool :=
  item.drawer.isSome && item.pos0.isSome && item.pos1.isSome

def highlights (items : Items) : List Nat :=
  (List.range items.length).filter fun slot => (held items slot).any isHighlight

def separated (fields : List (Option Text)) : Text :=
  List.intercalate [Char.ofNat 0] (fields.map fun field => field.getD [])

def fingerprint (item : Item) : Text :=
  separated [item.color, item.note, item.text, item.pos0, item.pos1]

def serverFingerprint (server : Wire) : Text :=
  separated [server.color, server.note, server.text, server.pos0, server.pos1]

def smaller (found : Option Text) (id : Text) : Option Text :=
  match found with
  | none => some id
  | some best => if id < best then some id else some best

def weighPlace (item : Item) (claimed : Table Nat) (found : Option Text)
    (entry : Sigma fun _ : Text => Agreed) : Option Text :=
  if (claimed.lookup entry.1).isNone ∧ entry.2.pos0 = item.pos0 ∧ entry.2.pos1 = item.pos1 then
    smaller found entry.1
  else found

/-- The smallest unclaimed id that was agreed on for a highlight at this place. -/
def agreedIdAt (item : Item) (agreed : Table Agreed) (claimed : Table Nat) : Option Text :=
  agreed.entries.foldl (weighPlace item claimed) none

structure Numbering where
  items : Items
  byId : Table Nat
  calls : Nat
  minted : Bool

def enter (items : Items) (byId : Table Nat) (slot : Nat) : Table Nat :=
  match (held items slot).bind (·.omnibusId) with
  | some id => byId.insert id slot
  | none => byId

def indexed (items : Items) (list : List Nat) : Table Nat := list.foldl (enter items) ∅

def number (agreed : Table Agreed) (newId : Nat → Text) (state : Numbering) (slot : Nat) :
    Numbering :=
  match held state.items slot with
  | none => state
  | some item =>
      match item.omnibusId with
      | some _ => state
      | none =>
          let found := agreedIdAt item agreed state.byId
          let id := found.getD (newId state.calls)
          { items := change state.items slot fun item => { item with omnibusId := some id }
            byId := state.byId.insert id slot
            calls := if found.isSome then state.calls else state.calls + 1
            minted := true }

def numberedHighlights (items : Items) (agreed : Table Agreed) (newId : Nat → Text) :
    Numbering :=
  (highlights items).foldl (number agreed newId) ⟨items, indexed items (highlights items), 0, false⟩

def differs (agreed : Table Agreed) (id : Text) (fp : Text) : Bool :=
  (agreed.lookup id).all fun entry => entry.fp != fp

/-- Whether an edit is stamped now: a stamp newer than the last agreement stays. -/
def wantsStamp (agreed : Table Agreed) (item : Item) : Bool :=
  item.omnibusId.any fun id =>
    differs agreed id (fingerprint item) &&
      item.omnibusEditedAt.all fun seen =>
        decide (seen ≤ ((agreed.lookup id).bind (·.serverAt)).getD 0)

def stampEdit (agreed : Table Agreed) (now : Nat → Int) (slot : Nat) (item : Item) : Item :=
  if wantsStamp agreed item then { item with omnibusEditedAt := some (now slot) } else item

def stampEdits (items : Items) (list : List Nat) (agreed : Table Agreed) (now : Nat → Int) :
    Items :=
  list.foldl (fun items slot => change items slot (stampEdit agreed now slot)) items

def sentAs (parseDatetime : Text → Option Int) (id : Text) (item : Item)
    (entry : Option Agreed) : Sent :=
  { id, pos0 := item.pos0, pos1 := item.pos1, text := item.text, note := item.note,
    color := item.color, createdAt := (item.datetime.bind parseDatetime).getD 0,
    updatedAt := max (item.omnibusEditedAt.getD 0) ((entry.bind (·.serverAt)).getD 0) }

def upsertAt (items : Items) (agreed : Table Agreed) (parseDatetime : Text → Option Int)
    (slot : Nat) : Option Upsert :=
  (held items slot).bind fun item => item.omnibusId.bind fun id =>
    if differs agreed id (fingerprint item) then
      some ⟨id, fingerprint item, slot, sentAs parseDatetime id item (agreed.lookup id)⟩
    else none

def upserts (items : Items) (list : List Nat) (agreed : Table Agreed)
    (parseDatetime : Text → Option Int) : List Upsert :=
  list.filterMap (upsertAt items agreed parseDatetime)

/-- The agreed ids that left the device: those the server never took, and the others. -/
def departed (byId : Table Nat) (agreed : Table Agreed) (localOnly : Bool) : List Text :=
  (agreed.entries.filter fun entry =>
    (byId.lookup entry.1).isNone ∧ entry.2.localOnly = localOnly).map (·.1)

def deletes (byId : Table Nat) (agreed : Table Agreed) : List Text :=
  (departed byId agreed false).mergeSort fun first second => decide (first ≤ second)

def forget (agreed : Table Agreed) (ids : List Text) : Table Agreed :=
  ids.foldl (fun agreed id => agreed.erase id) agreed

def removedMessage : Text :=
  ("This device was removed from Omnibus. Add a new KOReader in Settings › Devices " ++
    "and install its plugin.").toList

def httpProblem (code : Option Nat) (err : Text) : Option Text :=
  match code with
  | none => some ("Couldn't reach Omnibus: ".toList ++ err)
  | some code =>
      if code = 401 then some removedMessage
      else if code ≠ 200 then some ("Omnibus answered HTTP ".toList ++ decimal code)
      else none

/-- Take the server's version of a highlight. The colour follows only where it is not the one
agreed on. -/
def takeServerVersion (server : Wire) (entry : Option Agreed) (item : Item) : Item :=
  let placed := server.pos0.isSome && server.pos1.isSome
  { item with
    note := server.note
    text := server.text
    color :=
      if server.color.isSome ∧ server.color ≠ entry.bind (·.serverColor) then server.color
      else item.color
    pos0 := if placed then server.pos0 else item.pos0
    pos1 := if placed then server.pos1 else item.pos1
    page := if placed ∧ item.page.isSome then server.pos0 else item.page }

def agree (fp : Text) (item : Item) (server : Wire) : Agreed :=
  ⟨fp, item.pos0, item.pos1, server.updatedAt, server.color, some (serverFingerprint server), false⟩

def newerOnServer (entry : Agreed) (wire : Wire) (updatedAt : Int) : Bool :=
  if (entry.serverAt.any fun at' => updatedAt < at') then false
  else entry.serverFp != some (serverFingerprint wire)

/-- The plugin's state while it syncs, with the answers it has settled and the listing pages it
has applied. -/
structure Sync where
  items : Items
  byId : Table Nat
  agreed : Table Agreed
  cursor : Option Text
  changed : Bool
  settled : List (List Upsert × List Answer)
  pages : List Listing

/-- The answer to an id: of several the last. -/
def answerFor (results : List Answer) (id : Text) : Option Answer :=
  (results.filter fun answer => answer.id = some id).getLast?

def settleUpsert (results : List Answer) (state : Sync) (up : Upsert) : Sync :=
  match answerFor results up.id, held state.items up.slot with
  | some ⟨_, .applied, some server⟩, some item =>
      { state with agreed := state.agreed.insert up.id (agree up.fp item server), changed := true }
  | some ⟨_, .stale, some server⟩, some item =>
      let entry := state.agreed.lookup up.id
      let taken := takeServerVersion server entry item
      { state with
        items := change state.items up.slot (takeServerVersion server entry)
        agreed := state.agreed.insert up.id (agree (fingerprint taken) taken server)
        changed := true }
  | some ⟨_, .stale, none⟩, some item =>
      { state with
        agreed := state.agreed.insert up.id
          ⟨up.fp, item.pos0, item.pos1, some up.wire.updatedAt, none, none, false⟩
        changed := true }
  | some ⟨_, .deleted, _⟩, _ =>
      { state with
        items := remove state.items up.slot
        byId := state.byId.erase up.id
        agreed := state.agreed.erase up.id
        changed := true }
  | some ⟨_, .unplaceable, _⟩, some item =>
      { state with
        agreed := state.agreed.insert up.id ⟨up.fp, item.pos0, item.pos1, none, none, none, true⟩
        changed := true }
  | _, _ => state

def settleResults (sent : List Upsert) (results : List Answer) (state : Sync) : Sync :=
  let settled := sent.foldl (settleUpsert results) state
  { settled with settled := settled.settled ++ [(sent, results)] }

/-- A request the server answered: its upserts are settled and its deletes done. -/
def settleBatch (sent : List Upsert) (results : List Answer) (gone : List Text) (state : Sync) :
    Sync :=
  let settled := settleResults sent results state
  { settled with
    agreed := forget settled.agreed gone, changed := settled.changed || !gone.isEmpty }

def pushBatch : ℕ+ := 500

def pushBytes : Nat := 512 * 1024

/-- The upserts within the byte cap, the first one whatever its size. -/
def takeWithin (encoded : Sent → Nat) : Nat → Bool → List Upsert → List Upsert
  | _, _, [] => []
  | size, some', up :: rest =>
      let bytes := encoded up.wire + 1
      if some' ∧ size + bytes > pushBytes then []
      else up :: takeWithin encoded (size + bytes) true rest

def takeUpserts (encoded : Sent → Nat) (ups : List Upsert) (maxItems : ℕ+) : List Upsert :=
  takeWithin encoded 0 false (ups.take maxItems)

theorem take_within_initial (encoded : Sent → Nat) (size : Nat) (some' : Bool)
    (ups : List Upsert) : takeWithin encoded size some' ups <+: ups := by
  induction ups generalizing size some' with
  | nil => exact List.prefix_rfl
  | cons up rest induction =>
      rw [takeWithin]
      split
      · exact List.nil_prefix
      · exact (List.prefix_cons_inj up).mpr (induction _ _)

theorem take_upserts_initial (encoded : Sent → Nat) (ups : List Upsert) (maxItems : ℕ+) :
    takeUpserts encoded ups maxItems <+: ups :=
  (take_within_initial encoded 0 false _).trans (List.take_prefix _ _)

theorem take_upserts_length (encoded : Sent → Nat) (ups : List Upsert) (maxItems : ℕ+) :
    (takeUpserts encoded ups maxItems).length ≤ maxItems :=
  (take_within_initial encoded 0 false _).length_le.trans (by simp)

theorem take_upserts_some (encoded : Sent → Nat) (ups : List Upsert) (maxItems : ℕ+)
    (some' : ups ≠ []) : 0 < (takeUpserts encoded ups maxItems).length := by
  obtain ⟨up, rest, rfl⟩ := List.exists_cons_of_ne_nil some'
  obtain ⟨bound, positive⟩ := Nat.exists_eq_succ_of_ne_zero maxItems.ne_zero
  simp [takeUpserts, positive, takeWithin]

def takeDeletes (upsertAlone : Bool) (dels : List Text) (maxItems : ℕ+) : List Text :=
  if upsertAlone then [] else dels.take maxItems

theorem take_deletes_length (upsertAlone : Bool) (dels : List Text) (maxItems : ℕ+) :
    (takeDeletes upsertAlone dels maxItems).length ≤ maxItems := by
  cases upsertAlone <;> simp [takeDeletes]

/-- What is left to push, halved requests and the attempt without a delete included. -/
def pushLeft (ups : List Upsert) (dels : List Text) (maxItems : ℕ+) (upsertAlone : Bool) : Nat :=
  3 * (ups.length + dels.length + maxItems) +
    (if upsertAlone then (if ups = [] then 2 else 0) else 1)

theorem push_left_drop (encoded : Sent → Nat) (ups : List Upsert) (dels : List Text)
    (maxItems : ℕ+) (upsertAlone : Bool) (left : ¬(ups = [] ∧ dels = [])) :
    pushLeft (ups.drop (takeUpserts encoded ups maxItems).length)
      (dels.drop (takeDeletes upsertAlone dels maxItems).length) maxItems false <
        pushLeft ups dels maxItems upsertAlone := by
  have positive := maxItems.pos
  have fits := (take_upserts_initial encoded ups maxItems).length_le
  simp only [pushLeft, List.length_drop, Bool.false_eq_true, if_false]
  by_cases waiting : ups = []
  · have some' : 0 < dels.length := List.length_pos_iff.mpr fun none => left ⟨waiting, none⟩
    cases upsertAlone with
    | true => simp [waiting, takeDeletes]
    | false =>
        simp only [takeDeletes, Bool.false_eq_true, if_false, List.length_take]
        omega
  · have progress := take_upserts_some encoded ups maxItems waiting
    split <;> omega

/-- How a push ended: the message for what did not land and whether to stop there. -/
structure Pushed where
  message : Option Text
  stop : Bool
  state : Sync

def tooLarge (id : Text) : Text :=
  "a highlight is too large for Omnibus to take (".toList ++ id ++ ")".toList

def joined (refused : List Text) : Option Text :=
  if refused = [] then none else some (List.intercalate "; ".toList refused)

/-- What `ipairs` raises over results that are no table; `guarded` logs it, and the sync is over. -/
def raised : Text := "bad argument to 'ipairs' (table expected)".toList

/-- Push the upserts and deletes that are left, `call` being the number of requests so far. -/
def push (deps : Deps) (maxItems : ℕ+) (upsertAlone : Bool) (call : Nat) (refused : List Text)
    (ups : List Upsert) (dels : List Text) (state : Sync) : Pushed :=
  if ended : ups = [] ∧ dels = [] then ⟨joined refused, false, state⟩
  else
    let sent := takeUpserts deps.encoded ups maxItems
    let gone := takeDeletes upsertAlone dels maxItems
    let posted := deps.post call
    if halve : posted.code = some 413 ∧ 1 < max sent.length gone.length then
      push deps ⟨(max sent.length gone.length + 1) / 2, by omega⟩ false (call + 1) refused
        ups dels state
    else if alone : posted.code = some 413 ∧ sent.length = 1 ∧ gone.length = 1 then
      -- A delete is only an id, so the highlight is tried without it.
      push deps maxItems true (call + 1) refused ups dels state
    else if posted.code = some 413 then
      let id := ((sent.head?.map (·.id)).or gone.head?).getD []
      push deps maxItems false (call + 1) (refused ++ [tooLarge id])
        (ups.drop sent.length) (dels.drop gone.length) state
    else
      match httpProblem posted.code posted.err with
      | some problem => ⟨some problem, posted.code = none ∨ posted.code = some 401, state⟩
      | none =>
          match posted.reply with
          | none => ⟨some "Omnibus sent a reply this plugin could not read".toList, false, state⟩
          | some results =>
              if sent ≠ [] ∧ results.answers = none then
                ⟨some "Omnibus sent a reply this plugin could not read".toList, false, state⟩
              else if results = .other then ⟨some raised, true, state⟩
              else
                push deps maxItems false (call + 1) refused
                  (ups.drop sent.length) (dels.drop gone.length)
                  (settleBatch sent (results.answers.getD []) gone state)
termination_by pushLeft ups dels maxItems upsertAlone
decreasing_by
  · have fits := take_upserts_length deps.encoded ups maxItems
    have short := take_deletes_length upsertAlone dels maxItems
    simp only [pushLeft, PNat.mk_coe, Bool.false_eq_true, if_false]
    have halved : (max sent.length gone.length + 1) / 2 < maxItems := by
      simp only [sent, gone] at halve ⊢
      omega
    omega
  · have waiting : ups ≠ [] := fun none => by simp [sent, none, takeUpserts, takeWithin] at alone
    cases upsertAlone with
    | true => simp [gone, takeDeletes] at alone
    | false => simp [pushLeft, waiting]
  · exact push_left_drop deps.encoded ups dels maxItems upsertAlone ended
  · exact push_left_drop deps.encoded ups dels maxItems upsertAlone ended

def deletedIds (listing : Listing) : List Text := listing.deleted.filterMap id

/-- One listed annotation; those without an id or a time, and those deleted by the same page,
are passed over. -/
def applyWire (add : Wire → Option Item) (gone : List Text) (state : Sync) (wire : Wire) : Sync :=
  match wire.id, wire.updatedAt with
  | some id, some updatedAt =>
      if id ∈ gone then state
      else
        match state.byId.lookup id, state.agreed.lookup id with
        | none, none =>
            match add wire with
            | none => state
            | some item =>
                { state with
                  items := state.items ++ [some item]
                  byId := state.byId.insert id state.items.length
                  agreed := state.agreed.insert id (agree (fingerprint item) item wire)
                  changed := true }
        | some slot, some entry =>
            match held state.items slot with
            | none => state
            | some item =>
                if newerOnServer entry wire updatedAt then
                  let taken := takeServerVersion wire (some entry) item
                  { state with
                    items := change state.items slot (takeServerVersion wire (some entry))
                    agreed := state.agreed.insert id (agree (fingerprint taken) taken wire)
                    changed := true }
                else state
        | _, _ => state
  | _, _ => state

def removeGone (state : Sync) (id : Text) : Sync :=
  let removed :=
    match state.byId.lookup id with
    | none => state
    | some slot =>
        { state with
          items := remove state.items slot, byId := state.byId.erase id, changed := true }
  match removed.agreed.lookup id with
  | none => removed
  | some _ => { removed with agreed := removed.agreed.erase id, changed := true }

def applyListing (add : Wire → Option Item) (annotations : List Wire) (listing : Listing)
    (state : Sync) : Sync :=
  let gone := deletedIds listing
  let removed := gone.foldl removeGone (annotations.foldl (applyWire add gone) state)
  let moved : Sync :=
    if listing.cursor.isSome ∧ listing.cursor ≠ removed.cursor then
      { removed with cursor := listing.cursor, changed := true }
    else removed
  { moved with pages := moved.pages ++ [listing] }

def maxPages : Nat := 20

/-- Read the listing pages until the server has no more, `left` of them at most. -/
def pull (deps : Deps) : Nat → Nat → Sync → Option Text × Sync
  | 0, _, state => (none, state)
  | left + 1, call, state =>
      let got := deps.get call
      match httpProblem got.code got.err with
      | some problem => (some problem, state)
      | none =>
          match got.listing.bind fun listing => listing.annotations.map (listing, ·) with
          | none => (some "Omnibus sent annotations this plugin could not read".toList, state)
          | some (listing, annotations) =>
              let applied := applyListing deps.add annotations listing state
              if listing.more then pull deps left (call + 1) applied else (none, applied)

/-- The device when the push begins: its state and what there is to push. -/
structure Opening where
  state : Sync
  ups : List Upsert
  dels : List Text

def opening (items : Items) (agreed : Table Agreed) (cursor : Option Text) (deps : Deps) :
    Opening :=
  let numbered := numberedHighlights items agreed deps.newId
  let list := highlights items
  let edited := stampEdits numbered.items list agreed deps.now
  let stamps := list.any fun slot => (held numbered.items slot).any (wantsStamp agreed)
  let forgot := departed numbered.byId agreed true
  { state :=
      ⟨edited, numbered.byId, forget agreed forgot, cursor,
        numbered.minted || stamps || !forgot.isEmpty, [], []⟩
    ups := upserts edited list agreed deps.parseDatetime
    dels := deletes numbered.byId agreed }

structure Result where
  ok : Bool
  message : Option Text
  state : Sync

/-- Reconcile the open book's highlights with the server: push, then pull. -/
def syncAnnotations (items : Items) (agreed : Table Agreed) (cursor : Option Text)
    (deps : Deps) : Result :=
  let start := opening items agreed cursor deps
  let pushed := push deps pushBatch false 0 [] start.ups start.dels start.state
  if pushed.stop then ⟨pushed.message.isNone, pushed.message, pushed.state⟩
  else
    let (problem, state) := pull deps maxPages 0 pushed.state
    let message := pushed.message.or problem
    ⟨message.isNone, message, state⟩

end Omnibus.Koreader
