import Mathlib.Data.List.Pairwise
import Mathlib.Data.Rat.Defs
import Omnibus.Library.Strings

/-!
# The outbox table

`OfflineStore.swift` keeps one row of `ops` for each mutation that is still to be replayed or
was held aside. Row ids come from an AUTOINCREMENT key: a new row's id is above every id the
table has ever given, also after the row with the highest id is gone.
-/

namespace Omnibus.Outbox

open Omnibus.Library.Strings

/-- A JSON value as far as the outbox looks into it. -/
inductive Value where
  | null
  | bool (value : Bool)
  | number (value : ℚ)
  | string (text : Text)
  | other (json : Text)
  deriving DecidableEq

abbrev Fields := List (Text × Value)

/-- The stored body: what `JSONSerialization` reads as an object, or any other bytes. -/
inductive Body where
  | object (fields : Fields)
  | other (bytes : Text)
  deriving DecidableEq

inductive Method where
  | post
  | put
  | patch
  | delete
  deriving DecidableEq

structure PendingOp where
  id : Nat
  kind : Text
  path : Text
  method : Method
  body : Option Body
  attempts : Nat
  lastError : Option Text
  deriving DecidableEq

def PendingOp.pending (op : PendingOp) : Bool := op.lastError.isNone

/-- What a row keeps while it is in the table. -/
def PendingOp.request (op : PendingOp) : Nat × Text × Text × Method × Option Body :=
  (op.id, op.kind, op.path, op.method, op.body)

theorem PendingOp.request_parts {first second : PendingOp}
    (same : first.request = second.request) :
    first.id = second.id ∧ first.kind = second.kind ∧ first.path = second.path ∧
      first.method = second.method ∧ first.body = second.body := by
  simpa [PendingOp.request] using same

namespace PatchCoalescing

def object : Option Body → Option Fields
  | some (.object fields) => some fields
  | _ => none

def merging (older newer : Fields) : Fields :=
  newer ++ older.filter fun field => newer.all fun other => other.1 ≠ field.1

def folded (older newer : Option Body) : Option Body := do
  let older ← object older
  let newer ← object newer
  some (.object (merging older newer))

theorem lookup_filter (fields : Fields) (keep : Text → Bool) (key : Text) (kept : keep key = true) :
    (fields.filter fun field => keep field.1).lookup key = fields.lookup key := by
  induction fields with
  | nil => rfl
  | cons field rest induction =>
      obtain ⟨name, value⟩ := field
      by_cases same : key = name
      · subst same
        simp [kept]
      · have other : (key == name) = false := beq_false_of_ne same
        cases keeps : keep name <;> simp [keeps, List.lookup_cons, other, induction]

theorem lookup_none_iff (fields : Fields) (key : Text) :
    fields.lookup key = none ↔ (fields.all fun field => decide (field.1 ≠ key)) = true := by
  rw [List.lookup_eq_none_iff, List.all_eq_true]
  apply forall₂_congr
  intro field _
  rw [decide_eq_true_eq, bne_iff_ne]
  exact ne_comm

/-- A merged object reads as the newer one, and as the older where the newer is silent. -/
theorem lookup_merging (older newer : Fields) (key : Text) :
    (merging older newer).lookup key = (newer.lookup key).or (older.lookup key) := by
  rw [merging, List.lookup_append]
  cases found : newer.lookup key with
  | some value => rfl
  | none =>
      have silent := (lookup_none_iff newer key).mp found
      rw [Option.none_or, Option.none_or]
      exact lookup_filter older (fun name => newer.all fun other => other.1 ≠ name) key silent

def Covers (carrier patch : Body) : Prop :=
  carrier = patch ∨ ∃ merged fields, carrier = .object merged ∧ patch = .object fields ∧
    ∀ key value, fields.lookup key = some value → merged.lookup key = some value

theorem Covers.trans {first second third : Body} (one : Covers first second)
    (two : Covers second third) : Covers first third := by
  obtain rfl | ⟨merged, middle, rfl, rfl, covers⟩ := one
  · exact two
  · obtain rfl | ⟨middle', fields, same, rfl, covers'⟩ := two
    · exact Or.inr ⟨merged, middle, rfl, rfl, covers⟩
    · obtain rfl := Body.object.inj same
      exact Or.inr ⟨merged, fields, rfl, rfl,
        fun key value found => covers key value (covers' key value found)⟩

theorem folded_cases (older newer : Option Body) (merged : Body)
    (folds : folded older newer = some merged) :
    ∃ old new, older = some (.object old) ∧ newer = some (.object new) ∧
      merged = .object (merging old new) := by
  simp only [folded, Option.bind_eq_bind, Option.bind_eq_some_iff, Option.some.injEq] at folds
  obtain ⟨old, isOld, new, isNew, rfl⟩ := folds
  have objectOf (body : Option Body) (fields : Fields) (read : object body = some fields) :
      body = some (.object fields) := by
    unfold object at read
    split at read
    · rw [Option.some.inj read]
    · cases read
  exact ⟨old, new, objectOf _ _ isOld, objectOf _ _ isNew, rfl⟩

theorem covers_folded (older : Option Body) (newer merged : Body)
    (folds : folded older (some newer) = some merged) : Covers merged newer := by
  obtain ⟨old, new, -, isNew, rfl⟩ := folded_cases older (some newer) merged folds
  obtain rfl := Option.some.inj isNew
  refine Or.inr ⟨_, new, rfl, rfl, ?_⟩
  intro key value found
  rw [lookup_merging, found, Option.some_or]

def starsKey : Text := "stars".toList

/-- What `as? NSNumber` takes of a JSON value. -/
def isNumber : Value → Bool
  | .number _ => true
  | .bool _ => true
  | _ => false

def legacyStars (method : Method) (body : Option Body) : Option Body :=
  match method with
  | .delete => some (.object [(starsKey, .null)])
  | .post => do
      let fields ← object body
      let value ← fields.lookup starsKey
      if isNumber value then some (.object [(starsKey, value)]) else none
  | _ => none

end PatchCoalescing

structure Ops where
  rows : List PendingOp
  seq : Nat
  ordered : rows.Pairwise fun first second => first.id < second.id
  given : ∀ row ∈ rows, 0 < row.id ∧ row.id ≤ seq
  deriving DecidableEq

namespace Ops

def empty : Ops := ⟨[], 0, List.Pairwise.nil, by simp⟩

def insert (ops : Ops) (kind path : Text) (method : Method) (body : Option Body) : Ops where
  rows := ops.rows ++ [⟨ops.seq + 1, kind, path, method, body, 0, none⟩]
  seq := ops.seq + 1
  ordered := by
    rw [List.pairwise_append]
    refine ⟨ops.ordered, List.pairwise_singleton _ _, ?_⟩
    intro row member new isNew
    rw [List.mem_singleton] at isNew
    subst isNew
    exact Nat.lt_succ_of_le (ops.given row member).2
  given := by
    intro row member
    rw [List.mem_append, List.mem_singleton] at member
    obtain old | rfl := member
    · exact ⟨(ops.given row old).1, Nat.le_succ_of_le (ops.given row old).2⟩
    · exact ⟨Nat.succ_pos _, Nat.le_refl _⟩

def deleteWhere (ops : Ops) (test : PendingOp → Bool) : Ops where
  rows := ops.rows.filter fun row => !test row
  seq := ops.seq
  ordered := ops.ordered.filter _
  given := fun row member => ops.given row (List.mem_of_mem_filter member)

/-- An UPDATE of the replay columns of the rows a test takes. -/
def mark (ops : Ops) (test : PendingOp → Bool) (attempts : Nat → Nat)
    (lastError : Option Text → Option Text) : Ops where
  rows := ops.rows.map fun row =>
    if test row then
      { row with attempts := attempts row.attempts, lastError := lastError row.lastError }
    else row
  seq := ops.seq
  ordered := by
    rw [List.pairwise_map]
    apply ops.ordered.imp
    intro first second less
    split <;> split <;> exact less
  given := by
    intro row member
    obtain ⟨old, isOld, rfl⟩ := List.mem_map.mp member
    split <;> exact ops.given old isOld

def deletePendingOps (ops : Ops) (kind : Text) : Ops :=
  ops.deleteWhere fun row => row.kind = kind && row.pending

def hasPendingOp (ops : Ops) (kind : Text) (method : Method) : Bool :=
  ops.rows.any fun row => row.kind = kind && row.method = method && row.pending

def newestPendingOp (ops : Ops) (kind : Text) : Option PendingOp :=
  (ops.rows.filter fun row => row.kind = kind && row.pending).getLast?

def deleteOps (ops : Ops) (ids : List Nat) : Ops := ops.deleteWhere fun row => ids.contains row.id

def maxOpId (ops : Ops) : Nat := (ops.rows.map (·.id)).foldr max 0

def listLimit : Nat := 200

def pendingUpTo (ops : Ops) (ceiling : Nat) : List PendingOp :=
  ops.rows.filter fun row => row.pending && decide (row.id ≤ ceiling)

def listOps (ops : Ops) (ceiling : Nat) : List PendingOp :=
  (ops.pendingUpTo ceiling).take listLimit

def hasRow (ops : Ops) (id : Nat) : Bool := ops.rows.any fun row => row.id = id

theorem has_row_iff (ops : Ops) (id : Nat) :
    ops.hasRow id = true ↔ ∃ row ∈ ops.rows, row.id = id := by
  simp [hasRow]

theorem row_unique (ops : Ops) (first second : PendingOp) (firstRow : first ∈ ops.rows)
    (secondRow : second ∈ ops.rows) (same : first.id = second.id) : first = second := by
  by_contra differ
  have apart : ops.rows.Pairwise fun a b => a.id ≠ b.id :=
    ops.ordered.imp fun less => Nat.ne_of_lt less
  have symmetric : Std.Symm fun (a b : PendingOp) => a.id ≠ b.id := ⟨fun _ _ => Ne.symm⟩
  exact apart.forall firstRow secondRow differ same

/-- Some rows of the given kinds are gone, and nothing else has changed. -/
def Cleared (before after : Ops) (kinds : List Text) : Prop :=
  after.seq = before.seq ∧ ∃ keep : PendingOp → Bool, after.rows = before.rows.filter keep ∧
    ∀ row ∈ before.rows, keep row = false → row.kind ∈ kinds

theorem Cleared.refl (ops : Ops) (kinds : List Text) : Cleared ops ops kinds := by
  refine ⟨rfl, fun _ => true, ?_, ?_⟩
  · rw [List.filter_true]
  · simp

theorem Cleared.trans {first second third : Ops} {kinds : List Text}
    (one : Cleared first second kinds) (two : Cleared second third kinds) :
    Cleared first third kinds := by
  obtain ⟨sameSeq, keepOne, rowsOne, goneOne⟩ := one
  obtain ⟨sameSeq', keepTwo, rowsTwo, goneTwo⟩ := two
  refine ⟨sameSeq'.trans sameSeq, fun row => keepOne row && keepTwo row, ?_, ?_⟩
  · rw [rowsTwo, rowsOne, List.filter_filter]
    apply List.filter_congr
    intro row _
    exact Bool.and_comm _ _
  · intro row member gone
    cases keptOne : keepOne row with
    | false => exact goneOne row member keptOne
    | true =>
        have keptTwo : keepTwo row = false := by simpa [keptOne] using gone
        apply goneTwo row _ keptTwo
        rw [rowsOne, List.mem_filter]
        exact ⟨member, keptOne⟩

theorem cleared_delete_where (ops : Ops) (test : PendingOp → Bool) (kinds : List Text)
    (within : ∀ row ∈ ops.rows, test row = true → row.kind ∈ kinds) :
    Cleared ops (ops.deleteWhere test) kinds := by
  refine ⟨rfl, fun row => !test row, rfl, ?_⟩
  intro row member gone
  exact within row member (by simpa using gone)

theorem cleared_delete_pending (ops : Ops) (kind : Text) (kinds : List Text)
    (among : kind ∈ kinds) : Cleared ops (ops.deletePendingOps kind) kinds := by
  apply cleared_delete_where
  intro row _ taken
  have same : row.kind = kind := by simpa using (Bool.and_eq_true_iff.mp taken).1
  exact same ▸ among

theorem newest_pending_mem (ops : Ops) (kind : Text) (op : PendingOp)
    (found : ops.newestPendingOp kind = some op) :
    op ∈ ops.rows ∧ op.kind = kind ∧ op.pending = true := by
  have member := List.mem_of_getLast? found
  simpa [and_assoc] using member

/-- The attempts after the UPDATE, 0 when the row is gone. -/
def noteOpAttempt (ops : Ops) (id : Nat) : Ops × Nat :=
  (ops.mark (fun row => row.id = id) (· + 1) (fun error => error),
    ((ops.rows.find? fun row => row.id = id).map fun row => row.attempts + 1).getD 0)

def noteOpFailure (ops : Ops) (id : Nat) (message : Text) : Ops :=
  ops.mark (fun row => row.id = id) (· + 1) fun _ => some message

/-- Whether a path names a token: `instr(path, token) > 0`. -/
def names (path token : Text) : Bool := path.tails.any fun tail => token.isPrefixOf tail

def failOpsReferencing (ops : Ops) (token : Text) (id : Nat) (message : Text) : Ops :=
  if token = [] then ops
  else
    ops.mark (fun row => decide (id < row.id) && row.pending && names row.path token)
      (fun attempts => attempts) fun _ => some message

def Marked (before after : Ops) : Prop :=
  after.seq = before.seq ∧ ∃ update : PendingOp → PendingOp,
    after.rows = before.rows.map update ∧
      ∀ row, (update row).request = row.request ∧
        (row.pending = false → (update row).pending = false)

theorem Marked.refl (ops : Ops) : Marked ops ops :=
  ⟨rfl, fun row => row, (List.map_id' _).symm, fun _ => ⟨rfl, fun held => held⟩⟩

theorem marked_mark (ops : Ops) (test : PendingOp → Bool) (attempts : Nat → Nat)
    (lastError : Option Text → Option Text)
    (holds : ∀ error, (lastError (some error)).isSome = true) :
    Marked ops (ops.mark test attempts lastError) := by
  refine ⟨rfl, _, rfl, ?_⟩
  intro row
  constructor
  · split <;> rfl
  · intro held
    split
    · cases found : row.lastError with
      | none => simp [PendingOp.pending, found] at held
      | some error =>
          have still := holds error
          simp only [PendingOp.pending]
          cases again : lastError (some error) with
          | none => simp [again] at still
          | some _ => rfl
    · exact held

theorem marked_note_attempt (ops : Ops) (id : Nat) : Marked ops (ops.noteOpAttempt id).1 :=
  ops.marked_mark _ _ _ fun _ => rfl

theorem marked_note_failure (ops : Ops) (id : Nat) (message : Text) :
    Marked ops (ops.noteOpFailure id message) :=
  ops.marked_mark _ _ _ fun _ => rfl

theorem marked_fail_referencing (ops : Ops) (token : Text) (id : Nat) (message : Text) :
    Marked ops (ops.failOpsReferencing token id message) := by
  unfold failOpsReferencing
  split
  · exact Marked.refl ops
  · exact ops.marked_mark _ _ _ fun _ => rfl

end Ops

/-- A mutation as `SyncEngine.write`, `record` and `writeFieldPatch` hand it over. -/
inductive Write where
  | whole (kind path : Text) (method : Method) (body : Option Body) (coalesce : Bool)
      (superseding : List Text)
  | fieldPatch (kind path : Text) (body : Body) (legacyStars : Option Text)
  deriving DecidableEq

def Write.kind : Write → Text
  | .whole kind _ _ _ _ _ => kind
  | .fieldPatch kind _ _ _ => kind

def Write.targets : Write → List Text
  | .whole kind _ _ _ _ superseding => kind :: superseding
  | .fieldPatch kind _ _ legacyStars => kind :: legacyStars.toList

def Write.carriedBy (op : PendingOp) : Write → Prop
  | .whole kind path method body _ _ =>
      op.kind = kind ∧ op.path = path ∧ op.method = method ∧ op.body = body
  | .fieldPatch kind path body _ =>
      op.kind = kind ∧ op.path = path ∧ op.method = .patch ∧
        ∃ carrier, op.body = some carrier ∧ PatchCoalescing.Covers carrier body

theorem Write.kind_of_carried (request : Write) (op : PendingOp) (carried : request.carriedBy op) :
    op.kind = request.kind := by
  cases request <;> exact carried.1

/-- The statement of a write's transaction that fails, if one does. -/
inductive Fault where
  | none
  | insert
  | commit
  deriving DecidableEq

/-- The database of a launch; `isOpen` is false when it could not be opened. -/
structure OfflineStore where
  isOpen : Bool
  ops : Ops
  deriving DecidableEq

namespace OfflineStore

/-- `insertOp`; a statement that fails answers 0. -/
def insertOp (ops : Ops) (fault : Fault) (kind path : Text) (method : Method)
    (body : Option Body) : Ops × Nat :=
  if fault = .insert then (ops, 0) else (ops.insert kind path method body, ops.seq + 1)

/-- COMMIT, or ROLLBACK to the table before the transaction when nothing was inserted. `exec` drops
the result of the statement, so a COMMIT that fails rolls back under the id of the insert. -/
def commit (before : Ops) (fault : Fault) (inserted : Ops × Nat) : Ops × Nat :=
  if inserted.2 = 0 then (before, 0)
  else if fault = .commit then (before, inserted.2)
  else inserted

/-- What the deletes of a coalescing or superseding write leave. -/
def cleared (ops : Ops) (kind : Text) (coalesce : Bool) (superseding : List Text) : Ops :=
  superseding.foldl Ops.deletePendingOps
    (if coalesce then ops.deleteWhere fun row => row.kind = kind else ops)

def enqueue (store : OfflineStore) (fault : Fault) (kind path : Text) (method : Method)
    (body : Option Body) (coalesce : Bool) (superseding : List Text) : OfflineStore × Nat :=
  if !store.isOpen then (store, 0)
  else if !coalesce && superseding.isEmpty then
    let inserted := insertOp store.ops fault kind path method body
    ({ store with ops := inserted.1 }, inserted.2)
  else
    let inserted := commit store.ops fault
      (insertOp (cleared store.ops kind coalesce superseding) fault kind path method body)
    ({ store with ops := inserted.1 }, inserted.2)

/-- The newest pending op of the kind, when the patch folds into it. -/
def foldedNewest (ops : Ops) (kind path : Text) (body : Body) : Option (PendingOp × Body) := do
  let pending ← ops.newestPendingOp kind
  if pending.method = .patch ∧ pending.path = path then
    let merged ← PatchCoalescing.folded pending.body (some body)
    some (pending, merged)
  else none

def foldPending (ops : Ops) (kind path : Text) (body : Body) : Ops × Body :=
  match foldedNewest ops kind path body with
  | some (pending, merged) => (ops.deleteOps [pending.id], merged)
  | none => (ops, body)

/-- The pending ops of the legacy kind go; their newest stars come in underneath, unless a
queued DELETE moots them. -/
def foldLegacy (ops : Ops) (kind : Text) (merged : Body) (legacyStars : Option Text) :
    Ops × Body :=
  match legacyStars.bind fun legacyKind =>
    (ops.newestPendingOp legacyKind).map fun legacy => (legacyKind, legacy) with
  | none => (ops, merged)
  | some (legacyKind, legacy) =>
      let left := ops.deletePendingOps legacyKind
      if left.hasPendingOp kind .delete then (left, merged)
      else
        match PatchCoalescing.legacyStars legacy.method legacy.body with
        | none => (left, merged)
        | some stars =>
            (left, (PatchCoalescing.folded (some stars) (some merged)).getD merged)

def enqueueFieldPatch (store : OfflineStore) (fault : Fault) (kind path : Text) (body : Body)
    (legacyStars : Option Text) : OfflineStore × Nat :=
  if !store.isOpen then (store, 0)
  else
    let pending := foldPending store.ops kind path body
    let legacy := foldLegacy pending.1 kind pending.2 legacyStars
    let inserted := commit store.ops fault
      (insertOp legacy.1 fault kind path .patch (some legacy.2))
    ({ store with ops := inserted.1 }, inserted.2)

def queue (store : OfflineStore) (fault : Fault) : Write → OfflineStore × Nat
  | .whole kind path method body coalesce superseding =>
      store.enqueue fault kind path method body coalesce superseding
  | .fieldPatch kind path body legacyStars =>
      store.enqueueFieldPatch fault kind path body legacyStars

/-- What a write's transaction does: nothing, or one new pending row at the end of the table
after some rows of the write's own kinds are gone. -/
structure Inserted (before after : OfflineStore) (id : Nat) (request : Write) : Prop where
  fresh : id = before.ops.seq + 1
  seq : after.ops.seq = id
  sameOpen : after.isOpen = before.isOpen
  opened : before.isOpen = true
  rows : ∃ left new, Ops.Cleared before.ops left request.targets ∧
    after.ops.rows = left.rows ++ [new] ∧ new.id = id ∧ request.carriedBy new ∧
      new.lastError = none

theorem commit_insert_op (before left : Ops) (fault : Fault) (kind path : Text)
    (method : Method) (body : Option Body) (kinds : List Text)
    (clearing : Ops.Cleared before left kinds) :
    (∃ id, commit before fault (insertOp left fault kind path method body) = (before, id) ∧
      (id = 0 ∨ id = before.seq + 1) ∧ fault ≠ .none) ∨
      ∃ after, commit before fault (insertOp left fault kind path method body) =
        (after, before.seq + 1) ∧ after.seq = before.seq + 1 ∧
        after.rows = left.rows ++ [⟨before.seq + 1, kind, path, method, body, 0, none⟩] := by
  cases fault with
  | insert => exact Or.inl ⟨0, rfl, Or.inl rfl, by decide⟩
  | commit =>
      refine Or.inl ⟨before.seq + 1, ?_, Or.inr rfl, by decide⟩
      simp [commit, insertOp, clearing.1]
  | none =>
      refine Or.inr ⟨left.insert kind path method body, ?_, ?_, ?_⟩
      · simp [commit, insertOp, clearing.1]
      · rw [← clearing.1]
        rfl
      · rw [← clearing.1]
        rfl

theorem cleared_of_superseding (ops : Ops) (superseding kinds : List Text)
    (among : ∀ kind ∈ superseding, kind ∈ kinds) :
    Ops.Cleared ops (superseding.foldl Ops.deletePendingOps ops) kinds := by
  induction superseding generalizing ops with
  | nil => exact Ops.Cleared.refl ops kinds
  | cons kind rest induction =>
      apply Ops.Cleared.trans
      · exact ops.cleared_delete_pending kind kinds (among kind List.mem_cons_self)
      · exact induction _ fun other member => among other (List.mem_cons_of_mem _ member)

theorem cleared_cleared (ops : Ops) (kind : Text) (coalesce : Bool) (superseding : List Text) :
    Ops.Cleared ops (cleared ops kind coalesce superseding) (kind :: superseding) := by
  have later := fun left => cleared_of_superseding left superseding (kind :: superseding)
    fun other member => List.mem_cons_of_mem _ member
  cases coalesce with
  | false => exact later ops
  | true =>
      refine Ops.Cleared.trans (ops.cleared_delete_where _ _ ?_) (later _)
      intro row _ same
      simp only [decide_eq_true_eq] at same
      simp [same]

theorem cleared_fold_pending (ops : Ops) (kind path : Text) (body : Body) (kinds : List Text) :
    Ops.Cleared ops (foldPending ops kind path body).1 (kind :: kinds) := by
  simp only [foldPending]
  cases found : foldedNewest ops kind path body with
  | none => exact Ops.Cleared.refl _ _
  | some taken =>
      obtain ⟨pending, merged⟩ := taken
      simp only [foldedNewest, Option.bind_eq_bind, Option.bind_eq_some_iff] at found
      obtain ⟨newest, isNewest, rest⟩ := found
      have same : newest = pending := by
        split at rest
        · simp only [Option.bind_eq_some_iff, Option.some.injEq, Prod.mk.injEq] at rest
          obtain ⟨_, _, same, _⟩ := rest
          exact same
        · cases rest
      subst same
      obtain ⟨member, sameKind, -⟩ := ops.newest_pending_mem kind newest isNewest
      apply ops.cleared_delete_where
      intro row isRow taken
      have sameId : row.id = newest.id := by simpa using taken
      rw [ops.row_unique row newest isRow member sameId, sameKind]
      exact List.mem_cons_self

theorem cleared_fold_legacy (ops : Ops) (kind : Text) (merged : Body)
    (legacyStars : Option Text) :
    Ops.Cleared ops (foldLegacy ops kind merged legacyStars).1 (kind :: legacyStars.toList) := by
  simp only [foldLegacy]
  cases legacyStars with
  | none => exact Ops.Cleared.refl _ _
  | some legacyKind =>
      have clearing := ops.cleared_delete_pending legacyKind (kind :: [legacyKind]) (by simp)
      cases found : ops.newestPendingOp legacyKind with
      | none => simpa [found] using Ops.Cleared.refl ops _
      | some legacy =>
          simp only [Option.bind_some, found, Option.map_some, Option.toList_some]
          split
          · exact clearing
          · split <;> exact clearing

theorem covers_fold_pending (ops : Ops) (kind path : Text) (body : Body) :
    PatchCoalescing.Covers (foldPending ops kind path body).2 body := by
  simp only [foldPending]
  cases found : foldedNewest ops kind path body with
  | none => exact Or.inl rfl
  | some taken =>
      simp only [foldedNewest, Option.bind_eq_bind, Option.bind_eq_some_iff] at found
      obtain ⟨newest, -, rest⟩ := found
      split at rest
      · simp only [Option.bind_eq_some_iff, Option.some.injEq] at rest
        obtain ⟨merged, folds, rfl⟩ := rest
        exact PatchCoalescing.covers_folded _ _ _ folds
      · cases rest

theorem covers_fold_legacy (ops : Ops) (kind : Text) (merged : Body)
    (legacyStars : Option Text) :
    PatchCoalescing.Covers (foldLegacy ops kind merged legacyStars).2 merged := by
  simp only [foldLegacy]
  split
  · exact Or.inl rfl
  · split
    · exact Or.inl rfl
    · split
      · exact Or.inl rfl
      · rename_i stars _
        cases folds : PatchCoalescing.folded (some stars) (some merged) with
        | none => exact Or.inl rfl
        | some beneath => exact PatchCoalescing.covers_folded _ _ _ folds

theorem queue_cases (store : OfflineStore) (fault : Fault) (request : Write) :
    (∃ id, store.queue fault request = (store, id) ∧ (id = 0 ∨ id = store.ops.seq + 1) ∧
        (store.isOpen = false ∨ fault ≠ .none)) ∨
      Inserted store (store.queue fault request).1 (store.queue fault request).2 request := by
  obtain ⟨isOpen, ops⟩ := store
  cases isOpen with
  | false =>
      apply Or.inl
      cases request <;> exact ⟨0, rfl, Or.inl rfl, Or.inl rfl⟩
  | true =>
      have inserted (left : Ops) (path : Text) (method : Method) (body : Option Body)
          (clearing : Ops.Cleared ops left request.targets)
          (carried : request.carriedBy
            ⟨ops.seq + 1, request.kind, path, method, body, 0, none⟩) :
          let done := commit ops fault (insertOp left fault request.kind path method body)
          (∃ id, done = (ops, id) ∧ (id = 0 ∨ id = ops.seq + 1) ∧ fault ≠ .none) ∨
            Inserted ⟨true, ops⟩ ⟨true, done.1⟩ done.2 request := by
        obtain nothing | ⟨after, done, seq, rows⟩ := commit_insert_op ops left fault
          request.kind path method body request.targets clearing
        · exact Or.inl nothing
        · rw [done]
          exact Or.inr ⟨rfl, seq, rfl, rfl, left, _, clearing, rows, rfl, carried, rfl⟩
      cases request with
      | whole kind path method body coalesce superseding =>
          cases plain : !coalesce && superseding.isEmpty with
          | true =>
              -- no transaction, so nothing to commit
              simp only [queue, enqueue, plain, Bool.not_true, Bool.false_eq_true, if_false, if_true]
              cases fault with
              | insert => exact Or.inl ⟨0, rfl, Or.inl rfl, Or.inr (by decide)⟩
              | commit | none =>
                  exact Or.inr ⟨rfl, rfl, rfl, rfl, ops, _, Ops.Cleared.refl _ _, rfl, rfl,
                    ⟨rfl, rfl, rfl, rfl⟩, rfl⟩
          | false =>
              simp only [queue, enqueue, plain, Bool.not_true, Bool.false_eq_true, if_false]
              obtain ⟨id, nothing, given, failed⟩ | done := inserted _ path method body
                (cleared_cleared ops kind coalesce superseding) ⟨rfl, rfl, rfl, rfl⟩
              · exact Or.inl
                  ⟨id, by rw [Write.kind] at nothing; rw [nothing], given, Or.inr failed⟩
              · exact Or.inr done
      | fieldPatch kind path body legacyStars =>
          simp only [queue, enqueueFieldPatch, Bool.not_true, Bool.false_eq_true, if_false]
          obtain ⟨id, nothing, given, failed⟩ | done := inserted _ path .patch _
            ((cleared_fold_pending ops kind path body legacyStars.toList).trans
              (cleared_fold_legacy _ kind (foldPending ops kind path body).2 legacyStars))
            ⟨rfl, rfl, rfl, _, rfl, (covers_fold_legacy _ kind _ legacyStars).trans
              (covers_fold_pending ops kind path body)⟩
          · exact Or.inl ⟨id, by rw [Write.kind] at nothing; rw [nothing], given, Or.inr failed⟩
          · exact Or.inr done

def hasOp (store : OfflineStore) (queryFails : Bool) (id : Nat) : Bool :=
  store.isOpen && decide (id ≠ 0) && !queryFails && store.ops.hasRow id

def maxOpId (store : OfflineStore) : Nat := if store.isOpen then store.ops.maxOpId else 0

def listOps (store : OfflineStore) (ceiling : Nat) : List PendingOp :=
  if store.isOpen then store.ops.listOps ceiling else []

end OfflineStore

end Omnibus.Outbox
