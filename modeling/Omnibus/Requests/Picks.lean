import Omnibus.Requests.Store

/-!
# What a statement does to a request

A row is read as it stands, or as it would stand if its cancel were taken back. A download on the
removal list is one whose pick can never be the request's again.
-/

namespace Omnibus.Requests

open Omnibus.Library.Strings Omnibus.Library.Tables Omnibus.Library.Runs

theorem decimal_injective {first second : Nat} (same : decimal first = decimal second) :
    first = second := by
  have exact (value : Nat) : Nat.ofDigitChars 10 (decimal value) 0 = value :=
    Nat.ofDigitChars_ten_toDigits
  rw [← exact first, same, exact second]

theorem tag_of_injective {id other pick pick' : Nat} (same : tagOf id pick = tagOf other pick') :
    id = other ∧ pick = pick' := by
  have dash (value : Nat) : '-' ∉ decimal value := not_mem_decimal value '-' (by decide)
  have parts := congrArg (splitOnce '-') (List.append_cancel_left same)
  rw [split_once_append _ _ _ (dash id), split_once_append _ _ _ (dash other), Option.some.injEq,
    Prod.mk.injEq] at parts
  exact ⟨decimal_injective parts.1, decimal_injective parts.2⟩

/-- The state the row is in, or would be back in if its cancel were taken back. -/
def RequestRow.effective (row : RequestRow) : RequestState :=
  if row.state = .cancelled then
    if row.cancelAt.isSome then row.priorState.getD .cancelled else .cancelled
  else row.state

def RequestRow.picked (row : RequestRow) : Prop :=
  row.effective = .chosen ∨ row.effective = .onItsWay ∨ row.effective = .ready ∨
    row.effective = .stuck ∧ (row.stuckReason = some .stoppedMoving ∨
      row.stuckReason = some .couldntAdd)

def Offered (results : Table ResultRow) (id pick : Nat) : Prop :=
  ∃ result, results.get pick = some result ∧ result.requestId = id ∧ result.rejected = false

structure Sound (results : Table ResultRow) (id : Nat) (row : RequestRow) : Prop where
  prior : row.state ≠ .cancelled →
    row.priorState = none ∧ row.cancelAt = none ∧ row.cancelledBy = none
  before : ∀ prior, row.priorState = some prior → prior.live = true
  unpicked : row.effective ≠ .cancelled → ¬row.picked →
    row.chosenResultId = none ∧ row.clientTag = none
  picked : row.picked → ∃ pick, row.chosenResultId = some pick ∧ Offered results id pick
  tagged : ∀ tag, row.clientTag = some tag →
    ∃ pick, row.chosenResultId = some pick ∧ tag = tagOf id pick ∧ pick ≤ results.seq
  apart : ∀ tag, row.clientTag = some tag → row.removeTag ≠ some tag
  removing : ∀ tag, row.removeTag = some tag → ∃ dead, tag = tagOf id dead ∧
    dead ≤ results.seq ∧ (row.effective = .cancelled ∨
      ¬Offered results id dead ∧ row.chosenResultId ≠ some dead)

/-- The row as it would be restored, whichever book it is moved to and whatever is removed. -/
def RequestRow.aside (row : RequestRow) : RequestRow :=
  { row with
    state := row.effective, cancelAt := none, cancelledBy := none, priorState := none,
    removeTag := none, bookUuid := [] }

structure Goes (results after : Table ResultRow) (id : Nat) (row next : RequestRow) : Prop where
  sound : Sound after id next
  aside : row.state = .cancelled → next.effective = .cancelled ∨ next.aside = row.aside
  ended : row.effective = .cancelled → next.effective = .cancelled
  lost : ∀ pick, row.clientTag = some (tagOf id pick) →
    next.clientTag = some (tagOf id pick) ∨ next.effective = .cancelled ∨ ¬Offered after id pick
  gained : ∀ pick, next.clientTag = some (tagOf id pick) →
    row.clientTag = some (tagOf id pick) ∨ row.effective ≠ .cancelled ∧ Offered results id pick

attribute [local grind] RequestRow.effective RequestRow.picked RequestRow.aside RequestState.live
  RequestRow.downloading RequestRow.stuckOn

attribute [local grind =] Option.any_none

section Rows

variable {results after : Table ResultRow} {id : Nat} {row next : RequestRow}

theorem Offered.le {pick : Nat} (offered : Offered results id pick) : pick ≤ results.seq := by
  obtain ⟨result, found, _⟩ := offered
  exact Table.get_le found

attribute [local grind →] Offered.le tag_of_injective

/-- A statement that keeps the pick and both tags, and whether a version is picked. -/
theorem Sound.keeps_pick (sound : Sound results id row)
    (prior : next.state ≠ .cancelled →
      next.priorState = none ∧ next.cancelAt = none ∧ next.cancelledBy = none)
    (before : ∀ prior, next.priorState = some prior → prior.live = true)
    (tags : next.chosenResultId = row.chosenResultId ∧ next.clientTag = row.clientTag ∧
      next.removeTag = row.removeTag)
    (picked : next.picked ↔ row.picked)
    (ended : next.effective = .cancelled ↔ row.effective = .cancelled)
    (aside : row.state = .cancelled → next.effective = .cancelled ∨ next.aside = row.aside) :
    Goes results results id row next := by
  obtain ⟨pick, client, removing⟩ := tags
  refine ⟨⟨prior, before, ?_, ?_, ?_, ?_, ?_⟩, aside, ended.mpr, ?_, ?_⟩
  · rw [pick, client, ne_eq, ended, picked]
    exact sound.unpicked
  · rw [pick, picked]
    exact sound.picked
  · rw [pick, client]
    exact sound.tagged
  · rw [client, removing]
    exact sound.apart
  · rw [pick, removing, ended]
    exact sound.removing
  · intro pick held
    exact Or.inl (client.trans held)
  · intro pick held
    exact Or.inl (client.symm.trans held)

theorem effective_of_open (stands : row.state ≠ .cancelled) : row.effective = row.state :=
  if_neg stands

theorem Sound.keeps_state (sound : Sound results id row)
    (prior : next.state ≠ .cancelled →
      next.priorState = none ∧ next.cancelAt = none ∧ next.cancelledBy = none)
    (before : ∀ prior, next.priorState = some prior → prior.live = true)
    (tags : next.chosenResultId = row.chosenResultId ∧ next.clientTag = row.clientTag ∧
      next.removeTag = row.removeTag)
    (reason : next.stuckReason = row.stuckReason) (same : next.effective = row.effective)
    (aside : row.state = .cancelled → next.aside = row.aside) :
    Goes results results id row next :=
  sound.keeps_pick prior before tags (by rw [RequestRow.picked, RequestRow.picked, same, reason])
    (by rw [same]) fun stands => Or.inr (aside stands)

theorem Sound.keeps_picked (sound : Sound results id row) (was : row.picked) (is : next.picked)
    (stood : row.state ≠ .cancelled) (stands : next.state ≠ .cancelled)
    (cancels : next.priorState = row.priorState ∧ next.cancelAt = row.cancelAt ∧
      next.cancelledBy = row.cancelledBy)
    (tags : next.chosenResultId = row.chosenResultId ∧ next.clientTag = row.clientTag ∧
      next.removeTag = row.removeTag) : Goes results results id row next := by
  obtain ⟨prior, due, canceller⟩ := cancels
  refine sound.keeps_pick (fun _ => ?_) ?_ tags (iff_of_true is was) ?_
    fun cancelled => absurd cancelled stood
  · rw [prior, due, canceller]
    exact sound.prior stood
  · rw [prior]
    exact sound.before
  · rw [effective_of_open stands, effective_of_open stood]
    exact iff_of_false stands stood

theorem Sound.cancels {canceller now : Int} (sound : Sound results id row)
    (done : Requests.cancel row canceller now = some next) :
    Goes results results id row next := by
  rw [Requests.cancel] at done
  split_ifs at done with stands
  obtain rfl := Option.some.inj done
  have live : row.state.live = true := by grind
  have stood : row.state ≠ .cancelled := by grind
  refine sound.keeps_state (fun open' => absurd rfl open') ?_ ⟨rfl, rfl, rfl⟩ rfl ?_
    fun cancelled => absurd cancelled stood
  · intro prior isPrior
    exact Option.some.inj isPrior ▸ live
  · rw [effective_of_open stood]
    rfl

theorem Sound.undoes {now : Int} (sound : Sound results id row)
    (done : Requests.undoCancel row now = some next) : Goes results results id row next := by
  rw [Requests.undoCancel] at done
  cases isPrior : row.priorState with
  | none =>
      rw [isPrior] at done
      cases done
  | some prior =>
      rw [isPrior] at done
      dsimp only at done
      split_ifs at done with stands
      obtain rfl := Option.some.inj done
      have due : row.cancelAt.isSome = true := by
        obtain ⟨at_, isAt, _⟩ := (Option.any_eq_true ..).mp stands.2
        simp [isAt]
      have live := sound.before prior isPrior
      have open' : prior ≠ .cancelled := by grind
      have was : row.effective = prior := by
        rw [RequestRow.effective, if_pos stands.1, if_pos due, isPrior]
        rfl
      have restored : RequestRow.effective { row with
          state := prior, priorState := none, cancelledBy := none, cancelAt := none } = prior :=
        if_neg open'
      refine sound.keeps_state (fun _ => ⟨rfl, rfl, rfl⟩) (by simp) ⟨rfl, rfl, rfl⟩ rfl
        (restored.trans was.symm) fun _ => ?_
      simp only [RequestRow.aside, restored, was]

theorem Sound.imports (sound : Sound results id row) (done : importAgain row = some next) :
    Goes results results id row next := by
  rw [importAgain] at done
  split_ifs at done with stuck
  obtain rfl := Option.some.inj done
  have stood : row.state ≠ .cancelled := by grind
  exact sound.keeps_picked (by grind) (Or.inr (Or.inl rfl)) stood (by simp) ⟨rfl, rfl, rfl⟩
    ⟨rfl, rfl, rfl⟩

theorem Sound.sets_off {now : Int} (sound : Sound results id row)
    (done : Requests.markOnItsWay row now = some next) : Goes results results id row next := by
  rw [Requests.markOnItsWay] at done
  split_ifs at done with chosen
  obtain rfl := Option.some.inj done
  have stood : row.state ≠ .cancelled := by grind
  exact sound.keeps_picked (by grind) (Or.inr (Or.inl rfl)) stood (by simp) ⟨rfl, rfl, rfl⟩
    ⟨rfl, rfl, rfl⟩

theorem picked_of_state (state : row.state = .chosen ∨ row.state = .onItsWay ∨ row.state = .ready) :
    row.state ≠ .cancelled ∧ row.picked := by
  have stands : row.state ≠ .cancelled := by
    rcases state with state | state | state <;> simp [state]
  refine ⟨stands, ?_⟩
  rw [RequestRow.picked, effective_of_open stands]
  tauto

/-- A verdict takes a picked request to a picked state, and touches neither pick nor tags. -/
theorem Sound.marks {chosen : Option Nat} {verdict : Verdict} (sound : Sound results id row)
    (done : Requests.mark row chosen verdict = some next) : Goes results results id row next := by
  unfold Requests.mark at done
  split at done
  · cases done
  cases verdict with
  | ready =>
      dsimp only at done
      split_ifs at done with moving
      obtain rfl := Option.some.inj done
      obtain ⟨stood, was⟩ := picked_of_state (Or.inr (Or.inl moving))
      exact sound.keeps_picked was (picked_of_state (Or.inr (Or.inr rfl))).2 stood (by simp)
        ⟨rfl, rfl, rfl⟩ ⟨rfl, rfl, rfl⟩
  | progress reached movedAt =>
      dsimp only at done
      split_ifs at done with moving
      obtain rfl := Option.some.inj done
      exact sound.keeps_state sound.prior sound.before ⟨rfl, rfl, rfl⟩ rfl rfl fun cancelled =>
        absurd cancelled (picked_of_state (Or.inr (Or.inl moving))).1
  | placed importKey =>
      dsimp only at done
      split_ifs at done with moving
      obtain rfl := Option.some.inj done
      exact sound.keeps_state sound.prior sound.before ⟨rfl, rfl, rfl⟩ rfl rfl fun cancelled =>
        absurd cancelled (picked_of_state (Or.inr (Or.inl moving))).1
  | stoppedMoving detail =>
      dsimp only at done
      split_ifs at done with going
      obtain rfl := Option.some.inj done
      obtain ⟨stood, was⟩ := picked_of_state (going.imp_right Or.inl)
      exact sound.keeps_picked was (Or.inr (Or.inr (Or.inr ⟨rfl, Or.inl rfl⟩))) stood (by simp)
        ⟨rfl, rfl, rfl⟩ ⟨rfl, rfl, rfl⟩
  | couldntAdd detail =>
      dsimp only at done
      split_ifs at done with going
      obtain rfl := Option.some.inj done
      obtain ⟨stood, was⟩ := picked_of_state (going.imp_right Or.inl)
      exact sound.keeps_picked was (Or.inr (Or.inr (Or.inr ⟨rfl, Or.inr rfl⟩))) stood (by simp)
        ⟨rfl, rfl, rfl⟩ ⟨rfl, rfl, rfl⟩

theorem Sound.retargets (one : Option Nat) (source target : Text) (sound : Sound results id row) :
    Goes results results id row (Store.retarget one source target id row) := by
  rw [Store.retarget]
  split
  · exact sound.keeps_state sound.prior sound.before ⟨rfl, rfl, rfl⟩ rfl rfl fun _ => rfl
  · exact sound.keeps_state sound.prior sound.before ⟨rfl, rfl, rfl⟩ rfl rfl fun _ => rfl

theorem Sound.claims (now : Int) (sound : Sound results id row) :
    Goes results results id row (claimDueCancel row now) := by
  rw [claimDueCancel]
  split_ifs with due
  · have cancelled : row.state = .cancelled := by
      by_contra open'
      simp [(sound.prior open').2.1] at due
    have final : RequestRow.effective { row with
        removeTag := row.clientTag.or row.removeTag, clientTag := none, cancelAt := none } =
          .cancelled := by
      rw [RequestRow.effective, if_pos cancelled]
      rfl
    refine ⟨⟨fun open' => absurd cancelled open', sound.before, fun open' => absurd final open', ?_,
      by simp, by simp, ?_⟩, fun _ => Or.inl final, fun _ => final,
      fun _ _ => Or.inr (Or.inl final), by simp⟩
    · intro picked
      simp [RequestRow.picked, final] at picked
    · intro tag removes
      have one : row.clientTag = some tag ∨ row.removeTag = some tag := by grind
      rcases one with live | removing
      · obtain ⟨pick, _, rfl, known⟩ := sound.tagged tag live
        exact ⟨pick, rfl, known, Or.inl final⟩
      · obtain ⟨dead, rfl, known, _⟩ := sound.removing tag removing
        exact ⟨dead, rfl, known, Or.inl final⟩
  · exact sound.keeps_state sound.prior sound.before ⟨rfl, rfl, rfl⟩ rfl rfl fun _ => rfl

theorem Sound.finishes {tag : Text} (sound : Sound results id row)
    (done : Requests.finishRemoval row tag = some next) : Goes results results id row next := by
  rw [Requests.finishRemoval] at done
  split_ifs at done with removes
  obtain rfl := Option.some.inj done
  exact ⟨⟨sound.prior, sound.before, sound.unpicked, sound.picked, sound.tagged, by simp, by simp⟩,
    fun _ => Or.inr rfl, fun ended => ended, fun _ held => Or.inl held, fun _ held => Or.inl held⟩

theorem begin_download_some (done : Requests.beginDownload row id = some next) :
    ∃ pick, row.chosenResultId = some pick ∧ row.state = .chosen ∧
      next = { row with clientTag := some (tagOf id pick) } := by
  grind [Requests.beginDownload]

theorem Sound.begins (sound : Sound results id row)
    (done : Requests.beginDownload row id = some next) : Goes results results id row next := by
  obtain ⟨pick, isPick, chosen, rfl⟩ := begin_download_some done
  obtain ⟨stood, picked⟩ := picked_of_state (Or.inl chosen)
  have isChosen : row.effective = .chosen := (effective_of_open stood).trans chosen
  obtain ⟨own, isOwn, offered⟩ := sound.picked picked
  obtain rfl : own = pick := Option.some.inj (isOwn.symm.trans isPick)
  refine ⟨⟨sound.prior, sound.before, fun _ unpicked => absurd picked unpicked, sound.picked, ?_,
    ?_, sound.removing⟩, fun cancelled => absurd cancelled stood, fun ended => ended, ?_, ?_⟩
  · intro tag isTag
    exact ⟨own, isPick, (Option.some.inj isTag).symm, offered.le⟩
  · intro tag isTag removes
    obtain ⟨dead, same, _, ended | gone⟩ := sound.removing tag removes
    · rw [isChosen] at ended
      cases ended
    · have one := tag_of_injective ((Option.some.inj isTag).trans same)
      exact gone.2 (one.2 ▸ isPick)
  · intro other held
    obtain ⟨tagged, isTagged, same, _⟩ := sound.tagged _ held
    obtain rfl : tagged = own := Option.some.inj (isTagged.symm.trans isPick)
    exact Or.inl (congrArg some same.symm)
  · intro other held
    have one := tag_of_injective (Option.some.inj held)
    exact Or.inr ⟨by simp [isChosen], one.2 ▸ offered⟩

/-- A statement on one row that leaves the versions alone. -/
inductive Statement where
  | cancel (canceller now : Int)
  | undoCancel (now : Int)
  | importAgain
  | claim (now : Int)
  | finishRemoval (tag : Text)
  | beginDownload
  | markOnItsWay (now : Int)
  | mark (chosen : Option Nat) (verdict : Verdict)
  | retarget (one : Option Nat) (source target : Text)

def Statement.change (statement : Statement) (id : Nat) (row : RequestRow) : Option RequestRow :=
  match statement with
  | .cancel canceller now => Requests.cancel row canceller now
  | .undoCancel now => Requests.undoCancel row now
  | .importAgain => Requests.importAgain row
  | .claim now => some (claimDueCancel row now)
  | .finishRemoval tag => Requests.finishRemoval row tag
  | .beginDownload => Requests.beginDownload row id
  | .markOnItsWay now => Requests.markOnItsWay row now
  | .mark chosen verdict => Requests.mark row chosen verdict
  | .retarget one source target => some (Store.retarget one source target id row)

theorem Sound.goes (statement : Statement) (sound : Sound results id row)
    (done : statement.change id row = some next) : Goes results results id row next := by
  cases statement with
  | cancel canceller now => exact sound.cancels done
  | undoCancel now => exact sound.undoes done
  | importAgain => exact sound.imports done
  | claim now => exact Option.some.inj done ▸ sound.claims now
  | finishRemoval tag => exact sound.finishes done
  | beginDownload => exact sound.begins done
  | markOnItsWay now => exact sound.sets_off done
  | mark chosen verdict => exact sound.marks done
  | retarget one source target => exact Option.some.inj done ▸ sound.retargets one source target

theorem Sound.idle (sound : Sound results id row) (stood : row.state ≠ .cancelled)
    (unpicked : ¬row.picked) : row.chosenResultId = none ∧ row.clientTag = none :=
  sound.unpicked ((effective_of_open stood).trans_ne stood) unpicked

theorem Sound.choose {pick : Nat} (sound : Sound results id row)
    (offered : Offered results id pick) (done : Requests.choose row pick = some next) :
    Goes results results id row next := by
  rw [Requests.choose] at done
  split_ifs at done with choosing
  obtain rfl := Option.some.inj done
  have stood : row.state ≠ .cancelled := by simp [choosing]
  have final := (effective_of_open stood).trans_ne stood
  obtain ⟨-, noTag⟩ := sound.idle stood (by grind)
  refine ⟨⟨fun _ => sound.prior stood, sound.before,
    fun _ unpicked => absurd (Or.inl rfl) unpicked, fun _ => ⟨pick, rfl, offered⟩,
    by simp [noTag], sound.apart, ?_⟩, fun cancelled => absurd cancelled stood,
    fun ended => absurd ended final, fun _ held => Or.inl held, fun _ held => Or.inl held⟩
  intro tag removes
  obtain ⟨dead, isDead, known, ended | gone⟩ := sound.removing tag removes
  · exact absurd ended final
  · exact ⟨dead, isDead, known, Or.inr
      ⟨gone.1, fun same => gone.1 (Option.some.inj same ▸ offered)⟩⟩

/-- No version given up comes back. -/
structure Ages (results after : Table ResultRow) (id : Nat) : Prop where
  withdrawn : ∀ pick, pick ≤ results.seq → Offered after id pick → Offered results id pick
  grown : results.seq ≤ after.seq

/-- Nor is a version given up that is offered. -/
structure Keeps (results after : Table ResultRow) (id : Nat) : Prop extends
    Ages results after id where
  offered : ∀ pick, Offered results id pick → Offered after id pick

theorem Sound.stays (sound : Sound results id row) (keeps : Keeps results after id) :
    Goes results after id row row := by
  refine ⟨⟨sound.prior, sound.before, sound.unpicked, ?_, ?_, sound.apart, ?_⟩,
    fun _ => Or.inr rfl, fun ended => ended, fun _ held => Or.inl held, fun _ held => Or.inl held⟩
  · intro picked
    obtain ⟨pick, isPick, offered⟩ := sound.picked picked
    exact ⟨pick, isPick, keeps.offered pick offered⟩
  · intro tag isTag
    obtain ⟨pick, isPick, isTagOf, known⟩ := sound.tagged tag isTag
    exact ⟨pick, isPick, isTagOf, known.trans keeps.grown⟩
  · intro tag removes
    obtain ⟨dead, isDead, known, ended | gone⟩ := sound.removing tag removes
    · exact ⟨dead, isDead, known.trans keeps.grown, Or.inl ended⟩
    · exact ⟨dead, isDead, known.trans keeps.grown, Or.inr
        ⟨fun offered => gone.1 (keeps.withdrawn dead known offered), gone.2⟩⟩

theorem Sound.drops {now : Int} (sound : Sound results id row) (grown : results.seq ≤ after.seq)
    (done : drop row now = some next) : Goes results after id row next := by
  rw [drop] at done
  split_ifs at done
  obtain rfl := Option.some.inj done
  have final : RequestRow.effective { row with
      state := .cancelled, priorState := none, cancelAt := some now } = .cancelled := rfl
  refine ⟨⟨fun open' => absurd rfl open', by simp, fun open' => absurd final open',
    by simp [RequestRow.picked, final], ?_, sound.apart, ?_⟩, fun _ => Or.inl final,
    fun _ => final, fun _ held => Or.inl held, fun _ held => Or.inl held⟩
  · intro tag isTag
    obtain ⟨pick, isPick, isTagOf, known⟩ := sound.tagged tag isTag
    exact ⟨pick, isPick, isTagOf, known.trans grown⟩
  · intro tag removes
    obtain ⟨dead, isDead, known, -⟩ := sound.removing tag removes
    exact ⟨dead, isDead, known.trans grown, Or.inl final⟩

/-- A statement after which no version is picked removes at most the download in hand. -/
theorem Sound.unpicks (sound : Sound results id row) (ages : Ages results after id)
    (stood : row.state ≠ .cancelled)
    (cancels : next.priorState = row.priorState ∧ next.cancelAt = row.cancelAt ∧
      next.cancelledBy = row.cancelledBy)
    (unpicked : ¬next.picked) (idle : next.chosenResultId = none ∧ next.clientTag = none)
    (removing : ∀ tag, next.removeTag = some tag →
      row.removeTag = some tag ∨ row.clientTag = some tag)
    (given : ∀ pick, row.clientTag = some (tagOf id pick) → ¬Offered after id pick) :
    Goes results after id row next := by
  obtain ⟨prior, due, canceller⟩ := cancels
  obtain ⟨noPick, noTag⟩ := idle
  have final := (effective_of_open stood).trans_ne stood
  refine ⟨⟨?_, ?_, fun _ _ => ⟨noPick, noTag⟩, fun picked => absurd picked unpicked,
    by simp [noTag], by simp [noTag], ?_⟩, fun cancelled => absurd cancelled stood,
    fun ended => absurd ended final, fun pick held => Or.inr (Or.inr (given pick held)),
    by simp [noTag]⟩
  · rw [prior, due, canceller]
    exact fun _ => sound.prior stood
  · rw [prior]
    exact sound.before
  · intro tag removes
    rcases removing tag removes with was | live
    · obtain ⟨dead, isDead, known, ended | gone⟩ := sound.removing tag was
      · exact absurd ended final
      · exact ⟨dead, isDead, known.trans ages.grown, Or.inr
          ⟨fun offered => gone.1 (ages.withdrawn dead known offered), by simp [noPick]⟩⟩
    · obtain ⟨pick, -, rfl, known⟩ := sound.tagged tag live
      exact ⟨pick, rfl, known.trans ages.grown, Or.inr ⟨given pick live, by simp [noPick]⟩⟩

theorem Sound.settles {outcome : SearchOutcome} (sound : Sound results id row)
    (ages : Ages results after id) (done : settleSearch row outcome = some next) :
    Goes results after id row next := by
  have looking : row.state = .looking := by cases outcome <;> grind [settleSearch]
  have stood : row.state ≠ .cancelled := by simp [looking]
  have idle := sound.idle stood (by grind)
  have untagged (pick : Nat) (held : row.clientTag = some (tagOf id pick)) :
      ¬Offered after id pick := by simp [idle.2] at held
  cases outcome
  all_goals
    rw [settleSearch, if_pos looking, Option.some.injEq] at done
    subst done
    exact sound.unpicks ages stood ⟨rfl, rfl, rfl⟩ (by grind) idle (fun _ => Or.inl) untagged

theorem Sound.searches (sound : Sound results id row) (ages : Ages results after id)
    (moving : row.stuckOn .stoppedMoving = false) (adding : row.stuckOn .couldntAdd = false)
    (done : searchAgain row = some next) : Goes results after id row next := by
  rw [searchAgain] at done
  split_ifs at done with waits
  obtain rfl := Option.some.inj done
  have stood : row.state ≠ .cancelled := by grind
  have idle := sound.idle stood (by grind)
  exact sound.unpicks ages stood ⟨rfl, rfl, rfl⟩ (by grind) idle (fun _ => Or.inl)
    (by simp [idle.2])

theorem Sound.swaps {kept : Bool} {note : Option Text} (sound : Sound results id row)
    (ages : Ages results after id)
    (given : ∀ pick, row.chosenResultId = some pick → ¬Offered after id pick)
    (done : swap row kept note = some next) : Goes results after id row next := by
  simp only [swap, Option.ite_none_right_eq_some, Option.some.injEq] at done
  obtain ⟨going, rfl⟩ := done
  have stood : row.state ≠ .cancelled := by grind
  refine sound.unpicks ages stood ⟨rfl, rfl, rfl⟩ (by grind) ⟨rfl, rfl⟩ (fun _ => Or.inr)
    fun pick held => ?_
  obtain ⟨own, isOwn, same, -⟩ := sound.tagged _ held
  exact given pick ((tag_of_injective same).2 ▸ isOwn)

end Rows

/-! ## The versions -/

section Results

variable {results : Table ResultRow} {id : Nat}

theorem keeps_alter {change : Nat → ResultRow → Option ResultRow}
    (spares : ∀ pick result, results.get pick = some result → result.requestId = id →
      change pick result = some result)
    (owners : ∀ pick result after, change pick result = some after →
      after.requestId = result.requestId) : Keeps results (results.alter change) id where
  withdrawn := by
    rintro pick _ ⟨after, found, own, kept⟩
    obtain ⟨result, present, changes⟩ := Option.bind_eq_some_iff.mp found
    rw [spares pick result present (owners pick result after changes ▸ own)] at changes
    exact ⟨after, present.trans changes, own, kept⟩
  grown := Nat.le_refl _
  offered := by
    rintro pick ⟨result, found, own, kept⟩
    refine ⟨result, ?_, own, kept⟩
    exact Option.bind_eq_some_iff.mpr ⟨result, found, spares pick result found own⟩

theorem ages_alter {change : Nat → ResultRow → Option ResultRow}
    (same : ∀ pick result after, change pick result = some after →
      after.requestId = result.requestId ∧ (after.rejected = false → result.rejected = false)) :
    Ages results (results.alter change) id where
  withdrawn := by
    rintro pick _ ⟨after, found, own, kept⟩
    obtain ⟨result, present, changes⟩ := Option.bind_eq_some_iff.mp found
    obtain ⟨owner, given⟩ := same pick result after changes
    exact ⟨result, present, owner ▸ own, given kept⟩
  grown := Nat.le_refl _

theorem keeps_insert (result : ResultRow) : Keeps results (results.insert result) id := by
  have old {pick : Nat} (known : pick ≤ results.seq) :
      (results.insert result).get pick = results.get pick :=
    if_neg (Nat.ne_of_lt (Nat.lt_succ_of_le known))
  refine ⟨⟨?_, Nat.le_succ _⟩, ?_⟩
  · rintro pick known ⟨found, isFound, own⟩
    exact ⟨found, (old known).symm.trans isFound, own⟩
  · rintro pick ⟨found, isFound, own⟩
    exact ⟨found, (old (Table.get_le isFound)).trans isFound, own⟩

theorem Keeps.ages {first second third : Table ResultRow} (two : Keeps second third id)
    (one : Ages first second id) : Ages first third id :=
  ⟨fun pick known given => one.withdrawn pick known
      (two.withdrawn pick (Nat.le_trans known one.grown) given),
    Nat.le_trans one.grown two.grown⟩

theorem Keeps.after {first second third : Table ResultRow} (two : Keeps second third id)
    (one : Keeps first second id) : Keeps first third id :=
  ⟨two.ages one.toAges, fun pick given => two.offered pick (one.offered pick given)⟩

theorem Keeps.refl (results : Table ResultRow) (id : Nat) : Keeps results results id :=
  ⟨⟨fun _ _ given => given, Nat.le_refl _⟩, fun _ given => given⟩

theorem keeps_recorded (owner : Nat) (ranked : List Ranked) (results : Table ResultRow) :
    Keeps results (ranked.foldl (fun results result =>
      results.insert { result with requestId := owner }) results) id := by
  induction ranked generalizing results with
  | nil => exact Keeps.refl results id
  | cons result rest induction => exact (induction _).after (keeps_insert _)

end Results

/-! ## The statements -/

def Well (store : Store) : Prop :=
  ∀ id row, store.requests.get id = some row → Sound store.results id row

/-- No key is given twice, and each row is new or one that was there. -/
structure Moves (store next : Store) : Prop where
  keys : store.requests.seq ≤ next.requests.seq
  ages : ∀ id, Ages store.results next.results id
  rows : ∀ id after, next.requests.get id = some after →
    (store.requests.seq < id ∧ Sound next.results id after) ∨
      ∃ row, store.requests.get id = some row ∧ Goes store.results next.results id row after

section Statements

variable {store next : Store}

theorem moves_modify {id : Nat} {results : Table ResultRow}
    {change : RequestRow → Option RequestRow} (well : Well store)
    (changed : store.modify id results change = some next)
    (keeps : ∀ other, other ≠ id → Keeps store.results results other)
    (ages : Ages store.results results id)
    (goes : ∀ row after, store.requests.get id = some row → Sound store.results id row →
      change row = some after → Goes store.results results id row after) : Moves store next := by
  obtain ⟨after, isAfter, rfl⟩ := Option.map_eq_some_iff.mp changed
  obtain ⟨row, found, changes⟩ := Option.bind_eq_some_iff.mp isAfter
  refine ⟨Nat.le_refl _, fun other => ?_, fun other present isPresent => Or.inr ?_⟩
  · by_cases same : other = id
    · exact same ▸ ages
    · exact (keeps other same).toAges
  · obtain ⟨before, isBefore, isNext⟩ := Option.bind_eq_some_iff.mp isPresent
    refine ⟨before, isBefore, ?_⟩
    dsimp only at isNext
    split_ifs at isNext with same
    · subst same
      rw [← Option.some.inj isNext, Option.some.inj (isBefore.symm.trans found)]
      exact goes row after found (well _ row found) changes
    · rw [← Option.some.inj isNext]
      exact (well other before isBefore).stays (keeps other same)

theorem moves_same {id : Nat} {change : RequestRow → Option RequestRow} (well : Well store)
    (changed : store.modify id store.results change = some next)
    (goes : ∀ row after, Sound store.results id row → change row = some after →
      Goes store.results store.results id row after) : Moves store next :=
  moves_modify well changed (fun other _ => Keeps.refl _ other) (Keeps.refl _ id).toAges
    fun row after _ => goes row after

theorem moves_one {id : Nat} (statement : Statement) (well : Well store)
    (changed : store.modify id store.results (statement.change id) = some next) :
    Moves store next :=
  moves_same well changed fun _ _ sound done => sound.goes statement done

theorem moves_each {change : Nat → RequestRow → RequestRow} (well : Well store)
    (goes : ∀ id row, Sound store.results id row →
      Goes store.results store.results id row (change id row)) :
    Moves store (store.each change) := by
  refine ⟨Nat.le_refl _, fun id => (Keeps.refl _ id).toAges, fun id after found => Or.inr ?_⟩
  obtain ⟨row, present, isAfter⟩ := Option.bind_eq_some_iff.mp found
  rw [← Option.some.inj isAfter]
  exact ⟨row, present, goes id row (well id row present)⟩

theorem moves_cascade {change : Nat → RequestRow → Option RequestRow} (well : Well store)
    (goes : ∀ results id row after, Sound store.results id row → Keeps store.results results id →
      change id row = some after → Goes store.results results id row after) :
    Moves store (store.cascade (store.requests.alter change)) := by
  refine ⟨Nat.le_refl _, fun id => ages_alter (by grind), fun id after found => Or.inr ?_⟩
  obtain ⟨row, present, changes⟩ := Option.bind_eq_some_iff.mp found
  have there : ((store.requests.alter change).get id).isSome = true :=
    Option.isSome_of_eq_some found
  exact ⟨row, present, goes _ id row after (well id row present)
    (keeps_alter (by grind) (by grind)) changes⟩

theorem swap_picked {results : Table ResultRow} {id : Nat} {row next : RequestRow} {kept : Bool}
    {note : Option Text} (sound : Sound results id row) (done : swap row kept note = some next) :
    ∃ pick, row.chosenResultId = some pick ∧ Offered results id pick := by
  have := sound.prior
  exact sound.picked (by grind [swap])

theorem moves_swap {id : Nat} {note : Option Text} (well : Well store)
    (swapped : store.swap id note = some next) : Moves store next := by
  refine moves_modify well swapped (fun other apart => ?_) (ages_alter (by grind))
    fun row after found sound done => sound.swaps (ages_alter (by grind)) ?_ done
  · obtain ⟨_, isAfter, _⟩ := Option.map_eq_some_iff.mp swapped
    obtain ⟨row, found, done⟩ := Option.bind_eq_some_iff.mp isAfter
    obtain ⟨own, isOwn, result, isResult, owned, _⟩ := swap_picked (well id row found) done
    rw [found, Option.bind_some, isOwn]
    exact keeps_alter (by grind) (by grind)
  · rintro pick isPick ⟨result, isResult, _, kept⟩
    rw [Store.reject, found, Option.bind_some, isPick] at isResult
    obtain ⟨before, _, changed⟩ := Option.bind_eq_some_iff.mp isResult
    grind

theorem well_recorded (id : Nat) (outcome : SearchOutcome) (other : Nat) :
    Ages store.results (store.recorded id outcome) other ∧
      (other ≠ id → Keeps store.results (store.recorded id outcome) other) := by
  cases outcome with
  | found ranked =>
      have inserted := @keeps_recorded other id ranked (store.results.alter fun _ old =>
        if old.requestId = id ∧ ¬old.tried then none else some old)
      exact ⟨inserted.ages (ages_alter (by grind)), fun apart =>
        inserted.after (keeps_alter (by grind) (by grind))⟩
  | _ => exact ⟨(Keeps.refl _ other).toAges, fun _ => Keeps.refl _ other⟩

theorem if_room_some {maxLive : Nat} {change : RequestRow → Option RequestRow}
    {row after : RequestRow} (done : store.ifRoom maxLive change row = some after) :
    change row = some after := by
  rw [Store.ifRoom] at done
  split_ifs at done
  exact done

theorem moves_if_room {id maxLive : Nat} (statement : Statement) (well : Well store)
    (changed : store.modify id store.results (store.ifRoom maxLive (statement.change id)) =
      some next) : Moves store next :=
  moves_same well changed fun _ _ sound done => sound.goes statement (if_room_some done)

theorem moves_step {act : Act} (well : Well store) (stepped : store.step act = some next) :
    Moves store next := by
  cases act with
  | start userId bookUuid kind maxLive =>
      rw [Store.step, Store.start] at stepped
      split_ifs at stepped
      obtain rfl := Option.some.inj stepped
      refine ⟨Nat.le_succ _, fun id => (Keeps.refl _ id).toAges, fun id after found => ?_⟩
      rw [Table.insert] at found
      dsimp only at found
      split_ifs at found with new
      · refine Or.inl ⟨new ▸ Nat.lt_succ_self _, ?_⟩
        rw [← Option.some.inj found]
        constructor <;> grind
      · exact Or.inr ⟨after, found, (well id after found).stays (Keeps.refl _ id)⟩
  | finishSearch id outcome =>
      refine moves_modify well stepped (fun other apart => (well_recorded id _ other).2 apart)
        (well_recorded id _ id).1 fun row after _ sound done =>
          sound.settles (well_recorded id _ id).1 done
  | swap id note => exact moves_swap well stepped
  | restart id maxLive =>
      rw [Store.step, Store.restart] at stepped
      split_ifs at stepped with moving adding
      · exact moves_swap well stepped
      · exact moves_if_room .importAgain well stepped
      · refine moves_modify well stepped (fun other apart => keeps_alter (by grind) (by grind))
          (ages_alter (by grind)) fun row after found sound done => ?_
        exact sound.searches (ages_alter (by grind)) (by grind) (by grind) done
  | choose id pick =>
      rw [Store.step, Store.choose] at stepped
      split_ifs at stepped with offered
      obtain ⟨result, found, kept⟩ := (Option.any_eq_true ..).mp offered
      have own : Offered store.results id pick := ⟨result, found, by grind, by grind⟩
      exact moves_same well stepped fun row after sound done => sound.choose own done
  | cancel id canceller now => exact moves_one (.cancel canceller now) well stepped
  | undoCancel id now maxLive =>
      exact moves_if_room (.undoCancel now) well stepped
  | claimDueCancels now =>
      obtain rfl := Option.some.inj stepped
      exact moves_each well fun _ _ sound => sound.goes (.claim now) rfl
  | finishRemoval id tag => exact moves_one (.finishRemoval tag) well stepped
  | beginDownload id => exact moves_one .beginDownload well stepped
  | markOnItsWay id now => exact moves_one (.markOnItsWay now) well stepped
  | mark id chosen verdict => exact moves_one (.mark chosen verdict) well stepped
  | dropRequests bookUuid now =>
      obtain rfl := Option.some.inj stepped
      refine moves_cascade well fun results id row after sound keeps done => ?_
      split_ifs at done
      · exact sound.drops keeps.grown done
      · exact Option.some.inj done ▸ sound.stays keeps
  | deleteUser userId =>
      obtain rfl := Option.some.inj stepped
      refine moves_cascade well fun results id row after sound keeps done => ?_
      split_ifs at done
      exact Option.some.inj done ▸ sound.stays keeps
  | retarget one source target =>
      obtain rfl := Option.some.inj stepped
      exact moves_each well fun _ _ sound => sound.goes (.retarget one source target) rfl

theorem Moves.well (moves : Moves store next) : Well next := by
  intro id after found
  rcases moves.rows id after found with ⟨_, sound⟩ | ⟨_, _, goes⟩
  · exact sound
  · exact goes.sound

/-- The store after these statements, in any order of the parties. -/
abbrev after (statements : List Act) : Option Store := run Store.step {} statements

theorem well_after {statements : List Act} (ran : after statements = some store) : Well store :=
  run_preserves Store.step (fun _ _ _ well stepped => (moves_step well stepped).well) statements
    (fun _ _ found => by cases found) ran

/-- A fact of a request's row that concerns one of its versions, both given once. -/
structure Lasts (fact : Table ResultRow → RequestRow → Prop) (id pick : Nat) (store : Store) :
    Prop where
  request : id ≤ store.requests.seq
  version : pick ≤ store.results.seq
  holds : ∀ row, store.requests.get id = some row → fact store.results row

section Lasting

variable {id pick : Nat} {fact : Table ResultRow → RequestRow → Prop}

theorem Moves.lasts (moves : Moves store next) (lasts : Lasts fact id pick store)
    (keeps : ∀ row after, store.requests.get id = some row →
      (Offered next.results id pick → Offered store.results id pick) →
        Goes store.results next.results id row after → fact store.results row →
          fact next.results after) : Lasts fact id pick next := by
  refine ⟨Nat.le_trans lasts.request moves.keys, Nat.le_trans lasts.version (moves.ages id).grown,
    fun after found => ?_⟩
  rcases moves.rows id after found with ⟨new, _⟩ | ⟨row, present, goes⟩
  · exact absurd lasts.request (Nat.not_le_of_lt new)
  · exact keeps row after present ((moves.ages id).withdrawn pick lasts.version) goes
      (lasts.holds row present)

theorem run_lasts {more : List Act} (well : Well store) (lasts : Lasts fact id pick store)
    (keeps : ∀ results after row next, (Offered after id pick → Offered results id pick) →
      Goes results after id row next → fact results row → fact after next)
    (ran : run Store.step store more = some next) : Well next ∧ Lasts fact id pick next :=
  @run_preserves _ _ Store.step (fun store => Well store ∧ Lasts fact id pick store)
    (fun _ _ _ holds stepped =>
      have moves := moves_step holds.1 stepped
      ⟨moves.well, moves.lasts holds.2 fun row after _ => keeps _ _ row after⟩)
    _ _ more ⟨well, lasts⟩ ran

end Lasting

def sampleBegun : List Act :=
  [.start 1 ['b'] .ebook 5, .finishSearch 1 (.found [⟨['g'], false⟩, ⟨['h'], false⟩]),
    .choose 1 1, .beginDownload 1, .markOnItsWay 1 0]

/-- A download that is to be taken out of the client is no request's ever again. -/
theorem removed_never_again {statements more : List Act} {id other : Nat} {tag : Text}
    {row later : RequestRow} (ran : after statements = some store)
    (found : store.requests.get id = some row) (removes : row.removeTag = some tag)
    (ranMore : run Store.step store more = some next)
    (foundLater : next.requests.get other = some later) : later.clientTag ≠ some tag := by
  have well := well_after ran
  have sound := well id row found
  obtain ⟨dead, rfl, known, given⟩ := sound.removing tag removes
  obtain ⟨wellNext, gone⟩ := @run_lasts store next id dead (fun results row =>
      row.clientTag ≠ some (tagOf id dead) ∧
        (row.effective = .cancelled ∨ ¬Offered results id dead)) more well
    ⟨Table.get_le found, known, fun present isPresent => by
      have tagged := sound.tagged
      have apart := sound.apart
      grind⟩
    (fun _ _ _ _ withdrawn goes gone => by
      have ended := goes.ended
      have gained := goes.gained dead
      grind) ranMore
  intro held
  obtain ⟨_, _, named, _⟩ := (wellNext other later foundLater).tagged _ held
  obtain ⟨rfl, _⟩ := tag_of_injective named
  exact (gone.holds later foundLater).1 held

theorem removed_never_again_sample :
    ∃ store next row later, after (sampleBegun ++ [.swap 1 none]) = some store ∧
      store.requests.get 1 = some row ∧ row.removeTag = some (tagOf 1 1) ∧
      run Store.step store [.choose 1 2, .beginDownload 1] = some next ∧
      next.requests.get 1 = some later ∧ later.clientTag ≠ some (tagOf 1 1) := by
  refine ⟨_, _, _, _, rfl, rfl, rfl, rfl, rfl, ?_⟩
  apply @removed_never_again _ _ (sampleBegun ++ [.swap 1 none]) [.choose 1 2, .beginDownload 1] 1 1
  all_goals rfl

/-- A verdict on a download lands on the request only while that is still its download. -/
theorem verdict_on_own_download {statements more : List Act} {id : Nat} {tag : Text}
    {row later : RequestRow} {verdict : Verdict} {marked : Store}
    (ran : after statements = some store) (found : store.requests.get id = some row)
    (asked : row.clientTag = some tag) (ranMore : run Store.step store more = some next)
    (foundLater : next.requests.get id = some later)
    (lands : next.step (.mark id row.chosenResultId verdict) = some marked) :
    later.clientTag = some tag := by
  have well := well_after ran
  obtain ⟨pick, isPick, rfl, known⟩ := (well id row found).tagged tag asked
  obtain ⟨wellNext, begun⟩ := @run_lasts store next id pick (fun results row =>
      row.effective = .cancelled ∨ row.clientTag = some (tagOf id pick) ∨ ¬Offered results id pick)
    more well ⟨Table.get_le found, known, fun present isPresent => by grind⟩
    (fun _ _ _ _ withdrawn goes held => by
      have ended := goes.ended
      have lost := goes.lost pick
      grind) ranMore
  obtain ⟨_, isAfter, _⟩ := Option.map_eq_some_iff.mp lands
  obtain ⟨current, isCurrent, done⟩ := Option.bind_eq_some_iff.mp isAfter
  have held := begun.holds later foundLater
  have sound := wellNext id later foundLater
  have picked := sound.picked
  have prior := sound.prior
  cases verdict <;> grind [mark]

theorem verdict_on_own_download_sample :
    ∃ store next marked row later, after sampleBegun = some store ∧
      store.requests.get 1 = some row ∧ row.clientTag = some (tagOf 1 1) ∧
      run Store.step store [.cancel 1 1 0, .undoCancel 1 5 9] = some next ∧
      next.requests.get 1 = some later ∧
      next.step (.mark 1 row.chosenResultId .ready) = some marked ∧
        later.clientTag = some (tagOf 1 1) := by
  refine ⟨_, _, _, _, _, rfl, rfl, rfl, rfl, rfl, rfl, ?_⟩
  apply @verdict_on_own_download _ _ sampleBegun [.cancel 1 1 0, .undoCancel 1 5 9] 1 _ _ _ .ready
  all_goals rfl

/-- A version given up is never to be picked again. -/
def GivenUpRejected (results : Table ResultRow) : Prop :=
  ∀ pick result, results.get pick = some result → result.tried = true → result.rejected = true

theorem rejected_alter {results : Table ResultRow} {change : Nat → ResultRow → Option ResultRow}
    (given : GivenUpRejected results)
    (keeps : ∀ pick result after, change pick result = some after → after.tried = true →
      after = result ∨ after.rejected = true) : GivenUpRejected (results.alter change) := by
  intro pick after found tried
  obtain ⟨result, present, changed⟩ := Option.bind_eq_some_iff.mp found
  rcases keeps pick result after changed tried with rfl | rejected
  · exact given pick after present tried
  · exact rejected

theorem rejected_inserted {owner : Nat} {ranked : List Ranked} {results : Table ResultRow}
    (given : GivenUpRejected results) : GivenUpRejected (ranked.foldl (fun results result =>
      results.insert { result with requestId := owner }) results) := by
  induction ranked generalizing results with
  | nil => exact given
  | cons result rest induction =>
      apply induction
      intro pick after found tried
      simp only [Table.insert] at found
      split_ifs at found
      · rw [← Option.some.inj found] at tried
        cases tried
      · exact given pick after found tried

theorem rejected_reject (pick : Option Nat) (given : GivenUpRejected store.results) :
    GivenUpRejected (store.reject pick) :=
  rejected_alter given (by grind)

theorem rejected_modify {id : Nat} {results : Table ResultRow}
    {change : RequestRow → Option RequestRow} (given : GivenUpRejected results)
    (changed : store.modify id results change = some next) : GivenUpRejected next.results := by
  obtain ⟨_, _, rfl⟩ := Option.map_eq_some_iff.mp changed
  exact given

theorem rejected_step {act : Act} (given : GivenUpRejected store.results)
    (stepped : store.step act = some next) : GivenUpRejected next.results := by
  cases act with
  | start =>
      rw [Store.step, Store.start] at stepped
      split_ifs at stepped
      rw [← Option.some.inj stepped]
      exact given
  | finishSearch id outcome =>
      refine rejected_modify ?_ stepped
      cases store.withoutGivenUp id outcome with
      | found ranked => exact rejected_inserted (rejected_alter given (by grind))
      | _ => exact given
  | swap => exact rejected_modify (rejected_reject _ given) stepped
  | restart id maxLive =>
      rw [Store.step, Store.restart] at stepped
      split_ifs at stepped
      · exact rejected_modify (rejected_reject _ given) stepped
      · exact rejected_modify given stepped
      · exact rejected_modify (rejected_alter given (by grind)) stepped
  | choose =>
      rw [Store.step, Store.choose] at stepped
      split_ifs at stepped
      exact rejected_modify given stepped
  | claimDueCancels | retarget =>
      rw [← Option.some.inj stepped]
      exact given
  | dropRequests | deleteUser =>
      rw [← Option.some.inj stepped]
      exact rejected_alter given (by grind)
  | _ => exact rejected_modify given stepped

/-- A picked request has picked a version of its own that was not given up, and its download is
that pick's. -/
theorem picked_version_offered {statements : List Act} {id : Nat} {row : RequestRow}
    (ran : after statements = some store) (found : store.requests.get id = some row)
    (picked : row.state = .chosen ∨ row.state = .onItsWay ∨ row.state = .ready) :
    ∃ pick, row.chosenResultId = some pick ∧ Offered store.results id pick ∧
      (∀ result, store.results.get pick = some result → result.tried = false) ∧
        ∀ tag, row.clientTag = some tag → tag = tagOf id pick := by
  have sound := well_after ran id row found
  have given : GivenUpRejected store.results :=
    run_preserves Store.step (fun _ _ _ given stepped => rejected_step given stepped) statements
      (fun _ _ found => by cases found) ran
  obtain ⟨pick, isPick, offered⟩ := sound.picked (picked_of_state picked).2
  have tagged := sound.tagged
  refine ⟨pick, isPick, offered, fun result isResult => ?_, by grind⟩
  obtain ⟨own, isOwn, _, kept⟩ := offered
  obtain rfl := Option.some.inj (isOwn.symm.trans isResult)
  rw [← Bool.not_eq_true]
  intro tried
  rw [given pick own isOwn tried] at kept
  cases kept

theorem picked_version_offered_sample :
    ∃ store row, after sampleBegun = some store ∧ store.requests.get 1 = some row ∧
      ∃ pick, row.chosenResultId = some pick ∧ Offered store.results 1 pick ∧
        (∀ result, store.results.get pick = some result → result.tried = false) ∧
          ∀ tag, row.clientTag = some tag → tag = tagOf 1 pick := by
  refine ⟨_, _, rfl, rfl, ?_⟩
  exact @picked_version_offered _ sampleBegun 1 _ rfl rfl (Or.inr (Or.inl rfl))

/-- While a cancel stands nothing happens to the request but that its book is merged, an earlier
download of it is removed, or it is dropped; so taking it back restores it. -/
theorem undo_restores {statements more : List Act} {id maxLive : Nat} {canceller now then_ : Int}
    {row back : RequestRow} {cancelled undone : Store} (ran : after statements = some store)
    (found : store.requests.get id = some row)
    (cancels : store.step (.cancel id canceller now) = some cancelled)
    (ranMore : run Store.step cancelled more = some next)
    (stands : Meets Store.step (fun store _ => ∀ row, store.requests.get id = some row →
      row.state = .cancelled) cancelled more)
    (undoes : next.step (.undoCancel id then_ maxLive) = some undone)
    (foundBack : undone.requests.get id = some back) :
    back = { row with removeTag := back.removeTag, bookUuid := back.bookUuid } := by
  have well := well_after ran
  have moved := moves_step well cancels
  have start : Lasts (fun _ current => current.effective = .cancelled ∨ current.aside = row.aside)
      id 0 cancelled := by
    refine ⟨Nat.le_trans (Table.get_le found) moved.keys, Nat.zero_le _, fun current _ => Or.inr ?_⟩
    obtain ⟨after, isAfter, rfl⟩ := Option.map_eq_some_iff.mp cancels
    grind [Table.alter, Requests.cancel]
  obtain ⟨wellNext, kept⟩ := @run_keeps _ _ Store.step _
    (fun store => Well store ∧ Lasts _ id 0 store) (fun _ _ _ holds waits stepped =>
      have moves := moves_step holds.1 stepped
      ⟨moves.well, moves.lasts holds.2 fun current after present _ goes was => by
        have aside := goes.aside (waits current present)
        have ended := goes.ended
        grind⟩) _ _ more ⟨moved.well, start⟩ stands ranMore
  obtain ⟨after, isAfter, rfl⟩ := Option.map_eq_some_iff.mp undoes
  obtain ⟨current, isCurrent, done⟩ := Option.bind_eq_some_iff.mp isAfter
  have was := kept.holds current isCurrent
  have prior := (well id row found).prior
  have before := (wellNext id current isCurrent).before
  have restores := if_room_some done
  have open' : row.state ≠ .cancelled := by
    obtain ⟨_, isSet, _⟩ := Option.map_eq_some_iff.mp cancels
    grind [Requests.cancel]
  obtain rfl : back = after := by
    dsimp only [Table.alter] at foundBack
    rw [isCurrent, Option.bind_some, if_pos rfl] at foundBack
    exact (Option.some.inj foundBack).symm
  cases due : current.cancelAt
  all_goals grind [Requests.undoCancel]

theorem undo_restores_sample :
    ∃ store cancelled next undone row back, after sampleBegun = some store ∧
      store.requests.get 1 = some row ∧ store.step (.cancel 1 1 0) = some cancelled ∧
      run Store.step cancelled [.retarget none ['b'] ['c']] = some next ∧
      next.step (.undoCancel 1 5 9) = some undone ∧ undone.requests.get 1 = some back ∧
        back = { row with removeTag := back.removeTag, bookUuid := back.bookUuid } := by
  refine ⟨_, _, _, _, _, _, rfl, rfl, rfl, rfl, rfl, rfl, ?_⟩
  apply @undo_restores _ _ sampleBegun [.retarget none ['b'] ['c']] 1 9 1 0 5
  all_goals try rfl
  refine ⟨fun row found => ?_, trivial⟩
  obtain rfl := Option.some.inj found
  rfl

/-- A reader's download is the request's, or is to be taken out of the client. -/
def Holds (userId : Int) (tag : Text) (row : RequestRow) : Prop :=
  row.userId = userId ∧ (row.clientTag = some tag ∨ row.removeTag = some tag)

def Held (id : Nat) (userId : Int) (tag : Text) (requests : Table RequestRow) : Prop :=
  ∃ row, requests.get id = some row ∧ Holds userId tag row

variable {id : Nat} {userId : Int} {tag : Text} {row : RequestRow}

theorem held_alter {requests : Table RequestRow} {change : Nat → RequestRow → Option RequestRow}
    (found : requests.get id = some row)
    (keeps : ∃ after, change id row = some after ∧ Holds userId tag after) :
    Held id userId tag (requests.alter change) := by
  obtain ⟨after, done, holds⟩ := keeps
  exact ⟨after, Option.bind_eq_some_iff.mpr ⟨row, found, done⟩, holds⟩

theorem held_modify {other : Nat} {results : Table ResultRow}
    {change : RequestRow → Option RequestRow} (found : store.requests.get id = some row)
    (holds : Holds userId tag row) (changed : store.modify other results change = some next)
    (keeps : ∀ after, other = id → change row = some after → Holds userId tag after) :
    Held id userId tag next.requests := by
  obtain ⟨after, isAfter, rfl⟩ := Option.map_eq_some_iff.mp changed
  obtain ⟨before, isBefore, done⟩ := Option.bind_eq_some_iff.mp isAfter
  refine held_alter found ⟨_, rfl, ?_⟩
  split_ifs with same
  · subst same
    exact keeps after rfl (Option.some.inj (found.symm.trans isBefore) ▸ done)
  · exact holds

theorem held_step {act : Act} (well : Well store) (held : Held id userId tag store.requests)
    (kept : act ≠ .finishRemoval id tag ∧ act ≠ .deleteUser userId)
    (stepped : store.step act = some next) : Held id userId tag next.requests := by
  obtain ⟨row, found, holds⟩ := held
  have tagged := (well id row found).tagged
  have known := Table.get_le found
  cases act with
  | start =>
      rw [Store.step, Store.start] at stepped
      split_ifs at stepped
      obtain rfl := Option.some.inj stepped
      exact ⟨row, (if_neg (by omega)).trans found, holds⟩
  | restart =>
      rw [Store.step, Store.restart] at stepped
      split_ifs at stepped
      all_goals exact held_modify found holds stepped (by
        grind [Holds, Requests.swap, Store.ifRoom, importAgain, searchAgain])
  | choose =>
      rw [Store.step, Store.choose] at stepped
      split_ifs at stepped
      exact held_modify found holds stepped (by grind [Holds, Requests.choose])
  | finishSearch id outcome =>
      refine held_modify found holds stepped ?_
      cases store.withoutGivenUp id outcome <;> grind [Holds, settleSearch]
  | mark _ _ verdict =>
      refine held_modify found holds stepped ?_
      cases verdict <;> grind [Holds, Requests.mark]
  | claimDueCancels | retarget | dropRequests | deleteUser =>
      obtain rfl := Option.some.inj stepped
      exact held_alter found (by grind [Holds, claimDueCancel, Store.retarget, drop])
  | _ =>
      exact held_modify found holds stepped (by
        grind [Holds, Requests.swap, Requests.cancel, Requests.undoCancel, Store.ifRoom,
          Requests.finishRemoval, Requests.beginDownload, Requests.markOnItsWay])

/-- A download is forgotten only once it was taken out of the client, or with its reader. -/
theorem download_not_forgotten {statements more : List Act} (ran : after statements = some store)
    (held : Held id userId tag store.requests) (ranMore : run Store.step store more = some next)
    (kept : ∀ act ∈ more, act ≠ .finishRemoval id tag ∧ act ≠ .deleteUser userId) :
    Held id userId tag next.requests :=
  (@run_keeps _ _ Store.step
    (fun _ act => act ≠ .finishRemoval id tag ∧ act ≠ .deleteUser userId)
    (fun store => Well store ∧ Held id userId tag store.requests)
    (fun _ _ _ holds kept stepped =>
      ⟨(moves_step holds.1 stepped).well, held_step holds.1 holds.2 kept stepped⟩)
    _ _ more ⟨well_after ran, held⟩
    (Meets.of_forall _ _ _ fun act member _ => kept act member) ranMore).2

theorem download_not_forgotten_sample :
    ∃ store next, after sampleBegun = some store ∧ Held 1 1 (tagOf 1 1) store.requests ∧
      run Store.step store [.swap 1 none] = some next ∧
        Held 1 1 (tagOf 1 1) next.requests := by
  refine ⟨_, _, rfl, ⟨_, rfl, rfl, Or.inl rfl⟩, rfl, ?_⟩
  exact @download_not_forgotten _ _ 1 1 _ sampleBegun [.swap 1 none] rfl
    ⟨_, rfl, rfl, Or.inl rfl⟩ rfl (by simp)

end Statements

end Omnibus.Requests
