import Omnibus.Koreader.ReadingState

/-!
# A flush leaves the later value of each pending field

What a capture leaves of an entry, what one PUT does to the server's rows, and what a flush whose
PUTs were all answered leaves of both.
-/

namespace Omnibus.Koreader.State

open Omnibus.KoboSync (ReadStatus ReadStatusRow Position ProgressRow setReadStatusAt executeUpsert
  markStarted landedPosition landedStatus positionLands statusLands clamped)

/-- What every entry keeps: its status is one that syncs, and a pending field has a value and a
time. -/
structure Formed (entry : Entry) : Prop where
  syncs : wireStatus entry.status = entry.status
  percent : entry.dirtyPercent = true → entry.percent.isSome ∧ entry.percentAt.isSome
  status : entry.dirtyStatus = true → entry.status.isSome ∧ entry.statusAt.isSome

theorem wire_status_wire (status : Option String) :
    wireStatus (wireStatus status) = wireStatus status := by
  simp [wireStatus, Option.filter_filter]

theorem capture_percent_formed (entry : Entry) (current : Current) (now : Int)
    (reports : current.percent.isSome) (formed : Formed entry) :
    Formed (capturePercent entry current now) := by
  rw [capturePercent]
  split
  · exact ⟨formed.syncs, fun _ => ⟨reports, rfl⟩, formed.status⟩
  · exact formed

theorem capture_status_formed (entry : Entry) (current : Current) (now : Int)
    (formed : Formed entry) : Formed (captureStatus entry current now) := by
  rw [captureStatus]
  split
  · exact ⟨wire_status_wire current.status, formed.percent, fun sends => ⟨sends, rfl⟩⟩
  · exact formed

theorem capture_formed (entry : Entry) (current : Current) (now : Int) (formed : Formed entry) :
    Formed (capture entry current now) := by
  rw [capture]
  split
  · exact formed
  · rename_i reports
    apply capture_status_formed
    exact capture_percent_formed entry current now (Option.isSome_iff_ne_none.mpr reports) formed

/-- What a capture leaves: the entry says what the device reports. -/
structure Captured (entry : Entry) (current : Current) : Prop where
  formed : Formed entry
  reports : current.percent.isSome
  percent : entry.percent = current.percent
  place : ∀ agreed here, entry.xpointer = some agreed → current.xpointer = some here →
    normalized agreed = normalized here
  status : entry.status = wireStatus current.status

theorem captured_capture (entry : Entry) (current : Current) (now : Int)
    (reports : current.percent.isSome) (formed : Formed entry) :
    Captured (capture entry current now) current := by
  have some' : current.percent ≠ none := Option.isSome_iff_ne_none.mp reports
  have formedHere := capture_formed entry current now formed
  rw [capture, if_neg some'] at formedHere ⊢
  have keeps : ∀ entry : Entry, (captureStatus entry current now).percent = entry.percent ∧
      (captureStatus entry current now).xpointer = entry.xpointer ∧
      (captureStatus entry current now).status = wireStatus current.status := by
    intro entry
    rw [captureStatus]
    split
    · exact ⟨rfl, rfl, rfl⟩
    · rename_i same
      exact ⟨rfl, rfl, not_not.mp same⟩
  obtain ⟨percent, xpointer, status⟩ := keeps (capturePercent entry current now)
  refine ⟨formedHere, reports, percent.trans ?_, ?_, status⟩
  · rw [capturePercent]
    split
    · rfl
    · rename_i same
      exact not_not.mp (not_or.mp same).1
  · intro agreed here ours theirs
    rw [xpointer, capturePercent] at ours
    split at ours
    · rw [Option.some.inj (ours.symm.trans theirs)]
    · rename_i same
      have still := (not_or.mp same).2
      simpa [xpointerMoved, ours, theirs] using still

/-! ## One PUT -/

def Answered (code : Nat) : Prop := code = 200 ∨ code = 409

theorem put_state_kept (server : Server) (body : StatePut) :
    (putState server body).2.clock = server.clock ∧
      (putState server body).2.source = server.source := by
  rw [putState]
  split
  · dsimp only
    split <;> exact ⟨rfl, rfl⟩
  · exact ⟨rfl, rfl⟩

theorem state_body_position (server : Server) :
    (stateBody server).position = server.progress.bind fun row =>
      row.position.progressPercent.map fun percent =>
        ⟨percent, row.eventTime, positionXpointer server.source row.position⟩ := by
  rw [stateBody]
  cases own : server.progress with
  | none => cases server.readStatus <;> rfl
  | some row => cases server.readStatus <;> rfl

theorem state_body_status (server : Server) :
    (stateBody server).status = server.readStatus.bind fun row =>
      (koreaderStatus row.status).map fun status => ⟨status, row.updatedAt⟩ := by
  rw [stateBody]
  cases own : server.readStatus with
  | none => cases server.progress <;> rfl
  | some row => cases server.progress <;> rfl

theorem put_state_progress (server : Server) (body : StatePut) (percent : Int)
    (sends : body.percent = some percent) (answered : Answered (putState server body).1) :
    (putState server body).2.progress = some (executeUpsert server.clock
      (body.position server.source) (some (min body.eventAt server.clock)) server.progress) := by
  rw [putState] at answered ⊢
  split
  · simp only [sends]
  · rename_i invalid
    simp [invalid, Answered] at answered

theorem put_state_no_progress (server : Server) (body : StatePut) (none' : body.percent = none) :
    (putState server body).2.progress = server.progress := by
  rw [putState]
  split
  · simp only [none']
  · rfl

/-- The later of a stored and an offered row; a tie goes to the offered one. -/
def Latest {Row : Type} (time : Row → Int) (stored : Option Row) (offered final : Row) : Prop :=
  (final = offered ∧ ∀ old, stored = some old → time old ≤ time offered) ∨
    (stored = some final ∧ time offered < time final)

theorem execute_upsert_latest (clock : Int) (position : Position) (eventAt : Int)
    (stored : Option ProgressRow) :
    Latest ProgressRow.eventTime stored (landedPosition clock position (some eventAt))
      (executeUpsert clock position (some eventAt) stored) := by
  cases stored with
  | none => exact Or.inl ⟨rfl, by simp⟩
  | some old =>
      rw [executeUpsert]
      split
      · rename_i lands
        exact Or.inl ⟨rfl, fun _ same => Option.some.inj same ▸ of_decide_eq_true lands⟩
      · rename_i refused
        exact Or.inr ⟨rfl, not_le.mp fun older => refused (decide_eq_true older)⟩

/-- The row of a reader who chose a status, none for one a position started. -/
def chosenRow (stored : Option ReadStatusRow) : Option ReadStatusRow :=
  stored.filter fun row => !row.autoStarted

theorem set_read_status_at_latest (clock : Int) (stored : Option ReadStatusRow)
    (status : ReadStatus) (eventAt : Int) :
    Latest ReadStatusRow.updatedAt (chosenRow stored) (landedStatus clock status eventAt stored)
      (setReadStatusAt clock status eventAt stored) := by
  cases stored with
  | none => exact Or.inl ⟨rfl, by simp [chosenRow]⟩
  | some old =>
      rw [setReadStatusAt, statusLands, chosenRow]
      cases started : old.autoStarted with
      | true =>
          apply Or.inl
          simp [started]
      | false =>
          simp only [Option.filter, started, Bool.not_false, if_true, Bool.or_false,
            decide_eq_true_eq]
          split
          · rename_i older
            exact Or.inl ⟨rfl, fun _ same => Option.some.inj same ▸ older⟩
          · rename_i newer
            exact Or.inr ⟨rfl, not_le.mp newer⟩

theorem put_state_chosen (server : Server) (body : StatePut) (status : ReadStatus)
    (sends : body.status.bind readStatusFor = some status)
    (answered : Answered (putState server body).1) :
    (putState server body).2.readStatus = some
      (setReadStatusAt server.clock status (min body.eventAt server.clock) server.readStatus) := by
  rw [putState] at answered ⊢
  split
  · simp only [sends]
    cases body.percent with
    | none => rfl
    | some percent => simp [startedBy, markStarted]
  · rename_i invalid
    simp [invalid, Answered] at answered

theorem put_state_unchosen (server : Server) (body : StatePut) (old : ReadStatusRow)
    (silent : body.status = none) (holds : server.readStatus = some old)
    (started : old.status ≠ .unread) :
    (putState server body).2.readStatus = some old := by
  rw [putState]
  split
  · simp only [silent, Option.bind_none]
    cases body.percent with
    | none => exact holds
    | some percent => simp [holds, startedBy, markStarted, startUnreadAt, started]
  · exact holds

theorem put_state_chosen_row (server : Server) (body : StatePut) (silent : body.status = none)
    (unread : ∀ old, server.readStatus = some old → old.status ≠ .unread) :
    chosenRow (putState server body).2.readStatus = chosenRow server.readStatus ∧
      (putState server body).2.readStatus.bind (·.finishedAt) =
        server.readStatus.bind (·.finishedAt) := by
  cases holds : server.readStatus with
  | some old =>
      rw [put_state_unchosen server body old silent holds (unread old holds)]
      exact ⟨rfl, rfl⟩
  | none =>
      rw [putState]
      split
      · simp only [silent, Option.bind_none]
        cases body.percent with
        | none =>
            rw [holds]
            exact ⟨rfl, rfl⟩
        | some percent => simp [holds, startedBy, markStarted, startUnreadAt, chosenRow]
      · rw [holds]
        exact ⟨rfl, rfl⟩

theorem settled_at_le (at' : Option Int) (stored : Int) :
    (settledAt at' (some stored)).getD 0 ≤ stored := by
  rw [settledAt]
  split
  · exact le_refl stored
  · rename_i newer
    exact (not_le.mp newer).le

/-! ## The flush -/

def Entry.offered (entry : Entry) (server : Server) : ProgressRow :=
  landedPosition server.clock ((putBody entry [.percent]).position server.source)
    (some (entry.percentAt.getD 0))

def Entry.chosen (entry : Entry) (server : Server) (status : ReadStatus) : ReadStatusRow :=
  landedStatus server.clock status (entry.statusAt.getD 0) server.readStatus

def NotUnread (stored : Option ReadStatusRow) : Prop :=
  ∀ old, stored = some old → old.status ≠ .unread

theorem wire_status_read (status : Option String) (syncs : wireStatus status = status)
    (sends : status.isSome) : ∃ read, status.bind readStatusFor = some read := by
  obtain ⟨name, rfl⟩ := Option.isSome_iff_exists.mp sends
  by_cases reading : name = "reading"
  · exact ⟨.reading, if_pos reading⟩
  · by_cases complete : name = "complete"
    · exact ⟨.finished, (if_neg reading).trans (if_pos complete)⟩
    · rw [wireStatus, Option.filter_some, decide_eq_false reading,
        decide_eq_false complete] at syncs
      exact absurd syncs (by simp)

theorem landed_position_clamped (clock : Int) (position : Position) (eventAt : Int) :
    landedPosition clock position (some (min eventAt clock)) =
      landedPosition clock position (some eventAt) := by
  simp [landedPosition, clamped]

theorem landed_status_clamped (clock : Int) (status : ReadStatus) (eventAt : Int)
    (stored : Option ReadStatusRow) :
    landedStatus clock status (min eventAt clock) stored =
      landedStatus clock status eventAt stored := by
  simp [landedStatus]

theorem put_position (entry : Entry) (server : Server) (arms : List Arm) (sent : .percent ∈ arms)
    (has : entry.percent.isSome)
    (time : (putBody entry arms).eventAt = entry.percentAt.getD 0)
    (answered : Answered (putState server (putBody entry arms)).1) :
    ∃ final, (putState server (putBody entry arms)).2.progress = some final ∧
      Latest ProgressRow.eventTime server.progress (entry.offered server) final := by
  obtain ⟨percent, own⟩ := Option.isSome_iff_exists.mp has
  have sends : (putBody entry arms).percent = some percent := by simp [putBody, sent, own]
  have stored := put_state_progress server (putBody entry arms) percent sends answered
  refine ⟨_, stored, ?_⟩
  have latest := execute_upsert_latest server.clock
    ((putBody entry arms).position server.source) (min (putBody entry arms).eventAt server.clock)
    server.progress
  have same : (putBody entry arms).position server.source =
      (putBody entry [.percent]).position server.source := by
    simp [StatePut.position, StatePut.sentXpointer, putBody, sent]
  rw [landed_position_clamped, same, time] at latest
  rwa [same, time]

theorem put_choice (entry : Entry) (server : Server) (arms : List Arm) (sent : .status ∈ arms)
    (formed : Formed entry) (has : entry.status.isSome)
    (time : (putBody entry arms).eventAt = entry.statusAt.getD 0)
    (answered : Answered (putState server (putBody entry arms)).1) :
    ∃ status final, entry.status.bind readStatusFor = some status ∧
      (putState server (putBody entry arms)).2.readStatus = some final ∧
      Latest ReadStatusRow.updatedAt (chosenRow server.readStatus)
        (entry.chosen server status) final := by
  obtain ⟨status, read⟩ := wire_status_read entry.status formed.syncs has
  have sends : (putBody entry arms).status.bind readStatusFor = some status := by
    simp [putBody, sent, read]
  have stored := put_state_chosen server (putBody entry arms) status sends answered
  have latest := set_read_status_at_latest server.clock server.readStatus status
    (min (putBody entry arms).eventAt server.clock)
  rw [landed_status_clamped] at latest
  refine ⟨status, _, read, stored, ?_⟩
  rwa [Entry.chosen, ← time]

/-- What a flush of `entry` leaves of the server: the later value of each pending field, and the
value it holds of any other. -/
structure Took (entry : Entry) (server server' : Server) : Prop where
  progressKept : entry.dirtyPercent = false → server'.progress = server.progress
  progressLatest : entry.dirtyPercent = true → ∃ final, server'.progress = some final ∧
    Latest ProgressRow.eventTime server.progress (entry.offered server) final
  readStatusKept : entry.dirtyStatus = false → ∀ old, server.readStatus = some old →
    old.status ≠ .unread → server'.readStatus = some old
  readStatusLatest : entry.dirtyStatus = true → NotUnread server.readStatus →
    ∃ status final, entry.status.bind readStatusFor = some status ∧
      server'.readStatus = some final ∧
      Latest ReadStatusRow.updatedAt (chosenRow server.readStatus)
        (entry.chosen server status) final

/-- What a flush whose PUTs were all answered leaves of the entry and of the server. -/
structure Pushed (entry : Entry) (server : Server) (after : Entry) (server' : Server) : Prop where
  percent : after.percent = entry.percent
  xpointer : after.xpointer = entry.xpointer
  status : after.status = entry.status
  quiet : after.dirtyPercent = false ∧ after.dirtyStatus = false
  percentAt : entry.dirtyPercent = false → after.percentAt = entry.percentAt
  statusAt : entry.dirtyStatus = false → after.statusAt = entry.statusAt
  percentHeard : entry.dirtyPercent = true → ∀ position,
    (stateBody server').position = some position → after.percentAt.getD 0 ≤ position.eventAt
  statusHeard : entry.dirtyStatus = true → ∀ status,
    (stateBody server').status = some status → after.statusAt.getD 0 ≤ status.eventAt
  took : Took entry server server'

theorem push_arms_code (entry : Entry) (server : Server) (codes : List Nat) (arms : List Arm) :
    (putState server (putBody entry arms)).1 ∈
      (pushArms ⟨some entry, server, codes⟩ arms).codes := by
  rw [pushArms]
  dsimp only
  split <;> simp

theorem push_arms_answered (entry : Entry) (server : Server) (codes : List Nat) (arms : List Arm)
    (answered : Answered (putState server (putBody entry arms)).1) :
    pushArms ⟨some entry, server, codes⟩ arms =
      ⟨some (arms.foldl
          (settleAnswer (stateBody (putState server (putBody entry arms)).2)) entry),
        (putState server (putBody entry arms)).2,
        codes ++ [(putState server (putBody entry arms)).1]⟩ := by
  rw [pushArms]
  dsimp only
  exact if_pos answered

theorem push_arms_codes (flushed : Flushed) (arms : List Arm) (code : Nat)
    (sent : code ∈ flushed.codes) : code ∈ (pushArms flushed arms).codes := by
  rw [pushArms]
  split
  · exact sent
  · dsimp only
    split <;> exact List.mem_append_left _ sent

theorem read_status_kept (entry : Entry) (server : Server) (arms : List Arm)
    (unsent : .status ∉ arms) (old : ReadStatusRow) (holds : server.readStatus = some old)
    (started : old.status ≠ .unread) :
    (putState server (putBody entry arms)).2.readStatus = some old :=
  put_state_unchosen server _ old (if_neg unsent) holds started

theorem pushed_percent (entry : Entry) (server : Server) (formed : Formed entry)
    (percent : entry.dirtyPercent = true) (status : entry.dirtyStatus = false)
    (answered : Answered (putState server (putBody entry [.percent])).1) :
    Pushed entry server
      (settleAnswer (stateBody (putState server (putBody entry [.percent])).2) entry .percent)
      (putState server (putBody entry [.percent])).2 := by
  have unsent : Arm.status ∉ [Arm.percent] := by simp
  constructor
  · rfl
  · rfl
  · rfl
  · exact ⟨rfl, status⟩
  · exact fun clean => absurd percent (by simp [clean])
  · exact fun _ => rfl
  · intro _ position held
    simp only [settleAnswer, held, Option.map_some]
    exact settled_at_le _ _
  · exact fun dirty => absurd status (by simp [dirty])
  · constructor
    · exact fun clean => absurd percent (by simp [clean])
    · exact fun _ => put_position entry server _ List.mem_cons_self (formed.percent percent).1 rfl
        answered
    · exact fun _ => read_status_kept entry server _ unsent
    · exact fun dirty => absurd status (by simp [dirty])

theorem pushed_status (entry : Entry) (server : Server) (formed : Formed entry)
    (percent : entry.dirtyPercent = false) (status : entry.dirtyStatus = true)
    (answered : Answered (putState server (putBody entry [.status])).1) :
    Pushed entry server
      (settleAnswer (stateBody (putState server (putBody entry [.status])).2) entry .status)
      (putState server (putBody entry [.status])).2 := by
  constructor
  · rfl
  · rfl
  · rfl
  · exact ⟨percent, rfl⟩
  · exact fun _ => rfl
  · exact fun clean => absurd status (by simp [clean])
  · exact fun dirty => absurd percent (by simp [dirty])
  · intro _ stored held
    simp only [settleAnswer, held, Option.map_some]
    exact settled_at_le _ _
  · constructor
    · exact fun _ => put_state_no_progress server _ (by simp [putBody])
    · exact fun dirty => absurd percent (by simp [dirty])
    · exact fun clean => absurd status (by simp [clean])
    · exact fun _ _ => put_choice entry server _ List.mem_cons_self formed
        (formed.status status).1 rfl answered

theorem pushed_both (entry : Entry) (server : Server) (formed : Formed entry)
    (percent : entry.dirtyPercent = true) (status : entry.dirtyStatus = true)
    (tied : entry.percentAt = entry.statusAt)
    (answered : Answered (putState server (putBody entry [.percent, .status])).1) :
    Pushed entry server
      (settleAnswer (stateBody (putState server (putBody entry [.percent, .status])).2)
        (settleAnswer (stateBody (putState server (putBody entry [.percent, .status])).2) entry
          .percent) .status)
      (putState server (putBody entry [.percent, .status])).2 := by
  constructor
  · rfl
  · rfl
  · rfl
  · exact ⟨rfl, rfl⟩
  · exact fun clean => absurd percent (by simp [clean])
  · exact fun clean => absurd status (by simp [clean])
  · intro _ position held
    simp only [settleAnswer, held, Option.map_some]
    exact settled_at_le _ _
  · intro _ stored held
    simp only [settleAnswer, held, Option.map_some]
    exact settled_at_le _ _
  · constructor
    · exact fun clean => absurd percent (by simp [clean])
    · exact fun _ => put_position entry server _ List.mem_cons_self (formed.percent percent).1 rfl
        answered
    · exact fun clean => absurd status (by simp [clean])
    · exact fun _ _ => put_choice entry server _ (by simp) formed (formed.status status).1
        (congrArg (Option.getD · 0) tied) answered

/-- Two PUTs: the second finds the position of the first, and the status it chose against. -/
theorem pushed_apart (entry : Entry) (server : Server) (formed : Formed entry)
    (percent : entry.dirtyPercent = true) (status : entry.dirtyStatus = true)
    (answered : Answered (putState server (putBody entry [.percent])).1) (mid : Entry)
    (between : Server) (settled : mid = settleAnswer (stateBody between) entry .percent)
    (first : between = (putState server (putBody entry [.percent])).2)
    (again : Answered (putState between (putBody mid [.status])).1) :
    Pushed entry server
      (settleAnswer (stateBody (putState between (putBody mid [.status])).2) mid .status)
      (putState between (putBody mid [.status])).2 := by
  have formedMid : Formed mid := by
    rw [settled]
    exact ⟨formed.syncs, nofun, formed.status⟩
  have same : (putState between (putBody mid [.status])).2.progress = between.progress :=
    put_state_no_progress between _ (by simp [putBody])
  have clock : between.clock = server.clock := first ▸ (put_state_kept server _).1
  constructor
  · rw [settled]; rfl
  · rw [settled]; rfl
  · rw [settled]; rfl
  · rw [settled]; exact ⟨rfl, rfl⟩
  · exact fun clean => absurd percent (by simp [clean])
  · exact fun clean => absurd status (by simp [clean])
  · intro _ position held
    have heard : (stateBody between).position = some position := by
      rw [← held, state_body_position, state_body_position, same, (put_state_kept between _).2]
    rw [settled]
    simp only [settleAnswer, heard, Option.map_some]
    exact settled_at_le _ _
  · intro _ stored held
    simp only [settleAnswer, held, Option.map_some]
    exact settled_at_le _ _
  · constructor
    · exact fun clean => absurd percent (by simp [clean])
    · intro _
      rw [same, first]
      exact put_position entry server _ List.mem_cons_self (formed.percent percent).1 rfl answered
    · exact fun clean => absurd status (by simp [clean])
    · intro _ unread
      have choice := put_choice mid between _ List.mem_cons_self formedMid
        (by rw [settled]; exact (formed.status status).1) rfl again
      obtain ⟨chosen, finished⟩ : chosenRow between.readStatus = chosenRow server.readStatus ∧
          between.readStatus.bind (·.finishedAt) = server.readStatus.bind (·.finishedAt) := by
        rw [first]
        exact put_state_chosen_row server _ (by simp [putBody]) unread
      simp only [Entry.chosen, landedStatus, clock, chosen, finished] at choice
      rw [settled] at choice ⊢
      exact choice

theorem flush_pushed (entry : Entry) (server : Server) (formed : Formed entry)
    (answered : ∀ code ∈ (flushBook entry server).codes, Answered code) :
    ∃ after, (flushBook entry server).entry = some after ∧
      Pushed entry server after (flushBook entry server).server := by
  rw [flushBook, batches] at answered ⊢
  cases percent : entry.dirtyPercent with
  | false =>
      cases status : entry.dirtyStatus with
      | false =>
          simp only [List.foldl_nil]
          refine ⟨entry, rfl, ?_⟩
          constructor
          case took => constructor <;> simp +contextual [percent, status]
          all_goals simp +contextual [percent, status]
      | true =>
          simp only [percent, status, List.foldl_cons, List.foldl_nil] at answered ⊢
          have landed := answered _ (push_arms_code entry server [] [.status])
          rw [push_arms_answered entry server [] [.status] landed]
          exact ⟨_, rfl, pushed_status entry server formed percent status landed⟩
  | true =>
      cases status : entry.dirtyStatus with
      | false =>
          simp only [percent, status, List.foldl_cons, List.foldl_nil] at answered ⊢
          have landed := answered _ (push_arms_code entry server [] [.percent])
          rw [push_arms_answered entry server [] [.percent] landed]
          exact ⟨_, rfl, pushed_percent entry server formed percent status landed⟩
      | true =>
          simp only [percent, status] at answered ⊢
          by_cases tied : entry.percentAt = entry.statusAt
          · simp only [if_pos tied, List.foldl_cons, List.foldl_nil] at answered ⊢
            have landed := answered _ (push_arms_code entry server [] [.percent, .status])
            rw [push_arms_answered entry server [] [.percent, .status] landed]
            exact ⟨_, rfl, pushed_both entry server formed percent status tied landed⟩
          · simp only [if_neg tied, List.foldl_cons, List.foldl_nil] at answered ⊢
            have landed := answered _
              (push_arms_codes _ [.status] _ (push_arms_code entry server [] [.percent]))
            rw [push_arms_answered entry server [] [.percent] landed] at answered ⊢
            have again := answered _ (push_arms_code _ _ _ [.status])
            rw [push_arms_answered _ _ _ [.status] again]
            exact ⟨_, rfl, pushed_apart entry server formed percent status landed _ _ rfl rfl again⟩

end Omnibus.Koreader.State
