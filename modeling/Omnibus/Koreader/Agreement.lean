import Mathlib.Tactic.SplitIfs
import Omnibus.Koreader.Flushed

/-!
# Device and server agree after a flush and a pull

One cycle for a book: capture, flush, and the plan of the GET answer applied and settled. Each
field ends at one value on both sides, and a second cycle changes nothing.
-/

namespace Omnibus.Koreader.State

open Omnibus.KoboSync (ReadStatus ReadStatusRow ProgressRow landedPosition)

structure Cycle where
  entry : Option Entry
  device : Current
  server : Server
  codes : List Nat

/-- Capture, flush, then the server's answer applied and settled. -/
def cycle (entry : Entry) (current : Current) (server : Server) (now : Int) (landed : String) :
    Cycle :=
  let flushed := flushBook (capture entry current now) server
  match flushed.entry with
  | none => ⟨none, current, flushed.server, flushed.codes⟩
  | some after =>
      let plan := pullPlan after (stateBody flushed.server) current
      let device := applyPlan plan current landed
      ⟨some (settle after device plan), device, flushed.server, flushed.codes⟩

/-- The device stands at the server's place: by XPointer where both have one, else by percent. -/
def SamePlace (device : Current) (server : PositionAnswer) : Prop :=
  match server.xpointer, device.xpointer with
  | some theirs, some ours => normalized theirs = normalized ours
  | _, _ => device.percent = some server.percent

/-! ## The plan -/

/-- The plan of a position the device hears: by XPointer where both have one, else by percent. -/
def placePlan (position : PositionAnswer) (current : Current) : PullPlan :=
  match position.xpointer, current.xpointer with
  | some theirs, some ours =>
      if normalized theirs ≠ normalized ours then
        { noPlan with
          xpointer := some theirs, percent := some position.percent
          percentAt := some position.eventAt }
      else if some position.percent ≠ current.percent then
        { noPlan with percentAt := some position.eventAt }
      else noPlan
  | _, _ =>
      if some position.percent ≠ current.percent then
        { noPlan with percent := some position.percent, percentAt := some position.eventAt }
      else noPlan

def statusPlan (status : StatusAnswer) (current : Current) : PullPlan :=
  if some status.status ≠ wireStatus current.status then
    { noPlan with status := some status.status, statusAt := some status.eventAt }
  else noPlan

theorem pull_percent_heard (entry : Entry) (current : Current) (position : PositionAnswer)
    (captured : Captured entry current) (quiet : entry.dirtyPercent = false)
    (heard : entry.percentAt.getD 0 ≤ position.eventAt) :
    pullPercent entry position current = placePlan position current := by
  have listens : ¬(entry.dirtyPercent = true ∨ position.eventAt < entry.percentAt.getD 0) := by
    simpa [quiet] using heard
  have ownPercent : (if entry.percentAt.isSome = true then entry.percent else current.percent) =
      current.percent := by
    split
    · exact captured.percent
    · rfl
  rw [pullPercent]
  simp only [if_neg listens, ownPercent]
  rw [placePlan]
  cases theirs : position.xpointer with
  | none => simp
  | some there =>
      cases ours : current.xpointer with
      | none => simp
      | some here =>
          have ownPlace : (if entry.percentAt.isSome = true then entry.xpointer.or (some here)
              else some here).map normalized = some (normalized here) := by
            split
            · cases agreed : entry.xpointer with
              | none => rfl
              | some place => exact congrArg some (captured.place place here agreed ours)
            · rfl
          simp only [Option.isSome_some, Bool.and_self, if_true, true_and, Option.map_some,
            ownPlace, ne_eq, Option.some.injEq]
          rfl

theorem pull_percent_deaf (entry : Entry) (current : Current) (position : PositionAnswer)
    (later : position.eventAt < entry.percentAt.getD 0) :
    pullPercent entry position current = noPlan := by
  rw [pullPercent]
  exact if_pos (Or.inr later)

theorem pull_status_heard (entry : Entry) (current : Current) (status : StatusAnswer)
    (captured : Captured entry current) (quiet : entry.dirtyStatus = false)
    (heard : entry.statusAt.getD 0 ≤ status.eventAt) :
    pullStatus entry status current = statusPlan status current := by
  have listens : ¬(entry.dirtyStatus = true ∨ status.eventAt < entry.statusAt.getD 0) := by
    simpa [quiet] using heard
  have ownStatus : (if entry.statusAt.isSome = true then entry.status
      else wireStatus current.status) = wireStatus current.status := by
    split
    · exact captured.status
    · rfl
  rw [pullStatus]
  simp only [if_neg listens, ownStatus]
  rfl

theorem pull_status_deaf (entry : Entry) (current : Current) (status : StatusAnswer)
    (later : status.eventAt < entry.statusAt.getD 0) :
    pullStatus entry status current = noPlan := by
  rw [pullStatus]
  exact if_pos (Or.inr later)

theorem pull_plan_pending (entry : Entry) (remote : StateBody) (current : Current) :
    (entry.dirtyPercent = true → (pullPlan entry remote current).percent = none ∧
      (pullPlan entry remote current).xpointer = none ∧
      (pullPlan entry remote current).percentAt = none) ∧
    (entry.dirtyStatus = true → (pullPlan entry remote current).status = none ∧
      (pullPlan entry remote current).statusAt = none) := by
  constructor
  · intro pending
    rw [pullPlan]
    cases remote.position with
    | none => exact ⟨rfl, rfl, rfl⟩
    | some position => simp [pullPercent, pending, noPlan]
  · intro pending
    rw [pullPlan]
    cases remote.status with
    | none => exact ⟨rfl, rfl⟩
    | some status => simp [pullStatus, pending, noPlan]

theorem place_plan_same (position : PositionAnswer) (current : Current) (landed : String)
    (plan : PullPlan) (percent : plan.percent = (placePlan position current).percent)
    (xpointer : plan.xpointer = (placePlan position current).xpointer) :
    SamePlace (applyPlan plan current landed) position := by
  rw [SamePlace, applyPlan, percent, xpointer]
  cases theirs : position.xpointer with
  | none =>
      by_cases same : some position.percent = current.percent <;>
        simp [placePlan, theirs, same, noPlan]
  | some there =>
      cases ours : current.xpointer with
      | none =>
          by_cases same : some position.percent = current.percent <;>
            simp [placePlan, theirs, ours, same, noPlan]
      | some here =>
          by_cases place : normalized there = normalized here
          · by_cases same : some position.percent = current.percent <;>
              simp [placePlan, theirs, ours, place, same, noPlan]
          · simp [placePlan, theirs, ours, place]

theorem place_plan_again (position : PositionAnswer) (current : Current) (landed : String)
    (plan : PullPlan) (percent : plan.percent = (placePlan position current).percent)
    (xpointer : plan.xpointer = (placePlan position current).xpointer) :
    placePlan position (applyPlan plan current landed) = noPlan ∨
      (placePlan position (applyPlan plan current landed) =
          { noPlan with percentAt := some position.eventAt } ∧
        (placePlan position current).percentAt = some position.eventAt) := by
  rw [applyPlan, percent, xpointer]
  cases theirs : position.xpointer with
  | none =>
      by_cases same : some position.percent = current.percent <;>
        simp [placePlan, theirs, same, noPlan]
  | some there =>
      cases ours : current.xpointer with
      | none =>
          by_cases same : some position.percent = current.percent <;>
            simp [placePlan, theirs, ours, same, noPlan]
      | some here =>
          by_cases place : normalized there = normalized here
          · by_cases same : some position.percent = current.percent <;>
              simp [placePlan, theirs, ours, place, same, noPlan]
          · simp [placePlan, theirs, ours, place, noPlan]

theorem pull_plan_timed (entry : Entry) (remote : StateBody) (current : Current) :
    ((pullPlan entry remote current).percentAt = none →
      (pullPlan entry remote current).percent = none ∧
        (pullPlan entry remote current).xpointer = none) ∧
    ((pullPlan entry remote current).statusAt = none →
      (pullPlan entry remote current).status = none) := by
  constructor
  · rw [pullPlan]
    cases remote.position with
    | none => exact fun _ => ⟨rfl, rfl⟩
    | some position =>
        simp only [Option.map_some, Option.getD_some, pullPercent]
        split_ifs <;> simp [noPlan]
  · rw [pullPlan]
    cases remote.status with
    | none => exact fun _ => rfl
    | some status =>
        simp only [Option.map_some, Option.getD_some, pullStatus]
        split_ifs <;> simp [noPlan]

theorem settled_captured (entry : Entry) (remote : StateBody) (current : Current) (landed : String)
    (captured : Captured entry current) (quiet : entry.dirtyPercent = false ∧
      entry.dirtyStatus = false) (plan : PullPlan)
    (planned : plan = pullPlan entry remote current) :
    Captured (settle entry (applyPlan plan current landed) plan) (applyPlan plan current landed) ∧
      (settle entry (applyPlan plan current landed) plan).dirtyPercent = false ∧
      (settle entry (applyPlan plan current landed) plan).dirtyStatus = false := by
  obtain ⟨place, choice⟩ := pull_plan_timed entry remote current
  rw [← planned] at place choice
  have quietPercent : (settle entry (applyPlan plan current landed) plan).dirtyPercent = false := by
    simp [settle, quiet.1]
  have quietStatus : (settle entry (applyPlan plan current landed) plan).dirtyStatus = false := by
    simp [settle, quiet.2]
  refine ⟨⟨⟨?_, ?_, ?_⟩, ?_, ?_, ?_, ?_⟩, quietPercent, quietStatus⟩
  · rw [settle]
    dsimp only
    split
    · exact wire_status_wire _
    · exact captured.formed.syncs
  · exact fun dirty => absurd quietPercent (by simp [dirty])
  · exact fun dirty => absurd quietStatus (by simp [dirty])
  · rw [applyPlan]
    cases plan.percent with
    | none => exact captured.reports
    | some percent => rfl
  · rw [settle]
    cases dated : plan.percentAt with
    | none => simp [applyPlan, (place dated).1, captured.percent]
    | some eventAt => rfl
  · intro agreed here ours theirs
    rw [settle] at ours
    cases dated : plan.percentAt with
    | none =>
        rw [applyPlan, (place dated).1, (place dated).2] at theirs
        apply captured.place agreed here _ theirs
        simpa [dated] using ours
    | some eventAt =>
        have same : (applyPlan plan current landed).xpointer = some agreed := by
          simpa [dated] using ours
        rw [Option.some.inj (same.symm.trans theirs)]
  · rw [settle]
    cases dated : plan.statusAt with
    | none => simp [applyPlan, choice dated, captured.status]
    | some eventAt => rfl

theorem capture_captured (entry : Entry) (current : Current) (now : Int)
    (captured : Captured entry current) : capture entry current now = entry := by
  have reports : current.percent ≠ none := Option.isSome_iff_ne_none.mp captured.reports
  have still : xpointerMoved entry current = false := by
    rw [xpointerMoved]
    split
    · rename_i agreed here ours theirs
      simpa using captured.place agreed here ours theirs
    · rfl
  rw [capture, if_neg reports, capturePercent, if_neg (by simp [captured.percent, still]),
    captureStatus, if_neg (not_not.mpr captured.status)]

theorem flush_quiet (entry : Entry) (server : Server) (quiet : entry.dirtyPercent = false ∧
    entry.dirtyStatus = false) : flushBook entry server = ⟨some entry, server, []⟩ := by
  rw [flushBook, batches, quiet.1, quiet.2]
  rfl

theorem cycle_idle (entry : Entry) (current : Current) (server : Server) (now : Int)
    (landed : String) (captured : Captured entry current) (quiet : entry.dirtyPercent = false ∧
      entry.dirtyStatus = false) (plan : PullPlan)
    (planned : pullPlan entry (stateBody server) current = plan)
    (percent : plan.percent = none) (xpointer : plan.xpointer = none) (status : plan.status = none)
    (statusAt : plan.statusAt = none)
    (dated : plan.percentAt = none ∨
      (plan.percentAt = entry.percentAt ∧ entry.xpointer = current.xpointer)) :
    cycle entry current server now landed = ⟨some entry, current, server, []⟩ := by
  have stays : applyPlan plan current landed = current := by
    rw [applyPlan, percent, xpointer, status]
    rfl
  have agreed : settle entry current plan = entry := by
    rw [settle, statusAt]
    obtain none' | ⟨same, place⟩ := dated
    · rw [none']
      rfl
    · have own := captured.percent
      rw [same]
      cases entry with
      | mk percent' percentAt xpointer' dirtyPercent status' statusAt' dirtyStatus =>
          dsimp only at quiet own place ⊢
          obtain ⟨rfl, rfl⟩ := quiet
          rw [own, place]
          cases percentAt <;> rfl
  rw [cycle, capture_captured entry current now captured, flush_quiet entry server quiet]
  dsimp only
  rw [planned, stays, agreed]

theorem state_body_syncs (server : Server) (status : StatusAnswer)
    (held : (stateBody server).status = some status) :
    wireStatus (some status.status) = some status.status := by
  rw [state_body_status] at held
  obtain ⟨row, -, spelled⟩ := Option.bind_eq_some_iff.mp held
  obtain ⟨name, named, rfl⟩ := Option.map_eq_some_iff.mp spelled
  cases own : row.status with
  | unread => simp [own, koreaderStatus] at named
  | reading =>
      rw [own] at named
      obtain rfl := Option.some.inj named
      rfl
  | finished =>
      rw [own] at named
      obtain rfl := Option.some.inj named
      rfl

section Again

variable (entry : Entry) (current : Current) (server : Server) (landed : String)
  (captured : Captured entry current)
  (quiet : entry.dirtyPercent = false ∧ entry.dirtyStatus = false)
  (plan : PullPlan) (planned : plan = pullPlan entry (stateBody server) current)

include captured quiet planned

theorem position_planned (position : PositionAnswer)
    (held : (stateBody server).position = some position)
    (heard : entry.percentAt.getD 0 ≤ position.eventAt) :
    plan.percent = (placePlan position current).percent ∧
      plan.xpointer = (placePlan position current).xpointer ∧
      plan.percentAt = (placePlan position current).percentAt := by
  rw [planned, pullPlan, held]
  simp only [Option.map_some, Option.getD_some]
  rw [pull_percent_heard entry current position captured quiet.1 heard]
  exact ⟨rfl, rfl, rfl⟩

theorem status_planned (status : StatusAnswer) (held : (stateBody server).status = some status)
    (heard : entry.statusAt.getD 0 ≤ status.eventAt) :
    plan.status = (statusPlan status current).status ∧
      plan.statusAt = (statusPlan status current).statusAt := by
  rw [planned, pullPlan, held]
  simp only [Option.map_some, Option.getD_some]
  rw [pull_status_heard entry current status captured quiet.2 heard]
  exact ⟨rfl, rfl⟩

theorem position_again (position : PositionAnswer)
    (held : (stateBody server).position = some position) :
    pullPercent (settle entry (applyPlan plan current landed) plan) position
        (applyPlan plan current landed) = noPlan ∨
      (pullPercent (settle entry (applyPlan plan current landed) plan) position
          (applyPlan plan current landed) =
          { noPlan with percentAt := some position.eventAt } ∧
        plan.percentAt = some position.eventAt) := by
  obtain ⟨captured', quiet', -⟩ :=
    settled_captured entry (stateBody server) current landed captured quiet plan planned
  by_cases heard : entry.percentAt.getD 0 ≤ position.eventAt
  · obtain ⟨percent, xpointer, dated⟩ :=
      position_planned entry current server captured quiet plan planned position held heard
    have heard' : (settle entry (applyPlan plan current landed) plan).percentAt.getD 0 ≤
        position.eventAt := by
      rw [settle, dated]
      cases theirs : position.xpointer <;> cases ours : current.xpointer <;>
        simp only [placePlan, theirs, ours] <;> split_ifs <;> simp [noPlan, heard]
    rw [pull_percent_heard _ _ position captured' quiet' heard', dated]
    exact place_plan_again position current landed plan percent xpointer
  · apply Or.inl
    have deaf : plan.percentAt = none := by
      rw [planned, pullPlan, held]
      simp only [Option.map_some, Option.getD_some]
      rw [pull_percent_deaf entry current position (not_le.mp heard)]
      rfl
    apply pull_percent_deaf
    rw [settle, deaf]
    exact not_le.mp heard

theorem status_again (status : StatusAnswer) (held : (stateBody server).status = some status) :
    pullStatus (settle entry (applyPlan plan current landed) plan) status
      (applyPlan plan current landed) = noPlan := by
  obtain ⟨captured', -, quiet'⟩ :=
    settled_captured entry (stateBody server) current landed captured quiet plan planned
  by_cases heard : entry.statusAt.getD 0 ≤ status.eventAt
  · obtain ⟨applied, dated⟩ :=
      status_planned entry current server captured quiet plan planned status held heard
    have heard' : (settle entry (applyPlan plan current landed) plan).statusAt.getD 0 ≤
        status.eventAt := by
      rw [settle, dated, statusPlan]
      split_ifs <;> simp [noPlan, heard]
    rw [pull_status_heard _ _ status captured' quiet' heard', statusPlan]
    apply if_neg
    rw [applyPlan, applied, statusPlan]
    by_cases same : some status.status = wireStatus current.status
    · simp [same, noPlan]
    · simp [same, state_body_syncs server status held]
  · have deaf : plan.statusAt = none := by
      rw [planned, pullPlan, held]
      simp only [Option.map_some, Option.getD_some]
      rw [pull_status_deaf entry current status (not_le.mp heard)]
      rfl
    apply pull_status_deaf
    rw [settle, deaf]
    exact not_le.mp heard

theorem cycle_again (now : Int) (landed' : String) :
    cycle (settle entry (applyPlan plan current landed) plan) (applyPlan plan current landed) server
        now landed' =
      ⟨some (settle entry (applyPlan plan current landed) plan), applyPlan plan current landed,
        server, []⟩ := by
  obtain ⟨captured', quiet'⟩ :=
    settled_captured entry (stateBody server) current landed captured quiet plan planned
  generalize next : pullPlan (settle entry (applyPlan plan current landed) plan) (stateBody server)
    (applyPlan plan current landed) = plan'
  have place : plan'.percent = none ∧ plan'.xpointer = none ∧
      (plan'.percentAt = none ∨ (plan'.percentAt = plan.percentAt ∧ plan.percentAt.isSome)) := by
    rw [← next, pullPlan]
    cases held : (stateBody server).position with
    | none => exact ⟨rfl, rfl, Or.inl rfl⟩
    | some answer =>
        simp only [Option.map_some, Option.getD_some]
        obtain same | ⟨same, dated⟩ :=
          position_again entry current server landed captured quiet plan planned answer held
        · rw [same]
          exact ⟨rfl, rfl, Or.inl rfl⟩
        · rw [same, dated]
          exact ⟨rfl, rfl, Or.inr ⟨rfl, rfl⟩⟩
  have choice : plan'.status = none ∧ plan'.statusAt = none := by
    rw [← next, pullPlan]
    cases held : (stateBody server).status with
    | none => exact ⟨rfl, rfl⟩
    | some answer =>
        simp only [Option.map_some, Option.getD_some]
        rw [status_again entry current server landed captured quiet plan planned answer held]
        exact ⟨rfl, rfl⟩
  apply cycle_idle _ _ server now landed' captured' quiet' plan' next place.1 place.2.1 choice.1
    choice.2
  obtain undated | ⟨same, dated⟩ := place.2.2
  · exact Or.inl undated
  · apply Or.inr
    constructor
    · obtain ⟨eventAt, own⟩ := Option.isSome_iff_exists.mp dated
      rw [same, settle, own]
      rfl
    · rw [settle]
      exact if_pos dated

end Again

/-- The entry's clock of a field that is not pending is not ahead of the answer's; a device whose
own status does not sync keeps it. -/
structure Heard (entry : Entry) (current : Current) (answer : StateBody) : Prop where
  percent : entry.dirtyPercent = false → ∀ position, answer.position = some position →
    entry.percentAt.getD 0 ≤ position.eventAt
  status : entry.dirtyStatus = false → (wireStatus current.status).isSome →
    ∀ status, answer.status = some status → entry.statusAt.getD 0 ≤ status.eventAt

/-- What device and server share after a cycle in which `entry` was flushed to `server`. -/
structure Agreed (entry : Entry) (current : Current) (server : Server) (after : Entry)
    (device : Current) (server' : Server) : Prop where
  quiet : after.pending = false
  place : ∀ position, (stateBody server').position = some position → SamePlace device position
  status : ∀ status, (stateBody server').status = some status →
    wireStatus device.status = some status.status ∨
      (wireStatus current.status = none ∧ device.status = current.status ∧
        entry.dirtyStatus = false ∧ status.eventAt < entry.statusAt.getD 0)
  took : Took entry server server'

theorem pushed_captured (entry : Entry) (current : Current) (server : Server) (after : Entry)
    (server' : Server) (captured : Captured entry current)
    (pushed : Pushed entry server after server') : Captured after current := by
  refine ⟨⟨?_, ?_, ?_⟩, captured.reports, pushed.percent.trans captured.percent, ?_,
    pushed.status.trans captured.status⟩
  · rw [pushed.status]
    exact captured.formed.syncs
  · exact fun dirty => absurd pushed.quiet.1 (by simp [dirty])
  · exact fun dirty => absurd pushed.quiet.2 (by simp [dirty])
  · intro agreed here ours
    rw [pushed.xpointer] at ours
    exact captured.place agreed here ours

/-- Pending fields aside, a plan makes the device's place and status the server's. -/
theorem agreed_pull (entry : Entry) (current : Current) (server : Server) (landed : String)
    (after : Entry) (server' : Server) (captured : Captured entry current)
    (pushed : Pushed entry server after server')
    (heard : Heard entry current (stateBody server')) (plan : PullPlan)
    (planned : plan = pullPlan after (stateBody server') current) :
    Agreed entry current server (settle after (applyPlan plan current landed) plan)
      (applyPlan plan current landed) server' := by
  have capturedAfter := pushed_captured entry current server after server' captured pushed
  have quiet := (settled_captured after (stateBody server') current landed capturedAfter
    pushed.quiet plan planned).2
  constructor
  · rw [Entry.pending, quiet.1, quiet.2]
    rfl
  · intro position held
    have older : after.percentAt.getD 0 ≤ position.eventAt := by
      cases dirty : entry.dirtyPercent with
      | true => exact pushed.percentHeard dirty position held
      | false =>
          rw [pushed.percentAt dirty]
          exact heard.percent dirty position held
    obtain ⟨percent, xpointer, -⟩ := position_planned after current server' capturedAfter
      pushed.quiet plan planned position held older
    exact place_plan_same position current landed plan percent xpointer
  · intro status held
    by_cases older : after.statusAt.getD 0 ≤ status.eventAt
    · apply Or.inl
      obtain ⟨applied, -⟩ := status_planned after current server' capturedAfter pushed.quiet plan
        planned status held older
      rw [applyPlan, applied, statusPlan]
      by_cases same : some status.status = wireStatus current.status
      · simp [same, noPlan]
      · simp [same, state_body_syncs server' status held]
    · apply Or.inr
      have clean : entry.dirtyStatus = false := by
        by_contra dirty
        exact older (pushed.statusHeard (by simpa using dirty) status held)
      rw [pushed.statusAt clean] at older
      have unsynced : wireStatus current.status = none := by
        by_contra syncs
        exact older (heard.status clean (Option.isSome_iff_ne_none.mpr syncs) status held)
      have deaf : plan.status = none := by
        rw [planned, pullPlan, held]
        simp only [Option.map_some, Option.getD_some]
        rw [pull_status_deaf after current status (by rw [pushed.statusAt clean]; omega)]
        rfl
      refine ⟨unsynced, ?_, clean, not_le.mp older⟩
      rw [applyPlan, deaf]
      rfl
  · exact pushed.took

/-- Where every PUT of a cycle was answered, and no clock the entry keeps is ahead of the answer's,
nothing is pending after it, the device stands where the server does, each pending field ended at
the later value, and another cycle sends and changes nothing. -/
theorem device_and_server_agree (entry : Entry) (current : Current) (server : Server) (now : Int)
    (landed : String) (formed : Formed entry) (reports : current.percent.isSome)
    (answered : ∀ code ∈ (cycle entry current server now landed).codes, Answered code)
    (heard : Heard (capture entry current now) current
      (stateBody (cycle entry current server now landed).server)) :
    (∃ after, (cycle entry current server now landed).entry = some after ∧
      Agreed (capture entry current now) current server after
        (cycle entry current server now landed).device
        (cycle entry current server now landed).server ∧
      ∀ now' landed', cycle after (cycle entry current server now landed).device
          (cycle entry current server now landed).server now' landed' =
        ⟨some after, (cycle entry current server now landed).device,
          (cycle entry current server now landed).server, []⟩) ∧
    ∀ (pending : Entry) (remote : StateBody) (here : Current),
      (pending.dirtyPercent = true → (pullPlan pending remote here).percent = none ∧
        (pullPlan pending remote here).xpointer = none ∧
        (pullPlan pending remote here).percentAt = none) ∧
      (pending.dirtyStatus = true → (pullPlan pending remote here).status = none ∧
        (pullPlan pending remote here).statusAt = none) := by
  refine ⟨?_, pull_plan_pending⟩
  have captured := captured_capture entry current now reports formed
  have sent : (cycle entry current server now landed).codes =
      (flushBook (capture entry current now) server).codes := by
    rw [cycle]
    dsimp only
    split <;> rfl
  obtain ⟨pushed, kept, told⟩ :=
    flush_pushed (capture entry current now) server captured.formed (sent ▸ answered)
  rw [cycle, kept] at heard ⊢
  have capturedPushed := pushed_captured _ current server pushed _ captured told
  exact ⟨_, rfl, agreed_pull _ current server landed pushed _ captured told heard _ rfl,
    cycle_again pushed current _ landed capturedPushed told.quiet _ rfl⟩

def noSource : Source := ⟨none, fun _ => none, fun _ => none⟩

/-- The row of a surface that knows a percent alone. -/
def percentRow (percent eventAt : Int) : ProgressRow :=
  landedPosition eventAt ⟨none, some percent, none, none, none, none⟩ none

/-- A position lost to a newer one while the status of the same book landed. -/
theorem device_and_server_agree_lost_position :
    ∃ after, (cycle ⟨some 60, some 90, some "/p[1]", true, some "reading", some 40,
        false⟩ ⟨some 60, some "/p", some "complete"⟩
        ⟨1000, noSource, some (percentRow 30 95), some ⟨.reading, 40, none, false⟩⟩ 100
        "/q").entry = some after ∧ after.pending = false := by
  have agree := device_and_server_agree
    ⟨some 60, some 90, some "/p[1]", true, some "reading", some 40, false⟩
    ⟨some 60, some "/p", some "complete"⟩
    ⟨1000, noSource, some (percentRow 30 95), some ⟨.reading, 40, none, false⟩⟩ 100 "/q"
    ⟨by decide, by decide, by decide⟩ rfl
    (by unfold Answered; decide) ⟨by decide +kernel, by decide +kernel⟩
  obtain ⟨⟨after, kept, agreed, -⟩, -⟩ := agree
  exact ⟨after, kept, agreed.quiet⟩

/-- Where the entry's clock is ahead of the answer's for a status or a position, where the device
reports no percent, or where a newer position starts a book chosen unread after the status,
device and server stay apart or neither's value wins. -/
theorem agreed_clock_ahead_stays_apart :
    (∃ result, cycle ⟨some 50, some 10, none, false, some "reading", some 20, false⟩
        ⟨some 50, none, some "reading"⟩
        ⟨1000, noSource, some (percentRow 50 10), some ⟨.finished, 15, some 15, false⟩⟩ 200 "" =
        result ∧
      result.codes = [] ∧ result.device.status = some "reading" ∧
      (stateBody result.server).status = some ⟨"complete", 15⟩) ∧
    (∃ result, cycle ⟨some 50, some 100, none, false, none, some 0, false⟩ ⟨some 50, none, none⟩
        ⟨1000, noSource, some (percentRow 30 60), none⟩ 200 "" = result ∧
      result.codes = [] ∧ result.device.percent = some 50 ∧
      (stateBody result.server).position = some ⟨30, 60, none⟩) ∧
    (∃ result, cycle ⟨some 50, some 60, none, false, none, some 0, false⟩ ⟨none, none, none⟩
        ⟨1000, noSource, some (percentRow 50 60), none⟩ 200 "" = result ∧
      result.codes = [] ∧ result.device.percent = none ∧
      (stateBody result.server).position = some ⟨50, 60, none⟩) ∧
    (∃ result, cycle ⟨some 50, some 70, none, true, some "complete", some 60, true⟩
        ⟨some 50, none, some "complete"⟩
        ⟨1000, noSource, none, some ⟨.unread, 65, none, false⟩⟩ 200 "" = result ∧
      result.codes = [200, 200] ∧ result.device.status = some "reading") := by
  refine ⟨⟨_, rfl, ?_⟩, ⟨_, rfl, ?_⟩, ⟨_, rfl, ?_⟩, ⟨_, rfl, ?_⟩⟩ <;> decide +kernel

end Omnibus.Koreader.State
