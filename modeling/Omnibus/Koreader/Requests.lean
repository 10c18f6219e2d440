import Omnibus.Koreader.Unsent

/-!
# What becomes of every item of a push

The requests one push sends, and how its loop takes each answer. Every upsert and every delete
waits in the loop's lists until a request settles it, the server refuses it alone, or a problem
ends the push.
-/

namespace Omnibus.Koreader

open Omnibus.Library.Strings

/-- The variables of the push loop when it comes to its next request. -/
structure PushState where
  maxItems : ℕ+
  upsertAlone : Bool
  call : Nat
  refused : List Text
  ups : List Upsert
  dels : List Text
  state : Sync

inductive Reaction where
  | halved (maxItems : ℕ+)
  | alone
  | refused
  | settled (results : List Answer)
  | stopped (message : Text) (stop : Bool)

def PushState.start (ups : List Upsert) (dels : List Text) (state : Sync) : PushState :=
  ⟨pushBatch, false, 0, [], ups, dels, state⟩

def PushState.gone (here : PushState) : List Text :=
  takeDeletes here.upsertAlone here.dels here.maxItems

def PushState.left (here : PushState) : Nat :=
  pushLeft here.ups here.dels here.maxItems here.upsertAlone

def PushState.ended (here : PushState) : Prop := here.ups = [] ∧ here.dels = []

instance (here : PushState) : Decidable here.ended :=
  inferInstanceAs (Decidable (here.ups = [] ∧ here.dels = []))

section

variable (deps : Deps)

def PushState.sent (here : PushState) : List Upsert :=
  takeUpserts deps.encoded here.ups here.maxItems

theorem half_positive {count : Nat} (many : 1 < count) : 0 < (count + 1) / 2 := by omega

def PushState.reaction (here : PushState) : Reaction :=
  let sent := here.sent deps
  let posted := deps.post here.call
  if posted.code = some 413 then
    if many : 1 < max sent.length here.gone.length then
      .halved ⟨(max sent.length here.gone.length + 1) / 2, half_positive many⟩
    else if sent.length = 1 ∧ here.gone.length = 1 then .alone
    else .refused
  else
    match httpProblem posted.code posted.err with
    | some problem => .stopped problem (posted.code = none ∨ posted.code = some 401)
    | none =>
        match posted.reply with
        | none => .stopped "Omnibus sent a reply this plugin could not read".toList false
        | some results =>
            if sent ≠ [] ∧ results.answers = none then
              .stopped "Omnibus sent a reply this plugin could not read".toList false
            else if results = .other then .stopped raised true
            else .settled (results.answers.getD [])

/-- The line that reports the lone item of a refused request. -/
def PushState.refusal (here : PushState) : Text :=
  tooLarge ((((here.sent deps).head?.map (·.id)).or here.gone.head?).getD [])

def PushState.behind (here : PushState) : PushState :=
  { here with
    upsertAlone := false
    call := here.call + 1
    ups := here.ups.drop (here.sent deps).length
    dels := here.dels.drop here.gone.length }

def PushState.next (here : PushState) : Option PushState :=
  if here.ended then none
  else
    match here.reaction deps with
    | .halved maxItems =>
        some { here with maxItems := maxItems, upsertAlone := false, call := here.call + 1 }
    | .alone => some { here with upsertAlone := true, call := here.call + 1 }
    | .refused =>
        some { here.behind deps with refused := here.refused ++ [here.refusal deps] }
    | .settled results =>
        some { here.behind deps with
          state := settleBatch (here.sent deps) results here.gone here.state }
    | .stopped .. => none

def PushState.result (here : PushState) : Pushed :=
  if here.ended then ⟨joined here.refused, false, here.state⟩
  else
    match here.reaction deps with
    | .stopped message stop => ⟨some message, stop, here.state⟩
    | _ => ⟨joined here.refused, false, here.state⟩

def PushState.push (here : PushState) : Pushed :=
  Koreader.push deps here.maxItems here.upsertAlone here.call here.refused here.ups here.dels
    here.state

theorem push_next (here : PushState) :
    here.push deps =
      match here.next deps with
      | some after => after.push deps
      | none => here.result deps := by
  rw [PushState.push, Koreader.push]
  by_cases ended : here.ups = [] ∧ here.dels = []
  · rw [dif_pos ended, PushState.next, PushState.result]
    simp only [if_pos (show here.ended from ended)]
  · rw [dif_neg ended, PushState.next, PushState.result]
    simp only [if_neg (show ¬here.ended from ended), PushState.reaction]
    split
    case isTrue halve =>
      have many : 1 < max (here.sent deps).length here.gone.length := halve.2
      simp only [if_pos halve.1, dif_pos many]
      rfl
    case isFalse halve =>
      split
      case isTrue alone =>
        have few : ¬1 < max (here.sent deps).length here.gone.length :=
          fun many => halve ⟨alone.1, many⟩
        have lone : (here.sent deps).length = 1 ∧ here.gone.length = 1 := alone.2
        simp only [if_pos alone.1, dif_neg few, if_pos lone]
        rfl
      case isFalse alone =>
        split
        case isTrue refused =>
          have few : ¬1 < max (here.sent deps).length here.gone.length :=
            fun many => halve ⟨refused, many⟩
          have single : ¬((here.sent deps).length = 1 ∧ here.gone.length = 1) :=
            fun lone => alone ⟨refused, lone⟩
          simp only [dif_neg few, if_neg single]
          rfl
        case isFalse =>
          cases problem : httpProblem (deps.post here.call).code (deps.post here.call).err with
          | some problem => rfl
          | none =>
              cases reply : (deps.post here.call).reply with
              | none => rfl
              | some results =>
                  by_cases unread : here.sent deps ≠ [] ∧ results.answers = none
                  · have same : takeUpserts deps.encoded here.ups here.maxItems ≠ [] ∧
                        results.answers = none := unread
                    simp only [if_pos unread, if_pos same]
                  · have same : ¬(takeUpserts deps.encoded here.ups here.maxItems ≠ [] ∧
                        results.answers = none) := unread
                    simp only [if_neg unread, if_neg same]
                    by_cases raises : results = .other
                    · simp only [if_pos raises]
                    · simp only [if_neg raises]
                      rfl

/-! ## One request -/

variable {deps} {here after : PushState}

theorem gone_initial (here : PushState) : here.gone <+: here.dels := by
  rw [PushState.gone, takeDeletes]
  split
  · exact List.nil_prefix
  · exact List.take_prefix _ _

theorem http_problem_none {code : Option Nat} {err : Text} (none' : httpProblem code err = none) :
    code = some 200 := by
  cases code with
  | none => simp [httpProblem] at none'
  | some code =>
      by_cases ok : code = 200
      · rw [ok]
      · by_cases removed : code = 401 <;> simp [httpProblem, ok, removed] at none'

variable (deps) in
/-- What a branch of the loop knows of the request it is taken for. -/
def PushState.Knows (here : PushState) : Reaction → Prop
  | .halved maxItems => (deps.post here.call).code = some 413 ∧ (maxItems : ℕ) < here.maxItems
  | .alone =>
      (deps.post here.call).code = some 413 ∧ (here.sent deps).length = 1 ∧ here.gone.length = 1
  | .refused =>
      (deps.post here.call).code = some 413 ∧ (here.sent deps).length + here.gone.length ≤ 1
  | .settled _ => (deps.post here.call).code = some 200
  | .stopped .. => True

theorem reaction_known (here : PushState) : here.Knows deps (here.reaction deps) := by
  have fits : (here.sent deps).length ≤ here.maxItems := take_upserts_length _ _ _
  have short : here.gone.length ≤ here.maxItems := take_deletes_length _ _ _
  simp only [PushState.reaction]
  split
  next tooMuch =>
    split
    · simp only [PushState.Knows, PNat.mk_coe]
      exact ⟨tooMuch, by omega⟩
    · split
      next lone => exact ⟨tooMuch, lone⟩
      · exact ⟨tooMuch, by omega⟩
  · split
    · trivial
    next answered =>
      split
      · trivial
      · split
        · trivial
        · split
          · trivial
          · exact http_problem_none answered

variable (deps) in
/-- The state at which the next request is sent, by how the last answer is taken. -/
inductive PushState.Follows (here : PushState) : PushState → Prop where
  | halved (maxItems : ℕ+) (taken : here.reaction deps = .halved maxItems) :
      here.Follows { here with maxItems := maxItems, upsertAlone := false, call := here.call + 1 }
  | alone (taken : here.reaction deps = .alone) :
      here.Follows { here with upsertAlone := true, call := here.call + 1 }
  | refused (taken : here.reaction deps = .refused) :
      here.Follows { here.behind deps with refused := here.refused ++ [here.refusal deps] }
  | settled (results : List Answer) (taken : here.reaction deps = .settled results) :
      here.Follows { here.behind deps with
        state := settleBatch (here.sent deps) results here.gone here.state }

theorem next_follows (found : here.next deps = some after) :
    ¬here.ended ∧ here.Follows deps after := by
  rw [PushState.next] at found
  split at found
  · cases found
  next going =>
    refine ⟨going, ?_⟩
    cases taken : here.reaction deps with
    | halved maxItems =>
        rw [taken] at found
        obtain rfl := Option.some.inj found
        exact .halved maxItems taken
    | alone =>
        rw [taken] at found
        obtain rfl := Option.some.inj found
        exact .alone taken
    | refused =>
        rw [taken] at found
        obtain rfl := Option.some.inj found
        exact .refused taken
    | settled results =>
        rw [taken] at found
        obtain rfl := Option.some.inj found
        exact .settled results taken
    | stopped message stop =>
        rw [taken] at found
        cases found

theorem next_none (none' : here.next deps = none) (going : ¬here.ended) :
    ∃ message stop, here.reaction deps = .stopped message stop := by
  rw [PushState.next, if_neg going] at none'
  cases reaction : here.reaction deps with
  | stopped message stop => exact ⟨message, stop, rfl⟩
  | _ => simp [reaction] at none'

theorem next_left (found : here.next deps = some after) : after.left < here.left := by
  obtain ⟨going, follows⟩ := next_follows found
  have known := @reaction_known deps here
  cases follows with
  | halved maxItems taken =>
      rw [taken] at known
      have fewer : (maxItems : ℕ) < here.maxItems := known.2
      simp only [PushState.left, pushLeft, Bool.false_eq_true, if_false]
      omega
  | alone taken =>
      rw [taken] at known
      obtain ⟨-, lone, loneDelete⟩ := known
      have waiting : here.ups ≠ [] := by
        intro nothing
        simp [PushState.sent, nothing, takeUpserts, takeWithin] at lone
      have first : here.upsertAlone = false := by
        by_contra again
        rw [Bool.not_eq_false] at again
        simp [PushState.gone, takeDeletes, again] at loneDelete
      simp [PushState.left, pushLeft, waiting, first]
  | refused taken => exact push_left_drop deps.encoded _ _ _ _ going
  | settled results taken => exact push_left_drop deps.encoded _ _ _ _ going

variable (deps) in
def requests (here : PushState) : List PushState :=
  match _ : here.next deps with
  | some after => here :: requests after
  | none => if here.ended then [] else [here]
termination_by here.left
decreasing_by exact next_left (by assumption)

/-! ## Where the items go -/

def Reaction.isSettled : Reaction → Bool
  | .settled _ => true
  | _ => false

def Reaction.isRefused : Reaction → Bool
  | .refused => true
  | _ => false

def Reaction.isStopped : Reaction → Bool
  | .stopped .. => true
  | _ => false

variable (deps) in
def gathered {Item : Type} (such : Reaction → Bool) (items : PushState → List Item)
    (run : List PushState) : List Item :=
  run.flatMap fun request => if such (request.reaction deps) then items request else []

theorem mem_gathered {Item : Type} {such : Reaction → Bool} {items : PushState → List Item}
    {run : List PushState} {item : Item} :
    item ∈ gathered deps such items run ↔
      ∃ request ∈ run, such (request.reaction deps) = true ∧ item ∈ items request := by
  simp [gathered]

theorem mem_refused {Item : Type} {items : PushState → List Item} {run : List PushState}
    {item : Item} :
    item ∈ gathered deps Reaction.isRefused items run ↔
      ∃ request ∈ run, request.reaction deps = .refused ∧ item ∈ items request := by
  have refused (reaction : Reaction) : reaction.isRefused = true ↔ reaction = .refused := by
    cases reaction <;> simp [Reaction.isRefused]
  simp only [mem_gathered, refused]

/-- The items of a request leave the list they wait in once they are settled or refused. -/
structure Leaves {Item : Type} (deps : Deps) (waiting taken : PushState → List Item) : Prop where
  first : ∀ here, taken here <+: waiting here
  settled : ∀ here after, here.next deps = some after →
    (here.reaction deps).isSettled ∨ (here.reaction deps).isRefused →
      waiting after = (waiting here).drop (taken here).length
  again : ∀ here after, here.next deps = some after →
    ¬((here.reaction deps).isSettled ∨ (here.reaction deps).isRefused) →
      waiting after = waiting here
  ended : ∀ here, here.ended → waiting here = []

theorem next_settled (found : here.next deps = some after)
    (done : (here.reaction deps).isSettled ∨ (here.reaction deps).isRefused) :
    after.ups = here.ups.drop (here.sent deps).length ∧
      after.dels = here.dels.drop here.gone.length := by
  cases (next_follows found).2 with
  | refused | settled => exact ⟨rfl, rfl⟩
  | halved _ taken | alone taken => simp [taken, Reaction.isSettled, Reaction.isRefused] at done

theorem next_again (found : here.next deps = some after)
    (again : ¬((here.reaction deps).isSettled ∨ (here.reaction deps).isRefused)) :
    after.ups = here.ups ∧ after.dels = here.dels := by
  cases (next_follows found).2 with
  | halved | alone => exact ⟨rfl, rfl⟩
  | refused taken | settled _ taken =>
      simp [taken, Reaction.isSettled, Reaction.isRefused] at again

theorem upserts_leave (deps : Deps) : Leaves deps PushState.ups (PushState.sent deps) where
  first here := take_upserts_initial deps.encoded here.ups here.maxItems
  settled _ _ found done := (next_settled found done).1
  again _ _ found again := (next_again found again).1
  ended _ ended := ended.1

theorem deletes_leave (deps : Deps) : Leaves deps PushState.dels PushState.gone where
  first := gone_initial
  settled _ _ found done := (next_settled found done).2
  again _ _ found again := (next_again found again).2
  ended _ ended := ended.2

section

variable {Item : Type} {waiting taken : PushState → List Item}

/-- Every item that waits is settled, refused or left by the request that stopped the push, and
only one of these. -/
theorem requests_gather (leaves : Leaves deps waiting taken) (here : PushState) :
    (waiting here).Perm
      (gathered deps Reaction.isSettled taken (requests deps here) ++
        (gathered deps Reaction.isRefused taken (requests deps here) ++
          gathered deps Reaction.isStopped waiting (requests deps here))) := by
  classical
  fun_induction requests deps here with
  | case1 here after found induction =>
      rw [List.perm_iff_count] at induction ⊢
      intro item
      have later := induction item
      have whole := List.prefix_iff_eq_append.mp (leaves.first here)
      have parts := congrArg (List.count item) whole
      rw [List.count_append] at parts
      cases (next_follows found).2 with
      | refused taken | settled _ taken =>
          rw [leaves.settled here _ found (by simp [taken, Reaction.isSettled, Reaction.isRefused])]
            at later
          simp [gathered, taken, Reaction.isSettled, Reaction.isRefused, Reaction.isStopped]
            at later ⊢
          omega
      | halved _ taken | alone taken =>
          rw [leaves.again here _ found (by simp [taken, Reaction.isSettled, Reaction.isRefused])]
            at later
          simpa [gathered, taken, Reaction.isSettled, Reaction.isRefused, Reaction.isStopped]
            using later
  | case2 here last ended =>
      rw [leaves.ended here ended]
      exact List.Perm.refl _
  | case3 here last going =>
      obtain ⟨message, stop, taken⟩ := next_none last going
      simp [gathered, taken, Reaction.isSettled, Reaction.isRefused, Reaction.isStopped]

theorem Leaves.next_suffix (leaves : Leaves deps waiting taken)
    (found : here.next deps = some after) : waiting after <:+ waiting here := by
  by_cases done : (here.reaction deps).isSettled ∨ (here.reaction deps).isRefused
  · rw [leaves.settled here after found done]
    exact List.drop_suffix _ _
  · exact leaves.again here after found done ▸ List.suffix_rfl

theorem requests_suffix (leaves : Leaves deps waiting taken) (here later : PushState)
    (member : later ∈ requests deps here) : waiting later <:+ waiting here := by
  fun_induction requests deps here with
  | case1 here after found induction =>
      obtain rfl | member := List.mem_cons.mp member
      · exact List.suffix_rfl
      · exact (induction member).trans (leaves.next_suffix found)
  | case2 => simp at member
  | case3 here =>
      obtain rfl := List.mem_singleton.mp member
      exact List.suffix_rfl

end

/-! ## The whole push -/

variable (deps) in
def settledBy (state : Sync) (request : PushState) : Sync :=
  match request.reaction deps with
  | .settled results => settleBatch (request.sent deps) results request.gone state
  | _ => state

variable (deps) in
def Stopped (run : List PushState) : Prop :=
  ∃ request ∈ run, (request.reaction deps).isStopped = true

variable (deps) in
def refusals (run : List PushState) : List Text :=
  gathered deps Reaction.isRefused (fun request => [request.refusal deps]) run

theorem requests_bound (here : PushState) : (requests deps here).length ≤ here.left := by
  fun_induction requests deps here with
  | case1 here after found induction =>
      have fewer := next_left found
      rw [List.length_cons]
      omega
  | case2 => simp
  | case3 here =>
      have positive := here.maxItems.pos
      simp only [List.length_singleton, PushState.left, pushLeft]
      omega

theorem push_settles (here : PushState) :
    (here.push deps).state = (requests deps here).foldl (settledBy deps) here.state := by
  fun_induction requests deps here with
  | case1 here after found induction =>
      rw [push_next, found, List.foldl_cons]
      refine induction.trans (congrArg (fun state => List.foldl _ state _) ?_)
      cases (next_follows found).2 with
      | halved _ taken | alone taken | refused taken | settled _ taken =>
          simp only [settledBy, taken, PushState.behind]
  | case2 here none' ended => rw [push_next, none', PushState.result, if_pos ended]; rfl
  | case3 here none' going =>
      obtain ⟨message, stop, reaction⟩ := next_none none' going
      rw [push_next, none', PushState.result, if_neg going]
      simp only [reaction, List.foldl_cons, List.foldl_nil, settledBy]

theorem push_problem (here : PushState) (stopped : Stopped deps (requests deps here)) :
    ∃ request ∈ requests deps here, ∃ message stop,
      request.reaction deps = .stopped message stop ∧
        (here.push deps).message = some message := by
  fun_induction requests deps here with
  | case1 here after found induction =>
      obtain ⟨request, member, problem⟩ := stopped
      obtain rfl | member := List.mem_cons.mp member
      · cases (next_follows found).2 with
        | halved _ taken | alone taken | refused taken | settled _ taken =>
            simp [taken, Reaction.isStopped] at problem
      · obtain ⟨last, there, message, stop, reaction, told⟩ :=
          induction ⟨request, member, problem⟩
        refine ⟨last, List.mem_cons_of_mem _ there, message, stop, reaction, ?_⟩
        rw [push_next, found]
        exact told
  | case2 => simp [Stopped] at stopped
  | case3 here none' going =>
      obtain ⟨message, stop, reaction⟩ := next_none none' going
      refine ⟨here, List.mem_singleton_self _, message, stop, reaction, ?_⟩
      rw [push_next, none', PushState.result, if_neg going]
      simp only [reaction]

theorem push_reports (here : PushState) (finished : ¬Stopped deps (requests deps here)) :
    (here.push deps).message = joined (here.refused ++ refusals deps (requests deps here)) := by
  fun_induction requests deps here with
  | case1 here after found induction =>
      have later : ¬Stopped deps (requests deps after) :=
        fun ⟨request, member, problem⟩ =>
          finished ⟨request, List.mem_cons_of_mem _ member, problem⟩
      rw [push_next, found]
      refine (induction later).trans (congrArg joined ?_)
      cases (next_follows found).2 with
      | halved _ taken | alone taken | refused taken | settled _ taken =>
          simp [refusals, gathered, taken, Reaction.isRefused, PushState.behind]
  | case2 here none' ended =>
      rw [push_next, none', PushState.result, if_pos ended]
      simp [refusals, gathered]
  | case3 here none' going =>
      obtain ⟨message, stop, reaction⟩ := next_none none' going
      exact absurd ⟨here, List.mem_singleton_self _, by rw [reaction]; rfl⟩ finished

variable (deps) in
/-- What a request that was answered 200 sent is not sent by a later one. -/
def NotAgain (request later : PushState) : Prop :=
  (deps.post request.call).code = some 200 →
    (∀ up ∈ request.sent deps, ∀ other ∈ later.sent deps, up.id ≠ other.id) ∧
      later.dels <:+ request.dels.drop request.gone.length

theorem accepted_settled (found : here.next deps = some after)
    (accepted : (deps.post here.call).code = some 200) : (here.reaction deps).isSettled := by
  have known := @reaction_known deps here
  cases (next_follows found).2 with
  | settled _ taken =>
      rw [taken]
      rfl
  | halved _ taken | alone taken | refused taken =>
      rw [taken] at known
      simp [PushState.Knows, accepted] at known

theorem requests_not_again (here : PushState) (distinct : (here.ups.map (·.id)).Nodup) :
    (requests deps here).Pairwise (NotAgain deps) := by
  fun_induction requests deps here with
  | case1 here after found induction =>
      have fewer := (upserts_leave deps).next_suffix found
      refine List.pairwise_cons.mpr
        ⟨?_, induction (distinct.sublist (fewer.sublist.map (·.id)))⟩
      intro later member accepted
      have behind := next_settled found (.inl (accepted_settled found accepted))
      constructor
      · intro up sent other sentLater same
        have whole := List.prefix_iff_eq_append.mp ((upserts_leave deps).first here)
        have waits : other ∈ here.ups.drop (here.sent deps).length := by
          rw [← behind.1]
          exact (requests_suffix (upserts_leave deps) after later member).subset
            (((upserts_leave deps).first later).subset sentLater)
        rw [← whole, List.map_append, List.nodup_append] at distinct
        exact distinct.2.2 _ (List.mem_map_of_mem sent) _ (List.mem_map_of_mem waits) same
      · rw [← behind.2]
        exact requests_suffix (deletes_leave deps) after later member
  | case2 => exact List.Pairwise.nil
  | case3 => exact List.pairwise_singleton _ _

theorem refused_delete (refused : here.reaction deps = .refused) (id : Text)
    (member : id ∈ here.gone) : here.refusal deps = tooLarge id := by
  have known := @reaction_known deps here
  rw [refused] at known
  have single := known.2
  have some' : 0 < here.gone.length := List.length_pos_of_mem member
  have none' : here.sent deps = [] := List.length_eq_zero_iff.mp (by omega)
  obtain ⟨only, lone⟩ := List.length_eq_one_iff.mp (show here.gone.length = 1 by omega)
  rw [lone, List.mem_singleton] at member
  simp [PushState.refusal, none', lone, member]

theorem refused_upsert (refused : here.reaction deps = .refused) (up : Upsert)
    (member : up ∈ here.sent deps) :
    here.sent deps = [up] ∧ here.refusal deps = tooLarge up.id := by
  have known := @reaction_known deps here
  rw [refused] at known
  have single := known.2
  have some' : 0 < (here.sent deps).length := List.length_pos_of_mem member
  obtain ⟨only, lone⟩ := List.length_eq_one_iff.mp (show (here.sent deps).length = 1 by omega)
  rw [lone, List.mem_singleton] at member
  simp [PushState.refusal, lone, member]

theorem answer_for_none (results : List Answer) (id : Text)
    (none' : ∀ answer ∈ results, answer.id ≠ some id) : answerFor results id = none := by
  rw [answerFor, List.getLast?_eq_none_iff, List.filter_eq_nil_iff]
  intro answer member
  simpa using none' answer member

theorem answer_for_own (results : List Answer) (up : Upsert)
    (own : ∃ answer ∈ results, answer.id = some up.id) :
    ∃ answer ∈ results, answer.id = some up.id ∧
      ∀ state, settleUpsert results state up = settleUpsert [answer] state up := by
  cases found : answerFor results up.id with
  | none =>
      obtain ⟨answer, member, same⟩ := own
      rw [answerFor, List.getLast?_eq_none_iff, List.filter_eq_nil_iff] at found
      exact absurd (decide_eq_true same) (found answer member)
  | some answer =>
      have member := List.mem_of_getLast? found
      rw [List.mem_filter, decide_eq_true_eq] at member
      refine ⟨answer, member.1, member.2, fun state => ?_⟩
      have alone : answerFor [answer] up.id = some answer := by
        simp [answerFor, member.2]
      rw [settleUpsert, settleUpsert, found, alone]

theorem settle_upsert_lookup (results : List Answer) (state : Sync) (up : Upsert) (id : Text)
    (other : up.id ≠ id) :
    (settleUpsert results state up).agreed.lookup id = state.agreed.lookup id := by
  rw [settleUpsert]
  split
  case h_4 => exact AList.lookup_erase_ne other.symm
  case h_6 => rfl
  all_goals exact AList.lookup_insert_ne other.symm

theorem settle_fold_lookup (results : List Answer) (sent : List Upsert) (state : Sync) (id : Text)
    (passes : ∀ up ∈ sent, up.id = id → ∀ state, settleUpsert results state up = state) :
    (sent.foldl (settleUpsert results) state).agreed.lookup id = state.agreed.lookup id := by
  induction sent generalizing state with
  | nil => rfl
  | cons up rest induction =>
      rw [List.foldl_cons,
        induction _ fun later member => passes later (List.mem_cons_of_mem _ member)]
      by_cases same : up.id = id
      · rw [passes up List.mem_cons_self same]
      · exact settle_upsert_lookup results state up id same

/-- What is agreed on for an id stays while its upsert has no answer of its own and no delete
names it. -/
theorem settled_by_lookup (run : List PushState) (state : Sync) (id : Text)
    (unanswered : ∀ request ∈ run, ∀ results, request.reaction deps = .settled results →
      ∀ up ∈ request.sent deps, up.id = id → ∀ answer ∈ results, answer.id ≠ some id)
    (stays : ∀ request ∈ run, id ∉ request.gone) :
    (run.foldl (settledBy deps) state).agreed.lookup id = state.agreed.lookup id := by
  induction run generalizing state with
  | nil => rfl
  | cons request rest induction =>
      rw [List.foldl_cons, induction _
        (fun later member => unanswered later (List.mem_cons_of_mem _ member))
        fun later member => stays later (List.mem_cons_of_mem _ member)]
      cases reaction : request.reaction deps with
      | settled results =>
          have passes (up : Upsert) (sent : up ∈ request.sent deps) (same : up.id = id)
              (state : Sync) : settleUpsert results state up = state := by
            have none' := unanswered request List.mem_cons_self results reaction up sent same
            refine settle_upsert_unanswered results state up fun answer found => ?_
            rw [same, answer_for_none results id none'] at found
            cases found
          have kept := settle_fold_lookup results (request.sent deps) state id passes
          simp only [settledBy, reaction, settleBatch, settleResults]
          rw [forget_lookup _ _ id (stays request List.mem_cons_self), kept]
      | _ => simp only [settledBy, reaction]

/-! ## Every item accounted for -/

section

variable (deps) (run : List PushState) (message : Option Text)

/-- The message is that of the refused items, and names this one. -/
def Reported (id : Text) : Prop :=
  message = joined (refusals deps run) ∧ tooLarge id ∈ refusals deps run

def acknowledged : List Text := gathered deps Reaction.isSettled PushState.gone run

instance : Decidable (Stopped deps run) :=
  inferInstanceAs (Decidable (∃ request ∈ run, (request.reaction deps).isStopped = true))

/-- The deletes that were refused alone, in a push that says so. -/
def reported : List Text :=
  if Stopped deps run then [] else gathered deps Reaction.isRefused PushState.gone run

/-- The deletes that waited when a problem ended the push. -/
def unreached : List Text := gathered deps Reaction.isStopped PushState.dels run

inductive UpsertFate (up : Upsert) : Prop where
  | settled (request : PushState) (results : List Answer) (answer : Answer)
      (inRun : request ∈ run) (sent : up ∈ request.sent deps)
      (answered : request.reaction deps = .settled results)
      (own : answer ∈ results ∧ answer.id = some up.id)
      (only : ∀ state, settleUpsert results state up = settleUpsert [answer] state up)
  | unanswered (request : PushState) (results : List Answer)
      (inRun : request ∈ run) (sent : up ∈ request.sent deps)
      (answered : request.reaction deps = .settled results)
      (none' : ∀ answer ∈ results, answer.id ≠ some up.id)
  | refused (request : PushState) (inRun : request ∈ run) (alone : request.sent deps = [up])
      (answered : request.reaction deps = .refused) (told : Reported deps run message up.id)
  | kept (stopped : Stopped deps run) (request : PushState) (inRun : request ∈ run)
      (sent : up ∈ request.sent deps)
      (never : ∀ other ∈ run, (other.reaction deps).isSettled = true → up ∉ other.sent deps)
  | unreached (stopped : Stopped deps run) (never : ∀ request ∈ run, up ∉ request.sent deps)

end

variable (deps) in
def pushRun (ups : List Upsert) (dels : List Text) (state : Sync) : List PushState :=
  requests deps (.start ups dels state)

structure PushAccounted (deps : Deps) (ups : List Upsert) (dels : List Text) (state : Sync)
    (run : List PushState) (after : Pushed) : Prop where
  ends : run.length ≤ 3 * (ups.length + dels.length + pushBatch) + 1
  settles : after.state = run.foldl (settledBy deps) state
  stops : Stopped deps run → ∃ request ∈ run, ∃ message stop,
    request.reaction deps = .stopped message stop ∧ after.message = some message
  upserts : ∀ up ∈ ups, UpsertFate deps run after.message up
  unanswered : ∀ up ∈ ups, up.id ∉ dels →
    (∀ request ∈ run, ∀ results, request.reaction deps = .settled results →
      up ∈ request.sent deps → ∀ answer ∈ results, answer.id ≠ some up.id) →
    after.state.agreed.lookup up.id = state.agreed.lookup up.id
  deletes : dels.Perm (acknowledged deps run ++ (reported deps run ++ unreached deps run))
  reports : ∀ id ∈ reported deps run, Reported deps run after.message id
  once : run.Pairwise (NotAgain deps)

variable (deps) in
/-- A delete was refused alone before a problem ended the push. -/
def LosesDelete (run : List PushState) : Prop :=
  Stopped deps run ∧ ∃ request ∈ run, request.reaction deps = .refused ∧ request.gone ≠ []

theorem refused_reported (run : List PushState) (request : PushState) (id : Text)
    (member : request ∈ run) (refused : request.reaction deps = .refused)
    (names : request.refusal deps = tooLarge id) : tooLarge id ∈ refusals deps run :=
  mem_refused.mpr ⟨request, member, refused, by rw [names]; exact List.mem_singleton_self _⟩

theorem upsert_fate (ups : List Upsert) (dels : List Text) (state : Sync)
    (distinct : (ups.map (·.id)).Nodup) (up : Upsert) (member : up ∈ ups) :
    UpsertFate deps (pushRun deps ups dels state)
      (push deps pushBatch false 0 [] ups dels state).message up := by
  have perm := requests_gather (upserts_leave deps) (.start ups dels state)
  have each := (List.perm_ext_iff_of_nodup (distinct.of_map _) (perm.nodup (distinct.of_map _))).mp
  have apart := List.nodup_append.mp (perm.nodup (distinct.of_map _))
  obtain settled | rest := List.mem_append.mp (perm.subset member)
  · obtain ⟨request, inRun, such, sent⟩ := mem_gathered.mp settled
    cases answered : request.reaction deps with
    | settled results =>
        by_cases own : ∃ answer ∈ results, answer.id = some up.id
        · obtain ⟨answer, there, same, only⟩ := answer_for_own results up own
          exact .settled request results answer inRun sent answered ⟨there, same⟩ only
        · exact .unanswered request results inRun sent answered
            fun answer there same => own ⟨answer, there, same⟩
    | _ => simp [answered, Reaction.isSettled] at such
  · have never (request : PushState) (inRun : request ∈ pushRun deps ups dels state)
        (such : (request.reaction deps).isSettled = true) : up ∉ request.sent deps :=
      fun sent => apart.2.2 up (mem_gathered.mpr ⟨request, inRun, such, sent⟩) up rest rfl
    by_cases stopped : Stopped deps (pushRun deps ups dels state)
    · by_cases sent : ∃ request ∈ pushRun deps ups dels state, up ∈ request.sent deps
      · obtain ⟨request, inRun, sent⟩ := sent
        exact .kept stopped request inRun sent never
      · exact .unreached stopped fun request inRun sent' => sent ⟨request, inRun, sent'⟩
    · obtain refused | left := List.mem_append.mp rest
      · obtain ⟨request, inRun, answered, sent⟩ := mem_refused.mp refused
        obtain ⟨alone, names⟩ := refused_upsert answered up sent
        exact .refused request inRun alone answered
          ⟨push_reports (.start ups dels state) stopped,
            refused_reported _ request up.id inRun answered names⟩
      · obtain ⟨request, inRun, such, -⟩ := mem_gathered.mp left
        exact absurd ⟨request, inRun, such⟩ stopped

/-- A push accounts for all of its items unless a problem follows the refusal of a lone delete:
the message is then the problem's, and the refusal is in none. -/
theorem push_accounts_iff (deps : Deps) (ups : List Upsert) (dels : List Text) (state : Sync)
    (distinct : (ups.map (·.id)).Nodup) :
    PushAccounted deps ups dels state (pushRun deps ups dels state)
        (push deps pushBatch false 0 [] ups dels state) ↔
      ¬LosesDelete deps (pushRun deps ups dels state) := by
  have perm := requests_gather (deletes_leave deps) (.start ups dels state)
  constructor
  · rintro accounted ⟨stopped, request, member, refused, some'⟩
    have same := (perm.symm.trans accounted.deletes).length_eq
    have positive : 0 < (gathered deps Reaction.isRefused PushState.gone
        (pushRun deps ups dels state)).length := by
      obtain ⟨id, gone⟩ := List.exists_mem_of_ne_nil _ some'
      exact List.length_pos_of_mem (mem_refused.mpr ⟨request, member, refused, gone⟩)
    have told : reported deps (pushRun deps ups dels state) = [] := if_pos stopped
    rw [told] at same
    simp only [List.length_append, acknowledged, unreached, List.length_nil, pushRun]
      at same positive
    omega
  · intro keeps
    constructor
    · exact requests_bound (.start ups dels state)
    · exact push_settles (.start ups dels state)
    · exact push_problem (.start ups dels state)
    · exact upsert_fate ups dels state distinct
    · intro up member stays unanswered
      refine (congrArg (fun after => after.agreed.lookup up.id)
        (push_settles (.start ups dels state))).trans (settled_by_lookup _ state up.id ?_ ?_)
      · intro request inRun results answered other sent same
        have waits := (requests_suffix (upserts_leave deps) _ request inRun).subset
          (((upserts_leave deps).first request).subset sent)
        have same := List.inj_on_of_nodup_map distinct waits member same
        subst same
        exact unanswered request inRun results answered sent
      · intro request inRun gone
        exact stays ((requests_suffix (deletes_leave deps) _ request inRun).subset
          (((deletes_leave deps).first request).subset gone))
    · have told : reported deps (pushRun deps ups dels state) =
          gathered deps Reaction.isRefused PushState.gone (pushRun deps ups dels state) := by
        rw [reported]
        split
        next stopped =>
          refine (List.eq_nil_iff_forall_not_mem.mpr fun id member => ?_).symm
          obtain ⟨request, inRun, answered, gone⟩ := mem_refused.mp member
          exact keeps ⟨stopped, request, inRun, answered, List.ne_nil_of_mem gone⟩
        · rfl
      rw [told]
      exact perm
    · intro id member
      by_cases stopped : Stopped deps (pushRun deps ups dels state)
      · rw [reported, if_pos stopped] at member
        cases member
      · rw [reported, if_neg stopped] at member
        obtain ⟨request, inRun, answered, gone⟩ := mem_refused.mp member
        exact ⟨push_reports (.start ups dels state) stopped,
          refused_reported _ request id inRun answered (refused_delete answered id gone)⟩
    · exact requests_not_again _ distinct

/-! ## Two deletes for a server that takes neither request -/

/-- The server refuses two requests as too large, then answers with the code. -/
def refusingTwice (code : Nat) : Deps where
  now _ := 0
  newId _ := []
  encoded _ := 100
  parseDatetime _ := none
  post call := if call < 2 then ⟨some 413, none, []⟩ else ⟨some code, some (.table []), []⟩
  get _ := ⟨none, none, []⟩
  add _ := none

def noHighlights : Sync := ⟨[], ∅, ∅, none, false, [], []⟩

/-- The first delete is refused alone, and the message is that of the second. -/
theorem lone_delete_unreported :
    (push (refusingTwice 500) pushBatch false 0 [] [] ["d1".toList, "d2".toList]
        noHighlights).message = some "Omnibus answered HTTP 500".toList ∧
      ¬PushAccounted (refusingTwice 500) [] ["d1".toList, "d2".toList] noHighlights
        (pushRun (refusingTwice 500) [] ["d1".toList, "d2".toList] noHighlights)
        (push (refusingTwice 500) pushBatch false 0 [] [] ["d1".toList, "d2".toList]
          noHighlights) := by
  constructor
  · decide +kernel
  · intro accounted
    have same := accounted.deletes.length_eq
    have counted : (acknowledged (refusingTwice 500) (pushRun (refusingTwice 500) []
        ["d1".toList, "d2".toList] noHighlights) ++
          (reported (refusingTwice 500) (pushRun (refusingTwice 500) []
              ["d1".toList, "d2".toList] noHighlights) ++
            unreached (refusingTwice 500) (pushRun (refusingTwice 500) []
              ["d1".toList, "d2".toList] noHighlights))).length = 1 := by
      decide +kernel
    rw [counted] at same
    exact absurd same (by decide)

theorem push_accounts_after_200 :
    PushAccounted (refusingTwice 200) [] ["d1".toList, "d2".toList] noHighlights
      (pushRun (refusingTwice 200) [] ["d1".toList, "d2".toList] noHighlights)
      (push (refusingTwice 200) pushBatch false 0 [] [] ["d1".toList, "d2".toList]
        noHighlights) := by
  refine (push_accounts_iff (refusingTwice 200) [] ["d1".toList, "d2".toList] noHighlights
    List.nodup_nil).mpr fun ⟨stopped, _⟩ => ?_
  exact absurd stopped (by decide +kernel)

end

end Omnibus.Koreader
