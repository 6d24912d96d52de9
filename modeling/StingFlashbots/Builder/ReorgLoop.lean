import Mathlib.Data.List.AList
import StingFlashbots.Base.Trace
import StingFlashbots.Builder.Lookup

/-
  The loop that schedules the work of the pool.

  Goroutines do not reset the pool or promote transactions
  themselves. They ask `scheduleReorgLoop` over a channel and
  get back a channel that is closed when the work is done.
  The loop runs one `runReorg` at a time. What is asked for
  in the meantime is merged and handed to the next one.

  The channels are unbuffered. A goroutine whose request has
  been taken waits for the reply in a second step, and the
  loop waits for somebody who takes it.

  Key definitions include:
    * `Builder.Scheduler`
    * `Builder.ReorgSystem`
    * `Builder.ReorgSystem.step`

  Main results:
    * `Builder.ReorgSystem.inv_step`
    * `Builder.ReorgSystem.resets_linked`
    * `Builder.ReorgSystem.closed_served`
    * `Builder.ReorgSystem.answers_canClose`
-/

namespace Builder

open Sting

------------------------------------------------------------
-- Requests
------------------------------------------------------------

/- `txpoolResetRequest` -/
structure ResetRequest where
  oldHead : Header
  newHead : Header

/-
  The sorted maps of go-ethereum, as far as the loop uses
  them, and the sender of a transaction.
-/
structure EventTypes (Tx Events : Type) where
  sender : Tx → Address
  newSortedMap : Events
  put : Events → Tx → Events

/- A channel that is only ever closed. -/
abbrev DoneCh : Type := Nat

/- What the loop hands to a `runReorg`. -/
structure Work (Events : Type) where
  reset : Option ResetRequest
  dirtyAccounts : Option AccountSet
  queuedEvents : AList (fun _ : Address => Events)

namespace Work

variable {Tx Events : Type}

/- Nothing to do. -/
def empty : Work Events := ⟨none, none, ∅⟩

/- A reset request comes in. -/
def addReset
    (work : Work Events)
    (req : ResetRequest) : Work Events :=
  match work.reset with
  | none => { work with reset := some req }
  | some reset =>
      { work with
        reset := some { reset with newHead := req.newHead } }

/- A promote request comes in. -/
def addPromote
    (work : Work Events)
    (req : AccountSet) : Work Events :=
  match work.dirtyAccounts with
  | none => { work with dirtyAccounts := some req }
  | some dirty =>
      { work with dirtyAccounts := some (dirty.merge req) }

/- An event comes in. -/
def addEvent
    (types : EventTypes Tx Events)
    (work : Work Events)
    (tx : Tx) : Work Events :=
  let addr := types.sender tx
  let events :=
    (work.queuedEvents.lookup addr).getD types.newSortedMap
  { work with
    queuedEvents :=
      work.queuedEvents.insert addr (types.put events tx) }

/- The accounts of the promote requests in it. -/
def accounts (work : Work Events) : Finset Address :=
  match work.dirtyAccounts with
  | none => ∅
  | some dirty => dirty.accounts

@[simp] theorem addReset_accounts
    (work : Work Events)
    (req : ResetRequest) :
    (work.addReset req).accounts = work.accounts := by
  unfold addReset accounts
  cases work.reset <;> rfl

@[simp] theorem addPromote_accounts
    (work : Work Events)
    (req : AccountSet) :
    (work.addPromote req).accounts =
      work.accounts ∪ req.accounts := by
  unfold addPromote accounts
  cases work.dirtyAccounts with
  | none => simp
  | some dirty => rfl

@[simp] theorem addEvent_accounts
    (types : EventTypes Tx Events)
    (work : Work Events)
    (tx : Tx) :
    (work.addEvent types tx).accounts = work.accounts := rfl

@[simp] theorem addPromote_reset
    (work : Work Events)
    (req : AccountSet) :
    (work.addPromote req).reset = work.reset := by
  unfold addPromote
  split <;> rfl

end Work

------------------------------------------------------------
-- The System
------------------------------------------------------------

/- Where `scheduleReorgLoop` is. -/
inductive Control where
| top
| selecting
| replying
| draining
| returned
deriving DecidableEq

/- The variables of `scheduleReorgLoop`. -/
structure Scheduler (Events : Type) where
  control : Control
  curDone : Option DoneCh
  nextDone : DoneCh
  launchNextRun : Bool
  work : Work Events

/- A `runReorg` that was started. -/
structure Run (Events : Type) where
  done : DoneCh
  work : Work Events

/-
  The goroutines around the loop: `loop` with its head, the
  callers of `requestPromoteExecutables`, and the runs.

  `active` has the runs that have not returned, each by its
  channel. `waitingHead` is the new head `loop` has asked
  for, while it waits for the reply, and `waiting` has the
  accounts of the other goroutines that wait. `answers`
  records which channel was given for which accounts.
-/
structure ReorgSystem (Thread Events : Type) where
  scheduler : Scheduler Events
  made : Nat
  runs : List (Run Events)
  active : List DoneCh
  closed : List DoneCh
  head : Header
  waitingHead : Option Header
  waiting : Thread → Option AccountSet
  shutdown : Bool
  answers : List (AccountSet × DoneCh)

/- What can happen next. -/
inductive Act (Thread Tx : Type) where
| turn
| takeReset (newHead : Header)
| takePromote (thread : Thread) (set : AccountSet)
| takeEvent (tx : Tx)
| replyHead
| reply (thread : Thread)
| finish (done : DoneCh)
| takeDone
| close
| takeShutdown
| drain

/- What happens without a new request and without shutdown. -/
def Act.internal {Thread Tx : Type} : Act Thread Tx → Bool
| .turn | .replyHead | .reply _ => true
| .finish _ | .takeDone | .drain => true
| .takeReset _ | .takePromote _ _ | .takeEvent _ => false
| .close | .takeShutdown => false

namespace ReorgSystem

variable {Thread Tx Events : Type}

/- The pool has been set up and its head is known. -/
def start (head : Header) : ReorgSystem Thread Events :=
  { scheduler :=
      { control := .top
        curDone := none
        nextDone := 0
        launchNextRun := false
        work := .empty }
    made := 1
    runs := []
    active := []
    closed := []
    head := head
    waitingHead := none
    waiting := fun _ => none
    shutdown := false
    answers := [] }

/- The head of the loop: launch a run if one is due. -/
def turn
    (s : ReorgSystem Thread Events) :
    ReorgSystem Thread Events :=
  if s.scheduler.curDone = none ∧
      s.scheduler.launchNextRun = true then
    { s with
      scheduler :=
        { control := .selecting
          curDone := some s.scheduler.nextDone
          nextDone := s.made
          launchNextRun := false
          work := .empty }
      made := s.made + 1
      runs :=
        s.runs ++ [⟨s.scheduler.nextDone, s.scheduler.work⟩]
      active := s.active ++ [s.scheduler.nextDone] }
  else
    { s with
      scheduler := { s.scheduler with control := .selecting } }

@[simp] theorem turn_control
    (s : ReorgSystem Thread Events) :
    s.turn.scheduler.control = .selecting := by
  unfold turn
  split <;> rfl

@[simp] theorem turn_head
    (s : ReorgSystem Thread Events) :
    s.turn.head = s.head := by
  unfold turn
  split <;> rfl

@[simp] theorem turn_waitingHead
    (s : ReorgSystem Thread Events) :
    s.turn.waitingHead = s.waitingHead := by
  unfold turn
  split <;> rfl

@[simp] theorem turn_waiting
    (s : ReorgSystem Thread Events) :
    s.turn.waiting = s.waiting := by
  unfold turn
  split <;> rfl

@[simp] theorem turn_answers
    (s : ReorgSystem Thread Events) :
    s.turn.answers = s.answers := by
  unfold turn
  split <;> rfl

section Steps

variable [DecidableEq Thread]
variable (types : EventTypes Tx Events)

/- The loop takes the request of `loop`, and owes a reply. -/
def takeReset
    (s : ReorgSystem Thread Events)
    (newHead : Header) : ReorgSystem Thread Events :=
  { s with
    scheduler :=
      { s.scheduler with
        control := .replying
        launchNextRun := true
        work := s.scheduler.work.addReset ⟨s.head, newHead⟩ }
    waitingHead := some newHead }

/- The loop takes a promote request, and owes a reply. -/
def takePromote
    (s : ReorgSystem Thread Events)
    (thread : Thread)
    (set : AccountSet) : ReorgSystem Thread Events :=
  { s with
    scheduler :=
      { s.scheduler with
        control := .replying
        launchNextRun := true
        work := s.scheduler.work.addPromote set }
    waiting := Function.update s.waiting thread (some set) }

/- The loop takes an event. -/
def takeEvent
    (s : ReorgSystem Thread Events)
    (tx : Tx) : ReorgSystem Thread Events :=
  { s with
    scheduler :=
      { s.scheduler with
        control := .top
        work := s.scheduler.work.addEvent types tx } }

/- `loop` gets its reply and moves its head. -/
def replyHead
    (s : ReorgSystem Thread Events)
    (newHead : Header) : ReorgSystem Thread Events :=
  { s with
    scheduler := { s.scheduler with control := .top }
    head := newHead
    waitingHead := none }

/- Another goroutine gets its reply. -/
def reply
    (s : ReorgSystem Thread Events)
    (thread : Thread)
    (set : AccountSet) : ReorgSystem Thread Events :=
  { s with
    scheduler := { s.scheduler with control := .top }
    waiting := Function.update s.waiting thread none
    answers := s.answers ++ [(set, s.scheduler.nextDone)] }

/- A run returns. -/
def finish
    (s : ReorgSystem Thread Events)
    (done : DoneCh) : ReorgSystem Thread Events :=
  { s with
    active := s.active.erase done
    closed := s.closed ++ [done] }

/- The loop sees that the current run has returned. -/
def takeDone
    (s : ReorgSystem Thread Events) :
    ReorgSystem Thread Events :=
  { s with
    scheduler :=
      { s.scheduler with
        control := .top
        curDone := none } }

/- The loop sees the shutdown. -/
def takeShutdown
    (s : ReorgSystem Thread Events) :
    ReorgSystem Thread Events :=
  { s with
    scheduler := { s.scheduler with control := .draining } }

/- The loop closes the next channel and returns. -/
def drain
    (s : ReorgSystem Thread Events) :
    ReorgSystem Thread Events :=
  { s with
    scheduler := { s.scheduler with control := .returned }
    closed := s.closed ++ [s.scheduler.nextDone] }

/-
  One action of one goroutine, or one message between two.
  A goroutine that asks after the shutdown is turned away,
  which leaves the system as it is.
-/
def step
    (s : ReorgSystem Thread Events) :
    Act Thread Tx → Option (ReorgSystem Thread Events)
| .turn =>
    if s.scheduler.control = .top then some s.turn else none
| .takeReset newHead =>
    if s.scheduler.control = .selecting ∧
        s.waitingHead = none ∧ s.shutdown = false then
      some (s.takeReset newHead)
    else none
| .takePromote thread set =>
    if s.scheduler.control = .selecting ∧
        s.waiting thread = none then
      some (s.takePromote thread set)
    else none
| .takeEvent tx =>
    if s.scheduler.control = .selecting then
      some (s.takeEvent types tx)
    else none
| .replyHead =>
    match s.waitingHead with
    | none => none
    | some newHead =>
        if s.scheduler.control = .replying then
          some (s.replyHead newHead)
        else none
| .reply thread =>
    match s.waiting thread with
    | none => none
    | some set =>
        if s.scheduler.control = .replying then
          some (s.reply thread set)
        else none
| .finish done =>
    if done ∈ s.active then some (s.finish done) else none
| .takeDone =>
    match s.scheduler.curDone with
    | none => none
    | some done =>
        if s.scheduler.control = .selecting ∧
            done ∈ s.closed then
          some s.takeDone
        else none
| .close =>
    if s.shutdown = false ∧ s.waitingHead = none then
      some { s with shutdown := true }
    else none
| .takeShutdown =>
    if s.scheduler.control = .selecting ∧
        s.shutdown = true then
      some s.takeShutdown
    else none
| .drain =>
    if s.scheduler.control = .draining ∧
        ∀ done ∈ s.scheduler.curDone, done ∈ s.closed then
      some s.drain
    else none

/- Actions one after another, in whatever order they come. -/
def run
    (s : ReorgSystem Thread Events)
    (acts : List (Act Thread Tx)) :
    Option (ReorgSystem Thread Events) :=
  acts.foldlM (step types) s

end Steps

------------------------------------------------------------
-- Channels
------------------------------------------------------------

/-
  The channels of the runs are numbered in the order of the
  runs, and are closed in that order. The last run may be
  active, and the loop then has its channel.
-/
structure Channels (s : ReorgSystem Thread Events) : Prop where
  made : s.made = s.runs.length + 1
  nextDone : s.scheduler.nextDone = s.runs.length
  dones : s.runs.map Run.done = List.range s.runs.length
  closed : s.closed = List.range s.closed.length
  current :
    ∀ done : Nat, s.scheduler.curDone = some done →
      done < s.runs.length
  running :
    s.scheduler.control ≠ .returned →
      (s.active = [] ∧ s.closed.length = s.runs.length) ∨
      (s.active = [s.closed.length] ∧
        s.closed.length + 1 = s.runs.length ∧
        s.scheduler.curDone = some s.closed.length)
  returned :
    s.scheduler.control = .returned →
      s.active = [] ∧ s.closed.length = s.runs.length + 1

namespace Channels

variable {s : ReorgSystem Thread Events}

theorem mem_closed_iff
    (hChannels : Channels s)
    (done : Nat) :
    done ∈ s.closed ↔ done < s.closed.length := by
  rw [hChannels.closed]
  simp

/- A channel the loop has waited for is not active. -/
theorem idle_of_closed
    (hChannels : Channels s)
    (hControl : s.scheduler.control ≠ .returned)
    (hClosed :
      ∀ done ∈ s.scheduler.curDone, done ∈ s.closed) :
    s.active = [] ∧ s.closed.length = s.runs.length := by
  rcases hChannels.running hControl with
    hIdle | ⟨_, _, hCur⟩
  · exact hIdle
  · have hMem := hClosed s.closed.length (by simp [hCur])
    rw [hChannels.mem_closed_iff] at hMem
    exact absurd hMem (Nat.lt_irrefl _)

/- Neither the runs nor the channels are touched. -/
theorem of_eq
    {s' : ReorgSystem Thread Events}
    (hChannels : Channels s)
    (hMade : s'.made = s.made)
    (hNext : s'.scheduler.nextDone = s.scheduler.nextDone)
    (hRuns : s'.runs = s.runs)
    (hActive : s'.active = s.active)
    (hClosed : s'.closed = s.closed)
    (hCur : s'.scheduler.curDone = s.scheduler.curDone)
    (hControl : s.scheduler.control ≠ .returned)
    (hControl' : s'.scheduler.control ≠ .returned) :
    Channels s' := by
  refine ⟨?_, ?_, ?_, ?_, ?_, ?_, ?_⟩
  · rw [hMade, hRuns, hChannels.made]
  · rw [hNext, hRuns, hChannels.nextDone]
  · rw [hRuns, hChannels.dones]
  · rw [hClosed, ← hChannels.closed]
  · rw [hCur, hRuns]
    exact hChannels.current
  · intro _
    rw [hActive, hClosed, hRuns, hCur]
    exact hChannels.running hControl
  · intro hReturned
    exact absurd hReturned hControl'

/- A run is launched only when none is active. -/
theorem turn
    (hChannels : Channels s)
    (hControl : s.scheduler.control = .top) :
    Channels s.turn := by
  have hNot : s.scheduler.control ≠ .returned := by
    simp [hControl]
  unfold ReorgSystem.turn
  split
  · next hLaunch =>
      have hIdle := hChannels.idle_of_closed hNot
        (by simp [hLaunch.1])
      refine ⟨?_, ?_, ?_, hChannels.closed, ?_, ?_, by simp⟩
      · simp [hChannels.made]
      · simp [hChannels.made]
      · simp [hChannels.dones, hChannels.nextDone,
          List.range_succ]
      · simp [hChannels.nextDone]
      · intro _
        refine .inr ⟨?_, ?_, ?_⟩
        · simp [hIdle, hChannels.nextDone]
        · simp [hIdle]
        · simp [hIdle, hChannels.nextDone]
  · exact hChannels.of_eq rfl rfl rfl rfl rfl rfl hNot
      (by simp)

/- A run closes its channel. -/
theorem finish
    (hChannels : Channels s)
    {done : DoneCh}
    (hDone : done ∈ s.active) :
    Channels (s.finish done) := by
  have hControl : s.scheduler.control ≠ .returned := by
    intro hReturned
    rw [(hChannels.returned hReturned).1] at hDone
    cases hDone
  rcases hChannels.running hControl with
    ⟨hNil, _⟩ | ⟨hActive, hCount, _⟩
  · rw [hNil] at hDone
    cases hDone
  · have hLast : done = s.closed.length := by
      simpa [hActive] using hDone
    refine ⟨hChannels.made, hChannels.nextDone,
      hChannels.dones, ?_, hChannels.current, ?_, ?_⟩
    · change s.closed ++ [done] =
        List.range (s.closed ++ [done]).length
      conv_lhs => rw [hChannels.closed]
      simp [hLast, List.range_succ]
    · intro _
      left
      simp [ReorgSystem.finish, hActive, hLast, hCount]
    · intro hReturned
      exact absurd hReturned hControl

/- The loop has seen the end of the current run. -/
theorem takeDone
    (hChannels : Channels s)
    (hControl : s.scheduler.control = .selecting)
    (hClosed :
      ∀ done ∈ s.scheduler.curDone, done ∈ s.closed) :
    Channels s.takeDone := by
  have hIdle := hChannels.idle_of_closed
    (by simp [hControl]) hClosed
  exact ⟨hChannels.made, hChannels.nextDone,
    hChannels.dones, hChannels.closed,
    by simp [ReorgSystem.takeDone], fun _ => .inl hIdle,
    by simp [ReorgSystem.takeDone]⟩

/- The loop closes the channel no run was given. -/
theorem drain
    (hChannels : Channels s)
    (hControl : s.scheduler.control = .draining)
    (hClosed :
      ∀ done ∈ s.scheduler.curDone, done ∈ s.closed) :
    Channels s.drain := by
  have hIdle := hChannels.idle_of_closed
    (by simp [hControl]) hClosed
  refine ⟨hChannels.made, hChannels.nextDone,
    hChannels.dones, ?_, hChannels.current,
    by simp [ReorgSystem.drain], ?_⟩
  · change s.closed ++ [s.scheduler.nextDone] =
      List.range (s.closed ++ [s.scheduler.nextDone]).length
    conv_lhs => rw [hChannels.closed]
    simp [hChannels.nextDone, hIdle, List.range_succ]
  · intro _
    simp [ReorgSystem.drain, hIdle]

end Channels

------------------------------------------------------------
-- Requests and Replies
------------------------------------------------------------

/-
  While the loop replies, the one goroutine whose request it
  has just taken waits, and nobody else does.
-/
structure Asking
    [DecidableEq Thread]
    (s : ReorgSystem Thread Events) : Prop where
  quiet :
    s.scheduler.control ≠ .replying →
      s.waitingHead = none ∧ s.waiting = fun _ => none
  replying :
    s.scheduler.control = .replying →
      s.scheduler.launchNextRun = true ∧
      ((s.waitingHead.isSome ∧ s.waiting = fun _ => none) ∨
        (s.waitingHead = none ∧
          ∃ thread set, s.waiting =
            Function.update (fun _ => none) thread (some set)))
  due :
    s.scheduler.control = .selecting →
      s.scheduler.launchNextRun = true →
        s.scheduler.curDone ≠ none

/- Nobody waits where the loop does not reply. -/
theorem Asking.of_quiet
    [DecidableEq Thread]
    {s : ReorgSystem Thread Events}
    (hControl : s.scheduler.control ≠ .replying)
    (hQuiet :
      s.waitingHead = none ∧ s.waiting = fun _ => none)
    (hDue :
      s.scheduler.control = .selecting →
        s.scheduler.launchNextRun = true →
          s.scheduler.curDone ≠ none) :
    Asking s where
  quiet := fun _ => hQuiet
  replying := fun hReplying => absurd hReplying hControl
  due := hDue

/-
  A channel that was given for some accounts belongs to a run
  that has them, or to the next one.
-/
def Covered
    (s : ReorgSystem Thread Events)
    (set : AccountSet)
    (done : DoneCh) : Prop :=
  (∃ r ∈ s.runs, r.done = done ∧
    set.accounts ⊆ r.work.accounts) ∨
  (done = s.scheduler.nextDone ∧
    s.scheduler.launchNextRun = true ∧
    set.accounts ⊆ s.scheduler.work.accounts)

/- Channels given before stay covered as the work grows. -/
theorem Covered.mono
    {s s' : ReorgSystem Thread Events}
    {set : AccountSet}
    {done : DoneCh}
    (hCovered : Covered s set done)
    (hRuns : s'.runs = s.runs)
    (hNext : s'.scheduler.nextDone = s.scheduler.nextDone)
    (hLaunch :
      s.scheduler.launchNextRun = true →
        s'.scheduler.launchNextRun = true)
    (hWork :
      s.scheduler.work.accounts ⊆
        s'.scheduler.work.accounts) :
    Covered s' set done := by
  rcases hCovered with hRun | ⟨hDone, hDue, hSet⟩
  · rw [← hRuns] at hRun
    exact .inl hRun
  · exact .inr ⟨hDone.trans hNext.symm, hLaunch hDue,
      hSet.trans hWork⟩

/- A launch takes the work along. -/
theorem Covered.turn
    {s : ReorgSystem Thread Events}
    {set : AccountSet}
    {done : DoneCh}
    (hCovered : Covered s set done) :
    Covered s.turn set done := by
  unfold ReorgSystem.turn
  split
  · left
    rcases hCovered with ⟨r, hRun, hDone, hSet⟩ |
      ⟨hDone, _, hSet⟩
    · exact ⟨r, List.mem_append_left _ hRun, hDone, hSet⟩
    · exact ⟨⟨s.scheduler.nextDone, s.scheduler.work⟩,
        List.mem_append_right _ (List.mem_singleton_self _),
        hDone.symm, hSet⟩
  · exact hCovered.mono rfl rfl id (Finset.Subset.refl _)

/- What was asked for is in the work of a run. -/
structure Merged (s : ReorgSystem Thread Events) : Prop where
  waiting :
    ∀ thread set, s.waiting thread = some set →
      set.accounts ⊆ s.scheduler.work.accounts
  answers :
    ∀ set done, (set, done) ∈ s.answers →
      Covered s set done

/- Nobody comes to wait, and the work of a run stays. -/
theorem Merged.mono
    {s s' : ReorgSystem Thread Events}
    (hMerged : Merged s)
    (hWaiting : s'.waiting = s.waiting)
    (hAnswers : s'.answers = s.answers)
    (hRuns : s'.runs = s.runs)
    (hNext : s'.scheduler.nextDone = s.scheduler.nextDone)
    (hLaunch :
      s.scheduler.launchNextRun = true →
        s'.scheduler.launchNextRun = true)
    (hWork :
      s.scheduler.work.accounts ⊆
        s'.scheduler.work.accounts) :
    Merged s' where
  waiting := by
    intro thread set hSome
    rw [hWaiting] at hSome
    exact (hMerged.waiting thread set hSome).trans hWork
  answers := by
    intro set done hAnswer
    rw [hAnswers] at hAnswer
    exact (hMerged.answers set done hAnswer).mono hRuns hNext
      hLaunch hWork

------------------------------------------------------------
-- Heads
------------------------------------------------------------

/- Each request goes on where the one before it ended. -/
inductive Linked :
    Header → List ResetRequest → Header → Prop where
| nil (head : Header) : Linked head [] head
| cons
    {oldHead newHead last : Header}
    {reqs : List ResetRequest} :
    Linked newHead reqs last →
      Linked oldHead (⟨oldHead, newHead⟩ :: reqs) last

theorem linked_concat_iff
    {first last : Header}
    {reqs : List ResetRequest}
    {req : ResetRequest} :
    Linked first (reqs ++ [req]) last ↔
      Linked first reqs req.oldHead ∧ req.newHead = last := by
  induction reqs generalizing first with
  | nil =>
      constructor
      · intro hLinked
        cases hLinked with
        | cons hRest =>
            cases hRest with
            | nil _ => exact ⟨.nil _, rfl⟩
      · rintro ⟨hNil, rfl⟩
        cases hNil with
        | nil _ => exact .cons (.nil _)
  | cons other reqs ih =>
      constructor
      · intro hLinked
        cases hLinked with
        | cons hRest =>
            rcases ih.mp hRest with ⟨hReqs, hLast⟩
            exact ⟨.cons hReqs, hLast⟩
      · rintro ⟨hReqs, hLast⟩
        cases hReqs with
        | cons hReqs => exact .cons (ih.mpr ⟨hReqs, hLast⟩)

/- The resets that were started or are still to be. -/
def resets
    (s : ReorgSystem Thread Events) : List ResetRequest :=
  s.runs.filterMap (fun r => r.work.reset) ++
    s.scheduler.work.reset.toList

/- The last head `loop` has asked for. -/
def lastHead (s : ReorgSystem Thread Events) : Header :=
  s.waitingHead.getD s.head

/- A merged request ends at the head asked for last. -/
theorem linked_addReset
    {first head newHead : Header}
    {started : List ResetRequest}
    {work : Work Events}
    (hLinked :
      Linked first (started ++ work.reset.toList) head) :
    Linked first
      (started ++
        (work.addReset ⟨head, newHead⟩).reset.toList)
      newHead := by
  unfold Work.addReset
  cases hReset : work.reset with
  | none =>
      rw [hReset] at hLinked
      simp only [Option.toList_none,
        List.append_nil] at hLinked
      exact linked_concat_iff.mpr ⟨hLinked, rfl⟩
  | some reset =>
      rw [hReset] at hLinked
      have hStarted := (linked_concat_iff.mp hLinked).1
      exact linked_concat_iff.mpr ⟨hStarted, rfl⟩

@[simp] theorem turn_resets
    (s : ReorgSystem Thread Events) :
    s.turn.resets = s.resets := by
  unfold turn resets
  split
  · cases hReset : s.scheduler.work.reset <;>
      simp [hReset, Work.empty]
  · rfl

------------------------------------------------------------
-- The Invariant
------------------------------------------------------------

variable [DecidableEq Thread]

/- What holds whatever the goroutines have done so far. -/
structure Inv
    (first : Header)
    (s : ReorgSystem Thread Events) : Prop where
  channels : Channels s
  asking : Asking s
  merged : Merged s
  linked : Linked first s.resets s.lastHead

theorem inv_start (head : Header) :
    Inv head (start head : ReorgSystem Thread Events) where
  channels :=
    { made := rfl
      nextDone := rfl
      dones := rfl
      closed := rfl
      current := by simp [start]
      running := fun _ => .inl ⟨rfl, rfl⟩
      returned := by simp [start] }
  asking := .of_quiet (by simp [start]) ⟨rfl, rfl⟩
    (by simp [start])
  merged :=
    { waiting := by simp [start]
      answers := by simp [start] }
  linked := .nil head

namespace Inv

variable {first : Header}
variable {s : ReorgSystem Thread Events}

theorem turn
    (hInv : Inv first s)
    (hControl : s.scheduler.control = .top) :
    Inv first s.turn := by
  have hQuiet := hInv.asking.quiet (by simp [hControl])
  refine ⟨hInv.channels.turn hControl, ?_, ?_, ?_⟩
  · refine .of_quiet (by simp) (by simpa using hQuiet) ?_
    unfold ReorgSystem.turn
    split
    · simp
    · next hNot =>
        intro _ hLaunch hCur
        exact hNot ⟨hCur, hLaunch⟩
  · refine ⟨?_, ?_⟩
    · simp [hQuiet.2]
    · intro set done hAnswer
      rw [turn_answers] at hAnswer
      exact (hInv.merged.answers set done hAnswer).turn
  · simpa [lastHead] using hInv.linked

theorem takeReset
    (hInv : Inv first s)
    (hControl : s.scheduler.control = .selecting)
    (newHead : Header) :
    Inv first (s.takeReset newHead) := by
  have hQuiet := hInv.asking.quiet (by simp [hControl])
  refine ⟨?_, ?_, ?_, ?_⟩
  · exact hInv.channels.of_eq rfl rfl rfl rfl rfl rfl
      (by simp [hControl]) (by simp [ReorgSystem.takeReset])
  · exact ⟨by simp [ReorgSystem.takeReset],
      fun _ => ⟨rfl, .inl ⟨rfl, hQuiet.2⟩⟩,
      by simp [ReorgSystem.takeReset]⟩
  · exact hInv.merged.mono rfl rfl rfl rfl (fun _ => rfl)
      (by simp [ReorgSystem.takeReset])
  · have hHead : s.lastHead = s.head := by
      simp [lastHead, hQuiet.1]
    exact linked_addReset (hHead ▸ hInv.linked)

theorem takePromote
    (hInv : Inv first s)
    (hControl : s.scheduler.control = .selecting)
    (thread : Thread)
    (set : AccountSet) :
    Inv first (s.takePromote thread set) := by
  have hQuiet := hInv.asking.quiet (by simp [hControl])
  have hWaiting :
      (s.takePromote thread set).waiting =
        Function.update (fun _ => none) thread
          (some set) := by
    simp [ReorgSystem.takePromote, hQuiet.2]
  refine ⟨?_, ?_, ⟨?_, ?_⟩, ?_⟩
  · exact hInv.channels.of_eq rfl rfl rfl rfl rfl rfl
      (by simp [hControl])
      (by simp [ReorgSystem.takePromote])
  · exact ⟨by simp [ReorgSystem.takePromote],
      fun _ => ⟨rfl, .inr ⟨hQuiet.1, thread, set, hWaiting⟩⟩,
      by simp [ReorgSystem.takePromote]⟩
  · intro other set' hOther
    rw [hWaiting] at hOther
    by_cases hSame : other = thread
    · rw [hSame, Function.update_self] at hOther
      rw [← Option.some.inj hOther]
      simp [ReorgSystem.takePromote]
    · rw [Function.update_of_ne hSame] at hOther
      cases hOther
  · intro set' done hAnswer
    exact (hInv.merged.answers set' done hAnswer).mono rfl
      rfl (fun _ => rfl) (by simp [ReorgSystem.takePromote])
  · simpa [ReorgSystem.takePromote, resets, lastHead]
      using hInv.linked

theorem takeEvent
    (hInv : Inv first s)
    (hControl : s.scheduler.control = .selecting)
    (types : EventTypes Tx Events)
    (tx : Tx) :
    Inv first (s.takeEvent types tx) where
  channels := hInv.channels.of_eq rfl rfl rfl rfl rfl rfl
    (by simp [hControl]) (by simp [ReorgSystem.takeEvent])
  asking := .of_quiet (by simp [ReorgSystem.takeEvent])
    (hInv.asking.quiet (by simp [hControl]))
    (by simp [ReorgSystem.takeEvent])
  merged := hInv.merged.mono rfl rfl rfl rfl id
    (by simp [ReorgSystem.takeEvent])
  linked := hInv.linked

theorem replyHead
    (hInv : Inv first s)
    (hControl : s.scheduler.control = .replying)
    {newHead : Header}
    (hHead : s.waitingHead = some newHead) :
    Inv first (s.replyHead newHead) := by
  have hNobody : s.waiting = fun _ => none := by
    rcases (hInv.asking.replying hControl).2 with
      ⟨_, hNobody⟩ | ⟨hNone, _⟩
    · exact hNobody
    · rw [hHead] at hNone
      cases hNone
  refine ⟨?_, ?_, ?_, ?_⟩
  · exact hInv.channels.of_eq rfl rfl rfl rfl rfl rfl
      (by simp [hControl]) (by simp [ReorgSystem.replyHead])
  · exact .of_quiet (by simp [ReorgSystem.replyHead])
      ⟨rfl, hNobody⟩ (by simp [ReorgSystem.replyHead])
  · exact hInv.merged.mono rfl rfl rfl rfl id
      (Finset.Subset.refl _)
  · have hLast : s.lastHead = newHead := by
      simp [lastHead, hHead]
    exact hLast ▸ hInv.linked

theorem reply
    (hInv : Inv first s)
    (hControl : s.scheduler.control = .replying)
    {thread : Thread}
    {set : AccountSet}
    (hWaiting : s.waiting thread = some set) :
    Inv first (s.reply thread set) := by
  rcases hInv.asking.replying hControl with ⟨hLaunch, hWho⟩
  rcases hWho with ⟨_, hNobody⟩ | ⟨hNone, other, set', hOne⟩
  · rw [hNobody] at hWaiting
    cases hWaiting
  have hSame : thread = other := by
    by_contra hNe
    rw [hOne, Function.update_of_ne hNe] at hWaiting
    cases hWaiting
  have hNobody :
      (s.reply thread set).waiting = fun _ => none := by
    simp only [ReorgSystem.reply, hOne, hSame,
      Function.update_idem]
    exact Function.update_eq_self other _
  refine ⟨?_, ?_, ⟨?_, ?_⟩, hInv.linked⟩
  · exact hInv.channels.of_eq rfl rfl rfl rfl rfl rfl
      (by simp [hControl]) (by simp [ReorgSystem.reply])
  · exact .of_quiet (by simp [ReorgSystem.reply])
      ⟨hNone, hNobody⟩ (by simp [ReorgSystem.reply])
  · simp [hNobody]
  · intro set' done hAnswer
    rcases List.mem_append.mp hAnswer with hBefore | hNow
    · exact hInv.merged.answers set' done hBefore
    · simp only [List.mem_singleton, Prod.mk.injEq] at hNow
      rw [hNow.1, hNow.2]
      exact .inr ⟨rfl, hLaunch,
        hInv.merged.waiting thread set hWaiting⟩

theorem finish
    (hInv : Inv first s)
    {done : DoneCh}
    (hDone : done ∈ s.active) :
    Inv first (s.finish done) where
  channels := hInv.channels.finish hDone
  asking := ⟨hInv.asking.quiet, hInv.asking.replying,
    hInv.asking.due⟩
  merged := ⟨hInv.merged.waiting, hInv.merged.answers⟩
  linked := hInv.linked

theorem takeDone
    (hInv : Inv first s)
    (hControl : s.scheduler.control = .selecting)
    (hClosed :
      ∀ done ∈ s.scheduler.curDone, done ∈ s.closed) :
    Inv first s.takeDone where
  channels := hInv.channels.takeDone hControl hClosed
  asking := .of_quiet (by simp [ReorgSystem.takeDone])
    (hInv.asking.quiet (by simp [hControl]))
    (by simp [ReorgSystem.takeDone])
  merged := ⟨hInv.merged.waiting, hInv.merged.answers⟩
  linked := hInv.linked

theorem close
    (hInv : Inv first s) :
    Inv first { s with shutdown := true } where
  channels := ⟨hInv.channels.made, hInv.channels.nextDone,
    hInv.channels.dones, hInv.channels.closed,
    hInv.channels.current, hInv.channels.running,
    hInv.channels.returned⟩
  asking := ⟨hInv.asking.quiet, hInv.asking.replying,
    hInv.asking.due⟩
  merged := ⟨hInv.merged.waiting, hInv.merged.answers⟩
  linked := hInv.linked

theorem takeShutdown
    (hInv : Inv first s)
    (hControl : s.scheduler.control = .selecting) :
    Inv first s.takeShutdown where
  channels := hInv.channels.of_eq rfl rfl rfl rfl rfl rfl
    (by simp [hControl])
    (by simp [ReorgSystem.takeShutdown])
  asking := .of_quiet (by simp [ReorgSystem.takeShutdown])
    (hInv.asking.quiet (by simp [hControl]))
    (by simp [ReorgSystem.takeShutdown])
  merged := ⟨hInv.merged.waiting, hInv.merged.answers⟩
  linked := hInv.linked

theorem drain
    (hInv : Inv first s)
    (hControl : s.scheduler.control = .draining)
    (hClosed :
      ∀ done ∈ s.scheduler.curDone, done ∈ s.closed) :
    Inv first s.drain where
  channels := hInv.channels.drain hControl hClosed
  asking := .of_quiet (by simp [ReorgSystem.drain])
    (hInv.asking.quiet (by simp [hControl]))
    (by simp [ReorgSystem.drain])
  merged := ⟨hInv.merged.waiting, hInv.merged.answers⟩
  linked := hInv.linked

end Inv

variable {types : EventTypes Tx Events}

/- One action of anybody. -/
theorem inv_step
    {first : Header}
    {s s' : ReorgSystem Thread Events}
    {act : Act Thread Tx}
    (hInv : Inv first s)
    (hStep : s.step types act = some s') :
    Inv first s' := by
  cases act with
  | turn =>
      simp only [step, Option.ite_none_right_eq_some,
        Option.some.injEq] at hStep
      rcases hStep with ⟨hControl, rfl⟩
      exact hInv.turn hControl
  | takeReset newHead =>
      simp only [step, Option.ite_none_right_eq_some,
        Option.some.injEq] at hStep
      rcases hStep with ⟨⟨hControl, _, _⟩, rfl⟩
      exact hInv.takeReset hControl newHead
  | takePromote thread set =>
      simp only [step, Option.ite_none_right_eq_some,
        Option.some.injEq] at hStep
      rcases hStep with ⟨⟨hControl, _⟩, rfl⟩
      exact hInv.takePromote hControl thread set
  | takeEvent tx =>
      simp only [step, Option.ite_none_right_eq_some,
        Option.some.injEq] at hStep
      rcases hStep with ⟨hControl, rfl⟩
      exact hInv.takeEvent hControl types tx
  | replyHead =>
      cases hHead : s.waitingHead with
      | none => simp [step, hHead] at hStep
      | some newHead =>
          simp only [step, hHead, Option.ite_none_right_eq_some,
            Option.some.injEq] at hStep
          rcases hStep with ⟨hControl, rfl⟩
          exact hInv.replyHead hControl hHead
  | reply thread =>
      cases hWaiting : s.waiting thread with
      | none => simp [step, hWaiting] at hStep
      | some set =>
          simp only [step, hWaiting,
            Option.ite_none_right_eq_some,
            Option.some.injEq] at hStep
          rcases hStep with ⟨hControl, rfl⟩
          exact hInv.reply hControl hWaiting
  | finish done =>
      simp only [step, Option.ite_none_right_eq_some,
        Option.some.injEq] at hStep
      rcases hStep with ⟨hDone, rfl⟩
      exact hInv.finish hDone
  | takeDone =>
      cases hCur : s.scheduler.curDone with
      | none => simp [step, hCur] at hStep
      | some done =>
          simp only [step, hCur, Option.ite_none_right_eq_some,
            Option.some.injEq] at hStep
          rcases hStep with ⟨⟨hControl, hDone⟩, rfl⟩
          exact hInv.takeDone hControl (by simp [hCur, hDone])
  | close =>
      simp only [step, Option.ite_none_right_eq_some,
        Option.some.injEq] at hStep
      rcases hStep with ⟨_, rfl⟩
      exact hInv.close
  | takeShutdown =>
      simp only [step, Option.ite_none_right_eq_some,
        Option.some.injEq] at hStep
      rcases hStep with ⟨⟨hControl, _⟩, rfl⟩
      exact hInv.takeShutdown hControl
  | drain =>
      simp only [step, Option.ite_none_right_eq_some,
        Option.some.injEq] at hStep
      rcases hStep with ⟨⟨hControl, hClosed⟩, rfl⟩
      exact hInv.drain hControl hClosed

/- Any number of actions, in any order. -/
theorem inv_run
    {first : Header}
    {s s' : ReorgSystem Thread Events}
    {acts : List (Act Thread Tx)}
    (hInv : Inv first s)
    (hRun : s.run types acts = some s') :
    Inv first s' := by
  refine Trace.foldlM_invariant ?_ hInv hRun
  intro s act next hInv hStep
  exact inv_step hInv hStep

------------------------------------------------------------
-- What Holds in Every Run
------------------------------------------------------------

/- Events are lists, and account one sends everything. -/
def sampleEvents : EventTypes UInt8 (List UInt8) where
  sender _ := 1
  newSortedMap := []
  put events tx := events ++ [tx]

/- The heads of a sample run. -/
def sampleHead (hash : UInt8) : Header :=
  (sampleBlock hash 0 0 []).toHeader

/-
  Account one asks and gets the first run. While that is
  active, two heads come, and account two asks. The second
  run has all three.
-/
def sampleActs : List (Act Bool UInt8) :=
  [.turn, .takePromote false (.ofList [1]), .reply false,
    .turn, .takeReset (sampleHead 2), .replyHead,
    .turn, .takePromote true (.ofList [2]), .reply true,
    .turn, .takeReset (sampleHead 3), .replyHead,
    .turn, .finish 0, .takeDone, .turn, .finish 1]

/-
  No head is lost: the resets that were started, with the one
  still to be, lead from the first head to the last one asked
  for, each from where the one before it ended.
-/
theorem resets_linked
    {head : Header}
    {acts : List (Act Thread Tx)}
    {s : ReorgSystem Thread Events}
    (hRun : (start head).run types acts = some s) :
    Linked head s.resets s.lastHead :=
  (inv_run (inv_start head) hRun).linked

/- Two heads come while a run is active. -/
theorem resets_linked_sample :
    ∃ s, (start (sampleHead 1)).run sampleEvents sampleActs =
        some s ∧
      Linked (sampleHead 1) s.resets s.lastHead ∧
      s.resets = [⟨sampleHead 1, sampleHead 3⟩] ∧
      s.lastHead = sampleHead 3 := by
  have hSome :
      ((start (sampleHead 1)).run sampleEvents
        sampleActs).isSome = true := rfl
  rcases Option.isSome_iff_exists.mp hSome with ⟨s, hRun⟩
  have hResets :
      ((start (sampleHead 1)).run sampleEvents
          sampleActs).map (fun s => (s.resets, s.lastHead)) =
        some ([⟨sampleHead 1, sampleHead 3⟩],
          sampleHead 3) := rfl
  rw [hRun] at hResets
  simp only [Option.map_some, Option.some.injEq,
    Prod.mk.injEq] at hResets
  exact ⟨s, hRun, resets_linked hRun, hResets.1, hResets.2⟩

/-
  At most one run is active, no channel is closed twice, and
  a channel somebody was given is closed only when a run with
  the accounts asked for has returned, or by the shutdown.
-/
theorem closed_served
    {head : Header}
    {acts : List (Act Thread Tx)}
    {s : ReorgSystem Thread Events}
    (hRun : (start head).run types acts = some s) :
    s.active.length ≤ 1 ∧ s.closed.Nodup ∧
      ∀ set done, (set, done) ∈ s.answers →
        done ∈ s.closed →
        s.scheduler.control = .returned ∨
          (done ∉ s.active ∧
            ∃ r ∈ s.runs, r.done = done ∧
              set.accounts ⊆ r.work.accounts) := by
  have hInv := inv_run (inv_start head) hRun
  have hChannels := hInv.channels
  refine ⟨?_, ?_, ?_⟩
  · by_cases hReturned : s.scheduler.control = .returned
    · simp [(hChannels.returned hReturned).1]
    · rcases hChannels.running hReturned with
        ⟨hActive, _⟩ | ⟨hActive, _⟩
      · simp [hActive]
      · simp [hActive]
  · rw [hChannels.closed]
    exact List.nodup_range
  · intro set done hAnswer hDone
    by_cases hReturned : s.scheduler.control = .returned
    · exact .inl hReturned
    right
    rw [hChannels.mem_closed_iff] at hDone
    have hRunning := hChannels.running hReturned
    refine ⟨?_, ?_⟩
    · rcases hRunning with ⟨hActive, _⟩ | ⟨hActive, _⟩
      · simp [hActive]
      · simp only [hActive, List.mem_singleton]
        exact Nat.ne_of_lt hDone
    · rcases hInv.merged.answers set done hAnswer with
        hCovered | ⟨hNext, _⟩
      · exact hCovered
      · rw [hNext, hChannels.nextDone] at hDone
        rcases hRunning with ⟨_, hCount⟩ | ⟨_, hCount, _⟩
        · omega
        · omega

/- Both channels of the sample run are closed by runs. -/
theorem closed_served_sample :
    ∃ s, (start (sampleHead 1)).run sampleEvents sampleActs =
        some s ∧
      s.answers.map Prod.snd = [0, 1] ∧ s.closed = [0, 1] ∧
      s.active.length ≤ 1 ∧ s.closed.Nodup ∧
      ∀ set done, (set, done) ∈ s.answers →
        done ∈ s.closed →
        s.scheduler.control = .returned ∨
          (done ∉ s.active ∧
            ∃ r ∈ s.runs, r.done = done ∧
              set.accounts ⊆ r.work.accounts) := by
  have hSome :
      ((start (sampleHead 1)).run sampleEvents
        sampleActs).isSome = true := rfl
  rcases Option.isSome_iff_exists.mp hSome with ⟨s, hRun⟩
  have hClosed :
      ((start (sampleHead 1)).run sampleEvents
          sampleActs).map
            (fun s => (s.answers.map Prod.snd, s.closed)) =
        some ([0, 1], [0, 1]) := rfl
  rw [hRun] at hClosed
  simp only [Option.map_some, Option.some.injEq,
    Prod.mk.injEq] at hClosed
  exact ⟨s, hRun, hClosed.1, hClosed.2, closed_served hRun⟩

------------------------------------------------------------
-- Nobody Waits in Vain
------------------------------------------------------------

/- The system can close the channel by itself. -/
def CanClose
    (types : EventTypes Tx Events)
    (s : ReorgSystem Thread Events)
    (done : DoneCh) : Prop :=
  ∃ acts s', (∀ act ∈ acts, act.internal = true) ∧
    s.run types acts = some s' ∧ done ∈ s'.closed

namespace CanClose

variable {first : Header}
variable {s s' : ReorgSystem Thread Events}
variable {done : DoneCh}

theorem of_step
    {act : Act Thread Tx}
    (hInternal : act.internal = true)
    (hStep : s.step types act = some s')
    (hClose : CanClose types s' done) :
    CanClose types s done := by
  rcases hClose with ⟨acts, last, hActs, hRun, hDone⟩
  refine ⟨act :: acts, last, ?_, ?_, hDone⟩
  · intro other hOther
    rcases List.mem_cons.mp hOther with rfl | hOther
    · exact hInternal
    · exact hActs other hOther
  · unfold run
    rw [List.foldlM_cons, hStep]
    exact hRun

/- An active run can return. -/
theorem of_active
    (types : EventTypes Tx Events)
    (hActive : done ∈ s.active) :
    CanClose types s done := by
  refine ⟨[.finish done], s.finish done, ?_, ?_, ?_⟩
  · simp [Act.internal]
  · simp [run, step, hActive]
  · simp [ReorgSystem.finish]

/- The next run is launched as soon as none is current. -/
theorem of_due
    (types : EventTypes Tx Events)
    (hControl : s.scheduler.control = .top)
    (hCur : s.scheduler.curDone = none)
    (hLaunch : s.scheduler.launchNextRun = true) :
    CanClose types s s.scheduler.nextDone := by
  have hStep : s.step types .turn = some s.turn := by
    simp [step, hControl]
  refine of_step rfl hStep (of_active types ?_)
  simp [ReorgSystem.turn, hCur, hLaunch]

/- The current run can return, and the loop sees it. -/
theorem of_selecting
    (types : EventTypes Tx Events)
    (hInv : Inv first s)
    (hControl : s.scheduler.control = .selecting)
    (hLaunch : s.scheduler.launchNextRun = true) :
    CanClose types s s.scheduler.nextDone := by
  cases hCur : s.scheduler.curDone with
  | none => exact absurd hCur (hInv.asking.due hControl hLaunch)
  | some cur =>
      -- once the channel is closed, the loop goes on
      have hAfter :
          ∀ s' : ReorgSystem Thread Events,
            s'.scheduler = s.scheduler → cur ∈ s'.closed →
            CanClose types s' s.scheduler.nextDone := by
        intro s' hSame hClosed
        have hStep :
            s'.step types .takeDone = some s'.takeDone := by
          simp [step, hSame, hCur, hControl, hClosed]
        refine of_step rfl hStep ?_
        have hNext :=
          of_due (s := s'.takeDone) types rfl rfl
            (by simpa [ReorgSystem.takeDone, hSame]
              using hLaunch)
        simpa [ReorgSystem.takeDone, hSame] using hNext
      rcases hInv.channels.running (by simp [hControl]) with
        ⟨_, hCount⟩ | ⟨hActive, _, hLast⟩
      · refine hAfter s rfl ?_
        rw [hInv.channels.mem_closed_iff, hCount]
        exact hInv.channels.current cur hCur
      · have hSame : cur = s.closed.length :=
          Option.some.inj (hCur.symm.trans hLast)
        have hMem : cur ∈ s.active := by
          simp [hActive, hSame]
        have hStep :
            s.step types (.finish cur) =
              some (s.finish cur) := by
          simp [step, hMem]
        refine of_step rfl hStep (hAfter _ rfl ?_)
        simp [ReorgSystem.finish]

theorem of_top
    (types : EventTypes Tx Events)
    (hInv : Inv first s)
    (hControl : s.scheduler.control = .top)
    (hLaunch : s.scheduler.launchNextRun = true) :
    CanClose types s s.scheduler.nextDone := by
  by_cases hCur : s.scheduler.curDone = none
  · exact of_due types hControl hCur hLaunch
  · have hStep : s.step types .turn = some s.turn := by
      simp [step, hControl]
    have hSame :
        s.turn.scheduler =
          { s.scheduler with control := .selecting } := by
      simp [ReorgSystem.turn, hCur]
    have hClose :=
      of_selecting types (hInv.turn hControl) (by simp)
        (by rw [hSame]; exact hLaunch)
    rw [hSame] at hClose
    exact of_step rfl hStep hClose

/- Whoever waits for the reply takes it. -/
theorem of_replying
    (types : EventTypes Tx Events)
    (hInv : Inv first s)
    (hControl : s.scheduler.control = .replying) :
    CanClose types s s.scheduler.nextDone := by
  rcases hInv.asking.replying hControl with ⟨hLaunch, hWho⟩
  rcases hWho with ⟨hSome, _⟩ | ⟨_, thread, set, hOne⟩
  · rcases Option.isSome_iff_exists.mp hSome with
      ⟨newHead, hHead⟩
    have hStep :
        s.step types .replyHead =
          some (s.replyHead newHead) := by
      simp [step, hHead, hControl]
    exact of_step rfl hStep
      (of_top types (hInv.replyHead hControl hHead) rfl
        hLaunch)
  · have hWaiting : s.waiting thread = some set := by
      simp [hOne]
    have hStep :
        s.step types (.reply thread) =
          some (s.reply thread set) := by
      simp [step, hWaiting, hControl]
    exact of_step rfl hStep
      (of_top types (hInv.reply hControl hWaiting) rfl
        hLaunch)

/- The shutdown waits for the current run alone. -/
theorem of_draining
    (types : EventTypes Tx Events)
    (hInv : Inv first s)
    (hControl : s.scheduler.control = .draining) :
    CanClose types s s.scheduler.nextDone := by
  have hAfter :
      ∀ s' : ReorgSystem Thread Events,
        s'.scheduler = s.scheduler →
        (∀ cur ∈ s.scheduler.curDone, cur ∈ s'.closed) →
        CanClose types s' s.scheduler.nextDone := by
    intro s' hSame hClosed
    refine ⟨[.drain], s'.drain, by simp [Act.internal], ?_,
      by simp [ReorgSystem.drain, hSame]⟩
    simp only [run, List.foldlM_cons, List.foldlM_nil, step,
      hSame, hControl, true_and]
    rw [if_pos hClosed]
    rfl
  rcases hInv.channels.running (by simp [hControl]) with
    ⟨_, hCount⟩ | ⟨hActive, _, hLast⟩
  · refine hAfter s rfl ?_
    intro cur hCur
    rw [hInv.channels.mem_closed_iff, hCount]
    exact hInv.channels.current cur hCur
  · have hMem : s.closed.length ∈ s.active := by
      simp [hActive]
    have hStep :
        s.step types (.finish s.closed.length) =
          some (s.finish s.closed.length) := by
      simp [step, hMem]
    refine of_step rfl hStep (hAfter _ rfl ?_)
    intro cur hCur
    rw [hLast] at hCur
    simp [ReorgSystem.finish, ← Option.some.inj hCur]

end CanClose

/-
  Whatever has happened so far, a channel somebody was given
  can still be closed, without another request.
-/
theorem answers_canClose
    {head : Header}
    {acts : List (Act Thread Tx)}
    {s : ReorgSystem Thread Events}
    (hRun : (start head).run types acts = some s)
    {set : AccountSet}
    {done : DoneCh}
    (hAnswer : (set, done) ∈ s.answers) :
    ∃ more s', (∀ act ∈ more, act.internal = true) ∧
      s.run types more = some s' ∧ done ∈ s'.closed := by
  have hInv := inv_run (inv_start head) hRun
  change CanClose types s done
  rcases hInv.merged.answers set done hAnswer with
    ⟨r, hMem, hDone, _⟩ | ⟨hNext, hLaunch, _⟩
  · -- the channel of a run: it is closed or the run is active
    have hBound : done < s.runs.length := by
      have hDones := List.mem_map_of_mem (f := Run.done) hMem
      rw [hInv.channels.dones, hDone] at hDones
      exact List.mem_range.mp hDones
    by_cases hClosed : done ∈ s.closed
    · exact ⟨[], s, by simp, rfl, hClosed⟩
    · refine .of_active types ?_
      rw [hInv.channels.mem_closed_iff] at hClosed
      have hControl : s.scheduler.control ≠ .returned := by
        intro hReturned
        have hCount := (hInv.channels.returned hReturned).2
        rw [hCount] at hClosed
        exact hClosed (Nat.lt_succ_of_lt hBound)
      rcases hInv.channels.running hControl with
        ⟨_, hCount⟩ | ⟨hActive, hCount, _⟩
      · rw [hCount] at hClosed
        exact absurd hBound hClosed
      · rw [hActive, List.mem_singleton]
        rw [← hCount] at hBound
        exact Nat.le_antisymm (Nat.le_of_lt_succ hBound)
          (Nat.le_of_not_lt hClosed)
  · rw [hNext]
    cases hControl : s.scheduler.control with
    | top => exact .of_top types hInv hControl hLaunch
    | selecting =>
        exact .of_selecting types hInv hControl hLaunch
    | replying => exact .of_replying types hInv hControl
    | draining => exact .of_draining types hInv hControl
    | returned =>
        refine ⟨[], s, by simp, rfl, ?_⟩
        have hCount := (hInv.channels.returned hControl).2
        rw [hInv.channels.mem_closed_iff,
          hInv.channels.nextDone, hCount]
        exact Nat.lt_succ_self _

/- The second channel, while the first run is active. -/
theorem answers_canClose_sample :
    ∃ s set,
      (start (sampleHead 1)).run sampleEvents
          (sampleActs.take 9) =
        some s ∧
      (set, 1) ∈ s.answers ∧ s.closed = [] ∧
      ∃ more s', (∀ act ∈ more, act.internal = true) ∧
        s.run sampleEvents more = some s' ∧
        1 ∈ s'.closed := by
  have hSome :
      ((start (sampleHead 1)).run sampleEvents
        (sampleActs.take 9)).isSome = true := rfl
  rcases Option.isSome_iff_exists.mp hSome with ⟨s, hRun⟩
  have hAnswers :
      ((start (sampleHead 1)).run sampleEvents
          (sampleActs.take 9)).map
            (fun s => (s.answers, s.closed)) =
        some ([(.ofList [1], 0), (.ofList [2], 1)], []) := rfl
  rw [hRun] at hAnswers
  simp only [Option.map_some, Option.some.injEq,
    Prod.mk.injEq] at hAnswers
  have hMem : (.ofList [2], 1) ∈ s.answers := by
    rw [hAnswers.1]
    simp
  exact ⟨s, .ofList [2], hRun, hMem, hAnswers.2,
    answers_canClose hRun hMem⟩

end ReorgSystem

end Builder
