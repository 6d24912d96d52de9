import Mathlib.Init

/-
  A log from which entries are swept.

  Entries are added at the end. A sweep drops those it finds
  outdated. What is left of a log that has been swept many
  times is, of each entry, decided by the sweeps behind it.
  A query for entries that no sweep so far has found outdated
  cannot tell the log from one that was never swept.

  Key definitions include:
    * `SweptLog.Event`
    * `SweptLog.run`
    * `SweptLog.survivors`

  Main results:
    * `SweptLog.run_eq`
    * `SweptLog.filter_run`
-/

namespace SweptLog

/- Entries come in, or the log is swept. -/
inductive Event (B Q : Type) where
| add (entries : List B)
| sweep (q : Q)

variable {B Q : Type}

/- The entries an event adds. -/
def Event.entries : Event B Q → List B
| .add entries => entries
| .sweep _ => []

/- The sweep an event is. -/
def Event.sweeps : Event B Q → List Q
| .add _ => []
| .sweep q => [q]

/- Everything that came in, in order. -/
def added (events : List (Event B Q)) : List B :=
  events.flatMap Event.entries

/- The sweeps, in order. -/
def sweeps (events : List (Event B Q)) : List Q :=
  events.flatMap Event.sweeps

@[simp] theorem added_cons
    (event : Event B Q)
    (events : List (Event B Q)) :
    added (event :: events) =
      event.entries ++ added events := rfl

@[simp] theorem sweeps_cons
    (event : Event B Q)
    (events : List (Event B Q)) :
    sweeps (event :: events) =
      event.sweeps ++ sweeps events := rfl

variable (outdated : Q → B → Bool)

/- The log after an event. -/
def step (kept : List B) : Event B Q → List B
| .add entries => kept ++ entries
| .sweep q => kept.filter (fun b => !outdated q b)

/- The log after some events. -/
def run
    (kept : List B)
    (events : List (Event B Q)) : List B :=
  events.foldl (step outdated) kept

/- None of the sweeps finds the entry outdated. -/
def spared (qs : List Q) (b : B) : Bool :=
  qs.all (fun q => !outdated q b)

theorem filter_spared_nil
    (entries : List B) :
    entries.filter (spared outdated []) = entries := by
  apply List.filter_eq_self.mpr
  intro b _
  rfl

theorem filter_spared_cons
    (q : Q)
    (qs : List Q)
    (entries : List B) :
    entries.filter (spared outdated (q :: qs)) =
      (entries.filter (fun b => !outdated q b)).filter
        (spared outdated qs) := by
  rw [List.filter_filter]
  apply List.filter_congr
  intro b _
  rw [Bool.and_comm]
  rfl

/- The entries that the sweeps behind them spare. -/
def survivors : List (Event B Q) → List B
| [] => []
| event :: events =>
    event.entries.filter (spared outdated (sweeps events)) ++
      survivors events

/- What a swept log holds. -/
theorem run_eq
    (kept : List B)
    (events : List (Event B Q)) :
    run outdated kept events =
      kept.filter (spared outdated (sweeps events)) ++
        survivors outdated events := by
  induction events generalizing kept with
  | nil =>
      simp [run, survivors, sweeps, filter_spared_nil]
  | cons event events ih =>
      have hRest := ih (step outdated kept event)
      rw [run, List.foldl_cons]
      refine hRest.trans ?_
      cases event with
      | add entries =>
          simp [step, survivors, Event.entries,
            Event.sweeps]
      | sweep q =>
          simp [step, survivors, Event.entries,
            Event.sweeps, filter_spared_cons]

/-
  Sweeps that find none of the wanted entries outdated make
  no difference to who is looking for these.
-/
theorem filter_run
    (wanted : B → Bool)
    (kept : List B)
    (events : List (Event B Q))
    (hSpared :
      ∀ q ∈ sweeps events, ∀ b,
        wanted b = true → outdated q b = false) :
    (run outdated kept events).filter wanted =
      (kept ++ added events).filter wanted := by
  induction events generalizing kept with
  | nil => simp [run, added]
  | cons event events ih =>
      have hRest := ih (step outdated kept event)
        (fun q hq => hSpared q (by simp [hq]))
      rw [run, List.foldl_cons]
      refine hRest.trans ?_
      cases event with
      | add entries =>
          simp [step, Event.entries]
      | sweep q =>
          have hWanted :
              ∀ b, (wanted b && !outdated q b) =
                wanted b := by
            intro b
            have hNot := hSpared q (by simp [Event.sweeps]) b
            cases hb : wanted b with
            | false => rfl
            | true => simp [hNot hb]
          simp [step, Event.entries, List.filter_filter,
            hWanted]

end SweptLog
