import Mathlib.Init

/-
  Runs of a labelled transition system.

  A run is a list of transitions, each of which starts where
  the one before it ended. What every step preserves holds
  after every prefix of a run.

  Key definitions include:
    * `Transition`
    * `Trace.last`
    * `Trace.Chain`

  Key results include:
    * `Trace.Chain.append`
    * `Trace.Chain.invariant`
    * `Trace.Chain.step_of_mem`
    * `Trace.Chain.split`
    * `Trace.foldlM_invariant`
-/

/- One step with the states around it. -/
structure Transition (S L : Type) where
  before : S
  label : L
  after : S

namespace Trace

variable {S L : Type}
variable {step : S → L → S → Prop}

/- The state a run from `s` ends in. -/
def last : S → List (Transition S L) → S
| s, [] => s
| _, t :: ts => last t.after ts

/- The transitions are steps, one behind the other. -/
inductive Chain
    (step : S → L → S → Prop) :
    S → List (Transition S L) → Prop where
| nil (s : S) : Chain step s []
| cons
    {s s' : S}
    {l : L}
    {ts : List (Transition S L)} :
    step s l s' → Chain step s' ts →
      Chain step s (⟨s, l, s'⟩ :: ts)

@[simp] theorem last_nil
    (s : S) :
    last s ([] : List (Transition S L)) = s := rfl

@[simp] theorem last_cons
    (s : S)
    (t : Transition S L)
    (ts : List (Transition S L)) :
    last s (t :: ts) = last t.after ts := rfl

@[simp] theorem last_append
    (s : S)
    (ts us : List (Transition S L)) :
    last s (ts ++ us) = last (last s ts) us := by
  induction ts generalizing s with
  | nil => rfl
  | cons t ts ih => exact ih t.after

namespace Chain

theorem singleton
    {s s' : S}
    {l : L}
    (hStep : step s l s') :
    Chain step s [⟨s, l, s'⟩] :=
  .cons hStep (.nil s')

theorem append
    {s : S}
    {ts us : List (Transition S L)}
    (hChain : Chain step s ts)
    (hNext : Chain step (last s ts) us) :
    Chain step s (ts ++ us) := by
  induction hChain with
  | nil s => exact hNext
  | cons hStep hChain ih => exact .cons hStep (ih hNext)

/- Both parts of a run are runs. -/
theorem split
    {s : S}
    {ts us : List (Transition S L)}
    (hChain : Chain step s (ts ++ us)) :
    Chain step s ts ∧ Chain step (last s ts) us := by
  induction ts generalizing s with
  | nil => exact ⟨.nil s, hChain⟩
  | cons t ts ih =>
      cases hChain with
      | cons hStep hChain =>
          rcases ih hChain with ⟨hLeft, hRight⟩
          exact ⟨.cons hStep hLeft, hRight⟩

/- A transition of a run starts where the run had come to. -/
theorem before_eq
    {s : S}
    {ts us : List (Transition S L)}
    {t : Transition S L}
    (hChain : Chain step s (ts ++ t :: us)) :
    t.before = last s ts ∧
      step t.before t.label t.after := by
  have hRight := hChain.split.2
  cases hRight with
  | cons hStep _ => exact ⟨rfl, hStep⟩

theorem step_of_mem
    {s : S}
    {ts : List (Transition S L)}
    (hChain : Chain step s ts)
    {t : Transition S L}
    (ht : t ∈ ts) :
    step t.before t.label t.after := by
  rcases List.append_of_mem ht with ⟨pre, post, rfl⟩
  exact hChain.before_eq.2

/-
  Induction over a run. The invariant may look at the
  transitions made so far.
-/
theorem invariant
    {Inv : List (Transition S L) → S → Prop}
    (hStep :
      ∀ ts s l s', Inv ts s → step s l s' →
        Inv (ts ++ [⟨s, l, s'⟩]) s')
    {s : S}
    {done ts : List (Transition S L)}
    (hInv : Inv done s)
    (hChain : Chain step s ts) :
    Inv (done ++ ts) (last s ts) := by
  induction hChain generalizing done with
  | nil s => simpa using hInv
  | cons hOne _ ih =>
      have hNext := ih (hStep _ _ _ _ hInv hOne)
      simpa using hNext

/- What steps preserve of a state holds at the end. -/
theorem preserves
    {Inv : S → Prop}
    (hStep : ∀ s l s', Inv s → step s l s' → Inv s')
    {s : S}
    {ts : List (Transition S L)}
    (hInv : Inv s)
    (hChain : Chain step s ts) :
    Inv (last s ts) := by
  induction hChain with
  | nil s => exact hInv
  | cons hOne _ ih => exact ih (hStep _ _ _ hInv hOne)

end Chain

/-
  What every round of a loop preserves holds when the loop
  is through.
-/
theorem foldlM_invariant
    {step : S → L → Option S}
    {Inv : S → Prop}
    (hStep : ∀ s l s', Inv s → step s l = some s' → Inv s')
    {ls : List L}
    {s s' : S}
    (hInv : Inv s)
    (hRun : ls.foldlM step s = some s') :
    Inv s' := by
  induction ls generalizing s with
  | nil =>
      rw [← Option.some.inj hRun]
      exact hInv
  | cons l ls ih =>
      rw [List.foldlM_cons] at hRun
      rcases Option.bind_eq_some_iff.mp hRun with
        ⟨next, hFirst, hRest⟩
      exact ih (hStep s l next hInv hFirst) hRest

end Trace
