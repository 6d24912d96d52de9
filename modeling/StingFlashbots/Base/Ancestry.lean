import Mathlib.Init

/-
  Descent along parents.

  Every element has at most one parent, one level below it.
  A path runs from an element down to one of its ancestors
  and is given by the elements on it, the ancestor left out.

  Two paths down to one element share their lower part. The
  element at which the shared part begins is where they
  meet.

  Key definitions include:
    * `Descent`
    * `Descent.Path`
    * `Descent.Meet`

  Main results:
    * `Descent.Path.split_at`
    * `Descent.Path.tail_eq`
    * `Descent.Path.exists_meet`
-/

/- Parents that lie one level below. -/
structure Descent (B : Type) where
  parent : B → Option B
  level : B → Nat
  level_parent :
    ∀ {b p : B}, parent b = some p → level b = level p + 1

namespace Descent

variable {B : Type}
variable {D : Descent B}

/- The elements from the first down to before the last. -/
inductive Path (D : Descent B) : B → List B → B → Prop where
| nil (b : B) : Path D b [] b
| cons
    {b p a : B}
    {bs : List B} :
    D.parent b = some p → Path D p bs a →
      Path D b (b :: bs) a

namespace Path

theorem level_eq
    {b a : B}
    {bs : List B}
    (hPath : D.Path b bs a) :
    D.level b = D.level a + bs.length := by
  induction hPath with
  | nil b => rfl
  | cons hParent _ ih =>
      rw [D.level_parent hParent, ih, List.length_cons]
      omega

/- A path passes every level between its ends. -/
theorem split_at
    {b a : B}
    {bs : List B}
    (hPath : D.Path b bs a)
    {level : Nat}
    (hAbove : D.level a ≤ level)
    (hBelow : level ≤ D.level b) :
    ∃ m upper lower, D.level m = level ∧
      bs = upper ++ lower ∧
      D.Path b upper m ∧ D.Path m lower a := by
  induction hPath with
  | nil b =>
      have hLevel : D.level b = level := by omega
      exact ⟨b, [], [], hLevel, rfl, .nil b, .nil b⟩
  | @cons b p a bs hParent hPath ih =>
      by_cases hTop : level = D.level b
      · exact ⟨b, [], b :: bs, hTop.symm, rfl, .nil b,
          .cons hParent hPath⟩
      · have hNext := D.level_parent hParent
        rcases ih hAbove (by omega) with
          ⟨m, upper, lower, hLevel, rfl, hUpper, hLower⟩
        exact ⟨m, b :: upper, lower, hLevel, rfl,
          .cons hParent hUpper, hLower⟩

/- A path to a lower element runs through the higher one. -/
theorem tail_eq
    {b m a : B}
    {bs cs : List B}
    (hPath : D.Path b bs a)
    (hUpper : D.Path b cs m)
    (hBelow : D.level a ≤ D.level m) :
    ∃ lower, bs = cs ++ lower ∧ D.Path m lower a := by
  induction hUpper generalizing bs with
  | nil b => exact ⟨bs, rfl, hPath⟩
  | @cons b p m cs hParent hUpper ih =>
      cases hPath with
      | nil _ =>
          have hLevel := D.level_parent hParent
          have hDown := hUpper.level_eq
          omega
      | cons hParent' hPath =>
          have hSame := hParent.symm.trans hParent'
          rw [← Option.some.inj hSame] at hPath
          rcases ih hPath hBelow with
            ⟨lower, rfl, hLower⟩
          exact ⟨lower, rfl, hLower⟩

end Path

/-
  Two elements of one level come down to the same element in
  lockstep, and not before.
-/
inductive Meet
    (D : Descent B) : B → List B → B → List B → B → Prop where
| here (b : B) : Meet D b [] b [] b
| down
    {b c p q m : B}
    {bs cs : List B} :
    b ≠ c → D.parent b = some p → D.parent c = some q →
      Meet D p bs q cs m →
      Meet D b (b :: bs) c (c :: cs) m

namespace Meet

theorem left
    {b c m : B}
    {bs cs : List B}
    (hMeet : D.Meet b bs c cs m) :
    D.Path b bs m := by
  induction hMeet with
  | here b => exact .nil b
  | down _ hParent _ _ ih => exact .cons hParent ih

end Meet

namespace Path

/- Paths to one element from one level meet above it. -/
theorem exists_meet
    {b c a : B}
    {bs cs : List B}
    (hLeft : D.Path b bs a)
    (hRight : D.Path c cs a)
    (hLevel : D.level b = D.level c) :
    ∃ m upper upper' lower,
      bs = upper ++ lower ∧ cs = upper' ++ lower ∧
      D.Meet b upper c upper' m ∧ D.Path m lower a := by
  induction hLeft generalizing c cs with
  | nil b =>
      have hLength := hRight.level_eq
      have hNil : cs.length = 0 := by omega
      rw [List.length_eq_zero_iff] at hNil
      subst hNil
      cases hRight with
      | nil _ =>
          exact ⟨b, [], [], [], rfl, rfl, .here b, .nil b⟩
  | @cons b p a bs hParent hLeft ih =>
      by_cases hSame : b = c
      · subst hSame
        have hPath : D.Path b (b :: bs) a :=
          .cons hParent hLeft
        rcases hRight.tail_eq hPath (Nat.le_refl _) with
          ⟨lower, rfl, hLower⟩
        cases hLower with
        | nil _ =>
            exact ⟨b, [], [], b :: bs, rfl, by simp,
              .here b, hPath⟩
        | cons hParent' hLower =>
            have hUp := D.level_parent hParent'
            have hDown := hLower.level_eq
            omega
      · cases hRight with
        | nil _ =>
            have hUp := D.level_parent hParent
            have hDown := hLeft.level_eq
            omega
        | cons hParent' hRight =>
            have hUp := D.level_parent hParent
            have hUp' := D.level_parent hParent'
            rcases ih hRight (by omega) with
              ⟨m, upper, upper', lower, rfl, rfl, hMeet,
                hLower⟩
            exact ⟨m, b :: upper, c :: upper', lower, rfl,
              rfl, .down hSame hParent hParent' hMeet,
              hLower⟩

end Path

end Descent
