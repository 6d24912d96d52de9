import Mathlib.Algebra.BigOperators.Group.List.Basic
import Mathlib.Algebra.Order.Group.Multiset
import Mathlib.Data.List.AList

/-
  Totals over the values of a finite map.

  A map is taken apart at one key: the total is what stands
  there and the total of the rest. Every operation on that
  key only changes the first part.

  Key definitions include:
    * `Tally.total`
    * `Tally.part`

  Main results:
    * `Tally.map_total`
    * `Tally.total_eq`
    * `Tally.total_insert`
    * `Tally.mem_total`
-/

namespace Tally

variable {K V M : Type}
variable [AddCommMonoid M]

/- The sum over all values. -/
def total
    (w : V → M)
    (m : AList (fun _ : K => V)) : M :=
  (m.entries.map (fun e => w e.2)).sum

@[simp] theorem total_empty
    (w : V → M) :
    total w (∅ : AList (fun _ : K => V)) = 0 := rfl

/- Sizes, counts and other sums of a total. -/
theorem map_total
    {M' : Type}
    [AddCommMonoid M']
    (f : M →+ M')
    (w : V → M)
    (m : AList (fun _ : K => V)) :
    f (total w m) = total (fun v => f (w v)) m := by
  simp [total, map_list_sum, Function.comp_def]

variable [DecidableEq K]

/- What stands under one key. -/
def part
    (w : V → M)
    (k : K)
    (m : AList (fun _ : K => V)) : M :=
  match m.lookup k with
  | none => 0
  | some v => w v

theorem part_of_some
    {w : V → M}
    {k : K}
    {m : AList (fun _ : K => V)}
    {v : V}
    (hLookup : m.lookup k = some v) :
    part w k m = w v := by
  simp [part, hLookup]

theorem part_of_none
    {w : V → M}
    {k : K}
    {m : AList (fun _ : K => V)}
    (hLookup : m.lookup k = none) :
    part w k m = 0 := by
  simp [part, hLookup]

/- The map taken apart at one key. -/
theorem total_eq
    (w : V → M)
    (k : K)
    (m : AList (fun _ : K => V)) :
    total w m = part w k m + total w (m.erase k) := by
  cases hLookup : m.lookup k with
  | none =>
      have hNotMem : k ∉ m.entries.keys :=
        AList.lookup_eq_none.mp hLookup
      have hSame : (m.erase k).entries = m.entries :=
        List.kerase_of_notMem_keys hNotMem
      rw [part_of_none hLookup, zero_add]
      simp only [total, hSame]
  | some v =>
      have hMem : k ∈ m.entries.keys := by
        change k ∈ m
        rw [← AList.lookup_isSome, hLookup]
        rfl
      rcases List.exists_of_kerase hMem with
        ⟨v', left, right, hNotMem, hEntries, hErase⟩
      have hFound : m.lookup k = some v' := by
        apply AList.mem_lookup_iff.mpr
        rw [hEntries]
        exact List.mem_append_right _ List.mem_cons_self
      have hSame : v = v' :=
        Option.some.inj (hLookup.symm.trans hFound)
      have hRest : (m.erase k).entries = left ++ right :=
        hErase
      rw [part_of_some hLookup, hSame]
      simp only [total, hRest, hEntries, List.map_append,
        List.map_cons, List.sum_append, List.sum_cons]
      rw [add_left_comm]

theorem total_insert
    (w : V → M)
    (k : K)
    (v : V)
    (m : AList (fun _ : K => V)) :
    total w (m.insert k v) =
      w v + total w (m.erase k) := by
  simp only [total, AList.entries_insert, List.map_cons,
    List.sum_cons]
  rfl

/- Only what stands under the key is gone. -/
theorem total_erase_of_none
    {w : V → M}
    {k : K}
    {m : AList (fun _ : K => V)}
    (hLookup : m.lookup k = none) :
    total w (m.erase k) = total w m := by
  rw [total_eq w k m, part_of_none hLookup, zero_add]

theorem total_of_lookup
    {w : V → M}
    {k : K}
    {m : AList (fun _ : K => V)}
    {v : V}
    (hLookup : m.lookup k = some v) :
    total w m = w v + total w (m.erase k) := by
  rw [total_eq w k m, part_of_some hLookup]

/- What is in a total is in one of its parts. -/
theorem mem_total
    {A : Type}
    {w : V → Multiset A}
    {m : AList (fun _ : K => V)}
    {a : A} :
    a ∈ total w m ↔
      ∃ k v, m.lookup k = some v ∧ a ∈ w v := by
  have hSum :
      ∀ entries : List (Sigma (fun _ : K => V)),
        a ∈ (entries.map (fun e => w e.2)).sum ↔
          ∃ e ∈ entries, a ∈ w e.2 := by
    intro entries
    induction entries with
    | nil => simp
    | cons e entries ih => simp [ih]
  unfold total
  rw [hSum]
  constructor
  · rintro ⟨⟨k, v⟩, hMem, hIn⟩
    exact ⟨k, v, AList.mem_lookup_iff.mpr hMem, hIn⟩
  · rintro ⟨k, v, hLookup, hIn⟩
    exact ⟨⟨k, v⟩, AList.mem_lookup_iff.mp hLookup, hIn⟩

end Tally
