import StingFlashbots.Trie.Nibbles

/-
  Hexary tries with path compression.

  A trie is read as a finite map from nibble sequences to
  values. `Canonical` tries are the ones in fully compressed
  form: extensions are non-empty and lead to branches, and
  every branch has at least two occupied slots. `Represents`
  says that a canonical trie holds a given map.

  Key definitions include:
    * `Trie`
    * `Trie.lookup`
    * `Trie.Canonical`
    * `Trie.Represents`
    * `Trie.insert`

  Key results include:
    * `Trie.exists_key`
    * `Trie.lookup_insert`
    * `Trie.canonical_insert`
    * `Trie.represents_ofList`
-/

/- A compressed trie over nibbles. -/
inductive Trie (V : Type) where
| blank : Trie V
| leaf : List Nibble → V → Trie V
| extension : List Nibble → Trie V → Trie V
| branch : (Nibble → Trie V) → Option V → Trie V

namespace Trie

variable {V : Type}

------------------------------------------------------------
-- Reading a Trie
------------------------------------------------------------

/- The value stored under a key. -/
def lookup : Trie V → List Nibble → Option V
| .blank, _ => none
| .leaf path v, key => if key = path then some v else none
| .extension path child, key =>
    if path <+: key then
      child.lookup (key.drop path.length)
    else
      none
| .branch _ v, [] => v
| .branch children _, n :: key => (children n).lookup key

/- The trie is a branch. -/
def IsBranch : Trie V → Prop
| .branch _ _ => True
| _ => False

/- The trie holds nothing. -/
def IsBlank : Trie V → Prop
| .blank => True
| _ => False

/- At least two of the seventeen slots are in use. -/
def TwoSlots
    (children : Nibble → Trie V)
    (v : Option V) : Prop :=
  (∃ a b, a ≠ b ∧
      ¬ (children a).IsBlank ∧ ¬ (children b).IsBlank) ∨
    (v ≠ none ∧ ∃ a, ¬ (children a).IsBlank)

/- Paths are compressed as far as possible. -/
def Canonical : Trie V → Prop
| .blank => True
| .leaf _ _ => True
| .extension path child =>
    path ≠ [] ∧ child.IsBranch ∧ child.Canonical
| .branch children v =>
    TwoSlots children v ∧ ∀ n, (children n).Canonical

/- A canonical trie holding exactly a given map. -/
structure Represents
    (t : Trie V)
    (f : List Nibble → Option V) : Prop where
  canonical : t.Canonical
  lookup_eq : ∀ key, t.lookup key = f key

@[simp] theorem lookup_extension_append
    (path : List Nibble)
    (child : Trie V)
    (key : List Nibble) :
    (Trie.extension path child).lookup (path ++ key) =
      child.lookup key := by
  simp [lookup]

/- A branch reads the first nibble of the key. -/
@[simp] theorem lookup_branch_cons
    (children : Nibble → Trie V)
    (v : Option V)
    (n : Nibble)
    (key : List Nibble) :
    (Trie.branch children v).lookup (n :: key) =
      (children n).lookup key := rfl

/- A canonical trie that is not blank holds something. -/
theorem exists_key
    (t : Trie V)
    (hCanonical : t.Canonical)
    (hSome : ¬ t.IsBlank) :
    ∃ key, t.lookup key ≠ none := by
  induction t with
  | blank => exact (hSome trivial).elim
  | leaf path v => exact ⟨path, by simp [lookup]⟩
  | extension path child ih =>
      have hChild : ¬ child.IsBlank := by
        intro hBlank
        have hBranch := hCanonical.2.1
        cases child <;>
          simp [IsBranch, IsBlank] at hBranch hBlank
      rcases ih hCanonical.2.2 hChild with ⟨key, hKey⟩
      exact ⟨path ++ key, by simpa using hKey⟩
  | branch children v ih =>
      have hSlot : ∃ a, ¬ (children a).IsBlank := by
        rcases hCanonical.1 with
          ⟨a, _, _, ha, _⟩ | ⟨_, a, ha⟩
        · exact ⟨a, ha⟩
        · exact ⟨a, ha⟩
      rcases hSlot with ⟨a, ha⟩
      rcases ih a (hCanonical.2 a) ha with ⟨key, hKey⟩
      exact ⟨a :: key, by simpa using hKey⟩

------------------------------------------------------------
-- Insertion
------------------------------------------------------------

/- Put one nibble in front of every key. -/
def extend (n : Nibble) : Trie V → Trie V
| .blank => .blank
| .leaf path v => .leaf (n :: path) v
| .extension path child => .extension (n :: path) child
| .branch children v =>
    .extension [n] (.branch children v)

/- Put a path in front of a branch. -/
def under : List Nibble → Trie V → Trie V
| [], child => child
| n :: path, child => .extension (n :: path) child

/- The children of a branch with one used slot. -/
def single
    (n : Nibble)
    (t : Trie V) : Nibble → Trie V :=
  Function.update (fun _ => .blank) n t

/- Add a key beside the one a leaf holds. -/
def insertLeaf
    (w : V) :
    List Nibble → List Nibble → V → Trie V
| [], [], v => .leaf [] v
| [], n :: key, v =>
    .branch (single n (.leaf key v)) (some w)
| m :: path, [], v =>
    .branch (single m (.leaf path w)) (some v)
| m :: path, n :: key, v =>
    if m = n then
      extend m (insertLeaf w path key v)
    else
      .branch
        (Function.update (single m (.leaf path w))
          n (.leaf key v)) none

/-
  Add a key beside those below an extension. The key is
  passed to `descend` once the whole path is consumed.
-/
def insertExtension
    (child : Trie V)
    (descend : List Nibble → Trie V) :
    List Nibble → List Nibble → V → Trie V
| [], key, _ => descend key
| m :: path, [], v =>
    .branch (single m (under path child)) (some v)
| m :: path, n :: key, v =>
    if m = n then
      extend m (insertExtension child descend path key v)
    else
      .branch
        (Function.update (single m (under path child))
          n (.leaf key v)) none

/- Store a value under a key. -/
def insert : Trie V → List Nibble → V → Trie V
| .blank, key, v => .leaf key v
| .leaf path w, key, v => insertLeaf w path key v
| .extension path child, key, v =>
    insertExtension child (fun key => child.insert key v)
      path key v
| .branch children _, [], v => .branch children (some v)
| .branch children w, n :: key, v =>
    .branch
      (Function.update children n
        ((children n).insert key v)) w

/- Store a list of entries, one after the other. -/
def ofList (entries : List (List Nibble × V)) : Trie V :=
  entries.foldl (fun t e => t.insert e.1 e.2) .blank

/- The map a list of entries assigns. -/
def mapOfList
    (entries : List (List Nibble × V)) :
    List Nibble → Option V :=
  entries.foldl
    (fun f e => Function.update f e.1 (some e.2))
    (fun _ => none)

@[simp] theorem lookup_extend_nil
    (n : Nibble)
    (t : Trie V) :
    (extend n t).lookup [] = none := by
  cases t <;> simp [extend, lookup]

@[simp] theorem lookup_extend_cons
    (n m : Nibble)
    (t : Trie V)
    (key : List Nibble) :
    (extend n t).lookup (m :: key) =
      if m = n then t.lookup key else none := by
  cases t with
  | blank => simp [extend, lookup]
  | leaf path v =>
      by_cases hm : m = n <;> simp [extend, lookup, hm]
  | extension path child =>
      by_cases hm : m = n
      · simp [extend, lookup, hm]
      · have hn : ¬ n = m := fun h => hm h.symm
        simp [extend, lookup, hm, hn]
  | branch children v =>
      by_cases hm : m = n
      · simp [extend, lookup, hm]
      · have hn : ¬ n = m := fun h => hm h.symm
        simp [extend, lookup, hm, hn]

theorem lookup_under
    (path : List Nibble)
    (child : Trie V)
    (key : List Nibble) :
    (under path child).lookup key =
      (Trie.extension path child).lookup key := by
  cases path <;> simp [under, lookup]

@[simp] theorem lookup_single
    (n m : Nibble)
    (t : Trie V)
    (key : List Nibble) :
    (single n t m).lookup key =
      if m = n then t.lookup key else none := by
  by_cases hm : m = n
  · subst hm
    simp [single]
  · simp [single, hm, lookup]

theorem lookup_insertLeaf
    (w : V)
    (path key : List Nibble)
    (v : V)
    (probe : List Nibble) :
    (insertLeaf w path key v).lookup probe =
      if probe = key then some v
      else (Trie.leaf path w).lookup probe := by
  induction path generalizing key probe with
  | nil =>
      cases key with
      | nil => by_cases h : probe = [] <;>
          simp [insertLeaf, lookup, h]
      | cons n key =>
          cases probe with
          | nil => simp [insertLeaf, lookup]
          | cons m probe =>
              by_cases hm : m = n <;>
                simp [insertLeaf, lookup, hm]
  | cons m path ih =>
      cases key with
      | nil =>
          cases probe with
          | nil => simp [insertLeaf, lookup]
          | cons x probe =>
              by_cases hx : x = m <;>
                simp [insertLeaf, lookup, hx]
      | cons n key =>
          by_cases hmn : m = n
          · subst hmn
            cases probe with
            | nil => simp [insertLeaf, lookup]
            | cons x probe =>
                by_cases hx : x = m <;>
                  simp [insertLeaf, lookup, hx, ih]
          · cases probe with
            | nil => simp [insertLeaf, hmn, lookup]
            | cons x probe =>
                by_cases hx : x = n
                · subst hx
                  have hxm : ¬ x = m := fun h =>
                    hmn h.symm
                  simp [insertLeaf, hmn, lookup, hxm]
                · by_cases hxm : x = m <;>
                    simp [insertLeaf, hmn, lookup, hx, hxm]

theorem lookup_insertExtension
    (child : Trie V)
    (descend : List Nibble → Trie V)
    (path key : List Nibble)
    (v : V)
    (hDescend : ∀ rest probe,
      (descend rest).lookup probe =
        if probe = rest then some v
        else child.lookup probe)
    (probe : List Nibble) :
    (insertExtension child descend path key v).lookup probe =
      if probe = key then some v
      else (Trie.extension path child).lookup probe := by
  induction path generalizing key probe with
  | nil => simp [insertExtension, hDescend, lookup]
  | cons m path ih =>
      cases key with
      | nil =>
          cases probe with
          | nil => simp [insertExtension, lookup]
          | cons x probe =>
              by_cases hx : x = m
              · simp [insertExtension, hx, lookup_under,
                  lookup]
              · have hmx : ¬ m = x := fun h => hx h.symm
                simp [insertExtension, hx, hmx, lookup]
      | cons n key =>
          by_cases hmn : m = n
          · subst hmn
            cases probe with
            | nil => simp [insertExtension, lookup]
            | cons x probe =>
                by_cases hx : x = m
                · simp [insertExtension, hx, ih, lookup]
                · have hmx : ¬ m = x := fun h => hx h.symm
                  simp [insertExtension, hx, hmx, lookup]
          · cases probe with
            | nil => simp [insertExtension, hmn, lookup]
            | cons x probe =>
                by_cases hx : x = n
                · subst hx
                  simp [insertExtension, hmn, lookup]
                · by_cases hxm : x = m
                  · subst hxm
                    simp [insertExtension, hmn,
                      lookup_under, lookup]
                  · have hmx : ¬ m = x := fun h =>
                      hxm h.symm
                    simp [insertExtension, hmn, hx, hxm,
                      hmx, lookup]

/- Insertion changes exactly the requested key. -/
theorem lookup_insert
    (t : Trie V)
    (key : List Nibble)
    (v : V)
    (probe : List Nibble) :
    (t.insert key v).lookup probe =
      if probe = key then some v else t.lookup probe := by
  induction t generalizing key probe with
  | blank => simp [insert, lookup]
  | leaf path w => exact lookup_insertLeaf w path key v probe
  | extension path child ih =>
      exact lookup_insertExtension child _ path key v
        (fun rest probe => ih rest probe) probe
  | branch children w ih =>
      cases key with
      | nil => cases probe <;> simp [insert, lookup]
      | cons n key =>
          cases probe with
          | nil => simp [insert, lookup]
          | cons m probe =>
              by_cases hm : m = n
              · subst hm
                simp [insert, ih]
              · simp [insert, hm]

------------------------------------------------------------
-- Insertion Keeps Tries Canonical
------------------------------------------------------------

theorem not_isBlank_of_isBranch
    {t : Trie V}
    (hBranch : t.IsBranch) :
    ¬ t.IsBlank := by
  cases t <;> simp [IsBranch, IsBlank] at *

theorem canonical_extend
    (n : Nibble)
    {t : Trie V}
    (hCanonical : t.Canonical) :
    (extend n t).Canonical := by
  cases t with
  | blank => trivial
  | leaf path v => trivial
  | extension path child =>
      exact ⟨by simp, hCanonical.2⟩
  | branch children v =>
      exact ⟨by simp, trivial, hCanonical⟩

theorem not_isBlank_extend
    (n : Nibble)
    {t : Trie V}
    (hSome : ¬ t.IsBlank) :
    ¬ (extend n t).IsBlank := by
  cases t <;> simp [extend, IsBlank] at *

theorem canonical_under
    (path : List Nibble)
    {child : Trie V}
    (hBranch : child.IsBranch)
    (hCanonical : child.Canonical) :
    (under path child).Canonical ∧
      ¬ (under path child).IsBlank := by
  cases path with
  | nil =>
      exact ⟨hCanonical, not_isBlank_of_isBranch hBranch⟩
  | cons n path =>
      exact ⟨⟨by simp, hBranch, hCanonical⟩,
        by simp [under, IsBlank]⟩

/- A branch with one used child and a value. -/
private theorem canonical_single
    (n : Nibble)
    {t : Trie V}
    (v : V)
    (hCanonical : t.Canonical)
    (hSome : ¬ t.IsBlank) :
    (Trie.branch (single n t) (some v)).Canonical := by
  refine ⟨Or.inr ⟨by simp, n, by simpa [single] using hSome⟩,
    ?_⟩
  intro m
  by_cases hm : m = n
  · subst hm
    simpa [single] using hCanonical
  · simp [single, hm, Canonical]

/- A branch with two used children. -/
private theorem canonical_pair
    {m n : Nibble}
    (hmn : ¬ m = n)
    {s t : Trie V}
    (hs : s.Canonical ∧ ¬ s.IsBlank)
    (ht : t.Canonical ∧ ¬ t.IsBlank) :
    (Trie.branch (Function.update (single m s) n t)
      none).Canonical := by
  refine ⟨Or.inl ⟨m, n, hmn, ?_, ?_⟩, ?_⟩
  · simpa [single, hmn] using hs.2
  · simpa using ht.2
  · intro x
    by_cases hx : x = n
    · subst hx
      simpa using ht.1
    · by_cases hxm : x = m
      · subst hxm
        simpa [single, hx] using hs.1
      · simp [single, hx, hxm, Canonical]

private theorem canonical_leaf
    (path : List Nibble)
    (v : V) :
    (Trie.leaf path v).Canonical ∧
      ¬ (Trie.leaf path v).IsBlank :=
  ⟨trivial, by simp [IsBlank]⟩

theorem canonical_insertLeaf
    (w : V)
    (path key : List Nibble)
    (v : V) :
    (insertLeaf w path key v).Canonical ∧
      ¬ (insertLeaf w path key v).IsBlank := by
  induction path generalizing key with
  | nil =>
      cases key with
      | nil => exact canonical_leaf [] v
      | cons n key =>
          have hLeaf := canonical_leaf key v
          exact ⟨canonical_single n w hLeaf.1 hLeaf.2,
            by simp [insertLeaf, IsBlank]⟩
  | cons m path ih =>
      cases key with
      | nil =>
          have hLeaf := canonical_leaf path w
          exact ⟨canonical_single m v hLeaf.1 hLeaf.2,
            by simp [insertLeaf, IsBlank]⟩
      | cons n key =>
          by_cases hmn : m = n
          · subst hmn
            have hRec := ih key
            simp only [insertLeaf, if_true]
            exact ⟨canonical_extend m hRec.1,
              not_isBlank_extend m hRec.2⟩
          · simp only [insertLeaf, if_neg hmn]
            exact ⟨canonical_pair hmn
                (canonical_leaf path w)
                (canonical_leaf key v),
              by simp [IsBlank]⟩

theorem canonical_insertExtension
    {child : Trie V}
    (hBranch : child.IsBranch)
    (hChild : child.Canonical)
    {descend : List Nibble → Trie V}
    (hDescend : ∀ rest,
      (descend rest).Canonical ∧ ¬ (descend rest).IsBlank)
    (path key : List Nibble)
    (v : V) :
    (insertExtension child descend path key v).Canonical ∧
      ¬ (insertExtension child descend path
          key v).IsBlank := by
  induction path generalizing key with
  | nil => exact hDescend key
  | cons m path ih =>
      have hUnder := canonical_under path hBranch hChild
      cases key with
      | nil =>
          exact ⟨canonical_single m v hUnder.1 hUnder.2,
            by simp [insertExtension, IsBlank]⟩
      | cons n key =>
          by_cases hmn : m = n
          · subst hmn
            have hRec := ih key
            simp only [insertExtension, if_true]
            exact ⟨canonical_extend m hRec.1,
              not_isBlank_extend m hRec.2⟩
          · simp only [insertExtension, if_neg hmn]
            exact ⟨canonical_pair hmn hUnder
                (canonical_leaf key v),
              by simp [IsBlank]⟩

/- Filling a slot keeps the other used slots used. -/
private theorem TwoSlots.update
    {children : Nibble → Trie V}
    {v : Option V}
    (hSlots : TwoSlots children v)
    (n : Nibble)
    {t : Trie V}
    (hSome : ¬ t.IsBlank) :
    TwoSlots (Function.update children n t) v := by
  have hKeep : ∀ a, ¬ (children a).IsBlank →
      ¬ (Function.update children n t a).IsBlank := by
    intro a ha
    by_cases hn : a = n
    · subst hn
      simpa using hSome
    · simpa [hn] using ha
  rcases hSlots with ⟨a, b, hab, ha, hb⟩ | ⟨hv, a, ha⟩
  · exact Or.inl ⟨a, b, hab, hKeep a ha, hKeep b hb⟩
  · exact Or.inr ⟨hv, a, hKeep a ha⟩

private theorem TwoSlots.setValue
    {children : Nibble → Trie V}
    {w : Option V}
    (hSlots : TwoSlots children w)
    (v : V) :
    TwoSlots children (some v) := by
  rcases hSlots with ⟨a, _, _, ha, _⟩ | ⟨_, a, ha⟩
  · exact Or.inr ⟨by simp, a, ha⟩
  · exact Or.inr ⟨by simp, a, ha⟩

/- Insertion keeps a trie canonical and fills it. -/
theorem canonical_insert
    (t : Trie V)
    (hCanonical : t.Canonical)
    (key : List Nibble)
    (v : V) :
    (t.insert key v).Canonical ∧
      ¬ (t.insert key v).IsBlank := by
  induction t generalizing key with
  | blank => exact canonical_leaf key v
  | leaf path w => exact canonical_insertLeaf w path key v
  | extension path child ih =>
      exact canonical_insertExtension hCanonical.2.1
        hCanonical.2.2 (fun rest => ih hCanonical.2.2 rest)
        path key v
  | branch children w ih =>
      cases key with
      | nil =>
          exact ⟨⟨hCanonical.1.setValue v, hCanonical.2⟩,
            by simp [insert, IsBlank]⟩
      | cons n key =>
          have hRec := ih n (hCanonical.2 n) key
          refine ⟨⟨hCanonical.1.update n hRec.2, ?_⟩,
            by simp [insert, IsBlank]⟩
          intro m
          by_cases hm : m = n
          · subst hm
            simpa using hRec.1
          · simpa [hm] using hCanonical.2 m

/- One insertion updates the represented map. -/
theorem Represents.insert
    {t : Trie V}
    {f : List Nibble → Option V}
    (hRep : t.Represents f)
    (key : List Nibble)
    (v : V) :
    (t.insert key v).Represents
      (Function.update f key (some v)) where
  canonical := (canonical_insert t hRep.canonical key v).1
  lookup_eq := by
    intro probe
    rw [lookup_insert, Function.update_apply,
      hRep.lookup_eq]

/- What the map assigns is one of the entries. -/
theorem mem_of_mapOfList
    (entries : List (List Nibble × V))
    {key : List Nibble}
    {v : V}
    (hSome : mapOfList entries key = some v) :
    (key, v) ∈ entries := by
  have hFold :
      ∀ f : List Nibble → Option V,
        (entries.foldl
            (fun (g : List Nibble → Option V) e =>
              Function.update g e.1 (some e.2))
            f) key = some v →
          (key, v) ∈ entries ∨ f key = some v := by
    clear hSome
    induction entries with
    | nil => exact fun f h => Or.inr h
    | cons e entries ih =>
        intro f h
        rcases ih _ h with hMem | hHead
        · exact Or.inl (List.mem_cons_of_mem _ hMem)
        · simp only [Function.update_apply] at hHead
          split at hHead
          · rename_i hKey
            cases hHead
            left
            rw [hKey]
            exact List.mem_cons_self
          · exact Or.inr hHead
  rcases hFold _ hSome with hMem | hNone
  · exact hMem
  · cases hNone

private theorem foldl_update_of_notMem
    (entries : List (List Nibble × V))
    (f : List Nibble → Option V)
    {key : List Nibble}
    (hKey : key ∉ entries.map Prod.fst) :
    (entries.foldl
        (fun (g : List Nibble → Option V) e =>
          Function.update g e.1 (some e.2))
        f) key =
      f key := by
  induction entries generalizing f with
  | nil => rfl
  | cons e entries ih =>
      simp only [List.map_cons, List.mem_cons, not_or] at hKey
      rw [List.foldl_cons, ih _ hKey.2,
        Function.update_of_ne hKey.1]

/- Entries under distinct keys are all kept. -/
theorem mapOfList_of_mem
    {entries : List (List Nibble × V)}
    (hNodup : (entries.map Prod.fst).Nodup)
    {key : List Nibble}
    {v : V}
    (hMem : (key, v) ∈ entries) :
    mapOfList entries key = some v := by
  unfold mapOfList
  generalize (fun _ : List Nibble => (none : Option V)) = f
  induction entries generalizing f with
  | nil => cases hMem
  | cons e entries ih =>
      rw [List.map_cons, List.nodup_cons] at hNodup
      rw [List.foldl_cons]
      rcases List.mem_cons.mp hMem with hHead | hTail
      · subst hHead
        rw [foldl_update_of_notMem _ _ hNodup.1]
        exact Function.update_self _ _ _
      · exact ih hNodup.2 hTail _

/- Storing entries one by one builds the map they assign. -/
theorem represents_ofList
    (entries : List (List Nibble × V)) :
    (ofList entries).Represents (mapOfList entries) := by
  have hFold :
      ∀ (t : Trie V) (f : List Nibble → Option V),
        t.Represents f →
          (entries.foldl
              (fun t e => t.insert e.1 e.2) t).Represents
            (entries.foldl
              (fun f e =>
                Function.update f e.1 (some e.2)) f) := by
    induction entries with
    | nil => exact fun t f hRep => hRep
    | cons e entries ih =>
        intro t f hRep
        exact ih _ _ (hRep.insert e.1 e.2)
  exact hFold .blank (fun _ => none)
    ⟨trivial, fun _ => rfl⟩

end Trie
