import StingFlashbots.Trie.Hexary

/-
  The paths met on the way to a key.

  The length of a compressed path is decided by the other
  keys of the trie: a path runs on as long as no other key
  departs. For keys none of which starts another, every path
  on the way has at most one nibble exactly when other keys
  depart often enough.

  Key definitions include:
    * `Trie.EndsOutside`
    * `Trie.ShortPaths`
    * `sharedLength`

  Key results include:
    * `Trie.EndsOutside.path_prefix`
    * `Trie.shortPaths_iff`
-/

/- The number of leading nibbles two keys share. -/
def sharedLength : List Nibble → List Nibble → Nat
| x :: xs, y :: ys =>
    if x = y then sharedLength xs ys + 1 else 0
| [], _ => 0
| _ :: _, [] => 0

theorem sharedLength_cons_self
    (n : Nibble)
    (xs ys : List Nibble) :
    sharedLength (n :: xs) (n :: ys) =
      sharedLength xs ys + 1 := by
  simp [sharedLength]

theorem sharedLength_cons_ne
    {m n : Nibble}
    (hNe : m ≠ n)
    (xs ys : List Nibble) :
    sharedLength (m :: xs) (n :: ys) = 0 := by
  simp [sharedLength, hNe]

theorem sharedLength_append_left
    (path xs ys : List Nibble) :
    sharedLength (path ++ xs) (path ++ ys) =
      path.length + sharedLength xs ys := by
  induction path with
  | nil => simp
  | cons n path ih =>
      simp only [List.cons_append, List.length_cons,
        sharedLength_cons_self, ih]
      omega

namespace Trie

variable {V : Type}

------------------------------------------------------------
-- Keys That Do Not End Inside the Trie
------------------------------------------------------------

/- The key is not a proper prefix of a stored one. -/
def EndsOutside
    (rest : List Nibble)
    (t : Trie V) : Prop :=
  ∀ other, t.lookup other ≠ none →
    rest <+: other → other = rest

theorem EndsOutside.child
    {children : Nibble → Trie V}
    {v : Option V}
    {n : Nibble}
    {rest : List Nibble}
    (hEnds : EndsOutside (n :: rest) (.branch children v)) :
    EndsOutside rest (children n) := by
  intro other hOther hPrefix
  have hEq := hEnds (n :: other) hOther
    (by simpa using hPrefix)
  simpa using hEq

theorem EndsOutside.extension
    {path rest : List Nibble}
    {child : Trie V}
    (hEnds :
      EndsOutside (path ++ rest)
        (.extension path child)) :
    EndsOutside rest child := by
  intro other hOther hPrefix
  have hEq := hEnds (path ++ other) (by simpa using hOther)
    ((List.prefix_append_right_inj path).mpr hPrefix)
  simpa using hEq

/-
  A path that agrees with the rest of the key, even when the
  key runs out inside it, continues the key: below the path
  there is a stored key that the rest would start.
-/
theorem EndsOutside.path_prefix
    {path rest : List Nibble}
    {child : Trie V}
    (hCanonical : (Trie.extension path child).Canonical)
    (hEnds : EndsOutside rest (.extension path child))
    (hShared : path <+: rest ∨ rest <+: path) :
    path <+: rest := by
  rcases hShared with hPath | hRest
  · exact hPath
  · rcases exists_key child hCanonical.2.2
        (not_isBlank_of_isBranch hCanonical.2.1) with
      ⟨other, hOther⟩
    have hEq := hEnds (path ++ other)
      (by simpa using hOther)
      (hRest.trans (List.prefix_append path other))
    rw [← hEq]
    exact List.prefix_append path other

/- Such a key has nibbles left at a branch. -/
theorem EndsOutside.ne_nil
    {children : Nibble → Trie V}
    {v : Option V}
    {rest : List Nibble}
    (hCanonical : (Trie.branch children v).Canonical)
    (hEnds : EndsOutside rest (.branch children v)) :
    rest ≠ [] := by
  rintro rfl
  have hSlot : ∃ a, ¬ (children a).IsBlank := by
    rcases hCanonical.1 with ⟨a, _, _, ha, _⟩ | ⟨_, a, ha⟩
    · exact ⟨a, ha⟩
    · exact ⟨a, ha⟩
  rcases hSlot with ⟨a, ha⟩
  rcases exists_key _ (hCanonical.2 a) ha with ⟨key, hKey⟩
  cases hEnds (a :: key) hKey List.nil_prefix

------------------------------------------------------------
-- Short Paths
------------------------------------------------------------

/- The paths on the way to a key have at most one nibble. -/
def ShortPaths : Trie V → List Nibble → Prop
| .blank, _ => True
| .leaf path _, _ => path.length ≤ 1
| .extension path child, key =>
    path.length ≤ 1 ∧
      child.ShortPaths (key.drop path.length)
| .branch _ _, [] => True
| .branch children _, n :: key =>
    (children n).ShortPaths key

/- Some stored key departs from a key at a position. -/
def DepartsAt
    (t : Trie V)
    (key : List Nibble)
    (d : Nat) : Prop :=
  ∃ other, t.lookup other ≠ none ∧
    sharedLength key other = d

/- Keys below an extension depart behind its path. -/
theorem departsAt_extension_iff
    (path rest : List Nibble)
    (child : Trie V)
    (d : Nat) :
    (Trie.extension path child).DepartsAt (path ++ rest) d ↔
      path.length ≤ d ∧
        child.DepartsAt rest (d - path.length) := by
  constructor
  · rintro ⟨other, hOther, rfl⟩
    have hPath : path <+: other := by
      by_contra hNot
      exact hOther (by simp [lookup, hNot])
    rcases hPath with ⟨tail, rfl⟩
    rw [lookup_extension_append] at hOther
    rw [sharedLength_append_left]
    exact ⟨by omega, tail, hOther, by omega⟩
  · rintro ⟨hLe, tail, hTail, hShared⟩
    refine ⟨path ++ tail, by simpa using hTail, ?_⟩
    rw [sharedLength_append_left]
    omega

theorem departsAt_branch_succ_iff
    (children : Nibble → Trie V)
    (v : Option V)
    (n : Nibble)
    (rest : List Nibble)
    (d : Nat) :
    (Trie.branch children v).DepartsAt (n :: rest) (d + 1) ↔
      (children n).DepartsAt rest d := by
  constructor
  · rintro ⟨other, hOther, hShared⟩
    cases other with
    | nil => simp [sharedLength] at hShared
    | cons m tail =>
        by_cases hEq : n = m
        · subst hEq
          rw [sharedLength_cons_self] at hShared
          exact ⟨tail, hOther, by omega⟩
        · rw [sharedLength_cons_ne hEq] at hShared
          omega
  · rintro ⟨tail, hTail, hShared⟩
    exact ⟨n :: tail, hTail,
      by rw [sharedLength_cons_self, hShared]⟩

/- Some key departs right at a branch. -/
theorem departsAt_branch_zero
    {children : Nibble → Trie V}
    {v : Option V}
    (hCanonical : (Trie.branch children v).Canonical)
    (key : List Nibble) :
    (Trie.branch children v).DepartsAt key 0 := by
  cases key with
  | nil =>
      rcases exists_key _ hCanonical (by simp [IsBlank]) with
        ⟨other, hOther⟩
      exact ⟨other, hOther, by simp [sharedLength]⟩
  | cons n rest =>
      have hOther :
          v ≠ none ∨ ∃ a, n ≠ a ∧ ¬ (children a).IsBlank := by
        rcases hCanonical.1 with
          ⟨a, b, hab, ha, hb⟩ | ⟨hv, _⟩
        · by_cases hna : n = a
          · exact Or.inr ⟨b, by rwa [hna], hb⟩
          · exact Or.inr ⟨a, hna, ha⟩
        · exact Or.inl hv
      rcases hOther with hv | ⟨a, hna, ha⟩
      · exact ⟨[], hv, by simp [sharedLength]⟩
      · rcases exists_key _ (hCanonical.2 a) ha with
          ⟨tail, hTail⟩
        exact ⟨a :: tail, hTail,
          sharedLength_cons_ne hna rest tail⟩

/-
  A trie whose keys depart at position `d` or right after it,
  for every `d` before the last nibble, has short paths on
  the way to the key, and no other trie has.
-/
theorem shortPaths_iff
    (t : Trie V)
    (hCanonical : t.Canonical)
    {key : List Nibble}
    (hStored : t.lookup key ≠ none)
    (hEnds : EndsOutside key t) :
    t.ShortPaths key ↔
      ∀ d, d + 1 < key.length →
        t.DepartsAt key d ∨ t.DepartsAt key (d + 1) := by
  induction t generalizing key with
  | blank => exact (hStored rfl).elim
  | leaf path v =>
      have hEq : key = path := by
        by_contra hNe
        exact hStored (by simp [lookup, hNe])
      subst hEq
      constructor
      · intro hShort d hd
        simp only [ShortPaths] at hShort
        omega
      · intro hDeparts
        by_contra hLong
        simp only [ShortPaths] at hLong
        -- the only stored key is the key itself
        have hSelf :
            ∀ d, (Trie.leaf key v).DepartsAt key d →
              d = key.length := by
          rintro d ⟨other, hOther, rfl⟩
          have hEq : other = key := by
            by_contra hNe
            exact hOther (by simp [lookup, hNe])
          subst hEq
          have hAll :=
            sharedLength_append_left other [] []
          simpa [sharedLength] using hAll
        rcases hDeparts 0 (by omega) with h | h
        · have := hSelf 0 h
          omega
        · have := hSelf 1 h
          omega
  | extension path child ih =>
      have hPath : path <+: key := by
        by_contra hNot
        exact hStored (by simp [lookup, hNot])
      rcases hPath with ⟨rest, rfl⟩
      rw [lookup_extension_append] at hStored
      have hChild := ih hCanonical.2.2 hStored
        hEnds.extension
      have hRestPos : rest ≠ [] := by
        have hBranch := hCanonical.2.1
        cases child with
        | branch children v =>
            exact hEnds.extension.ne_nil hCanonical.2.2
        | _ => exact hBranch.elim
      have hZero : child.DepartsAt rest 0 := by
        have hBranch := hCanonical.2.1
        cases child with
        | branch children v =>
            exact departsAt_branch_zero hCanonical.2.2 rest
        | _ => exact hBranch.elim
      have hPos := List.length_pos_iff.mpr hCanonical.1
      have hRest := List.length_pos_iff.mpr hRestPos
      simp only [ShortPaths, List.drop_left, hChild,
        departsAt_extension_iff, List.length_append]
      constructor
      · rintro ⟨hShort, hDeparts⟩ d hd
        have hOne : path.length = 1 := by omega
        rw [hOne]
        cases d with
        | zero => exact Or.inr ⟨le_refl _, hZero⟩
        | succ d =>
            rcases hDeparts d (by omega) with h | h
            · exact Or.inl ⟨by omega, by simpa using h⟩
            · exact Or.inr ⟨by omega, by simpa using h⟩
      · intro hDeparts
        have hShort : path.length ≤ 1 := by
          rcases hDeparts 0 (by omega) with h | h
          · exact h.1.trans (by omega)
          · exact h.1
        have hOne : path.length = 1 := by omega
        rw [hOne] at hDeparts
        refine ⟨hShort, fun d hd => ?_⟩
        rcases hDeparts (d + 1) (by omega) with h | h
        · exact Or.inl (by simpa using h.2)
        · exact Or.inr (by simpa using h.2)
  | branch children v ih =>
      cases key with
      | nil => exact (hEnds.ne_nil hCanonical rfl).elim
      | cons n rest =>
          have hChild := ih n (hCanonical.2 n) hStored
            hEnds.child
          simp only [ShortPaths, hChild, List.length_cons]
          constructor
          · intro hDeparts d hd
            cases d with
            | zero =>
                exact Or.inl
                  (departsAt_branch_zero hCanonical _)
            | succ d =>
                simp only [departsAt_branch_succ_iff]
                exact hDeparts d (by omega)
          · intro hDeparts d hd
            have h := hDeparts (d + 1) (by omega)
            simpa only [departsAt_branch_succ_iff] using h

end Trie
