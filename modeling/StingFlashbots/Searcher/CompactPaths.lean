import StingFlashbots.Searcher.VerifyProof
import StingFlashbots.Trie.Paths

/-
  Paths of trie nodes, as the verifier reads them.

  Decoding a compact path undoes the hex-prefix encoding.
  The length of a shared prefix is the right one unless the
  key runs out inside the path, which then counts as shared
  in full.

  Key definitions include:
    * `LongestCommonPrefix`

  Main results:
    * `decodeCompact_eq`
    * `decodeCompact_inverse`
    * `sharedPrefixLength_eq`
    * `sharedPrefixLength_longest_iff`
-/

namespace Sting

------------------------------------------------------------
-- Compact Paths
------------------------------------------------------------

theorem getElem?_ofBytes
    (b : Bytes)
    {i : Nat}
    (hi : i < 2 * b.length) :
    (Nibble.ofBytes b)[i]? = some (nibbleAt b i) := by
  induction b generalizing i with
  | nil => simp at hi
  | cons x b ih =>
      match i with
      | 0 => rfl
      | 1 => rfl
      | i + 2 =>
          rw [List.length_cons] at hi
          have hHalf : (i + 2) / 2 = i / 2 + 1 := by omega
          have hParity : (i + 2) % 2 = i % 2 := by omega
          have hRest := ih (i := i) (by omega)
          simp only [Nibble.ofBytes, List.getElem?_cons_succ,
            hRest, nibbleAt, hHalf, hParity,
            List.getD_cons_succ]

/- The loop collects the nibbles behind the header. -/
theorem map_nibbleAt
    (b : Bytes)
    (k : Nat) :
    (List.range' k (b.length * 2 - k)).map (nibbleAt b) =
      (Nibble.ofBytes b).drop k := by
  apply List.ext_getElem?
  intro i
  rw [List.getElem?_map, List.getElem?_drop]
  by_cases hi : i < b.length * 2 - k
  · rw [List.getElem?_range' hi,
      getElem?_ofBytes b (by omega), Option.map_some,
      Nat.one_mul]
  · rw [List.getElem?_eq_none (by simpa using hi),
      List.getElem?_eq_none]
    · rfl
    · rw [Nibble.length_ofBytes]
      omega

/- Reading a compact path, by its first nibble. -/
theorem decodeCompact_eq
    (x : UInt8)
    (rest : Bytes) :
    decodeCompact (x :: rest) =
      match (Nibble.high x).val with
      | 0 => .ok (false, Nibble.ofBytes rest)
      | 1 => .ok (false, Nibble.low x :: Nibble.ofBytes rest)
      | 2 => .ok (true, Nibble.ofBytes rest)
      | 3 => .ok (true, Nibble.low x :: Nibble.ofBytes rest)
      | _ => .error .assertionError := by
  have hOne := map_nibbleAt (x :: rest) 1
  have hTwo := map_nibbleAt (x :: rest) 2
  have hNonempty : (x :: rest).length ≠ 0 := by simp
  have hOneLe : 1 ≤ (x :: rest).length * 2 := by
    rw [List.length_cons]
    omega
  have hTwoLe : 2 ≤ (x :: rest).length * 2 := by
    rw [List.length_cons]
    omega
  unfold decodeCompact
  rw [pyAssert_pos hNonempty, ok_bind, List.getD_cons_zero]
  match (Nibble.high x).val with
  | 0 =>
      simp only [compactHeader, ok_bind,
        pyAssert_pos hTwoLe, hTwo]
      rfl
  | 1 =>
      simp only [compactHeader, ok_bind,
        pyAssert_pos hOneLe, hOne]
      rfl
  | 2 =>
      simp only [compactHeader, ok_bind,
        pyAssert_pos hTwoLe, hTwo]
      rfl
  | 3 =>
      simp only [compactHeader, ok_bind,
        pyAssert_pos hOneLe, hOne]
      rfl
  | n + 4 => rfl

/- A path with its flag, in full bytes. -/
private theorem hexPrefix_cons
    (path : List Nibble)
    (isLeaf : Bool) :
    ∃ x rest, Nibble.hexPrefix path isLeaf = x :: rest ∧
      Nibble.ofBytes (x :: rest) =
        if path.length % 2 = 0 then
          (if isLeaf then 2 else 0) :: 0 :: path
        else
          ((if isLeaf then 2 else 0) + 1) :: path := by
  have hLength := Nibble.length_hexPrefix path isLeaf
  rcases hPrefix : Nibble.hexPrefix path isLeaf with
    _ | ⟨x, rest⟩
  · rw [hPrefix] at hLength
    simp at hLength
  · refine ⟨x, rest, rfl, ?_⟩
    rw [← hPrefix, Nibble.ofBytes_hexPrefix]

/- Decoding undoes the encoding. -/
theorem decodeCompact_hexPrefix
    (path : List Nibble)
    (isLeaf : Bool) :
    decodeCompact (Nibble.hexPrefix path isLeaf) =
      .ok (isLeaf, path) := by
  rcases hexPrefix_cons path isLeaf with
    ⟨x, rest, hPrefix, hNibbles⟩
  rw [hPrefix, decodeCompact_eq]
  by_cases hEven : path.length % 2 = 0
  · rw [if_pos hEven] at hNibbles
    simp only [Nibble.ofBytes, List.cons.injEq] at hNibbles
    rcases hNibbles with ⟨hFlag, _, hRest⟩
    rw [hFlag, hRest]
    cases isLeaf with
    | false => rfl
    | true => rfl
  · rw [if_neg hEven] at hNibbles
    simp only [Nibble.ofBytes, List.cons.injEq] at hNibbles
    rcases hNibbles with ⟨hFlag, hRest⟩
    rw [hFlag, hRest]
    cases isLeaf with
    | false => rfl
    | true => rfl

/- The nibble that fills up a path of even length. -/
def paddingNibble (compact : Bytes) : Nibble :=
  Nibble.low (compact.getD 0 0)

/- Encoding undoes the decoding of padded paths. -/
theorem hexPrefix_of_decodeCompact
    {compact : Bytes}
    {isLeaf : Bool}
    {path : List Nibble}
    (hDecode : decodeCompact compact = .ok (isLeaf, path))
    (hPadding :
      path.length % 2 = 0 → paddingNibble compact = 0) :
    Nibble.hexPrefix path isLeaf = compact := by
  cases compact with
  | nil => cases hDecode
  | cons x rest =>
      have hLength := Nibble.length_ofBytes rest
      have hPack := Nibble.pack_ofBytes (x :: rest)
      have hHigh : ∀ n : Nibble,
          (Nibble.high x).val = n.val → Nibble.high x = n :=
        fun n hn => Fin.ext hn
      rw [decodeCompact_eq] at hDecode
      simp only [paddingNibble, List.getD_cons_zero]
        at hPadding
      rw [Nibble.ofBytes] at hPack
      unfold Nibble.hexPrefix
      split at hDecode
      · rename_i hFlag
        cases hDecode
        rw [if_pos (by omega)]
        rw [hHigh 0 hFlag, hPadding (by omega)] at hPack
        exact hPack
      · rename_i hFlag
        cases hDecode
        rw [if_neg (by rw [List.length_cons]; omega)]
        rw [hHigh 1 hFlag] at hPack
        exact hPack
      · rename_i hFlag
        cases hDecode
        rw [if_pos (by omega)]
        rw [hHigh 2 hFlag, hPadding (by omega)] at hPack
        exact hPack
      · rename_i hFlag
        cases hDecode
        rw [if_neg (by rw [List.length_cons]; omega)]
        rw [hHigh 3 hFlag] at hPack
        exact hPack
      · cases hDecode

/- What decoding refuses. -/
theorem decodeCompact_error_iff
    (compact : Bytes) :
    (∃ e, decodeCompact compact = .error e) ↔
      compact = [] ∨
        3 < (Nibble.high (compact.getD 0 0)).val := by
  cases compact with
  | nil => exact ⟨fun _ => Or.inl rfl, fun _ => ⟨_, rfl⟩⟩
  | cons x rest =>
      rw [decodeCompact_eq, List.getD_cons_zero]
      match (Nibble.high x).val with
      | 0 => simp
      | 1 => simp
      | 2 => simp
      | 3 => simp
      | n + 4 => simp

/-
  Decoding and encoding undo each other: every path comes
  back, and so does every compact form that decodes and is
  padded with zero.
-/
theorem decodeCompact_inverse :
    (∀ path isLeaf,
      decodeCompact (Nibble.hexPrefix path isLeaf) =
        .ok (isLeaf, path)) ∧
    (∀ compact isLeaf path,
      compact ≠ [] →
      decodeCompact compact = .ok (isLeaf, path) →
      (path.length % 2 = 0 → paddingNibble compact = 0) →
        Nibble.hexPrefix path isLeaf = compact) ∧
    ∀ compact,
      (∃ e, decodeCompact compact = .error e) ↔
        compact = [] ∨
          3 < (Nibble.high (compact.getD 0 0)).val :=
  ⟨decodeCompact_hexPrefix,
    fun _ _ _ _ hDecode hPadding =>
      hexPrefix_of_decodeCompact hDecode hPadding,
    decodeCompact_error_iff⟩

/- A leaf path of two nibbles. -/
theorem decodeCompact_inverse_sample :
    decodeCompact [0x20, 0x12] = .ok (true, [1, 2]) ∧
    Nibble.hexPrefix [1, 2] true = [0x20, 0x12] := by
  have hDecode :
      decodeCompact [0x20, 0x12] = .ok (true, [1, 2]) := by
    decide
  exact ⟨hDecode, decodeCompact_inverse.2.1 _ _ _
    (by decide) hDecode (by decide)⟩

------------------------------------------------------------
-- Shared Prefixes
------------------------------------------------------------

/-
  The loop stops at the first difference. When the key runs
  out before one is found, it returns the length of the
  whole path.
-/
private theorem sharedPrefixLengthFrom_eq
    (offset : Nat)
    (xs ys : List Nibble)
    (i : Nat) :
    sharedPrefixLengthFrom offset xs (i + ys.length) i ys =
      i + (if xs.drop (i + offset) <+: ys then
        ys.length
      else
        sharedLength (xs.drop (i + offset)) ys) := by
  induction ys generalizing i with
  | nil =>
      cases hDrop : xs.drop (i + offset) with
      | nil => simp [sharedPrefixLengthFrom]
      | cons x rest =>
          simp [sharedPrefixLengthFrom, sharedLength]
  | cons y ys ih =>
      have hTotal :
          i + (y :: ys).length = (i + 1) + ys.length := by
        rw [List.length_cons]
        omega
      rw [hTotal, sharedPrefixLengthFrom]
      cases hx : xs[i + offset]? with
      | none =>
          have hNil : xs.drop (i + offset) = [] :=
            List.drop_eq_nil_iff.mpr
              (List.getElem?_eq_none_iff.mp hx)
          simp only [hNil, List.nil_prefix, if_true,
            List.length_cons]
          omega
      | some x =>
          have hDrop :
              xs.drop (i + offset) =
                x :: xs.drop (i + 1 + offset) := by
            rcases List.getElem?_eq_some_iff.mp hx with
              ⟨hLt, hGet⟩
            rw [List.drop_eq_getElem_cons hLt, hGet,
              Nat.add_right_comm]
          rw [hDrop]
          by_cases hxy : x = y
          · simp only [hxy, ne_eq, not_true_eq_false,
              if_false, ih (i + 1), List.cons_prefix_cons,
              true_and, sharedLength_cons_self,
              List.length_cons]
            split_ifs
            · omega
            · omega
          · simp [hxy, sharedLength_cons_ne hxy]

/- What `shared_prefix_length` computes. -/
theorem sharedPrefixLength_eq
    (offset : Nat)
    (xs ys : List Nibble) :
    sharedPrefixLength offset xs ys =
      if xs.drop offset <+: ys then
        ys.length
      else
        sharedLength (xs.drop offset) ys := by
  have hFrom := sharedPrefixLengthFrom_eq offset xs ys 0
  rw [Nat.zero_add, Nat.zero_add, Nat.zero_add] at hFrom
  exact hFrom

/- The number is the length of the longest common prefix. -/
structure LongestCommonPrefix
    (xs ys : List Nibble)
    (n : Nat) : Prop where
  common :
    ∃ p, p <+: xs ∧ p <+: ys ∧ p.length = n
  longest :
    ∀ p, p <+: xs → p <+: ys → p.length ≤ n

theorem longestCommonPrefix_sharedLength
    (xs ys : List Nibble) :
    LongestCommonPrefix xs ys (sharedLength xs ys) := by
  induction xs generalizing ys with
  | nil =>
      constructor
      · exact ⟨[], List.nil_prefix, List.nil_prefix, rfl⟩
      · intro p hp _
        rw [List.prefix_nil.mp hp]
        exact Nat.zero_le _
  | cons x xs ih =>
      cases ys with
      | nil =>
          constructor
          · exact ⟨[], List.nil_prefix, List.nil_prefix, rfl⟩
          · intro p _ hp
            rw [List.prefix_nil.mp hp]
            exact Nat.zero_le _
      | cons y ys =>
          by_cases hxy : x = y
          · subst hxy
            rw [sharedLength_cons_self]
            rcases ih ys with ⟨⟨p, hxs, hys, hp⟩, hLongest⟩
            constructor
            · refine ⟨x :: p, ?_, ?_, by simp [hp]⟩
              · simpa using hxs
              · simpa using hys
            · intro q hqx hqy
              cases q with
              | nil => exact Nat.zero_le _
              | cons z q =>
                  rw [List.cons_prefix_cons] at hqx hqy
                  have hq := hLongest q hqx.2 hqy.2
                  rw [List.length_cons]
                  omega
          · rw [sharedLength_cons_ne hxy]
            constructor
            · exact
                ⟨[], List.nil_prefix, List.nil_prefix, rfl⟩
            · intro q hqx hqy
              cases q with
              | nil => exact Nat.zero_le _
              | cons z q =>
                  rw [List.cons_prefix_cons] at hqx hqy
                  exact absurd (hqx.1.symm.trans hqy.1) hxy

theorem LongestCommonPrefix.unique
    {xs ys : List Nibble}
    {m n : Nat}
    (hm : LongestCommonPrefix xs ys m)
    (hn : LongestCommonPrefix xs ys n) :
    m = n := by
  rcases hm.common with ⟨p, hpx, hpy, rfl⟩
  rcases hn.common with ⟨q, hqx, hqy, rfl⟩
  exact le_antisymm (hn.longest p hpx hpy)
    (hm.longest q hqx hqy)

theorem LongestCommonPrefix.le_length
    {xs ys : List Nibble}
    {n : Nat}
    (hn : LongestCommonPrefix xs ys n) :
    n ≤ xs.length := by
  rcases hn.common with ⟨p, hpx, _, rfl⟩
  exact hpx.length_le

/-
  The number is right, and with it the position in the key,
  except when what is left of the key is a proper prefix of
  the path.
-/
theorem sharedPrefixLength_longest_iff
    (offset : Nat)
    (xs ys : List Nibble)
    (hOffset : offset ≤ xs.length) :
    (LongestCommonPrefix (xs.drop offset) ys
        (sharedPrefixLength offset xs ys) ∧
      offset + sharedPrefixLength offset xs ys ≤ xs.length) ↔
      ¬ (xs.drop offset <+: ys ∧ xs.drop offset ≠ ys) := by
  have hRest : (xs.drop offset).length = xs.length - offset :=
    List.length_drop
  rw [sharedPrefixLength_eq]
  split_ifs with hPrefix
  · constructor
    · rintro ⟨hLongest, _⟩ ⟨_, hNe⟩
      exact hNe (hPrefix.eq_of_length_le hLongest.le_length)
    · intro hWhole
      have hEq : xs.drop offset = ys := by
        by_contra hNe
        exact hWhole ⟨hPrefix, hNe⟩
      refine ⟨?_, ?_⟩
      · rw [hEq]
        exact
          ⟨⟨ys, List.prefix_rfl, List.prefix_rfl, rfl⟩,
            fun p hp _ => hp.length_le⟩
      · rw [← hEq, hRest]
        omega
  · have hLongest :=
      longestCommonPrefix_sharedLength (xs.drop offset) ys
    have hLe := hLongest.le_length
    constructor
    · rintro _ ⟨hPrefix', _⟩
      exact hPrefix hPrefix'
    · intro _
      refine ⟨hLongest, ?_⟩
      omega

/- A path that goes on behind the end of the key. -/
theorem sharedPrefixLength_longest_overrun :
    sharedPrefixLength 1 [8, 0] [0, 5] = 2 ∧
    ¬ LongestCommonPrefix (List.drop 1 [8, 0]) [0, 5]
      (sharedPrefixLength 1 [8, 0] [0, 5]) ∧
    ¬ 1 + sharedPrefixLength 1 [8, 0] [0, 5] ≤
      [(8 : Nibble), 0].length := by
  have hTwo : sharedPrefixLength 1 [8, 0] [0, 5] = 2 := by
    decide
  refine ⟨hTwo, ?_, ?_⟩
  · intro hLongest
    have hLe := hLongest.le_length
    rw [hTwo] at hLe
    revert hLe
    decide
  · rw [hTwo]
    decide

/- A path that departs from the key. -/
theorem sharedPrefixLength_longest_sample :
    LongestCommonPrefix (List.drop 1 [8, 0, 3]) [0, 5]
      (sharedPrefixLength 1 [8, 0, 3] [0, 5]) := by
  have hIff := sharedPrefixLength_longest_iff 1 [8, 0, 3]
    [0, 5] (by decide)
  exact (hIff.mpr (by decide)).1

end Sting
