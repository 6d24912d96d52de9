import StingFlashbots.Searcher.CompactPaths

/-
  One round of the proof verifier on the nodes of a trie.

  Each lemma says what the loop of `verify_mpt_proof` does
  with the node of a trie whose hash it expects. Compact
  paths are encoded once more before they are decoded, so a
  path is understood exactly when it has at most one nibble.

  Main declarations:
    * `decodeCompact_hexPrefix_short`
    * `decodeCompact_hexPrefix_long`
    * `verifyMptProofFrom_leaf`
    * `verifyMptProofFrom_extension`
    * `verifyMptProofFrom_branch`
-/

namespace Sting

open RLP (Item)

------------------------------------------------------------
-- Compact Paths
------------------------------------------------------------

/- Paths of at most one nibble survive the re-encoding. -/
theorem decodeCompact_hexPrefix_short
    {path : List Nibble}
    (hShort : path.length ≤ 1)
    (isLeaf : Bool) :
    decodeCompact
        (RLP.encode (.str (Nibble.hexPrefix path isLeaf))) =
      .ok (isLeaf, path) := by
  match path with
  | [] => cases isLeaf <;> rfl
  | [x] =>
      revert x
      cases isLeaf <;> decide
  | _ :: _ :: _ => simp at hShort

/- The first nibble of a prefixed string is no path flag. -/
private theorem compactHeader_of_le
    {n : Nat}
    (hn : 8 ≤ n) :
    compactHeader n = .error .assertionError := by
  match n with
  | n + 4 => rfl

/- Longer paths are mistaken for malformed ones. -/
theorem decodeCompact_hexPrefix_long
    {path : List Nibble}
    (hLong : 2 ≤ path.length)
    (isLeaf : Bool)
    (hFit :
      (Item.str (Nibble.hexPrefix path isLeaf)).Encodable) :
    decodeCompact
        (RLP.encode (.str (Nibble.hexPrefix path isLeaf))) =
      .error .assertionError := by
  have hLength := Nibble.length_hexPrefix path isLeaf
  have hTwo : 2 ≤ (Nibble.hexPrefix path isLeaf).length := by
    omega
  rcases RLP.encode_str_of_two_le hTwo hFit with
    ⟨x, rest, hEnc, hx⟩
  have hHigh : 8 ≤ (Nibble.high x).val := by
    simp only [Nibble.high]
    omega
  rw [hEnc]
  simp [decodeCompact, pyAssert, compactHeader_of_le hHigh,
    bind, Except.bind]

------------------------------------------------------------
-- Shared Prefixes
------------------------------------------------------------

theorem sharedPrefixLength_le
    (offset : Nat)
    (xs ys : List Nibble) :
    sharedPrefixLength offset xs ys ≤ ys.length := by
  rw [sharedPrefixLength_eq]
  split_ifs with hPrefix
  · exact le_refl _
  · rcases (longestCommonPrefix_sharedLength
      (xs.drop offset) ys).common with ⟨p, _, hys, hp⟩
    rw [← hp]
    exact hys.length_le

/-
  The whole path counts as shared when it continues the key
  and also when the key runs out inside it.
-/
theorem sharedPrefixLength_eq_length_iff
    (offset : Nat)
    (xs ys : List Nibble) :
    sharedPrefixLength offset xs ys = ys.length ↔
      ys <+: xs.drop offset ∨ xs.drop offset <+: ys := by
  have hLongest :=
    longestCommonPrefix_sharedLength (xs.drop offset) ys
  rw [sharedPrefixLength_eq]
  split_ifs with hPrefix
  · exact ⟨fun _ => Or.inr hPrefix, fun _ => rfl⟩
  · constructor
    · intro hEq
      rcases hLongest.common with ⟨p, hxs, hys, hp⟩
      left
      rw [← hys.eq_of_length (hp.trans hEq)]
      exact hxs
    · rintro (hys | hxs)
      · apply le_antisymm
        · rcases hLongest.common with ⟨p, _, hpy, hp⟩
          rw [← hp]
          exact hpy.length_le
        · exact hLongest.longest ys hys List.prefix_rfl
      · exact absurd hxs hPrefix

------------------------------------------------------------
-- One Round on Each Kind of Node
------------------------------------------------------------

variable {keccak : Digest}
variable {key : List Nibble}
variable {size : Nat}

/- The target that the node of a trie satisfies. -/
def hashTarget
    (keccak : Digest)
    (t : Trie Bytes) : Val :=
  .item (.str (t.rootHash keccak))

/- The reference of a trie is empty when it is blank. -/
theorem len_embed_node
    (keccak : Digest)
    (t : Trie Bytes) :
    ∃ n, (Val.item (Trie.embed keccak
        (Trie.node keccak t))).len = .ok n ∧
      (n = 0 ↔ t.IsBlank) := by
  unfold Trie.embed
  split
  · cases t with
    | blank => exact ⟨0, rfl, by simp [Trie.IsBlank]⟩
    | leaf path v => exact ⟨2, rfl, by simp [Trie.IsBlank]⟩
    | extension path child =>
        exact ⟨2, rfl, by simp [Trie.IsBlank]⟩
    | branch children v =>
        refine ⟨_, rfl, ?_⟩
        simp [Trie.IsBlank]
  · rename_i hLong
    refine ⟨32, ?_, ?_⟩
    · simp [Val.len, keccak.length_hash]
    · cases t with
      | blank =>
          simp [Trie.node, RLP.encode, RLP.encodeStr,
            RLP.lengthPrefix] at hLong
      | _ => simp [Trie.IsBlank]

/-
  Inside the loop the check on a path that is not shared in
  full can only fail.
-/
private theorem pathCheck_eq
    {i : Nat}
    (hIndex : i < size)
    (key path : List Nibble)
    (offset : Nat)
    (k : Unit → Py Val) :
    (if sharedPrefixLength offset key path <
        path.length then
      pyAssert (i ≥ size) >>= k
    else
      k ()) =
      if sharedPrefixLength offset key path ≠
          path.length then
        .error .assertionError
      else
        k () := by
  have hLe := sharedPrefixLength_le offset key path
  by_cases hFull :
      sharedPrefixLength offset key path = path.length
  · rw [if_neg (by omega), if_neg (by simpa using hFull)]
  · rw [if_pos (by omega), if_pos hFull,
      pyAssert_neg (by omega)]
    rfl

/-
  A node of two elements. Its path is encoded once more, so
  that only paths of at most one nibble can be read back.
-/
private theorem verifyMptProofFrom_pair
    {path : List Nibble}
    {isLeaf : Bool}
    {second : Item}
    (hEnc :
      (Item.list [.str (Nibble.hexPrefix path isLeaf),
        second]).Encodable)
    (stack : List Val)
    {i : Nat}
    (hIndex : i < size)
    (offset : Nat) :
    verifyMptProofFrom keccak key size
        (.item (.list
          [.str (Nibble.hexPrefix path isLeaf), second]) ::
            stack)
        i offset
        (.item (.str (keccak (RLP.encode (.list
          [.str (Nibble.hexPrefix path isLeaf),
            second]))))) =
      (if 1 < path.length then
        .error .assertionError
      else if sharedPrefixLength offset key path ≠
          path.length then
        .error .assertionError
      else if isLeaf then do
        pyAssert (i ≥ size - 1)
        pyAssert
          (offset + sharedPrefixLength offset key path ≥
            key.length)
        let tx ← rlpDecode (.item second)
        return .item tx
      else do
        pyAssert (i ≠ size - 1)
        verifyMptProofFrom keccak key size stack (i + 1)
          (offset + sharedPrefixLength offset key path)
          (.item second)) := by
  have hPath :
      (Item.str (Nibble.hexPrefix path isLeaf)).Encodable :=
    hEnc.of_mem (by simp)
  simp only [verifyMptProofFrom, rlpEncode, rlpEncodeItem,
    if_pos hEnc, ok_bind, pyAssert_pos]
  simp only [Val.len, List.length_cons, List.length_nil,
    ok_bind, Val.getItem, List.getElem?_cons_zero,
    if_pos hPath]
  by_cases hLong : 1 < path.length
  · rw [decodeCompact_hexPrefix_long hLong isLeaf hPath,
      if_pos hLong]
    rfl
  · rw [decodeCompact_hexPrefix_short (by omega) isLeaf,
      if_neg hLong]
    exact pathCheck_eq hIndex key path offset fun _ =>
      if isLeaf then do
        pyAssert (i ≥ size - 1)
        pyAssert
          (offset + sharedPrefixLength offset key path ≥
            key.length)
        let tx ← rlpDecode (.item second)
        return .item tx
      else do
        pyAssert (i ≠ size - 1)
        verifyMptProofFrom keccak key size stack (i + 1)
          (offset + sharedPrefixLength offset key path)
          (.item second)

/- A leaf ends the walk or makes it fail. -/
theorem verifyMptProofFrom_leaf
    {path : List Nibble}
    {v : Bytes}
    (hEnc :
      (Trie.node keccak (.leaf path v)).Encodable)
    (stack : List Val)
    {i : Nat}
    (hIndex : i < size)
    (offset : Nat) :
    verifyMptProofFrom keccak key size
        (.item (Trie.node keccak (.leaf path v)) :: stack)
        i offset (hashTarget keccak (.leaf path v)) =
      (if 1 < path.length then
        .error .assertionError
      else if sharedPrefixLength offset key path ≠
          path.length then
        .error .assertionError
      else do
        pyAssert (i ≥ size - 1)
        pyAssert
          (offset + sharedPrefixLength offset key path ≥
            key.length)
        let tx ← rlpDecodeBytes v
        return .item tx) := by
  exact verifyMptProofFrom_pair hEnc stack hIndex offset

/- An extension passes the expected hash on. -/
theorem verifyMptProofFrom_extension
    {path : List Nibble}
    {child : Trie Bytes}
    (hEnc :
      (Trie.node keccak (.extension path child)).Encodable)
    (stack : List Val)
    {i : Nat}
    (hIndex : i < size)
    (offset : Nat) :
    verifyMptProofFrom keccak key size
        (.item (Trie.node keccak (.extension path child)) ::
          stack)
        i offset
        (hashTarget keccak (.extension path child)) =
      (if 1 < path.length then
        .error .assertionError
      else if sharedPrefixLength offset key path ≠
          path.length then
        .error .assertionError
      else do
        pyAssert (i ≠ size - 1)
        verifyMptProofFrom keccak key size stack (i + 1)
          (offset + sharedPrefixLength offset key path)
          (.item (Trie.embed keccak
            (Trie.node keccak child)))) := by
  exact verifyMptProofFrom_pair hEnc stack hIndex offset

/- A branch reads one nibble of the key. -/
theorem verifyMptProofFrom_branch
    {children : Nibble → Trie Bytes}
    {v : Option Bytes}
    (hEnc :
      (Trie.node keccak (.branch children v)).Encodable)
    (stack : List Val)
    (i offset : Nat) :
    verifyMptProofFrom keccak key size
        (.item (Trie.node keccak (.branch children v)) ::
          stack)
        i offset (hashTarget keccak (.branch children v)) =
      (if offset = key.length then do
        pyAssert (i = size - 1)
        return .item (.str (v.getD []))
      else
        match key[offset]? with
        | none => .error .indexError
        | some n => do
            let child :=
              Trie.embed keccak
                (Trie.node keccak (children n))
            let length ← (Val.item child).len
            if length = 0 then
              pyAssert (i = size - 1)
              verifyMptProofFrom keccak key size stack
                (i + 1) (offset + 1)
                (hashTarget keccak (.branch children v))
            else
              verifyMptProofFrom keccak key size stack
                (i + 1) (offset + 1) (.item child)) := by
  have hLength :
      ((List.ofFn fun n =>
          Trie.embed keccak
            (Trie.node keccak (children n))) ++
        [Item.str (v.getD [])]).length = 17 := by
    rw [List.length_append, List.length_ofFn]
    rfl
  simp only [verifyMptProofFrom, rlpEncode, rlpEncodeItem,
    if_pos hEnc, ok_bind, hashTarget, Trie.rootHash,
    pyAssert_pos]
  simp only [Trie.node, Val.len, hLength, ok_bind, if_true,
    Val.getItem, Trie.getElem?_branch_value]
  by_cases hEnd : offset = key.length
  · simp only [hEnd, ne_eq, not_true_eq_false, if_false,
      if_true]
    rfl
  · simp only [hEnd, ne_eq, not_false_eq_true, if_false,
      if_true]
    cases key[offset]? with
    | none => rfl
    | some n =>
        have hNibble : n.val ≤ 16 := by
          have hn := n.isLt
          omega
        simp only [pyAssert_pos hNibble, ok_bind,
          Trie.getElem?_branch_child]

end Sting
