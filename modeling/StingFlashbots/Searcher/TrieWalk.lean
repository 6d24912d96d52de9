import StingFlashbots.Searcher.GenerateProof
import StingFlashbots.Searcher.NodeSteps
import StingFlashbots.Trie.Paths

/-
  Generator and verifier on the way to a stored key.

  `walk` lists the nodes between the root and a key. The
  generator collects exactly these nodes, and the verifier
  accepts them exactly when every compact path has at most
  one nibble and the leaf is long enough to be hashed.

  Key definitions include:
    * `walk`
    * `TriePackage.Realises`
    * `TriePackage.ReadsNodes`
    * `TriePackage.Standard`

  Key results include:
    * `generateProofAux_eq_walk`
    * `verifyMptProofFrom_walk_iff`
-/

namespace Sting

open RLP (Item)

------------------------------------------------------------
-- What the Package Is Expected to Do
------------------------------------------------------------

/- The type of the node of a trie. -/
def nodeType : Trie Bytes → NodeType
| .blank => .blank
| .leaf _ _ => .leaf
| .extension _ _ => .extension
| .branch _ _ => .branch

namespace TriePackage

/-
  The package's trie is the given one: it has its root hash,
  and its database resolves the root and every reference.
-/
structure Realises
    (pkg : TriePackage)
    (keccak : Digest)
    (mpt : pkg.Mpt)
    (t : Trie Bytes) : Prop where
  rootHash_eq : pkg.rootHash mpt = t.rootHash keccak
  getNode_root :
    pkg.getNode mpt (.str (t.rootHash keccak)) =
      .ok (Trie.node keccak t)
  getNode_embed :
    ∀ x ∈ Trie.nodes keccak t,
      pkg.getNode mpt (Trie.embed keccak x) = .ok x

/- The helpers on nodes and nibbles. -/
structure ReadsNodes
    (pkg : TriePackage)
    (keccak : Digest) : Prop where
  getNodeType_node :
    ∀ t, pkg.getNodeType (Trie.node keccak t) =
      .ok (nodeType t)
  extractKey_leaf :
    ∀ path v,
      pkg.extractKey (Trie.node keccak (.leaf path v)) =
        .ok path
  extractKey_extension :
    ∀ path child,
      pkg.extractKey
          (Trie.node keccak (.extension path child)) =
        .ok path
  consumeCommonPrefix_spec :
    ∀ left right shared leftRest rightRest,
      pkg.consumeCommonPrefix left right =
          (shared, leftRest, rightRest) →
        left = shared ++ leftRest ∧
        right = shared ++ rightRest ∧
        (leftRest = [] ∨ rightRest = [] ∨
          leftRest.head? ≠ rightRest.head?)

/- Store entries in a fresh trie. -/
def setAll
    (pkg : TriePackage)
    (entries : List (Bytes × Bytes)) : Py pkg.Mpt :=
  entries.foldlM (fun mpt e => pkg.set mpt e.1 e.2) pkg.new

/-
  The package builds the standard trie of the entries and
  reads its nodes.
-/
structure Standard
    (pkg : TriePackage)
    (keccak : Digest)
    (entries : List (Bytes × Bytes)) : Prop where
  reads : pkg.ReadsNodes keccak
  realises :
    ∀ mpt, pkg.setAll entries = .ok mpt →
      pkg.Realises keccak mpt
        (Trie.ofList
          (entries.map fun e => (Nibble.ofBytes e.1, e.2)))

/- A key that continues the path leaves nothing of it. -/
theorem ReadsNodes.consume_path
    {pkg : TriePackage}
    {keccak : Digest}
    (hReads : pkg.ReadsNodes keccak)
    (path rest : List Nibble) :
    ∃ shared,
      pkg.consumeCommonPrefix path (path ++ rest) =
        (shared, [], rest) := by
  rcases hConsume :
      pkg.consumeCommonPrefix path (path ++ rest) with
    ⟨shared, leftRest, rightRest⟩
  rcases hReads.consumeCommonPrefix_spec _ _ _ _ _
      hConsume with
    ⟨hLeft, hRight, hApart⟩
  have hRest : rightRest = leftRest ++ rest := by
    rw [hLeft, List.append_assoc] at hRight
    exact (List.append_cancel_left hRight).symm
  have hNil : leftRest = [] := by
    cases leftRest with
    | nil => rfl
    | cons n tail => simp [hRest] at hApart
  subst hNil
  exact ⟨shared, by rw [hRest, List.nil_append]⟩

end TriePackage

------------------------------------------------------------
-- The Nodes on the Way
------------------------------------------------------------

/- The nodes from the root of a trie to a key. -/
def walk
    (keccak : Digest) :
    Trie Bytes → List Nibble → List Item
| .blank, _ => []
| .leaf path v, _ => [Trie.node keccak (.leaf path v)]
| .extension path child, key =>
    Trie.node keccak (.extension path child) ::
      walk keccak child (key.drop path.length)
| .branch children v, [] =>
    [Trie.node keccak (.branch children v)]
| .branch children v, n :: key =>
    Trie.node keccak (.branch children v) ::
      walk keccak (children n) key

theorem walk_ne_nil
    (keccak : Digest)
    {t : Trie Bytes}
    {key : List Nibble}
    (hStored : t.lookup key ≠ none) :
    walk keccak t key ≠ [] := by
  cases t with
  | blank => exact (hStored rfl).elim
  | leaf path v => simp [walk]
  | extension path child => simp [walk]
  | branch children v => cases key <;> simp [walk]

/- A key stored below an extension continues its path. -/
private theorem exists_rest_of_lookup
    {path key : List Nibble}
    {child : Trie Bytes}
    (hStored :
      (Trie.extension path child).lookup key ≠ none) :
    ∃ rest, key = path ++ rest ∧
      child.lookup rest ≠ none := by
  by_cases hPath : path <+: key
  · rcases hPath with ⟨rest, rfl⟩
    exact ⟨rest, rfl, by simpa using hStored⟩
  · exact (hStored (by simp [Trie.lookup, hPath])).elim

/-
  Induction on the trie. The reference is whatever the
  package resolves to the node of the trie.
-/
theorem generateProofAux_eq_walk
    {pkg : TriePackage}
    {keccak : Digest}
    (hReads : pkg.ReadsNodes keccak)
    {mpt : pkg.Mpt}
    (t : Trie Bytes)
    (hRefs :
      ∀ x ∈ Trie.nodes keccak t,
        pkg.getNode mpt (Trie.embed keccak x) = .ok x)
    {nodeHash : Item}
    (hNode :
      pkg.getNode mpt nodeHash = .ok (Trie.node keccak t))
    {key : List Nibble}
    (hStored : t.lookup key ≠ none)
    {depth : Nat}
    {stack : List Item}
    (hOk :
      generateProofAux pkg mpt depth nodeHash key =
        .ok stack) :
    stack = walk keccak t key := by
  induction t generalizing nodeHash key depth stack with
  | blank => exact (hStored rfl).elim
  | leaf path v =>
      cases depth with
      | zero => cases hOk
      | succ depth =>
          simp only [generateProofAux, hNode, ok_bind,
            hReads.getNodeType_node, nodeType,
            hReads.extractKey_leaf] at hOk
          cases hOk
          rfl
  | extension path child ih =>
      cases depth with
      | zero => cases hOk
      | succ depth =>
          rcases exists_rest_of_lookup hStored with
            ⟨rest, rfl, hRest⟩
          rcases hReads.consume_path path rest with
            ⟨shared, hConsume⟩
          simp only [generateProofAux, hNode, ok_bind,
            hReads.getNodeType_node, nodeType,
            hReads.extractKey_extension, hConsume,
            if_true] at hOk
          rcases bind_eq_ok.mp hOk with ⟨ref, hRef, hOk⟩
          rcases bind_eq_ok.mp hOk with ⟨below, hBelow, hOk⟩
          cases hOk
          cases hRef
          have hSub :=
            Trie.nodes_extension_subset keccak path child
          rw [walk, List.drop_left, ih
            (fun x hx => hRefs x (hSub hx))
            (hRefs _ (hSub (Trie.node_mem_nodes keccak child)))
            hRest hBelow]
  | branch children v ih =>
      cases depth with
      | zero => cases hOk
      | succ depth =>
          cases key with
          | nil =>
              simp only [generateProofAux, hNode, ok_bind,
                hReads.getNodeType_node, nodeType] at hOk
              cases hOk
              rfl
          | cons n rest =>
              simp only [generateProofAux, hNode, ok_bind,
                hReads.getNodeType_node, nodeType] at hOk
              rcases bind_eq_ok.mp hOk with ⟨ref, hRef, hOk⟩
              rcases bind_eq_ok.mp hOk with
                ⟨below, hBelow, hOk⟩
              cases hOk
              have hChild :
                  ref = Trie.embed keccak
                    (Trie.node keccak (children n)) := by
                simp only [Trie.node, nodeItem,
                  Trie.getElem?_branch_child] at hRef
                cases hRef
                rfl
              subst hChild
              have hSub :=
                Trie.nodes_child_subset keccak children v n
              rw [walk, ih n
                (fun x hx => hRefs x (hSub hx))
                (hRefs _
                  (hSub (Trie.node_mem_nodes keccak _)))
                hStored hBelow]

------------------------------------------------------------
-- Verifying the Nodes on the Way
------------------------------------------------------------

/- The trie is a single leaf. -/
def IsLeaf : Trie Bytes → Prop
| .leaf _ _ => True
| _ => False

variable {keccak : Digest}
variable {key : List Nibble}
variable {size : Nat}

/- Inner nodes are referred to by their hashes. -/
private theorem embed_eq_hashTarget
    {t : Trie Bytes}
    (hLong : 32 ≤ (RLP.encode (Trie.node keccak t)).length) :
    Val.item (Trie.embed keccak (Trie.node keccak t)) =
      hashTarget keccak t := by
  rw [Trie.embed, if_neg (by omega)]
  rfl

/- An embedded node is no hash. -/
private theorem verifyMptProofFrom_embedded
    {t : Trie Bytes}
    (hSome : ¬ t.IsBlank)
    (hShort : (RLP.encode (Trie.node keccak t)).length < 32)
    {stack : List Val}
    (hStack : stack ≠ [])
    (i offset : Nat)
    (r : Val) :
    verifyMptProofFrom keccak key size stack i offset
        (.item (Trie.embed keccak (Trie.node keccak t))) ≠
      .ok r := by
  intro hOk
  rw [Trie.embed, if_pos hShort] at hOk
  cases stack with
  | nil => exact hStack rfl
  | cons e stack =>
      rw [verifyMptProofFrom] at hOk
      rcases bind_eq_ok.mp hOk with ⟨b, _, hOk⟩
      rcases bind_eq_ok.mp hOk with ⟨_, hTarget, _⟩
      rw [pyAssert_eq_ok] at hTarget
      cases t with
      | blank => exact hSome trivial
      | _ => cases hTarget

/- Nothing is stored in a blank trie. -/
private theorem not_isBlank_of_lookup
    {t : Trie Bytes}
    {rest : List Nibble}
    {v : Bytes}
    (hLookup : t.lookup rest = some v) :
    ¬ t.IsBlank := by
  cases t with
  | blank => cases hLookup
  | _ => simp [Trie.IsBlank]

/- With short paths, only a leaf can be too short. -/
private theorem hashed_iff
    (keccak : Digest)
    {t : Trie Bytes}
    (hCanonical : t.Canonical)
    (hLong : Trie.ValuesAtLeast 10 t)
    {rest : List Nibble}
    {v : Bytes}
    (hLookup : t.lookup rest = some v)
    (hShort : t.ShortPaths rest) :
    32 ≤ (RLP.encode (Trie.node keccak t)).length ↔
      (IsLeaf t → 29 ≤ v.length) := by
  cases t with
  | blank => cases hLookup
  | leaf path w =>
      have hw : w = v := by
        by_cases hPath : rest = path
        · simpa [Trie.lookup, hPath] using hLookup
        · simp [Trie.lookup, hPath] at hLookup
      subst hw
      have hTen := hLong rest w hLookup
      have hTwo : 2 ≤ w.length := by omega
      have hLt := Trie.length_encode_leaf_lt_iff keccak
        hShort hTwo
      simp only [IsLeaf, true_implies]
      omega
  | extension path child =>
      simp only [IsLeaf, false_implies, iff_true]
      exact Trie.le_length_encode_node keccak hCanonical
        hLong (by simp) (by simp [Trie.IsBlank])
  | branch children w =>
      simp only [IsLeaf, false_implies, iff_true]
      exact Trie.le_length_encode_node keccak hCanonical
        hLong (by simp) (by simp [Trie.IsBlank])

section Rounds

variable {i offset : Nat}
variable {fs : List Item}

/- A leaf with the rest of the key. -/
private theorem leaf_iff
    {path : List Nibble}
    {v : Bytes}
    (hEnc : (Trie.node keccak (.leaf path v)).Encodable)
    (hPath : key.drop offset = path)
    (hOffset : offset ≤ key.length)
    (hSize : i + 1 = size) :
    verifyMptProofFrom keccak key size
        [.item (Trie.node keccak (.leaf path v))] i offset
        (hashTarget keccak (.leaf path v)) =
          .ok (.item (.list fs)) ↔
      path.length ≤ 1 ∧ RLP.decode v = some (.list fs) := by
  have hShared :
      sharedPrefixLength offset key path = path.length := by
    rw [sharedPrefixLength_eq_length_iff, hPath]
    exact Or.inl (List.prefix_refl path)
  have hLength := congrArg List.length hPath
  rw [List.length_drop] at hLength
  rw [verifyMptProofFrom_leaf hEnc [] (by omega) offset,
    hShared, pyAssert_pos (by omega), pyAssert_pos (by omega)]
  by_cases hShort : 1 < path.length
  · simp [hShort]
  · simp only [hShort, if_false, ne_eq, not_true_eq_false,
      ok_bind]
    constructor
    · intro hOk
      rcases bind_eq_ok.mp hOk with ⟨tx, hTx, hOk⟩
      cases hOk
      exact ⟨by omega, rlpDecodeBytes_eq_ok.mp hTx⟩
    · rintro ⟨_, hDecode⟩
      rw [rlpDecodeBytes_eq_ok.mpr hDecode]
      rfl

/- An extension on the way, which is not the last node. -/
private theorem extension_iff
    {path rest : List Nibble}
    {child : Trie Bytes}
    (hEnc :
      (Trie.node keccak (.extension path child)).Encodable)
    (hRest : key.drop offset = path ++ rest)
    {stack : List Val}
    (hSize : i + 1 < size)
    {r : Val} :
    verifyMptProofFrom keccak key size
        (.item (Trie.node keccak (.extension path child)) ::
          stack)
        i offset (hashTarget keccak (.extension path child)) =
          .ok r ↔
      path.length ≤ 1 ∧
        verifyMptProofFrom keccak key size stack (i + 1)
          (offset + path.length)
          (.item (Trie.embed keccak
            (Trie.node keccak child))) = .ok r := by
  have hShared :
      sharedPrefixLength offset key path = path.length := by
    rw [sharedPrefixLength_eq_length_iff, hRest]
    exact Or.inl (List.prefix_append path rest)
  rw [verifyMptProofFrom_extension hEnc _ (by omega) offset,
    hShared, pyAssert_pos (by omega)]
  by_cases hShort : 1 < path.length
  · simp [hShort]
  · simp only [hShort, if_false, ne_eq, not_true_eq_false,
      ok_bind, not_lt.mp hShort, true_and]

/- A branch on the way, with a node at the next nibble. -/
private theorem branch_eq
    {children : Nibble → Trie Bytes}
    {v : Option Bytes}
    (hEnc : (Trie.node keccak (.branch children v)).Encodable)
    (hLt : offset < key.length)
    (hSome : ¬ (children key[offset]).IsBlank)
    (stack : List Val) :
    verifyMptProofFrom keccak key size
        (.item (Trie.node keccak (.branch children v)) ::
          stack)
        i offset (hashTarget keccak (.branch children v)) =
      verifyMptProofFrom keccak key size stack (i + 1)
        (offset + 1)
        (.item (Trie.embed keccak
          (Trie.node keccak (children key[offset])))) := by
  rw [verifyMptProofFrom_branch hEnc, if_neg (by omega),
    List.getElem?_eq_getElem hLt]
  rcases len_embed_node keccak (children key[offset]) with
    ⟨m, hLen, hBlank⟩
  have hZero : m ≠ 0 := fun h => hSome (hBlank.mp h)
  simp only [hLen, ok_bind, if_neg hZero]

/-
  Behind a branch a node is reached by its reference, which
  is a hash when the node is long enough.
-/
private theorem child_iff
    {t : Trie Bytes}
    (hCanonical : t.Canonical)
    (hLong : Trie.ValuesAtLeast 10 t)
    {rest : List Nibble}
    {v : Bytes}
    (hLookup : t.lookup rest = some v)
    {stack : List Val}
    (hStack : stack ≠ [])
    (hStep :
      verifyMptProofFrom keccak key size stack i offset
          (hashTarget keccak t) =
            .ok (.item (.list fs)) ↔
        t.ShortPaths rest ∧ (IsLeaf t ∨ 29 ≤ v.length) ∧
          RLP.decode v = some (.list fs)) :
    verifyMptProofFrom keccak key size stack i offset
        (.item (Trie.embed keccak (Trie.node keccak t))) =
          .ok (.item (.list fs)) ↔
      t.ShortPaths rest ∧ 29 ≤ v.length ∧
        RLP.decode v = some (.list fs) := by
  have hHashedIff :=
    hashed_iff keccak hCanonical hLong hLookup
  by_cases hHashed :
      32 ≤ (RLP.encode (Trie.node keccak t)).length
  · rw [embed_eq_hashTarget hHashed, hStep]
    constructor
    · rintro ⟨hShort, hLeaf | hValue, hDecode⟩
      · exact ⟨hShort,
          (hHashedIff hShort).mp hHashed hLeaf, hDecode⟩
      · exact ⟨hShort, hValue, hDecode⟩
    · rintro ⟨hShort, hValue, hDecode⟩
      exact ⟨hShort, Or.inr hValue, hDecode⟩
  · constructor
    · intro hOk
      exact (verifyMptProofFrom_embedded
        (not_isBlank_of_lookup hLookup) (by omega) hStack _ _
        _ hOk).elim
    · rintro ⟨hShort, hValue, _⟩
      exact (hHashed
        ((hHashedIff hShort).mpr fun _ => hValue)).elim

end Rounds

/- A branch below an extension is long enough and no leaf. -/
private theorem hashed_of_isBranch
    (keccak : Digest)
    {t : Trie Bytes}
    (hBranch : t.IsBranch)
    (hCanonical : t.Canonical)
    (hLong : Trie.ValuesAtLeast 10 t) :
    32 ≤ (RLP.encode (Trie.node keccak t)).length ∧
      ¬ IsLeaf t := by
  constructor
  · refine Trie.le_length_encode_node keccak hCanonical
      hLong ?_ (Trie.not_isBlank_of_isBranch hBranch)
    rintro p w rfl
    exact hBranch
  · cases t <;> simp_all [IsLeaf, Trie.IsBranch]

/-
  Induction on the trie. Below a branch the leaf has to be
  hashed; inner nodes always are.
-/
theorem verifyMptProofFrom_walk_iff
    (t : Trie Bytes)
    (hCanonical : t.Canonical)
    (hLong : Trie.ValuesAtLeast 10 t)
    {offset : Nat}
    (hOffset : offset ≤ key.length)
    (hEnc :
      ∀ x ∈ walk keccak t (key.drop offset), x.Encodable)
    {v : Bytes}
    (hLookup : t.lookup (key.drop offset) = some v)
    (hEnds : Trie.EndsOutside (key.drop offset) t)
    {i : Nat}
    (hSize :
      i + (walk keccak t (key.drop offset)).length = size)
    {fs : List Item} :
    verifyMptProofFrom keccak key size
        ((walk keccak t (key.drop offset)).map .item)
        i offset (hashTarget keccak t) =
          .ok (.item (.list fs)) ↔
      t.ShortPaths (key.drop offset) ∧
        (IsLeaf t ∨ 29 ≤ v.length) ∧
        RLP.decode v = some (.list fs) := by
  induction t generalizing offset i with
  | blank => cases hLookup
  | leaf path w =>
      have hPath : key.drop offset = path := by
        by_contra hNe
        simp [Trie.lookup, hNe] at hLookup
      have hw : w = v := by
        simpa [Trie.lookup, hPath] using hLookup
      subst hw
      simp only [walk, List.length_singleton] at hSize
      have hRound := @leaf_iff keccak key size i offset fs
        path w (hEnc _ (by simp [walk])) hPath hOffset hSize
      simpa [walk, Trie.ShortPaths, IsLeaf] using hRound
  | extension path child ih =>
      rcases exists_rest_of_lookup
          (by rw [hLookup]; simp) with
        ⟨rest, hRest, hStored⟩
      have hLength := congrArg List.length hRest
      rw [List.length_drop, List.length_append] at hLength
      have hDrop :
          key.drop (offset + path.length) = rest := by
        rw [← List.drop_drop, hRest, List.drop_left]
      rcases hashed_of_isBranch keccak hCanonical.2.1
        hCanonical.2.2 hLong.extension with
        ⟨hInner, hNotLeaf⟩
      have hBelow := List.length_pos_iff.mpr
        (walk_ne_nil keccak hStored)
      rw [hRest, Trie.lookup_extension_append] at hLookup
      rw [hRest] at hEnds
      simp only [hRest, walk, List.drop_left,
        List.length_cons, List.mem_cons] at hSize hEnc
      simp only [hRest, walk, List.drop_left, List.map_cons]
      have hStep := @ih hCanonical.2.2 hLong.extension
        (offset + path.length) (by omega)
        (by rw [hDrop]; exact fun x hx => hEnc x (Or.inr hx))
        (by rw [hDrop]; exact hLookup)
        (by rw [hDrop]; exact hEnds.extension)
        (i + 1) (by rw [hDrop]; omega)
      rw [hDrop] at hStep
      rw [extension_iff (hEnc _ (Or.inl rfl)) hRest (by omega),
        embed_eq_hashTarget hInner, hStep]
      simp only [Trie.ShortPaths, List.drop_left, hNotLeaf,
        false_or, and_assoc]
      simp only [IsLeaf, false_or]
  | branch children w ih =>
      have hLt : offset < key.length := by
        have hNe := hEnds.ne_nil hCanonical
        rw [ne_eq, List.drop_eq_nil_iff] at hNe
        omega
      have hDrop := List.drop_eq_getElem_cons hLt
      rw [hDrop] at hLookup hEnds
      rw [Trie.lookup_branch_cons] at hLookup
      have hStored : (children key[offset]).lookup
          (key.drop (offset + 1)) ≠ none := by
        simp [hLookup]
      simp only [hDrop, walk, List.length_cons,
        List.mem_cons] at hSize hEnc
      simp only [hDrop, walk, List.map_cons]
      have hStep := @ih key[offset] (hCanonical.2 _)
        (hLong.child _) (offset + 1) hLt
        (fun x hx => hEnc x (Or.inr hx)) hLookup hEnds.child
        (i + 1) (by omega)
      rw [branch_eq (hEnc _ (Or.inl rfl)) hLt
          (not_isBlank_of_lookup hLookup),
        child_iff (hCanonical.2 _) (hLong.child _) hLookup
          (by simpa using walk_ne_nil keccak hStored) hStep]
      simp only [Trie.ShortPaths, IsLeaf, false_or]

end Sting
