import StingFlashbots.Crypto.Keccak
import StingFlashbots.Searcher.NodeSteps
import StingFlashbots.Searcher.TxTrie

/-
  Soundness of inclusion proofs.

  A `Block` carries a transaction trie and a header that
  commits to it. Whatever bytes a prover sends, an accepted
  proof returns the fields of the transaction stored at the
  index the proof names: every node on the stack is the node
  of the trie it must be, and no transaction key starts
  another one.

  Main declarations:
    * `Block`
    * `proofStrings`
    * `verifyMptProofFrom_sound`
    * `verifyTxProof_sound`
-/

namespace Sting

open RLP (Item)

------------------------------------------------------------
-- Blocks
------------------------------------------------------------

/- A block whose header commits to its transaction trie. -/
structure Block (keccak : Digest) extends TxTrie where
  header : List Item
  nodes_encodable :
    ∀ x ∈ Trie.nodes keccak trie, x.Encodable
  header_encodable : (Item.list header).Encodable
  transactionsRoot_eq :
    header[4]? = some (.str (trie.rootHash keccak))

namespace Block

variable {keccak : Digest}

/- The hash of the header. -/
def hash (b : Block keccak) : Bytes :=
  keccak (RLP.encode (.list b.header))

/- The strings hashed when the block was made. -/
def strings (b : Block keccak) : List Bytes :=
  RLP.encode (.list b.header) ::
    (Trie.nodes keccak b.trie).map RLP.encode

end Block

------------------------------------------------------------
-- The Stack Holds the Nodes of the Trie
------------------------------------------------------------

variable {keccak : Digest}
variable {key : List Nibble}
variable {size : Nat}

/- An accepted element is the node whose hash is expected. -/
theorem head_eq_node
    {strings : List Bytes}
    (hFree : CollisionFree keccak strings)
    {t : Trie Bytes}
    (hNode :
      (Trie.node keccak t).Encodable ∧
        RLP.encode (Trie.node keccak t) ∈ strings)
    {e : Val}
    (hElem : ∀ b, rlpEncode e = .ok b → b ∈ strings)
    {stack : List Val}
    {i offset : Nat}
    {r : Val}
    (hOk :
      verifyMptProofFrom keccak key size (e :: stack)
        i offset (hashTarget keccak t) = .ok r) :
    e = .item (Trie.node keccak t) := by
  rw [verifyMptProofFrom] at hOk
  rcases bind_eq_ok.mp hOk with ⟨b, hEncode, hOk⟩
  rcases bind_eq_ok.mp hOk with ⟨_, hTarget, hOk⟩
  rcases bind_eq_ok.mp hOk with ⟨n, hLen, _⟩
  rw [pyAssert_eq_ok] at hTarget
  have hHash : keccak b = t.rootHash keccak := by
    simpa [hashTarget] using hTarget.symm
  have hb := hElem b hEncode
  cases e with
  | none => cases hLen
  | int m => cases hLen
  | item x =>
      rcases rlpEncodeItem_eq_ok.mp hEncode with ⟨hx, rfl⟩
      rw [hFree.item_eq hx hNode.1 hb hNode.2 hHash]

/- An embedded child cannot be matched by a hash. -/
theorem verifyMptProofFrom_list_target
    {stack : List Val}
    {i offset : Nat}
    {xs : List Item}
    {r : Val}
    (hOk :
      verifyMptProofFrom keccak key size stack i offset
        (.item (.list xs)) = .ok r) :
    r = .none := by
  cases stack with
  | nil =>
      cases hOk
      rfl
  | cons e stack =>
      rw [verifyMptProofFrom] at hOk
      rcases bind_eq_ok.mp hOk with ⟨b, _, hOk⟩
      rcases bind_eq_ok.mp hOk with ⟨_, hTarget, _⟩
      rw [pyAssert_eq_ok] at hTarget
      cases hTarget

/-
  A reference is a hash, an embedded node or, for a blank
  trie, the empty string.
-/
theorem embed_node_cases
    (keccak : Digest)
    (t : Trie Bytes) :
    Val.item (Trie.embed keccak (Trie.node keccak t)) =
        hashTarget keccak t ∨
      (∃ xs, Trie.embed keccak (Trie.node keccak t) =
        .list xs) ∨
      t.IsBlank := by
  by_cases hShort :
      (RLP.encode (Trie.node keccak t)).length < 32
  · cases t with
    | blank => exact Or.inr (Or.inr trivial)
    | _ =>
        exact Or.inr (Or.inl ⟨_, if_pos hShort⟩)
  · left
    rw [Trie.embed, if_neg hShort]
    rfl

------------------------------------------------------------
-- Soundness of the Walk
------------------------------------------------------------

section Rounds

variable {stack : List Val}
variable {i offset : Nat}
variable {fs : List Item}

/- At a leaf the key has to end with the path. -/
private theorem leaf_sound
    {path : List Nibble}
    {v : Bytes}
    (hEnc : (Trie.node keccak (.leaf path v)).Encodable)
    (hIndex : i < size)
    (hOffset : offset ≤ key.length)
    (hEnds : Trie.EndsOutside (key.drop offset) (.leaf path v))
    (hOk :
      verifyMptProofFrom keccak key size
          (.item (Trie.node keccak (.leaf path v)) :: stack)
          i offset (hashTarget keccak (.leaf path v)) =
        .ok (.item (.list fs))) :
    path = key.drop offset ∧
      RLP.decode v = some (.list fs) := by
  rw [verifyMptProofFrom_leaf hEnc _ hIndex] at hOk
  split_ifs at hOk with _ hShared
  rcases bind_eq_ok.mp hOk with ⟨_, _, hOk⟩
  rcases bind_eq_ok.mp hOk with ⟨_, hEnd, hOk⟩
  rcases bind_eq_ok.mp hOk with ⟨tx, hTx, hOk⟩
  cases hOk
  rw [not_not] at hShared
  rw [pyAssert_eq_ok, hShared] at hEnd
  refine ⟨?_, rlpDecodeBytes_eq_ok.mp hTx⟩
  have hRest : key.drop offset <+: path := by
    rcases (sharedPrefixLength_eq_length_iff offset key
      path).mp hShared with hPath | hRest
    · have hEq := hPath.eq_of_length_le (by
        rw [List.length_drop]
        omega)
      rw [hEq]
    · exact hRest
  exact hEnds path (by simp [Trie.lookup]) hRest

/- The key goes through an extension to its child. -/
private theorem extension_sound
    {path : List Nibble}
    {child : Trie Bytes}
    (hEnc :
      (Trie.node keccak (.extension path child)).Encodable)
    (hCanonical : (Trie.extension path child).Canonical)
    (hIndex : i < size)
    (hEnds :
      Trie.EndsOutside (key.drop offset)
        (.extension path child))
    (hOk :
      verifyMptProofFrom keccak key size
          (.item (Trie.node keccak (.extension path child)) ::
            stack)
          i offset
          (hashTarget keccak (.extension path child)) =
        .ok (.item (.list fs))) :
    key.drop offset =
        path ++ key.drop (offset + path.length) ∧
      verifyMptProofFrom keccak key size stack (i + 1)
          (offset + path.length) (hashTarget keccak child) =
        .ok (.item (.list fs)) := by
  rw [verifyMptProofFrom_extension hEnc _ hIndex] at hOk
  split_ifs at hOk with _ hShared
  rcases bind_eq_ok.mp hOk with ⟨_, _, hOk⟩
  rw [not_not] at hShared
  rcases hEnds.path_prefix hCanonical
    ((sharedPrefixLength_eq_length_iff offset key path).mp
      hShared) with ⟨rest, hRest⟩
  rw [hShared] at hOk
  constructor
  · rw [← List.drop_drop, ← hRest, List.drop_left]
  · rcases embed_node_cases keccak child with
      hHash | ⟨xs, hList⟩ | hBlank
    · rwa [hHash] at hOk
    · rw [hList] at hOk
      cases verifyMptProofFrom_list_target hOk
    · exact absurd hBlank
        (Trie.not_isBlank_of_isBranch hCanonical.2.1)

/- The next nibble of the key leads to a child. -/
private theorem branch_sound
    {children : Nibble → Trie Bytes}
    {v : Option Bytes}
    (hEnc : (Trie.node keccak (.branch children v)).Encodable)
    (hSize : i + 1 + stack.length = size)
    (hOffset : offset ≤ key.length)
    (hOk :
      verifyMptProofFrom keccak key size
          (.item (Trie.node keccak (.branch children v)) ::
            stack)
          i offset (hashTarget keccak (.branch children v)) =
        .ok (.item (.list fs))) :
    ∃ hLt : offset < key.length,
      verifyMptProofFrom keccak key size stack (i + 1)
          (offset + 1)
          (hashTarget keccak (children key[offset])) =
        .ok (.item (.list fs)) := by
  rw [verifyMptProofFrom_branch hEnc] at hOk
  split_ifs at hOk with hEnd
  · -- at the end of the key the result is a string
    rcases bind_eq_ok.mp hOk with ⟨_, _, hOk⟩
    cases hOk
  have hLt : offset < key.length := by omega
  rw [List.getElem?_eq_getElem hLt] at hOk
  rcases bind_eq_ok.mp hOk with ⟨n, hLen, hOk⟩
  rcases len_embed_node keccak (children key[offset]) with
    ⟨m, hLen', hBlank⟩
  rw [hLen'] at hLen
  cases hLen
  split_ifs at hOk with hZero
  · -- an empty child must end the stack
    rcases bind_eq_ok.mp hOk with ⟨_, hLast, hOk⟩
    rw [pyAssert_eq_ok] at hLast
    have hNil : stack = [] := by
      rw [← List.length_eq_zero_iff]
      omega
    subst hNil
    cases hOk
  · refine ⟨hLt, ?_⟩
    rcases embed_node_cases keccak (children key[offset]) with
      hHash | ⟨xs, hList⟩ | hIsBlank
    · rwa [hHash] at hOk
    · rw [hList] at hOk
      cases verifyMptProofFrom_list_target hOk
    · exact absurd (hBlank.mpr hIsBlank) hZero

end Rounds

/-
  Induction on the stack. The trie in the statement is the
  one whose hash the round expects, and the remaining key is
  what the rounds before it left.
-/
theorem verifyMptProofFrom_sound
    {strings : List Bytes}
    (hFree : CollisionFree keccak strings)
    (stack : List Val)
    (hStack :
      ∀ e ∈ stack, ∀ b, rlpEncode e = .ok b →
        b ∈ strings)
    (t : Trie Bytes)
    (hCanonical : t.Canonical)
    (hNodes :
      ∀ x ∈ Trie.nodes keccak t,
        x.Encodable ∧ RLP.encode x ∈ strings)
    (i offset : Nat)
    (hSize : i + stack.length = size)
    (hOffset : offset ≤ key.length)
    (hEnds : Trie.EndsOutside (key.drop offset) t)
    {fs : List Item}
    (hOk :
      verifyMptProofFrom keccak key size stack i offset
        (hashTarget keccak t) = .ok (.item (.list fs))) :
    ∃ v, t.lookup (key.drop offset) = some v ∧
      RLP.decode v = some (.list fs) := by
  induction stack generalizing t i offset with
  | nil => cases hOk
  | cons e stack ih =>
      have hNode := hNodes _ (Trie.node_mem_nodes keccak t)
      have hHead : e = .item (Trie.node keccak t) :=
        head_eq_node hFree hNode
          (hStack e List.mem_cons_self) hOk
      have hTail :
          ∀ e ∈ stack, ∀ b, rlpEncode e = .ok b →
            b ∈ strings :=
        fun e he => hStack e (List.mem_cons_of_mem _ he)
      have hNext : i + 1 + stack.length = size := by
        simp only [List.length_cons] at hSize
        omega
      subst hHead
      cases t with
      | blank =>
          rw [verifyMptProofFrom] at hOk
          rcases bind_eq_ok.mp hOk with ⟨b, _, hOk⟩
          rcases bind_eq_ok.mp hOk with ⟨_, _, hOk⟩
          cases hOk
      | leaf path v =>
          rcases leaf_sound hNode.1 (by omega) hOffset hEnds
            hOk with ⟨hPath, hDecode⟩
          exact ⟨v, by simp [Trie.lookup, hPath], hDecode⟩
      | extension path child =>
          rcases extension_sound hNode.1 hCanonical (by omega)
            hEnds hOk with ⟨hKey, hChild⟩
          rw [hKey] at hEnds ⊢
          rw [Trie.lookup_extension_append]
          have hLength := congrArg List.length hKey
          simp only [List.length_drop, List.length_append]
            at hLength
          exact ih hTail child hCanonical.2.2
            (fun x hx => hNodes x
              (Trie.nodes_extension_subset keccak path child
                hx))
            (i + 1) (offset + path.length) hNext (by omega)
            hEnds.extension hChild
      | branch children v =>
          rcases branch_sound hNode.1 hNext hOffset hOk with
            ⟨hLt, hChild⟩
          rw [List.drop_eq_getElem_cons hLt] at hEnds ⊢
          exact ih hTail _ (hCanonical.2 _)
            (fun x hx => hNodes x
              (Trie.nodes_child_subset keccak children v _
                hx))
            (i + 1) (offset + 1) hNext hLt hEnds.child hChild

------------------------------------------------------------
-- Reading the Fields
------------------------------------------------------------

/- An integer field of a decoded transaction. -/
def IntField
    (fs : List Item)
    (k n : Nat) : Prop :=
  ∃ x, fs[k]? = some x ∧
    bigEndianToInt (.item x) = .ok n

/- A field that is returned as it was decoded. -/
def RawField
    (fs : List Item)
    (k : Nat)
    (v : Val) : Prop :=
  ∃ x, fs[k]? = some x ∧ v = .item x

/- The nine fields are those of a decoded transaction. -/
structure SignedTx.DecodedFrom
    (tx : SignedTx)
    (fs : List Item) : Prop where
  nonce : IntField fs 0 tx.nonce
  gasPrice : IntField fs 1 tx.gasPrice
  gas : IntField fs 2 tx.gas
  toAddr : RawField fs 3 tx.toAddr
  value : IntField fs 4 tx.value
  data : RawField fs 5 tx.data
  v : IntField fs 6 tx.v
  r : IntField fs 7 tx.r
  s : IntField fs 8 tx.s

/- The dictionary of fields that get signed. -/
def SignedTx.unsigned
    (tx : SignedTx)
    (chainId : Nat) : UnsignedTx :=
  { nonce := tx.nonce
    gasPrice := tx.gasPrice
    gas := tx.gas
    toAddr := tx.toAddr
    value := tx.value
    data := tx.data
    chainId := chainId }

/- An element that reads as an integer is not a byte. -/
private theorem getItem_bigEndianToInt
    {tx item : Val}
    {k n : Nat}
    (hItem : tx.getItem k = .ok item)
    (hInt : bigEndianToInt item = .ok n) :
    ∃ fs, tx = .item (.list fs) ∧ IntField fs k n := by
  match tx with
  | .item (.list fs) =>
      simp only [Val.getItem] at hItem
      cases hx : fs[k]? with
      | none =>
          rw [hx] at hItem
          cases hItem
      | some x =>
          rw [hx] at hItem
          cases hItem
          exact ⟨fs, rfl, x, hx, hInt⟩
  | .item (.str b) =>
      simp only [Val.getItem] at hItem
      split at hItem
      · cases hItem
        cases hInt
      · cases hItem
  | .none => cases hItem
  | .int _ => cases hItem

private theorem intField_of_getItem
    {fs : List Item}
    {item : Val}
    {k n : Nat}
    (hItem : (Val.item (.list fs)).getItem k = .ok item)
    (hInt : bigEndianToInt item = .ok n) :
    IntField fs k n := by
  rcases getItem_bigEndianToInt hItem hInt with
    ⟨gs, hEq, hField⟩
  cases hEq
  exact hField

private theorem rawField_of_getItem
    {fs : List Item}
    {item : Val}
    {k : Nat}
    (hItem : (Val.item (.list fs)).getItem k = .ok item) :
    RawField fs k item := by
  simp only [Val.getItem] at hItem
  split at hItem
  · rename_i x hx
    cases hItem
    exact ⟨x, hx, rfl⟩
  · cases hItem

/- Only a list of at least nine fields is read. -/
theorem readTx_eq_ok
    {chainId : Nat}
    {tx : Val}
    {unsignedTx : UnsignedTx}
    {signedTx : SignedTx}
    (hOk :
      readTx chainId tx = .ok (unsignedTx, signedTx)) :
    ∃ fs, tx = .item (.list fs) ∧
      signedTx.DecodedFrom fs ∧
      unsignedTx = signedTx.unsigned chainId := by
  unfold readTx at hOk
  rcases bind_eq_ok.mp hOk with ⟨x0, hx0, hOk⟩
  rcases bind_eq_ok.mp hOk with ⟨nonce, hNonce, hOk⟩
  rcases getItem_bigEndianToInt hx0 hNonce with
    ⟨fs, rfl, hField0⟩
  rcases bind_eq_ok.mp hOk with ⟨x1, hx1, hOk⟩
  rcases bind_eq_ok.mp hOk with ⟨gasPrice, hGasPrice, hOk⟩
  rcases bind_eq_ok.mp hOk with ⟨x2, hx2, hOk⟩
  rcases bind_eq_ok.mp hOk with ⟨gas, hGas, hOk⟩
  rcases bind_eq_ok.mp hOk with ⟨toAddr, hTo, hOk⟩
  rcases bind_eq_ok.mp hOk with ⟨x4, hx4, hOk⟩
  rcases bind_eq_ok.mp hOk with ⟨value, hValue, hOk⟩
  rcases bind_eq_ok.mp hOk with ⟨input, hInput, hOk⟩
  rcases bind_eq_ok.mp hOk with ⟨x6, hx6, hOk⟩
  rcases bind_eq_ok.mp hOk with ⟨v, hv, hOk⟩
  rcases bind_eq_ok.mp hOk with ⟨x7, hx7, hOk⟩
  rcases bind_eq_ok.mp hOk with ⟨r, hr, hOk⟩
  rcases bind_eq_ok.mp hOk with ⟨x8, hx8, hOk⟩
  rcases bind_eq_ok.mp hOk with ⟨s, hs, hOk⟩
  cases hOk
  exact ⟨fs, rfl,
    { nonce := hField0
      gasPrice := intField_of_getItem hx1 hGasPrice
      gas := intField_of_getItem hx2 hGas
      toAddr := rawField_of_getItem hTo
      value := intField_of_getItem hx4 hValue
      data := rawField_of_getItem hInput
      v := intField_of_getItem hx6 hv
      r := intField_of_getItem hx7 hr
      s := intField_of_getItem hx8 hs },
    rfl⟩

------------------------------------------------------------
-- Soundness of Inclusion Proofs
------------------------------------------------------------

/- The transaction index a proof names. -/
def proofTxIndex (prf : Bytes) : Py Nat := do
  let (_, txIndex, _) ← unpackProof prf
  bigEndianToInt txIndex

/- The encodings of those values that have one. -/
def encodings (values : List Val) : List Bytes :=
  values.filterMap fun e => (rlpEncode e).toOption

/- The strings the verifier may hash on a proof. -/
def proofStrings (prf : Bytes) : List Bytes :=
  match unpackProof prf with
  | .error _ => []
  | .ok (header, _, stack) =>
      match stack.elements with
      | .error _ => encodings [header]
      | .ok elements => encodings (header :: elements)

private theorem mem_encodings
    {values : List Val}
    {e : Val}
    {b : Bytes}
    (he : e ∈ values)
    (hb : rlpEncode e = .ok b) :
    b ∈ encodings values := by
  refine List.mem_filterMap.mpr ⟨e, he, ?_⟩
  rw [hb]
  rfl

/-
  The argument for one block: the header of the proof is
  that of the block, and the walk starts at its trie.
-/
theorem verifyTxProof_included
    (b : Block keccak)
    {w3 : Web3}
    {blockNum : Nat}
    {dict : BlockDict}
    (hBlock : w3.getBlock blockNum = .ok dict)
    (hHash : dict.hash = b.hash)
    {prf : Bytes}
    (hFree :
      CollisionFree keccak (b.strings ++ proofStrings prf))
    {unsignedTx : UnsignedTx}
    {signedTx : SignedTx}
    (hOk :
      verifyTxProof keccak w3 blockNum prf =
        .ok (unsignedTx, signedTx)) :
    ∃ i fs, proofTxIndex prf = .ok i ∧
      (b.txs[i]?).bind RLP.decode = some (.list fs) ∧
      signedTx.DecodedFrom fs ∧
      unsignedTx = signedTx.unsigned w3.chainId := by
  unfold verifyTxProof at hOk
  rcases bind_eq_ok.mp hOk with
    ⟨⟨header, txIndex, stack⟩, hUnpack, hOk⟩
  rcases bind_eq_ok.mp hOk with ⟨dict', hBlock', hOk⟩
  rcases bind_eq_ok.mp hOk with ⟨rlpHeader, hHeader, hOk⟩
  rcases bind_eq_ok.mp hOk with ⟨_, hEqHash, hOk⟩
  rcases bind_eq_ok.mp hOk with ⟨root, hRoot, hOk⟩
  rcases bind_eq_ok.mp hOk with ⟨i, hIndex, hOk⟩
  rcases bind_eq_ok.mp hOk with ⟨rlpIndex, hRlpIndex, hOk⟩
  rcases bind_eq_ok.mp hOk with ⟨tx, hWalk, hOk⟩
  rcases bind_eq_ok.mp hWalk with
    ⟨elements, hElements, hWalk⟩
  rcases readTx_eq_ok hOk with ⟨fs, rfl, hFields, hUnsigned⟩
  rw [hBlock] at hBlock'
  cases hBlock'
  rw [pyAssert_eq_ok, hHash] at hEqHash
  rcases rlpEncodeItem_eq_ok.mp hRlpIndex with ⟨hi, rfl⟩
  have hStrings :
      proofStrings prf = encodings (header :: elements) := by
    simp only [proofStrings, hUnpack, hElements]
  have hMem :
      ∀ e ∈ header :: elements, ∀ s, rlpEncode e = .ok s →
        s ∈ b.strings ++ proofStrings prf := by
    intro e he s hs
    rw [hStrings]
    exact List.mem_append_right _ (mem_encodings he hs)
  -- the header of the proof is the header of the block
  have hHeaderEq : header = .item (.list b.header) := by
    have hEncoding : rlpHeader = RLP.encode (.list b.header) :=
      hFree rlpHeader
        (hMem header List.mem_cons_self _ hHeader)
        (RLP.encode (.list b.header))
        (by simp [Block.strings])
        (by simpa [Block.hash] using hEqHash.symm)
    subst hEncoding
    match header with
    | .item x =>
        rcases rlpEncodeItem_eq_ok.mp hHeader with
          ⟨hx, hEncode⟩
        rw [RLP.encode_inj hx b.header_encodable hEncode]
    | .int _ => cases hRoot
    | .none => cases hRoot
  subst hHeaderEq
  have hTarget : root = hashTarget keccak b.trie := by
    simp only [Val.getItem, b.transactionsRoot_eq] at hRoot
    cases hRoot
    rfl
  subst hTarget
  rcases verifyMptProofFrom_sound hFree elements
      (fun e he => hMem e (List.mem_cons_of_mem _ he))
      b.trie b.represents.canonical
      (fun x hx =>
        ⟨b.nodes_encodable x hx,
          List.mem_append_left _ (by
            simp only [Block.strings, List.mem_cons,
              List.mem_map]
            exact Or.inr ⟨x, hx, rfl⟩)⟩)
      0 0 (by simp) (by simp)
      (by
        rw [List.drop_zero]
        exact b.endsOutside_txKey hi)
      hWalk with
    ⟨v, hLookup, hDecode⟩
  rw [List.drop_zero] at hLookup
  refine ⟨i, fs, ?_, ?_, hFields, hUnsigned⟩
  · simp only [proofTxIndex, hUnpack, ok_bind]
    exact hIndex
  · rw [(b.lookup_txKey_iff hi).mp hLookup]
    exact hDecode

/-
  Whatever the prover sends, an accepted proof returns the
  fields of the transaction it names, and the block has a
  transaction at that index.
-/
theorem verifyTxProof_sound
    (b : Block keccak)
    {w3 : Web3}
    {blockNum : Nat}
    {dict : BlockDict}
    (hBlock : w3.getBlock blockNum = .ok dict)
    (hHash : dict.hash = b.hash)
    {prf : Bytes}
    (hFree :
      CollisionFree keccak (b.strings ++ proofStrings prf))
    {unsignedTx : UnsignedTx}
    {signedTx : SignedTx}
    (hOk :
      verifyTxProof keccak w3 blockNum prf =
        .ok (unsignedTx, signedTx)) :
    ∃ i, proofTxIndex prf = .ok i ∧
      ∃ hi : i < b.txs.length,
        ∃ fs, RLP.decode b.txs[i] = some (.list fs) ∧
          signedTx.DecodedFrom fs ∧
          unsignedTx = signedTx.unsigned w3.chainId := by
  rcases verifyTxProof_included b hBlock hHash hFree hOk with
    ⟨i, fs, hIndex, hDecode, hFields, hUnsigned⟩
  rcases Option.bind_eq_some_iff.mp hDecode with
    ⟨v, hv, hDecode⟩
  rcases List.getElem?_eq_some_iff.mp hv with ⟨hi, rfl⟩
  exact ⟨i, hIndex, hi, fs, hDecode, hFields, hUnsigned⟩

/- A transfer with the given nonce. -/
def sampleTx (nonce : Nat) : SignedTx :=
  { nonce := nonce
    gasPrice := 1
    gas := 25000
    toAddr := .item (.str (List.replicate 20 0x11))
    value := 5
    data := .item (.str [])
    v := 27
    r := 7
    s := 9 }

/- The fields of that transfer. -/
def sampleFields (nonce : Nat) : List Item :=
  [RLP.int nonce, RLP.int 1, RLP.int 25000,
    .str (List.replicate 20 0x11), RLP.int 5, .str [],
    RLP.int 27, RLP.int 7, RLP.int 9]

def sampleTxs : List Bytes :=
  [RLP.encode (.list (sampleFields 0)),
    RLP.encode (.list (sampleFields 1))]

/- A block of two transfers. -/
def sampleBlock : Block Digest.keccak256 where
  toTxTrie := TxTrie.ofTxs sampleTxs (by decide +kernel)
  header :=
    List.replicate 4 (.str []) ++
      [.str ((Trie.ofList (txEntries sampleTxs)).rootHash
        Digest.keccak256)] ++
      List.replicate 12 (.str [])
  nodes_encodable := by decide +kernel
  header_encodable := by decide +kernel
  transactionsRoot_eq := rfl

/- The proof of its second transfer. -/
def sampleProof : Bytes :=
  RLP.encode (.list
    [.list sampleBlock.header, RLP.int 1,
      .list
        [Trie.node Digest.keccak256 sampleBlock.trie,
          Trie.node Digest.keccak256
            (.leaf [1] (RLP.encode
              (.list (sampleFields 1))))]])

/- A node that answers with the hash of the block. -/
def sampleDict : BlockDict :=
  { difficulty := 0, number := 1, gasLimit := 0
    timestamp := 0, miner := [], parentHash := []
    sha3Uncles := [], stateRoot := []
    transactionsRoot := [], receiptsRoot := []
    logsBloom := [], gasUsed := 0, extraData := .bytes []
    mixHash := [], nonce := .bytes [], baseFeePerGas := 0
    withdrawalsRoot := none, hash := sampleBlock.hash
    transactions := [] }

def sampleNode : Web3 :=
  { getBlock := fun _ => .ok sampleDict
    getTransaction := fun _ => .error .typeError
    chainId := 32382 }

theorem verifyTxProof_sound_sample :
    verifyTxProof Digest.keccak256 sampleNode 1
        sampleProof =
      .ok ((sampleTx 1).unsigned 32382, sampleTx 1) ∧
    ∃ i, proofTxIndex sampleProof = .ok i ∧
      ∃ hi : i < sampleBlock.txs.length,
        ∃ fs, RLP.decode sampleBlock.txs[i] =
            some (.list fs) ∧
          (sampleTx 1).DecodedFrom fs := by
  have hOk :
      verifyTxProof Digest.keccak256 sampleNode 1
          sampleProof =
        .ok ((sampleTx 1).unsigned 32382, sampleTx 1) := by
    decide +kernel
  rcases verifyTxProof_sound sampleBlock rfl rfl
      (by decide +kernel) hOk with
    ⟨i, hIndex, hi, fs, hDecode, hFields, _⟩
  exact ⟨hOk, i, hIndex, hi, fs, hDecode, hFields⟩

end Sting
