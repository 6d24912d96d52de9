import StingFlashbots.Searcher.ProofSoundness
import StingFlashbots.Searcher.ReferenceTrie

/-
  Which generated proofs the verifier accepts.

  The verifier encodes a compact path once more before it
  reads it, and expects a hash where a short leaf stands for
  itself. So a generated proof is accepted exactly when the
  keys of the block depart often enough from the key of the
  transaction and the transaction is long enough.

  Key definitions include:
    * `EntriesOf`
    * `Consistent`

  Main result:
    * `verifyTxProof_generateProofBlob_iff`
-/

namespace Sting

open RLP (Item)

------------------------------------------------------------
-- Encoded Transactions
------------------------------------------------------------

/- Only byte strings serialise as an address or data. -/
theorem SignedTx.serialize_eq_ok
    {tx : SignedTx}
    {x : Item}
    (hOk : tx.serialize = .ok x) :
    ∃ toAddr data,
      tx.toAddr = .item (.str toAddr) ∧
      tx.data = .item (.str data) ∧
      x = .list
        [RLP.int tx.nonce, RLP.int tx.gasPrice,
          RLP.int tx.gas, .str toAddr, RLP.int tx.value,
          .str data, RLP.int tx.v, RLP.int tx.r,
          RLP.int tx.s] := by
  have hBinary :
      ∀ {v : Val} {b : Bytes}, binary v = .ok b →
        v = .item (.str b) := by
    intro v b hb
    match v with
    | .item (.str _) =>
        cases hb
        rfl
    | .item (.list _) => cases hb
    | .int _ => cases hb
    | .none => cases hb
  unfold SignedTx.serialize at hOk
  rcases bind_eq_ok.mp hOk with ⟨toAddr, hTo, hOk⟩
  rcases bind_eq_ok.mp hOk with ⟨toItem, hAddress, hOk⟩
  rcases bind_eq_ok.mp hOk with ⟨data, hData, hOk⟩
  cases hOk
  have hItem : toItem = .str toAddr := by
    unfold address fixedLength at hAddress
    split at hAddress
    · cases hAddress
      rfl
    · cases hAddress
  subst hItem
  exact ⟨toAddr, data, hBinary hTo, hBinary hData, rfl⟩

/- Reading the fields undoes the serialisation. -/
theorem readTx_serialize
    {tx : SignedTx}
    {x : Item}
    (hOk : tx.serialize = .ok x)
    (chainId : Nat) :
    readTx chainId (.item x) =
      .ok (tx.unsigned chainId, tx) := by
  rcases tx.serialize_eq_ok hOk with
    ⟨toAddr, data, hTo, hData, rfl⟩
  cases tx
  cases hTo
  cases hData
  simp [readTx, Val.getItem, bigEndianToInt, RLP.int,
    BigEndian.decode_encode, SignedTx.unsigned]

/- An encoded list is longer than it has elements. -/
private theorem succ_le_length_encode_list
    (n : Nat)
    (xs : List Item)
    (hn : n ≤ xs.length) :
    n + 1 ≤ (RLP.encode (.list xs)).length := by
  have hLe : xs.length ≤ (RLP.encodeList xs).length := by
    clear hn
    induction xs with
    | nil => simp
    | cons x xs ih =>
        have hPos := RLP.encode_length_pos x
        simp only [RLP.encodeList, List.length_append,
          List.length_cons]
        omega
  have hLt := RLP.length_encodeList_lt xs
  omega

/- Encoded transactions have at least ten bytes. -/
theorem ten_le_length_txEncoding
    {tx : TxDict}
    {encoding : Bytes}
    (hOk : txEncoding tx = .ok encoding) :
    10 ≤ encoding.length := by
  unfold txEncoding at hOk
  split_ifs at hOk with hLegacy hDynamic
  · rcases bind_eq_ok.mp hOk with ⟨t, _, hOk⟩
    rcases bind_eq_ok.mp hOk with ⟨x, hx, hOk⟩
    rcases rlpEncodeItem_eq_ok.mp hOk with ⟨_, rfl⟩
    rcases t.serialize_eq_ok hx with ⟨_, _, _, _, rfl⟩
    exact succ_le_length_encode_list 9 _ (by simp)
  · rcases bind_eq_ok.mp hOk with ⟨typeByte, _, hOk⟩
    rcases bind_eq_ok.mp hOk with ⟨payload, hPayload, hOk⟩
    cases hOk
    unfold dynamicFeeEncoding at hPayload
    rcases bind_eq_ok.mp hPayload with ⟨_, _, hPayload⟩
    rcases bind_eq_ok.mp hPayload with ⟨_, _, hPayload⟩
    rcases bind_eq_ok.mp hPayload with ⟨_, _, hPayload⟩
    rcases bind_eq_ok.mp hPayload with ⟨_, _, hPayload⟩
    rcases bind_eq_ok.mp hPayload with ⟨_, _, hPayload⟩
    rcases rlpEncodeItem_eq_ok.mp hPayload with ⟨_, rfl⟩
    rw [List.length_append]
    exact le_add_left
      (succ_le_length_encode_list 9 _ (by simp))

------------------------------------------------------------
-- The Entries of a Block
------------------------------------------------------------

/- The trie entries of a list of transactions. -/
def EntriesOf
    (keccak : Digest)
    (w3 : Web3)
    (txHashes : List Bytes)
    (entries : List (Bytes × Bytes)) : Prop :=
  List.Forall₂
    (fun txHash entry =>
      txEntry keccak w3 txHash = .ok entry)
    txHashes entries

/- Transactions know their positions in the block. -/
def Consistent
    (w3 : Web3)
    (block : BlockDict) : Prop :=
  ∀ i txHash tx,
    block.transactions[i]? = some txHash →
      w3.getTransaction txHash = .ok tx →
        tx.transactionIndex = i

/- The loop of the generator stores the entries in turn. -/
private theorem foldlM_txEntry
    {pkg : TriePackage}
    {keccak : Digest}
    {w3 : Web3}
    {txHashes : List Bytes}
    {start mpt : pkg.Mpt}
    (hOk :
      txHashes.foldlM
          (fun mpt txHash => do
            let (key, value) ← txEntry keccak w3 txHash
            pkg.set mpt key value)
          start =
        .ok mpt) :
    ∃ entries, EntriesOf keccak w3 txHashes entries ∧
      entries.foldlM (fun mpt e => pkg.set mpt e.1 e.2)
          start =
        .ok mpt := by
  induction txHashes generalizing start with
  | nil => exact ⟨[], List.Forall₂.nil, hOk⟩
  | cons txHash txHashes ih =>
      rw [List.foldlM_cons] at hOk
      rcases bind_eq_ok.mp hOk with ⟨next, hNext, hOk⟩
      rcases bind_eq_ok.mp hNext with
        ⟨⟨key, value⟩, hEntry, hNext⟩
      rcases ih hOk with ⟨entries, hEntries, hFold⟩
      refine ⟨(key, value) :: entries,
        List.Forall₂.cons hEntry hEntries, ?_⟩
      rw [List.foldlM_cons]
      exact bind_eq_ok.mpr ⟨next, hNext, hFold⟩

/- What an entry of a block holds. -/
theorem txEntry_eq_ok
    {keccak : Digest}
    {w3 : Web3}
    {txHash : Bytes}
    {entry : Bytes × Bytes}
    (hOk : txEntry keccak w3 txHash = .ok entry) :
    ∃ tx, w3.getTransaction txHash = .ok tx ∧
      (RLP.int tx.transactionIndex).Encodable ∧
      entry.1 = RLP.encode (RLP.int tx.transactionIndex) ∧
      txEncoding tx = .ok entry.2 := by
  unfold txEntry at hOk
  rcases bind_eq_ok.mp hOk with ⟨tx, hTx, hOk⟩
  rcases bind_eq_ok.mp hOk with ⟨key, hKey, hOk⟩
  rcases bind_eq_ok.mp hOk with ⟨value, hValue, hOk⟩
  cases hOk
  rcases rlpEncodeItem_eq_ok.mp hKey with ⟨hFit, rfl⟩
  refine ⟨tx, hTx, hFit, rfl, ?_⟩
  unfold rlpTransaction at hValue
  rcases bind_eq_ok.mp hValue with
    ⟨encoding, hEncoding, hValue⟩
  rcases bind_eq_ok.mp hValue with ⟨given, _, hValue⟩
  split_ifs at hValue
  · cases hValue
  · cases hValue
    exact hEncoding

section

variable {keccak : Digest}
variable {w3 : Web3}
variable {block : BlockDict}
variable {entries : List (Bytes × Bytes)}

/- The entry at a position comes from that transaction. -/
theorem EntriesOf.getElem?
    (hEntries :
      EntriesOf keccak w3 block.transactions entries)
    (hConsistent : Consistent w3 block)
    {i : Nat}
    {entry : Bytes × Bytes}
    (hEntry : entries[i]? = some entry) :
    ∃ txHash tx,
      block.transactions[i]? = some txHash ∧
      w3.getTransaction txHash = .ok tx ∧
      (RLP.int i).Encodable ∧
      entry.1 = RLP.encode (RLP.int i) ∧
      txEncoding tx = .ok entry.2 := by
  rcases List.getElem?_eq_some_iff.mp hEntry with ⟨hi, rfl⟩
  have hLength := List.Forall₂.length_eq hEntries
  have hTxHash : i < block.transactions.length := by omega
  have hGet := List.Forall₂.get hEntries hTxHash hi
  rcases txEntry_eq_ok hGet with
    ⟨tx, hTx, hFit, hKey, hEncoding⟩
  have hIndex := hConsistent i _ tx
    (List.getElem?_eq_getElem hTxHash) hTx
  rw [hIndex] at hFit hKey
  exact ⟨_, tx, List.getElem?_eq_getElem hTxHash, hTx, hFit,
    hKey, hEncoding⟩

/- The transaction trie of a block given by its entries. -/
theorem EntriesOf.map_eq_txEntries
    (hEntries :
      EntriesOf keccak w3 block.transactions entries)
    (hConsistent : Consistent w3 block) :
    (entries.map fun e => (Nibble.ofBytes e.1, e.2)) =
      txEntries (entries.map Prod.snd) := by
  refine List.ext_getElem? fun i => ?_
  simp only [txEntries, List.getElem?_map,
    List.getElem?_zipIdx]
  cases hEntry : entries[i]? with
  | none => rfl
  | some entry =>
      rcases hEntries.getElem? hConsistent hEntry with
        ⟨_, _, _, _, _, hKey, _⟩
      simp [txKey, hKey]

end

------------------------------------------------------------
-- Accepted Blocks
------------------------------------------------------------

/- A header that passes the check has the given hash. -/
theorem blockHeader_eq_ok
    {keccak : Digest}
    {block : BlockDict}
    {header : BlockHeader}
    (hOk : blockHeader keccak block = .ok header) :
    header.transactionRoot = block.transactionsRoot ∧
      header.hash keccak = .ok block.hash := by
  unfold blockHeader at hOk
  rcases bind_eq_ok.mp hOk with ⟨coinbase, _, hOk⟩
  rcases bind_eq_ok.mp hOk with ⟨extraData, _, hOk⟩
  rcases bind_eq_ok.mp hOk with ⟨nonce, _, hOk⟩
  rcases bind_eq_ok.mp hOk with ⟨withdrawalsRoot, _, hOk⟩
  rcases bind_eq_ok.mp hOk with ⟨given, hGiven, hOk⟩
  rcases bind_eq_ok.mp hOk with ⟨computed, hComputed, hOk⟩
  cases hGiven
  split_ifs at hOk with hNe
  · cases hOk
  · cases hOk
    rw [not_not.mp hNe]
    exact ⟨rfl, hComputed⟩

/- The transaction root is the fifth field of a header. -/
theorem BlockHeader.serialize_eq_ok
    {header : BlockHeader}
    {x : Item}
    (hOk : header.serialize = .ok x) :
    (Val.item x).getItem 4 =
      .ok (.item (.str header.transactionRoot)) := by
  unfold BlockHeader.serialize at hOk
  rcases bind_eq_ok.mp hOk with ⟨_, _, hOk⟩
  rcases bind_eq_ok.mp hOk with ⟨_, _, hOk⟩
  rcases bind_eq_ok.mp hOk with ⟨_, _, hOk⟩
  rcases bind_eq_ok.mp hOk with ⟨_, _, hOk⟩
  rcases bind_eq_ok.mp hOk with ⟨root, hRoot, hOk⟩
  rcases bind_eq_ok.mp hOk with ⟨_, _, hOk⟩
  rcases bind_eq_ok.mp hOk with ⟨_, _, hOk⟩
  rcases bind_eq_ok.mp hOk with ⟨_, _, hOk⟩
  rcases bind_eq_ok.mp hOk with ⟨_, _, hOk⟩
  cases hOk
  unfold trieRoot fixedLength at hRoot
  split at hRoot
  · cases hRoot
    rfl
  · cases hRoot

/- The parts of a generated proof. -/
theorem generateProofBlob_eq_ok
    {pkg : TriePackage}
    {keccak : Digest}
    {w3 : Web3}
    {blockNum i : Nat}
    {block : BlockDict}
    (hBlock : w3.getBlock blockNum = .ok block)
    {prf : Bytes}
    (hOk :
      generateProofBlob pkg keccak w3 blockNum i =
        .ok prf) :
    ∃ entries mpt headerItem stack,
      EntriesOf keccak w3 block.transactions entries ∧
      pkg.setAll entries = .ok mpt ∧
      pkg.rootHash mpt = block.transactionsRoot ∧
      (Val.item headerItem).getItem 4 =
        .ok (.item (.str block.transactionsRoot)) ∧
      block.hash = keccak (RLP.encode headerItem) ∧
      generateProof pkg mpt (txKey i) = .ok stack ∧
      (Item.list
        [headerItem, RLP.int i, .list stack]).Encodable ∧
      prf = RLP.encode
        (.list [headerItem, RLP.int i, .list stack]) := by
  unfold generateProofBlob at hOk
  rcases bind_eq_ok.mp hOk with ⟨block', hBlock', hOk⟩
  rw [hBlock] at hBlock'
  cases hBlock'
  rcases bind_eq_ok.mp hOk with ⟨header, hHeader, hOk⟩
  rcases bind_eq_ok.mp hOk with ⟨mpt, hFold, hOk⟩
  rcases bind_eq_ok.mp hOk with ⟨given, hGiven, hOk⟩
  cases hGiven
  rcases foldlM_txEntry hFold with ⟨entries, hEntries, hSet⟩
  rcases blockHeader_eq_ok hHeader with ⟨hRoot, hHash⟩
  split_ifs at hOk with hNe
  · cases hOk
  · have hOk : constructProofFromMpt pkg mpt header i =
        .ok prf := hOk
    unfold constructProofFromMpt at hOk
    rcases bind_eq_ok.mp hOk with ⟨rlpIndex, hIndex, hOk⟩
    rcases rlpEncodeItem_eq_ok.mp hIndex with ⟨_, rfl⟩
    rcases bind_eq_ok.mp hOk with ⟨stack, hStack, hOk⟩
    rcases bind_eq_ok.mp hOk with
      ⟨headerItem, hSerialize, hOk⟩
    rcases rlpEncodeItem_eq_ok.mp hOk with ⟨hFit, rfl⟩
    have hField := header.serialize_eq_ok hSerialize
    rw [hRoot] at hField
    have hBlockHash :
        block.hash = keccak (RLP.encode headerItem) := by
      unfold BlockHeader.hash at hHash
      rw [hSerialize, ok_bind, rlpEncodeItem,
        if_pos (hFit.of_mem (by simp))] at hHash
      exact (Except.ok.inj hHash).symm
    exact ⟨entries, mpt, headerItem, stack, hEntries, hSet,
      not_not.mp hNe, hField, hBlockHash, hStack, hFit, rfl⟩

/- The generator collects the nodes on the way. -/
theorem generateProof_eq_walk
    {pkg : TriePackage}
    {keccak : Digest}
    (hReads : pkg.ReadsNodes keccak)
    {mpt : pkg.Mpt}
    {t : Trie Bytes}
    (hRealises : pkg.Realises keccak mpt t)
    {key : List Nibble}
    (hStored : t.lookup key ≠ none)
    {stack : List Item}
    (hOk : generateProof pkg mpt key = .ok stack) :
    stack = walk keccak t key := by
  have hAux :
      generateProofAux pkg mpt recursionLimit
          (.str (t.rootHash keccak)) key =
        .ok stack := by
    simp only [generateProof, hRealises.rootHash_eq,
      hRealises.getNode_root, ok_bind,
      hReads.getNodeType_node] at hOk
    cases t with
    | blank => exact (hStored rfl).elim
    | _ => exact hOk
  exact generateProofAux_eq_walk hReads t
    hRealises.getNode_embed hRealises.getNode_root hStored
    hAux

/- What the verifier does with the parts of a proof. -/
theorem verifyTxProof_parts
    {keccak : Digest}
    {w3 : Web3}
    {blockNum i : Nat}
    {block : BlockDict}
    (hBlock : w3.getBlock blockNum = .ok block)
    {headerItem : Item}
    {stack : List Item}
    (hFit :
      (Item.list
        [headerItem, RLP.int i, .list stack]).Encodable)
    (hHash : block.hash = keccak (RLP.encode headerItem))
    {root : Val}
    (hRoot : (Val.item headerItem).getItem 4 = .ok root) :
    verifyTxProof keccak w3 blockNum
        (RLP.encode
          (.list [headerItem, RLP.int i, .list stack])) =
      (verifyMptProofFrom keccak (txKey i) stack.length
        (stack.map .item) 0 0 root >>=
          readTx w3.chainId) := by
  have hUnpack :
      unpackProof
          (RLP.encode
            (.list [headerItem, RLP.int i, .list stack])) =
        .ok (.item headerItem, .item (RLP.int i),
          .item (.list stack)) := by
    unfold unpackProof
    rw [rlpDecodeBytes_eq_ok.mpr (RLP.decode_encode hFit)]
    rfl
  have hHeader : rlpEncode (.item headerItem) =
      .ok (RLP.encode headerItem) :=
    rlpEncodeItem_eq_ok.mpr ⟨hFit.of_mem (by simp), rfl⟩
  have hIndex : rlpEncode (.int i) =
      .ok (RLP.encode (RLP.int i)) :=
    rlpEncodeItem_eq_ok.mpr ⟨hFit.of_mem (by simp), rfl⟩
  have hInt : bigEndianToInt (.item (RLP.int i)) = .ok i := by
    simp [bigEndianToInt, RLP.int, BigEndian.decode_encode]
  unfold verifyTxProof
  simp only [hUnpack, ok_bind, hBlock, hHeader,
    pyAssert_pos hHash, hRoot, hInt, hIndex, verifyMptProof,
    Val.elements, List.length_map]
  rfl

------------------------------------------------------------
-- Completeness
------------------------------------------------------------

/- A key has two nibbles or more. -/
private theorem two_le_length_txKey
    (i : Nat) :
    2 ≤ (txKey i).length := by
  have hPos := RLP.encode_length_pos (RLP.int i)
  rw [txKey, Nibble.length_ofBytes]
  omega

/- Verifying the walk to a legacy transaction. -/
theorem verify_walk_readTx_iff
    {keccak : Digest}
    (b : TxTrie)
    (hLong : Trie.ValuesAtLeast 10 b.trie)
    {i : Nat}
    (hEnc :
      ∀ x ∈ walk keccak b.trie (txKey i), x.Encodable)
    {signedTx : SignedTx}
    {encoding : Bytes}
    (hEncoding : signedTx.encode = .ok encoding)
    (hEntry : b.txs[i]? = some encoding)
    (chainId : Nat) :
    (verifyMptProofFrom keccak (txKey i)
        (walk keccak b.trie (txKey i)).length
        ((walk keccak b.trie (txKey i)).map .item) 0 0
        (hashTarget keccak b.trie) >>=
          readTx chainId) =
        .ok (signedTx.unsigned chainId, signedTx) ↔
      DepartsOften b.txs.length i ∧
        29 ≤ encoding.length := by
  have hi := (List.getElem?_eq_some_iff.mp hEntry).1
  have hFit := b.index_encodable i hi
  have hLookup := (b.lookup_txKey_iff hFit).mpr hEntry
  rcases bind_eq_ok.mp hEncoding with ⟨x, hx, hEncode⟩
  rcases rlpEncodeItem_eq_ok.mp hEncode with ⟨hxFit, rfl⟩
  rcases signedTx.serialize_eq_ok hx with
    ⟨toAddr, data, _, _, rfl⟩
  have hWalk := fun fs =>
    @verifyMptProofFrom_walk_iff keccak (txKey i)
      (walk keccak b.trie (txKey i)).length b.trie
      b.represents.canonical hLong 0 (Nat.zero_le _) hEnc _
      hLookup (b.endsOutside_txKey hFit) 0 (Nat.zero_add _)
      fs
  rw [← b.shortPaths_txKey_iff hi]
  -- a trie of one leaf keeps the whole key in its path
  have hNotLeaf :
      b.trie.ShortPaths (txKey i) → ¬ IsLeaf b.trie := by
    intro hShort hLeaf
    cases hTrie : b.trie with
    | leaf path v =>
        rw [hTrie] at hShort hLookup
        have hPath : txKey i = path := by
          by_contra hNe
          simp [Trie.lookup, hNe] at hLookup
        have hTwo := two_le_length_txKey i
        rw [hPath] at hTwo
        simp only [Trie.ShortPaths] at hShort
        omega
    | _ =>
        rw [hTrie] at hLeaf
        exact hLeaf
  constructor
  · intro hOk
    rcases bind_eq_ok.mp hOk with ⟨tx, hTx, hRead⟩
    rcases readTx_eq_ok hRead with ⟨fs, rfl, _, _⟩
    rcases (hWalk fs).mp hTx with ⟨hShort, hLeaf | hValue, _⟩
    · exact (hNotLeaf hShort hLeaf).elim
    · exact ⟨hShort, hValue⟩
  · rintro ⟨hShort, hValue⟩
    refine bind_eq_ok.mpr ⟨_, (hWalk _).mpr
      ⟨hShort, Or.inr hValue, RLP.decode_encode hxFit⟩, ?_⟩
    exact readTx_serialize hx chainId

/-
  For every accepted block and every legacy transaction of
  it: the verifier returns the nine fields of the generated
  proof's transaction exactly when the keys of the block
  depart often enough from its key and its encoding has at
  least 29 bytes.
-/
theorem verifyTxProof_generateProofBlob_iff
    {pkg : TriePackage}
    {keccak : Digest}
    {w3 : Web3}
    {blockNum i : Nat}
    {block : BlockDict}
    (hBlock : w3.getBlock blockNum = .ok block)
    (hConsistent : Consistent w3 block)
    (hStandard :
      ∀ entries,
        EntriesOf keccak w3 block.transactions entries →
          pkg.Standard keccak entries)
    {txHash : Bytes}
    {tx : TxDict}
    (hTxHash : block.transactions[i]? = some txHash)
    (hTx : w3.getTransaction txHash = .ok tx)
    (hLegacy : tx.type = "0x0")
    {signedTx : SignedTx}
    (hSigned : legacyTransaction tx = .ok signedTx)
    {encoding : Bytes}
    (hEncoding : signedTx.encode = .ok encoding)
    {prf : Bytes}
    (hAccepted :
      generateProofBlob pkg keccak w3 blockNum i =
        .ok prf) :
    verifyTxProof keccak w3 blockNum prf =
        .ok (signedTx.unsigned w3.chainId, signedTx) ↔
      DepartsOften block.transactions.length i ∧
        29 ≤ encoding.length := by
  rcases generateProofBlob_eq_ok hBlock hAccepted with
    ⟨entries, mpt, headerItem, stack, hEntries, hSet, hRoot,
      hField, hHash, hStack, hFit, rfl⟩
  have hLength := List.Forall₂.length_eq hEntries
  have hStd := hStandard entries hEntries
  have hRealises := hStd.realises mpt hSet
  rw [hEntries.map_eq_txEntries hConsistent] at hRealises
  have hIndex :
      ∀ j < (entries.map Prod.snd).length,
        (RLP.int j).Encodable := by
    intro j hj
    rw [List.length_map] at hj
    rcases hEntries.getElem? hConsistent
        (List.getElem?_eq_getElem hj) with
      ⟨_, _, _, _, hFit, _⟩
    exact hFit
  let b := TxTrie.ofTxs (entries.map Prod.snd) hIndex
  have hRealises : pkg.Realises keccak mpt b.trie := hRealises
  have hiEntries : i < entries.length := by
    have hLt := (List.getElem?_eq_some_iff.mp hTxHash).1
    omega
  have hEntry : b.txs[i]? = some encoding := by
    rcases hEntries.getElem? hConsistent
        (List.getElem?_eq_getElem hiEntries) with
      ⟨txHash', tx', hTxHash', hTx', _, _, hEnc⟩
    rw [hTxHash] at hTxHash'
    cases hTxHash'
    rw [hTx] at hTx'
    cases hTx'
    simp only [txEncoding, hLegacy, if_true, hSigned,
      ok_bind, hEncoding] at hEnc
    simp only [b, TxTrie.ofTxs, List.getElem?_map,
      List.getElem?_eq_getElem hiEntries, Option.map_some,
      Except.ok.inj hEnc]
  have hStored : b.trie.lookup (txKey i) ≠ none := by
    rw [(b.lookup_txKey_iff (hFit.of_mem (by simp))).mpr
      hEntry]
    simp
  have hLong : Trie.ValuesAtLeast 10 b.trie := by
    intro key v hSome
    rcases b.exists_index_of_lookup hSome with ⟨j, hj, _⟩
    simp only [b, TxTrie.ofTxs, List.getElem?_map,
      Option.map_eq_some_iff] at hj
    rcases hj with ⟨entry, hj, rfl⟩
    rcases hEntries.getElem? hConsistent hj with
      ⟨_, _, _, _, _, _, hEnc⟩
    exact ten_le_length_txEncoding hEnc
  have hWalk := generateProof_eq_walk hStd.reads hRealises
    hStored hStack
  subst hWalk
  rw [← hRoot, hRealises.rootHash_eq] at hField
  have hStackFit : (Item.list
      (walk keccak b.trie (txKey i))).Encodable :=
    hFit.of_mem (by simp)
  have hCount : b.txs.length = block.transactions.length := by
    simp [b, TxTrie.ofTxs, hLength]
  rw [verifyTxProof_parts hBlock hFit hHash hField, ← hCount]
  exact verify_walk_readTx_iff b hLong
    (fun x hx => hStackFit.of_mem hx) hEncoding hEntry
    w3.chainId

------------------------------------------------------------
-- Blocks of One and of Two Transactions
------------------------------------------------------------

/- The encoding of the transfer at a position. -/
def sampleEncoding (i : Nat) : Bytes :=
  RLP.encode (.list (sampleFields i))

/- The answer for the transfer at a position. -/
def sampleTxDict (i : Nat) : TxDict :=
  { type := "0x0"
    nonce := i
    gasPrice := 1
    maxPriorityFeePerGas := 0
    maxFeePerGas := 0
    gas := 25000
    toAddr := some (.bytes (List.replicate 20 0x11))
    value := 5
    input := some (.str ['0', 'x'])
    accessList := .ok (.list [])
    chainId := .str ['0', 'x', '7', 'e', '7', 'e']
    v := 27
    r := [7]
    s := [9]
    hash := .bytes (Digest.keccak256 (sampleEncoding i))
    transactionIndex := i }

/- The header of a block with so many transfers. -/
def sampleHeader (count : Nat) : BlockHeader :=
  { parentHash := List.replicate 32 0
    unclesHash := List.replicate 32 0
    coinbase := List.replicate 20 0
    stateRoot := List.replicate 32 0
    transactionRoot :=
      (Trie.ofList (txEntries
        ((List.range count).map sampleEncoding))).rootHash
          Digest.keccak256
    receiptRoot := List.replicate 32 0
    bloom := 0
    difficulty := 0
    blockNumber := 1
    gasLimit := 30000000
    gasUsed := 0
    timestamp := 12
    extraData := []
    mixHash := List.replicate 32 0
    nonce := List.replicate 8 0
    baseFeePerGas := 7
    withdrawalsRoot := List.replicate 32 0 }

def sampleBlockDict (count : Nat) : BlockDict :=
  let header := sampleHeader count
  { difficulty := header.difficulty
    number := header.blockNumber
    gasLimit := header.gasLimit
    timestamp := header.timestamp
    miner := '0' :: 'x' :: List.replicate 40 '0'
    parentHash := header.parentHash
    sha3Uncles := header.unclesHash
    stateRoot := header.stateRoot
    transactionsRoot := header.transactionRoot
    receiptsRoot := header.receiptRoot
    logsBloom := List.replicate 256 0
    gasUsed := header.gasUsed
    extraData := .bytes header.extraData
    mixHash := header.mixHash
    nonce := .bytes header.nonce
    baseFeePerGas := header.baseFeePerGas
    withdrawalsRoot := some (.bytes header.withdrawalsRoot)
    hash :=
      (header.hash Digest.keccak256).toOption.getD []
    transactions :=
      (List.range count).map fun i =>
        Digest.keccak256 (sampleEncoding i) }

/- The position of the transfer with a hash. -/
def samplePosition
    (count : Nat)
    (txHash : Bytes) : Option Nat :=
  (List.range count).find? fun i =>
    Digest.keccak256 (sampleEncoding i) = txHash

/- A node whose first block has so many transfers. -/
def sampleChain (count : Nat) : Web3 :=
  { getBlock := fun blockNum =>
      if blockNum = 1 then
        .ok (sampleBlockDict count)
      else
        .error (.valueError "BlockNotFound")
    getTransaction := fun txHash =>
      match samplePosition count txHash with
      | some i => .ok (sampleTxDict i)
      | none => .error (.valueError "TransactionNotFound")
    chainId := 32382 }

/- The generated proof of a transfer. -/
def sampleBlob (count i : Nat) : Bytes :=
  (generateProofBlob
    (TriePackage.reference Digest.keccak256)
    Digest.keccak256 (sampleChain count) 1
    i).toOption.getD []

section

variable {count : Nat}

private theorem sampleBlockDict_transactions
    (count : Nat) :
    (sampleBlockDict count).transactions =
      (List.range count).map fun i =>
        Digest.keccak256 (sampleEncoding i) := rfl

private theorem sampleChain_getBlock
    (count : Nat) :
    (sampleChain count).getBlock 1 =
      .ok (sampleBlockDict count) := by
  simp only [sampleChain, if_true]

private theorem sampleChain_getTransaction
    {i : Nat}
    (hFound :
      samplePosition count
        (Digest.keccak256 (sampleEncoding i)) = some i) :
    (sampleChain count).getTransaction
        (Digest.keccak256 (sampleEncoding i)) =
      .ok (sampleTxDict i) := by
  simp only [sampleChain, hFound]

/- Transfers with distinct hashes are found again. -/
private theorem sampleChain_consistent
    (hFound :
      ∀ i < count, samplePosition count
        (Digest.keccak256 (sampleEncoding i)) = some i) :
    Consistent (sampleChain count)
      (sampleBlockDict count) := by
  intro i txHash tx hTxHash hTx
  rw [sampleBlockDict_transactions, List.getElem?_map,
    Option.map_eq_some_iff] at hTxHash
  rcases hTxHash with ⟨j, hj, rfl⟩
  rcases List.getElem?_eq_some_iff.mp hj with ⟨hi, rfl⟩
  rw [List.length_range] at hi
  rw [List.getElem_range,
    sampleChain_getTransaction (hFound i hi)] at hTx
  cases hTx
  rfl

/- The reference is standard on the transfers. -/
private theorem sampleChain_standard
    (hEntries :
      ∀ i < count,
        txEntry Digest.keccak256 (sampleChain count)
            (Digest.keccak256 (sampleEncoding i)) =
          .ok (RLP.encode (RLP.int i), sampleEncoding i))
    (hEnc :
      ∀ x ∈ Trie.nodes Digest.keccak256 (Trie.ofList
          (txEntries
            ((List.range count).map sampleEncoding))),
        x.Encodable)
    (hFree :
      CollisionFree Digest.keccak256
        ((Trie.nodes Digest.keccak256 (Trie.ofList
          (txEntries
            ((List.range count).map sampleEncoding)))).map
              RLP.encode))
    (entries : List (Bytes × Bytes))
    (hOf :
      EntriesOf Digest.keccak256 (sampleChain count)
        (sampleBlockDict count).transactions entries) :
    (TriePackage.reference Digest.keccak256).Standard
      Digest.keccak256 entries := by
  rw [sampleBlockDict_transactions] at hOf
  have hEq :
      entries =
        (List.range count).map fun i =>
          (RLP.encode (RLP.int i), sampleEncoding i) := by
    refine List.ext_getElem ?_ fun i hi hi' => ?_
    · have hLength := List.Forall₂.length_eq hOf
      rw [List.length_map] at hLength ⊢
      exact hLength.symm
    · have hLt : i < count := by
        simpa only [List.length_map,
          List.length_range] using hi'
      have hGet := List.Forall₂.get hOf
        (by simpa only [List.length_map,
          List.length_range] using hLt) hi
      simp only [List.get_eq_getElem, List.getElem_map,
        List.getElem_range, hEntries i hLt] at hGet
      rw [List.getElem_map, List.getElem_range]
      exact (Except.ok.inj hGet).symm
  have hTrie :
      (entries.map fun e => (Nibble.ofBytes e.1, e.2)) =
        txEntries
          ((List.range count).map sampleEncoding) := by
    rw [hEq]
    refine List.ext_getElem ?_ fun i hi hi' => ?_
    · simp only [txEntries, List.length_map,
        List.length_zipIdx]
    · simp only [txEntries, txKey, List.getElem_map,
        List.getElem_zipIdx, List.getElem_range,
        Nat.zero_add]
  exact TriePackage.reference_standard (by rw [hTrie]) hEnc
    hFree

end

/-
  The trie of a block with one transaction is a leaf that
  keeps both nibbles of the key in its path, and the proof
  of that transaction is refused.
-/
theorem verifyTxProof_generateProofBlob_single :
    Consistent (sampleChain 1) (sampleBlockDict 1) ∧
    (∀ entries,
      EntriesOf Digest.keccak256 (sampleChain 1)
          (sampleBlockDict 1).transactions entries →
        (TriePackage.reference Digest.keccak256).Standard
          Digest.keccak256 entries) ∧
    (sampleTxDict 0).type = "0x0" ∧
    generateProofBlob
        (TriePackage.reference Digest.keccak256)
        Digest.keccak256 (sampleChain 1) 1 0 =
      .ok (sampleBlob 1 0) ∧
    verifyTxProof Digest.keccak256 (sampleChain 1) 1
        (sampleBlob 1 0) =
      .error .assertionError := by
  refine ⟨sampleChain_consistent (by decide +kernel),
    sampleChain_standard (by decide +kernel)
      (by decide +kernel) (by decide +kernel), rfl, ?_⟩
  decide +kernel

/- With two transactions the second one is returned. -/
theorem verifyTxProof_generateProofBlob_pair :
    verifyTxProof Digest.keccak256 (sampleChain 2) 1
        (sampleBlob 2 1) =
      .ok ((sampleTx 1).unsigned 32382, sampleTx 1) := by
  have hFound :
      ∀ i < 2, samplePosition 2
        (Digest.keccak256 (sampleEncoding i)) = some i := by
    decide +kernel
  have hTxHash :
      (sampleBlockDict 2).transactions[1]? =
        some (Digest.keccak256 (sampleEncoding 1)) := by
    decide +kernel
  have hSigned :
      legacyTransaction (sampleTxDict 1) =
        .ok (sampleTx 1) := by
    decide +kernel
  have hEncoding :
      (sampleTx 1).encode = .ok (sampleEncoding 1) := by
    decide +kernel
  have hAccepted :
      generateProofBlob
          (TriePackage.reference Digest.keccak256)
          Digest.keccak256 (sampleChain 2) 1 1 =
        .ok (sampleBlob 2 1) := by
    decide +kernel
  exact (verifyTxProof_generateProofBlob_iff
    (sampleChain_getBlock 2)
    (sampleChain_consistent hFound)
    (sampleChain_standard (by decide +kernel)
      (by decide +kernel) (by decide +kernel))
    hTxHash
    (sampleChain_getTransaction (hFound 1 (by decide)))
    rfl hSigned hEncoding hAccepted).mpr
      ⟨by decide +kernel, by decide +kernel⟩

end Sting
