import StingFlashbots.Searcher.VerifyProof
import StingFlashbots.Trie.Paths

/-
  The transaction trie of a block.

  Transactions are stored under the encodings of their
  indices. No such key starts another one, so a walk along a
  key ends at that key or fails.

  Key definitions include:
    * `TxTrie`
    * `DepartsOften`

  Key results include:
    * `txKey_prefix_inj`
    * `TxTrie.lookup_txKey_iff`
    * `TxTrie.endsOutside_txKey`
    * `TxTrie.shortPaths_txKey_iff`
-/

namespace Sting

open RLP (Item)

------------------------------------------------------------
-- Keys
------------------------------------------------------------

/- No transaction key starts another one. -/
theorem txKey_prefix_inj
    {i j : Nat}
    (hi : (RLP.int i).Encodable)
    (hj : (RLP.int j).Encodable)
    (hPrefix : txKey i <+: txKey j) :
    i = j := by
  rcases Nibble.prefix_of_ofBytes_prefix hPrefix with
    ⟨rest, hRest⟩
  have hEq :
      RLP.encode (RLP.int i) ++ rest =
        RLP.encode (RLP.int j) ++ [] := by
    rw [hRest, List.append_nil]
  exact (RLP.encode_int_append_inj hi hj hEq).1

/- The entries of the transaction trie of a block. -/
def txEntries
    (txs : List Bytes) : List (List Nibble × Bytes) :=
  txs.zipIdx.map fun e => (txKey e.2, e.1)

theorem mem_txEntries_iff
    {txs : List Bytes}
    {key : List Nibble}
    {v : Bytes} :
    (key, v) ∈ txEntries txs ↔
      ∃ i, txs[i]? = some v ∧ key = txKey i := by
  simp only [txEntries, List.mem_map, Prod.mk.injEq,
    Prod.exists, List.mem_zipIdx_iff_getElem?]
  constructor
  · rintro ⟨w, i, hi, hKey, rfl⟩
    exact ⟨i, hi, hKey.symm⟩
  · rintro ⟨i, hi, rfl⟩
    exact ⟨v, i, hi, rfl, rfl⟩

/- Distinct indices have distinct keys. -/
theorem nodup_txEntries
    {txs : List Bytes}
    (hFit : ∀ i < txs.length, (RLP.int i).Encodable) :
    ((txEntries txs).map Prod.fst).Nodup := by
  have hKeys :
      (txEntries txs).map Prod.fst =
        (List.range txs.length).map txKey := by
    rw [txEntries, List.map_map, List.range_eq_range',
      ← List.zipIdx_map_snd 0 txs, List.map_map]
    rfl
  rw [hKeys]
  refine List.Nodup.map_on ?_ List.nodup_range
  intro i hi j hj hEq
  rw [List.mem_range] at hi hj
  exact txKey_prefix_inj (hFit i hi) (hFit j hj)
    (by rw [hEq])

------------------------------------------------------------
-- Transaction Tries
------------------------------------------------------------

/-
  The trie that maps the encoding of every index to the
  transaction at that index.
-/
structure TxTrie where
  txs : List Bytes
  trie : Trie Bytes
  represents :
    trie.Represents (Trie.mapOfList (txEntries txs))
  index_encodable :
    ∀ i < txs.length, (RLP.int i).Encodable

namespace TxTrie

/- The trie obtained by storing the transactions in turn. -/
def ofTxs
    (txs : List Bytes)
    (hFit : ∀ i < txs.length, (RLP.int i).Encodable) :
    TxTrie where
  txs := txs
  trie := Trie.ofList (txEntries txs)
  represents := Trie.represents_ofList _
  index_encodable := hFit

variable (b : TxTrie)

/- A stored key is the key of an index of the block. -/
theorem exists_index_of_lookup
    {key : List Nibble}
    {v : Bytes}
    (hSome : b.trie.lookup key = some v) :
    ∃ i, b.txs[i]? = some v ∧ key = txKey i := by
  rw [b.represents.lookup_eq] at hSome
  exact mem_txEntries_iff.mp (Trie.mem_of_mapOfList _ hSome)

/- The trie holds transaction `i` under the key of `i`. -/
theorem lookup_txKey_iff
    {i : Nat}
    (hi : (RLP.int i).Encodable)
    {v : Bytes} :
    b.trie.lookup (txKey i) = some v ↔
      b.txs[i]? = some v := by
  constructor
  · intro hSome
    rcases b.exists_index_of_lookup hSome with ⟨j, hj, hKey⟩
    have hLt := (List.getElem?_eq_some_iff.mp hj).1
    have hij : i = j :=
      txKey_prefix_inj hi (b.index_encodable j hLt)
        (by rw [hKey])
    rw [hij]
    exact hj
  · intro hTx
    rw [b.represents.lookup_eq]
    exact Trie.mapOfList_of_mem
      (nodup_txEntries b.index_encodable)
      (mem_txEntries_iff.mpr ⟨i, hTx, rfl⟩)

/- Transaction keys do not end inside the trie. -/
theorem endsOutside_txKey
    {i : Nat}
    (hi : (RLP.int i).Encodable) :
    Trie.EndsOutside (txKey i) b.trie := by
  intro other hOther hPrefix
  rcases Option.ne_none_iff_exists'.mp hOther with ⟨v, hv⟩
  rcases b.exists_index_of_lookup hv with ⟨j, hj, rfl⟩
  have hLt := (List.getElem?_eq_some_iff.mp hj).1
  rw [txKey_prefix_inj hi (b.index_encodable j hLt) hPrefix]

end TxTrie

/-
  For each nibble of the key of `i` but the last, one of `n`
  transactions has a key that departs from it there or one
  nibble later.
-/
def DepartsOften
    (n i : Nat) : Prop :=
  ∀ d < (txKey i).length - 1,
    ∃ j < n,
      sharedLength (txKey i) (txKey j) = d ∨
        sharedLength (txKey i) (txKey j) = d + 1

instance
    (n i : Nat) :
    Decidable (DepartsOften n i) := by
  unfold DepartsOften
  infer_instance

theorem TxTrie.departsAt_iff
    (b : TxTrie)
    (key : List Nibble)
    (d : Nat) :
    b.trie.DepartsAt key d ↔
      ∃ j < b.txs.length, sharedLength key (txKey j) = d := by
  constructor
  · rintro ⟨other, hOther, hShared⟩
    rcases Option.ne_none_iff_exists'.mp hOther with ⟨v, hv⟩
    rcases b.exists_index_of_lookup hv with ⟨j, hj, rfl⟩
    exact ⟨j, (List.getElem?_eq_some_iff.mp hj).1, hShared⟩
  · rintro ⟨j, hj, hShared⟩
    refine ⟨txKey j, ?_, hShared⟩
    rw [(b.lookup_txKey_iff (b.index_encodable j hj)).mpr
      (List.getElem?_eq_getElem hj)]
    simp

/-
  The paths on the way to a transaction are short exactly
  when the keys of the block depart often enough.
-/
theorem TxTrie.shortPaths_txKey_iff
    (b : TxTrie)
    {i : Nat}
    (hi : i < b.txs.length) :
    b.trie.ShortPaths (txKey i) ↔
      DepartsOften b.txs.length i := by
  have hFit := b.index_encodable i hi
  have hStored : b.trie.lookup (txKey i) ≠ none := by
    rw [(b.lookup_txKey_iff hFit).mpr
      (List.getElem?_eq_getElem hi)]
    simp
  rw [Trie.shortPaths_iff b.trie b.represents.canonical
    hStored (b.endsOutside_txKey hFit)]
  simp only [b.departsAt_iff]
  constructor
  · intro hDeparts d hd
    rcases hDeparts d (by omega) with
      ⟨j, hj, hShared⟩ | ⟨j, hj, hShared⟩
    · exact ⟨j, hj, Or.inl hShared⟩
    · exact ⟨j, hj, Or.inr hShared⟩
  · intro hDeparts d hd
    rcases hDeparts d (by omega) with
      ⟨j, hj, hShared | hShared⟩
    · exact Or.inl ⟨j, hj, hShared⟩
    · exact Or.inr ⟨j, hj, hShared⟩

end Sting
