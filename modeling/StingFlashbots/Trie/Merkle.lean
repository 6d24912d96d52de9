import StingFlashbots.Encoding.RLP
import StingFlashbots.Trie.Hexary
import Mathlib.Algebra.BigOperators.Fin
import Mathlib.Algebra.Order.BigOperators.Group.Finset

/-
  Merkle hashing of hexary tries.

  Every trie has a node, an RLP item in which the children
  appear as references: a short node stands for itself and a
  long one for the hash of its encoding. The root hash is
  always a hash.

  Key definitions include:
    * `Digest`
    * `CollisionFree`
    * `Trie.embed`
    * `Trie.node`
    * `Trie.rootHash`
    * `Trie.nodes`

  Key results include:
    * `CollisionFree.item_eq`
    * `Trie.node_mem_nodes`
    * `Trie.nodes_child_subset`
    * `Trie.getElem?_branch_child`
    * `Trie.le_length_encode_node`
    * `Trie.length_encode_leaf_lt_iff`
-/

/- A hash function with 32-byte results. -/
structure Digest where
  hash : Bytes → Bytes
  length_hash : ∀ b, (hash b).length = 32

instance : CoeFun Digest (fun _ => Bytes → Bytes) :=
  ⟨Digest.hash⟩

/- No two of the given strings collide. -/
def CollisionFree
    (H : Digest)
    (strings : List Bytes) : Prop :=
  ∀ a ∈ strings, ∀ b ∈ strings, H a = H b → a = b

instance
    (H : Digest)
    (strings : List Bytes) :
    Decidable (CollisionFree H strings) := by
  unfold CollisionFree
  infer_instance

/- Collision freeness depends on the set of strings only. -/
theorem CollisionFree.mono
    {H : Digest}
    {strings others : List Bytes}
    (hFree : CollisionFree H others)
    (hSub : strings ⊆ others) :
    CollisionFree H strings := by
  intro a ha b hb hEq
  exact hFree a (hSub ha) b (hSub hb) hEq

/- Items with equal hashes are equal. -/
theorem CollisionFree.item_eq
    {H : Digest}
    {strings : List Bytes}
    (hFree : CollisionFree H strings)
    {x y : RLP.Item}
    (hx : x.Encodable)
    (hy : y.Encodable)
    (hxMem : RLP.encode x ∈ strings)
    (hyMem : RLP.encode y ∈ strings)
    (hEq : H (RLP.encode x) = H (RLP.encode y)) :
    x = y :=
  RLP.encode_inj hx hy (hFree _ hxMem _ hyMem hEq)

namespace Trie

open RLP (Item)

variable (H : Digest)

------------------------------------------------------------
-- Nodes and References
------------------------------------------------------------

/- The reference to a node. -/
def embed (x : Item) : Item :=
  if (RLP.encode x).length < 32 then
    x
  else
    .str (H (RLP.encode x))

/- The node of a trie, with references to its children. -/
def node : Trie Bytes → Item
| .blank => .str []
| .leaf path v =>
    .list [.str (Nibble.hexPrefix path true), .str v]
| .extension path child =>
    .list
      [.str (Nibble.hexPrefix path false),
        embed H (node child)]
| .branch children v =>
    .list
      ((List.ofFn fun n => embed H (node (children n))) ++
        [.str (v.getD [])])

/- The hash that commits to a whole trie. -/
def rootHash (t : Trie Bytes) : Bytes :=
  H (RLP.encode (node H t))

/- The nodes of a trie and of all tries below it. -/
def nodes : Trie Bytes → List Item
| .blank => [node H .blank]
| .leaf path v => [node H (.leaf path v)]
| .extension path child =>
    node H (.extension path child) :: nodes child
| .branch children v =>
    node H (.branch children v) ::
      (List.finRange 16).flatMap
        (fun n => nodes (children n))

theorem node_mem_nodes
    (t : Trie Bytes) :
    node H t ∈ nodes H t := by
  cases t <;> simp [nodes]

theorem nodes_extension_subset
    (path : List Nibble)
    (child : Trie Bytes) :
    nodes H child ⊆ nodes H (.extension path child) := by
  intro x hx
  simp [nodes, hx]

theorem nodes_child_subset
    (children : Nibble → Trie Bytes)
    (v : Option Bytes)
    (n : Nibble) :
    nodes H (children n) ⊆
      nodes H (.branch children v) := by
  intro x hx
  simp only [nodes, List.mem_cons, List.mem_flatMap,
    List.mem_finRange, true_and]
  exact Or.inr ⟨n, hx⟩

/- A branch node lists its sixteen children in order. -/
theorem getElem?_branch_child
    (children : Nibble → Trie Bytes)
    (last : Item)
    (n : Nibble) :
    ((List.ofFn fun m => embed H (node H (children m))) ++
        [last])[n.val]? =
      some (embed H (node H (children n))) := by
  rw [List.getElem?_append_left
    (by rw [List.length_ofFn]; exact n.isLt),
    List.getElem?_ofFn, dif_pos n.isLt]

theorem getElem?_branch_value
    (children : Nibble → Trie Bytes)
    (last : Item) :
    ((List.ofFn fun m => embed H (node H (children m))) ++
        [last])[16]? = some last := by
  rw [List.getElem?_append_right
    (by rw [List.length_ofFn]), List.length_ofFn]
  rfl

------------------------------------------------------------
-- Node Sizes
------------------------------------------------------------

/- Every stored value has at least `k` bytes. -/
def ValuesAtLeast
    (k : Nat)
    (t : Trie Bytes) : Prop :=
  ∀ key v, t.lookup key = some v → k ≤ v.length

theorem ValuesAtLeast.extension
    {k : Nat}
    {path : List Nibble}
    {child : Trie Bytes}
    (hLong : ValuesAtLeast k (.extension path child)) :
    ValuesAtLeast k child := by
  intro key v hSome
  exact hLong (path ++ key) v (by simpa using hSome)

theorem ValuesAtLeast.child
    {k : Nat}
    {children : Nibble → Trie Bytes}
    {v : Option Bytes}
    (hLong : ValuesAtLeast k (.branch children v))
    (n : Nibble) :
    ValuesAtLeast k (children n) :=
  fun key v hSome => hLong (n :: key) v hSome

/- A string of two bytes or more grows by its length. -/
private theorem lt_length_encode_str
    (b : Bytes)
    (hTwo : 2 ≤ b.length) :
    b.length < (RLP.encode (.str b)).length := by
  have hPos := List.length_pos_of_ne_nil
    (RLP.lengthPrefix_ne_nil 0x80 b.length)
  rw [RLP.encode_str_eq_of_two_le hTwo, List.length_append]
  omega

/- A reference is as long as the node or 33 bytes long. -/
theorem le_length_encode_embed
    {k : Nat}
    {x : Item}
    (hk : k ≤ 33)
    (hx : k ≤ (RLP.encode x).length) :
    k ≤ (RLP.encode (embed H x)).length := by
  unfold embed
  split
  · exact hx
  · have hLong := lt_length_encode_str
      (H (RLP.encode x)) (by simp [H.length_hash])
    rw [H.length_hash] at hLong
    omega

private theorem add_length_le_encode_pair
    (x y : Item) :
    (RLP.encode x).length + (RLP.encode y).length + 1 ≤
      (RLP.encode (.list [x, y])).length := by
  have hLt := RLP.length_encodeList_lt [x, y]
  simp only [RLP.length_encodeList, List.map_cons,
    List.map_nil, List.sum_cons, List.sum_nil] at hLt
  omega

/- The sizes of the children of a branch add up. -/
private theorem sum_lt_length_encode_branch
    (refs : Nibble → Item)
    (last : Item) :
    (∑ n, (RLP.encode (refs n)).length) +
        (RLP.encode last).length <
      (RLP.encode
        (.list (List.ofFn refs ++ [last]))).length := by
  have hLt :=
    RLP.length_encodeList_lt (List.ofFn refs ++ [last])
  rw [RLP.length_encodeList, List.map_append, List.sum_append,
    List.map_ofFn, List.sum_ofFn] at hLt
  simpa using hLt

/- Slots in use weigh twelve more than the others. -/
private theorem le_sum_of_slots
    {size : Nibble → Nat}
    (hPos : ∀ n, 1 ≤ size n)
    {s : Finset Nibble}
    (hSlots : ∀ n ∈ s, 13 ≤ size n) :
    16 + 12 * s.card ≤ ∑ n, size n := by
  have hLe :
      ∑ n : Nibble, (1 + (if n ∈ s then 12 else 0)) ≤
        ∑ n, size n := by
    refine Finset.sum_le_sum fun n _ => ?_
    split_ifs with hn
    · exact hSlots n hn
    · exact hPos n
  simp only [Finset.sum_add_distrib, Finset.sum_const,
    Finset.card_univ, Fintype.card_fin, smul_eq_mul,
    mul_one, Finset.sum_ite_mem, Finset.univ_inter] at hLe
  omega

/-
  Two slots in use make a branch long when every reference
  in use has at least 13 bytes.
-/
private theorem le_length_encode_branch
    {children : Nibble → Trie Bytes}
    {v : Option Bytes}
    (hSlots : TwoSlots children v)
    (hLong : ValuesAtLeast 10 (.branch children v))
    (hRefs :
      ∀ n, ¬ (children n).IsBlank →
        13 ≤ (RLP.encode
          (embed H (node H (children n)))).length) :
    32 ≤ (RLP.encode
      (node H (.branch children v))).length := by
  have hSum := sum_lt_length_encode_branch
    (fun n => embed H (node H (children n)))
    (.str (v.getD []))
  have hPos :
      ∀ n, 1 ≤ (RLP.encode
        (embed H (node H (children n)))).length :=
    fun n => RLP.encode_length_pos _
  rw [node]
  rcases hSlots with ⟨a, b, hab, ha, hb⟩ | ⟨hv, a, ha⟩
  · have hLe := le_sum_of_slots hPos (s := {a, b})
      (by
        intro n hn
        rcases Finset.mem_insert.mp hn with rfl | hn
        · exact hRefs n ha
        · rw [Finset.mem_singleton.mp hn]
          exact hRefs b hb)
    rw [Finset.card_pair hab] at hLe
    exact le_trans (by omega) hSum.le
  · rcases Option.ne_none_iff_exists'.mp hv with ⟨b, rfl⟩
    have hb : 10 ≤ b.length := hLong [] b rfl
    have hValue := lt_length_encode_str b (by omega)
    have hLe := le_sum_of_slots hPos (s := {a})
      (by
        intro n hn
        rw [Finset.mem_singleton.mp hn]
        exact hRefs a ha)
    rw [Finset.card_singleton] at hLe
    simp only [Option.getD_some] at hSum ⊢
    exact le_trans (by omega) hSum.le

/- Values of ten bytes make nodes of thirteen. -/
private theorem thirteen_le_length_encode_node
    (t : Trie Bytes)
    (hCanonical : t.Canonical)
    (hLong : ValuesAtLeast 10 t)
    (hSome : ¬ t.IsBlank) :
    13 ≤ (RLP.encode (node H t)).length := by
  induction t with
  | blank => exact (hSome trivial).elim
  | leaf path v =>
      have hv : 10 ≤ v.length :=
        hLong path v (by simp [lookup])
      have hValue := lt_length_encode_str v (by omega)
      have hPath := RLP.encode_length_pos
        (.str (Nibble.hexPrefix path true))
      have hPair := add_length_le_encode_pair
        (.str (Nibble.hexPrefix path true)) (.str v)
      rw [node]
      omega
  | extension path child ih =>
      have hRef := le_length_encode_embed H (by omega)
        (ih hCanonical.2.2 hLong.extension
          (not_isBlank_of_isBranch hCanonical.2.1))
      have hPair := add_length_le_encode_pair
        (.str (Nibble.hexPrefix path false))
        (embed H (node H child))
      rw [node]
      omega
  | branch children v ih =>
      have hBranch := le_length_encode_branch H
        hCanonical.1 hLong (fun n hn =>
          le_length_encode_embed H (by omega)
            (ih n (hCanonical.2 n) (hLong.child n) hn))
      omega

/- Inner nodes over such values are always hashed. -/
theorem le_length_encode_node
    {t : Trie Bytes}
    (hCanonical : t.Canonical)
    (hLong : ValuesAtLeast 10 t)
    (hInner : ∀ path v, t ≠ .leaf path v)
    (hSome : ¬ t.IsBlank) :
    32 ≤ (RLP.encode (node H t)).length := by
  have hBranch :
      ∀ (children : Nibble → Trie Bytes) v,
        (Trie.branch children v).Canonical →
        ValuesAtLeast 10 (.branch children v) →
          32 ≤ (RLP.encode
            (node H (.branch children v))).length := by
    intro children v hCanonical hLong
    exact le_length_encode_branch H hCanonical.1 hLong
      (fun n hn =>
        le_length_encode_embed H (by omega)
          (thirteen_le_length_encode_node H _
            (hCanonical.2 n) (hLong.child n) hn))
  cases t with
  | blank => exact (hSome trivial).elim
  | leaf path v => exact (hInner path v rfl).elim
  | branch children v => exact hBranch _ _ hCanonical hLong
  | extension path child =>
      have hChild :
          32 ≤ (RLP.encode (node H child)).length := by
        have hIs := hCanonical.2.1
        cases child with
        | branch children v =>
            exact hBranch _ _ hCanonical.2.2 hLong.extension
        | _ => exact hIs.elim
      have hRef := le_length_encode_embed H (by omega) hChild
      have hPair := add_length_le_encode_pair
        (.str (Nibble.hexPrefix path false))
        (embed H (node H child))
      rw [node]
      omega

/- When a leaf with a short path is hashed. -/
theorem length_encode_leaf_lt_iff
    {path : List Nibble}
    (hShort : path.length ≤ 1)
    {v : Bytes}
    (hTwo : 2 ≤ v.length) :
    (RLP.encode (node H (.leaf path v))).length < 32 ↔
      v.length < 29 := by
  have hPath :
      (RLP.encode
        (.str (Nibble.hexPrefix path true))).length = 1 := by
    match path with
    | [] => rfl
    | [x] =>
        revert x
        decide
    | _ :: _ :: _ => simp at hShort
  have hList :
      (RLP.encodeList
          [.str (Nibble.hexPrefix path true), .str v]).length =
        1 + ((RLP.lengthPrefix 0x80 v.length).length +
          v.length) := by
    simp only [RLP.length_encodeList, List.map_cons,
      List.map_nil, List.sum_cons, List.sum_nil, hPath,
      RLP.encode_str_eq_of_two_le hTwo, List.length_append]
    omega
  constructor
  · intro hLt
    by_contra hNot
    have hPos := List.length_pos_of_ne_nil
      (RLP.lengthPrefix_ne_nil 0x80 v.length)
    have hMore := RLP.length_encodeList_lt
      [.str (Nibble.hexPrefix path true), .str v]
    rw [node] at hLt
    omega
  · intro hLt
    rw [RLP.length_lengthPrefix_of_lt (by omega)] at hList
    rw [node, RLP.encode, List.length_append, hList,
      RLP.length_lengthPrefix_of_lt (by omega)]
    omega

end Trie
