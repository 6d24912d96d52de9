import StingFlashbots.Searcher.TrieWalk

/-
  A reference implementation of the trie package.

  The trie is kept as a tree and nodes are found by their
  hashes. Where the nodes of the trie have distinct hashes,
  the reference does what is expected of the package.

  Key definitions include:
    * `TriePackage.reference`

  Key results include:
    * `TriePackage.reference_standard`
-/

namespace Sting

open RLP (Item)

------------------------------------------------------------
-- The Reference Implementation
------------------------------------------------------------

/- Find a node by its hash. -/
def findNode
    (keccak : Digest)
    (t : Trie Bytes)
    (hash : Bytes) : Py Item :=
  match (Trie.nodes keccak t).find?
      (fun x => keccak (RLP.encode x) = hash) with
  | some x => .ok x
  | none => .error (.valueError "MissingTrieNode")

/- Split off the longest common prefix. -/
def splitCommonPrefix :
    List Nibble → List Nibble →
      List Nibble × List Nibble × List Nibble
| x :: xs, y :: ys =>
    if x = y then
      let (shared, left, right) := splitCommonPrefix xs ys
      (x :: shared, left, right)
    else
      ([], x :: xs, y :: ys)
| [], ys => ([], [], ys)
| x :: xs, [] => ([], x :: xs, [])

/- The compact path of a node with two items. -/
def nodePath : Item → Py (Bool × List Nibble)
| .list (.str path :: _) => decodeCompact path
| _ => .error (.valueError "InvalidNode")

/- The package implemented on trees. -/
def TriePackage.reference (keccak : Digest) : TriePackage where
  Mpt := Trie Bytes
  new := .blank
  set t key value :=
    .ok (t.insert (Nibble.ofBytes key) value)
  rootHash t := t.rootHash keccak
  getNode t ref :=
    match ref with
    | .list xs => .ok (.list xs)
    | .str [] => .ok (.str [])
    | .str hash => findNode keccak t hash
  getNodeType node :=
    match node with
    | .str [] => .ok .blank
    | .str _ => .error (.valueError "InvalidNode")
    | .list xs =>
        if xs.length = 17 then
          .ok .branch
        else do
          let (isLeaf, _) ← nodePath (.list xs)
          return if isLeaf then .leaf else .extension
  extractKey node := do
    let (_, path) ← nodePath node
    return path
  consumeCommonPrefix := splitCommonPrefix

private theorem splitCommonPrefix_spec
    (left right : List Nibble) :
    ∀ shared leftRest rightRest,
      splitCommonPrefix left right =
          (shared, leftRest, rightRest) →
        left = shared ++ leftRest ∧
        right = shared ++ rightRest ∧
        (leftRest = [] ∨ rightRest = [] ∨
          leftRest.head? ≠ rightRest.head?) := by
  induction left generalizing right with
  | nil =>
      intro shared leftRest rightRest hSplit
      simp only [splitCommonPrefix, Prod.mk.injEq] at hSplit
      rcases hSplit with ⟨rfl, rfl, rfl⟩
      simp
  | cons x xs ih =>
      intro shared leftRest rightRest hSplit
      cases right with
      | nil =>
          simp only [splitCommonPrefix,
            Prod.mk.injEq] at hSplit
          rcases hSplit with ⟨rfl, rfl, rfl⟩
          simp
      | cons y ys =>
          simp only [splitCommonPrefix] at hSplit
          split_ifs at hSplit with hxy
          · simp only [Prod.mk.injEq] at hSplit
            rcases hSplit with ⟨rfl, rfl, rfl⟩
            rcases ih ys _ _ _ rfl with ⟨hx, hy, hApart⟩
            refine ⟨?_, ?_, hApart⟩
            · rw [List.cons_append, ← hx]
            · rw [hxy, List.cons_append, ← hy]
          · simp only [Prod.mk.injEq] at hSplit
            rcases hSplit with ⟨rfl, rfl, rfl⟩
            simp [hxy]

/- The reference reads nodes as expected. -/
theorem TriePackage.reference_readsNodes
    (keccak : Digest) :
    (TriePackage.reference keccak).ReadsNodes keccak where
  getNodeType_node := by
    intro t
    cases t with
    | blank => rfl
    | leaf path v =>
        simp [reference, Trie.node, nodePath, nodeType,
          decodeCompact_hexPrefix]
    | extension path child =>
        simp [reference, Trie.node, nodePath, nodeType,
          decodeCompact_hexPrefix]
    | branch children v =>
        have hLength :
            ((List.ofFn fun n =>
                Trie.embed keccak
                  (Trie.node keccak (children n))) ++
              [Item.str (v.getD [])]).length = 17 := by
          rw [List.length_append, List.length_ofFn]
          rfl
        simp only [reference, Trie.node, hLength, if_true,
          nodeType]
  extractKey_leaf := by
    intro path v
    simp [reference, Trie.node, nodePath,
      decodeCompact_hexPrefix]
  extractKey_extension := by
    intro path child
    simp [reference, Trie.node, nodePath,
      decodeCompact_hexPrefix]
  consumeCommonPrefix_spec := splitCommonPrefix_spec

/- Nodes with distinct hashes are found. -/
private theorem findNode_of_mem
    {keccak : Digest}
    {t : Trie Bytes}
    (hEnc : ∀ x ∈ Trie.nodes keccak t, x.Encodable)
    (hFree :
      CollisionFree keccak
        ((Trie.nodes keccak t).map RLP.encode))
    {x : Item}
    (hx : x ∈ Trie.nodes keccak t) :
    findNode keccak t (keccak (RLP.encode x)) = .ok x := by
  unfold findNode
  cases hFind : (Trie.nodes keccak t).find?
      (fun y => keccak (RLP.encode y) =
        keccak (RLP.encode x)) with
  | none =>
      have hNone := List.find?_eq_none.mp hFind x hx
      simp at hNone
  | some y =>
      have hy := List.mem_of_find?_eq_some hFind
      have hHash := List.find?_some hFind
      rw [hFree.item_eq (hEnc y hy) (hEnc x hx)
        (List.mem_map_of_mem hy) (List.mem_map_of_mem hx)
        (by simpa using hHash)]

private theorem setAll_reference
    (keccak : Digest)
    (entries : List (Bytes × Bytes)) :
    (TriePackage.reference keccak).setAll entries =
      .ok (Trie.ofList
        (entries.map fun e => (Nibble.ofBytes e.1, e.2))) := by
  have hFold :
      ∀ start : Trie Bytes,
        entries.foldlM
            (fun t e => (Except.ok
              (t.insert (Nibble.ofBytes e.1) e.2) :
                Py (Trie Bytes)))
            start =
          .ok ((entries.map fun e =>
            (Nibble.ofBytes e.1, e.2)).foldl
              (fun t e => t.insert e.1 e.2) start) := by
    induction entries with
    | nil => exact fun start => rfl
    | cons e entries ih =>
        intro start
        exact ih (start.insert (Nibble.ofBytes e.1) e.2)
  exact hFold .blank

/- Every node of a trie is a list or the empty string. -/
private theorem mem_nodes_cases
    {keccak : Digest}
    {t : Trie Bytes}
    {x : Item}
    (hx : x ∈ Trie.nodes keccak t) :
    x = .str [] ∨ ∃ xs, x = .list xs := by
  induction t with
  | blank =>
      exact Or.inl
        (by simpa [Trie.nodes, Trie.node] using hx)
  | leaf path v =>
      right
      simp only [Trie.nodes, List.mem_singleton] at hx
      exact ⟨_, hx⟩
  | extension path child ih =>
      simp only [Trie.nodes, List.mem_cons] at hx
      rcases hx with rfl | hx
      · exact Or.inr ⟨_, rfl⟩
      · exact ih hx
  | branch children v ih =>
      simp only [Trie.nodes, List.mem_cons,
        List.mem_flatMap] at hx
      rcases hx with rfl | ⟨n, _, hx⟩
      · exact Or.inr ⟨_, rfl⟩
      · exact ih n hx

/- The reference is the package the generator relies on. -/
theorem TriePackage.reference_standard
    {keccak : Digest}
    {entries : List (Bytes × Bytes)}
    {t : Trie Bytes}
    (hTrie :
      t = Trie.ofList
        (entries.map fun e => (Nibble.ofBytes e.1, e.2)))
    (hEnc : ∀ x ∈ Trie.nodes keccak t, x.Encodable)
    (hFree :
      CollisionFree keccak
        ((Trie.nodes keccak t).map RLP.encode)) :
    (TriePackage.reference keccak).Standard keccak
      entries where
  reads := reference_readsNodes keccak
  realises := by
    intro mpt hSet
    rw [setAll_reference, ← hTrie] at hSet
    cases hSet
    rw [← hTrie]
    have hHash :
        ∀ x ∈ Trie.nodes keccak t,
          (reference keccak).getNode t
              (.str (keccak (RLP.encode x))) =
            .ok x := by
      intro x hx
      have hFind := findNode_of_mem hEnc hFree hx
      cases hNil : keccak (RLP.encode x) with
      | nil =>
          have hLength := keccak.length_hash (RLP.encode x)
          simp [hNil] at hLength
      | cons y ys =>
          rw [hNil] at hFind
          exact hFind
    exact
      { rootHash_eq := rfl
        getNode_root := hHash _ (Trie.node_mem_nodes keccak t)
        getNode_embed := by
          intro x hx
          unfold Trie.embed
          split
          · rcases mem_nodes_cases hx with rfl | ⟨xs, rfl⟩
            · rfl
            · rfl
          · exact hHash x hx }

end Sting
