import Overpass.Core.Sha256
import Overpass.Core.Types
import Mathlib.Data.List.AList

/-! The intermediate layer's sparse Merkle tree (`sparse_merkle_tree_i.rs`): the bit path of
a key, the walk that records it, the fold back to a root, and `update`. -/
namespace Overpass

/-- `MerkleNode`, with the two child links that path derivation reads. -/
structure MerkleNode where
  left : Option Hash
  right : Option Hash
  deriving DecidableEq

/-- The link a path in direction `bit` follows: `right` for a one bit, `left` for a zero. -/
def MerkleNode.child (node : MerkleNode) (bit : Bool) : Option Hash :=
  if bit then node.right else node.left

/-- The node map of a tree, keyed by node hash. -/
abbrev NodeMap := AList (fun _ : Hash => MerkleNode)

/-- `SparseMerkleTreeI`, without its circuit builder and virtual cells. -/
structure SparseMerkleTreeI where
  rootHash : Hash
  nodes : NodeMap
  height : Nat

namespace SparseMerkleTreeI

/-- `SparseMerkleTreeI::new()`: the zero root, no nodes, height 256. -/
def new : SparseMerkleTreeI := ⟨zeroHash, ∅, 256⟩

def hashLeaf (key value : Bytes) : Hash := sha256 (key ++ value)

/-- Bit `index` of `key`, most significant bit of each byte first; `false` past the end. -/
def getBit (key : Bytes) (index : Nat) : Bool :=
  let byteIndex := index / 8
  let bitIndex := 7 - index % 8
  if h : byteIndex < key.length then (key[byteIndex] >>> bitIndex.toUInt8) &&& 1 == 1 else false

/-- The loop of `generate_merkle_path` from level `i` with `n` levels left, standing at
`current`: each level pushes the followed child's hash and the direction bit. -/
def walk (nodes : NodeMap) (key : Bytes) : Nat → Nat → Hash → Except SystemError (List (Hash × Bool))
  | _, 0, _ => .ok []
  | i, n + 1, current =>
    match nodes.lookup current with
    | none => .error ⟨.notFound, "Node not found in path"⟩
    | some node =>
      match node.child (getBit key i) with
      | none => .error ⟨.notFound, "Invalid path"⟩
      | some next => ((next, getBit key i) :: ·) <$> walk nodes key (i + 1) n next

def generateMerklePath (t : SparseMerkleTreeI) (key : Bytes) :
    Except SystemError (List (Hash × Bool)) :=
  walk t.nodes key 0 t.height t.rootHash

/-- One level of `calculate_new_root`, as the loop body writes it. -/
def combine (entry : Hash × Bool) (current : Hash) : Hash :=
  if entry.2 then sha256 (current.toList ++ entry.1.toList)
  else sha256 (entry.1.toList ++ current.toList)

/-- `calculate_new_root`: the path folded from the leaf up, last level first. -/
def calculateNewRoot (path : List (Hash × Bool)) (leafHash : Hash) : Except SystemError Hash :=
  .ok (path.foldr combine leafHash)

/-- `update`; nothing of the tree changes before the path is found, so an error leaves it as it was. -/
def update (t : SparseMerkleTreeI) (key value : Bytes) : Except SystemError SparseMerkleTreeI := do
  let leafHash := hashLeaf key value
  let path ← t.generateMerklePath key
  let root ← calculateNewRoot path leafHash
  return { t with rootHash := root }

def root (t : SparseMerkleTreeI) : Hash := t.rootHash

/-- The data of a node's cell in `serialize_state`: the left child's hash, then the right
child's, each only when present. -/
def nodeData (node : MerkleNode) : Bytes :=
  node.left.elim [] Mathlib.Vector.toList ++ node.right.elim [] Mathlib.Vector.toList

/-- `serialize_state`: the root's cell and one cell per stored node, each as its data and hash,
are built and dropped, and the `BOC::new()` it starts from is returned as it is. -/
def serializeState (t : SparseMerkleTreeI) : Except SystemError BOC :=
  let _rootCell : Bytes × Hash := ([], t.rootHash)
  let _nodeCells := t.nodes.entries.map fun e => (nodeData e.2, e.1)
  .ok BOC.new

/-- A caller's sequence of `update` calls on one tree: every result, then the final tree. -/
def runUpdates : SparseMerkleTreeI → List (Bytes × Bytes) → List (Except SystemError Unit) × SparseMerkleTreeI
  | t, [] => ([], t)
  | t, (key, value) :: rest =>
    match t.update key value with
    | .ok t' => Prod.map (.ok () :: ·) id (runUpdates t' rest)
    | .error e => Prod.map (.error e :: ·) id (runUpdates t rest)

/-- The error of a walk that cannot find the node it stands on. -/
def nodeNotFound : SystemError := ⟨.notFound, "Node not found in path"⟩

theorem walk_of_lookup_none {nodes : NodeMap} {current : Hash} (key : Bytes) (i n : Nat)
    (h : nodes.lookup current = none) : walk nodes key i (n + 1) current = .error nodeNotFound := by
  simp [walk, h, nodeNotFound]

/-- `update` is the path fold mapped over the walk: only the root is rewritten. -/
theorem update_eq (t : SparseMerkleTreeI) (key value : Bytes) :
    t.update key value =
      (fun path => { t with rootHash := path.foldr combine (hashLeaf key value) }) <$>
        t.generateMerklePath key := by
  simp only [update, calculateNewRoot]
  cases t.generateMerklePath key <;> rfl

theorem update_keeps_nodes {t t' : SparseMerkleTreeI} {key value : Bytes} (h : t.update key value = .ok t') :
    t'.nodes = t.nodes ∧ t'.height = t.height := by
  rw [update_eq] at h
  cases hp : t.generateMerklePath key with
  | error e => simp [hp, Functor.map, Except.map] at h
  | ok path =>
    simp only [hp, Functor.map, Except.map, Except.ok.injEq] at h
    subst h
    exact ⟨rfl, rfl⟩

/-- Over any sequence of updates the node map and the height stay as they were: `update` only
ever rewrites the root hash, so no path a tree lacks can appear. -/
theorem runUpdates_keeps_nodes (t : SparseMerkleTreeI) (ops : List (Bytes × Bytes)) :
    (runUpdates t ops).2.nodes = t.nodes ∧ (runUpdates t ops).2.height = t.height := by
  induction ops generalizing t with
  | nil => exact ⟨rfl, rfl⟩
  | cons op ops ih =>
    cases hu : t.update op.1 op.2 with
    | ok t' =>
      obtain ⟨h1, h2⟩ := update_keeps_nodes hu
      obtain ⟨i1, i2⟩ := ih t'
      simp only [runUpdates, hu, Prod.map_snd, id]
      exact ⟨i1.trans h1, i2.trans h2⟩
    | error e => simpa [runUpdates, hu] using ih t

theorem update_of_root_missing {t : SparseMerkleTreeI} (key value : Bytes) (hh : 0 < t.height)
    (h : t.nodes.lookup t.rootHash = none) : t.update key value = .error nodeNotFound := by
  obtain ⟨n, hn⟩ := Nat.exists_eq_add_of_lt hh
  rw [update_eq, generateMerklePath, hn, walk_of_lookup_none key 0 _ h]
  rfl

/-- From any tree with an empty node map, every call of a run fails with `NotFound` and the
tree is left exactly as it was. -/
theorem runUpdates_of_nodes_empty (t : SparseMerkleTreeI) (hh : 0 < t.height) (he : t.nodes = ∅)
    (ops : List (Bytes × Bytes)) : runUpdates t ops = (ops.map fun _ => .error nodeNotFound, t) := by
  induction ops with
  | nil => rfl
  | cons op ops ih =>
    have hu := update_of_root_missing op.1 op.2 hh (by simp [he])
    simp [runUpdates, hu, ih]

theorem update_new (key value : Bytes) : new.update key value = .error nodeNotFound :=
  update_of_root_missing key value (by decide) rfl

/-- The fields are private and `new()` is the only constructor, so these are all the trees the
program holds: every run of updates from `new()` ends at `new()`. -/
theorem runUpdates_new (ops : List (Bytes × Bytes)) : (runUpdates new ops).2 = new := by
  rw [runUpdates_of_nodes_empty new (by decide) rfl ops]

/-- Every sequence of updates on a fresh tree: each call fails with `NotFound`, and the tree,
root included, stays the empty tree whose root is the all-zero sentinel. -/
theorem new_updates_fail (ops : List (Bytes × Bytes)) :
    runUpdates new ops = (ops.map fun _ => .error nodeNotFound, new) ∧
      (runUpdates new ops).2.root = zeroHash := by
  have h := runUpdates_of_nodes_empty new (by decide) rfl ops
  exact ⟨h, by rw [h]; rfl⟩

/-- The stored nodes along `key`'s path from `current`, each with the direction taken from it. -/
def pathNodes (nodes : NodeMap) (key : Bytes) : Nat → Nat → Hash → Option (List (MerkleNode × Bool))
  | _, 0, _ => some []
  | i, n + 1, current =>
    match nodes.lookup current with
    | none => none
    | some node =>
      match node.child (getBit key i) with
      | none => none
      | some next => ((node, getBit key i) :: ·) <$> pathNodes nodes key (i + 1) n next

/-- What `calculate_new_root` does at a node the path left in direction `bit`: the new hash
beside the node's own link in that direction, which `generate_merkle_path` recorded. -/
def foldOnPath (nb : MerkleNode × Bool) (current : Hash) : Hash :=
  combine ((nb.1.child nb.2).getD zeroHash, nb.2) current

theorem walk_of_pathNodes {nodes : NodeMap} {key : Bytes} :
    ∀ {i n : Nat} {current : Hash} {ns : List (MerkleNode × Bool)}, pathNodes nodes key i n current = some ns →
      walk nodes key i n current = .ok (ns.map fun nb => ((nb.1.child nb.2).getD zeroHash, nb.2))
  | _, 0, _, _, h => by cases h; rfl
  | i, n + 1, current, ns, h => by
    simp only [pathNodes] at h
    split at h
    · cases h
    · rename_i node hl
      split at h
      · cases h
      · rename_i next hc
        obtain ⟨ns', hp, rfl⟩ := Option.map_eq_some'.mp h
        simp [walk, hl, hc, walk_of_pathNodes hp]

theorem pathNodes_of_walk {nodes : NodeMap} {key : Bytes} :
    ∀ {i n : Nat} {current : Hash} {path : List (Hash × Bool)}, walk nodes key i n current = .ok path →
      ∃ ns, pathNodes nodes key i n current = some ns ∧
        path = ns.map fun nb => ((nb.1.child nb.2).getD zeroHash, nb.2)
  | _, 0, _, _, h => ⟨[], rfl, by cases h; rfl⟩
  | i, n + 1, current, path, h => by
    simp only [walk] at h
    split at h
    · cases h
    · rename_i node hl
      split at h
      · cases h
      · rename_i next hc
        cases hw : walk nodes key (i + 1) n next with
        | error e => simp [hw, Functor.map, Except.map] at h
        | ok p =>
          simp only [hw, Functor.map, Except.map, Except.ok.injEq] at h
          obtain ⟨ns, hns, rfl⟩ := pathNodes_of_walk hw
          exact ⟨(node, getBit key i) :: ns, by simp [pathNodes, hl, hc, hns], by simp [← h, hc]⟩

/-- Along any stored path, `update` folds each node's own followed link into the new root,
with the new hash on the other side of it. -/
theorem update_folds_own_links (t : SparseMerkleTreeI) (key value : Bytes)
    {ns : List (MerkleNode × Bool)} (h : pathNodes t.nodes key 0 t.height t.rootHash = some ns) :
    t.update key value = .ok { t with rootHash := ns.foldr foldOnPath (hashLeaf key value) } := by
  rw [update_eq, generateMerklePath, walk_of_pathNodes h]
  simp only [Functor.map, Except.map, List.foldr_map]
  rfl

end SparseMerkleTreeI

end Overpass
