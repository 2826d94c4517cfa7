import Overpass.Hierarchy.SparseMerkleTree

/-! The values `update` hands to the circuit builder: `hash_to_field` reads the first eight bytes
of a hash as a little-endian `u64` and passes it to `GoldilocksField::from_canonical_u64`, whose
precondition is a value below the field's order `2^64 - 2^32 + 1`. -/
namespace Overpass

namespace SparseMerkleTreeI

/-- `hash_to_field`, up to the `from_canonical_u64` it ends with: the `u64` that call gets. -/
def hashToField (bytes : Hash) : UInt64 := fromLeBytes (bytes.toList.take 8)

def addPathConstraints (path : List (Hash × Bool)) : List UInt64 :=
  path.map fun e => hashToField e.1

/-- The values `update` passes to `from_canonical_u64`, in call order: the leaf hash, the hash
of the key alone, then every path entry; none when the path is not found. -/
def updateFieldInputs (t : SparseMerkleTreeI) (key value : Bytes) : Except SystemError (List UInt64) := do
  let leafHash := hashLeaf key value
  let path ← t.generateMerklePath key
  return hashToField leafHash :: hashToField (hashLeaf key []) :: addPathConstraints path

theorem updateFieldInputs_eq (t : SparseMerkleTreeI) (key value : Bytes) :
    t.updateFieldInputs key value =
      (fun path => hashToField (hashLeaf key value) :: hashToField (hashLeaf key []) :: addPathConstraints path) <$>
        t.generateMerklePath key := by
  simp only [updateFieldInputs]
  cases t.generateMerklePath key <;> rfl

/-- On every tree the program holds, `update` fails at the first lookup of its path, before
any `hash_to_field`: no value ever reaches `from_canonical_u64`, so none outside its range. -/
theorem update_never_reaches_field (ops : List (Bytes × Bytes)) (key value : Bytes) :
    (runUpdates new ops).2.updateFieldInputs key value = .error nodeNotFound := by
  have hw : new.generateMerklePath key = .error nodeNotFound := walk_of_lookup_none key 0 255 rfl
  rw [runUpdates_new, updateFieldInputs_eq, hw]
  rfl

end SparseMerkleTreeI

end Overpass
