import Overpass.Core.Sha256
import Overpass.Core.Types
import Mathlib.Data.List.AList
import Mathlib.Data.Finset.Basic

/-! The storage node (`storage_node_contract.rs`): content-addressed admission of a BOC with
its proof, retrieval, and the peer set, one call at a time. -/
namespace Overpass

/-- `StorageNode`, without its configuration, which no modelled function reads, and without the
battery, whose charging system is not among the sources (each charge is an input). -/
structure StorageNode where
  nodeId : Hash
  stake : UInt64
  storedBocs : AList (fun _ : Hash => BOC)
  storedProofs : AList (fun _ : Hash => ZkProof)
  peers : Finset Hash

namespace StorageNode

/-- The stake below which `StorageNode::new` refuses to build a node. -/
def minStake : UInt64 := 1000

/-- `StorageNode::new`. -/
def new (nodeId : Hash) (initialStake : UInt64) (peers : Finset Hash) : Except SystemError StorageNode :=
  if initialStake < minStake then .error ⟨.invalidAmount, "Insufficient initial stake"⟩
  else .ok ⟨nodeId, initialStake, ∅, ∅, peers⟩

section
variable (bincode : BOC → Bytes)

/-- `hash_boc_internal`: SHA-256 of the BOC's `bincode` serialization, an external format
taken as a parameter. -/
def hashBocInternal (boc : BOC) : Hash := sha256 (bincode boc)

/-- `verify_proof_internal`: exactly one public input, equal to the BOC's hash. The
cryptographic check is commented out in the source. -/
def verifyProofInternal (proof : ZkProof) (boc : BOC) : Except SystemError Bool :=
  let bocHash := hashBocInternal bincode boc
  if proof.publicInputs.length ≠ 1 ∨ proof.publicInputs.head? ≠ some bocHash.toList then .ok false
  else .ok true

theorem verifyProofInternal_eq (proof : ZkProof) (boc : BOC) :
    verifyProofInternal bincode proof boc = .ok (proof.publicInputs = [(hashBocInternal bincode boc).toList]) := by
  unfold verifyProofInternal
  match proof with
  | ⟨[]⟩ => simp
  | ⟨[x]⟩ => by_cases h : x = (hashBocInternal bincode boc).toList <;> simp [h]
  | ⟨_ :: _ :: _⟩ => simp

/-- `store_update`, given the battery's answer to `charge_for_processing`: no map changes
before both checks pass, and then the BOC and its proof go in under the same key. -/
def storeUpdate (n : StorageNode) (charge : Except String Unit) (boc : BOC) (proof : ZkProof) :
    StorageNode × Except SystemError Unit :=
  match charge with
  | .error e => (n, .error ⟨.batteryError, e⟩)
  | .ok () =>
    match verifyProofInternal bincode proof boc with
    | .error e => (n, .error e)
    | .ok false => (n, .error ⟨.invalidProof, "Invalid proof"⟩)
    | .ok true =>
      let bocId := hashBocInternal bincode boc
      ({ n with storedBocs := n.storedBocs.insert bocId boc,
                storedProofs := n.storedProofs.insert bocId proof }, .ok ())

end

def retrieveBoc (n : StorageNode) (bocId : Hash) : Except SystemError BOC :=
  (n.storedBocs.lookup bocId).elim (.error ⟨.notFound, "BOC not found"⟩) .ok

def retrieveProof (n : StorageNode) (proofId : Hash) : Except SystemError ZkProof :=
  (n.storedProofs.lookup proofId).elim (.error ⟨.notFound, "Proof not found"⟩) .ok

theorem retrieveBoc_eq_ok {n : StorageNode} {bocId : Hash} {b : BOC} :
    n.retrieveBoc bocId = .ok b ↔ n.storedBocs.lookup bocId = some b := by
  cases h : n.storedBocs.lookup bocId <;> simp [retrieveBoc, h]

theorem retrieveProof_eq_ok {n : StorageNode} {proofId : Hash} {p : ZkProof} :
    n.retrieveProof proofId = .ok p ↔ n.storedProofs.lookup proofId = some p := by
  cases h : n.storedProofs.lookup proofId <;> simp [retrieveProof, h]

def addPeer (n : StorageNode) (peerId : Hash) : StorageNode := { n with peers := insert peerId n.peers }

def removePeer (n : StorageNode) (peerId : Hash) : StorageNode := { n with peers := n.peers.erase peerId }

end StorageNode

end Overpass
