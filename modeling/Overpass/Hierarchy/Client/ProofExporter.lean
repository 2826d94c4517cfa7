import Overpass.Core.Sha256
import Overpass.Core.Types

/-! The client's proof export (`client_proof_exporter.rs`): the byte string `export_proof_boc`
lays out from a wallet root and its proof, and the `STATEBOC` it returns. -/
namespace Overpass

/-- `ProofType`; the export appends its discriminant as the last byte. -/
inductive ProofType
  | stateTransition
  | balanceTransfer
  | merkleInclusion
  | walletRoot
  | channelStateTransition
  | channelStateTransitionProof
  deriving DecidableEq, Repr

def ProofType.toU8 : ProofType → UInt8
  | .stateTransition => 0
  | .balanceTransfer => 1
  | .merkleInclusion => 2
  | .walletRoot => 3
  | .channelStateTransition => 4
  | .channelStateTransitionProof => 5

theorem ProofType.toU8_injective : Function.Injective ProofType.toU8 := by
  intro a b
  cases a <;> cases b <;> decide

/-- The client crate's `ZkProof`, which is not among the sources: the three fields the export
reads, with `u64` public inputs (the export calls `to_le_bytes` on each). -/
structure ClientZkProof where
  publicInputs : List UInt64
  merkleRoot : Bytes
  proofData : Bytes
  deriving DecidableEq, Repr

structure ProofMetadata where
  timestamp : UInt64
  nonce : UInt64
  walletId : Hash
  proofType : ProofType
  deriving DecidableEq

structure WalletRootProof where
  walletRoot : Hash
  proof : ClientZkProof
  metadata : ProofMetadata
  deriving DecidableEq

namespace WalletRootProof

/-- The byte string `export_proof_boc` assembles and hashes, field after field with no
lengths between them. -/
def exportData (p : WalletRootProof) : Bytes :=
  p.walletRoot.toList ++ p.proof.publicInputs.flatMap toLeBytes ++ p.proof.merkleRoot ++
    p.proof.proofData ++ toLeBytes p.metadata.timestamp ++ toLeBytes p.metadata.nonce ++
    p.metadata.walletId.toList ++ [p.metadata.proofType.toU8]

/-- `export_proof_boc`: the data's hash is computed and dropped, and `STATEBOC::new()` is
returned; `STATEBOC` is not among the sources, so its empty value is a parameter. -/
def exportProofBoc {σ : Type} (stateBocNew : σ) (p : WalletRootProof) : Except SystemError σ :=
  let _hash := sha256 (exportData p)
  .ok stateBocNew

def variablePart (p : WalletRootProof) : Bytes :=
  p.proof.publicInputs.flatMap toLeBytes ++ p.proof.merkleRoot ++ p.proof.proofData

def trailer (m : ProofMetadata) : Bytes :=
  toLeBytes m.timestamp ++ toLeBytes m.nonce ++ m.walletId.toList ++ [m.proofType.toU8]

@[simp] theorem length_trailer (m : ProofMetadata) : (trailer m).length = 49 := by
  simp [trailer]

theorem exportData_eq (p : WalletRootProof) :
    p.exportData = p.walletRoot.toList ++ (p.variablePart ++ trailer p.metadata) := by
  simp [exportData, variablePart, trailer]

theorem trailer_injective {m₁ m₂ : ProofMetadata} (h : trailer m₁ = trailer m₂) : m₁ = m₂ := by
  simp only [trailer, List.append_assoc] at h
  obtain ⟨ht, h⟩ := List.append_inj h (by simp)
  obtain ⟨hn, h⟩ := List.append_inj h (by simp)
  obtain ⟨hw, hp⟩ := List.append_inj h (by simp)
  have ht' := congrArg fromLeBytes ht
  have hn' := congrArg fromLeBytes hn
  simp only [fromLeBytes_toLeBytes] at ht' hn'
  cases m₁
  cases m₂
  simp only [ProofMetadata.mk.injEq]
  exact ⟨ht', hn', Mathlib.Vector.toList_injective hw,
    ProofType.toU8_injective (List.singleton_injective hp)⟩

def zeroMetadata : ProofMetadata := ⟨0, 0, zeroHash, .walletRoot⟩

def oneInputProof : WalletRootProof := ⟨zeroHash, ⟨[1], List.replicate 32 0, []⟩, zeroMetadata⟩

/-- No public input: the input's eight bytes open a 32-byte Merkle root whose last eight zero
bytes have moved into the proof bytes. -/
def shiftedRootProof : WalletRootProof :=
  ⟨zeroHash, ⟨[], toLeBytes 1 ++ List.replicate 24 0, List.replicate 8 0⟩, zeroMetadata⟩

/-- Two proofs that differ in their public inputs, Merkle root and proof bytes lay out the same
data; and whatever the proof, the export returns the same empty `STATEBOC`. -/
theorem export_collides :
    oneInputProof ≠ shiftedRootProof ∧ oneInputProof.exportData = shiftedRootProof.exportData ∧
      ∀ (σ : Type) (stateBocNew : σ) (p q : WalletRootProof),
        exportProofBoc stateBocNew p = exportProofBoc stateBocNew q :=
  ⟨by decide, by decide, fun _ _ _ _ => rfl⟩

/-- The data determines the wallet root, the whole metadata it carries and the concatenation of
the three variable-length fields, though not where one of those ends and the next begins. -/
theorem exportData_fixed_fields {p q : WalletRootProof} (h : p.exportData = q.exportData) :
    p.walletRoot = q.walletRoot ∧ p.metadata = q.metadata ∧ p.variablePart = q.variablePart := by
  rw [exportData_eq, exportData_eq] at h
  obtain ⟨hw, h⟩ := List.append_inj h (by simp)
  obtain ⟨hv, ht⟩ := List.append_inj' h (by simp)
  exact ⟨Mathlib.Vector.toList_injective hw, trailer_injective ht, hv⟩

theorem shifted_proofs_share_fixed_fields :
    oneInputProof.exportData = shiftedRootProof.exportData ∧
      oneInputProof.walletRoot = shiftedRootProof.walletRoot ∧
      oneInputProof.metadata = shiftedRootProof.metadata ∧
      oneInputProof.variablePart = shiftedRootProof.variablePart :=
  have h : oneInputProof.exportData = shiftedRootProof.exportData := by decide
  ⟨h, exportData_fixed_fields h⟩

end WalletRootProof

end Overpass
