import Overpass.Core.Types
import Mathlib.Data.List.Chain

/-! Channel-state transitions of the Bitcoin bridge (`bitcoin_state_converter.rs`): the
constraints a successor state must meet, and what they give along accepted chains. -/
namespace Overpass

/-- `OverpassBitcoinState`; `u64` fields wrap on overflow, as a release build computes them. -/
structure OverpassBitcoinState where
  channelId : Hash
  stateRoot : Hash
  currentBalance : UInt64
  nonce : UInt64
  sequence : UInt64
  pubkeyHash : Mathlib.Vector UInt8 20
  merkleProof : Bytes

/-- The two collaborators `verify_state_transition` consults, which are not among the sources:
the state tree's `verify_root_transition` and the proof backend's `verify_proof_js`, whose
error is a JavaScript value that may or may not be a string. -/
structure BitcoinStateConverter where
  verifyRootTransitionInTree : Hash → Hash → Except SystemError Bool
  verifyProofJs : Bytes → Except (Option String) Bool

namespace BitcoinStateConverter

/-- `verify_state_constraints`: same channel, sequence one more (a wrapping `+ 1`), same key hash. -/
def verifyStateConstraints (prev new : OverpassBitcoinState) : Except SystemError Bool :=
  if prev.channelId ≠ new.channelId then .ok false
  else if new.sequence ≠ prev.sequence + 1 then .ok false
  else if prev.pubkeyHash ≠ new.pubkeyHash then .ok false
  else .ok true

/-- `verify_root_transition`: the tree's answer, any error becoming one message. -/
def verifyRootTransition (c : BitcoinStateConverter) (prevRoot newRoot : Hash) :
    Except SystemError Bool :=
  match c.verifyRootTransitionInTree prevRoot newRoot with
  | .ok b => .ok b
  | .error _ => .error ⟨.other, "Failed to verify root transition"⟩

/-- `verify_state_transition`: the constraints, the root transition, then the backend on both
roots and the new balance. -/
def verifyStateTransition (c : BitcoinStateConverter) (prev new : OverpassBitcoinState) :
    Except SystemError Bool := do
  if !(← verifyStateConstraints prev new) then return false
  if !(← c.verifyRootTransition prev.stateRoot new.stateRoot) then return false
  let verificationData := prev.stateRoot.toList ++ new.stateRoot.toList ++ toLeBytes new.currentBalance
  match c.verifyProofJs verificationData with
  | .ok b => .ok b
  | .error e => .error ⟨.verificationError, e.getD "Unknown error"⟩

theorem constraints_of_accepted {c : BitcoinStateConverter} {prev new : OverpassBitcoinState}
    (h : c.verifyStateTransition prev new = .ok true) :
    new.channelId = prev.channelId ∧ new.sequence = prev.sequence + 1 ∧ new.pubkeyHash = prev.pubkeyHash := by
  unfold verifyStateTransition at h
  by_cases h1 : prev.channelId = new.channelId
  · by_cases h2 : new.sequence = prev.sequence + 1
    · by_cases h3 : prev.pubkeyHash = new.pubkeyHash
      · exact ⟨h1.symm, h2, h3.symm⟩
      · simp [verifyStateConstraints, h1, h2, h3] at h; cases h
    · simp [verifyStateConstraints, h1, h2] at h; cases h
  · simp [verifyStateConstraints, h1] at h; cases h

/-- A chain of states each accepted as the successor of the one before, by any converter. -/
def Accepted (states : List OverpassBitcoinState) : Prop :=
  states.Chain' fun prev new => ∃ c : BitcoinStateConverter, c.verifyStateTransition prev new = .ok true

theorem Accepted.getElem {s0 : OverpassBitcoinState} {rest : List OverpassBitcoinState}
    (h : Accepted (s0 :: rest)) {k : Nat} (hk : k < (s0 :: rest).length) :
    (s0 :: rest)[k].channelId = s0.channelId ∧ (s0 :: rest)[k].pubkeyHash = s0.pubkeyHash ∧
      (s0 :: rest)[k].sequence.toNat = (s0.sequence.toNat + k) % 2 ^ 64 := by
  induction k generalizing s0 rest with
  | zero => simp [Nat.mod_eq_of_lt s0.sequence.toNat_lt]
  | succ k ih =>
    cases rest with
    | nil => simp at hk
    | cons s1 rest =>
      obtain ⟨⟨c, hc⟩, hr⟩ := List.chain'_cons.mp h
      obtain ⟨hid, hseq, hkey⟩ := constraints_of_accepted hc
      obtain ⟨i1, i2, i3⟩ := ih hr (Nat.lt_of_succ_lt_succ hk)
      refine ⟨i1.trans hid, i2.trans hkey, ?_⟩
      rw [List.getElem_cons_succ, i3, hseq, toNat_succ_add_mod]

/-- Along an accepted chain from `s0` the channel and the key hash stay, and the sequence has
moved by the chain's length modulo `2^64`. -/
theorem accepted_chain (s0 : OverpassBitcoinState) (rest : List OverpassBitcoinState)
    (h : Accepted (s0 :: rest)) :
    ((s0 :: rest).getLast (List.cons_ne_nil _ _)).channelId = s0.channelId ∧
      ((s0 :: rest).getLast (List.cons_ne_nil _ _)).pubkeyHash = s0.pubkeyHash ∧
      ((s0 :: rest).getLast (List.cons_ne_nil _ _)).sequence.toNat = (s0.sequence.toNat + rest.length) % 2 ^ 64 := by
  rw [List.getLast_eq_getElem]
  exact h.getElem (Nat.lt_succ_self _)

/-- A converter whose state tree and proof backend both answer `true`. -/
def approving : BitcoinStateConverter := ⟨fun _ _ => .ok true, fun _ => .ok true⟩

/-- The converter's own checks read only the channel, the sequence and the key hash: with a
tree and a backend that agree, any root, balance, nonce and proof may follow. -/
theorem approving_accepts_successor (s : OverpassBitcoinState) (root : Hash) (balance nonce : UInt64)
    (proof : Bytes) :
    approving.verifyStateTransition s
      ⟨s.channelId, root, balance, nonce, s.sequence + 1, s.pubkeyHash, proof⟩ = .ok true := by
  simp [verifyStateTransition, verifyStateConstraints, verifyRootTransition, approving]
  rfl

def openingState : OverpassBitcoinState :=
  ⟨zeroHash, zeroHash, 100000000, 0, 0, Mathlib.Vector.replicate 20 1, []⟩

theorem opening_chain :
    Accepted [openingState, { openingState with sequence := 1 }] ∧
      (([openingState, { openingState with sequence := 1 }]).getLast (List.cons_ne_nil _ _)).channelId =
          openingState.channelId ∧
      (([openingState, { openingState with sequence := 1 }]).getLast (List.cons_ne_nil _ _)).pubkeyHash =
          openingState.pubkeyHash ∧
      (([openingState, { openingState with sequence := 1 }]).getLast (List.cons_ne_nil _ _)).sequence.toNat =
          (openingState.sequence.toNat + [{ openingState with sequence := 1 }].length) % 2 ^ 64 :=
  have h : Accepted [openingState, { openingState with sequence := 1 }] :=
    List.chain'_pair.mpr ⟨approving, rfl⟩
  ⟨h, accepted_chain _ _ h⟩

def topState : OverpassBitcoinState :=
  ⟨zeroHash, zeroHash, 0, 0, 0xFFFFFFFFFFFFFFFF, Mathlib.Vector.replicate 20 0, []⟩

def wrappedState : OverpassBitcoinState := { topState with sequence := 0 }

/-- At the top of the `u64` range the successor check `prev.sequence + 1` wraps, so a state
with sequence 0 is accepted after one with sequence `2^64 - 1` (a debug build panics instead). -/
theorem wrapped_successor_accepted :
    approving.verifyStateTransition topState wrappedState = .ok true ∧
      topState.sequence.toNat = 2 ^ 64 - 1 ∧ wrappedState.sequence.toNat = 0 :=
  ⟨rfl, rfl, rfl⟩

end BitcoinStateConverter

end Overpass
