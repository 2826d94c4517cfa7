import Overpass.Core.Sha256
import Overpass.Hierarchy.Client.BitcoinStateConverter

/-! Entering and leaving the bridge (`bitcoin_state_converter.rs`): `convert_lock_to_state`
records a Bitcoin lock as a channel state in the state tree, and `prepare_settlement` turns a
channel state whose root the tree still holds back into a lock. -/
namespace Overpass

structure BitcoinLockState where
  lockAmount : UInt64
  lockScriptHash : Hash
  lockHeight : UInt32
  pubkeyHash : Mathlib.Vector UInt8 20
  sequence : UInt64

/-- What conversion and settlement use of the state tree (`SparseMerkleTreeWasm`, here a value
of type `τ`) and of the proof backend, none of which is among the sources. -/
structure Bridge (τ : Type) where
  update : τ → Hash → Bytes → Except Unit τ
  getProof : τ → Hash → Except Unit Bytes
  root : τ → Bytes
  generateProofJs : UInt64 → UInt64 → UInt64 → UInt64 → UInt64 → Except String Bytes
  generateProof : Bytes → Except SystemError ZkProof

namespace Bridge
variable {τ : Type} (B : Bridge τ)

/-- `generate_channel_id`: SHA-256d of the script hash, the height's four little-endian bytes
and the key hash. -/
def generateChannelId (lock : BitcoinLockState) : Hash :=
  sha256 (sha256 (lock.lockScriptHash.toList ++ leBytes 4 lock.lockHeight.toNat ++
    lock.pubkeyHash.toList)).toList

def rootHash (root : Bytes) : Except SystemError Hash :=
  if h : root.length = 32 then .ok ⟨root, h⟩ else .error ⟨.dataConversionError, "Invalid root length"⟩

/-- `convert_lock_to_state`: the tree after the update, the channel state and the bytes of the
conversion proof; the backend's error text stands for its `Debug` form. -/
def convertLockToState (tree : τ) (lock : BitcoinLockState) :
    Except SystemError (τ × OverpassBitcoinState × Bytes) := do
  let stateData := toLeBytes lock.lockAmount ++ lock.pubkeyHash.toList ++ List.replicate 32 0
  let channelId := generateChannelId lock
  let tree ← (B.update tree channelId stateData).mapError fun _ =>
    ⟨.stateUpdateError, "Failed to update state tree"⟩
  let merkleProof ← (B.getProof tree channelId).mapError fun _ =>
    ⟨.proofGenerationError, "Failed to generate merkle proof"⟩
  let proofData ← (B.generateProofJs lock.lockAmount 0 lock.lockAmount 0 0).mapError fun e =>
    ⟨.proofGenerationError, "Failed to generate conversion proof: " ++ e⟩
  let stateRoot ← rootHash (B.root tree)
  return (tree, ⟨channelId, stateRoot, lock.lockAmount, 0, lock.sequence, lock.pubkeyHash, merkleProof⟩,
    proofData)

def generateSettlementProof (final : OverpassBitcoinState) : Except SystemError ZkProof :=
  B.generateProof (final.stateRoot.toList ++ toLeBytes final.currentBalance ++ final.pubkeyHash.toList)

/-- `prepare_settlement`: the tree must still hold the final state's root; the lock script hash
and the height are left for the settlement handler. -/
def prepareSettlement (tree : τ) (final : OverpassBitcoinState) :
    Except SystemError (BitcoinLockState × ZkProof) := do
  if B.root tree ≠ final.stateRoot.toList then throw ⟨.invalidState, "Invalid final state root"⟩
  let proof ← B.generateSettlementProof final
  return (⟨final.currentBalance, zeroHash, 0, final.pubkeyHash, final.sequence⟩, proof)

theorem rootHash_ok {root : Bytes} {h : Hash} (hr : rootHash root = .ok h) : h.toList = root := by
  unfold rootHash at hr
  split at hr
  · cases hr; rfl
  · cases hr

theorem convertLockToState_ok {tree tree' : τ} {lock : BitcoinLockState} {st : OverpassBitcoinState}
    {proofData : Bytes} (h : B.convertLockToState tree lock = .ok (tree', st, proofData)) :
    st.channelId = generateChannelId lock ∧ st.stateRoot.toList = B.root tree' ∧
      st.currentBalance = lock.lockAmount ∧ st.nonce = 0 ∧ st.sequence = lock.sequence ∧
      st.pubkeyHash = lock.pubkeyHash := by
  simp only [convertLockToState, bind, except_bind_ok, mapError_ok, pure, Except.pure,
    Except.ok.injEq, Prod.mk.injEq] at h
  obtain ⟨t, -, mp, -, pd, -, root, hr, rfl, rfl, rfl⟩ := h
  exact ⟨rfl, rootHash_ok hr, rfl, rfl, rfl, rfl⟩

/-- Settling the channel state a conversion returned, against the tree it returned, passes the
root check and gives back the lock's amount, key hash and sequence. -/
theorem settle_after_convert {tree tree' : τ} {lock : BitcoinLockState} {st : OverpassBitcoinState}
    {proofData : Bytes} (h : B.convertLockToState tree lock = .ok (tree', st, proofData)) :
    B.prepareSettlement tree' st = (B.generateSettlementProof st).map fun proof =>
      (⟨lock.lockAmount, zeroHash, 0, lock.pubkeyHash, lock.sequence⟩, proof) := by
  obtain ⟨-, hroot, hbal, -, hseq, hkey⟩ := B.convertLockToState_ok h
  simp only [prepareSettlement, hroot, ne_eq, not_true_eq_false, if_false, hbal, hkey, hseq]
  cases B.generateSettlementProof st <;> rfl

/-- A bridge whose tree keeps its all-zero root and whose backend answers with empty proofs. -/
def echo : Bridge Unit :=
  ⟨fun t _ _ => .ok t, fun _ _ => .ok [], fun _ => zeroHash.toList, fun _ _ _ _ _ => .ok [], fun _ => .ok ⟨[]⟩⟩

def testLock : BitcoinLockState := ⟨100000000, zeroHash, 700000, Mathlib.Vector.replicate 20 1, 0⟩

def testState : OverpassBitcoinState :=
  ⟨generateChannelId testLock, zeroHash, 100000000, 0, 0, Mathlib.Vector.replicate 20 1, []⟩

theorem testLock_settles :
    echo.convertLockToState () testLock = .ok ((), testState, []) ∧
      echo.prepareSettlement () testState =
        (echo.generateSettlementProof testState).map fun proof =>
          (⟨testLock.lockAmount, zeroHash, 0, testLock.pubkeyHash, testLock.sequence⟩, proof) :=
  have h : echo.convertLockToState () testLock = .ok ((), testState, []) := rfl
  ⟨h, settle_after_convert echo h⟩

/-- The whole life of a channel on the bridge: a lock converted into a channel state, carried
through any chain of accepted transitions and settled against a tree that holds the last state's
root, comes back with the lock's key hash on the lock's channel, its sequence moved by the chain's
length; the amount is the last state's balance. -/
theorem settle_after_chain {tree tree' tree'' : τ} {lock : BitcoinLockState} {st : OverpassBitcoinState}
    {proofData : Bytes} (h : B.convertLockToState tree lock = .ok (tree', st, proofData))
    (rest : List OverpassBitcoinState) (hc : BitcoinStateConverter.Accepted (st :: rest))
    (hr : B.root tree'' = ((st :: rest).getLast (List.cons_ne_nil _ _)).stateRoot.toList) :
    let final := (st :: rest).getLast (List.cons_ne_nil _ _)
    final.channelId = generateChannelId lock ∧
      final.sequence.toNat = (lock.sequence.toNat + rest.length) % 2 ^ 64 ∧
      B.prepareSettlement tree'' final = (B.generateSettlementProof final).map fun proof =>
        (⟨final.currentBalance, zeroHash, 0, lock.pubkeyHash, final.sequence⟩, proof) := by
  intro final
  obtain ⟨hid, -, -, -, hseq, hkey⟩ := B.convertLockToState_ok h
  obtain ⟨c1, c2, c3⟩ := hc.getElem (Nat.lt_succ_self rest.length)
  have hl : (st :: rest).getLast (List.cons_ne_nil _ _) = (st :: rest)[rest.length] :=
    List.getLast_eq_getElem ..
  rw [← hl] at c1 c2 c3
  refine ⟨c1.trans hid, c3.trans (by rw [hseq]), ?_⟩
  simp only [final, prepareSettlement, hr, ne_eq, not_true_eq_false, if_false, c2, hkey]
  cases B.generateSettlementProof _ <;> rfl

def doubledState : OverpassBitcoinState :=
  ⟨testState.channelId, zeroHash, 200000000, 0, testState.sequence + 1, testState.pubkeyHash, []⟩

/-- Nothing on the way bounds the balance: the one-bitcoin test lock settles for two. -/
theorem testLock_settles_doubled :
    echo.convertLockToState () testLock = .ok ((), testState, []) ∧
      BitcoinStateConverter.Accepted [testState, doubledState] ∧
      echo.root () = ([testState, doubledState].getLast (List.cons_ne_nil _ _)).stateRoot.toList ∧
      let final := [testState, doubledState].getLast (List.cons_ne_nil _ _)
      final.channelId = generateChannelId testLock ∧
        final.sequence.toNat = (testLock.sequence.toNat + [doubledState].length) % 2 ^ 64 ∧
        echo.prepareSettlement () final = (echo.generateSettlementProof final).map fun proof =>
          (⟨final.currentBalance, zeroHash, 0, testLock.pubkeyHash, final.sequence⟩, proof) :=
  have h : echo.convertLockToState () testLock = .ok ((), testState, []) := rfl
  have hc : BitcoinStateConverter.Accepted [testState, doubledState] :=
    List.chain'_pair.mpr ⟨_, BitcoinStateConverter.approving_accepts_successor testState zeroHash 200000000 0 []⟩
  ⟨h, hc, rfl, settle_after_chain echo h [doubledState] hc rfl⟩

end Bridge

end Overpass
