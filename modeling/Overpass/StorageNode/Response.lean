import Overpass.StorageNode.Contract
import Mathlib.Algebra.Order.Ring.Nat

/-! One cycle of the storage node's verification loop (`attest/response.rs`): the size ceiling,
the threshold, the per-proof retries, and the metrics the cycle leaves behind. -/
namespace Overpass

/-- `VerificationMetrics`, without the `f64` timing fields (see the model map). -/
structure VerificationMetrics where
  totalVerifications : UInt64
  successfulVerifications : UInt64
  failedVerifications : UInt64
  deriving DecidableEq, Repr

namespace Response

def maxVerificationAttempts : Nat := 3
def defaultBackoffMs : UInt64 := 1000
def maxResponseSize : Nat := 1024 * 1024
/-- `x as usize` on the crate's wasm32 target, where `usize` has 32 bits. -/
def asUsize (x : UInt64) : Nat := x.toNat % 2 ^ 32

def bumpSuccess (m : VerificationMetrics) : VerificationMetrics :=
  { m with totalVerifications := m.totalVerifications + 1,
           successfulVerifications := m.successfulVerifications + 1 }

def bumpFailure (m : VerificationMetrics) : VerificationMetrics :=
  { m with totalVerifications := m.totalVerifications + 1,
           failedVerifications := m.failedVerifications + 1 }

/-- `verify_single_response` on the wasm32 target: a lookup that misses returns the error; one
that finds the proof goes on to `std::time::Instant::now()`, which panics there (`none`), so
the metrics update after it never runs. -/
def verifySingleResponse (proofs : AList (fun _ : Hash => ZkProof)) (proofHash : Hash) :
    Option (Except SystemError Unit) :=
  match proofs.lookup proofHash with
  | none => some (.error ⟨.invalidProof, "Proof not found"⟩)
  | some _ => none

/-- The retry loop of `verify_responses` for one hash, after `attempts` failures with `fuel`
iterations of `while attempts < MAX_VERIFICATION_ATTEMPTS` left; it also returns the backoff
delays waited, `DEFAULT_BACKOFF_MS * 2^attempts` after each failure but the last. -/
def retry (proofs : AList (fun _ : Hash => ZkProof)) (proofHash : Hash) :
    Nat → Nat → Option (Except SystemError Unit × List UInt64)
  | _, 0 => some (.ok (), [])
  | attempts, fuel + 1 =>
    match verifySingleResponse proofs proofHash with
    | none => none
    | some (.ok ()) => some (.ok (), [])
    | some (.error e) =>
      if attempts + 1 = maxVerificationAttempts then some (.error e, [])
      else (retry proofs proofHash (attempts + 1) fuel).map fun (r, delays) =>
        (r, defaultBackoffMs * UInt64.ofNat (2 ^ (attempts + 1)) :: delays)

/-- `verify_responses`: the hashes in order, the first that exhausts its attempts ending the batch. -/
def verifyResponses (proofs : AList (fun _ : Hash => ZkProof)) : List Hash → Option (Except SystemError Unit)
  | [] => some (.ok ())
  | proofHash :: rest =>
    match retry proofs proofHash 0 maxVerificationAttempts with
    | none => none
    | some (.ok (), _) => verifyResponses proofs rest
    | some (.error e, _) => some (.error e)

/-- `check_response_verification` on the stored maps; the hashes are `stored_bocs.keys()`, in
the map's order. -/
def checkResponseVerification (bocs : AList (fun _ : Hash => BOC))
    (proofs : AList (fun _ : Hash => ZkProof)) (responseThreshold : UInt64) : Option (Except SystemError Unit) :=
  let totalSize := (bocs.entries.map fun e => e.2.cells.length).sum
  if totalSize > maxResponseSize then some (.error ⟨.invalidInput, "Response size exceeds maximum allowed"⟩)
  else if bocs.entries.length ≥ asUsize responseThreshold then verifyResponses proofs bocs.keys
  else some (.ok ())

/-- The loop's own metrics update after a cycle's result (the timing fields left out). -/
def recordCycle (m : VerificationMetrics) : Except SystemError Unit → VerificationMetrics
  | .ok () => bumpSuccess m
  | .error _ => bumpFailure m

/-- One iteration of the loop body: the check, then the loop's own tally; `none` if it panics. -/
def cycle (bocs : AList (fun _ : Hash => BOC)) (proofs : AList (fun _ : Hash => ZkProof))
    (responseThreshold : UInt64) (m : VerificationMetrics) : Option VerificationMetrics :=
  (checkResponseVerification bocs proofs responseThreshold).map (recordCycle m)

def proofNotFound : SystemError := ⟨.invalidProof, "Proof not found"⟩

def found (proofs : AList (fun _ : Hash => ZkProof)) (proofHash : Hash) : Bool :=
  (proofs.lookup proofHash).isSome

section
variable {proofs : AList (fun _ : Hash => ZkProof)} {proofHash : Hash}

theorem retry_of_found (h : found proofs proofHash) (attempts fuel : Nat) :
    retry proofs proofHash attempts (fuel + 1) = none := by
  obtain ⟨p, hp⟩ := Option.isSome_iff_exists.mp h
  simp [retry, verifySingleResponse, hp]

theorem retry_of_missing (h : found proofs proofHash = false) :
    retry proofs proofHash 0 maxVerificationAttempts = some (.error proofNotFound, [2000, 4000]) := by
  have hn : proofs.lookup proofHash = none := Option.not_isSome_iff_eq_none.mp (by simpa [found] using h)
  simp [retry, verifySingleResponse, hn, maxVerificationAttempts, proofNotFound]
  decide

end

theorem verifyResponses_eq (proofs : AList (fun _ : Hash => ZkProof)) :
    ∀ ids : List Hash, verifyResponses proofs ids = match ids with
      | [] => some (.ok ())
      | h :: _ => if found proofs h then none else some (.error proofNotFound)
  | [] => rfl
  | h :: rest => by
    cases hf : found proofs h with
    | true => simp [verifyResponses, maxVerificationAttempts, retry_of_found hf, hf]
    | false => simp [verifyResponses, retry_of_missing hf, hf]

/-- Whether a cycle on these maps reaches the batch: under the size ceiling and at the threshold. -/
def attempts (bocs : AList (fun _ : Hash => BOC)) (responseThreshold : UInt64) : Bool :=
  !((bocs.entries.map fun e => e.2.cells.length).sum > maxResponseSize) &&
    asUsize responseThreshold ≤ bocs.entries.length

theorem checkResponseVerification_branch (bocs : AList (fun _ : Hash => BOC))
    (proofs : AList (fun _ : Hash => ZkProof)) (responseThreshold : UInt64) :
    checkResponseVerification bocs proofs responseThreshold =
      if attempts bocs responseThreshold then verifyResponses proofs bocs.keys
      else if (bocs.entries.map fun e => e.2.cells.length).sum > maxResponseSize then
        some (.error ⟨.invalidInput, "Response size exceeds maximum allowed"⟩)
      else some (.ok ()) := by
  unfold checkResponseVerification attempts
  by_cases hs : (bocs.entries.map fun e => e.2.cells.length).sum > maxResponseSize <;>
    by_cases ht : asUsize responseThreshold ≤ bocs.entries.length <;> simp [hs, ht]

end Response

end Overpass
