import Overpass.Hierarchy.SparseMerkleTree

/-! The root aggregator (`root_contract.rs`): intermediate roots folded into a global tree,
and the epoch gate of `try_submit_global_root`, over every sequence of calls. -/
namespace Overpass

/-- What the root contract uses of its global tree, `SparseMerkleTreeR`, which is not among the
sources: a fresh tree, the fallible `update_global_tree` (which may leave the tree changed
even when it fails), and `get_global_root_hash`. -/
structure GlobalTree (G : Type) where
  new : G
  updateGlobalTree : G → Hash → Hash → G × Except SystemError Unit
  getGlobalRootHash : G → Hash

/-- A global tree for the concrete runs below: the intermediate tree's code with the address as
key. It is not a model of `SparseMerkleTreeR`, which is not among the sources; the results of
this module hold for every global tree. -/
def smtGlobalTree : GlobalTree SparseMerkleTreeI where
  new := SparseMerkleTreeI.new
  updateGlobalTree t addr root :=
    match t.update addr.toList root.toList with
    | .ok t' => (t', .ok ())
    | .error e => (t, .error e)
  getGlobalRootHash := SparseMerkleTreeI.root

/-- `RootContract`; `u64` fields wrap on overflow, as a release build computes them. -/
structure RootContract (G : Type) where
  globalTree : G
  intermediateRoots : AList (fun _ : Hash => Hash)
  epoch : UInt64
  epochDuration : UInt64
  lastSubmission : UInt64
  verifySettlementState : Bool
  verifyIntermediateState : Bool
  verifyChannelState : Bool
  verifyTransactionState : Bool
  verifyStorageState : Bool
  verifyGlobalState : Bool
  verifyRootState : Bool
  submitSettlement : Bool

namespace RootContract
variable {G : Type} (T : GlobalTree G)

def new (epochDuration : UInt64) : RootContract G :=
  ⟨T.new, ∅, 0, epochDuration, 0, true, false, false, false, false, false, false, true⟩

/-- `process_intermediate_root`: the map is written first, then the global tree is updated,
whose error is returned with the map already written. -/
def processIntermediateRoot (s : RootContract G) (contractAddr root : Hash) :
    RootContract G × Except SystemError Unit :=
  let s := { s with intermediateRoots := s.intermediateRoots.insert contractAddr root }
  let (g, r) := T.updateGlobalTree s.globalTree contractAddr root
  ({ s with globalTree := g }, r)

@[simp] theorem processIntermediateRoot_intermediateRoots (s : RootContract G) (a r : Hash) :
    (processIntermediateRoot T s a r).1.intermediateRoots = s.intermediateRoots.insert a r := rfl

/-- The time gate, `now - last_submission < epoch_duration`, with `u64` wrapping subtraction. -/
def gateClosed (s : RootContract G) (now : UInt64) : Prop := now - s.lastSubmission < s.epochDuration

instance (s : RootContract G) (now : UInt64) : Decidable (s.gateClosed now) :=
  inferInstanceAs (Decidable (_ < _))

/-- `try_submit_global_root`; the returned `MerkleProof` never has siblings and is left out. -/
def trySubmitGlobalRoot (s : RootContract G) (now : UInt64) : RootContract G × Option Hash :=
  if s.gateClosed now then (s, none)
  else
    let root := T.getGlobalRootHash s.globalTree
    let s := { s with epoch := s.epoch + 1, lastSubmission := now,
                      verifySettlementState := true, submitSettlement := true }
    if !s.verifyGlobalState then (s, none) else (s, some root)

/-- `verify_transaction`: a flag, not a check of the transaction or its proof. -/
def verifyTransaction (s : RootContract G) : Except String Bool :=
  if !s.verifyTransactionState then .ok false else .ok true

/-- A call on the contract, with the arguments the code reads. -/
inductive Call
  | processIntermediateRoot (contractAddr root : Hash)
  | trySubmitGlobalRoot (now : UInt64)
  | verifyTransaction

/-- The contract after one call. -/
def step (s : RootContract G) : Call → RootContract G
  | .processIntermediateRoot a r => (processIntermediateRoot T s a r).1
  | .trySubmitGlobalRoot now => (trySubmitGlobalRoot T s now).1
  | .verifyTransaction => s

def run (s : RootContract G) (calls : List Call) : RootContract G := calls.foldl (step T) s

/-- Whether a call passes the time gate from `s`. -/
def advances (s : RootContract G) : Call → Bool
  | .trySubmitGlobalRoot now => !decide (s.gateClosed now)
  | _ => false

theorem trySubmit_gateClosed {s : RootContract G} {now : UInt64} (h : s.gateClosed now) :
    trySubmitGlobalRoot T s now = (s, none) := if_pos h

theorem trySubmit_gateOpen_state {s : RootContract G} {now : UInt64} (h : ¬ s.gateClosed now) :
    (trySubmitGlobalRoot T s now).1 =
      { s with epoch := s.epoch + 1, lastSubmission := now, verifySettlementState := true,
               submitSettlement := true } := by
  simp only [trySubmitGlobalRoot, if_neg h]
  split <;> rfl

theorem step_trySubmit (s : RootContract G) (now : UInt64) :
    step T s (.trySubmitGlobalRoot now) = if s.gateClosed now then s else
      { s with epoch := s.epoch + 1, lastSubmission := now, verifySettlementState := true,
               submitSettlement := true } := by
  by_cases h : s.gateClosed now
  · rw [if_pos h, step, trySubmit_gateClosed T h]
  · rw [if_neg h, step, trySubmit_gateOpen_state T h]

theorem step_epoch (s : RootContract G) (c : Call) :
    (step T s c).epoch = if advances s c then s.epoch + 1 else s.epoch := by
  cases c with
  | trySubmitGlobalRoot now => rw [step_trySubmit]; split <;> simp [advances, *]
  | _ => rfl

@[simp] theorem step_epochDuration (s : RootContract G) (c : Call) :
    (step T s c).epochDuration = s.epochDuration := by
  cases c with
  | trySubmitGlobalRoot now => rw [step_trySubmit]; split <;> rfl
  | _ => rfl

theorem step_of_gateClosed {s : RootContract G} {now : UInt64} (h : s.gateClosed now) :
    step T s (.trySubmitGlobalRoot now) = s := by
  rw [step_trySubmit, if_pos h]

theorem step_intermediateRoots (s : RootContract G) (c : Call) :
    (step T s c).intermediateRoots = match c with
      | .processIntermediateRoot a r => s.intermediateRoots.insert a r
      | _ => s.intermediateRoots := by
  cases c with
  | trySubmitGlobalRoot now => rw [step_trySubmit]; split <;> rfl
  | _ => rfl

/-- The two flags no call sets: without `verify_global_state` no submission returns a root,
and without `verify_transaction_state` every transaction is refused. -/
def FlagsOff (s : RootContract G) : Prop := s.verifyGlobalState = false ∧ s.verifyTransactionState = false

theorem step_flagsOff {s : RootContract G} (h : FlagsOff s) (c : Call) : FlagsOff (step T s c) := by
  cases c with
  | trySubmitGlobalRoot now => rw [step_trySubmit]; split <;> exact h
  | _ => exact h

theorem run_flagsOff {s : RootContract G} (h : FlagsOff s) (calls : List Call) :
    FlagsOff (run T s calls) := by
  induction calls generalizing s with
  | nil => exact h
  | cons c cs ih => exact ih (step_flagsOff T h c)

theorem flagsOff_silent {s : RootContract G} (h : FlagsOff s) (now : UInt64) :
    (trySubmitGlobalRoot T s now).2 = none ∧ verifyTransaction s = .ok false := by
  refine ⟨?_, by simp [verifyTransaction, h.2]⟩
  unfold trySubmitGlobalRoot
  split
  · rfl
  · simp [h.1]

/-- From `new(d)`, whatever the calls: no submission returns a root, and every transaction is
refused. -/
theorem run_from_new_never_emits (d : UInt64) (calls : List Call) (now : UInt64) :
    (trySubmitGlobalRoot T (run T (new T d) calls) now).2 = none ∧
      verifyTransaction (run T (new T d) calls) = .ok false :=
  flagsOff_silent T (run_flagsOff T ⟨rfl, rfl⟩ calls) now

/-- The root a call records for address `a`, over the one recorded before it. -/
def Call.recordFor (a : Hash) (acc : Option Hash) : Call → Option Hash
  | .processIntermediateRoot a' r => if a' = a then some r else acc
  | _ => acc

/-- The last root passed for `a` by a `process_intermediate_root` call of `calls`. -/
def lastRoot (a : Hash) (calls : List Call) (init : Option Hash) : Option Hash :=
  calls.foldl (fun acc c => c.recordFor a acc) init

theorem run_intermediateRoots (s : RootContract G) (calls : List Call) (a : Hash) :
    (run T s calls).intermediateRoots.lookup a = lastRoot a calls (s.intermediateRoots.lookup a) := by
  induction calls generalizing s with
  | nil => rfl
  | cons c cs ih =>
    have hc : (step T s c).intermediateRoots.lookup a = c.recordFor a (s.intermediateRoots.lookup a) := by
      rw [step_intermediateRoots]
      cases c with
      | processIntermediateRoot a' r =>
        by_cases ha : a' = a
        · subst ha; simp [Call.recordFor]
        · simp [Call.recordFor, ha, AList.lookup_insert_ne (Ne.symm ha)]
      | trySubmitGlobalRoot now => rfl
      | verifyTransaction => rfl
    simp only [run, List.foldl_cons, lastRoot] at ih ⊢
    rw [ih, hc]

/-- Every run from `new(d)`, the global tree failing or not: `intermediate_roots` holds, for
each address, the root of the last `process_intermediate_root` call for it, failed calls included. -/
theorem intermediateRoots_last_write (d : UInt64) (calls : List Call) (a : Hash) :
    (run T (new T d) calls).intermediateRoots.lookup a = lastRoot a calls none :=
  run_intermediateRoots T _ calls a

/-- A call that fails in the global tree has already recorded its root: from `new(0)` with the
intermediate tree as the global tree, whose updates fail from `new()`, the first call returns
`Err` and records. -/
theorem failed_process_records_root :
    (processIntermediateRoot smtGlobalTree (new smtGlobalTree 0) zeroHash zeroHash).2 =
        .error SparseMerkleTreeI.nodeNotFound ∧
      (new smtGlobalTree 0).intermediateRoots.lookup zeroHash = none ∧
      (processIntermediateRoot smtGlobalTree (new smtGlobalTree 0) zeroHash zeroHash).1.intermediateRoots.lookup
        zeroHash = some zeroHash := by
  have hu := SparseMerkleTreeI.update_new zeroHash.toList zeroHash.toList
  refine ⟨?_, rfl, by simp⟩
  simp [processIntermediateRoot, smtGlobalTree, new, hu]

/-- The times of the calls of a run that pass the gate, in order. -/
def advanceTimes : RootContract G → List Call → List UInt64
  | _, [] => []
  | s, c :: cs =>
    match c with
    | .trySubmitGlobalRoot now =>
      if s.gateClosed now then advanceTimes (step T s c) cs else now :: advanceTimes (step T s c) cs
    | _ => advanceTimes (step T s c) cs

/-- Over any run, the epoch has moved by the number of gate passes, modulo `2^64`. -/
theorem run_epoch (s : RootContract G) (calls : List Call) :
    (run T s calls).epoch.toNat = (s.epoch.toNat + (advanceTimes T s calls).length) % 2 ^ 64 := by
  induction calls generalizing s with
  | nil => simp [run, advanceTimes, Nat.mod_eq_of_lt s.epoch.toNat_lt]
  | cons c cs ih =>
    have he := step_epoch T s c
    simp only [run, List.foldl_cons] at ih ⊢
    rw [ih]
    cases c with
    | trySubmitGlobalRoot now =>
      by_cases h : s.gateClosed now
      · simp [advanceTimes, h, he, advances]
      · simp only [advanceTimes, advances, h, decide_False, Bool.not_false, if_true, if_false] at he ⊢
        rw [he, List.length_cons, toNat_succ_add_mod]
    | _ => simp [advanceTimes, he, advances]

/-- No `try_submit_global_root` call of the run has `now` below `last_submission`: the runs
on which the gate's `u64` subtraction does not underflow (it panics in a debug build). -/
def NoUnderflow : RootContract G → List Call → Prop
  | _, [] => True
  | s, c :: cs =>
    (match c with | .trySubmitGlobalRoot now => s.lastSubmission ≤ now | _ => True) ∧
      NoUnderflow (step T s c) cs

theorem gate_open_spacing {s : RootContract G} {now : UInt64} (hu : s.lastSubmission ≤ now)
    (h : ¬ s.gateClosed now) : s.lastSubmission.toNat + s.epochDuration.toNat ≤ now.toNat := by
  have hs := UInt64.toNat_sub_of_le now s.lastSubmission hu
  have hl : ¬ (now - s.lastSubmission).toNat < s.epochDuration.toNat := h
  have : s.lastSubmission.toNat ≤ now.toNat := hu
  omega

theorem advanceTimes_spacing (s : RootContract G) (calls : List Call) (h : NoUnderflow T s calls) :
    (∀ t ∈ advanceTimes T s calls, s.lastSubmission.toNat + s.epochDuration.toNat ≤ t.toNat) ∧
      (advanceTimes T s calls).Pairwise (fun t1 t2 => t1.toNat + s.epochDuration.toNat ≤ t2.toNat) := by
  induction calls generalizing s with
  | nil => simp [advanceTimes]
  | cons c cs ih =>
    obtain ⟨hc, hr⟩ := h
    obtain ⟨hb, hp⟩ := ih (step T s c) hr
    simp only [step_epochDuration] at hb hp
    cases c with
    | trySubmitGlobalRoot now =>
      by_cases hg : s.gateClosed now
      · simp only [advanceTimes, hg, if_true]
        rw [step_of_gateClosed T hg] at hb hp ⊢
        exact ⟨hb, hp⟩
      · have hl : (step T s (.trySubmitGlobalRoot now)).lastSubmission = now := by
          rw [step_trySubmit, if_neg hg]
        have hn := gate_open_spacing hc hg
        have hle : s.lastSubmission.toNat ≤ now.toNat := hc
        rw [hl] at hb
        simp only [advanceTimes, hg, if_false, List.mem_cons, List.pairwise_cons]
        refine ⟨fun t ht => ?_, hb, hp⟩
        rcases ht with rfl | ht
        · exact hn
        · have := hb t ht; omega
    | _ => exact ⟨hb, hp⟩

/-- On every run from `new(d)` whose gate subtraction never underflows, any two epoch
advances, at `t1` and then at `t2`, are at least `d` apart as natural numbers. -/
theorem advances_spaced_without_underflow (d : UInt64) (calls : List Call)
    (h : NoUnderflow T (new T d) calls) :
    (advanceTimes T (new T d) calls).Pairwise (fun t1 t2 => t1.toNat + d.toNat ≤ t2.toNat) :=
  (advanceTimes_spacing T _ calls h).2

theorem forward_submissions_spaced :
    NoUnderflow smtGlobalTree (new smtGlobalTree 10) [.trySubmitGlobalRoot 100, .trySubmitGlobalRoot 120] ∧
      (advanceTimes smtGlobalTree (new smtGlobalTree 10) [.trySubmitGlobalRoot 100, .trySubmitGlobalRoot 120]).Pairwise
        (fun t1 t2 => t1.toNat + (10 : UInt64).toNat ≤ t2.toNat) :=
  have h : NoUnderflow smtGlobalTree (new smtGlobalTree 10) [.trySubmitGlobalRoot 100, .trySubmitGlobalRoot 120] :=
    ⟨by decide, by decide, trivial⟩
  ⟨h, advances_spaced_without_underflow smtGlobalTree 10 _ h⟩

/-- From `new(10)`, submissions at 100 and then at 50: the second
call subtracts 100 from 50 and, wrapping, passes the gate within the first window. -/
theorem backwards_submission_advances_twice :
    (step smtGlobalTree (new smtGlobalTree 10) (.trySubmitGlobalRoot 100)).lastSubmission = 100 ∧
      advanceTimes smtGlobalTree (new smtGlobalTree 10)
        [.trySubmitGlobalRoot 100, .trySubmitGlobalRoot 50] = [100, 50] := by
  decide

end RootContract

end Overpass
