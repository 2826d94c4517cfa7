import Overpass.Hierarchy.Root.RootContract

/-! The root contract's state data: the 26-byte header `to_state_data` writes and
`deserialize` reads, and what a restored contract keeps of the one that was saved. -/
namespace Overpass.RootContract
variable {G : Type} (T : GlobalTree G)

/-- `to_state_data`: the three `u64` fields little-endian, then the two flags as `0`/`1` bytes. -/
def toStateData (s : RootContract G) : Bytes :=
  toLeBytes s.epoch ++ toLeBytes s.epochDuration ++ toLeBytes s.lastSubmission ++
    [if s.verifySettlementState then 1 else 0, if s.submitSettlement then 1 else 0]

/-- `RootContract::deserialize`: the first root cell's header; the global tree is a fresh one,
the intermediate roots are empty and the other flags are false whatever the header holds. -/
def deserialize (boc : BOC) : Except SystemError (RootContract G) :=
  match boc.roots.head? with
  | none => .error ⟨.notFound, "Empty BOC"⟩
  | some stateData =>
    if stateData.length < 26 then .error ⟨.notFound, "Invalid state data length"⟩
    else .ok ⟨T.new, ∅, fromLeBytes (stateData.take 8), fromLeBytes ((stateData.drop 8).take 8),
      fromLeBytes ((stateData.drop 16).take 8), stateData.getD 24 0 != 0, false, false, false, false,
      false, false, stateData.getD 25 0 != 0⟩

/-- The contract a restore of `s` gives: its header fields, nothing else. -/
def restored (s : RootContract G) : RootContract G :=
  ⟨T.new, ∅, s.epoch, s.epochDuration, s.lastSubmission, s.verifySettlementState,
    false, false, false, false, false, false, s.submitSettlement⟩

private theorem flag_byte (b : Bool) : ((if b then 1 else 0 : UInt8) != 0) = b := by cases b <;> rfl

private theorem header_fields {a b c : Bytes} (ha : a.length = 8) (hb : b.length = 8)
    (hc : c.length = 8) (x y : UInt8) :
    (a ++ b ++ c ++ [x, y]).take 8 = a ∧ ((a ++ b ++ c ++ [x, y]).drop 8).take 8 = b ∧
      ((a ++ b ++ c ++ [x, y]).drop 16).take 8 = c ∧ (a ++ b ++ c ++ [x, y]).getD 24 0 = x ∧
        (a ++ b ++ c ++ [x, y]).getD 25 0 = y := by
  have h16 : (a ++ b).length = 16 := by simp [ha, hb]
  have h24 : (a ++ b ++ c).length = 24 := by simp [ha, hb, hc]
  refine ⟨?_, ?_, ?_, ?_, ?_⟩
  · simp only [List.append_assoc, List.take_left' ha]
  · simp only [List.append_assoc, List.drop_left' ha, List.take_left' hb]
  · rw [List.append_assoc (a ++ b), List.drop_left' h16, List.take_left' hc]
  all_goals
    rw [List.getD_eq_getElem?_getD, List.getElem?_append_right (by omega), h24]
    rfl

theorem deserialize_header (s : RootContract G) (cells rest : List Bytes) :
    deserialize T ⟨cells, toStateData s :: rest⟩ = .ok (restored T s) := by
  obtain ⟨h0, h1, h2, h3, h4⟩ := header_fields (length_toLeBytes s.epoch)
    (length_toLeBytes s.epochDuration) (length_toLeBytes s.lastSubmission)
    (if s.verifySettlementState then 1 else 0) (if s.submitSettlement then 1 else 0)
  have hl : (toStateData s).length = 26 := by simp [toStateData]
  simp only [deserialize, List.head?_cons, hl, toStateData, h0, h1, h2, h3, h4, flag_byte,
    fromLeBytes_toLeBytes]
  rfl

/-- Every state, reachable or not, restores to its header: epoch, duration, last submission and
the two flags come back, while the tree is fresh and the intermediate roots are gone. -/
theorem deserialize_toStateData (s : RootContract G) (cells rest : List Bytes) :
    ∃ s', deserialize T ⟨cells, toStateData s :: rest⟩ = .ok s' ∧
      s'.epoch = s.epoch ∧ s'.epochDuration = s.epochDuration ∧ s'.lastSubmission = s.lastSubmission ∧
      s'.verifySettlementState = s.verifySettlementState ∧ s'.submitSettlement = s.submitSettlement ∧
      s'.globalTree = T.new ∧ s'.intermediateRoots = ∅ :=
  ⟨_, deserialize_header T s cells rest, rfl, rfl, rfl, rfl, rfl, rfl, rfl⟩

/-- What `deserialize` returns when it accepts: the first root has at least 26 bytes, and the
contract is built from its header alone. -/
theorem deserialize_ok {boc : BOC} {s : RootContract G} (h : deserialize T boc = .ok s) :
    ∃ r rest, boc.roots = r :: rest ∧ 26 ≤ r.length ∧
      s = ⟨T.new, ∅, fromLeBytes (r.take 8), fromLeBytes ((r.drop 8).take 8),
        fromLeBytes ((r.drop 16).take 8), r.getD 24 0 != 0, false, false, false, false, false, false,
        r.getD 25 0 != 0⟩ := by
  rcases boc with ⟨cells, _ | ⟨r, rest⟩⟩
  · cases h
  · by_cases hl : r.length < 26
    · simp [deserialize, hl] at h
    · simp only [deserialize, List.head?_cons, hl, if_false, Except.ok.injEq] at h
      exact ⟨r, rest, rfl, by omega, h.symm⟩

/-- The byte `to_state_data` writes for a flag `deserialize` read from `b`. -/
def flagByte (b : UInt8) : UInt8 := if b != 0 then 1 else 0

/-- Writing back a restored contract gives the header's first 24 bytes, and its two flag bytes
as `0` or `1`. -/
theorem toStateData_deserialize {cells : List Bytes} {r : Bytes} {rest : List Bytes}
    {s : RootContract G} (h : deserialize T ⟨cells, r :: rest⟩ = .ok s) :
    toStateData s = r.take 24 ++ [flagByte (r.getD 24 0), flagByte (r.getD 25 0)] := by
  obtain ⟨r, rest, hr, hl, rfl⟩ := deserialize_ok T h
  obtain ⟨rfl, -⟩ := List.cons.inj hr
  have h0 : (r.take 8).length = 8 := by simp; omega
  have h8 : ∀ n, n ≤ 16 → ((r.drop n).take 8).length = 8 := fun n hn => by simp; omega
  have h24 : r.take 24 = r.take 8 ++ ((r.drop 8).take 8 ++ (r.drop 16).take 8) := by
    rw [show (24 : Nat) = 8 + 16 from rfl, List.take_add, show (16 : Nat) = 8 + 8 from rfl,
      List.take_add, List.drop_drop]
  simp only [toStateData, toLeBytes_fromLeBytes h0,
    toLeBytes_fromLeBytes (h8 8 (by omega)), toLeBytes_fromLeBytes (h8 16 (by omega)), h24,
    List.append_assoc, flagByte]

theorem deserialize_flagsOff {boc : BOC} {s : RootContract G} (h : deserialize T boc = .ok s) :
    FlagsOff s := by
  obtain ⟨r, rest, -, -, rfl⟩ := deserialize_ok T h
  exact ⟨rfl, rfl⟩

/-- From any contract `deserialize` returns, whatever the calls: no submission returns a root,
and every transaction is refused. -/
theorem run_from_deserialized_never_emits {boc : BOC} {s : RootContract G}
    (h : deserialize T boc = .ok s) (calls : List Call) (now : UInt64) :
    (trySubmitGlobalRoot T (run T s calls) now).2 = none ∧ verifyTransaction (run T s calls) = .ok false :=
  flagsOff_silent T (run_flagsOff T (deserialize_flagsOff T h) calls) now

/-- Two contracts agree on the header `to_state_data` writes. -/
def SameHeader {G' : Type} (s : RootContract G) (s' : RootContract G') : Prop :=
  s.epoch = s'.epoch ∧ s.epochDuration = s'.epochDuration ∧ s.lastSubmission = s'.lastSubmission ∧
    s.verifySettlementState = s'.verifySettlementState ∧ s.submitSettlement = s'.submitSettlement

section
variable {G' : Type} (T' : GlobalTree G') {s : RootContract G} {s' : RootContract G'}

theorem SameHeader.toStateData_eq (h : SameHeader s s') : toStateData s = toStateData s' := by
  obtain ⟨h1, h2, h3, h4, h5⟩ := h
  simp only [toStateData, h1, h2, h3, h4, h5]

theorem SameHeader.gateClosed_iff (h : SameHeader s s') (now : UInt64) :
    s.gateClosed now ↔ s'.gateClosed now := by
  unfold gateClosed; rw [h.2.1, h.2.2.1]

/-- One call, whatever the trees: the headers stay equal and the gate gives the same answer. -/
theorem SameHeader.step (h : SameHeader s s') (c : Call) :
    SameHeader (step T s c) (step T' s' c) ∧ advances s c = advances s' c := by
  cases c with
  | trySubmitGlobalRoot now =>
    have hg := h.gateClosed_iff now
    rw [step_trySubmit, step_trySubmit]
    by_cases hc : s.gateClosed now
    · rw [if_pos hc, if_pos (hg.mp hc)]
      exact ⟨h, by simp [advances, hc, hg.mp hc]⟩
    · rw [if_neg hc, if_neg (mt hg.mpr hc)]
      exact ⟨⟨by rw [h.1], h.2.1, rfl, rfl, rfl⟩, by simp [advances, hc, mt hg.mpr hc]⟩
  | processIntermediateRoot | verifyTransaction => exact ⟨h, rfl⟩

/-- Over every run, whatever the trees: the same gate passes at the same times, and the same
header at the end. -/
theorem SameHeader.run (h : SameHeader s s') (calls : List Call) :
    advanceTimes T s calls = advanceTimes T' s' calls ∧ SameHeader (run T s calls) (run T' s' calls) := by
  induction calls generalizing s s' with
  | nil => exact ⟨rfl, h⟩
  | cons c cs ih =>
    obtain ⟨ih1, ih2⟩ := ih (h.step T T' c).1
    refine ⟨?_, ih2⟩
    cases c with
    | trySubmitGlobalRoot now =>
      by_cases hc : s.gateClosed now
      · simp only [advanceTimes, if_pos hc, if_pos ((h.gateClosed_iff now).mp hc), ih1]
      · simp only [advanceTimes, if_neg hc, if_neg (mt (h.gateClosed_iff now).mpr hc), ih1]
    | processIntermediateRoot | verifyTransaction => exact ih1

end

/-- A contract restored from its state data keeps the original's schedule under every sequence
of calls: the same calls pass the gate, at the same times, and the state data written after
them is the same, though the tree and the intermediate roots were lost. -/
theorem restore_keeps_schedule (s : RootContract G) (cells rest : List Bytes) :
    ∃ s', deserialize T ⟨cells, toStateData s :: rest⟩ = .ok s' ∧
      ∀ calls, advanceTimes T s' calls = advanceTimes T s calls ∧
        toStateData (run T s' calls) = toStateData (run T s calls) := by
  have h : SameHeader (restored T s) s := ⟨rfl, rfl, rfl, rfl, rfl⟩
  exact ⟨_, deserialize_header T s cells rest, fun calls =>
    ⟨(h.run T T calls).1, (h.run T T calls).2.toStateData_eq⟩⟩

/-- Any run from `new(d)` that processes one root: the restored contract no longer has it. -/
def oneRootContract : RootContract SparseMerkleTreeI :=
  (processIntermediateRoot smtGlobalTree (new smtGlobalTree 0) zeroHash zeroHash).1

theorem restore_drops_intermediate_root :
    oneRootContract.intermediateRoots.lookup zeroHash = some zeroHash ∧
      ∃ s', deserialize smtGlobalTree ⟨[], [toStateData oneRootContract]⟩ = .ok s' ∧
        s'.intermediateRoots.lookup zeroHash = none :=
  ⟨by simp [oneRootContract], _, deserialize_header _ _ _ _, rfl⟩

/-- A header whose epoch is `u64::MAX`, with duration 0, last submission 0 and both flags set. -/
def maxEpochHeader : Bytes := List.replicate 8 255 ++ List.replicate 16 0 ++ [1, 1]

/-- `deserialize` accepts the epoch `u64::MAX`; the next gate pass then increments it, which
wraps to 0 in a release build (and panics in a debug build). -/
theorem restored_max_epoch_wraps :
    ∃ s, deserialize smtGlobalTree ⟨[], [maxEpochHeader]⟩ = .ok s ∧ s.epoch.toNat = 2 ^ 64 - 1 ∧
      ¬ s.gateClosed 0 ∧ (trySubmitGlobalRoot smtGlobalTree s 0).1.epoch = 0 :=
  ⟨_, rfl, by decide⟩

theorem maxEpochHeader_reserializes :
    ∃ s, deserialize smtGlobalTree ⟨[], [maxEpochHeader]⟩ = .ok s ∧
      toStateData s = maxEpochHeader.take 24 ++
        [flagByte (maxEpochHeader.getD 24 0), flagByte (maxEpochHeader.getD 25 0)] :=
  ⟨_, rfl, toStateData_deserialize smtGlobalTree
    (rfl : deserialize smtGlobalTree ⟨[], [maxEpochHeader]⟩ = _)⟩

theorem maxEpoch_restore_never_emits :
    ∃ s, deserialize smtGlobalTree ⟨[], [maxEpochHeader]⟩ = .ok s ∧
      (trySubmitGlobalRoot smtGlobalTree (run smtGlobalTree s [.trySubmitGlobalRoot 0]) 0).2 = none ∧
      verifyTransaction (run smtGlobalTree s [.trySubmitGlobalRoot 0]) = .ok false :=
  ⟨_, rfl, run_from_deserialized_never_emits smtGlobalTree
    (rfl : deserialize smtGlobalTree ⟨[], [maxEpochHeader]⟩ = _) _ 0⟩

end Overpass.RootContract
