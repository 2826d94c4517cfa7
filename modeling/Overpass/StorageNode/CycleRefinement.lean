import Overpass.StorageNode.Lifecycle
import Mathlib.Logic.Relation

/-! The interleaved verification loop refines the sequential cycle: a loop task that runs its
cycle alone, from the `stored_bocs` lock of `check_response_verification` to the end of the
cycle, through every lookup, retry and backoff, leaves the metrics `Response.cycle` computes,
or stops at the wasm32 panic exactly where that cycle panics.
And whatever the loops do between each other's steps, each tally they make counts once in the
total and once as a success or a failure. -/
namespace Overpass.System

section
variable {bincode : BOC → Bytes} {responseThreshold : UInt64}

@[simp] theorem endCycle_setTask (s : System) (i g : Nat) (t : Task) (r : Except SystemError Unit)
    (d : Bool) : endCycle (s.setTask i t) i g r d = endCycle s i g r d := by
  simp only [endCycle, setTask, List.set_set]

theorem afterVerify_found {s : System} {h : Hash} (hf : Response.found s.node.storedProofs h = true)
    (i g : Nat) (rest : List Hash) (a : Nat) (d : Bool) :
    afterVerify s i g h rest a d = s.setTask i (.loop g .panicked) := by
  obtain ⟨p, hp⟩ := Option.isSome_iff_exists.mp hf
  simp [afterVerify, Response.verifySingleResponse, hp]

theorem afterVerify_missing {s : System} {h : Hash} (hf : Response.found s.node.storedProofs h = false)
    (i g : Nat) (rest : List Hash) (a : Nat) (d : Bool) :
    afterVerify s i g h rest a d =
      if a + 1 = Response.maxVerificationAttempts then endCycle s i g (.error Response.proofNotFound) d
      else s.setTask i (.loop g (.backoff (h :: rest) (a + 1))) := by
  have hn : s.node.storedProofs.lookup h = none :=
    Option.not_isSome_iff_eq_none.mp (by simpa [Response.found] using hf)
  simp only [afterVerify, Response.verifySingleResponse, hn]
  rfl

/-- A missing proof: three lookups with two backoffs between them, then the cycle ends with the
lookup's error and the metrics untouched. -/
theorem missing_steps {s : System} {i g : Nat} {h : Hash} {rest : List Hash}
    (hi : s.tasks[i]? = some (.loop g (.verify (h :: rest) 0)))
    (hf : Response.found s.node.storedProofs h = false) (hp : s.ProofsFree) (delay : Bool) :
    Relation.ReflTransGen (Step bincode responseThreshold) s
      (endCycle s i g (.error Response.proofNotFound) delay) := by
  have hl : i < s.tasks.length := (List.getElem?_eq_some_iff.mp hi).1
  have at_ : ∀ t : Task, (s.setTask i t).tasks[i]? = some t := fun t => List.getElem?_set_self hl
  have hf' : ∀ t : Task, Response.found (s.setTask i t).node.storedProofs h = false := fun _ => hf
  have hp' : ∀ ids a, (s.setTask i (.loop g (.verify ids a))).ProofsFree := fun _ _ => hp.setTask nofun
  have v0 : Step bincode responseThreshold s _ := .loopVerify s i g h rest 0 delay hi hp
  rw [afterVerify_missing hf, if_neg (by decide)] at v0
  have b1 : Step bincode responseThreshold (s.setTask i (.loop g (.backoff (h :: rest) 1))) _ :=
    .loopBackoff _ i g _ 1 (at_ _)
  have v1 : Step bincode responseThreshold (s.setTask i (.loop g (.verify (h :: rest) 1))) _ :=
    .loopVerify _ i g h rest 1 delay (at_ _) (hp' _ _)
  rw [afterVerify_missing (hf' _), if_neg (by decide)] at v1
  have b2 : Step bincode responseThreshold (s.setTask i (.loop g (.backoff (h :: rest) 2))) _ :=
    .loopBackoff _ i g _ 2 (at_ _)
  have v2 : Step bincode responseThreshold (s.setTask i (.loop g (.verify (h :: rest) 2))) _ :=
    .loopVerify _ i g h rest 2 delay (at_ _) (hp' _ _)
  rw [afterVerify_missing (hf' _), if_pos (by decide), endCycle_setTask] at v2
  simp only [setTask_setTask] at b1 v1 b2
  exact .tail (.tail (.tail (.tail (.single v0) b1) v1) b2) v2

/-- The batch of `verify_responses`, run alone, ends as `Response.verifyResponses` says: an
empty batch ends the cycle, a first proof found panics, a first proof missing fails the cycle. -/
theorem verify_steps {s : System} {i g : Nat} {ids : List Hash} (hi : s.tasks[i]? = some (.loop g (.verify ids 0)))
    (hp : s.ProofsFree) (delay : Bool) :
    Relation.ReflTransGen (Step bincode responseThreshold) s
      (match Response.verifyResponses s.node.storedProofs ids with
        | some r => endCycle s i g r delay
        | none => s.setTask i (.loop g .panicked)) := by
  match ids, hi with
  | [], hi => exact .single (.loopBatchDone s i g 0 delay hi)
  | h :: rest, hi =>
    cases hf : Response.found s.node.storedProofs h with
    | true =>
      have v : Step bincode responseThreshold s _ := .loopVerify s i g h rest 0 delay hi hp
      rw [afterVerify_found hf] at v
      simpa only [Response.verifyResponses_eq, hf] using .single v
    | false => simpa only [Response.verifyResponses_eq, hf] using missing_steps hi hf hp delay

/-- A loop task that runs one cycle alone, from the `stored_bocs` lock to the end of the cycle,
ends it with the metrics the sequential `Response.cycle` gives on the stored maps, and panics
exactly when that cycle does, whatever the maps, the threshold and the metrics before. -/
theorem cycle_steps_refine {s : System} {i g : Nat} (hi : s.tasks[i]? = some (.loop g .lockBocs))
    (hf : s.BocsFree) (hp : s.ProofsFree) (delay : Bool) :
    Relation.ReflTransGen (Step bincode responseThreshold) s
      ((Response.cycle s.node.storedBocs s.node.storedProofs responseThreshold s.metrics).elim
        (s.setTask i (.loop g .panicked))
        fun m => { s with metrics := m, tasks := s.tasks.set i (.loop g (afterCycle s.isVerifying delay)) }) := by
  have c : Step bincode responseThreshold s _ := .loopCheck s i g delay hi hf
  have key : Relation.ReflTransGen (Step bincode responseThreshold) s
      (match Response.checkResponseVerification s.node.storedBocs s.node.storedProofs responseThreshold with
        | some r => endCycle s i g r delay
        | none => s.setTask i (.loop g .panicked)) := by
    rw [Response.checkResponseVerification_branch]
    dsimp only [afterCheck] at c
    by_cases hs : (s.node.storedBocs.entries.map fun e => e.2.cells.length).sum > Response.maxResponseSize
    · rw [if_pos hs] at c
      rw [if_neg (by simp [Response.attempts, hs]), if_pos hs]
      exact .single c
    · rw [if_neg hs] at c
      by_cases ht : Response.asUsize responseThreshold ≤ s.node.storedBocs.entries.length
      · rw [if_pos ht] at c
        rw [if_pos (by simp [Response.attempts, hs, ht])]
        have hv : (s.setTask i (.loop g (.verify s.node.storedBocs.keys 0))).tasks[i]? =
            some (.loop g (.verify s.node.storedBocs.keys 0)) :=
          List.getElem?_set_self (List.getElem?_eq_some_iff.mp hi).1
        have ih : Relation.ReflTransGen (Step bincode responseThreshold) _ _ :=
          verify_steps hv (hp.setTask nofun) delay
        simp only [endCycle_setTask, setTask_setTask] at ih
        exact (Relation.ReflTransGen.single c).trans ih
      · rw [if_neg ht] at c
        rw [if_neg (by simp [Response.attempts, ht]), if_neg hs]
        exact .single c
  unfold Response.cycle
  generalize Response.checkResponseVerification s.node.storedBocs s.node.storedProofs responseThreshold = r at key
  cases r <;> exact key

end

/-- The cycle of `checkingNode`'s loop: its one stored hash has its proof, so the lookup panics. -/
theorem checkingNode_refines :
    checkingNode.BocsFree ∧ checkingNode.ProofsFree ∧
      Relation.ReflTransGen (Step (fun _ => []) 1) checkingNode
        ((Response.cycle checkingNode.node.storedBocs checkingNode.node.storedProofs 1 checkingNode.metrics).elim
          (checkingNode.setTask 1 (.loop 1 .panicked))
          fun m => { checkingNode with
            metrics := m, tasks := checkingNode.tasks.set 1 (.loop 1 (afterCycle checkingNode.isVerifying true)) }) :=
  have hf : checkingNode.BocsFree := by simp [BocsFree, BetweenInserts, checkingNode, oneAdmission]
  have hp : checkingNode.ProofsFree := by simp [ProofsFree, checkingNode, oneAdmission]
  ⟨hf, hp, cycle_steps_refine rfl hf hp true⟩

end Overpass.System

namespace Overpass.VerificationMetrics

/-- Every verification in the total is counted once as a success or a failure (in `u64`
arithmetic, as the source's `+= 1` wraps). -/
def Balanced (m : VerificationMetrics) : Prop :=
  m.totalVerifications = m.successfulVerifications + m.failedVerifications

variable {m : VerificationMetrics}

theorem Balanced.bumpSuccess (h : m.Balanced) : (Response.bumpSuccess m).Balanced := by
  unfold Balanced at *
  rw [Response.bumpSuccess, h]
  apply UInt64.ext; simp [UInt64.toNat_add, UInt64.size]; omega

theorem Balanced.bumpFailure (h : m.Balanced) : (Response.bumpFailure m).Balanced := by
  unfold Balanced at *
  rw [Response.bumpFailure, h]
  apply UInt64.ext; simp [UInt64.toNat_add, UInt64.size]; omega

theorem Balanced.recordCycle (h : m.Balanced) (r : Except SystemError Unit) :
    (Response.recordCycle m r).Balanced := by
  cases r with
  | error => exact h.bumpFailure
  | ok => exact h.bumpSuccess

end Overpass.VerificationMetrics

namespace Overpass.System

section
variable {bincode : BOC → Bytes} {responseThreshold : UInt64} {s s' : System}

theorem balanced_afterCheck (h : s.metrics.Balanced) (i g : Nat) (d : Bool) :
    (afterCheck responseThreshold s i g d).metrics.Balanced := by
  dsimp only [afterCheck]
  split <;> (try split)
  exacts [h.recordCycle _, h, h.recordCycle _]

theorem balanced_afterVerify (h : s.metrics.Balanced) (i g : Nat) (x : Hash) (rest : List Hash)
    (a : Nat) (d : Bool) : (afterVerify s i g x rest a d).metrics.Balanced := by
  cases hf : Response.found s.node.storedProofs x with
  | false => rw [afterVerify_missing hf]; split; exacts [h.recordCycle _, h]
  | true => rw [afterVerify_found hf]; exact h

theorem Step.balanced (hs : Step bincode responseThreshold s s') (h : s.metrics.Balanced) :
    s'.metrics.Balanced := by
  cases hs with
  | loopCheck i g d => exact balanced_afterCheck h i g d
  | loopVerify i g x rest a d => exact balanced_afterVerify h i g x rest a d
  | loopBatchDone => exact h.recordCycle _
  | _ => exact h

/-- Under every interleaving of loops, stale ones included, and calls on the node, the metrics'
total is the sum of the successes and the failures (as `u64` additions). -/
theorem reachable_metrics_balanced (hs : Reachable bincode responseThreshold s) :
    s.metrics.totalVerifications = s.metrics.successfulVerifications + s.metrics.failedVerifications := by
  induction hs with
  | init => rfl
  | step _ hs ih => exact hs.balanced ih

theorem restartState_metrics_balanced :
    Reachable (fun _ => []) 1 restartState ∧
      restartState.metrics.totalVerifications =
        restartState.metrics.successfulVerifications + restartState.metrics.failedVerifications :=
  ⟨restartState_reachable, reachable_metrics_balanced restartState_reachable⟩

end

end Overpass.System
