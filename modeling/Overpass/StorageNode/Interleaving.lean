import Overpass.StorageNode.Response

/-! The storage node's concurrent tasks, cut at their await points: `store_update` calls,
retrievals, peer updates, and the verification loops `start_verification` spawns, all on the
same maps. A step runs one task from one await point to the next. -/
namespace Overpass

/-- Where a `store_update` call stands. `charging` holds the battery; `lockBocs` has passed
both checks; `lockProofs` has inserted the BOC and holds `stored_bocs` while it waits for
`stored_proofs`. -/
inductive StorePc
  | lockBattery
  | charging
  | lockBocs (bocId : Hash)
  | lockProofs (bocId : Hash)
  | done (r : Except SystemError Unit)

def StorePc.holdsBattery : StorePc → Bool
  | .charging | .lockBocs _ | .lockProofs _ => true
  | _ => false

/-- Where a verification loop task stands: at the loop-top flag check, at the `stored_bocs`
lock of `check_response_verification`, at the `stored_proofs` lock of `verify_single_response`
with the hashes still to verify, in a retry backoff, in the end-of-cycle sleep, or stopped for
good by the wasm32 panic of `std::time::Instant::now()` after a lookup that found its proof,
still holding `stored_proofs` (the panic aborts without dropping the guard). -/
inductive LoopPc
  | top
  | lockBocs
  | verify (ids : List Hash) (attempts : Nat)
  | backoff (ids : List Hash) (attempts : Nat)
  | sleeping
  | exited
  | panicked

inductive Task
  | store (boc : BOC) (proof : ZkProof) (pc : StorePc)
  | loop (generation : Nat) (pc : LoopPc)

def Task.generation : Task → Option Nat
  | .loop g _ => some g
  | .store .. => none

def Task.holdsBattery : Task → Bool
  | .store _ _ pc => pc.holdsBattery
  | .loop .. => false

structure System where
  node : StorageNode
  metrics : VerificationMetrics
  isVerifying : Bool
  starts : Nat
  tasks : List Task

namespace System

def setTask (s : System) (i : Nat) (t : Task) : System := { s with tasks := s.tasks.set i t }

@[simp] theorem setTask_setTask (s : System) (i : Nat) (t u : Task) :
    (s.setTask i t).setTask i u = s.setTask i u := by
  simp only [setTask, List.set_set]

def BatteryFree (s : System) : Prop := ∀ b p pc, Task.store b p pc ∈ s.tasks → pc.holdsBattery = false

def BetweenInserts (s : System) (bocId : Hash) : Prop := ∃ b p, Task.store b p (.lockProofs bocId) ∈ s.tasks

/-- `stored_bocs` is free: the only task that holds it across an await is a `store_update`
between its inserts. -/
def BocsFree (s : System) : Prop := ∀ bocId, ¬ s.BetweenInserts bocId

/-- `stored_proofs` is free: the only task that holds it across steps is a loop that panicked
inside `verify_single_response`, which never releases it. -/
def ProofsFree (s : System) : Prop := ∀ g, Task.loop g .panicked ∉ s.tasks

theorem ProofsFree.setTask {s : System} (h : s.ProofsFree) {i : Nat} {t : Task}
    (ht : ∀ g, t ≠ .loop g .panicked) : (s.setTask i t).ProofsFree :=
  fun g hm => (List.mem_or_eq_of_mem_set hm).elim (h g) fun e => ht g e.symm

def afterCycle (isVerifying delay : Bool) : LoopPc :=
  if delay then (if isVerifying then .sleeping else .exited) else .top

def endCycle (s : System) (i g : Nat) (r : Except SystemError Unit) (delay : Bool) : System :=
  { s with metrics := Response.recordCycle s.metrics r,
           tasks := s.tasks.set i (.loop g (afterCycle s.isVerifying delay)) }

section
variable (bincode : BOC → Bytes) (responseThreshold : UInt64)

def afterCharge (b : BOC) (p : ZkProof) : Except String Unit → StorePc
  | .error e => .done (.error ⟨.batteryError, e⟩)
  | .ok () =>
    match StorageNode.verifyProofInternal bincode p b with
    | .error e => .done (.error e)
    | .ok false => .done (.error ⟨.invalidProof, "Invalid proof"⟩)
    | .ok true => .lockBocs (StorageNode.hashBocInternal bincode b)

/-- `check_response_verification` once it holds `stored_bocs`: the size ceiling, then the
threshold, the hashes collected while the lock is held. -/
def afterCheck (s : System) (i g : Nat) (delay : Bool) : System :=
  let bocs := s.node.storedBocs
  if (bocs.entries.map fun e => e.2.cells.length).sum > Response.maxResponseSize then
    endCycle s i g (.error ⟨.invalidInput, "Response size exceeds maximum allowed"⟩) delay
  else if Response.asUsize responseThreshold ≤ bocs.entries.length then
    s.setTask i (.loop g (.verify bocs.keys 0))
  else endCycle s i g (.ok ()) delay

/-- One attempt of `verify_single_response` on the head hash, and the retry bookkeeping; a
lookup that finds its proof panics. -/
def afterVerify (s : System) (i g : Nat) (h : Hash) (rest : List Hash) (attempts : Nat)
    (delay : Bool) : System :=
  match Response.verifySingleResponse s.node.storedProofs h with
  | none => s.setTask i (.loop g .panicked)
  | some (.ok ()) => s.setTask i (.loop g (.verify rest 0))
  | some (.error e) =>
    if attempts + 1 = Response.maxVerificationAttempts then endCycle s i g (.error e) delay
    else s.setTask i (.loop g (.backoff (h :: rest) (attempts + 1)))

theorem afterCheck_tasks (s : System) (i g : Nat) (delay : Bool) :
    ∃ pc, (afterCheck responseThreshold s i g delay).tasks = s.tasks.set i (.loop g pc) := by
  dsimp only [afterCheck, endCycle]
  split <;> (try split) <;> exact ⟨_, rfl⟩

theorem afterVerify_tasks (s : System) (i g : Nat) (h : Hash) (rest : List Hash) (attempts : Nat)
    (delay : Bool) : ∃ pc, (afterVerify s i g h rest attempts delay).tasks = s.tasks.set i (.loop g pc) := by
  dsimp only [afterVerify, endCycle]
  split <;> (try split) <;> exact ⟨_, rfl⟩

/-- One step of one task, or one call made on the node. The boolean `delay` is whether the
cycle took less than `response_interval`, which depends on wall-clock time; if so the loop enters
`delay_with_cancellation`, which breaks it when the flag is down and sleeps otherwise. -/
inductive Step : System → System → Prop
  | callStore (s : System) (b : BOC) (p : ZkProof) :
      Step s { s with tasks := s.tasks ++ [.store b p .lockBattery] }
  | lockBattery (s : System) (i : Nat) (b : BOC) (p : ZkProof) :
      s.tasks[i]? = some (.store b p .lockBattery) → s.BatteryFree →
      Step s (s.setTask i (.store b p .charging))
  | charge (s : System) (i : Nat) (b : BOC) (p : ZkProof) (outcome : Except String Unit) :
      s.tasks[i]? = some (.store b p .charging) →
      Step s (s.setTask i (.store b p (afterCharge bincode b p outcome)))
  | insertBoc (s : System) (i : Nat) (b : BOC) (p : ZkProof) (h : Hash) :
      s.tasks[i]? = some (.store b p (.lockBocs h)) → s.BocsFree →
      Step s { s with node := { s.node with storedBocs := s.node.storedBocs.insert h b },
                      tasks := s.tasks.set i (.store b p (.lockProofs h)) }
  | insertProof (s : System) (i : Nat) (b : BOC) (p : ZkProof) (h : Hash) :
      s.tasks[i]? = some (.store b p (.lockProofs h)) → s.ProofsFree →
      Step s { s with node := { s.node with storedProofs := s.node.storedProofs.insert h p },
                      tasks := s.tasks.set i (.store b p (.done (.ok ()))) }
  | retrieveBoc (s : System) (bocId : Hash) : s.BocsFree → Step s s
  | retrieveProof (s : System) (proofId : Hash) : s.ProofsFree → Step s s
  | addPeer (s : System) (peer : Hash) : Step s { s with node := s.node.addPeer peer }
  | removePeer (s : System) (peer : Hash) : Step s { s with node := s.node.removePeer peer }
  | start (s : System) : s.isVerifying = false →
      Step s { s with isVerifying := true, starts := s.starts + 1,
                      tasks := s.tasks ++ [.loop (s.starts + 1) .top] }
  | startInProgress (s : System) : s.isVerifying = true → Step s s
  | stop (s : System) : Step s { s with isVerifying := false }
  | loopTop (s : System) (i g : Nat) : s.tasks[i]? = some (.loop g .top) →
      Step s (s.setTask i (.loop g (if s.isVerifying then .lockBocs else .exited)))
  | loopCheck (s : System) (i g : Nat) (delay : Bool) : s.tasks[i]? = some (.loop g .lockBocs) →
      s.BocsFree → Step s (afterCheck responseThreshold s i g delay)
  | loopVerify (s : System) (i g : Nat) (h : Hash) (rest : List Hash) (attempts : Nat) (delay : Bool) :
      s.tasks[i]? = some (.loop g (.verify (h :: rest) attempts)) → s.ProofsFree →
      Step s (afterVerify s i g h rest attempts delay)
  | loopBatchDone (s : System) (i g attempts : Nat) (delay : Bool) :
      s.tasks[i]? = some (.loop g (.verify [] attempts)) → Step s (endCycle s i g (.ok ()) delay)
  | loopBackoff (s : System) (i g : Nat) (ids : List Hash) (attempts : Nat) :
      s.tasks[i]? = some (.loop g (.backoff ids attempts)) →
      Step s (s.setTask i (.loop g (.verify ids attempts)))
  | loopWake (s : System) (i g : Nat) : s.tasks[i]? = some (.loop g .sleeping) →
      Step s (s.setTask i (.loop g .top))

def init (n : StorageNode) : System := ⟨n, ⟨0, 0, 0⟩, false, 0, []⟩

/-- The states some interleaving reaches from a node `StorageNode::new` accepted. -/
inductive Reachable : System → Prop
  | init (nodeId : Hash) (stake : UInt64) (peers : Finset Hash) (n : StorageNode) :
      StorageNode.new nodeId stake peers = .ok n → Reachable (init n)
  | step {s s' : System} : Reachable s → Step bincode responseThreshold s s' → Reachable s'

end

end System

end Overpass
