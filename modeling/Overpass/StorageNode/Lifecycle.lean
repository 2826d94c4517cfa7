import Overpass.StorageNode.Consistency

/-! The verification loop's lifecycle under `start_verification` and `stop_verification`:
the shared flag is the only thing a loop task checks, so a stop followed by a start before an
old task looks at the flag leaves that task cycling beside the new one. -/
namespace Overpass.System

theorem bocsFree_of_no_store {s : System} (h : ∀ b p pc, Task.store b p pc ∉ s.tasks) :
    s.BocsFree :=
  fun _ ⟨b, p, hm⟩ => h b p _ hm

/-- The generations of the loop tasks, in spawn order. -/
def loopGenerations (tasks : List Task) : List Nat := tasks.filterMap Task.generation

theorem loopGenerations_set {l : List Task} {i : Nat} {u t : Task} (hi : l[i]? = some u)
    (ht : t.generation = u.generation) : loopGenerations (l.set i t) = loopGenerations l := by
  induction l generalizing i with
  | nil => simp at hi
  | cons x l ih =>
    cases i with
    | zero =>
      obtain rfl : x = u := by simpa using hi
      simp only [loopGenerations, List.set_cons_zero, List.filterMap_cons, ht]
    | succ i =>
      have := ih (by simpa using hi)
      simp only [loopGenerations, List.set_cons_succ, List.filterMap_cons] at this ⊢
      rw [this]

theorem afterCycle_exited {v d : Bool} (h : afterCycle v d = .exited) : v = false := by
  cases v <;> cases d <;> first | rfl | cases h

/-- What `start_verification`'s compare-and-swap keeps of the loop tasks: exactly one per
successful start, in spawn order, and while the flag is up the latest one has not exited. -/
structure LoopsNumbered (s : System) : Prop where
  numbered : loopGenerations s.tasks = List.range' 1 s.starts
  latestRuns : s.isVerifying = true → ∃ pc, pc ≠ .exited ∧ Task.loop s.starts pc ∈ s.tasks

namespace LoopsNumbered

variable {s : System} (hs : LoopsNumbered s)
include hs

theorem setStore {i : Nat} {b : BOC} {p : ZkProof} {pc : StorePc}
    (hi : s.tasks[i]? = some (.store b p pc)) (n : StorageNode) (pc' : StorePc) :
    LoopsNumbered { s with node := n, tasks := s.tasks.set i (.store b p pc') } := by
  refine ⟨(@loopGenerations_set _ _ _ (.store b p pc') hi rfl).trans hs.numbered, fun hv => ?_⟩
  obtain ⟨pc, hpc, hm⟩ := hs.latestRuns hv
  exact ⟨pc, hpc, mem_set_of_ne hm hi nofun⟩

theorem setLoop {i g : Nat} {pc pc' : LoopPc} (hi : s.tasks[i]? = some (.loop g pc))
    (hx : pc' = .exited → s.isVerifying = false) (m : VerificationMetrics) :
    LoopsNumbered { s with metrics := m, tasks := s.tasks.set i (.loop g pc') } := by
  refine ⟨(@loopGenerations_set _ _ _ (.loop g pc') hi rfl).trans hs.numbered, fun hv => ?_⟩
  obtain ⟨pc0, hpc0, hm⟩ := hs.latestRuns hv
  by_cases he : Task.loop s.starts pc0 = .loop g pc
  · obtain ⟨rfl, -⟩ := Task.loop.inj he
    exact ⟨pc', fun h => by simp [hx h] at hv, mem_set_self hi⟩
  · exact ⟨pc0, hpc0, mem_set_of_ne hm hi he⟩

end LoopsNumbered

section
variable {bincode : BOC → Bytes} {responseThreshold : UInt64}

theorem LoopsNumbered.afterCheck {s : System} (hs : LoopsNumbered s) {i g : Nat} (d : Bool)
    (hi : s.tasks[i]? = some (.loop g .lockBocs)) : LoopsNumbered (afterCheck responseThreshold s i g d) := by
  dsimp only [System.afterCheck, endCycle]
  split
  · exact hs.setLoop hi afterCycle_exited _
  · split
    · exact hs.setLoop hi (by intro h; cases h) s.metrics
    · exact hs.setLoop hi afterCycle_exited _

theorem LoopsNumbered.afterVerify {s : System} (hs : LoopsNumbered s) {i g : Nat} {h : Hash}
    {rest : List Hash} {a : Nat} (d : Bool) (hi : s.tasks[i]? = some (.loop g (.verify (h :: rest) a))) :
    LoopsNumbered (afterVerify s i g h rest a d) := by
  dsimp only [System.afterVerify, endCycle]
  split
  · exact hs.setLoop hi (by intro h; cases h) s.metrics
  · exact hs.setLoop hi (by intro h; cases h) s.metrics
  · split
    · exact hs.setLoop hi afterCycle_exited _
    · exact hs.setLoop hi (by intro h; cases h) s.metrics

/-- Every step keeps the loop tasks numbered by their starts. -/
theorem LoopsNumbered.step {s s' : System} (hs : LoopsNumbered s)
    (h : Step bincode responseThreshold s s') : LoopsNumbered s' := by
  cases h with
  | callStore b p =>
    have hn : List.filterMap Task.generation s.tasks = _ := hs.numbered
    refine ⟨by simp [loopGenerations, List.filterMap_append, Task.generation, hn], fun hv => ?_⟩
    obtain ⟨pc, hpc, hm⟩ := hs.latestRuns hv
    exact ⟨pc, hpc, List.mem_append_left _ hm⟩
  | lockBattery i b p hi _ => exact hs.setStore hi s.node _
  | charge i b p o hi => exact hs.setStore hi s.node _
  | insertBoc i b p h hi _ => exact hs.setStore hi _ _
  | insertProof i b p h hi _ => exact hs.setStore hi _ _
  | retrieveBoc | retrieveProof | startInProgress => exact hs
  | addPeer | removePeer => exact ⟨hs.numbered, hs.latestRuns⟩
  | start hv =>
    refine ⟨?_, fun _ => ⟨.top, nofun, List.mem_append_right _ (List.mem_singleton_self _)⟩⟩
    have hn : List.filterMap Task.generation s.tasks = _ := hs.numbered
    simp only [loopGenerations, List.filterMap_append, hn, Task.generation, List.filterMap_cons,
      List.filterMap_nil]
    rw [List.range'_concat, Nat.one_mul, Nat.add_comm 1]
  | stop => exact ⟨hs.numbered, nofun⟩
  | loopTop i g hi => exact hs.setLoop hi (by split <;> simp_all) s.metrics
  | loopCheck i g d hi _ => exact hs.afterCheck d hi
  | loopVerify i g h rest a d hi _ => exact hs.afterVerify d hi
  | loopBatchDone i g a d hi => exact hs.setLoop hi afterCycle_exited _
  | loopBackoff i g ids a hi => exact hs.setLoop hi (by intro h; cases h) s.metrics
  | loopWake i g hi => exact hs.setLoop hi (by intro h; cases h) s.metrics

/-- After `start`, one cycle that ends in the sleep, `stop`, `start` again and one loop-top
check of the new task, the first task wakes at its loop top. -/
def restartState : System :=
  ⟨freshNode, ⟨1, 1, 0⟩, true, 2, [.loop 1 .top, .loop 2 .lockBocs]⟩

theorem restartState_reachable : Reachable (fun _ => []) 1 restartState := by
  have h0 : Reachable (fun _ => []) 1 (init freshNode) := .init zeroHash StorageNode.minStake ∅ _ rfl
  have h1 := h0.step (.start _ rfl)
  have h2 := h1.step (.loopTop _ 0 1 rfl)
  have h3 := h2.step (.loopCheck _ 0 1 true rfl (bocsFree_of_no_store (by simp [setTask, init])))
  have h4 := h3.step (.stop _)
  have h5 := h4.step (.start _ rfl)
  exact (h5.step (.loopTop _ 1 2 rfl)).step (.loopWake _ 0 1 rfl)

/-- Under every interleaving of starts, stops, calls and loop steps from a fresh node, there
is exactly one loop task per successful `start_verification`, in order, and while the flag is
up the task of the latest start is still running. -/
theorem reachable_loops_numbered {s : System} (hs : Reachable bincode responseThreshold s) :
    LoopsNumbered s := by
  induction hs with
  | init => exact ⟨rfl, nofun⟩
  | step _ h ih => exact ih.step h

end

theorem restartState_loops_numbered :
    Reachable (fun _ => []) 1 restartState ∧ LoopsNumbered restartState :=
  ⟨restartState_reachable, reachable_loops_numbered restartState_reachable⟩

/-- The schedule of `restartState` reaches it, and there the task of the first `start` passes
its loop-top check after the second `start` and enters a cycle while the second task is in one. -/
theorem stale_loop_passes_top :
    Reachable (fun _ => []) 1 restartState ∧ restartState.starts = 2 ∧
      Step (fun _ => []) 1 restartState
        { restartState with tasks := [.loop 1 .lockBocs, .loop 2 .lockBocs] } :=
  ⟨restartState_reachable, rfl, .loopTop _ 0 1 rfl⟩

end Overpass.System
