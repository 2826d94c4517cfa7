import Overpass.StorageNode.Progress
import Overpass.StorageNode.CycleRefinement

/-! Stopping drains the node as far as the wasm32 panic lets it. Once `stop_verification` has
lowered the flag, from every reachable state where `stored_proofs` is free, one run ends every
`store_update` call in flight and every loop task, stale ones included. A loop exits, or panics
at its first lookup, since every hash of a batch has its proof stored; a loop that comes to a
batch after such a panic waits on `stored_proofs` for good. -/
namespace Overpass.System

/-- A task that has ended: a call with its result, an exited loop, or a loop that panicked. -/
def Ended : Task → Prop
  | .store _ _ (.done _) | .loop _ .exited | .loop _ .panicked => True
  | _ => False

/-- A loop in a batch, which needs `stored_proofs` for its next lookup. -/
def Waiting : Task → Prop
  | .loop _ (.verify _ _) => True
  | _ => False

/-- Where a task may stop in state `s`: ended, or waiting on `stored_proofs` while a panicked
loop holds it. -/
def Settled (s : System) (t : Task) : Prop := Ended t ∨ (Waiting t ∧ ¬ s.ProofsFree)

theorem set_self_of_getElem? {l : List Task} {i : Nat} {t : Task} (h : l[i]? = some t) : l.set i t = l :=
  List.ext_getElem? fun k => by
    by_cases hk : i = k
    · subst hk; rw [List.getElem?_set_self (List.getElem?_eq_some_iff.mp h).1, h]
    · rw [List.getElem?_set_ne hk]

theorem bocsFree_of_storesDone {s : System} (h : StoresDone s.tasks) : s.BocsFree :=
  fun _ ⟨_, _, hm⟩ => by obtain ⟨_, hr⟩ := h _ _ _ hm; cases hr

theorem StoresDone.setLoop {l : List Task} (h : StoresDone l) (i g : Nat) (pc : LoopPc) :
    StoresDone (l.set i (.loop g pc)) :=
  fun b p pc hm => (List.mem_or_eq_of_mem_set hm).elim (h b p pc) nofun

theorem Frame.not_proofsFree {s s' : System} (hf : Frame s.tasks s'.tasks) (hp : ¬ s.ProofsFree) :
    ¬ s'.ProofsFree := fun hp' => hp fun g hm => by
  obtain ⟨k, hk⟩ := List.mem_iff_getElem?.mp hm
  obtain ⟨u, hu, rfl⟩ := hf.2 k _ hk
  exact hp' g (List.getElem?_mem hu)

theorem Settled.mono {s s' : System} {t : Task} (hf : Frame s.tasks s'.tasks) (h : Settled s t) :
    Settled s' t :=
  h.imp_right fun ⟨w, hp⟩ => ⟨w, hf.not_proofsFree hp⟩

section
variable {bincode : BOC → Bytes} {responseThreshold : UInt64} {s : System}

theorem Reachable.run {s' : System} (hs : Reachable bincode responseThreshold s)
    (hr : Relation.ReflTransGen (Step bincode responseThreshold) s s') : Reachable bincode responseThreshold s' := by
  induction hr with
  | refl => exact hs
  | tail _ st ih => exact ih.step st

variable (bincode responseThreshold) in
/-- A run of loop task `i` alone, from point `pc`, that ends with the flag down and the task
settled, only its own place in the task list changed. -/
def LoopSettles (s : System) (i g : Nat) (pc : LoopPc) : Prop :=
  ∃ s' pc', Relation.ReflTransGen (Step bincode responseThreshold) s s' ∧ s'.isVerifying = false ∧
    s'.tasks = s.tasks.set i (.loop g pc') ∧ StoreAfter (.loop g pc) (.loop g pc') ∧ Settled s (.loop g pc')

namespace LoopSettles

variable {i g : Nat} {pc : LoopPc}

theorem stay (hv : s.isVerifying = false) (hi : s.tasks[i]? = some (.loop g pc)) (h : Settled s (.loop g pc)) :
    LoopSettles bincode responseThreshold s i g pc :=
  ⟨s, pc, .refl, hv, (set_self_of_getElem? hi).symm, .refl _, h⟩

theorem exit {t : System} (c : Step bincode responseThreshold s t) (hv : t.isVerifying = false)
    (ht : t.tasks = s.tasks.set i (.loop g .exited)) (hpc : pc ≠ .panicked) :
    LoopSettles bincode responseThreshold s i g pc :=
  ⟨t, .exited, .single c, hv, ht, storeAfter_exited g hpc, .inl trivial⟩

/-- One step of the task to `q`, then a run that settles from there. -/
theorem cons {q : LoopPc} (c : Step bincode responseThreshold s (s.setTask i (.loop g q))) (hq : q ≠ .panicked)
    (hpq : StoreAfter (.loop g pc) (.loop g q))
    (h : LoopSettles bincode responseThreshold (s.setTask i (.loop g q)) i g q) :
    LoopSettles bincode responseThreshold s i g pc :=
  let ⟨s', pc', r, v, t, a, e⟩ := h
  ⟨s', pc', (Relation.ReflTransGen.single c).trans r, v, t.trans (List.set_set ..), hpq.trans a,
    e.imp_right fun ⟨w, hp⟩ => ⟨w, fun h => hp (h.setTask fun _ e => hq (Task.loop.inj e).2)⟩⟩

end LoopSettles

/-- A batch with the flag down: an empty one ends the cycle at the exit; otherwise its first hash
has its proof stored, so the lookup panics, unless a panicked loop already holds `stored_proofs`. -/
theorem verify_settles {i g a : Nat} {ids : List Hash} (hs : Reachable bincode responseThreshold s)
    (hv : s.isVerifying = false) (hi : s.tasks[i]? = some (.loop g (.verify ids a))) :
    LoopSettles bincode responseThreshold s i g (.verify ids a) := by
  cases ids with
  | nil => exact .exit (.loopBatchDone s i g a true hi) hv (by simp [endCycle, afterCycle, hv]) nofun
  | cons h rest =>
    by_cases hp : s.ProofsFree
    · have hm : h ∈ s.node.storedProofs :=
        hs.consistent.tasksOk _ (List.getElem?_mem hi) h (List.mem_cons_self h rest)
      have v : Step bincode responseThreshold s _ := .loopVerify s i g h rest a true hi hp
      rw [afterVerify_found (AList.lookup_isSome.mpr hm)] at v
      exact ⟨_, .panicked, .single v, hv, rfl, ⟨_, rfl⟩, .inl trivial⟩
    · exact .stay hv hi (.inr ⟨trivial, hp⟩)

/-- A cycle from the `stored_bocs` lock with the flag down: it ends at the exit, or its batch
settles. -/
theorem check_settles {i g : Nat} (hs : Reachable bincode responseThreshold s) (hv : s.isVerifying = false)
    (hf : s.BocsFree) (hi : s.tasks[i]? = some (.loop g .lockBocs)) :
    LoopSettles bincode responseThreshold s i g .lockBocs := by
  have c : Step bincode responseThreshold s _ := .loopCheck s i g true hi hf
  have ends : ∀ r, Step bincode responseThreshold s (endCycle s i g r true) →
      LoopSettles bincode responseThreshold s i g .lockBocs :=
    fun _ c => .exit c hv (by simp [endCycle, afterCycle, hv]) nofun
  dsimp only [afterCheck] at c
  split at c
  · exact ends _ c
  · split at c
    · exact .cons c nofun ⟨_, rfl⟩
        (verify_settles (hs.step c) hv (List.getElem?_set_self (List.getElem?_eq_some_iff.mp hi).1))
    · exact ends _ c

/-- With the flag down and `stored_bocs` free, a loop task at any point settles. -/
theorem loop_settles {i g : Nat} {pc : LoopPc} (hs : Reachable bincode responseThreshold s)
    (hv : s.isVerifying = false) (hf : s.BocsFree) (hi : s.tasks[i]? = some (.loop g pc)) :
    LoopSettles bincode responseThreshold s i g pc := by
  have hl : i < s.tasks.length := (List.getElem?_eq_some_iff.mp hi).1
  have top : ∀ {s : System}, s.isVerifying = false → s.tasks[i]? = some (.loop g .top) →
      Step bincode responseThreshold s (s.setTask i (.loop g .exited)) := fun hv hi => by
    have c : Step bincode responseThreshold _ _ := .loopTop _ i g hi
    simpa only [hv, Bool.false_eq_true, if_false] using c
  cases pc with
  | exited | panicked => exact .stay hv hi (.inl trivial)
  | top => exact .exit (top hv hi) hv rfl nofun
  | sleeping =>
    exact .cons (.loopWake s i g hi) nofun ⟨_, rfl⟩ (.exit (top hv (List.getElem?_set_self hl)) hv rfl nofun)
  | lockBocs => exact check_settles hs hv hf hi
  | verify ids a => exact verify_settles hs hv hi
  | backoff ids a =>
    have c : Step bincode responseThreshold s _ := .loopBackoff s i g ids a hi
    exact .cons c nofun ⟨_, rfl⟩ (verify_settles (hs.step c) hv (List.getElem?_set_self hl))

/-- With the flag down and no call in flight, the loops at the first `k` positions settle one
after the other. -/
theorem settle_prefix (hs : Reachable bincode responseThreshold s) (hv : s.isVerifying = false)
    (hd : StoresDone s.tasks) : ∀ k : Nat,
    ∃ s', Relation.ReflTransGen (Step bincode responseThreshold) s s' ∧ Reachable bincode responseThreshold s' ∧
      s'.isVerifying = false ∧ StoresDone s'.tasks ∧ Frame s.tasks s'.tasks ∧
      ∀ i < k, ∀ g pc, s.tasks[i]? = some (.loop g pc) → ∃ u, s'.tasks[i]? = some u ∧ Settled s' u
  | 0 => ⟨s, .refl, hs, hv, hd, .refl _, fun _ h => absurd h (Nat.not_lt_zero _)⟩
  | k + 1 => by
    obtain ⟨s₁, r₁, h₁, v₁, d₁, f₁, e₁⟩ := settle_prefix hs hv hd k
    obtain ⟨s₂, r₂, v₂, d₂, f₂, t₂, e₂⟩ :
        ∃ s₂, Relation.ReflTransGen (Step bincode responseThreshold) s₁ s₂ ∧ s₂.isVerifying = false ∧
        StoresDone s₂.tasks ∧ Frame s₁.tasks s₂.tasks ∧ (∀ i, i ≠ k → s₂.tasks[i]? = s₁.tasks[i]?) ∧
        ∀ g pc, s.tasks[k]? = some (.loop g pc) → ∃ u, s₂.tasks[k]? = some u ∧ Settled s₂ u := by
      cases hk : s.tasks[k]? with
      | some t =>
        cases t with
        | loop g pc =>
          obtain ⟨u, hu, hl⟩ := f₁.2 k _ hk
          obtain ⟨pc', rfl⟩ := storeAfter_loop hl
          obtain ⟨s₂, pc'', hr, hv₂, ht, ha, he⟩ := loop_settles h₁ v₁ (bocsFree_of_storesDone d₁) hu
          have f₂ : Frame s₁.tasks s₂.tasks := ht ▸ Frame.set hu ha
          refine ⟨s₂, hr, hv₂, ht ▸ d₁.setLoop k g pc'', f₂,
            fun i hik => by rw [ht, List.getElem?_set_ne (Ne.symm hik)], fun _ _ h => ?_⟩
          cases h
          exact ⟨_, by rw [ht]; exact List.getElem?_set_self (List.getElem?_eq_some_iff.mp hu).1, he.mono f₂⟩
        | store => exact ⟨s₁, .refl, v₁, d₁, .refl _, fun _ _ => rfl, fun _ _ h => by cases h⟩
      | none => exact ⟨s₁, .refl, v₁, d₁, .refl _, fun _ _ => rfl, fun _ _ h => by cases h⟩
    refine ⟨s₂, r₁.trans r₂, h₁.run r₂, v₂, d₂, f₁.trans f₂, fun i hi g pc h => ?_⟩
    rcases Nat.lt_succ_iff_lt_or_eq.mp hi with hi | rfl
    · obtain ⟨u, hu, he⟩ := e₁ i hi g pc h
      exact ⟨u, (t₂ i (by omega)).trans hu, he.mono f₂⟩
    · exact e₂ g pc h

/-- Under every interleaving from a fresh node, `stop_verification` drains the node unless a
loop has panicked before it: after it, one run ends each call in flight with its result and
takes each loop (stale ones included) to its exit or to its panic, keeping every task where it
was, adding none, and leaving the flag down. A loop it leaves in a batch waits on
`stored_proofs`, which a panicked loop holds for good. -/
theorem stop_drains (hs : Reachable bincode responseThreshold s) (hp : s.ProofsFree) :
    ∃ s', Relation.ReflTransGen (Step bincode responseThreshold) { s with isVerifying := false } s' ∧
      s'.isVerifying = false ∧ Frame s.tasks s'.tasks ∧
      ∀ t ∈ s'.tasks, Ended t ∨ (Waiting t ∧ ¬ s'.ProofsFree) := by
  have hs₀ : Reachable bincode responseThreshold { s with isVerifying := false } := hs.step (.stop s)
  obtain ⟨s₁, r₁, v₁, f₁, -, d₁⟩ := finish_stores hs₀.batteryExclusive hp
  obtain ⟨s₂, r₂, -, v₂, d₂, f₂, e₂⟩ := settle_prefix (hs₀.run r₁) v₁ d₁ s₁.tasks.length
  refine ⟨s₂, r₁.trans r₂, v₂, f₁.trans f₂, fun t ht => ?_⟩
  obtain ⟨k, hk⟩ := List.mem_iff_getElem?.mp ht
  obtain ⟨u, hu⟩ : ∃ u, s₁.tasks[k]? = some u :=
    ⟨_, List.getElem?_eq_getElem (f₂.1 ▸ (List.getElem?_eq_some_iff.mp hk).1)⟩
  cases u with
  | loop g pc =>
    obtain ⟨v, hv, he⟩ := e₂ k (List.getElem?_eq_some_iff.mp hu).1 g pc hu
    rw [hv] at hk
    cases hk
    exact he
  | store b p pc =>
    obtain ⟨v, hv, hl⟩ := f₂.2 k _ hu
    obtain ⟨pc', rfl⟩ := storeAfter_store hl
    rw [hv] at hk
    cases hk
    obtain ⟨r, rfl⟩ := d₂ b p pc' (List.getElem?_mem hv)
    exact .inl trivial

end

/-- The two calls of `twoCalls` and a started loop at the `stored_bocs` lock. -/
def busyNode : System := ⟨twoCalls.node, ⟨0, 0, 0⟩, true, 1, twoCalls.tasks ++ [.loop 1 .lockBocs]⟩

theorem busyNode_reachable : Reachable (fun _ => []) 1 busyNode :=
  (twoCalls_reachable.step (.start _ rfl)).step (.loopTop _ 2 1 rfl)

theorem busyNode_drains :
    Reachable (fun _ => []) 1 busyNode ∧ busyNode.ProofsFree ∧
      ∃ s', Relation.ReflTransGen (Step (fun _ => []) 1) { busyNode with isVerifying := false } s' ∧
        s'.isVerifying = false ∧ Frame busyNode.tasks s'.tasks ∧
        ∀ t ∈ s'.tasks, Ended t ∨ (Waiting t ∧ ¬ s'.ProofsFree) :=
  have hp : busyNode.ProofsFree := fun _ h => by simp [busyNode, twoCalls] at h
  ⟨busyNode_reachable, hp, stop_drains busyNode_reachable hp⟩

end Overpass.System
