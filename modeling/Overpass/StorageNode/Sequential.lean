import Overpass.StorageNode.Consistency
import Mathlib.Logic.Relation

/-! The interleaved model refines the sequential one: a `store_update` whose steps run back to
back, with no other task between them, does what `StorageNode.storeUpdate` does; and since each
call holds the battery lock from its charge to its end, no two calls are ever in that stretch. -/
namespace Overpass.System

section
variable {bincode : BOC → Bytes} {responseThreshold : UInt64}

theorem bocsFree_set_store {s : System} (hf : s.BocsFree) {i : Nat} {b : BOC} {p : ZkProof}
    {pc : StorePc} (hpc : ∀ h, pc ≠ .lockProofs h) : (s.setTask i (.store b p pc)).BocsFree :=
  fun h ⟨b', p', hm⟩ => (List.mem_or_eq_of_mem_set hm).elim (fun hm => hf h ⟨b', p', hm⟩)
    fun he => hpc h (Task.store.inj he).2.2.symm

/-- The state a `store_update` leaves when it ends with `r`: its result recorded, nothing else
but the node touched. -/
def storeDone (s : System) (i : Nat) (b : BOC) (p : ZkProof) (n : StorageNode)
    (r : Except SystemError Unit) : System :=
  { s with node := n, tasks := s.tasks.set i (.store b p (.done r)) }

theorem ProofsFree.storeDone {s : System} (hp : s.ProofsFree) (i : Nat) (b : BOC) (p : ZkProof)
    (n : StorageNode) (r : Except SystemError Unit) : (storeDone s i b p n r).ProofsFree :=
  hp.setTask (t := .store b p (.done r)) nofun

@[simp] theorem storeDone_setTask (s : System) (i : Nat) (t : Task) (b : BOC) (p : ZkProof)
    (n : StorageNode) (r : Except SystemError Unit) :
    storeDone (s.setTask i t) i b p n r = storeDone s i b p n r := by
  simp only [storeDone, setTask, List.set_set]

/-- The battery lock and the charge, back to back. -/
theorem charge_steps {s : System} {i : Nat} {b : BOC} {p : ZkProof}
    (hi : s.tasks[i]? = some (.store b p .lockBattery)) (hb : s.BatteryFree) (charge : Except String Unit) :
    Relation.ReflTransGen (Step bincode responseThreshold) s
      (s.setTask i (.store b p (afterCharge bincode b p charge))) := by
  have h2 : Step bincode responseThreshold (s.setTask i (.store b p .charging)) _ :=
    .charge _ i b p charge (List.getElem?_set_self (List.getElem?_eq_some_iff.mp hi).1)
  rw [setTask_setTask] at h2
  exact (Relation.ReflTransGen.single (.lockBattery s i b p hi hb)).tail h2

/-- The two inserts, back to back, of a call past both checks. -/
theorem insert_steps {s : System} {i : Nat} {b : BOC} {p : ZkProof} {h : Hash}
    (hi : s.tasks[i]? = some (.store b p (.lockBocs h))) (hf : s.BocsFree) (hp : s.ProofsFree) :
    Relation.ReflTransGen (Step bincode responseThreshold) s (storeDone s i b p
      { s.node with storedBocs := s.node.storedBocs.insert h b, storedProofs := s.node.storedProofs.insert h p }
      (.ok ())) := by
  let s3 : System := { s with node := { s.node with storedBocs := s.node.storedBocs.insert h b },
                              tasks := s.tasks.set i (.store b p (.lockProofs h)) }
  have h4 : Step bincode responseThreshold s3 _ :=
    .insertProof s3 i b p h (List.getElem?_set_self (List.getElem?_eq_some_iff.mp hi).1)
      (hp.setTask (t := .store b p (.lockProofs h)) nofun)
  have hend : storeDone s i b p
      { s.node with storedBocs := s.node.storedBocs.insert h b, storedProofs := s.node.storedProofs.insert h p }
      (.ok ()) =
      { s3 with node := { s3.node with storedProofs := s3.node.storedProofs.insert h p },
                tasks := s3.tasks.set i (.store b p (.done (.ok ()))) } := by
    simp only [storeDone, s3, List.set_set]
  rw [hend]
  exact (Relation.ReflTransGen.single (.insertBoc s i b p h hi hf)).tail h4

/-- Run alone from its first await point, with the battery and both maps free, a
`store_update` ends with the node and the result `StorageNode.storeUpdate` gives, whatever the
battery answers and whatever the proof. -/
theorem store_steps_refine {s : System} {i : Nat} {b : BOC} {p : ZkProof}
    (hi : s.tasks[i]? = some (.store b p .lockBattery)) (hb : s.BatteryFree) (hf : s.BocsFree)
    (hp : s.ProofsFree) (charge : Except String Unit) :
    Relation.ReflTransGen (Step bincode responseThreshold) s
      (storeDone s i b p (StorageNode.storeUpdate bincode s.node charge b p).1
        (StorageNode.storeUpdate bincode s.node charge b p).2) := by
  have two : Relation.ReflTransGen (Step bincode responseThreshold) s _ := charge_steps hi hb charge
  cases charge with
  | error e => exact two
  | ok u =>
    by_cases hv : p.publicInputs = [(StorageNode.hashBocInternal bincode b).toList]
    · have hc : afterCharge bincode b p (.ok u) = .lockBocs (StorageNode.hashBocInternal bincode b) := by
        simp [afterCharge, StorageNode.verifyProofInternal_eq, hv]
      rw [hc] at two
      simp only [StorageNode.storeUpdate, StorageNode.verifyProofInternal_eq, hv, decide_True]
      rw [← storeDone_setTask s i (.store b p (.lockBocs (StorageNode.hashBocInternal bincode b)))]
      exact two.trans (insert_steps (List.getElem?_set_self (List.getElem?_eq_some_iff.mp hi).1)
        (bocsFree_set_store hf nofun) (hp.setTask nofun))
    · simpa [storeDone, StorageNode.storeUpdate, afterCharge, StorageNode.verifyProofInternal_eq, hv,
        setTask] using two

end

/-- At most one task holds the battery lock. -/
def BatteryExclusive (tasks : List Task) : Prop :=
  ∀ (i j : Nat) (t u : Task), tasks[i]? = some t → tasks[j]? = some u → t.holdsBattery = true →
    u.holdsBattery = true → i = j

theorem getElem?_set_eq_some {l : List Task} {i a : Nat} {t x : Task} (h : (l.set i t)[a]? = some x) :
    (a = i ∧ x = t) ∨ (a ≠ i ∧ l[a]? = some x) := by
  rw [List.getElem?_set] at h
  split_ifs at h with h1
  · exact .inl ⟨h1.symm, (Option.some_injective _ h).symm⟩
  · exact .inr ⟨Ne.symm h1, h⟩

namespace BatteryExclusive

variable {l : List Task} (hl : BatteryExclusive l)
include hl

theorem set {i : Nat} {t : Task}
    (ht : t.holdsBattery = true → ∀ (j : Nat) (u : Task), j ≠ i → l[j]? = some u → u.holdsBattery = false) :
    BatteryExclusive (l.set i t) := by
  intro a c ta tc ha hc hta htc
  rcases getElem?_set_eq_some ha with ⟨rfl, rfl⟩ | ⟨hai, ha'⟩ <;>
    rcases getElem?_set_eq_some hc with ⟨rfl, rfl⟩ | ⟨hci, hc'⟩
  · rfl
  · simp [ht hta c tc hci hc'] at htc
  · simp [ht htc a ta hai ha'] at hta
  · exact hl a c ta tc ha' hc' hta htc

theorem append {t : Task} (ht : t.holdsBattery = false) : BatteryExclusive (l ++ [t]) := by
  have key : ∀ (a : Nat) (x : Task), (l ++ [t])[a]? = some x → x.holdsBattery = true → l[a]? = some x := by
    intro a x h hx
    by_cases ha : a < l.length
    · rwa [List.getElem?_append_left ha] at h
    · rw [List.getElem?_append_right (by omega)] at h
      cases hk : a - l.length with
      | zero =>
        obtain rfl : t = x := by simpa [hk] using h
        simp [ht] at hx
      | succ k => simp [hk] at h
  exact fun a c ta tc ha hc hta htc => hl a c ta tc (key a ta ha hta) (key c tc hc htc) hta htc

theorem others {i : Nat} {t : Task} (hi : l[i]? = some t) (ht : t.holdsBattery = true) :
    ∀ (j : Nat) (u : Task), j ≠ i → l[j]? = some u → u.holdsBattery = false :=
  fun j u hj hu => Bool.eq_false_iff.mpr fun hu' => hj (hl j i u t hu hi hu' ht)

end BatteryExclusive

theorem holds_false_of_batteryFree {s : System} (hb : s.BatteryFree) :
    ∀ (j : Nat) (u : Task), s.tasks[j]? = some u → u.holdsBattery = false
  | _, .store b p pc, hu => hb b p pc (List.getElem?_mem hu)
  | _, .loop .., _ => rfl

section
variable {bincode : BOC → Bytes} {responseThreshold : UInt64}

/-- Every step keeps the battery lock exclusive. -/
theorem BatteryExclusive.step {s s' : System} (h : BatteryExclusive s.tasks)
    (hs : Step bincode responseThreshold s s') : BatteryExclusive s'.tasks := by
  cases hs with
  | callStore b p => exact h.append rfl
  | lockBattery i b p hi hb => exact h.set fun _ j u _ hu => holds_false_of_batteryFree hb j u hu
  | charge i b p o hi => exact h.set fun _ => h.others hi rfl
  | insertBoc i b p hh hi _ => exact h.set fun _ => h.others hi rfl
  | insertProof i b p hh hi _ => exact h.set fun _ => h.others hi rfl
  | retrieveBoc | retrieveProof | addPeer | removePeer | startInProgress | stop => exact h
  | start => exact h.append rfl
  | loopCheck i g d hi _ =>
    obtain ⟨pc, hpc⟩ := afterCheck_tasks responseThreshold s i g d
    rw [hpc]
    exact h.set nofun
  | loopVerify i g hh rest a d hi _ =>
    obtain ⟨pc, hpc⟩ := afterVerify_tasks s i g hh rest a d
    rw [hpc]
    exact h.set nofun
  | loopTop | loopBatchDone | loopBackoff | loopWake => exact h.set nofun

theorem Reachable.batteryExclusive {s : System} (hs : Reachable bincode responseThreshold s) :
    BatteryExclusive s.tasks := by
  induction hs with
  | init => exact fun _ _ _ _ h => by simp [System.init] at h
  | step _ h ih => exact ih.step h

/-- Under every interleaving from a fresh node, at most one `store_update` call is between its
charge and its end: admissions run one at a time. -/
theorem reachable_battery_exclusive {s : System} (hs : Reachable bincode responseThreshold s) :
    BatteryExclusive s.tasks :=
  hs.batteryExclusive

end

/-- A fresh node with two calls in flight: the first has inserted its BOC and holds
`stored_bocs`, the second waits on the battery. -/
def twoCalls : System :=
  let bocId := StorageNode.hashBocInternal (fun _ => []) BOC.new
  ⟨{ freshNode with storedBocs := freshNode.storedBocs.insert bocId BOC.new }, ⟨0, 0, 0⟩, false, 0,
    [.store BOC.new newBocProof (.lockProofs bocId), .store BOC.new ⟨[]⟩ .lockBattery]⟩

/-- The two calls, the first one's battery lock and charge, and its BOC insert. -/
theorem twoCalls_reachable : Reachable (fun _ => []) 1 twoCalls := by
  have r0 : Reachable (fun _ => []) 1 (init freshNode) := .init zeroHash StorageNode.minStake ∅ _ rfl
  have r2 := (r0.step (.callStore _ BOC.new newBocProof)).step (.callStore _ BOC.new ⟨[]⟩)
  have r3 := r2.step (.lockBattery _ 0 BOC.new newBocProof rfl fun _ _ _ h => by
    simp only [init, List.nil_append, List.singleton_append, List.mem_cons, List.mem_singleton,
      Task.store.injEq, List.not_mem_nil, or_false] at h
    rcases h with ⟨-, -, rfl⟩ | ⟨-, -, rfl⟩ <;> rfl)
  have r4 := r3.step (.charge _ 0 BOC.new newBocProof (.ok ()) rfl)
  rw [newBocProof_passes] at r4
  exact r4.step (.insertBoc _ 0 BOC.new newBocProof _ rfl (by simp [BocsFree, BetweenInserts, setTask, init]))

theorem twoCalls_battery_exclusive :
    Reachable (fun _ => []) 1 twoCalls ∧ BatteryExclusive twoCalls.tasks :=
  ⟨twoCalls_reachable, reachable_battery_exclusive twoCalls_reachable⟩

/-- A fresh node with one `store_update` call of `BOC::new()` and the proof that names its hash. -/
def storeStart : System := { init freshNode with tasks := [.store BOC.new newBocProof .lockBattery] }

theorem storeStart_refines :
    storeStart.BatteryFree ∧ storeStart.BocsFree ∧ storeStart.ProofsFree ∧
      Relation.ReflTransGen (Step (fun _ => []) 1) storeStart
        (storeDone storeStart 0 BOC.new newBocProof
          (StorageNode.storeUpdate (fun _ => []) storeStart.node (.ok ()) BOC.new newBocProof).1
          (StorageNode.storeUpdate (fun _ => []) storeStart.node (.ok ()) BOC.new newBocProof).2) :=
  have hb : storeStart.BatteryFree := fun _ _ _ h => by
    obtain ⟨-, -, rfl⟩ : _ ∧ _ ∧ _ := by simpa [storeStart] using h
    rfl
  have hf : storeStart.BocsFree := fun _ ⟨_, _, h⟩ => by simp [storeStart] at h
  have hp : storeStart.ProofsFree := fun _ h => by simp [storeStart] at h
  ⟨hb, hf, hp, store_steps_refine rfl hb hf hp (.ok ())⟩

end Overpass.System
