import Overpass.StorageNode.Sequential
import Overpass.StorageNode.Admissions

/-! The admissions never deadlock. A `store_update` call waits only on the battery lock and on
`stored_bocs`, both held by the one call past its charge, and that call can always go on: so
from every reachable state one run finishes every call in flight and leaves both locks free. -/
namespace Overpass.System

/-- Where task `t` may stand after a run: a call keeps its arguments and, once finished, its
result; a loop stays a loop of its generation and, once exited or panicked, stays so. -/
def StoreAfter : Task → Task → Prop
  | .store b p (.done r), u => u = .store b p (.done r)
  | .store b p _, u => ∃ pc, u = .store b p pc
  | .loop g .exited, u => u = .loop g .exited
  | .loop g .panicked, u => u = .loop g .panicked
  | .loop g _, u => ∃ pc, u = .loop g pc

theorem StoreAfter.refl : ∀ t : Task, StoreAfter t t
  | .store _ _ (.done _) | .loop _ .exited | .loop _ .panicked => rfl
  | .store _ _ .lockBattery | .store _ _ .charging | .store _ _ (.lockBocs _)
  | .store _ _ (.lockProofs _) | .loop _ .top | .loop _ .lockBocs | .loop _ (.verify _ _)
  | .loop _ (.backoff _ _) | .loop _ .sleeping => ⟨_, rfl⟩

theorem storeAfter_store {b : BOC} {p : ZkProof} {pc : StorePc} {u : Task}
    (h : StoreAfter (.store b p pc) u) : ∃ pc', u = .store b p pc' := by
  cases pc <;> first | exact ⟨_, h⟩ | exact h

theorem storeAfter_loop {g : Nat} {pc : LoopPc} {u : Task}
    (h : StoreAfter (.loop g pc) u) : ∃ pc', u = .loop g pc' := by
  cases pc <;> first | exact ⟨_, h⟩ | exact h

theorem storeAfter_exited (g : Nat) {pc : LoopPc} (h : pc ≠ .panicked) :
    StoreAfter (.loop g pc) (.loop g .exited) := by
  cases pc <;> first | rfl | exact ⟨_, rfl⟩ | exact absurd rfl h

theorem storeAfter_of_ne_done {b : BOC} {p : ZkProof} {pc : StorePc} (h : ∀ r, pc ≠ .done r)
    (pc' : StorePc) : StoreAfter (.store b p pc) (.store b p pc') := by
  cases pc
  case done r => exact absurd rfl (h r)
  all_goals exact ⟨pc', rfl⟩

theorem StoreAfter.trans {t u v : Task} (h₁ : StoreAfter t u) (h₂ : StoreAfter u v) : StoreAfter t v := by
  rcases t with ⟨b, p, pc⟩ | ⟨g, pc⟩
  · cases pc
    case done r => exact (h₁ ▸ h₂ :)
    all_goals
      obtain ⟨_, rfl⟩ := h₁
      exact storeAfter_store h₂
  · cases pc
    case exited | panicked => exact (h₁ ▸ h₂ :)
    all_goals
      obtain ⟨_, rfl⟩ := h₁
      exact storeAfter_loop h₂

/-- A run kept every task: the list has its length, and each task is where `StoreAfter` allows. -/
def Frame (l l' : List Task) : Prop :=
  l'.length = l.length ∧ ∀ (k : Nat) (t : Task), l[k]? = some t → ∃ u, l'[k]? = some u ∧ StoreAfter t u

theorem Frame.refl (l : List Task) : Frame l l := ⟨rfl, fun _ t h => ⟨t, h, .refl t⟩⟩

theorem Frame.trans {l l' l'' : List Task} (h₁ : Frame l l') (h₂ : Frame l' l'') : Frame l l'' := by
  refine ⟨h₂.1.trans h₁.1, fun k t hk => ?_⟩
  obtain ⟨u, hu, htu⟩ := h₁.2 k t hk
  obtain ⟨v, hv, huv⟩ := h₂.2 k u hu
  exact ⟨v, hv, htu.trans huv⟩

theorem Frame.set {l : List Task} {i : Nat} {u t : Task} (hi : l[i]? = some u) (h : StoreAfter u t) :
    Frame l (l.set i t) := by
  refine ⟨List.length_set .., fun k x hk => ?_⟩
  by_cases hki : i = k
  · subst hki
    obtain rfl : u = x := Option.some_injective _ (hi.symm.trans hk)
    exact ⟨t, List.getElem?_set_self (List.getElem?_eq_some_iff.mp hi).1, h⟩
  · exact ⟨x, (List.getElem?_set_ne hki).trans hk, .refl x⟩

section
variable {bincode : BOC → Bytes} {responseThreshold : UInt64} {s s' : System}

theorem BatteryExclusive.run (h : BatteryExclusive s.tasks)
    (hr : Relation.ReflTransGen (Step bincode responseThreshold) s s') : BatteryExclusive s'.tasks := by
  induction hr with
  | refl => exact h
  | tail _ st ih => exact ih.step st

theorem afterCharge_cases (b : BOC) (p : ZkProof) (o : Except String Unit) :
    (∃ r, afterCharge bincode b p o = .done r) ∨
      afterCharge bincode b p o = .lockBocs (StorageNode.hashBocInternal bincode b) := by
  unfold afterCharge
  split
  · exact .inl ⟨_, rfl⟩
  · split <;> first | exact .inl ⟨_, rfl⟩ | exact .inr rfl

theorem bocsFree_of_batteryFree (hb : s.BatteryFree) : s.BocsFree :=
  fun _ ⟨_, _, hm⟩ => absurd (hb _ _ _ hm) nofun

theorem bocsFree_of_holder (hx : BatteryExclusive s.tasks) {j : Nat} {b : BOC} {p : ZkProof}
    {pc : StorePc} (hj : s.tasks[j]? = some (.store b p pc)) (hh : pc.holdsBattery = true)
    (hpc : ∀ h, pc ≠ .lockProofs h) : s.BocsFree := by
  rintro h ⟨b', p', hm⟩
  obtain ⟨k, hk⟩ := List.mem_iff_getElem?.mp hm
  obtain rfl := hx k j _ _ hk hj rfl hh
  obtain ⟨-, -, he⟩ := Task.store.inj (Option.some_injective _ (hj.symm.trans hk))
  exact hpc h he

theorem batteryFree_storeDone (hx : BatteryExclusive s.tasks) {j : Nat} {b : BOC} {p : ZkProof}
    {pc : StorePc} (hj : s.tasks[j]? = some (.store b p pc)) (hh : pc.holdsBattery = true)
    (n : StorageNode) (r : Except SystemError Unit) : (storeDone s j b p n r).BatteryFree := by
  intro b' p' pc' hm
  obtain ⟨k, hk⟩ := List.mem_iff_getElem?.mp hm
  rcases getElem?_set_eq_some hk with ⟨-, he⟩ | ⟨hkj, hk'⟩
  · obtain ⟨-, -, rfl⟩ := Task.store.inj he
    rfl
  · exact hx.others hj hh k _ hkj hk'

/-- The call holding the battery runs to its end: its charge, its inserts once `stored_bocs`
is free, which it is as no other call holds the battery. -/
theorem finish_holder (hx : BatteryExclusive s.tasks) (hp : s.ProofsFree) {j : Nat} {b : BOC} {p : ZkProof}
    {pc : StorePc} (hj : s.tasks[j]? = some (.store b p pc)) (hh : pc.holdsBattery = true) :
    ∃ n r, Relation.ReflTransGen (Step bincode responseThreshold) s (storeDone s j b p n r) := by
  have hl : j < s.tasks.length := (List.getElem?_eq_some_iff.mp hj).1
  cases pc with
  | lockBattery | done => cases hh
  | lockProofs h => exact ⟨_, _, .single (.insertProof s j b p h hj hp)⟩
  | lockBocs h => exact ⟨_, _, insert_steps hj (bocsFree_of_holder hx hj hh nofun) hp⟩
  | charging =>
    have c : Step bincode responseThreshold s _ := .charge s j b p (.ok ()) hj
    rcases afterCharge_cases b p (.ok ()) with ⟨r, hr⟩ | hr <;> rw [hr] at c
    · exact ⟨s.node, r, .single c⟩
    · have hf : (s.setTask j (.store b p (.lockBocs (StorageNode.hashBocInternal bincode b)))).BocsFree :=
        bocsFree_set_store (bocsFree_of_holder hx hj hh nofun) nofun
      have hi : (s.setTask j (.store b p (.lockBocs (StorageNode.hashBocInternal bincode b)))).tasks[j]? =
          some (.store b p (.lockBocs (StorageNode.hashBocInternal bincode b))) :=
        List.getElem?_set_self hl
      have ins : Relation.ReflTransGen (Step bincode responseThreshold) _ _ :=
        insert_steps hi hf (hp.setTask nofun)
      rw [storeDone_setTask] at ins
      exact ⟨_, _, (Relation.ReflTransGen.single c).trans ins⟩

/-- Any one call runs to its end, after the battery holder if it waits on the battery. -/
theorem finish_store (hx : BatteryExclusive s.tasks) (hp : s.ProofsFree) {i : Nat} {b : BOC} {p : ZkProof}
    {pc : StorePc} (hi : s.tasks[i]? = some (.store b p pc)) :
    ∃ s' r, Relation.ReflTransGen (Step bincode responseThreshold) s s' ∧ s'.isVerifying = s.isVerifying ∧
      s'.tasks[i]? = some (.store b p (.done r)) ∧ Frame s.tasks s'.tasks ∧ s'.ProofsFree := by
  have hl : i < s.tasks.length := (List.getElem?_eq_some_iff.mp hi).1
  cases hh : pc.holdsBattery with
  | true =>
    obtain ⟨n, r, hrun⟩ := finish_holder hx hp hi hh
    have hpc : ∀ r, pc ≠ .done r := fun r he => by rw [he] at hh; cases hh
    exact ⟨_, r, hrun, rfl, List.getElem?_set_self hl, Frame.set hi (storeAfter_of_ne_done hpc _),
      hp.storeDone _ _ _ _ _⟩
  | false =>
    cases pc with
    | charging | lockBocs | lockProofs => cases hh
    | done r => exact ⟨s, r, .refl, rfl, hi, Frame.refl _, hp⟩
    | lockBattery =>
      by_cases hb : s.BatteryFree
      · exact ⟨_, _, store_steps_refine hi hb (bocsFree_of_batteryFree hb) hp (.ok ()), rfl,
          List.getElem?_set_self hl, Frame.set hi ⟨_, rfl⟩, hp.storeDone _ _ _ _ _⟩
      · obtain ⟨b', p', pc', hm, hh'⟩ :
            ∃ b' p' pc', Task.store b' p' pc' ∈ s.tasks ∧ pc'.holdsBattery = true := by
          simpa [BatteryFree] using hb
        obtain ⟨j, hj⟩ := List.mem_iff_getElem?.mp hm
        obtain ⟨n, r, hrun⟩ := finish_holder hx hp hj hh'
        have hji : j ≠ i := by rintro rfl; rw [hi] at hj; cases hj; cases hh'
        have hi₁ : (storeDone s j b' p' n r).tasks[i]? = some (.store b p .lockBattery) :=
          (List.getElem?_set_ne hji).trans hi
        have hb₁ := batteryFree_storeDone hx hj hh' n r
        have hpc' : ∀ r, pc' ≠ .done r := fun r he => by rw [he] at hh'; cases hh'
        have hp₁ := hp.storeDone j b' p' n r
        exact ⟨_, _, hrun.trans (store_steps_refine hi₁ hb₁ (bocsFree_of_batteryFree hb₁) hp₁ (.ok ())), rfl,
          List.getElem?_set_self (by simpa [storeDone] using hl),
          (Frame.set hj (storeAfter_of_ne_done hpc' _)).trans (Frame.set hi₁ ⟨_, rfl⟩), hp₁.storeDone _ _ _ _ _⟩

/-- The calls at the first `k` positions, finished one after the other. -/
theorem finish_prefix (hx : BatteryExclusive s.tasks) (hp : s.ProofsFree) : ∀ k : Nat,
    ∃ s', Relation.ReflTransGen (Step bincode responseThreshold) s s' ∧ BatteryExclusive s'.tasks ∧
      s'.ProofsFree ∧ s'.isVerifying = s.isVerifying ∧ Frame s.tasks s'.tasks ∧ ∀ i < k, ∀ b p pc,
        s.tasks[i]? = some (.store b p pc) → ∃ r, s'.tasks[i]? = some (.store b p (.done r))
  | 0 => ⟨s, .refl, hx, hp, rfl, .refl _, fun _ h => absurd h (Nat.not_lt_zero _)⟩
  | k + 1 => by
    obtain ⟨s₁, r₁, x₁, p₁, v₁, f₁, d₁⟩ := finish_prefix hx hp k
    obtain ⟨s₂, r₂, v₂, f₂, p₂, d₂⟩ :
        ∃ s₂, Relation.ReflTransGen (Step bincode responseThreshold) s₁ s₂ ∧
        s₂.isVerifying = s₁.isVerifying ∧ Frame s₁.tasks s₂.tasks ∧ s₂.ProofsFree ∧ ∀ b p pc,
          s.tasks[k]? = some (.store b p pc) → ∃ r, s₂.tasks[k]? = some (.store b p (.done r)) := by
      cases hk : s.tasks[k]? with
      | some t =>
        cases t with
        | store b p pc =>
          obtain ⟨u, hu, ha⟩ := f₁.2 k _ hk
          obtain ⟨pc', rfl⟩ := storeAfter_store ha
          obtain ⟨s₂, r, hrun, hv, hd, hf, hp₂⟩ := finish_store x₁ p₁ hu
          exact ⟨s₂, hrun, hv, hf, hp₂, fun _ _ _ h => by cases h; exact ⟨r, hd⟩⟩
        | loop => exact ⟨s₁, .refl, rfl, .refl _, p₁, fun _ _ _ h => by cases h⟩
      | none => exact ⟨s₁, .refl, rfl, .refl _, p₁, fun _ _ _ h => by cases h⟩
    refine ⟨s₂, r₁.trans r₂, x₁.run r₂, p₂, v₂.trans v₁, f₁.trans f₂, fun i hi b p pc h => ?_⟩
    rcases Nat.lt_succ_iff_lt_or_eq.mp hi with hi | rfl
    · obtain ⟨r, hr⟩ := d₁ i hi b p pc h
      obtain ⟨u, hu, rfl⟩ := f₂.2 i _ hr
      exact ⟨r, hu⟩
    · exact d₂ b p pc h

/-- No call is in flight. -/
def StoresDone (tasks : List Task) : Prop := ∀ b p pc, Task.store b p pc ∈ tasks → ∃ r, pc = .done r

/-- Every call in flight, finished one after the other; the flag is left alone. -/
theorem finish_stores (hx : BatteryExclusive s.tasks) (hp : s.ProofsFree) :
    ∃ s', Relation.ReflTransGen (Step bincode responseThreshold) s s' ∧ s'.isVerifying = s.isVerifying ∧
      Frame s.tasks s'.tasks ∧ (∀ (i : Nat) (b : BOC) (p : ZkProof) (pc : StorePc),
        s.tasks[i]? = some (.store b p pc) → ∃ r, s'.tasks[i]? = some (.store b p (.done r))) ∧
      StoresDone s'.tasks := by
  obtain ⟨s', hr, -, -, hv, hf, hd⟩ := finish_prefix hx hp s.tasks.length
  have hd' : ∀ (i : Nat) (b : BOC) (p : ZkProof) (pc : StorePc), s.tasks[i]? = some (.store b p pc) →
      ∃ r, s'.tasks[i]? = some (.store b p (.done r)) :=
    fun i b p pc h => hd i (List.getElem?_eq_some_iff.mp h).1 b p pc h
  refine ⟨s', hr, hv, hf, hd', fun b p pc hm => ?_⟩
  obtain ⟨k, hk⟩ := List.mem_iff_getElem?.mp hm
  obtain ⟨t, ht⟩ : ∃ t, s.tasks[k]? = some t :=
    ⟨_, List.getElem?_eq_getElem (hf.1 ▸ (List.getElem?_eq_some_iff.mp hk).1)⟩
  cases t with
  | store b' p' pc' =>
    obtain ⟨r, hr⟩ := hd' k b' p' pc' ht
    rw [hr] at hk
    cases hk
    exact ⟨r, rfl⟩
  | loop g pc' =>
    obtain ⟨u, hu, hl⟩ := hf.2 k _ ht
    obtain ⟨_, rfl⟩ := storeAfter_loop hl
    rw [hu] at hk
    cases hk

/-- No step moves a panicked loop, nor, while `stored_proofs` is held, a call between its
inserts. -/
theorem Step.keeps_blocked (hs : Step bincode responseThreshold s s') (hp : ¬ s.ProofsFree) {j : Nat}
    {t : Task} (hj : s.tasks[j]? = some t)
    (ht : (∃ g, t = .loop g .panicked) ∨ ∃ b p h, t = .store b p (.lockProofs h)) :
    s'.tasks[j]? = some t := by
  have set : ∀ {i : Nat} {u : Task} (v : Task), s.tasks[i]? = some u → u ≠ t → (s.tasks.set i v)[j]? = some t :=
    fun _ hi hne => (List.getElem?_set_ne fun e => hne (by subst e; exact Option.some_injective _ (hi.symm.trans hj))).trans hj
  have app : ∀ x : Task, (s.tasks ++ [x])[j]? = some t :=
    fun _ => (List.getElem?_append_left (List.getElem?_eq_some_iff.mp hj).1).trans hj
  cases hs with
  | callStore | start => exact app _
  | retrieveBoc | retrieveProof | addPeer | removePeer | startInProgress | stop => exact hj
  | insertProof _ _ _ _ _ hpf => exact absurd hpf hp
  | loopCheck i g d hi _ =>
    obtain ⟨pc, hpc⟩ := afterCheck_tasks responseThreshold s i g d
    rw [hpc]
    exact set _ hi (by rcases ht with ⟨_, rfl⟩ | ⟨_, _, _, rfl⟩ <;> nofun)
  | loopVerify i g x rest a d hi _ =>
    obtain ⟨pc, hpc⟩ := afterVerify_tasks s i g x rest a d
    rw [hpc]
    exact set _ hi (by rcases ht with ⟨_, rfl⟩ | ⟨_, _, _, rfl⟩ <;> nofun)
  | lockBattery _ _ _ hi | charge _ _ _ _ hi | insertBoc _ _ _ _ hi | loopTop _ _ hi | loopBatchDone _ _ _ _ hi
  | loopBackoff _ _ _ _ hi | loopWake _ _ hi =>
    exact set _ hi (by rcases ht with ⟨_, rfl⟩ | ⟨_, _, _, rfl⟩ <;> nofun)

/-- A loop that has panicked holds `stored_proofs` for good: on every run after it the loop stays
panicked and a call between its two inserts stays there, so that call never returns. This is
why the admissions finish only from states where `stored_proofs` is free. -/
theorem panicked_blocks_insert {j g i : Nat} {b : BOC} {p : ZkProof} {h : Hash}
    (hj : s.tasks[j]? = some (.loop g .panicked)) (hi : s.tasks[i]? = some (.store b p (.lockProofs h)))
    (hr : Relation.ReflTransGen (Step bincode responseThreshold) s s') :
    s'.tasks[j]? = some (.loop g .panicked) ∧ s'.tasks[i]? = some (.store b p (.lockProofs h)) := by
  induction hr with
  | refl => exact ⟨hj, hi⟩
  | @tail u _ _ st ih =>
    have hp : ¬ u.ProofsFree := fun hp => hp g (List.getElem?_mem ih.1)
    exact ⟨st.keeps_blocked hp ih.1 (.inl ⟨g, rfl⟩), st.keeps_blocked hp ih.2 (.inr ⟨b, p, h, rfl⟩)⟩

/-- Under every interleaving from a fresh node, the locks never deadlock the admissions: from
every reachable state where no loop has panicked holding `stored_proofs`, one run finishes each
`store_update` call in flight, with its own arguments, and leaves no call unfinished. -/
theorem stores_finish (hs : Reachable bincode responseThreshold s) (hp : s.ProofsFree) :
    ∃ s', Relation.ReflTransGen (Step bincode responseThreshold) s s' ∧
      (∀ (i : Nat) (b : BOC) (p : ZkProof) (pc : StorePc), s.tasks[i]? = some (.store b p pc) →
        ∃ r, s'.tasks[i]? = some (.store b p (.done r))) ∧
      ∀ b p pc, Task.store b p pc ∈ s'.tasks → ∃ r, pc = .done r := by
  obtain ⟨s', hr, -, -, hd, hn⟩ := finish_stores hs.batteryExclusive hp
  exact ⟨s', hr, hd, hn⟩

theorem twoCalls_finish :
    Reachable (fun _ => []) 1 twoCalls ∧ twoCalls.ProofsFree ∧
      ∃ s', Relation.ReflTransGen (Step (fun _ => []) 1) twoCalls s' ∧
        (∀ (i : Nat) (b : BOC) (p : ZkProof) (pc : StorePc), twoCalls.tasks[i]? = some (.store b p pc) →
          ∃ r, s'.tasks[i]? = some (.store b p (.done r))) ∧
        ∀ b p pc, Task.store b p pc ∈ s'.tasks → ∃ r, pc = .done r :=
  have hp : twoCalls.ProofsFree := fun _ h => by simp [twoCalls] at h
  ⟨twoCalls_reachable, hp, stores_finish twoCalls_reachable hp⟩

end

end Overpass.System
