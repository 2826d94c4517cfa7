import Overpass.StorageNode.Interleaving

/-! The stored maps stay paired under every interleaving: each BOC sits under its own hash,
each proof's one public input is its key, the two key sets agree whenever no `store_update`
is between its inserts, and the loop only ever looks up hashes whose proof is stored. -/
namespace Overpass.System

theorem mem_set_of_ne {l : List Task} {i : Nat} {t u v : Task} (ht : t ∈ l) (hi : l[i]? = some u)
    (hne : t ≠ u) : t ∈ l.set i v := by
  obtain ⟨j, hj⟩ := List.mem_iff_getElem?.mp ht
  have hij : i ≠ j := by rintro rfl; exact hne (Option.some_injective _ (hj.symm.trans hi))
  exact List.getElem?_mem ((List.getElem?_set_ne hij).trans hj)

theorem mem_set_self {l : List Task} {i : Nat} {u t : Task} (hi : l[i]? = some u) : t ∈ l.set i t :=
  List.getElem?_mem (List.getElem?_set_self (List.getElem?_eq_some_iff.mp hi).1)

section
variable (bincode : BOC → Bytes)

/-- What a task keeps true of the maps: a `store_update` past its checks carries a BOC under
that BOC's hash and a proof whose one input is the hash, and once between its inserts it has
put the BOC in; a loop's collected hashes all have proofs stored. -/
def TaskOk (n : StorageNode) : Task → Prop
  | .store b p (.lockBocs h) => h = StorageNode.hashBocInternal bincode b ∧ p.publicInputs = [h.toList]
  | .store b p (.lockProofs h) =>
    h = StorageNode.hashBocInternal bincode b ∧ p.publicInputs = [h.toList] ∧ h ∈ n.storedBocs
  | .loop _ (.verify ids _) | .loop _ (.backoff ids _) => ∀ h ∈ ids, h ∈ n.storedProofs
  | _ => True

/-- The invariant of the maps and the tasks. -/
structure Consistent (n : StorageNode) (tasks : List Task) : Prop where
  bocKey : ∀ h b, n.storedBocs.lookup h = some b → h = StorageNode.hashBocInternal bincode b
  proofInputs : ∀ h p, n.storedProofs.lookup h = some p → p.publicInputs = [h.toList]
  proofsSub : ∀ h, h ∈ n.storedProofs → h ∈ n.storedBocs
  bocsSub : ∀ h, h ∈ n.storedBocs → h ∈ n.storedProofs ∨ ∃ b p, Task.store b p (.lockProofs h) ∈ tasks
  tasksOk : ∀ t ∈ tasks, TaskOk bincode n t

variable {bincode}

theorem TaskOk.mono {n n' : StorageNode} (hb : ∀ h, h ∈ n.storedBocs → h ∈ n'.storedBocs)
    (hp : ∀ h, h ∈ n.storedProofs → h ∈ n'.storedProofs) : ∀ {t : Task}, TaskOk bincode n t → TaskOk bincode n' t
  | .store _ _ (.lockBocs _), h => h
  | .store _ _ (.lockProofs _), ⟨h1, h2, h3⟩ => ⟨h1, h2, hb _ h3⟩
  | .loop _ (.verify _ _), h | .loop _ (.backoff _ _), h => fun x hx => hp x (h x hx)
  | .store _ _ .lockBattery, _ | .store _ _ .charging, _ | .store _ _ (.done _), _
  | .loop _ .top, _ | .loop _ .lockBocs, _ | .loop _ .sleeping, _ | .loop _ .exited, _
  | .loop _ .panicked, _ => trivial

theorem taskOk_afterCycle (n : StorageNode) (g : Nat) (v d : Bool) :
    TaskOk bincode n (.loop g (afterCycle v d)) := by
  unfold afterCycle; split <;> (try split) <;> trivial

variable {n : StorageNode} {tasks : List Task}

theorem Consistent.append (hc : Consistent bincode n tasks) {t : Task} (ht : TaskOk bincode n t) :
    Consistent bincode n (tasks ++ [t]) where
  __ := hc
  bocsSub h hh := (hc.bocsSub h hh).imp id fun ⟨b, p, hm⟩ => ⟨b, p, List.mem_append_left _ hm⟩
  tasksOk t' ht' := (List.mem_append.mp ht').elim (hc.tasksOk t') fun h => by
    rw [List.mem_singleton.mp h]; exact ht

theorem Consistent.set (hc : Consistent bincode n tasks) {i : Nat} {u t : Task} (hi : tasks[i]? = some u)
    (hu : ∀ b p h, u ≠ .store b p (.lockProofs h)) (ht : TaskOk bincode n t) :
    Consistent bincode n (tasks.set i t) where
  __ := hc
  bocsSub h hh := (hc.bocsSub h hh).imp id fun ⟨b, p, hm⟩ => ⟨b, p, mem_set_of_ne hm hi (hu b p h).symm⟩
  tasksOk t' ht' := (List.mem_or_eq_of_mem_set ht').elim (hc.tasksOk t') fun h => h ▸ ht

theorem Consistent.peers (hc : Consistent bincode n tasks) (ps : Finset Hash) :
    Consistent bincode { n with peers := ps } tasks where
  __ := hc
  tasksOk t ht := TaskOk.mono (fun _ => id) (fun _ => id) (hc.tasksOk t ht)

theorem Consistent.insertBoc (hc : Consistent bincode n tasks) {i : Nat} {b : BOC} {p : ZkProof} {h : Hash}
    (hi : tasks[i]? = some (.store b p (.lockBocs h))) :
    Consistent bincode { n with storedBocs := n.storedBocs.insert h b } (tasks.set i (.store b p (.lockProofs h))) := by
  obtain ⟨hh, hp⟩ : TaskOk bincode n (.store b p (.lockBocs h)) := hc.tasksOk _ (List.getElem?_mem hi)
  have grow : ∀ x, x ∈ n.storedBocs → x ∈ n.storedBocs.insert h b := fun x hx => (AList.mem_insert _).mpr (.inr hx)
  refine ⟨fun x b' hx => ?_, hc.proofInputs, fun x hx => grow x (hc.proofsSub x hx), fun x hx => ?_, fun t ht => ?_⟩
  · by_cases hxh : x = h
    · subst hxh; rw [AList.lookup_insert] at hx; cases hx; exact hh
    · rw [AList.lookup_insert_ne hxh] at hx; exact hc.bocKey x b' hx
  · rcases (AList.mem_insert _).mp hx with rfl | hx
    · exact .inr ⟨b, p, mem_set_self hi⟩
    · exact (hc.bocsSub x hx).imp id fun ⟨b', p', hm⟩ => ⟨b', p', mem_set_of_ne hm hi (by simp)⟩
  · rcases List.mem_or_eq_of_mem_set ht with ht | rfl
    · exact @TaskOk.mono bincode n { n with storedBocs := n.storedBocs.insert h b } grow (fun _ => id) t
        (hc.tasksOk t ht)
    · exact ⟨hh, hp, (AList.mem_insert _).mpr (.inl rfl)⟩

theorem Consistent.insertProof (hc : Consistent bincode n tasks) {i : Nat} {b : BOC} {p : ZkProof} {h : Hash}
    (hi : tasks[i]? = some (.store b p (.lockProofs h))) :
    Consistent bincode { n with storedProofs := n.storedProofs.insert h p } (tasks.set i (.store b p (.done (.ok ())))) := by
  obtain ⟨-, hp, hb⟩ : TaskOk bincode n (.store b p (.lockProofs h)) := hc.tasksOk _ (List.getElem?_mem hi)
  have grow : ∀ x, x ∈ n.storedProofs → x ∈ n.storedProofs.insert h p := fun x hx => (AList.mem_insert _).mpr (.inr hx)
  refine ⟨hc.bocKey, fun x p' hx => ?_, fun x hx => ?_, fun x hx => ?_, fun t ht => ?_⟩
  · by_cases hxh : x = h
    · subst hxh; rw [AList.lookup_insert] at hx; cases hx; exact hp
    · rw [AList.lookup_insert_ne hxh] at hx; exact hc.proofInputs x p' hx
  · rcases (AList.mem_insert _).mp hx with rfl | hx
    · exact hb
    · exact hc.proofsSub x hx
  · by_cases hxh : x = h
    · exact .inl ((AList.mem_insert _).mpr (.inl hxh))
    · exact (hc.bocsSub x hx).imp (grow x) fun ⟨b', p', hm⟩ =>
        ⟨b', p', mem_set_of_ne hm hi (by simp [hxh])⟩
  · rcases List.mem_or_eq_of_mem_set ht with ht | rfl
    · exact @TaskOk.mono bincode n { n with storedProofs := n.storedProofs.insert h p } (fun _ => id) grow t
        (hc.tasksOk t ht)
    · trivial

theorem taskOk_afterCharge (n : StorageNode) (b : BOC) (p : ZkProof) (o : Except String Unit) :
    TaskOk bincode n (.store b p (afterCharge bincode b p o)) := by
  cases o with
  | error e => trivial
  | ok u =>
    simp only [afterCharge, StorageNode.verifyProofInternal_eq]
    by_cases h : p.publicInputs = [(StorageNode.hashBocInternal bincode b).toList] <;> simp [h, TaskOk]

theorem consistent_init {nodeId : Hash} {stake : UInt64} {peers : Finset Hash} {n : StorageNode}
    (h : StorageNode.new nodeId stake peers = .ok n) : Consistent bincode n [] := by
  unfold StorageNode.new at h
  split at h
  · cases h
  · cases h
    exact ⟨by simp, by simp, by simp, by simp, by simp⟩

variable {responseThreshold : UInt64}

/-- Every step keeps the invariant: one lemma per kind of change to the maps and the tasks. -/
theorem Consistent.step {s s' : System} (hc : Consistent bincode s.node s.tasks)
    (hs : Step bincode responseThreshold s s') : Consistent bincode s'.node s'.tasks := by
  cases hs with
  | callStore b p => exact hc.append trivial
  | lockBattery i b p hi _ => exact hc.set hi (by simp) trivial
  | charge i b p o hi => exact hc.set hi (by simp) (taskOk_afterCharge _ _ _ _)
  | insertBoc i b p h hi _ => exact hc.insertBoc hi
  | insertProof i b p h hi _ => exact hc.insertProof hi
  | retrieveBoc | retrieveProof | startInProgress | stop => exact hc
  | addPeer peer => exact hc.peers _
  | removePeer peer => exact hc.peers _
  | start => exact hc.append trivial
  | loopTop i g hi => exact hc.set hi (by simp) (by split <;> trivial)
  | loopCheck i g d hi hfree =>
    dsimp only [afterCheck]
    split
    · exact hc.set hi (by simp) (taskOk_afterCycle _ _ _ _)
    · split
      · exact hc.set hi (by simp) fun h hh => (hc.bocsSub h (AList.mem_keys.mpr hh)).resolve_right (hfree h)
      · exact hc.set hi (by simp) (taskOk_afterCycle _ _ _ _)
  | loopVerify i g h rest a d hi _ =>
    have hids : ∀ x ∈ h :: rest, x ∈ s.node.storedProofs := hc.tasksOk _ (List.getElem?_mem hi)
    unfold afterVerify
    split
    · exact hc.set hi (by simp) trivial
    · exact hc.set hi (by simp) fun x hx => hids x (List.mem_cons_of_mem _ hx)
    · split
      · exact hc.set hi (by simp) (taskOk_afterCycle _ _ _ _)
      · exact hc.set hi (by simp) hids
  | loopBatchDone i g a d hi => exact hc.set hi (by simp) (taskOk_afterCycle _ _ _ _)
  | loopBackoff i g ids a hi => exact hc.set hi (by simp) fun x hx => hc.tasksOk _ (List.getElem?_mem hi) x hx
  | loopWake i g hi => exact hc.set hi (by simp) trivial

theorem Reachable.consistent {s : System} (hs : Reachable bincode responseThreshold s) :
    Consistent bincode s.node s.tasks := by
  induction hs with
  | init _ _ _ _ h => exact consistent_init h
  | step _ hs ih => exact ih.step hs

@[simp] theorem afterCheck_node (s : System) (i g : Nat) (d : Bool) :
    (afterCheck responseThreshold s i g d).node = s.node := by
  dsimp only [afterCheck]; split <;> (try split) <;> rfl

@[simp] theorem afterVerify_node (s : System) (i g : Nat) (h : Hash) (rest : List Hash) (a : Nat) (d : Bool) :
    (afterVerify s i g h rest a d).node = s.node := by
  unfold afterVerify; split <;> (try split) <;> rfl

theorem Step.keys_grow {s s' : System} (hs : Step bincode responseThreshold s s') :
    (∀ h, h ∈ s.node.storedBocs → h ∈ s'.node.storedBocs) ∧
      ∀ h, h ∈ s.node.storedProofs → h ∈ s'.node.storedProofs := by
  cases hs with
  | insertBoc => exact ⟨fun h hh => (AList.mem_insert _).mpr (.inr hh), fun _ => id⟩
  | insertProof => exact ⟨fun _ => id, fun h hh => (AList.mem_insert _).mpr (.inr hh)⟩
  | loopCheck | loopVerify => simp
  | _ => exact ⟨fun _ => id, fun _ => id⟩

theorem afterCharge_valid {b : BOC} {p : ZkProof}
    (hv : p.publicInputs = [(StorageNode.hashBocInternal bincode b).toList]) :
    afterCharge bincode b p (.ok ()) = .lockBocs (StorageNode.hashBocInternal bincode b) := by
  simp [afterCharge, StorageNode.verifyProofInternal_eq, hv]

/-- The node `StorageNode::new` builds with the minimum stake. -/
def freshNode : StorageNode := ⟨zeroHash, StorageNode.minStake, ∅, ∅, ∅⟩

/-- The proof that names the hash of `BOC::new()` under the empty serialization. -/
def newBocProof : ZkProof := ⟨[(StorageNode.hashBocInternal (fun _ => []) BOC.new).toList]⟩

theorem newBocProof_passes :
    afterCharge (fun _ => []) BOC.new newBocProof (.ok ()) =
      .lockBocs (StorageNode.hashBocInternal (fun _ => []) BOC.new) :=
  afterCharge_valid rfl

/-- A fresh node after one `store_update` of `BOC::new()` that returned `Ok`. -/
def oneAdmission : System :=
  let bocId := StorageNode.hashBocInternal (fun _ => []) BOC.new
  ⟨{ freshNode with storedBocs := freshNode.storedBocs.insert bocId BOC.new,
                    storedProofs := freshNode.storedProofs.insert bocId newBocProof },
    ⟨0, 0, 0⟩, false, 0, [.store BOC.new newBocProof (.done (.ok ()))]⟩

/-- The call, its battery lock and charge, and its two inserts. -/
theorem oneAdmission_reachable : Reachable (fun _ => []) 1 oneAdmission := by
  have r0 : Reachable (fun _ => []) 1 (init freshNode) := .init zeroHash StorageNode.minStake ∅ _ rfl
  have r1 := r0.step (.callStore _ BOC.new newBocProof)
  have r2 := r1.step (.lockBattery _ 0 BOC.new newBocProof rfl fun _ _ _ h => by
    simp only [init, List.nil_append, List.mem_singleton, Task.store.injEq] at h; rw [h.2.2]; rfl)
  have r3 := r2.step (.charge _ 0 BOC.new newBocProof (.ok ()) rfl)
  rw [newBocProof_passes] at r3
  have r4 := r3.step (.insertBoc _ 0 BOC.new newBocProof _ rfl (by simp [BocsFree, BetweenInserts, setTask, init]))
  exact r4.step (.insertProof _ 0 BOC.new newBocProof _ rfl (by simp [ProofsFree, setTask, init]))

/-- `oneAdmission` with a loop started and past its loop-top check. -/
def checkingNode : System :=
  { oneAdmission with isVerifying := true, starts := 1, tasks := oneAdmission.tasks ++ [.loop 1 .lockBocs] }

/-- The loop of `checkingNode` after its check: a batch of the one stored hash. -/
def verifyingNode : System :=
  { checkingNode with tasks :=
      oneAdmission.tasks ++ [.loop 1 (.verify [StorageNode.hashBocInternal (fun _ => []) BOC.new] 0)] }

theorem checkingNode_reachable : Reachable (fun _ => []) 1 checkingNode :=
  (oneAdmission_reachable.step (.start _ rfl)).step (.loopTop _ 1 1 rfl)

theorem verifyingNode_reachable : Reachable (fun _ => []) 1 verifyingNode :=
  checkingNode_reachable.step (.loopCheck _ 1 1 true rfl (by simp [BocsFree, BetweenInserts, checkingNode, oneAdmission]))

/-- What holds of the maps in a state: the key sets agree unless a `store_update` is between
its inserts; each BOC is stored under the hash of its serialization; each proof's public
inputs are exactly its key; every hash a loop is about to look up has its proof stored; and
no next step removes a key. -/
structure MapsPaired (bincode : BOC → Bytes) (responseThreshold : UInt64) (s : System) : Prop where
  keysAgree : s.BocsFree → ∀ h, h ∈ s.node.storedBocs ↔ h ∈ s.node.storedProofs
  bocKey : ∀ h b, s.node.storedBocs.lookup h = some b → h = StorageNode.hashBocInternal bincode b
  proofInputs : ∀ h p, s.node.storedProofs.lookup h = some p → p.publicInputs = [h.toList]
  lookupsFind : ∀ (i g : Nat) (h : Hash) (rest : List Hash) (a : Nat),
    s.tasks[i]? = some (.loop g (.verify (h :: rest) a)) →
    Response.found s.node.storedProofs h = true
  keysGrow : ∀ s', Step bincode responseThreshold s s' →
    (∀ h, h ∈ s.node.storedBocs → h ∈ s'.node.storedBocs) ∧ ∀ h, h ∈ s.node.storedProofs → h ∈ s'.node.storedProofs

/-- Under every interleaving of admissions, retrievals, peer updates and verification loops
from a fresh node, the stored maps stay paired, and the loop never misses a proof. -/
theorem reachable_maps_paired {s : System} (hs : Reachable bincode responseThreshold s) :
    MapsPaired bincode responseThreshold s := by
  have hc := hs.consistent
  refine ⟨fun hfree h => ⟨fun hh => (hc.bocsSub h hh).resolve_right (hfree h), hc.proofsSub h⟩,
    hc.bocKey, hc.proofInputs, fun i g h rest a hi => ?_, fun _ hs' => hs'.keys_grow⟩
  have hids : ∀ x ∈ h :: rest, x ∈ s.node.storedProofs := hc.tasksOk _ (List.getElem?_mem hi)
  exact AList.lookup_isSome.mpr (hids h (List.mem_cons_self _ _))


theorem verifyingNode_maps_paired :
    Reachable (fun _ => []) 1 verifyingNode ∧ MapsPaired (fun _ => []) 1 verifyingNode :=
  ⟨verifyingNode_reachable, reachable_maps_paired verifyingNode_reachable⟩

end

end Overpass.System
