import Overpass.StorageNode.Consistency

/-! What the admissions leave in the stored maps under every interleaving: the maps are those of
a sequential run of `store_update` over the calls that returned `Ok`, taken in some order (with
the BOC of the one call between its two inserts already in); a call that returned `Ok` stays
retrievable from then on, and nothing else is retrievable. -/
namespace Overpass.System

/-- The arguments of a `store_update` call that returned `Ok`. -/
def admittedArgs : Task → Option (BOC × ZkProof)
  | .store b p (.done (.ok ())) => some (b, p)
  | _ => none

/-- The calls that returned `Ok`, in task order. -/
def admitted (tasks : List Task) : List (BOC × ZkProof) := tasks.filterMap admittedArgs

/-- The key and BOC of a call that has inserted its BOC and waits for `stored_proofs`. -/
def pendingArgs : Task → Option (Hash × BOC)
  | .store b _ (.lockProofs h) => some (h, b)
  | _ => none

/-- The calls between their two inserts. -/
def pending (tasks : List Task) : List (Hash × BOC) := tasks.filterMap pendingArgs

/-- One sequential `store_update` call whose battery charge succeeds. -/
def storeCharged (bincode : BOC → Bytes) (n : StorageNode) (bp : BOC × ZkProof) : StorageNode :=
  (StorageNode.storeUpdate bincode n (.ok ()) bp.1 bp.2).1

theorem storeCharged_valid (bincode : BOC → Bytes) (n : StorageNode) {b : BOC} {p : ZkProof}
    (hv : p.publicInputs = [(StorageNode.hashBocInternal bincode b).toList]) :
    storeCharged bincode n (b, p) =
      { n with storedBocs := n.storedBocs.insert (StorageNode.hashBocInternal bincode b) b,
               storedProofs := n.storedProofs.insert (StorageNode.hashBocInternal bincode b) p } := by
  simp [storeCharged, StorageNode.storeUpdate, StorageNode.verifyProofInternal_eq, hv]

theorem filterMap_set_of_eq {α β : Type} (f : α → Option β) {l : List α} {i : Nat} {u t : α}
    (hi : l[i]? = some u) (h : f t = f u) : (l.set i t).filterMap f = l.filterMap f := by
  induction l generalizing i with
  | nil => simp at hi
  | cons x l ih =>
    cases i with
    | zero =>
      obtain rfl : x = u := by simpa using hi
      simp only [List.set_cons_zero, List.filterMap_cons, h]
    | succ i => simp only [List.set_cons_succ, List.filterMap_cons, ih (by simpa using hi)]

theorem filterMap_set_perm {α β : Type} (f : α → Option β) {l : List α} {i : Nat} {u : α}
    (hi : l[i]? = some u) (t : α) :
    ((l.set i t).filterMap f ++ (f u).toList).Perm (l.filterMap f ++ (f t).toList) := by
  induction l generalizing i with
  | nil => simp at hi
  | cons x l ih =>
    cases i with
    | zero =>
      obtain rfl : x = u := by simpa using hi
      simp only [List.set_cons_zero, List.filterMap_cons]
      cases f t with
      | none => cases f x <;> simp [List.perm_append_singleton]
      | some v =>
        cases f x with
        | none => simpa using (List.perm_append_singleton v _).symm
        | some w =>
          simpa using ((List.perm_append_singleton w _).cons v).trans
            ((List.Perm.swap w v _).trans ((List.perm_append_singleton v _).symm.cons w))
    | succ i =>
      simp only [List.set_cons_succ, List.filterMap_cons]
      cases f x <;> simp [ih (by simpa using hi)]

/-- The node with both stored maps emptied. -/
def emptied (n : StorageNode) : StorageNode := { n with storedBocs := ∅, storedProofs := ∅ }

/-- The BOC insert of a call between its inserts. -/
def insertPending (n : StorageNode) (e : Hash × BOC) : StorageNode :=
  { n with storedBocs := n.storedBocs.insert e.1 e.2 }

/-- A sequential replay from `n`: `store_update` over `log`, one call after the other with the
battery answering `Ok`, then the BOC inserts of the calls in `pend`. -/
def replay (bincode : BOC → Bytes) (n : StorageNode) (log : List (BOC × ZkProof))
    (pend : List (Hash × BOC)) : StorageNode :=
  pend.foldl insertPending (log.foldl (storeCharged bincode) n)

/-- What the admissions leave: at most one call between its inserts, the key of every call that
returned `Ok` in `stored_proofs`, and the node a sequential replay of those calls, in some order,
from the same node with empty maps. -/
structure Serialized (bincode : BOC → Bytes) (s : System) : Prop where
  pendingLeOne : (pending s.tasks).length ≤ 1
  durable : ∀ bp ∈ admitted s.tasks, StorageNode.hashBocInternal bincode bp.1 ∈ s.node.storedProofs
  serial : ∃ log : List (BOC × ZkProof), log.Perm (admitted s.tasks) ∧
    replay bincode (emptied s.node) log (pending s.tasks) = s.node

theorem pending_set_perm {l : List Task} {i : Nat} {u : Task} (hi : l[i]? = some u) (t : Task) :
    (pending (l.set i t) ++ (pendingArgs u).toList).Perm (pending l ++ (pendingArgs t).toList) :=
  filterMap_set_perm _ hi t

theorem admitted_set_perm {l : List Task} {i : Nat} {u : Task} (hi : l[i]? = some u) (t : Task) :
    (admitted (l.set i t) ++ (admittedArgs u).toList).Perm (admitted l ++ (admittedArgs t).toList) :=
  filterMap_set_perm _ hi t

theorem pending_eq_nil_iff {s : System} : pending s.tasks = [] ↔ s.BocsFree := by
  refine List.filterMap_eq_nil_iff.trans ⟨fun h bocId ⟨b, p, hm⟩ => by simpa [pendingArgs] using h _ hm,
    fun hf t ht => ?_⟩
  rcases t with ⟨b, p, _ | _ | _ | h | _⟩ | _
  case lockProofs => exact absurd ⟨b, p, ht⟩ (hf h)
  all_goals rfl

section
variable {bincode : BOC → Bytes}

theorem storeCharged_peers (n : StorageNode) (ps : Finset Hash) (bp : BOC × ZkProof) :
    storeCharged bincode { n with peers := ps } bp = { storeCharged bincode n bp with peers := ps } := by
  by_cases hv : bp.2.publicInputs = [(StorageNode.hashBocInternal bincode bp.1).toList] <;>
    simp [storeCharged, StorageNode.storeUpdate, StorageNode.verifyProofInternal_eq, hv]

theorem replay_peers (n : StorageNode) (ps : Finset Hash) (log : List (BOC × ZkProof))
    (pend : List (Hash × BOC)) :
    replay bincode { n with peers := ps } log pend = { replay bincode n log pend with peers := ps } := by
  have ha := List.foldl_hom (fun m : StorageNode => { m with peers := ps }) (storeCharged bincode)
    (storeCharged bincode) log n fun m bp => storeCharged_peers m ps bp
  exact (congrArg (List.foldl insertPending · pend) ha).trans
    (List.foldl_hom (fun m : StorageNode => { m with peers := ps }) _ _ pend _ fun _ _ => rfl)

theorem afterCharge_images (b : BOC) (p : ZkProof) (o : Except String Unit) :
    admittedArgs (.store b p (afterCharge bincode b p o)) = none ∧
      pendingArgs (.store b p (afterCharge bincode b p o)) = none := by
  unfold afterCharge
  split <;> (try split) <;> exact ⟨rfl, rfl⟩

theorem mem_admitted {tasks : List Task} {b : BOC} {p : ZkProof} :
    (b, p) ∈ admitted tasks ↔ Task.store b p (.done (.ok ())) ∈ tasks := by
  refine ⟨fun h => ?_, fun h => List.mem_filterMap.mpr ⟨_, h, rfl⟩⟩
  obtain ⟨t, ht, he⟩ := List.mem_filterMap.mp h
  unfold admittedArgs at he
  split at he
  · cases he; exact ht
  · cases he

theorem mem_pending {tasks : List Task} {bocId : Hash} {b : BOC} :
    (bocId, b) ∈ pending tasks ↔ ∃ p, Task.store b p (.lockProofs bocId) ∈ tasks := by
  refine ⟨fun h => ?_, fun ⟨p, h⟩ => List.mem_filterMap.mpr ⟨_, h, rfl⟩⟩
  obtain ⟨t, ht, he⟩ := List.mem_filterMap.mp h
  unfold pendingArgs at he
  split at he
  · cases he; exact ⟨_, ht⟩
  · cases he

theorem storeCharged_lookup (n : StorageNode) (bp : BOC × ZkProof) (h : Hash) :
    ((storeCharged bincode n bp).storedBocs.lookup h = n.storedBocs.lookup h ∨
        (storeCharged bincode n bp).storedBocs.lookup h = some bp.1) ∧
      ((storeCharged bincode n bp).storedProofs.lookup h = n.storedProofs.lookup h ∨
        (storeCharged bincode n bp).storedProofs.lookup h = some bp.2) := by
  obtain ⟨b, p⟩ := bp
  by_cases hv : p.publicInputs = [(StorageNode.hashBocInternal bincode b).toList]
  · rw [storeCharged_valid bincode n hv]
    by_cases hh : h = StorageNode.hashBocInternal bincode b
    · subst hh; simp
    · simp [AList.lookup_insert_ne hh]
  · simp [storeCharged, StorageNode.storeUpdate, StorageNode.verifyProofInternal_eq, hv]

theorem replay_lookup_bocs {h : Hash} {b : BOC} :
    ∀ (n : StorageNode) (log : List (BOC × ZkProof)) (pend : List (Hash × BOC)),
      (replay bincode n log pend).storedBocs.lookup h = some b →
        n.storedBocs.lookup h = some b ∨ (∃ p, (b, p) ∈ log) ∨ (h, b) ∈ pend
  | n, [], [], hl => .inl hl
  | n, [], (h', b') :: pend, hl => by
    rcases replay_lookup_bocs (insertPending n (h', b')) [] pend hl with hl | ⟨_, hm⟩ | hm
    · by_cases he : h = h'
      · subst he
        simp only [insertPending, AList.lookup_insert, Option.some.injEq] at hl
        exact .inr (.inr (hl ▸ List.mem_cons_self _ _))
      · exact .inl (by simpa [insertPending, AList.lookup_insert_ne he] using hl)
    · cases hm
    · exact .inr (.inr (List.mem_cons_of_mem _ hm))
  | n, bp :: log, pend, hl => by
    rcases replay_lookup_bocs (storeCharged bincode n bp) log pend hl with hl | ⟨p, hm⟩ | hm
    · rcases (storeCharged_lookup n bp h).1 with he | he <;> rw [he] at hl
      · exact .inl hl
      · exact .inr (.inl ⟨bp.2, by rw [← Option.some.inj hl]; exact List.mem_cons_self _ _⟩)
    · exact .inr (.inl ⟨p, List.mem_cons_of_mem _ hm⟩)
    · exact .inr (.inr hm)

theorem replay_lookup_proofs {h : Hash} {p : ZkProof} :
    ∀ (n : StorageNode) (log : List (BOC × ZkProof)) (pend : List (Hash × BOC)),
      (replay bincode n log pend).storedProofs.lookup h = some p →
        n.storedProofs.lookup h = some p ∨ ∃ b, (b, p) ∈ log
  | n, [], [], hl => .inl hl
  | n, [], e :: pend, hl => replay_lookup_proofs (insertPending n e) [] pend hl
  | n, bp :: log, pend, hl => by
    rcases replay_lookup_proofs (storeCharged bincode n bp) log pend hl with hl | ⟨b, hm⟩
    · rcases (storeCharged_lookup n bp h).2 with he | he <;> rw [he] at hl
      · exact .inl hl
      · exact .inr ⟨bp.1, by rw [← Option.some.inj hl]; exact List.mem_cons_self _ _⟩
    · exact .inr ⟨b, List.mem_cons_of_mem _ hm⟩

variable {s s' : System}

theorem Serialized.frame (h : Serialized bincode s) (hn : s'.node = s.node)
    (ha : admitted s'.tasks = admitted s.tasks) (hp : pending s'.tasks = pending s.tasks) :
    Serialized bincode s' := by
  obtain ⟨h1, h2, log, hl, hr⟩ := h
  rw [← hn, ← ha, ← hp] at *
  exact ⟨h1, h2, log, hl, hr⟩

theorem Serialized.set (h : Serialized bincode s) (hn : s'.node = s.node) {i : Nat} {u t : Task}
    (hi : s.tasks[i]? = some u) (ht : s'.tasks = s.tasks.set i t)
    (hu : admittedArgs u = none ∧ pendingArgs u = none) (ht' : admittedArgs t = none ∧ pendingArgs t = none) :
    Serialized bincode s' :=
  h.frame hn (by rw [ht, admitted, admitted, filterMap_set_of_eq _ hi (ht'.1.trans hu.1.symm)])
    (by rw [ht, pending, pending, filterMap_set_of_eq _ hi (ht'.2.trans hu.2.symm)])

theorem Serialized.append (h : Serialized bincode s) (hn : s'.node = s.node) {t : Task}
    (ht : s'.tasks = s.tasks ++ [t]) (ht' : admittedArgs t = none ∧ pendingArgs t = none) :
    Serialized bincode s' :=
  h.frame hn (by simp [ht, admitted, ht'.1]) (by simp [ht, pending, ht'.2])

theorem Serialized.setLoop (h : Serialized bincode s) (hn : s'.node = s.node) {i g g' : Nat}
    {pc pc' : LoopPc} (hi : s.tasks[i]? = some (.loop g pc)) (ht : s'.tasks = s.tasks.set i (.loop g' pc')) :
    Serialized bincode s' :=
  h.set hn hi ht ⟨rfl, rfl⟩ ⟨rfl, rfl⟩

theorem Serialized.insertBoc (h : Serialized bincode s) {i : Nat} {b : BOC} {p : ZkProof} {bocId : Hash}
    (hi : s.tasks[i]? = some (.store b p (.lockBocs bocId))) (hf : s.BocsFree) :
    Serialized bincode { s with node := { s.node with storedBocs := s.node.storedBocs.insert bocId b },
                                tasks := s.tasks.set i (.store b p (.lockProofs bocId)) } := by
  obtain ⟨-, h2, log, hl, hr⟩ := h
  have h0 : pending s.tasks = [] := pending_eq_nil_iff.mpr hf
  have hp : pending (s.tasks.set i (.store b p (.lockProofs bocId))) = [(bocId, b)] := by
    simpa [h0, pendingArgs, List.perm_singleton] using pending_set_perm hi (.store b p (.lockProofs bocId))
  have ha : admitted (s.tasks.set i (.store b p (.lockProofs bocId))) = admitted s.tasks :=
    filterMap_set_of_eq _ hi rfl
  rw [h0] at hr
  refine ⟨by simp [hp], by rw [ha]; exact h2, log, ha ▸ hl, ?_⟩
  rw [hp]
  exact congrArg (insertPending · (bocId, b)) hr

theorem Serialized.insertProof (h : Serialized bincode s) (hc : Consistent bincode s.node s.tasks)
    {i : Nat} {b : BOC} {p : ZkProof} {bocId : Hash} (hi : s.tasks[i]? = some (.store b p (.lockProofs bocId))) :
    Serialized bincode { s with node := { s.node with storedProofs := s.node.storedProofs.insert bocId p },
                                tasks := s.tasks.set i (.store b p (.done (.ok ()))) } := by
  obtain ⟨h1, h2, log, hl, hr⟩ := h
  obtain ⟨rfl, hv, -⟩ : TaskOk bincode s.node (.store b p (.lockProofs bocId)) :=
    hc.tasksOk _ (List.getElem?_mem hi)
  have hp := pending_set_perm hi (.store b p (.done (.ok ())))
  have ha := admitted_set_perm hi (.store b p (.done (.ok ())))
  simp only [pendingArgs, admittedArgs, Option.toList_some, Option.toList_none, List.append_nil] at hp ha
  have hp0 : pending (s.tasks.set i (.store b p (.done (.ok ())))) = [] := by
    have := hp.length_eq
    simp only [List.length_append, List.length_singleton] at this
    exact List.eq_nil_of_length_eq_zero (by omega)
  have hp1 : pending s.tasks = [(StorageNode.hashBocInternal bincode b, b)] := by
    rw [hp0] at hp
    exact (List.singleton_perm.mp hp).symm
  refine ⟨by simp [hp0], fun bp hbp => ?_, log ++ [(b, p)], (hl.append_right _).trans ha.symm, ?_⟩
  · rcases List.mem_append.mp ((ha.mem_iff).mp hbp) with hbp | hbp
    · exact (AList.mem_insert _).mpr (.inr (h2 bp hbp))
    · rw [List.mem_singleton.mp hbp]
      exact (AList.mem_insert _).mpr (.inl rfl)
  · show replay bincode (emptied s.node) (log ++ [(b, p)]) (pending (s.tasks.set i _)) =
      { s.node with storedProofs := s.node.storedProofs.insert (StorageNode.hashBocInternal bincode b) p }
    rw [hp0, replay, List.foldl_append, List.foldl_cons, List.foldl_nil, List.foldl_nil,
      storeCharged_valid bincode _ hv]
    rw [hp1, replay, List.foldl_cons, List.foldl_nil] at hr
    generalize List.foldl (storeCharged bincode) (emptied s.node) log = F at hr ⊢
    rw [← hr]
    rfl

theorem Serialized.peers (h : Serialized bincode s) (ps : Finset Hash) :
    Serialized bincode { s with node := { s.node with peers := ps } } := by
  obtain ⟨h1, h2, log, hl, hr⟩ := h
  exact ⟨h1, h2, log, hl,
    (replay_peers (emptied s.node) ps log _).trans (congrArg (fun n => { n with peers := ps }) hr)⟩

variable {responseThreshold : UInt64}

/-- Every step keeps the replay: only the two inserts change what it must account for. -/
theorem Serialized.step (h : Serialized bincode s) (hc : Consistent bincode s.node s.tasks)
    (hs : Step bincode responseThreshold s s') : Serialized bincode s' := by
  cases hs with
  | callStore b p => exact h.append rfl rfl ⟨rfl, rfl⟩
  | lockBattery i b p hi _ => exact h.set rfl hi rfl ⟨rfl, rfl⟩ ⟨rfl, rfl⟩
  | charge i b p o hi => exact h.set rfl hi rfl ⟨rfl, rfl⟩ (afterCharge_images b p o)
  | insertBoc i b p bocId hi hf => exact h.insertBoc hi hf
  | insertProof i b p bocId hi _ => exact h.insertProof hc hi
  | retrieveBoc | retrieveProof | startInProgress | stop => exact h.frame rfl rfl rfl
  | addPeer | removePeer => exact h.peers _
  | start => exact h.append rfl rfl ⟨rfl, rfl⟩
  | loopTop | loopBatchDone | loopBackoff | loopWake => exact h.setLoop rfl ‹_› rfl
  | loopCheck i g d hi _ =>
    obtain ⟨pc, hpc⟩ := afterCheck_tasks responseThreshold s i g d
    exact h.setLoop (afterCheck_node s i g d) hi hpc
  | loopVerify i g x rest a d hi _ =>
    obtain ⟨pc, hpc⟩ := afterVerify_tasks s i g x rest a d
    exact h.setLoop (afterVerify_node s i g x rest a d) hi hpc

theorem serialized_init {nodeId : Hash} {stake : UInt64} {peers : Finset Hash} {n : StorageNode}
    (h : StorageNode.new nodeId stake peers = .ok n) : Serialized bincode (init n) := by
  unfold StorageNode.new at h
  split at h
  · cases h
  · cases h
    exact ⟨by simp [init, pending], by simp [init, admitted], [], .nil, rfl⟩

theorem Reachable.serialized (hs : Reachable bincode responseThreshold s) : Serialized bincode s := by
  induction hs with
  | init _ _ _ _ h => exact serialized_init h
  | step hr hs ih => exact ih.step hr.consistent hs

/-- Under every interleaving of admissions, retrievals, peer updates and verification loops
from a fresh node, the admissions are serializable: some order of the `store_update` calls that
returned `Ok`, run one after the other on the node with empty maps, gives the node; unless one
call is between its two inserts, and then it is the only one, and its BOC insert is the rest. -/
theorem admissions_serializable (hs : Reachable bincode responseThreshold s) :
    ∃ log : List (BOC × ZkProof), log.Perm (admitted s.tasks) ∧
      (s.BocsFree ∧ log.foldl (storeCharged bincode) (emptied s.node) = s.node ∨
        ∃ bocId b, pending s.tasks = [(bocId, b)] ∧
          insertPending (log.foldl (storeCharged bincode) (emptied s.node)) (bocId, b) = s.node) := by
  obtain ⟨h1, -, log, hl, hr⟩ := hs.serialized
  refine ⟨log, hl, ?_⟩
  match hp : pending s.tasks, h1 with
  | [], _ => exact .inl ⟨pending_eq_nil_iff.mp hp, by rw [hp] at hr; exact hr⟩
  | [(bocId, b)], _ => exact .inr ⟨bocId, b, rfl, by rw [hp] at hr; exact hr⟩
  | _ :: _ :: _, h1 => exact absurd h1 (by simp)

theorem oneAdmission_serializable :
    Reachable (fun _ => []) 1 oneAdmission ∧
      ∃ log : List (BOC × ZkProof), log.Perm (admitted oneAdmission.tasks) ∧
        (oneAdmission.BocsFree ∧ log.foldl (storeCharged fun _ => []) (emptied oneAdmission.node) = oneAdmission.node ∨
          ∃ bocId b, pending oneAdmission.tasks = [(bocId, b)] ∧
            insertPending (log.foldl (storeCharged fun _ => []) (emptied oneAdmission.node)) (bocId, b) = oneAdmission.node) :=
  ⟨oneAdmission_reachable, admissions_serializable oneAdmission_reachable⟩

/-- Under every interleaving the node returns only what it was given: a BOC that
`retrieve_boc` finds sits under its own hash and is the BOC of a `store_update` call that
returned `Ok` or is between its two inserts, and a proof that `retrieve_proof` finds is the
proof of a call that returned `Ok`. -/
theorem retrieved_was_stored (hs : Reachable bincode responseThreshold s) (bocId : Hash) :
    (∀ b, s.node.retrieveBoc bocId = .ok b → bocId = StorageNode.hashBocInternal bincode b ∧
        ∃ p, Task.store b p (.done (.ok ())) ∈ s.tasks ∨ Task.store b p (.lockProofs bocId) ∈ s.tasks) ∧
      ∀ p, s.node.retrieveProof bocId = .ok p → ∃ b, Task.store b p (.done (.ok ())) ∈ s.tasks := by
  obtain ⟨-, -, log, hl, hr⟩ := hs.serialized
  refine ⟨fun b hb => ?_, fun p hp => ?_⟩
  · have hb := StorageNode.retrieveBoc_eq_ok.mp hb
    refine ⟨hs.consistent.bocKey _ _ hb, ?_⟩
    rw [← hr] at hb
    rcases replay_lookup_bocs _ log _ hb with h0 | ⟨p, hm⟩ | hm
    · simp [emptied] at h0
    · exact ⟨p, .inl (mem_admitted.mp (hl.subset hm))⟩
    · obtain ⟨p, hm⟩ := mem_pending.mp hm
      exact ⟨p, .inr hm⟩
  · have hp := StorageNode.retrieveProof_eq_ok.mp hp
    rw [← hr] at hp
    rcases replay_lookup_proofs _ log _ hp with h0 | ⟨b, hm⟩
    · simp [emptied] at h0
    · exact ⟨b, mem_admitted.mp (hl.subset hm)⟩

theorem oneAdmission_retrieved_stored :
    let bocId := StorageNode.hashBocInternal (fun _ => []) BOC.new
    Reachable (fun _ => []) 1 oneAdmission ∧
      (∀ b, oneAdmission.node.retrieveBoc bocId = .ok b → bocId = StorageNode.hashBocInternal (fun _ => []) b ∧
        ∃ p, Task.store b p (.done (.ok ())) ∈ oneAdmission.tasks ∨
          Task.store b p (.lockProofs bocId) ∈ oneAdmission.tasks) ∧
        ∀ p, oneAdmission.node.retrieveProof bocId = .ok p →
          ∃ b, Task.store b p (.done (.ok ())) ∈ oneAdmission.tasks :=
  ⟨oneAdmission_reachable, retrieved_was_stored oneAdmission_reachable _⟩

end

end Overpass.System
