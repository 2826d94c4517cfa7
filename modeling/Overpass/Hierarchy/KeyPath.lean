import Overpass.Hierarchy.SparseMerkleTree

/-! How `generate_merkle_path` reads a key: level `i` follows bit `i` of the key, the most
significant bit of the first byte first, so a 32-byte key and its 256 directions determine each
other. -/
namespace Overpass

/-- A byte string read as a big-endian unsigned integer. -/
def beValue : Bytes → Nat
  | [] => 0
  | b :: bs => 2 ^ (8 * bs.length) * b.toNat + beValue bs

theorem beValue_lt : ∀ l : Bytes, beValue l < 2 ^ (8 * l.length)
  | [] => Nat.one_pos
  | b :: bs => by
    have hb : b.toNat < 2 ^ 8 := b.toNat_lt
    have ih := beValue_lt bs
    calc beValue (b :: bs) = 2 ^ (8 * bs.length) * b.toNat + beValue bs := rfl
      _ < 2 ^ (8 * bs.length) * (b.toNat + 1) := by rw [Nat.mul_succ]; omega
      _ ≤ 2 ^ (8 * bs.length) * 2 ^ 8 := Nat.mul_le_mul_left _ hb
      _ = 2 ^ (8 * (b :: bs).length) := by rw [← Nat.pow_add]; simp [Nat.mul_succ]

theorem testBit_beValue : ∀ (l : Bytes) {q : Nat} (hq : q < l.length) {b : Nat}, b < 8 →
    (beValue l).testBit (8 * (l.length - 1 - q) + b) = l[q].toNat.testBit b
  | [], _, hq, _, _ => absurd hq (Nat.not_lt_zero _)
  | x :: xs, 0, _, b, _ => by
    rw [beValue, Nat.testBit_mul_pow_two_add _ (beValue_lt xs)]
    simp
  | x :: xs, q + 1, hq, b, hb => by
    have hq' : q < xs.length := by simpa using hq
    have e : (x :: xs).length - 1 - (q + 1) = xs.length - 1 - q := by simp; omega
    rw [e, beValue, Nat.testBit_mul_pow_two_add _ (beValue_lt xs), if_pos (by omega),
      List.getElem_cons_succ, testBit_beValue xs hq' hb]

namespace SparseMerkleTreeI

theorem shiftRight_and_one (x : UInt8) {s : Nat} (hs : s < 8) :
    ((x >>> s.toUInt8) &&& 1 == 1) = x.toNat.testBit s := by
  have h1 : (x >>> s.toUInt8).toNat = x.toNat >>> s := by
    show x.toNat >>> (s.toUInt8 % 8).toNat = _
    rw [UInt8.toNat_mod, Nat.toUInt8, UInt8.toNat_ofNat_of_lt (by simp [UInt8.size]; omega)]
    simp [UInt8.size, Nat.mod_eq_of_lt hs]
  have h2 : ((x >>> s.toUInt8) &&& 1 == 1) = ((x.toNat >>> s) % 2 == 1) := by
    rw [← h1, ← Nat.and_one_is_mod, Bool.eq_iff_iff, beq_iff_eq, beq_iff_eq]
    exact ⟨fun h => congrArg UInt8.toNat h, fun h => UInt8.toNat.inj h⟩
  rw [h2, Nat.testBit, Nat.one_and_eq_mod_two]
  rcases Nat.mod_two_eq_zero_or_one (x.toNat >>> s) with h | h <;> simp [h]

theorem getBit_eq_testBit (key : Bytes) {i : Nat} (h : i / 8 < key.length) :
    getBit key i = key[i / 8].toNat.testBit (7 - i % 8) := by
  simp only [getBit, dif_pos h]
  exact shiftRight_and_one _ (by omega)

theorem getBit_byte (k : Hash) {q b : Nat} (hq : q < 32) (hb : b < 8) :
    getBit k.toList (8 * q + (7 - b)) = (k.get ⟨q, hq⟩).toNat.testBit b := by
  have e1 : (8 * q + (7 - b)) / 8 = q := by omega
  have e2 : 7 - (8 * q + (7 - b)) % 8 = b := by omega
  rw [getBit_eq_testBit _ (by simpa [e1] using hq)]
  simp only [e1, e2]
  rfl

/-- The directions `generate_merkle_path` takes for a 32-byte key in a tree of height 256. -/
def keyPath (k : Hash) : Mathlib.Vector Bool 256 := ⟨(List.range 256).map (getBit k.toList), by simp⟩

/-- The key whose path is `d`: byte `q` is `d`'s bits `8 q` to `8 q + 7`, most significant
first. -/
def pathKey (d : Mathlib.Vector Bool 256) : Hash :=
  Mathlib.Vector.ofFn fun q : Fin 32 => UInt8.ofNat (BitVec.ofBoolListBE ((d.toList.drop (8 * q)).take 8)).toNat

theorem getBit_of_keyPath_eq {k₁ k₂ : Hash} (h : keyPath k₁ = keyPath k₂) {i : Nat} (hi : i < 256) :
    getBit k₁.toList i = getBit k₂.toList i :=
  List.map_inj_left.mp (congrArg Mathlib.Vector.toList h) i (List.mem_range.mpr hi)

theorem keyPath_injective : Function.Injective keyPath := by
  intro k₁ k₂ h
  refine Mathlib.Vector.ext fun ⟨q, hq⟩ => UInt8.toNat.inj (Nat.eq_of_testBit_eq fun b => ?_)
  by_cases hb : b < 8
  · rw [← getBit_byte k₁ hq hb, ← getBit_byte k₂ hq hb]
    exact getBit_of_keyPath_eq h (by omega)
  · have hle : 2 ^ 8 ≤ 2 ^ b := Nat.pow_le_pow_right (by decide) (by omega)
    rw [Nat.testBit_lt_two_pow (lt_of_lt_of_le (UInt8.toNat_lt _) hle),
      Nat.testBit_lt_two_pow (lt_of_lt_of_le (UInt8.toNat_lt _) hle)]

theorem testBit_pathKey (d : Mathlib.Vector Bool 256) {q b : Nat} (hq : q < 32) (hb : b < 8) :
    ((pathKey d).get ⟨q, hq⟩).toNat.testBit b = d.toList.getD (8 * q + (7 - b)) false := by
  let chunk := (d.toList.drop (8 * q)).take 8
  have hlen : chunk.length = 8 := by simp [chunk]; omega
  have hlt : (BitVec.ofBoolListBE chunk).toNat < UInt8.size := lt_of_lt_of_le (BitVec.isLt _) (by rw [hlen])
  simp only [pathKey, Mathlib.Vector.get_ofFn]
  rw [UInt8.toNat_ofNat_of_lt hlt, BitVec.testBit_toNat, BitVec.getLsbD_ofBoolListBE]
  rw [hlen, decide_eq_true hb, Bool.true_and, List.getD_eq_getElem?_getD, List.getD_eq_getElem?_getD,
    List.getElem?_take_of_lt (by omega), List.getElem?_drop]

theorem keyPath_pathKey (d : Mathlib.Vector Bool 256) : keyPath (pathKey d) = d := by
  apply Mathlib.Vector.toList_injective
  refine List.ext_getElem (by simp [keyPath]) fun i h₁ h₂ => ?_
  have hq : i / 8 < 32 := by simp at h₂; omega
  have hb : 7 - i % 8 < 8 := by omega
  have e : 8 * (i / 8) + (7 - (7 - i % 8)) = i := by omega
  have hbit := getBit_byte (pathKey d) hq hb
  rw [e, testBit_pathKey d hq hb, e] at hbit
  simp [keyPath, hbit, List.getElem?_eq_getElem h₂]

/-- A walk that succeeds records, level by level, the key's bit at that level. -/
theorem walk_directions {nodes : NodeMap} {key : Bytes} :
    ∀ {i n : Nat} {current : Hash} {path : List (Hash × Bool)}, walk nodes key i n current = .ok path →
      path.map Prod.snd = (List.range' i n).map (getBit key)
  | _, 0, _, _, h => by simp only [walk, Except.ok.injEq] at h; simp [← h]
  | i, n + 1, current, path, h => by
    simp only [walk] at h
    split at h
    · cases h
    · split at h
      · cases h
      · rename_i next _
        cases hw : walk nodes key (i + 1) n next with
        | error e => simp [hw, Functor.map, Except.map] at h
        | ok p =>
          simp only [hw, Functor.map, Except.map, Except.ok.injEq] at h
          simp [← h, walk_directions hw, List.range'_succ]

/-- Read as a big-endian number, a 32-byte key has bit `255 - i` at level `i`; its 256
directions determine it and every direction sequence is some key's; and in a tree of height 256
`generate_merkle_path` succeeds exactly when the nodes along those directions are stored from
the root on, and then records at each level the child it follows and the key's bit. -/
theorem key_directions_bijective :
    (∀ (k : Hash) (i : Fin 256), getBit k.toList i = (beValue k.toList).testBit (255 - i)) ∧
      Function.Bijective keyPath ∧
      ∀ (t : SparseMerkleTreeI) (k : Hash) (path : List (Hash × Bool)), t.height = 256 →
        (t.generateMerklePath k.toList = .ok path ↔
          ∃ ns, pathNodes t.nodes k.toList 0 256 t.rootHash = some ns ∧ ns.map Prod.snd = (keyPath k).toList ∧
            path = ns.map fun nb => ((nb.1.child nb.2).getD zeroHash, nb.2)) := by
  refine ⟨fun k ⟨i, hi⟩ => ?_, ⟨keyPath_injective, fun d => ⟨pathKey d, keyPath_pathKey d⟩⟩,
    fun t k path ht => ?_⟩
  · have hq : i / 8 < k.toList.length := by simp; omega
    have e : 255 - i = 8 * (k.toList.length - 1 - i / 8) + (7 - i % 8) := by simp; omega
    rw [getBit_eq_testBit _ hq, e, testBit_beValue _ hq (by omega)]
  · rw [generateMerklePath, ht]
    refine ⟨fun h => ?_, fun ⟨ns, hns, _, hp⟩ => hp ▸ walk_of_pathNodes hns⟩
    obtain ⟨ns, hns, rfl⟩ := pathNodes_of_walk h
    refine ⟨ns, hns, ?_, rfl⟩
    simpa [keyPath, List.range_eq_range', Function.comp_def] using walk_directions h

end SparseMerkleTreeI

end Overpass
