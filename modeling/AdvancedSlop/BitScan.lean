/-
# Scans of a bit mask by its leading zeros

* `bitScan` : the loop that finds the next bit by the leading zeros and shifts it out;
* `first_bit` : the leading zeros of a mask end at its first bit;
* `bitScan_eq_visit` : the loop visits the bits one after the other.
-/
import Mathlib.Tactic

namespace BitScan

variable {σ : Type*}

/-- The scan: a round runs `func` on the number of the first bit and shifts the bit out.  There are
no more rounds than bits. -/
def bitScan (func : ℕ → σ → σ) : ℕ → BitVec 32 → ℕ → σ → σ
  | 0, _, _, s => s
  | rounds + 1, mask, offset, s =>
      if mask = 0 then s
      else
        let zeros := mask.clz.toNat
        bitScan func rounds (mask <<< (zeros + 1)) (offset + (zeros + 1)) (func (zeros + offset) s)

/-- The first `n` bits, one after the other. -/
def visit (func : ℕ → σ → σ) : ℕ → BitVec 32 → ℕ → σ → σ
  | 0, _, _, s => s
  | n + 1, mask, offset, s =>
      visit func n (mask <<< 1) (offset + 1) (if mask.msb then func offset s else s)

variable {func : ℕ → σ → σ}

/-- No bits, no visits. -/
theorem visit_zero (n offset : ℕ) (s : σ) : visit func n 0 offset s = s := by
  induction n generalizing offset with
  | zero => rfl
  | succ n ih =>
      have hshift : (0 : BitVec 32) <<< 1 = 0 := by decide
      have hmsb : (0 : BitVec 32).msb = false := by decide
      rw [visit, hshift, hmsb, if_neg Bool.false_ne_true, ih]

/-- Clear bits are passed over. -/
theorem visit_skip {zeros : ℕ} (n : ℕ) (mask : BitVec 32) (offset : ℕ) (s : σ)
    (hclear : ∀ i < zeros, mask.getMsbD i = false) :
    visit func (zeros + n) mask offset s = visit func n (mask <<< zeros) (offset + zeros) s := by
  induction zeros generalizing mask offset with
  | zero => rw [Nat.zero_add, BitVec.shiftLeft_zero, Nat.add_zero]
  | succ zeros ih =>
      have hfirst : mask.msb = false := hclear 0 (Nat.succ_pos zeros)
      have hrest : ∀ i < zeros, (mask <<< 1).getMsbD i = false := by
        intro i hi
        rw [BitVec.getMsbD_shiftLeft]
        exact hclear (i + 1) (Nat.succ_lt_succ hi)
      rw [Nat.add_right_comm, visit, hfirst, if_neg Bool.false_ne_true, ih _ _ hrest,
        ← BitVec.shiftLeft_add, Nat.add_comm 1 zeros, Nat.add_assoc, Nat.add_comm 1 zeros]

/-- The leading zeros of a mask end at its first bit. -/
theorem first_bit {mask : BitVec 32} (h : mask ≠ 0) : mask.clz.toNat < 32 ∧
    mask.getMsbD mask.clz.toNat = true ∧ ∀ i < mask.clz.toNat, mask.getMsbD i = false := by
  have hlt : mask.clz.toNat < 32 := BitVec.clz_lt_iff_ne_zero.mpr h
  refine ⟨hlt, ?_, fun i hi => ?_⟩
  · rw [BitVec.getMsbD_eq_getLsbD, decide_eq_true hlt, Bool.true_and]
    exact BitVec.getLsbD_true_clz_of_ne_zero (by decide) h
  · have hpow : 2 ^ (32 - mask.clz.toNat) ≤ 2 ^ (32 - 1 - i) :=
      Nat.pow_le_pow_right (by decide) (by omega)
    have hbit : mask.getLsbD (32 - 1 - i) = false :=
      Nat.testBit_lt_two_pow (BitVec.toNat_lt_two_pow_sub_clz.trans_le hpow)
    rw [BitVec.getMsbD_eq_getLsbD, hbit, Bool.and_false]

/-- **The loop** visits the bits in order. -/
theorem bitScan_eq_visit {n rounds : ℕ} {mask : BitVec 32} (offset : ℕ) (s : σ)
    (hmask : mask <<< n = 0) (hrounds : n ≤ rounds) :
    bitScan func rounds mask offset s = visit func n mask offset s := by
  induction rounds generalizing n mask offset s with
  | zero =>
      obtain rfl := Nat.le_zero.mp hrounds
      rfl
  | succ rounds ih =>
      rw [bitScan]
      split
      · rename_i hzero
        rw [hzero, visit_zero]
      · rename_i hne
        obtain ⟨hlt, hbit, hclear⟩ := first_bit hne
        simp only
        generalize mask.clz.toNat = zeros at hlt hbit hclear
        have hn : zeros < n := by
          by_contra hge
          have hgone : (mask <<< n).getMsbD (zeros - n) = true := by
            rw [BitVec.getMsbD_shiftLeft, Nat.sub_add_cancel (Nat.le_of_not_lt hge)]
            exact hbit
          rw [hmask] at hgone
          simp at hgone
        obtain ⟨m, rfl⟩ : ∃ m, n = zeros + (m + 1) := ⟨n - zeros - 1, by omega⟩
        have hmsb : (mask <<< zeros).msb = true := by
          rw [BitVec.msb_eq_getMsbD_zero, BitVec.getMsbD_shiftLeft, Nat.zero_add]
          exact hbit
        have hrest : mask <<< (zeros + 1) <<< m = 0 := by
          rw [← BitVec.shiftLeft_add, Nat.add_assoc, Nat.add_comm 1 m]
          exact hmask
        rw [visit_skip (m + 1) mask offset s hclear, visit, hmsb, if_pos rfl,
          ← BitVec.shiftLeft_add, ih _ _ hrest (by omega), Nat.add_comm zeros offset, Nat.add_assoc]

end BitScan
