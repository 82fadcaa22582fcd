/-
# Word arithmetic with carries

Sums and shifts of words as sums and products of numbers, with the carry and the overflow that are
lost in the word.

* `addWithCarry` : the sum of two words and a carry, as an unsigned and as a signed number;
* `lslCarry`, `lsrCarry`, `asrCarry`, `rorCarry`, `rrxCarry` : shifts with the last bit shifted out;
* `addWithCarry_overflow` : the sum overflows where the signs of its operands agree and its own
  differs.
-/
import Mathlib.Tactic

namespace WordArith

variable {w : ℕ}

/-! ## Sums -/

/-- The sum of two words and a carry, its carry, and whether it overflows as a signed number. -/
def addWithCarry (x y : BitVec w) (carry : Bool) : BitVec w × Bool × Bool :=
  let unsigned : ℕ := x.toNat + y.toNat + carry.toNat
  let signed : ℤ := x.toInt + y.toInt + carry.toNat
  let result := BitVec.ofNat w unsigned
  (result, decide (result.toNat ≠ unsigned), decide (result.toInt ≠ signed))

theorem addWithCarry_fst (x y : BitVec w) (carry : Bool) :
    (addWithCarry x y carry).1 = x + y + BitVec.ofNat w carry.toNat := by
  apply BitVec.eq_of_toNat_eq
  simp [addWithCarry, BitVec.toNat_add, Nat.add_mod]

theorem addWithCarry_carry (x y : BitVec w) (carry : Bool) :
    (addWithCarry x y carry).2.1 = decide (2 ^ w ≤ x.toNat + y.toNat + carry.toNat) := by
  simp only [addWithCarry, BitVec.toNat_ofNat, ne_eq, decide_eq_decide]
  rw [← not_lt, not_iff_not]
  exact ⟨fun h => h ▸ Nat.mod_lt _ (Nat.two_pow_pos w), Nat.mod_eq_of_lt⟩

theorem two_pow_eq (hw : 0 < w) : 2 ^ w = 2 * 2 ^ (w - 1) := by
  rw [← Nat.pow_succ', Nat.succ_eq_add_one, Nat.sub_add_cancel hw]

/-- **Overflow by signs.** -/
theorem addWithCarry_overflow (hw : 0 < w) (x y : BitVec w) (carry : Bool) :
    (addWithCarry x y carry).2.2 =
      (x.msb == y.msb && x.msb != (addWithCarry x y carry).1.msb) := by
  have hhalf := two_pow_eq hw
  have hx := x.isLt
  have hy := y.isLt
  have hc : carry.toNat ≤ 1 := by cases carry <;> simp
  rw [Bool.eq_iff_iff]
  simp only [addWithCarry, BitVec.toInt_eq_msb_cond, BitVec.msb_eq_decide, BitVec.toNat_ofNat,
    Bool.and_eq_true, beq_iff_eq, bne_iff_ne, decide_eq_true_eq, ne_eq, decide_eq_decide]
  generalize x.toNat = a at *
  generalize y.toNat = b at *
  generalize carry.toNat = c at *
  generalize 2 ^ (w - 1) = half at *
  -- the sum wraps at most once
  have hmod : (a + b + c) % 2 ^ w = if a + b + c < 2 ^ w then a + b + c else a + b + c - 2 ^ w := by
    split
    · exact Nat.mod_eq_of_lt ‹_›
    · rw [Nat.mod_eq_sub_mod (by omega), Nat.mod_eq_of_lt (by omega)]
  rw [hmod]
  push_cast [hhalf]
  generalize 2 ^ w = full at *
  subst hhalf
  split_ifs <;> omega

/-- A difference is the sum with the complement. -/
theorem addWithCarry_not (x y : BitVec w) (carry : Bool) :
    (addWithCarry x (~~~y) carry).1 = x - y - BitVec.ofNat w (1 - carry.toNat) := by
  rw [addWithCarry_fst, BitVec.not_eq_neg_add]
  cases carry
  · rw [Bool.toNat_false, Nat.sub_zero]
    grind
  · rw [Bool.toNat_true, Nat.sub_self]
    grind

theorem addWithCarry_not_carry (x y : BitVec w) (carry : Bool) :
    (addWithCarry x (~~~y) carry).2.1 = decide (y.toNat + (1 - carry.toNat) ≤ x.toNat) := by
  rw [addWithCarry_carry, BitVec.toNat_not, decide_eq_decide]
  have hy := y.isLt
  cases carry <;> simp <;> omega

theorem addWithCarry_not_overflow (hw : 0 < w) (x y : BitVec w) (carry : Bool) :
    (addWithCarry x (~~~y) carry).2.2 =
      (x.msb != y.msb && x.msb != (addWithCarry x (~~~y) carry).1.msb) := by
  rw [addWithCarry_overflow hw, BitVec.msb_not, decide_eq_true hw, Bool.true_and]
  cases x.msb <;> cases y.msb <;> rfl

/-! ## Shifts -/

/-- A shift to the left: the product with a power of two. -/
def lslCarry (x : BitVec w) (n : ℕ) (carry : Bool) : BitVec w × Bool :=
  (BitVec.ofNat w (x.toNat * 2 ^ n), if n = 0 then carry else (x.toNat * 2 ^ n).testBit w)

/-- A shift to the right: the quotient. -/
def lsrCarry (x : BitVec w) (n : ℕ) (carry : Bool) : BitVec w × Bool :=
  (BitVec.ofNat w (x.toNat / 2 ^ n), if n = 0 then carry else x.toNat.testBit (n - 1))

/-- A shift to the right with the sign: the quotient of the signed number, rounded down. -/
def asrCarry (x : BitVec w) (n : ℕ) (carry : Bool) : BitVec w × Bool :=
  (BitVec.ofInt w (x.toInt / 2 ^ n),
    if n = 0 then carry else decide (x.toInt / 2 ^ (n - 1) % 2 = 1))

/-- A rotation to the right. -/
def rorCarry (x : BitVec w) (n : ℕ) (carry : Bool) : BitVec w × Bool :=
  (x.rotateRight n, if n = 0 then carry else (x.rotateRight n).msb)

/-- A rotation by one through the carry. -/
def rrxCarry (x : BitVec w) (carry : Bool) : BitVec w × Bool :=
  (BitVec.ofNat w ((carry.toNat * 2 ^ w + x.toNat) / 2), x.getLsbD 0)

theorem lslCarry_fst (x : BitVec w) (n : ℕ) (carry : Bool) : (lslCarry x n carry).1 = x <<< n := by
  apply BitVec.eq_of_toNat_eq
  simp [lslCarry, Nat.shiftLeft_eq]

/-- The last bit that leaves to the left. -/
theorem lslCarry_snd (x : BitVec w) {n : ℕ} (hn : n ≠ 0) (carry : Bool) :
    (lslCarry x n carry).2 = (decide (n ≤ w) && x.getLsbD (w - n)) := by
  rw [lslCarry, if_neg hn, Nat.testBit_mul_two_pow]
  rfl

theorem lsrCarry_fst (x : BitVec w) (n : ℕ) (carry : Bool) : (lsrCarry x n carry).1 = x >>> n := by
  apply BitVec.eq_of_toNat_eq
  have hlt : x.toNat / 2 ^ n < 2 ^ w := (Nat.div_le_self _ _).trans_lt x.isLt
  simp [lsrCarry, Nat.shiftRight_eq_div_pow, Nat.mod_eq_of_lt hlt]

theorem lsrCarry_snd (x : BitVec w) {n : ℕ} (hn : n ≠ 0) (carry : Bool) :
    (lsrCarry x n carry).2 = x.getLsbD (n - 1) := by
  rw [lsrCarry, if_neg hn]
  rfl

theorem asrCarry_fst (x : BitVec w) (n : ℕ) (carry : Bool) :
    (asrCarry x n carry).1 = x.sshiftRight n := by
  have hshift : (x.sshiftRight n).toInt = x.toInt / 2 ^ n := by
    rw [BitVec.toInt_sshiftRight, Int.shiftRight_eq_div_pow]
    norm_cast
  rw [asrCarry, ← hshift, BitVec.ofInt_toInt]

/-- The lowest bit is the parity of the signed number. -/
theorem toInt_emod_two (hw : 0 < w) (x : BitVec w) :
    decide (x.toInt % 2 = 1) = x.getLsbD 0 := by
  have heven : ((2 ^ w : ℕ) : ℤ) % 2 = 0 := by
    rw [two_pow_eq hw]
    push_cast
    exact Int.mul_emod_right 2 _
  have hbit : x.getLsbD 0 = decide (x.toNat % 2 = 1) := by
    rw [← BitVec.testBit_toNat, Nat.testBit_zero]
  rw [hbit, decide_eq_decide, BitVec.toInt_eq_msb_cond]
  split <;> omega

theorem asrCarry_snd (hw : 0 < w) (x : BitVec w) {n : ℕ} (hn : n ≠ 0) (carry : Bool) :
    (asrCarry x n carry).2 = if n - 1 < w then x.getLsbD (n - 1) else x.msb := by
  have hshift : x.toInt / 2 ^ (n - 1) = (x.sshiftRight (n - 1)).toInt := by
    rw [BitVec.toInt_sshiftRight, Int.shiftRight_eq_div_pow]
    norm_cast
  rw [asrCarry, if_neg hn, hshift, toInt_emod_two hw, BitVec.getLsbD_sshiftRight, Nat.add_zero,
    decide_eq_false (by omega), Bool.not_false, Bool.true_and]

theorem rotateRight_zero (x : BitVec w) : x.rotateRight 0 = x := by
  simp [BitVec.rotateRight_def]

theorem rorCarry_snd (hw : 0 < w) (x : BitVec w) {n : ℕ} (hn : n ≠ 0) (carry : Bool) :
    (rorCarry x n carry).2 = x.getLsbD (if n % w = 0 then w - 1 else n % w - 1) := by
  have hlt := Nat.mod_lt n hw
  rw [rorCarry, if_neg hn, BitVec.msb_rotateRight]
  rw [BitVec.getMsbD_eq_getLsbD]
  split
  · simp [*]
  · have : (w - n % w) % w = w - n % w := Nat.mod_eq_of_lt (by omega)
    rw [this]
    have : w - 1 - (w - n % w) = n % w - 1 := by omega
    simp [this]
    omega

theorem rrxCarry_fst (hw : 0 < w) (x : BitVec w) (carry : Bool) :
    (rrxCarry x carry).1 =
      ((BitVec.ofBool carry).setWidth w <<< (w - 1)) ||| (x >>> 1) := by
  apply BitVec.eq_of_getLsbD_eq
  intro i hi
  have hx := x.isLt
  have hdiv : (carry.toNat * 2 ^ w + x.toNat) / 2 = carry.toNat * 2 ^ (w - 1) + x.toNat / 2 := by
    rw [two_pow_eq hw, Nat.mul_left_comm, Nat.mul_add_div two_pos]
  rw [rrxCarry, hdiv, BitVec.getLsbD_ofNat, decide_eq_true hi, Bool.true_and]
  have hlt : x.toNat / 2 < 2 ^ (w - 1) := by
    have := two_pow_eq hw
    omega
  rw [Nat.mul_comm, Nat.testBit_two_pow_mul_add _ hlt]
  by_cases hlast : i < w - 1
  · simp [hlast, Nat.testBit_div_two, BitVec.testBit_toNat, Nat.add_comm 1 i]
  · obtain rfl : i = w - 1 := by omega
    have hout : x.getLsbD (1 + (w - 1)) = false := BitVec.getLsbD_of_ge x _ (by omega)
    cases carry <;> simp [hw, hout]

end WordArith
