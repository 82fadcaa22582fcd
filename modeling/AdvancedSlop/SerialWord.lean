/-
# Words sent bit by bit

A word of width `w` arrives one bit at a time, most significant bit first: the `n`-th bit goes to
place `w - 1 - n`.

* `shiftIn` : one more bit;
* `gatherFrom` : a list of bits, the first of them the `n`-th;
* `gatherFrom_bitsOf` : a word sent whole arrives whole;
* `gatherFrom_field` : a field of the word, by the bits that were sent before and after it.
-/
import Mathlib.Data.BitVec

namespace SerialWord

variable {w : Nat}

/-- The `n`-th bit. -/
def shiftIn (x : BitVec w) (n : Nat) (b : Bool) : BitVec w :=
  x ||| ((BitVec.ofBool b).setWidth w <<< (w - (n + 1)))

/-- The bits from the `n`-th on. -/
def gatherFrom (x : BitVec w) (n : Nat) : List Bool → BitVec w
  | [] => x
  | b :: bs => gatherFrom (shiftIn x n b) (n + 1) bs

/-- The bits of a word, most significant first. -/
def bitsOf (x : BitVec w) : List Bool := (List.range w).map x.getMsbD

@[simp] theorem length_bitsOf (x : BitVec w) : (bitsOf x).length = w := by
  rw [bitsOf, List.length_map, List.length_range]

/-- The bits of a word, one by one. -/
theorem getD_bitsOf (x : BitVec w) {i : Nat} (hi : i < w) :
    (bitsOf x).getD i false = x.getMsbD i := by
  rw [List.getD_eq_getElem?_getD, bitsOf, List.getElem?_map, List.getElem?_range hi]
  rfl

/-- One more bit takes its place and leaves the others. -/
theorem getMsbD_shiftIn (x : BitVec w) {n i : Nat} (b : Bool) (hn : n < w) (hi : i < w) :
    (shiftIn x n b).getMsbD i = (x.getMsbD i || (decide (i = n) && b)) := by
  rw [shiftIn, BitVec.getMsbD_or, BitVec.getMsbD_eq_getLsbD _ i, BitVec.getMsbD_eq_getLsbD _ i,
    BitVec.getLsbD_shiftLeft, BitVec.getLsbD_setWidth, BitVec.getLsbD_ofBool]
  congr 1
  by_cases heq : i = n
  · subst heq
    have hplace : w - 1 - i - (w - (i + 1)) = 0 := by omega
    have hle : ¬ w - 1 - i < w - (i + 1) := by omega
    have hlt : w - 1 - i < w := by omega
    simp [hplace, hle, hlt, hi]
    intro _
    omega
  · by_cases hlt : w - 1 - i < w - (n + 1)
    · simp [hlt, heq]
    · have hplace : w - 1 - i - (w - (n + 1)) ≠ 0 := by omega
      simp [hplace, heq]

/-- **The bits of a list take their places and leave the others.** -/
theorem getMsbD_gatherFrom {bs : List Bool} {n : Nat} (x : BitVec w) (hlen : n + bs.length ≤ w)
    {i : Nat} (hi : i < w) :
    (gatherFrom x n bs).getMsbD i =
      (x.getMsbD i || (decide (n ≤ i) && bs.getD (i - n) false)) := by
  induction bs generalizing x n with
  | nil => simp [gatherFrom]
  | cons b bs ih =>
      rw [List.length_cons] at hlen
      rw [gatherFrom, ih _ (by omega), getMsbD_shiftIn _ _ (by omega) hi, Bool.or_assoc]
      congr 1
      obtain hlt | rfl | hgt : i < n ∨ i = n ∨ n < i := by omega
      · have hne : i ≠ n := by omega
        have hnot : ¬ n ≤ i := by omega
        have hnot' : ¬ n + 1 ≤ i := by omega
        simp [hne, hnot, hnot']
      · simp
      · obtain ⟨d, rfl⟩ : ∃ d, i = n + 1 + d := ⟨i - (n + 1), by omega⟩
        have hsub : n + 1 + d - n = d + 1 := by omega
        have hsub' : n + 1 + d - (n + 1) = d := by omega
        have hne : n + 1 + d ≠ n := by omega
        have hle : n ≤ n + 1 + d := by omega
        have hle' : n + 1 ≤ n + 1 + d := by omega
        simp [hsub, hsub', hne, hle, hle']

/-- **A word sent whole arrives whole.** -/
theorem gatherFrom_bitsOf (x : BitVec w) : gatherFrom (0 : BitVec w) 0 (bitsOf x) = x := by
  apply BitVec.eq_of_getMsbD_eq
  intro i hi
  rw [getMsbD_gatherFrom _ (by simp) hi, Nat.sub_zero, getD_bitsOf x hi]
  simp

/-- **A field of the word.** -/
theorem gatherFrom_field {f : Nat} (before : List Bool) (field : BitVec f) (after : List Bool)
    (hlen : before.length + f + after.length ≤ w) :
    (gatherFrom (0 : BitVec w) 0 (before ++ bitsOf field ++ after)).toNat /
      2 ^ (w - before.length - f) % 2 ^ f = field.toNat := by
  apply Nat.eq_of_testBit_eq
  intro i
  rw [Nat.testBit_mod_two_pow, Nat.testBit_div_two_pow, BitVec.testBit_toNat,
    BitVec.testBit_toNat]
  by_cases hi : i < f
  · have hindex : (w - before.length - f) + i = w - 1 - (before.length + (f - 1 - i)) := by omega
    have hmsb : before.length + (f - 1 - i) < w := by omega
    have hall : 0 + (before ++ bitsOf field ++ after).length ≤ w := by
      simp only [List.length_append, length_bitsOf]
      omega
    have hbit := getMsbD_gatherFrom (0 : BitVec w) hall hmsb
    rw [BitVec.getMsbD_eq_getLsbD] at hbit
    simp only [hmsb, decide_true, Bool.true_and] at hbit
    have hfield : field.getMsbD (f - 1 - i) = field.getLsbD i := by
      have hback : f - 1 - (f - 1 - i) = i := by omega
      have hlt : f - 1 - i < f := by omega
      rw [BitVec.getMsbD_eq_getLsbD, hback]
      simp only [hlt, decide_true, Bool.true_and]
    have hinside : before.length + (f - 1 - i) < (before ++ bitsOf field).length := by
      rw [List.length_append, length_bitsOf]
      omega
    rw [Nat.add_comm i, hindex, hbit, List.getD_eq_getElem?_getD, Nat.sub_zero,
      List.getElem?_append_left hinside, List.getElem?_append_right (by omega),
      Nat.add_sub_cancel_left, ← List.getD_eq_getElem?_getD, getD_bitsOf field (by omega), hfield]
    simp [hi]
  · have hge : f ≤ i := by omega
    rw [BitVec.getLsbD_of_ge _ _ hge]
    simp [hi]

end SerialWord
