/-
# Words in a byte memory

Little-endian words of `k` bytes in a memory of bytes, one word or a run of words at a time.

* `readWord`, `writeWord` : one word;
* `readWords`, `writeWords` : a run of words, as one copy reads or writes it;
* `writeEach_writeWord` : writing a run is writing its words in order.
-/
import AdvancedSlop.IndexedLoop
import Mathlib.Tactic

namespace WordMemory

open IndexedLoop

variable {k n : ℕ}

/-! ## The bytes of a word -/

/-- Byte `i` of a word. -/
def byteOf (value : BitVec n) (i : ℕ) : UInt8 := UInt8.ofNat (value.toNat / 256 ^ i)

/-- Two numbers below `256 ^ k` with the same `k` digits are equal. -/
theorem eq_of_digits {a b : ℕ} (ha : a < 256 ^ k) (hb : b < 256 ^ k)
    (h : ∀ i < k, a / 256 ^ i % 256 = b / 256 ^ i % 256) : a = b := by
  induction k generalizing a b with
  | zero =>
      rw [pow_zero] at ha hb
      omega
  | succ k ih =>
      have hlow : a % 256 = b % 256 := by simpa using h 0 (Nat.succ_pos k)
      have hhigh : a / 256 = b / 256 := by
        apply ih
        · rw [Nat.div_lt_iff_lt_mul (by decide), ← pow_succ]
          exact ha
        · rw [Nat.div_lt_iff_lt_mul (by decide), ← pow_succ]
          exact hb
        · intro i hi
          have hdigit := h (i + 1) (Nat.succ_lt_succ hi)
          rwa [pow_succ', ← Nat.div_div_eq_div_mul, ← Nat.div_div_eq_div_mul] at hdigit
      omega

/-- Equal bytes are equal digits. -/
theorem toNat_byteOf (value : BitVec n) (i : ℕ) :
    (byteOf value i).toNat = value.toNat / 256 ^ i % 256 :=
  UInt8.toNat_ofNat' ..

/-- A word is determined by its bytes. -/
theorem word_ext {v w : BitVec (8 * k)} (h : ∀ i < k, byteOf v i = byteOf w i) : v = w := by
  have hpow : 2 ^ (8 * k) = 256 ^ k := by
    rw [pow_mul]
    rfl
  apply BitVec.eq_of_toNat_eq
  apply eq_of_digits
  · exact hpow ▸ v.isLt
  · exact hpow ▸ w.isLt
  · intro i hi
    rw [← toNat_byteOf, ← toNat_byteOf, h i hi]

/-! ## One word -/

/-- The word at an offset. -/
def readWord (k : ℕ) (mem : ℕ → UInt8) (offset : ℕ) : BitVec (8 * k) :=
  BitVec.ofNat _ ((List.range k).foldr (fun i value =>
    (mem (offset + i)).toNat * 256 ^ i + value) 0)

/-- The memory with a word written at an offset. -/
def writeWord (k : ℕ) (mem : ℕ → UInt8) (offset : ℕ) (value : BitVec (8 * k)) : ℕ → UInt8 :=
  fun a => if offset ≤ a ∧ a < offset + k then byteOf value (a - offset) else mem a

/-- The number a word reads as has the bytes of the memory as its digits. -/
theorem digits_readWord (mem : ℕ → UInt8) (offset k : ℕ) :
    (List.range k).foldr (fun i value => (mem (offset + i)).toNat * 256 ^ i + value) 0 < 256 ^ k ∧
      ∀ i < k, (List.range k).foldr (fun i value =>
        (mem (offset + i)).toNat * 256 ^ i + value) 0 / 256 ^ i % 256 =
          (mem (offset + i)).toNat := by
  have hinit : ∀ (l : List ℕ) (c : ℕ),
      l.foldr (fun i value => (mem (offset + i)).toNat * 256 ^ i + value) c =
        l.foldr (fun i value => (mem (offset + i)).toNat * 256 ^ i + value) 0 + c := by
    intro l c
    induction l with
    | nil => simp
    | cons i l ih => rw [List.foldr_cons, List.foldr_cons, ih, Nat.add_assoc]
  induction k with
  | zero => exact ⟨by simp, by simp⟩
  | succ k ih =>
      obtain ⟨hlt, hdigits⟩ := ih
      rw [List.range_succ, List.foldr_append, hinit]
      simp only [List.foldr_cons, List.foldr_nil, Nat.add_zero]
      generalize (List.range k).foldr _ 0 = low at hlt hdigits ⊢
      have hbyte := (mem (offset + k)).toNat_lt
      constructor
      · rw [pow_succ]
        nlinarith [Nat.mul_le_mul_right (256 ^ k) (Nat.le_of_lt_succ hbyte)]
      · intro i hi
        rcases Nat.lt_succ_iff_lt_or_eq.mp hi with hi | rfl
        · -- the new digit lies above digit `i`
          obtain ⟨d, rfl⟩ := Nat.exists_eq_add_of_lt hi
          rw [← hdigits i hi, show i + d + 1 = i + (d + 1) from rfl, pow_add, mul_left_comm,
            Nat.add_mul_div_left _ _ (by positivity), pow_succ, ← mul_assoc,
            Nat.add_mul_mod_self_right]
        · rw [Nat.add_mul_div_right _ _ (by positivity), Nat.div_eq_of_lt hlt, Nat.zero_add,
            Nat.mod_eq_of_lt hbyte]

/-- The bytes of a word read from memory. -/
theorem byteOf_readWord (mem : ℕ → UInt8) (offset : ℕ) {i : ℕ} (hi : i < k) :
    byteOf (readWord k mem offset) i = mem (offset + i) := by
  obtain ⟨hlt, hdigits⟩ := digits_readWord mem offset k
  have hpow : 2 ^ (8 * k) = 256 ^ k := by
    rw [pow_mul]
    rfl
  apply UInt8.toNat_inj.mp
  rw [toNat_byteOf, readWord, BitVec.toNat_ofNat, hpow, Nat.mod_eq_of_lt hlt, hdigits i hi]

/-- A word reads as a value exactly when the memory holds its bytes. -/
theorem readWord_eq_iff {mem : ℕ → UInt8} {offset : ℕ} {value : BitVec (8 * k)} :
    readWord k mem offset = value ↔ ∀ i < k, mem (offset + i) = byteOf value i := by
  constructor
  · rintro rfl i hi
    exact (byteOf_readWord mem offset hi).symm
  · intro h
    apply word_ext
    intro i hi
    rw [byteOf_readWord mem offset hi, h i hi]

/-- A read depends on the bytes it reads only. -/
theorem readWord_congr {mem mem' : ℕ → UInt8} {offset offset' : ℕ}
    (h : ∀ i < k, mem (offset + i) = mem' (offset' + i)) :
    readWord k mem offset = readWord k mem' offset' := by
  rw [readWord_eq_iff]
  intro i hi
  rw [h i hi, byteOf_readWord mem' offset' hi]

/-- Equal words have equal bytes. -/
theorem eq_of_readWord {mem mem' : ℕ → UInt8} {offset offset' : ℕ}
    (h : readWord k mem offset = readWord k mem' offset') {i : ℕ} (hi : i < k) :
    mem (offset + i) = mem' (offset' + i) := by
  rw [← byteOf_readWord mem offset hi, h, byteOf_readWord mem' offset' hi]

/-- A byte outside the written word. -/
theorem writeWord_of_not {mem : ℕ → UInt8} {offset a : ℕ} (value : BitVec (8 * k))
    (h : ¬ (offset ≤ a ∧ a < offset + k)) : writeWord k mem offset value a = mem a :=
  if_neg h

/-- A byte of the written word. -/
theorem writeWord_of_mem {mem : ℕ → UInt8} {offset a : ℕ} (value : BitVec (8 * k))
    (h : offset ≤ a ∧ a < offset + k) :
    writeWord k mem offset value a = byteOf value (a - offset) :=
  if_pos h

/-- What was written is read. -/
theorem readWord_writeWord_self (mem : ℕ → UInt8) (offset : ℕ) (value : BitVec (8 * k)) :
    readWord k (writeWord k mem offset value) offset = value := by
  rw [readWord_eq_iff]
  intro i hi
  rw [writeWord_of_mem value ⟨by omega, by omega⟩, Nat.add_sub_cancel_left]

/-- A read apart from the written word. -/
theorem readWord_writeWord_of_disjoint {k' : ℕ} (mem : ℕ → UInt8) {offset offset' : ℕ}
    (value : BitVec (8 * k)) (h : offset + k ≤ offset' ∨ offset' + k' ≤ offset) :
    readWord k' (writeWord k mem offset value) offset' = readWord k' mem offset' := by
  apply readWord_congr
  intro i hi
  exact writeWord_of_not value (by omega)

/-- Writing what is there changes nothing. -/
theorem writeWord_eq_self {mem : ℕ → UInt8} {offset : ℕ} {value : BitVec (8 * k)}
    (h : readWord k mem offset = value) : writeWord k mem offset value = mem := by
  funext a
  by_cases ha : offset ≤ a ∧ a < offset + k
  · obtain ⟨i, rfl⟩ := Nat.exists_eq_add_of_le ha.1
    rw [writeWord_of_mem value ha, Nat.add_sub_cancel_left, readWord_eq_iff.mp h i (by omega)]
  · exact writeWord_of_not value ha

/-! ## A run of words -/

/-- The `n` words from an offset on. -/
def readWords (k : ℕ) (mem : ℕ → UInt8) (offset n : ℕ) : List (BitVec (8 * k)) :=
  (List.range n).map fun i => readWord k mem (offset + i * k)

/-- The memory with a run of words copied to an offset. -/
def writeWords (k : ℕ) (mem : ℕ → UInt8) (offset : ℕ) (values : List (BitVec (8 * k))) :
    ℕ → UInt8 := fun a =>
  if offset ≤ a ∧ a < offset + values.length * k then
    byteOf (values.getD ((a - offset) / k) 0) ((a - offset) % k)
  else mem a

@[simp] theorem writeWords_nil (mem : ℕ → UInt8) (offset : ℕ) :
    writeWords k mem offset [] = mem := by
  funext a
  apply if_neg
  simp

/-- A byte outside the run. -/
theorem writeWords_of_not {mem : ℕ → UInt8} {offset a : ℕ} {values : List (BitVec (8 * k))}
    (h : ¬ (offset ≤ a ∧ a < offset + values.length * k)) :
    writeWords k mem offset values a = mem a :=
  if_neg h

/-- The first word of a run, then the others. -/
theorem writeWords_cons (mem : ℕ → UInt8) (offset : ℕ) (value : BitVec (8 * k))
    (values : List (BitVec (8 * k))) :
    writeWords k mem offset (value :: values) =
      writeWords k (writeWord k mem offset value) (offset + k) values := by
  funext a
  have hlength : (value :: values).length * k = k + values.length * k := by
    rw [List.length_cons, Nat.succ_mul, Nat.add_comm]
  unfold writeWords
  rw [hlength]
  by_cases hfirst : offset ≤ a ∧ a < offset + k
  · -- a byte of the first word
    have hdiv : (a - offset) / k = 0 := Nat.div_eq_of_lt (by omega)
    have hmod : (a - offset) % k = a - offset := Nat.mod_eq_of_lt (by omega)
    rw [if_pos (by omega), if_neg (by omega), writeWord_of_mem value hfirst, hdiv, hmod,
      List.getD_cons_zero]
  · rw [writeWord_of_not value hfirst]
    by_cases hrest : offset + k ≤ a ∧ a < offset + k + values.length * k
    · -- a byte of the others
      have hk : 0 < k := by
        rcases Nat.eq_zero_or_pos k with rfl | hk
        · omega
        · exact hk
      obtain ⟨i, rfl⟩ := Nat.exists_eq_add_of_le hrest.1
      have hdiv : (offset + k + i - offset) / k = i / k + 1 := by
        rw [show offset + k + i - offset = i + k by omega, Nat.add_div_right i hk]
      have hmod : (offset + k + i - offset) % k = i % k := by
        rw [show offset + k + i - offset = i + k by omega, Nat.add_mod_right]
      rw [if_pos (by omega), if_pos hrest, hdiv, hmod, List.getD_cons_succ,
        Nat.add_sub_cancel_left]
    · rw [if_neg (by omega), if_neg hrest]

/-- **A run** is written word by word. -/
theorem writeEach_writeWord (mem : ℕ → UInt8) (offset i : ℕ) (values : List (BitVec (8 * k))) :
    writeEach (fun j value mem => some (writeWord k mem (offset + j * k) value)) i values mem =
      some (writeWords k mem (offset + i * k) values) := by
  induction values generalizing i mem with
  | nil => rw [writeEach, writeWords_nil]
  | cons value values ih =>
      rw [writeEach, Option.bind_some, ih, writeWords_cons, Nat.succ_mul, Nat.add_assoc]

/-- A word of a run that was written. -/
theorem readWord_writeWords (mem : ℕ → UInt8) (offset : ℕ) {values : List (BitVec (8 * k))} {i : ℕ}
    (hi : i < values.length) :
    readWord k (writeWords k mem offset values) (offset + i * k) = values[i] := by
  rw [readWord_eq_iff]
  intro j hj
  have hlast : i * k + j < values.length * k :=
    calc i * k + j < (i + 1) * k := by rw [Nat.succ_mul]; omega
      _ ≤ values.length * k := Nat.mul_le_mul_right k hi
  have hplace : offset + i * k + j - offset = j + i * k := by omega
  rw [writeWords, if_pos ⟨by omega, by omega⟩, hplace, Nat.add_mul_div_right _ _ (by omega),
    Nat.add_mul_mod_self_right, Nat.div_eq_of_lt hj, Nat.mod_eq_of_lt hj, Nat.zero_add,
    List.getD_eq_getElem?_getD, List.getElem?_eq_getElem hi, Option.getD_some]

/-- **A run** reads back as it was written. -/
theorem readWords_writeWords (mem : ℕ → UInt8) (offset : ℕ) (values : List (BitVec (8 * k))) :
    readWords k (writeWords k mem offset values) offset values.length = values := by
  apply List.ext_getElem
  · rw [readWords, List.length_map, List.length_range]
  · intro i _ hi
    simp only [readWords, List.getElem_map, List.getElem_range]
    exact readWord_writeWords mem offset hi

/-- A run of one value, byte by byte. -/
theorem writeWords_replicate {mem : ℕ → UInt8} {offset n a : ℕ} (value : BitVec (8 * k))
    (h : offset ≤ a ∧ a < offset + n * k) :
    writeWords k mem offset (List.replicate n value) a = byteOf value ((a - offset) % k) := by
  have hk : 0 < k := by
    rcases Nat.eq_zero_or_pos k with rfl | hk
    · omega
    · exact hk
  have hindex : (a - offset) / k < n := by
    rw [Nat.div_lt_iff_lt_mul hk]
    omega
  rw [writeWords, List.length_replicate, if_pos h,
    List.getD_eq_getElem?_getD, List.getElem?_replicate, if_pos hindex, Option.getD_some]

/-! ## Places -/

/-- **The place of a read** is told by what is read. -/
theorem offset_of_readWords {n a b : ℕ} (hk : 0 < k) (hn : 0 < n)
    (h : ∀ mem : ℕ → UInt8, readWords k mem a n = readWords k mem b n) : a = b := by
  have hword : ∀ mem, readWord k mem a = readWord k mem b := by
    intro mem
    have hhead := congrArg (fun words : List (BitVec (8 * k)) => words[0]?) (h mem)
    simpa [readWords, hn] using hhead
  have hbyte := readWord_eq_iff.mp (hword fun i => if i = b then 1 else 0) 0 hk
  have hself := readWord_eq_iff.mp (rfl : readWord k (fun i => if i = b then 1 else 0) b = _) 0 hk
  rw [← hself, Nat.add_zero, Nat.add_zero, if_pos rfl] at hbyte
  by_contra hne
  rw [if_neg hne] at hbyte
  exact absurd hbyte (by decide)

/-- A write does not reach below its place. -/
theorem writeWords_not_lt {a b : ℕ} {values values' : List (BitVec (8 * k))}
    (hpos : 0 < values.length * k)
    (h : ∀ mem : ℕ → UInt8, writeWords k mem a values = writeWords k mem b values') : ¬ a < b := by
  intro hlt
  have hbyte : ∀ mem : ℕ → UInt8, writeWords k mem a values a = mem a := by
    intro mem
    rw [h mem]
    exact writeWords_of_not (by omega)
  have hconst : writeWords k (fun _ => 0) a values a = writeWords k (fun _ => 1) a values a := by
    unfold writeWords
    rw [if_pos (by omega), if_pos (by omega)]
  rw [hbyte, hbyte] at hconst
  exact absurd hconst (by decide)

/-- **The place of a write** and what is written are told by the memories it leaves. -/
theorem offset_of_writeWords {a b : ℕ} {values values' : List (BitVec (8 * k))} (hk : 0 < k)
    (hlength : values.length = values'.length) (hpos : 0 < values.length)
    (h : ∀ mem : ℕ → UInt8, writeWords k mem a values = writeWords k mem b values') :
    a = b ∧ values = values' := by
  have hle := Nat.le_of_not_lt (writeWords_not_lt (Nat.mul_pos hpos hk) h)
  have hge := Nat.le_of_not_lt
    (writeWords_not_lt (Nat.mul_pos (hlength ▸ hpos) hk) fun mem => (h mem).symm)
  obtain rfl := Nat.le_antisymm hge hle
  refine ⟨rfl, ?_⟩
  have hread := congrArg (fun mem => readWords k mem a values.length) (h fun _ => 0)
  rwa [readWords_writeWords, hlength, readWords_writeWords] at hread

end WordMemory
