/-
# The save buffer

`src/cartridge_io.rs`: the contents of the save chip, as loaded from the save file.  An access is
masked with the length of the buffer minus one.

* `saveIndex_of_dvd` : for addresses below a power of two that divides the length the mask does
  nothing;
* `exists_saveIndex_eq_zero` : otherwise it sends some address other than zero to zero;
* `readSaveBuf_writeSaveBuf` : what a read sees after a write;
* `loadSaveBuf` : the buffer `detect_and_load_save` makes of a save file.
-/
import AdvancedSlop.Mmu

namespace AdvancedSlop

/-- `save_buf`, the bytes of the save chip. -/
abbrev SaveBuf := List (BitVec 8)

/-- `SaveType::initial_size`. -/
def SaveType.initialSize : SaveType → Nat
  | .none => 0
  | .eeprom => 8 * 1024
  | .sram => 32 * 1024
  | .flash64k => 64 * 1024
  | .flash128k => 128 * 1024

/-- The end of `detect_and_load_save`: an erased chip, the file's content over it; a file longer
than the chip takes its place.  A missing file is as an empty one. -/
def loadSaveBuf (saveType : SaveType) (content : List (BitVec 8)) : SaveBuf :=
  let saveBuf : SaveBuf := List.replicate saveType.initialSize 0xFF
  if content.length > saveBuf.length then content
  else content ++ saveBuf.drop content.length

/-- Where an access at `addr` goes in a buffer of length `len`. -/
def saveIndex (len addr : Nat) : Nat := addr &&& (len - 1)

/-- `read_save_buf`. -/
def readSaveBuf (saveBuf : SaveBuf) (addr : Nat) : BitVec 8 :=
  if saveBuf.isEmpty then 0xFF else saveBuf.getD (saveIndex saveBuf.length addr) 0xFF

/-- `write_save_buf`. -/
def writeSaveBuf (saveBuf : SaveBuf) (addr : Nat) (value : BitVec 8) : SaveBuf :=
  if saveBuf.isEmpty then saveBuf else saveBuf.set (saveIndex saveBuf.length addr) value

/-- `resize_save_buf`. -/
def resizeSaveBuf (saveBuf : SaveBuf) (newSize : Nat) : SaveBuf :=
  saveBuf.take newSize ++ List.replicate (newSize - saveBuf.length) 0xFF

/-! ## The mask -/

/-- An access stays inside the buffer. -/
theorem saveIndex_lt {len : Nat} (addr : Nat) (hlen : 0 < len) : saveIndex len addr < len := by
  have hle : saveIndex len addr ≤ len - 1 := Nat.and_le_right
  omega

/-- The low bits of one less than a multiple. -/
theorem pred_mod_of_dvd {m len : Nat} (hdvd : m ∣ len) (hlen : 0 < len) : (len - 1) % m = m - 1 := by
  obtain ⟨c, rfl⟩ := hdvd
  have hm : 0 < m := Nat.pos_of_mul_pos_right hlen
  have hc : 0 < c := Nat.pos_of_mul_pos_left hlen
  obtain ⟨c, rfl⟩ : ∃ c', c = c' + 1 := ⟨c - 1, by omega⟩
  have heq : m * (c + 1) - 1 = m * c + (m - 1) := by
    rw [Nat.mul_add, Nat.mul_one]
    omega
  rw [heq, Nat.mul_add_mod, Nat.mod_eq_of_lt (by omega)]

/-- **Below a power of two that divides the length the mask does nothing.** -/
theorem saveIndex_of_dvd {k len addr : Nat} (hdvd : 2 ^ k ∣ len) (hlen : 0 < len)
    (haddr : addr < 2 ^ k) : saveIndex len addr = addr := by
  have hlow : saveIndex len addr % 2 ^ k = addr := by
    rw [saveIndex, Nat.and_mod_two_pow, pred_mod_of_dvd hdvd hlen,
      Nat.and_two_pow_sub_one_eq_mod, Nat.mod_mod, Nat.mod_eq_of_lt haddr]
  have hle : saveIndex len addr ≤ addr := Nat.and_le_left
  rwa [Nat.mod_eq_of_lt (by omega)] at hlow

/-- A power of two that does not divide the length has a bit below it that the mask lacks. -/
theorem exists_testBit_pred_eq_false {k len : Nat} (hlen : 0 < len) (hdvd : ¬ 2 ^ k ∣ len) :
    ∃ j < k, (len - 1).testBit j = false := by
  by_contra hall
  apply hdvd
  have hones : (len - 1) % 2 ^ k = 2 ^ k - 1 := by
    apply Nat.eq_of_testBit_eq
    intro j
    rw [Nat.testBit_mod_two_pow, Nat.testBit_two_pow_sub_one]
    by_cases hj : j < k
    · have hbit : (len - 1).testBit j ≠ false := fun hbit => hall ⟨j, hj, hbit⟩
      simp [hj, hbit]
    · simp [hj]
  have hpos : 0 < 2 ^ k := Nat.two_pow_pos k
  have hdiv := Nat.div_add_mod (len - 1) (2 ^ k)
  refine ⟨(len - 1) / 2 ^ k + 1, ?_⟩
  rw [Nat.mul_add, Nat.mul_one]
  omega

/-- **Otherwise the mask sends some address other than zero to zero.** -/
theorem exists_saveIndex_eq_zero {k len : Nat} (hlen : 0 < len) (hdvd : ¬ 2 ^ k ∣ len) :
    ∃ addr, 0 < addr ∧ addr < 2 ^ k ∧ saveIndex len addr = 0 := by
  obtain ⟨j, hj, hbit⟩ := exists_testBit_pred_eq_false hlen hdvd
  refine ⟨2 ^ j, Nat.two_pow_pos j, Nat.pow_lt_pow_right (by omega) hj, ?_⟩
  apply Nat.eq_of_testBit_eq
  intro i
  rw [saveIndex, Nat.testBit_and, Nat.testBit_two_pow, Nat.zero_testBit]
  by_cases hi : j = i
  · rw [← hi, hbit, Bool.and_false]
  · simp [hi]

/-! ## Reads and writes -/

@[simp] theorem length_writeSaveBuf (saveBuf : SaveBuf) (addr : Nat) (value : BitVec 8) :
    (writeSaveBuf saveBuf addr value).length = saveBuf.length := by
  unfold writeSaveBuf
  split_ifs
  · rfl
  · exact List.length_set

/-- A read of a buffer that is not empty. -/
theorem readSaveBuf_of_pos {saveBuf : SaveBuf} (hlen : 0 < saveBuf.length) (addr : Nat) :
    readSaveBuf saveBuf addr = saveBuf.getD (saveIndex saveBuf.length addr) 0xFF := by
  have hne : saveBuf.isEmpty = false := by
    rw [List.isEmpty_eq_false_iff, ← List.length_pos_iff]
    exact hlen
  rw [readSaveBuf, hne]
  rfl

/-- A write to a buffer that is not empty. -/
theorem writeSaveBuf_of_pos {saveBuf : SaveBuf} (hlen : 0 < saveBuf.length) (addr : Nat)
    (value : BitVec 8) :
    writeSaveBuf saveBuf addr value = saveBuf.set (saveIndex saveBuf.length addr) value := by
  have hne : saveBuf.isEmpty = false := by
    rw [List.isEmpty_eq_false_iff, ← List.length_pos_iff]
    exact hlen
  rw [writeSaveBuf, hne]
  rfl

/-- **What a read sees after a write**: the value written, where both go to the same byte. -/
theorem readSaveBuf_writeSaveBuf {saveBuf : SaveBuf} (hlen : 0 < saveBuf.length) (a b : Nat)
    (value : BitVec 8) :
    readSaveBuf (writeSaveBuf saveBuf a value) b =
      if saveIndex saveBuf.length a = saveIndex saveBuf.length b then value
      else readSaveBuf saveBuf b := by
  have hlen' : 0 < (writeSaveBuf saveBuf a value).length := by
    rw [length_writeSaveBuf]
    exact hlen
  rw [readSaveBuf_of_pos hlen', readSaveBuf_of_pos hlen, length_writeSaveBuf,
    writeSaveBuf_of_pos hlen, List.getD_eq_getElem?_getD, List.getElem?_set]
  have hlt := saveIndex_lt a hlen
  split_ifs with heq
  · rfl
  · rw [List.getD_eq_getElem?_getD]

/-! ## Loading -/

/-- The length after loading: that of the chip, or of the file where that is longer. -/
theorem length_loadSaveBuf (saveType : SaveType) (content : List (BitVec 8)) :
    (loadSaveBuf saveType content).length = max saveType.initialSize content.length := by
  unfold loadSaveBuf
  simp only [List.length_replicate]
  split_ifs with hlong
  · omega
  · simp only [List.length_append, List.length_drop, List.length_replicate]
    omega

/-- The bytes after loading: those of the file, and erased ones past its end. -/
theorem getD_loadSaveBuf (saveType : SaveType) (content : List (BitVec 8)) (i : Nat) :
    (loadSaveBuf saveType content).getD i 0xFF = content.getD i 0xFF := by
  unfold loadSaveBuf
  simp only [List.length_replicate]
  split_ifs with hlong
  · rfl
  · rw [List.getD_eq_getElem?_getD, List.getD_eq_getElem?_getD, List.getElem?_append]
    split_ifs with hi
    · rfl
    · have hnone : content[i]? = none := List.getElem?_eq_none (by omega)
      rw [hnone, List.drop_replicate, List.getElem?_replicate]
      split_ifs <;> rfl

/-- The bytes after a change of length: those that stay, and erased ones. -/
theorem getD_resizeSaveBuf (saveBuf : SaveBuf) {newSize i : Nat} (hi : i < newSize) :
    (resizeSaveBuf saveBuf newSize).getD i 0xFF = saveBuf.getD i 0xFF := by
  rw [resizeSaveBuf, List.getD_eq_getElem?_getD, List.getD_eq_getElem?_getD, List.getElem?_append,
    List.length_take]
  split_ifs with hlt
  · rw [List.getElem?_take_of_lt hi]
  · have hnone : saveBuf[i]? = none := List.getElem?_eq_none (by omega)
    rw [hnone, List.getElem?_replicate]
    split_ifs <;> rfl

@[simp] theorem length_resizeSaveBuf (saveBuf : SaveBuf) (newSize : Nat) :
    (resizeSaveBuf saveBuf newSize).length = newSize := by
  rw [resizeSaveBuf, List.length_append, List.length_take, List.length_replicate]
  omega

end AdvancedSlop
