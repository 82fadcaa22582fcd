/-
# What the rasterizer reads

The snapshot of the video memory (`src/core/graphics/gpu_mem_buf.rs`), the display control and the
display registers (`src/core/gpu.rs`, `src/core/ppu.rs`).  A read has no result when it is out of
bounds.

* `GpuMemBuf`, `readVram16`, `readPal16`, `readRow` : the memory;
* `PpuRegs` : the registers, with the reference points that are stepped from line to line;
* `PpuRegs.InFrame` : the registers on a line of a frame.
-/
import AdvancedSlop.Mmu
import AdvancedSlop.WordMemory
import AdvancedSlop.PpuCompose

namespace AdvancedSlop

open WordMemory

theorem neZero_pair : NeZero 2 := ⟨by decide⟩

/-! ## The snapshot -/

/-- `GpuMemBuf`: vram, palettes and oam, of the sizes below. -/
structure GpuMemBuf where
  vram : ℕ → UInt8
  pal : ℕ → UInt8
  oam : ℕ → UInt8

/-- The size of `vram`. -/
def VRAM_BYTES : ℕ := 0x18000
/-- The size of `pal`. -/
def PAL_BYTES : ℕ := 0x400

/-- A byte of vram. -/
def readVram8 (vram : ℕ → UInt8) (i : ℕ) : Option UInt8 :=
  if i < VRAM_BYTES then some (vram i) else none

/-- A little-endian row of `k` bytes of vram. -/
def readRow (k : ℕ) (vram : ℕ → UInt8) (row : ℕ) : Option (BitVec (8 * k)) :=
  if row + k ≤ VRAM_BYTES then some (readWord k vram row) else none

/-- `read_vram16`. -/
def readVram16 (vram : ℕ → UInt8) (offset : ℕ) : Option (BitVec 16) :=
  readRow 2 vram (vramOffset offset)

/-- `read_pal16`. -/
def readPal16 (pal : ℕ → UInt8) (index : ℕ) : Option (BitVec 16) :=
  if 2 * index + 2 ≤ PAL_BYTES then some (readWord 2 pal (2 * index)) else none

/-- A write to a pixel of a line. -/
def setPixel {α : Type} (line : PixelLine α) (x : ℕ) (value : α) : Option (PixelLine α) :=
  if h : x < DISPLAY_WIDTH then some (Function.update line ⟨x, h⟩ value) else none

theorem vramOffset_lt (addr : ℕ) : vramOffset addr < VRAM_BYTES := by
  unfold vramOffset VRAM_BYTES
  dsimp only
  split <;> omega

/-- The mirror of vram folds at multiples of eight. -/
theorem vramOffset_add {addr i : ℕ} (h : addr % 8 + i < 8) :
    vramOffset (addr + i) = vramOffset addr + i := by
  unfold vramOffset
  dsimp only
  split_ifs <;> omega

theorem vramOffset_mod (addr : ℕ) : vramOffset addr % 8 = addr % 8 := by
  unfold vramOffset
  dsimp only
  split <;> omega

/-- A row that does not cross a multiple of eight is in bounds. -/
theorem readRow_vramOffset {k : ℕ} (vram : ℕ → UInt8) {addr : ℕ} (h : addr % 8 + k ≤ 8) :
    readRow k vram (vramOffset addr) = some (readWord k vram (vramOffset addr)) := by
  have hlt := vramOffset_lt addr
  have hmod := vramOffset_mod addr
  unfold VRAM_BYTES at hlt
  rw [readRow, if_pos (by unfold VRAM_BYTES; omega)]

theorem readVram8_vramOffset (vram : ℕ → UInt8) (addr : ℕ) :
    readVram8 vram (vramOffset addr) = some (vram (vramOffset addr)) :=
  if_pos (vramOffset_lt addr)

/-- A texel of eight bits, of a row. -/
theorem row_byte {k : ℕ} (mem : ℕ → UInt8) (row : ℕ) {tx : ℕ} (h : tx < k) :
    ((readWord k mem row >>> (tx * 8)).setWidth 8).toNat = (mem (row + tx)).toNat := by
  have hpow : (2 : ℕ) ^ (tx * 8) = 256 ^ tx := by rw [Nat.mul_comm, pow_mul]; rfl
  rw [← byteOf_readWord mem row h, toNat_byteOf, BitVec.toNat_setWidth, BitVec.toNat_ushiftRight,
    Nat.shiftRight_eq_div_pow, hpow]

/-- A texel of four bits, of a row. -/
theorem row_nibble {k : ℕ} (mem : ℕ → UInt8) (row : ℕ) {tx : ℕ} (h : tx < 2 * k) :
    (readWord k mem row >>> (tx * 4)).toNat % 16
      = (mem (row + tx / 2)).toNat / 16 ^ (tx % 2) % 16 := by
  rw [← byteOf_readWord mem row (show tx / 2 < k by omega), toNat_byteOf, BitVec.toNat_ushiftRight,
    Nat.shiftRight_eq_div_pow]
  generalize (readWord k mem row).toNat = n
  obtain ⟨j, rfl | rfl⟩ : ∃ j, tx = 2 * j ∨ tx = 2 * j + 1 := ⟨tx / 2, by omega⟩
  · have hpow : (2 : ℕ) ^ (2 * j * 4) = 256 ^ j := by
      rw [Nat.mul_comm 2 j, Nat.mul_assoc, Nat.mul_comm j, pow_mul]
      rfl
    rw [hpow, Nat.mul_div_cancel_left j (by decide), Nat.mul_mod_right, pow_zero, Nat.div_one]
    omega
  · have hpow : (2 : ℕ) ^ ((2 * j + 1) * 4) = 256 ^ j * 16 := by
      rw [Nat.add_mul, pow_add, Nat.mul_comm 2 j, Nat.mul_assoc, Nat.mul_comm j, pow_mul]
      rfl
    have hdiv : (2 * j + 1) / 2 = j := by omega
    have hmod : (2 * j + 1) % 2 = 1 := by omega
    rw [hpow, ← Nat.div_div_eq_div_mul, hdiv, hmod, pow_one]
    omega

/-- A row of zeros has no texel. -/
theorem readWord_eq_zero {k : ℕ} {mem : ℕ → UInt8} {row : ℕ} (h : readWord k mem row = 0) {i : ℕ}
    (hi : i < k) : mem (row + i) = 0 := by
  rw [← byteOf_readWord mem row hi, h, byteOf, BitVec.ofNat_eq_ofNat, BitVec.toNat_zero,
    Nat.zero_div]
  rfl

/-! ## The registers -/

/-- The fields of `DispCnt` that the rasterizer reads. -/
structure DispCnt where
  bgMode : BitVec 3
  displayFrameSelect : Bool
  objMapping1d : Bool
  forcedBlank : Bool
  screenDisplayBg : Fin 4 → Bool
  screenDisplayObj : Bool
  window0Display : Bool
  window1Display : Bool
  objWindowDisplay : Bool

/-- `PpuRegs`, without the mosaic register. -/
structure PpuRegs where
  bgCnt : Fin 4 → BitVec 16
  bgHOfs : Fin 4 → BitVec 16
  bgVOfs : Fin 4 → BitVec 16
  bgPa : Fin 2 → BitVec 16
  bgPb : Fin 2 → BitVec 16
  bgPc : Fin 2 → BitVec 16
  bgPd : Fin 2 → BitVec 16
  bgX : Fin 2 → BitVec 32
  bgY : Fin 2 → BitVec 32
  internalX : Fin 2 → BitVec 32
  internalY : Fin 2 → BitVec 32
  winH : Fin 2 → BitVec 16
  winV : Fin 2 → BitVec 16
  winIn : BitVec 16
  winOut : BitVec 16
  bldCnt : BitVec 16
  bldAlpha : BitVec 16
  bldY : BitVec 16

namespace PpuRegs

/-- `PpuRegs::new`. -/
def new : PpuRegs where
  bgCnt _ := 0
  bgHOfs _ := 0
  bgVOfs _ := 0
  bgPa _ := 0x100
  bgPb _ := 0
  bgPc _ := 0
  bgPd _ := 0x100
  bgX _ := 0
  bgY _ := 0
  internalX _ := 0
  internalY _ := 0
  winH _ := 0
  winV _ := 0
  winIn := 0
  winOut := 0
  bldCnt := 0
  bldAlpha := 0
  bldY := 0

/-- A masked write to a reference point, extended from 28 bits. -/
def refWrite (old mask value : BitVec 32) : BitVec 32 :=
  ((((old &&& ~~~mask) ||| (value &&& mask)) <<< 4).sshiftRight 4)

/-- `set_bg_x`. -/
def setBgX (r : PpuRegs) (i : Fin 2) (mask value : BitVec 32) : PpuRegs :=
  { r with
    bgX := Function.update r.bgX i (refWrite (r.bgX i) mask value)
    internalX := Function.update r.internalX i (refWrite (r.bgX i) mask value) }

/-- `set_bg_y`. -/
def setBgY (r : PpuRegs) (i : Fin 2) (mask value : BitVec 32) : PpuRegs :=
  { r with
    bgY := Function.update r.bgY i (refWrite (r.bgY i) mask value)
    internalY := Function.update r.internalY i (refWrite (r.bgY i) mask value) }

/-- `reload_internal_refs`. -/
def reloadInternalRefs (r : PpuRegs) : PpuRegs := { r with internalX := r.bgX, internalY := r.bgY }

/-- `step_internal_refs`. -/
def stepInternalRefs (r : PpuRegs) : PpuRegs :=
  { r with
    internalX := fun i => r.internalX i + (r.bgPb i).signExtend 32
    internalY := fun i => r.internalY i + (r.bgPd i).signExtend 32 }

/-- The registers on a line of a frame, `n` lines after the reference points were last reloaded:
they are stepped after each of the 160 visible lines, and any other register may be written at any
time. -/
inductive InFrame : ℕ → PpuRegs → Prop
  | new : InFrame 0 new
  | write {n : ℕ} {r r' : PpuRegs} (h : InFrame n r) (hX : r'.bgX = r.bgX) (hY : r'.bgY = r.bgY)
      (hintX : r'.internalX = r.internalX) (hintY : r'.internalY = r.internalY) : InFrame n r'
  | setBgX {n : ℕ} {r : PpuRegs} (h : InFrame n r) (i : Fin 2) (mask value : BitVec 32) :
      InFrame n (r.setBgX i mask value)
  | setBgY {n : ℕ} {r : PpuRegs} (h : InFrame n r) (i : Fin 2) (mask value : BitVec 32) :
      InFrame n (r.setBgY i mask value)
  | step {n : ℕ} {r : PpuRegs} (h : InFrame n r) (hn : n < 160) : InFrame (n + 1) r.stepInternalRefs
  | reload {n : ℕ} {r : PpuRegs} (h : InFrame n r) : InFrame 0 r.reloadInternalRefs

/-- A reference point has 28 bits. -/
theorem toInt_refWrite (old mask value : BitVec 32) :
    -2 ^ 27 ≤ (refWrite old mask value).toInt ∧ (refWrite old mask value).toInt < 2 ^ 27 := by
  rw [refWrite, BitVec.toInt_sshiftRight, Int.shiftRight_eq_div_pow]
  have hlow := BitVec.le_toInt (((old &&& ~~~mask) ||| (value &&& mask)) <<< 4)
  have hhigh := BitVec.toInt_lt (x := ((old &&& ~~~mask) ||| (value &&& mask)) <<< 4)
  omega

/-- A reference point, a step on. -/
theorem toInt_step {ref : BitVec 32} {n : ℕ} (hn : n < 160) (delta : BitVec 16)
    (h : |ref.toInt| ≤ 2 ^ 27 + n * 2 ^ 15) :
    |(ref + delta.signExtend 32).toInt| ≤ 2 ^ 27 + (n + 1 : ℕ) * 2 ^ 15 := by
  have hlow := BitVec.le_toInt delta
  have hhigh := BitVec.toInt_lt (x := delta)
  rw [abs_le] at h ⊢
  rw [BitVec.toInt_add, BitVec.toInt_signExtend_of_le (by decide),
    Int.bmod_eq_of_le (by omega) (by omega)]
  omega

/-- **The reference points of a frame** stay close to 28 bits. -/
theorem InFrame.bounds {n : ℕ} {r : PpuRegs} (h : InFrame n r) :
    n ≤ 160 ∧ ∀ i, |(r.bgX i).toInt| ≤ 2 ^ 27 ∧ |(r.bgY i).toInt| ≤ 2 ^ 27 ∧
      |(r.internalX i).toInt| ≤ 2 ^ 27 + n * 2 ^ 15 ∧
      |(r.internalY i).toInt| ≤ 2 ^ 27 + n * 2 ^ 15 := by
  have hwrite : ∀ old mask value, |(refWrite old mask value).toInt| ≤ 2 ^ 27 := by
    intro old mask value
    obtain ⟨hlow, hhigh⟩ := toInt_refWrite old mask value
    exact abs_le.2 ⟨hlow, hhigh.le⟩
  induction h with
  | new =>
      have hzero : |(0 : BitVec 32).toInt| ≤ 2 ^ 27 := by decide
      refine ⟨Nat.zero_le _, fun i => ⟨hzero, hzero, ?_, ?_⟩⟩ <;> exact hzero.trans (by norm_num)
  | write h hX hY hintX hintY ih => rwa [hX, hY, hintX, hintY]
  | @setBgX n r h j mask value ih =>
      refine ⟨ih.1, fun i => ?_⟩
      obtain ⟨hX, hY, hintX, hintY⟩ := ih.2 i
      have hle : (2 : ℤ) ^ 27 ≤ 2 ^ 27 + n * 2 ^ 15 := by omega
      by_cases hi : i = j
      · subst hi
        simp only [PpuRegs.setBgX, Function.update_self]
        exact ⟨hwrite _ _ _, hY, (hwrite _ _ _).trans hle, hintY⟩
      · simp only [PpuRegs.setBgX, Function.update_of_ne hi]
        exact ⟨hX, hY, hintX, hintY⟩
  | @setBgY n r h j mask value ih =>
      refine ⟨ih.1, fun i => ?_⟩
      obtain ⟨hX, hY, hintX, hintY⟩ := ih.2 i
      have hle : (2 : ℤ) ^ 27 ≤ 2 ^ 27 + n * 2 ^ 15 := by omega
      by_cases hi : i = j
      · subst hi
        simp only [PpuRegs.setBgY, Function.update_self]
        exact ⟨hX, hwrite _ _ _, hintX, (hwrite _ _ _).trans hle⟩
      · simp only [PpuRegs.setBgY, Function.update_of_ne hi]
        exact ⟨hX, hY, hintX, hintY⟩
  | step h hn ih =>
      refine ⟨hn, fun i => ?_⟩
      obtain ⟨hX, hY, hintX, hintY⟩ := ih.2 i
      exact ⟨hX, hY, toInt_step hn _ hintX, toInt_step hn _ hintY⟩
  | reload h ih =>
      refine ⟨Nat.zero_le _, fun i => ?_⟩
      obtain ⟨hX, hY, -, -⟩ := ih.2 i
      simpa using ⟨hX, hY, hX, hY⟩

end PpuRegs

end AdvancedSlop
