/-
# The mmu tables

`mmu_read` and `mmu_write` give for every 4K page of the bus the offset in the shared memory that
fast accesses use, 0 where an access takes the slow path.

* `updateAllArm7`, `mmuUnmapRomHead` : how the tables are filled for a cartridge;
* `removeMmuWriteEntry_iwram`, `restoreMmuWriteEntry_iwram` : protecting and restoring a page of
  iwram reaches all its mirrors, as long as mirrors agree (`MirrorsAgree`).
-/
import Mathlib.Tactic

namespace AdvancedSlop

/-! ## Regions -/

/-- A region of the bus and its place in the shared memory. -/
structure MemRegion where
  start : Nat
  stop : Nat
  size : Nat
  shmOffset : Nat
  deriving DecidableEq, Repr

def ewramRegion : MemRegion := ⟨0x02000000, 0x03000000, 0x40000, 0x4000⟩
def iwramRegion : MemRegion := ⟨0x03000000, 0x04000000, 0x8000, 0x44000⟩
def palettesRegion : MemRegion := ⟨0x05000000, 0x06000000, 0x4000, 0x4C000⟩
def vramRegion : MemRegion := ⟨0x06000000, 0x07000000, 0x18000, 0x50000⟩
def oamRegion : MemRegion := ⟨0x07000000, 0x08000000, 0x4000, 0x68000⟩
def romRegion : MemRegion := ⟨0x08000000, 0x0E000000, 0x2000000, 0x6C000⟩

/-- `(start..stop).step_by(step)`. -/
def stepBy (start stop step : Nat) : List Nat :=
  (List.range ((stop - start + step - 1) / step)).map fun i => start + i * step

/-- The values a stepped range runs through. -/
theorem mem_stepBy {start stop step : Nat} (hstep : 0 < step) {x : Nat} :
    x ∈ stepBy start stop step ↔ ∃ i, x = start + i * step ∧ x < stop := by
  simp only [stepBy, List.mem_map, List.mem_range]
  refine exists_congr fun i => ?_
  rw [Nat.lt_iff_add_one_le, Nat.le_div_iff_mul_le hstep, Nat.add_mul]
  constructor
  · rintro ⟨hi, rfl⟩
    exact ⟨rfl, by omega⟩
  · rintro ⟨rfl, hlt⟩
    exact ⟨by omega, rfl⟩

/-! ## Filling the tables -/

/-- The save memory of a cartridge. -/
inductive SaveType
  | none
  | eeprom
  | sram
  | flash64k
  | flash128k
  deriving DecidableEq, Repr

/-- What the memory paths read of a cartridge. -/
structure CartridgeIo where
  romLen : Nat
  romMask : Nat
  saveType : SaveType
  hasRtc : Bool
  deriving DecidableEq, Repr

/-- The two tables, indexed by the 4K page. -/
structure MmuArm7 where
  mmuRead : Nat → Nat
  mmuWrite : Nat → Nat

/-- `vram_offset`: 64K and 32K, the upper 32K twice in each 128K block. -/
def vramOffset (addr : Nat) : Nat :=
  let addr := addr % 0x20000
  if addr / 0x10000 = 1 then 0x10000 + addr % 0x8000 else addr

/-- The first address of the eeprom window, as `update_all_arm7` places it. -/
def eepromWindowStart (io : CartridgeIo) : Nat :=
  if io.romLen > 16 * 1024 * 1024 then 0x0DFFFF00 else 0x0D000000

/-- The read entry `update_all_arm7` gives the page at `addr`. -/
def mmuReadEntry (io : CartridgeIo) (addr : Nat) : Nat :=
  let nibble := addr / 0x1000000 % 16
  if nibble = 2 then ewramRegion.shmOffset + addr % ewramRegion.size
  else if nibble = 3 then iwramRegion.shmOffset + addr % iwramRegion.size
  else if nibble = 6 then vramRegion.shmOffset + vramOffset addr
  else if 8 ≤ nibble ∧ nibble < 14 then
    let romOffset := (addr % 0x2000000) &&& io.romMask
    let inEepromWindow := io.saveType = .eeprom ∧ eepromWindowStart io ≤ addr ∧ addr < 0x0E000000
    if romOffset < io.romLen ∧ ¬ inEepromWindow then romRegion.shmOffset + romOffset else 0
  else 0

/-- The write entry `update_all_arm7` gives the page at `addr`. -/
def mmuWriteEntry (addr : Nat) : Nat :=
  let nibble := addr / 0x1000000 % 16
  if nibble = 2 then ewramRegion.shmOffset + addr % ewramRegion.size
  else if nibble = 3 then iwramRegion.shmOffset + addr % iwramRegion.size
  else 0

/-- `update_all_arm7`. -/
def updateAllArm7 (io : CartridgeIo) : MmuArm7 where
  mmuRead page := if page < 0x10000 then mmuReadEntry io (page * 4096) else 0
  mmuWrite page := if page < 0x10000 then mmuWriteEntry (page * 4096) else 0

/-- `mmu_unmap_rom_head`: the first 16K of each rom image. -/
def mmuUnmapRomHead (mmu : MmuArm7) : MmuArm7 :=
  { mmu with
    mmuRead := (stepBy 0x08000000 0x0E000000 0x2000000).foldl (fun mmuRead image =>
      (stepBy image (image + 0x4000) 4096).foldl (fun mmuRead addr =>
        Function.update mmuRead (addr / 4096) 0) mmuRead) mmu.mmuRead }

/-! ## Write protection -/

/-- `remove_mmu_write_entry`. -/
def removeMmuWriteEntry (addr : Nat) (region : MemRegion) (mmu : Nat → Nat) : Nat → Nat :=
  if mmu (addr / 4096) = 0 then mmu
  else
    let baseOffset := (addr - region.start) % region.size
    (stepBy (region.start + baseOffset) region.stop region.size).foldl (fun mmu addrOffset =>
      Function.update mmu (addrOffset / 4096) 0) mmu

/-- `restore_mmu_write_entry`. -/
def restoreMmuWriteEntry (addr : Nat) (region : MemRegion) (mmuWrite : Nat → Nat) : Nat → Nat :=
  let pageBase := addr / 4096 * 4096
  let baseOffset := (pageBase - region.start) % region.size
  (stepBy (region.start + baseOffset) region.stop region.size).foldl (fun mmuWrite addrOffset =>
    Function.update mmuWrite (addrOffset / 4096) (region.shmOffset + addrOffset % region.size))
    mmuWrite

/-- What a loop of table writes leaves in a cell: one of the values written there, else the old
one. -/
theorem foldl_update_rec {P : Nat → Prop} (key value : Nat → Nat) {q : Nat} :
    ∀ (l : List Nat) (mmu : Nat → Nat), (∀ a ∈ l, key a = q → P (value a)) →
      ((∀ a ∈ l, key a ≠ q) → P (mmu q)) →
      P (l.foldl (fun mmu a => Function.update mmu (key a) (value a)) mmu q)
  | [], mmu, _, hold => hold (by simp)
  | a :: l, mmu, hnew, hold => by
      refine foldl_update_rec key value l _ (fun b hb => hnew b (List.mem_cons_of_mem a hb)) fun hl => ?_
      show P (Function.update mmu (key a) (value a) q)
      by_cases hq : key a = q
      · rw [← hq, Function.update_self]
        exact hnew a List.mem_cons_self hq
      · rw [Function.update_of_ne (Ne.symm hq)]
        refine hold fun b hb => ?_
        rcases List.mem_cons.mp hb with rfl | hb
        · exact hq
        · exact hl b hb

/-- The iwram page `q` is a mirror of the page of `addr`. -/
def IwramMirror (addr q : Nat) : Prop := q / 4096 = 3 ∧ q % 8 = addr / 4096 % 8

instance (addr q : Nat) : Decidable (IwramMirror addr q) :=
  inferInstanceAs (Decidable (_ ∧ _))

/-- The mirrors of an iwram page are mapped or protected together. -/
def MirrorsAgree (mmuWrite : Nat → Nat) : Prop :=
  ∀ p q, p / 4096 = 3 → q / 4096 = 3 → p % 8 = q % 8 → (mmuWrite p = 0 ↔ mmuWrite q = 0)

/-- The pages a stepped walk over the iwram mirrors of an address reaches. -/
theorem mem_iwram_walk {addr q : Nat} (h : addr / 0x1000000 = 3) :
    (∃ a ∈ stepBy (iwramRegion.start + (addr - iwramRegion.start) % iwramRegion.size)
      iwramRegion.stop iwramRegion.size, a / 4096 = q) ↔ IwramMirror addr q := by
  simp only [iwramRegion, mem_stepBy (show 0 < 0x8000 by decide), IwramMirror]
  constructor
  · rintro ⟨a, ⟨i, rfl, hlt⟩, rfl⟩
    omega
  · rintro ⟨hq, hmod⟩
    refine ⟨q * 4096 + addr % 4096, ⟨(q - 0x3000) / 8, ?_, ?_⟩, ?_⟩ <;> omega

/-- **Protecting** an iwram page clears the write entries of all its mirrors. -/
theorem removeMmuWriteEntry_iwram {mmu : Nat → Nat} (hagree : MirrorsAgree mmu) {addr : Nat}
    (h : addr / 0x1000000 = 3) (q : Nat) :
    removeMmuWriteEntry addr iwramRegion mmu q = 0 ↔ IwramMirror addr q ∨ mmu q = 0 := by
  have hwalk := mem_iwram_walk (q := q) h
  unfold removeMmuWriteEntry
  split
  · rename_i hzero
    constructor
    · exact Or.inr
    · rintro (hmirror | hq)
      · exact (hagree _ q (by omega) hmirror.1 hmirror.2.symm).mp hzero
      · exact hq
  · refine foldl_update_rec (P := fun n => n = 0 ↔ IwramMirror addr q ∨ mmu q = 0)
      (fun a => a / 4096) (fun _ => 0) _ mmu ?_ ?_
    · intro a ha hq
      exact ⟨fun _ => .inl (hwalk.mp ⟨a, ha, hq⟩), fun _ => rfl⟩
    · intro hnone
      have hmirror : ¬ IwramMirror addr q := by
        intro hm
        obtain ⟨a, ha, hq⟩ := hwalk.mpr hm
        exact hnone a ha hq
      simp [hmirror]

/-- **Restoring** an iwram page maps all its mirrors. -/
theorem restoreMmuWriteEntry_iwram (mmu : Nat → Nat) {addr : Nat} (h : addr / 0x1000000 = 3)
    (q : Nat) :
    restoreMmuWriteEntry addr iwramRegion mmu q = 0 ↔ ¬ IwramMirror addr q ∧ mmu q = 0 := by
  have hbase : addr / 4096 * 4096 / 4096 = addr / 4096 := by omega
  have hregion : addr / 4096 * 4096 / 0x1000000 = 3 := by omega
  have hwalk := @mem_iwram_walk (addr / 4096 * 4096) q hregion
  rw [IwramMirror, hbase, ← IwramMirror] at hwalk
  unfold restoreMmuWriteEntry
  refine foldl_update_rec (P := fun n => n = 0 ↔ ¬ IwramMirror addr q ∧ mmu q = 0)
    (fun a => a / 4096) (fun a => iwramRegion.shmOffset + a % iwramRegion.size) _ mmu ?_ ?_
  · intro a ha hq
    have hmirror := hwalk.mp ⟨a, ha, hq⟩
    simp only [iwramRegion]
    constructor
    · intro hzero
      omega
    · intro hnot
      exact absurd hmirror hnot.1
  · intro hnone
    have hmirror : ¬ IwramMirror addr q := by
      intro hm
      obtain ⟨a, ha, hq⟩ := hwalk.mpr hm
      exact hnone a ha hq
    simp [hmirror]

/-- Mirrors still agree after one page was protected. -/
theorem MirrorsAgree.remove {mmu : Nat → Nat} (hagree : MirrorsAgree mmu) {addr : Nat}
    (h : addr / 0x1000000 = 3) : MirrorsAgree (removeMmuWriteEntry addr iwramRegion mmu) := by
  intro p q hp hq hpq
  rw [removeMmuWriteEntry_iwram hagree h, removeMmuWriteEntry_iwram hagree h,
    hagree p q hp hq hpq, IwramMirror, IwramMirror]
  simp [hp, hq, hpq]

/-- Mirrors still agree after one page was restored. -/
theorem MirrorsAgree.restore {mmu : Nat → Nat} (hagree : MirrorsAgree mmu) {addr : Nat}
    (h : addr / 0x1000000 = 3) : MirrorsAgree (restoreMmuWriteEntry addr iwramRegion mmu) := by
  intro p q hp hq hpq
  rw [restoreMmuWriteEntry_iwram mmu h, restoreMmuWriteEntry_iwram mmu h, hagree p q hp hq hpq,
    IwramMirror, IwramMirror]
  simp [hp, hq, hpq]

/-- After `update_all_arm7` every iwram page is mapped. -/
theorem updateAllArm7_mmuWrite_ne_zero (io : CartridgeIo) {q : Nat} (hq : q / 4096 = 3) :
    (updateAllArm7 io).mmuWrite q ≠ 0 := by
  have hnibble : q * 4096 / 0x1000000 % 16 = 3 := by omega
  have hpage : q < 0x10000 := by omega
  simp [updateAllArm7, mmuWriteEntry, hnibble, hpage, iwramRegion]

end AdvancedSlop
