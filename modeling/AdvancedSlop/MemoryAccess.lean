/-
# Accesses to the guest memory

What one access does when the mmu tables are in order.

* `TablesGood` : the tables hold what `update_all_arm7` puts there, but for protected iwram pages
  and the unmapped head of the rom;
* `mmuUnmapRomHead_apply`, `getShmOffset_write` : their entries;
* `write_ram`, `memWrite_ram` : a store into work memory that holds no compiled code.
-/
import AdvancedSlop.JitInvalidation
import AdvancedSlop.MemoryIo

namespace AdvancedSlop

open WordMemory

/-! ## Addresses -/

theorem MemWidth.bytes_pos (width : MemWidth) : 0 < width.bytes := by
  cases width <;> decide

/-- The widths divide what the regions are made of. -/
theorem MemWidth.bytes_dvd (width : MemWidth) : width.bytes ∣ 4 := by
  cases width <;> decide

theorem alignedAddr_lt (width : MemWidth) (addr : Nat) : alignedAddr width addr < 0x10000000 :=
  Nat.mod_lt _ (by decide)

/-- An access is made at a multiple of its width. -/
theorem dvd_alignedAddr (width : MemWidth) (addr : Nat) : width.bytes ∣ alignedAddr width addr := by
  have hbus : width.bytes ∣ 0x10000000 := width.bytes_dvd.trans (by decide)
  exact (Nat.dvd_mod_iff hbus).mpr (Nat.dvd_mul_left ..)

/-- The addresses of the elements of a slice. -/
theorem alignedAddr_add (width : MemWidth) (addr i : Nat) :
    alignedAddr width (addr + i * width.bytes) =
      (alignedAddr width addr + i * width.bytes) % 0x10000000 := by
  rw [alignedAddr, alignedAddr, Nat.add_mul_div_right _ _ width.bytes_pos, Nat.add_mul,
    Nat.mod_add_mod]

/-- An aligned address of the bus is accessed as it is. -/
theorem alignedAddr_self {width : MemWidth} {addr : Nat} (hdvd : width.bytes ∣ addr)
    (hlt : addr < 0x10000000) : alignedAddr width addr = addr := by
  rw [alignedAddr, Nat.div_mul_cancel hdvd, Nat.mod_eq_of_lt hlt]

/-- The bytes of a word of ones. -/
theorem byteOf_allOnes (width : MemWidth) {i : Nat} (hi : i < width.bytes) :
    byteOf (BitVec.allOnes (8 * width.bytes)) i = 0xFF := by
  cases width <;> simp only [MemWidth.bytes] at hi ⊢ <;> interval_cases i <;> rfl

theorem allOnes_ne_zero (width : MemWidth) : (0 : width.Value) ≠ BitVec.allOnes _ := by
  cases width <;> decide

/-- A word of ones is read from bytes of ones. -/
theorem readWord_ones (width : MemWidth) (offset : Nat) :
    readWord width.bytes (fun _ => 0xFF) offset = BitVec.allOnes _ := by
  rw [readWord_eq_iff]
  intro i hi
  exact (byteOf_allOnes width hi).symm

/-! ## The tables -/

/-- The work memories: the mapped memories that can be written. -/
def IsRam (addr : Nat) : Prop := addr / 0x1000000 = 2 ∨ addr / 0x1000000 = 3

instance (addr : Nat) : Decidable (IsRam addr) := inferInstanceAs (Decidable (_ ∨ _))

/-- The place of a work memory address in the shared memory. -/
def ramOffset (addr : Nat) : Nat :=
  if addr / 0x1000000 % 16 = 2 then ewramRegion.shmOffset + addr % ewramRegion.size
  else iwramRegion.shmOffset + addr % iwramRegion.size

/-- A page of the rom head that `mmu_unmap_rom_head` unmaps. -/
def RomHeadPage (page : Nat) : Prop :=
  4 ≤ page / 0x2000 ∧ page / 0x2000 < 7 ∧ page % 0x2000 < 4

instance (page : Nat) : Decidable (RomHeadPage page) := inferInstanceAs (Decidable (_ ∧ _ ∧ _))

/-- The write table of `update_all_arm7` with some iwram pages protected. -/
def WriteTableGood (cart : CartridgeIo) (mmuWrite : Nat → Nat) : Prop :=
  ∀ page, mmuWrite page = (updateAllArm7 cart).mmuWrite page ∨ (page / 4096 = 3 ∧ mmuWrite page = 0)

/-- **The tables** as every run leaves them. -/
structure TablesGood {D : Type*} (s : GuestMem D) : Prop where
  write : WriteTableGood s.cart s.jit.mmuWrite
  read : s.mmuRead = (updateAllArm7 s.cart).mmuRead ∨
    s.mmuRead = (mmuUnmapRomHead (updateAllArm7 s.cart)).mmuRead

/-- A loop that clears the entries of a list of addresses. -/
theorem foldl_clear (page : Nat) (l : List Nat) (mmu : Nat → Nat) :
    l.foldl (fun mmu addr => Function.update mmu (addr / 4096) 0) mmu page =
      if ∃ addr ∈ l, addr / 4096 = page then 0 else mmu page := by
  induction l generalizing mmu with
  | nil => simp
  | cons addr l ih =>
      rw [List.foldl_cons, ih, Function.update_apply]
      by_cases hpage : addr / 4096 = page
      · simp [hpage]
      · simp [hpage, Ne.symm hpage]

/-- The loop over the head of one rom image. -/
theorem foldl_romHead {image : Nat} (h : image % 4096 = 0) (page : Nat) (mmu : Nat → Nat) :
    (stepBy image (image + 0x4000) 4096).foldl
        (fun mmu addr => Function.update mmu (addr / 4096) 0) mmu page =
      if image / 4096 ≤ page ∧ page < image / 4096 + 4 then 0 else mmu page := by
  rw [foldl_clear]
  apply if_congr _ rfl rfl
  constructor
  · rintro ⟨addr, haddr, rfl⟩
    obtain ⟨i, rfl, hlt⟩ := (mem_stepBy (by decide)).mp haddr
    omega
  · rintro ⟨hlow, hhigh⟩
    refine ⟨page * 4096, (mem_stepBy (by decide)).mpr ⟨page - image / 4096, ?_, ?_⟩, ?_⟩ <;> omega

/-- What `mmu_unmap_rom_head` does to a page. -/
theorem mmuUnmapRomHead_apply (mmu : MmuArm7) (page : Nat) :
    (mmuUnmapRomHead mmu).mmuRead page = if RomHeadPage page then 0 else mmu.mmuRead page := by
  have himages : stepBy 0x08000000 0x0E000000 0x2000000 = [0x08000000, 0x0A000000, 0x0C000000] := by
    decide
  unfold mmuUnmapRomHead
  rw [himages, List.foldl_cons, List.foldl_cons, List.foldl_cons, List.foldl_nil]
  show (List.foldl _ _ _ : Nat → Nat) page = _
  rw [foldl_romHead (by decide), foldl_romHead (by decide), foldl_romHead (by decide)]
  by_cases hhead : RomHeadPage page
  · rw [if_pos hhead]
    unfold RomHeadPage at hhead
    split_ifs
    · rfl
    · rfl
    · rfl
    · omega
  · rw [if_neg hhead]
    unfold RomHeadPage at hhead
    rw [if_neg (by omega), if_neg (by omega), if_neg (by omega)]

/-- Every entry of the write table is the place of its page. -/
theorem getShmOffset_write {D : Type*} {s : GuestMem D} (h : TablesGood s) {addr : Nat}
    (hmapped : s.jit.mmuWrite (addr / 4096) ≠ 0) :
    IsRam addr ∧ getShmOffset s.jit.mmuWrite addr = ramOffset addr := by
  rw [getShmOffset, if_pos hmapped]
  rcases h.write (addr / 4096) with hentry | ⟨-, hzero⟩
  · rw [hentry] at hmapped ⊢
    simp only [updateAllArm7, mmuWriteEntry, IsRam, ramOffset, ewramRegion, iwramRegion] at hmapped ⊢
    split_ifs at hmapped ⊢ <;> omega
  · exact absurd hzero hmapped

/-- An unprotected page of the work memories is mapped. -/
theorem mmuWrite_ne_zero {D : Type*} {s : GuestMem D} (h : TablesGood s) {addr : Nat}
    (hram : IsRam addr) (hprotected : ¬ (addr / 0x1000000 = 3 ∧ s.jit.mmuWrite (addr / 4096) = 0)) :
    s.jit.mmuWrite (addr / 4096) ≠ 0 := by
  rcases h.write (addr / 4096) with hentry | ⟨hpage, hzero⟩
  · rw [hentry]
    simp only [updateAllArm7, mmuWriteEntry, IsRam, ewramRegion, iwramRegion] at hram ⊢
    split_ifs <;> omega
  · exact absurd ⟨by omega, hzero⟩ hprotected

/-- Whether a fast access is taken. -/
theorem getShmOffset_eq_zero {mmu : Nat → Nat} {addr : Nat} :
    getShmOffset mmu addr = 0 ↔ mmu (addr / 4096) = 0 := by
  unfold getShmOffset
  split_ifs with h
  · exact iff_of_false (by omega) h
  · exact iff_of_true rfl (not_not.mp h)

/-! ## Stores into work memory -/

section Store

variable {D : Type*} (s : GuestMem D)

@[simp] theorem withShm_shm (shm : Nat → UInt8) : (s.withShm shm).jit.shm = shm := rfl

@[simp] theorem withShm_withShm (shm shm' : Nat → UInt8) :
    (s.withShm shm).withShm shm' = s.withShm shm' := rfl

@[simp] theorem withShm_self : s.withShm s.jit.shm = s := rfl

@[simp] theorem withShm_jitMemory (shm : Nat → UInt8) : (s.withShm shm).jit.jit = s.jit.jit := rfl

@[simp] theorem withShm_mmuWrite (shm : Nat → UInt8) :
    (s.withShm shm).jit.mmuWrite = s.jit.mmuWrite := rfl

@[simp] theorem withShm_mmuRead (shm : Nat → UInt8) : (s.withShm shm).mmuRead = s.mmuRead := rfl

@[simp] theorem withShm_cart (shm : Nat → UInt8) : (s.withShm shm).cart = s.cart := rfl

@[simp] theorem withShm_devices (shm : Nat → UInt8) : (s.withShm shm).devices = s.devices := rfl

/-- A store is a write of a word. -/
theorem store_eq (width : MemWidth) (offset : Nat) (value : width.Value) :
    s.store width offset value = s.withShm (writeWord width.bytes s.jit.shm offset value) := rfl

/-- A load is a read of a word. -/
theorem load_eq (width : MemWidth) (offset : Nat) :
    s.load width offset = readWord width.bytes s.jit.shm offset := rfl

end Store

/-- The tables do not depend on the contents. -/
theorem TablesGood.withShm {D : Type*} {s : GuestMem D} (h : TablesGood s) (shm : Nat → UInt8) :
    TablesGood (s.withShm shm) :=
  ⟨h.write, h.read⟩

/-- The last byte of an aligned access lies in the live-range page of the first. -/
theorem hasJitBlock_last (jit : JitMemory) {width : MemWidth} {addr : Nat}
    (hdvd : width.bytes ∣ addr) :
    hasJitBlock jit (addr + width.bytes - 1) = hasJitBlock jit addr := by
  have hpage : (addr + width.bytes - 1) / 256 = addr / 256 := by
    obtain ⟨i, rfl⟩ := hdvd
    cases width <;> simp only [MemWidth.bytes] <;> omega
  unfold hasJitBlock
  rw [livePage_congr hpage]

/-- A store into a page of iwram without compiled code is a plain one. -/
theorem writeIwram_of_not_live {m : JitMachine} {width : MemWidth} {addr : Nat}
    (hdvd : width.bytes ∣ addr) (hlive : hasJitBlock m.jit addr = false) (value : width.Value) :
    writeIwram addr width value m =
      { m with
        shm := writeToMem width m.shm (iwramRegion.shmOffset + addr % iwramRegion.size) value } := by
  unfold writeIwram
  simp only
  by_cases hsame : readFromMem width m.shm (iwramRegion.shmOffset + addr % iwramRegion.size) = value
  · have hshm : writeToMem width m.shm (iwramRegion.shmOffset + addr % iwramRegion.size) value =
        m.shm := writeWord_eq_self hsame
    rw [if_pos hsame, hshm]
  · have hlast : hasJitBlock m.jit (addr + width.bytes - 1) = false :=
      (hasJitBlock_last m.jit hdvd).trans hlive
    have hmiss : invalidateBlock addr width.bytes m.jit = (m.jit, false) := by
      unfold invalidateBlock
      simp only [invalidateProbe_miss hlive, invalidateProbe_miss hlast, Bool.or_self]
    rw [if_neg hsame, hmiss]
    rfl

/-- A store that changes iwram beside compiled code clears the live bit. -/
theorem writeIwram_of_live {m : JitMachine} (hok : TablesOk m.jit) {width : MemWidth} {addr : Nat}
    (haddr : addr / 0x1000000 = 3) (hlive : hasJitBlock m.jit addr = true) {value : width.Value}
    (hne : readFromMem width m.shm (iwramRegion.shmOffset + addr % iwramRegion.size) ≠ value) :
    hasJitBlock (writeIwram addr width value m).jit addr = false := by
  rcases writeIwram_spec hok haddr width value with ⟨hsame, -⟩ | ⟨-, -, hst⟩
  · exact absurd hsame hne
  · cases hpage : livePage addr with
    | none => simp [hasJitBlock, hpage] at hlive
    | some page =>
        have hunwatched := (hst.live page).not.mpr fun hboth =>
          hboth.2 (.inl ⟨addr, mem_hitProbes.mpr (.inl ⟨rfl, hlive⟩), hpage⟩)
        simpa [hasJitBlock, hpage] using hunwatched

/-- The address is one of iwram with compiled code beside it. -/
def Watched {D : Type*} (s : GuestMem D) (addr : Nat) : Prop :=
  addr / 0x1000000 = 3 ∧ hasJitBlock s.jit.jit addr = true

instance {D : Type*} (s : GuestMem D) (addr : Nat) : Decidable (Watched s addr) :=
  inferInstanceAs (Decidable (_ ∧ _))

/-! ## The handlers, region by region -/

section Regions

variable {D : Type*} (dev : MemDevices D) (width : MemWidth) {addr : Nat} (s : GuestMem D)

/-- The regions of the bus. -/
theorem region_cases (addr : Nat) :
    addr / 0x1000000 % 16 = 0 ∨ addr / 0x1000000 % 16 = 1 ∨ addr / 0x1000000 % 16 = 2 ∨
      addr / 0x1000000 % 16 = 3 ∨ addr / 0x1000000 % 16 = 4 ∨ addr / 0x1000000 % 16 = 5 ∨
      addr / 0x1000000 % 16 = 6 ∨ addr / 0x1000000 % 16 = 7 ∨
      (8 ≤ addr / 0x1000000 % 16 ∧ addr / 0x1000000 % 16 < 13) ∨
      addr / 0x1000000 % 16 = 13 ∨ 14 ≤ addr / 0x1000000 % 16 := by
  omega

theorem read_bios (h : addr / 0x1000000 % 16 = 0) :
    MemoryIo.read dev width addr s = (MemoryIo.readBios width addr s, s) := by
  unfold MemoryIo.read
  simp only [h]
  rfl

theorem read_openBus (h : addr / 0x1000000 % 16 = 1) :
    MemoryIo.read dev width addr s = (0, s) := by
  unfold MemoryIo.read
  simp only [h]
  rfl

theorem read_ewram (h : addr / 0x1000000 % 16 = 2) :
    MemoryIo.read dev width addr s =
      (s.load width (ewramRegion.shmOffset + addr % ewramRegion.size), s) := by
  unfold MemoryIo.read
  simp only [h]
  rfl

theorem read_iwram (h : addr / 0x1000000 % 16 = 3) :
    MemoryIo.read dev width addr s =
      (s.load width (iwramRegion.shmOffset + addr % iwramRegion.size), s) := by
  unfold MemoryIo.read
  simp only [h]
  rfl

theorem read_ioPorts (h : addr / 0x1000000 % 16 = 4) :
    MemoryIo.read dev width addr s = MemoryIo.readIoPorts dev width addr s := by
  unfold MemoryIo.read
  simp only [h]
  rfl

theorem read_palettes (h : addr / 0x1000000 % 16 = 5) :
    MemoryIo.read dev width addr s =
      (s.load width (palettesRegion.shmOffset + addr % palettesSize), s) := by
  unfold MemoryIo.read
  simp only [h]
  rfl

theorem read_vram (h : addr / 0x1000000 % 16 = 6) :
    MemoryIo.read dev width addr s =
      (s.load width (vramRegion.shmOffset + vramOffset addr), s) := by
  unfold MemoryIo.read
  simp only [h]
  rfl

theorem read_oam (h : addr / 0x1000000 % 16 = 7) :
    MemoryIo.read dev width addr s =
      (s.load width (oamRegion.shmOffset + addr % palettesSize), s) := by
  unfold MemoryIo.read
  simp only [h]
  rfl

theorem read_rom (h : 8 ≤ addr / 0x1000000 % 16 ∧ addr / 0x1000000 % 16 < 13) :
    MemoryIo.read dev width addr s = (MemoryIo.readRom dev width addr s, s) := by
  unfold MemoryIo.read
  generalize addr / 0x1000000 % 16 = nibble at h
  obtain ⟨hlow, hhigh⟩ := h
  interval_cases nibble <;> rfl

theorem read_romEeprom (h : addr / 0x1000000 % 16 = 13) :
    MemoryIo.read dev width addr s = MemoryIo.readRomEeprom dev width addr s := by
  unfold MemoryIo.read
  simp only [h]
  rfl

theorem read_sram (h : 14 ≤ addr / 0x1000000 % 16) :
    MemoryIo.read dev width addr s = (MemoryIo.readSram dev width addr s, s) := by
  unfold MemoryIo.read
  have hlt : addr / 0x1000000 % 16 < 16 := Nat.mod_lt _ (by decide)
  generalize addr / 0x1000000 % 16 = nibble at h hlt
  interval_cases nibble <;> rfl

variable (value : width.Value)

theorem write_none (h : addr / 0x1000000 % 16 < 2) :
    MemoryIo.write dev width addr value s = some s := by
  unfold MemoryIo.write
  generalize addr / 0x1000000 % 16 = nibble at h
  interval_cases nibble <;> rfl

theorem write_ewram (h : addr / 0x1000000 % 16 = 2) :
    MemoryIo.write dev width addr value s =
      some (s.store width (ewramRegion.shmOffset + addr % ewramRegion.size) value) := by
  unfold MemoryIo.write
  simp only [h]
  rfl

theorem write_iwramIo (h : addr / 0x1000000 % 16 = 3) :
    MemoryIo.write dev width addr value s = MemoryIo.writeIwramIo width addr value s := by
  unfold MemoryIo.write
  simp only [h]
  rfl

theorem write_ioPorts (h : addr / 0x1000000 % 16 = 4) :
    MemoryIo.write dev width addr value s =
      some (MemoryIo.writeIoPorts dev width addr value s) := by
  unfold MemoryIo.write
  simp only [h]
  rfl

theorem write_palettes (h : addr / 0x1000000 % 16 = 5) :
    MemoryIo.write dev width addr value s = some (MemoryIo.writePalettes width addr value s) := by
  unfold MemoryIo.write
  simp only [h]
  rfl

theorem write_vram (h : addr / 0x1000000 % 16 = 6) :
    MemoryIo.write dev width addr value s =
      some (MemoryIo.writeVram dev width addr value s) := by
  unfold MemoryIo.write
  simp only [h]
  rfl

theorem write_oam (h : addr / 0x1000000 % 16 = 7) :
    MemoryIo.write dev width addr value s = some (MemoryIo.writeOam width addr value s) := by
  unfold MemoryIo.write
  simp only [h]
  rfl

theorem write_rom (h : 8 ≤ addr / 0x1000000 % 16 ∧ addr / 0x1000000 % 16 < 13) :
    MemoryIo.write dev width addr value s =
      some (MemoryIo.writeRom dev width addr value s) := by
  unfold MemoryIo.write
  generalize addr / 0x1000000 % 16 = nibble at h
  obtain ⟨hlow, hhigh⟩ := h
  interval_cases nibble <;> rfl

theorem write_romEeprom (h : addr / 0x1000000 % 16 = 13) :
    MemoryIo.write dev width addr value s =
      some (MemoryIo.writeRomEeprom dev width addr value s) := by
  unfold MemoryIo.write
  simp only [h]
  rfl

theorem write_sram (h : 14 ≤ addr / 0x1000000 % 16) :
    MemoryIo.write dev width addr value s =
      some (MemoryIo.writeSram dev width addr value s) := by
  unfold MemoryIo.write
  have hlt : addr / 0x1000000 % 16 < 16 := Nat.mod_lt _ (by decide)
  generalize addr / 0x1000000 % 16 = nibble at h hlt
  interval_cases nibble <;> rfl

end Regions

section Access

variable {D : Type*} (dev : MemDevices D)

/-- The handler of iwram, on the bus. -/
theorem write_iwram {width : MemWidth} {addr : Nat} (hiw : addr / 0x1000000 = 3)
    (value : width.Value) (s : GuestMem D) :
    MemoryIo.write dev width addr value s =
      some { s with jit := writeIwram addr width value s.jit } := by
  rw [write_iwramIo dev width s value (by omega), MemoryIo.writeIwramIo,
    if_pos (.inr (by omega))]

/-- The handlers store into work memory what is written, where no code is watched. -/
theorem write_ram {s : GuestMem D} {width : MemWidth} {addr : Nat} (hdvd : width.bytes ∣ addr)
    (hram : IsRam addr) (hwatched : ¬ Watched s addr) (value : width.Value) :
    MemoryIo.write dev width addr value s = some (s.store width (ramOffset addr) value) := by
  rcases hram with hew | hiw
  · rw [write_ewram dev width s value (by omega), ramOffset, if_pos (by omega)]
  · have hlive : hasJitBlock s.jit.jit addr = false := by
      by_contra hlive
      exact hwatched ⟨hiw, eq_true_of_ne_false hlive⟩
    have hoffset : ramOffset addr = iwramRegion.shmOffset + addr % iwramRegion.size := by
      unfold ramOffset
      rw [if_neg (by omega)]
    rw [write_iwram dev hiw, writeIwram_of_not_live hdvd hlive, hoffset]
    rfl

/-- A fast read. -/
theorem memRead_of_mapped {s : GuestMem D} {width : MemWidth} {addr : Nat}
    (hmapped : s.mmuRead (alignedAddr width addr / 4096) ≠ 0) :
    memRead dev width addr s =
      (s.load width (getShmOffset s.mmuRead (alignedAddr width addr)), s) :=
  if_pos fun hzero => hmapped (getShmOffset_eq_zero.mp hzero)

/-- A slow read. -/
theorem memRead_of_unmapped {s : GuestMem D} {width : MemWidth} {addr : Nat}
    (hunmapped : s.mmuRead (alignedAddr width addr / 4096) = 0) :
    memRead dev width addr s = MemoryIo.read dev width (alignedAddr width addr) s :=
  if_neg (not_not.mpr (getShmOffset_eq_zero.mpr hunmapped))

/-- A fast write. -/
theorem memWrite_of_mapped {s : GuestMem D} {width : MemWidth} {addr : Nat}
    (hmapped : s.jit.mmuWrite (alignedAddr width addr / 4096) ≠ 0) (value : width.Value) :
    memWrite dev width addr value s =
      some (s.store width (getShmOffset s.jit.mmuWrite (alignedAddr width addr)) value) :=
  if_pos fun hzero => hmapped (getShmOffset_eq_zero.mp hzero)

/-- A slow write. -/
theorem memWrite_of_unmapped {s : GuestMem D} {width : MemWidth} {addr : Nat}
    (hunmapped : s.jit.mmuWrite (alignedAddr width addr / 4096) = 0) (value : width.Value) :
    memWrite dev width addr value s =
      MemoryIo.write dev width (alignedAddr width addr) value s :=
  if_neg (not_not.mpr (getShmOffset_eq_zero.mpr hunmapped))

/-- **A store** into work memory writes the value, where the page is mapped or no code is
watched. -/
theorem memWrite_ram {s : GuestMem D} (h : TablesGood s) {width : MemWidth} {addr : Nat}
    (hram : IsRam (alignedAddr width addr))
    (hwatched : s.jit.mmuWrite (alignedAddr width addr / 4096) = 0 →
      ¬ Watched s (alignedAddr width addr)) (value : width.Value) :
    memWrite dev width addr value s =
      some (s.store width (ramOffset (alignedAddr width addr)) value) := by
  by_cases hzero : s.jit.mmuWrite (alignedAddr width addr / 4096) = 0
  · rw [memWrite_of_unmapped dev hzero]
    exact write_ram dev (dvd_alignedAddr width addr) hram (hwatched hzero) value
  · rw [memWrite_of_mapped dev hzero, (getShmOffset_write h hzero).2]

/-- An access is made at its aligned address. -/
theorem memWrite_congr {width : MemWidth} {addr addr' : Nat}
    (h : alignedAddr width addr = alignedAddr width addr') (value : width.Value)
    (s : GuestMem D) : memWrite dev width addr value s = memWrite dev width addr' value s := by
  unfold memWrite
  rw [h]

end Access

end AdvancedSlop
