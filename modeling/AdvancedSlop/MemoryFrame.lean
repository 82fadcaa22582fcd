/-
# What accesses leave alone

* `write_shm_ram`, `memWrite_shm_ram` : a write to work memory changes the word it is made to and
  no other byte;
* `write_above`, `memWrite_above` : writes below a region leave its bytes alone;
* `memWrite_isSome` : a single write stays within the host's tables.
-/
import AdvancedSlop.MemoryRuns

namespace AdvancedSlop

open IndexedLoop WordMemory

variable {D : Type*} {dev : MemDevices D} {s t : GuestMem D} {width : MemWidth} {addr : Nat}
  {value : width.Value}

/-! ## Work memory -/

/-- An aligned work memory address has its word within its image. -/
theorem ramOffset_bounds (hdvd : width.bytes ∣ addr) (hram : IsRam addr) :
    ewramRegion.shmOffset ≤ ramOffset addr ∧
      ramOffset addr + width.bytes ≤ palettesRegion.shmOffset ∧
      (addr / 0x1000000 = 2 → ramOffset addr + width.bytes ≤ iwramRegion.shmOffset) ∧
      (addr / 0x1000000 = 3 → iwramRegion.shmOffset ≤ ramOffset addr) := by
  have hword : addr % 4 + width.bytes ≤ 4 := by
    obtain ⟨i, rfl⟩ := hdvd
    cases width <;> simp only [MemWidth.bytes] <;> omega
  have hpos := width.bytes_pos
  simp only [ewramRegion, iwramRegion, palettesRegion]
  rcases hram with hew | hiw
  · rw [ramOffset, if_pos (by omega)]
    simp only [ewramRegion]
    omega
  · rw [ramOffset, if_neg (by omega)]
    simp only [iwramRegion]
    omega

/-- A store into iwram writes the word. -/
theorem writeIwram_shm (addr : Nat) (width : MemWidth) (value : width.Value) (m : JitMachine) :
    (writeIwram addr width value m).shm =
      writeWord width.bytes m.shm (iwramRegion.shmOffset + addr % iwramRegion.size) value := by
  unfold writeIwram
  simp only
  by_cases hsame : readFromMem width m.shm (iwramRegion.shmOffset + addr % iwramRegion.size) = value
  · rw [if_pos hsame]
    exact (writeWord_eq_self hsame).symm
  · rw [if_neg hsame]
    split_ifs <;> rfl

/-- **The handlers of work memory** write the word, whatever is compiled from it. -/
theorem write_shm_ram (hram : IsRam addr)
    (hstep : MemoryIo.write dev width addr value s = some t) :
    t.jit.shm = writeWord width.bytes s.jit.shm (ramOffset addr) value := by
  rcases hram with hew | hiw
  · rw [write_ewram dev width s value (by omega)] at hstep
    obtain rfl := Option.some.inj hstep
    rw [ramOffset, if_pos (by omega)]
    rfl
  · rw [write_iwram dev hiw] at hstep
    obtain rfl := Option.some.inj hstep
    rw [ramOffset, if_neg (by omega)]
    exact writeIwram_shm addr width value s.jit

/-- **A write** to work memory writes the word. -/
theorem memWrite_shm_ram (h : TablesGood s) (hram : IsRam (alignedAddr width addr))
    (hstep : memWrite dev width addr value s = some t) :
    t.jit.shm = writeWord width.bytes s.jit.shm (ramOffset (alignedAddr width addr)) value := by
  by_cases hzero : s.jit.mmuWrite (alignedAddr width addr / 4096) = 0
  · rw [memWrite_of_unmapped dev hzero] at hstep
    exact write_shm_ram hram hstep
  · rw [memWrite_ram dev h hram (fun hunmapped => absurd hunmapped hzero)] at hstep
    obtain rfl := Option.some.inj hstep
    rfl

/-- The fast and the slow writes to work memory leave all but the jit memory alone. -/
theorem memWrite_same_ram (h : TablesGood s) (hram : IsRam (alignedAddr width addr))
    (hstep : memWrite dev width addr value s = some t) : t = { s with jit := t.jit } := by
  by_cases hzero : s.jit.mmuWrite (alignedAddr width addr / 4096) = 0
  · rw [memWrite_of_unmapped dev hzero] at hstep
    rcases hram with hew | hiw
    · rw [write_ewram dev width s value (by omega)] at hstep
      obtain rfl := Option.some.inj hstep
      rfl
    · rw [write_iwram dev hiw] at hstep
      obtain rfl := Option.some.inj hstep
      rfl
  · rw [memWrite_ram dev h hram (fun hunmapped => absurd hunmapped hzero)] at hstep
    obtain rfl := Option.some.inj hstep
    rfl

/-- A single write stays on the bus, so it never leaves the host's tables. -/
theorem memWrite_isSome (dev : MemDevices D) (width : MemWidth) (addr : Nat) (value : width.Value)
    (s : GuestMem D) : ∃ t, memWrite dev width addr value s = some t := by
  by_cases hzero : s.jit.mmuWrite (alignedAddr width addr / 4096) = 0
  · rw [memWrite_of_unmapped dev hzero]
    rcases region_cases (alignedAddr width addr) with h | h | h | h | h | h | h | h | h | h | h
    · exact ⟨_, write_none dev width s value (by omega)⟩
    · exact ⟨_, write_none dev width s value (by omega)⟩
    · exact ⟨_, write_ewram dev width s value h⟩
    · have hbus := alignedAddr_lt width addr
      exact ⟨_, write_iwram dev (by omega) value s⟩
    · exact ⟨_, write_ioPorts dev width s value h⟩
    · exact ⟨_, write_palettes dev width s value h⟩
    · exact ⟨_, write_vram dev width s value h⟩
    · exact ⟨_, write_oam dev width s value h⟩
    · exact ⟨_, write_rom dev width s value h⟩
    · exact ⟨_, write_romEeprom dev width s value h⟩
    · exact ⟨_, write_sram dev width s value h⟩
  · exact ⟨_, memWrite_of_mapped dev hzero value⟩

/-! ## Bytes above a region -/

/-- The end of what the handlers of a region write: none of them writes the rom. -/
def writeTop (addr : Nat) : Nat :=
  let nibble := addr / 0x1000000 % 16
  if nibble ≤ 2 then iwramRegion.shmOffset
  else if nibble ≤ 4 then palettesRegion.shmOffset
  else romRegion.shmOffset

/-- A store below a byte leaves it alone. -/
theorem store_above {offset a : Nat} (h : offset + width.bytes ≤ a) :
    (s.store width offset value).jit.shm a = s.jit.shm a :=
  writeWord_of_not value (by omega)

/-- **The handlers** write below the end of their region. -/
theorem write_above (hdvd : width.bytes ∣ addr)
    (hstep : MemoryIo.write dev width addr value s = some t) {a : Nat} (ha : writeTop addr ≤ a) :
    t.jit.shm a = s.jit.shm a := by
  have hword : addr % 4 + width.bytes ≤ 4 := by
    obtain ⟨i, rfl⟩ := hdvd
    cases width <;> simp only [MemWidth.bytes] <;> omega
  have hpos := width.bytes_pos
  have htwo : MemWidth.half.bytes = 2 := rfl
  unfold writeTop at ha
  simp only [iwramRegion, palettesRegion, romRegion] at ha
  rcases region_cases addr with h | h | h | h | h | h | h | h | h | h | h
  · rw [write_none dev width s value (by omega)] at hstep
    obtain rfl := Option.some.inj hstep
    rfl
  · rw [write_none dev width s value (by omega)] at hstep
    obtain rfl := Option.some.inj hstep
    rfl
  · rw [write_ewram dev width s value h] at hstep
    obtain rfl := Option.some.inj hstep
    rw [if_pos (by omega)] at ha
    apply store_above
    simp only [ewramRegion]
    omega
  · rw [write_iwramIo dev width s value h, MemoryIo.writeIwramIo] at hstep
    split_ifs at hstep
    obtain rfl := Option.some.inj hstep
    rw [if_neg (by omega), if_pos (by omega)] at ha
    show (writeIwram addr width value s.jit).shm a = _
    rw [writeIwram_shm]
    apply writeWord_of_not
    simp only [iwramRegion]
    omega
  · rw [write_ioPorts dev width s value h] at hstep
    obtain rfl := Option.some.inj hstep
    rfl
  · rw [write_palettes dev width s value h] at hstep
    obtain rfl := Option.some.inj hstep
    rw [if_neg (by omega), if_neg (by omega)] at ha
    unfold MemoryIo.writePalettes
    simp only
    split_ifs
    · refine store_above (s := s.markDirty dirtyPal) ?_
      simp only [palettesRegion, palettesSize]
      omega
    · refine store_above (s := s.markDirty dirtyPal) ?_
      simp only [palettesRegion, palettesSize]
      omega
  · rw [write_vram dev width s value h] at hstep
    obtain rfl := Option.some.inj hstep
    rw [if_neg (by omega), if_neg (by omega)] at ha
    have hoffset : vramOffset addr < 0x18000 ∧ vramOffset addr % 4 = addr % 4 := by
      unfold vramOffset
      simp only
      split_ifs <;> omega
    unfold MemoryIo.writeVram
    simp only
    generalize (if vramOffset addr < 0x10000 then dirtyBg else dirtyObj) = bits
    split_ifs
    · rfl
    · refine store_above (s := s.markDirty bits) ?_
      simp only [vramRegion]
      omega
    · refine store_above (s := s.markDirty bits) ?_
      simp only [vramRegion]
      omega
  · rw [write_oam dev width s value h] at hstep
    obtain rfl := Option.some.inj hstep
    rw [if_neg (by omega), if_neg (by omega)] at ha
    unfold MemoryIo.writeOam
    split_ifs
    · rfl
    · refine store_above (s := s.markDirty dirtyOam) ?_
      simp only [oamRegion, palettesSize]
      omega
  · rw [write_rom dev width s value h] at hstep
    obtain rfl := Option.some.inj hstep
    unfold MemoryIo.writeRom cartridgeWriteGpio cartridgeAutoEnableRtc
    split_ifs <;> rfl
  · rw [write_romEeprom dev width s value h] at hstep
    obtain rfl := Option.some.inj hstep
    unfold MemoryIo.writeRomEeprom
    split_ifs <;> rfl
  · rw [write_sram dev width s value h] at hstep
    obtain rfl := Option.some.inj hstep
    rfl

/-- **A single write** changes nothing above its region. -/
theorem memWrite_above (h : TablesGood s) (hstep : memWrite dev width addr value s = some t)
    {a : Nat} (ha : writeTop (alignedAddr width addr) ≤ a) : t.jit.shm a = s.jit.shm a := by
  by_cases hzero : s.jit.mmuWrite (alignedAddr width addr / 4096) = 0
  · rw [memWrite_of_unmapped dev hzero] at hstep
    exact write_above (dvd_alignedAddr width addr) hstep ha
  · obtain ⟨hram, -⟩ := getShmOffset_write h hzero
    rw [memWrite_ram dev h hram (fun hunmapped => absurd hunmapped hzero)] at hstep
    obtain rfl := Option.some.inj hstep
    obtain ⟨-, hend, hew, -⟩ := ramOffset_bounds (dvd_alignedAddr width addr) hram
    apply store_above
    unfold writeTop at ha
    simp only at ha
    split_ifs at ha
    · exact (hew (by unfold IsRam at hram; omega)).trans ha
    · exact hend.trans ha
    · unfold IsRam at hram
      omega

end AdvancedSlop
