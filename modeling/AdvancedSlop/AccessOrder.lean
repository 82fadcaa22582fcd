/-
# The order of accesses

When a write can change places with a later read.

* `writeSite`, `ReadsDevices`, `WritesDevices` : what the accesses touch;
* `Apart` : a read and a write that touch nothing in common;
* `WriteFrame` : what a write leaves alone;
* `memWrite_movesOver` : a write moves over a read apart from it.

Accesses of one byte are left out: video memory takes them by the mode of the display.
-/
import AdvancedSlop.BulkRead
import AdvancedSlop.MemoryFrame

namespace AdvancedSlop

open IndexedLoop WordMemory

variable {D : Type*}

/-! ## What accesses touch -/

/-- The registers of the general purpose port. -/
def IsPortAddr (addr : Nat) : Prop := 0x080000C4 ≤ addr ∧ addr < 0x080000CA

instance (addr : Nat) : Decidable (IsPortAddr addr) := inferInstanceAs (Decidable (_ ∧ _))

/-- The place in the shared memory that a write of a half word or a word changes. -/
def writeSite (addr : Nat) : Option Nat :=
  let nibble := addr / 0x1000000 % 16
  if nibble = 2 ∨ nibble = 3 then some (ramOffset addr)
  else if nibble = 5 then some (palettesRegion.shmOffset + addr % palettesSize)
  else if nibble = 6 then some (vramRegion.shmOffset + vramOffset addr)
  else if nibble = 7 then some (oamRegion.shmOffset + addr % palettesSize)
  else none

/-- A read that asks a device. -/
def ReadsDevices (s : GuestMem D) (width : MemWidth) (addr : Nat) : Prop :=
  readSite s width addr = none ∧
    (addr / 0x1000000 % 16 = 4 ∨
      (addr / 0x1000000 % 16 = 13 ∧ s.cartridgeIsEeprom addr = true) ∨
      14 ≤ addr / 0x1000000 % 16 ∨ IsPortAddr addr)

/-- A write that tells a device. -/
def WritesDevices (s : GuestMem D) (addr : Nat) : Prop :=
  addr / 0x1000000 % 16 = 4 ∨
    (addr / 0x1000000 % 16 = 13 ∧ s.cartridgeIsEeprom addr = true) ∨
    14 ≤ addr / 0x1000000 % 16 ∨ IsPortAddr addr

/-- A read whose place a write leaves: the first write to the port turns the clock on and unmaps
the head of the rom. -/
def Stays (s : GuestMem D) (width : MemWidth) (source dest : Nat) : Prop :=
  IsPortAddr dest →
    ¬ IsPortAddr source ∧
      readSite (cartridgeAutoEnableRtc s) width source = readSite s width source

/-- A read and a write that touch nothing in common. -/
def Apart (s : GuestMem D) (width : MemWidth) (source dest : Nat) : Prop :=
  Stays s width source dest ∧
    (∀ taken changed, readSite s width source = some taken → writeSite dest = some changed →
      taken + width.bytes ≤ changed ∨ changed + width.bytes ≤ taken) ∧
    ¬ (ReadsDevices s width source ∧ WritesDevices s dest)

/-! ## What a write leaves alone -/

/-- What a write leaves alone. -/
structure WriteFrame (width : MemWidth) (addr : Nat) (s t : GuestMem D) : Prop where
  openBus : t.biosOpenBus = s.biosOpenBus
  rom : (t.cart = s.cart ∧ t.mmuRead = s.mmuRead ∧ t.gpControl = s.gpControl) ∨
    (IsPortAddr addr ∧ t.cart = (cartridgeAutoEnableRtc s).cart ∧
      t.mmuRead = (cartridgeAutoEnableRtc s).mmuRead)
  shm : ∀ a, (∀ changed, writeSite addr = some changed → a < changed ∨ changed + width.bytes ≤ a) →
    t.jit.shm a = s.jit.shm a

section Frame

variable {dev : MemDevices D} {width : MemWidth} {addr : Nat} {value : width.Value}
  {s t : GuestMem D}

/-- A write that leaves the rom and its port alone. -/
theorem WriteFrame.of_same (hbus : t.biosOpenBus = s.biosOpenBus) (hcart : t.cart = s.cart)
    (hread : t.mmuRead = s.mmuRead) (hport : t.gpControl = s.gpControl)
    (hshm : ∀ a, (∀ changed, writeSite addr = some changed → a < changed ∨ changed + width.bytes ≤ a) →
      t.jit.shm a = s.jit.shm a) : WriteFrame width addr s t :=
  ⟨hbus, .inl ⟨hcart, hread, hport⟩, hshm⟩

/-- A store to the place of an address. -/
theorem WriteFrame.store {offset : Nat} (bits : BitVec 8) (value : width.Value)
    (h : writeSite addr = some offset) :
    WriteFrame width addr s ((s.markDirty bits).store width offset value) :=
  .of_same rfl rfl rfl rfl fun _ ha => writeWord_of_not value (by have := ha offset h; omega)

/-- **The handlers** keep the frame of their address. -/
theorem write_frame (hwidth : width ≠ .byte)
    (hstep : MemoryIo.write dev width addr value s = some t) : WriteFrame width addr s t := by
  rcases region_cases addr with h | h | h | h | h | h | h | h | h | h | h
  · rw [write_none dev width s value (by omega)] at hstep
    obtain rfl := Option.some.inj hstep
    exact .of_same rfl rfl rfl rfl fun _ _ => rfl
  · rw [write_none dev width s value (by omega)] at hstep
    obtain rfl := Option.some.inj hstep
    exact .of_same rfl rfl rfl rfl fun _ _ => rfl
  · have hsite : writeSite addr = some (ewramRegion.shmOffset + addr % ewramRegion.size) := by
      rw [writeSite, if_pos (.inl h), ramOffset, if_pos h]
    rw [write_ewram dev width s value h] at hstep
    obtain rfl := Option.some.inj hstep
    exact .of_same rfl rfl rfl rfl fun _ ha => writeWord_of_not value (by have := ha _ hsite; omega)
  · have hsite : writeSite addr = some (iwramRegion.shmOffset + addr % iwramRegion.size) := by
      rw [writeSite, if_pos (.inr h), ramOffset, if_neg (by omega)]
    rw [write_iwramIo dev width s value h, MemoryIo.writeIwramIo] at hstep
    split_ifs at hstep
    obtain rfl := Option.some.inj hstep
    refine .of_same rfl rfl rfl rfl fun a ha => ?_
    show (writeIwram addr width value s.jit).shm a = _
    rw [writeIwram_shm]
    exact writeWord_of_not value (by have := ha _ hsite; omega)
  · rw [write_ioPorts dev width s value h] at hstep
    obtain rfl := Option.some.inj hstep
    exact .of_same rfl rfl rfl rfl fun _ _ => rfl
  · rw [write_palettes dev width s value h, MemoryIo.writePalettes] at hstep
    simp only [if_neg hwidth] at hstep
    obtain rfl := Option.some.inj hstep
    apply WriteFrame.store
    unfold writeSite
    simp [h]
  · rw [write_vram dev width s value h, MemoryIo.writeVram] at hstep
    simp only [if_neg hwidth] at hstep
    obtain rfl := Option.some.inj hstep
    apply WriteFrame.store
    unfold writeSite
    simp [h]
  · rw [write_oam dev width s value h, MemoryIo.writeOam, if_neg hwidth] at hstep
    obtain rfl := Option.some.inj hstep
    apply WriteFrame.store
    unfold writeSite
    simp [h]
  · rw [write_rom dev width s value h, MemoryIo.writeRom] at hstep
    obtain rfl := Option.some.inj hstep
    split_ifs with hport
    · -- the registers of the port are none of the frame
      refine ⟨?_, .inr ⟨hport, ?_, ?_⟩, fun a _ => ?_⟩ <;>
        unfold cartridgeWriteGpio cartridgeAutoEnableRtc <;> split_ifs <;> rfl
    · exact .of_same rfl rfl rfl rfl fun _ _ => rfl
  · rw [write_romEeprom dev width s value h, MemoryIo.writeRomEeprom] at hstep
    obtain rfl := Option.some.inj hstep
    split_ifs <;> exact .of_same rfl rfl rfl rfl fun _ _ => rfl
  · rw [write_sram dev width s value h] at hstep
    obtain rfl := Option.some.inj hstep
    exact .of_same rfl rfl rfl rfl fun _ _ => rfl

/-- A write that tells no device does not look at them. -/
theorem write_withDevices (hwidth : width ≠ .byte) (hplain : ¬ WritesDevices s addr) (devices : D) :
    (MemoryIo.write dev width addr value { s with devices := devices } =
      (MemoryIo.write dev width addr value s).map fun t => { t with devices := devices }) ∧
    ∀ t, MemoryIo.write dev width addr value s = some t → t.devices = s.devices := by
  unfold WritesDevices at hplain
  rcases region_cases addr with h | h | h | h | h | h | h | h | h | h | h
  · rw [write_none dev width _ value (by omega), write_none dev width _ value (by omega)]
    exact ⟨rfl, by rintro t ⟨⟩; rfl⟩
  · rw [write_none dev width _ value (by omega), write_none dev width _ value (by omega)]
    exact ⟨rfl, by rintro t ⟨⟩; rfl⟩
  · rw [write_ewram dev width _ value h, write_ewram dev width _ value h]
    exact ⟨rfl, by rintro t ⟨⟩; rfl⟩
  · rw [write_iwramIo dev width _ value h, write_iwramIo dev width _ value h]
    unfold MemoryIo.writeIwramIo
    have hload : GuestMem.load { s with devices := devices } width
        (iwramRegion.shmOffset + addr % iwramRegion.size) =
          s.load width (iwramRegion.shmOffset + addr % iwramRegion.size) := rfl
    rw [hload]
    split_ifs
    · exact ⟨rfl, by rintro t ⟨⟩; rfl⟩
    · exact ⟨rfl, by rintro t ⟨⟩⟩
  · exact absurd (.inl h) hplain
  · rw [write_palettes dev width _ value h, write_palettes dev width _ value h]
    unfold MemoryIo.writePalettes
    simp only [if_neg hwidth]
    exact ⟨rfl, by rintro t ⟨⟩; rfl⟩
  · rw [write_vram dev width _ value h, write_vram dev width _ value h]
    unfold MemoryIo.writeVram
    simp only [if_neg hwidth]
    exact ⟨rfl, by rintro t ⟨⟩; rfl⟩
  · rw [write_oam dev width _ value h, write_oam dev width _ value h]
    unfold MemoryIo.writeOam
    simp only [if_neg hwidth]
    exact ⟨rfl, by rintro t ⟨⟩; rfl⟩
  · have hport : ¬ (0x080000C4 ≤ addr ∧ addr < 0x080000CA) :=
      fun hport => hplain (.inr (.inr (.inr hport)))
    rw [write_rom dev width _ value h, write_rom dev width _ value h, MemoryIo.writeRom,
      MemoryIo.writeRom, if_neg hport, if_neg hport]
    exact ⟨rfl, by rintro t ⟨⟩; rfl⟩
  · have heeprom : ¬ s.cartridgeIsEeprom addr = true := fun heeprom => hplain (.inr (.inl ⟨h, heeprom⟩))
    rw [write_romEeprom dev width _ value h, write_romEeprom dev width _ value h,
      MemoryIo.writeRomEeprom, MemoryIo.writeRomEeprom, if_neg heeprom,
      if_neg (show ¬ GuestMem.cartridgeIsEeprom { s with devices := devices } addr = true from
        heeprom)]
    exact ⟨rfl, by rintro t ⟨⟩; rfl⟩
  · exact absurd (.inr (.inr (.inl h))) hplain

end Frame

/-! ## Reads after writes -/

/-- What reads see after some writes: the state before them, or, where a write `opened` the port,
that state with the clock turned on. -/
def ReadFrame (s u : GuestMem D) (opened : Prop) : Prop :=
  u.biosOpenBus = s.biosOpenBus ∧
    ((u.cart = s.cart ∧ u.mmuRead = s.mmuRead ∧ u.gpControl = s.gpControl) ∨
      (opened ∧ u.cart = (cartridgeAutoEnableRtc s).cart ∧
        u.mmuRead = (cartridgeAutoEnableRtc s).mmuRead))

section ReadFrame

variable {dev : MemDevices D} {width : MemWidth} {addr : Nat} {s t u : GuestMem D}
  {opened : Prop}

theorem ReadFrame.refl (s : GuestMem D) : ReadFrame s s opened := ⟨rfl, .inl ⟨rfl, rfl, rfl⟩⟩

/-- The clock is turned on for good. -/
theorem autoEnableRtc_on (s : GuestMem D) : (cartridgeAutoEnableRtc s).cart.hasRtc = true := by
  unfold cartridgeAutoEnableRtc
  split_ifs with hrtc
  · exact hrtc
  · rfl

/-- Turning it on looks at the cartridge and the read table only. -/
theorem autoEnableRtc_congr (hcart : u.cart = s.cart) (hread : u.mmuRead = s.mmuRead) :
    (cartridgeAutoEnableRtc u).cart = (cartridgeAutoEnableRtc s).cart ∧
      (cartridgeAutoEnableRtc u).mmuRead = (cartridgeAutoEnableRtc s).mmuRead := by
  unfold cartridgeAutoEnableRtc
  rw [hcart]
  split_ifs
  · exact ⟨hcart, hread⟩
  · refine ⟨rfl, funext fun page => ?_⟩
    show (mmuUnmapRomHead _).mmuRead page = (mmuUnmapRomHead _).mmuRead page
    rw [mmuUnmapRomHead_apply, mmuUnmapRomHead_apply, hread]

/-- A write after the others. -/
theorem ReadFrame.write (h : ReadFrame s u opened) (hwrite : WriteFrame width addr u t) :
    ReadFrame s t (opened ∨ IsPortAddr addr) := by
  refine ⟨hwrite.openBus.trans h.1, ?_⟩
  rcases h.2 with ⟨hcart, hread, hport⟩ | ⟨hopened, hcart, hread⟩
  · rcases hwrite.rom with ⟨hcart', hread', hport'⟩ | ⟨haddr, hcart', hread'⟩
    · exact .inl ⟨hcart'.trans hcart, hread'.trans hread, hport'.trans hport⟩
    · obtain ⟨hsame, hsame'⟩ := autoEnableRtc_congr hcart hread
      exact .inr ⟨.inr haddr, hcart'.trans hsame, hread'.trans hsame'⟩
  · rcases hwrite.rom with ⟨hcart', hread', -⟩ | ⟨-, hcart', hread'⟩
    · exact .inr ⟨.inl hopened, hcart'.trans hcart, hread'.trans hread⟩
    · -- the clock is on already
      have hon : cartridgeAutoEnableRtc u = u := by
        unfold cartridgeAutoEnableRtc
        rw [if_pos (hcart ▸ autoEnableRtc_on s)]
      rw [hon] at hcart' hread'
      exact .inr ⟨.inl hopened, hcart'.trans hcart, hread'.trans hread⟩

/-- A read after the writes. -/
theorem ReadFrame.withDevices (h : ReadFrame s u opened) (devices : D) :
    ReadFrame s { u with devices := devices } opened := h

theorem ReadFrame.imp (h : ReadFrame s u opened) {opened' : Prop} (himp : opened → opened') :
    ReadFrame s u opened' :=
  ⟨h.1, h.2.imp_right fun ⟨hopened, hrest⟩ => ⟨himp hopened, hrest⟩⟩

/-- The places of reads depend on the cartridge, the read table, and the control of the port at
the port. -/
theorem readSite_congr (hcart : u.cart = s.cart) (hread : u.mmuRead = s.mmuRead)
    (hport : IsPortAddr addr → u.gpControl = s.gpControl) :
    readSite u width addr = readSite s width addr := by
  have hoffset : u.romOffset addr = s.romOffset addr := by rw [GuestMem.romOffset, hcart]; rfl
  have heeprom : u.cartridgeIsEeprom addr = s.cartridgeIsEeprom addr := by
    rw [GuestMem.cartridgeIsEeprom, hcart]
    rfl
  have hgpio : u.isGpioAddr addr = s.isGpioAddr addr := by rw [GuestMem.isGpioAddr, hcart]; rfl
  have hrom : romSite u width addr = romSite s width addr := by
    unfold romSite
    rw [hgpio, hoffset, hcart]
    by_cases haddr : IsPortAddr addr
    · rw [hport haddr]
    · have hplain : ¬ s.isGpioAddr addr = true := by
        intro h
        simp only [GuestMem.isGpioAddr, Bool.and_eq_true, decide_eq_true_eq] at h
        exact haddr h.2
      rw [if_neg hplain, if_neg hplain]
  unfold readSite slowSite
  rw [hread, heeprom, hrom]

/-- **A read** keeps its place over writes that leave it. -/
theorem ReadFrame.readSite_eq (h : ReadFrame s u opened)
    (hstays : opened → ¬ IsPortAddr addr ∧
      readSite (cartridgeAutoEnableRtc s) width addr = readSite s width addr) :
    readSite u width addr = readSite s width addr := by
  rcases h.2 with ⟨hcart, hread, hport⟩ | ⟨hopened, hcart, hread⟩
  · exact readSite_congr hcart hread fun _ => hport
  · obtain ⟨hplain, hsame⟩ := hstays hopened
    exact (readSite_congr hcart hread fun haddr => absurd haddr hplain).trans hsame

/-- The eeprom stays where it is. -/
theorem ReadFrame.eeprom_eq (h : ReadFrame s u opened) (addr : Nat) :
    u.cartridgeIsEeprom addr = s.cartridgeIsEeprom addr := by
  have hsame : u.cart.saveType = s.cart.saveType ∧ u.cart.romLen = s.cart.romLen := by
    rcases h.2 with ⟨hcart, -⟩ | ⟨-, hcart, -⟩
    · rw [hcart]
      exact ⟨rfl, rfl⟩
    · rw [hcart]
      unfold cartridgeAutoEnableRtc
      split_ifs <;> exact ⟨rfl, rfl⟩
  rw [GuestMem.cartridgeIsEeprom, GuestMem.cartridgeIsEeprom, hsame.1, hsame.2]

/-- A read asks a device after the writes if it did before. -/
theorem ReadFrame.readsDevices_iff (h : ReadFrame s u opened)
    (hstays : opened → ¬ IsPortAddr addr ∧
      readSite (cartridgeAutoEnableRtc s) width addr = readSite s width addr) :
    ReadsDevices u width addr ↔ ReadsDevices s width addr := by
  unfold ReadsDevices
  rw [h.readSite_eq hstays, h.eeprom_eq]

theorem ReadFrame.writesDevices_iff (h : ReadFrame s u opened) (addr : Nat) :
    WritesDevices u addr ↔ WritesDevices s addr := by
  unfold WritesDevices
  rw [h.eeprom_eq]

/-! ## Single accesses -/

/-- A single write keeps the frame of its address. -/
theorem memWrite_frame (htables : TablesGood s) (hwidth : width ≠ .byte) {value : width.Value}
    (hstep : memWrite dev width addr value s = some t) :
    WriteFrame width (alignedAddr width addr) s t := by
  by_cases hzero : s.jit.mmuWrite (alignedAddr width addr / 4096) = 0
  · rw [memWrite_of_unmapped dev hzero] at hstep
    exact write_frame hwidth hstep
  · obtain ⟨hram, -⟩ := getShmOffset_write htables hzero
    have hsite : writeSite (alignedAddr width addr) = some (ramOffset (alignedAddr width addr)) := by
      unfold IsRam at hram
      rw [writeSite, if_pos (by omega)]
    rw [memWrite_ram dev htables hram fun hunmapped => absurd hunmapped hzero] at hstep
    obtain rfl := Option.some.inj hstep
    exact .of_same rfl rfl rfl rfl fun a ha =>
      writeWord_of_not value (by have := ha _ hsite; omega)

/-- A single write that tells no device does not look at them. -/
theorem memWrite_withDevices (dev : MemDevices D) (hwidth : width ≠ .byte)
    (hplain : ¬ WritesDevices s (alignedAddr width addr)) (devices : D) (value : width.Value) :
    (memWrite dev width addr value { s with devices := devices } =
      (memWrite dev width addr value s).map fun t => { t with devices := devices }) ∧
    ∀ t, memWrite dev width addr value s = some t → t.devices = s.devices := by
  by_cases hzero : s.jit.mmuWrite (alignedAddr width addr / 4096) = 0
  · rw [memWrite_of_unmapped dev hzero,
      memWrite_of_unmapped dev (s := { s with devices := devices }) hzero]
    exact write_withDevices hwidth hplain devices
  · rw [memWrite_of_mapped dev hzero,
      memWrite_of_mapped dev (s := { s with devices := devices }) hzero]
    exact ⟨rfl, by rintro t ⟨⟩; rfl⟩

/-- What a read gives that takes no place and asks no device. -/
def plainRead (width : MemWidth) (addr : Nat) (biosOpenBus : BitVec 32) : width.Value :=
  if addr / 0x1000000 % 16 = 0 then
    if addr < 0x4000 then (biosOpenBus >>> ((addr &&& (4 - width.bytes)) <<< 3)).setWidth _ else 0
  else if addr / 0x1000000 % 16 = 1 then 0
  else (romOobPattern addr).setWidth _

/-- The rom behind its end. -/
theorem readRom_plain (hsite : romSite s width addr = none) (hport : ¬ IsPortAddr addr) :
    MemoryIo.readRom dev width addr s = (romOobPattern addr).setWidth _ := by
  have hgpio : ¬ s.isGpioAddr addr = true := by
    intro h
    simp only [GuestMem.isGpioAddr, Bool.and_eq_true, decide_eq_true_eq] at h
    exact hport h.2
  rw [romSite, if_neg hgpio] at hsite
  rw [MemoryIo.readRom, if_neg hgpio]
  split_ifs at hsite ⊢
  rfl

/-- A plain read. -/
theorem memRead_plain (hsite : readSite s width (alignedAddr width addr) = none)
    (hplain : ¬ ReadsDevices s width (alignedAddr width addr)) :
    memRead dev width addr s = (plainRead width (alignedAddr width addr) s.biosOpenBus, s) := by
  have hunmapped : s.mmuRead (alignedAddr width addr / 4096) = 0 := by
    by_contra hmapped
    rw [readSite, if_pos hmapped] at hsite
    cases hsite
  rw [memRead_of_unmapped dev hunmapped]
  have hslow : slowSite s width (alignedAddr width addr) = none := by
    rwa [readSite, if_neg (not_not.mpr hunmapped)] at hsite
  have hdevice := fun h => hplain ⟨hsite, h⟩
  generalize alignedAddr width addr = x at *
  unfold slowSite at hslow
  simp only at hslow
  rcases region_cases x with h | h | h | h | h | h | h | h | h | h | h
  · rw [read_bios dev width s h, plainRead, if_pos h]
    rfl
  · rw [read_openBus dev width s h, plainRead, if_neg (by omega), if_pos h]
  · simp [h] at hslow
  · simp [h] at hslow
  · exact absurd (.inl h) hdevice
  · simp [h] at hslow
  · simp [h] at hslow
  · simp [h] at hslow
  · rw [if_neg (by omega), if_neg (by omega), if_neg (by omega), if_neg (by omega),
      if_neg (by omega), if_pos h] at hslow
    rw [read_rom dev width s h, plainRead, if_neg (by omega), if_neg (by omega),
      readRom_plain hslow fun hport => hdevice (.inr (.inr (.inr hport)))]
  · rw [if_neg (by omega), if_neg (by omega), if_neg (by omega), if_neg (by omega),
      if_neg (by omega), if_neg (by omega), if_pos h] at hslow
    have heeprom : ¬ s.cartridgeIsEeprom x = true := fun heeprom => hdevice (.inr (.inl ⟨h, heeprom⟩))
    rw [if_neg heeprom] at hslow
    rw [read_romEeprom dev width s h, MemoryIo.readRomEeprom, if_neg heeprom, plainRead,
      if_neg (by omega), if_neg (by omega),
      readRom_plain hslow fun hport => hdevice (.inr (.inr (.inr hport)))]
  · exact absurd (.inr (.inr (.inl h))) hdevice

/-- The rom and its port, by what they read. -/
theorem readRom_congr (hcart : t.cart = s.cart) (hport : t.gpControl = s.gpControl)
    (hdevices : t.devices = s.devices)
    (hshm : ∀ a, romRegion.shmOffset ≤ a → t.jit.shm a = s.jit.shm a) :
    MemoryIo.readRom dev width addr t = MemoryIo.readRom dev width addr s := by
  have hoffset : t.romOffset addr = s.romOffset addr := by rw [GuestMem.romOffset, hcart]; rfl
  have hgpio : t.isGpioAddr addr = s.isGpioAddr addr := by rw [GuestMem.isGpioAddr, hcart]; rfl
  have hload : ∀ width : MemWidth, t.load width (romRegion.shmOffset + s.romOffset addr) =
      s.load width (romRegion.shmOffset + s.romOffset addr) :=
    fun width => readWord_congr fun i _ => hshm _ (by omega)
  have hread : cartridgeReadGpio dev addr t = cartridgeReadGpio dev addr s := by
    unfold cartridgeReadGpio
    rw [hport, hoffset, hcart, hdevices, hload]
  unfold MemoryIo.readRom
  rw [hgpio, hread, hoffset, hcart, hload]

/-- A read of a device, by what it reads. -/
theorem memRead_device (hdevice : ReadsDevices s width (alignedAddr width addr))
    (hcart : t.cart = s.cart) (hread : t.mmuRead = s.mmuRead) (hport : t.gpControl = s.gpControl)
    (hdevices : t.devices = s.devices)
    (hshm : ∀ a, romRegion.shmOffset ≤ a → t.jit.shm a = s.jit.shm a) :
    memRead dev width addr t =
      ((memRead dev width addr s).1, { t with devices := (memRead dev width addr s).2.devices }) := by
  obtain ⟨hsite, hkind⟩ := hdevice
  have hunmapped : s.mmuRead (alignedAddr width addr / 4096) = 0 := by
    by_contra hmapped
    rw [readSite, if_pos hmapped] at hsite
    cases hsite
  have hsame : { t with devices := s.devices } = t := by
    rw [← hdevices]
  rw [memRead_of_unmapped dev hunmapped, memRead_of_unmapped dev (s := t) (hread ▸ hunmapped)]
  generalize alignedAddr width addr = x at *
  have hrom : MemoryIo.readRom dev width x t = MemoryIo.readRom dev width x s :=
    readRom_congr hcart hport hdevices hshm
  have heeprom : t.cartridgeIsEeprom x = s.cartridgeIsEeprom x := by
    rw [GuestMem.cartridgeIsEeprom, hcart]
    rfl
  rcases hkind with h | ⟨h, hwindow⟩ | h | h
  · rw [read_ioPorts dev width t h, read_ioPorts dev width s h, MemoryIo.readIoPorts,
      MemoryIo.readIoPorts, hdevices]
  · rw [read_romEeprom dev width t h, read_romEeprom dev width s h, MemoryIo.readRomEeprom,
      MemoryIo.readRomEeprom, heeprom, if_pos hwindow, if_pos hwindow, hdevices]
  · rw [read_sram dev width t h, read_sram dev width s h, MemoryIo.readSram, MemoryIo.readSram,
      hdevices, hsame]
  · have hregion : 8 ≤ x / 0x1000000 % 16 ∧ x / 0x1000000 % 16 < 13 := by
      unfold IsPortAddr at h
      omega
    rw [read_rom dev width t hregion, read_rom dev width s hregion, hrom, hsame]

end ReadFrame

/-! ## Changing places -/

section Moves

variable {dev : MemDevices D} {width : MemWidth} {s u : GuestMem D} {source dest : Nat}
  {opened : Prop}

/-- Writes end below the rom. -/
theorem writeSite_end {addr changed : Nat} (hdvd : width.bytes ∣ addr)
    (h : writeSite addr = some changed) : changed + width.bytes ≤ romRegion.shmOffset := by
  have hword : addr % 4 + width.bytes ≤ 4 := by
    obtain ⟨i, rfl⟩ := hdvd
    cases width <;> simp only [MemWidth.bytes] <;> omega
  have hvram : vramOffset addr < 0x18000 ∧ vramOffset addr % 4 = addr % 4 := by
    unfold vramOffset
    simp only
    split_ifs <;> omega
  unfold writeSite at h
  simp only at h
  unfold romRegion
  simp only
  split_ifs at h
  · obtain rfl := Option.some.inj h
    unfold ramOffset
    simp only [ewramRegion, iwramRegion]
    split_ifs <;> omega
  · obtain rfl := Option.some.inj h
    simp only [palettesRegion, palettesSize]
    omega
  · obtain rfl := Option.some.inj h
    simp only [vramRegion]
    omega
  · obtain rfl := Option.some.inj h
    simp only [oamRegion, palettesSize]
    omega

/-- **A write moves over a read** apart from it. -/
theorem memWrite_movesOver (htables : TablesGood u) (hwidth : width ≠ .byte)
    (h : ReadFrame s u opened)
    (hstays : opened → ¬ IsPortAddr (alignedAddr width source) ∧
      readSite (cartridgeAutoEnableRtc s) width (alignedAddr width source) =
        readSite s width (alignedAddr width source))
    (hapart : Apart s width (alignedAddr width source) (alignedAddr width dest)) :
    MovesOver (memWrite dev width dest) (memRead dev width source) u := by
  obtain ⟨hstay, hsites, hdevices⟩ := hapart
  have hafter : ∀ value t, memWrite dev width dest value u = some t →
      ReadFrame s t (opened ∨ IsPortAddr (alignedAddr width dest)) :=
    fun value t ht => h.write (memWrite_frame htables hwidth ht)
  have hstays' : opened ∨ IsPortAddr (alignedAddr width dest) →
      ¬ IsPortAddr (alignedAddr width source) ∧
      readSite (cartridgeAutoEnableRtc s) width (alignedAddr width source) =
        readSite s width (alignedAddr width source) := fun hor => hor.elim hstays hstay
  intro value
  by_cases hreads : ReadsDevices s width (alignedAddr width source)
  · -- the write tells no device
    have hplain : ¬ WritesDevices u (alignedAddr width dest) :=
      (h.writesDevices_iff _).not.mpr fun hwrites => hdevices ⟨hreads, hwrites⟩
    obtain ⟨devices, hstate⟩ := memRead_state dev width source u
    obtain ⟨hcommutes, hkept⟩ :=
      memWrite_withDevices dev (s := u) hwidth hplain devices value
    rw [hstate, hcommutes, Option.map_map]
    refine Option.map_congr fun t ht => ?_
    have hframe := memWrite_frame htables hwidth ht
    obtain ⟨hcart, hread, hport⟩ := hframe.rom.resolve_right fun hopen =>
      hplain (.inr (.inr (.inr hopen.1)))
    have hbelow : ∀ a, romRegion.shmOffset ≤ a → t.jit.shm a = u.jit.shm a :=
      fun a ha => hframe.shm a fun changed hchanged =>
        .inr ((writeSite_end (dvd_alignedAddr width dest) hchanged).trans ha)
    rw [memRead_device (s := u) ((h.readsDevices_iff hstays).mpr hreads) hcart hread hport
      (hkept t ht) hbelow, hstate]
    rfl
  · cases hsite : readSite s width (alignedAddr width source) with
    | none =>
        rw [memRead_plain ((h.readSite_eq hstays).trans hsite)
          ((h.readsDevices_iff hstays).not.mpr hreads)]
        refine Option.map_congr fun t ht => ?_
        have hframe := hafter value t ht
        rw [memRead_plain ((hframe.readSite_eq hstays').trans hsite)
          ((hframe.readsDevices_iff hstays').not.mpr hreads),
          (memWrite_frame htables hwidth ht).openBus]
    | some taken =>
        rw [memRead_of_site dev ((h.readSite_eq hstays).trans hsite)]
        refine Option.map_congr fun t ht => ?_
        have hframe := memWrite_frame htables hwidth ht
        have hload : t.load width taken = u.load width taken := by
          refine readWord_congr fun i hi => hframe.shm _ fun changed hchanged => ?_
          have hdisjoint := hsites taken changed hsite hchanged
          omega
        rw [memRead_of_site dev (((hafter value t ht).readSite_eq hstays').trans hsite), hload]

end Moves

end AdvancedSlop
