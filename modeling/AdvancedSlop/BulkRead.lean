/-
# Bulk reads against single reads

`mem_read_multiple_slice` looks at the page of its first element only, and copies the rest; without
`SHM_MEMORY` it goes to the handlers element by element, where a single read would use the tables.

* `slowSite`, `readSite` : the place in the shared memory that a read takes, if it takes one;
* `ReadGood` : when the bulk read is the single ones;
* `bulk_read_law` : it is, for all contents, exactly then;
* `borderRead_differs` : two words over the end of an image of ewram.
-/
import AdvancedSlop.MemoryRuns

namespace AdvancedSlop

open IndexedLoop WordMemory

variable {D : Type*}

/-! ## The places of reads -/

/-- The place of a rom address: none behind the end, and of the general purpose port only while it
is write-only and not a whole word. -/
def romSite (s : GuestMem D) (width : MemWidth) (addr : Nat) : Option Nat :=
  if s.isGpioAddr addr then
    if s.gpControl.getLsbD 0 = false ∧ s.romOffset addr + 1 < s.cart.romLen ∧ width ≠ .word then
      some (romRegion.shmOffset + s.romOffset addr)
    else none
  else if s.romOffset addr < s.cart.romLen then some (romRegion.shmOffset + s.romOffset addr)
  else none

/-- The place in the shared memory that the handler of an address reads. -/
def slowSite (s : GuestMem D) (width : MemWidth) (addr : Nat) : Option Nat :=
  let nibble := addr / 0x1000000 % 16
  if nibble = 2 then some (ewramRegion.shmOffset + addr % ewramRegion.size)
  else if nibble = 3 then some (iwramRegion.shmOffset + addr % iwramRegion.size)
  else if nibble = 5 then some (palettesRegion.shmOffset + addr % palettesSize)
  else if nibble = 6 then some (vramRegion.shmOffset + vramOffset addr)
  else if nibble = 7 then some (oamRegion.shmOffset + addr % palettesSize)
  else if 8 ≤ nibble ∧ nibble < 13 then romSite s width addr
  else if nibble = 13 then if s.cartridgeIsEeprom addr then none else romSite s width addr
  else none

/-- The place that a single read takes. -/
def readSite (s : GuestMem D) (width : MemWidth) (addr : Nat) : Option Nat :=
  if s.mmuRead (addr / 4096) ≠ 0 then some (getShmOffset s.mmuRead addr)
  else slowSite s width addr

/-! ## The conditions -/

/-- An element that goes to its handler: on a mapped page the handler takes the place of the table;
behind the bus there is nothing but a zero byte of the bios. -/
def SlowElementGood (s : GuestMem D) (width : MemWidth) (addr : Nat) : Prop :=
  if addr < 0x10000000 then
    s.mmuRead (addr / 4096) ≠ 0 → slowSite s width addr = some (getShmOffset s.mmuRead addr)
  else
    width = .byte ∧ addr = 0x10000000 ∧ s.mmuRead 0 = 0 ∧ s.biosOpenBus.setWidth 8 = 0

/-- When a bulk read is the single ones: the copy finds every element where its own read does. -/
def ReadGood (shmMemory : Bool) (s : GuestMem D) (width : MemWidth) (addr n : Nat) : Prop :=
  let addr := alignedAddr width addr
  let shmOffset := getShmOffset s.mmuRead addr
  if shmMemory ∧ shmOffset ≠ 0 then
    shmOffset + n * width.bytes ≤ totalMemSize ∧
      ∀ i < n, readSite s width ((addr + i * width.bytes) % 0x10000000) =
        some (shmOffset + i * width.bytes)
  else ∀ i < n, SlowElementGood s width (addr + i * width.bytes)

/-- A bulk read gives the values of the single reads and leaves what they leave, for all
contents. -/
def ReadAgrees (dev : MemDevices D) (shmMemory : Bool) (s : GuestMem D) (width : MemWidth)
    (addr n : Nat) : Prop :=
  ∀ shm, memReadMultipleSlice dev shmMemory width addr n (s.withShm shm) =
    some (memReads dev width addr n (s.withShm shm))

/-! ## Reads from a place -/

section Sites

variable (dev : MemDevices D) {s : GuestMem D} {width : MemWidth} {addr site : Nat}

/-- The low bytes of a half word. -/
theorem load_half_setWidth (hwidth : width ≠ .word) (offset : Nat) :
    (s.load .half offset).setWidth (8 * width.bytes) = s.load width offset := by
  rw [load_eq, load_eq]
  symm
  rw [readWord_eq_iff]
  intro i hi
  have hhalf : i < MemWidth.half.bytes := by
    cases width with
    | byte => exact hi.trans (by decide)
    | half => exact hi
    | word => exact absurd rfl hwidth
  rw [← byteOf_readWord s.jit.shm offset hhalf]
  cases width with
  | byte =>
      obtain rfl : i = 0 := Nat.lt_one_iff.mp hi
      unfold byteOf
      rw [BitVec.toNat_setWidth]
      apply UInt8.toNat_inj.mp
      rw [UInt8.toNat_ofNat', UInt8.toNat_ofNat']
      simp [MemWidth.bytes]
  | half =>
      rw [BitVec.setWidth_eq]
  | word => exact absurd rfl hwidth

/-- The rom is read at its place. -/
theorem readRom_of_site (h : romSite s width addr = some site) :
    MemoryIo.readRom dev width addr s = s.load width site := by
  unfold romSite at h
  unfold MemoryIo.readRom
  split_ifs at h ⊢ with hgpio hport hinside
  · obtain ⟨hlocked, hlen, hwidth⟩ := hport
    obtain rfl := Option.some.inj h
    have hport : cartridgeReadGpio dev addr s =
        s.load .half (romRegion.shmOffset + s.romOffset addr) :=
      (if_pos hlocked).trans (if_pos hlen)
    rw [hport]
    exact load_half_setWidth hwidth _
  · obtain rfl := Option.some.inj h
    rfl

/-- **A handler** reads the shared memory at its place. -/
theorem read_of_site (h : slowSite s width addr = some site) :
    MemoryIo.read dev width addr s = (s.load width site, s) := by
  unfold slowSite at h
  simp only at h
  rcases region_cases addr with hr | hr | hr | hr | hr | hr | hr | hr | hr | hr | hr
  · simp [hr] at h
  · simp [hr] at h
  · rw [if_pos hr] at h
    obtain rfl := Option.some.inj h
    exact read_ewram dev width s hr
  · rw [if_neg (by omega), if_pos hr] at h
    obtain rfl := Option.some.inj h
    exact read_iwram dev width s hr
  · simp [hr] at h
  · rw [if_neg (by omega), if_neg (by omega), if_pos hr] at h
    obtain rfl := Option.some.inj h
    exact read_palettes dev width s hr
  · rw [if_neg (by omega), if_neg (by omega), if_neg (by omega), if_pos hr] at h
    obtain rfl := Option.some.inj h
    exact read_vram dev width s hr
  · rw [if_neg (by omega), if_neg (by omega), if_neg (by omega), if_neg (by omega), if_pos hr] at h
    obtain rfl := Option.some.inj h
    exact read_oam dev width s hr
  · rw [if_neg (by omega), if_neg (by omega), if_neg (by omega), if_neg (by omega),
      if_neg (by omega), if_pos hr] at h
    rw [read_rom dev width s hr, readRom_of_site dev h]
  · rw [if_neg (by omega), if_neg (by omega), if_neg (by omega), if_neg (by omega),
      if_neg (by omega), if_neg (by omega), if_pos hr] at h
    split_ifs at h with heeprom
    rw [read_romEeprom dev width s hr, MemoryIo.readRomEeprom, if_neg heeprom,
      readRom_of_site dev h]
  · rw [if_neg (by omega), if_neg (by omega), if_neg (by omega), if_neg (by omega),
      if_neg (by omega), if_neg (by omega), if_neg (by omega)] at h
    cases h

/-- **A single read** reads the shared memory at its place. -/
theorem memRead_of_site (h : readSite s width (alignedAddr width addr) = some site) :
    memRead dev width addr s = (s.load width site, s) := by
  unfold readSite at h
  split_ifs at h with hmapped
  · obtain rfl := Option.some.inj h
    exact memRead_of_mapped dev hmapped
  · rw [memRead_of_unmapped dev (not_not.mp hmapped), read_of_site dev h]

end Sites

/-! ## Reads without a place -/

section Sourceless

variable (dev : MemDevices D) {s : GuestMem D} {width : MemWidth} {addr : Nat}

/-- Reads change the devices as they would with other contents. -/
theorem read_withShm_state (dev : MemDevices D) (width : MemWidth) (addr : Nat) (s : GuestMem D)
    (shm : Nat → UInt8) :
    (MemoryIo.read dev width addr (s.withShm shm)).2 =
      (MemoryIo.read dev width addr s).2.withShm shm := by
  rcases region_cases addr with h | h | h | h | h | h | h | h | h | h | h
  · rw [read_bios dev width _ h, read_bios dev width _ h]
  · rw [read_openBus dev width _ h, read_openBus dev width _ h]
  · rw [read_ewram dev width _ h, read_ewram dev width _ h]
  · rw [read_iwram dev width _ h, read_iwram dev width _ h]
  · rw [read_ioPorts dev width _ h, read_ioPorts dev width _ h]
    rfl
  · rw [read_palettes dev width _ h, read_palettes dev width _ h]
  · rw [read_vram dev width _ h, read_vram dev width _ h]
  · rw [read_oam dev width _ h, read_oam dev width _ h]
  · rw [read_rom dev width _ h, read_rom dev width _ h]
  · rw [read_romEeprom dev width _ h, read_romEeprom dev width _ h, MemoryIo.readRomEeprom,
      MemoryIo.readRomEeprom]
    have hsame : (s.withShm shm).cartridgeIsEeprom addr = s.cartridgeIsEeprom addr := rfl
    rw [hsame]
    split_ifs <;> rfl
  · rw [read_sram dev width _ h, read_sram dev width _ h]

/-- What a read without a place gives: a value that does not depend on the contents, or a word
whose upper half is zero. -/
def Sourceless (read : GuestMem D → width.Value × GuestMem D) (s : GuestMem D) : Prop :=
  (∀ shm, (read (s.withShm shm)).1 = (read s).1) ∨
    (read (s.withShm fun _ => 0xFF)).1 ≠ BitVec.allOnes _

/-- The rom, without a place. -/
theorem readRom_sourceless (h : romSite s width addr = none) :
    Sourceless (fun u => (MemoryIo.readRom dev width addr u, u)) s := by
  unfold romSite at h
  split_ifs at h with hgpio hport hinside
  · by_cases hread : s.gpControl.getLsbD 0 = false ∧ s.romOffset addr + 1 < s.cart.romLen
    · -- a whole word of the port
      right
      have hword : width = .word := by
        by_contra hne
        exact hport ⟨hread.1, hread.2, hne⟩
      subst hword
      have hvalue : MemoryIo.readRom dev .word addr (s.withShm fun _ => 0xFF) =
          BitVec.setWidth 32 (cartridgeReadGpio dev addr (s.withShm fun _ => 0xFF)) :=
        if_pos hgpio
      intro hones
      have hlow := (cartridgeReadGpio dev addr (s.withShm fun _ => 0xFF)).isLt
      have hequal : BitVec.setWidth 32 (cartridgeReadGpio dev addr (s.withShm fun _ => 0xFF)) =
          BitVec.allOnes 32 := hvalue.symm.trans hones
      have hnat := congrArg BitVec.toNat hequal
      rw [BitVec.toNat_setWidth, BitVec.toNat_allOnes] at hnat
      omega
    · left
      intro shm
      have hvalue : cartridgeReadGpio dev addr (s.withShm shm) = cartridgeReadGpio dev addr s := by
        by_cases hlocked : s.gpControl.getLsbD 0 = false
        · -- behind the end of the rom
          have hlen : ¬ s.romOffset addr + 1 < s.cart.romLen := fun hlen => hread ⟨hlocked, hlen⟩
          have hzero : cartridgeReadGpio dev addr s = 0 := (if_pos hlocked).trans (if_neg hlen)
          rw [hzero]
          exact (if_pos hlocked).trans (if_neg hlen)
        · exact (if_neg hlocked).trans (if_neg hlocked).symm
      show MemoryIo.readRom dev width addr (s.withShm shm) = MemoryIo.readRom dev width addr s
      rw [MemoryIo.readRom, MemoryIo.readRom, if_pos hgpio,
        if_pos (show (s.withShm shm).isGpioAddr addr = true from hgpio), hvalue]
  · left
    intro shm
    show MemoryIo.readRom dev width addr (s.withShm shm) = MemoryIo.readRom dev width addr s
    rw [MemoryIo.readRom, MemoryIo.readRom, if_neg hgpio, if_neg hinside,
      if_neg (show ¬ (s.withShm shm).isGpioAddr addr = true from hgpio),
      if_neg (show ¬ (s.withShm shm).romOffset addr < (s.withShm shm).cart.romLen from hinside)]

/-- **A handler** without a place does not read the shared memory, but for the port. -/
theorem read_sourceless (h : slowSite s width addr = none) :
    Sourceless (MemoryIo.read dev width addr) s := by
  unfold slowSite at h
  simp only at h
  rcases region_cases addr with hr | hr | hr | hr | hr | hr | hr | hr | hr | hr | hr
  · left
    intro shm
    rw [read_bios dev width _ hr, read_bios dev width _ hr]
    rfl
  · left
    intro shm
    rw [read_openBus dev width _ hr, read_openBus dev width _ hr]
  · simp [hr] at h
  · simp [hr] at h
  · left
    intro shm
    rw [read_ioPorts dev width _ hr, read_ioPorts dev width _ hr]
    rfl
  · simp [hr] at h
  · simp [hr] at h
  · simp [hr] at h
  · rw [if_neg (by omega), if_neg (by omega), if_neg (by omega), if_neg (by omega),
      if_neg (by omega), if_pos hr] at h
    have hread : MemoryIo.read dev width addr =
        fun u => (MemoryIo.readRom dev width addr u, u) :=
      funext fun u => read_rom dev width u hr
    rw [hread]
    exact readRom_sourceless dev h
  · rw [if_neg (by omega), if_neg (by omega), if_neg (by omega), if_neg (by omega),
      if_neg (by omega), if_neg (by omega), if_pos hr] at h
    have hsame : ∀ shm, (s.withShm shm).cartridgeIsEeprom addr = s.cartridgeIsEeprom addr :=
      fun _ => rfl
    have hread : ∀ shm, MemoryIo.read dev width addr (s.withShm shm) =
        MemoryIo.readRomEeprom dev width addr (s.withShm shm) :=
      fun shm => read_romEeprom dev width _ hr
    split_ifs at h with heeprom
    · left
      intro shm
      have hplain := hread s.jit.shm
      rw [withShm_self] at hplain
      rw [hread, hplain, MemoryIo.readRomEeprom, MemoryIo.readRomEeprom, hsame, if_pos heeprom,
        if_pos heeprom]
      rfl
    · have hrom : ∀ shm, (MemoryIo.read dev width addr (s.withShm shm)).1 =
          MemoryIo.readRom dev width addr (s.withShm shm) := by
        intro shm
        rw [hread, MemoryIo.readRomEeprom, hsame, if_neg heeprom]
      have hplain := hrom s.jit.shm
      rw [withShm_self] at hplain
      rcases readRom_sourceless dev h with hconst | hport
      · exact .inl fun shm => (hrom shm).trans ((hconst shm).trans hplain.symm)
      · exact .inr (by rw [hrom]; exact hport)
  · left
    intro shm
    rw [read_sram dev width _ hr, read_sram dev width _ hr]
    rfl

end Sourceless

/-! ## The law -/

section Law

variable {dev : MemDevices D} {s : GuestMem D} {width : MemWidth} {addr n : Nat}

/-- A read that always gives the word at one place has that place. -/
theorem site_of_reads (read : GuestMem D → width.Value × GuestMem D) {site : Option Nat}
    {target : Nat}
    (hsite : ∀ offset, site = some offset → ∀ shm,
      (read (s.withShm shm)).1 = readWord width.bytes shm offset)
    (hnone : site = none → Sourceless read s)
    (h : ∀ shm, (read (s.withShm shm)).1 = readWord width.bytes shm target) :
    site = some target := by
  cases site with
  | none =>
      have hones := (h fun _ => 0xFF).trans (readWord_ones width target)
      rcases hnone rfl with hconst | hport
      · have hzero := (h fun _ => 0).trans (readFromMem_zero width target)
        rw [hconst] at hones hzero
        exact absurd (hzero.symm.trans hones) (allOnes_ne_zero width)
      · exact absurd hones hport
  | some offset =>
      by_contra hne
      -- contents with one byte set
      have hequal := (hsite offset rfl fun a => if a = target then 1 else 0).symm.trans (h _)
      have hbyte := eq_of_readWord hequal width.bytes_pos
      simp only [Nat.add_zero, if_true] at hbyte
      rw [if_neg fun heq => hne (congrArg some heq)] at hbyte
      exact absurd hbyte (by decide)

/-- Single reads change the devices only, as they would with other contents. -/
theorem memRead_state (dev : MemDevices D) (width : MemWidth) (addr : Nat) (s : GuestMem D) :
    ∃ devices, (memRead dev width addr s).2 = { s with devices := devices } := by
  by_cases hmapped : s.mmuRead (alignedAddr width addr / 4096) = 0
  · rw [memRead_of_unmapped dev hmapped]
    exact read_state dev width _ s
  · rw [memRead_of_mapped dev hmapped]
    exact ⟨s.devices, rfl⟩

theorem memRead_withShm_state (dev : MemDevices D) (width : MemWidth) (addr : Nat) (s : GuestMem D)
    (shm : Nat → UInt8) :
    (memRead dev width addr (s.withShm shm)).2 = (memRead dev width addr s).2.withShm shm := by
  by_cases hmapped : s.mmuRead (alignedAddr width addr / 4096) = 0
  · rw [memRead_of_unmapped dev hmapped, memRead_of_unmapped dev (s := s.withShm shm) hmapped,
      read_withShm_state]
  · rw [memRead_of_mapped dev hmapped, memRead_of_mapped dev (s := s.withShm shm) hmapped]

/-- **The states** of a loop of reads: some devices, whatever the contents. -/
theorem readEach_state (read : Nat → GuestMem D → width.Value × GuestMem D)
    (hstate : ∀ i s, ∃ devices, (read i s).2 = { s with devices := devices })
    (hshm : ∀ i s shm, (read i (s.withShm shm)).2 = (read i s).2.withShm shm) (s : GuestMem D)
    (n : Nat) : ∃ devices : D, ∀ shm,
      (readEach read 0 n (s.withShm shm)).2 =
        GuestMem.withShm { s with devices := devices } shm := by
  obtain ⟨devices, hdevices⟩ := readEach_invariant (i := 0) (n := n)
    (I := fun u => ∃ devices, u = { s with devices := devices })
    (fun i u ⟨d, hu⟩ => by
      obtain ⟨d', hd'⟩ := hstate i u
      exact ⟨d', by rw [hd', hu]⟩) ⟨s.devices, rfl⟩
  refine ⟨devices, fun shm => ?_⟩
  rw [readEach_map (f := fun u => u.withShm shm) (fun i u => hshm i u shm), hdevices]

/-- The branches of the bulk read. -/
theorem readSlice_fast {shmMemory : Bool}
    (hfast : shmMemory ∧ getShmOffset s.mmuRead (alignedAddr width addr) ≠ 0)
    (hend : getShmOffset s.mmuRead (alignedAddr width addr) + n * width.bytes ≤ totalMemSize) :
    memReadMultipleSlice dev shmMemory width addr n s =
      some (readWords width.bytes s.jit.shm (getShmOffset s.mmuRead (alignedAddr width addr)) n,
        s) :=
  (if_pos hfast).trans (if_pos hend)

theorem readSlice_fails {shmMemory : Bool}
    (hfast : shmMemory ∧ getShmOffset s.mmuRead (alignedAddr width addr) ≠ 0)
    (hend : ¬ getShmOffset s.mmuRead (alignedAddr width addr) + n * width.bytes ≤ totalMemSize) :
    memReadMultipleSlice dev shmMemory width addr n s = none :=
  (if_pos hfast).trans (if_neg hend)

theorem readSlice_slow {shmMemory : Bool}
    (hslow : ¬ (shmMemory ∧ getShmOffset s.mmuRead (alignedAddr width addr) ≠ 0)) :
    memReadMultipleSlice dev shmMemory width addr n s =
      some (MemoryMultipleSliceIo.read dev width (alignedAddr width addr) n s) :=
  if_neg hslow

/-- Good reads agree. -/
theorem readAgrees_of_good (dev : MemDevices D) {shmMemory : Bool}
    (hgood : ReadGood shmMemory s width addr n) : ReadAgrees dev shmMemory s width addr n := by
  intro shm
  unfold ReadGood at hgood
  simp only at hgood
  split_ifs at hgood with hfast
  · -- the copy
    have hreads : ∀ j, 0 ≤ j → j < 0 + n →
        memRead dev width (addr + j * width.bytes) (s.withShm shm) =
          ((fun j => readWord width.bytes shm
            (getShmOffset s.mmuRead (alignedAddr width addr) + j * width.bytes)) j,
            s.withShm shm) := by
      intro j _ hj
      rw [Nat.zero_add] at hj
      have hsite := hgood.2 j hj
      rw [← alignedAddr_add] at hsite
      exact memRead_of_site dev (s := s.withShm shm) hsite
    rw [readSlice_fast (s := s.withShm shm) hfast hgood.1, memReads, readEach_of_pure hreads]
    simp only [Nat.zero_add]
    rfl
  · -- the handlers
    rw [readSlice_slow (s := s.withShm shm) hfast]
    congr 1
    refine readEach_congr (I := fun u => ∃ devices, u =
      GuestMem.withShm { s with devices := devices } shm) ?_ ?_ ⟨s.devices, rfl⟩
    · rintro j u ⟨devices, rfl⟩
      obtain ⟨devices', h⟩ := read_state dev width
        (elementAddr width (alignedAddr width addr) j)
        (GuestMem.withShm { s with devices := devices } shm)
      exact ⟨devices', h⟩
    · rintro j - hj u ⟨devices, rfl⟩
      rw [Nat.zero_add] at hj
      have helement := hgood j hj
      have haligned := alignedAddr_add width addr j
      unfold SlowElementGood at helement
      split_ifs at helement with hlow
      · rw [Nat.mod_eq_of_lt hlow] at haligned
        have hsame : elementAddr width (alignedAddr width addr) j =
            alignedAddr width addr + j * width.bytes := Nat.mod_eq_of_lt (by omega)
        rw [hsame]
        by_cases hmapped : s.mmuRead ((alignedAddr width addr + j * width.bytes) / 4096) = 0
        · rw [memRead_of_unmapped dev
            (s := GuestMem.withShm { s with devices := devices } shm) (haligned ▸ hmapped), haligned]
        · rw [memRead_of_mapped dev
            (s := GuestMem.withShm { s with devices := devices } shm) (haligned ▸ hmapped), haligned]
          exact read_of_site dev (helement hmapped)
      · -- the first byte behind the bus
        obtain ⟨rfl, haddr, hunmapped, hzero⟩ := helement
        have hsame : elementAddr .byte (alignedAddr .byte addr) j = 0x10000000 := by
          rw [elementAddr, haddr]
        rw [haddr] at haligned
        rw [hsame, memRead_of_unmapped dev
          (s := GuestMem.withShm { s with devices := devices } shm) (haligned ▸ hunmapped), haligned,
          read_bios dev .byte _ (by decide), read_bios dev .byte _ (by decide)]
        have hlane : MemoryIo.readBios .byte (0x10000000 % 0x10000000)
            (GuestMem.withShm { s with devices := devices } shm) = 0 := hzero
        rw [hlane]
        rfl

/-- Where the copy agrees, every element is where its own read finds it. -/
theorem site_of_fast {shmMemory : Bool}
    (hfast : shmMemory ∧ getShmOffset s.mmuRead (alignedAddr width addr) ≠ 0)
    (hend : getShmOffset s.mmuRead (alignedAddr width addr) + n * width.bytes ≤ totalMemSize)
    (hagree : ReadAgrees dev shmMemory s width addr n) {i : Nat} (hi : i < n) :
    readSite s width ((alignedAddr width addr + i * width.bytes) % 0x10000000) =
      some (getShmOffset s.mmuRead (alignedAddr width addr) + i * width.bytes) := by
  obtain ⟨devices, hstate⟩ := readEach_state
    (fun i => memRead dev width (addr + i * width.bytes))
    (fun i u => memRead_state dev width _ u) (fun i u shm => memRead_withShm_state dev width _ u shm)
    s i
  set u : GuestMem D := { s with devices := devices } with hu
  have haligned := alignedAddr_add width addr i
  rw [← haligned]
  refine site_of_reads (s := u) (memRead dev width (addr + i * width.bytes)) ?_ ?_ ?_
  · intro offset hsite shm
    rw [memRead_of_site dev (s := u.withShm shm) hsite]
    rfl
  · intro hsite
    have hunmapped : s.mmuRead (alignedAddr width (addr + i * width.bytes) / 4096) = 0 := by
      by_contra hmapped
      rw [readSite, if_pos hmapped] at hsite
      cases hsite
    rw [readSite, if_neg (not_not.mpr hunmapped)] at hsite
    have hread : ∀ shm, memRead dev width (addr + i * width.bytes) (u.withShm shm) =
        MemoryIo.read dev width (alignedAddr width (addr + i * width.bytes)) (u.withShm shm) :=
      fun shm => memRead_of_unmapped dev (s := u.withShm shm) hunmapped
    have hplain := hread u.jit.shm
    rw [withShm_self] at hplain
    unfold Sourceless
    rw [hplain]
    simp only [hread]
    exact read_sourceless dev (s := u) hsite
  · intro shm
    have hequal := hagree shm
    rw [readSlice_fast (s := s.withShm shm) hfast hend] at hequal
    have hlist := congrArg (fun r => r.1[i]?) (Option.some.inj hequal)
    simp only at hlist
    rw [memReads, readEach_getElem? 0 n _ hi, hstate, readWords, List.getElem?_map,
      List.getElem?_range hi, Nat.zero_add] at hlist
    exact (Option.some.inj hlist).symm

/-- Where the handlers agree, they find an element of a mapped page where the table does. -/
theorem site_of_slow {shmMemory : Bool}
    (hslow : ¬ (shmMemory ∧ getShmOffset s.mmuRead (alignedAddr width addr) ≠ 0))
    (hagree : ReadAgrees dev shmMemory s width addr n) {i : Nat} (hi : i < n)
    (hlow : alignedAddr width addr + i * width.bytes < 0x10000000)
    (hmapped : s.mmuRead ((alignedAddr width addr + i * width.bytes) / 4096) ≠ 0) :
    slowSite s width (alignedAddr width addr + i * width.bytes) =
      some (getShmOffset s.mmuRead (alignedAddr width addr + i * width.bytes)) := by
  obtain ⟨devices, hstate⟩ := readEach_state
    (fun i => MemoryIo.read dev width (elementAddr width (alignedAddr width addr) i))
    (fun i u => read_state dev width _ u) (fun i u shm => read_withShm_state dev width _ u shm)
    s i
  obtain ⟨devices', hstate'⟩ := readEach_state
    (fun i => memRead dev width (addr + i * width.bytes))
    (fun i u => memRead_state dev width _ u) (fun i u shm => memRead_withShm_state dev width _ u shm)
    s i
  set u : GuestMem D := { s with devices := devices } with hu
  have hsame : elementAddr width (alignedAddr width addr) i =
      alignedAddr width addr + i * width.bytes := Nat.mod_eq_of_lt (by omega)
  have haligned := alignedAddr_add width addr i
  rw [Nat.mod_eq_of_lt hlow] at haligned
  refine site_of_reads (s := u)
    (MemoryIo.read dev width (alignedAddr width addr + i * width.bytes)) ?_ ?_ ?_
  · intro offset hsite shm
    rw [read_of_site dev (s := u.withShm shm) hsite]
    rfl
  · exact fun hsite => read_sourceless dev (s := u) hsite
  · intro shm
    have hequal := hagree shm
    rw [readSlice_slow (s := s.withShm shm) hslow] at hequal
    have hlist := congrArg (fun r => r.1[i]?) (Option.some.inj hequal)
    rw [MemoryMultipleSliceIo.read, memReads, readEach_getElem? 0 n _ hi,
      readEach_getElem? 0 n _ hi, hstate, hstate', Nat.zero_add, hsame] at hlist
    rw [memRead_of_mapped dev (s := GuestMem.withShm { s with devices := devices' } shm)
      (haligned ▸ hmapped), haligned] at hlist
    exact Option.some.inj hlist

/-- The lanes of the bios are not zero. -/
theorem biosLane_ne_zero (hbus : IsBiosFetch s.biosOpenBus) (hwidth : width ≠ .byte) :
    MemoryIo.readBios width 0 s ≠ 0 := by
  unfold MemoryIo.readBios
  rw [if_pos (by decide)]
  rcases hbus with hbus | hbus | hbus | hbus <;> rw [hbus] <;> cases width <;>
    first | exact absurd rfl hwidth | decide

theorem biosByte_ne_zero (hbus : IsBiosFetch s.biosOpenBus) :
    MemoryIo.readBios .byte 1 s ≠ 0 := by
  unfold MemoryIo.readBios
  rw [if_pos (by decide)]
  rcases hbus with hbus | hbus | hbus | hbus <;> rw [hbus] <;> decide

/-- Where the handlers agree behind the bus, the single read finds a zero lane of the bios. -/
theorem lane_of_slow {shmMemory : Bool}
    (hslow : ¬ (shmMemory ∧ getShmOffset s.mmuRead (alignedAddr width addr) ≠ 0))
    (hagree : ReadAgrees dev shmMemory s width addr n) {i : Nat} (offset : Nat) (hi : i < n)
    (hoffset : offset < 4)
    (haddr : alignedAddr width addr + i * width.bytes = 0x10000000 + offset) :
    s.mmuRead 0 = 0 ∧ MemoryIo.readBios width offset s = 0 := by
  obtain ⟨devices, hstate⟩ := readEach_state
    (fun i => MemoryIo.read dev width (elementAddr width (alignedAddr width addr) i))
    (fun i u => read_state dev width _ u) (fun i u shm => read_withShm_state dev width _ u shm)
    s i
  obtain ⟨devices', hstate'⟩ := readEach_state
    (fun i => memRead dev width (addr + i * width.bytes))
    (fun i u => memRead_state dev width _ u) (fun i u shm => memRead_withShm_state dev width _ u shm)
    s i
  have hsame : elementAddr width (alignedAddr width addr) i = 0x10000000 + offset := by
    rw [elementAddr, haddr]
    omega
  have haligned : alignedAddr width (addr + i * width.bytes) = offset := by
    rw [alignedAddr_add, haddr]
    omega
  have hzero : ∀ shm, (memRead dev width (addr + i * width.bytes)
      (GuestMem.withShm { s with devices := devices' } shm)).1 = 0 := by
    intro shm
    have hequal := hagree shm
    rw [readSlice_slow (s := s.withShm shm) hslow] at hequal
    have hlist := congrArg (fun r => r.1[i]?) (Option.some.inj hequal)
    rw [MemoryMultipleSliceIo.read, memReads, readEach_getElem? 0 n _ hi,
      readEach_getElem? 0 n _ hi, hstate, hstate', Nat.zero_add, hsame,
      read_bios dev width _ (by omega), MemoryIo.readBios, if_neg (by omega)] at hlist
    exact (Option.some.inj hlist).symm
  have hpage : offset / 4096 = 0 := by omega
  have hunmapped : s.mmuRead 0 = 0 := by
    by_contra hmapped
    have hones := hzero fun _ => 0xFF
    rw [memRead_of_mapped dev (s := GuestMem.withShm { s with devices := devices' } fun _ => 0xFF)
      (by rw [haligned, hpage]; exact hmapped)] at hones
    exact allOnes_ne_zero width (hones.symm.trans
      (readWord_ones width (getShmOffset s.mmuRead (alignedAddr width (addr + i * width.bytes)))))
  refine ⟨hunmapped, ?_⟩
  have hlane := hzero s.jit.shm
  rw [memRead_of_unmapped dev (s := GuestMem.withShm { s with devices := devices' } s.jit.shm)
    (by rw [haligned, hpage]; exact hunmapped), haligned, read_bios dev width _ (by omega)] at hlane
  exact hlane

/-- Reads that agree are good. -/
theorem readGood_of_agrees {shmMemory : Bool} (hbus : IsBiosFetch s.biosOpenBus)
    (hagree : ReadAgrees dev shmMemory s width addr n) : ReadGood shmMemory s width addr n := by
  unfold ReadGood
  simp only
  split_ifs with hfast
  · by_cases hend : getShmOffset s.mmuRead (alignedAddr width addr) + n * width.bytes ≤ totalMemSize
    · exact ⟨hend, fun i hi => site_of_fast hfast hend hagree hi⟩
    · have hequal := hagree s.jit.shm
      rw [withShm_self, readSlice_fails hfast hend] at hequal
      cases hequal
  · intro i hi
    have hlt := alignedAddr_lt width addr
    unfold SlowElementGood
    split_ifs with hlow
    · exact fun hmapped => site_of_slow hfast hagree hi hlow hmapped
    · by_cases hwidth : width = .byte
      · subst hwidth
        have hone : MemWidth.byte.bytes = 1 := rfl
        rw [hone, Nat.mul_one] at hlow ⊢
        have hfirst : alignedAddr .byte addr + i = 0x10000000 := by
          by_contra hne
          -- the second byte of the bios was read before
          have hlane := lane_of_slow (i := 0x10000001 - alignedAddr .byte addr) hfast hagree 1
            (by omega) (by decide) (by rw [hone]; omega)
          exact biosByte_ne_zero hbus hlane.2
        have hlane := lane_of_slow hfast hagree 0 hi (by decide) (by rw [hone]; omega)
        exact ⟨rfl, hfirst, hlane.1, hlane.2⟩
      · -- the first word of the bios was read before
        obtain ⟨k, hk⟩ : width.bytes ∣ 0x10000000 - alignedAddr width addr :=
          Nat.dvd_sub (width.bytes_dvd.trans (by decide)) (dvd_alignedAddr width addr)
        rw [Nat.mul_comm] at hk
        have hki : k ≤ i := by
          by_contra hlater
          have hmul : (i + 1) * width.bytes ≤ k * width.bytes := Nat.mul_le_mul_right _ (by omega)
          have hpos := width.bytes_pos
          rw [Nat.succ_mul] at hmul
          omega
        have hlane := lane_of_slow (i := k) hfast hagree 0 (by omega) (by decide) (by omega)
        exact absurd hlane.2 (biosLane_ne_zero hbus hwidth)

end Law

/-- **Bulk reads.**  With the open bus of a bios call or an interrupt, a bulk read is the single
reads exactly when it is good. -/
theorem bulk_read_law (dev : MemDevices D) (s : GuestMem D) (hbus : IsBiosFetch s.biosOpenBus)
    (shmMemory : Bool) (width : MemWidth) (addr n : Nat) :
    ReadAgrees dev shmMemory s width addr n ↔ ReadGood shmMemory s width addr n :=
  ⟨readGood_of_agrees hbus, readAgrees_of_good dev⟩

/-- A read from one page of ewram to the next. -/
theorem ewramRead_agrees :
    ReadAgrees silentDevices true (emptyBoot plainCartridge) .word 0x02000FFC 2 := by
  refine (bulk_read_law silentDevices _ (.inl rfl) true .word 0x02000FFC 2).mpr ?_
  unfold ReadGood
  rw [if_pos (by decide)]
  decide

/-! ## The end of an image -/

/-- The boot with a byte set at the start of iwram. -/
def markedBoot : GuestMem Unit :=
  (emptyBoot plainCartridge).withShm fun a => if a = 0x44000 then 1 else 0

/-- The second word mirrors the start of ewram; the copy takes it from the start of iwram. -/
theorem borderRead_differs :
    ¬ ∀ s, MemReaches silentDevices s → ∀ (shmMemory : Bool) (width : MemWidth) (addr n : Nat),
      memReadMultipleSlice silentDevices shmMemory width addr n s =
        some (memReads silentDevices width addr n s) := by
  intro hclaim
  have hloaded : plainCartridge.Loaded := ⟨by decide, by decide, .inl rfl⟩
  have hequal := hclaim markedBoot ⟨_, .boot hloaded _ _ _, .refl _⟩ true .word 0x0203FFFC 2
  have hwords := congrArg (Option.map Prod.fst) hequal
  exact absurd hwords (by decide)

end AdvancedSlop
