/-
# Runs of the guest memory

* `MemStart`, `MemOp`, `memStep` : the steps of the emulator as the memory sees them;
* `MemInv` : the invariants: those of the jit memory, and good mmu tables;
* `memInv_of_reaches` : they hold in every run.
-/
import AdvancedSlop.MemoryAccess
import AdvancedSlop.WriteProtection

namespace AdvancedSlop

open IndexedLoop TransitionSystem

/-! ## Runs -/

/-- What `CartridgeIo::new` accepts. -/
def CartridgeIo.Loaded (io : CartridgeIo) : Prop :=
  0xC0 ≤ io.romLen ∧ io.romLen < 0x100000000 ∧
    (io.romMask = 0x1FFFFFF ∨ io.romMask = 2 ^ Nat.clog 2 io.romLen - 1)

instance (io : CartridgeIo) : Decidable io.Loaded := inferInstanceAs (Decidable (_ ∧ _ ∧ _))

/-- The values `bios_open_bus` takes. -/
def IsBiosFetch (value : BitVec 32) : Prop :=
  value = 0xE129F000 ∨ value = 0xE3A02004 ∨ value = 0xE25EF004 ∨ value = 0xE55EC002

instance (value : BitVec 32) : Decidable (IsBiosFetch value) :=
  inferInstanceAs (Decidable (_ ∨ _ ∨ _ ∨ _))

/-- The memory after `mmu_update_all`, and `mmu_unmap_rom_head` if `headUnmapped`, with no code
compiled. -/
def memStart {D : Type*} (cart : CartridgeIo) (headUnmapped : Bool) (shm : Nat → UInt8)
    (biosOpenBus : BitVec 32) (gpControl : BitVec 16) (devices : D) : GuestMem D where
  jit := jitBoot cart shm
  mmuRead :=
    if headUnmapped then (mmuUnmapRomHead (updateAllArm7 cart)).mmuRead
    else (updateAllArm7 cart).mmuRead
  cart := cart
  gpuMemDirty := 0xF
  biosOpenBus := biosOpenBus
  gpControl := gpControl
  devices := devices

/-- Where runs start: the boot leaves the rom head mapped, the load of a savestate unmaps it for a
cartridge with a clock. -/
inductive MemStart {D : Type*} : GuestMem D → Prop
  | boot {cart : CartridgeIo} (hcart : cart.Loaded) (shm : Nat → UInt8) (gpControl : BitVec 16)
      (devices : D) : MemStart (memStart cart false shm 0xE129F000 gpControl devices)
  | load {cart : CartridgeIo} (hcart : cart.Loaded) (shm : Nat → UInt8) {biosOpenBus : BitVec 32}
      (hbus : IsBiosFetch biosOpenBus) (gpControl : BitVec 16) (devices : D) :
      MemStart (memStart cart cart.hasRtc shm biosOpenBus gpControl devices)

/-- What the emulator does to the memory. -/
inductive MemOp (D : Type*)
  | jit (op : JitOp)
  | read (width : MemWidth) (addr : Nat)
  | readSlice (shmMemory : Bool) (width : MemWidth) (addr n : Nat)
  | write (width : MemWidth) (addr : Nat) (value : width.Value)
  | writeSlice (width : MemWidth) (addr : Nat) (slice : List width.Value)
  | writeMemset (width : MemWidth) (addr : Nat) (value : width.Value) (size : Nat)
  | writeFixedSlice (width : MemWidth) (addr : Nat) (slice : List width.Value)
  /-- A bios call or an interrupt. -/
  | biosFetch (value : BitVec 32)
  /-- The renderer takes the dirty bits. -/
  | frameFinish
  /-- The rest of the emulator. -/
  | devices (f : D → D)

/-- One operation.  There is none where the code leaves the host's tables. -/
def memStep {D : Type*} (dev : MemDevices D) (s : GuestMem D) : MemOp D → Option (GuestMem D)
  | .jit op => (jitStep s.jit op).map fun jit => { s with jit := jit }
  | .read width addr => some (memRead dev width addr s).2
  | .readSlice shmMemory width addr n =>
      (memReadMultipleSlice dev shmMemory width addr n s).map Prod.snd
  | .write width addr value => memWrite dev width addr value s
  | .writeSlice width addr slice => memWriteMultipleSlice dev width addr slice s
  | .writeMemset width addr value size => memWriteMultipleMemset dev width addr value size s
  | .writeFixedSlice width addr slice => memWriteFixedSlice dev width addr slice s
  | .biosFetch value => if IsBiosFetch value then some { s with biosOpenBus := value } else none
  | .frameFinish => some { s with gpuMemDirty := 0 }
  | .devices f => some { s with devices := f s.devices }

/-- A run leads from a start to `s`. -/
def MemReaches {D : Type*} (dev : MemDevices D) (s : GuestMem D) : Prop :=
  ∃ s₀, MemStart s₀ ∧ Reaches (memStep dev) (fun _ _ => True) s₀ s

/-! ## The invariants of every run -/

/-- The invariants. -/
structure MemInv {D : Type*} (s : GuestMem D) : Prop where
  jit : JitInv s.jit
  tables : TablesGood s
  loaded : s.cart.Loaded
  openBus : IsBiosFetch s.biosOpenBus

/-- What the handlers of the regions other than iwram leave alone; the first write to the general
purpose port turns the clock on. -/
structure Handled {D : Type*} (s t : GuestMem D) : Prop where
  jit : t.jit.jit = s.jit.jit
  mmuWrite : t.jit.mmuWrite = s.jit.mmuWrite
  inserted : t.jit.inserted = s.jit.inserted
  openBus : t.biosOpenBus = s.biosOpenBus
  rom : t.cart = s.cart ∧ t.mmuRead = s.mmuRead ∨
    t.cart = { s.cart with hasRtc := true } ∧
      t.mmuRead = (mmuUnmapRomHead ⟨s.mmuRead, s.jit.mmuWrite⟩).mmuRead

/-- A change of the contents, the devices, the dirty bits or the break-out flag. -/
theorem Handled.of_same {D : Type*} {s t : GuestMem D} (hjit : t.jit.jit = s.jit.jit)
    (hwrite : t.jit.mmuWrite = s.jit.mmuWrite) (hinserted : t.jit.inserted = s.jit.inserted)
    (hbus : t.biosOpenBus = s.biosOpenBus) (hcart : t.cart = s.cart)
    (hread : t.mmuRead = s.mmuRead) : Handled s t :=
  ⟨hjit, hwrite, hinserted, hbus, .inl ⟨hcart, hread⟩⟩

theorem Handled.store {D : Type*} (s : GuestMem D) (width : MemWidth) (offset : Nat)
    (value : width.Value) : Handled s (s.store width offset value) :=
  .of_same rfl rfl rfl rfl rfl rfl

section Invariant

variable {D : Type*} {dev : MemDevices D} {s t : GuestMem D}

/-- A write to the general purpose port. -/
theorem Handled.writeRom (dev : MemDevices D) (width : MemWidth) (addr : Nat) (value : width.Value)
    (s : GuestMem D) : Handled s (MemoryIo.writeRom dev width addr value s) := by
  have henable : Handled s (cartridgeAutoEnableRtc s) := by
    unfold cartridgeAutoEnableRtc
    split_ifs
    · exact .of_same rfl rfl rfl rfl rfl rfl
    · exact ⟨rfl, rfl, rfl, rfl, .inr ⟨rfl, rfl⟩⟩
  unfold MemoryIo.writeRom
  split_ifs
  · -- the port's registers are none of the fields
    unfold cartridgeWriteGpio
    split_ifs <;> exact ⟨henable.jit, henable.mmuWrite, henable.inserted, henable.openBus,
      henable.rom⟩
  · exact .of_same rfl rfl rfl rfl rfl rfl

/-- The handlers of the other regions. -/
theorem write_handled {width : MemWidth} {addr : Nat} {value : width.Value}
    (hregion : addr / 0x1000000 % 16 ≠ 3) (h : MemoryIo.write dev width addr value s = some t) :
    Handled s t := by
  rcases region_cases addr with hnone | hnone | hew | hiw | hio | hpal | hvram | hoam | hrom |
    heeprom | hsram
  · rw [write_none dev width s value (by omega)] at h
    obtain rfl := Option.some.inj h
    exact .of_same rfl rfl rfl rfl rfl rfl
  · rw [write_none dev width s value (by omega)] at h
    obtain rfl := Option.some.inj h
    exact .of_same rfl rfl rfl rfl rfl rfl
  · rw [write_ewram dev width s value hew] at h
    obtain rfl := Option.some.inj h
    exact .store s width _ value
  · exact absurd hiw hregion
  · rw [write_ioPorts dev width s value hio] at h
    obtain rfl := Option.some.inj h
    exact .of_same rfl rfl rfl rfl rfl rfl
  · rw [write_palettes dev width s value hpal] at h
    obtain rfl := Option.some.inj h
    unfold MemoryIo.writePalettes
    simp only
    split_ifs <;> exact .of_same rfl rfl rfl rfl rfl rfl
  · rw [write_vram dev width s value hvram] at h
    obtain rfl := Option.some.inj h
    unfold MemoryIo.writeVram
    simp only
    split_ifs <;> exact .of_same rfl rfl rfl rfl rfl rfl
  · rw [write_oam dev width s value hoam] at h
    obtain rfl := Option.some.inj h
    unfold MemoryIo.writeOam
    split_ifs <;> exact .of_same rfl rfl rfl rfl rfl rfl
  · rw [write_rom dev width s value hrom] at h
    obtain rfl := Option.some.inj h
    exact .writeRom dev width addr value s
  · rw [write_romEeprom dev width s value heeprom] at h
    obtain rfl := Option.some.inj h
    unfold MemoryIo.writeRomEeprom
    split_ifs <;> exact .of_same rfl rfl rfl rfl rfl rfl
  · rw [write_sram dev width s value hsram] at h
    obtain rfl := Option.some.inj h
    exact .of_same rfl rfl rfl rfl rfl rfl

/-- The handlers of the other regions keep the tables good. -/
theorem TablesGood.handled (h : TablesGood s) (hhandled : Handled s t) : TablesGood t := by
  rcases hhandled.rom with ⟨hcart, hread⟩ | ⟨hcart, hread⟩
  · constructor
    · rw [hhandled.mmuWrite, hcart]
      exact h.write
    · rw [hread, hcart]
      exact h.read
  · -- the filled tables do not look at the clock
    have hsame : updateAllArm7 t.cart = updateAllArm7 s.cart := by
      rw [hcart]
      rfl
    constructor
    · have hwrite := h.write
      rw [WriteTableGood, ← hsame] at hwrite
      rw [hhandled.mmuWrite]
      exact hwrite
    · right
      rw [hread, hsame]
      funext page
      rw [mmuUnmapRomHead_apply, mmuUnmapRomHead_apply]
      rcases h.read with hfilled | hunmapped
      · simp only [hfilled]
      · simp only [hunmapped, mmuUnmapRomHead_apply]
        split_ifs <;> rfl

/-- They keep all invariants. -/
theorem MemInv.handled (h : MemInv s) (hhandled : Handled s t) : MemInv t where
  jit := by
    refine ⟨?_, ?_, ?_⟩
    · rw [hhandled.jit, hhandled.inserted]
      exact h.jit.id_lt
    · rw [hhandled.jit]
      exact h.jit.tables
    · rw [hhandled.mmuWrite]
      exact h.jit.mirrors
  tables := h.tables.handled hhandled
  loaded := by
    rcases hhandled.rom with ⟨hcart, -⟩ | ⟨hcart, -⟩
    · rw [hcart]
      exact h.loaded
    · rw [hcart]
      exact h.loaded
  openBus := by
    rw [hhandled.openBus]
    exact h.openBus

end Invariant

/-! ## Write protection in the tables -/

/-- Protecting a page of iwram keeps the table. -/
theorem WriteTableGood.remove {cart : CartridgeIo} {mmuWrite : Nat → Nat}
    (h : WriteTableGood cart mmuWrite) (addr : Nat) :
    WriteTableGood cart (removeMmuWriteEntry addr iwramRegion mmuWrite) := by
  intro page
  unfold removeMmuWriteEntry
  split_ifs
  · exact h page
  · refine foldl_update_rec (P := fun entry => entry = (updateAllArm7 cart).mmuWrite page ∨
      (page / 4096 = 3 ∧ entry = 0)) (fun addr => addr / 4096) (fun _ => 0) _ mmuWrite ?_
      fun _ => h page
    rintro a ha rfl
    obtain ⟨i, rfl, hlt⟩ := (mem_stepBy (by decide)).mp ha
    simp only [iwramRegion] at hlt ⊢
    exact .inr ⟨by omega, trivial⟩

/-- Restoring a page of iwram keeps the table. -/
theorem WriteTableGood.restore {cart : CartridgeIo} {mmuWrite : Nat → Nat}
    (h : WriteTableGood cart mmuWrite) (addr : Nat) :
    WriteTableGood cart (restoreMmuWriteEntry addr iwramRegion mmuWrite) := by
  intro page
  unfold restoreMmuWriteEntry
  refine foldl_update_rec (P := fun entry => entry = (updateAllArm7 cart).mmuWrite page ∨
    (page / 4096 = 3 ∧ entry = 0)) (fun addr => addr / 4096)
    (fun addr => iwramRegion.shmOffset + addr % iwramRegion.size) _ mmuWrite ?_ fun _ => h page
  rintro a ha rfl
  obtain ⟨i, rfl, hlt⟩ := (mem_stepBy (by decide)).mp ha
  left
  simp only [updateAllArm7, mmuWriteEntry, iwramRegion, ewramRegion] at hlt ⊢
  rw [if_pos (by omega), if_neg (by omega), if_pos (by omega)]
  omega

/-- Protecting the pages of a block keeps the table. -/
theorem WriteTableGood.protect {cart : CartridgeIo} {mmuWrite : Nat → Nat}
    (h : WriteTableGood cart mmuWrite) (span : BlockSpan) :
    WriteTableGood cart (jitProtectRegion span iwramRegion mmuWrite) := by
  unfold jitProtectRegion
  simp only
  generalize List.range' _ _ = pages
  induction pages generalizing mmuWrite with
  | nil => exact h
  | cons i pages ih => exact ih (h.remove (i * 4096))

/-- The operations on the jit memory keep the write table. -/
theorem WriteTableGood.jitStep {cart : CartridgeIo} {m m' : JitMachine} {op : JitOp}
    (h : WriteTableGood cart m.mmuWrite) (hinv : JitInv m) (hstep : jitStep m op = some m') :
    WriteTableGood cart m'.mmuWrite := by
  by_cases hinsert : ∃ span codeLen, op = .insert span codeLen
  · obtain ⟨span, codeLen, rfl⟩ := hinsert
    obtain ⟨block, -, hins⟩ := jitStep_insert hstep
    rw [hins.mmuWrite]
    split_ifs
    · exact h.protect block.toBlockSpan
    · exact h
  · by_cases hstore : ∃ addr width value, op = .writeIwram addr width value
    · obtain ⟨addr, width, value, rfl⟩ := hstore
      obtain ⟨haddr, rfl⟩ := jitStep_writeIwram hstep
      rcases writeIwram_spec hinv.tables haddr width value with ⟨-, heq⟩ | ⟨-, -, hst⟩
      · rw [heq]
        exact h
      · rw [hst.mmuWrite]
        split_ifs
        · exact h.restore addr
        · exact h
    · have hsame := jitStep_mmuWrite hstep (fun span codeLen hop => hinsert ⟨span, codeLen, hop⟩)
        (fun addr width value hop => hstore ⟨addr, width, value, hop⟩)
      rw [hsame.1]
      exact h

section Invariant

variable {D : Type*} {dev : MemDevices D} {s t : GuestMem D}

/-- The operations on the jit memory keep the invariants. -/
theorem MemInv.jitStep (h : MemInv s) {op : JitOp} {jit : JitMachine}
    (hstep : jitStep s.jit op = some jit) : MemInv { s with jit := jit } where
  jit := jitInv_step h.jit hstep
  tables := ⟨h.tables.write.jitStep h.jit hstep, h.tables.read⟩
  loaded := h.loaded
  openBus := h.openBus

/-- A change of the contents keeps the invariants. -/
theorem MemInv.withShm (h : MemInv s) (shm : Nat → UInt8) : MemInv (s.withShm shm) :=
  h.handled (.of_same rfl rfl rfl rfl rfl rfl)

/-- A change of the devices keeps the invariants. -/
theorem MemInv.withDevices (h : MemInv s) (devices : D) : MemInv { s with devices := devices } :=
  h.handled (.of_same rfl rfl rfl rfl rfl rfl)

/-- **The write handlers** keep the invariants. -/
theorem MemInv.write (h : MemInv s) {width : MemWidth} {addr : Nat} (hdvd : width.bytes ∣ addr)
    {value : width.Value} (hstep : MemoryIo.write dev width addr value s = some t) : MemInv t := by
  by_cases hregion : addr / 0x1000000 % 16 = 3
  · rw [write_iwramIo dev width s value hregion, MemoryIo.writeIwramIo] at hstep
    split_ifs at hstep with hsafe
    obtain rfl := Option.some.inj hstep
    by_cases hsame : s.load width (iwramRegion.shmOffset + addr % iwramRegion.size) = value
    · have heq : writeIwram addr width value s.jit = s.jit := if_pos hsame
      rw [heq]
      exact h
    · have hbus := hsafe.resolve_left hsame
      have hend : addr + width.bytes ≤ 0x04000000 := by
        obtain ⟨i, rfl⟩ := hdvd
        cases width <;> simp only [MemWidth.bytes] at * <;> omega
      exact h.jitStep (jitStep_writeIwram_eq ⟨by omega, hend⟩ value s.jit)
  · exact h.handled (write_handled hregion hstep)

/-- The read handlers change the devices only. -/
theorem read_state (dev : MemDevices D) (width : MemWidth) (addr : Nat) (s : GuestMem D) :
    ∃ devices, (MemoryIo.read dev width addr s).2 = { s with devices := devices } := by
  rcases region_cases addr with h | h | h | h | h | h | h | h | h | h | h
  · exact ⟨_, congrArg Prod.snd (read_bios dev width s h)⟩
  · exact ⟨_, congrArg Prod.snd (read_openBus dev width s h)⟩
  · exact ⟨_, congrArg Prod.snd (read_ewram dev width s h)⟩
  · exact ⟨_, congrArg Prod.snd (read_iwram dev width s h)⟩
  · exact ⟨_, congrArg Prod.snd (read_ioPorts dev width s h)⟩
  · exact ⟨_, congrArg Prod.snd (read_palettes dev width s h)⟩
  · exact ⟨_, congrArg Prod.snd (read_vram dev width s h)⟩
  · exact ⟨_, congrArg Prod.snd (read_oam dev width s h)⟩
  · exact ⟨_, congrArg Prod.snd (read_rom dev width s h)⟩
  · rw [read_romEeprom dev width s h, MemoryIo.readRomEeprom]
    split_ifs <;> exact ⟨_, rfl⟩
  · exact ⟨_, congrArg Prod.snd (read_sram dev width s h)⟩

/-- Reads keep the invariants. -/
theorem MemInv.read (h : MemInv s) (dev : MemDevices D) (width : MemWidth) (addr : Nat) :
    MemInv (MemoryIo.read dev width addr s).2 := by
  obtain ⟨devices, heq⟩ := read_state dev width addr s
  rw [heq]
  exact h.withDevices devices

theorem MemInv.memRead (h : MemInv s) (dev : MemDevices D) (width : MemWidth) (addr : Nat) :
    MemInv (memRead dev width addr s).2 := by
  unfold AdvancedSlop.memRead
  simp only
  split_ifs
  · exact h
  · exact h.read dev width _

/-- Single writes keep the invariants. -/
theorem MemInv.memWrite (h : MemInv s) {width : MemWidth} {addr : Nat} {value : width.Value}
    (hstep : memWrite dev width addr value s = some t) : MemInv t := by
  unfold AdvancedSlop.memWrite at hstep
  simp only at hstep
  split_ifs at hstep
  · obtain rfl := Option.some.inj hstep
    exact h.withShm _
  · exact h.write (dvd_alignedAddr width addr) hstep

/-- The elements of a slice are aligned. -/
theorem dvd_elementAddr {width : MemWidth} {addr : Nat} (hdvd : width.bytes ∣ addr) (i : Nat) :
    width.bytes ∣ elementAddr width addr i := by
  have hbus : width.bytes ∣ 0x100000000 := width.bytes_dvd.trans (by decide)
  exact (Nat.dvd_mod_iff hbus).mpr (hdvd.add (Nat.dvd_mul_left ..))

/-- The bulk copies keep the invariants. -/
theorem MemInv.copyToShm (h : MemInv s) {width : MemWidth} {offset : Nat}
    {slice : List width.Value} (hstep : copyToShm width offset slice s = some t) : MemInv t := by
  unfold AdvancedSlop.copyToShm at hstep
  split_ifs at hstep
  obtain rfl := Option.some.inj hstep
  exact h.withShm _

/-- **Every operation keeps the invariants.** -/
theorem MemInv.step (h : MemInv s) {op : MemOp D} (hstep : memStep dev s op = some t) :
    MemInv t := by
  cases op with
  | jit op =>
      obtain ⟨jit, hjit, rfl⟩ := Option.map_eq_some_iff.mp hstep
      exact h.jitStep hjit
  | read width addr =>
      obtain rfl := Option.some.inj hstep
      exact h.memRead dev width addr
  | readSlice shmMemory width addr n =>
      obtain ⟨r, hr, rfl⟩ := Option.map_eq_some_iff.mp hstep
      unfold memReadMultipleSlice at hr
      simp only at hr
      split_ifs at hr
      · obtain rfl := Option.some.inj hr
        exact h
      · obtain rfl := Option.some.inj hr
        exact readEach_invariant (I := MemInv) (fun _ _ hs => hs.read dev width _) h
  | write width addr value => exact h.memWrite hstep
  | writeSlice width addr slice =>
      simp only [memStep, memWriteMultipleSlice] at hstep
      split_ifs at hstep
      · exact h.copyToShm hstep
      · exact writeEach_invariant (I := MemInv) (fun i _ _ _ hs ht =>
          hs.write (dvd_elementAddr (dvd_alignedAddr width addr) i) ht) h hstep
  | writeMemset width addr value size =>
      simp only [memStep, memWriteMultipleMemset] at hstep
      split_ifs at hstep
      · exact h.copyToShm hstep
      · exact writeEach_invariant (I := MemInv) (fun i _ _ _ hs ht =>
          hs.write (dvd_elementAddr (dvd_alignedAddr width addr) i) ht) h hstep
  | writeFixedSlice width addr slice =>
      simp only [memStep, memWriteFixedSlice] at hstep
      split_ifs at hstep
      · obtain ⟨value, -, rfl⟩ := Option.map_eq_some_iff.mp hstep
        exact h.withShm _
      · exact writeEach_invariant (I := MemInv) (fun _ _ _ _ hs ht =>
          hs.write (dvd_alignedAddr width addr) ht) h hstep
  | biosFetch value =>
      simp only [memStep] at hstep
      split_ifs at hstep with hfetch
      obtain rfl := Option.some.inj hstep
      exact ⟨h.jit, ⟨h.tables.write, h.tables.read⟩, h.loaded, hfetch⟩
  | frameFinish =>
      obtain rfl := Option.some.inj hstep
      exact h.handled (.of_same rfl rfl rfl rfl rfl rfl)
  | devices f =>
      obtain rfl := Option.some.inj hstep
      exact h.withDevices _

end Invariant

/-- The start has the invariants. -/
theorem MemStart.memInv {D : Type*} {s : GuestMem D} (h : MemStart s) : MemInv s := by
  have hread : ∀ (cart : CartridgeIo) (headUnmapped : Bool) (shm : Nat → UInt8)
      (biosOpenBus : BitVec 32) (gpControl : BitVec 16) (devices : D),
      TablesGood (memStart cart headUnmapped shm biosOpenBus gpControl devices) := by
    intro cart headUnmapped shm biosOpenBus gpControl devices
    refine ⟨fun page => .inl rfl, ?_⟩
    cases headUnmapped with
    | false => exact .inl rfl
    | true => exact .inr rfl
  cases h with
  | boot hcart shm gpControl devices =>
      exact ⟨jitInv_boot _ shm, hread _ _ _ _ _ _, hcart, .inl rfl⟩
  | load hcart shm hbus gpControl devices =>
      exact ⟨jitInv_boot _ shm, hread _ _ _ _ _ _, hcart, hbus⟩

/-- **The invariants** hold in every run. -/
theorem memInv_of_reaches {D : Type*} {dev : MemDevices D} {s : GuestMem D}
    (h : MemReaches dev s) : MemInv s := by
  obtain ⟨s₀, hstart, hrun⟩ := h
  exact hrun.invariant (fun _ _ _ hs _ hstep => hs.step hstep) hstart.memInv

/-! ## Live bits -/

/-- No live bit at a writable address. -/
def QuietAt {D : Type*} (s : GuestMem D) (addr : Nat) : Prop :=
  s.jit.mmuWrite (addr / 4096) ≠ 0 → ¬ Watched s addr

instance {D : Type*} (s : GuestMem D) (addr : Nat) : Decidable (QuietAt s addr) :=
  inferInstanceAs (Decidable (_ → _))

/-- Iwram addresses with one live-range page lie in one 4K frame. -/
theorem frame_of_livePage {x y : Nat} (hx : x / 0x1000000 = 3) (hy : y / 0x1000000 = 3)
    {page : LivePage} (hpx : livePage x = some page) (hpy : livePage y = some page) :
    x / 4096 % 8 = y / 4096 % 8 := by
  rcases livePage_cases hpx with ⟨hregion, -⟩ | ⟨-, rfl⟩
  · omega
  · rcases livePage_cases hpy with ⟨hregion, -⟩ | ⟨-, hpage⟩
    · omega
    · simp only [Prod.mk.injEq, true_and] at hpage
      omega

/-- A live-range page is cleared with its 4K frame. -/
theorem inMmuPage_iff {x y : Nat} (hx : x / 0x1000000 = 3) (hy : y / 0x1000000 = 3)
    {page : LivePage} (hpage : livePage x = some page) :
    InMmuPage y page ↔ x / 4096 % 8 = y / 4096 % 8 := by
  rcases livePage_cases hpage with ⟨hregion, -⟩ | ⟨-, rfl⟩
  · omega
  · constructor
    · rintro ⟨a, ha, hbyte⟩
      obtain ⟨i, rfl, hlt⟩ := (mem_stepBy (by decide)).mp ha
      unfold getLiveRange liveRangesMap at hbyte
      simp only at hbyte
      rw [if_neg (by omega), if_pos (by omega)] at hbyte
      simp only [Option.some.injEq, Prod.mk.injEq, true_and] at hbyte
      omega
    · intro hframe
      refine ⟨y / 4096 * 4096 + x % 4096 / 2048 * 8 * 256, (mem_stepBy (by decide)).mpr
        ⟨x % 4096 / 2048 * 8, rfl, by omega⟩, ?_⟩
      unfold getLiveRange liveRangesMap
      simp only
      rw [if_neg (by omega), if_pos (by omega)]
      simp only [Option.some.injEq, Prod.mk.injEq, true_and]
      omega

/-- A store sees the live bits of one frame only. -/
theorem frame_of_storeUnwatches {jit : JitMemory} {width : MemWidth} {x y : Nat}
    (hdvd : width.bytes ∣ y) (hx : x / 0x1000000 = 3) (hy : y / 0x1000000 = 3) {page : LivePage}
    (hpage : livePage x = some page) (h : StoreUnwatches jit y width.bytes page) :
    x / 4096 % 8 = y / 4096 % 8 := by
  rcases h with ⟨p, hp, hpp⟩ | ⟨-, hin⟩
  · have hlast : livePage (y + width.bytes - 1) = livePage y := by
      apply livePage_congr
      obtain ⟨i, rfl⟩ := hdvd
      cases width <;> simp only [MemWidth.bytes] <;> omega
    have hpy : livePage y = some page := by
      rcases mem_hitProbes.mp hp with ⟨rfl, -⟩ | ⟨rfl, -⟩
      · exact hpp
      · rwa [hlast] at hpp
    exact frame_of_livePage hx hy hpage hpy
  · exact (inMmuPage_iff hx hy hpage).mp hin

section Live

variable {D : Type*} {dev : MemDevices D} {s t : GuestMem D} {width : MemWidth} {addr : Nat}
  {value : width.Value}

/-- What a handler does to the jit memory: nothing, or what a store into iwram does. -/
theorem write_jit (h : MemInv s)
    (hstep : MemoryIo.write dev width addr value s = some t) :
    (t.jit.jit = s.jit.jit ∧ t.jit.mmuWrite = s.jit.mmuWrite) ∨
      (addr / 0x1000000 = 3 ∧ Stored s.jit t.jit addr width.bytes) := by
  by_cases hregion : addr / 0x1000000 % 16 = 3
  · rw [write_iwramIo dev width s value hregion, MemoryIo.writeIwramIo] at hstep
    split_ifs at hstep with hsafe
    obtain rfl := Option.some.inj hstep
    by_cases hsame : s.load width (iwramRegion.shmOffset + addr % iwramRegion.size) = value
    · have heq : writeIwram addr width value s.jit = s.jit := if_pos hsame
      rw [heq]
      exact .inl ⟨rfl, rfl⟩
    · have hbus := hsafe.resolve_left hsame
      rcases writeIwram_spec h.jit.tables (show addr / 0x1000000 = 3 by omega) width value with
        ⟨hsame', -⟩ | ⟨-, -, hstored⟩
      · exact absurd hsame' hsame
      · exact .inr ⟨by omega, hstored⟩
  · have hhandled := write_handled hregion hstep
    exact .inl ⟨hhandled.jit, hhandled.mmuWrite⟩

/-- Writes set no live bit. -/
theorem hasJitBlock_of_write (h : MemInv s)
    (hstep : MemoryIo.write dev width addr value s = some t) {x : Nat}
    (hlive : hasJitBlock t.jit.jit x = true) : hasJitBlock s.jit.jit x = true := by
  rcases write_jit h hstep with ⟨hjit, -⟩ | ⟨-, hstored⟩
  · rwa [hjit] at hlive
  · unfold hasJitBlock at hlive ⊢
    cases hpage : livePage x with
    | none => simp [hpage] at hlive
    | some page =>
        simp only [hpage] at hlive ⊢
        exact ((hstored.live page).mp hlive).1

/-- A page that a write maps has lost its live bits. -/
theorem QuietAt.write (h : MemInv s)
    (hstep : MemoryIo.write dev width addr value s = some t) {x : Nat} (hquiet : QuietAt s x) :
    QuietAt t x := by
  rintro hmapped ⟨hx, hlive⟩
  have hold := hasJitBlock_of_write h hstep hlive
  by_cases hzero : s.jit.mmuWrite (x / 4096) = 0
  · -- the page was mapped by a demotion of its frame
    rcases write_jit h hstep with ⟨-, hwrite⟩ | ⟨haddr, hstored⟩
    · exact hmapped (hwrite ▸ hzero)
    · rw [hstored.mmuWrite] at hmapped
      split_ifs at hmapped with hdemotes
      · have hmirror : IwramMirror addr (x / 4096) := by
          by_contra hno
          exact hmapped ((restoreMmuWriteEntry_iwram _ haddr _).mpr ⟨hno, hzero⟩)
        unfold hasJitBlock at hlive
        cases hpage : livePage x with
        | none => simp [hpage] at hlive
        | some page =>
            simp only [hpage] at hlive
            refine ((hstored.live page).mp hlive).2 (.inr ⟨hdemotes, ?_⟩)
            exact (inMmuPage_iff hx haddr hpage).mpr hmirror.2
      · exact hmapped hzero
  · exact hquiet hzero ⟨hx, hold⟩

end Live

/-- Single writes set no live bit. -/
theorem hasJitBlock_of_memWrite {D : Type*} {dev : MemDevices D} {s t : GuestMem D}
    {width : MemWidth} {addr : Nat} {value : width.Value} (h : MemInv s)
    (hstep : memWrite dev width addr value s = some t) {x : Nat}
    (hlive : hasJitBlock t.jit.jit x = true) : hasJitBlock s.jit.jit x = true := by
  by_cases hzero : s.jit.mmuWrite (alignedAddr width addr / 4096) = 0
  · rw [memWrite_of_unmapped dev hzero] at hstep
    exact hasJitBlock_of_write h hstep hlive
  · rw [memWrite_of_mapped dev hzero] at hstep
    obtain rfl := Option.some.inj hstep
    exact hlive

/-- A page that a single write maps has lost its live bits. -/
theorem QuietAt.memWrite {D : Type*} {dev : MemDevices D} {s t : GuestMem D} {width : MemWidth}
    {addr : Nat} {value : width.Value} (h : MemInv s)
    (hstep : memWrite dev width addr value s = some t) {x : Nat} (hquiet : QuietAt s x) :
    QuietAt t x := by
  by_cases hzero : s.jit.mmuWrite (alignedAddr width addr / 4096) = 0
  · rw [memWrite_of_unmapped dev hzero] at hstep
    exact hquiet.write h hstep
  · rw [memWrite_of_mapped dev hzero] at hstep
    obtain rfl := Option.some.inj hstep
    exact hquiet

/-- **Single writes** keep the live bits of a writable page: none of them goes to its handler. -/
theorem watched_of_memWrite {D : Type*} {dev : MemDevices D} {s t : GuestMem D} {width : MemWidth}
    {addr : Nat} {value : width.Value} (h : MemInv s)
    (hstep : AdvancedSlop.memWrite dev width addr value s = some t) {x : Nat}
    (hmapped : s.jit.mmuWrite (x / 4096) ≠ 0) (hwatched : Watched s x) :
    t.jit.mmuWrite (x / 4096) ≠ 0 ∧ Watched t x := by
  obtain ⟨hx, hlive⟩ := hwatched
  by_cases hzero : s.jit.mmuWrite (alignedAddr width addr / 4096) = 0
  · rw [memWrite_of_unmapped dev hzero] at hstep
    rcases write_jit h hstep with ⟨hjit, hwrite⟩ | ⟨haddr, hstored⟩
    · exact ⟨hwrite ▸ hmapped, hx, hjit ▸ hlive⟩
    · constructor
      · rw [hstored.mmuWrite]
        split_ifs
        · exact fun hrestored =>
            hmapped ((restoreMmuWriteEntry_iwram _ haddr _).mp hrestored).2
        · exact hmapped
      · refine ⟨hx, ?_⟩
        unfold hasJitBlock at hlive ⊢
        cases hpage : livePage x with
        | none => simp [hpage] at hlive
        | some page =>
            simp only [hpage] at hlive ⊢
            refine (hstored.live page).mpr ⟨hlive, fun hunwatches => hmapped ?_⟩
            -- the page would be protected with the one of the store
            have hframe := frame_of_storeUnwatches (dvd_alignedAddr width addr) hx haddr hpage
              hunwatches
            exact (h.jit.mirrors _ _ (by omega) (by omega) hframe).mpr hzero
  · rw [memWrite_of_mapped dev hzero] at hstep
    obtain rfl := Option.some.inj hstep
    exact ⟨hmapped, hx, hlive⟩

/-! ## A bus without devices -/

/-- Devices that read as zero and ignore writes. -/
def silentDevices : MemDevices Unit where
  ioGbaRead _ _ _ := (0, ())
  ioGbaWrite _ _ _ _ := ((), false)
  readGpData _ := 0
  gpDirection _ := 0
  writeGpData _ _ := ()
  writeGpDirection _ _ := ()
  cartridgeReadEeprom _ := (0, ())
  cartridgeWriteEeprom _ _ := ()
  cartridgeReadSram _ _ := 0
  cartridgeWriteSram _ _ _ := ()
  bgMode _ := 0

/-- The boot of a cartridge with empty memory. -/
def emptyBoot (cart : CartridgeIo) : GuestMem Unit :=
  memStart cart false (fun _ => 0) 0xE129F000 0 ()

theorem emptyBoot_reaches {cart : CartridgeIo} (h : cart.Loaded) :
    MemReaches silentDevices (emptyBoot cart) :=
  ⟨_, .boot h _ _ _, .refl _⟩

end AdvancedSlop
