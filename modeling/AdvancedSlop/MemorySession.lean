/-
# The memory of a session

`Emu::load_state` (`src/core/emu.rs`) and the rewind ring (`src/core/rewind.rs`).  The field walk
overwrites what the guest sees; what the host derives from it is put right afterwards, in full
after a savestate, in part after a step back.

* `cartridgeDevices` : the save chip on the bus;
* `WalkedMemory` : what the walk covers, `walkOut` and `walkIn` : its two directions;
* `savestatePostLoad`, `rewindPostRestore` : what is put right;
* `MemSession.step` : the session as one machine;
* `BusStep` : what the bus leaves alone.
-/
import AdvancedSlop.Cartridge
import AdvancedSlop.MemoryRuns

namespace AdvancedSlop

open IndexedLoop TransitionSystem

/-! ## The cartridge on the bus -/

section Cartridge

variable {D : Type*}

/-- The devices with a save chip in the place of their own. -/
def cartridgeDevices (dev : MemDevices D) : MemDevices (Cartridge × D) where
  ioGbaRead width addr s :=
    let r := dev.ioGbaRead width addr s.2
    (r.1, (s.1, r.2))
  ioGbaWrite width addr value s :=
    let r := dev.ioGbaWrite width addr value s.2
    ((s.1, r.1), r.2)
  readGpData s := dev.readGpData s.2
  gpDirection s := dev.gpDirection s.2
  writeGpData value s := (s.1, dev.writeGpData value s.2)
  writeGpDirection value s := (s.1, dev.writeGpDirection value s.2)
  cartridgeReadEeprom s :=
    let r := s.1.readEeprom
    (r.1, (r.2, s.2))
  cartridgeWriteEeprom value s := (s.1.writeEeprom value, s.2)
  cartridgeReadSram addr s := s.1.readSram addr
  cartridgeWriteSram addr value s := (s.1.writeSram addr value, s.2)
  bgMode s := dev.bgMode s.2

/-- An operation that does not reach the save chip but over the bus. -/
def MemOp.withCartridge : MemOp D → MemOp (Cartridge × D)
  | .jit op => .jit op
  | .read width addr => .read width addr
  | .readSlice shmMemory width addr n => .readSlice shmMemory width addr n
  | .write width addr value => .write width addr value
  | .writeSlice width addr slice => .writeSlice width addr slice
  | .writeMemset width addr value size => .writeMemset width addr value size
  | .writeFixedSlice width addr slice => .writeFixedSlice width addr slice
  | .biosFetch value => .biosFetch value
  | .frameFinish => .frameFinish
  | .devices f => .devices (Prod.map id f)

/-! ## The walk -/

/-- `SAVESTATE_SHM_RANGE`. -/
def InSavestate (offset : Nat) : Prop :=
  ewramRegion.shmOffset ≤ offset ∧ offset < romRegion.shmOffset

instance (offset : Nat) : Decidable (InSavestate offset) := inferInstanceAs (Decidable (_ ∧ _))

/-- The walked fields.  The handle on the cartridge is skipped: the chip's contents and `has_rtc`
stay. -/
structure WalkedMemory (D : Type*) where
  shm : Nat → UInt8
  flash : FlashState
  eeprom : EepromState
  biosOpenBus : BitVec 32
  gpControl : BitVec 16
  devices : D

/-- The guest's memory with the cartridge. -/
abbrev CartMem (D : Type*) := GuestMem (Cartridge × D)

/-- `Emu::savestate` while saving. -/
def walkOut (m : CartMem D) : WalkedMemory D where
  shm := m.jit.shm
  flash := m.devices.1.flash
  eeprom := m.devices.1.eeprom
  biosOpenBus := m.biosOpenBus
  gpControl := m.gpControl
  devices := m.devices.2

/-- `Emu::savestate` while loading. -/
def CartMem.walkIn (data : WalkedMemory D) (m : CartMem D) : CartMem D :=
  { m with
    jit := { m.jit with
      shm := fun offset => if InSavestate offset then data.shm offset else m.jit.shm offset }
    biosOpenBus := data.biosOpenBus
    gpControl := data.gpControl
    devices := ({ m.devices.1 with flash := data.flash, eeprom := data.eeprom }, data.devices) }

/-! ## What is derived -/

/-- The read table of a cartridge: `update_all_arm7`, and `mmu_unmap_rom_head` for one with a
clock. -/
def mmuReadFor (cart : CartridgeIo) : Nat → Nat :=
  if cart.hasRtc then (mmuUnmapRomHead (updateAllArm7 cart)).mmuRead
  else (updateAllArm7 cart).mmuRead

/-- `mmu_update_all`. -/
def mmuUpdateAll (m : CartMem D) : CartMem D :=
  { m with
    mmuRead := (updateAllArm7 m.cart).mmuRead
    jit := { m.jit with mmuWrite := (updateAllArm7 m.cart).mmuWrite } }

/-- `mmu_unmap_rom_head` on the memory. -/
def unmapRomHead (m : CartMem D) : CartMem D :=
  { m with mmuRead := (mmuUnmapRomHead ⟨m.mmuRead, m.jit.mmuWrite⟩).mmuRead }

/-- `cartridge_savestate_post_load`. -/
def Cartridge.savestatePostLoad (cartridge : Cartridge) : Cartridge :=
  if cartridge.eeprom.size ≠ 0 ∧ cartridge.saveBuf.length ≠ cartridge.eeprom.size then
    { cartridge with saveBuf := resizeSaveBuf cartridge.saveBuf cartridge.eeprom.size }
  else cartridge

/-- All that the renderer copies. -/
def allDirty : BitVec 8 := dirtyBg ||| dirtyObj ||| dirtyPal ||| dirtyOam

/-- `savestate_post_load`. -/
def CartMem.savestatePostLoad (m : CartMem D) : CartMem D :=
  let m := mmuUpdateAll m
  let m := if m.cart.hasRtc then unmapRomHead m else m
  { m with
    devices := (m.devices.1.savestatePostLoad, m.devices.2)
    gpuMemDirty := allDirty
    jit := { m.jit with jit := jitInit } }

/-- `rewind_post_restore`. -/
def CartMem.rewindPostRestore (m : CartMem D) : CartMem D :=
  { m with
    gpuMemDirty := allDirty
    jit := { m.jit with jit := invalidateRamBlocks m.jit.jit } }

end Cartridge

/-! ## The session -/

/-- `Rewind`, without the spare buffers. -/
structure Rewind (D : Type*) where
  slots : List (WalkedMemory D)
  framesSinceSnapshot : Nat
  maxSlots : Nat

/-- `Rewind::clear`. -/
def Rewind.clear {D : Type*} (rewind : Rewind D) : Rewind D :=
  { rewind with slots := [], framesSinceSnapshot := 0 }

/-- `SNAPSHOT_INTERVAL`. -/
def snapshotInterval : Nat := 12

/-- `MEMORY_BUDGET`, but on the Vita. -/
def memoryBudget : Nat := 24 * 2 ^ 20

/-- `MIN_SLOTS`. -/
def minSlots : Nat := 4

/-- The memory and the rewind ring. -/
structure MemSession (D : Type*) where
  mem : CartMem D
  rewind : Rewind D

namespace MemSession

variable {D : Type*}

/-- `load_state`, of a file that decodes to `data`.  A walk that fails part-way has overwritten
the fields as well, so `data` stands for whatever it left in them. -/
def loadState (data : Option (WalkedMemory D)) (s : MemSession D) : MemSession D :=
  match data with
  | none => s
  | some data => ⟨(s.mem.walkIn data).savestatePostLoad, s.rewind.clear⟩

/-- `rewind_snapshot`; the first buffer's length gives the number of slots. -/
def rewindSnapshot (bufLen : Nat) (s : MemSession D) : MemSession D :=
  let maxSlots :=
    if s.rewind.maxSlots = 0 then max (memoryBudget / max bufLen 1) minSlots
    else s.rewind.maxSlots
  let slots := s.rewind.slots ++ [walkOut s.mem]
  { s with rewind := { s.rewind with
      slots := if maxSlots < slots.length then slots.tail else slots
      maxSlots := maxSlots } }

/-- `rewind_step_back`. -/
def rewindStepBack (s : MemSession D) : MemSession D :=
  match s.rewind.slots.getLast? with
  | none => s
  | some data =>
      ⟨(s.mem.walkIn data).rewindPostRestore,
        { s.rewind with slots := s.rewind.slots.dropLast, framesSinceSnapshot := 0 }⟩

/-- `rewind_on_frame`, by the setting and the held input. -/
def rewindOnFrame (setting held : Bool) (bufLen : Nat) (s : MemSession D) : MemSession D :=
  if !setting then
    if s.rewind.slots.isEmpty then s else { s with rewind := s.rewind.clear }
  else if held then s.rewindStepBack
  else
    let frames := s.rewind.framesSinceSnapshot + 1
    if snapshotInterval ≤ frames then
      rewindSnapshot bufLen { s with rewind := { s.rewind with framesSinceSnapshot := 0 } }
    else { s with rewind := { s.rewind with framesSinceSnapshot := frames } }

/-- What happens in a session: the game plays on, a file is loaded, the rewind hook runs. -/
inductive Op (D : Type*)
  | play (op : MemOp D)
  | loadState (data : Option (WalkedMemory D))
  | rewindOnFrame (setting held : Bool) (bufLen : Nat)

/-- One operation. -/
def step (dev : MemDevices D) (s : MemSession D) : Op D → Option (MemSession D)
  | .play op => (memStep (cartridgeDevices dev) s.mem op.withCartridge).map fun mem =>
      { s with mem := mem }
  | .loadState data => some (s.loadState data)
  | .rewindOnFrame setting held bufLen => some (s.rewindOnFrame setting held bufLen)

/-- The start of a game: the rom is loaded, `mmu_update_all` has run, the ring is empty. -/
structure Start (s : MemSession D) : Prop where
  loaded : s.mem.cart.Loaded
  mem : ∃ content shm gpControl devices, s.mem = memStart s.mem.cart false shm 0xE129F000 gpControl
    (Cartridge.load s.mem.cart.saveType content, devices)
  rewind : s.rewind.slots = [] ∧ s.rewind.framesSinceSnapshot = 0

/-- The operation loads a file. -/
def Loads : Op D → Prop
  | .loadState (some _) => True
  | _ => False

/-- The operation steps back. -/
def StepsBack (s : MemSession D) : Op D → Prop
  | .rewindOnFrame setting held _ => setting ∧ held ∧ s.rewind.slots ≠ []
  | _ => False

/-- The operation restores the guest's memory. -/
def Restores (s : MemSession D) (op : Op D) : Prop := Loads op ∨ s.StepsBack op

end MemSession

/-! ## What the bus leaves alone -/

/-- The read table stays that of the cartridge: nothing changes, or the clock is turned on. -/
def HeadMoves {D : Type*} (s t : GuestMem D) : Prop :=
  t.cart = s.cart ∧ t.mmuRead = s.mmuRead ∨
    s.cart.hasRtc = false ∧ t.cart = { s.cart with hasRtc := true } ∧
      t.mmuRead = (mmuUnmapRomHead ⟨s.mmuRead, s.jit.mmuWrite⟩).mmuRead

/-- A relation that every access to a device keeps. -/
structure MemDevices.Moves {D : Type*} (dev : MemDevices D) (R : D → D → Prop) : Prop where
  refl : ∀ d, R d d
  trans : ∀ d e f, R d e → R e f → R d f
  ioGbaRead : ∀ width addr d, R d (dev.ioGbaRead width addr d).2
  ioGbaWrite : ∀ width addr value d, R d (dev.ioGbaWrite width addr value d).1
  writeGpData : ∀ value d, R d (dev.writeGpData value d)
  writeGpDirection : ∀ value d, R d (dev.writeGpDirection value d)
  cartridgeReadEeprom : ∀ d, R d (dev.cartridgeReadEeprom d).2
  cartridgeWriteEeprom : ∀ value d, R d (dev.cartridgeWriteEeprom value d)
  cartridgeWriteSram : ∀ addr value d, R d (dev.cartridgeWriteSram addr value d)

/-- What a step on the bus does to the read table, the cartridge and the devices. -/
structure BusStep {D : Type*} (R : D → D → Prop) (s t : GuestMem D) : Prop where
  head : HeadMoves s t
  devices : R s.devices t.devices

section Bus

variable {D : Type*} {dev : MemDevices D} {R : D → D → Prop} {s t u : GuestMem D}

theorem HeadMoves.of_same (hcart : t.cart = s.cart) (hread : t.mmuRead = s.mmuRead) :
    HeadMoves s t :=
  .inl ⟨hcart, hread⟩

/-- Turning the clock on is the last change. -/
theorem HeadMoves.trans (h : HeadMoves s t) (h' : HeadMoves t u) : HeadMoves s u := by
  rcases h with ⟨hcart, hread⟩ | ⟨hoff, hcart, hread⟩
  · rcases h' with ⟨hcart', hread'⟩ | ⟨hoff', hcart', hread'⟩
    · exact .inl ⟨hcart'.trans hcart, hread'.trans hread⟩
    · refine .inr ⟨hcart ▸ hoff', by rw [hcart', hcart], ?_⟩
      rw [hread', hread]
      rfl
  · rcases h' with ⟨hcart', hread'⟩ | ⟨hoff', -⟩
    · exact .inr ⟨hoff, hcart'.trans hcart, hread'.trans hread⟩
    · rw [hcart] at hoff'
      cases hoff'

/-- A step that leaves cartridge, read table and devices alone. -/
theorem BusStep.of_same (h : dev.Moves R) (hcart : t.cart = s.cart) (hread : t.mmuRead = s.mmuRead)
    (hdevices : t.devices = s.devices) : BusStep R s t :=
  ⟨.of_same hcart hread, hdevices ▸ h.refl _⟩

theorem BusStep.trans (h : dev.Moves R) (hst : BusStep R s t) (htu : BusStep R t u) :
    BusStep R s u :=
  ⟨hst.head.trans htu.head, h.trans _ _ _ hst.devices htu.devices⟩

/-- A step of the devices. -/
theorem BusStep.withDevices {devices : D} (h : R s.devices devices) :
    BusStep R s { s with devices := devices } :=
  ⟨.of_same rfl rfl, h⟩

/-- A write to the rom. -/
theorem BusStep.writeRom (h : dev.Moves R) (width : MemWidth) (addr : Nat) (value : width.Value)
    (s : GuestMem D) : BusStep R s (MemoryIo.writeRom dev width addr value s) := by
  have henable : BusStep R s (cartridgeAutoEnableRtc s) := by
    unfold cartridgeAutoEnableRtc
    split_ifs with hrtc
    · exact .of_same h rfl rfl rfl
    · exact ⟨.inr ⟨by simpa using hrtc, rfl, rfl⟩, h.refl _⟩
  unfold MemoryIo.writeRom
  split_ifs
  · refine henable.trans h ?_
    unfold cartridgeWriteGpio
    split_ifs
    · exact .withDevices (h.writeGpData _ _)
    · exact .withDevices (h.writeGpDirection _ _)
    · exact .of_same h rfl rfl rfl
    · exact .of_same h rfl rfl rfl
  · exact .of_same h rfl rfl rfl

/-- The write handlers. -/
theorem BusStep.write (h : dev.Moves R) {width : MemWidth} {addr : Nat} {value : width.Value}
    (hstep : MemoryIo.write dev width addr value s = some t) : BusStep R s t := by
  rcases region_cases addr with hnone | hnone | hew | hiw | hio | hpal | hvram | hoam | hrom |
    heeprom | hsram
  · rw [write_none dev width s value (by omega)] at hstep
    obtain rfl := Option.some.inj hstep
    exact .of_same h rfl rfl rfl
  · rw [write_none dev width s value (by omega)] at hstep
    obtain rfl := Option.some.inj hstep
    exact .of_same h rfl rfl rfl
  · rw [write_ewram dev width s value hew] at hstep
    obtain rfl := Option.some.inj hstep
    exact .of_same h rfl rfl rfl
  · rw [write_iwramIo dev width s value hiw, MemoryIo.writeIwramIo] at hstep
    split_ifs at hstep
    obtain rfl := Option.some.inj hstep
    exact .of_same h rfl rfl rfl
  · rw [write_ioPorts dev width s value hio] at hstep
    obtain rfl := Option.some.inj hstep
    exact ⟨.of_same rfl rfl, h.ioGbaWrite _ _ _ _⟩
  · rw [write_palettes dev width s value hpal] at hstep
    obtain rfl := Option.some.inj hstep
    unfold MemoryIo.writePalettes
    simp only
    split_ifs <;> exact .of_same h rfl rfl rfl
  · rw [write_vram dev width s value hvram] at hstep
    obtain rfl := Option.some.inj hstep
    unfold MemoryIo.writeVram
    simp only
    split_ifs <;> exact .of_same h rfl rfl rfl
  · rw [write_oam dev width s value hoam] at hstep
    obtain rfl := Option.some.inj hstep
    unfold MemoryIo.writeOam
    split_ifs <;> exact .of_same h rfl rfl rfl
  · rw [write_rom dev width s value hrom] at hstep
    obtain rfl := Option.some.inj hstep
    exact .writeRom h width addr value s
  · rw [write_romEeprom dev width s value heeprom] at hstep
    obtain rfl := Option.some.inj hstep
    unfold MemoryIo.writeRomEeprom
    split_ifs
    · exact .withDevices (h.cartridgeWriteEeprom _ _)
    · exact .of_same h rfl rfl rfl
  · rw [write_sram dev width s value hsram] at hstep
    obtain rfl := Option.some.inj hstep
    exact .withDevices (h.cartridgeWriteSram _ _ _)

/-- The read handlers. -/
theorem BusStep.read (h : dev.Moves R) (width : MemWidth) (addr : Nat) (s : GuestMem D) :
    BusStep R s (MemoryIo.read dev width addr s).2 := by
  have hsame : BusStep R s s := .of_same h rfl rfl rfl
  rcases region_cases addr with hr | hr | hr | hr | hr | hr | hr | hr | hr | hr | hr
  · rwa [read_bios dev width s hr]
  · rwa [read_openBus dev width s hr]
  · rwa [read_ewram dev width s hr]
  · rwa [read_iwram dev width s hr]
  · rw [read_ioPorts dev width s hr]
    exact .withDevices (h.ioGbaRead _ _ _)
  · rwa [read_palettes dev width s hr]
  · rwa [read_vram dev width s hr]
  · rwa [read_oam dev width s hr]
  · rwa [read_rom dev width s hr]
  · rw [read_romEeprom dev width s hr, MemoryIo.readRomEeprom]
    split_ifs
    · exact .withDevices (h.cartridgeReadEeprom _)
    · exact hsame
  · rwa [read_sram dev width s hr]

/-- A copy to the shared memory. -/
theorem BusStep.copyToShm (h : dev.Moves R) {width : MemWidth} {offset : Nat}
    {slice : List width.Value} (hstep : copyToShm width offset slice s = some t) :
    BusStep R s t := by
  unfold AdvancedSlop.copyToShm at hstep
  split_ifs at hstep
  obtain rfl := Option.some.inj hstep
  exact .of_same h rfl rfl rfl

/-- A loop of handlers. -/
theorem BusStep.writeEach {α : Type*} (h : dev.Moves R)
    {write : Nat → α → GuestMem D → Option (GuestMem D)} {i : Nat} {values : List α}
    (hwrite : ∀ i value s t, write i value s = some t → BusStep R s t)
    (hstep : IndexedLoop.writeEach write i values s = some t) : BusStep R s t :=
  writeEach_invariant (I := BusStep R s)
    (fun i value _ _ hs ht => hs.trans h (hwrite i value _ _ ht)) (.of_same h rfl rfl rfl) hstep

/-- **Every operation on the memory** but a change of the devices from outside. -/
theorem BusStep.step (h : dev.Moves R) {op : MemOp D}
    (hop : ∀ f, op = .devices f → ∀ d, R d (f d)) (hstep : memStep dev s op = some t) :
    BusStep R s t := by
  cases op with
  | jit op =>
      obtain ⟨jit, -, rfl⟩ := Option.map_eq_some_iff.mp hstep
      exact .of_same h rfl rfl rfl
  | read width addr =>
      obtain rfl := Option.some.inj hstep
      unfold memRead
      simp only
      split_ifs
      · exact .of_same h rfl rfl rfl
      · exact .read h width _ s
  | readSlice shmMemory width addr n =>
      obtain ⟨r, hr, rfl⟩ := Option.map_eq_some_iff.mp hstep
      unfold memReadMultipleSlice at hr
      simp only at hr
      split_ifs at hr
      · obtain rfl := Option.some.inj hr
        exact .of_same h rfl rfl rfl
      · obtain rfl := Option.some.inj hr
        exact readEach_invariant (I := BusStep R s)
          (fun _ _ hs => hs.trans h (.read h width _ _)) (.of_same h rfl rfl rfl)
  | write width addr value =>
      simp only [memStep, memWrite] at hstep
      split_ifs at hstep
      · obtain rfl := Option.some.inj hstep
        exact .of_same h rfl rfl rfl
      · exact .write h hstep
  | writeSlice width addr slice =>
      simp only [memStep, memWriteMultipleSlice] at hstep
      split_ifs at hstep
      · exact .copyToShm h hstep
      · exact .writeEach h (fun _ _ _ _ ht => .write h ht) hstep
  | writeMemset width addr value size =>
      simp only [memStep, memWriteMultipleMemset] at hstep
      split_ifs at hstep
      · exact .copyToShm h hstep
      · exact .writeEach h (fun _ _ _ _ ht => .write h ht) hstep
  | writeFixedSlice width addr slice =>
      simp only [memStep, memWriteFixedSlice] at hstep
      split_ifs at hstep
      · obtain ⟨value, -, rfl⟩ := Option.map_eq_some_iff.mp hstep
        exact .of_same h rfl rfl rfl
      · exact .writeEach h (fun _ _ _ _ ht => .write h ht) hstep
  | biosFetch value =>
      simp only [memStep] at hstep
      split_ifs at hstep
      obtain rfl := Option.some.inj hstep
      exact .of_same h rfl rfl rfl
  | frameFinish =>
      obtain rfl := Option.some.inj hstep
      exact .of_same h rfl rfl rfl
  | devices f =>
      obtain rfl := Option.some.inj hstep
      exact .withDevices (hop f rfl _)

end Bus

end AdvancedSlop
