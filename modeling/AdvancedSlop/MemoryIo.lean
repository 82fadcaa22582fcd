/-
# The guest memory

`src/core/memory/mem.rs`: an access whose page has an entry in the mmu table goes to the shared
memory; every other one goes to the handler of its region.

* `GuestMem`, `MemDevices` : the memory, and the devices its handlers call;
* `MemoryIo.read`, `MemoryIo.write` : the handlers;
* `memRead`, `memWrite` : one access;
* `memReadMultipleSlice`, `memWriteMultipleSlice`, `memWriteMultipleMemset`, `memReadFixedSlice`,
  `memWriteFixedSlice` : the bulk accesses.

The const parameter `TCM` picks between two equal tables and is left out.  A result `none` stands
for an access outside the host's tables.
-/
import AdvancedSlop.JitMemory
import AdvancedSlop.IndexedLoop
import AdvancedSlop.WordMemory

namespace AdvancedSlop

open IndexedLoop WordMemory

/-! ## The data -/

/-- The devices on the bus.  A write to an io port may also end the running slice. -/
structure MemDevices (D : Type*) where
  ioGbaRead : (width : MemWidth) → Nat → D → width.Value × D
  ioGbaWrite : (width : MemWidth) → Nat → width.Value → D → D × Bool
  readGpData : D → BitVec 16
  gpDirection : D → BitVec 16
  writeGpData : BitVec 16 → D → D
  writeGpDirection : BitVec 16 → D → D
  cartridgeReadEeprom : D → BitVec 16 × D
  cartridgeWriteEeprom : BitVec 16 → D → D
  cartridgeReadSram : Nat → D → BitVec 8
  cartridgeWriteSram : Nat → BitVec 8 → D → D
  bgMode : D → BitVec 3

/-- What memory accesses read and change.  `jit` holds the shared memory and the write table,
`cart` is `cartridge.io`. -/
structure GuestMem (D : Type*) where
  jit : JitMachine
  mmuRead : Nat → Nat
  cart : CartridgeIo
  gpuMemDirty : BitVec 8
  biosOpenBus : BitVec 32
  gpControl : BitVec 16
  devices : D

/-- `TOTAL_MEM_SIZE`. -/
def totalMemSize : Nat := 0x206C000

/-- `PALETTES_SIZE` and `OAM_SIZE`. -/
def palettesSize : Nat := 1024

/-- `rom_oob_pattern`. -/
def romOobPattern (addr : Nat) : BitVec 32 :=
  BitVec.ofNat 32 (addr / 2 % 0x10000 ||| (((addr + 2) / 2 % 0x10000) <<< 16))

/-- The dirty bits of the renderer. -/
def dirtyBg : BitVec 8 := 1
def dirtyObj : BitVec 8 := 2
def dirtyPal : BitVec 8 := 4
def dirtyOam : BitVec 8 := 8

variable {D : Type*}

namespace GuestMem

/-- Other contents of the shared memory. -/
def withShm (s : GuestMem D) (shm : Nat → UInt8) : GuestMem D :=
  { s with jit := { s.jit with shm := shm } }

/-- A read of the shared memory. -/
def load (s : GuestMem D) (width : MemWidth) (offset : Nat) : width.Value :=
  readFromMem width s.jit.shm offset

/-- A store into the shared memory. -/
def store (s : GuestMem D) (width : MemWidth) (offset : Nat) (value : width.Value) : GuestMem D :=
  s.withShm (writeToMem width s.jit.shm offset value)

/-- Sets dirty bits. -/
def markDirty (s : GuestMem D) (bits : BitVec 8) : GuestMem D :=
  { s with gpuMemDirty := s.gpuMemDirty ||| bits }

/-- `is_gpio_addr`. -/
def isGpioAddr (s : GuestMem D) (addr : Nat) : Bool :=
  s.cart.hasRtc && decide (0x080000C4 ≤ addr ∧ addr < 0x080000CA)

/-- `cartridge_is_eeprom`. -/
def cartridgeIsEeprom (s : GuestMem D) (addr : Nat) : Bool :=
  decide (s.cart.saveType = .eeprom) &&
    if s.cart.romLen > 16 * 1024 * 1024 then decide (0x0DFFFF00 ≤ addr)
    else decide (0x0D000000 ≤ addr ∧ addr < 0x0E000000)

/-- The offset of an address in the rom. -/
def romOffset (s : GuestMem D) (addr : Nat) : Nat := (addr % 0x2000000) &&& s.cart.romMask

end GuestMem

variable (dev : MemDevices D)

/-- `vram_obj_start`. -/
def vramObjStart (s : GuestMem D) : Nat :=
  if 3 ≤ (dev.bgMode s.devices).toNat then 0x14000 else 0x10000

/-! ## The general purpose port -/

/-- `cartridge_read_gpio`. -/
def cartridgeReadGpio (addr : Nat) (s : GuestMem D) : BitVec 16 :=
  if s.gpControl.getLsbD 0 = false then
    if s.romOffset addr + 1 < s.cart.romLen then
      s.load .half (romRegion.shmOffset + s.romOffset addr)
    else 0
  else if addr % 16 = 4 then dev.readGpData s.devices
  else if addr % 16 = 6 then dev.gpDirection s.devices
  else if addr % 16 = 8 then s.gpControl
  else 0

/-- `cartridge_write_gpio`. -/
def cartridgeWriteGpio (addr : Nat) (value : BitVec 16) (s : GuestMem D) : GuestMem D :=
  if addr % 16 = 4 then { s with devices := dev.writeGpData value s.devices }
  else if addr % 16 = 6 then { s with devices := dev.writeGpDirection value s.devices }
  else if addr % 16 = 8 then
    { s with gpControl := (s.gpControl &&& ~~~1#16) ||| (value &&& 1#16) }
  else s

/-- `cartridge_auto_enable_rtc`. -/
def cartridgeAutoEnableRtc (s : GuestMem D) : GuestMem D :=
  if s.cart.hasRtc then s
  else
    { s with
      cart := { s.cart with hasRtc := true }
      mmuRead := (mmuUnmapRomHead ⟨s.mmuRead, s.jit.mmuWrite⟩).mmuRead }

/-! ## The handlers -/

namespace MemoryIo

variable (width : MemWidth)

/-- `read_bios`. -/
def readBios (addr : Nat) (s : GuestMem D) : width.Value :=
  if addr < 0x4000 then (s.biosOpenBus >>> ((addr &&& (4 - width.bytes)) <<< 3)).setWidth _ else 0

/-- `read_rom`. -/
def readRom (addr : Nat) (s : GuestMem D) : width.Value :=
  if s.isGpioAddr addr then (cartridgeReadGpio dev addr s).setWidth _
  else if s.romOffset addr < s.cart.romLen then
    s.load width (romRegion.shmOffset + s.romOffset addr)
  else (romOobPattern addr).setWidth _

/-- `read_rom_eeprom`. -/
def readRomEeprom (addr : Nat) (s : GuestMem D) : width.Value × GuestMem D :=
  if s.cartridgeIsEeprom addr then
    let r := dev.cartridgeReadEeprom s.devices
    (r.1.setWidth _, { s with devices := r.2 })
  else (readRom dev width addr s, s)

/-- `read_io_ports`. -/
def readIoPorts (addr : Nat) (s : GuestMem D) : width.Value × GuestMem D :=
  let r := dev.ioGbaRead width (addr % 0x1000000) s.devices
  (r.1, { s with devices := r.2 })

/-- `read_sram`: the byte in every lane. -/
def readSram (addr : Nat) (s : GuestMem D) : width.Value :=
  ((dev.cartridgeReadSram addr s.devices).setWidth 32 * 0x01010101).setWidth _

/-- `MemoryIo::read`, by the region of the address. -/
def read (addr : Nat) (s : GuestMem D) : width.Value × GuestMem D :=
  let nibble := addr / 0x1000000 % 16
  if nibble = 0 then (readBios width addr s, s)
  else if nibble = 1 then (0, s)
  else if nibble = 2 then (s.load width (ewramRegion.shmOffset + addr % ewramRegion.size), s)
  else if nibble = 3 then (s.load width (iwramRegion.shmOffset + addr % iwramRegion.size), s)
  else if nibble = 4 then readIoPorts dev width addr s
  else if nibble = 5 then (s.load width (palettesRegion.shmOffset + addr % palettesSize), s)
  else if nibble = 6 then (s.load width (vramRegion.shmOffset + vramOffset addr), s)
  else if nibble = 7 then (s.load width (oamRegion.shmOffset + addr % palettesSize), s)
  else if nibble < 13 then (readRom dev width addr s, s)
  else if nibble = 13 then readRomEeprom dev width addr s
  else (readSram dev width addr s, s)

/-- `write_iwram`.  The live ranges have an entry for the addresses of the bus only. -/
def writeIwramIo (addr : Nat) (value : width.Value) (s : GuestMem D) : Option (GuestMem D) :=
  if s.load width (iwramRegion.shmOffset + addr % iwramRegion.size) = value ∨ addr < 0x10000000 then
    some { s with jit := writeIwram addr width value s.jit }
  else none

/-- `write_io_ports`. -/
def writeIoPorts (addr : Nat) (value : width.Value) (s : GuestMem D) : GuestMem D :=
  let r := dev.ioGbaWrite width (addr % 0x1000000) value s.devices
  { s with
    devices := r.1
    jit := { s.jit with breakoutImm := s.jit.breakoutImm || r.2 } }

/-- A byte twice: `u16::from_le_bytes([value, value])`. -/
def byteTwice (value : width.Value) : MemWidth.half.Value :=
  (value.setWidth 8 ++ value.setWidth 8 : BitVec 16)

/-- `write_palettes`. -/
def writePalettes (addr : Nat) (value : width.Value) (s : GuestMem D) : GuestMem D :=
  let s := s.markDirty dirtyPal
  let offset := addr % palettesSize
  if width = .byte then s.store .half (palettesRegion.shmOffset + offset / 2 * 2) (byteTwice width value)
  else s.store width (palettesRegion.shmOffset + offset) value

/-- `write_vram`. -/
def writeVram (addr : Nat) (value : width.Value) (s : GuestMem D) : GuestMem D :=
  let offset := vramOffset addr
  let s := s.markDirty (if offset < 0x10000 then dirtyBg else dirtyObj)
  if width = .byte then
    if vramObjStart dev s ≤ offset then s
    else s.store .half (vramRegion.shmOffset + offset / 2 * 2) (byteTwice width value)
  else s.store width (vramRegion.shmOffset + offset) value

/-- `write_oam`. -/
def writeOam (addr : Nat) (value : width.Value) (s : GuestMem D) : GuestMem D :=
  if width = .byte then s
  else (s.markDirty dirtyOam).store width (oamRegion.shmOffset + addr % palettesSize) value

/-- `write_rom`. -/
def writeRom (addr : Nat) (value : width.Value) (s : GuestMem D) : GuestMem D :=
  if 0x080000C4 ≤ addr ∧ addr < 0x080000CA then
    cartridgeWriteGpio dev addr (value.setWidth 16) (cartridgeAutoEnableRtc s)
  else s

/-- `write_rom_eeprom`. -/
def writeRomEeprom (addr : Nat) (value : width.Value) (s : GuestMem D) : GuestMem D :=
  if s.cartridgeIsEeprom addr then
    { s with devices := dev.cartridgeWriteEeprom (value.setWidth 16) s.devices }
  else s

/-- `write_sram`: the byte of the lane. -/
def writeSram (addr : Nat) (value : width.Value) (s : GuestMem D) : GuestMem D :=
  let rotated := value.setWidth 32 >>> ((addr &&& (width.bytes - 1)) <<< 3)
  { s with devices := dev.cartridgeWriteSram addr (rotated.setWidth 8) s.devices }

/-- `MemoryIo::write`, by the region of the address. -/
def write (addr : Nat) (value : width.Value) (s : GuestMem D) : Option (GuestMem D) :=
  let nibble := addr / 0x1000000 % 16
  if nibble = 0 ∨ nibble = 1 then some s
  else if nibble = 2 then
    some (s.store width (ewramRegion.shmOffset + addr % ewramRegion.size) value)
  else if nibble = 3 then writeIwramIo width addr value s
  else if nibble = 4 then some (writeIoPorts dev width addr value s)
  else if nibble = 5 then some (writePalettes width addr value s)
  else if nibble = 6 then some (writeVram dev width addr value s)
  else if nibble = 7 then some (writeOam width addr value s)
  else if nibble < 13 then some (writeRom dev width addr value s)
  else if nibble = 13 then some (writeRomEeprom dev width addr value s)
  else some (writeSram dev width addr value s)

end MemoryIo

/-! ## Single accesses -/

/-- The address an access is made at. -/
def alignedAddr (width : MemWidth) (addr : Nat) : Nat :=
  addr / width.bytes * width.bytes % 0x10000000

/-- `get_shm_offset`. -/
def getShmOffset (mmu : Nat → Nat) (addr : Nat) : Nat :=
  if mmu (addr / 4096) ≠ 0 then mmu (addr / 4096) + addr % 4096 else 0

/-- `mem_read`. -/
def memRead (width : MemWidth) (addr : Nat) (s : GuestMem D) : width.Value × GuestMem D :=
  let alignedAddr := alignedAddr width addr
  let shmOffset := getShmOffset s.mmuRead alignedAddr
  if shmOffset ≠ 0 then (s.load width shmOffset, s) else MemoryIo.read dev width alignedAddr s

/-- `mem_write`. -/
def memWrite (width : MemWidth) (addr : Nat) (value : width.Value) (s : GuestMem D) :
    Option (GuestMem D) :=
  let alignedAddr := alignedAddr width addr
  let shmOffset := getShmOffset s.jit.mmuWrite alignedAddr
  if shmOffset ≠ 0 then some (s.store width shmOffset value)
  else MemoryIo.write dev width alignedAddr value s

/-- The in-order single reads of `n` elements. -/
def memReads (width : MemWidth) (addr n : Nat) (s : GuestMem D) : List width.Value × GuestMem D :=
  readEach (fun i => memRead dev width (addr + i * width.bytes)) 0 n s

/-- The in-order single writes of the elements of a slice. -/
def memWrites (width : MemWidth) (addr : Nat) (slice : List width.Value) (s : GuestMem D) :
    Option (GuestMem D) :=
  writeEach (fun i => memWrite dev width (addr + i * width.bytes)) 0 slice s

/-! ## Bulk accesses -/

/-- The address of an element of a slice, in 32 bits. -/
def elementAddr (width : MemWidth) (addr i : Nat) : Nat := (addr + i * width.bytes) % 0x100000000

/-- `MemoryMultipleSliceIo::read`. -/
def MemoryMultipleSliceIo.read (width : MemWidth) (addr n : Nat) (s : GuestMem D) :
    List width.Value × GuestMem D :=
  readEach (fun i => MemoryIo.read dev width (elementAddr width addr i)) 0 n s

/-- `MemoryMultipleSliceIo::write`. -/
def MemoryMultipleSliceIo.write (width : MemWidth) (addr : Nat) (slice : List width.Value)
    (s : GuestMem D) : Option (GuestMem D) :=
  writeEach (fun i => MemoryIo.write dev width (elementAddr width addr i)) 0 slice s

/-- `MemoryMultipleMemsetIo::write`. -/
def MemoryMultipleMemsetIo.write (width : MemWidth) (addr : Nat) (value : width.Value) (size : Nat)
    (s : GuestMem D) : Option (GuestMem D) :=
  writeEach (fun i (_ : Unit) => MemoryIo.write dev width (elementAddr width addr i) value) 0
    (List.replicate size ()) s

/-- `MemoryFixedSliceIo::write`; the io ports' own loop does the same. -/
def MemoryFixedSliceIo.write (width : MemWidth) (addr : Nat) (slice : List width.Value)
    (s : GuestMem D) : Option (GuestMem D) :=
  writeEach (fun _ => MemoryIo.write dev width addr) 0 slice s

/-- `mem_read_multiple_slice`, of `n` elements. -/
def memReadMultipleSlice (shmMemory : Bool) (width : MemWidth) (addr n : Nat) (s : GuestMem D) :
    Option (List width.Value × GuestMem D) :=
  let alignedAddr := alignedAddr width addr
  let shmOffset := getShmOffset s.mmuRead alignedAddr
  if shmMemory ∧ shmOffset ≠ 0 then
    if shmOffset + n * width.bytes ≤ totalMemSize then
      some (readWords width.bytes s.jit.shm shmOffset n, s)
    else none
  else some (MemoryMultipleSliceIo.read dev width alignedAddr n s)

/-- The loop over the later pages of a slice of `size` bytes: all of them are writable. -/
def allWritable (mmuWrite : Nat → Nat) (alignedAddr size : Nat) : Bool :=
  let last := ((alignedAddr + size) % 0x100000000 + 0xFFFFFFFF) % 0x100000000
  (stepBy (alignedAddr / 4096 * 4096 + 4096) (last + 1) 4096).all fun page =>
    decide (getShmOffset mmuWrite page ≠ 0)

/-- A copy of a run of elements to an offset of the shared memory. -/
def copyToShm (width : MemWidth) (shmOffset : Nat) (slice : List width.Value) (s : GuestMem D) :
    Option (GuestMem D) :=
  if shmOffset + slice.length * width.bytes ≤ totalMemSize then
    some (s.withShm (writeWords width.bytes s.jit.shm shmOffset slice))
  else none

/-- `mem_write_multiple_slice`. -/
def memWriteMultipleSlice (width : MemWidth) (addr : Nat) (slice : List width.Value)
    (s : GuestMem D) : Option (GuestMem D) :=
  let alignedAddr := alignedAddr width addr
  let shmOffset := getShmOffset s.jit.mmuWrite alignedAddr
  if shmOffset ≠ 0 ∧ allWritable s.jit.mmuWrite alignedAddr (slice.length * width.bytes) then
    copyToShm width shmOffset slice s
  else MemoryMultipleSliceIo.write dev width alignedAddr slice s

/-- `mem_write_multiple_memset`. -/
def memWriteMultipleMemset (width : MemWidth) (addr : Nat) (value : width.Value) (size : Nat)
    (s : GuestMem D) : Option (GuestMem D) :=
  let alignedAddr := alignedAddr width addr
  let shmOffset := getShmOffset s.jit.mmuWrite alignedAddr
  if shmOffset ≠ 0 then copyToShm width shmOffset (List.replicate size value) s
  else MemoryMultipleMemsetIo.write dev width alignedAddr value size s

/-- `mem_read_fixed_slice`: one read for all `n` elements. -/
def memReadFixedSlice (width : MemWidth) (addr n : Nat) (s : GuestMem D) :
    List width.Value × GuestMem D :=
  let r := memRead dev width addr s
  (List.replicate n r.1, r.2)

/-- `mem_write_fixed_slice`.  The slice has an element. -/
def memWriteFixedSlice (width : MemWidth) (addr : Nat) (slice : List width.Value)
    (s : GuestMem D) : Option (GuestMem D) :=
  let alignedAddr := alignedAddr width addr
  let shmOffset := getShmOffset s.jit.mmuWrite alignedAddr
  if shmOffset ≠ 0 then slice.getLast?.map fun value => s.store width shmOffset value
  else MemoryFixedSliceIo.write dev width alignedAddr slice s

end AdvancedSlop
