/-
# The save chips of the cartridge

`src/core/memory/cartridge.rs`: the byte-wide window of SRAM and flash chips, and the bit-serial
EEPROM.

* `Cartridge.readSram`, `Cartridge.writeSram` : the byte-wide window;
* `Cartridge.writeFlash` : the command state machine of the flash chip;
* `Cartridge.readEeprom`, `Cartridge.writeEeprom` : the bit counter of the EEPROM.
-/
import AdvancedSlop.SaveBuffer

namespace AdvancedSlop

/-! ## The data -/

/-- `FlashState`. -/
structure FlashState where
  cmdStage : Nat
  idMode : Bool
  eraseMode : Bool
  writeMode : Bool
  bankMode : Bool
  bank : BitVec 8
  deriving DecidableEq, Repr

/-- `FlashState::default`. -/
def FlashState.default : FlashState := ⟨0, false, false, false, false, 0⟩

/-- `EepromState`. -/
structure EepromState where
  count : Nat
  cmd : BitVec 16
  data : BitVec 64
  done : Bool
  size : Nat
  deriving DecidableEq, Repr

/-- `EepromState::default`. -/
def EepromState.default : EepromState := ⟨0, 0, 0, false, 0⟩

/-- `Cartridge`, with the save type and the save buffer of its `io`. -/
structure Cartridge where
  saveType : SaveType
  saveBuf : SaveBuf
  flash : FlashState
  eeprom : EepromState

/-- The cartridge after `set_cartridge_io` and the load of its save file. -/
def Cartridge.load (saveType : SaveType) (content : List (BitVec 8)) : Cartridge where
  saveType := saveType
  saveBuf := loadSaveBuf saveType content
  flash := FlashState.default
  eeprom := EepromState.default

/-! ## SRAM and flash -/

/-- The erase loops: `n` bytes from `base` on. -/
def eraseRange (saveBuf : SaveBuf) (base n : Nat) : SaveBuf :=
  (List.range n).foldl (fun saveBuf i => writeSaveBuf saveBuf (base + i) 0xFF) saveBuf

/-- The commands that set a flag. -/
def FlashState.flagCommand (flash : FlashState) (is128k : Bool) (value : BitVec 8) : FlashState :=
  if value = 0x90 then { flash with idMode := true }
  else if value = 0xF0 then { flash with idMode := false }
  else if value = 0xA0 then { flash with writeMode := true }
  else if value = 0x80 then { flash with eraseMode := true }
  else if value = 0xB0 ∧ is128k then { flash with bankMode := true }
  else flash

namespace Cartridge

/-- `cartridge_read_sram`. -/
def readSram (cartridge : Cartridge) (addr : Nat) : BitVec 8 :=
  let offset := addr % 0x10000
  match cartridge.saveType with
  | .none | .eeprom => 0xFF
  | .sram => readSaveBuf cartridge.saveBuf (offset % 0x8000)
  | .flash64k | .flash128k =>
      if cartridge.flash.idMode then
        if offset = 0 then 0xC2
        else if offset = 1 then (if cartridge.saveType = .flash128k then 0x09 else 0x1C)
        else 0xFF
      else readSaveBuf cartridge.saveBuf (cartridge.flash.bank.toNat * 0x10000 + offset)

/-- The third write of a command sequence. -/
def flashCommand (cartridge : Cartridge) (offset : Nat) (value : BitVec 8) : Cartridge :=
  let flash := { cartridge.flash with cmdStage := 0, eraseMode := false }
  if cartridge.flash.eraseMode ∧ offset = 0x5555 ∧ value = 0x10 then
    -- the whole chip
    { cartridge with
      flash := flash
      saveBuf := eraseRange cartridge.saveBuf 0 cartridge.saveBuf.length }
  else if cartridge.flash.eraseMode ∧ value = 0x30 then
    -- one sector of 4K
    { cartridge with
      flash := flash
      saveBuf := eraseRange cartridge.saveBuf
        (flash.bank.toNat * 0x10000 + offset / 0x1000 * 0x1000) 0x1000 }
  else { cartridge with flash := flash.flagCommand (cartridge.saveType = .flash128k) value }

/-- The writes of a command sequence, by the stage it has reached. -/
def flashSequence (cartridge : Cartridge) (offset : Nat) (value : BitVec 8) : Cartridge :=
  let flash := cartridge.flash
  match flash.cmdStage with
  | 0 =>
      if offset = 0x5555 ∧ value = 0xAA then { cartridge with flash := { flash with cmdStage := 1 } }
      else cartridge
  | 1 =>
      { cartridge with
        flash := { flash with cmdStage := if offset = 0x2AAA ∧ value = 0x55 then 2 else 0 } }
  | _ => cartridge.flashCommand offset value

/-- `cartridge_write_flash`. -/
def writeFlash (cartridge : Cartridge) (offset : Nat) (value : BitVec 8) : Cartridge :=
  let flash := cartridge.flash
  if flash.writeMode then
    { cartridge with
      flash := { flash with writeMode := false }
      saveBuf := writeSaveBuf cartridge.saveBuf (flash.bank.toNat * 0x10000 + offset) value }
  else if flash.bankMode ∧ offset = 0 then
    { cartridge with
      flash := { flash with
        bank := value &&& (if cartridge.saveType = .flash128k then 1 else 0)
        bankMode := false } }
  else cartridge.flashSequence offset value

/-- `cartridge_write_sram`. -/
def writeSram (cartridge : Cartridge) (addr : Nat) (value : BitVec 8) : Cartridge :=
  let offset := addr % 0x10000
  match cartridge.saveType with
  | .none | .eeprom => cartridge
  | .sram => { cartridge with saveBuf := writeSaveBuf cartridge.saveBuf (offset % 0x8000) value }
  | .flash64k | .flash128k => cartridge.writeFlash offset value

end Cartridge

/-! ## EEPROM -/

namespace EepromState

/-- The bits of a command. -/
def commandLength (eeprom : EepromState) : Nat := if eeprom.size = 0x200 then 8 else 16

/-- The two leading bits of the command. -/
def opcode (eeprom : EepromState) : BitVec 16 := (eeprom.cmd &&& 0xC000) >>> 14

/-- The block the command addresses. -/
def addr (eeprom : EepromState) : Nat :=
  if eeprom.size = 0x200 then ((eeprom.cmd &&& 0x3F00) >>> 8).toNat
  else (eeprom.cmd &&& 0x03FF).toNat

end EepromState

namespace Cartridge

/-- The first read reveals the size of the chip by the number of command bits before it. -/
def detectEeprom (cartridge : Cartridge) : Cartridge :=
  if cartridge.eeprom.size = 0 then
    let size := if cartridge.eeprom.count = 9 then 0x200 else 0x2000
    { cartridge with
      eeprom := { cartridge.eeprom with size := size }
      saveBuf := resizeSaveBuf cartridge.saveBuf size }
  else cartridge

/-- `cartridge_read_eeprom`. -/
def readEeprom (cartridge : Cartridge) : BitVec 16 × Cartridge :=
  let cartridge := cartridge.detectEeprom
  let eeprom := cartridge.eeprom
  let length := eeprom.commandLength
  if eeprom.opcode = 3 ∧ length + 1 ≤ eeprom.count then
    let count := eeprom.count + 1
    if length + 6 ≤ count then
      let bit := 63 - (count - (length + 6))
      let value := (readSaveBuf cartridge.saveBuf (eeprom.addr * 8 + bit / 8)).getLsbD (bit % 8)
      (if value then 1 else 0,
        { cartridge with
          eeprom :=
            if length + 69 ≤ count then { EepromState.default with size := eeprom.size }
            else { eeprom with count := count } })
    else (0, { cartridge with eeprom := { eeprom with count := count } })
  else if eeprom.done then (1, cartridge)
  else (0, cartridge)

/-- A write that comes first cannot reveal the size of the chip and takes it for the large one. -/
def assumeEeprom (cartridge : Cartridge) : Cartridge :=
  if cartridge.eeprom.size = 0 then
    { cartridge with
      eeprom := { cartridge.eeprom with size := 0x2000 }
      saveBuf := resizeSaveBuf cartridge.saveBuf 0x2000 }
  else cartridge

/-- The store at the end of a write request. -/
def storeEeprom (cartridge : Cartridge) (data : BitVec 64) : Cartridge :=
  let cartridge := cartridge.assumeEeprom
  { cartridge with
    saveBuf := (List.range 8).foldl (fun saveBuf i =>
      writeSaveBuf saveBuf (cartridge.eeprom.addr * 8 + i) ((data >>> (i * 8)).setWidth 8))
      cartridge.saveBuf
    eeprom := { EepromState.default with size := cartridge.eeprom.size, done := true } }

/-- `cartridge_write_eeprom`. -/
def writeEeprom (cartridge : Cartridge) (value : BitVec 16) : Cartridge :=
  let eeprom := { cartridge.eeprom with done := false }
  let length := eeprom.commandLength
  let count := eeprom.count + 1
  if eeprom.count < length then
    { cartridge with
      eeprom := { eeprom with
        count := count
        cmd := eeprom.cmd ||| ((value &&& 1) <<< (16 - count)) } }
  else if eeprom.opcode = 3 then
    -- the bit that ends a read request
    { cartridge with
      eeprom := if eeprom.count < length + 1 then { eeprom with count := count } else eeprom }
  else if eeprom.opcode = 2 then
    let data :=
      if count ≤ length + 64 then
        eeprom.data ||| (((value &&& 1).setWidth 64) <<< (length + 64 - count))
      else eeprom.data
    let cartridge := { cartridge with eeprom := { eeprom with count := count, data := data } }
    if length + 65 ≤ count then cartridge.storeEeprom data else cartridge
  else { cartridge with eeprom := eeprom }

end Cartridge

end AdvancedSlop
