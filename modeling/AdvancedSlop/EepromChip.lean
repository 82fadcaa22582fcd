/-
# EEPROM round trip

The EEPROM takes its requests one bit at a time and counts them: a command, then 64 data bits and
a stop bit for a write, a stop bit for a read.

* `IdleEeprom` : the chip of a known size between two requests;
* `IdleEeprom.writeRequest` : a write request stores its word in its block and leaves the others;
* `IdleEeprom.transfer` : a request does to the chip what it does to an array of words;
* `eeprom_array` : any sequence of requests behaves like an array of words.
-/
import AdvancedSlop.Cartridge
import AdvancedSlop.SerialWord

namespace AdvancedSlop

open SerialWord

/-! ## Chips and requests -/

/-- The two chips. -/
inductive EepromChip
  | small
  | large
  deriving DecidableEq, Repr

namespace EepromChip

/-- The bytes of the chip. -/
def size : EepromChip → Nat
  | small => 0x200
  | large => 0x2000

/-- The address bits of a command. -/
def addressBits : EepromChip → Nat
  | small => 6
  | large => 14

/-- The blocks of the chip. -/
def blocks : EepromChip → Nat
  | small => 64
  | large => 1024

/-- The bits of a command. -/
def commandLength (chip : EepromChip) : Nat := chip.addressBits + 2

end EepromChip

/-- A request; a block is addressed by the low bits of `address`. -/
inductive EepromRequest (chip : EepromChip)
  | write (address : BitVec chip.addressBits) (data : BitVec 64) (stop : Bool)
  | read (address : BitVec chip.addressBits) (stop : Bool)

/-- The bits of a request. -/
def EepromRequest.bits {chip : EepromChip} : EepromRequest chip → List Bool
  | .write address data stop => ([true, false] ++ bitsOf address) ++ (bitsOf data ++ [stop])
  | .read address stop => ([true, true] ++ bitsOf address) ++ [stop]

/-- A request and the halfwords that carry it, a bit in the lowest place of each. -/
structure EepromTransfer (chip : EepromChip) where
  request : EepromRequest chip
  words : List (BitVec 16)
  words_eq : words.map (fun word => word.getLsbD 0) = request.bits

/-- The chip takes a list of halfwords. -/
def Cartridge.writeEepromWords (cartridge : Cartridge) (words : List (BitVec 16)) : Cartridge :=
  words.foldl Cartridge.writeEeprom cartridge

/-- The chip yields `n` halfwords. -/
def Cartridge.readEepromWords (cartridge : Cartridge) : Nat → List (BitVec 16) × Cartridge
  | 0 => ([], cartridge)
  | n + 1 =>
      let first := cartridge.readEeprom
      let rest := first.2.readEepromWords n
      (first.1 :: rest.1, rest.2)

/-- A whole transfer; a read yields its four junk bits and the 64 of the block. -/
def Cartridge.transferEeprom {chip : EepromChip} (cartridge : Cartridge)
    (transfer : EepromTransfer chip) : List (BitVec 16) × Cartridge :=
  let cartridge := cartridge.writeEepromWords transfer.words
  match transfer.request with
  | .write _ _ _ => ([], cartridge)
  | .read _ _ => cartridge.readEepromWords 68

/-- A list of transfers. -/
def Cartridge.transfersEeprom {chip : EepromChip} (cartridge : Cartridge) :
    List (EepromTransfer chip) → List (List (BitVec 16)) × Cartridge
  | [] => ([], cartridge)
  | transfer :: transfers =>
      let first := cartridge.transferEeprom transfer
      let rest := first.2.transfersEeprom transfers
      (first.1 :: rest.1, rest.2)

/-! ## The array -/

/-- The block a request addresses. -/
def EepromChip.block (chip : EepromChip) (address : BitVec chip.addressBits) : Nat :=
  address.toNat % chip.blocks

/-- A bit as a halfword. -/
def bitWord (b : Bool) : BitVec 16 := if b then 1 else 0

/-- What an array of words does with a request. -/
def arrayTransfer {chip : EepromChip} (array : Nat → BitVec 64) :
    EepromRequest chip → List (BitVec 16) × (Nat → BitVec 64)
  | .write address data _ => ([], Function.update array (chip.block address) data)
  | .read address _ =>
      (List.replicate 4 0 ++ (bitsOf (array (chip.block address))).map bitWord, array)

/-- What it does with a list of requests. -/
def arrayTransfers {chip : EepromChip} (array : Nat → BitVec 64) :
    List (EepromRequest chip) → List (List (BitVec 16)) × (Nat → BitVec 64)
  | [] => ([], array)
  | request :: requests =>
      let first := arrayTransfer array request
      let rest := arrayTransfers first.2 requests
      (first.1 :: rest.1, rest.2)

/-- A block of the save buffer. -/
def eepromBlock (saveBuf : SaveBuf) (block : Nat) : BitVec 64 :=
  gatherFrom 0 0 ((List.range 64).map fun i =>
    (readSaveBuf saveBuf (block * 8 + (63 - i) / 8)).getLsbD ((63 - i) % 8))

/-- A chip of known size between two requests. -/
structure IdleEeprom (chip : EepromChip) (cartridge : Cartridge) : Prop where
  length : cartridge.saveBuf.length = chip.size
  eeprom : ∃ done, cartridge.eeprom = ⟨0, 0, 0, done, chip.size⟩

/-! ## One bit -/

/-- The cartridge with another state of the EEPROM. -/
def Cartridge.withEeprom (cartridge : Cartridge) (eeprom : EepromState) : Cartridge :=
  { cartridge with eeprom := eeprom }

section Bits

variable (chip : EepromChip) (cartridge : Cartridge)

@[simp] theorem commandLength_mk (count : Nat) (cmd : BitVec 16) (data : BitVec 64) (done : Bool) :
    (EepromState.mk count cmd data done chip.size).commandLength = chip.commandLength := by
  cases chip <;> rfl

/-- The bit of a halfword. -/
theorem word_and_one (word : BitVec 16) :
    word &&& 1 = (BitVec.ofBool (word.getLsbD 0)).setWidth 16 := by
  apply BitVec.eq_of_getLsbD_eq
  intro i hi
  rw [BitVec.getLsbD_and, BitVec.getLsbD_setWidth, BitVec.getLsbD_ofBool]
  by_cases hzero : i = 0
  · subst hzero
    simp
  · simp [hzero]

/-- The first line of `cartridge_write_eeprom` clears the flag. -/
theorem writeEeprom_done (count : Nat) (cmd : BitVec 16) (data : BitVec 64) (done : Bool)
    (size : Nat) (word : BitVec 16) :
    (cartridge.withEeprom ⟨count, cmd, data, done, size⟩).writeEeprom word =
      (cartridge.withEeprom ⟨count, cmd, data, false, size⟩).writeEeprom word := rfl

/-- A command bit. -/
theorem writeEeprom_command {count : Nat} (cmd : BitVec 16) (data : BitVec 64) (word : BitVec 16)
    (hcount : count < chip.commandLength) :
    (cartridge.withEeprom ⟨count, cmd, data, false, chip.size⟩).writeEeprom word =
      cartridge.withEeprom
        ⟨count + 1, shiftIn cmd count (word.getLsbD 0), data, false, chip.size⟩ := by
  have hlt : count < (EepromState.mk count cmd data false chip.size).commandLength := by
    rw [commandLength_mk]
    exact hcount
  have hstep : (cartridge.withEeprom ⟨count, cmd, data, false, chip.size⟩).writeEeprom word =
      cartridge.withEeprom
        ⟨count + 1, cmd ||| ((word &&& 1) <<< (16 - (count + 1))), data, false, chip.size⟩ :=
    if_pos hlt
  rw [hstep, word_and_one, shiftIn]

/-- The command bits. -/
theorem writeEepromWords_command {count : Nat} (cmd : BitVec 16) (data : BitVec 64)
    (words : List (BitVec 16)) (hcount : count + words.length ≤ chip.commandLength) :
    (cartridge.withEeprom ⟨count, cmd, data, false, chip.size⟩).writeEepromWords words =
      cartridge.withEeprom
        ⟨count + words.length, gatherFrom cmd count (words.map fun word => word.getLsbD 0), data,
          false, chip.size⟩ := by
  induction words generalizing count cmd with
  | nil => rfl
  | cons word words ih =>
      rw [List.length_cons] at hcount ⊢
      show ((cartridge.withEeprom _).writeEeprom word).writeEepromWords words = _
      rw [writeEeprom_command chip cartridge cmd data word (by omega), ih _ (by omega),
        Nat.add_assoc, Nat.add_comm 1]
      rfl

/-- A data bit. -/
theorem writeEeprom_data {n : Nat} (cmd : BitVec 16) (data : BitVec 64) (word : BitVec 16)
    (hop : (cmd &&& 0xC000) >>> 14 = 2) (hn : n < 64) :
    (cartridge.withEeprom ⟨chip.commandLength + n, cmd, data, false, chip.size⟩).writeEeprom word =
      cartridge.withEeprom
        ⟨chip.commandLength + (n + 1), cmd, shiftIn data n (word.getLsbD 0), false,
          chip.size⟩ := by
  have hlen := commandLength_mk chip (chip.commandLength + n) cmd data false
  have hcommand : ¬ chip.commandLength + n <
      (EepromState.mk (chip.commandLength + n) cmd data false chip.size).commandLength := by
    rw [hlen]
    omega
  have hread : ¬ (EepromState.mk (chip.commandLength + n) cmd data false chip.size).opcode = 3 := by
    rw [EepromState.opcode, hop]
    decide
  have hstop : ¬ (EepromState.mk (chip.commandLength + n) cmd data false chip.size).commandLength +
      65 ≤ chip.commandLength + n + 1 := by
    rw [hlen]
    omega
  have hdata : chip.commandLength + n + 1 ≤
      (EepromState.mk (chip.commandLength + n) cmd data false chip.size).commandLength + 64 := by
    rw [hlen]
    omega
  have hplace : (EepromState.mk (chip.commandLength + n) cmd data false chip.size).commandLength +
      64 - (chip.commandLength + n + 1) = 64 - (n + 1) := by
    rw [hlen]
    omega
  have hword : (word &&& 1).setWidth 64 = (BitVec.ofBool (word.getLsbD 0)).setWidth 64 := by
    rw [word_and_one]
    exact BitVec.setWidth_setWidth (by omega)
  have hstep :
      (cartridge.withEeprom ⟨chip.commandLength + n, cmd, data, false, chip.size⟩).writeEeprom word =
        cartridge.withEeprom
          ⟨chip.commandLength + n + 1, cmd,
            if chip.commandLength + n + 1 ≤
                (EepromState.mk (chip.commandLength + n) cmd data false chip.size).commandLength + 64
            then data ||| (((word &&& 1).setWidth 64) <<<
              ((EepromState.mk (chip.commandLength + n) cmd data false chip.size).commandLength + 64 -
                (chip.commandLength + n + 1)))
            else data, false, chip.size⟩ :=
    (if_neg hcommand).trans ((if_neg hread).trans ((if_pos hop).trans (if_neg hstop)))
  rw [hstep, if_pos hdata, hplace, hword]
  rfl

/-- The data bits. -/
theorem writeEepromWords_data {n : Nat} (cmd : BitVec 16) (data : BitVec 64)
    (words : List (BitVec 16)) (hop : (cmd &&& 0xC000) >>> 14 = 2) (hn : n + words.length ≤ 64) :
    (cartridge.withEeprom ⟨chip.commandLength + n, cmd, data, false, chip.size⟩).writeEepromWords
        words =
      cartridge.withEeprom
        ⟨chip.commandLength + (n + words.length), cmd,
          gatherFrom data n (words.map fun word => word.getLsbD 0), false, chip.size⟩ := by
  induction words generalizing n data with
  | nil => rfl
  | cons word words ih =>
      rw [List.length_cons] at hn ⊢
      show ((cartridge.withEeprom _).writeEeprom word).writeEepromWords words = _
      rw [writeEeprom_data chip cartridge cmd data word hop (by omega), ih _ (by omega),
        Nat.add_assoc n, Nat.add_comm 1]
      rfl

/-- The stop bit of a write request. -/
theorem writeEeprom_stop (cmd : BitVec 16) (data : BitVec 64) (word : BitVec 16)
    (hop : (cmd &&& 0xC000) >>> 14 = 2) :
    (cartridge.withEeprom ⟨chip.commandLength + 64, cmd, data, false, chip.size⟩).writeEeprom word =
      (cartridge.withEeprom
        ⟨chip.commandLength + 65, cmd, data, false, chip.size⟩).storeEeprom data := by
  have hlen := commandLength_mk chip (chip.commandLength + 64) cmd data false
  have hcommand : ¬ chip.commandLength + 64 <
      (EepromState.mk (chip.commandLength + 64) cmd data false chip.size).commandLength := by
    rw [hlen]
    omega
  have hread : ¬ (EepromState.mk (chip.commandLength + 64) cmd data false chip.size).opcode = 3 := by
    rw [EepromState.opcode, hop]
    decide
  have hstop : (EepromState.mk (chip.commandLength + 64) cmd data false chip.size).commandLength +
      65 ≤ chip.commandLength + 64 + 1 := by
    rw [hlen]
  have hdata : ¬ chip.commandLength + 64 + 1 ≤
      (EepromState.mk (chip.commandLength + 64) cmd data false chip.size).commandLength + 64 := by
    rw [hlen]
    omega
  have hstep :
      (cartridge.withEeprom ⟨chip.commandLength + 64, cmd, data, false, chip.size⟩).writeEeprom word =
        (fun data' => (cartridge.withEeprom
          ⟨chip.commandLength + 64 + 1, cmd, data', false, chip.size⟩).storeEeprom data')
          (if chip.commandLength + 64 + 1 ≤
              (EepromState.mk (chip.commandLength + 64) cmd data false chip.size).commandLength + 64
            then data ||| (((word &&& 1).setWidth 64) <<<
              ((EepromState.mk (chip.commandLength + 64) cmd data false chip.size).commandLength +
                64 - (chip.commandLength + 64 + 1)))
            else data) :=
    (if_neg hcommand).trans ((if_neg hread).trans ((if_pos hop).trans (if_pos hstop)))
  rw [hstep, if_neg hdata]

/-- The stop bit of a read request. -/
theorem writeEeprom_readStop (cmd : BitVec 16) (word : BitVec 16)
    (hop : (cmd &&& 0xC000) >>> 14 = 3) :
    (cartridge.withEeprom ⟨chip.commandLength, cmd, 0, false, chip.size⟩).writeEeprom word =
      cartridge.withEeprom ⟨chip.commandLength + 1, cmd, 0, false, chip.size⟩ := by
  have hlen := commandLength_mk chip chip.commandLength cmd 0 false
  have hcommand : ¬ chip.commandLength <
      (EepromState.mk chip.commandLength cmd 0 false chip.size).commandLength := by
    rw [hlen]
    omega
  have hcount : chip.commandLength <
      (EepromState.mk chip.commandLength cmd 0 false chip.size).commandLength + 1 := by
    rw [hlen]
    omega
  have hstep :
      (cartridge.withEeprom ⟨chip.commandLength, cmd, 0, false, chip.size⟩).writeEeprom word =
        cartridge.withEeprom (if chip.commandLength <
            (EepromState.mk chip.commandLength cmd 0 false chip.size).commandLength + 1
          then ⟨chip.commandLength + 1, cmd, 0, false, chip.size⟩
          else ⟨chip.commandLength, cmd, 0, false, chip.size⟩) :=
    (if_neg hcommand).trans (if_pos hop)
  rw [hstep, if_pos hcount]

end Bits

/-! ## The command -/

/-- The command of a request. -/
def EepromChip.command (chip : EepromChip) (isRead : Bool) (address : BitVec chip.addressBits) :
    BitVec 16 :=
  gatherFrom 0 0 ([true, isRead] ++ bitsOf address)

/-- Its two leading bits. -/
theorem command_opcode (chip : EepromChip) (isRead : Bool) (address : BitVec chip.addressBits) :
    (chip.command isRead address &&& 0xC000) >>> 14 = if isRead then 3 else 2 := by
  have hlen : 2 + chip.addressBits ≤ 16 := by cases chip <;> decide
  have hfield := gatherFrom_field (w := 16) [] (if isRead then 3#2 else 2#2) (bitsOf address)
    (by simpa using hlen)
  have hlead : bitsOf (if isRead then 3#2 else 2#2) = [true, isRead] := by cases isRead <;> decide
  rw [hlead, List.nil_append] at hfield
  apply BitVec.eq_of_toNat_eq
  rw [BitVec.toNat_ushiftRight, BitVec.toNat_and, Nat.shiftRight_and_distrib,
    Nat.shiftRight_eq_div_pow]
  refine (Nat.and_two_pow_sub_one_eq_mod _ 2).trans (hfield.trans ?_)
  cases isRead <;> rfl

/-- Its block. -/
theorem command_addr (chip : EepromChip) (isRead : Bool) (address : BitVec chip.addressBits)
    (count : Nat) (data : BitVec 64) (done : Bool) :
    (EepromState.mk count (chip.command isRead address) data done chip.size).addr =
      chip.block address := by
  have hlen : 2 + chip.addressBits ≤ 16 := by cases chip <;> decide
  have hfield := gatherFrom_field (w := 16) [true, isRead] address [] (by simpa using hlen)
  rw [List.append_nil] at hfield
  cases chip with
  | small =>
      show (((EepromChip.small.command isRead address) &&& 0x3F00) >>> 8).toNat = _ % 64
      rw [BitVec.toNat_ushiftRight, BitVec.toNat_and, Nat.shiftRight_and_distrib,
        Nat.shiftRight_eq_div_pow]
      refine (Nat.and_two_pow_sub_one_eq_mod _ 6).trans (hfield.trans ?_)
      exact (Nat.mod_eq_of_lt address.isLt).symm
  | large =>
      show ((EepromChip.large.command isRead address) &&& 0x03FF).toNat = _ % 1024
      rw [BitVec.toNat_and]
      refine (Nat.and_two_pow_sub_one_eq_mod _ 10).trans ?_
      rw [← hfield]
      show _ = _ / 2 ^ 0 % 2 ^ 14 % 2 ^ 10
      rw [pow_zero, Nat.div_one, Nat.mod_mod_of_dvd _ (by decide)]
      rfl

/-! ## The store -/

/-- The chip's size is a power of two. -/
theorem EepromChip.size_eq (chip : EepromChip) :
    chip.size = 2 ^ (match chip with | small => 9 | large => 13) := by
  cases chip <;> rfl

/-- The blocks fill the chip. -/
theorem EepromChip.blocks_mul (chip : EepromChip) : chip.blocks * 8 = chip.size := by
  cases chip <;> rfl

/-- A request addresses a block of the chip. -/
theorem EepromChip.block_lt (chip : EepromChip) (address : BitVec chip.addressBits) :
    chip.block address < chip.blocks :=
  Nat.mod_lt _ (by cases chip <;> decide)

/-- An access inside the chip goes where it says. -/
theorem eeprom_saveIndex {chip : EepromChip} {saveBuf : SaveBuf}
    (hlen : saveBuf.length = chip.size) {addr : Nat} (haddr : addr < chip.size) :
    saveIndex saveBuf.length addr = addr := by
  have hpos : 0 < saveBuf.length := by omega
  rw [chip.size_eq] at hlen haddr
  exact saveIndex_of_dvd (dvd_of_eq hlen.symm) hpos haddr

/-- The first `n` bytes of a word stored in its block. -/
def storeBytes (saveBuf : SaveBuf) (block : Nat) (data : BitVec 64) (n : Nat) : SaveBuf :=
  (List.range n).foldl (fun saveBuf i =>
    writeSaveBuf saveBuf (block * 8 + i) ((data >>> (i * 8)).setWidth 8)) saveBuf

/-- Storing keeps the length. -/
@[simp] theorem length_storeBytes (saveBuf : SaveBuf) (block : Nat) (data : BitVec 64) (n : Nat) :
    (storeBytes saveBuf block data n).length = saveBuf.length := by
  induction n with
  | zero => rfl
  | succ n ih =>
      rw [storeBytes, List.range_succ, List.foldl_append]
      exact (length_writeSaveBuf ..).trans ih

/-- What a read sees after the store: the bytes of the word in its block. -/
theorem readSaveBuf_storeBytes {chip : EepromChip} {saveBuf : SaveBuf}
    (hlen : saveBuf.length = chip.size) {block : Nat} (hblock : block < chip.blocks)
    (data : BitVec 64) {n : Nat} (hn : n ≤ 8) {addr : Nat} (haddr : addr < chip.size) :
    readSaveBuf (storeBytes saveBuf block data n) addr =
      if addr / 8 = block ∧ addr % 8 < n then (data >>> (addr % 8 * 8)).setWidth 8
      else readSaveBuf saveBuf addr := by
  have hsize := chip.blocks_mul
  induction n with
  | zero =>
      rw [if_neg (by omega)]
      rfl
  | succ n ih =>
      have hsucc : storeBytes saveBuf block data (n + 1) =
          writeSaveBuf (storeBytes saveBuf block data n) (block * 8 + n)
            ((data >>> (n * 8)).setWidth 8) := by
        rw [storeBytes, List.range_succ, List.foldl_append]
        rfl
      have hlen' : (storeBytes saveBuf block data n).length = chip.size :=
        (length_storeBytes ..).trans hlen
      rw [hsucc, readSaveBuf_writeSaveBuf (by omega), eeprom_saveIndex hlen' (by omega),
        eeprom_saveIndex hlen' haddr, ih (by omega)]
      by_cases heq : block * 8 + n = addr
      · have hrem : addr % 8 = n := by omega
        have hdiv : addr / 8 = block := by omega
        rw [if_pos heq, if_pos ⟨hdiv, by omega⟩, hrem]
      · rw [if_neg heq]
        have hiff : (addr / 8 = block ∧ addr % 8 < n + 1) ↔ (addr / 8 = block ∧ addr % 8 < n) := by
          omega
        simp only [hiff]

/-- The bits of a block. -/
theorem getLsbD_eepromBlock (saveBuf : SaveBuf) (block : Nat) {bit : Nat} (hbit : bit < 64) :
    (eepromBlock saveBuf block).getLsbD bit =
      (readSaveBuf saveBuf (block * 8 + bit / 8)).getLsbD (bit % 8) := by
  have hback : 64 - 1 - (63 - bit) = bit := by omega
  have hback' : 63 - (63 - bit) = bit := by omega
  have hmsb : (eepromBlock saveBuf block).getMsbD (63 - bit) =
      (eepromBlock saveBuf block).getLsbD bit := by
    rw [BitVec.getMsbD_eq_getLsbD, hback]
    simp
    omega
  rw [← hmsb, eepromBlock, getMsbD_gatherFrom _ (by simp) (by omega), List.getD_eq_getElem?_getD,
    List.getElem?_map, List.getElem?_range (by omega)]
  simp [hback']

/-- **The store**: the word is in its block, and the other blocks are unchanged. -/
theorem eepromBlock_storeBytes {chip : EepromChip} {saveBuf : SaveBuf}
    (hlen : saveBuf.length = chip.size) {block : Nat} (hblock : block < chip.blocks)
    (data : BitVec 64) {b : Nat} (hb : b < chip.blocks) :
    eepromBlock (storeBytes saveBuf block data 8) b =
      if b = block then data else eepromBlock saveBuf b := by
  have hsize := chip.blocks_mul
  apply BitVec.eq_of_getLsbD_eq
  intro bit hbit
  have hdiv : (b * 8 + bit / 8) / 8 = b := by omega
  have hrem : (b * 8 + bit / 8) % 8 = bit / 8 := by omega
  rw [getLsbD_eepromBlock _ _ hbit,
    readSaveBuf_storeBytes hlen hblock data (le_refl 8) (by omega), hdiv, hrem]
  by_cases heq : b = block
  · have hplace : bit / 8 * 8 + bit % 8 = bit := by omega
    have hlt : bit % 8 < 8 := by omega
    rw [if_pos ⟨heq, by omega⟩, if_pos heq, BitVec.getLsbD_setWidth, BitVec.getLsbD_ushiftRight,
      hplace]
    simp [hlt]
  · rw [if_neg fun h => heq h.1, if_neg heq, getLsbD_eepromBlock _ _ hbit]

/-! ## Requests -/

section Requests

variable {chip : EepromChip} {cartridge : Cartridge}

/-- Words one after the other. -/
theorem writeEepromWords_append (cartridge : Cartridge) (words words' : List (BitVec 16)) :
    cartridge.writeEepromWords (words ++ words') =
      (cartridge.writeEepromWords words).writeEepromWords words' :=
  List.foldl_append

/-- The command of a request to an idle chip. -/
theorem IdleEeprom.command (h : IdleEeprom chip cartridge) {isRead : Bool}
    {address : BitVec chip.addressBits} {words : List (BitVec 16)}
    (hwords : words.map (fun word => word.getLsbD 0) = [true, isRead] ++ bitsOf address) :
    cartridge.writeEepromWords words =
      cartridge.withEeprom ⟨chip.commandLength, chip.command isRead address, 0, false, chip.size⟩ := by
  obtain ⟨done, hdone⟩ := h.eeprom
  have hlen : words.length = chip.commandLength := by
    have hlength := congrArg List.length hwords
    simp only [List.length_map, List.length_append, length_bitsOf, List.length_cons,
      List.length_nil] at hlength
    rw [EepromChip.commandLength]
    omega
  have hidle : cartridge = cartridge.withEeprom ⟨0, 0, 0, done, chip.size⟩ := by
    rw [← hdone]
    rfl
  have hclear : cartridge.writeEepromWords words =
      (cartridge.withEeprom ⟨0, 0, 0, false, chip.size⟩).writeEepromWords words := by
    cases words with
    | nil => simp at hwords
    | cons word words =>
        show (cartridge.writeEeprom word).writeEepromWords words = _
        rw [hidle, writeEeprom_done]
        rfl
  rw [hclear, writeEepromWords_command chip cartridge 0 0 words (by omega), hwords, hlen,
    Nat.zero_add, EepromChip.command]

/-- What the end of a write request does. -/
theorem storeEeprom_eq (cartridge : Cartridge) (address : BitVec chip.addressBits) (count : Nat)
    (data : BitVec 64) :
    (cartridge.withEeprom
      ⟨count, chip.command false address, data, false, chip.size⟩).storeEeprom data =
      { cartridge with
        saveBuf := storeBytes cartridge.saveBuf (chip.block address) data 8
        eeprom := ⟨0, 0, 0, true, chip.size⟩ } := by
  have hsize : ¬ chip.size = 0 := by cases chip <;> decide
  have haddr := command_addr chip false address count data false
  have hsame : (cartridge.withEeprom
      ⟨count, chip.command false address, data, false, chip.size⟩).assumeEeprom =
      cartridge.withEeprom ⟨count, chip.command false address, data, false, chip.size⟩ :=
    if_neg hsize
  rw [Cartridge.storeEeprom, hsame, storeBytes, ← haddr]
  rfl

/-- **A write request** stores its word in its block, leaves the other blocks and the chip idle. -/
theorem IdleEeprom.writeRequest (h : IdleEeprom chip cartridge)
    {address : BitVec chip.addressBits} {data : BitVec 64} {stop : Bool} {words : List (BitVec 16)}
    (hwords : words.map (fun word => word.getLsbD 0) =
      (EepromRequest.write address data stop).bits) :
    IdleEeprom chip (cartridge.writeEepromWords words) ∧
      ∀ b < chip.blocks, eepromBlock (cartridge.writeEepromWords words).saveBuf b =
        Function.update (eepromBlock cartridge.saveBuf) (chip.block address) data b := by
  obtain ⟨command, rest, rfl, hcommand, hrest⟩ := List.map_eq_append_iff.mp hwords
  obtain ⟨payload, last, rfl, hpayload, hlast⟩ := List.map_eq_append_iff.mp hrest
  obtain ⟨stopWord, rfl, hstop⟩ := List.map_eq_singleton_iff.mp hlast
  have hlen : payload.length = 64 := by
    have hlength := congrArg List.length hpayload
    rwa [List.length_map, length_bitsOf] at hlength
  have hop := command_opcode chip false address
  have hend : cartridge.writeEepromWords (command ++ (payload ++ [stopWord])) =
      { cartridge with
        saveBuf := storeBytes cartridge.saveBuf (chip.block address) data 8
        eeprom := ⟨0, 0, 0, true, chip.size⟩ } := by
    rw [writeEepromWords_append, writeEepromWords_append, h.command hcommand]
    have hdata := writeEepromWords_data chip cartridge (n := 0) _ 0 payload hop (by omega)
    rw [hpayload, hlen, gatherFrom_bitsOf] at hdata
    rw [← Nat.add_zero chip.commandLength, hdata]
    exact (writeEeprom_stop chip cartridge _ data stopWord hop).trans (storeEeprom_eq ..)
  rw [hend]
  refine ⟨⟨?_, true, rfl⟩, fun b hb => ?_⟩
  · exact (length_storeBytes ..).trans h.length
  · rw [Function.update_apply]
    exact eepromBlock_storeBytes h.length (chip.block_lt address) data hb

/-- The chip after the stop bit of a read request and `k` reads. -/
def readingEeprom (cartridge : Cartridge) (address : BitVec chip.addressBits) (k : Nat) :
    Cartridge :=
  cartridge.withEeprom
    ⟨chip.commandLength + 1 + k, chip.command true address, 0, false, chip.size⟩

/-- A read request up to its stop bit. -/
theorem IdleEeprom.readRequest (h : IdleEeprom chip cartridge)
    {address : BitVec chip.addressBits} {stop : Bool} {words : List (BitVec 16)}
    (hwords : words.map (fun word => word.getLsbD 0) = (EepromRequest.read address stop).bits) :
    cartridge.writeEepromWords words = readingEeprom cartridge address 0 := by
  obtain ⟨command, last, rfl, hcommand, hlast⟩ := List.map_eq_append_iff.mp hwords
  obtain ⟨stopWord, rfl, hstop⟩ := List.map_eq_singleton_iff.mp hlast
  rw [writeEepromWords_append, h.command hcommand]
  exact writeEeprom_readStop chip cartridge _ stopWord (command_opcode chip true address)

/-- The `k`-th halfword of a read. -/
def eepromWord (block : BitVec 64) (k : Nat) : BitVec 16 :=
  if k < 4 then 0 else bitWord (block.getLsbD (67 - k))

/-- A read of a chip of known size does not look for the size. -/
theorem detectEeprom_withEeprom (cartridge : Cartridge) {eeprom : EepromState}
    (hsize : eeprom.size ≠ 0) :
    (cartridge.withEeprom eeprom).detectEeprom = cartridge.withEeprom eeprom :=
  if_neg hsize

/-- A read of a junk bit. -/
theorem readEeprom_junk (cartridge : Cartridge) {eeprom : EepromState} (hsize : eeprom.size ≠ 0)
    (hop : eeprom.opcode = 3) (hcount : eeprom.commandLength + 1 ≤ eeprom.count)
    (hjunk : ¬ eeprom.commandLength + 6 ≤ eeprom.count + 1) :
    (cartridge.withEeprom eeprom).readEeprom =
      (0, cartridge.withEeprom { eeprom with count := eeprom.count + 1 }) := by
  rw [Cartridge.readEeprom, detectEeprom_withEeprom cartridge hsize]
  exact (if_pos ⟨hop, hcount⟩).trans (if_neg hjunk)

/-- A read of a data bit. -/
theorem readEeprom_bit (cartridge : Cartridge) {eeprom : EepromState} (hsize : eeprom.size ≠ 0)
    (hop : eeprom.opcode = 3) (hcount : eeprom.commandLength + 1 ≤ eeprom.count)
    (hdata : eeprom.commandLength + 6 ≤ eeprom.count + 1) {bit : Nat}
    (hbit : 63 - (eeprom.count + 1 - (eeprom.commandLength + 6)) = bit) :
    (cartridge.withEeprom eeprom).readEeprom =
      (bitWord ((readSaveBuf cartridge.saveBuf (eeprom.addr * 8 + bit / 8)).getLsbD (bit % 8)),
        cartridge.withEeprom
          (if eeprom.commandLength + 69 ≤ eeprom.count + 1 then
            { EepromState.default with size := eeprom.size }
          else { eeprom with count := eeprom.count + 1 })) := by
  rw [Cartridge.readEeprom, detectEeprom_withEeprom cartridge hsize, ← hbit]
  exact (if_pos ⟨hop, hcount⟩).trans (if_pos hdata)

/-- One read. -/
theorem readEeprom_reading (cartridge : Cartridge) (address : BitVec chip.addressBits) {k : Nat}
    (hk : k < 68) :
    (readingEeprom cartridge address k).readEeprom =
      (eepromWord (eepromBlock cartridge.saveBuf (chip.block address)) k,
        if k = 67 then cartridge.withEeprom ⟨0, 0, 0, false, chip.size⟩
        else readingEeprom cartridge address (k + 1)) := by
  have hsize : (EepromState.mk (chip.commandLength + 1 + k) (chip.command true address) 0 false
      chip.size).size ≠ 0 := by
    cases chip <;> exact Nat.succ_ne_zero _
  have haddr := command_addr chip true address (chip.commandLength + 1 + k) 0 false
  have hlen := commandLength_mk chip (chip.commandLength + 1 + k) (chip.command true address) 0 false
  have hcount : (EepromState.mk (chip.commandLength + 1 + k) (chip.command true address) 0 false
      chip.size).count = chip.commandLength + 1 + k := rfl
  have hop := command_opcode chip true address
  rw [eepromWord, readingEeprom]
  by_cases hjunk : k < 4
  · have hlast : k ≠ 67 := by omega
    rw [readEeprom_junk cartridge hsize hop (by omega) (by omega),
      if_pos hjunk, if_neg hlast]
    rfl
  · have hbit : 67 - k < 64 := by omega
    have hplace : 63 - ((EepromState.mk (chip.commandLength + 1 + k) (chip.command true address) 0
        false chip.size).count + 1 - ((EepromState.mk (chip.commandLength + 1 + k)
          (chip.command true address) 0 false chip.size).commandLength + 6)) = 67 - k := by
      omega
    have hread := readEeprom_bit cartridge hsize hop (by omega) (by omega) hplace
    rw [haddr, ← getLsbD_eepromBlock _ _ hbit, hlen] at hread
    rw [hread, if_neg hjunk]
    by_cases hlast : k = 67
    · rw [if_pos hlast, if_pos (by omega)]
      rfl
    · rw [if_neg hlast, if_neg (by omega)]
      rfl

/-- The reads from the `k`-th on. -/
theorem readEepromWords_reading (cartridge : Cartridge) (address : BitVec chip.addressBits)
    {k n : Nat} (hn : k + n = 68) (hk : k < 68) :
    (readingEeprom cartridge address k).readEepromWords n =
      ((List.range' k n).map (eepromWord (eepromBlock cartridge.saveBuf (chip.block address))),
        cartridge.withEeprom ⟨0, 0, 0, false, chip.size⟩) := by
  induction n generalizing k with
  | zero => omega
  | succ n ih =>
      rw [Cartridge.readEepromWords, readEeprom_reading cartridge address hk, List.range'_succ,
        List.map_cons]
      by_cases hlast : k = 67
      · obtain rfl : n = 0 := by omega
        simp only [if_pos hlast]
        rfl
      · simp only [if_neg hlast]
        rw [ih (by omega) (by omega)]

/-- The reads of a block: four junk bits, and its bits. -/
theorem map_eepromWord (block : BitVec 64) :
    (List.range' 0 68).map (eepromWord block) =
      List.replicate 4 0 ++ (bitsOf block).map bitWord := by
  have hsplit : List.range' 0 68 = List.range 4 ++ (List.range 64).map fun i => 4 + i := by decide
  rw [hsplit, List.map_append, bitsOf, List.map_map, List.map_map]
  refine congrArg₂ (· ++ ·) rfl ?_
  apply List.map_congr_left
  intro i hi
  have hi := List.mem_range.mp hi
  have hplace : 67 - (4 + i) = 64 - 1 - i := by omega
  have hjunk : ¬ 4 + i < 4 := by omega
  show eepromWord block (4 + i) = bitWord (block.getMsbD i)
  rw [eepromWord, if_neg hjunk, BitVec.getMsbD_eq_getLsbD, hplace]
  simp [hi]

/-- **A transfer** does to the chip what its request does to an array. -/
theorem IdleEeprom.transfer (h : IdleEeprom chip cartridge) (transfer : EepromTransfer chip) :
    (cartridge.transferEeprom transfer).1 =
        (arrayTransfer (eepromBlock cartridge.saveBuf) transfer.request).1 ∧
      IdleEeprom chip (cartridge.transferEeprom transfer).2 ∧
      ∀ b < chip.blocks, eepromBlock (cartridge.transferEeprom transfer).2.saveBuf b =
        (arrayTransfer (eepromBlock cartridge.saveBuf) transfer.request).2 b := by
  obtain ⟨request, words, hwords⟩ := transfer
  cases request with
  | write address data stop =>
      obtain ⟨hidle, hblocks⟩ := h.writeRequest hwords
      exact ⟨rfl, hidle, hblocks⟩
  | read address stop =>
      have hread : cartridge.transferEeprom ⟨.read address stop, words, hwords⟩ =
          ((List.range' 0 68).map (eepromWord (eepromBlock cartridge.saveBuf (chip.block address))),
            cartridge.withEeprom ⟨0, 0, 0, false, chip.size⟩) := by
        show (cartridge.writeEepromWords words).readEepromWords 68 = _
        rw [h.readRequest hwords]
        exact readEepromWords_reading cartridge address rfl (by omega)
      rw [hread]
      exact ⟨map_eepromWord _, ⟨h.length, false, rfl⟩, fun _ _ => rfl⟩

end Requests

/-- Arrays that agree on the blocks of the chip answer alike and go on to agree. -/
theorem arrayTransfer_congr {chip : EepromChip} {array array' : Nat → BitVec 64}
    (hagree : ∀ b < chip.blocks, array b = array' b) (request : EepromRequest chip) :
    (arrayTransfer array request).1 = (arrayTransfer array' request).1 ∧
      ∀ b < chip.blocks, (arrayTransfer array request).2 b = (arrayTransfer array' request).2 b := by
  cases request with
  | write address data stop =>
      refine ⟨rfl, fun b hb => ?_⟩
      show Function.update array _ data b = Function.update array' _ data b
      rw [Function.update_apply, Function.update_apply, hagree b hb]
  | read address stop =>
      refine ⟨?_, hagree⟩
      show _ ++ (bitsOf (array _)).map bitWord = _ ++ (bitsOf (array' _)).map bitWord
      rw [hagree _ (chip.block_lt address)]

/-- **EEPROM round trip.**  Any sequence of requests to an idle chip of known size behaves like an
array of 64-bit words, and leaves the chip idle. -/
theorem eeprom_array (chip : EepromChip) (cartridge : Cartridge) (array : Nat → BitVec 64)
    (h : IdleEeprom chip cartridge)
    (harray : ∀ b < chip.blocks, eepromBlock cartridge.saveBuf b = array b)
    (transfers : List (EepromTransfer chip)) :
    (cartridge.transfersEeprom transfers).1 =
        (arrayTransfers array (transfers.map EepromTransfer.request)).1 ∧
      IdleEeprom chip (cartridge.transfersEeprom transfers).2 ∧
      ∀ b < chip.blocks, eepromBlock (cartridge.transfersEeprom transfers).2.saveBuf b =
        (arrayTransfers array (transfers.map EepromTransfer.request)).2 b := by
  induction transfers generalizing cartridge array with
  | nil => exact ⟨rfl, h, harray⟩
  | cons transfer transfers ih =>
      obtain ⟨houtput, hidle, hblocks⟩ := h.transfer transfer
      obtain ⟨houtput', hblocks'⟩ := arrayTransfer_congr harray transfer.request
      obtain ⟨hrest, hidle', hfinal⟩ := ih (cartridge.transferEeprom transfer).2
        (arrayTransfer array transfer.request).2 hidle
        fun b hb => (hblocks b hb).trans (hblocks' b hb)
      refine ⟨?_, hidle', hfinal⟩
      show _ :: _ = _ :: _
      rw [houtput, houtput', hrest]

/-- An erased small chip. -/
def erasedEeprom : Cartridge where
  saveType := .eeprom
  saveBuf := List.replicate 0x200 0xFF
  flash := FlashState.default
  eeprom := { EepromState.default with size := 0x200 }

/-- A word written to block 5 of a small chip. -/
def writeBlock5 : EepromTransfer .small where
  request := .write 5 0x0123456789ABCDEF false
  words := ((.write 5 0x0123456789ABCDEF false : EepromRequest .small).bits).map bitWord
  words_eq := by decide

/-- A read of block 5 of a small chip. -/
def readBlock5 : EepromTransfer .small where
  request := .read 5 false
  words := ((.read 5 false : EepromRequest .small).bits).map bitWord
  words_eq := by decide

/-- A write and a read of block 5 of an erased small chip. -/
theorem erasedEeprom_array :
    (erasedEeprom.transfersEeprom [writeBlock5, readBlock5]).1 =
      [[], List.replicate 4 0 ++ (bitsOf (0x0123456789ABCDEF : BitVec 64)).map bitWord] := by
  have h := (eeprom_array .small erasedEeprom (eepromBlock erasedEeprom.saveBuf)
    ⟨List.length_replicate, false, rfl⟩ (fun _ _ => rfl) [writeBlock5, readBlock5]).1
  rw [h]
  rfl

end AdvancedSlop
