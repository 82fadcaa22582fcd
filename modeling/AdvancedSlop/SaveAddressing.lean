/-
# Save image addressing

Every access to the save chip is masked with the length of the buffer minus one.  The length comes
from the save type and from the save file; a file longer than the chip takes the buffer's place as
it is.

* `SaveAddressing` : every byte of the chip has a byte of the buffer of its own, which the file
  fills, and which a write changes alone;
* `save_addressing_law` : that holds exactly when the file is no longer than the chip or its length
  is a multiple of the chip's;
* `footerSave_misaddressed` : a save file with a footer of 16 bytes.
-/
import AdvancedSlop.EepromChip

namespace AdvancedSlop

/-- The bytes of the chip; an EEPROM reveals its size with the first transfer. -/
def chipSize (eepromChip : EepromChip) : SaveType → Nat
  | .none => 0
  | .eeprom => eepromChip.size
  | .sram => 0x8000
  | .flash64k => 0x10000
  | .flash128k => 0x20000

namespace Cartridge

/-- The first read of an EEPROM, after the command bits of its chip. -/
def detectAs (cartridge : Cartridge) (eepromChip : EepromChip) : Cartridge :=
  ({ cartridge with
    eeprom := { cartridge.eeprom with count := eepromChip.commandLength + 1 } }).detectEeprom

/-- The cartridge with its save file loaded, and the size of an EEPROM known. -/
def loadAs (saveType : SaveType) (eepromChip : EepromChip) (content : List (BitVec 8)) :
    Cartridge :=
  if saveType = .eeprom then (load saveType content).detectAs eepromChip
  else load saveType content

/-- The flash chip with a bank selected, ready to read or to program a byte. -/
def selectBank (cartridge : Cartridge) (addr : Nat) (program : Bool) : Cartridge :=
  { cartridge with
    flash := { cartridge.flash with
      bank := BitVec.ofNat 8 (addr / 0x10000), idMode := false, writeMode := program } }

/-- A read of a byte of the chip. -/
def readChip (cartridge : Cartridge) (addr : Nat) : BitVec 8 :=
  match cartridge.saveType with
  | .none => 0xFF
  | .eeprom => readSaveBuf cartridge.saveBuf addr
  | .sram => cartridge.readSram addr
  | .flash64k | .flash128k => (cartridge.selectBank addr false).readSram (addr % 0x10000)

/-- A write of a byte of the chip. -/
def writeChip (cartridge : Cartridge) (addr : Nat) (value : BitVec 8) : Cartridge :=
  match cartridge.saveType with
  | .none => cartridge
  | .eeprom => { cartridge with saveBuf := writeSaveBuf cartridge.saveBuf addr value }
  | .sram => cartridge.writeSram addr value
  | .flash64k | .flash128k => (cartridge.selectBank addr true).writeSram (addr % 0x10000) value

end Cartridge

/-- Every byte of the chip has a byte of the buffer of its own. -/
structure SaveAddressing (saveType : SaveType) (eepromChip : EepromChip)
    (content : List (BitVec 8)) : Prop where
  /-- Distinct addresses go to distinct bytes. -/
  injective : ∀ a < chipSize eepromChip saveType, ∀ b < chipSize eepromChip saveType,
    saveIndex (Cartridge.loadAs saveType eepromChip content).saveBuf.length a =
      saveIndex (Cartridge.loadAs saveType eepromChip content).saveBuf.length b → a = b
  /-- After loading a read returns the file's byte, or an erased one past its end. -/
  load : ∀ a < chipSize eepromChip saveType,
    (Cartridge.loadAs saveType eepromChip content).readChip a = content.getD a 0xFF
  /-- In whatever state, a write changes the byte at its address and no other. -/
  write : ∀ cartridge : Cartridge, cartridge.saveType = saveType →
    cartridge.saveBuf.length = (Cartridge.loadAs saveType eepromChip content).saveBuf.length →
    ∀ a < chipSize eepromChip saveType, ∀ b < chipSize eepromChip saveType, ∀ value,
      (cartridge.writeChip a value).readChip b = if a = b then value else cartridge.readChip b

/-! ## The buffer after loading -/

/-- Detection gives the buffer the chip's length. -/
theorem saveBuf_detectAs {cartridge : Cartridge} (hsize : cartridge.eeprom.size = 0)
    (eepromChip : EepromChip) :
    (cartridge.detectAs eepromChip).saveBuf = resizeSaveBuf cartridge.saveBuf eepromChip.size := by
  have hdetect : cartridge.detectAs eepromChip = _ := if_pos hsize
  rw [hdetect]
  cases eepromChip <;> rfl

/-- The buffer after loading, by the save type. -/
theorem saveBuf_loadAs (saveType : SaveType) (eepromChip : EepromChip)
    (content : List (BitVec 8)) :
    (Cartridge.loadAs saveType eepromChip content).saveBuf =
      if saveType = .eeprom then resizeSaveBuf (loadSaveBuf saveType content) eepromChip.size
      else loadSaveBuf saveType content := by
  unfold Cartridge.loadAs
  by_cases heeprom : saveType = .eeprom
  · rw [if_pos heeprom, if_pos heeprom, saveBuf_detectAs rfl]
    rfl
  · rw [if_neg heeprom, if_neg heeprom]
    rfl

/-- Its bytes below the chip's size are the file's. -/
theorem getD_loadAs {saveType : SaveType} {eepromChip : EepromChip} (content : List (BitVec 8))
    {a : Nat} (ha : a < chipSize eepromChip saveType) :
    (Cartridge.loadAs saveType eepromChip content).saveBuf.getD a 0xFF = content.getD a 0xFF := by
  rw [saveBuf_loadAs]
  by_cases heeprom : saveType = .eeprom
  · subst heeprom
    have ha : a < eepromChip.size := ha
    rw [if_pos rfl, getD_resizeSaveBuf _ ha, getD_loadSaveBuf]
  · rw [if_neg heeprom, getD_loadSaveBuf]

/-- The length after loading. -/
theorem length_loadAs (saveType : SaveType) (eepromChip : EepromChip)
    (content : List (BitVec 8)) :
    (Cartridge.loadAs saveType eepromChip content).saveBuf.length =
      if saveType = .eeprom then chipSize eepromChip saveType
      else max (chipSize eepromChip saveType) content.length := by
  rw [saveBuf_loadAs]
  by_cases heeprom : saveType = .eeprom
  · subst heeprom
    rw [if_pos rfl, if_pos rfl, length_resizeSaveBuf]
    rfl
  · rw [if_neg heeprom, if_neg heeprom, length_loadSaveBuf]
    cases saveType <;> first | rfl | exact absurd rfl heeprom

/-! ## Accesses -/

/-- Every chip but none is a power of two long. -/
theorem exists_chipSize_eq_two_pow (eepromChip : EepromChip) {saveType : SaveType}
    (hsome : saveType ≠ .none) : ∃ k, chipSize eepromChip saveType = 2 ^ k := by
  cases saveType with
  | none => exact absurd rfl hsome
  | eeprom => exact ⟨_, eepromChip.size_eq⟩
  | sram => exact ⟨15, rfl⟩
  | flash64k => exact ⟨16, rfl⟩
  | flash128k => exact ⟨17, rfl⟩

/-- The bank and the offset of an address of a flash chip. -/
theorem bank_mul_add_offset {a : Nat} (ha : a < 0x20000) :
    (BitVec.ofNat 8 (a / 0x10000)).toNat * 0x10000 + a % 0x10000 % 0x10000 = a := by
  rw [BitVec.toNat_ofNat]
  omega

/-- A read inside the chip. -/
theorem readChip_eq {cartridge : Cartridge} {eepromChip : EepromChip} {a : Nat}
    (ha : a < chipSize eepromChip cartridge.saveType) :
    cartridge.readChip a = readSaveBuf cartridge.saveBuf a := by
  obtain ⟨saveType, saveBuf, flash, eeprom⟩ := cartridge
  cases saveType with
  | none => exact absurd ha (Nat.not_lt_zero a)
  | eeprom => rfl
  | sram =>
      have ha : a < 0x8000 := ha
      have hoffset : a % 0x10000 % 0x8000 = a := by omega
      show readSaveBuf saveBuf (a % 0x10000 % 0x8000) = _
      rw [hoffset]
  | flash64k =>
      have ha : a < 0x10000 := ha
      show readSaveBuf saveBuf (_ * 0x10000 + _) = _
      exact congrArg _ (bank_mul_add_offset (by omega))
  | flash128k =>
      have ha : a < 0x20000 := ha
      show readSaveBuf saveBuf (_ * 0x10000 + _) = _
      exact congrArg _ (bank_mul_add_offset ha)

/-- A write inside the chip. -/
theorem writeChip_eq {cartridge : Cartridge} {eepromChip : EepromChip} {a : Nat}
    (ha : a < chipSize eepromChip cartridge.saveType) (value : BitVec 8) :
    (cartridge.writeChip a value).saveBuf = writeSaveBuf cartridge.saveBuf a value ∧
      (cartridge.writeChip a value).saveType = cartridge.saveType := by
  obtain ⟨saveType, saveBuf, flash, eeprom⟩ := cartridge
  cases saveType with
  | none => exact absurd ha (Nat.not_lt_zero a)
  | eeprom => exact ⟨rfl, rfl⟩
  | sram =>
      have ha : a < 0x8000 := ha
      have hoffset : a % 0x10000 % 0x8000 = a := by omega
      refine ⟨?_, rfl⟩
      show writeSaveBuf saveBuf (a % 0x10000 % 0x8000) value = _
      rw [hoffset]
  | flash64k =>
      have ha : a < 0x10000 := ha
      refine ⟨?_, rfl⟩
      exact congrArg (writeSaveBuf saveBuf · value) (bank_mul_add_offset (by omega))
  | flash128k =>
      have ha : a < 0x20000 := ha
      refine ⟨?_, rfl⟩
      exact congrArg (writeSaveBuf saveBuf · value) (bank_mul_add_offset ha)

/-! ## The law -/

/-- The lengths that the mask can address: the chip's size divides them. -/
theorem dvd_length_loadAs {saveType : SaveType} {eepromChip : EepromChip}
    {content : List (BitVec 8)}
    (hfits : saveType = .eeprom ∨ content.length ≤ chipSize eepromChip saveType ∨
      chipSize eepromChip saveType ∣ content.length) :
    chipSize eepromChip saveType ∣
      (Cartridge.loadAs saveType eepromChip content).saveBuf.length := by
  rw [length_loadAs]
  by_cases heeprom : saveType = .eeprom
  · rw [if_pos heeprom]
  rw [if_neg heeprom]
  rcases hfits with heeprom' | hle | hdvd
  · exact absurd heeprom' heeprom
  · rw [max_eq_left hle]
  · rcases max_cases (chipSize eepromChip saveType) content.length with ⟨hmax, -⟩ | ⟨hmax, -⟩
    · rw [hmax]
    · rwa [hmax]

/-- Then every address of the chip is its own index. -/
theorem saveAddressing_of_dvd {saveType : SaveType} {eepromChip : EepromChip}
    {content : List (BitVec 8)} (hsome : saveType ≠ .none)
    (hdvd : chipSize eepromChip saveType ∣
      (Cartridge.loadAs saveType eepromChip content).saveBuf.length) :
    SaveAddressing saveType eepromChip content := by
  obtain ⟨k, hk⟩ := exists_chipSize_eq_two_pow eepromChip hsome
  have hpos : 0 < (Cartridge.loadAs saveType eepromChip content).saveBuf.length := by
    rw [length_loadAs, hk]
    have hpow := Nat.two_pow_pos k
    split_ifs <;> omega
  have hindex : ∀ a < chipSize eepromChip saveType,
      saveIndex (Cartridge.loadAs saveType eepromChip content).saveBuf.length a = a := by
    intro a ha
    rw [hk] at hdvd ha
    exact saveIndex_of_dvd hdvd hpos ha
  refine ⟨fun a ha b hb heq => ?_, fun a ha => ?_, fun cartridge htype hlen a ha b hb value => ?_⟩
  · rwa [hindex a ha, hindex b hb] at heq
  · have htype : (Cartridge.loadAs saveType eepromChip content).saveType = saveType := by
      unfold Cartridge.loadAs
      split_ifs <;> rfl
    have ha' : a < chipSize eepromChip (Cartridge.loadAs saveType eepromChip content).saveType := by
      rwa [htype]
    rw [readChip_eq ha', readSaveBuf_of_pos hpos, hindex a ha, getD_loadAs content ha]
  · subst htype
    obtain ⟨hbuf, htype⟩ := writeChip_eq ha value
    have hb' : b < chipSize eepromChip (cartridge.writeChip a value).saveType := by
      rwa [htype]
    rw [readChip_eq hb', hbuf, readChip_eq hb, readSaveBuf_writeSaveBuf (by omega), hlen,
      hindex a ha, hindex b hb]

/-- A length that the chip's size does not divide sends two addresses to one byte. -/
theorem not_saveAddressing {saveType : SaveType} {eepromChip : EepromChip}
    {content : List (BitVec 8)} (hsome : saveType ≠ .none) (heeprom : saveType ≠ .eeprom)
    (hlong : chipSize eepromChip saveType < content.length)
    (hdvd : ¬ chipSize eepromChip saveType ∣ content.length) :
    ¬ SaveAddressing saveType eepromChip content := by
  intro h
  obtain ⟨k, hk⟩ := exists_chipSize_eq_two_pow eepromChip hsome
  have hlen : (Cartridge.loadAs saveType eepromChip content).saveBuf.length = content.length := by
    rw [length_loadAs, if_neg heeprom, max_eq_right (by omega)]
  rw [hk] at hdvd
  obtain ⟨addr, hpos, hlt, hzero⟩ := exists_saveIndex_eq_zero (by omega) hdvd
  have heq := h.injective addr (by rwa [hk]) 0 (by omega) (by
    rw [hlen, hzero]
    exact (Nat.zero_and _).symm)
  omega

/-- **Save image addressing** holds exactly when there is no chip, the chip is an EEPROM, or the
file is no longer than the chip or its length a multiple of the chip's. -/
theorem save_addressing_law (saveType : SaveType) (eepromChip : EepromChip)
    (content : List (BitVec 8)) :
    SaveAddressing saveType eepromChip content ↔
      saveType = .none ∨ saveType = .eeprom ∨
        content.length ≤ chipSize eepromChip saveType ∨
        chipSize eepromChip saveType ∣ content.length := by
  by_cases hnone : saveType = .none
  · subst hnone
    refine iff_of_true ⟨?_, ?_, ?_⟩ (.inl rfl)
    · exact fun a ha => absurd ha (Nat.not_lt_zero a)
    · exact fun a ha => absurd ha (Nat.not_lt_zero a)
    · exact fun _ _ _ a ha => absurd ha (Nat.not_lt_zero a)
  constructor
  · intro h
    by_contra hnot
    simp only [not_or, Nat.not_le] at hnot
    exact not_saveAddressing hnot.1 hnot.2.1 hnot.2.2.1 hnot.2.2.2 h
  · intro hfits
    exact saveAddressing_of_dvd hnone (dvd_length_loadAs (hfits.resolve_left hnone))

/-- A 128K save file with a footer of 16 bytes. -/
def footerSave : List (BitVec 8) := List.replicate 0x20010 0

/-- Such a file leaves most of the chip misaddressed. -/
theorem footerSave_misaddressed :
    ¬ ∀ (saveType : SaveType) (eepromChip : EepromChip) (content : List (BitVec 8)),
      SaveAddressing saveType eepromChip content := by
  intro hclaim
  have hlen : footerSave.length = 0x20010 := List.length_replicate
  have hsave := hclaim .flash128k .large footerSave
  refine not_saveAddressing ?_ ?_ ?_ ?_ hsave
  · decide
  · decide
  · rw [hlen]
    decide
  · rw [hlen]
    decide

end AdvancedSlop
