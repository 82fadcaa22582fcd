/-
# Flash save safety

A flash chip takes its commands one byte at a time: `AA` at `5555`, `55` at `2AAA`, then the
command.  `CommandLog` reads the commands off the writes alone, without the flags of the code.

* `CommandLog.write` : what one write adds to the log;
* `MatchesLog` : the flags of the chip say what the log says;
* `flash_safety` : the save buffer changes only by a program byte after `A0` or by an erase command
  after `80`, the bank only by a bank byte after `B0`;
* `bankByteInSequence_unsafe` : the bank byte of a pending `B0` may fall inside a sequence.
-/
import AdvancedSlop.Cartridge

namespace AdvancedSlop

/-! ## Commands -/

/-- A write to the window of the chip. -/
structure FlashWrite where
  offset : Nat
  value : BitVec 8
  deriving DecidableEq, Repr

/-- The two writes that come before every command. -/
def unlockSequence : List FlashWrite := [⟨0x5555, 0xAA⟩, ⟨0x2AAA, 0x55⟩]

/-- What the writes so far amount to. -/
structure CommandLog where
  /-- The writes of the sequence under way. -/
  sequence : List FlashWrite
  /-- The last completed command. -/
  last : Option FlashWrite
  /-- That command was the last write. -/
  fresh : Bool
  /-- A bank command is completed and its bank byte is still to come. -/
  bankDue : Bool
  deriving DecidableEq, Repr

namespace CommandLog

/-- No write yet. -/
def empty : CommandLog := ⟨[], none, false, false⟩

/-- The last completed command has this value. -/
def lastIs (log : CommandLog) (value : BitVec 8) : Bool := log.last.any fun w => w.value == value

/-- The next write is a program byte: it comes right after `A0`. -/
def programDue (log : CommandLog) : Bool := log.fresh && log.lastIs 0xA0

/-- The write is the bank byte of a bank command. -/
def IsBankByte (log : CommandLog) (w : FlashWrite) : Prop :=
  log.programDue = false ∧ log.bankDue = true ∧ w.offset = 0

instance (log : CommandLog) (w : FlashWrite) : Decidable (log.IsBankByte w) :=
  inferInstanceAs (Decidable (_ ∧ _ ∧ _))

/-- The write completes a command. -/
def Completes (log : CommandLog) (w : FlashWrite) : Prop :=
  log.programDue = false ∧ ¬ log.IsBankByte w ∧ log.sequence = unlockSequence

/-- One more write.  A program byte is no part of a sequence; `transparent` says whether a bank
byte leaves the sequence it falls into alone as well, or breaks it. -/
def write (transparent is128k : Bool) (log : CommandLog) (w : FlashWrite) : CommandLog :=
  if log.programDue then { log with fresh := false }
  else if log.IsBankByte w then
    { log with
      sequence := if transparent then log.sequence else []
      fresh := false
      bankDue := false }
  else if log.sequence = unlockSequence then
    { sequence := []
      last := some w
      fresh := true
      bankDue := log.bankDue || (is128k && w.value == 0xB0) }
  else if log.sequence ++ [w] <+: unlockSequence then
    { log with sequence := log.sequence ++ [w], fresh := false }
  else { log with sequence := [], fresh := false }

end CommandLog

/-! ## Runs -/

/-- An access to the window of the chip. -/
inductive SramAccess
  | read (addr : Nat)
  | write (addr : Nat) (value : BitVec 8)
  deriving DecidableEq, Repr

/-- The write of an access, by its offset in the window. -/
def SramAccess.flashWrite : SramAccess → Option FlashWrite
  | .read _ => none
  | .write addr value => some ⟨addr % 0x10000, value⟩

/-- The cartridge after an access; `cartridge_read_sram` changes nothing. -/
def Cartridge.access (cartridge : Cartridge) : SramAccess → Cartridge
  | .read _ => cartridge
  | .write addr value => cartridge.writeSram addr value

/-- The cartridge after a list of accesses. -/
def Cartridge.accesses (cartridge : Cartridge) (accesses : List SramAccess) : Cartridge :=
  accesses.foldl Cartridge.access cartridge

/-- The log of a list of accesses. -/
def CommandLog.ofAccesses (transparent is128k : Bool) (accesses : List SramAccess) : CommandLog :=
  (accesses.filterMap SramAccess.flashWrite).foldl (CommandLog.write transparent is128k) .empty

/-- A cartridge with a flash chip, at reset. -/
def flashReset (is128k : Bool) (saveBuf : SaveBuf) : Cartridge where
  saveType := if is128k then .flash128k else .flash64k
  saveBuf := saveBuf
  flash := FlashState.default
  eeprom := EepromState.default

/-- The size of the chip. -/
def flashSize (is128k : Bool) : Nat := if is128k then 0x20000 else 0x10000

/-- The buffer with `n` bytes erased from `base` on. -/
def erased (saveBuf : SaveBuf) (base n : Nat) : SaveBuf :=
  saveBuf.mapIdx fun i byte => if base ≤ i ∧ i < base + n then 0xFF else byte

/-- What an access may do to the save buffer. -/
inductive BufferChange (log : CommandLog) (bank : BitVec 8) (saveBuf : SaveBuf) :
    SramAccess → SaveBuf → Prop
  /-- Nothing. -/
  | unchanged (access : SramAccess) : BufferChange log bank saveBuf access saveBuf
  /-- The byte right after a completed `A0`. -/
  | program {addr : Nat} {value : BitVec 8} (hdue : log.programDue = true) :
      BufferChange log bank saveBuf (.write addr value)
        (saveBuf.set (bank.toNat * 0x10000 + addr % 0x10000) value)
  /-- The command `10` at `5555`, the command before it an `80`. -/
  | chipErase {addr : Nat} (hcompletes : log.Completes ⟨addr % 0x10000, 0x10⟩)
      (hlast : log.lastIs 0x80 = true) (haddr : addr % 0x10000 = 0x5555) :
      BufferChange log bank saveBuf (.write addr 0x10) (erased saveBuf 0 saveBuf.length)
  /-- The command `30` in a sector, the command before it an `80`. -/
  | sectorErase {addr : Nat} (hcompletes : log.Completes ⟨addr % 0x10000, 0x30⟩)
      (hlast : log.lastIs 0x80 = true) :
      BufferChange log bank saveBuf (.write addr 0x30)
        (erased saveBuf (bank.toNat * 0x10000 + addr % 0x10000 / 0x1000 * 0x1000) 0x1000)

/-- What an access may do to the bank. -/
inductive BankChange (log : CommandLog) (bank : BitVec 8) : SramAccess → BitVec 8 → Prop
  /-- Nothing. -/
  | unchanged (access : SramAccess) : BankChange log bank access bank
  /-- The bank byte of a completed `B0`. -/
  | select {addr : Nat} {value : BitVec 8} (hbyte : log.IsBankByte ⟨addr % 0x10000, value⟩) :
      BankChange log bank (.write addr value) (value &&& 1)

/-- An access is safe: it changes the buffer and the bank only as the commands so far allow. -/
structure SafeAccess (is128k : Bool) (log : CommandLog) (cartridge : Cartridge)
    (access : SramAccess) : Prop where
  buffer : BufferChange log cartridge.flash.bank cartridge.saveBuf access
    (cartridge.access access).saveBuf
  bank : BankChange log cartridge.flash.bank access (cartridge.access access).flash.bank
  bank64k : is128k = false → (cartridge.access access).flash.bank = 0

/-! ## The flags and the log -/

/-- The flags of the chip say what the log says. -/
structure MatchesLog (is128k : Bool) (log : CommandLog) (cartridge : Cartridge) : Prop where
  saveType : cartridge.saveType = if is128k then .flash128k else .flash64k
  length : cartridge.saveBuf.length = flashSize is128k
  stage : log.sequence = unlockSequence.take cartridge.flash.cmdStage
  stageLe : cartridge.flash.cmdStage ≤ 2
  writeMode : cartridge.flash.writeMode = log.programDue
  bankMode : cartridge.flash.bankMode = log.bankDue
  eraseMode : cartridge.flash.eraseMode = log.lastIs 0x80
  bankDue : is128k = false → log.bankDue = false
  bank64k : is128k = false → cartridge.flash.bank = 0
  bankLe : cartridge.flash.bank.toNat ≤ 1

/-- At reset nothing has been written. -/
theorem matchesLog_reset {is128k : Bool} {saveBuf : SaveBuf}
    (hlen : saveBuf.length = flashSize is128k) :
    MatchesLog is128k .empty (flashReset is128k saveBuf) where
  saveType := rfl
  length := hlen
  stage := rfl
  stageLe := Nat.zero_le 2
  writeMode := rfl
  bankMode := rfl
  eraseMode := rfl
  bankDue _ := rfl
  bank64k _ := rfl
  bankLe := Nat.zero_le 1

/-! ## Erasing -/

/-- The size of the chip is a power of two. -/
theorem flashSize_eq (is128k : Bool) : flashSize is128k = 2 ^ (if is128k then 17 else 16) := by
  cases is128k <;> rfl

/-- An access inside the chip goes where it says. -/
theorem flash_writeSaveBuf_eq {is128k : Bool} {saveBuf : SaveBuf} {addr : Nat}
    (hlen : saveBuf.length = flashSize is128k) (haddr : addr < flashSize is128k)
    (value : BitVec 8) : writeSaveBuf saveBuf addr value = saveBuf.set addr value := by
  have hpos : 0 < saveBuf.length := by omega
  rw [flashSize_eq] at hlen haddr
  rw [writeSaveBuf_of_pos hpos, saveIndex_of_dvd (dvd_of_eq hlen.symm) hpos haddr]

@[simp] theorem length_erased (saveBuf : SaveBuf) (base n : Nat) :
    (erased saveBuf base n).length = saveBuf.length :=
  List.length_mapIdx

/-- The erase loops erase what they say. -/
theorem eraseRange_eq {is128k : Bool} {saveBuf : SaveBuf} {base n : Nat}
    (hlen : saveBuf.length = flashSize is128k) (hle : base + n ≤ flashSize is128k) :
    eraseRange saveBuf base n = erased saveBuf base n := by
  induction n with
  | zero =>
      apply List.ext_getElem?
      intro i
      have hnone : ¬ (base ≤ i ∧ i < base + 0) := by omega
      rw [erased, List.getElem?_mapIdx]
      simp only [hnone, if_false]
      exact (Option.map_id' ..).symm
  | succ n ih =>
      have hsucc : eraseRange saveBuf base (n + 1) =
          writeSaveBuf (eraseRange saveBuf base n) (base + n) 0xFF := by
        rw [eraseRange, List.range_succ, List.foldl_append]
        rfl
      have hold := ih (by omega)
      have hlen' : (erased saveBuf base n).length = flashSize is128k := by
        rw [length_erased, hlen]
      rw [hsucc, hold, flash_writeSaveBuf_eq hlen' (by omega)]
      apply List.ext_getElem?
      intro i
      rw [List.getElem?_set, length_erased, erased, erased, List.getElem?_mapIdx,
        List.getElem?_mapIdx]
      by_cases hi : base + n = i
      · subst hi
        have hin : base + n < saveBuf.length := by omega
        rw [if_pos rfl, if_pos hin, List.getElem?_eq_getElem hin]
        simp
      · rw [if_neg hi]
        have hiff : (base ≤ i ∧ i < base + n) ↔ (base ≤ i ∧ i < base + (n + 1)) := by omega
        simp only [hiff]

/-! ## One write -/

section Step

variable {is128k : Bool} {log : CommandLog} {cartridge : Cartridge}

/-- The window of a flash chip. -/
theorem MatchesLog.writeSram_eq (h : MatchesLog is128k log cartridge) (addr : Nat)
    (value : BitVec 8) :
    cartridge.writeSram addr value = cartridge.writeFlash (addr % 0x10000) value := by
  unfold Cartridge.writeSram
  rw [h.saveType]
  cases is128k <;> rfl

/-- An address of the window lies in the current bank of the chip. -/
theorem MatchesLog.addr_lt (h : MatchesLog is128k log cartridge) {offset : Nat}
    (hoffset : offset < 0x10000) :
    cartridge.flash.bank.toNat * 0x10000 + offset < flashSize is128k := by
  have hbank := h.bankLe
  cases is128k with
  | false =>
      have hzero : cartridge.flash.bank.toNat = 0 := by rw [h.bank64k rfl]; rfl
      show _ < 0x10000
      omega
  | true =>
      show _ < 0x20000
      omega

/-- What a program byte does. -/
theorem MatchesLog.access_program (h : MatchesLog is128k log cartridge)
    (hdue : log.programDue = true) (addr : Nat) (value : BitVec 8) :
    cartridge.access (.write addr value) =
      { cartridge with
        flash := { cartridge.flash with writeMode := false }
        saveBuf := cartridge.saveBuf.set (cartridge.flash.bank.toNat * 0x10000 + addr % 0x10000)
          value } := by
  have hlt := h.addr_lt (Nat.mod_lt addr (by omega : 0x10000 > 0))
  show cartridge.writeSram addr value = _
  rw [h.writeSram_eq, Cartridge.writeFlash, if_pos (h.writeMode.trans hdue),
    flash_writeSaveBuf_eq h.length hlt]

/-- A program byte is safe. -/
theorem MatchesLog.program (h : MatchesLog is128k log cartridge) (hdue : log.programDue = true)
    (addr : Nat) (value : BitVec 8) :
    SafeAccess is128k log cartridge (.write addr value) ∧
      MatchesLog is128k (log.write true is128k ⟨addr % 0x10000, value⟩)
        (cartridge.access (.write addr value)) := by
  have hstep := h.access_program hdue addr value
  have hlog : log.write true is128k ⟨addr % 0x10000, value⟩ = { log with fresh := false } :=
    if_pos hdue
  refine ⟨⟨?_, ?_, ?_⟩, ?_⟩
  · rw [hstep]
    exact .program hdue
  · rw [hstep]
    exact .unchanged _
  · rw [hstep]
    exact h.bank64k
  · rw [hstep, hlog]
    exact
      { saveType := h.saveType
        length := List.length_set.trans h.length
        stage := h.stage
        stageLe := h.stageLe
        writeMode := rfl
        bankMode := h.bankMode
        eraseMode := h.eraseMode
        bankDue := h.bankDue
        bank64k := h.bank64k
        bankLe := h.bankLe }

/-- A bank byte. -/
theorem MatchesLog.bankByte (h : MatchesLog is128k log cartridge) {addr : Nat} {value : BitVec 8}
    (hbyte : log.IsBankByte ⟨addr % 0x10000, value⟩) :
    SafeAccess is128k log cartridge (.write addr value) ∧
      MatchesLog is128k (log.write true is128k ⟨addr % 0x10000, value⟩)
        (cartridge.access (.write addr value)) := by
  obtain ⟨hdue, hbank, hoffset⟩ := hbyte
  have htrue : is128k = true := by
    by_contra hfalse
    exact absurd (h.bankDue (by simpa using hfalse)) (by simp [hbank])
  subst htrue
  have hwrite : ¬ cartridge.flash.writeMode = true := by simp [h.writeMode, hdue]
  have hmode : cartridge.flash.bankMode = true ∧ addr % 0x10000 = 0 :=
    ⟨h.bankMode.trans hbank, hoffset⟩
  have hstep : cartridge.access (.write addr value) =
      { cartridge with flash := { cartridge.flash with bank := value &&& 1, bankMode := false } } := by
    show cartridge.writeSram addr value = _
    rw [h.writeSram_eq, Cartridge.writeFlash, if_neg hwrite, if_pos hmode, h.saveType]
    rfl
  have hlog : log.write true true ⟨addr % 0x10000, value⟩ =
      { log with fresh := false, bankDue := false } := by
    rw [CommandLog.write, if_neg (by simp [hdue]), if_pos ⟨hdue, hbank, hoffset⟩]
    rfl
  refine ⟨⟨?_, ?_, by simp⟩, ?_⟩
  · rw [hstep]
    exact .unchanged _
  · rw [hstep]
    exact .select ⟨hdue, hbank, hoffset⟩
  · rw [hstep, hlog]
    exact
      { saveType := h.saveType
        length := h.length
        stage := h.stage
        stageLe := h.stageLe
        writeMode := by simpa [CommandLog.programDue] using hwrite
        bankMode := rfl
        eraseMode := h.eraseMode
        bankDue := fun _ => rfl
        bank64k := by simp
        bankLe := by
          show (value &&& 1).toNat ≤ 1
          rw [BitVec.toNat_and]
          exact Nat.and_le_right }

/-- A write that completes a command finds the chip at its last stage. -/
theorem MatchesLog.completes_iff (h : MatchesLog is128k log cartridge) :
    log.sequence = unlockSequence ↔ cartridge.flash.cmdStage = 2 := by
  have hle := h.stageLe
  rw [h.stage]
  constructor
  · intro heq
    have hlen := congrArg List.length heq
    simp only [List.length_take, unlockSequence, List.length_cons, List.length_nil] at hlen
    omega
  · intro heq
    rw [heq]
    rfl

/-- A write that is neither a program byte nor a bank byte belongs to a sequence. -/
theorem MatchesLog.access_of_not (h : MatchesLog is128k log cartridge) {addr : Nat}
    {value : BitVec 8} (hdue : log.programDue = false)
    (hbyte : ¬ log.IsBankByte ⟨addr % 0x10000, value⟩) :
    cartridge.access (.write addr value) = cartridge.flashSequence (addr % 0x10000) value := by
  have hwrite : ¬ cartridge.flash.writeMode = true := by simp [h.writeMode, hdue]
  have hmode : ¬ (cartridge.flash.bankMode = true ∧ addr % 0x10000 = 0) := by
    rintro ⟨hmode, hoffset⟩
    exact hbyte ⟨hdue, h.bankMode.symm.trans hmode, hoffset⟩
  show cartridge.writeSram addr value = _
  rw [h.writeSram_eq, Cartridge.writeFlash, if_neg hwrite, if_neg hmode]

/-- The flags after a completed command. -/
theorem MatchesLog.completed (h : MatchesLog is128k log cartridge) {w : FlashWrite}
    {saveBuf : SaveBuf} {flash : FlashState}
    (hlen : saveBuf.length = cartridge.saveBuf.length) (hstage : flash.cmdStage = 0)
    (hwrite : flash.writeMode = (w.value == 0xA0)) (herase : flash.eraseMode = (w.value == 0x80))
    (hbankMode : flash.bankMode = (log.bankDue || (is128k && w.value == 0xB0)))
    (hbank : flash.bank = cartridge.flash.bank) :
    MatchesLog is128k
      { sequence := []
        last := some w
        fresh := true
        bankDue := log.bankDue || (is128k && w.value == 0xB0) }
      { cartridge with flash := flash, saveBuf := saveBuf } where
  saveType := h.saveType
  length := hlen.trans h.length
  stage := by
    show [] = unlockSequence.take flash.cmdStage
    rw [hstage, List.take_zero]
  stageLe := by
    show flash.cmdStage ≤ 2
    omega
  writeMode := hwrite
  bankMode := hbankMode
  eraseMode := herase
  bankDue hfalse := by simp [h.bankDue hfalse, hfalse]
  bank64k hfalse := hbank.trans (h.bank64k hfalse)
  bankLe := by
    show flash.bank.toNat ≤ 1
    rw [hbank]
    exact h.bankLe

/-- What a flag command does to the flags. -/
theorem flagCommand_spec (flash : FlashState) (is128k : Bool) (value : BitVec 8) :
    (flash.flagCommand is128k value).cmdStage = flash.cmdStage ∧
      (flash.flagCommand is128k value).bank = flash.bank ∧
      (flash.flagCommand is128k value).writeMode = (flash.writeMode || value == 0xA0) ∧
      (flash.flagCommand is128k value).eraseMode = (flash.eraseMode || value == 0x80) ∧
      (flash.flagCommand is128k value).bankMode =
        (flash.bankMode || (is128k && value == 0xB0)) := by
  unfold FlashState.flagCommand
  split_ifs with h1 h2 h3 h4 h5
  · subst h1; simp
  · subst h2; simp
  · subst h3; simp
  · subst h4; simp
  · obtain ⟨rfl, rfl⟩ := h5; simp
  · have hA0 : (value == 0xA0) = false := beq_eq_false_iff_ne.mpr h3
    have h80 : (value == 0x80) = false := beq_eq_false_iff_ne.mpr h4
    refine ⟨rfl, rfl, by rw [hA0, Bool.or_false], by rw [h80, Bool.or_false], ?_⟩
    by_cases hvalue : value = 0xB0
    · have hfalse : is128k = false := by
        by_contra htrue
        exact h5 ⟨hvalue, by simpa using htrue⟩
      simp [hfalse]
    · have hB0 : (value == 0xB0) = false := beq_eq_false_iff_ne.mpr hvalue
      rw [hB0, Bool.and_false, Bool.or_false]

/-- A completed command. -/
theorem MatchesLog.command (h : MatchesLog is128k log cartridge) {addr : Nat} {value : BitVec 8}
    (hcompletes : log.Completes ⟨addr % 0x10000, value⟩) :
    SafeAccess is128k log cartridge (.write addr value) ∧
      MatchesLog is128k (log.write true is128k ⟨addr % 0x10000, value⟩)
        (cartridge.access (.write addr value)) := by
  obtain ⟨hdue, hbyte, hsequence⟩ := id hcompletes
  have hstep : cartridge.access (.write addr value) =
      cartridge.flashCommand (addr % 0x10000) value := by
    rw [h.access_of_not hdue hbyte, Cartridge.flashSequence, h.completes_iff.mp hsequence]
    rfl
  have hlog : log.write true is128k ⟨addr % 0x10000, value⟩ =
      { sequence := []
        last := some ⟨addr % 0x10000, value⟩
        fresh := true
        bankDue := log.bankDue || (is128k && value == 0xB0) } := by
    rw [CommandLog.write, if_neg (by simp [hdue]), if_neg hbyte, if_pos hsequence]
  have hwriteMode : cartridge.flash.writeMode = false := h.writeMode.trans hdue
  by_cases hchip : cartridge.flash.eraseMode = true ∧ addr % 0x10000 = 0x5555 ∧ value = 0x10
  · obtain ⟨herase, hoffset, rfl⟩ := id hchip
    rw [Cartridge.flashCommand, if_pos hchip,
      eraseRange_eq h.length (by rw [h.length]; omega)] at hstep
    refine ⟨⟨?_, ?_, ?_⟩, ?_⟩
    · rw [hstep]
      exact .chipErase hcompletes (h.eraseMode.symm.trans herase) hoffset
    · rw [hstep]
      exact .unchanged _
    · rw [hstep]
      exact h.bank64k
    · rw [hstep, hlog]
      exact h.completed (length_erased _ _ _) rfl hwriteMode rfl (by simp [h.bankMode]) rfl
  by_cases hsector : cartridge.flash.eraseMode = true ∧ value = 0x30
  · obtain ⟨herase, rfl⟩ := id hsector
    have hlt := h.addr_lt (Nat.mod_lt addr (by omega : 0x10000 > 0))
    have hend : cartridge.flash.bank.toNat * 0x10000 + addr % 0x10000 / 0x1000 * 0x1000 + 0x1000 ≤
        flashSize is128k := by
      cases is128k with
      | false =>
          have hlt : _ < 0x10000 := hlt
          show _ ≤ 0x10000
          omega
      | true =>
          have hlt : _ < 0x20000 := hlt
          show _ ≤ 0x20000
          omega
    rw [Cartridge.flashCommand, if_neg hchip, if_pos hsector, eraseRange_eq h.length hend] at hstep
    refine ⟨⟨?_, ?_, ?_⟩, ?_⟩
    · rw [hstep]
      exact .sectorErase hcompletes (h.eraseMode.symm.trans herase)
    · rw [hstep]
      exact .unchanged _
    · rw [hstep]
      exact h.bank64k
    · rw [hstep, hlog]
      exact h.completed (length_erased _ _ _) rfl hwriteMode rfl (by simp [h.bankMode]) rfl
  · rw [Cartridge.flashCommand, if_neg hchip, if_neg hsector] at hstep
    have htype : decide (cartridge.saveType = .flash128k) = is128k := by
      rw [h.saveType]
      cases is128k <;> rfl
    rw [htype] at hstep
    obtain ⟨hstage, hbank, hwrite, herase, hbankMode⟩ :=
      flagCommand_spec { cartridge.flash with cmdStage := 0, eraseMode := false } is128k value
    refine ⟨⟨?_, ?_, fun hfalse => ?_⟩, ?_⟩
    · rw [hstep]
      exact .unchanged _
    · rw [hstep]
      show BankChange _ _ _ (FlashState.flagCommand _ _ _).bank
      rw [hbank]
      exact .unchanged _
    · rw [hstep]
      exact hbank.trans (h.bank64k hfalse)
    · rw [hstep, hlog]
      refine h.completed rfl hstage ?_ ?_ ?_ hbank
      · rw [hwrite, hwriteMode, Bool.false_or]
      · rw [herase, Bool.false_or]
      · rw [hbankMode, h.bankMode]

/-- A write that completes no command goes on with a sequence or breaks it. -/
theorem MatchesLog.unlock (h : MatchesLog is128k log cartridge) {addr : Nat} {value : BitVec 8}
    (hdue : log.programDue = false) (hbyte : ¬ log.IsBankByte ⟨addr % 0x10000, value⟩)
    (hsequence : log.sequence ≠ unlockSequence) :
    SafeAccess is128k log cartridge (.write addr value) ∧
      MatchesLog is128k (log.write true is128k ⟨addr % 0x10000, value⟩)
        (cartridge.access (.write addr value)) := by
  have hstageLe := h.stageLe
  have hstageNe : cartridge.flash.cmdStage ≠ 2 := fun heq => hsequence (h.completes_iff.mpr heq)
  -- the stage after the write, and the writes of the sequence
  obtain ⟨stage, hle, hstep, hstage⟩ : ∃ stage ≤ 2,
      cartridge.access (.write addr value) =
        { cartridge with flash := { cartridge.flash with cmdStage := stage } } ∧
      log.write true is128k ⟨addr % 0x10000, value⟩ =
        { log with sequence := unlockSequence.take stage, fresh := false } := by
    rw [h.access_of_not hdue hbyte]
    have hlog : log.write true is128k ⟨addr % 0x10000, value⟩ =
        if log.sequence ++ [⟨addr % 0x10000, value⟩] <+: unlockSequence then
          { log with sequence := log.sequence ++ [⟨addr % 0x10000, value⟩], fresh := false }
        else { log with sequence := [], fresh := false } := by
      rw [CommandLog.write, if_neg (by simp [hdue]), if_neg hbyte, if_neg hsequence]
    obtain hzero | hone : cartridge.flash.cmdStage = 0 ∨ cartridge.flash.cmdStage = 1 := by omega
    · have hempty : log.sequence = [] := by rw [h.stage, hzero]; rfl
      rw [hlog, hempty]
      have hcode : cartridge.flashSequence (addr % 0x10000) value =
          if addr % 0x10000 = 0x5555 ∧ value = 0xAA then
            { cartridge with flash := { cartridge.flash with cmdStage := 1 } }
          else cartridge := by
        rw [Cartridge.flashSequence, hzero]
        rfl
      by_cases hfirst : addr % 0x10000 = 0x5555 ∧ value = 0xAA
      · refine ⟨1, by omega, hcode.trans (if_pos hfirst), ?_⟩
        rw [hfirst.1, hfirst.2]
        rfl
      · refine ⟨0, by omega, ?_, if_neg ?_⟩
        · rw [hcode, if_neg hfirst, ← hzero]
        · rintro hprefix
          rw [List.nil_append, unlockSequence, List.cons_prefix_cons, FlashWrite.mk.injEq] at hprefix
          exact hfirst hprefix.1
    · have hfirst : log.sequence = [⟨0x5555, 0xAA⟩] := by rw [h.stage, hone]; rfl
      rw [hlog, hfirst]
      have hcode : cartridge.flashSequence (addr % 0x10000) value =
          { cartridge with
            flash := { cartridge.flash with
              cmdStage := if addr % 0x10000 = 0x2AAA ∧ value = 0x55 then 2 else 0 } } := by
        rw [Cartridge.flashSequence, hone]
        rfl
      by_cases hsecond : addr % 0x10000 = 0x2AAA ∧ value = 0x55
      · refine ⟨2, by omega, by rw [hcode, if_pos hsecond], ?_⟩
        rw [hsecond.1, hsecond.2]
        rfl
      · refine ⟨0, by omega, by rw [hcode, if_neg hsecond], if_neg ?_⟩
        rintro hprefix
        rw [List.singleton_append, unlockSequence, List.cons_prefix_cons, List.cons_prefix_cons,
          FlashWrite.mk.injEq] at hprefix
        exact hsecond (FlashWrite.mk.injEq .. ▸ hprefix.2.1)
  rw [hstage]
  refine ⟨⟨?_, ?_, ?_⟩, ?_⟩
  · rw [hstep]
    exact .unchanged _
  · rw [hstep]
    exact .unchanged _
  · rw [hstep]
    exact h.bank64k
  · rw [hstep]
    exact
      { saveType := h.saveType
        length := h.length
        stage := rfl
        stageLe := hle
        writeMode := h.writeMode.trans hdue
        bankMode := h.bankMode
        eraseMode := h.eraseMode
        bankDue := h.bankDue
        bank64k := h.bank64k
        bankLe := h.bankLe }

/-- **One write is safe**, and the flags go on to say what the log says. -/
theorem MatchesLog.write (h : MatchesLog is128k log cartridge) (addr : Nat) (value : BitVec 8) :
    SafeAccess is128k log cartridge (.write addr value) ∧
      MatchesLog is128k (log.write true is128k ⟨addr % 0x10000, value⟩)
        (cartridge.access (.write addr value)) := by
  by_cases hdue : log.programDue = true
  · exact h.program hdue addr value
  have hnot : log.programDue = false := by simpa using hdue
  by_cases hbyte : log.IsBankByte ⟨addr % 0x10000, value⟩
  · exact h.bankByte hbyte
  by_cases hsequence : log.sequence = unlockSequence
  · exact h.command ⟨hnot, hbyte, hsequence⟩
  · exact h.unlock hnot hbyte hsequence

end Step

/-! ## Runs -/

/-- One more access. -/
theorem ofAccesses_append (transparent is128k : Bool) (before : List SramAccess)
    (access : SramAccess) :
    CommandLog.ofAccesses transparent is128k (before ++ [access]) =
      match access.flashWrite with
      | none => CommandLog.ofAccesses transparent is128k before
      | some w => (CommandLog.ofAccesses transparent is128k before).write transparent is128k w := by
  rw [CommandLog.ofAccesses, List.filterMap_append, List.foldl_append]
  cases access <;> rfl

/-- After any run the flags say what the log of the run says. -/
theorem matchesLog_accesses {is128k : Bool} {saveBuf : SaveBuf}
    (hlen : saveBuf.length = flashSize is128k) (before : List SramAccess) :
    MatchesLog is128k (CommandLog.ofAccesses true is128k before)
      ((flashReset is128k saveBuf).accesses before) := by
  induction before using List.reverseRecOn with
  | nil => exact matchesLog_reset hlen
  | append_singleton before access ih =>
      rw [ofAccesses_append, Cartridge.accesses, List.foldl_append]
      cases access with
      | read addr => exact ih
      | write addr value => exact (ih.write addr value).2

/-- **Flash save safety.**  After every run of reads and writes from reset, the next access changes
the save buffer and the bank only as the commands of the run allow. -/
theorem flash_safety (is128k : Bool) (saveBuf : SaveBuf)
    (hlen : saveBuf.length = flashSize is128k) (before : List SramAccess) (access : SramAccess) :
    SafeAccess is128k (CommandLog.ofAccesses true is128k before)
      ((flashReset is128k saveBuf).accesses before) access := by
  have h := matchesLog_accesses hlen before
  cases access with
  | read addr => exact ⟨.unchanged _, .unchanged _, h.bank64k⟩
  | write addr value => exact (h.write addr value).1

/-- The program command, then its byte. -/
def programRun : List SramAccess :=
  [.write 0x0E005555 0xAA, .write 0x0E002AAA 0x55, .write 0x0E005555 0xA0]

/-- A program command on an erased 128K chip. -/
theorem programRun_safe :
    SafeAccess true (CommandLog.ofAccesses true true programRun)
      ((flashReset true (List.replicate 0x20000 0xFF)).accesses programRun)
      (.write 0x0E001234 0x42) :=
  flash_safety true (List.replicate 0x20000 0xFF) List.length_replicate programRun _

/-- A bank command, and its bank byte inside the program command that follows. -/
def bankByteRun : List SramAccess :=
  [.write 0x0E005555 0xAA, .write 0x0E002AAA 0x55, .write 0x0E005555 0xB0,
    .write 0x0E005555 0xAA, .write 0x0E000000 0x00, .write 0x0E002AAA 0x55,
    .write 0x0E005555 0xA0]

/-- The chip then waits for a program byte. -/
theorem bankByteRun_flash (saveBuf : SaveBuf) :
    (flashReset true saveBuf).accesses bankByteRun =
      { flashReset true saveBuf with flash := { FlashState.default with writeMode := true } } := by
  simp [bankByteRun, Cartridge.accesses, Cartridge.access, Cartridge.writeSram,
    Cartridge.writeFlash, Cartridge.flashSequence, Cartridge.flashCommand, FlashState.flagCommand,
    flashReset, FlashState.default]

/-- A write that is no erase command changes the buffer only as a program byte. -/
theorem BufferChange.of_value {log : CommandLog} {bank : BitVec 8} {saveBuf saveBuf' : SaveBuf}
    {addr : Nat} {value : BitVec 8}
    (h : BufferChange log bank saveBuf (.write addr value) saveBuf') (hchip : value ≠ 0x10)
    (hsector : value ≠ 0x30) (hdue : log.programDue = false) : saveBuf' = saveBuf := by
  cases h with
  | unchanged => rfl
  | program hdue' => exact absurd hdue' (by simp [hdue])
  | chipErase => exact absurd rfl hchip
  | sectorErase => exact absurd rfl hsector

/-- Were a bank byte to break the sequence it falls into, the byte after that run would be none to
program; the chip programs it. -/
theorem bankByteInSequence_unsafe :
    ¬ ∀ (is128k : Bool) (saveBuf : SaveBuf), saveBuf.length = flashSize is128k →
      ∀ (before : List SramAccess) (access : SramAccess),
        SafeAccess is128k (CommandLog.ofAccesses false is128k before)
          ((flashReset is128k saveBuf).accesses before) access := by
  intro hclaim
  have herasedChip : ∀ n i, i < n → ∃ saveBuf : SaveBuf, saveBuf.length = n ∧
      saveBuf[i]? = some 0xFF := fun n i hi =>
    ⟨List.replicate n 0xFF, List.length_replicate, List.getElem?_replicate_of_lt hi⟩
  obtain ⟨saveBuf, hlen, herased⟩ := herasedChip (flashSize true) 0x1234 (by decide)
  have hmatch := matchesLog_accesses hlen bankByteRun
  rw [bankByteRun_flash] at hmatch
  have hsafe := (hclaim true saveBuf hlen bankByteRun (.write 0x0E001234 0x42)).buffer
  rw [bankByteRun_flash, hmatch.access_program (by decide)] at hsafe
  have hsame := hsafe.of_value (by decide) (by decide) (by decide)
  have hset : saveBuf.set 0x1234 0x42 = saveBuf := by
    simpa [FlashState.default, flashReset] using hsame
  rw [← hset, List.getElem?_set_self (by rw [hlen]; decide)] at herased
  exact absurd herased (by decide)

end AdvancedSlop
