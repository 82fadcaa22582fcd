/-
# Data processing in Thumb state

The handlers of `interpreter/thumb_alu.rs` against the ARM instructions they stand for.

* `ThumbAlu` : the handlers, and `thumbAluEntry`, the entries of `THUMB_TABLE` that process data;
* `thumbInst` : the ARM instruction of a Thumb opcode, and what the pc reads as in it;
* `interpreter_alu_law` : in both states the interpreter does what the architecture says.
-/
import AdvancedSlop.InterpreterAlu

namespace AdvancedSlop

open WordArith

attribute [local instance] neZero_regs

/-! ## The handlers -/

/-- A low register field. -/
def lowReg (opcode : BitVec 16) (lsb : ℕ) : Fin 16 := Fin.ofNat 16 (opcode.extractLsb' lsb 3).toNat

/-- `set_nzc`. -/
def setNzc (cpsr result : BitVec 32) (carry : Bool) : BitVec 32 :=
  (cpsr &&& ~~~(nBit ||| zBit ||| cBit)) ||| (result &&& nBit) ||| (if result = 0 then zBit else 0) |||
    ((BitVec.ofBool carry).setWidth 32 <<< 29)

/-- The registers with a result and a status register. -/
def ThreadRegs.finish (regs : ThreadRegs) (rd : Fin 16) (result cpsr : BitVec 32) :
    ThreadRegs × InstResult :=
  ({ regs.setReg rd result with cpsr := cpsr }, .continueNext 1)

section Handlers

variable (opcode : BitVec 16) (instAddr : BitVec 32) (regs : ThreadRegs)

/-- `reg_t`: the pc reads as the address of the instruction and 4. -/
def regT (i : Fin 16) : BitVec 32 := if i = 15 then instAddr + 4 else regs.getReg i

/-- `lsl_imm_t`. -/
def lslImmT : ThreadRegs × InstResult :=
  let op1 := regs.getReg (lowReg opcode 3)
  let amount := (opcode.extractLsb' 6 5).toNat
  let result := op1 <<< amount
  regs.finish (lowReg opcode 0) result
    (if amount = 0 then setNz regs.cpsr result
    else setNzc regs.cpsr result (op1.getLsbD (32 - amount)))

/-- `lsr_imm_t`. -/
def lsrImmT : ThreadRegs × InstResult :=
  let op1 := regs.getReg (lowReg opcode 3)
  let amount := (opcode.extractLsb' 6 5).toNat
  let result := if amount = 0 then 0 else op1 >>> amount
  regs.finish (lowReg opcode 0) result
    (setNzc regs.cpsr result (op1.getLsbD (if amount = 0 then 31 else amount - 1)))

/-- `asr_imm_t`. -/
def asrImmT : ThreadRegs × InstResult :=
  let op1 := regs.getReg (lowReg opcode 3)
  let amount := (opcode.extractLsb' 6 5).toNat
  let result := if amount = 0 then op1.sshiftRight 31 else op1.sshiftRight amount
  regs.finish (lowReg opcode 0) result
    (setNzc regs.cpsr result (op1.getLsbD (if amount = 0 then 31 else amount - 1)))

/-- `def_add_sub`. -/
def defAddSub (op2 : BitVec 32) (sub : Bool) : ThreadRegs × InstResult :=
  let op1 := regs.getReg (lowReg opcode 3)
  let result := if sub then op1 - op2 else op1 + op2
  regs.finish (lowReg opcode 0) result
    (if sub then subFlags regs.cpsr op1 op2 result else addFlags regs.cpsr op1 op2 result)

/-- `reg_op2`. -/
def regOp2 : BitVec 32 := regs.getReg (lowReg opcode 6)

/-- `imm3_op2`. -/
def imm3Op2 : BitVec 32 := (opcode.extractLsb' 6 3).setWidth 32

/-- `add_reg_t`. -/
def addRegT : ThreadRegs × InstResult := defAddSub opcode regs (regOp2 opcode regs) false

/-- `sub_reg_t`. -/
def subRegT : ThreadRegs × InstResult := defAddSub opcode regs (regOp2 opcode regs) true

/-- `add_imm3_t`. -/
def addImm3T : ThreadRegs × InstResult := defAddSub opcode regs (imm3Op2 opcode) false

/-- `sub_imm3_t`. -/
def subImm3T : ThreadRegs × InstResult := defAddSub opcode regs (imm3Op2 opcode) true

/-- The immediate of eight bits. -/
def imm8 : BitVec 32 := (opcode.extractLsb' 0 8).setWidth 32

/-- `mov_imm8_t`. -/
def movImm8T : ThreadRegs × InstResult :=
  regs.finish (lowReg opcode 8) (imm8 opcode) (setNz regs.cpsr (imm8 opcode))

/-- `cmp_imm8_t`. -/
def cmpImm8T : ThreadRegs × InstResult :=
  let op1 := regs.getReg (lowReg opcode 8)
  ({ regs with cpsr := subFlags regs.cpsr op1 (imm8 opcode) (op1 - imm8 opcode) }, .continueNext 1)

/-- `add_imm8_t`. -/
def addImm8T : ThreadRegs × InstResult :=
  let rd := lowReg opcode 8
  let op1 := regs.getReg rd
  let result := op1 + imm8 opcode
  regs.finish rd result (addFlags regs.cpsr op1 (imm8 opcode) result)

/-- `sub_imm8_t`. -/
def subImm8T : ThreadRegs × InstResult :=
  let rd := lowReg opcode 8
  let op1 := regs.getReg rd
  let result := op1 - imm8 opcode
  regs.finish rd result (subFlags regs.cpsr op1 (imm8 opcode) result)

/-- The operands of the register-to-register operations. -/
def dpA : BitVec 32 := regs.getReg (lowReg opcode 0)
def dpB : BitVec 32 := regs.getReg (lowReg opcode 3)

/-- `def_dp_logical`. -/
def defDpLogical (body : BitVec 32 → BitVec 32 → BitVec 32) : ThreadRegs × InstResult :=
  let result := body (dpA opcode regs) (dpB opcode regs)
  regs.finish (lowReg opcode 0) result (setNz regs.cpsr result)

/-- `and_dp_t`, `eor_dp_t`, `orr_dp_t`, `bic_dp_t`, `mvn_dp_t`. -/
def andDpT : ThreadRegs × InstResult := defDpLogical opcode regs fun a b => a &&& b
def eorDpT : ThreadRegs × InstResult := defDpLogical opcode regs fun a b => a ^^^ b
def orrDpT : ThreadRegs × InstResult := defDpLogical opcode regs fun a b => a ||| b
def bicDpT : ThreadRegs × InstResult := defDpLogical opcode regs fun a b => a &&& ~~~b
def mvnDpT : ThreadRegs × InstResult := defDpLogical opcode regs fun _ b => ~~~b

/-- `adc_dp_t`. -/
def adcDpT : ThreadRegs × InstResult :=
  let r := doAdc regs.cpsr (dpA opcode regs) (dpB opcode regs) true
  regs.finish (lowReg opcode 0) r.1 r.2

/-- `sbc_dp_t`. -/
def sbcDpT : ThreadRegs × InstResult :=
  let r := doSbc regs.cpsr (dpA opcode regs) (dpB opcode regs) true
  regs.finish (lowReg opcode 0) r.1 r.2

/-- `tst_dp_t`. -/
def tstDpT : ThreadRegs × InstResult :=
  ({ regs with cpsr := setNz regs.cpsr (dpA opcode regs &&& dpB opcode regs) }, .continueNext 1)

/-- `cmp_dp_t`. -/
def cmpDpT : ThreadRegs × InstResult :=
  let a := dpA opcode regs
  let b := dpB opcode regs
  ({ regs with cpsr := subFlags regs.cpsr a b (a - b) }, .continueNext 1)

/-- `cmn_dp_t`. -/
def cmnDpT : ThreadRegs × InstResult :=
  let a := dpA opcode regs
  let b := dpB opcode regs
  ({ regs with cpsr := addFlags regs.cpsr a b (a + b) }, .continueNext 1)

/-- `neg_dp_t`. -/
def negDpT : ThreadRegs × InstResult :=
  let b := dpB opcode regs
  let result := 0 - b
  regs.finish (lowReg opcode 0) result (subFlags regs.cpsr 0 b result)

/-- `mul_dp_t`. -/
def mulDpT : ThreadRegs × InstResult :=
  let result := dpA opcode regs * dpB opcode regs
  ((regs.finish (lowReg opcode 0) result (setNz regs.cpsr result)).1, .continueNext 4)

/-- The amount of a shift by a register. -/
def dpAmount : ℕ := (dpB opcode regs &&& 0xFF).toNat

/-- A shift by a register: an amount of 0 leaves the carry alone. -/
def defDpShift (result : BitVec 32) (carry : Bool) : ThreadRegs × InstResult :=
  regs.finish (lowReg opcode 0) result
    (if dpAmount opcode regs = 0 then setNz regs.cpsr result else setNzc regs.cpsr result carry)

/-- `lsl_dp_t`. -/
def lslDpT : ThreadRegs × InstResult :=
  let op1 := dpA opcode regs
  let amount := dpAmount opcode regs
  defDpShift opcode regs (if amount < 32 then op1 <<< amount else 0)
    (if amount ≤ 32 then op1.getLsbD (32 - amount) else false)

/-- `lsr_dp_t`. -/
def lsrDpT : ThreadRegs × InstResult :=
  let op1 := dpA opcode regs
  let amount := dpAmount opcode regs
  defDpShift opcode regs (if amount < 32 then op1 >>> amount else 0)
    (if amount ≤ 32 then op1.getLsbD (amount - 1) else false)

/-- `asr_dp_t`. -/
def asrDpT : ThreadRegs × InstResult :=
  let op1 := dpA opcode regs
  let amount := dpAmount opcode regs
  defDpShift opcode regs (if amount < 32 then op1.sshiftRight amount else op1.sshiftRight 31)
    (op1.getLsbD (if amount ≤ 32 then amount - 1 else 31))

/-- `ror_dp_t`. -/
def rorDpT : ThreadRegs × InstResult :=
  let op1 := dpA opcode regs
  let amount := dpAmount opcode regs
  defDpShift opcode regs (op1.rotateRight (amount % 32)) (op1.getLsbD ((amount - 1) % 32))

/-- The registers of the high register operations. -/
def hiRd : Fin 16 := Fin.ofNat 16 (((opcode >>> 4) &&& 8) ||| (opcode &&& 7)).toNat
def hiRs : Fin 16 := Fin.ofNat 16 (opcode.extractLsb' 3 4).toNat

/-- `add_h_t`. -/
def addHT : ThreadRegs × InstResult :=
  let result := regT instAddr regs (hiRd opcode) + regT instAddr regs (hiRs opcode)
  if hiRd opcode = 15 then (regs, .branch 1 ((result &&& ~~~1) ||| 1))
  else (regs.setReg (hiRd opcode) result, .continueNext 1)

/-- `cmp_h_t`. -/
def cmpHT : ThreadRegs × InstResult :=
  let op1 := regT instAddr regs (hiRd opcode)
  let op2 := regT instAddr regs (hiRs opcode)
  ({ regs with cpsr := subFlags regs.cpsr op1 op2 (op1 - op2) }, .continueNext 1)

/-- `mov_h_t`. -/
def movHT : ThreadRegs × InstResult :=
  let result := regT instAddr regs (hiRs opcode)
  if hiRd opcode = 15 then
    if hiRs opcode = 14 then (regs, .branchReturn 1 ((result &&& ~~~1) ||| 1))
    else (regs, .branch 1 ((result &&& ~~~1) ||| 1))
  else (regs.setReg (hiRd opcode) result, .continueNext 1)

/-- `add_pc_t`. -/
def addPcT : ThreadRegs × InstResult :=
  let base := (instAddr + 4) &&& ~~~3
  (regs.setReg (lowReg opcode 8) (base + (imm8 opcode <<< 2)), .continueNext 1)

/-- `add_sp_t`. -/
def addSpT : ThreadRegs × InstResult :=
  (regs.setReg (lowReg opcode 8) (regs.getReg 13 + (imm8 opcode <<< 2)), .continueNext 1)

/-- `add_sp_imm_t`. -/
def addSpImmT : ThreadRegs × InstResult :=
  let imm : BitVec 32 := (opcode.extractLsb' 0 7).setWidth 32 <<< 2
  let sp := regs.getReg 13
  (regs.setReg 13 (if opcode.getLsbD 7 then sp - imm else sp + imm), .continueNext 1)

end Handlers

/-- The handlers. -/
inductive ThumbAlu
  | lslImm | lsrImm | asrImm | addReg | subReg | addImm3 | subImm3
  | movImm8 | cmpImm8 | addImm8 | subImm8
  | andDp | eorDp | lslDp | lsrDp | asrDp | adcDp | sbcDp | rorDp
  | tstDp | negDp | cmpDp | cmnDp | orrDp | mulDp | bicDp | mvnDp
  | addH | cmpH | movH | addPc | addSp | addSpImm
  deriving DecidableEq, Repr

namespace ThumbAlu

/-- A handler. -/
def step (t : ThumbAlu) (opcode : BitVec 16) (instAddr : BitVec 32) (regs : ThreadRegs) :
    ThreadRegs × InstResult :=
  match t with
  | lslImm => lslImmT opcode regs
  | lsrImm => lsrImmT opcode regs
  | asrImm => asrImmT opcode regs
  | addReg => addRegT opcode regs
  | subReg => subRegT opcode regs
  | addImm3 => addImm3T opcode regs
  | subImm3 => subImm3T opcode regs
  | movImm8 => movImm8T opcode regs
  | cmpImm8 => cmpImm8T opcode regs
  | addImm8 => addImm8T opcode regs
  | subImm8 => subImm8T opcode regs
  | andDp => andDpT opcode regs
  | eorDp => eorDpT opcode regs
  | lslDp => lslDpT opcode regs
  | lsrDp => lsrDpT opcode regs
  | asrDp => asrDpT opcode regs
  | adcDp => adcDpT opcode regs
  | sbcDp => sbcDpT opcode regs
  | rorDp => rorDpT opcode regs
  | tstDp => tstDpT opcode regs
  | negDp => negDpT opcode regs
  | cmpDp => cmpDpT opcode regs
  | cmnDp => cmnDpT opcode regs
  | orrDp => orrDpT opcode regs
  | mulDp => mulDpT opcode regs
  | bicDp => bicDpT opcode regs
  | mvnDp => mvnDpT opcode regs
  | addH => addHT opcode instAddr regs
  | cmpH => cmpHT opcode instAddr regs
  | movH => movHT opcode instAddr regs
  | addPc => addPcT opcode instAddr regs
  | addSp => addSpT opcode regs
  | addSpImm => addSpImmT opcode regs

/-- The register-to-register handlers, in the order of `THUMB_TABLE`. -/
def dpHandlers : List ThumbAlu :=
  [andDp, eorDp, lslDp, lsrDp, asrDp, adcDp, sbcDp, rorDp,
    tstDp, negDp, cmpDp, cmnDp, orrDp, mulDp, bicDp, mvnDp]

end ThumbAlu

/-- The entries of `THUMB_TABLE` that process data: each handler fills the entries up to the
next one. -/
def thumbAluEntry (index : ℕ) : Option ThumbAlu :=
  if index < 32 then some .lslImm
  else if index < 64 then some .lsrImm
  else if index < 96 then some .asrImm
  else if index < 104 then some .addReg
  else if index < 112 then some .subReg
  else if index < 120 then some .addImm3
  else if index < 128 then some .subImm3
  else if index < 160 then some .movImm8
  else if index < 192 then some .cmpImm8
  else if index < 224 then some .addImm8
  else if index < 256 then some .subImm8
  else if index < 272 then ThumbAlu.dpHandlers[index - 256]?
  else if index < 276 then some .addH
  else if index < 280 then some .cmpH
  else if index < 284 then some .movH
  else if index < 640 then none
  else if index < 672 then some .addPc
  else if index < 704 then some .addSp
  else if index < 708 then some .addSpImm
  else none

/-- The dispatch of an opcode that processes data. -/
def thumbAlu (opcode : BitVec 16) (instAddr : BitVec 32) (regs : ThreadRegs) :
    Option (ThreadRegs × InstResult) :=
  (thumbAluEntry (opcode.extractLsb' 6 10).toNat).map fun t => t.step opcode instAddr regs

/-! ## The instructions they stand for -/

/-- **The formats of the architecture** that process data, by bits 15 to 6 of an opcode. -/
def thumbClass (index : BitVec 10) : Option ThumbAlu :=
  if index.extractLsb' 7 3 = 0 then
    [ThumbAlu.lslImm, .lsrImm, .asrImm][(index.extractLsb' 5 2).toNat]?.or
      [ThumbAlu.addReg, .subReg, .addImm3, .subImm3][(index.extractLsb' 3 2).toNat]?
  else if index.extractLsb' 7 3 = 1 then
    [ThumbAlu.movImm8, .cmpImm8, .addImm8, .subImm8][(index.extractLsb' 5 2).toNat]?
  else if index.extractLsb' 4 6 = 0x10 then
    [ThumbAlu.andDp, .eorDp, .lslDp, .lsrDp, .asrDp, .adcDp, .sbcDp, .rorDp,
      .tstDp, .negDp, .cmpDp, .cmnDp, .orrDp, .mulDp, .bicDp, .mvnDp][(index.extractLsb' 0 4).toNat]?
  else if index.extractLsb' 4 6 = 0x11 then
    [ThumbAlu.addH, .cmpH, .movH][(index.extractLsb' 2 2).toNat]?
  else if index.extractLsb' 6 4 = 0xA then if index.getLsbD 5 then some .addSp else some .addPc
  else if index.extractLsb' 2 8 = 0xB0 then some .addSpImm
  else none

/-- A register as second operand. -/
def Operand2.reg (rm : Fin 16) : Operand2 := .shiftImm rm .lsl 0

namespace ThumbAlu

/-- An instruction that sets the flags, with low registers. -/
def flagging (op : DataOp) (rd rn : Fin 16) (operand : Operand2) : ArmInst :=
  .data ⟨op, true, rn, rd, operand⟩

/-- A test or a comparison: the destination should be 0. -/
def testing (op : DataOp) (rn : Fin 16) (operand : Operand2) : ArmInst :=
  .data ⟨op, true, rn, 0, operand⟩

/-- **The instruction a Thumb instruction stands for.** -/
def armInst (t : ThumbAlu) (opcode : BitVec 16) : ArmInst :=
  let rd := lowReg opcode 0
  let rs := lowReg opcode 3
  let rn := lowReg opcode 6
  let rd8 := lowReg opcode 8
  let offset := opcode.extractLsb' 6 5
  let imm3 : Operand2 := .imm ((opcode.extractLsb' 6 3).setWidth 8) 0
  let imm8 : Operand2 := .imm (opcode.extractLsb' 0 8) 0
  match t with
  | lslImm => flagging .mov rd 0 (.shiftImm rs .lsl offset)
  | lsrImm => flagging .mov rd 0 (.shiftImm rs .lsr offset)
  | asrImm => flagging .mov rd 0 (.shiftImm rs .asr offset)
  | addReg => flagging .add rd rs (.reg rn)
  | subReg => flagging .sub rd rs (.reg rn)
  | addImm3 => flagging .add rd rs imm3
  | subImm3 => flagging .sub rd rs imm3
  | movImm8 => flagging .mov rd8 0 imm8
  | cmpImm8 => testing .cmp rd8 imm8
  | addImm8 => flagging .add rd8 rd8 imm8
  | subImm8 => flagging .sub rd8 rd8 imm8
  | andDp => flagging .and rd rd (.reg rs)
  | eorDp => flagging .eor rd rd (.reg rs)
  | lslDp => flagging .mov rd 0 (.shiftReg rd .lsl rs)
  | lsrDp => flagging .mov rd 0 (.shiftReg rd .lsr rs)
  | asrDp => flagging .mov rd 0 (.shiftReg rd .asr rs)
  | adcDp => flagging .adc rd rd (.reg rs)
  | sbcDp => flagging .sbc rd rd (.reg rs)
  | rorDp => flagging .mov rd 0 (.shiftReg rd .ror rs)
  | tstDp => testing .tst rd (.reg rs)
  | negDp => flagging .rsb rd rs (.imm 0 0)
  | cmpDp => testing .cmp rd (.reg rs)
  | cmnDp => testing .cmn rd (.reg rs)
  | orrDp => flagging .orr rd rd (.reg rs)
  | mulDp => .muls rd rs rd
  | bicDp => flagging .bic rd rd (.reg rs)
  | mvnDp => flagging .mvn rd 0 (.reg rs)
  | addH => .data ⟨.add, false, hiRd opcode, hiRd opcode, .reg (hiRs opcode)⟩
  | cmpH => testing .cmp (hiRd opcode) (.reg (hiRs opcode))
  | movH => .data ⟨.mov, false, 0, hiRd opcode, .reg (hiRs opcode)⟩
  -- an immediate times 4 is the immediate rotated by 30
  | addPc => .data ⟨.add, false, 15, rd8, .imm (opcode.extractLsb' 0 8) 15⟩
  | addSp => .data ⟨.add, false, 13, rd8, .imm (opcode.extractLsb' 0 8) 15⟩
  | addSpImm => .data ⟨if opcode.getLsbD 7 then .sub else .add, false, 13, 13,
      .imm ((opcode.extractLsb' 0 7).setWidth 8) 15⟩

/-- What the pc reads as: 4 ahead, and at a word for an address relative to it. -/
def readsPc (t : ThumbAlu) (instAddr : BitVec 32) : BitVec 32 :=
  match t with
  | addPc => (instAddr + 4) &&& ~~~3
  | _ => instAddr + 4

end ThumbAlu

/-- **The table** has the formats of the architecture. -/
theorem thumbAluEntry_class (index : BitVec 10) :
    thumbAluEntry index.toNat = thumbClass index := by
  revert index
  decide +kernel

/-! ## Registers and operands -/

section Operands

variable (opcode : BitVec 16) (pc : BitVec 32) (regs : ThreadRegs)

theorem lowReg_ne (lsb : ℕ) : lowReg opcode lsb ≠ 15 := by
  rw [ne_eq, Fin.ext_iff, lowReg]
  have hlt := (opcode.extractLsb' lsb 3).isLt
  simp only [Fin.val_ofNat, Fin.val_ofNat]
  rw [Nat.mod_eq_of_lt (by omega)]
  intro h
  have h : (opcode.extractLsb' lsb 3).toNat = 15 := h
  omega

theorem readReg_lowReg (lsb : ℕ) :
    readReg pc regs (lowReg opcode lsb) = regs.getReg (lowReg opcode lsb) := by
  rw [readReg, if_neg (lowReg_ne opcode lsb)]

theorem value_reg (rm : Fin 16) :
    (Operand2.reg rm).value pc regs = (readReg pc regs rm, (Flags.of regs.cpsr).c) := by
  refine Prod.ext ?_ rfl
  refine (lslCarry_fst _ _ _).trans ?_
  exact BitVec.shiftLeft_zero _

theorem value_imm (v : BitVec 8) :
    (Operand2.imm v 0).value pc regs = (v.setWidth 32, (Flags.of regs.cpsr).c) :=
  Prod.ext (rotateRight_zero _) rfl

/-- An immediate rotated by 30 is 4 times as large. -/
theorem value_imm_four (v : BitVec 8) :
    ((Operand2.imm v 15).value pc regs).1 = v.setWidth 32 <<< 2 := by
  have hrot : ∀ v : BitVec 8, (v.setWidth 32).rotateRight 30 = v.setWidth 32 <<< 2 := by decide
  exact hrot v

/-- `set_nzc`. -/
theorem setNzc_eq (cpsr result : BitVec 32) (carry : Bool) :
    setNzc cpsr result carry = resultFlags cpsr (result, carry, (Flags.of cpsr).v) := by
  have hlow : SameLow cpsr (setNzc cpsr result carry) := by
    have hmask : (~~~(nBit ||| zBit ||| cBit)).setWidth 28 = BitVec.allOnes 28 := by decide
    have hn : nBit.setWidth 28 = 0 := by decide
    have hz : zBit.setWidth 28 = 0 := by decide
    have hc : ((BitVec.ofBool carry).setWidth 32 <<< 29).setWidth 28 = 0 := by
      cases carry <;> decide
    unfold SameLow setNzc
    rw [BitVec.setWidth_or, BitVec.setWidth_or, BitVec.setWidth_or, BitVec.setWidth_and,
      BitVec.setWidth_and, hmask, hn, hc, BitVec.and_allOnes]
    split_ifs <;> simp [hz]
  refine Flags.eq_put hlow ?_
  rw [BitVec.msb_eq_getLsbD_last]
  by_cases h : result = 0
  · cases carry <;> simp [Flags.of, setNzc, nBit, zBit, cBit, h]
  · have h : ¬ result = 0#32 := h
    cases carry <;> simp [Flags.of, setNzc, nBit, zBit, cBit, h]

theorem setNz_result (cpsr result : BitVec 32) :
    setNz cpsr result = resultFlags cpsr (result, (Flags.of cpsr).c, (Flags.of cpsr).v) :=
  setNz_eq cpsr result

theorem setReg_withCpsr (i : Fin 16) (value cpsr : BitVec 32) :
    ({ regs with cpsr := cpsr } : ThreadRegs).setReg i value =
      { regs.setReg i value with cpsr := cpsr } := by
  unfold ThreadRegs.setReg
  split_ifs <;> rfl

end Operands

/-! ## Instructions with their destinations -/

section Exec

variable (pc : BitVec 32) (regs : ThreadRegs)

/-- An instruction that sets the flags. -/
theorem exec_flagging {op : DataOp} (hop : op.isTest = false) {rd : Fin 16} (hrd : rd ≠ 15)
    (rn : Fin 16) (operand : Operand2) :
    (ThumbAlu.flagging op rd rn operand).exec pc regs =
      let r := DataInst.result regs ⟨op, true, rn, rd, operand⟩ pc
      ((regs.finish rd r.1 (resultFlags regs.cpsr r)).1, none) := by
  rw [ThumbAlu.flagging, ArmInst.exec, DataInst.exec_eq]
  simp only [hop, hrd, Bool.true_eq_false, Bool.false_eq_true, if_false, setReg_withCpsr]
  rfl

/-- A test. -/
theorem exec_testing {op : DataOp} (hop : op.isTest = true) (rn : Fin 16) (operand : Operand2) :
    (ThumbAlu.testing op rn operand).exec pc regs =
      ({ regs with cpsr :=
          resultFlags regs.cpsr (DataInst.result regs ⟨op, true, rn, 0, operand⟩ pc) }, none) := by
  have hrd : (0 : Fin 16) ≠ 15 := by decide
  rw [ThumbAlu.testing, ArmInst.exec, DataInst.exec_eq]
  simp only [hop, hrd, Bool.true_eq_false, if_true, if_false]

/-- An instruction that leaves the flags alone. -/
theorem exec_plain {op : DataOp} (hop : op.isTest = false) (rd rn : Fin 16) (operand : Operand2) :
    (ArmInst.data ⟨op, false, rn, rd, operand⟩).exec pc regs =
      let r := DataInst.result regs ⟨op, false, rn, rd, operand⟩ pc
      if rd = 15 then (regs, some (pcTarget (cpsrThumb regs.cpsr) r.1))
      else (regs.setReg rd r.1, none) := by
  rw [ArmInst.exec, DataInst.exec_eq]
  simp only [hop, Bool.false_eq_true, if_true, if_false]

end Exec

/-! ## The handlers by their instructions -/

section Handlers

variable (opcode : BitVec 16) (pc : BitVec 32) (regs : ThreadRegs)

/-- A move with a shift by an immediate. -/
theorem exec_shiftImm (kind : ShiftKind) (lsb : ℕ) (rs : Fin 16) (amount : BitVec 5) :
    (ThumbAlu.flagging .mov (lowReg opcode lsb) 0 (.shiftImm rs kind amount)).exec pc regs =
      let r := kind.byImm (readReg pc regs rs) amount.toNat (Flags.of regs.cpsr).c
      ((regs.finish (lowReg opcode lsb) r.1
        (resultFlags regs.cpsr (r.1, r.2, (Flags.of regs.cpsr).v))).1, none) :=
  exec_flagging pc regs rfl (lowReg_ne opcode lsb) 0 _

theorem lslImmT_exec : ((lslImmT opcode regs).1, (lslImmT opcode regs).2.branchTarget) =
    (ThumbAlu.lslImm.armInst opcode).exec pc regs := by
  refine Eq.trans ?_ (exec_shiftImm opcode pc regs .lsl 0 (lowReg opcode 3) _).symm
  simp only [lslImmT, readReg_lowReg, ShiftKind.byImm, lslCarry_fst]
  by_cases h : (opcode.extractLsb' 6 5).toNat = 0
  · rw [if_pos h, setNz_result, h]
    rfl
  · have hlt := (opcode.extractLsb' 6 5).isLt
    rw [if_neg h, setNzc_eq, lslCarry_snd _ h, decide_eq_true (by omega), Bool.true_and]
    rfl

theorem lsrImmT_exec : ((lsrImmT opcode regs).1, (lsrImmT opcode regs).2.branchTarget) =
    (ThumbAlu.lsrImm.armInst opcode).exec pc regs := by
  refine Eq.trans ?_ (exec_shiftImm opcode pc regs .lsr 0 (lowReg opcode 3) _).symm
  simp only [lsrImmT, readReg_lowReg, ShiftKind.byImm, lsrCarry_fst, setNzc_eq]
  by_cases h : (opcode.extractLsb' 6 5).toNat = 0
  · simp only [if_pos h, lsrCarry_snd _ (by omega : 32 ≠ 0)]
    rw [BitVec.ushiftRight_eq_zero (by omega)]
    rfl
  · simp only [if_neg h, lsrCarry_snd _ h]
    rfl

theorem asrImmT_exec : ((asrImmT opcode regs).1, (asrImmT opcode regs).2.branchTarget) =
    (ThumbAlu.asrImm.armInst opcode).exec pc regs := by
  refine Eq.trans ?_ (exec_shiftImm opcode pc regs .asr 0 (lowReg opcode 3) _).symm
  simp only [asrImmT, readReg_lowReg, ShiftKind.byImm, setNzc_eq, ← shiftAsr_eq]
  by_cases h : (opcode.extractLsb' 6 5).toNat = 0
  · simp only [if_pos h]
    rfl
  · have hlt := (opcode.extractLsb' 6 5).isLt
    simp only [if_neg h, shiftAsr, if_pos (show (opcode.extractLsb' 6 5).toNat < 32 by omega)]
    rfl

/-- A shift by a register. -/
theorem defDpShift_exec (kind : ShiftKind) (result : BitVec 32) (carry : Bool)
    (hresult : (kind.byReg (dpA opcode regs) (dpAmount opcode regs) (Flags.of regs.cpsr).c).1 =
      result)
    (hcarry : (kind.byReg (dpA opcode regs) (dpAmount opcode regs) (Flags.of regs.cpsr).c).2 =
      if dpAmount opcode regs = 0 then (Flags.of regs.cpsr).c else carry) :
    ((defDpShift opcode regs result carry).1, (defDpShift opcode regs result carry).2.branchTarget) =
      (ThumbAlu.flagging .mov (lowReg opcode 0) 0
        (.shiftReg (lowReg opcode 0) kind (lowReg opcode 3))).exec pc regs := by
  refine Eq.trans ?_ (exec_flagging pc regs rfl (lowReg_ne opcode 0) 0 _).symm
  have hvalue : (Operand2.shiftReg (lowReg opcode 0) kind (lowReg opcode 3)).value pc regs =
      kind.byReg (dpA opcode regs) (dpAmount opcode regs) (Flags.of regs.cpsr).c := by
    simp only [Operand2.value, readReg_lowReg, dpA, dpAmount, dpB, low_byte]
  have hr : DataInst.result regs ⟨.mov, true, 0, lowReg opcode 0,
      .shiftReg (lowReg opcode 0) kind (lowReg opcode 3)⟩ pc =
        (result, if dpAmount opcode regs = 0 then (Flags.of regs.cpsr).c else carry,
          (Flags.of regs.cpsr).v) := by
    rw [DataInst.result, hvalue, ← hresult, ← hcarry]
    rfl
  rw [hr, defDpShift]
  by_cases h : dpAmount opcode regs = 0
  · rw [if_pos h, if_pos h, setNz_result]
    rfl
  · rw [if_neg h, if_neg h, setNzc_eq]
    rfl

theorem lslDpT_exec : ((lslDpT opcode regs).1, (lslDpT opcode regs).2.branchTarget) =
    (ThumbAlu.lslDp.armInst opcode).exec pc regs := by
  refine defDpShift_exec opcode pc regs .lsl _ _ ?_ ?_
  · rw [ShiftKind.byReg, lslCarry_fst]
    split_ifs with h
    · rfl
    · exact BitVec.shiftLeft_eq_zero (by omega)
  · by_cases h : dpAmount opcode regs = 0
    · rw [if_pos h, h]
      rfl
    · rw [if_neg h, ShiftKind.byReg, lslCarry_snd _ h]
      split_ifs with h32
      · rw [decide_eq_true h32, Bool.true_and]
      · rw [decide_eq_false h32, Bool.false_and]

theorem lsrDpT_exec : ((lsrDpT opcode regs).1, (lsrDpT opcode regs).2.branchTarget) =
    (ThumbAlu.lsrDp.armInst opcode).exec pc regs := by
  refine defDpShift_exec opcode pc regs .lsr _ _ ?_ ?_
  · rw [ShiftKind.byReg, lsrCarry_fst]
    split_ifs with h
    · rfl
    · exact BitVec.ushiftRight_eq_zero (by omega)
  · by_cases h : dpAmount opcode regs = 0
    · rw [if_pos h, h]
      rfl
    · rw [if_neg h, ShiftKind.byReg, lsrCarry_snd _ h]
      split_ifs with h32
      · rfl
      · exact BitVec.getLsbD_of_ge _ _ (by omega)

theorem asrDpT_exec : ((asrDpT opcode regs).1, (asrDpT opcode regs).2.branchTarget) =
    (ThumbAlu.asrDp.armInst opcode).exec pc regs := by
  refine defDpShift_exec opcode pc regs .asr _ _ ?_ ?_
  · rw [ShiftKind.byReg, ← shiftAsr_eq, shiftAsr]
    by_cases h : dpAmount opcode regs = 0
    · rw [if_pos h, if_pos (by omega), h]
      exact BitVec.sshiftRight_zero.symm
    · rw [if_neg h]
      split_ifs <;> rfl
  · by_cases h : dpAmount opcode regs = 0
    · rw [if_pos h, h]
      rfl
    · rw [if_neg h, ShiftKind.byReg, asrCarry_snd (by omega) _ h]
      split_ifs with h31 h32 h32
      · rfl
      · omega
      · omega
      · exact BitVec.msb_eq_getLsbD_last _

theorem rorDpT_exec : ((rorDpT opcode regs).1, (rorDpT opcode regs).2.branchTarget) =
    (ThumbAlu.rorDp.armInst opcode).exec pc regs := by
  refine defDpShift_exec opcode pc regs .ror _ _ ?_ ?_
  · exact BitVec.rotateRight_mod_eq_rotateRight.symm
  · by_cases h : dpAmount opcode regs = 0
    · rw [if_pos h, h]
      rfl
    · rw [if_neg h, ShiftKind.byReg, rorCarry_snd (by omega) _ h]
      congr 1
      split_ifs <;> omega

/-- The result with a second operand that is not shifted. -/
theorem result_unshifted {op : DataOp} {s : Bool} {rn rd : Fin 16} {operand : Operand2}
    (hahead : operand.pcAhead = 0) {b : BitVec 32}
    (hvalue : operand.value pc regs = (b, (Flags.of regs.cpsr).c)) :
    DataInst.result regs ⟨op, s, rn, rd, operand⟩ pc =
      op.eval (readReg pc regs rn) b (Flags.of regs.cpsr).c (Flags.of regs.cpsr) := by
  rw [DataInst.result, hvalue, hahead]
  exact congrArg (fun pc => op.eval (readReg pc regs rn) b _ _) (BitVec.add_zero pc)

/-- `def_add_sub`. -/
theorem defAddSub_exec {operand : Operand2} (hahead : operand.pcAhead = 0) {b : BitVec 32}
    (hvalue : operand.value pc regs = (b, (Flags.of regs.cpsr).c)) (sub : Bool) :
    ((defAddSub opcode regs b sub).1, (defAddSub opcode regs b sub).2.branchTarget) =
      (ThumbAlu.flagging (if sub then .sub else .add) (lowReg opcode 0) (lowReg opcode 3)
        operand).exec pc regs := by
  have htest : (if sub then DataOp.sub else .add).isTest = false := by cases sub <;> rfl
  rw [exec_flagging pc regs htest (lowReg_ne opcode 0), result_unshifted pc regs hahead hvalue,
    readReg_lowReg]
  cases sub
  · simp only [defAddSub, Bool.false_eq_true, if_false, add_eq, addFlags_eq]
    rfl
  · simp only [defAddSub, if_true, sub_eq, subFlags_eq]
    rfl

theorem imm3_value : (Operand2.imm ((opcode.extractLsb' 6 3).setWidth 8) 0).value pc regs =
    (imm3Op2 opcode, (Flags.of regs.cpsr).c) := by
  rw [value_imm, imm3Op2]
  refine Prod.ext (BitVec.eq_of_toNat_eq ?_) rfl
  have hlt := (opcode.extractLsb' 6 3).isLt
  rw [BitVec.toNat_setWidth, BitVec.toNat_setWidth, BitVec.toNat_setWidth,
    Nat.mod_eq_of_lt (by omega : (opcode.extractLsb' 6 3).toNat < 2 ^ 8)]

/-- An operation on a register and an immediate of eight bits. -/
theorem imm8_value : (Operand2.imm (opcode.extractLsb' 0 8) 0).value pc regs =
    (imm8 opcode, (Flags.of regs.cpsr).c) := value_imm pc regs _

/-- A register-to-register operation. -/
theorem dp_value : (Operand2.reg (lowReg opcode 3)).value pc regs =
    (dpB opcode regs, (Flags.of regs.cpsr).c) := by
  rw [value_reg, readReg_lowReg, dpB]

/-- `def_dp_logical`. -/
theorem defDpLogical_exec {op : DataOp} (htest : op.isTest = false) {rn : Fin 16}
    {body : BitVec 32 → BitVec 32 → BitVec 32}
    (hop : ∀ f : Flags, op.eval (readReg pc regs rn) (dpB opcode regs) f.c f =
      (body (dpA opcode regs) (dpB opcode regs), f.c, f.v)) :
    ((defDpLogical opcode regs body).1, (defDpLogical opcode regs body).2.branchTarget) =
      (ThumbAlu.flagging op (lowReg opcode 0) rn (.reg (lowReg opcode 3))).exec pc regs := by
  rw [exec_flagging pc regs htest (lowReg_ne opcode 0),
    result_unshifted pc regs rfl (dp_value opcode pc regs), hop, defDpLogical, setNz_result]
  rfl

/-- A comparison of registers. -/
theorem testing_exec {op : DataOp} (htest : op.isTest = true) {rn : Fin 16} {operand : Operand2}
    (hahead : operand.pcAhead = 0) {b : BitVec 32}
    (hvalue : operand.value pc regs = (b, (Flags.of regs.cpsr).c)) :
    (ThumbAlu.testing op rn operand).exec pc regs =
      let r := op.eval (readReg pc regs rn) b (Flags.of regs.cpsr).c (Flags.of regs.cpsr)
      ({ regs with cpsr := resultFlags regs.cpsr r }, none) := by
  rw [exec_testing pc regs htest, result_unshifted pc regs hahead hvalue]

/-- An instruction that sets the flags, with an operand that is not shifted. -/
theorem flagging_exec {op : DataOp} (htest : op.isTest = false) {lsb : ℕ} {rn : Fin 16}
    {operand : Operand2} (hahead : operand.pcAhead = 0) {b : BitVec 32}
    (hvalue : operand.value pc regs = (b, (Flags.of regs.cpsr).c)) :
    (ThumbAlu.flagging op (lowReg opcode lsb) rn operand).exec pc regs =
      let r := op.eval (readReg pc regs rn) b (Flags.of regs.cpsr).c (Flags.of regs.cpsr)
      ((regs.finish (lowReg opcode lsb) r.1 (resultFlags regs.cpsr r)).1, none) := by
  rw [exec_flagging pc regs htest (lowReg_ne opcode lsb), result_unshifted pc regs hahead hvalue]

/-- The multiplication. -/
theorem mulDpT_exec : ((mulDpT opcode regs).1, (mulDpT opcode regs).2.branchTarget) =
    (ThumbAlu.mulDp.armInst opcode).exec pc regs := by
  have hproduct : dpA opcode regs * dpB opcode regs =
      BitVec.ofNat 32 ((readReg pc regs (lowReg opcode 3)).toNat *
        (readReg pc regs (lowReg opcode 0)).toNat) := by
    rw [readReg_lowReg, readReg_lowReg, dpA, dpB, Nat.mul_comm]
    exact BitVec.eq_of_toNat_eq (by rw [BitVec.toNat_mul, BitVec.toNat_ofNat])
  simp only [mulDpT, ThumbAlu.armInst, ArmInst.exec, ThreadRegs.finish, setReg_withCpsr, setNz_eq,
    hproduct]
  rfl

theorem hiRd_read (instAddr : BitVec 32) (i : Fin 16) :
    regT instAddr regs i = readReg (instAddr + 4) regs i := rfl

/-- An instruction that leaves the flags alone. -/
theorem plain_exec {op : DataOp} (htest : op.isTest = false) {rd rn : Fin 16} {operand : Operand2}
    (hahead : operand.pcAhead = 0) :
    (ArmInst.data ⟨op, false, rn, rd, operand⟩).exec pc regs =
      let r := op.eval (readReg pc regs rn) (operand.value pc regs).1 (operand.value pc regs).2
        (Flags.of regs.cpsr)
      if rd = 15 then (regs, some (pcTarget (cpsrThumb regs.cpsr) r.1))
      else (regs.setReg rd r.1, none) := by
  have hresult : DataInst.result regs ⟨op, false, rn, rd, operand⟩ pc =
      op.eval (readReg pc regs rn) (operand.value pc regs).1 (operand.value pc regs).2
        (Flags.of regs.cpsr) := by
    rw [DataInst.result, hahead]
    exact congrArg (fun pc' => op.eval (readReg pc' regs rn) _ _ _) (BitVec.add_zero pc)
  rw [exec_plain pc regs htest, hresult]

/-- **A handler** does what its instruction does, in Thumb state. -/
theorem ThumbAlu.step_exec (t : ThumbAlu) (instAddr : BitVec 32)
    (hthumb : cpsrThumb regs.cpsr = true) :
    ((t.step opcode instAddr regs).1, (t.step opcode instAddr regs).2.branchTarget) =
      (t.armInst opcode).exec (t.readsPc instAddr) regs := by
  cases t with
  | lslImm => exact lslImmT_exec opcode _ regs
  | lsrImm => exact lsrImmT_exec opcode _ regs
  | asrImm => exact asrImmT_exec opcode _ regs
  | addReg =>
      exact defAddSub_exec opcode _ regs rfl (by rw [value_reg, readReg_lowReg]; rfl) false
  | subReg =>
      exact defAddSub_exec opcode _ regs rfl (by rw [value_reg, readReg_lowReg]; rfl) true
  | addImm3 => exact defAddSub_exec opcode _ regs rfl (imm3_value opcode _ regs) false
  | subImm3 => exact defAddSub_exec opcode _ regs rfl (imm3_value opcode _ regs) true
  | movImm8 =>
      refine Eq.trans ?_ (flagging_exec opcode _ regs rfl rfl (imm8_value opcode _ regs)).symm
      simp only [ThumbAlu.step, movImm8T, setNz_result]
      rfl
  | cmpImm8 =>
      refine Eq.trans ?_ (testing_exec _ regs rfl rfl (imm8_value opcode _ regs)).symm
      simp only [ThumbAlu.step, cmpImm8T, readReg_lowReg, sub_eq, subFlags_eq]
      rfl
  | addImm8 =>
      refine Eq.trans ?_ (flagging_exec opcode _ regs rfl rfl (imm8_value opcode _ regs)).symm
      simp only [ThumbAlu.step, addImm8T, readReg_lowReg, add_eq, addFlags_eq]
      rfl
  | subImm8 =>
      refine Eq.trans ?_ (flagging_exec opcode _ regs rfl rfl (imm8_value opcode _ regs)).symm
      simp only [ThumbAlu.step, subImm8T, readReg_lowReg, sub_eq, subFlags_eq]
      rfl
  | andDp | eorDp | orrDp | bicDp =>
      exact defDpLogical_exec opcode _ regs rfl fun f => by rw [readReg_lowReg]; rfl
  | mvnDp => exact defDpLogical_exec opcode _ regs rfl fun f => rfl
  | lslDp => exact lslDpT_exec opcode _ regs
  | lsrDp => exact lsrDpT_exec opcode _ regs
  | asrDp => exact asrDpT_exec opcode _ regs
  | rorDp => exact rorDpT_exec opcode _ regs
  | adcDp =>
      refine Eq.trans ?_ (flagging_exec opcode _ regs rfl rfl (dp_value opcode _ regs)).symm
      simp only [ThumbAlu.step, adcDpT, readReg_lowReg, doAdc_eq, if_true]
      rfl
  | sbcDp =>
      refine Eq.trans ?_ (flagging_exec opcode _ regs rfl rfl (dp_value opcode _ regs)).symm
      simp only [ThumbAlu.step, sbcDpT, readReg_lowReg, doSbc_eq, if_true]
      rfl
  | tstDp =>
      refine Eq.trans ?_ (testing_exec _ regs rfl rfl (dp_value opcode _ regs)).symm
      simp only [ThumbAlu.step, tstDpT, readReg_lowReg, setNz_result]
      rfl
  | cmpDp =>
      refine Eq.trans ?_ (testing_exec _ regs rfl rfl (dp_value opcode _ regs)).symm
      simp only [ThumbAlu.step, cmpDpT, readReg_lowReg, sub_eq, subFlags_eq]
      rfl
  | cmnDp =>
      refine Eq.trans ?_ (testing_exec _ regs rfl rfl (dp_value opcode _ regs)).symm
      simp only [ThumbAlu.step, cmnDpT, readReg_lowReg, add_eq, addFlags_eq]
      rfl
  | negDp =>
      refine Eq.trans ?_ (flagging_exec opcode _ regs rfl rfl (value_imm _ regs 0)).symm
      simp only [ThumbAlu.step, negDpT, readReg_lowReg, sub_eq, subFlags_eq]
      rfl
  | mulDp => exact mulDpT_exec opcode _ regs
  | addH =>
      refine Eq.trans ?_ (plain_exec _ regs rfl rfl).symm
      simp only [ThumbAlu.step, addHT, hiRd_read, value_reg, add_eq, hthumb, pcTarget, if_true]
      split_ifs <;> rfl
  | cmpH =>
      refine Eq.trans ?_ (testing_exec _ regs rfl rfl (value_reg _ regs (hiRs opcode))).symm
      simp only [ThumbAlu.step, cmpHT, hiRd_read, sub_eq, subFlags_eq]
      rfl
  | movH =>
      refine Eq.trans ?_ (plain_exec _ regs rfl rfl).symm
      simp only [ThumbAlu.step, movHT, hiRd_read, value_reg, hthumb, pcTarget, if_true]
      split_ifs <;> rfl
  | addPc =>
      refine Eq.trans ?_ (plain_exec _ regs rfl rfl).symm
      simp only [ThumbAlu.step, addPcT, value_imm_four, if_neg (lowReg_ne opcode 8), add_eq]
      rfl
  | addSp =>
      refine Eq.trans ?_ (plain_exec _ regs rfl rfl).symm
      simp only [ThumbAlu.step, addSpT, value_imm_four, if_neg (lowReg_ne opcode 8), add_eq]
      rfl
  | addSpImm =>
      have hne : (13 : Fin 16) ≠ 15 := by decide
      have htest : (if opcode.getLsbD 7 then DataOp.sub else .add).isTest = false := by
        split_ifs <;> rfl
      have himm : ((opcode.extractLsb' 0 7).setWidth 8).setWidth 32 =
          (opcode.extractLsb' 0 7).setWidth 32 := by
        have hlt := (opcode.extractLsb' 0 7).isLt
        apply BitVec.eq_of_toNat_eq
        rw [BitVec.toNat_setWidth, BitVec.toNat_setWidth, BitVec.toNat_setWidth,
          Nat.mod_eq_of_lt (by omega : (opcode.extractLsb' 0 7).toNat < 2 ^ 8)]
      refine Eq.trans ?_ (plain_exec _ regs htest rfl).symm
      simp only [ThumbAlu.step, addSpImmT, value_imm_four, himm, if_neg hne]
      cases opcode.getLsbD 7
      · simp only [Bool.false_eq_true, if_false, add_eq]
        rfl
      · simp only [if_true, sub_eq]
        rfl

end Handlers

/-! ## The law -/

/-- **The interpreter processes data as the architecture does.**  In ARM state it does so for every
opcode, with the operands, the flags, the pc and all other registers of the instruction; in Thumb
state it does what the ARM instructions do that Thumb instructions stand for. -/
theorem interpreter_alu_law (instAddr : BitVec 32) (regs : ThreadRegs) :
    (∀ opcode : BitVec 32,
      (armAlu opcode instAddr regs).map (fun r => (r.1, r.2.branchTarget)) =
        (DataInst.decode opcode).map fun inst => inst.exec (instAddr + 8) regs) ∧
      (cpsrThumb regs.cpsr = true → ∀ opcode : BitVec 16,
        (thumbAlu opcode instAddr regs).map (fun r => (r.1, r.2.branchTarget)) =
          (thumbClass (opcode.extractLsb' 6 10)).map fun t =>
            (t.armInst opcode).exec (t.readsPc instAddr) regs) := by
  refine ⟨fun opcode => armAlu_exec opcode instAddr regs, fun hthumb opcode => ?_⟩
  rw [thumbAlu, thumbAluEntry_class, Option.map_map]
  exact congrArg (fun f => Option.map f (thumbClass (opcode.extractLsb' 6 10)))
    (funext fun t => ThumbAlu.step_exec opcode regs t instAddr hthumb)

/-- `adcs r0, r1` of Thumb state. -/
theorem interpreter_alu_law_adc :
    (thumbAlu 0x4148 0x08000100 { ThreadRegs.default with cpsr := 0x2000003F }).map
        (fun r => (r.1, r.2.branchTarget)) =
      some ((ThumbAlu.flagging .adc (lowReg 0x4148 0) (lowReg 0x4148 0)
        (.reg (lowReg 0x4148 3))).exec 0x08000104
          { ThreadRegs.default with cpsr := 0x2000003F }) :=
  (interpreter_alu_law 0x08000100 { ThreadRegs.default with cpsr := 0x2000003F }).2 rfl 0x4148

end AdvancedSlop
