/-
# Data processing of the architecture

What the data-processing instructions of ARMv4T do, over sums, products and quotients of numbers.

* `Flags` : the condition flags, in the top four bits of the status register;
* `DataOp.eval` : the sixteen operations;
* `DataInst.exec` : an instruction with its operands, reads of the pc included;
* `DataInst.decode`, `ArmInst.ofThumb` : the encodings, and what a Thumb instruction stands for.
-/
import AdvancedSlop.WordArith
import AdvancedSlop.GuestRegs

namespace AdvancedSlop

open WordArith

attribute [local instance] neZero_regs

/-! ## Flags -/

/-- The condition flags. -/
@[ext] structure Flags where
  n : Bool
  z : Bool
  c : Bool
  v : Bool

namespace Flags

/-- The flags of a status register. -/
def of (cpsr : BitVec 32) : Flags :=
  ⟨cpsr.getLsbD 31, cpsr.getLsbD 30, cpsr.getLsbD 29, cpsr.getLsbD 28⟩

/-- A status register with other flags. -/
def put (f : Flags) (cpsr : BitVec 32) : BitVec 32 :=
  BitVec.ofBool f.n ++ BitVec.ofBool f.z ++ BitVec.ofBool f.c ++ BitVec.ofBool f.v ++
    cpsr.setWidth 28

end Flags

/-! ## Operations -/

/-- The operations, in the order of their codes. -/
inductive DataOp
  | and | eor | sub | rsb | add | adc | sbc | rsc | tst | teq | cmp | cmn | orr | mov | bic | mvn
  deriving DecidableEq, Repr

namespace DataOp

/-- The operations by their codes. -/
def codes : List DataOp :=
  [and, eor, sub, rsb, add, adc, sbc, rsc, tst, teq, cmp, cmn, orr, mov, bic, mvn]

/-- A test or a comparison has no destination. -/
def isTest : DataOp → Bool
  | tst | teq | cmp | cmn => true
  | _ => false

/-- The result of an operation, its carry and its overflow.  A logical operation takes the carry of
the shifter and leaves the overflow flag alone. -/
def eval (op : DataOp) (a b : BitVec 32) (shiftCarry : Bool) (f : Flags) : BitVec 32 × Bool × Bool :=
  match op with
  | and | tst => (a &&& b, shiftCarry, f.v)
  | eor | teq => (a ^^^ b, shiftCarry, f.v)
  | orr => (a ||| b, shiftCarry, f.v)
  | mov => (b, shiftCarry, f.v)
  | bic => (a &&& ~~~b, shiftCarry, f.v)
  | mvn => (~~~b, shiftCarry, f.v)
  | add | cmn => addWithCarry a b false
  | adc => addWithCarry a b f.c
  | sub | cmp => addWithCarry a (~~~b) true
  | sbc => addWithCarry a (~~~b) f.c
  | rsb => addWithCarry b (~~~a) true
  | rsc => addWithCarry b (~~~a) f.c

end DataOp

/-! ## Operands -/

/-- The kinds of shifts, in the order of their codes. -/
inductive ShiftKind
  | lsl | lsr | asr | ror
  deriving DecidableEq, Repr

/-- A shift by an immediate; 0 stands for 32, and for a rotation through the carry. -/
def ShiftKind.byImm (kind : ShiftKind) (x : BitVec 32) (n : ℕ) (carry : Bool) : BitVec 32 × Bool :=
  match kind with
  | lsl => lslCarry x n carry
  | lsr => lsrCarry x (if n = 0 then 32 else n) carry
  | asr => asrCarry x (if n = 0 then 32 else n) carry
  | ror => if n = 0 then rrxCarry x carry else rorCarry x n carry

/-- A shift by the low byte of a register. -/
def ShiftKind.byReg (kind : ShiftKind) (x : BitVec 32) (n : ℕ) (carry : Bool) : BitVec 32 × Bool :=
  match kind with
  | lsl => lslCarry x n carry
  | lsr => lsrCarry x n carry
  | asr => asrCarry x n carry
  | ror => rorCarry x n carry

/-- The second operand. -/
inductive Operand2
  | imm (value : BitVec 8) (rotate : BitVec 4)
  | shiftImm (rm : Fin 16) (kind : ShiftKind) (amount : BitVec 5)
  | shiftReg (rm : Fin 16) (kind : ShiftKind) (rs : Fin 16)
  deriving DecidableEq, Repr

/-- A read of a register, with the value the pc reads as. -/
def readReg (pc : BitVec 32) (regs : ThreadRegs) (i : Fin 16) : BitVec 32 :=
  if i = 15 then pc else regs.getReg i

namespace Operand2

/-- The amount of a shift by a register is read first, and the pc reads 4 further ahead after. -/
def pcAhead : Operand2 → BitVec 32
  | shiftReg _ _ _ => 4
  | _ => 0

/-- The operand and the carry of the shifter. -/
def value (operand : Operand2) (pc : BitVec 32) (regs : ThreadRegs) : BitVec 32 × Bool :=
  let carry := (Flags.of regs.cpsr).c
  match operand with
  | imm value rotate => rorCarry (value.setWidth 32) (2 * rotate.toNat) carry
  | shiftImm rm kind amount => kind.byImm (readReg pc regs rm) amount.toNat carry
  | shiftReg rm kind rs =>
      kind.byReg (readReg (pc + 4) regs rm) ((readReg pc regs rs).toNat % 256) carry

end Operand2

/-! ## Instructions -/

/-- An instruction of data processing. -/
structure DataInst where
  op : DataOp
  s : Bool
  rn : Fin 16
  rd : Fin 16
  operand : Operand2

/-- A write to the pc, with the state in its lowest bit. -/
def pcTarget (thumb : Bool) (result : BitVec 32) : BitVec 32 :=
  if thumb then (result &&& ~~~1) ||| 1 else result &&& ~~~3

/-- **An instruction of data processing**, where the pc reads as `pc`: the registers after it, and
what it writes to the pc.  With the pc as destination, flags are set by a return from the exception
that is handled, in the modes that have a saved status register; a test does no more. -/
def DataInst.exec (inst : DataInst) (pc : BitVec 32) (regs : ThreadRegs) :
    ThreadRegs × Option (BitVec 32) :=
  let flags := Flags.of regs.cpsr
  let a := readReg (pc + inst.operand.pcAhead) regs inst.rn
  let b := inst.operand.value pc regs
  let r := inst.op.eval a b.1 b.2 flags
  let regs' :=
    if inst.s = false then regs
    else if inst.rd = 15 ∧ regs.isUser = false then regs.setCpsr regs.spsr false
    else { regs with cpsr := Flags.put ⟨r.1.msb, r.1 == 0, r.2.1, r.2.2⟩ regs.cpsr }
  if inst.op.isTest then (regs', none)
  else if inst.rd = 15 then (regs', some (pcTarget (cpsrThumb regs'.cpsr) r.1))
  else (regs'.setReg inst.rd r.1, none)

/-- What the class bits of an opcode say about the second operand. -/
inductive OperandClass
  | imm
  | shiftImm (kind : ShiftKind)
  | shiftReg (kind : ShiftKind)
  deriving DecidableEq, Repr

/-- The kinds of shifts by their codes. -/
def shiftKinds : List ShiftKind := [.lsl, .lsr, .asr, .ror]

/-- **The class of an opcode**, by its bits 27 to 20 and 7 to 4: bits 27 and 26 are clear, bit 25
tells an immediate, and a register operand has not both of bits 7 and 4.  A test without its S bit
is another instruction. -/
def dataClass (high : BitVec 8) (low : BitVec 4) : Option (DataOp × Bool × OperandClass) :=
  if high.getLsbD 7 ∨ high.getLsbD 6 then none
  else if ¬ high.getLsbD 5 ∧ low.getLsbD 3 ∧ low.getLsbD 0 then none
  else
    (DataOp.codes[(high.extractLsb' 1 4).toNat]?).bind fun op =>
      if op.isTest ∧ ¬ high.getLsbD 0 then none
      else if high.getLsbD 5 then some (op, high.getLsbD 0, .imm)
      else (shiftKinds[(low.extractLsb' 1 2).toNat]?).map fun kind =>
        (op, high.getLsbD 0, if low.getLsbD 0 then .shiftReg kind else .shiftImm kind)

/-- A register field of four bits. -/
def regField (opcode : BitVec 32) (lsb : ℕ) : Fin 16 := Fin.ofNat 16 (opcode.extractLsb' lsb 4).toNat

/-- The instruction of a class, with its fields. -/
def DataInst.ofClass (opcode : BitVec 32) (c : DataOp × Bool × OperandClass) : DataInst where
  op := c.1
  s := c.2.1
  rn := regField opcode 16
  rd := regField opcode 12
  operand :=
    match c.2.2 with
    | .imm => .imm (opcode.extractLsb' 0 8) (opcode.extractLsb' 8 4)
    | .shiftImm kind => .shiftImm (regField opcode 0) kind (opcode.extractLsb' 7 5)
    | .shiftReg kind => .shiftReg (regField opcode 0) kind (regField opcode 8)

/-- The instruction of an opcode. -/
def DataInst.decode (opcode : BitVec 32) : Option DataInst :=
  (dataClass (opcode.extractLsb' 20 8) (opcode.extractLsb' 4 4)).map (DataInst.ofClass opcode)

/-! ## Thumb -/

/-- The ARM instructions that Thumb instructions stand for. -/
inductive ArmInst
  | data (inst : DataInst)
  | muls (rd rm rs : Fin 16)

/-- **An instruction**: a multiplication sets two of the flags. -/
def ArmInst.exec (inst : ArmInst) (pc : BitVec 32) (regs : ThreadRegs) :
    ThreadRegs × Option (BitVec 32) :=
  match inst with
  | data inst => inst.exec pc regs
  | muls rd rm rs =>
      let r := BitVec.ofNat 32 ((readReg pc regs rm).toNat * (readReg pc regs rs).toNat)
      let flags := Flags.of regs.cpsr
      ({ regs with cpsr := Flags.put { flags with n := r.msb, z := r == 0 } regs.cpsr }.setReg rd r,
        none)

end AdvancedSlop
