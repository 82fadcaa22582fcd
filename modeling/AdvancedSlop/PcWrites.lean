/-
# Writes of the pc in two engines

The ARM instructions that write the pc without being a branch: data processing, single loads and
block loads, in the interpreter and through the indirect branch of compiled code.

* `AluHandler`, `aluResult`, `aluFinish` : data processing;
* `singleLoad`, `halfLoad` : single loads;
* `PcWrite` : an instruction that writes the pc;
* `handleIndirectBranch` : the calls that compiled code makes after it;
* `pc_writes_law` : both leave the same registers, and a pc that selects the state of its own
  status register, exactly when the write is good.
-/
import AdvancedSlop.BlockTransferLaw

namespace AdvancedSlop

open WordMemory

attribute [local instance] neZero_regs

variable {D : Type*}

/-! ## Flags -/

/-- `N_BIT`, `Z_BIT`, `C_BIT`, `V_BIT`. -/
def nBit : BitVec 32 := 0x80000000
def zBit : BitVec 32 := 0x40000000
def cBit : BitVec 32 := 0x20000000
def vBit : BitVec 32 := 0x10000000

/-- `ctx.carry`. -/
def carryOf (cpsr : BitVec 32) : Bool := cpsr &&& cBit != 0

/-- The flags of `set_nz`. -/
def setNz (cpsr result : BitVec 32) : BitVec 32 :=
  (cpsr &&& ~~~(nBit ||| zBit)) ||| (result &&& nBit) ||| (if result = 0 then zBit else 0)

/-- The flags of an addition or subtraction. -/
def arithFlags (cpsr result : BitVec 32) (carry overflow : Bool) : BitVec 32 :=
  (cpsr &&& ~~~(nBit ||| zBit ||| cBit ||| vBit)) ||| (result &&& nBit) |||
    (if result = 0 then zBit else 0) ||| ((BitVec.ofBool carry).setWidth 32 <<< 29) |||
    ((BitVec.ofBool overflow).setWidth 32 <<< 28)

/-- `add_flags`. -/
def addFlags (cpsr a b result : BitVec 32) : BitVec 32 :=
  arithFlags cpsr result (decide (a.toNat + b.toNat > 0xFFFFFFFF))
    (~~~(a ^^^ b) &&& (a ^^^ result) &&& nBit != 0)

/-- `adc_flags`. -/
def adcFlags (cpsr a b : BitVec 32) (carryIn : Nat) (result : BitVec 32) : BitVec 32 :=
  arithFlags cpsr result (decide (a.toNat + b.toNat + carryIn > 0xFFFFFFFF))
    (~~~(a ^^^ b) &&& (a ^^^ result) &&& nBit != 0)

/-- `sub_flags`. -/
def subFlags (cpsr a b result : BitVec 32) : BitVec 32 :=
  arithFlags cpsr result (decide (a.toNat ≥ b.toNat)) ((a ^^^ b) &&& (a ^^^ result) &&& nBit != 0)

/-- `sbc_flags`. -/
def sbcFlags (cpsr a b : BitVec 32) (carryIn : Nat) (result : BitVec 32) : BitVec 32 :=
  arithFlags cpsr result (decide (a.toNat ≥ b.toNat + (1 - carryIn)))
    ((a ^^^ b) &&& (a ^^^ result) &&& nBit != 0)

/-! ## Data processing -/

/-- The shifter forms, in the order of `SHIFT`. -/
inductive ShiftForm
  | lli | llr | lri | lrr | ari | arr | rri | rrr | imm
  deriving DecidableEq, Repr

/-- The amount is in a register. -/
def ShiftForm.byReg : ShiftForm → Bool
  | .llr | .lrr | .arr | .rrr => true
  | _ => false

/-- A register field of an opcode. -/
def opcodeReg (opcode : BitVec 32) (lsb : Nat) : Fin 16 := Fin.ofNat 16 (opcode >>> lsb).toNat

/-- A register of an operand: behind a shift by register the pc is another 4 ahead. -/
def operandReg (instAddr : BitVec 32) (regs : ThreadRegs) (byReg : Bool) (i : Fin 16) :
    BitVec 32 :=
  ctxReg instAddr regs i + if byReg ∧ i = 15 then 4 else 0

/-- `alu_rn`. -/
def aluRn (instAddr : BitVec 32) (regs : ThreadRegs) (opcode : BitVec 32) (byReg : Bool) :
    BitVec 32 :=
  operandReg instAddr regs byReg (opcodeReg opcode 16)

/-- `lsl`, with its carry. -/
def shiftLsl (value : BitVec 32) (amount : Nat) (oldCarry : Bool) : BitVec 32 × Bool :=
  if amount = 0 then (value, oldCarry)
  else if amount < 32 then (value <<< amount, value.getLsbD (32 - amount))
  else if amount = 32 then (0, value.getLsbD 0)
  else (0, false)

/-- `lsr`, with its carry. -/
def shiftLsr (value : BitVec 32) (amount : Nat) (oldCarry : Bool) : BitVec 32 × Bool :=
  if amount = 0 then (value, oldCarry)
  else if amount < 32 then (value >>> amount, value.getLsbD (amount - 1))
  else if amount = 32 then (0, value.getLsbD 31)
  else (0, false)

/-- `asr`, with its carry. -/
def shiftAsr (value : BitVec 32) (amount : Nat) (oldCarry : Bool) : BitVec 32 × Bool :=
  if amount = 0 then (value, oldCarry)
  else if amount < 32 then (value.sshiftRight amount, value.getLsbD (amount - 1))
  else (value.sshiftRight 31, value.getLsbD 31)

/-- `ror`, with its carry; an immediate of 0 goes through the carry. -/
def shiftRor (value : BitVec 32) (byReg : Bool) (amount : Nat) (oldCarry : Bool) :
    BitVec 32 × Bool :=
  if ¬ byReg ∧ amount = 0 then
    (((BitVec.ofBool oldCarry).setWidth 32 <<< 31) ||| (value >>> 1), value.getLsbD 0)
  else if amount = 0 then (value, oldCarry)
  else if amount % 32 = 0 then (value, value.getLsbD 31)
  else (value.rotateRight (amount % 32), value.getLsbD (amount % 32 - 1))

/-- A shifted register. -/
def shiftedReg (form : ShiftForm) (value : BitVec 32) (amount : Nat) (oldCarry : Bool) :
    BitVec 32 × Bool :=
  -- the immediate forms of lsr and asr shift by 32 for 0
  let fullAmount := if ¬ form.byReg ∧ amount = 0 then 32 else amount
  match form with
  | .lli | .llr => shiftLsl value amount oldCarry
  | .lri | .lrr => shiftLsr value fullAmount oldCarry
  | .ari | .arr => shiftAsr value fullAmount oldCarry
  | _ => shiftRor value form.byReg amount oldCarry

/-- The status register with a carry. -/
def withCarry (cpsr : BitVec 32) (carry : Bool) : BitVec 32 :=
  (cpsr &&& ~~~cBit) ||| ((BitVec.ofBool carry).setWidth 32 <<< 29)

/-- `alu_shift`: the operand and the status register. -/
def aluShift (form : ShiftForm) (setCarry : Bool) (instAddr : BitVec 32) (regs : ThreadRegs)
    (opcode : BitVec 32) : BitVec 32 × BitVec 32 :=
  if form = .imm then
    let value := opcode &&& 0xFF
    let rot := ((opcode >>> 7) &&& 0x1E).toNat
    if rot = 0 then (value, regs.cpsr)
    else
      let result := value.rotateRight rot
      (result, if setCarry then withCarry regs.cpsr (result.getLsbD 31) else regs.cpsr)
  else
    let value := operandReg instAddr regs form.byReg (opcodeReg opcode 0)
    let amount := if form.byReg then ((ctxReg instAddr regs (opcodeReg opcode 8)) &&& 0xFF).toNat
      else ((opcode >>> 7) &&& 0x1F).toNat
    let shifted := shiftedReg form value amount (carryOf regs.cpsr)
    (shifted.1, if setCarry then withCarry regs.cpsr shifted.2 else regs.cpsr)

/-- What a handler of data processing is made of: its result and status register come from the
status register and the operands. -/
structure AluHandler where
  setFlags : Bool
  isMov : Bool
  shiftCarry : Bool
  compute : BitVec 32 → BitVec 32 → BitVec 32 → BitVec 32 × BitVec 32

/-- `def_logical`. -/
def defLogical (s isMov : Bool) (body : BitVec 32 → BitVec 32 → BitVec 32) : AluHandler where
  setFlags := s
  isMov := isMov
  shiftCarry := s
  compute := fun cpsr a b => (body a b, if s then setNz cpsr (body a b) else cpsr)

/-- `def_arith`. -/
def defArith (s : Bool)
    (compute : BitVec 32 → BitVec 32 → BitVec 32 → Bool → BitVec 32 × BitVec 32) :
    AluHandler where
  setFlags := s
  isMov := false
  shiftCarry := false
  compute := fun cpsr a b => compute cpsr a b s

/-- `do_add`. -/
def doAdd (cpsr a b : BitVec 32) (s : Bool) : BitVec 32 × BitVec 32 :=
  let r := a + b
  (r, if s then addFlags cpsr a b r else cpsr)

/-- `do_sub`. -/
def doSub (cpsr a b : BitVec 32) (s : Bool) : BitVec 32 × BitVec 32 :=
  let r := a - b
  (r, if s then subFlags cpsr a b r else cpsr)

/-- `do_rsb`. -/
def doRsb (cpsr a b : BitVec 32) (s : Bool) : BitVec 32 × BitVec 32 :=
  let r := b - a
  (r, if s then subFlags cpsr b a r else cpsr)

/-- `do_adc`. -/
def doAdc (cpsr a b : BitVec 32) (s : Bool) : BitVec 32 × BitVec 32 :=
  let c := (carryOf cpsr).toNat
  let r := a + b + BitVec.ofNat 32 c
  (r, if s then adcFlags cpsr a b c r else cpsr)

/-- `do_sbc`. -/
def doSbc (cpsr a b : BitVec 32) (s : Bool) : BitVec 32 × BitVec 32 :=
  let c := (carryOf cpsr).toNat
  let r := a - b - BitVec.ofNat 32 (1 - c)
  (r, if s then sbcFlags cpsr a b c r else cpsr)

/-- `do_rsc`. -/
def doRsc (cpsr a b : BitVec 32) (s : Bool) : BitVec 32 × BitVec 32 :=
  let c := (carryOf cpsr).toNat
  let r := b - a - BitVec.ofNat 32 (1 - c)
  (r, if s then sbcFlags cpsr b a c r else cpsr)

/-- The operations that write a register. -/
inductive AluOp
  | and | ands | eor | eors | orr | orrs | bic | bics | mov | movs | mvn | mvns
  | add | adds | sub | subs | rsb | rsbs | adc | adcs | sbc | sbcs | rsc | rscs
  deriving DecidableEq, Repr

/-- The handler of an operation. -/
def AluOp.handler : AluOp → AluHandler
  | .and => defLogical false false fun a b => a &&& b
  | .ands => defLogical true false fun a b => a &&& b
  | .eor => defLogical false false fun a b => a ^^^ b
  | .eors => defLogical true false fun a b => a ^^^ b
  | .orr => defLogical false false fun a b => a ||| b
  | .orrs => defLogical true false fun a b => a ||| b
  | .bic => defLogical false false fun a b => a &&& ~~~b
  | .bics => defLogical true false fun a b => a &&& ~~~b
  | .mov => defLogical false true fun _ b => b
  | .movs => defLogical true true fun _ b => b
  | .mvn => defLogical false false fun _ b => ~~~b
  | .mvns => defLogical true false fun _ b => ~~~b
  | .add => defArith false doAdd
  | .adds => defArith true doAdd
  | .sub => defArith false doSub
  | .subs => defArith true doSub
  | .rsb => defArith false doRsb
  | .rsbs => defArith true doRsb
  | .adc => defArith false doAdc
  | .adcs => defArith true doAdc
  | .sbc => defArith false doSbc
  | .sbcs => defArith true doSbc
  | .rsc => defArith false doRsc
  | .rscs => defArith true doRsc

/-- The result of an operation, and the registers with its flags. -/
def aluResult (handler : AluHandler) (form : ShiftForm) (opcode instAddr : BitVec 32)
    (regs : ThreadRegs) : BitVec 32 × ThreadRegs :=
  let a := aluRn instAddr regs opcode form.byReg
  let b := aluShift form handler.shiftCarry instAddr regs opcode
  let r := handler.compute b.2 a b.1
  (r.1, { regs with cpsr := r.2 })

/-- The destination of a result. -/
def opcodeRd (opcode : BitVec 32) : Fin 16 := opcodeReg opcode 12

/-- `alu_finish`. -/
def aluFinish (form : ShiftForm) (isMov : Bool) (opcode result : BitVec 32) (setFlags : Bool)
    (regs : ThreadRegs) : ThreadRegs × InstResult :=
  if opcodeRd opcode = 15 then
    let regs := if setFlags then regs.restoreSpsr else regs
    let target := if cpsrThumb regs.cpsr then (result &&& ~~~1) ||| 1 else result &&& ~~~3
    let srcLr := opcodeReg opcode 0 = 14 ∨ form.byReg ∧ opcodeReg opcode 8 = 14
    if isMov ∧ ¬ setFlags ∧ form ≠ .imm ∧ srcLr then (regs, .branchReturn 1 target)
    else (regs, .branch 1 target)
  else (regs.setReg (opcodeRd opcode) result, .continueNext 1)

/-- A handler of data processing. -/
def aluStep (op : AluOp) (form : ShiftForm) (opcode instAddr : BitVec 32) (regs : ThreadRegs) :
    ThreadRegs × InstResult :=
  let r := aluResult op.handler form opcode instAddr regs
  aluFinish form op.handler.isMov opcode r.1 op.handler.setFlags r.2

/-! ## Single loads -/

/-- `ADDR`. -/
inductive AddrMode
  | offset | preIndex | postIndex
  deriving DecidableEq, Repr

/-- `OFFK`: an immediate or a shifted register. -/
inductive OffsetKind
  | imm | lsl | lsr | asr | ror
  deriving DecidableEq, Repr

/-- The const parameters of a load by `ldr_str`. -/
structure SingleLoad where
  byte : Bool
  addr : AddrMode
  up : Bool
  offk : OffsetKind
  deriving DecidableEq, Repr

/-- The const parameters of a load by `ldrh_strh`. -/
structure HalfLoad where
  byte : Bool
  signed : Bool
  addr : AddrMode
  up : Bool
  reg : Bool
  deriving DecidableEq, Repr

/-- `transfer_reg_offset`. -/
def transferRegOffset (offk : OffsetKind) (instAddr : BitVec 32) (regs : ThreadRegs)
    (opcode : BitVec 32) : BitVec 32 :=
  let v := ctxReg instAddr regs (opcodeReg opcode 0)
  let amount := ((opcode >>> 7) &&& 0x1F).toNat
  match offk with
  | .lsl => v <<< amount
  | .lsr => if amount = 0 then 0 else v >>> amount
  | .asr => if amount = 0 then v.sshiftRight 31 else v.sshiftRight amount
  | _ =>
      if amount = 0 then ((BitVec.ofBool (carryOf regs.cpsr)).setWidth 32 <<< 31) ||| (v >>> 1)
      else v.rotateRight amount

/-- The access and the written-back address of a transfer. -/
def transferAddrs (addr : AddrMode) (up : Bool) (base offset : BitVec 32) :
    BitVec 32 × BitVec 32 :=
  let offsetAddr := if up then base + offset else base - offset
  (if addr = .postIndex then base else offsetAddr, offsetAddr)

section Loads

variable (dev : MemDevices D)

/-- A load of `ldr_str`, up to its destination: the value, and the guest with the base written
back. -/
def singleLoad (l : SingleLoad) (opcode instAddr : BitVec 32) (g : GuestState D) :
    BitVec 32 × GuestState D :=
  let rn := opcodeReg opcode 16
  let offset := if l.offk = .imm then opcode &&& 0xFFF
    else transferRegOffset l.offk instAddr g.regs opcode
  let addrs := transferAddrs l.addr l.up (ctxReg instAddr g.regs rn) offset
  let addr := addrs.1.toNat
  let loaded : BitVec 32 × GuestMem D :=
    if l.byte then
      let r := memRead dev .byte addr g.mem
      (BitVec.setWidth 32 (show BitVec 8 from r.1), r.2)
    else
      let r := memRead dev .word addr g.mem
      (BitVec.rotateRight (show BitVec 32 from r.1) (addr % 4 * 8), r.2)
  (loaded.1, ⟨if l.addr = .offset then g.regs else g.regs.setReg rn addrs.2, loaded.2⟩)

/-- The load of `ldr_str` with its destination. -/
def ldr (l : SingleLoad) (opcode instAddr : BitVec 32) (g : GuestState D) :
    GuestState D × InstResult :=
  let r := singleLoad dev l opcode instAddr g
  if opcodeRd opcode = 15 then
    (r.2, if opcodeReg opcode 16 = 13 ∨ l.offk ≠ .imm ∧ opcodeReg opcode 0 = 13 then
      .branchReturn 3 r.1 else .branch 3 r.1)
  else (⟨r.2.regs.setReg (opcodeRd opcode) r.1, r.2.mem⟩, .continueNext 3)

/-- A load of `ldrh_strh`, up to its destination. -/
def halfLoad (l : HalfLoad) (opcode instAddr : BitVec 32) (g : GuestState D) :
    BitVec 32 × GuestState D :=
  let rn := opcodeReg opcode 16
  let offset := if l.reg then ctxReg instAddr g.regs (opcodeReg opcode 0)
    else ((opcode >>> 4) &&& 0xF0) ||| (opcode &&& 0xF)
  let addrs := transferAddrs l.addr l.up (ctxReg instAddr g.regs rn) offset
  let addr := addrs.1.toNat
  let loaded : BitVec 32 × GuestMem D :=
    -- a misaligned signed half is a signed byte, a misaligned half is rotated
    if l.byte ∨ l.signed ∧ addr % 2 ≠ 0 then
      let r := memRead dev .byte addr g.mem
      (BitVec.signExtend 32 (show BitVec 8 from r.1), r.2)
    else if l.signed then
      let r := memRead dev .half addr g.mem
      (BitVec.signExtend 32 (show BitVec 16 from r.1), r.2)
    else
      let r := memRead dev .half addr g.mem
      ((BitVec.setWidth 32 (show BitVec 16 from r.1)).rotateRight (addr % 2 * 8), r.2)
  (loaded.1, ⟨if l.addr = .offset then g.regs else g.regs.setReg rn addrs.2, loaded.2⟩)

/-- The load of `ldrh_strh` with its destination. -/
def ldrh (l : HalfLoad) (opcode instAddr : BitVec 32) (g : GuestState D) :
    GuestState D × InstResult :=
  let r := halfLoad dev l opcode instAddr g
  if opcodeRd opcode = 15 then
    (r.2, if opcodeReg opcode 16 = 13 ∨ l.reg ∧ opcodeReg opcode 0 = 13 then
      .branchReturn 3 r.1 else .branch 3 r.1)
  else (⟨r.2.regs.setReg (opcodeRd opcode) r.1, r.2.mem⟩, .continueNext 3)

end Loads

/-! ## Instructions that write the pc -/

/-- An instruction that writes the pc without being a branch.  An empty list of a block load does
not name the pc, and compiled code makes no indirect branch of it. -/
inductive PcWrite
  | alu (op : AluOp) (form : ShiftForm) (opcode : BitVec 32) (hrd : opcodeRd opcode = 15)
  | ldr (l : SingleLoad) (opcode : BitVec 32) (hrd : opcodeRd opcode = 15)
  | ldrh (l : HalfLoad) (opcode : BitVec 32) (hrd : opcodeRd opcode = 15)
  | ldm (t : BlockTransfer) (hload : t.load = true) (hpc : t.regList.getLsbD 15 = true)

/-- The target of a branch. -/
def InstResult.branchTarget : InstResult → Option (BitVec 32)
  | .branch _ target | .branchReturn _ target => some target
  | _ => none

/-- The guest with a new pc. -/
def GuestState.withPc (g : GuestState D) (pc : BitVec 32) : GuestState D :=
  ⟨{ g.regs with pc := pc }, g.mem⟩

section Steps

variable (dev : MemDevices D)

/-- The handler of the interpreter. -/
def interpret (i : PcWrite) (instAddr : BitVec 32) (g : GuestState D) :
    Option (GuestState D × InstResult) :=
  match i with
  | .alu op form opcode _ =>
      let r := aluStep op form opcode instAddr g.regs
      some (⟨r.1, g.mem⟩, r.2)
  | .ldr l opcode _ => some (ldr dev l opcode instAddr g)
  | .ldrh l opcode _ => some (ldrh dev l opcode instAddr g)
  | .ldm t _ _ => ldmStm dev t instAddr g

/-- The step of the interpreter: `interpret_block_inner` sets the pc to the target. -/
def interpreterStep (i : PcWrite) (instAddr : BitVec 32) (g : GuestState D) :
    Option (GuestState D) :=
  (interpret dev i instAddr g).map fun r =>
    match r.2.branchTarget with
    | some target => r.1.withPc target
    | none => r.1

/-- What compiled code does in front of its indirect branch: the instruction with its raw result in
the pc, without a change of the state or the mode. -/
def compiledBody (i : PcWrite) (instAddr : BitVec 32) (g : GuestState D) : Option (GuestState D) :=
  match i with
  | .alu op form opcode _ =>
      let r := aluResult op.handler form opcode instAddr g.regs
      some (GuestState.withPc ⟨r.2, g.mem⟩ r.1)
  | .ldr l opcode _ =>
      let r := singleLoad dev l opcode instAddr g
      some (r.2.withPc r.1)
  | .ldrh l opcode _ =>
      let r := halfLoad dev l opcode instAddr g
      some (r.2.withPc r.1)
  | .ldm t _ _ =>
      -- without the user bit: the registers, but not the status register
      (ldm dev { t with user := false } instAddr g).map fun r =>
        match r.2.branchTarget with
        | some target => r.1.withPc target
        | none => r.1

/-- The functions that an indirect branch calls. -/
inductive RegsCall
  | registerRestoreSpsr | restoreThumbAfterRestoreSpsr | setPcArmMode
  deriving DecidableEq, Repr

/-- The effect of a call. -/
def RegsCall.run : ThreadRegs → RegsCall → ThreadRegs
  | regs, .registerRestoreSpsr => regs.restoreSpsr
  | regs, .restoreThumbAfterRestoreSpsr => regs.restoreThumbMode
  | regs, .setPcArmMode => regs.forcePcArmMode

/-- What `handle_indirect_branch` reads of an instruction. -/
structure IndirectInst where
  isAlu : Bool
  isMov : Bool
  isSingle : Bool
  isMultiple : Bool
  outCpsr : Bool
  srcLr : Bool
  srcSp : Bool
  /-- The first operand of a block transfer is the stack pointer. -/
  op0Sp : Bool
  /-- `transfer.user()` of a block transfer. -/
  user : Bool
  deriving DecidableEq, Repr

/-- `handle_indirect_branch`: the calls it emits. -/
def handleIndirectBranch (inst : IndirectInst) : List RegsCall :=
  let restoreSpsr := inst.outCpsr && inst.isAlu
  let returnStack := (inst.isMov && inst.srcLr && !inst.outCpsr) ||
    (inst.isMultiple && inst.op0Sp) || (inst.isSingle && inst.srcSp)
  (if restoreSpsr then [.registerRestoreSpsr, .restoreThumbAfterRestoreSpsr]
    else [.setPcArmMode]) ++
  if returnStack ∧ inst.isMultiple ∧ inst.user then [.registerRestoreSpsr, .setPcArmMode] else []

/-- The instruction as `handle_indirect_branch` sees it. -/
def PcWrite.inst : PcWrite → IndirectInst
  | .alu op form opcode _ =>
      let usesRn := !(op.handler.isMov || op = .mvn || op = .mvns)
      let src := fun i : Fin 16 => (usesRn && decide (opcodeReg opcode 16 = i)) ||
        (form ≠ .imm && decide (opcodeReg opcode 0 = i)) ||
        (form.byReg && decide (opcodeReg opcode 8 = i))
      { isAlu := true, isMov := op.handler.isMov, isSingle := false, isMultiple := false,
        outCpsr := op.handler.setFlags, srcLr := src 14, srcSp := src 13, op0Sp := false,
        user := false }
  | .ldr l opcode _ =>
      let src := fun i : Fin 16 => decide (opcodeReg opcode 16 = i) ||
        (l.offk ≠ .imm && decide (opcodeReg opcode 0 = i))
      { isAlu := false, isMov := false, isSingle := true, isMultiple := false, outCpsr := false,
        srcLr := src 14, srcSp := src 13, op0Sp := false, user := false }
  | .ldrh l opcode _ =>
      let src := fun i : Fin 16 => decide (opcodeReg opcode 16 = i) ||
        (l.reg && decide (opcodeReg opcode 0 = i))
      { isAlu := false, isMov := false, isSingle := true, isMultiple := false, outCpsr := false,
        srcLr := src 14, srcSp := src 13, op0Sp := false, user := false }
  | .ldm t _ _ =>
      { isAlu := false, isMov := false, isSingle := false, isMultiple := true, outCpsr := false,
        srcLr := decide (t.rn = 14), srcSp := decide (t.rn = 13), op0Sp := decide (t.rn = 13),
        user := t.user }

/-- The compiled instruction and its indirect branch, up to the dispatch. -/
def compiledStep (i : PcWrite) (instAddr : BitVec 32) (g : GuestState D) :
    Option (GuestState D) :=
  (compiledBody dev i instAddr g).map fun g =>
    ⟨(handleIndirectBranch i.inst).foldl RegsCall.run g.regs, g.mem⟩

end Steps

/-! ## Flags and modes -/

section Flags

/-- The flags are above the mode and the state. -/
def SameLow (cpsr cpsr' : BitVec 32) : Prop := cpsr'.setWidth 28 = cpsr.setWidth 28

variable {cpsr cpsr' : BitVec 32}

theorem cpsrMode_of_low (h : SameLow cpsr cpsr') : cpsrMode cpsr' = cpsrMode cpsr := by
  have hmode : ∀ c : BitVec 32, cpsrMode c = (c.setWidth 28 &&& 0x1F).setWidth 32 := by
    intro c
    apply BitVec.eq_of_getLsbD_eq
    intro i hi
    have hmask : ∀ i < 32, (0x1F : BitVec 32).getLsbD i = (0x1F : BitVec 28).getLsbD i := by
      decide
    rw [cpsrMode, BitVec.getLsbD_setWidth, BitVec.getLsbD_and, BitVec.getLsbD_and,
      BitVec.getLsbD_setWidth, hmask i hi, decide_eq_true hi, Bool.true_and]
    by_cases hlow : i < 28
    · rw [decide_eq_true hlow, Bool.true_and]
    · rw [BitVec.getLsbD_of_ge _ _ (Nat.le_of_not_lt hlow), Bool.and_false, Bool.and_false]
  rw [hmode, hmode, h]

theorem cpsrThumb_of_low (h : SameLow cpsr cpsr') : cpsrThumb cpsr' = cpsrThumb cpsr := by
  have hthumb : ∀ c : BitVec 32, cpsrThumb c = (c.setWidth 28).getLsbD 5 := by
    intro c
    rw [BitVec.getLsbD_setWidth]
    rfl
  rw [hthumb, hthumb, h]

theorem setNz_low (cpsr result : BitVec 32) : SameLow cpsr (setNz cpsr result) := by
  have hmask : (~~~(nBit ||| zBit)).setWidth 28 = BitVec.allOnes 28 := by decide
  have hn : nBit.setWidth 28 = 0 := by decide
  have hz : zBit.setWidth 28 = 0 := by decide
  unfold SameLow setNz
  rw [BitVec.setWidth_or, BitVec.setWidth_or, BitVec.setWidth_and, BitVec.setWidth_and, hmask, hn,
    BitVec.and_allOnes]
  split_ifs <;> simp [hz]

theorem arithFlags_low (cpsr result : BitVec 32) (carry overflow : Bool) :
    SameLow cpsr (arithFlags cpsr result carry overflow) := by
  have hmask : (~~~(nBit ||| zBit ||| cBit ||| vBit)).setWidth 28 = BitVec.allOnes 28 := by decide
  have hn : nBit.setWidth 28 = 0 := by decide
  have hz : zBit.setWidth 28 = 0 := by decide
  have hc : ((BitVec.ofBool carry).setWidth 32 <<< 29).setWidth 28 = 0 := by
    cases carry <;> decide
  have hv : ((BitVec.ofBool overflow).setWidth 32 <<< 28).setWidth 28 = 0 := by
    cases overflow <;> decide
  unfold SameLow arithFlags
  rw [BitVec.setWidth_or, BitVec.setWidth_or, BitVec.setWidth_or, BitVec.setWidth_or,
    BitVec.setWidth_and, BitVec.setWidth_and, hmask, hn, hc, hv, BitVec.and_allOnes]
  split_ifs <;> simp [hz]

theorem withCarry_low (cpsr : BitVec 32) (carry : Bool) : SameLow cpsr (withCarry cpsr carry) := by
  have hmask : (~~~cBit).setWidth 28 = BitVec.allOnes 28 := by decide
  have hc : ((BitVec.ofBool carry).setWidth 32 <<< 29).setWidth 28 = 0 := by
    cases carry <;> decide
  unfold SameLow withCarry
  rw [BitVec.setWidth_or, BitVec.setWidth_and, hmask, hc, BitVec.and_allOnes]
  simp

/-- A flag update that depends on the suffix of the operation. -/
theorem low_ite {s : Bool} (h : SameLow cpsr cpsr') : SameLow cpsr (if s then cpsr' else cpsr) := by
  split_ifs
  · exact h
  · rfl

theorem aluShift_low (form : ShiftForm) (setCarry : Bool) (instAddr : BitVec 32)
    (regs : ThreadRegs) (opcode : BitVec 32) :
    SameLow regs.cpsr (aluShift form setCarry instAddr regs opcode).2 := by
  unfold aluShift
  by_cases himm : form = .imm
  · rw [if_pos himm]
    simp only
    split_ifs
    · rfl
    · exact withCarry_low _ _
    · rfl
  · rw [if_neg himm]
    exact low_ite (withCarry_low _ _)

theorem compute_low (op : AluOp) (cpsr a b : BitVec 32) :
    SameLow cpsr (op.handler.compute cpsr a b).2 := by
  have hlogical : ∀ s isMov body, SameLow cpsr ((defLogical s isMov body).compute cpsr a b).2 :=
    fun s isMov body => low_ite (setNz_low cpsr _)
  cases op with
  | add | adds | sub | subs | rsb | rsbs | adc | adcs | sbc | sbcs | rsc | rscs =>
      exact low_ite (arithFlags_low cpsr _ _ _)
  | _ => exact hlogical _ _ _

/-- **An operation** changes the flags only. -/
theorem aluResult_low (op : AluOp) (form : ShiftForm) (opcode instAddr : BitVec 32)
    (regs : ThreadRegs) :
    SameLow regs.cpsr (aluResult op.handler form opcode instAddr regs).2.cpsr :=
  (compute_low op _ _ _).trans (aluShift_low form _ instAddr regs opcode)

theorem aluResult_isUser (op : AluOp) (form : ShiftForm) (opcode instAddr : BitVec 32)
    (regs : ThreadRegs) :
    (aluResult op.handler form opcode instAddr regs).2.isUser = regs.isUser := by
  rw [ThreadRegs.isUser, ThreadRegs.isUser,
    cpsrMode_of_low (aluResult_low op form opcode instAddr regs)]

theorem aluResult_thumb (op : AluOp) (form : ShiftForm) (opcode instAddr : BitVec 32)
    (regs : ThreadRegs) :
    cpsrThumb (aluResult op.handler form opcode instAddr regs).2.cpsr = cpsrThumb regs.cpsr :=
  cpsrThumb_of_low (aluResult_low op form opcode instAddr regs)

end Flags

/-! ## The pc and the state -/

section State

theorem clear_two_iff (v : BitVec 32) : v &&& ~~~1 = v &&& ~~~3 ↔ v.getLsbD 1 = false := by
  constructor
  · intro h
    have hbit := congrArg (fun w : BitVec 32 => w.getLsbD 1) h
    simpa using hbit
  · intro h
    apply BitVec.eq_of_getLsbD_eq
    intro i hi
    have hmasks : ∀ i < 32, i ≠ 1 →
        (~~~1 : BitVec 32).getLsbD i = (~~~3 : BitVec 32).getLsbD i := by decide
    rw [BitVec.getLsbD_and, BitVec.getLsbD_and]
    by_cases h1 : i = 1
    · rw [h1, h, Bool.false_and, Bool.false_and]
    · rw [hmasks i hi h1]

theorem clear_one_iff (v : BitVec 32) : v &&& ~~~1 = v ↔ v.getLsbD 0 = false := by
  constructor
  · intro h
    have hbit := congrArg (fun w : BitVec 32 => w.getLsbD 0) h
    simpa using hbit.symm
  · intro h
    apply BitVec.eq_of_getLsbD_eq
    intro i hi
    have hmask : ∀ i < 32, i ≠ 0 → (~~~1 : BitVec 32).getLsbD i = true := by decide
    rw [BitVec.getLsbD_and]
    by_cases h0 : i = 0
    · rw [h0, h, Bool.false_and]
    · rw [hmask i hi h0, Bool.and_true]

/-- **The two targets** of data processing: the interpreter clears two bits outside thumb state. -/
theorem target_iff (thumb : Bool) (v : BitVec 32) :
    ((if thumb then (v &&& ~~~1) ||| 1 else v &&& ~~~1) =
        (if thumb then (v &&& ~~~1) ||| 1 else v &&& ~~~3) ∧
      (if thumb then (v &&& ~~~1) ||| 1 else v &&& ~~~3).getLsbD 0 = thumb) ↔
      thumb = true ∨ v.getLsbD 1 = false := by
  cases thumb with
  | false =>
      rw [if_neg Bool.false_ne_true, if_neg Bool.false_ne_true]
      constructor
      · intro h
        exact .inr ((clear_two_iff v).mp h.1)
      · rintro (h | h)
        · cases h
        · exact ⟨(clear_two_iff v).mpr h, by simp⟩
  | true => exact ⟨fun _ => .inl rfl, fun _ => ⟨rfl, by simp⟩⟩

variable {regs regs' : ThreadRegs} {v w : BitVec 32}

theorem withPc_inj : ({ regs with pc := v } : ThreadRegs) = { regs with pc := w } ↔ v = w :=
  ⟨fun h => congrArg ThreadRegs.pc h, fun h => by rw [h]⟩

theorem storeBank_withPc (regs : ThreadRegs) (v mode : BitVec 32) :
    ({ regs with pc := v } : ThreadRegs).storeBank mode = { regs.storeBank mode with pc := v } := by
  unfold ThreadRegs.storeBank
  split_ifs <;> rfl

theorem loadBank_withPc (regs : ThreadRegs) (v mode : BitVec 32) :
    ({ regs with pc := v } : ThreadRegs).loadBank mode = { regs.loadBank mode with pc := v } := by
  unfold ThreadRegs.loadBank
  split_ifs <;> rfl

/-- A change of the mode leaves the pc alone. -/
theorem restoreSpsr_withPc (regs : ThreadRegs) (v : BitVec 32) :
    ({ regs with pc := v } : ThreadRegs).restoreSpsr = { regs.restoreSpsr with pc := v } := by
  have hswitch : ∀ mode mode', ({ regs with pc := v } : ThreadRegs).switchBank mode mode' =
      { regs.switchBank mode mode' with pc := v } := by
    intro mode mode'
    unfold ThreadRegs.switchBank
    split_ifs
    · rfl
    · rfl
    · rfl
    · rw [storeBank_withPc, loadBank_withPc]
  unfold ThreadRegs.restoreSpsr
  by_cases huser : regs.isUser = true
  · rw [if_pos huser]
    exact if_pos huser
  · rw [if_neg huser]
    refine (if_neg huser).trans ?_
    unfold ThreadRegs.setCpsr
    simp only [hswitch]

theorem restoreSpsr_cpsr (regs : ThreadRegs) :
    regs.restoreSpsr.cpsr = if regs.isUser then regs.cpsr else regs.spsr := by
  unfold ThreadRegs.restoreSpsr
  split_ifs <;> rfl

/-- A restore of the status register itself. -/
theorem restoreSpsr_self (h : regs.spsr = regs.cpsr) : regs.restoreSpsr = regs := by
  unfold ThreadRegs.restoreSpsr
  split_ifs
  · rfl
  · rw [ThreadRegs.setCpsr, h, ThreadRegs.switchBank, if_pos rfl]
    rfl

end State

/-! ## The law -/

/-- The word that a block load puts into the pc. -/
def pcWord (dev : MemDevices D) (t : BlockTransfer) (instAddr : BitVec 32) (g : GuestState D) :
    Option (BitVec 32) :=
  (memReadMultipleSlice dev true .word (t.lowestAddr (ctxReg instAddr g.regs t.rn)).toNat t.count
    g.mem).bind fun r => r.1.getLast?

/-- When the two engines write the same pc.  A result of data processing is a whole address, or goes
to thumb state; a loaded one is even; and a block load that restores the status register goes
through the stack pointer and stays in ARM state, or has nothing to restore. -/
def PcWrite.Good (dev : MemDevices D) (instAddr : BitVec 32) (g : GuestState D) : PcWrite → Prop
  | .alu op form opcode _ =>
      (op.handler.setFlags = true ∧ g.regs.isUser = false ∧ cpsrThumb g.regs.spsr = true) ∨
        (aluResult op.handler form opcode instAddr g.regs).1.getLsbD 1 = false
  | .ldr l opcode _ => (singleLoad dev l opcode instAddr g).1.getLsbD 0 = false
  | .ldrh l opcode _ => (halfLoad dev l opcode instAddr g).1.getLsbD 0 = false
  | .ldm t _ _ =>
      (∀ w ∈ pcWord dev t instAddr g, w.getLsbD 0 = false) ∧
        (t.user = true → g.regs.isUser = false →
          if t.rn = 13 then cpsrThumb g.regs.spsr = false else g.regs.spsr = g.regs.cpsr)

/-- Both engines leave the guest `g₁`, whose pc selects the state of its status register. -/
def PcAgrees (dev : MemDevices D) (i : PcWrite) (instAddr : BitVec 32) (g g₁ : GuestState D) :
    Prop :=
  compiledStep dev i instAddr g = some g₁ ∧ g₁.regs.pc.getLsbD 0 = cpsrThumb g₁.regs.cpsr

section Law

variable (dev : MemDevices D) {instAddr : BitVec 32} {g g₁ : GuestState D}

/-- Two guests that differ in their registers at most. -/
theorem guest_eq_iff {regs regs' : ThreadRegs} {mem : GuestMem D} :
    some (⟨regs, mem⟩ : GuestState D) = some ⟨regs', mem⟩ ↔ regs = regs' :=
  ⟨fun h => congrArg GuestState.regs (Option.some.inj h), fun h => by rw [h]⟩

/-- The registers of data processing with its status register restored. -/
def aluRestored (op : AluOp) (form : ShiftForm) (opcode instAddr : BitVec 32)
    (regs : ThreadRegs) : ThreadRegs :=
  let r := aluResult op.handler form opcode instAddr regs
  if op.handler.setFlags then r.2.restoreSpsr else r.2

/-- The state after data processing. -/
theorem aluRestored_thumb (op : AluOp) (form : ShiftForm) (opcode instAddr : BitVec 32)
    (regs : ThreadRegs) (harm : cpsrThumb regs.cpsr = false) :
    cpsrThumb (aluRestored op form opcode instAddr regs).cpsr = true ↔
      op.handler.setFlags = true ∧ regs.isUser = false ∧ cpsrThumb regs.spsr = true := by
  have hthumb := (aluResult_thumb op form opcode instAddr regs).trans harm
  unfold aluRestored
  simp only
  cases op.handler.setFlags with
  | false =>
      rw [if_neg Bool.false_ne_true, hthumb]
      simp
  | true =>
      rw [if_pos rfl, restoreSpsr_cpsr, aluResult_isUser]
      cases regs.isUser with
      | false => exact ⟨fun h => ⟨rfl, rfl, h⟩, fun h => h.2.2⟩
      | true =>
          rw [if_pos rfl, hthumb]
          simp

/-- What is left of `alu_finish` with the pc as destination. -/
theorem aluFinish_pc {opcode : BitVec 32} (hrd : opcodeRd opcode = 15) (form : ShiftForm)
    (isMov setFlags : Bool) (result : BitVec 32) (regs : ThreadRegs) :
    let after := if setFlags then regs.restoreSpsr else regs
    (aluFinish form isMov opcode result setFlags regs).1 = after ∧
      (aluFinish form isMov opcode result setFlags regs).2.branchTarget =
        some (if cpsrThumb after.cpsr then (result &&& ~~~1) ||| 1 else result &&& ~~~3) := by
  unfold aluFinish
  simp only
  rw [if_pos hrd]
  by_cases hreturn : isMov = true ∧ ¬ setFlags = true ∧ form ≠ .imm ∧
      (opcodeReg opcode 0 = 14 ∨ form.byReg = true ∧ opcodeReg opcode 8 = 14)
  · rw [if_pos hreturn]
    exact ⟨rfl, rfl⟩
  · rw [if_neg hreturn]
    exact ⟨rfl, rfl⟩

/-- The interpreter's data processing. -/
theorem interpreterStep_alu {op : AluOp} {form : ShiftForm} {opcode : BitVec 32}
    (hrd : opcodeRd opcode = 15) :
    interpreterStep dev (.alu op form opcode hrd) instAddr g =
      let after := aluRestored op form opcode instAddr g.regs
      let v := (aluResult op.handler form opcode instAddr g.regs).1
      some ⟨{ after with
        pc := if cpsrThumb after.cpsr then (v &&& ~~~1) ||| 1 else v &&& ~~~3 }, g.mem⟩ := by
  obtain ⟨hregs, htarget⟩ := aluFinish_pc hrd form op.handler.isMov op.handler.setFlags
    (aluResult op.handler form opcode instAddr g.regs).1
    (aluResult op.handler form opcode instAddr g.regs).2
  unfold interpreterStep interpret aluStep
  simp only [Option.map_some]
  rw [htarget, hregs]
  rfl

/-- The compiled data processing. -/
theorem compiledStep_alu {op : AluOp} {form : ShiftForm} {opcode : BitVec 32}
    (hrd : opcodeRd opcode = 15) (harm : cpsrThumb g.regs.cpsr = false) :
    compiledStep dev (.alu op form opcode hrd) instAddr g =
      let after := aluRestored op form opcode instAddr g.regs
      let v := (aluResult op.handler form opcode instAddr g.regs).1
      some ⟨{ after with
        pc := if cpsrThumb after.cpsr then (v &&& ~~~1) ||| 1 else v &&& ~~~1 }, g.mem⟩ := by
  have hcalls : handleIndirectBranch (PcWrite.alu op form opcode hrd).inst =
      if op.handler.setFlags then [.registerRestoreSpsr, .restoreThumbAfterRestoreSpsr]
      else [.setPcArmMode] := by
    unfold handleIndirectBranch PcWrite.inst
    simp
  have hthumb := (aluResult_thumb op form opcode instAddr g.regs).trans harm
  unfold compiledStep compiledBody aluRestored
  simp only [Option.map_some]
  rw [hcalls]
  cases op.handler.setFlags with
  | false =>
      rw [if_neg Bool.false_ne_true, if_neg Bool.false_ne_true, hthumb]
      rfl
  | true =>
      rw [if_pos rfl, if_pos rfl]
      change some (⟨(({ (aluResult op.handler form opcode instAddr g.regs).2 with
        pc := (aluResult op.handler form opcode instAddr g.regs).1 } :
          ThreadRegs).restoreSpsr).restoreThumbMode, g.mem⟩ : GuestState D) = _
      rw [restoreSpsr_withPc, ThreadRegs.restoreThumbMode]
      cases cpsrThumb (aluResult op.handler form opcode instAddr g.regs).2.restoreSpsr.cpsr with
      | false => simp
      | true => rfl

/-- **Data processing** agrees in thumb state, and on whole addresses. -/
theorem alu_agrees_iff {op : AluOp} {form : ShiftForm} {opcode : BitVec 32}
    (hrd : opcodeRd opcode = 15) (harm : cpsrThumb g.regs.cpsr = false)
    (h : interpreterStep dev (.alu op form opcode hrd) instAddr g = some g₁) :
    PcAgrees dev (.alu op form opcode hrd) instAddr g g₁ ↔
      PcWrite.Good dev instAddr g (.alu op form opcode hrd) := by
  rw [interpreterStep_alu] at h
  obtain rfl := Option.some.inj h
  have hgood : PcWrite.Good dev instAddr g (.alu op form opcode hrd) ↔
      cpsrThumb (aluRestored op form opcode instAddr g.regs).cpsr = true ∨
        (aluResult op.handler form opcode instAddr g.regs).1.getLsbD 1 = false :=
    or_congr (aluRestored_thumb op form opcode instAddr g.regs harm).symm Iff.rfl
  rw [hgood, PcAgrees, compiledStep_alu dev hrd harm]
  simp only
  rw [guest_eq_iff, withPc_inj]
  exact target_iff _ _

/-- **A loaded pc** without a change of the mode: one engine keeps the bit that the other clears. -/
theorem load_agrees_iff {i : PcWrite} {r : GuestState D} {v : BitVec 32}
    (hbody : compiledBody dev i instAddr g = some (r.withPc v))
    (hcalls : handleIndirectBranch i.inst = [.setPcArmMode])
    (harm : cpsrThumb r.regs.cpsr = false) :
    PcAgrees dev i instAddr g (r.withPc v) ↔ v.getLsbD 0 = false := by
  have hstep : compiledStep dev i instAddr g =
      some ⟨{ r.regs with pc := v &&& ~~~1 }, r.mem⟩ := by
    rw [compiledStep, hbody, hcalls]
    rfl
  have hthumb : cpsrThumb (r.withPc v).regs.cpsr = false := harm
  rw [PcAgrees, hstep, hthumb]
  constructor
  · exact fun h => h.2
  · intro hbit
    refine ⟨?_, hbit⟩
    rw [(clear_one_iff v).mpr hbit]
    rfl

/-- **Single loads** agree on even addresses. -/
theorem ldr_agrees_iff {l : SingleLoad} {opcode : BitVec 32} (hrd : opcodeRd opcode = 15)
    (harm : cpsrThumb g.regs.cpsr = false)
    (h : interpreterStep dev (.ldr l opcode hrd) instAddr g = some g₁) :
    PcAgrees dev (.ldr l opcode hrd) instAddr g g₁ ↔
      PcWrite.Good dev instAddr g (.ldr l opcode hrd) := by
  have hcpsr : (singleLoad dev l opcode instAddr g).2.regs.cpsr = g.regs.cpsr := by
    unfold singleLoad
    simp only
    by_cases hoffset : l.addr = .offset
    · rw [if_pos hoffset]
    · rw [if_neg hoffset]
      exact ThreadRegs.setReg_cpsr
  have hstep : interpreterStep dev (.ldr l opcode hrd) instAddr g =
      some ((singleLoad dev l opcode instAddr g).2.withPc
        (singleLoad dev l opcode instAddr g).1) := by
    unfold interpreterStep interpret ldr
    simp only [Option.map_some]
    rw [if_pos hrd]
    split_ifs <;> rfl
  have hcalls : handleIndirectBranch (PcWrite.ldr l opcode hrd).inst = [.setPcArmMode] := by
    unfold handleIndirectBranch PcWrite.inst
    simp
  obtain rfl := Option.some.inj (hstep.symm.trans h)
  exact load_agrees_iff dev rfl hcalls (hcpsr ▸ harm)

/-- **Half loads** agree on even addresses. -/
theorem ldrh_agrees_iff {l : HalfLoad} {opcode : BitVec 32} (hrd : opcodeRd opcode = 15)
    (harm : cpsrThumb g.regs.cpsr = false)
    (h : interpreterStep dev (.ldrh l opcode hrd) instAddr g = some g₁) :
    PcAgrees dev (.ldrh l opcode hrd) instAddr g g₁ ↔
      PcWrite.Good dev instAddr g (.ldrh l opcode hrd) := by
  have hcpsr : (halfLoad dev l opcode instAddr g).2.regs.cpsr = g.regs.cpsr := by
    unfold halfLoad
    simp only
    by_cases hoffset : l.addr = .offset
    · rw [if_pos hoffset]
    · rw [if_neg hoffset]
      exact ThreadRegs.setReg_cpsr
  have hstep : interpreterStep dev (.ldrh l opcode hrd) instAddr g =
      some ((halfLoad dev l opcode instAddr g).2.withPc (halfLoad dev l opcode instAddr g).1) := by
    unfold interpreterStep interpret ldrh
    simp only [Option.map_some]
    rw [if_pos hrd]
    split_ifs <;> rfl
  have hcalls : handleIndirectBranch (PcWrite.ldrh l opcode hrd).inst = [.setPcArmMode] := by
    unfold handleIndirectBranch PcWrite.inst
    simp
  obtain rfl := Option.some.inj (hstep.symm.trans h)
  exact load_agrees_iff dev rfl hcalls (hcpsr ▸ harm)

/-! ## Block loads -/

/-- The loop of a block load leaves the status registers alone. -/
theorem foldl_requestSet_status (l : List (Fin 16 × BitVec 32)) (regs : ThreadRegs) :
    (l.foldl (requestSet false false) regs).cpsr = regs.cpsr ∧
      (l.foldl (requestSet false false) regs).spsr = regs.spsr := by
  induction l generalizing regs with
  | nil => exact ⟨rfl, rfl⟩
  | cons p l ih =>
      obtain ⟨hcpsr, hspsr⟩ := ih (requestSet false false regs p)
      exact ⟨hcpsr.trans ThreadRegs.setReg_cpsr, hspsr.trans ThreadRegs.setReg_spsr⟩

/-- The loop over a list with the pc ends with it. -/
theorem foldl_loadReg_pc {l : List (Fin 16 × BitVec 32)} {w : BitVec 32} (hl : ∀ p ∈ l, p.1 ≠ 15)
    (regs : ThreadRegs) :
    (l ++ [(15, w)]).foldl (loadReg false false) (regs, none) =
      (l.foldl (requestSet false false) regs, some w) := by
  have hloop : l.foldl (loadReg false false) (regs, none) =
      (l.foldl (requestSet false false) regs, none) :=
    @foldl_loadReg false false l hl regs
  rw [List.foldl_append, hloop]
  rfl

/-- **A block load of the pc**, with the user bit and without it. -/
theorem ldm_pc {t : BlockTransfer} (hpc : t.regList.getLsbD 15 = true) {b : GuestState D}
    {r : InstResult} (h : ldm dev { t with user := false } instAddr g = some (b, r)) :
    ∃ w, pcWord dev t instAddr g = some w ∧ r.branchTarget = some w ∧
      b.regs.cpsr = g.regs.cpsr ∧ b.regs.spsr = g.regs.spsr ∧
      ldm dev t instAddr g = some (⟨if t.user then b.regs.restoreSpsr else b.regs, b.mem⟩, r) := by
  obtain ⟨read, hread, heq⟩ := Option.map_eq_some_iff.mp h
  change memReadMultipleSlice dev true .word (t.lowestAddr (ctxReg instAddr g.regs t.rn)).toNat
    t.count g.mem = some read at hread
  -- the pc is the last register, and its word the last one
  obtain ⟨others, hothers⟩ := regs_of_pc hpc
  have hlength : read.1.length = t.count := length_of_read dev hread
  have hcount : t.count = others.length + 1 := by
    rw [BlockTransfer.count, hothers, List.length_append]
    rfl
  obtain ⟨words, w, hwords⟩ : ∃ (words : List (BitVec 32)) (w : BitVec 32),
      read.1 = words ++ [w] := by
    rcases List.eq_nil_or_concat' read.1 with hnil | ⟨words, w, hconcat⟩
    · rw [hnil, hcount] at hlength
      cases hlength
    · exact ⟨words, w, hconcat⟩
  have hzip : t.regs.zip (words ++ [w]) = others.zip words ++ [(15, w)] := by
    have hlast : words.length + 1 = others.length + 1 :=
      calc words.length + 1 = (words ++ [w]).length := by rw [List.length_append]; rfl
        _ = read.1.length := (congrArg List.length hwords).symm
        _ = others.length + 1 := hlength.trans hcount
    rw [hothers, List.zip_append (Nat.succ.inj hlast).symm]
    rfl
  have hne : ∀ p ∈ others.zip words, p.1 ≠ 15 := by
    intro p hp heq15
    have hnodup := hothers ▸ t.nodup_regs
    have hmem := (List.of_mem_zip hp).1
    rw [heq15] at hmem
    exact (List.nodup_append.mp hnodup).2.2 15 hmem 15 (List.mem_singleton_self _) rfl
  have hloop : (t.regs.zip (words ++ [w])).foldl (loadReg false false) (g.regs, none) =
      ((others.zip words).foldl (requestSet false false) g.regs, some w) := by
    rw [hzip]
    exact foldl_loadReg_pc hne g.regs
  obtain ⟨hcpsr, hspsr⟩ := foldl_requestSet_status (others.zip words) g.regs
  generalize (others.zip words).foldl (requestSet false false) g.regs = loaded at hloop hcpsr hspsr
  have hldm : ∀ user, ldm dev { t with user := user } instAddr g =
      let regs := if t.wb && !t.regList.getLsbD t.rn then
        loaded.setReg t.rn (t.finalBase (ctxReg instAddr g.regs t.rn)) else loaded
      some (⟨if user then regs.restoreSpsr else regs, read.2⟩,
        if t.rn = 13 then .branchReturn (t.count + 2) w else .branch (t.count + 2) w) := by
    intro user
    have hbanked : BlockTransfer.userBanked { t with user := user } g.regs = false := by
      rw [BlockTransfer.userBanked, hpc, Bool.not_true, Bool.and_false, Bool.false_and]
    refine (congrArg (Option.map _) hread).trans ?_
    rw [Option.map_some]
    have hregs : BlockTransfer.regs { t with user := user } = t.regs := rfl
    simp only [hbanked, Bool.false_and, hregs, hwords]
    erw [hloop]
    cases user <;> rfl
  have hfirst := Option.some.inj ((hldm false).symm.trans h)
  obtain ⟨rfl, rfl⟩ := Prod.mk.inj hfirst
  refine ⟨w, ?_, ?_, ?_, ?_, hldm t.user⟩
  · rw [pcWord, hread]
    change read.1.getLast? = some w
    rw [hwords]
    exact List.getLast?_concat
  · split_ifs <;> rfl
  · rw [if_neg Bool.false_ne_true]
    split_ifs
    · exact ThreadRegs.setReg_cpsr.trans hcpsr
    · exact hcpsr
  · rw [if_neg Bool.false_ne_true]
    split_ifs
    · exact ThreadRegs.setReg_spsr.trans hspsr
    · exact hspsr

/-- The calls after a block load. -/
theorem handleIndirectBranch_ldm {t : BlockTransfer} (hload : t.load = true)
    (hpc : t.regList.getLsbD 15 = true) :
    handleIndirectBranch (PcWrite.ldm t hload hpc).inst = .setPcArmMode ::
      if t.rn = 13 ∧ t.user = true then [.registerRestoreSpsr, .setPcArmMode] else [] := by
  unfold handleIndirectBranch PcWrite.inst
  by_cases hrn : t.rn = 13 <;> simp [hrn]

/-- **Block loads.** -/
theorem ldm_agrees_iff {t : BlockTransfer} (hload : t.load = true)
    (hpc : t.regList.getLsbD 15 = true) (harm : cpsrThumb g.regs.cpsr = false)
    (h : interpreterStep dev (.ldm t hload hpc) instAddr g = some g₁) :
    PcAgrees dev (.ldm t hload hpc) instAddr g g₁ ↔
      PcWrite.Good dev instAddr g (.ldm t hload hpc) := by
  have hlist : t.regList ≠ 0 := by
    intro hzero
    rw [hzero] at hpc
    cases hpc
  -- both engines make the same load
  obtain ⟨⟨b, r⟩, hbody⟩ : ∃ q, ldm dev { t with user := false } instAddr g = some q := by
    rw [interpreterStep, interpret, ldmStm, if_neg hlist, if_pos hload, Option.map_eq_some_iff] at h
    obtain ⟨q, hq, -⟩ := h
    obtain ⟨read, hread, -⟩ := Option.map_eq_some_iff.mp hq
    exact ⟨_, Option.map_eq_some_iff.mpr ⟨read, hread, rfl⟩⟩
  obtain ⟨w, hword, htarget, hcpsr, hspsr, hldm⟩ := ldm_pc dev hpc hbody
  have hint : interpreterStep dev (.ldm t hload hpc) instAddr g =
      some ⟨{ (if t.user then b.regs.restoreSpsr else b.regs) with pc := w }, b.mem⟩ := by
    rw [interpreterStep, interpret, ldmStm, if_neg hlist, if_pos hload, hldm, Option.map_some]
    simp only [htarget]
    rfl
  have hcompiled : compiledStep dev (.ldm t hload hpc) instAddr g =
      some ⟨{ (if t.rn = 13 ∧ t.user = true then b.regs.restoreSpsr else b.regs) with
        pc := w &&& ~~~1 }, b.mem⟩ := by
    have hstart : compiledBody dev (.ldm t hload hpc) instAddr g = some (b.withPc w) := by
      rw [compiledBody, hbody, Option.map_some]
      simp only [htarget]
    rw [compiledStep, hstart, Option.map_some, handleIndirectBranch_ldm]
    by_cases hreturn : t.rn = 13 ∧ t.user = true
    · rw [if_pos hreturn, if_pos hreturn]
      change some (⟨(({ b.regs with pc := w &&& ~~~1 } :
        ThreadRegs).restoreSpsr).forcePcArmMode, b.mem⟩ : GuestState D) = _
      rw [restoreSpsr_withPc, ThreadRegs.forcePcArmMode]
      simp only [BitVec.and_assoc, BitVec.and_self]
    · rw [if_neg hreturn, if_neg hreturn]
      rfl
  obtain rfl := Option.some.inj (hint.symm.trans h)
  have huser : b.regs.isUser = g.regs.isUser := by
    rw [ThreadRegs.isUser, ThreadRegs.isUser, hcpsr]
  have hgood : PcWrite.Good dev instAddr g (.ldm t hload hpc) ↔ w.getLsbD 0 = false ∧
      (t.user = true → g.regs.isUser = false →
        if t.rn = 13 then cpsrThumb g.regs.spsr = false else g.regs.spsr = g.regs.cpsr) := by
    unfold PcWrite.Good
    simp only [hword]
    simp
  rw [hgood, PcAgrees, hcompiled, guest_eq_iff]
  simp only
  have harm' : cpsrThumb b.regs.cpsr = false := hcpsr ▸ harm
  cases hu : t.user with
  | false =>
      -- nothing is restored
      rw [if_neg fun h => Bool.noConfusion h.2, if_neg Bool.false_ne_true, withPc_inj,
        clear_one_iff, harm', and_self]
      simp
  | true =>
      rw [if_pos rfl]
      cases hmode : g.regs.isUser with
      | true =>
          -- user mode has no saved status register
          have hsame : b.regs.restoreSpsr = b.regs := if_pos (huser.trans hmode)
          rw [hsame, ite_self, withPc_inj, clear_one_iff, harm', and_self]
          simp
      | false =>
          have hcpsr' : b.regs.restoreSpsr.cpsr = g.regs.spsr := by
            rw [restoreSpsr_cpsr, huser, hmode, if_neg Bool.false_ne_true, hspsr]
          by_cases hrn : t.rn = 13
          · rw [if_pos ⟨hrn, rfl⟩, if_pos hrn, withPc_inj, clear_one_iff, hcpsr']
            constructor
            · intro h
              exact ⟨h.1, fun _ _ => h.2.symm.trans h.1⟩
            · intro h
              exact ⟨h.1, h.1.trans (h.2 rfl rfl).symm⟩
          · rw [if_neg fun h => hrn h.1, if_neg hrn]
            constructor
            · rintro ⟨hregs, -⟩
              have hstatus : b.regs.cpsr = g.regs.spsr :=
                (congrArg ThreadRegs.cpsr hregs).trans hcpsr'
              exact ⟨(clear_one_iff w).mp (congrArg ThreadRegs.pc hregs),
                fun _ _ => hstatus.symm.trans hcpsr⟩
            · rintro ⟨hbit, hstatus⟩
              have hself : b.regs.restoreSpsr = b.regs :=
                restoreSpsr_self (hspsr.trans ((hstatus rfl rfl).trans hcpsr.symm))
              rw [hself, withPc_inj, clear_one_iff, harm']
              exact ⟨hbit, hbit⟩

end Law

/-- **Writes of the pc.**  In ARM state, for every such instruction, register file and memory, the
compiled sequence leaves what the interpreter's step leaves, with a pc that selects the state of
its status register, exactly when the write is good. -/
theorem pc_writes_law (dev : MemDevices D) (i : PcWrite) (instAddr : BitVec 32)
    (g g₁ : GuestState D) (harm : cpsrThumb g.regs.cpsr = false)
    (h : interpreterStep dev i instAddr g = some g₁) :
    PcAgrees dev i instAddr g g₁ ↔ i.Good dev instAddr g := by
  cases i with
  | alu op form opcode hrd => exact alu_agrees_iff dev hrd harm h
  | ldr l opcode hrd => exact ldr_agrees_iff dev hrd harm h
  | ldrh l opcode hrd => exact ldrh_agrees_iff dev hrd harm h
  | ldm t hload hpc => exact ldm_agrees_iff dev hload hpc harm h

/-! ## Two returns -/

/-- A guest in supervisor mode, called from user mode; `r0` is the start of ewram. -/
def supervisorGuest : GuestState Unit :=
  ⟨({ ThreadRegs.default with cpsr := 0xD3, spsr := 0x10, lr := 0x08000100 } :
    ThreadRegs).setReg 0 0x02000000, emptyBoot plainCartridge⟩

/-- `movs pc, lr`. -/
def exceptionReturn : PcWrite := .alu .movs .lli 0xE1B0F00E (by decide)

/-- **A return from an exception** through `movs`. -/
theorem exceptionReturn_agrees : ∃ g₁,
    interpreterStep silentDevices exceptionReturn 0x02001000 supervisorGuest = some g₁ ∧
      PcAgrees silentDevices exceptionReturn 0x02001000 supervisorGuest g₁ := by
  have hgood : exceptionReturn.Good silentDevices 0x02001000 supervisorGuest := .inr (by decide)
  exact ⟨_, rfl, (pc_writes_law silentDevices exceptionReturn 0x02001000 supervisorGuest _
    (by decide) rfl).mpr hgood⟩

/-- `ldmia r0, {pc}^`. -/
def userBlockReturn : PcWrite :=
  .ldm ⟨true, false, true, true, false, 0, 0x8000⟩ rfl (by decide)

/-- **A block load with the user bit** through another register than the stack pointer: the
compiled code stays in supervisor mode. -/
theorem userBlockReturn_differs :
    ¬ ∀ (i : PcWrite) (instAddr : BitVec 32) (g g₁ : GuestState Unit),
      cpsrThumb g.regs.cpsr = false → interpreterStep silentDevices i instAddr g = some g₁ →
        PcAgrees silentDevices i instAddr g g₁ := by
  intro hall
  have hint : (interpreterStep silentDevices userBlockReturn 0x02001000 supervisorGuest).map
      (fun g => g.regs.cpsr) = some 0x10 := by
    decide +kernel
  have hcompiled : (compiledStep silentDevices userBlockReturn 0x02001000 supervisorGuest).map
      (fun g => g.regs.cpsr) = some 0xD3 := by
    decide +kernel
  obtain ⟨g₁, hg, hcpsr⟩ := Option.map_eq_some_iff.mp hint
  obtain ⟨hsame, -⟩ := hall userBlockReturn 0x02001000 supervisorGuest g₁ (by decide) hg
  rw [hsame, Option.map_some, hcpsr] at hcompiled
  exact absurd hcompiled (by decide)

end AdvancedSlop
