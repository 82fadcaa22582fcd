/-
# Compiled data processing

The compiler turns an instruction that processes data into one instruction of the host, on the host
registers that its own registers are mapped to (`emit_alu.rs`, `emit_alu_thumb.rs`,
`block_asm.rs`).

* `MasmInst`, `HostCpu` : what is emitted, and what the host does with it;
* `BlockAsm.allocGuestInst` : the registers of an instruction, and the value the pc reads as;
* `emitAlu`, `emitMul`, `emitAluThumb` : the instruction of the host;
* `compileBlock` : a basic block, from the guest file to the guest file.

The assembler is not part of the repository.  Of its encodings only one thing is seen: the carry of
an immediate, which is that of the status register unless the immediate is put in place by a
rotation (`rotated`).
-/
import AdvancedSlop.AsmAnalyzer
import AdvancedSlop.CycleParity
import AdvancedSlop.Relocation

namespace AdvancedSlop

open WordArith

attribute [local instance] neZero_regs

/-! ## The host -/

/-- `vixl::Operand`. -/
inductive MasmOperand
  | imm (value : BitVec 32)
  | reg (r : HostReg)
  | shiftImm (r : HostReg) (kind : ShiftKind) (amount : ℕ)
  | rrx (r : HostReg)
  | shiftReg (r : HostReg) (kind : ShiftKind) (amount : HostReg)
  deriving DecidableEq, Repr

/-- What is emitted for a block of data processing. -/
inductive MasmInst
  /-- A move of the allocator. -/
  | alloc (inst : HostInst)
  | ldrConst (dest : HostReg) (value : BitVec 32)
  | data (cond : Cond) (op : DataOp) (s : Bool) (rd rn : HostReg) (operand : MasmOperand)
  | mul (cond : Cond) (s : Bool) (rd rm rs : HostReg) (rn : Option HostReg)
  | mull (cond : Cond) (s signed acc : Bool) (rdlo rdhi rm rs : HostReg)
  /-- `load_guest_reg` of the status register, and `msr CPSR_f`. -/
  | loadFlags
  /-- `store_guest_cpsr_reg`: the top byte of the status register. -/
  | storeFlags
  deriving DecidableEq, Repr

/-- The host: its registers and flags, and the guest file. -/
structure HostCpu extends HostState where
  cpsr : BitVec 32
  cpsrSlot : BitVec 32

namespace HostCpu

/-- A host register is written. -/
def setReg (m : HostCpu) (r : HostReg) (value : BitVec 32) : HostCpu :=
  { m with regs := Function.update m.regs r value }

/-- The flags are set, by an instruction that sets them. -/
def setFlags (m : HostCpu) (s : Bool) (f : Flags) : HostCpu :=
  if s then { m with cpsr := f.put m.cpsr } else m

end HostCpu

section Host

variable (rotated : BitVec 32 → Bool)

/-- The operand and the carry of the shifter. -/
def MasmOperand.value (m : HostCpu) (operand : MasmOperand) : BitVec 32 × Bool :=
  let carry := (Flags.of m.cpsr).c
  match operand with
  | imm value => (value, if rotated value then value.msb else carry)
  | reg r => (m.regs r, carry)
  | shiftImm r kind amount => kind.byReg (m.regs r) amount carry
  | rrx r => rrxCarry (m.regs r) carry
  | shiftReg r kind amount => kind.byReg (m.regs r) ((m.regs amount).toNat % 256) carry

/-- The product of a long multiplication. -/
def longProduct (signed : Bool) (rm rs : BitVec 32) : BitVec 64 :=
  if signed then rm.signExtend 64 * rs.signExtend 64 else rm.setWidth 64 * rs.setWidth 64

/-- **An instruction of the host.** -/
def HostCpu.step (m : HostCpu) : MasmInst → HostCpu
  | .alloc inst => { m with toHostState := m.toHostState.step inst }
  | .ldrConst dest value => m.setReg dest value
  | .data cond op s rd rn operand =>
      if cond.holds m.cpsr then
        let b := operand.value rotated m
        let r := op.eval (m.regs rn) b.1 b.2 (Flags.of m.cpsr)
        let m := m.setFlags s ⟨r.1.msb, r.1 == 0, r.2.1, r.2.2⟩
        if op.isTest then m else m.setReg rd r.1
      else m
  | .mul cond s rd rm rs rn =>
      if cond.holds m.cpsr then
        let r := m.regs rm * m.regs rs + (rn.map m.regs).getD 0
        (m.setFlags s { Flags.of m.cpsr with n := r.msb, z := r == 0 }).setReg rd r
      else m
  | .mull cond s signed acc rdlo rdhi rm rs =>
      if cond.holds m.cpsr then
        let r := longProduct signed (m.regs rm) (m.regs rs) +
          if acc then m.regs rdhi ++ m.regs rdlo else 0
        ((m.setFlags s { Flags.of m.cpsr with n := r.msb, z := r == 0 }).setReg rdlo
          (r.setWidth 32)).setReg rdhi (r.extractLsb' 32 32)
      else m
  | .loadFlags => { m with cpsr := m.cpsrSlot.extractLsb' 24 8 ++ m.cpsr.setWidth 24 }
  | .storeFlags => { m with cpsrSlot := m.cpsr.extractLsb' 24 8 ++ m.cpsrSlot.setWidth 24 }

/-- Some instructions of the host. -/
def HostCpu.exec (m : HostCpu) (code : List MasmInst) : HostCpu := code.foldl (HostCpu.step rotated) m

end Host

/-! ## The registers of an instruction -/

/-- A set of registers, less the status registers. -/
def RegReserve.guests (regs : RegReserve) : GuestSet := fun g => regs.isReserved (.ofNum g)

/-- `Op::is_thumb_alu_high`. -/
def Op.isThumbAluHigh : Op → Bool
  | .addSpImmT | .addHT | .cmpHT | .movHT => true
  | _ => false

/-- The second operand is shifted by a register, and it or the first one is the pc. -/
def InstInfo.pcIsLate (inst : InstInfo) : Bool :=
  match inst.operands with
  | [_, .reg op2 (some (_, .reg _))] => op2 = .pc
  | [_, op1, .reg op2 (some (_, .reg _))] => op2 = .pc || op1.asRegNoShift = some .pc
  | _ => false

/-- The value the pc is loaded with. -/
def InstInfo.pcValue (inst : InstInfo) (thumb : Bool) (currentPc : BitVec 32) : BitVec 32 :=
  if thumb then
    if inst.op.isAlu ∧ inst.op.isThumbAluHigh = false then (currentPc + 4) &&& ~~~3
    else currentPc + 4
  else if inst.op.isAlu ∧ inst.pcIsLate then currentPc + 8 + 4 else currentPc + 8

/-- `BlockAsm`, as far as data processing reaches. -/
structure BlockAsm where
  regAlloc : RegAlloc
  dirtyGuestRegs : RegReserve

namespace BlockAsm

/-- What an instruction asks the allocator for: a conditional one keeps what it may not write. -/
def request (b : BlockAsm) (inst : InstInfo) (nextLiveRegs : RegReserve) : AllocRequest where
  inputRegs := (if inst.cond ≠ .al then inst.srcRegs + (inst.outRegs - .ofRegs [.pc])
    else inst.srcRegs).guests
  outputRegs := inst.outRegs.guests
  nextLiveRegs := nextLiveRegs.guests
  dirtyGuestRegs := b.dirtyGuestRegs.guests

/-- `alloc_guest_inst`, for an instruction that processes data. -/
def allocGuestInst (b : BlockAsm) (thumb : Bool) (currentPc : BitVec 32) (inst : InstInfo)
    (nextLiveRegs : RegReserve) : Option (BlockAsm × List MasmInst) :=
  (b.regAlloc.allocGuestRegs (b.request inst nextLiveRegs)).bind fun r =>
    let dirty :=
      if inst.cond = .al then b.dirtyGuestRegs - .ofRegs (r.2.2.map Reg.ofNum) else b.dirtyGuestRegs
    let code := r.2.1.map .alloc
    if inst.srcRegs.isReserved .pc then
      (r.1.guestRegsMapping 15).map fun pcReg =>
        (⟨r.1, dirty⟩, code ++ [.ldrConst pcReg (inst.pcValue thumb currentPc)])
    else some (⟨r.1, dirty⟩, code)

/-- `get_guest_map`, of an operand without a shift. -/
def getGuestMap (b : BlockAsm) (operand : Operand) : Option HostReg :=
  operand.asRegNoShift.bind fun r =>
    if h : r.index < 16 then b.regAlloc.guestRegsMapping ⟨r.index, h⟩ else none

/-- The kind of a shift. -/
def shiftKind : ShiftType → ShiftKind
  | .lsl => .lsl
  | .lsr => .lsr
  | .asr => .asr
  | .ror => .ror

/-- A shift by an immediate: 0 stands for 32, and for a rotation through the carry. -/
def shiftOperand (r : HostReg) (type : ShiftType) (amount : ℕ) : MasmOperand :=
  if amount = 0 then
    match type with
    | .lsl => .shiftImm r .lsl 0
    | .lsr => .shiftImm r .lsr 32
    | .asr => .shiftImm r .asr 32
    | .ror => .rrx r
  else .shiftImm r (shiftKind type) amount

/-- `get_guest_operand_map`. -/
def getGuestOperandMap (b : BlockAsm) : Operand → Option MasmOperand
  | .imm value => some (.imm value)
  | .reg r none => (b.getGuestMap (.reg r none)).map .reg
  | .reg r (some (type, .imm amount)) =>
      (b.getGuestMap (.reg r none)).map fun h => shiftOperand h type amount.toNat
  | .reg r (some (type, .reg amount)) =>
      (b.getGuestMap (.reg r none)).bind fun h =>
        (b.getGuestMap (.reg amount none)).map fun h' => .shiftReg h (shiftKind type) h'
  | .regList _ => none

end BlockAsm

/-! ## The instructions -/

/-- The functions of two operands in `emit_alu`. -/
def Op.masm2 : Op → Option (DataOp × Bool)
  | .tst => some (.tst, true)
  | .teq => some (.teq, true)
  | .cmp => some (.cmp, true)
  | .cmn => some (.cmn, true)
  | .mov => some (.mov, false)
  | .mvn => some (.mvn, false)
  | .movs => some (.mov, true)
  | .mvns => some (.mvn, true)
  | _ => none

/-- The functions of three operands in `emit_alu`. -/
def Op.masm3 : Op → Option (DataOp × Bool)
  | .and => some (.and, false)
  | .eor => some (.eor, false)
  | .sub => some (.sub, false)
  | .rsb => some (.rsb, false)
  | .add => some (.add, false)
  | .adc => some (.adc, false)
  | .sbc => some (.sbc, false)
  | .rsc => some (.rsc, false)
  | .orr => some (.orr, false)
  | .bic => some (.bic, false)
  | .ands => some (.and, true)
  | .eors => some (.eor, true)
  | .subs => some (.sub, true)
  | .rsbs => some (.rsb, true)
  | .adds => some (.add, true)
  | .adcs => some (.adc, true)
  | .sbcs => some (.sbc, true)
  | .rscs => some (.rsc, true)
  | .orrs => some (.orr, true)
  | .bics => some (.bic, true)
  | _ => none

/-- `emit_alu`. -/
def emitAlu (b : BlockAsm) (inst : InstInfo) : Option MasmInst :=
  let cond := if inst.outRegs.isReserved .pc then .al else inst.cond
  match inst.operands with
  | [op0, op1] =>
      inst.op.masm2.bind fun f => (b.getGuestMap op0).bind fun h0 =>
        (b.getGuestOperandMap op1).map fun operand => .data cond f.1 f.2 h0 h0 operand
  | [op0, op1, op2] =>
      inst.op.masm3.bind fun f => (b.getGuestMap op0).bind fun h0 => (b.getGuestMap op1).bind fun h1 =>
        (b.getGuestOperandMap op2).map fun operand => .data cond f.1 f.2 h0 h1 operand
  | _ => none

/-- The functions of `emit_mul` the architecture of the guest has: flags, signedness and
accumulation of the long ones. -/
def Op.masmMull : Op → Option (Bool × Bool × Bool)
  | .smull => some (false, true, false)
  | .smulls => some (true, true, false)
  | .smlal => some (false, true, true)
  | .smlals => some (true, true, true)
  | .umull => some (false, false, false)
  | .umulls => some (true, false, false)
  | .umlal => some (false, false, true)
  | .umlals => some (true, false, true)
  | _ => none

/-- `emit_mul`. -/
def emitMul (b : BlockAsm) (inst : InstInfo) : Option MasmInst :=
  match inst.operands.mapM b.getGuestMap with
  | some [h0, h1, h2] =>
      match inst.op with
      | .mul => some (.mul inst.cond false h0 h1 h2 none)
      | .muls => some (.mul inst.cond true h0 h1 h2 none)
      | _ => none
  | some [h0, h1, h2, h3] =>
      match inst.op with
      | .mla => some (.mul inst.cond false h0 h1 h2 (some h3))
      | .mlas => some (.mul inst.cond true h0 h1 h2 (some h3))
      | op => op.masmMull.map fun f => .mull inst.cond f.1 f.2.1 f.2.2 h0 h1 h2 h3
  | _ => none

/-- The functions of two operands in `emit_alu_thumb`, but `muls`. -/
def Op.masmThumb2 : Op → Option (DataOp × Bool)
  | .cmpT | .cmpHT => some (.cmp, true)
  | .movT => some (.mov, true)
  | .tstT => some (.tst, true)
  | .mvnT => some (.mvn, true)
  | .movHT => some (.mov, false)
  | .cmnT => some (.cmn, true)
  | _ => none

/-- The functions of three operands in `emit_alu_thumb`, but the shifts. -/
def Op.masmThumb3 (sub : Bool) : Op → Option (DataOp × Bool)
  | .addT => some (.add, true)
  | .subT => some (.sub, true)
  | .andT => some (.and, true)
  | .eorT => some (.eor, true)
  | .adcT => some (.adc, true)
  | .sbcT => some (.sbc, true)
  | .orrT => some (.orr, true)
  | .bicT => some (.bic, true)
  | .negT => some (.rsb, true)
  | .addHT | .addPcT | .addSpT => some (.add, false)
  | .addSpImmT => some (if sub then .sub else .add, false)
  | _ => none

/-- The shifts of `emit_alu_thumb`. -/
def Op.masmShift : Op → Option ShiftKind
  | .lslT => some .lsl
  | .lsrT => some .lsr
  | .asrT => some .asr
  | .rorT => some .ror
  | _ => none

/-- A shift of `emit_alu_thumb`, which is a move of a shifted register: by 0 to the left it is a
plain one, and to the right it is by 32. -/
def thumbShift (kind : ShiftKind) (r : HostReg) : MasmOperand → Option MasmOperand
  | .reg amount => some (.shiftReg r kind amount)
  | .imm value =>
      some (if kind = .lsl ∧ value = 0 then .reg r
        else if (kind = .lsr ∨ kind = .asr) ∧ value = 0 then .shiftImm r kind 32
        else .shiftImm r kind value.toNat)
  | _ => none

/-- `emit_alu_thumb`, with bit 7 of the opcode. -/
def emitAluThumb (b : BlockAsm) (inst : InstInfo) (sub : Bool) : Option MasmInst :=
  match inst.operands with
  | [op0, op1] =>
      (b.getGuestMap op0).bind fun h0 =>
        if inst.op = .mulT then
          (b.getGuestMap op1).map fun h1 => .mul .al true h0 h1 h0 none
        else
          inst.op.masmThumb2.bind fun f =>
            (b.getGuestOperandMap op1).map fun operand => .data .al f.1 f.2 h0 h0 operand
  | [op0, op1, op2] =>
      (b.getGuestMap op0).bind fun h0 => (b.getGuestMap op1).bind fun h1 =>
        (b.getGuestOperandMap op2).bind fun operand =>
          match inst.op.masmShift with
          | some kind => (thumbShift kind h1 operand).map fun o => .data .al .mov true h0 h1 o
          | none => (inst.op.masmThumb3 sub).map fun f => .data .al f.1 f.2 h0 h1 operand
  | _ => none

/-- `Op::is_mul`, of the multiplications that the architecture of the guest has. -/
def Op.isMul : Op → Bool
  | .mul | .muls | .mla | .mlas | .smull | .smulls | .smlal | .smlals | .umull | .umulls | .umlal
  | .umlals => true
  | _ => false

/-- The instruction of `emit_basic_block`: a comparison with the pc as destination calls a handler,
and is none. -/
def emitInst (b : BlockAsm) (inst : GuestInst) : Option MasmInst :=
  match inst with
  | .arm opcode =>
      let info := armInfo opcode
      if (info.op = .tst ∨ info.op = .teq ∨ info.op = .cmp ∨ info.op = .cmn) ∧
          opcode &&& 0xF000 = 0xF000 then none
      else if info.op.isMul then emitMul b info
      else if info.op.isAlu then emitAlu b info
      else none
  | .thumb opcode =>
      if (thumbInfo opcode).op.isAlu then emitAluThumb b (thumbInfo opcode) (opcode.getLsbD 7)
      else none

/-! ## A basic block -/

namespace BlockAsm

/-- `add_dirty_guest_regs`. -/
def addDirtyGuestRegs (b : BlockAsm) (regs : RegReserve) : BlockAsm :=
  { b with dirtyGuestRegs := b.dirtyGuestRegs + regs }

/-- `save_dirty_guest_regs`. -/
def saveDirtyGuestRegs (b : BlockAsm) : List MasmInst :=
  (b.regAlloc.saveActiveGuestRegs b.dirtyGuestRegs.guests).map .alloc ++
    if b.dirtyGuestRegs.isReserved .cpsr then [.storeFlags] else []

/-- `reload_active_guest_regs_all`: all but the pc. -/
def reloadActiveGuestRegsAll (b : BlockAsm) : List MasmInst :=
  ((List.finRange 16).filterMap fun g =>
    if isPc g then none else (b.regAlloc.guestRegsMapping g).map fun h => HostInst.ldr h g).map .alloc

end BlockAsm

/-- The registers live before some instructions. -/
def liveIn (insts : List GuestInst) : RegReserve := (liveSets (insts.map GuestInst.info)).headD .new

/-- `output_regs` of a block. -/
def outputsOf (insts : List GuestInst) : RegReserve :=
  insts.foldr (fun inst regs => regs + inst.info.outRegs) .new

/-- `init_guest_regs_mapping` and `init_guest_regs` of the first block, and the loads after it. -/
def initGuestRegs (thumb : Bool) (insts : List GuestInst) : BlockAsm × List MasmInst :=
  let required := liveIn insts - .ofRegs [.pc]
  let r := (RegAlloc.new thumb).reserveGuestRegs (required - .ofRegs [.cpsr]).guests false
  let b : BlockAsm :=
    { regAlloc := r.1.setGuestRegsMappings r.1.guestRegsMapping
      dirtyGuestRegs := .ofRegs (r.2.2.map Reg.ofNum) &&& outputsOf insts }
  (b, (if required.isReserved .cpsr then [.loadFlags] else []) ++ b.reloadActiveGuestRegsAll)

/-- `emit_basic_block`. -/
def emitBasicBlock (thumb : Bool) :
    BitVec 32 → List GuestInst → BlockAsm → Option (BlockAsm × List MasmInst)
  | _, [], b => some (b, [])
  | currentPc, inst :: insts, b =>
      (b.allocGuestInst thumb currentPc inst.info (liveIn insts)).bind fun r =>
        (emitInst r.1 inst).bind fun emitted =>
          (emitBasicBlock thumb (currentPc + if thumb then 2 else 4) insts
            (r.1.addDirtyGuestRegs inst.info.outRegs)).map fun r' =>
              (r'.1, r.2 ++ emitted :: r'.2)

/-- **A basic block**: its registers are loaded, its instructions follow, and what is dirty is
stored. -/
def compileBlock (thumb : Bool) (startPc : BitVec 32) (insts : List GuestInst) :
    Option (List MasmInst) :=
  let init := initGuestRegs thumb insts
  (emitBasicBlock thumb startPc insts init.1).map fun r =>
    init.2 ++ r.2 ++ r.1.saveDirtyGuestRegs

/-! ## The interpreter -/

section Interpreter

variable (opcode instAddr : BitVec 32) (regs : ThreadRegs)

/-- `mul32!`. -/
def mul32 (s acc : Bool) : ThreadRegs :=
  let rm := ctxReg instAddr regs (opcodeReg opcode 0)
  let rs := ctxReg instAddr regs (opcodeReg opcode 8)
  let r := rm * rs + if acc then ctxReg instAddr regs (opcodeReg opcode 12) else 0
  let regs := regs.setReg (opcodeReg opcode 16) r
  if s then { regs with cpsr := setNz regs.cpsr r } else regs

/-- `set_nz_64`. -/
def setNz64 (cpsr : BitVec 32) (result : BitVec 64) : BitVec 32 :=
  (cpsr &&& ~~~(nBit ||| zBit)) ||| ((result >>> 32).setWidth 32 &&& nBit) |||
    (if result = 0 then zBit else 0)

/-- `mul64!`. -/
def mul64 (s acc signed : Bool) : ThreadRegs :=
  let rm := ctxReg instAddr regs (opcodeReg opcode 0)
  let rs := ctxReg instAddr regs (opcodeReg opcode 8)
  let lo := ctxReg instAddr regs (opcodeReg opcode 12)
  let hi := ctxReg instAddr regs (opcodeReg opcode 16)
  let r := longProduct signed rm rs +
    if acc then (hi.setWidth 64 <<< 32) ||| lo.setWidth 64 else 0
  let regs := (regs.setReg (opcodeReg opcode 12) (r.setWidth 32)).setReg (opcodeReg opcode 16)
    ((r >>> 32).setWidth 32)
  if s then { regs with cpsr := setNz64 regs.cpsr r } else regs

end Interpreter

/-- An instruction that processes data in the interpreter, and goes on behind itself. -/
def GuestInst.process (inst : GuestInst) (instAddr : BitVec 32) (regs : ThreadRegs) :
    Option ThreadRegs :=
  match inst with
  | arm opcode =>
      if skipped opcode regs.cpsr then some regs
      else
        match armFn opcode with
        | .alu f form => some (f.step form opcode instAddr regs).1
        | .mul32 s acc => some (mul32 opcode instAddr regs s acc)
        | .mul64 s acc signed => some (mul64 opcode instAddr regs s acc signed)
        | _ => none
  | thumb opcode =>
      match thumbFn opcode with
      | .alu t => some (t.step opcode instAddr regs).1
      | _ => none

/-- Some instructions, from an address on. -/
def processAll (thumb : Bool) : BitVec 32 → List GuestInst → ThreadRegs → Option ThreadRegs
  | _, [], regs => some regs
  | pc, inst :: insts, regs =>
      (inst.process pc regs).bind (processAll thumb (pc + if thumb then 2 else 4) insts)

end AdvancedSlop
