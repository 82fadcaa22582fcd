/-
# The disassembler

`src/jit/disassembler`: the tables of the two instruction sets, which the interpreter's tables
mirror entry by entry, and what the disassembler says about each opcode.

* `armTable`, `thumbTable` : the function at each index of the tables;
* `armInfo`, `thumbInfo` : the instruction of an opcode, with its registers and its cycles.
-/
import AdvancedSlop.ThumbAlu
import AdvancedSlop.InstInfo

namespace AdvancedSlop

attribute [local instance] neZero_regs

/-! ## The table of ARM -/

/-- The halfword and doubleword transfers. -/
inductive HalfFn
  | strh | ldrd | strd | ldrh | ldrsb | ldrsh
  deriving DecidableEq, Repr

/-- The functions in the table of ARM, with the const parameters they are made of. -/
inductive ArmFn
  | alu (f : AluFn) (form : ShiftForm)
  | mul32 (s acc : Bool)
  | mul64 (s acc signed : Bool)
  | smlaXy (x y : Bool)
  | smlawY (y : Bool)
  | smulwY (y : Bool)
  | smlalXy (x y : Bool)
  | smulXy (x y : Bool)
  | qalu (double sub : Bool)
  | clz
  | mrs (spsr : Bool)
  | msrReg (spsr : Bool)
  | msrImm (spsr : Bool)
  | bx
  | blxReg
  | b
  | bl
  | swi
  | mcr
  | mrc
  | swp (byte : Bool)
  | ldrStr (load byte : Bool) (addr : AddrMode) (up : Bool) (offk : OffsetKind)
  | half (kind : HalfFn) (addr : AddrMode) (up reg : Bool)
  | ldmStm (load pre up user wb : Bool)
  | undefined
  deriving DecidableEq, Repr

/-- The multiplications and swaps: the entries of column 9. -/
def mulEntry (row : BitVec 8) : ArmFn :=
  match row.toNat with
  | 0x00 => .mul32 false false
  | 0x01 => .mul32 true false
  | 0x02 => .mul32 false true
  | 0x03 => .mul32 true true
  | 0x08 => .mul64 false false false
  | 0x09 => .mul64 true false false
  | 0x0A => .mul64 false true false
  | 0x0B => .mul64 true true false
  | 0x0C => .mul64 false false true
  | 0x0D => .mul64 true false true
  | 0x0E => .mul64 false true true
  | 0x0F => .mul64 true true true
  | 0x10 => .swp false
  | 0x14 => .swp true
  | _ => .undefined

/-- The entries of columns 11, 13 and 15 of the first rows. -/
def halfEntry (row : BitVec 8) (column : BitVec 4) : ArmFn :=
  let addr : AddrMode :=
    if row.getLsbD 4 then if row.getLsbD 1 then .preIndex else .offset else .postIndex
  let kind : HalfFn :=
    match row.getLsbD 0, column.toNat with
    | false, 11 => .strh
    | false, 13 => .ldrd
    | false, _ => .strd
    | true, 11 => .ldrh
    | true, 13 => .ldrsb
    | true, _ => .ldrsh
  .half kind addr (row.getLsbD 3) (!row.getLsbD 2)

/-- The entries between the tests, in rows 16, 18, 20 and 22. -/
def miscEntry (row : BitVec 8) (column : BitVec 4) : ArmFn :=
  let x := column.getLsbD 1
  let y := column.getLsbD 2
  match row.toNat, column.toNat with
  | 16, 0 => .mrs false
  | 18, 0 => .msrReg false
  | 20, 0 => .mrs true
  | 22, 0 => .msrReg true
  | 18, 1 => .bx
  | 18, 3 => .blxReg
  | 22, 1 => .clz
  | 16, 5 => .qalu false false
  | 18, 5 => .qalu false true
  | 20, 5 => .qalu true false
  | 22, 5 => .qalu true true
  | row, column =>
      if column % 2 = 0 ∧ 8 ≤ column then
        match row with
        | 16 => .smlaXy x y
        | 18 => if x then .smulwY y else .smlawY y
        | 20 => .smlalXy x y
        | 22 => .smulXy x y
        | _ => .undefined
      else .undefined

/-- The entries of the word and byte transfers: a post-indexed one has no second write back. -/
def ldrStrEntry (row : BitVec 8) (column : BitVec 4) : ArmFn :=
  if !row.getLsbD 4 && row.getLsbD 1 || row.getLsbD 5 && column.getLsbD 0 then .undefined
  else
    let addr : AddrMode :=
      if row.getLsbD 4 then if row.getLsbD 1 then .preIndex else .offset else .postIndex
    let offk : OffsetKind :=
      if row.getLsbD 5 then
        match column.getLsbD 2, column.getLsbD 1 with
        | false, false => .lsl
        | false, true => .lsr
        | true, false => .asr
        | true, true => .ror
      else .imm
    .ldrStr (row.getLsbD 0) (row.getLsbD 2) addr (row.getLsbD 3) offk

/-- **The table of ARM**, by bits 27 to 20 and 7 to 4 of an opcode. -/
def armTable (row : BitVec 8) (column : BitVec 4) : ArmFn :=
  match armTableAlu row column with
  | some (f, form) => .alu f form
  | none =>
      match (row.extractLsb' 5 3).toNat with
      | 0 =>
          if column = 9 then mulEntry row
          else if column.getLsbD 3 && column.getLsbD 0 then halfEntry row column
          else miscEntry row column
      | 1 => if row = 0x32 then .msrImm false else if row = 0x36 then .msrImm true else .undefined
      | 2 | 3 => ldrStrEntry row column
      | 4 => .ldmStm (row.getLsbD 0) (row.getLsbD 4) (row.getLsbD 3) (row.getLsbD 2) (row.getLsbD 1)
      | 5 => if row.getLsbD 4 then .bl else .b
      | 6 => .undefined
      | _ =>
          if row.getLsbD 4 then .swi
          else if column.getLsbD 0 then if row.getLsbD 0 then .mrc else .mcr
          else .undefined

/-- `arm_index` and the look-up. -/
def armFn (opcode : BitVec 32) : ArmFn :=
  armTable (opcode.extractLsb' 20 8) (opcode.extractLsb' 4 4)

/-! ## The table of Thumb -/

/-- The loads and stores of a low register in Thumb. -/
inductive ThumbTransfer
  | str | strh | strb | ldrsb | ldr | ldrh | ldrb | ldrsh
  deriving DecidableEq, Repr

/-- It is a store. -/
def ThumbTransfer.isStore : ThumbTransfer → Bool
  | str | strh | strb => true
  | _ => false

/-- The functions in the table of Thumb. -/
inductive ThumbFn
  | alu (t : ThumbAlu)
  | bxReg
  | blxReg
  | ldrPc
  | reg (t : ThumbTransfer)
  | imm5 (t : ThumbTransfer)
  | strSp
  | ldrSp
  | push
  | pushLr
  | pop
  | popPc
  | stmia
  | ldmia
  | bcond (cond : Cond)
  | swi
  | b
  | blxOff
  | blSetup
  | blOff
  | undefined
  deriving DecidableEq, Repr

/-- The conditions of the conditional branches, in the order of the table. -/
def bconds : List Cond :=
  [.eq, .ne, .hs, .lo, .mi, .pl, .vs, .vc, .hi, .ls, .ge, .lt, .gt, .le]

/-- **The table of Thumb**: each function fills the entries up to the next one. -/
def thumbTable (index : ℕ) : ThumbFn :=
  match thumbAluEntry index with
  | some t => .alu t
  | none =>
      if index < 0x11E then .bxReg
      else if index < 0x120 then .blxReg
      else if index < 0x140 then .ldrPc
      else if index < 0x148 then .reg .str
      else if index < 0x150 then .reg .strh
      else if index < 0x158 then .reg .strb
      else if index < 0x160 then .reg .ldrsb
      else if index < 0x168 then .reg .ldr
      else if index < 0x170 then .reg .ldrh
      else if index < 0x178 then .reg .ldrb
      else if index < 0x180 then .reg .ldrsh
      else if index < 0x1A0 then .imm5 .str
      else if index < 0x1C0 then .imm5 .ldr
      else if index < 0x1E0 then .imm5 .strb
      else if index < 0x200 then .imm5 .ldrb
      else if index < 0x220 then .imm5 .strh
      else if index < 0x240 then .imm5 .ldrh
      else if index < 0x260 then .strSp
      else if index < 0x280 then .ldrSp
      else if index < 0x2D0 then .undefined
      else if index < 0x2D4 then .push
      else if index < 0x2D8 then .pushLr
      else if index < 0x2F0 then .undefined
      else if index < 0x2F4 then .pop
      else if index < 0x2F8 then .popPc
      else if index < 0x300 then .undefined
      else if index < 0x320 then .stmia
      else if index < 0x340 then .ldmia
      else if index < 0x378 then ((bconds[(index - 0x340) / 4]?).map ThumbFn.bcond).getD .undefined
      else if index < 0x37C then .undefined
      else if index < 0x380 then .swi
      else if index < 0x3A0 then .b
      else if index < 0x3C0 then .blxOff
      else if index < 0x3E0 then .blSetup
      else .blOff

/-- The look-up of a Thumb opcode. -/
def thumbFn (opcode : BitVec 16) : ThumbFn := thumbTable (opcode.extractLsb' 6 10).toNat

/-! ## Instructions of ARM -/

/-- `Cond::from`. -/
def Cond.ofCode (code : BitVec 4) : Cond :=
  match code.toNat with
  | 0 => .eq | 1 => .ne | 2 => .hs | 3 => .lo | 4 => .mi | 5 => .pl | 6 => .vs | 7 => .vc
  | 8 => .hi | 9 => .ls | 10 => .ge | 11 => .lt | 12 => .gt | 13 => .le | 14 => .al | _ => .nv

/-- `Reg::from`. -/
def Reg.ofNum (i : Fin 16) : Reg :=
  match i.val with
  | 0 => .r0 | 1 => .r1 | 2 => .r2 | 3 => .r3 | 4 => .r4 | 5 => .r5 | 6 => .r6 | 7 => .r7
  | 8 => .r8 | 9 => .r9 | 10 => .r10 | 11 => .r11 | 12 => .r12 | 13 => .sp | 14 => .lr | _ => .pc

/-- `RegReserve::from` a register list. -/
def RegReserve.ofList (regList : BitVec 16) : RegReserve := ⟨regList.setWidth 32⟩

/-- `len` of a register list. -/
def listLen (regList : BitVec 16) : ℕ :=
  ((List.finRange 16).filter fun i : Fin 16 => regList.getLsbD i).length

/-- The registers, when a flag of the decoder is set. -/
def RegReserve.when (b : Bool) (regs : List Reg) : RegReserve := .ofRegs (if b then regs else [])

/-- The operation of a handler, and whether it reads and writes the status register. -/
def AluOp.info : AluOp → Op × Bool × Bool
  | .and => (.and, false, false)
  | .ands => (.ands, true, true)
  | .eor => (.eor, false, false)
  | .eors => (.eors, true, true)
  | .sub => (.sub, false, false)
  | .subs => (.subs, false, true)
  | .rsb => (.rsb, false, false)
  | .rsbs => (.rsbs, false, true)
  | .add => (.add, false, false)
  | .adds => (.adds, false, true)
  | .adc => (.adc, true, false)
  | .adcs => (.adcs, true, true)
  | .sbc => (.sbc, true, false)
  | .sbcs => (.sbcs, true, true)
  | .rsc => (.rsc, true, false)
  | .rscs => (.rscs, true, true)
  | .orr => (.orr, false, false)
  | .orrs => (.orrs, true, true)
  | .bic => (.bic, false, false)
  | .bics => (.bics, true, true)
  | .mov => (.mov, false, false)
  | .movs => (.movs, true, true)
  | .mvn => (.mvn, false, false)
  | .mvns => (.mvns, true, true)

/-- The operation of a test, and whether it reads the status register. -/
def TestOp.info : TestOp → Op × Bool
  | .tst => (.tst, true)
  | .teq => (.teq, true)
  | .cmp => (.cmp, false)
  | .cmn => (.cmn, false)

/-- The shift of a form. -/
def ShiftForm.shiftType : ShiftForm → ShiftType
  | .lli | .llr | .imm => .lsl
  | .lri | .lrr => .lsr
  | .ari | .arr => .asr
  | .rri | .rrr => .ror

section Arm

variable (opcode : BitVec 32)

/-- The register of a field. -/
def fieldReg (lsb : ℕ) : Reg := .ofNum (opcodeReg opcode lsb)

/-- The shift amount of a field. -/
def shiftAmount : BitVec 5 := opcode.extractLsb' 7 5

/-- `alu_variations`: the second operand, its registers, and whether it rotates through the
carry. -/
def aluOperand (form : ShiftForm) : Operand × List Reg × Bool :=
  match form with
  | .imm => (.imm ((opcode &&& 0xFF).rotateRight ((opcode >>> 7) &&& 0x1E).toNat), [], false)
  | .llr | .lrr | .arr | .rrr =>
      (.reg (fieldReg opcode 0) (some (form.shiftType, .reg (fieldReg opcode 8))),
        [fieldReg opcode 0, fieldReg opcode 8], false)
  | _ =>
      (.reg (fieldReg opcode 0) (some (form.shiftType, .imm ((shiftAmount opcode).setWidth 8))),
        [fieldReg opcode 0], form.shiftType = .ror ∧ shiftAmount opcode = 0)

/-- `InstInfo::new` of an opcode. -/
def infoOf (op : Op) (operands : List Operand) (srcRegs outRegs : RegReserve) (cycle : ℕ) :
    InstInfo :=
  .new (.ofCode (opcode.extractLsb' 28 4)) op operands srcRegs outRegs cycle

/-- `alu3_imm`, `alu3_imm_shift` and `alu3_reg_shift`. -/
def alu3 (op : Op) (cpsrInput cpsrOutput : Bool) (form : ShiftForm) : InstInfo :=
  let operand := aluOperand opcode form
  let op0 := fieldReg opcode 12
  let op1 := fieldReg opcode 16
  infoOf opcode op [.reg op0 none, .reg op1 none, operand.1]
    (.ofRegs (op1 :: operand.2.1) + .when (cpsrInput || operand.2.2) [.cpsr])
    (.ofRegs [op0] + .when cpsrOutput [.cpsr]) 1

/-- `alu2_op1_imm`, `alu2_op1_imm_shift` and `alu2_op1_reg_shift`. -/
def alu2Op1 (op : Op) (cpsrInput : Bool) (form : ShiftForm) : InstInfo :=
  let operand := aluOperand opcode form
  let op1 := fieldReg opcode 16
  infoOf opcode op [.reg op1 none, operand.1]
    (.ofRegs (op1 :: operand.2.1) + .when (cpsrInput || operand.2.2) [.cpsr]) (.ofRegs [.cpsr]) 1

/-- `alu2_op0_imm`, `alu2_op0_imm_shift` and `alu2_op0_reg_shift`. -/
def alu2Op0 (op : Op) (cpsrInput cpsrOutput : Bool) (form : ShiftForm) : InstInfo :=
  let operand := aluOperand opcode form
  let op0 := fieldReg opcode 12
  infoOf opcode op [.reg op0 none, operand.1]
    (.ofRegs operand.2.1 + .when (cpsrInput || operand.2.2) [.cpsr])
    (.ofRegs [op0] + .when cpsrOutput [.cpsr]) 1

/-- The instructions of data processing. -/
def aluInfo (f : AluFn) (form : ShiftForm) : InstInfo :=
  match f with
  | .test t => alu2Op1 opcode t.info.1 t.info.2 form
  | .op o =>
      if o.handler.isMov || o.info.1 = .mvn || o.info.1 = .mvns then
        alu2Op0 opcode o.info.1 o.info.2.1 o.info.2.2 form
      else alu3 opcode o.info.1 o.info.2.1 o.info.2.2 form

/-- `mul`, `muls` and `smulbb`. -/
def mulInfo (op : Op) (cpsr : Bool) (cycle : ℕ) : InstInfo :=
  let op0 := fieldReg opcode 16
  let op1 := fieldReg opcode 0
  let op2 := fieldReg opcode 8
  infoOf opcode op [.reg op0 none, .reg op1 none, .reg op2 none]
    (.ofRegs [op1, op2] + .when cpsr [.cpsr]) (.ofRegs [op0] + .when cpsr [.cpsr]) cycle

/-- `mla`, `mlas` and `smlabb`. -/
def mlaInfo (op : Op) (cpsr : Bool) (cycle : ℕ) : InstInfo :=
  let op0 := fieldReg opcode 16
  let op1 := fieldReg opcode 0
  let op2 := fieldReg opcode 8
  let op3 := fieldReg opcode 12
  infoOf opcode op [.reg op0 none, .reg op1 none, .reg op2 none, .reg op3 none]
    (.ofRegs [op1, op2, op3] + .when cpsr [.cpsr]) (.ofRegs [op0] + .when cpsr [.cpsr]) cycle

/-- `umull`, `umlal`, their variants and `smlalbb`. -/
def mullInfo (op : Op) (cpsr acc : Bool) (cycle : ℕ) : InstInfo :=
  let op0 := fieldReg opcode 12
  let op1 := fieldReg opcode 16
  let op2 := fieldReg opcode 0
  let op3 := fieldReg opcode 8
  infoOf opcode op [.reg op0 none, .reg op1 none, .reg op2 none, .reg op3 none]
    (.when acc [op0, op1] + .ofRegs [op2, op3] + .when cpsr [.cpsr])
    (.ofRegs [op0, op1] + .when cpsr [.cpsr]) cycle

/-- `qadd` and its variants. -/
def qaluInfo (op : Op) : InstInfo :=
  let op0 := fieldReg opcode 12
  let op1 := fieldReg opcode 0
  let op2 := fieldReg opcode 16
  infoOf opcode op [.reg op0 none, .reg op1 none, .reg op2 none]
    (.ofRegs [op1, op2, .cpsr]) (.ofRegs [op0, .cpsr]) 1

/-- `clz`. -/
def clzInfo : InstInfo :=
  let op0 := fieldReg opcode 12
  let op1 := fieldReg opcode 0
  infoOf opcode .clz [.reg op0 none, .reg op1 none] (.ofRegs [op1]) (.ofRegs [op0]) 1

/-- `unk_arm`, with its cycles. -/
def unkArm (cycle : ℕ) : InstInfo := infoOf opcode .unkArm [] .new .new cycle

/-- `mem_transfer_imm`, `mem_transfer_reg` and `mem_transfer_reg_shift`: a transfer of two words
takes an even register below the stack pointer. -/
def memTransfer (write writeBack is64Bit : Bool) (op : Op) (operand2 : Operand) (regs : List Reg) :
    InstInfo :=
  let op0 := fieldReg opcode 12
  let op1 := fieldReg opcode 16
  let second := Reg.ofNum (Fin.ofNat 16 ((opcodeReg opcode 12).val + 1))
  if is64Bit ∧ ((opcodeReg opcode 12).val % 2 = 1 ∨ 12 < (opcodeReg opcode 12).val) then
    unkArm opcode 0
  else
    infoOf opcode op [.reg op0 none, .reg op1 none, operand2]
      (.when write [op0] + .ofRegs (op1 :: regs) + .when (is64Bit && write) [second])
      (.when (!write) [op0] + .when writeBack [op1] + .when (is64Bit && !write) [second])
      (if write then 2 else 3)

/-- `SingleTransfer::new` of an addressing mode. -/
def singleOf (addr : AddrMode) (up signed : Bool) (size : BitVec 4) : SingleTransfer :=
  ⟨addr ≠ .postIndex, addr ≠ .offset, up, signed, size⟩

/-- The transfers of words and bytes. -/
def ldrStrInfo (load byte : Bool) (addr : AddrMode) (up : Bool) (offk : OffsetKind) : InstInfo :=
  let t := singleOf addr up false (if byte then 0 else 2)
  let rm := fieldReg opcode 0
  let shift (kind : ShiftType) : Operand × List Reg :=
    (.reg rm (some (kind, .imm ((shiftAmount opcode).setWidth 8))), [rm])
  let operand2 : Operand × List Reg :=
    match offk with
    | .imm => (.imm (opcode &&& 0xFFF), [])
    | .lsl => shift .lsl
    | .lsr => shift .lsr
    | .asr => shift .asr
    | .ror => shift .ror
  memTransfer opcode (!load) t.writeBack false (if load then .ldr t else .str t) operand2.1
    operand2.2

/-- The transfer of a halfword function. -/
def HalfFn.info : HalfFn → (Bool → BitVec 4 → SingleTransfer) → Op
  | .strh, t => .str (t false 1)
  | .ldrd, t => .ldr (t false 3)
  | .strd, t => .str (t false 3)
  | .ldrh, t => .ldr (t false 1)
  | .ldrsb, t => .ldr (t true 0)
  | .ldrsh, t => .ldr (t true 1)

/-- It is a store. -/
def HalfFn.isStore : HalfFn → Bool
  | strh | strd => true
  | _ => false

/-- It moves two words. -/
def HalfFn.is64Bit : HalfFn → Bool
  | ldrd | strd => true
  | _ => false

/-- The transfers of halfwords, signed bytes and two words. -/
def halfInfo (kind : HalfFn) (addr : AddrMode) (up reg : Bool) : InstInfo :=
  let operand2 : Operand × List Reg :=
    if reg then (.reg (fieldReg opcode 0) none, [fieldReg opcode 0])
    else (.imm (((opcode >>> 4) &&& 0xF0) ||| (opcode &&& 0xF)), [])
  memTransfer opcode kind.isStore (addr ≠ .offset) kind.is64Bit (kind.info (singleOf addr up))
    operand2.1 operand2.2

/-- `ldmda`, `stmda` and their variants: a load of the user bank without the pc names no
register. -/
def ldmStmInfo (load pre up user wb : Bool) : InstInfo :=
  let op0 := fieldReg opcode 16
  let regList := opcode.extractLsb' 0 16
  let rlist := RegReserve.ofList regList
  let t : MultipleTransfer := ⟨pre, wb, up, user⟩
  let base : RegReserve := .when (wb || rlist.isEmpty) [op0]
  let pcList : RegReserve := if rlist.isReserved .pc then rlist else .new
  infoOf opcode (if load then .ldm t else .stm t) [.reg op0 none, .regList rlist]
    (if load then if user && wb then rlist + .ofRegs [op0] else .ofRegs [op0]
      else rlist + .ofRegs [op0])
    (if load then (if user then pcList else rlist) + base
      else if user && !wb then pcList + base else base)
    (listLen regList + if load then 2 else 1)

/-- `b` and `bl`: without a condition they are a branch to Thumb. -/
def branchInfo (op : Op) (link : Bool) : InstInfo :=
  let offset := (opcode <<< 8).sshiftRight 6
  if opcode.extractLsb' 28 4 = 0xF then
    .new .al .blx [.imm (offset ||| ((opcode &&& 0x1000000) >>> 23))] .new (.ofRegs [.lr, .pc]) 1
  else
    infoOf opcode op [.imm offset] .new (.when link [.lr] + .ofRegs [.pc]) 1

/-- `msr_ic` and `msr_is`. -/
def msrImmInfo (op : Op) : InstInfo :=
  infoOf opcode op [.imm ((opcode &&& 0xFF).rotateRight ((opcode >>> 7) &&& 0x1E).toNat)] .new
    .new 1

/-- **The instruction of an ARM opcode.** -/
def armInfo : InstInfo :=
  match armFn opcode with
  | .alu f form => aluInfo opcode f form
  | .mul32 s false => mulInfo opcode (if s then .muls else .mul) s 5
  | .mul32 s true => mlaInfo opcode (if s then .mlas else .mla) s 6
  | .mul64 s false true => mullInfo opcode (if s then .smulls else .smull) s false 6
  | .mul64 s false false => mullInfo opcode (if s then .umulls else .umull) s false 6
  | .mul64 s true true => mullInfo opcode (if s then .smlals else .smlal) s true 7
  | .mul64 s true false => mullInfo opcode (if s then .umlals else .umlal) s true 7
  | .smlaXy x y => mlaInfo opcode
      (match x, y with
        | false, false => .smlabb | false, true => .smlabt
        | true, false => .smlatb | true, true => .smlatt) true 1
  | .smlawY y => mlaInfo opcode (if y then .smlawt else .smlawb) true 1
  | .smulwY y => mulInfo opcode (if y then .smulwt else .smulwb) false 1
  | .smlalXy x y => mullInfo opcode
      (match x, y with
        | false, false => .smlalbb | false, true => .smlalbt
        | true, false => .smlaltb | true, true => .smlaltt) false true 1
  | .smulXy x y => mulInfo opcode
      (match x, y with
        | false, false => .smulbb | false, true => .smulbt
        | true, false => .smultb | true, true => .smultt) false 1
  | .qalu double sub => qaluInfo opcode
      (match double, sub with
        | false, false => .qadd | false, true => .qsub
        | true, false => .qdadd | true, true => .qdsub)
  | .clz => clzInfo opcode
  | .mrs spsr =>
      infoOf opcode (if spsr then .mrsRs else .mrsRc) [.reg (fieldReg opcode 12) none]
        (.when (!spsr) [.cpsr]) (.ofRegs [fieldReg opcode 12]) 1
  | .msrReg spsr =>
      infoOf opcode (if spsr then .msrRs else .msrRc) [.reg (fieldReg opcode 0) none]
        (.ofRegs [fieldReg opcode 0]) .new 1
  | .msrImm spsr => msrImmInfo opcode (if spsr then .msrIs else .msrIc)
  | .bx =>
      infoOf opcode .bx [.reg (fieldReg opcode 0) none] (.ofRegs [fieldReg opcode 0])
        (.ofRegs [.pc]) 1
  | .blxReg =>
      infoOf opcode .blxReg [.reg (fieldReg opcode 0) none] (.ofRegs [fieldReg opcode 0])
        (.ofRegs [.lr, .pc]) 1
  | .b => branchInfo opcode .b false
  | .bl => branchInfo opcode .bl true
  | .swi => infoOf opcode .swi [] .new .new 3
  | .mcr =>
      infoOf opcode .mcr [.reg (fieldReg opcode 12) none] (.ofRegs [fieldReg opcode 12]) .new 1
  | .mrc =>
      infoOf opcode .mrc [.reg (fieldReg opcode 12) none] .new (.ofRegs [fieldReg opcode 12]) 1
  | .swp byte =>
      infoOf opcode (if byte then .swpb else .swp)
        [.reg (fieldReg opcode 12) none, .reg (fieldReg opcode 0) none,
          .reg (fieldReg opcode 16) none]
        (.ofRegs [fieldReg opcode 0, fieldReg opcode 16]) (.ofRegs [fieldReg opcode 12]) 4
  | .ldrStr load byte addr up offk => ldrStrInfo opcode load byte addr up offk
  | .half kind addr up reg => halfInfo opcode kind addr up reg
  | .ldmStm load pre up user wb => ldmStmInfo opcode load pre up user wb
  | .undefined => unkArm opcode 1

end Arm

/-! ## Instructions of Thumb -/

/-- The operation of a handler that processes data. -/
def ThumbAlu.op : ThumbAlu → Op
  | lslImm | lslDp => .lslT
  | lsrImm | lsrDp => .lsrT
  | asrImm | asrDp => .asrT
  | addReg | addImm3 | addImm8 => .addT
  | subReg | subImm3 | subImm8 => .subT
  | movImm8 => .movT
  | cmpImm8 | cmpDp => .cmpT
  | andDp => .andT
  | eorDp => .eorT
  | adcDp => .adcT
  | sbcDp => .sbcT
  | rorDp => .rorT
  | tstDp => .tstT
  | negDp => .negT
  | cmnDp => .cmnT
  | orrDp => .orrT
  | mulDp => .mulT
  | bicDp => .bicT
  | mvnDp => .mvnT
  | addH => .addHT
  | cmpH => .cmpHT
  | movH => .movHT
  | addPc => .addPcT
  | addSp => .addSpT
  | addSpImm => .addSpImmT

section Thumb

variable (opcode : BitVec 16)

/-- A low register of a Thumb opcode. -/
def lowFieldReg (lsb : ℕ) : Reg := .ofNum (lowReg opcode lsb)

/-- A field of a Thumb opcode, in steps of a size. -/
def immField (lsb width shift : ℕ) : Operand :=
  .imm ((opcode.extractLsb' lsb width).setWidth 32 <<< shift)

/-- The instructions of Thumb that process data. -/
def thumbAluInfo (t : ThumbAlu) : InstInfo :=
  let d := lowFieldReg opcode 0
  let s := lowFieldReg opcode 3
  let mid := lowFieldReg opcode 8
  let hd := Reg.ofNum (hiRd opcode)
  let hs := Reg.ofNum (hiRs opcode)
  match t with
  | .addReg | .subReg =>
      .ofThumb t.op [.reg d none, .reg s none, .reg (lowFieldReg opcode 6) none]
        (.ofRegs [s, lowFieldReg opcode 6]) (.ofRegs [d, .cpsr]) 1
  | .lslImm | .lsrImm | .asrImm =>
      .ofThumb t.op [.reg d none, .reg s none, immField opcode 6 5 0] (.ofRegs [s, .cpsr])
        (.ofRegs [d, .cpsr]) 1
  | .addImm3 | .subImm3 =>
      .ofThumb t.op [.reg d none, .reg s none, immField opcode 6 3 0] (.ofRegs [s])
        (.ofRegs [d, .cpsr]) 1
  | .addImm8 | .subImm8 =>
      .ofThumb t.op [.reg mid none, .reg mid none, immField opcode 0 8 0] (.ofRegs [mid])
        (.ofRegs [mid, .cpsr]) 1
  | .cmpImm8 =>
      .ofThumb t.op [.reg mid none, immField opcode 0 8 0] (.ofRegs [mid]) (.ofRegs [.cpsr]) 1
  | .movImm8 =>
      .ofThumb t.op [.reg mid none, immField opcode 0 8 0] (.ofRegs [.cpsr])
        (.ofRegs [mid, .cpsr]) 1
  | .lslDp | .lsrDp | .asrDp | .rorDp | .andDp | .eorDp | .adcDp | .sbcDp | .orrDp | .bicDp =>
      .ofThumb t.op [.reg d none, .reg d none, .reg s none] (.ofRegs [d, s, .cpsr])
        (.ofRegs [d, .cpsr]) 1
  | .tstDp => .ofThumb t.op [.reg d none, .reg s none] (.ofRegs [d, s, .cpsr]) (.ofRegs [.cpsr]) 1
  | .cmpDp | .cmnDp =>
      .ofThumb t.op [.reg d none, .reg s none] (.ofRegs [d, s]) (.ofRegs [.cpsr]) 1
  | .mvnDp => .ofThumb t.op [.reg d none, .reg s none] (.ofRegs [s, .cpsr]) (.ofRegs [d, .cpsr]) 1
  | .negDp => .ofThumb t.op [.reg d none, .reg s none, .imm 0] (.ofRegs [s]) (.ofRegs [d, .cpsr]) 1
  | .mulDp =>
      .ofThumb t.op [.reg d none, .reg s none] (.ofRegs [d, s, .cpsr]) (.ofRegs [d, .cpsr]) 4
  | .addH => .ofThumb t.op [.reg hd none, .reg hd none, .reg hs none] (.ofRegs [hd, hs])
      (.ofRegs [hd]) 1
  | .cmpH => .ofThumb t.op [.reg hd none, .reg hs none] (.ofRegs [hd, hs]) (.ofRegs [.cpsr]) 1
  | .movH => .ofThumb t.op [.reg hd none, .reg hs none] (.ofRegs [hs]) (.ofRegs [hd]) 1
  | .addPc => .ofThumb t.op [.reg mid none, .reg .pc none, immField opcode 0 8 2] (.ofRegs [.pc])
      (.ofRegs [mid]) 1
  | .addSp => .ofThumb t.op [.reg mid none, .reg .sp none, immField opcode 0 8 2] (.ofRegs [.sp])
      (.ofRegs [mid]) 1
  | .addSpImm => .ofThumb t.op [.reg .sp none, .reg .sp none, immField opcode 0 7 2]
      (.ofRegs [.sp]) (.ofRegs [.sp]) 1

/-- The signedness, the size and the shift of the immediate of a transfer. -/
def ThumbTransfer.shape : ThumbTransfer → Bool × BitVec 4
  | str | ldr => (false, 2)
  | strh | ldrh => (false, 1)
  | strb | ldrb => (false, 0)
  | ldrsb => (true, 0)
  | ldrsh => (true, 1)

/-- The operation of a transfer. -/
def ThumbTransfer.op (t : ThumbTransfer) : Op :=
  let transfer : SingleTransfer := ⟨true, false, true, t.shape.1, t.shape.2⟩
  if t.isStore then .strT transfer else .ldrT transfer

/-- A transfer of a register, with its operands behind the register. -/
def thumbTransferInfo (t : ThumbTransfer) (rd : Reg) (operands : List Operand) (srcs : List Reg) :
    InstInfo :=
  .ofThumb t.op (.reg rd none :: operands) (.when t.isStore [rd] + .ofRegs srcs)
    (.when (!t.isStore) [rd]) (if t.isStore then 2 else 3)

/-- A block transfer. -/
def thumbBlockInfo (load pre add : Bool) (base : Reg) (rlist : RegReserve) (count : ℕ) : InstInfo :=
  let t : MultipleTransfer := ⟨pre, true, add, false⟩
  let whole := rlist + .ofRegs [base]
  .ofThumb (if load then .ldmT t else .stmT t) [.reg base none, .regList rlist]
    (if load then .ofRegs [base] else whole) (if load then whole else .ofRegs [base])
    (count + if load then 2 else 1)

/-- The operation of a conditional branch. -/
def bcondOp : Cond → Op
  | .eq => .beqT | .ne => .bneT | .hs => .bcsT | .lo => .bccT | .mi => .bmiT | .pl => .bplT
  | .vs => .bvsT | .vc => .bvcT | .hi => .bhiT | .ls => .blsT | .ge => .bgeT | .lt => .bltT
  | .gt => .bgtT | _ => .bleT

/-- **The instruction of a Thumb opcode.** -/
def thumbInfo : InstInfo :=
  let list := opcode.extractLsb' 0 8
  let rlist := RegReserve.ofList (list.setWidth 16)
  let count := listLen (list.setWidth 16)
  let mid := lowFieldReg opcode 8
  let hs := Reg.ofNum (hiRs opcode)
  match thumbFn opcode with
  | .alu t => thumbAluInfo opcode t
  | .bxReg => .ofThumb .bxRegT [.reg hs none] (.ofRegs [hs]) (.ofRegs [.pc]) 1
  | .blxReg => .ofThumb .blxRegT [.reg hs none] (.ofRegs [hs]) (.ofRegs [.lr, .pc]) 1
  | .ldrPc => thumbTransferInfo .ldr mid [.reg .pc none, immField opcode 0 8 2] [.pc]
  | .reg t => thumbTransferInfo t (lowFieldReg opcode 0)
      [.reg (lowFieldReg opcode 3) none, .reg (lowFieldReg opcode 6) none]
      [lowFieldReg opcode 3, lowFieldReg opcode 6]
  | .imm5 t => thumbTransferInfo t (lowFieldReg opcode 0)
      [.reg (lowFieldReg opcode 3) none, immField opcode 6 5 t.shape.2.toNat]
      [lowFieldReg opcode 3]
  | .strSp => thumbTransferInfo .str mid [.reg .sp none, immField opcode 0 8 2] [.sp]
  | .ldrSp => thumbTransferInfo .ldr mid [.reg .sp none, immField opcode 0 8 2] [.sp]
  | .push => thumbBlockInfo false true false .sp rlist count
  | .pushLr => thumbBlockInfo false true false .sp (rlist + .ofRegs [.lr]) (count + 1)
  | .pop => thumbBlockInfo true false true .sp rlist count
  | .popPc => thumbBlockInfo true false true .sp (rlist + .ofRegs [.pc]) (count + 1)
  | .stmia => thumbBlockInfo false false true mid rlist count
  | .ldmia => thumbBlockInfo true false true mid rlist count
  | .bcond cond =>
      .ofThumb (bcondOp cond) [.imm ((opcode.extractLsb' 0 8).signExtend 32 <<< 1)]
        (.ofRegs [.cpsr]) (.ofRegs [.pc]) 1
  | .swi => .ofThumb .swiT [] .new .new 3
  | .b => .ofThumb .bT [.imm ((opcode.extractLsb' 0 11).signExtend 32 <<< 1)] .new (.ofRegs [.pc]) 1
  | .blxOff => .ofThumb .blxOffT [immField opcode 0 11 1] .new (.ofRegs [.lr, .pc]) 1
  | .blSetup =>
      .ofThumb .blSetupT [.imm ((opcode.extractLsb' 0 11).signExtend 32 <<< 12)] .new .new 1
  | .blOff => .ofThumb .blOffT [immField opcode 0 11 1] .new (.ofRegs [.lr, .pc]) 1
  | .undefined => .ofThumb .unkThumb [] .new .new 1

end Thumb

end AdvancedSlop
