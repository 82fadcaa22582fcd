/-
# Decoded instructions

`src/jit/inst_info.rs`, `src/jit/op.rs` and the register sets of `src/vixl`: what the disassembler
says about an instruction to the analyzer and the compiler.

* `RegReserve` : a set of registers in a word;
* `Op` : the operations, with their classes;
* `InstInfo` : an instruction, with the registers it reads and writes;
* `InstInfo.immTransferAddr` : the address of a literal load or store.
-/
import Mathlib.Tactic

namespace AdvancedSlop

/-! ## Registers -/

/-- `Reg`. -/
inductive Reg
  | r0 | r1 | r2 | r3 | r4 | r5 | r6 | r7 | r8 | r9 | r10 | r11 | r12
  | sp | lr | pc | cpsr | spsr
  deriving DecidableEq, Repr

/-- The number of a register. -/
def Reg.index : Reg → Nat
  | r0 => 0 | r1 => 1 | r2 => 2 | r3 => 3 | r4 => 4 | r5 => 5 | r6 => 6 | r7 => 7 | r8 => 8
  | r9 => 9 | r10 => 10 | r11 => 11 | r12 => 12 | sp => 13 | lr => 14 | pc => 15 | cpsr => 16
  | spsr => 17

theorem Reg.index_lt (r : Reg) : r.index < 32 := by
  cases r <;> decide

theorem Reg.index_injective : Function.Injective Reg.index := by
  intro r r' h
  cases r <;> cases r' <;> first | rfl | cases h

/-- `RegReserve`. -/
structure RegReserve where
  bits : BitVec 32
  deriving DecidableEq, Repr

namespace RegReserve

/-- `RegReserve::new`. -/
def new : RegReserve := ⟨0⟩

/-- `RegReserve::is_reserved`. -/
def isReserved (s : RegReserve) (r : Reg) : Bool := s.bits.getLsbD r.index

/-- `RegReserve::is_empty`. -/
def isEmpty (s : RegReserve) : Bool := s.bits = 0

instance : Add RegReserve := ⟨fun s t => ⟨s.bits ||| t.bits⟩⟩

instance : Sub RegReserve := ⟨fun s t => ⟨s.bits &&& ~~~t.bits⟩⟩

instance : AndOp RegReserve := ⟨fun s t => ⟨s.bits &&& t.bits⟩⟩

/-- `reserve`. -/
def reserve (s : RegReserve) (r : Reg) : RegReserve := ⟨s.bits ||| BitVec.twoPow 32 r.index⟩

/-- `reg_reserve!`. -/
def ofRegs (regs : List Reg) : RegReserve := regs.foldl reserve new

@[simp] theorem isReserved_new (r : Reg) : new.isReserved r = false := BitVec.getLsbD_zero

@[simp] theorem isReserved_add (s t : RegReserve) (r : Reg) :
    (s + t).isReserved r = (s.isReserved r || t.isReserved r) := BitVec.getLsbD_or

@[simp] theorem isReserved_sub (s t : RegReserve) (r : Reg) :
    (s - t).isReserved r = (s.isReserved r && !t.isReserved r) := by
  show (s.bits &&& ~~~t.bits).getLsbD r.index = _
  simp [isReserved, r.index_lt]

@[simp] theorem isReserved_and (s t : RegReserve) (r : Reg) :
    (s &&& t).isReserved r = (s.isReserved r && t.isReserved r) := BitVec.getLsbD_and

@[simp] theorem isReserved_reserve (s : RegReserve) (r r' : Reg) :
    (s.reserve r).isReserved r' = (s.isReserved r' || decide (r = r')) := by
  show (s.bits ||| BitVec.twoPow 32 r.index).getLsbD r'.index = _
  rw [BitVec.getLsbD_or, BitVec.getLsbD_twoPow, decide_eq_true r.index_lt, Bool.true_and]
  simp only [isReserved, Reg.index_injective.eq_iff]

/-- The registers of a list. -/
theorem isReserved_ofRegs (regs : List Reg) (r : Reg) :
    (ofRegs regs).isReserved r = decide (r ∈ regs) := by
  have hfold : ∀ (regs : List Reg) (s : RegReserve),
      (regs.foldl reserve s).isReserved r = (s.isReserved r || decide (r ∈ regs)) := by
    intro regs
    induction regs with
    | nil => simp
    | cons r' regs ih =>
        intro s
        rw [List.foldl_cons, ih, isReserved_reserve, Bool.or_assoc]
        congr 1
        simp only [List.mem_cons, eq_comm, Bool.decide_or]
  simpa [ofRegs] using hfold regs new

end RegReserve

/-! ## Operations -/

/-- `Cond`. -/
inductive Cond
  | eq | ne | hs | lo | mi | pl | vs | vc | hi | ls | ge | lt | gt | le | al | nv
  deriving DecidableEq, Repr

/-- `SingleTransfer`. -/
structure SingleTransfer where
  pre : Bool
  writeBack : Bool
  add : Bool
  signed : Bool
  size : BitVec 4
  deriving DecidableEq, Repr

/-- `MultipleTransfer`. -/
structure MultipleTransfer where
  pre : Bool
  writeBack : Bool
  add : Bool
  user : Bool
  deriving DecidableEq, Repr

/-- `Op`. -/
inductive Op
  | and | eor | sub | rsb | add | adc | sbc | rsc | tst | teq | cmp | cmn | orr | mov | bic | mvn
  | ands | eors | subs | rsbs | adds | adcs | sbcs | rscs | orrs | movs | bics | mvns
  | ldr (t : SingleTransfer) | str (t : SingleTransfer)
  | ldm (t : MultipleTransfer) | stm (t : MultipleTransfer)
  | b | bl | blx | blxReg | bx | clz | mcr | mla | mlas | mrc
  | mrsRc | mrsRs | msrIc | msrIs | msrRc | msrRs
  | mul | muls | qadd | qdadd | qdsub | qsub
  | smlabb | smlabt | smlal | smlalbb | smlalbt | smlals | smlaltb | smlaltt | smlatb | smlatt
  | smlawb | smlawt | smulbb | smulbt | smull | smulls | smultb | smultt | smulwb | smulwt
  | swi | swp | swpb | umlal | umlals | umull | umulls | unkArm
  | addT | subT | cmpT | movT | lslT | lsrT | asrT | rorT | andT | eorT | adcT | sbcT | tstT | cmnT
  | orrT | bicT | mvnT | negT | mulT
  | addPcT | addSpT | addSpImmT | addHT | cmpHT | movHT
  | ldrT (t : SingleTransfer) | strT (t : SingleTransfer)
  | ldmT (t : MultipleTransfer) | stmT (t : MultipleTransfer)
  | bT | bccT | bcsT | beqT | bgeT | bgtT | bhiT | blOffT | blSetupT | bleT | blsT | bltT | blxOffT
  | blxRegT | bmiT | bneT | bplT | bvcT | bvsT | bxRegT | swiT | unkThumb
  deriving DecidableEq, Repr

namespace Op

/-- `Op::is_branch`. -/
def isBranch : Op → Bool
  | bx | blxReg | b | bl | blx | bxRegT | blxRegT | bT | beqT | bneT | bcsT | bccT | bmiT | bplT
  | bvsT | bvcT | bhiT | blsT | bgeT | bltT | bgtT | bleT | blOffT | blxOffT => true
  | _ => false

/-- `Op::is_labelled_branch`. -/
def isLabelledBranch : Op → Bool
  | b | bl | blx | bT | beqT | bneT | bcsT | bccT | bmiT | bplT | bvsT | bvcT | bhiT | blsT | bgeT
  | bltT | bgtT | bleT => true
  | _ => false

/-- `Op::is_write_mem_transfer`. -/
def isWriteMemTransfer : Op → Bool
  | str _ | strT _ | stm _ | stmT _ => true
  | _ => false

end Op

/-! ## Instructions -/

/-- `ShiftType`. -/
inductive ShiftType
  | lsl | lsr | asr | ror
  deriving DecidableEq, Repr

/-- `ShiftValue`. -/
inductive ShiftValue
  | reg (r : Reg)
  | imm (value : BitVec 8)
  deriving DecidableEq, Repr

/-- `Operand`. -/
inductive Operand
  | reg (r : Reg) (shift : Option (ShiftType × ShiftValue))
  | imm (value : BitVec 32)
  | regList (regs : RegReserve)
  deriving DecidableEq, Repr

/-- `Operand::as_reg_no_shift`. -/
def Operand.asRegNoShift : Operand → Option Reg
  | reg r none => some r
  | _ => none

/-- `Operand::as_imm`. -/
def Operand.asImm : Operand → Option (BitVec 32)
  | imm value => some value
  | _ => none

/-- `InstInfo`, without its opcode. -/
structure InstInfo where
  op : Op
  cond : Cond
  operands : List Operand
  srcRegs : RegReserve
  outRegs : RegReserve
  cycle : Nat
  deriving DecidableEq, Repr

namespace InstInfo

/-- `InstInfo::new`, with the condition of the opcode. -/
def new (cond : Cond) (op : Op) (operands : List Operand) (srcRegs outRegs : RegReserve)
    (cycle : Nat) : InstInfo where
  op := op
  cond := cond
  operands := operands
  srcRegs := if cond ≠ .al then srcRegs.reserve .cpsr else srcRegs
  outRegs := outRegs
  cycle := cycle

/-- `InstInfo::is_branch`. -/
def isBranch (inst : InstInfo) : Bool := inst.outRegs.isReserved .pc || inst.op.isBranch

/-- `get_branch_cond`. -/
def getBranchCond (inst : InstInfo) : Cond :=
  match inst.op with
  | .beqT => .eq
  | .bneT => .ne
  | .bcsT => .hs
  | .bccT => .lo
  | .bmiT => .mi
  | .bplT => .pl
  | .bvsT => .vs
  | .bvcT => .vc
  | .bhiT => .hi
  | .blsT => .ls
  | .bgeT => .ge
  | .bltT => .lt
  | .bgtT => .gt
  | .bleT => .le
  | _ => inst.cond

/-- `InstInfo::from` an instruction of the thumb disassembler. -/
def ofThumb (op : Op) (operands : List Operand) (srcRegs outRegs : RegReserve) (cycle : Nat) :
    InstInfo :=
  let info : InstInfo := ⟨op, .al, operands, srcRegs, outRegs, cycle⟩
  if op.isBranch then { info with cond := info.getBranchCond } else info

/-- The transfer of a single load or store, and whether it is a thumb one. -/
def singleTransfer (inst : InstInfo) : Option (SingleTransfer × Bool) :=
  match inst.op with
  | .ldr t | .str t => some (t, false)
  | .ldrT t | .strT t => some (t, true)
  | _ => none

/-- `InstInfo::imm_transfer_addr`. -/
def immTransferAddr (inst : InstInfo) (pc : BitVec 32) : Option (BitVec 32) :=
  match inst.singleTransfer, inst.operands with
  | some (transfer, thumb), _ :: base :: offset :: _ =>
      if transfer.writeBack = false ∧ base.asRegNoShift = some .pc then
        offset.asImm.map fun offset =>
          let pc := pc + if thumb then 4 else 8
          let addr := if transfer.add then pc + offset else pc - offset
          if thumb then addr &&& ~~~3 else addr
      else none
  | _, _ => none

/-- A branch to a label that does not link. -/
def isLocalBranch (inst : InstInfo) : Bool :=
  inst.op.isLabelledBranch && !inst.outRegs.isReserved .lr

end InstInfo

end AdvancedSlop
