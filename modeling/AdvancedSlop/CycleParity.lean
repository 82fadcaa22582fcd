/-
# The cycles of the two engines

`interpret_block` adds up what its handlers return, and a compiled block charges the prefix sums of
the disassembler's cycles: what both charge for a run of one block.

* `GuestInst.outcome` : how the interpreter ends an instruction, with its cycles;
* `fillJitInstsBuf` : the instructions of a block and their prefix sums;
* `cycle_parity_law` : the runs that cost the same in both engines.
-/
import AdvancedSlop.Disassembler
import AdvancedSlop.AsmAnalyzer

namespace AdvancedSlop

attribute [local instance] neZero_regs

/-! ## The interpreter -/

/-- `InstResult`, without the targets. -/
inductive Outcome
  | continueNext (cycles : ℕ)
  | continueStore (cycles : ℕ)
  | branch (cycles : ℕ)
  | branchLink (cycles : ℕ)
  | branchReturn (cycles : ℕ)
  deriving DecidableEq, Repr

namespace Outcome

/-- The cycles of the handler. -/
def cycles : Outcome → ℕ
  | continueNext c | continueStore c | branch c | branchLink c | branchReturn c => c

/-- Control is handed on. -/
def taken : Outcome → Bool
  | continueNext _ | continueStore _ => false
  | _ => true

/-- What the dispatch loop adds to `accumulated_cycles`: a branch costs 2 more, in the loop itself
or in the flush of `branch_reg` and `branch_lr`. -/
def charge (o : Outcome) : ℕ := o.cycles + if o.taken then 2 else 0

end Outcome

/-- How a software interrupt comes back: with the cpu halted, with another pc, or behind itself. -/
inductive SwiEnd
  | halted | redirected | resumed
  deriving DecidableEq, Repr

/-- What the cost of an instruction may depend on. -/
structure StepContext where
  cpsr : BitVec 32
  swiEnd : SwiEnd

/-- `CONDITION`: by the condition and the flags; 0 skips the instruction. -/
def conditionTable : List ℕ :=
  [0, 0, 0, 0, 1, 1, 1, 1, 0, 0, 0, 0, 1, 1, 1, 1, -- EQ
    1, 1, 1, 1, 0, 0, 0, 0, 1, 1, 1, 1, 0, 0, 0, 0, -- NE
    0, 0, 1, 1, 0, 0, 1, 1, 0, 0, 1, 1, 0, 0, 1, 1, -- CS
    1, 1, 0, 0, 1, 1, 0, 0, 1, 1, 0, 0, 1, 1, 0, 0, -- CC
    0, 0, 0, 0, 0, 0, 0, 0, 1, 1, 1, 1, 1, 1, 1, 1, -- MI
    1, 1, 1, 1, 1, 1, 1, 1, 0, 0, 0, 0, 0, 0, 0, 0, -- PL
    0, 1, 0, 1, 0, 1, 0, 1, 0, 1, 0, 1, 0, 1, 0, 1, -- VS
    1, 0, 1, 0, 1, 0, 1, 0, 1, 0, 1, 0, 1, 0, 1, 0, -- VC
    0, 0, 1, 1, 0, 0, 0, 0, 0, 0, 1, 1, 0, 0, 0, 0, -- HI
    1, 1, 0, 0, 1, 1, 1, 1, 1, 1, 0, 0, 1, 1, 1, 1, -- LS
    1, 0, 1, 0, 1, 0, 1, 0, 0, 1, 0, 1, 0, 1, 0, 1, -- GE
    0, 1, 0, 1, 0, 1, 0, 1, 1, 0, 1, 0, 1, 0, 1, 0, -- LT
    1, 0, 1, 0, 0, 0, 0, 0, 0, 1, 0, 1, 0, 0, 0, 0, -- GT
    0, 1, 0, 1, 1, 1, 1, 1, 1, 0, 1, 0, 1, 1, 1, 1, -- LE
    1, 1, 1, 1, 1, 1, 1, 1, 1, 1, 1, 1, 1, 1, 1, 1, -- AL
    2, 2, 2, 2, 2, 2, 2, 2, 2, 2, 2, 2, 2, 2, 2, 2] -- Reserved

/-- The dispatch does not reach the handler of an ARM opcode. -/
def skipped (opcode cpsr : BitVec 32) : Bool :=
  if 0xE0000000 ≤ opcode.toNat then 0xF0000000 ≤ opcode.toNat
  else conditionTable[(((opcode >>> 24) &&& 0xF0) ||| (cpsr >>> 28)).toNat]? = some 0

/-- `swi_common`. -/
def swiOutcome : SwiEnd → Outcome
  | .halted => .continueStore 3
  | .redirected => .branch 3
  | .resumed => .continueNext 3

/-- A write of the pc by `alu_finish`: a move from the link register is a return. -/
def aluPcOutcome (o : AluOp) (form : ShiftForm) (opcode : BitVec 32) : Outcome :=
  let srcLr := opcodeReg opcode 0 = 14 ∨ form.byReg ∧ opcodeReg opcode 8 = 14
  if o.handler.isMov ∧ ¬ o.handler.setFlags ∧ form ≠ .imm ∧ srcLr then .branchReturn 1
  else .branch 1

/-- A load of one register, through the stack pointer or not. -/
def loadOutcome (opcode : BitVec 32) (bySp : Prop) [Decidable bySp] : Outcome :=
  if opcodeRd opcode = 15 then if bySp then .branchReturn 3 else .branch 3 else .continueNext 3

/-- `ldm_stm`. -/
def ldmStmOutcome (load : Bool) (rn : Fin 16) (regList : BitVec 16) : Outcome :=
  if regList = 0 then if load then .branch 2 else .continueStore 1
  else if load then
    if regList.getLsbD 15 then
      if rn = 13 then .branchReturn (listLen regList + 2) else .branch (listLen regList + 2)
    else .continueNext (listLen regList + 2)
  else .continueStore (listLen regList + 1)

/-- The end of a handler of ARM; an undefined one panics. -/
def ArmFn.outcome (fn : ArmFn) (opcode : BitVec 32) (swiEnd : SwiEnd) : Option Outcome :=
  match fn with
  | .alu (.test _) _ => some (.continueNext 1)
  | .alu (.op o) form =>
      some (if opcodeRd opcode = 15 then aluPcOutcome o form opcode else .continueNext 1)
  | .mul32 _ acc => some (.continueNext (if acc then 6 else 5))
  | .mul64 _ acc _ => some (.continueNext (if acc then 7 else 6))
  | .smlaXy _ _ | .smlawY _ | .smulwY _ | .smlalXy _ _ | .smulXy _ _ | .qalu _ _ | .clz | .mrs _
  | .msrReg _ | .msrImm _ | .mcr | .mrc => some (.continueNext 1)
  | .bx => some (if opcodeReg opcode 0 = 14 then .branchReturn 1 else .branch 1)
  | .blxReg | .bl => some (.branchLink 1)
  | .b => some (.branch 1)
  | .swi => some (swiOutcome swiEnd)
  | .swp _ => some (.continueStore 4)
  | .ldrStr load _ _ _ offk =>
      some (if load then
        loadOutcome opcode (opcodeReg opcode 16 = 13 ∨ offk ≠ .imm ∧ opcodeReg opcode 0 = 13)
      else .continueStore 2)
  | .half kind _ _ reg =>
      match kind with
      | .ldrd | .strd => some (.continueNext 1)
      | .strh => some (.continueStore 2)
      | .ldrh | .ldrsb | .ldrsh =>
          some (loadOutcome opcode (opcodeReg opcode 16 = 13 ∨ reg ∧ opcodeReg opcode 0 = 13))
  | .ldmStm load _ _ _ _ =>
      some (ldmStmOutcome load (opcodeReg opcode 16) (opcode.extractLsb' 0 16))
  | .undefined => none

/-- The closures of `def_bcond`. -/
def bcondTaken (cond : Cond) (c : BitVec 32) : Bool :=
  match cond with
  | .eq => c &&& zBit != 0
  | .ne => c &&& zBit == 0
  | .hs => c &&& cBit != 0
  | .lo => c &&& cBit == 0
  | .mi => c &&& nBit != 0
  | .pl => c &&& nBit == 0
  | .vs => c &&& vBit != 0
  | .vc => c &&& vBit == 0
  | .hi => c &&& cBit != 0 && c &&& zBit == 0
  | .ls => c &&& cBit == 0 || c &&& zBit != 0
  | .ge => (c ^^^ (c <<< 3)) &&& nBit == 0
  | .lt => (c ^^^ (c <<< 3)) &&& nBit != 0
  | .gt => c &&& zBit == 0 && (c ^^^ (c <<< 3)) &&& nBit == 0
  | _ => c &&& zBit != 0 || (c ^^^ (c <<< 3)) &&& nBit != 0

/-- The end of a handler of Thumb. -/
def ThumbFn.outcome (fn : ThumbFn) (opcode : BitVec 16) (ctx : StepContext) : Option Outcome :=
  let list := opcode.extractLsb' 0 8
  let count := listLen (list.setWidth 16)
  match fn with
  | .alu .mulDp => some (.continueNext 4)
  | .alu .addH => some (if hiRd opcode = 15 then .branch 1 else .continueNext 1)
  | .alu .movH =>
      some (if hiRd opcode = 15 then if hiRs opcode = 14 then .branchReturn 1 else .branch 1
        else .continueNext 1)
  | .alu _ => some (.continueNext 1)
  | .bxReg => some (if hiRs opcode = 14 then .branchReturn 1 else .branch 1)
  | .ldrPc | .ldrSp => some (.continueNext 3)
  | .reg t | .imm5 t => some (if t.isStore then .continueStore 2 else .continueNext 3)
  | .strSp => some (.continueStore 2)
  | .push => some (.continueStore (1 + count))
  | .pushLr => some (.continueStore (1 + (count + 1)))
  | .pop => some (.continueNext (count + 2))
  | .popPc => some (.branchReturn (count + 1 + 2))
  | .stmia => some (.continueStore (1 + count))
  | .ldmia => some (if list = 0 then .branch 2 else .continueNext (count + 2))
  | .bcond cond => some (if bcondTaken cond ctx.cpsr then .branch 1 else .continueNext 1)
  | .swi => some (swiOutcome ctx.swiEnd)
  | .b => some (.branch 1)
  | .blSetup | .blxOff | .blxReg => some (.continueNext 1)
  | .blOff => some (.branchLink 1)
  | .undefined => none

/-- An instruction of the guest. -/
inductive GuestInst
  | arm (opcode : BitVec 32)
  | thumb (opcode : BitVec 16)
  deriving DecidableEq, Repr

namespace GuestInst

/-- The dispatch of `interpret_block_inner`. -/
def outcome (inst : GuestInst) (ctx : StepContext) : Option Outcome :=
  match inst with
  | arm opcode =>
      if skipped opcode ctx.cpsr then some (.continueNext 1)
      else (armFn opcode).outcome opcode ctx.swiEnd
  | thumb opcode => (thumbFn opcode).outcome opcode ctx

/-- What the disassembler says about it. -/
def info : GuestInst → InstInfo
  | arm opcode => armInfo opcode
  | thumb opcode => thumbInfo opcode

end GuestInst

/-! ## The handlers -/

/-- A result without its target. -/
def InstResult.outcome : InstResult → Outcome
  | continueNext c => .continueNext c
  | continueStore c => .continueStore c
  | branch c _ => .branch c
  | branchReturn c _ => .branchReturn c

section Handlers

variable {D : Type*} (dev : MemDevices D) (opcode instAddr : BitVec 32)

/-- The handlers of data processing end so. -/
theorem aluFn_outcome (f : AluFn) (form : ShiftForm) (swiEnd : SwiEnd) (regs : ThreadRegs) :
    (ArmFn.alu f form).outcome opcode swiEnd =
      some (f.step form opcode instAddr regs).2.outcome := by
  cases f with
  | test t => rfl
  | op o =>
      show some _ = some (aluFinish _ _ _ _ _ _).2.outcome
      unfold aluFinish aluPcOutcome
      by_cases hrd : opcodeRd opcode = 15
      · simp only [if_pos hrd]
        split <;> rfl
      · simp only [if_neg hrd]
        rfl

/-- The loads of words and bytes end so. -/
theorem ldr_outcome (l : SingleLoad) (swiEnd : SwiEnd) (g : GuestState D) :
    (ArmFn.ldrStr true l.byte l.addr l.up l.offk).outcome opcode swiEnd =
      some (ldr dev l opcode instAddr g).2.outcome := by
  simp only [ArmFn.outcome, loadOutcome, ldr, if_true]
  split
  · split <;> rfl
  · rfl

/-- The loads of halfwords and signed bytes end so. -/
theorem ldrh_outcome (l : HalfLoad) {kind : HalfFn} (hload : kind.isStore = false)
    (hsize : kind.is64Bit = false) (swiEnd : SwiEnd) (g : GuestState D) :
    (ArmFn.half kind l.addr l.up l.reg).outcome opcode swiEnd =
      some (ldrh dev l opcode instAddr g).2.outcome := by
  cases kind <;> simp only [HalfFn.isStore, HalfFn.is64Bit, reduceCtorEq] at hload hsize <;>
    simp only [ArmFn.outcome, loadOutcome, ldrh] <;> split <;> (try split) <;> rfl

/-- The loop of a block load comes back with a target when the pc is among the registers. -/
theorem foldl_loadReg_isSome (banked fiq : Bool) (l : List (Fin 16 × BitVec 32))
    (s : ThreadRegs × Option (BitVec 32)) :
    (l.foldl (loadReg banked fiq) s).2.isSome = (s.2.isSome || decide (15 ∈ l.map Prod.fst)) := by
  induction l generalizing s with
  | nil => simp
  | cons p l ih =>
      rw [List.foldl_cons, ih, List.map_cons]
      by_cases h15 : p.1 = 15
      · simp [loadReg, h15]
      · have hkeep : (loadReg banked fiq s p).2 = s.2 := by
          unfold loadReg
          rw [if_neg h15]
          split <;> rfl
        simp [hkeep, Ne.symm h15]

/-- The target of a block load, once its words are read. -/
theorem loaded_isSome {t : BlockTransfer} {words : List (BitVec 32)} (banked fiq : Bool)
    (regs : ThreadRegs) (hlength : words.length = t.count) :
    ((t.regs.zip words).foldl (loadReg banked fiq) (regs, none)).2.isSome =
      t.regList.getLsbD 15 := by
  have hregs : (t.regs.zip words).map Prod.fst = t.regs :=
    List.map_fst_zip (le_of_eq hlength.symm)
  rw [foldl_loadReg_isSome, hregs]
  simp [BlockTransfer.regs]

/-- The block transfers end so. -/
theorem ldmStm_outcome (t : BlockTransfer) {g : GuestState D} {r : GuestState D × InstResult}
    (h : ldmStm dev t instAddr g = some r) :
    r.2.outcome = ldmStmOutcome t.load t.rn t.regList := by
  unfold ldmStm at h
  unfold ldmStmOutcome
  by_cases hempty : t.regList = 0
  · rw [if_pos hempty] at h ⊢
    unfold ldmStmEmpty at h
    cases hload : t.load with
    | true =>
        simp only [hload, if_true, Option.some.injEq] at h
        rw [← h]
        rfl
    | false =>
        simp only [hload, Bool.false_eq_true, if_false, Option.map_eq_some_iff] at h
        obtain ⟨mem, -, rfl⟩ := h
        rfl
  · rw [if_neg hempty] at h ⊢
    cases hload : t.load with
    | false =>
        rw [hload, if_neg Bool.false_ne_true] at h
        obtain ⟨mem, -, rfl⟩ := Option.map_eq_some_iff.mp h
        rw [if_neg Bool.false_ne_true]
        rfl
    | true =>
        rw [hload, if_pos rfl] at h
        obtain ⟨read, hread, rfl⟩ := Option.map_eq_some_iff.mp h
        have htarget := loaded_isSome (t.userBanked g.regs) (t.userBanked g.regs && g.regs.isFiq)
          g.regs (length_of_read dev hread)
        rw [if_pos rfl, ← htarget]
        simp only
        split
        · rename_i target htarget
          rw [htarget, Option.isSome_some, if_pos rfl]
          split <;> rfl
        · rename_i htarget
          rw [htarget]
          rfl

/-- The handlers of Thumb that process data end so. -/
theorem thumbAlu_outcome (t : ThumbAlu) (opcode : BitVec 16) (ctx : StepContext)
    (regs : ThreadRegs) :
    (ThumbFn.alu t).outcome opcode ctx = some (t.step opcode instAddr regs).2.outcome := by
  cases t with
  | addH =>
      show some _ = some (addHT opcode instAddr regs).2.outcome
      unfold addHT
      split <;> simp [InstResult.outcome, *]
  | movH =>
      show some _ = some (movHT opcode instAddr regs).2.outcome
      unfold movHT
      split <;> (try split) <;> simp [InstResult.outcome, *]
  | _ => rfl

end Handlers

/-! ## The compiled block -/

namespace Op

/-- `Op::is_alu`. -/
def isAlu : Op → Bool
  | and | eor | sub | rsb | add | adc | sbc | rsc | tst | teq | cmp | cmn | orr | mov | bic | mvn
  | ands | eors | subs | rsbs | adds | adcs | sbcs | rscs | orrs | movs | bics | mvns
  | addT | subT | cmpT | movT | lslT | lsrT | asrT | rorT | andT | eorT | adcT | sbcT | tstT | cmnT
  | orrT | bicT | mvnT | negT | mulT | addPcT | addSpT | addSpImmT | addHT | cmpHT | movHT => true
  | _ => false

/-- `Op::is_single_mem_transfer`. -/
def isSingleMemTransfer : Op → Bool
  | ldr _ | ldrT _ | str _ | strT _ => true
  | _ => false

/-- `Op::is_multiple_mem_transfer`. -/
def isMultipleMemTransfer : Op → Bool
  | ldm _ | ldmT _ | stm _ | stmT _ => true
  | _ => false

end Op

/-- A condition of the host, by the flags of the guest. -/
def Cond.holds (cond : Cond) (cpsr : BitVec 32) : Bool :=
  let n := cpsr.getLsbD 31
  let z := cpsr.getLsbD 30
  let c := cpsr.getLsbD 29
  let v := cpsr.getLsbD 28
  match cond with
  | eq => z
  | ne => !z
  | hs => c
  | lo => !c
  | mi => n
  | pl => !n
  | vs => v
  | vc => !v
  | hi => c && !z
  | ls => !c || z
  | ge => n == v
  | lt => n != v
  | gt => !z && n == v
  | le => z || n != v
  | al => true
  | nv => false

namespace InstInfo

/-- `InstInfo::is_uncond_branch`. -/
def isUncondBranch (inst : InstInfo) : Bool := inst.cond = .al && inst.outRegs.isReserved .pc

/-- The compiled code of an instruction ends in a branch: its own, or that of
`handle_indirect_branch`. -/
def emitsBranch (inst : InstInfo) : Bool :=
  inst.op.isBranch ||
    (inst.op.isAlu || inst.op.isSingleMemTransfer || inst.op.isMultipleMemTransfer) &&
      inst.outRegs.isReserved .pc

/-- That branch is taken. -/
def branches (inst : InstInfo) (cpsr : BitVec 32) : Bool := inst.cond.holds cpsr && inst.emitsBranch

/-- The instruction ends the block before it. -/
def endsDecode (inst : InstInfo) : Bool :=
  inst.op = .unkArm || inst.op = .unkThumb || inst.cond = .nv

end InstInfo

/-- The code of the guest, as it is fetched. -/
structure GuestCode where
  half : BitVec 32 → BitVec 16
  word : BitVec 32 → BitVec 32

/-- The instruction at an address. -/
def GuestCode.inst (code : GuestCode) (thumb : Bool) (pc : BitVec 32) : GuestInst :=
  if thumb then .thumb (code.half pc) else .arm (code.word pc)

/-- `insts` and `insts_cycle_counts`. -/
structure JitBuf where
  insts : List InstInfo
  cycleCounts : List ℕ
  deriving DecidableEq, Repr

/-- An instruction behind the others, with the sum up to it. -/
def JitBuf.push (buf : JitBuf) (inst : InstInfo) : JitBuf where
  insts := buf.insts ++ [inst]
  cycleCounts := buf.cycleCounts ++ [buf.cycleCounts.getLast?.getD 0 + inst.cycle]

section Decode

variable (code : GuestCode) (thumb untilBx : Bool)

/-- The lowest literal behind the code so far. -/
def minImmAddr (inst : InstInfo) (pc minAddr : BitVec 32) : BitVec 32 :=
  match inst.immTransferAddr pc with
  | some addr => if pc < addr ∧ addr < minAddr then addr else minAddr
  | none => minAddr

/-- The block ends behind an instruction. -/
def endsBlock (inst : InstInfo) (len : ℕ) (minAddr : BitVec 32) : Bool :=
  let unreturnable := !inst.outRegs.isReserved .lr && inst.isUncondBranch
  let skipOne := unreturnable && inst.op.isLabelledBranch &&
    inst.operands.head?.bind Operand.asImm = some 0
  (inst.op = .bx || inst.op = .bxRegT) && inst.cond = .al ||
    500 ≤ len && inst.op ≠ .blSetupT ||
    !untilBx && unreturnable && !skipOne && minAddr = BitVec.allOnes 32

/-- The loop of `fill_jit_insts_buf`. -/
def fillLoop : ℕ → BitVec 32 → BitVec 32 → JitBuf → Option (JitBuf × BitVec 32)
  | 0, _, _, _ => none
  | fuel + 1, pc, minAddr, buf =>
      let inst := (code.inst thumb pc).info
      if inst.endsDecode then some (buf, pc)
      else
        let minAddr := minImmAddr inst pc minAddr
        let buf := buf.push inst
        if endsBlock untilBx inst buf.insts.length minAddr ∨ minAddr ≤ pc then some (buf, pc)
        else fillLoop fuel (pc + if thumb then 2 else 4) minAddr buf

/-- **`fill_jit_insts_buf`**, for blocks that end within the fuel. -/
def fillJitInstsBuf (fuel : ℕ) (guestPc : BitVec 32) : Option (JitBuf × BitVec 32) :=
  fillLoop code thumb untilBx fuel guestPc (BitVec.allOnes 32) ⟨[], []⟩

end Decode

namespace JitBuf

variable (buf : JitBuf)

/-- The sum up to an instruction. -/
def count (i : ℕ) : ℕ := buf.cycleCounts[i]?.getD 0

/-- The cycles of an instruction. -/
def cycle (i : ℕ) : ℕ := (buf.insts[i]?.map InstInfo.cycle).getD 0

/-- The end of a block falls into the code behind it, unless the last instruction is a branch that
is always taken. -/
def fallsThrough (i : ℕ) (cpsr : BitVec 32) : Bool :=
  match buf.insts[i]? with
  | some inst => i + 1 = buf.insts.length && !inst.isUncondBranch && !inst.branches cpsr
  | none => false

/-- Control leaves the block behind an instruction. -/
def leaves (i : ℕ) (cpsr : BitVec 32) : Bool :=
  buf.fallsThrough i cpsr || (buf.insts[i]?.map fun inst => inst.branches cpsr).getD false

/-- `flush_cycles`, entered at `first` and behind `i`: the sum is charged, 2 more where control
leaves the block, less the sum before the entry. -/
def flushCycles (first i : ℕ) (cpsr : BitVec 32) : ℕ :=
  buf.count i + (if buf.leaves i cpsr then 2 else 0) - (buf.count first - buf.cycle first)

end JitBuf

/-! ## Conditions -/

section Conditions

variable (opcode cpsr : BitVec 32)

/-- The condition of an opcode. -/
def condCode : BitVec 4 := opcode.extractLsb' 28 4

theorem condCode_toNat : (condCode opcode).toNat = opcode.toNat / 2 ^ 28 := by
  have := opcode.isLt
  simp only [condCode, BitVec.extractLsb'_toNat, Nat.shiftRight_eq_div_pow]
  omega

/-- An index of `CONDITION`. -/
theorem condition_index :
    (((opcode >>> 24) &&& 0xF0) ||| (cpsr >>> 28)).toNat =
      16 * (condCode opcode).toNat + (condCode cpsr).toNat := by
  have hor : ((opcode >>> 24) &&& 0xF0) ||| (cpsr >>> 28) =
      (condCode opcode ++ condCode cpsr).setWidth 32 := by
    apply BitVec.eq_of_getLsbD_eq
    intro i hi
    rw [BitVec.getLsbD_setWidth, BitVec.getLsbD_append]
    interval_cases i <;> simp [condCode]
  have hopcode := (condCode opcode).isLt
  have hcpsr := (condCode cpsr).isLt
  rw [hor, BitVec.toNat_setWidth, BitVec.toNat_append, ← Nat.shiftLeft_add_eq_or_of_lt hcpsr,
    Nat.shiftLeft_eq]
  omega

/-- A condition looks at the flags alone. -/
theorem holds_flags (cond : Cond) :
    cond.holds cpsr = cond.holds ((condCode cpsr).setWidth 32 <<< 28) := by
  unfold Cond.holds condCode
  simp

/-- The table says what the host's conditions say. -/
theorem conditionTable_holds : ∀ c f : BitVec 4, c.toNat < 14 →
    (conditionTable[16 * c.toNat + f.toNat]? = some 0 ↔
      (Cond.ofCode c).holds (f.setWidth 32 <<< 28) = false) := by
  decide

/-- **An opcode with a condition** is skipped when the condition does not hold. -/
theorem skipped_eq (hnv : condCode opcode ≠ 15) :
    skipped opcode cpsr = !(Cond.ofCode (condCode opcode)).holds cpsr := by
  have hcode := condCode_toNat opcode
  have hlt : (condCode opcode).toNat < 15 := by
    have hne : (condCode opcode).toNat ≠ 15 := fun h => hnv (BitVec.eq_of_toNat_eq h)
    have := (condCode opcode).isLt
    omega
  unfold skipped
  by_cases hal : 0xE0000000 ≤ opcode.toNat
  · have h14 : condCode opcode = 14 := by
      apply BitVec.eq_of_toNat_eq
      show _ = 14
      omega
    rw [if_pos hal, h14, decide_eq_false (by omega)]
    rfl
  · rw [if_neg hal, condition_index, holds_flags, Bool.eq_iff_iff]
    simp only [decide_eq_true_eq, Bool.not_eq_true']
    exact conditionTable_holds _ _ (by omega)

/-- Without a condition it always is. -/
theorem skipped_nv (hnv : condCode opcode = 15) : skipped opcode cpsr = true := by
  have hcode := condCode_toNat opcode
  rw [hnv] at hcode
  have h15 : (15 : BitVec 4).toNat = 15 := rfl
  unfold skipped
  rw [if_pos (by omega), decide_eq_true (by omega)]

/-- A bit by its mask. -/
theorem and_mask_ne_zero {m : BitVec 32} (i : ℕ) (hi : i < 32) (hm : m = BitVec.twoPow 32 i) :
    (cpsr &&& m != 0) = cpsr.getLsbD i := by
  have hne : BitVec.twoPow 32 i ≠ 0#32 := by
    intro hzero
    have := congrArg BitVec.toNat hzero
    rw [BitVec.toNat_twoPow_of_lt hi] at this
    exact absurd this (Nat.two_pow_pos i).ne'
  rw [hm, BitVec.and_twoPow]
  cases cpsr.getLsbD i <;> simp [hne]

/-- **The closures of Thumb** say what the host's conditions say. -/
theorem bcondTaken_eq {cond : Cond} (h : cond ∈ bconds) :
    bcondTaken cond cpsr = cond.holds cpsr := by
  have heq (x : BitVec 32) : (x == 0) = !(x != 0) := by rw [bne, Bool.not_not]
  have hn (x : BitVec 32) : (x &&& nBit != 0) = x.getLsbD 31 :=
    and_mask_ne_zero x 31 (by decide) (by decide)
  have hz : (cpsr &&& zBit != 0) = cpsr.getLsbD 30 :=
    and_mask_ne_zero cpsr 30 (by decide) (by decide)
  have hc : (cpsr &&& cBit != 0) = cpsr.getLsbD 29 :=
    and_mask_ne_zero cpsr 29 (by decide) (by decide)
  have hv : (cpsr &&& vBit != 0) = cpsr.getLsbD 28 :=
    and_mask_ne_zero cpsr 28 (by decide) (by decide)
  have hnv : (cpsr ^^^ (cpsr <<< 3)).getLsbD 31 = (cpsr.getLsbD 31 != cpsr.getLsbD 28) := by
    simp
  have hbne (a b : Bool) : (!(a != b)) = (a == b) := by cases a <;> cases b <;> rfl
  simp only [bconds, List.mem_cons, List.not_mem_nil, or_false] at h
  rcases h with rfl | rfl | rfl | rfl | rfl | rfl | rfl | rfl | rfl | rfl | rfl | rfl | rfl |
    rfl <;>
    simp only [bcondTaken, Cond.holds, heq, hn, hz, hc, hv, hnv, hbne]

end Conditions

/-! ## One instruction -/

/-- The ARM instructions that are a branch in one engine only: with the pc as written-back base, a
load of an empty list, a user-bank store of the pc, and an interrupt that redirects the pc. -/
def ArmFn.oddBranch (fn : ArmFn) (opcode : BitVec 32) (swiEnd : SwiEnd) : Bool :=
  let basePc := opcodeReg opcode 16 = 15
  let regList := opcode.extractLsb' 0 16
  match fn with
  | .ldrStr load _ addr _ _ => addr ≠ .offset && basePc && !(load && opcodeRd opcode = 15)
  | .half kind addr _ _ => addr ≠ .offset && basePc && !(!kind.isStore && opcodeRd opcode = 15)
  | .ldmStm true _ _ _ wb => if regList = 0 then !basePc else !regList.getLsbD 15 && wb && basePc
  | .ldmStm false _ _ user wb =>
      (wb || regList = 0) && basePc || user && !wb && regList.getLsbD 15
  | .swi => swiEnd = .redirected
  | _ => false

/-- Those of Thumb: a load of an empty list, the calls of the next architecture, and such an
interrupt. -/
def ThumbFn.oddBranch (fn : ThumbFn) (opcode : BitVec 16) (swiEnd : SwiEnd) : Bool :=
  match fn with
  | .ldmia => opcode.extractLsb' 0 8 = 0
  | .blxOff | .blxReg => true
  | .swi => swiEnd = .redirected
  | _ => false

/-- A transfer of two words. -/
def ArmFn.twoWords : ArmFn → Bool
  | .half kind _ _ _ => kind.is64Bit
  | _ => false

namespace GuestInst

/-- The instruction is a branch in one engine only; without a condition, a branch of ARM is a call
of the next architecture. -/
def oddBranch (inst : GuestInst) (ctx : StepContext) : Bool :=
  match inst with
  | arm opcode =>
      if condCode opcode = 15 then true
      else !skipped opcode ctx.cpsr && (armFn opcode).oddBranch opcode ctx.swiEnd
  | thumb opcode => (thumbFn opcode).oddBranch opcode ctx.swiEnd

/-- The interpreter skips the instruction. -/
def skips (inst : GuestInst) (ctx : StepContext) : Bool :=
  match inst with
  | arm opcode => skipped opcode ctx.cpsr
  | thumb _ => false

/-- The instruction moves two words. -/
def twoWords : GuestInst → Bool
  | arm opcode => (armFn opcode).twoWords
  | thumb _ => false

end GuestInst

/-! ### What the disassembler says -/

theorem ofNum_eq_pc (i : Fin 16) : Reg.ofNum i = .pc ↔ i = 15 := by
  revert i
  decide

theorem isReserved_when (b : Bool) (regs : List Reg) (r : Reg) :
    (RegReserve.when b regs).isReserved r = (b && decide (r ∈ regs)) := by
  cases b <;> simp [RegReserve.when, RegReserve.isReserved_ofRegs]

theorem isReserved_ofList_pc (regList : BitVec 16) :
    (RegReserve.ofList regList).isReserved .pc = regList.getLsbD 15 := by
  simp [RegReserve.ofList, RegReserve.isReserved, Reg.index]

theorem isEmpty_ofList (regList : BitVec 16) :
    (RegReserve.ofList regList).isEmpty = decide (regList = 0) := by
  refine decide_eq_decide.mpr ⟨fun h => ?_, ?_⟩
  · have hlist : (BitVec.setWidth 32 regList).setWidth 16 = (0 : BitVec 32).setWidth 16 :=
      congrArg (BitVec.setWidth 16) h
    simpa using hlist
  · rintro rfl
    rfl

/-- Data processing and transfers branch when they write the pc. -/
theorem emitsBranch_alu {inst : InstInfo} {op : Op} (hinst : inst.op = op)
    (hbranch : op.isBranch = false)
    (hop : (op.isAlu || op.isSingleMemTransfer || op.isMultipleMemTransfer) = true) :
    inst.emitsBranch = inst.outRegs.isReserved .pc := by
  unfold InstInfo.emitsBranch
  rw [hinst, hbranch, hop, Bool.false_or, Bool.true_and]

section Arm

variable (opcode : BitVec 32)

theorem isReserved_field (lsb : ℕ) :
    (RegReserve.ofRegs [fieldReg opcode lsb]).isReserved .pc =
      decide (opcodeReg opcode lsb = 15) := by
  rw [RegReserve.isReserved_ofRegs]
  refine decide_eq_decide.mpr ?_
  rw [List.mem_singleton, eq_comm]
  exact ofNum_eq_pc _

theorem isReserved_when_field (b : Bool) (lsb : ℕ) :
    (RegReserve.when b [fieldReg opcode lsb]).isReserved .pc =
      (b && decide (opcodeReg opcode lsb = 15)) := by
  cases b
  · rw [isReserved_when, Bool.false_and, Bool.false_and]
  · exact (isReserved_field opcode lsb).trans (Bool.true_and _).symm

/-- The condition of an instruction, but for a call without one. -/
theorem armInfo_cond
    (h : condCode opcode ≠ 15 ∨ armFn opcode ≠ .b ∧ armFn opcode ≠ .bl) :
    (armInfo opcode).cond = .ofCode (condCode opcode) := by
  have hbranch (op : Op) (link : Bool) (hnv : condCode opcode ≠ 15) :
      (branchInfo opcode op link).cond = .ofCode (condCode opcode) := by
    have hcond : opcode.extractLsb' 28 4 ≠ 0xF := hnv
    simp only [branchInfo, if_neg hcond]
    rfl
  have hmem (write writeBack is64Bit : Bool) (op : Op) (operand2 : Operand) (regs : List Reg) :
      (memTransfer opcode write writeBack is64Bit op operand2 regs).cond =
        .ofCode (condCode opcode) := by
    unfold memTransfer
    split <;> rfl
  have halu (f : AluFn) (form : ShiftForm) :
      (aluInfo opcode f form).cond = .ofCode (condCode opcode) := by
    cases f with
    | test t => rfl
    | op o =>
        show (if _ then _ else _ : InstInfo).cond = _
        split <;> rfl
  unfold armInfo
  split <;> first
    | rfl
    | exact hmem _ _ _ _ _ _
    | exact halu _ _
    | exact hbranch _ _ (h.resolve_right fun hfn => by simp_all)

/-- A branch without a condition is a call of the next architecture. -/
theorem armInfo_nv (hnv : condCode opcode = 15) (hdecode : (armInfo opcode).endsDecode = false)
    (cpsr : BitVec 32) :
    (armInfo opcode).cycle = 1 ∧ (armInfo opcode).branches cpsr = true := by
  have hcond : opcode.extractLsb' 28 4 = 0xF := hnv
  by_cases hfn : armFn opcode ≠ .b ∧ armFn opcode ≠ .bl
  · have hnvCond : (armInfo opcode).cond = .nv := by
      rw [armInfo_cond opcode (.inr hfn), hnv]
      rfl
    rw [InstInfo.endsDecode, hnvCond, decide_eq_true rfl, Bool.or_true] at hdecode
    cases hdecode
  · have hcall (op : Op) (link : Bool) : (branchInfo opcode op link).cycle = 1 ∧
        (branchInfo opcode op link).branches cpsr = true := by
      simp only [branchInfo, if_pos hcond]
      exact ⟨rfl, rfl⟩
    by_cases hb : armFn opcode = .b
    · simpa only [armInfo, hb] using hcall .b false
    · have hbl : armFn opcode = .bl := by
        by_contra hbl
        exact hfn ⟨hb, hbl⟩
      simpa only [armInfo, hbl] using hcall .bl true

/-- An instruction of data processing branches when its destination is the pc. -/
theorem aluInfo_cost (f : AluFn) (form : ShiftForm) :
    (aluInfo opcode f form).cycle = 1 ∧ (aluInfo opcode f form).emitsBranch =
      match f with
      | .op _ => decide (opcodeRd opcode = 15)
      | .test _ => false := by
  cases f with
  | test t =>
      have hop : t.info.1.isBranch = false ∧ t.info.1.isAlu = true := by
        cases t <;> exact ⟨rfl, rfl⟩
      refine ⟨rfl, (emitsBranch_alu (show _ = t.info.1 from rfl) hop.1 (by rw [hop.2]; rfl)).trans
        ?_⟩
      show (RegReserve.ofRegs [.cpsr]).isReserved .pc = false
      decide
  | op o =>
      have hop : o.info.1.isBranch = false ∧ o.info.1.isAlu = true := by
        cases o <;> exact ⟨rfl, rfl⟩
      have hpc (b : Bool) : (RegReserve.ofRegs [fieldReg opcode 12] +
          RegReserve.when b [.cpsr]).isReserved .pc = decide (opcodeRd opcode = 15) := by
        rw [RegReserve.isReserved_add, isReserved_field, isReserved_when]
        simp only [List.mem_singleton, reduceCtorEq, decide_false, Bool.and_false, Bool.or_false]
        rfl
      have hcost (inst : InstInfo) (hcycle : inst.cycle = 1) (hinst : inst.op = o.info.1)
          (hout : inst.outRegs = .ofRegs [fieldReg opcode 12] + .when o.info.2.2 [.cpsr]) :
          inst.cycle = 1 ∧ inst.emitsBranch = decide (opcodeRd opcode = 15) := by
        refine ⟨hcycle, (emitsBranch_alu hinst hop.1 (by rw [hop.2]; rfl)).trans ?_⟩
        rw [hout, hpc]
      show (if _ then _ else _ : InstInfo).cycle = 1 ∧
        (if _ then _ else _ : InstInfo).emitsBranch = _
      split
      · exact hcost (alu2Op0 opcode o.info.1 o.info.2.1 o.info.2.2 form) rfl rfl rfl
      · exact hcost (alu3 opcode o.info.1 o.info.2.1 o.info.2.2 form) rfl rfl rfl

/-- A transfer branches when it loads the pc, or writes it back. -/
theorem memTransfer_cost {write writeBack : Bool} {op : Op} (operand2 : Operand) (regs : List Reg)
    (hbranch : op.isBranch = false) (hsingle : op.isSingleMemTransfer = true) :
    (memTransfer opcode write writeBack false op operand2 regs).cycle = (if write then 2 else 3) ∧
      (memTransfer opcode write writeBack false op operand2 regs).emitsBranch =
        (!write && decide (opcodeRd opcode = 15) ||
          writeBack && decide (opcodeReg opcode 16 = 15)) := by
  refine ⟨rfl, (emitsBranch_alu (show _ = op from rfl) hbranch (by rw [hsingle]; simp)).trans ?_⟩
  show (RegReserve.when (!write) [fieldReg opcode 12] + .when writeBack [fieldReg opcode 16] +
    .when (false && !write) _).isReserved .pc = _
  rw [RegReserve.isReserved_add, RegReserve.isReserved_add, isReserved_when_field,
    isReserved_when_field, isReserved_when, Bool.false_and, Bool.false_and, Bool.or_false]
  rfl

/-- The transfers of words and bytes. -/
theorem ldrStrInfo_cost (load byte : Bool) (addr : AddrMode) (up : Bool) (offk : OffsetKind) :
    (ldrStrInfo opcode load byte addr up offk).cycle = (if load then 3 else 2) ∧
      (ldrStrInfo opcode load byte addr up offk).emitsBranch =
        (load && decide (opcodeRd opcode = 15) ||
          decide (addr ≠ .offset) && decide (opcodeReg opcode 16 = 15)) := by
  cases load
  · exact memTransfer_cost opcode _ _ rfl rfl
  · exact memTransfer_cost opcode _ _ rfl rfl

/-- The transfers of halfwords and signed bytes. -/
theorem halfInfo_cost {kind : HalfFn} (hsize : kind.is64Bit = false) (addr : AddrMode)
    (up reg : Bool) :
    (halfInfo opcode kind addr up reg).cycle = (if kind.isStore then 2 else 3) ∧
      (halfInfo opcode kind addr up reg).emitsBranch =
        (!kind.isStore && decide (opcodeRd opcode = 15) ||
          decide (addr ≠ .offset) && decide (opcodeReg opcode 16 = 15)) := by
  unfold halfInfo
  rw [hsize]
  cases kind <;> exact memTransfer_cost opcode _ _ rfl rfl

/-- A load of one register is a branch when it loads the pc. -/
theorem loadOutcome_cost (bySp : Prop) [Decidable bySp] :
    (loadOutcome opcode bySp).cycles = 3 ∧
      (loadOutcome opcode bySp).taken = decide (opcodeRd opcode = 15) := by
  unfold loadOutcome
  by_cases hrd : opcodeRd opcode = 15
  · rw [if_pos hrd, decide_eq_true hrd]
    split <;> exact ⟨rfl, rfl⟩
  · rw [if_neg hrd, decide_eq_false hrd]
    exact ⟨rfl, rfl⟩

/-- A block transfer branches when it names the pc as written. -/
theorem ldmStmInfo_cost (load pre up user wb : Bool) :
    (ldmStmInfo opcode load pre up user wb).cycle =
        listLen (opcode.extractLsb' 0 16) + (if load then 2 else 1) ∧
      (ldmStmInfo opcode load pre up user wb).emitsBranch =
        ((load || user && !wb) && (opcode.extractLsb' 0 16).getLsbD 15 ||
          (wb || decide (opcode.extractLsb' 0 16 = 0)) && decide (opcodeReg opcode 16 = 15)) := by
  have hlist := isReserved_ofList_pc (opcode.extractLsb' 0 16)
  have hpcList : (if (RegReserve.ofList (opcode.extractLsb' 0 16)).isReserved .pc then
      RegReserve.ofList (opcode.extractLsb' 0 16) else .new).isReserved .pc =
        (opcode.extractLsb' 0 16).getLsbD 15 := by
    split
    · rfl
    · rename_i h
      rw [hlist, Bool.not_eq_true] at h
      rw [h, RegReserve.isReserved_new]
  have hbase := isReserved_when_field opcode (wb || decide (opcode.extractLsb' 0 16 = 0)) 16
  rw [← isEmpty_ofList] at hbase ⊢
  refine ⟨rfl, (emitsBranch_alu rfl ?_ ?_).trans ?_⟩
  · cases load <;> rfl
  · cases load <;> rfl
  · unfold ldmStmInfo
    cases load <;> cases user <;> cases wb <;>
      simp only [infoOf, InstInfo.new, Bool.false_eq_true, if_false, if_true, Bool.not_true,
        Bool.not_false, Bool.and_true, Bool.and_false, Bool.true_and, Bool.false_and, Bool.or_true,
        Bool.or_false, Bool.true_or, Bool.false_or, RegReserve.isReserved_add] at hbase ⊢
    all_goals first | exact hbase | rw [hpcList, hbase] | rw [hlist, hbase]

/-- A block load is a branch when its list is empty or has the pc. -/
theorem ldmStmOutcome_cost (load : Bool) (rn : Fin 16) (regList : BitVec 16) :
    (ldmStmOutcome load rn regList).cycles = listLen regList + (if load then 2 else 1) ∧
      (ldmStmOutcome load rn regList).taken =
        (load && (decide (regList = 0) || regList.getLsbD 15)) := by
  unfold ldmStmOutcome
  by_cases hempty : regList = 0
  · rw [if_pos hempty, hempty]
    cases load <;> exact ⟨rfl, rfl⟩
  · rw [if_neg hempty, decide_eq_false hempty]
    cases load with
    | false => exact ⟨rfl, rfl⟩
    | true =>
        cases hpc : regList.getLsbD 15 with
        | false => exact ⟨rfl, rfl⟩
        | true =>
            simp only [if_true]
            split <;> exact ⟨rfl, rfl⟩

/-- **A handler of ARM** costs what the disassembler says, and branches where the compiled code
does, but for the odd ones. -/
theorem armFn_cost (hnv : condCode opcode ≠ 15) (hdecode : (armInfo opcode).endsDecode = false)
    (hwords : (armFn opcode).twoWords = false) (swiEnd : SwiEnd) :
    ∃ o, (armFn opcode).outcome opcode swiEnd = some o ∧ o.cycles = (armInfo opcode).cycle ∧
      o.taken = ((armInfo opcode).emitsBranch != (armFn opcode).oddBranch opcode swiEnd) := by
  have hcond : opcode.extractLsb' 28 4 ≠ 0xF := hnv
  unfold armInfo at hdecode ⊢
  cases hfn : armFn opcode with
  | alu f form =>
      obtain ⟨hcycle, hemits⟩ := aluInfo_cost opcode f form
      simp only [hcycle, hemits]
      cases f with
      | test t => exact ⟨_, rfl, rfl, rfl⟩
      | op o =>
          refine ⟨_, rfl, ?_⟩
          by_cases hrd : opcodeRd opcode = 15
          · simp only [if_pos hrd, aluPcOutcome]
            split <;> simp [Outcome.cycles, Outcome.taken, ArmFn.oddBranch, hrd]
          · simp [Outcome.cycles, Outcome.taken, ArmFn.oddBranch, hrd]
  | ldrStr load byte addr up offk =>
      obtain ⟨hcycle, hemits⟩ := ldrStrInfo_cost opcode load byte addr up offk
      simp only [hcycle, hemits]
      cases load with
      | true =>
          refine ⟨_, rfl, ?_⟩
          rw [if_pos rfl]
          have hload := loadOutcome_cost opcode
            (opcodeReg opcode 16 = 13 ∨ offk ≠ .imm ∧ opcodeReg opcode 0 = 13)
          refine ⟨hload.1, hload.2.trans ?_⟩
          cases addr <;> cases hrd : decide (opcodeRd opcode = 15) <;>
            cases hbase : decide (opcodeReg opcode 16 = 15) <;>
            simp [ArmFn.oddBranch, hrd, hbase]
      | false =>
          refine ⟨_, rfl, rfl, ?_⟩
          cases addr <;> simp [Outcome.taken, ArmFn.oddBranch]
  | half kind addr up reg =>
      rw [hfn] at hwords
      obtain ⟨hcycle, hemits⟩ := halfInfo_cost opcode hwords addr up reg
      have hload := loadOutcome_cost opcode
        (opcodeReg opcode 16 = 13 ∨ reg ∧ opcodeReg opcode 0 = 13)
      have hstep : ∃ o, (ArmFn.half kind addr up reg).outcome opcode swiEnd = some o ∧
          o.cycles = (if kind.isStore then 2 else 3) ∧
          o.taken = (!kind.isStore && decide (opcodeRd opcode = 15)) := by
        cases kind with
        | ldrd => cases hwords
        | strd => cases hwords
        | strh => exact ⟨_, rfl, rfl, rfl⟩
        | ldrh => exact ⟨_, rfl, hload⟩
        | ldrsb => exact ⟨_, rfl, hload⟩
        | ldrsh => exact ⟨_, rfl, hload⟩
      obtain ⟨o, hout, hcycles, htaken⟩ := hstep
      refine ⟨o, hout, hcycles.trans hcycle.symm, ?_⟩
      simp only [htaken, hemits, ArmFn.oddBranch]
      cases decide (addr ≠ .offset) <;> cases decide (opcodeRd opcode = 15) <;>
        cases decide (opcodeReg opcode 16 = 15) <;> cases kind.isStore <;> rfl
  | ldmStm load pre up user wb =>
      obtain ⟨hcycle, hemits⟩ := ldmStmInfo_cost opcode load pre up user wb
      refine ⟨_, rfl, ?_⟩
      obtain ⟨hcycles, htaken⟩ := ldmStmOutcome_cost load (opcodeReg opcode 16)
        (opcode.extractLsb' 0 16)
      refine ⟨hcycles.trans hcycle.symm, htaken.trans ?_⟩
      rw [hemits]
      unfold ArmFn.oddBranch
      generalize opcode.extractLsb' 0 16 = regList
      by_cases hempty : regList = 0#16
      · cases load <;> cases user <;> cases wb <;> simp [hempty]
      · cases hpc : regList[15] <;> cases load <;> cases user <;> cases wb <;>
          simp [hempty, hpc]
  | undefined =>
      rw [hfn] at hdecode
      cases hdecode
  | mul32 s acc => cases acc <;> cases s <;> exact ⟨_, rfl, rfl, rfl⟩
  | mul64 s acc signed => cases acc <;> cases s <;> cases signed <;> exact ⟨_, rfl, rfl, rfl⟩
  | smlaXy x y => cases x <;> cases y <;> exact ⟨_, rfl, rfl, rfl⟩
  | smlawY y => cases y <;> exact ⟨_, rfl, rfl, rfl⟩
  | smulwY y => cases y <;> exact ⟨_, rfl, rfl, rfl⟩
  | smlalXy x y => cases x <;> cases y <;> exact ⟨_, rfl, rfl, rfl⟩
  | smulXy x y => cases x <;> cases y <;> exact ⟨_, rfl, rfl, rfl⟩
  | qalu double sub => cases double <;> cases sub <;> exact ⟨_, rfl, rfl, rfl⟩
  | clz | mcr | mrc | blxReg => exact ⟨_, rfl, rfl, rfl⟩
  | mrs spsr => cases spsr <;> exact ⟨_, rfl, rfl, rfl⟩
  | msrReg spsr => cases spsr <;> exact ⟨_, rfl, rfl, rfl⟩
  | msrImm spsr => cases spsr <;> exact ⟨_, rfl, rfl, rfl⟩
  | swp byte => cases byte <;> exact ⟨_, rfl, rfl, rfl⟩
  | bx =>
      refine ⟨_, rfl, ?_⟩
      split <;> exact ⟨rfl, rfl⟩
  | b =>
      simp only [branchInfo, if_neg hcond]
      exact ⟨_, rfl, rfl, rfl⟩
  | bl =>
      simp only [branchInfo, if_neg hcond]
      exact ⟨_, rfl, rfl, rfl⟩
  | swi => cases swiEnd <;> exact ⟨_, rfl, rfl, rfl⟩

end Arm

section Thumb

variable (opcode : BitVec 16)

theorem lowFieldReg_ne (lsb : ℕ) : lowFieldReg opcode lsb ≠ .pc :=
  fun h => lowReg_ne opcode lsb ((ofNum_eq_pc _).mp h)

theorem isReserved_ofRegs_pc (regs : List Reg) (h : Reg.pc ∉ regs) :
    (RegReserve.ofRegs regs).isReserved .pc = false := by
  rw [RegReserve.isReserved_ofRegs, decide_eq_false h]

/-- An instruction that is no branch by its operation ends in one when it names the pc as
written. -/
theorem ofThumb_cost {op : Op} (operands : List Operand) (srcRegs outRegs : RegReserve)
    (cycle : ℕ) (cpsr : BitVec 32) (hbranch : op.isBranch = false)
    (hop : (op.isAlu || op.isSingleMemTransfer || op.isMultipleMemTransfer) = true) :
    (InstInfo.ofThumb op operands srcRegs outRegs cycle).cycle = cycle ∧
      (InstInfo.ofThumb op operands srcRegs outRegs cycle).branches cpsr =
        outRegs.isReserved .pc := by
  unfold InstInfo.ofThumb
  rw [hbranch, if_neg Bool.false_ne_true]
  exact ⟨rfl, (Bool.true_and _).trans (emitsBranch_alu rfl hbranch hop)⟩

/-- The instructions of data processing branch when their high register is the pc. -/
theorem thumbAluInfo_cost (t : ThumbAlu) (cpsr : BitVec 32) :
    (thumbAluInfo opcode t).cycle = (if t = .mulDp then 4 else 1) ∧
      (thumbAluInfo opcode t).branches cpsr =
        ((t = .addH || t = .movH) && hiRd opcode = 15) := by
  have hd := (lowFieldReg_ne opcode 0).symm
  have hmid := (lowFieldReg_ne opcode 8).symm
  have hhigh : (RegReserve.ofRegs [Reg.ofNum (hiRd opcode)]).isReserved .pc =
      decide (hiRd opcode = 15) := by
    rw [RegReserve.isReserved_ofRegs]
    exact decide_eq_decide.mpr (List.mem_singleton.trans (eq_comm.trans (ofNum_eq_pc _)))
  cases t <;> refine (ofThumb_cost _ _ _ _ cpsr rfl rfl).imp id fun h => h.trans ?_ <;>
    first
    | exact hhigh
    | exact isReserved_ofRegs_pc _ (by simp [hd, hmid])

/-- Those of a transfer do not. -/
theorem thumbTransferInfo_cost (t : ThumbTransfer) {rd : Reg} (hrd : rd ≠ .pc)
    (operands : List Operand) (srcs : List Reg) (cpsr : BitVec 32) :
    (thumbTransferInfo t rd operands srcs).cycle = (if t.isStore then 2 else 3) ∧
      (thumbTransferInfo t rd operands srcs).branches cpsr = false := by
  refine (ofThumb_cost _ _ _ _ cpsr ?_ ?_).imp id fun h => h.trans ?_
  · cases t <;> rfl
  · cases t <;> rfl
  · rw [isReserved_when, decide_eq_false (by simpa using hrd.symm), Bool.and_false]

/-- Those of a block transfer do when they load the pc. -/
theorem thumbBlockInfo_cost (load pre add : Bool) {base : Reg} (hbase : base ≠ .pc)
    (rlist : RegReserve) (count : ℕ) (cpsr : BitVec 32) :
    (thumbBlockInfo load pre add base rlist count).cycle = count + (if load then 2 else 1) ∧
      (thumbBlockInfo load pre add base rlist count).branches cpsr =
        (load && rlist.isReserved .pc) := by
  have hout := isReserved_ofRegs_pc [base] (by simpa using hbase.symm)
  refine (ofThumb_cost _ _ _ _ cpsr ?_ ?_).imp id fun h => h.trans ?_
  · cases load <;> rfl
  · cases load <;> rfl
  · cases load with
    | false => exact hout
    | true =>
        rw [if_pos rfl, RegReserve.isReserved_add, hout, Bool.or_false, Bool.true_and]

/-- A register list of Thumb has no pc. -/
theorem isReserved_list8_pc (list : BitVec 8) :
    (RegReserve.ofList (list.setWidth 16)).isReserved .pc = false := by
  simp [isReserved_ofList_pc]

/-- A conditional branch is taken as its closure says. -/
theorem bcondInfo_branches (cond : Cond) (operands : List Operand) (srcRegs outRegs : RegReserve)
    (cpsr : BitVec 32) :
    (InstInfo.ofThumb (bcondOp cond) operands srcRegs outRegs 1).branches cpsr =
      bcondTaken cond cpsr := by
  have hbcond {c : Cond} (h : c ∈ bconds) : bcondTaken c cpsr = (c.holds cpsr && true) := by
    rw [Bool.and_true, bcondTaken_eq cpsr h]
  cases cond with
  | al => exact (hbcond (c := .le) (by decide)).symm
  | nv => exact (hbcond (c := .le) (by decide)).symm
  | _ => exact (hbcond (by simp [bconds, InstInfo.ofThumb, bcondOp, Op.isBranch,
      InstInfo.getBranchCond])).symm

/-- **A handler of Thumb** costs what the disassembler says, and branches where the compiled code
does, but for the odd ones. -/
theorem thumbFn_cost (ctx : StepContext) (hdecode : (thumbInfo opcode).endsDecode = false) :
    ∃ o, (thumbFn opcode).outcome opcode ctx = some o ∧ o.cycles = (thumbInfo opcode).cycle ∧
      o.taken = ((thumbInfo opcode).branches ctx.cpsr !=
        (thumbFn opcode).oddBranch opcode ctx.swiEnd) := by
  have hmid := lowFieldReg_ne opcode 8
  have hrd := lowFieldReg_ne opcode 0
  have hpush (rlist : RegReserve) (count : ℕ) :=
    thumbBlockInfo_cost false true false (show Reg.sp ≠ .pc by decide) rlist count ctx.cpsr
  have hpop (rlist : RegReserve) (count : ℕ) :=
    thumbBlockInfo_cost true false true (show Reg.sp ≠ .pc by decide) rlist count ctx.cpsr
  have hlist := isReserved_list8_pc (opcode.extractLsb' 0 8)
  unfold thumbInfo at hdecode ⊢
  cases hfn : thumbFn opcode with
  | alu t =>
      obtain ⟨hcycle, hbranches⟩ := thumbAluInfo_cost opcode t ctx.cpsr
      simp only [hcycle, hbranches]
      cases t with
      | addH =>
          refine ⟨_, rfl, ?_⟩
          by_cases hd : hiRd opcode = 15 <;>
            simp [hd, Outcome.cycles, Outcome.taken, ThumbFn.oddBranch]
      | movH =>
          refine ⟨_, rfl, ?_⟩
          by_cases hd : hiRd opcode = 15 <;> by_cases hs : hiRs opcode = 14 <;>
            simp [hd, hs, Outcome.cycles, Outcome.taken, ThumbFn.oddBranch]
      | _ => exact ⟨_, rfl, rfl, rfl⟩
  | ldrPc =>
      obtain ⟨hcycle, hbranches⟩ := thumbTransferInfo_cost .ldr hmid
        [.reg .pc none, immField opcode 0 8 2] [.pc] ctx.cpsr
      exact ⟨_, rfl, hcycle.symm, by rw [hbranches]; rfl⟩
  | ldrSp =>
      obtain ⟨hcycle, hbranches⟩ := thumbTransferInfo_cost .ldr hmid
        [.reg .sp none, immField opcode 0 8 2] [.sp] ctx.cpsr
      exact ⟨_, rfl, hcycle.symm, by rw [hbranches]; rfl⟩
  | strSp =>
      obtain ⟨hcycle, hbranches⟩ := thumbTransferInfo_cost .str hmid
        [.reg .sp none, immField opcode 0 8 2] [.sp] ctx.cpsr
      exact ⟨_, rfl, hcycle.symm, by rw [hbranches]; rfl⟩
  | reg t =>
      obtain ⟨hcycle, hbranches⟩ := thumbTransferInfo_cost t hrd
        [.reg (lowFieldReg opcode 3) none, .reg (lowFieldReg opcode 6) none]
        [lowFieldReg opcode 3, lowFieldReg opcode 6] ctx.cpsr
      simp only [hcycle, hbranches]
      cases t <;> exact ⟨_, rfl, rfl, rfl⟩
  | imm5 t =>
      obtain ⟨hcycle, hbranches⟩ := thumbTransferInfo_cost t hrd
        [.reg (lowFieldReg opcode 3) none, immField opcode 6 5 t.shape.2.toNat]
        [lowFieldReg opcode 3] ctx.cpsr
      simp only [hcycle, hbranches]
      cases t <;> exact ⟨_, rfl, rfl, rfl⟩
  | push =>
      exact ⟨_, rfl, (Nat.add_comm _ _).trans (hpush _ _).1.symm, by rw [(hpush _ _).2]; rfl⟩
  | pushLr =>
      exact ⟨_, rfl, (Nat.add_comm _ _).trans (hpush _ _).1.symm, by rw [(hpush _ _).2]; rfl⟩
  | pop => exact ⟨_, rfl, (hpop _ _).1.symm, by rw [(hpop _ _).2, hlist]; rfl⟩
  | popPc =>
      refine ⟨_, rfl, (hpop _ _).1.symm, ?_⟩
      rw [(hpop _ _).2, RegReserve.isReserved_add, hlist]
      rfl
  | stmia =>
      have hcost (rlist : RegReserve) (count : ℕ) :=
        thumbBlockInfo_cost false false true hmid rlist count ctx.cpsr
      exact ⟨_, rfl, (Nat.add_comm _ _).trans (hcost _ _).1.symm, by rw [(hcost _ _).2]; rfl⟩
  | ldmia =>
      have hcost (rlist : RegReserve) (count : ℕ) :=
        thumbBlockInfo_cost true false true hmid rlist count ctx.cpsr
      refine ⟨_, rfl, ?_⟩
      simp only [(hcost _ _).1, (hcost _ _).2, hlist]
      by_cases hempty : opcode.extractLsb' 0 8 = 0
      · rw [if_pos hempty, hempty]
        exact ⟨rfl, by simp [Outcome.taken, ThumbFn.oddBranch, hempty]⟩
      · rw [if_neg hempty]
        exact ⟨rfl, by simpa [Outcome.taken, ThumbFn.oddBranch] using hempty⟩
  | bcond cond =>
      refine ⟨_, rfl, ?_, ?_⟩
      · cases cond <;> simp only <;> split <;> rfl
      · rw [bcondInfo_branches]
        cases bcondTaken cond ctx.cpsr <;> rfl
  | bxReg =>
      refine ⟨_, rfl, ?_⟩
      split <;> exact ⟨rfl, rfl⟩
  | undefined =>
      rw [hfn] at hdecode
      cases hdecode
  | swi =>
      obtain ⟨cpsr, swiEnd⟩ := ctx
      cases swiEnd <;> exact ⟨_, rfl, rfl, rfl⟩
  | _ => exact ⟨_, rfl, rfl, rfl⟩

end Thumb

/-! ### Both engines -/

namespace GuestInst

/-- Both engines charge the same: one cycle where the interpreter skips, no transfer of two words,
and the branch in one engine only where the compiled block ends. -/
def CostsAgree (inst : GuestInst) (ctx : StepContext) (fallsThrough : Bool) : Prop :=
  (inst.skips ctx = true → inst.info.cycle = 1) ∧
    (inst.skips ctx = false → inst.twoWords = false) ∧ inst.oddBranch ctx = fallsThrough

instance (inst : GuestInst) (ctx : StepContext) (fallsThrough : Bool) :
    Decidable (inst.CostsAgree ctx fallsThrough) :=
  inferInstanceAs (Decidable (_ ∧ _ ∧ _))

variable (ctx : StepContext)

/-- The charge of a handler that costs what the disassembler says. -/
theorem charge_eq_iff_of_cost {o : Outcome} {cycle : ℕ} {branches odd fallsThrough : Bool}
    (hcycles : o.cycles = cycle) (htaken : o.taken = (branches != odd))
    (hfalls : fallsThrough = true → branches = false) :
    o.charge = cycle + (if fallsThrough || branches then 2 else 0) ↔ odd = fallsThrough := by
  unfold Outcome.charge
  rw [hcycles, htaken]
  cases branches <;> cases odd <;> cases fallsThrough <;> simp at hfalls ⊢

/-- A transfer of two words is one cycle in the interpreter, and more in the disassembler. -/
theorem twoWords_cost {opcode : BitVec 32} (hdecode : (armInfo opcode).endsDecode = false)
    (hwords : (armFn opcode).twoWords = true) (swiEnd : SwiEnd) :
    ∃ o, (armFn opcode).outcome opcode swiEnd = some o ∧ o.charge = 1 ∧
      2 ≤ (armInfo opcode).cycle := by
  unfold armInfo at hdecode ⊢
  cases hfn : armFn opcode with
  | half kind addr up reg =>
      rw [hfn] at hwords hdecode
      have hmem {write writeBack : Bool} {op : Op} {operand2 : Operand} {regs : List Reg}
          (h : (memTransfer opcode write writeBack true op operand2 regs).endsDecode = false) :
          2 ≤ (memTransfer opcode write writeBack true op operand2 regs).cycle := by
        unfold memTransfer at h ⊢
        split at h
        · cases h
        · rename_i hpair
          rw [if_neg hpair]
          show 2 ≤ if write then 2 else 3
          split <;> decide
      cases kind with
      | ldrd => exact ⟨_, rfl, rfl, hmem hdecode⟩
      | strd => exact ⟨_, rfl, rfl, hmem hdecode⟩
      | _ => cases hwords
  | _ =>
      rw [hfn] at hwords
      cases hwords

/-- **One instruction of ARM** costs the same in both engines under the condition. -/
theorem charge_eq_iff_arm (opcode : BitVec 32) (hdecode : (armInfo opcode).endsDecode = false)
    {fallsThrough : Bool}
    (hfalls : fallsThrough = true → (armInfo opcode).branches ctx.cpsr = false) :
    ∃ o, (arm opcode).outcome ctx = some o ∧
      (o.charge = (armInfo opcode).cycle +
          (if fallsThrough || (armInfo opcode).branches ctx.cpsr then 2 else 0) ↔
        (arm opcode).CostsAgree ctx fallsThrough) ∧
      ((arm opcode).CostsAgree ctx fallsThrough → o.cycles = (armInfo opcode).cycle) := by
  have hskipped (hskip : skipped opcode ctx.cpsr = true) :
      (arm opcode).outcome ctx = some (.continueNext 1) := if_pos hskip
  by_cases hnv : condCode opcode = 15
  · have hskip := skipped_nv opcode ctx.cpsr hnv
    obtain ⟨hcycle, hbranches⟩ := armInfo_nv opcode hnv hdecode ctx.cpsr
    refine ⟨_, hskipped hskip, ?_, fun _ => hcycle.symm⟩
    have hodd : (arm opcode).oddBranch ctx = true := if_pos hnv
    rw [hbranches] at hfalls
    unfold CostsAgree
    rw [hcycle, hbranches, hodd]
    cases fallsThrough
    · simp [Outcome.charge, Outcome.cycles, Outcome.taken]
    · exact absurd (hfalls rfl) Bool.noConfusion
  · have hbranches : (armInfo opcode).branches ctx.cpsr =
        (!skipped opcode ctx.cpsr && (armInfo opcode).emitsBranch) := by
      rw [InstInfo.branches, armInfo_cond opcode (.inl hnv), skipped_eq opcode ctx.cpsr hnv,
        Bool.not_not]
    have hodd : (arm opcode).oddBranch ctx =
        (!skipped opcode ctx.cpsr && (armFn opcode).oddBranch opcode ctx.swiEnd) := if_neg hnv
    cases hskip : skipped opcode ctx.cpsr with
    | true =>
        -- a condition that fails: one cycle against the whole of the static ones
        have hskips : (arm opcode).skips ctx = true := hskip
        have hinfo : (arm opcode).info = armInfo opcode := rfl
        refine ⟨_, hskipped hskip, ?_, fun h => (h.1 hskips).symm⟩
        rw [hskip] at hbranches hodd
        unfold CostsAgree
        rw [hbranches, hodd, hskips, hinfo]
        have hone : (Outcome.continueNext 1).charge = 1 := rfl
        cases fallsThrough
        · simp [hone]
          exact eq_comm
        · simp [hone]
    | false =>
        have hskips : (arm opcode).skips ctx = false := hskip
        have hout : (arm opcode).outcome ctx = (armFn opcode).outcome opcode ctx.swiEnd :=
          if_neg (by rw [hskip]; exact Bool.false_ne_true)
        rw [hskip] at hbranches hodd
        cases hwords : (armFn opcode).twoWords with
        | false =>
            obtain ⟨o, ho, hcycles, htaken⟩ := armFn_cost opcode hnv hdecode hwords ctx.swiEnd
            refine ⟨o, hout.trans ho, ?_, fun _ => hcycles⟩
            have htaken' : o.taken =
                ((armInfo opcode).branches ctx.cpsr != (arm opcode).oddBranch ctx) := by
              rw [htaken, hbranches, hodd]
              rfl
            refine (charge_eq_iff_of_cost hcycles htaken' hfalls).trans ?_
            exact ⟨fun h => ⟨fun hs => absurd (hs.symm.trans hskips) Bool.noConfusion,
              fun _ => hwords, h⟩, fun h => h.2.2⟩
        | true =>
            obtain ⟨o, ho, hcharge, hcycle⟩ := twoWords_cost hdecode hwords ctx.swiEnd
            have hnot : ¬ (arm opcode).CostsAgree ctx fallsThrough :=
              fun h => absurd (hwords.symm.trans (h.2.1 hskips)) Bool.noConfusion
            exact ⟨o, hout.trans ho, iff_of_false (by omega) hnot, fun h => absurd h hnot⟩

/-- **One instruction** costs the same in both engines under the condition. -/
theorem charge_eq_iff (inst : GuestInst) (hdecode : inst.info.endsDecode = false)
    {fallsThrough : Bool}
    (hfalls : fallsThrough = true → inst.info.branches ctx.cpsr = false) :
    ∃ o, inst.outcome ctx = some o ∧
      (o.charge = inst.info.cycle +
          (if fallsThrough || inst.info.branches ctx.cpsr then 2 else 0) ↔
        inst.CostsAgree ctx fallsThrough) ∧
      (inst.CostsAgree ctx fallsThrough → o.cycles = inst.info.cycle) := by
  cases inst with
  | arm opcode => exact charge_eq_iff_arm ctx opcode hdecode hfalls
  | thumb opcode =>
      obtain ⟨o, hout, hcycles, htaken⟩ := thumbFn_cost opcode ctx hdecode
      refine ⟨o, hout, (charge_eq_iff_of_cost hcycles htaken hfalls).trans ?_, fun _ => hcycles⟩
      exact ⟨fun hodd => ⟨Bool.noConfusion, fun _ => rfl, hodd⟩, fun h => h.2.2⟩

end GuestInst

/-! ## Blocks -/

namespace JitBuf

variable {insts : ℕ → GuestInst} {buf : JitBuf}

/-- The buffer holds the first instructions of a sequence, with the sums of their cycles. -/
structure Filled (insts : ℕ → GuestInst) (buf : JitBuf) : Prop where
  insts_eq : buf.insts = (List.range buf.insts.length).map fun k => (insts k).info
  cycleCounts_eq : buf.cycleCounts = (List.range buf.insts.length).map fun k =>
    ∑ i ∈ Finset.range (k + 1), (insts i).info.cycle
  decodes : ∀ k < buf.insts.length, (insts k).info.endsDecode = false

theorem push_length (buf : JitBuf) (inst : InstInfo) :
    (buf.push inst).insts.length = buf.insts.length + 1 := List.length_append

theorem Filled.empty : Filled insts ⟨[], []⟩ :=
  ⟨rfl, rfl, fun _ hk => absurd hk (Nat.not_lt_zero _)⟩

/-- The next instruction of the sequence is pushed. -/
theorem Filled.push (h : Filled insts buf)
    (hdecode : (insts buf.insts.length).info.endsDecode = false) :
    Filled insts (buf.push (insts buf.insts.length).info) := by
  obtain ⟨hinsts, hcounts, hdecodes⟩ := h
  have hlength := push_length buf (insts buf.insts.length).info
  have hlast : buf.cycleCounts.getLast?.getD 0 =
      ∑ i ∈ Finset.range buf.insts.length, (insts i).info.cycle := by
    rw [hcounts]
    cases buf.insts.length with
    | zero => rfl
    | succ n => simp [List.range_succ]
  constructor
  · rw [hlength, List.range_succ, List.map_append, ← hinsts]
    rfl
  · rw [hlength, List.range_succ, List.map_append, ← hcounts]
    show buf.cycleCounts ++ [buf.cycleCounts.getLast?.getD 0 + _] = _
    rw [hlast, ← Finset.sum_range_succ fun i => (insts i).info.cycle]
    rfl
  · intro k hk
    rw [hlength] at hk
    rcases Nat.lt_succ_iff_lt_or_eq.mp hk with hlt | rfl
    · exact hdecodes k hlt
    · exact hdecode

end JitBuf

/-- The instructions of the guest from an address on. -/
def GuestCode.instsFrom (code : GuestCode) (thumb : Bool) (guestPc : BitVec 32) (k : ℕ) :
    GuestInst :=
  code.inst thumb (instPc guestPc thumb k)

theorem instPc_succ (startPc : BitVec 32) (thumb : Bool) (k : ℕ) :
    instPc startPc thumb (k + 1) = instPc startPc thumb k + if thumb then 2 else 4 := by
  unfold instPc pcShift
  rw [BitVec.add_assoc]
  congr 1
  apply BitVec.eq_of_toNat_eq
  cases thumb <;> simp [BitVec.toNat_add, BitVec.toNat_shiftLeft, Nat.shiftLeft_eq] <;> omega

section Decode

variable {code : GuestCode} {thumb untilBx : Bool} {guestPc : BitVec 32}

/-- The loop fills the buffer. -/
theorem fillLoop_filled {fuel : ℕ} {pc minAddr endPc : BitVec 32} {buf buf' : JitBuf}
    (hbuf : buf.Filled (code.instsFrom thumb guestPc))
    (hpc : pc = instPc guestPc thumb buf.insts.length)
    (h : fillLoop code thumb untilBx fuel pc minAddr buf = some (buf', endPc)) :
    buf'.Filled (code.instsFrom thumb guestPc) := by
  induction fuel generalizing pc minAddr buf with
  | zero => cases h
  | succ fuel ih =>
      have hinst : code.inst thumb pc = code.instsFrom thumb guestPc buf.insts.length := by
        rw [hpc]
        rfl
      rw [fillLoop, hinst] at h
      simp only at h
      split at h
      · obtain ⟨rfl, -⟩ := Prod.mk.inj (Option.some.inj h)
        exact hbuf
      · rename_i hdecode
        have hpush := hbuf.push (Bool.eq_false_of_not_eq_true hdecode)
        split at h
        · obtain ⟨rfl, -⟩ := Prod.mk.inj (Option.some.inj h)
          exact hpush
        · refine ih hpush ?_ h
          rw [hpc, ← instPc_succ]
          rw [JitBuf.push_length]

/-- **A block** holds the instructions from its address on. -/
theorem fillJitInstsBuf_filled {fuel : ℕ} {endPc : BitVec 32} {buf : JitBuf}
    (h : fillJitInstsBuf code thumb untilBx fuel guestPc = some (buf, endPc)) :
    buf.Filled (code.instsFrom thumb guestPc) := by
  refine fillLoop_filled .empty ?_ h
  show guestPc = guestPc + BitVec.ofNat 32 0 <<< pcShift thumb
  rw [BitVec.zero_shiftLeft, BitVec.add_zero]

end Decode

namespace JitBuf

variable {insts : ℕ → GuestInst} {buf : JitBuf} (h : Filled insts buf) {i : ℕ}

section Filled

include h

theorem Filled.getElem? (hi : i < buf.insts.length) : buf.insts[i]? = some (insts i).info := by
  rw [h.insts_eq, List.getElem?_map, List.getElem?_range hi]
  rfl

theorem Filled.cycle_eq (hi : i < buf.insts.length) : buf.cycle i = (insts i).info.cycle := by
  rw [cycle, h.getElem? hi]
  rfl

theorem Filled.count_eq (hi : i < buf.insts.length) :
    buf.count i = ∑ k ∈ Finset.range (i + 1), (insts k).info.cycle := by
  rw [count, h.cycleCounts_eq, List.getElem?_map, List.getElem?_range hi]
  rfl

/-- Where control leaves the block. -/
theorem Filled.leaves_eq (hi : i < buf.insts.length) (cpsr : BitVec 32) :
    buf.leaves i cpsr = (buf.fallsThrough i cpsr || (insts i).info.branches cpsr) := by
  rw [leaves, h.getElem? hi]
  rfl

/-- The end of the block is not reached by a branch. -/
theorem Filled.branches_of_fallsThrough (hi : i < buf.insts.length) {cpsr : BitVec 32}
    (hfalls : buf.fallsThrough i cpsr = true) : (insts i).info.branches cpsr = false := by
  rw [fallsThrough, h.getElem? hi] at hfalls
  simp only [Bool.and_eq_true, Bool.not_eq_true'] at hfalls
  exact hfalls.2

/-- **The charge of a block** from an entry on is the sum of the cycles, 2 more where control
leaves it. -/
theorem Filled.flushCycles_eq (first n : ℕ) (hi : first + n < buf.insts.length)
    (cpsr : BitVec 32) :
    buf.flushCycles first (first + n) cpsr =
      ∑ k ∈ Finset.range (n + 1), (insts (first + k)).info.cycle +
        if buf.fallsThrough (first + n) cpsr || (insts (first + n)).info.branches cpsr then 2
        else 0 := by
  have hfirst : first < buf.insts.length := by omega
  rw [flushCycles, h.count_eq hi, h.count_eq hfirst, h.cycle_eq hfirst, h.leaves_eq hi,
    Nat.add_assoc, Finset.sum_range_add, Finset.sum_range_succ _ first]
  omega

end Filled

end JitBuf

/-! ## Runs -/

/-- What the interpreter adds up over the first instructions of a run. -/
def interpretedCycles (insts : ℕ → GuestInst) (ctx : ℕ → StepContext) (n : ℕ) : ℕ :=
  ∑ k ∈ Finset.range n, ((insts k).outcome (ctx k)).elim 0 Outcome.charge

/-- What a compiled block charges, entered at `first`, when the run ends behind them. -/
def compiledCycles (buf : JitBuf) (first : ℕ) (ctx : ℕ → StepContext) : ℕ → ℕ
  | 0 => 0
  | n + 1 => buf.flushCycles first (first + n) (ctx n).cpsr

/-- No instruction before the last one hands control on. -/
def StraightRun (insts : ℕ → GuestInst) (ctx : ℕ → StepContext) (len : ℕ) : Prop :=
  ∀ k, k + 1 < len → ∀ o, (insts k).outcome (ctx k) = some o → o.taken = false

section Runs

variable {insts : ℕ → GuestInst} {buf : JitBuf} {first len : ℕ} {ctx : ℕ → StepContext}

/-- **A step of a run**: behind instructions that cost the same, the next one does when its
condition holds. -/
theorem cycles_succ_iff (hbuf : buf.Filled insts) (hlen : first + len ≤ buf.insts.length)
    (hstraight : StraightRun (fun k => insts (first + k)) ctx len) {n : ℕ} (hn : n < len)
    (hbefore : ∀ k < n, (insts (first + k)).CostsAgree (ctx k)
      (buf.fallsThrough (first + k) (ctx k).cpsr)) :
    interpretedCycles (fun k => insts (first + k)) ctx (n + 1) =
        compiledCycles buf first ctx (n + 1) ↔
      (insts (first + n)).CostsAgree (ctx n) (buf.fallsThrough (first + n) (ctx n).cpsr) := by
  have hstep (k : ℕ) (hk : k < len) :=
    (insts (first + k)).charge_eq_iff (ctx k) (hbuf.decodes (first + k) (by omega))
      (hbuf.branches_of_fallsThrough (by omega))
  have hsum : interpretedCycles (fun k => insts (first + k)) ctx n =
      ∑ k ∈ Finset.range n, (insts (first + k)).info.cycle := by
    refine Finset.sum_congr rfl fun k hk => ?_
    have hkn := Finset.mem_range.mp hk
    obtain ⟨o, hout, -, hcycles⟩ := hstep k (by omega)
    have htaken := hstraight k (by omega) o hout
    show ((insts (first + k)).outcome (ctx k)).elim 0 Outcome.charge = _
    rw [hout, ← hcycles (hbefore k hkn)]
    show o.charge = o.cycles
    rw [Outcome.charge, htaken]
    rfl
  obtain ⟨o, hout, hcharge, -⟩ := hstep n hn
  rw [← hcharge, interpretedCycles, Finset.sum_range_succ, ← interpretedCycles, hsum, hout,
    compiledCycles, hbuf.flushCycles_eq first n (by omega), Finset.sum_range_succ, Nat.add_assoc]
  exact Nat.add_left_cancel_iff

/-- The code of one opcode, and a return behind it. -/
def returningCode (opcode : BitVec 32) : GuestCode where
  half _ := 0
  word pc := if pc = 0x08000000 then opcode else 0xE12FFF1E

/-- A block of one opcode and a return. -/
def returningBuf (opcode : BitVec 32) : JitBuf :=
  (JitBuf.push ⟨[], []⟩ (armInfo opcode)).push (armInfo 0xE12FFF1E)

end Runs

end AdvancedSlop
