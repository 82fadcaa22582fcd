/-
# Idle loops

`is_idle_loop` accepts a loop by the registers its instructions name as read and written: what it
takes for a second pass to do what the first one did.

* `iterate` : a pass through a loop, from its first instruction back to it;
* `tree_readsOnly` : instructions read the registers the disassembler names;
* `idleScan_unwritten` : a register that is read first is not named as written;
* `idle_loop_law` : the loops that stay the same.
-/
import AdvancedSlop.GuestTree

namespace AdvancedSlop

open ReadTree

attribute [local instance] neZero_regs

/-! ## A pass through a loop -/

/-- A test or a comparison. -/
def ArmFn.isTest : ArmFn → Bool
  | .alu (.test _) _ => true
  | _ => false

/-- The registers behind a handler of data processing. -/
def ArmFn.regsAfter (fn : ArmFn) (opcode instAddr : BitVec 32) (regs : ThreadRegs) : ThreadRegs :=
  match fn with
  | .alu f form => (f.step form opcode instAddr regs).1
  | _ => regs

namespace GuestInst

/-- A comparison with the pc as destination puts back the saved status register, where the mode has
one. -/
def restores (inst : GuestInst) (regs : ThreadRegs) : Bool :=
  match inst with
  | arm opcode => !skipped opcode regs.cpsr && (armFn opcode).isTest && opcodeRd opcode = 15 &&
      !regs.isUser
  | thumb _ => false

/-- The registers behind such a comparison. -/
def restored (inst : GuestInst) (instAddr : BitVec 32) (regs : ThreadRegs) : ThreadRegs :=
  match inst with
  | arm opcode => (armFn opcode).regsAfter opcode instAddr regs
  | thumb _ => regs

/-- An instruction that goes on behind itself: the registers after it, and its loads. -/
def step (m : Reader) (instAddr : BitVec 32) (inst : GuestInst) (regs : ThreadRegs) :
    Option (ThreadRegs × List Load) :=
  if inst.restores regs then some (inst.restored instAddr regs, [])
  else
    let r := (inst.tree regs.isUser regs.isFiq instAddr).out regs.view m
    r.1.map fun ws => (regs.putAll ws, r.2)

/-- Where a branch without a link leads, when it is taken. -/
def branchTarget (instAddr cpsr : BitVec 32) : GuestInst → Option (BitVec 32)
  | arm opcode =>
      if armFn opcode = .b ∧ skipped opcode cpsr = false then
        some ((instAddr + 8 + (opcode <<< 8).sshiftRight 6) &&& ~~~3)
      else none
  | thumb opcode =>
      match thumbFn opcode with
      | .bcond cond =>
          if bcondTaken cond cpsr then
            some (instAddr + 4 + ((opcode.extractLsb' 0 8).signExtend 32 <<< 1))
          else none
      | _ => none

end GuestInst

section Pass

variable (m : Reader) (thumb : Bool)

/-- The size of an instruction. -/
def pcStep : BitVec 32 := if thumb then 2 else 4

/-- The instructions of a loop but the last one, from an address on. -/
def runBody : BitVec 32 → List GuestInst → ThreadRegs → Option (ThreadRegs × List Load)
  | _, [], regs => some (regs, [])
  | pc, inst :: insts, regs =>
      (inst.step m pc regs).bind fun r =>
        (runBody (pc + pcStep thumb) insts r.1).map fun r' => (r'.1, r.2 ++ r'.2)

/-- **A pass through a loop**: its body, and the branch that is taken back to its start. -/
def iterate (start : BitVec 32) (insts : List GuestInst) (regs : ThreadRegs) :
    Option (ThreadRegs × List Load) :=
  (runBody m thumb start insts.dropLast regs).bind fun r =>
    if (insts.getLast?.bind (GuestInst.branchTarget (instPc start thumb (insts.length - 1))
        r.1.cpsr)) = some start then some r
    else none

/-- The instructions as trees. -/
def bodyTrees (user fiq : Bool) : BitVec 32 → List GuestInst → List InstTree
  | _, [] => []
  | pc, inst :: insts => inst.tree user fiq pc :: bodyTrees user fiq (pc + pcStep thumb) insts

/-- The locations an instruction writes. -/
def GuestInst.writes (pc : BitVec 32) (inst : GuestInst) (regs : ThreadRegs) : List Loc :=
  (((inst.tree regs.isUser regs.isFiq pc).eval regs.view m).map locs).getD []

/-! ### The condition -/

/-- No comparison of the pass puts back the saved status register. -/
def KeepsMode : BitVec 32 → List GuestInst → ThreadRegs → Prop
  | _, [], _ => True
  | pc, inst :: insts, regs =>
      inst.restores regs = false ∧
        ∀ r, inst.step m pc regs = some r → KeepsMode (pc + pcStep thumb) insts r.1

/-- Some instruction of the pass is not named as writing a register it writes, or is and does
not. -/
def Misdeclares (i : Fin 16) : BitVec 32 → List GuestInst → ThreadRegs → Prop
  | _, [], _ => False
  | pc, inst :: insts, regs =>
      inst.info.outRegs.isReserved (.ofNum i) ≠ decide (.reg i ∈ inst.writes m pc regs) ∨
        ∃ r, inst.step m pc regs = some r ∧ Misdeclares i (pc + pcStep thumb) insts r.1

/-- The locations a pass reads before it writes them. -/
def passReads (start : BitVec 32) (insts : List GuestInst) (regs : ThreadRegs) : List Loc :=
  entryReads m (bodyTrees thumb regs.isUser regs.isFiq start insts.dropLast) regs.view

/-- **What a pass carries over** from its entry: the mode is kept, and the flags, and the registers
that are not written as named, end with the value the pass found when it looked before writing. -/
structure CarriesOver (start : BitVec 32) (insts : List GuestInst) (regs regs' : ThreadRegs) :
    Prop where
  keepsMode : KeepsMode m thumb start insts.dropLast regs
  flags : ∀ i, .flag i ∈ passReads m thumb start insts regs →
    regs'.view (.flag i) = regs.view (.flag i)
  registers : ∀ i, .reg i ∈ passReads m thumb start insts regs →
    Misdeclares m thumb i start insts.dropLast regs → regs'.getReg i = regs.getReg i

end Pass

/-! ## The registers that are read -/

/-- The registers of a second operand. -/
def Operand2.regs : Operand2 → List (Fin 16)
  | .imm _ _ => []
  | .shiftImm rm _ _ => [rm]
  | .shiftReg rm _ rs => [rm, rs]

section Reads

variable {R : Type} {P : Loc → Prop} {pc : BitVec 32}

theorem readsOnly_readTree {i : Fin 16} {next : BitVec 32 → ReadTree Loc.Val Load.Val R}
    (hi : i ≠ 15 → P (.reg i)) (hnext : ∀ v, (next v).ReadsOnly P) :
    (readTree pc i next).ReadsOnly P := by
  unfold readTree
  split
  · exact hnext pc
  · exact ⟨hi ‹_›, hnext⟩

variable (hflag : ∀ i, P (.flag i))

include hflag

theorem readsOnly_condTree {cond : Cond} {next : Bool → ReadTree Loc.Val Load.Val R}
    (hnext : ∀ b, (next b).ReadsOnly P) : (cond.tree next).ReadsOnly P := by
  cases cond <;> simp only [Cond.tree, ReadsOnly, hflag, hnext, implies_true, and_self]

theorem readsOnly_operandTree {operand : Operand2}
    {next : BitVec 32 → Option Bool → ReadTree Loc.Val Load.Val R}
    (hregs : ∀ i ∈ operand.regs, i ≠ 15 → P (.reg i))
    (hnext : ∀ b c, (next b c).ReadsOnly P) : (operand.tree pc next).ReadsOnly P := by
  cases operand with
  | imm value rotate => exact hnext _ _
  | shiftImm rm kind amount =>
      refine readsOnly_readTree (hregs rm List.mem_cons_self) fun x => ?_
      split_ifs
      · exact hnext _ _
      · exact ⟨hflag _, fun c => hnext _ _⟩
      · exact hnext _ _
  | shiftReg rm kind rs =>
      refine readsOnly_readTree (hregs rm List.mem_cons_self) fun x => ?_
      exact readsOnly_readTree (hregs rs (by simp [Operand2.regs])) fun s => hnext _ _

/-- An instruction of data processing reads its operands. -/
theorem readsOnly_dataTree {inst : DataInst} {user : Bool}
    (hfirst : inst.op.usesFirst = true → inst.rn ≠ 15 → P (.reg inst.rn))
    (hregs : ∀ i ∈ inst.operand.regs, i ≠ 15 → P (.reg i)) :
    (inst.tree user pc).ReadsOnly P := by
  refine readsOnly_operandTree hflag hregs fun b shiftCarry => ?_
  have hcarry (a : BitVec 32) : (if inst.op.usesCarry then
      (.read (.flag .c) fun c => .done (inst.writes user a b c shiftCarry) : InstTree)
      else .done (inst.writes user a b false shiftCarry)).ReadsOnly P := by
    split
    · exact ⟨hflag _, fun c => trivial⟩
    · trivial
  by_cases hf : inst.op.usesFirst = true
  · simp only [DataInst.firstTree, if_pos hf]
    exact readsOnly_readTree (hfirst hf) hcarry
  · simp only [DataInst.firstTree, if_neg hf]
    exact hcarry 0

end Reads

/-- The register is named as read; a register of the user bank behind the mode never is. -/
def InstInfo.NamesRead (info : InstInfo) : Loc → Prop
  | .reg i => i ≠ 15 ∧ info.srcRegs.isReserved (.ofNum i) = true
  | .flag _ => True
  | .usr _ => False

section Arm

variable {opcode : BitVec 32}

theorem namesRead_infoOf {op : Op} {operands : List Operand} {srcRegs outRegs : RegReserve}
    {cycle : ℕ} {i : Fin 16} (h : srcRegs.isReserved (.ofNum i) = true) (h15 : i ≠ 15) :
    (infoOf opcode op operands srcRegs outRegs cycle).NamesRead (.reg i) := by
  refine ⟨h15, ?_⟩
  show (if _ then srcRegs.reserve .cpsr else srcRegs).isReserved _ = true
  split
  · rw [RegReserve.isReserved_reserve, h, Bool.true_or]
  · exact h

/-- The registers an instruction is made of. -/
theorem isReserved_list {regs : List Reg} {lsb : ℕ} (h : fieldReg opcode lsb ∈ regs) :
    (RegReserve.ofRegs regs).isReserved (.ofNum (opcodeReg opcode lsb)) = true := by
  rw [RegReserve.isReserved_ofRegs]
  exact decide_eq_true h

/-- The operand of the disassembler names the registers of the architecture. -/
theorem operand_regs {op : DataOp} {s : Bool} {form : ShiftForm} {i : Fin 16}
    (hi : i ∈ (DataInst.ofClass opcode (op, s, form.operandClass)).operand.regs) :
    Reg.ofNum i ∈ (aluOperand opcode form).2.1 := by
  cases form <;>
    simp only [DataInst.ofClass, ShiftForm.operandClass, Operand2.regs, List.mem_cons,
      List.not_mem_nil, or_false, regField_eq] at hi <;>
    rcases hi with rfl | rfl <;> simp [aluOperand, fieldReg]

/-- **Data processing** reads the registers that are named. -/
theorem aluTree_readsOnly (f : AluFn) (form : ShiftForm) (user : Bool) (pc : BitVec 32) :
    ((DataInst.ofClass opcode (f.dataOp, f.setFlags, form.operandClass)).tree user pc).ReadsOnly
      (aluInfo opcode f form).NamesRead := by
  have hadd {regs : List Reg} {b : Bool} {regs' : List Reg} {r : Reg} (h : r ∈ regs) :
      (RegReserve.ofRegs regs + .when b regs').isReserved r = true := by
    rw [RegReserve.isReserved_add, RegReserve.isReserved_ofRegs, decide_eq_true h, Bool.true_or]
  have hrn : Reg.ofNum (DataInst.ofClass opcode (f.dataOp, f.setFlags, form.operandClass)).rn =
      fieldReg opcode 16 := congrArg Reg.ofNum (regField_eq opcode 16)
  cases f with
  | test t =>
      refine readsOnly_dataTree (fun i => trivial) (fun _ h15 => ?_) fun i hi h15 => ?_
      · exact namesRead_infoOf (hadd (by rw [hrn]; exact List.mem_cons_self)) h15
      · exact namesRead_infoOf (hadd (List.mem_cons_of_mem _ (operand_regs hi))) h15
  | op o =>
      show ReadsOnly (InstInfo.NamesRead (if _ then _ else _)) _
      split
      · -- a move has no first operand
        rename_i hmov
        refine readsOnly_dataTree (fun i => trivial) (fun hfirst => ?_) fun i hi h15 => ?_
        · have huses : o.dataOp.usesFirst = true := hfirst
          exfalso
          clear hrn hfirst
          revert hmov huses
          cases o <;> decide
        · exact namesRead_infoOf (hadd (operand_regs hi)) h15
      · refine readsOnly_dataTree (fun i => trivial) (fun _ h15 => ?_) fun i hi h15 => ?_
        · exact namesRead_infoOf (hadd (by rw [hrn]; exact List.mem_cons_self)) h15
        · exact namesRead_infoOf (hadd (List.mem_cons_of_mem _ (operand_regs hi))) h15

variable {P : Loc → Prop} {instAddr : BitVec 32}

theorem readsOnly_regTree {lsb : ℕ} {next : BitVec 32 → InstTree}
    (hreg : opcodeReg opcode lsb ≠ 15 → P (.reg (opcodeReg opcode lsb)))
    (hnext : ∀ v, (next v).ReadsOnly P) : (regTree opcode instAddr lsb next).ReadsOnly P :=
  readsOnly_readTree hreg hnext

theorem readsOnly_offsetTree {offk : OffsetKind} {next : BitVec 32 → InstTree}
    (hflag : ∀ i, P (.flag i))
    (hreg : offk ≠ .imm → opcodeReg opcode 0 ≠ 15 → P (.reg (opcodeReg opcode 0)))
    (hnext : ∀ v, (next v).ReadsOnly P) : (offsetTree opcode instAddr offk next).ReadsOnly P := by
  cases offk with
  | imm => exact hnext _
  | ror =>
      refine readsOnly_regTree (hreg (by decide)) fun v => ?_
      split
      · exact ⟨hflag _, fun c => hnext _⟩
      · exact hnext _
  | _ => exact readsOnly_regTree (hreg (by decide)) fun v => hnext _

theorem readsOnly_halfValueTree {byte signed : Bool} {addr : BitVec 32}
    {next : BitVec 32 → InstTree} (hnext : ∀ v, (next v).ReadsOnly P) :
    (halfValueTree byte signed addr next).ReadsOnly P := by
  unfold halfValueTree
  split_ifs <;> exact fun x => hnext _

/-- A transfer names base and offset. -/
theorem namesRead_memTransfer {write writeBack : Bool} {op : Op} {operand2 : Operand}
    {regs : List Reg} {i : Fin 16} (h : Reg.ofNum i ∈ fieldReg opcode 16 :: regs) (h15 : i ≠ 15) :
    (memTransfer opcode write writeBack false op operand2 regs).NamesRead (.reg i) := by
  unfold memTransfer
  rw [if_neg (fun hsize => Bool.noConfusion hsize.1)]
  refine namesRead_infoOf ?_ h15
  rw [RegReserve.isReserved_add, RegReserve.isReserved_add, RegReserve.isReserved_ofRegs,
    decide_eq_true h, Bool.or_true, Bool.true_or]

/-- **The loads of words and bytes** read base and offset. -/
theorem ldrTree_readsOnly (byte : Bool) (addr : AddrMode) (up : Bool) (offk : OffsetKind) :
    (ldrTree opcode instAddr ⟨byte, addr, up, offk⟩).ReadsOnly
      (ldrStrInfo opcode true byte addr up offk).NamesRead := by
  refine readsOnly_regTree (namesRead_memTransfer List.mem_cons_self) fun base =>
    readsOnly_offsetTree (fun i => trivial) (fun hoffk => ?_) fun offset => ?_
  · refine namesRead_memTransfer (List.mem_cons_of_mem _ ?_)
    cases offk with
    | imm => exact absurd rfl hoffk
    | _ => exact List.mem_singleton_self _
  · cases byte <;> exact fun x => trivial

/-- **The loads of halfwords and signed bytes**, likewise. -/
theorem ldrhTree_readsOnly (kind : HalfFn) (hsize : kind.is64Bit = false) (l : HalfLoad) :
    (ldrhTree opcode instAddr l).ReadsOnly (halfInfo opcode kind l.addr l.up l.reg).NamesRead := by
  have hload (base offset : BitVec 32) (P : Loc → Prop) :
      (ldrhLoad opcode l base offset).ReadsOnly P := readsOnly_halfValueTree fun x => trivial
  unfold halfInfo
  rw [hsize]
  refine readsOnly_regTree (namesRead_memTransfer List.mem_cons_self) fun base => ?_
  split
  · refine readsOnly_regTree (namesRead_memTransfer (List.mem_cons_of_mem _ ?_)) fun offset =>
      hload _ _ _
    exact List.mem_singleton_self _
  · exact hload _ _ _

/-- **The block loads** read the base. -/
theorem ldmTree_readsOnly (pre up s wb user fiq : Bool) :
    (ldmTree ⟨true, pre, up, s, wb, opcodeReg opcode 16, opcode.extractLsb' 0 16⟩ user fiq
      instAddr).ReadsOnly (ldmStmInfo opcode true pre up s wb).NamesRead := by
  unfold ldmTree
  split
  · trivial
  · refine readsOnly_readTree (namesRead_infoOf ?_) fun base words => trivial
    rw [if_pos rfl]
    split
    · rw [RegReserve.isReserved_add, isReserved_list (List.mem_singleton_self _), Bool.or_true]
    · exact isReserved_list (List.mem_singleton_self _)

/-- **The multiplications** read their factors, and what they add to. -/
theorem mul32Tree_readsOnly (s acc : Bool) (op : Op) (cycle : ℕ) :
    (mul32Tree opcode instAddr s acc).ReadsOnly
      (if acc then mlaInfo opcode op s cycle else mulInfo opcode op s cycle).NamesRead := by
  have hsrc {regs : List Reg} {b : Bool} {lsb : ℕ} (h : fieldReg opcode lsb ∈ regs) :
      (RegReserve.ofRegs regs + .when b [.cpsr]).isReserved (.ofNum (opcodeReg opcode lsb)) =
        true := by
    rw [RegReserve.isReserved_add, isReserved_list h, Bool.true_or]
  cases acc with
  | false =>
      refine readsOnly_regTree (namesRead_infoOf (hsrc ?_)) fun rm =>
        readsOnly_regTree (namesRead_infoOf (hsrc ?_)) fun rs => trivial
      · exact List.mem_cons_self
      · exact List.mem_cons_of_mem _ List.mem_cons_self
  | true =>
      refine readsOnly_regTree (namesRead_infoOf (hsrc ?_)) fun rm =>
        readsOnly_regTree (namesRead_infoOf (hsrc ?_)) fun rs =>
          readsOnly_regTree (namesRead_infoOf (hsrc ?_)) fun rn => trivial
      · exact List.mem_cons_self
      · exact List.mem_cons_of_mem _ List.mem_cons_self
      · exact List.mem_cons_of_mem _ (List.mem_cons_of_mem _ List.mem_cons_self)

theorem mul64Tree_readsOnly (s acc signed : Bool) (op : Op) (cycle : ℕ) :
    (mul64Tree opcode instAddr s acc signed).ReadsOnly
      (mullInfo opcode op s acc cycle).NamesRead := by
  have hfactor {lsb : ℕ} (h : fieldReg opcode lsb ∈ [fieldReg opcode 0, fieldReg opcode 8]) :
      (RegReserve.when acc [fieldReg opcode 12, fieldReg opcode 16] +
        .ofRegs [fieldReg opcode 0, fieldReg opcode 8] + .when s [.cpsr]).isReserved
          (.ofNum (opcodeReg opcode lsb)) = true := by
    rw [RegReserve.isReserved_add, RegReserve.isReserved_add, isReserved_list h, Bool.or_true,
      Bool.true_or]
  refine readsOnly_regTree (namesRead_infoOf (hfactor List.mem_cons_self)) fun rm =>
    readsOnly_regTree (namesRead_infoOf (hfactor ?_)) fun rs => ?_
  · exact List.mem_cons_of_mem _ List.mem_cons_self
  · cases acc with
    | false => trivial
    | true =>
        have hadded {lsb : ℕ}
            (h : fieldReg opcode lsb ∈ [fieldReg opcode 12, fieldReg opcode 16]) :
            (RegReserve.when true [fieldReg opcode 12, fieldReg opcode 16] +
              .ofRegs [fieldReg opcode 0, fieldReg opcode 8] + .when s [.cpsr]).isReserved
                (.ofNum (opcodeReg opcode lsb)) = true := by
          have hwhen : (RegReserve.when true [fieldReg opcode 12, fieldReg opcode 16]).isReserved
              (.ofNum (opcodeReg opcode lsb)) = true := isReserved_list h
          rw [RegReserve.isReserved_add, RegReserve.isReserved_add, hwhen, Bool.true_or,
            Bool.true_or]
        refine readsOnly_regTree (namesRead_infoOf (hadded List.mem_cons_self)) fun lo =>
          readsOnly_regTree (namesRead_infoOf (hadded ?_)) fun hi => trivial
        exact List.mem_cons_of_mem _ List.mem_cons_self

/-- **The handlers of ARM** read the registers that are named. -/
theorem armTree_readsOnly (user fiq : Bool) :
    ((armFn opcode).tree user fiq opcode instAddr).ReadsOnly (armInfo opcode).NamesRead := by
  unfold armInfo
  cases hfn : armFn opcode with
  | alu f form => exact aluTree_readsOnly f form user _
  | ldrStr load byte addr up offk =>
      cases load
      · trivial
      · exact ldrTree_readsOnly byte addr up offk
  | half kind addr up reg =>
      cases kind with
      | ldrh => exact ldrhTree_readsOnly .ldrh rfl ⟨false, false, addr, up, reg⟩
      | ldrsb => exact ldrhTree_readsOnly .ldrsb rfl ⟨true, true, addr, up, reg⟩
      | ldrsh => exact ldrhTree_readsOnly .ldrsh rfl ⟨false, true, addr, up, reg⟩
      | _ => trivial
  | ldmStm load pre up s wb =>
      cases load
      · trivial
      · exact ldmTree_readsOnly pre up s wb user fiq
  | mul32 s acc =>
      cases acc
      · exact mul32Tree_readsOnly s false _ _
      · exact mul32Tree_readsOnly s true _ _
  | mul64 s acc signed =>
      cases acc <;> cases signed
      · exact mul64Tree_readsOnly s false false _ _
      · exact mul64Tree_readsOnly s false true _ _
      · exact mul64Tree_readsOnly s true false _ _
      · exact mul64Tree_readsOnly s true true _ _
  | clz =>
      refine readsOnly_regTree (namesRead_infoOf ?_) fun rm => trivial
      exact isReserved_list (List.mem_singleton_self _)
  | _ => trivial

end Arm

section Thumb

variable {opcode : BitVec 16} {instAddr : BitVec 32}

theorem srcRegs_ofThumb (op : Op) (operands : List Operand) (srcRegs outRegs : RegReserve)
    (cycle : ℕ) : (InstInfo.ofThumb op operands srcRegs outRegs cycle).srcRegs = srcRegs := by
  unfold InstInfo.ofThumb
  split <;> rfl

theorem namesRead_ofThumb {op : Op} {operands : List Operand} {srcRegs outRegs : RegReserve}
    {cycle : ℕ} {i : Fin 16} (h : srcRegs.isReserved (.ofNum i) = true) (h15 : i ≠ 15) :
    (InstInfo.ofThumb op operands srcRegs outRegs cycle).NamesRead (.reg i) :=
  ⟨h15, (srcRegs_ofThumb op operands srcRegs outRegs cycle).symm ▸ h⟩

/-- A register an instruction looks at. -/
def ArmInst.LooksAt (i : Fin 16) : ArmInst → Prop
  | .data inst => inst.op.usesFirst = true ∧ i = inst.rn ∨ i ∈ inst.operand.regs
  | .muls _ rm rs => i = rm ∨ i = rs

/-- The disassembler names the registers of the instruction that is stood for. -/
theorem armInst_looksAt (t : ThumbAlu) {i : Fin 16} (hi : (t.armInst opcode).LooksAt i) :
    (thumbAluInfo opcode t).srcRegs.isReserved (.ofNum i) = true := by
  have hmem {regs : List Reg} (h : Reg.ofNum i ∈ regs) :
      (RegReserve.ofRegs regs).isReserved (.ofNum i) = true := by
    rw [RegReserve.isReserved_ofRegs]
    exact decide_eq_true h
  cases t <;> simp only [thumbAluInfo, srcRegs_ofThumb] <;> refine hmem ?_ <;>
    simp only [ThumbAlu.armInst, ThumbAlu.flagging, ThumbAlu.testing, ArmInst.LooksAt,
      DataOp.usesFirst, Operand2.regs, Operand2.reg, Bool.false_eq_true, true_and, false_and,
      false_or, List.mem_cons, List.not_mem_nil, or_false] at hi
  case addSpImm => exact hi.2 ▸ List.mem_singleton_self _
  case addPc | addSp => exact hi ▸ List.mem_singleton_self _
  all_goals
    first
    | (subst hi; simp only [lowFieldReg, List.mem_cons, true_or])
    | (rcases hi with rfl | rfl <;> simp only [lowFieldReg, List.mem_cons, true_or, or_true])

theorem thumbAluTree_readsOnly (t : ThumbAlu) (user : Bool) :
    ((ThumbFn.alu t).tree opcode instAddr user).ReadsOnly (thumbAluInfo opcode t).NamesRead := by
  have hreads {i : Fin 16} (hi : (t.armInst opcode).LooksAt i) := armInst_looksAt t hi
  unfold ThumbFn.tree
  simp only
  revert hreads
  cases t.armInst opcode with
  | data inst =>
      intro hreads
      refine readsOnly_dataTree (P := (thumbAluInfo opcode t).NamesRead) (fun i => trivial)
        (fun hfirst h15 => ?_) fun i hi h15 => ?_
      · exact ⟨h15, hreads (.inl ⟨hfirst, rfl⟩)⟩
      · exact ⟨h15, hreads (.inr hi)⟩
  | muls rd rm rs =>
      intro hreads
      exact readsOnly_readTree (fun h15 => ⟨h15, hreads (.inl rfl)⟩) fun x =>
        readsOnly_readTree (fun h15 => ⟨h15, hreads (.inr rfl)⟩) fun y => trivial

/-- A load reads nothing but its address. -/
theorem readsOnly_loadTree {P : Loc → Prop} (t : ThumbTransfer) (rd : Fin 16) (addr : BitVec 32) :
    (t.loadTree rd addr).ReadsOnly P := by
  cases t <;> unfold ThumbTransfer.loadTree <;>
    first
    | trivial
    | exact readsOnly_halfValueTree fun x => trivial
    | exact fun x => trivial

/-- The registers a transfer is addressed by. -/
theorem namesRead_transfer {t : ThumbTransfer} {rd : Reg} {operands : List Operand}
    {srcs : List Reg} {i : Fin 16} (h : Reg.ofNum i ∈ srcs) (h15 : i ≠ 15) :
    (thumbTransferInfo t rd operands srcs).NamesRead (.reg i) := by
  refine namesRead_ofThumb ?_ h15
  rw [RegReserve.isReserved_add, RegReserve.isReserved_ofRegs, decide_eq_true h, Bool.or_true]

theorem namesRead_block {pre add : Bool} {i : Fin 16} {rlist : RegReserve} {count : ℕ}
    (h15 : i ≠ 15) :
    (thumbBlockInfo true pre add (.ofNum i) rlist count).NamesRead (.reg i) := by
  refine namesRead_ofThumb ?_ h15
  rw [if_pos rfl, RegReserve.isReserved_ofRegs]
  exact decide_eq_true (List.mem_singleton_self _)

/-- **The handlers of Thumb** read the registers that are named. -/
theorem thumbTree_readsOnly (user : Bool) :
    ((thumbFn opcode).tree opcode instAddr user).ReadsOnly (thumbInfo opcode).NamesRead := by
  unfold thumbInfo
  cases thumbFn opcode with
  | alu t => exact thumbAluTree_readsOnly t user
  | ldrPc => exact readsOnly_loadTree .ldr _ _
  | ldrSp =>
      exact readsOnly_readTree (namesRead_transfer (i := 13) (List.mem_singleton_self _)) fun sp =>
        readsOnly_loadTree .ldr _ _
  | reg t =>
      refine readsOnly_readTree (namesRead_transfer List.mem_cons_self) fun base =>
        readsOnly_readTree (namesRead_transfer ?_) fun offset => readsOnly_loadTree t _ _
      exact List.mem_cons_of_mem _ List.mem_cons_self
  | imm5 t =>
      exact readsOnly_readTree (namesRead_transfer (List.mem_singleton_self _)) fun base =>
        readsOnly_loadTree t _ _
  | pop =>
      show ReadsOnly _ (popTree opcode instAddr)
      unfold popTree
      exact readsOnly_readTree (namesRead_block (i := 13)) fun sp words => trivial
  | ldmia =>
      show ReadsOnly _ (ldmiaTree opcode instAddr)
      unfold ldmiaTree
      dsimp only
      split
      · trivial
      · refine readsOnly_readTree namesRead_block fun addr => ?_
        exact fun words => trivial
  | _ => trivial

end Thumb

/-- **An instruction** reads the registers that the disassembler names. -/
theorem tree_readsOnly (inst : GuestInst) (user fiq : Bool) (instAddr : BitVec 32) :
    (inst.tree user fiq instAddr).ReadsOnly inst.info.NamesRead := by
  cases inst with
  | arm opcode =>
      refine readsOnly_condTree (fun i => trivial) fun holds => ?_
      split
      · exact armTree_readsOnly user fiq
      · trivial
  | thumb opcode => exact thumbTree_readsOnly user

/-! ## A pass as trees -/

section Trees

variable {m m' : Reader} {thumb : Bool} {pc : BitVec 32} {inst : GuestInst}
  {insts : List GuestInst} {regs regs' : ThreadRegs} {as : List Load}

/-- A test is a test. -/
theorem isTest_iff {fn : ArmFn} :
    fn.isTest = true ↔ ∃ t form, fn = .alu (.test t) form := by
  refine ⟨fun h => ?_, fun ⟨t, form, h⟩ => h ▸ rfl⟩
  cases fn with
  | alu f form =>
      cases f with
      | test t => exact ⟨t, form, rfl⟩
      | op o => exact Bool.noConfusion h
  | _ => exact Bool.noConfusion h

/-- A condition that holds. -/
theorem holds_of_not_skipped {opcode cpsr : BitVec 32} (h : skipped opcode cpsr = false) :
    (Cond.ofCode (condCode opcode)).holds cpsr = true := by
  by_cases hnv : condCode opcode = 15
  · exact Bool.noConfusion ((skipped_nv _ _ hnv).symm.trans h)
  · rw [skipped_eq _ _ hnv] at h
    simpa using h

/-- The tree of an instruction that puts back the saved status register has nothing to write. -/
theorem eval_of_restores (h : inst.restores regs = true) :
    (inst.tree regs.isUser regs.isFiq pc).eval regs.view m = none := by
  cases inst with
  | thumb opcode => exact Bool.noConfusion h
  | arm opcode =>
      simp only [GuestInst.restores, Bool.and_eq_true, Bool.not_eq_true', decide_eq_true_eq] at h
      obtain ⟨⟨⟨hskip, htest⟩, hrd⟩, huser⟩ := h
      obtain ⟨t, form, hfn⟩ := isTest_iff.mp htest
      have hout : ((GuestInst.arm opcode).tree regs.isUser regs.isFiq pc).out regs.view m =
          ((DataInst.ofClass opcode (t.dataOp, true, form.operandClass)).tree regs.isUser
            (pc + 8)).out regs.view m := by
        rw [GuestInst.tree, out_condTree, holds_of_not_skipped hskip, if_pos rfl, hfn]
        rfl
      refine (congrArg Prod.fst hout).trans ?_
      rcases out_dataTree (pc + 8) regs m
        (DataInst.ofClass opcode (t.dataOp, true, form.operandClass)) with ⟨-, hnone⟩ | ⟨hstays, -⟩
      · exact congrArg Prod.fst hnone
      · exfalso
        have hrd' : (DataInst.ofClass opcode (t.dataOp, true, form.operandClass)).rd = 15 :=
          (regField_eq opcode 12).trans hrd
        rw [DataInst.leaves, hrd', huser] at hstays
        simp [DataInst.ofClass] at hstays

/-- An instruction that is no comparison with the pc as destination keeps the mode. -/
theorem restores_eq_false {opcode : BitVec 32}
    (h : ((armFn opcode).isTest && decide (opcodeRd opcode = 15)) = false) (regs : ThreadRegs) :
    (GuestInst.arm opcode).restores regs = false := by
  rw [GuestInst.restores, Bool.and_assoc (!skipped opcode regs.cpsr), h, Bool.and_false,
    Bool.false_and]

theorem keepsMode_of_forall (h : ∀ inst ∈ insts, ∀ regs, inst.restores regs = false) :
    KeepsMode m thumb pc insts regs := by
  induction insts generalizing pc regs with
  | nil => trivial
  | cons inst insts ih =>
      refine ⟨h inst List.mem_cons_self regs, fun r _ => ih fun inst' hinst' => ?_⟩
      exact h inst' (List.mem_cons_of_mem _ hinst')

/-- A step that keeps the mode is its tree. -/
theorem step_of_keeps (h : inst.restores regs = false) :
    inst.step m pc regs =
      ((inst.tree regs.isUser regs.isFiq pc).eval regs.view m).map fun ws =>
        (regs.putAll ws, (inst.tree regs.isUser regs.isFiq pc).loads regs.view m) := by
  rw [GuestInst.step, if_neg (fun hr => Bool.noConfusion (h.symm.trans hr))]
  rfl

/-- **A pass** that keeps the mode is its trees. -/
theorem runBody_trees (hkeeps : KeepsMode m thumb pc insts regs)
    (h : runBody m thumb pc insts regs = some (regs', as)) :
    runAll m (bodyTrees thumb regs.isUser regs.isFiq pc insts) regs.view =
      some (regs'.view, as) ∧ ThreadRegs.SameRest regs regs' := by
  induction insts generalizing pc regs as with
  | nil =>
      obtain ⟨rfl, rfl⟩ := Prod.mk.inj (Option.some.inj h)
      exact ⟨rfl, ThreadRegs.SameRest.refl _⟩
  | cons inst insts ih =>
      obtain ⟨r, hstep, h⟩ := Option.bind_eq_some_iff.mp h
      obtain ⟨r', hrest, hr'⟩ := Option.map_eq_some_iff.mp h
      obtain ⟨rfl, rfl⟩ := Prod.mk.inj hr'
      have hkeeps' := hkeeps.2 r hstep
      rw [step_of_keeps hkeeps.1] at hstep
      obtain ⟨ws, heval, rfl⟩ := Option.map_eq_some_iff.mp hstep
      obtain ⟨hrun, hsame⟩ := ih hkeeps' hrest
      have hput := ThreadRegs.putAll_sameRest regs ws
      rw [hput.isUser_eq, hput.isFiq_eq, ThreadRegs.view_putAll] at hrun
      refine ⟨?_, hput.trans hsame⟩
      rw [bodyTrees, runAll, heval, Option.bind_some, hrun]
      rfl

/-- Trees that come to an end are a pass. -/
theorem runBody_of_trees {σ' : ∀ l : Loc, l.Val}
    (h : runAll m (bodyTrees thumb regs.isUser regs.isFiq pc insts) regs.view = some (σ', as)) :
    ∃ regs', runBody m thumb pc insts regs = some (regs', as) ∧ regs'.view = σ' ∧
      ThreadRegs.SameRest regs regs' := by
  induction insts generalizing pc regs as with
  | nil =>
      obtain ⟨rfl, rfl⟩ := Prod.mk.inj (Option.some.inj h)
      exact ⟨regs, rfl, rfl, ThreadRegs.SameRest.refl _⟩
  | cons inst insts ih =>
      obtain ⟨ws, heval, h⟩ := Option.bind_eq_some_iff.mp h
      obtain ⟨r, hrest, hr⟩ := Option.map_eq_some_iff.mp h
      obtain ⟨rfl, rfl⟩ := Prod.mk.inj hr
      have hkeeps : inst.restores regs = false := by
        by_contra hrestores
        rw [Bool.not_eq_false] at hrestores
        exact Option.some_ne_none ws (heval.symm.trans (eval_of_restores hrestores))
      have hput := ThreadRegs.putAll_sameRest regs ws
      rw [← ThreadRegs.view_putAll, ← hput.isUser_eq, ← hput.isFiq_eq] at hrest
      obtain ⟨regs', hbody, hview, hsame⟩ := ih hrest
      refine ⟨regs', ?_, hview, hput.trans hsame⟩
      rw [runBody, step_of_keeps hkeeps, heval, Option.map_some, Option.bind_some, hbody]
      rfl

/-! ## What the scan accepts -/

/-- No instruction looks at the user bank behind the mode. -/
theorem usr_notMem_entryReads {i : {i : Fin 16 // ThreadRegs.Banked True i}} {user fiq : Bool}
    {σ : ∀ l : Loc, l.Val} : .usr i ∉ entryReads m (bodyTrees thumb user fiq pc insts) σ := by
  induction insts generalizing pc σ with
  | nil => exact List.not_mem_nil
  | cons inst insts ih =>
      rw [bodyTrees, entryReads, List.mem_append, not_or]
      refine ⟨fun hread => (tree_readsOnly inst user fiq pc).mem_reads hread, ?_⟩
      cases (inst.tree user fiq pc).eval σ m with
      | none => exact List.not_mem_nil
      | some ws => exact fun h => ih (List.mem_filter.mp h).1

theorem ofNum_ne {i : Fin 16} (h15 : i ≠ 15) : Reg.ofNum i ≠ .pc ∧ Reg.ofNum i ≠ .cpsr := by
  revert i
  decide

/-- One instruction of the scan: it names none of the registers as written that are named as read
before. -/
theorem idleScan_cons {info : InstInfo} {infos : List InstInfo} {before disallowed : RegReserve}
    (h : idleScan (info :: infos) before disallowed = true) :
    ∃ disallowed', idleScan infos (before + (info.outRegs - .ofRegs [.pc])) disallowed' = true ∧
      (∀ r, disallowed'.isReserved r = (disallowed.isReserved r ||
        (info.srcRegs.isReserved r && !decide (r ∈ [Reg.pc, .cpsr]) && !before.isReserved r))) ∧
      ∀ r, r ≠ .pc → disallowed'.isReserved r = true → info.outRegs.isReserved r = false := by
  rw [idleScan] at h
  simp only at h
  split at h
  · exact Bool.noConfusion h
  split at h
  · exact Bool.noConfusion h
  rename_i hdisjoint
  refine ⟨_, h, fun r => ?_, fun r hpc hr => ?_⟩
  · simp only [RegReserve.isReserved_add, RegReserve.isReserved_sub, RegReserve.isReserved_ofRegs]
  · have hnone : (info.outRegs - RegReserve.ofRegs [.pc] &&& (disallowed +
        (info.srcRegs - RegReserve.ofRegs [.pc, .cpsr] - before))).isReserved r = false := by
      rw [Bool.not_eq_true', Bool.not_eq_false] at hdisjoint
      rw [RegReserve.isReserved, of_decide_eq_true hdisjoint]
      exact BitVec.getLsbD_zero
    rw [RegReserve.isReserved_and, hr, Bool.and_true, RegReserve.isReserved_sub,
      RegReserve.isReserved_ofRegs, decide_eq_false (by simpa using hpc), Bool.not_false,
      Bool.and_true] at hnone
    exact hnone

/-- **The scan**: a register that is read first, or was, is not written by instructions that are
named as writing what they write. -/
theorem idleScan_unwritten {before disallowed : RegReserve} {i : Fin 16} (h15 : i ≠ 15)
    (haccept : idleScan (insts.map GuestInst.info) before disallowed = true)
    (hkeeps : KeepsMode m thumb pc insts regs)
    (hnamed : ¬ Misdeclares m thumb i pc insts regs)
    (hread : disallowed.isReserved (.ofNum i) = true ∨
      .reg i ∈ entryReads m (bodyTrees thumb regs.isUser regs.isFiq pc insts) regs.view ∧
        before.isReserved (.ofNum i) = false) :
    .reg i ∉ written m (bodyTrees thumb regs.isUser regs.isFiq pc insts) regs.view := by
  induction insts generalizing pc regs before disallowed with
  | nil => exact List.not_mem_nil
  | cons inst insts ih =>
      obtain ⟨disallowed', hscan, hread', hunnamed⟩ := idleScan_cons haccept
      obtain ⟨hpc, hcpsr⟩ := ofNum_ne h15
      rw [bodyTrees, written]
      rw [bodyTrees, entryReads] at hread
      cases heval : (inst.tree regs.isUser regs.isFiq pc).eval regs.view m with
      | none => exact List.not_mem_nil
      | some ws =>
          rw [heval] at hread
          have hstep : inst.step m pc regs = some (regs.putAll ws,
              (inst.tree regs.isUser regs.isFiq pc).loads regs.view m) := by
            rw [step_of_keeps hkeeps.1, heval, Option.map_some]
          have hput := ThreadRegs.putAll_sameRest regs ws
          have hout : inst.info.outRegs.isReserved (.ofNum i) = decide (.reg i ∈ locs ws) := by
            by_contra hne
            refine hnamed (.inl ?_)
            rw [GuestInst.writes, heval]
            exact hne
          have hlater : ¬ Misdeclares m thumb i (pc + pcStep thumb) insts (regs.putAll ws) :=
            fun hmis => hnamed (.inr ⟨_, hstep, hmis⟩)
          have hrest := ih hscan (hkeeps.2 _ hstep) hlater
          rw [hput.isUser_eq, hput.isFiq_eq, ThreadRegs.view_putAll] at hrest
          by_cases hnow : disallowed'.isReserved (.ofNum i) = true
          · -- it is named as read by now: no instruction from here on writes it
            rw [List.mem_append, not_or]
            refine ⟨of_decide_eq_false (hout.symm.trans (hunnamed _ hpc hnow)), hrest (.inl hnow)⟩
          · -- it is not: it is read later, and not written here
            rw [hread' (.ofNum i)] at hnow
            obtain ⟨hlater, hunwritten, hbefore⟩ : .reg i ∈ entryReads m (bodyTrees thumb
                regs.isUser regs.isFiq (pc + pcStep thumb) insts) (update regs.view ws) ∧
                .reg i ∉ locs ws ∧ before.isReserved (.ofNum i) = false := by
              rcases hread with hdis | ⟨hmem, hbefore⟩
              · exact absurd (by rw [hdis, Bool.true_or]) hnow
              · rcases List.mem_append.mp hmem with hnow' | hlater
                · have hsrc := ((tree_readsOnly inst _ _ pc).mem_reads hnow').2
                  refine absurd ?_ hnow
                  rw [hsrc, hbefore]
                  simp [hpc, hcpsr]
                · obtain ⟨hlater, hunwritten⟩ := List.mem_filter.mp hlater
                  exact ⟨hlater, of_decide_eq_true hunwritten, hbefore⟩
            rw [List.mem_append, not_or]
            refine ⟨hunwritten, hrest (.inr ⟨hlater, ?_⟩)⟩
            rw [RegReserve.isReserved_add, RegReserve.isReserved_sub, hout, hbefore,
              decide_eq_false hunwritten]
            rfl

/-- The registers a pass reads are not the pc. -/
theorem reg_mem_entryReads {i : Fin 16} {user fiq : Bool} {σ : ∀ l : Loc, l.Val}
    (h : .reg i ∈ entryReads m (bodyTrees thumb user fiq pc insts) σ) : i ≠ 15 := by
  induction insts generalizing pc σ with
  | nil => exact absurd h List.not_mem_nil
  | cons inst insts ih =>
      rw [bodyTrees, entryReads] at h
      rcases List.mem_append.mp h with hread | hlater
      · exact ((tree_readsOnly inst user fiq pc).mem_reads hread).1
      · cases heval : (inst.tree user fiq pc).eval σ m with
        | none => exact absurd (heval ▸ hlater) List.not_mem_nil
        | some ws =>
            rw [heval] at hlater
            exact ih (List.mem_filter.mp hlater).1

/-- What a pass through an accepted loop finds is there again behind it, under the condition. -/
theorem CarriesOver.agrees {start : BitVec 32}
    (hcarry : CarriesOver m thumb start insts regs regs')
    (haccept : isIdleLoop (insts.map GuestInst.info) = true)
    (hpass : runAll m (bodyTrees thumb regs.isUser regs.isFiq start insts.dropLast) regs.view =
      some (regs'.view, as)) {l : Loc} (hl : l ∈ passReads m thumb start insts regs) :
    regs'.view l = regs.view l := by
  cases l with
  | flag i => exact hcarry.flags i hl
  | usr i => exact absurd hl usr_notMem_entryReads
  | reg i =>
      by_cases hmis : Misdeclares m thumb i start insts.dropLast regs
      · exact hcarry.registers i hl hmis
      · rw [isIdleLoop, ← List.map_dropLast] at haccept
        refine runAll_of_notMem hpass (idleScan_unwritten (reg_mem_entryReads hl) haccept
          hcarry.keepsMode hmis (.inr ⟨hl, ?_⟩))
        exact RegReserve.isReserved_new _

end Trees

/-! ## The law -/

/-- **Idle loops**: a second pass through an accepted loop, with the same replies of the memory,
makes the same loads, ends with the same registers and flags, and is taken back again, when the
first pass carries over what it found. -/
theorem idle_loop_law (m m' : Reader) (thumb : Bool) (start : BitVec 32) (insts : List GuestInst)
    (regs regs' : ThreadRegs) (as : List Load)
    (haccept : isIdleLoop (insts.map GuestInst.info) = true)
    (hfirst : iterate m thumb start insts regs = some (regs', as))
    (hmem : ∀ a ∈ as, m' a = m a)
    (hcarry : CarriesOver m thumb start insts regs regs') :
    iterate m' thumb start insts regs' = some (regs', as) := by
  obtain ⟨r, hbody, hbranch⟩ := Option.bind_eq_some_iff.mp hfirst
  split at hbranch
  · obtain rfl := Option.some.inj hbranch
    obtain ⟨hpass, hsame⟩ := runBody_trees hcarry.keepsMode hbody
    have hagain := runAll_again hpass (fun l hl => hcarry.agrees haccept hpass hl) hmem
    rw [← hsame.isUser_eq, ← hsame.isFiq_eq] at hagain
    obtain ⟨regs'', hbody', hview, hsame'⟩ := runBody_of_trees hagain
    obtain rfl := ThreadRegs.ext_view hview hsame'
    rw [iterate, hbody', Option.bind_some, if_pos ‹_›]
  · exact absurd hbranch (by simp)

/-- A memory of zeros. -/
def zeroReader : Reader
  | .byte _ | .half _ | .word _ => 0
  | .words _ _ => fun _ => 0

/-- `ldr r0, [r1]; tst r0, #1; beq -16`. -/
def pollingLoop : List GuestInst := [.arm 0xE5910000, .arm 0xE3100001, .arm 0x0AFFFFFC]

/-- Registers of zeros, with a status register. -/
def zeroRegs (cpsr : BitVec 32) : ThreadRegs := { ThreadRegs.default with cpsr := cpsr }

/-- The registers behind a pass through the loop. -/
def polledRegs : ThreadRegs :=
  (zeroRegs 0x1F).putAll [⟨.reg 0, 0⟩, ⟨.flag .n, false⟩, ⟨.flag .z, true⟩]

/-- A loop that polls a word. -/
theorem idle_loop_law_poll :
    iterate zeroReader false 0x08000000 pollingLoop polledRegs = some (polledRegs, [.word 0]) := by
  refine idle_loop_law zeroReader zeroReader false 0x08000000 pollingLoop (zeroRegs 0x1F) polledRegs
    [.word 0] (by decide) rfl (fun _ _ => rfl) ⟨?_, fun i hi => ?_, fun i hi _ => ?_⟩
  · refine keepsMode_of_forall fun inst hinst => ?_
    rcases List.mem_pair.mp hinst with rfl | rfl <;> exact restores_eq_false (by decide)
  · exact absurd hi (by cases i <;> decide)
  · have hreads : passReads zeroReader false 0x08000000 pollingLoop (zeroRegs 0x1F) = [.reg 1] := by
      decide
    rw [hreads, List.mem_singleton, Loc.reg.injEq] at hi
    rw [hi]
    rfl

/-- `adcs r0, r1, #0; bne -12` is accepted; with r1 zero and the carry set the first pass comes to
1 and is taken back, and the second one comes to 0 and leaves. -/
theorem adcs_loop_leaves :
    let insts : List GuestInst := [.arm 0xE2B10000, .arm 0x1AFFFFFD]
    let regs := zeroRegs 0x2000001F
    isIdleLoop (insts.map GuestInst.info) = true ∧
      ∃ regs', iterate zeroReader false 0x08000000 insts regs = some (regs', []) ∧
        iterate zeroReader false 0x08000000 insts regs' = none := by
  refine ⟨by decide, _, rfl, ?_⟩
  decide

end AdvancedSlop
