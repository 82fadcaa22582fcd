/-
# Data processing in the interpreter

The handlers of `interpreter/alu.rs` against the instructions of the architecture.

* `TestOp`, `testStep` : the tests and comparisons;
* `armAlu` : the entries of `ARM_TABLE` that process data;
* `setNz_eq`, `arithFlags_eq`, `withCarry_eq` : the flags;
* `aluShift_eq`, `AluOp.compute_eq` : the shifter and the operations;
* `armAlu_exec` : every opcode does what the architecture says.
-/
import AdvancedSlop.DataProcessing
import AdvancedSlop.PcWrites

namespace AdvancedSlop

open WordArith

attribute [local instance] neZero_regs

/-! ## Tests and the table -/

/-- The operations without a destination. -/
inductive TestOp
  | tst | teq | cmp | cmn
  deriving DecidableEq, Repr

/-- The `logical` variant of `def_test`. -/
def TestOp.logical : TestOp → Bool
  | tst | teq => true
  | _ => false

/-- The flags of a test. -/
def TestOp.flags (t : TestOp) (cpsr a b : BitVec 32) : BitVec 32 :=
  match t with
  | tst => setNz cpsr (a &&& b)
  | teq => setNz cpsr (a ^^^ b)
  | cmp => subFlags cpsr a b (a - b)
  | cmn => addFlags cpsr a b (a + b)

/-- `test_rd15_quirk`. -/
def testRd15Quirk (opcode : BitVec 32) (regs : ThreadRegs) : ThreadRegs :=
  if opcode &&& 0xF000 = 0xF000 then regs.restoreSpsr else regs

/-- `def_test`. -/
def testStep (t : TestOp) (form : ShiftForm) (opcode instAddr : BitVec 32) (regs : ThreadRegs) :
    ThreadRegs × InstResult :=
  let a := aluRn instAddr regs opcode form.byReg
  let b := aluShift form t.logical instAddr regs opcode
  (testRd15Quirk opcode { regs with cpsr := t.flags b.2 a b.1 }, .continueNext 1)

/-- The functions the wrappers of `alu_wrappers` are made of. -/
inductive AluFn
  | op (o : AluOp)
  | test (t : TestOp)
  deriving DecidableEq, Repr

/-- A wrapper of `alu_wrappers`. -/
def AluFn.step (f : AluFn) (form : ShiftForm) (opcode instAddr : BitVec 32) (regs : ThreadRegs) :
    ThreadRegs × InstResult :=
  match f with
  | op o => aluStep o form opcode instAddr regs
  | test t => testStep t form opcode instAddr regs

/-- The rows of `ARM_TABLE` that process data, two of each operation. -/
def aluRows : List (Option AluFn) :=
  [some (.op .and), some (.op .ands), some (.op .eor), some (.op .eors),
    some (.op .sub), some (.op .subs), some (.op .rsb), some (.op .rsbs),
    some (.op .add), some (.op .adds), some (.op .adc), some (.op .adcs),
    some (.op .sbc), some (.op .sbcs), some (.op .rsc), some (.op .rscs),
    none, some (.test .tst), none, some (.test .teq),
    none, some (.test .cmp), none, some (.test .cmn),
    some (.op .orr), some (.op .orrs), some (.op .mov), some (.op .movs),
    some (.op .bic), some (.op .bics), some (.op .mvn), some (.op .mvns)]

/-- The columns of a row; the others are multiplications and transfers. -/
def aluForms : List (Option ShiftForm) :=
  [some .lli, some .llr, some .lri, some .lrr, some .ari, some .arr, some .rri, some .rrr,
    some .lli, none, some .lri, none, some .ari, none, some .rri, none]

/-- The entry of `ARM_TABLE` at a row and a column, if it processes data: after the rows of the
shifted registers come those of the immediates. -/
def armTableAlu (row : BitVec 8) (column : BitVec 4) : Option (AluFn × ShiftForm) :=
  if row.toNat < 32 then
    (aluRows[row.toNat]?.join).bind fun f => (aluForms[column.toNat]?.join).map fun form => (f, form)
  else (aluRows[row.toNat - 32]?.join).bind fun f =>
    if row.toNat < 64 then some (f, .imm) else none

/-- The dispatch of an opcode that processes data, by `arm_index`. -/
def armAlu (opcode instAddr : BitVec 32) (regs : ThreadRegs) : Option (ThreadRegs × InstResult) :=
  (armTableAlu (opcode.extractLsb' 20 8) (opcode.extractLsb' 4 4)).map fun e =>
    e.1.step e.2 opcode instAddr regs

/-! ## Flags -/

section Flags

variable (cpsr result : BitVec 32)

namespace Flags

/-- A status register bit by bit. -/
theorem getLsbD_put (f : Flags) {i : ℕ} (hi : i < 32) :
    (f.put cpsr).getLsbD i =
      if i = 31 then f.n else if i = 30 then f.z else if i = 29 then f.c else if i = 28 then f.v
      else cpsr.getLsbD i := by
  unfold put
  rw [BitVec.getLsbD_append, BitVec.getLsbD_append, BitVec.getLsbD_append, BitVec.getLsbD_append,
    BitVec.getLsbD_setWidth]
  by_cases hlow : i < 28
  · have h1 : i ≠ 31 := by omega
    have h2 : i ≠ 30 := by omega
    have h3 : i ≠ 29 := by omega
    have h4 : i ≠ 28 := by omega
    simp [hlow, h1, h2, h3, h4]
  · obtain rfl | rfl | rfl | rfl : i = 28 ∨ i = 29 ∨ i = 30 ∨ i = 31 := by omega
    all_goals simp

@[simp] theorem of_put (f : Flags) : of (f.put cpsr) = f := by
  unfold of
  rw [getLsbD_put _ _ (by omega), getLsbD_put _ _ (by omega), getLsbD_put _ _ (by omega),
    getLsbD_put _ _ (by omega)]
  rfl

@[simp] theorem put_put (f f' : Flags) : f.put (f'.put cpsr) = f.put cpsr := by
  apply BitVec.eq_of_getLsbD_eq
  intro i hi
  rw [getLsbD_put _ _ hi, getLsbD_put _ _ hi, getLsbD_put _ _ hi]
  split_ifs <;> rfl

/-- The flags that are there. -/
@[simp] theorem put_of : (of cpsr).put cpsr = cpsr := by
  apply BitVec.eq_of_getLsbD_eq
  intro i hi
  rw [getLsbD_put _ _ hi]
  split_ifs with h1 h2 h3 h4
  · rw [h1, of]
  · rw [h2, of]
  · rw [h3, of]
  · rw [h4, of]
  · rfl

theorem put_low (f : Flags) : SameLow cpsr (f.put cpsr) := by
  apply BitVec.eq_of_getLsbD_eq
  intro i hi
  rw [BitVec.getLsbD_setWidth, BitVec.getLsbD_setWidth, getLsbD_put _ _ (by omega)]
  simp [show i ≠ 31 by omega, show i ≠ 30 by omega, show i ≠ 29 by omega, show i ≠ 28 by omega]

/-- A status register that differs in the flags only. -/
theorem eq_put {cpsr cpsr' : BitVec 32} {f : Flags} (hlow : SameLow cpsr cpsr')
    (hflags : of cpsr' = f) : cpsr' = f.put cpsr := by
  have hput : f.put cpsr' = f.put cpsr := by
    have hlow : cpsr'.setWidth 28 = cpsr.setWidth 28 := hlow
    rw [put, put, hlow]
  rw [← hput, ← hflags, put_of]

end Flags

theorem and_nBit_ne_zero (x : BitVec 32) : (x &&& nBit != 0) = x.msb := by
  have hbit : nBit = BitVec.twoPow 32 31 := by decide
  rw [hbit, BitVec.and_twoPow, BitVec.msb_eq_getLsbD_last]
  cases x.getLsbD 31 <;> rfl

theorem carryOf_eq : carryOf cpsr = (Flags.of cpsr).c := by
  have hbit : cBit = BitVec.twoPow 32 29 := by decide
  rw [carryOf, hbit, BitVec.and_twoPow]
  unfold Flags.of
  cases cpsr.getLsbD 29 <;> rfl

theorem withCarry_eq (carry : Bool) :
    withCarry cpsr carry = Flags.put { Flags.of cpsr with c := carry } cpsr := by
  refine Flags.eq_put (withCarry_low cpsr carry) ?_
  cases carry <;> simp [Flags.of, withCarry, cBit]

/-- `set_nz`. -/
theorem setNz_eq : setNz cpsr result =
    Flags.put { Flags.of cpsr with n := result.msb, z := result == 0 } cpsr := by
  refine Flags.eq_put (setNz_low cpsr result) ?_
  rw [BitVec.msb_eq_getLsbD_last]
  by_cases h : result = 0
  · simp [Flags.of, setNz, nBit, zBit, h]
  · have h : ¬ result = 0#32 := h
    simp [Flags.of, setNz, nBit, zBit, h]

/-- The flags of a sum. -/
theorem arithFlags_eq (carry overflow : Bool) : arithFlags cpsr result carry overflow =
    Flags.put ⟨result.msb, result == 0, carry, overflow⟩ cpsr := by
  refine Flags.eq_put (arithFlags_low cpsr result carry overflow) ?_
  rw [BitVec.msb_eq_getLsbD_last]
  by_cases h : result = 0
  · cases carry <;> cases overflow <;> simp [Flags.of, arithFlags, nBit, zBit, cBit, vBit, h]
  · have h : ¬ result = 0#32 := h
    cases carry <;> cases overflow <;> simp [Flags.of, arithFlags, nBit, zBit, cBit, vBit, h]

end Flags

/-! ## The shifter -/

section Shifter

variable (x : BitVec 32) (n : ℕ) (carry : Bool)

theorem shiftLsl_eq : shiftLsl x n carry = lslCarry x n carry := by
  refine Prod.ext ?_ ?_
  · rw [lslCarry_fst]
    unfold shiftLsl
    split_ifs with h0 h1 h2
    · simp [h0]
    · rfl
    · exact (BitVec.shiftLeft_eq_zero (by omega)).symm
    · exact (BitVec.shiftLeft_eq_zero (by omega)).symm
  · unfold shiftLsl
    split_ifs with h0 h1 h2
    · simp [lslCarry, h0]
    · rw [lslCarry_snd x h0, decide_eq_true (by omega), Bool.true_and]
    · rw [lslCarry_snd x h0, decide_eq_true (by omega), Bool.true_and, h2]
    · rw [lslCarry_snd x h0, decide_eq_false (by omega), Bool.false_and]

theorem shiftLsr_eq : shiftLsr x n carry = lsrCarry x n carry := by
  refine Prod.ext ?_ ?_
  · rw [lsrCarry_fst]
    unfold shiftLsr
    split_ifs with h0 h1 h2
    · simp [h0]
    · rfl
    · exact (BitVec.ushiftRight_eq_zero (by omega)).symm
    · exact (BitVec.ushiftRight_eq_zero (by omega)).symm
  · unfold shiftLsr
    split_ifs with h0 h1 h2
    · simp [lsrCarry, h0]
    · rw [lsrCarry_snd x h0]
    · rw [lsrCarry_snd x h0, h2]
    · rw [lsrCarry_snd x h0, BitVec.getLsbD_of_ge _ _ (by omega)]

theorem shiftAsr_eq : shiftAsr x n carry = asrCarry x n carry := by
  refine Prod.ext ?_ ?_
  · rw [asrCarry_fst]
    unfold shiftAsr
    split_ifs with h0 h1
    · simp [h0]
    · rfl
    · -- beyond 31 bits there is nothing left but the sign
      apply BitVec.eq_of_getLsbD_eq
      intro i hi
      rw [BitVec.getLsbD_sshiftRight, BitVec.getLsbD_sshiftRight, if_neg (by omega : ¬ n + i < 32)]
      by_cases hzero : i = 0
      · rw [hzero, if_pos (by omega), BitVec.msb_eq_getLsbD_last]
      · rw [if_neg (by omega)]
  · unfold shiftAsr
    split_ifs with h0 h1
    · simp [asrCarry, h0]
    · rw [asrCarry_snd (by omega) x h0, if_pos (by omega)]
    · rw [asrCarry_snd (by omega) x h0]
      split_ifs with h2
      · rw [show n - 1 = 31 by omega]
      · rw [BitVec.msb_eq_getLsbD_last]

theorem shiftRor_eq (byReg : Bool) (hn : byReg = true ∨ n ≠ 0) :
    shiftRor x byReg n carry = rorCarry x n carry := by
  have hfirst : ¬ (¬ byReg = true ∧ n = 0) := by
    rcases hn with hn | hn <;> simp [hn]
  unfold shiftRor
  rw [if_neg hfirst]
  refine Prod.ext ?_ ?_
  · unfold rorCarry
    split_ifs with h0 h1
    · rw [h0, rotateRight_zero]
    · rw [← BitVec.rotateRight_mod_eq_rotateRight, h1, rotateRight_zero]
    · exact BitVec.rotateRight_mod_eq_rotateRight
  · split_ifs with h0 h1
    · simp [rorCarry, h0]
    · rw [rorCarry_snd (by omega) x h0, if_pos h1]
    · rw [rorCarry_snd (by omega) x h0, if_neg h1]

theorem shiftRor_rrx : shiftRor x false 0 carry = rrxCarry x carry := by
  refine Prod.ext ?_ rfl
  rw [rrxCarry_fst (by omega)]
  rfl

end Shifter

/-! ## Operands -/

section Operands

variable (opcode instAddr : BitVec 32) (regs : ThreadRegs)

theorem regField_eq (lsb : ℕ) : regField opcode lsb = opcodeReg opcode lsb := by
  apply Fin.ext
  simp [regField, opcodeReg, BitVec.extractLsb'_toNat]

theorem ctxReg_eq (i : Fin 16) : ctxReg instAddr regs i = readReg (instAddr + 8) regs i := rfl

theorem operandReg_eq (byReg : Bool) (i : Fin 16) : operandReg instAddr regs byReg i =
    readReg (if byReg then instAddr + 8 + 4 else instAddr + 8) regs i := by
  unfold operandReg ctxReg readReg
  cases byReg <;> by_cases h : i = 15 <;> simp [h]

/-- The operand class of a shifter form. -/
def ShiftForm.operandClass : ShiftForm → OperandClass
  | .lli => .shiftImm .lsl
  | .llr => .shiftReg .lsl
  | .lri => .shiftImm .lsr
  | .lrr => .shiftReg .lsr
  | .ari => .shiftImm .asr
  | .arr => .shiftReg .asr
  | .rri => .shiftImm .ror
  | .rrr => .shiftReg .ror
  | .imm => .imm

theorem immediate_value : opcode &&& 0xFF = (opcode.extractLsb' 0 8).setWidth 32 := by
  apply BitVec.eq_of_toNat_eq
  simp [BitVec.extractLsb'_toNat, Nat.and_two_pow_sub_one_eq_mod _ 8]
  omega

theorem immediate_rotate :
    ((opcode >>> 7) &&& 0x1E).toNat = 2 * (opcode.extractLsb' 8 4).toNat := by
  rw [BitVec.toNat_and, BitVec.toNat_ushiftRight, BitVec.extractLsb'_toNat,
    show (0x1E : BitVec 32).toNat = 2 * (2 ^ 4 - 1) from rfl]
  apply Nat.eq_of_testBit_eq
  intro i
  rw [Nat.testBit_and]
  cases i with
  | zero => simp [Nat.testBit_zero]
  | succ i =>
      rw [Nat.testBit_succ (2 * (2 ^ 4 - 1)), Nat.testBit_succ (2 * (_ % _)),
        Nat.mul_div_cancel_left _ two_pos, Nat.mul_div_cancel_left _ two_pos,
        Nat.testBit_two_pow_sub_one, Nat.testBit_mod_two_pow, Nat.testBit_shiftRight,
        Nat.testBit_shiftRight, Bool.and_comm, show 7 + (i + 1) = 8 + i by omega]

theorem shift_amount : ((opcode >>> 7) &&& 0x1F).toNat = (opcode.extractLsb' 7 5).toNat := by
  simp [BitVec.extractLsb'_toNat, Nat.and_two_pow_sub_one_eq_mod _ 5]

theorem low_byte (x : BitVec 32) : (x &&& 0xFF).toNat = x.toNat % 256 := by
  simp [Nat.and_two_pow_sub_one_eq_mod _ 8]

/-- A shifted register. -/
theorem shiftedReg_eq {form : ShiftForm} (himm : form ≠ .imm) (x : BitVec 32) (n : ℕ) (carry : Bool) :
    shiftedReg form x n carry =
      match form.operandClass with
      | .shiftImm kind => kind.byImm x n carry
      | .shiftReg kind => kind.byReg x n carry
      | .imm => (x, carry) := by
  cases form with
  | imm => exact absurd rfl himm
  | lli => exact shiftLsl_eq x n carry
  | llr => exact shiftLsl_eq x n carry
  | lri =>
      simp only [shiftedReg, ShiftForm.byReg, ShiftForm.operandClass, ShiftKind.byImm, shiftLsr_eq]
      simp
  | lrr =>
      simp only [shiftedReg, ShiftForm.byReg, ShiftForm.operandClass, ShiftKind.byReg, shiftLsr_eq]
      simp
  | ari =>
      simp only [shiftedReg, ShiftForm.byReg, ShiftForm.operandClass, ShiftKind.byImm, shiftAsr_eq]
      simp
  | arr =>
      simp only [shiftedReg, ShiftForm.byReg, ShiftForm.operandClass, ShiftKind.byReg, shiftAsr_eq]
      simp
  | rri =>
      simp only [shiftedReg, ShiftForm.byReg, ShiftForm.operandClass, ShiftKind.byImm]
      split_ifs with h
      · rw [h, shiftRor_rrx]
      · exact shiftRor_eq x n carry false (.inr h)
  | rrr => exact shiftRor_eq x n carry true (.inl rfl)

/-- **The shifter** gives the operand, and its carry to the logical operations. -/
theorem aluShift_eq (form : ShiftForm) (setCarry : Bool) (op : DataOp) (s : Bool) :
    aluShift form setCarry instAddr regs opcode =
      let v := (DataInst.ofClass opcode (op, s, form.operandClass)).operand.value (instAddr + 8) regs
      (v.1, if setCarry then Flags.put { Flags.of regs.cpsr with c := v.2 } regs.cpsr
        else regs.cpsr) := by
  unfold aluShift
  by_cases himm : form = .imm
  · subst himm
    simp only [if_true, ShiftForm.operandClass, DataInst.ofClass, Operand2.value,
      immediate_value, immediate_rotate]
    by_cases hrot : 2 * (opcode.extractLsb' 8 4).toNat = 0
    · rw [if_pos hrot, hrot]
      refine Prod.ext (rotateRight_zero _).symm ?_
      cases setCarry
      · rfl
      · exact (Flags.put_of regs.cpsr).symm
    · rw [if_neg hrot]
      simp only [rorCarry, if_neg hrot, withCarry_eq, BitVec.msb_eq_getLsbD_last]
  · rw [if_neg himm]
    simp only [shiftedReg_eq himm, withCarry_eq, carryOf_eq, operandReg_eq, ctxReg_eq]
    cases form with
    | imm => exact absurd rfl himm
    | lli | lri | ari | rri =>
        simp only [ShiftForm.operandClass, ShiftForm.byReg, DataInst.ofClass, Operand2.value,
          regField_eq, shift_amount, Bool.false_eq_true, if_false]
    | llr | lrr | arr | rrr =>
        simp only [ShiftForm.operandClass, ShiftForm.byReg, DataInst.ofClass, Operand2.value,
          regField_eq, low_byte, if_true]

end Operands

/-! ## The operations -/

/-- The operation of a handler. -/
def AluOp.dataOp : AluOp → DataOp
  | .and | .ands => .and
  | .eor | .eors => .eor
  | .orr | .orrs => .orr
  | .bic | .bics => .bic
  | .mov | .movs => .mov
  | .mvn | .mvns => .mvn
  | .add | .adds => .add
  | .sub | .subs => .sub
  | .rsb | .rsbs => .rsb
  | .adc | .adcs => .adc
  | .sbc | .sbcs => .sbc
  | .rsc | .rscs => .rsc

/-- The operation of a test. -/
def TestOp.dataOp : TestOp → DataOp
  | tst => .tst
  | teq => .teq
  | cmp => .cmp
  | cmn => .cmn

/-- The status register after a result that sets the flags. -/
def resultFlags (cpsr : BitVec 32) (r : BitVec 32 × Bool × Bool) : BitVec 32 :=
  Flags.put ⟨r.1.msb, r.1 == 0, r.2.1, r.2.2⟩ cpsr

section Sums

variable (cpsr a b : BitVec 32)

theorem sum_overflow (result : BitVec 32) :
    (~~~(a ^^^ b) &&& (a ^^^ result) &&& nBit != 0) =
      (a.msb == b.msb && a.msb != result.msb) := by
  rw [and_nBit_ne_zero, BitVec.msb_and, BitVec.msb_not, BitVec.msb_xor, BitVec.msb_xor]
  cases a.msb <;> cases b.msb <;> cases result.msb <;> rfl

theorem difference_overflow (result : BitVec 32) :
    ((a ^^^ b) &&& (a ^^^ result) &&& nBit != 0) =
      (a.msb != b.msb && a.msb != result.msb) := by
  rw [and_nBit_ne_zero, BitVec.msb_and, BitVec.msb_xor, BitVec.msb_xor]

/-- `adc_flags`. -/
theorem adcFlags_eq (carry : Bool) :
    adcFlags cpsr a b carry.toNat (addWithCarry a b carry).1 =
      resultFlags cpsr (addWithCarry a b carry) := by
  have hcarry : decide (a.toNat + b.toNat + carry.toNat > 0xFFFFFFFF) =
      decide (2 ^ 32 ≤ a.toNat + b.toNat + carry.toNat) := by
    rw [decide_eq_decide]
    omega
  rw [adcFlags, arithFlags_eq, resultFlags, sum_overflow, hcarry, addWithCarry_carry,
    addWithCarry_overflow (by omega)]

/-- `add_flags`. -/
theorem addFlags_eq : addFlags cpsr a b (addWithCarry a b false).1 =
    resultFlags cpsr (addWithCarry a b false) := by
  rw [← adcFlags_eq]
  rfl

/-- `sbc_flags`. -/
theorem sbcFlags_eq (carry : Bool) :
    sbcFlags cpsr a b carry.toNat (addWithCarry a (~~~b) carry).1 =
      resultFlags cpsr (addWithCarry a (~~~b) carry) := by
  rw [sbcFlags, arithFlags_eq, resultFlags, difference_overflow, addWithCarry_not_carry,
    addWithCarry_not_overflow (by omega)]

/-- `sub_flags`. -/
theorem subFlags_eq : subFlags cpsr a b (addWithCarry a (~~~b) true).1 =
    resultFlags cpsr (addWithCarry a (~~~b) true) := by
  rw [← sbcFlags_eq]
  rfl

theorem add_eq : a + b = (addWithCarry a b false).1 := by
  rw [addWithCarry_fst]
  exact (BitVec.add_zero _).symm

theorem sub_eq : a - b = (addWithCarry a (~~~b) true).1 := by
  rw [addWithCarry_not]
  exact (BitVec.sub_zero _).symm

theorem doAdd_eq (s : Bool) : doAdd cpsr a b s =
    let r := addWithCarry a b false
    (r.1, if s then resultFlags cpsr r else cpsr) := by
  rw [doAdd, add_eq, addFlags_eq]

theorem doSub_eq (s : Bool) : doSub cpsr a b s =
    let r := addWithCarry a (~~~b) true
    (r.1, if s then resultFlags cpsr r else cpsr) := by
  rw [doSub, sub_eq, subFlags_eq]

theorem doAdc_eq (s : Bool) : doAdc cpsr a b s =
    let r := addWithCarry a b (Flags.of cpsr).c
    (r.1, if s then resultFlags cpsr r else cpsr) := by
  rw [doAdc, carryOf_eq, ← addWithCarry_fst, adcFlags_eq]

theorem doSbc_eq (s : Bool) : doSbc cpsr a b s =
    let r := addWithCarry a (~~~b) (Flags.of cpsr).c
    (r.1, if s then resultFlags cpsr r else cpsr) := by
  rw [doSbc, carryOf_eq, ← addWithCarry_not, sbcFlags_eq]

/-- A reversed operation is the operation of the reversed operands. -/
theorem doRsb_eq (s : Bool) : doRsb cpsr a b s =
    let r := addWithCarry b (~~~a) true
    (r.1, if s then resultFlags cpsr r else cpsr) := doSub_eq cpsr b a s

theorem doRsc_eq (s : Bool) : doRsc cpsr a b s =
    let r := addWithCarry b (~~~a) (Flags.of cpsr).c
    (r.1, if s then resultFlags cpsr r else cpsr) := doSbc_eq cpsr b a s

end Sums

section Operations

variable (cpsr a b : BitVec 32) (shiftCarry : Bool)

/-- The status register the shifter leaves. -/
def shiftedCpsr (setCarry : Bool) (cpsr : BitVec 32) (shiftCarry : Bool) : BitVec 32 :=
  if setCarry then Flags.put { Flags.of cpsr with c := shiftCarry } cpsr else cpsr

/-- The flags of a logical result: the carry is there already. -/
theorem setNz_shifted (result : BitVec 32) :
    setNz (shiftedCpsr true cpsr shiftCarry) result =
      resultFlags cpsr (result, shiftCarry, (Flags.of cpsr).v) := by
  rw [setNz_eq, shiftedCpsr, if_pos rfl, Flags.of_put, Flags.put_put, resultFlags]

/-- A logical operation. -/
theorem defLogical_eq (s isMov : Bool) (body : BitVec 32 → BitVec 32 → BitVec 32) :
    (defLogical s isMov body).compute (shiftedCpsr s cpsr shiftCarry) a b =
      (body a b, if s then resultFlags cpsr (body a b, shiftCarry, (Flags.of cpsr).v) else cpsr) := by
  cases s
  · simp only [defLogical, shiftedCpsr, Bool.false_eq_true, if_false]
  · simp only [defLogical, if_true, setNz_shifted]

/-- **The operations** compute what the architecture says. -/
theorem AluOp.compute_eq (op : AluOp) :
    op.handler.compute (shiftedCpsr op.handler.shiftCarry cpsr shiftCarry) a b =
      let r := op.dataOp.eval a b shiftCarry (Flags.of cpsr)
      (r.1, if op.handler.setFlags then resultFlags cpsr r else cpsr) := by
  cases op with
  | and | ands | eor | eors | orr | orrs | bic | bics | mov | movs | mvn | mvns =>
      exact defLogical_eq cpsr a b shiftCarry _ _ _
  | add | adds => exact doAdd_eq cpsr a b _
  | sub | subs => exact doSub_eq cpsr a b _
  | rsb | rsbs => exact doRsb_eq cpsr a b _
  | adc | adcs => exact doAdc_eq cpsr a b _
  | sbc | sbcs => exact doSbc_eq cpsr a b _
  | rsc | rscs => exact doRsc_eq cpsr a b _

/-- The tests set the flags the architecture says. -/
theorem TestOp.flags_eq (t : TestOp) :
    t.flags (shiftedCpsr t.logical cpsr shiftCarry) a b =
      resultFlags cpsr (t.dataOp.eval a b shiftCarry (Flags.of cpsr)) := by
  cases t with
  | tst => exact setNz_shifted cpsr shiftCarry (a &&& b)
  | teq => exact setNz_shifted cpsr shiftCarry (a ^^^ b)
  | cmp =>
      rw [TestOp.flags, sub_eq]
      exact subFlags_eq cpsr a b
  | cmn =>
      rw [TestOp.flags, add_eq]
      exact addFlags_eq cpsr a b

end Operations

/-! ## Instructions -/

section Instructions

variable (opcode instAddr : BitVec 32) (regs : ThreadRegs)

theorem storeBank_withCpsr (v mode : BitVec 32) :
    ({ regs with cpsr := v } : ThreadRegs).storeBank mode =
      { regs.storeBank mode with cpsr := v } := by
  unfold ThreadRegs.storeBank
  split_ifs <;> rfl

theorem loadBank_withCpsr (v mode : BitVec 32) :
    ({ regs with cpsr := v } : ThreadRegs).loadBank mode =
      { regs.loadBank mode with cpsr := v } := by
  unfold ThreadRegs.loadBank
  split_ifs <;> rfl

/-- A change of the mode depends on the mode only. -/
theorem setCpsr_withCpsr {cpsr : BitVec 32} (hlow : SameLow regs.cpsr cpsr) (value : BitVec 32) :
    ({ regs with cpsr := cpsr } : ThreadRegs).setCpsr value false = regs.setCpsr value false := by
  have hswitch : ∀ mode mode', ({ regs with cpsr := cpsr } : ThreadRegs).switchBank mode mode' =
      { regs.switchBank mode mode' with cpsr := cpsr } := by
    intro mode mode'
    unfold ThreadRegs.switchBank
    split_ifs
    · rfl
    · rfl
    · rfl
    · rw [storeBank_withCpsr, loadBank_withCpsr]
  unfold ThreadRegs.setCpsr
  simp only [hswitch, cpsrMode_of_low hlow, Bool.false_eq_true, if_false]

/-- A return from an exception: the flags that were set before do not matter where there is a saved
status register. -/
theorem restoreSpsr_withCpsr {cpsr : BitVec 32} (hlow : SameLow regs.cpsr cpsr) :
    ({ regs with cpsr := cpsr } : ThreadRegs).restoreSpsr =
      if regs.isUser = false then regs.setCpsr regs.spsr false else { regs with cpsr := cpsr } := by
  have huser : ({ regs with cpsr := cpsr } : ThreadRegs).isUser = regs.isUser := by
    rw [ThreadRegs.isUser, ThreadRegs.isUser, cpsrMode_of_low hlow]
  unfold ThreadRegs.restoreSpsr
  rw [huser, setCpsr_withCpsr regs hlow]
  cases regs.isUser <;> rfl

variable (form : ShiftForm) (op : DataOp) (s : Bool)

theorem aluRn_eq : aluRn instAddr regs opcode form.byReg =
    readReg (instAddr + 8 +
      (DataInst.ofClass opcode (op, s, form.operandClass)).operand.pcAhead) regs
      (regField opcode 16) := by
  have hzero : ∀ x : BitVec 32, x + 0 = x := BitVec.add_zero
  rw [aluRn, operandReg_eq, regField_eq]
  cases form <;> simp only [ShiftForm.byReg, ShiftForm.operandClass, DataInst.ofClass,
    Operand2.pcAhead, hzero, if_true, Bool.false_eq_true, if_false]

/-- The result of an instruction. -/
def DataInst.result (inst : DataInst) (pc : BitVec 32) : BitVec 32 × Bool × Bool :=
  let b := inst.operand.value pc regs
  inst.op.eval (readReg (pc + inst.operand.pcAhead) regs inst.rn) b.1 b.2 (Flags.of regs.cpsr)

theorem resultFlags_low (cpsr : BitVec 32) (r : BitVec 32 × Bool × Bool) :
    SameLow cpsr (resultFlags cpsr r) := Flags.put_low _ _

/-- An instruction by its result. -/
theorem DataInst.exec_eq (inst : DataInst) (pc : BitVec 32) :
    inst.exec pc regs =
      let regs' :=
        if inst.s = false then regs
        else if inst.rd = 15 then
          ({ regs with cpsr := resultFlags regs.cpsr (inst.result regs pc) } : ThreadRegs).restoreSpsr
        else { regs with cpsr := resultFlags regs.cpsr (inst.result regs pc) }
      if inst.op.isTest then (regs', none)
      else if inst.rd = 15 then (regs', some (pcTarget (cpsrThumb regs'.cpsr) (inst.result regs pc).1))
      else (regs'.setReg inst.rd (inst.result regs pc).1, none) := by
  rw [restoreSpsr_withCpsr regs (resultFlags_low _ _)]
  unfold DataInst.exec DataInst.result resultFlags
  by_cases hrd : inst.rd = 15
  · simp only [hrd, true_and, if_true]
  · simp only [hrd, false_and, if_false]

theorem aluResult_eq (o : AluOp) :
    let inst := DataInst.ofClass opcode (o.dataOp, o.handler.setFlags, form.operandClass)
    aluResult o.handler form opcode instAddr regs =
      ((inst.result regs (instAddr + 8)).1,
        { regs with cpsr := if o.handler.setFlags then
            resultFlags regs.cpsr (inst.result regs (instAddr + 8)) else regs.cpsr }) := by
  simp only [aluResult, aluShift_eq opcode instAddr regs form _ o.dataOp o.handler.setFlags,
    aluRn_eq opcode instAddr regs form o.dataOp o.handler.setFlags]
  have h := AluOp.compute_eq regs.cpsr
    (readReg (instAddr + 8 + (DataInst.ofClass opcode
      (o.dataOp, o.handler.setFlags, form.operandClass)).operand.pcAhead) regs (regField opcode 16))
    ((DataInst.ofClass opcode (o.dataOp, o.handler.setFlags, form.operandClass)).operand.value
      (instAddr + 8) regs).1
    ((DataInst.ofClass opcode (o.dataOp, o.handler.setFlags, form.operandClass)).operand.value
      (instAddr + 8) regs).2 o
  rw [shiftedCpsr] at h
  rw [h]
  rfl

/-- The end of an operation: a write to a register, or to the pc. -/
theorem aluFinish_target (isMov setFlags : Bool) (result : BitVec 32) :
    let r := aluFinish form isMov opcode result setFlags regs
    (r.1, r.2.branchTarget) =
      if opcodeRd opcode = 15 then
        (if setFlags then regs.restoreSpsr else regs,
          some (pcTarget (cpsrThumb (if setFlags then regs.restoreSpsr else regs).cpsr) result))
      else (regs.setReg (opcodeRd opcode) result, none) := by
  unfold aluFinish
  by_cases h15 : opcodeRd opcode = 15
  · simp only [if_pos h15]
    generalize (if setFlags then regs.restoreSpsr else regs) = regs'
    by_cases hreturn : isMov = true ∧ ¬ setFlags = true ∧ form ≠ .imm ∧
        (opcodeReg opcode 0 = 14 ∨ form.byReg = true ∧ opcodeReg opcode 8 = 14)
    · rw [if_pos hreturn]
      rfl
    · rw [if_neg hreturn]
      rfl
  · simp only [if_neg h15]
    rfl

/-- **A handler of an operation.** -/
theorem aluStep_exec (o : AluOp) :
    let r := aluStep o form opcode instAddr regs
    (r.1, r.2.branchTarget) =
      (DataInst.ofClass opcode (o.dataOp, o.handler.setFlags, form.operandClass)).exec
        (instAddr + 8) regs := by
  have htest : o.dataOp.isTest = false := by cases o <;> rfl
  have hfinish := aluFinish_target opcode (aluResult o.handler form opcode instAddr regs).2 form
    o.handler.isMov o.handler.setFlags (aluResult o.handler form opcode instAddr regs).1
  rw [DataInst.exec_eq]
  refine hfinish.trans ?_
  rw [aluResult_eq]
  generalize hinst : DataInst.ofClass opcode (o.dataOp, o.handler.setFlags, form.operandClass) = inst
  have hop : inst.op = o.dataOp := by rw [← hinst]; rfl
  have hs : inst.s = o.handler.setFlags := by rw [← hinst]; rfl
  have hrd : inst.rd = opcodeRd opcode := by
    rw [← hinst]
    exact regField_eq opcode 12
  rw [hop, hs, hrd, htest]
  by_cases h15 : opcodeRd opcode = 15
  · simp only [h15, if_true, Bool.false_eq_true, if_false]
    cases o.handler.setFlags <;> rfl
  · simp only [h15, if_false, Bool.false_eq_true]
    cases o.handler.setFlags <;> rfl

/-- The field of a destination. -/
theorem rd_field : opcode &&& 0xF000 = 0xF000 ↔ regField opcode 12 = 15 := by
  have hfield : regField opcode 12 = 15 ↔ opcode.extractLsb' 12 4 = 15#4 := by
    rw [← BitVec.toNat_inj, regField, Fin.ext_iff]
    have hlt := (opcode.extractLsb' 12 4).isLt
    simp only [Fin.val_ofNat]
    rw [Nat.mod_eq_of_lt (by omega)]
    rfl
  rw [hfield]
  constructor
  · intro h
    apply BitVec.eq_of_getLsbD_eq
    intro i hi
    have hbit := congrArg (fun x : BitVec 32 => x.getLsbD (12 + i)) h
    have hmask : ∀ i < 4, (0xF000 : BitVec 32).getLsbD (12 + i) = true ∧ (15#4).getLsbD i = true := by
      decide
    simp only [BitVec.getLsbD_and, (hmask i hi).1, Bool.and_true] at hbit
    rw [BitVec.getLsbD_extractLsb', hbit, (hmask i hi).2, decide_eq_true hi, Bool.true_and]
  · intro h
    apply BitVec.eq_of_getLsbD_eq
    intro i hi
    rw [BitVec.getLsbD_and]
    by_cases hin : 12 ≤ i ∧ i < 16
    · obtain ⟨j, rfl⟩ := Nat.exists_eq_add_of_le hin.1
      have hbit := congrArg (fun x : BitVec 4 => x.getLsbD j) h
      have hones : ∀ j < 4, (15#4).getLsbD j = true := by decide
      simp only [BitVec.getLsbD_extractLsb', hones j (by omega), decide_eq_true (show j < 4 by omega),
        Bool.true_and] at hbit
      rw [hbit, Bool.true_and]
    · have hmask : ∀ i < 32, ¬ (12 ≤ i ∧ i < 16) → (0xF000 : BitVec 32).getLsbD i = false := by
        decide
      rw [hmask i hi hin, Bool.and_false]

/-- **A handler of a test.** -/
theorem testStep_exec (t : TestOp) :
    let r := testStep t form opcode instAddr regs
    (r.1, r.2.branchTarget) =
      (DataInst.ofClass opcode (t.dataOp, true, form.operandClass)).exec (instAddr + 8) regs := by
  have htest : t.dataOp.isTest = true := by cases t <;> rfl
  have hflags := TestOp.flags_eq regs.cpsr
    (readReg (instAddr + 8 +
      (DataInst.ofClass opcode (t.dataOp, true, form.operandClass)).operand.pcAhead) regs
      (regField opcode 16))
    ((DataInst.ofClass opcode (t.dataOp, true, form.operandClass)).operand.value
      (instAddr + 8) regs).1
    ((DataInst.ofClass opcode (t.dataOp, true, form.operandClass)).operand.value
      (instAddr + 8) regs).2 t
  rw [shiftedCpsr] at hflags
  rw [DataInst.exec_eq]
  simp only [testStep, testRd15Quirk, aluShift_eq opcode instAddr regs form _ t.dataOp true,
    aluRn_eq opcode instAddr regs form t.dataOp true, hflags, rd_field]
  have hop : (DataInst.ofClass opcode (t.dataOp, true, form.operandClass)).op = t.dataOp := rfl
  have hs : (DataInst.ofClass opcode (t.dataOp, true, form.operandClass)).s = true := rfl
  have hrd : (DataInst.ofClass opcode (t.dataOp, true, form.operandClass)).rd =
    regField opcode 12 := rfl
  rw [hop, hs, hrd, htest]
  by_cases h15 : regField opcode 12 = 15
  · simp only [h15, if_true, Bool.true_eq_false, if_false]
    rfl
  · simp only [h15, if_false, Bool.true_eq_false, if_true]
    rfl

end Instructions

/-! ## The dispatch -/

/-- The S bit of a function. -/
def AluFn.setFlags : AluFn → Bool
  | op o => o.handler.setFlags
  | test _ => true

/-- The operation of a function. -/
def AluFn.dataOp : AluFn → DataOp
  | op o => o.dataOp
  | test t => t.dataOp

/-- **The table** has the classes of the architecture. -/
theorem armTableAlu_class (row : BitVec 8) (column : BitVec 4) :
    (armTableAlu row column).map (fun e => (e.1.dataOp, e.1.setFlags, e.2.operandClass)) =
      dataClass row column := by
  revert row column
  decide +kernel

/-- **Every opcode of data processing** does what the architecture says, and every other one is
dispatched to another handler. -/
theorem armAlu_exec (opcode instAddr : BitVec 32) (regs : ThreadRegs) :
    (armAlu opcode instAddr regs).map (fun r => (r.1, r.2.branchTarget)) =
      (DataInst.decode opcode).map fun inst => inst.exec (instAddr + 8) regs := by
  rw [armAlu, DataInst.decode, ← armTableAlu_class]
  cases armTableAlu (opcode.extractLsb' 20 8) (opcode.extractLsb' 4 4) with
  | none => rfl
  | some e =>
      obtain ⟨f, form⟩ := e
      cases f with
      | op o => exact congrArg some (aluStep_exec opcode instAddr regs form o)
      | test t => exact congrArg some (testStep_exec opcode instAddr regs form t)

end AdvancedSlop
