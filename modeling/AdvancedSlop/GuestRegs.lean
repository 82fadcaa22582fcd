/-
# Registers by number

`thread_get_reg` and `thread_get_reg_usr`: the current registers and those of the user bank, by
number.

* `getReg`, `setReg` : `r0` to `r15`;
* `getRegUsr`, `setRegUsr` : the same, with `r8` to `r14` of the user bank;
* `ext_reg` : what a register file is made of;
* `restoreSpsr`, `restoreThumbMode`, `forcePcArmMode` : the pc and the status register.
-/
import AdvancedSlop.ThreadRegs

namespace AdvancedSlop

/-- The registers have numbers. -/
theorem neZero_regs : NeZero 16 := ⟨by decide⟩

namespace ThreadRegs

/-! ## The registers -/

/-- `thread_get_reg`. -/
def getReg (regs : ThreadRegs) (i : Fin 16) : BitVec 32 :=
  if h : i.val < 13 then regs.gpRegs ⟨i, h⟩
  else if i = 13 then regs.sp
  else if i = 14 then regs.lr
  else regs.pc

/-- A write through `thread_get_reg_mut`. -/
def setReg (regs : ThreadRegs) (i : Fin 16) (value : BitVec 32) : ThreadRegs :=
  if h : i.val < 13 then { regs with gpRegs := Function.update regs.gpRegs ⟨i, h⟩ value }
  else if i = 13 then { regs with sp := value }
  else if i = 14 then { regs with lr := value }
  else { regs with pc := value }

/-- The number of a high register in its bank. -/
theorem bank_index_lt {i : Fin 16} (h : 8 ≤ i.val ∧ i.val < 13) : i.val - 8 < 5 := by omega

/-- `thread_get_reg_usr`. -/
def getRegUsr (regs : ThreadRegs) (i : Fin 16) : BitVec 32 :=
  if h : 8 ≤ i.val ∧ i.val < 13 then regs.user.gpRegs ⟨i - 8, bank_index_lt h⟩
  else if i = 13 then regs.user.sp
  else if i = 14 then regs.user.lr
  else regs.getReg i

/-- A write through `thread_get_reg_usr_mut`. -/
def setRegUsr (regs : ThreadRegs) (i : Fin 16) (value : BitVec 32) : ThreadRegs :=
  if h : 8 ≤ i.val ∧ i.val < 13 then
    { regs with user := { regs.user with
        gpRegs := Function.update regs.user.gpRegs ⟨i - 8, bank_index_lt h⟩ value } }
  else if i = 13 then { regs with user := { regs.user with sp := value } }
  else if i = 14 then { regs with user := { regs.user with lr := value } }
  else regs.setReg i value

/-- What the numbers do not reach. -/
def sameBanks (regs regs' : ThreadRegs) : Prop :=
  regs'.cpsr = regs.cpsr ∧ regs'.spsr = regs.spsr ∧ regs'.ime = regs.ime ∧ regs'.ie = regs.ie ∧
    regs'.irf = regs.irf ∧ regs'.user = regs.user ∧ regs'.fiq = regs.fiq ∧ regs'.svc = regs.svc ∧
    regs'.abt = regs.abt ∧ regs'.irq = regs.irq ∧ regs'.und = regs.und

variable {regs regs' : ThreadRegs} {i j : Fin 16} {value : BitVec 32}

theorem setReg_sameBanks (regs : ThreadRegs) (i : Fin 16) (value : BitVec 32) :
    regs.sameBanks (regs.setReg i value) := by
  unfold setReg
  split_ifs <;> exact ⟨rfl, rfl, rfl, rfl, rfl, rfl, rfl, rfl, rfl, rfl, rfl⟩

@[simp] theorem setReg_cpsr : (regs.setReg i value).cpsr = regs.cpsr :=
  (regs.setReg_sameBanks i value).1

@[simp] theorem setReg_spsr : (regs.setReg i value).spsr = regs.spsr :=
  (regs.setReg_sameBanks i value).2.1

@[simp] theorem setReg_user : (regs.setReg i value).user = regs.user :=
  (regs.setReg_sameBanks i value).2.2.2.2.2.1

@[simp] theorem setReg_isUser : (regs.setReg i value).isUser = regs.isUser := by
  rw [isUser, isUser, setReg_cpsr]

/-- A number above 14 is 15. -/
theorem eq_fifteen (h : ¬ i.val < 13) (h13 : i ≠ 13) (h14 : i ≠ 14) : i = 15 := by
  have := i.isLt
  have hne13 : i.val ≠ 13 := fun h => h13 (Fin.ext h)
  have hne14 : i.val ≠ 14 := fun h => h14 (Fin.ext h)
  exact Fin.ext (show i.val = 15 by omega)

@[simp] theorem getReg_setReg_self (regs : ThreadRegs) (i : Fin 16) (value : BitVec 32) :
    (regs.setReg i value).getReg i = value := by
  unfold getReg setReg
  split_ifs
  · exact Function.update_self _ _ _
  · rfl
  · rfl
  · rfl

theorem getReg_setReg_of_ne (h : j ≠ i) (regs : ThreadRegs) (value : BitVec 32) :
    (regs.setReg i value).getReg j = regs.getReg j := by
  unfold getReg setReg
  split_ifs with hj hi hj13 hj14 <;> try rfl
  · have hne : (⟨j, hj⟩ : Fin 13) ≠ ⟨i, hi⟩ := fun heq => h (Fin.ext (Fin.mk.inj heq))
    exact Function.update_of_ne hne _ _
  all_goals
    subst_vars
    first
      | exact absurd rfl h
      | exact absurd ((eq_fifteen ‹_› ‹_› ‹_›).trans (eq_fifteen ‹_› ‹_› ‹_›).symm) h

theorem setReg_setReg (regs : ThreadRegs) (i : Fin 16) (value value' : BitVec 32) :
    (regs.setReg i value').setReg i value = regs.setReg i value := by
  unfold setReg
  split_ifs
  · simp only [Function.update_idem]
  · rfl
  · rfl
  · rfl

theorem setReg_comm (h : i ≠ j) (regs : ThreadRegs) (value value' : BitVec 32) :
    (regs.setReg i value).setReg j value' = (regs.setReg j value').setReg i value := by
  unfold setReg
  split_ifs with hj hi <;> try rfl
  · have hne : (⟨i, hi⟩ : Fin 13) ≠ ⟨j, hj⟩ := fun heq => h (Fin.ext (Fin.mk.inj heq))
    simp only [Function.update_comm hne]
  all_goals
    subst_vars
    first
      | exact absurd rfl h
      | exact absurd ((eq_fifteen ‹_› ‹_› ‹_›).trans (eq_fifteen ‹_› ‹_› ‹_›).symm) h

/-- **A register file** is its sixteen registers and what the numbers do not reach. -/
theorem ext_reg (hreg : ∀ i, regs'.getReg i = regs.getReg i) (hbanks : regs.sameBanks regs') :
    regs' = regs := by
  obtain ⟨h1, h2, h3, h4, h5, h6, h7, h8, h9, h10, h11⟩ := hbanks
  have hgp : regs'.gpRegs = regs.gpRegs := by
    funext k
    have h := hreg ⟨k, by omega⟩
    rw [getReg, getReg, dif_pos k.isLt, dif_pos k.isLt] at h
    exact h
  have hsp : regs'.sp = regs.sp := hreg 13
  have hlr : regs'.lr = regs.lr := hreg 14
  have hpc : regs'.pc = regs.pc := hreg 15
  cases regs'
  cases regs
  simp only at h1 h2 h3 h4 h5 h6 h7 h8 h9 h10 h11 hgp hsp hlr hpc
  subst h1 h2 h3 h4 h5 h6 h7 h8 h9 h10 h11 hgp hsp hlr hpc
  rfl

/-! ## The user bank -/

/-- The register is one of the bank. -/
def Banked (fiq : Prop) (i : Fin 16) : Prop := i = 13 ∨ i = 14 ∨ fiq ∧ 8 ≤ i.val ∧ i.val < 13

instance (fiq : Prop) [Decidable fiq] (i : Fin 16) : Decidable (Banked fiq i) :=
  inferInstanceAs (Decidable (_ ∨ _ ∨ _))

/-- The registers that are not banked in any mode. -/
theorem getRegUsr_of_low (h : i.val < 8) : regs.getRegUsr i = regs.getReg i := by
  unfold getRegUsr
  rw [dif_neg (by omega), if_neg, if_neg]
  · rintro rfl
    exact absurd h (by decide)
  · rintro rfl
    exact absurd h (by decide)

theorem setRegUsr_of_low (h : i.val < 8) : regs.setRegUsr i value = regs.setReg i value := by
  unfold setRegUsr
  rw [dif_neg (by omega), if_neg, if_neg]
  · rintro rfl
    exact absurd h (by decide)
  · rintro rfl
    exact absurd h (by decide)

/-- The user bank is not that of the numbers. -/
theorem getRegUsr_setReg (h : 8 ≤ i.val) (h15 : i ≠ 15) :
    (regs.setReg j value).getRegUsr i = regs.getRegUsr i := by
  unfold getRegUsr
  split_ifs with hhigh h13 h14
  · rw [setReg_user]
  · rw [setReg_user]
  · rw [setReg_user]
  · have := eq_fifteen (fun hlt => hhigh ⟨h, hlt⟩) h13 h14
    exact absurd this h15

theorem getReg_setRegUsr (h : 8 ≤ i.val) (h15 : i ≠ 15) :
    (regs.setRegUsr i value).getReg j = regs.getReg j := by
  unfold setRegUsr
  split_ifs with hhigh h13 h14
  · rfl
  · rfl
  · rfl
  · have := eq_fifteen (fun hlt => hhigh ⟨h, hlt⟩) h13 h14
    exact absurd this h15

@[simp] theorem getRegUsr_setRegUsr_self (regs : ThreadRegs) (i : Fin 16) (value : BitVec 32) :
    (regs.setRegUsr i value).getRegUsr i = value := by
  unfold getRegUsr setRegUsr
  split_ifs
  · exact Function.update_self _ _ _
  · rfl
  · rfl
  · exact getReg_setReg_self regs i value

theorem getRegUsr_setRegUsr_of_ne (h : j ≠ i) (regs : ThreadRegs) (value : BitVec 32) :
    (regs.setRegUsr i value).getRegUsr j = regs.getRegUsr j := by
  unfold setRegUsr
  split_ifs with hi h13 h14
  · unfold getRegUsr
    split_ifs with hj <;> try rfl
    have hne : (⟨j - 8, bank_index_lt hj⟩ : Fin 5) ≠ ⟨i - 8, bank_index_lt hi⟩ := by
      intro heq
      have := Fin.mk.inj heq
      exact h (Fin.ext (by omega))
    exact Function.update_of_ne hne _ _
  · subst h13
    unfold getRegUsr
    split_ifs <;> rfl
  · subst h14
    unfold getRegUsr
    split_ifs <;> rfl
  · unfold getRegUsr
    rw [setReg_user, getReg_setReg_of_ne h]

theorem getReg_setRegUsr_of_ne (h : j ≠ i) (regs : ThreadRegs) (value : BitVec 32) :
    (regs.setRegUsr i value).getReg j = regs.getReg j := by
  unfold setRegUsr
  split_ifs
  · rfl
  · rfl
  · rfl
  · exact getReg_setReg_of_ne h regs value

theorem getRegUsr_setReg_of_ne (h : j ≠ i) (regs : ThreadRegs) (value : BitVec 32) :
    (regs.setReg i value).getRegUsr j = regs.getRegUsr j := by
  unfold getRegUsr
  rw [setReg_user, getReg_setReg_of_ne h]

/-- A register that no mode banks is the same in both files. -/
theorem not_banked_cases (h : ¬ Banked True i) : i.val < 8 ∨ i = 15 := by
  by_cases h15 : i = 15
  · exact .inr h15
  · refine .inl (Nat.lt_of_not_le fun hge => h15 ?_)
    exact eq_fifteen (fun hlt => h (.inr (.inr ⟨trivial, hge, hlt⟩))) (fun h13 => h (.inl h13))
      fun h14 => h (.inr (.inl h14))

theorem setRegUsr_of_not_banked (h : ¬ Banked True i) :
    regs.setRegUsr i value = regs.setReg i value := by
  rcases not_banked_cases h with hlow | rfl
  · exact setRegUsr_of_low hlow
  · rfl

/-- Registers of the two files are written in any order. -/
theorem setRegUsr_setReg_comm (h : i ≠ j) (regs : ThreadRegs) (value value' : BitVec 32) :
    (regs.setReg j value').setRegUsr i value = (regs.setRegUsr i value).setReg j value' := by
  unfold setRegUsr
  split_ifs
  · unfold setReg
    split_ifs <;> rfl
  · unfold setReg
    split_ifs <;> rfl
  · unfold setReg
    split_ifs <;> rfl
  · exact setReg_comm h.symm regs value' value

theorem setRegUsr_cpsr : (regs.setRegUsr i value).cpsr = regs.cpsr := by
  unfold setRegUsr
  split_ifs
  · rfl
  · rfl
  · rfl
  · exact setReg_cpsr

theorem setRegUsr_spsr : (regs.setRegUsr i value).spsr = regs.spsr := by
  unfold setRegUsr
  split_ifs
  · rfl
  · rfl
  · rfl
  · exact setReg_spsr

/-! ## The pc and the status register -/

/-- `thread_is_fiq_mode`. -/
def isFiq (regs : ThreadRegs) : Bool := cpsrMode regs.cpsr == 0x11

/-- `thread_restore_spsr`, up to its `cpu_check_for_interrupt`. -/
def restoreSpsr (regs : ThreadRegs) : ThreadRegs :=
  if regs.isUser then regs else regs.setCpsr regs.spsr false

/-- `thread_restore_thumb_mode`. -/
def restoreThumbMode (regs : ThreadRegs) : ThreadRegs :=
  { regs with pc := (regs.pc &&& ~~~1) ||| (if cpsrThumb regs.cpsr then 1 else 0) }

/-- `thread_force_pc_arm_mode`. -/
def forcePcArmMode (regs : ThreadRegs) : ThreadRegs := { regs with pc := regs.pc &&& ~~~1 }

end ThreadRegs

end AdvancedSlop
