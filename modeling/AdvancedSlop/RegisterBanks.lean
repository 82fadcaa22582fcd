/-
# The register banks

The ARM7 has a stack pointer, a link register and a saved status register for every exception
mode, and `r8` to `r12` of its own for FIQ.  `ThreadRegs` keeps the registers of the current mode
in one place and those of the other modes in banks, and a mode switch moves them.  The fast paths
between user mode and IRQ mode move the stack pointer and the link register only.

* `BankedRegs` : the register file of the architecture, one cell a register;
* `Refines` : the register file of the code holds that of the architecture, all but the saved
  status register of IRQ mode;
* `ThreadRegs.switchBank_spec` : a mode switch moves registers and loses none but that one;
* `Refines.apply` : every operation keeps the refinement;
* `register_banks_law` : in every run all visible registers agree exactly when every unsaved entry
  to IRQ mode finds that mode's saved status register where it looks for it.
-/
import AdvancedSlop.ThreadRegs
import AdvancedSlop.TransitionSystem

namespace AdvancedSlop

open TransitionSystem

/-! ## The architecture -/

/-- The banks of the register file; user and system mode share one. -/
inductive Bank
  | user
  | fiq
  | irq
  | svc
  | abt
  | und
  deriving DecidableEq, Repr

/-- The bank of a mode, none for the values that name no mode. -/
def bankOf (mode : BitVec 32) : Option Bank :=
  if isUserMode mode then some .user
  else if mode = 0x11 then some .fiq
  else if mode = 0x12 then some .irq
  else if mode = 0x13 then some .svc
  else if mode = 0x17 then some .abt
  else if mode = 0x1B then some .und
  else none

/-- The register file of the architecture. -/
structure BankedRegs where
  low : Fin 8 → BitVec 32
  /-- `r8` to `r12`, of FIQ mode and of the other modes. -/
  high : Bool → Fin 5 → BitVec 32
  sp : Bank → BitVec 32
  lr : Bank → BitVec 32
  /-- The saved status registers; user mode has none. -/
  spsr : Bank → BitVec 32
  cpsr : BitVec 32

/-- The bank in use. -/
def BankedRegs.bank (a : BankedRegs) : Option Bank := bankOf (cpsrMode a.cpsr)

/-- The bytes of a status register that a flagged write selects. -/
def flaggedBytes (flags : BitVec 8) (old value : BitVec 32) : BitVec 32 :=
  (List.range 4).foldl (fun old i =>
    if flags.getLsbD i then
      (old &&& ~~~((0xFF : BitVec 32) <<< (i * 8))) ||| (value &&& ((0xFF : BitVec 32) <<< (i * 8)))
    else old) old

/-- The registers a program writes by number. -/
inductive RegName
  | low (i : Fin 8)
  | high (i : Fin 5)
  | sp
  | lr
  deriving DecidableEq, Repr

/-- What a run does to the registers. -/
inductive RegOp
  | setCpsr (value : BitVec 32) (save : Bool)
  | writeReg (reg : RegName) (value : BitVec 32)
  | writeSpsr (value : BitVec 32) (flags : BitVec 8)

/-- The architecture's view of an operation in the bank `b`. -/
def BankedRegs.apply (a : BankedRegs) (b : Bank) : RegOp → Option BankedRegs
  | .setCpsr value save =>
      (bankOf (cpsrMode value)).map fun new =>
        { a with
          cpsr := value
          spsr := if save ∧ new ≠ .user then Function.update a.spsr new a.cpsr else a.spsr }
  | .writeReg (.low i) value => some { a with low := Function.update a.low i value }
  | .writeReg (.high i) value =>
      some { a with
        high := Function.update a.high (decide (b = .fiq))
          (Function.update (a.high (decide (b = .fiq))) i value) }
  | .writeReg .sp value => some { a with sp := Function.update a.sp b value }
  | .writeReg .lr value => some { a with lr := Function.update a.lr b value }
  | .writeSpsr value flags =>
      some (if b = .user then a
        else { a with spsr := Function.update a.spsr b (flaggedBytes flags (a.spsr b) value) })

/-! ## The code -/

/-- `thread_set_spsr_with_flags`. -/
def ThreadRegs.setSpsrWithFlags (regs : ThreadRegs) (value : BitVec 32) (flags : BitVec 8) :
    ThreadRegs :=
  { regs with spsr := flaggedBytes flags regs.spsr value }

/-- The index of a low register. -/
theorem ThreadRegs.low_index_lt (i : Fin 8) : i.val < 13 := by omega

/-- A register write through `thread_get_reg_mut`. -/
def ThreadRegs.writeReg (regs : ThreadRegs) (reg : RegName) (value : BitVec 32) : ThreadRegs :=
  match reg with
  | .low i => { regs with gpRegs := Function.update regs.gpRegs ⟨i, low_index_lt i⟩ value }
  | .high i => { regs with gpRegs := Function.update regs.gpRegs ⟨i + 8, high_index_lt i⟩ value }
  | .sp => { regs with sp := value }
  | .lr => { regs with lr := value }

/-- `r0` to `r7`. -/
def ThreadRegs.low (regs : ThreadRegs) : Fin 8 → BitVec 32 := fun i =>
  regs.gpRegs ⟨i, low_index_lt i⟩

/-- The code's view of an operation. -/
def ThreadRegs.apply (regs : ThreadRegs) : RegOp → ThreadRegs
  | .setCpsr value save => regs.setCpsr value save
  | .writeReg reg value => regs.writeReg reg value
  | .writeSpsr value flags => regs.setSpsrWithFlags value flags

/-- The registers at the entry of a game: `thread_set_cpsr` with the stack pointers of the direct
boot. -/
def ThreadRegs.reset : ThreadRegs :=
  ({ ThreadRegs.default with
      gpRegs := fun i => if i = 12 then 0x08000000 else 0
      pc := 0x08000000
      user := ⟨fun _ => 0, 0x03007F00, 0x08000000⟩
      irq := ⟨0x03007FA0, 0, 0⟩
      svc := ⟨0x03007FE0, 0, 0⟩ } : ThreadRegs).setCpsr 0x1F false

/-- The architecture's registers then. -/
def BankedRegs.reset : BankedRegs where
  low _ := 0
  high _ _ := 0
  sp
    | .user => 0x03007F00
    | .irq => 0x03007FA0
    | .svc => 0x03007FE0
    | _ => 0
  lr
    | .user => 0x08000000
    | _ => 0
  spsr _ := 0
  cpsr := 0x1F

/-- The code and the architecture side by side; only valid modes are entered. -/
def bankStep (s : ThreadRegs × BankedRegs) (op : RegOp) : Option (ThreadRegs × BankedRegs) :=
  s.2.bank.bind fun b => (s.2.apply b op).map fun a => (s.1.apply op, a)

/-! ## Where the code keeps a bank -/

namespace ThreadRegs

/-- The stored stack pointer of a bank. -/
def storedSp (regs : ThreadRegs) : Bank → BitVec 32
  | .user => regs.user.sp
  | .fiq => regs.fiq.sp
  | .irq => regs.irq.sp
  | .svc => regs.svc.sp
  | .abt => regs.abt.sp
  | .und => regs.und.sp

/-- The stored link register of a bank. -/
def storedLr (regs : ThreadRegs) : Bank → BitVec 32
  | .user => regs.user.lr
  | .fiq => regs.fiq.lr
  | .irq => regs.irq.lr
  | .svc => regs.svc.lr
  | .abt => regs.abt.lr
  | .und => regs.und.lr

/-- The stored status register of a bank; the user bank has none. -/
def storedSpsr (regs : ThreadRegs) : Bank → BitVec 32
  | .user => 0
  | .fiq => regs.fiq.spsr
  | .irq => regs.irq.spsr
  | .svc => regs.svc.spsr
  | .abt => regs.abt.spsr
  | .und => regs.und.spsr

/-- The stored `r8` to `r12`. -/
def storedHigh (regs : ThreadRegs) : Bool → Fin 5 → BitVec 32
  | true => regs.fiq.gpRegs
  | false => regs.user.gpRegs

/-- The stack pointer of a bank while `current` is in use. -/
def bankedSp (regs : ThreadRegs) (current b : Bank) : BitVec 32 :=
  if b = current then regs.sp else regs.storedSp b

/-- The link register of a bank while `current` is in use. -/
def bankedLr (regs : ThreadRegs) (current b : Bank) : BitVec 32 :=
  if b = current then regs.lr else regs.storedLr b

/-- The saved status register of a bank while `current` is in use. -/
def bankedSpsr (regs : ThreadRegs) (current b : Bank) : BitVec 32 :=
  if b = current then regs.spsr else regs.storedSpsr b

/-- `r8` to `r12` of FIQ mode or of the other modes while `current` is in use. -/
def bankedHigh (regs : ThreadRegs) (current : Bank) (isFiq : Bool) : Fin 5 → BitVec 32 :=
  if isFiq = decide (current = .fiq) then regs.high else regs.storedHigh isFiq

end ThreadRegs

/-! ## Mode switches -/

/-- The user bank is that of the two user modes. -/
theorem bankOf_eq_user {mode : BitVec 32} : bankOf mode = some .user ↔ isUserMode mode = true := by
  unfold bankOf
  split_ifs <;> simp_all

/-- The IRQ bank is that of IRQ mode. -/
theorem bankOf_eq_irq {mode : BitVec 32} : bankOf mode = some .irq ↔ mode = 0x12 := by
  constructor
  · unfold bankOf
    split_ifs <;> simp_all
  · rintro rfl
    rfl

namespace ThreadRegs

variable (regs : ThreadRegs)

@[simp] theorem high_withHigh (high : Fin 5 → BitVec 32) : (regs.withHigh high).high = high := by
  funext i
  simp [ThreadRegs.high, withHigh]

@[simp] theorem low_withHigh (high : Fin 5 → BitVec 32) : (regs.withHigh high).low = regs.low := by
  funext i
  have hlt : ¬ 8 ≤ i.val := by omega
  simp [ThreadRegs.low, withHigh, hlt]

/-- What storing the registers of the mode in use does to the banks. -/
theorem storeBank_spec {mode : BitVec 32} {current : Bank} (h : bankOf mode = some current) :
    (∀ b, (regs.storeBank mode).storedSp b = regs.bankedSp current b) ∧
      (∀ b, (regs.storeBank mode).storedLr b = regs.bankedLr current b) ∧
      (∀ b, b ≠ .user → (regs.storeBank mode).storedSpsr b = regs.bankedSpsr current b) ∧
      (∀ isFiq, (regs.storeBank mode).storedHigh isFiq = regs.bankedHigh current isFiq) ∧
      (regs.storeBank mode).low = regs.low ∧ (regs.storeBank mode).spsr = regs.spsr := by
  unfold bankOf at h
  unfold storeBank
  split_ifs at h ⊢ <;> obtain rfl := Option.some.inj h
  all_goals
    refine ⟨fun b => ?_, fun b => ?_, fun b hb => ?_, fun isFiq => ?_, rfl, rfl⟩
    · cases b <;> rfl
    · cases b <;> rfl
    · cases b <;> first | rfl | exact absurd rfl hb
    · cases isFiq <;> rfl

/-- What loading the registers of the mode entered does to the registers in use. -/
theorem loadBank_spec {mode : BitVec 32} {new : Bank} (h : bankOf mode = some new) :
    (regs.loadBank mode).sp = regs.storedSp new ∧ (regs.loadBank mode).lr = regs.storedLr new ∧
      (regs.loadBank mode).high = regs.storedHigh (decide (new = .fiq)) ∧
      (new ≠ .user → (regs.loadBank mode).spsr = regs.storedSpsr new) ∧
      (regs.loadBank mode).low = regs.low ∧
      (regs.loadBank mode).storedSp = regs.storedSp ∧
      (regs.loadBank mode).storedLr = regs.storedLr ∧
      (regs.loadBank mode).storedSpsr = regs.storedSpsr ∧
      (regs.loadBank mode).storedHigh = regs.storedHigh := by
  unfold bankOf at h
  unfold loadBank
  split_ifs at h ⊢ <;> obtain rfl := Option.some.inj h
  all_goals
    refine ⟨rfl, rfl, ?_, fun hnew => ?_, ?_, ?_, ?_, ?_, ?_⟩
    · exact regs.high_withHigh _
    · first | rfl | exact absurd rfl hnew
    · exact regs.low_withHigh _
    · funext b; cases b <;> rfl
    · funext b; cases b <;> rfl
    · funext b; cases b <;> rfl
    · funext b; cases b <;> rfl

/-- What a switch between banks does, in the view of the bank entered: nothing but to lose the
saved status register of IRQ mode on the fast paths. -/
theorem switchBank_spec {mode mode' : BitVec 32} {current new : Bank}
    (h : bankOf mode = some current) (h' : bankOf mode' = some new) :
    (∀ b, (regs.switchBank mode mode').bankedSp new b = regs.bankedSp current b) ∧
      (∀ b, (regs.switchBank mode mode').bankedLr new b = regs.bankedLr current b) ∧
      (∀ isFiq, (regs.switchBank mode mode').bankedHigh new isFiq =
        regs.bankedHigh current isFiq) ∧
      (∀ b, b ≠ .user → b ≠ .irq →
        (regs.switchBank mode mode').bankedSpsr new b = regs.bankedSpsr current b) ∧
      (regs.switchBank mode mode').low = regs.low ∧
      (new = .irq → (regs.switchBank mode mode').spsr =
        if current = .user ∨ current = .irq then regs.spsr else regs.irq.spsr) := by
  by_cases hsame : mode = mode'
  · have heq : regs.switchBank mode mode' = regs := if_pos hsame
    obtain rfl : current = new := by
      rw [hsame, h'] at h
      exact (Option.some.inj h).symm
    rw [heq]
    refine ⟨fun _ => rfl, fun _ => rfl, fun _ => rfl, fun _ _ _ => rfl, rfl, ?_⟩
    rintro rfl
    simp
  by_cases hentry : isUserMode mode ∧ mode' = 0x12
  · obtain rfl : current = .user := Option.some.inj (h.symm.trans (bankOf_eq_user.mpr hentry.1))
    obtain rfl : new = .irq := Option.some.inj (h'.symm.trans (bankOf_eq_irq.mpr hentry.2))
    rw [switchBank, if_neg hsame, if_pos hentry]
    refine ⟨fun b => ?_, fun b => ?_, fun isFiq => ?_, fun b hb hb' => ?_, rfl, fun _ => by simp⟩
    · cases b <;> rfl
    · cases b <;> rfl
    · cases isFiq <;> rfl
    · cases b <;> first | rfl | exact absurd rfl hb | exact absurd rfl hb'
  by_cases hexit : mode = 0x12 ∧ isUserMode mode'
  · obtain rfl : current = .irq := Option.some.inj (h.symm.trans (bankOf_eq_irq.mpr hexit.1))
    obtain rfl : new = .user := Option.some.inj (h'.symm.trans (bankOf_eq_user.mpr hexit.2))
    rw [switchBank, if_neg hsame, if_neg hentry, if_pos hexit]
    refine ⟨fun b => ?_, fun b => ?_, fun isFiq => ?_, fun b hb hb' => ?_, rfl, by simp⟩
    · cases b <;> rfl
    · cases b <;> rfl
    · cases isFiq <;> rfl
    · cases b <;> first | rfl | exact absurd rfl hb | exact absurd rfl hb'
  · rw [switchBank, if_neg hsame, if_neg hentry, if_neg hexit]
    obtain ⟨hsp, hlr, hspsr, hhigh, hlow, -⟩ := regs.storeBank_spec h
    obtain ⟨lsp, llr, lhigh, lspsr, llow, ssp, slr, sspsr, shigh⟩ :=
      (regs.storeBank mode).loadBank_spec h'
    refine ⟨fun b => ?_, fun b => ?_, fun isFiq => ?_, fun b hb _ => ?_, llow.trans hlow, ?_⟩
    · rw [← hsp b, bankedSp]
      split_ifs with hb
      · rw [lsp, hb]
      · rw [ssp]
    · rw [← hlr b, bankedLr]
      split_ifs with hb
      · rw [llr, hb]
      · rw [slr]
    · rw [← hhigh isFiq, bankedHigh]
      split_ifs with hb
      · rw [lhigh, hb]
      · rw [shigh]
    · rw [← hspsr b hb, bankedSpsr]
      split_ifs with hnew
      · rw [lspsr (hnew ▸ hb), hnew]
      · rw [sspsr]
    · rintro rfl
      have hmode' := bankOf_eq_irq.mp h'
      rw [lspsr (by simp), hspsr .irq (by simp), bankedSpsr]
      have hcurrent : current ≠ .irq := by
        rintro rfl
        exact hsame ((bankOf_eq_irq.mp h).trans hmode'.symm)
      have huser : current ≠ .user := by
        rintro rfl
        exact hentry ⟨bankOf_eq_user.mp h, hmode'⟩
      simp [hcurrent, huser, Ne.symm hcurrent, storedSpsr]

end ThreadRegs

/-! ## Refinement -/

/-- The code's register file holds the architecture's, all but the saved status register of IRQ
mode; `b` is the bank in use. -/
structure Refines (regs : ThreadRegs) (a : BankedRegs) (b : Bank) : Prop where
  bank : a.bank = some b
  cpsr : regs.cpsr = a.cpsr
  low : regs.low = a.low
  high : ∀ isFiq, regs.bankedHigh b isFiq = a.high isFiq
  sp : ∀ bank, regs.bankedSp b bank = a.sp bank
  lr : ∀ bank, regs.bankedLr b bank = a.lr bank
  spsr : ∀ bank, bank ≠ .user → bank ≠ .irq → regs.bankedSpsr b bank = a.spsr bank

/-- The visible registers agree: `r0` to `r14`, the status register, and the saved status register
where the mode has one. -/
structure VisibleAgree (s : ThreadRegs × BankedRegs) (b : Bank) : Prop where
  low : s.1.low = s.2.low
  high : s.1.high = s.2.high (decide (b = .fiq))
  sp : s.1.sp = s.2.sp b
  lr : s.1.lr = s.2.lr b
  cpsr : s.1.cpsr = s.2.cpsr
  spsr : b ≠ .user → s.1.spsr = s.2.spsr b

/-- A switch into IRQ mode that saves no status register finds that of IRQ mode: in the register
in use when it comes from user mode, in the IRQ bank when it comes from elsewhere. -/
def FindsSpsr (s : ThreadRegs × BankedRegs) : RegOp → Prop
  | .setCpsr value save =>
      bankOf (cpsrMode value) = some .irq → save = false → s.2.bank ≠ some .irq →
        s.2.spsr .irq = if s.2.bank = some .user then s.1.spsr else s.1.irq.spsr
  | _ => True

/-- A refined state agrees visibly when it does in the saved status register of IRQ mode. -/
theorem Refines.visibleAgree_iff {s : ThreadRegs × BankedRegs} {b : Bank} (h : Refines s.1 s.2 b) :
    VisibleAgree s b ↔ (b = .irq → s.1.spsr = s.2.spsr .irq) := by
  constructor
  · rintro hv rfl
    exact hv.spsr (by simp)
  · intro hirq
    refine ⟨h.low, ?_, ?_, ?_, h.cpsr, fun hb => ?_⟩
    · rw [← h.high, ThreadRegs.bankedHigh, if_pos rfl]
    · rw [← h.sp, ThreadRegs.bankedSp, if_pos rfl]
    · rw [← h.lr, ThreadRegs.bankedLr, if_pos rfl]
    · by_cases hb' : b = .irq
      · rw [hb']
        exact hirq hb'
      · rw [← h.spsr b hb hb', ThreadRegs.bankedSpsr, if_pos rfl]

/-! ## One operation -/

/-- The saved status register after `thread_set_cpsr`. -/
theorem ThreadRegs.setCpsr_spsr (regs : ThreadRegs) (value : BitVec 32) (save : Bool) :
    (regs.setCpsr value save).spsr =
      if save then regs.cpsr
      else (regs.switchBank (cpsrMode regs.cpsr) (cpsrMode value)).spsr := by
  have hcpsr := (regs.switchBank_sameControl (cpsrMode regs.cpsr) (cpsrMode value)).1
  show (if save then (regs.switchBank _ _).cpsr else _) = _
  rw [hcpsr]

/-- A mode switch keeps the refinement. -/
theorem Refines.setCpsr {regs : ThreadRegs} {a : BankedRegs} {b new : Bank} (h : Refines regs a b)
    {value : BitVec 32} (hnew : bankOf (cpsrMode value) = some new) (save : Bool) :
    Refines (regs.setCpsr value save)
      { a with
        cpsr := value
        spsr := if save ∧ new ≠ .user then Function.update a.spsr new a.cpsr else a.spsr } new := by
  have hb : bankOf (cpsrMode regs.cpsr) = some b := by
    rw [h.cpsr]
    exact h.bank
  obtain ⟨hsp, hlr, hhigh, hspsr, hlow, -⟩ := regs.switchBank_spec hb hnew
  refine ⟨hnew, rfl, hlow.trans h.low, fun isFiq => ?_, fun bank => ?_, fun bank => ?_,
    fun bank huser hirq => ?_⟩
  · exact (hhigh isFiq).trans (h.high isFiq)
  · exact (hsp bank).trans (h.sp bank)
  · exact (hlr bank).trans (h.lr bank)
  · have hkept := (hspsr bank huser hirq).trans (h.spsr bank huser hirq)
    show (if bank = new then _ else _) = _
    by_cases hbank : bank = new
    · subst hbank
      rw [ThreadRegs.bankedSpsr, if_pos rfl] at hkept
      rw [if_pos rfl, ThreadRegs.setCpsr_spsr]
      cases save
      · simpa using hkept
      · simp [huser, h.cpsr]
    · rw [ThreadRegs.bankedSpsr, if_neg hbank] at hkept
      rw [if_neg hbank]
      show (regs.switchBank _ _).storedSpsr bank = _
      rw [hkept]
      show _ = (if save = true ∧ new ≠ .user then Function.update a.spsr new a.cpsr
        else a.spsr) bank
      split_ifs
      · rw [Function.update_of_ne hbank]
      · rfl

/-- A register write keeps the refinement. -/
theorem Refines.writeReg {regs : ThreadRegs} {a a' : BankedRegs} {b : Bank} (h : Refines regs a b)
    {reg : RegName} {value : BitVec 32} (ha : a.apply b (.writeReg reg value) = some a') :
    Refines (regs.writeReg reg value) a' b := by
  cases reg with
  | low i =>
      obtain rfl := Option.some.inj ha
      refine ⟨h.bank, h.cpsr, ?_, fun isFiq => ?_, h.sp, h.lr, h.spsr⟩
      · funext j
        show Function.update regs.gpRegs _ _ _ = Function.update a.low i value j
        rw [← h.low]
        by_cases hj : j = i
        · subst hj
          simp
        · rw [Function.update_of_ne hj, Function.update_of_ne (by simpa [Fin.ext_iff] using hj)]
          rfl
      · rw [← h.high isFiq]
        have hhigh : (regs.writeReg (.low i) value).high = regs.high := by
          funext j
          exact Function.update_of_ne (by simp [Fin.ext_iff]; omega) _ _
        show (if isFiq = _ then _ else _) = _
        rw [hhigh]
        rfl
  | high i =>
      obtain rfl := Option.some.inj ha
      refine ⟨h.bank, h.cpsr, ?_, fun isFiq => ?_, h.sp, h.lr, h.spsr⟩
      · rw [← h.low]
        funext j
        exact Function.update_of_ne (by simp [Fin.ext_iff]; omega) _ _
      · have hhigh : (regs.writeReg (.high i) value).high = Function.update regs.high i value := by
          funext j
          show Function.update regs.gpRegs _ _ _ = _
          by_cases hj : j = i
          · subst hj
            simp
          · rw [Function.update_of_ne hj, Function.update_of_ne (by simpa [Fin.ext_iff] using hj)]
            rfl
        have hold := h.high isFiq
        show (if isFiq = _ then _ else _) = Function.update a.high _ _ isFiq
        rw [hhigh]
        by_cases hb : isFiq = decide (b = .fiq)
        · subst hb
          rw [ThreadRegs.bankedHigh, if_pos rfl] at hold
          rw [if_pos rfl, Function.update_self, hold]
        · rw [ThreadRegs.bankedHigh, if_neg hb] at hold
          rw [if_neg hb, Function.update_of_ne hb]
          exact hold
  | sp =>
      obtain rfl := Option.some.inj ha
      refine ⟨h.bank, h.cpsr, h.low, h.high, fun bank => ?_, h.lr, h.spsr⟩
      show (if bank = b then value else _) = Function.update a.sp b value bank
      have hold := h.sp bank
      by_cases hb : bank = b
      · subst hb
        simp
      · rw [ThreadRegs.bankedSp, if_neg hb] at hold
        rw [if_neg hb, Function.update_of_ne hb]
        exact hold
  | lr =>
      obtain rfl := Option.some.inj ha
      refine ⟨h.bank, h.cpsr, h.low, h.high, h.sp, fun bank => ?_, h.spsr⟩
      show (if bank = b then value else _) = Function.update a.lr b value bank
      have hold := h.lr bank
      by_cases hb : bank = b
      · subst hb
        simp
      · rw [ThreadRegs.bankedLr, if_neg hb] at hold
        rw [if_neg hb, Function.update_of_ne hb]
        exact hold

/-- A write of the saved status register keeps the refinement. -/
theorem Refines.writeSpsr {regs : ThreadRegs} {a a' : BankedRegs} {b : Bank} (h : Refines regs a b)
    {value : BitVec 32} {flags : BitVec 8} (ha : a.apply b (.writeSpsr value flags) = some a') :
    Refines (regs.setSpsrWithFlags value flags) a' b := by
  obtain rfl := Option.some.inj ha
  by_cases hb : b = .user
  · rw [if_pos hb]
    refine ⟨h.bank, h.cpsr, h.low, h.high, h.sp, h.lr, fun bank huser hirq => ?_⟩
    have hne : bank ≠ b := fun heq => huser (heq.trans hb)
    have hold := h.spsr bank huser hirq
    rw [ThreadRegs.bankedSpsr, if_neg hne] at hold ⊢
    exact hold
  · rw [if_neg hb]
    refine ⟨h.bank, h.cpsr, h.low, h.high, h.sp, h.lr, fun bank huser hirq => ?_⟩
    have hold := h.spsr bank huser hirq
    show (if bank = b then _ else _) = Function.update a.spsr b _ bank
    by_cases hbank : bank = b
    · subst hbank
      rw [ThreadRegs.bankedSpsr, if_pos rfl] at hold
      rw [if_pos rfl, Function.update_self, ← hold]
      rfl
    · rw [ThreadRegs.bankedSpsr, if_neg hbank] at hold
      rw [if_neg hbank, Function.update_of_ne hbank]
      exact hold

/-- **Every operation keeps the refinement.** -/
theorem Refines.apply {s s' : ThreadRegs × BankedRegs} {b : Bank} {op : RegOp}
    (h : Refines s.1 s.2 b) (hstep : bankStep s op = some s') : ∃ b', Refines s'.1 s'.2 b' := by
  rw [bankStep, h.bank, Option.bind_some, Option.map_eq_some_iff] at hstep
  obtain ⟨a', ha, rfl⟩ := hstep
  cases op with
  | setCpsr value save =>
      rw [BankedRegs.apply, Option.map_eq_some_iff] at ha
      obtain ⟨new, hnew, rfl⟩ := ha
      exact ⟨new, h.setCpsr hnew save⟩
  | writeReg reg value => exact ⟨b, h.writeReg ha⟩
  | writeSpsr value flags => exact ⟨b, h.writeSpsr ha⟩

/-- The saved status register of IRQ mode agrees when it is visible. -/
def IrqSpsrAgree (s : ThreadRegs × BankedRegs) : Prop :=
  s.2.bank = some .irq → s.1.spsr = s.2.spsr .irq

/-- The visible registers agree, whatever the bank in use. -/
def VisiblyAgree (s : ThreadRegs × BankedRegs) : Prop :=
  ∀ b, s.2.bank = some b → VisibleAgree s b

/-- In a refined state only the saved status register of IRQ mode may disagree. -/
theorem Refines.visiblyAgree_iff {s : ThreadRegs × BankedRegs} {b : Bank}
    (h : Refines s.1 s.2 b) : VisiblyAgree s ↔ IrqSpsrAgree s := by
  constructor
  · intro hv hbank
    exact (hv .irq hbank).spsr (by simp)
  · intro hirq b' hb'
    obtain rfl : b = b' := Option.some.inj (h.bank.symm.trans hb')
    refine h.visibleAgree_iff.mpr ?_
    rintro rfl
    exact hirq hb'

/-- A mode switch keeps IRQ's saved status register visible exactly when it finds it. -/
theorem Refines.setCpsr_irqSpsrAgree {regs : ThreadRegs} {a : BankedRegs} {b new : Bank}
    (h : Refines regs a b) (hagree : IrqSpsrAgree (regs, a)) {value : BitVec 32} {save : Bool}
    (hnew : bankOf (cpsrMode value) = some new) :
    IrqSpsrAgree (regs.setCpsr value save,
      { a with
        cpsr := value
        spsr := if save ∧ new ≠ .user then Function.update a.spsr new a.cpsr else a.spsr }) ↔
      FindsSpsr (regs, a) (.setCpsr value save) := by
  have hb : bankOf (cpsrMode regs.cpsr) = some b := by
    rw [h.cpsr]
    exact h.bank
  have hfinds := (regs.switchBank_spec hb hnew).2.2.2.2.2
  have hentered : ({ a with cpsr := value } : BankedRegs).bank = some new := hnew
  by_cases hirq : new = .irq
  · subst hirq
    have hspsr := hfinds rfl
    unfold IrqSpsrAgree FindsSpsr
    simp only [ThreadRegs.setCpsr_spsr, hspsr, hnew, h.bank, forall_const]
    cases save
    · by_cases hsame : b = .irq
      · -- the mode is kept, and with it the register in use
        subst hsame
        have hold : regs.spsr = a.spsr .irq := hagree h.bank
        simp [hold]
      · have hleave : some b ≠ some .irq := fun heq => hsame (Option.some.inj heq)
        by_cases huser : b = .user
        · subst huser
          simp only [BankedRegs.bank, hnew]
          simp [eq_comm]
        · simp only [BankedRegs.bank, hnew]
          simp [hsame, huser, eq_comm]
    · simp [h.cpsr]
  · have hleft : IrqSpsrAgree (regs.setCpsr value save,
        { a with
          cpsr := value
          spsr := if save ∧ new ≠ .user then Function.update a.spsr new a.cpsr else a.spsr }) :=
      fun hbank => absurd (Option.some.inj (hentered.symm.trans hbank)) hirq
    have hright : FindsSpsr (regs, a) (.setCpsr value save) :=
      fun hbank => absurd (Option.some.inj (hnew.symm.trans hbank)) hirq
    exact iff_of_true hleft hright

/-- **One operation keeps the visible registers exactly when it finds IRQ's status register.** -/
theorem Refines.visiblyAgree_apply {s s' : ThreadRegs × BankedRegs} {b : Bank} {op : RegOp}
    (h : Refines s.1 s.2 b) (hagree : VisiblyAgree s) (hstep : bankStep s op = some s') :
    VisiblyAgree s' ↔ FindsSpsr s op := by
  obtain ⟨b', h'⟩ := h.apply hstep
  rw [h'.visiblyAgree_iff]
  have hirq := h.visiblyAgree_iff.mp hagree
  rw [bankStep, h.bank, Option.bind_some, Option.map_eq_some_iff] at hstep
  obtain ⟨a', ha, rfl⟩ := hstep
  cases op with
  | setCpsr value save =>
      rw [BankedRegs.apply, Option.map_eq_some_iff] at ha
      obtain ⟨new, hnew, rfl⟩ := ha
      exact h.setCpsr_irqSpsrAgree hirq hnew
  | writeReg reg value =>
      refine iff_of_true (fun hbank => ?_) trivial
      cases reg <;> obtain rfl := Option.some.inj ha <;> exact hirq hbank
  | writeSpsr value flags =>
      refine iff_of_true (fun hbank => ?_) trivial
      obtain rfl := Option.some.inj ha
      by_cases hb : b = .user
      · simp only [if_pos hb] at hbank ⊢
        exact absurd (hb.symm.trans (Option.some.inj (h.bank.symm.trans hbank))) (by simp)
      · simp only [if_neg hb] at hbank ⊢
        obtain rfl : b = .irq := Option.some.inj (h.bank.symm.trans hbank)
        have hold : s.1.spsr = s.2.spsr .irq := hirq hbank
        show flaggedBytes flags s.1.spsr value = Function.update s.2.spsr .irq _ .irq
        rw [Function.update_self, hold]

/-! ## Runs from reset -/

/-- The reset registers refine the architecture's. -/
theorem refines_reset : Refines ThreadRegs.reset BankedRegs.reset .user := by
  refine ⟨rfl, rfl, ?_, fun isFiq => ?_, fun bank => ?_, fun bank => ?_, fun bank _ _ => ?_⟩
  · funext i
    fin_cases i <;> rfl
  · funext i
    cases isFiq <;> fin_cases i <;> rfl
  · cases bank <;> rfl
  · cases bank <;> rfl
  · cases bank <;> rfl

/-- At reset the visible registers agree. -/
theorem visiblyAgree_reset : VisiblyAgree (ThreadRegs.reset, BankedRegs.reset) := by
  refine refines_reset.visiblyAgree_iff.mpr fun hbank => ?_
  exact absurd (Option.some.inj (refines_reset.bank.symm.trans hbank)) (by simp)

/-- **Banked registers.**  In a run from reset the visible registers agree with the architecture's
after every step exactly when every switch into IRQ mode finds the saved status register of that
mode. -/
theorem register_banks_law (run : List ((ThreadRegs × BankedRegs) × RegOp × ThreadRegs × BankedRegs))
    (s : ThreadRegs × BankedRegs)
    (h : Trace bankStep (ThreadRegs.reset, BankedRegs.reset) run s) :
    (∀ x ∈ run, VisiblyAgree x.2.2) ↔ ∀ x ∈ run, FindsSpsr x.1 x.2.1 :=
  h.states_iff (I := fun s => ∃ b, Refines s.1 s.2 b)
    (fun _ _ _ ⟨_, hr⟩ hstep => hr.apply hstep)
    (fun _ _ _ ⟨_, hr⟩ hagree hstep => hr.visiblyAgree_apply hagree hstep)
    ⟨.user, refines_reset⟩ visiblyAgree_reset

/-- An exception that enters supervisor mode keeps the visible registers in agreement. -/
theorem enterSvc_visiblyAgree :
    VisiblyAgree (ThreadRegs.reset.apply (.setCpsr 0x13 true),
      ((BankedRegs.reset.apply .user (.setCpsr 0x13 true)).getD BankedRegs.reset)) := by
  have hstep : bankStep (ThreadRegs.reset, BankedRegs.reset) (.setCpsr 0x13 true) =
      some (ThreadRegs.reset.apply (.setCpsr 0x13 true),
        ((BankedRegs.reset.apply .user (.setCpsr 0x13 true)).getD BankedRegs.reset)) := rfl
  refine (register_banks_law _ _ (Trace.nil.snoc hstep)).mpr ?_ _ List.mem_cons_self
  intro x hx
  obtain rfl := List.mem_singleton.mp hx
  intro hirq
  exact absurd hirq (by decide)

/-! ## The lost status register -/

/-- Supervisor mode with a status register, system mode, then IRQ mode by the fast path. -/
def irqAfterSvc : List RegOp :=
  [.setCpsr 0x13 false, .writeSpsr 0xFF 0xF, .setCpsr 0x1F false, .setCpsr 0x12 false]

/-- In IRQ mode the code then shows the saved status register of supervisor mode; that of IRQ mode
is still zero. -/
theorem irqAfterSvc_disagree :
    ¬ ∀ (run : List ((ThreadRegs × BankedRegs) × RegOp × ThreadRegs × BankedRegs))
      (s : ThreadRegs × BankedRegs), Trace bankStep (ThreadRegs.reset, BankedRegs.reset) run s →
        ∀ x ∈ run, VisiblyAgree x.2.2 := by
  intro hclaim
  have hrun : ((irqAfterSvc.foldlM bankStep (ThreadRegs.reset, BankedRegs.reset)).map fun s =>
      (s.2.bank, s.1.spsr, s.2.spsr .irq)) = some (some .irq, 0xFF, 0) := by decide
  obtain ⟨s, hs, hvisible⟩ := Option.map_eq_some_iff.mp hrun
  obtain ⟨run, htrace, -, hlast⟩ := Trace.of_foldlM hs
  obtain ⟨x, hx, rfl⟩ := hlast (by decide)
  simp only [Prod.mk.injEq] at hvisible
  obtain ⟨hbank, hcode, harch⟩ := hvisible
  have hagree := (hclaim run _ htrace x hx .irq hbank).spsr (by simp)
  rw [hcode, harch] at hagree
  exact absurd hagree (by decide)

end AdvancedSlop
