/-
# The guest's register file

`src/core/thread_regs.rs`: the current registers, the banks of the other modes and the
interrupt registers `ime`, `ie` and `irf`.  `threadSetCpsr` banks the registers exactly as the
source does: two fast paths between the user bank and the IRQ bank, and the general path, which
stores the registers of the mode that is left and loads those of the mode that is entered.

The debug build also clears `spsr` on entering user mode; the model is the release build.
-/
import Mathlib.Tactic

namespace AdvancedSlop

/-! ## The data -/

/-- `UserRegs`. -/
structure UserRegs where
  gpRegs : Fin 5 → BitVec 32
  sp : BitVec 32
  lr : BitVec 32

/-- `FiqRegs`. -/
structure FiqRegs where
  gpRegs : Fin 5 → BitVec 32
  sp : BitVec 32
  lr : BitVec 32
  spsr : BitVec 32

/-- `OtherModeRegs`. -/
structure OtherModeRegs where
  sp : BitVec 32
  lr : BitVec 32
  spsr : BitVec 32

/-- `ThreadRegs`. -/
structure ThreadRegs where
  gpRegs : Fin 13 → BitVec 32
  sp : BitVec 32
  lr : BitVec 32
  pc : BitVec 32
  cpsr : BitVec 32
  spsr : BitVec 32
  ime : BitVec 8
  ie : BitVec 32
  irf : BitVec 32
  user : UserRegs
  fiq : FiqRegs
  svc : OtherModeRegs
  abt : OtherModeRegs
  irq : OtherModeRegs
  und : OtherModeRegs

/-- `OtherModeRegs::default`. -/
def OtherModeRegs.default : OtherModeRegs := ⟨0, 0, 0⟩

/-- `ThreadRegs::default`. -/
def ThreadRegs.default : ThreadRegs where
  gpRegs := fun _ => 0
  sp := 0
  lr := 0
  pc := 0
  cpsr := 0
  spsr := 0
  ime := 0
  ie := 0
  irf := 0
  user := ⟨fun _ => 0, 0, 0⟩
  fiq := ⟨fun _ => 0, 0, 0, 0⟩
  svc := OtherModeRegs.default
  abt := OtherModeRegs.default
  irq := OtherModeRegs.default
  und := OtherModeRegs.default

/-- There are registers to name by a number. -/
instance neZero_registers : NeZero 13 := ⟨by decide⟩

/-! ## Fields of the status register -/

/-- `Cpsr::mode`. -/
def cpsrMode (cpsr : BitVec 32) : BitVec 32 := cpsr &&& 0x1F

/-- `Cpsr::thumb`. -/
def cpsrThumb (cpsr : BitVec 32) : Bool := cpsr.getLsbD 5

/-- `Cpsr::irq_disable`. -/
def cpsrIrqDisable (cpsr : BitVec 32) : Bool := cpsr.getLsbD 7

/-- `Cpsr::set_thumb`. -/
def cpsrSetThumb (cpsr : BitVec 32) (thumb : Bool) : BitVec 32 :=
  (cpsr &&& ~~~0x20) ||| (if thumb then 0x20 else 0)

/-- `Cpsr::set_irq_disable`. -/
def cpsrSetIrqDisable (cpsr : BitVec 32) (disable : Bool) : BitVec 32 :=
  (cpsr &&& ~~~0x80) ||| (if disable then 0x80 else 0)

/-- `Cpsr::set_mode`. -/
def cpsrSetMode (cpsr mode : BitVec 32) : BitVec 32 := (cpsr &&& ~~~0x1F) ||| mode

/-- User and system mode share the user bank. -/
def isUserMode (mode : BitVec 32) : Bool := mode == 0x10 || mode == 0x1F

/-! ## Banking -/

namespace ThreadRegs

/-- The index of a high register. -/
theorem high_index_lt (i : Fin 5) : i.val + 8 < 13 := by omega

/-- `r8` to `r12`. -/
def high (regs : ThreadRegs) : Fin 5 → BitVec 32 := fun i => regs.gpRegs ⟨i + 8, high_index_lt i⟩

/-- Overwrite `r8` to `r12`. -/
def withHigh (regs : ThreadRegs) (high : Fin 5 → BitVec 32) : ThreadRegs :=
  { regs with
    gpRegs := fun i => if h : 8 ≤ i.val then high ⟨i - 8, by omega⟩ else regs.gpRegs i }

/-- `r8` to `r12` go to the user bank. -/
def storeUserHigh (regs : ThreadRegs) : ThreadRegs :=
  { regs with user := { regs.user with gpRegs := regs.high } }

/-- The bank of a mode other than user, system and FIQ, from the current registers. -/
def toOther (regs : ThreadRegs) : OtherModeRegs := ⟨regs.sp, regs.lr, regs.spsr⟩

/-- Load the bank of such a mode; `r8` to `r12` come from the user bank. -/
def loadOther (regs : ThreadRegs) (bank : OtherModeRegs) : ThreadRegs :=
  { regs.withHigh regs.user.gpRegs with sp := bank.sp, lr := bank.lr, spsr := bank.spsr }

/-- The first half of `thread_set_cpsr_mode_slow`: store the registers of the mode left. -/
def storeBank (regs : ThreadRegs) (mode : BitVec 32) : ThreadRegs :=
  if isUserMode mode then { regs with user := ⟨regs.high, regs.sp, regs.lr⟩ }
  else if mode = 0x11 then { regs with fiq := ⟨regs.high, regs.sp, regs.lr, regs.spsr⟩ }
  else if mode = 0x12 then { regs.storeUserHigh with irq := regs.toOther }
  else if mode = 0x13 then { regs.storeUserHigh with svc := regs.toOther }
  else if mode = 0x17 then { regs.storeUserHigh with abt := regs.toOther }
  else if mode = 0x1B then { regs.storeUserHigh with und := regs.toOther }
  else regs

/-- The second half of `thread_set_cpsr_mode_slow`: load the registers of the mode entered. -/
def loadBank (regs : ThreadRegs) (mode : BitVec 32) : ThreadRegs :=
  if isUserMode mode then
    { regs.withHigh regs.user.gpRegs with sp := regs.user.sp, lr := regs.user.lr }
  else if mode = 0x11 then
    { regs.withHigh regs.fiq.gpRegs with
      sp := regs.fiq.sp, lr := regs.fiq.lr, spsr := regs.fiq.spsr }
  else if mode = 0x12 then regs.loadOther regs.irq
  else if mode = 0x13 then regs.loadOther regs.svc
  else if mode = 0x17 then regs.loadOther regs.abt
  else if mode = 0x1B then regs.loadOther regs.und
  else regs

/-- The bank switch of `thread_set_cpsr`, with its two fast paths. -/
def switchBank (regs : ThreadRegs) (currentMode newMode : BitVec 32) : ThreadRegs :=
  if currentMode = newMode then regs
  else if isUserMode currentMode ∧ newMode = 0x12 then
    { regs with
      user := { regs.user with sp := regs.sp, lr := regs.lr }
      sp := regs.irq.sp
      lr := regs.irq.lr }
  else if currentMode = 0x12 ∧ isUserMode newMode then
    { regs with
      irq := { regs.irq with sp := regs.sp, lr := regs.lr }
      sp := regs.user.sp
      lr := regs.user.lr }
  else (regs.storeBank currentMode).loadBank newMode

/-- `thread_set_cpsr`, up to its final `cpu_check_for_interrupt`. -/
def setCpsr (regs : ThreadRegs) (value : BitVec 32) (save : Bool) : ThreadRegs :=
  let regs := regs.switchBank (cpsrMode regs.cpsr) (cpsrMode value)
  { regs with spsr := if save then regs.cpsr else regs.spsr, cpsr := value }

/-- The value the first byte of a flagged write puts into `cpsr`: user mode may not change the
mode bits. -/
def controlByte (regs : ThreadRegs) (value : BitVec 32) : BitVec 32 :=
  let mask : BitVec 32 := if cpsrMode regs.cpsr = 0x10 then 0xE0 else 0xFF
  (regs.cpsr &&& ~~~mask) ||| (value &&& mask)

/-- The other three bytes of a flagged write. -/
def setFlagBytes (regs : ThreadRegs) (value : BitVec 32) (flags : BitVec 8) : ThreadRegs :=
  [1, 2, 3].foldl (fun regs i =>
    if flags.getLsbD i then
      { regs with cpsr := (regs.cpsr &&& ~~~((0xFF : BitVec 32) <<< (i * 8))) |||
          (value &&& ((0xFF : BitVec 32) <<< (i * 8))) }
    else regs) regs

/-- `thread_is_user_mode`. -/
def isUser (regs : ThreadRegs) : Bool := isUserMode (cpsrMode regs.cpsr)

/-- Everything a bank switch leaves alone: the status register and the interrupt registers. -/
def sameControl (regs regs' : ThreadRegs) : Prop :=
  regs'.cpsr = regs.cpsr ∧ regs'.ime = regs.ime ∧ regs'.ie = regs.ie ∧ regs'.irf = regs.irf

theorem storeBank_sameControl (regs : ThreadRegs) (mode : BitVec 32) :
    regs.sameControl (regs.storeBank mode) := by
  unfold storeBank
  split_ifs <;> exact ⟨rfl, rfl, rfl, rfl⟩

theorem loadBank_sameControl (regs : ThreadRegs) (mode : BitVec 32) :
    regs.sameControl (regs.loadBank mode) := by
  unfold loadBank
  split_ifs <;> exact ⟨rfl, rfl, rfl, rfl⟩

/-- The bank switch does not touch the status register and the interrupt registers. -/
theorem switchBank_sameControl (regs : ThreadRegs) (currentMode newMode : BitVec 32) :
    regs.sameControl (regs.switchBank currentMode newMode) := by
  unfold switchBank
  split_ifs
  · exact ⟨rfl, rfl, rfl, rfl⟩
  · exact ⟨rfl, rfl, rfl, rfl⟩
  · exact ⟨rfl, rfl, rfl, rfl⟩
  · obtain ⟨hc, hm, he, hf⟩ := regs.storeBank_sameControl currentMode
    obtain ⟨hc', hm', he', hf'⟩ := (regs.storeBank currentMode).loadBank_sameControl newMode
    exact ⟨hc'.trans hc, hm'.trans hm, he'.trans he, hf'.trans hf⟩

@[simp] theorem setCpsr_cpsr (regs : ThreadRegs) (value : BitVec 32) (save : Bool) :
    (regs.setCpsr value save).cpsr = value := rfl

@[simp] theorem setCpsr_ime (regs : ThreadRegs) (value : BitVec 32) (save : Bool) :
    (regs.setCpsr value save).ime = regs.ime :=
  (regs.switchBank_sameControl _ _).2.1

@[simp] theorem setCpsr_ie (regs : ThreadRegs) (value : BitVec 32) (save : Bool) :
    (regs.setCpsr value save).ie = regs.ie :=
  (regs.switchBank_sameControl _ _).2.2.1

@[simp] theorem setCpsr_irf (regs : ThreadRegs) (value : BitVec 32) (save : Bool) :
    (regs.setCpsr value save).irf = regs.irf :=
  (regs.switchBank_sameControl _ _).2.2.2

/-- The upper three bytes hold neither the interrupt registers nor the irq-disable bit. -/
theorem setFlagBytes_control (regs : ThreadRegs) (value : BitVec 32) (flags : BitVec 8) :
    (regs.setFlagBytes value flags).ime = regs.ime ∧
      (regs.setFlagBytes value flags).ie = regs.ie ∧
      (regs.setFlagBytes value flags).irf = regs.irf ∧
      cpsrIrqDisable (regs.setFlagBytes value flags).cpsr = cpsrIrqDisable regs.cpsr := by
  unfold setFlagBytes
  have hstep : ∀ (is : List ℕ) (r : ThreadRegs), (∀ i ∈ is, i = 1 ∨ i = 2 ∨ i = 3) →
      let r' := is.foldl (fun regs i => if flags.getLsbD i then
        { regs with cpsr := (regs.cpsr &&& ~~~((0xFF : BitVec 32) <<< (i * 8))) |||
          (value &&& ((0xFF : BitVec 32) <<< (i * 8))) } else regs) r
      r'.ime = r.ime ∧ r'.ie = r.ie ∧ r'.irf = r.irf ∧
        cpsrIrqDisable r'.cpsr = cpsrIrqDisable r.cpsr := by
    intro is
    induction is with
    | nil => intro r _; exact ⟨rfl, rfl, rfl, rfl⟩
    | cons i is ih =>
        intro r his
        obtain ⟨hm, he, hf, hc⟩ := ih (if flags.getLsbD i then
          { r with cpsr := (r.cpsr &&& ~~~((0xFF : BitVec 32) <<< (i * 8))) |||
            (value &&& ((0xFF : BitVec 32) <<< (i * 8))) } else r)
          fun j hj => his j (List.mem_cons_of_mem _ hj)
        rw [List.foldl_cons]
        refine ⟨hm.trans ?_, he.trans ?_, hf.trans ?_, hc.trans ?_⟩
        · split <;> rfl
        · split <;> rfl
        · split <;> rfl
        · split
          · rcases his i List.mem_cons_self with rfl | rfl | rfl <;> simp [cpsrIrqDisable]
          · rfl
  exact hstep [1, 2, 3] regs (by simp)

end ThreadRegs

end AdvancedSlop
