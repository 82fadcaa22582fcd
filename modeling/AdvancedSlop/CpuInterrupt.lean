/-
# Interrupts, halting and waking

`src/core/cpu_regs.rs` and the interrupt part of `src/core/hle/bios.rs`.  A raised interrupt
reaches the guest through the immediate event `CpuInterrupt`; a halted cpu is woken by its
dispatch, or by `cpu_send_interrupt` when interrupts are masked.

* `Deliverable`, `Enabled`, `Halted` : the predicates the code tests;
* `cpuCheckForInterrupt`, `cpuSendInterrupt`, `cpuOnInterruptEvent` : the operations;
* `interruptWait`, `uninterrupt` : the bios calls that halt.

The guest's memory is behind the interface `Bus`: the stack frame of an interrupt, the handler
pointer and the bios flags word are read and written through it.
-/
import AdvancedSlop.CycleManager
import AdvancedSlop.ThreadRegs

namespace AdvancedSlop

/-! ## The data -/

/-- `InterruptFlag`, in bit order. -/
inductive InterruptFlag
  | lcdVBlank | lcdHBlank | lcdVCounterMatch
  | timer0Overflow | timer1Overflow | timer2Overflow | timer3Overflow
  | rtc | dma0 | dma1 | dma2 | dma3 | keypad | gbaSlot
  deriving DecidableEq, Repr

/-- The bit of an interrupt in `ie` and `irf`. -/
def InterruptFlag.bit : InterruptFlag → ℕ
  | lcdVBlank => 0
  | lcdHBlank => 1
  | lcdVCounterMatch => 2
  | timer0Overflow => 3
  | timer1Overflow => 4
  | timer2Overflow => 5
  | timer3Overflow => 6
  | rtc => 7
  | dma0 => 8
  | dma1 => 9
  | dma2 => 10
  | dma3 => 11
  | keypad => 12
  | gbaSlot => 13

/-- `CpuRegs`. -/
structure CpuRegs where
  postFlg : BitVec 8
  haltCnt : BitVec 8
  halt : BitVec 8
  biosWaitFlags : BitVec 32
  waitCnt : BitVec 16
  biosOpenBus : BitVec 32

/-- `CpuRegs::new`. -/
def CpuRegs.new : CpuRegs where
  postFlg := 0
  haltCnt := 0
  halt := 0
  biosWaitFlags := 0
  waitCnt := 0
  biosOpenBus := 0xE129F000

/-- The cpu's part of the emulator, the cycle count of the running jit slice, and the rest. -/
structure Board (D : Type*) where
  regs : ThreadRegs
  cpu : CpuRegs
  accumulatedCycles : ℕ
  rest : D

/-- The emulator as the cpu sees it. -/
abbrev Machine (D : Type*) := Emu (Board D)

/-- The guest memory as the bios routines use it. -/
structure Bus (D : Type*) where
  memRead : BitVec 32 → D → BitVec 32 × D
  memWrite : BitVec 32 → BitVec 32 → D → D
  memReadMultiple : BitVec 32 → ℕ → D → (ℕ → BitVec 32) × D
  memWriteMultiple : BitVec 32 → List (BitVec 32) → D → D

variable {D : Type*}

/-- Change the registers. -/
def Emu.withRegs (m : Machine D) (regs : ThreadRegs) : Machine D :=
  { m with dev := { m.dev with regs := regs } }

/-- Change the cpu control registers. -/
def Emu.withCpu (m : Machine D) (cpu : CpuRegs) : Machine D :=
  { m with dev := { m.dev with cpu := cpu } }

/-- Change the rest. -/
def Emu.withRest (m : Machine D) (rest : D) : Machine D :=
  { m with dev := { m.dev with rest := rest } }

section Frames

variable (m : Machine D) (regs : ThreadRegs) (cpu : CpuRegs) (rest : D)

@[simp] theorem withRegs_regs : (m.withRegs regs).dev.regs = regs := rfl

@[simp] theorem withRegs_cpu : (m.withRegs regs).dev.cpu = m.dev.cpu := rfl

@[simp] theorem withRegs_rest : (m.withRegs regs).dev.rest = m.dev.rest := rfl

@[simp] theorem withRegs_cm : (m.withRegs regs).cm = m.cm := rfl

@[simp] theorem withCpu_regs : (m.withCpu cpu).dev.regs = m.dev.regs := rfl

@[simp] theorem withCpu_cpu : (m.withCpu cpu).dev.cpu = cpu := rfl

@[simp] theorem withCpu_rest : (m.withCpu cpu).dev.rest = m.dev.rest := rfl

@[simp] theorem withCpu_cm : (m.withCpu cpu).cm = m.cm := rfl

@[simp] theorem withRest_regs : (m.withRest rest).dev.regs = m.dev.regs := rfl

@[simp] theorem withRest_cpu : (m.withRest rest).dev.cpu = m.dev.cpu := rfl

@[simp] theorem withRest_rest : (m.withRest rest).dev.rest = rest := rfl

@[simp] theorem withRest_cm : (m.withRest rest).cm = m.cm := rfl

end Frames

/-- The cpu at boot: reset registers in system mode, nothing halted or scheduled. -/
def boot (rest : D) : Machine D :=
  ⟨CycleManager.init, ThreadRegs.default.setCpsr 0x1F false, CpuRegs.new, 0, rest⟩

/-- An enabled interrupt is raised. -/
def Enabled (m : Machine D) : Prop := m.dev.regs.ie &&& m.dev.regs.irf ≠ 0

/-- Interrupts are not masked. -/
def Deliverable (m : Machine D) : Prop :=
  m.dev.regs.ime ≠ 0 ∧ cpsrIrqDisable m.dev.regs.cpsr = false

/-- `cpu_is_halted`. -/
def Halted (m : Machine D) : Prop := m.dev.cpu.halt ≠ 0

instance (m : Machine D) : Decidable (Enabled m) := inferInstanceAs (Decidable (_ ≠ _))

instance (m : Machine D) : Decidable (Deliverable m) := inferInstanceAs (Decidable (_ ∧ _))

instance (m : Machine D) : Decidable (Halted m) := inferInstanceAs (Decidable (_ ≠ _))

/-! ## The interrupt operations -/

/-- `MAX_BRANCH_LOOP_CYCLE_COUNT`. -/
def maxBranchLoopCycleCount : ℕ := 128

/-- `cpu_schedule_interrupt`. -/
def cpuScheduleInterrupt (m : Machine D) : Machine D :=
  { m with cm := m.cm.scheduleImm .cpuInterrupt }

/-- `cpu_check_for_interrupt`: schedule the interrupt and end the running slice soon. -/
def cpuCheckForInterrupt (m : Machine D) : Machine D :=
  if Deliverable m ∧ Enabled m then
    let m := cpuScheduleInterrupt m
    { m with dev := { m.dev with
        accumulatedCycles := max m.dev.accumulatedCycles maxBranchLoopCycleCount } }
  else m

/-- `cpu_set_ime`. -/
def cpuSetIme (value : BitVec 8) (m : Machine D) : Machine D :=
  cpuCheckForInterrupt (m.withRegs { m.dev.regs with ime := value &&& 1 })

/-- The value `cpu_set_ie` stores: 14 interrupt sources. -/
def newIe (ie mask value : BitVec 32) : BitVec 32 :=
  (ie &&& ~~~(mask &&& 0x3FFF)) ||| (value &&& (mask &&& 0x3FFF))

/-- `cpu_set_ie`. -/
def cpuSetIe (mask value : BitVec 32) (m : Machine D) : Machine D :=
  cpuCheckForInterrupt
    (m.withRegs { m.dev.regs with ie := newIe m.dev.regs.ie mask value })

/-- `cpu_set_irf`: writing a one acknowledges. -/
def cpuSetIrf (mask value : BitVec 32) (m : Machine D) : Machine D :=
  m.withRegs { m.dev.regs with irf := m.dev.regs.irf &&& ~~~(value &&& mask) }

/-- `cpu_halt`. -/
def cpuHalt (bit : ℕ) (m : Machine D) : Machine D :=
  m.withCpu { m.dev.cpu with halt := m.dev.cpu.halt ||| ((1 : BitVec 8) <<< bit) }

/-- `cpu_unhalt`. -/
def cpuUnhalt (bit : ℕ) (m : Machine D) : Machine D :=
  m.withCpu { m.dev.cpu with halt := m.dev.cpu.halt &&& ~~~((1 : BitVec 8) <<< bit) }

/-- `cpu_send_interrupt`: raise, then deliver, or wake the cpu when interrupts are masked. -/
def cpuSendInterrupt (flag : InterruptFlag) (m : Machine D) : Machine D :=
  let m := m.withRegs { m.dev.regs with irf := m.dev.regs.irf ||| ((1 : BitVec 32) <<< flag.bit) }
  if Enabled m then
    if Deliverable m then cpuCheckForInterrupt m else cpuUnhalt 0 m
  else m

/-- `cpu_set_halt_cnt`: any write halts. -/
def cpuSetHaltCnt (value : BitVec 8) (m : Machine D) : Machine D :=
  cpuHalt 0 (m.withCpu { m.dev.cpu with haltCnt := value &&& 0xC0 })

/-- `thread_set_cpsr`. -/
def threadSetCpsr (value : BitVec 32) (save : Bool) (m : Machine D) : Machine D :=
  cpuCheckForInterrupt (m.withRegs (m.dev.regs.setCpsr value save))

/-- `thread_set_cpsr_with_flags`. -/
def threadSetCpsrWithFlags (value : BitVec 32) (flags : BitVec 8) (m : Machine D) : Machine D :=
  let m := if flags.getLsbD 0 then threadSetCpsr (m.dev.regs.controlByte value) false m else m
  m.withRegs (m.dev.regs.setFlagBytes value flags)

/-- `thread_restore_spsr`. -/
def threadRestoreSpsr (m : Machine D) : Machine D :=
  if m.dev.regs.isUser then m else threadSetCpsr m.dev.regs.spsr false m

/-! ## The bios -/

/-- The bios flags word of `IntrWait`, in the top mirror of IWRAM. -/
def waitFlagsAddr : BitVec 32 := 0x3FFFFF8

/-- `halt`. -/
def biosHalt (m : Machine D) : Machine D := cpuHalt 0 m

/-- `check_wait_flags`. -/
def checkWaitFlags (bus : Bus D) (m : Machine D) : Machine D :=
  let r := bus.memRead waitFlagsAddr m.dev.rest
  let m := m.withRest r.2
  let waitFlags := m.dev.cpu.biosWaitFlags
  if r.1 &&& waitFlags ≠ 0 then
    let m := m.withRest (bus.memWrite waitFlagsAddr (r.1 &&& ~~~waitFlags) m.dev.rest)
    m.withCpu { m.dev.cpu with biosWaitFlags := 0 }
  else cpuHalt 0 m

/-- `interrupt_wait`, with `discard_old` in `r0` and the flags in `r1`. -/
def interruptWait (bus : Bus D) (m : Machine D) : Machine D :=
  let discardOld := m.dev.regs.gpRegs 0 ≠ 0
  let waitFlags := m.dev.regs.gpRegs 1
  let m := m.withCpu { m.dev.cpu with biosWaitFlags := waitFlags }
  if discardOld then
    let m := checkWaitFlags bus m
    let m := m.withCpu { m.dev.cpu with biosWaitFlags := waitFlags }
    cpuHalt 0 m
  else checkWaitFlags bus m

/-- `v_blank_intr_wait`. -/
def vBlankIntrWait (bus : Bus D) (m : Machine D) : Machine D :=
  let gpRegs := Function.update m.dev.regs.gpRegs 0 1
  let gpRegs := Function.update gpRegs 1 ((1 : BitVec 32) <<< InterruptFlag.lcdVBlank.bit)
  interruptWait bus (m.withRegs { m.dev.regs with gpRegs := gpRegs })

/-- `sleep`. -/
def biosSleep (m : Machine D) : Machine D := cpuSetHaltCnt 0xC0 m

/-- `swi`: the bios calls that halt. -/
def swi (f : Machine D → Machine D) (m : Machine D) : Machine D :=
  f (m.withCpu { m.dev.cpu with biosOpenBus := 0xE3A02004 })

/-- The status register an interrupt handler starts with. -/
def handlerCpsr (cpsr : BitVec 32) : BitVec 32 :=
  cpsrSetMode (cpsrSetThumb (cpsrSetIrqDisable cpsr true) false) 0x12

/-- `interrupt`: enter IRQ mode with interrupts disabled, push the frame and jump to the guest's
handler. -/
def interrupt (bus : Bus D) (m : Machine D) : Machine D :=
  let m := m.withCpu { m.dev.cpu with biosOpenBus := 0xE25EF004 }
  let m := threadSetCpsr (handlerCpsr m.dev.regs.cpsr) true m
  let m := m.withRegs { m.dev.regs with
    spsr := cpsrSetThumb m.dev.regs.spsr (m.dev.regs.pc.getLsbD 0) }
  let regs := m.dev.regs
  let frame := [regs.gpRegs 0, regs.gpRegs 1, regs.gpRegs 2, regs.gpRegs 3, regs.gpRegs 12,
    regs.pc + 4]
  let m := m.withRegs { regs with sp := regs.sp - 24 }
  let m := m.withRest (bus.memWriteMultiple m.dev.regs.sp frame m.dev.rest)
  let r := bus.memRead 0x3FFFFFC m.dev.rest
  (m.withRest r.2).withRegs { m.dev.regs with lr := 0xFFF00000, pc := r.1 }

/-- The start of `uninterrupt`: an `IntrWait` in progress checks its flags again. -/
def recheckWaitFlags (bus : Bus D) (m : Machine D) : Machine D :=
  let m := m.withCpu { m.dev.cpu with biosOpenBus := 0xE55EC002 }
  if m.dev.cpu.biosWaitFlags ≠ 0 then checkWaitFlags bus m else m

/-- `uninterrupt`: the return from the guest's handler. -/
def uninterrupt (bus : Bus D) (m : Machine D) : Machine D :=
  let m := recheckWaitFlags bus m
  let r := bus.memReadMultiple m.dev.regs.sp 6 m.dev.rest
  let regs := m.dev.regs
  let gpRegs : Fin 13 → BitVec 32 := fun i =>
    if i < 4 then r.1 i else if i = 12 then r.1 4 else regs.gpRegs i
  let pc := ((r.1 5 - 4) &&& ~~~1) ||| (if cpsrThumb regs.spsr then 1 else 0)
  let m := (m.withRest r.2).withRegs
    { regs with gpRegs := gpRegs, sp := regs.sp + 24, lr := r.1 5, pc := pc }
  threadSetCpsr m.dev.regs.spsr false m

/-- `cpu_on_interrupt_event`: the dispatch of the immediate event. -/
def cpuOnInterruptEvent (bus : Bus D) (m : Machine D) : Machine D :=
  if Deliverable m ∧ Enabled m then cpuUnhalt 0 (interrupt bus m) else m

/-! ## What the operations change -/

@[simp] theorem cpuCheckForInterrupt_regs (m : Machine D) :
    (cpuCheckForInterrupt m).dev.regs = m.dev.regs := by
  unfold cpuCheckForInterrupt
  split <;> rfl

@[simp] theorem cpuCheckForInterrupt_cpu (m : Machine D) :
    (cpuCheckForInterrupt m).dev.cpu = m.dev.cpu := by
  unfold cpuCheckForInterrupt
  split <;> rfl

@[simp] theorem threadSetCpsr_regs (value : BitVec 32) (save : Bool) (m : Machine D) :
    (threadSetCpsr value save m).dev.regs = m.dev.regs.setCpsr value save := by
  rw [threadSetCpsr, cpuCheckForInterrupt_regs]
  rfl

@[simp] theorem threadSetCpsr_cpu (value : BitVec 32) (save : Bool) (m : Machine D) :
    (threadSetCpsr value save m).dev.cpu = m.dev.cpu := by
  rw [threadSetCpsr, cpuCheckForInterrupt_cpu]
  rfl

theorem enabled_congr {m m' : Machine D} (h : m'.dev.regs = m.dev.regs) :
    Enabled m' ↔ Enabled m := by
  unfold Enabled
  rw [h]

theorem deliverable_congr {m m' : Machine D} (h : m'.dev.regs = m.dev.regs) :
    Deliverable m' ↔ Deliverable m := by
  unfold Deliverable
  rw [h]

/-- A check schedules the interrupt when there is one to deliver. -/
theorem cpuCheckForInterrupt_pending {m : Machine D} (hd : Deliverable m) (he : Enabled m) :
    (cpuCheckForInterrupt m).cm.activeImmEvents .cpuInterrupt = true := by
  rw [cpuCheckForInterrupt, if_pos ⟨hd, he⟩]
  simp [cpuScheduleInterrupt, CycleManager.scheduleImm]

/-- A check never takes a scheduled interrupt back. -/
theorem cpuCheckForInterrupt_keeps {m : Machine D}
    (h : m.cm.activeImmEvents .cpuInterrupt = true) :
    (cpuCheckForInterrupt m).cm.activeImmEvents .cpuInterrupt = true := by
  unfold cpuCheckForInterrupt
  split
  · simp [cpuScheduleInterrupt, CycleManager.scheduleImm]
  · exact h

/-- `cpu_send_interrupt`, first half: the interrupt is raised. -/
def raiseInterrupt (flag : InterruptFlag) (m : Machine D) : Machine D :=
  m.withRegs { m.dev.regs with irf := m.dev.regs.irf ||| ((1 : BitVec 32) <<< flag.bit) }

/-- `cpu_send_interrupt`, second half: what is enabled is delivered, or wakes the cpu. -/
def deliverInterrupt (m : Machine D) : Machine D :=
  if Enabled m then
    if Deliverable m then cpuCheckForInterrupt m else cpuUnhalt 0 m
  else m

theorem cpuSendInterrupt_eq (flag : InterruptFlag) (m : Machine D) :
    cpuSendInterrupt flag m = deliverInterrupt (raiseInterrupt flag m) := rfl

/-- Sending an interrupt does not reach the rest. -/
@[simp] theorem cpuSendInterrupt_rest (flag : InterruptFlag) (m : Machine D) :
    (cpuSendInterrupt flag m).dev.rest = m.dev.rest := by
  unfold cpuSendInterrupt cpuCheckForInterrupt
  simp only
  split
  · split
    · split <;> rfl
    · rfl
  · rfl

/-- The handler runs with interrupts disabled. -/
theorem handlerCpsr_irqDisable (cpsr : BitVec 32) :
    cpsrIrqDisable (handlerCpsr cpsr) = true := by
  simp [cpsrIrqDisable, handlerCpsr, cpsrSetMode, cpsrSetThumb, cpsrSetIrqDisable]

/-- A dispatched interrupt leaves the cpu in the handler: masked, with the interrupt registers
as they were. -/
theorem interrupt_regs (bus : Bus D) (m : Machine D) :
    cpsrIrqDisable (interrupt bus m).dev.regs.cpsr = true ∧
      (interrupt bus m).dev.regs.ime = m.dev.regs.ime ∧
      (interrupt bus m).dev.regs.ie = m.dev.regs.ie ∧
      (interrupt bus m).dev.regs.irf = m.dev.regs.irf ∧
      (interrupt bus m).dev.cpu.halt = m.dev.cpu.halt := by
  simp [interrupt, handlerCpsr_irqDisable]

/-- `check_wait_flags` leaves the registers and the scheduler alone. -/
theorem checkWaitFlags_frame (bus : Bus D) (m : Machine D) :
    (checkWaitFlags bus m).dev.regs = m.dev.regs ∧ (checkWaitFlags bus m).cm = m.cm := by
  simp only [checkWaitFlags]
  split <;> exact ⟨rfl, rfl⟩

theorem recheckWaitFlags_regs (bus : Bus D) (m : Machine D) :
    (recheckWaitFlags bus m).dev.regs = m.dev.regs := by
  simp only [recheckWaitFlags]
  split
  · exact (checkWaitFlags_frame bus _).1
  · rfl

/-- The return from a handler restores the status register and leaves the interrupt registers
alone; whether the cpu halts is decided by the flags check. -/
theorem uninterrupt_regs (bus : Bus D) (m : Machine D) :
    (uninterrupt bus m).dev.regs.cpsr = m.dev.regs.spsr ∧
      (uninterrupt bus m).dev.regs.ime = m.dev.regs.ime ∧
      (uninterrupt bus m).dev.regs.ie = m.dev.regs.ie ∧
      (uninterrupt bus m).dev.regs.irf = m.dev.regs.irf ∧
      (uninterrupt bus m).dev.cpu.halt = (recheckWaitFlags bus m).dev.cpu.halt := by
  simp [uninterrupt, recheckWaitFlags_regs]

end AdvancedSlop
