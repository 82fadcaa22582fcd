/-
# No lost wake-up

A halted cpu sleeps until `cpu_send_interrupt` unhalts it (interrupts masked) or the dispatch of
`CpuInterrupt` does.  The system below takes the cpu's and the bus's actions one at a time, in
any order; a call of `cm_check_events` is a run of such steps (`cmCheckEvents_reaches`).

* `WakeInv` : in every reachable state a deliverable interrupt is scheduled;
* `wakeLaw_iff` : the wake-up law says that a halted cpu with an enabled interrupt raised has
  interrupts unmasked;
* `no_lost_wakeup` : along runs whose steps do not put the cpu to sleep, or mask it in its
  sleep, over a raised interrupt, the law holds, and every such step breaks it.
-/
import AdvancedSlop.CallHandlers
import AdvancedSlop.CpuInterrupt
import AdvancedSlop.TransitionSystem

namespace AdvancedSlop

open TransitionSystem

variable {D : Type*}

/-! ## The steps -/

/-- The actions on the cpu's interrupt state.  `guest` is any instruction that leaves the
interrupt registers and the irq-disable bit alone; `scheduler` is anything that happens to the
scheduler without taking a scheduled interrupt back. -/
inductive CpuOp (D : Type*)
  | haltCnt (value : BitVec 8)
  | swiHalt
  | swiIntrWait
  | swiVBlankIntrWait
  | swiSleep
  | ime (value : BitVec 8)
  | ie (mask value : BitVec 32)
  | irf (mask value : BitVec 32)
  | cpsr (value : BitVec 32) (save : Bool)
  | cpsrWithFlags (value : BitVec 32) (flags : BitVec 8)
  | restoreSpsr
  | uninterrupt
  | sendInterrupt (flag : InterruptFlag)
  | takeInterrupt
  | guest (regs : ThreadRegs) (rest : D)
  | scheduler (cm : CycleManager)

/-- The start of `cm_check_events`: the mask is taken and, first in table order, the interrupt
is dispatched if it was pending. -/
def takeInterrupt (bus : Bus D) (m : Machine D) : Machine D :=
  let pending := m.cm.activeImmEvents .cpuInterrupt
  let m := { m with cm := m.cm.takeImm }
  if pending then cpuOnInterruptEvent bus m else m

/-- One action; `none` when it is not one the constructor allows. -/
def cpuStep (bus : Bus D) (m : Machine D) : CpuOp D → Option (Machine D)
  | .haltCnt value => some (cpuSetHaltCnt value m)
  | .swiHalt => some (swi biosHalt m)
  | .swiIntrWait => some (swi (interruptWait bus) m)
  | .swiVBlankIntrWait => some (swi (vBlankIntrWait bus) m)
  | .swiSleep => some (swi biosSleep m)
  | .ime value => some (cpuSetIme value m)
  | .ie mask value => some (cpuSetIe mask value m)
  | .irf mask value => some (cpuSetIrf mask value m)
  | .cpsr value save => some (threadSetCpsr value save m)
  | .cpsrWithFlags value flags => some (threadSetCpsrWithFlags value flags m)
  | .restoreSpsr => some (threadRestoreSpsr m)
  | .uninterrupt => some (uninterrupt bus m)
  | .sendInterrupt flag => some (cpuSendInterrupt flag m)
  | .takeInterrupt => some (takeInterrupt bus m)
  | .guest regs rest =>
      if regs.ime = m.dev.regs.ime ∧ regs.ie = m.dev.regs.ie ∧ regs.irf = m.dev.regs.irf ∧
          cpsrIrqDisable regs.cpsr = cpsrIrqDisable m.dev.regs.cpsr then
        some ((m.withRegs regs).withRest rest)
      else none
  | .scheduler cm =>
      if m.cm.activeImmEvents .cpuInterrupt = true → cm.activeImmEvents .cpuInterrupt = true then
        some { m with cm := cm }
      else none

/-! ## The invariant and the law -/

/-- Only bit 0 of `halt` is ever set, and an interrupt that could be delivered is scheduled. -/
structure WakeInv (m : Machine D) : Prop where
  halt : m.dev.cpu.halt = 0 ∨ m.dev.cpu.halt = 1
  pending : Deliverable m → Enabled m → m.cm.activeImmEvents .cpuInterrupt = true

/-- **The wake-up law**: when the cpu is halted and an enabled interrupt is raised, the
interrupt is scheduled and its dispatch unhalts the cpu. -/
def WakeLaw (bus : Bus D) (m : Machine D) : Prop :=
  Halted m → Enabled m →
    m.cm.activeImmEvents .cpuInterrupt = true ∧ ¬ Halted (takeInterrupt bus m)

/-- A halted cpu with an enabled interrupt raised has interrupts unmasked. -/
def Awake (m : Machine D) : Prop := Halted m → Enabled m → Deliverable m

/-- In a state with the invariant the law is `Awake`. -/
theorem wakeLaw_iff (bus : Bus D) {m : Machine D} (h : WakeInv m) :
    WakeLaw bus m ↔ Awake m := by
  constructor
  · intro hlaw hh he
    obtain ⟨hp, hn⟩ := hlaw hh he
    by_contra hd
    -- a masked interrupt is dispatched without effect
    apply hn
    rw [takeInterrupt, if_pos hp, cpuOnInterruptEvent, if_neg fun hde => hd hde.1]
    exact hh
  · intro hawake hh he
    have hd := hawake hh he
    refine ⟨h.pending hd he, ?_⟩
    rw [takeInterrupt, if_pos (h.pending hd he), cpuOnInterruptEvent, if_pos ⟨hd, he⟩]
    have hhalt := (interrupt_regs bus { m with cm := m.cm.takeImm }).2.2.2.2
    intro hn
    apply hn
    show (interrupt bus _).dev.cpu.halt &&& ~~~((1 : BitVec 8) <<< 0) = 0
    rw [hhalt]
    rcases h.halt with h0 | h1
    · simp [h0]
    · simp [h1]

/-! ## What one step does -/

/-- Any halt bit pattern the code reaches, halted. -/
theorem halted_cpuHalt {m : Machine D} (h : m.dev.cpu.halt = 0 ∨ m.dev.cpu.halt = 1) :
    (cpuHalt 0 m).dev.cpu.halt = 1 := by
  show m.dev.cpu.halt ||| ((1 : BitVec 8) <<< 0) = 1
  rcases h with h | h <;> simp [h]

/-- Halting keeps the invariant. -/
theorem WakeInv.cpuHalt {m : Machine D} (h : WakeInv m) : WakeInv (cpuHalt 0 m) :=
  ⟨Or.inr (halted_cpuHalt h.halt), h.pending⟩

/-- A check for interrupts establishes the invariant. -/
theorem WakeInv.check {m : Machine D} (h : m.dev.cpu.halt = 0 ∨ m.dev.cpu.halt = 1) :
    WakeInv (cpuCheckForInterrupt m) := by
  have hregs := cpuCheckForInterrupt_regs m
  refine ⟨by rw [cpuCheckForInterrupt_cpu]; exact h, fun hd he => ?_⟩
  exact cpuCheckForInterrupt_pending ((deliverable_congr hregs).mp hd)
    ((enabled_congr hregs).mp he)

/-- Writing the status register establishes the invariant. -/
theorem WakeInv.threadSetCpsr {m : Machine D} (h : WakeInv m) (value : BitVec 32)
    (save : Bool) : WakeInv (threadSetCpsr value save m) :=
  WakeInv.check h.halt

/-- A change of cpu registers other than `halt` and of the rest keeps the invariant. -/
theorem WakeInv.congr {m m' : Machine D} (h : WakeInv m) (hregs : m'.dev.regs = m.dev.regs)
    (hhalt : m'.dev.cpu.halt = m.dev.cpu.halt) (hcm : m'.cm = m.cm) : WakeInv m' := by
  refine ⟨hhalt ▸ h.halt, fun hd he => ?_⟩
  rw [hcm]
  exact h.pending ((deliverable_congr hregs).mp hd) ((enabled_congr hregs).mp he)

/-- The bios flags word. -/
def waitFlagsWord (bus : Bus D) (m : Machine D) : BitVec 32 :=
  (bus.memRead waitFlagsAddr m.dev.rest).1

/-- The two outcomes of `check_wait_flags`. -/
theorem checkWaitFlags_eq (bus : Bus D) (m : Machine D) :
    checkWaitFlags bus m =
      let read := (bus.memRead waitFlagsAddr m.dev.rest).2
      let waitFlags := m.dev.cpu.biosWaitFlags
      if waitFlagsWord bus m &&& waitFlags ≠ 0 then
        (m.withRest (bus.memWrite waitFlagsAddr (waitFlagsWord bus m &&& ~~~waitFlags)
          read)).withCpu { m.dev.cpu with biosWaitFlags := 0 }
      else cpuHalt 0 (m.withRest read) := rfl

/-- `check_wait_flags` halts unless an awaited flag is set. -/
theorem checkWaitFlags_halt (bus : Bus D) {m : Machine D}
    (h : m.dev.cpu.halt = 0 ∨ m.dev.cpu.halt = 1) :
    (checkWaitFlags bus m).dev.cpu.halt =
      if waitFlagsWord bus m &&& m.dev.cpu.biosWaitFlags ≠ 0 then m.dev.cpu.halt else 1 := by
  rw [checkWaitFlags_eq]
  simp only
  split
  · rfl
  · exact halted_cpuHalt h

theorem WakeInv.checkWaitFlags (bus : Bus D) {m : Machine D} (h : WakeInv m) :
    WakeInv (checkWaitFlags bus m) := by
  obtain ⟨hregs, hcm⟩ := checkWaitFlags_frame bus m
  refine ⟨?_, fun hd he => ?_⟩
  · rw [checkWaitFlags_halt bus h.halt]
    split
    · exact h.halt
    · exact Or.inr rfl
  · rw [hcm]
    exact h.pending ((deliverable_congr hregs).mp hd) ((enabled_congr hregs).mp he)

/-- `interrupt_wait` keeps the invariant. -/
theorem WakeInv.interruptWait (bus : Bus D) {m : Machine D} (h : WakeInv m) :
    WakeInv (interruptWait bus m) := by
  have hflags : WakeInv (m.withCpu { m.dev.cpu with biosWaitFlags := m.dev.regs.gpRegs 1 }) :=
    h.congr rfl rfl rfl
  have hcheck := hflags.checkWaitFlags bus
  unfold AdvancedSlop.interruptWait
  simp only
  split
  · refine WakeInv.cpuHalt ?_
    exact hcheck.congr rfl rfl rfl
  · exact hcheck

/-- The return from a handler halts when an awaited flag is still missing. -/
theorem recheckWaitFlags_halt (bus : Bus D) {m : Machine D}
    (h : m.dev.cpu.halt = 0 ∨ m.dev.cpu.halt = 1) :
    (recheckWaitFlags bus m).dev.cpu.halt =
      if m.dev.cpu.biosWaitFlags ≠ 0 ∧ waitFlagsWord bus m &&& m.dev.cpu.biosWaitFlags = 0
      then 1 else m.dev.cpu.halt := by
  set m₁ := m.withCpu { m.dev.cpu with biosOpenBus := 0xE55EC002 } with hm₁
  by_cases hw : m.dev.cpu.biosWaitFlags ≠ 0
  · have heq : recheckWaitFlags bus m = checkWaitFlags bus m₁ := if_pos hw
    rw [heq, checkWaitFlags_halt bus (show m₁.dev.cpu.halt = 0 ∨ m₁.dev.cpu.halt = 1 from h)]
    show (if waitFlagsWord bus m &&& m.dev.cpu.biosWaitFlags ≠ 0 then m.dev.cpu.halt else 1) = _
    by_cases hf : waitFlagsWord bus m &&& m.dev.cpu.biosWaitFlags = 0
    · rw [if_neg (not_not.mpr hf), if_pos ⟨hw, hf⟩]
    · rw [if_pos hf, if_neg fun hand => hf hand.2]
  · have heq : recheckWaitFlags bus m = m₁ := if_neg hw
    rw [heq, if_neg fun hand => hw hand.1]
    rfl

theorem WakeInv.recheckWaitFlags (bus : Bus D) {m : Machine D} (h : WakeInv m) :
    WakeInv (recheckWaitFlags bus m) := by
  have hbus : WakeInv (m.withCpu { m.dev.cpu with biosOpenBus := 0xE55EC002 }) :=
    h.congr rfl rfl rfl
  simp only [AdvancedSlop.recheckWaitFlags]
  split
  · exact hbus.checkWaitFlags bus
  · exact hbus

/-- A write of the upper status bytes changes nothing the law looks at. -/
theorem withFlagBytes_congr (m : Machine D) (value : BitVec 32) (flags : BitVec 8) :
    let m' := m.withRegs (m.dev.regs.setFlagBytes value flags)
    (Deliverable m' ↔ Deliverable m) ∧ (Enabled m' ↔ Enabled m) := by
  obtain ⟨hm, he, hf, hc⟩ := m.dev.regs.setFlagBytes_control value flags
  constructor
  · simp only [Deliverable, withRegs_regs, hm, hc]
  · simp only [Enabled, withRegs_regs, he, hf]

/-- Acknowledging raises nothing. -/
theorem enabled_of_cpuSetIrf {mask value : BitVec 32} {m : Machine D}
    (h : Enabled (cpuSetIrf mask value m)) : Enabled m := by
  intro h0
  apply h
  show m.dev.regs.ie &&& (m.dev.regs.irf &&& ~~~(value &&& mask)) = 0
  rw [← BitVec.and_assoc, h0]
  simp

/-- An instruction that leaves the interrupt registers and the irq-disable bit alone changes
nothing the law looks at. -/
theorem guest_congr {m : Machine D} {regs : ThreadRegs} {r : D}
    (hm : regs.ime = m.dev.regs.ime) (he : regs.ie = m.dev.regs.ie)
    (hf : regs.irf = m.dev.regs.irf)
    (hc : cpsrIrqDisable regs.cpsr = cpsrIrqDisable m.dev.regs.cpsr) :
    (Deliverable ((m.withRegs regs).withRest r) ↔ Deliverable m) ∧
      (Enabled ((m.withRegs regs).withRest r) ↔ Enabled m) := by
  constructor
  · simp only [Deliverable, withRest_regs, withRegs_regs, hm, hc]
  · simp only [Enabled, withRest_regs, withRegs_regs, he, hf]

/-- Unhalting clears the only bit ever set. -/
theorem cpuUnhalt_halt {m : Machine D} (h : m.dev.cpu.halt = 0 ∨ m.dev.cpu.halt = 1) :
    (cpuUnhalt 0 m).dev.cpu.halt = 0 := by
  show m.dev.cpu.halt &&& ~~~((1 : BitVec 8) <<< 0) = 0
  rcases h with h | h <;> simp [h]

/-- **The invariant step lemma.** -/
theorem WakeInv.step {bus : Bus D} {m m' : Machine D} {op : CpuOp D} (h : WakeInv m)
    (hs : cpuStep bus m op = some m') : WakeInv m' := by
  cases op with
  | haltCnt value =>
      obtain rfl := Option.some.inj hs
      have hcnt : WakeInv (m.withCpu { m.dev.cpu with haltCnt := value &&& 0xC0 }) :=
        h.congr rfl rfl rfl
      exact hcnt.cpuHalt
  | swiHalt =>
      obtain rfl := Option.some.inj hs
      have hswi : WakeInv (m.withCpu { m.dev.cpu with biosOpenBus := 0xE3A02004 }) :=
        h.congr rfl rfl rfl
      exact hswi.cpuHalt
  | swiSleep =>
      obtain rfl := Option.some.inj hs
      have hswi : WakeInv (m.withCpu { m.dev.cpu with
          biosOpenBus := 0xE3A02004, haltCnt := 0xC0 &&& 0xC0 }) := h.congr rfl rfl rfl
      exact hswi.cpuHalt
  | swiIntrWait =>
      obtain rfl := Option.some.inj hs
      exact WakeInv.interruptWait bus (h.congr rfl rfl rfl)
  | swiVBlankIntrWait =>
      obtain rfl := Option.some.inj hs
      unfold swi vBlankIntrWait
      exact WakeInv.interruptWait bus ⟨h.halt, h.pending⟩
  | ime value =>
      obtain rfl := Option.some.inj hs
      exact WakeInv.check h.halt
  | ie mask value =>
      obtain rfl := Option.some.inj hs
      exact WakeInv.check h.halt
  | irf mask value =>
      obtain rfl := Option.some.inj hs
      exact ⟨h.halt, fun hd he => h.pending hd (enabled_of_cpuSetIrf he)⟩
  | cpsr value save =>
      obtain rfl := Option.some.inj hs
      exact h.threadSetCpsr value save
  | cpsrWithFlags value flags =>
      obtain rfl := Option.some.inj hs
      have hbyte : WakeInv (if flags.getLsbD 0 then
          AdvancedSlop.threadSetCpsr (m.dev.regs.controlByte value) false m else m) := by
        split
        · exact h.threadSetCpsr _ _
        · exact h
      obtain ⟨hd, he⟩ := withFlagBytes_congr (if flags.getLsbD 0 then
        AdvancedSlop.threadSetCpsr (m.dev.regs.controlByte value) false m else m) value flags
      exact ⟨hbyte.halt, fun hd' he' => hbyte.pending (hd.mp hd') (he.mp he')⟩
  | restoreSpsr =>
      obtain rfl := Option.some.inj hs
      unfold threadRestoreSpsr
      split
      · exact h
      · exact h.threadSetCpsr _ _
  | uninterrupt =>
      obtain rfl := Option.some.inj hs
      exact WakeInv.check (h.recheckWaitFlags bus).halt
  | sendInterrupt flag =>
      obtain rfl := Option.some.inj hs
      unfold cpuSendInterrupt
      simp only
      split
      · split
        · exact WakeInv.check h.halt
        · rename_i hmasked
          refine ⟨Or.inl ?_, fun hd _ => absurd hd hmasked⟩
          exact cpuUnhalt_halt h.halt
      · rename_i hnone
        exact ⟨h.halt, fun _ he => absurd he hnone⟩
  | takeInterrupt =>
      obtain rfl := Option.some.inj hs
      unfold takeInterrupt cpuOnInterruptEvent
      simp only
      split
      · split
        · -- the dispatched interrupt leaves the cpu masked
          obtain ⟨hmask, -, -, -, hhalt⟩ := interrupt_regs bus { m with cm := m.cm.takeImm }
          refine ⟨Or.inl (cpuUnhalt_halt (hhalt ▸ h.halt)), fun hd _ => ?_⟩
          have hopen : cpsrIrqDisable
            (interrupt bus { m with cm := m.cm.takeImm }).dev.regs.cpsr = false := hd.2
          rw [hmask] at hopen
          simp at hopen
        · rename_i hnone
          exact ⟨h.halt, fun hd he => absurd ⟨hd, he⟩ hnone⟩
      · rename_i hnone
        exact ⟨h.halt, fun hd he => absurd (h.pending hd he) hnone⟩
  | guest regs rest =>
      simp only [cpuStep] at hs
      split at hs
      · rename_i hguard
        obtain ⟨hm, he, hf, hc⟩ := hguard
        obtain rfl := Option.some.inj hs
        obtain ⟨hd', he'⟩ := guest_congr (r := rest) hm he hf hc
        exact ⟨h.halt, fun hd en => h.pending (hd'.mp hd) (he'.mp en)⟩
      · simp at hs
  | scheduler cm =>
      simp only [cpuStep] at hs
      split at hs
      · rename_i hkeep
        obtain rfl := Option.some.inj hs
        exact ⟨h.halt, fun hd he => hkeep (h.pending hd he)⟩
      · simp at hs

/-! ## Which steps stay awake -/

/-- The condition on a step: it does not halt the cpu, enable a source or mask interrupts in
such a way that the cpu is halted over an enabled raised interrupt with interrupts masked. -/
def CpuOp.StaysAwake (bus : Bus D) (m : Machine D) : CpuOp D → Prop
  | .haltCnt _ => Enabled m → Deliverable m
  | .swiHalt => Enabled m → Deliverable m
  | .swiSleep => Enabled m → Deliverable m
  | .swiVBlankIntrWait => Enabled m → Deliverable m
  | .swiIntrWait =>
      m.dev.regs.gpRegs 0 ≠ 0 ∨ waitFlagsWord bus m &&& m.dev.regs.gpRegs 1 = 0 →
        Enabled m → Deliverable m
  | .ime value =>
      Halted m → Enabled m → value &&& 1 ≠ 0 ∧ cpsrIrqDisable m.dev.regs.cpsr = false
  | .ie mask value =>
      Halted m → newIe m.dev.regs.ie mask value &&& m.dev.regs.irf ≠ 0 → Deliverable m
  | .cpsr value _ =>
      Halted m → Enabled m → m.dev.regs.ime ≠ 0 ∧ cpsrIrqDisable value = false
  | .cpsrWithFlags value flags =>
      Halted m → Enabled m → m.dev.regs.ime ≠ 0 ∧
        cpsrIrqDisable (if flags.getLsbD 0 then m.dev.regs.controlByte value
          else m.dev.regs.cpsr) = false
  | .restoreSpsr =>
      Halted m → Enabled m → m.dev.regs.ime ≠ 0 ∧
        cpsrIrqDisable (if m.dev.regs.isUser then m.dev.regs.cpsr else m.dev.regs.spsr) = false
  | .uninterrupt =>
      Halted m ∨ m.dev.cpu.biosWaitFlags ≠ 0 ∧
          waitFlagsWord bus m &&& m.dev.cpu.biosWaitFlags = 0 →
        Enabled m → m.dev.regs.ime ≠ 0 ∧ cpsrIrqDisable m.dev.regs.spsr = false
  | .irf _ _ => True
  | .sendInterrupt _ => True
  | .takeInterrupt => True
  | .guest _ _ => True
  | .scheduler _ => True

/-- Halting over a raised interrupt needs interrupts unmasked. -/
theorem awake_cpuHalt {m : Machine D} (h : m.dev.cpu.halt = 0 ∨ m.dev.cpu.halt = 1) :
    Awake (cpuHalt 0 m) ↔ (Enabled m → Deliverable m) := by
  have hh : Halted (cpuHalt 0 m) := by
    unfold Halted
    rw [halted_cpuHalt h]
    decide
  exact ⟨fun ha he => ha hh he, fun ha _ he => ha he⟩

/-- Writing the status register stays awake unless it masks a halted cpu. -/
theorem awake_threadSetCpsr (value : BitVec 32) (save : Bool) (m : Machine D) :
    Awake (threadSetCpsr value save m) ↔
      (Halted m → Enabled m → m.dev.regs.ime ≠ 0 ∧ cpsrIrqDisable value = false) := by
  simp only [Awake, Halted, Enabled, Deliverable, threadSetCpsr_regs, threadSetCpsr_cpu,
    ThreadRegs.setCpsr_ie, ThreadRegs.setCpsr_irf, ThreadRegs.setCpsr_ime,
    ThreadRegs.setCpsr_cpsr]

/-- `check_wait_flags` stays awake unless it halts over a raised interrupt. -/
theorem awake_checkWaitFlags (bus : Bus D) {m : Machine D} (h : WakeInv m) (ha : Awake m) :
    Awake (checkWaitFlags bus m) ↔
      (waitFlagsWord bus m &&& m.dev.cpu.biosWaitFlags = 0 → Enabled m → Deliverable m) := by
  obtain ⟨hregs, -⟩ := checkWaitFlags_frame bus m
  have hhalt := checkWaitFlags_halt bus h.halt
  unfold Awake Halted
  rw [enabled_congr hregs, deliverable_congr hregs, hhalt]
  by_cases hw : waitFlagsWord bus m &&& m.dev.cpu.biosWaitFlags = 0
  · rw [if_neg (not_not.mpr hw)]
    exact ⟨fun hall _ he => hall (by decide) he, fun hall _ he => hall hw he⟩
  · rw [if_pos hw]
    exact ⟨fun _ hw' => absurd hw' hw, fun _ => ha⟩

/-- `interrupt_wait` stays awake unless it halts over a raised interrupt. -/
theorem awake_interruptWait (bus : Bus D) {m : Machine D} (h : WakeInv m) (ha : Awake m) :
    Awake (interruptWait bus m) ↔
      (m.dev.regs.gpRegs 0 ≠ 0 ∨ waitFlagsWord bus m &&& m.dev.regs.gpRegs 1 = 0 →
        Enabled m → Deliverable m) := by
  set m₁ := m.withCpu { m.dev.cpu with biosWaitFlags := m.dev.regs.gpRegs 1 } with hm₁
  have h₁ : WakeInv m₁ := h.congr rfl rfl rfl
  by_cases hr : m.dev.regs.gpRegs 0 ≠ 0
  · have hcheck := h₁.checkWaitFlags bus
    have heq : interruptWait bus m = cpuHalt 0 ((checkWaitFlags bus m₁).withCpu
        { (checkWaitFlags bus m₁).dev.cpu with biosWaitFlags := m.dev.regs.gpRegs 1 }) :=
      if_pos hr
    have hregs : ((checkWaitFlags bus m₁).withCpu { (checkWaitFlags bus m₁).dev.cpu with
        biosWaitFlags := m.dev.regs.gpRegs 1 }).dev.regs = m.dev.regs :=
      (checkWaitFlags_frame bus m₁).1
    rw [heq, awake_cpuHalt (by exact hcheck.halt), enabled_congr hregs, deliverable_congr hregs]
    exact ⟨fun hall _ => hall, fun hall => hall (Or.inl hr)⟩
  · have heq : interruptWait bus m = checkWaitFlags bus m₁ := if_neg hr
    rw [heq, awake_checkWaitFlags bus h₁ ha]
    exact ⟨fun hall hor => hall (hor.resolve_left hr), fun hall hw => hall (Or.inr hw)⟩

/-- **The step lemma of the law**: from an awake state a step leads to an awake state exactly
when it stays awake. -/
theorem awake_step_iff {bus : Bus D} {m m' : Machine D} {op : CpuOp D} (h : WakeInv m)
    (ha : Awake m) (hs : cpuStep bus m op = some m') : Awake m' ↔ op.StaysAwake bus m := by
  cases op with
  | haltCnt value =>
      obtain rfl := Option.some.inj hs
      exact awake_cpuHalt h.halt
  | swiHalt =>
      obtain rfl := Option.some.inj hs
      exact awake_cpuHalt h.halt
  | swiSleep =>
      obtain rfl := Option.some.inj hs
      exact awake_cpuHalt h.halt
  | swiIntrWait =>
      obtain rfl := Option.some.inj hs
      exact awake_interruptWait bus (h.congr rfl rfl rfl) ha
  | swiVBlankIntrWait =>
      obtain rfl := Option.some.inj hs
      unfold swi vBlankIntrWait
      refine Iff.trans (awake_interruptWait bus ?_ ?_) ?_
      · exact ⟨h.halt, h.pending⟩
      · exact ha
      · exact ⟨fun hall => hall (Or.inl (by simp)), fun hall _ => hall⟩
  | ime value =>
      obtain rfl := Option.some.inj hs
      simp only [cpuSetIme, Awake, Halted, Enabled, Deliverable, CpuOp.StaysAwake,
        cpuCheckForInterrupt_regs, cpuCheckForInterrupt_cpu, withRegs_regs, withRegs_cpu]
  | ie mask value =>
      obtain rfl := Option.some.inj hs
      simp only [cpuSetIe, Awake, Halted, Enabled, Deliverable, CpuOp.StaysAwake,
        cpuCheckForInterrupt_regs, cpuCheckForInterrupt_cpu, withRegs_regs, withRegs_cpu]
  | irf mask value =>
      obtain rfl := Option.some.inj hs
      exact ⟨fun _ => trivial, fun _ hh he => ha hh (enabled_of_cpuSetIrf he)⟩
  | cpsr value save =>
      obtain rfl := Option.some.inj hs
      exact awake_threadSetCpsr value save m
  | cpsrWithFlags value flags =>
      obtain rfl := Option.some.inj hs
      obtain ⟨hd, he⟩ := withFlagBytes_congr (if flags.getLsbD 0 then
        threadSetCpsr (m.dev.regs.controlByte value) false m else m) value flags
      have hiff : Awake (threadSetCpsrWithFlags value flags m) ↔
          Awake (if flags.getLsbD 0 then
            threadSetCpsr (m.dev.regs.controlByte value) false m else m) :=
        ⟨fun hall hh en => hd.mp (hall hh (he.mpr en)), fun hall hh en => hd.mpr (hall hh (he.mp en))⟩
      rw [hiff]
      simp only [CpuOp.StaysAwake]
      by_cases hf : flags.getLsbD 0 = true
      · rw [if_pos hf, if_pos hf]
        exact awake_threadSetCpsr _ false m
      · rw [if_neg hf, if_neg hf]
        exact Iff.rfl
  | restoreSpsr =>
      obtain rfl := Option.some.inj hs
      simp only [CpuOp.StaysAwake, threadRestoreSpsr]
      by_cases hu : m.dev.regs.isUser = true
      · rw [if_pos hu, if_pos hu]
        exact Iff.rfl
      · rw [if_neg hu, if_neg hu]
        exact awake_threadSetCpsr _ false m
  | uninterrupt =>
      obtain rfl := Option.some.inj hs
      obtain ⟨hc, hm, hie, hirf, hhalt⟩ := uninterrupt_regs bus m
      have hhalted : Halted (uninterrupt bus m) ↔ Halted m ∨ m.dev.cpu.biosWaitFlags ≠ 0 ∧
          waitFlagsWord bus m &&& m.dev.cpu.biosWaitFlags = 0 := by
        unfold Halted
        rw [hhalt, recheckWaitFlags_halt bus h.halt]
        by_cases hw : m.dev.cpu.biosWaitFlags ≠ 0 ∧
            waitFlagsWord bus m &&& m.dev.cpu.biosWaitFlags = 0
        · rw [if_pos hw]
          exact ⟨fun _ => Or.inr hw, fun _ => by decide⟩
        · rw [if_neg hw]
          exact ⟨Or.inl, fun hor => hor.resolve_right hw⟩
      unfold Awake
      rw [hhalted]
      simp only [Enabled, Deliverable, hie, hirf, hm, hc, CpuOp.StaysAwake]
  | sendInterrupt flag =>
      obtain rfl := Option.some.inj hs
      refine ⟨fun _ => trivial, fun _ => ?_⟩
      unfold cpuSendInterrupt
      simp only
      split
      · split
        · rename_i hd
          intro _ _
          exact (deliverable_congr (cpuCheckForInterrupt_regs _)).mpr hd
        · intro hh
          exact absurd (cpuUnhalt_halt h.halt) hh
      · rename_i hnone
        exact fun _ he => absurd he hnone
  | takeInterrupt =>
      obtain rfl := Option.some.inj hs
      refine ⟨fun _ => trivial, fun _ => ?_⟩
      unfold takeInterrupt cpuOnInterruptEvent
      simp only
      split
      · split
        · intro hh
          obtain ⟨-, -, -, -, hhalt⟩ := interrupt_regs bus { m with cm := m.cm.takeImm }
          exact absurd (cpuUnhalt_halt (hhalt ▸ h.halt)) hh
        · exact ha
      · exact ha
  | guest regs rest =>
      simp only [cpuStep] at hs
      split at hs
      · rename_i hguard
        obtain ⟨hm, he, hf, hc⟩ := hguard
        obtain rfl := Option.some.inj hs
        obtain ⟨hd', he'⟩ := guest_congr (r := rest) hm he hf hc
        exact ⟨fun _ => trivial, fun _ hh en => hd'.mpr (ha hh (he'.mp en))⟩
      · simp at hs
  | scheduler cm =>
      simp only [cpuStep] at hs
      split at hs
      · obtain rfl := Option.some.inj hs
        exact ⟨fun _ => trivial, fun _ => ha⟩
      · simp at hs

/-! ## A check is a run of steps -/

/-- What a device handler or a DMA transfer may do: write the interrupt registers, raise an
interrupt, call the scheduler. -/
inductive BusOp
  | haltCnt (value : BitVec 8)
  | ime (value : BitVec 8)
  | ie (mask value : BitVec 32)
  | irf (mask value : BitVec 32)
  | sendInterrupt (flag : InterruptFlag)
  | call (call : CmCall)

/-- Execute a bus operation. -/
def BusOp.run (m : Machine D) : BusOp → Machine D
  | haltCnt value => cpuSetHaltCnt value m
  | ime value => cpuSetIme value m
  | ie mask value => cpuSetIe mask value m
  | irf mask value => cpuSetIrf mask value m
  | sendInterrupt flag => cpuSendInterrupt flag m
  | call c => { m with cm := c.run m.cm }

/-- The handlers of the devices and of DMA. -/
structure DeviceHandlers (D : Type*) where
  dma : ImmEventType → Machine D → List BusOp × D
  event : EventType → Machine D → List BusOp × D
  timersOnOverflow : ℕ → D → D

/-- Execute what a device handler asks for. -/
def runDevice (m : Machine D) (r : List BusOp × D) : Machine D :=
  (r.1.foldl BusOp.run m).withRest r.2

/-- The handler tables of `cm_check_events`: `CpuInterrupt` goes to `cpu_on_interrupt_event`. -/
def DeviceHandlers.toHandlers (H : DeviceHandlers D) (bus : Bus D) : Handlers (Board D) where
  imm e m :=
    match e with
    | .cpuInterrupt => cpuOnInterruptEvent bus m
    | e => runDevice m (H.dma e m)
  event e m := runDevice m (H.event e m)
  timersOnOverflow clock b := { b with rest := H.timersOnOverflow clock b.rest }

section Runs

variable {bus : Bus D} {m m' : Machine D}

/-- Any run of steps, with no condition on them. -/
abbrev CpuRun (bus : Bus D) : Machine D → Machine D → Prop :=
  Reaches (cpuStep bus) fun _ _ => True

theorem cpuRun_scheduler (cm : CycleManager)
    (h : m.cm.activeImmEvents .cpuInterrupt = true → cm.activeImmEvents .cpuInterrupt = true) :
    CpuRun bus m { m with cm := cm } :=
  Reaches.single (a := .scheduler cm) trivial (if_pos h)

theorem cpuRun_rest (rest : D) : CpuRun bus m (m.withRest rest) :=
  Reaches.single (a := .guest m.dev.regs rest) trivial (if_pos ⟨rfl, rfl, rfl, rfl⟩)

theorem CmCall.run_keeps (cm : CycleManager) (call : CmCall)
    (h : cm.activeImmEvents .cpuInterrupt = true) :
    (call.run cm).activeImmEvents .cpuInterrupt = true := by
  rcases call.run_cases cm with ⟨d, e, -, hrun⟩ | ⟨i, -, hrun⟩
  · rw [hrun]
    exact h
  · rw [hrun]
    by_cases hi : i = .cpuInterrupt
    · simp [CycleManager.scheduleImm, hi]
    · simpa [CycleManager.scheduleImm, Function.update_of_ne (Ne.symm hi)] using h

theorem cpuRun_busOp (op : BusOp) : CpuRun bus m (op.run m) := by
  cases op with
  | haltCnt value => exact Reaches.single (a := .haltCnt value) trivial rfl
  | ime value => exact Reaches.single (a := .ime value) trivial rfl
  | ie mask value => exact Reaches.single (a := .ie mask value) trivial rfl
  | irf mask value => exact Reaches.single (a := .irf mask value) trivial rfl
  | sendInterrupt flag => exact Reaches.single (a := .sendInterrupt flag) trivial rfl
  | call c => exact cpuRun_scheduler _ (c.run_keeps m.cm)

theorem cpuRun_device (r : List BusOp × D) : CpuRun bus m (runDevice m r) := by
  have hops : ∀ (ops : List BusOp) (m : Machine D), CpuRun bus m (ops.foldl BusOp.run m) := by
    intro ops
    induction ops with
    | nil => exact fun m => Reaches.refl m
    | cons op ops ih => exact fun m => (cpuRun_busOp op).trans (ih _)
  exact (hops r.1 m).trans (cpuRun_rest r.2)

/-- The immediate part of a check: the interrupt first, then DMA. -/
theorem cpuRun_dispatchImm (H : DeviceHandlers D) :
    CpuRun bus m (dispatchImm (H.toHandlers bus) m) := by
  have hdma : ∀ (es : List ImmEventType) (m : Machine D), (∀ e ∈ es, e ≠ .cpuInterrupt) →
      CpuRun bus m (es.foldl (fun m e => (H.toHandlers bus).imm e m) m) := by
    intro es
    induction es with
    | nil => exact fun m _ => Reaches.refl m
    | cons e es ih =>
        intro m hne
        refine Reaches.trans ?_ (ih _ fun e' he' => hne e' (List.mem_cons_of_mem _ he'))
        cases e with
        | cpuInterrupt => exact absurd rfl (hne _ List.mem_cons_self)
        | dma0 => exact cpuRun_device _
        | dma1 => exact cpuRun_device _
        | dma2 => exact cpuRun_device _
        | dma3 => exact cpuRun_device _
  have htail : ∀ e ∈ [ImmEventType.dma0, .dma1, .dma2, .dma3].filter m.cm.activeImmEvents,
      e ≠ .cpuInterrupt := by
    intro e he
    have := List.mem_of_mem_filter he
    rintro rfl
    simp at this
  have htake : CpuRun bus m (takeInterrupt bus m) :=
    Reaches.single (a := .takeInterrupt) trivial rfl
  refine htake.trans ?_
  unfold dispatchImm CycleManager.pendingImm ImmEventType.all takeInterrupt
  by_cases hp : m.cm.activeImmEvents .cpuInterrupt = true
  · rw [List.filter_cons_of_pos hp, List.foldl_cons, if_pos hp]
    exact hdma _ _ htail
  · rw [List.filter_cons_of_neg hp, if_neg hp]
    exact hdma _ _ htail

/-- The dispatch loop. -/
theorem cpuRun_drain (H : DeviceHandlers D) {fuel : ℕ}
    {r : List (ℕ × EventType) × Machine D}
    (h : drain (H.toHandlers bus) fuel m = some r) : CpuRun bus m r.2 :=
  drain_invariant (H.toHandlers bus) (I := fun t => CpuRun bus m t)
    (fun t e due _ ht => (ht.trans (cpuRun_scheduler (t.cm.beginDispatch e due) id)).trans
      (cpuRun_device _)) h (Reaches.refl m)

/-- **A check is a run of steps**, so what holds along every run holds around every check. -/
theorem cmCheckEvents_reaches (H : DeviceHandlers D) {fuel : ℕ} {r : CheckResult (Board D)}
    (h : cmCheckEvents (H.toHandlers bus) fuel m = some r) : CpuRun bus m r.emu := by
  have himm : CpuRun bus m (dispatchImm (H.toHandlers bus) m) := cpuRun_dispatchImm H
  obtain ⟨-, ⟨-, -, -, he⟩ | ⟨-, -, t, ht, he⟩⟩ := cmCheckEvents_cases h
  · rw [he]
    exact himm
  · rw [he]
    have hforget : CpuRun bus (dispatchImm (H.toHandlers bus) m)
        (forgetNext (dispatchImm (H.toHandlers bus) m)) := cpuRun_scheduler _ id
    have hrecompute : CpuRun bus t (recompute t) := cpuRun_scheduler _ id
    refine ((himm.trans hforget).trans (cpuRun_drain H ht)).trans (hrecompute.trans ?_)
    unfold rebase
    split
    · exact Reaches.trans (cpuRun_scheduler (m := recompute t) t.cm.recomputeNext.onOverflowEvent id)
        (cpuRun_rest _)
    · exact Reaches.refl _

end Runs

/-! ## The law -/

theorem not_enabled_boot (rest : D) : ¬ Enabled (boot rest) := by
  simp [Enabled, boot, ThreadRegs.default]

/-- In every reachable state a deliverable interrupt is scheduled. -/
theorem wakeInv_of_reaches {bus : Bus D} {C : Machine D → CpuOp D → Prop} {rest : D}
    {m : Machine D} (h : Reaches (cpuStep bus) C (boot rest) m) : WakeInv m :=
  h.invariant (fun _ _ _ hw _ hs => hw.step hs) ⟨Or.inl rfl, fun _ he => (not_enabled_boot _ he).elim⟩

/-- **No lost wake-up.**  After every run whose steps stay awake, the wake-up law holds, and it
holds after one more step exactly when that step stays awake. -/
theorem no_lost_wakeup (bus : Bus D) {r : D} {m : Machine D}
    (h : Reaches (cpuStep bus) (fun m op => op.StaysAwake bus m) (boot r) m) :
    WakeLaw bus m ∧ ∀ op m', cpuStep bus m op = some m' →
      (WakeLaw bus m' ↔ op.StaysAwake bus m) := by
  have hw := wakeInv_of_reaches h
  have ha : Awake m := by
    refine h.invariant_of_reaches (I := fun t => Awake t) ?_ fun hh _ => (hh rfl).elim
    intro t op t' hr ht hgood hs
    exact (awake_step_iff (wakeInv_of_reaches hr) ht hs).mpr hgood
  refine ⟨(wakeLaw_iff bus hw).mpr ha, fun op m' hs => ?_⟩
  rw [wakeLaw_iff bus (hw.step hs)]
  exact awake_step_iff hw ha hs

/-- A memory that reads as zero. -/
def zeroBus : Bus Unit where
  memRead _ _ := (0, ())
  memWrite _ _ _ := ()
  memReadMultiple _ _ _ := (fun _ => 0, ())
  memWriteMultiple _ _ _ := ()

/-- The guest enables the vblank interrupt, halts, and vblank is raised. -/
def wokenByVBlank : Machine Unit :=
  cpuSendInterrupt .lcdVBlank (cpuSetHaltCnt 0 (cpuSetIme 1 (cpuSetIe 1 1 (boot ()))))

/-- The halted cpu is woken by the raise. -/
theorem wokenByVBlank_law :
    Halted wokenByVBlank ∧ Enabled wokenByVBlank ∧ WakeLaw zeroBus wokenByVBlank := by
  refine ⟨by decide, by decide, (no_lost_wakeup zeroBus (r := ()) ?_).1⟩
  refine Reaches.tail (a := .sendInterrupt .lcdVBlank) ?_ trivial rfl
  refine Reaches.tail (a := .haltCnt 0) ?_ (fun h => absurd h (by decide)) rfl
  refine Reaches.tail (a := .ime 1) ?_ (fun h => absurd h (by decide)) rfl
  exact Reaches.single (a := .ie 1 1) (fun h => absurd h (by decide)) rfl

/-- With `ime` clear the guest enables the vblank interrupt, vblank is raised, and only then the
guest writes HALTCNT. -/
def haltedTooLate : Machine Unit :=
  cpuSetHaltCnt 0 (cpuSendInterrupt .lcdVBlank (cpuSetIe 1 1 (boot ())))

/-- **The lost wake-up**: the cpu sleeps over the raised interrupt and nothing is scheduled. -/
theorem haltedTooLate_sleeps : CpuRun zeroBus (boot ()) haltedTooLate ∧
    Halted haltedTooLate ∧ Enabled haltedTooLate ∧
    haltedTooLate.cm.activeImmEvents .cpuInterrupt = false ∧
    ¬ WakeLaw zeroBus haltedTooLate := by
  refine ⟨?_, by decide, by decide, rfl, fun h => ?_⟩
  · refine Reaches.tail (a := .haltCnt 0) ?_ trivial rfl
    refine Reaches.tail (a := .sendInterrupt .lcdVBlank) ?_ trivial rfl
    exact Reaches.single (a := .ie 1 1) trivial rfl
  · exact absurd (h (by decide) (by decide)).1 (by decide)

end AdvancedSlop
