/-
# The hardware timers

`src/core/timers.rs`: four 16-bit counters.  A running counter is not stepped: the code keeps
the cycle it will overflow at (`scheduled_cycle`), schedules that as an event, and recomputes
`current_value` from it when the guest reads the counter.  A timer with the count-up bit counts
the overflows of the timer below it instead.

* `timersGetCntL`, `timersSetCntL`, `timersSetCntH` : the register accesses;
* `timersOverflow` : the overflow of a timer, with the effects it has, in order;
* `timerStep` : the actions on the timers and around them, one at a time;
* `cmCheckEvents_timerRun` : a call of `cm_check_events` is a run of these steps.

The sound fifos a timer clocks are behind the interface `FifoPort`.
-/
import AdvancedSlop.CpuInterrupt
import AdvancedSlop.TransitionSystem

namespace AdvancedSlop

open TransitionSystem

/-! ## The data -/

/-- `TIME_OVERFLOW`. -/
def timeOverflow : ℕ := 0x10000

/-- `TimerCntH::prescaler`. -/
def cntPrescaler (cntH : BitVec 16) : ℕ := (cntH &&& 3).toNat

/-- `TimerCntH::count_up`. -/
def cntCountUp (cntH : BitVec 16) : Bool := cntH.getLsbD 2

/-- `TimerCntH::irq_enable`. -/
def cntIrqEnable (cntH : BitVec 16) : Bool := cntH.getLsbD 6

/-- `TimerCntH::start`. -/
def cntStart (cntH : BitVec 16) : Bool := cntH.getLsbD 7

/-- `TimerCntH::is_count_up`: timer 0 never counts up. -/
def cntIsCountUp (n : Fin 4) (cntH : BitVec 16) : Bool := n ≠ 0 && cntCountUp cntH

/-- The prescaler shift `timers_set_cnt_h` derives from the control register. -/
def cntShift (n : Fin 4) (cntH : BitVec 16) : ℕ :=
  if cntPrescaler cntH = 0 ∨ cntIsCountUp n cntH then 0 else 4 + cntPrescaler cntH * 2

theorem cntShift_le (n : Fin 4) (cntH : BitVec 16) : cntShift n cntH ≤ 10 := by
  have hp : cntPrescaler cntH ≤ 3 := by
    unfold cntPrescaler
    rw [BitVec.toNat_and]
    exact Nat.and_le_right
  unfold cntShift
  split <;> omega

/-- `TimerChannel`. -/
structure TimerChannel where
  cntL : BitVec 16
  cntH : BitVec 16
  currentValue : BitVec 16
  currentShift : ℕ
  scheduledCycle : ℕ
  deriving DecidableEq

/-- `TimerChannel::default`. -/
def TimerChannel.default : TimerChannel := ⟨0, 0, 0, 0, 0⟩

/-- `Timers`, and the rest of the emulator. -/
structure TimerRest (D : Type*) where
  channels : Fin 4 → TimerChannel
  other : D

/-- The emulator as the timers see it. -/
abbrev TimerMachine (D : Type*) := Machine (TimerRest D)

/-- `apu_on_fifo_timer`: what clocking the sound fifos does to the rest, and which DMA channels
it triggers. -/
abbrev FifoPort (D : Type*) := Fin 4 → D → List ImmEventType × D

variable {D : Type*}

/-- A timer channel. -/
def channel (m : TimerMachine D) (n : Fin 4) : TimerChannel := m.dev.rest.channels n

/-- Overwrite a timer channel. -/
def setChannel (m : TimerMachine D) (n : Fin 4) (ch : TimerChannel) : TimerMachine D :=
  m.withRest { m.dev.rest with channels := Function.update m.dev.rest.channels n ch }

/-- `EventType::timer`. -/
def timerEvent : Fin 4 → EventType
  | 0 => .timer0
  | 1 => .timer1
  | 2 => .timer2
  | 3 => .timer3

/-- The interrupt of a timer. -/
def timerFlag : Fin 4 → InterruptFlag
  | 0 => .timer0Overflow
  | 1 => .timer1Overflow
  | 2 => .timer2Overflow
  | 3 => .timer3Overflow

theorem timerEvent_injective : Function.Injective timerEvent := by decide

/-- The timer runs by itself: started and not counting up. -/
def Running (m : TimerMachine D) (n : Fin 4) : Prop :=
  cntStart (channel m n).cntH = true ∧ cntIsCountUp n (channel m n).cntH = false

/-- The timer counts overflows of the one below. -/
def CountsUp (n : Fin 4) (ch : TimerChannel) : Prop :=
  cntStart ch.cntH = true ∧ cntIsCountUp n ch.cntH = true

instance (m : TimerMachine D) (n : Fin 4) : Decidable (Running m n) :=
  inferInstanceAs (Decidable (_ ∧ _))

instance (n : Fin 4) (ch : TimerChannel) : Decidable (CountsUp n ch) :=
  inferInstanceAs (Decidable (_ ∧ _))

/-! ## Register accesses -/

/-- The counter value `timers_get_cnt_l` computes for a running timer. -/
def counterNow (ch : TimerChannel) (clock : ℕ) : BitVec 16 :=
  BitVec.ofNat 16 (wrappingSub timeOverflow (wrappingSub ch.scheduledCycle clock >>> ch.currentShift))

/-- `timers_get_cnt_l`. -/
def timersGetCntL (n : Fin 4) (m : TimerMachine D) : BitVec 16 × TimerMachine D :=
  let ch := channel m n
  let ch := if cntStart ch.cntH && !cntIsCountUp n ch.cntH then
      { ch with currentValue := counterNow ch m.cm.cycleCount }
    else ch
  (ch.currentValue, setChannel m n ch)

/-- `timers_set_cnt_l`. -/
def timersSetCntL (n : Fin 4) (mask value : BitVec 16) (m : TimerMachine D) : TimerMachine D :=
  let ch := channel m n
  setChannel m n { ch with cntL := (ch.cntL &&& ~~~mask) ||| (value &&& mask) }

/-- The control register after a masked write. -/
def newCntH (cntH mask value : BitVec 16) : BitVec 16 :=
  (cntH &&& ~~~(mask &&& 0xC7)) ||| (value &&& (mask &&& 0xC7))

/-- The cycles from a counter value to its overflow. -/
def remainingCycles (value : BitVec 16) (shift : ℕ) : ℕ := (timeOverflow - value.toNat) <<< shift

/-- The first part of `timers_set_cnt_h`: the new control register, the reload on a start edge
and the new shift; the flag tells whether the counter has to be scheduled again. -/
def writeCntH (n : Fin 4) (mask value : BitVec 16) (ch : TimerChannel) : TimerChannel × Bool :=
  let cnt := newCntH ch.cntH mask value
  let startEdge := !cntStart ch.cntH && cntStart cnt
  let shift := cntShift n cnt
  let newShift := (mask &&& 0xC7) &&& 0xFF ≠ 0 && ch.currentShift ≠ shift
  ({ ch with
      cntH := cnt
      currentValue := if startEdge then ch.cntL else ch.currentValue
      currentShift := if newShift then shift else ch.currentShift },
    startEdge || newShift)

/-- `timers_set_cnt_h`. -/
def timersSetCntH (n : Fin 4) (mask value : BitVec 16) (m : TimerMachine D) : TimerMachine D :=
  let r := writeCntH n mask value (channel m n)
  let ch := r.1
  if r.2 && cntStart ch.cntH && !cntIsCountUp n ch.cntH then
    let remaining := remainingCycles ch.currentValue ch.currentShift
    let m := setChannel m n
      { ch with scheduledCycle := (m.cm.cycleCount + remaining) % 4294967296 }
    { m with cm := m.cm.schedule remaining (timerEvent n) }
  else setChannel m n ch

/-! ## Overflow -/

/-- What an overflow does to the outside: the counter is reloaded, the interrupt is sent, the
sound fifos are clocked. -/
inductive TimerEffect
  | reload (n : Fin 4)
  | irq (n : Fin 4)
  | fifo (n : Fin 4)
  deriving DecidableEq, Repr

/-- The effects of one overflow of a timer with the given control register. -/
def overflowEffects (n : Fin 4) (cntH : BitVec 16) : List TimerEffect :=
  .reload n :: (if cntIrqEnable cntH then [.irq n] else []) ++ (if n < 2 then [.fifo n] else [])

/-- The counter is reloaded, and scheduled again from the due cycle unless it counts up. -/
def reloadTimer (n : Fin 4) (m : TimerMachine D) : TimerMachine D :=
  let ch := { channel m n with currentValue := (channel m n).cntL }
  if cntIsCountUp n ch.cntH then setChannel m n ch
  else
    let remaining := remainingCycles ch.currentValue ch.currentShift
    let m := setChannel m n
      { ch with scheduledCycle := min (m.cm.currentEventDue + remaining) u32Max }
    { m with cm := m.cm.scheduleFromDue remaining (timerEvent n) }

/-- Clock the sound fifos and trigger their DMA. -/
def clockFifo (port : FifoPort D) (n : Fin 4) (m : TimerMachine D) : TimerMachine D :=
  let r := port n m.dev.rest.other
  let m := m.withRest { m.dev.rest with other := r.2 }
  { m with cm := r.1.foldl CycleManager.scheduleImm m.cm }

/-- The body of `timers_overflow` up to the cascade. -/
def overflowBody (port : FifoPort D) (n : Fin 4) (m : TimerMachine D) : TimerMachine D :=
  let cnt := (channel m n).cntH
  let m := reloadTimer n m
  let m := if cntIrqEnable cnt then cpuSendInterrupt (timerFlag n) m else m
  if n < 2 then clockFifo port n m else m

/-- `timers_overflow` of the timer `above` places below timer 3, with its effects.  The cascade
looks at the count-up bit of the overflowing timer itself and increments its own counter. -/
def timersOverflowBelow (port : FifoPort D) :
    ℕ → TimerMachine D → List TimerEffect × TimerMachine D
  | 0, m =>
      let cnt := (channel m 3).cntH
      if cntStart cnt then (overflowEffects 3 cnt, overflowBody port 3 m) else ([], m)
  | above + 1, m =>
      let n : Fin 4 := ⟨2 - above, by omega⟩
      let cnt := (channel m n).cntH
      if cntStart cnt then
        let m := overflowBody port n m
        if cntCountUp cnt then
          let ch := channel m n
          let m := setChannel m n { ch with currentValue := ch.currentValue + 1 }
          if ch.currentValue + 1 = 0 then
            let r := timersOverflowBelow port above m
            (overflowEffects n cnt ++ r.1, r.2)
          else (overflowEffects n cnt, m)
        else (overflowEffects n cnt, m)
      else ([], m)

/-- `timers_overflow`. -/
def timersOverflow (port : FifoPort D) (n : Fin 4) (m : TimerMachine D) :
    List TimerEffect × TimerMachine D :=
  timersOverflowBelow port (3 - n) m

/-- The machine the handler of a timer's overflow event starts on. -/
def beginOverflow (n : Fin 4) (m : TimerMachine D) : TimerMachine D :=
  { m with cm := m.cm.beginDispatch (timerEvent n) (m.cm.events (timerEvent n)) }

@[simp] theorem channel_beginOverflow (n k : Fin 4) (m : TimerMachine D) :
    channel (beginOverflow n m) k = channel m k := rfl

@[simp] theorem beginOverflow_currentEventDue (n : Fin 4) (m : TimerMachine D) :
    (beginOverflow n m).cm.currentEventDue = m.cm.events (timerEvent n) := rfl

/-- The dispatch of a timer's overflow event. -/
def dispatchTimer (port : FifoPort D) (n : Fin 4) (m : TimerMachine D) :
    List TimerEffect × TimerMachine D :=
  timersOverflow port n (beginOverflow n m)

/-- Carry out an effect. -/
def TimerEffect.run (port : FifoPort D) (m : TimerMachine D) : TimerEffect → TimerMachine D
  | reload n => reloadTimer n m
  | irq n => cpuSendInterrupt (timerFlag n) m
  | fifo n => clockFifo port n m

/-- The body of an overflow carries out its effects in order. -/
theorem overflowBody_eq (port : FifoPort D) (n : Fin 4) (m : TimerMachine D) :
    overflowBody port n m =
      (overflowEffects n (channel m n).cntH).foldl (TimerEffect.run port) m := by
  unfold overflowBody overflowEffects
  by_cases hi : cntIrqEnable (channel m n).cntH = true <;> by_cases hn : n < 2 <;>
    simp [hi, hn, TimerEffect.run]

/-! ## The steps -/

/-- The actions: the register accesses, the clock moving on, the dispatch of a timer's event, the
rebase of the counters, and whatever else happens without touching the timers or the clock. -/
inductive TimerOp (D : Type*)
  | setCntL (n : Fin 4) (mask value : BitVec 16)
  | setCntH (n : Fin 4) (mask value : BitVec 16)
  | getCntL (n : Fin 4)
  | addCycles (cycles : ℕ)
  | overflowEvent (n : Fin 4)
  | rebase
  | elsewhere (m : TimerMachine D)

/-- The two machines agree on a timer and its event. -/
def SameTimer (n : Fin 4) (m m' : TimerMachine D) : Prop :=
  channel m' n = channel m n ∧ m'.cm.events (timerEvent n) = m.cm.events (timerEvent n) ∧
    m'.cm.activeEvents (timerEvent n) = m.cm.activeEvents (timerEvent n)

/-- The two machines agree on the clock and on all timers. -/
def SameTimers (m m' : TimerMachine D) : Prop :=
  m'.cm.cycleCount = m.cm.cycleCount ∧ ∀ n, SameTimer n m m'

instance (n : Fin 4) (m m' : TimerMachine D) : Decidable (SameTimer n m m') :=
  inferInstanceAs (Decidable (_ ∧ _ ∧ _))

instance (m m' : TimerMachine D) : Decidable (SameTimers m m') :=
  inferInstanceAs (Decidable (_ ∧ _))

/-- The timers' part of `cm_on_overflow_event`: a saturating subtraction on each channel. -/
def rebaseChannels (clock : ℕ) (rest : TimerRest D) : TimerRest D :=
  { rest with channels := fun n =>
      { rest.channels n with scheduledCycle := (rest.channels n).scheduledCycle - clock } }

/-- The rebase of the scheduler and the timers. -/
def rebaseTimers (m : TimerMachine D) : TimerMachine D :=
  ({ m with cm := m.cm.onOverflowEvent } : TimerMachine D).withRest
    (rebaseChannels m.cm.cycleCount m.dev.rest)

/-- One action; `none` when it is not one the constructor allows. -/
def timerStep (port : FifoPort D) (m : TimerMachine D) :
    TimerOp D → Option (TimerMachine D)
  | .setCntL n mask value => some (timersSetCntL n mask value m)
  | .setCntH n mask value => some (timersSetCntH n mask value m)
  | .getCntL n => some (timersGetCntL n m).2
  | .addCycles cycles => some { m with cm := m.cm.addCycles cycles }
  | .overflowEvent n =>
      if m.cm.bestEvent = (some (timerEvent n), m.cm.events (timerEvent n)) then
        some (dispatchTimer port n m).2
      else none
  | .rebase =>
      if rebaseLimit < m.cm.cycleCount ∧ m.cm.bestEvent.1 = none then some (rebaseTimers m)
      else none
  | .elsewhere m' => if SameTimers m m' then some m' else none

/-- The overflow step is possible when the scheduler selects the timer's event. -/
theorem timerStep_overflowEvent (port : FifoPort D) {m : TimerMachine D} {n : Fin 4}
    (h : m.cm.bestEvent = (some (timerEvent n), m.cm.events (timerEvent n))) :
    timerStep port m (.overflowEvent n) = some (dispatchTimer port n m).2 := if_pos h

/-! ## What the operations change -/

section Frames

variable {m m' m'' : TimerMachine D} {n k : Fin 4}

theorem SameTimer.refl (n : Fin 4) (m : TimerMachine D) : SameTimer n m m := ⟨rfl, rfl, rfl⟩

theorem SameTimer.trans (h : SameTimer n m m') (h' : SameTimer n m' m'') : SameTimer n m m'' :=
  ⟨h'.1.trans h.1, h'.2.1.trans h.2.1, h'.2.2.trans h.2.2⟩

theorem SameTimers.refl (m : TimerMachine D) : SameTimers m m := ⟨rfl, fun n => SameTimer.refl n m⟩

theorem SameTimers.trans (h : SameTimers m m') (h' : SameTimers m' m'') : SameTimers m m'' :=
  ⟨h'.1.trans h.1, fun n => (h.2 n).trans (h'.2 n)⟩

@[simp] theorem channel_setChannel (m : TimerMachine D) (n : Fin 4) (ch : TimerChannel) :
    channel (setChannel m n ch) n = ch := by
  simp [channel, setChannel]

theorem channel_setChannel_of_ne (m : TimerMachine D) (ch : TimerChannel) (h : k ≠ n) :
    channel (setChannel m n ch) k = channel m k := by
  simp [channel, setChannel, h]

@[simp] theorem setChannel_cm (m : TimerMachine D) (n : Fin 4) (ch : TimerChannel) :
    (setChannel m n ch).cm = m.cm := rfl

theorem sameTimer_setChannel (m : TimerMachine D) (ch : TimerChannel) (h : k ≠ n) :
    SameTimer k m (setChannel m n ch) :=
  ⟨channel_setChannel_of_ne m ch h, rfl, rfl⟩

/-- Arming a timer's event leaves the other timers alone. -/
theorem sameTimer_arm (m : TimerMachine D) (due : ℕ) (h : k ≠ n) :
    SameTimer k m { m with cm := m.cm.arm due (timerEvent n) } := by
  have hne : timerEvent k ≠ timerEvent n := fun he => h (timerEvent_injective he)
  exact ⟨rfl, by simp [CycleManager.arm, hne], by simp [CycleManager.arm, hne]⟩

/-- Raising an interrupt leaves the timers alone. -/
theorem cpuSendInterrupt_sameTimers (flag : InterruptFlag) (m : TimerMachine D) :
    SameTimers m (cpuSendInterrupt flag m) := by
  unfold cpuSendInterrupt cpuCheckForInterrupt
  simp only
  split
  · split
    · split <;> exact ⟨rfl, fun _ => ⟨rfl, rfl, rfl⟩⟩
    · exact ⟨rfl, fun _ => ⟨rfl, rfl, rfl⟩⟩
  · exact ⟨rfl, fun _ => ⟨rfl, rfl, rfl⟩⟩

theorem foldl_scheduleImm (cm : CycleManager) (es : List ImmEventType) :
    (es.foldl CycleManager.scheduleImm cm).cycleCount = cm.cycleCount ∧
      (es.foldl CycleManager.scheduleImm cm).events = cm.events ∧
      (es.foldl CycleManager.scheduleImm cm).activeEvents = cm.activeEvents := by
  induction es generalizing cm with
  | nil => exact ⟨rfl, rfl, rfl⟩
  | cons e es ih => exact ih (cm.scheduleImm e)

/-- Clocking the fifos leaves the timers alone. -/
theorem clockFifo_sameTimers (port : FifoPort D) (n : Fin 4) (m : TimerMachine D) :
    SameTimers m (clockFifo port n m) := by
  obtain ⟨hclock, hevents, hactive⟩ := foldl_scheduleImm m.cm (port n m.dev.rest.other).1
  exact ⟨hclock, fun k => ⟨rfl, congrFun hevents _, congrFun hactive _⟩⟩

/-- After the reload an overflow leaves the timers alone. -/
theorem overflowBody_sameTimers (port : FifoPort D) (n : Fin 4) (m : TimerMachine D) :
    SameTimers (reloadTimer n m) (overflowBody port n m) := by
  have hirq : SameTimers (reloadTimer n m) (if cntIrqEnable (channel m n).cntH then
      cpuSendInterrupt (timerFlag n) (reloadTimer n m) else reloadTimer n m) := by
    split
    · exact cpuSendInterrupt_sameTimers _ _
    · exact SameTimers.refl _
  unfold overflowBody
  simp only
  by_cases hn : n < 2
  · rw [if_pos hn]
    exact hirq.trans (clockFifo_sameTimers port n _)
  · rw [if_neg hn]
    exact hirq

/-- The channel after a reload. -/
theorem channel_reloadTimer (n : Fin 4) (m : TimerMachine D) :
    channel (reloadTimer n m) n =
      { channel m n with
        currentValue := (channel m n).cntL
        scheduledCycle :=
          if cntIsCountUp n (channel m n).cntH then (channel m n).scheduledCycle
          else min (m.cm.currentEventDue +
            remainingCycles (channel m n).cntL (channel m n).currentShift) u32Max } := by
  unfold reloadTimer
  simp only
  by_cases hc : cntIsCountUp n (channel m n).cntH = true
  · rw [if_pos hc, if_pos hc, channel_setChannel]
  · rw [if_neg hc, if_neg hc]
    exact channel_setChannel m n _

theorem sameTimer_reloadTimer (m : TimerMachine D) (h : k ≠ n) :
    SameTimer k m (reloadTimer n m) := by
  unfold reloadTimer
  simp only
  split
  · exact sameTimer_setChannel m _ h
  · exact (sameTimer_setChannel m _ h).trans (sameTimer_arm _ _ h)

theorem reloadTimer_cycleCount (n : Fin 4) (m : TimerMachine D) :
    (reloadTimer n m).cm.cycleCount = m.cm.cycleCount := by
  unfold reloadTimer
  simp only
  split <;> rfl

/-- The overflow of one timer leaves the other timers alone. -/
theorem sameTimer_overflowBody (port : FifoPort D) (m : TimerMachine D) (h : k ≠ n) :
    SameTimer k m (overflowBody port n m) :=
  (sameTimer_reloadTimer m h).trans ((overflowBody_sameTimers port n m).2 k)

theorem channel_overflowBody (port : FifoPort D) (n : Fin 4) (m : TimerMachine D) :
    channel (overflowBody port n m) n = channel (reloadTimer n m) n :=
  ((overflowBody_sameTimers port n m).2 n).1

end Frames

/-! ## The cascade -/

/-- The overflow of a timer goes on to the next one: it runs, its own count-up bit is set, and
the counter reloads to its last value. -/
def Spills (m : TimerMachine D) (n : Fin 4) : Prop :=
  cntStart (channel m n).cntH = true ∧ cntCountUp (channel m n).cntH = true ∧
    (channel m n).cntL + 1 = 0

/-- The overflow of timer `n` comes to overflow timer `k`. -/
def SpillsTo (m : TimerMachine D) (n k : Fin 4) : Prop :=
  (∀ j, n ≤ j → j < k → Spills m j) ∧ cntStart (channel m k).cntH = true

instance (m : TimerMachine D) (n : Fin 4) : Decidable (Spills m n) :=
  inferInstanceAs (Decidable (_ ∧ _ ∧ _))

instance (m : TimerMachine D) (n k : Fin 4) : Decidable (SpillsTo m n k) :=
  inferInstanceAs (Decidable (_ ∧ _))

/-- The registers of a channel: what only a register write changes. -/
def TimerChannel.registers (ch : TimerChannel) : BitVec 16 × BitVec 16 × ℕ :=
  (ch.cntL, ch.cntH, ch.currentShift)

/-- The overflowing timer after its counter is incremented. -/
def bumpTimer (n : Fin 4) (m : TimerMachine D) : TimerMachine D :=
  setChannel m n { channel m n with currentValue := (channel m n).currentValue + 1 }

/-- **What `timers_overflow` does**: nothing to a stopped timer; otherwise the body, then, with
the count-up bit set, the increment and, on a wrap, the overflow of the next timer. -/
theorem timersOverflowBelow_cases (port : FifoPort D) (above : ℕ) (m : TimerMachine D) :
    let n : Fin 4 := ⟨3 - above, by omega⟩
    let r := timersOverflowBelow port above m
    (cntStart (channel m n).cntH = false ∧ r = ([], m)) ∨
      (cntStart (channel m n).cntH = true ∧
        ((cntCountUp (channel m n).cntH = false ∨ above = 0) ∧
            r = (overflowEffects n (channel m n).cntH, overflowBody port n m) ∨
          (cntCountUp (channel m n).cntH = true ∧ ∃ above', above = above' + 1 ∧
            (((channel m n).cntL + 1 ≠ 0 ∧
                r = (overflowEffects n (channel m n).cntH, bumpTimer n (overflowBody port n m))) ∨
              ((channel m n).cntL + 1 = 0 ∧
                r = (overflowEffects n (channel m n).cntH ++
                    (timersOverflowBelow port above' (bumpTimer n (overflowBody port n m))).1,
                  (timersOverflowBelow port above'
                    (bumpTimer n (overflowBody port n m))).2)))))) := by
  cases above with
  | zero =>
      simp only [timersOverflowBelow]
      by_cases hs : cntStart (channel m 3).cntH = true
      · right
        exact ⟨hs, Or.inl ⟨Or.inr trivial, if_pos hs⟩⟩
      · left
        exact ⟨by simpa using hs, if_neg hs⟩
  | succ above =>
      have hn : (⟨3 - (above + 1), by omega⟩ : Fin 4) = ⟨2 - above, by omega⟩ :=
        Fin.ext (by simp only; omega)
      simp only [timersOverflowBelow, hn]
      set n : Fin 4 := ⟨2 - above, by omega⟩
      have hvalue : (channel (overflowBody port n m) n).currentValue = (channel m n).cntL := by
        rw [channel_overflowBody, channel_reloadTimer]
      by_cases hs : cntStart (channel m n).cntH = true
      · right
        refine ⟨hs, ?_⟩
        by_cases hc : cntCountUp (channel m n).cntH = true
        · refine Or.inr ⟨hc, above, rfl, ?_⟩
          rw [if_pos hs, if_pos hc, hvalue]
          by_cases hz : (channel m n).cntL + 1 = 0
          · refine Or.inr ⟨hz, ?_⟩
            rw [if_pos hz]
            simp only [bumpTimer, hvalue]
          · refine Or.inl ⟨hz, ?_⟩
            rw [if_neg hz]
            simp only [bumpTimer, hvalue]
        · refine Or.inl ⟨Or.inl (by simpa using hc), ?_⟩
          rw [if_pos hs, if_neg hc]
      · left
        exact ⟨by simpa using hs, if_neg hs⟩

theorem sameTimer_bumpTimer (m : TimerMachine D) {k n : Fin 4} (h : k ≠ n) :
    SameTimer k m (bumpTimer n m) :=
  sameTimer_setChannel m _ h

/-- What the body and the increment keep, the cascade keeps. -/
theorem timersOverflowBelow_invariant {port : FifoPort D} {I : TimerMachine D → Prop}
    (body : ∀ n m, I m → I (overflowBody port n m)) (bump : ∀ n m, I m → I (bumpTimer n m))
    (above : ℕ) {m : TimerMachine D} (hm : I m) : I (timersOverflowBelow port above m).2 := by
  induction above generalizing m with
  | zero =>
      rcases timersOverflowBelow_cases port 0 m with ⟨-, hr⟩ | ⟨-, ⟨-, hr⟩ | ⟨-, _, h0, -⟩⟩
      · rw [hr]
        exact hm
      · rw [hr]
        exact body ⟨3 - 0, by omega⟩ m hm
      · omega
  | succ above ih =>
      rcases timersOverflowBelow_cases port (above + 1) m with
        ⟨-, hr⟩ | ⟨-, ⟨-, hr⟩ | ⟨-, above', h, ⟨-, hr⟩ | ⟨-, hr⟩⟩⟩
      · rw [hr]
        exact hm
      · rw [hr]
        exact body ⟨3 - (above + 1), by omega⟩ m hm
      · rw [hr]
        exact bump _ _ (body _ _ hm)
      · obtain rfl : above = above' := by omega
        rw [hr]
        exact ih (bump _ _ (body _ _ hm))

/-- An overflow never writes a register. -/
theorem timersOverflowBelow_registers (port : FifoPort D) (above : ℕ) (m : TimerMachine D)
    (k : Fin 4) : (channel (timersOverflowBelow port above m).2 k).registers =
      (channel m k).registers := by
  refine timersOverflowBelow_invariant
    (I := fun t => (channel t k).registers = (channel m k).registers) ?_ ?_ above rfl
  · intro n t ht
    by_cases hk : k = n
    · subst hk
      rw [channel_overflowBody, channel_reloadTimer]
      exact ht
    · rw [(sameTimer_overflowBody port t hk).1]
      exact ht
  · intro n t ht
    by_cases hk : k = n
    · subst hk
      rw [bumpTimer, channel_setChannel]
      exact ht
    · rw [(sameTimer_bumpTimer t hk).1]
      exact ht

/-- An overflow does not move the clock. -/
theorem timersOverflowBelow_cycleCount (port : FifoPort D) (above : ℕ) (m : TimerMachine D) :
    (timersOverflowBelow port above m).2.cm.cycleCount = m.cm.cycleCount := by
  refine timersOverflowBelow_invariant (I := fun t => t.cm.cycleCount = m.cm.cycleCount)
    ?_ ?_ above rfl
  · intro n t ht
    rw [(overflowBody_sameTimers port n t).1, reloadTimer_cycleCount, ht]
  · exact fun n t ht => ht

/-- The timer an overflow does not spill to is left alone. -/
theorem timersOverflowBelow_frame (port : FifoPort D) (above : ℕ) (hb : above ≤ 3)
    (m : TimerMachine D) (k : Fin 4)
    (h : 3 - above ≤ k.val → ¬ SpillsTo m ⟨3 - above, by omega⟩ k) :
    SameTimer k m (timersOverflowBelow port above m).2 := by
  have hne : cntStart (channel m ⟨3 - above, by omega⟩).cntH = true →
      k ≠ ⟨3 - above, by omega⟩ := by
    intro hs hk
    refine h (by rw [hk]) ⟨fun j hnj hjk => ?_, hk ▸ hs⟩
    omega
  induction above generalizing m with
  | zero =>
      rcases timersOverflowBelow_cases port 0 m with ⟨-, hr⟩ | ⟨hs, ⟨-, hr⟩ | ⟨-, _, h0, -⟩⟩
      · rw [hr]
        exact SameTimer.refl k m
      · rw [hr]
        exact sameTimer_overflowBody port m (hne hs)
      · omega
  | succ above ih =>
      rcases timersOverflowBelow_cases port (above + 1) m with
        ⟨-, hr⟩ | ⟨hs, ⟨-, hr⟩ | ⟨hc, above', habove, ⟨-, hr⟩ | ⟨hz, hr⟩⟩⟩
      · rw [hr]
        exact SameTimer.refl k m
      · rw [hr]
        exact sameTimer_overflowBody port m (hne hs)
      · rw [hr]
        exact (sameTimer_overflowBody port m (hne hs)).trans (sameTimer_bumpTimer _ (hne hs))
      · obtain rfl : above = above' := by omega
        rw [hr]
        set n : Fin 4 := ⟨3 - (above + 1), by omega⟩ with hn
        -- the timers above see the same registers, so what they spill to does not change
        have hsame : ∀ j, j ≠ n → SameTimer j m (bumpTimer n (overflowBody port n m)) :=
          fun j hj => (sameTimer_overflowBody port m hj).trans (sameTimer_bumpTimer _ hj)
        have hspill : 3 - above ≤ k.val →
            ¬ SpillsTo (bumpTimer n (overflowBody port n m)) ⟨3 - above, by omega⟩ k := by
          intro hle hto
          refine h (by omega) ⟨fun j hnj hjk => ?_, ?_⟩
          · by_cases hj : j = n
            · rw [hj]
              exact ⟨hs, hc, hz⟩
            · have hlt : n < j := lt_of_le_of_ne hnj (Ne.symm hj)
              have := hto.1 j (Fin.mk_le_of_le_val (by
                have : n.val < j.val := hlt
                rw [hn] at this
                simp only at this
                omega)) hjk
              unfold Spills at this ⊢
              rwa [(hsame j hj).1] at this
          · have := hto.2
            rwa [(hsame k (hne hs)).1] at this
        refine (hsame k (hne hs)).trans (ih (by omega) _ hspill ?_)
        intro hs' hk
        refine hspill (by rw [hk]) ⟨fun j hnj hjk => ?_, hk ▸ hs'⟩
        omega

/-- The effects of an overflow are those of the timer and of timers above it. -/
theorem timersOverflowBelow_reload (port : FifoPort D) (above : ℕ) (hb : above ≤ 3)
    (m : TimerMachine D) (k : Fin 4)
    (h : .reload k ∈ (timersOverflowBelow port above m).1) : 3 - above ≤ k.val := by
  have hown : ∀ (n : Fin 4) (cnt : BitVec 16), .reload k ∈ overflowEffects n cnt → k = n := by
    intro n cnt hk
    unfold overflowEffects at hk
    split at hk <;> split at hk <;> simpa using hk
  induction above generalizing m with
  | zero =>
      rcases timersOverflowBelow_cases port 0 m with ⟨-, hr⟩ | ⟨-, ⟨-, hr⟩ | ⟨-, _, h0, -⟩⟩
      · rw [hr] at h
        simp at h
      · rw [hr] at h
        rw [hown _ _ h]
      · omega
  | succ above ih =>
      rcases timersOverflowBelow_cases port (above + 1) m with
        ⟨-, hr⟩ | ⟨-, ⟨-, hr⟩ | ⟨-, above', habove, ⟨-, hr⟩ | ⟨-, hr⟩⟩⟩
      · rw [hr] at h
        simp at h
      · rw [hr] at h
        rw [hown _ _ h]
      · rw [hr] at h
        rw [hown _ _ h]
      · obtain rfl : above = above' := by omega
        rw [hr] at h
        rcases List.mem_append.mp h with h | h
        · rw [hown _ _ h]
        · have := ih (by omega) _ h
          omega

/-- **What the dispatch of an overflow event does.** -/
theorem dispatchTimer_cases (port : FifoPort D) (n : Fin 4) (m : TimerMachine D) :
    let m₀ := beginOverflow n m
    let r := dispatchTimer port n m
    (cntStart (channel m n).cntH = false ∧ r = ([], m₀)) ∨
      (cntStart (channel m n).cntH = true ∧
        ((cntCountUp (channel m n).cntH = false ∨ n = 3) ∧
            r = (overflowEffects n (channel m n).cntH, overflowBody port n m₀) ∨
          (cntCountUp (channel m n).cntH = true ∧ ∃ above, 3 - n.val = above + 1 ∧
            (((channel m n).cntL + 1 ≠ 0 ∧
                r = (overflowEffects n (channel m n).cntH, bumpTimer n (overflowBody port n m₀))) ∨
              ((channel m n).cntL + 1 = 0 ∧
                r = (overflowEffects n (channel m n).cntH ++
                    (timersOverflowBelow port above (bumpTimer n (overflowBody port n m₀))).1,
                  (timersOverflowBelow port above
                    (bumpTimer n (overflowBody port n m₀))).2)))))) := by
  have hn : (⟨3 - (3 - n.val), by omega⟩ : Fin 4) = n := Fin.ext (by simp only; omega)
  have hlast : 3 - n.val = 0 → n = 3 := by
    intro h
    have h3 : n.val = 3 := by omega
    exact Fin.ext h3
  have hcases := timersOverflowBelow_cases port (3 - n.val) (beginOverflow n m)
  simp only [hn] at hcases
  rcases hcases with h | ⟨hs, ⟨hc, hr⟩ | h⟩
  · exact Or.inl h
  · exact Or.inr ⟨hs, Or.inl ⟨hc.imp_right hlast, hr⟩⟩
  · exact Or.inr ⟨hs, Or.inr h⟩

/-- The timer an overflow event does not spill to is left alone. -/
theorem dispatchTimer_frame (port : FifoPort D) {n k : Fin 4} {m : TimerMachine D} (hk : k ≠ n)
    (h : n ≤ k → ¬ SpillsTo m n k) : SameTimer k m (dispatchTimer port n m).2 := by
  have hbegin : SameTimer k m (beginOverflow n m) :=
    ⟨rfl, rfl, Function.update_of_ne (fun he => hk (timerEvent_injective he)) _ _⟩
  have hn : (⟨3 - (3 - n.val), by omega⟩ : Fin 4) = n := Fin.ext (by simp only; omega)
  refine hbegin.trans (timersOverflowBelow_frame port (3 - n.val) (by omega) _ k fun hle => ?_)
  rw [hn]
  have hle' : n.val ≤ k.val := by omega
  exact h hle'

/-! ## A check is a run of steps -/

/-- The steps a handler may take: register accesses, and what does not touch the timers. -/
def TimerOp.IsAccess : TimerOp D → Prop
  | .setCntL _ _ _ | .setCntH _ _ _ | .getCntL _ | .elsewhere _ => True
  | .addCycles _ | .overflowEvent _ | .rebase => False

/-- Any run of steps. -/
abbrev TimerRun (port : FifoPort D) : TimerMachine D → TimerMachine D → Prop :=
  Reaches (timerStep port) fun _ _ => True

/-- The handlers of the other devices: each is a run of accesses. -/
structure TimerHandlers (port : FifoPort D) where
  imm : ImmEventType → TimerMachine D → TimerMachine D
  event : EventType → TimerMachine D → TimerMachine D
  imm_run : ∀ e m, Reaches (timerStep port) (fun _ op => op.IsAccess) m (imm e m)
  event_run : ∀ e m, Reaches (timerStep port) (fun _ op => op.IsAccess) m (event e m)

/-- The handler tables of `cm_check_events`. -/
def TimerHandlers.toHandlers {port : FifoPort D} (H : TimerHandlers port) :
    Handlers (Board (TimerRest D)) where
  imm := H.imm
  event e m :=
    match e with
    | .timer0 => (timersOverflow port 0 m).2
    | .timer1 => (timersOverflow port 1 m).2
    | .timer2 => (timersOverflow port 2 m).2
    | .timer3 => (timersOverflow port 3 m).2
    | e => H.event e m
  timersOnOverflow clock b := { b with rest := rebaseChannels clock b.rest }

section Check

variable {port : FifoPort D} {m : TimerMachine D}

theorem timerRun_elsewhere {m' : TimerMachine D} (h : SameTimers m m') : TimerRun port m m' :=
  Reaches.single (a := .elsewhere m') trivial (if_pos h)

/-- One dispatch is a run: a timer's event is the overflow step, any other the handler's run. -/
theorem timerRun_dispatch (H : TimerHandlers port) {e : EventType} {due : ℕ}
    (h : m.cm.bestEvent = (some e, due)) : TimerRun port m (dispatch H.toHandlers e due m) := by
  have hdue : due = m.cm.events e := (CycleManager.bestEvent_some h).2.1.symm
  have htimer : ∀ n : Fin 4, e = timerEvent n →
      TimerRun port m (dispatchTimer port n m).2 := by
    rintro n rfl
    exact Reaches.single trivial (timerStep_overflowEvent port (hdue ▸ h))
  have hother : (∀ n, timerEvent n ≠ e) →
      TimerRun port m (H.event e { m with cm := m.cm.beginDispatch e due }) := by
    intro hne
    refine Reaches.trans (timerRun_elsewhere ?_) ((H.event_run e _).mono fun _ _ _ => trivial)
    exact ⟨rfl, fun n => ⟨rfl, rfl, Function.update_of_ne (hne n) _ _⟩⟩
  subst hdue
  cases e with
  | timer0 => exact htimer 0 rfl
  | timer1 => exact htimer 1 rfl
  | timer2 => exact htimer 2 rfl
  | timer3 => exact htimer 3 rfl
  | gpuScanline240 => exact hother (by decide)
  | gpuScanline308 => exact hother (by decide)
  | apuSample => exact hother (by decide)

/-- **A check is a run of steps.** -/
theorem cmCheckEvents_timerRun (H : TimerHandlers port) {fuel : ℕ}
    {r : CheckResult (Board (TimerRest D))} (h : cmCheckEvents H.toHandlers fuel m = some r) :
    TimerRun port m r.emu := by
  have himm : TimerRun port m (dispatchImm H.toHandlers m) :=
    dispatchImm_invariant H.toHandlers (I := fun t => TimerRun port m t)
      (fun t e ht => ht.trans ((H.imm_run e t).mono fun _ _ _ => trivial))
      (timerRun_elsewhere ⟨rfl, fun _ => ⟨rfl, rfl, rfl⟩⟩)
  obtain ⟨-, ⟨-, -, -, he⟩ | ⟨-, -, t, ht, he⟩⟩ := cmCheckEvents_cases h
  · rw [he]
    exact himm
  · rw [he]
    have hdrain : TimerRun port m t :=
      drain_invariant H.toHandlers (I := fun t => TimerRun port m t)
        (fun t e due hb hr => hr.trans (timerRun_dispatch H hb)) ht
        (himm.trans (timerRun_elsewhere ⟨rfl, fun _ => ⟨rfl, rfl, rfl⟩⟩))
    have hdone : t.cm.bestEvent.1 = none := drain_bestEvent ht
    have hrecompute : SameTimers t (recompute t) := ⟨rfl, fun _ => ⟨rfl, rfl, rfl⟩⟩
    refine hdrain.trans (Reaches.trans (timerRun_elsewhere hrecompute) ?_)
    unfold rebase
    split
    · rename_i hlimit
      exact Reaches.single (a := .rebase) trivial (if_pos ⟨hlimit, hdone⟩)
    · exact Reaches.refl _

end Check

/-- The timers at boot. -/
def timersBoot (other : D) : TimerMachine D := boot ⟨fun _ => .default, other⟩

end AdvancedSlop
