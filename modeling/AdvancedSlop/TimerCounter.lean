/-
# The timer counters

The reference timer is a prescaled counter that every cycle steps (`RefTimer`).  The code keeps
no running counter: it stores the cycle of the next overflow, and recomputes `current_value` from
it only when the guest reads the counter.

* `Tracks` : how the stored cycle stands to the reference counter;
* `tracks_of_reaches` : every run whose steps meet `CounterSafe` keeps it;
* `timer_counter_law` : in every state of such a run a read returns the reference value exactly
  when it happens on a tick of the prescaler.
-/
import AdvancedSlop.ReloadCounter
import AdvancedSlop.TimerCascade

namespace AdvancedSlop

open TransitionSystem ReloadCounter

variable {D : Type*}

/-! ## The reference timer -/

/-- What a reference timer does: it is stopped at a value, it runs, or it counts overflows of the
timer below (its value is then outside this law). -/
inductive RefMode
  | stopped (value : BitVec 16)
  | running (c : Counter)
  | cascading

/-- A reference timer: the two registers and the mode. -/
structure RefTimer where
  cntL : BitVec 16
  cntH : BitVec 16
  mode : RefMode

/-- The cycles to a step of a counter with the given control register. -/
def cntDivisor (n : Fin 4) (cntH : BitVec 16) : ℕ := 2 ^ cntShift n cntH

/-- The counter steps with every cycle. -/
def RefTimer.advance (n : Fin 4) (cycles : ℕ) (r : RefTimer) : RefTimer :=
  match r.mode with
  | .running c =>
      ⟨r.cntL, r.cntH, .running
        (ReloadCounter.advance timeOverflow (cntDivisor n r.cntH) r.cntL.toNat cycles c)⟩
  | _ => r

/-- A write of the reload register. -/
def RefTimer.setCntL (mask value : BitVec 16) (r : RefTimer) : RefTimer :=
  { r with cntL := (r.cntL &&& ~~~mask) ||| (value &&& mask) }

/-- The mode after a write of the control register: a stop freezes the value, a start edge
reloads it, a change of the prescaler goes on from it.  A timer that leaves cascade mode takes
over the value `cascaded` it counted to. -/
def RefMode.write (n : Fin 4) (cntL old cnt cascaded : BitVec 16) (mode : RefMode) : RefMode :=
  if cntStart cnt = false then
    match mode with
    | .stopped v => .stopped v
    | .running c => .stopped (BitVec.ofNat 16 c.value)
    | .cascading => .stopped cascaded
  else if cntIsCountUp n cnt = true then .cascading
  else
    match mode with
    | .stopped _ => .running ⟨cntL.toNat, 0⟩
    | .running c => if cntShift n cnt = cntShift n old then .running c else .running ⟨c.value, 0⟩
    | .cascading => .running ⟨cascaded.toNat, 0⟩

/-- A write of the control register. -/
def RefTimer.setCntH (n : Fin 4) (mask value cascaded : BitVec 16) (r : RefTimer) : RefTimer :=
  let cnt := newCntH r.cntH mask value
  ⟨r.cntL, cnt, r.mode.write n r.cntL r.cntH cnt cascaded⟩

/-- The value the guest has to read. -/
def RefTimer.value (r : RefTimer) : Option (BitVec 16) :=
  match r.mode with
  | .stopped v => some v
  | .running c => some (BitVec.ofNat 16 c.value)
  | .cascading => none

/-- The reference timers follow the register writes and the clock only. -/
def refStep (m : TimerMachine D) (ref : Fin 4 → RefTimer) : TimerOp D → Fin 4 → RefTimer
  | .setCntL n mask value => Function.update ref n ((ref n).setCntL mask value)
  | .setCntH n mask value =>
      Function.update ref n ((ref n).setCntH n mask value (channel m n).currentValue)
  | .addCycles cycles => fun n => (ref n).advance n cycles
  | _ => ref

/-- The code's timers next to the reference timers. -/
structure TimedTimers (D : Type*) where
  machine : TimerMachine D
  ref : Fin 4 → RefTimer

/-- Both take the same step. -/
def timedStep (port : FifoPort D) (s : TimedTimers D) (op : TimerOp D) :
    Option (TimedTimers D) :=
  (timerStep port s.machine op).map fun m => ⟨m, refStep s.machine s.ref op⟩

/-- Both at boot. -/
def timedBoot (other : D) : TimedTimers D :=
  ⟨timersBoot other, fun _ => ⟨0, 0, .stopped 0⟩⟩

/-! ## The conditions -/

/-- The value a running timer stands at, the periods of overflows not dispatched yet included. -/
def standingValue (ch : TimerChannel) (clock : ℕ) : BitVec 16 :=
  BitVec.ofNat 16 <|
    if clock < ch.scheduledCycle then
      timeOverflow - (ch.scheduledCycle - clock + 2 ^ ch.currentShift - 1) / 2 ^ ch.currentShift
    else
      ch.cntL.toNat +
        (clock - ch.scheduledCycle) / 2 ^ ch.currentShift % (timeOverflow - ch.cntL.toNat)

/-- The stored counter of a running timer is up to date. -/
def Fresh (m : TimerMachine D) (n : Fin 4) : Prop :=
  (channel m n).currentValue = standingValue (channel m n) m.cm.cycleCount

/-- A control write schedules the counter anew, from the value `value`. -/
def Reschedules (n : Fin 4) (ch : TimerChannel) (cnt value : BitVec 16) : Prop :=
  cntStart cnt = true ∧ cntIsCountUp n cnt = false ∧
    (cntStart ch.cntH = false ∧ value = ch.cntL ∨
      cntStart ch.cntH = true ∧ cntShift n cnt ≠ ch.currentShift ∧ value = ch.currentValue)

/-- **The condition on a step**, read off the state before it. -/
def CounterSafe (m : TimerMachine D) : TimerOp D → Prop
  | .setCntL n mask value =>
      -- the reload value of a running timer changes while no overflow waits to be dispatched
      Running m n → m.cm.cycleCount < (channel m n).scheduledCycle ∨
        ((channel m n).cntL &&& ~~~mask) ||| (value &&& mask) = (channel m n).cntL
  | .setCntH n mask value =>
      let ch := channel m n
      let cnt := newCntH ch.cntH mask value
      -- a running timer is stopped, rescaled or made to cascade with its counter just read
      (Running m n → Fresh m n ∨
        cntStart cnt = true ∧ cntIsCountUp n cnt = false ∧ cntShift n cnt = ch.currentShift) ∧
      -- a cascading timer starts to run with a change of the prescaler
      (CountsUp n ch → cntStart cnt = true → cntIsCountUp n cnt = false →
        cntShift n cnt ≠ ch.currentShift) ∧
      -- the next overflow is within the range of the clock
      ∀ v, Reschedules n ch cnt v →
        m.cm.cycleCount + remainingCycles v (cntShift n cnt) ≤ u32Max
  | .addCycles cycles => m.cm.cycleCount + cycles ≤ u32Max
  | .overflowEvent n =>
      -- no running timer is overflowed by the cascade
      (∀ k, n < k → Running m k → ¬ SpillsTo m n k) ∧
      (Running m n → (channel m n).scheduledCycle +
        remainingCycles (channel m n).cntL (channel m n).currentShift ≤ u32Max)
  | _ => True

/-- A read returns the value: the timer is stopped, or the read falls on a tick of the
prescaler; over an overflow that waits to be dispatched the counter reads as if it had been
reloaded with 0, its ticks rounded up. -/
def ReadsExactly (m : TimerMachine D) (n : Fin 4) : Prop :=
  let ch := channel m n
  let divisor := 2 ^ ch.currentShift
  Running m n →
    if m.cm.cycleCount < ch.scheduledCycle then
      divisor ∣ ch.scheduledCycle - m.cm.cycleCount
    else
      let late := m.cm.cycleCount - ch.scheduledCycle
      (late + divisor - 1) / divisor % timeOverflow =
        ch.cntL.toNat + late / divisor % (timeOverflow - ch.cntL.toNat)

/-! ## The simulation relation -/

/-- A running timer's overflow is scheduled for the cycle at which the reference counter
overflows, or whole periods before that, when overflows wait to be dispatched. -/
structure RunsWith (n : Fin 4) (m : TimerMachine D) (c : Counter) : Prop where
  running : Running m n
  valid : Valid timeOverflow (2 ^ (channel m n).currentShift) c
  active : m.cm.activeEvents (timerEvent n) = true
  event : m.cm.events (timerEvent n) = (channel m n).scheduledCycle
  scheduled_le : (channel m n).scheduledCycle ≤ u32Max
  grid : ∃ j, (channel m n).scheduledCycle +
      j * period timeOverflow (2 ^ (channel m n).currentShift) (channel m n).cntL.toNat =
        m.cm.cycleCount + remaining timeOverflow (2 ^ (channel m n).currentShift) c ∧
      (0 < j → remaining timeOverflow (2 ^ (channel m n).currentShift) c ≤
        period timeOverflow (2 ^ (channel m n).currentShift) (channel m n).cntL.toNat)

/-- What the mode of a reference timer says about the code's timer. -/
def RefMode.Holds (n : Fin 4) (m : TimerMachine D) : RefMode → Prop
  | .stopped v => cntStart (channel m n).cntH = false ∧ (channel m n).currentValue = v
  | .cascading => CountsUp n (channel m n)
  | .running c => RunsWith n m c

/-- **The relation** between a timer and its reference: the registers agree, and the mode
holds. -/
structure Tracks (n : Fin 4) (m : TimerMachine D) (r : RefTimer) : Prop where
  cntL : r.cntL = (channel m n).cntL
  cntH : r.cntH = (channel m n).cntH
  shift : (channel m n).currentShift = cntShift n (channel m n).cntH
  mode : r.mode.Holds n m

section Relation

variable {n : Fin 4} {m m' : TimerMachine D} {r : RefTimer} {c : Counter}

/-- A mode other than running looks at the control register and the stored value only. -/
theorem RefMode.Holds.of_not_running {mode : RefMode} (h : mode.Holds n m)
    (hmode : ∀ c, mode ≠ .running c) (hcnt : (channel m' n).cntH = (channel m n).cntH)
    (hvalue : (channel m' n).currentValue = (channel m n).currentValue) : mode.Holds n m' := by
  cases mode with
  | stopped v =>
      obtain ⟨hs, hv⟩ := h
      exact ⟨hcnt ▸ hs, hvalue ▸ hv⟩
  | cascading =>
      obtain ⟨hs, hc⟩ := h
      exact ⟨hcnt ▸ hs, hcnt ▸ hc⟩
  | running c => exact absurd rfl (hmode c)

/-- The relation looks at the clock, the channel and its event only. -/
theorem Tracks.congr (h : Tracks n m r) (hclock : m'.cm.cycleCount = m.cm.cycleCount)
    (hsame : SameTimer n m m') : Tracks n m' r := by
  obtain ⟨hch, hev, hact⟩ := hsame
  obtain ⟨hl, hh, hs, hmode⟩ := h
  refine ⟨hch ▸ hl, hch ▸ hh, hch ▸ hs, ?_⟩
  cases hr : r.mode with
  | stopped v => exact (hr ▸ hmode).of_not_running (by simp) (by rw [hch]) (by rw [hch])
  | cascading => exact (hr ▸ hmode).of_not_running (by simp) (by rw [hch]) (by rw [hch])
  | running c =>
      rw [hr] at hmode
      obtain ⟨hrun, hvalid, hactive, hevent, hle, hgrid⟩ := hmode
      refine ⟨?_, hch ▸ hvalid, hact ▸ hactive, by rw [hev, hch, hevent], hch ▸ hle, ?_⟩
      · simpa only [Running, hch] using hrun
      · rw [hch, hclock]
        exact hgrid

theorem cntL_lt (m : TimerMachine D) (n : Fin 4) : (channel m n).cntL.toNat < timeOverflow :=
  (channel m n).cntL.isLt

/-- Not late: the scheduled cycle is where the reference counter overflows. -/
theorem RunsWith.on_time (h : RunsWith n m c)
    (hlt : m.cm.cycleCount < (channel m n).scheduledCycle) :
    (channel m n).scheduledCycle =
      m.cm.cycleCount + remaining timeOverflow (2 ^ (channel m n).currentShift) c := by
  obtain ⟨j, hj, hle⟩ := h.grid
  rcases Nat.eq_zero_or_pos j with rfl | h0
  · simpa using hj
  · obtain ⟨i, rfl⟩ : ∃ i, j = i + 1 := ⟨j - 1, by omega⟩
    have := hle h0
    rw [Nat.succ_mul] at hj
    omega

/-- Late: at least one overflow waits to be dispatched. -/
theorem RunsWith.late (h : RunsWith n m c)
    (hle : (channel m n).scheduledCycle ≤ m.cm.cycleCount) :
    ∃ j, (channel m n).scheduledCycle + (j + 1) *
        period timeOverflow (2 ^ (channel m n).currentShift) (channel m n).cntL.toNat =
          m.cm.cycleCount + remaining timeOverflow (2 ^ (channel m n).currentShift) c ∧
      remaining timeOverflow (2 ^ (channel m n).currentShift) c ≤
        period timeOverflow (2 ^ (channel m n).currentShift) (channel m n).cntL.toNat := by
  obtain ⟨j, hj, hperiod⟩ := h.grid
  have hpos := remaining_pos h.valid
  rcases Nat.eq_zero_or_pos j with rfl | h0
  · rw [Nat.zero_mul] at hj
    omega
  · obtain ⟨i, rfl⟩ : ∃ i, j = i + 1 := ⟨j - 1, by omega⟩
    exact ⟨i, hj, hperiod h0⟩

/-- **The reference value, read off the code's state.** -/
theorem RunsWith.standingValue_eq (h : RunsWith n m c) :
    standingValue (channel m n) m.cm.cycleCount = BitVec.ofNat 16 c.value := by
  unfold standingValue
  congr 1
  split
  · rename_i hlt
    have := h.on_time hlt
    rw [value_eq h.valid]
    congr 3
    omega
  · rename_i hge
    obtain ⟨j, hj, hle⟩ := h.late (Nat.le_of_not_lt hge)
    exact (value_of_overflowed h.valid (cntL_lt m n) (j := j + 1) (by omega) hle).symm

end Relation

/-! ## The steps keep the relation -/

section Steps

variable {n : Fin 4} {m m' : TimerMachine D} {r : RefTimer}

/-- The clock moves on. -/
theorem Tracks.addCycles (h : Tracks n m r) {cycles : ℕ}
    (hc : m.cm.cycleCount + cycles ≤ u32Max) :
    Tracks n { m with cm := m.cm.addCycles cycles } (r.advance n cycles) := by
  have hclock : (m.cm.cycleCount + cycles) % 4294967296 = m.cm.cycleCount + cycles :=
    Nat.mod_eq_of_lt (by unfold u32Max at hc; omega)
  obtain ⟨hl, hh, hs, hmode⟩ := h
  cases hr : r.mode with
  | stopped v =>
      have hadv : r.advance n cycles = r := by rw [RefTimer.advance, hr]
      rw [hadv]
      exact ⟨hl, hh, hs, hmode.of_not_running (by simp [hr]) rfl rfl⟩
  | cascading =>
      have hadv : r.advance n cycles = r := by rw [RefTimer.advance, hr]
      rw [hadv]
      exact ⟨hl, hh, hs, hmode.of_not_running (by simp [hr]) rfl rfl⟩
  | running c =>
      rw [hr] at hmode
      obtain ⟨hrun, hvalid, hactive, hevent, hle, j, hj, hperiod⟩ := hmode
      set divisor := 2 ^ (channel m n).currentShift with hdivisor
      have hadv : r.advance n cycles = ⟨r.cntL, r.cntH, .running
          (ReloadCounter.advance timeOverflow divisor (channel m n).cntL.toNat cycles c)⟩ := by
        rw [RefTimer.advance, hr]
        simp only [cntDivisor, hh, hl, hdivisor, hs]
      obtain ⟨i, hi, hi'⟩ := advance_remaining hvalid (cntL_lt m n) cycles
      set after := ReloadCounter.advance timeOverflow divisor (channel m n).cntL.toNat cycles c
      have hgrid : (channel m n).scheduledCycle +
          (j + i) * period timeOverflow divisor (channel m n).cntL.toNat =
            (m.cm.cycleCount + cycles) % 4294967296 + remaining timeOverflow divisor after := by
        rw [hclock, Nat.add_mul]
        omega
      have hfit : 0 < j + i → remaining timeOverflow divisor after ≤
          period timeOverflow divisor (channel m n).cntL.toNat := by
        intro h0
        rcases Nat.eq_zero_or_pos i with rfl | hi0
        · have := hperiod (by omega)
          rw [Nat.zero_mul] at hi
          omega
        · exact hi' hi0
      rw [hadv]
      exact ⟨hl, hh, hs, hrun, hvalid.advance (cntL_lt m n) cycles, hactive, hevent, hle,
        j + i, hgrid, hfit⟩

/-- The reload register is written while no overflow waits, or keeps its value. -/
theorem Tracks.setCntL (h : Tracks n m r) {mask value : BitVec 16}
    (hsafe : CounterSafe m (.setCntL n mask value : TimerOp D)) :
    Tracks n (timersSetCntL n mask value m) (r.setCntL mask value) := by
  obtain ⟨hl, hh, hs, hmode⟩ := h
  set newL := ((channel m n).cntL &&& ~~~mask) ||| (value &&& mask) with hnewL
  have hch : channel (timersSetCntL n mask value m) n = { channel m n with cntL := newL } := by
    rw [timersSetCntL, channel_setChannel]
  refine ⟨by rw [hch, RefTimer.setCntL, hl], by rw [hch]; exact hh, by rw [hch]; exact hs, ?_⟩
  show r.mode.Holds n (timersSetCntL n mask value m)
  cases hr : r.mode with
  | stopped v => exact (hr ▸ hmode).of_not_running (by simp) (by rw [hch]) (by rw [hch])
  | cascading => exact (hr ▸ hmode).of_not_running (by simp) (by rw [hch]) (by rw [hch])
  | running c =>
      rw [hr] at hmode
      have hrun := hmode.running
      refine ⟨by simpa only [Running, hch] using hrun, by rw [hch]; exact hmode.valid,
        hmode.active, by rw [hch]; exact hmode.event, by rw [hch]; exact hmode.scheduled_le, ?_⟩
      rw [hch]
      rcases hsafe hrun with hlt | hsame
      · refine ⟨0, ?_, fun h0 => absurd h0 (lt_irrefl 0)⟩
        rw [Nat.zero_mul]
        exact hmode.on_time hlt
      · rw [show newL = (channel m n).cntL from hsame]
        exact hmode.grid

/-- With the shift in step with the control register, a write leaves it so, and schedules the
counter again on a start edge or a change of the shift. -/
theorem writeCntH_eq (mask value : BitVec 16) {ch : TimerChannel}
    (hshift : ch.currentShift = cntShift n ch.cntH) :
    writeCntH n mask value ch =
      ({ ch with
          cntH := newCntH ch.cntH mask value
          currentValue :=
            if cntStart ch.cntH = false ∧ cntStart (newCntH ch.cntH mask value) = true then ch.cntL
            else ch.currentValue
          currentShift := cntShift n (newCntH ch.cntH mask value) },
        decide (cntStart ch.cntH = false ∧ cntStart (newCntH ch.cntH mask value) = true ∨
          cntShift n (newCntH ch.cntH mask value) ≠ ch.currentShift)) := by
  have hmask : mask &&& 0xC7 &&& 0xFF = mask &&& 0xC7 := by
    rw [BitVec.and_assoc]
    rfl
  have hkeep : mask &&& 0xC7 = 0#16 → newCntH ch.cntH mask value = ch.cntH := by
    intro h0
    rw [newCntH, h0, BitVec.and_zero, BitVec.or_zero]
    exact BitVec.and_allOnes
  unfold writeCntH
  simp only [hmask]
  generalize mask &&& 0xC7 = field at hkeep
  by_cases h0 : field = 0#16
  · rw [hkeep h0, ← hshift]
    cases cntStart ch.cntH <;> simp
  · by_cases hsh : ch.currentShift = cntShift n (newCntH ch.cntH mask value)
    · cases cntStart ch.cntH <;> cases cntStart (newCntH ch.cntH mask value) <;> simp [hsh]
    · cases cntStart ch.cntH <;> cases cntStart (newCntH ch.cntH mask value) <;>
        simp [hsh, h0, Ne.symm hsh]

/-- A control write that schedules the counter again starts the reference counter at the same
value. -/
theorem RunsWith.of_reschedules (mask value : BitVec 16) {v : BitVec 16}
    (hshift : (channel m n).currentShift = cntShift n (channel m n).cntH)
    (h : Reschedules n (channel m n) (newCntH (channel m n).cntH mask value) v)
    (hc : m.cm.cycleCount +
      remainingCycles v (cntShift n (newCntH (channel m n).cntH mask value)) ≤ u32Max) :
    RunsWith n (timersSetCntH n mask value m) ⟨v.toNat, 0⟩ ∧
      (channel (timersSetCntH n mask value m) n).scheduledCycle =
        m.cm.cycleCount + remainingCycles v (cntShift n (newCntH (channel m n).cntH mask value)) := by
  obtain ⟨hstart, hup, hvalue⟩ := h
  set cnt := newCntH (channel m n).cntH mask value with hcnt
  set rem := remainingCycles v (cntShift n cnt) with hrem
  have hlt : v.toNat < timeOverflow := v.isLt
  have hpos : 0 < rem := by
    rw [hrem, remainingCycles, Nat.shiftLeft_eq]
    exact Nat.mul_pos (by omega) (Nat.two_pow_pos _)
  -- what the write stores
  have hwrite : writeCntH n mask value (channel m n) =
      ({ channel m n with cntH := cnt, currentValue := v, currentShift := cntShift n cnt }, true) := by
    rw [writeCntH_eq mask value hshift, ← hcnt]
    rcases hvalue with ⟨hold, rfl⟩ | ⟨hold, hne, rfl⟩
    · simp [hold, hstart]
    · simp [hold, hne]
  have hset : timersSetCntH n mask value m =
      { setChannel m n { channel m n with
          cntH := cnt, currentValue := v, currentShift := cntShift n cnt,
          scheduledCycle := m.cm.cycleCount + rem } with
        cm := m.cm.arm (m.cm.cycleCount + rem) (timerEvent n) } := by
    have hmod : (m.cm.cycleCount + rem) % 4294967296 = m.cm.cycleCount + rem :=
      Nat.mod_eq_of_lt (by unfold u32Max at hc; omega)
    have hsched : CycleManager.scheduledCycle m.cm.cycleCount rem = m.cm.cycleCount + rem := by
      simp only [CycleManager.scheduledCycle]
      split <;> omega
    unfold timersSetCntH
    rw [hwrite]
    simp only [hstart, hup, Bool.not_false, Bool.and_self, if_true]
    rw [← hrem, hmod, CycleManager.schedule]
    simp only [setChannel_cm, hsched]
  have hch : channel (timersSetCntH n mask value m) n = { channel m n with
      cntH := cnt, currentValue := v, currentShift := cntShift n cnt,
      scheduledCycle := m.cm.cycleCount + rem } := by
    rw [hset]
    exact channel_setChannel m n _
  have hremaining : remaining timeOverflow (2 ^ cntShift n cnt) ⟨v.toNat, 0⟩ = rem := by
    rw [remaining_start, hrem, remainingCycles, Nat.shiftLeft_eq]
  refine ⟨⟨?_, ?_, ?_, ?_, ?_, 0, ?_, fun h0 => absurd h0 (lt_irrefl 0)⟩, by rw [hch]⟩
  · simpa only [Running, hch] using ⟨hstart, hup⟩
  · rw [hch]
    exact ⟨hlt, Nat.two_pow_pos _⟩
  · rw [hset]
    simp [CycleManager.arm]
  · rw [hch, hset]
    simp [CycleManager.arm]
  · rw [hch]
    exact hc
  · rw [hch, Nat.zero_mul, hremaining, hset]
    rfl

/-- A control write that does not schedule the counter again leaves the scheduler alone. -/
theorem timersSetCntH_of_not_reschedules {mask value : BitVec 16}
    (hshift : (channel m n).currentShift = cntShift n (channel m n).cntH)
    (h : ∀ v, ¬ Reschedules n (channel m n) (newCntH (channel m n).cntH mask value) v) :
    timersSetCntH n mask value m =
      setChannel m n (writeCntH n mask value (channel m n)).1 := by
  unfold timersSetCntH
  rw [writeCntH_eq mask value hshift]
  simp only
  rw [if_neg]
  intro hand
  simp only [Bool.and_eq_true, decide_eq_true_eq, Bool.not_eq_true'] at hand
  obtain ⟨⟨hedge | hne, hstart⟩, hup⟩ := hand
  · exact h _ ⟨hstart, hup, Or.inl ⟨hedge.1, rfl⟩⟩
  · cases hold : cntStart (channel m n).cntH with
    | false => exact h _ ⟨hstart, hup, Or.inl ⟨hold, rfl⟩⟩
    | true => exact h _ ⟨hstart, hup, Or.inr ⟨hold, hne, rfl⟩⟩

/-- The registers after a control write. -/
theorem registers_timersSetCntH (mask value : BitVec 16)
    (hshift : (channel m n).currentShift = cntShift n (channel m n).cntH) :
    (channel (timersSetCntH n mask value m) n).registers =
      ((channel m n).cntL, newCntH (channel m n).cntH mask value,
        cntShift n (newCntH (channel m n).cntH mask value)) := by
  obtain ⟨scheduled, hch⟩ := channel_timersSetCntH n mask value m
  rw [hch, writeCntH_eq mask value hshift]
  rfl

/-- The stored value after a control write that stops the timer, or makes it cascade. -/
theorem timersSetCntH_stopped (mask value : BitVec 16)
    (hshift : (channel m n).currentShift = cntShift n (channel m n).cntH)
    (hstop : cntStart (newCntH (channel m n).cntH mask value) = false) :
    (channel (timersSetCntH n mask value m) n).currentValue = (channel m n).currentValue := by
  obtain ⟨scheduled, hch⟩ := channel_timersSetCntH n mask value m
  rw [hch, writeCntH_eq mask value hshift]
  simp [hstop]

/-- A control write in a safe state. -/
theorem Tracks.setCntH (h : Tracks n m r) {mask value : BitVec 16}
    (hsafe : CounterSafe m (.setCntH n mask value : TimerOp D)) :
    Tracks n (timersSetCntH n mask value m)
      (r.setCntH n mask value (channel m n).currentValue) := by
  obtain ⟨hl, hh, hs, hmode⟩ := h
  obtain ⟨hfresh, hleave, hrange⟩ := hsafe
  have hreg := registers_timersSetCntH mask value hs
  set cnt := newCntH (channel m n).cntH mask value with hcnt
  set m' := timersSetCntH n mask value m with hm'
  obtain ⟨hl', hh', hs'⟩ : (channel m' n).cntL = (channel m n).cntL ∧ (channel m' n).cntH = cnt ∧
      (channel m' n).currentShift = cntShift n cnt := by
    simpa only [TimerChannel.registers, Prod.mk.injEq] using hreg
  have hanew : ∀ v, Reschedules n (channel m n) cnt v → RunsWith n m' ⟨v.toNat, 0⟩ :=
    fun v hv => (RunsWith.of_reschedules mask value hs hv (hrange v hv)).1
  refine ⟨hl.trans hl'.symm, by rw [RefTimer.setCntH, hh, hh'], by rw [hs', hh'], ?_⟩
  show (r.mode.write n r.cntL r.cntH (newCntH r.cntH mask value) _).Holds n m'
  rw [hh, hl, ← hcnt]
  unfold RefMode.write
  by_cases hstop : cntStart cnt = false
  · -- the counter is frozen at its stored value
    have hvalue := timersSetCntH_stopped mask value hs hstop
    have hcnt' : cntStart (channel m' n).cntH = false := by rw [hh', hstop]
    rw [if_pos hstop]
    cases hr : r.mode with
    | stopped v =>
        rw [hr] at hmode
        exact ⟨hcnt', hvalue.trans hmode.2⟩
    | cascading => exact ⟨hcnt', hvalue⟩
    | running c =>
        rw [hr] at hmode
        rcases hfresh hmode.running with hf | ⟨hstart, -⟩
        · exact ⟨hcnt', hvalue.trans (hf.trans hmode.standingValue_eq)⟩
        · exact absurd hstart (by rw [hstop]; decide)
  · have hstart : cntStart cnt = true := by simpa using hstop
    rw [if_neg hstop]
    by_cases hup : cntIsCountUp n cnt = true
    · rw [if_pos hup]
      exact ⟨by rw [hh', hstart], by rw [hh', hup]⟩
    · have hup' : cntIsCountUp n cnt = false := by simpa using hup
      rw [if_neg hup]
      cases hr : r.mode with
      | stopped v =>
          rw [hr] at hmode
          exact hanew _ ⟨hstart, hup', Or.inl ⟨hmode.1, rfl⟩⟩
      | cascading =>
          rw [hr] at hmode
          have hne := hleave hmode hstart hup'
          exact hanew _ ⟨hstart, hup', Or.inr ⟨hmode.1, hne, rfl⟩⟩
      | running c =>
          rw [hr] at hmode
          have hold := hmode.running.1
          simp only
          by_cases hsame : cntShift n cnt = cntShift n (channel m n).cntH
          · -- nothing is scheduled again
            rw [if_pos hsame]
            have hkeep : ∀ v, ¬ Reschedules n (channel m n) cnt v := by
              rintro v ⟨-, -, ⟨hoff, -⟩ | ⟨-, hne, -⟩⟩
              · rw [hold] at hoff
                simp at hoff
              · exact hne (hsame.trans hs.symm)
            have hset := timersSetCntH_of_not_reschedules hs hkeep
            have hcm : m'.cm = m.cm := by rw [hm', hset, setChannel_cm]
            have hsched : (channel m' n).scheduledCycle = (channel m n).scheduledCycle := by
              rw [hm', hset, channel_setChannel, writeCntH_eq mask value hs]
            obtain ⟨-, hvalid, hactive, hevent, hle, hgrid⟩ := hmode
            have hshift' : (channel m' n).currentShift = (channel m n).currentShift := by
              rw [hs', hsame, hs]
            refine ⟨⟨by rw [hh', hstart], by rw [hh', hup']⟩, by rw [hshift']; exact hvalid,
              by rw [hcm]; exact hactive, by rw [hcm, hsched]; exact hevent,
              by rw [hsched]; exact hle, ?_⟩
            rw [hcm, hsched, hshift', hl']
            exact hgrid
          · rw [if_neg hsame]
            have hne : cntShift n cnt ≠ (channel m n).currentShift := by rwa [hs]
            rcases hfresh hmode.running with hf | ⟨-, -, heq⟩
            · have hvalue : (channel m n).currentValue.toNat = c.value := by
                rw [hf.trans hmode.standingValue_eq, BitVec.toNat_ofNat]
                exact Nat.mod_eq_of_lt hmode.valid.value_lt
              have := hanew _ ⟨hstart, hup', Or.inr ⟨hold, hne, rfl⟩⟩
              rwa [hvalue] at this
            · exact absurd heq hne

/-- A write to one timer leaves the others alone. -/
theorem sameTimer_timersSetCntH {k : Fin 4} (h : k ≠ n) (mask value : BitVec 16) :
    SameTimer k m (timersSetCntH n mask value m) := by
  unfold timersSetCntH
  simp only
  split
  · exact (sameTimer_setChannel m _ h).trans (sameTimer_arm _ _ h)
  · exact sameTimer_setChannel m _ h

theorem timersSetCntH_cycleCount (n : Fin 4) (m : TimerMachine D) (mask value : BitVec 16) :
    (timersSetCntH n mask value m).cm.cycleCount = m.cm.cycleCount := by
  unfold timersSetCntH
  simp only
  split <;> rfl

/-- **The overflowing timer itself**: reloaded and scheduled again; what the cascade does to it
stays in its stored value. -/
theorem dispatchTimer_own (port : FifoPort D) (hs : cntStart (channel m n).cntH = true) :
    ∃ v, channel (dispatchTimer port n m).2 n =
        { channel (reloadTimer n (beginOverflow n m)) n with currentValue := v } ∧
      (dispatchTimer port n m).2.cm.events (timerEvent n) =
        (reloadTimer n (beginOverflow n m)).cm.events (timerEvent n) ∧
      (dispatchTimer port n m).2.cm.activeEvents (timerEvent n) =
        (reloadTimer n (beginOverflow n m)).cm.activeEvents (timerEvent n) := by
  obtain ⟨hch, hev, hact⟩ := (overflowBody_sameTimers port n (beginOverflow n m)).2 n
  obtain ⟨v, hv⟩ : ∃ v, channel (bumpTimer n (overflowBody port n (beginOverflow n m))) n =
      { channel (reloadTimer n (beginOverflow n m)) n with currentValue := v } :=
    ⟨_, by rw [bumpTimer, channel_setChannel, hch]⟩
  rcases dispatchTimer_cases port n m with
    ⟨h, -⟩ | ⟨-, ⟨-, hr⟩ | ⟨-, above, habove, ⟨-, hr⟩ | ⟨-, hr⟩⟩⟩
  · simp [hs] at h
  · rw [hr]
    exact ⟨_, hch, hev, hact⟩
  · rw [hr]
    exact ⟨v, hv, hev, hact⟩
  · rw [hr]
    obtain ⟨hch', hev', hact'⟩ := timersOverflowBelow_frame port above (by omega)
      (bumpTimer n (overflowBody port n (beginOverflow n m))) n (by omega)
    exact ⟨v, hch'.trans hv, hev'.trans hev, hact'.trans hact⟩

/-- The dispatch of a running timer's event puts its overflow one period on. -/
theorem RunsWith.dispatch {port : FifoPort D} {c : Counter} (h : RunsWith n m c)
    (hdue : m.cm.events (timerEvent n) ≤ m.cm.cycleCount)
    (hrange : (channel m n).scheduledCycle +
      remainingCycles (channel m n).cntL (channel m n).currentShift ≤ u32Max) :
    RunsWith n (dispatchTimer port n m).2 c := by
  obtain ⟨hstart, hup⟩ := h.running
  have hclock : (dispatchTimer port n m).2.cm.cycleCount = m.cm.cycleCount :=
    timersOverflowBelow_cycleCount port _ _
  set next := (channel m n).scheduledCycle +
    remainingCycles (channel m n).cntL (channel m n).currentShift with hnext
  have hperiod : next = (channel m n).scheduledCycle +
      period timeOverflow (2 ^ (channel m n).currentShift) (channel m n).cntL.toNat := by
    rw [hnext, remainingCycles, Nat.shiftLeft_eq, period]
  -- the reload
  have hmin : min (m.cm.events (timerEvent n) +
      remainingCycles (channel m n).cntL (channel m n).currentShift) u32Max = next := by
    rw [h.event]
    exact Nat.min_eq_left hrange
  have hreload : channel (reloadTimer n (beginOverflow n m)) n =
      { channel m n with currentValue := (channel m n).cntL, scheduledCycle := next } := by
    rw [channel_reloadTimer, beginOverflow_currentEventDue, channel_beginOverflow, hup,
      if_neg Bool.false_ne_true, hmin]
  have hcm : (reloadTimer n (beginOverflow n m)).cm =
      (beginOverflow n m).cm.arm next (timerEvent n) := by
    unfold reloadTimer
    simp only [channel_beginOverflow, hup, Bool.false_eq_true, if_false]
    show (beginOverflow n m).cm.arm (min (m.cm.events (timerEvent n) +
      remainingCycles (channel m n).cntL (channel m n).currentShift) u32Max) _ = _
    rw [hmin]
  obtain ⟨v, hch, hev, hact⟩ := dispatchTimer_own port hstart
  rw [hreload] at hch
  rw [hcm] at hev hact
  obtain ⟨j, hj, hle⟩ := h.late (h.event ▸ hdue)
  refine ⟨by rw [Running, hch]; exact h.running, by rw [hch]; exact h.valid, ?_, ?_, ?_, j, ?_, ?_⟩
  · rw [hact]
    simp [CycleManager.arm]
  · rw [hev, hch]
    simp [CycleManager.arm]
  · rw [hch]
    exact hrange
  · rw [hch, hclock]
    simp only
    rw [Nat.succ_mul] at hj
    omega
  · intro _
    rw [hch]
    exact hle

/-- The dispatch of an overflow event. -/
theorem Tracks.overflowEvent {port : FifoPort D} {k : Fin 4} (h : Tracks k m r)
    (hdue : m.cm.events (timerEvent n) ≤ m.cm.cycleCount)
    (hsafe : CounterSafe m (.overflowEvent n : TimerOp D)) :
    Tracks k (dispatchTimer port n m).2 r := by
  obtain ⟨hspill, hrange⟩ := hsafe
  have hreg : (channel (dispatchTimer port n m).2 k).registers = (channel m k).registers :=
    timersOverflowBelow_registers port _ _ k
  obtain ⟨hl', hh', hs'⟩ : (channel (dispatchTimer port n m).2 k).cntL = (channel m k).cntL ∧
      (channel (dispatchTimer port n m).2 k).cntH = (channel m k).cntH ∧
      (channel (dispatchTimer port n m).2 k).currentShift = (channel m k).currentShift := by
    simpa only [TimerChannel.registers, Prod.mk.injEq] using hreg
  have hclock : (dispatchTimer port n m).2.cm.cycleCount = m.cm.cycleCount :=
    timersOverflowBelow_cycleCount port _ _
  cases hr : r.mode with
  | stopped v =>
      have hmode := hr ▸ h.mode
      have hstop : cntStart (channel m k).cntH = false := hmode.1
      by_cases hk : k = n
      · subst hk
        refine ⟨hl' ▸ h.cntL, hh' ▸ h.cntH, by rw [hs', hh']; exact h.shift, ?_⟩
        rw [hr]
        rw [dispatchTimer_of_stopped port hstop]
        exact hmode
      · refine h.congr hclock (dispatchTimer_frame port hk fun _ hto => ?_)
        simp [SpillsTo, hstop] at hto
  | cascading =>
      have hmode := h.mode
      rw [hr] at hmode
      refine ⟨hl' ▸ h.cntL, hh' ▸ h.cntH, by rw [hs', hh']; exact h.shift, ?_⟩
      rw [hr]
      exact ⟨hh' ▸ hmode.1, hh' ▸ hmode.2⟩
  | running c =>
      have hmode := h.mode
      rw [hr] at hmode
      by_cases hk : k = n
      · subst hk
        refine ⟨hl' ▸ h.cntL, hh' ▸ h.cntH, by rw [hs', hh']; exact h.shift, ?_⟩
        rw [hr]
        exact hmode.dispatch hdue (hrange hmode.running)
      · refine h.congr hclock (dispatchTimer_frame port hk fun hle => ?_)
        exact hspill k (lt_of_le_of_ne hle (Ne.symm hk)) hmode.running

/-- The rebase moves clock and schedule together. -/
theorem Tracks.rebase (h : Tracks n m r) (hc : m.cm.cycleCount ≤ u32Max)
    (hdone : m.cm.bestEvent.1 = none) : Tracks n (rebaseTimers m) r := by
  obtain ⟨hl, hh, hs, hmode⟩ := h
  refine ⟨hl, hh, hs, ?_⟩
  cases hr : r.mode with
  | stopped v => exact (hr ▸ hmode).of_not_running (by simp) rfl rfl
  | cascading => exact (hr ▸ hmode).of_not_running (by simp) rfl rfl
  | running c =>
      rw [hr] at hmode
      obtain ⟨hrun, hvalid, hactive, hevent, hle, j, hj, hperiod⟩ := hmode
      -- nothing is due
      have hge : m.cm.cycleCount ≤ (channel m n).scheduledCycle := by
        have := (CycleManager.bestEvent_none_iff m.cm).mp hdone _ hactive
        rw [hevent] at this
        omega
      have hev : (rebaseTimers m).cm.events (timerEvent n) =
          (channel m n).scheduledCycle - m.cm.cycleCount := by
        show (if m.cm.activeEvents (timerEvent n) then
          wrappingSub (m.cm.events (timerEvent n)) m.cm.cycleCount else _) = _
        rw [if_pos hactive, hevent, wrappingSub_of_le hge]
      have hgrid : (channel m n).scheduledCycle - m.cm.cycleCount +
          j * period timeOverflow (2 ^ (channel m n).currentShift) (channel m n).cntL.toNat =
            0 + remaining timeOverflow (2 ^ (channel m n).currentShift) c := by omega
      have hle' : (channel m n).scheduledCycle - m.cm.cycleCount ≤ u32Max := by omega
      exact ⟨hrun, hvalid, hactive, hev, hle', j, hgrid, hperiod⟩

/-- A read refreshes the stored value of a running timer. -/
theorem Tracks.getCntL (h : Tracks n m r) : Tracks n (timersGetCntL n m).2 r := by
  obtain ⟨hl, hh, hs, hmode⟩ := h
  by_cases hrun : Running m n
  · have hch : channel (timersGetCntL n m).2 n =
        { channel m n with currentValue := counterNow (channel m n) m.cm.cycleCount } := by
      simp only [timersGetCntL, hrun.1, hrun.2, Bool.not_false, Bool.and_self, if_true]
      exact channel_setChannel m n _
    refine ⟨by rw [hch]; exact hl, by rw [hch]; exact hh, by rw [hch]; exact hs, ?_⟩
    cases hr : r.mode with
    | stopped v =>
        rw [hr] at hmode
        exact absurd hrun.1 (by rw [hmode.1]; decide)
    | cascading =>
        rw [hr] at hmode
        exact absurd hrun.2 (by rw [hmode.2]; decide)
    | running c =>
        rw [hr] at hmode
        obtain ⟨-, hvalid, hactive, hevent, hle, hgrid⟩ := hmode
        refine ⟨by rw [Running, hch]; exact hrun, by rw [hch]; exact hvalid, hactive,
          by rw [hch]; exact hevent, by rw [hch]; exact hle, ?_⟩
        rw [hch]
        exact hgrid
  · have hch : channel (timersGetCntL n m).2 n = channel m n := by
      have hoff : (cntStart (channel m n).cntH && !cntIsCountUp n (channel m n).cntH) = false := by
        rw [Bool.eq_false_iff]
        intro hand
        simp only [Bool.and_eq_true, Bool.not_eq_true'] at hand
        exact hrun hand
      simp only [timersGetCntL, hoff, Bool.false_eq_true, if_false]
      exact channel_setChannel m n _
    refine Tracks.congr ⟨hl, hh, hs, hmode⟩ rfl ⟨hch, rfl, rfl⟩

end Steps

/-- The relation for all timers, and a clock that is a `u32` value. -/
structure TimedInv (s : TimedTimers D) : Prop where
  clock : s.machine.cm.cycleCount ≤ u32Max
  tracks : ∀ n, Tracks n s.machine (s.ref n)

theorem timedBoot_inv (other : D) : TimedInv (timedBoot other) := by
  have hshift : ∀ n, cntShift n 0 = 0 := by decide
  have hstop : cntStart 0 = false := by decide
  exact ⟨Nat.zero_le _, fun n => ⟨rfl, rfl, (hshift n).symm, hstop, rfl⟩⟩

/-- **The step lemma**: a safe step keeps the relation. -/
theorem TimedInv.step {port : FifoPort D} {s s' : TimedTimers D} {op : TimerOp D}
    (h : TimedInv s) (hsafe : CounterSafe s.machine op) (hs : timedStep port s op = some s') :
    TimedInv s' := by
  obtain ⟨m', hm', rfl⟩ := Option.map_eq_some_iff.mp hs
  cases op with
  | setCntL n mask value =>
      obtain rfl := Option.some.inj hm'
      refine ⟨h.clock, fun k => ?_⟩
      by_cases hk : k = n
      · subst hk
        simpa only [refStep, Function.update_self] using (h.tracks k).setCntL hsafe
      · simp only [refStep, Function.update_of_ne hk]
        exact (h.tracks k).congr rfl (sameTimer_setChannel _ _ hk)
  | setCntH n mask value =>
      obtain rfl := Option.some.inj hm'
      refine ⟨(timersSetCntH_cycleCount n _ mask value).trans_le h.clock, fun k => ?_⟩
      by_cases hk : k = n
      · subst hk
        simpa only [refStep, Function.update_self] using (h.tracks k).setCntH hsafe
      · simp only [refStep, Function.update_of_ne hk]
        exact (h.tracks k).congr (timersSetCntH_cycleCount n _ mask value)
          (sameTimer_timersSetCntH hk mask value)
  | getCntL n =>
      obtain rfl := Option.some.inj hm'
      refine ⟨h.clock, fun k => ?_⟩
      by_cases hk : k = n
      · subst hk
        exact (h.tracks k).getCntL
      · exact (h.tracks k).congr rfl (sameTimer_setChannel _ _ hk)
  | addCycles cycles =>
      obtain rfl := Option.some.inj hm'
      refine ⟨?_, fun k => (h.tracks k).addCycles hsafe⟩
      show (s.machine.cm.cycleCount + cycles) % 4294967296 ≤ u32Max
      unfold u32Max
      omega
  | overflowEvent n =>
      simp only [timerStep] at hm'
      split at hm'
      · rename_i hbest
        obtain rfl := Option.some.inj hm'
        have hdue := (CycleManager.bestEvent_some hbest).2.2.1
        exact ⟨(timersOverflowBelow_cycleCount port _ _).trans_le h.clock,
          fun k => (h.tracks k).overflowEvent hdue hsafe⟩
      · simp at hm'
  | rebase =>
      simp only [timerStep] at hm'
      split at hm'
      · rename_i hguard
        obtain rfl := Option.some.inj hm'
        exact ⟨Nat.zero_le _, fun k => (h.tracks k).rebase h.clock hguard.2⟩
      · simp at hm'
  | elsewhere t =>
      simp only [timerStep] at hm'
      split at hm'
      · rename_i hsame
        obtain rfl := Option.some.inj hm'
        exact ⟨hsame.1.trans_le h.clock, fun k => (h.tracks k).congr hsame.1 (hsame.2 k)⟩
      · simp at hm'

/-! ## Reads -/

section Reads

variable {n : Fin 4} {m : TimerMachine D} {c : Counter}

/-- What `timers_get_cnt_l` computes over an overflow that waits to be dispatched: the
subtraction wraps, and the elapsed ticks come out rounded up. -/
theorem late_counter {scheduled clock shift : ℕ} (hle : scheduled ≤ clock)
    (hc : clock ≤ u32Max) (hs : shift ≤ 10) :
    wrappingSub timeOverflow (wrappingSub scheduled clock >>> shift) % 65536 =
      (clock - scheduled + 2 ^ shift - 1) / 2 ^ shift % 65536 := by
  have houter : ∀ x, x ≤ 4294967296 →
      wrappingSub timeOverflow x % 65536 = (4294967296 - x) % 65536 := by
    intro x hx
    unfold wrappingSub timeOverflow
    split <;> omega
  obtain ⟨late, rfl⟩ : ∃ late, clock = scheduled + late := ⟨clock - scheduled, by omega⟩
  rw [Nat.shiftRight_eq_div_pow, Nat.add_sub_cancel_left]
  unfold u32Max at hc
  rcases Nat.eq_zero_or_pos late with rfl | hpos
  · have hpow : 0 < 2 ^ shift := Nat.two_pow_pos shift
    rw [Nat.add_zero, wrappingSub_of_le (le_refl _), Nat.sub_self, Nat.zero_div, Nat.zero_add,
      Nat.div_eq_of_lt (by omega)]
    rfl
  · have hinner : wrappingSub scheduled (scheduled + late) = 4294967296 - late := by
      unfold wrappingSub
      split <;> omega
    rw [hinner, houter _ ((Nat.div_le_self _ _).trans (Nat.sub_le _ _))]
    interval_cases shift <;> omega

/-- **A read of a running timer.** -/
theorem RunsWith.read_iff (h : RunsWith n m c) (hc : m.cm.cycleCount ≤ u32Max)
    (hs : (channel m n).currentShift ≤ 10) :
    (timersGetCntL n m).1 = BitVec.ofNat 16 c.value ↔ ReadsExactly m n := by
  have hread : (timersGetCntL n m).1 = counterNow (channel m n) m.cm.cycleCount := by
    simp [timersGetCntL, h.running.1, h.running.2]
  have hvalue : c.value < 65536 := h.valid.value_lt
  have hmod : (timersGetCntL n m).1 = BitVec.ofNat 16 c.value ↔
      wrappingSub timeOverflow (wrappingSub (channel m n).scheduledCycle m.cm.cycleCount >>>
        (channel m n).currentShift) % 65536 = c.value := by
    rw [hread, counterNow, ← BitVec.toNat_inj, BitVec.toNat_ofNat, BitVec.toNat_ofNat,
      Nat.mod_eq_of_lt (a := c.value) hvalue]
  rw [hmod]
  have hexact : ReadsExactly m n ↔
      if m.cm.cycleCount < (channel m n).scheduledCycle then
        2 ^ (channel m n).currentShift ∣ (channel m n).scheduledCycle - m.cm.cycleCount
      else
        (m.cm.cycleCount - (channel m n).scheduledCycle + 2 ^ (channel m n).currentShift - 1) /
            2 ^ (channel m n).currentShift % timeOverflow =
          (channel m n).cntL.toNat + (m.cm.cycleCount - (channel m n).scheduledCycle) /
            2 ^ (channel m n).currentShift % (timeOverflow - (channel m n).cntL.toNat) :=
    ⟨fun hall => hall h.running, fun hall _ => hall⟩
  rw [hexact]
  by_cases hlt : m.cm.cycleCount < (channel m n).scheduledCycle
  · -- the steps left, rounded down, against the steps left, rounded up
    have hrem : (channel m n).scheduledCycle - m.cm.cycleCount =
        remaining timeOverflow (2 ^ (channel m n).currentShift) c := by
      have := h.on_time hlt
      omega
    have hdiv := remaining_div h.valid
    rw [if_pos hlt, hrem, dvd_remaining_iff h.valid, wrappingSub_of_le hlt.le, hrem,
      Nat.shiftRight_eq_div_pow]
    set steps := remaining timeOverflow (2 ^ (channel m n).currentShift) c /
      2 ^ (channel m n).currentShift
    have hwrap : wrappingSub timeOverflow steps = timeOverflow - steps := by
      refine wrappingSub_of_le ?_
      split at hdiv <;> omega
    rw [hwrap]
    unfold timeOverflow at hdiv ⊢
    split at hdiv
    · omega
    · omega
  · have hge := Nat.le_of_not_lt hlt
    obtain ⟨j, hj, hle⟩ := h.late hge
    have hlate : (j + 1) *
        period timeOverflow (2 ^ (channel m n).currentShift) (channel m n).cntL.toNat =
          m.cm.cycleCount - (channel m n).scheduledCycle +
            remaining timeOverflow (2 ^ (channel m n).currentShift) c := by omega
    have hstand := value_of_overflowed h.valid (cntL_lt m n) hlate hle
    rw [if_neg hlt, late_counter hge hc hs, hstand]
    rfl

/-- A read in a state with the relation. -/
theorem Tracks.read_iff {r : RefTimer} (h : Tracks n m r) (hc : m.cm.cycleCount ≤ u32Max)
    {v : BitVec 16} (hv : r.value = some v) :
    (timersGetCntL n m).1 = v ↔ ReadsExactly m n := by
  have hmode := h.mode
  unfold RefTimer.value at hv
  cases hr : r.mode with
  | stopped u =>
      rw [hr] at hmode hv
      obtain rfl := Option.some.inj hv
      have hread : (timersGetCntL n m).1 = (channel m n).currentValue := by
        simp [timersGetCntL, hmode.1]
      have hoff : ¬ Running m n := by
        rintro ⟨hs, -⟩
        rw [hmode.1] at hs
        simp at hs
      exact ⟨fun _ hrun => absurd hrun hoff, fun _ => hread.trans hmode.2⟩
  | cascading =>
      rw [hr] at hv
      simp at hv
  | running c =>
      rw [hr] at hmode hv
      obtain rfl := Option.some.inj hv
      exact hmode.read_iff hc (h.shift ▸ cntShift_le n _)

end Reads

/-! ## The law -/

/-- **The step rule along runs.** -/
theorem tracks_of_reaches {port : FifoPort D} {other : D} {s : TimedTimers D}
    (h : Reaches (timedStep port) (fun s op => CounterSafe s.machine op) (timedBoot other) s) :
    TimedInv s :=
  h.invariant (fun _ _ _ hi hsafe hs => hi.step hsafe hs) (timedBoot_inv other)

/-- A control write that ends the count of a running timer: it stops it, or changes its prescaler
with the next overflow in range. -/
def EndsCount (m : TimerMachine D) (n : Fin 4) (mask value : BitVec 16) : Prop :=
  let ch := channel m n
  let cnt := newCntH ch.cntH mask value
  cntStart cnt = false ∨
    Reschedules n ch cnt ch.currentValue ∧
      m.cm.cycleCount + remainingCycles ch.currentValue (cntShift n cnt) ≤ u32Max

/-- Right after a write that ended the count, the timer reads as the reference exactly when the
stored value was fresh. -/
theorem RunsWith.read_setCntH_iff {n : Fin 4} {m : TimerMachine D} {r : RefTimer} {c : Counter}
    (h : Tracks n m r) (hr : r.mode = .running c) (hc : m.cm.cycleCount ≤ u32Max)
    {mask value : BitVec 16} (hend : EndsCount m n mask value) :
    some (timersGetCntL n (timersSetCntH n mask value m)).1 =
        (r.setCntH n mask value (channel m n).currentValue).value ↔
      Fresh m n := by
  obtain ⟨hl, hh, hs, hmode⟩ := h
  rw [hr] at hmode
  have hold := hmode.running.1
  have hstand := hmode.standingValue_eq
  have hreg := registers_timersSetCntH mask value hs
  set cnt := newCntH (channel m n).cntH mask value with hcnt
  obtain ⟨-, hh', hs'⟩ :
      (channel (timersSetCntH n mask value m) n).cntL = (channel m n).cntL ∧
        (channel (timersSetCntH n mask value m) n).cntH = cnt ∧
        (channel (timersSetCntH n mask value m) n).currentShift = cntShift n cnt := by
    simpa only [TimerChannel.registers, Prod.mk.injEq] using hreg
  rw [Fresh, hstand]
  rcases hend with hstop | ⟨hanew, hrange⟩
  · -- the stored value is frozen
    change cntStart cnt = false at hstop
    have hread : (timersGetCntL n (timersSetCntH n mask value m)).1 =
        (channel m n).currentValue := by
      rw [← timersSetCntH_stopped mask value hs hstop]
      simp [timersGetCntL, hh', hstop]
    have hvalue : (r.setCntH n mask value (channel m n).currentValue).value =
        some (BitVec.ofNat 16 c.value) := by
      simp [RefTimer.setCntH, RefMode.write, hh, ← hcnt, hstop, hr, RefTimer.value]
    rw [hread, hvalue, Option.some_inj]
  · -- the count goes on from the stored value
    obtain ⟨hstart, hup, ⟨hoff, -⟩ | ⟨-, hne, -⟩⟩ := hanew
    · rw [hold] at hoff
      simp at hoff
    change cntStart cnt = true at hstart
    change cntIsCountUp n cnt = false at hup
    change cntShift n cnt ≠ _ at hne
    obtain ⟨hruns, hsched⟩ := RunsWith.of_reschedules mask value hs
      ⟨hstart, hup, Or.inr ⟨hold, hne, rfl⟩⟩ hrange
    have hclock := timersSetCntH_cycleCount n m mask value
    have hread : (timersGetCntL n (timersSetCntH n mask value m)).1 =
        (channel m n).currentValue := by
      have hexact : ReadsExactly (timersSetCntH n mask value m) n := by
        intro _
        have hpos := remaining_pos hruns.valid
        rw [hs', remaining_start, ← Nat.shiftLeft_eq] at hpos
        change 0 < remainingCycles (channel m n).currentValue (cntShift n cnt) at hpos
        rw [hsched, hclock, if_pos (Nat.lt_add_of_pos_right hpos), Nat.add_sub_cancel_left, hs', remainingCycles,
          Nat.shiftLeft_eq]
        exact Nat.dvd_mul_left _ _
      have := (hruns.read_iff (hclock.trans_le hc) (hs' ▸ cntShift_le n cnt)).mpr hexact
      simpa using this
    have hvalue : (r.setCntH n mask value (channel m n).currentValue).value =
        some (BitVec.ofNat 16 c.value) := by
      have hne' : cntShift n cnt ≠ cntShift n (channel m n).cntH := hs ▸ hne
      simp [RefTimer.setCntH, RefMode.write, hh, ← hcnt, hstart, hup, hr, hne', RefTimer.value]
    rw [hread, hvalue, Option.some_inj]

/-- **The counter law.**  In every state of a run whose steps are safe, a timer that does not
cascade reads as the reference timer exactly when `ReadsExactly`; and after one more control write
that ends the count of a running timer it does so exactly when the stored value was fresh. -/
theorem timer_counter_law (port : FifoPort D) {other : D} {s : TimedTimers D}
    (h : Reaches (timedStep port) (fun s op => CounterSafe s.machine op) (timedBoot other) s)
    (n : Fin 4) :
    (∀ v, (s.ref n).value = some v →
      ((timersGetCntL n s.machine).1 = v ↔ ReadsExactly s.machine n)) ∧
    (Running s.machine n → ∀ mask value s', EndsCount s.machine n mask value →
      timedStep port s (.setCntH n mask value) = some s' →
      (some (timersGetCntL n s'.machine).1 = (s'.ref n).value ↔ Fresh s.machine n)) := by
  obtain ⟨hclock, htracks⟩ := tracks_of_reaches h
  refine ⟨fun v hv => (htracks n).read_iff hclock hv, ?_⟩
  intro hrun mask value s' hend hs
  obtain ⟨m', hm', rfl⟩ := Option.map_eq_some_iff.mp hs
  obtain rfl := Option.some.inj hm'
  have hmode := (htracks n).mode
  cases hr : (s.ref n).mode with
  | stopped v =>
      rw [hr] at hmode
      exact absurd hrun.1 (by rw [hmode.1]; decide)
  | cascading =>
      rw [hr] at hmode
      exact absurd hrun.2 (by rw [hmode.2]; decide)
  | running c =>
      simp only [refStep, Function.update_self]
      exact RunsWith.read_setCntH_iff (htracks n) hr hclock hend

/-- Timer 0 is started with the given control register and runs for some cycles. -/
def startedFor (cntH : BitVec 16) (cycles : ℕ) : TimedTimers Unit :=
  let m := timersSetCntH 0 0xFFFF cntH (timersBoot ())
  let ref := refStep (timersBoot ()) (fun _ => ⟨0, 0, .stopped 0⟩) (.setCntH 0 0xFFFF cntH)
  ⟨{ m with cm := m.cm.addCycles cycles }, refStep m ref (.addCycles cycles)⟩

/-- After 64 cycles at prescaler 64 the counter reads 1. -/
theorem startedFor_read : (timersGetCntL 0 (startedFor 0x81 64).machine).1 = 1 := by
  have hreach : Reaches (timedStep silentFifo) (fun s op => CounterSafe s.machine op)
      (timedBoot ()) (startedFor 0x81 64) := by
    refine Reaches.tail (a := .addCycles 64) (Reaches.single (a := .setCntH 0 0xFFFF 0x81) ?_ rfl)
      (show 0 + 64 ≤ u32Max by decide) rfl
    refine ⟨fun h => absurd h (by decide), fun h => absurd h (by decide), ?_⟩
    rintro v ⟨-, -, ⟨-, rfl⟩ | ⟨h, -⟩⟩
    · decide
    · exact absurd h (by decide)
  have hexact : ReadsExactly (startedFor 0x81 64).machine 0 := by
    intro _
    show if (64 : ℕ) < 4194304 then 64 ∣ 4194304 - 64 else _
    rw [if_pos (by decide)]
    decide
  have hvalue : (ReloadCounter.advance timeOverflow 64 0 64 ⟨0, 0⟩).value = 1 :=
    advance_start (by decide) (by decide) 64
  have href : ((startedFor 0x81 64).ref 0).value = some 1 := by
    show some (BitVec.ofNat 16 (ReloadCounter.advance timeOverflow 64 0 64 ⟨0, 0⟩).value) = _
    rw [hvalue]
    rfl
  exact ((timer_counter_law silentFifo hreach 0).1 1 href).mpr hexact

/-- **The stale stop**: a timer that ran for 1000 cycles and is stopped without a read in between
reads 0. -/
theorem stoppedStale_read :
    ∃ s, Reaches (timedStep silentFifo) (fun _ _ => True) (timedBoot ()) s ∧
      (timersGetCntL 0 s.machine).1 = 0 ∧ (s.ref 0).value = some 1000 := by
  refine ⟨_, Reaches.tail (a := .setCntH 0 0xFFFF 0) (Reaches.tail (a := .addCycles 1000)
    (Reaches.single (a := .setCntH 0 0xFFFF 0x80) trivial rfl) trivial rfl) trivial rfl,
    by decide, ?_⟩
  have hvalue : (ReloadCounter.advance timeOverflow 1 0 1000 ⟨0, 0⟩).value = 1000 :=
    advance_start (by decide) (by decide) 1000
  show some (BitVec.ofNat 16 (ReloadCounter.advance timeOverflow 1 0 1000 ⟨0, 0⟩).value) = _
  rw [hvalue]
  rfl

end AdvancedSlop
