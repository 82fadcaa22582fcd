/-
# The cycle manager

The scheduler of the emulator (`src/core/cycle_manager.rs`): one due cycle for each event
type, a set of active events, a set of pending immediate events and the cached
`next_event_cycle`.  The counters are `u32` values and are modelled as natural numbers; the two
places where the release build wraps (`add_cycles` and the rebase) say so.  The bit masks
`active_events` and `active_imm_events` are modelled as Boolean functions, and the scans over
their leading zeros as scans of the table order.

* `schedule`, `scheduleFromDue`, `scheduleImm`, `jumpToNextEvent` : the operations;
* `bestEvent` : the inner scan of the dispatch loop;
* `cmCheckEvents` : the dispatch loop, over arbitrary handler tables.
-/
import AdvancedSlop.Agenda

namespace AdvancedSlop

/-! ## Event types -/

/-- The immediate events, in table order. -/
inductive ImmEventType
  | cpuInterrupt | dma0 | dma1 | dma2 | dma3
  deriving DecidableEq, Repr

/-- The scheduled events, in table order. -/
inductive EventType
  | gpuScanline240 | gpuScanline308 | timer0 | timer1 | timer2 | timer3 | apuSample
  deriving DecidableEq, Repr

/-- The immediate events in the order the mask is scanned. -/
def ImmEventType.all : List ImmEventType := [.cpuInterrupt, .dma0, .dma1, .dma2, .dma3]

/-- The scheduled events in the order the mask is scanned. -/
def EventType.all : List EventType :=
  [.gpuScanline240, .gpuScanline308, .timer0, .timer1, .timer2, .timer3, .apuSample]

@[simp] theorem ImmEventType.mem_all (e : ImmEventType) : e ∈ ImmEventType.all := by
  cases e <;> decide

@[simp] theorem EventType.mem_all (e : EventType) : e ∈ EventType.all := by
  cases e <;> decide

instance : Fintype EventType :=
  ⟨⟨EventType.all, by decide⟩, fun e => EventType.mem_all e⟩

/-- There are timers and DMA channels to name by a number. -/
instance neZero_channels : NeZero 4 := ⟨by decide⟩

/-- The index of an event in the handler table. -/
def EventType.index : EventType → ℕ
  | gpuScanline240 => 0
  | gpuScanline308 => 1
  | timer0 => 2
  | timer1 => 3
  | timer2 => 4
  | timer3 => 5
  | apuSample => 6

theorem EventType.index_injective : Function.Injective EventType.index := by
  intro a b h
  cases a <;> cases b <;> first | rfl | simp [EventType.index] at h

/-- The scan visits the events by increasing table index. -/
theorem EventType.all_pairwise :
    EventType.all.Pairwise fun a b => a.index < b.index := by decide

/-- `u32::MAX`. -/
def u32Max : ℕ := 4294967295

/-- Subtraction of `u32` values as the release build computes it. -/
def wrappingSub (a b : ℕ) : ℕ := if b ≤ a then a - b else a + 4294967296 - b

theorem wrappingSub_of_le {a b : ℕ} (h : b ≤ a) : wrappingSub a b = a - b := if_pos h

/-! ## The state and its operations -/

/-- `CycleManager`. -/
structure CycleManager where
  cycleCount : ℕ
  events : EventType → ℕ
  nextEventCycle : ℕ
  activeEvents : EventType → Bool
  activeImmEvents : ImmEventType → Bool
  currentEventDue : ℕ

namespace CycleManager

/-- `CycleManager::new` and `CycleManager::init`. -/
def init : CycleManager where
  cycleCount := 0
  events := fun _ => 0
  nextEventCycle := u32Max
  activeEvents := fun _ => false
  activeImmEvents := fun _ => false
  currentEventDue := 0

/-- `add_cycles`: the sum wraps at 2^32. -/
def addCycles (cm : CycleManager) (cycleCount : ℕ) : CycleManager :=
  { cm with cycleCount := (cm.cycleCount + cycleCount) % 4294967296 }

/-- `schedule_imm`. -/
def scheduleImm (cm : CycleManager) (e : ImmEventType) : CycleManager :=
  { cm with activeImmEvents := Function.update cm.activeImmEvents e true }

/-- The tail `schedule` and `schedule_from_due` share: store the due cycle, mark the event
active and lower `next_event_cycle`. -/
def arm (cm : CycleManager) (eventCycle : ℕ) (e : EventType) : CycleManager :=
  { cm with
    events := Function.update cm.events e eventCycle
    activeEvents := Function.update cm.activeEvents e true
    nextEventCycle :=
      if eventCycle < cm.nextEventCycle then eventCycle else cm.nextEventCycle }

/-- The due cycle `schedule` computes: at least one cycle ahead, clamped to `u32::MAX`. -/
def scheduledCycle (cycleCount inCycles : ℕ) : ℕ :=
  let inCycles := max inCycles 1
  let inCycles := if u32Max - inCycles < cycleCount then u32Max - cycleCount else inCycles
  cycleCount + inCycles

/-- `schedule`. -/
def schedule (cm : CycleManager) (inCycles : ℕ) (e : EventType) : CycleManager :=
  cm.arm (scheduledCycle cm.cycleCount inCycles) e

/-- The due cycle `schedule_from_due` computes: a saturating sum. -/
def cycleFromDue (due inCycles : ℕ) : ℕ := min (due + inCycles) u32Max

/-- `schedule_from_due`. -/
def scheduleFromDue (cm : CycleManager) (inCycles : ℕ) (e : EventType) : CycleManager :=
  cm.arm (cycleFromDue cm.currentEventDue inCycles) e

/-- `jump_to_next_event`: the clock never moves backwards. -/
def jumpToNextEvent (cm : CycleManager) : CycleManager :=
  if cm.cycleCount < cm.nextEventCycle then
    { cm with cycleCount := cm.nextEventCycle }
  else cm

@[simp] theorem arm_cycleCount (cm : CycleManager) (d : ℕ) (e : EventType) :
    (cm.arm d e).cycleCount = cm.cycleCount := rfl

@[simp] theorem arm_currentEventDue (cm : CycleManager) (d : ℕ) (e : EventType) :
    (cm.arm d e).currentEventDue = cm.currentEventDue := rfl

@[simp] theorem arm_activeImmEvents (cm : CycleManager) (d : ℕ) (e : EventType) :
    (cm.arm d e).activeImmEvents = cm.activeImmEvents := rfl

theorem arm_nextEventCycle (cm : CycleManager) (d : ℕ) (e : EventType) :
    (cm.arm d e).nextEventCycle = min d cm.nextEventCycle := by
  simp only [arm]
  split <;> omega

/-- The due cycle `schedule` arms is after the clock, or is the end of the counter. -/
theorem scheduledCycle_gt (c n : ℕ) : c < scheduledCycle c n ∨ u32Max ≤ scheduledCycle c n := by
  simp only [scheduledCycle]
  split <;> omega

theorem scheduledCycle_le {c n : ℕ} (hc : c ≤ u32Max) (hn : n ≤ u32Max) :
    scheduledCycle c n ≤ u32Max := by
  have hu : 1 ≤ u32Max := by decide
  simp only [scheduledCycle]
  split <;> omega

theorem cycleFromDue_le (d n : ℕ) : cycleFromDue d n ≤ u32Max := by
  simp only [cycleFromDue]
  omega

/-- An event armed from the due cycle lands after it, or at the end of the counter. -/
theorem cycleFromDue_gt {d n : ℕ} (hn : 1 ≤ n) :
    d < cycleFromDue d n ∨ cycleFromDue d n = u32Max := by
  simp only [cycleFromDue]
  omega

/-! ## The scans -/

/-- The due cycle of an active event. -/
def activeKey (cm : CycleManager) (e : EventType) : Option ℕ :=
  if cm.activeEvents e then some (cm.events e) else none

/-- The due cycle of an active event that is not after the clock. -/
def dueKey (cm : CycleManager) (e : EventType) : Option ℕ :=
  if cm.activeEvents e ∧ cm.events e ≤ cm.cycleCount then some (cm.events e) else none

theorem activeKey_eq_some {cm : CycleManager} {e : EventType} {d : ℕ} :
    cm.activeKey e = some d ↔ cm.activeEvents e = true ∧ cm.events e = d := by
  unfold activeKey
  split <;> simp_all

theorem dueKey_eq_some {cm : CycleManager} {e : EventType} {d : ℕ} :
    cm.dueKey e = some d ↔
      cm.activeEvents e = true ∧ cm.events e ≤ cm.cycleCount ∧ cm.events e = d := by
  unfold dueKey
  split <;> simp_all

/-- The inner scan of the dispatch loop: the due event with the least due cycle. -/
def bestEvent (cm : CycleManager) : Option EventType × ℕ :=
  Agenda.pick cm.dueKey EventType.all (none, u32Max)

/-- The recomputation after the loop: `next_event_cycle` is lowered to the least due cycle. -/
def recomputeNext (cm : CycleManager) : CycleManager :=
  { cm with nextEventCycle := Agenda.least cm.activeKey EventType.all cm.nextEventCycle }

/-- The least due cycle of an active event, `u32::MAX` when none is active. -/
def leastDue (cm : CycleManager) : ℕ := Agenda.least cm.activeKey EventType.all u32Max

/-- The scan stops exactly when every active event is after the clock (or sits at `u32::MAX`,
which the strict comparison never selects). -/
theorem bestEvent_none_iff (cm : CycleManager) :
    cm.bestEvent.1 = none ↔
      ∀ e, cm.activeEvents e = true → cm.events e ≤ cm.cycleCount → u32Max ≤ cm.events e := by
  rw [bestEvent, Agenda.pick_none_iff]
  constructor
  · intro h e ha hd
    exact h e (EventType.mem_all e) _ (dueKey_eq_some.mpr ⟨ha, hd, rfl⟩)
  · intro h e _ d hd
    obtain ⟨ha, hle, rfl⟩ := dueKey_eq_some.mp hd
    exact h e ha hle

/-- What the scan finds is active, due, and least among the due events, the table index
breaking ties. -/
theorem bestEvent_some {cm : CycleManager} {e : EventType} {due : ℕ}
    (h : cm.bestEvent = (some e, due)) :
    cm.activeEvents e = true ∧ cm.events e = due ∧ due ≤ cm.cycleCount ∧ due < u32Max ∧
      ∀ e', cm.activeEvents e' = true → cm.events e' ≤ cm.cycleCount →
        due < cm.events e' ∨ due = cm.events e' ∧ e.index ≤ e'.index := by
  obtain ⟨-, hkey, hlt, hle⟩ := Agenda.pick_some h
  obtain ⟨ha, hc, hd⟩ := dueKey_eq_some.mp hkey
  refine ⟨ha, hd, hd ▸ hc, hlt, ?_⟩
  intro e' ha' hc'
  have hk' : cm.dueKey e' = some (cm.events e') := dueKey_eq_some.mpr ⟨ha', hc', rfl⟩
  rcases Nat.lt_or_eq_of_le (hle e' (EventType.mem_all e') _ hk') with hlt' | heq
  · exact Or.inl hlt'
  · right
    refine ⟨heq, ?_⟩
    rcases Agenda.pick_tie EventType.all_pairwise h e' (EventType.mem_all e') (heq ▸ hk') with
      rfl | hidx
    · exact le_refl _
    · exact hidx.le

theorem leastDue_le {cm : CycleManager} {e : EventType} (h : cm.activeEvents e = true) :
    cm.leastDue ≤ cm.events e :=
  Agenda.least_le _ _ _ (EventType.mem_all e) (activeKey_eq_some.mpr ⟨h, rfl⟩)

theorem leastDue_le_u32Max (cm : CycleManager) : cm.leastDue ≤ u32Max :=
  Agenda.least_le_start _ _ _

/-- The least due cycle is `u32::MAX` or the due cycle of an active event. -/
theorem leastDue_mem (cm : CycleManager) :
    cm.leastDue = u32Max ∨ ∃ e, cm.activeEvents e = true ∧ cm.events e = cm.leastDue := by
  rcases Agenda.least_mem cm.activeKey EventType.all u32Max with h | ⟨e, -, h⟩
  · exact Or.inl h
  · exact Or.inr ⟨e, activeKey_eq_some.mp h⟩

end CycleManager

/-! ## The dispatch loop -/

/-- The scheduler together with the rest of the emulator. -/
structure Emu (D : Type*) where
  cm : CycleManager
  dev : D

/-- The two handler tables, and what the rebase does to the timer channels.  A handler may
change the whole emulator, the scheduler included. -/
structure Handlers (D : Type*) where
  imm : ImmEventType → Emu D → Emu D
  event : EventType → Emu D → Emu D
  timersOnOverflow : ℕ → D → D

/-- The outcome of one call of `cm_check_events`: the dispatched immediate events, the
dispatched events with their due cycles, the returned flag and the new state. -/
structure CheckResult (D : Type*) where
  imm : List ImmEventType
  timed : List (ℕ × EventType)
  ran : Bool
  emu : Emu D

section Dispatch

variable {D : Type*}

/-- The pending immediate events in table order. -/
def CycleManager.pendingImm (cm : CycleManager) : List ImmEventType :=
  ImmEventType.all.filter cm.activeImmEvents

/-- The mask of immediate events is taken and cleared. -/
def CycleManager.takeImm (cm : CycleManager) : CycleManager :=
  { cm with activeImmEvents := fun _ => false }

/-- Dispatch the immediate events that were pending at the start. -/
def dispatchImm (H : Handlers D) (emu : Emu D) : Emu D :=
  emu.cm.pendingImm.foldl (fun emu e => H.imm e emu) { emu with cm := emu.cm.takeImm }

/-- The selected event is made inactive and its due cycle recorded. -/
def CycleManager.beginDispatch (cm : CycleManager) (e : EventType) (due : ℕ) : CycleManager :=
  { cm with
    activeEvents := Function.update cm.activeEvents e false
    currentEventDue := due }

/-- Dispatch one selected event. -/
def dispatch (H : Handlers D) (e : EventType) (due : ℕ) (emu : Emu D) : Emu D :=
  H.event e { emu with cm := emu.cm.beginDispatch e due }

/-- The dispatch loop: scan, dispatch, scan again, until nothing is due.  `none` means that the
fuel ran out. -/
def drain (H : Handlers D) : ℕ → Emu D → Option (List (ℕ × EventType) × Emu D)
  | 0, _ => none
  | fuel + 1, emu =>
      match emu.cm.bestEvent with
      | (none, _) => some ([], emu)
      | (some e, due) =>
          (drain H fuel (dispatch H e due emu)).map fun r => ((due, e) :: r.1, r.2)

/-- `next_event_cycle` is forgotten before the loop. -/
def forgetNext (emu : Emu D) : Emu D :=
  { emu with cm := { emu.cm with nextEventCycle := u32Max } }

/-- `cm_on_overflow_event` on the scheduler: each active due cycle and `next_event_cycle` are
lowered by the clock, which restarts at 0. -/
def CycleManager.onOverflowEvent (cm : CycleManager) : CycleManager :=
  { cm with
    events := fun e =>
      if cm.activeEvents e then wrappingSub (cm.events e) cm.cycleCount else cm.events e
    nextEventCycle := wrappingSub cm.nextEventCycle cm.cycleCount
    cycleCount := 0 }

/-- `cm_on_overflow_event`. -/
def cmOnOverflowEvent (H : Handlers D) (emu : Emu D) : Emu D :=
  ⟨emu.cm.onOverflowEvent, H.timersOnOverflow emu.cm.cycleCount emu.dev⟩

/-- The clock from which on a check rebases the counters. -/
def rebaseLimit : ℕ := 0x7FFFFFFF

/-- The recomputation after the loop. -/
def recompute (emu : Emu D) : Emu D := { emu with cm := emu.cm.recomputeNext }

/-- The rebase test at the end of the check. -/
def rebase (H : Handlers D) (emu : Emu D) : Emu D :=
  if rebaseLimit < emu.cm.cycleCount then cmOnOverflowEvent H emu else emu

/-- `cm_check_events`. -/
def cmCheckEvents (H : Handlers D) (fuel : ℕ) (emu : Emu D) : Option (CheckResult D) :=
  let pending := emu.cm.pendingImm
  let emu := dispatchImm H emu
  if emu.cm.cycleCount < emu.cm.nextEventCycle then
    some ⟨pending, [], false, emu⟩
  else
    (drain H fuel (forgetNext emu)).map fun r =>
      ⟨pending, r.1, true, rebase H (recompute r.2)⟩

/-- A round of the loop that finds nothing ends it. -/
theorem drain_none {H : Handlers D} {emu : Emu D} (h : emu.cm.bestEvent.1 = none) (fuel : ℕ) :
    drain H (fuel + 1) emu = some ([], emu) := by
  rw [drain]
  rcases hb : emu.cm.bestEvent with ⟨_ | e, due⟩
  · rfl
  · rw [hb] at h
    simp at h

/-- A round that selects an event dispatches it and goes on. -/
theorem drain_some {H : Handlers D} {emu : Emu D} {e : EventType} {due : ℕ}
    (h : emu.cm.bestEvent = (some e, due)) (fuel : ℕ) :
    drain H (fuel + 1) emu =
      (drain H fuel (dispatch H e due emu)).map fun r => ((due, e) :: r.1, r.2) := by
  rw [drain, h]

/-- **What a finished drain did**: nothing was due, or one event was dispatched and the drain
finished from there. -/
theorem drain_cases {H : Handlers D} {fuel : ℕ} {emu : Emu D}
    {r : List (ℕ × EventType) × Emu D} (h : drain H fuel emu = some r) :
    ∃ fuel', fuel = fuel' + 1 ∧
      ((emu.cm.bestEvent.1 = none ∧ r = ([], emu)) ∨
        ∃ e due r', emu.cm.bestEvent = (some e, due) ∧
          drain H fuel' (dispatch H e due emu) = some r' ∧ r = ((due, e) :: r'.1, r'.2)) := by
  cases fuel with
  | zero => simp [drain] at h
  | succ fuel =>
      refine ⟨fuel, rfl, ?_⟩
      rcases hb : emu.cm.bestEvent with ⟨_ | e, due⟩
      · left
        rw [drain_none (by rw [hb])] at h
        exact ⟨rfl, by simpa using h.symm⟩
      · right
        rw [drain_some hb, Option.map_eq_some_iff] at h
        obtain ⟨r', hr', rfl⟩ := h
        exact ⟨e, due, r', rfl, hr', rfl⟩

/-- The induction rule of the dispatch loop: what holds when nothing is due and is carried back
over one dispatch holds of every finished drain. -/
theorem drain_induction {H : Handlers D}
    {P : ℕ → Emu D → List (ℕ × EventType) × Emu D → Prop}
    (stop : ∀ fuel emu, emu.cm.bestEvent.1 = none → P (fuel + 1) emu ([], emu))
    (round : ∀ fuel emu e due r, emu.cm.bestEvent = (some e, due) →
      P fuel (dispatch H e due emu) r → P (fuel + 1) emu ((due, e) :: r.1, r.2))
    {fuel : ℕ} {emu : Emu D} {r : List (ℕ × EventType) × Emu D}
    (h : drain H fuel emu = some r) : P fuel emu r := by
  induction fuel generalizing emu r with
  | zero => simp [drain] at h
  | succ fuel ih =>
      obtain ⟨fuel', hf, ⟨hb, rfl⟩ | ⟨e, due, r', hb, hr', rfl⟩⟩ := drain_cases h
      · exact stop fuel emu hb
      · obtain rfl : fuel = fuel' := by omega
        exact round fuel emu e due r' hb (ih hr')

/-- What holds when nothing is due and every dispatch carries over holds when a drain is done. -/
theorem drain_invariant (H : Handlers D) {I : Emu D → Prop}
    (hI : ∀ emu e due, emu.cm.bestEvent = (some e, due) → I emu → I (dispatch H e due emu))
    {fuel : ℕ} {emu : Emu D} {r : List (ℕ × EventType) × Emu D}
    (h : drain H fuel emu = some r) (hs : I emu) : I r.2 :=
  drain_induction (P := fun _ emu r => I emu → I r.2) (fun _ _ _ hs => hs)
    (fun _ emu e due _ hb ih hs => ih (hI emu e due hb hs)) h hs

/-- A finished drain leaves nothing due. -/
theorem drain_bestEvent {H : Handlers D} {fuel : ℕ} {emu : Emu D}
    {r : List (ℕ × EventType) × Emu D} (h : drain H fuel emu = some r) :
    r.2.cm.bestEvent.1 = none :=
  drain_induction (P := fun _ _ r => r.2.cm.bestEvent.1 = none) (fun _ _ hb => hb)
    (fun _ _ _ _ _ _ ih => ih) h

/-- What every immediate handler keeps, the immediate dispatch keeps. -/
theorem dispatchImm_invariant (H : Handlers D) {I : Emu D → Prop}
    (hI : ∀ emu e, I emu → I (H.imm e emu)) {emu : Emu D}
    (hs : I { emu with cm := emu.cm.takeImm }) : I (dispatchImm H emu) := by
  unfold dispatchImm
  generalize { emu with cm := emu.cm.takeImm } = start at hs
  induction emu.cm.pendingImm generalizing start with
  | nil => exact hs
  | cons e rest ih => exact ih _ (hI start e hs)

/-- **What a check did**: it returned at once, or drained, recomputed and rebased. -/
theorem cmCheckEvents_cases {H : Handlers D} {fuel : ℕ} {emu : Emu D} {r : CheckResult D}
    (h : cmCheckEvents H fuel emu = some r) :
    r.imm = emu.cm.pendingImm ∧
      (((dispatchImm H emu).cm.cycleCount < (dispatchImm H emu).cm.nextEventCycle ∧
          r.ran = false ∧ r.timed = [] ∧ r.emu = dispatchImm H emu) ∨
        ((dispatchImm H emu).cm.nextEventCycle ≤ (dispatchImm H emu).cm.cycleCount ∧
          r.ran = true ∧
          ∃ t, drain H fuel (forgetNext (dispatchImm H emu)) = some (r.timed, t) ∧
            r.emu = rebase H (recompute t))) := by
  simp only [cmCheckEvents] at h
  split at h
  · rename_i hlt
    obtain rfl := Option.some.inj h
    exact ⟨rfl, Or.inl ⟨hlt, rfl, rfl, rfl⟩⟩
  · rename_i hge
    rw [Option.map_eq_some_iff] at h
    obtain ⟨⟨tr, t⟩, ht, rfl⟩ := h
    exact ⟨rfl, Or.inr ⟨Nat.le_of_not_lt hge, rfl, t, ht, rfl⟩⟩

end Dispatch

end AdvancedSlop
