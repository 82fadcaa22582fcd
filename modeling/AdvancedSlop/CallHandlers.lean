/-
# Handlers that use the scheduler's interface

A handler of the emulator touches the scheduler through `schedule`, `schedule_from_due` and
`schedule_imm` only (the vblank hook, which may swap the whole scheduler, is treated in
`SavestateRestore.lean`).  Such a handler is a list of calls computed from the state it sees,
and a change of the rest of the emulator.

* `runCalls_event` : after the calls an event is as before, or due at a cycle some call armed;
* `runCalls_nextEventCycle_le`, `runCalls_nextEventCycle_mem` : the cached minimum;
* `drain_terminates` : with positive deltas every dispatch loop ends.
-/
import AdvancedSlop.CycleManager

namespace AdvancedSlop

/-! ## Calls -/

/-- A call of the scheduler's interface; the deltas are `u32` values. -/
inductive CmCall
  | schedule (inCycles : UInt32) (e : EventType)
  | scheduleFromDue (inCycles : UInt32) (e : EventType)
  | scheduleImm (e : ImmEventType)
  deriving DecidableEq, Repr

/-- Execute a call. -/
def CmCall.run (cm : CycleManager) : CmCall → CycleManager
  | schedule n e => cm.schedule n.toNat e
  | scheduleFromDue n e => cm.scheduleFromDue n.toNat e
  | scheduleImm e => cm.scheduleImm e

/-- Execute calls in order. -/
def runCalls (cm : CycleManager) (calls : List CmCall) : CycleManager :=
  calls.foldl CmCall.run cm

/-- The event a call arms, and the cycle it arms it for; both depend on the clock and the due
cycle of the event being dispatched only. -/
def CmCall.arms (clock due : ℕ) : CmCall → Option (EventType × ℕ)
  | schedule n e => some (e, CycleManager.scheduledCycle clock n.toNat)
  | scheduleFromDue n e => some (e, CycleManager.cycleFromDue due n.toNat)
  | scheduleImm _ => none

/-- The cycles a list of calls arms events for. -/
def landings (clock due : ℕ) (calls : List CmCall) : List ℕ :=
  (calls.filterMap (CmCall.arms clock due)).map Prod.snd

theorem landings_cons (clock due : ℕ) (call : CmCall) (calls : List CmCall) :
    landings clock due (call :: calls) =
      landings clock due [call] ++ landings clock due calls := by
  unfold landings
  rw [← List.map_append, ← List.filterMap_append]
  rfl

/-- A call arms its event, or leaves the schedule alone. -/
theorem CmCall.run_cases (cm : CycleManager) (call : CmCall) :
    (∃ d e, call.arms cm.cycleCount cm.currentEventDue = some (e, d) ∧
        call.run cm = cm.arm d e) ∨
      (∃ i, call.arms cm.cycleCount cm.currentEventDue = none ∧
        call.run cm = cm.scheduleImm i) := by
  cases call with
  | schedule n e => exact Or.inl ⟨_, e, rfl, rfl⟩
  | scheduleFromDue n e => exact Or.inl ⟨_, e, rfl, rfl⟩
  | scheduleImm i => exact Or.inr ⟨i, rfl, rfl⟩

@[simp] theorem CmCall.run_cycleCount (cm : CycleManager) (call : CmCall) :
    (call.run cm).cycleCount = cm.cycleCount := by
  cases call <;> rfl

@[simp] theorem CmCall.run_currentEventDue (cm : CycleManager) (call : CmCall) :
    (call.run cm).currentEventDue = cm.currentEventDue := by
  cases call <;> rfl

@[simp] theorem runCalls_nil (cm : CycleManager) : runCalls cm [] = cm := rfl

theorem runCalls_cons (cm : CycleManager) (call : CmCall) (calls : List CmCall) :
    runCalls cm (call :: calls) = runCalls (call.run cm) calls := rfl

theorem runCalls_append (cm : CycleManager) (calls calls' : List CmCall) :
    runCalls cm (calls ++ calls') = runCalls (runCalls cm calls) calls' :=
  List.foldl_append

@[simp] theorem runCalls_cycleCount (cm : CycleManager) (calls : List CmCall) :
    (runCalls cm calls).cycleCount = cm.cycleCount := by
  induction calls generalizing cm with
  | nil => rfl
  | cons call calls ih => rw [runCalls_cons, ih, CmCall.run_cycleCount]

@[simp] theorem runCalls_currentEventDue (cm : CycleManager) (calls : List CmCall) :
    (runCalls cm calls).currentEventDue = cm.currentEventDue := by
  induction calls generalizing cm with
  | nil => rfl
  | cons call calls ih => rw [runCalls_cons, ih, CmCall.run_currentEventDue]

/-- One call leaves an event alone, or arms it. -/
theorem CmCall.run_event (cm : CycleManager) (call : CmCall) (e : EventType) :
    ((call.run cm).activeEvents e = cm.activeEvents e ∧
        (call.run cm).events e = cm.events e) ∨
      ((call.run cm).activeEvents e = true ∧
        (call.run cm).events e ∈ landings cm.cycleCount cm.currentEventDue [call]) := by
  rcases call.run_cases cm with ⟨d, e', harm, hrun⟩ | ⟨i, -, hrun⟩
  · rw [hrun]
    by_cases he : e = e'
    · subst he
      right
      simp [CycleManager.arm, landings, harm]
    · left
      simp [CycleManager.arm, he]
  · rw [hrun]
    exact Or.inl ⟨rfl, rfl⟩

/-- After the calls an event is as before, or active and due at a cycle some call armed. -/
theorem runCalls_event (cm : CycleManager) (calls : List CmCall) (e : EventType) :
    ((runCalls cm calls).activeEvents e = cm.activeEvents e ∧
        (runCalls cm calls).events e = cm.events e) ∨
      ((runCalls cm calls).activeEvents e = true ∧
        (runCalls cm calls).events e ∈ landings cm.cycleCount cm.currentEventDue calls) := by
  induction calls generalizing cm with
  | nil => exact Or.inl ⟨rfl, rfl⟩
  | cons call calls ih =>
      rw [runCalls_cons, landings_cons]
      have hrest := ih (call.run cm)
      rw [CmCall.run_cycleCount, CmCall.run_currentEventDue] at hrest
      rcases hrest with ⟨ha, hd⟩ | ⟨ha, hd⟩
      · rw [ha, hd]
        rcases call.run_event cm e with h | ⟨ha', hd'⟩
        · exact Or.inl h
        · exact Or.inr ⟨ha', List.mem_append_left _ hd'⟩
      · exact Or.inr ⟨ha, List.mem_append_right _ hd⟩

/-- The cached minimum drops to at most every armed cycle. -/
theorem runCalls_nextEventCycle_le (cm : CycleManager) (calls : List CmCall) :
    (runCalls cm calls).nextEventCycle ≤ cm.nextEventCycle ∧
      ∀ d ∈ landings cm.cycleCount cm.currentEventDue calls,
        (runCalls cm calls).nextEventCycle ≤ d := by
  induction calls generalizing cm with
  | nil => simp [landings]
  | cons call calls ih =>
      rw [runCalls_cons, landings_cons]
      obtain ⟨hle, hall⟩ := ih (call.run cm)
      rw [CmCall.run_cycleCount, CmCall.run_currentEventDue] at hall
      rcases call.run_cases cm with ⟨d, e, harm, hrun⟩ | ⟨i, harm, hrun⟩
      · have hmin : (call.run cm).nextEventCycle = min d cm.nextEventCycle := by
          rw [hrun, CycleManager.arm_nextEventCycle]
        refine ⟨by omega, fun d' hd' => ?_⟩
        rcases List.mem_append.mp hd' with hd' | hd'
        · obtain rfl : d' = d := by simpa [landings, harm] using hd'
          omega
        · exact hall d' hd'
      · have hsame : (call.run cm).nextEventCycle = cm.nextEventCycle := by
          rw [hrun]
          rfl
        refine ⟨by omega, fun d' hd' => ?_⟩
        rcases List.mem_append.mp hd' with hd' | hd'
        · simp [landings, harm] at hd'
        · exact hall d' hd'

/-- The cached minimum is the old one or an armed cycle. -/
theorem runCalls_nextEventCycle_mem (cm : CycleManager) (calls : List CmCall) :
    (runCalls cm calls).nextEventCycle = cm.nextEventCycle ∨
      (runCalls cm calls).nextEventCycle ∈
        landings cm.cycleCount cm.currentEventDue calls := by
  induction calls generalizing cm with
  | nil => exact Or.inl rfl
  | cons call calls ih =>
      rw [runCalls_cons, landings_cons]
      have hrest := ih (call.run cm)
      rw [CmCall.run_cycleCount, CmCall.run_currentEventDue] at hrest
      rcases hrest with hsame | hmem
      · rw [hsame]
        rcases call.run_cases cm with ⟨d, e, harm, hrun⟩ | ⟨i, harm, hrun⟩
        · rw [hrun, CycleManager.arm_nextEventCycle]
          rcases Nat.le_total d cm.nextEventCycle with hle | hle
          · right
            rw [Nat.min_eq_left hle]
            exact List.mem_append_left _ (by simp [landings, harm])
          · left
            exact Nat.min_eq_right hle
        · rw [hrun]
          exact Or.inl rfl
      · exact Or.inr (List.mem_append_right _ hmem)

/-! ## Word-sized states -/

/-- Every counter is a `u32`. -/
structure CycleManager.WordSized (cm : CycleManager) : Prop where
  cycleCount : cm.cycleCount ≤ u32Max
  events : ∀ e, cm.events e ≤ u32Max
  nextEventCycle : cm.nextEventCycle ≤ u32Max
  currentEventDue : cm.currentEventDue ≤ u32Max

theorem CycleManager.WordSized.init : CycleManager.init.WordSized := by
  constructor <;> simp [CycleManager.init, u32Max]

/-- An event is armed for a `u32` cycle. -/
theorem CmCall.arms_le {clock due : ℕ} (hc : clock ≤ u32Max) {call : CmCall} {a : EventType × ℕ}
    (harm : call.arms clock due = some a) : a.2 ≤ u32Max := by
  cases call with
  | schedule n e =>
      obtain rfl := Option.some.inj harm
      have hn : n.toNat < 4294967296 := n.toNat_lt
      exact CycleManager.scheduledCycle_le hc (by unfold u32Max; omega)
  | scheduleFromDue n e =>
      obtain rfl := Option.some.inj harm
      exact CycleManager.cycleFromDue_le _ _
  | scheduleImm i => simp [CmCall.arms] at harm

theorem CycleManager.WordSized.arm {cm : CycleManager} (h : cm.WordSized) {d : ℕ}
    (hd : d ≤ u32Max) (e : EventType) : (cm.arm d e).WordSized where
  cycleCount := h.cycleCount
  events := by
    intro e'
    by_cases he : e' = e
    · subst he
      simpa [CycleManager.arm] using hd
    · simpa [CycleManager.arm, he] using h.events e'
  nextEventCycle := by
    have := h.nextEventCycle
    rw [CycleManager.arm_nextEventCycle]
    omega
  currentEventDue := h.currentEventDue

theorem CmCall.run_wordSized {cm : CycleManager} (h : cm.WordSized) (call : CmCall) :
    (call.run cm).WordSized := by
  rcases call.run_cases cm with ⟨d, e, harm, hrun⟩ | ⟨i, -, hrun⟩
  · rw [hrun]
    exact h.arm (CmCall.arms_le h.cycleCount harm) e
  · rw [hrun]
    exact ⟨h.cycleCount, h.events, h.nextEventCycle, h.currentEventDue⟩

theorem runCalls_wordSized {cm : CycleManager} (h : cm.WordSized) (calls : List CmCall) :
    (runCalls cm calls).WordSized := by
  induction calls generalizing cm with
  | nil => exact h
  | cons call calls ih => exact ih (CmCall.run_wordSized h call)

theorem CycleManager.WordSized.beginDispatch {cm : CycleManager} (h : cm.WordSized) {d : ℕ}
    (hd : d ≤ u32Max) (e : EventType) : (cm.beginDispatch e d).WordSized :=
  ⟨h.cycleCount, h.events, h.nextEventCycle, hd⟩

theorem wrappingSub_le {a b : ℕ} (ha : a ≤ u32Max) : wrappingSub a b ≤ u32Max := by
  unfold wrappingSub
  unfold u32Max at *
  split <;> omega

theorem CycleManager.WordSized.onOverflowEvent {cm : CycleManager} (h : cm.WordSized) :
    cm.onOverflowEvent.WordSized where
  cycleCount := Nat.zero_le _
  events := by
    intro e
    simp only [CycleManager.onOverflowEvent]
    split
    · exact wrappingSub_le (h.events e)
    · exact h.events e
  nextEventCycle := wrappingSub_le h.nextEventCycle
  currentEventDue := h.currentEventDue

theorem CycleManager.WordSized.recomputeNext {cm : CycleManager} (h : cm.WordSized) :
    cm.recomputeNext.WordSized :=
  ⟨h.cycleCount, h.events, (Agenda.least_le_start _ _ _).trans h.nextEventCycle,
    h.currentEventDue⟩

/-! ## One dispatch -/

/-- **What one dispatch does to an event**: it is as before (and not the dispatched one), or
inactive and the dispatched one, or active and due at a cycle the handler armed. -/
theorem beginDispatch_event (cm : CycleManager) (e : EventType) (due : ℕ) (calls : List CmCall)
    (e' : EventType) :
    (e' ≠ e ∧ (runCalls (cm.beginDispatch e due) calls).activeEvents e' = cm.activeEvents e' ∧
        (runCalls (cm.beginDispatch e due) calls).events e' = cm.events e') ∨
      (e' = e ∧ (runCalls (cm.beginDispatch e due) calls).activeEvents e' = false) ∨
      ((runCalls (cm.beginDispatch e due) calls).activeEvents e' = true ∧
        (runCalls (cm.beginDispatch e due) calls).events e' ∈
          landings cm.cycleCount due calls) := by
  rcases runCalls_event (cm.beginDispatch e due) calls e' with ⟨ha, hd⟩ | h
  · rw [ha, hd]
    by_cases he : e' = e
    · exact Or.inr (Or.inl ⟨he, by simp [CycleManager.beginDispatch, he]⟩)
    · exact Or.inl ⟨he, by simp [CycleManager.beginDispatch, he], rfl⟩
  · exact Or.inr (Or.inr h)

/-- Calls with positive deltas arm only cycles after the due cycle. -/
theorem due_lt_landing {clock due d : ℕ} {calls : List CmCall}
    (hpos : ∀ n e, CmCall.scheduleFromDue n e ∈ calls → 1 ≤ n.toNat) (hdue : due ≤ clock)
    (hmax : due < u32Max) (hd : d ∈ landings clock due calls) : due < d := by
  rw [landings, List.mem_map] at hd
  obtain ⟨⟨e', d'⟩, hmem, rfl⟩ := hd
  obtain ⟨call, hcall, harm⟩ := List.mem_filterMap.mp hmem
  cases call with
  | schedule n e₁ =>
      obtain ⟨-, rfl⟩ : e₁ = e' ∧ _ = d' := by simpa [CmCall.arms] using harm
      rcases CycleManager.scheduledCycle_gt clock n.toNat with h | h
      · exact hdue.trans_lt h
      · exact hmax.trans_le h
  | scheduleFromDue n e₁ =>
      obtain ⟨-, rfl⟩ : e₁ = e' ∧ _ = d' := by simpa [CmCall.arms] using harm
      rcases CycleManager.cycleFromDue_gt (hpos _ _ hcall) with h | h
      · exact h
      · exact h ▸ hmax
  | scheduleImm i => simp [CmCall.arms] at harm

/-- A dispatch lowers the load of the due events. -/
theorem runCalls_load_lt {cm : CycleManager} {e : EventType} {due : ℕ} {calls : List CmCall}
    (hpos : ∀ n e, CmCall.scheduleFromDue n e ∈ calls → 1 ≤ n.toNat)
    (h : cm.bestEvent = (some e, due)) :
    Agenda.load (runCalls (cm.beginDispatch e due) calls).dueKey cm.cycleCount <
      Agenda.load cm.dueKey cm.cycleCount := by
  obtain ⟨ha, hd, hle, hmax, -⟩ := CycleManager.bestEvent_some h
  have hclock : (runCalls (cm.beginDispatch e due) calls).cycleCount = cm.cycleCount := by
    rw [runCalls_cycleCount]
    rfl
  refine Agenda.load_lt (CycleManager.dueKey_eq_some.mpr ⟨ha, hd ▸ hle, hd⟩) hle fun e' => ?_
  rcases beginDispatch_event cm e due calls e' with ⟨hne, ha', hd'⟩ | ⟨-, ha'⟩ | ⟨-, hmem⟩
  · left
    refine ⟨hne, ?_⟩
    simp only [CycleManager.dueKey, ha', hd', hclock]
  · right
    intro d' hk
    have := (CycleManager.dueKey_eq_some.mp hk).1
    rw [ha'] at this
    simp at this
  · right
    intro d' hk
    obtain ⟨-, -, rfl⟩ := CycleManager.dueKey_eq_some.mp hk
    exact due_lt_landing hpos hle hmax hmem

/-! ## Handler tables made of calls -/

/-- Handlers that only call the scheduler's interface.  The `debug_assert!` of
`schedule_from_due` asks for a positive delta. -/
structure CallHandlers (D : Type*) where
  imm : ImmEventType → Emu D → List CmCall × D
  event : EventType → Emu D → List CmCall × D
  timersOnOverflow : ℕ → D → D
  delta_pos : ∀ e emu n e', CmCall.scheduleFromDue n e' ∈ (event e emu).1 → 1 ≤ n.toNat

variable {D : Type*}

/-- Execute a handler's calls and take over its change of the rest. -/
def Emu.apply (emu : Emu D) (r : List CmCall × D) : Emu D := ⟨runCalls emu.cm r.1, r.2⟩

/-- The handler tables of handlers that only make calls. -/
def CallHandlers.toHandlers (H : CallHandlers D) : Handlers D where
  imm e emu := emu.apply (H.imm e emu)
  event e emu := emu.apply (H.event e emu)
  timersOnOverflow := H.timersOnOverflow

/-- The calls made when an event is dispatched. -/
def CallHandlers.callsAt (H : CallHandlers D) (emu : Emu D) (e : EventType) (due : ℕ) :
    List CmCall :=
  (H.event e { emu with cm := emu.cm.beginDispatch e due }).1

/-- The cycles armed when an event is dispatched. -/
def CallHandlers.landingsAt (H : CallHandlers D) (emu : Emu D) (e : EventType) (due : ℕ) :
    List ℕ :=
  landings emu.cm.cycleCount due (H.callsAt emu e due)

theorem dispatch_cm (H : CallHandlers D) (emu : Emu D) (e : EventType) (due : ℕ) :
    (dispatch H.toHandlers e due emu).cm =
      runCalls (emu.cm.beginDispatch e due) (H.callsAt emu e due) := rfl

@[simp] theorem dispatch_cycleCount (H : CallHandlers D) (emu : Emu D) (e : EventType)
    (due : ℕ) : (dispatch H.toHandlers e due emu).cm.cycleCount = emu.cm.cycleCount := by
  rw [dispatch_cm, runCalls_cycleCount]
  rfl

/-- Handlers made of calls do not move the clock. -/
theorem drain_cycleCount (H : CallHandlers D) {fuel : ℕ} {emu : Emu D}
    {r : List (ℕ × EventType) × Emu D} (h : drain H.toHandlers fuel emu = some r) :
    r.2.cm.cycleCount = emu.cm.cycleCount :=
  drain_invariant H.toHandlers (I := fun t => t.cm.cycleCount = emu.cm.cycleCount)
    (fun t e due _ ht => by rw [dispatch_cycleCount, ht]) h rfl

/-- The drain keeps the counters word-sized. -/
theorem drain_wordSized (H : CallHandlers D) {fuel : ℕ} {emu : Emu D}
    {r : List (ℕ × EventType) × Emu D} (h : drain H.toHandlers fuel emu = some r)
    (hw : emu.cm.WordSized) : r.2.cm.WordSized := by
  refine drain_invariant H.toHandlers (I := fun t => t.cm.WordSized) ?_ h hw
  intro t e due hb ht
  obtain ⟨-, hd, -, -, -⟩ := CycleManager.bestEvent_some hb
  rw [dispatch_cm]
  exact runCalls_wordSized (ht.beginDispatch (hd ▸ ht.events e) e) _

/-! ## Immediate handlers -/

/-- Immediate handlers made of calls do not move the clock. -/
theorem dispatchImm_cycleCount (H : CallHandlers D) (emu : Emu D) :
    (dispatchImm H.toHandlers emu).cm.cycleCount = emu.cm.cycleCount :=
  dispatchImm_invariant H.toHandlers (I := fun t => t.cm.cycleCount = emu.cm.cycleCount)
    (fun t e ht => by
      show (runCalls t.cm (H.imm e t).1).cycleCount = emu.cm.cycleCount
      rw [runCalls_cycleCount, ht]) rfl

theorem dispatchImm_wordSized (H : CallHandlers D) {emu : Emu D} (hw : emu.cm.WordSized) :
    (dispatchImm H.toHandlers emu).cm.WordSized :=
  dispatchImm_invariant H.toHandlers (I := fun t => t.cm.WordSized)
    (fun _ _ ht => runCalls_wordSized ht _)
    ⟨hw.cycleCount, hw.events, hw.nextEventCycle, hw.currentEventDue⟩

theorem rebase_wordSized (H : Handlers D) {emu : Emu D} (hw : emu.cm.WordSized) :
    (rebase H emu).cm.WordSized := by
  unfold rebase
  split
  · exact hw.onOverflowEvent
  · exact hw

/-- A check keeps the counters word-sized. -/
theorem cmCheckEvents_wordSized (H : CallHandlers D) {fuel : ℕ} {emu : Emu D}
    {r : CheckResult D} (h : cmCheckEvents H.toHandlers fuel emu = some r)
    (hw : emu.cm.WordSized) : r.emu.cm.WordSized := by
  have himm := dispatchImm_wordSized H hw
  obtain ⟨-, ⟨-, -, -, hr⟩ | ⟨-, -, t, ht, hr⟩⟩ := cmCheckEvents_cases h
  · rw [hr]
    exact himm
  · rw [hr]
    have hstart : (forgetNext (dispatchImm H.toHandlers emu)).cm.WordSized :=
      ⟨himm.cycleCount, himm.events, le_refl _, himm.currentEventDue⟩
    exact rebase_wordSized _ (drain_wordSized H ht hstart).recomputeNext

/-! ## The dispatch loop ends -/

/-- The dispatch loop ends when every dispatch keeps the clock and lowers the load of the due
events; `I` is what the states of the loop have in common. -/
theorem drain_ends {H : Handlers D} {I : Emu D → Prop}
    (hI : ∀ emu e due, I emu → emu.cm.bestEvent = (some e, due) →
      I (dispatch H e due emu) ∧ (dispatch H e due emu).cm.cycleCount = emu.cm.cycleCount ∧
      Agenda.load (dispatch H e due emu).cm.dueKey emu.cm.cycleCount <
        Agenda.load emu.cm.dueKey emu.cm.cycleCount)
    (fuel : ℕ) (emu : Emu D) (hs : I emu)
    (h : Agenda.load emu.cm.dueKey emu.cm.cycleCount < fuel) :
    ∃ r, drain H fuel emu = some r := by
  induction fuel generalizing emu with
  | zero => omega
  | succ fuel ih =>
      rcases hb : emu.cm.bestEvent with ⟨_ | e, due⟩
      · exact ⟨_, drain_none (by rw [hb]) fuel⟩
      · obtain ⟨hs', hclock, hlt⟩ := hI emu e due hs hb
        obtain ⟨r, hr⟩ := ih (dispatch H e due emu) hs' (by
          rw [hclock]
          omega)
        exact ⟨_, by rw [drain_some hb, hr]; rfl⟩

/-- **The dispatch loop ends**: fuel above the load of the due events suffices. -/
theorem drain_terminates (H : CallHandlers D) (fuel : ℕ) (emu : Emu D)
    (h : Agenda.load emu.cm.dueKey emu.cm.cycleCount < fuel) :
    ∃ r, drain H.toHandlers fuel emu = some r := by
  refine drain_ends (I := fun _ => True) (fun emu e due _ hb => ⟨trivial, ?_, ?_⟩) fuel emu trivial h
  · exact dispatch_cycleCount H emu e due
  · exact runCalls_load_lt (H.delta_pos _ _) hb

/-- Every check returns, given fuel. -/
theorem cmCheckEvents_terminates (H : CallHandlers D) (emu : Emu D) :
    ∃ fuel r, cmCheckEvents H.toHandlers fuel emu = some r := by
  set start := dispatchImm H.toHandlers emu with hstart
  by_cases hlt : start.cm.cycleCount < start.cm.nextEventCycle
  · exact ⟨0, ⟨emu.cm.pendingImm, [], false, start⟩, if_pos hlt⟩
  · obtain ⟨fuel, r, hr⟩ : ∃ fuel r, drain H.toHandlers fuel (forgetNext start) = some r :=
      ⟨_, drain_terminates H _ _ (Nat.lt_succ_self _)⟩
    refine ⟨fuel, ⟨emu.cm.pendingImm, r.1, true, rebase H.toHandlers (recompute r.2)⟩, ?_⟩
    rw [cmCheckEvents, ← hstart]
    simp only [if_neg hlt]
    rw [hr]
    rfl

end AdvancedSlop
