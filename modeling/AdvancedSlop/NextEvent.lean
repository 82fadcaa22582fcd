/-
# The next-event cycle after a check

`cm_check_events` forgets `next_event_cycle`, drains every due event and recomputes the minimum
of the active due cycles.  The recomputation only ever lowers the value, and every call of the
interface in a handler lowers it too: a catch-up (an event armed for a cycle that is not after
the clock), or an arm that a later one replaces, leaves a value below everything that stands on
the schedule.  The rebase then subtracts the clock from it.

* `cmCheckEvents_next_event_iff` : in every reachable state the next-event law holds after a
  check exactly when the drain neither catches up nor leaves a replaced cycle behind and, past
  the rebase limit, leaves an event on the schedule;
* `next_event_underflow` : one late slice at the rebase point.
-/
import AdvancedSlop.CallHandlers
import AdvancedSlop.TransitionSystem

namespace AdvancedSlop

open TransitionSystem

variable {D : Type*}

/-! ## Runs of the scheduler -/

/-- What happens to the scheduler between two looks at it: the rest of the emulator changes, the
clock advances by a slice, the guest makes a call, the clock jumps, or the events are checked. -/
inductive SchedAction (D : Type*)
  | guest (dev : D)
  | addCycles (n : UInt16)
  | call (call : CmCall)
  | jumpToNextEvent
  | checkEvents (fuel : ℕ)

/-- One step of the scheduler. -/
def schedStep (H : CallHandlers D) (emu : Emu D) : SchedAction D → Option (Emu D)
  | .guest dev => some ⟨emu.cm, dev⟩
  | .addCycles n => some ⟨emu.cm.addCycles n.toNat, emu.dev⟩
  | .call call => some ⟨call.run emu.cm, emu.dev⟩
  | .jumpToNextEvent => some ⟨emu.cm.jumpToNextEvent, emu.dev⟩
  | .checkEvents fuel => (cmCheckEvents H.toHandlers fuel emu).map (·.emu)

/-- The states some run from a fresh scheduler reaches. -/
def SchedReachable (H : CallHandlers D) (emu : Emu D) : Prop :=
  ∃ dev, Reaches (schedStep H) (fun _ _ => True) ⟨CycleManager.init, dev⟩ emu

theorem schedStep_wordSized (H : CallHandlers D) {emu emu' : Emu D} {a : SchedAction D}
    (hw : emu.cm.WordSized) (h : schedStep H emu a = some emu') : emu'.cm.WordSized := by
  cases a with
  | guest dev =>
      obtain rfl := Option.some.inj h
      exact hw
  | addCycles n =>
      obtain rfl := Option.some.inj h
      refine ⟨?_, hw.events, hw.nextEventCycle, hw.currentEventDue⟩
      have := Nat.mod_lt (emu.cm.cycleCount + n.toNat) (show 4294967296 > 0 by decide)
      simp only [CycleManager.addCycles, u32Max]
      omega
  | call call =>
      obtain rfl := Option.some.inj h
      exact CmCall.run_wordSized hw call
  | jumpToNextEvent =>
      obtain rfl := Option.some.inj h
      simp only [CycleManager.jumpToNextEvent]
      split
      · exact ⟨hw.nextEventCycle, hw.events, hw.nextEventCycle, hw.currentEventDue⟩
      · exact hw
  | checkEvents fuel =>
      obtain ⟨r, hr, rfl⟩ := Option.map_eq_some_iff.mp h
      exact cmCheckEvents_wordSized H hr hw

/-- Reachable states are word-sized. -/
theorem SchedReachable.wordSized {H : CallHandlers D} {emu : Emu D}
    (h : SchedReachable H emu) : emu.cm.WordSized := by
  obtain ⟨dev, h⟩ := h
  exact h.invariant (I := fun t => t.cm.WordSized)
    (fun _ _ _ hw _ hstep => schedStep_wordSized H hw hstep) CycleManager.WordSized.init

/-! ## The next-event law -/

/-- No active event is due, and the cached cycle is the least active due cycle. -/
structure CycleManager.Settled (cm : CycleManager) : Prop where
  none_due : ∀ e, cm.activeEvents e = true → cm.cycleCount < cm.events e
  next : cm.nextEventCycle = cm.leastDue

/-- The rebase subtracts without underflow, and every active event keeps its distance to the
clock (which restarts at 0). -/
structure CycleManager.RebaseSafe (cm : CycleManager) : Prop where
  next : cm.cycleCount < cm.nextEventCycle
  events : ∀ e, cm.activeEvents e = true →
    cm.cycleCount < cm.events e ∧
      cm.onOverflowEvent.events e = cm.events e - cm.cycleCount

/-- The law of a check that drained: the state it leaves is settled, and the rebase, where it
takes place, is safe. -/
structure NextEventLaw (H : CallHandlers D) (fuel : ℕ) (emu : Emu D) (r : CheckResult D) :
    Prop where
  settled : r.emu.cm.Settled
  rebase_safe : ∀ tr t, drain H.toHandlers fuel (forgetNext (dispatchImm H.toHandlers emu)) =
    some (tr, t) → rebaseLimit < t.cm.cycleCount → t.cm.recomputeNext.RebaseSafe

/-! ## The arms of a drain -/

/-- The arms made when an event is dispatched, in order. -/
def CallHandlers.armsAt (H : CallHandlers D) (emu : Emu D) (e : EventType) (due : ℕ) :
    List (EventType × ℕ) :=
  (H.callsAt emu e due).filterMap (CmCall.arms emu.cm.cycleCount due)

/-- The arms the handlers of a drain make, in order. -/
def armLog (H : CallHandlers D) : ℕ → Emu D → List (EventType × ℕ)
  | 0, _ => []
  | fuel + 1, emu =>
      match emu.cm.bestEvent with
      | (none, _) => []
      | (some e, due) =>
          H.armsAt emu e due ++ armLog H fuel (dispatch H.toHandlers e due emu)

/-- Arm events in order on a schedule. -/
def replay (sched : EventType → Option ℕ) (log : List (EventType × ℕ)) :
    EventType → Option ℕ :=
  log.foldl (fun sched a => Function.update sched a.1 (some a.2)) sched

/-- The active events that are after the clock. -/
def CycleManager.laterKey (cm : CycleManager) (e : EventType) : Option ℕ :=
  (cm.activeKey e).filter fun d => cm.cycleCount < d

/-- The schedule that stands when the arms of a drain are made on the events that were not due. -/
def standing (H : CallHandlers D) (fuel : ℕ) (emu : Emu D) : EventType → Option ℕ :=
  replay emu.cm.laterKey (armLog H fuel emu)

/-- **The condition of the law**: no arm is a catch-up, every armed cycle is still covered by
what stands on the schedule, and past the rebase limit something stands there. -/
structure OnTime (H : CallHandlers D) (fuel : ℕ) (emu : Emu D) : Prop where
  after_clock : ∀ a ∈ armLog H fuel emu, emu.cm.cycleCount < a.2
  covered : ∀ a ∈ armLog H fuel emu, ∃ e d, standing H fuel emu e = some d ∧ d ≤ a.2
  nonempty : rebaseLimit < emu.cm.cycleCount → ∃ e d, standing H fuel emu e = some d

theorem replay_append (sched : EventType → Option ℕ) (log log' : List (EventType × ℕ)) :
    replay sched (log ++ log') = replay (replay sched log) log' := by
  unfold replay
  rw [List.foldl_append]

/-- Arming cycles that pass a test commutes with keeping what passes it. -/
theorem replay_filter (p : ℕ → Bool) (sched : EventType → Option ℕ)
    (log : List (EventType × ℕ)) (h : ∀ a ∈ log, p a.2 = true) :
    (fun e => (replay sched log e).filter p) = replay (fun e => (sched e).filter p) log := by
  induction log generalizing sched with
  | nil => rfl
  | cons a log ih =>
      have hstep : (fun e => (Function.update sched a.1 (some a.2) e).filter p) =
          Function.update (fun e => (sched e).filter p) a.1 (some a.2) := by
        funext e
        by_cases he : e = a.1
        · subst he
          simp [h a List.mem_cons_self]
        · simp [he]
      show (fun e => (replay (Function.update sched a.1 (some a.2)) log e).filter p) =
        replay (Function.update (fun e => (sched e).filter p) a.1 (some a.2)) log
      rw [ih _ fun b hb => h b (List.mem_cons_of_mem _ hb), hstep]

/-- An arm leaves its event on the schedule. -/
theorem replay_isSome (sched : EventType → Option ℕ) {log : List (EventType × ℕ)}
    {e : EventType} (h : (sched e).isSome ∨ ∃ a ∈ log, a.1 = e) :
    (replay sched log e).isSome := by
  induction log generalizing sched with
  | nil => simpa [replay] using h
  | cons a log ih =>
      apply ih
      by_cases he : a.1 = e
      · exact Or.inl (by simp [he])
      · rcases h with h | ⟨b, hb, hbe⟩
        · exact Or.inl (by simpa [Function.update_of_ne (Ne.symm he)] using h)
        · rcases List.mem_cons.mp hb with rfl | hb
          · exact absurd hbe he
          · exact Or.inr ⟨b, hb, hbe⟩

theorem CycleManager.arm_activeKey (cm : CycleManager) (d : ℕ) (e : EventType) :
    (cm.arm d e).activeKey = Function.update cm.activeKey e (some d) := by
  funext e'
  by_cases he : e' = e
  · subst he
    simp [CycleManager.activeKey, CycleManager.arm]
  · simp [CycleManager.activeKey, CycleManager.arm, he]

/-- The schedule after a list of calls is the old one with their arms made. -/
theorem runCalls_activeKey (cm : CycleManager) (calls : List CmCall) :
    (runCalls cm calls).activeKey =
      replay cm.activeKey
        (calls.filterMap (CmCall.arms cm.cycleCount cm.currentEventDue)) := by
  induction calls generalizing cm with
  | nil => rfl
  | cons call calls ih =>
      have hrest := ih (call.run cm)
      rw [CmCall.run_cycleCount, CmCall.run_currentEventDue] at hrest
      rw [runCalls_cons, hrest, List.filterMap_cons]
      rcases call.run_cases cm with ⟨d, e, harm, hrun⟩ | ⟨i, harm, hrun⟩
      · rw [harm, hrun, CycleManager.arm_activeKey]
        rfl
      · rw [harm, hrun]
        rfl

theorem armLog_none (H : CallHandlers D) {emu : Emu D} (h : emu.cm.bestEvent.1 = none)
    (fuel : ℕ) : armLog H (fuel + 1) emu = [] := by
  rw [armLog]
  rcases hb : emu.cm.bestEvent with ⟨_ | e, due⟩
  · rfl
  · rw [hb] at h
    simp at h

theorem armLog_some (H : CallHandlers D) {emu : Emu D} {e : EventType} {due : ℕ}
    (h : emu.cm.bestEvent = (some e, due)) (fuel : ℕ) :
    armLog H (fuel + 1) emu =
      H.armsAt emu e due ++ armLog H fuel (dispatch H.toHandlers e due emu) := by
  rw [armLog, h]

/-- Every arm is for a `u32` cycle. -/
theorem armLog_le (H : CallHandlers D) (fuel : ℕ) {emu : Emu D}
    (hc : emu.cm.cycleCount ≤ u32Max) : ∀ a ∈ armLog H fuel emu, a.2 ≤ u32Max := by
  induction fuel generalizing emu with
  | zero => simp [armLog]
  | succ fuel ih =>
      rcases hb : emu.cm.bestEvent with ⟨_ | e, due⟩
      · simp [armLog_none H (show emu.cm.bestEvent.1 = none by rw [hb])]
      · intro a ha
        rw [armLog_some H hb] at ha
        rcases List.mem_append.mp ha with ha | ha
        · obtain ⟨call, -, harm⟩ := List.mem_filterMap.mp ha
          exact CmCall.arms_le hc harm
        · exact ih (by rw [dispatch_cycleCount]; exact hc) a ha

/-- What stands on a schedule was there before, or some arm put it there. -/
theorem replay_mem {sched : EventType → Option ℕ} {log : List (EventType × ℕ)} {e : EventType}
    {d : ℕ} (h : replay sched log e = some d) : sched e = some d ∨ ∃ a ∈ log, a.2 = d := by
  induction log generalizing sched with
  | nil => exact Or.inl h
  | cons a log ih =>
      rcases ih h with h' | ⟨b, hb, hbd⟩
      · by_cases he : e = a.1
        · subst he
          right
          exact ⟨a, List.mem_cons_self, by simpa using h'⟩
        · left
          simpa [he] using h'
      · exact Or.inr ⟨b, List.mem_cons_of_mem _ hb, hbd⟩

/-! ## What a drain leaves -/

/-- The events after the clock once an event is dispatched on time. -/
theorem dispatch_laterKey (H : CallHandlers D) {emu : Emu D} {e : EventType} {due : ℕ}
    (hb : emu.cm.bestEvent = (some e, due))
    (h : ∀ a ∈ H.armsAt emu e due, emu.cm.cycleCount < a.2) :
    (dispatch H.toHandlers e due emu).cm.laterKey =
      replay emu.cm.laterKey (H.armsAt emu e due) := by
  obtain ⟨-, hd, hle, -, -⟩ := CycleManager.bestEvent_some hb
  have hbegin : (fun e' => ((emu.cm.beginDispatch e due).activeKey e').filter
      fun d => emu.cm.cycleCount < d) = emu.cm.laterKey := by
    funext e'
    unfold CycleManager.laterKey CycleManager.activeKey
    by_cases he : e' = e
    · subst he
      have hlt : ¬ emu.cm.cycleCount < emu.cm.events e' := by omega
      by_cases ha : emu.cm.activeEvents e' = true
      · simp [CycleManager.beginDispatch, ha, Option.filter_some, hlt]
      · simp [CycleManager.beginDispatch, ha]
    · simp [CycleManager.beginDispatch, he]
  rw [← hbegin, CallHandlers.armsAt, ← replay_filter]
  · funext e'
    rw [CycleManager.laterKey, dispatch_cycleCount, dispatch_cm, runCalls_activeKey]
    rfl
  · intro a ha
    exact decide_eq_true (h a ha)

/-- **A drain without catch-up leaves exactly the standing schedule active.** -/
theorem drain_activeKey (H : CallHandlers D) {fuel : ℕ} {emu : Emu D}
    {r : List (ℕ × EventType) × Emu D} (h : drain H.toHandlers fuel emu = some r)
    (hc : emu.cm.cycleCount < u32Max)
    (hA : ∀ a ∈ armLog H fuel emu, emu.cm.cycleCount < a.2) :
    r.2.cm.activeKey = standing H fuel emu := by
  refine drain_induction (H := H.toHandlers)
    (P := fun fuel emu r => emu.cm.cycleCount < u32Max →
      (∀ a ∈ armLog H fuel emu, emu.cm.cycleCount < a.2) →
      r.2.cm.activeKey = standing H fuel emu) ?_ ?_ h hc hA
  · intro fuel emu hb hc _
    rw [standing, armLog_none H hb]
    funext e
    show emu.cm.activeKey e = (emu.cm.activeKey e).filter _
    cases hk : emu.cm.activeKey e with
    | none => rfl
    | some d =>
        -- an active event that is not due is after the clock
        obtain ⟨ha, rfl⟩ := CycleManager.activeKey_eq_some.mp hk
        have hlt : emu.cm.cycleCount < emu.cm.events e := by
          by_contra hle
          have := (CycleManager.bestEvent_none_iff emu.cm).mp hb e ha (by omega)
          omega
        simp [Option.filter_some, hlt]
  · intro fuel emu e due r hb ih hc hA
    have hlog := armLog_some H hb fuel
    rw [hlog] at hA
    have hrest := ih (by rw [dispatch_cycleCount]; exact hc) (by
      intro a ha
      rw [dispatch_cycleCount]
      exact hA a (List.mem_append_right _ ha))
    rw [hrest, standing, standing, hlog, replay_append,
      dispatch_laterKey H hb fun a ha => hA a (List.mem_append_left _ ha)]

/-- What a drain leaves in `next_event_cycle`: at most the old value and every armed cycle, and
one of these. -/
theorem drain_nextEventCycle (H : CallHandlers D) {fuel : ℕ} {emu : Emu D}
    {r : List (ℕ × EventType) × Emu D} (h : drain H.toHandlers fuel emu = some r) :
    r.2.cm.nextEventCycle ≤ emu.cm.nextEventCycle ∧
      (∀ a ∈ armLog H fuel emu, r.2.cm.nextEventCycle ≤ a.2) ∧
      (r.2.cm.nextEventCycle = emu.cm.nextEventCycle ∨
        ∃ a ∈ armLog H fuel emu, a.2 = r.2.cm.nextEventCycle) := by
  refine drain_induction (H := H.toHandlers)
    (P := fun fuel emu r => r.2.cm.nextEventCycle ≤ emu.cm.nextEventCycle ∧
      (∀ a ∈ armLog H fuel emu, r.2.cm.nextEventCycle ≤ a.2) ∧
      (r.2.cm.nextEventCycle = emu.cm.nextEventCycle ∨
        ∃ a ∈ armLog H fuel emu, a.2 = r.2.cm.nextEventCycle)) ?_ ?_ h
  · intro fuel emu hb
    rw [armLog_none H hb]
    exact ⟨le_refl _, by simp, Or.inl rfl⟩
  · intro fuel emu e due r hb ⟨hle, hall, hmem⟩
    have hlog := armLog_some H hb fuel
    have hland : landings (emu.cm.beginDispatch e due).cycleCount
        (emu.cm.beginDispatch e due).currentEventDue (H.callsAt emu e due) =
          (H.armsAt emu e due).map Prod.snd := rfl
    obtain ⟨hcall, hcalls⟩ :=
      runCalls_nextEventCycle_le (emu.cm.beginDispatch e due) (H.callsAt emu e due)
    have hcall' :=
      runCalls_nextEventCycle_mem (emu.cm.beginDispatch e due) (H.callsAt emu e due)
    rw [← dispatch_cm, hland] at hcalls hcall'
    rw [← dispatch_cm] at hcall
    rw [hlog]
    refine ⟨hle.trans hcall, ?_, ?_⟩
    · intro a ha
      rcases List.mem_append.mp ha with ha | ha
      · exact hle.trans (hcalls a.2 (List.mem_map_of_mem ha))
      · exact hall a ha
    · rcases hmem with heq | ⟨a, ha, heq⟩
      · rw [heq]
        rcases hcall' with hsame | hmem
        · exact Or.inl hsame
        · obtain ⟨a, ha, heq⟩ := List.mem_map.mp hmem
          exact Or.inr ⟨a, List.mem_append_left _ ha, heq⟩
      · exact Or.inr ⟨a, List.mem_append_right _ ha, heq⟩

/-! ## The law -/

/-- Past the limit the recomputed schedule is rebased. -/
theorem rebase_recompute_of_lt (H : Handlers D) {t : Emu D}
    (h : rebaseLimit < t.cm.cycleCount) :
    (rebase H (recompute t)).cm = t.cm.recomputeNext.onOverflowEvent := by
  rw [rebase, if_pos (show rebaseLimit < (recompute t).cm.cycleCount from h)]
  rfl

/-- Up to the limit it stays. -/
theorem rebase_recompute_of_not_lt (H : Handlers D) {t : Emu D}
    (h : ¬ rebaseLimit < t.cm.cycleCount) :
    (rebase H (recompute t)).cm = t.cm.recomputeNext := by
  rw [rebase, if_neg (show ¬ rebaseLimit < (recompute t).cm.cycleCount from h)]
  rfl

/-- On-time drains run before the end of the counter. -/
theorem OnTime.clock_lt {H : CallHandlers D} {fuel : ℕ} {emu : Emu D}
    (hw : emu.cm.WordSized) (h : OnTime H fuel emu) : emu.cm.cycleCount < u32Max := by
  by_contra hge
  have hlimit : rebaseLimit < emu.cm.cycleCount := by
    have : rebaseLimit < u32Max := by decide
    omega
  obtain ⟨e, d, hd⟩ := h.nonempty hlimit
  -- nothing is after the clock at the end of the counter
  rcases replay_mem hd with hk | ⟨a, ha, rfl⟩
  · obtain ⟨hk, hlt⟩ := Option.filter_eq_some_iff.mp hk
    obtain ⟨-, rfl⟩ := CycleManager.activeKey_eq_some.mp hk
    have := hw.events e
    have := of_decide_eq_true hlt
    omega
  · have := h.after_clock a ha
    have := armLog_le H fuel hw.cycleCount a ha
    omega

/-- After an on-time drain the recomputation settles the schedule. -/
theorem OnTime.recompute_settled {H : CallHandlers D} {fuel : ℕ} {emu t : Emu D}
    {tr : List (ℕ × EventType)} (hw : emu.cm.WordSized)
    (hnext : emu.cm.nextEventCycle = u32Max) (h : OnTime H fuel emu)
    (hd : drain H.toHandlers fuel emu = some (tr, t)) : t.cm.recomputeNext.Settled := by
  have hc := h.clock_lt hw
  have hclock := drain_cycleCount H hd
  have hkey := drain_activeKey H hd hc h.after_clock
  obtain ⟨-, -, hmem⟩ := drain_nextEventCycle H hd
  have hle := (drain_wordSized H hd hw).nextEventCycle
  simp only at hclock hkey hmem hle
  refine ⟨fun e ha => ?_, ?_⟩
  · by_contra hge
    have := (CycleManager.bestEvent_none_iff t.cm).mp (drain_bestEvent hd) e ha (by
      have : t.cm.events e ≤ t.cm.cycleCount := Nat.le_of_not_lt hge
      exact this)
    have : t.cm.events e ≤ t.cm.cycleCount := Nat.le_of_not_lt hge
    omega
  · show Agenda.least t.cm.activeKey EventType.all t.cm.nextEventCycle =
      Agenda.least t.cm.activeKey EventType.all u32Max
    apply Nat.le_antisymm
    · rcases Agenda.least_mem t.cm.activeKey EventType.all u32Max with hm | ⟨e, he, hm⟩
      · rw [hm]
        exact (Agenda.least_le_start _ _ _).trans hle
      · exact Agenda.least_le _ _ _ he hm
    · rcases Agenda.least_mem t.cm.activeKey EventType.all t.cm.nextEventCycle with
        hm | ⟨e, he, hm⟩
      · rw [hm]
        rcases hmem with heq | ⟨a, ha, heq⟩
        · rw [heq, hnext]
          exact Agenda.least_le_start _ _ _
        · -- the cached value is an armed cycle, and what stands covers it
          obtain ⟨e, d, hstand, hda⟩ := h.covered a ha
          rw [← hkey] at hstand
          rw [← heq]
          exact (Agenda.least_le _ _ _ (EventType.mem_all e) hstand).trans hda
      · exact Agenda.least_le _ _ _ he hm

theorem CycleManager.Settled.next_le {cm : CycleManager} (h : cm.Settled) {e : EventType}
    (ha : cm.activeEvents e = true) : cm.nextEventCycle ≤ cm.events e :=
  h.next ▸ CycleManager.leastDue_le ha

/-- A settled schedule with an active event is rebased safely, and is settled afterwards. -/
theorem CycleManager.Settled.rebaseSafe {cm : CycleManager} (h : cm.Settled) (hw : cm.WordSized)
    {e : EventType} (ha : cm.activeEvents e = true) :
    cm.RebaseSafe ∧ cm.onOverflowEvent.Settled := by
  have hevent : ∀ e', cm.activeEvents e' = true →
      cm.onOverflowEvent.events e' = cm.events e' - cm.cycleCount := by
    intro e' ha'
    simp only [CycleManager.onOverflowEvent, ha', if_true]
    exact wrappingSub_of_le (h.none_due e' ha').le
  have hleast : ∀ e', cm.activeEvents e' = true → cm.nextEventCycle ≤ cm.events e' :=
    fun _ => h.next_le
  -- the least due cycle is the due cycle of an active event
  obtain ⟨e₀, ha₀, hd₀⟩ : ∃ e₀, cm.activeEvents e₀ = true ∧ cm.events e₀ = cm.nextEventCycle := by
    rcases cm.leastDue_mem with hm | ⟨e₀, ha₀, hd₀⟩
    · have := hleast e ha
      have := hw.events e
      rw [← h.next] at hm
      exact ⟨e, ha, by omega⟩
    · exact ⟨e₀, ha₀, hd₀.trans h.next.symm⟩
  have hnext : cm.cycleCount < cm.nextEventCycle := hd₀ ▸ h.none_due e₀ ha₀
  have hnext' : cm.onOverflowEvent.nextEventCycle = cm.nextEventCycle - cm.cycleCount :=
    wrappingSub_of_le hnext.le
  refine ⟨⟨hnext, fun e' ha' => ⟨h.none_due e' ha', hevent e' ha'⟩⟩, fun e' ha' => ?_, ?_⟩
  · rw [hevent e' ha']
    have := h.none_due e' ha'
    show 0 < _
    omega
  · apply Nat.le_antisymm
    · rcases cm.onOverflowEvent.leastDue_mem with hm | ⟨e', ha', hd'⟩
      · rw [hm, hnext']
        have := hw.nextEventCycle
        omega
      · have := hleast e' ha'
        rw [← hd', hevent e' ha', hnext']
        omega
    · have hle : cm.onOverflowEvent.leastDue ≤ cm.onOverflowEvent.events e₀ :=
        CycleManager.leastDue_le ha₀
      rw [hevent e₀ ha₀, hd₀] at hle
      rw [hnext']
      exact hle

/-- A law-abiding check had its recomputed cycle after the clock. -/
theorem NextEventLaw.clock_lt_next {H : CallHandlers D} {fuel : ℕ} {emu t : Emu D}
    {r : CheckResult D} {tr : List (ℕ × EventType)}
    (hd : drain H.toHandlers fuel (forgetNext (dispatchImm H.toHandlers emu)) = some (tr, t))
    (hr : r.emu = rebase H.toHandlers (recompute t)) (h : NextEventLaw H fuel emu r) :
    t.cm.cycleCount < t.cm.recomputeNext.nextEventCycle := by
  by_cases hlimit : rebaseLimit < t.cm.cycleCount
  · exact (h.rebase_safe tr t hd hlimit).next
  · have hsettled := h.settled
    rw [hr, rebase_recompute_of_not_lt _ hlimit] at hsettled
    rcases t.cm.recomputeNext.leastDue_mem with hm | ⟨e, ha, hm⟩
    · have hlt : rebaseLimit < u32Max := by decide
      have hnext : t.cm.recomputeNext.nextEventCycle = u32Max := hsettled.next.trans hm
      omega
    · have hlt := hsettled.none_due e ha
      rw [hm, ← hsettled.next] at hlt
      exact hlt

/-- The condition is enough: after an on-time drain the law holds. -/
theorem OnTime.nextEventLaw {H : CallHandlers D} {fuel : ℕ} {emu t : Emu D} {r : CheckResult D}
    {tr : List (ℕ × EventType)} (hw : emu.cm.WordSized)
    (hd : drain H.toHandlers fuel (forgetNext (dispatchImm H.toHandlers emu)) = some (tr, t))
    (hr : r.emu = rebase H.toHandlers (recompute t))
    (h : OnTime H fuel (forgetNext (dispatchImm H.toHandlers emu))) :
    NextEventLaw H fuel emu r := by
  set start := forgetNext (dispatchImm H.toHandlers emu) with hstart
  have himm := dispatchImm_wordSized H hw
  have hws : start.cm.WordSized :=
    ⟨himm.cycleCount, himm.events, le_refl _, himm.currentEventDue⟩
  have hclock : t.cm.cycleCount = start.cm.cycleCount := drain_cycleCount H hd
  have hsettled := h.recompute_settled hws rfl hd
  have hwt : t.cm.recomputeNext.WordSized := (drain_wordSized H hd hws).recomputeNext
  by_cases hlimit : rebaseLimit < t.cm.cycleCount
  · -- past the limit some event stands on the schedule, so it is active
    obtain ⟨e, d, hstand⟩ := h.nonempty (by omega)
    rw [← drain_activeKey H hd (h.clock_lt hws) h.after_clock] at hstand
    have ha : t.cm.recomputeNext.activeEvents e = true :=
      (CycleManager.activeKey_eq_some.mp hstand).1
    obtain ⟨hsafe, hafter⟩ := hsettled.rebaseSafe hwt ha
    constructor
    · rw [hr, rebase_recompute_of_lt _ hlimit]
      exact hafter
    · intro tr' t' hd' _
      obtain ⟨-, rfl⟩ : tr = tr' ∧ t = t' := by simpa using hd.symm.trans hd'
      exact hsafe
  · constructor
    · rw [hr, rebase_recompute_of_not_lt _ hlimit]
      exact hsettled
    · intro tr' t' hd' hlimit'
      obtain ⟨-, rfl⟩ : tr = tr' ∧ t = t' := by simpa using hd.symm.trans hd'
      exact absurd hlimit' hlimit

/-- The condition is needed: a law-abiding check had an on-time drain. -/
theorem NextEventLaw.onTime {H : CallHandlers D} {fuel : ℕ} {emu t : Emu D} {r : CheckResult D}
    {tr : List (ℕ × EventType)} (hw : emu.cm.WordSized)
    (hd : drain H.toHandlers fuel (forgetNext (dispatchImm H.toHandlers emu)) = some (tr, t))
    (hr : r.emu = rebase H.toHandlers (recompute t)) (h : NextEventLaw H fuel emu r) :
    OnTime H fuel (forgetNext (dispatchImm H.toHandlers emu)) := by
  have hlt := h.clock_lt_next hd hr
  set start := forgetNext (dispatchImm H.toHandlers emu) with hstart
  have himm := dispatchImm_wordSized H hw
  have hws : start.cm.WordSized :=
    ⟨himm.cycleCount, himm.events, le_refl _, himm.currentEventDue⟩
  have hclock : t.cm.cycleCount = start.cm.cycleCount := drain_cycleCount H hd
  obtain ⟨-, hall, -⟩ := drain_nextEventCycle H hd
  have hwt := drain_wordSized H hd hws
  have hnext : t.cm.recomputeNext.nextEventCycle ≤ t.cm.nextEventCycle :=
    Agenda.least_le_start _ _ _
  have hmax : t.cm.nextEventCycle ≤ u32Max := hwt.nextEventCycle
  have hafter : ∀ a ∈ armLog H fuel start, start.cm.cycleCount < a.2 := by
    intro a ha
    have := hall a ha
    simp only at this
    omega
  have hkey : t.cm.activeKey = standing H fuel start := drain_activeKey H hd (by omega) hafter
  -- the recomputed cycle is the end of the counter or stands on the schedule
  have hstands : t.cm.recomputeNext.nextEventCycle = u32Max ∨
      ∃ e, standing H fuel start e = some t.cm.recomputeNext.nextEventCycle := by
    rcases Agenda.least_mem t.cm.activeKey EventType.all t.cm.nextEventCycle with
      hm | ⟨e, -, hm⟩
    · by_cases hlimit : rebaseLimit < t.cm.cycleCount
      · have hsettled := h.settled
        rw [hr, rebase_recompute_of_lt _ hlimit] at hsettled
        have hsub : t.cm.recomputeNext.onOverflowEvent.nextEventCycle =
            t.cm.recomputeNext.nextEventCycle - t.cm.cycleCount := wrappingSub_of_le hlt.le
        have hleast : t.cm.recomputeNext.onOverflowEvent.leastDue =
            t.cm.recomputeNext.nextEventCycle - t.cm.cycleCount :=
          hsettled.next.symm.trans hsub
        rcases t.cm.recomputeNext.onOverflowEvent.leastDue_mem with hm' | ⟨e, ha, hd'⟩
        · omega
        · right
          have hev := (h.rebase_safe tr t hd hlimit).events e ha
          refine ⟨e, hkey ▸ CycleManager.activeKey_eq_some.mpr ⟨ha, ?_⟩⟩
          have h₁ : t.cm.recomputeNext.onOverflowEvent.events e =
            t.cm.recomputeNext.nextEventCycle - t.cm.cycleCount := hd'.trans hleast
          have h₂ : t.cm.recomputeNext.onOverflowEvent.events e =
            t.cm.events e - t.cm.cycleCount := hev.2
          have h₃ : t.cm.cycleCount < t.cm.events e := hev.1
          omega
      · have hsettled := h.settled
        rw [hr, rebase_recompute_of_not_lt _ hlimit] at hsettled
        rcases t.cm.recomputeNext.leastDue_mem with hm' | ⟨e, ha, hd'⟩
        · exact Or.inl (hsettled.next.trans hm')
        · right
          refine ⟨e, hkey ▸ CycleManager.activeKey_eq_some.mpr ⟨ha, ?_⟩⟩
          exact hd'.trans hsettled.next.symm
    · exact Or.inr ⟨e, by rw [← hkey]; exact hm⟩
  refine ⟨hafter, fun a ha => ?_, fun hlimit => ?_⟩
  · have hna : t.cm.nextEventCycle ≤ a.2 := hall a ha
    rcases hstands with hm | ⟨e, hm⟩
    · -- the armed event itself stands somewhere, and no cycle is past the end of the counter
      obtain ⟨d, hd'⟩ := Option.isSome_iff_exists.mp
        (replay_isSome start.cm.laterKey (Or.inr ⟨a, ha, rfl⟩))
      refine ⟨a.1, d, hd', ?_⟩
      have hk : t.cm.activeKey a.1 = some d := hkey ▸ hd'
      obtain ⟨-, rfl⟩ := CycleManager.activeKey_eq_some.mp hk
      have := hwt.events a.1
      simp only at this
      omega
    · exact ⟨e, _, hm, hnext.trans hna⟩
  · rcases hstands with hm | ⟨e, hm⟩
    · -- rebasing the end of the counter gives a cycle that is no minimum
      have hlimit' : rebaseLimit < t.cm.cycleCount := by omega
      have hsettled := h.settled
      rw [hr, rebase_recompute_of_lt _ hlimit'] at hsettled
      have hsub : t.cm.recomputeNext.onOverflowEvent.nextEventCycle =
          t.cm.recomputeNext.nextEventCycle - t.cm.cycleCount := wrappingSub_of_le hlt.le
      rcases t.cm.recomputeNext.onOverflowEvent.leastDue_mem with hm' | ⟨e, ha, -⟩
      · have := hsettled.next
        omega
      · exact ⟨e, t.cm.events e,
          by rw [← hkey]; exact CycleManager.activeKey_eq_some.mpr ⟨ha, rfl⟩⟩
    · exact ⟨e, _, hm⟩

/-- **The next-event law of `cm_check_events`.**  In every reachable state and for all handlers
every check returns, and when it returns `true` the law holds exactly if its drain was on
time. -/
theorem cmCheckEvents_next_event_iff (H : CallHandlers D) (emu : Emu D)
    (hreach : SchedReachable H emu) :
    (∃ fuel r, cmCheckEvents H.toHandlers fuel emu = some r) ∧
      ∀ fuel r, cmCheckEvents H.toHandlers fuel emu = some r → r.ran = true →
        (NextEventLaw H fuel emu r ↔
          OnTime H fuel (forgetNext (dispatchImm H.toHandlers emu))) := by
  refine ⟨cmCheckEvents_terminates H emu, fun fuel r h hran => ?_⟩
  have hw := hreach.wordSized
  obtain ⟨-, ⟨-, hfalse, -, -⟩ | ⟨-, -, t, hd, hr⟩⟩ := cmCheckEvents_cases h
  · rw [hran] at hfalse
    simp at hfalse
  · exact ⟨fun hlaw => hlaw.onTime hw hd hr, fun hon => hon.nextEventLaw hw hd hr⟩

/-! ## The apu sample grid -/

/-- `CYCLES_PER_SAMPLE`. -/
def cyclesPerSample : UInt32 := 512

/-- Handlers that only keep the apu sample grid going, as `apu_on_sample_event` does. -/
def sampleGrid : CallHandlers Unit where
  imm _ _ := ([], ())
  event e _ := ([.scheduleFromDue cyclesPerSample e], ())
  timersOnOverflow _ _ := ()
  delta_pos := by
    intro e emu n e' h
    obtain ⟨rfl, -⟩ : n = cyclesPerSample ∧ e' = e := by simpa using h
    decide

/-- The scheduler after `apu_initialize_schedule` and a jump to the first sample. -/
def onSample : Emu Unit :=
  ⟨(CycleManager.init.schedule 512 .apuSample).jumpToNextEvent, ()⟩

theorem onSample_reachable : SchedReachable sampleGrid onSample := by
  refine ⟨(), Reaches.tail (a := .jumpToNextEvent) (Reaches.single
    (a := .call (.schedule 512 .apuSample)) trivial rfl) trivial rfl⟩

/-- A sample on time is a check the law holds for. -/
theorem onSample_next_event : ∃ r, cmCheckEvents sampleGrid.toHandlers 2 onSample = some r ∧
    r.ran = true ∧ NextEventLaw sampleGrid 2 onSample r := by
  refine ⟨_, rfl, rfl, ((cmCheckEvents_next_event_iff sampleGrid onSample
    onSample_reachable).2 2 _ rfl rfl).mpr ⟨?_, ?_, ?_⟩⟩
  · show ∀ a ∈ [(EventType.apuSample, 1024)], 512 < a.2
    decide
  · show ∀ a ∈ [(EventType.apuSample, 1024)], _
    intro a ha
    exact ⟨.apuSample, 1024, rfl, by simp [List.mem_singleton.mp ha]⟩
  · intro h
    exact absurd h (by decide)

/-- A sample armed for cycle 0x7FFFFE00, reached by a jump and overrun by a slice of 1500
cycles, which carries the clock past the rebase limit. -/
def lateSample : Emu Unit :=
  ⟨((CycleManager.init.schedule 0x7FFFFE00 .apuSample).jumpToNextEvent).addCycles 1500, ()⟩

theorem lateSample_reachable : SchedReachable sampleGrid lateSample := by
  refine ⟨(), Reaches.tail (a := .addCycles 1500) (Reaches.tail (a := .jumpToNextEvent)
    (Reaches.single (a := .call (.schedule 0x7FFFFE00 .apuSample)) trivial rfl) trivial rfl)
    trivial rfl⟩

/-- **The underflow.**  The late sample catches up twice inside the drain; the rebase then turns
the stale 0x80000000 into 0xFFFFFC24, although the next sample is due in 36 cycles. -/
theorem next_event_underflow : ∃ r, SchedReachable sampleGrid lateSample ∧
    cmCheckEvents sampleGrid.toHandlers 4 lateSample = some r ∧ r.ran = true ∧
    r.emu.cm.cycleCount = 0 ∧ r.emu.cm.activeEvents .apuSample = true ∧
    r.emu.cm.events .apuSample = 36 ∧ r.emu.cm.nextEventCycle = 0xFFFFFC24 ∧
    ¬ NextEventLaw sampleGrid 4 lateSample r := by
  refine ⟨_, lateSample_reachable, rfl, rfl, rfl, rfl, rfl, rfl, fun h => ?_⟩
  exact absurd (h.settled.next_le (e := .apuSample) rfl) (by decide)

end AdvancedSlop
