/-
# Periodic events form a grid

An event that re-arms itself only through `schedule_from_due` with a fixed period fires on the
grid `d₀, d₀ + p, d₀ + 2p, …`, whatever slices the clock is advanced by: the drain dispatches
what is due in the order of due cycles, the table index breaking ties, and re-scans after every
dispatch.

* `GridInv` : what holds of the dispatches made so far and the schedule, also in the middle of
  a drain;
* `GridInv.dispatch`, `GridInv.drain`, `GridInv.check`, `GridInv.slices` : it is kept;
* `slice_independence` : two cuts of the same cycles give the same dispatches.
-/
import AdvancedSlop.NextEvent
import Mathlib.Data.List.Sort

namespace AdvancedSlop

open TransitionSystem

variable {D : Type*}

/-! ## Periodic handlers -/

/-- The calls that arm an event. -/
def CmCall.isTimed : CmCall → Bool
  | schedule _ _ => true
  | scheduleFromDue _ _ => true
  | scheduleImm _ => false

/-- Handlers whose only timed call is to re-arm the dispatched event by its period from its due
cycle; immediate handlers arm nothing. -/
structure PeriodicHandlers (D : Type*) extends CallHandlers D where
  period : EventType → UInt32
  imm_timed : ∀ e emu, (imm e emu).1.filter CmCall.isTimed = []
  event_timed : ∀ e emu,
    (event e emu).1.filter CmCall.isTimed = [.scheduleFromDue (period e) e]

/-- The period of an event, as a number. -/
def PeriodicHandlers.per (H : PeriodicHandlers D) (e : EventType) : ℕ := (H.period e).toNat

theorem PeriodicHandlers.per_pos (H : PeriodicHandlers D) (emu : Emu D) (e : EventType) :
    0 < H.per e := by
  have hmem : CmCall.scheduleFromDue (H.period e) e ∈ (H.event e emu).1 := by
    apply List.mem_of_mem_filter (p := CmCall.isTimed)
    rw [H.event_timed]
    exact List.mem_cons_self
  exact H.delta_pos e emu _ e hmem

/-- Only the timed calls arm events. -/
theorem filterMap_arms (clock due : ℕ) (calls : List CmCall) :
    calls.filterMap (CmCall.arms clock due) =
      (calls.filter CmCall.isTimed).filterMap (CmCall.arms clock due) := by
  rw [List.filterMap_filter]
  congr 1
  funext call
  cases call <;> rfl

/-! ## The grid invariant -/

/-- The order of dispatches: by due cycle, then by table index. -/
def DispatchLt (a b : ℕ × EventType) : Prop :=
  a.1 < b.1 ∨ a.1 = b.1 ∧ a.2.index < b.2.index

instance : Std.Irrefl DispatchLt :=
  ⟨fun a h => by
    rcases h with h | ⟨-, h⟩
    · exact lt_irrefl _ h
    · exact lt_irrefl _ h⟩

instance : Std.Antisymm DispatchLt :=
  ⟨fun a b hab hba => by
    exfalso
    rcases hab with hab | ⟨hab, hab'⟩ <;> rcases hba with hba | ⟨hba, hba'⟩ <;> omega⟩

/-- The due cycles an event was dispatched for, in order. -/
def duesOf (tr : List (ℕ × EventType)) (e : EventType) : List ℕ :=
  (tr.filter fun a => a.2 = e).map Prod.fst

theorem mem_duesOf {tr : List (ℕ × EventType)} {d : ℕ} {e : EventType} :
    d ∈ duesOf tr e ↔ (d, e) ∈ tr := by
  simp [duesOf]

theorem duesOf_append (tr tr' : List (ℕ × EventType)) (e : EventType) :
    duesOf (tr ++ tr') e = duesOf tr e ++ duesOf tr' e := by
  simp [duesOf]

/-- The first `n` points of the grid from `d₀` with period `p`. -/
def gridPoints (d₀ p n : ℕ) : List ℕ := (List.range n).map fun k => d₀ + k * p

theorem gridPoints_succ (d₀ p n : ℕ) :
    gridPoints d₀ p (n + 1) = gridPoints d₀ p n ++ [d₀ + n * p] := by
  simp [gridPoints, List.range_succ]

/-- The dispatches `tr` made since the schedule was `sched` are the first `n e` grid points of
each event `e`, in dispatch order; each event is armed for its next grid point (clamped to
`u32::MAX`), and everything dispatched comes before everything armed. -/
structure GridInv (sched : EventType → Option ℕ) (p n : EventType → ℕ)
    (tr : List (ℕ × EventType)) (cm : CycleManager) : Prop where
  keys : ∀ e, cm.activeKey e = (sched e).map fun d₀ => min (d₀ + n e * p e) u32Max
  dues : ∀ e, duesOf tr e = (sched e).elim [] fun d₀ => gridPoints d₀ (p e) (n e)
  sorted : tr.Pairwise DispatchLt
  before : ∀ a ∈ tr, ∀ e d, cm.activeKey e = some d → DispatchLt a (d, e)
  past : ∀ a ∈ tr, a.1 ≤ cm.cycleCount

/-- Nothing dispatched yet. -/
theorem GridInv.start {cm : CycleManager} (hw : cm.WordSized) (p : EventType → ℕ) :
    GridInv cm.activeKey p (fun _ => 0) [] cm where
  keys := by
    intro e
    cases hk : cm.activeKey e with
    | none => rfl
    | some d =>
        obtain ⟨-, rfl⟩ := CycleManager.activeKey_eq_some.mp hk
        have := hw.events e
        simp only [Option.map_some, Nat.zero_mul, Nat.add_zero, Option.some.injEq]
        omega
  dues := by
    intro e
    cases cm.activeKey e <;> rfl
  sorted := List.Pairwise.nil
  before := by simp
  past := by simp

/-- The invariant depends on the schedule and the clock, which may only advance. -/
theorem GridInv.congr {sched : EventType → Option ℕ} {p n : EventType → ℕ}
    {tr : List (ℕ × EventType)} {cm cm' : CycleManager} (h : GridInv sched p n tr cm)
    (hkey : cm'.activeKey = cm.activeKey) (hclock : cm.cycleCount ≤ cm'.cycleCount) :
    GridInv sched p n tr cm' where
  keys := hkey ▸ h.keys
  dues := h.dues
  sorted := h.sorted
  before := hkey ▸ h.before
  past := fun a ha => (h.past a ha).trans hclock

/-! ## One dispatch -/

theorem CycleManager.beginDispatch_activeKey (cm : CycleManager) (e : EventType) (due : ℕ) :
    (cm.beginDispatch e due).activeKey = Function.update cm.activeKey e none := by
  funext e'
  by_cases he : e' = e
  · subst he
    simp [CycleManager.activeKey, CycleManager.beginDispatch]
  · simp [CycleManager.activeKey, CycleManager.beginDispatch, he]

/-- A dispatch of a periodic event moves its key by the period. -/
theorem PeriodicHandlers.dispatch_activeKey (H : PeriodicHandlers D) (emu : Emu D)
    (e : EventType) (due : ℕ) :
    (dispatch H.toHandlers e due emu).cm.activeKey =
      Function.update emu.cm.activeKey e (some (min (due + H.per e) u32Max)) := by
  rw [dispatch_cm, runCalls_activeKey, filterMap_arms, CallHandlers.callsAt, H.event_timed,
    CycleManager.beginDispatch_activeKey]
  show Function.update (Function.update emu.cm.activeKey e none) e _ = _
  rw [Function.update_idem]
  rfl

/-- **One dispatch keeps the grid**: the selected event was armed for its next grid point. -/
theorem GridInv.dispatch (H : PeriodicHandlers D) {sched : EventType → Option ℕ}
    {n : EventType → ℕ} {tr : List (ℕ × EventType)} {emu : Emu D}
    (h : GridInv sched H.per n tr emu.cm) {e : EventType} {due : ℕ}
    (hb : emu.cm.bestEvent = (some e, due)) :
    GridInv sched H.per (Function.update n e (n e + 1)) (tr ++ [(due, e)])
      (dispatch H.toHandlers e due emu).cm := by
  obtain ⟨ha, hd, hle, hmax, hleast⟩ := CycleManager.bestEvent_some hb
  have hkey : emu.cm.activeKey e = some due := CycleManager.activeKey_eq_some.mpr ⟨ha, hd⟩
  have hper := H.per_pos emu e
  -- the grid point the event is armed for is not clamped
  obtain ⟨d₀, hd₀, hpoint⟩ : ∃ d₀, sched e = some d₀ ∧ due = d₀ + n e * H.per e := by
    have hk := h.keys e
    rw [hkey] at hk
    obtain ⟨d₀, hd₀, heq⟩ := Option.map_eq_some_iff.mp hk.symm
    exact ⟨d₀, hd₀, by omega⟩
  have hkeys := H.dispatch_activeKey emu e due
  constructor
  · intro e'
    rw [hkeys]
    by_cases he : e' = e
    · subst he
      rw [Function.update_self, Function.update_self, hd₀, Option.map_some, Nat.add_mul,
        Nat.one_mul, hpoint, Nat.add_assoc]
    · rw [Function.update_of_ne he, Function.update_of_ne he, h.keys e']
  · intro e'
    rw [duesOf_append, h.dues e']
    by_cases he : e' = e
    · subst he
      rw [hd₀, Function.update_self]
      simp [duesOf, gridPoints_succ, hpoint]
    · rw [Function.update_of_ne he]
      simp [duesOf, Ne.symm he]
  · rw [List.pairwise_append]
    refine ⟨h.sorted, List.pairwise_singleton _ _, fun a ha' b hb' => ?_⟩
    rw [List.mem_singleton.mp hb']
    exact h.before a ha' e due hkey
  · intro a ha' e' d' hk'
    rw [hkeys] at hk'
    by_cases he : e' = e
    · subst he
      rw [Function.update_self, Option.some.injEq] at hk'
      have hlt : due < d' := by omega
      rcases List.mem_append.mp ha' with ha' | ha'
      · left
        rcases h.before a ha' e' due hkey with hlt' | ⟨heq, -⟩
        · exact hlt'.trans hlt
        · exact heq ▸ hlt
      · rw [List.mem_singleton.mp ha']
        exact Or.inl hlt
    · rw [Function.update_of_ne he] at hk'
      rcases List.mem_append.mp ha' with ha' | ha'
      · exact h.before a ha' e' d' hk'
      · rw [List.mem_singleton.mp ha']
        obtain ⟨hact, rfl⟩ := CycleManager.activeKey_eq_some.mp hk'
        by_cases hdue : emu.cm.events e' ≤ emu.cm.cycleCount
        · rcases hleast e' hact hdue with hlt | ⟨heq, hidx⟩
          · exact Or.inl hlt
          · right
            refine ⟨heq, lt_of_le_of_ne hidx fun hidx' => he ?_⟩
            exact (EventType.index_injective hidx').symm
        · left
          show due < emu.cm.events e'
          omega
  · intro a ha'
    rw [show (AdvancedSlop.dispatch H.toHandlers e due emu).cm.cycleCount = emu.cm.cycleCount
      from dispatch_cycleCount H.toCallHandlers emu e due]
    rcases List.mem_append.mp ha' with ha' | ha'
    · exact h.past a ha'
    · rw [List.mem_singleton.mp ha']
      exact hle

/-- **A drain keeps the grid.** -/
theorem GridInv.drain (H : PeriodicHandlers D) {sched : EventType → Option ℕ} {fuel : ℕ}
    {emu : Emu D} {r : List (ℕ × EventType) × Emu D}
    (hd : drain H.toHandlers fuel emu = some r) :
    ∀ (n : EventType → ℕ) (tr : List (ℕ × EventType)), GridInv sched H.per n tr emu.cm →
      ∃ n', GridInv sched H.per n' (tr ++ r.1) r.2.cm := by
  refine drain_induction (P := fun _ emu r => ∀ n tr, GridInv sched H.per n tr emu.cm →
    ∃ n', GridInv sched H.per n' (tr ++ r.1) r.2.cm) ?_ ?_ hd
  · intro _ emu _ n tr h
    exact ⟨n, by simpa using h⟩
  · intro _ emu e due r hb ih n tr h
    obtain ⟨n', h'⟩ := ih _ _ (h.dispatch H hb)
    exact ⟨n', by simpa using h'⟩

/-! ## Armed schedules -/

/-- The cached cycle is at most every active due cycle, so no due event is overlooked. -/
def CycleManager.Armed (cm : CycleManager) : Prop :=
  ∀ e d, cm.activeKey e = some d → cm.nextEventCycle ≤ d

theorem CycleManager.Armed.init : CycleManager.init.Armed := by
  intro e d h
  simp [CycleManager.activeKey, CycleManager.init] at h

theorem CycleManager.Armed.runCalls {cm : CycleManager} (h : cm.Armed) (calls : List CmCall) :
    (runCalls cm calls).Armed := by
  induction calls generalizing cm with
  | nil => exact h
  | cons call calls ih =>
      apply ih
      rcases call.run_cases cm with ⟨d, e, -, hrun⟩ | ⟨i, -, hrun⟩
      · intro e' d' hk
        rw [hrun, CycleManager.arm_activeKey] at hk
        rw [hrun, CycleManager.arm_nextEventCycle]
        by_cases he : e' = e
        · subst he
          rw [Function.update_self, Option.some.injEq] at hk
          omega
        · rw [Function.update_of_ne he] at hk
          have := h e' d' hk
          omega
      · rw [hrun]
        exact h

theorem CycleManager.armed_recomputeNext (cm : CycleManager) : cm.recomputeNext.Armed :=
  fun e _ hk => Agenda.least_le _ _ _ (EventType.mem_all e) hk

/-- Every step of the scheduler that starts below the rebase limit keeps the schedule armed. -/
theorem schedStep_armed (H : CallHandlers D) {emu emu' : Emu D} {a : SchedAction D}
    (h : emu.cm.Armed) (hlimit : emu.cm.cycleCount ≤ rebaseLimit)
    (hstep : schedStep H emu a = some emu') : emu'.cm.Armed := by
  cases a with
  | guest dev =>
      obtain rfl := Option.some.inj hstep
      exact h
  | addCycles n =>
      obtain rfl := Option.some.inj hstep
      exact h
  | call call =>
      obtain rfl := Option.some.inj hstep
      exact h.runCalls [call]
  | jumpToNextEvent =>
      obtain rfl := Option.some.inj hstep
      simp only [CycleManager.jumpToNextEvent]
      split
      · exact h
      · exact h
  | checkEvents fuel =>
      obtain ⟨r, hr, rfl⟩ := Option.map_eq_some_iff.mp hstep
      obtain ⟨-, ⟨-, -, -, he⟩ | ⟨-, -, t, ht, he⟩⟩ := cmCheckEvents_cases hr
      · simp only [he]
        exact dispatchImm_invariant H.toHandlers (I := fun t => t.cm.Armed)
          (fun _ _ hA => CycleManager.Armed.runCalls hA _) h
      · have hclock : t.cm.cycleCount = emu.cm.cycleCount :=
          (drain_cycleCount H ht).trans (dispatchImm_cycleCount H emu)
        simp only [he]
        rw [rebase_recompute_of_not_lt _ (by omega)]
        exact t.cm.armed_recomputeNext

/-- A schedule reached without passing the rebase limit is armed. -/
theorem armed_of_reaches (H : CallHandlers D) {dev : D} {emu : Emu D}
    (h : Reaches (schedStep H) (fun emu _ => emu.cm.cycleCount ≤ rebaseLimit)
      ⟨CycleManager.init, dev⟩ emu) : emu.cm.Armed :=
  h.invariant (I := fun t => t.cm.Armed)
    (fun _ _ _ hA hlimit hstep => schedStep_armed H hA hlimit hstep) CycleManager.Armed.init

/-! ## One check -/

/-- Calls that arm nothing leave the schedule and the cached cycle alone. -/
theorem runCalls_untimed (cm : CycleManager) {calls : List CmCall}
    (h : calls.filter CmCall.isTimed = []) :
    (runCalls cm calls).activeKey = cm.activeKey ∧
      (runCalls cm calls).nextEventCycle = cm.nextEventCycle := by
  have hnone : calls.filterMap (CmCall.arms cm.cycleCount cm.currentEventDue) = [] := by
    rw [filterMap_arms, h]
    rfl
  constructor
  · rw [runCalls_activeKey, hnone]
    rfl
  · rcases runCalls_nextEventCycle_mem cm calls with hsame | hmem
    · exact hsame
    · simp [landings, hnone] at hmem

/-- The immediate handlers leave the schedule and the cached cycle alone. -/
theorem PeriodicHandlers.dispatchImm_untimed (H : PeriodicHandlers D) (emu : Emu D) :
    (dispatchImm H.toHandlers emu).cm.activeKey = emu.cm.activeKey ∧
      (dispatchImm H.toHandlers emu).cm.nextEventCycle = emu.cm.nextEventCycle :=
  dispatchImm_invariant H.toHandlers
    (I := fun t => t.cm.activeKey = emu.cm.activeKey ∧
      t.cm.nextEventCycle = emu.cm.nextEventCycle)
    (fun t e ⟨hk, hn⟩ => by
      obtain ⟨hk', hn'⟩ := runCalls_untimed t.cm (H.imm_timed e t)
      exact ⟨hk'.trans hk, hn'.trans hn⟩) ⟨rfl, rfl⟩

/-- **One check keeps the grid**, keeps the schedule armed and leaves nothing due. -/
theorem GridInv.check (H : PeriodicHandlers D) {sched : EventType → Option ℕ}
    {n : EventType → ℕ} {tr : List (ℕ × EventType)} {fuel : ℕ} {emu : Emu D}
    {r : CheckResult D} (h : GridInv sched H.per n tr emu.cm) (hA : emu.cm.Armed)
    (hlimit : emu.cm.cycleCount ≤ rebaseLimit)
    (hr : cmCheckEvents H.toHandlers fuel emu = some r) :
    (∃ n', GridInv sched H.per n' (tr ++ r.timed) r.emu.cm) ∧ r.emu.cm.Armed ∧
      r.emu.cm.cycleCount = emu.cm.cycleCount ∧
      ∀ e d, r.emu.cm.activeKey e = some d → r.emu.cm.cycleCount < d := by
  obtain ⟨hkey, hnext⟩ := H.dispatchImm_untimed emu
  have hclock := dispatchImm_cycleCount H.toCallHandlers emu
  have himm := h.congr hkey hclock.ge
  obtain ⟨-, ⟨hlt, -, htr, he⟩ | ⟨-, -, t, ht, he⟩⟩ := cmCheckEvents_cases hr
  · have hA' : (dispatchImm H.toHandlers emu).cm.Armed := by
      intro e d hk
      rw [hnext]
      exact hA e d (hkey ▸ hk)
    rw [he, htr, List.append_nil]
    exact ⟨⟨n, himm⟩, hA', hclock, fun e d hk => hlt.trans_le (hA' e d hk)⟩
  · have hclock' : t.cm.cycleCount = emu.cm.cycleCount :=
      (drain_cycleCount H.toCallHandlers ht).trans hclock
    have hcm : r.emu.cm = t.cm.recomputeNext := by
      rw [he]
      exact rebase_recompute_of_not_lt _ (by omega)
    have hstart : GridInv sched H.per n tr (forgetNext (dispatchImm H.toHandlers emu)).cm :=
      himm.congr rfl (le_refl _)
    obtain ⟨n', h'⟩ := GridInv.drain H ht n tr hstart
    rw [hcm]
    refine ⟨⟨n', h'.congr rfl (le_refl _)⟩, t.cm.armed_recomputeNext, hclock', ?_⟩
    intro e d hk
    obtain ⟨ha, rfl⟩ := CycleManager.activeKey_eq_some.mp hk
    by_contra hle
    have hmax := (CycleManager.bestEvent_none_iff t.cm).mp (drain_bestEvent ht) e ha
      (Nat.le_of_not_lt hle)
    have : rebaseLimit < u32Max := by decide
    have : t.cm.events e ≤ t.cm.cycleCount := Nat.le_of_not_lt hle
    omega

/-! ## Slices -/

/-- The guest's part of a slice: it raises immediate events, changes the rest of the emulator
and uses up cycles. -/
def guestSlice (emu : Emu D) (n : UInt16) (raised : List ImmEventType) (dev : D) : Emu D :=
  ⟨(runCalls emu.cm (raised.map .scheduleImm)).addCycles n.toNat, dev⟩

/-- `SliceRun H ns emu tr emu'`: cutting the time into the slices `ns`, with a check after each,
leads from `emu` to `emu'` and dispatches `tr`. -/
inductive SliceRun (H : Handlers D) :
    List UInt16 → Emu D → List (ℕ × EventType) → Emu D → Prop
  | done (emu : Emu D) : SliceRun H [] emu [] emu
  | slice {n : UInt16} {ns : List UInt16} {emu t : Emu D} {raised : List ImmEventType} {dev : D}
      {fuel : ℕ} {r : CheckResult D} {tr : List (ℕ × EventType)} :
      cmCheckEvents H fuel (guestSlice emu n raised dev) = some r → SliceRun H ns r.emu tr t →
      SliceRun H (n :: ns) emu (r.timed ++ tr) t

/-- The cycles of a list of slices. -/
def totalCycles (ns : List UInt16) : ℕ := (ns.map UInt16.toNat).sum

theorem guestSlice_cycleCount (emu : Emu D) {n : UInt16} (raised : List ImmEventType) (dev : D)
    (h : emu.cm.cycleCount + n.toNat ≤ rebaseLimit) :
    (guestSlice emu n raised dev).cm.cycleCount = emu.cm.cycleCount + n.toNat := by
  simp only [guestSlice, CycleManager.addCycles, runCalls_cycleCount]
  unfold rebaseLimit at h
  omega

theorem guestSlice_untimed (emu : Emu D) (n : UInt16) (raised : List ImmEventType) (dev : D) :
    (guestSlice emu n raised dev).cm.activeKey = emu.cm.activeKey ∧
      (guestSlice emu n raised dev).cm.nextEventCycle = emu.cm.nextEventCycle :=
  runCalls_untimed emu.cm (List.filter_eq_nil_iff.mpr fun call hcall => by
    obtain ⟨e, -, rfl⟩ := List.mem_map.mp hcall
    simp [CmCall.isTimed])

/-- **Slices keep the grid**, and after the last check nothing is due. -/
theorem GridInv.slices (H : PeriodicHandlers D) {sched : EventType → Option ℕ}
    {ns : List UInt16} {emu t : Emu D} {tr' : List (ℕ × EventType)}
    (hrun : SliceRun H.toHandlers ns emu tr' t) :
    ∀ (n : EventType → ℕ) (tr : List (ℕ × EventType)), GridInv sched H.per n tr emu.cm →
      emu.cm.Armed → emu.cm.cycleCount + totalCycles ns ≤ rebaseLimit →
      (∃ n', GridInv sched H.per n' (tr ++ tr') t.cm) ∧
        t.cm.cycleCount = emu.cm.cycleCount + totalCycles ns ∧
        (ns ≠ [] → ∀ e d, t.cm.activeKey e = some d → t.cm.cycleCount < d) := by
  induction hrun with
  | done emu =>
      intro n tr h _ _
      exact ⟨⟨n, by simpa using h⟩, rfl, fun hne => absurd rfl hne⟩
  | @slice m ns emu t raised dev fuel r tr' hr hrest ih =>
      intro n tr h hA hlimit
      have htotal : totalCycles (m :: ns) = m.toNat + totalCycles ns := by
        simp [totalCycles]
      have hclock := guestSlice_cycleCount emu (n := m) raised dev (by omega)
      obtain ⟨hkey, hnext⟩ := guestSlice_untimed emu m raised dev
      have hguest := h.congr hkey (by omega)
      have hA' : (guestSlice emu m raised dev).cm.Armed := by
        intro e d hk
        rw [hnext]
        exact hA e d (hkey ▸ hk)
      obtain ⟨⟨n', h'⟩, hA'', hclock', hquiet⟩ := hguest.check H hA' (by omega) hr
      obtain ⟨hgrid, hclock'', hquiet'⟩ := ih n' _ h' hA'' (by omega)
      refine ⟨by simpa using hgrid, by omega, fun _ => ?_⟩
      cases ns with
      | nil =>
          cases hrest
          exact hquiet
      | cons m' ns => exact hquiet' (List.cons_ne_nil _ _)

/-- Every cut can be run. -/
theorem exists_sliceRun (H : CallHandlers D) (ns : List UInt16) (emu : Emu D) :
    ∃ tr t, SliceRun H.toHandlers ns emu tr t := by
  induction ns generalizing emu with
  | nil => exact ⟨[], emu, .done emu⟩
  | cons n ns ih =>
      obtain ⟨fuel, r, hr⟩ := cmCheckEvents_terminates H (guestSlice emu n [] emu.dev)
      obtain ⟨tr, t, hrest⟩ := ih r.emu
      exact ⟨_, t, .slice hr hrest⟩

/-! ## Slice independence -/

/-- How many grid points from `d₀` with period `p` are not after the clock. -/
def occurrences (d₀ p clock : ℕ) : ℕ := if clock < d₀ then 0 else (clock - d₀) / p + 1

theorem occurrences_eq {d₀ p clock n : ℕ} (hp : 0 < p) (hlt : clock < d₀ + n * p)
    (hle : ∀ k < n, d₀ + k * p ≤ clock) : n = occurrences d₀ p clock := by
  unfold occurrences
  cases n with
  | zero => rw [if_pos (by omega)]
  | succ m =>
      have hm := hle m (Nat.lt_succ_self m)
      rw [if_neg (by omega)]
      congr 1
      symm
      apply Nat.div_eq_of_lt_le
      · omega
      · rw [Nat.add_mul] at hlt ⊢
        omega

/-- The due cycles the grid of an event has up to a clock. -/
def gridDues (cm : CycleManager) (p : EventType → ℕ) (clock : ℕ) (e : EventType) : List ℕ :=
  (cm.activeKey e).elim [] fun d₀ => gridPoints d₀ (p e) (occurrences d₀ (p e) clock)

/-- When nothing is due, the dispatches made are the grid points up to the clock. -/
theorem GridInv.dues_eq {cm₀ cm : CycleManager} {p n : EventType → ℕ}
    {tr : List (ℕ × EventType)} (hp : ∀ e, 0 < p e) (h : GridInv cm₀.activeKey p n tr cm)
    (hquiet : ∀ e d, cm.activeKey e = some d → cm.cycleCount < d) (e : EventType) :
    duesOf tr e = gridDues cm₀ p cm.cycleCount e := by
  have hdues := h.dues e
  rw [hdues, gridDues]
  cases hd₀ : cm₀.activeKey e with
  | none => rfl
  | some d₀ =>
      have hkey := h.keys e
      rw [hd₀, Option.map_some] at hkey
      have hlt := hquiet e _ hkey
      have hn : n e = occurrences d₀ (p e) cm.cycleCount := by
        refine occurrences_eq (hp e) (by omega) fun k hk => ?_
        -- every point already dispatched was due
        have hmem : d₀ + k * p e ∈ duesOf tr e := by
          rw [hdues, hd₀]
          exact List.mem_map_of_mem (List.mem_range.mpr hk)
        exact h.past _ (mem_duesOf.mp hmem)
      rw [hn]
      rfl

/-- **Slice independence of the event grid.**  From an armed schedule, every cut of the same
number of cycles that stays below the rebase point can be run, and any two runs dispatch the
same sequence: sorted by due cycle and table index, each event exactly at the grid points
`d₀ + k * p` up to the final clock. -/
theorem slice_independence (H : PeriodicHandlers D) {cm : CycleManager} {dev₁ dev₂ : D}
    {xs ys : List UInt16} (hw : cm.WordSized) (hA : cm.Armed) (hx : xs ≠ []) (hy : ys ≠ [])
    (hsum : totalCycles xs = totalCycles ys)
    (hlimit : cm.cycleCount + totalCycles xs ≤ rebaseLimit) :
    (∃ tr t, SliceRun H.toHandlers xs ⟨cm, dev₁⟩ tr t) ∧
      ∀ tr₁ t₁ tr₂ t₂, SliceRun H.toHandlers xs ⟨cm, dev₁⟩ tr₁ t₁ →
        SliceRun H.toHandlers ys ⟨cm, dev₂⟩ tr₂ t₂ →
        tr₁ = tr₂ ∧ tr₁.Pairwise DispatchLt ∧
          ∀ e, duesOf tr₁ e = gridDues cm H.per (cm.cycleCount + totalCycles xs) e := by
  have hper : ∀ e, 0 < H.per e := H.per_pos ⟨cm, dev₁⟩
  -- what one run dispatches
  have hgrid : ∀ (dev : D) (ns : List UInt16) (tr : List (ℕ × EventType)) (t : Emu D),
      ns ≠ [] → totalCycles ns = totalCycles xs → SliceRun H.toHandlers ns ⟨cm, dev⟩ tr t →
      tr.Pairwise DispatchLt ∧
        ∀ e, duesOf tr e = gridDues cm H.per (cm.cycleCount + totalCycles xs) e := by
    intro dev ns tr t hne htotal hrun
    obtain ⟨⟨n, h⟩, hclock, hquiet⟩ :=
      GridInv.slices H hrun _ [] (GridInv.start hw H.per) hA (htotal ▸ hlimit)
    rw [List.nil_append] at h
    rw [← htotal]
    exact ⟨h.sorted, fun e => hclock ▸ h.dues_eq hper (hquiet hne) e⟩
  refine ⟨exists_sliceRun H.toCallHandlers xs _, fun tr₁ t₁ tr₂ t₂ h₁ h₂ => ?_⟩
  obtain ⟨hs₁, hd₁⟩ := hgrid dev₁ xs tr₁ t₁ hx rfl h₁
  obtain ⟨hs₂, hd₂⟩ := hgrid dev₂ ys tr₂ t₂ hy hsum.symm h₂
  refine ⟨hs₁.eq_of_mem_iff hs₂ fun a => ?_, hs₁, hd₁⟩
  rw [← Prod.mk.eta (p := a), ← mem_duesOf, ← mem_duesOf, hd₁, hd₂]

/-- The sample grid as a periodic handler table. -/
def periodicSamples : PeriodicHandlers Unit :=
  { sampleGrid with
    period := fun _ => cyclesPerSample
    imm_timed := fun _ _ => rfl
    event_timed := fun _ _ => rfl }

/-- A sample and a scanline event due at the same cycle, in one slice of 2000 cycles and in two
of 700 and 1300. -/
theorem slice_independence_samples :
    let cm := (CycleManager.init.schedule 512 .apuSample).schedule 512 .gpuScanline240
    (∃ tr t, SliceRun periodicSamples.toHandlers [2000] ⟨cm, ()⟩ tr t) ∧
      ∀ tr₁ t₁ tr₂ t₂, SliceRun periodicSamples.toHandlers [2000] ⟨cm, ()⟩ tr₁ t₁ →
        SliceRun periodicSamples.toHandlers [700, 1300] ⟨cm, ()⟩ tr₂ t₂ →
        tr₁ = tr₂ ∧ tr₁.Pairwise DispatchLt ∧
          ∀ e, duesOf tr₁ e = gridDues cm periodicSamples.per (0 + 2000) e := by
  refine slice_independence periodicSamples ?_ ?_ (by decide) (by decide) rfl (by decide)
  · exact runCalls_wordSized CycleManager.WordSized.init
      [.schedule 512 .apuSample, .schedule 512 .gpuScanline240]
  · exact CycleManager.Armed.init.runCalls
      [.schedule 512 .apuSample, .schedule 512 .gpuScanline240]

end AdvancedSlop
