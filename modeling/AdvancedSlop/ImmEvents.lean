/-
# Immediate events

A check takes and clears the mask of immediate events, and scans it by its leading zeros while the
handlers set bits in the live mask.

* `dispatchImm_eq_scan` : the loop on the mask;
* `CmAct` : what a handler does to the scheduler: calls of its interface, or the vblank hook
  replaces it by a restored one;
* `ActHandlers.logged` : the handlers with a log of the dispatches and of what they did;
* `imm_events_law` : what is dispatched and what is pending after a check.
-/
import AdvancedSlop.BitScan
import AdvancedSlop.CallHandlers

namespace AdvancedSlop

open BitScan

/-! ## The mask -/

/-- `1 << (31 - event_type)`. -/
def ImmEventType.bit (e : ImmEventType) : BitVec 32 :=
  BitVec.twoPow 32 (31 - ImmEventType.all.idxOf e)

/-- `active_imm_events`. -/
def immMask (active : ImmEventType → Bool) : BitVec 32 :=
  ImmEventType.all.foldl (fun mask e => if active e then mask ||| e.bit else mask) 0

/-- The bits of the mask are the events. -/
theorem immMask_bits (active : ImmEventType → Bool) :
    (immMask active).msb = active .cpuInterrupt ∧ (immMask active <<< 1).msb = active .dma0 ∧
      (immMask active <<< 2).msb = active .dma1 ∧ (immMask active <<< 3).msb = active .dma2 ∧
      (immMask active <<< 4).msb = active .dma3 ∧ immMask active <<< 5 = 0 := by
  unfold immMask ImmEventType.all
  simp only [List.foldl_cons, List.foldl_nil]
  generalize active .cpuInterrupt = b0
  generalize active .dma0 = b1
  generalize active .dma1 = b2
  generalize active .dma2 = b3
  generalize active .dma3 = b4
  revert b0 b1 b2 b3 b4
  decide

section Scheduler

variable {D : Type*}

/-- `IMM_LUT`. -/
def immLut (H : Handlers D) (index : ℕ) (emu : Emu D) : Emu D :=
  match ImmEventType.all[index]? with
  | some e => H.imm e emu
  | none => emu

/-- **The loop of the check** runs the handlers of the pending events in table order.  It shifts by
at most five, an event has one of the highest bits. -/
theorem dispatchImm_eq_scan (H : Handlers D) (emu : Emu D) :
    dispatchImm H emu = bitScan (immLut H) 32 (immMask emu.cm.activeImmEvents) 0
      { emu with cm := emu.cm.takeImm } := by
  obtain ⟨h0, h1, h2, h3, h4, hend⟩ := immMask_bits emu.cm.activeImmEvents
  rw [bitScan_eq_visit 0 _ hend (by decide)]
  unfold dispatchImm CycleManager.pendingImm
  generalize { emu with cm := emu.cm.takeImm } = start
  generalize immMask emu.cm.activeImmEvents = mask at *
  simp only [visit, ← BitVec.shiftLeft_add, Nat.reduceAdd, h0, h1, h2, h3, h4, immLut,
    ImmEventType.all, List.getElem?_cons_zero, List.getElem?_cons_succ, List.filter_cons,
    List.filter_nil]
  split_ifs <;> rfl

/-! ## What handlers do -/

/-- What a handler does to the scheduler.  The field walk of a restore skips the due cycle. -/
inductive CmAct
  | call (c : CmCall)
  | restore (cm : CycleManager)

/-- Execute one of them. -/
def CmAct.run (cm : CycleManager) : CmAct → CycleManager
  | call c => c.run cm
  | restore cm' => { cm' with currentEventDue := cm.currentEventDue }

/-- Execute them in order. -/
def runActs (cm : CycleManager) (acts : List CmAct) : CycleManager := acts.foldl CmAct.run cm

/-- Handlers of any behaviour. -/
structure ActHandlers (D : Type*) where
  imm : ImmEventType → Emu D → List CmAct × D
  event : EventType → Emu D → List CmAct × D
  timersOnOverflow : ℕ → D → D

/-- The rest of the emulator, the immediate events dispatched so far, and what the handlers did to
the scheduler. -/
structure Logged (D : Type*) where
  dev : D
  imm : List ImmEventType
  acts : List CmAct

/-- The handlers with a log. -/
def ActHandlers.logged (H : ActHandlers D) : Handlers (Logged D) where
  imm e emu :=
    let r := H.imm e ⟨emu.cm, emu.dev.dev⟩
    ⟨runActs emu.cm r.1, r.2, emu.dev.imm ++ [e], emu.dev.acts ++ r.1⟩
  event e emu :=
    let r := H.event e ⟨emu.cm, emu.dev.dev⟩
    ⟨runActs emu.cm r.1, r.2, emu.dev.imm, emu.dev.acts ++ r.1⟩
  timersOnOverflow clock log := { log with dev := H.timersOnOverflow clock log.dev }

/-- The mask of immediate events after some acts. -/
def immAfter (active : ImmEventType → Bool) (acts : List CmAct) : ImmEventType → Bool :=
  acts.foldl (fun active act =>
    match act with
    | .call (.scheduleImm e) => Function.update active e true
    | .call _ => active
    | .restore cm => cm.activeImmEvents) active

/-- No act replaces the scheduler. -/
def NoRestore (acts : List CmAct) : Prop := ∀ cm, CmAct.restore cm ∉ acts

/-- One of the acts schedules the event. -/
def SchedulesImm (acts : List CmAct) (e : ImmEventType) : Prop :=
  CmAct.call (.scheduleImm e) ∈ acts

theorem runActs_activeImmEvents (cm : CycleManager) (acts : List CmAct) :
    (runActs cm acts).activeImmEvents = immAfter cm.activeImmEvents acts := by
  induction acts generalizing cm with
  | nil => rfl
  | cons act acts ih =>
      refine (ih (act.run cm)).trans ?_
      cases act with
      | call c => cases c <;> rfl
      | restore cm' => rfl

theorem immAfter_append (active : ImmEventType → Bool) (acts acts' : List CmAct) :
    immAfter active (acts ++ acts') = immAfter (immAfter active acts) acts' :=
  List.foldl_append

/-- **Without a restore** what is pending stays, and what is scheduled becomes pending. -/
theorem immAfter_eq_true {active : ImmEventType → Bool} {acts : List CmAct} (h : NoRestore acts)
    (e : ImmEventType) :
    immAfter active acts e = true ↔ active e = true ∨ SchedulesImm acts e := by
  induction acts generalizing active with
  | nil => simp [immAfter, SchedulesImm]
  | cons act acts ih =>
      have hrest : NoRestore acts := fun cm hcm => h cm (List.mem_cons_of_mem _ hcm)
      have hcons : ∀ active', immAfter active (act :: acts) = immAfter active' acts →
          (active' e = true ↔ active e = true ∨ act = .call (.scheduleImm e)) →
          (immAfter active (act :: acts) e = true ↔
            active e = true ∨ SchedulesImm (act :: acts) e) := by
        intro active' heq hfirst
        rw [heq, ih hrest, hfirst, SchedulesImm, SchedulesImm, List.mem_cons, or_assoc]
        simp only [eq_comm]
      cases act with
      | restore cm => exact absurd List.mem_cons_self (h cm)
      | call c =>
          cases c with
          | scheduleImm i =>
              refine hcons (Function.update active i true) rfl ?_
              by_cases hi : e = i
              · simp [hi]
              · simp [hi, Ne.symm hi]
          | schedule n i => exact hcons active rfl (by simp)
          | scheduleFromDue n i => exact hcons active rfl (by simp)

/-! ## A check -/

/-- `cm_check_events` with an empty log. -/
def ActHandlers.check (H : ActHandlers D) (fuel : ℕ) (emu : Emu D) :
    Option (CheckResult (Logged D)) :=
  cmCheckEvents H.logged fuel ⟨emu.cm, emu.dev, [], []⟩

/-- The live mask is what the acts in the log made of the cleared one. -/
def MaskLogged (emu : Emu (Logged D)) : Prop :=
  emu.cm.activeImmEvents = immAfter (fun _ => false) emu.dev.acts

/-- The acts of a handler go to the log. -/
theorem MaskLogged.acts {emu : Emu (Logged D)} (h : MaskLogged emu) {cm : CycleManager}
    (hcm : cm.activeImmEvents = emu.cm.activeImmEvents) (acts : List CmAct) :
    (runActs cm acts).activeImmEvents = immAfter (fun _ => false) (emu.dev.acts ++ acts) := by
  rw [runActs_activeImmEvents, immAfter_append, hcm, ← h]

/-- The log of the immediate dispatch. -/
theorem dispatchImm_imm (H : ActHandlers D) (emu : Emu (Logged D)) :
    (dispatchImm H.logged emu).dev.imm = emu.dev.imm ++ emu.cm.pendingImm := by
  have hloop : ∀ (pending : List ImmEventType) (start : Emu (Logged D)),
      (pending.foldl (fun emu e => H.logged.imm e emu) start).dev.imm =
        start.dev.imm ++ pending := by
    intro pending
    induction pending with
    | nil => exact fun start => (List.append_nil _).symm
    | cons e pending ih =>
        intro start
        rw [List.foldl_cons, ih]
        exact List.append_cons .. |>.symm
  exact hloop _ _

/-- The mask after the immediate dispatch. -/
theorem dispatchImm_mask (H : ActHandlers D) {emu : Emu (Logged D)} (hacts : emu.dev.acts = []) :
    MaskLogged (dispatchImm H.logged emu) := by
  refine dispatchImm_invariant H.logged (I := MaskLogged) (fun _ e hs => hs.acts rfl _) ?_
  unfold MaskLogged
  rw [hacts]
  rfl

/-- The rest of the check only adds to the log. -/
theorem check_logged {H : ActHandlers D} {fuel : ℕ} {emu : Emu D} {r : CheckResult (Logged D)}
    (h : H.check fuel emu = some r) :
    MaskLogged r.emu ∧ r.emu.dev.imm = emu.cm.pendingImm := by
  have hmask : MaskLogged (dispatchImm H.logged ⟨emu.cm, emu.dev, [], []⟩) :=
    dispatchImm_mask H rfl
  have himm := dispatchImm_imm H ⟨emu.cm, emu.dev, [], []⟩
  obtain ⟨-, ⟨-, -, -, hend⟩ | ⟨-, -, t, hdrain, hend⟩⟩ := cmCheckEvents_cases h
  · rw [hend]
    exact ⟨hmask, himm⟩
  · have ht := drain_invariant H.logged
      (I := fun emu' => MaskLogged emu' ∧ emu'.dev.imm = emu.cm.pendingImm)
      (fun emu' e due _ hs =>
        ⟨@MaskLogged.acts D emu' hs.1 (emu'.cm.beginDispatch e due) rfl _, hs.2⟩) hdrain ⟨hmask, himm⟩
    rw [hend]
    unfold rebase
    split_ifs
    · exact ht
    · exact ht

/-- The pending events are dispatched in table order, each once. -/
theorem pendingImm_pairwise (cm : CycleManager) :
    cm.pendingImm.Pairwise fun e e' => ImmEventType.all.idxOf e < ImmEventType.all.idxOf e' := by
  have hall : ImmEventType.all.Pairwise fun e e' =>
      ImmEventType.all.idxOf e < ImmEventType.all.idxOf e' := by decide
  exact hall.sublist List.filter_sublist

theorem mem_pendingImm {cm : CycleManager} {e : ImmEventType} :
    e ∈ cm.pendingImm ↔ cm.activeImmEvents e = true := by
  simp [CycleManager.pendingImm]

/-- **Immediate events** in a check, whatever the handlers do.  The scan of the mask runs their
handlers.  Those pending at its start are
dispatched once each in table order.  Those a handler schedules are pending at its end, if no
handler replaces the scheduler; if one does, those of the restored scheduler and those scheduled
since.  What is pending is dispatched by the next check. -/
theorem imm_events_law {H : ActHandlers D} {fuel : ℕ} {emu : Emu D} {r : CheckResult (Logged D)}
    (h : H.check fuel emu = some r) :
    (∀ start, dispatchImm H.logged start = bitScan (immLut H.logged) 32
        (immMask start.cm.activeImmEvents) 0 { start with cm := start.cm.takeImm }) ∧
      (r.emu.dev.imm.Pairwise fun e e' =>
        ImmEventType.all.idxOf e < ImmEventType.all.idxOf e') ∧
      (∀ e, e ∈ r.emu.dev.imm ↔ emu.cm.activeImmEvents e = true) ∧
      (NoRestore r.emu.dev.acts → ∀ e,
        r.emu.cm.activeImmEvents e = true ↔ SchedulesImm r.emu.dev.acts e) ∧
      (∀ before cm after, r.emu.dev.acts = before ++ .restore cm :: after → NoRestore after →
        ∀ e, r.emu.cm.activeImmEvents e = true ↔
          cm.activeImmEvents e = true ∨ SchedulesImm after e) ∧
      ∀ between, NoRestore between → ∀ fuel' dev' r',
        H.check fuel' ⟨runActs r.emu.cm between, dev'⟩ = some r' →
          ∀ e, r.emu.cm.activeImmEvents e = true → e ∈ r'.emu.dev.imm := by
  obtain ⟨hmask, himm⟩ := check_logged h
  refine ⟨dispatchImm_eq_scan _, ?_, ?_, ?_, ?_, ?_⟩
  · rw [himm]
    exact pendingImm_pairwise _
  · intro e
    rw [himm]
    exact mem_pendingImm
  · intro hno e
    rw [hmask, immAfter_eq_true hno]
    simp
  · intro before cm after hacts hno e
    rw [hmask, hacts, immAfter_append]
    exact immAfter_eq_true hno e
  · intro between hno fuel' dev' r' hnext e he
    rw [(check_logged hnext).2, mem_pendingImm, runActs_activeImmEvents, immAfter_eq_true hno]
    exact .inl he

/-- A cpu interrupt that asks for another one and for a transfer. -/
def repeatingHandlers : ActHandlers Unit where
  imm e _ :=
    if e = .cpuInterrupt then
      ([.call (.scheduleImm .cpuInterrupt), .call (.scheduleImm .dma0)], ())
    else ([], ())
  event _ _ := ([], ())
  timersOnOverflow _ _ := ()

/-- **Both are left for the next check.** -/
theorem repeatingHandlers_pending : ∃ r,
    repeatingHandlers.check 1 ⟨CycleManager.init.scheduleImm .cpuInterrupt, ()⟩ = some r ∧
      (∀ e, e ∈ r.emu.dev.imm ↔ e = .cpuInterrupt) ∧
      ∀ e, r.emu.cm.activeImmEvents e = true ↔ e = .cpuInterrupt ∨ e = .dma0 := by
  have hrun : ∃ r, repeatingHandlers.check 1
      ⟨CycleManager.init.scheduleImm .cpuInterrupt, ()⟩ = some r ∧
      r.emu.dev.acts = [.call (.scheduleImm .cpuInterrupt), .call (.scheduleImm .dma0)] :=
    ⟨_, rfl, rfl⟩
  obtain ⟨r, hr, hacts⟩ := hrun
  obtain ⟨-, -, hdispatched, hpending, -⟩ := imm_events_law hr
  refine ⟨r, hr, fun e => ?_, fun e => ?_⟩
  · rw [hdispatched]
    cases e <;> decide
  · rw [hpending (by rw [hacts]; exact fun cm => by simp), hacts]
    cases e <;> simp [SchedulesImm]

/-- A vblank that starts a transfer, and a savestate loaded at its hook. -/
def restoringHandlers : ActHandlers Unit where
  imm _ _ := ([], ())
  event _ _ := ([.call (.scheduleImm .dma0), .restore CycleManager.init], ())
  timersOnOverflow _ _ := ()

/-- **A restore drops what was scheduled before it.** -/
theorem restoringHandlers_drop : ¬ ∀ (H : ActHandlers Unit) (fuel : ℕ) (emu : Emu Unit)
    (r : CheckResult (Logged Unit)), H.check fuel emu = some r →
      ∀ e, SchedulesImm r.emu.dev.acts e → r.emu.cm.activeImmEvents e = true := by
  intro hall
  have hrun : ∃ r, restoringHandlers.check 2
      ⟨{ CycleManager.init.arm 0 .gpuScanline308 with nextEventCycle := 0 }, ()⟩ = some r ∧
      r.emu.dev.acts = [.call (.scheduleImm .dma0), .restore CycleManager.init] ∧
      r.emu.cm.activeImmEvents .dma0 = false := ⟨_, rfl, rfl, rfl⟩
  obtain ⟨r, hr, hacts, hdropped⟩ := hrun
  have hpending := hall _ _ _ r hr .dma0 (by rw [hacts]; exact List.mem_cons_self)
  rw [hdropped] at hpending
  exact Bool.false_ne_true hpending

end Scheduler

end AdvancedSlop
