/-
# A restore resumes the saved timeline

A savestate is loaded, and a rewind snapshot stepped back to, in the vblank hook, that is inside
the dispatch loop of a running check.  What the walk skips and the loop still holds from the old
timeline is `current_event_due` and the cycle count of the running slice; neither is looked at
again (`Blind`), so the session goes on as the saved one would have.  The keypad edge memory and
the host's side are skipped by the walk too, and are looked at.

* `drain_forget`, `executeJit_forget` : the rest of a session does not look at what is skipped;
* `restore_resumes` : with the same host side a restored session dispatches what the saved one
  dispatches, and its drain ends;
* `restored_keypad_differs` : with another keypad edge memory it does not.
-/
import AdvancedSlop.Session
import AdvancedSlop.TransitionSystem

namespace AdvancedSlop

open TransitionSystem

variable {G Q : Type*}

/-! ## What is not looked at -/

/-- The cycle count of the running slice is erased. -/
def calm (m : SessionMachine G Q) : SessionMachine G Q :=
  { m with dev := { m.dev with accumulatedCycles := 0 } }

/-- The due cycle of the last dispatch is erased too. -/
def blur (m : SessionMachine G Q) : SessionMachine G Q :=
  { calm m with cm := { m.cm with currentEventDue := 0 } }

/-- One of the two. -/
def Forgets (forget : SessionMachine G Q → SessionMachine G Q) : Prop :=
  forget = calm ∨ forget = blur

section Blind

variable {forget : SessionMachine G Q → SessionMachine G Q}

theorem Forgets.idem (h : Forgets forget) (m : SessionMachine G Q) :
    forget (forget m) = forget m := by
  rcases h with rfl | rfl <;> rfl

/-- A check for interrupts looks at neither. -/
theorem Forgets.check (h : Forgets forget) :
    Blind forget (cpuCheckForInterrupt : SessionMachine G Q → SessionMachine G Q) := by
  rcases h with rfl | rfl
  · exact Blind.ite (fun _ => Iff.rfl) (fun _ => rfl) (fun _ => rfl)
  · exact Blind.ite (fun _ => Iff.rfl) (fun _ => rfl) (fun _ => rfl)

/-- Sending an interrupt looks at neither. -/
theorem Forgets.send (h : Forgets forget) (flag : InterruptFlag) :
    Blind forget (cpuSendInterrupt flag : SessionMachine G Q → SessionMachine G Q) := by
  have hcheck := h.check
  have hdeliver : Blind forget (deliverInterrupt : SessionMachine G Q → SessionMachine G Q) := by
    rcases h with rfl | rfl
    · exact Blind.ite (fun _ => Iff.rfl) (Blind.ite (fun _ => Iff.rfl) hcheck fun _ => rfl)
        fun _ => rfl
    · exact Blind.ite (fun _ => Iff.rfl) (Blind.ite (fun _ => Iff.rfl) hcheck fun _ => rfl)
        fun _ => rfl
  refine Blind.comp (f := raiseInterrupt flag) ?_ hdeliver
  rcases h with rfl | rfl <;> exact fun _ => rfl

/-- The keypad interrupt, without the edge memory. -/
def keypadIrq (m : SessionMachine G Q) : SessionMachine G Q :=
  if (keypadHit m.dev.rest && !m.dev.rest.prevKeypadIrq) = true then cpuSendInterrupt .keypad m
  else m

/-- The edge memory. -/
def rememberHit (m : SessionMachine G Q) : SessionMachine G Q :=
  m.withRest { m.dev.rest with prevKeypadIrq := keypadHit m.dev.rest }

theorem inputProcessHotkeys_eq (m : SessionMachine G Q) :
    inputProcessHotkeys m =
      if m.dev.rest.keyCnt.getLsbD 14 = true then rememberHit (keypadIrq m)
      else m.withRest { m.dev.rest with prevKeypadIrq := false } := by
  have hrest : (keypadIrq m).dev.rest = m.dev.rest := by
    unfold keypadIrq
    split
    · exact cpuSendInterrupt_rest _ _
    · rfl
  have hremember : rememberHit (keypadIrq m) =
      (keypadIrq m).withRest { (keypadIrq m).dev.rest with
        prevKeypadIrq := keypadHit m.dev.rest } := by
    rw [rememberHit, hrest]
  rw [hremember]
  rfl

/-- The keypad check looks at neither. -/
theorem Forgets.hotkeys (h : Forgets forget) :
    Blind forget (inputProcessHotkeys : SessionMachine G Q → SessionMachine G Q) := by
  have hsend := h.send .keypad
  have hirq : Blind forget (keypadIrq : SessionMachine G Q → SessionMachine G Q) := by
    rcases h with rfl | rfl <;> exact Blind.ite (fun _ => Iff.rfl) hsend fun _ => rfl
  rw [show (inputProcessHotkeys : SessionMachine G Q → SessionMachine G Q) = _ from
    funext inputProcessHotkeys_eq]
  rcases h with rfl | rfl <;> exact Blind.ite (fun _ => Iff.rfl)
    (Blind.comp (g := rememberHit) hirq fun _ => rfl) fun _ => rfl

end Blind

/-! ## The handlers -/

section Handlers

variable (C : Code G Q)

theorem Forgets.calm : Forgets (AdvancedSlop.calm : SessionMachine G Q → SessionMachine G Q) :=
  Or.inl rfl

theorem Forgets.blur : Forgets (AdvancedSlop.blur : SessionMachine G Q → SessionMachine G Q) :=
  Or.inr rfl

theorem blind_sendDispInterrupt (bit : ℕ) (flag : InterruptFlag) :
    Blind calm (sendDispInterrupt bit flag : SessionMachine G Q → SessionMachine G Q) :=
  Blind.ite (fun _ => Iff.rfl) (Forgets.calm.send flag) fun _ => rfl

/-- The handler of the line end does not look at the running slice. -/
theorem blind_lineEnd : Blind calm (lineEnd C) := by
  have hvblank : Blind calm fun m : SessionMachine G Q =>
      triggerVBlankDma C (sendDispInterrupt 3 .lcdVBlank (withGpu m { m.dev.rest.gpu with
        dispStat := setDispFlag m.dev.rest.gpu.dispStat 0 true })) :=
    Blind.comp (g := triggerVBlankDma C)
      (Blind.comp (f := fun m => withGpu m { m.dev.rest.gpu with
        dispStat := setDispFlag m.dev.rest.gpu.dispStat 0 true }) (fun _ => rfl)
        (blind_sendDispInterrupt 3 .lcdVBlank)) fun _ => rfl
  have hstart : Blind calm (lineStart C) :=
    Blind.ite (fun _ => Iff.rfl) hvblank (Blind.ite (fun _ => Iff.rfl) (fun _ => rfl)
      (Blind.ite (fun _ => Iff.rfl) (fun _ => rfl) fun _ => rfl))
  have hmatch : Blind calm (matchLine : SessionMachine G Q → SessionMachine G Q) :=
    Blind.ite (fun _ => Iff.rfl)
      (Blind.comp (f := fun m => withGpu m { m.dev.rest.gpu with
        dispStat := setDispFlag m.dev.rest.gpu.dispStat 2 true }) (fun _ => rfl)
        (blind_sendDispInterrupt 5 .lcdVCounterMatch)) fun _ => rfl
  have hcount : Blind calm fun m : SessionMachine G Q =>
      withGpu m { m.dev.rest.gpu with vCount := (m.dev.rest.gpu.vCount + 1) % 65536 } :=
    fun _ => rfl
  have hlast : Blind calm fun m : SessionMachine G Q =>
      let m := withGpu m { m.dev.rest.gpu with
        dispStat := setDispFlag m.dev.rest.gpu.dispStat 1 false }
      { m with cm := m.cm.scheduleFromDue hdrawCycles.toNat .gpuScanline240 } := fun _ => rfl
  exact ((hcount.comp hstart).comp hmatch).comp hlast

/-- Taking a pending restore does not look at the running slice. -/
theorem blind_takeRequest : Blind calm (takeRequest C) := by
  intro m
  obtain ⟨cm, regs, cpu, acc, ⟨gpu, keyInput, keyCnt, other, keyMap, prev, host, pending⟩⟩ := m
  rcases pending with _ | ⟨_ | data⟩ | snapshot <;> rfl

theorem blind_gpuOnScanline308 : Blind calm (gpuOnScanline308 C) := by
  have hhook : Blind calm (vblankHook C) :=
    Blind.comp (f := takeRequest C) (blind_takeRequest C) Forgets.calm.hotkeys
  have htail : Blind calm fun m : SessionMachine G Q =>
      if m.dev.rest.gpu.vCount = visibleLines then vblankHook C m else m :=
    Blind.ite (fun _ => Iff.rfl) hhook fun _ => rfl
  exact (blind_lineEnd C).comp htail

/-- A handler does not look at the running slice. -/
theorem blind_event (e : EventType) : Blind calm (C.toHandlers.event e) := by
  cases e with
  | gpuScanline308 => exact blind_gpuOnScanline308 C
  | _ => exact fun _ => rfl

/-- **A dispatch looks at neither**: the due cycle it hands out is the event's own. -/
theorem blind_dispatch (e : EventType) (due : ℕ) : Blind blur (dispatch C.toHandlers e due) := by
  intro m
  set m₁ : SessionMachine G Q := { m with cm := m.cm.beginDispatch e due }
  have hblur : ∀ u : SessionMachine G Q, blur u = blur (calm u) := fun _ => rfl
  show blur (C.toHandlers.event e m₁) = blur (C.toHandlers.event e (calm m₁))
  rw [hblur, blind_event C e m₁, ← hblur]

/-- Calls other than `schedule_from_due` do not look at the due cycle. -/
theorem runCalls_setDue (cm : CycleManager) (due : ℕ) {calls : List CmCall}
    (h : ∀ n e, CmCall.scheduleFromDue n e ∉ calls) :
    runCalls { cm with currentEventDue := due } calls =
      { runCalls cm calls with currentEventDue := due } := by
  induction calls generalizing cm with
  | nil => rfl
  | cons call calls ih =>
      have htail : ∀ n e, CmCall.scheduleFromDue n e ∉ calls :=
        fun n e hmem => h n e (List.mem_cons_of_mem _ hmem)
      rw [runCalls_cons, runCalls_cons]
      cases call with
      | schedule n e => exact ih (cm.schedule n.toNat e) htail
      | scheduleFromDue n e => exact absurd List.mem_cons_self (h n e)
      | scheduleImm e => exact ih (cm.scheduleImm e) htail

/-- An immediate handler looks at neither. -/
theorem blind_imm (e : ImmEventType) : Blind blur (C.toHandlers.imm e) := by
  intro m
  have hno := C.imm_no_due e m.cm.cycleCount (viewOf m)
  show blur (takeOver m (C.imm e m.cm.cycleCount (viewOf m))) =
    blur (takeOver (blur m) (C.imm e m.cm.cycleCount (viewOf m)))
  have hcalls := runCalls_setDue m.cm 0 hno
  show blur _ = ({ calm (withView m (C.imm e m.cm.cycleCount (viewOf m)).2) with
    cm := { runCalls { m.cm with currentEventDue := 0 } _ with currentEventDue := 0 } } :
      SessionMachine G Q)
  rw [hcalls]
  rfl

end Handlers

/-! ## The loop -/

section Loop

variable (C : Code G Q)

/-- Equal images under `f` are bound to equal results by what only looks at the images. -/
theorem bind_eq_of_map_eq {α β γ : Type*} {o o' : Option α} {f : α → β} {g : α → Option γ}
    (h : o.map f = o'.map f) (hg : ∀ x y, f x = f y → g x = g y) : o.bind g = o'.bind g := by
  cases o with
  | none =>
      cases o' with
      | none => rfl
      | some y => simp at h
  | some x =>
      cases o' with
      | none => simp at h
      | some y => exact hg x y (Option.some.inj h)

/-- Machines that agree on all but what is skipped agree on what the loop tests. -/
theorem blur_tests {m m' : SessionMachine G Q} (h : blur m = blur m') :
    m.cm.bestEvent = m'.cm.bestEvent ∧ m.cm.pendingImm = m'.cm.pendingImm ∧
      m.cm.cycleCount = m'.cm.cycleCount ∧ m.cm.nextEventCycle = m'.cm.nextEventCycle := by
  have hbest := congrArg (fun u : SessionMachine G Q => u.cm.bestEvent) h
  have hpending := congrArg (fun u : SessionMachine G Q => u.cm.pendingImm) h
  have hclock := congrArg (fun u : SessionMachine G Q => u.cm.cycleCount) h
  have hnext := congrArg (fun u : SessionMachine G Q => u.cm.nextEventCycle) h
  exact ⟨hbest, hpending, hclock, hnext⟩

/-- The drain does not look at what is skipped. -/
theorem drain_forget (fuel : ℕ) {m m' : SessionMachine G Q} (h : blur m = blur m') :
    (drain C.toHandlers fuel m).map (fun r => (r.1, blur r.2)) =
      (drain C.toHandlers fuel m').map fun r => (r.1, blur r.2) := by
  induction fuel generalizing m m' with
  | zero => rfl
  | succ fuel ih =>
      have hbest := (blur_tests h).1
      rcases hb : m.cm.bestEvent with ⟨_ | e, due⟩
      · rw [drain_none (by rw [hb]), drain_none (by rw [← hbest, hb])]
        simp [h]
      · rw [drain_some hb, drain_some (hbest ▸ hb), Option.map_map, Option.map_map]
        have hnext := ih ((blind_dispatch C e due).congr h)
        have := congrArg (Option.map fun r : List (ℕ × EventType) × SessionMachine G Q =>
          ((due, e) :: r.1, r.2)) hnext
        rwa [Option.map_map, Option.map_map] at this

theorem dispatchImm_forget {m m' : SessionMachine G Q} (h : blur m = blur m') :
    blur (dispatchImm C.toHandlers m) = blur (dispatchImm C.toHandlers m') := by
  have hpending := (blur_tests h).2.1
  have htake : Blind blur fun u : SessionMachine G Q => { u with cm := u.cm.takeImm } :=
    fun _ => rfl
  have hfold : ∀ (es : List ImmEventType) (u u' : SessionMachine G Q), blur u = blur u' →
      blur (es.foldl (fun u e => C.toHandlers.imm e u) u) =
        blur (es.foldl (fun u e => C.toHandlers.imm e u) u') := by
    intro es
    induction es with
    | nil => exact fun _ _ hu => hu
    | cons e es ih => exact fun u u' hu => ih _ _ ((blind_imm C e).congr hu)
  unfold dispatchImm
  rw [← hpending]
  exact hfold _ _ _ (htake.congr h)

/-- The end of a check. -/
theorem blind_finish : Blind blur fun m => rebase C.toHandlers (recompute m) :=
  Blind.comp (f := fun m : SessionMachine G Q => recompute m) (fun _ => rfl)
    (Blind.ite (fun _ => Iff.rfl) (fun _ => rfl) fun _ => rfl)

/-- A check does not look at what is skipped. -/
theorem cmCheckEvents_forget (fuel : ℕ) {m m' : SessionMachine G Q} (h : blur m = blur m') :
    (cmCheckEvents C.toHandlers fuel m).map (fun r => (r.imm, r.timed, r.ran, blur r.emu)) =
      (cmCheckEvents C.toHandlers fuel m').map fun r => (r.imm, r.timed, r.ran, blur r.emu) := by
  have hpending := (blur_tests h).2.1
  have himm := dispatchImm_forget C h
  obtain ⟨-, -, hclock, hnext⟩ := blur_tests himm
  have hforget : Blind blur fun u : SessionMachine G Q => forgetNext u := fun _ => rfl
  unfold cmCheckEvents
  simp only
  rw [← hclock, ← hnext, ← hpending]
  split
  · simp [himm]
  · have hdrain := drain_forget C fuel (hforget.congr himm)
    rw [Option.map_map, Option.map_map, Option.map_eq_bind, Option.map_eq_bind]
    refine bind_eq_of_map_eq hdrain fun x y hxy => ?_
    obtain ⟨htimed, hblur⟩ := Prod.mk.inj hxy
    simp only [Function.comp_apply, htimed]
    rw [(blind_finish C).congr hblur]

/-- The second check after one that ran. -/
theorem checkAgain_forget (fuel : ℕ) (ran : Bool) {m m' : SessionMachine G Q}
    (h : blur m = blur m') :
    (checkAgain C fuel ran m).map (fun r => (r.1, blur r.2)) =
      (checkAgain C fuel ran m').map fun r => (r.1, blur r.2) := by
  unfold checkAgain
  cases ran with
  | false => simp [h]
  | true =>
      rw [if_pos rfl, if_pos rfl, Option.map_map, Option.map_map, Option.map_eq_bind,
        Option.map_eq_bind]
      refine bind_eq_of_map_eq (cmCheckEvents_forget C fuel h) fun x y hxy => ?_
      simp only [Prod.mk.injEq] at hxy
      obtain ⟨himm, htimed, -, hemu⟩ := hxy
      simp only [Function.comp_apply, himm, htimed, hemu]

/-- A slice that waits for the next event. -/
theorem execute_of_none {sl : Slice G Q} {m : SessionMachine G Q}
    (h : (sl.run m.cm.cycleCount (viewOf m)).2.2 = none) :
    sl.execute m =
      (fun u : SessionMachine G Q => { u with cm := u.cm.jumpToNextEvent })
        (takeOver m ((sl.run m.cm.cycleCount (viewOf m)).1,
          (sl.run m.cm.cycleCount (viewOf m)).2.1)) := by
  rw [Slice.execute]
  simp only [h]

/-- A slice that took its cycles. -/
theorem execute_of_some {sl : Slice G Q} {m : SessionMachine G Q} {cycles : ℕ}
    (h : (sl.run m.cm.cycleCount (viewOf m)).2.2 = some cycles) :
    sl.execute m =
      (fun u : SessionMachine G Q => { u with cm := u.cm.addCycles cycles })
        (takeOver m ((sl.run m.cm.cycleCount (viewOf m)).1,
          (sl.run m.cm.cycleCount (viewOf m)).2.1)) := by
  rw [Slice.execute]
  simp only [h]

/-- A slice of guest code looks at neither. -/
theorem blind_execute (sl : Slice G Q) : Blind blur sl.execute := by
  intro m
  have hno := sl.no_due m.cm.cycleCount (viewOf m)
  have hcalls := runCalls_setDue m.cm 0 hno
  have hrun : blur (takeOver m ((sl.run m.cm.cycleCount (viewOf m)).1,
      (sl.run m.cm.cycleCount (viewOf m)).2.1)) =
      blur (takeOver (blur m) ((sl.run m.cm.cycleCount (viewOf m)).1,
        (sl.run m.cm.cycleCount (viewOf m)).2.1)) := by
    show blur _ = ({ calm (withView m (sl.run m.cm.cycleCount (viewOf m)).2.1) with
      cm := { runCalls { m.cm with currentEventDue := 0 } _ with currentEventDue := 0 } } :
        SessionMachine G Q)
    rw [hcalls]
    rfl
  have hjump : Blind blur fun u : SessionMachine G Q => { u with cm := u.cm.jumpToNextEvent } := by
    intro u
    show blur { u with cm := u.cm.jumpToNextEvent } =
      blur { blur u with cm := (blur u).cm.jumpToNextEvent }
    unfold CycleManager.jumpToNextEvent
    by_cases hlt : u.cm.cycleCount < u.cm.nextEventCycle
    · rw [if_pos hlt, if_pos (show (blur u).cm.cycleCount < (blur u).cm.nextEventCycle from hlt)]
      rfl
    · rw [if_neg hlt,
        if_neg (show ¬ (blur u).cm.cycleCount < (blur u).cm.nextEventCycle from hlt)]
      rfl
  have hadd : ∀ cycles, Blind blur fun u : SessionMachine G Q =>
      { u with cm := u.cm.addCycles cycles } := fun _ _ => rfl
  cases hcycles : (sl.run m.cm.cycleCount (viewOf m)).2.2 with
  | none =>
      rw [execute_of_none hcycles, execute_of_none (show
        (sl.run (blur m).cm.cycleCount (viewOf (blur m))).2.2 = none from hcycles)]
      exact hjump.congr hrun
  | some cycles =>
      rw [execute_of_some hcycles, execute_of_some (show
        (sl.run (blur m).cm.cycleCount (viewOf (blur m))).2.2 = some cycles from hcycles)]
      exact (hadd cycles).congr hrun

/-- **The rest of a session does not look at what is skipped.** -/
theorem executeJit_forget (fuel : ℕ) (slices : List (Slice G Q)) {m m' : SessionMachine G Q}
    (h : blur m = blur m') : executeJit C fuel slices m = executeJit C fuel slices m' := by
  induction slices generalizing m m' with
  | nil => rfl
  | cons sl slices ih =>
      refine bind_eq_of_map_eq (cmCheckEvents_forget C fuel ((blind_execute sl).congr h))
        fun x y hxy => ?_
      simp only [Prod.mk.injEq] at hxy
      obtain ⟨himm, htimed, hran, hemu⟩ := hxy
      rw [himm, htimed, hran]
      refine bind_eq_of_map_eq (checkAgain_forget C fuel y.ran hemu) fun u v huv => ?_
      obtain ⟨hagain, hblur⟩ := Prod.mk.inj huv
      rw [hagain, ih hblur]

theorem continueFrom_forget (fuel : ℕ) (slices : List (Slice G Q)) {m m' : SessionMachine G Q}
    (h : blur m = blur m') : continueFrom C fuel slices m = continueFrom C fuel slices m' := by
  refine bind_eq_of_map_eq (drain_forget C fuel h) fun x y hxy => ?_
  obtain ⟨htimed, hblur⟩ := Prod.mk.inj hxy
  rw [htimed]
  refine bind_eq_of_map_eq (checkAgain_forget C fuel true ((blind_finish C).congr hblur))
    fun u v huv => ?_
  obtain ⟨hagain, hblur'⟩ := Prod.mk.inj huv
  rw [hagain, executeJit_forget C fuel slices hblur']

end Loop

/-! ## The drain ends -/

/-- From `m` to `m'` the scheduler was only called, with positive deltas, and no restore became
pending. -/
def OnlyCalls (m m' : SessionMachine G Q) : Prop :=
  m'.dev.rest.pending = m.dev.rest.pending ∧
    ∃ calls, m'.cm = runCalls m.cm calls ∧
      ∀ n e, CmCall.scheduleFromDue n e ∈ calls → 1 ≤ n.toNat

section Ends

variable {m m' m'' : SessionMachine G Q}

theorem OnlyCalls.of_cm (hcm : m'.cm = m.cm) (hp : m'.dev.rest.pending = m.dev.rest.pending) :
    OnlyCalls m m' :=
  ⟨hp, [], hcm, by simp⟩

theorem OnlyCalls.trans (h : OnlyCalls m m') (h' : OnlyCalls m' m'') : OnlyCalls m m'' := by
  obtain ⟨hp, calls, hcm, hpos⟩ := h
  obtain ⟨hp', calls', hcm', hpos'⟩ := h'
  refine ⟨hp'.trans hp, calls ++ calls', by rw [runCalls_append, ← hcm, ← hcm'], ?_⟩
  intro n e hmem
  rcases List.mem_append.mp hmem with hmem | hmem
  · exact hpos n e hmem
  · exact hpos' n e hmem

theorem onlyCalls_send (flag : InterruptFlag) (m : SessionMachine G Q) :
    OnlyCalls m (cpuSendInterrupt flag m) := by
  refine ⟨by rw [cpuSendInterrupt_rest], ?_⟩
  unfold cpuSendInterrupt cpuCheckForInterrupt
  simp only
  split
  · split
    · split
      · exact ⟨[.scheduleImm .cpuInterrupt], rfl, by simp⟩
      · exact ⟨[], rfl, by simp⟩
    · exact ⟨[], rfl, by simp⟩
  · exact ⟨[], rfl, by simp⟩

theorem onlyCalls_sendDisp (bit : ℕ) (flag : InterruptFlag) (m : SessionMachine G Q) :
    OnlyCalls m (sendDispInterrupt bit flag m) := by
  unfold sendDispInterrupt
  split
  · exact onlyCalls_send flag m
  · exact OnlyCalls.of_cm rfl rfl

theorem onlyCalls_hotkeys (m : SessionMachine G Q) : OnlyCalls m (inputProcessHotkeys m) := by
  rw [inputProcessHotkeys_eq]
  split
  · have hirq : OnlyCalls m (keypadIrq m) := by
      unfold keypadIrq
      split
      · exact onlyCalls_send .keypad m
      · exact OnlyCalls.of_cm rfl rfl
    exact hirq.trans (OnlyCalls.of_cm rfl rfl)
  · exact OnlyCalls.of_cm rfl rfl

theorem onlyCalls_lineStart (C : Code G Q) (m : SessionMachine G Q) :
    OnlyCalls m (lineStart C m) := by
  have hdma : ∀ u : SessionMachine G Q, OnlyCalls u (triggerVBlankDma C u) := by
    intro u
    refine ⟨rfl, (C.dmaTriggerAll u.dev.rest.other).map .scheduleImm, ?_, by simp⟩
    show (C.dmaTriggerAll u.dev.rest.other).foldl CycleManager.scheduleImm u.cm =
      ((C.dmaTriggerAll u.dev.rest.other).map CmCall.scheduleImm).foldl CmCall.run u.cm
    rw [List.foldl_map]
    rfl
  unfold lineStart
  simp only
  split
  · refine OnlyCalls.trans ?_ (hdma _)
    refine OnlyCalls.trans ?_ (onlyCalls_sendDisp 3 .lcdVBlank _)
    exact OnlyCalls.of_cm rfl rfl
  · split
    · exact OnlyCalls.of_cm rfl rfl
    · split <;> exact OnlyCalls.of_cm rfl rfl

theorem onlyCalls_lineEnd (C : Code G Q) (m : SessionMachine G Q) :
    OnlyCalls m (lineEnd C m) := by
  have hmatch : ∀ u : SessionMachine G Q, OnlyCalls u (matchLine u) := by
    intro u
    unfold matchLine
    simp only
    split
    · refine OnlyCalls.trans ?_ (onlyCalls_sendDisp 5 .lcdVCounterMatch _)
      exact OnlyCalls.of_cm rfl rfl
    · exact OnlyCalls.of_cm rfl rfl
  have hschedule : ∀ u : SessionMachine G Q, OnlyCalls u
      { u with cm := u.cm.scheduleFromDue hdrawCycles.toNat .gpuScanline240 } := by
    refine fun u => ⟨rfl, [.scheduleFromDue hdrawCycles .gpuScanline240], rfl, fun n e hmem => ?_⟩
    obtain ⟨rfl, -⟩ : n = hdrawCycles ∧ e = .gpuScanline240 := by simpa using hmem
    decide
  refine OnlyCalls.trans ?_ (hschedule _)
  refine OnlyCalls.trans ?_ (OnlyCalls.of_cm rfl rfl)
  refine OnlyCalls.trans ?_ (hmatch _)
  refine OnlyCalls.trans ?_ (onlyCalls_lineStart C _)
  exact OnlyCalls.of_cm rfl rfl

/-- Without a pending restore a handler only calls the scheduler. -/
theorem onlyCalls_event (C : Code G Q) (e : EventType) (hm : m.dev.rest.pending = none) :
    OnlyCalls m (C.toHandlers.event e m) := by
  have hquiet : ∀ u : SessionMachine G Q, u.dev.rest.pending = none →
      OnlyCalls u (vblankHook C u) := by
    intro u hu
    have htake : takeRequest C u = u.withRest { u.dev.rest with pending := none } := by
      unfold takeRequest
      rw [hu]
    refine OnlyCalls.trans ?_ (onlyCalls_hotkeys _)
    rw [htake]
    exact OnlyCalls.of_cm rfl hu.symm
  have hline := onlyCalls_lineEnd C m
  have hother : ∀ e clock due v, OnlyCalls m (takeOver m (C.event e clock due v)) :=
    fun e clock due v => ⟨rfl, _, rfl, fun n e' hmem => C.delta_pos e clock due v n e' hmem⟩
  cases e with
  | gpuScanline308 =>
      show OnlyCalls m (gpuOnScanline308 C m)
      unfold gpuOnScanline308
      simp only
      split
      · exact hline.trans (hquiet _ (hline.1.trans hm))
      · exact hline
  | _ => exact hother _ _ _ _

/-- **What a dispatch does** while no restore is pending. -/
theorem dispatch_quiet (C : Code G Q) {e : EventType} {due : ℕ} (hm : m.dev.rest.pending = none)
    (hsel : m.cm.bestEvent = (some e, due)) :
    (dispatch C.toHandlers e due m).dev.rest.pending = none ∧
      (dispatch C.toHandlers e due m).cm.cycleCount = m.cm.cycleCount ∧
      Agenda.load (dispatch C.toHandlers e due m).cm.dueKey m.cm.cycleCount <
        Agenda.load m.cm.dueKey m.cm.cycleCount := by
  set m₁ : SessionMachine G Q := { m with cm := m.cm.beginDispatch e due }
  obtain ⟨hp, calls, hcm, hpos⟩ := onlyCalls_event (m := m₁) C e hm
  change (dispatch C.toHandlers e due m).cm = runCalls (m.cm.beginDispatch e due) calls at hcm
  refine ⟨hp.trans hm, ?_, ?_⟩
  · rw [hcm, runCalls_cycleCount]
    rfl
  · rw [hcm]
    exact runCalls_load_lt hpos hsel

/-- The drain ends. -/
theorem drain_quiet_ends (C : Code G Q) (hm : m.dev.rest.pending = none) :
    ∃ fuel r, drain C.toHandlers fuel m = some r := by
  obtain ⟨r, hr⟩ := drain_ends (H := C.toHandlers)
    (I := fun u : SessionMachine G Q => u.dev.rest.pending = none)
    (fun u e due hu hsel => dispatch_quiet C hu hsel) _ m hm (Nat.lt_succ_self _)
  exact ⟨_, r, hr⟩

/-- No event is dispatched before its due cycle. -/
theorem drain_quiet_due (C : Code G Q) {fuel : ℕ} {r : List (ℕ × EventType) × SessionMachine G Q}
    (h : drain C.toHandlers fuel m = some r) (hm : m.dev.rest.pending = none) :
    ∀ x ∈ r.1, x.1 ≤ m.cm.cycleCount := by
  refine drain_induction (P := fun _ u r => u.dev.rest.pending = none →
    ∀ x ∈ r.1, x.1 ≤ u.cm.cycleCount) ?_ ?_ h hm
  · simp
  · intro fuel u e due r hsel ih hu x hx
    obtain ⟨hp, hclock, -⟩ := dispatch_quiet C hu hsel
    rcases List.mem_cons.mp hx with rfl | hx
    · exact (CycleManager.bestEvent_some hsel).2.2.1
    · exact hclock ▸ ih hp x hx

end Ends

/-! ## The restore -/

/-- A dispatch loop that comes to the line end entering vblank goes on from the hook. -/
theorem drain_at_hook (C : Code G Q) {emu : SessionMachine G Q} {due : ℕ}
    (hsel : emu.cm.bestEvent = (some .gpuScanline308, due)) :
    let t := lineEnd C { emu with cm := emu.cm.beginDispatch .gpuScanline308 due }
    t.dev.rest.gpu.vCount = visibleLines → ∀ fuel,
      drain C.toHandlers (fuel + 1) emu =
        (drain C.toHandlers fuel (vblankHook C t)).map
          fun r => ((due, .gpuScanline308) :: r.1, r.2) := by
  intro t hline fuel
  have hdispatch : dispatch C.toHandlers .gpuScanline308 due emu = vblankHook C t := if_pos hline
  rw [drain_some hsel, hdispatch]

/-- The restored machine is the saved one, but for what is skipped. -/
theorem takeRequest_restored (C : Code G Q) {s t : SessionMachine G Q}
    (hs : s.dev.rest.pending = none)
    (ht : t.dev.rest.pending = some (.loadState (some (saveState s))) ∨
      t.dev.rest.pending = some (.stepBack (saveState s)))
    (hkeys : t.dev.rest.keyMap = s.dev.rest.keyMap)
    (hprev : t.dev.rest.prevKeypadIrq = s.dev.rest.prevKeypadIrq)
    (hhost : t.dev.rest.host = s.dev.rest.host)
    (hchip : C.cartridgeSavestatePostLoad s.dev.rest.other s.dev.rest.host = s.dev.rest.host) :
    blur (takeRequest C t) = blur (takeRequest C s) := by
  obtain ⟨cm, regs, cpu, acc, ⟨gpu, keyInput, keyCnt, other, keyMap, prev, host, pending⟩⟩ := s
  obtain ⟨cm', regs', cpu', acc', ⟨gpu', keyInput', keyCnt', other', keyMap', prev', host',
    pending'⟩⟩ := t
  simp only at hs hkeys hprev hhost hchip
  subst hs hkeys hprev hhost
  rcases ht with ht | ht
  · simp only at ht
    subst ht
    simp [takeRequest, savestatePostLoad, walkIn, withGuest, saveState, guestOf, Emu.withRest, blur,
      calm, hchip]
  · simp only at ht
    subst ht
    rfl

/-- **A restore resumes the saved timeline.**  `s` stands at its vblank hook and was saved there,
`t` at its own, with the saved state about to be restored; the host's side, the keypad edge memory
included, is the same.  Then from the hook on, the rest of the check and every later one, the two
sessions dispatch the same immediate events and the same due cycles and events; the drain ends;
and it dispatches no event before its due cycle. -/
theorem restore_resumes (C : Code G Q) {s t : SessionMachine G Q}
    (hs : s.dev.rest.pending = none)
    (ht : t.dev.rest.pending = some (.loadState (some (saveState s))) ∨
      t.dev.rest.pending = some (.stepBack (saveState s)))
    (hkeys : t.dev.rest.keyMap = s.dev.rest.keyMap)
    (hprev : t.dev.rest.prevKeypadIrq = s.dev.rest.prevKeypadIrq)
    (hhost : t.dev.rest.host = s.dev.rest.host)
    (hchip : C.cartridgeSavestatePostLoad s.dev.rest.other s.dev.rest.host = s.dev.rest.host) :
    (∀ fuel slices, continueFrom C fuel slices (vblankHook C t) =
      continueFrom C fuel slices (vblankHook C s)) ∧
    (∃ fuel r, drain C.toHandlers fuel (vblankHook C t) = some r) ∧
    ∀ fuel r, drain C.toHandlers fuel (vblankHook C t) = some r →
      ∀ x ∈ r.1, x.1 ≤ s.cm.cycleCount := by
  have hrestored := takeRequest_restored C hs ht hkeys hprev hhost hchip
  have hblur : blur (vblankHook C t) = blur (vblankHook C s) := Forgets.blur.hotkeys.congr hrestored
  have hpending : (vblankHook C t).dev.rest.pending = none := by
    rw [vblankHook, (onlyCalls_hotkeys _).1]
    have := congrArg (fun u : SessionMachine G Q => u.dev.rest.pending) hrestored
    refine Eq.trans this ?_
    show (takeRequest C s).dev.rest.pending = none
    unfold takeRequest
    rw [hs]
    rfl
  have hclock : (vblankHook C t).cm.cycleCount = s.cm.cycleCount := by
    rw [(blur_tests hblur).2.2.1]
    obtain ⟨-, calls, hcm, -⟩ := onlyCalls_hotkeys (takeRequest C s)
    rw [vblankHook, hcm, runCalls_cycleCount]
    unfold takeRequest
    rw [hs]
    rfl
  refine ⟨fun fuel slices => continueFrom_forget C fuel slices hblur, drain_quiet_ends C hpending,
    fun fuel r hr x hx => ?_⟩
  exact hclock ▸ drain_quiet_due C hr hpending x hx

/-- A program whose only events are those of the display. -/
def displayOnly : Code Unit Unit where
  imm _ _ v := ([], v)
  event e _ _ v :=
    match e with
    | .gpuScanline240 => ([.scheduleFromDue 272 .gpuScanline308], v)
    | _ => ([], v)
  dmaTriggerAll _ := []
  reloadInternalRefs g := g
  timersOnOverflow _ g := g
  cartridgeSavestatePostLoad _ host := host
  imm_no_due := by simp
  delta_pos := by
    intro e clock due v n e' hmem
    cases e <;> simp at hmem
    obtain ⟨rfl, -⟩ := hmem
    decide

/-- A session at a vblank hook: the next line event is armed, key A is held and selected for the
keypad interrupt, which is enabled and not masked. -/
def atVBlankHook (clock : ℕ) (prevKeypadIrq : Bool) (pending : Option (Restore Unit)) :
    SessionMachine Unit Unit where
  cm :=
    { cycleCount := clock
      events := fun e => if e = .gpuScanline240 then clock + 960 else clock
      nextEventCycle := clock + 960
      activeEvents := fun e => decide (e = .gpuScanline240)
      activeImmEvents := fun _ => false
      currentEventDue := clock }
  dev :=
    { regs := { ThreadRegs.default.setCpsr 0x1F false with ime := 1, ie := 0x1000 }
      cpu := CpuRegs.new
      accumulatedCycles := 0
      rest :=
        { gpu := ⟨visibleLines, 1⟩
          keyInput := 0x3FF
          keyCnt := 0x4001
          other := ()
          keyMap := 0x3FE
          prevKeypadIrq := prevKeypadIrq
          host := ()
          pending := pending } }

/-- The second vblank of a session in which the key is held on: the edge was seen at the first. -/
def savedHook : SessionMachine Unit Unit := atVBlankHook 478016 true none

/-- Stepping back with the same edge memory: both sessions go on without an interrupt. -/
theorem stepBack_same_keypad :
    continueFrom displayOnly 2 []
        (vblankHook displayOnly (atVBlankHook 197120 true (some (.stepBack (saveState savedHook))))) =
      continueFrom displayOnly 2 [] (vblankHook displayOnly savedHook) :=
  (restore_resumes displayOnly (s := savedHook)
    (t := atVBlankHook 197120 true (some (.stepBack (saveState savedHook))))
    rfl (Or.inr rfl) rfl rfl rfl rfl).1 2 []

/-- **The keypad edge is not restored**: stepped back to at the first vblank of another session,
the state goes on with a keypad interrupt that the saved session does not have. -/
theorem restored_keypad_differs :
    continueFrom displayOnly 2 [] (vblankHook displayOnly
        (atVBlankHook 197120 false (some (.stepBack (saveState savedHook))))) =
      some [([], []), ([.cpuInterrupt], [])] ∧
    continueFrom displayOnly 2 [] (vblankHook displayOnly savedHook) =
      some [([], []), ([], [])] := by
  constructor <;> decide

end AdvancedSlop
