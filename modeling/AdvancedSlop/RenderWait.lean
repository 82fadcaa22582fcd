/-
# The sleeping threads of the renderer

`RenderSync` again, with `wait_until` and `wake`: a thread that waits for a slot sleeps on
`wake_condvar`, and a thread that has stored the state of a slot, or `quit`, takes `wake_mutex` and
notifies all.

* `RenderState.ready` : what a thread waits for;
* `WaitState`, `WaitState.step` : the threads, with their waits and their wake-ups;
* `WaitState.step_render` : what they do to the slots, `RenderState.step` does;
* `WaitState.alert_step` : no step loses a wake-up;
* `render_wait_law` : what holds of every state that is reached.
-/
import AdvancedSlop.RenderHandshake
import AdvancedSlop.Monitor

namespace AdvancedSlop

open TransitionSystem

attribute [local instance] neZero_pair

/-! ## The threads -/

/-- The threads that share `RenderSync`.  The present thread is the main thread. -/
inductive RenderThread where
  | cpu
  | core (half : Fin 2)
  | present
  deriving DecidableEq, Fintype

/-- The thread that takes a step. -/
def RenderAction.thread : RenderAction → RenderThread
  | .vblank _ _ _ => .cpu
  | .queueFrame => .cpu
  | .rasterWorker half => .core half
  | .renderLoop => .present

/-- The next step of a thread that calls `wait_until`. -/
def RenderThread.action : RenderThread → RenderAction
  | .cpu => .queueFrame
  | .core half => .rasterWorker half
  | .present => .renderLoop

namespace RenderState

/-- The thread is in `wait_until`, or it calls it next. -/
def waits (s : RenderState) : RenderThread → Bool
  | .cpu => false
  | .core half => match (s.workers half).phase with
      | .waiting => true
      | _ => false
  | .present => match s.present with
      | .waiting => true
      | _ => false

/-- `ready`: the predicate that the thread gives to `wait_until`. -/
def ready (s : RenderState) : RenderThread → Bool
  | .cpu => false
  | .core half => (s.slots (s.workers half).slot).state &&& (S_QUEUED ||| S_HALF half) = S_QUEUED
  | .present => (s.slots s.readSlot).state = S_RASTERED

/-- The steps that store the state of a slot: `wake` follows. -/
def stores (s : RenderState) : RenderAction → Bool
  | .vblank _ _ _ => false
  | .queueFrame => match s.cpu with
      | .copying _ _ [] => true
      | _ => false
  | .rasterWorker half => match (s.workers half).phase with
      | .drawing rows => HALF_LINES ≤ rows.length
      | _ => false
  | .renderLoop => match s.present with
      | .taken => true
      | _ => false

end RenderState

/-- **The renderer with its waits**: where each thread is in `wait_until` and in `wake`, `quit`, and
the cores whose `raster_worker_loop` has ended. -/
structure WaitState where
  render : RenderState
  phase : RenderThread → Monitor.Phase
  quit : Bool
  stopped : Fin 2 → Bool

/-- The steps of the threads: one of `RenderState.step`, the call of `wait_until`, the lock of
`wake_mutex`, the test of `ready`, of `quit` and of the deadline, the sleep, the end of the sleep for
a timeout or for no reason, `notify_all`, the end of `wake`, and `set_quit(true)`. -/
inductive WaitAction where
  | render (a : RenderAction)
  | waitUntil (t : RenderThread)
  | lock (t : RenderThread)
  | test (t : RenderThread) (expired : Bool)
  | sleep (t : RenderThread)
  | rouse (t : RenderThread)
  | notifyAll (t : RenderThread)
  | unlock (t : RenderThread)
  | setQuit

/-- The steps that go on with a wait or with a wake-up. -/
def WaitAction.Settles : WaitAction → Bool
  | .lock _ => true
  | .test _ _ => true
  | .sleep _ => true
  | .notifyAll _ => true
  | .unlock _ => true
  | _ => false

namespace WaitState

/-- `reset_for_new_game`, and the start of the threads of the game. -/
def start (s : RenderState) : WaitState where
  render := s.resetForNewGame
  phase _ := .outside
  quit := false
  stopped _ := false

/-- The thread has returned from its loop. -/
def ended (s : WaitState) : RenderThread → Bool
  | .core half => s.stopped half
  | _ => false

/-- A thread goes on in `wait_until` or in `wake`. -/
def move (s : WaitState) (t : RenderThread) (op : Monitor.Op) : Option WaitState :=
  (Monitor.move s.phase t op).map fun phase => { s with phase }

/-- The core has returned from `raster_worker_loop`. -/
def stop (s : WaitState) : RenderThread → WaitState
  | .core half => { s with stopped := Function.update s.stopped half true }
  | _ => s

/-- The body of the loop of `wait_until`, up to its `wait_timeout`.  Only the present thread has a
deadline that makes the wait give up. -/
def test (s : WaitState) (t : RenderThread) (expired : Bool) : Option WaitState :=
  if s.phase t ≠ .testing then none
  else if s.render.ready t then
    (s.render.step t.action).bind fun render => move { s with render } t .pass
  else if s.quit then (s.stop t).move t .pass
  else if expired ∧ t = .present then s.move t .pass
  else s.move t .block

/-- **A step** of one of the threads. -/
def step (s : WaitState) : WaitAction → Option WaitState
  | .render a =>
      if s.phase a.thread ≠ .outside ∨ s.render.waits a.thread then none
      else (s.render.step a).bind fun render =>
        if s.render.stores a then move { s with render } a.thread .owe else some { s with render }
  | .waitUntil t =>
      if s.render.waits t = true ∧ s.ended t = false then s.move t .enter else none
  | .lock t => s.move t .lock
  | .test t expired => s.test t expired
  | .sleep t => s.move t .sleep
  | .rouse t => s.move t .rouse
  | .notifyAll t => s.move t .notifyAll
  | .unlock t => s.move t .unlock
  | .setQuit =>
      if s.render.waits .present then move { s with quit := true } .present .owe else none

end WaitState

/-! ## What a step does to the slots -/

namespace RenderState

variable {s s' : RenderState} {a : RenderAction} {t : RenderThread}

/-- **What a step leaves alone**: the cursors and the phases of the other threads, and the states of
the slots unless it stores one. -/
theorem frame_step (h : s.step a = some s') :
    (∀ half, .core half ≠ a.thread → s'.workers half = s.workers half) ∧
      (.present ≠ a.thread → s'.present = s.present ∧ s'.readSlot = s.readSlot) ∧
      (s.stores a = false → ∀ i, (s'.slots i).state = (s.slots i).state) := by
  cases a with
  | vblank captured shm gpuMemDirty =>
      rw [step] at h
      split at h
      · obtain rfl := Option.some.inj h
        exact ⟨fun _ _ => rfl, fun _ => ⟨rfl, rfl⟩, fun _ _ => rfl⟩
      · cases h
  | queueFrame =>
      rw [step, queueFrame] at h
      have hinputs : ∀ inputs i,
          ((s.setSlot s.writeSlot { s.slots s.writeSlot with inputs }).slots i).state =
            (s.slots i).state := by
        intro inputs i
        rw [setSlot_slots]
        rcases eq_or_ne i s.writeSlot with rfl | hi
        · rw [Function.update_self]
        · rw [Function.update_of_ne hi]
      cases hcpu : s.cpu with
      | guest => rw [hcpu] at h; cases h
      | swapping captured shm =>
          rw [hcpu] at h
          obtain rfl := Option.some.inj h
          exact ⟨fun _ _ => rfl, fun _ => ⟨rfl, rfl⟩, fun _ => hinputs _⟩
      | copying captured shm left =>
          rw [hcpu] at h
          cases left with
          | nil =>
              obtain rfl := Option.some.inj h
              refine ⟨fun _ _ => rfl, fun _ => ⟨rfl, rfl⟩, fun hstores => ?_⟩
              rw [stores, hcpu] at hstores
              cases hstores
          | cons byte left =>
              obtain rfl := Option.some.inj h
              exact ⟨fun _ _ => rfl, fun _ => ⟨rfl, rfl⟩, fun _ => hinputs _⟩
  | rasterWorker half =>
      have hother : ∀ (s : RenderState) worker half', RenderThread.core half' ≠ .core half →
          (s.setWorker half worker).workers half' = s.workers half' := by
        intro s worker half' hne
        exact Function.update_of_ne (fun heq => hne (congrArg _ heq)) _ _
      rcases rasterWorker_cases h with ⟨phase, scratch, pixels, -, -, rfl⟩ |
        ⟨rows, worker, hphase, hrows, -, rfl⟩
      · exact ⟨hother s _, fun _ => ⟨rfl, rfl⟩, fun _ _ => rfl⟩
      · refine ⟨hother (s.setSlot _ _) _, fun _ => ⟨rfl, rfl⟩, fun hstores => ?_⟩
        rw [stores, hphase] at hstores
        exact absurd (not_lt.1 hrows) (of_decide_eq_false hstores)
  | renderLoop =>
      refine ⟨fun half _ => congrFun (renderLoop_cases h).2.1 half, fun hne => absurd rfl hne,
        fun hstores i => ?_⟩
      rw [step, renderLoop] at h
      cases hpresent : s.present with
      | waiting =>
          simp only [hpresent] at h
          obtain ⟨-, hnext⟩ := Option.ite_none_right_eq_some.1 h
          obtain rfl := Option.some.inj hnext
          rfl
      | taken =>
          rw [stores, hpresent] at hstores
          cases hstores
      | presenting rows =>
          simp only [hpresent] at h
          split_ifs at h <;> obtain rfl := Option.some.inj h <;> rfl

/-- Another thread's step leaves the call of a thread alone. -/
theorem waits_step (h : s.step a = some s') (ht : t ≠ a.thread) : s'.waits t = s.waits t := by
  obtain ⟨hworkers, hpresent, -⟩ := frame_step h
  cases t with
  | cpu => rfl
  | core half => rw [waits, waits, hworkers half ht]
  | present => rw [waits, waits, (hpresent ht).1]

/-- **A step that stores no state** changes no predicate of another thread. -/
theorem ready_step (h : s.step a = some s') (hstores : s.stores a = false) (ht : t ≠ a.thread) :
    s'.ready t = s.ready t := by
  obtain ⟨hworkers, hpresent, hstate⟩ := frame_step h
  cases t with
  | cpu => rfl
  | core half => rw [ready, ready, hworkers half ht, hstate hstores]
  | present => rw [ready, ready, (hpresent ht).2, hstate hstores]

@[simp] theorem thread_action (t : RenderThread) : t.action.thread = t := by
  cases t <;> rfl

theorem waits_core {half : Fin 2} (h : s.waits (.core half) = true) :
    (s.workers half).phase = .waiting := by
  rw [waits] at h
  split at h
  · assumption
  · cases h

theorem waits_present (h : s.waits .present = true) : s.present = .waiting := by
  rw [waits] at h
  split at h
  · assumption
  · cases h

/-- The step of a thread whose wait ends stores nothing. -/
theorem stores_of_waits (h : s.waits t = true) : s.stores t.action = false := by
  cases t with
  | cpu => cases h
  | core half => rw [RenderThread.action, stores, waits_core h]
  | present => rw [RenderThread.action, stores, waits_present h]

/-- A thread that waits goes on when its predicate holds. -/
theorem step_of_ready (h : s.waits t = true) (hready : s.ready t = true) :
    ∃ s', s.step t.action = some s' := by
  cases t with
  | cpu => cases h
  | core half =>
      simp only [RenderThread.action, step, rasterWorker, waits_core h]
      exact ⟨_, if_pos (of_decide_eq_true hready)⟩
  | present =>
      simp only [RenderThread.action, step, renderLoop, waits_present h]
      exact ⟨_, if_pos (of_decide_eq_true hready)⟩

end RenderState

/-! ## The invariant -/

namespace WaitState

variable {s s' : WaitState} {a : WaitAction} {t : RenderThread}

/-- What ends the sleep of a thread. -/
def Ready (s : WaitState) (t : RenderThread) : Prop := s.render.ready t = true ∨ s.quit = true

/-- **The invariant**: no wake-up is lost, and a thread in `wait_until` is one that waits. -/
structure Sound (s : WaitState) : Prop where
  alert : Monitor.Alert s.Ready s.phase
  waits : ∀ t, (s.phase t).inWait = true → s.render.waits t = true

theorem sound_start (s : RenderState) : (start s).Sound where
  alert := .of_outside fun _ => rfl
  waits _ h := by cases h

theorem stop_phase (s : WaitState) (t : RenderThread) : (s.stop t).phase = s.phase := by
  cases t <;> rfl

theorem stop_render (s : WaitState) (t : RenderThread) : (s.stop t).render = s.render := by
  cases t <;> rfl

theorem stop_quit (s : WaitState) (t : RenderThread) : (s.stop t).quit = s.quit := by
  cases t <;> rfl

/-- What a step of a wait or of a wake-up is. -/
theorem move_eq {op : Monitor.Op} (h : s.move t op = some s') :
    ∃ phase, Monitor.move s.phase t op = some phase ∧ s' = { s with phase } := by
  obtain ⟨phase, hphase, rfl⟩ := Option.map_eq_some_iff.1 h
  exact ⟨phase, hphase, rfl⟩

/-- **What a test does**: the wait ends with the predicate, the thread gives up for `quit` or for
its deadline, or it blocks on a predicate that does not hold. -/
theorem test_cases {expired : Bool} (h : s.test t expired = some s') :
    s.phase t = .testing ∧
      ((∃ render, s.render.step t.action = some render ∧ move { s with render } t .pass = some s') ∨
        (∃ s₁ : WaitState, s₁.render = s.render ∧ s₁.phase = s.phase ∧ s₁.quit = s.quit ∧
          s₁.move t .pass = some s') ∨
        ¬ s.Ready t ∧ s.move t .block = some s') := by
  unfold test at h
  split_ifs at h with hphase hready hquit hexpired
  · obtain ⟨render, hstep, hmove⟩ := Option.bind_eq_some_iff.1 h
    exact ⟨not_not.1 hphase, .inl ⟨render, hstep, hmove⟩⟩
  · exact ⟨not_not.1 hphase, .inr (.inl ⟨s.stop t, s.stop_render t, s.stop_phase t, s.stop_quit t, h⟩)⟩
  · exact ⟨not_not.1 hphase, .inr (.inl ⟨s, rfl, rfl, rfl, h⟩)⟩
  · exact ⟨not_not.1 hphase, .inr (.inr ⟨not_or.2 ⟨hready, hquit⟩, h⟩)⟩

/-- The threads in `wait_until` stay those that wait, when one of them goes on. -/
theorem waits_move {render : RenderState} {phase phase' : RenderThread → Monitor.Phase}
    {op : Monitor.Op} (hmove : Monitor.move phase t op = some phase')
    (hwaits : ∀ u, u ≠ t → (phase u).inWait = true → render.waits u = true)
    (ht : (phase' t).inWait = true → render.waits t = true) (u : RenderThread)
    (hu : (phase' u).inWait = true) : render.waits u = true := by
  rcases eq_or_ne u t with rfl | hut
  · exact ht hu
  · obtain ⟨-, -, -, -, hother⟩ := Monitor.move_cases hmove
    rw [hother u hut, Monitor.Phase.inWait_seen] at hu
    exact hwaits u hut hu

/-- **A step of the mutex or of the condition variable** keeps the invariant. -/
theorem Sound.move (h : s.Sound) {op : Monitor.Op} (hmove : s.move t op = some s')
    (hblock : op = .block → ¬ s.Ready t) (henter : op = .enter → s.render.waits t = true) :
    s'.Sound := by
  obtain ⟨phase, hphase, rfl⟩ := move_eq hmove
  refine ⟨h.alert.move hphase hblock, waits_move hphase (fun u _ => h.waits u) ?_⟩
  obtain ⟨-, p, hp, hpt, -⟩ := Monitor.move_cases hphase
  show (phase t).inWait = true → _
  rw [hpt]
  exact fun ht => (Monitor.Phase.inWait_after hp ht).elim henter (h.waits t)

/-- **A step on the slots that stores nothing** makes no predicate true of a thread that sleeps. -/
theorem Sound.render (h : s.Sound) {b : RenderAction} {render : RenderState}
    (hstep : s.render.step b = some render) (hstores : s.render.stores b = false)
    (hphase : (s.phase b.thread).waits = false) :
    Monitor.Alert (Ready { s with render }) s.phase := by
  refine h.alert.work fun u hu hready => ?_
  have hne : u ≠ b.thread := by
    rintro rfl
    rw [hphase] at hu
    cases hu
  refine hready.imp_left fun hready => ?_
  rw [← RenderState.ready_step hstep hstores hne]
  exact hready

/-- The other threads in `wait_until` still wait after a step on the slots. -/
theorem Sound.waits_render (h : s.Sound) {b : RenderAction} {render : RenderState}
    (hstep : s.render.step b = some render) (u : RenderThread) (hne : u ≠ b.thread)
    (hu : (s.phase u).inWait = true) : render.waits u = true := by
  rw [RenderState.waits_step hstep hne]
  exact h.waits u hu

/-- **A step of a thread outside** keeps the invariant. -/
theorem Sound.step_render (h : s.Sound) {b : RenderAction} (hstep : s.step (.render b) = some s') :
    s'.Sound := by
  rw [step] at hstep
  obtain ⟨hcan, hnext⟩ := Option.ite_none_left_eq_some.1 hstep
  obtain ⟨hphase, -⟩ := not_or.1 hcan
  rw [not_not] at hphase
  obtain ⟨render, hrender, hnext⟩ := Option.bind_eq_some_iff.1 hnext
  have hwaits := h.waits_render hrender
  cases hstores : s.render.stores b with
  | true =>
      rw [if_pos hstores] at hnext
      obtain ⟨phase, howe, rfl⟩ := move_eq hnext
      refine ⟨h.alert.owe howe, waits_move howe hwaits ?_⟩
      obtain ⟨-, p, hp, hpt, -⟩ := Monitor.move_cases howe
      rw [hphase] at hp
      show (phase b.thread).inWait = true → _
      rw [hpt, ← Option.some.inj hp]
      nofun
  | false =>
      rw [if_neg (by rw [hstores]; nofun)] at hnext
      obtain rfl := Option.some.inj hnext
      refine ⟨h.render hrender hstores (by rw [hphase]; rfl), fun u hu => hwaits u ?_ hu⟩
      rintro rfl
      have houtside : (s.phase b.thread).inWait = true := hu
      rw [hphase] at houtside
      cases houtside

/-- **A test** keeps the invariant. -/
theorem Sound.test (h : s.Sound) {expired : Bool} (hstep : s.test t expired = some s') :
    s'.Sound := by
  obtain ⟨hphase, ⟨render, hrender, hmove⟩ | ⟨s₁, hr, hp, hq, hmove⟩ | ⟨hready, hmove⟩⟩ :=
    test_cases hstep
  · have hwaits : s.render.waits t = true := h.waits t (by rw [hphase]; rfl)
    have halert := h.render hrender (RenderState.stores_of_waits hwaits)
      (by rw [RenderState.thread_action, hphase]; rfl)
    obtain ⟨phase, hpass, rfl⟩ := move_eq hmove
    refine ⟨halert.move hpass nofun, waits_move hpass (fun u hne => ?_) ?_⟩
    · exact h.waits_render hrender u (by rwa [RenderState.thread_action])
    · obtain ⟨-, p, hp, hpt, -⟩ := Monitor.move_cases hpass
      rw [hphase] at hp
      show (phase t).inWait = true → _
      rw [hpt, ← Option.some.inj hp]
      nofun
  · have hs₁ : s₁.Sound := by
      refine ⟨?_, ?_⟩
      · unfold Ready
        rw [hr, hp, hq]
        exact h.alert
      · rw [hr, hp]
        exact h.waits
    exact hs₁.move hmove nofun nofun
  · exact h.move hmove (fun _ => hready) nofun

/-- **Every step** of every thread keeps the invariant. -/
theorem Sound.step (h : s.Sound) (hstep : s.step a = some s') : s'.Sound := by
  cases a with
  | render b => exact h.step_render hstep
  | waitUntil t =>
      rw [WaitState.step] at hstep
      obtain ⟨⟨hwaits, -⟩, hmove⟩ := Option.ite_none_right_eq_some.1 hstep
      exact h.move hmove nofun fun _ => hwaits
  | test t expired => exact h.test hstep
  | setQuit =>
      rw [WaitState.step] at hstep
      obtain ⟨-, hmove⟩ := Option.ite_none_right_eq_some.1 hstep
      obtain ⟨phase, howe, rfl⟩ := move_eq hmove
      refine ⟨h.alert.owe howe, waits_move howe (fun u _ => h.waits u) ?_⟩
      obtain ⟨-, p, hp, hpt, -⟩ := Monitor.move_cases howe
      show (phase .present).inWait = true → _
      rw [hpt]
      exact fun hu => h.waits _ ((Monitor.Phase.inWait_after hp hu).resolve_left nofun)
  | _ => exact h.move hstep nofun nofun

/-! ## Refinement -/

theorem move_render {op : Monitor.Op} (h : s.move t op = some s') : s'.render = s.render := by
  obtain ⟨phase, -, rfl⟩ := move_eq h
  rfl

/-- **What a step does to the slots**, `RenderState.step` does. -/
theorem step_render (h : s.step a = some s') :
    s'.render = s.render ∨ ∃ b, s.render.step b = some s'.render := by
  cases a with
  | render b =>
      rw [step] at h
      obtain ⟨render, hrender, hnext⟩ :=
        Option.bind_eq_some_iff.1 (Option.ite_none_left_eq_some.1 h).2
      refine .inr ⟨b, ?_⟩
      split_ifs at hnext
      · rw [move_render hnext, hrender]
      · rw [← Option.some.inj hnext, hrender]
  | waitUntil t =>
      rw [step] at h
      exact .inl (move_render (Option.ite_none_right_eq_some.1 h).2)
  | test t expired =>
      obtain ⟨-, ⟨render, hrender, hmove⟩ | ⟨s₁, hr, -, -, hmove⟩ | ⟨-, hmove⟩⟩ := test_cases h
      · exact .inr ⟨_, by rw [move_render hmove, hrender]⟩
      · exact .inl (by rw [move_render hmove, hr])
      · exact .inl (move_render hmove)
  | setQuit =>
      rw [step] at h
      exact .inl (by rw [move_render (Option.ite_none_right_eq_some.1 h).2])
  | _ => exact .inl (move_render h)

/-- **The refinement**: a run of the threads that sleep is, on the slots, a run of threads that
spin. -/
theorem reaches_render {s₀ : RenderState}
    (h : Reaches step (fun _ _ => True) (start s₀) s) :
    Reaches RenderState.step (fun _ _ => True) s₀.resetForNewGame s.render := by
  refine h.invariant (I := fun s => Reaches RenderState.step (fun _ _ => True) s₀.resetForNewGame s.render)
    (fun s a s' hs _ hstep => ?_) (Reaches.refl _)
  rcases step_render hstep with heq | ⟨b, hb⟩
  · rwa [heq]
  · exact hs.tail trivial hb

/-! ## The wake-ups arrive -/

theorem effort_moved {op : Monitor.Op} (h : s.move t op = some s') (hop : op.Settles = true) :
    Monitor.effort s'.phase < Monitor.effort s.phase := by
  obtain ⟨phase, hmove, rfl⟩ := move_eq h
  exact Monitor.effort_move hmove hop

/-- **A step of a wait or of a wake-up** leaves fewer of them. -/
theorem effort_step (ha : a.Settles = true) (h : s.step a = some s') :
    Monitor.effort s'.phase < Monitor.effort s.phase := by
  cases a with
  | test t expired =>
      obtain ⟨-, ⟨render, -, hmove⟩ | ⟨s₁, -, hp, -, hmove⟩ | ⟨-, hmove⟩⟩ := test_cases h
      · exact effort_moved (s := { s with render }) hmove rfl
      · rw [← hp]
        exact effort_moved hmove rfl
      · exact effort_moved hmove rfl
  | lock t => exact effort_moved h rfl
  | sleep t => exact effort_moved h rfl
  | notifyAll t => exact effort_moved h rfl
  | unlock t => exact effort_moved h rfl
  | _ => cases ha

/-- The steps of waits and wake-ups come to an end. -/
theorem effort_run {actions : List WaitAction} (ha : ∀ a ∈ actions, a.Settles = true)
    (h : actions.foldlM step s = some s') :
    actions.length + Monitor.effort s'.phase ≤ Monitor.effort s.phase := by
  induction actions generalizing s with
  | nil =>
      obtain rfl := Option.some.inj h
      rw [List.length_nil, Nat.zero_add]
  | cons a actions ih =>
      rw [List.foldlM_cons] at h
      obtain ⟨u, hstep, hrest⟩ := Option.bind_eq_some_iff.1 h
      have hlt := effort_step (ha a List.mem_cons_self) hstep
      have hle := ih (fun b hb => ha b (List.mem_cons_of_mem _ hb)) hrest
      rw [List.length_cons]
      omega

/-- A thread at its test goes on. -/
theorem Sound.exists_test (h : s.Sound) (ht : s.phase t = .testing) :
    s.test t false ≠ none := by
  have hmove : ∀ (s₁ : WaitState) op p, s₁.phase t = .testing → op ≠ .lock →
      Monitor.Phase.testing.after op = some p → s₁.move t op ≠ none := by
    intro s₁ op p hp hlock hafter hnone
    refine Monitor.move_ne_none (t := t) (p := p) ?_ (fun hop => absurd hop hlock)
      (Option.map_eq_none_iff.1 hnone)
    rw [hp, hafter]
  unfold WaitState.test
  rw [if_neg (not_not.2 ht)]
  split_ifs with hready hquit hexpired
  · obtain ⟨render, hrender⟩ := RenderState.step_of_ready (h.waits t (by rw [ht]; rfl)) hready
    rw [hrender]
    exact hmove _ _ _ ht nofun rfl
  · exact hmove _ _ _ (by rw [stop_phase, ht]) nofun rfl
  · exact absurd hexpired.1 nofun
  · exact hmove _ _ _ ht nofun rfl

/-- **When no step of a wait or of a wake-up is left**, each thread is outside or sleeps, and no
sleeper's wait is over. -/
theorem Sound.settled (h : s.Sound) (hstuck : ∀ a : WaitAction, a.Settles = true → s.step a = none)
    (t : RenderThread) : s.phase t = .outside ∨ s.phase t = .asleep ∧ ¬ s.Ready t := by
  refine h.alert.settled (fun u hu => h.exists_test hu (hstuck (.test u false) rfl)) ?_ t
  intro u op hpass hblock hop
  have hnone : ∀ a : WaitAction, a.Settles = true → s.step a = s.move u op →
      Monitor.move s.phase u op = none := by
    intro a ha hstep
    rw [hstuck a ha] at hstep
    exact Option.map_eq_none_iff.1 hstep.symm
  cases op with
  | lock => exact hnone (.lock u) rfl rfl
  | sleep => exact hnone (.sleep u) rfl rfl
  | notifyAll => exact hnone (.notifyAll u) rfl rfl
  | unlock => exact hnone (.unlock u) rfl rfl
  | pass => exact absurd rfl hpass
  | block => exact absurd rfl hblock
  | _ => cases hop

end WaitState

/-! ## The law -/

/-- **The waits of the renderer**, in every state that any interleaving of its threads reaches from
a new game: on the slots the run is one of `RenderState.step`; at most one thread holds
`wake_mutex`; a thread that sleeps although its slot is ready, or although `quit` is set, is owed a
notification by a thread between its store and its `notify_all`; and, whatever the timeouts, after
at most sixty more steps of waits and wake-ups none is left, each thread that waits sleeps, and no
sleeper's slot is ready. -/
theorem render_wait_law {s₀ : RenderState} {s : WaitState}
    (h : Reaches WaitState.step (fun _ _ => True) (.start s₀) s) :
    Reaches RenderState.step (fun _ _ => True) s₀.resetForNewGame s.render ∧
    (∀ t u, (s.phase t).holds = true → (s.phase u).holds = true → t = u) ∧
    (∀ t, s.phase t = .asleep → s.Ready t → ∃ u, (s.phase u).owes = true) ∧
    ∀ (actions : List WaitAction) (s' : WaitState), (∀ a ∈ actions, a.Settles = true) →
      actions.foldlM WaitState.step s = some s' → actions.length ≤ 60 ∧
      ((∀ a : WaitAction, a.Settles = true → s'.step a = none) →
        ∀ t, s'.phase t = .outside ∨ s'.phase t = .asleep ∧ ¬ s'.Ready t) := by
  have hsound : ∀ {s₁ s₂ : WaitState}, s₁.Sound → Reaches WaitState.step (fun _ _ => True) s₁ s₂ →
      s₂.Sound := fun hs hr => hr.invariant (fun _ _ _ hs _ hstep => hs.step hstep) hs
  have hs := hsound (WaitState.sound_start s₀) h
  refine ⟨WaitState.reaches_render h, hs.alert.exclusive, fun t ht hready => ?_,
    fun actions s' hactions hrun => ⟨?_, (hsound hs (Reaches.of_foldlM (fun _ _ _ => trivial) hrun)).settled⟩⟩
  · exact hs.alert.owed t hready (by rw [ht]; rfl)
  · have hle := WaitState.effort_run hactions hrun
    have hbound : Monitor.effort s.phase ≤ 60 := Monitor.effort_le s.phase
    omega

/-- The steps of a core that goes to sleep, and of a main thread that sets `quit`. -/
def quitRun : List WaitAction :=
  [.waitUntil (.core 0), .lock (.core 0), .test (.core 0) false, .sleep (.core 0), .setQuit]

def quitState : WaitState :=
  (quitRun.foldlM WaitState.step (.start usedRenderer)).getD (.start usedRenderer)

/-- The core that sleeps is owed its notification. -/
theorem render_wait_law_quit :
    quitState.phase (.core 0) = .asleep ∧ ∃ u, (quitState.phase u).owes = true := by
  have hreached : Reaches WaitState.step (fun _ _ => True) (.start usedRenderer) quitState :=
    Reaches.of_foldlM (fun _ _ _ => trivial) (show quitRun.foldlM _ _ = some quitState from rfl)
  exact ⟨rfl, (render_wait_law hreached).2.2.1 (.core 0) rfl (.inr rfl)⟩

end AdvancedSlop
