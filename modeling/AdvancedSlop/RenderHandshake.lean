/-
# The order of the render handshake

The invariant of the threads of `RenderSync`, with the frames counted from `reset_for_new_game`: a
slot is that of a frame modulo two, a pixel buffer that of a frame modulo five, and each cursor is
where the number of frames says that its thread has done.

* `RenderState.InStep` : the invariant;
* `InStep.queueFrame`, `InStep.rasterWorker`, `InStep.renderLoop` : the steps of a thread keep it;
* `InStep.step` : every step of every thread does;
* `RenderState.work` : the steps that are left behind the cpu thread;
* `render_handshake_law` : what holds of every step and of every state that is reached.
-/
import AdvancedSlop.RenderSync
import AdvancedSlop.TransitionSystem

namespace AdvancedSlop

open TransitionSystem

attribute [local instance] neZero_pair

/-! ## The invariant -/

/-- How far a core is with its slot. -/
def WorkerPhase.steps : WorkerPhase → ℕ
  | .waiting => 0
  | .taken => 1
  | .drawing rows => 2 + rows.length

/-- The rows a core has drawn of its slot. -/
def WorkerPhase.drawn : WorkerPhase → ℕ
  | .drawing rows => rows.length
  | _ => 0

/-- How far the present thread is with its slot. -/
def PresentPhase.steps : PresentPhase → ℕ
  | .waiting => 0
  | .taken => 1
  | .presenting rows => 2 + rows.length

/-- Whether the present thread has freed the slot of the frame it shows. -/
def PresentPhase.freed : PresentPhase → ℕ
  | .presenting _ => 1
  | _ => 0

namespace RenderState

/-- The frames a core has done. -/
def done (s : RenderState) (half : Fin 2) : ℕ := (s.rastered half).length

/-- Which cores have done the frame of a number. -/
def doneBits (s : RenderState) (k : ℕ) : Fin 2 → Bool := fun half => decide (k < s.done half)

/-- The rows a core has drawn of the frame of a number. -/
def drawnRows (s : RenderState) (half : Fin 2) (k : ℕ) : ℕ :=
  if k < s.done half then HALF_LINES
  else if k = s.done half then (s.workers half).phase.drawn else 0

/-- What the cpu thread has written of the slot it hands over. -/
def HandsOver (s : RenderState) : CpuPhase → Prop
  | .guest => True
  | .swapping captured shm =>
      captured.mem = (s.slots s.writeSlot).inputs.mem.snapshot shm (s.slotDirty s.writeSlot)
  | .copying captured shm left =>
      (s.slots s.writeSlot).inputs.regs = captured.regs ∧
        left.foldl shm.copyByte (s.slots s.writeSlot).inputs.mem = captured.mem

/-- What a core has drawn of a frame, and that it has begun with its sprites. -/
def Draws (half : Fin 2) (frame : FrameInputs) (scratch : RasterScratch) : WorkerPhase → Prop
  | .drawing rows =>
      rows = frame.rows (half.val * HALF_LINES) rows.length ∧ rows.length ≤ HALF_LINES ∧
        ∀ line, half.val * HALF_LINES ≤ line → line < half.val * HALF_LINES + HALF_LINES →
          Begun frame.mem line scratch.oam
  | _ => True

/-- What the present thread has uploaded of a frame. -/
def Shows (frame : FrameInputs) : PresentPhase → Prop
  | .presenting rows => rows = frame.rows 0 rows.length ∧ rows.length ≤ 2 * HALF_LINES
  | _ => True

/-- **The invariant**, with the number of frames whose slots have been freed: the cursors are where
the numbers of frames say, at most two slots are in flight, and their states, their inputs and their
pixels are those of their frames. -/
structure InStep (s : RenderState) (freed : ℕ) : Prop where
  freed_eq : freed = s.presented.length + s.present.freed
  freed_le : ∀ half, freed ≤ s.done half
  room : s.queued.length ≤ freed + SWAPCHAIN
  writeCursor : s.writeSlot = s.queued.length % SWAPCHAIN
  slotCursor : ∀ half, (s.workers half).slot = s.done half % SWAPCHAIN
  pixCursor : ∀ half, (s.workers half).pix = s.done half % FRAME_BUFS
  readCursor : s.readSlot = freed % SWAPCHAIN
  presentCursor : s.presentPixels = s.presented.length % FRAME_BUFS
  inFlight : ∀ k frame, freed ≤ k → s.queued[k]? = some frame →
    s.slots (k % SWAPCHAIN) = ⟨slotState (s.doneBits k), frame⟩
  free : ∀ k, s.queued.length ≤ k → k < freed + SWAPCHAIN → (s.slots (k % SWAPCHAIN)).state = 0
  busy : s.cpu ≠ .guest → s.queued.length < freed + SWAPCHAIN
  handover : s.HandsOver s.cpu
  reading : ∀ half, (s.workers half).phase ≠ .waiting → s.done half < s.queued.length
  draws : ∀ half frame, s.queued[s.done half]? = some frame →
    Draws half frame (s.workers half).scratch (s.workers half).phase
  rastered : ∀ half, s.rastered half <+: s.queued.mapIdx (halfPass half)
  buffers : ∀ k frame, s.presented.length ≤ k → s.queued[k]? = some frame →
    ∀ (half : Fin 2) i, i < s.drawnRows half k →
      s.pixels (k % FRAME_BUFS) (half.val * HALF_LINES + i) = frame.row (half.val * HALF_LINES + i)
  taken : s.present = .taken → ∀ half, freed < s.done half
  shows : ∀ frame, s.queued[s.presented.length]? = some frame → Shows frame s.present
  presented : s.presented <+: s.queued.mapIdx wholePass

variable {s t : RenderState} {freed : ℕ}

/-- Numbers of slots that are in flight together are told apart by their slots. -/
theorem slot_ne {j k : ℕ} (hj : freed ≤ j) (hj' : j < freed + SWAPCHAIN) (hk : freed ≤ k)
    (hk' : k < freed + SWAPCHAIN) (hne : j ≠ k) : j % SWAPCHAIN ≠ k % SWAPCHAIN := by
  unfold SWAPCHAIN at *
  omega

/-- A frame of the queue. -/
theorem exists_queued {k : ℕ} (h : k < s.queued.length) : ∃ frame, s.queued[k]? = some frame :=
  ⟨_, List.getElem?_eq_getElem h⟩

theorem queued_lt {k : ℕ} {frame : FrameInputs} (h : s.queued[k]? = some frame) :
    k < s.queued.length := (List.getElem?_eq_some_iff.1 h).1

namespace InStep

variable (h : s.InStep freed)
include h

theorem done_le (half : Fin 2) : s.done half ≤ s.queued.length :=
  length_le_of_prefix (h.rastered half)

theorem freed_le_queued : freed ≤ s.queued.length := (h.freed_le 0).trans (h.done_le 0)

theorem presented_le : s.presented.length ≤ freed := by
  rw [h.freed_eq]
  exact Nat.le_add_right _ _

theorem freed_le_succ : freed ≤ s.presented.length + 1 := by
  rw [h.freed_eq]
  cases s.present <;> simp only [PresentPhase.freed] <;> omega

/-- The slot of a core that is not done with the queue. -/
theorem workerSlot {half : Fin 2} {frame : FrameInputs}
    (hframe : s.queued[s.done half]? = some frame) :
    s.slots (s.workers half).slot = ⟨slotState (s.doneBits (s.done half)), frame⟩ := by
  rw [h.slotCursor]
  exact h.inFlight _ _ (h.freed_le half) hframe

/-- A slot that is in flight is none of those that are free. -/
theorem queued_slot_ne {k : ℕ} (hroom : s.queued.length < freed + SWAPCHAIN) (hk : freed ≤ k)
    (hk' : k < s.queued.length) : k % SWAPCHAIN ≠ s.writeSlot := by
  rw [h.writeCursor]
  exact slot_ne hk (hk'.trans hroom) h.freed_le_queued hroom hk'.ne

end InStep

/-- A new game. -/
theorem inStep_reset (s : RenderState) : s.resetForNewGame.InStep 0 where
  freed_eq := rfl
  freed_le _ := le_rfl
  room := Nat.zero_le _
  writeCursor := rfl
  slotCursor _ := rfl
  pixCursor _ := rfl
  readCursor := rfl
  presentCursor := rfl
  inFlight k _ _ hframe := absurd (queued_lt hframe) (Nat.not_lt_zero k)
  free _ _ _ := rfl
  busy hbusy := absurd rfl hbusy
  handover := trivial
  reading _ hphase := absurd rfl hphase
  draws _ _ _ := trivial
  rastered _ := List.nil_prefix
  buffers k _ _ hframe := absurd (queued_lt hframe) (Nat.not_lt_zero k)
  taken := nofun
  shows _ _ := trivial
  presented := List.nil_prefix

/-! ## The steps of the cpu thread -/

theorem InStep.onFrameFinish (h : s.InStep freed) (captured : GbaRenderRegs) (shm : GpuMemBuf)
    (gpuMemDirty : BitVec 8) : (s.onFrameFinish captured shm gpuMemDirty).InStep freed := by
  by_cases hstate : (s.slots s.writeSlot).state = 0
  · have hnext : s.onFrameFinish captured shm gpuMemDirty = { s with
        slotDirty := fun i => s.slotDirty i ||| gpuMemDirty
        cpu := .swapping ⟨captured, (s.slots s.writeSlot).inputs.mem.snapshot shm
          (s.slotDirty s.writeSlot ||| gpuMemDirty)⟩ shm } := by
      rw [RenderState.onFrameFinish]
      simp only [if_pos hstate]
    rw [hnext]
    refine { h with busy := fun _ => ?_, handover := rfl }
    -- both slots in flight: the next one has a state
    by_contra hfull
    have hq : s.queued.length = freed + SWAPCHAIN := le_antisymm h.room (not_lt.1 hfull)
    obtain ⟨frame, hframe⟩ := exists_queued (s := s) (k := freed) (by unfold SWAPCHAIN at hq; omega)
    have hslot := h.inFlight freed frame le_rfl hframe
    rw [h.writeCursor, hq, Nat.add_mod_right, hslot] at hstate
    exact slotState_ne_zero _ hstate
  · have hnext : s.onFrameFinish captured shm gpuMemDirty = { s with
        slotDirty := fun i => s.slotDirty i ||| gpuMemDirty
        cpu := .guest } := by
      rw [RenderState.onFrameFinish]
      simp only [if_neg hstate]
    rw [hnext]
    exact { h with busy := fun hbusy => absurd rfl hbusy, handover := trivial }

/-- A slot that is handed over is written: those in flight are others. -/
theorem InStep.inFlight_setSlot (h : s.InStep freed)
    (hroom : s.queued.length < freed + SWAPCHAIN) (slot : FrameSlot) {k : ℕ} {frame : FrameInputs}
    (hk : freed ≤ k) (hframe : s.queued[k]? = some frame) :
    (s.setSlot s.writeSlot slot).slots (k % SWAPCHAIN) = ⟨slotState (s.doneBits k), frame⟩ := by
  rw [setSlot_slots, Function.update_of_ne (h.queued_slot_ne hroom hk (queued_lt hframe))]
  exact h.inFlight k frame hk hframe

/-- A slot whose state stays is free if it was. -/
theorem free_setSlot {i j : ℕ} {slot : FrameSlot} (hslot : slot.state = (s.slots i).state)
    (hfree : (s.slots j).state = 0) : ((s.setSlot i slot).slots j).state = 0 := by
  by_cases hji : j = i
  · subst hji
    rw [setSlot_slots, Function.update_self, hslot, hfree]
  · rw [setSlot_slots, Function.update_of_ne hji, hfree]

/-- **The handover**: the slot has the inputs of its frame, and is queued. -/
theorem InStep.storeQueued (h : s.InStep freed) (hroom : s.queued.length < freed + SWAPCHAIN)
    {captured : FrameInputs}
    (hinputs : (s.slots s.writeSlot).inputs.regs = captured.regs ∧
      (s.slots s.writeSlot).inputs.mem = captured.mem) :
    InStep { s.setSlot s.writeSlot { s.slots s.writeSlot with state := S_QUEUED } with
      slotDirty := Function.update s.slotDirty s.writeSlot 0
      writeSlot := (s.writeSlot + 1) % SWAPCHAIN
      cpu := .guest
      queued := s.queued ++ [captured] } freed := by
  have hsplit : ∀ {k frame}, (s.queued ++ [captured])[k]? = some frame →
      s.queued[k]? = some frame ∨ k = s.queued.length ∧ frame = captured := by
    intro k frame hframe
    rcases lt_trichotomy k s.queued.length with hk | rfl | hk
    · rw [List.getElem?_append_left hk] at hframe
      exact Or.inl hframe
    · rw [List.getElem?_concat_length] at hframe
      exact Or.inr ⟨rfl, (Option.some.inj hframe).symm⟩
    · have hlast : (s.queued ++ [captured]).length ≤ k := by
        rw [List.length_append, List.length_singleton]
        omega
      rw [List.getElem?_eq_none hlast] at hframe
      exact absurd hframe.symm (Option.some_ne_none frame)
  have hlast : ∀ half, ¬ s.queued.length < s.done half := fun half => not_lt.2 (h.done_le half)
  have hlength : (s.queued ++ [captured]).length = s.queued.length + 1 := List.length_append
  refine { h with
    room := by rw [hlength]; exact hroom
    writeCursor := by rw [hlength, h.writeCursor, Nat.mod_add_mod]
    inFlight := ?_
    free := ?_
    busy := fun hbusy => absurd rfl hbusy
    handover := trivial
    reading := fun half hphase => by rw [hlength]; exact Nat.lt_succ_of_lt (h.reading half hphase)
    draws := ?_
    rastered := fun half => prefix_of_queued (h.rastered half) captured
    buffers := ?_
    shows := ?_
    presented := prefix_of_queued h.presented captured }
  · intro k frame hk hframe
    rcases hsplit hframe with hframe | ⟨rfl, rfl⟩
    · exact h.inFlight_setSlot hroom _ hk hframe
    · have hbits : s.doneBits s.queued.length = fun _ => false := by
        funext half
        exact decide_eq_false (hlast half)
      show Function.update s.slots _ _ _ = (⟨slotState (s.doneBits s.queued.length), _⟩ : FrameSlot)
      rw [← h.writeCursor, Function.update_self, hbits, slotState_none]
      obtain ⟨hregs, hmem⟩ := hinputs
      have hinputs : (s.slots s.writeSlot).inputs = frame := by
        cases frame
        exact congrArg₂ FrameInputs.mk hregs hmem
      exact congrArg (FrameSlot.mk S_QUEUED) hinputs
  · intro k hk hk'
    rw [hlength] at hk
    have hne : k % SWAPCHAIN ≠ s.writeSlot := by
      rw [h.writeCursor]
      exact slot_ne (h.freed_le_queued.trans (by omega)) hk' h.freed_le_queued hroom (by omega)
    show (Function.update s.slots _ _ _).state = 0
    rw [Function.update_of_ne hne]
    exact h.free k (by omega) hk'
  · intro half frame hframe
    rcases hsplit hframe with hframe | ⟨hdone, -⟩
    · exact h.draws half frame hframe
    · -- the core waits for the frame
      have hwaiting : (s.workers half).phase = .waiting := by
        by_contra hphase
        have hlt := h.reading half hphase
        exact absurd hlt (by rw [show s.done half = _ from hdone]; exact lt_irrefl _)
      show Draws half frame _ (s.workers half).phase
      rw [hwaiting]
      trivial
  · intro k frame hk hframe half i hi
    rcases hsplit hframe with hframe | ⟨rfl, -⟩
    · exact h.buffers k frame hk hframe half i hi
    · -- no row of it is drawn
      have hnone : s.drawnRows half s.queued.length = 0 := by
        rw [drawnRows, if_neg (hlast half)]
        split
        · rename_i hdone
          cases hphase : (s.workers half).phase with
          | waiting => rfl
          | taken => rfl
          | drawing rows =>
              have hlt := h.reading half (by rw [hphase]; exact WorkerPhase.noConfusion)
              omega
        · rfl
      exact absurd (lt_of_lt_of_eq hi hnone) (Nat.not_lt_zero i)
  · intro frame hframe
    rcases hsplit hframe with hframe | ⟨hpresented, -⟩
    · exact h.shows frame hframe
    · -- what is shown has been queued
      have hfreed := h.freed_le_queued
      have hshown := h.freed_eq
      show Shows frame s.present
      cases hphase : s.present with
      | waiting => trivial
      | taken => trivial
      | presenting rows =>
          rw [hphase] at hshown
          simp only [PresentPhase.freed] at hshown
          have hp : s.presented.length = s.queued.length := hpresented
          omega

theorem InStep.queueFrame (h : s.InStep freed) (hstep : s.queueFrame = some t) :
    t.InStep freed := by
  rw [RenderState.queueFrame] at hstep
  cases hcpu : s.cpu with
  | guest =>
      rw [hcpu] at hstep
      exact absurd hstep.symm (Option.some_ne_none t)
  | swapping captured shm =>
      have hroom := h.busy (by rw [hcpu]; exact CpuPhase.noConfusion)
      have hmem := h.handover
      rw [hcpu] at hstep hmem
      obtain rfl := Option.some.inj hstep
      refine { h with
        inFlight := fun k frame hk hframe => h.inFlight_setSlot hroom _ hk hframe
        free := fun k hk hk' => free_setSlot rfl (h.free k hk hk')
        busy := fun _ => hroom
        handover := ?_ }
      show (Function.update s.slots _ _ s.writeSlot).inputs.regs = _ ∧
        List.foldl _ (Function.update s.slots _ _ s.writeSlot).inputs.mem _ = _
      rw [Function.update_self]
      exact ⟨rfl, hmem.symm⟩
  | copying captured shm left =>
      have hroom := h.busy (by rw [hcpu]; exact CpuPhase.noConfusion)
      have hmem := h.handover
      rw [hcpu] at hstep hmem
      cases left with
      | cons byte left =>
          obtain rfl := Option.some.inj hstep
          refine { h with
            inFlight := fun k frame hk hframe => h.inFlight_setSlot hroom _ hk hframe
            free := fun k hk hk' => free_setSlot rfl (h.free k hk hk')
            busy := fun _ => hroom
            handover := ?_ }
          show (Function.update s.slots _ _ s.writeSlot).inputs.regs = _ ∧
            List.foldl _ (Function.update s.slots _ _ s.writeSlot).inputs.mem _ = _
          rw [Function.update_self]
          exact hmem
      | nil =>
          obtain rfl := Option.some.inj hstep
          exact h.storeQueued hroom hmem

/-! ## The steps of a core -/

@[simp] theorem setWorker_workers (s : RenderState) (half : Fin 2) (worker : RasterWorker) :
    (s.setWorker half worker).workers = Function.update s.workers half worker := rfl

/-- **A core** that sees its slot queued has not done the frame of it. -/
theorem InStep.worker_lt (h : s.InStep freed) {half : Fin 2}
    (hstate : (s.slots (s.workers half).slot).state &&& (S_QUEUED ||| S_HALF half) = S_QUEUED) :
    s.done half < s.queued.length := by
  have hfreed := h.freed_le half
  refine lt_of_le_of_ne (h.done_le half) fun hdone => ?_
  rw [h.slotCursor] at hstate
  by_cases hroom : s.queued.length < freed + SWAPCHAIN
  · -- the next slot is free
    rw [h.free (s.done half) hdone.ge (hdone ▸ hroom)] at hstate
    exact free_not_queued half hstate
  · -- the slot is that of a frame which the core has done
    have hq : s.done half = freed + SWAPCHAIN := hdone.trans (le_antisymm h.room (not_lt.1 hroom))
    have hpos : freed < s.done half := by
      unfold SWAPCHAIN at hq
      omega
    obtain ⟨frame, hframe⟩ := exists_queued (s := s) (k := freed) (hdone ▸ hpos)
    rw [hq, Nat.add_mod_right, h.inFlight freed frame le_rfl hframe, slotState_queued_iff] at hstate
    exact Bool.noConfusion (hstate.symm.trans (decide_eq_true hpos))

/-- A core goes on with its frame: the others, and what is logged, stay. -/
theorem InStep.advanceWorker (h : s.InStep freed) {half : Fin 2} {phase : WorkerPhase}
    {scratch : RasterScratch} (pixels : ℕ → ℕ → PixelRow)
    (hreading : s.done half < s.queued.length)
    (hdraws : ∀ frame, s.queued[s.done half]? = some frame → Draws half frame scratch phase)
    (hbuffers : ∀ k frame, s.presented.length ≤ k → s.queued[k]? = some frame →
      ∀ (half' : Fin 2) i, i < (if half' = half ∧ k = s.done half then phase.drawn
        else s.drawnRows half' k) →
      pixels (k % FRAME_BUFS) (half'.val * HALF_LINES + i) =
        frame.row (half'.val * HALF_LINES + i)) :
    InStep { s.setWorker half { s.workers half with phase, scratch } with pixels } freed := by
  have hother : ∀ {half'}, half' ≠ half → (s.setWorker half
      { s.workers half with phase, scratch }).workers half' = s.workers half' := fun hne => by
    rw [setWorker_workers, Function.update_of_ne hne]
  have hself : (s.setWorker half { s.workers half with phase, scratch }).workers half =
      { s.workers half with phase, scratch } := by
    rw [setWorker_workers, Function.update_self]
  have hcursor : ∀ half', ((s.setWorker half { s.workers half with phase, scratch }).workers
      half').slot = (s.workers half').slot ∧ ((s.setWorker half
        { s.workers half with phase, scratch }).workers half').pix = (s.workers half').pix := by
    intro half'
    by_cases hhalf : half' = half
    · rw [hhalf, hself]
      exact ⟨rfl, rfl⟩
    · rw [hother hhalf]
      exact ⟨rfl, rfl⟩
  refine { h with
    slotCursor := fun half' => (hcursor half').1.trans (h.slotCursor half')
    pixCursor := fun half' => (hcursor half').2.trans (h.pixCursor half')
    reading := fun half' hphase => ?_
    draws := fun half' frame hframe => ?_
    buffers := fun k frame hk hframe half' i hi => ?_ }
  · by_cases hhalf : half' = half
    · rw [hhalf]
      exact hreading
    · exact h.reading half' (by rwa [← hother hhalf])
  · by_cases hhalf : half' = half
    · subst hhalf
      show Draws _ frame (Function.update s.workers _ _ _).scratch
        (Function.update s.workers _ _ _).phase
      rw [Function.update_self]
      exact hdraws frame hframe
    · show Draws _ frame (Function.update s.workers _ _ _).scratch
        (Function.update s.workers _ _ _).phase
      rw [Function.update_of_ne hhalf]
      exact h.draws half' frame hframe
  · refine hbuffers k frame hk hframe half' i (lt_of_lt_of_eq hi ?_)
    rw [drawnRows, drawnRows]
    show (if k < s.done half' then HALF_LINES
      else if k = s.done half' then (Function.update s.workers half _ half').phase.drawn else 0) = _
    by_cases hhalf : half' = half
    · subst hhalf
      rw [Function.update_self]
      by_cases hdone : k = s.done half'
      · rw [if_neg (by omega), if_pos hdone, if_pos ⟨rfl, hdone⟩]
      · have hnot : ¬ (half' = half' ∧ k = s.done half') := fun hand => hdone hand.2
        rw [if_neg hdone, if_neg hnot, if_neg hdone]
    · have hnot : ¬ (half' = half ∧ k = s.done half) := fun hand => hhalf hand.1
      rw [Function.update_of_ne hhalf, if_neg hnot]

/-- A core goes on before its first row. -/
theorem InStep.startWorker (h : s.InStep freed) {half : Fin 2} {phase : WorkerPhase}
    {scratch : RasterScratch} (hreading : s.done half < s.queued.length)
    (hdraws : ∀ frame, s.queued[s.done half]? = some frame → Draws half frame scratch phase)
    (hdrawn : phase.drawn = 0) :
    (s.setWorker half { s.workers half with phase, scratch }).InStep freed := by
  refine h.advanceWorker s.pixels hreading hdraws ?_
  intro k frame hk hframe half' i hi
  rw [hdrawn] at hi
  split at hi
  · exact absurd hi (Nat.not_lt_zero i)
  · exact h.buffers k frame hk hframe half' i hi

theorem InStep.drawnRows_le (h : s.InStep freed) (half : Fin 2) {k : ℕ} {frame : FrameInputs}
    (hframe : s.queued[k]? = some frame) : s.drawnRows half k ≤ HALF_LINES := by
  rw [drawnRows]
  split
  · exact le_rfl
  split
  · rename_i hdone
    have hdraws := h.draws half frame (hdone ▸ hframe)
    cases hphase : (s.workers half).phase with
    | drawing rows =>
        rw [hphase] at hdraws
        exact hdraws.2.1
    | _ => exact Nat.zero_le _
  · exact Nat.zero_le _

/-- **A row**: it goes into the pixel buffer of the frame, and no other row that counts does. -/
theorem InStep.drawRow (h : s.InStep freed) {half : Fin 2} {rows : List PixelRow}
    {frame : FrameInputs} (hphase : (s.workers half).phase = .drawing rows)
    (hframe : s.queued[s.done half]? = some frame) (hrows : rows.length < HALF_LINES)
    {scratch : RasterScratch} (hoam : scratch.oam = (s.workers half).scratch.oam) :
    InStep { s.setWorker half { s.workers half with
        phase := .drawing (rows ++ [frame.row (half.val * HALF_LINES + rows.length)])
        scratch } with
      pixels := Function.update s.pixels (s.workers half).pix
        (Function.update (s.pixels (s.workers half).pix) (half.val * HALF_LINES + rows.length)
          (frame.row (half.val * HALF_LINES + rows.length))) } freed := by
  have hdraws := h.draws half frame hframe
  rw [hphase] at hdraws
  obtain ⟨hlist, -, hbegun⟩ := hdraws
  refine h.advanceWorker _ (queued_lt hframe) ?_ ?_
  · intro frame' hframe'
    obtain rfl := Option.some.inj (hframe.symm.trans hframe')
    refine ⟨?_, ?_, fun line hlo hhi => hoam ▸ hbegun line hlo hhi⟩
    · rw [List.length_append, List.length_singleton, FrameInputs.rows_succ, ← hlist]
    · rw [List.length_append, List.length_singleton]
      exact hrows
  · intro k frame' hk hframe' half' i hi
    have hroom := h.room
    have hshown := h.freed_le_succ
    have hlt := queued_lt hframe
    have hlt' := queued_lt hframe'
    have hfreed := h.freed_le half
    have hpresented := h.presented_le
    rw [h.pixCursor]
    by_cases hk' : k = s.done half
    · subst hk'
      obtain rfl := Option.some.inj (hframe.symm.trans hframe')
      rw [Function.update_self]
      by_cases hnew : half' = half ∧ i = rows.length
      · obtain ⟨rfl, rfl⟩ := hnew
        rw [Function.update_self]
      · -- another row of the frame
        have hold : i < s.drawnRows half' (s.done half) := by
          by_cases hhalf : half' = half
          · rw [if_pos ⟨hhalf, rfl⟩] at hi
            have hle : i < rows.length + 1 := lt_of_lt_of_eq hi List.length_append
            rw [hhalf, drawnRows, if_neg (lt_irrefl _), if_pos rfl, hphase]
            exact lt_of_le_of_ne (Nat.lt_succ_iff.1 hle) fun heq => hnew ⟨hhalf, heq⟩
          · rwa [if_neg fun hand => hhalf hand.1] at hi
        have hi' : i < HALF_LINES := hold.trans_le (h.drawnRows_le half' hframe)
        have hline : half'.val * HALF_LINES + i ≠ half.val * HALF_LINES + rows.length := by
          intro heq
          have hhalf : half' = half := by
            rw [Fin.ext_iff]
            have h2 := half.isLt
            have h2' := half'.isLt
            unfold HALF_LINES at heq hi' hrows
            omega
          subst hhalf
          exact hnew ⟨rfl, Nat.add_left_cancel heq⟩
        rw [Function.update_of_ne hline]
        exact h.buffers _ frame hk hframe half' i hold
    · -- a row of another frame that has not been shown: it is in another buffer
      have hbuffer : k % FRAME_BUFS ≠ s.done half % FRAME_BUFS := by
        unfold FRAME_BUFS
        unfold SWAPCHAIN at hroom
        omega
      rw [if_neg fun hand => hk' hand.2] at hi
      rw [Function.update_of_ne hbuffer]
      exact h.buffers k frame' hk hframe' half' i hi

/-- The number of frames of a core that has done one more. -/
theorem length_report (r : Fin 2 → List FramePass) (half half' : Fin 2) (pass : FramePass) :
    (Function.update r half (r half ++ [pass]) half').length =
      (r half').length + if half' = half then 1 else 0 := by
  by_cases hhalf : half' = half
  · subst hhalf
    rw [Function.update_self, List.length_append, if_pos rfl]
    rfl
  · rw [Function.update_of_ne hhalf, if_neg hhalf, Nat.add_zero]

/-- A slot that is handed over, and that nothing else writes. -/
theorem InStep.handover_of_slot (h : s.InStep freed) (hwrite : t.writeSlot = s.writeSlot)
    (hdirty : t.slotDirty = s.slotDirty)
    (hslot : s.cpu ≠ .guest → t.slots s.writeSlot = s.slots s.writeSlot) : t.HandsOver s.cpu := by
  have hhandover := h.handover
  cases hcpu : s.cpu with
  | guest => trivial
  | swapping captured shm =>
      rw [hcpu] at hhandover
      rwa [HandsOver, hwrite, hdirty, hslot (by rw [hcpu]; exact CpuPhase.noConfusion)]
  | copying captured shm left =>
      rw [hcpu] at hhandover
      rwa [HandsOver, hwrite, hslot (by rw [hcpu]; exact CpuPhase.noConfusion)]

/-- **The report**: the bit of the half is set, and the core goes on with the next slot. -/
theorem InStep.report (h : s.InStep freed) {half : Fin 2} {rows : List PixelRow}
    (hphase : (s.workers half).phase = .drawing rows) (hrows : ¬ rows.length < HALF_LINES) :
    InStep { (s.setSlot (s.workers half).slot { s.slots (s.workers half).slot with
        state := (s.slots (s.workers half).slot).state ||| S_HALF half }).setWorker half
          { s.workers half with
            phase := .waiting
            slot := ((s.workers half).slot + 1) % SWAPCHAIN
            pix := ((s.workers half).pix + 1) % FRAME_BUFS } with
      rastered := Function.update s.rastered half
        (s.rastered half ++ [⟨(s.workers half).pix, rows⟩]) } freed := by
  obtain ⟨frame, hframe⟩ := exists_queued
    (h.reading half (by rw [hphase]; exact WorkerPhase.noConfusion))
  have hdraws := h.draws half frame hframe
  rw [hphase] at hdraws
  obtain ⟨hlist, hle, -⟩ := hdraws
  have hpass : (⟨(s.workers half).pix, rows⟩ : FramePass) = halfPass half (s.done half) frame := by
    rw [hlist, le_antisymm hle (not_lt.1 hrows), h.pixCursor]
    rfl
  set next : RenderState := { (s.setSlot (s.workers half).slot { s.slots (s.workers half).slot with
        state := (s.slots (s.workers half).slot).state ||| S_HALF half }).setWorker half
          { s.workers half with
            phase := .waiting
            slot := ((s.workers half).slot + 1) % SWAPCHAIN
            pix := ((s.workers half).pix + 1) % FRAME_BUFS } with
      rastered := Function.update s.rastered half
        (s.rastered half ++ [⟨(s.workers half).pix, rows⟩]) } with hnext
  have hdone : ∀ half', next.done half' = s.done half' + if half' = half then 1 else 0 :=
    fun half' => length_report s.rastered half half' _
  have hself : next.workers half = { s.workers half with
      phase := .waiting
      slot := ((s.workers half).slot + 1) % SWAPCHAIN
      pix := ((s.workers half).pix + 1) % FRAME_BUFS } := Function.update_self _ _ _
  have hother : ∀ {half'}, half' ≠ half → next.workers half' = s.workers half' :=
    fun hhalf => Function.update_of_ne hhalf _ _
  have hslot : next.slots = Function.update s.slots (s.workers half).slot
      ⟨slotState (Function.update (s.doneBits (s.done half)) half true), frame⟩ := by
    rw [hnext]
    show Function.update s.slots _ _ = _
    rw [h.workerSlot hframe, slotState_report]
  -- the bits of the frame, and of the others
  have hbits : next.doneBits (s.done half) =
      Function.update (s.doneBits (s.done half)) half true := by
    funext half'
    rw [doneBits, hdone]
    by_cases hhalf : half' = half
    · subst hhalf
      rw [if_pos rfl, Function.update_self]
      exact decide_eq_true (Nat.lt_succ_self _)
    · rw [if_neg hhalf, Function.update_of_ne hhalf]
      rfl
  have hbits' : ∀ k, k ≠ s.done half → next.doneBits k = s.doneBits k := by
    intro k hk
    funext half'
    rw [doneBits, doneBits, hdone]
    by_cases hhalf : half' = half
    · subst hhalf
      rw [if_pos rfl]
      exact decide_eq_decide.2 (by omega)
    · rw [if_neg hhalf, Nat.add_zero]
  have hlt := queued_lt hframe
  have hroom := h.room
  have hfreed := h.freed_le half
  refine { h with
    freed_le := fun half' => (h.freed_le half').trans (by rw [hdone]; exact Nat.le_add_right _ _)
    slotCursor := fun half' => ?_
    pixCursor := fun half' => ?_
    inFlight := fun k frame' hk hframe' => ?_
    free := fun k hk hk' => ?_
    handover := ?_
    reading := fun half' hphase' => ?_
    draws := fun half' frame' hframe' => ?_
    rastered := fun half' => ?_
    buffers := fun k frame' hk hframe' half' i hi => ?_
    taken := fun htaken half' => (h.taken htaken half').trans_le (by
      rw [hdone]
      exact Nat.le_add_right _ _) }
  · by_cases hhalf : half' = half
    · subst hhalf
      rw [hself, hdone, if_pos rfl, h.slotCursor]
      exact Nat.mod_add_mod _ _ _
    · rw [hother hhalf, hdone, if_neg hhalf]
      exact h.slotCursor half'
  · by_cases hhalf : half' = half
    · subst hhalf
      rw [hself, hdone, if_pos rfl, h.pixCursor]
      exact Nat.mod_add_mod _ _ _
    · rw [hother hhalf, hdone, if_neg hhalf]
      exact h.pixCursor half'
  · rw [hslot, h.slotCursor]
    by_cases hk' : k = s.done half
    · subst hk'
      obtain rfl := Option.some.inj (hframe.symm.trans hframe')
      rw [Function.update_self, hbits]
    · rw [Function.update_of_ne (slot_ne hk ((queued_lt hframe').trans_le hroom) hfreed
        (hlt.trans_le hroom) hk'), hbits' k hk']
      exact h.inFlight k frame' hk hframe'
  · rw [hslot, h.slotCursor, Function.update_of_ne (slot_ne (h.freed_le_queued.trans hk) hk' hfreed
      (hlt.trans_le hroom) (hlt.trans_le hk).ne')]
    exact h.free k hk hk'
  · -- the slot that is handed over is another one
    refine h.handover_of_slot rfl rfl fun hbusy => ?_
    have hne : s.writeSlot ≠ (s.workers half).slot := by
      rw [h.slotCursor]
      exact (h.queued_slot_ne (h.busy hbusy) hfreed hlt).symm
    rw [hslot, Function.update_of_ne hne]
  · by_cases hhalf : half' = half
    · subst hhalf
      rw [hself] at hphase'
      exact absurd rfl hphase'
    · rw [hother hhalf] at hphase'
      rw [hdone, if_neg hhalf]
      exact h.reading half' hphase'
  · by_cases hhalf : half' = half
    · subst hhalf
      rw [hself]
      trivial
    · rw [hdone, if_neg hhalf] at hframe'
      rw [hother hhalf]
      exact h.draws half' frame' hframe'
  · show Function.update s.rastered half _ half' <+: _
    by_cases hhalf : half' = half
    · subst hhalf
      rw [Function.update_self, hpass]
      exact prefix_snoc (h.rastered half') hframe
    · rw [Function.update_of_ne hhalf]
      exact h.rastered half'
  · refine h.buffers k frame' hk hframe' half' i (hi.trans_le ?_)
    rw [drawnRows, drawnRows, hdone]
    by_cases hhalf : half' = half
    · subst hhalf
      rw [if_pos rfl, hself, hphase]
      rcases lt_trichotomy k (s.done half') with hk' | hk' | hk'
      · rw [if_pos (Nat.lt_succ_of_lt hk'), if_pos hk']
      · rw [if_pos (by omega), if_neg (by omega), if_pos hk']
        exact not_lt.1 hrows
      · rw [if_neg (by omega)]
        split <;> exact Nat.zero_le _
    · rw [if_neg hhalf, hother hhalf, Nat.add_zero]

/-- **A step of a core**. -/
theorem InStep.rasterWorker (h : s.InStep freed) {half : Fin 2}
    (hstep : s.rasterWorker half = some t) : t.InStep freed := by
  simp only [RenderState.rasterWorker] at hstep
  cases hphase : (s.workers half).phase with
  | waiting =>
      simp only [hphase] at hstep
      obtain ⟨hstate, hnext⟩ := Option.ite_none_right_eq_some.mp hstep
      obtain rfl := Option.some.inj hnext
      exact h.startWorker (h.worker_lt hstate) (fun _ _ => trivial) rfl
  | taken =>
      simp only [hphase] at hstep
      have hlt := h.reading half (by rw [hphase]; exact WorkerPhase.noConfusion)
      obtain ⟨frame, hframe⟩ := exists_queued hlt
      rw [h.workerSlot hframe] at hstep
      obtain ⟨scratch, hbegin, hbegun⟩ := beginFrame_begun frame.mem (half.val * HALF_LINES)
        (half.val * HALF_LINES + HALF_LINES) (by omega)
        (by have h2 := half.isLt; unfold HALF_LINES; omega) (s.workers half).scratch
      rw [hbegin] at hstep
      obtain rfl := Option.some.inj hstep
      refine h.startWorker hlt (fun frame' hframe' => ?_) rfl
      obtain rfl := Option.some.inj (hframe.symm.trans hframe')
      exact ⟨rfl, Nat.zero_le _, hbegun⟩
  | drawing rows =>
      simp only [hphase] at hstep
      by_cases hrows : rows.length < HALF_LINES
      · rw [if_pos hrows] at hstep
        obtain ⟨frame, hframe⟩ := exists_queued
          (h.reading half (by rw [hphase]; exact WorkerPhase.noConfusion))
        have hdraws := h.draws half frame hframe
        rw [hphase] at hdraws
        obtain ⟨after, hdraw, hoam⟩ := frame.drawScanline_eq
          (hdraws.2.2 (half.val * HALF_LINES + rows.length) (Nat.le_add_right _ _) (by omega))
          (s.pixels (s.workers half).pix (half.val * HALF_LINES + rows.length))
        rw [h.workerSlot hframe, hdraw] at hstep
        obtain rfl := Option.some.inj hstep
        exact h.drawRow hphase hframe hrows hoam
      · rw [if_neg hrows] at hstep
        obtain rfl := Option.some.inj hstep
        exact h.report hphase hrows

/-! ## The steps of the present thread -/

/-- The present thread sees its slot rastered: both cores have done its frame. -/
theorem InStep.take (h : s.InStep freed) (hphase : s.present = .waiting)
    (hstate : (s.slots s.readSlot).state = S_RASTERED) :
    InStep { s with present := .taken } freed := by
  have hfreed := h.freed_eq
  rw [hphase] at hfreed
  refine { h with freed_eq := hfreed, taken := fun _ half => ?_, shows := fun _ _ => trivial }
  rw [h.readCursor] at hstate
  by_cases hlt : freed < s.queued.length
  · obtain ⟨frame, hframe⟩ := exists_queued hlt
    rw [h.inFlight freed frame le_rfl hframe, slotState_rastered_iff] at hstate
    exact of_decide_eq_true (hstate half)
  · rw [h.free freed (not_lt.1 hlt) (by unfold SWAPCHAIN; omega)] at hstate
    exact absurd hstate (by decide)

/-- **The slot is freed**: it is none of those that stay in flight. -/
theorem InStep.freeSlot (h : s.InStep freed) (hphase : s.present = .taken) :
    InStep { s.setSlot s.readSlot { s.slots s.readSlot with state := 0 } with
      readSlot := (s.readSlot + 1) % SWAPCHAIN
      present := .presenting [] } (freed + 1) := by
  have htaken := h.taken hphase
  have hfreed := h.freed_eq
  rw [hphase] at hfreed
  have hroom := h.room
  have hlast := h.done_le 0
  have hfirst := htaken 0
  refine { h with
    freed_eq := congrArg (· + 1) hfreed
    freed_le := fun half => htaken half
    room := by
      show s.queued.length ≤ freed + 1 + SWAPCHAIN
      omega
    readCursor := by rw [h.readCursor, Nat.mod_add_mod]
    inFlight := fun k frame hk hframe => ?_
    free := fun k hk hk' => ?_
    busy := fun hbusy => (h.busy hbusy).trans (by omega)
    handover := h.handover_of_slot rfl rfl fun hbusy => ?_
    taken := nofun
    shows := fun frame hframe => ⟨rfl, Nat.zero_le _⟩ }
  · have hlt := queued_lt hframe
    have hne : k % SWAPCHAIN ≠ s.readSlot := by
      rw [h.readCursor]
      exact slot_ne (by omega) (hlt.trans_le hroom) le_rfl (by unfold SWAPCHAIN; omega) (by omega)
    show Function.update s.slots _ _ _ = _
    rw [Function.update_of_ne hne]
    exact h.inFlight k frame (by omega) hframe
  · show (Function.update s.slots _ _ _).state = 0
    by_cases hslot : k % SWAPCHAIN = s.readSlot
    · rw [hslot, Function.update_self]
    · rw [Function.update_of_ne hslot]
      refine h.free k hk (lt_of_le_of_ne (by omega) fun hlast => hslot ?_)
      rw [hlast, Nat.add_mod_right, h.readCursor]
  · have hne : s.writeSlot ≠ s.readSlot := by
      rw [h.readCursor]
      exact (h.queued_slot_ne (h.busy hbusy) le_rfl (by omega)).symm
    exact Function.update_of_ne hne _ _

/-- **A row is uploaded**: both cores have drawn the frame. -/
theorem InStep.upload (h : s.InStep freed) {rows : List PixelRow}
    (hphase : s.present = .presenting rows) (hrows : rows.length < 2 * HALF_LINES) :
    InStep { s with present := .presenting (rows ++ [s.pixels s.presentPixels rows.length]) }
      freed := by
  have hfreed := h.freed_eq
  rw [hphase] at hfreed
  refine { h with
    freed_eq := hfreed
    taken := nofun
    shows := fun frame hframe => ?_ }
  have hshows := h.shows frame hframe
  rw [hphase] at hshows
  obtain ⟨hlist, -⟩ := hshows
  obtain ⟨half, i, hi, hline⟩ : ∃ (half : Fin 2) (i : ℕ), i < HALF_LINES ∧
      half.val * HALF_LINES + i = rows.length := by
    unfold HALF_LINES at hrows ⊢
    exact ⟨⟨rows.length / 80, by omega⟩, rows.length % 80, by omega, by
      show rows.length / 80 * 80 + rows.length % 80 = rows.length
      omega⟩
  have hdone : s.drawnRows half s.presented.length = HALF_LINES := by
    have hle := h.freed_le half
    rw [drawnRows, if_pos]
    rw [hfreed] at hle
    exact hle
  have hpixel := h.buffers _ frame le_rfl hframe half i (hi.trans_eq hdone.symm)
  rw [hline, ← h.presentCursor] at hpixel
  refine ⟨?_, ?_⟩
  · rw [List.length_append, List.length_singleton, FrameInputs.rows_succ, ← hlist, Nat.zero_add,
      hpixel]
  · rw [List.length_append, List.length_singleton]
    exact hrows

/-- **The frame is shown**. -/
theorem InStep.show (h : s.InStep freed) {rows : List PixelRow}
    (hphase : s.present = .presenting rows) (hrows : ¬ rows.length < 2 * HALF_LINES) :
    InStep { s with
      present := .waiting
      presentPixels := (s.presentPixels + 1) % FRAME_BUFS
      presented := s.presented ++ [⟨s.presentPixels, rows⟩] } freed := by
  have hfreed := h.freed_eq
  rw [hphase] at hfreed
  have hlt : s.presented.length < s.queued.length := by
    have hle := h.freed_le_queued
    rw [hfreed] at hle
    exact hle
  obtain ⟨frame, hframe⟩ := exists_queued hlt
  have hshows := h.shows frame hframe
  rw [hphase] at hshows
  obtain ⟨hlist, hle⟩ := hshows
  have hpass : (⟨s.presentPixels, rows⟩ : FramePass) = wholePass s.presented.length frame := by
    rw [hlist, le_antisymm hle (not_lt.1 hrows), h.presentCursor]
    rfl
  have hlength : (s.presented ++ [(⟨s.presentPixels, rows⟩ : FramePass)]).length =
      s.presented.length + 1 := List.length_append
  refine { h with
    freed_eq := by rw [hlength, hfreed]; rfl
    presentCursor := by rw [hlength, h.presentCursor, Nat.mod_add_mod]
    buffers := fun k frame hk hframe => h.buffers k frame ?_ hframe
    taken := nofun
    shows := fun _ _ => trivial
    presented := by rw [hpass]; exact prefix_snoc h.presented hframe }
  rw [hlength] at hk
  omega

/-- **A step of the present thread**. -/
theorem InStep.renderLoop (h : s.InStep freed) (hstep : s.renderLoop = some t) :
    ∃ freed', t.InStep freed' := by
  simp only [RenderState.renderLoop] at hstep
  cases hphase : s.present with
  | waiting =>
      simp only [hphase] at hstep
      obtain ⟨hstate, hnext⟩ := Option.ite_none_right_eq_some.mp hstep
      obtain rfl := Option.some.inj hnext
      exact ⟨freed, h.take hphase hstate⟩
  | taken =>
      simp only [hphase] at hstep
      obtain rfl := Option.some.inj hstep
      exact ⟨freed + 1, h.freeSlot hphase⟩
  | presenting rows =>
      simp only [hphase] at hstep
      by_cases hrows : rows.length < 2 * HALF_LINES
      · rw [if_pos hrows] at hstep
        obtain rfl := Option.some.inj hstep
        exact ⟨freed, h.upload hphase hrows⟩
      · rw [if_neg hrows] at hstep
        obtain rfl := Option.some.inj hstep
        exact ⟨freed, h.show hphase hrows⟩

/-- **Every step** of every thread keeps the invariant. -/
theorem InStep.step (h : s.InStep freed) {a : RenderAction} (hstep : s.step a = some t) :
    ∃ freed', t.InStep freed' := by
  cases a with
  | vblank captured shm gpuMemDirty =>
      rw [RenderState.step] at hstep
      split at hstep
      · obtain rfl := Option.some.inj hstep
        exact ⟨freed, h.onFrameFinish captured shm gpuMemDirty⟩
      · exact absurd hstep.symm (Option.some_ne_none t)
  | queueFrame => exact ⟨freed, h.queueFrame hstep⟩
  | rasterWorker half => exact ⟨freed, h.rasterWorker hstep⟩
  | renderLoop => exact h.renderLoop hstep

/-! ## What a step leaves alone -/

theorem inputs_setSlot {i : ℕ} {slot : FrameSlot} (hslot : slot.inputs = (s.slots i).inputs)
    (j : ℕ) : ((s.setSlot i slot).slots j).inputs = (s.slots j).inputs := by
  by_cases hji : j = i
  · subst hji
    rw [setSlot_slots, Function.update_self, hslot]
  · rw [setSlot_slots, Function.update_of_ne hji]

/-- What a step of a core is: it goes on with its frame, or it reports. -/
theorem rasterWorker_cases {half : Fin 2} (hstep : s.rasterWorker half = some t) :
    (∃ phase scratch pixels, phase.steps = (s.workers half).phase.steps + 1 ∧
      (pixels = s.pixels ∨ (s.workers half).phase ≠ .waiting ∧
        ∀ j, j ≠ (s.workers half).pix → pixels j = s.pixels j) ∧
      t = { s.setWorker half { s.workers half with phase, scratch } with pixels }) ∨
    ∃ rows worker, (s.workers half).phase = .drawing rows ∧ ¬ rows.length < HALF_LINES ∧
      worker.phase = .waiting ∧
      t = { (s.setSlot (s.workers half).slot { s.slots (s.workers half).slot with
            state := (s.slots (s.workers half).slot).state ||| S_HALF half }).setWorker half worker
          with
          rastered := Function.update s.rastered half
            (s.rastered half ++ [⟨(s.workers half).pix, rows⟩]) } := by
  simp only [rasterWorker] at hstep
  cases hphase : (s.workers half).phase with
  | waiting =>
      simp only [hphase] at hstep
      obtain ⟨-, hnext⟩ := Option.ite_none_right_eq_some.mp hstep
      exact Or.inl ⟨.taken, (s.workers half).scratch, s.pixels, rfl, Or.inl rfl,
        (Option.some.inj hnext).symm⟩
  | taken =>
      simp only [hphase] at hstep
      obtain ⟨scratch, -, rfl⟩ := Option.map_eq_some_iff.mp hstep
      exact Or.inl ⟨.drawing [], scratch, s.pixels, rfl, Or.inl rfl, rfl⟩
  | drawing rows =>
      simp only [hphase] at hstep
      by_cases hrows : rows.length < HALF_LINES
      · rw [if_pos hrows] at hstep
        obtain ⟨drawn, -, rfl⟩ := Option.map_eq_some_iff.mp hstep
        refine Or.inl ⟨.drawing (rows ++ [drawn.2]), drawn.1, _, ?_, Or.inr ⟨nofun, ?_⟩, rfl⟩
        · rw [WorkerPhase.steps, WorkerPhase.steps, List.length_append, List.length_singleton]
          rfl
        · exact fun j hj => Function.update_of_ne hj _ _
      · rw [if_neg hrows] at hstep
        exact Or.inr ⟨rows, _, rfl, hrows, rfl, (Option.some.inj hstep).symm⟩

/-- What a step of the present thread is. -/
theorem renderLoop_cases (hstep : s.renderLoop = some t) :
    t.pixels = s.pixels ∧ t.workers = s.workers ∧ t.rastered = s.rastered ∧ t.queued = s.queued ∧
      (∀ i, (t.slots i).inputs = (s.slots i).inputs) ∧
      (t.presented = s.presented ∧ t.present.steps = s.present.steps + 1 ∨
        ∃ rows pass, s.present = .presenting rows ∧ ¬ rows.length < 2 * HALF_LINES ∧
          t.present = .waiting ∧ t.presented = s.presented ++ [pass]) := by
  simp only [renderLoop] at hstep
  cases hphase : s.present with
  | waiting =>
      simp only [hphase] at hstep
      obtain ⟨-, hnext⟩ := Option.ite_none_right_eq_some.mp hstep
      obtain rfl := Option.some.inj hnext
      exact ⟨rfl, rfl, rfl, rfl, fun _ => rfl, Or.inl ⟨rfl, rfl⟩⟩
  | taken =>
      simp only [hphase] at hstep
      obtain rfl := Option.some.inj hstep
      exact ⟨rfl, rfl, rfl, rfl, inputs_setSlot rfl, Or.inl ⟨rfl, rfl⟩⟩
  | presenting rows =>
      simp only [hphase] at hstep
      by_cases hrows : rows.length < 2 * HALF_LINES
      · rw [if_pos hrows] at hstep
        obtain rfl := Option.some.inj hstep
        refine ⟨rfl, rfl, rfl, rfl, fun _ => rfl, Or.inl ⟨rfl, ?_⟩⟩
        rw [PresentPhase.steps, PresentPhase.steps, List.length_append, List.length_singleton]
        rfl
      · rw [if_neg hrows] at hstep
        obtain rfl := Option.some.inj hstep
        exact ⟨rfl, rfl, rfl, rfl, fun _ => rfl, Or.inr ⟨rows, _, rfl, hrows, rfl, rfl⟩⟩

/-- The inputs of a slot are written by a handover of that slot. -/
theorem inputs_of_step {a : RenderAction} (hstep : s.step a = some t) (i : ℕ) :
    (t.slots i).inputs = (s.slots i).inputs ∨ s.cpu ≠ .guest ∧ i = s.writeSlot := by
  cases a with
  | vblank captured shm gpuMemDirty =>
      rw [step] at hstep
      split at hstep
      · obtain rfl := Option.some.inj hstep
        exact Or.inl rfl
      · exact absurd hstep.symm (Option.some_ne_none t)
  | queueFrame =>
      rw [step, queueFrame] at hstep
      by_cases hi : i = s.writeSlot
      · refine Or.inr ⟨fun hcpu => ?_, hi⟩
        rw [hcpu] at hstep
        exact Option.some_ne_none t hstep.symm
      · left
        split at hstep
        · exact absurd hstep.symm (Option.some_ne_none t)
        all_goals
          obtain rfl := Option.some.inj hstep
          exact congrArg FrameSlot.inputs (Function.update_of_ne hi _ _)
  | rasterWorker half =>
      rcases rasterWorker_cases hstep with ⟨phase, scratch, pixels, -, -, rfl⟩ |
        ⟨rows, worker, -, -, -, rfl⟩
      · exact Or.inl rfl
      · left
        show ((s.setSlot (s.workers half).slot _).slots i).inputs = _
        exact inputs_setSlot (by rfl) i
  | renderLoop => exact Or.inl ((renderLoop_cases hstep).2.2.2.2.1 i)

/-- A pixel buffer is written by a core that is at it. -/
theorem pixels_of_step {a : RenderAction} (hstep : s.step a = some t) (j : ℕ) :
    t.pixels j = s.pixels j ∨
      ∃ half, (s.workers half).phase ≠ .waiting ∧ (s.workers half).pix = j := by
  cases a with
  | vblank captured shm gpuMemDirty =>
      rw [step] at hstep
      split at hstep
      · obtain rfl := Option.some.inj hstep
        exact Or.inl rfl
      · exact absurd hstep.symm (Option.some_ne_none t)
  | queueFrame =>
      rw [step, queueFrame] at hstep
      split at hstep
      · exact absurd hstep.symm (Option.some_ne_none t)
      all_goals
        obtain rfl := Option.some.inj hstep
        exact Or.inl rfl
  | rasterWorker half =>
      rcases rasterWorker_cases hstep with ⟨phase, scratch, pixels, -, hpixels, rfl⟩ |
        ⟨rows, worker, -, -, -, rfl⟩
      · rcases hpixels with rfl | ⟨hphase, hother⟩
        · exact Or.inl rfl
        · by_cases hj : j = (s.workers half).pix
          · exact Or.inr ⟨half, hphase, hj.symm⟩
          · exact Or.inl (hother j hj)
      · exact Or.inl rfl
  | renderLoop => exact Or.inl (congrFun (renderLoop_cases hstep).1 j)

/-- **A handover** is to a free slot, which no core reads. -/
theorem InStep.free_of_busy (h : s.InStep freed) (hbusy : s.cpu ≠ .guest) :
    (s.slots s.writeSlot).state = 0 ∧
      ∀ half, (s.workers half).phase ≠ .waiting → (s.workers half).slot ≠ s.writeSlot := by
  have hroom := h.busy hbusy
  refine ⟨?_, fun half hphase => ?_⟩
  · rw [h.writeCursor]
    exact h.free _ le_rfl hroom
  · rw [h.slotCursor]
    exact h.queued_slot_ne hroom (h.freed_le half) (h.reading half hphase)

/-- **The buffer that is shown**, from the freeing of its slot on, is none that a core is at. -/
theorem InStep.pix_ne (h : s.InStep freed) {rows : List PixelRow}
    (hpresent : s.present = .presenting rows) {half : Fin 2}
    (hphase : (s.workers half).phase ≠ .waiting) : (s.workers half).pix ≠ s.presentPixels := by
  have hfreed := h.freed_eq
  rw [hpresent] at hfreed
  have hshown : freed = s.presented.length + 1 := hfreed
  have hroom := h.room
  have hle := h.freed_le half
  have hlt := h.reading half hphase
  rw [h.pixCursor, h.presentCursor]
  unfold FRAME_BUFS
  unfold SWAPCHAIN at hroom
  omega

/-! ## The work that is left -/

/-- The steps a core has left for what is queued. -/
def workerLeft (s : RenderState) (half : Fin 2) : ℕ :=
  (HALF_LINES + 3) * (s.queued.length - s.done half) - (s.workers half).phase.steps

/-- The steps the present thread has left for what is queued. -/
def presentLeft (s : RenderState) : ℕ :=
  (2 * HALF_LINES + 3) * (s.queued.length - s.presented.length) - s.present.steps

/-- The steps that are left for what is queued. -/
def work (s : RenderState) : ℕ := s.workerLeft 0 + s.workerLeft 1 + s.presentLeft

theorem InStep.worker_steps (h : s.InStep freed) (half : Fin 2) :
    (s.workers half).phase.steps ≤ HALF_LINES + 2 ∧
      ((s.workers half).phase.steps = 0 ∨ s.done half < s.queued.length) := by
  by_cases hwaiting : (s.workers half).phase = .waiting
  · rw [hwaiting]
    exact ⟨Nat.zero_le _, Or.inl rfl⟩
  · have hlt := h.reading half hwaiting
    refine ⟨?_, Or.inr hlt⟩
    obtain ⟨frame, hframe⟩ := exists_queued hlt
    have hdraws := h.draws half frame hframe
    cases hphase : (s.workers half).phase with
    | waiting => exact absurd hphase hwaiting
    | taken => exact Nat.le_add_left _ _
    | drawing rows =>
        rw [hphase] at hdraws
        have hle := hdraws.2.1
        simp only [WorkerPhase.steps]
        omega

theorem InStep.present_steps (h : s.InStep freed) :
    s.present.steps ≤ 2 * HALF_LINES + 2 ∧
      (s.present.steps = 0 ∨ s.presented.length < s.queued.length) := by
  have hfreed := h.freed_eq
  have hle := h.freed_le 0
  have hdone := h.done_le 0
  cases hphase : s.present with
  | waiting => exact ⟨Nat.zero_le _, Or.inl rfl⟩
  | taken =>
      have htaken := h.taken hphase 0
      rw [hphase] at hfreed
      simp only [PresentPhase.freed] at hfreed
      exact ⟨Nat.le_add_left _ _, Or.inr (by omega)⟩
  | presenting rows =>
      rw [hphase] at hfreed
      simp only [PresentPhase.freed] at hfreed
      have hlt : s.presented.length < s.queued.length := by omega
      obtain ⟨frame, hframe⟩ := exists_queued hlt
      have hshows := h.shows frame hframe
      rw [hphase] at hshows
      have hrows := hshows.2
      simp only [PresentPhase.steps]
      exact ⟨by omega, Or.inr hlt⟩

/-- **Every step** behind the cpu thread takes one off the work. -/
theorem InStep.work_step (h : s.InStep freed) {a : RenderAction} (ha : a.Consumes)
    (hstep : s.step a = some t) : t.work + 1 = s.work := by
  obtain ⟨freed', h'⟩ := h.step hstep
  cases a with
  | vblank captured shm gpuMemDirty => exact ha.elim
  | queueFrame => exact ha.elim
  | rasterWorker half =>
      -- the other core and the present thread keep what they have left
      have hsame : t.queued = s.queued ∧ t.presentLeft = s.presentLeft ∧
          (∀ half', half' ≠ half → t.workerLeft half' = s.workerLeft half') ∧
          t.workerLeft half + 1 = s.workerLeft half := by
        have hsteps := h.worker_steps half
        have hsteps' := h'.worker_steps half
        rcases rasterWorker_cases hstep with ⟨phase, scratch, pixels, hphase, -, rfl⟩ |
          ⟨rows, worker, hphase, hrows, hwaiting, rfl⟩
        · refine ⟨rfl, rfl, fun half' hhalf => ?_, ?_⟩
          · show _ * (s.queued.length - s.done half') -
              (Function.update s.workers _ _ _).phase.steps = _
            rw [Function.update_of_ne hhalf]
            rfl
          · have hself : (Function.update s.workers half
                { s.workers half with phase, scratch } half).phase.steps =
                  (s.workers half).phase.steps + 1 := by
              rw [Function.update_self]
              exact hphase
            have hlt := hsteps'.2
            have hle := hsteps'.1
            simp only [setWorker_workers, hself] at hlt hle
            show _ * (s.queued.length - s.done half) -
              (Function.update s.workers _ _ _).phase.steps + 1 = _
            rw [hself, workerLeft]
            have hdone : s.done half < s.queued.length := hlt.resolve_left (Nat.succ_ne_zero _)
            unfold HALF_LINES at hle ⊢
            omega
        · rw [hphase] at hsteps
          have hlength := fun half' =>
            length_report s.rastered half half' ⟨(s.workers half).pix, rows⟩
          refine ⟨rfl, rfl, fun half' hhalf => ?_, ?_⟩
          · show _ * (s.queued.length - (Function.update s.rastered _ _ _).length) -
              (Function.update s.workers _ _ _).phase.steps = _
            rw [hlength, if_neg hhalf, Function.update_of_ne hhalf]
            rfl
          · show _ * (s.queued.length - (Function.update s.rastered _ _ _).length) -
              (Function.update s.workers _ _ _).phase.steps + 1 = _
            rw [hlength, if_pos rfl, Function.update_self, hwaiting, workerLeft, hphase]
            have hdone : s.done half < s.queued.length :=
              hsteps.2.resolve_left (by simp only [WorkerPhase.steps]; omega)
            have hle := hsteps.1
            simp only [WorkerPhase.steps, done] at hle hdone ⊢
            unfold HALF_LINES at hle hrows ⊢
            omega
      obtain ⟨-, hpresent, hother, hself⟩ := hsame
      rw [work, work, hpresent]
      fin_cases half
      · have hone := hother 1 (by decide)
        simp only [Fin.zero_eta, Fin.isValue] at hself
        omega
      · have hzero := hother 0 (by decide)
        simp only [Fin.mk_one, Fin.isValue] at hself
        omega
  | renderLoop =>
      obtain ⟨-, hworkers, hrastered, hqueued, -, hcases⟩ := renderLoop_cases hstep
      have hleft : ∀ half, t.workerLeft half = s.workerLeft half := fun half => by
        rw [workerLeft, workerLeft, done, done, hworkers, hrastered, hqueued]
      have hsteps := h.present_steps
      have hsteps' := h'.present_steps
      have hpresent : t.presentLeft + 1 = s.presentLeft := by
        rw [presentLeft, presentLeft]
        rcases hcases with ⟨hpresented, hphase⟩ | ⟨rows, pass, hphase, hrows, hwaiting, hpresented⟩
        · rw [hphase, hpresented, hqueued] at hsteps' ⊢
          unfold HALF_LINES at hsteps' ⊢
          omega
        · rw [hphase] at hsteps ⊢
          rw [hwaiting, hpresented, hqueued, List.length_append, List.length_singleton]
          simp only [PresentPhase.steps] at hsteps ⊢
          unfold HALF_LINES at hsteps hrows ⊢
          omega
      rw [work, work, hleft, hleft]
      omega

/-- A core that has not done what is queued goes on. -/
theorem InStep.worker_enabled (h : s.InStep freed) {half : Fin 2}
    (hlt : s.done half < s.queued.length) : ∃ t, s.rasterWorker half = some t := by
  obtain ⟨frame, hframe⟩ := exists_queued hlt
  have hdraws := h.draws half frame hframe
  simp only [RenderState.rasterWorker]
  rw [h.workerSlot hframe]
  cases hphase : (s.workers half).phase with
  | waiting =>
      have hcheck := (slotState_queued_iff (s.doneBits (s.done half)) half).2
        (decide_eq_false (lt_irrefl _))
      exact ⟨_, if_pos hcheck⟩
  | taken =>
      obtain ⟨scratch, hbegin, -⟩ := beginFrame_begun frame.mem (half.val * HALF_LINES)
        (half.val * HALF_LINES + HALF_LINES) (by omega)
        (by have h2 := half.isLt; unfold HALF_LINES; omega) (s.workers half).scratch
      exact ⟨_, by simp only [hbegin]; rfl⟩
  | drawing rows =>
      rw [hphase] at hdraws
      by_cases hrows : rows.length < HALF_LINES
      · obtain ⟨after, hdraw, -⟩ := frame.drawScanline_eq
          (hdraws.2.2 (half.val * HALF_LINES + rows.length) (Nat.le_add_right _ _) (by omega))
          (s.pixels (s.workers half).pix (half.val * HALF_LINES + rows.length))
        exact ⟨_, by simp only [if_pos hrows, hdraw]; rfl⟩
      · exact ⟨_, if_neg hrows⟩

/-- The present thread goes on when the cores are done, and something has not been shown. -/
theorem InStep.present_enabled (h : s.InStep freed) (hdone : ∀ half, s.done half = s.queued.length)
    (hlt : s.presented.length < s.queued.length) : ∃ t, s.renderLoop = some t := by
  have hfreed := h.freed_eq
  simp only [RenderState.renderLoop]
  cases hphase : s.present with
  | waiting =>
      rw [hphase] at hfreed
      obtain rfl : freed = s.presented.length := hfreed
      obtain ⟨frame, hframe⟩ := exists_queued hlt
      have hslot := h.inFlight _ frame le_rfl hframe
      have hcheck := (slotState_rastered_iff (s.doneBits s.presented.length)).2 fun half =>
        decide_eq_true (lt_of_lt_of_eq hlt (hdone half).symm)
      rw [h.readCursor, hslot]
      exact ⟨_, if_pos hcheck⟩
  | taken => exact ⟨_, rfl⟩
  | presenting rows =>
      by_cases hrows : rows.length < 2 * HALF_LINES
      · exact ⟨_, if_pos hrows⟩
      · exact ⟨_, if_neg hrows⟩

/-- **Nothing is left behind**: where no thread behind the cpu thread goes on, all that has been
queued has been drawn, and shown. -/
theorem InStep.all_done (h : s.InStep freed) (hnone : ∀ a, a.Consumes → s.step a = none) :
    (∀ half, s.rastered half = s.queued.mapIdx (halfPass half)) ∧
      s.presented = s.queued.mapIdx wholePass := by
  have hdone : ∀ half, s.done half = s.queued.length := fun half => by
    refine (h.done_le half).eq_of_not_lt fun hlt => ?_
    obtain ⟨t, ht⟩ := h.worker_enabled hlt
    exact Option.some_ne_none t (ht.symm.trans (hnone (.rasterWorker half) trivial))
  have hshown : s.presented.length = s.queued.length := by
    refine (h.presented_le.trans h.freed_le_queued).eq_of_not_lt fun hlt => ?_
    obtain ⟨t, ht⟩ := h.present_enabled hdone hlt
    exact Option.some_ne_none t (ht.symm.trans (hnone .renderLoop trivial))
  refine ⟨fun half => (h.rastered half).eq_of_length ?_, h.presented.eq_of_length ?_⟩
  · rw [List.length_mapIdx]
    exact hdone half
  · rw [List.length_mapIdx]
    exact hshown

/-- What is reached from a new game is in step. -/
theorem exists_inStep {start : RenderState}
    (h : Reaches RenderState.step (fun _ _ => True) start.resetForNewGame t) :
    ∃ freed, t.InStep freed := by
  refine h.invariant (I := fun t => ∃ freed, t.InStep freed) ?_ ⟨0, inStep_reset start⟩
  rintro s a t ⟨freed, hs⟩ - hstep
  exact hs.step hstep

end RenderState

/-- **The render handshake**, after any steps of the threads in any order: a slot's inputs are
written by a handover, while its state is 0 and no core reads it; the passes of the cores are those
over the frames of the queue, one after the other, and so are the showings, each in the pixel buffer
of the frame; a pixel buffer is not written between the freeing of its slot and its swap; and the
threads behind the cpu thread go on until all that has been queued has been drawn and shown. -/
theorem render_handshake_law (start t : RenderState)
    (h : Reaches RenderState.step (fun _ _ => True) start.resetForNewGame t) :
    (∀ a t', t.step a = some t' → ∀ slot, (t'.slots slot).inputs ≠ (t.slots slot).inputs →
      t.cpu ≠ .guest ∧ slot = t.writeSlot) ∧
    (t.cpu ≠ .guest → (t.slots t.writeSlot).state = 0 ∧
      ∀ half, (t.workers half).phase ≠ .waiting → (t.workers half).slot ≠ t.writeSlot) ∧
    (∀ half, t.rastered half <+: t.queued.mapIdx (halfPass half)) ∧
    t.presented <+: t.queued.mapIdx wholePass ∧
    (∀ rows, t.present = .presenting rows →
      (∀ half, (t.workers half).phase ≠ .waiting → (t.workers half).pix ≠ t.presentPixels) ∧
      ∀ a t', t.step a = some t' → t'.pixels t.presentPixels = t.pixels t.presentPixels) ∧
    (∀ a t', a.Consumes → t.step a = some t' → t'.work + 1 = t.work) ∧
    ((∀ a, a.Consumes → t.step a = none) →
      (∀ half, t.rastered half = t.queued.mapIdx (halfPass half)) ∧
        t.presented = t.queued.mapIdx wholePass) := by
  obtain ⟨freed, hstate⟩ := RenderState.exists_inStep h
  refine ⟨fun a t' hstep slot hne => ?_, hstate.free_of_busy, hstate.rastered, hstate.presented,
    fun rows hpresent => ⟨fun half => hstate.pix_ne hpresent, fun a t' hstep => ?_⟩,
    fun a t' ha => hstate.work_step ha, hstate.all_done⟩
  · exact (RenderState.inputs_of_step hstep slot).resolve_left hne
  · refine (RenderState.pixels_of_step hstep t.presentPixels).resolve_right ?_
    rintro ⟨half, hphase, hpix⟩
    exact hstate.pix_ne hpresent hphase hpix

/-- A renderer that has been used. -/
def usedRenderer : RenderState where
  slots _ := ⟨S_RASTERED, ⟨fun _ => patternContext.dispCnt, fun _ => .new⟩, patternMem⟩
  pixels _ _ _ := 0
  cpu := .guest
  writeSlot := 1
  slotDirty _ := 0
  workers _ := ⟨.waiting, 1, 3, usedScratch⟩
  present := .waiting
  readSlot := 1
  presentPixels := 3
  queued := []
  rastered _ := []
  presented := []

/-- The renderer at the first vblank of a new game. -/
def firstVblank : RenderState :=
  usedRenderer.resetForNewGame.onFrameFinish ⟨fun _ => patternContext.dispCnt, fun _ => .new⟩
    patternMem DIRTY_PAL

/-- The first frame is handed over to a free slot. -/
theorem render_handshake_law_vblank :
    (firstVblank.slots firstVblank.writeSlot).state = 0 ∧
      ∀ half, (firstVblank.workers half).phase ≠ .waiting →
        (firstVblank.workers half).slot ≠ firstVblank.writeSlot := by
  have hreached : Reaches RenderState.step (fun _ _ => True) usedRenderer.resetForNewGame
      firstVblank := Reaches.single (a := .vblank _ _ _) trivial rfl
  refine (render_handshake_law usedRenderer firstVblank hreached).2.1 ?_
  show (if (0 : BitVec 8) = 0 then CpuPhase.swapping _ _ else .guest) ≠ .guest
  rw [if_pos rfl]
  exact CpuPhase.noConfusion

end AdvancedSlop
