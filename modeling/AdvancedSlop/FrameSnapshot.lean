/-
# The snapshot of a frame

The frame from the guest's side: at each hblank the display registers are captured
(`capture_scanline`), and at vblank `on_frame_finish` hands the frame over, with a snapshot that
copies the dirty parts of the video memory into a slot (`src/core/gpu.rs`,
`src/core/graphics/gpu_mem_buf.rs`).  The slots rotate, and a slot that was skipped has missed the
changes of several frames.

* `FrameState`, `FrameState.step` : the scanline events, the guest's operations and the restores at
  the vblank hook, next to the threads of the renderer;
* `FrameShot`, `FrameInputs.Holds` : the video memory at a vblank and the registers at the hblanks
  of its frame, and that the inputs of a frame are these;
* `FrameInv` : the invariant, `FrameInv.step` : every step keeps it;
* `frame_snapshot_law` : what is queued, and what a core draws from, holds its shot.
-/
import AdvancedSlop.RenderHandshake
import AdvancedSlop.Session
import AdvancedSlop.VideoDirty

namespace AdvancedSlop

open DirtyMirror TransitionSystem

attribute [local instance] neZero_pair

/-! ## The copy -/

theorem byte_copyByte (shm buf : GpuMemBuf) (b c : MemPart × ℕ) :
    (shm.copyByte buf b).byte c = if c = b then shm.byte c else buf.byte c := by
  obtain ⟨part, i⟩ := b
  obtain ⟨part', j⟩ := c
  by_cases hij : j = i
  · subst hij
    cases part <;> cases part' <;> simp [GpuMemBuf.copyByte, GpuMemBuf.byte]
  · cases part <;> cases part' <;> simp [GpuMemBuf.copyByte, GpuMemBuf.byte, hij]

theorem byte_foldl_copyByte (shm : GpuMemBuf) (c : MemPart × ℕ) (l : List (MemPart × ℕ))
    (buf : GpuMemBuf) :
    (l.foldl shm.copyByte buf).byte c = if c ∈ l then shm.byte c else buf.byte c := by
  induction l generalizing buf with
  | nil => simp
  | cons b l ih =>
      rw [List.foldl_cons, ih, byte_copyByte]
      by_cases hc : c = b
      · simp [hc]
      · simp [hc]

/-- What is copied is what is flagged. -/
theorem mem_snapshotBytes {dirty : BitVec 8} {c : MemPart × ℕ} :
    c ∈ snapshotBytes dirty ↔ ∃ p ∈ flagged dirty, c ∈ videoCells p := by
  have hvram : ∀ p : VideoPart, p = .bg ∨ p = .obj → dirty &&& p.bit ≠ 0 →
      dirty &&& (DIRTY_BG ||| DIRTY_OBJ) ≠ 0 := by
    intro p hp hbit hzero
    rw [BitVec.and_or_distrib_left] at hzero
    obtain ⟨hbg, hobj⟩ := BitVec.or_eq_zero_iff.mp hzero
    rcases hp with rfl | rfl
    · exact hbit hbg
    · exact hbit hobj
  unfold snapshotBytes
  simp only [List.mem_append, List.mem_ite_nil_right]
  constructor
  · rintro ((⟨-, ⟨hbit, hc⟩ | ⟨hbit, hc⟩⟩ | ⟨hbit, hc⟩) | ⟨hbit, hc⟩)
    · exact ⟨.bg, hbit, hc⟩
    · exact ⟨.obj, hbit, hc⟩
    · exact ⟨.pal, hbit, hc⟩
    · exact ⟨.oam, hbit, hc⟩
  · rintro ⟨p, hbit, hc⟩
    cases p with
    | bg => exact .inl (.inl ⟨hvram .bg (.inl rfl) hbit, .inl ⟨hbit, hc⟩⟩)
    | obj => exact .inl (.inl ⟨hvram .obj (.inr rfl) hbit, .inr ⟨hbit, hc⟩⟩)
    | pal => exact .inl (.inr ⟨hbit, hc⟩)
    | oam => exact .inr ⟨hbit, hc⟩

/-- **The snapshot** brings a buffer up to date. -/
theorem upToDate_snapshot {buf shm : GpuMemBuf} {dirty : BitVec 8}
    (h : UpToDate videoCells (flagged dirty) shm.byte buf.byte) :
    UpToDate videoCells ∅ shm.byte (buf.snapshot shm dirty).byte := by
  have hbyte : ∀ c, (buf.snapshot shm dirty).byte c =
      if c ∈ snapshotBytes dirty then shm.byte c else buf.byte c := fun c =>
    byte_foldl_copyByte shm c (snapshotBytes dirty) buf
  apply h.refresh
  · intro c
    rw [hbyte]
    split_ifs
    · exact .inr rfl
    · exact .inl rfl
  · intro p hp c hc
    rw [hbyte, if_pos (mem_snapshotBytes.mpr ⟨p, hp, hc⟩)]

/-! ## The machine -/

/-- The scanline event that is scheduled. -/
inductive ScanlineEvent where
  | scanline240
  | scanline308
  deriving DecidableEq

/-- The display registers at the hblank of a line. -/
structure HBlank where
  line : ℕ
  dispCnt : DispCnt
  ppu : PpuRegs

/-- What a frame should be drawn from: the video memory at its vblank, and the display registers at
the hblanks since its first line. -/
structure FrameShot where
  video : GpuMemBuf
  hblanks : List HBlank

/-- The guest's memory, the display registers, the capture and the renderer.  `hblanks` and `shots`
record what happened: the hblanks of the frame, and the vblanks whose frame was not skipped. -/
structure FrameState (D : Type*) where
  session : MemSession D
  vCount : ℕ
  dispCnt : DispCnt
  ppu : PpuRegs
  due : ScanlineEvent
  captureRegs : GbaRenderRegs
  render : RenderState
  hblanks : List HBlank
  shots : List FrameShot

/-- The guest runs: no handover is under way. -/
def CpuPhase.atGuest : CpuPhase → Bool
  | .guest => true
  | _ => false

/-- `on_scanline`. -/
def GbaRenderRegs.onScanline (regs : GbaRenderRegs) (ppu : PpuRegs) (dispCnt : DispCnt)
    (line : ℕ) : GbaRenderRegs where
  dispCnt := Function.update regs.dispCnt line dispCnt
  ppu := Function.update regs.ppu line ppu

namespace FrameState

variable {D : Type*}

/-- `gpu_on_scanline240_event`. -/
def onScanline240 (s : FrameState D) : FrameState D :=
  if s.vCount < visibleLines then
    { s with
      captureRegs := s.captureRegs.onScanline s.ppu s.dispCnt s.vCount
      ppu := s.ppu.stepInternalRefs
      hblanks := s.hblanks ++ [⟨s.vCount, s.dispCnt, s.ppu⟩]
      due := .scanline308 }
  else { s with due := .scanline308 }

/-- `on_frame_finish`, of the renderer. -/
def onFrameFinish (s : FrameState D) : FrameState D :=
  let video := s.session.mem.video
  let slot := s.render.slots s.render.writeSlot
  { s with
    render := s.render.onFrameFinish s.captureRegs video s.session.mem.gpuMemDirty
    session := { s.session with mem := { s.session.mem with gpuMemDirty := 0 } }
    shots := if slot.state = 0 then s.shots ++ [⟨video, s.hblanks⟩] else s.shots }

/-- `gpu_on_scanline308_event`, up to the hook. -/
def onScanline308 (s : FrameState D) : FrameState D :=
  let s := { s with vCount := (s.vCount + 1) % 65536, due := .scanline240 }
  if s.vCount = visibleLines then s.onFrameFinish
  else if s.vCount = totalLines then
    { s with vCount := 0, ppu := s.ppu.reloadInternalRefs, hblanks := [] }
  else s

/-- `queue_frame`: a step of the handover.  The registers that were captured and those of the slot
are swapped. -/
def queueFrame (s : FrameState D) : Option (FrameState D) :=
  s.render.queueFrame.map fun render =>
    { s with
      render
      captureRegs := match s.render.cpu with
        | .swapping _ _ => (s.render.slots s.render.writeSlot).inputs.regs
        | _ => s.captureRegs }

end FrameState

/-- The steps: an operation of the guest on its memory, a write to its display registers, the
scanline events, a restore at the hook, which leaves the display registers of the state it
restores, and the steps of the threads. -/
inductive FrameOp (D : Type*)
  | play (op : MemOp D)
  | setRegs (dispCnt : DispCnt) (ppu : PpuRegs)
  | scanline240
  | scanline308
  | hook (op : MemSession.Op D) (dispCnt : DispCnt) (ppu : PpuRegs)
  | queueFrame
  | rasterWorker (half : Fin 2)
  | renderLoop

/-- The operation is one of the hook. -/
def MemSession.Op.AtHook {D : Type*} : MemSession.Op D → Bool
  | .play _ => false
  | _ => true

/-- **One step.**  The guest does not run during a handover; the hook is on the first line of
vblank, where the states that are restored have been saved. -/
def FrameState.step {D : Type*} (dev : MemDevices D) (s : FrameState D) :
    FrameOp D → Option (FrameState D)
  | .play op =>
      if s.render.cpu.atGuest = true ∧ op.OfGuest = true then
        (s.session.step dev (.play op)).map fun session => { s with session }
      else none
  | .setRegs dispCnt ppu =>
      if s.render.cpu.atGuest = true then some { s with dispCnt, ppu } else none
  | .scanline240 =>
      if s.render.cpu.atGuest = true ∧ s.due = .scanline240 then some s.onScanline240 else none
  | .scanline308 =>
      if s.render.cpu.atGuest = true ∧ s.due = .scanline308 then some s.onScanline308 else none
  | .hook op dispCnt ppu =>
      if s.render.cpu.atGuest = true ∧ s.vCount = visibleLines ∧ s.due = .scanline240 ∧
          op.AtHook = true then
        (s.session.step dev op).map fun session => { s with session, dispCnt, ppu }
      else none
  | .queueFrame => s.queueFrame
  | .rasterWorker half => (s.render.rasterWorker half).map fun render => { s with render }
  | .renderLoop => s.render.renderLoop.map fun render => { s with render }

/-- The start of a game. -/
structure FrameStart {D : Type*} (s : FrameState D) : Prop where
  session : s.session.Start
  render : ∃ render : RenderState, s.render = render.resetForNewGame
  vCount : s.vCount = 0
  due : s.due = .scanline240
  hblanks : s.hblanks = []
  shots : s.shots = []

/-- The step is no bulk write to work memory that overruns it. -/
def FrameState.Spares {D : Type*} (s : FrameState D) : FrameOp D → Prop
  | .play op => ¬ op.withCartridge.Overruns s.session.mem
  | _ => True

/-- **The inputs of a frame hold a shot**: the video memory of its vblank, and on every line the
display registers of its hblank. -/
structure FrameInputs.Holds (frame : FrameInputs) (shot : FrameShot) : Prop where
  vram : ∀ i < BG_VRAM_SIZE + OBJ_VRAM_SIZE, frame.mem.vram i = shot.video.vram i
  pal : ∀ i < PALETTES_SIZE, frame.mem.pal i = shot.video.pal i
  oam : ∀ i < OAM_SIZE, frame.mem.oam i = shot.video.oam i
  lines : shot.hblanks.map HBlank.line = List.range visibleLines
  regs : ∀ hblank ∈ shot.hblanks, frame.regs.dispCnt hblank.line = hblank.dispCnt ∧
    frame.regs.ppu hblank.line = hblank.ppu

/-! ## The invariant -/

/-- The registers that were captured are those of the hblanks so far, one on each line. -/
structure CapturedLines (regs : GbaRenderRegs) (hblanks : List HBlank) (n : ℕ) : Prop where
  lines : hblanks.map HBlank.line = List.range n
  regs : ∀ hblank ∈ hblanks, regs.dispCnt hblank.line = hblank.dispCnt ∧
    regs.ppu hblank.line = hblank.ppu

/-- An hblank is captured, on the next line. -/
theorem CapturedLines.onScanline {regs : GbaRenderRegs} {hblanks : List HBlank} {n : ℕ}
    (h : CapturedLines regs hblanks n) (ppu : PpuRegs) (dispCnt : DispCnt) :
    CapturedLines (regs.onScanline ppu dispCnt n) (hblanks ++ [⟨n, dispCnt, ppu⟩]) (n + 1) where
  lines := by
    rw [List.map_append, h.lines, List.range_succ]
    rfl
  regs := by
    intro hblank hmem
    rcases List.mem_append.mp hmem with hold | hnew
    · have hline : hblank.line ≠ n := by
        have hrange := List.mem_map_of_mem (f := HBlank.line) hold
        rw [h.lines, List.mem_range] at hrange
        exact hrange.ne
      obtain ⟨hdispCnt, hppu⟩ := h.regs hblank hold
      simp only [GbaRenderRegs.onScanline]
      rw [Function.update_of_ne hline, Function.update_of_ne hline]
      exact ⟨hdispCnt, hppu⟩
    · obtain rfl := List.mem_singleton.mp hnew
      simp only [GbaRenderRegs.onScanline, Function.update_self, and_self]

/-- **A frame is complete** at its vblank. -/
theorem holds_of_upToDate {regs : GbaRenderRegs} {hblanks : List HBlank} {mem video : GpuMemBuf}
    (hlines : CapturedLines regs hblanks visibleLines)
    (hfresh : UpToDate videoCells ∅ video.byte mem.byte) :
    FrameInputs.Holds ⟨regs, mem⟩ ⟨video, hblanks⟩ where
  vram i hi := by
    by_cases hbg : i < BG_VRAM_SIZE
    · exact hfresh.eqOn .bg (x := (.vram, i)) (mem_partBytes.mpr ⟨rfl, Nat.zero_le i, by omega⟩)
    · exact hfresh.eqOn .obj (x := (.vram, i)) (mem_partBytes.mpr ⟨rfl, by omega, by omega⟩)
  pal i hi := hfresh.eqOn .pal (x := (.pal, i)) (mem_partBytes.mpr ⟨rfl, Nat.zero_le i, by omega⟩)
  oam i hi := hfresh.eqOn .oam (x := (.oam, i)) (mem_partBytes.mpr ⟨rfl, Nat.zero_le i, by omega⟩)
  lines := hlines.lines
  regs := hlines.regs

namespace FrameState

variable {D : Type*} {dev : MemDevices D} {s t : FrameState D}

/-- What is queued holds the shots; a handover that is under way has the last of them, and the
guest does not change what it copies. -/
def Handed (s : FrameState D) : CpuPhase → Prop
  | .guest => List.Forall₂ FrameInputs.Holds s.render.queued s.shots
  | .swapping captured shm =>
      shm = s.session.mem.video ∧ visibleLines ≤ s.vCount ∧
        UpToDate videoCells ∅ shm.byte captured.mem.byte ∧
        List.Forall₂ FrameInputs.Holds (s.render.queued ++ [captured]) s.shots
  | .copying captured shm _ =>
      shm = s.session.mem.video ∧ visibleLines ≤ s.vCount ∧
        UpToDate videoCells ∅ shm.byte captured.mem.byte ∧
        List.Forall₂ FrameInputs.Holds (s.render.queued ++ [captured]) s.shots

/-- The hblanks of the frame that have been. -/
def linesDone (s : FrameState D) : ℕ := s.vCount + if s.due = .scanline308 then 1 else 0

/-- **The invariant**: each slot is fresh but for the bits that wait for it, with those that have
not been collected yet, and the capture has the lines of the frame that have been. -/
structure FrameInv (s : FrameState D) : Prop where
  inStep : ∃ freed, s.render.InStep freed
  mapped : Mapped s.session.mem
  fresh : ∀ i, UpToDate videoCells
    (flagged (s.render.slotDirty i) ∪ flagged s.session.mem.gpuMemDirty) s.session.mem.video.byte
    (s.render.slots i).inputs.mem.byte
  handed : s.Handed s.render.cpu
  line : s.vCount < totalLines
  captured : s.vCount < visibleLines → CapturedLines s.captureRegs s.hblanks s.linesDone

/-- A new game: every bit of every slot is set. -/
theorem frameInv_start (h : FrameStart s) : s.FrameInv := by
  obtain ⟨render, hrender⟩ := h.render
  have hflagged : flagged 0xF = Set.univ := flagged_all
  refine ⟨?_, h.session.mapped, fun i => ?_, ?_, ?_, fun _ => ?_⟩
  · rw [hrender]
    exact ⟨0, RenderState.inStep_reset render⟩
  · rw [hrender]
    show UpToDate videoCells (flagged 0xF ∪ _) _ _
    rw [hflagged, Set.univ_union]
    exact upToDate_univ _ _
  · rw [hrender]
    show List.Forall₂ _ s.render.queued s.shots
    rw [hrender, h.shots]
    exact .nil
  · rw [h.vCount]
    exact Nat.zero_lt_succ _
  · rw [linesDone, h.vCount, h.due, h.hblanks]
    exact ⟨rfl, nofun⟩

theorem cpu_of_atGuest (h : s.render.cpu.atGuest = true) : s.render.cpu = .guest := by
  cases hcpu : s.render.cpu with
  | guest => rfl
  | _ => rw [hcpu] at h; exact Bool.noConfusion h

/-! ## The steps of the guest -/

/-- The guest's memory changes, and what changes is flagged. -/
theorem FrameInv.played (h : s.FrameInv) (hguest : s.render.cpu.atGuest = true)
    {session : MemSession D} (hvideo : MarksVideo s.session.mem session.mem) (dispCnt : DispCnt)
    (ppu : PpuRegs) : FrameInv { s with session, dispCnt, ppu } where
  inStep := h.inStep
  mapped := hvideo.mapped h.mapped
  fresh i := (h.fresh i).marks hvideo.marks
  handed := by
    have hhanded := h.handed
    rw [cpu_of_atGuest hguest] at hhanded
    show Handed _ s.render.cpu
    rw [cpu_of_atGuest hguest]
    exact hhanded
  line := h.line
  captured := h.captured

/-- **An hblank** is captured, with the registers before they are stepped. -/
theorem FrameInv.onScanline240 (h : s.FrameInv) (hguest : s.render.cpu.atGuest = true)
    (hdue : s.due = .scanline240) : s.onScanline240.FrameInv := by
  have hhanded := h.handed
  rw [cpu_of_atGuest hguest] at hhanded
  unfold FrameState.onScanline240
  split_ifs with hline
  · refine { h with handed := ?_, captured := fun _ => ?_ }
    · show Handed _ s.render.cpu
      rw [cpu_of_atGuest hguest]
      exact hhanded
    · have hcaptured := h.captured hline
      rw [linesDone, hdue] at hcaptured
      exact hcaptured.onScanline s.ppu s.dispCnt
  · refine { h with handed := ?_, captured := fun hlt => absurd hlt hline }
    show Handed _ s.render.cpu
    rw [cpu_of_atGuest hguest]
    exact hhanded

/-- **A vblank**: the bits are collected for every slot, and the frame is handed over if its slot
is free. -/
theorem FrameInv.onFrameFinish (h : s.FrameInv) (hguest : s.render.cpu.atGuest = true)
    (hlines : CapturedLines s.captureRegs s.hblanks visibleLines)
    (hvCount : s.vCount = visibleLines) : s.onFrameFinish.FrameInv := by
  obtain ⟨freed, hstep⟩ := h.inStep
  have hhanded := h.handed
  rw [cpu_of_atGuest hguest] at hhanded
  have hcollect : ∀ i, flagged (s.render.slotDirty i ||| s.session.mem.gpuMemDirty) =
      flagged (s.render.slotDirty i) ∪ flagged s.session.mem.gpuMemDirty := fun i => flagged_or _ _
  refine
    { inStep := ⟨freed, hstep.onFrameFinish _ _ _⟩
      mapped := h.mapped.handled (.of_same rfl rfl rfl rfl rfl rfl)
      fresh := fun i => ?_
      handed := ?_
      line := h.line
      captured := fun hlt => absurd hvCount hlt.ne }
  · have hfresh := h.fresh i
    rw [← hcollect] at hfresh
    exact hfresh.mono Set.subset_union_left
  · show Handed _ (if _ then CpuPhase.swapping _ _ else .guest)
    split_ifs with hstate
    · -- the snapshot copies what the slot has missed
      have hfresh : UpToDate videoCells ∅ s.session.mem.video.byte
          ((s.render.slots s.render.writeSlot).inputs.mem.snapshot s.session.mem.video
            (s.render.slotDirty s.render.writeSlot ||| s.session.mem.gpuMemDirty)).byte := by
        apply upToDate_snapshot
        rw [hcollect]
        exact h.fresh s.render.writeSlot
      refine ⟨rfl, hvCount.ge, hfresh, ?_⟩
      show List.Forall₂ _ _ (if _ then _ else _)
      rw [if_pos hstate]
      exact List.rel_append hhanded (.cons (holds_of_upToDate hlines hfresh) .nil)
    · show List.Forall₂ _ _ (if _ then _ else _)
      rw [if_neg hstate]
      exact hhanded

/-- **The end of a line**. -/
theorem FrameInv.onScanline308 (h : s.FrameInv) (hguest : s.render.cpu.atGuest = true)
    (hdue : s.due = .scanline308) : s.onScanline308.FrameInv := by
  have hline := h.line
  unfold totalLines at hline
  have hnext : (s.vCount + 1) % 65536 = s.vCount + 1 := Nat.mod_eq_of_lt (by omega)
  have hcaptured := h.captured
  rw [linesDone, hdue] at hcaptured
  have hhanded := h.handed
  rw [cpu_of_atGuest hguest] at hhanded
  unfold FrameState.onScanline308
  simp only [hnext]
  split_ifs with hvblank hlast
  · -- the last visible line: the invariant but for the next line holds
    have hinv : FrameInv { s with vCount := s.vCount + 1, due := .scanline240 } := by
      refine { h with
        handed := ?_
        line := by show s.vCount + 1 < 228; unfold visibleLines at hvblank; omega
        captured := fun hlt => absurd hvblank (Nat.ne_of_lt hlt) }
      show Handed _ s.render.cpu
      rw [cpu_of_atGuest hguest]
      exact hhanded
    refine hinv.onFrameFinish hguest ?_ hvblank
    have hlines := hcaptured (by omega)
    rwa [if_pos rfl, hvblank] at hlines
  · refine { h with
      handed := ?_
      line := Nat.zero_lt_succ _
      captured := fun _ => ⟨rfl, nofun⟩ }
    show Handed _ s.render.cpu
    rw [cpu_of_atGuest hguest]
    exact hhanded
  · refine { h with
      handed := ?_
      line := by show s.vCount + 1 < 228; unfold totalLines at hlast; omega
      captured := fun hlt => ?_ }
    · show Handed _ s.render.cpu
      rw [cpu_of_atGuest hguest]
      exact hhanded
    · exact hcaptured (by show s.vCount < 160; unfold visibleLines at hlt; simp only at hlt; omega)

/-! ## The steps of the threads -/

/-- A slot is written by the handover: the others are as fresh as they were. -/
theorem FrameInv.fresh_setSlot (h : s.FrameInv) {slot : FrameSlot}
    (hslot : UpToDate videoCells (flagged (s.render.slotDirty s.render.writeSlot) ∪
      flagged s.session.mem.gpuMemDirty) s.session.mem.video.byte slot.inputs.mem.byte) (i : ℕ) :
    UpToDate videoCells (flagged (s.render.slotDirty i) ∪ flagged s.session.mem.gpuMemDirty)
      s.session.mem.video.byte
      ((s.render.setSlot s.render.writeSlot slot).slots i).inputs.mem.byte := by
  rw [RenderState.setSlot_slots]
  by_cases hi : i = s.render.writeSlot
  · subst hi
    rw [Function.update_self]
    exact hslot
  · rw [Function.update_of_ne hi]
    exact h.fresh i

/-- **A step of the handover**. -/
theorem FrameInv.queueFrame (h : s.FrameInv) (hstep : s.queueFrame = some t) : t.FrameInv := by
  obtain ⟨render, hrender, rfl⟩ := Option.map_eq_some_iff.mp hstep
  obtain ⟨freed, hin⟩ := h.inStep
  have hin' := hin.queueFrame hrender
  have hhanded := h.handed
  have hcopied := hin.handover
  rw [RenderState.queueFrame] at hrender
  cases hcpu : s.render.cpu with
  | guest =>
      rw [hcpu] at hrender
      exact absurd hrender.symm (Option.some_ne_none render)
  | swapping captured shm =>
      rw [hcpu] at hrender hhanded
      obtain rfl := Option.some.inj hrender
      exact { h with
        inStep := ⟨freed, hin'⟩
        fresh := h.fresh_setSlot (h.fresh s.render.writeSlot)
        handed := hhanded
        captured := fun hlt => absurd hhanded.2.1 (not_le.mpr hlt) }
  | copying captured shm left =>
      rw [hcpu] at hrender hhanded hcopied
      obtain ⟨rfl, hvblank, hfresh, hshots⟩ := hhanded
      cases left with
      | cons byte left =>
          obtain rfl := Option.some.inj hrender
          -- the byte that is copied is the guest's
          have hbyte : ∀ c, (s.session.mem.video.copyByte
              (s.render.slots s.render.writeSlot).inputs.mem byte).byte c =
                (s.render.slots s.render.writeSlot).inputs.mem.byte c ∨
              (s.session.mem.video.copyByte
                (s.render.slots s.render.writeSlot).inputs.mem byte).byte c =
                  s.session.mem.video.byte c := by
            intro c
            rw [byte_copyByte]
            split_ifs
            · exact .inr rfl
            · exact .inl rfl
          exact { h with
            inStep := ⟨freed, hin'⟩
            fresh := h.fresh_setSlot ((h.fresh s.render.writeSlot).copied hbyte)
            handed := ⟨rfl, hvblank, hfresh, hshots⟩
            captured := fun hlt => absurd hvblank (not_le.mpr hlt) }
      | nil =>
          obtain rfl := Option.some.inj hrender
          -- the slot is up to date, and no bit waits for it
          have hmem : (s.render.slots s.render.writeSlot).inputs.mem = captured.mem := hcopied.2
          refine { h with
            inStep := ⟨freed, hin'⟩
            fresh := fun i => ?_
            handed := hshots
            captured := fun hlt => absurd hvblank (not_le.mpr hlt) }
          have hinputs : ((s.render.setSlot s.render.writeSlot
              ⟨S_QUEUED, (s.render.slots s.render.writeSlot).inputs⟩).slots i).inputs =
                (s.render.slots i).inputs := by
            apply RenderState.inputs_setSlot
            rfl
          show UpToDate videoCells (flagged (Function.update s.render.slotDirty _ 0 i) ∪
            flagged s.session.mem.gpuMemDirty) s.session.mem.video.byte
              ((s.render.setSlot s.render.writeSlot
                ⟨S_QUEUED, (s.render.slots s.render.writeSlot).inputs⟩).slots i).inputs.mem.byte
          rw [hinputs]
          by_cases hi : i = s.render.writeSlot
          · subst hi
            rw [hmem]
            exact hfresh.mono (Set.empty_subset _)
          · rw [Function.update_of_ne hi]
            exact h.fresh i

/-- The threads behind the cpu thread leave the inputs, the bits and the queue alone. -/
theorem FrameInv.consumed (h : s.FrameInv) {render : RenderState}
    (hin : ∃ freed, render.InStep freed)
    (hinputs : ∀ i, (render.slots i).inputs = (s.render.slots i).inputs)
    (hdirty : render.slotDirty = s.render.slotDirty) (hcpu : render.cpu = s.render.cpu)
    (hqueued : render.queued = s.render.queued) : FrameInv { s with render } where
  inStep := hin
  mapped := h.mapped
  fresh i := by
    show UpToDate videoCells (flagged (render.slotDirty i) ∪ _) _ (render.slots i).inputs.mem.byte
    rw [hinputs, hdirty]
    exact h.fresh i
  handed := by
    have hhanded := h.handed
    show Handed _ render.cpu
    rw [hcpu]
    cases hphase : s.render.cpu with
    | guest =>
        rw [hphase] at hhanded
        show List.Forall₂ _ render.queued s.shots
        rwa [hqueued]
    | swapping captured shm =>
        rw [hphase] at hhanded
        obtain ⟨hshm, hvblank, hfresh, hshots⟩ := hhanded
        exact ⟨hshm, hvblank, hfresh, by rwa [← hqueued] at hshots⟩
    | copying captured shm left =>
        rw [hphase] at hhanded
        obtain ⟨hshm, hvblank, hfresh, hshots⟩ := hhanded
        exact ⟨hshm, hvblank, hfresh, by rwa [← hqueued] at hshots⟩
  line := h.line
  captured := h.captured

theorem FrameInv.rasterWorker (h : s.FrameInv) {half : Fin 2} {render : RenderState}
    (hstep : s.render.rasterWorker half = some render) : FrameInv { s with render } := by
  obtain ⟨freed, hin⟩ := h.inStep
  have hin' := hin.rasterWorker hstep
  rcases RenderState.rasterWorker_cases hstep with ⟨phase, scratch, pixels, -, -, rfl⟩ |
    ⟨rows, worker, -, -, -, rfl⟩
  · exact h.consumed ⟨freed, hin'⟩ (fun _ => rfl) rfl rfl rfl
  · exact h.consumed ⟨freed, hin'⟩ (RenderState.inputs_setSlot rfl) rfl rfl rfl

theorem FrameInv.renderLoop (h : s.FrameInv) {render : RenderState}
    (hstep : s.render.renderLoop = some render) : FrameInv { s with render } := by
  obtain ⟨freed, hin⟩ := h.inStep
  obtain ⟨-, -, -, hqueued, hinputs, -⟩ := RenderState.renderLoop_cases hstep
  have hsame : render.slotDirty = s.render.slotDirty ∧ render.cpu = s.render.cpu := by
    simp only [RenderState.renderLoop] at hstep
    cases hphase : s.render.present with
    | waiting =>
        simp only [hphase] at hstep
        obtain ⟨-, hnext⟩ := Option.ite_none_right_eq_some.mp hstep
        obtain rfl := Option.some.inj hnext
        exact ⟨rfl, rfl⟩
    | taken =>
        simp only [hphase] at hstep
        obtain rfl := Option.some.inj hstep
        exact ⟨rfl, rfl⟩
    | presenting rows =>
        simp only [hphase] at hstep
        split_ifs at hstep <;> obtain rfl := Option.some.inj hstep <;> exact ⟨rfl, rfl⟩
  exact h.consumed (hin.renderLoop hstep) hinputs hsame.1 hsame.2 hqueued

/-- **Every step** that spares the video memory keeps the invariant. -/
theorem FrameInv.step (h : s.FrameInv) {a : FrameOp D} (ha : s.Spares a)
    (hstep : s.step dev a = some t) : t.FrameInv := by
  cases a with
  | play op =>
      obtain ⟨⟨hguest, hop⟩, hnext⟩ := Option.ite_none_right_eq_some.mp hstep
      obtain ⟨session, hsession, rfl⟩ := Option.map_eq_some_iff.mp hnext
      refine h.played hguest (.session h.mapped (fun play heq => ?_) hsession) s.dispCnt s.ppu
      obtain rfl := MemSession.Op.play.inj heq
      exact ⟨hop, ha⟩
  | setRegs dispCnt ppu =>
      obtain ⟨hguest, hnext⟩ := Option.ite_none_right_eq_some.mp hstep
      obtain rfl := Option.some.inj hnext
      exact h.played hguest (.refl _) dispCnt ppu
  | scanline240 =>
      obtain ⟨⟨hguest, hdue⟩, hnext⟩ := Option.ite_none_right_eq_some.mp hstep
      obtain rfl := Option.some.inj hnext
      exact h.onScanline240 hguest hdue
  | scanline308 =>
      obtain ⟨⟨hguest, hdue⟩, hnext⟩ := Option.ite_none_right_eq_some.mp hstep
      obtain rfl := Option.some.inj hnext
      exact h.onScanline308 hguest hdue
  | hook op dispCnt ppu =>
      obtain ⟨⟨hguest, -, -, hop⟩, hnext⟩ := Option.ite_none_right_eq_some.mp hstep
      obtain ⟨session, hsession, rfl⟩ := Option.map_eq_some_iff.mp hnext
      refine h.played hguest (.session h.mapped (fun play heq => ?_) hsession) dispCnt ppu
      rw [heq] at hop
      exact Bool.noConfusion hop
  | queueFrame => exact h.queueFrame hstep
  | rasterWorker half =>
      obtain ⟨render, hrender, rfl⟩ := Option.map_eq_some_iff.mp hstep
      exact h.rasterWorker hrender
  | renderLoop =>
      obtain ⟨render, hrender, rfl⟩ := Option.map_eq_some_iff.mp hstep
      exact h.renderLoop hrender

/-- Related lists have related elements. -/
theorem exists_getElem?_of_forall₂ {α β : Type*} {R : α → β → Prop} {l : List α} {l' : List β}
    (h : List.Forall₂ R l l') {k : ℕ} {a : α} (ha : l[k]? = some a) :
    ∃ b, l'[k]? = some b ∧ R a b := by
  obtain ⟨hk, rfl⟩ := List.getElem?_eq_some_iff.mp ha
  obtain ⟨hlength, hget⟩ := List.forall₂_iff_get.mp h
  exact ⟨_, List.getElem?_eq_getElem (hlength ▸ hk), hget k hk (hlength ▸ hk)⟩

/-- What is queued holds its shot. -/
theorem FrameInv.queued_holds (h : s.FrameInv) {k : ℕ} {frame : FrameInputs}
    (hframe : s.render.queued[k]? = some frame) :
    ∃ shot, s.shots[k]? = some shot ∧ frame.Holds shot := by
  have hhanded := h.handed
  have hlonger : ∀ captured, (s.render.queued ++ [captured])[k]? = some frame := fun captured => by
    rw [List.getElem?_append_left (RenderState.queued_lt hframe), hframe]
  cases hcpu : s.render.cpu with
  | guest =>
      rw [hcpu] at hhanded
      exact exists_getElem?_of_forall₂ hhanded hframe
  | swapping captured shm =>
      rw [hcpu] at hhanded
      exact exists_getElem?_of_forall₂ hhanded.2.2.2 (hlonger captured)
  | copying captured shm left =>
      rw [hcpu] at hhanded
      exact exists_getElem?_of_forall₂ hhanded.2.2.2 (hlonger captured)

/-- What a core draws from holds its shot. -/
theorem FrameInv.drawn_holds (h : s.FrameInv) {half : Fin 2}
    (hphase : (s.render.workers half).phase ≠ .waiting) :
    ∃ shot, s.shots[s.render.done half]? = some shot ∧
      (s.render.slots (s.render.workers half).slot).inputs.Holds shot := by
  obtain ⟨freed, hin⟩ := h.inStep
  obtain ⟨frame, hframe⟩ := RenderState.exists_queued (hin.reading half hphase)
  rw [hin.workerSlot hframe]
  exact h.queued_holds hframe

end FrameState

namespace FrameState

variable {D : Type*} (dev : MemDevices D) {s : FrameState D}

/-- A visible line before the last one. -/
theorem exists_line (hguest : s.render.cpu.atGuest = true) (hdue : s.due = .scanline240)
    (hline : s.vCount + 1 < visibleLines) : ∃ t, Reaches (FrameState.step dev) Spares s t ∧
      t.render = s.render ∧ t.due = .scanline240 ∧ t.vCount = s.vCount + 1 := by
  unfold visibleLines at hline
  have hcapture : s.onScanline240.render = s.render ∧ s.onScanline240.due = .scanline308 ∧
      s.onScanline240.vCount = s.vCount := by
    unfold FrameState.onScanline240
    split_ifs <;> exact ⟨rfl, rfl, rfl⟩
  obtain ⟨hrender, hdue', hvCount⟩ := hcapture
  have hend : s.onScanline240.onScanline308.render = s.render ∧
      s.onScanline240.onScanline308.due = .scanline240 ∧
      s.onScanline240.onScanline308.vCount = s.vCount + 1 := by
    have hnext : (s.vCount + 1) % 65536 = s.vCount + 1 := Nat.mod_eq_of_lt (by omega)
    unfold FrameState.onScanline308
    simp only [hvCount, hnext]
    rw [if_neg (by unfold visibleLines; omega), if_neg (by unfold totalLines; omega)]
    exact ⟨hrender, rfl, rfl⟩
  refine ⟨s.onScanline240.onScanline308, ?_, hend⟩
  have hfirst : s.step dev .scanline240 = some s.onScanline240 := if_pos ⟨hguest, hdue⟩
  refine (Reaches.single trivial hfirst).tail (a := .scanline308) trivial (if_pos ⟨?_, hdue'⟩)
  rw [hrender]
  exact hguest

/-- The visible lines up to one. -/
theorem exists_lines (hguest : s.render.cpu.atGuest = true) (hdue : s.due = .scanline240) {n : ℕ}
    (hn : s.vCount + n < visibleLines) : ∃ t, Reaches (FrameState.step dev) Spares s t ∧
      t.render = s.render ∧ t.due = .scanline240 ∧ t.vCount = s.vCount + n := by
  induction n with
  | zero => exact ⟨s, .refl s, rfl, hdue, rfl⟩
  | succ n ih =>
      obtain ⟨t, hrun, hrender, hdue', hvCount⟩ := ih (by omega)
      obtain ⟨u, hlast, hrender', hdue'', hvCount'⟩ :=
        exists_line dev (by rwa [hrender]) hdue' (by omega)
      exact ⟨u, hrun.trans hlast, hrender'.trans hrender, hdue'', by omega⟩

/-- The last visible line, with a slot free: a handover is under way. -/
theorem exists_vblank (hguest : s.render.cpu.atGuest = true) (hdue : s.due = .scanline240)
    (hline : s.vCount + 1 = visibleLines)
    (hfree : (s.render.slots s.render.writeSlot).state = 0) :
    ∃ t captured shm, Reaches (FrameState.step dev) Spares s t ∧
      t.render.cpu = .swapping captured shm ∧ t.render.queued = s.render.queued := by
  unfold visibleLines at hline
  have hcapture : s.onScanline240.render = s.render ∧ s.onScanline240.due = .scanline308 ∧
      s.onScanline240.vCount = s.vCount := by
    unfold FrameState.onScanline240
    split_ifs <;> exact ⟨rfl, rfl, rfl⟩
  obtain ⟨hrender, hdue', hvCount⟩ := hcapture
  have hnext : (s.vCount + 1) % 65536 = visibleLines := by
    rw [hline]
    rfl
  have hend : ∃ captured shm, s.onScanline240.onScanline308.render.cpu = .swapping captured shm ∧
      s.onScanline240.onScanline308.render.queued = s.render.queued := by
    unfold FrameState.onScanline308
    simp only [hvCount, hnext, if_true]
    refine ⟨_, _, if_pos ?_, ?_⟩
    · show (s.onScanline240.render.slots s.onScanline240.render.writeSlot).state = 0
      rw [hrender]
      exact hfree
    · show s.onScanline240.render.queued = s.render.queued
      rw [hrender]
  obtain ⟨captured, shm, hend⟩ := hend
  refine ⟨s.onScanline240.onScanline308, captured, shm, ?_, hend⟩
  have hfirst : s.step dev .scanline240 = some s.onScanline240 := if_pos ⟨hguest, hdue⟩
  refine (Reaches.single trivial hfirst).tail (a := .scanline308) trivial (if_pos ⟨?_, hdue'⟩)
  rw [hrender]
  exact hguest

/-- The rest of a handover: the frame is queued. -/
theorem exists_copied {captured : FrameInputs} {shm : GpuMemBuf} {left : List (MemPart × ℕ)}
    (hcpu : s.render.cpu = .copying captured shm left) :
    ∃ t, Reaches (FrameState.step dev) Spares s t ∧
      t.render.queued = s.render.queued ++ [captured] := by
  induction left generalizing s with
  | nil =>
      have hstep : ∃ t, s.queueFrame = some t ∧
          t.render.queued = s.render.queued ++ [captured] := by
        unfold FrameState.queueFrame RenderState.queueFrame
        rw [hcpu]
        exact ⟨_, rfl, rfl⟩
      obtain ⟨t, ht, hqueued⟩ := hstep
      exact ⟨t, Reaches.single (a := .queueFrame) trivial ht, hqueued⟩
  | cons byte left ih =>
      have hstep : ∃ t, s.queueFrame = some t ∧ t.render.cpu = .copying captured shm left ∧
          t.render.queued = s.render.queued := by
        unfold FrameState.queueFrame RenderState.queueFrame
        rw [hcpu]
        exact ⟨_, rfl, rfl, rfl⟩
      obtain ⟨t, ht, hcpu', hqueued⟩ := hstep
      obtain ⟨u, hrun, hlast⟩ := ih hcpu'
      exact ⟨u, (Reaches.single (a := .queueFrame) trivial ht).trans hrun, by rw [hlast, hqueued]⟩

/-- A handover that is under way ends. -/
theorem exists_handed {captured : FrameInputs} {shm : GpuMemBuf}
    (hcpu : s.render.cpu = .swapping captured shm) :
    ∃ t, Reaches (FrameState.step dev) Spares s t ∧
      t.render.queued = s.render.queued ++ [captured] := by
  have hstep : ∃ t left, s.queueFrame = some t ∧ t.render.cpu = .copying captured shm left ∧
      t.render.queued = s.render.queued := by
    unfold FrameState.queueFrame RenderState.queueFrame
    rw [hcpu]
    exact ⟨_, _, rfl, rfl, rfl⟩
  obtain ⟨t, left, ht, hcpu', hqueued⟩ := hstep
  obtain ⟨u, hrun, hlast⟩ := exists_copied dev hcpu'
  exact ⟨u, (Reaches.single (a := .queueFrame) trivial ht).trans hrun, by rw [hlast, hqueued]⟩

/-- **Every game queues its first frame**, when no other thread goes on. -/
theorem exists_firstQueued (h : FrameStart s) :
    ∃ t frame, Reaches (FrameState.step dev) Spares s t ∧ t.render.queued = [frame] := by
  obtain ⟨render, hrender⟩ := h.render
  have hguest : s.render.cpu.atGuest = true := by
    rw [hrender]
    rfl
  obtain ⟨t, hlines, hrender', hdue, hvCount⟩ :=
    exists_lines dev hguest h.due (n := 159) (by rw [h.vCount]; decide)
  obtain ⟨u, captured, shm, hvblank, hcpu, hqueued⟩ := exists_vblank dev (s := t)
    (by rwa [hrender']) hdue (by rw [hvCount, h.vCount]; rfl) (by rw [hrender', hrender]; rfl)
  obtain ⟨v, hhanded, hqueued'⟩ := exists_handed dev hcpu
  refine ⟨v, captured, (hlines.trans hvblank).trans hhanded, ?_⟩
  rw [hqueued', hqueued, hrender', hrender]
  rfl

end FrameState

/-- A game on erased memory, with a renderer that has been used. -/
def firstGame : FrameState Unit where
  session := ⟨memStart plainCartridge false (fun _ => 0) 0xE129F000 0
    (Cartridge.load plainCartridge.saveType [], ()), [], 0, 0⟩
  vCount := 0
  dispCnt := patternContext.dispCnt
  ppu := .new
  due := .scanline240
  captureRegs := ⟨fun _ => patternContext.dispCnt, fun _ => .new⟩
  render := usedRenderer.resetForNewGame
  hblanks := []
  shots := []

theorem firstGame_start : FrameStart firstGame :=
  ⟨⟨by decide, ⟨[], _, _, _, rfl⟩, rfl, rfl⟩, ⟨usedRenderer, rfl⟩, rfl, rfl, rfl, rfl⟩

end AdvancedSlop
