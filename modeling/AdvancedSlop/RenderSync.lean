/-
# The render handshake

The renderer of `gpu.rs`: the cpu thread hands a frame over at each vblank (`on_frame_finish`), two
cores draw a half of it each (`raster_worker_loop`), and the present thread shows it
(`render_loop`).  They share two slots with the inputs of a frame, each with an atomic state, and
five pixel buffers; each thread walks the slots and the buffers with a cursor of its own.

* `GpuMemBuf.snapshot` : what the cpu thread copies into a slot;
* `RenderState`, `RenderState.step` : the threads, and the atomic steps they take in any order;
* `FrameInputs.row`, `halfPass`, `wholePass` : what is drawn of a frame, by a core and in all;
* `slotState` : the states of a slot that is in flight.
-/
import AdvancedSlop.PpuScanline

namespace AdvancedSlop

attribute [local instance] neZero_pair

/-! ## The snapshot -/

/-- The parts of `GpuMemBuf`. -/
inductive MemPart where
  | vram
  | pal
  | oam
  deriving DecidableEq

def BG_VRAM_SIZE : ℕ := 0x10000
def OBJ_VRAM_SIZE : ℕ := 0x8000
def PALETTES_SIZE : ℕ := 0x400
def OAM_SIZE : ℕ := 0x400

def DIRTY_BG : BitVec 8 := 1
def DIRTY_OBJ : BitVec 8 := 2
def DIRTY_PAL : BitVec 8 := 4
def DIRTY_OAM : BitVec 8 := 8

/-- `copy_from_slice`: the bytes of a part, from `start` on. -/
def partBytes (part : MemPart) (start size : ℕ) : List (MemPart × ℕ) :=
  (List.range size).map fun i => (part, start + i)

/-- `snapshot`: the bytes it copies, in order. -/
def snapshotBytes (dirty : BitVec 8) : List (MemPart × ℕ) :=
  (if dirty &&& (DIRTY_BG ||| DIRTY_OBJ) ≠ 0 then
    (if dirty &&& DIRTY_BG ≠ 0 then partBytes .vram 0 BG_VRAM_SIZE else []) ++
      (if dirty &&& DIRTY_OBJ ≠ 0 then partBytes .vram BG_VRAM_SIZE OBJ_VRAM_SIZE else [])
  else []) ++
    (if dirty &&& DIRTY_PAL ≠ 0 then partBytes .pal 0 PALETTES_SIZE else []) ++
    (if dirty &&& DIRTY_OAM ≠ 0 then partBytes .oam 0 OAM_SIZE else [])

/-- A byte of guest memory is copied. -/
def GpuMemBuf.copyByte (shm buf : GpuMemBuf) : MemPart × ℕ → GpuMemBuf
  | (.vram, i) => { buf with vram := Function.update buf.vram i (shm.vram i) }
  | (.pal, i) => { buf with pal := Function.update buf.pal i (shm.pal i) }
  | (.oam, i) => { buf with oam := Function.update buf.oam i (shm.oam i) }

/-- **`GpuMemBuf::snapshot`**. -/
def GpuMemBuf.snapshot (buf shm : GpuMemBuf) (dirty : BitVec 8) : GpuMemBuf :=
  (snapshotBytes dirty).foldl shm.copyByte buf

/-! ## The shared state -/

/-- `GbaRenderRegs`: the display registers at the hblank of each line. -/
structure GbaRenderRegs where
  dispCnt : ℕ → DispCnt
  ppu : ℕ → PpuRegs

/-- The inputs of a frame. -/
structure FrameInputs where
  regs : GbaRenderRegs
  mem : GpuMemBuf

def SWAPCHAIN : ℕ := 2
def FRAME_BUFS : ℕ := 5

def S_QUEUED : BitVec 8 := 1 <<< 0
/-- `S_HALF`. -/
def S_HALF (half : Fin 2) : BitVec 8 := if half = 0 then 1 <<< 1 else 1 <<< 2
def S_RASTERED : BitVec 8 := S_QUEUED ||| S_HALF 0 ||| S_HALF 1

/-- A row of a pixel buffer. -/
abbrev PixelRow : Type := PixelLine (BitVec 32)

/-- A slot: its entry of `RenderSync::slots`, and its `regs` and `mem` of the `SoftRenderer`. -/
structure FrameSlot where
  state : BitVec 8
  inputs : FrameInputs

/-- Where the cpu thread is in `on_frame_finish`; a handover is under way with the inputs that were
captured, and the guest memory that is copied. -/
inductive CpuPhase where
  | guest
  | swapping (captured : FrameInputs) (shm : GpuMemBuf)
  | copying (captured : FrameInputs) (shm : GpuMemBuf) (left : List (MemPart × ℕ))

/-- Where a core is in `raster_worker_loop`: it waits, it has seen its slot queued, or it is in
`rasterize_half`, with the rows it has drawn. -/
inductive WorkerPhase where
  | waiting
  | taken
  | drawing (rows : List PixelRow)

/-- A core: its cursors, and its scratch. -/
structure RasterWorker where
  phase : WorkerPhase
  slot : ℕ
  pix : ℕ
  scratch : RasterScratch

/-- Where the present thread is in `render_loop`: it waits, it has seen its slot rastered, or it has
freed the slot, with the rows it has uploaded. -/
inductive PresentPhase where
  | waiting
  | taken
  | presenting (rows : List PixelRow)

/-- A pass over a frame: the pixel buffer, and the rows that were drawn into it or shown. -/
structure FramePass where
  pix : ℕ
  rows : List PixelRow

/-- **The renderer**: the slots, the pixel buffers, the threads, and what has been queued, drawn and
shown since the game was started. -/
structure RenderState where
  slots : ℕ → FrameSlot
  pixels : ℕ → ℕ → PixelRow
  cpu : CpuPhase
  writeSlot : ℕ
  slotDirty : ℕ → BitVec 8
  workers : Fin 2 → RasterWorker
  present : PresentPhase
  readSlot : ℕ
  presentPixels : ℕ
  queued : List FrameInputs
  rastered : Fin 2 → List FramePass
  presented : List FramePass

namespace RenderState

/-- `reset_for_new_game`, and the start of the threads of the game. -/
def resetForNewGame (s : RenderState) : RenderState where
  slots i := { s.slots i with state := 0 }
  pixels := s.pixels
  cpu := .guest
  writeSlot := 0
  slotDirty _ := 0xF
  workers _ := ⟨.waiting, 0, 0, .new⟩
  present := .waiting
  readSlot := 0
  presentPixels := 0
  queued := []
  rastered _ := []
  presented := []

/-! ## The steps -/

/-- `on_frame_finish`, up to its load of the state, with what the guest has left: the registers that
were captured, its memory and its dirty bits. -/
def onFrameFinish (captured : GbaRenderRegs) (shm : GpuMemBuf) (gpuMemDirty : BitVec 8)
    (s : RenderState) : RenderState :=
  let slotDirty := fun i => s.slotDirty i ||| gpuMemDirty
  let slot := s.slots s.writeSlot
  { s with
    slotDirty
    cpu :=
      if slot.state = 0 then
        .swapping ⟨captured, slot.inputs.mem.snapshot shm (slotDirty s.writeSlot)⟩ shm
      else .guest }

/-- A slot of its own. -/
def setSlot (s : RenderState) (i : ℕ) (slot : FrameSlot) : RenderState :=
  { s with slots := Function.update s.slots i slot }

@[simp] theorem setSlot_slots (s : RenderState) (i : ℕ) (slot : FrameSlot) :
    (s.setSlot i slot).slots = Function.update s.slots i slot := rfl

/-- `queue_frame`: a step of the handover. Its own cursor moves with the store. -/
def queueFrame (s : RenderState) : Option RenderState :=
  let slot := s.slots s.writeSlot
  match s.cpu with
  | .guest => none
  | .swapping captured shm =>
      some { s.setSlot s.writeSlot { slot with inputs.regs := captured.regs } with
        cpu := .copying captured shm (snapshotBytes (s.slotDirty s.writeSlot)) }
  | .copying captured shm (byte :: left) =>
      let mem := shm.copyByte slot.inputs.mem byte
      some { s.setSlot s.writeSlot { slot with inputs.mem := mem } with
        cpu := .copying captured shm left }
  | .copying captured _ [] =>
      some { s.setSlot s.writeSlot { slot with state := S_QUEUED } with
        slotDirty := Function.update s.slotDirty s.writeSlot 0
        writeSlot := (s.writeSlot + 1) % SWAPCHAIN
        cpu := .guest
        queued := s.queued ++ [captured] }

/-- A core of its own. -/
def setWorker (s : RenderState) (half : Fin 2) (worker : RasterWorker) : RenderState :=
  { s with workers := Function.update s.workers half worker }

/-- `raster_worker_loop`: a step of a core. -/
def rasterWorker (half : Fin 2) (s : RenderState) : Option RenderState :=
  let worker := s.workers half
  let slot := s.slots worker.slot
  let start := half.val * HALF_LINES
  match worker.phase with
  | .waiting =>
      if slot.state &&& (S_QUEUED ||| S_HALF half) = S_QUEUED then
        some (s.setWorker half { worker with phase := .taken })
      else none
  | .taken =>
      (worker.scratch.beginFrame slot.inputs.mem start (start + HALF_LINES)).map fun scratch =>
        s.setWorker half { worker with phase := .drawing [], scratch }
  | .drawing rows =>
      if rows.length < HALF_LINES then
        let line := start + rows.length
        (drawScanline slot.inputs.mem (slot.inputs.regs.ppu line) (slot.inputs.regs.dispCnt line)
            line worker.scratch (s.pixels worker.pix line)).map fun drawn =>
          let phase := .drawing (rows ++ [drawn.2])
          { s.setWorker half { worker with phase, scratch := drawn.1 } with
            pixels := Function.update s.pixels worker.pix
              (Function.update (s.pixels worker.pix) line drawn.2) }
      else
        -- the bit of the half is stored: the cursors of the core move with it
        let reported := s.setSlot worker.slot { slot with state := slot.state ||| S_HALF half }
        some { reported.setWorker half { worker with
              phase := .waiting
              slot := (worker.slot + 1) % SWAPCHAIN
              pix := (worker.pix + 1) % FRAME_BUFS } with
          rastered := Function.update s.rastered half (s.rastered half ++ [⟨worker.pix, rows⟩]) }

/-- `render_loop`: a step of the present thread. -/
def renderLoop (s : RenderState) : Option RenderState :=
  let slot := s.slots s.readSlot
  match s.present with
  | .waiting => if slot.state = S_RASTERED then some { s with present := .taken } else none
  | .taken =>
      some { s.setSlot s.readSlot { slot with state := 0 } with
        readSlot := (s.readSlot + 1) % SWAPCHAIN
        present := .presenting [] }
  | .presenting rows =>
      if rows.length < 2 * HALF_LINES then
        some { s with present := .presenting (rows ++ [s.pixels s.presentPixels rows.length]) }
      else
        some { s with
          present := .waiting
          presentPixels := (s.presentPixels + 1) % FRAME_BUFS
          presented := s.presented ++ [⟨s.presentPixels, rows⟩] }

end RenderState

/-- The steps of the threads: the guest comes to a vblank, a handover goes on, a core goes on, or
the present thread does. -/
inductive RenderAction where
  | vblank (captured : GbaRenderRegs) (shm : GpuMemBuf) (gpuMemDirty : BitVec 8)
  | queueFrame
  | rasterWorker (half : Fin 2)
  | renderLoop

/-- The steps of the threads behind the cpu thread. -/
def RenderAction.Consumes : RenderAction → Prop
  | .rasterWorker _ => True
  | .renderLoop => True
  | _ => False

/-- **A step** of one of the threads. -/
def RenderState.step (s : RenderState) : RenderAction → Option RenderState
  | .vblank captured shm gpuMemDirty =>
      match s.cpu with
      | .guest => some (s.onFrameFinish captured shm gpuMemDirty)
      | _ => none
  | .queueFrame => s.queueFrame
  | .rasterWorker half => s.rasterWorker half
  | .renderLoop => s.renderLoop

/-! ## What is drawn of a frame -/

/-- A line of a frame: what a new scratch draws for it. -/
def FrameInputs.row (frame : FrameInputs) (line : ℕ) : PixelRow :=
  (freshRow frame.mem (frame.regs.ppu line) (frame.regs.dispCnt line) line).getD fun _ => 0

/-- Lines of a frame. -/
def FrameInputs.rows (frame : FrameInputs) (start n : ℕ) : List PixelRow :=
  (List.range n).map fun i => frame.row (start + i)

@[simp] theorem FrameInputs.length_rows (frame : FrameInputs) (start n : ℕ) :
    (frame.rows start n).length = n := by
  rw [FrameInputs.rows, List.length_map, List.length_range]

theorem FrameInputs.rows_succ (frame : FrameInputs) (start n : ℕ) :
    frame.rows start (n + 1) = frame.rows start n ++ [frame.row (start + n)] := by
  rw [FrameInputs.rows, List.range_succ, List.map_append]
  rfl

/-- **The line that is drawn** with a scratch that has been begun is the line of the frame. -/
theorem FrameInputs.drawScanline_eq (frame : FrameInputs) {line : ℕ} {scratch : RasterScratch}
    (h : Begun frame.mem line scratch.oam) (fbLine : PixelRow) :
    ∃ after, drawScanline frame.mem (frame.regs.ppu line) (frame.regs.dispCnt line) line scratch
        fbLine = some (after, frame.row line) ∧ after.oam = scratch.oam := by
  obtain ⟨after, row, hdraw, hfresh, hoam⟩ := drawScanline_eq_freshRow frame.mem
    (frame.regs.ppu line) (frame.regs.dispCnt line) h fbLine
  refine ⟨after, ?_, hoam⟩
  rw [hdraw, FrameInputs.row, hfresh]
  rfl

/-- The row of a line is drawn: the value of `FrameInputs.row` stands for no failure. -/
theorem FrameInputs.freshRow_eq (frame : FrameInputs) {line : ℕ} (hline : line < 0xFFFF) :
    freshRow frame.mem (frame.regs.ppu line) (frame.regs.dispCnt line) line
      = some (frame.row line) := by
  obtain ⟨begun, -, hbegun⟩ := beginFrame_begun frame.mem line (line + 1)
    (by unfold HALF_LINES; omega) (by omega) RasterScratch.new
  obtain ⟨-, row, -, hfresh, -⟩ := drawScanline_eq_freshRow frame.mem (frame.regs.ppu line)
    (frame.regs.dispCnt line) (hbegun line le_rfl (Nat.lt_succ_self line)) fun _ => 0
  rw [FrameInputs.row, hfresh]
  rfl

/-- The pass of a core over the frame of a number: its half of the lines. -/
def halfPass (half : Fin 2) (k : ℕ) (frame : FrameInputs) : FramePass :=
  ⟨k % FRAME_BUFS, frame.rows (half.val * HALF_LINES) HALF_LINES⟩

/-- The showing of the frame of a number. -/
def wholePass (k : ℕ) (frame : FrameInputs) : FramePass :=
  ⟨k % FRAME_BUFS, frame.rows 0 (2 * HALF_LINES)⟩

/-- A log that follows the queue goes on with the next frame of it. -/
theorem prefix_snoc {queued : List FrameInputs} {log : List FramePass}
    {pass : ℕ → FrameInputs → FramePass} {frame : FrameInputs} (h : log <+: queued.mapIdx pass)
    (hframe : queued[log.length]? = some frame) :
    log ++ [pass log.length frame] <+: queued.mapIdx pass := by
  obtain ⟨rest, hrest⟩ := h
  have hget : (queued.mapIdx pass)[log.length]? = some (pass log.length frame) := by
    rw [List.getElem?_mapIdx, hframe]
    rfl
  rw [← hrest, List.getElem?_append_right le_rfl, Nat.sub_self] at hget
  cases rest with
  | nil => simp at hget
  | cons x rest =>
      obtain rfl := Option.some.inj hget
      exact ⟨rest, by rw [← hrest, List.append_assoc]; rfl⟩

/-- A log that follows the queue goes on following it. -/
theorem prefix_of_queued {queued : List FrameInputs} {log : List FramePass}
    {pass : ℕ → FrameInputs → FramePass} (h : log <+: queued.mapIdx pass) (frame : FrameInputs) :
    log <+: (queued ++ [frame]).mapIdx pass := by
  rw [List.mapIdx_append]
  exact h.trans (List.prefix_append _ _)

theorem length_le_of_prefix {queued : List FrameInputs} {log : List FramePass}
    {pass : ℕ → FrameInputs → FramePass} (h : log <+: queued.mapIdx pass) :
    log.length ≤ queued.length := by
  have hle := h.length_le
  rwa [List.length_mapIdx] at hle

/-! ## The states of a slot -/

/-- The state of a slot that has been queued, with what each core has done. -/
def slotState (done : Fin 2 → Bool) : BitVec 8 :=
  S_QUEUED ||| (if done 0 then S_HALF 0 else 0) ||| (if done 1 then S_HALF 1 else 0)

theorem slotState_queued_iff : ∀ (done : Fin 2 → Bool) (half : Fin 2),
    slotState done &&& (S_QUEUED ||| S_HALF half) = S_QUEUED ↔ done half = false := by
  decide

theorem slotState_rastered_iff : ∀ done : Fin 2 → Bool,
    slotState done = S_RASTERED ↔ ∀ half, done half = true := by
  decide

theorem slotState_report : ∀ (done : Fin 2 → Bool) (half : Fin 2),
    slotState done ||| S_HALF half = slotState (Function.update done half true) := by
  decide

theorem slotState_ne_zero : ∀ done : Fin 2 → Bool, slotState done ≠ 0 := by
  decide

theorem slotState_none : slotState (fun _ => false) = S_QUEUED := rfl

theorem free_not_queued (half : Fin 2) :
    (0 : BitVec 8) &&& (S_QUEUED ||| S_HALF half) ≠ S_QUEUED := by
  revert half
  decide

end AdvancedSlop
