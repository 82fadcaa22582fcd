/-
# The save file

The save chip is written back to its file: the cpu thread writes to `save_buf` and sets `save_dirty`
under its lock, and the save thread calls `flush_save_buf` every six half-seconds, until it sees that
the cpu thread is not active any more.

* `SaveWrite`, `saveStep` : the two threads, as those of `WriteBack`;
* `restores` : what the next start makes of a file;
* `save_file_law` : what the file holds in every state that is reached;
* `lastWrite_lost` : the last write of a game need not be in it.
-/
import AdvancedSlop.WriteBack
import AdvancedSlop.SaveBuffer
import AdvancedSlop.TransitionSystem

namespace AdvancedSlop

open TransitionSystem

/-- What the cpu thread does to `save_buf`. -/
inductive SaveWrite where
  | byte (addr : Nat) (value : BitVec 8)
  | resize (newSize : Nat)
  deriving DecidableEq

/-- The writes of `write_save_buf` and `resize_save_buf`. -/
def SaveWrite.apply (saveBuf : SaveBuf) : SaveWrite → SaveBuf
  | .byte addr value => AdvancedSlop.writeSaveBuf saveBuf addr value
  | .resize newSize => AdvancedSlop.resizeSaveBuf saveBuf newSize

/-- The half-seconds between two calls of `flush_save_buf`. -/
def savePeriod : ℕ := 6

/-- The cpu thread, the file, and the save thread. -/
abbrev SaveState : Type := WriteBack.State SaveBuf SaveWrite

/-- The steps: the write of `write_save_buf` and of `resize_save_buf`, their store of `save_dirty`;
the end of the cpu thread, and the store of `cpu_active`; the test of `cpu_active` and a half-second,
the swap of `save_dirty`, the lock of `flush_save_buf`, and its `fs::write`, with what it has left of
the file if it failed. -/
inductive SaveAction where
  | writeSaveBuf (addr : Nat) (value : BitVec 8)
  | resizeSaveBuf (newSize : Nat)
  | markDirty
  | cpuStops
  | cpuInactive
  | sleep
  | swapDirty
  | lock
  | fsWrite (failure : Option SaveBuf)

/-- The steps, as those of `WriteBack`. -/
def SaveAction.op : SaveAction → WriteBack.Action SaveBuf SaveWrite
  | .writeSaveBuf addr value => .write (.byte addr value)
  | .resizeSaveBuf newSize => .write (.resize newSize)
  | .markDirty => .mark
  | .cpuStops => .stop
  | .cpuInactive => .deactivate
  | .sleep => .tick
  | .swapDirty => .take
  | .lock => .lock
  | .fsWrite failure => .copy failure

/-- **A step** of the cpu thread, the main thread or the save thread.  Without a chip
`write_save_buf` returns before it sets `save_dirty`. -/
def saveStep (s : SaveState) : SaveAction → Option SaveState
  | .writeSaveBuf addr value =>
      if s.buf.isEmpty ∧ s.writer = .idle ∧ s.flusher ≠ .copying then some s
      else WriteBack.step SaveWrite.apply savePeriod s (SaveAction.writeSaveBuf addr value).op
  | a => WriteBack.step SaveWrite.apply savePeriod s a.op

/-- A game that starts with a save file. -/
def startSave (saveType : SaveType) (file : SaveBuf) : SaveState :=
  WriteBack.start (loadSaveBuf saveType file) file

/-- The steps are those of `WriteBack`. -/
theorem saveStep_cases {s t : SaveState} {a : SaveAction} (h : saveStep s a = some t) :
    t = s ∨ WriteBack.step SaveWrite.apply savePeriod s a.op = some t := by
  cases a with
  | writeSaveBuf addr value =>
      rw [saveStep] at h
      split_ifs at h
      · exact .inl (Option.some.inj h).symm
      · exact .inr h
  | _ => exact .inr h

/-- **The next start** makes of a file that holds the buffer the buffer again, and what the chip has
beyond it is erased. -/
theorem restores (saveType : SaveType) (saveBuf : SaveBuf) :
    (loadSaveBuf saveType saveBuf).take saveBuf.length = saveBuf := by
  unfold loadSaveBuf
  dsimp only
  split_ifs
  · exact List.take_length
  · exact List.take_left

/-- **The save file**, in every state that any interleaving of the threads reaches.  `save_buf` is
what the writes have made of the buffer that was loaded.  Unless the last `fs::write` has failed, the
file is what it was at the start, or the buffer after the first of these writes; a write that is not
in it was marked less than seven half-seconds ago, also when the save thread has ended; and when
`save_dirty` is clear and neither a write nor a flush is under way, the next start loads the buffer. -/
theorem save_file_law (saveType : SaveType) (file : SaveBuf) {s : SaveState}
    (h : Reaches saveStep (fun _ _ => True) (startSave saveType file) s) :
    s.buf = s.writes.foldl SaveWrite.apply (loadSaveBuf saveType file) ∧
    (s.failed = false →
      (s.store = if s.saved = 0 then file
        else (s.writes.take s.saved).foldl SaveWrite.apply (loadSaveBuf saveType file)) ∧
      (∀ i (hi : i < s.marks.length), s.saved ≤ i → s.ticks ≤ s.marks[i] + savePeriod) ∧
      (s.dirty = false → ¬ s.copies → s.writer ≠ .marking →
        (loadSaveBuf saveType s.store).take s.buf.length = s.buf)) := by
  have hs : WriteBack.Sound SaveWrite.apply savePeriod (loadSaveBuf saveType file) file s := by
    refine h.invariant (fun _ _ _ hs _ hstep => ?_) WriteBack.sound_start
    rcases saveStep_cases hstep with rfl | hop
    · exact hs
    · exact hs.step hop
  refine ⟨hs.buf_eq, fun hfailed => ⟨hs.store_eq hfailed, fun i hi hsaved => ?_,
    fun hdirty hcopies hwriter => ?_⟩⟩
  · exact (hs.unsaved_recent hfailed hi hsaved).trans
      (Nat.add_le_add_left (WriteBack.State.lag_le hs.slept) _)
  · rw [hs.saved_of_quiet hfailed hdirty hcopies hwriter]
    split_ifs with hwrites
    · rw [hs.buf_eq, hwrites]
      exact List.take_length
    · exact restores saveType s.buf

/-- A byte of a chip is written, and flushed after six half-seconds. -/
def flushedRun : List SaveAction :=
  [.writeSaveBuf 3 7, .markDirty, .sleep, .sleep, .sleep, .sleep, .sleep, .sleep, .swapDirty, .lock,
    .fsWrite none]

/-- The game after that. -/
def flushedSave : SaveState :=
  (flushedRun.foldlM saveStep (startSave .none [1, 2, 3, 4])).getD (startSave .none [])

/-- The next start loads the byte. -/
theorem save_file_law_flushed :
    (loadSaveBuf .none flushedSave.store).take flushedSave.buf.length = [1, 2, 3, 7] := by
  have hreached : Reaches saveStep (fun _ _ => True) (startSave .none [1, 2, 3, 4]) flushedSave :=
    Reaches.of_foldlM (fun _ _ _ => trivial) (show flushedRun.foldlM _ _ = some flushedSave from rfl)
  exact ((save_file_law .none [1, 2, 3, 4] hreached).2 rfl).2.2 rfl (by decide) (by decide)

/-- The last byte of a game is written, and the save thread ends without another flush. -/
theorem lastWrite_lost : ∃ s : SaveState,
    Reaches saveStep (fun _ _ => True) (startSave .none [1, 2, 3, 4]) s ∧ s.flusher = .ended ∧
      s.failed = false ∧ s.buf = [1, 2, 3, 7] ∧ s.store = [1, 2, 3, 4] :=
  ⟨_, Reaches.of_foldlM (fun _ _ _ => trivial) (show List.foldlM saveStep
    (startSave .none [1, 2, 3, 4]) [.writeSaveBuf 3 7, .markDirty, .cpuStops, .cpuInactive, .sleep]
      = some _ from rfl), rfl, rfl, rfl, rfl⟩

end AdvancedSlop
