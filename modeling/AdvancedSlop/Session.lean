/-
# The vblank hook and savestates

`gpu_on_scanline308_event` ends a scanline; when it enters vblank it runs the hook at which
savestates and rewind snapshots are restored (`src/core/gpu.rs`, `src/core/emu.rs`,
`src/core/rewind.rs`, `src/core/input.rs`).  The field walk of a savestate covers the guest's
state; `current_event_due`, the keypad edge memory and everything that belongs to the host are
skipped by it.

* `saveState`, `loadState` : the walk in its two directions;
* `vblankHook`, `gpuOnScanline308` : the handler with the hook;
* `Code` : the rest of the program, the other handlers and the cpu slices;
* `executeJit` : the outer loop.

The renderer, the compiled blocks, the mmu tables and the rewind ring are derived from the
guest's state or of the host, and left out.
-/
import AdvancedSlop.CallHandlers
import AdvancedSlop.CpuInterrupt

namespace AdvancedSlop

/-! ## The data -/

/-- The registers of `Gpu` the scanline events use. -/
structure Gpu where
  vCount : ℕ
  dispStat : BitVec 16

/-- The guest's state: what the field walk covers, less the scheduler.  `other` stands for
memory, sound, dma, timers, clock chip and cartridge protocols. -/
structure Guest (G : Type*) where
  regs : ThreadRegs
  cpu : CpuRegs
  gpu : Gpu
  keyInput : BitVec 16
  keyCnt : BitVec 16
  other : G

/-- A savestate: the walked fields of the scheduler and the guest's state. -/
structure Saved (G : Type*) where
  cycleCount : ℕ
  events : EventType → ℕ
  nextEventCycle : ℕ
  activeEvents : EventType → Bool
  activeImmEvents : ImmEventType → Bool
  guest : Guest G

/-- What the vblank hook is asked to restore: a savestate file (`none` when it does not decode),
or the newest snapshot of the rewind ring. -/
inductive Restore (G : Type*)
  | loadState (data : Option (Saved G))
  | stepBack (snapshot : Saved G)

/-- The rest of a session: the guest's devices, and on the host's side the pressed keys, the
keypad edge memory, the save chip and settings (`host`), and the pending restore. -/
structure Session (G Q : Type*) where
  gpu : Gpu
  keyInput : BitVec 16
  keyCnt : BitVec 16
  other : G
  keyMap : BitVec 32
  prevKeypadIrq : Bool
  host : Q
  pending : Option (Restore G)

/-- The emulator in a session. -/
abbrev SessionMachine (G Q : Type*) := Machine (Session G Q)

variable {G Q : Type*}

/-- The guest's state. -/
def guestOf (m : SessionMachine G Q) : Guest G :=
  ⟨m.dev.regs, m.dev.cpu, m.dev.rest.gpu, m.dev.rest.keyInput, m.dev.rest.keyCnt,
    m.dev.rest.other⟩

/-- Overwrite the guest's state. -/
def withGuest (m : SessionMachine G Q) (g : Guest G) : SessionMachine G Q :=
  { m with dev := { m.dev with
      regs := g.regs
      cpu := g.cpu
      rest := { m.dev.rest with
        gpu := g.gpu, keyInput := g.keyInput, keyCnt := g.keyCnt, other := g.other } } }

/-! ## The walk -/

/-- `Emu::savestate` while saving. -/
def saveState (m : SessionMachine G Q) : Saved G :=
  ⟨m.cm.cycleCount, m.cm.events, m.cm.nextEventCycle, m.cm.activeEvents, m.cm.activeImmEvents,
    guestOf m⟩

/-- `Emu::savestate` while loading: `current_event_due` is skipped. -/
def walkIn (data : Saved G) (m : SessionMachine G Q) : SessionMachine G Q :=
  { withGuest m data.guest with cm :=
    { cycleCount := data.cycleCount
      events := data.events
      nextEventCycle := data.nextEventCycle
      activeEvents := data.activeEvents
      activeImmEvents := data.activeImmEvents
      currentEventDue := m.cm.currentEventDue } }

/-- What a handler or a slice of guest code may look at, besides the clock and the due cycle:
the fields of the scheduler are private to it. -/
structure View (G Q : Type*) where
  guest : Guest G
  keyMap : BitVec 32
  host : Q

/-- The view of a machine. -/
def viewOf (m : SessionMachine G Q) : View G Q := ⟨guestOf m, m.dev.rest.keyMap, m.dev.rest.host⟩

/-- Overwrite the view. -/
def withView (m : SessionMachine G Q) (v : View G Q) : SessionMachine G Q :=
  let m := withGuest m v.guest
  m.withRest { m.dev.rest with keyMap := v.keyMap, host := v.host }

/-- Take over what a handler computed: its calls and its change of the view. -/
def takeOver (m : SessionMachine G Q) (r : List CmCall × View G Q) : SessionMachine G Q :=
  { withView m r.2 with cm := runCalls m.cm r.1 }

/-- The rest of the program.  Only a handler of a scheduled event may schedule from the due
cycle, and with a positive delta; a slice runs guest code, and tells how many cycles it took
(`none` when the cpu did not run). -/
structure Code (G Q : Type*) where
  imm : ImmEventType → ℕ → View G Q → List CmCall × View G Q
  event : EventType → ℕ → ℕ → View G Q → List CmCall × View G Q
  dmaTriggerAll : G → List ImmEventType
  reloadInternalRefs : G → G
  timersOnOverflow : ℕ → G → G
  cartridgeSavestatePostLoad : G → Q → Q
  imm_no_due : ∀ e clock v n e', CmCall.scheduleFromDue n e' ∉ (imm e clock v).1
  delta_pos : ∀ e clock due v n e',
    CmCall.scheduleFromDue n e' ∈ (event e clock due v).1 → 1 ≤ n.toNat

/-- A slice of guest code, with what happens on the host meanwhile. -/
structure Slice (G Q : Type*) where
  run : ℕ → View G Q → List CmCall × View G Q × Option ℕ
  no_due : ∀ clock v n e', CmCall.scheduleFromDue n e' ∉ (run clock v).1

variable (C : Code G Q)

/-! ## The handler of the line end -/

/-- `VISIBLE_LINES`, `TOTAL_LINES` and `HDRAW_CYCLES`. -/
def visibleLines : ℕ := 160

@[inherit_doc visibleLines] def totalLines : ℕ := 228

@[inherit_doc visibleLines] def hdrawCycles : UInt32 := 960

/-- Set or clear a flag of DISPSTAT. -/
def setDispFlag (dispStat : BitVec 16) (bit : ℕ) (value : Bool) : BitVec 16 :=
  if value then dispStat ||| ((1 : BitVec 16) <<< bit)
  else dispStat &&& ~~~((1 : BitVec 16) <<< bit)

/-- Change the gpu's registers. -/
def withGpu (m : SessionMachine G Q) (gpu : Gpu) : SessionMachine G Q :=
  m.withRest { m.dev.rest with gpu := gpu }

/-- Send an interrupt if its bit in DISPSTAT enables it. -/
def sendDispInterrupt (bit : ℕ) (flag : InterruptFlag) (m : SessionMachine G Q) :
    SessionMachine G Q :=
  if m.dev.rest.gpu.dispStat.getLsbD bit then cpuSendInterrupt flag m else m

/-- `dma_trigger_all(StartAtVBlank)`. -/
def triggerVBlankDma (m : SessionMachine G Q) : SessionMachine G Q :=
  { m with cm := (C.dmaTriggerAll m.dev.rest.other).foldl CycleManager.scheduleImm m.cm }

/-- The match on the line number: entering vblank, its last line, and the wrap to line 0. -/
def lineStart (m : SessionMachine G Q) : SessionMachine G Q :=
  let gpu := m.dev.rest.gpu
  if gpu.vCount = visibleLines then
    let m := withGpu m { gpu with dispStat := setDispFlag gpu.dispStat 0 true }
    triggerVBlankDma C (sendDispInterrupt 3 .lcdVBlank m)
  else if gpu.vCount = 227 then
    withGpu m { gpu with dispStat := setDispFlag gpu.dispStat 0 false }
  else if gpu.vCount = totalLines then
    let m := withGpu m { gpu with vCount := 0 }
    m.withRest { m.dev.rest with other := C.reloadInternalRefs m.dev.rest.other }
  else m

/-- The comparison with the line setting. -/
def matchLine (m : SessionMachine G Q) : SessionMachine G Q :=
  let gpu := m.dev.rest.gpu
  if gpu.vCount = (gpu.dispStat >>> 8).toNat then
    sendDispInterrupt 5 .lcdVCounterMatch
      (withGpu m { gpu with dispStat := setDispFlag gpu.dispStat 2 true })
  else withGpu m { gpu with dispStat := setDispFlag gpu.dispStat 2 false }

/-- `gpu_on_scanline308_event` up to the hook. -/
def lineEnd (m : SessionMachine G Q) : SessionMachine G Q :=
  let m := withGpu m { m.dev.rest.gpu with vCount := (m.dev.rest.gpu.vCount + 1) % 65536 }
  let m := matchLine (lineStart C m)
  let m := withGpu m { m.dev.rest.gpu with dispStat := setDispFlag m.dev.rest.gpu.dispStat 1 false }
  { m with cm := m.cm.scheduleFromDue hdrawCycles.toNat .gpuScanline240 }

/-! ## The hook -/

/-- The part of `load_state` after the walk that reaches the save chip. -/
def savestatePostLoad (m : SessionMachine G Q) : SessionMachine G Q :=
  m.withRest { m.dev.rest with
    host := C.cartridgeSavestatePostLoad m.dev.rest.other m.dev.rest.host }

/-- `take_request` and `rewind_on_frame`: the pending restore is taken and carried out.  A file
that does not decode leaves the session intact. -/
def takeRequest (m : SessionMachine G Q) : SessionMachine G Q :=
  let m' := m.withRest { m.dev.rest with pending := none }
  match m.dev.rest.pending with
  | none => m'
  | some (.loadState none) => m'
  | some (.loadState (some data)) => savestatePostLoad C (walkIn data m')
  | some (.stepBack snapshot) => walkIn snapshot m'

/-- The pressed keys, `!get_key_input() & 0x3FF`. -/
def pressedKeys (s : Session G Q) : BitVec 16 :=
  ~~~((s.keyInput &&& ~~~0x3FF) ||| (s.keyMap.setWidth 16 &&& 0x3FF)) &&& 0x3FF

/-- The keys KEYCNT selects are pressed: all of them, or any. -/
def keypadHit (s : Session G Q) : Bool :=
  let pressed := pressedKeys s
  let selected := s.keyCnt &&& 0x3FF
  if s.keyCnt.getLsbD 15 then selected ≠ 0 && pressed &&& selected = selected
  else pressed &&& selected ≠ 0

/-- `input_process_hotkeys`. -/
def inputProcessHotkeys (m : SessionMachine G Q) : SessionMachine G Q :=
  let s := m.dev.rest
  if s.keyCnt.getLsbD 14 then
    let hit := keypadHit s
    let m := if hit && !s.prevKeypadIrq then cpuSendInterrupt .keypad m else m
    m.withRest { m.dev.rest with prevKeypadIrq := hit }
  else m.withRest { s with prevKeypadIrq := false }

/-- The vblank hook. -/
def vblankHook (m : SessionMachine G Q) : SessionMachine G Q :=
  inputProcessHotkeys (takeRequest C m)

/-- `gpu_on_scanline308_event`. -/
def gpuOnScanline308 (m : SessionMachine G Q) : SessionMachine G Q :=
  let m := lineEnd C m
  if m.dev.rest.gpu.vCount = visibleLines then vblankHook C m else m

/-! ## The outer loop -/

/-- The handler tables of `cm_check_events`. -/
def Code.toHandlers : Handlers (Board (Session G Q)) where
  imm e m := takeOver m (C.imm e m.cm.cycleCount (viewOf m))
  event e m :=
    match e with
    | .gpuScanline308 => gpuOnScanline308 C m
    | e => takeOver m (C.event e m.cm.cycleCount m.cm.currentEventDue (viewOf m))
  timersOnOverflow clock b :=
    { b with rest := { b.rest with other := C.timersOnOverflow clock b.rest.other } }

/-- A slice of guest code; a cpu that did not run jumps to the next event. -/
def Slice.execute (sl : Slice G Q) (m : SessionMachine G Q) : SessionMachine G Q :=
  let r := sl.run m.cm.cycleCount (viewOf m)
  let m := takeOver m (r.1, r.2.1)
  match r.2.2 with
  | none => { m with cm := m.cm.jumpToNextEvent }
  | some cycles => { m with cm := m.cm.addCycles cycles }

/-- What the checks of a session dispatch: the immediate events and the due cycles and events,
check by check. -/
abbrev Dispatched := List (List ImmEventType × List (ℕ × EventType))

/-- After a check that ran, `execute_jit` checks a second time. -/
def checkAgain (fuel : ℕ) (ran : Bool) (m : SessionMachine G Q) :
    Option (Dispatched × SessionMachine G Q) :=
  if ran then
    (cmCheckEvents C.toHandlers fuel m).map fun r => ([(r.imm, r.timed)], r.emu)
  else some ([], m)

/-- `execute_jit` over the given slices. -/
def executeJit (fuel : ℕ) : List (Slice G Q) → SessionMachine G Q → Option Dispatched
  | [], _ => some []
  | sl :: slices, m =>
      (cmCheckEvents C.toHandlers fuel (sl.execute m)).bind fun r =>
        (checkAgain C fuel r.ran r.emu).bind fun again =>
          (executeJit fuel slices again.2).map fun rest => (r.imm, r.timed) :: again.1 ++ rest

/-- The rest of a session from inside the drain of a check: the rest of the drain, the end of the
check, and the outer loop. -/
def continueFrom (fuel : ℕ) (slices : List (Slice G Q)) (m : SessionMachine G Q) :
    Option Dispatched :=
  (drain C.toHandlers fuel m).bind fun r =>
    (checkAgain C fuel true (rebase C.toHandlers (recompute r.2))).bind fun again =>
      (executeJit C fuel slices again.2).map fun rest => ([], r.1) :: again.1 ++ rest

end AdvancedSlop
