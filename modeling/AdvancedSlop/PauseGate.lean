/-
# The pause gate

The threads of `lib.rs` around a pause.  The cpu thread parks in `on_frame_finish` while `pause` is
set; the main thread sets it, may hand over a single-frame ticket (`step_paused_frame`) for a
savestate request of the pause menu, and unparks the cpu thread after each of its stores.  The cpu
thread parks on the same token in `SoundSampler::push`.

* `PauseState`, `PauseState.step` : the threads, and their atomic steps in any order;
* `PauseState.Sound` : the invariant; `Sound.step` : every step keeps it;
* `pause_gate_law` : no wake-up is lost, and a paused game goes on by tickets only.
-/
import AdvancedSlop.ParkToken
import AdvancedSlop.TransitionSystem

namespace AdvancedSlop

open TransitionSystem

/-! ## The threads -/

/-- `SaveTarget`. -/
inductive SaveTarget where
  | newSlot
  | quick
  | auto
  | path (path : String)
  deriving DecidableEq

/-- `SavestateRequest`. -/
inductive SavestateRequest where
  | save (target : SaveTarget) (screenshot : List UInt8)
  | load (data : List UInt8)
  | loadQuick
  deriving DecidableEq

/-- `OP_STATE`, with `OP_BYTES`. -/
inductive OpState where
  | idle
  | working
  | doneSave (bytes : UInt32)
  | doneLoad (bytes : UInt32)
  | failed
  deriving DecidableEq

/-- `op_finish_save`, `op_finish_load` and `op_fail`: what is reported of a request. -/
def OpState.report (op : OpState) (request : SavestateRequest) (bytes : Option ℕ) : OpState :=
  if op = .working then
    match bytes, request with
    | some bytes, .save _ _ => .doneSave (.ofNat bytes)
    | some bytes, _ => .doneLoad (.ofNat bytes)
    | none, _ => .failed
  else op

/-- Where the cpu thread is: in the guest, in the loop of `on_frame_finish` that waits for the pause
to end, at the savestate hook behind it, at work on a request, or before the `park` of a `push`. -/
inductive CpuPlace where
  | guest
  | gate
  | hook
  | performing (request : SavestateRequest)
  | push
  deriving DecidableEq

/-- Where the main thread is: in its loop, in the pause menu; behind the `op_begin` of a dialog, the
store of its request, the store of its ticket, the unpark, the `op_clear`; behind the store that ends
a pause; behind the two stores that end a game, and their unpark. -/
inductive MainPhase where
  | running
  | menu
  | armed
  | requested (request : SavestateRequest)
  | ticketed (request : SavestateRequest)
  | polling (request : SavestateRequest)
  | cleared
  | resumed
  | quitting
  | released
  | joining
  deriving DecidableEq

/-- Between a store and its unpark. -/
def MainPhase.owes : MainPhase → Bool
  | .ticketed _ => true
  | .resumed => true
  | .quitting => true
  | .released => true
  | _ => false

/-- In a pause. -/
def MainPhase.pauses : MainPhase → Bool
  | .menu => true
  | .armed => true
  | .requested _ => true
  | .ticketed _ => true
  | .polling _ => true
  | .cleared => true
  | _ => false

/-- At the end of the game. -/
def MainPhase.quits : MainPhase → Bool
  | .quitting => true
  | .released => true
  | .joining => true
  | _ => false

/-- **The threads around a pause**: the flags of the renderer, `REQUEST`, `LOAD_REQUEST` and
`OP_STATE`, `SoundSampler::waiting`, the token of the cpu thread; and how often it has gone on from
`on_frame_finish`, the requests that were stored, and those that were performed, each with the bytes
it wrote or read unless it failed. -/
structure PauseState where
  pause : Bool
  quit : Bool
  pauseStep : Bool
  waiting : Bool
  request : Option SavestateRequest
  loadRequest : Bool
  op : OpState
  cpu : CpuPlace
  waiter : Waiter
  main : MainPhase
  frames : ℕ
  asked : List SavestateRequest
  performed : List (SavestateRequest × Option ℕ)

namespace PauseState

/-- `reset_for_new_game`, with nothing requested. -/
def start : PauseState where
  pause := false
  quit := false
  pauseStep := false
  waiting := false
  request := none
  loadRequest := false
  op := .idle
  cpu := .guest
  waiter := .idle
  main := .running
  frames := 0
  asked := []
  performed := []

/-- The cpu thread goes on from `on_frame_finish`. -/
def goOn (s : PauseState) : PauseState :=
  { s with cpu := .hook, waiter := s.waiter.leave, frames := s.frames + 1 }

/-- `park` has returned: the loop of the gate begins again, a `push` is over. -/
def parkReturned (s : PauseState) (waiter : Waiter) : PauseState :=
  { s with waiter, cpu := if s.cpu = .push then .guest else s.cpu }

/-- `park`. -/
def park (s : PauseState) : PauseState :=
  if s.waiter.token then s.parkReturned s.waiter.park else { s with waiter := s.waiter.park }

/-- The loop of `on_frame_finish`: the loads of `pause` and of `quit`, the swap of `pause_step`, and
`park`. -/
def poll (s : PauseState) : PauseState :=
  match s.waiter.tested with
  | 0 => if s.pause then { s with waiter := s.waiter.fail } else s.goOn
  | 1 => if s.quit then s.goOn else { s with waiter := s.waiter.fail }
  | 2 => if s.pauseStep then { s.goOn with pauseStep := false } else { s with waiter := s.waiter.fail }
  | _ => s.park

/-- The cpu thread goes on in the loop of `on_frame_finish`, or at the end of a `push`. -/
def gate (s : PauseState) : Option PauseState :=
  if s.waiter.parked then s.waiter.unparked.map s.parkReturned
  else match s.cpu with
    | .push => some s.park
    | .gate => some s.poll
    | _ => none

/-- `take_request`, at the hook. -/
def takeRequest (s : PauseState) : PauseState :=
  match s.request with
  | some request => { s with request := none, cpu := .performing request }
  | none =>
      if s.loadRequest then { s with loadRequest := false, cpu := .performing .loadQuick }
      else { s with cpu := .guest }

/-- `request_save_with_screenshot`, `request_load`. -/
def store (s : PauseState) (request : SavestateRequest) : PauseState :=
  { s with request := some request, asked := s.asked ++ [request] }

end PauseState

/-- The steps of the threads. -/
inductive PauseAction where
  | vblank
  | push
  | gate
  | wake
  | hook
  | finish (bytes : Option ℕ)
  | consume
  | quickSave (screenshot : List UInt8)
  | quickLoad
  | setPause
  | opBegin
  | request (request : SavestateRequest)
  | stepPausedFrame
  | unpark
  | opClear
  | expire
  | resume
  | setQuit
  | release
  deriving DecidableEq

/-- The steps of the main thread. -/
def PauseAction.OfMain : PauseAction → Bool
  | .vblank => false
  | .push => false
  | .gate => false
  | .wake => false
  | .hook => false
  | .finish _ => false
  | .consume => false
  | _ => true

namespace PauseState

/-- `cpu_thread.unpark()`, of the main thread. -/
def unpark (s : PauseState) (main : MainPhase) : PauseState :=
  { s with waiter := s.waiter.unpark, main }

/-- **A step** of one of the threads. -/
def step (s : PauseState) : PauseAction → Option PauseState
  -- the cpu thread
  | .vblank => if s.cpu = .guest then some { s with cpu := .gate } else none
  | .push => if s.cpu = .guest then some { s with cpu := .push, waiting := true } else none
  | .gate => s.gate
  | .wake => s.waiter.wake.map s.parkReturned
  | .hook => if s.cpu = .hook then some s.takeRequest else none
  | .finish bytes => match s.cpu with
      | .performing request => some { s with
          cpu := .guest
          op := OpState.report s.op request bytes
          performed := s.performed ++ [(request, bytes)] }
      | _ => none
  -- the audio thread
  | .consume =>
      if s.waiting then some { s with waiting := false, waiter := s.waiter.unpark } else none
  -- the main thread
  | .quickSave screenshot =>
      if s.main = .running then some (s.store (.save .quick screenshot)) else none
  | .quickLoad => if s.main = .running then some { s with loadRequest := true } else none
  | .setPause => if s.main = .running then some { s with pause := true, main := .menu } else none
  | .opBegin => if s.main = .menu then some { s with op := .working, main := .armed } else none
  | .request request =>
      if s.main = .armed ∧ request ≠ .loadQuick then
        some { s.store request with main := .requested request }
      else none
  | .stepPausedFrame => match s.main with
      | .requested request => some { s with pauseStep := true, main := .ticketed request }
      | _ => none
  | .unpark => match s.main with
      | .ticketed request => some (s.unpark (.polling request))
      | .resumed => some (s.unpark .running)
      | .released => some (s.unpark .joining)
      | _ => none
  | .opClear => match s.main with
      | .polling _ => if s.op = .working then none else some { s with op := .idle, main := .cleared }
      | _ => none
  -- the deadline of the dialog has passed
  | .expire => match s.main with
      | .polling _ => some { s with op := .idle, main := .cleared }
      | _ => none
  | .resume =>
      if s.main = .menu ∨ s.main = .cleared then some { s with pause := false, main := .resumed }
      else none
  | .setQuit =>
      if s.main = .running then some { s with quit := true, main := .quitting } else none
  | .release =>
      if s.main = .quitting then some { s with pause := false, main := .released } else none

/-! ## The invariant -/

/-- The flags the gate polls, in its order: the pause is over, the game is, a ticket is there. -/
def flag (s : PauseState) : ℕ → Prop
  | 0 => s.pause = false
  | 1 => s.quit = true
  | 2 => s.pauseStep = true
  | _ => False

/-- **The invariant**: no wake-up of the gate is lost, `pause` and `quit` are as the main thread has
stored them, and a `push` that waits has its token or is waited for by the audio thread. -/
structure Sound (s : PauseState) : Prop where
  alert : s.waiter.Alert s.flag (s.main.owes = true)
  pausing : s.pause = s.main.pauses
  quitting : s.quit = s.main.quits
  polling : s.cpu ≠ .gate → s.waiter.tested = 0
  polled : s.waiter.tested ≤ 3
  parked : s.waiter.parked = true → s.cpu = .push ∨ s.cpu = .gate ∧ s.waiter.tested = 3
  pushing : s.cpu = .push → s.waiter.token = true ∨ s.waiting = true

theorem sound_start : start.Sound where
  alert := Waiter.alert_idle
  pausing := rfl
  quitting := rfl
  polling _ := rfl
  polled := Nat.zero_le 3
  parked := nofun
  pushing := nofun

variable {s t : PauseState} {a : PauseAction}

/-- The cpu thread goes on. -/
theorem Sound.goOn (h : s.Sound) (hparked : s.waiter.parked = false) : s.goOn.Sound where
  alert := Waiter.alert_of_tested rfl
  pausing := h.pausing
  quitting := h.quitting
  polling _ := rfl
  polled := Nat.zero_le 3
  parked hp := absurd hp (by rw [show s.goOn.waiter.parked = s.waiter.parked from rfl, hparked]; nofun)
  pushing := nofun

/-- **A test of the gate that fails** keeps the invariant. -/
theorem Sound.fail (h : s.Sound) (hcpu : s.cpu = .gate) (hparked : s.waiter.parked = false)
    (hlt : s.waiter.tested < 3) (hflag : ¬ s.flag s.waiter.tested) :
    Sound { s with waiter := s.waiter.fail } where
  alert := h.alert.fail hflag
  pausing := h.pausing
  quitting := h.quitting
  polling hne := absurd hcpu hne
  polled := hlt
  parked hp := absurd hp (by rw [show s.waiter.fail.parked = s.waiter.parked from rfl, hparked]; nofun)
  pushing hpush := absurd (hcpu.symm.trans hpush) nofun

/-- **The end of a park** keeps the invariant. -/
theorem Sound.parkReturned (h : s.Sound) (hcpu : s.cpu = .push ∨ s.cpu = .gate) {waiter : Waiter}
    (htested : waiter.tested = 0) (hparked : waiter.parked = false) :
    (s.parkReturned waiter).Sound where
  alert := Waiter.alert_of_tested htested
  pausing := h.pausing
  quitting := h.quitting
  polling _ := htested
  polled := by rw [show (s.parkReturned waiter).waiter = waiter from rfl, htested]; exact Nat.zero_le 3
  parked hp := absurd hp (by rw [show (s.parkReturned waiter).waiter = waiter from rfl, hparked]; nofun)
  pushing hpush := by
    rcases hcpu with hcpu | hcpu
    · rw [PauseState.parkReturned, if_pos hcpu] at hpush
      cases hpush
    · rw [PauseState.parkReturned, if_neg (by rw [hcpu]; nofun)] at hpush
      exact absurd (hcpu.symm.trans hpush) nofun

/-- **Parking** keeps the invariant. -/
theorem Sound.park (h : s.Sound) (hparked : s.waiter.parked = false)
    (hcpu : s.cpu = .push ∨ s.cpu = .gate ∧ s.waiter.tested = 3) : s.park.Sound := by
  rw [PauseState.park]
  split_ifs with htoken
  · refine h.parkReturned (hcpu.imp_right And.left) ?_ ?_
    · rw [Waiter.park, if_pos htoken]
    · rw [Waiter.park, if_pos htoken]
      exact hparked
  · have hpark : s.waiter.park = { s.waiter with parked := true } := by
      rw [Waiter.park, if_neg htoken]
    refine ⟨h.alert.park, h.pausing, h.quitting, ?_, ?_, fun _ => ?_, fun hpush => ?_⟩
    · rw [hpark]
      exact h.polling
    · rw [hpark]
      exact h.polled
    · rw [hpark]
      exact hcpu
    · rw [hpark]
      exact h.pushing hpush

/-- What a step of the gate or of a push is. -/
theorem gate_cases (h : s.gate = some t) :
    (s.waiter.parked = true ∧ s.waiter.token = true ∧ t = s.parkReturned .idle) ∨
      s.waiter.parked = false ∧
        (s.cpu = .push ∧ t = s.park ∨ s.cpu = .gate ∧ t = s.poll) := by
  unfold PauseState.gate at h
  split_ifs at h with hparked
  · obtain ⟨waiter, hwaiter, rfl⟩ := Option.map_eq_some_iff.1 h
    obtain ⟨⟨-, htoken⟩, hnew⟩ := Option.ite_none_right_eq_some.1 hwaiter
    exact .inl ⟨hparked, htoken, by rw [← Option.some.inj hnew]; rfl⟩
  · refine .inr ⟨Bool.not_eq_true _ ▸ hparked, ?_⟩
    split at h
    · exact .inl ⟨‹_›, (Option.some.inj h).symm⟩
    · exact .inr ⟨‹_›, (Option.some.inj h).symm⟩
    · cases h

/-- **What the loop does**: it goes on with the first flag that is set, and takes a ticket; it comes
to the next flag; or it parks. -/
theorem poll_cases (h : s.waiter.tested ≤ 3) :
    (s.waiter.tested < 3 ∧ s.flag s.waiter.tested ∧
        s.poll = { s.goOn with pauseStep := if s.waiter.tested = 2 then false else s.pauseStep }) ∨
      (s.waiter.tested < 3 ∧ ¬ s.flag s.waiter.tested ∧
        s.poll = { s with waiter := s.waiter.fail }) ∨
      s.waiter.tested = 3 ∧ s.poll = s.park := by
  unfold poll
  match htested : s.waiter.tested with
  | 0 =>
      cases hpause : s.pause with
      | true => exact .inr (.inl ⟨by decide, by rw [flag, hpause]; nofun, if_pos rfl⟩)
      | false => exact .inl ⟨by decide, hpause, if_neg nofun⟩
  | 1 =>
      cases hquit : s.quit with
      | true => exact .inl ⟨by decide, hquit, if_pos rfl⟩
      | false => exact .inr (.inl ⟨by decide, by rw [flag, hquit]; nofun, if_neg nofun⟩)
  | 2 =>
      cases hticket : s.pauseStep with
      | true => exact .inl ⟨by decide, hticket, if_pos rfl⟩
      | false => exact .inr (.inl ⟨by decide, by rw [flag, hticket]; nofun, if_neg nofun⟩)
  | 3 => exact .inr (.inr ⟨rfl, rfl⟩)
  | n + 4 => omega

/-- **A step of the gate or of a push** keeps the invariant. -/
theorem Sound.gate (h : s.Sound) (hstep : s.gate = some t) : t.Sound := by
  rcases gate_cases hstep with ⟨hparked, -, rfl⟩ | ⟨hparked, ⟨hcpu, rfl⟩ | ⟨hcpu, rfl⟩⟩
  · exact h.parkReturned ((h.parked hparked).imp_right And.left) rfl rfl
  · exact h.park hparked (.inl hcpu)
  · rcases poll_cases h.polled with ⟨-, -, hpoll⟩ | ⟨hlt, hflag, hpoll⟩ | ⟨htested, hpoll⟩
    · rw [hpoll]
      exact { h.goOn hparked with alert := Waiter.alert_of_tested rfl }
    · rw [hpoll]
      exact h.fail hcpu hparked hlt hflag
    · rw [hpoll]
      exact h.park hparked (.inr ⟨hcpu, htested⟩)

/-- **A move of the cpu thread** outside of its parks keeps the invariant. -/
theorem Sound.move (h : s.Sound) (hpush : s.cpu ≠ .push) (hgate : s.cpu ≠ .gate) (cpu : CpuPlace)
    (waiting : Bool) (hwaiting : cpu = .push → waiting = true) :
    Sound { s with cpu, waiting } where
  alert := h.alert
  pausing := h.pausing
  quitting := h.quitting
  polling _ := h.polling hgate
  polled := h.polled
  parked hp := by
    rcases h.parked hp with hcpu | ⟨hcpu, -⟩
    · exact absurd hcpu hpush
    · exact absurd hcpu hgate
  pushing hcpu := .inr (hwaiting hcpu)

/-- **A store of the main thread** that sets no flag keeps the invariant. -/
theorem Sound.mainMoved (h : s.Sound) {main : MainPhase} {pause : Bool}
    (hpause : pause = main.pauses) (hquits : main.quits = s.main.quits)
    (howes : s.main.owes = true → main.owes = true) (hset : s.pause = true → pause = true) :
    Sound { s with main, pause } where
  alert := h.alert.mono (fun i _ hi => by
    rcases i with _ | _ | _ | i
    · cases hp : s.pause with
      | false => exact hp
      | true => exact absurd (hset hp) (by rw [show pause = false from hi]; nofun)
    all_goals exact hi) howes
  pausing := hpause
  quitting := h.quitting.trans hquits.symm
  polling := h.polling
  polled := h.polled
  parked := h.parked
  pushing := h.pushing

/-- **A store of the main thread** before its unpark keeps the invariant. -/
theorem Sound.stored (h : s.Sound) (main : MainPhase) {pause quit pauseStep : Bool}
    (howes : main.owes = true) (hpause : pause = main.pauses) (hquit : quit = main.quits) :
    Sound { s with main, pause, quit, pauseStep } :=
  { h with
    alert := Waiter.alert_of_owed howes
    pausing := hpause
    quitting := hquit }

/-- `pause` and `quit`, by where the main thread is. -/
theorem Sound.at_main (h : s.Sound) {main : MainPhase} (hmain : s.main = main) :
    s.pause = main.pauses ∧ s.quit = main.quits :=
  hmain ▸ ⟨h.pausing, h.quitting⟩

/-- **A move of the main thread** within a pause keeps the invariant. -/
theorem Sound.inPause (h : s.Sound) {main : MainPhase} (main' : MainPhase) (hmain : s.main = main)
    (howes : main.owes = false) (hpauses : main'.pauses = main.pauses)
    (hquits : main'.quits = main.quits) : Sound { s with main := main' } :=
  h.mainMoved ((h.at_main hmain).1.trans hpauses.symm) (by rw [hmain, hquits])
    (by rw [hmain, howes]; nofun) id

/-- **An unpark** keeps the invariant. -/
theorem Sound.unpark (h : s.Sound) {main : MainPhase} (hpause : s.pause = main.pauses)
    (hquit : s.quit = main.quits) : (s.unpark main).Sound :=
  { h with
    alert := Waiter.alert_unpark
    pausing := hpause
    quitting := hquit
    pushing := fun _ => .inl rfl }

/-- **Every step** of every thread keeps the invariant. -/
theorem Sound.step (h : s.Sound) (hstep : s.step a = some t) : t.Sound := by
  cases a with
  | vblank =>
      obtain ⟨hcpu, hnext⟩ := Option.ite_none_right_eq_some.1 hstep
      obtain rfl := Option.some.inj hnext
      have hmoved := h.move (by rw [hcpu]; nofun) (by rw [hcpu]; nofun) .guest s.waiting nofun
      exact ⟨h.alert, h.pausing, h.quitting, fun hne => absurd rfl hne, h.polled,
        fun hp => absurd (hmoved.parked hp) (by simp), nofun⟩
  | push =>
      obtain ⟨hcpu, hnext⟩ := Option.ite_none_right_eq_some.1 hstep
      obtain rfl := Option.some.inj hnext
      exact h.move (by rw [hcpu]; nofun) (by rw [hcpu]; nofun) .push true fun _ => rfl
  | gate => exact h.gate hstep
  | wake =>
      obtain ⟨waiter, hwaiter, rfl⟩ := Option.map_eq_some_iff.1 hstep
      obtain ⟨hparked, hnew⟩ := Option.ite_none_right_eq_some.1 hwaiter
      obtain rfl := Option.some.inj hnew
      exact h.parkReturned ((h.parked hparked).imp_right And.left) rfl rfl
  | hook =>
      obtain ⟨hcpu, hnext⟩ := Option.ite_none_right_eq_some.1 hstep
      obtain rfl := Option.some.inj hnext
      have hmoved : ∀ cpu, cpu ≠ .push → Sound { s with cpu } := fun cpu hne =>
        h.move (by rw [hcpu]; nofun) (by rw [hcpu]; nofun) cpu s.waiting fun hpush => absurd hpush hne
      unfold takeRequest
      split
      · exact { hmoved (.performing _) nofun with }
      · split_ifs
        · exact { hmoved (.performing _) nofun with }
        · exact hmoved .guest nofun
  | finish bytes =>
      rw [PauseState.step] at hstep
      split at hstep
      · rename_i request hcpu
        obtain rfl := Option.some.inj hstep
        have hmoved := h.move (by rw [hcpu]; nofun) (by rw [hcpu]; nofun) .guest s.waiting nofun
        exact { hmoved with }
      · cases hstep
  | consume =>
      obtain ⟨-, hnext⟩ := Option.ite_none_right_eq_some.1 hstep
      obtain rfl := Option.some.inj hnext
      exact { h with alert := Waiter.alert_unpark, pushing := fun _ => .inl rfl }
  | quickSave screenshot =>
      obtain ⟨-, hnext⟩ := Option.ite_none_right_eq_some.1 hstep
      obtain rfl := Option.some.inj hnext
      exact { h with }
  | quickLoad =>
      obtain ⟨-, hnext⟩ := Option.ite_none_right_eq_some.1 hstep
      obtain rfl := Option.some.inj hnext
      exact { h with }
  | setPause =>
      obtain ⟨hmain, hnext⟩ := Option.ite_none_right_eq_some.1 hstep
      obtain rfl := Option.some.inj hnext
      exact h.mainMoved rfl (by rw [hmain]; rfl) (by rw [hmain]; nofun) fun _ => rfl
  | opBegin =>
      obtain ⟨hmain, hnext⟩ := Option.ite_none_right_eq_some.1 hstep
      obtain rfl := Option.some.inj hnext
      exact { h.inPause .armed hmain rfl rfl rfl with }
  | request request =>
      obtain ⟨⟨hmain, -⟩, hnext⟩ := Option.ite_none_right_eq_some.1 hstep
      obtain rfl := Option.some.inj hnext
      exact { h.inPause (.requested request) hmain rfl rfl rfl with }
  | stepPausedFrame =>
      rw [PauseState.step] at hstep
      split at hstep
      · rename_i request hmain
        obtain rfl := Option.some.inj hstep
        exact h.stored (.ticketed request) rfl (h.at_main hmain).1 (h.at_main hmain).2
      · cases hstep
  | unpark =>
      rw [PauseState.step] at hstep
      split at hstep
      · rename_i request hmain
        obtain rfl := Option.some.inj hstep
        exact h.unpark (h.at_main hmain).1 (h.at_main hmain).2
      · rename_i hmain
        obtain rfl := Option.some.inj hstep
        exact h.unpark (h.at_main hmain).1 (h.at_main hmain).2
      · rename_i hmain
        obtain rfl := Option.some.inj hstep
        exact h.unpark (h.at_main hmain).1 (h.at_main hmain).2
      · cases hstep
  | opClear =>
      rw [PauseState.step] at hstep
      split at hstep
      · rename_i request hmain
        obtain ⟨-, hnext⟩ := Option.ite_none_left_eq_some.1 hstep
        obtain rfl := Option.some.inj hnext
        exact { h.inPause .cleared hmain rfl rfl rfl with }
      · cases hstep
  | expire =>
      rw [PauseState.step] at hstep
      split at hstep
      · rename_i request hmain
        obtain rfl := Option.some.inj hstep
        exact { h.inPause .cleared hmain rfl rfl rfl with }
      · cases hstep
  | resume =>
      obtain ⟨hmain, hnext⟩ := Option.ite_none_right_eq_some.1 hstep
      obtain rfl := Option.some.inj hnext
      refine h.stored .resumed rfl rfl ?_
      rw [h.quitting]
      rcases hmain with hmain | hmain <;> rw [hmain] <;> rfl
  | setQuit =>
      obtain ⟨hmain, hnext⟩ := Option.ite_none_right_eq_some.1 hstep
      obtain rfl := Option.some.inj hnext
      refine h.stored .quitting rfl ?_ rfl
      rw [h.pausing, hmain]
      rfl
  | release =>
      obtain ⟨hmain, hnext⟩ := Option.ite_none_right_eq_some.1 hstep
      obtain rfl := Option.some.inj hnext
      refine h.stored .released rfl rfl ?_
      rw [h.quitting, hmain]
      rfl

/-! ## The gate opens -/

/-- The cpu thread goes on to its hook within some steps of its own. -/
def Leaves (s : PauseState) (n : ℕ) : Prop :=
  ∃ k ≤ n, ∃ t, (List.replicate k PauseAction.gate).foldlM PauseState.step s = some t ∧
    t.cpu = .hook ∧ t.frames = s.frames + 1

theorem Leaves.mono {m n : ℕ} (h : s.Leaves m) (hle : m ≤ n) : s.Leaves n := by
  obtain ⟨k, hk, hrest⟩ := h
  exact ⟨k, Nat.le_trans hk hle, hrest⟩

/-- One more step. -/
theorem Leaves.next {n : ℕ} (hstep : s.gate = some t) (hframes : t.frames = s.frames)
    (h : t.Leaves n) : s.Leaves (n + 1) := by
  obtain ⟨k, hk, u, hrun, hcpu, hu⟩ := h
  refine ⟨k + 1, Nat.succ_le_succ hk, u, ?_, hcpu, by rw [hu, hframes]⟩
  rw [List.replicate_succ, List.foldlM_cons]
  show s.gate.bind _ = _
  rw [hstep]
  exact hrun

/-- The step that goes on. -/
theorem leaves_one (hstep : s.gate = some t) (hcpu : t.cpu = .hook)
    (hframes : t.frames = s.frames + 1) : s.Leaves 1 :=
  ⟨1, Nat.le_refl 1, t, by
    show s.gate.bind _ = _
    rw [hstep]
    rfl, hcpu, hframes⟩

theorem gate_eq_poll (hcpu : s.cpu = .gate) (hparked : s.waiter.parked = false) :
    s.gate = some s.poll := by
  rw [PauseState.gate, if_neg (by rw [hparked]; nofun), hcpu]

/-- **A flag that is still to be tested** opens the gate. -/
theorem leaves_of_flag {n j : ℕ} (hcpu : s.cpu = .gate) (hparked : s.waiter.parked = false)
    (hn : s.waiter.tested + n = 3) (hj : s.waiter.tested ≤ j) (hflag : s.flag j) : s.Leaves n := by
  induction n generalizing s with
  | zero =>
      match j, hj with
      | j + 3, _ => exact absurd hflag id
      | 0, hj | 1, hj | 2, hj => omega
  | succ n ih =>
      have hgate := gate_eq_poll hcpu hparked
      rcases poll_cases (s := s) (by omega) with ⟨-, -, hpoll⟩ | ⟨-, hunset, hpoll⟩ | ⟨htested, -⟩
      · rw [hpoll] at hgate
        exact (leaves_one hgate rfl rfl).mono (Nat.succ_le_succ (Nat.zero_le n))
      · rw [hpoll] at hgate
        have hlt : s.waiter.tested < j := by
          refine Nat.lt_of_le_of_ne hj fun heq => hunset ?_
          rwa [heq]
        refine .next hgate rfl (ih hcpu hparked ?_ hlt hflag)
        show s.waiter.tested + 1 + n = 3
        omega
      · omega

/-- **The token** leads back to the first of the flags. -/
theorem leaves_of_token {n j : ℕ} (hcpu : s.cpu = .gate) (hparked : s.waiter.parked = false)
    (hn : s.waiter.tested + n = 3) (htoken : s.waiter.token = true) (hflag : s.flag j) :
    s.Leaves (n + 4) := by
  induction n generalizing s with
  | zero =>
      have hgate := gate_eq_poll hcpu hparked
      rcases poll_cases (s := s) (by omega) with ⟨hlt, -⟩ | ⟨hlt, -⟩ | ⟨-, hpoll⟩
      · omega
      · omega
      · rw [hpoll, PauseState.park, if_pos htoken, PauseState.parkReturned,
          if_neg (by rw [hcpu]; nofun), Waiter.park, if_pos htoken] at hgate
        exact .next hgate rfl (leaves_of_flag hcpu hparked rfl (Nat.zero_le j) hflag)
  | succ n ih =>
      have hgate := gate_eq_poll hcpu hparked
      rcases poll_cases (s := s) (by omega) with ⟨-, -, hpoll⟩ | ⟨-, -, hpoll⟩ | ⟨htested, -⟩
      · rw [hpoll] at hgate
        exact (leaves_one hgate rfl rfl).mono (by omega)
      · rw [hpoll] at hgate
        refine .next hgate rfl (ih hcpu hparked ?_ htoken hflag)
        show s.waiter.tested + 1 + n = 3
        omega
      · omega

/-- **The gate opens** when a flag is set and its unpark is over. -/
theorem Sound.leaves (h : s.Sound) (hcpu : s.cpu = .gate) (howes : s.main.owes = false) {j : ℕ}
    (hflag : s.flag j) : s.Leaves 6 := by
  have hj : j < 3 := by
    match j with
    | 0 | 1 | 2 => omega
    | j + 3 => exact absurd hflag id
  have hpolled := h.polled
  have htoken : j < s.waiter.tested → s.waiter.token = true := fun hlt =>
    (h.alert j hlt hflag).resolve_right (by rw [howes]; nofun)
  cases hparked : s.waiter.parked with
  | true =>
      obtain hpush | ⟨-, htested⟩ := h.parked hparked
      · exact absurd (hcpu.symm.trans hpush) nofun
      have hgate : s.gate = some (s.parkReturned .idle) := by
        rw [PauseState.gate, if_pos hparked, Waiter.unparked,
          if_pos ⟨hparked, htoken (htested ▸ hj)⟩]
        rfl
      rw [PauseState.parkReturned, if_neg (by rw [hcpu]; nofun)] at hgate
      exact (Leaves.next (n := 3) hgate rfl (leaves_of_flag hcpu rfl rfl (Nat.zero_le j) hflag)).mono
        (by omega)
  | false =>
      rcases Nat.lt_or_ge j s.waiter.tested with hlt | hge
      · exact (leaves_of_token (n := 3 - s.waiter.tested) hcpu hparked (by omega) (htoken hlt)
          hflag).mono (by omega)
      · exact (leaves_of_flag (n := 3 - s.waiter.tested) hcpu hparked (by omega) hge hflag).mono
          (by omega)

/-! ## A paused game -/

/-- **A step of the gate of a paused game** goes on by a ticket only. -/
theorem Sound.gate_paused (h : s.Sound) (hpause : s.pause = true) (hstep : s.gate = some t) :
    (∃ waiter cpu, t = { s with waiter, cpu } ∧ (cpu = s.cpu ∨ s.cpu = .push ∧ cpu = .guest)) ∨
      s.cpu = .gate ∧ s.pauseStep = true ∧ t = { s.goOn with pauseStep := false } := by
  have hreturned : ∀ waiter, ∃ waiter' cpu, s.parkReturned waiter = { s with waiter := waiter', cpu } ∧
      (cpu = s.cpu ∨ s.cpu = .push ∧ cpu = .guest) := by
    intro waiter
    refine ⟨waiter, _, rfl, ?_⟩
    split_ifs with hpush
    · exact .inr ⟨hpush, rfl⟩
    · exact .inl rfl
  have hpark : ∃ waiter cpu, s.park = { s with waiter, cpu } ∧
      (cpu = s.cpu ∨ s.cpu = .push ∧ cpu = .guest) := by
    rw [PauseState.park]
    split_ifs
    · exact hreturned _
    · exact ⟨_, _, rfl, .inl rfl⟩
  rcases gate_cases hstep with ⟨-, -, rfl⟩ | ⟨-, ⟨-, rfl⟩ | ⟨hcpu, rfl⟩⟩
  · exact .inl (hreturned _)
  · exact .inl hpark
  · rcases poll_cases h.polled with ⟨hlt, hflag, hpoll⟩ | ⟨-, -, hpoll⟩ | ⟨-, hpoll⟩ <;> rw [hpoll]
    · -- neither the pause nor the game is over
      have hquit : s.quit = false := by
        cases hmain : s.main <;> have hp := (h.at_main hmain).1 <;> have hq := (h.at_main hmain).2 <;>
          rw [hpause] at hp <;> first | exact hq | cases hp
      match htested : s.waiter.tested with
      | 0 => rw [htested, flag, hpause] at hflag; cases hflag
      | 1 => rw [htested, flag, hquit] at hflag; cases hflag
      | 2 =>
          rw [htested] at hflag
          exact .inr ⟨hcpu, hflag, rfl⟩
      | n + 3 => omega
    · exact .inl ⟨_, _, rfl, .inl rfl⟩
    · exact .inl hpark

theorem takeRequest_frames (s : PauseState) : s.takeRequest.frames = s.frames ∧
    s.takeRequest.pauseStep = s.pauseStep ∧ s.takeRequest.pause = s.pause := by
  unfold takeRequest
  split
  · exact ⟨rfl, rfl, rfl⟩
  · split_ifs <;> exact ⟨rfl, rfl, rfl⟩

/-- **A step of a paused game**: it stays paused until it is resumed, and it goes on to the next
frame by a ticket only. -/
theorem Sound.paused (h : s.Sound) (hpause : s.pause = true) (hstep : s.step a = some t)
    (hresume : a ≠ .resume) : t.pause = true ∧ t.frames + t.pauseStep.toNat ≤
      s.frames + s.pauseStep.toNat + if a = .stepPausedFrame then 1 else 0 := by
  have hkept : t.frames = s.frames ∧ t.pauseStep = s.pauseStep ∧ t.pause = s.pause →
      t.pause = true ∧ t.frames + t.pauseStep.toNat ≤
        s.frames + s.pauseStep.toNat + if a = .stepPausedFrame then 1 else 0 := by
    rintro ⟨hf, hs, hp⟩
    rw [hp, hf, hs]
    exact ⟨hpause, Nat.le_add_right _ _⟩
  have hmain : ∀ {main}, s.main = main → main.pauses = false → False := by
    intro main hmain hpauses
    have hp := (h.at_main hmain).1
    rw [hpause, hpauses] at hp
    cases hp
  cases a with
  | gate =>
      rcases h.gate_paused hpause hstep with ⟨waiter, cpu, rfl, -⟩ | ⟨-, hticket, rfl⟩
      · exact hkept ⟨rfl, rfl, rfl⟩
      · refine ⟨hpause, ?_⟩
        rw [hticket]
        exact Nat.le_refl _
  | stepPausedFrame =>
      rw [PauseState.step] at hstep
      split at hstep
      · obtain rfl := Option.some.inj hstep
        refine ⟨hpause, ?_⟩
        rw [if_pos rfl]
        exact Nat.add_le_add_right (Nat.le_add_right _ _) 1
      · cases hstep
  | resume => exact absurd rfl hresume
  | setPause => exact (hmain (Option.ite_none_right_eq_some.1 hstep).1 rfl).elim
  | release => exact (hmain (Option.ite_none_right_eq_some.1 hstep).1 rfl).elim
  | hook =>
      obtain ⟨-, hnext⟩ := Option.ite_none_right_eq_some.1 hstep
      obtain rfl := Option.some.inj hnext
      exact hkept s.takeRequest_frames
  | wake =>
      obtain ⟨waiter, -, rfl⟩ := Option.map_eq_some_iff.1 hstep
      exact hkept ⟨rfl, rfl, rfl⟩
  | finish bytes =>
      rw [PauseState.step] at hstep
      split at hstep
      · obtain rfl := Option.some.inj hstep
        exact hkept ⟨rfl, rfl, rfl⟩
      · cases hstep
  | unpark =>
      rw [PauseState.step] at hstep
      split at hstep
      iterate 3
        · obtain rfl := Option.some.inj hstep
          exact hkept ⟨rfl, rfl, rfl⟩
      · cases hstep
  | opClear =>
      rw [PauseState.step] at hstep
      split at hstep
      · obtain ⟨-, hnext⟩ := Option.ite_none_left_eq_some.1 hstep
        obtain rfl := Option.some.inj hnext
        exact hkept ⟨rfl, rfl, rfl⟩
      · cases hstep
  | expire =>
      rw [PauseState.step] at hstep
      split at hstep
      · obtain rfl := Option.some.inj hstep
        exact hkept ⟨rfl, rfl, rfl⟩
      · cases hstep
  | _ =>
      obtain ⟨-, hnext⟩ := Option.ite_none_right_eq_some.1 hstep
      obtain rfl := Option.some.inj hnext
      exact hkept ⟨rfl, rfl, rfl⟩

/-- **The frames of a paused game** are those of its tickets. -/
theorem Sound.paused_run (h : s.Sound) (hpause : s.pause = true) {actions : List PauseAction}
    (hresume : .resume ∉ actions) (hrun : actions.foldlM PauseState.step s = some t) :
    t.frames + t.pauseStep.toNat ≤
      s.frames + s.pauseStep.toNat + actions.count .stepPausedFrame := by
  induction actions generalizing s with
  | nil =>
      obtain rfl := Option.some.inj hrun
      exact Nat.le_refl _
  | cons a actions ih =>
      rw [List.foldlM_cons] at hrun
      obtain ⟨u, hstep, hrest⟩ := Option.bind_eq_some_iff.1 hrun
      obtain ⟨hne, hrest'⟩ := List.ne_and_not_mem_of_not_mem_cons hresume
      obtain ⟨hu, hle⟩ := h.paused hpause hstep hne.symm
      have hih := ih (h.step hstep) hu hrest' hrest
      simp only [List.count_cons, beq_iff_eq]
      omega

end PauseState

/-! ## The law -/

/-- **The pause gate**, in every state that any interleaving of the cpu thread, the audio thread and
the main thread reaches.  A cpu thread that is parked at the gate without its token is parked
rightly: the pause and the game go on and there is no ticket, unless the main thread is between its
store and its unpark.  One that is parked in a `push` without its token is waited for by the audio
thread.  When a flag is set and its unpark is over, the cpu thread comes to its hook within six steps
of its own.  And until the pause is resumed, the game goes on by as many frames as tickets were
stored, and by the ticket that was left over. -/
theorem pause_gate_law {s : PauseState} (h : Reaches PauseState.step (fun _ _ => True) .start s) :
    (s.cpu = .gate → s.waiter.parked = true → s.waiter.token = false → s.main.owes = false →
      s.pause = true ∧ s.quit = false ∧ s.pauseStep = false) ∧
    (s.cpu = .push → s.waiter.parked = true → s.waiter.token = false → s.waiting = true) ∧
    (s.cpu = .gate → s.main.owes = false →
      s.pause = false ∨ s.quit = true ∨ s.pauseStep = true → s.Leaves 6) ∧
    (s.pause = true → ∀ (actions : List PauseAction) (t : PauseState), .resume ∉ actions →
      actions.foldlM PauseState.step s = some t → t.frames + t.pauseStep.toNat ≤
        s.frames + s.pauseStep.toNat + actions.count .stepPausedFrame) := by
  have hs : s.Sound := h.invariant (fun _ _ _ hs _ hstep => hs.step hstep) PauseState.sound_start
  refine ⟨fun hcpu hparked htoken howes => ?_, fun hcpu _ htoken => ?_, fun hcpu howes hflag => ?_,
    fun hpause actions t hresume => hs.paused_run hpause hresume⟩
  · obtain hpush | ⟨-, htested⟩ := hs.parked hparked
    · exact absurd (hcpu.symm.trans hpush) nofun
    have hunset := hs.alert.flags_unset htoken (by rw [howes]; nofun)
    rw [htested] at hunset
    exact ⟨Bool.not_eq_false _ ▸ hunset 0 (by decide), Bool.not_eq_true _ ▸ hunset 1 (by decide),
      Bool.not_eq_true _ ▸ hunset 2 (by decide)⟩
  · exact (hs.pushing hcpu).resolve_left (by rw [htoken]; nofun)
  · rcases hflag with hp | hq | ht
    · exact hs.leaves hcpu howes (show s.flag 0 from hp)
    · exact hs.leaves hcpu howes (show s.flag 1 from hq)
    · exact hs.leaves hcpu howes (show s.flag 2 from ht)

/-- A paused cpu thread that is parked; the load of a savestate is requested, and it gets its
ticket. -/
def ticketRun : List PauseAction :=
  [.setPause, .vblank, .gate, .gate, .gate, .gate, .opBegin, .request (.load [1, 2]),
    .stepPausedFrame, .unpark]

def ticketState : PauseState := (ticketRun.foldlM PauseState.step .start).getD .start

/-- The parked cpu thread goes on with its ticket. -/
theorem pause_gate_law_ticket : ticketState.waiter.parked = true ∧ ticketState.Leaves 6 := by
  have hreached : Reaches PauseState.step (fun _ _ => True) .start ticketState :=
    Reaches.of_foldlM (fun _ _ _ => trivial) (show ticketRun.foldlM _ _ = some ticketState from rfl)
  exact ⟨rfl, (pause_gate_law hreached).2.2.1 rfl rfl (.inr (.inr rfl))⟩

end AdvancedSlop
