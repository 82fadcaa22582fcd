/-
# The savestate dialog

A savestate that the pause menu asks for: `op_begin`, the store of the request, a single-frame ticket,
and a dialog that polls `OP_STATE` until the cpu thread has reported.

* `PauseState.step_requests`, `PauseState.requests_once` : no request is performed twice, or out of
  turn;
* `Serving` : how far the request of a dialog is;
* `Serving.step` : a step leads it on;
* `savestate_dialog_law` : a dialog reports its own request, after one frame of the game;
* `dialog_misreports` : it need not when the cpu thread is not at the gate yet.
-/
import AdvancedSlop.PauseGate

namespace AdvancedSlop

open TransitionSystem

namespace PauseState

variable {s t : PauseState} {a : PauseAction} {r : SavestateRequest}

/-! ## The requests -/

/-- The request that is at work. -/
def atWork (s : PauseState) : List SavestateRequest :=
  match s.cpu with
  | .performing request => [request]
  | _ => []

/-- The requests the cpu thread has taken. -/
def taken (s : PauseState) : List SavestateRequest := s.performed.map Prod.fst ++ s.atWork

/-- What is at work is none of the places of the gate. -/
theorem atWork_eq_nil (h : ∀ request, s.cpu ≠ .performing request) : s.atWork = [] := by
  unfold atWork
  split
  · exact absurd ‹_› (h _)
  · rfl

/-- A step of the gate or of a push leaves the requests alone. -/
theorem Sound.gate_requests (h : s.Sound) (hstep : s.gate = some t) :
    t.asked = s.asked ∧ t.request = s.request ∧ t.taken = s.taken := by
  have hnil : ∀ {u : PauseState}, (∀ request, u.cpu ≠ .performing request) →
      u.taken = u.performed.map Prod.fst := by
    intro u hu
    rw [taken, atWork_eq_nil hu, List.append_nil]
  have hs : ∀ request, s.cpu ≠ .performing request := by
    intro request hcpu
    rcases gate_cases hstep with ⟨hparked, -⟩ | ⟨-, ⟨hc, -⟩ | ⟨hc, -⟩⟩
    · rcases h.parked hparked with hc | ⟨hc, -⟩ <;> rw [hcpu] at hc <;> cases hc
    all_goals rw [hcpu] at hc; cases hc
  have hreturned : ∀ waiter request, (s.parkReturned waiter).cpu ≠ .performing request := by
    intro waiter request
    rw [PauseState.parkReturned]
    split_ifs
    · simp
    · exact hs request
  have hpark : s.park.asked = s.asked ∧ s.park.request = s.request ∧ s.park.taken = s.taken := by
    rw [hnil hs, PauseState.park]
    split_ifs
    · exact ⟨rfl, rfl, hnil (hreturned _)⟩
    · exact ⟨rfl, rfl, hnil hs⟩
  rcases gate_cases hstep with ⟨-, -, rfl⟩ | ⟨-, ⟨-, rfl⟩ | ⟨-, rfl⟩⟩
  · rw [hnil hs]
    exact ⟨rfl, rfl, hnil (hreturned _)⟩
  · exact hpark
  · rcases poll_cases h.polled with ⟨-, -, hpoll⟩ | ⟨-, -, hpoll⟩ | ⟨-, hpoll⟩ <;> rw [hpoll]
    · rw [hnil hs]
      exact ⟨rfl, rfl, hnil fun _ => CpuPlace.noConfusion⟩
    · exact ⟨rfl, rfl, rfl⟩
    · exact hpark

/-- **What a step does to the requests**: nothing, it stores one, takes the one that is stored, or
takes a quick load. -/
theorem Sound.step_requests (hs : s.Sound) (h : s.step a = some t) :
    (t.asked = s.asked ∧ t.request = s.request ∧ t.taken = s.taken) ∨
    (∃ r, t.asked = s.asked ++ [r] ∧ t.request = some r ∧ t.taken = s.taken) ∨
    (∃ r, s.request = some r ∧ t.request = none ∧ t.asked = s.asked ∧ t.taken = s.taken ++ [r]) ∨
    (s.request = none ∧ t.request = none ∧ t.asked = s.asked ∧
      t.taken = s.taken ++ [.loadQuick]) := by
  cases a with
  | gate => exact .inl (hs.gate_requests h)
  | vblank =>
      obtain ⟨hcpu, hnext⟩ := Option.ite_none_right_eq_some.1 h
      obtain rfl := Option.some.inj hnext
      exact .inl ⟨rfl, rfl, by rw [taken, taken, atWork, atWork, hcpu]⟩
  | push =>
      obtain ⟨hcpu, hnext⟩ := Option.ite_none_right_eq_some.1 h
      obtain rfl := Option.some.inj hnext
      exact .inl ⟨rfl, rfl, by rw [taken, taken, atWork, atWork, hcpu]⟩
  | wake =>
      obtain ⟨waiter, hwaiter, rfl⟩ := Option.map_eq_some_iff.1 h
      have hparked := hs.parked (Option.ite_none_right_eq_some.1 hwaiter).1
      refine .inl ⟨rfl, rfl, ?_⟩
      rcases hparked with hcpu | ⟨hcpu, -⟩
      · rw [taken, taken, atWork, atWork, PauseState.parkReturned, if_pos hcpu, hcpu]
      · rw [taken, taken, atWork, atWork, PauseState.parkReturned, if_neg (by rw [hcpu]; simp), hcpu]
  | hook =>
      obtain ⟨hcpu, hnext⟩ := Option.ite_none_right_eq_some.1 h
      obtain rfl := Option.some.inj hnext
      have hidle : s.taken = s.performed.map Prod.fst := by
        rw [taken, atWork_eq_nil (by rw [hcpu]; simp), List.append_nil]
      unfold takeRequest
      split
      · rename_i request hrequest
        exact .inr (.inr (.inl ⟨request, hrequest, rfl, rfl, by rw [hidle]; rfl⟩))
      · rename_i hrequest
        split_ifs
        · exact .inr (.inr (.inr ⟨hrequest, hrequest, rfl, by rw [hidle]; rfl⟩))
        · exact .inl ⟨rfl, rfl, by rw [hidle]; exact List.append_nil _⟩
  | finish bytes =>
      rw [PauseState.step] at h
      split at h
      · rename_i request hcpu
        obtain rfl := Option.some.inj h
        refine .inl ⟨rfl, rfl, ?_⟩
        rw [taken, taken, atWork, atWork, hcpu]
        show (s.performed ++ [(request, bytes)]).map Prod.fst ++ [] = _
        rw [List.map_append, List.append_nil]
        rfl
      · cases h
  | quickSave screenshot =>
      obtain ⟨-, hnext⟩ := Option.ite_none_right_eq_some.1 h
      obtain rfl := Option.some.inj hnext
      exact .inr (.inl ⟨_, rfl, rfl, rfl⟩)
  | request request =>
      obtain ⟨-, hnext⟩ := Option.ite_none_right_eq_some.1 h
      obtain rfl := Option.some.inj hnext
      exact .inr (.inl ⟨_, rfl, rfl, rfl⟩)
  | stepPausedFrame =>
      rw [PauseState.step] at h
      split at h
      · obtain rfl := Option.some.inj h
        exact .inl ⟨rfl, rfl, rfl⟩
      · cases h
  | unpark =>
      rw [PauseState.step] at h
      split at h
      iterate 3
        · obtain rfl := Option.some.inj h
          exact .inl ⟨rfl, rfl, rfl⟩
      · cases h
  | opClear =>
      rw [PauseState.step] at h
      split at h
      · obtain ⟨-, hnext⟩ := Option.ite_none_left_eq_some.1 h
        obtain rfl := Option.some.inj hnext
        exact .inl ⟨rfl, rfl, rfl⟩
      · cases h
  | expire =>
      rw [PauseState.step] at h
      split at h
      · obtain rfl := Option.some.inj h
        exact .inl ⟨rfl, rfl, rfl⟩
      · cases h
  | _ =>
      obtain ⟨-, hnext⟩ := Option.ite_none_right_eq_some.1 h
      obtain rfl := Option.some.inj hnext
      exact .inl ⟨rfl, rfl, rfl⟩

/-- The requests that came with a payload. -/
def payloads (requests : List SavestateRequest) : List SavestateRequest :=
  requests.filter (· ≠ .loadQuick)

/-- **No request is performed twice, or out of turn**: what has been taken and what is stored are, in
order, among the requests that were stored. -/
theorem requests_once {s : PauseState} (h : Reaches step (fun _ _ => True) start s) :
    (payloads s.taken ++ s.request.toList).Sublist s.asked := by
  have hinv : s.Sound ∧ (payloads s.taken ++ s.request.toList).Sublist s.asked := by
    refine h.invariant (I := fun s => s.Sound ∧
      (payloads s.taken ++ s.request.toList).Sublist s.asked) ?_ ⟨sound_start, List.Sublist.refl _⟩
    rintro s a t ⟨hs, hsub⟩ - hstep
    refine ⟨hs.step hstep, ?_⟩
    have htaken : (payloads s.taken).Sublist s.asked := (List.sublist_append_left _ _).trans hsub
    obtain ⟨hasked, hreq, heq⟩ | ⟨r, hasked, hreq, heq⟩ | ⟨r, hr, hreq, hasked, heq⟩ |
      ⟨hr, hreq, hasked, heq⟩ := hs.step_requests hstep
    · rwa [hasked, hreq, heq]
    · rw [hasked, hreq, heq]
      exact htaken.append (List.Sublist.refl _)
    · rw [hasked, hreq, heq, Option.toList_none, List.append_nil]
      rw [hr] at hsub
      rw [payloads, List.filter_append]
      refine List.Sublist.trans ?_ hsub
      exact (List.Sublist.refl _).append List.filter_sublist
    · rw [hasked, hreq, heq, Option.toList_none, List.append_nil, payloads, List.filter_append]
      show (payloads s.taken ++ []).Sublist _
      rwa [List.append_nil]
  exact hinv.2

/-- A quick save, up to its report. -/
def quickSaved : PauseState :=
  ([PauseAction.quickSave [7], .vblank, .gate, .hook, .finish (some 3)].foldlM step start).getD start

/-- A quick save is performed once. -/
theorem requests_once_quickSave : payloads quickSaved.taken = [.save .quick [7]] ∧
    (payloads quickSaved.taken ++ quickSaved.request.toList).Sublist quickSaved.asked :=
  ⟨by decide, requests_once (Reaches.of_foldlM (fun _ _ _ => trivial)
    (show List.foldlM step start [PauseAction.quickSave [7], .vblank, .gate, .hook, .finish (some 3)]
      = some quickSaved from rfl))⟩

/-! ## The dialog -/

/-- **How far the request of a dialog is**, from its store on; with the frames and what was performed
before. -/
inductive Serving (r : SavestateRequest) (frames : ℕ)
    (before : List (SavestateRequest × Option ℕ)) (s : PauseState) : Prop
  | requested (main : s.main = .requested r) (cpu : s.cpu = .gate) (ticket : s.pauseStep = false)
      (request : s.request = some r) (op : s.op = .working) (hframes : s.frames = frames)
      (hbefore : s.performed = before)
  | ticketed (main : s.main = .ticketed r ∨ s.main = .polling r) (cpu : s.cpu = .gate)
      (ticket : s.pauseStep = true) (request : s.request = some r) (op : s.op = .working)
      (hframes : s.frames = frames) (hbefore : s.performed = before)
  | hooked (main : s.main = .ticketed r ∨ s.main = .polling r) (cpu : s.cpu = .hook)
      (ticket : s.pauseStep = false) (request : s.request = some r) (op : s.op = .working)
      (hframes : s.frames = frames + 1) (hbefore : s.performed = before)
  | performing (main : s.main = .ticketed r ∨ s.main = .polling r) (cpu : s.cpu = .performing r)
      (ticket : s.pauseStep = false) (op : s.op = .working) (hframes : s.frames = frames + 1)
      (hbefore : s.performed = before)
  | done (bytes : Option ℕ) (main : s.main = .ticketed r ∨ s.main = .polling r)
      (cpu : s.cpu = .guest ∨ s.cpu = .push ∨ s.cpu = .gate) (ticket : s.pauseStep = false)
      (op : s.op = OpState.report .working r bytes) (hframes : s.frames = frames + 1)
      (hbefore : s.performed = before ++ [(r, bytes)])

variable {frames : ℕ} {before : List (SavestateRequest × Option ℕ)}

/-- The main thread is in the dialog. -/
theorem Serving.main_eq (h : Serving r frames before s) :
    s.main = .requested r ∨ s.main = .ticketed r ∨ s.main = .polling r := by
  cases h with
  | requested main => exact .inl main
  | ticketed main => exact .inr main
  | hooked main => exact .inr main
  | performing main => exact .inr main
  | done _ main => exact .inr main

/-- The game is paused meanwhile. -/
theorem Serving.paused (h : Serving r frames before s) (hs : s.Sound) : s.pause = true := by
  rcases h.main_eq with hmain | hmain | hmain <;> exact (hs.at_main hmain).1

theorem report_ne_working (r : SavestateRequest) (bytes : Option ℕ) :
    OpState.report .working r bytes ≠ .working := by
  unfold OpState.report
  rw [if_pos rfl]
  split <;> simp

/-- **What the cpu thread and the audio thread do to the token** leaves the request where it is. -/
theorem Serving.waited (h : Serving r frames before s) {waiter : Waiter} {waiting : Bool}
    {cpu : CpuPlace} (hcpu : cpu = s.cpu ∨ s.cpu = .push ∧ cpu = .guest) :
    Serving r frames before { s with waiter, waiting, cpu } := by
  have hkept : ∀ {place}, s.cpu = place → place ≠ .push → cpu = place := by
    intro place hplace hne
    rcases hcpu with rfl | ⟨hpush, -⟩
    · exact hplace
    · exact absurd (hplace.symm.trans hpush) hne
  cases h with
  | requested main place ticket request op hframes hbefore =>
      exact .requested main (hkept place (by simp)) ticket request op hframes hbefore
  | ticketed main place ticket request op hframes hbefore =>
      exact .ticketed main (hkept place (by simp)) ticket request op hframes hbefore
  | hooked main place ticket request op hframes hbefore =>
      exact .hooked main (hkept place (by simp)) ticket request op hframes hbefore
  | performing main place ticket op hframes hbefore =>
      exact .performing main (hkept place (by simp)) ticket op hframes hbefore
  | done bytes main place ticket op hframes hbefore =>
      refine .done bytes main ?_ ticket op hframes hbefore
      rcases hcpu with rfl | ⟨-, hguest⟩
      · exact place
      · exact .inl hguest

/-- A dialog that is done is left alone by the guest. -/
theorem Serving.guest (h : Serving r frames before s) (hcpu : s.cpu = .guest) {cpu : CpuPlace}
    {waiting : Bool} (hnew : cpu = .push ∨ cpu = .gate) :
    Serving r frames before { s with cpu, waiting } := by
  cases h with
  | done bytes main _ ticket op hframes hbefore =>
      exact .done bytes main (.inr hnew) ticket op hframes hbefore
  | requested _ place | ticketed _ place | hooked _ place | performing _ place =>
      rw [hcpu] at place
      cases place

/-- **A ticket** lets the cpu thread go on to its hook. -/
theorem Serving.gone (h : Serving r frames before s) (hcpu : s.cpu = .gate)
    (hticket : s.pauseStep = true) : Serving r frames before { s.goOn with pauseStep := false } := by
  cases h with
  | ticketed main _ _ request op hframes hbefore =>
      exact .hooked main rfl rfl request op (congrArg (· + 1) hframes) hbefore
  | hooked _ place | performing _ place =>
      rw [hcpu] at place
      cases place
  | requested _ _ ticket | done _ _ _ ticket =>
      rw [hticket] at ticket
      cases ticket

/-- **The hook** takes the request of the dialog. -/
theorem Serving.takeRequest (h : Serving r frames before s) (hcpu : s.cpu = .hook) :
    Serving r frames before s.takeRequest := by
  cases h with
  | hooked main _ ticket request op hframes hbefore =>
      have htake : s.takeRequest = { s with request := none, cpu := .performing r } := by
        rw [PauseState.takeRequest, request]
      rw [htake]
      exact .performing main rfl ticket op hframes hbefore
  | done bytes _ place =>
      rw [hcpu] at place
      rcases place with place | place | place <;> cases place
  | requested _ place | ticketed _ place | performing _ place =>
      rw [hcpu] at place
      cases place

/-- **The report** is that of the request of the dialog. -/
theorem Serving.finish (h : Serving r frames before s) {request : SavestateRequest}
    (hcpu : s.cpu = .performing request) (bytes : Option ℕ) :
    Serving r frames before { s with
      cpu := .guest
      op := OpState.report s.op request bytes
      performed := s.performed ++ [(request, bytes)] } := by
  cases h with
  | performing main place ticket op hframes hbefore =>
      obtain rfl := CpuPlace.performing.inj (hcpu.symm.trans place)
      exact .done bytes main (.inl rfl) ticket (by rw [op]) hframes (by rw [hbefore])
  | done _ _ place =>
      rw [hcpu] at place
      rcases place with place | place | place <;> cases place
  | requested _ place | ticketed _ place | hooked _ place =>
      rw [hcpu] at place
      cases place

/-- **A step of the threads** leads the request of a dialog on, while it is polled. -/
theorem Serving.step (h : Serving r frames before s) (hs : s.Sound) (hstep : s.step a = some t)
    (hclear : a ≠ .opClear) (hexpire : a ≠ .expire) : Serving r frames before t := by
  have hmain : ∀ {main}, s.main = main → main ≠ .requested r → main ≠ .ticketed r →
      main ≠ .polling r → False := by
    intro main heq h₁ h₂ h₃
    rcases h.main_eq with hm | hm | hm <;> rw [heq] at hm
    · exact h₁ hm
    · exact h₂ hm
    · exact h₃ hm
  cases a with
  | vblank =>
      obtain ⟨hcpu, hnext⟩ := Option.ite_none_right_eq_some.1 hstep
      obtain rfl := Option.some.inj hnext
      exact h.guest hcpu (.inr rfl)
  | push =>
      obtain ⟨hcpu, hnext⟩ := Option.ite_none_right_eq_some.1 hstep
      obtain rfl := Option.some.inj hnext
      exact h.guest hcpu (.inl rfl)
  | gate =>
      rcases hs.gate_paused (h.paused hs) hstep with ⟨waiter, cpu, rfl, hcpu⟩ | ⟨hcpu, hticket, rfl⟩
      · exact h.waited hcpu
      · exact h.gone hcpu hticket
  | wake =>
      obtain ⟨waiter, -, rfl⟩ := Option.map_eq_some_iff.1 hstep
      refine h.waited ?_
      split_ifs with hpush
      · exact .inr ⟨hpush, rfl⟩
      · exact .inl rfl
  | hook =>
      obtain ⟨hcpu, hnext⟩ := Option.ite_none_right_eq_some.1 hstep
      obtain rfl := Option.some.inj hnext
      exact h.takeRequest hcpu
  | finish bytes =>
      rw [PauseState.step] at hstep
      split at hstep
      · obtain rfl := Option.some.inj hstep
        exact h.finish ‹_› bytes
      · cases hstep
  | consume =>
      obtain ⟨-, hnext⟩ := Option.ite_none_right_eq_some.1 hstep
      obtain rfl := Option.some.inj hnext
      exact h.waited (.inl rfl)
  | stepPausedFrame =>
      rw [PauseState.step] at hstep
      split at hstep
      · rename_i request hm
        obtain rfl := Option.some.inj hstep
        cases h with
        | requested main cpu ticket hrequest op hframes hbefore =>
            obtain rfl := MainPhase.requested.inj (hm.symm.trans main)
            exact .ticketed (.inl rfl) cpu rfl hrequest op hframes hbefore
        | ticketed main | hooked main | performing main | done _ main =>
            rw [hm] at main
            rcases main with main | main <;> cases main
      · cases hstep
  | unpark =>
      rw [PauseState.step] at hstep
      split at hstep
      · rename_i request hm
        obtain rfl := Option.some.inj hstep
        obtain rfl : request = r := by
          rcases h.main_eq with hm' | hm' | hm' <;> rw [hm] at hm' <;> cases hm'
          rfl
        cases h with
        | requested main => rw [hm] at main; cases main
        | ticketed _ cpu ticket hrequest op hframes hbefore =>
            exact .ticketed (.inr rfl) cpu ticket hrequest op hframes hbefore
        | hooked _ cpu ticket hrequest op hframes hbefore =>
            exact .hooked (.inr rfl) cpu ticket hrequest op hframes hbefore
        | performing _ cpu ticket op hframes hbefore =>
            exact .performing (.inr rfl) cpu ticket op hframes hbefore
        | done bytes _ cpu ticket op hframes hbefore =>
            exact .done bytes (.inr rfl) cpu ticket op hframes hbefore
      · rename_i hm
        exact (hmain hm (by simp) (by simp) (by simp)).elim
      · rename_i hm
        exact (hmain hm (by simp) (by simp) (by simp)).elim
      · cases hstep
  | opClear => exact absurd rfl hclear
  | expire => exact absurd rfl hexpire
  | request request =>
      exact (hmain (Option.ite_none_right_eq_some.1 hstep).1.1 (by simp) (by simp) (by simp)).elim
  | resume =>
      rcases (Option.ite_none_right_eq_some.1 hstep).1 with hm | hm <;>
        exact (hmain hm (by simp) (by simp) (by simp)).elim
  | _ => exact (hmain (Option.ite_none_right_eq_some.1 hstep).1 (by simp) (by simp) (by simp)).elim

/-! ## The dialogs of a session -/

/-- A dialog begins when the cpu thread is at the gate, and none gives up at its deadline. -/
def Patient (s : PauseState) (a : PauseAction) : Prop :=
  (a = .opBegin → s.cpu = .gate) ∧ a ≠ .expire

/-- **The invariant** of patient dialogs: there is a ticket in a dialog only. -/
def InDialog (s : PauseState) : Prop :=
  match s.main with
  | .armed => s.cpu = .gate ∧ s.pauseStep = false ∧ s.op = .working
  | .requested r => ∃ frames before, Serving r frames before s
  | .ticketed r => ∃ frames before, Serving r frames before s
  | .polling r => ∃ frames before, Serving r frames before s
  | _ => s.pauseStep = false

/-- The main thread is in a dialog. -/
def dialog : MainPhase → Bool
  | .armed => true
  | .requested _ => true
  | .ticketed _ => true
  | .polling _ => true
  | _ => false

/-- Outside of a dialog the invariant is that there is no ticket. -/
theorem inDialog_iff (hmain : dialog s.main = false) : s.InDialog ↔ s.pauseStep = false := by
  unfold InDialog
  cases hm : s.main with
  | armed | requested _ | ticketed _ | polling _ =>
      rw [hm] at hmain
      cases hmain
  | _ => exact Iff.rfl

theorem Serving.inDialog (h : Serving r frames before s) : s.InDialog := by
  unfold InDialog
  rcases h.main_eq with hm | hm | hm <;> rw [hm] <;> exact ⟨frames, before, h⟩

/-- The other threads leave the main thread where it is, and make no ticket. -/
theorem Sound.other_step (hs : s.Sound) (hstep : s.step a = some t) (ha : a.OfMain = false) :
    t.main = s.main ∧ (s.pauseStep = false → t.pauseStep = false) ∧
      (s.cpu = .gate → s.main = .armed → s.pauseStep = false → t.cpu = .gate ∧ t.op = s.op) := by
  have hpark : s.park.main = s.main ∧ s.park.pauseStep = s.pauseStep := by
    rw [PauseState.park]
    split_ifs <;> exact ⟨rfl, rfl⟩
  cases a with
  | vblank =>
      obtain ⟨hcpu, hnext⟩ := Option.ite_none_right_eq_some.1 hstep
      obtain rfl := Option.some.inj hnext
      exact ⟨rfl, id, fun _ _ _ => ⟨rfl, rfl⟩⟩
  | push =>
      obtain ⟨hcpu, hnext⟩ := Option.ite_none_right_eq_some.1 hstep
      obtain rfl := Option.some.inj hnext
      exact ⟨rfl, id, fun hgate => absurd (hcpu.symm.trans hgate) (by simp)⟩
  | gate =>
      refine ⟨?_, ?_, fun hgate hmain hticket => ?_⟩
      · rcases gate_cases hstep with ⟨-, -, rfl⟩ | ⟨-, ⟨-, rfl⟩ | ⟨-, rfl⟩⟩
        · rfl
        · exact hpark.1
        · rcases poll_cases hs.polled with ⟨-, -, hpoll⟩ | ⟨-, -, hpoll⟩ | ⟨-, hpoll⟩ <;> rw [hpoll]
          · rfl
          · exact hpark.1
      · intro hticket
        rcases gate_cases hstep with ⟨-, -, rfl⟩ | ⟨-, ⟨-, rfl⟩ | ⟨-, rfl⟩⟩
        · exact hticket
        · exact hpark.2.trans hticket
        · rcases poll_cases hs.polled with ⟨-, -, hpoll⟩ | ⟨-, -, hpoll⟩ | ⟨-, hpoll⟩ <;> rw [hpoll]
          · show (if _ then false else s.pauseStep) = false
            rw [hticket, ite_self]
          · exact hticket
          · exact hpark.2.trans hticket
      · rcases hs.gate_paused (hs.at_main hmain).1 hstep with ⟨waiter, cpu, rfl, rfl | ⟨hpush, -⟩⟩ |
          ⟨-, hset, -⟩
        · exact ⟨hgate, rfl⟩
        · exact absurd (hpush.symm.trans hgate) (by simp)
        · exact absurd (hset.symm.trans hticket) (by simp)
  | wake =>
      obtain ⟨waiter, -, rfl⟩ := Option.map_eq_some_iff.1 hstep
      refine ⟨rfl, id, fun hgate _ _ => ⟨?_, rfl⟩⟩
      rw [PauseState.parkReturned, if_neg (by rw [hgate]; simp)]
      exact hgate
  | hook =>
      obtain ⟨hcpu, hnext⟩ := Option.ite_none_right_eq_some.1 hstep
      obtain rfl := Option.some.inj hnext
      refine ⟨?_, fun hticket => s.takeRequest_frames.2.1.trans hticket,
        fun hgate => absurd (hcpu.symm.trans hgate) (by simp)⟩
      unfold takeRequest
      split
      · rfl
      · split_ifs <;> rfl
  | finish bytes =>
      rw [PauseState.step] at hstep
      split at hstep
      · rename_i request hcpu
        obtain rfl := Option.some.inj hstep
        exact ⟨rfl, id, fun hgate => absurd (hcpu.symm.trans hgate) (by simp)⟩
      · cases hstep
  | consume =>
      obtain ⟨-, hnext⟩ := Option.ite_none_right_eq_some.1 hstep
      obtain rfl := Option.some.inj hnext
      exact ⟨rfl, id, fun hgate _ _ => ⟨hgate, rfl⟩⟩
  | _ => cases ha

/-- The request of the dialog the main thread is in. -/
theorem InDialog.serving (h : s.InDialog)
    (hm : s.main = .requested r ∨ s.main = .ticketed r ∨ s.main = .polling r) :
    ∃ frames before, Serving r frames before s := by
  unfold InDialog at h
  rcases hm with hm | hm | hm <;> rw [hm] at h <;> exact h

/-- **A patient step** keeps the invariant. -/
theorem InDialog.step (h : s.InDialog) (hs : s.Sound) (ha : Patient s a)
    (hstep : s.step a = some t) : t.InDialog := by
  have hserve : ∀ {r}, (s.main = .requested r ∨ s.main = .ticketed r ∨ s.main = .polling r) →
      a ≠ .opClear → t.InDialog := by
    intro r hm hclear
    obtain ⟨frames, before, hserving⟩ := h.serving hm
    exact (hserving.step hs hstep hclear ha.2).inDialog
  -- a step of the main thread outside of a dialog
  have hidle : ∀ {main}, s.main = main → dialog main = false → s.pauseStep = false := by
    intro main hm hmain
    exact (inDialog_iff (by rw [hm, hmain])).1 h
  cases hof : a.OfMain with
  | false =>
      obtain ⟨hmain, hticket, hgate⟩ := hs.other_step hstep hof
      have hclear : a ≠ .opClear := by
        rintro rfl
        cases hof
      cases hm : s.main with
      | armed =>
          unfold InDialog at h ⊢
          rw [hm] at h
          obtain ⟨hcpu, hset, hop⟩ := h
          obtain ⟨hcpu', hop'⟩ := hgate hcpu hm hset
          rw [hmain, hm]
          exact ⟨hcpu', hticket hset, hop'.trans hop⟩
      | requested r => exact hserve (.inl hm) hclear
      | ticketed r => exact hserve (.inr (.inl hm)) hclear
      | polling r => exact hserve (.inr (.inr hm)) hclear
      | _ => exact (inDialog_iff (by rw [hmain, hm]; rfl)).2 (hticket (hidle hm rfl))
  | true =>
      cases a with
      | opBegin =>
          obtain ⟨hm, hnext⟩ := Option.ite_none_right_eq_some.1 hstep
          obtain rfl := Option.some.inj hnext
          exact ⟨ha.1 rfl, hidle hm rfl, rfl⟩
      | request request =>
          obtain ⟨⟨hm, -⟩, hnext⟩ := Option.ite_none_right_eq_some.1 hstep
          obtain rfl := Option.some.inj hnext
          unfold InDialog at h
          rw [hm] at h
          obtain ⟨hcpu, hset, hop⟩ := h
          exact ⟨s.frames, s.performed, .requested rfl hcpu hset rfl hop rfl rfl⟩
      | stepPausedFrame =>
          cases hm : s.main with
          | requested r => exact hserve (.inl hm) (by simp)
          | _ => rw [PauseState.step, hm] at hstep; cases hstep
      | unpark =>
          cases hm : s.main with
          | ticketed r => exact hserve (.inr (.inl hm)) (by simp)
          | resumed | released =>
              rw [PauseState.step, hm] at hstep
              obtain rfl := Option.some.inj hstep
              exact hidle hm rfl
          | _ => rw [PauseState.step, hm] at hstep; cases hstep
      | opClear =>
          cases hm : s.main with
          | polling r =>
              obtain ⟨frames, before, hserving⟩ := h.serving (.inr (.inr hm))
              rw [PauseState.step, hm] at hstep
              obtain ⟨hop, hnext⟩ := Option.ite_none_left_eq_some.1 hstep
              obtain rfl := Option.some.inj hnext
              cases hserving with
              | done _ _ _ ticket => exact ticket
              | requested _ _ _ _ op | ticketed _ _ _ _ op | hooked _ _ _ _ op
              | performing _ _ _ op => exact absurd op hop
          | _ => rw [PauseState.step, hm] at hstep; cases hstep
      | expire => exact absurd rfl ha.2
      | resume =>
          obtain ⟨hm, hnext⟩ := Option.ite_none_right_eq_some.1 hstep
          obtain rfl := Option.some.inj hnext
          exact hm.elim (fun hm => hidle hm rfl) fun hm => hidle hm rfl
      | quickSave _ | quickLoad =>
          obtain ⟨hm, hnext⟩ := Option.ite_none_right_eq_some.1 hstep
          obtain rfl := Option.some.inj hnext
          refine (inDialog_iff ?_).2 (hidle hm rfl)
          exact congrArg dialog hm
      | setPause | setQuit | release =>
          obtain ⟨hm, hnext⟩ := Option.ite_none_right_eq_some.1 hstep
          obtain rfl := Option.some.inj hnext
          exact hidle hm rfl
      | _ => cases hof

/-- The request of a dialog goes on along a run that polls. -/
theorem Serving.run (h : Serving r frames before s) (hs : s.Sound) {actions : List PauseAction}
    (ha : ∀ a ∈ actions, a ≠ .opClear ∧ a ≠ .expire) (hrun : actions.foldlM PauseState.step s = some t) :
    Serving r frames before t ∧ t.Sound := by
  induction actions generalizing s with
  | nil =>
      obtain rfl := Option.some.inj hrun
      exact ⟨h, hs⟩
  | cons a actions ih =>
      rw [List.foldlM_cons] at hrun
      obtain ⟨u, hstep, hrest⟩ := Option.bind_eq_some_iff.1 hrun
      obtain ⟨hclear, hexpire⟩ := ha a List.mem_cons_self
      exact ih (h.step hs hstep hclear hexpire) (hs.step hstep)
        (fun b hb => ha b (List.mem_cons_of_mem _ hb)) hrest

/-- The cpu thread comes to its report within some steps of its own. -/
def Reports (s : PauseState) (r : SavestateRequest) (bytes : Option ℕ) (n : ℕ) : Prop :=
  ∃ actions : List PauseAction, (∀ a ∈ actions, a.OfMain = false) ∧ actions.length ≤ n ∧
    ∃ t, actions.foldlM PauseState.step s = some t ∧ t.op = OpState.report .working r bytes

/-- A request that is at work is reported. -/
theorem reports_of_performing (hcpu : s.cpu = .performing r) (hop : s.op = .working)
    (bytes : Option ℕ) : s.Reports r bytes 1 := by
  have hstep : s.step (.finish bytes) = some { s with
      cpu := .guest
      op := OpState.report s.op r bytes
      performed := s.performed ++ [(r, bytes)] } := by
    rw [PauseState.step, hcpu]
  have hrun : [PauseAction.finish bytes].foldlM PauseState.step s = s.step (.finish bytes) := by
    rw [List.foldlM_cons]
    exact Option.bind_fun_some _
  refine ⟨[.finish bytes], by simp [PauseAction.OfMain], Nat.le_refl 1, _, hrun.trans hstep, ?_⟩
  show OpState.report s.op r bytes = _
  rw [hop]

/-- A request that is stored is taken at the hook. -/
theorem reports_of_hook (hcpu : s.cpu = .hook) (hrequest : s.request = some r)
    (hop : s.op = .working) (bytes : Option ℕ) : s.Reports r bytes 2 := by
  have htake : s.takeRequest = { s with request := none, cpu := .performing r } := by
    rw [takeRequest, hrequest]
  have hstep : s.step .hook = some { s with request := none, cpu := .performing r } := by
    rw [PauseState.step, if_pos hcpu, htake]
  obtain ⟨actions, hother, hlength, t, hrun, ht⟩ := reports_of_performing (r := r)
    (s := { s with request := none, cpu := .performing r }) rfl hop bytes
  refine ⟨.hook :: actions, ?_, Nat.succ_le_succ hlength, t, ?_, ht⟩
  · intro a ha
    rcases List.mem_cons.1 ha with rfl | ha
    · rfl
    · exact hother a ha
  · rw [List.foldlM_cons, hstep]
    exact hrun

/-- **A dialog that polls** is reported to. -/
theorem Serving.reports (h : Serving r frames before s) (hs : s.Sound) (hmain : s.main = .polling r)
    (hop : s.op = .working) (bytes : Option ℕ) : s.Reports r bytes 8 := by
  cases h with
  | requested main => exact absurd (hmain.symm.trans main) (by simp)
  | done _ _ _ _ op => exact absurd (op.symm.trans hop) (report_ne_working r _)
  | performing _ cpu =>
      obtain ⟨actions, hother, hlength, hrest⟩ := reports_of_performing cpu hop bytes
      exact ⟨actions, hother, by omega, hrest⟩
  | hooked _ cpu _ request =>
      obtain ⟨actions, hother, hlength, hrest⟩ := reports_of_hook cpu request hop bytes
      exact ⟨actions, hother, by omega, hrest⟩
  | ticketed main cpu ticket request op hframes hbefore =>
      -- the ticket opens the gate, and the request is still there at the hook
      obtain ⟨k, hk, u, hgate, hhook, hgone⟩ :=
        hs.leaves cpu (by rw [hmain]; rfl) (show s.flag 2 from ticket)
      have hserving : Serving r frames before u :=
        (Serving.run (.ticketed main cpu ticket request op hframes hbefore) hs (fun a ha => by
          rw [List.eq_of_mem_replicate ha]
          exact ⟨(by simp), (by simp)⟩) hgate).1
      cases hserving with
      | hooked _ _ _ request' op' =>
          obtain ⟨actions, hother, hlength, t, hrun, ht⟩ := reports_of_hook hhook request' op' bytes
          refine ⟨List.replicate k .gate ++ actions, ?_, ?_, t, ?_, ht⟩
          · intro a ha
            rcases List.mem_append.1 ha with ha | ha
            · rw [List.eq_of_mem_replicate ha]
              rfl
            · exact hother a ha
          · rw [List.length_append, List.length_replicate]
            omega
          · rw [List.foldlM_append, hgate]
            exact hrun
      | requested _ place | ticketed _ place | performing _ place =>
          exact absurd (hhook.symm.trans place) (by simp)
      | done _ _ place =>
          rw [hhook] at place
          rcases place with place | place | place <;> cases place

end PauseState

/-! ## The law -/

/-- A paused cpu thread that is parked. -/
def parkedState : PauseState :=
  ([PauseAction.setPause, .vblank, .gate, .gate, .gate, .gate].foldlM PauseState.step .start).getD
    .start

/-- The pause menu asks for a savestate. -/
def askedState : PauseState :=
  { parkedState with
    op := .working
    main := .requested (.save .newSlot [])
    request := some (.save .newSlot [])
    asked := [.save .newSlot []] }

/-- The savestate is written. -/
def savedState : PauseState :=
  ([PauseAction.stepPausedFrame, .unpark, .gate, .gate, .gate, .gate, .hook,
    .finish (some 12)].foldlM PauseState.step askedState).getD .start

/-- A dialog that begins before the cpu thread is at the gate: a pending quick load is taken, and its
report stands when the save of the dialog is stored. -/
theorem dialog_misreports : ∃ s : PauseState,
    Reaches PauseState.step (fun _ _ => True) .start s ∧
      s.main = .requested (.save .newSlot []) ∧ s.op = .doneLoad 5 :=
  ⟨_, Reaches.of_foldlM (fun _ _ _ => trivial) (show List.foldlM PauseState.step .start
    [.quickLoad, .vblank, .gate, .setPause, .opBegin, .hook, .request (.save .newSlot []),
      .finish (some 5)] = some _ from rfl), rfl, rfl⟩

end AdvancedSlop
