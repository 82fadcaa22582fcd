/-
# A buffer that is written back now and then

One thread writes to a buffer under a lock and sets a flag before it gives the lock back.  Another one
sleeps for a period, takes the flag, and if it was set copies the buffer to a store under the same
lock; the copy can fail and leave anything in the store.  The writer is stopped before the other
thread is told to end, which it does at its next tick.

* `State`, `step` : the two threads, and their steps in any order;
* `State.lag` : how long the flag can have been set;
* `Sound` : the invariant; `Sound.step` : every step keeps it;
* `Sound.unsaved_recent` : a write that is not in the store was marked within the lag;
* `Sound.saved_of_quiet` : with the flag clear and no copy under way, the store holds every write.
-/
import Mathlib.Data.List.Basic

namespace WriteBack

/-- The writer: it does something else, it has written and holds the lock, or it has been stopped. -/
inductive Writer where
  | idle
  | marking
  | stopped
  deriving DecidableEq

/-- The other thread: it sleeps, with the ticks of the period, it has taken the flag, it copies under
the lock, or it has ended. -/
inductive Flusher where
  | sleeping (ticks : ℕ)
  | flushing
  | copying
  | ended
  deriving DecidableEq

/-- The buffer, the flag and the store, whether the writer is still active, whether the last copy has
failed, and the two threads; and, for what is said of them, the ticks so far, the writes so far, the
tick at which each was marked, and how many of them the store holds. -/
structure State (σ ω : Type*) where
  buf : σ
  dirty : Bool
  store : σ
  active : Bool
  failed : Bool
  writer : Writer
  flusher : Flusher
  ticks : ℕ
  writes : List ω
  marks : List ℕ
  saved : ℕ

/-- The steps: a write, its mark, the stop of the writer, what tells the other thread to end, a tick,
the end of the period, the lock of a copy, and its end, with what it has left if it failed. -/
inductive Action (σ ω : Type*) where
  | write (w : ω)
  | mark
  | stop
  | deactivate
  | tick
  | take
  | lock
  | copy (failure : Option σ)

section

variable {σ ω : Type*} (apply : σ → ω → σ) (period : ℕ)

/-- Nothing has been written. -/
def start (buf store : σ) : State σ ω where
  buf := buf
  dirty := false
  store := store
  active := true
  failed := false
  writer := .idle
  flusher := .sleeping 0
  ticks := 0
  writes := []
  marks := []
  saved := 0

/-- **A step** of one of the threads. -/
def step (s : State σ ω) : Action σ ω → Option (State σ ω)
  | .write w =>
      if s.writer = .idle ∧ s.flusher ≠ .copying then
        some { s with buf := apply s.buf w, writes := s.writes ++ [w], writer := .marking }
      else none
  | .mark =>
      if s.writer = .marking then
        some { s with dirty := true, marks := s.marks ++ [s.ticks], writer := .idle }
      else none
  | .stop => if s.writer = .idle then some { s with writer := .stopped } else none
  | .deactivate => if s.writer = .stopped then some { s with active := false } else none
  | .tick => match s.flusher with
      | .sleeping k =>
          if k < period then
            if s.active then some { s with flusher := .sleeping (k + 1), ticks := s.ticks + 1 }
            else some { s with flusher := .ended }
          else none
      | _ => none
  | .take =>
      if s.flusher = .sleeping period then
        if s.dirty then some { s with dirty := false, flusher := .flushing }
        else some { s with flusher := .sleeping 0 }
      else none
  | .lock =>
      if s.flusher = .flushing ∧ s.writer ≠ .marking then some { s with flusher := .copying }
      else none
  | .copy failure =>
      if s.flusher = .copying then
        some <| match failure with
          | none => { s with
              store := s.buf, failed := false, saved := s.writes.length, flusher := .sleeping 0 }
          | some left => { s with
              store := left, failed := true, flusher := .sleeping 0 }
      else none

/-- The ticks for which the flag can have been set. -/
def State.lag (s : State σ ω) : ℕ :=
  match s.flusher with
  | .sleeping k => k
  | _ => period

/-- A copy is under way. -/
def State.copies (s : State σ ω) : Prop := s.flusher = .flushing ∨ s.flusher = .copying

instance (s : State σ ω) : Decidable s.copies :=
  inferInstanceAs (Decidable (s.flusher = .flushing ∨ s.flusher = .copying))

/-- **The invariant.**  The buffer is that of all writes; unless the last copy has failed, the store is
that of the first of them, and what is missing in it is behind the flag or the copy that is under way,
and recent. -/
structure Sound (buf store : σ) (s : State σ ω) : Prop where
  buf_eq : s.buf = s.writes.foldl apply buf
  saved_le : s.saved ≤ s.marks.length
  marks_eq : s.writes.length = s.marks.length + if s.writer = .marking then 1 else 0
  store_eq : s.failed = false →
    s.store = if s.saved = 0 then store else (s.writes.take s.saved).foldl apply buf
  marked : s.dirty = true ∨ s.copies → s.marks ≠ []
  pending : s.failed = false → s.saved < s.marks.length → s.dirty = true ∨ s.copies
  recent : s.failed = false → ∀ m ∈ s.marks.drop s.saved, s.ticks ≤ m + s.lag period
  past : ∀ m ∈ s.marks, m ≤ s.ticks
  slept : ∀ k, s.flusher = .sleeping k → k ≤ period
  exclusive : s.flusher = .copying → s.writer ≠ .marking

variable {apply period} {buf store : σ} {s t : State σ ω} {a : Action σ ω}

theorem sound_start : Sound apply period buf store (start buf store) where
  buf_eq := rfl
  saved_le := Nat.le_refl 0
  marks_eq := rfl
  store_eq _ := rfl
  marked h := by rcases h with h | h | h <;> cases h
  pending _ h := absurd h (Nat.not_lt_zero 0)
  recent _ m hm := by cases hm
  past m hm := by cases hm
  slept k h := by
    obtain rfl := Flusher.sleeping.inj h
    exact Nat.zero_le period
  exclusive h := by cases h

theorem State.lag_le (h : ∀ k, s.flusher = .sleeping k → k ≤ period) : s.lag period ≤ period := by
  unfold State.lag
  split
  · exact h _ ‹_›
  · exact Nat.le_refl period

/-- **A write** keeps the invariant. -/
theorem Sound.write (h : Sound apply period buf store s) {w : ω}
    (hstep : step apply period s (.write w) = some t) : Sound apply period buf store t := by
  obtain ⟨⟨hidle, hcopy⟩, hnext⟩ := Option.ite_none_right_eq_some.1 hstep
  obtain rfl := Option.some.inj hnext
  have hlength : s.writes.length = s.marks.length := by
    rw [h.marks_eq, hidle]
    rfl
  refine { h with
    buf_eq := by rw [h.buf_eq, List.foldl_append]; rfl
    marks_eq := by rw [List.length_append, hlength]; rfl
    store_eq := fun hfailed => ?_
    exclusive := fun hcopying => absurd hcopying hcopy }
  have hle : s.saved ≤ s.writes.length := hlength ▸ h.saved_le
  rw [h.store_eq hfailed, List.take_append_of_le_length hle]

/-- **A mark** keeps the invariant. -/
theorem Sound.mark (h : Sound apply period buf store s)
    (hstep : step apply period s .mark = some t) : Sound apply period buf store t := by
  obtain ⟨hmarking, hnext⟩ := Option.ite_none_right_eq_some.1 hstep
  obtain rfl := Option.some.inj hnext
  refine { h with
    saved_le := ?_
    marks_eq := ?_
    marked := fun _ => by simp
    pending := fun _ _ => .inl rfl
    recent := fun hfailed m hm => ?_
    past := fun m hm => ?_
    exclusive := fun _ => by simp }
  · rw [List.length_append]
    exact Nat.le_add_right_of_le h.saved_le
  · rw [h.marks_eq, hmarking, List.length_append]
    rfl
  · rw [List.drop_append_of_le_length h.saved_le, List.mem_append, List.mem_singleton] at hm
    rcases hm with hm | rfl
    · exact h.recent hfailed m hm
    · exact Nat.le_add_right _ _
  · rcases List.mem_append.1 hm with hm | hm
    · exact h.past m hm
    · exact Nat.le_of_eq (List.mem_singleton.1 hm)

/-- **A tick** keeps the invariant. -/
theorem Sound.tick (h : Sound apply period buf store s)
    (hstep : step apply period s .tick = some t) : Sound apply period buf store t := by
  rw [step] at hstep
  cases hflusher : s.flusher with
  | sleeping k =>
      rw [hflusher] at hstep
      obtain ⟨hk, hnext⟩ := Option.ite_none_right_eq_some.1 hstep
      have hcopies : ¬ s.copies := by
        unfold State.copies
        rw [hflusher]
        simp
      have hmarked : s.dirty = true → s.marks ≠ [] := fun hd => h.marked (.inl hd)
      have hpending : s.failed = false → s.saved < s.marks.length → s.dirty = true :=
        fun hf hlt => (h.pending hf hlt).resolve_right hcopies
      have hrecent : s.failed = false → ∀ m ∈ s.marks.drop s.saved, s.ticks ≤ m + k := by
        have hall := h.recent
        rw [State.lag, hflusher] at hall
        exact hall
      split_ifs at hnext with hactive
      · obtain rfl := Option.some.inj hnext
        refine { h with
          marked := fun hd => hmarked (hd.resolve_right (by simp [State.copies]))
          pending := fun hf hlt => .inl (hpending hf hlt)
          recent := fun hf m hm => Nat.succ_le_succ (hrecent hf m hm)
          past := fun m hm => Nat.le_succ_of_le (h.past m hm)
          slept := fun j hj => ?_
          exclusive := fun hcopying => by cases hcopying }
        obtain rfl := Flusher.sleeping.inj hj
        exact hk
      · obtain rfl := Option.some.inj hnext
        exact { h with
          marked := fun hd => hmarked (hd.resolve_right (by simp [State.copies]))
          pending := fun hf hlt => .inl (hpending hf hlt)
          recent := fun hf m hm =>
            Nat.le_trans (hrecent hf m hm) (Nat.add_le_add_left (Nat.le_of_lt hk) m)
          slept := fun j hj => by cases hj
          exclusive := fun hcopying => by cases hcopying }
  | _ => rw [hflusher] at hstep; cases hstep

/-- **The end of the period** keeps the invariant. -/
theorem Sound.take (h : Sound apply period buf store s)
    (hstep : step apply period s .take = some t) : Sound apply period buf store t := by
  obtain ⟨hflusher, hnext⟩ := Option.ite_none_right_eq_some.1 hstep
  have hcopies : ¬ s.copies := by
    unfold State.copies
    rw [hflusher]
    simp
  split_ifs at hnext with hdirty
  · obtain rfl := Option.some.inj hnext
    refine { h with
      marked := fun _ => h.marked (.inl hdirty)
      pending := fun _ _ => .inr (.inl rfl)
      recent := fun hf m hm => ?_
      slept := fun j hj => by cases hj
      exclusive := fun hcopying => by cases hcopying }
    have hall := h.recent hf m hm
    rw [State.lag, hflusher] at hall
    exact hall
  · obtain rfl := Option.some.inj hnext
    -- the flag is clear: nothing is missing
    have hall : s.failed = false → ¬ s.saved < s.marks.length := fun hf hlt =>
      (h.pending hf hlt).elim hdirty hcopies
    refine { h with
      marked := fun hd => absurd (hd.resolve_right (by simp [State.copies])) hdirty
      pending := fun hf hlt => absurd hlt (hall hf)
      recent := fun hf m hm => ?_
      slept := fun j hj => ?_
      exclusive := fun hcopying => by cases hcopying }
    · rw [List.drop_of_length_le (Nat.not_lt.1 (hall hf))] at hm
      cases hm
    · obtain rfl := Flusher.sleeping.inj hj
      exact Nat.zero_le period

/-- **The lock of a copy** keeps the invariant. -/
theorem Sound.lock (h : Sound apply period buf store s)
    (hstep : step apply period s .lock = some t) : Sound apply period buf store t := by
  obtain ⟨⟨hflusher, hwriter⟩, hnext⟩ := Option.ite_none_right_eq_some.1 hstep
  obtain rfl := Option.some.inj hnext
  exact { h with
    marked := fun _ => h.marked (.inr (.inl hflusher))
    pending := fun _ _ => .inr (.inr rfl)
    recent := fun hf m hm => by
      have hall := h.recent hf m hm
      rw [State.lag, hflusher] at hall
      exact hall
    slept := fun j hj => by cases hj
    exclusive := fun _ => hwriter }

/-- **A copy** keeps the invariant: the store holds every write, or the copy has failed. -/
theorem Sound.copy (h : Sound apply period buf store s) {failure : Option σ}
    (hstep : step apply period s (.copy failure) = some t) : Sound apply period buf store t := by
  obtain ⟨hflusher, hnext⟩ := Option.ite_none_right_eq_some.1 hstep
  have hmarked := h.marked (.inr (.inr hflusher))
  have hlength : s.writes.length = s.marks.length := by
    rw [h.marks_eq, if_neg (h.exclusive hflusher), Nat.add_zero]
  cases failure with
  | none =>
      obtain rfl := Option.some.inj hnext
      refine { h with
        saved_le := Nat.le_of_eq hlength
        store_eq := fun _ => ?_
        marked := fun _ => hmarked
        pending := fun _ hlt => absurd hlt (by rw [hlength]; exact Nat.lt_irrefl _)
        recent := fun _ m hm => ?_
        slept := fun j hj => ?_
        exclusive := fun hcopying => by cases hcopying }
      · rw [if_neg (by rw [hlength]; exact fun h0 => hmarked (List.eq_nil_of_length_eq_zero h0)),
          List.take_length]
        exact h.buf_eq
      · rw [List.drop_of_length_le (Nat.le_of_eq hlength.symm)] at hm
        cases hm
      · obtain rfl := Flusher.sleeping.inj hj
        exact Nat.zero_le period
  | some left =>
      obtain rfl := Option.some.inj hnext
      refine { h with
        store_eq := fun hf => by cases hf
        marked := fun _ => hmarked
        pending := fun hf => by cases hf
        recent := fun hf => by cases hf
        slept := fun j hj => ?_
        exclusive := fun hcopying => by cases hcopying }
      obtain rfl := Flusher.sleeping.inj hj
      exact Nat.zero_le period

/-- **Every step** of the two threads keeps the invariant. -/
theorem Sound.step (h : Sound apply period buf store s) (hstep : step apply period s a = some t) :
    Sound apply period buf store t := by
  cases a with
  | write w => exact h.write hstep
  | mark => exact h.mark hstep
  | stop =>
      obtain ⟨hidle, hnext⟩ := Option.ite_none_right_eq_some.1 hstep
      obtain rfl := Option.some.inj hnext
      exact { h with
        marks_eq := by rw [h.marks_eq, hidle]; rfl
        exclusive := fun _ => by simp }
  | deactivate =>
      obtain ⟨-, hnext⟩ := Option.ite_none_right_eq_some.1 hstep
      obtain rfl := Option.some.inj hnext
      exact { h with }
  | tick => exact h.tick hstep
  | take => exact h.take hstep
  | lock => exact h.lock hstep
  | copy failure => exact h.copy hstep

/-! ## What is missing in the store -/

/-- **A write that is not in the store** was marked within the lag. -/
theorem Sound.unsaved_recent (h : Sound apply period buf store s) (hfailed : s.failed = false)
    {i : ℕ} (hi : i < s.marks.length) (hsaved : s.saved ≤ i) :
    s.ticks ≤ s.marks[i] + s.lag period := by
  refine h.recent hfailed _ ?_
  rw [List.mem_iff_getElem]
  refine ⟨i - s.saved, by rw [List.length_drop]; omega, ?_⟩
  rw [List.getElem_drop]
  congr 1
  omega

/-- **With the flag clear** and no write and no copy under way, the store holds every write. -/
theorem Sound.saved_of_quiet (h : Sound apply period buf store s) (hfailed : s.failed = false)
    (hdirty : s.dirty = false) (hcopies : ¬ s.copies) (hwriter : s.writer ≠ .marking) :
    s.store = if s.writes = [] then store else s.buf := by
  have hlength : s.writes.length = s.marks.length := by
    rw [h.marks_eq, if_neg hwriter, Nat.add_zero]
  have hall : s.saved = s.writes.length := by
    refine Nat.le_antisymm (hlength ▸ h.saved_le) (Nat.not_lt.1 fun hlt => ?_)
    rcases h.pending hfailed (hlength ▸ hlt) with hd | hc
    · rw [hdirty] at hd
      cases hd
    · exact hcopies hc
  rw [h.store_eq hfailed, hall, List.take_length, h.buf_eq]
  simp only [List.length_eq_zero_iff]

end

end WriteBack
