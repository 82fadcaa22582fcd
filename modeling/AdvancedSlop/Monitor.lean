/-
# Waiting on a condition variable

Threads that share atomics, a mutex and a condition variable.  A waiter locks the mutex, tests its
predicate, and goes to sleep on the condition variable, which gives the mutex back, until the test
passes.  A setter stores without the mutex, and then takes it to notify all sleepers.

* `Phase`, `Op`, `move` : where a thread is, what it does next, and the phases afterwards;
* `Alert` : at most one thread holds the mutex, and a sleeper whose predicate holds is owed a
  notification;
* `Alert.move`, `Alert.owe`, `Alert.work` : what each step keeps of it;
* `effort`, `effort_move` : the steps that are left of those a thread has begun;
* `Alert.settled` : when none of these is left, no sleeper's predicate holds.
-/
import Mathlib.Algebra.BigOperators.Ring.Finset
import Mathlib.Algebra.Order.BigOperators.Group.Finset
import Mathlib.Data.Fintype.Card

namespace Monitor

/-- Where a thread is: outside, before the lock of a wait, at its test, after a test that failed, on
the condition variable; or before the lock of a notification, at the notification, after it. -/
inductive Phase where
  | outside
  | entering
  | testing
  | blocked
  | asleep
  | owing
  | notifying
  | leaving
  deriving DecidableEq

/-- What a thread does to the mutex and to the condition variable. -/
inductive Op where
  | enter
  | lock
  | pass
  | block
  | sleep
  | rouse
  | owe
  | notifyAll
  | unlock
  deriving DecidableEq

/-- The phases in which a thread holds the mutex. -/
def Phase.holds : Phase → Bool
  | .testing => true
  | .blocked => true
  | .notifying => true
  | .leaving => true
  | _ => false

/-- The phases between a store and its notification. -/
def Phase.owes : Phase → Bool
  | .owing => true
  | .notifying => true
  | _ => false

/-- The phases after a test that failed. -/
def Phase.waits : Phase → Bool
  | .blocked => true
  | .asleep => true
  | _ => false

/-- The phases of a wait. -/
def Phase.inWait : Phase → Bool
  | .entering => true
  | .testing => true
  | .blocked => true
  | .asleep => true
  | _ => false

/-- Where an operation leads the thread that takes it. -/
def Phase.after : Phase → Op → Option Phase
  | .outside, .enter => some .entering
  | .entering, .lock => some .testing
  | .testing, .pass => some .outside
  | .testing, .block => some .blocked
  | .blocked, .sleep => some .asleep
  | .asleep, .rouse => some .entering
  | .outside, .owe => some .owing
  | .owing, .lock => some .notifying
  | .notifying, .notifyAll => some .leaving
  | .leaving, .unlock => some .outside
  | _, _ => none

/-- Where a notification leads another thread. -/
def Phase.notified : Phase → Phase
  | .asleep => .entering
  | p => p

/-- The operations that go on with what a thread has begun.  A sleeper wakes for its timeout or for
no reason by `rouse`, which is not one of them. -/
def Op.Settles : Op → Bool
  | .enter => false
  | .rouse => false
  | .owe => false
  | _ => true

variable {ι : Type*} [DecidableEq ι] [Fintype ι]

/-- Nobody holds the mutex. -/
def Free (phase : ι → Phase) : Prop := ∀ t, (phase t).holds = false

instance (phase : ι → Phase) : Decidable (Free phase) := inferInstanceAs (Decidable (∀ _, _ = _))

/-- What an operation does to the other threads. -/
def Phase.seen (p : Phase) (op : Op) : Phase := if op = .notifyAll then p.notified else p

/-- **A thread takes an operation**; it blocks on a mutex that is held. -/
def move (phase : ι → Phase) (t : ι) (op : Op) : Option (ι → Phase) :=
  if op = .lock ∧ ¬ Free phase then none
  else ((phase t).after op).map (Function.update (fun u => (phase u).seen op) t)

variable {phase phase' : ι → Phase} {t : ι} {op : Op}

/-- What an operation can do. -/
theorem move_cases (h : move phase t op = some phase') :
    (op = .lock → Free phase) ∧ ∃ p, (phase t).after op = some p ∧
      phase' t = p ∧ ∀ u, u ≠ t → phase' u = (phase u).seen op := by
  unfold move at h
  split_ifs at h with hlock
  obtain ⟨p, hp, rfl⟩ := Option.map_eq_some_iff.1 h
  refine ⟨fun hop => ?_, p, hp, Function.update_self _ _ _, fun u hu => ?_⟩
  · by_contra hfree
    exact hlock ⟨hop, hfree⟩
  · exact Function.update_of_ne hu _ _

theorem move_ne_none {p : Phase} (hp : (phase t).after op = some p) (hfree : op = .lock → Free phase) :
    move phase t op ≠ none := by
  intro h
  unfold move at h
  rw [if_neg fun hlock => hlock.2 (hfree hlock.1), hp] at h
  cases h

theorem Phase.holds_seen (p : Phase) (op : Op) : (p.seen op).holds = p.holds := by
  cases p <;> cases op <;> rfl

/-- The mutex comes with its lock. -/
theorem Phase.holds_after {p q : Phase} (h : p.after op = some q) (hq : q.holds = true) :
    op = .lock ∨ p.holds = true := by
  revert h hq
  cases p <;> cases op <;> simp [Phase.after, Phase.holds] <;> rintro rfl <;> simp

/-- A wait begins with its call. -/
theorem Phase.inWait_after {p q : Phase} (h : p.after op = some q) (hq : q.inWait = true) :
    op = .enter ∨ p.inWait = true := by
  revert h hq
  cases p <;> cases op <;> simp [Phase.after, Phase.inWait] <;> rintro rfl <;> simp

theorem Phase.inWait_seen (p : Phase) (op : Op) : (p.seen op).inWait = p.inWait := by
  cases p <;> cases op <;> rfl

/-- A thread that owes a notification owes it until it notifies. -/
theorem Phase.owes_after {p q : Phase} (h : p.after op = some q) (hp : p.owes = true) :
    op = .notifyAll ∨ q.owes = true := by
  revert h hp
  cases p <;> cases op <;> simp only [Phase.after, Phase.owes, Option.some.injEq, reduceCtorEq,
    IsEmpty.forall_iff, true_or, implies_true]
  rintro rfl _
  exact .inr rfl

/-- A thread waits by a test that fails. -/
theorem Phase.waits_after {p q : Phase} (h : p.after op = some q) (hq : q.waits = true) :
    op = .block ∨ p.waits = true ∧ p.owes = false := by
  revert h hq
  cases p <;> cases op <;> simp [Phase.after, Phase.waits] <;> rintro rfl <;>
    simp [Phase.owes]

/-- After a notification nobody waits but one who holds the mutex. -/
theorem Phase.waits_seen {p : Phase} (h : (p.seen op).waits = true) :
    p.waits = true ∧ (op = .notifyAll → p.holds = true) := by
  revert h
  cases p <;> cases op <;> simp [Phase.seen, Phase.notified, Phase.waits, Phase.holds]

/-- The thread that notifies holds the mutex. -/
theorem Phase.notifyAll_after {p q : Phase} (h : p.after .notifyAll = some q) :
    p.holds = true ∧ q.waits = false := by
  cases p <;> simp [Phase.after] at h
  subst h
  exact ⟨rfl, rfl⟩

/-! ## The invariant -/

/-- **The invariant**: at most one thread holds the mutex, and a thread that waits although its
predicate holds is owed a notification. -/
structure Alert (ready : ι → Prop) (phase : ι → Phase) : Prop where
  exclusive : ∀ t u, (phase t).holds = true → (phase u).holds = true → t = u
  owed : ∀ t, ready t → (phase t).waits = true → ∃ u, (phase u).owes = true

variable {ready ready' : ι → Prop}

omit [DecidableEq ι] [Fintype ι] in
/-- Threads that have not begun to wait. -/
theorem Alert.of_outside (h : ∀ t, phase t = .outside) : Alert ready phase where
  exclusive t _ ht := by
    rw [h t] at ht
    cases ht
  owed t _ hw := by
    rw [h t] at hw
    cases hw

/-- **A step of the mutex or of the condition variable** keeps the invariant, when a thread blocks
only after a test that fails. -/
theorem Alert.move (h : Alert ready phase) (hmove : move phase t op = some phase')
    (hblock : op = .block → ¬ ready t) : Alert ready phase' := by
  obtain ⟨hlock, p, hp, rfl, hother⟩ := move_cases hmove
  constructor
  · intro u v hu hv
    -- the holders are those from before, or the one that has locked a free mutex
    have hheld : ∀ w, (phase' w).holds = true → (op = .lock ∧ w = t) ∨ (phase w).holds = true := by
      intro w hw
      rcases eq_or_ne w t with rfl | hwt
      · exact (Phase.holds_after hp hw).imp_left fun hop => ⟨hop, rfl⟩
      · rw [hother w hwt, Phase.holds_seen] at hw
        exact .inr hw
    rcases hheld u hu with ⟨hop, rfl⟩ | hu' <;> rcases hheld v hv with ⟨hop', rfl⟩ | hv'
    · rfl
    · exact absurd hv' (by simp [hlock hop v])
    · exact absurd hu' (by simp [hlock hop' u])
    · exact h.exclusive u v hu' hv'
  · intro u hready hwaits
    have hkept : (phase u).waits = true ∧ op ≠ .notifyAll := by
      rcases eq_or_ne u t with rfl | hut
      · rcases Phase.waits_after hp hwaits with hop | ⟨hw, -⟩
        · exact absurd hready (hblock hop)
        · refine ⟨hw, ?_⟩
          rintro rfl
          rw [(Phase.notifyAll_after hp).2] at hwaits
          cases hwaits
      · rw [hother u hut] at hwaits
        obtain ⟨hw, hheld⟩ := Phase.waits_seen hwaits
        refine ⟨hw, ?_⟩
        rintro rfl
        exact hut (h.exclusive u t (hheld rfl) (Phase.notifyAll_after hp).1)
    obtain ⟨v, hv⟩ := h.owed u hready hkept.1
    refine ⟨v, ?_⟩
    rcases eq_or_ne v t with rfl | hvt
    · exact (Phase.owes_after hp hv).resolve_left hkept.2
    · rw [hother v hvt, Phase.seen, if_neg hkept.2]
      exact hv

/-- **A store** keeps the invariant, whatever it makes of the predicates: its thread owes a
notification from now on. -/
theorem Alert.owe (h : Alert ready phase) (hmove : Monitor.move phase t .owe = some phase') :
    Alert ready' phase' where
  exclusive := (h.move hmove (fun hop => by cases hop)).exclusive
  owed _ _ _ := by
    obtain ⟨-, p, hp, hpt, -⟩ := move_cases hmove
    refine ⟨t, ?_⟩
    rw [hpt]
    cases hphase : phase t with
    | outside =>
        rw [hphase] at hp
        exact Option.some.inj hp ▸ rfl
    | _ => rw [hphase] at hp; cases hp

omit [DecidableEq ι] [Fintype ι] in
/-- **A step outside** keeps the invariant, if it makes no predicate of a waiting thread true. -/
theorem Alert.work (h : Alert ready phase)
    (hready : ∀ t, (phase t).waits = true → ready' t → ready t) : Alert ready' phase where
  exclusive := h.exclusive
  owed t ht hwaits := h.owed t (hready t hwaits ht) hwaits

/-! ## No step is left -/

/-- The steps that a thread has begun, where a notification may rouse all others. -/
def Phase.effort (n : ℕ) : Phase → ℕ
  | .outside => 0
  | .asleep => 0
  | .blocked => 1
  | .testing => 2
  | .entering => 3
  | .leaving => 1
  | .notifying => 3 * n + 2
  | .owing => 3 * n + 3

/-- **The steps that are left** of those the threads have begun, at most. -/
def effort (phase : ι → Phase) : ℕ := ∑ t, (phase t).effort (Fintype.card ι)

theorem Phase.effort_le (n : ℕ) (p : Phase) : p.effort n ≤ 3 * n + 3 := by
  cases p <;> simp only [Phase.effort] <;> omega

omit [DecidableEq ι] in
theorem effort_le (phase : ι → Phase) :
    effort phase ≤ Fintype.card ι * (3 * Fintype.card ι + 3) := by
  refine (Finset.sum_le_card_nsmul Finset.univ _ _ fun t _ => Phase.effort_le _ (phase t)).trans ?_
  rw [Finset.card_univ, Nat.nsmul_eq_mul]

theorem Phase.effort_seen (n : ℕ) (p : Phase) : (p.seen op).effort n ≤ p.effort n + 3 := by
  cases p <;> cases op <;> simp [Phase.seen, Phase.notified, Phase.effort]

theorem Phase.effort_after {n : ℕ} {p q : Phase} (h : p.after op = some q) (hop : op.Settles = true) :
    q.effort n + (if op = .notifyAll then 3 * n else 0) < p.effort n := by
  revert h hop
  cases p <;> cases op <;> simp [Phase.after, Op.Settles] <;> rintro rfl <;>
    simp only [Phase.effort] <;> omega

/-- **A thread that goes on** leaves fewer steps. -/
theorem effort_move (h : move phase t op = some phase') (hop : op.Settles = true) :
    effort phase' < effort phase := by
  obtain ⟨-, p, hp, hpt, hother⟩ := move_cases h
  have hlt := Phase.effort_after (n := Fintype.card ι) hp hop
  have hrest : ∑ u ∈ Finset.univ.erase t, (phase' u).effort (Fintype.card ι) ≤
      ∑ u ∈ Finset.univ.erase t, (phase u).effort (Fintype.card ι) +
        if op = .notifyAll then 3 * Fintype.card ι else 0 := by
    split_ifs with hall
    · calc ∑ u ∈ Finset.univ.erase t, (phase' u).effort (Fintype.card ι)
          ≤ ∑ u ∈ Finset.univ.erase t, ((phase u).effort (Fintype.card ι) + 3) := by
            refine Finset.sum_le_sum fun u hu => ?_
            rw [hother u (Finset.ne_of_mem_erase hu)]
            exact Phase.effort_seen _ _
        _ = ∑ u ∈ Finset.univ.erase t, (phase u).effort (Fintype.card ι) +
              3 * (Finset.univ.erase t).card := by
            rw [Finset.sum_add_distrib, Finset.sum_const, Nat.nsmul_eq_mul, mul_comm]
        _ ≤ _ := by
            have hcard := Finset.card_le_univ (Finset.univ.erase t)
            omega
    · refine le_of_eq (Finset.sum_congr rfl fun u hu => ?_)
      rw [hother u (Finset.ne_of_mem_erase hu), Phase.seen, if_neg hall]
  unfold effort
  rw [← Finset.add_sum_erase _ _ (Finset.mem_univ t), ← Finset.add_sum_erase _ _ (Finset.mem_univ t),
    hpt]
  omega

/-- **No wake-up is lost**: when no thread is at its test and none can go on, each is outside or
sleeps, and no sleeper's predicate holds. -/
theorem Alert.settled (h : Alert ready phase) (htest : ∀ t, phase t ≠ .testing)
    (hstuck : ∀ t op, op ≠ .pass → op ≠ .block → op.Settles = true →
      Monitor.move phase t op = none) (t : ι) :
    phase t = .outside ∨ phase t = .asleep ∧ ¬ ready t := by
  have hcan : ∀ u op p, (phase u).after op = some p → op ≠ .pass → op ≠ .block →
      op.Settles = true → op = .lock ∧ ¬ Free phase := by
    intro u op p hp hpass hblock hop
    by_contra hnot
    refine move_ne_none hp ?_ (hstuck u op hpass hblock hop)
    intro hlock
    by_contra hfree
    exact hnot ⟨hlock, hfree⟩
  -- a holder could go on, so the mutex is free
  have hfree : Free phase := by
    intro u
    cases hu : phase u with
    | testing => exact absurd hu (htest u)
    | blocked => exact nomatch (hcan u .sleep .asleep (by rw [hu]; rfl) nofun nofun rfl).1
    | notifying => exact nomatch (hcan u .notifyAll .leaving (by rw [hu]; rfl) nofun nofun rfl).1
    | leaving => exact nomatch (hcan u .unlock .outside (by rw [hu]; rfl) nofun nofun rfl).1
    | _ => rfl
  have hrest : ∀ u, phase u = .outside ∨ phase u = .asleep := by
    intro u
    have hheld := hfree u
    cases hu : phase u with
    | outside => exact .inl rfl
    | asleep => exact .inr rfl
    | entering => exact absurd hfree (hcan u .lock .testing (by rw [hu]; rfl) nofun nofun rfl).2
    | owing => exact absurd hfree (hcan u .lock .notifying (by rw [hu]; rfl) nofun nofun rfl).2
    | _ => rw [hu] at hheld; cases hheld
  refine (hrest t).imp_right fun ht => ⟨ht, fun hready => ?_⟩
  obtain ⟨u, hu⟩ := h.owed t hready (by rw [ht]; rfl)
  rcases hrest u with hu' | hu' <;> rw [hu'] at hu <;> cases hu

end Monitor
