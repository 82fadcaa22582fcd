/-
# Waiting with a parking token

A thread polls some flags in turn and parks when it has found none of them set; after that, or when
it is woken for no reason, it begins again.  Parking takes the token of the thread if it is there, and
waits for it otherwise.  Who sets a flag unparks the thread afterwards, which puts the token there.

* `Waiter` : the flags the thread has found unset since it parked last, whether it is parked, and its
  token;
* `Waiter.fail`, `Waiter.park`, `Waiter.unpark`, `Waiter.wake`, `Waiter.leave` : its steps;
* `Waiter.Alert` : for a flag that was set behind its test the token is there, or it is owed;
* `Waiter.Alert.of_set`, `.fail`, `.park`, `.unpark`, `.wake` : what each step keeps of it.
-/
import Mathlib.Tactic.Common

/-- The flags a thread has found unset since it parked last, whether it is parked, and its token. -/
structure Waiter where
  tested : ℕ
  parked : Bool
  token : Bool
  deriving DecidableEq

namespace Waiter

/-- A thread that polls nothing. -/
def idle : Waiter := ⟨0, false, false⟩

/-- One more flag was unset. -/
def fail (w : Waiter) : Waiter := { w with tested := w.tested + 1 }

/-- `park`: it returns with the token, or the thread is parked. -/
def park (w : Waiter) : Waiter :=
  if w.token then { w with tested := 0, token := false } else { w with parked := true }

/-- A parked thread gets the token, and `park` returns. -/
def unparked (w : Waiter) : Option Waiter :=
  if w.parked ∧ w.token then some ⟨0, false, false⟩ else none

/-- `park` returns for no reason. -/
def wake (w : Waiter) : Option Waiter :=
  if w.parked then some { w with tested := 0, parked := false } else none

/-- `unpark`. -/
def unpark (w : Waiter) : Waiter := { w with token := true }

/-- A flag was set: the thread polls no more. -/
def leave (w : Waiter) : Waiter := { w with tested := 0 }

variable {w w' : Waiter} {flag flag' : ℕ → Prop} {owed owed' : Prop}

/-- **The invariant**: if a flag is set that the thread has found unset, the token is there, or
somebody is about to put it there. -/
def Alert (w : Waiter) (flag : ℕ → Prop) (owed : Prop) : Prop :=
  ∀ i < w.tested, flag i → w.token = true ∨ owed

theorem alert_idle : idle.Alert flag owed := fun _ hi => absurd hi (Nat.not_lt_zero _)

/-- Polling no flag loses none. -/
theorem alert_of_tested (h : w.tested = 0) : w.Alert flag owed := by
  intro i hi
  rw [h] at hi
  exact absurd hi (Nat.not_lt_zero i)

/-- **Setting a flag** keeps the invariant: the token is owed from now on. -/
theorem alert_of_owed (h : owed) : w.Alert flag owed := fun _ _ _ => .inr h

/-- **Unparking** keeps it, and owes the token no more. -/
theorem alert_unpark : w.unpark.Alert flag owed := fun _ _ _ => .inl rfl

/-- A step that sets no flag keeps it. -/
theorem Alert.mono (h : w.Alert flag owed) (hflag : ∀ i < w.tested, flag' i → flag i)
    (howed : owed → owed') : w.Alert flag' owed' :=
  fun i hi hset => (h i hi (hflag i hi hset)).imp_right howed

/-- **A test that fails** keeps it. -/
theorem Alert.fail (h : w.Alert flag owed) (hflag : ¬ flag w.tested) : w.fail.Alert flag owed := by
  intro i hi hset
  rcases Nat.lt_succ_iff_lt_or_eq.1 hi with hlt | rfl
  · exact h i hlt hset
  · exact absurd hset hflag

/-- **Parking** keeps it. -/
theorem Alert.park (h : w.Alert flag owed) : w.park.Alert flag owed := by
  unfold Waiter.park
  split_ifs with htoken
  · exact alert_of_tested rfl
  · exact h

/-- The end of a park keeps it. -/
theorem alert_unparked (h : w.unparked = some w') : w'.Alert flag owed := by
  obtain ⟨-, hw⟩ := Option.ite_none_right_eq_some.1 h
  exact alert_of_tested (by rw [← Option.some.inj hw])

theorem alert_wake (h : w.wake = some w') : w'.Alert flag owed := by
  obtain ⟨-, hw⟩ := Option.ite_none_right_eq_some.1 h
  exact alert_of_tested (by rw [← Option.some.inj hw])

/-- **No wake-up is lost**: a parked thread whose token nobody owes has it, or none of the flags it
has tested is set. -/
theorem Alert.flags_unset (h : w.Alert flag owed) (htoken : w.token = false) (howed : ¬ owed) :
    ∀ i < w.tested, ¬ flag i := by
  intro i hi hset
  rcases h i hi hset with ht | ho
  · rw [htoken] at ht
    cases ht
  · exact howed ho

end Waiter
