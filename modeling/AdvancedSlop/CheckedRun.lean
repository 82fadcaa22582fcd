/-
# Checked arithmetic and bounded loops

Arithmetic that has no result where it leaves its type, and computations with a fuel for their
loops.

* `checkInt`, `checkNat` : a number, if it is in the range of a type;
* `Ends` : a computation has one result for every fuel that is enough, with a postcondition;
* `catchUp`, `Ends.catchUp` : the loop that adds a period to a timer until it is positive.
-/
import Mathlib.Data.Int.Order.Basic
import Mathlib.Tactic.Linarith

namespace AdvancedSlop

/-! ## Checks -/

/-- A number, if a signed word of `w` bits has it. -/
def checkInt (w : ℕ) (n : ℤ) : Option ℤ :=
  if -(2 ^ (w - 1) : ℤ) ≤ n ∧ n < 2 ^ (w - 1) then some n else none

/-- A number, if an unsigned word of `w` bits has it. -/
def checkNat (w : ℕ) (n : ℤ) : Option ℕ := if 0 ≤ n ∧ n < 2 ^ w then some n.toNat else none

theorem checkInt_eq {w : ℕ} {n : ℤ} (h : -(2 ^ (w - 1) : ℤ) ≤ n ∧ n < 2 ^ (w - 1)) :
    checkInt w n = some n := if_pos h

theorem checkNat_eq {w : ℕ} {n : ℤ} (h : 0 ≤ n ∧ n < 2 ^ w) : checkNat w n = some n.toNat :=
  if_pos h

/-! ## Results for every fuel that is enough -/

/-- The computation has one result, for every fuel from `n` on, and the postcondition holds of
it. -/
def Ends {α : Type} (n : ℕ) (m : ℕ → Option α) (Q : α → Prop) : Prop :=
  ∃ a, (∀ fuel, n ≤ fuel → m fuel = some a) ∧ Q a

namespace Ends

variable {α β : Type} {n : ℕ} {m : ℕ → Option α} {Q Q' : α → Prop}

theorem some {a : α} (h : Q a) : Ends n (fun _ => some a) Q := ⟨a, fun _ _ => rfl, h⟩

theorem pure {a : α} (h : Q a) : Ends n (fun _ => Pure.pure a) Q := ⟨a, fun _ _ => rfl, h⟩

/-- **Sequence.** -/
theorem bind {k : α → ℕ → Option β} {R : β → Prop} (hm : Ends n m Q)
    (hk : ∀ a, Q a → Ends n (k a) R) : Ends n (fun fuel => m fuel >>= fun a => k a fuel) R := by
  obtain ⟨a, hresult, ha⟩ := hm
  obtain ⟨b, hrest, hb⟩ := hk a ha
  refine ⟨b, fun fuel hfuel => ?_, hb⟩
  simp only [hresult fuel hfuel]
  exact hrest fuel hfuel

theorem imp (hm : Ends n m Q) (h : ∀ a, Q a → Q' a) : Ends n m Q' := by
  obtain ⟨a, hresult, ha⟩ := hm
  exact ⟨a, hresult, h a ha⟩

theorem map {f : α → β} {R : β → Prop} (hm : Ends n m Q) (h : ∀ a, Q a → R (f a)) :
    Ends n (fun fuel => (m fuel).map f) R := by
  obtain ⟨a, hresult, ha⟩ := hm
  refine ⟨f a, fun fuel hfuel => ?_, h a ha⟩
  simp only [hresult fuel hfuel, Option.map_some]

/-- A branch that the fuel does not decide. -/
theorem ite {c : Prop} [Decidable c] {m' : ℕ → Option α} (hpos : c → Ends n m Q)
    (hneg : ¬ c → Ends n m' Q) : Ends n (fun fuel => if c then m fuel else m' fuel) Q := by
  by_cases h : c
  · simp only [if_pos h]
    exact hpos h
  · simp only [if_neg h]
    exact hneg h

theorem checkInt32 {x : ℤ} (hlo : -0x80000000 ≤ x) (hhi : x < 0x80000000) :
    Ends n (fun _ => checkInt 32 x) (· = x) := ⟨x, fun _ _ => checkInt_eq ⟨hlo, hhi⟩, rfl⟩

theorem checkNat {w : ℕ} {x : ℤ} (h : 0 ≤ x ∧ x < 2 ^ w) :
    Ends n (fun _ => checkNat w x) (· = x.toNat) := ⟨x.toNat, fun _ _ => checkNat_eq h, rfl⟩

/-- A loop over a list whose steps keep an invariant. -/
theorem foldlM {f : α → ℕ → β → Option α} {I : α → Prop}
    (hstep : ∀ a b, I a → Ends n (fun fuel => f a fuel b) I) (l : List β) {a : α} (ha : I a) :
    Ends n (fun fuel => l.foldlM (fun a b => f a fuel b) a) I := by
  induction l generalizing a with
  | nil => exact Ends.some ha
  | cons b l ih => exact (hstep a b ha).bind fun a' ha' => ih ha'

end Ends

/-! ## The catch-up loop -/

/-- `while timer <= 0 { timer += period; .. }`, with a state that each reload advances. -/
def catchUp {σ : Type} (period : ℤ) (reload : σ → Option σ) : ℕ → ℤ → σ → Option (ℤ × σ)
  | 0, _, _ => none
  | fuel + 1, timer, x =>
      if timer ≤ 0 then do
        let timer ← checkInt 32 (timer + period)
        let x ← reload x
        catchUp period reload fuel timer x
      else some (timer, x)

/-- **The loop ends** where the period is positive: each round adds at least one to the timer. -/
theorem Ends.catchUp {σ : Type} {period : ℤ} {reload : σ → Option σ} {I : σ → Prop}
    (hpos : 0 < period) (hlt : period < 2 ^ 31)
    (hreload : ∀ x, I x → ∃ x', reload x = Option.some x' ∧ I x') {n : ℕ} {timer : ℤ} {x : σ}
    (hn : 0 < n) (hfuel : 2 - timer ≤ n) (htimer : -(2 ^ 31) ≤ timer) (hx : I x) :
    Ends n (fun fuel => AdvancedSlop.catchUp period reload fuel timer x)
      fun r => 0 < r.1 ∧ r.1 ≤ max timer period ∧ I r.2 := by
  induction n generalizing timer x with
  | zero => exact absurd hn (Nat.lt_irrefl 0)
  | succ n ih =>
      by_cases hdue : timer ≤ 0
      · obtain ⟨x', hx', hI⟩ := hreload x hx
        obtain ⟨r, hrest, hr, hle, hIr⟩ :=
          ih (show 0 < n by omega) (show 2 - (timer + period) ≤ n by omega) (by omega) hI
        refine ⟨r, fun fuel hfuel => ?_, hr, by omega, hIr⟩
        obtain ⟨fuel, rfl⟩ := Nat.exists_eq_add_of_le' hfuel
        have hsum : AdvancedSlop.checkInt 32 (timer + period) = Option.some (timer + period) :=
          checkInt_eq ⟨by omega, by omega⟩
        show AdvancedSlop.catchUp period reload (fuel + n + 1) timer x = _
        rw [AdvancedSlop.catchUp, if_pos hdue, hsum]
        simp only [Option.bind_eq_bind, Option.bind_some, hx']
        exact hrest _ (by omega)
      · refine ⟨(timer, x), fun fuel hfuel => ?_, by omega, le_max_left _ _, hx⟩
        obtain ⟨fuel, rfl⟩ := Nat.exists_eq_add_of_le' hfuel
        show AdvancedSlop.catchUp period reload (fuel + n + 1) timer x = _
        rw [AdvancedSlop.catchUp, if_neg hdue]

end AdvancedSlop
