/-
# Prescaled counters with a reload value

A counter below `top` that advances once in `divisor` clock ticks and restarts from `reload`
when it overflows.  The state is the value and the ticks since the value last changed; what
decides the future is the number of ticks left to the overflow.

* `advance_remaining` : after `n` ticks the ticks left are the old ones, less `n`, plus whole
  periods;
* `value_eq` : the value is what the ticks left say;
* `advance_start` : the closed form, `reload + n / divisor` modulo the period.
-/
import Mathlib.Tactic

namespace ReloadCounter

/-- A counter: its value, and the ticks since it last changed. -/
structure Counter where
  value : ℕ
  phase : ℕ
  deriving DecidableEq, Repr

variable {top divisor reload : ℕ}

/-- One tick. -/
def tick (top divisor reload : ℕ) (c : Counter) : Counter :=
  if c.phase + 1 < divisor then ⟨c.value, c.phase + 1⟩
  else if c.value + 1 < top then ⟨c.value + 1, 0⟩
  else ⟨reload, 0⟩

/-- Any number of ticks. -/
def advance (top divisor reload : ℕ) : ℕ → Counter → Counter
  | 0, c => c
  | n + 1, c => tick top divisor reload (advance top divisor reload n c)

/-- The value is below `top` and the phase below `divisor`. -/
structure Valid (top divisor : ℕ) (c : Counter) : Prop where
  value_lt : c.value < top
  phase_lt : c.phase < divisor

/-- The ticks left to the overflow. -/
def remaining (top divisor : ℕ) (c : Counter) : ℕ := (top - c.value) * divisor - c.phase

/-- The ticks from one overflow to the next. -/
def period (top divisor reload : ℕ) : ℕ := (top - reload) * divisor

theorem remaining_start (top divisor v : ℕ) : remaining top divisor ⟨v, 0⟩ = (top - v) * divisor :=
  rfl

/-- A whole number of steps is left, less the phase. -/
theorem exists_steps {c : Counter} (h : Valid top divisor c) :
    ∃ k, top = c.value + (k + 1) ∧ remaining top divisor c + c.phase = k * divisor + divisor := by
  obtain ⟨k, hk⟩ : ∃ k, top = c.value + (k + 1) := ⟨top - c.value - 1, by have := h.value_lt; omega⟩
  refine ⟨k, hk, ?_⟩
  have hphase := h.phase_lt
  have hsteps : top - c.value = k + 1 := by omega
  unfold remaining
  rw [hsteps, Nat.succ_mul]
  omega

theorem remaining_pos {c : Counter} (h : Valid top divisor c) : 0 < remaining top divisor c := by
  obtain ⟨k, -, hk⟩ := exists_steps h
  have := h.phase_lt
  omega

theorem Valid.tick {c : Counter} (h : Valid top divisor c) (hreload : reload < top) :
    Valid top divisor (tick top divisor reload c) := by
  have hpos : 0 < divisor := Nat.zero_lt_of_lt h.phase_lt
  unfold ReloadCounter.tick
  split
  · exact ⟨h.value_lt, by assumption⟩
  · split
    · exact ⟨by assumption, hpos⟩
    · exact ⟨hreload, hpos⟩

theorem Valid.advance {c : Counter} (h : Valid top divisor c) (hreload : reload < top) (n : ℕ) :
    Valid top divisor (advance top divisor reload n c) := by
  induction n with
  | zero => exact h
  | succ n ih => exact ih.tick hreload

/-- A tick takes one off the ticks left, or starts a new period. -/
theorem tick_remaining {c : Counter} (h : Valid top divisor c) (reload : ℕ) :
    (1 < remaining top divisor c ∧
        remaining top divisor (tick top divisor reload c) + 1 = remaining top divisor c) ∨
      (remaining top divisor c = 1 ∧
        remaining top divisor (tick top divisor reload c) = period top divisor reload) := by
  obtain ⟨k, htop, hk⟩ := exists_steps h
  have hphase := h.phase_lt
  unfold tick
  by_cases hp : c.phase + 1 < divisor
  · left
    rw [if_pos hp]
    have hnext : Valid top divisor ⟨c.value, c.phase + 1⟩ := ⟨h.value_lt, hp⟩
    obtain ⟨k', htop', hk'⟩ := exists_steps hnext
    obtain rfl : k = k' := by simp only at htop'; omega
    simp only at hk'
    omega
  · rw [if_neg hp]
    by_cases hv : c.value + 1 < top
    · left
      rw [if_pos hv]
      have hnext : Valid top divisor ⟨c.value + 1, 0⟩ := ⟨hv, Nat.zero_lt_of_lt hphase⟩
      obtain ⟨k', htop', hk'⟩ := exists_steps hnext
      obtain rfl : k = k' + 1 := by simp only at htop'; omega
      simp only at hk'
      rw [Nat.succ_mul] at hk
      omega
    · right
      rw [if_neg hv]
      obtain rfl : k = 0 := by omega
      exact ⟨by omega, remaining_start _ _ _⟩

/-- **The ticks left after `n` ticks.** -/
theorem advance_remaining {c : Counter} (h : Valid top divisor c) (hreload : reload < top)
    (n : ℕ) :
    ∃ j, remaining top divisor c + j * period top divisor reload =
        n + remaining top divisor (advance top divisor reload n c) ∧
      (0 < j → remaining top divisor (advance top divisor reload n c) ≤
        period top divisor reload) := by
  induction n with
  | zero => exact ⟨0, by simp [advance], by simp⟩
  | succ n ih =>
      obtain ⟨j, hj, hle⟩ := ih
      rcases tick_remaining (h.advance hreload n) reload with ⟨-, ht⟩ | ⟨hone, ht⟩
      · refine ⟨j, ?_, fun h0 => ?_⟩
        · rw [advance]
          omega
        · have := hle h0
          rw [advance]
          omega
      · refine ⟨j + 1, ?_, fun _ => ?_⟩
        · rw [advance, Nat.succ_mul]
          omega
        · rw [advance, ht]

/-- The steps left, rounded up, are what the value lacks. -/
theorem value_eq {c : Counter} (h : Valid top divisor c) :
    c.value = top - (remaining top divisor c + divisor - 1) / divisor := by
  obtain ⟨k, htop, hk⟩ := exists_steps h
  have hphase := h.phase_lt
  have hdiv : (remaining top divisor c + divisor - 1) / divisor = k + 1 := by
    apply Nat.div_eq_of_lt_le
    · rw [Nat.succ_mul]
      omega
    · rw [Nat.succ_mul, Nat.succ_mul]
      omega
  omega

/-- The ticks left are a whole number of steps exactly when the value has just changed. -/
theorem dvd_remaining_iff {c : Counter} (h : Valid top divisor c) :
    divisor ∣ remaining top divisor c ↔ c.phase = 0 := by
  obtain ⟨k, -, hk⟩ := exists_steps h
  have hsteps : divisor ∣ k * divisor + divisor := ⟨k + 1, by ring⟩
  constructor
  · intro hdvd
    have hphase : divisor ∣ c.phase := (Nat.dvd_add_right hdvd).mp (hk ▸ hsteps)
    exact Nat.eq_zero_of_dvd_of_lt hphase h.phase_lt
  · intro h0
    rw [h0, Nat.add_zero] at hk
    exact hk ▸ hsteps

/-- The steps left, rounded down: one less between two changes of the value. -/
theorem remaining_div {c : Counter} (h : Valid top divisor c) :
    remaining top divisor c / divisor + c.value = if c.phase = 0 then top else top - 1 := by
  obtain ⟨k, htop, hk⟩ := exists_steps h
  have hphase := h.phase_lt
  split
  · have hdiv : remaining top divisor c / divisor = k + 1 := by
      apply Nat.div_eq_of_lt_le
      · rw [Nat.succ_mul]
        omega
      · rw [Nat.succ_mul, Nat.succ_mul]
        omega
    omega
  · have hdiv : remaining top divisor c / divisor = k := by
      apply Nat.div_eq_of_lt_le
      · omega
      · rw [Nat.succ_mul]
        omega
    omega

/-- **The value of a counter that overflowed `late` ticks ago**, some periods included. -/
theorem value_of_overflowed {c : Counter} (h : Valid top divisor c) (hreload : reload < top)
    {late j : ℕ} (hj : j * period top divisor reload = late + remaining top divisor c)
    (hle : remaining top divisor c ≤ period top divisor reload) :
    c.value = reload + late / divisor % (top - reload) := by
  obtain ⟨k, htop, hk⟩ := exists_steps h
  have hphase := h.phase_lt
  have hpos : 0 < divisor := Nat.zero_lt_of_lt hphase
  obtain ⟨span, hspan⟩ : ∃ span, top = reload + span := ⟨top - reload, by omega⟩
  have hperiod : period top divisor reload = span * divisor := by
    rw [period, show top - reload = span by omega]
  rw [hperiod] at hj hle
  -- the steps left fit into one period
  have hfit : k + 1 ≤ span := by
    have : k * divisor < span * divisor := by omega
    exact Nat.lt_of_mul_lt_mul_right this
  obtain ⟨i, rfl⟩ : ∃ i, j = i + 1 := by
    refine ⟨j - 1, ?_⟩
    have := remaining_pos h
    rcases j with _ | j
    · rw [Nat.zero_mul] at hj
      omega
    · omega
  have hlate : late = (i * span + (span - (k + 1))) * divisor + c.phase := by
    obtain ⟨gap, rfl⟩ : ∃ gap, span = k + 1 + gap := ⟨span - (k + 1), by omega⟩
    have hsub : k + 1 + gap - (k + 1) = gap := by omega
    rw [hsub]
    have hexp : (i + 1) * ((k + 1 + gap) * divisor) =
        (i * (k + 1 + gap) + gap) * divisor + (k * divisor + divisor) := by ring
    omega
  have hdiv : late / divisor = i * span + (span - (k + 1)) := by
    rw [hlate, Nat.add_comm, Nat.add_mul_div_right _ _ hpos, Nat.div_eq_of_lt hphase]
    omega
  rw [hdiv, show top - reload = span by omega, Nat.add_comm (i * span), Nat.add_mul_mod_self_right,
    Nat.mod_eq_of_lt (by omega)]
  omega

/-- **The closed form**: started at `reload`, the counter shows `reload` plus the elapsed ticks
over the divisor, modulo its period. -/
theorem advance_start (hreload : reload < top) (hpos : 0 < divisor) (n : ℕ) :
    (advance top divisor reload n ⟨reload, 0⟩).value =
      reload + n / divisor % (top - reload) := by
  have hstart : Valid top divisor ⟨reload, 0⟩ := ⟨hreload, hpos⟩
  obtain ⟨j, hj, hle⟩ := advance_remaining hstart hreload n
  have hperiod : remaining top divisor ⟨reload, 0⟩ = period top divisor reload := rfl
  rw [hperiod] at hj
  refine value_of_overflowed (hstart.advance hreload n) hreload (j := j + 1) ?_ ?_
  · rw [Nat.succ_mul]
    omega
  · rcases Nat.eq_zero_or_pos j with rfl | h0
    · omega
    · exact hle h0

end ReloadCounter
