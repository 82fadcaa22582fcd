/-
# Agendas: pending keys and the scan for the least one

An agenda assigns to every index of a list of slots the key it is pending at, if any.
`pick` is the linear scan that keeps the first slot with a strictly smaller key, the way a
table-driven scheduler selects the next timer; `least` folds the keys into a running minimum.

* `pick_none_iff`, `pick_some` : what the scan returns;
* `pick_tie` : among equal keys the earlier slot wins;
* `least_le`, `least_le_start`, `least_mem` : the fold is the minimum of the pending keys;
* `load_lt` : serving a slot lowers the load when every slot it arms is pending later, which
  is why a loop that serves due slots ends.
-/
import Mathlib.Tactic

namespace Agenda

variable {ι : Type*}

/-- One step of the scan: a pending key below the best one so far replaces it. -/
def consider (key : ι → Option ℕ) (best : Option ι × ℕ) (i : ι) : Option ι × ℕ :=
  match key i with
  | some d => if d < best.2 then (some i, d) else best
  | none => best

/-- Scan the slots in order, starting from nothing found and the given bound. -/
def pick (key : ι → Option ℕ) (slots : List ι) (best : Option ι × ℕ) : Option ι × ℕ :=
  slots.foldl (consider key) best

@[simp] theorem pick_nil (key : ι → Option ℕ) (best : Option ι × ℕ) :
    pick key [] best = best := rfl

theorem pick_cons (key : ι → Option ℕ) (i : ι) (slots : List ι) (best : Option ι × ℕ) :
    pick key (i :: slots) best = pick key slots (consider key best i) := rfl

/-- Considering a slot never raises the best key. -/
theorem consider_le (key : ι → Option ℕ) (best : Option ι × ℕ) (i : ι) :
    (consider key best i).2 ≤ best.2 := by
  unfold consider
  split
  · split
    · omega
    · exact le_refl _
  · exact le_refl _

/-- Scanning never raises the best key. -/
theorem pick_le (key : ι → Option ℕ) (slots : List ι) (best : Option ι × ℕ) :
    (pick key slots best).2 ≤ best.2 := by
  induction slots generalizing best with
  | nil => exact le_refl _
  | cons i slots ih =>
      rw [pick_cons]
      exact (ih _).trans (consider_le key best i)

/-- No scanned slot is pending below the key the scan returns. -/
theorem pick_le_key (key : ι → Option ℕ) (slots : List ι) (best : Option ι × ℕ) {j : ι} {d : ℕ}
    (hj : j ∈ slots) (hd : key j = some d) : (pick key slots best).2 ≤ d := by
  induction slots generalizing best with
  | nil => simp at hj
  | cons i slots ih =>
      rw [pick_cons]
      rcases List.mem_cons.mp hj with rfl | hj
      · refine (pick_le key slots _).trans ?_
        simp only [consider, hd]
        split
        · exact le_refl _
        · omega
      · exact ih _ hj

/-- The scan returns its starting value, or a slot pending at the key it returns. -/
theorem pick_eq_or (key : ι → Option ℕ) (slots : List ι) (best : Option ι × ℕ) :
    pick key slots best = best ∨
      ∃ i ∈ slots, ∃ d, pick key slots best = (some i, d) ∧ key i = some d ∧ d < best.2 := by
  induction slots generalizing best with
  | nil => exact Or.inl rfl
  | cons i slots ih =>
      rw [pick_cons]
      have hstep : consider key best i = best ∨
          ∃ d, consider key best i = (some i, d) ∧ key i = some d ∧ d < best.2 := by
        unfold consider
        cases hk : key i with
        | none => exact Or.inl rfl
        | some d =>
            by_cases hd : d < best.2
            · exact Or.inr ⟨d, by simp [hd], rfl, hd⟩
            · exact Or.inl (by simp [hd])
      rcases ih (consider key best i) with heq | ⟨j, hj, d, heq, hk, hd⟩
      · rcases hstep with hs | ⟨d, hs, hk, hd⟩
        · exact Or.inl (heq.trans hs)
        · exact Or.inr ⟨i, List.mem_cons_self, d, heq.trans hs, hk, hd⟩
      · exact Or.inr ⟨j, List.mem_cons_of_mem _ hj, d, heq, hk,
          hd.trans_le (consider_le key best i)⟩

/-- The scan finds nothing exactly when no slot is pending below the bound. -/
theorem pick_none_iff (key : ι → Option ℕ) (slots : List ι) (bound : ℕ) :
    (pick key slots (none, bound)).1 = none ↔
      ∀ j ∈ slots, ∀ d, key j = some d → bound ≤ d := by
  constructor
  · intro h j hj d hd
    rcases pick_eq_or key slots (none, bound) with heq | ⟨i, -, d', heq, -, -⟩
    · have := pick_le_key key slots (none, bound) hj hd
      rw [heq] at this
      exact this
    · rw [heq] at h
      simp at h
  · intro h
    rcases pick_eq_or key slots (none, bound) with heq | ⟨i, hi, d', heq, hk, hd⟩
    · rw [heq]
    · have := h i hi d' hk
      simp only at hd
      omega

/-- What the scan finds is pending, below the bound and least. -/
theorem pick_some {key : ι → Option ℕ} {slots : List ι} {bound : ℕ} {i : ι} {d : ℕ}
    (h : pick key slots (none, bound) = (some i, d)) :
    i ∈ slots ∧ key i = some d ∧ d < bound ∧ ∀ j ∈ slots, ∀ d', key j = some d' → d ≤ d' := by
  have hle : ∀ j ∈ slots, ∀ d', key j = some d' → d ≤ d' := by
    intro j hj d' hd'
    have := pick_le_key key slots (none, bound) hj hd'
    rw [h] at this
    exact this
  rcases pick_eq_or key slots (none, bound) with heq | ⟨i', hi', d'', heq, hk, hd⟩
  · rw [h] at heq
    simp at heq
  · rw [h] at heq
    obtain ⟨rfl, rfl⟩ : i = i' ∧ d = d'' := by simpa using heq
    exact ⟨hi', hk, hd, hle⟩

/-- Once a key is found, a slot scanned later only replaces it with a smaller one. -/
theorem pick_keeps (key : ι → Option ℕ) (slots : List ι) (i : ι) (d : ℕ)
    (h : ∀ j ∈ slots, ∀ d', key j = some d' → d ≤ d') :
    pick key slots (some i, d) = (some i, d) := by
  induction slots with
  | nil => rfl
  | cons j slots ih =>
      have hj : consider key (some i, d) j = (some i, d) := by
        unfold consider
        cases hk : key j with
        | none => rfl
        | some d' =>
            have := h j List.mem_cons_self d' hk
            simp only
            rw [if_neg (by omega)]
      rw [pick_cons, hj]
      exact ih fun k hk => h k (List.mem_cons_of_mem _ hk)

/-- **Ties go to the earlier slot.**  In a list ordered by `r`, a slot pending at the very key
the scan returns is the slot found or comes after it. -/
theorem pick_tie {key : ι → Option ℕ} {slots : List ι} {bound : ℕ} {i : ι} {d : ℕ}
    {r : ι → ι → Prop} (hr : slots.Pairwise r)
    (h : pick key slots (none, bound) = (some i, d)) :
    ∀ j ∈ slots, key j = some d → j = i ∨ r i j := by
  have main : ∀ (slots : List ι) (best : Option ι × ℕ), slots.Pairwise r →
      pick key slots best = (some i, d) → d < best.2 →
      ∀ j ∈ slots, key j = some d → j = i ∨ r i j := by
    intro slots
    induction slots with
    | nil => intro _ _ _ _ j hj; simp at hj
    | cons k slots ih =>
        intro best hp heq hlt j hj hd
        rw [pick_cons] at heq
        obtain ⟨hk, hp⟩ := List.pairwise_cons.mp hp
        cases hkey : key k with
        | none =>
            have hc : consider key best k = best := by simp [consider, hkey]
            rw [hc] at heq
            rcases List.mem_cons.mp hj with rfl | hj
            · rw [hkey] at hd
              simp at hd
            · exact ih best hp heq hlt j hj hd
        | some dk =>
            rcases Nat.lt_trichotomy dk d with hdk | rfl | hdk
            · -- a smaller key would have been returned instead
              have hle := pick_le_key key (k :: slots) best List.mem_cons_self hkey
              rw [pick_cons, heq] at hle
              simp only at hle
              omega
            · -- the head holds the least key: the scan keeps it
              have hc : consider key best k = (some k, dk) := by simp [consider, hkey, hlt]
              have hkeep : pick key slots (some k, dk) = (some k, dk) := by
                apply pick_keeps
                intro j' hj' d' hd'
                have := pick_le_key key slots (consider key best k) hj' hd'
                rw [heq] at this
                exact this
              rw [hc, hkeep] at heq
              obtain rfl : k = i := by simpa using heq
              rcases List.mem_cons.mp hj with rfl | hj
              · exact Or.inl rfl
              · exact Or.inr (hk j hj)
            · rcases List.mem_cons.mp hj with rfl | hj
              · rw [hkey] at hd
                simp only [Option.some.injEq] at hd
                omega
              · refine ih (consider key best k) hp heq ?_ j hj hd
                simp only [consider, hkey]
                split
                · exact hdk
                · exact hlt
  exact main slots (none, bound) hr h (pick_some h).2.2.1

/-- The running minimum of the pending keys, from a starting value. -/
def least (key : ι → Option ℕ) (slots : List ι) (start : ℕ) : ℕ :=
  slots.foldl (fun m i => match key i with
    | some d => if d < m then d else m
    | none => m) start

/-- The running minimum is the key the scan ends with. -/
theorem least_eq_pick (key : ι → Option ℕ) (slots : List ι) (best : Option ι × ℕ) :
    least key slots best.2 = (pick key slots best).2 := by
  induction slots generalizing best with
  | nil => rfl
  | cons i slots ih =>
      rw [pick_cons, ← ih]
      unfold least consider
      rw [List.foldl_cons]
      cases key i with
      | none => rfl
      | some d => simp only; split <;> rfl

/-- The minimum is at most its starting value. -/
theorem least_le_start (key : ι → Option ℕ) (slots : List ι) (start : ℕ) :
    least key slots start ≤ start := by
  have := pick_le key slots (none, start)
  rw [← least_eq_pick] at this
  exact this

/-- The minimum is at most every pending key. -/
theorem least_le (key : ι → Option ℕ) (slots : List ι) (start : ℕ) {j : ι} {d : ℕ}
    (hj : j ∈ slots) (hd : key j = some d) : least key slots start ≤ d := by
  have := pick_le_key key slots (none, start) hj hd
  rw [← least_eq_pick] at this
  exact this

/-- The minimum is its starting value or a pending key. -/
theorem least_mem (key : ι → Option ℕ) (slots : List ι) (start : ℕ) :
    least key slots start = start ∨ ∃ j ∈ slots, key j = some (least key slots start) := by
  have h := least_eq_pick key slots (none, start)
  rcases pick_eq_or key slots (none, start) with heq | ⟨i, hi, d, heq, hk, -⟩
  · left
    rw [heq] at h
    exact h
  · right
    rw [heq] at h
    exact ⟨i, hi, by rw [show least key slots start = d from h]; exact hk⟩

/-! ## The load of an agenda -/

section Load

variable [Fintype ι]

/-- The weight of a key against the bound `c`: earlier keys weigh more, by a factor above the
number of slots. -/
def weight (ι : Type*) [Fintype ι] (c : ℕ) : Option ℕ → ℕ
  | some d => (Fintype.card ι + 1) ^ (c + 1 - d)
  | none => 0

/-- The total weight of the pending keys. -/
def load (key : ι → Option ℕ) (c : ℕ) : ℕ := ∑ i, weight ι c (key i)

/-- **Serving a slot lowers the load.**  The served slot is pending at `d ≤ c`; afterwards each
slot keeps its key, or holds none, or holds one after `d` (the served slot only the latter). -/
theorem load_lt [DecidableEq ι] {key key' : ι → Option ℕ} {c d : ℕ} {i : ι}
    (hd : key i = some d) (hdc : d ≤ c)
    (h : ∀ j, (j ≠ i ∧ key' j = key j) ∨ ∀ d', key' j = some d' → d < d') :
    load key' c < load key c := by
  set B := Fintype.card ι + 1 with hB
  have hpow : weight ι c (key i) = B * B ^ (c - d) := by
    rw [hd]
    show B ^ (c + 1 - d) = B * B ^ (c - d)
    rw [show c + 1 - d = (c - d) + 1 by omega, pow_succ, Nat.mul_comm]
  have hpos : 0 < B ^ (c - d) := Nat.pow_pos (by omega)
  -- a slot keeps its weight or gets one of at most `B ^ (c - d)`
  have hslot : ∀ j, weight ι c (key' j) ≤
      (if j = i then 0 else weight ι c (key j)) + B ^ (c - d) := by
    intro j
    rcases h j with ⟨hne, heq⟩ | hlater
    · rw [if_neg hne, heq]
      omega
    · cases hk : key' j with
      | none => simp [weight]
      | some d' =>
          have hlt := hlater d' hk
          have hle : weight ι c (some d') ≤ B ^ (c - d) :=
            Nat.pow_le_pow_right (by omega) (by omega)
          omega
  have hsum : ∑ j, (if j = i then 0 else weight ι c (key j)) + weight ι c (key i) =
      load key c := by
    rw [load, ← Finset.sum_erase_add _ _ (Finset.mem_univ i),
      ← Finset.sum_erase_add _ (fun j => weight ι c (key j)) (Finset.mem_univ i), if_pos rfl,
      Nat.add_zero]
    congr 1
    exact Finset.sum_congr rfl fun j hj => if_neg (Finset.ne_of_mem_erase hj)
  have hle : load key' c ≤
      ∑ j, (if j = i then 0 else weight ι c (key j)) + Fintype.card ι * B ^ (c - d) := by
    calc load key' c
        ≤ ∑ j, ((if j = i then 0 else weight ι c (key j)) + B ^ (c - d)) :=
          Finset.sum_le_sum fun j _ => hslot j
      _ = _ := by
          rw [Finset.sum_add_distrib, Finset.sum_const, Finset.card_univ, smul_eq_mul]
  have hmul : B * B ^ (c - d) = Fintype.card ι * B ^ (c - d) + B ^ (c - d) := by
    rw [hB, Nat.add_mul, Nat.one_mul]
  omega

end Load

end Agenda
