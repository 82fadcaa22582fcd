/-
# The two least of a run of keyed values

A running minimum that keeps the least and the second least key it has seen, against the first two
entries of a list that is in order.

* `TopTwo`, `TopTwo.push` : the two, and one more value;
* `firstTwo` : the first two of a list;
* `TopTwo.foldl_push_of_perm` : in whatever order the values come.
-/
import Mathlib.Order.Basic
import Mathlib.Tactic.Order
import Mathlib.Data.List.Sort

namespace AdvancedSlop

variable {κ α : Type*} [LinearOrder κ]

/-- The values with the least and the second least key. -/
@[ext] structure TopTwo (κ α : Type*) where
  best : κ × α
  second : κ × α

/-- The first two values of a list, where there are so many. -/
def firstTwo (empty : κ × α) (l : List (κ × α)) : TopTwo κ α :=
  ⟨l.headD empty, l.tail.headD empty⟩

namespace TopTwo

/-- One more value, which has to be less to move another. -/
def push (b : TopTwo κ α) (x : κ × α) : TopTwo κ α :=
  if x.1 < b.best.1 then ⟨x, b.best⟩
  else if x.1 < b.second.1 then ⟨b.best, x⟩
  else b

theorem push_of_le {b : TopTwo κ α} {x : κ × α} (hbest : b.best.1 ≤ x.1)
    (hsecond : b.second.1 ≤ x.1) : b.push x = b := by
  rw [push, if_neg hbest.not_gt, if_neg hsecond.not_gt]

theorem foldl_push_of_le {b : TopTwo κ α} {l : List (κ × α)}
    (h : ∀ x ∈ l, b.best.1 ≤ x.1 ∧ b.second.1 ≤ x.1) : l.foldl push b = b := by
  induction l with
  | nil => rfl
  | cons x l ih =>
      obtain ⟨hbest, hsecond⟩ := h x List.mem_cons_self
      rw [List.foldl_cons, push_of_le hbest hsecond]
      exact ih fun y hy => h y (List.mem_cons_of_mem x hy)

/-- Two values of different keys come in either order. -/
theorem push_comm (b : TopTwo κ α) {x y : κ × α} (h : x.1 ≠ y.1) :
    (b.push x).push y = (b.push y).push x := by
  simp only [push]
  split_ifs <;> first | rfl | (exfalso; order)

/-- The values come in whatever order, when no two of them have one key. -/
theorem foldl_push_of_perm {l l' : List (κ × α)} (hperm : l.Perm l')
    (hkeys : l.Pairwise fun x y => x.1 ≠ y.1) (b : TopTwo κ α) :
    l.foldl push b = l'.foldl push b := by
  have hsame : ∀ x ∈ l, ∀ y ∈ l, x.1 = y.1 → x = y :=
    List.Pairwise.forall_of_forall_of_flip (fun x _ _ => rfl)
      (hkeys.imp fun hne heq => absurd heq hne) (hkeys.imp fun hne heq => absurd heq.symm hne)
  refine hperm.foldl_eq' (fun x hx y hy b => ?_) b
  by_cases hxy : x.1 = y.1
  · rw [hsame x hx y hy hxy]
  · exact push_comm b hxy

/-- **A list in order** leaves its first two values. -/
theorem foldl_push_of_sorted {empty : κ × α} {l : List (κ × α)}
    (hsorted : l.Pairwise fun x y => x.1 < y.1) (hempty : ∀ x ∈ l, x.1 < empty.1) :
    l.foldl push ⟨empty, empty⟩ = firstTwo empty l := by
  rcases l with _ | ⟨x, _ | ⟨y, l⟩⟩
  · rfl
  · exact if_pos (hempty x List.mem_cons_self)
  · have hx : x.1 < empty.1 := hempty x List.mem_cons_self
    have hy : y.1 < empty.1 := hempty y (List.mem_cons_of_mem x List.mem_cons_self)
    obtain ⟨hfirst, hrest⟩ := List.pairwise_cons.1 hsorted
    have hxy : x.1 < y.1 := hfirst y List.mem_cons_self
    have htwo : (push ⟨empty, empty⟩ x).push y = ⟨x, y⟩ := by
      rw [push, push, if_pos hx, if_neg hxy.not_gt, if_pos hy]
    rw [List.foldl_cons, List.foldl_cons, htwo]
    refine foldl_push_of_le fun z hz => ⟨(hfirst z (List.mem_cons_of_mem y hz)).le, ?_⟩
    exact ((List.pairwise_cons.1 hrest).1 z hz).le

/-- Values whose key is not below a bound of the two are passed over. -/
theorem foldl_push_filter (none : κ) (l : List (κ × α)) : ∀ b : TopTwo κ α, b.best.1 ≤ none →
    b.second.1 ≤ none → l.foldl push b = (l.filter (·.1 < none)).foldl push b := by
  induction l with
  | nil => exact fun b _ _ => rfl
  | cons x l ih =>
      intro b hbest hsecond
      by_cases hx : x.1 < none
      · have hpush : (b.push x).best.1 ≤ none ∧ (b.push x).second.1 ≤ none := by
          rw [push]
          split_ifs
          · exact ⟨hx.le, hbest⟩
          · exact ⟨hbest, hx.le⟩
          · exact ⟨hbest, hsecond⟩
        rw [List.filter_cons, if_pos (by exact decide_eq_true hx), List.foldl_cons, List.foldl_cons]
        exact ih _ hpush.1 hpush.2
      · rw [List.filter_cons, if_neg (by rw [decide_eq_true_eq]; exact hx), List.foldl_cons,
          push_of_le (hbest.trans (not_lt.1 hx)) (hsecond.trans (not_lt.1 hx))]
        exact ih b hbest hsecond

end TopTwo

end AdvancedSlop
