/-
# Bounded queues

A queue of at most `N` elements that drops what is written while it is full, and its usual
implementation by a ring of cells with a head and a length.

* `Event` : a write, a read, or a reset;
* `collect` : what some events give off along a run of the queue;
* `given_append_run` : without a reset, what is read and what is left is what there was and what was
  taken in;
* `run_sinceReset` : the events before the last reset do not matter;
* `RingBuf.content` : the queue in a ring;
* `RingBuf.content_push`, `RingBuf.content_pop` : the ring refines the queue;
* `RingBuf.content_pushFront`, `RingBuf.content_dropFront`, `RingBuf.content_pushAll` : the same at
  the front, and of several elements.
-/
import Mathlib.Data.List.DropRight
import Mathlib.Tactic

namespace RingQueue

variable {α β : Type*}

/-! ## The queue -/

/-- What happens to a queue. -/
inductive Event (α : Type*)
  | write (x : α)
  | read
  | reset

/-- The event empties the queue. -/
def Event.isReset : Event α → Bool
  | reset => true
  | _ => false

section Queue

variable (N : ℕ)

/-- The queue after an event. -/
def next (q : List α) : Event α → List α
  | .write x => if q.length < N then q ++ [x] else q
  | .read => q.tail
  | .reset => []

/-- The queue after some events. -/
def run (q : List α) (events : List (Event α)) : List α := events.foldl (next N) q

/-- What the events give off, each with the queue it finds. -/
def collect (out : List α → Event α → List β) : List α → List (Event α) → List β
  | _, [] => []
  | q, e :: events => out q e ++ collect out (next N q e) events

/-- What an event reads. -/
def given (q : List α) : Event α → List α
  | .read => q.head?.toList
  | _ => []

/-- What an event writes to a queue that is not full. -/
def taken (q : List α) : Event α → List α
  | .write x => if q.length < N then [x] else []
  | _ => []

/-- What an event writes to a full queue. -/
def dropped (q : List α) : Event α → List α
  | .write x => if q.length < N then [] else [x]
  | _ => []

/-- The events since the last reset. -/
def sinceReset (events : List (Event α)) : List (Event α) :=
  events.rtakeWhile fun e => !e.isReset

variable {N}

theorem run_append (q : List α) (events events' : List (Event α)) :
    run N q (events ++ events') = run N (run N q events) events' :=
  List.foldl_append

theorem collect_append (out : List α → Event α → List β) (q : List α)
    (events events' : List (Event α)) :
    collect N out q (events ++ events') =
      collect N out q events ++ collect N out (run N q events) events' := by
  induction events generalizing q with
  | nil => rfl
  | cons e events ih =>
      rw [List.cons_append, collect, ih, ← List.append_assoc]
      rfl

/-- Events that give off nothing. -/
theorem collect_eq_nil {out : List α → Event α → List β} {events : List (Event α)}
    (h : ∀ e ∈ events, ∀ q, out q e = []) (q : List α) : collect N out q events = [] := by
  induction events generalizing q with
  | nil => rfl
  | cons e events ih =>
      rw [List.forall_mem_cons] at h
      rw [collect, h.1, ih h.2, List.nil_append]

/-- Without a write the queue does not grow. -/
theorem length_run_le_self {events : List (Event α)} (h : ∀ x, .write x ∉ events) (q : List α) :
    (run N q events).length ≤ q.length := by
  induction events generalizing q with
  | nil => exact le_rfl
  | cons e events ih =>
      refine (ih (fun x hx => h x (List.mem_cons_of_mem _ hx)) _).trans ?_
      cases e with
      | write x => exact absurd List.mem_cons_self (h x)
      | read => exact (List.length_tail).trans_le (Nat.sub_le _ _)
      | reset => exact Nat.zero_le _

/-- The queue never holds more than it may. -/
theorem length_run_le {q : List α} (hq : q.length ≤ N) (events : List (Event α)) :
    (run N q events).length ≤ N := by
  induction events generalizing q with
  | nil => exact hq
  | cons e events ih =>
      refine ih ?_
      cases e with
      | write x =>
          rw [next]
          split
          · rw [List.length_append]
            simpa using Nat.succ_le_of_lt ‹_›
          · exact hq
      | read =>
          rw [next, List.length_tail]
          omega
      | reset => exact Nat.zero_le N

/-- One event that is no reset. -/
theorem given_append_next (q : List α) {e : Event α} (he : e.isReset = false) :
    given q e ++ next N q e = q ++ taken N q e := by
  cases e with
  | write x =>
      simp only [given, next, taken, List.nil_append]
      split
      · rfl
      · exact (List.append_nil q).symm
  | read =>
      cases q with
      | nil => rfl
      | cons x q => exact (List.append_nil _).symm
  | reset => cases he

/-- **The flow through a queue.**  Without a reset, what is read and what is left is what there was
and what was taken in, in order. -/
theorem given_append_run (q : List α) {events : List (Event α)}
    (h : ∀ e ∈ events, e.isReset = false) :
    collect N given q events ++ run N q events = q ++ collect N (taken N) q events := by
  induction events generalizing q with
  | nil => rw [collect, collect, run, List.foldl_nil, List.nil_append, List.append_nil]
  | cons e events ih =>
      rw [List.forall_mem_cons] at h
      rw [collect, collect, ← List.append_assoc, ← given_append_next q h.1, List.append_assoc,
        List.append_assoc, ← ih (next N q e) h.2]
      rfl

theorem sinceReset_no_reset (events : List (Event α)) :
    ∀ e ∈ sinceReset events, e.isReset = false := by
  intro e he
  simpa using List.mem_rtakeWhile_imp he

/-- The events before the last reset do not matter. -/
theorem run_sinceReset (events : List (Event α)) :
    run N [] (sinceReset events) = run N [] events := by
  induction events using List.reverseRecOn with
  | nil => rfl
  | append_singleton events e ih =>
      cases he : e.isReset with
      | false =>
          rw [sinceReset, List.rtakeWhile_concat_pos _ _ _ (by simp [he]), run_append, run_append]
          exact congrArg (run N · [e]) ih
      | true =>
          rw [sinceReset, List.rtakeWhile_concat_neg _ _ _ (by simp [he]), run_append]
          cases e with
          | reset => rfl
          | write x => cases he
          | read => cases he

/-- **What is read since the last reset** and what is left is what was taken in since. -/
theorem given_sinceReset (events : List (Event α)) :
    collect N given [] (sinceReset events) ++ run N [] events =
      collect N (taken N) [] (sinceReset events) := by
  rw [← run_sinceReset, given_append_run [] (sinceReset_no_reset events), List.nil_append]

/-- Writes that fit are all taken in. -/
theorem collect_dropped_writes {q : List α} {xs : List α} (h : q.length + xs.length ≤ N) :
    collect N (dropped N) q (xs.map .write) = [] ∧ run N q (xs.map .write) = q ++ xs := by
  induction xs generalizing q with
  | nil => exact ⟨rfl, (List.append_nil q).symm⟩
  | cons x xs ih =>
      rw [List.length_cons] at h
      have hfree : q.length < N := by omega
      obtain ⟨hdropped, hrun⟩ := ih (q := q ++ [x]) (by simp; omega)
      have hnext : next N q (.write x) = q ++ [x] := if_pos hfree
      constructor
      · rw [List.map_cons, collect, hnext, hdropped, dropped, if_pos hfree]
        rfl
      · rw [List.map_cons, run, List.foldl_cons, hnext]
        exact hrun.trans (List.append_assoc ..)

end Queue

/-! ## The ring -/

/-- Cells, of which `len` from `head` on are in use. -/
structure RingBuf (α : Type*) where
  cells : ℕ → α
  head : ℕ
  len : ℕ

namespace RingBuf

section Capacity

variable (N : ℕ)

/-- An element behind the last one. -/
def push (x : α) (r : RingBuf α) : RingBuf α :=
  { r with cells := Function.update r.cells ((r.head + r.len) % N) x, len := r.len + 1 }

/-- The first element, and the ring without it. -/
def pop (r : RingBuf α) : Option (α × RingBuf α) :=
  if r.len = 0 then none
  else some (r.cells r.head, { r with head := (r.head + 1) % N, len := r.len - 1 })

/-- An element in front of the first one. -/
def pushFront (x : α) (r : RingBuf α) : RingBuf α where
  cells := Function.update r.cells ((r.head + (N - 1)) % N) x
  head := (r.head + (N - 1)) % N
  len := r.len + 1

/-- The ring without its first elements. -/
def dropFront (n : ℕ) (r : RingBuf α) : RingBuf α :=
  { r with head := (r.head + n) % N, len := r.len - n }

/-- Some elements behind the last one. -/
def pushAll (xs : List α) (r : RingBuf α) : RingBuf α := xs.foldl (fun r x => r.push N x) r

/-- An empty ring. -/
def clear (r : RingBuf α) : RingBuf α := { r with head := 0, len := 0 }

/-- The elements in use. -/
def content (r : RingBuf α) : List α :=
  (List.range r.len).map fun i => r.cells ((r.head + i) % N)

/-- The head is a cell, and there are cells enough. -/
structure Good (r : RingBuf α) : Prop where
  head : r.head < N
  len : r.len ≤ N

end Capacity

variable {N : ℕ} {r : RingBuf α}

@[simp] theorem length_content (r : RingBuf α) : (r.content N).length = r.len := by
  rw [content, List.length_map, List.length_range]

theorem clear_good (hN : 0 < N) (r : RingBuf α) : r.clear.Good N := ⟨hN, Nat.zero_le N⟩

theorem Good.push (h : r.Good N) (hlen : r.len < N) (x : α) : (r.push N x).Good N :=
  ⟨h.head, hlen⟩

/-- **A push** writes to the queue. -/
theorem content_push (hlen : r.len < N) (x : α) :
    (r.push N x).content N = r.content N ++ [x] := by
  rw [content, content, RingBuf.push]
  simp only [List.range_succ, List.map_append, List.map_singleton, Function.update_self]
  congr 1
  refine List.map_congr_left fun i hi => Function.update_of_ne ?_ ..
  -- two cells in use are apart
  rw [List.mem_range] at hi
  intro heq
  have hmod : (r.head + i) ≡ (r.head + r.len) [MOD N] := heq
  have := (Nat.ModEq.add_left_cancel' r.head hmod).eq_of_lt_of_lt (hi.trans hlen) hlen
  omega

/-- **A pop** of an empty ring finds nothing, and of another one reads the queue. -/
theorem content_pop (h : r.Good N) :
    r.pop N = none ∧ r.content N = [] ∨
      ∃ x r', r.pop N = some (x, r') ∧ r'.Good N ∧ r.content N = x :: r'.content N := by
  rcases Nat.eq_zero_or_pos r.len with hzero | hpos
  · exact .inl ⟨if_pos hzero, by rw [content, hzero]; rfl⟩
  · refine .inr ⟨_, _, if_neg hpos.ne', ⟨Nat.mod_lt _ (h.head.trans_le' (Nat.zero_le _)), ?_⟩, ?_⟩
    · exact (Nat.sub_le _ _).trans h.len
    · obtain ⟨n, hn⟩ := Nat.exists_eq_succ_of_ne_zero hpos.ne'
      simp only [content, hn, Nat.succ_eq_add_one, Nat.add_sub_cancel, List.range_succ_eq_map,
        List.map_cons, List.map_map, Nat.add_zero, Nat.mod_eq_of_lt h.head]
      congr 1
      refine List.map_congr_left fun i _ => congrArg r.cells ?_
      rw [Nat.mod_add_mod]
      congr 1
      show r.head + (i + 1) = r.head + 1 + i
      omega

theorem getElem?_content {i : ℕ} (hi : i < r.len) :
    (r.content N)[i]? = some (r.cells ((r.head + i) % N)) := by
  rw [content, List.getElem?_map, List.getElem?_range hi, Option.map_some]

/-- The content is that of the cells below the capacity. -/
theorem content_congr {r' : RingBuf α} (hN : 0 < N) (hhead : r'.head = r.head)
    (hlen : r'.len = r.len) (hcells : ∀ i < N, r'.cells i = r.cells i) :
    r'.content N = r.content N := by
  rw [content, content, hhead, hlen]
  exact List.map_congr_left fun i _ => hcells _ (Nat.mod_lt _ hN)

/-- **A push at the front.** -/
theorem content_pushFront (hlen : r.len < N) (x : α) :
    (r.pushFront N x).content N = x :: r.content N := by
  rw [content, content, pushFront]
  simp only [List.range_succ_eq_map, List.map_cons, List.map_map, Nat.add_zero, Nat.mod_mod,
    Function.update_self]
  congr 1
  refine List.map_congr_left fun i hi => ?_
  rw [List.mem_range] at hi
  -- the cell in front of the first one, and the others behind it
  have hnext : ((r.head + (N - 1)) % N + (i + 1)) % N = (r.head + i) % N := by
    rw [Nat.mod_add_mod, show r.head + (N - 1) + (i + 1) = r.head + i + N by omega,
      Nat.add_mod_right]
  show Function.update r.cells _ x (((r.head + (N - 1)) % N + (i + 1)) % N) = _
  rw [hnext]
  refine Function.update_of_ne ?_ ..
  intro heq
  have hmod : (r.head + i) ≡ (r.head + (N - 1)) [MOD N] := heq
  have := (Nat.ModEq.add_left_cancel' r.head hmod).eq_of_lt_of_lt (by omega) (by omega)
  omega

theorem pushFront_good (hlen : r.len < N) (x : α) : (r.pushFront N x).Good N :=
  ⟨Nat.mod_lt _ (by omega), hlen⟩

/-- **Several elements less at the front.** -/
theorem content_dropFront {n : ℕ} (hn : n ≤ r.len) :
    (r.dropFront N n).content N = (r.content N).drop n := by
  apply List.ext_getElem?
  intro i
  by_cases hi : i < r.len - n
  · rw [getElem?_content hi, List.getElem?_drop, getElem?_content (by omega)]
    show some (r.cells (((r.head + n) % N + i) % N)) = _
    rw [Nat.mod_add_mod, Nat.add_assoc]
  · rw [List.getElem?_eq_none (by simpa [dropFront] using hi),
      List.getElem?_eq_none (by rw [List.length_drop, length_content]; omega)]

theorem Good.dropFront (hN : 0 < N) (h : r.Good N) (n : ℕ) : (r.dropFront N n).Good N :=
  ⟨Nat.mod_lt _ hN, (Nat.sub_le _ _).trans h.len⟩

theorem pushAll_head (xs : List α) (r : RingBuf α) : (r.pushAll N xs).head = r.head := by
  induction xs generalizing r with
  | nil => rfl
  | cons x xs ih => exact ih (r.push N x)

theorem pushAll_len (xs : List α) (r : RingBuf α) :
    (r.pushAll N xs).len = r.len + xs.length := by
  induction xs generalizing r with
  | nil => rfl
  | cons x xs ih =>
      refine (ih (r.push N x)).trans ?_
      show r.len + 1 + xs.length = r.len + (xs.length + 1)
      omega

/-- The cells that are written, one after the other. -/
theorem pushAll_cells (xs : List α) {r : RingBuf α} {first k : ℕ}
    (hfirst : (r.head + r.len) % N = (first + k) % N) :
    (r.pushAll N xs).cells =
      (xs.zipIdx k).foldl (fun cells v => Function.update cells ((first + v.2) % N) v.1)
        r.cells := by
  induction xs generalizing r k with
  | nil => rfl
  | cons x xs ih =>
      have hnext : ((r.push N x).head + (r.push N x).len) % N = (first + (k + 1)) % N := by
        rw [← Nat.add_assoc, ← Nat.mod_add_mod (first + k), ← hfirst, Nat.mod_add_mod]
        rfl
      rw [List.zipIdx_cons, List.foldl_cons]
      refine (ih hnext).trans ?_
      rw [← hfirst]
      rfl

theorem Good.pushAll (h : r.Good N) {xs : List α} (hlen : r.len + xs.length ≤ N) :
    (r.pushAll N xs).Good N :=
  ⟨(pushAll_head xs r).trans_lt h.head, (pushAll_len xs r).trans_le hlen⟩

/-- **Several elements more at the back.** -/
theorem content_pushAll {xs : List α} (hlen : r.len + xs.length ≤ N) :
    (r.pushAll N xs).content N = r.content N ++ xs := by
  induction xs generalizing r with
  | nil => exact (List.append_nil _).symm
  | cons x xs ih =>
      rw [List.length_cons] at hlen
      have hpush : (r.push N x).len = r.len + 1 := rfl
      refine (ih (r := r.push N x) (by omega)).trans ?_
      rw [content_push (by omega), List.append_assoc]
      rfl

end RingBuf

end RingQueue
