/-
# Fixed fifos

`src/fixed_fifo.rs` and `src/fast_fixed_fifo.rs`: double-ended queues of a fixed capacity, in a ring
of cells.  The fast one has its cells in host memory that is mapped twice in a row.

* `FixedFifo.step`, `FastFixedFifo.step` : what is done to them;
* `DequeOp.next` : the queue they stand for;
* `Fifo.Holds` : the cells hold a queue, which every operation keeps;
* `fixed_fifo_law`, `fast_fixed_fifo_law` : the capacities for which they are such queues.
-/
import AdvancedSlop.RingQueue
import AdvancedSlop.SavestateTree

namespace AdvancedSlop

open RingQueue SavestateContext

/-! ## The fifos -/

/-- The fields of `FixedFifo` and of `FastFixedFifo`, with indices of `w` bits. -/
structure Fifo (α : Type) (w : ℕ) where
  start : BitVec w
  len : BitVec w
  end_ : BitVec w
  cells : ℕ → α

namespace Fifo

variable {α : Type} {w : ℕ}

/-- `new`. -/
def new (zero : α) : Fifo α w := ⟨0, 0, 0, fun _ => zero⟩

/-- `clear`. -/
def clear (s : Fifo α w) : Fifo α w := ⟨0, 0, 0, s.cells⟩

/-- `is_empty`. -/
def isEmpty (s : Fifo α w) : Bool := s.len = 0

section Capacity

variable (SIZE : BitVec w)

/-- `is_full`. -/
def isFull (s : Fifo α w) : Bool := s.len = SIZE

/-- `% SIZE`, which panics for a capacity of zero. -/
def rem (i : BitVec w) : Option (BitVec w) := if SIZE = 0 then none else some (i % SIZE)

/-- A write of a cell; there is none behind the last one. -/
def write (cells : ℕ → α) (i : BitVec w) (x : α) : Option (ℕ → α) :=
  if i < SIZE then some (Function.update cells i.toNat x) else none

/-- A read of a cell. -/
def read (s : Fifo α w) (i : BitVec w) : Option α :=
  if i < SIZE then some (s.cells i.toNat) else none

/-- `push_front`. -/
def pushFront (x : α) (s : Fifo α w) : Option (Fifo α w) :=
  (rem SIZE (s.start - 1)).bind fun start =>
    (write SIZE s.cells start x).map fun cells => ⟨start, s.len + 1, s.end_, cells⟩

/-- `push_back`. -/
def pushBack (x : α) (s : Fifo α w) : Option (Fifo α w) :=
  (write SIZE s.cells s.end_ x).bind fun cells =>
    (rem SIZE (s.end_ + 1)).map fun end_ => ⟨s.start, s.len + 1, end_, cells⟩

/-- `front`. -/
def front (s : Fifo α w) : Option α := s.read SIZE s.start

/-- `pop_front_multiple`, and `pop_front` for 1. -/
def popFrontMultiple (count : BitVec w) (s : Fifo α w) : Option (Fifo α w) :=
  (rem SIZE (s.start + count)).map fun start => { s with start := start, len := s.len - count }

/-- `Index::index`. -/
def index (s : Fifo α w) (i : BitVec w) : Option α := (rem SIZE (i + s.start)).bind (s.read SIZE)

end Capacity

end Fifo

/-- What is done to a fifo: bulk pushes come in modes, and a savestate is loaded into a target. -/
inductive DequeOp (α : Type) (w : ℕ) (Mode : Type)
  | pushBack (x : α)
  | pushFront (x : α)
  | popFront
  | popFrontMultiple (count : BitVec w)
  | pushBackMultiple (mode : Mode) (values : List α)
  | clear
  | savestate (target : Fifo α w)

/-! ### `FixedFifo` -/

namespace FixedFifo

variable {α : Type} (SIZE : BitVec 16)

/-- `push_back_multiple`. -/
def pushBackMultiple (values : List α) (s : Fifo α 16) : Option (Fifo α 16) :=
  (Fifo.rem SIZE (s.end_ + BitVec.ofNat 16 values.length)).bind fun end_ =>
    (values.zipIdx.foldlM (fun cells v =>
      (Fifo.rem SIZE (s.end_ + BitVec.ofNat 16 v.2)).bind fun i => Fifo.write SIZE cells i v.1)
      s.cells).map fun cells =>
        ⟨s.start, s.len + BitVec.ofNat 16 values.length, end_, cells⟩

variable (t : Tree α)

/-- The saved fields: the indices, and the whole array. -/
def savedTree : Tree (BitVec (8 * 2) × BitVec (8 * 2) × BitVec (8 * 2) ×
    List.Vector α SIZE.toNat) :=
  .field (.pod (Pod.word 2)) (.field (.pod (Pod.word 2)) (.field (.pod (Pod.word 2))
    (.array t SIZE.toNat)))

/-- The saved fields of a fifo. -/
def fields (s : Fifo α 16) : BitVec (8 * 2) × BitVec (8 * 2) × BitVec (8 * 2) ×
    List.Vector α SIZE.toNat :=
  (s.start, s.len, s.end_, .ofFn fun i => s.cells i)

/-- A fifo with other fields. -/
def withFields (s : Fifo α 16)
    (f : BitVec (8 * 2) × BitVec (8 * 2) × BitVec (8 * 2) × List.Vector α SIZE.toNat) :
    Fifo α 16 :=
  ⟨f.1, f.2.1, f.2.2.1, fun i => if h : i < SIZE.toNat then f.2.2.2.get ⟨i, h⟩ else s.cells i⟩

/-- `Savestate::savestate`. -/
def savestate : Savestate (Fifo α 16) := fun self state =>
  ((savedTree SIZE t).savestate (fields SIZE self) state).map fun r =>
    (withFields SIZE self r.1, r.2)

end FixedFifo

/-- A savestate that is loaded into a target: nothing comes of it when the load fails. -/
def reload {σ : Type} (walk : Savestate σ) (self target : σ) : Option σ :=
  (walk self newSave).bind fun r => r.2.intoData.bind fun data =>
    (walk target (newLoad data)).bind fun q => if q.2.isLoadSuccessful then some q.1 else none

/-- What is done to a fifo with a bulk push and a savestate of its own. -/
def Fifo.step {α Mode : Type} {w : ℕ} (SIZE : BitVec w)
    (bulk : Mode → List α → Fifo α w → Option (Fifo α w)) (walk : Savestate (Fifo α w))
    (s : Fifo α w) : DequeOp α w Mode → Option (Fifo α w)
  | .pushBack x => s.pushBack SIZE x
  | .pushFront x => s.pushFront SIZE x
  | .popFront => s.popFrontMultiple SIZE 1
  | .popFrontMultiple count => s.popFrontMultiple SIZE count
  | .pushBackMultiple mode values => bulk mode values s
  | .clear => some s.clear
  | .savestate target => reload walk s target

/-- What is done to a `FixedFifo`. -/
def FixedFifo.step {α : Type} (SIZE : BitVec 16) (t : Tree α) :
    Fifo α 16 → DequeOp α 16 Unit → Option (Fifo α 16) :=
  Fifo.step SIZE (fun _ => FixedFifo.pushBackMultiple SIZE) (FixedFifo.savestate SIZE t)

/-! ### `FastFixedFifo` -/

namespace FastFixedFifo

variable {α : Type} {w : ℕ} (SIZE : BitVec w)

/-- A write through the mapping: the memory is seen twice in a row. -/
def writeView (cells : ℕ → α) (i : ℕ) (x : α) : Option (ℕ → α) :=
  if i < 2 * SIZE.toNat then some (Function.update cells (i % SIZE.toNat) x) else none

/-- Elements that are written one after the other, with their places behind `first`. -/
def writeAll (first : ℕ) (values : List (α × ℕ)) (cells : ℕ → α) : Option (ℕ → α) :=
  values.foldlM (fun cells v => writeView SIZE cells (first + v.2) v.1) cells

/-- The loop of `FAST_MEMCPY` over elements of a size: 64 bytes at a time, none of them behind the
end of the source. -/
def fastCopy (size first : ℕ) (values : List α) (cells : ℕ → α) : Option (ℕ → α) :=
  let lanes := 64 / size
  if size = 0 ∨ lanes = 0 then none
  else ((List.range ((values.length + lanes - 1) / lanes)).map (· * lanes)).foldlM
    (fun cells i =>
      if i * size + 64 ≤ values.length * size then
        writeAll SIZE first (((values.drop i).take lanes).zipIdx i) cells
      else none) cells

variable (pod : Pod α)

/-- `push_back_multiple`. -/
def pushBackMultiple (fast : Bool) (values : List α) (s : Fifo α w) : Option (Fifo α w) :=
  (Fifo.rem SIZE (s.end_ + BitVec.ofNat w values.length)).bind fun end_ =>
    (if fast then fastCopy SIZE pod.size s.end_.toNat values s.cells
      else writeAll SIZE s.end_.toNat values.zipIdx s.cells).map fun cells =>
        ⟨s.start, s.len + BitVec.ofNat w values.length, end_, cells⟩

/-- The elements in a row from a place of the mapping on. -/
def view (s : Fifo α w) (first n : ℕ) : List.Vector α n :=
  .ofFn fun i => s.cells ((first + i) % SIZE.toNat)

/-- `Savestate::savestate`: the elements in use, which a load puts at the start. -/
def savestate : Savestate (Fifo α w) := fun self state =>
  (usizeSavestate w self.len state).bind fun r =>
    if r.2.save then
      (r.2.bytesOf (pod.slice self.len.toNat) (view SIZE self self.start.toNat _)).map fun q =>
        (self, q.2)
    else if SIZE < r.1 then some (self.clear, r.2.setError)
    else
      (r.2.bytesOf (pod.slice r.1.toNat) (view SIZE self.clear 0 _)).bind fun q =>
        (Fifo.rem SIZE r.1).map fun end_ =>
          (⟨0, r.1, end_, fun i => if h : i < r.1.toNat then q.1.get ⟨i, h⟩ else self.cells i⟩,
            q.2)

/-- What is done to a `FastFixedFifo`. -/
def step : Fifo α w → DequeOp α w Bool → Option (Fifo α w) :=
  Fifo.step SIZE (pushBackMultiple SIZE pod) (savestate SIZE pod)

/-- The lengths a bulk push takes: a fast one whole runs of 64 bytes. -/
def takes (fast : Bool) (n : ℕ) : Bool := !fast || decide (n * pod.size % 64 = 0)

end FastFixedFifo

/-! ## The queue they stand for -/

/-- The queue of at most `N` elements, where the operation may be done: pushes fit, and pops find
what they take; a bulk push in a mode has a length that the mode takes. -/
def DequeOp.next {α Mode : Type} {w : ℕ} (N : ℕ) (takes : Mode → ℕ → Bool) (q : List α) :
    DequeOp α w Mode → Option (List α)
  | .pushBack x => if q.length < N then some (q ++ [x]) else none
  | .pushFront x => if q.length < N then some (x :: q) else none
  | .popFront => if q.length = 0 then none else some q.tail
  | .popFrontMultiple count =>
      if count.toNat ≤ q.length then some (q.drop count.toNat) else none
  | .pushBackMultiple mode values =>
      if q.length + values.length ≤ N ∧ takes mode values.length then some (q ++ values) else none
  | .clear => some []
  | .savestate _ => some q

namespace Fifo

variable {α Mode : Type} {w : ℕ} (SIZE : BitVec w)

/-- What is seen of a fifo is a queue. -/
structure Shows (s : Fifo α w) (q : List α) : Prop where
  length_le : q.length ≤ SIZE.toNat
  len : s.len.toNat = q.length
  isEmpty : s.isEmpty = q.isEmpty
  isFull : s.isFull SIZE = decide (q.length = SIZE.toNat)
  front : q ≠ [] → s.front SIZE = q.head?
  index : ∀ i : BitVec w, i.toNat < q.length → s.index SIZE i = q[i.toNat]?

/-- **The fifo is the queue**: what can be done to the queue, from the empty one on, is done to the
fifo, which shows the queue that is left. -/
def Refines (step : Fifo α w → DequeOp α w Mode → Option (Fifo α w)) (takes : Mode → ℕ → Bool)
    (zero : α) : Prop :=
  ∀ (ops : List (DequeOp α w Mode)) (q : List α),
    ops.foldlM (DequeOp.next SIZE.toNat takes) [] = some q →
      ∃ s : Fifo α w, ops.foldlM step (new zero) = some s ∧ s.Shows SIZE q

/-! ## The invariant -/

/-- The cells in use. -/
def ring (s : Fifo α w) : RingBuf α := ⟨s.cells, s.start.toNat, s.len.toNat⟩

/-- The cells in use hold a queue, and the end is behind them. -/
structure Holds (s : Fifo α w) (q : List α) : Prop where
  good : s.ring.Good SIZE.toNat
  end_ : s.end_.toNat = (s.start.toNat + s.len.toNat) % SIZE.toNat
  content : s.ring.content SIZE.toNat = q

section Invariant

variable {SIZE : BitVec w} {s : Fifo α w} {q : List α}

theorem pos_of_dvd (hdvd : SIZE.toNat ∣ 2 ^ w) : 0 < SIZE.toNat :=
  Nat.pos_of_dvd_of_pos hdvd (Nat.two_pow_pos w)

/-- Indices may wrap before the remainder, when the capacity divides the wrap. -/
theorem rem_eq (hdvd : SIZE.toNat ∣ 2 ^ w) {i : BitVec w} {n : ℕ} (hi : i.toNat = n % 2 ^ w) :
    ∃ r, rem SIZE i = some r ∧ r.toNat = n % SIZE.toNat ∧ r < SIZE := by
  have hpos := pos_of_dvd hdvd
  have hne : SIZE ≠ 0 := fun h => absurd hpos (by rw [h]; simp)
  have hr : (i % SIZE).toNat = n % SIZE.toNat := by
    rw [BitVec.toNat_umod, hi, Nat.mod_mod_of_dvd _ hdvd]
  refine ⟨i % SIZE, if_neg hne, hr, ?_⟩
  rw [BitVec.lt_def, hr]
  exact Nat.mod_lt _ hpos

theorem rem_add (hdvd : SIZE.toNat ∣ 2 ^ w) (a : BitVec w) (n : ℕ) :
    ∃ r, rem SIZE (a + BitVec.ofNat w n) = some r ∧ r.toNat = (a.toNat + n) % SIZE.toNat ∧
      r < SIZE := by
  refine rem_eq hdvd ?_
  rw [BitVec.toNat_add, BitVec.toNat_ofNat, Nat.add_mod_mod]

theorem write_eq {i : BitVec w} (hi : i < SIZE) (cells : ℕ → α) (x : α) :
    write SIZE cells i x = some (Function.update cells i.toNat x) := if_pos hi

theorem Holds.length (h : s.Holds SIZE q) : s.len.toNat = q.length := by
  rw [← h.content, RingBuf.length_content]
  rfl

theorem Holds.start_lt (h : s.Holds SIZE q) : s.start < SIZE := h.good.head

/-- **What is shown** of a fifo that holds a queue. -/
theorem Holds.shows (hdvd : SIZE.toNat ∣ 2 ^ w) (h : s.Holds SIZE q) : s.Shows SIZE q := by
  have hlen := h.length
  have hget {i : ℕ} (hi : i < q.length) :
      q[i]? = some (s.cells ((s.start.toNat + i) % SIZE.toNat)) := by
    rw [← h.content, RingBuf.getElem?_content (by rw [← hlen] at hi; exact hi)]
    rfl
  refine ⟨hlen ▸ h.good.len, hlen, ?_, ?_, fun hne => ?_, fun i hi => ?_⟩
  · rw [isEmpty, Bool.eq_iff_iff, decide_eq_true_iff, List.isEmpty_iff, ← List.length_eq_zero_iff,
      ← hlen, ← BitVec.toNat_inj]
    rfl
  · rw [isFull, Bool.eq_iff_iff, decide_eq_true_iff, decide_eq_true_iff, ← hlen,
      ← BitVec.toNat_inj]
  · have hhead := hget (List.length_pos_iff.mpr hne)
    rw [Nat.add_zero, Nat.mod_eq_of_lt (show s.start.toNat < _ from h.good.head)] at hhead
    rw [front, read, if_pos h.start_lt, List.head?_eq_getElem?, hhead]
  · obtain ⟨r, hr, hval, hlt⟩ := rem_eq hdvd (BitVec.toNat_add i s.start)
    rw [index, hr, Option.bind_some, read, if_pos hlt, hget hi, hval, Nat.add_comm]

theorem holds_empty (hpos : 0 < SIZE.toNat) (cells : ℕ → α) :
    Holds SIZE ⟨0, 0, 0, cells⟩ [] := by
  have hzero : (0 : BitVec w).toNat = 0 := BitVec.toNat_zero
  refine ⟨⟨?_, ?_⟩, ?_, ?_⟩
  · exact hzero.trans_lt hpos
  · exact hzero.le.trans (Nat.zero_le _)
  · rw [hzero, Nat.zero_mod]
  · rw [ring, hzero]
    rfl

/-- The length of a fifo that is not full, one up. -/
theorem toNat_len_add {n : ℕ} (h : s.Holds SIZE q) (hfit : q.length + n ≤ SIZE.toNat) :
    (s.len + BitVec.ofNat w n).toNat = s.len.toNat + n := by
  have hlt := SIZE.isLt
  have hlen := h.length
  rw [BitVec.toNat_add, BitVec.toNat_ofNat, Nat.add_mod_mod, Nat.mod_eq_of_lt (by omega)]

theorem Holds.end_lt (h : s.Holds SIZE q) : s.end_ < SIZE := by
  rw [BitVec.lt_def, h.end_]
  exact Nat.mod_lt _ (h.good.head.trans_le' (Nat.zero_le _))

/-- **A push at the back.** -/
theorem Holds.pushBack (hdvd : SIZE.toNat ∣ 2 ^ w) (h : s.Holds SIZE q)
    (hfit : q.length < SIZE.toNat) (x : α) :
    ∃ s', s.pushBack SIZE x = some s' ∧ s'.Holds SIZE (q ++ [x]) := by
  obtain ⟨e, he, hval, -⟩ := rem_add hdvd s.end_ 1
  have hlen : (s.len + 1).toNat = s.len.toNat + 1 := toNat_len_add h hfit
  have hspace : s.ring.len < SIZE.toNat := by rwa [← h.length] at hfit
  have hring : ring ⟨s.start, s.len + 1, e, Function.update s.cells s.end_.toNat x⟩ =
      s.ring.push SIZE.toNat x := by
    rw [ring, hlen, h.end_]
    rfl
  refine ⟨⟨s.start, s.len + 1, e, Function.update s.cells s.end_.toNat x⟩, ?_, ?_, ?_, ?_⟩
  · rw [Fifo.pushBack, write_eq h.end_lt, Option.bind_some]
    exact congrArg (Option.map _) he
  · rw [hring]
    exact h.good.push hspace x
  · rw [hval, h.end_, Nat.mod_add_mod, hlen, Nat.add_assoc]
  · rw [hring, RingBuf.content_push hspace, h.content]

/-- **A push at the front**: the index below 0 wraps, to the last one. -/
theorem Holds.pushFront (hdvd : SIZE.toNat ∣ 2 ^ w) (h : s.Holds SIZE q)
    (hfit : q.length < SIZE.toNat) (x : α) :
    ∃ s', s.pushFront SIZE x = some s' ∧ s'.Holds SIZE (x :: q) := by
  have hpos := pos_of_dvd hdvd
  have hstart : (s.start - 1).toNat = (s.start.toNat + (2 ^ w - 1)) % 2 ^ w := by
    have hw : 0 < w := by
      have hlt := SIZE.isLt
      rcases Nat.eq_zero_or_pos w with rfl | hw
      · omega
      · exact hw
    have hone : (1 : BitVec w).toNat = 1 := BitVec.toNat_one hw
    rw [BitVec.toNat_sub, hone, Nat.add_comm]
  obtain ⟨p, hp, hval, hlt⟩ := rem_eq hdvd hstart
  have hback : p.toNat = (s.start.toNat + (SIZE.toNat - 1)) % SIZE.toNat := by
    obtain ⟨c, hc⟩ := hdvd
    have hc' : c ≠ 0 := by
      rintro rfl
      exact absurd hc (Nat.two_pow_pos w).ne'
    obtain ⟨b, rfl⟩ := Nat.exists_eq_succ_of_ne_zero hc'
    rw [hval, hc, Nat.mul_succ, show s.start.toNat + (SIZE.toNat * b + SIZE.toNat - 1) =
      s.start.toNat + (SIZE.toNat - 1) + SIZE.toNat * b by omega, Nat.add_mul_mod_self_left]
  have hlen : (s.len + 1).toNat = s.len.toNat + 1 := toNat_len_add h hfit
  have hspace : s.ring.len < SIZE.toNat := by rwa [← h.length] at hfit
  have hring : ring ⟨p, s.len + 1, s.end_, Function.update s.cells p.toNat x⟩ =
      s.ring.pushFront SIZE.toNat x := by
    rw [ring, hlen, hback]
    rfl
  refine ⟨⟨p, s.len + 1, s.end_, Function.update s.cells p.toNat x⟩, ?_, ?_, ?_, ?_⟩
  · rw [Fifo.pushFront, hp, Option.bind_some, write_eq hlt, Option.map_some]
  · rw [hring]
    exact RingBuf.pushFront_good hspace x
  · rw [h.end_, hlen, hback, Nat.mod_add_mod, show s.start.toNat + (SIZE.toNat - 1) +
      (s.len.toNat + 1) = s.start.toNat + s.len.toNat + SIZE.toNat by omega, Nat.add_mod_right]
  · rw [hring, RingBuf.content_pushFront hspace, h.content]

/-- **Elements less at the front.** -/
theorem Holds.popFrontMultiple (hdvd : SIZE.toNat ∣ 2 ^ w) (h : s.Holds SIZE q)
    {count : BitVec w} (hcount : count.toNat ≤ q.length) :
    ∃ s', s.popFrontMultiple SIZE count = some s' ∧ s'.Holds SIZE (q.drop count.toNat) := by
  obtain ⟨p, hp, hval, -⟩ := rem_eq hdvd (BitVec.toNat_add s.start count)
  rw [← h.length] at hcount
  have hlen : (s.len - count).toNat = s.len.toNat - count.toNat := BitVec.toNat_sub_of_le hcount
  have hring : ring { s with start := p, len := s.len - count } =
      s.ring.dropFront SIZE.toNat count.toNat := by
    rw [ring, hlen, hval]
    rfl
  refine ⟨{ s with start := p, len := s.len - count }, ?_, ?_, ?_, ?_⟩
  · rw [Fifo.popFrontMultiple, hp, Option.map_some]
  · rw [hring]
    exact h.good.dropFront (pos_of_dvd hdvd) _
  · show s.end_.toNat = (p.toNat + (s.len - count).toNat) % SIZE.toNat
    rw [h.end_, hval, hlen, Nat.mod_add_mod]
    congr 1
    omega
  · rw [hring, RingBuf.content_dropFront hcount, h.content]

/-- Only the cells below the capacity count. -/
theorem Holds.of_cells (hpos : 0 < SIZE.toNat) (h : s.Holds SIZE q) {cells : ℕ → α}
    (hcells : ∀ i < SIZE.toNat, cells i = s.cells i) :
    Holds SIZE { s with cells := cells } q := by
  refine ⟨⟨h.good.head, h.good.len⟩, h.end_, ?_⟩
  rw [← h.content]
  exact RingBuf.content_congr hpos rfl rfl hcells

/-- Elements that are written behind the end, one after the other. -/
def writeBehind (s : Fifo α w) (SIZE : BitVec w) (values : List α) : ℕ → α :=
  values.zipIdx.foldl
    (fun cells v => Function.update cells ((s.end_.toNat + v.2) % SIZE.toNat) v.1) s.cells

/-- **A bulk push**, when its elements are in their cells. -/
theorem Holds.pushAll (hdvd : SIZE.toNat ∣ 2 ^ w) (h : s.Holds SIZE q) {values : List α}
    (hfit : q.length + values.length ≤ SIZE.toNat) :
    ∃ e, rem SIZE (s.end_ + BitVec.ofNat w values.length) = some e ∧
      Holds SIZE ⟨s.start, s.len + BitVec.ofNat w values.length, e,
        s.writeBehind SIZE values⟩ (q ++ values) := by
  obtain ⟨e, he, hval, -⟩ := rem_add hdvd s.end_ values.length
  have hlen := toNat_len_add h hfit
  have hspace : s.ring.len + values.length ≤ SIZE.toNat := by rwa [← h.length] at hfit
  have hring : ring ⟨s.start, s.len + BitVec.ofNat w values.length, e,
      s.writeBehind SIZE values⟩ = s.ring.pushAll SIZE.toNat values := by
    have hfirst : (s.ring.head + s.ring.len) % SIZE.toNat = (s.end_.toNat + 0) % SIZE.toNat := by
      rw [Nat.add_zero, h.end_, Nat.mod_mod]
      rfl
    have hcells := RingBuf.pushAll_cells values hfirst
    have hhead := RingBuf.pushAll_head (N := SIZE.toNat) values s.ring
    have hlen' := RingBuf.pushAll_len (N := SIZE.toNat) values s.ring
    rw [ring, hlen]
    exact (congr (congr (congrArg RingBuf.mk hcells) hhead) hlen').symm
  refine ⟨e, he, ?_, ?_, ?_⟩
  · rw [hring]
    exact h.good.pushAll hspace
  · rw [hval, hlen, h.end_, Nat.mod_add_mod, Nat.add_assoc]
  · rw [hring, RingBuf.content_pushAll hspace, h.content]

end Invariant

end Fifo

/-- Steps that all come to something. -/
theorem foldlM_eq_some {σ β : Type*} {f : σ → β → Option σ} {g : σ → β → σ} {l : List β}
    (h : ∀ s, ∀ b ∈ l, f s b = some (g s b)) (s : σ) : l.foldlM f s = some (l.foldl g s) := by
  induction l generalizing s with
  | nil => rfl
  | cons b l ih =>
      rw [List.foldlM_cons, h s b List.mem_cons_self]
      exact ih (fun s' b' hb' => h s' b' (List.mem_cons_of_mem _ hb')) (g s b)

/-- Steps one of which comes to nothing. -/
theorem foldlM_eq_none {σ β : Type*} {f : σ → β → Option σ} {l : List β} {b : β} (hb : b ∈ l)
    (h : ∀ s, f s b = none) (s : σ) : l.foldlM f s = none := by
  induction l generalizing s with
  | nil => exact absurd hb List.not_mem_nil
  | cons b' l ih =>
      rw [List.foldlM_cons]
      rcases List.mem_cons.mp hb with rfl | hb
      · rw [h s]
        rfl
      · cases f s b' with
        | none => rfl
        | some s' => exact ih hb s'

/-! ### Bulk pushes -/

/-- **The bulk push of `FixedFifo`.** -/
theorem FixedFifo.holds_pushBackMultiple {α : Type} {SIZE : BitVec 16} {s : Fifo α 16} {q : List α}
    (hdvd : SIZE.toNat ∣ 2 ^ 16) (h : s.Holds SIZE q) {values : List α}
    (hfit : q.length + values.length ≤ SIZE.toNat) :
    ∃ s', FixedFifo.pushBackMultiple SIZE values s = some s' ∧ s'.Holds SIZE (q ++ values) := by
  obtain ⟨e, he, hholds⟩ := h.pushAll hdvd hfit
  refine ⟨_, ?_, hholds⟩
  rw [FixedFifo.pushBackMultiple, he, Option.bind_some,
    foldlM_eq_some (g := fun cells v =>
      Function.update cells ((s.end_.toNat + v.2) % SIZE.toNat) v.1)]
  · rfl
  · intro cells v _
    obtain ⟨i, hi, hval, hlt⟩ := Fifo.rem_add hdvd s.end_ v.2
    rw [hi, Option.bind_some, Fifo.write_eq hlt, hval]

namespace FastFixedFifo

variable {α : Type} {w : ℕ} {SIZE : BitVec w} {s : Fifo α w} {q : List α}

/-- Elements that stay in the mapping. -/
theorem writeAll_eq {first : ℕ} {values : List (α × ℕ)}
    (h : ∀ v ∈ values, first + v.2 < 2 * SIZE.toNat) (cells : ℕ → α) :
    writeAll SIZE first values cells = some (values.foldl
      (fun cells v => Function.update cells ((first + v.2) % SIZE.toNat) v.1) cells) :=
  foldlM_eq_some (fun _ v hv => if_pos (h v hv)) cells

/-- The rounds of the fast loop write the elements in their order. -/
theorem rounds_eq {first size lanes : ℕ} (hlanes : lanes * size = 64) {values : List α} (n : ℕ)
    (hn : n * lanes ≤ values.length) (cells : ℕ → α) :
    ((List.range n).map (· * lanes)).foldlM
        (fun cells i =>
          if i * size + 64 ≤ values.length * size then
            writeAll SIZE first (((values.drop i).take lanes).zipIdx i) cells
          else none) cells =
      writeAll SIZE first (values.take (n * lanes)).zipIdx cells := by
  induction n with
  | zero => rw [Nat.zero_mul]; rfl
  | succ n ih =>
      have hle : n * lanes + lanes ≤ values.length := by rwa [← Nat.succ_mul]
      have hround : n * lanes * size + 64 ≤ values.length * size := by
        rw [← hlanes, ← Nat.add_mul]
        exact Nat.mul_le_mul_right _ hle
      have htake : (values.take (n * lanes)).length = n * lanes := by
        rw [List.length_take]
        omega
      rw [List.range_succ, List.map_append, List.foldlM_append, ih (by omega), Nat.succ_mul,
        List.take_add, List.zipIdx_append, htake, Nat.zero_add]
      unfold writeAll
      rw [List.foldlM_append]
      congr 1
      funext cells'
      simp only [List.map_singleton, List.foldlM_cons, List.foldlM_nil, if_pos hround,
        bind_pure]

/-- **The fast loop** copies the elements, when 64 bytes are whole elements. -/
theorem fastCopy_eq {size : ℕ} (hsize : size ∣ 64) {values : List α}
    (hvalues : values.length * size % 64 = 0) (first : ℕ) (cells : ℕ → α) :
    fastCopy SIZE size first values cells = writeAll SIZE first values.zipIdx cells := by
  obtain ⟨lanes, hlanes⟩ := hsize
  have hsize : 0 < size := Nat.pos_of_ne_zero fun h => by simp [h] at hlanes
  have hpos : 0 < lanes := Nat.pos_of_ne_zero fun h => by simp [h] at hlanes
  have hdiv : 64 / size = lanes := Nat.div_eq_of_eq_mul_right hsize hlanes
  obtain ⟨n, hn⟩ : lanes ∣ values.length := by
    refine Nat.dvd_of_mul_dvd_mul_right hsize ?_
    rw [Nat.mul_comm lanes, ← hlanes]
    exact Nat.dvd_of_mod_eq_zero hvalues
  have hrounds : (values.length + lanes - 1) / lanes = n := by
    rw [hn, show lanes * n + lanes - 1 = lanes - 1 + lanes * n by omega,
      Nat.add_mul_div_left _ _ hpos, Nat.div_eq_of_lt (by omega), Nat.zero_add]
  rw [fastCopy]
  simp only [hdiv]
  rw [if_neg (by omega), hrounds, rounds_eq (by rw [hlanes, Nat.mul_comm]) n
    (by rw [hn, Nat.mul_comm]), List.take_of_length_le (by rw [hn, Nat.mul_comm])]

/-- **The bulk push of `FastFixedFifo`.** -/
theorem holds_pushBackMultiple {pod : Pod α} (hdvd : SIZE.toNat ∣ 2 ^ w) (hsize : pod.size ∣ 64)
    (h : s.Holds SIZE q) {fast : Bool} {values : List α}
    (hfit : q.length + values.length ≤ SIZE.toNat)
    (hvalues : fast = true → values.length * pod.size % 64 = 0) :
    ∃ s', pushBackMultiple SIZE pod fast values s = some s' ∧ s'.Holds SIZE (q ++ values) := by
  obtain ⟨e, he, hholds⟩ := h.pushAll hdvd hfit
  have hwrites : writeAll SIZE s.end_.toNat values.zipIdx s.cells =
      some (s.writeBehind SIZE values) := by
    refine writeAll_eq (fun v hv => ?_) s.cells
    have hend : s.end_.toNat < SIZE.toNat := h.end_lt
    have hidx := List.snd_lt_of_mem_zipIdx hv
    omega
  have hcells : (if fast then fastCopy SIZE pod.size s.end_.toNat values s.cells
      else writeAll SIZE s.end_.toNat values.zipIdx s.cells) =
      some (s.writeBehind SIZE values) := by
    split
    · rw [fastCopy_eq hsize (hvalues ‹_›), hwrites]
    · exact hwrites
  exact ⟨_, by rw [pushBackMultiple, he, Option.bind_some, hcells, Option.map_some], hholds⟩

end FastFixedFifo

/-! ### Savestates -/

/-- A load of what was saved. -/
theorem reload_eq {σ : Type} {walk : Savestate σ} {self target loaded : σ} (saved : σ)
    (data : List UInt8) (hsave : walk self newSave = some (saved, { newSave with buf := data }))
    (hload : walk target (newLoad data) = some (loaded, { newLoad data with pos := data.length })) :
    reload walk self target = some loaded := by
  rw [reload, hsave, Option.bind_some]
  show ((some data).bind fun data => _) = _
  rw [Option.bind_some, hload, Option.bind_some]
  exact if_pos (by rw [isLoadSuccessful_iff]; exact ⟨rfl, rfl⟩)

/-- **The savestate of `FixedFifo`** gives back the indices and the cells. -/
theorem FixedFifo.holds_savestate {α : Type} {SIZE : BitVec 16} {t : Tree α} {s : Fifo α 16}
    {q : List α} (hsame : ∀ a b, t.Same a b → a = b) (hfits : ∀ n a, t.Fits n a)
    (hpos : 0 < SIZE.toNat) (h : s.Holds SIZE q) (target : Fifo α 16) :
    ∃ s', reload (FixedFifo.savestate SIZE t) s target = some s' ∧ s'.Holds SIZE q := by
  let saved := FixedFifo.savedTree SIZE t
  let value := FixedFifo.fields SIZE s
  have hsave := saved.walks.save value newSave rfl rfl
  have hfit : saved.Fits (saved.bytes value).length value :=
    ⟨trivial, trivial, trivial, fun a _ => hfits _ a⟩
  obtain ⟨loaded, hload, hloaded⟩ := saved.walk_bytes hfit (FixedFifo.fields SIZE target)
  -- the fields are the same, cell by cell
  have hvalue : loaded = value := by
    obtain ⟨hstart, hlen, hend, hcells⟩ := hloaded
    have hlist : List.Forall₂ (· = ·) value.2.2.2.toList loaded.2.2.2.toList :=
      hcells.imp fun a b => hsame a b
    rw [List.forall₂_eq_eq_eq] at hlist
    exact Prod.ext hstart.symm (Prod.ext hlen.symm (Prod.ext hend.symm
      (List.Vector.toList_injective hlist.symm)))
  refine ⟨FixedFifo.withFields SIZE target value, ?_, ?_⟩
  · refine reload_eq (FixedFifo.withFields SIZE s value) (saved.bytes value) ?_ ?_
    · rw [FixedFifo.savestate, hsave]
      rfl
    · rw [FixedFifo.savestate, hload, hvalue]
      rfl
  · refine h.of_cells hpos fun i hi => ?_
    rw [dif_pos hi]
    exact List.Vector.get_ofFn _ _

/-- **The savestate of `FastFixedFifo`** puts the elements at the start. -/
theorem FastFixedFifo.holds_savestate {α : Type} {w : ℕ} (hw : w ≤ 64) {SIZE : BitVec w}
    {pod : Pod α} {s : Fifo α w} {q : List α} (hdvd : SIZE.toNat ∣ 2 ^ w) (h : s.Holds SIZE q)
    (target : Fifo α w) :
    ∃ s', reload (FastFixedFifo.savestate SIZE pod) s target = some s' ∧ s'.Holds SIZE q := by
  have hpos := Fifo.pos_of_dvd hdvd
  let elements := FastFixedFifo.view SIZE s s.start.toNat s.len.toNat
  let lenBytes := (Pod.word 8).bytes (s.len.setWidth (8 * 8))
  let data := lenBytes ++ (pod.slice s.len.toNat).bytes elements
  obtain ⟨e, he, hend, -⟩ := Fifo.rem_eq hdvd (i := s.len) (Nat.mod_eq_of_lt s.len.isLt).symm
  have hle : s.len.toNat ≤ SIZE.toNat := h.good.len
  have hlong : ¬ SIZE < s.len := by
    rw [BitVec.lt_def]
    omega
  let loaded : Fifo α w := ⟨0, s.len, e,
    fun i => if h : i < s.len.toNat then elements.get ⟨i, h⟩ else target.cells i⟩
  refine ⟨loaded, reload_eq s data ?_ ?_, ⟨?_, hle⟩, ?_, ?_⟩
  · have hlenSave := (walks_usize hw).save s.len newSave rfl rfl
    have hsave := (walks_bytesOf (pod.slice s.len.toNat)).save elements
      { newSave with buf := newSave.buf ++ lenBytes } rfl rfl
    rw [FastFixedFifo.savestate, hlenSave, Option.bind_some]
    simp only [newSave, if_true] at hsave ⊢
    rw [hsave]
    rfl
  · obtain ⟨len, hlenLoad, hlen⟩ := (walks_usize hw).load s.len target.len
      ((pod.slice s.len.toNat).bytes elements) (newLoad data) (loading_newLoad data) rfl rfl trivial
    obtain rfl : s.len = len := hlen
    have hbehind : (newLoad data).buf.drop (0 + lenBytes.length) =
        (pod.slice s.len.toNat).bytes elements ++ [] := by
      rw [Nat.zero_add, List.append_nil]
      exact List.drop_left
    have hle' : 0 + lenBytes.length ≤ data.length := by
      rw [Nat.zero_add, List.length_append]
      exact Nat.le_add_right _ _
    obtain ⟨elements', hload, hsame⟩ := (walks_bytesOf (pod.slice s.len.toNat)).load elements
      (FastFixedFifo.view SIZE target.clear 0 _) []
      { newLoad data with pos := 0 + lenBytes.length } ⟨rfl, hle'⟩ rfl hbehind trivial
    obtain rfl : elements = elements' := hsame
    rw [FastFixedFifo.savestate, hlenLoad, Option.bind_some, if_neg (fun hs => Bool.noConfusion hs),
      if_neg hlong]
    refine (congrArg (fun o => Option.bind o _) hload).trans ?_
    rw [Option.bind_some, he, Option.map_some]
    refine congrArg (fun pos => some (loaded, (⟨data, pos, false, false⟩ : SavestateContext))) ?_
    rw [Nat.zero_add, ← List.length_append]
  · exact (BitVec.toNat_zero).trans_lt hpos
  · show e.toNat = ((0 : BitVec w).toNat + s.len.toNat) % SIZE.toNat
    rw [hend, show (0 : BitVec w).toNat = 0 from BitVec.toNat_zero, Nat.zero_add]
  · -- the element at each place is the one that was there
    rw [← h.content]
    refine List.map_congr_left fun i hi => ?_
    have hi' : i < s.len.toNat := List.mem_range.mp hi
    have hzero : ((0 : BitVec w).toNat + i) % SIZE.toNat = i := by
      rw [show (0 : BitVec w).toNat = 0 from BitVec.toNat_zero, Nat.zero_add,
        Nat.mod_eq_of_lt (by omega)]
    show loaded.cells (((0 : BitVec w).toNat + i) % SIZE.toNat) =
      s.cells ((s.start.toNat + i) % SIZE.toNat)
    rw [hzero]
    exact (dif_pos hi').trans (List.Vector.get_ofFn _ _)

/-! ## The laws -/

section Laws

variable {α : Type}

variable {Mode : Type} {w : ℕ} {SIZE : BitVec w}
  {bulk : Mode → List α → Fifo α w → Option (Fifo α w)} {walk : Savestate (Fifo α w)}
  {takes : Mode → ℕ → Bool}

/-- **Every operation on a fifo** is that on its queue, when its own ones are. -/
theorem Fifo.Holds.step (hdvd : SIZE.toNat ∣ 2 ^ w) {s : Fifo α w} {q q' : List α}
    (h : s.Holds SIZE q) {op : DequeOp α w Mode}
    (hbulk : ∀ mode values, takes mode values.length = true →
      q.length + values.length ≤ SIZE.toNat →
        ∃ s', bulk mode values s = some s' ∧ s'.Holds SIZE (q ++ values))
    (hwalk : ∀ target, ∃ s', reload walk s target = some s' ∧ s'.Holds SIZE q)
    (hnext : op.next SIZE.toNat takes q = some q') :
    ∃ s', Fifo.step SIZE bulk walk s op = some s' ∧ s'.Holds SIZE q' := by
  have hpos := Fifo.pos_of_dvd hdvd
  cases op with
  | pushBack x =>
      obtain ⟨hfit, hq⟩ := Option.ite_none_right_eq_some.mp hnext
      exact Option.some.inj hq ▸ h.pushBack hdvd hfit x
  | pushFront x =>
      obtain ⟨hfit, hq⟩ := Option.ite_none_right_eq_some.mp hnext
      exact Option.some.inj hq ▸ h.pushFront hdvd hfit x
  | popFront =>
      obtain ⟨hne, hq⟩ := Option.ite_none_left_eq_some.mp hnext
      have hone : (1 : BitVec w).toNat = 1 := by
        have hlt := SIZE.isLt
        refine BitVec.toNat_one (Nat.pos_of_ne_zero ?_)
        rintro rfl
        omega
      have hfit : (1 : BitVec w).toNat ≤ q.length := by
        rw [hone]
        omega
      have hpop := h.popFrontMultiple hdvd hfit
      rw [hone, List.drop_one, Option.some.inj hq] at hpop
      exact hpop
  | popFrontMultiple count =>
      obtain ⟨hcount, hq⟩ := Option.ite_none_right_eq_some.mp hnext
      exact Option.some.inj hq ▸ h.popFrontMultiple hdvd hcount
  | pushBackMultiple mode values =>
      obtain ⟨hfit, hq⟩ := Option.ite_none_right_eq_some.mp hnext
      exact Option.some.inj hq ▸ hbulk mode values hfit.2 hfit.1
  | clear =>
      obtain rfl := Option.some.inj hnext
      exact ⟨_, rfl, Fifo.holds_empty hpos _⟩
  | savestate target =>
      obtain rfl := Option.some.inj hnext
      exact hwalk target

/-- A fifo that holds its queue at every step is the queue. -/
theorem Fifo.refines_of_step (hdvd : SIZE.toNat ∣ 2 ^ w)
    (hbulk : ∀ s q mode values, s.Holds SIZE q → takes mode values.length = true →
      q.length + values.length ≤ SIZE.toNat →
        ∃ s', bulk mode values s = some s' ∧ s'.Holds SIZE (q ++ values))
    (hwalk : ∀ s q target, s.Holds SIZE q →
      ∃ s', reload walk s target = some s' ∧ s'.Holds SIZE q) (zero : α) :
    Fifo.Refines SIZE (Fifo.step SIZE bulk walk) takes zero := by
  have hrun : ∀ (ops : List (DequeOp α w Mode)) (s : Fifo α w) (q q' : List α), s.Holds SIZE q →
      ops.foldlM (DequeOp.next SIZE.toNat takes) q = some q' →
      ∃ s', ops.foldlM (Fifo.step SIZE bulk walk) s = some s' ∧ s'.Holds SIZE q' := by
    intro ops
    induction ops with
    | nil =>
        intro s q q' h hq
        obtain rfl := Option.some.inj hq
        exact ⟨s, rfl, h⟩
    | cons op ops ih =>
        intro s q q' h hq
        rw [List.foldlM_cons] at hq
        obtain ⟨q₁, hnext, hrest⟩ := Option.bind_eq_some_iff.mp hq
        obtain ⟨s₁, hs₁, h₁⟩ := h.step hdvd (fun mode values => hbulk s q mode values h)
          (fun target => hwalk s q target h) hnext
        rw [List.foldlM_cons, hs₁]
        exact ih s₁ q₁ q' h₁ hrest
  intro ops q hq
  obtain ⟨s, hs, h⟩ := hrun ops _ [] q (Fifo.holds_empty (Fifo.pos_of_dvd hdvd) _) hq
  exact ⟨s, hs, h.shows hdvd⟩

/-! ### Other capacities -/

/-- What is before the first cell, for a capacity that does not divide the wrap: not the last
one. -/
theorem Fifo.rem_before (hpos : 0 < SIZE.toNat) (hdvd : ¬ SIZE.toNat ∣ 2 ^ w) :
    ((0 - 1 : BitVec w) % SIZE).toNat + 1 < SIZE.toNat := by
  have hlt := SIZE.isLt
  have hone : (1 : BitVec w).toNat = 1 := by
    refine BitVec.toNat_one (Nat.pos_of_ne_zero ?_)
    rintro rfl
    omega
  have hminus : (0 - 1 : BitVec w).toNat = 2 ^ w - 1 := by
    rw [BitVec.toNat_sub, hone, show (0 : BitVec w).toNat = 0 from BitVec.toNat_zero, Nat.add_zero,
      Nat.mod_eq_of_lt (by omega)]
  have hmod := Nat.mod_lt (2 ^ w - 1) hpos
  rw [BitVec.toNat_umod, hminus]
  by_contra hlast
  refine hdvd (Nat.dvd_of_mod_eq_zero ?_)
  rw [show 2 ^ w = 2 ^ w - 1 + 1 by omega, Nat.add_mod, show (2 ^ w - 1) % SIZE.toNat =
    SIZE.toNat - 1 by omega, Nat.add_mod_mod, show SIZE.toNat - 1 + 1 = SIZE.toNat by omega,
    Nat.mod_self]

/-- An index before the end of the cells. -/
theorem Fifo.index_eq {s : Fifo α w} {i : BitVec w} {n : ℕ} (hi : (i + s.start).toNat = n)
    (hn : n < SIZE.toNat) : s.index SIZE i = some (s.cells n) := by
  have hne : SIZE ≠ 0 := by
    rintro rfl
    exact absurd hn (by simp)
  have hmod : ((i + s.start) % SIZE).toNat = n := by
    rw [BitVec.toNat_umod, hi, Nat.mod_eq_of_lt hn]
  have hlt : (i + s.start) % SIZE < SIZE := by
    rw [BitVec.lt_def, hmod]
    exact hn
  rw [Fifo.index, Fifo.rem, if_neg hne, Option.bind_some, Fifo.read, if_pos hlt, hmod]

/-- **An element in front of the first cell** and one behind it: for a capacity that does not divide
the wrap, the cells do not follow one another. -/
theorem Fifo.dvd_of_refines [Nontrivial α] {zero : α} (hpos : 0 < SIZE.toNat)
    (h : Fifo.Refines SIZE (Fifo.step SIZE bulk walk) takes zero) : SIZE.toNat ∣ 2 ^ w := by
  by_contra hdvd
  obtain ⟨other, hother⟩ := exists_ne zero
  have hlt := SIZE.isLt
  have hbefore := Fifo.rem_before hpos hdvd
  set p : BitVec w := (0 - 1) % SIZE with hp
  have hne : SIZE ≠ 0 := by
    rintro rfl
    simp at hpos
  have hzero : (0 : BitVec w).toNat = 0 := BitVec.toNat_zero
  have hone : (1 : BitVec w).toNat = 1 := by
    refine BitVec.toNat_one (Nat.pos_of_ne_zero ?_)
    rintro rfl
    omega
  -- the two pushes
  have hqueue : ([DequeOp.pushFront zero, .pushBack other] : List (DequeOp α w Mode)).foldlM
      (DequeOp.next SIZE.toNat takes) [] = some [zero, other] := by
    have hfront : (DequeOp.pushFront zero : DequeOp α w Mode).next SIZE.toNat takes [] =
        some [zero] := if_pos hpos
    have hback : (DequeOp.pushBack other : DequeOp α w Mode).next SIZE.toNat takes [zero] =
        some [zero, other] := if_pos (by rw [List.length_singleton]; omega)
    rw [List.foldlM_cons, hfront]
    exact (congrArg (Option.bind · _) hback)
  let cells := Function.update (Function.update (fun _ => zero) p.toNat zero) 0 other
  have hpushes : ([DequeOp.pushFront zero, .pushBack other] : List (DequeOp α w Mode)).foldlM
      (Fifo.step SIZE bulk walk) (Fifo.new zero) =
      some ⟨p, 0 + 1 + 1, (0 + 1) % SIZE, cells⟩ := by
    have hpos' : (0 : BitVec w) < SIZE := by
      rw [BitVec.lt_def, hzero]
      exact hpos
    have hlt' : p < SIZE := by
      rw [BitVec.lt_def]
      omega
    have hfront : Fifo.step SIZE bulk walk (Fifo.new zero) (.pushFront zero) =
        some ⟨p, 0 + 1, 0, Function.update (fun _ => zero) p.toNat zero⟩ := by
      simp only [Fifo.step, Fifo.pushFront, Fifo.new, Fifo.rem, if_neg hne, Option.bind_some,
        ← hp, Fifo.write_eq hlt', Option.map_some]
    have hback : Fifo.step SIZE bulk walk
        ⟨p, 0 + 1, 0, Function.update (fun _ => zero) p.toNat zero⟩ (.pushBack other) =
        some ⟨p, 0 + 1 + 1, (0 + 1) % SIZE, cells⟩ := by
      simp only [Fifo.step, Fifo.pushBack, Fifo.rem, if_neg hne, Option.bind_some,
        Fifo.write_eq hpos', Option.map_some, hzero, cells]
    rw [List.foldlM_cons, hfront]
    exact (congrArg (Option.bind · _) hback)
  obtain ⟨s, hs, hshows⟩ := h _ _ hqueue
  obtain rfl := Option.some.inj (hpushes.symm.trans hs)
  have hcells {i : ℕ} (hi : i ≠ 0) : cells i = zero :=
    (Function.update_of_ne hi _ _).trans (by rw [Function.update_apply, ite_self])
  by_cases hfirst : p.toNat = 0
  · -- both are in the first cell
    have hget := hshows.index 0 (by rw [hzero]; exact Nat.zero_lt_two)
    have hplace : (0 + p).toNat = 0 := by
      rw [BitVec.toNat_add, hzero, hfirst, Nat.zero_mod]
    rw [Fifo.index_eq hplace hpos, hzero] at hget
    exact hother (Option.some.inj hget)
  · -- the cell behind the first element has not been written
    have hget := hshows.index 1 (by rw [hone]; exact Nat.one_lt_two)
    have hplace : (1 + p).toNat = 1 + p.toNat := by
      rw [BitVec.toNat_add, hone, Nat.mod_eq_of_lt (by omega)]
    rw [Fifo.index_eq hplace (by omega), hone] at hget
    exact hother ((Option.some.inj hget).symm.trans (hcells (by omega)))

/-- Elements that are no part of 64 bytes: the last round of a fast push reads behind its source. -/
theorem FastFixedFifo.fastCopy_eq_none {size : ℕ} (hsize : ¬ size ∣ 64)
    {values : List α} (hvalues : 0 < values.length) (first : ℕ) (cells : ℕ → α) :
    FastFixedFifo.fastCopy SIZE size first values cells = none := by
  unfold FastFixedFifo.fastCopy
  dsimp only
  split
  · rfl
  · rename_i hpos
    rw [not_or] at hpos
    set lanes := 64 / size with hlanes
    have hshort : lanes * size < 64 := by
      refine lt_of_le_of_ne (Nat.div_mul_le_self 64 size) fun heq => hsize ⟨lanes, ?_⟩
      rw [Nat.mul_comm, heq]
    have hlanes' : 0 < lanes := Nat.pos_of_ne_zero hpos.2
    -- the last round starts less than a round before the end
    obtain ⟨n, hn, hlast⟩ : ∃ n < (values.length + lanes - 1) / lanes,
        values.length ≤ n * lanes + lanes := by
      refine ⟨(values.length - 1) / lanes, ?_, ?_⟩
      · rw [show values.length + lanes - 1 = values.length - 1 + lanes by omega,
          Nat.add_div_right _ hlanes']
        exact Nat.lt_succ_self _
      · have hmod := Nat.mod_lt (values.length - 1) hlanes'
        have hdiv := Nat.div_add_mod' (values.length - 1) lanes
        omega
    refine foldlM_eq_none (List.mem_map.mpr ⟨n, List.mem_range.mpr hn, rfl⟩) (fun cells => ?_) cells
    refine if_neg fun hround => ?_
    have hmul := Nat.mul_le_mul_right size hlast
    rw [Nat.add_mul] at hmul
    omega

/-- **Fast pushes** need elements that 64 bytes are made of. -/
theorem FastFixedFifo.dvd_of_refines {pod : Pod α} {zero : α}
    (hbytes : 4096 < pod.size * SIZE.toNat)
    (h : Fifo.Refines SIZE (FastFixedFifo.step SIZE pod) (FastFixedFifo.takes pod) zero) :
    pod.size ∣ 64 := by
  by_contra hsize
  obtain ⟨values, hfit, htakes, hnone⟩ : ∃ values : List α, values.length ≤ SIZE.toNat ∧
      values.length * pod.size % 64 = 0 ∧ ∀ first cells,
        FastFixedFifo.fastCopy SIZE pod.size first values cells = none := by
    by_cases hle : pod.size ≤ 64
    · refine ⟨List.replicate 64 zero, ?_, ?_, fun first cells =>
        FastFixedFifo.fastCopy_eq_none hsize (by rw [List.length_replicate]; omega) first cells⟩
      · have hmul := Nat.mul_le_mul_right SIZE.toNat hle
        rw [List.length_replicate]
        omega
      · rw [List.length_replicate, Nat.mul_mod_right]
    · refine ⟨[], Nat.zero_le _, by rw [List.length_nil, Nat.zero_mul], fun first cells => ?_⟩
      rw [FastFixedFifo.fastCopy]
      exact if_pos (.inr (Nat.div_eq_of_lt (by omega)))
  have hqueue : [DequeOp.pushBackMultiple true values].foldlM
      (DequeOp.next (w := w) SIZE.toNat (FastFixedFifo.takes pod)) [] = some values := by
    have hnext : (DequeOp.pushBackMultiple true values : DequeOp α w Bool).next SIZE.toNat
        (FastFixedFifo.takes pod) [] = some values :=
      if_pos ⟨by rwa [List.length_nil, Nat.zero_add], decide_eq_true htakes⟩
    rw [List.foldlM_cons, hnext]
    rfl
  obtain ⟨s, hs, -⟩ := h _ _ hqueue
  have hstep : FastFixedFifo.step SIZE pod (Fifo.new zero) (.pushBackMultiple true values) =
      none := by
    rw [FastFixedFifo.step, Fifo.step, FastFixedFifo.pushBackMultiple, if_pos rfl, hnone]
    exact Option.bind_fun_none _
  rw [List.foldlM_cons, hstep] at hs
  exact Option.some_ne_none s hs.symm

/-! ### The capacities -/

/-- **The fifos are queues** exactly for the capacities that divide the range of an index, and the
fast one for elements that 64 bytes are made of. -/
theorem fixed_fifo_law [Nontrivial α] (zero : α) (t : Tree α)
    (hsame : ∀ a b, t.Same a b → a = b) (hfits : ∀ n a, t.Fits n a) (pod : Pod α) {w : ℕ}
    (hw : w ≤ 64) :
    (∀ SIZE : BitVec 16,
      Fifo.Refines SIZE (FixedFifo.step SIZE t) (fun _ _ => true) zero ↔ SIZE.toNat ∣ 2 ^ 16) ∧
    ∀ SIZE : BitVec w, 4096 < pod.size * SIZE.toNat →
      (Fifo.Refines SIZE (FastFixedFifo.step SIZE pod) (FastFixedFifo.takes pod) zero ↔
        SIZE.toNat ∣ 2 ^ w ∧ pod.size ∣ 64) := by
  constructor
  · intro SIZE
    refine ⟨fun h => ?_, fun hdvd => ?_⟩
    · by_cases hpos : 0 < SIZE.toNat
      · exact Fifo.dvd_of_refines hpos h
      · -- the remainder by a capacity of zero panics
        obtain rfl : SIZE = 0 := BitVec.eq_of_toNat_eq (by simpa using hpos)
        obtain ⟨s, hs, -⟩ := h [.pushBackMultiple () []] [] rfl
        have hnone : ([.pushBackMultiple () []] : List (DequeOp α 16 Unit)).foldlM
            (FixedFifo.step 0 t) (Fifo.new zero) = none := rfl
        exact absurd (hs.symm.trans hnone) (Option.some_ne_none s)
    · exact Fifo.refines_of_step hdvd
        (fun s q _ values hs _ hfit => FixedFifo.holds_pushBackMultiple hdvd hs hfit)
        (fun s q target hs =>
          FixedFifo.holds_savestate hsame hfits (Fifo.pos_of_dvd hdvd) hs target) zero
  · intro SIZE hbytes
    have hpos : 0 < SIZE.toNat := Nat.pos_of_ne_zero fun h => by simp [h] at hbytes
    refine ⟨fun h => ⟨Fifo.dvd_of_refines hpos h, FastFixedFifo.dvd_of_refines hbytes h⟩, ?_⟩
    rintro ⟨hdvd, hsize⟩
    refine Fifo.refines_of_step hdvd (fun s q fast values hs htakes hfit => ?_)
      (fun s q target hs => FastFixedFifo.holds_savestate hw hdvd hs target) zero
    refine FastFixedFifo.holds_pushBackMultiple hdvd hsize hs hfit fun hfast => ?_
    rw [FastFixedFifo.takes, hfast] at htakes
    simpa using htakes

/-- A capacity of four, and a fast one of 8192 bytes. -/
theorem fixed_fifo_law_four :
    (Fifo.Refines 4 (FixedFifo.step 4 (.pod (Pod.word 1))) (fun _ _ => true) (0 : BitVec 8) ↔
        (4 : BitVec 16).toNat ∣ 2 ^ 16) ∧
      (Fifo.Refines (8192 : BitVec 32) (FastFixedFifo.step 8192 (Pod.word 1)) (FastFixedFifo.takes (Pod.word 1))
        (0 : BitVec 8) ↔ (8192 : BitVec 32).toNat ∣ 2 ^ 32 ∧ (Pod.word 1).size ∣ 64) := by
  have : Nontrivial (BitVec 8) := ⟨0, 1, by decide⟩
  have h := fixed_fifo_law (0 : BitVec 8) (.pod (Pod.word 1)) (fun a b h => h) (fun n a => trivial)
    (Pod.word 1) (show 32 ≤ 64 by decide)
  exact ⟨h.1 4, h.2 8192 (by decide)⟩

/-- With a capacity of three, an element pushed to the front of an empty fifo is lost to one pushed
to its back. -/
theorem front_element_lost :
    let ops : List (DequeOp (BitVec 8) 16 Unit) := [.pushFront 1, .pushBack 2]
    ops.foldlM (DequeOp.next 3 fun _ _ => true) [] = some [1, 2] ∧
      (ops.foldlM (FixedFifo.step 3 (.pod (Pod.word 1))) (Fifo.new 0)).bind (fun s => s.front 3) =
        some 2 := by
  decide

end Laws

end AdvancedSlop
