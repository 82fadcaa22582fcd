/-
# The return stack

`src/jit/jit_asm.rs`: a ring of return addresses without a depth counter.  A push writes `u32::MAX`
ahead of the top; clearing writes it at the last cell.

* `pushReturnStack`, `popReturnStack`, `clearReturnStackPtr` : the ring;
* `Call`, `enter` : the calls that have not returned, with how deep it got above each;
* `StackInv` : a cell of `u32::MAX` lies below the entries that are left;
* `return_stack_law` : what a pop returns.
-/
import Mathlib.Tactic

namespace AdvancedSlop

/-! ## The ring -/

/-- `RETURN_STACK_SIZE`. -/
def returnStackSize : ℕ := 64

/-- The return stack and its pointer. -/
structure ReturnStack where
  stack : ℕ → BitVec 32
  ptr : ℕ

namespace ReturnStack

/-- `push_return_stack`. -/
def pushReturnStack (s : ReturnStack) (value : BitVec 32) : ReturnStack :=
  let stack := Function.update s.stack s.ptr value
  let ptr := (s.ptr + 1) % returnStackSize
  ⟨Function.update stack ptr (BitVec.allOnes 32), ptr⟩

/-- `pop_return_stack`.  The pointer wraps below zero. -/
def popReturnStack (s : ReturnStack) : BitVec 32 × ReturnStack :=
  let ptr := (s.ptr + (returnStackSize - 1)) % returnStackSize
  (s.stack ptr, { s with ptr := ptr })

/-- `clear_return_stack_ptr`. -/
def clearReturnStackPtr (s : ReturnStack) : ReturnStack :=
  ⟨Function.update s.stack (returnStackSize - 1) (BitVec.allOnes 32), 0⟩

end ReturnStack

/-! ## Calls and returns -/

/-- A call pushes an address, a return pops one. -/
inductive StackOp
  | push (value : BitVec 32)
  | pop
  deriving DecidableEq, Repr

/-- A call that has not returned: the pushed value and the greatest number of calls above it so
far. -/
structure Call where
  value : BitVec 32
  peak : ℕ
  deriving DecidableEq, Repr

/-- A call on top of the others. -/
def enter (value : BitVec 32) (calls : List Call) : List Call :=
  ⟨value, 0⟩ :: calls.mapIdx fun i c => { c with peak := max c.peak (i + 1) }

/-- The calls after an operation, the last one first. -/
def callsAfter (calls : List Call) : StackOp → List Call
  | .push value => enter value calls
  | .pop => calls.tail

namespace ReturnStack

/-- The ring after an operation. -/
def run (s : ReturnStack) : StackOp → ReturnStack
  | .push value => s.pushReturnStack value
  | .pop => s.popReturnStack.2

/-- What the pops of a list of operations return. -/
def popped (s : ReturnStack) : List StackOp → List (BitVec 32)
  | [] => []
  | .push value :: ops => (s.pushReturnStack value).popped ops
  | .pop :: ops => s.popReturnStack.1 :: s.popReturnStack.2.popped ops

/-! ## The invariant -/

/-- The lowest `lost` calls are lost: the calls above each got as many as the ring has other cells.
The cell below the ones that are left holds `u32::MAX`. -/
structure StackInv (s : ReturnStack) (calls : List Call) (lost : ℕ) : Prop where
  lost_le : lost ≤ calls.length
  length_le : calls.length ≤ lost + 63
  ptr : s.ptr = calls.length % 64
  sentinel : s.stack ((lost + 63) % 64) = BitVec.allOnes 32
  entries : ∀ i c, calls[i]? = some c → i + lost < calls.length →
    s.stack ((calls.length - 1 - i) % 64) = c.value
  deep : ∀ i c, calls[i]? = some c → calls.length ≤ i + lost → 63 ≤ c.peak

variable {s : ReturnStack} {calls : List Call} {lost : ℕ}

/-- A cleared stack. -/
theorem stackInv_clear (s : ReturnStack) : StackInv s.clearReturnStackPtr [] 0 where
  lost_le := le_rfl
  length_le := Nat.zero_le _
  ptr := rfl
  sentinel := by
    show Function.update s.stack 63 (BitVec.allOnes 32) 63 = _
    rw [Function.update_self]
  entries := by simp
  deep := by simp

/-- The calls below a new one. -/
theorem enter_succ {value : BitVec 32} {i : ℕ} {c : Call}
    (h : (enter value calls)[i + 1]? = some c) :
    ∃ c', calls[i]? = some c' ∧ c = { c' with peak := max c'.peak (i + 1) } := by
  rw [enter, List.getElem?_cons_succ, List.getElem?_mapIdx, Option.map_eq_some_iff] at h
  obtain ⟨c', hc', rfl⟩ := h
  exact ⟨c', hc', rfl⟩

theorem length_enter (value : BitVec 32) (calls : List Call) :
    (enter value calls).length = calls.length + 1 := by
  rw [enter, List.length_cons, List.length_mapIdx]

/-- A cell that a push does not write. -/
theorem push_stack_of_ne (s : ReturnStack) (value : BitVec 32) {i : ℕ} (hi : i ≠ s.ptr)
    (hnext : i ≠ (s.ptr + 1) % 64) : (s.pushReturnStack value).stack i = s.stack i := by
  show Function.update (Function.update s.stack s.ptr value) ((s.ptr + 1) % 64) _ i = s.stack i
  rw [Function.update_of_ne hnext, Function.update_of_ne hi]

/-- The cell of the pushed value. -/
theorem push_stack_ptr (s : ReturnStack) (value : BitVec 32) :
    (s.pushReturnStack value).stack s.ptr = value := by
  show Function.update (Function.update s.stack s.ptr value) ((s.ptr + 1) % 64) _ s.ptr = value
  rw [Function.update_of_ne (by omega), Function.update_self]

/-- The cell ahead of the top. -/
theorem push_stack_next (s : ReturnStack) (value : BitVec 32) :
    (s.pushReturnStack value).stack ((s.ptr + 1) % 64) = BitVec.allOnes 32 :=
  Function.update_self ..

/-- **A push** loses the lowest call when the ring is full. -/
theorem StackInv.push (h : StackInv s calls lost) (value : BitVec 32) :
    ∃ lost', StackInv (s.pushReturnStack value) (enter value calls) lost' := by
  have hlost := h.lost_le
  have hlen := h.length_le
  have hptr := h.ptr
  have hnext : (s.ptr + 1) % 64 = (calls.length + 1) % 64 := by omega
  -- the entry on top, and those below that stay
  have hentries : ∀ lost', lost ≤ lost' → calls.length + 1 ≤ lost' + 63 → ∀ i c,
      (enter value calls)[i]? = some c → i + lost' < calls.length + 1 →
        (s.pushReturnStack value).stack ((calls.length + 1 - 1 - i) % 64) = c.value := by
    intro lost' hge hroom i c hc hi
    cases i with
    | zero =>
        obtain rfl := Option.some.inj hc
        rw [show (calls.length + 1 - 1 - 0) % 64 = s.ptr by omega]
        exact push_stack_ptr s value
    | succ i =>
        obtain ⟨c', hc', rfl⟩ := enter_succ hc
        rw [show calls.length + 1 - 1 - (i + 1) = calls.length - 1 - i by omega,
          push_stack_of_ne s value (by omega) (by omega)]
        exact h.entries i c' hc' (by omega)
  by_cases hfull : calls.length = lost + 63
  · refine ⟨lost + 1, ?_, ?_, ?_, ?_, ?_, ?_⟩
    · rw [length_enter]
      omega
    · rw [length_enter]
      omega
    · rw [length_enter]
      exact hnext
    · rw [show (lost + 1 + 63) % 64 = (s.ptr + 1) % 64 by omega]
      exact push_stack_next s value
    · rw [length_enter]
      exact hentries (lost + 1) (by omega) (by omega)
    · intro i c hc hi
      rw [length_enter] at hi
      cases i with
      | zero => omega
      | succ i =>
          obtain ⟨c', hc', rfl⟩ := enter_succ hc
          exact le_max_of_le_right (by omega)
  · refine ⟨lost, ?_, ?_, ?_, ?_, ?_, ?_⟩
    · rw [length_enter]
      omega
    · rw [length_enter]
      omega
    · rw [length_enter]
      exact hnext
    · by_cases hsame : (lost + 63) % 64 = (s.ptr + 1) % 64
      · rw [hsame]
        exact push_stack_next s value
      · rw [push_stack_of_ne s value (by omega) hsame]
        exact h.sentinel
    · rw [length_enter]
      exact hentries lost le_rfl (by omega)
    · intro i c hc hi
      rw [length_enter] at hi
      cases i with
      | zero => omega
      | succ i =>
          obtain ⟨c', hc', rfl⟩ := enter_succ hc
          exact le_max_of_le_left (h.deep i c' hc' (by omega))

/-- **A pop** finds the last call, unless that is lost. -/
theorem StackInv.pop_value (h : StackInv s calls lost) :
    (calls.length = lost → s.popReturnStack.1 = BitVec.allOnes 32) ∧
      (lost < calls.length → ∃ c rest, calls = c :: rest ∧ s.popReturnStack.1 = c.value) := by
  have hptr := h.ptr
  constructor
  · intro hlen
    show s.stack ((s.ptr + 63) % 64) = _
    rw [show (s.ptr + 63) % 64 = (lost + 63) % 64 by omega]
    exact h.sentinel
  · intro hlt
    cases hcalls : calls with
    | nil =>
        rw [hcalls] at hlt
        exact absurd hlt (Nat.not_lt_zero _)
    | cons c rest =>
        refine ⟨c, rest, rfl, ?_⟩
        have hfirst : calls[0]? = some c := by
          rw [hcalls]
          rfl
        show s.stack ((s.ptr + 63) % 64) = _
        rw [show (s.ptr + 63) % 64 = (calls.length - 1 - 0) % 64 by omega]
        exact h.entries 0 c hfirst (by omega)

/-- The pointer after a pop that found a call. -/
theorem StackInv.pop (h : StackInv s calls lost) (hlt : lost < calls.length) :
    StackInv s.popReturnStack.2 calls.tail lost := by
  have hptr := h.ptr
  have hlen := h.length_le
  have htail : calls.tail.length = calls.length - 1 := List.length_tail
  refine ⟨by omega, by omega, ?_, h.sentinel, ?_, ?_⟩
  · show (s.ptr + 63) % 64 = calls.tail.length % 64
    omega
  · intro i c hc hi
    rw [List.getElem?_tail] at hc
    rw [show calls.tail.length - 1 - i = calls.length - 1 - (i + 1) by omega]
    exact h.entries (i + 1) c hc (by omega)
  · intro i c hc hi
    rw [List.getElem?_tail] at hc
    exact h.deep (i + 1) c hc (by omega)

/-- The invariant along a run in which no pop returned `u32::MAX`. -/
theorem StackInv.run (h : StackInv s calls lost) {ops : List StackOp}
    (hops : BitVec.allOnes 32 ∉ s.popped ops) :
    ∃ lost', StackInv (ops.foldl ReturnStack.run s) (ops.foldl callsAfter calls) lost' := by
  induction ops generalizing s calls lost with
  | nil => exact ⟨lost, h⟩
  | cons op ops ih =>
      cases op with
      | push value =>
          obtain ⟨lost', h'⟩ := h.push value
          exact ih h' hops
      | pop =>
          rw [popped, List.mem_cons, not_or] at hops
          obtain ⟨hfirst, hrest⟩ := hops
          have hlt : lost < calls.length := by
            refine lt_of_le_of_ne h.lost_le fun heq => hfirst ?_
            exact (h.pop_value.1 heq.symm).symm
          exact ih (h.pop hlt) hrest

/-- **The return stack.**  After any calls and returns from a cleared stack, as long as no pop has
returned `u32::MAX`, the next pop returns the value of its call or `u32::MAX`, and the value if the
calls above that one never got to all cells but one. -/
theorem return_stack_law (s : ReturnStack) {ops : List StackOp}
    (hops : BitVec.allOnes 32 ∉ s.clearReturnStackPtr.popped ops) :
    ((ops.foldl ReturnStack.run s.clearReturnStackPtr).popReturnStack.1 = BitVec.allOnes 32 ∨
      ∃ c rest, ops.foldl callsAfter [] = c :: rest ∧
        (ops.foldl ReturnStack.run s.clearReturnStackPtr).popReturnStack.1 = c.value) ∧
      ∀ c rest, ops.foldl callsAfter [] = c :: rest → c.peak < returnStackSize - 1 →
        (ops.foldl ReturnStack.run s.clearReturnStackPtr).popReturnStack.1 = c.value := by
  obtain ⟨lost, h⟩ := (stackInv_clear s).run hops
  obtain ⟨hlost, hkept⟩ := h.pop_value
  constructor
  · rcases Nat.eq_or_lt_of_le h.lost_le with heq | hlt
    · exact .inl (hlost heq.symm)
    · exact .inr (hkept hlt)
  · intro c rest hcalls hpeak
    by_cases hlt : lost < (ops.foldl callsAfter []).length
    · obtain ⟨c', rest', hcalls', hvalue⟩ := hkept hlt
      obtain ⟨rfl, -⟩ := List.cons.inj (hcalls.symm.trans hcalls')
      exact hvalue
    · have hdeep := h.deep 0 c (by rw [hcalls]; rfl) (by omega)
      exact absurd hpeak (Nat.not_lt.mpr hdeep)

/-- **A call inside a call** returns to its address. -/
theorem innerCall_returns :
    ([StackOp.push 0x08000100, .push 0x08000200].foldl ReturnStack.run
      (clearReturnStackPtr ⟨fun _ => 0, 0⟩)).popReturnStack.1 = 0x08000200 :=
  (return_stack_law ⟨fun _ => 0, 0⟩ List.not_mem_nil).2 ⟨0x08000200, 0⟩ [⟨0x08000100, 1⟩] rfl
    (by decide)

end ReturnStack

end AdvancedSlop
