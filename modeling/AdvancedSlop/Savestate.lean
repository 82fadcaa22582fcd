/-
# The savestate walk

`src/savestate.rs` and the derive macro of `src/macros`: one function per type walks a value in
both directions, appending to a buffer or consuming it.  A walk has no result where the code
panics or reads out of bounds.

* `SavestateContext`, `bytesOf` : the buffer and its primitives;
* `optionSavestate`, `vecSavestate`, `enumSavestate`, … : the implementations;
* `Tree` : the types built from them, with their walk `Tree.savestate`.
-/
import AdvancedSlop.WordMemory
import Mathlib.Data.Vector.Basic

namespace AdvancedSlop

open WordMemory

/-! ## Plain data -/

/-- A type that is copied as its bytes. -/
structure Pod (α : Type) where
  size : Nat
  bytes : α → List UInt8
  ofBytes : List UInt8 → α
  length_bytes : ∀ a, (bytes a).length = size
  ofBytes_bytes : ∀ a, ofBytes (bytes a) = a

/-- An integer of `k` bytes, least significant first. -/
def Pod.word (k : Nat) : Pod (BitVec (8 * k)) where
  size := k
  bytes value := (List.range k).map (byteOf value)
  ofBytes bytes := readWord k (fun i => bytes.getD i 0) 0
  length_bytes value := by rw [List.length_map, List.length_range]
  ofBytes_bytes value := by
    rw [readWord_eq_iff]
    intro i hi
    rw [Nat.zero_add, List.getD_eq_getElem?_getD, List.getElem?_map, List.getElem?_range hi]
    rfl

/-- The bytes of the word that bytes are read as. -/
theorem Pod.bytes_ofBytes_word {k : Nat} {bytes : List UInt8} (h : bytes.length = k) :
    (Pod.word k).bytes ((Pod.word k).ofBytes bytes) = bytes := by
  apply List.ext_getElem?
  intro i
  show ((List.range k).map (byteOf (readWord k (fun i => bytes.getD i 0) 0)))[i]? = bytes[i]?
  by_cases hi : i < k
  · rw [List.getElem?_map, List.getElem?_range hi, Option.map_some, byteOf_readWord _ _ hi,
      Nat.zero_add, List.getD_eq_getElem?_getD, List.getElem?_eq_getElem (h ▸ hi)]
    rfl
  · rw [List.getElem?_eq_none (by rw [List.length_map, List.length_range]; omega),
      List.getElem?_eq_none (by omega)]

/-- Chunks of one length, cut out again. -/
theorem chunks_flatMap {α : Type} {size : Nat} {bytes : α → List UInt8}
    (hlength : ∀ a, (bytes a).length = size) (values : List α) :
    (values.flatMap bytes).length = values.length * size ∧
      ∀ i (hi : i < values.length),
        ((values.flatMap bytes).drop (i * size)).take size = bytes values[i] := by
  induction values with
  | nil => exact ⟨(Nat.zero_mul _).symm, fun i hi => absurd hi (Nat.not_lt_zero i)⟩
  | cons value values ih =>
      rw [List.flatMap_cons]
      constructor
      · rw [List.length_append, hlength, ih.1, List.length_cons, Nat.succ_mul, Nat.add_comm]
      · intro i hi
        cases i with
        | zero =>
            rw [Nat.zero_mul, List.drop_zero, List.take_append_of_le_length (hlength value).ge,
              List.take_of_length_le (hlength value).le]
            rfl
        | succ i =>
            have hskip : (bytes value).drop (size + i * size) = [] := by
              rw [List.drop_eq_nil_iff, hlength]
              exact Nat.le_add_right _ _
            rw [Nat.succ_mul, Nat.add_comm, List.drop_append, hskip, hlength,
              Nat.add_sub_cancel_left, List.nil_append, ih.2 i (Nat.lt_of_succ_lt_succ hi)]
            rfl

/-- A slice of plain data. -/
def Pod.slice {α : Type} (pod : Pod α) (n : Nat) : Pod (List.Vector α n) where
  size := n * pod.size
  bytes values := values.toList.flatMap pod.bytes
  ofBytes bytes := .ofFn fun i => pod.ofBytes ((bytes.drop (i * pod.size)).take pod.size)
  length_bytes values := by
    rw [(chunks_flatMap pod.length_bytes values.toList).1, values.toList_length]
  ofBytes_bytes values := by
    apply List.Vector.ext
    intro i
    have hi : i.1 < values.toList.length := by
      rw [values.toList_length]
      exact i.isLt
    rw [List.Vector.get_ofFn, (chunks_flatMap pod.length_bytes values.toList).2 i hi,
      pod.ofBytes_bytes]
    rfl

/-! ## The context -/

/-- `SavestateContext`. -/
structure SavestateContext where
  buf : List UInt8
  pos : Nat
  save : Bool
  error : Bool

namespace SavestateContext

/-- `new_save`. -/
def newSave : SavestateContext := ⟨[], 0, true, false⟩

/-- `new_load`. -/
def newLoad (data : List UInt8) : SavestateContext := ⟨data, 0, false, false⟩

/-- `set_error`. -/
def setError (state : SavestateContext) : SavestateContext := { state with error := true }

/-- `into_data`. -/
def intoData (state : SavestateContext) : Option (List UInt8) :=
  if state.error then none else some state.buf

/-- `is_load_successful`. -/
def isLoadSuccessful (state : SavestateContext) : Bool :=
  !state.error && state.pos == state.buf.length

/-- `load_remaining`. -/
def loadRemaining (state : SavestateContext) : Option Nat :=
  if state.pos ≤ state.buf.length then some (state.buf.length - state.pos) else none

/-- The next bytes of the buffer. -/
def copyOut (state : SavestateContext) (size : Nat) : Option (List UInt8) :=
  if state.pos + size ≤ state.buf.length then some ((state.buf.drop state.pos).take size) else none

/-- `put_u8`. -/
def putU8 (value : UInt8) (state : SavestateContext) : Option SavestateContext :=
  if state.save then
    some (if state.error then state else { state with buf := state.buf ++ [value] })
  else none

/-- `take_u8`. -/
def takeU8 (state : SavestateContext) : Option (UInt8 × SavestateContext) :=
  if state.save then none
  else if state.error ∨ state.buf.length ≤ state.pos then some (0, state.setError)
  else state.buf[state.pos]?.map fun value => (value, { state with pos := state.pos + 1 })

/-- `bytes_of_raw`, `bytes_of` and `pod_slice`. -/
def bytesOf {α : Type} (pod : Pod α) (value : α) (state : SavestateContext) :
    Option (α × SavestateContext) :=
  if state.error then some (value, state)
  else if state.save then some (value, { state with buf := state.buf ++ pod.bytes value })
  else state.loadRemaining.bind fun remaining =>
    if remaining < pod.size then some (value, state.setError)
    else (state.copyOut pod.size).map fun bytes =>
      (pod.ofBytes bytes, { state with pos := state.pos + pod.size })

end SavestateContext

open SavestateContext

/-- `Savestate::savestate` of a type. -/
abbrev Savestate (α : Type) := α → SavestateContext → Option (α × SavestateContext)

/-! ## The implementations -/

section Impls

variable {α β : Type}

/-- `bool`. -/
def boolSavestate : Savestate Bool := fun self state =>
  if state.save then (state.putU8 (if self then 1 else 0)).map fun state => (self, state)
  else state.takeU8.map fun r => (r.1 != 0, r.2)

/-- `usize` on a host of `w` bits, stored in 64. -/
def usizeSavestate (w : Nat) : Savestate (BitVec w) := fun self state =>
  (state.bytesOf (Pod.word 8) (self.setWidth (8 * 8))).map fun r => (r.1.setWidth w, r.2)

/-- `isize` on such a host. -/
def isizeSavestate (w : Nat) : Savestate (BitVec w) := fun self state =>
  (state.bytesOf (Pod.word 8) (self.signExtend (8 * 8))).map fun r => (r.1.setWidth w, r.2)

/-- `for value in self`: arrays, and the elements of vectors. -/
def eachSavestate (walk : Savestate α) : {n : Nat} → Savestate (List.Vector α n)
  | 0, self, state => some (self, state)
  | _ + 1, self, state =>
      (walk self.head state).bind fun r =>
        (eachSavestate walk self.tail r.2).map fun q => (r.1 ::ᵥ q.1, q.2)

/-- `Option<T>`. -/
def optionSavestate (default : α) (walk : Savestate α) : Savestate (Option α) := fun self state =>
  if state.save then
    match self with
    | some value =>
        (state.putU8 1).bind fun state => (walk value state).map fun r => (some r.1, r.2)
    | none => (state.putU8 0).map fun state => (none, state)
  else
    state.takeU8.bind fun r =>
      if r.1 ≠ 0 then (walk default r.2).map fun q => (some q.1, q.2) else some (none, r.2)

/-- `Vec<T>` and `VecDeque<T>`, with the guard against a corrupt length. -/
def vecSavestate (default : α) (walk : Savestate α) : Savestate (List α) := fun self state =>
  (state.bytesOf (Pod.word 4) (BitVec.ofNat (8 * 4) self.length)).bind fun r =>
    let len := r.1.toNat
    let state := r.2
    if state.save then
      (eachSavestate walk ⟨self, rfl⟩ state).map fun q => (q.1.toList, q.2)
    else if state.error then some (self, state)
    else if state.buf.length < len then some (self, state.setError)
    else (eachSavestate walk (List.Vector.replicate len default) state).map fun q =>
      (q.1.toList, q.2)

/-- A derived struct with no more fields. -/
def unitSavestate : Savestate Unit := fun self state => some (self, state)

/-- A field of a derived struct, and the fields after it. -/
def fieldSavestate (walk : Savestate α) (rest : Savestate β) : Savestate (α × β) :=
  fun self state =>
    (walk self.1 state).bind fun r => (rest self.2 r.2).map fun q => ((r.1, q.1), q.2)

/-- A field with `#[savestate(skip)]`, and the fields after it. -/
def skipSavestate (rest : Savestate β) : Savestate (α × β) := fun self state =>
  (rest self.2 state).map fun q => ((self.1, q.1), q.2)

/-- A derived enum of `n` variants. -/
def enumSavestate {n : Nat} {γ : Fin n → Type} (default : ∀ i, γ i) (walk : ∀ i, Savestate (γ i)) :
    Savestate (Σ i, γ i) := fun self state =>
  if state.save then
    (state.putU8 (UInt8.ofNat self.1)).bind fun state =>
      (walk self.1 self.2 state).map fun r => (⟨self.1, r.1⟩, r.2)
  else
    state.takeU8.bind fun r =>
      if h : r.1.toNat < n then
        (walk ⟨r.1.toNat, h⟩ (default _) r.2).map fun q => (⟨⟨r.1.toNat, h⟩, q.1⟩, q.2)
      else some (self, r.2.setError)

end Impls

/-! ## Trees -/

/-- The types built from the implementations. -/
inductive Tree : Type → Type 1
  | pod {α : Type} (pod : Pod α) : Tree α
  | bool : Tree Bool
  | usize (w : Nat) (h : w ≤ 64) : Tree (BitVec w)
  | isize (w : Nat) (h : w ≤ 64) : Tree (BitVec w)
  | array {α : Type} (t : Tree α) (n : Nat) : Tree (List.Vector α n)
  /-- `Box<T>` and `HeapMem<T>`. -/
  | boxed {α : Type} (t : Tree α) : Tree α
  | option {α : Type} (default : α) (t : Tree α) : Tree (Option α)
  | vec {α : Type} (default : α) (t : Tree α) : Tree (List α)
  | deque {α : Type} (default : α) (t : Tree α) : Tree (List α)
  | unit : Tree Unit
  | field {α β : Type} (t : Tree α) (rest : Tree β) : Tree (α × β)
  | skip {α β : Type} (rest : Tree β) : Tree (α × β)
  | enumeration {n : Nat} (h : n ≤ 256) {γ : Fin n → Type} (default : ∀ i, γ i)
      (t : ∀ i, Tree (γ i)) : Tree (Σ i, γ i)

/-- The walk of a tree. -/
def Tree.savestate : {α : Type} → Tree α → Savestate α
  | _, .pod p => fun self state => state.bytesOf p self
  | _, .bool => boolSavestate
  | _, .usize w _ => usizeSavestate w
  | _, .isize w _ => isizeSavestate w
  | _, .array t _ => eachSavestate t.savestate
  | _, .boxed t => t.savestate
  | _, .option default t => optionSavestate default t.savestate
  | _, .vec default t => vecSavestate default t.savestate
  | _, .deque default t => vecSavestate default t.savestate
  | _, .unit => unitSavestate
  | _, .field t rest => fieldSavestate t.savestate rest.savestate
  | _, .skip rest => skipSavestate rest.savestate
  | _, .enumeration _ default t => enumSavestate default fun i => (t i).savestate

/-- The bytes saved. -/
def Tree.save {α : Type} (t : Tree α) (value : α) : Option (List UInt8) :=
  (t.savestate value newSave).bind fun r => r.2.intoData

/-- What is loaded into a target, and whether that is a success. -/
def Tree.load {α : Type} (t : Tree α) (target : α) (data : List UInt8) : Option (α × Bool) :=
  (t.savestate target (newLoad data)).map fun r => (r.1, r.2.isLoadSuccessful)

end AdvancedSlop
