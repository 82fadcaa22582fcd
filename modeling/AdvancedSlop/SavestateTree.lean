/-
# The savestate walk is symmetric

What is saved is loaded again, whatever the tree.

* `Tree.bytes`, `Tree.Same` : the bytes of a value, and agreement but for skipped fields;
* `Tree.Fits` : vectors whose length the stream can hold and the guard lets pass;
* `Walks` : what one implementation owes the others;
* `savestate_law` : every tree keeps it;
* `skippedElements_fail` : a vector of elements without bytes.
-/
import AdvancedSlop.Savestate
import Mathlib.Tactic

namespace AdvancedSlop

open SavestateContext

/-! ## What a walk means -/

/-- The bytes of a value. -/
def Tree.bytes : {α : Type} → Tree α → α → List UInt8
  | _, .pod p => p.bytes
  | _, .bool => fun value => [if value then 1 else 0]
  | _, .usize _ _ => fun value => (Pod.word 8).bytes (value.setWidth (8 * 8))
  | _, .isize _ _ => fun value => (Pod.word 8).bytes (value.signExtend (8 * 8))
  | _, .array t _ => fun values => values.toList.flatMap t.bytes
  | _, .boxed t => t.bytes
  | _, .option _ t => fun value => value.elim [0] fun value => 1 :: t.bytes value
  | _, .vec _ t => fun values =>
      (Pod.word 4).bytes (BitVec.ofNat (8 * 4) values.length) ++ values.flatMap t.bytes
  | _, .deque _ t => fun values =>
      (Pod.word 4).bytes (BitVec.ofNat (8 * 4) values.length) ++ values.flatMap t.bytes
  | _, .unit => fun _ => []
  | _, .field t rest => fun value => t.bytes value.1 ++ rest.bytes value.2
  | _, .skip rest => fun value => rest.bytes value.2
  | _, .enumeration _ _ t => fun value => UInt8.ofNat value.1 :: (t value.1).bytes value.2

/-- Values that agree in every field that is not skipped. -/
def Tree.Same : {α : Type} → Tree α → α → α → Prop
  | _, .pod _ => fun a b => a = b
  | _, .bool => fun a b => a = b
  | _, .usize _ _ => fun a b => a = b
  | _, .isize _ _ => fun a b => a = b
  | _, .array t _ => fun a b => List.Forall₂ t.Same a.toList b.toList
  | _, .boxed t => t.Same
  | _, .option _ t => Option.Rel t.Same
  | _, .vec _ t => List.Forall₂ t.Same
  | _, .deque _ t => List.Forall₂ t.Same
  | _, .unit => fun _ _ => True
  | _, .field t rest => fun a b => t.Same a.1 b.1 ∧ rest.Same a.2 b.2
  | _, .skip rest => fun a b => rest.Same a.2 b.2
  | _, .enumeration _ _ t => fun a b =>
      ∃ i x y, a = ⟨i, x⟩ ∧ b = ⟨i, y⟩ ∧ (t i).Same x y

/-- Every vector has a length of 32 bits, and no more elements than the stream has bytes. -/
def Tree.Fits (n : Nat) : {α : Type} → Tree α → α → Prop
  | _, .pod _ => fun _ => True
  | _, .bool => fun _ => True
  | _, .usize _ _ => fun _ => True
  | _, .isize _ _ => fun _ => True
  | _, .array t _ => fun values => ∀ value ∈ values.toList, t.Fits n value
  | _, .boxed t => t.Fits n
  | _, .option _ t => fun value => ∀ v ∈ value, t.Fits n v
  | _, .vec _ t => fun values =>
      values.length < 2 ^ 32 ∧ values.length ≤ n ∧ ∀ value ∈ values, t.Fits n value
  | _, .deque _ t => fun values =>
      values.length < 2 ^ 32 ∧ values.length ≤ n ∧ ∀ value ∈ values, t.Fits n value
  | _, .unit => fun _ => True
  | _, .field t rest => fun value => t.Fits n value.1 ∧ rest.Fits n value.2
  | _, .skip rest => fun value => rest.Fits n value.2
  | _, .enumeration _ _ t => fun value => (t value.1).Fits n value.2

namespace SavestateContext

/-- More bytes behind the buffer. -/
def extend (state : SavestateContext) (more : List UInt8) : SavestateContext :=
  { state with buf := state.buf ++ more }

/-- A context that loads, at a place of its buffer. -/
def Loading (state : SavestateContext) : Prop :=
  state.save = false ∧ state.pos ≤ state.buf.length

theorem Loading.not_save {state : SavestateContext} (h : state.Loading) : ¬ state.save = true := by
  rw [h.1]
  decide

theorem Loading.extend {state : SavestateContext} (h : state.Loading) (more : List UInt8) :
    (state.extend more).Loading := by
  refine ⟨h.1, ?_⟩
  rw [SavestateContext.extend, List.length_append]
  exact Nat.le_add_right_of_le h.2

/-- What a load leaves: the same buffer, a place in it, and an error that stays. -/
structure After (state state' : SavestateContext) : Prop where
  buf : state'.buf = state.buf
  loading : state'.Loading
  sticky : state'.error = false → state.error = false

theorem After.refl {state : SavestateContext} (h : state.Loading) : After state state :=
  ⟨rfl, h, id⟩

theorem After.trans {s t u : SavestateContext} (h : After s t) (h' : After t u) : After s u :=
  ⟨h'.buf.trans h.buf, h'.loading, fun herror => h.sticky (h'.sticky herror)⟩

theorem After.setError {state : SavestateContext} (h : state.Loading) :
    After state state.setError :=
  ⟨rfl, h, fun herror => by cases herror⟩

end SavestateContext

/-- What an implementation owes the others: it appends the bytes of a value, finds the value in
them again, gives a result on any buffer, and does not look behind what it consumes. -/
structure Walks {α : Type} (walk : Savestate α) (bytes : α → List UInt8) (same : α → α → Prop)
    (fits : Nat → α → Prop) : Prop where
  save : ∀ value state, state.save = true → state.error = false →
    walk value state = some (value, { state with buf := state.buf ++ bytes value })
  load : ∀ value target rest state, state.Loading → state.error = false →
    state.buf.drop state.pos = bytes value ++ rest → fits state.buf.length value →
    ∃ loaded, walk target state =
      some (loaded, { state with pos := state.pos + (bytes value).length }) ∧ same value loaded
  total : ∀ target state, state.Loading →
    ∃ loaded state', walk target state = some (loaded, state') ∧ After state state'
  extend : ∀ target state loaded state', state.Loading →
    walk target state = some (loaded, state') → state'.error = false →
    ∀ more, walk target (state.extend more) = some (loaded, state'.extend more)

/-! ## The primitives -/

section Primitives

variable {α : Type} {state : SavestateContext}

/-- The place behind bytes that are there. -/
theorem drop_consumed {l bytes rest : List UInt8} {pos : Nat} (hpos : pos ≤ l.length)
    (h : l.drop pos = bytes ++ rest) :
    pos + bytes.length ≤ l.length ∧ l.drop (pos + bytes.length) = rest ∧
      (l.drop pos).take bytes.length = bytes := by
  have hlength := congrArg List.length h
  rw [List.length_drop, List.length_append] at hlength
  refine ⟨by omega, ?_, ?_⟩
  · rw [← List.drop_drop, h, List.drop_left]
  · rw [h, List.take_left]

theorem putU8_eq (value : UInt8) (hsave : state.save = true) (herror : state.error = false) :
    state.putU8 value = some { state with buf := state.buf ++ [value] } := by
  rw [putU8, if_pos hsave, herror]
  rfl

/-- The next byte. -/
theorem takeU8_eq {value : UInt8} {rest : List UInt8} (hload : state.Loading)
    (herror : state.error = false) (h : state.buf.drop state.pos = value :: rest) :
    state.takeU8 = some (value, { state with pos := state.pos + 1 }) := by
  have hlength := congrArg List.length h
  rw [List.length_drop, List.length_cons] at hlength
  have hvalue : state.buf[state.pos]? = some value := by
    have hhead := congrArg List.head? h
    rwa [List.head?_drop, List.head?_cons] at hhead
  rw [takeU8, hload.1, herror, hvalue]
  rw [if_neg (by decide), if_neg (by rintro (hbad | hbad); cases hbad; omega)]
  rfl

theorem takeU8_total (hload : state.Loading) :
    ∃ value state', state.takeU8 = some (value, state') ∧ After state state' := by
  unfold takeU8
  rw [if_neg hload.not_save]
  split_ifs with hstop
  · exact ⟨0, _, rfl, .setError hload⟩
  · rw [not_or] at hstop
    have hin : state.pos < state.buf.length := by omega
    rw [List.getElem?_eq_getElem hin]
    exact ⟨_, _, rfl, rfl, ⟨hload.1, hin⟩, id⟩

theorem takeU8_extend {value : UInt8} {state' : SavestateContext} (hload : state.Loading)
    (h : state.takeU8 = some (value, state')) (herror : state'.error = false) (more : List UInt8) :
    (state.extend more).takeU8 = some (value, state'.extend more) := by
  unfold takeU8 at h ⊢
  rw [if_neg hload.not_save] at h
  split_ifs at h with hstop
  · obtain ⟨-, rfl⟩ := Prod.mk.inj (Option.some.inj h)
    cases herror
  · rw [not_or] at hstop
    have hin : state.pos < state.buf.length := by omega
    rw [List.getElem?_eq_getElem hin] at h
    obtain ⟨rfl, rfl⟩ := Prod.mk.inj (Option.some.inj h)
    have hlonger : ¬ ((state.extend more).error = true ∨
        (state.extend more).buf.length ≤ (state.extend more).pos) := by
      rintro (hbad | hbad)
      · exact hstop.1 hbad
      · have hle : state.buf.length + more.length ≤ state.pos := by
          rwa [← List.length_append]
        omega
    have hbyte : (state.extend more).buf[(state.extend more).pos]? = state.buf[state.pos]? :=
      List.getElem?_append_left hin
    have hsave : ¬ (state.extend more).save = true := hload.not_save
    rw [if_neg hsave, if_neg hlonger, hbyte, List.getElem?_eq_getElem hin]
    rfl

/-- **Plain data.** -/
theorem walks_bytesOf (pod : Pod α) :
    Walks (fun self state => state.bytesOf pod self) pod.bytes (fun a b => a = b)
      fun _ _ => True where
  save value state hsave herror := by
    simp only [bytesOf, herror, hsave]
    rfl
  load value target rest state hload herror h _ := by
    obtain ⟨hend, -, htake⟩ := drop_consumed hload.2 h
    rw [pod.length_bytes] at hend htake
    refine ⟨value, ?_, rfl⟩
    simp only [bytesOf, herror, hload.1, loadRemaining, copyOut, if_pos hload.2, if_pos hend,
      Option.bind_some, Option.map_some, htake, pod.ofBytes_bytes, pod.length_bytes]
    rw [if_neg (by decide), if_neg (by decide), if_neg (by omega)]
  total target state hload := by
    unfold bytesOf
    split_ifs with herror hsave
    · exact ⟨_, _, rfl, .refl hload⟩
    · exact absurd hsave hload.not_save
    · rw [loadRemaining, if_pos hload.2, Option.bind_some]
      split_ifs with hshort
      · exact ⟨_, _, rfl, .setError hload⟩
      · have hend : state.pos + pod.size ≤ state.buf.length := by
          have hpos := hload.2
          omega
        rw [copyOut, if_pos hend]
        exact ⟨_, _, rfl, rfl, ⟨hload.1, hend⟩, id⟩
  extend target state loaded state' hload h herror more := by
    unfold bytesOf at h ⊢
    have hpos := hload.2
    have hlonger := (hload.extend more).2
    split_ifs at h with hbad hsave
    · obtain ⟨rfl, rfl⟩ := Prod.mk.inj (Option.some.inj h)
      exact if_pos hbad
    · exact absurd hsave hload.not_save
    · rw [loadRemaining, if_pos hload.2, Option.bind_some] at h
      split_ifs at h with hshort
      · obtain ⟨-, rfl⟩ := Prod.mk.inj (Option.some.inj h)
        cases herror
      · have hend : state.pos + pod.size ≤ state.buf.length := by omega
        rw [copyOut, if_pos hend] at h
        obtain ⟨rfl, rfl⟩ := Prod.mk.inj (Option.some.inj h)
        have hend' : (state.extend more).pos + pod.size ≤ (state.extend more).buf.length := by
          show state.pos + pod.size ≤ (state.buf ++ more).length
          rw [List.length_append]
          omega
        have hbytes : ((state.extend more).buf.drop (state.extend more).pos).take pod.size =
            (state.buf.drop state.pos).take pod.size := by
          show ((state.buf ++ more).drop state.pos).take pod.size = _
          rw [List.drop_append_of_le_length hpos, List.take_append_of_le_length]
          rw [List.length_drop]
          omega
        rw [if_neg (show ¬ (state.extend more).error = true from hbad),
          if_neg (show ¬ (state.extend more).save = true from hsave), loadRemaining,
          if_pos hlonger, Option.bind_some, if_neg (by omega), copyOut, if_pos hend', hbytes]
        rfl

end Primitives

/-! ## The implementations -/

section Impls

variable {α β : Type} {walk : Savestate α} {bytes : α → List UInt8} {same : α → α → Prop}
  {fits : Nat → α → Prop} {state : SavestateContext}

/-- What a walk that loads leaves. -/
theorem Walks.after (h : Walks walk bytes same fits) {target loaded : α} {state' : SavestateContext}
    (hload : state.Loading) (hwalk : walk target state = some (loaded, state')) :
    After state state' := by
  obtain ⟨loaded', state'', heq, hafter⟩ := h.total target state hload
  obtain ⟨-, rfl⟩ := Prod.mk.inj (Option.some.inj (hwalk.symm.trans heq))
  exact hafter

/-- The same walk on another type. -/
theorem Walks.conv (h : Walks walk bytes same fits) (f : β → α) (g : α → β)
    {bytes' : β → List UInt8} {same' : β → β → Prop} {fits' : Nat → β → Prop}
    (hgf : ∀ b, g (f b) = b) (hbytes : ∀ b, bytes' b = bytes (f b))
    (hsame : ∀ b a, same (f b) a → same' b (g a)) (hfits : ∀ n b, fits' n b → fits n (f b)) :
    Walks (fun self state => (walk (f self) state).map fun r => (g r.1, r.2))
      bytes' same' fits' where
  save value state hsave herror := by
    rw [h.save _ _ hsave herror, Option.map_some, hgf, hbytes]
  load value target rest state hload herror hbuf hfit := by
    rw [hbytes] at hbuf ⊢
    obtain ⟨loaded, hwalk, hloaded⟩ :=
      h.load (f value) (f target) rest state hload herror hbuf (hfits _ _ hfit)
    exact ⟨g loaded, by rw [hwalk, Option.map_some], hsame _ _ hloaded⟩
  total target state hload := by
    obtain ⟨loaded, state', hwalk, hafter⟩ := h.total (f target) state hload
    exact ⟨g loaded, state', by rw [hwalk, Option.map_some], hafter⟩
  extend target state loaded state' hload hwalk herror more := by
    obtain ⟨r, hr, heq⟩ := Option.map_eq_some_iff.mp hwalk
    obtain ⟨rfl, rfl⟩ := Prod.mk.inj heq
    show (walk (f target) (state.extend more)).map _ = _
    rw [h.extend (f target) state r.1 r.2 hload hr herror more]
    rfl

/-- Nothing: a skipped field, and the end of a struct. -/
theorem walks_nothing : Walks (fun (self : α) state => some (self, state)) (fun _ => [])
    (fun _ _ => True) (fun _ _ => True) where
  save value state _ _ := by rw [List.append_nil]
  load value target rest state _ _ _ _ := ⟨target, rfl, trivial⟩
  total target state hload := ⟨target, state, rfl, .refl hload⟩
  extend target state loaded state' _ hwalk _ more := by
    obtain ⟨rfl, rfl⟩ := Prod.mk.inj (Option.some.inj hwalk)
    rfl

/-- **Fields**, one after the other. -/
theorem Walks.field {rest : Savestate β} {bytes' : β → List UInt8} {same' : β → β → Prop}
    {fits' : Nat → β → Prop} (h : Walks walk bytes same fits) (h' : Walks rest bytes' same' fits') :
    Walks (fieldSavestate walk rest) (fun value => bytes value.1 ++ bytes' value.2)
      (fun a b => same a.1 b.1 ∧ same' a.2 b.2)
      (fun n value => fits n value.1 ∧ fits' n value.2) where
  save value state hsave herror := by
    have hrest := h'.save value.2 { state with buf := state.buf ++ bytes value.1 } hsave herror
    rw [fieldSavestate, h.save _ _ hsave herror, Option.bind_some, hrest, List.append_assoc]
    rfl
  load value target more state hload herror hbuf hfit := by
    rw [List.append_assoc] at hbuf
    obtain ⟨hend, hdrop, -⟩ := drop_consumed hload.2 hbuf
    obtain ⟨first, hwalk, hfirst⟩ := h.load value.1 target.1 _ state hload herror hbuf hfit.1
    obtain ⟨second, hrest, hsecond⟩ := h'.load value.2 target.2 more
      { state with pos := state.pos + (bytes value.1).length } ⟨hload.1, hend⟩ herror hdrop hfit.2
    refine ⟨(first, second), ?_, hfirst, hsecond⟩
    rw [fieldSavestate, hwalk, Option.bind_some, hrest, List.length_append, Nat.add_assoc]
    rfl
  total target state hload := by
    obtain ⟨first, state₁, hwalk, hafter⟩ := h.total target.1 state hload
    obtain ⟨second, state₂, hrest, hafter'⟩ := h'.total target.2 state₁ hafter.loading
    refine ⟨(first, second), state₂, ?_, hafter.trans hafter'⟩
    rw [fieldSavestate, hwalk, Option.bind_some, hrest]
    rfl
  extend target state loaded state' hload hwalk herror more := by
    obtain ⟨r, hr, hrest⟩ := Option.bind_eq_some_iff.mp hwalk
    obtain ⟨q, hq, heq⟩ := Option.map_eq_some_iff.mp hrest
    obtain ⟨rfl, rfl⟩ := Prod.mk.inj heq
    have hafter := h.after hload hr
    have herror₁ := (h'.after hafter.loading hq).sticky herror
    rw [fieldSavestate, h.extend _ _ _ _ hload hr herror₁ more, Option.bind_some,
      h'.extend _ _ _ _ hafter.loading hq herror more]
    rfl

/-- **A skipped field** keeps what the target has. -/
theorem Walks.skip (h : Walks walk bytes same fits) :
    Walks (skipSavestate (α := β) walk) (fun value => bytes value.2) (fun a b => same a.2 b.2)
      (fun n value => fits n value.2) where
  save value state hsave herror := by
    rw [skipSavestate, h.save _ _ hsave herror]
    rfl
  load value target rest state hload herror hbuf hfit := by
    obtain ⟨loaded, hwalk, hsame⟩ := h.load value.2 target.2 rest state hload herror hbuf hfit
    exact ⟨(target.1, loaded), by rw [skipSavestate, hwalk]; rfl, hsame⟩
  total target state hload := by
    obtain ⟨loaded, state', hwalk, hafter⟩ := h.total target.2 state hload
    exact ⟨(target.1, loaded), state', by rw [skipSavestate, hwalk]; rfl, hafter⟩
  extend target state loaded state' hload hwalk herror more := by
    obtain ⟨r, hr, heq⟩ := Option.map_eq_some_iff.mp hwalk
    obtain ⟨rfl, rfl⟩ := Prod.mk.inj heq
    rw [skipSavestate, h.extend _ _ _ _ hload hr herror more]
    rfl

/-- **Arrays**, by the elements that are left. -/
theorem Walks.each (h : Walks walk bytes same fits) (n : Nat) :
    Walks (eachSavestate walk (n := n)) (fun values => values.toList.flatMap bytes)
      (fun a b => List.Forall₂ same a.toList b.toList)
      (fun k values => ∀ value ∈ values.toList, fits k value) := by
  induction n with
  | zero =>
      have hnil : ∀ values : List.Vector α 0, values.toList = [] := fun values => by
        rw [List.Vector.eq_nil values]
        rfl
      refine ⟨fun value state _ _ => ?_, fun value target rest state _ _ _ _ => ?_, ?_, ?_⟩
      · rw [hnil, List.flatMap_nil, List.append_nil]
        rfl
      · refine ⟨target, ?_, ?_⟩
        · rw [hnil, List.flatMap_nil]
          rfl
        · rw [hnil, hnil]
          exact .nil
      · exact fun target state hload => ⟨target, state, rfl, .refl hload⟩
      · intro target state loaded state' _ hwalk _ more
        obtain ⟨rfl, rfl⟩ := Prod.mk.inj (Option.some.inj hwalk)
        rfl
  | succ n ih =>
      have hcons : ∀ values : List.Vector α (n + 1),
          values.toList = values.head :: values.tail.toList := fun values => by
        rw [← List.Vector.toList_cons, List.Vector.cons_head_tail]
      have hpair : Walks (fun (self : List.Vector α (n + 1)) state =>
          (fieldSavestate walk (eachSavestate walk) (self.head, self.tail) state).map
            fun r => (r.1.1 ::ᵥ r.1.2, r.2)) (fun values => values.toList.flatMap bytes)
          (fun a b => List.Forall₂ same a.toList b.toList)
          (fun k values => ∀ value ∈ values.toList, fits k value) :=
        (h.field ih).conv (fun values : List.Vector α (n + 1) => (values.head, values.tail))
          (fun r => r.1 ::ᵥ r.2)
        (fun values => List.Vector.cons_head_tail values)
        (fun values => by rw [hcons, List.flatMap_cons])
        (fun values r hsame => by
          rw [hcons, List.Vector.toList_cons]
          exact .cons hsame.1 hsame.2)
        (fun k values hfit => by
          rw [hcons, List.forall_mem_cons] at hfit
          exact hfit)
      have hwalk : (fun (self : List.Vector α (n + 1)) state =>
          (fieldSavestate walk (eachSavestate walk) (self.head, self.tail) state).map
            fun r => (r.1.1 ::ᵥ r.1.2, r.2)) = eachSavestate walk := by
        funext self state
        rw [fieldSavestate, Option.map_bind]
        refine Option.bind_congr fun r _ => ?_
        rw [Function.comp, Option.map_map]
        rfl
      rwa [hwalk] at hpair

/-- `bool`. -/
theorem walks_bool : Walks boolSavestate (fun value => [if value then 1 else 0])
    (fun a b => a = b) (fun _ _ => True) where
  save value state hsave herror := by
    rw [boolSavestate, if_pos hsave, putU8_eq _ hsave herror, Option.map_some]
  load value target rest state hload herror hbuf _ := by
    refine ⟨value, ?_, rfl⟩
    rw [boolSavestate, if_neg hload.not_save, takeU8_eq hload herror hbuf, Option.map_some]
    cases value <;> rfl
  total target state hload := by
    obtain ⟨value, state', htake, hafter⟩ := takeU8_total hload
    refine ⟨value != 0, state', ?_, hafter⟩
    rw [boolSavestate, if_neg hload.not_save, htake, Option.map_some]
  extend target state loaded state' hload hwalk herror more := by
    rw [boolSavestate, if_neg hload.not_save] at hwalk
    obtain ⟨r, hr, heq⟩ := Option.map_eq_some_iff.mp hwalk
    obtain ⟨rfl, rfl⟩ := Prod.mk.inj heq
    rw [boolSavestate, if_neg (show ¬ (state.extend more).save = true from hload.not_save),
      takeU8_extend hload hr herror more, Option.map_some]

/-- `usize`: its 64 bits hold it. -/
theorem walks_usize {w : Nat} (hw : w ≤ 64) : Walks (usizeSavestate w)
    (fun value => (Pod.word 8).bytes (value.setWidth (8 * 8))) (fun a b => a = b)
    (fun _ _ => True) := by
  have hback : ∀ value : BitVec w, (value.setWidth (8 * 8)).setWidth w = value := by
    intro value
    rw [BitVec.setWidth_setWidth_of_le value hw, BitVec.setWidth_eq]
  apply (walks_bytesOf (Pod.word 8)).conv (fun value : BitVec w => value.setWidth (8 * 8))
    (fun value => value.setWidth w) hback (fun _ => rfl) _ (fun _ _ _ => trivial)
  intro value loaded heq
  rw [← heq, hback]

/-- `isize`: its 64 bits, with the sign, hold it. -/
theorem walks_isize {w : Nat} (hw : w ≤ 64) : Walks (isizeSavestate w)
    (fun value => (Pod.word 8).bytes (value.signExtend (8 * 8))) (fun a b => a = b)
    (fun _ _ => True) := by
  have hback : ∀ value : BitVec w, (value.signExtend (8 * 8)).setWidth w = value := by
    intro value
    ext i hi
    rw [BitVec.getElem_setWidth, BitVec.getLsbD_signExtend, if_pos hi,
      BitVec.getLsbD_eq_getElem hi, decide_eq_true (by omega), Bool.true_and]
  apply (walks_bytesOf (Pod.word 8)).conv (fun value : BitVec w => value.signExtend (8 * 8))
    (fun value => value.setWidth w) hback (fun _ => rfl) _ (fun _ _ _ => trivial)
  intro value loaded heq
  rw [← heq, hback]

theorem optionSavestate_load (default : α) (hload : state.Loading) (target : Option α) :
    optionSavestate default walk target state = state.takeU8.bind fun r =>
      if r.1 ≠ 0 then (walk default r.2).map fun q => (some q.1, q.2) else some (none, r.2) := by
  unfold optionSavestate
  exact if_neg hload.not_save

/-- `Option<T>`. -/
theorem Walks.option (h : Walks walk bytes same fits) (default : α) :
    Walks (optionSavestate default walk) (fun value => value.elim [0] fun value => 1 :: bytes value)
      (Option.Rel same) (fun n value => ∀ v ∈ value, fits n v) where
  save value state hsave herror := by
    cases value with
    | none =>
        rw [optionSavestate, if_pos hsave]
        show (state.putU8 0).map _ = _
        rw [putU8_eq _ hsave herror]
        rfl
    | some value =>
        have hvalue := h.save value { state with buf := state.buf ++ [1] } hsave herror
        rw [optionSavestate, if_pos hsave]
        show (state.putU8 1).bind _ = _
        rw [putU8_eq _ hsave herror, Option.bind_some, hvalue, List.append_assoc]
        rfl
  load value target rest state hload herror hbuf hfit := by
    rw [optionSavestate_load default hload]
    cases value with
    | none =>
        rw [takeU8_eq hload herror hbuf]
        exact ⟨none, rfl, .none⟩
    | some value =>
        have hbuf' : state.buf.drop state.pos = [1] ++ (bytes value ++ rest) := hbuf
        obtain ⟨hend, hdrop, -⟩ := drop_consumed hload.2 hbuf'
        obtain ⟨loaded, hwalk, hsame⟩ := h.load value default rest
          { state with pos := state.pos + 1 } ⟨hload.1, hend⟩ herror hdrop (hfit value rfl)
        refine ⟨some loaded, ?_, .some hsame⟩
        rw [takeU8_eq hload herror hbuf, Option.bind_some,
          if_pos (show (1 : UInt8) ≠ 0 by decide), hwalk]
        show some (some loaded, _) = some (some loaded, _)
        rw [Option.elim_some, List.length_cons, Nat.add_comm (bytes value).length 1, Nat.add_assoc]
  total target state hload := by
    obtain ⟨tag, state₁, htake, hafter⟩ := takeU8_total hload
    rw [optionSavestate_load default hload, htake, Option.bind_some]
    by_cases htag : tag ≠ 0
    · obtain ⟨loaded, state₂, hwalk, hafter'⟩ := h.total default state₁ hafter.loading
      refine ⟨some loaded, state₂, ?_, hafter.trans hafter'⟩
      rw [if_pos htag, hwalk, Option.map_some]
    · exact ⟨none, state₁, if_neg htag, hafter⟩
  extend target state loaded state' hload hwalk herror more := by
    rw [optionSavestate_load default hload] at hwalk
    obtain ⟨r, htake, hrest⟩ := Option.bind_eq_some_iff.mp hwalk
    obtain ⟨value, state₁, htake', hafter⟩ := takeU8_total hload
    obtain rfl : r = (value, state₁) := Option.some.inj (htake.symm.trans htake')
    rw [optionSavestate_load default (hload.extend more)]
    by_cases htag : value ≠ 0
    · rw [if_pos htag] at hrest
      obtain ⟨q, hq, heq⟩ := Option.map_eq_some_iff.mp hrest
      obtain ⟨rfl, rfl⟩ := Prod.mk.inj heq
      have herror₁ := (h.after hafter.loading hq).sticky herror
      rw [takeU8_extend hload htake herror₁ more, Option.bind_some, if_pos htag,
        h.extend _ _ _ _ hafter.loading hq herror more, Option.map_some]
    · rw [if_neg htag] at hrest
      obtain ⟨rfl, rfl⟩ := Prod.mk.inj (Option.some.inj hrest)
      rw [takeU8_extend hload htake herror more, Option.bind_some, if_neg htag]

theorem vecSavestate_load (default : α) (hload : state.Loading) (target : List α) :
    vecSavestate default walk target state =
      (state.bytesOf (Pod.word 4) (BitVec.ofNat (8 * 4) target.length)).bind fun r =>
        if r.2.error then some (target, r.2)
        else if r.2.buf.length < r.1.toNat then some (target, r.2.setError)
        else (eachSavestate walk (List.Vector.replicate r.1.toNat default) r.2).map fun q =>
          (q.1.toList, q.2) := by
  unfold vecSavestate
  refine Option.bind_congr fun r hr => ?_
  have hafter := (walks_bytesOf (Pod.word 4)).after hload hr
  exact if_neg hafter.loading.not_save

/-- **`Vec<T>` and `VecDeque<T>`.** -/
theorem Walks.vec (h : Walks walk bytes same fits) (default : α) :
    Walks (vecSavestate default walk)
      (fun values => (Pod.word 4).bytes (BitVec.ofNat (8 * 4) values.length) ++
        values.flatMap bytes)
      (List.Forall₂ same)
      (fun n values =>
        values.length < 2 ^ 32 ∧ values.length ≤ n ∧ ∀ value ∈ values, fits n value) where
  save values state hsave herror := by
    have hlen := (walks_bytesOf (Pod.word 4)).save (BitVec.ofNat (8 * 4) values.length) state
      hsave herror
    have heach := (h.each values.length).save ⟨values, rfl⟩
      { state with buf := state.buf ++ (Pod.word 4).bytes (BitVec.ofNat (8 * 4) values.length) }
      hsave herror
    rw [vecSavestate, hlen, Option.bind_some]
    show (if state.save = true then _ else _) = _
    rw [if_pos hsave, heach, Option.map_some, List.append_assoc]
    rfl
  load values target rest state hload herror hbuf hfit := by
    obtain ⟨hbound, hguard, hfits⟩ := hfit
    rw [List.append_assoc] at hbuf
    obtain ⟨hend, hdrop, -⟩ := drop_consumed hload.2 hbuf
    obtain ⟨len, hwalk, rfl⟩ := (walks_bytesOf (Pod.word 4)).load
      (BitVec.ofNat (8 * 4) values.length) (BitVec.ofNat (8 * 4) target.length) _ state hload herror
      hbuf trivial
    have hlen : (BitVec.ofNat (8 * 4) values.length).toNat = values.length :=
      Nat.mod_eq_of_lt hbound
    obtain ⟨loaded, heach, hsame⟩ := (h.each values.length).load ⟨values, rfl⟩
      (List.Vector.replicate values.length default) rest
      { state with pos := state.pos +
          ((Pod.word 4).bytes (BitVec.ofNat (8 * 4) values.length)).length }
      ⟨hload.1, hend⟩ herror hdrop hfits
    refine ⟨loaded.toList, ?_, hsame⟩
    rw [vecSavestate_load default hload, hwalk, Option.bind_some]
    show (if state.error = true then _ else if state.buf.length < _ then _ else _) = _
    rw [if_neg (by rw [herror]; decide), hlen, if_neg (by omega), heach, List.length_append,
      ← Nat.add_assoc]
    rfl
  total target state hload := by
    obtain ⟨len, state₁, hlen, hafter⟩ := (walks_bytesOf (Pod.word 4)).total
      (BitVec.ofNat (8 * 4) target.length) state hload
    rw [vecSavestate_load default hload, hlen, Option.bind_some]
    split_ifs with herror hguard
    · exact ⟨target, state₁, rfl, hafter⟩
    · exact ⟨target, _, rfl, hafter.trans (.setError hafter.loading)⟩
    · obtain ⟨loaded, state₂, heach, hafter'⟩ :=
        (h.each len.toNat).total (List.Vector.replicate len.toNat default) state₁ hafter.loading
      refine ⟨loaded.toList, state₂, ?_, hafter.trans hafter'⟩
      show (eachSavestate walk (List.Vector.replicate len.toNat default) state₁).map _ = _
      rw [heach, Option.map_some]
  extend target state loaded state' hload hwalk herror more := by
    rw [vecSavestate_load default hload] at hwalk
    obtain ⟨r, hr, hrest⟩ := Option.bind_eq_some_iff.mp hwalk
    have hafter := (walks_bytesOf (Pod.word 4)).after hload hr
    rw [vecSavestate_load default (hload.extend more)]
    split_ifs at hrest with hbad hguard
    · obtain ⟨-, rfl⟩ := Prod.mk.inj (Option.some.inj hrest)
      rw [herror] at hbad
      cases hbad
    · obtain ⟨-, rfl⟩ := Prod.mk.inj (Option.some.inj hrest)
      cases herror
    · obtain ⟨q, hq, heq⟩ := Option.map_eq_some_iff.mp hrest
      obtain ⟨rfl, rfl⟩ := Prod.mk.inj heq
      have hguard' : ¬ (r.2.extend more).buf.length < r.1.toNat := by
        rw [SavestateContext.extend, List.length_append]
        omega
      rw [(walks_bytesOf (Pod.word 4)).extend _ _ _ _ hload hr (by simpa using hbad) more,
        Option.bind_some, if_neg (show ¬ (r.2.extend more).error = true from hbad),
        if_neg hguard',
        (h.each r.1.toNat).extend _ _ _ _ hafter.loading hq herror more, Option.map_some]

section Enumeration

variable {n : Nat} {γ : Fin n → Type} {walks : ∀ i, Savestate (γ i)}

theorem enumSavestate_load (default : ∀ i, γ i) (hload : state.Loading) (target : Σ i, γ i) :
    enumSavestate default walks target state = state.takeU8.bind fun r =>
      if h : r.1.toNat < n then
        (walks ⟨r.1.toNat, h⟩ (default _) r.2).map fun q => (⟨⟨r.1.toNat, h⟩, q.1⟩, q.2)
      else some (target, r.2.setError) := by
  unfold enumSavestate
  exact if_neg hload.not_save

/-- **Enums**: the tag picks the variant. -/
theorem Walks.enumeration {bytes : ∀ i, γ i → List UInt8} {same : ∀ i, γ i → γ i → Prop}
    {fits : ∀ i, Nat → γ i → Prop} (hn : n ≤ 256) (default : ∀ i, γ i)
    (h : ∀ i, Walks (walks i) (bytes i) (same i) (fits i)) :
    Walks (enumSavestate default walks)
      (fun value => UInt8.ofNat value.1 :: bytes value.1 value.2)
      (fun a b => ∃ i x y, a = ⟨i, x⟩ ∧ b = ⟨i, y⟩ ∧ same i x y)
      (fun k value => fits value.1 k value.2) where
  save value state hsave herror := by
    have hvalue := (h value.1).save value.2
      { state with buf := state.buf ++ [UInt8.ofNat value.1] } hsave herror
    rw [enumSavestate, if_pos hsave, putU8_eq _ hsave herror, Option.bind_some, hvalue,
      List.append_assoc]
    rfl
  load value target rest state hload herror hbuf hfit := by
    obtain ⟨i, value⟩ := value
    have hbuf' : state.buf.drop state.pos = [UInt8.ofNat i] ++ (bytes i value ++ rest) := hbuf
    obtain ⟨hend, hdrop, -⟩ := drop_consumed hload.2 hbuf'
    obtain ⟨loaded, hwalk, hsame⟩ := (h i).load value (default i) rest
      { state with pos := state.pos + 1 } ⟨hload.1, hend⟩ herror hdrop hfit
    refine ⟨⟨i, loaded⟩, ?_, i, value, loaded, rfl, rfl, hsame⟩
    have htag : (UInt8.ofNat i).toNat = i := by
      rw [UInt8.toNat_ofNat']
      exact Nat.mod_eq_of_lt (i.isLt.trans_le hn)
    have hin : (UInt8.ofNat i).toNat < n := by
      rw [htag]
      exact i.isLt
    rw [enumSavestate_load default hload, takeU8_eq hload herror hbuf, Option.bind_some,
      dif_pos hin]
    -- the tag read back is the index of the variant
    have hi : (⟨(UInt8.ofNat i).toNat, hin⟩ : Fin n) = i := Fin.ext htag
    show (walks ⟨(UInt8.ofNat i).toNat, hin⟩ (default ⟨(UInt8.ofNat i).toNat, hin⟩)
      { state with pos := state.pos + 1 }).map
        (fun q => ((⟨⟨(UInt8.ofNat i).toNat, hin⟩, q.1⟩ : Σ i, γ i), q.2)) = _
    rw [hi, hwalk, Option.map_some, List.length_cons, Nat.add_comm (bytes i value).length 1,
      Nat.add_assoc]
  total target state hload := by
    obtain ⟨tag, state₁, htake, hafter⟩ := takeU8_total hload
    rw [enumSavestate_load default hload, htake, Option.bind_some]
    by_cases hin : tag.toNat < n
    · obtain ⟨loaded, state₂, hwalk, hafter'⟩ :=
        (h ⟨tag.toNat, hin⟩).total (default _) state₁ hafter.loading
      refine ⟨⟨_, loaded⟩, state₂, ?_, hafter.trans hafter'⟩
      rw [dif_pos hin, hwalk, Option.map_some]
    · exact ⟨target, _, dif_neg hin, hafter.trans (.setError hafter.loading)⟩
  extend target state loaded state' hload hwalk herror more := by
    rw [enumSavestate_load default hload] at hwalk
    obtain ⟨r, htake, hrest⟩ := Option.bind_eq_some_iff.mp hwalk
    obtain ⟨tag, state₁, htake', hafter⟩ := takeU8_total hload
    obtain rfl : r = (tag, state₁) := Option.some.inj (htake.symm.trans htake')
    rw [enumSavestate_load default (hload.extend more)]
    by_cases hin : tag.toNat < n
    · rw [dif_pos hin] at hrest
      obtain ⟨q, hq, heq⟩ := Option.map_eq_some_iff.mp hrest
      obtain ⟨rfl, rfl⟩ := Prod.mk.inj heq
      have herror₁ := ((h _).after hafter.loading hq).sticky herror
      rw [takeU8_extend hload htake herror₁ more, Option.bind_some, dif_pos hin,
        (h _).extend _ _ _ _ hafter.loading hq herror more, Option.map_some]
    · rw [dif_neg hin] at hrest
      obtain ⟨-, rfl⟩ := Prod.mk.inj (Option.some.inj hrest)
      cases herror

end Enumeration

end Impls

/-! ## Every tree -/

/-- **Every tree walks**, by the trees it is built from. -/
theorem Tree.walks {α : Type} (t : Tree α) :
    Walks t.savestate t.bytes t.Same (fun n => t.Fits n) := by
  induction t with
  | pod p => exact walks_bytesOf p
  | bool => exact walks_bool
  | usize w h => exact walks_usize h
  | isize w h => exact walks_isize h
  | array t n ih => exact ih.each n
  | boxed t ih => exact ih
  | option default t ih => exact ih.option default
  | vec default t ih => exact ih.vec default
  | deque default t ih => exact ih.vec default
  | unit => exact walks_nothing
  | field t rest ih ih' => exact ih.field ih'
  | skip rest ih => exact ih.skip
  | enumeration h default t ih => exact .enumeration h default ih

/-- A load that is a success has consumed the buffer. -/
theorem isLoadSuccessful_iff (state : SavestateContext) :
    state.isLoadSuccessful = true ↔ state.error = false ∧ state.pos = state.buf.length := by
  rw [isLoadSuccessful, Bool.and_eq_true, Bool.not_eq_true', beq_iff_eq]

theorem loading_newLoad (data : List UInt8) : (newLoad data).Loading := ⟨rfl, Nat.zero_le _⟩

section Law

variable {α : Type} (t : Tree α)

/-- **Saving never fails.** -/
theorem Tree.save_eq (value : α) : t.save value = some (t.bytes value) := by
  rw [Tree.save, t.walks.save value newSave rfl rfl]
  rfl

/-- What a load of any bytes leaves. -/
theorem Tree.load_total (target : α) (data : List UInt8) :
    ∃ loaded ok, t.load target data = some (loaded, ok) := by
  obtain ⟨loaded, state, hwalk, -⟩ := t.walks.total target (newLoad data) (loading_newLoad data)
  exact ⟨loaded, state.isLoadSuccessful, by rw [Tree.load, hwalk, Option.map_some]⟩

/-- The walk over the bytes of a value consumes them. -/
theorem Tree.walk_bytes {value : α} (hfit : t.Fits (t.bytes value).length value) (target : α) :
    ∃ loaded, t.savestate target (newLoad (t.bytes value)) =
      some (loaded, ⟨t.bytes value, (t.bytes value).length, false, false⟩) ∧
        t.Same value loaded := by
  obtain ⟨loaded, hwalk, hsame⟩ := t.walks.load value target [] (newLoad (t.bytes value))
    (loading_newLoad _) rfl (List.append_nil _).symm hfit
  refine ⟨loaded, ?_, hsame⟩
  rw [hwalk]
  exact congrArg (fun pos => some (loaded, (⟨t.bytes value, pos, false, false⟩ : SavestateContext)))
    (Nat.zero_add _)

/-- Two loads, of a stream and of a longer one, are not both a success. -/
theorem Tree.load_longer {target loaded : α} {data : List UInt8}
    (hload : t.load target data = some (loaded, true)) {more : List UInt8} (hmore : more ≠ []) :
    t.load target (data ++ more) = some (loaded, false) := by
  obtain ⟨r, hwalk, heq⟩ := Option.map_eq_some_iff.mp hload
  obtain ⟨rfl, hok⟩ := Prod.mk.inj heq
  obtain ⟨herror, hpos⟩ := (isLoadSuccessful_iff r.2).mp hok
  have hlonger := t.walks.extend target (newLoad data) r.1 r.2 (loading_newLoad data) hwalk herror
    more
  have hwalk' : t.savestate target (newLoad (data ++ more)) = some (r.1, r.2.extend more) := hlonger
  have hfail : (r.2.extend more).isLoadSuccessful = false := by
    rw [← Bool.not_eq_true, isLoadSuccessful_iff]
    rintro ⟨-, hend⟩
    have hpos' : r.2.buf.length = (r.2.buf ++ more).length := hpos.symm.trans hend
    rw [List.length_append] at hpos'
    have := List.length_pos_iff.mpr hmore
    omega
  rw [Tree.load, hwalk', Option.map_some, hfail]

/-- What is saved is loaded into a target, but for what is skipped, and nothing shorter or longer
is. -/
def Tree.RoundTrips (value target : α) (data : List UInt8) : Prop :=
  (∃ loaded, t.load target data = some (loaded, true) ∧ t.Same value loaded) ∧
  (∀ front more, more ≠ [] → data = front ++ more →
    ∃ loaded, t.load target front = some (loaded, false)) ∧
  (∀ more, more ≠ [] → ∃ loaded, t.load target (data ++ more) = some (loaded, false))

/-- **The savestate walk**, of any tree: loading gives a result on every byte string, and what is
saved makes the round trip if its vectors fit. -/
theorem savestate_law (target : α) :
    (∀ data, ∃ loaded ok, t.load target data = some (loaded, ok)) ∧
    ∀ value, ∃ data, t.save value = some data ∧
      (t.Fits data.length value → t.RoundTrips value target data) := by
  refine ⟨t.load_total target, fun value => ⟨t.bytes value, t.save_eq value, fun hfit => ?_⟩⟩
  obtain ⟨loaded, hwalk, hsame⟩ := t.walk_bytes hfit target
  have hload : t.load target (t.bytes value) = some (loaded, true) := by
    rw [Tree.load, hwalk, Option.map_some]
    refine congrArg (fun ok => some (loaded, ok)) ?_
    rw [isLoadSuccessful_iff]
    exact ⟨rfl, rfl⟩
  refine ⟨⟨loaded, hload, hsame⟩, ?_, fun more hmore => ⟨loaded, t.load_longer hload hmore⟩⟩
  intro front more hmore hsplit
  obtain ⟨loaded', ok, hfront⟩ := t.load_total target front
  refine ⟨loaded', ?_⟩
  cases ok with
  | false => exact hfront
  | true =>
      -- a prefix that loads would make the whole stream fail
      have hwhole := t.load_longer hfront hmore
      rw [← hsplit, hload] at hwhole
      cases (Prod.mk.inj (Option.some.inj hwhole)).2

end Law

/-- A struct with an optional vector of halfwords and a skipped field. -/
def sampleTree : Tree (Option (List (BitVec 16)) × Nat × Unit) :=
  .field (.option [] (.vec 0 (.pod (Pod.word 2)))) (.skip .unit)

/-- One of them is saved in nine bytes and makes the round trip. -/
theorem sampleTree_roundTrips :
    sampleTree.RoundTrips (some [1, 2], 7, ()) (none, 99, ()) [1, 2, 0, 0, 0, 1, 0, 2, 0] := by
  obtain ⟨data, hsave, hround⟩ := (savestate_law sampleTree (none, 99, ())).2 (some [1, 2], 7, ())
  obtain rfl : data = [1, 2, 0, 0, 0, 1, 0, 2, 0] := by
    rw [Tree.save_eq] at hsave
    exact (Option.some.inj hsave).symm.trans (by decide)
  apply hround
  refine ⟨fun v hv => ?_, trivial⟩
  obtain rfl := Option.some.inj hv
  exact ⟨by decide, by decide, fun _ _ => trivial⟩

/-- **Elements without bytes**: five of them are saved in four bytes, which the guard against a
corrupt length refuses. -/
theorem skippedElements_fail :
    let t : Tree (List (Nat × Unit)) := .vec (0, ()) (.skip .unit)
    let value := List.replicate 5 (7, ())
    t.save value = some [5, 0, 0, 0] ∧ t.load [] [5, 0, 0, 0] = some ([], false) := by
  decide

end AdvancedSlop
