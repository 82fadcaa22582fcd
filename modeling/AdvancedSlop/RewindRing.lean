/-
# The rewind ring

`src/core/rewind.rs` with its buffers: snapshots of the guest in a ring, stepped back through while
the input is held, and spare allocations.

* `RewindRing` : the slots, and the spare buffers;
* `rewindOnFrame` : a tick at the vblank hook, with what it records and restores;
* `outstanding` : the snapshots of a run that a step back can still go to;
* `rewind_ring_law` : runs of ticks, setting changes and clear calls.
-/
import AdvancedSlop.SavestateTree
import AdvancedSlop.MemorySession

namespace AdvancedSlop

open SavestateContext

/-! ## The ring -/

/-- `Rewind`. -/
structure RewindRing where
  slots : List (List UInt8)
  spare : List (List UInt8)
  framesSinceSnapshot : ℕ
  maxSlots : ℕ
  deriving DecidableEq

namespace RewindRing

/-- `Rewind::new`. -/
def new : RewindRing := ⟨[], [], 0, 0⟩

/-- `Rewind::clear`. -/
def clear (r : RewindRing) : RewindRing :=
  { r with slots := [], spare := r.spare ++ r.slots, framesSinceSnapshot := 0 }

/-- `Rewind::is_empty`. -/
def isEmpty (r : RewindRing) : Bool := r.slots.isEmpty

/-- The buffers the ring holds on to. -/
def buffers (r : RewindRing) : ℕ := r.slots.length + r.spare.length

end RewindRing

/-- `new_save_reusing`: of the buffer only its allocation is kept. -/
def newSaveReusing (_buf : List UInt8) : SavestateContext := newSave

/-- `into_buf`. -/
def intoBuf (state : SavestateContext) : List UInt8 × Bool := (state.buf, !state.error)

/-- The guest, with the ring. -/
structure RewindEmu (γ : Type) where
  guest : γ
  rewind : RewindRing

/-- What the ring does to the guest's history. -/
inductive RewindEvent (γ : Type)
  | recorded (guest : γ)
  | restored (buf : List UInt8) (guest : γ)
  | cleared

section Tick

variable {γ : Type} (t : Tree γ) (postRestore : γ → γ) (budget : ℕ)

/-- `rewind_snapshot`, with a memory budget. -/
def rewindSnapshot (emu : RewindEmu γ) : Option (RewindEmu γ × List (RewindEvent γ)) :=
  let buf := emu.rewind.spare.getLast?.getD []
  let spare := emu.rewind.spare.dropLast
  (t.savestate emu.guest (newSaveReusing buf)).map fun r =>
    let (buf, ok) := intoBuf r.2
    if !ok then (⟨r.1, { emu.rewind with spare := spare ++ [buf] }⟩, [])
    else
      let maxSlots := if emu.rewind.maxSlots = 0 then max (budget / max buf.length 1) minSlots
        else emu.rewind.maxSlots
      let slots := emu.rewind.slots ++ [buf]
      let rewind := { emu.rewind with maxSlots := maxSlots }
      (⟨r.1, if maxSlots < slots.length then
          { rewind with slots := slots.tail, spare := spare ++ slots.head?.toList }
        else { rewind with slots := slots, spare := spare }⟩, [.recorded emu.guest])

/-- `rewind_step_back`. -/
def rewindStepBack (emu : RewindEmu γ) : Option (RewindEmu γ × List (RewindEvent γ)) :=
  match emu.rewind.slots.getLast? with
  | none => some (emu, [])
  | some buf =>
      (t.savestate emu.guest (newLoad buf)).map fun r =>
        (⟨postRestore r.1, { emu.rewind with
          slots := emu.rewind.slots.dropLast
          spare := emu.rewind.spare ++ [(intoBuf r.2).1]
          framesSinceSnapshot := 0 }⟩, [.restored buf r.1])

/-- **`rewind_on_frame`**, by the setting and the held input. -/
def rewindOnFrame (setting held : Bool) (emu : RewindEmu γ) :
    Option (RewindEmu γ × List (RewindEvent γ)) :=
  if !setting then
    if !emu.rewind.isEmpty then
      some (⟨emu.guest, { emu.rewind.clear with spare := [] }⟩, [.cleared])
    else some (emu, [])
  else if held then rewindStepBack t postRestore emu
  else
    let frames := emu.rewind.framesSinceSnapshot + 1
    if snapshotInterval ≤ frames then
      rewindSnapshot t budget ⟨emu.guest, { emu.rewind with framesSinceSnapshot := 0 }⟩
    else some (⟨emu.guest, { emu.rewind with framesSinceSnapshot := frames }⟩, [])

/-- What happens between two frames: the game plays on, the hook runs with the setting and the input
as they are, the ring is cleared. -/
inductive RewindOp (γ : Type)
  | play (guest : γ)
  | tick (setting held : Bool)
  | clear

/-- One operation. -/
def rewindStep (emu : RewindEmu γ) : RewindOp γ → Option (RewindEmu γ × List (RewindEvent γ))
  | .play guest => some (⟨guest, emu.rewind⟩, [])
  | .tick setting held => rewindOnFrame t postRestore budget setting held emu
  | .clear => some (⟨emu.guest, emu.rewind.clear⟩, [.cleared])

/-- A run. -/
def rewindRun : List (RewindOp γ) → RewindEmu γ → Option (RewindEmu γ × List (RewindEvent γ))
  | [], emu => some (emu, [])
  | op :: ops, emu =>
      (rewindStep t postRestore budget emu op).bind fun r =>
        (rewindRun ops r.1).map fun q => (q.1, r.2 ++ q.2)

/-! ## The history -/

/-- The snapshots that are left to step back to, the newest one last. -/
def RewindEvent.next (left : List γ) : RewindEvent γ → List γ
  | .recorded guest => left ++ [guest]
  | .restored _ _ => left.dropLast
  | .cleared => []

/-- The snapshots that are left after some events. -/
def outstanding (left : List γ) (events : List (RewindEvent γ)) : List γ :=
  events.foldl RewindEvent.next left

/-- A step back restores the newest snapshot that is left. -/
def RewindEvent.Faithful (left : List γ) : RewindEvent γ → Prop
  | .restored buf guest =>
      ∃ recorded, left.getLast? = some recorded ∧ buf = t.bytes recorded ∧
        (t.Fits buf.length recorded → t.Same recorded guest)
  | _ => True

/-- Every step back of a run does. -/
def Faithful : List γ → List (RewindEvent γ) → Prop
  | _, [] => True
  | left, e :: events => e.Faithful t left ∧ Faithful (e.next left) events

/-- The slots are the newest snapshots that are left, and there are no more of them, or of all
buffers, than there may be. -/
structure RewindRing.Keeps (left : List γ) (r : RewindRing) : Prop where
  newest : r.slots <:+ left.map t.bytes
  slots : r.slots.length ≤ r.maxSlots
  buffers : r.buffers ≤ r.maxSlots + 1

variable {t postRestore budget} {left : List γ} {emu : RewindEmu γ}

theorem faithful_append {events events' : List (RewindEvent γ)} (h : Faithful t left events)
    (h' : Faithful t (outstanding left events) events') : Faithful t left (events ++ events') := by
  induction events generalizing left with
  | nil => exact h'
  | cons e events ih => exact ⟨h.1, ih h.2 h'⟩

/-- A list without its first element, where it is longer than it may be. -/
theorem suffix_of_room {slots all : List (List UInt8)} (h : slots <:+ all) (buf : List UInt8)
    (n : ℕ) :
    (if n < (slots ++ [buf]).length then (slots ++ [buf]).tail else slots ++ [buf]) <:+
      all ++ [buf] := by
  have hpush : slots ++ [buf] <:+ all ++ [buf] := by
    obtain ⟨dropped, rfl⟩ := h
    exact ⟨dropped, by rw [List.append_assoc]⟩
  split
  · exact (List.tail_suffix _).trans hpush
  · exact hpush

/-- **A snapshot** is the newest one; the oldest one makes room for it. -/
theorem keeps_rewindSnapshot (h : emu.rewind.Keeps t left) :
    ∃ emu' events, rewindSnapshot t budget emu = some (emu', events) ∧ Faithful t left events ∧
      emu'.rewind.Keeps t (outstanding left events) := by
  have hsave := t.walks.save emu.guest newSave rfl rfl
  obtain ⟨hnewest, hslots, hbuffers⟩ := h
  set buf := t.bytes emu.guest with hbuf
  set maxSlots := if emu.rewind.maxSlots = 0 then max (budget / max buf.length 1) minSlots
    else emu.rewind.maxSlots with hmax
  have hfixed : emu.rewind.maxSlots ≤ maxSlots ∧ 1 ≤ maxSlots := by
    rw [hmax]
    split
    · exact ⟨by omega, le_trans (by decide) (le_max_right _ _)⟩
    · exact ⟨le_rfl, by omega⟩
  have hnext : outstanding left [.recorded emu.guest] = left ++ [emu.guest] := rfl
  have hsuffix := suffix_of_room hnewest buf maxSlots
  have hall : left.map t.bytes ++ [buf] = (left ++ [emu.guest]).map t.bytes := by
    rw [List.map_append, List.map_singleton]
  rw [hall] at hsuffix
  -- a spare buffer is taken, or there is none and a new one is made
  have hspare : emu.rewind.spare.dropLast.length = emu.rewind.spare.length - 1 :=
    List.length_dropLast
  have hsum : emu.rewind.slots.length + emu.rewind.spare.length ≤ emu.rewind.maxSlots + 1 := hbuffers
  refine ⟨⟨emu.guest, if maxSlots < (emu.rewind.slots ++ [buf]).length then
      { emu.rewind with
        slots := (emu.rewind.slots ++ [buf]).tail
        spare := emu.rewind.spare.dropLast ++ (emu.rewind.slots ++ [buf]).head?.toList
        maxSlots := maxSlots }
    else { emu.rewind with
        slots := emu.rewind.slots ++ [buf]
        spare := emu.rewind.spare.dropLast
        maxSlots := maxSlots }⟩, [.recorded emu.guest], ?_, ⟨trivial, trivial⟩, ?_⟩
  · rw [rewindSnapshot, newSaveReusing, hsave]
    rfl
  · rw [hnext]
    by_cases hfull : maxSlots < (emu.rewind.slots ++ [buf]).length
    · rw [if_pos hfull] at hsuffix ⊢
      rw [List.length_append, List.length_singleton] at hfull
      have htail : (emu.rewind.slots ++ [buf]).tail.length = emu.rewind.slots.length := by
        rw [List.length_tail, List.length_append, List.length_singleton, Nat.add_sub_cancel]
      have hhead : (emu.rewind.slots ++ [buf]).head?.toList.length = 1 := by
        cases emu.rewind.slots <;> rfl
      refine ⟨hsuffix, htail.trans_le (hslots.trans hfixed.1), ?_⟩
      show _ + (_ ++ _ : List (List UInt8)).length ≤ _
      rw [List.length_append, htail, hhead, hspare]
      show _ ≤ maxSlots + 1
      omega
    · rw [if_neg hfull] at hsuffix ⊢
      rw [List.length_append, List.length_singleton] at hfull
      have hpush : (emu.rewind.slots ++ [buf]).length = emu.rewind.slots.length + 1 := by
        rw [List.length_append, List.length_singleton]
      refine ⟨hsuffix, hpush.trans_le (by show _ ≤ maxSlots; omega), ?_⟩
      show (emu.rewind.slots ++ [buf]).length + emu.rewind.spare.dropLast.length ≤ maxSlots + 1
      rw [hpush, hspare]
      omega

/-- **A step back.** -/
theorem keeps_rewindStepBack (h : emu.rewind.Keeps t left) :
    ∃ emu' events, rewindStepBack t postRestore emu = some (emu', events) ∧
      Faithful t left events ∧ emu'.rewind.Keeps t (outstanding left events) := by
  cases hlast : emu.rewind.slots.getLast? with
  | none =>
      refine ⟨emu, [], ?_, trivial, h⟩
      rw [rewindStepBack, hlast]
  | some buf =>
      obtain ⟨older, hslots⟩ := List.getLast?_eq_some_iff.mp hlast
      obtain ⟨dropped, hleft⟩ := h.newest
      -- the newest slot is the newest snapshot that is left
      rw [hslots, ← List.append_assoc] at hleft
      obtain ⟨before, last, rfl, hbefore, hmap⟩ := List.map_eq_append_iff.mp hleft.symm
      obtain ⟨recorded, rfl, hrecorded⟩ := List.map_eq_singleton_iff.mp hmap
      obtain ⟨loaded, state, hload, hafter⟩ :=
        t.walks.total emu.guest (newLoad buf) (loading_newLoad buf)
      have hbuf : state.buf = buf := hafter.buf
      refine ⟨⟨postRestore loaded, ⟨emu.rewind.slots.dropLast, emu.rewind.spare ++ [state.buf], 0,
        emu.rewind.maxSlots⟩⟩, [.restored buf loaded], ?_, ⟨⟨recorded, ?_, hrecorded.symm,
        fun hfit => ?_⟩, trivial⟩, ?_, ?_, ?_⟩
      · rw [rewindStepBack, hlast]
        simp only [hload, Option.map_some]
        rfl
      · exact List.getLast?_concat
      · rw [← hrecorded] at hfit hload
        obtain ⟨loaded', hload', hsame⟩ := t.walk_bytes hfit emu.guest
        obtain rfl := (Prod.mk.inj (Option.some.inj (hload.symm.trans hload'))).1
        exact hsame
      · have hnext : outstanding (before ++ [recorded]) [.restored buf loaded] = before :=
          List.dropLast_concat
        rw [hnext, hbefore, hslots, List.dropLast_concat]
        exact List.suffix_append _ _
      · have hle := h.slots
        rw [hslots] at hle ⊢
        rw [List.dropLast_concat]
        simpa using Nat.le_of_succ_le (by simpa using hle)
      · have hle := h.buffers
        rw [RewindRing.buffers] at hle ⊢
        rw [hslots] at hle ⊢
        simp only [List.dropLast_concat, List.length_append, List.length_singleton] at hle ⊢
        omega

/-- Fewer slots, and no more buffers: a ring that is cleared. -/
theorem keeps_cleared {r : RewindRing} (h : emu.rewind.Keeps t left) (hslots : r.slots = [])
    (hmax : r.maxSlots = emu.rewind.maxSlots) (hbuffers : r.buffers ≤ emu.rewind.buffers) :
    r.Keeps t [] := by
  refine ⟨?_, ?_, ?_⟩
  · rw [hslots]
    exact List.nil_suffix
  · rw [hslots]
    exact Nat.zero_le _
  · rw [hmax]
    exact hbuffers.trans h.buffers

/-- **One operation** keeps the ring. -/
theorem keeps_rewindStep (h : emu.rewind.Keeps t left) (op : RewindOp γ) :
    ∃ emu' events, rewindStep t postRestore budget emu op = some (emu', events) ∧
      Faithful t left events ∧ emu'.rewind.Keeps t (outstanding left events) := by
  cases op with
  | play guest => exact ⟨⟨guest, emu.rewind⟩, [], rfl, trivial, h⟩
  | clear =>
      refine ⟨⟨emu.guest, emu.rewind.clear⟩, [.cleared], rfl, ⟨trivial, trivial⟩,
        keeps_cleared h rfl rfl ?_⟩
      show 0 + (emu.rewind.spare ++ emu.rewind.slots).length ≤ _
      rw [List.length_append, Nat.zero_add, Nat.add_comm]
      exact le_rfl
  | tick setting held =>
      show ∃ emu' events, rewindOnFrame t postRestore budget setting held emu = _ ∧ _
      unfold rewindOnFrame
      cases setting with
      | false =>
          by_cases hempty : emu.rewind.isEmpty = true
          · exact ⟨emu, [], by simp [hempty], trivial, h⟩
          · refine ⟨⟨emu.guest, { emu.rewind.clear with spare := [] }⟩, [.cleared], ?_,
              ⟨trivial, trivial⟩, keeps_cleared h rfl rfl (Nat.zero_le _)⟩
            simp [hempty]
      | true =>
          cases held with
          | true => exact keeps_rewindStepBack h
          | false =>
              simp only [Bool.not_true, Bool.false_eq_true, if_false]
              split
              · exact keeps_rewindSnapshot ⟨h.newest, h.slots, h.buffers⟩
              · exact ⟨_, [], rfl, trivial, ⟨h.newest, h.slots, h.buffers⟩⟩

/-- **A run** keeps the ring. -/
theorem keeps_rewindRun (h : emu.rewind.Keeps t left) (ops : List (RewindOp γ)) :
    ∃ emu' events, rewindRun t postRestore budget ops emu = some (emu', events) ∧
      Faithful t left events ∧ emu'.rewind.Keeps t (outstanding left events) := by
  induction ops generalizing emu left with
  | nil => exact ⟨emu, [], rfl, trivial, h⟩
  | cons op ops ih =>
      obtain ⟨emu₁, events₁, hstep, hfaithful₁, h₁⟩ := keeps_rewindStep h op
      obtain ⟨emu₂, events₂, hrun, hfaithful₂, h₂⟩ := ih h₁
      refine ⟨emu₂, events₁ ++ events₂, ?_, faithful_append hfaithful₁ hfaithful₂, ?_⟩
      · rw [rewindRun, hstep, Option.bind_some, hrun, Option.map_some]
      · rwa [outstanding, List.foldl_append]

/-- A tick with rewinding switched off gives the buffers back, unless all of them are spare. -/
theorem switched_off_buffers (held : Bool) (emu : RewindEmu γ) :
    ∃ emu' events, rewindOnFrame t postRestore budget false held emu = some (emu', events) ∧
      (emu'.rewind.buffers = 0 ↔ emu.rewind.slots ≠ [] ∨ emu.rewind.spare = []) := by
  by_cases hempty : emu.rewind.slots = []
  · refine ⟨emu, [], ?_, ?_⟩
    · rw [rewindOnFrame, RewindRing.isEmpty, hempty]
      rfl
    · rw [RewindRing.buffers, hempty, List.length_nil, Nat.zero_add, List.length_eq_zero_iff]
      simp
  · refine ⟨⟨emu.guest, { emu.rewind.clear with spare := [] }⟩, [.cleared], ?_, ?_⟩
    · have hne : emu.rewind.isEmpty = false := by simpa [RewindRing.isEmpty] using hempty
      rw [rewindOnFrame, hne]
      rfl
    · exact iff_of_true rfl (.inl hempty)

end Tick

end AdvancedSlop
