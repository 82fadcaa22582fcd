/-
# Readers of a byte stream

A decoder takes values off the front of a stream and fails where the stream is too short.

* `ByteReader`, `readExact`, `readPod` : readers, and the two primitive ones;
* `Extends`, `ExtendsUpTo` : readers that do the same, or get further, when more bytes follow.
-/
import AdvancedSlop.Savestate

namespace AdvancedSlop

/-- A reader of the front of a stream; no result when the stream is too short. -/
abbrev ByteReader (α : Type) := StateT (List UInt8) Option α

namespace ByteReader

variable {α β : Type}

/-- The next `n` bytes. -/
def readExact (n : ℕ) : ByteReader (List UInt8) := fun stream =>
  if n ≤ stream.length then some (stream.take n, stream.drop n) else none

/-- The next value of a type of plain data. -/
def readPod (pod : Pod α) : ByteReader α := do
  let bytes ← readExact pod.size
  pure (pod.ofBytes bytes)

@[simp] theorem pure_run (a : α) (s : List UInt8) : (pure a : ByteReader α) s = some (a, s) := rfl

theorem bind_run (r : ByteReader α) (f : α → ByteReader β) (s : List UInt8) :
    (r >>= f) s = (r s).bind fun q => f q.1 q.2 := rfl

/-- A reader that has its value goes on with the next one. -/
theorem bind_of_run {r : ByteReader α} {s t : List UInt8} {a : α} (f : α → ByteReader β)
    (h : r s = some (a, t)) : (r >>= f) s = f a t := by
  rw [bind_run, h]
  rfl

theorem readExact_append (bytes t : List UInt8) :
    readExact bytes.length (bytes ++ t) = some (bytes, t) := by
  rw [readExact, if_pos (by rw [List.length_append]; exact Nat.le_add_right _ _), List.take_left,
    List.drop_left]

/-- A value is read back from its bytes. -/
theorem readPod_append (pod : Pod α) (a : α) (t : List UInt8) :
    readPod pod (pod.bytes a ++ t) = some (a, t) := by
  have h := readExact_append (pod.bytes a) t
  rw [pod.length_bytes] at h
  rw [readPod, bind_of_run _ h, pod.ofBytes_bytes, pure_run]

/-! ## Longer streams -/

/-- A reader that takes the same from a longer stream, and leaves a rest of the one it is given. -/
def Extends (r : ByteReader α) : Prop :=
  ∀ s a rest, r s = some (a, rest) → rest <:+ s ∧ ∀ t, r (s ++ t) = some (a, rest ++ t)

theorem Extends.pure (a : α) : Extends (pure a : ByteReader α) := by
  intro s b rest h
  obtain ⟨rfl, rfl⟩ := Prod.mk.inj (Option.some.inj h)
  exact ⟨List.suffix_rfl, fun t => rfl⟩

theorem Extends.bind {r : ByteReader α} {f : α → ByteReader β} (hr : Extends r)
    (hf : ∀ a, Extends (f a)) : Extends (r >>= f) := by
  intro s b rest h
  rw [bind_run] at h
  obtain ⟨⟨a, mid⟩, ha, hb⟩ := Option.bind_eq_some_iff.1 h
  obtain ⟨hsuf, hext⟩ := hr s a mid ha
  obtain ⟨hsuf', hext'⟩ := hf a mid b rest hb
  refine ⟨hsuf'.trans hsuf, fun t => ?_⟩
  rw [bind_of_run f (hext t)]
  exact hext' t

theorem Extends.readExact (n : ℕ) : Extends (readExact n) := by
  intro s bytes rest h
  rw [ByteReader.readExact] at h
  split at h
  · next hn =>
    obtain ⟨rfl, rfl⟩ := Prod.mk.inj (Option.some.inj h)
    refine ⟨List.drop_suffix _ _, fun t => ?_⟩
    rw [ByteReader.readExact, if_pos (by rw [List.length_append]; omega),
      List.take_append_of_le_length hn, List.drop_append_of_le_length hn]
  · exact absurd h (Option.some_ne_none _).symm

theorem Extends.readPod (pod : Pod α) : Extends (readPod pod) :=
  (Extends.readExact pod.size).bind fun bytes => Extends.pure (pod.ofBytes bytes)

theorem Extends.ite {c : Prop} [Decidable c] {r q : ByteReader α} (hr : Extends r)
    (hq : Extends q) : Extends (if c then r else q) := by
  split
  · exact hr
  · exact hq

theorem Extends.foldlM {f : β → α → ByteReader β} (hf : ∀ b a, Extends (f b a)) (l : List α) :
    ∀ b, Extends (l.foldlM f b) := by
  induction l with
  | nil => exact fun b => Extends.pure b
  | cons a l ih =>
      intro b
      rw [List.foldlM_cons]
      exact (hf b a).bind ih

/-- A reader that takes the same from a longer stream, or has come to the end of the one it is given
and gets further in the longer one. -/
def ExtendsUpTo (le : α → α → Prop) (r : ByteReader α) : Prop :=
  ∀ s a rest, r s = some (a, rest) → rest <:+ s ∧ ∀ t,
    r (s ++ t) = some (a, rest ++ t) ∨
      rest = [] ∧ ∃ a' rest', r (s ++ t) = some (a', rest') ∧ le a a'

theorem Extends.upTo {r : ByteReader α} (hr : Extends r) (le : α → α → Prop) :
    ExtendsUpTo le r :=
  fun s a rest h => ⟨(hr s a rest h).1, fun t => Or.inl ((hr s a rest h).2 t)⟩

theorem ExtendsUpTo.failure (le : α → α → Prop) : ExtendsUpTo le (failure : ByteReader α) :=
  fun _ _ _ h => absurd h (Option.some_ne_none _).symm

theorem Extends.bind_upTo {r : ByteReader β} {f : β → ByteReader α} {le : α → α → Prop}
    (hr : Extends r) (hf : ∀ b, ExtendsUpTo le (f b)) : ExtendsUpTo le (r >>= f) := by
  intro s a rest h
  rw [bind_run] at h
  obtain ⟨⟨b, mid⟩, hb, ha⟩ := Option.bind_eq_some_iff.1 h
  obtain ⟨hsuf, hext⟩ := hr s b mid hb
  obtain ⟨hsuf', hext'⟩ := hf b mid a rest ha
  refine ⟨hsuf'.trans hsuf, fun t => ?_⟩
  rw [bind_of_run f (hext t)]
  exact hext' t

theorem ExtendsUpTo.ite {c : Prop} [Decidable c] {r q : ByteReader α} {le : α → α → Prop}
    (hr : ExtendsUpTo le r) (hq : ExtendsUpTo le q) : ExtendsUpTo le (if c then r else q) := by
  split
  · exact hr
  · exact hq

theorem ExtendsUpTo.length_le {r : ByteReader α} {le : α → α → Prop} (hr : ExtendsUpTo le r)
    {s rest : List UInt8} {a : α} (h : r s = some (a, rest)) : rest.length ≤ s.length :=
  (hr s a rest h).1.length_le

end ByteReader

end AdvancedSlop
