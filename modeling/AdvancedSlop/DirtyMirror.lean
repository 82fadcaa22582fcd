/-
# Mirrors of a memory

A memory is made of parts.  A mirror holds a copy of it and is brought up to date part by part:
a change of the memory flags the parts it changes, and a refresh copies those that are flagged.

* `UpToDate` : a mirror agrees with the memory on every part that is not flagged;
* `Marks` : a change that flags what it changes; changes compose (`Marks.trans`);
* `UpToDate.marks`, `UpToDate.copied`, `UpToDate.refresh` : what changes and copies do to a mirror.
-/
import Mathlib.Data.Set.Function

namespace DirtyMirror

variable {Part Cell β : Type*} {cells : Part → Set Cell} {pending flags flags' flags'' : Set Part}
  {mem mem' mem'' mirror mirror' : Cell → β}

/-- The mirror agrees with the memory on the parts that are not flagged. -/
def UpToDate (cells : Part → Set Cell) (flags : Set Part) (mem mirror : Cell → β) : Prop :=
  ∀ p ∉ flags, Set.EqOn mirror mem (cells p)

/-- A change of the memory that takes no flag away, and leaves the parts alone that are not
flagged after it. -/
structure Marks (cells : Part → Set Cell) (mem : Cell → β) (flags : Set Part) (mem' : Cell → β)
    (flags' : Set Part) : Prop where
  mono : flags ⊆ flags'
  kept : ∀ p ∉ flags', Set.EqOn mem' mem (cells p)

/-! ## Changes -/

theorem Marks.refl (mem : Cell → β) (flags : Set Part) : Marks cells mem flags mem flags :=
  ⟨Set.Subset.rfl, fun p _ => Set.eqOn_refl mem (cells p)⟩

/-- Changes compose. -/
theorem Marks.trans (h : Marks cells mem flags mem' flags')
    (h' : Marks cells mem' flags' mem'' flags'') : Marks cells mem flags mem'' flags'' := by
  refine ⟨h.mono.trans h'.mono, fun p hp => ?_⟩
  have hmiddle : p ∉ flags' := fun hflag => hp (h'.mono hflag)
  exact (h'.kept p hp).trans (h.kept p hmiddle)

/-- Where everything is flagged, anything may have changed. -/
theorem Marks.of_univ (mem mem' : Cell → β) (flags : Set Part) :
    Marks cells mem flags mem' Set.univ :=
  ⟨Set.subset_univ flags, fun p hp => absurd (Set.mem_univ p) hp⟩

/-! ## Mirrors -/

/-- More flags ask for less. -/
theorem UpToDate.mono (h : UpToDate cells flags mem mirror) (hsub : flags ⊆ flags') :
    UpToDate cells flags' mem mirror :=
  fun p hp => h p fun hflag => hp (hsub hflag)

/-- A mirror of which every part is flagged may hold anything. -/
theorem upToDate_univ (mem mirror : Cell → β) : UpToDate cells Set.univ mem mirror :=
  fun p hp => absurd (Set.mem_univ p) hp

/-- A mirror without a flag is up to date. -/
theorem UpToDate.eqOn (h : UpToDate cells ∅ mem mirror) (p : Part) : Set.EqOn mirror mem (cells p) :=
  h p (Set.notMem_empty p)

/-- **A change** of the memory, with the flags a mirror has kept from earlier ones. -/
theorem UpToDate.marks (h : UpToDate cells (pending ∪ flags) mem mirror)
    (hmarks : Marks cells mem flags mem' flags') : UpToDate cells (pending ∪ flags') mem' mirror := by
  intro p hp
  have hold : p ∉ pending ∪ flags := fun hflag =>
    hp (Set.union_subset_union_right pending hmarks.mono hflag)
  have hkept := hmarks.kept p fun hflag => hp (Set.mem_union_right pending hflag)
  exact (h p hold).trans hkept.symm

/-- **A copy** of some cells leaves the mirror as fresh as it was. -/
theorem UpToDate.copied (h : UpToDate cells flags mem mirror)
    (hcopy : ∀ c, mirror' c = mirror c ∨ mirror' c = mem c) : UpToDate cells flags mem mirror' := by
  intro p hp c hc
  rcases hcopy c with hold | hnew
  · exact hold.trans (h p hp hc)
  · exact hnew

/-- **A refresh**: with the flagged parts copied the mirror is up to date. -/
theorem UpToDate.refresh (h : UpToDate cells flags mem mirror)
    (hcopy : ∀ c, mirror' c = mirror c ∨ mirror' c = mem c)
    (hall : ∀ p ∈ flags, Set.EqOn mirror' mem (cells p)) : UpToDate cells ∅ mem mirror' := by
  intro p _
  by_cases hflag : p ∈ flags
  · exact hall p hflag
  · exact h.copied hcopy p hflag

end DirtyMirror
