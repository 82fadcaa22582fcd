/-
# Read trees

A computation on a state of named locations, as a tree: it reads a location, or loads from outside,
and goes on by the value, until it decides what to write.  What it reads is then part of it.

* `ReadTree` : the trees, with their result, reads and loads from a state;
* `runAll` : trees one after the other, and `entryReads` : what they read before they write it;
* `runAll_again` : a second pass does what the first one did when it finds there what the first one
  found.
-/
import Mathlib.Tactic

namespace AdvancedSlop

/-- A computation with a result in `R`, over locations with values and loads with replies. -/
inductive ReadTree {L : Type} (V : L → Type) {A : Type} (B : A → Type) (R : Type)
  | done (r : R)
  | read (l : L) (next : V l → ReadTree V B R)
  | load (a : A) (next : B a → ReadTree V B R)

namespace ReadTree

variable {L A R : Type} {V : L → Type} {B : A → Type}

/-! ## One tree -/

section Eval

variable (σ : ∀ l, V l) (m : ∀ a, B a)

/-- The result. -/
def eval : ReadTree V B R → R
  | done r => r
  | read l next => (next (σ l)).eval
  | load a next => (next (m a)).eval

/-- The locations it reads, in order. -/
def reads : ReadTree V B R → List L
  | done _ => []
  | read l next => l :: (next (σ l)).reads
  | load a next => (next (m a)).reads

/-- The loads it makes, in order. -/
def loads : ReadTree V B R → List A
  | done _ => []
  | read l next => (next (σ l)).loads
  | load a next => a :: (next (m a)).loads

/-- The result with the loads. -/
def out (t : ReadTree V B R) : R × List A := (t.eval σ m, t.loads σ m)

@[simp] theorem out_done (r : R) : (done r : ReadTree V B R).out σ m = (r, []) := rfl

@[simp] theorem out_read (l : L) (next : V l → ReadTree V B R) :
    (read l next).out σ m = (next (σ l)).out σ m := rfl

theorem out_load {a : A} {next : B a → ReadTree V B R} {r : R} {as : List A}
    (h : (next (m a)).out σ m = (r, as)) : (load a next).out σ m = (r, a :: as) := by
  obtain ⟨heval, hloads⟩ := Prod.mk.inj h
  exact Prod.ext heval (congrArg (a :: ·) hloads)

end Eval

variable {σ σ' : ∀ l, V l} {m m' : ∀ a, B a}

/-- **What a tree does** depends on what it reads and loads only. -/
theorem congr_reads {t : ReadTree V B R} (hreads : ∀ l ∈ t.reads σ m, σ' l = σ l)
    (hloads : ∀ a ∈ t.loads σ m, m' a = m a) :
    t.eval σ' m' = t.eval σ m ∧ t.reads σ' m' = t.reads σ m ∧ t.loads σ' m' = t.loads σ m := by
  induction t with
  | done r => exact ⟨rfl, rfl, rfl⟩
  | read l next ih =>
      have hl : σ' l = σ l := hreads l List.mem_cons_self
      obtain ⟨heval, hr, hm⟩ := ih (σ l) (fun l' h => hreads l' (List.mem_cons_of_mem _ h)) hloads
      simp only [eval, reads, loads, hl]
      exact ⟨heval, congrArg _ hr, hm⟩
  | load a next ih =>
      have ha : m' a = m a := hloads a List.mem_cons_self
      obtain ⟨heval, hr, hm⟩ := ih (m a) hreads fun a' h => hloads a' (List.mem_cons_of_mem _ h)
      simp only [eval, reads, loads, ha]
      exact ⟨heval, hr, congrArg _ hm⟩

/-- Every location the tree may read is of a kind. -/
def ReadsOnly (P : L → Prop) : ReadTree V B R → Prop
  | done _ => True
  | read l next => P l ∧ ∀ v, (next v).ReadsOnly P
  | load _ next => ∀ b, (next b).ReadsOnly P

theorem ReadsOnly.mem_reads {P : L → Prop} {t : ReadTree V B R} (h : t.ReadsOnly P) {l : L}
    (hl : l ∈ t.reads σ m) : P l := by
  induction t with
  | done r => exact absurd hl List.not_mem_nil
  | read l' next ih =>
      rcases List.mem_cons.mp hl with rfl | hl
      · exact h.1
      · exact ih _ (h.2 _) hl
  | load a next ih => exact ih _ (h _) hl

/-! ## Passes -/

/-- Values for some locations, the last one of a location counting. -/
abbrev Writes {L : Type} (V : L → Type) := List (Σ l, V l)

section Passes

variable [DecidableEq L]

/-- A state with other values. -/
def update (σ : ∀ l, V l) (ws : Writes V) : ∀ l, V l :=
  ws.foldl (fun σ w => Function.update σ w.1 w.2) σ

/-- The locations of some values. -/
def locs (ws : Writes V) : List L := ws.map Sigma.fst

theorem update_of_notMem (σ : ∀ l, V l) {ws : Writes V} {l : L} (h : l ∉ locs ws) :
    update σ ws l = σ l := by
  induction ws generalizing σ with
  | nil => rfl
  | cons w ws ih =>
      rw [locs, List.map_cons, List.mem_cons, not_or] at h
      exact (ih _ h.2).trans (Function.update_of_ne h.1 _ _)

/-- What is written does not depend on what was there. -/
theorem update_of_mem (σ τ : ∀ l, V l) {ws : Writes V} {l : L} (h : l ∈ locs ws) :
    update σ ws l = update τ ws l := by
  induction ws generalizing σ τ with
  | nil => exact absurd h List.not_mem_nil
  | cons w ws ih =>
      by_cases hws : l ∈ locs ws
      · exact ih _ _ hws
      · have hw : l = w.1 := (List.mem_cons.mp h).resolve_right hws
        subst hw
        have hself (ρ : ∀ l, V l) : update ρ (w :: ws) w.1 = w.2 :=
          (update_of_notMem _ hws).trans (Function.update_self _ _ _)
        rw [hself, hself]

variable (m : ∀ a, B a)

/-- The trees one after the other: the state after them and their loads, unless one of them has no
values to write. -/
def runAll : List (ReadTree V B (Option (Writes V))) → (∀ l, V l) → Option ((∀ l, V l) × List A)
  | [], σ => some (σ, [])
  | t :: ts, σ =>
      (t.eval σ m).bind fun ws =>
        (runAll ts (update σ ws)).map fun r => (r.1, t.loads σ m ++ r.2)

/-- The locations the trees write. -/
def written : List (ReadTree V B (Option (Writes V))) → (∀ l, V l) → List L
  | [], _ => []
  | t :: ts, σ =>
      match t.eval σ m with
      | some ws => locs ws ++ written ts (update σ ws)
      | none => []

/-- The locations the trees read before they write them. -/
def entryReads : List (ReadTree V B (Option (Writes V))) → (∀ l, V l) → List L
  | [], _ => []
  | t :: ts, σ =>
      t.reads σ m ++
        match t.eval σ m with
        | some ws => (entryReads ts (update σ ws)).filter fun l => l ∉ locs ws
        | none => []

variable {m} {ts : List (ReadTree V B (Option (Writes V)))} {as : List A}

/-- What is not written is left alone. -/
theorem runAll_of_notMem (h : runAll m ts σ = some (σ', as)) {l : L} (hl : l ∉ written m ts σ) :
    σ' l = σ l := by
  induction ts generalizing σ as with
  | nil =>
      obtain ⟨rfl, -⟩ := Prod.mk.inj (Option.some.inj h)
      rfl
  | cons t ts ih =>
      obtain ⟨ws, heval, h⟩ := Option.bind_eq_some_iff.mp h
      obtain ⟨r, hrest, hr⟩ := Option.map_eq_some_iff.mp h
      obtain ⟨rfl, -⟩ := Prod.mk.inj hr
      rw [written, heval, List.mem_append, not_or] at hl
      exact (ih hrest hl.2).trans (update_of_notMem σ hl.1)

/-- **A second pass**, from a state that agrees with the first one where the first pass looked
before it wrote: it makes the same loads and writes the same. -/
theorem runAll_agree {τ : ∀ l, V l} (h : runAll m ts σ = some (σ', as))
    (hentry : ∀ l ∈ entryReads m ts σ, τ l = σ l) (hloads : ∀ a ∈ as, m' a = m a) :
    ∃ τ', runAll m' ts τ = some (τ', as) ∧
      ∀ l, τ' l = if l ∈ written m ts σ then σ' l else τ l := by
  induction ts generalizing σ τ as with
  | nil =>
      obtain ⟨rfl, rfl⟩ := Prod.mk.inj (Option.some.inj h)
      exact ⟨τ, rfl, fun l => rfl⟩
  | cons t ts ih =>
      obtain ⟨ws, heval, h⟩ := Option.bind_eq_some_iff.mp h
      obtain ⟨r, hrest, hr⟩ := Option.map_eq_some_iff.mp h
      obtain ⟨rfl, rfl⟩ := Prod.mk.inj hr
      rw [entryReads, heval] at hentry
      have hreads : ∀ l ∈ t.reads σ m, τ l = σ l :=
        fun l hl => hentry l (List.mem_append_left _ hl)
      have hfirst : ∀ a ∈ t.loads σ m, m' a = m a :=
        fun a ha => hloads a (List.mem_append_left _ ha)
      obtain ⟨heval', -, hloads'⟩ := congr_reads hreads hfirst
      -- behind the first tree both agree on what it wrote, and on what is looked at later
      have hagree : ∀ l ∈ entryReads m ts (update σ ws), update τ ws l = update σ ws l := by
        intro l hl
        by_cases hws : l ∈ locs ws
        · exact update_of_mem τ σ hws
        · rw [update_of_notMem τ hws, update_of_notMem σ hws]
          refine hentry l (List.mem_append_right _ (List.mem_filter.mpr ⟨hl, ?_⟩))
          exact decide_eq_true hws
      obtain ⟨τ', hrun, hτ'⟩ := ih hrest hagree fun a ha => hloads a (List.mem_append_right _ ha)
      refine ⟨τ', ?_, fun l => ?_⟩
      · rw [runAll, heval', heval, Option.bind_some, hrun, hloads']
        rfl
      · rw [hτ' l, written, heval]
        simp only [List.mem_append]
        by_cases hts : l ∈ written m ts (update σ ws)
        · rw [if_pos hts, if_pos (.inr hts)]
        · rw [if_neg hts]
          by_cases hws : l ∈ locs ws
          · rw [if_pos (.inl hws), runAll_of_notMem hrest hts, update_of_mem τ σ hws]
          · rw [if_neg (by tauto), update_of_notMem τ hws]

/-- **A pass again**: from the state it left, when that state has what it found. -/
theorem runAll_again (h : runAll m ts σ = some (σ', as))
    (hentry : ∀ l ∈ entryReads m ts σ, σ' l = σ l) (hloads : ∀ a ∈ as, m' a = m a) :
    runAll m' ts σ' = some (σ', as) := by
  obtain ⟨τ', hrun, hτ'⟩ := runAll_agree h hentry hloads
  have hsame : τ' = σ' := by
    funext l
    rw [hτ' l, ite_self]
  rw [hrun, hsame]

end Passes

end ReadTree

end AdvancedSlop
