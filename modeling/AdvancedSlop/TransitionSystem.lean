/-
# Partial transition systems

A machine is given by a partial step function `step : σ → α → Option σ`: an action that is
not possible in a state (a guard fails, the program would abort) has no successor.
`Reaches step C s t` says that a run leads from `s` to `t` and that every step of it meets
the side condition `C`; `C := fun _ _ => True` is plain reachability.

* `Reaches.invariant` : what every good step preserves holds along the whole run;
* `Reaches.trans`, `Reaches.mono` : runs compose, and a weaker condition allows more runs;
* `Trace.forall_iff` : a property of steps holds all along a run exactly when an equivalent
  condition does;
* `Trace.before` : the part of a run before a step;
* `Trace.states_iff` : an invariant that a step keeps exactly under a condition holds all along a
  run exactly when the condition does;
* `Trace.flow` : what flows in along a run is what flows out and what is left;
* `Blind forget f` : the function `f` does not look at what `forget` erases, up to what it erases
  afterwards.
-/
import Mathlib.Data.List.Induction

namespace TransitionSystem

variable {σ α : Type*}

/-- `Reaches step C s t`: a run leads from `s` to `t`, each of whose steps meets `C`. -/
inductive Reaches (step : σ → α → Option σ) (C : σ → α → Prop) : σ → σ → Prop
  | refl (s : σ) : Reaches step C s s
  | tail {s t u : σ} {a : α} :
      Reaches step C s t → C t a → step t a = some u → Reaches step C s u

variable {step : σ → α → Option σ} {C : σ → α → Prop}

/-- A single good step is a run. -/
theorem Reaches.single {s t : σ} {a : α} (hC : C s a) (h : step s a = some t) :
    Reaches step C s t :=
  (Reaches.refl s).tail hC h

/-- Runs compose. -/
theorem Reaches.trans {s t u : σ} (h₁ : Reaches step C s t) (h₂ : Reaches step C t u) :
    Reaches step C s u := by
  induction h₂ with
  | refl => exact h₁
  | tail _ hC hstep ih => exact ih.tail hC hstep

/-- A weaker side condition allows every run the stronger one allows. -/
theorem Reaches.mono {C' : σ → α → Prop} (hCC : ∀ s a, C s a → C' s a) {s t : σ}
    (h : Reaches step C s t) : Reaches step C' s t := by
  induction h with
  | refl => exact Reaches.refl _
  | tail _ hC hstep ih => exact ih.tail (hCC _ _ hC) hstep

/-- **The invariant rule.**  A predicate that every good step preserves holds in every state
a run of good steps reaches. -/
theorem Reaches.invariant {I : σ → Prop}
    (hI : ∀ s a t, I s → C s a → step s a = some t → I t) {s t : σ}
    (h : Reaches step C s t) (hs : I s) : I t := by
  induction h with
  | refl => exact hs
  | tail _ hC hstep ih => exact hI _ _ _ ih hC hstep

/-- The invariant rule with the knowledge that the state a step leaves is itself reached. -/
theorem Reaches.invariant_of_reaches {I : σ → Prop} {s t : σ}
    (hI : ∀ u a v, Reaches step C s u → I u → C u a → step u a = some v → I v)
    (h : Reaches step C s t) (hs : I s) : I t := by
  induction h with
  | refl => exact hs
  | tail hr hC hstep ih => exact hI _ _ _ hr ih hC hstep

/-- A list of good actions that can all be taken is a run. -/
theorem Reaches.of_foldlM {s t : σ} {actions : List α} (hC : ∀ u, ∀ a ∈ actions, C u a)
    (h : actions.foldlM step s = some t) : Reaches step C s t := by
  induction actions generalizing s with
  | nil =>
      obtain rfl : s = t := Option.some.inj h
      exact .refl s
  | cons a actions ih =>
      rw [List.foldlM_cons, Option.bind_eq_bind, Option.bind_eq_some_iff] at h
      obtain ⟨u, hstep, hrest⟩ := h
      refine (Reaches.single (hC s a List.mem_cons_self) hstep).trans (ih ?_ hrest)
      exact fun v b hb => hC v b (List.mem_cons_of_mem _ hb)

/-- `Trace step s run t`: the run leads from `s` to `t` and `run` lists its steps, each with the
state before it, the action and the state after it. -/
inductive Trace (step : σ → α → Option σ) (s : σ) : List (σ × α × σ) → σ → Prop
  | nil : Trace step s [] s
  | snoc {run : List (σ × α × σ)} {t u : σ} {a : α} :
      Trace step s run t → step t a = some u → Trace step s (run ++ [(t, a, u)]) u

/-- The steps of a trace are steps. -/
theorem Trace.step_of_mem {s t : σ} {run : List (σ × α × σ)} (h : Trace step s run t)
    {x : σ × α × σ} (hx : x ∈ run) : step x.1 x.2.1 = some x.2.2 := by
  induction h with
  | nil => simp at hx
  | snoc _ hstep ih =>
      rcases List.mem_append.mp hx with hx | hx
      · exact ih hx
      · obtain rfl := List.mem_singleton.mp hx
        exact hstep

/-- The steps before one of a trace lead to the state it is taken in. -/
theorem Trace.before {s t : σ} {before after : List (σ × α × σ)} {x : σ × α × σ}
    (h : Trace step s (before ++ x :: after) t) : Trace step s before x.1 := by
  generalize hrun : before ++ x :: after = run at h
  induction h generalizing after with
  | nil => simp at hrun
  | @snoc run u v a hrest hstep ih =>
      rcases List.eq_nil_or_concat after with rfl | ⟨after, y, rfl⟩
      · obtain ⟨rfl, hx⟩ := List.append_inj' hrun rfl
        obtain rfl := List.singleton_inj.mp hx
        exact hrest
      · rw [List.concat_eq_append, ← List.cons_append, ← List.append_assoc] at hrun
        exact ih (List.append_inj' hrun rfl).1

/-- A property of steps that is equivalent to a condition on each of them holds all along a run
exactly when the condition does. -/
theorem Trace.forall_iff {P : σ → α → σ → Prop}
    (hP : ∀ s a t, step s a = some t → (P s a t ↔ C s a)) {s t : σ} {run : List (σ × α × σ)}
    (h : Trace step s run t) :
    (∀ x ∈ run, P x.1 x.2.1 x.2.2) ↔ ∀ x ∈ run, C x.1 x.2.1 :=
  forall₂_congr fun _ hx => hP _ _ _ (h.step_of_mem hx)

/-- What every step preserves holds before each step of a trace and at its end. -/
theorem Trace.invariant {I : σ → Prop} (hI : ∀ s a t, I s → step s a = some t → I t) {s t : σ}
    {run : List (σ × α × σ)} (h : Trace step s run t) (hs : I s) : I t ∧ ∀ x ∈ run, I x.1 := by
  induction h with
  | nil => exact ⟨hs, by simp⟩
  | snoc _ hstep ih =>
      refine ⟨hI _ _ _ ih.1 hstep, fun x hx => ?_⟩
      rcases List.mem_append.mp hx with hx | hx
      · exact ih.2 x hx
      · obtain rfl := List.mem_singleton.mp hx
        exact ih.1

/-- As `Trace.forall_iff`, with an invariant at hand. -/
theorem Trace.forall_iff_of_invariant {I : σ → Prop} {P : σ → α → σ → Prop}
    (hI : ∀ s a t, I s → step s a = some t → I t)
    (hP : ∀ s a t, I s → step s a = some t → (P s a t ↔ C s a)) {s t : σ}
    {run : List (σ × α × σ)} (h : Trace step s run t) (hs : I s) :
    (∀ x ∈ run, P x.1 x.2.1 x.2.2) ↔ ∀ x ∈ run, C x.1 x.2.1 :=
  forall₂_congr fun x hx => hP _ _ _ ((h.invariant hI hs).2 x hx) (h.step_of_mem hx)

/-- **Exact conditions for an invariant.**  If a step from a state with `Q` keeps `Q` exactly when
it meets `C`, then `Q` holds all along a run exactly when every step meets `C`. -/
theorem Trace.states_iff {I Q : σ → Prop} (hI : ∀ s a t, I s → step s a = some t → I t)
    (hQ : ∀ s a t, I s → Q s → step s a = some t → (Q t ↔ C s a)) {s t : σ}
    {run : List (σ × α × σ)} (h : Trace step s run t) (hs : I s) (hq : Q s) :
    (∀ x ∈ run, Q x.2.2) ↔ ∀ x ∈ run, C x.1 x.2.1 := by
  suffices hboth : ((∀ x ∈ run, Q x.2.2) ↔ ∀ x ∈ run, C x.1 x.2.1) ∧
      ((∀ x ∈ run, Q x.2.2) → Q t) from hboth.1
  induction h with
  | nil => exact ⟨by simp, fun _ => hq⟩
  | snoc htrace hstep ih =>
      have hinv := (htrace.invariant hI hs).1
      simp only [List.forall_mem_append, List.forall_mem_singleton]
      refine ⟨?_, And.right⟩
      rw [ih.1]
      refine and_congr_right fun hall => ?_
      exact hQ _ _ _ hinv (ih.2 (ih.1.mpr hall)) hstep

/-- **The flow along a run.**  If in every good step what a state contains and what is put in is
what comes out and what the next state contains, then so it is along the whole run; and what the
steps preserve holds at its end. -/
theorem Trace.flow {β : Type*} {I : σ → Prop} {content : σ → List β} {inflow outflow : σ → α → List β}
    (hstep : ∀ s a t, I s → C s a → step s a = some t →
      I t ∧ content s ++ inflow s a = outflow s a ++ content t)
    {s t : σ} {run : List (σ × α × σ)} (h : Trace step s run t) (hs : I s)
    (hC : ∀ x ∈ run, C x.1 x.2.1) :
    I t ∧ content s ++ run.flatMap (fun x => inflow x.1 x.2.1) =
      run.flatMap (fun x => outflow x.1 x.2.1) ++ content t := by
  induction h with
  | nil => exact ⟨hs, List.append_nil _⟩
  | snoc _ ha ih =>
      rw [List.forall_mem_append, List.forall_mem_singleton] at hC
      obtain ⟨hI, hflow⟩ := ih hC.1
      obtain ⟨hI', hlast⟩ := hstep _ _ _ hI hC.2 ha
      refine ⟨hI', ?_⟩
      rw [List.flatMap_append, List.flatMap_append, List.flatMap_singleton, List.flatMap_singleton,
        ← List.append_assoc, hflow, List.append_assoc, hlast, List.append_assoc]

/-- A trace is a run. -/
theorem Trace.reaches {s t : σ} {run : List (σ × α × σ)} (h : Trace step s run t) :
    Reaches step (fun _ _ => True) s t := by
  induction h with
  | nil => exact Reaches.refl _
  | snoc _ hstep ih => exact ih.tail trivial hstep

/-- A list of actions that can all be taken is a trace, whose last state is the one reached. -/
theorem Trace.of_foldlM {s t : σ} {actions : List α} (h : actions.foldlM step s = some t) :
    ∃ run, Trace step s run t ∧ run.map (·.2.1) = actions ∧
      (actions ≠ [] → ∃ x ∈ run, x.2.2 = t) := by
  induction actions using List.reverseRecOn generalizing t with
  | nil =>
      obtain rfl : s = t := Option.some.inj h
      exact ⟨[], .nil, rfl, fun hne => absurd rfl hne⟩
  | append_singleton actions a ih =>
      rw [List.foldlM_append, Option.bind_eq_bind, Option.bind_eq_some_iff] at h
      obtain ⟨u, hu, hstep⟩ := h
      rw [List.foldlM_cons, Option.bind_eq_bind, Option.bind_eq_some_iff] at hstep
      obtain ⟨t', hstep, hend⟩ := hstep
      obtain rfl : t' = t := Option.some.inj hend
      obtain ⟨run, htrace, hmap, -⟩ := ih hu
      refine ⟨run ++ [(u, a, t')], htrace.snoc hstep, by simp [hmap], fun _ => ?_⟩
      exact ⟨(u, a, t'), by simp, rfl⟩

/-- **A list of actions** can all be taken exactly when none of them is stuck where it is taken. -/
theorem foldlM_eq_some_iff {s : σ} {actions : List α} :
    (∃ t, actions.foldlM step s = some t) ↔
      ∀ before a after t, actions = before ++ a :: after → before.foldlM step s = some t →
        step t a ≠ none := by
  constructor
  · rintro ⟨t, h⟩ before a after u rfl hu hstuck
    rw [List.foldlM_append, hu, Option.bind_eq_bind, Option.bind_some, List.foldlM_cons, hstuck] at h
    exact absurd h (Option.some_ne_none t).symm
  · intro h
    induction actions using List.reverseRecOn with
    | nil => exact ⟨s, rfl⟩
    | append_singleton actions a ih =>
        obtain ⟨u, hu⟩ := ih fun before b after t heq ht =>
          h before b (after ++ [a]) t (by rw [heq, List.append_assoc, List.cons_append]) ht
        obtain ⟨t, ht⟩ := Option.ne_none_iff_exists'.mp (h actions a [] u rfl hu)
        refine ⟨t, ?_⟩
        rw [List.foldlM_append, hu, Option.bind_eq_bind, Option.bind_some, List.foldlM_cons, ht]
        rfl

/-! ## Functions that do not look at a part of the state -/

/-- `f` leads from states that agree after `forget` to states that agree after it. -/
def Blind (forget f : σ → σ) : Prop := ∀ s, forget (f s) = forget (f (forget s))

section Blind

variable {forget f g : σ → σ}

/-- States that agree after `forget` still do after a blind function. -/
theorem Blind.congr (hf : Blind forget f) {s t : σ} (h : forget s = forget t) :
    forget (f s) = forget (f t) := by
  rw [hf s, h, ← hf t]

/-- A function that commutes with `forget` is blind. -/
theorem Blind.of_comm (hidem : ∀ s, forget (forget s) = forget s)
    (h : ∀ s, f (forget s) = forget (f s)) : Blind forget f := by
  intro s
  rw [h, hidem]

/-- Blind functions compose. -/
theorem Blind.comp (hf : Blind forget f) (hg : Blind forget g) :
    Blind forget fun s => g (f s) := by
  intro s
  show forget (g (f s)) = forget (g (f (forget s)))
  rw [hg (f s), hf s, ← hg (f (forget s))]

/-- A choice by a test that `forget` does not change is blind. -/
theorem Blind.ite {c : σ → Prop} [DecidablePred c] (hc : ∀ s, c (forget s) ↔ c s)
    (hf : Blind forget f) (hg : Blind forget g) :
    Blind forget fun s => if c s then f s else g s := by
  intro s
  show forget (if c s then f s else g s) = forget (if c (forget s) then f (forget s) else g (forget s))
  by_cases h : c s
  · rw [if_pos h, if_pos ((hc s).mpr h)]
    exact hf s
  · rw [if_neg h, if_neg (mt (hc s).mp h)]
    exact hg s

end Blind

end TransitionSystem
