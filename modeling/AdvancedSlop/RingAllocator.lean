/-
# A ring allocator

An allocator of spans of cells that goes round and round: it hands out the cells from `start` on,
up to `stop`, and makes room by freeing the oldest spans, at least a quarter of the cells unless
the end comes first.  A request that does not fit before the end gives the rest to the last span
and starts over.

* `Chained` : spans one behind the other;
* `free`, `Ring.makeRoom`, `Ring.record` : the operations;
* `Good` : the spans are those of the last round, in front of the room, and those of this one;
* `Fits` : the cells from the oldest span on suffice;
* `makeRoom_isSome_iff`, `makeRoom_spec` : room is made exactly when they do, and what it is.
-/
import Mathlib.Tactic

namespace RingAllocator

/-! ## Chains -/

/-- Spans one behind the other from `lo` on, the last one up to `hi`. -/
def Chained : ℕ → List (ℕ × ℕ) → ℕ → Prop
  | lo, [], hi => lo = hi
  | lo, span :: spans, hi => lo ≤ span.1 ∧ span.1 ≤ span.2 ∧ Chained span.2 spans hi

theorem Chained.le {spans : List (ℕ × ℕ)} {lo hi : ℕ} (h : Chained lo spans hi) : lo ≤ hi := by
  induction spans generalizing lo with
  | nil => exact le_of_eq h
  | cons span spans ih => exact h.1.trans (h.2.1.trans (ih h.2.2))

/-- Where a span of a chain lies. -/
theorem Chained.mem {spans : List (ℕ × ℕ)} {lo hi : ℕ} (h : Chained lo spans hi)
    {span : ℕ × ℕ} (hspan : span ∈ spans) : lo ≤ span.1 ∧ span.1 ≤ span.2 ∧ span.2 ≤ hi := by
  induction spans generalizing lo with
  | nil => cases hspan
  | cons first spans ih =>
      obtain ⟨hlo, hle, hrest⟩ := h
      rcases List.mem_cons.mp hspan with rfl | hmem
      · exact ⟨hlo, hle, hrest.le⟩
      · obtain ⟨h₁, h₂, h₃⟩ := ih hrest hmem
        exact ⟨(hlo.trans hle).trans h₁, h₂, h₃⟩

/-- The spans of a chain are in order. -/
theorem Chained.pairwise {spans : List (ℕ × ℕ)} {lo hi : ℕ} (h : Chained lo spans hi) :
    spans.Pairwise fun s t => s.2 ≤ t.1 := by
  induction spans generalizing lo with
  | nil => exact .nil
  | cons span spans ih => exact .cons (fun t ht => (h.2.2.mem ht).1) (ih h.2.2)

/-- One more span. -/
theorem Chained.concat {spans : List (ℕ × ℕ)} {lo hi a b : ℕ} (h : Chained lo spans hi)
    (ha : hi ≤ a) (hb : a ≤ b) : Chained lo (spans ++ [(a, b)]) b := by
  induction spans generalizing lo with
  | nil =>
      obtain rfl := h
      exact ⟨ha, hb, rfl⟩
  | cons span spans ih => exact ⟨h.1, h.2.1, ih h.2.2⟩

/-! ## The operations -/

/-- The last span up to the end. -/
def stretch (size : ℕ) : List (ℕ × ℕ) → Option (List (ℕ × ℕ))
  | [] => none
  | [span] => some [(span.1, size)]
  | span :: spans => (stretch size spans).map (span :: ·)

/-- Frees spans until `quarter` cells from `start` on are free, or a span is in front of it. -/
def free (quarter start : ℕ) : List (ℕ × ℕ) → ℕ → Option (List (ℕ × ℕ) × ℕ)
  | [], stop => if stop - start < quarter then none else some ([], stop)
  | span :: spans, stop =>
      if stop - start < quarter then
        if span.2 < start then some (span :: spans, stop) else free quarter start spans span.2
      else some (span :: spans, stop)

/-- The allocator: the number of cells, the room, and the spans from the oldest on. -/
structure Ring where
  size : ℕ
  start : ℕ
  stop : ℕ
  spans : List (ℕ × ℕ)

namespace Ring

/-- A quarter of the cells. -/
def quarter (r : Ring) : ℕ := r.size / 4

/-- Room from the oldest span on. -/
def reset (r : Ring) : Option Ring :=
  match r.spans with
  | [] => none
  | span :: spans =>
      (free r.quarter span.1 spans span.2).map fun freed =>
        { r with start := span.1, stop := freed.2, spans := freed.1 }

/-- Room for `n` cells. -/
def makeRoom (n : ℕ) (r : Ring) : Option Ring :=
  if r.stop < r.start + n then
    (if r.size < r.start + n then stretch r.size r.spans else some r.spans).bind fun spans =>
      (reset { r with spans := spans }).bind fun r =>
        if r.start + n ≤ r.stop then some r else none
  else some r

/-- The first `n` cells of the room, recorded. -/
def record (n : ℕ) (r : Ring) : Ring :=
  { r with start := r.start + n, spans := r.spans ++ [(r.start, r.start + n)] }

/-! ## What holds between two requests -/

/-- The spans are the old ones, from the room on to the end, and the new ones, in front of it. -/
def Laid (r : Ring) (old new : List (ℕ × ℕ)) : Prop :=
  r.spans = old ++ new ∧ r.start ≤ r.stop ∧ Chained r.stop old r.size ∧
    ∃ hi ≤ r.start, Chained 0 new hi

/-- The first of the new spans starts the ring and is no longer than a quarter of it.  Without new
spans there are no spans. -/
def Started (r : Ring) (old new : List (ℕ × ℕ)) : Prop :=
  (new = [] → old = [] ∧ r.start = 0) ∧
    ∀ span ∈ new.head?, span.1 = 0 ∧ span.2 ≤ r.quarter

/-- **The invariant.** -/
def Good (r : Ring) : Prop := ∃ old new, r.Laid old new ∧ r.Started old new

/-- The request fits into the room, or between the oldest span and the end. -/
def Fits (n : ℕ) (r : Ring) : Prop :=
  r.start + n ≤ r.stop ∨ ∀ span ∈ r.spans.head?, span.1 + n ≤ r.size

end Ring

/-! ## Freeing -/

/-- **What is freed** of old spans up to the end, with new spans behind them that do not run out. -/
theorem free_spec {quarter start stop size : ℕ} {old new : List (ℕ × ℕ)}
    (hold : Chained stop old size) (hstart : start ≤ stop)
    (hnew : start + quarter ≤ size ∨ ∃ span ∈ new.head?, span.2 < start) :
    ∃ rest stop', free quarter start (old ++ new) stop = some (rest ++ new, stop') ∧
      Chained stop' rest size ∧ stop ≤ stop' ∧ (start + quarter ≤ stop' ∨ stop' = size) := by
  induction old generalizing stop with
  | nil =>
      obtain rfl := hold
      refine ⟨[], stop, ?_, rfl, le_rfl, .inr rfl⟩
      rw [List.nil_append]
      cases new with
      | nil =>
          obtain hquarter | ⟨span, hspan, -⟩ := hnew
          · rw [free, if_neg (by omega)]
          · cases hspan
      | cons span spans =>
          rw [free]
          split_ifs with hshort hfront
          · rfl
          · obtain hquarter | ⟨head, hhead, hlt⟩ := hnew
            · omega
            · obtain rfl := Option.some.inj hhead
              exact absurd hlt hfront
          · rfl
  | cons span old ih =>
      obtain ⟨hlo, hle, hrest⟩ := hold
      rw [List.cons_append, free]
      split_ifs with hshort hfront
      · omega
      · obtain ⟨rest, stop', heq, hchained, hstop, hroom⟩ := ih hrest (by omega)
        exact ⟨rest, stop', heq, hchained, by omega, hroom⟩
      · exact ⟨span :: old, stop, rfl, ⟨hlo, hle, hrest⟩, le_rfl, .inl (by omega)⟩

/-- Room ends where a span does. -/
theorem free_stop_le {quarter start stop size : ℕ} {spans : List (ℕ × ℕ)}
    {freed : List (ℕ × ℕ) × ℕ} (h : free quarter start spans stop = some freed)
    (hstop : stop ≤ size) (hspans : ∀ span ∈ spans, span.2 ≤ size) : freed.2 ≤ size := by
  induction spans generalizing stop with
  | nil =>
      rw [free] at h
      split_ifs at h
      obtain rfl := Option.some.inj h
      exact hstop
  | cons span spans ih =>
      rw [free] at h
      rw [List.forall_mem_cons] at hspans
      split_ifs at h
      · obtain rfl := Option.some.inj h
        exact hstop
      · exact ih h hspans.1 hspans.2
      · obtain rfl := Option.some.inj h
        exact hstop

/-- A chain that is stretched ends at the end, and starts where it did. -/
theorem stretch_spec {size lo hi : ℕ} {spans : List (ℕ × ℕ)} (h : Chained lo spans hi)
    (hne : spans ≠ []) (hhi : hi ≤ size) :
    ∃ spans', stretch size spans = some spans' ∧ Chained lo spans' size ∧
      spans'.head?.map Prod.fst = spans.head?.map Prod.fst := by
  induction spans generalizing lo with
  | nil => exact absurd rfl hne
  | cons span spans ih =>
      obtain ⟨hlo, hle, hrest⟩ := h
      cases spans with
      | nil =>
          obtain rfl := hrest
          exact ⟨[(span.1, size)], rfl, ⟨hlo, hle.trans hhi, rfl⟩, rfl⟩
      | cons next spans =>
          obtain ⟨spans', heq, hchained, -⟩ := ih hrest (List.cons_ne_nil _ _)
          refine ⟨span :: spans', ?_, ⟨hlo, hle, hchained⟩, rfl⟩
          rw [stretch, heq, Option.map_some]
          intro hnil
          cases hnil

theorem stretch_head {size : ℕ} {spans spans' : List (ℕ × ℕ)}
    (h : stretch size spans = some spans') :
    spans'.head?.map Prod.fst = spans.head?.map Prod.fst ∧
      ∀ span ∈ spans', span ∈ spans ∨ span.2 = size := by
  induction spans generalizing spans' with
  | nil => cases h
  | cons span spans ih =>
      cases spans with
      | nil =>
          obtain rfl := Option.some.inj h
          refine ⟨rfl, fun t ht => .inr ?_⟩
          rw [List.mem_singleton.mp ht]
      | cons next spans =>
          rw [stretch] at h
          · obtain ⟨rest, hrest, rfl⟩ := Option.map_eq_some_iff.mp h
            refine ⟨rfl, fun t ht => ?_⟩
            rcases List.mem_cons.mp ht with rfl | hmem
            · exact .inl List.mem_cons_self
            · exact ((ih hrest).2 t hmem).imp_left (List.mem_cons_of_mem _)
          · intro hnil
            cases hnil

namespace Ring

variable {r r' : Ring} {n : ℕ} {old new : List (ℕ × ℕ)}

/-! ## Room -/

/-- Every span lies in the ring, and beside the room. -/
theorem Laid.beside (h : r.Laid old new) {span : ℕ × ℕ} (hspan : span ∈ r.spans) :
    span.1 ≤ span.2 ∧ span.2 ≤ r.size ∧ (r.stop ≤ span.1 ∨ span.2 ≤ r.start) := by
  obtain ⟨hspans, hle, hold, hi, hhi, hnew⟩ := h
  have hsize := hold.le
  rw [hspans] at hspan
  rcases List.mem_append.mp hspan with hmem | hmem
  · obtain ⟨hlo, hspan, hend⟩ := hold.mem hmem
    exact ⟨hspan, hend, .inl hlo⟩
  · obtain ⟨-, hspan, hend⟩ := hnew.mem hmem
    exact ⟨hspan, by omega, .inr (by omega)⟩

/-- Different spans do not overlap. -/
theorem Laid.pairwise (h : r.Laid old new) :
    r.spans.Pairwise fun s t => s.2 ≤ t.1 ∨ t.2 ≤ s.1 := by
  obtain ⟨hspans, hle, hold, hi, hhi, hnew⟩ := h
  rw [hspans, List.pairwise_append]
  refine ⟨hold.pairwise.imp .inl, hnew.pairwise.imp .inl, fun s hs t ht => .inr ?_⟩
  have hlo := (hold.mem hs).1
  have hend := (hnew.mem ht).2.2
  omega

/-- What is recorded is laid. -/
theorem Laid.record (h : r.Laid old new) (hn : r.start + n ≤ r.stop) :
    (r.record n).Laid old (new ++ [(r.start, r.start + n)]) := by
  obtain ⟨hspans, -, hold, hi, hhi, hnew⟩ := h
  refine ⟨?_, hn, hold, r.start + n, le_rfl, hnew.concat hhi (Nat.le_add_right _ _)⟩
  rw [Ring.record, hspans, List.append_assoc]

/-- **Room that was made** : it is large enough, and what is recorded in it is good. -/
structure Roomy (n : ℕ) (r r' : Ring) : Prop where
  size : r'.size = r.size
  enough : r'.start + n ≤ r'.stop
  laid : ∃ old new, r'.Laid old new
  good : (r'.record n).Good

/-- Recording behind new spans. -/
theorem Roomy.of_started (hsize : r'.size = r.size) (hlaid : r'.Laid old new)
    (hn : r'.start + n ≤ r'.stop) (hquarter : n ≤ r'.quarter)
    (hnil : new = [] → r'.start = 0)
    (hhead : ∀ span ∈ new.head?, span.1 = 0 ∧ span.2 ≤ r'.quarter) : Roomy n r r' := by
  refine ⟨hsize, hn, ⟨old, new, hlaid⟩, old, _, hlaid.record hn, fun hbad => ?_, ?_⟩
  · exact absurd hbad (List.append_ne_nil_of_right_ne_nil _ (List.cons_ne_nil _ _))
  · intro span hspan
    cases new with
    | nil =>
        obtain rfl := Option.some.inj hspan
        refine ⟨hnil rfl, ?_⟩
        show r'.start + n ≤ r'.quarter
        rw [hnil rfl, Nat.zero_add]
        exact hquarter
    | cons first new =>
        obtain rfl := Option.some.inj hspan
        exact hhead first rfl

/-- Room in front of the oldest of old spans. -/
theorem reset_spec {span : ℕ × ℕ} (hspans : r.spans = (span :: old) ++ new)
    (hold : Chained span.1 (span :: old) r.size) (hnew : ∃ hi ≤ span.1, Chained 0 new hi)
    (hfront : span.1 + r.quarter ≤ r.size ∨ ∃ first ∈ new.head?, first.2 < span.1) :
    ∃ r' rest, r.reset = some r' ∧ r'.Laid rest new ∧ r'.size = r.size ∧ r'.start = span.1 ∧
      (span.1 + r.quarter ≤ r'.stop ∨ r'.stop = r.size) := by
  obtain ⟨-, hle, hrest⟩ := hold
  obtain ⟨rest, stop, hfree, hchained, hstop, hroom⟩ := free_spec hrest hle hfront
  refine ⟨{ r with start := span.1, stop := stop, spans := rest ++ new }, rest, ?_,
    ⟨rfl, hle.trans hstop, hchained, hnew⟩, rfl, rfl, hroom⟩
  rw [reset, hspans, List.cons_append]
  show (free r.quarter span.1 (old ++ new) span.2).map _ = _
  rw [hfree, Option.map_some]

/-- **Room is made** for what fits. -/
theorem makeRoom_spec (hr : r.Good) (hn : n ≤ r.quarter) (hfits : r.Fits n) :
    ∃ r', r.makeRoom n = some r' ∧ Roomy n r r' := by
  obtain ⟨old, new, hlaid, hnil, hhead⟩ := hr
  have hlaid' := hlaid
  obtain ⟨hspans, hle, hold, hi, hhi, hnew⟩ := hlaid
  have hquarter : r.quarter = r.size / 4 := rfl
  have hsize := hold.le
  rw [makeRoom]
  by_cases hroom : r.stop < r.start + n
  · rw [if_pos hroom]
    cases old with
    | nil =>
        -- The room ended where the ring does: the spans are stretched, and the first is freed.
        obtain hstop : r.stop = r.size := hold
        have hne : new ≠ [] := by
          rintro rfl
          have := (hnil rfl).2
          omega
        have hend : hi ≤ r.size := by omega
        obtain ⟨spans', hstretch, hchained, hfirst⟩ := stretch_spec hnew hne hend
        rw [if_pos (by omega), hspans, List.nil_append, hstretch, Option.bind_some]
        obtain ⟨span, rest, rfl⟩ := List.exists_cons_of_ne_nil (l := spans') (by
          rintro rfl
          have hbad := hchained
          obtain hzero : 0 = r.size := hbad
          omega)
        have hspan : span.1 = 0 := by
          obtain ⟨first, new, rfl⟩ := List.exists_cons_of_ne_nil hne
          have heq : span.1 = first.1 := Option.some.inj hfirst
          rw [heq, (hhead first rfl).1]
        have hspans : span :: rest = span :: rest ++ [] := (List.append_nil _).symm
        obtain ⟨r', old', hreset, hl, hs, hst, hsp⟩ := reset_spec (r := { r with spans := span :: rest })
          hspans (hspan ▸ hchained) ⟨0, Nat.zero_le _, rfl⟩
          (.inl (by show span.1 + r.size / 4 ≤ r.size; omega))
        have henough : r'.start + n ≤ r'.stop := by
          change span.1 + r.size / 4 ≤ r'.stop ∨ r'.stop = r.size at hsp
          omega
        refine ⟨r', ?_, .of_started hs hl henough ?_ (fun _ => hst.trans hspan) ?_⟩
        · rw [hreset, Option.bind_some, if_pos henough]
        · rwa [Ring.quarter, hs]
        · exact fun _ hbad => by cases hbad
    | cons span old =>
        -- The oldest span is behind the room, and the request fits from there.
        have hstart : r.stop ≤ span.1 := hold.1
        have hfit : span.1 + n ≤ r.size := by
          obtain h | h := hfits
          · omega
          · exact h span (by rw [hspans]; rfl)
        rw [if_neg (by omega), Option.bind_some]
        have hne : new ≠ [] := by
          rintro rfl
          cases (hnil rfl).1
        obtain ⟨first, tail, rfl⟩ := List.exists_cons_of_ne_nil hne
        obtain ⟨-, hfirst⟩ := hhead first rfl
        have hfront : span.1 + r.quarter ≤ r.size ∨
            ∃ head ∈ (first :: tail).head?, head.2 < span.1 := by
          by_cases h : span.1 + r.quarter ≤ r.size
          · exact .inl h
          · exact .inr ⟨first, rfl, by omega⟩
        obtain ⟨r', old', hreset, hl, hs, hst, hsp⟩ := reset_spec hspans
          ⟨le_rfl, hold.2⟩ ⟨hi, by omega, hnew⟩ hfront
        have henough : r'.start + n ≤ r'.stop := by omega
        refine ⟨r', ?_, .of_started hs hl henough ?_ (fun hbad => absurd hbad hne) ?_⟩
        · rw [hreset, Option.bind_some, if_pos henough]
        · rwa [Ring.quarter, hs]
        · rw [Ring.quarter, hs]
          exact hhead
  · rw [if_neg hroom]
    exact ⟨r, rfl, .of_started rfl hlaid' (by omega) hn (fun h => (hnil h).2) hhead⟩

/-- Where room ends after a reset. -/
theorem reset_bounds (h : r.reset = some r') (hspans : ∀ span ∈ r.spans, span.2 ≤ r.size) :
    (∀ span ∈ r.spans.head?, r'.start = span.1) ∧ r'.stop ≤ r.size := by
  rw [reset] at h
  cases hs : r.spans with
  | nil =>
      rw [hs] at h
      cases h
  | cons span spans =>
      rw [hs] at h hspans
      rw [List.forall_mem_cons] at hspans
      obtain ⟨freed, hfree, rfl⟩ := Option.map_eq_some_iff.mp h
      refine ⟨fun first hfirst => ?_, free_stop_le hfree hspans.1 hspans.2⟩
      obtain rfl := Option.some.inj hfirst
      rfl

/-- Room is made for nothing else. -/
theorem fits_of_makeRoom (hr : r.Good) (h : r.makeRoom n = some r') : r.Fits n := by
  obtain ⟨old, new, hlaid, -⟩ := hr
  rw [makeRoom] at h
  by_cases hroom : r.stop < r.start + n
  · rw [if_pos hroom] at h
    obtain ⟨spans', hspans', h⟩ := Option.bind_eq_some_iff.mp h
    obtain ⟨u, hreset, h⟩ := Option.bind_eq_some_iff.mp h
    -- stretched or not, the spans start where they did and lie in the ring
    have hsame : spans'.head?.map Prod.fst = r.spans.head?.map Prod.fst ∧
        ∀ span ∈ spans', span.2 ≤ r.size := by
      split_ifs at hspans'
      · obtain ⟨hhead, hmem⟩ := stretch_head hspans'
        refine ⟨hhead, fun span hspan => ?_⟩
        obtain hold | hend := hmem span hspan
        · exact (hlaid.beside hold).2.1
        · exact hend.le
      · obtain rfl := Option.some.inj hspans'
        exact ⟨rfl, fun span hspan => (hlaid.beside hspan).2.1⟩
    obtain ⟨hstart, hstop⟩ := reset_bounds hreset hsame.2
    refine .inr fun span hspan => ?_
    split_ifs at h with hfits
    rw [hspan] at hsame
    obtain ⟨first, hfirst, heq⟩ := Option.map_eq_some_iff.mp hsame.1
    rw [← heq, ← hstart first hfirst]
    exact hfits.trans hstop
  · exact .inl (Nat.not_lt.mp hroom)

/-- **Room is made exactly for what fits.** -/
theorem makeRoom_isSome_iff (hr : r.Good) (hn : n ≤ r.quarter) :
    (r.makeRoom n).isSome ↔ r.Fits n := by
  rw [Option.isSome_iff_exists]
  constructor
  · rintro ⟨r', h⟩
    exact fits_of_makeRoom hr h
  · intro hfits
    obtain ⟨r', h, -⟩ := makeRoom_spec hr hn hfits
    exact ⟨r', h⟩

/-- What room is made is as it should be. -/
theorem roomy_of_makeRoom (hr : r.Good) (hn : n ≤ r.quarter) (h : r.makeRoom n = some r') :
    Roomy n r r' := by
  obtain ⟨u, hu, hroomy⟩ := makeRoom_spec hr hn (fits_of_makeRoom hr h)
  obtain rfl := Option.some.inj (hu.symm.trans h)
  exact hroomy

end Ring

end RingAllocator
