/-
# The allocator's invariant

`RegAlloc` from `new` through a reservation and any allocations.

* `Consistent`, `Valid` : the maps are inverse, the free registers are the unmapped ones, and thumb
  mode keeps the halves apart;
* `Evolves` : what serving an instruction does to the registers it does not name;
* `reg_alloc_law` : every instruction is served, and evicts none of its own registers.
-/
import AdvancedSlop.RegAlloc

namespace AdvancedSlop

namespace RegAlloc

/-! ## The invariant -/

/-- The two maps are inverse of each other, and nothing is kept in r2. -/
structure Consistent (a : RegAlloc) : Prop where
  inverse : ∀ g i, a.guestRegsMapping g = some (.pool i) ↔ a.hostRegsMapping i = some g
  scratch : ∀ g, a.guestRegsMapping g ≠ some .r2

/-- The invariant of allocation. -/
structure Valid (a : RegAlloc) : Prop extends Consistent a where
  free : ∀ i, a.freeRegs i = true ↔ a.hostRegsMapping i = none
  halves : a.thumb = true → ∀ g i, a.guestRegsMapping g = some (.pool i) → poolLow i = guestLow g

theorem Consistent.eq_of_mapped {a : RegAlloc} (h : a.Consistent) {g g' : GuestReg} {i : PoolReg}
    (hg : a.guestRegsMapping g = some (.pool i)) (hg' : a.guestRegsMapping g' = some (.pool i)) :
    g = g' := by
  rw [h.inverse] at hg hg'
  exact Option.some.inj (hg.symm.trans hg')

/-- What is mapped is mapped into the pool. -/
theorem Consistent.exists_pool {a : RegAlloc} (h : a.Consistent) {g : GuestReg}
    (hg : a.guestRegsMapping g ≠ none) : ∃ i, a.guestRegsMapping g = some (.pool i) := by
  obtain ⟨host, hhost⟩ := Option.ne_none_iff_exists'.mp hg
  cases host with
  | r2 => exact absurd hhost (h.scratch g)
  | pool i => exact ⟨i, hhost⟩

theorem new_valid (thumb : Bool) : (new thumb).Valid where
  inverse := by simp [new]
  scratch := by simp [new]
  free := by simp [new]
  halves := by simp [new]

@[simp] theorem setGuestRegMapping_thumb (a : RegAlloc) (g : GuestReg) (mapped : Option HostReg) :
    (a.setGuestRegMapping g mapped).thumb = a.thumb := rfl

@[simp] theorem setGuestRegMapping_freeRegs (a : RegAlloc) (g : GuestReg) (mapped : Option HostReg) :
    (a.setGuestRegMapping g mapped).freeRegs = a.freeRegs := rfl

@[simp] theorem setGuestRegMapping_guest (a : RegAlloc) (g : GuestReg) (mapped : Option HostReg) :
    (a.setGuestRegMapping g mapped).guestRegsMapping =
      Function.update a.guestRegsMapping g mapped := rfl

@[simp] theorem setGuestRegMapping_some_host (a : RegAlloc) (g : GuestReg) (i : PoolReg) :
    (a.setGuestRegMapping g (some (.pool i))).hostRegsMapping =
      Function.update a.hostRegsMapping i (some g) := by
  simp [setGuestRegMapping]

theorem setGuestRegMapping_none_host {a : RegAlloc} {g : GuestReg} {i : PoolReg}
    (h : a.guestRegsMapping g = some (.pool i)) :
    (a.setGuestRegMapping g none).hostRegsMapping = Function.update a.hostRegsMapping i none := by
  simp [setGuestRegMapping, h]

/-- A host register that holds nothing is given to a guest register that has none. -/
theorem Consistent.assign {a : RegAlloc} (h : a.Consistent) {g : GuestReg} {i : PoolReg}
    (hg : a.guestRegsMapping g = none) (hi : a.hostRegsMapping i = none) :
    (a.setGuestRegMapping g (some (.pool i))).Consistent where
  inverse := by
    intro g' i'
    simp only [setGuestRegMapping_guest, setGuestRegMapping_some_host]
    by_cases hgg : g' = g <;> by_cases hii : i' = i
    · simp [hgg, hii]
    · have hne : a.hostRegsMapping i' ≠ some g := by
        intro hhost
        rw [← h.inverse, hg] at hhost
        cases hhost
      simp [hgg, hii, hne, Ne.symm hii]
    · have hne : a.guestRegsMapping g' ≠ some (.pool i) := by
        intro hguest
        rw [h.inverse, hi] at hguest
        cases hguest
      simp [hgg, hii, hne, Ne.symm hgg]
    · simp [hgg, hii, h.inverse]
  scratch := by
    intro g'
    by_cases hgg : g' = g
    · simp [hgg]
    · simpa [hgg] using h.scratch g'

/-- A guest register loses its host register. -/
theorem Consistent.release {a : RegAlloc} (h : a.Consistent) {g : GuestReg} {i : PoolReg}
    (hg : a.guestRegsMapping g = some (.pool i)) : (a.setGuestRegMapping g none).Consistent where
  inverse := by
    intro g' i'
    rw [setGuestRegMapping_none_host hg]
    simp only [setGuestRegMapping_guest]
    by_cases hgg : g' = g <;> by_cases hii : i' = i
    · simp [hgg, hii]
    · have hne : a.hostRegsMapping i' ≠ some g := by
        intro hhost
        rw [← h.inverse, hg] at hhost
        exact hii (by simpa using hhost.symm)
      simp [hgg, hii, hne]
    · have hne : a.guestRegsMapping g' ≠ some (.pool i) := fun hguest =>
        hgg (h.eq_of_mapped hguest hg)
      simp [hgg, hii, hne]
    · simp [hgg, hii, h.inverse]
  scratch := by
    intro g'
    by_cases hgg : g' = g
    · simp [hgg]
    · simpa [hgg] using h.scratch g'

/-- A host register that is free is taken. -/
theorem Valid.take {a : RegAlloc} (h : a.Valid) {g : GuestReg} {i : PoolReg}
    (hg : a.guestRegsMapping g = none) (hfree : a.freeRegs i = true)
    (hhalf : a.sameHalf (poolLow i) (guestLow g) = true) :
    RegAlloc.Valid { a.setGuestRegMapping g (some (.pool i)) with
      freeRegs := Function.update a.freeRegs i false } := by
  have hcons := h.toConsistent.assign hg ((h.free i).mp hfree)
  refine ⟨⟨hcons.inverse, hcons.scratch⟩, ?_, ?_⟩
  · intro i'
    simp only [setGuestRegMapping_some_host]
    by_cases hii : i' = i
    · simp [hii]
    · simpa [hii] using h.free i'
  · intro hthumb g' i' hmapped
    have hthumb : a.thumb = true := hthumb
    simp only [setGuestRegMapping_guest] at hmapped
    by_cases hgg : g' = g
    · obtain rfl : i = i' := by simpa [hgg] using hmapped
      simpa [sameHalf, hthumb, hgg] using hhalf
    · exact h.halves hthumb g' i' (by simpa [hgg] using hmapped)

/-- The host register of another guest register is taken. -/
theorem Valid.replace {a : RegAlloc} (h : a.Valid) {g r : GuestReg} {i : PoolReg}
    (hg : a.guestRegsMapping g = none) (hr : a.guestRegsMapping r = some (.pool i))
    (hhalf : a.sameHalf (guestLow r) (guestLow g) = true) :
    ((a.setGuestRegMapping r none).setGuestRegMapping g (some (.pool i))).Valid := by
  have hgr : g ≠ r := by
    rintro rfl
    rw [hg] at hr
    cases hr
  have hcons := (h.toConsistent.release hr).assign (g := g) (i := i) (by simp [hgr, hg])
    (by simp [setGuestRegMapping_none_host hr])
  refine ⟨hcons, ?_, ?_⟩
  · intro i'
    rw [setGuestRegMapping_some_host, setGuestRegMapping_none_host hr]
    by_cases hii : i' = i
    · have hhost := (h.inverse r i).mp hr
      have hfree : a.freeRegs i = false := by
        rw [← Bool.not_eq_true, h.free, hhost]
        simp
      simp [hii, hfree]
    · simpa [hii] using h.free i'
  · intro hthumb g' i' hmapped
    have hthumb : a.thumb = true := hthumb
    simp only [setGuestRegMapping_guest] at hmapped
    by_cases hgg : g' = g
    · obtain rfl : i = i' := by simpa [hgg] using hmapped
      have hlow := h.halves hthumb r i hr
      rw [hlow, hgg]
      simpa [sameHalf, hthumb] using hhalf
    · rw [Function.update_of_ne hgg] at hmapped
      by_cases hgr' : g' = r
      · simp [hgr'] at hmapped
      · exact h.halves hthumb g' i' (by simpa [hgr'] using hmapped)

/-! ## Room for an operand -/

/-- The guest registers of a set that may live where `g` may. -/
def rivals (a : RegAlloc) (used : GuestSet) (g : GuestReg) : Finset GuestReg :=
  Finset.univ.filter fun r => used r && a.sameHalf (guestLow r) (guestLow g)

/-- The host registers `g` may live in. -/
def places (a : RegAlloc) (g : GuestReg) : Finset PoolReg :=
  Finset.univ.filter fun i => a.sameHalf (poolLow i) (guestLow g)

/-- **There is room**: where no host register is free and all that could be evicted is used, the
used registers are too many. -/
theorem Valid.exists_evictable {a : RegAlloc} (h : a.Valid) {g : GuestReg} {used : GuestSet}
    (hg : a.guestRegsMapping g = none) (hused : used g = true)
    (hroom : (a.rivals used g).card ≤ (a.places g).card)
    (hfull : ∀ i, a.sameHalf (poolLow i) (guestLow g) = true → a.freeRegs i = false) :
    ∃ r i, a.guestRegsMapping r = some (.pool i) ∧ used r = false ∧
      a.sameHalf (guestLow r) (guestLow g) = true := by
  by_contra hnone
  push Not at hnone
  -- every place is held by a used register of that half
  have hheld : ∀ i ∈ a.places g, ∃ r, a.hostRegsMapping i = some r ∧ r ∈ (a.rivals used g).erase g := by
    intro i hi
    have hhalf : a.sameHalf (poolLow i) (guestLow g) = true := (Finset.mem_filter.mp hi).2
    have hne : a.hostRegsMapping i ≠ none := by
      rw [ne_eq, ← h.free, hfull i hhalf]
      simp
    obtain ⟨r, hr⟩ := Option.ne_none_iff_exists'.mp hne
    have hmapped := (h.inverse r i).mpr hr
    have hrhalf : a.sameHalf (guestLow r) (guestLow g) = true := by
      cases hthumb : a.thumb with
      | false => simp [sameHalf, hthumb]
      | true => rw [← h.halves hthumb r i hmapped]; exact hhalf
    have hrused : used r = true := by
      by_contra hnot
      exact hnone r i hmapped (by simpa using hnot) hrhalf
    refine ⟨r, hr, Finset.mem_erase.mpr ⟨?_, ?_⟩⟩
    · rintro rfl
      rw [hg] at hmapped
      cases hmapped
    · simp [rivals, hrused, hrhalf]
  have hcard : (a.places g).card ≤ ((a.rivals used g).erase g).card := by
    refine Finset.card_le_card_of_injOn (fun i => (a.hostRegsMapping i).getD g) ?_ ?_
    · intro i hi
      obtain ⟨r, hr, hmem⟩ := hheld i hi
      simpa [hr, and_comm] using hmem
    · intro i hi i' hi' heq
      obtain ⟨r, hr, -⟩ := hheld i hi
      obtain ⟨r', hr', -⟩ := hheld i' hi'
      obtain rfl : r = r' := by simpa [hr, hr'] using heq
      have := ((h.inverse r i).mpr hr).symm.trans ((h.inverse r i').mpr hr')
      simpa using this
  have hmem : g ∈ a.rivals used g := by simp [rivals, hused, sameHalf]
  have hlt := Finset.card_erase_lt_of_mem hmem
  omega

end RegAlloc

/-- At most 8 registers, in thumb mode at most 4 of each half. -/
def AllocRequest.Fits (thumb : Bool) (req : AllocRequest) : Prop :=
  (Finset.univ.filter fun g => req.usedRegs g = true).card ≤ 8 ∧
    (thumb = true → ∀ low : Bool,
      (Finset.univ.filter fun g => req.usedRegs g = true ∧ guestLow g = low).card ≤ 4)

instance (thumb : Bool) (req : AllocRequest) : Decidable (req.Fits thumb) := by
  unfold AllocRequest.Fits
  infer_instance

namespace RegAlloc

theorem fits_room {a : RegAlloc} {req : AllocRequest} (hfit : req.Fits a.thumb)
    (g : GuestReg) : (a.rivals req.usedRegs g).card ≤ (a.places g).card := by
  cases hthumb : a.thumb with
  | false =>
      have hplaces : (a.places g).card = 8 := by simp [places, sameHalf, hthumb]
      have hrivals : a.rivals req.usedRegs g = Finset.univ.filter fun r => req.usedRegs r = true := by
        simp [rivals, sameHalf, hthumb]
      rw [hplaces, hrivals]
      exact hfit.1
  | true =>
      have hplaces : (a.places g).card = 4 := by
        simp only [places, sameHalf, hthumb, Bool.not_true, Bool.false_or, beq_iff_eq]
        cases guestLow g <;> decide
      have hrivals : a.rivals req.usedRegs g =
          Finset.univ.filter fun r => req.usedRegs r = true ∧ guestLow r = guestLow g := by
        ext r
        simp [rivals, sameHalf, hthumb]
      rw [hplaces, hrivals]
      exact hfit.2 hthumb (guestLow g)

/-! ## What an allocation leaves alone -/

/-- The register is stored to its slot before its host register is written. -/
def StoredFirst (code : List HostInst) (i : PoolReg) (r : GuestReg) : Prop :=
  ∃ before after, code = before ++ .str (.pool i) r :: after ∧
    ∀ inst ∈ before, inst.dest ≠ some (.pool i)

/-- Some registers were given host registers, for an instruction that uses `used`. -/
structure Evolves (used dirty : GuestSet) (a a' : RegAlloc) (code : List HostInst)
    (evicted : List GuestReg) : Prop where
  valid : a'.Valid
  thumb : a'.thumb = a.thumb
  kept : ∀ g h, used g = true → a.guestRegsMapping g = some h → a'.guestRegsMapping g = some h
  fresh : ∀ r, used r = false →
    a'.guestRegsMapping r = a.guestRegsMapping r ∨ r ∈ evicted ∧ a'.guestRegsMapping r = none
  written : ∀ inst ∈ code, ∀ h, inst.dest = some h →
    ∃ g, used g = true ∧ a'.guestRegsMapping g = some h
  stored : ∀ r ∈ evicted, used r = false ∧
    ∃ i, a.guestRegsMapping r = some (.pool i) ∧ (dirty r = true → StoredFirst code i r)

theorem Evolves.refl {a : RegAlloc} (h : a.Valid) (used dirty : GuestSet) :
    Evolves used dirty a a [] [] where
  valid := h
  thumb := rfl
  kept _ _ _ hg := hg
  fresh _ _ := .inl rfl
  written := by simp
  stored := by simp

theorem StoredFirst.append_right {code : List HostInst} {i : PoolReg} {r : GuestReg}
    (h : StoredFirst code i r) (code' : List HostInst) : StoredFirst (code ++ code') i r := by
  obtain ⟨before, after, rfl, hbefore⟩ := h
  exact ⟨before, after ++ code', by simp, hbefore⟩

theorem StoredFirst.append_left {code : List HostInst} {i : PoolReg} {r : GuestReg}
    (h : StoredFirst code i r) {code' : List HostInst}
    (hcode : ∀ inst ∈ code', inst.dest ≠ some (.pool i)) : StoredFirst (code' ++ code) i r := by
  obtain ⟨before, after, rfl, hbefore⟩ := h
  refine ⟨code' ++ before, after, by simp, fun inst hinst => ?_⟩
  rcases List.mem_append.mp hinst with hinst | hinst
  · exact hcode inst hinst
  · exact hbefore inst hinst

/-- **One operand after the other**: what the first ones were given is not written for later
evictions, as those are of registers the instruction does not use. -/
theorem Evolves.trans {used dirty : GuestSet} {a a' a'' : RegAlloc} {code code' : List HostInst}
    {evicted evicted' : List GuestReg} (h : Evolves used dirty a a' code evicted)
    (h' : Evolves used dirty a' a'' code' evicted') :
    Evolves used dirty a a'' (code ++ code') (evicted ++ evicted') where
  valid := h'.valid
  thumb := h'.thumb.trans h.thumb
  kept g host hg hmapped := h'.kept g host hg (h.kept g host hg hmapped)
  fresh r hr := by
    rcases h'.fresh r hr with heq | ⟨hmem, hnone⟩
    · rw [heq]
      exact (h.fresh r hr).imp_right fun hev => ⟨List.mem_append_left _ hev.1, hev.2⟩
    · exact .inr ⟨List.mem_append_right _ hmem, hnone⟩
  written inst hinst host hhost := by
    rcases List.mem_append.mp hinst with hinst | hinst
    · obtain ⟨g, hg, hmapped⟩ := h.written inst hinst host hhost
      exact ⟨g, hg, h'.kept g host hg hmapped⟩
    · exact h'.written inst hinst host hhost
  stored r hr := by
    rcases List.mem_append.mp hr with hr | hr
    · obtain ⟨hused, i, hmapped, hstored⟩ := h.stored r hr
      exact ⟨hused, i, hmapped, fun hdirty => (hstored hdirty).append_right code'⟩
    · obtain ⟨hused, i, hmapped, hstored⟩ := h'.stored r hr
      refine ⟨hused, i, ?_, fun hdirty => (hstored hdirty).append_left fun inst hinst hdest => ?_⟩
      · rcases h.fresh r hused with heq | ⟨-, hnone⟩
        · rw [← heq]
          exact hmapped
        · rw [hnone] at hmapped
          cases hmapped
      · obtain ⟨g, hg, hheld⟩ := h.written inst hinst _ hdest
        obtain rfl := h.valid.toConsistent.eq_of_mapped hmapped hheld
        rw [hused] at hg
        cases hg

/-- The code of an operand writes the host register it is given. -/
theorem restoreGuestReg_dest {isInput : Bool} {g : GuestReg} {host host' : HostReg}
    {inst : HostInst} (h : inst ∈ restoreGuestReg isInput g host) (hdest : inst.dest = some host') :
    host' = host := by
  unfold restoreGuestReg at h
  split at h
  · obtain rfl := List.mem_singleton.mp h
    exact (Option.some.inj hdest).symm
  · cases h

/-- A free register is taken. -/
theorem allocFreeGuestReg_evolves {a a' : RegAlloc} {g : GuestReg} {isInput : Bool}
    {used dirty : GuestSet} {code : List HostInst} (h : a.Valid) (hg : a.guestRegsMapping g = none)
    (hused : used g = true) (halloc : a.allocFreeGuestReg g isInput = some (a', code)) :
    Evolves used dirty a a' code [] ∧ a'.guestRegsMapping g ≠ none := by
  obtain ⟨i, hfind, heq⟩ := Option.map_eq_some_iff.mp halloc
  obtain ⟨rfl, rfl⟩ := Prod.mk.inj heq
  have hfound := List.find?_some hfind
  obtain ⟨hfree, hhalf⟩ := Bool.and_eq_true_iff.mp hfound
  refine ⟨⟨h.take hg hfree hhalf, rfl, ?_, ?_, ?_, by simp⟩, by simp⟩
  · intro g' host _ hmapped
    have hne : g' ≠ g := by
      rintro rfl
      rw [hg] at hmapped
      cases hmapped
    simpa [hne] using hmapped
  · intro r hr
    have hne : r ≠ g := by
      rintro rfl
      rw [hused] at hr
      cases hr
    simp [hne]
  · intro inst hinst host hdest
    exact ⟨g, hused, by simp [restoreGuestReg_dest hinst hdest]⟩

/-- The host register of a register the instruction does not use is taken. -/
theorem evict_evolves {a : RegAlloc} {g r : GuestReg} {i : PoolReg} {isInput : Bool}
    {used dirty : GuestSet} (h : a.Valid) (hg : a.guestRegsMapping g = none)
    (hused : used g = true) (hr : a.guestRegsMapping r = some (.pool i)) (hunused : used r = false)
    (hhalf : a.sameHalf (guestLow r) (guestLow g) = true) :
    Evolves used dirty a (a.evict g isInput dirty (r, .pool i)).1
        (a.evict g isInput dirty (r, .pool i)).2.1 (a.evict g isInput dirty (r, .pool i)).2.2 ∧
      (a.evict g isInput dirty (r, .pool i)).1.guestRegsMapping g ≠ none := by
  have hgr : r ≠ g := by
    rintro rfl
    rw [hg] at hr
    cases hr
  refine ⟨⟨h.replace hg hr hhalf, rfl, ?_, ?_, ?_, ?_⟩, by simp [evict]⟩
  · intro g' host hg' hmapped
    have hne : g' ≠ g := by
      rintro rfl
      rw [hg] at hmapped
      cases hmapped
    have hne' : g' ≠ r := by
      rintro rfl
      rw [hunused] at hg'
      cases hg'
    simpa [evict, hne, hne'] using hmapped
  · intro r' hr'
    have hne : r' ≠ g := by
      rintro rfl
      rw [hused] at hr'
      cases hr'
    by_cases hrr : r' = r
    · exact .inr (by simp [evict, hrr, hgr])
    · exact .inl (by simp [evict, hne, hrr])
  · intro inst hinst host hdest
    refine ⟨g, hused, ?_⟩
    simp only [evict, List.mem_append] at hinst
    rcases hinst with hinst | hinst
    · split at hinst
      · obtain rfl := List.mem_singleton.mp hinst
        cases hdest
      · cases hinst
    · simp [evict, restoreGuestReg_dest hinst hdest]
  · intro r' hr'
    obtain rfl := List.mem_singleton.mp hr'
    refine ⟨hunused, i, hr, fun hdirty => ⟨[], restoreGuestReg isInput g (.pool i), ?_, by simp⟩⟩
    simp [evict, hdirty]

/-- What a search for a register to evict finds. -/
theorem findEvicted_some {a : RegAlloc} {g r : GuestReg} {host : HostReg} {kept : GuestSet}
    (h : a.findEvicted g kept = some (r, host)) :
    a.guestRegsMapping r = some host ∧ kept r = false ∧
      a.sameHalf (guestLow r) (guestLow g) = true := by
  obtain ⟨r', -, hr'⟩ := List.exists_of_findSome?_eq_some h
  split at hr'
  · rename_i host' hmapped
    obtain ⟨hcond, heq⟩ := Option.ite_none_right_eq_some.mp hr'
    obtain ⟨rfl, rfl⟩ := Prod.mk.inj (Option.some.inj heq)
    simp only [Bool.and_eq_true, Bool.not_eq_true'] at hcond
    exact ⟨hmapped, hcond.1, hcond.2⟩
  · cases hr'

/-- The search finds what there is to find. -/
theorem findEvicted_ne_none {a : RegAlloc} {g r : GuestReg} {host : HostReg} {kept : GuestSet}
    (hr : a.guestRegsMapping r = some host) (hkept : kept r = false)
    (hhalf : a.sameHalf (guestLow r) (guestLow g) = true) : a.findEvicted g kept ≠ none := by
  intro hnone
  have := List.findSome?_eq_none_iff.mp hnone r (List.mem_finRange r)
  simp [hr, hkept, hhalf] at this

/-- **An operand is given a register**: a free one, or that of a register the instruction does not
use. -/
theorem allocGuestReg_evolves {a : RegAlloc} {g : GuestReg} {isInput : Bool}
    {used nextLive dirty : GuestSet} (h : a.Valid) (hg : a.guestRegsMapping g = none)
    (hused : used g = true) (hroom : (a.rivals used g).card ≤ (a.places g).card) :
    ∃ a' code evicted, a.allocGuestReg g isInput used nextLive dirty = some (a', code, evicted) ∧
      Evolves used dirty a a' code evicted ∧ a'.guestRegsMapping g ≠ none := by
  unfold allocGuestReg
  cases hfree : a.allocFreeGuestReg g isInput with
  | some r =>
      obtain ⟨a', code⟩ := r
      exact ⟨a', code, [], rfl, allocFreeGuestReg_evolves h hg hused hfree⟩
  | none =>
      have hfull : ∀ i, a.sameHalf (poolLow i) (guestLow g) = true → a.freeRegs i = false := by
        intro i hhalf
        have := List.find?_eq_none.mp (Option.map_eq_none_iff.mp hfree) i (List.mem_finRange i)
        simpa [hhalf] using this
      obtain ⟨r, i, hr, hunused, hhalf⟩ := h.exists_evictable hg hused hroom hfull
      -- whichever search it is, it finds a register that is not used
      have hsearch : ∃ r i, (a.findEvicted g fun r => nextLive r || used r).or
          (a.findEvicted g used) = some (r, .pool i) ∧ a.guestRegsMapping r = some (.pool i) ∧
            used r = false ∧ a.sameHalf (guestLow r) (guestLow g) = true := by
        have hne : (a.findEvicted g fun r => nextLive r || used r).or (a.findEvicted g used) ≠
            none := by
          rw [ne_eq, Option.or_eq_none_iff]
          exact fun hboth => findEvicted_ne_none hr hunused hhalf hboth.2
        obtain ⟨⟨r', host⟩, hfound⟩ := Option.ne_none_iff_exists'.mp hne
        have hspec : a.guestRegsMapping r' = some host ∧ used r' = false ∧
            a.sameHalf (guestLow r') (guestLow g) = true := by
          rcases Option.or_eq_some_iff.mp hfound with hfirst | ⟨-, hsecond⟩
          · obtain ⟨hmapped, hkept, hhalf'⟩ := findEvicted_some hfirst
            exact ⟨hmapped, (Bool.or_eq_false_iff.mp hkept).2, hhalf'⟩
          · exact findEvicted_some hsecond
        cases host with
        | r2 => exact absurd hspec.1 (h.scratch r')
        | pool i' => exact ⟨r', i', hfound, hspec⟩
      obtain ⟨r', i', hfound, hr', hunused', hhalf'⟩ := hsearch
      exact ⟨_, _, _, by rw [hfound]; rfl, evict_evolves h hg hused hr' hunused' hhalf'⟩

/-! ## A loop over operands -/

/-- **The loop step**: operands that are used are given registers one after the other. -/
theorem allocLoop_evolves (isInput : Bool) {req : AllocRequest} :
    ∀ (gs : List GuestReg) {a : RegAlloc}, a.Valid → req.Fits a.thumb →
      (∀ g ∈ gs, req.usedRegs g = true) →
      ∃ a' code evicted,
        allocLoop isInput req.usedRegs req.nextLiveRegs req.dirtyGuestRegs gs a =
            some (a', code, evicted) ∧
          Evolves req.usedRegs req.dirtyGuestRegs a a' code evicted ∧
          ∀ g ∈ gs, a'.guestRegsMapping g ≠ none := by
  intro gs
  induction gs with
  | nil =>
      intro a h _ _
      exact ⟨a, [], [], rfl, .refl h _ _, by simp⟩
  | cons g gs ih =>
      intro a h hfit hused
      have hused' : ∀ g ∈ gs, req.usedRegs g = true := fun g' hg' =>
        hused g' (List.mem_cons_of_mem g hg')
      have hg := hused g List.mem_cons_self
      rw [allocLoop]
      by_cases hmapped : a.guestRegsMapping g = none
      · rw [if_pos hmapped]
        obtain ⟨a₁, code₁, evicted₁, halloc, hev, hg₁⟩ :=
          @allocGuestReg_evolves _ g isInput req.usedRegs req.nextLiveRegs req.dirtyGuestRegs
            h hmapped hg (fits_room hfit g)
        obtain ⟨a₂, code₂, evicted₂, hloop, hev₂, hgs⟩ :=
          ih hev.valid (by rw [hev.thumb]; exact hfit) hused'
        refine ⟨a₂, code₁ ++ code₂, evicted₁ ++ evicted₂, ?_, hev.trans hev₂, ?_⟩
        · simp [halloc, hloop]
        · intro g' hg'
          rcases List.mem_cons.mp hg' with rfl | hg'
          · obtain ⟨host, hhost⟩ := Option.ne_none_iff_exists'.mp hg₁
            rw [hev₂.kept g' host hg hhost]
            simp
          · exact hgs g' hg'
      · rw [if_neg hmapped]
        obtain ⟨a', code, evicted, hloop, hev, hgs⟩ := ih h hfit hused'
        refine ⟨a', code, evicted, hloop, hev, fun g' hg' => ?_⟩
        rcases List.mem_cons.mp hg' with rfl | hg'
        · obtain ⟨host, hhost⟩ := Option.ne_none_iff_exists'.mp hmapped
          rw [hev.kept g' host hg hhost]
          simp
        · exact hgs g' hg'

/-- The registers of an instruction are mapped, in the halves they belong to. -/
def Placed (a : RegAlloc) (req : AllocRequest) : Prop :=
  ∀ g, req.usedRegs g = true → ∃ i, a.guestRegsMapping g = some (.pool i) ∧
    (a.thumb = true → poolLow i = guestLow g)

/-- **An instruction is served.** -/
theorem allocGuestRegs_evolves {a : RegAlloc} {req : AllocRequest} (h : a.Valid)
    (hfit : req.Fits a.thumb) :
    ∃ a' code evicted, a.allocGuestRegs req = some (a', code, evicted) ∧
      Evolves req.usedRegs req.dirtyGuestRegs a a' code evicted ∧ a'.Placed req := by
  obtain ⟨a₁, code₁, evicted₁, hinputs, hev₁, hmapped₁⟩ := allocLoop_evolves true
    (guestRegs req.inputRegs) h hfit fun g hg => by
      simp [AllocRequest.usedRegs, (List.mem_filter.mp hg).2]
  obtain ⟨a₂, code₂, evicted₂, houtputs, hev₂, hmapped₂⟩ := allocLoop_evolves false
    (guestRegs req.outputRegs) hev₁.valid (by rw [hev₁.thumb]; exact hfit) fun g hg => by
      simp [AllocRequest.usedRegs, (List.mem_filter.mp hg).2]
  refine ⟨a₂, code₁ ++ code₂, evicted₁ ++ evicted₂, ?_, hev₁.trans hev₂, ?_⟩
  · simp [allocGuestRegs, hinputs, houtputs]
  · intro g hg
    have hmapped : a₂.guestRegsMapping g ≠ none := by
      rcases Bool.or_eq_true_iff.mp hg with hin | hout
      · obtain ⟨host, hhost⟩ := Option.ne_none_iff_exists'.mp
          (hmapped₁ g (List.mem_filter.mpr ⟨List.mem_finRange g, hin⟩))
        rw [hev₂.kept g host hg hhost]
        simp
      · exact hmapped₂ g (List.mem_filter.mpr ⟨List.mem_finRange g, hout⟩)
    obtain ⟨i, hi⟩ := hev₂.valid.toConsistent.exists_pool hmapped
    exact ⟨i, hi, fun hthumb => hev₂.valid.halves hthumb g i hi⟩

/-! ## Runs -/

/-- The reservation. -/
theorem reserveLoop_valid (restore : Bool) :
    ∀ (gs : List GuestReg) {a : RegAlloc}, a.Valid → gs.Nodup →
      (∀ g ∈ gs, a.guestRegsMapping g = none) →
      (reserveLoop restore gs a).1.Valid ∧ (reserveLoop restore gs a).1.thumb = a.thumb := by
  intro gs
  induction gs with
  | nil => exact fun h _ _ => ⟨h, rfl⟩
  | cons g gs ih =>
      intro a h hnodup hnone
      obtain ⟨hnot, hnodup⟩ := List.nodup_cons.mp hnodup
      rw [reserveLoop]
      cases halloc : a.allocFreeGuestReg g restore with
      | none => exact ih h hnodup fun g' hg' => hnone g' (List.mem_cons_of_mem g hg')
      | some r =>
          obtain ⟨a', code⟩ := r
          obtain ⟨hev, -⟩ := @allocFreeGuestReg_evolves _ _ g restore (fun r => r = g) (fun _ => false)
            code h (hnone g List.mem_cons_self) (by simp) halloc
          have hloop := ih hev.valid hnodup fun g' hg' => by
            have hne : g' ≠ g := by
              rintro rfl
              exact hnot hg'
            rcases hev.fresh g' (by simp [hne]) with heq | hev
            · rw [heq]
              exact hnone g' (List.mem_cons_of_mem g hg')
            · exact hev.2
          exact ⟨hloop.1, hloop.2.trans hev.thumb⟩

/-- The allocators a block is compiled with: one reservation, then any instructions. -/
inductive Reachable (thumb : Bool) : RegAlloc → Prop
  | reserve (regs : GuestSet) (restore : Bool) :
      Reachable thumb ((new thumb).reserveGuestRegs regs restore).1
  | alloc {a a' : RegAlloc} {code : List HostInst} {evicted : List GuestReg} (req : AllocRequest) :
      Reachable thumb a → req.Fits thumb → a.allocGuestRegs req = some (a', code, evicted) →
      Reachable thumb a'

/-- **The invariant holds in every run.** -/
theorem Reachable.valid {thumb : Bool} {a : RegAlloc} (h : Reachable thumb a) :
    a.Valid ∧ a.thumb = thumb := by
  induction h with
  | reserve regs restore =>
      exact reserveLoop_valid restore (guestRegs regs) (new_valid thumb)
        ((List.nodup_finRange 16).filter _) fun _ _ => rfl
  | alloc req _ hfit halloc ih =>
      obtain ⟨hvalid, rfl⟩ := ih
      obtain ⟨a', code, evicted, heq, hev, -⟩ := allocGuestRegs_evolves hvalid hfit
      obtain ⟨rfl, -⟩ := Prod.mk.inj (Option.some.inj (heq.symm.trans halloc))
      exact ⟨hev.valid, hev.thumb⟩

/-- **The allocator's law**: in every run the maps are inverse, the free registers are the unmapped
ones, and the next instruction is served without a panic, evicting none of its own registers and
storing what is dirty before the host register is reused. -/
theorem reg_alloc_law {thumb : Bool} {a : RegAlloc} (h : Reachable thumb a) :
    (∀ g i, a.guestRegsMapping g = some (.pool i) ↔ a.hostRegsMapping i = some g) ∧
      (∀ g, a.guestRegsMapping g ≠ some .r2) ∧
      (∀ i, a.freeRegs i = true ↔ ∀ g, a.guestRegsMapping g ≠ some (.pool i)) ∧
      ∀ req : AllocRequest, req.Fits thumb →
        ∃ a' code evicted, a.allocGuestRegs req = some (a', code, evicted) ∧
          Reachable thumb a' ∧
          (∀ g, req.usedRegs g = true → ∃ i, a'.guestRegsMapping g = some (.pool i) ∧
            (thumb = true → poolLow i = guestLow g)) ∧
          (∀ r, a.guestRegsMapping r ≠ none → a'.guestRegsMapping r ≠ a.guestRegsMapping r →
            r ∈ evicted) ∧
          ∀ r ∈ evicted, req.usedRegs r = false ∧ ∃ i, a.guestRegsMapping r = some (.pool i) ∧
            (req.dirtyGuestRegs r = true → StoredFirst code i r) := by
  obtain ⟨hvalid, rfl⟩ := h.valid
  refine ⟨hvalid.inverse, hvalid.scratch, fun i => ?_, fun req hfit => ?_⟩
  · rw [hvalid.free, Option.eq_none_iff_forall_ne_some]
    exact forall_congr' fun g => not_congr (hvalid.inverse g i).symm
  · obtain ⟨a', code, evicted, halloc, hev, hplaced⟩ := allocGuestRegs_evolves hvalid hfit
    refine ⟨a', code, evicted, halloc, h.alloc req hfit halloc, fun g hg => ?_, fun r hr hne => ?_,
      hev.stored⟩
    · obtain ⟨i, hi, hhalf⟩ := hplaced g hg
      exact ⟨i, hi, fun hthumb => hhalf (hev.thumb.trans hthumb)⟩
    · cases hused : req.usedRegs r with
      | false =>
          rcases hev.fresh r hused with heq | ⟨hmem, -⟩
          · exact absurd heq hne
          · exact hmem
      | true =>
          obtain ⟨host, hhost⟩ := Option.ne_none_iff_exists'.mp hr
          exact absurd ((hev.kept r host hused hhost).trans hhost.symm) hne

/-- All host registers are taken, and the stack pointer is loaded in thumb mode. -/
theorem reg_alloc_law_push :
    ∃ a' code evicted, ((new true).reserveGuestRegs (fun _ => true) false).1.allocGuestRegs
        ⟨fun g => g.val = 13, fun g => g.val ≤ 1, fun g => g.val = 8, fun _ => true⟩ =
          some (a', code, evicted) ∧
      ∀ r ∈ evicted, 1 < r.val ∧ r.val ≠ 13 := by
  obtain ⟨-, -, -, hserve⟩ := reg_alloc_law (Reachable.reserve (fun _ => true) false :
    Reachable true _)
  obtain ⟨a', code, evicted, halloc, -, -, -, hevicted⟩ := hserve
    ⟨fun g => g.val = 13, fun g => g.val ≤ 1, fun g => g.val = 8, fun _ => true⟩ (by decide)
  refine ⟨a', code, evicted, halloc, fun r hr => ?_⟩
  have hunused := (hevicted r hr).1
  simp only [AllocRequest.usedRegs, Bool.or_eq_false_iff, decide_eq_false_iff_not] at hunused
  exact ⟨by omega, hunused.1⟩

end RegAlloc

end AdvancedSlop
