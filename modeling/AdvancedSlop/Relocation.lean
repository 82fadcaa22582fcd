/-
# Relocation is a parallel move

The code of `relocateGuestRegs` takes a block's registers to where another block wants them.

* `Moving` : the registers on their way, one of them in r2 where a cycle is open;
* `swapGuestRegs_spec` : the recursion along a chain of registers ends, within depth 17;
* `relocation_law` : what the code leaves in the host registers and in the slots.
-/
import AdvancedSlop.RegAllocLaw

namespace AdvancedSlop

/-! ## Code -/

namespace HostState

@[simp] theorem exec_nil (m : HostState) : m.exec [] = m := rfl

@[simp] theorem exec_cons (m : HostState) (inst : HostInst) (code : List HostInst) :
    m.exec (inst :: code) = (m.step inst).exec code := rfl

@[simp] theorem exec_append (m : HostState) (code code' : List HostInst) :
    m.exec (code ++ code') = (m.exec code).exec code' := by
  simp [exec]

@[simp] theorem step_mov_slots (m : HostState) (dest src : HostReg) :
    (m.step (.mov dest src)).slots = m.slots := rfl

@[simp] theorem step_mov_regs (m : HostState) (dest src : HostReg) :
    (m.step (.mov dest src)).regs = Function.update m.regs dest (m.regs src) := rfl

end HostState

namespace RegAlloc

/-- The value of a guest register: in its host register, or in its slot. -/
def guestValue (a : RegAlloc) (m : HostState) (g : GuestReg) : BitVec 32 :=
  match a.guestRegsMapping g with
  | some h => m.regs h
  | none => m.slots g

/-! ## Registers on their way -/

section Moves

variable (a₀ : RegAlloc) (desired : GuestReg → Option PoolReg) (V : GuestReg → BitVec 32)

/-- A register that is mapped, and is wanted in a host register. -/
def Active (g : GuestReg) : Prop := desired g ≠ none ∧ a₀.guestRegsMapping g ≠ none

/-- **The invariant of the moves** from `a₀`: the registers hold their values, `swapped` perhaps in
r2, and the host map knows who is where.  Entries of the host map go stale only where their register
has arrived elsewhere. -/
structure Moving (swapped : Option GuestReg) (a : RegAlloc) (m : HostState) : Prop where
  freeRegs : a.freeRegs = a₀.freeRegs
  thumb : a.thumb = a₀.thumb
  idle : ∀ x, ¬ a₀.Active desired x → a.guestRegsMapping x = a₀.guestRegsMapping x
  held : ∀ x, a₀.Active desired x →
    ∃ h, a.guestRegsMapping x = some h ∧ m.regs h = V x ∧ (h = .r2 → swapped = some x)
  owner : ∀ x i, a₀.Active desired x → a.guestRegsMapping x = some (.pool i) →
    a.hostRegsMapping i = some x
  stale : ∀ i u, a.hostRegsMapping i = some u → a₀.Active desired u → swapped ≠ some u →
    a.guestRegsMapping u = some (.pool i) ∨
      ∃ d, desired u = some d ∧ a.guestRegsMapping u = some (.pool d)
  users : ∀ i u, a.hostRegsMapping i = some u → a₀.Active desired u ∨ desired u = none

variable {a₀ desired V}

/-- At the start everything is in place. -/
theorem Moving.start {m : HostState} (h : a₀.Consistent)
    (hheld : ∀ g i, a₀.guestRegsMapping g = some (.pool i) → m.regs (.pool i) = V g) :
    Moving a₀ desired V none a₀ m where
  freeRegs := rfl
  thumb := rfl
  idle _ _ := rfl
  held x hx := by
    obtain ⟨i, hi⟩ := h.exists_pool hx.2
    exact ⟨.pool i, hi, hheld x i hi, by simp⟩
  owner x i _ hmapped := (h.inverse x i).mp hmapped
  stale i u hhost _ _ := .inl ((h.inverse u i).mpr hhost)
  users i u hhost := by
    have hmapped := (h.inverse u i).mpr hhost
    by_cases hd : desired u = none
    · exact .inr hd
    · exact .inl ⟨hd, by simp [hmapped]⟩

theorem Moving.weaken {a : RegAlloc} {m : HostState} (h : Moving a₀ desired V none a m)
    (swapped : Option GuestReg) : Moving a₀ desired V swapped a m where
  freeRegs := h.freeRegs
  thumb := h.thumb
  idle := h.idle
  held x hx := by
    obtain ⟨host, hmapped, hvalue, hr2⟩ := h.held x hx
    exact ⟨host, hmapped, hvalue, fun heq => absurd (hr2 heq) (by simp)⟩
  owner := h.owner
  stale i u hhost hu _ := h.stale i u hhost hu (by simp)
  users := h.users

/-- Nothing is in r2 while no cycle is open. -/
theorem Moving.exists_pool {a : RegAlloc} {m : HostState} (h : Moving a₀ desired V none a m)
    {x : GuestReg} (hx : a₀.Active desired x) :
    ∃ i, a.guestRegsMapping x = some (.pool i) ∧ m.regs (.pool i) = V x := by
  obtain ⟨host, hmapped, hvalue, hr2⟩ := h.held x hx
  cases host with
  | r2 => cases hr2 rfl
  | pool i => exact ⟨i, hmapped, hvalue⟩

/-- **A move to a host register nobody needs.**  The register has arrived; what was in r2 stays
there, unless it is the one that moved. -/
theorem Moving.move {swapped swapped' : Option GuestReg} {a : RegAlloc} {m : HostState}
    {g : GuestReg} {goal : PoolReg} {current : HostReg} (h : Moving a₀ desired V swapped a m)
    (hg : a₀.Active desired g) (hgoal : desired g = some goal)
    (hcurrent : a.guestRegsMapping g = some current)
    (hunused : ∀ x, a₀.Active desired x → x ≠ g → a.guestRegsMapping x ≠ some (.pool goal))
    (hswapped : ∀ x, x ≠ g → swapped = some x → swapped' = some x) :
    Moving a₀ desired V swapped' (a.setGuestRegMapping g (some (.pool goal)))
      (m.step (.mov (.pool goal) current)) where
  freeRegs := h.freeRegs
  thumb := h.thumb
  idle x hx := by
    have hne : x ≠ g := by
      rintro rfl
      exact hx hg
    simpa [hne] using h.idle x hx
  held x hx := by
    obtain ⟨host, hmapped, hvalue, hr2⟩ := h.held x hx
    by_cases hxg : x = g
    · subst hxg
      obtain rfl : host = current := Option.some.inj (hmapped.symm.trans hcurrent)
      exact ⟨.pool goal, by simp, by simpa using hvalue, by simp⟩
    · have hne : host ≠ .pool goal := by
        rintro rfl
        exact hunused x hx hxg hmapped
      exact ⟨host, by simpa [hxg] using hmapped, by simpa [hne] using hvalue,
        fun heq => hswapped x hxg (hr2 heq)⟩
  owner x i hx hmapped := by
    rw [setGuestRegMapping_guest] at hmapped
    rw [setGuestRegMapping_some_host]
    by_cases hxg : x = g
    · obtain rfl : goal = i := by simpa [hxg] using hmapped
      simp [hxg]
    · rw [Function.update_of_ne hxg] at hmapped
      have hne : i ≠ goal := by
        rintro rfl
        exact hunused x hx hxg hmapped
      rw [Function.update_of_ne hne]
      exact h.owner x i hx hmapped
  stale i u hhost hu hnot := by
    rw [setGuestRegMapping_some_host] at hhost
    rw [setGuestRegMapping_guest]
    by_cases hug : u = g
    · exact .inr ⟨goal, by rw [hug]; exact hgoal, by simp [hug]⟩
    · have hi : i ≠ goal := by
        rintro rfl
        rw [Function.update_self] at hhost
        exact hug (Option.some.inj hhost).symm
      rw [Function.update_of_ne hi] at hhost
      rw [Function.update_of_ne hug]
      exact h.stale i u hhost hu fun heq => hnot (hswapped u hug heq)
  users i u hhost := by
    rw [setGuestRegMapping_some_host] at hhost
    by_cases hi : i = goal
    · rw [hi, Function.update_self] at hhost
      obtain rfl := Option.some.inj hhost
      exact .inl hg
    · rw [Function.update_of_ne hi] at hhost
      exact h.users i u hhost

/-- The allocator after its root went to r2. -/
def toScratch (a : RegAlloc) (root : GuestReg) : RegAlloc :=
  { a with guestRegsMapping := Function.update a.guestRegsMapping root (some .r2) }

/-- **A cycle is opened**: the root of the chain goes to r2. -/
theorem Moving.to_scratch {a : RegAlloc} {m : HostState} {root : GuestReg} {i : PoolReg}
    (h : Moving a₀ desired V none a m) (hroot : a₀.Active desired root)
    (hmapped : a.guestRegsMapping root = some (.pool i)) :
    Moving a₀ desired V (some root) (a.toScratch root) (m.step (.mov .r2 (.pool i))) where
  freeRegs := h.freeRegs
  thumb := h.thumb
  idle x hx := by
    have hne : x ≠ root := by
      rintro rfl
      exact hx hroot
    simpa [toScratch, hne] using h.idle x hx
  held x hx := by
    obtain ⟨j, hj, hvalue⟩ := h.exists_pool hx
    by_cases hxr : x = root
    · subst hxr
      obtain rfl : j = i := by simpa [hj] using hmapped
      exact ⟨.r2, by simp [toScratch], by simpa using hvalue, by simp⟩
    · exact ⟨.pool j, by simpa [toScratch, hxr] using hj, by simpa using hvalue, by simp⟩
  owner x j hx hj := by
    have hne : x ≠ root := by
      rintro rfl
      simp [toScratch] at hj
    exact h.owner x j hx (by simpa [toScratch, hne] using hj)
  stale j u hhost hu hnot := by
    have hne : u ≠ root := fun heq => hnot (by rw [heq])
    simpa [toScratch, hne] using h.stale j u hhost hu (by simp)
  users := h.users

/-! ## The recursion -/

/-- Where the registers may be after a chain from `root` was followed. -/
def Steady (a₀ : RegAlloc) (desired : GuestReg → Option PoolReg) (root : GuestReg)
    (a a' : RegAlloc) : Prop :=
  ∀ x, a₀.Active desired x → a'.guestRegsMapping x = a.guestRegsMapping x ∨
    (∃ d, desired x = some d ∧ a'.guestRegsMapping x = some (.pool d)) ∨
    x = root ∧ a'.guestRegsMapping x = some .r2

theorem Steady.refl (root : GuestReg) (a : RegAlloc) : Steady a₀ desired root a a :=
  fun _ _ => .inl rfl

/-- The last move of a level keeps the rest where it was. -/
theorem Steady.move {root g : GuestReg} {goal : PoolReg} {a a' : RegAlloc}
    (h : Steady a₀ desired root a a') (hgoal : desired g = some goal) :
    Steady a₀ desired root a (a'.setGuestRegMapping g (some (.pool goal))) := by
  intro x hx
  rw [setGuestRegMapping_guest]
  by_cases hxg : x = g
  · exact .inr (.inl ⟨goal, by rw [hxg]; exact hgoal, by simp [hxg]⟩)
  · simpa [hxg] using h x hx

/-- The registers of a chain from `root` to `g`: each but the root is where another one, not `g`,
wants to be. -/
def Chain (desired : GuestReg → Option PoolReg) (a : RegAlloc) (root g : GuestReg)
    (visited : Finset GuestReg) : Prop :=
  root ∈ visited ∧ g ∈ visited ∧ ∀ v ∈ visited, v ≠ root →
    ∃ w ∈ visited, w ≠ g ∧ ∃ i, desired w = some i ∧ a.guestRegsMapping v = some (.pool i)

theorem Chain.single (a : RegAlloc) (root : GuestReg) : Chain desired a root root {root} :=
  ⟨by simp, by simp, fun v hv hne => absurd (Finset.mem_singleton.mp hv) hne⟩

/-- **The chain grows**: who sits where `g` wants to be has not been met. -/
theorem Chain.extend {a : RegAlloc} {root g user : GuestReg} {goal : PoolReg}
    {visited : Finset GuestReg} (h : Chain desired a root g visited)
    (hinj : ∀ x y i, desired x = some i → desired y = some i → x = y)
    (hgoal : desired g = some goal) (huser : a.guestRegsMapping user = some (.pool goal))
    (hroot : user ≠ root) :
    user ∉ visited ∧ Chain desired a root user (insert user visited) := by
  obtain ⟨hrootmem, hg, hchain⟩ := h
  have hnew : user ∉ visited := by
    intro hmem
    obtain ⟨w, -, hwg, i, hwi, hmapped⟩ := hchain user hmem hroot
    obtain rfl : goal = i := by simpa [huser] using hmapped
    exact hwg (hinj w g goal hwi hgoal)
  refine ⟨hnew, Finset.mem_insert_of_mem hrootmem, Finset.mem_insert_self _ _, ?_⟩
  intro v hv hne
  rcases Finset.mem_insert.mp hv with rfl | hv
  · exact ⟨g, Finset.mem_insert_of_mem hg, fun heq => hnew (heq ▸ hg), goal, hgoal, huser⟩
  · obtain ⟨w, hw, -, i, hwi, hmapped⟩ := hchain v hv hne
    exact ⟨w, Finset.mem_insert_of_mem hw, fun heq => hnew (heq ▸ hw), i, hwi, hmapped⟩

/-- What is reached before the last move of a level: nobody needs the host register any more. -/
structure Cleared (a₀ : RegAlloc) (desired : GuestReg → Option PoolReg)
    (V : GuestReg → BitVec 32) (root g : GuestReg) (goal : PoolReg) (a a' : RegAlloc)
    (m m' : HostState) : Prop where
  slots : m'.slots = m.slots
  steady : Steady a₀ desired root a a'
  moving : Moving a₀ desired V (some root) a' m'
  unused : ∀ x, a₀.Active desired x → x ≠ g → a'.guestRegsMapping x ≠ some (.pool goal)

/-- What following a chain from `root` to `g` leaves behind. -/
structure Followed (a₀ : RegAlloc) (desired : GuestReg → Option PoolReg)
    (V : GuestReg → BitVec 32) (root g : GuestReg) (goal : PoolReg) (a a' : RegAlloc)
    (m m' : HostState) : Prop where
  slots : m'.slots = m.slots
  steady : Steady a₀ desired root a a'
  moving : Moving a₀ desired V (some root) a' m'
  arrived : a'.guestRegsMapping g = some (.pool goal)
  closed : g = root → Moving a₀ desired V none a' m'

/-- **One level**: once nobody needs the host register, the move to it ends the level. -/
theorem Cleared.followed {root g : GuestReg} {goal : PoolReg} {a a' : RegAlloc} {m m' : HostState}
    (h : Cleared a₀ desired V root g goal a a' m m') (hg : a₀.Active desired g)
    (hgoal : desired g = some goal) :
    ∃ current, a'.guestRegsMapping g = some current ∧
      Followed a₀ desired V root g goal a (a'.setGuestRegMapping g (some (.pool goal))) m
        (m'.step (.mov (.pool goal) current)) := by
  obtain ⟨current, hcurrent, -, -⟩ := h.moving.held g hg
  refine ⟨current, hcurrent, h.slots, h.steady.move hgoal,
    h.moving.move hg hgoal hcurrent h.unused fun _ _ heq => heq, by simp, ?_⟩
  rintro rfl
  exact h.moving.move hg hgoal hcurrent h.unused fun x hne heq =>
    absurd (Option.some.inj heq).symm hne

section Level

variable {root g : GuestReg} {goal : PoolReg} {a : RegAlloc} {m : HostState}

/-- A register that is there already. -/
theorem Followed.of_there (h : Moving a₀ desired V none a m) (hne : g ≠ root)
    (hthere : a.guestRegsMapping g = some (.pool goal)) :
    Followed a₀ desired V root g goal a a m m where
  slots := rfl
  steady := .refl root a
  moving := h.weaken (some root)
  arrived := hthere
  closed heq := absurd heq hne

/-- The host register is not needed from the start. -/
theorem Cleared.of_unused (h : Moving a₀ desired V none a m)
    (hunused : ∀ x, a₀.Active desired x → a.guestRegsMapping x ≠ some (.pool goal)) :
    Cleared a₀ desired V root g goal a a m m where
  slots := rfl
  steady := .refl root a
  moving := h.weaken (some root)
  unused x hx _ := hunused x hx

/-- The chain has come back to its root. -/
theorem Cleared.of_cycle (h : Moving a₀ desired V none a m) (hroot : a₀.Active desired root)
    (hmapped : a.guestRegsMapping root = some (.pool goal)) :
    Cleared a₀ desired V root g goal a (a.toScratch root) m (m.step (.mov .r2 (.pool goal))) where
  slots := rfl
  steady x _ := by
    by_cases hxr : x = root
    · exact .inr (.inr ⟨hxr, by simp [toScratch, hxr]⟩)
    · exact .inl (by simp [toScratch, hxr])
  moving := h.to_scratch hroot hmapped
  unused x hx _ hx' := by
    by_cases hxr : x = root
    · simp [toScratch, hxr] at hx'
    · have hthere := h.owner root goal hroot hmapped
      rw [h.owner x goal hx (by simpa [toScratch, hxr] using hx')] at hthere
      exact hxr (Option.some.inj hthere)

/-- The register that is in the way has moved on. -/
theorem Cleared.of_followed {user : GuestReg} {next : PoolReg} {a' : RegAlloc} {m' : HostState}
    (hinj : ∀ x y i, desired x = some i → desired y = some i → x = y)
    (h : Moving a₀ desired V none a m) (huser : a.hostRegsMapping goal = some user)
    (hgoal : desired g = some goal) (hnext : desired user = some next) (hug : user ≠ g)
    (hfollowed : Followed a₀ desired V root user next a a' m m') :
    Cleared a₀ desired V root g goal a a' m m' where
  slots := hfollowed.slots
  steady := hfollowed.steady
  moving := hfollowed.moving
  unused x hx hxg hx' := by
    rcases hfollowed.steady x hx with heq | ⟨d, hd, heq⟩ | ⟨-, heq⟩
    · have hthere := h.owner x goal hx (heq ▸ hx')
      obtain rfl : user = x := Option.some.inj (huser.symm.trans hthere)
      rw [hfollowed.arrived] at hx'
      obtain rfl : next = goal := by simpa using hx'
      exact hug (hinj user g next hnext hgoal)
    · obtain rfl : d = goal := by simpa [heq] using hx'
      exact hxg (hinj x g d hd hgoal)
    · rw [heq] at hx'
      cases hx'

end Level

/-- **Following a chain**, by recursion on the depth that is left: every level but the last finds a
register it has not met, so 17 levels are enough. -/
theorem swapGuestRegs_spec {root : GuestReg} {a : RegAlloc} {m : HostState}
    (hinj : ∀ x y i, desired x = some i → desired y = some i → x = y)
    (h : Moving a₀ desired V none a m) (hroot : a₀.Active desired root)
    (hunsettled : ∀ d, desired root = some d → a.guestRegsMapping root ≠ some (.pool d)) :
    ∀ (depth : ℕ) (visited : Finset GuestReg) (g : GuestReg) (goal : PoolReg),
      a₀.Active desired g → desired g = some goal → Chain desired a root g visited →
      17 < depth + visited.card →
      ∃ a' code, swapGuestRegs desired root depth a g goal = some (a', code) ∧
        Followed a₀ desired V root g goal a a' m (m.exec code) := by
  intro depth
  induction depth with
  | zero =>
      intro visited g goal _ _ _ hcard
      have := Finset.card_le_univ visited
      simp at this
      omega
  | succ depth ih =>
      intro visited g goal hg hgoal hchain hcard
      rw [swapGuestRegs]
      by_cases hthere : a.guestRegsMapping g = some (.pool goal)
      · rw [if_pos hthere]
        have hne : g ≠ root := by
          rintro rfl
          exact hunsettled goal hgoal hthere
        exact ⟨a, [], rfl, .of_there h hne hthere⟩
      · rw [if_neg hthere]
        have hend : ∀ {a' : RegAlloc} {code : List HostInst},
            Cleared a₀ desired V root g goal a a' m (m.exec code) →
            ∃ a'' code', (some (a', code)).bind (fun r => (r.1.guestRegsMapping g).map fun current =>
                (r.1.setGuestRegMapping g (some (.pool goal)),
                  r.2 ++ [.mov (.pool goal) current])) = some (a'', code') ∧
              Followed a₀ desired V root g goal a a'' m (m.exec code') := by
          intro a' code hcleared
          obtain ⟨current, hcurrent, hfollowed⟩ := hcleared.followed hg hgoal
          refine ⟨a'.setGuestRegMapping g (some (.pool goal)), code ++ [.mov (.pool goal) current],
            ?_, ?_⟩
          · simp [hcurrent]
          · simpa using hfollowed
        cases huser : a.hostRegsMapping goal with
        | none =>
            refine @hend a [] (.of_unused h fun x hx hmapped => ?_)
            rw [h.owner x goal hx hmapped] at huser
            cases huser
        | some user =>
            -- the entry for the host register may be stale, if its register has arrived elsewhere
            by_cases hru : root = user
            · subst hru
              simp only [if_true]
              rcases h.stale goal root huser hroot (by simp) with hmapped | ⟨d, hd, hmapped⟩
              · exact @hend (a.toScratch root) [.mov .r2 (.pool goal)] (.of_cycle h hroot hmapped)
              · exact absurd hmapped (hunsettled d hd)
            · simp only [if_neg hru]
              cases hnext : desired user with
              | none =>
                  refine @hend a [] (.of_unused h fun x hx hmapped => hx.1 ?_)
                  rw [h.owner x goal hx hmapped] at huser
                  rw [Option.some.inj huser]
                  exact hnext
              | some next =>
                  have hactive : a₀.Active desired user := by
                    rcases h.users goal user huser with hactive | hnone
                    · exact hactive
                    · rw [hnone] at hnext
                      cases hnext
                  have hug : user ≠ g := by
                    rintro rfl
                    rcases h.stale goal user huser hactive (by simp) with hm | ⟨d, hd, hm⟩
                    · exact hthere hm
                    · obtain rfl : goal = d := by simpa [hgoal] using hd
                      exact hthere hm
                  obtain ⟨a', code, hswap, hfollowed⟩ : ∃ a' code,
                      swapGuestRegs desired root depth a user next = some (a', code) ∧
                        Followed a₀ desired V root user next a a' m (m.exec code) := by
                    rcases h.stale goal user huser hactive (by simp) with hm | ⟨d, hd, hm⟩
                    · obtain ⟨hnew, hchain'⟩ := hchain.extend hinj hgoal hm (Ne.symm hru)
                      refine ih (insert user visited) user next hactive hnext hchain' ?_
                      rw [Finset.card_insert_of_notMem hnew]
                      omega
                    · obtain rfl : next = d := by simpa [hnext] using hd
                      have := Finset.card_le_univ visited
                      obtain ⟨depth, rfl⟩ : ∃ d, depth = d + 1 :=
                        ⟨depth - 1, by simp at this; omega⟩
                      exact ⟨a, [], by rw [swapGuestRegs, if_pos hm],
                        .of_there h (Ne.symm hru) hm⟩
                  simp only [hswap]
                  exact hend (.of_followed hinj h huser hgoal hnext hug hfollowed)

/-- The register is where it is wanted. -/
def Settled (desired : GuestReg → Option PoolReg) (a : RegAlloc) (g : GuestReg) : Prop :=
  ∀ d, desired g = some d → a.guestRegsMapping g = some (.pool d)

/-- **The loop over the registers**: they settle one after the other, and stay where they are. -/
theorem swapLoop_spec (hinj : ∀ x y i, desired x = some i → desired y = some i → x = y)
    {depth : ℕ} (hdepth : 17 ≤ depth) :
    ∀ (gs : List GuestReg) {a : RegAlloc} {m : HostState}, Moving a₀ desired V none a m →
      ∃ a' code, swapLoop desired depth gs a = some (a', code) ∧
        (m.exec code).slots = m.slots ∧ Moving a₀ desired V none a' (m.exec code) ∧
        ∀ g, a₀.Active desired g → g ∈ gs ∨ Settled desired a g → Settled desired a' g := by
  intro gs
  induction gs with
  | nil => exact fun {a m} h => ⟨a, [], rfl, rfl, h, fun g _ hg => hg.resolve_left (by simp)⟩
  | cons g gs ih =>
      intro a m h
      -- a register that is not moved
      have hskip : (a₀.Active desired g → Settled desired a g) →
          ∃ a' code, swapLoop desired depth gs a = some (a', code) ∧
            (m.exec code).slots = m.slots ∧ Moving a₀ desired V none a' (m.exec code) ∧
            ∀ x, a₀.Active desired x → x ∈ g :: gs ∨ Settled desired a x →
              Settled desired a' x := by
        intro hg
        obtain ⟨a', code, hloop, hslots, hmoving, hsettled⟩ := ih h
        refine ⟨a', code, hloop, hslots, hmoving, fun x hx hcase => hsettled x hx ?_⟩
        rcases hcase with hmem | hx'
        · rcases List.mem_cons.mp hmem with rfl | hmem
          · exact .inr (hg hx)
          · exact .inl hmem
        · exact .inr hx'
      rw [swapLoop]
      cases hcurrent : a.guestRegsMapping g with
      | none =>
          refine hskip fun hg => ?_
          obtain ⟨i, hi, -⟩ := h.exists_pool hg
          rw [hi] at hcurrent
          cases hcurrent
      | some current =>
          cases hgoal : desired g with
          | none => exact hskip fun hg => absurd hgoal hg.1
          | some goal =>
              by_cases hthere : current = .pool goal
              · simp only [hthere, ne_eq, not_true, if_false]
                refine hskip fun _ d hd => ?_
                obtain rfl : goal = d := by simpa [hgoal] using hd
                rw [hcurrent, hthere]
              · simp only [ne_eq, hthere, not_false_eq_true, if_true]
                have hactive : a₀.Active desired g := by
                  by_contra hidle
                  have hsame := h.idle g hidle
                  exact hidle ⟨by simp [hgoal], by simp [← hsame, hcurrent]⟩
                obtain ⟨a₁, code₁, hswap, hfollowed⟩ := swapGuestRegs_spec hinj h hactive
                  (fun d hd => by
                    obtain rfl : goal = d := by simpa [hgoal] using hd
                    simpa [hcurrent] using hthere)
                  depth {g} g goal hactive hgoal (.single a g) (by simp; omega)
                obtain ⟨a', code, hloop, hslots, hmoving, hsettled⟩ := ih (hfollowed.closed rfl)
                refine ⟨a', code₁ ++ code, by simp [hswap, hloop], ?_, by simpa using hmoving, ?_⟩
                · rw [HostState.exec_append, hslots, hfollowed.slots]
                · intro x hx hcase
                  refine hsettled x hx ?_
                  by_cases hxg : x = g
                  · refine .inr fun d hd => ?_
                    obtain rfl : goal = d := by simpa [hxg, hgoal] using hd
                    rw [hxg, hfollowed.arrived]
                  · rcases hcase with hmem | hx'
                    · exact .inl ((List.mem_cons.mp hmem).resolve_left hxg)
                    · refine .inr fun d hd => ?_
                      rcases hfollowed.steady x hx with heq | ⟨d', hd', heq⟩ | ⟨hxr, -⟩
                      · rw [heq]
                        exact hx' d hd
                      · obtain rfl : d = d' := Option.some.inj (hd.symm.trans hd')
                        exact heq
                      · exact absurd hxr hxg

end Moves

/-! ## Saves and loads -/

/-- The saves leave the host registers alone, and fill the slots of the registers that are mapped. -/
theorem exec_saves (a : RegAlloc) (m : HostState) :
    ∀ (gs : List GuestReg) (m' : HostState), m'.regs = m.regs →
      (m'.exec (gs.filterMap fun g => (a.guestRegsMapping g).map fun h => .str h g)).regs = m.regs ∧
      ∀ g, (m'.exec (gs.filterMap fun g => (a.guestRegsMapping g).map fun h => .str h g)).slots g =
        if g ∈ gs ∧ a.guestRegsMapping g ≠ none then a.guestValue m g else m'.slots g := by
  intro gs
  induction gs with
  | nil => exact fun m' hregs => ⟨hregs, fun g => by simp⟩
  | cons x gs ih =>
      intro m' hregs
      cases hx : a.guestRegsMapping x with
      | none =>
          obtain ⟨hregs', hslots⟩ := ih m' hregs
          simp only [List.filterMap_cons, hx, Option.map_none]
          refine ⟨hregs', fun g => ?_⟩
          rw [hslots]
          by_cases hgx : g = x
          · simp [hgx, hx]
          · simp [hgx]
      | some h =>
          obtain ⟨hregs', hslots⟩ := ih (m'.step (.str h x)) hregs
          simp only [List.filterMap_cons, hx, Option.map_some, HostState.exec_cons]
          refine ⟨hregs', fun g => ?_⟩
          rw [hslots]
          by_cases hgx : g = x
          · by_cases hmem : x ∈ gs <;> simp [hgx, hx, hmem, HostState.step, guestValue, hregs]
          · simp [hgx, HostState.step]

/-- The loads leave the slots alone, and fill the host registers whose registers are elsewhere. -/
theorem exec_loads {desired : GuestReg → Option PoolReg} (a : RegAlloc)
    (hinj : ∀ x y i, desired x = some i → desired y = some i → x = y) :
    ∀ (gs : List GuestReg) (m : HostState),
      (m.exec (gs.filterMap (a.missingLoad desired))).slots = m.slots ∧
        ∀ g i, desired g = some i → (m.exec (gs.filterMap (a.missingLoad desired))).regs (.pool i) =
          if g ∈ gs ∧ a.guestRegsMapping g ≠ some (.pool i) then m.slots g
          else m.regs (.pool i) := by
  intro gs
  induction gs with
  | nil => exact fun m => ⟨rfl, fun g i _ => by simp⟩
  | cons x gs ih =>
      intro m
      cases hx : desired x with
      | none =>
          obtain ⟨hslots, hregs⟩ := ih m
          simp only [List.filterMap_cons, missingLoad, hx]
          refine ⟨hslots, fun g i hg => ?_⟩
          have hgx : g ≠ x := by
            rintro rfl
            rw [hx] at hg
            cases hg
          rw [hregs g i hg]
          simp [hgx]
      | some goal =>
          by_cases hthere : a.guestRegsMapping x = some (.pool goal)
          · obtain ⟨hslots, hregs⟩ := ih m
            simp only [List.filterMap_cons, missingLoad, hx, hthere, ne_eq, not_true, if_false]
            refine ⟨hslots, fun g i hg => ?_⟩
            rw [hregs g i hg]
            by_cases hgx : g = x
            · obtain rfl : goal = i := by simpa [hgx, hx] using hg
              simp [hgx, hthere]
            · simp [hgx]
          · obtain ⟨hslots, hregs⟩ := ih (m.step (.ldr (.pool goal) x))
            simp only [List.filterMap_cons, missingLoad, hx, hthere, ne_eq, not_false_eq_true, if_true,
              HostState.exec_cons]
            refine ⟨hslots, fun g i hg => ?_⟩
            rw [hregs g i hg]
            by_cases hgx : g = x
            · obtain rfl : goal = i := by simpa [hgx, hx] using hg
              by_cases hmem : x ∈ gs <;> simp [hgx, hthere, hmem, HostState.step]
            · have hne : i ≠ goal := by
                rintro rfl
                exact hgx (hinj g x i hg hx)
              simp [hgx, hne, HostState.step]

/-- What goes to memory for good is no longer mapped, if no host register is wanted for it. -/
theorem dropSaved_spec (saved : GuestSet) (desired : GuestReg → Option PoolReg) {a : RegAlloc}
    (h : a.Consistent) :
    (a.dropSaved saved desired).Consistent ∧
      (a.dropSaved saved desired).freeRegs = a.freeRegs ∧
      (a.dropSaved saved desired).thumb = a.thumb ∧
      ∀ g, (a.dropSaved saved desired).guestRegsMapping g = a.guestRegsMapping g ∨
        desired g = none ∧ (a.dropSaved saved desired).guestRegsMapping g = none := by
  unfold dropSaved
  generalize guestRegs saved = gs
  induction gs generalizing a with
  | nil => exact ⟨h, rfl, rfl, fun g => .inl rfl⟩
  | cons x gs ih =>
      rw [List.foldl_cons]
      split
      · rename_i hx
        obtain ⟨i, hi⟩ := h.exists_pool hx.2
        obtain ⟨hcons, hfree, hthumb, hmap⟩ := ih (h.release hi)
        refine ⟨hcons, hfree, hthumb, fun g => ?_⟩
        rcases hmap g with heq | hnone
        · by_cases hgx : g = x
          · exact .inr ⟨by rw [hgx]; exact hx.1, by rw [heq]; simp [hgx]⟩
          · exact .inl (by rw [heq]; simp [hgx])
        · exact .inr hnone
      · exact ih h

/-- A pass that enters each mapped register at its host register gives back the host map. -/
theorem foldl_hosts {a : RegAlloc} (h : a.Consistent)
    {enter : (PoolReg → Option GuestReg) → GuestReg → PoolReg → Option GuestReg}
    (henter : ∀ hosts g i, enter hosts g i =
      if a.guestRegsMapping g = some (.pool i) then some g else hosts i)
    (gs : List GuestReg) (hosts : PoolReg → Option GuestReg) (i : PoolReg) :
    gs.foldl enter hosts i =
      if ∃ g ∈ gs, a.guestRegsMapping g = some (.pool i) then a.hostRegsMapping i else hosts i := by
  induction gs generalizing hosts with
  | nil => simp
  | cons x gs ih =>
      rw [List.foldl_cons, ih, henter]
      by_cases hlater : ∃ g ∈ gs, a.guestRegsMapping g = some (.pool i)
      · obtain ⟨g, hg, hi⟩ := hlater
        rw [if_pos ⟨g, hg, hi⟩, if_pos ⟨g, List.mem_cons_of_mem x hg, hi⟩]
      · rw [if_neg hlater]
        by_cases hx : a.guestRegsMapping x = some (.pool i)
        · rw [if_pos hx, if_pos ⟨x, List.mem_cons_self, hx⟩, (h.inverse x i).mp hx]
        · have hnone : ¬ ∃ g ∈ x :: gs, a.guestRegsMapping g = some (.pool i) := by
            rintro ⟨g, hg, hi⟩
            rcases List.mem_cons.mp hg with rfl | hg
            · exact hx hi
            · exact hlater ⟨g, hg, hi⟩
          rw [if_neg hx, if_neg hnone]

/-- The host map that is rebuilt is the one there was. -/
theorem setGuestRegsMappings_host {a : RegAlloc} (h : a.Consistent) (a' : RegAlloc) :
    (a'.setGuestRegsMappings a.guestRegsMapping).hostRegsMapping = a.hostRegsMapping := by
  funext i
  simp only [setGuestRegsMappings]
  rw [foldl_hosts h]
  · split
    · rfl
    · rename_i hnone
      cases hi : a.hostRegsMapping i with
      | none => rfl
      | some g => exact absurd ⟨g, List.mem_finRange g, (h.inverse g i).mpr hi⟩ hnone
  · intro hosts g i
    cases hm : a.guestRegsMapping g with
    | none => simp
    | some host =>
        cases host with
        | r2 => simp
        | pool j => simp [Function.update_apply, eq_comm]

/-! ## The whole relocation -/

/-- **Relocation is a parallel move**: from a consistent mapping and any injective desired one, with
the values of the registers that are not dirty in their slots, the code puts every register that is
wanted where it is wanted, stores what is dirty and not kept, and leaves the other slots and the
allocator as they were. -/
theorem relocation_law {depth : ℕ} (hdepth : 17 ≤ depth) {a : RegAlloc} (h : a.Consistent)
    {desired : GuestReg → Option PoolReg}
    (hinj : ∀ x y i, desired x = some i → desired y = some i → x = y) {dirty : GuestSet}
    (hdirty : ∀ g, dirty g = true → a.guestRegsMapping g ≠ none) (output : GuestSet)
    {m : HostState} (hslots : ∀ g, dirty g = false → m.slots g = a.guestValue m g) :
    ∃ code, a.relocateGuestRegs depth dirty output desired = some (a, code) ∧
      (∀ g i, desired g = some i → (m.exec code).regs (.pool i) = a.guestValue m g) ∧
      (∀ g, dirty g = true ∧ (desired g = none ∨ output g = false) →
        (m.exec code).slots g = a.guestValue m g) ∧
      ∀ g, ¬ (dirty g = true ∧ (desired g = none ∨ output g = false)) →
        (m.exec code).slots g = m.slots g := by
  obtain ⟨hcons, hfree, hthumb, hmap⟩ := dropSaved_spec (regsToSave dirty output desired) desired h
  obtain ⟨hregs₁, hslots₁⟩ := exec_saves a m (guestRegs (regsToSave dirty output desired)) m rfl
  -- the saves leave the registers as they are, so that the moves start with the guest's values
  have hstart : Moving (a.dropSaved (regsToSave dirty output desired) desired) desired
      (a.guestValue m) none (a.dropSaved (regsToSave dirty output desired) desired)
      (m.exec (a.saveActiveGuestRegs (regsToSave dirty output desired))) := by
    refine .start hcons fun g i hi => ?_
    have hmapped : a.guestRegsMapping g = some (.pool i) := by
      rcases hmap g with heq | ⟨-, hnone⟩
      · rw [← heq]
        exact hi
      · rw [hnone] at hi
        cases hi
    rw [saveActiveGuestRegs, hregs₁, guestValue, hmapped]
  obtain ⟨a', code, hswap, hslots₂, hmoving, hsettled⟩ :=
    swapLoop_spec hinj hdepth (List.finRange 16) hstart
  obtain ⟨hslots₃, hregs₃⟩ := exec_loads a' hinj (List.finRange 16)
    ((m.exec (a.saveActiveGuestRegs (regsToSave dirty output desired))).exec code)
  have hsaved : ∀ g, regsToSave dirty output desired g = true ↔
      dirty g = true ∧ (desired g = none ∨ output g = false) := by
    intro g
    cases hd : desired g <;> simp [regsToSave, hd]
  have hfinal : ∀ g, (m.exec (a.saveActiveGuestRegs (regsToSave dirty output desired))).slots g =
      if regsToSave dirty output desired g = true then a.guestValue m g else m.slots g := by
    intro g
    rw [saveActiveGuestRegs, hslots₁]
    by_cases hs : regsToSave dirty output desired g = true
    · have hmapped := hdirty g ((hsaved g).mp hs).1
      simp [guestRegs, hs, hmapped]
    · simp [guestRegs, hs]
  refine ⟨a.saveActiveGuestRegs (regsToSave dirty output desired) ++ code ++ a'.loadMissing desired,
    ?_, ?_, ?_, ?_⟩
  · simp only [relocateGuestRegs, hswap, Option.map_some, Option.some.injEq, Prod.mk.injEq, and_true]
    have hhost := setGuestRegsMappings_host h a'
    have hfree' := hmoving.freeRegs.trans hfree
    have hthumb' := hmoving.thumb.trans hthumb
    cases a
    cases a'
    simp only at hfree' hthumb'
    simp only [setGuestRegsMappings] at hhost ⊢
    simp [hfree', hthumb', hhost]
  · intro g i hg
    rw [HostState.exec_append, HostState.exec_append, loadMissing, hregs₃ g i hg]
    by_cases hactive : (a.dropSaved (regsToSave dirty output desired) desired).Active desired g
    · have hthere := hsettled g hactive (.inl (List.mem_finRange g)) i hg
      obtain ⟨j, hj, hvalue⟩ := hmoving.exists_pool hactive
      obtain rfl : i = j := by simpa [hthere] using hj
      rw [if_neg (by simp [hthere]), hvalue]
    · -- the register was not mapped: it is clean, and is loaded from its slot
      have hunmapped : a.guestRegsMapping g = none := by
        by_contra hmapped
        rcases hmap g with heq | ⟨hnone, -⟩
        · exact hactive ⟨by simp [hg], by rw [heq]; exact hmapped⟩
        · rw [hg] at hnone
          cases hnone
      have hclean : dirty g = false := by
        by_contra hd
        exact hdirty g (by simpa using hd) hunmapped
      have hlost : a'.guestRegsMapping g = none := by
        rw [hmoving.idle g hactive]
        rcases hmap g with heq | ⟨-, hnone⟩
        · rw [heq, hunmapped]
        · exact hnone
      rw [if_pos (by simp [hlost]), hslots₂, hfinal, if_neg, hslots g hclean]
      rw [hsaved, hclean]
      simp
  · intro g hg
    rw [HostState.exec_append, HostState.exec_append, loadMissing, hslots₃, hslots₂, hfinal,
      if_pos ((hsaved g).mpr hg)]
  · intro g hg
    rw [HostState.exec_append, HostState.exec_append, loadMissing, hslots₃, hslots₂, hfinal,
      if_neg fun hs => hg ((hsaved g).mp hs)]

/-- Two registers that want to trade places. -/
def traded (g : GuestReg) : Option PoolReg :=
  if g.val = 0 then some ⟨1, by decide⟩ else if g.val = 1 then some ⟨0, by decide⟩ else none

/-- They do, through r2. -/
theorem relocation_law_traded :
    ∃ code, ((new false).reserveGuestRegs (fun g => g.val ≤ 1) true).1.relocateGuestRegs 17
        (fun _ => false) (fun _ => true) traded =
          some (((new false).reserveGuestRegs (fun g => g.val ≤ 1) true).1, code) ∧
      ∀ g i, traded g = some i → (HostState.exec
        ⟨fun h => if h = .pool ⟨0, by decide⟩ then 5 else 9, fun g => if g.val = 0 then 5 else 9⟩
        code).regs (.pool i) = if g.val = 0 then 5 else 9 := by
  have hreachable : Reachable false ((new false).reserveGuestRegs (fun g => g.val ≤ 1) true).1 :=
    .reserve (fun g => g.val ≤ 1) true
  obtain ⟨code, hcode, hregs, -, -⟩ := @relocation_law 17 (le_refl 17) _
    hreachable.valid.1.toConsistent traded (by decide) (fun _ => false) (by decide) (fun _ => true)
    ⟨fun h => if h = .pool ⟨0, by decide⟩ then 5 else 9, fun g => if g.val = 0 then 5 else 9⟩
    (by decide)
  have hvalue : ∀ g i, traded g = some i → guestValue
      ((new false).reserveGuestRegs (fun g => g.val ≤ 1) true).1
      ⟨fun h => if h = .pool ⟨0, by decide⟩ then 5 else 9, fun g => if g.val = 0 then 5 else 9⟩ g =
        if g.val = 0 then 5 else 9 := by decide
  exact ⟨code, hcode, fun g i hg => (hregs g i hg).trans (hvalue g i hg)⟩

end RegAlloc

end AdvancedSlop
