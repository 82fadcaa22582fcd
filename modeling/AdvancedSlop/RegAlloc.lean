/-
# The register allocator

`src/jit/assembler/arm32/reg_alloc.rs`: the compiler keeps registers of the guest file in eight host
registers, r4 to r11.  In thumb mode the low guest registers live in the low four of them and the
high ones in the others.

* `RegAlloc` : the two maps and the free host registers;
* `HostInst`, `HostState` : the instructions the allocator emits and what they do;
* `reserveGuestRegs`, `allocGuestRegs` : reservation and allocation with eviction;
* `relocateGuestRegs` : the moves in front of a jump to a block with another mapping.
-/
import Mathlib.Tactic

namespace AdvancedSlop

/-! ## Registers and code -/

/-- A register of the guest file. -/
abbrev GuestReg := Fin 16

/-- A host register of `GUEST_REG_ALLOCATIONS`, from r4 on. -/
abbrev PoolReg := Fin 8

/-- The host registers the allocator uses. -/
inductive HostReg
  | r2
  | pool (i : PoolReg)
  deriving DecidableEq, Repr

/-- A set of guest registers. -/
abbrev GuestSet := GuestReg → Bool

/-- `is_low` of a guest register. -/
def guestLow (g : GuestReg) : Bool := g.val ≤ 7

/-- `is_low` of a host register. -/
def poolLow (i : PoolReg) : Bool := i.val + 4 ≤ 7

/-- The guest register is the program counter. -/
def isPc (g : GuestReg) : Bool := g.val = 15

/-- The members of a set, as it is iterated over. -/
def guestRegs (s : GuestSet) : List GuestReg := (List.finRange 16).filter s

/-- The emitted instructions. -/
inductive HostInst
  /-- Load a host register from the slot of a guest register. -/
  | ldr (dest : HostReg) (slot : GuestReg)
  | str (src : HostReg) (slot : GuestReg)
  | mov (dest src : HostReg)
  deriving DecidableEq, Repr

/-- The register an instruction writes. -/
def HostInst.dest : HostInst → Option HostReg
  | ldr dest _ => some dest
  | str _ _ => none
  | mov dest _ => some dest

/-- The host registers and the slots of the guest file. -/
structure HostState where
  regs : HostReg → BitVec 32
  slots : GuestReg → BitVec 32

/-- Execute an instruction. -/
def HostState.step (m : HostState) : HostInst → HostState
  | .ldr dest slot => { m with regs := Function.update m.regs dest (m.slots slot) }
  | .str src slot => { m with slots := Function.update m.slots slot (m.regs src) }
  | .mov dest src => { m with regs := Function.update m.regs dest (m.regs src) }

/-- Execute some instructions. -/
def HostState.exec (m : HostState) (code : List HostInst) : HostState := code.foldl HostState.step m

/-! ## The allocator -/

/-- `RegAlloc`. -/
structure RegAlloc where
  freeRegs : PoolReg → Bool
  guestRegsMapping : GuestReg → Option HostReg
  hostRegsMapping : PoolReg → Option GuestReg
  thumb : Bool

/-- What a set of registers has to be loaded with. -/
def restoreGuestReg (isInput : Bool) (g : GuestReg) (dest : HostReg) : List HostInst :=
  if isInput ∧ isPc g = false then [.ldr dest g] else []

namespace RegAlloc

/-- `RegAlloc::new`. -/
def new (thumb : Bool) : RegAlloc := ⟨fun _ => true, fun _ => none, fun _ => none, thumb⟩

/-- `set_guest_regs_mappings`. -/
def setGuestRegsMappings (a : RegAlloc) (mapping : GuestReg → Option HostReg) : RegAlloc :=
  { a with
    guestRegsMapping := mapping
    hostRegsMapping := (List.finRange 16).foldl (fun hosts g =>
      match mapping g with
      | some (.pool i) => Function.update hosts i (some g)
      | _ => hosts) fun _ => none }

/-- `set_guest_reg_mapping`. -/
def setGuestRegMapping (a : RegAlloc) (g : GuestReg) (mapped : Option HostReg) : RegAlloc :=
  { a with
    guestRegsMapping := Function.update a.guestRegsMapping g mapped
    hostRegsMapping :=
      match mapped, a.guestRegsMapping g with
      | none, some (.pool i) => Function.update a.hostRegsMapping i none
      | some (.pool i), _ => Function.update a.hostRegsMapping i (some g)
      | _, _ => a.hostRegsMapping }

/-- The halves match. -/
def sameHalf (a : RegAlloc) (low low' : Bool) : Bool := !a.thumb || low == low'

/-- `alloc_free_guest_reg`. -/
def allocFreeGuestReg (a : RegAlloc) (g : GuestReg) (isInput : Bool) :
    Option (RegAlloc × List HostInst) :=
  ((List.finRange 8).find? fun i => a.freeRegs i && a.sameHalf (poolLow i) (guestLow g)).map
    fun i =>
      ({ a.setGuestRegMapping g (some (.pool i)) with
          freeRegs := Function.update a.freeRegs i false },
        restoreGuestReg isInput g (.pool i))

/-- The search for a register to evict. -/
def findEvicted (a : RegAlloc) (g : GuestReg) (kept : GuestSet) : Option (GuestReg × HostReg) :=
  (List.finRange 16).findSome? fun r =>
    match a.guestRegsMapping r with
    | some h => if !kept r && a.sameHalf (guestLow r) (guestLow g) then some (r, h) else none
    | none => none

/-- The host register of one guest register is given to another one. -/
def evict (a : RegAlloc) (g : GuestReg) (isInput : Bool) (dirty : GuestSet)
    (evicted : GuestReg × HostReg) : RegAlloc × List HostInst × List GuestReg :=
  ((a.setGuestRegMapping evicted.1 none).setGuestRegMapping g (some evicted.2),
    (if dirty evicted.1 then [.str evicted.2 evicted.1] else []) ++
      restoreGuestReg isInput g evicted.2,
    [evicted.1])

/-- `alloc_guest_reg`, with the code and the register that was evicted; none is its panic. -/
def allocGuestReg (a : RegAlloc) (g : GuestReg) (isInput : Bool) (used nextLive dirty : GuestSet) :
    Option (RegAlloc × List HostInst × List GuestReg) :=
  match a.allocFreeGuestReg g isInput with
  | some (a', code) => some (a', code, [])
  | none =>
      ((a.findEvicted g fun r => nextLive r || used r).or (a.findEvicted g used)).map
        (a.evict g isInput dirty)

/-- A loop of `alloc_guest_regs`. -/
def allocLoop (isInput : Bool) (used nextLive dirty : GuestSet) :
    List GuestReg → RegAlloc → Option (RegAlloc × List HostInst × List GuestReg)
  | [], a => some (a, [], [])
  | g :: gs, a =>
      if a.guestRegsMapping g = none then
        (a.allocGuestReg g isInput used nextLive dirty).bind fun r =>
          (allocLoop isInput used nextLive dirty gs r.1).map fun r' =>
            (r'.1, r.2.1 ++ r'.2.1, r.2.2 ++ r'.2.2)
      else allocLoop isInput used nextLive dirty gs a

end RegAlloc

/-- What an instruction asks for. -/
structure AllocRequest where
  inputRegs : GuestSet
  outputRegs : GuestSet
  nextLiveRegs : GuestSet
  dirtyGuestRegs : GuestSet

/-- `used_regs`. -/
def AllocRequest.usedRegs (req : AllocRequest) : GuestSet := fun g =>
  req.inputRegs g || req.outputRegs g

namespace RegAlloc

/-- `alloc_guest_regs`. -/
def allocGuestRegs (a : RegAlloc) (req : AllocRequest) :
    Option (RegAlloc × List HostInst × List GuestReg) :=
  (allocLoop true req.usedRegs req.nextLiveRegs req.dirtyGuestRegs (guestRegs req.inputRegs) a).bind
    fun r =>
      (allocLoop false req.usedRegs req.nextLiveRegs req.dirtyGuestRegs (guestRegs req.outputRegs)
        r.1).map fun r' => (r'.1, r.2.1 ++ r'.2.1, r.2.2 ++ r'.2.2)

/-- The loop of `reserve_guest_regs`. -/
def reserveLoop (restore : Bool) :
    List GuestReg → RegAlloc → RegAlloc × List HostInst × List GuestReg
  | [], a => (a, [], [])
  | g :: gs, a =>
      match a.allocFreeGuestReg g restore with
      | some (a', code) =>
          let r := reserveLoop restore gs a'
          (r.1, code ++ r.2.1, g :: r.2.2)
      | none => reserveLoop restore gs a

/-- `reserve_guest_regs`. -/
def reserveGuestRegs (a : RegAlloc) (regs : GuestSet) (restore : Bool) :
    RegAlloc × List HostInst × List GuestReg :=
  reserveLoop restore (guestRegs regs) a

/-! ## Relocation -/

/-- `save_active_guest_regs`. -/
def saveActiveGuestRegs (a : RegAlloc) (regs : GuestSet) : List HostInst :=
  (guestRegs regs).filterMap fun g => (a.guestRegsMapping g).map fun h => .str h g

/-- `swap_guest_regs`, to a depth. -/
def swapGuestRegs (desired : GuestReg → Option PoolReg) (root : GuestReg) :
    ℕ → RegAlloc → GuestReg → PoolReg → Option (RegAlloc × List HostInst)
  | 0, _, _, _ => none
  | depth + 1, a, g, goal =>
      if a.guestRegsMapping g = some (.pool goal) then some (a, [])
      else
        let next : Option (RegAlloc × List HostInst) :=
          match a.hostRegsMapping goal with
          | none => some (a, [])
          | some user =>
              if root = user then
                some ({ a with guestRegsMapping :=
                          Function.update a.guestRegsMapping user (some .r2) },
                  [.mov .r2 (.pool goal)])
              else
                match desired user with
                | some next => swapGuestRegs desired root depth a user next
                | none => some (a, [])
        next.bind fun r => (r.1.guestRegsMapping g).map fun current =>
          (r.1.setGuestRegMapping g (some (.pool goal)), r.2 ++ [.mov (.pool goal) current])

/-- The loop over the registers to move. -/
def swapLoop (desired : GuestReg → Option PoolReg) (depth : ℕ) :
    List GuestReg → RegAlloc → Option (RegAlloc × List HostInst)
  | [], a => some (a, [])
  | g :: gs, a =>
      match a.guestRegsMapping g, desired g with
      | some current, some goal =>
          if current ≠ .pool goal then
            (swapGuestRegs desired g depth a g goal).bind fun r =>
              (swapLoop desired depth gs r.1).map fun r' => (r'.1, r.2 ++ r'.2)
          else swapLoop desired depth gs a
      | _, _ => swapLoop desired depth gs a

/-- `regs_to_save`. -/
def regsToSave (dirty output : GuestSet) (desired : GuestReg → Option PoolReg) : GuestSet := fun g =>
  dirty g && !((desired g).isSome && output g)

/-- The registers that go to memory for good lose their host registers. -/
def dropSaved (saved : GuestSet) (desired : GuestReg → Option PoolReg) (a : RegAlloc) : RegAlloc :=
  (guestRegs saved).foldl (fun a g =>
    if desired g = none ∧ a.guestRegsMapping g ≠ none then a.setGuestRegMapping g none else a) a

/-- The load of a register that is not where it is wanted. -/
def missingLoad (desired : GuestReg → Option PoolReg) (a : RegAlloc) (g : GuestReg) :
    Option HostInst :=
  match desired g with
  | some goal => if a.guestRegsMapping g ≠ some (.pool goal) then some (.ldr (.pool goal) g) else none
  | none => none

/-- The loads at the end. -/
def loadMissing (desired : GuestReg → Option PoolReg) (a : RegAlloc) : List HostInst :=
  (List.finRange 16).filterMap (a.missingLoad desired)

/-- `relocate_guest_regs`. -/
def relocateGuestRegs (depth : ℕ) (a : RegAlloc) (dirty output : GuestSet)
    (desired : GuestReg → Option PoolReg) : Option (RegAlloc × List HostInst) :=
  let saved := regsToSave dirty output desired
  (swapLoop desired depth (List.finRange 16) (a.dropSaved saved desired)).map fun r =>
    (r.1.setGuestRegsMappings a.guestRegsMapping,
      a.saveActiveGuestRegs saved ++ r.2 ++ r.1.loadMissing desired)

end RegAlloc

end AdvancedSlop
