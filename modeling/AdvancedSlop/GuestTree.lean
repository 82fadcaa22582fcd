/-
# Instructions as read trees

What the instructions of a straight run do to the registers, with the locations they look at.

* `Loc` : registers, flags, and the registers of the user bank; `ThreadRegs.view` : their values;
* `DataInst.tree` : data processing, and `GuestInst.tree` : the handlers that a loop without stores
  and branches can reach;
* `aluFn_tree`, `thumbAlu_tree`, `ldr_tree`, `ldrh_tree`, `ldm_tree` : they are the handlers.
-/
import AdvancedSlop.ReadTree
import AdvancedSlop.CycleParity

namespace AdvancedSlop

open WordArith

attribute [local instance] neZero_regs

/-! ## Locations -/

/-- The names of the flags. -/
inductive Flag
  | n | z | c | v
  deriving DecidableEq, Repr

namespace Flags

/-- A flag by its name. -/
def get (f : Flags) : Flag → Bool
  | .n => f.n
  | .z => f.z
  | .c => f.c
  | .v => f.v

/-- The flags with another value of one. -/
def set (f : Flags) (i : Flag) (b : Bool) : Flags :=
  match i with
  | .n => { f with n := b }
  | .z => { f with z := b }
  | .c => { f with c := b }
  | .v => { f with v := b }

theorem get_set_self (f : Flags) (i : Flag) (b : Bool) : (f.set i b).get i = b := by
  cases i <;> rfl

theorem get_set_of_ne (f : Flags) {i j : Flag} (h : j ≠ i) (b : Bool) :
    (f.set i b).get j = f.get j := by
  cases i <;> cases j <;> first | rfl | exact absurd rfl h

end Flags

/-- A register, a flag, or a register of the user bank behind that of the mode. -/
inductive Loc
  | reg (i : Fin 16)
  | flag (i : Flag)
  | usr (i : {i : Fin 16 // ThreadRegs.Banked True i})
  deriving DecidableEq

/-- The values of a location. -/
abbrev Loc.Val : Loc → Type
  | reg _ | usr _ => BitVec 32
  | flag _ => Bool

/-- A load of the guest. -/
inductive Load
  | byte (addr : BitVec 32)
  | half (addr : BitVec 32)
  | word (addr : BitVec 32)
  | words (addr : BitVec 32) (count : ℕ)
  deriving DecidableEq, Repr

/-- What a load comes back with. -/
abbrev Load.Val : Load → Type
  | byte _ => BitVec 8
  | half _ => BitVec 16
  | word _ => BitVec 32
  | words _ count => Fin count → BitVec 32

/-- The memory, as it is read. -/
abbrev Reader := ∀ a : Load, a.Val

/-- The values an instruction writes. -/
abbrev LocWrites := ReadTree.Writes Loc.Val

/-- An instruction: what it writes, unless it hands control on. -/
abbrev InstTree := ReadTree Loc.Val Load.Val (Option LocWrites)

namespace ThreadRegs

/-- The values of the locations. -/
def view (regs : ThreadRegs) : ∀ l : Loc, l.Val
  | .reg i => regs.getReg i
  | .flag i => (Flags.of regs.cpsr).get i
  | .usr i => regs.getRegUsr i

/-- One flag of the status register. -/
def setFlag (regs : ThreadRegs) (i : Flag) (b : Bool) : ThreadRegs :=
  { regs with cpsr := ((Flags.of regs.cpsr).set i b).put regs.cpsr }

/-- A value of a location. -/
def put (regs : ThreadRegs) : (Σ l : Loc, l.Val) → ThreadRegs
  | ⟨.reg i, x⟩ => regs.setReg i x
  | ⟨.flag i, x⟩ => regs.setFlag i x
  | ⟨.usr i, x⟩ => regs.setRegUsr i x

/-- The values an instruction writes. -/
def putAll (regs : ThreadRegs) (ws : LocWrites) : ThreadRegs := ws.foldl put regs

theorem putAll_append (regs : ThreadRegs) (ws ws' : LocWrites) :
    regs.putAll (ws ++ ws') = (regs.putAll ws).putAll ws' := List.foldl_append

/-- What the locations leave out: the mode and the state, the saved status register, the interrupt
registers and the banks of the other modes. -/
def SameRest (regs regs' : ThreadRegs) : Prop :=
  SameLow regs.cpsr regs'.cpsr ∧ regs'.spsr = regs.spsr ∧ regs'.ime = regs.ime ∧
    regs'.ie = regs.ie ∧ regs'.irf = regs.irf ∧ regs'.fiq = regs.fiq ∧ regs'.svc = regs.svc ∧
    regs'.abt = regs.abt ∧ regs'.irq = regs.irq ∧ regs'.und = regs.und

variable {regs regs' : ThreadRegs}

theorem banked_bounds {i : Fin 16} (h : Banked True i) : 8 ≤ i.val ∧ i ≠ 15 := by
  rcases h with rfl | rfl | ⟨-, hge, hlt⟩
  · exact ⟨by decide, by decide⟩
  · exact ⟨by decide, by decide⟩
  · refine ⟨hge, fun h15 => ?_⟩
    rw [h15] at hlt
    exact absurd hlt (by decide)

theorem view_flag (i : Flag) : regs.view (.flag i) = (Flags.of regs.cpsr).get i := rfl

/-- **A value is written** to its location, and to no other. -/
theorem view_put (regs : ThreadRegs) (w : Σ l : Loc, l.Val) :
    (regs.put w).view = Function.update regs.view w.1 w.2 := by
  obtain ⟨l, x⟩ := w
  funext l'
  by_cases h : l' = l
  · subst h
    rw [Function.update_self]
    cases l' with
    | reg i => exact getReg_setReg_self regs i x
    | flag i =>
        exact (congrArg (fun f => f.get i) (Flags.of_put _ _)).trans (Flags.get_set_self _ i x)
    | usr i => exact getRegUsr_setRegUsr_self regs i x
  · rw [Function.update_of_ne h]
    cases l with
    | reg i =>
        cases l' with
        | reg j => exact getReg_setReg_of_ne (fun hij => h (congrArg _ hij)) regs x
        | flag j => exact congrArg (fun c => (Flags.of c).get j) setReg_cpsr
        | usr j => exact getRegUsr_setReg (banked_bounds j.2).1 (banked_bounds j.2).2
    | flag i =>
        cases l' with
        | reg j => rfl
        | flag j =>
            have hij : j ≠ i := fun hij => h (congrArg _ hij)
            exact (congrArg (fun f => f.get j) (Flags.of_put _ _)).trans
              (Flags.get_set_of_ne _ hij x)
        | usr j => rfl
    | usr i =>
        cases l' with
        | reg j => exact getReg_setRegUsr (banked_bounds i.2).1 (banked_bounds i.2).2
        | flag j => exact congrArg (fun c => (Flags.of c).get j) setRegUsr_cpsr
        | usr j =>
            have hij : j.val ≠ i.val := fun hij => h (congrArg _ (Subtype.ext hij))
            exact getRegUsr_setRegUsr_of_ne hij regs x

theorem view_putAll (regs : ThreadRegs) (ws : LocWrites) :
    (regs.putAll ws).view = ReadTree.update regs.view ws := by
  induction ws generalizing regs with
  | nil => rfl
  | cons w ws ih =>
      show ((regs.put w).putAll ws).view = ReadTree.update (Function.update regs.view w.1 w.2) ws
      rw [ih, view_put]

/-! ### What the locations leave out -/

theorem SameRest.refl (regs : ThreadRegs) : SameRest regs regs :=
  ⟨rfl, rfl, rfl, rfl, rfl, rfl, rfl, rfl, rfl, rfl⟩

theorem SameRest.trans {regs'' : ThreadRegs} (h : SameRest regs regs')
    (h' : SameRest regs' regs'') : SameRest regs regs'' := by
  obtain ⟨h1, h2, h3, h4, h5, h6, h7, h8, h9, h10⟩ := h
  obtain ⟨k1, k2, k3, k4, k5, k6, k7, k8, k9, k10⟩ := h'
  exact ⟨k1.trans h1, k2.trans h2, k3.trans h3, k4.trans h4, k5.trans h5, k6.trans h6, k7.trans h7,
    k8.trans h8, k9.trans h9, k10.trans h10⟩

theorem setReg_sameRest (regs : ThreadRegs) (i : Fin 16) (value : BitVec 32) :
    SameRest regs (regs.setReg i value) := by
  obtain ⟨h1, h2, h3, h4, h5, -, h7, h8, h9, h10, h11⟩ := regs.setReg_sameBanks i value
  exact ⟨congrArg (BitVec.setWidth 28) h1, h2, h3, h4, h5, h7, h8, h9, h10, h11⟩

theorem put_sameRest (regs : ThreadRegs) (w : Σ l : Loc, l.Val) : SameRest regs (regs.put w) := by
  obtain ⟨l, x⟩ := w
  cases l with
  | reg i => exact setReg_sameRest regs i x
  | flag i => exact ⟨Flags.put_low _ _, rfl, rfl, rfl, rfl, rfl, rfl, rfl, rfl, rfl⟩
  | usr i =>
      show SameRest regs (regs.setRegUsr i x)
      unfold setRegUsr
      split_ifs
      · exact SameRest.refl regs
      · exact SameRest.refl regs
      · exact SameRest.refl regs
      · exact setReg_sameRest regs i x

theorem putAll_sameRest (regs : ThreadRegs) (ws : LocWrites) : SameRest regs (regs.putAll ws) := by
  induction ws generalizing regs with
  | nil => exact SameRest.refl regs
  | cons w ws ih => exact (put_sameRest regs w).trans (ih (regs.put w))

theorem SameRest.isUser_eq (h : SameRest regs regs') : regs'.isUser = regs.isUser := by
  rw [isUser, isUser, cpsrMode_of_low h.1]

theorem SameRest.isFiq_eq (h : SameRest regs regs') : regs'.isFiq = regs.isFiq := by
  rw [isFiq, isFiq, cpsrMode_of_low h.1]

/-- **A register file** is the values of its locations and what they leave out. -/
theorem ext_view (hview : regs'.view = regs.view) (hrest : SameRest regs regs') : regs' = regs := by
  obtain ⟨h1, h2, h3, h4, h5, h6, h7, h8, h9, h10⟩ := hrest
  have hflag (i : Flag) : (Flags.of regs'.cpsr).get i = (Flags.of regs.cpsr).get i :=
    congrFun hview (.flag i)
  have hflags : Flags.of regs'.cpsr = Flags.of regs.cpsr :=
    Flags.ext (hflag .n) (hflag .z) (hflag .c) (hflag .v)
  have hcpsr : regs'.cpsr = regs.cpsr := by
    rw [Flags.eq_put h1 hflags, Flags.put_of]
  have husr (i : Fin 16) (hi : Banked True i) : regs'.getRegUsr i = regs.getRegUsr i :=
    congrFun hview (.usr ⟨i, hi⟩)
  have huser : regs'.user = regs.user := by
    have hgp : regs'.user.gpRegs = regs.user.gpRegs := by
      funext k
      have hk := k.isLt
      have hhigh : 8 ≤ (⟨k + 8, by omega⟩ : Fin 16).val ∧ (⟨k + 8, by omega⟩ : Fin 16).val < 13 :=
        ⟨by simp, by simp; omega⟩
      have h := husr ⟨k + 8, by omega⟩ (.inr (.inr ⟨trivial, hhigh⟩))
      rw [getRegUsr, getRegUsr, dif_pos hhigh, dif_pos hhigh] at h
      simpa using h
    have hsp : regs'.user.sp = regs.user.sp := husr 13 (.inl rfl)
    have hlr : regs'.user.lr = regs.user.lr := husr 14 (.inr (.inl rfl))
    cases hu : regs'.user
    cases hu' : regs.user
    rw [hu, hu'] at hgp hsp hlr
    simp only at hgp hsp hlr
    rw [hgp, hsp, hlr]
  exact ext_reg (fun i => congrFun hview (.reg i))
    ⟨hcpsr, h2, h3, h4, h5, huser, h6, h7, h8, h9, h10⟩

end ThreadRegs

/-! ## Data processing -/

section Trees

variable {R : Type} (pc : BitVec 32)

/-- A read of a register, with the value the pc reads as. -/
def readTree (i : Fin 16) (next : BitVec 32 → ReadTree Loc.Val Load.Val R) :
    ReadTree Loc.Val Load.Val R :=
  if i = 15 then next pc else .read (.reg i) next

/-- A condition. -/
def Cond.tree (cond : Cond) (next : Bool → ReadTree Loc.Val Load.Val R) :
    ReadTree Loc.Val Load.Val R :=
  match cond with
  | .eq => .read (.flag .z) fun z => next z
  | .ne => .read (.flag .z) fun z => next !z
  | .hs => .read (.flag .c) fun c => next c
  | .lo => .read (.flag .c) fun c => next !c
  | .mi => .read (.flag .n) fun n => next n
  | .pl => .read (.flag .n) fun n => next !n
  | .vs => .read (.flag .v) fun v => next v
  | .vc => .read (.flag .v) fun v => next !v
  | .hi => .read (.flag .c) fun c => .read (.flag .z) fun z => next (c && !z)
  | .ls => .read (.flag .c) fun c => .read (.flag .z) fun z => next (!c || z)
  | .ge => .read (.flag .n) fun n => .read (.flag .v) fun v => next (n == v)
  | .lt => .read (.flag .n) fun n => .read (.flag .v) fun v => next (n != v)
  | .gt => .read (.flag .z) fun z => .read (.flag .n) fun n => .read (.flag .v) fun v =>
      next (!z && n == v)
  | .le => .read (.flag .z) fun z => .read (.flag .n) fun n => .read (.flag .v) fun v =>
      next (z || n != v)
  | .al => next true
  | .nv => next false

/-- A second operand, with the carry of the shifter where it is not that of the flags. -/
def Operand2.tree (operand : Operand2)
    (next : BitVec 32 → Option Bool → ReadTree Loc.Val Load.Val R) :
    ReadTree Loc.Val Load.Val R :=
  match operand with
  | .imm value rotate =>
      let r := rorCarry (value.setWidth 32) (2 * rotate.toNat) false
      next r.1 (if rotate = 0 then none else some r.2)
  | .shiftImm rm kind amount =>
      readTree pc rm fun x =>
        if kind = .lsl ∧ amount = 0 then next x none
        else if kind = .ror ∧ amount = 0 then
          .read (.flag .c) fun c => next (rrxCarry x c).1 (some (rrxCarry x c).2)
        else
          let r := kind.byImm x amount.toNat false
          next r.1 (some r.2)
  | .shiftReg rm kind rs =>
      readTree (pc + 4) rm fun x =>
        readTree pc rs fun s =>
          let r := kind.byReg x (s.toNat % 256) false
          next r.1 (if s.toNat % 256 = 0 then none else some r.2)

end Trees

namespace DataOp

/-- The first operand is used. -/
def usesFirst : DataOp → Bool
  | mov | mvn => false
  | _ => true

/-- The carry is used. -/
def usesCarry : DataOp → Bool
  | adc | sbc | rsc => true
  | _ => false

/-- The carry is that of the shifter, and the overflow is left alone. -/
def isLogical : DataOp → Bool
  | and | eor | tst | teq | orr | mov | bic | mvn => true
  | _ => false

/-- The flags an operation writes. -/
def flagWrites (op : DataOp) (r : BitVec 32 × Bool × Bool) (shiftCarry : Option Bool) :
    LocWrites :=
  let carry : LocWrites :=
    if op.isLogical then (shiftCarry.map fun c => ⟨.flag .c, c⟩).toList
    else [⟨.flag .c, r.2.1⟩, ⟨.flag .v, r.2.2⟩]
  ⟨.flag .n, r.1.msb⟩ :: ⟨.flag .z, r.1 == 0⟩ :: carry

end DataOp

/-- The writes of an instruction of data processing with the pc as destination hand control on, or
leave the mode. -/
def DataInst.leaves (inst : DataInst) (user : Bool) : Bool :=
  inst.rd = 15 && (!inst.op.isTest || inst.s && !user)

/-- The first operand and the carry, where the operation uses them. -/
def DataInst.firstTree (inst : DataInst) (pc : BitVec 32) (next : BitVec 32 → Bool → InstTree) :
    InstTree :=
  let withCarry (a : BitVec 32) : InstTree :=
    if inst.op.usesCarry then .read (.flag .c) fun c => next a c else next a false
  if inst.op.usesFirst then readTree (pc + inst.operand.pcAhead) inst.rn withCarry
  else withCarry 0

/-- What an instruction of data processing writes. -/
def DataInst.writes (inst : DataInst) (user : Bool) (a b : BitVec 32) (c : Bool)
    (shiftCarry : Option Bool) : Option LocWrites :=
  let r := inst.op.eval a b (shiftCarry.getD false) ⟨false, false, c, false⟩
  if inst.leaves user then none
  else some ((if inst.s then inst.op.flagWrites r shiftCarry else []) ++
    if inst.op.isTest then [] else [⟨.reg inst.rd, r.1⟩])

/-- **An instruction of data processing.** -/
def DataInst.tree (inst : DataInst) (user : Bool) (pc : BitVec 32) : InstTree :=
  inst.operand.tree pc fun b shiftCarry =>
    inst.firstTree pc fun a c => .done (inst.writes user a b c shiftCarry)

/-! ### What the trees come to -/

section Out

variable {R : Type} (pc : BitVec 32) (regs : ThreadRegs) (m : Reader)

@[simp] theorem out_readTree (i : Fin 16) (next : BitVec 32 → ReadTree Loc.Val Load.Val R) :
    (readTree pc i next).out regs.view m = (next (readReg pc regs i)).out regs.view m := by
  unfold readTree readReg
  split_ifs <;> rfl

@[simp] theorem out_condTree (cond : Cond) (next : Bool → ReadTree Loc.Val Load.Val R) :
    (cond.tree next).out regs.view m = (next (cond.holds regs.cpsr)).out regs.view m := by
  cases cond <;> rfl

/-- A shift that is none leaves operand and carry alone. -/
theorem byReg_zero (kind : ShiftKind) (x : BitVec 32) (carry : Bool) :
    kind.byReg x 0 carry = (x, carry) := by
  cases kind
  · exact Prod.ext ((lslCarry_fst x 0 carry).trans (BitVec.shiftLeft_zero x)) rfl
  · exact Prod.ext ((lsrCarry_fst x 0 carry).trans (BitVec.ushiftRight_zero x)) rfl
  · exact Prod.ext ((asrCarry_fst x 0 carry).trans BitVec.sshiftRight_zero) rfl
  · exact Prod.ext (rotateRight_zero x) rfl

/-- Another one does not look at the carry. -/
theorem byReg_carry (kind : ShiftKind) (x : BitVec 32) {n : ℕ} (hn : n ≠ 0) (carry : Bool) :
    kind.byReg x n carry = kind.byReg x n false := by
  cases kind <;> simp only [ShiftKind.byReg, lslCarry, lsrCarry, asrCarry, rorCarry, if_neg hn]

theorem byImm_carry {kind : ShiftKind} (x : BitVec 32) {n : ℕ}
    (hlsl : ¬ (kind = .lsl ∧ n = 0)) (hror : ¬ (kind = .ror ∧ n = 0)) (carry : Bool) :
    kind.byImm x n carry = kind.byImm x n false := by
  by_cases hn : n = 0
  · subst hn
    cases kind with
    | lsl => exact absurd ⟨rfl, rfl⟩ hlsl
    | ror => exact absurd ⟨rfl, rfl⟩ hror
    | lsr => rfl
    | asr => rfl
  · cases kind <;>
      simp only [ShiftKind.byImm, lslCarry, lsrCarry, asrCarry, rorCarry, if_neg hn]

/-- **An operand** is what the architecture says; its carry is that of the flags where the tree
names none. -/
theorem out_operandTree (operand : Operand2)
    (next : BitVec 32 → Option Bool → ReadTree Loc.Val Load.Val R) :
    ∃ carry : Option Bool,
      (operand.tree pc next).out regs.view m =
        (next (operand.value pc regs).1 carry).out regs.view m ∧
      carry.getD (Flags.of regs.cpsr).c = (operand.value pc regs).2 := by
  generalize hc : (Flags.of regs.cpsr).c = c
  cases operand with
  | imm value rotate =>
      refine ⟨_, rfl, ?_⟩
      simp only [Operand2.value, rorCarry, hc]
      by_cases hrot : rotate = 0
      · rw [if_pos hrot, hrot]
        rfl
      · have hne : ¬ 2 * rotate.toNat = 0 := by
          intro h
          exact hrot (BitVec.eq_of_toNat_eq (by simpa using h))
        rw [if_neg hrot, if_neg hne, if_neg hne]
        rfl
  | shiftImm rm kind amount =>
      simp only [Operand2.tree, out_readTree, Operand2.value, hc]
      have hamount : amount.toNat = 0 ↔ amount = 0 :=
        ⟨fun h => BitVec.eq_of_toNat_eq h, fun h => by rw [h]; rfl⟩
      split_ifs with hlsl hror
      · obtain ⟨rfl, rfl⟩ := hlsl
        have hvalue : ShiftKind.lsl.byImm (readReg pc regs rm) (0 : BitVec 5).toNat c =
            (readReg pc regs rm, c) := byReg_zero .lsl _ c
        rw [hvalue]
        exact ⟨none, rfl, rfl⟩
      · obtain ⟨rfl, rfl⟩ := hror
        have hvalue : ShiftKind.ror.byImm (readReg pc regs rm) (0 : BitVec 5).toNat c =
            rrxCarry (readReg pc regs rm) c := rfl
        have hview : regs.view (.flag .c) = c := hc
        rw [hvalue, ReadTree.out_read, hview]
        exact ⟨_, rfl, rfl⟩
      · rw [byImm_carry _ (by rwa [hamount]) (by rwa [hamount]) c]
        exact ⟨_, rfl, rfl⟩
  | shiftReg rm kind rs =>
      simp only [Operand2.tree, out_readTree, Operand2.value, hc]
      by_cases hn : (readReg pc regs rs).toNat % 256 = 0
      · rw [if_pos hn, hn, byReg_zero, byReg_zero]
        exact ⟨none, rfl, rfl⟩
      · rw [if_neg hn, byReg_carry kind _ hn c]
        exact ⟨_, rfl, rfl⟩

/-- The flags of a logical operation. -/
theorem putAll_logical (x : BitVec 32) (carry : Option Bool) :
    regs.putAll (⟨.flag .n, x.msb⟩ :: ⟨.flag .z, x == 0⟩ ::
        (carry.map fun c => (⟨.flag .c, c⟩ : Σ l : Loc, l.Val)).toList) =
      { regs with cpsr := Flags.put ⟨x.msb, x == 0, carry.getD (Flags.of regs.cpsr).c,
        (Flags.of regs.cpsr).v⟩ regs.cpsr } := by
  cases carry <;>
    simp [ThreadRegs.putAll, ThreadRegs.put, ThreadRegs.setFlag, Flags.set]

/-- The flags of a sum. -/
theorem putAll_sum (r : BitVec 32 × Bool × Bool) :
    regs.putAll [⟨.flag .n, r.1.msb⟩, ⟨.flag .z, r.1 == 0⟩, ⟨.flag .c, r.2.1⟩,
        ⟨.flag .v, r.2.2⟩] =
      { regs with cpsr := resultFlags regs.cpsr r } := by
  simp [ThreadRegs.putAll, ThreadRegs.put, ThreadRegs.setFlag, Flags.set, resultFlags]

/-- A logical operation passes on the carry of the shifter. -/
theorem eval_logical {op : DataOp} (h : op.isLogical = true) (a b : BitVec 32) (carry : Bool)
    (f : Flags) : (op.eval a b carry f).2 = (carry, f.v) := by
  cases op <;> first | rfl | cases h

/-- Another operation does not look at it. -/
theorem eval_sum {op : DataOp} (h : op.isLogical = false) (a b : BitVec 32) (carry carry' : Bool)
    {f f' : Flags} (hc : op.usesCarry = true → f.c = f'.c) :
    op.eval a b carry f = op.eval a b carry' f' := by
  cases op <;> first | rfl | exact congrArg (addWithCarry _ _) (hc rfl) | cases h

/-- The result of an operation. -/
theorem eval_fst (op : DataOp) {a a' : BitVec 32} (b : BitVec 32) (carry carry' : Bool)
    {f f' : Flags} (ha : op.usesFirst = true → a = a') (hc : op.usesCarry = true → f.c = f'.c) :
    (op.eval a b carry f).1 = (op.eval a' b carry' f').1 := by
  have hfirst : (op.eval a b carry f).1 = (op.eval a' b carry f).1 := by
    cases hop : op.usesFirst with
    | true => rw [ha hop]
    | false => cases op <;> first | rfl | cases hop
  rw [hfirst]
  cases hlogical : op.isLogical with
  | false => rw [eval_sum hlogical a' b carry carry' hc]
  | true => cases op <;> first | rfl | cases hlogical

/-- **An operation** on what its tree reads: the result and the flags of the architecture. -/
theorem eval_tree (op : DataOp) {a a' b : BitVec 32} {c : Bool} (carry : Option Bool)
    (ha : op.usesFirst = true → a = a') (hc : op.usesCarry = true → c = (Flags.of regs.cpsr).c) :
    let r := op.eval a b (carry.getD false) ⟨false, false, c, false⟩
    let r' := op.eval a' b (carry.getD (Flags.of regs.cpsr).c) (Flags.of regs.cpsr)
    r.1 = r'.1 ∧ regs.putAll (op.flagWrites r carry) =
      { regs with cpsr := resultFlags regs.cpsr r' } := by
  intro r r'
  have hfst : r.1 = r'.1 := eval_fst op b _ _ ha hc
  refine ⟨hfst, ?_⟩
  unfold DataOp.flagWrites
  cases hlogical : op.isLogical with
  | true =>
      have hsnd : r'.2 = (carry.getD (Flags.of regs.cpsr).c, (Flags.of regs.cpsr).v) :=
        eval_logical hlogical _ _ _ _
      rw [hfst, resultFlags, hsnd]
      exact putAll_logical regs r'.1 carry
  | false =>
      have hfirst : op.usesFirst = true := by cases op <;> first | rfl | cases hlogical
      have hsame : r = r' := by
        show op.eval _ _ _ _ = op.eval _ _ _ _
        rw [ha hfirst]
        exact eval_sum hlogical _ _ _ _ hc
      rw [hsame]
      exact putAll_sum regs r'

/-- The first operand and the carry are those of the registers, where they count. -/
theorem out_firstTree (inst : DataInst) (next : BitVec 32 → Bool → InstTree) :
    ∃ a c, (inst.firstTree pc next).out regs.view m = (next a c).out regs.view m ∧
      (inst.op.usesFirst = true → a = readReg (pc + inst.operand.pcAhead) regs inst.rn) ∧
      (inst.op.usesCarry = true → c = (Flags.of regs.cpsr).c) := by
  unfold DataInst.firstTree
  cases inst.op.usesFirst <;> cases inst.op.usesCarry <;>
    simp only [Bool.false_eq_true, if_false, if_true, out_readTree, ReadTree.out_read]
  · exact ⟨_, _, rfl, False.elim, False.elim⟩
  · exact ⟨_, _, rfl, False.elim, fun _ => rfl⟩
  · exact ⟨_, _, rfl, fun _ => rfl, False.elim⟩
  · exact ⟨_, _, rfl, fun _ => rfl, fun _ => rfl⟩

/-- **Data processing**: unless the instruction leaves, the tree writes what it does. -/
theorem out_dataTree (inst : DataInst) :
    (inst.leaves regs.isUser = true ∧
        (inst.tree regs.isUser pc).out regs.view m = (none, [])) ∨
      inst.leaves regs.isUser = false ∧
        ∃ ws, (inst.tree regs.isUser pc).out regs.view m = (some ws, []) ∧
          inst.exec pc regs = (regs.putAll ws, none) := by
  unfold DataInst.tree
  obtain ⟨carry, hout, hcarry⟩ := out_operandTree pc regs m inst.operand
    fun b shiftCarry => inst.firstTree pc fun a c =>
      .done (inst.writes regs.isUser a b c shiftCarry)
  obtain ⟨a, c, hfirst, ha, hc⟩ := out_firstTree pc regs m inst
    fun a c => .done (inst.writes regs.isUser a (inst.operand.value pc regs).1 c carry)
  rw [hout, hfirst, ReadTree.out_done]
  cases hleaves : inst.leaves regs.isUser with
  | true =>
      refine .inl ⟨rfl, ?_⟩
      simp only [DataInst.writes, hleaves, if_true]
  | false =>
      refine .inr ⟨rfl, ?_⟩
      simp only [DataInst.writes, hleaves, Bool.false_eq_true, if_false]
      refine ⟨_, rfl, ?_⟩
      obtain ⟨hfst, hflags⟩ := eval_tree regs inst.op (b := (inst.operand.value pc regs).1) carry
        ha hc
      rw [hcarry] at hfst hflags
      have hresult : inst.result regs pc = inst.op.eval
          (readReg (pc + inst.operand.pcAhead) regs inst.rn) (inst.operand.value pc regs).1
          (inst.operand.value pc regs).2 (Flags.of regs.cpsr) := rfl
      rw [← hresult] at hfst hflags
      have hset : (if inst.s = false then regs
          else if inst.rd = 15 then
            ({ regs with cpsr := resultFlags regs.cpsr (inst.result regs pc) } :
              ThreadRegs).restoreSpsr
          else { regs with cpsr := resultFlags regs.cpsr (inst.result regs pc) }) =
          regs.putAll (if inst.s then inst.op.flagWrites (inst.op.eval a
            (inst.operand.value pc regs).1 (carry.getD false) ⟨false, false, c, false⟩) carry
            else []) := by
        cases hs : inst.s with
        | false => rfl
        | true =>
            rw [if_neg (Bool.noConfusion : ¬ true = false), if_pos rfl, hflags]
            by_cases hrd : inst.rd = 15
            · have huser : inst.op.isTest = true ∧ regs.isUser = true := by
                simpa [DataInst.leaves, hrd, hs] using hleaves
              have hsame : ({ regs with cpsr := resultFlags regs.cpsr (inst.result regs pc) } :
                  ThreadRegs).isUser = true := by
                rw [ThreadRegs.isUser, cpsrMode_of_low (resultFlags_low _ _)]
                exact huser.2
              rw [if_pos hrd, ThreadRegs.restoreSpsr, if_pos hsame]
            · rw [if_neg hrd]
      rw [DataInst.exec_eq, ThreadRegs.putAll_append, hset]
      cases htest : inst.op.isTest with
      | true => rfl
      | false =>
          have hrd : inst.rd ≠ 15 := fun hrd => by simp [DataInst.leaves, hrd, htest] at hleaves
          simp only [Bool.false_eq_true, if_false, if_neg hrd, ← hfst]
          rfl

end Out

/-! ## The other handlers of ARM -/

/-- The flags of a product. -/
def nzWrites {w : ℕ} (r : BitVec w) : LocWrites := [⟨.flag .n, r.msb⟩, ⟨.flag .z, r == 0⟩]

section Arm

variable (opcode instAddr : BitVec 32)

/-- A read through `Ctx::reg`. -/
def regTree (lsb : ℕ) (next : BitVec 32 → InstTree) : InstTree :=
  readTree (instAddr + 8) (opcodeReg opcode lsb) next

/-- `mul32!`. -/
def mul32Tree (s acc : Bool) : InstTree :=
  let finish (r : BitVec 32) : InstTree :=
    .done (some (⟨.reg (opcodeReg opcode 16), r⟩ :: if s then nzWrites r else []))
  regTree opcode instAddr 0 fun rm =>
    regTree opcode instAddr 8 fun rs =>
      if acc then regTree opcode instAddr 12 fun rn => finish (rm * rs + rn)
      else finish (rm * rs)

/-- `mul64!`. -/
def mul64Tree (s acc signed : Bool) : InstTree :=
  let finish (r : BitVec 64) : InstTree :=
    .done (some (⟨.reg (opcodeReg opcode 12), r.setWidth 32⟩ ::
      ⟨.reg (opcodeReg opcode 16), r.extractLsb' 32 32⟩ :: if s then nzWrites r else []))
  regTree opcode instAddr 0 fun rm =>
    regTree opcode instAddr 8 fun rs =>
      let r : BitVec 64 := if signed then rm.signExtend 64 * rs.signExtend 64
        else rm.setWidth 64 * rs.setWidth 64
      if acc then
        regTree opcode instAddr 12 fun lo =>
          regTree opcode instAddr 16 fun hi => finish (r + (hi ++ lo))
      else finish r

/-- `clz`. -/
def clzTree : InstTree :=
  regTree opcode instAddr 0 fun rm => .done (some [⟨.reg (opcodeRd opcode), rm.clz⟩])

/-- The offset of `ldr_str`, an immediate or `transfer_reg_offset`. -/
def offsetTree (offk : OffsetKind) (next : BitVec 32 → InstTree) : InstTree :=
  let amount := ((opcode >>> 7) &&& 0x1F).toNat
  match offk with
  | .imm => next (opcode &&& 0xFFF)
  | .lsl => regTree opcode instAddr 0 fun v => next (v <<< amount)
  | .lsr => regTree opcode instAddr 0 fun v => next (if amount = 0 then 0 else v >>> amount)
  | .asr => regTree opcode instAddr 0 fun v =>
      next (if amount = 0 then v.sshiftRight 31 else v.sshiftRight amount)
  | .ror => regTree opcode instAddr 0 fun v =>
      if amount = 0 then
        .read (.flag .c) fun c => next (((BitVec.ofBool c).setWidth 32 <<< 31) ||| (v >>> 1))
      else next (v.rotateRight amount)

/-- The end of a load of one register: the base is written first. -/
def loadFinish (addr : AddrMode) (offsetAddr value : BitVec 32) : InstTree :=
  .done (if opcodeRd opcode = 15 then none
    else some ((if addr = .offset then [] else [⟨.reg (opcodeReg opcode 16), offsetAddr⟩]) ++
      [⟨.reg (opcodeRd opcode), value⟩]))

/-- A load of `ldr_str`. -/
def ldrTree (l : SingleLoad) : InstTree :=
  regTree opcode instAddr 16 fun base =>
    offsetTree opcode instAddr l.offk fun offset =>
      let addrs := transferAddrs l.addr l.up base offset
      if l.byte then .load (.byte addrs.1) fun x => loadFinish opcode l.addr addrs.2 (x.setWidth 32)
      else .load (.word addrs.1) fun x =>
        loadFinish opcode l.addr addrs.2 (x.rotateRight (addrs.1.toNat % 4 * 8))

/-- The value of `ldrh_strh`: a misaligned signed half is a signed byte, a misaligned half is
rotated. -/
def halfValueTree (byte signed : Bool) (addr : BitVec 32) (next : BitVec 32 → InstTree) :
    InstTree :=
  if byte ∨ signed ∧ addr.toNat % 2 ≠ 0 then .load (.byte addr) fun x => next (x.signExtend 32)
  else if signed then .load (.half addr) fun x => next (x.signExtend 32)
  else .load (.half addr) fun x => next ((x.setWidth 32).rotateRight (addr.toNat % 2 * 8))

/-- The load of `ldrh_strh` from base and offset. -/
def ldrhLoad (l : HalfLoad) (base offset : BitVec 32) : InstTree :=
  let addrs := transferAddrs l.addr l.up base offset
  halfValueTree l.byte l.signed addrs.1 fun x => loadFinish opcode l.addr addrs.2 x

/-- A load of `ldrh_strh`. -/
def ldrhTree (l : HalfLoad) : InstTree :=
  regTree opcode instAddr 16 fun base =>
    if l.reg then regTree opcode instAddr 0 fun offset => ldrhLoad opcode l base offset
    else ldrhLoad opcode l base (((opcode >>> 4) &&& 0xF0) ||| (opcode &&& 0xF))

end Arm

/-- A loaded register: of the user bank, where the transfer goes through it. -/
def loadWrite (banked fiq : Bool) (loaded : Fin 16 × BitVec 32) : Σ l : Loc, l.Val :=
  if h : banked = true ∧ ThreadRegs.Banked (fiq = true) loaded.1 then
    ⟨.usr ⟨loaded.1, h.2.imp_right (Or.imp_right fun hfiq => ⟨trivial, hfiq.2⟩)⟩, loaded.2⟩
  else ⟨.reg loaded.1, loaded.2⟩

/-- A load of `ldm_stm`; with an empty list or the pc in it control is handed on. -/
def ldmTree (t : BlockTransfer) (user fiq : Bool) (instAddr : BitVec 32) : InstTree :=
  if t.regList = 0 ∨ t.regList.getLsbD 15 then .done none
  else
    readTree (instAddr + 8) t.rn fun base =>
      .load (.words (t.lowestAddr base) t.count) fun words =>
        .done (some ((t.regs.zip (List.ofFn words)).map (loadWrite (t.user && !user) fiq) ++
          if t.wb && !t.regList.getLsbD t.rn then [⟨.reg t.rn, t.finalBase base⟩] else []))

/-- **The handlers of ARM** that go on behind themselves.  Stores, swaps, transfers of the status
registers and the coprocessor, interrupts and branches are not among them. -/
def ArmFn.tree (fn : ArmFn) (user fiq : Bool) (opcode instAddr : BitVec 32) : InstTree :=
  match fn with
  | .alu f form =>
      (DataInst.ofClass opcode (f.dataOp, f.setFlags, form.operandClass)).tree user (instAddr + 8)
  | .mul32 s acc => mul32Tree opcode instAddr s acc
  | .mul64 s acc signed => mul64Tree opcode instAddr s acc signed
  | .clz => clzTree opcode instAddr
  | .ldrStr true byte addr up offk => ldrTree opcode instAddr ⟨byte, addr, up, offk⟩
  | .half .ldrh addr up reg => ldrhTree opcode instAddr ⟨false, false, addr, up, reg⟩
  | .half .ldrsb addr up reg => ldrhTree opcode instAddr ⟨true, true, addr, up, reg⟩
  | .half .ldrsh addr up reg => ldrhTree opcode instAddr ⟨false, true, addr, up, reg⟩
  | .ldmStm true pre up s wb =>
      ldmTree ⟨true, pre, up, s, wb, opcodeReg opcode 16, opcode.extractLsb' 0 16⟩ user fiq instAddr
  -- the operations of the next architecture do nothing
  | .smlaXy _ _ | .smlawY _ | .smulwY _ | .smlalXy _ _ | .smulXy _ _ | .qalu _ _
  | .half .ldrd _ _ _ | .half .strd _ _ _ => .done (some [])
  | _ => .done none

/-! ## The other handlers of Thumb -/

section Thumb

variable (opcode : BitVec 16) (instAddr : BitVec 32)

/-- A read of a low register. -/
def lowTree (lsb : ℕ) (next : BitVec 32 → InstTree) : InstTree :=
  readTree (instAddr + 4) (lowReg opcode lsb) next

/-- The load of a low register. -/
def ThumbTransfer.loadTree (t : ThumbTransfer) (rd : Fin 16) (addr : BitVec 32) : InstTree :=
  let finish (value : BitVec 32) : InstTree := .done (some [⟨.reg rd, value⟩])
  match t with
  | .ldr => .load (.word addr) fun x => finish (x.rotateRight (addr.toNat % 4 * 8))
  | .ldrb => .load (.byte addr) fun x => finish (x.setWidth 32)
  | .ldrh => halfValueTree false false addr finish
  | .ldrsb => halfValueTree true true addr finish
  | .ldrsh => halfValueTree false true addr finish
  | _ => .done none

/-- The registers of a list. -/
def listRegs (list : BitVec 8) : List (Fin 16) :=
  (List.finRange 16).filter fun i : Fin 16 => (list.setWidth 16).getLsbD i

/-- `pop_t`. -/
def popTree : InstTree :=
  let list := opcode.extractLsb' 0 8
  let count := listLen (list.setWidth 16)
  readTree (instAddr + 4) 13 fun sp =>
    .load (.words sp count) fun words =>
      .done (some (((listRegs list).zip (List.ofFn words)).map (loadWrite false false) ++
        [⟨.reg 13, sp + BitVec.ofNat 32 (count * 4)⟩]))

/-- `ldmia_t`: a loaded base wins over the written-back one; with an empty list control is handed
on. -/
def ldmiaTree : InstTree :=
  let list := opcode.extractLsb' 0 8
  let count := listLen (list.setWidth 16)
  if list = 0 then .done none
  else
    lowTree opcode instAddr 8 fun addr =>
      .load (.words addr count) fun words =>
        .done (some (⟨.reg (lowReg opcode 8), addr + BitVec.ofNat 32 (count * 4)⟩ ::
          ((listRegs list).zip (List.ofFn words)).map (loadWrite false false)))

/-- **The handlers of Thumb** that go on behind themselves, without the stores, the interrupts and
the conditional branches. -/
def ThumbFn.tree (fn : ThumbFn) (user : Bool) : InstTree :=
  match fn with
  | .alu t =>
      match t.armInst opcode with
      | .data inst => inst.tree user (t.readsPc instAddr)
      | .muls rd rm rs =>
          readTree (t.readsPc instAddr) rm fun x =>
            readTree (t.readsPc instAddr) rs fun y =>
              .done (some (nzWrites (x * y) ++ [⟨.reg rd, x * y⟩]))
  | .ldrPc =>
      let pc := (instAddr + 4) &&& ~~~3
      ThumbTransfer.ldr.loadTree (lowReg opcode 8)
        (pc + ((opcode.extractLsb' 0 8).setWidth 32 <<< 2))
  | .ldrSp => readTree (instAddr + 4) 13 fun sp =>
      ThumbTransfer.ldr.loadTree (lowReg opcode 8)
        (sp + ((opcode.extractLsb' 0 8).setWidth 32 <<< 2))
  | .reg t => lowTree opcode instAddr 3 fun base =>
      lowTree opcode instAddr 6 fun offset => t.loadTree (lowReg opcode 0) (base + offset)
  | .imm5 t => lowTree opcode instAddr 3 fun base =>
      t.loadTree (lowReg opcode 0)
        (base + ((opcode.extractLsb' 6 5).setWidth 32 <<< t.shape.2.toNat))
  | .pop => popTree opcode instAddr
  | .ldmia => ldmiaTree opcode instAddr
  | .blSetup => .done (some [⟨.reg 14,
      instAddr + 4 + ((opcode.extractLsb' 0 11).signExtend 32 <<< 12)⟩])
  | .blxOff | .blxReg => .done (some [])
  | _ => .done none

end Thumb

/-- **An instruction of a straight run**, in a mode that is a user mode, or fast interrupt mode. -/
def GuestInst.tree (inst : GuestInst) (user fiq : Bool) (instAddr : BitVec 32) : InstTree :=
  match inst with
  | .arm opcode =>
      (Cond.ofCode (condCode opcode)).tree fun holds =>
        if holds then (armFn opcode).tree user fiq opcode instAddr else .done (some [])
  | .thumb opcode => (thumbFn opcode).tree opcode instAddr user

/-! ## The trees are the handlers -/

/-- The flags of a product. -/
theorem putAll_nz (regs : ThreadRegs) (r : BitVec 32) : regs.putAll (nzWrites r) =
    { regs with
      cpsr := Flags.put { Flags.of regs.cpsr with n := r.msb, z := r == 0 } regs.cpsr } := by
  simp [nzWrites, ThreadRegs.putAll, ThreadRegs.put, ThreadRegs.setFlag, Flags.set]

theorem mul_toNat (x y : BitVec 32) : x * y = BitVec.ofNat 32 (x.toNat * y.toNat) := by
  apply BitVec.eq_of_toNat_eq
  rw [BitVec.toNat_mul, BitVec.toNat_ofNat]

section Links

variable {D : Type*} (dev : MemDevices D) (opcode instAddr : BitVec 32) (m : Reader)

/-- **The handlers of data processing**: unless one hands control on or leaves the mode, its tree
writes what it does. -/
theorem aluFn_tree (f : AluFn) (form : ShiftForm) (fiq : Bool) (regs : ThreadRegs) :
    let t := (ArmFn.alu f form).tree regs.isUser fiq opcode instAddr
    let r := f.step form opcode instAddr regs
    (opcodeRd opcode = 15 ∧ t.out regs.view m = (none, [])) ∨
      ∃ ws, t.out regs.view m = (some ws, []) ∧ r.1 = regs.putAll ws ∧
        r.2.branchTarget = none := by
  intro t r
  have hexec : (r.1, r.2.branchTarget) = (DataInst.ofClass opcode
      (f.dataOp, f.setFlags, form.operandClass)).exec (instAddr + 8) regs := by
    cases f with
    | op o => exact aluStep_exec opcode instAddr regs form o
    | test o => exact testStep_exec opcode instAddr regs form o
  rcases out_dataTree (instAddr + 8) regs m
    (DataInst.ofClass opcode (f.dataOp, f.setFlags, form.operandClass)) with
    ⟨hleaves, hout⟩ | ⟨-, ws, hout, hws⟩
  · refine .inl ⟨?_, hout⟩
    rw [DataInst.leaves, Bool.and_eq_true] at hleaves
    exact (regField_eq opcode 12).symm.trans (of_decide_eq_true hleaves.1)
  · obtain ⟨hfst, hsnd⟩ := Prod.mk.inj (hexec.trans hws)
    exact .inr ⟨ws, hout, hfst, hsnd⟩

/-- **The handlers of Thumb**, likewise. -/
theorem thumbAlu_tree (t : ThumbAlu) (opcode : BitVec 16) (regs : ThreadRegs)
    (hthumb : cpsrThumb regs.cpsr = true) :
    let tree := (ThumbFn.alu t).tree opcode instAddr regs.isUser
    let r := t.step opcode instAddr regs
    tree.out regs.view m = (none, []) ∨
      ∃ ws, tree.out regs.view m = (some ws, []) ∧ r.1 = regs.putAll ws ∧
        r.2.branchTarget = none := by
  intro tree r
  have hexec := t.step_exec opcode regs instAddr hthumb
  cases harm : t.armInst opcode with
  | data inst =>
      have htree : tree = inst.tree regs.isUser (t.readsPc instAddr) := by
        show (match t.armInst opcode with | .data inst => _ | .muls rd rm rs => _) = _
        rw [harm]
      rw [htree]
      rw [harm] at hexec
      rcases out_dataTree (t.readsPc instAddr) regs m inst with ⟨-, hout⟩ | ⟨-, ws, hout, hws⟩
      · exact .inl hout
      · obtain ⟨hfst, hsnd⟩ := Prod.mk.inj (hexec.trans hws)
        exact .inr ⟨ws, hout, hfst, hsnd⟩
  | muls rd rm rs =>
      have htree : tree.out regs.view m =
          (some (nzWrites (readReg (t.readsPc instAddr) regs rm *
            readReg (t.readsPc instAddr) regs rs) ++ [⟨.reg rd,
            readReg (t.readsPc instAddr) regs rm * readReg (t.readsPc instAddr) regs rs⟩]),
            []) := by
        show ReadTree.out regs.view m
          (match t.armInst opcode with | .data inst => _ | .muls rd rm rs => _) = _
        rw [harm]
        simp only [out_readTree, ReadTree.out_done]
      rw [harm] at hexec
      obtain ⟨hfst, hsnd⟩ := Prod.mk.inj hexec
      refine .inr ⟨_, htree, hfst.trans ?_, hsnd⟩
      rw [ThreadRegs.putAll_append, putAll_nz, mul_toNat]
      rfl

/-- What the memory of a guest reads as; a block of words is read otherwise. -/
def GuestState.Reads (g : GuestState D) (m : Reader) : Prop :=
  (∀ addr, m (.byte addr) = (memRead dev .byte addr.toNat g.mem).1) ∧
    (∀ addr, m (.half addr) = (memRead dev .half addr.toNat g.mem).1) ∧
    ∀ addr, m (.word addr) = (memRead dev .word addr.toNat g.mem).1

theorem out_regTree (lsb : ℕ) (regs : ThreadRegs) (next : BitVec 32 → InstTree) :
    (regTree opcode instAddr lsb next).out regs.view m =
      (next (ctxReg instAddr regs (opcodeReg opcode lsb))).out regs.view m :=
  out_readTree _ regs m _ next

theorem out_offsetTree (offk : OffsetKind) (regs : ThreadRegs) (next : BitVec 32 → InstTree) :
    (offsetTree opcode instAddr offk next).out regs.view m =
      (next (if offk = .imm then opcode &&& 0xFFF
        else transferRegOffset offk instAddr regs opcode)).out regs.view m := by
  cases offk with
  | imm => rfl
  | ror =>
      simp only [offsetTree, out_regTree, reduceCtorEq, if_false, transferRegOffset]
      have hc : carryOf regs.cpsr = regs.view (.flag .c) := carryOf_eq regs.cpsr
      rw [hc]
      split <;> rfl
  | _ => simp only [offsetTree, out_regTree, reduceCtorEq, if_false, transferRegOffset]

/-- The registers behind a load of one register. -/
theorem out_loadFinish (hrd : opcodeRd opcode ≠ 15) (addr : AddrMode)
    (offsetAddr value : BitVec 32) (regs : ThreadRegs) :
    ∃ ws, (loadFinish opcode addr offsetAddr value).out regs.view m = (some ws, []) ∧
      regs.putAll ws = (if addr = .offset then regs
        else regs.setReg (opcodeReg opcode 16) offsetAddr).setReg (opcodeRd opcode) value := by
  refine ⟨_, congrArg (·, []) (if_neg hrd), ?_⟩
  split <;> rfl

/-- **The loads of words and bytes** write the base and the destination. -/
theorem ldr_tree (l : SingleLoad) {g : GuestState D} (hm : g.Reads dev m)
    (hrd : opcodeRd opcode ≠ 15) :
    ∃ ws a, (ldrTree opcode instAddr l).out g.regs.view m = (some ws, [a]) ∧
      (ldr dev l opcode instAddr g).1.regs = g.regs.putAll ws := by
  simp only [ldrTree, out_regTree, out_offsetTree]
  rw [ldr, if_neg hrd]
  unfold singleLoad
  simp only
  generalize transferAddrs l.addr l.up (ctxReg instAddr g.regs (opcodeReg opcode 16)) _ = addrs
  cases l.byte with
  | true =>
      obtain ⟨ws, hout, hws⟩ := out_loadFinish opcode m hrd l.addr addrs.2
        ((m (.byte addrs.1)).setWidth 32) g.regs
      refine ⟨ws, _, ReadTree.out_load _ _ hout, ?_⟩
      rw [hws, hm.1]
      rfl
  | false =>
      obtain ⟨ws, hout, hws⟩ := out_loadFinish opcode m hrd l.addr addrs.2
        ((m (.word addrs.1)).rotateRight (addrs.1.toNat % 4 * 8)) g.regs
      refine ⟨ws, _, ReadTree.out_load _ _ hout, ?_⟩
      rw [hws, hm.2.2]
      rfl

/-- **The loads of halfwords and signed bytes**, likewise. -/
theorem ldrh_tree (l : HalfLoad) {g : GuestState D} (hm : g.Reads dev m)
    (hrd : opcodeRd opcode ≠ 15) :
    ∃ ws a, (ldrhTree opcode instAddr l).out g.regs.view m = (some ws, [a]) ∧
      (ldrh dev l opcode instAddr g).1.regs = g.regs.putAll ws := by
  have hoffset : (ldrhTree opcode instAddr l).out g.regs.view m =
      (ldrhLoad opcode l (ctxReg instAddr g.regs (opcodeReg opcode 16))
        (if l.reg then ctxReg instAddr g.regs (opcodeReg opcode 0)
          else ((opcode >>> 4) &&& 0xF0) ||| (opcode &&& 0xF))).out g.regs.view m := by
    simp only [ldrhTree, out_regTree]
    split
    · exact out_regTree opcode instAddr m 0 g.regs _
    · rfl
  rw [hoffset, ldrh, if_neg hrd]
  unfold halfLoad ldrhLoad
  simp only
  generalize transferAddrs l.addr l.up (ctxReg instAddr g.regs (opcodeReg opcode 16)) _ = addrs
  have hfinish (value : BitVec 32) :=
    out_loadFinish opcode m hrd l.addr addrs.2 value g.regs
  unfold halfValueTree
  by_cases hbyte : l.byte = true ∨ l.signed = true ∧ addrs.1.toNat % 2 ≠ 0
  · obtain ⟨ws, hout, hws⟩ := hfinish ((m (.byte addrs.1)).signExtend 32)
    simp only [if_pos hbyte]
    refine ⟨ws, _, ReadTree.out_load _ _ hout, ?_⟩
    rw [hws, hm.1]
  · simp only [if_neg hbyte]
    cases l.signed with
    | true =>
        obtain ⟨ws, hout, hws⟩ := hfinish ((m (.half addrs.1)).signExtend 32)
        refine ⟨ws, _, ReadTree.out_load _ _ hout, ?_⟩
        rw [hws, hm.2.1]
        rfl
    | false =>
        obtain ⟨ws, hout, hws⟩ :=
          hfinish (((m (.half addrs.1)).setWidth 32).rotateRight (addrs.1.toNat % 2 * 8))
        refine ⟨ws, _, ReadTree.out_load _ _ hout, ?_⟩
        rw [hws, hm.2.1]
        rfl

/-- A loaded register is written where the interpreter writes it. -/
theorem loadReg_eq (banked fiq : Bool) (s : ThreadRegs × Option (BitVec 32))
    {p : Fin 16 × BitVec 32} (h15 : p.1 ≠ 15) :
    loadReg banked (banked && fiq) s p = (s.1.put (loadWrite banked fiq p), s.2) := by
  unfold loadReg loadWrite
  rw [if_neg h15]
  by_cases hbank : banked = true ∧ ThreadRegs.Banked (fiq = true) p.1
  · have husr : banked = true ∧ (p.1 = 13 ∨ p.1 = 14 ∨ (banked && fiq) = true) := by
      refine ⟨hbank.1, hbank.2.imp_right (Or.imp_right fun hfiq => ?_)⟩
      rw [hbank.1, hfiq.1]
      rfl
    rw [if_pos husr, dif_pos hbank]
    rfl
  · rw [dif_neg hbank]
    by_cases husr : banked = true ∧ (p.1 = 13 ∨ p.1 = 14 ∨ (banked && fiq) = true)
    · -- in fast interrupt mode the low registers of the user bank are the registers themselves
      have hlow : ¬ ThreadRegs.Banked True p.1 := by
        rintro (h13 | h14 | ⟨-, hhigh⟩)
        · exact hbank ⟨husr.1, .inl h13⟩
        · exact hbank ⟨husr.1, .inr (.inl h14)⟩
        · rcases husr.2 with h13 | h14 | hfiq
          · exact hbank ⟨husr.1, .inl h13⟩
          · exact hbank ⟨husr.1, .inr (.inl h14)⟩
          · exact hbank ⟨husr.1, .inr (.inr ⟨(Bool.and_eq_true _ _ ▸ hfiq).2, hhigh⟩)⟩
      rw [if_pos husr, ThreadRegs.setRegUsr_of_not_banked hlow]
      rfl
    · rw [if_neg husr]
      rfl

theorem foldl_loadReg_putAll (banked fiq : Bool) {l : List (Fin 16 × BitVec 32)}
    (h15 : ∀ p ∈ l, p.1 ≠ 15) (s : ThreadRegs × Option (BitVec 32)) :
    l.foldl (loadReg banked (banked && fiq)) s =
      (s.1.putAll (l.map (loadWrite banked fiq)), s.2) := by
  induction l generalizing s with
  | nil => rfl
  | cons p l ih =>
      rw [List.foldl_cons, loadReg_eq banked fiq s (h15 p List.mem_cons_self),
        ih (fun q hq => h15 q (List.mem_cons_of_mem _ hq))]
      rfl

/-- **A block load** without the pc writes its registers, and the base unless it is loaded. -/
theorem ldm_tree (t : BlockTransfer) (hlist : t.regList ≠ 0)
    (hpc : t.regList.getLsbD 15 = false) {g : GuestState D} {r : GuestState D × InstResult}
    (h : ldm dev t instAddr g = some r)
    (hm : (memReadMultipleSlice dev true .word
        (t.lowestAddr (ctxReg instAddr g.regs t.rn)).toNat t.count g.mem).map Prod.fst =
      some (List.ofFn (m (.words (t.lowestAddr (ctxReg instAddr g.regs t.rn)) t.count)))) :
    ∃ ws a, (ldmTree t g.regs.isUser g.regs.isFiq instAddr).out g.regs.view m = (some ws, [a]) ∧
      r.1.regs = g.regs.putAll ws := by
  obtain ⟨read, hread, rfl⟩ := Option.map_eq_some_iff.mp h
  rw [hread] at hm
  have hwords : List.ofFn (m (.words (t.lowestAddr (readReg (instAddr + 8) g.regs t.rn))
      t.count)) = read.1 := (Option.some.inj hm).symm
  have hcond : ¬ (t.regList = 0 ∨ t.regList.getLsbD 15 = true) := by
    rw [hpc]
    exact fun h => h.elim hlist Bool.noConfusion
  unfold ldmTree
  rw [if_neg hcond, out_readTree]
  refine ⟨_, _, ReadTree.out_load _ _ rfl, ?_⟩
  have h15 : ∀ p ∈ (t.regs.zip read.1 : List (Fin 16 × BitVec 32)), p.1 ≠ 15 := by
    intro p hp h15
    have hmem := (List.of_mem_zip hp).1
    rw [h15, BlockTransfer.regs, List.mem_filter] at hmem
    exact absurd (hmem.2.symm.trans hpc) Bool.noConfusion
  have hbanked : t.userBanked g.regs = (t.user && !g.regs.isUser) := by
    rw [BlockTransfer.userBanked, hpc]
    cases t.user <;> rfl
  rw [hwords, ThreadRegs.putAll_append, hbanked, foldl_loadReg_putAll _ _ h15]
  simp only [Option.isSome_none, Bool.and_false, Bool.false_eq_true, if_false]
  split <;> rfl

end Links

end AdvancedSlop
