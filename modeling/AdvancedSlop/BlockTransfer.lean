/-
# Block transfers in two engines

`ldm` and `stm` as the interpreter runs them, and as the jit's slow path does.

* `ldmStm` : the handler of the interpreter;
* `InstMemMultipleParams` : the packed parameters of the slow path;
* `handleMultipleRequest` : the request, and `executeSlowMultiple` : with its parameters as
  `execute_patch_slow_mem` packs them.
-/
import AdvancedSlop.GuestRegs
import AdvancedSlop.MemoryIo

namespace AdvancedSlop

open WordMemory

attribute [local instance] neZero_regs

variable {D : Type*}

/-- The registers and the memory of the guest. -/
structure GuestState (D : Type*) where
  regs : ThreadRegs
  mem : GuestMem D

/-- `InstResult`, with the cycles and the target of a branch. -/
inductive InstResult
  | continueNext (cycles : Nat)
  | continueStore (cycles : Nat)
  | branch (cycles : Nat) (target : BitVec 32)
  | branchReturn (cycles : Nat) (target : BitVec 32)
  deriving DecidableEq, Repr

/-! ## The interpreter -/

/-- A block transfer: the const parameters of `ldm_stm`, the base and the register list. -/
structure BlockTransfer where
  load : Bool
  pre : Bool
  up : Bool
  user : Bool
  wb : Bool
  rn : Fin 16
  regList : BitVec 16
  deriving DecidableEq, Repr

namespace BlockTransfer

/-- The registers of the list, from the lowest on. -/
def regs (t : BlockTransfer) : List (Fin 16) :=
  (List.finRange 16).filter fun i => t.regList.getLsbD i

/-- `count_ones` of the list. -/
def count (t : BlockTransfer) : Nat := t.regs.length

/-- The base after the transfer. -/
def finalBase (t : BlockTransfer) (base : BitVec 32) : BitVec 32 :=
  if t.up then base + BitVec.ofNat 32 (t.count * 4) else base - BitVec.ofNat 32 (t.count * 4)

/-- The lowest address the transfer accesses. -/
def lowestAddr (t : BlockTransfer) (base : BitVec 32) : BitVec 32 :=
  match t.up, t.pre with
  | true, false => base
  | true, true => base + 4
  | false, true => base - BitVec.ofNat 32 (t.count * 4)
  | false, false => base - BitVec.ofNat 32 (t.count * 4) + 4

/-- The transfer goes through the user bank. -/
def userBanked (t : BlockTransfer) (regs : ThreadRegs) : Bool :=
  t.user && !t.regList.getLsbD 15 && !regs.isUser

end BlockTransfer

/-- `Ctx::reg`: the pc reads as the address of the instruction and 8. -/
def ctxReg (instAddr : BitVec 32) (regs : ThreadRegs) (i : Fin 16) : BitVec 32 :=
  if i = 15 then instAddr + 8 else regs.getReg i

/-- One register of a load: the registers, and the target when it is the pc. -/
def loadReg (userBanked fiqMode : Bool) (s : ThreadRegs × Option (BitVec 32))
    (loaded : Fin 16 × BitVec 32) : ThreadRegs × Option (BitVec 32) :=
  if loaded.1 = 15 then (s.1, some loaded.2)
  else if userBanked ∧ (loaded.1 = 13 ∨ loaded.1 = 14 ∨ fiqMode) then
    (s.1.setRegUsr loaded.1 loaded.2, s.2)
  else (s.1.setReg loaded.1 loaded.2, s.2)

/-- One register of a store.  With a written-back base in the list the new base is stored, unless
it is the lowest register. -/
def storedReg (t : BlockTransfer) (instAddr : BitVec 32) (regs : ThreadRegs) (i : Fin 16) :
    BitVec 32 :=
  let userBanked := t.userBanked regs
  if i = 15 then instAddr + 12
  else if userBanked ∧ (i = 13 ∨ i = 14 ∨ userBanked && regs.isFiq) then regs.getRegUsr i
  else if t.wb ∧ i = t.rn ∧ t.regList.toNat &&& (2 ^ t.rn.val - 1) ≠ 0 then
    t.finalBase (ctxReg instAddr regs t.rn)
  else ctxReg instAddr regs i

section Interpreter

variable (dev : MemDevices D)

/-- `ldm_stm` of an empty list: it transfers the pc, and moves the base by 0x40. -/
def ldmStmEmpty (t : BlockTransfer) (instAddr : BitVec 32) (g : GuestState D) :
    Option (GuestState D × InstResult) :=
  let base := ctxReg instAddr g.regs t.rn
  let addr := match t.up, t.pre with
    | true, false => base
    | true, true => base + 4
    | false, true => base - 0x40
    | false, false => base - 0x3C
  let regs := if t.wb then g.regs.setReg t.rn (if t.up then base + 0x40 else base - 0x40)
    else g.regs
  if t.load then
    let r := memRead dev .word addr.toNat g.mem
    some (⟨regs, r.2⟩, .branch 2 r.1)
  else
    (memWrite dev .word addr.toNat (show BitVec 32 from instAddr + 12) g.mem).map fun mem =>
      (⟨regs, mem⟩, .continueStore 1)

/-- `ldm_stm` of a load. -/
def ldm (t : BlockTransfer) (instAddr : BitVec 32) (g : GuestState D) :
    Option (GuestState D × InstResult) :=
  let userBanked := t.userBanked g.regs
  let base := ctxReg instAddr g.regs t.rn
  (memReadMultipleSlice dev true .word (t.lowestAddr base).toNat t.count g.mem).map fun r =>
    let s := (t.regs.zip r.1).foldl (loadReg userBanked (userBanked && g.regs.isFiq)) (g.regs, none)
    -- a loaded base wins over the written-back one
    let regs := if t.wb && !t.regList.getLsbD t.rn then s.1.setReg t.rn (t.finalBase base) else s.1
    -- the restore comes last: the base is that of the mode the instruction runs in
    let regs := if t.user && s.2.isSome then regs.restoreSpsr else regs
    (⟨regs, r.2⟩, match s.2 with
      | some target => if t.rn = 13 then .branchReturn (t.count + 2) target
          else .branch (t.count + 2) target
      | none => .continueNext (t.count + 2))

/-- `ldm_stm` of a store. -/
def stm (t : BlockTransfer) (instAddr : BitVec 32) (g : GuestState D) :
    Option (GuestState D × InstResult) :=
  let base := ctxReg instAddr g.regs t.rn
  let values := t.regs.map (storedReg t instAddr g.regs)
  (memWriteMultipleSlice dev .word (t.lowestAddr base).toNat values g.mem).map fun mem =>
    (⟨if t.wb then g.regs.setReg t.rn (t.finalBase base) else g.regs, mem⟩,
      .continueStore (t.count + 1))

/-- `ldm_stm`. -/
def ldmStm (t : BlockTransfer) (instAddr : BitVec 32) (g : GuestState D) :
    Option (GuestState D × InstResult) :=
  if t.regList = 0 then ldmStmEmpty dev t instAddr g
  else if t.load then ldm dev t instAddr g
  else stm dev t instAddr g

end Interpreter

/-! ## The parameters of the slow path -/

/-- `InstMemMultipleParams`. -/
structure InstMemMultipleParams where
  rlist : BitVec 16
  rlistLen : BitVec 4
  op0 : BitVec 4
  pre : Bool
  user : Bool
  deriving DecidableEq, Repr

namespace InstMemMultipleParams

/-- The parameters in a word. -/
def toWord (p : InstMemMultipleParams) : BitVec 32 :=
  p.rlist.setWidth 32 ||| p.rlistLen.setWidth 32 <<< 16 ||| p.op0.setWidth 32 <<< 20 |||
    (BitVec.ofBool p.pre).setWidth 32 <<< 24 ||| (BitVec.ofBool p.user).setWidth 32 <<< 25

/-- The parameters of a word. -/
def ofWord (w : BitVec 32) : InstMemMultipleParams where
  rlist := w.extractLsb' 0 16
  rlistLen := w.extractLsb' 16 4
  op0 := w.extractLsb' 20 4
  pre := w.getLsbD 24
  user := w.getLsbD 25

/-- **What is packed** is what is read back. -/
theorem ofWord_toWord (p : InstMemMultipleParams) : ofWord p.toWord = p := by
  obtain ⟨rlist, rlistLen, op0, pre, user⟩ := p
  unfold ofWord toWord
  congr 1
  · ext i hi
    simp [hi, show i < 32 by omega, show i < 20 by omega, show i < 24 by omega,
      show i < 25 by omega]
  · ext i hi
    simp [hi, show 16 + i < 32 by omega, show 16 + i < 20 by omega, show 16 + i < 24 by omega,
      show 16 + i < 25 by omega]
  · ext i hi
    have hlist := BitVec.getLsbD_of_ge rlist (20 + i) (by omega)
    have hlen := BitVec.getLsbD_of_ge rlistLen (20 + i - 16) (by omega)
    simp [hi, hlist, hlen, show 20 + i < 32 by omega, show 20 + i < 24 by omega,
      show 20 + i < 25 by omega]
  · simp
  · simp

end InstMemMultipleParams

/-! ## The slow path -/

/-- The const parameters of the handler; `GX_FIFO` is never set. -/
structure MultipleHandler where
  write : Bool
  writeBack : Bool
  decrement : Bool
  valid : Bool
  user : Bool
  needsPc : Bool
  deriving DecidableEq, Repr

/-- `get_inst_mem_multiple_handler_fun`.  It assumes (`assert_unchecked`) that a load does not need
the pc. -/
def getInstMemMultipleHandlerFun (isWrite writeBack add user valid needsPc : Bool) :
    Option MultipleHandler :=
  if (writeBack ∨ valid) ∧ (isWrite ∨ ¬ needsPc) ∧ (¬ user ∨ ¬ needsPc) then
    some ⟨isWrite, writeBack, !add, valid, user, needsPc⟩
  else none

/-- The loop over the register list: `n` times the leading zeros of the reversed list are the next
register, whose bit is cleared. -/
def popRegs : Nat → BitVec 32 → List Nat
  | 0, _ => []
  | n + 1, rlist =>
      let zeros := rlist.clz.toNat
      zeros :: popRegs n (rlist &&& ~~~((0x80000000 : BitVec 32) >>> zeros))

/-- The registers the request visits. -/
def requestRegs (rlist : BitVec 16) (n : Nat) : List (Fin 16) :=
  (popRegs n (rlist.setWidth 32).reverse).map (Fin.ofNat 16)

/-- A read through `get_reg_mut`: `get_reg_usr_mut` outside user mode with the user bit. -/
def requestGet (banked fiq : Bool) (regs : ThreadRegs) (i : Fin 16) : BitVec 32 :=
  if banked ∧ (fiq ∨ i = 13 ∨ i = 14) then regs.getRegUsr i else regs.getReg i

/-- A write through `get_reg_mut`. -/
def requestSet (banked fiq : Bool) (regs : ThreadRegs) (loaded : Fin 16 × BitVec 32) :
    ThreadRegs :=
  if banked ∧ (fiq ∨ loaded.1 = 13 ∨ loaded.1 = 14) then regs.setRegUsr loaded.1 loaded.2
  else regs.setReg loaded.1 loaded.2

/-- The base of a request after it. -/
def requestBase (decrement : Bool) (rlistLen : Nat) (op0 : BitVec 32) : BitVec 32 :=
  if decrement then op0 - BitVec.ofNat 32 (rlistLen * 4) else op0 + BitVec.ofNat 32 (rlistLen * 4)

/-- The address a request accesses. -/
def requestAddr (decrement pre : Bool) (rlistLen : Nat) (op0 : BitVec 32) : BitVec 32 :=
  (if decrement then op0 - BitVec.ofNat 32 (rlistLen * 4) else op0) + if pre then 4 else 0

/-- The registers after the first write of the base. -/
def requestEarly (handler : MultipleHandler) (rlist : BitVec 16) (rlistLen : Nat)
    (op0Reg : Fin 16) (regs : ThreadRegs) : ThreadRegs :=
  if handler.writeBack ∧ (¬ handler.write ∨ handler.valid ∨
      rlist.toNat &&& (2 ^ (op0Reg.val + 1) - 1) > 2 ^ op0Reg.val) then
    regs.setReg op0Reg (requestBase handler.decrement rlistLen (regs.getReg op0Reg))
  else regs

/-- The words a request stores.  The pc is the last one. -/
def requestWords (handler : MultipleHandler) (rlist : BitVec 16) (rlistLen : Nat)
    (metadataPc : BitVec 32) (regs : ThreadRegs) : List (BitVec 32) :=
  let banked := handler.user && !regs.isUser
  let pc := metadataPc &&& ~~~1
  if handler.needsPc then
    (requestRegs rlist (rlistLen - 1)).map (requestGet banked regs.isFiq regs) ++
      [pc + (if metadataPc.getLsbD 0 then 4 else 8)]
  else (requestRegs rlist rlistLen).map (requestGet banked regs.isFiq regs)

section Request

variable (dev : MemDevices D)

/-- The words a request loads: from the shared memory where the address is mapped. -/
def requestRead (addr rlistLen : Nat) (mem : GuestMem D) :
    Option (List (BitVec 32) × GuestMem D) :=
  let shmOffset := getShmOffset mem.mmuRead (alignedAddr .word addr)
  if shmOffset ≠ 0 then
    if shmOffset + rlistLen * 4 ≤ totalMemSize then
      some (readWords 4 mem.jit.shm shmOffset rlistLen, mem)
    else none
  else memReadMultipleSlice dev false .word (alignedAddr .word addr) rlistLen mem

/-- `handle_multiple_request`. -/
def handleMultipleRequest (handler : MultipleHandler) (rlist : BitVec 16) (rlistLen : Nat)
    (op0Reg : Fin 16) (pre : Bool) (metadataPc : BitVec 32) (g : GuestState D) :
    Option (GuestState D) :=
  let op0 := g.regs.getReg op0Reg
  let base := requestBase handler.decrement rlistLen op0
  let memAddr := requestAddr handler.decrement pre rlistLen op0
  let regs := requestEarly handler rlist rlistLen op0Reg g.regs
  let finish := fun (regs : ThreadRegs) (mem : GuestMem D) =>
    (⟨if handler.writeBack ∧ (handler.write ∨ handler.valid) then regs.setReg op0Reg base else regs,
      mem⟩ : GuestState D)
  if handler.write then
    (memWriteMultipleSlice dev .word memAddr.toNat
      (requestWords handler rlist rlistLen metadataPc regs) g.mem).map (finish regs)
  else
    let banked := handler.user && !regs.isUser
    (requestRead dev memAddr.toNat rlistLen g.mem).map fun r =>
      finish (((requestRegs rlist rlistLen).zip r.1).foldl (requestSet banked regs.isFiq) regs) r.2

/-- `_inst_mem_handler_multiple`, on registers that are written back. -/
def instMemHandlerMultiple (handler : MultipleHandler) (params : BitVec 32)
    (metadataPc : BitVec 32) (g : GuestState D) : Option (GuestState D) :=
  if (¬ handler.writeBack ∧ ¬ handler.valid) ∨ (¬ handler.write ∧ handler.needsPc) ∨
      (handler.user ∧ handler.needsPc) then none
  else
    let params := InstMemMultipleParams.ofWord params
    handleMultipleRequest dev handler params.rlist params.rlistLen.toNat
      (Fin.ofNat 16 params.op0.toNat) params.pre metadataPc g

/-- The slow path of a block transfer, as `execute_patch_slow_mem` sets it up.  `u4New` is
`u4::new`. -/
def executeSlowMultiple (u4New : Nat → Option (BitVec 4)) (t : BlockTransfer)
    (instAddr : BitVec 32) (g : GuestState D) : Option (GuestState D) :=
  let needsPc := t.regList.getLsbD 15
  let valid := !t.wb || !t.regList.getLsbD t.rn
  (getInstMemMultipleHandlerFun (!t.load) t.wb t.up (t.user && !needsPc) valid needsPc).bind
    fun handler =>
      (u4New t.count).bind fun rlistLen =>
        (u4New t.rn).bind fun op0 =>
          let pre := if t.up then t.pre else !t.pre
          let params : InstMemMultipleParams := ⟨t.regList, rlistLen, op0, pre, t.user⟩
          instMemHandlerMultiple dev handler params.toWord instAddr g

end Request

end AdvancedSlop
