/-
# Basic blocks

`src/jit/analyzer`: the instructions of a block to compile are split where a branch without a link
leads to and behind each such branch, and a backward pass over each part finds the registers that
are live.

* `analyzeBranchLabel` : where a branch leads, an idle loop told apart;
* `createBasicBlocks` : the two passes of the split, and `resolveLiveRegs` on each part.
-/
import AdvancedSlop.InstInfo

namespace AdvancedSlop

/-! ## Idle loops -/

/-- The operations an idle loop has none of. -/
def Op.leavesIdleLoop : Op → Bool
  | .swi | .swiT | .mcr | .mrc | .mrsRc | .mrsRs | .msrIc | .msrIs | .msrRc | .msrRs | .swp
  | .swpb => true
  | op => op.isWriteMemTransfer

/-- The loop of `is_idle_loop`. -/
def idleScan : List InstInfo → RegReserve → RegReserve → Bool
  | [], _, _ => true
  | inst :: insts, regsWrittenTo, regsDisallowedToWrite =>
      if inst.isBranch || inst.op.leavesIdleLoop then false
      else
        let srcRegs := inst.srcRegs - RegReserve.ofRegs [.pc, .cpsr]
        let outRegs := inst.outRegs - RegReserve.ofRegs [.pc]
        let regsDisallowedToWrite := regsDisallowedToWrite + (srcRegs - regsWrittenTo)
        if !(outRegs &&& regsDisallowedToWrite).isEmpty then false
        else idleScan insts (regsWrittenTo + outRegs) regsDisallowedToWrite

/-- `is_idle_loop`. -/
def isIdleLoop (insts : List InstInfo) : Bool := idleScan insts.dropLast .new .new

/-! ## Branches -/

/-- `JitBranchInfo`. -/
inductive JitBranchInfo
  | idle (index : Nat)
  | here (index : Nat)
  | none
  deriving DecidableEq, Repr

/-- `pc_shift`. -/
def pcShift (thumb : Bool) : Nat := if thumb then 1 else 2

/-- The address of an instruction. -/
def instPc (startPc : BitVec 32) (thumb : Bool) (i : Nat) : BitVec 32 :=
  startPc + BitVec.ofNat 32 i <<< pcShift thumb

section Branches

variable (debugLog : Bool) (insts : List InstInfo) (thumb : Bool)

/-- A conditional branch back over an idle loop. -/
def idleTarget (branchIndex : Nat) (cond : Cond) (pc targetPc : BitVec 32) : Option Nat :=
  let diff := ((pc - targetPc) >>> pcShift thumb).toNat
  if debugLog = false ∧ cond ≠ .al ∧ cond ≠ .nv ∧ targetPc.ult pc ∧ diff ≤ branchIndex ∧
      isIdleLoop ((insts.take (branchIndex + 1)).drop (branchIndex - diff)) then
    some (branchIndex - diff)
  else none

/-- A branch within the instructions. -/
def localTarget (branchIndex : Nat) (pc targetPc : BitVec 32) : Option Nat :=
  let targetIndex : Int := branchIndex + ((targetPc - pc).sshiftRight (pcShift thumb)).toInt
  if 0 ≤ targetIndex ∧ targetIndex.toNat < insts.length then some targetIndex.toNat else none

/-- `analyze_branch_label`. -/
def analyzeBranchLabel (branchIndex : Nat) (cond : Cond) (pc targetPc : BitVec 32) :
    JitBranchInfo :=
  match idleTarget debugLog insts thumb branchIndex cond pc targetPc with
  | some index => .idle index
  | none =>
      match localTarget insts thumb branchIndex pc targetPc with
      | some index => .here index
      | none => .none

end Branches

/-! ## Blocks -/

/-- `InstMetadata`. -/
structure InstMetadata where
  idleLoop : Bool
  externalBranch : Bool
  localBranchEntry : Bool
  deriving DecidableEq, Repr

/-- `InstMetadata::default`. -/
def InstMetadata.default : InstMetadata := ⟨false, false, false⟩

/-- `BasicBlock`. -/
structure BasicBlock where
  startPc : BitVec 32
  startIndex : Nat
  endIndex : Nat
  liveRegs : List RegReserve
  outputRegs : RegReserve
  deriving DecidableEq, Repr

/-- `AsmAnalyzer`; the last field lists the members of the set. -/
structure AsmAnalyzer where
  thumb : Bool
  basicBlocks : List BasicBlock
  instsMetadata : List InstMetadata
  immStoreAddrs : List (BitVec 32)
  deriving DecidableEq, Repr

/-- The registers live before an instruction, from those live behind it. -/
def liveBefore (inst : InstInfo) (live : RegReserve) : RegReserve :=
  let live := live - inst.outRegs + inst.srcRegs
  if inst.cond ≠ .al then live + inst.outRegs else live

/-- The live sets of a block, one for each instruction and one for its end. -/
def liveSets : List InstInfo → List RegReserve
  | [] => [.new]
  | inst :: insts =>
      let rest := liveSets insts
      liveBefore inst (rest.headD .new) :: rest

namespace BasicBlock

/-- `BasicBlock::new`. -/
def new (startPc : BitVec 32) (startIndex endIndex : Nat) : BasicBlock :=
  ⟨startPc, startIndex, endIndex, [], .new⟩

/-- The instructions of a block. -/
def insts (block : BasicBlock) (insts : List InstInfo) : List InstInfo :=
  (insts.take (block.endIndex + 1)).drop block.startIndex

/-- `resolve_live_regs`. -/
def resolveLiveRegs (insts : List InstInfo) (block : BasicBlock) : BasicBlock :=
  { block with
    liveRegs := liveSets (block.insts insts)
    outputRegs := (block.insts insts).foldr (fun inst regs => regs + inst.outRegs) block.outputRegs }

end BasicBlock

section Passes

variable (debugLog : Bool) (startPc : BitVec 32) (insts : List InstInfo) (thumb : Bool)

/-- Where a branch leads. -/
def branchTargetPc (i : Nat) (imm : BitVec 32) : BitVec 32 :=
  instPc startPc thumb i + (imm + 2#32 <<< pcShift thumb)

/-- `set_local_branch_entry` on an instruction. -/
def setLocalBranchEntry (metadata : List InstMetadata) (index : Nat) : List InstMetadata :=
  metadata.modify index fun m => { m with localBranchEntry := true }

/-- What a branch marks. -/
def markBranch (metadata : List InstMetadata) (i : Nat) : JitBranchInfo → List InstMetadata
  | .idle index =>
      setLocalBranchEntry (metadata.modify i fun m => { m with idleLoop := true }) index
  | .here index => setLocalBranchEntry metadata index
  | .none => metadata.modify i fun m => { m with externalBranch := true }

/-- The first pass on one instruction.  A label that is no immediate would abort it. -/
def markInst (metadata : List InstMetadata) (x : InstInfo × Nat) : Option (List InstMetadata) :=
  if x.1.isLocalBranch then
    (x.1.operands.head?.bind Operand.asImm).map fun imm =>
      markBranch metadata x.2 (analyzeBranchLabel debugLog insts thumb x.2 x.1.cond
        (instPc startPc thumb x.2) (branchTargetPc startPc thumb x.2 imm))
  else some metadata

/-- The stores to fixed addresses. -/
def immStores : List (BitVec 32) :=
  insts.zipIdx.filterMap fun x =>
    if x.1.op.isWriteMemTransfer then x.1.immTransferAddr (instPc startPc thumb x.2) else none

/-- The blocks so far and the start of the next one. -/
structure BlockSplit where
  blocks : List BasicBlock
  blockStart : Nat

/-- A block up to an instruction. -/
def BlockSplit.push (s : BlockSplit) (endIndex blockStart : Nat) : BlockSplit where
  blocks := s.blocks ++ [.new (instPc startPc thumb s.blockStart) s.blockStart endIndex]
  blockStart := blockStart

/-- The second pass on one instruction. -/
def splitInst (metadata : List InstMetadata) (s : BlockSplit) (x : InstInfo × Nat) : BlockSplit :=
  let s :=
    if (metadata.getD x.2 .default).localBranchEntry then
      if s.blockStart < x.2 then s.push startPc thumb (x.2 - 1) x.2 else { s with blockStart := x.2 }
    else s
  if x.1.isLocalBranch then s.push startPc thumb x.2 (x.2 + 1) else s

/-- The second pass. -/
def splitBlocks (metadata : List InstMetadata) : List BasicBlock :=
  let s := insts.zipIdx.foldl (splitInst startPc thumb metadata) ⟨[], 0⟩
  if s.blockStart < insts.length then
    (s.push startPc thumb (insts.length - 1) insts.length).blocks
  else s.blocks

/-- `create_basic_blocks`. -/
def createBasicBlocks : Option AsmAnalyzer :=
  (insts.zipIdx.foldlM (markInst debugLog startPc insts thumb)
    (List.replicate insts.length .default)).map fun metadata =>
      { thumb := thumb
        basicBlocks := (splitBlocks startPc insts thumb metadata).map (.resolveLiveRegs insts)
        instsMetadata := metadata
        immStoreAddrs := immStores startPc insts thumb }

end Passes

namespace AsmAnalyzer

/-- `get_next_live_regs`. -/
def getNextLiveRegs (a : AsmAnalyzer) (basicBlockIndex instIndex : Nat) : Option RegReserve :=
  a.basicBlocks[basicBlockIndex]?.bind fun block =>
    block.liveRegs[instIndex - block.startIndex + 1]?

/-- `get_basic_block_from_inst`. -/
def getBasicBlockFromInst (a : AsmAnalyzer) (instIndex : Nat) : Option Nat :=
  a.basicBlocks.findIdx? fun block =>
    decide (block.startIndex ≤ instIndex ∧ instIndex ≤ block.endIndex)

/-- `get_pc_from_inst`. -/
def getPcFromInst (a : AsmAnalyzer) (instIndex : Nat) : Option (BitVec 32) :=
  a.basicBlocks.head?.map fun block => block.startPc + BitVec.ofNat 32 instIndex <<< pcShift a.thumb

/-- `can_imm_load`. -/
def canImmLoad (a : AsmAnalyzer) (guestAddr : BitVec 32) : Bool := !a.immStoreAddrs.contains guestAddr

end AsmAnalyzer

end AdvancedSlop
