/-
# The jit memory

`JitMemory` keeps for every guest halfword the entry of the block compiled there, the live-range
bit of every 256-byte page that holds compiled code, the list of compiled blocks in the order of
their code, and a counter of invalidation hits for every 4K page.  A store into iwram that changes
it is checked against the live ranges; a hit clears entries, and a page hit too often is demoted
to the interpreter and loses its write protection.

* `jitInsertBlock`, `invalidateBlock`, `invalidateBlocks`, `invalidateMmuPage`,
  `invalidateRamBlocks`, `resetBlocks`, `writeIwram` : the operations;
* `JitOp`, `jitStep` : them as the steps of one machine.
-/
import AdvancedSlop.JitMemoryMap
import AdvancedSlop.Mmu
import AdvancedSlop.TransitionSystem

namespace AdvancedSlop

open WatchedTable TransitionSystem

/-! ## Blocks -/

/-- The size of an instruction. -/
def instSize (thumb : Bool) : Nat := if thumb then 2 else 4

/-- The guest code of a block: whole instructions, at least one. -/
structure BlockSpan where
  guestPc : Nat
  guestPcEnd : Nat
  thumb : Bool
  pc_lt : guestPc < guestPcEnd
  pc_aligned : instSize thumb ∣ guestPc
  end_aligned : instSize thumb ∣ guestPcEnd

/-- A compiled block: what a jit entry points at.  `addr` is the offset of its code in the jit
memory; `id` counts the blocks inserted before it. -/
structure CodeBlock extends BlockSpan where
  addr : Nat
  id : Nat

/-- The address lies in the block's guest code. -/
def BlockSpan.Contains (span : BlockSpan) (addr : Nat) : Prop :=
  span.guestPc ≤ addr ∧ addr < span.guestPcEnd

instance (span : BlockSpan) (addr : Nat) : Decidable (span.Contains addr) :=
  inferInstanceAs (Decidable (_ ∧ _))

/-- `JitBlockMetadata`: the span with the thumb bit, and the host pages of the code. -/
structure JitBlockMetadata where
  guestPc : Nat
  guestPcEnd : Nat
  addrOffsetStart : Nat
  addrOffsetEnd : Nat
  deriving DecidableEq, Repr

/-- `JitMemoryMetadata`, the entries, the live ranges and the sticky counters.  The default entry
`emit_code_block` is `none`. -/
structure JitMemory where
  size : Nat
  start : Nat
  stop : Nat
  maxEnd : Nat
  jitFuncs : List JitBlockMetadata
  jitEntries : JitSlot → Option CodeBlock
  jitLiveRanges : LivePage → Bool
  stickySmc : CodeRegion × Nat → Nat
  stickyPages : Nat

/-- `has_jit_block`. -/
def hasJitBlock (jit : JitMemory) (addr : Nat) : Bool :=
  match livePage addr with
  | none => false
  | some page => jit.jitLiveRanges page

/-! ## Eviction -/

/-- Clears the entries of a recorded block. -/
def clearRecord (block : JitBlockMetadata) (entries : JitSlot → Option CodeBlock) :
    JitSlot → Option CodeBlock :=
  writeJitEntries block.guestPc (block.guestPcEnd - block.guestPc) none entries

/-- The loop of `reset_blocks`: it frees the oldest blocks until a quarter of the jit memory is
free.  An empty list aborts the program (`unwrap`). -/
def resetLoop (size freedStart : Nat) :
    List JitBlockMetadata → Nat → (JitSlot → Option CodeBlock) →
      Option (List JitBlockMetadata × Nat × (JitSlot → Option CodeBlock))
  | [], freedEnd, entries =>
      if freedEnd - freedStart < size / 4 / 4096 then none else some ([], freedEnd, entries)
  | block :: funcs, freedEnd, entries =>
      if freedEnd - freedStart < size / 4 / 4096 then
        if block.addrOffsetEnd < freedStart then some (block :: funcs, freedEnd, entries)
        else resetLoop size freedStart funcs block.addrOffsetEnd (clearRecord block entries)
      else some (block :: funcs, freedEnd, entries)

/-- `reset_blocks`. -/
def resetBlocks (jit : JitMemory) : Option JitMemory :=
  match jit.jitFuncs with
  | [] => none
  | block :: funcs =>
      (resetLoop jit.size block.addrOffsetStart funcs block.addrOffsetEnd
        (clearRecord block jit.jitEntries)).map fun (funcs, freedEnd, entries) =>
          { jit with
            jitFuncs := funcs
            jitEntries := entries
            start := block.addrOffsetStart * 4096
            stop := freedEnd * 4096 }

/-- Lets the last block's code end where the jit memory does. -/
def stretchLast (pageEnd : Nat) : List JitBlockMetadata → Option (List JitBlockMetadata)
  | [] => none
  | [block] => some [{ block with addrOffsetEnd := pageEnd }]
  | block :: funcs => (stretchLast pageEnd funcs).map (block :: ·)

/-- The records `reset_blocks` is called with: an allocation past the end of the memory gives the
rest of it to the last block. -/
def recordsForReset (requiredSize : Nat) (jit : JitMemory) : Option (List JitBlockMetadata) :=
  if jit.start + requiredSize > jit.maxEnd then stretchLast (jit.maxEnd / 4096) jit.jitFuncs
  else some jit.jitFuncs

/-- The room `allocate_block` makes: the jit memory, and whether blocks were freed.  That the
room suffices afterwards is asserted. -/
def makeRoom (requiredSize : Nat) (jit : JitMemory) : Option (JitMemory × Bool) :=
  if jit.start + requiredSize > jit.stop then
    (recordsForReset requiredSize jit).bind fun funcs =>
      (resetBlocks { jit with jitFuncs := funcs }).bind fun jit =>
        if jit.start + requiredSize ≤ jit.stop then some (jit, true) else none
  else some (jit, false)

/-- `allocate_block`: the jit memory, the offset of the allocation, and whether blocks were
freed. -/
def allocateBlock (requiredSize : Nat) (jit : JitMemory) : Option (JitMemory × Nat × Bool) :=
  (makeRoom requiredSize jit).map fun (jit, flushed) =>
    ({ jit with start := jit.start + requiredSize }, jit.start, flushed)

/-! ## Invalidation -/

/-- The counter of the 4K page of an address: `sticky_counter`. -/
def stickyCounter (addr : Nat) : Option (CodeRegion × Nat) :=
  let nibble := addr / 0x1000000 % 16
  if nibble = 2 then some (.ewram, addr % 0x40000 / 4096)
  else if nibble = 3 then some (.iwram, addr % 0x8000 / 4096)
  else none

/-- The hit count of the page of an address. -/
def stickyCount (jit : JitMemory) (addr : Nat) : Nat :=
  match stickyCounter addr with
  | none => 0
  | some page => jit.stickySmc page

/-- `is_sticky_smc`. -/
def isStickySmc (jit : JitMemory) (addr : Nat) : Bool :=
  decide (jit.stickyPages ≠ 0) && decide (4 ≤ stickyCount jit addr)

/-- Counts an invalidation hit. -/
def bumpSticky (addr : Nat) (jit : JitMemory) : JitMemory :=
  match stickyCounter addr with
  | none => jit
  | some page =>
      let new := min 255 (jit.stickySmc page + 1)
      { jit with
        stickySmc := Function.update jit.stickySmc page new
        stickyPages := if new = 4 then jit.stickyPages + 1 else jit.stickyPages }

/-- The spans `invalidate_overlapping_blocks` collects: of the recorded blocks that contain the
address the eight oldest. -/
def overlapSpans (funcs : List JitBlockMetadata) (addr : Nat) : List (Nat × Nat) :=
  ((funcs.map fun block => (block.guestPc / 2 * 2, block.guestPcEnd / 2 * 2)).filter
    fun span => decide (span.1 ≤ addr ∧ addr < span.2)).take 8

/-- `invalidate_overlapping_blocks`. -/
def invalidateOverlappingBlocks (addr : Nat) (jit : JitMemory) : JitMemory :=
  { jit with
    jitEntries := (overlapSpans jit.jitFuncs addr).foldl (fun entries span =>
      writeJitEntries span.1 (span.2 - span.1) none entries) jit.jitEntries }

/-- One probe of `invalidate_block`: the jit memory after it, and whether it hit.  The live range
of the address must not be null. -/
def invalidateProbe (addr : Nat) (jit : JitMemory) : JitMemory × Bool :=
  match livePage addr with
  | none => (jit, false)
  | some page =>
      if jit.jitLiveRanges page then
        (invalidateOverlappingBlocks addr <| bumpSticky addr
          { jit with
            jitLiveRanges := Function.update jit.jitLiveRanges page false
            jitEntries := writeJitEntries (addr / 256 * 256) 256 none jit.jitEntries }, true)
      else (jit, false)

/-- `invalidate_block`: it probes the first and the last byte. -/
def invalidateBlock (addr size : Nat) (jit : JitMemory) : JitMemory × Bool :=
  let first := invalidateProbe addr jit
  let second := invalidateProbe (addr + size - 1) first.1
  (second.1, first.2 || second.2)

/-- One round of `invalidate_blocks`. -/
def invalidatePage (jit : JitMemory) (addr : Nat) : JitMemory :=
  match livePage addr with
  | none => jit
  | some page =>
      if jit.jitLiveRanges page then
        { jit with
          jitLiveRanges := Function.update jit.jitLiveRanges page false
          jitEntries := writeJitEntries addr 256 none jit.jitEntries }
      else jit

/-- The pages `invalidate_blocks` visits. -/
def pagesOf (addr size : Nat) : List Nat :=
  stepBy (addr / 256 * 256) ((addr + size + 255) / 256 * 256) 256

/-- `invalidate_blocks`. -/
def invalidateBlocks (addr size : Nat) (jit : JitMemory) : JitMemory :=
  (pagesOf addr size).foldl invalidatePage jit

/-- The addresses `invalidate_mmu_page` visits in the 4K page. -/
def mmuPageAddrs (addr : Nat) : List Nat :=
  stepBy (addr / 4096 * 4096) (addr / 4096 * 4096 + 4096) 256

/-- `invalidate_mmu_page`: it clears whole live-range bytes. -/
def invalidateMmuPage (addr : Nat) (jit : JitMemory) : JitMemory :=
  { jit with
    jitEntries := writeJitEntries (addr / 4096 * 4096) 4096 none jit.jitEntries
    jitLiveRanges := (mmuPageAddrs addr).foldl (fun live addr =>
      match getLiveRange addr with
      | none => live
      | some byte => fun page => if page.1 = byte then false else live page) jit.jitLiveRanges }

/-- `invalidate_ram_blocks`. -/
def invalidateRamBlocks (jit : JitMemory) : JitMemory :=
  { jit with
    jitEntries := fun slot => if slot.1 = .rom then jit.jitEntries slot else none
    jitLiveRanges := fun _ => false
    stickySmc := fun _ => 0
    stickyPages := 0 }

/-! ## Memory -/

/-- The widths of an access. -/
inductive MemWidth
  | byte
  | half
  | word
  deriving DecidableEq, Repr

/-- The number of bytes of an access. -/
def MemWidth.bytes : MemWidth → Nat
  | .byte => 1
  | .half => 2
  | .word => 4

/-- A value of a width. -/
abbrev MemWidth.Value (width : MemWidth) := BitVec (8 * width.bytes)

/-- `read_from_mem`, little endian. -/
def readFromMem (width : MemWidth) (shm : Nat → UInt8) (offset : Nat) : width.Value :=
  BitVec.ofNat _ ((List.range width.bytes).foldr (fun i value =>
    (shm (offset + i)).toNat * 256 ^ i + value) 0)

/-- Empty memory reads as 0. -/
theorem readFromMem_zero (width : MemWidth) (offset : Nat) :
    readFromMem width (fun _ => 0) offset = 0 := by
  have hfold : ∀ l : List Nat,
      l.foldr (fun i value => (0 : UInt8).toNat * 256 ^ i + value) 0 = 0 := by
    intro l
    induction l with
    | nil => rfl
    | cons i l => simp
  rw [readFromMem, hfold]
  rfl

/-- `write_to_mem`, little endian. -/
def writeToMem (width : MemWidth) (shm : Nat → UInt8) (offset : Nat) (value : width.Value) :
    Nat → UInt8 := fun a =>
  if offset ≤ a ∧ a < offset + width.bytes then
    UInt8.ofNat (value.toNat / 256 ^ (a - offset))
  else shm a

/-! ## The machine -/

/-- The jit memory, the shared memory and the write table.  `inserted` counts the blocks inserted
so far. -/
structure JitMachine where
  jit : JitMemory
  mmuWrite : Nat → Nat
  shm : Nat → UInt8
  breakoutImm : Bool
  inserted : Nat

/-- The jit entry a guest pc is dispatched to. -/
def jitEntryAt (m : JitMachine) (pc : Nat) : Option CodeBlock :=
  (getJitEntry pc).bind m.jit.jitEntries

/-- `jit_protect_region`. -/
def jitProtectRegion (span : BlockSpan) (region : MemRegion) (mmuWrite : Nat → Nat) : Nat → Nat :=
  let first := span.guestPc / 4096
  let last := (span.guestPcEnd - instSize span.thumb) / 4096
  (List.range' first (last + 1 - first)).foldl (fun mmuWrite i =>
    removeMmuWriteEntry (i * 4096) region mmuWrite) mmuWrite

/-- `jit_set_live_range`. -/
def jitSetLiveRange (span : BlockSpan) (live : LivePage → Bool) : LivePage → Bool :=
  let first := span.guestPc / 256
  let last := (span.guestPcEnd - instSize span.thumb) / 256
  (List.range' first (last + 1 - first)).foldl (fun live i =>
    match livePage (i * 256) with
    | none => live
    | some page => Function.update live page true) live

/-- A block can be inserted: its pc lies in a code region (`todo!` elsewhere), it is shorter than
a host page (asserted), and all its halfwords have entries (the host faults on a null block). -/
def Insertable (span : BlockSpan) : Prop :=
  (span.guestPc / 0x1000000 = 2 ∨ span.guestPc / 0x1000000 = 3 ∨
    (8 ≤ span.guestPc / 0x1000000 ∧ span.guestPc / 0x1000000 < 14)) ∧
  span.guestPcEnd - span.guestPc < 4096 ∧
  ∀ k < (span.guestPcEnd - span.guestPc) / 2, (getJitEntry (span.guestPc + 2 * k)).isSome

instance (span : BlockSpan) : Decidable (Insertable span) :=
  inferInstanceAs (Decidable (_ ∧ _ ∧ _))

/-- The record of an inserted block. -/
def blockMetadata (span : BlockSpan) (addr alignedSize : Nat) : JitBlockMetadata where
  guestPc := span.guestPc ||| span.thumb.toNat
  guestPcEnd := span.guestPcEnd ||| span.thumb.toNat
  addrOffsetStart := addr / 4096
  addrOffsetEnd := (addr + alignedSize) / 4096

/-- `jit_insert_block` of a block with `codeLen` bytes of host code: the machine after it, the
block its entries point at, and whether blocks were freed.  Only iwram is write protected. -/
def jitInsertBlock (span : BlockSpan) (codeLen : Nat) (m : JitMachine) :
    Option (JitMachine × CodeBlock × Bool) :=
  let alignedSize := (codeLen + 4095) / 4096 * 4096
  if Insertable span then
    (allocateBlock alignedSize m.jit).map fun (jit, addr, flushed) =>
      let block : CodeBlock := { span with addr := addr, id := m.inserted }
      ({ m with
          jit := { jit with
            jitEntries := writeJitEntries span.guestPc (span.guestPcEnd - span.guestPc)
              (some block) jit.jitEntries
            jitFuncs := jit.jitFuncs ++ [blockMetadata span addr alignedSize]
            jitLiveRanges := jitSetLiveRange span jit.jitLiveRanges }
          mmuWrite :=
            if span.guestPc / 0x1000000 = 3 then jitProtectRegion span iwramRegion m.mmuWrite
            else m.mmuWrite
          inserted := m.inserted + 1 }, block, flushed)
  else none

/-- `write_iwram`. -/
def writeIwram (addr : Nat) (width : MemWidth) (value : width.Value) (m : JitMachine) :
    JitMachine :=
  let shmOffset := iwramRegion.shmOffset + addr % iwramRegion.size
  if readFromMem width m.shm shmOffset = value then m
  else
    let invalidated := invalidateBlock addr width.bytes m.jit
    let m := { m with
      shm := writeToMem width m.shm shmOffset value
      jit := invalidated.1 }
    if invalidated.2 then
      if isStickySmc invalidated.1 addr then
        { m with
          breakoutImm := true
          jit := invalidateMmuPage addr invalidated.1
          mmuWrite := restoreMmuWriteEntry addr iwramRegion m.mmuWrite }
      else { m with breakoutImm := true }
    else m

/-- The operations on the jit memory. -/
inductive JitOp
  | insert (span : BlockSpan) (codeLen : Nat)
  | writeIwram (addr : Nat) (width : MemWidth) (value : width.Value)
  | invalidateBlock (addr size : Nat)
  | invalidateBlocks (addr size : Nat)
  | invalidateMmuPage (addr : Nat)
  | invalidateRamBlocks
  | resetBlocks

/-- One operation.  There is none where the code follows a null pointer or aborts. -/
def jitStep (m : JitMachine) : JitOp → Option JitMachine
  | .insert span codeLen => (jitInsertBlock span codeLen m).map Prod.fst
  | .writeIwram addr width value =>
      if 0x03000000 ≤ addr ∧ addr + width.bytes ≤ 0x04000000 then
        some (writeIwram addr width value m)
      else none
  | .invalidateBlock addr size =>
      if (livePage addr).isSome ∧ (livePage (addr + size - 1)).isSome then
        some { m with jit := (invalidateBlock addr size m.jit).1 }
      else none
  | .invalidateBlocks addr size =>
      if ∀ page ∈ pagesOf addr size, (livePage page).isSome then
        some { m with jit := invalidateBlocks addr size m.jit }
      else none
  | .invalidateMmuPage addr =>
      if (getJitEntry addr).isSome ∧ addr < 0x10000000 then
        some { m with jit := invalidateMmuPage addr m.jit }
      else none
  | .invalidateRamBlocks => some { m with jit := invalidateRamBlocks m.jit }
  | .resetBlocks => (resetBlocks m.jit).map fun jit => { m with jit := jit }

/-- `JitMemory::init`. -/
def jitInit : JitMemory where
  size := 32 * 1024 * 1024
  start := 0
  stop := 32 * 1024 * 1024
  maxEnd := 32 * 1024 * 1024
  jitFuncs := []
  jitEntries _ := none
  jitLiveRanges _ := false
  stickySmc _ := 0
  stickyPages := 0

/-- The machine after `mmu_update_all`, with any memory. -/
def jitBoot (io : CartridgeIo) (shm : Nat → UInt8) : JitMachine where
  jit := jitInit
  mmuWrite := (updateAllArm7 io).mmuWrite
  shm := shm
  breakoutImm := false
  inserted := 0

/-- A run of the operations leads from `m` to `m'`. -/
abbrev JitReaches (m m' : JitMachine) : Prop := Reaches jitStep (fun _ _ => True) m m'

end AdvancedSlop
