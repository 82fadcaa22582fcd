/-
# The code allocator

`allocate_block` and `reset_blocks` hand out pages of the jit memory as a ring allocator does.

* `JitMemory.ring` : the ring of pages, and `makeRoom_ring` : the code makes room in it;
* `EntriesBacked` : every jit entry is that of a recorded block;
* `AllocatorInv` : what holds of every run;
* `jit_allocator_law` : a request is served as promised exactly when it fits;
* `quarterRequest_fails` : a quarter of the region does not fit at its end.
-/
import AdvancedSlop.JitStaleness
import AdvancedSlop.RingAllocator

namespace AdvancedSlop

open TransitionSystem RingAllocator

/-! ## The ring of pages -/

/-- The host pages of a record. -/
def JitBlockMetadata.pages (record : JitBlockMetadata) : Nat × Nat :=
  (record.addrOffsetStart, record.addrOffsetEnd)

/-- The ring of pages. -/
def JitMemory.ring (jit : JitMemory) : Ring where
  size := jit.maxEnd / 4096
  start := jit.start / 4096
  stop := jit.stop / 4096
  spans := jit.jitFuncs.map JitBlockMetadata.pages

/-- The region has its size, and the room is one of pages. -/
structure Paged (jit : JitMemory) : Prop where
  size : jit.size = 32 * 1024 * 1024
  maxEnd : jit.maxEnd = 32 * 1024 * 1024
  start : 4096 ∣ jit.start
  stop : 4096 ∣ jit.stop

section Ring

variable {jit : JitMemory}

/-- The loop of `reset_blocks` frees spans. -/
theorem resetLoop_free (size freedStart : Nat) (funcs : List JitBlockMetadata) (freedEnd : Nat)
    (entries : JitSlot → Option CodeBlock) :
    (resetLoop size freedStart funcs freedEnd entries).map
        (fun r => (r.1.map JitBlockMetadata.pages, r.2.1)) =
      free (size / 4 / 4096) freedStart (funcs.map JitBlockMetadata.pages) freedEnd := by
  induction funcs generalizing freedEnd entries with
  | nil =>
      rw [resetLoop, List.map_nil, free]
      split_ifs <;> rfl
  | cons record funcs ih =>
      rw [resetLoop, List.map_cons, free]
      show _ = if freedEnd - freedStart < size / 4 / 4096 then
        if record.addrOffsetEnd < freedStart then _ else _ else _
      split_ifs
      · rfl
      · exact ih _ _
      · rfl

theorem stretchLast_stretch (pageEnd : Nat) (funcs : List JitBlockMetadata) :
    (stretchLast pageEnd funcs).map (List.map JitBlockMetadata.pages) =
      stretch pageEnd (funcs.map JitBlockMetadata.pages) := by
  induction funcs with
  | nil => rfl
  | cons record funcs ih =>
      cases funcs with
      | nil => rfl
      | cons next funcs =>
          rw [stretchLast, List.map_cons, List.map_cons, stretch, ← List.map_cons, ← ih,
            Option.map_map, Option.map_map]
          · rfl
          · intro hnil
            cases hnil
          · intro hnil
            cases hnil

/-- `reset_blocks` makes room in the ring. -/
theorem resetBlocks_ring (hpaged : Paged jit) :
    (resetBlocks jit).map JitMemory.ring = jit.ring.reset := by
  unfold resetBlocks Ring.reset
  cases hfuncs : jit.jitFuncs with
  | nil =>
      have hspans : jit.ring.spans = [] := by
        rw [JitMemory.ring, hfuncs]
        rfl
      rw [hspans]
      rfl
  | cons record funcs =>
      have hspans : jit.ring.spans = record.pages :: funcs.map JitBlockMetadata.pages := by
        rw [JitMemory.ring, hfuncs]
        rfl
      have hquarter : jit.ring.quarter = jit.size / 4 / 4096 := by
        show jit.maxEnd / 4096 / 4 = jit.size / 4 / 4096
        rw [hpaged.size, hpaged.maxEnd]
      rw [hspans]
      show _ = (free jit.ring.quarter record.addrOffsetStart (funcs.map JitBlockMetadata.pages)
        record.addrOffsetEnd).map _
      rw [hquarter, ← resetLoop_free jit.size record.addrOffsetStart funcs record.addrOffsetEnd
        (clearRecord record jit.jitEntries), Option.map_map, Option.map_map]
      congr 1
      funext r
      show JitMemory.ring _ = _
      rw [JitMemory.ring]
      dsimp only [Function.comp]
      rw [Nat.mul_div_cancel _ (by decide), Nat.mul_div_cancel _ (by decide)]
      rfl

theorem resetBlocks_paged {jit' : JitMemory} (hpaged : Paged jit)
    (h : resetBlocks jit = some jit') : Paged jit' := by
  unfold resetBlocks at h
  cases hfuncs : jit.jitFuncs with
  | nil =>
      rw [hfuncs] at h
      cases h
  | cons record funcs =>
      rw [hfuncs] at h
      obtain ⟨r, -, rfl⟩ := Option.map_eq_some_iff.mp h
      exact ⟨hpaged.size, hpaged.maxEnd, Nat.dvd_mul_left _ _, Nat.dvd_mul_left _ _⟩

/-- The assertion at the end. -/
theorem roomFits_ring (hpaged : Paged jit) (n : Nat) :
    ((if jit.start + 4096 * n ≤ jit.stop then some (jit, true) else none).map
      fun r : JitMemory × Bool => r.1.ring) =
      if jit.ring.start + n ≤ jit.ring.stop then some jit.ring else none := by
  have hiff : jit.start + 4096 * n ≤ jit.stop ↔ jit.start / 4096 + n ≤ jit.stop / 4096 := by
    have hstart := hpaged.start
    have hstop := hpaged.stop
    omega
  by_cases h : jit.start + 4096 * n ≤ jit.stop
  · rw [if_pos h]
    exact (if_pos (hiff.mp h)).symm
  · rw [if_neg h]
    exact (if_neg (mt hiff.mpr h)).symm

/-- **Making room** in the jit memory is making it in the ring. -/
theorem makeRoom_ring (hpaged : Paged jit) {requiredSize : Nat} (hdvd : 4096 ∣ requiredSize) :
    (makeRoom requiredSize jit).map (fun r => r.1.ring) =
      jit.ring.makeRoom (requiredSize / 4096) := by
  obtain ⟨n, rfl⟩ := hdvd
  obtain ⟨a, ha⟩ := hpaged.start
  obtain ⟨b, hb⟩ := hpaged.stop
  have hpages : ∀ k : Nat, 4096 * k / 4096 = k := fun k => Nat.mul_div_cancel_left k (by decide)
  have hstart : jit.ring.start = a := by rw [← hpages a, ← ha]; rfl
  have hstop : jit.ring.stop = b := by rw [← hpages b, ← hb]; rfl
  have hsize : jit.ring.size = 8192 := by
    show jit.maxEnd / 4096 = 8192
    rw [hpaged.maxEnd]
  unfold makeRoom Ring.makeRoom
  rw [hstart, hstop, hsize, hpages n]
  by_cases hroom : b < a + n
  · have hlt : jit.start + 4096 * n > jit.stop := by omega
    rw [if_pos hroom, if_pos hlt]
    have hrecords : (recordsForReset (4096 * n) jit).map (List.map JitBlockMetadata.pages) =
        if 8192 < a + n then stretch 8192 jit.ring.spans else some jit.ring.spans := by
      have hiff : jit.start + 4096 * n > jit.maxEnd ↔ 8192 < a + n := by
        have := hpaged.maxEnd
        omega
      rw [recordsForReset]
      by_cases hend : 8192 < a + n
      · rw [if_pos hend, if_pos (hiff.mpr hend), stretchLast_stretch, hpaged.maxEnd]
        rfl
      · rw [if_neg hend, if_neg (mt hiff.mp hend)]
        rfl
    rw [← hrecords, Option.map_bind, Option.bind_map]
    refine Option.bind_congr fun funcs _ => ?_
    have hpaged' : Paged { jit with jitFuncs := funcs } :=
      ⟨hpaged.size, hpaged.maxEnd, hpaged.start, hpaged.stop⟩
    have hring : ({ jit with jitFuncs := funcs } : JitMemory).ring =
        ⟨8192, a, b, funcs.map JitBlockMetadata.pages⟩ := by
      rw [← hsize, ← hstart, ← hstop]
      rfl
    show ((resetBlocks { jit with jitFuncs := funcs }).bind _).map _ =
      (Ring.reset ⟨8192, a, b, funcs.map JitBlockMetadata.pages⟩).bind _
    rw [← hring, ← resetBlocks_ring hpaged', Option.map_bind, Option.bind_map]
    refine Option.bind_congr fun jit' h => ?_
    exact roomFits_ring (resetBlocks_paged hpaged' h) n
  · have hle : ¬ jit.start + 4096 * n > jit.stop := by omega
    rw [if_neg hroom, if_neg hle]
    rfl

theorem makeRoom_paged (hpaged : Paged jit) {requiredSize : Nat} {r : JitMemory × Bool}
    (h : makeRoom requiredSize jit = some r) : Paged r.1 := by
  unfold makeRoom at h
  by_cases hroom : jit.start + requiredSize > jit.stop
  · rw [if_pos hroom] at h
    obtain ⟨funcs, -, h⟩ := Option.bind_eq_some_iff.mp h
    obtain ⟨jit', hreset, h⟩ := Option.bind_eq_some_iff.mp h
    have hpaged' : Paged { jit with jitFuncs := funcs } :=
      ⟨hpaged.size, hpaged.maxEnd, hpaged.start, hpaged.stop⟩
    split_ifs at h
    obtain rfl := Option.some.inj h
    exact resetBlocks_paged hpaged' hreset
  · rw [if_neg hroom] at h
    obtain rfl := Option.some.inj h
    exact hpaged

end Ring

/-! ## The entries of records -/

/-- A record can be cleared: `write_jit_entries` reaches all its halfwords. -/
def Clearable (record : JitBlockMetadata) : Prop :=
  record.guestPc + (record.guestPcEnd - record.guestPc) ≤ 0x10000000 ∧
    record.guestPcEnd - record.guestPc ≤ 0x4000

/-- The record is that of the block, whose code has the slot's halfword. -/
def Backs (record : JitBlockMetadata) (block : CodeBlock) (slot : JitSlot) : Prop :=
  record.addrOffsetStart * 4096 = block.addr ∧
    Covers record.guestPc (record.guestPcEnd - record.guestPc) slot

/-- Every entry is that of a record. -/
def EntriesBacked (funcs : List JitBlockMetadata) (entries : JitSlot → Option CodeBlock) : Prop :=
  ∀ slot block, entries slot = some block → ∃ record ∈ funcs, Backs record block slot

section Entries

variable {record : JitBlockMetadata} {funcs : List JitBlockMetadata}
  {entries : JitSlot → Option CodeBlock}

/-- **Evicting the first record** leaves the entries of the others. -/
theorem EntriesBacked.clear (h : EntriesBacked (record :: funcs) entries)
    (hclear : Clearable record) : EntriesBacked funcs (clearRecord record entries) := by
  intro slot block hslot
  rw [clearRecord, writeJitEntries_apply hclear.1 hclear.2] at hslot
  split_ifs at hslot with hcovers
  obtain ⟨r, hr, hbacks⟩ := h slot block hslot
  rcases List.mem_cons.mp hr with rfl | hmem
  · exact absurd hbacks.2 hcovers
  · exact ⟨r, hmem, hbacks⟩

theorem resetLoop_backed {size freedStart freedEnd : Nat}
    {r : List JitBlockMetadata × Nat × (JitSlot → Option CodeBlock)}
    (h : resetLoop size freedStart funcs freedEnd entries = some r)
    (hclear : ∀ record ∈ funcs, Clearable record) (hbacked : EntriesBacked funcs entries) :
    EntriesBacked r.1 r.2.2 := by
  induction funcs generalizing freedEnd entries with
  | nil =>
      rw [resetLoop] at h
      split_ifs at h
      obtain rfl := Option.some.inj h
      exact hbacked
  | cons record funcs ih =>
      rw [resetLoop] at h
      rw [List.forall_mem_cons] at hclear
      split_ifs at h
      · obtain rfl := Option.some.inj h
        exact hbacked
      · exact ih h hclear.2 (hbacked.clear hclear.1)
      · obtain rfl := Option.some.inj h
        exact hbacked

theorem resetBlocks_backed {jit jit' : JitMemory} (h : resetBlocks jit = some jit')
    (hclear : ∀ record ∈ jit.jitFuncs, Clearable record)
    (hbacked : EntriesBacked jit.jitFuncs jit.jitEntries) :
    EntriesBacked jit'.jitFuncs jit'.jitEntries := by
  unfold resetBlocks at h
  cases hfuncs : jit.jitFuncs with
  | nil =>
      rw [hfuncs] at h
      cases h
  | cons record funcs =>
      rw [hfuncs] at h hclear hbacked
      rw [List.forall_mem_cons] at hclear
      obtain ⟨r, hr, rfl⟩ := Option.map_eq_some_iff.mp h
      exact resetLoop_backed hr hclear.2 (hbacked.clear hclear.1)

/-- Stretching keeps what a record backs. -/
theorem stretchLast_backed {pageEnd : Nat} {funcs' : List JitBlockMetadata}
    (h : stretchLast pageEnd funcs = some funcs') :
    (∀ record ∈ funcs, ∃ record' ∈ funcs', SameSpan record record' ∧
      record'.addrOffsetStart = record.addrOffsetStart) := by
  induction funcs generalizing funcs' with
  | nil => cases h
  | cons record funcs ih =>
      cases funcs with
      | nil =>
          obtain rfl := Option.some.inj h
          intro r hr
          obtain rfl := List.mem_singleton.mp hr
          exact ⟨_, List.mem_singleton_self _, ⟨rfl, rfl⟩, rfl⟩
      | cons next funcs =>
          rw [stretchLast] at h
          · obtain ⟨tail, htail, rfl⟩ := Option.map_eq_some_iff.mp h
            intro r hr
            rcases List.mem_cons.mp hr with rfl | hmem
            · exact ⟨r, List.mem_cons_self, ⟨rfl, rfl⟩, rfl⟩
            · obtain ⟨r', hr', hsame⟩ := ih htail r hmem
              exact ⟨r', List.mem_cons_of_mem _ hr', hsame⟩
          · intro hnil
            cases hnil

theorem EntriesBacked.of_same {funcs' : List JitBlockMetadata} (h : EntriesBacked funcs entries)
    (hsame : ∀ record ∈ funcs, ∃ record' ∈ funcs', SameSpan record record' ∧
      record'.addrOffsetStart = record.addrOffsetStart) : EntriesBacked funcs' entries := by
  intro slot block hslot
  obtain ⟨r, hr, haddr, hcovers⟩ := h slot block hslot
  obtain ⟨r', hr', ⟨hpc, hend⟩, hstart⟩ := hsame r hr
  refine ⟨r', hr', hstart ▸ haddr, ?_⟩
  rw [hpc, hend]
  exact hcovers

theorem Clearable.of_same {record' : JitBlockMetadata} (h : Clearable record)
    (hsame : SameSpan record record') : Clearable record' := by
  rw [Clearable, hsame.1, hsame.2]
  exact h

/-- **Making room** leaves the entries of the records that are left. -/
theorem makeRoom_backed {jit : JitMemory} {requiredSize : Nat} {r : JitMemory × Bool}
    (h : makeRoom requiredSize jit = some r)
    (hclear : ∀ record ∈ jit.jitFuncs, Clearable record)
    (hbacked : EntriesBacked jit.jitFuncs jit.jitEntries) :
    EntriesBacked r.1.jitFuncs r.1.jitEntries := by
  unfold makeRoom recordsForReset at h
  by_cases hroom : jit.start + requiredSize > jit.stop
  · rw [if_pos hroom] at h
    obtain ⟨funcs, hfuncs, h⟩ := Option.bind_eq_some_iff.mp h
    obtain ⟨jit', hreset, h⟩ := Option.bind_eq_some_iff.mp h
    split_ifs at h
    obtain rfl := Option.some.inj h
    split_ifs at hfuncs
    · refine resetBlocks_backed hreset (fun record' hrecord' => ?_)
        (hbacked.of_same (stretchLast_backed hfuncs))
      obtain ⟨record, hrecord, hsame⟩ := stretchLast_sub hfuncs record' hrecord'
      exact (hclear record hrecord).of_same hsame
    · obtain rfl := Option.some.inj hfuncs
      exact resetBlocks_backed hreset hclear hbacked
  · rw [if_neg hroom] at h
    obtain rfl := Option.some.inj h
    exact hbacked

end Entries

/-! ## The other operations -/

/-- What the allocator works on. -/
def JitMemory.allocator (jit : JitMemory) : Nat × Nat × Nat × Nat × List JitBlockMetadata :=
  (jit.size, jit.maxEnd, jit.start, jit.stop, jit.jitFuncs)

theorem invalidateProbe_allocator (addr : Nat) (jit : JitMemory) :
    (invalidateProbe addr jit).1.allocator = jit.allocator := by
  cases h : hasJitBlock jit addr with
  | false => rw [invalidateProbe_miss h]
  | true =>
      obtain ⟨page, -, -, heq⟩ := invalidateProbe_hit h
      rw [heq]
      obtain ⟨smc, pages, hbump⟩ := bumpSticky_eq addr { jit with
        jitLiveRanges := Function.update jit.jitLiveRanges page false
        jitEntries := writeJitEntries (addr / 256 * 256) 256 none jit.jitEntries }
      rw [hbump]
      rfl

theorem invalidateBlock_allocator (addr size : Nat) (jit : JitMemory) :
    (invalidateBlock addr size jit).1.allocator = jit.allocator :=
  (invalidateProbe_allocator _ _).trans (invalidateProbe_allocator addr jit)

theorem invalidatePage_allocator (jit : JitMemory) (addr : Nat) :
    (invalidatePage jit addr).allocator = jit.allocator := by
  unfold invalidatePage
  split
  · rfl
  · split <;> rfl

theorem invalidateBlocks_allocator (addr size : Nat) (jit : JitMemory) :
    (invalidateBlocks addr size jit).allocator = jit.allocator := by
  rw [invalidateBlocks]
  induction pagesOf addr size generalizing jit with
  | nil => rfl
  | cons page pages ih =>
      rw [List.foldl_cons, ih, invalidatePage_allocator]

theorem writeIwram_allocator (addr : Nat) (width : MemWidth) (value : width.Value)
    (m : JitMachine) : (writeIwram addr width value m).jit.allocator = m.jit.allocator ∧
      (writeIwram addr width value m).inserted = m.inserted := by
  have hblock := invalidateBlock_allocator addr width.bytes m.jit
  unfold writeIwram
  dsimp only
  split_ifs
  · exact ⟨rfl, rfl⟩
  · exact ⟨hblock, rfl⟩
  · exact ⟨hblock, rfl⟩
  · exact ⟨hblock, rfl⟩

/-- Only an insertion and a reset work on the allocator. -/
theorem jitStep_allocator {m m' : JitMachine} {op : JitOp} (h : jitStep m op = some m')
    (hinsert : ∀ span codeLen, op ≠ .insert span codeLen) (hreset : op ≠ .resetBlocks) :
    m'.jit.allocator = m.jit.allocator ∧ m'.inserted = m.inserted := by
  cases op with
  | insert span codeLen => exact absurd rfl (hinsert span codeLen)
  | resetBlocks => exact absurd rfl hreset
  | writeIwram addr width value =>
      obtain ⟨-, rfl⟩ := jitStep_writeIwram h
      exact writeIwram_allocator addr width value m
  | invalidateBlock addr size =>
      rw [jitStep] at h
      split_ifs at h
      obtain rfl := Option.some.inj h
      exact ⟨invalidateBlock_allocator addr size m.jit, rfl⟩
  | invalidateBlocks addr size =>
      rw [jitStep] at h
      split_ifs at h
      obtain rfl := Option.some.inj h
      exact ⟨invalidateBlocks_allocator addr size m.jit, rfl⟩
  | invalidateMmuPage addr =>
      rw [jitStep] at h
      split_ifs at h
      obtain rfl := Option.some.inj h
      exact ⟨rfl, rfl⟩
  | invalidateRamBlocks =>
      obtain rfl := Option.some.inj h
      exact ⟨rfl, rfl⟩

/-! ## The invariant -/

/-- The size `insert` asks for. -/
def requiredSize (codeLen : Nat) : Nat := (codeLen + 4095) / 4096 * 4096

/-- A quarter of the region. -/
def quarterRegion : Nat := 8 * 1024 * 1024

/-- Blocks ask for no more than a quarter of the region, and only requests free blocks. -/
def AllocStep (_ : JitMachine) : JitOp → Prop
  | .insert _ codeLen => requiredSize codeLen ≤ quarterRegion
  | .resetBlocks => False
  | _ => True

/-- What holds between two operations. -/
structure AllocatorInv (m : JitMachine) : Prop where
  jit : JitInv m
  paged : Paged m.jit
  good : m.jit.ring.Good
  clearable : ∀ record ∈ m.jit.jitFuncs, Clearable record
  backed : EntriesBacked m.jit.jitFuncs m.jit.jitEntries

theorem allocatorInv_boot (io : CartridgeIo) (shm : Nat → UInt8) :
    AllocatorInv (jitBoot io shm) where
  jit := jitInv_boot io shm
  paged := ⟨rfl, rfl, Nat.dvd_zero _, ⟨8192, rfl⟩⟩
  good := ⟨[], [], ⟨rfl, Nat.div_le_div_right (Nat.zero_le _), rfl, 0, Nat.zero_le _, rfl⟩,
    fun _ => ⟨rfl, Nat.zero_div _⟩, fun span hspan => by cases hspan⟩
  clearable record hrecord := by cases hrecord
  backed slot block hslot := by cases hslot

/-- The room that is made for a request. -/
theorem AllocatorInv.room {m : JitMachine} (h : AllocatorInv m) {size : Nat} (hdvd : 4096 ∣ size)
    (hsize : size ≤ quarterRegion) {r : JitMemory × Bool} (hr : makeRoom size m.jit = some r) :
    Ring.Roomy (size / 4096) m.jit.ring r.1.ring := by
  have hring := makeRoom_ring h.paged hdvd
  rw [hr, Option.map_some] at hring
  refine Ring.roomy_of_makeRoom h.good ?_ hring.symm
  show size / 4096 ≤ m.jit.maxEnd / 4096 / 4
  rw [h.paged.maxEnd]
  unfold quarterRegion at hsize
  omega

theorem requiredSize_dvd (codeLen : Nat) : 4096 ∣ requiredSize codeLen := Nat.dvd_mul_left _ _

/-- What is recorded after an insertion. -/
theorem jitInsertBlock_ring {m : JitMachine} {span : BlockSpan} {codeLen : Nat}
    {room : JitMemory × Bool} (hroom : makeRoom (requiredSize codeLen) m.jit = some room)
    (hpaged : Paged room.1) {m' : JitMachine}
    (h : jitStep m (.insert span codeLen) = some m') :
    m'.jit.ring = room.1.ring.record (requiredSize codeLen / 4096) ∧ Paged m'.jit ∧
      m'.jit.jitFuncs = room.1.jitFuncs ++
        [blockMetadata span room.1.start (requiredSize codeLen)] ∧
      m'.jit.jitEntries = writeJitEntries span.guestPc (span.guestPcEnd - span.guestPc)
        (some { span with addr := room.1.start, id := m.inserted }) room.1.jitEntries := by
  obtain ⟨r, hr, rfl⟩ := Option.map_eq_some_iff.mp h
  have hinsertable : Insertable span := by
    obtain ⟨hspan, hinserted⟩ := jitInsertBlock_spec hr
    exact hspan ▸ hinserted.insertable
  unfold jitInsertBlock at hr
  dsimp only at hr
  rw [if_pos hinsertable] at hr
  have hallocate : allocateBlock ((codeLen + 4095) / 4096 * 4096) m.jit = some
      ({ room.1 with start := room.1.start + requiredSize codeLen }, room.1.start, room.2) := by
    rw [allocateBlock]
    show (makeRoom (requiredSize codeLen) m.jit).map _ = _
    rw [hroom]
    rfl
  rw [hallocate, Option.map_some] at hr
  obtain rfl := Option.some.inj hr
  have hstart := hpaged.start
  have hdvd := requiredSize_dvd codeLen
  have hadd : (room.1.start + requiredSize codeLen) / 4096 =
      room.1.start / 4096 + requiredSize codeLen / 4096 := by omega
  refine ⟨?_, ⟨hpaged.size, hpaged.maxEnd, Nat.dvd_add hstart hdvd, hpaged.stop⟩, rfl, rfl⟩
  show (⟨room.1.maxEnd / 4096, (room.1.start + requiredSize codeLen) / 4096, room.1.stop / 4096,
      (room.1.jitFuncs ++ [blockMetadata span room.1.start (requiredSize codeLen)]).map
        JitBlockMetadata.pages⟩ : Ring) =
    ⟨room.1.maxEnd / 4096, room.1.start / 4096 + requiredSize codeLen / 4096, room.1.stop / 4096,
      room.1.jitFuncs.map JitBlockMetadata.pages ++
        [(room.1.start / 4096, room.1.start / 4096 + requiredSize codeLen / 4096)]⟩
  rw [← hadd, List.map_append]
  rfl

/-- The thumb bit of an even address. -/
theorem or_thumb {a : Nat} (h : 2 ∣ a) (thumb : Bool) : a ||| thumb.toNat = a + thumb.toNat := by
  obtain ⟨n, rfl⟩ := h
  exact (Nat.two_pow_add_eq_or_of_lt (i := 1) (Bool.toNat_lt thumb) n).symm

/-- The halfwords of a record are those of its span. -/
theorem blockMetadata_size (span : BlockSpan) (addr size : Nat) :
    (blockMetadata span addr size).guestPcEnd - (blockMetadata span addr size).guestPc =
      span.guestPcEnd - span.guestPc := by
  obtain ⟨heven, heven'⟩ := span.even
  show (span.guestPcEnd ||| span.thumb.toNat) - (span.guestPc ||| span.thumb.toNat) = _
  rw [or_thumb heven, or_thumb heven', Nat.add_sub_add_right]

/-- The record of an insertable span can be cleared. -/
theorem clearable_blockMetadata {span : BlockSpan} (h : Insertable span) (addr size : Nat) :
    Clearable (blockMetadata span addr size) := by
  have hpc : (blockMetadata span addr size).guestPc = span.guestPc + span.thumb.toNat :=
    or_thumb span.even.1 span.thumb
  have hthumb := Bool.toNat_le span.thumb
  obtain ⟨hregion, hlt, -⟩ := h
  rw [Clearable, blockMetadata_size, hpc]
  omega

/-- A record of a span covers what the span does. -/
theorem covers_blockMetadata (span : BlockSpan) (addr size : Nat) {slot : JitSlot}
    (h : Covers span.guestPc (span.guestPcEnd - span.guestPc) slot) :
    Covers (blockMetadata span addr size).guestPc
      ((blockMetadata span addr size).guestPcEnd - (blockMetadata span addr size).guestPc) slot := by
  obtain ⟨k, hk, hentry⟩ := h
  have hpc : (blockMetadata span addr size).guestPc = span.guestPc + span.thumb.toNat :=
    or_thumb span.even.1 span.thumb
  have hthumb := Bool.toNat_le span.thumb
  obtain ⟨n, hn⟩ := span.even.1
  rw [blockMetadata_size, hpc]
  refine ⟨k, hk, ?_⟩
  have hregion : codeRegion (span.guestPc + span.thumb.toNat + 2 * k) =
      codeRegion (span.guestPc + 2 * k) := codeRegion_congr (by omega)
  have hhalf : (span.guestPc + span.thumb.toNat + 2 * k) / 2 = (span.guestPc + 2 * k) / 2 := by
    omega
  rw [getJitEntry_eq] at hentry ⊢
  rw [hregion, hhalf]
  exact hentry

/-- An insertion makes room. -/
theorem jitStep_insert_room {m m' : JitMachine} {span : BlockSpan} {codeLen : Nat}
    (h : jitStep m (.insert span codeLen) = some m') :
    Insertable span ∧ ∃ room, makeRoom (requiredSize codeLen) m.jit = some room := by
  obtain ⟨r, hr, -⟩ := Option.map_eq_some_iff.mp h
  obtain ⟨hspan, hinserted⟩ := jitInsertBlock_spec hr
  have hinsertable : Insertable span := hspan ▸ hinserted.insertable
  refine ⟨hinsertable, ?_⟩
  unfold jitInsertBlock at hr
  dsimp only at hr
  rw [if_pos hinsertable] at hr
  obtain ⟨a, ha, -⟩ := Option.map_eq_some_iff.mp hr
  obtain ⟨room, hroom, -⟩ := Option.map_eq_some_iff.mp ha
  exact ⟨room, hroom⟩

/-- **An insertion keeps the invariant.** -/
theorem AllocatorInv.insert {m m' : JitMachine} {span : BlockSpan} {codeLen : Nat}
    (h : AllocatorInv m) (hsize : requiredSize codeLen ≤ quarterRegion)
    (hstep : jitStep m (.insert span codeLen) = some m') : AllocatorInv m' := by
  obtain ⟨hinsertable, room, hroom⟩ := jitStep_insert_room hstep
  have hpaged := makeRoom_paged h.paged hroom
  have hroomy := h.room (requiredSize_dvd codeLen) hsize hroom
  obtain ⟨hring, hpaged', hfuncs, hentries⟩ := jitInsertBlock_ring hroom hpaged hstep
  have hbacked := makeRoom_backed hroom h.clearable h.backed
  refine ⟨jitInv_step h.jit hstep, hpaged', hring ▸ hroomy.good, ?_, ?_⟩
  · intro record hrecord
    rw [hfuncs] at hrecord
    rcases List.mem_append.mp hrecord with hold | hnew
    · obtain ⟨old, hmem, hsame⟩ := (makeRoom_evicted hroom).funcs record hold
      exact (h.clearable old hmem).of_same hsame
    · obtain rfl := List.mem_singleton.mp hnew
      exact clearable_blockMetadata hinsertable _ _
  · intro slot block hslot
    have hbound : span.guestPc + (span.guestPcEnd - span.guestPc) ≤ 0x10000000 := by
      have := hinsertable.end_lt
      have := span.pc_lt
      omega
    have hlen : span.guestPcEnd - span.guestPc ≤ 0x4000 := by
      have := hinsertable.2.1
      omega
    rw [hentries, writeJitEntries_apply hbound hlen] at hslot
    rw [hfuncs]
    split_ifs at hslot with hcovers
    · obtain rfl := Option.some.inj hslot
      refine ⟨_, List.mem_append_right _ (List.mem_singleton_self _), ?_,
        covers_blockMetadata span _ _ hcovers⟩
      exact Nat.div_mul_cancel hpaged.start
    · obtain ⟨record, hrecord, hbacks⟩ := hbacked slot block hslot
      exact ⟨record, List.mem_append_left _ hrecord, hbacks⟩

/-- **An operation keeps the invariant.** -/
theorem AllocatorInv.step {m m' : JitMachine} {op : JitOp} (h : AllocatorInv m)
    (hop : AllocStep m op) (hstep : jitStep m op = some m') : AllocatorInv m' := by
  by_cases hinsert : ∃ span codeLen, op = .insert span codeLen
  · obtain ⟨span, codeLen, rfl⟩ := hinsert
    exact h.insert hop hstep
  · have hreset : op ≠ .resetBlocks := by
      rintro rfl
      exact hop
    obtain ⟨hkeeps, hinserted⟩ := jitStep_allocator hstep
      (fun span codeLen heq => hinsert ⟨span, codeLen, heq⟩) hreset
    injection hkeeps with hsize hkeeps
    injection hkeeps with hmaxEnd hkeeps
    injection hkeeps with hstart hkeeps
    injection hkeeps with hstop hfuncs
    have hring : m'.jit.ring = m.jit.ring := by
      rw [JitMemory.ring, JitMemory.ring, hmaxEnd, hstart, hstop, hfuncs]
    refine ⟨jitInv_step h.jit hstep, ⟨hsize ▸ h.paged.size, hmaxEnd ▸ h.paged.maxEnd,
      hstart ▸ h.paged.start, hstop ▸ h.paged.stop⟩, hring ▸ h.good, hfuncs ▸ h.clearable, ?_⟩
    intro slot block hslot
    rw [hfuncs]
    obtain hold | hid := (jitStep_entries h.jit hstep).2 slot block hslot
    · exact h.backed slot block hold
    · have hlt := (jitInv_step h.jit hstep).id_lt slot block hslot
      omega

theorem allocatorInv_of_reaches {io : CartridgeIo} {shm : Nat → UInt8} {m : JitMachine}
    (h : Reaches jitStep AllocStep (jitBoot io shm) m) : AllocatorInv m :=
  h.invariant (fun _ _ _ hm hop hstep => hm.step hop hstep) (allocatorInv_boot io shm)

/-! ## The law of the code allocator -/

/-- The request fits into the room that is left, or between the oldest block and the end of the
region. -/
def RequestFits (size : Nat) (jit : JitMemory) : Prop :=
  jit.start + size ≤ jit.stop ∨
    ∀ record ∈ jit.jitFuncs.head?, record.addrOffsetStart * 4096 + size ≤ jit.maxEnd

instance (size : Nat) (jit : JitMemory) : Decidable (RequestFits size jit) :=
  inferInstanceAs (Decidable (_ ∨ _))

/-- The host code of a record lies beside a range. -/
def JitBlockMetadata.Beside (record : JitBlockMetadata) (lo hi : Nat) : Prop :=
  hi ≤ record.addrOffsetStart * 4096 ∨ record.addrOffsetEnd * 4096 ≤ lo

/-- An allocation is as it should be: it is made, in the region, beside every block that is still
recorded, and every jit entry that is left is that of such a block. -/
def AllocationGood (size : Nat) (jit : JitMemory) : Prop :=
  ∃ jit' addr flushed, allocateBlock size jit = some (jit', addr, flushed) ∧
    addr + size ≤ 32 * 1024 * 1024 ∧
    (∀ record ∈ jit'.jitFuncs, record.addrOffsetEnd * 4096 ≤ 32 * 1024 * 1024 ∧
      record.Beside addr (addr + size)) ∧
    (jit'.jitFuncs.Pairwise fun record other =>
      record.Beside (other.addrOffsetStart * 4096) (other.addrOffsetEnd * 4096)) ∧
    EntriesBacked jit'.jitFuncs jit'.jitEntries

section Law

variable {jit : JitMemory} {size : Nat}

/-- A request fits when its pages do. -/
theorem requestFits_iff (hpaged : Paged jit) (hdvd : 4096 ∣ size) :
    RequestFits size jit ↔ jit.ring.Fits (size / 4096) := by
  have hmax : jit.maxEnd = 4096 * 8192 := hpaged.maxEnd
  obtain ⟨n, rfl⟩ := hdvd
  obtain ⟨a, ha⟩ := hpaged.start
  obtain ⟨b, hb⟩ := hpaged.stop
  have hpages : ∀ k : Nat, 4096 * k / 4096 = k := fun k => Nat.mul_div_cancel_left k (by decide)
  have hroom : jit.start + 4096 * n ≤ jit.stop ↔
      jit.ring.start + 4096 * n / 4096 ≤ jit.ring.stop := by
    show _ ↔ jit.start / 4096 + _ ≤ jit.stop / 4096
    rw [ha, hb, hpages, hpages, hpages]
    omega
  have hfront : (∀ record ∈ jit.jitFuncs.head?,
      record.addrOffsetStart * 4096 + 4096 * n ≤ jit.maxEnd) ↔
      ∀ span ∈ jit.ring.spans.head?, span.1 + 4096 * n / 4096 ≤ jit.ring.size := by
    show _ ↔ ∀ span ∈ (jit.jitFuncs.map JitBlockMetadata.pages).head?,
      span.1 + 4096 * n / 4096 ≤ jit.maxEnd / 4096
    rw [hmax, hpages, hpages, List.head?_map]
    constructor
    · intro h span hspan
      obtain ⟨record, hrecord, rfl⟩ := Option.map_eq_some_iff.mp hspan
      have := h record hrecord
      show record.addrOffsetStart + n ≤ 8192
      omega
    · intro h record hrecord
      have hpage : record.addrOffsetStart + n ≤ 8192 :=
        h record.pages (Option.map_eq_some_iff.mpr ⟨record, hrecord, rfl⟩)
      omega
  exact or_congr hroom hfront

/-- What an allocation in room that was made is like. -/
theorem AllocatorInv.allocation {m : JitMachine} (h : AllocatorInv m) (hdvd : 4096 ∣ size)
    (hsize : size ≤ quarterRegion) {room : JitMemory × Bool}
    (hroom : makeRoom size m.jit = some room) : AllocationGood size m.jit := by
  obtain ⟨-, henough, ⟨old, new, hlaid⟩, -⟩ := h.room hdvd hsize hroom
  have hpaged := makeRoom_paged h.paged hroom
  have hmax := hpaged.maxEnd
  have hstart := hpaged.start
  have hstop := hpaged.stop
  change room.1.start / 4096 + size / 4096 ≤ room.1.stop / 4096 at henough
  have hbeside := fun span => @Ring.Laid.beside _ _ _ hlaid span
  have hend : room.1.stop ≤ room.1.maxEnd := by
    have hle : room.1.stop / 4096 ≤ room.1.maxEnd / 4096 := hlaid.2.2.1.le
    omega
  have hallocate : allocateBlock size m.jit = some
      ({ room.1 with start := room.1.start + size }, room.1.start, room.2) := by
    rw [allocateBlock, hroom]
    rfl
  refine ⟨_, _, _, hallocate, by omega, ?_, ?_, makeRoom_backed hroom h.clearable h.backed⟩
  · intro record hrecord
    obtain ⟨-, hin, hside⟩ := hbeside record.pages (List.mem_map_of_mem hrecord)
    change record.addrOffsetEnd ≤ room.1.maxEnd / 4096 at hin
    change room.1.stop / 4096 ≤ record.addrOffsetStart ∨
      record.addrOffsetEnd ≤ room.1.start / 4096 at hside
    unfold JitBlockMetadata.Beside
    omega
  · have hpairs := List.pairwise_map.mp hlaid.pairwise
    refine hpairs.imp fun {record other} hside => ?_
    change record.addrOffsetEnd ≤ other.addrOffsetStart ∨
      other.addrOffsetEnd ≤ record.addrOffsetStart at hside
    unfold JitBlockMetadata.Beside
    omega

/-- **The law of the code allocator.** In every run whose blocks are no larger than a quarter of
the region, a page-multiple request of at most a quarter is served as it should be exactly when it
fits; and every jit entry is that of a block that is still recorded. -/
theorem jit_allocator_law (io : CartridgeIo) (shm : Nat → UInt8) (m : JitMachine) (size : Nat)
    (hrun : Reaches jitStep AllocStep (jitBoot io shm) m) (hdvd : 4096 ∣ size)
    (hsize : size ≤ quarterRegion) :
    (AllocationGood size m.jit ↔ RequestFits size m.jit) ∧
      EntriesBacked m.jit.jitFuncs m.jit.jitEntries := by
  have hinv := allocatorInv_of_reaches hrun
  refine ⟨?_, hinv.backed⟩
  have hquarter : size / 4096 ≤ m.jit.ring.quarter := by
    show size / 4096 ≤ m.jit.maxEnd / 4096 / 4
    rw [hinv.paged.maxEnd]
    unfold quarterRegion at hsize
    omega
  have hiff := Ring.makeRoom_isSome_iff hinv.good hquarter
  rw [← makeRoom_ring hinv.paged hdvd, Option.isSome_map, ← requestFits_iff hinv.paged hdvd]
    at hiff
  rw [← hiff]
  constructor
  · rintro ⟨jit', addr, flushed, hallocate, -⟩
    obtain ⟨room, hroom, -⟩ := Option.map_eq_some_iff.mp hallocate
    rw [hroom]
    rfl
  · intro hsome
    obtain ⟨room, hroom⟩ := Option.isSome_iff_exists.mp hsome
    exact hinv.allocation hdvd hsize hroom

end Law

/-! ## A request at the end of the region -/

/-- Two rounds of blocks.  The oldest one that is left starts two pages in front of the end. -/
def wrappingRun : List JitOp :=
  [2047, 2048, 2047, 2048, 1, 2048, 2048].map fun pages => .insert straddlingSpan (pages * 4096)

theorem wrappingRun_allocStep (m : JitMachine) : ∀ op ∈ wrappingRun, AllocStep m op := by
  intro op hop
  obtain ⟨pages, hpages, rfl⟩ := List.mem_map.mp hop
  have hall : ∀ pages ∈ [2047, 2048, 2047, 2048, 1, 2048, 2048],
      requiredSize (pages * 4096) ≤ quarterRegion := by decide
  exact hall pages hpages

theorem wrappingRun_isSome : (wrappingRun.foldlM jitStep jitStart).isSome := by decide +kernel

/-- The machine after the blocks. -/
def wrappedMachine : JitMachine := (wrappingRun.foldlM jitStep jitStart).get wrappingRun_isSome

theorem wrappedMachine_reached : Reaches jitStep AllocStep jitStart wrappedMachine :=
  .of_foldlM wrappingRun_allocStep (Option.some_get _).symm

/-- **A quarter of the region** is not always free after `reset_blocks`: the blocks that are freed
end where the region does. -/
theorem quarterRequest_fails :
    ¬ ∀ (io : CartridgeIo) (shm : Nat → UInt8) (m : JitMachine) (size : Nat),
      Reaches jitStep AllocStep (jitBoot io shm) m → 4096 ∣ size → size ≤ quarterRegion →
        AllocationGood size m.jit := by
  intro hall
  obtain ⟨jit', addr, flushed, hallocate, -⟩ := hall plainCartridge (fun _ => 0) wrappedMachine
    (2048 * 4096) wrappedMachine_reached (by decide) (by decide)
  have hnone : (allocateBlock (2048 * 4096) wrappedMachine.jit).isSome = false := by
    decide +kernel
  rw [hallocate] at hnone
  cases hnone

/-- What fits into the room there is served. -/
theorem wrappedRequest_fits : AllocationGood (2047 * 4096) wrappedMachine.jit :=
  (jit_allocator_law plainCartridge (fun _ => 0) wrappedMachine (2047 * 4096)
    wrappedMachine_reached (by decide) (by decide)).1.mpr (by decide +kernel)

end AdvancedSlop
