/-
# Live-range coverage

A store notices compiled code by the live bit of the page it writes, so every page that the code
of a reachable block touches should have its bit set.  The bit is shared by all blocks of the
page, and the operations that clear it clear the entries of that page and of the overlap scan
only.

* `LiveCovered` : every page of the code of every iwram entry is live;
* `KeepsCoverage` : the operation clears every iwram entry of a block that touches a page it
  clears;
* `live_coverage_law` : in every run the first holds of all states exactly when the second holds
  of all steps.
-/
import AdvancedSlop.JitInvalidation

namespace AdvancedSlop

open WatchedTable TransitionSystem

/-! ## The law -/

/-- The entry of a guest pc in iwram. -/
def iwramEntry (pc : Nat) : Option JitSlot :=
  if pc / 0x1000000 = 3 then getJitEntry pc else none

/-- The block a guest pc in iwram is dispatched to. -/
def iwramEntryAt (m : JitMachine) (pc : Nat) : Option CodeBlock :=
  (iwramEntry pc).bind m.jit.jitEntries

/-- The block's code touches the live-range page. -/
def TouchesPage (block : CodeBlock) (page : LivePage) : Prop :=
  ∃ x, block.Contains x ∧ livePage x = some page

/-- **Coverage**: every live-range page that the code of an iwram entry touches has its bit set. -/
def LiveCovered (m : JitMachine) : Prop :=
  Covered (iwramEntryAt m) TouchesPage fun page => m.jit.jitLiveRanges page = true

/-- The entries an operation clears. -/
def ClearsEntry (m : JitMachine) : JitOp → JitSlot → Prop
  | .writeIwram addr width value, slot =>
      readFromMem width m.shm (iwramRegion.shmOffset + addr % iwramRegion.size) ≠ value ∧
        StoreClears m.jit addr width.bytes slot
  | .invalidateBlock addr size, slot =>
      ∃ p ∈ hitProbes m.jit addr size, ClearedBy m.jit.jitFuncs p slot
  | .invalidateBlocks addr size, slot =>
      ∃ page ∈ pagesOf addr size, hasJitBlock m.jit page = true ∧ Covers page 256 slot
  | .invalidateMmuPage addr, slot => Covers (addr / 4096 * 4096) 4096 slot
  | .invalidateRamBlocks, slot => slot.1 ≠ .rom
  | .insert _ _, _ => False
  | .resetBlocks, _ => False

/-- The live-range pages whose bit an operation clears. -/
def ClearsPage (m : JitMachine) : JitOp → LivePage → Prop
  | .writeIwram addr width value, page =>
      readFromMem width m.shm (iwramRegion.shmOffset + addr % iwramRegion.size) ≠ value ∧
        StoreUnwatches m.jit addr width.bytes page
  | .invalidateBlock addr size, page => ∃ p ∈ hitProbes m.jit addr size, livePage p = some page
  | .invalidateBlocks addr size, page => ∃ a ∈ pagesOf addr size, livePage a = some page
  | .invalidateMmuPage addr, page => InMmuPage addr page
  | .invalidateRamBlocks, _ => True
  | .insert _ _, _ => False
  | .resetBlocks, _ => False

/-- The operation clears every iwram entry of a block that touches a page it clears. -/
def KeepsCoverage (m : JitMachine) (op : JitOp) : Prop :=
  ∀ pc block, iwramEntryAt m pc = some block →
    (∃ page, TouchesPage block page ∧ ClearsPage m op page) →
      ∃ slot, iwramEntry pc = some slot ∧ ClearsEntry m op slot

/-! ## Insertion and eviction -/

/-- A table that only lost entries, seen from iwram. -/
theorem iwramEntryAt_sub {m m' : JitMachine}
    (h : ∀ slot block, m'.jit.jitEntries slot = some block → m.jit.jitEntries slot = some block)
    {pc : Nat} {block : CodeBlock} (hb : iwramEntryAt m' pc = some block) :
    iwramEntryAt m pc = some block := by
  obtain ⟨slot, hslot, hentry⟩ := Option.bind_eq_some_iff.mp hb
  exact Option.bind_eq_some_iff.mpr ⟨slot, hslot, h slot block hentry⟩

/-- An insertion keeps coverage: it sets the bits of all pages of its block. -/
theorem LiveCovered.inserted {m m' : JitMachine} {block : CodeBlock} (hc : LiveCovered m)
    (h : BlockInserted m m' block) : LiveCovered m' := by
  refine Covered.stored hc block (fun pc b hb => ?_) (fun page hpage => ?_)
    fun page hpage => ?_
  · obtain ⟨slot, hslot, hentry⟩ := Option.bind_eq_some_iff.mp hb
    rcases h.entries_old slot b hentry with hold | ⟨rfl, -⟩
    · exact .inl (Option.bind_eq_some_iff.mpr ⟨slot, hslot, hold⟩)
    · exact .inr rfl
  · rw [h.live]
    exact jitSetLiveRange_mono hpage
  · obtain ⟨x, hx, hlive⟩ := hpage
    rw [h.live]
    exact jitSetLiveRange_of_contains hx hlive _

/-- An operation that clears no bit needs no care. -/
theorem keepsCoverage_of_clears_nothing {m : JitMachine} {op : JitOp}
    (h : ∀ page, ¬ ClearsPage m op page) : KeepsCoverage m op := by
  rintro pc block - ⟨page, -, hclear⟩
  exact absurd hclear (h page)

/-! ## Invalidation -/

/-- What the other operations do, in one form. -/
theorem jitStep_clears {m m' : JitMachine} {op : JitOp} (hinv : JitInv m)
    (h : jitStep m op = some m') (hinsert : ∀ span codeLen, op ≠ .insert span codeLen)
    (hreset : op ≠ .resetBlocks) :
    Erased (ClearsEntry m op) m.jit.jitEntries m'.jit.jitEntries ∧
      ∀ page, m'.jit.jitLiveRanges page = true ↔
        m.jit.jitLiveRanges page = true ∧ ¬ ClearsPage m op page := by
  cases op with
  | insert span codeLen => exact absurd rfl (hinsert span codeLen)
  | resetBlocks => exact absurd rfl hreset
  | writeIwram addr width value =>
      obtain ⟨haddr, rfl⟩ := jitStep_writeIwram h
      rcases writeIwram_spec hinv.tables haddr width value with ⟨hsame, heq⟩ | ⟨hne, -, hst⟩
      · rw [heq]
        exact ⟨Erased.refl (fun _ hclear => hclear.1 hsame) _,
          fun page => (and_iff_left fun hclear => hclear.1 hsame).symm⟩
      · refine ⟨hst.erased.congr fun slot => (and_iff_right hne).symm, fun page => ?_⟩
        rw [hst.live page, ClearsPage, and_iff_right hne]
  | invalidateBlock addr size =>
      simp only [jitStep] at h
      split at h
      · obtain rfl := Option.some.inj h
        exact ⟨invalidateBlock_erased hinv.tables.records addr size,
          invalidateBlock_live addr size m.jit⟩
      · simp at h
  | invalidateBlocks addr size =>
      simp only [jitStep] at h
      split at h
      · obtain rfl := Option.some.inj h
        obtain ⟨herase, hlive, -⟩ := foldl_invalidatePage_spec (pagesOf addr size) m.jit
          fun a ha => mod_of_mem_pagesOf ha
        exact ⟨herase, hlive⟩
      · simp at h
  | invalidateMmuPage addr =>
      simp only [jitStep] at h
      split at h
      · rename_i hrange
        obtain rfl := Option.some.inj h
        obtain ⟨herase, hlive, -⟩ := invalidateMmuPage_spec hrange.2 m.jit
        exact ⟨herase, hlive⟩
      · simp at h
  | invalidateRamBlocks =>
      obtain rfl := Option.some.inj h
      refine ⟨fun slot block => ?_, fun page => by simp [invalidateRamBlocks, ClearsPage]⟩
      simp only [invalidateRamBlocks, ClearsEntry, ne_eq, not_not]
      split
      · rename_i hrom
        simp [hrom]
      · rename_i hrom
        simp [hrom]

/-- **One step** from a covered state keeps coverage exactly under the condition. -/
theorem liveCovered_step_iff {m m' : JitMachine} {op : JitOp} (hinv : JitInv m)
    (hc : LiveCovered m) (h : jitStep m op = some m') : LiveCovered m' ↔ KeepsCoverage m op := by
  by_cases hinsert : ∃ span codeLen, op = .insert span codeLen
  · obtain ⟨span, codeLen, rfl⟩ := hinsert
    obtain ⟨block, -, hins⟩ := jitStep_insert h
    exact iff_of_true (hc.inserted hins) (keepsCoverage_of_clears_nothing fun _ => id)
  · by_cases hreset : op = .resetBlocks
    · subst hreset
      obtain ⟨jit, hjit, rfl⟩ := Option.map_eq_some_iff.mp h
      have hev := resetBlocks_evicted hjit
      refine iff_of_true (fun pc block page hb htouch => ?_)
        (keepsCoverage_of_clears_nothing fun _ => id)
      have hlive := hc pc block page (iwramEntryAt_sub hev.entries hb) htouch
      exact (congrFun hev.live page).trans hlive
    · obtain ⟨herase, hlive⟩ := jitStep_clears hinv h
        (fun span codeLen heq => hinsert ⟨span, codeLen, heq⟩) hreset
      exact Covered.erased_iff hc (herase.comap iwramEntry) hlive

/-- **The coverage law.**  In every run from the start, all states are covered exactly when every
operation clears the iwram entries of the blocks that touch a page it clears. -/
theorem live_coverage_law {io : CartridgeIo} {shm : Nat → UInt8} {m : JitMachine}
    {run : List (JitMachine × JitOp × JitMachine)} (h : Trace jitStep (jitBoot io shm) run m) :
    (∀ x ∈ run, LiveCovered x.2.2) ↔ ∀ x ∈ run, KeepsCoverage x.1 x.2.1 := by
  have hboot : LiveCovered (jitBoot io shm) := by
    intro pc block page hb
    obtain ⟨slot, -, hentry⟩ := Option.bind_eq_some_iff.mp hb
    simp [jitBoot, jitInit] at hentry
  exact Trace.states_iff (fun _ _ _ hinv hstep => jitInv_step hinv hstep)
    (fun _ _ _ hinv hc hstep => liveCovered_step_iff hinv hc hstep) h (jitInv_boot io shm) hboot

/-- An invalidation in a memory with live ranges is a step. -/
theorem jitStep_invalidateBlock_eq {addr size : Nat}
    (h : (livePage addr).isSome ∧ (livePage (addr + size - 1)).isSome) (m : JitMachine) :
    jitStep m (.invalidateBlock addr size) =
      some { m with jit := (invalidateBlock addr size m.jit).1 } :=
  if_pos h

/-- Invalidating an address in the block's code clears the whole block. -/
theorem invalidateInside_covered : ∃ m m', jitStep jitStart (.insert straddlingSpan 64) = some m ∧
    jitStep m (.invalidateBlock 0x03000108 1) = some m' ∧ LiveCovered m' := by
  have hpages : (livePage 0x03000108).isSome ∧ (livePage (0x03000108 + 1 - 1)).isSome := by decide
  have hstep := jitStep_invalidateBlock_eq hpages straddlingInserted
  have htrace := (Trace.nil.snoc straddlingInserted_step).snoc hstep
  refine ⟨_, _, straddlingInserted_step, hstep,
    (live_coverage_law htrace).mpr ?_ _ (List.mem_append_right _ List.mem_cons_self)⟩
  simp only [List.nil_append, List.cons_append, List.forall_mem_cons, List.not_mem_nil,
    false_implies, implies_true, and_true]
  refine ⟨keepsCoverage_of_clears_nothing fun _ => id, fun pc block hentry _ => ?_⟩
  obtain ⟨slot, hslot, hb⟩ := Option.bind_eq_some_iff.mp hentry
  refine ⟨slot, hslot, 0x03000108, by decide, .inr ⟨(0x030000F0, 0x03000110), by decide, ?_⟩⟩
  obtain ⟨new, hspan, hins, -⟩ := straddlingInserted_entry
  rcases hins.entries_old slot block hb with hold | ⟨rfl, hcov⟩
  · simp [jitStart, jitBoot, jitInit] at hold
  · rw [hspan] at hcov
    exact hcov

/-- Invalidating an address of the block's second page that is not in the block clears the page's
bit and leaves the block reachable through its first page. -/
theorem invalidateBeside_uncovered : ∃ m m',
    jitStep jitStart (.insert straddlingSpan 64) = some m ∧
      jitStep m (.invalidateBlock 0x03000180 1) = some m' ∧ ¬ LiveCovered m' := by
  refine ⟨straddlingInserted, _, straddlingInserted_step,
    jitStep_invalidateBlock_eq (by decide) straddlingInserted, fun hcovered => ?_⟩
  obtain ⟨block, hspan, hins, hentry⟩ := straddlingInserted_entry
  have hslot : getJitEntry 0x030000F0 = some (.iwram, 0x78) := by decide
  rw [jitEntryAt, hslot] at hentry
  have hprobes : hitProbes straddlingInserted.jit 0x03000180 1 = [0x03000180] := by decide
  have hlive : livePage 0x03000180 = some ((.iwram, 0), 1) := by decide
  have hclear : ¬ ∃ p ∈ hitProbes straddlingInserted.jit 0x03000180 1,
      ClearedBy straddlingInserted.jit.jitFuncs p (.iwram, 0x78) := by
    have hspans : overlapSpans straddlingInserted.jit.jitFuncs 0x03000180 = [] := by decide
    have hpage := (covers_livePage hlive (.iwram, 0x78)).not.mpr (by decide)
    simp [hprobes, ClearedBy, hspans, hpage]
  have hleft := (invalidateBlock_erased straddlingInserted_inv.tables.records 0x03000180 1 _
    block).mpr ⟨hentry, hclear⟩
  have hiwram : iwramEntry 0x030000F0 = some (.iwram, 0x78) := by decide
  have htouch : TouchesPage block ((.iwram, 0), 1) :=
    ⟨0x03000100, by rw [hspan]; decide, by decide⟩
  have hset := hcovered 0x030000F0 block _
    (Option.bind_eq_some_iff.mpr ⟨_, hiwram, hleft⟩) htouch
  have hcleared := (invalidateBlock_live 0x03000180 1 straddlingInserted.jit ((.iwram, 0), 1)).not
  rw [hprobes] at hcleared
  exact hcleared.mpr (fun h => h.2 ⟨0x03000180, List.mem_cons_self, hlive⟩) hset

end AdvancedSlop
