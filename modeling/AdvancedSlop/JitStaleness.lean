/-
# Stale blocks

When a store changes a byte of iwram, no jit entry should go on pointing at a block compiled from
that byte.  The store finds the blocks through the live-range bits, the entries of the written
page and the overlap scan, and these do not reach all of them: a mirror of the block's addresses,
a page whose bit an earlier hit cleared, a byte the probes do not name, a ninth record.

* `NoStale` : no entry of a later state points at such a block;
* `StoreSeen` : every entry of a block that holds a changed byte is among those the store clears;
* `jit_staleness_law` : in every run the first holds of exactly the steps that the second does.
-/
import AdvancedSlop.JitInvalidation

namespace AdvancedSlop

open WatchedTable TransitionSystem

/-! ## The law -/

/-- The two memories differ in the byte of iwram at the offset. -/
def ChangesByte (shm shm' : Nat → UInt8) (offset : Nat) : Prop :=
  offset < iwramRegion.size ∧
    shm' (iwramRegion.shmOffset + offset) ≠ shm (iwramRegion.shmOffset + offset)

/-- The block's guest code holds the byte of iwram at the offset, in some mirror. -/
def BlockSpan.HoldsByte (span : BlockSpan) (offset : Nat) : Prop :=
  ∃ x, span.Contains x ∧ x / 0x1000000 = 3 ∧ x % iwramRegion.size = offset

/-- No guest pc is dispatched in `t` to a block that holds a byte the step from `m` to `m'`
changed, unless the block was inserted after it. -/
def NoStale (m m' t : JitMachine) : Prop :=
  ∀ pc block offset, jitEntryAt t pc = some block → ChangesByte m.shm m'.shm offset →
    block.HoldsByte offset → m.inserted ≤ block.id

/-- The store, if it writes at all, finds every entry of a block that holds a byte it changes. -/
def StoreSeen (m : JitMachine) : JitOp → Prop
  | .writeIwram addr width value =>
      let shmOffset := iwramRegion.shmOffset + addr % iwramRegion.size
      readFromMem width m.shm shmOffset ≠ value →
        ∀ pc block offset, jitEntryAt m pc = some block →
          ChangesByte m.shm (writeToMem width m.shm shmOffset value) offset →
          block.HoldsByte offset →
          ∃ slot, getJitEntry pc = some slot ∧ StoreClears m.jit addr width.bytes slot
  | _ => True

/-! ## Old blocks -/

/-- A step adds only the block it inserts. -/
theorem jitStep_entries {m m' : JitMachine} {op : JitOp} (hinv : JitInv m)
    (h : jitStep m op = some m') :
    m.inserted ≤ m'.inserted ∧ ∀ slot block, m'.jit.jitEntries slot = some block →
      m.jit.jitEntries slot = some block ∨ m.inserted ≤ block.id := by
  cases op with
  | insert span codeLen =>
      obtain ⟨block, -, hins⟩ := jitStep_insert h
      refine ⟨by rw [hins.inserted]; omega, fun slot block hb => ?_⟩
      rcases hins.entries_old slot block hb with hold | ⟨rfl, -⟩
      · exact .inl hold
      · exact .inr hins.id_eq.ge
  | writeIwram addr width value =>
      obtain ⟨haddr, rfl⟩ := jitStep_writeIwram h
      rcases writeIwram_spec hinv.tables haddr width value with ⟨-, heq⟩ | ⟨-, -, hst⟩
      · rw [heq]
        exact ⟨le_rfl, fun _ _ hb => .inl hb⟩
      · exact ⟨hst.inserted.ge, fun slot block hb => .inl (hst.erased.sub hb)⟩
  | invalidateBlock addr size =>
      simp only [jitStep] at h
      split at h
      · obtain rfl := Option.some.inj h
        exact ⟨le_rfl, fun slot block hb =>
          .inl ((invalidateBlock_erased hinv.tables.records addr size).sub hb)⟩
      · simp at h
  | invalidateBlocks addr size =>
      simp only [jitStep] at h
      split at h
      · obtain rfl := Option.some.inj h
        obtain ⟨herase, -, -⟩ := foldl_invalidatePage_spec (pagesOf addr size) m.jit
          fun a ha => mod_of_mem_pagesOf ha
        exact ⟨le_rfl, fun slot block hb => .inl (herase.sub hb)⟩
      · simp at h
  | invalidateMmuPage addr =>
      simp only [jitStep] at h
      split at h
      · rename_i hrange
        obtain rfl := Option.some.inj h
        exact ⟨le_rfl, fun slot block hb => .inl ((invalidateMmuPage_spec hrange.2 m.jit).1.sub hb)⟩
      · simp at h
  | invalidateRamBlocks =>
      obtain rfl := Option.some.inj h
      refine ⟨le_rfl, fun slot block hb => .inl ?_⟩
      simp only [invalidateRamBlocks] at hb
      split at hb
      · exact hb
      · simp at hb
  | resetBlocks =>
      obtain ⟨jit, hjit, rfl⟩ := Option.map_eq_some_iff.mp h
      exact ⟨le_rfl, fun slot block hb => .inl ((resetBlocks_evicted hjit).entries slot block hb)⟩

/-- An entry of a later state is an entry now, or was inserted since. -/
theorem entries_of_reaches {m t : JitMachine} (hinv : JitInv m) (h : JitReaches m t)
    {pc : Nat} {block : CodeBlock} (hb : jitEntryAt t pc = some block) :
    jitEntryAt m pc = some block ∨ m.inserted ≤ block.id := by
  have hrun : JitInv t ∧ m.inserted ≤ t.inserted ∧
      ∀ slot block, t.jit.jitEntries slot = some block →
        m.jit.jitEntries slot = some block ∨ m.inserted ≤ block.id := by
    refine Reaches.invariant
      (I := fun t => JitInv t ∧ m.inserted ≤ t.inserted ∧
        ∀ slot block, t.jit.jitEntries slot = some block →
          m.jit.jitEntries slot = some block ∨ m.inserted ≤ block.id)
      (fun u op v hu _ hstep => ?_) h ⟨hinv, le_rfl, fun _ _ hb => .inl hb⟩
    obtain ⟨hu, hle, hold⟩ := hu
    obtain ⟨hle', hnew⟩ := jitStep_entries hu hstep
    refine ⟨jitInv_step hu hstep, hle.trans hle', fun slot block hb => ?_⟩
    rcases hnew slot block hb with hb | hid
    · exact hold slot block hb
    · exact .inr (hle.trans hid)
  obtain ⟨slot, hslot, hentry⟩ := Option.bind_eq_some_iff.mp hb
  rcases hrun.2.2 slot block hentry with hold | hid
  · exact .inl (Option.bind_eq_some_iff.mpr ⟨slot, hslot, hold⟩)
  · exact .inr hid

/-- Only stores change memory. -/
theorem jitStep_shm {m m' : JitMachine} {op : JitOp} (h : jitStep m op = some m')
    (hop : ∀ addr width value, op ≠ .writeIwram addr width value) : m'.shm = m.shm := by
  cases op with
  | insert span codeLen =>
      obtain ⟨block, -, hins⟩ := jitStep_insert h
      exact hins.shm
  | writeIwram addr width value => exact absurd rfl (hop addr width value)
  | resetBlocks =>
      obtain ⟨jit, -, rfl⟩ := Option.map_eq_some_iff.mp h
      rfl
  | invalidateRamBlocks =>
      obtain rfl := Option.some.inj h
      rfl
  | _ =>
      simp only [jitStep] at h
      split at h
      · obtain rfl := Option.some.inj h
        rfl
      · simp at h

/-- A step that leaves memory alone leaves nothing stale. -/
theorem noStale_of_shm {m m' : JitMachine} (h : m'.shm = m.shm) (t : JitMachine) :
    NoStale m m' t := by
  intro pc block offset _ hchange _
  exact absurd (by rw [h]) hchange.2

/-! ## The exact condition -/

/-- **A store** leaves nothing stale, now and later, exactly when it is seen. -/
theorem noStale_writeIwram_iff {m : JitMachine} (hinv : JitInv m) {addr : Nat} {width : MemWidth}
    {value : width.Value} (haddr : addr / 0x1000000 = 3)
    (hinv' : JitInv (writeIwram addr width value m)) :
    (∀ t, JitReaches (writeIwram addr width value m) t →
      NoStale m (writeIwram addr width value m) t) ↔ StoreSeen m (.writeIwram addr width value) := by
  rcases writeIwram_spec hinv.tables haddr width value with ⟨hsame, heq⟩ | ⟨hne, hshm, hst⟩
  · rw [heq]
    exact iff_of_true (fun t _ => noStale_of_shm rfl t) fun hne => absurd hsame hne
  · unfold NoStale
    rw [hshm]
    constructor
    · -- What the store does not clear it leaves in the very next state.
      intro hfresh _ pc block offset hentry hbyte hholds
      obtain ⟨slot, hslot, hb⟩ := Option.bind_eq_some_iff.mp hentry
      refine ⟨slot, hslot, ?_⟩
      by_contra hclear
      have hleft : jitEntryAt (writeIwram addr width value m) pc = some block :=
        Option.bind_eq_some_iff.mpr ⟨slot, hslot, (hst.erased slot block).mpr ⟨hb, hclear⟩⟩
      have hid := hfresh _ (Reaches.refl _) pc block offset hleft hbyte hholds
      have hlt := hinv.id_lt slot block hb
      omega
    · intro hseen t ht pc block offset hentry hbyte hholds
      rcases entries_of_reaches hinv' ht hentry with hold | hid
      · obtain ⟨slot, hslot, hb⟩ := Option.bind_eq_some_iff.mp hold
        obtain ⟨hb, hclear⟩ := (hst.erased slot block).mp hb
        obtain ⟨slot', hslot', hclear'⟩ := hseen hne pc block offset
          (Option.bind_eq_some_iff.mpr ⟨slot, hslot, hb⟩) hbyte hholds
        obtain rfl := Option.some.inj (hslot.symm.trans hslot')
        exact absurd hclear' hclear
      · rw [hst.inserted] at hid
        exact hid

/-- One step leaves nothing stale, now and later, exactly when it is seen. -/
theorem noStale_iff {m m' : JitMachine} {op : JitOp} (hinv : JitInv m)
    (h : jitStep m op = some m') :
    (∀ t, JitReaches m' t → NoStale m m' t) ↔ StoreSeen m op := by
  have hinv' := jitInv_step hinv h
  by_cases hop : ∀ addr width value, op ≠ .writeIwram addr width value
  · have hseen : StoreSeen m op := by
      cases op with
      | writeIwram addr width value => exact absurd rfl (hop addr width value)
      | _ => trivial
    exact iff_of_true (fun t _ => noStale_of_shm (jitStep_shm h hop) t) hseen
  · cases op with
    | writeIwram addr width value =>
        obtain ⟨haddr, rfl⟩ := jitStep_writeIwram h
        exact noStale_writeIwram_iff hinv haddr hinv'
    | _ => exact absurd (by simp) hop

/-- **The staleness law.**  In every run from the start, the steps after which no stale block is
ever reachable are exactly those whose store, if any, is seen. -/
theorem jit_staleness_law {io : CartridgeIo} {shm : Nat → UInt8} {m : JitMachine}
    {run : List (JitMachine × JitOp × JitMachine)} (h : Trace jitStep (jitBoot io shm) run m) :
    (∀ x ∈ run, ∀ t, JitReaches x.2.2 t → NoStale x.1 x.2.2 t) ↔
      ∀ x ∈ run, StoreSeen x.1 x.2.1 :=
  Trace.forall_iff_of_invariant (P := fun s _ t => ∀ u, JitReaches t u → NoStale s t u)
    (C := StoreSeen) (fun _ _ _ hinv hstep => jitInv_step hinv hstep)
    (fun _ _ _ hinv hstep => noStale_iff hinv hstep) h (jitInv_boot io shm)

/-! ## Stores into a block over a page border -/

/-- A store to the block's own second page is seen: the overlap scan finds the block. -/
theorem directStore_fresh : ∃ m m', jitStep jitStart (.insert straddlingSpan 64) = some m ∧
    jitStep m (.writeIwram 0x03000108 .half 1) = some m' ∧
      ∀ t, JitReaches m' t → NoStale m m' t := by
  have hrange : 0x03000000 ≤ 0x03000108 ∧ 0x03000108 + MemWidth.half.bytes ≤ 0x04000000 := by decide
  have hstore := jitStep_writeIwram_eq hrange 1 straddlingInserted
  have htrace := (Trace.nil.snoc straddlingInserted_step).snoc hstore
  refine ⟨_, _, straddlingInserted_step, hstore,
    (jit_staleness_law htrace).mpr ?_ _ (List.mem_append_right _ List.mem_cons_self)⟩
  simp only [List.nil_append, List.cons_append, List.forall_mem_cons, List.not_mem_nil,
    false_implies, implies_true, and_true]
  refine ⟨trivial, fun _ pc block offset hentry _ _ => ?_⟩
  obtain ⟨slot, hslot, hb⟩ := Option.bind_eq_some_iff.mp hentry
  refine ⟨slot, hslot, .inl ⟨0x03000108, by decide, .inr ⟨(0x030000F0, 0x03000110), by decide, ?_⟩⟩⟩
  obtain ⟨new, hspan, hins, -⟩ := straddlingInserted_entry
  rcases hins.entries_old slot block hb with hold | ⟨rfl, hcov⟩
  · simp [jitStart, jitBoot, jitInit] at hold
  · rw [hspan] at hcov
    exact hcov

/-- A store to a mirror of the block's second page hits that page, but its raw address lies in no
recorded span: the block stays reachable through its first page. -/
theorem mirrorStore_stale : ∃ m m', jitStep jitStart (.insert straddlingSpan 64) = some m ∧
    jitStep m (.writeIwram 0x03008108 .half 1) = some m' ∧ ¬ NoStale m m' m' := by
  refine ⟨straddlingInserted, _, straddlingInserted_step,
    jitStep_writeIwram_eq (by decide) 1 straddlingInserted, fun hfresh => ?_⟩
  obtain ⟨block, hspan, hins, hentry⟩ := straddlingInserted_entry
  have hslot : getJitEntry 0x030000F0 = some (.iwram, 0x78) := by decide
  have haddr : 0x03008108 / 0x1000000 = 3 := by decide
  rw [jitEntryAt, hslot] at hentry
  rcases writeIwram_spec straddlingInserted_inv.tables haddr .half 1 with ⟨hsame, -⟩ | ⟨-, hshm, hst⟩
  · rw [hins.shm] at hsame
    exact absurd ((readFromMem_zero .half _).symm.trans hsame) (by decide)
  · have hclear : ¬ StoreClears straddlingInserted.jit 0x03008108 2 (.iwram, 0x78) := by
      have hprobes : hitProbes straddlingInserted.jit 0x03008108 2 = [0x03008108] := by decide
      have hspans : overlapSpans straddlingInserted.jit.jitFuncs 0x03008108 = [] := by decide
      have hlive : livePage 0x03008108 = some ((.iwram, 0), 1) := by decide
      have hpage := (covers_livePage hlive (.iwram, 0x78)).not.mpr (by decide)
      have hkeeps : ¬ Demotes straddlingInserted.jit 0x03008108 2 := by decide
      simp [StoreClears, ClearedBy, hprobes, hspans, hpage, hkeeps]
    have hleft := (hst.erased _ block).mpr ⟨hentry, hclear⟩
    have hbyte : ChangesByte straddlingInserted.shm
        (writeIwram 0x03008108 .half 1 straddlingInserted).shm 0x108 := by
      rw [hshm, hins.shm]
      refine ⟨by decide, ?_⟩
      simp [writeToMem, jitStart, jitBoot, iwramRegion, MemWidth.bytes]
    have hholds : block.HoldsByte 0x108 := by
      refine ⟨0x03000108, ?_, by decide, by decide⟩
      rw [hspan]
      decide
    have hid := hfresh 0x030000F0 block 0x108 (by rw [jitEntryAt, hslot]; exact hleft) hbyte hholds
    rw [hins.inserted, hins.id_eq] at hid
    omega

end AdvancedSlop
