/-
# Write protection

Stores to a page with a write entry go straight to memory, so no reachable block may have code in
such a page.  Inserting an iwram block protects its 4K pages in all mirrors.  A page that is hit
too often is demoted: its entries are cleared and it is mapped again.  A block that starts in the
page before and runs into the demoted one keeps its entries there.

* `IwramProtected` : no reachable block has code in a mapped iwram page;
* `KeepsProtection` : a demotion clears every entry of a block with code in its page, and an
  inserted block of another memory has no code in a mapped iwram page;
* `write_protection_law` : in every run the first holds of all states exactly when the second
  holds of all steps.
-/
import AdvancedSlop.JitStaleness

namespace AdvancedSlop

open WatchedTable TransitionSystem

/-! ## The law -/

/-- **Protection**: for every iwram address in a page with a write entry, no reachable block's
code contains the address, in any mirror. -/
def IwramProtected (m : JitMachine) : Prop :=
  ∀ addr, addr / 0x1000000 = 3 → m.mmuWrite (addr / 4096) ≠ 0 →
    ∀ pc block, jitEntryAt m pc = some block → ¬ block.HoldsByte (addr % iwramRegion.size)

/-- The block has code in the 4K frame of iwram. -/
def TouchesFrame (span : BlockSpan) (frame : Nat) : Prop :=
  ∃ x, span.Contains x ∧ x / 0x1000000 = 3 ∧ x / 4096 % 8 = frame

/-- All mirrors of the frame are protected. -/
def FrameProtected (mmuWrite : Nat → Nat) (frame : Nat) : Prop :=
  ∀ q, q / 4096 = 3 → q % 8 = frame → mmuWrite q = 0

/-- The demotion, if the store causes one, clears every entry of a block with code in its frame;
an insertion into another memory reaches no mapped frame of iwram. -/
def KeepsProtection (m : JitMachine) : JitOp → Prop
  | .insert span _ =>
      span.guestPc / 0x1000000 = 3 ∨
        ∀ frame, TouchesFrame span frame → FrameProtected m.mmuWrite frame
  | .writeIwram addr width value =>
      readFromMem width m.shm (iwramRegion.shmOffset + addr % iwramRegion.size) ≠ value →
        Demotes m.jit addr width.bytes →
          ∀ pc block, jitEntryAt m pc = some block →
            TouchesFrame block.toBlockSpan (addr / 4096 % 8) →
            ∃ slot, getJitEntry pc = some slot ∧ StoreClears m.jit addr width.bytes slot
  | _ => True

/-! ## Frames -/

/-- Protection, frame by frame. -/
theorem iwramProtected_iff (m : JitMachine) :
    IwramProtected m ↔
      Covered (jitEntryAt m) (fun block => TouchesFrame block.toBlockSpan)
        (FrameProtected m.mmuWrite) := by
  constructor
  · rintro hp pc block frame hentry ⟨x, hx, hregion, rfl⟩ q hq hframe
    by_contra hmapped
    -- The address of `x` in the mirror of the page `q`.
    have hpage : (q * 4096 + x % 4096) / 4096 = q := by omega
    refine hp (q * 4096 + x % 4096) (by omega) (by rw [hpage]; exact hmapped) pc block hentry
      ⟨x, hx, hregion, ?_⟩
    simp only [iwramRegion]
    omega
  · rintro hc addr haddr hmapped pc block hentry ⟨x, hx, hregion, hbyte⟩
    simp only [iwramRegion] at hbyte
    exact hmapped (hc pc block (x / 4096 % 8) hentry ⟨x, hx, hregion, rfl⟩ (addr / 4096)
      (by omega) (by omega))

/-- A restored frame is the only one that loses its protection. -/
theorem frameProtected_restore {mmu : Nat → Nat} {addr : Nat} (h : addr / 0x1000000 = 3)
    (frame : Nat) :
    FrameProtected (restoreMmuWriteEntry addr iwramRegion mmu) frame ↔
      FrameProtected mmu frame ∧ ¬ frame = addr / 4096 % 8 := by
  constructor
  · intro hp
    refine ⟨fun q hq hframe => ?_, ?_⟩
    · exact ((restoreMmuWriteEntry_iwram mmu h q).mp (hp q hq hframe)).2
    · rintro rfl
      have hzero := hp (addr / 4096) (by omega) rfl
      exact ((restoreMmuWriteEntry_iwram mmu h _).mp hzero).1 ⟨by omega, rfl⟩
  · rintro ⟨hp, hne⟩ q hq hframe
    refine (restoreMmuWriteEntry_iwram mmu h q).mpr ⟨?_, hp q hq hframe⟩
    rintro ⟨-, hmirror⟩
    exact hne (hframe.symm.trans hmirror)

/-- What only loses entries and mapped pages stays protected. -/
theorem IwramProtected.sub {m m' : JitMachine} (hp : IwramProtected m)
    (hentries : ∀ slot block, m'.jit.jitEntries slot = some block →
      m.jit.jitEntries slot = some block)
    (hmmu : m'.mmuWrite = m.mmuWrite) : IwramProtected m' := by
  intro addr haddr hmapped pc block hentry
  rw [hmmu] at hmapped
  obtain ⟨slot, hslot, hb⟩ := Option.bind_eq_some_iff.mp hentry
  exact hp addr haddr hmapped pc block
    (Option.bind_eq_some_iff.mpr ⟨slot, hslot, hentries slot block hb⟩)

/-! ## Insertion -/

/-- An insertion keeps protection exactly when it protects what its block touches. -/
theorem protected_insert_iff {m m' : JitMachine} {block : CodeBlock} {codeLen : Nat}
    (hinv : JitInv m) (hp : IwramProtected m) (h : BlockInserted m m' block) :
    IwramProtected m' ↔ KeepsProtection m (.insert block.toBlockSpan codeLen) := by
  rw [iwramProtected_iff] at hp ⊢
  have hpc : ∃ slot, getJitEntry block.guestPc = some slot ∧
      Covers block.guestPc (block.guestPcEnd - block.guestPc) slot := by
    have hlt := block.pc_lt
    obtain ⟨⟨n, hn⟩, ⟨e, he⟩⟩ := block.toBlockSpan.even
    obtain ⟨slot, hslot⟩ := Option.isSome_iff_exists.mp (h.insertable.2.2 0 (by omega))
    exact ⟨slot, hslot, 0, by omega, hslot⟩
  constructor
  · intro hc
    by_cases hregion : block.guestPc / 0x1000000 = 3
    · exact .inl hregion
    · refine .inr fun frame htouch => ?_
      obtain ⟨slot, hslot, hcov⟩ := hpc
      have hnew := hc block.guestPc block frame
        (Option.bind_eq_some_iff.mpr ⟨slot, hslot, h.entries_new slot hcov⟩) htouch
      rw [h.mmuWrite, if_neg hregion] at hnew
      exact hnew
  · intro hkeep
    refine Covered.stored hp block (fun pc b hb => ?_) (fun frame hframe => ?_)
      fun frame htouch => ?_
    · obtain ⟨slot, hslot, hentry⟩ := Option.bind_eq_some_iff.mp hb
      rcases h.entries_old slot b hentry with hold | ⟨rfl, -⟩
      · exact .inl (Option.bind_eq_some_iff.mpr ⟨slot, hslot, hold⟩)
      · exact .inr rfl
    · rw [h.mmuWrite]
      split
      · rename_i hregion
        intro q hq hq'
        exact (jitProtectRegion_spec h.insertable hregion hinv.mirrors).2.1 q (hframe q hq hq')
      · exact hframe
    · rw [h.mmuWrite]
      split
      · rename_i hregion
        obtain ⟨x, hx, -, rfl⟩ := htouch
        intro q hq hq'
        exact (jitProtectRegion_spec h.insertable hregion hinv.mirrors).2.2 x hx q ⟨hq, hq'⟩
      · rename_i hregion
        rcases hkeep with hiwram | hnone
        · exact absurd hiwram hregion
        · exact hnone frame htouch

/-! ## Stores -/

/-- A store keeps protection exactly when its demotion clears the blocks of its frame. -/
theorem protected_writeIwram_iff {m : JitMachine} {addr : Nat} {width : MemWidth}
    {value : width.Value} (hinv : JitInv m) (hp : IwramProtected m)
    (haddr : addr / 0x1000000 = 3) :
    IwramProtected (writeIwram addr width value m) ↔
      KeepsProtection m (.writeIwram addr width value) := by
  rcases writeIwram_spec hinv.tables haddr width value with ⟨hsame, heq⟩ | ⟨hne, -, hst⟩
  · rw [heq]
    exact iff_of_true hp fun hne => absurd hsame hne
  · by_cases hdemote : Demotes m.jit addr width.bytes
    · rw [iwramProtected_iff] at hp ⊢
      have hmmu : (writeIwram addr width value m).mmuWrite =
          restoreMmuWriteEntry addr iwramRegion m.mmuWrite := by
        rw [hst.mmuWrite, if_pos hdemote]
      rw [hmmu]
      refine (Covered.erased_iff hp (hst.erased.comap getJitEntry)
        (frameProtected_restore haddr)).trans ?_
      constructor
      · intro hall _ _ pc block hentry htouch
        exact hall pc block hentry ⟨_, htouch, rfl⟩
      · rintro hkeep pc block hentry ⟨frame, htouch, rfl⟩
        exact hkeep hne hdemote pc block hentry htouch
    · refine iff_of_true (hp.sub (fun slot block hb => hst.erased.sub hb) ?_) ?_
      · rw [hst.mmuWrite, if_neg hdemote]
      · exact fun _ hd => absurd hd hdemote

/-! ## Every run -/

/-- The operations that neither insert nor store keep the write table. -/
theorem jitStep_mmuWrite {m m' : JitMachine} {op : JitOp} (h : jitStep m op = some m')
    (hinsert : ∀ span codeLen, op ≠ .insert span codeLen)
    (hstore : ∀ addr width value, op ≠ .writeIwram addr width value) :
    m'.mmuWrite = m.mmuWrite ∧ m'.inserted = m.inserted := by
  cases op with
  | insert span codeLen => exact absurd rfl (hinsert span codeLen)
  | writeIwram addr width value => exact absurd rfl (hstore addr width value)
  | resetBlocks =>
      obtain ⟨jit, -, rfl⟩ := Option.map_eq_some_iff.mp h
      exact ⟨rfl, rfl⟩
  | invalidateRamBlocks =>
      obtain rfl := Option.some.inj h
      exact ⟨rfl, rfl⟩
  | _ =>
      simp only [jitStep] at h
      split at h
      · obtain rfl := Option.some.inj h
        exact ⟨rfl, rfl⟩
      · simp at h

/-- **One step** from a protected state keeps protection exactly under the condition. -/
theorem protected_step_iff {m m' : JitMachine} {op : JitOp} (hinv : JitInv m)
    (hp : IwramProtected m) (h : jitStep m op = some m') :
    IwramProtected m' ↔ KeepsProtection m op := by
  by_cases hinsert : ∃ span codeLen, op = .insert span codeLen
  · obtain ⟨span, codeLen, rfl⟩ := hinsert
    obtain ⟨block, rfl, hins⟩ := jitStep_insert h
    exact protected_insert_iff hinv hp hins
  · by_cases hstore : ∃ addr width value, op = .writeIwram addr width value
    · obtain ⟨addr, width, value, rfl⟩ := hstore
      obtain ⟨haddr, rfl⟩ := jitStep_writeIwram h
      exact protected_writeIwram_iff hinv hp haddr
    · obtain ⟨hmmu, hinserted⟩ := jitStep_mmuWrite h
        (fun span codeLen heq => hinsert ⟨span, codeLen, heq⟩)
        (fun addr width value heq => hstore ⟨addr, width, value, heq⟩)
      have hkeep : KeepsProtection m op := by
        cases op with
        | insert span codeLen => exact absurd ⟨span, codeLen, rfl⟩ hinsert
        | writeIwram addr width value => exact absurd ⟨addr, width, value, rfl⟩ hstore
        | _ => trivial
      refine iff_of_true (hp.sub (fun slot block hb => ?_) hmmu) hkeep
      -- A block these operations leave cannot be new.
      rcases (jitStep_entries hinv h).2 slot block hb with hold | hnew
      · exact hold
      · have hlt := (jitInv_step hinv h).id_lt slot block hb
        omega

/-- **The protection law.**  In every run from the start, all states are protected exactly when
every demotion clears the entries of the blocks with code in its page, and no block of another
memory is inserted that has code in a mapped iwram page. -/
theorem write_protection_law {io : CartridgeIo} {shm : Nat → UInt8} {m : JitMachine}
    {run : List (JitMachine × JitOp × JitMachine)} (h : Trace jitStep (jitBoot io shm) run m) :
    (∀ x ∈ run, IwramProtected x.2.2) ↔ ∀ x ∈ run, KeepsProtection x.1 x.2.1 := by
  have hboot : IwramProtected (jitBoot io shm) := by
    intro addr _ _ pc block hentry
    obtain ⟨slot, -, hb⟩ := Option.bind_eq_some_iff.mp hentry
    simp [jitBoot, jitInit] at hb
  exact Trace.states_iff (fun _ _ _ hinv hstep => jitInv_step hinv hstep)
    (fun _ _ _ hinv hp hstep => protected_step_iff hinv hp hstep) h (jitInv_boot io shm) hboot

/-- A hit that does not demote its page keeps protection. -/
theorem directStore_protected : ∃ m m', jitStep jitStart (.insert straddlingSpan 64) = some m ∧
    jitStep m (.writeIwram 0x03000108 .half 1) = some m' ∧ IwramProtected m' := by
  have hrange : 0x03000000 ≤ 0x03000108 ∧ 0x03000108 + MemWidth.half.bytes ≤ 0x04000000 := by decide
  have hstore := jitStep_writeIwram_eq hrange 1 straddlingInserted
  have htrace := (Trace.nil.snoc straddlingInserted_step).snoc hstore
  have hall := (write_protection_law htrace).mpr ?_
  · exact ⟨_, _, straddlingInserted_step, hstore,
      hall (straddlingInserted, .writeIwram 0x03000108 .half 1, _)
        (List.mem_append_right _ List.mem_cons_self)⟩
  simp only [List.nil_append, List.cons_append, List.forall_mem_cons, List.not_mem_nil,
    false_implies, implies_true, and_true]
  have hkeeps : ¬ Demotes straddlingInserted.jit 0x03000108 MemWidth.half.bytes := by decide
  exact ⟨.inl (by decide), fun _ hdemote => absurd hdemote hkeeps⟩

/-! ## A block over the border of a demoted page -/

/-- Sixteen thumb instructions over the border of the first two 4K pages of iwram. -/
def borderSpan : BlockSpan :=
  ⟨0x03000FF0, 0x03001010, true, by decide, by decide, by decide⟩

/-- The block is compiled, and a byte beside it in its second page is written. -/
def borderRound (n : Nat) (m : JitMachine) : JitMachine :=
  writeIwram 0x03001080 .byte n ((jitStep m (.insert borderSpan 64)).getD m)

theorem borderRound_reaches (n : Nat) {m : JitMachine}
    (h : (jitStep m (.insert borderSpan 64)).isSome) : JitReaches m (borderRound n m) := by
  obtain ⟨m', hm'⟩ := Option.isSome_iff_exists.mp h
  have hrange : 0x03000000 ≤ 0x03001080 ∧ 0x03001080 + MemWidth.byte.bytes ≤ 0x04000000 := by decide
  have hstore := jitStep_writeIwram_eq hrange (n : MemWidth.byte.Value) m'
  rw [borderRound, hm']
  exact (Reaches.single trivial hm').tail trivial hstore

/-- The machine after three rounds. -/
def borderRounds : JitMachine := borderRound 3 (borderRound 2 (borderRound 1 jitStart))

theorem borderRounds_reaches : JitReaches jitStart borderRounds :=
  ((borderRound_reaches 1 (by decide)).trans (borderRound_reaches 2 (by decide))).trans
    (borderRound_reaches 3 (by decide))

/-- The fourth hit demotes the page and maps it again, while the block stays reachable through its
first page. -/
theorem demotion_unprotected : ∃ m m' m'', JitReaches jitStart m ∧
    jitStep m (.insert borderSpan 64) = some m' ∧
      jitStep m' (.writeIwram 0x03001080 .byte 4) = some m'' ∧ ¬ IwramProtected m'' := by
  set inserted := (jitStep borderRounds (.insert borderSpan 64)).get (by decide) with hdef
  have hinsert : jitStep borderRounds (.insert borderSpan 64) = some inserted :=
    (Option.some_get _).symm
  refine ⟨_, inserted, _, borderRounds_reaches, hinsert,
    jitStep_writeIwram_eq (by decide) 4 inserted, fun hp => ?_⟩
  have hinv : JitInv inserted :=
    jitInv_step (jitInv_of_reaches borderRounds_reaches) hinsert
  obtain ⟨block, hspan, hins⟩ := jitStep_insert hinsert
  have hslot : getJitEntry 0x03000FF0 = some (.iwram, 0x7F8) := by decide
  have hentry : inserted.jit.jitEntries (.iwram, 0x7F8) = some block :=
    hins.entries_new _ (by rw [hspan]; decide)
  have haddr : 0x03001080 / 0x1000000 = 3 := by decide
  have hdemote : Demotes inserted.jit 0x03001080 MemWidth.byte.bytes := by decide
  rcases writeIwram_spec hinv.tables haddr .byte 4 with ⟨hsame, -⟩ | ⟨-, -, hst⟩
  · exact absurd hsame (by decide)
  · have hclear : ¬ StoreClears inserted.jit 0x03001080 MemWidth.byte.bytes (.iwram, 0x7F8) := by
      have hprobes : hitProbes inserted.jit 0x03001080 MemWidth.byte.bytes = [0x03001080] := by
        decide
      have hspans : overlapSpans inserted.jit.jitFuncs 0x03001080 = [] := by decide
      have hlive : livePage 0x03001080 = some ((.iwram, 2), 0) := by decide
      have hpage := (covers_livePage hlive (.iwram, 0x7F8)).not.mpr (by decide)
      have hframe : ¬ Covers 0x03001000 4096 (.iwram, 0x7F8) := by
        rintro ⟨k, hk, heq⟩
        rw [getJitEntry_eq, codeRegion_iwram (by omega)] at heq
        have hindex := congrArg Prod.snd (Option.some.inj heq)
        simp only [CodeRegion.entriesLen, CodeRegion.size] at hindex
        omega
      simp [StoreClears, ClearedBy, hprobes, hspans, hpage, hframe]
    have hleft := (hst.erased _ block).mpr ⟨hentry, hclear⟩
    have hmapped : (writeIwram 0x03001080 .byte 4 inserted).mmuWrite 0x3001 ≠ 0 := by
      rw [hst.mmuWrite, if_pos hdemote]
      intro hzero
      exact ((restoreMmuWriteEntry_iwram _ haddr 0x3001).mp hzero).1 (by decide)
    have hholds : block.HoldsByte (0x03001000 % iwramRegion.size) :=
      ⟨0x03001000, by rw [hspan]; decide, by decide, rfl⟩
    exact hp 0x03001000 (by decide) hmapped 0x03000FF0 block
      (by rw [jitEntryAt, hslot]; exact hleft) hholds

end AdvancedSlop
