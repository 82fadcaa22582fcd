/-
# What the jit operations clear

For each operation of the jit memory, one statement of what it does to the entries, the live
ranges, the sticky counters and the write table.

* `invalidateBlock_erased`, `invalidateBlocks_erased`, `invalidateMmuPage_erased` : the entries an
  invalidation clears;
* `invalidateBlock_live`, … : the live-range bits it clears;
* `writeIwram_spec` : a store that changes iwram;
* `insertBlock_spec` : an insertion;
* `JitInv`, `jitInv_of_reaches` : the invariants of every run.
-/
import AdvancedSlop.JitMemory

namespace AdvancedSlop

open WatchedTable TransitionSystem

/-! ## Eviction -/

/-- Writing the default entry adds no block, whatever the span. -/
theorem writeLoop_none_sub {α : Type*} (size : Nat) :
    ∀ (addr : Nat) (entries : JitSlot → Option α) (slot : JitSlot) (block : α),
      writeLoop addr size none entries slot = some block → entries slot = some block := by
  induction size using Nat.strong_induction_on with
  | _ size ih =>
      intro addr entries slot block h
      by_cases hsize : 0 < size
      · rw [writeLoop, if_pos hsize] at h
        have hrest := ih _ (by omega) _ _ _ _ h
        cases hmap : jitMap (addr / 8192) with
        | none => simpa only [hmap] using hrest
        | some first =>
            simp only [hmap, fillEntries] at hrest
            split at hrest
            · simp at hrest
            · exact hrest
      · rw [writeLoop, if_neg hsize] at h
        exact h

/-- Clearing a record adds no block. -/
theorem clearRecord_sub {record : JitBlockMetadata} {entries : JitSlot → Option CodeBlock}
    {slot : JitSlot} {block : CodeBlock} (h : clearRecord record entries slot = some block) :
    entries slot = some block :=
  writeLoop_none_sub _ _ _ _ _ h

/-- Two records are of the same guest code. -/
def SameSpan (record record' : JitBlockMetadata) : Prop :=
  record'.guestPc = record.guestPc ∧ record'.guestPcEnd = record.guestPcEnd

/-- `jit'` is `jit` after some evictions: blocks and records are gone, nothing else. -/
structure Evicted (jit jit' : JitMemory) : Prop where
  entries : ∀ slot block, jit'.jitEntries slot = some block → jit.jitEntries slot = some block
  live : jit'.jitLiveRanges = jit.jitLiveRanges
  sticky : jit'.stickySmc = jit.stickySmc
  pages : jit'.stickyPages = jit.stickyPages
  funcs : ∀ record' ∈ jit'.jitFuncs, ∃ record ∈ jit.jitFuncs, SameSpan record record'

/-- The loop of `reset_blocks` drops records and clears entries. -/
theorem resetLoop_sub {size freedStart : Nat} :
    ∀ {funcs : List JitBlockMetadata} {freedEnd : Nat} {entries : JitSlot → Option CodeBlock}
      {r : List JitBlockMetadata × Nat × (JitSlot → Option CodeBlock)},
      resetLoop size freedStart funcs freedEnd entries = some r →
        (∀ record ∈ r.1, record ∈ funcs) ∧
          ∀ slot block, r.2.2 slot = some block → entries slot = some block
  | [], freedEnd, entries, r, h => by
      unfold resetLoop at h
      split at h
      · simp at h
      · obtain rfl := Option.some.inj h
        exact ⟨fun _ hr => hr, fun _ _ hb => hb⟩
  | record :: funcs, freedEnd, entries, r, h => by
      unfold resetLoop at h
      split at h
      · split at h
        · obtain rfl := Option.some.inj h
          exact ⟨fun _ hr => hr, fun _ _ hb => hb⟩
        · obtain ⟨hfuncs, hentries⟩ := resetLoop_sub h
          exact ⟨fun _ hr => List.mem_cons_of_mem _ (hfuncs _ hr),
            fun slot block hb => clearRecord_sub (hentries slot block hb)⟩
      · obtain rfl := Option.some.inj h
        exact ⟨fun _ hr => hr, fun _ _ hb => hb⟩

/-- `reset_blocks` evicts. -/
theorem resetBlocks_evicted {jit jit' : JitMemory} (h : resetBlocks jit = some jit') :
    Evicted jit jit' := by
  unfold resetBlocks at h
  cases hfuncs : jit.jitFuncs with
  | nil => simp [hfuncs] at h
  | cons record funcs =>
      simp only [hfuncs] at h
      obtain ⟨r, hr, rfl⟩ := Option.map_eq_some_iff.mp h
      obtain ⟨hsub, hentries⟩ := resetLoop_sub hr
      refine ⟨fun slot block hb => clearRecord_sub (hentries slot block hb), rfl, rfl, rfl, ?_⟩
      intro record' hrecord'
      refine ⟨record', ?_, rfl, rfl⟩
      rw [hfuncs]
      exact List.mem_cons_of_mem _ (hsub record' hrecord')

/-- Stretching the last record's code keeps the spans. -/
theorem stretchLast_sub {pageEnd : Nat} :
    ∀ {funcs funcs' : List JitBlockMetadata}, stretchLast pageEnd funcs = some funcs' →
      ∀ record' ∈ funcs', ∃ record ∈ funcs, SameSpan record record'
  | [], funcs', h => by simp [stretchLast] at h
  | [record], funcs', h => by
      obtain rfl := Option.some.inj h
      intro record' hrecord'
      obtain rfl := List.mem_singleton.mp hrecord'
      exact ⟨record, List.mem_cons_self, rfl, rfl⟩
  | record :: next :: funcs, funcs', h => by
      rw [stretchLast] at h
      · obtain ⟨tail, htail, rfl⟩ := Option.map_eq_some_iff.mp h
        intro record' hrecord'
        rcases List.mem_cons.mp hrecord' with rfl | hmem
        · exact ⟨record', List.mem_cons_self, rfl, rfl⟩
        · obtain ⟨old, hold, hsame⟩ := stretchLast_sub htail record' hmem
          exact ⟨old, List.mem_cons_of_mem _ hold, hsame⟩
      · simp

/-- Making room evicts. -/
theorem makeRoom_evicted {requiredSize : Nat} {jit : JitMemory} {r : JitMemory × Bool}
    (h : makeRoom requiredSize jit = some r) : Evicted jit r.1 := by
  unfold makeRoom recordsForReset at h
  split at h
  · obtain ⟨funcs, hfuncs, h⟩ := Option.bind_eq_some_iff.mp h
    obtain ⟨jit', hreset, h⟩ := Option.bind_eq_some_iff.mp h
    split at h
    · obtain rfl := Option.some.inj h
      have hev := resetBlocks_evicted hreset
      refine ⟨hev.entries, hev.live, hev.sticky, hev.pages, fun record' hrecord' => ?_⟩
      obtain ⟨record, hrecord, hsame⟩ := hev.funcs record' hrecord'
      split at hfuncs
      · obtain ⟨old, hold, hsame'⟩ := stretchLast_sub hfuncs record hrecord
        exact ⟨old, hold, hsame.1.trans hsame'.1, hsame.2.trans hsame'.2⟩
      · obtain rfl := Option.some.inj hfuncs
        exact ⟨record, hrecord, hsame⟩
    · simp at h
  · obtain rfl := Option.some.inj h
    exact ⟨fun _ _ hb => hb, rfl, rfl, rfl, fun record hrecord => ⟨record, hrecord, rfl, rfl⟩⟩

/-- Allocating evicts. -/
theorem allocateBlock_evicted {requiredSize : Nat} {jit : JitMemory} {r : JitMemory × Nat × Bool}
    (h : allocateBlock requiredSize jit = some r) : Evicted jit r.1 := by
  obtain ⟨room, hroom, rfl⟩ := Option.map_eq_some_iff.mp h
  have hev := makeRoom_evicted hroom
  exact ⟨hev.entries, hev.live, hev.sticky, hev.pages, hev.funcs⟩

/-! ## Probes -/

/-- A recorded span is one `write_jit_entries` clears as a whole. -/
def RecordOk (record : JitBlockMetadata) : Prop :=
  record.guestPcEnd / 2 * 2 ≤ 0x10000000 ∧
    record.guestPcEnd / 2 * 2 - record.guestPc / 2 * 2 ≤ 0x4000

/-- The entries a hit at the address clears: those of its page, and those of the spans the
overlap scan collects. -/
def ClearedBy (funcs : List JitBlockMetadata) (addr : Nat) (slot : JitSlot) : Prop :=
  Covers (addr / 256 * 256) 256 slot ∨
    ∃ span ∈ overlapSpans funcs addr, Covers span.1 (span.2 - span.1) slot

/-- A collected span is that of a record. -/
theorem mem_overlapSpans {funcs : List JitBlockMetadata} {addr : Nat} {span : Nat × Nat}
    (h : span ∈ overlapSpans funcs addr) :
    ∃ record ∈ funcs, span = (record.guestPc / 2 * 2, record.guestPcEnd / 2 * 2) ∧
      span.1 ≤ addr ∧ addr < span.2 := by
  obtain ⟨hmem, hspan⟩ := List.mem_filter.mp (List.mem_of_mem_take h)
  obtain ⟨record, hrecord, rfl⟩ := List.mem_map.mp hmem
  exact ⟨record, hrecord, rfl, by simpa using hspan⟩

/-- `invalidate_overlapping_blocks` clears the spans it collects. -/
theorem invalidateOverlappingBlocks_erased {jit : JitMemory}
    (hok : ∀ record ∈ jit.jitFuncs, RecordOk record) (addr : Nat) :
    Erased (fun slot => ∃ span ∈ overlapSpans jit.jitFuncs addr,
      Covers span.1 (span.2 - span.1) slot)
      jit.jitEntries (invalidateOverlappingBlocks addr jit).jitEntries := by
  refine Erased.foldl _ _ fun span hspan table => ?_
  obtain ⟨record, hrecord, rfl, hlo, hhi⟩ := mem_overlapSpans hspan
  obtain ⟨hend, hsize⟩ := hok record hrecord
  exact writeJitEntries_erased (by simp only at *; omega) hsize table

/-- Counting a hit changes the counters only. -/
theorem bumpSticky_eq (addr : Nat) (jit : JitMemory) :
    ∃ smc pages, bumpSticky addr jit = { jit with stickySmc := smc, stickyPages := pages } := by
  unfold bumpSticky
  split
  · exact ⟨jit.stickySmc, jit.stickyPages, rfl⟩
  · exact ⟨_, _, rfl⟩

/-- A probe that finds a live bit. -/
theorem invalidateProbe_hit {addr : Nat} {jit : JitMemory} (h : hasJitBlock jit addr = true) :
    ∃ page, livePage addr = some page ∧ jit.jitLiveRanges page = true ∧
      invalidateProbe addr jit =
        (invalidateOverlappingBlocks addr (bumpSticky addr
          { jit with
            jitLiveRanges := Function.update jit.jitLiveRanges page false
            jitEntries := writeJitEntries (addr / 256 * 256) 256 none jit.jitEntries }), true) := by
  unfold hasJitBlock at h
  cases hpage : livePage addr with
  | none => simp [hpage] at h
  | some page =>
      simp only [hpage] at h
      exact ⟨page, rfl, h, by simp [invalidateProbe, hpage, h]⟩

/-- A probe that finds none. -/
theorem invalidateProbe_miss {addr : Nat} {jit : JitMemory} (h : hasJitBlock jit addr = false) :
    invalidateProbe addr jit = (jit, false) := by
  unfold hasJitBlock at h
  unfold invalidateProbe
  cases hpage : livePage addr with
  | none => rfl
  | some page =>
      simp only [hpage] at h
      simp [h]

/-- A probe hits where it finds a live bit. -/
theorem invalidateProbe_snd (addr : Nat) (jit : JitMemory) :
    (invalidateProbe addr jit).2 = hasJitBlock jit addr := by
  cases h : hasJitBlock jit addr with
  | false => rw [invalidateProbe_miss h]
  | true =>
      obtain ⟨page, -, -, heq⟩ := invalidateProbe_hit h
      rw [heq]

/-- A probe keeps the records. -/
theorem invalidateProbe_funcs (addr : Nat) (jit : JitMemory) :
    (invalidateProbe addr jit).1.jitFuncs = jit.jitFuncs := by
  cases h : hasJitBlock jit addr with
  | false => rw [invalidateProbe_miss h]
  | true =>
      obtain ⟨page, -, -, heq⟩ := invalidateProbe_hit h
      rw [heq]
      obtain ⟨smc, pages, hbump⟩ := bumpSticky_eq addr { jit with
        jitLiveRanges := Function.update jit.jitLiveRanges page false
        jitEntries := writeJitEntries (addr / 256 * 256) 256 none jit.jitEntries }
      simp only [hbump, invalidateOverlappingBlocks]

/-- **A probe** clears the live bit of its page. -/
theorem invalidateProbe_live (addr : Nat) (jit : JitMemory) (page : LivePage) :
    (invalidateProbe addr jit).1.jitLiveRanges page = true ↔
      jit.jitLiveRanges page = true ∧ livePage addr ≠ some page := by
  cases h : hasJitBlock jit addr with
  | false =>
      rw [invalidateProbe_miss h]
      constructor
      · intro hlive
        refine ⟨hlive, fun hpage => ?_⟩
        simp only [hasJitBlock, hpage] at h
        exact Bool.false_ne_true (h.symm.trans hlive)
      · exact And.left
  | true =>
      obtain ⟨hit, hpage, -, heq⟩ := invalidateProbe_hit h
      rw [heq]
      obtain ⟨smc, pages, hbump⟩ := bumpSticky_eq addr { jit with
        jitLiveRanges := Function.update jit.jitLiveRanges hit false
        jitEntries := writeJitEntries (addr / 256 * 256) 256 none jit.jitEntries }
      simp only [hbump, invalidateOverlappingBlocks, Function.update_apply, hpage, ne_eq,
        Option.some.injEq]
      by_cases hp : page = hit
      · simp [hp]
      · simp [hp, Ne.symm hp]

/-- **A probe** that hits clears the entries of its page and of the spans of the overlap scan. -/
theorem invalidateProbe_erased {jit : JitMemory}
    (hok : ∀ record ∈ jit.jitFuncs, RecordOk record) (addr : Nat) :
    Erased (fun slot => hasJitBlock jit addr = true ∧ ClearedBy jit.jitFuncs addr slot)
      jit.jitEntries (invalidateProbe addr jit).1.jitEntries := by
  cases h : hasJitBlock jit addr with
  | false =>
      rw [invalidateProbe_miss h]
      exact Erased.refl (by simp) _
  | true =>
      obtain ⟨page, hpage, -, heq⟩ := invalidateProbe_hit h
      rw [heq]
      obtain ⟨smc, pages, hbump⟩ := bumpSticky_eq addr { jit with
        jitLiveRanges := Function.update jit.jitLiveRanges page false
        jitEntries := writeJitEntries (addr / 256 * 256) 256 none jit.jitEntries }
      rw [hbump]
      have haddr := lt_of_livePage hpage
      have hend : addr / 256 * 256 + 256 ≤ 0x10000000 := by omega
      refine ((writeJitEntries_erased hend (by omega) jit.jitEntries).trans
        (invalidateOverlappingBlocks_erased ?_ addr)).congr ?_
      · exact hok
      · intro slot
        simp [ClearedBy]

/-! ## `invalidate_block` -/

/-- The probes of `invalidate_block` that find a live bit.  The second finds the bit of the first
one's page cleared already. -/
def hitProbes (jit : JitMemory) (addr size : Nat) : List Nat :=
  (if hasJitBlock jit addr then [addr] else []) ++
    if hasJitBlock jit (addr + size - 1) ∧ livePage (addr + size - 1) ≠ livePage addr then
      [addr + size - 1] else []

/-- After a probe the bit of another address is live when it was and is not the probed one. -/
theorem hasJitBlock_invalidateProbe (addr last : Nat) (jit : JitMemory) :
    hasJitBlock (invalidateProbe addr jit).1 last = true ↔
      hasJitBlock jit last = true ∧ livePage last ≠ livePage addr := by
  unfold hasJitBlock
  cases hlast : livePage last with
  | none => simp
  | some page =>
      simp only
      rw [invalidateProbe_live]
      exact and_congr_right fun _ => ⟨fun h => Ne.symm h, fun h => Ne.symm h⟩

/-- Membership in the probes that hit. -/
theorem mem_hitProbes {jit : JitMemory} {addr size p : Nat} :
    p ∈ hitProbes jit addr size ↔
      (p = addr ∧ hasJitBlock jit addr = true) ∨
        (p = addr + size - 1 ∧ hasJitBlock jit (addr + size - 1) = true ∧
          livePage (addr + size - 1) ≠ livePage addr) := by
  unfold hitProbes
  rw [List.mem_append]
  refine or_congr ?_ ?_
  · split <;> simp_all
  · split <;> simp_all

/-- A probe that hits has a live page. -/
theorem hasJitBlock_of_mem {jit : JitMemory} {addr size p : Nat} (h : p ∈ hitProbes jit addr size) :
    hasJitBlock jit p = true := by
  rcases mem_hitProbes.mp h with ⟨rfl, hlive⟩ | ⟨rfl, hlive, -⟩
  · exact hlive
  · exact hlive

/-- `invalidate_block` hits when a probe does. -/
theorem invalidateBlock_snd (addr size : Nat) (jit : JitMemory) :
    (invalidateBlock addr size jit).2 = true ↔ hitProbes jit addr size ≠ [] := by
  unfold invalidateBlock hitProbes
  simp only [invalidateProbe_snd, Bool.or_eq_true, hasJitBlock_invalidateProbe]
  by_cases hfirst : hasJitBlock jit addr = true
  · simp [hfirst]
  · simp [hfirst]

/-- `invalidate_block` keeps the records. -/
theorem invalidateBlock_funcs (addr size : Nat) (jit : JitMemory) :
    (invalidateBlock addr size jit).1.jitFuncs = jit.jitFuncs := by
  unfold invalidateBlock
  rw [invalidateProbe_funcs, invalidateProbe_funcs]

/-- **`invalidate_block`** clears what its hits clear. -/
theorem invalidateBlock_erased {jit : JitMemory}
    (hok : ∀ record ∈ jit.jitFuncs, RecordOk record) (addr size : Nat) :
    Erased (fun slot => ∃ p ∈ hitProbes jit addr size, ClearedBy jit.jitFuncs p slot)
      jit.jitEntries (invalidateBlock addr size jit).1.jitEntries := by
  have hfirst := invalidateProbe_erased hok addr
  have hok' : ∀ record ∈ (invalidateProbe addr jit).1.jitFuncs, RecordOk record := by
    rw [invalidateProbe_funcs]
    exact hok
  have hsecond := invalidateProbe_erased hok' (addr + size - 1)
  refine (hfirst.trans hsecond).congr fun slot => ?_
  rw [invalidateProbe_funcs, hasJitBlock_invalidateProbe]
  simp only [mem_hitProbes]
  constructor
  · rintro (⟨hhit, hclear⟩ | ⟨hhit, hclear⟩)
    · exact ⟨addr, .inl ⟨rfl, hhit⟩, hclear⟩
    · exact ⟨addr + size - 1, .inr ⟨rfl, hhit⟩, hclear⟩
  · rintro ⟨p, ⟨rfl, hhit⟩ | ⟨rfl, hhit⟩, hclear⟩
    · exact .inl ⟨hhit, hclear⟩
    · exact .inr ⟨hhit, hclear⟩

/-- **`invalidate_block`** clears the live bits of the pages it hits. -/
theorem invalidateBlock_live (addr size : Nat) (jit : JitMemory) (page : LivePage) :
    (invalidateBlock addr size jit).1.jitLiveRanges page = true ↔
      jit.jitLiveRanges page = true ∧
        ¬ ∃ p ∈ hitProbes jit addr size, livePage p = some page := by
  unfold invalidateBlock
  rw [invalidateProbe_live, invalidateProbe_live]
  simp only [mem_hitProbes, and_assoc]
  refine and_congr_right fun hlive => ?_
  have hhit : ∀ p, livePage p = some page → hasJitBlock jit p = true := by
    intro p hp
    simpa [hasJitBlock, hp] using hlive
  constructor
  · rintro ⟨hfirst, hlast⟩ ⟨p, ⟨rfl, -⟩ | ⟨rfl, -⟩, hp⟩
    · exact hfirst hp
    · exact hlast hp
  · intro hnone
    have hfirst : livePage addr ≠ some page := fun hp =>
      hnone ⟨addr, .inl ⟨rfl, hhit addr hp⟩, hp⟩
    refine ⟨hfirst, fun hp => hnone ⟨_, .inr ⟨rfl, hhit _ hp, ?_⟩, hp⟩⟩
    rw [hp]
    exact Ne.symm hfirst

/-! ## Sticky pages -/

/-- A page that reached the threshold was counted. -/
def StickyOk (jit : JitMemory) : Prop :=
  ∀ page, 4 ≤ jit.stickySmc page → jit.stickyPages ≠ 0

/-- The counters after one hit. -/
theorem bumpSticky_apply (addr : Nat) (jit : JitMemory) (page : CodeRegion × Nat) :
    (bumpSticky addr jit).stickySmc page =
      if stickyCounter addr = some page then min 255 (jit.stickySmc page + 1)
      else jit.stickySmc page := by
  unfold bumpSticky
  cases hcounter : stickyCounter addr with
  | none => simp
  | some hit =>
      simp only [Function.update_apply, Option.some.injEq]
      by_cases h : page = hit
      · simp [h]
      · simp [h, Ne.symm h]

/-- Counting a hit counts the page when it reaches the threshold. -/
theorem bumpSticky_ok {jit : JitMemory} (h : StickyOk jit) (addr : Nat) :
    StickyOk (bumpSticky addr jit) := by
  intro page hpage
  rw [bumpSticky_apply] at hpage
  unfold bumpSticky
  cases hcounter : stickyCounter addr with
  | none =>
      simp only [hcounter] at hpage
      exact h page (by simpa using hpage)
  | some hit =>
      simp only [hcounter, Option.some.injEq] at hpage ⊢
      split
      · omega
      · rename_i hnew
        split at hpage
        · rename_i heq
          subst heq
          exact h hit (by omega)
        · exact h page hpage

/-- The counters after a probe. -/
theorem invalidateProbe_sticky (addr : Nat) (jit : JitMemory) (page : CodeRegion × Nat) :
    (invalidateProbe addr jit).1.stickySmc page =
      if hasJitBlock jit addr = true ∧ stickyCounter addr = some page then
        min 255 (jit.stickySmc page + 1)
      else jit.stickySmc page := by
  cases h : hasJitBlock jit addr with
  | false =>
      rw [invalidateProbe_miss h]
      simp
  | true =>
      obtain ⟨hit, -, -, heq⟩ := invalidateProbe_hit h
      rw [heq]
      simp only [invalidateOverlappingBlocks, bumpSticky_apply, true_and]

/-- A probe keeps the count of sticky pages right. -/
theorem invalidateProbe_stickyOk {jit : JitMemory} (hok : StickyOk jit) (addr : Nat) :
    StickyOk (invalidateProbe addr jit).1 := by
  cases h : hasJitBlock jit addr with
  | false =>
      rw [invalidateProbe_miss h]
      exact hok
  | true =>
      obtain ⟨hit, -, -, heq⟩ := invalidateProbe_hit h
      rw [heq]
      have hcleared : StickyOk { jit with
          jitLiveRanges := Function.update jit.jitLiveRanges hit false
          jitEntries := writeJitEntries (addr / 256 * 256) 256 none jit.jitEntries } := hok
      exact bumpSticky_ok hcleared addr

/-- `invalidate_block` keeps the count of sticky pages right. -/
theorem invalidateBlock_stickyOk {jit : JitMemory} (hok : StickyOk jit) (addr size : Nat) :
    StickyOk (invalidateBlock addr size jit).1 :=
  invalidateProbe_stickyOk (invalidateProbe_stickyOk hok addr) _

/-- A count after a probe. -/
theorem stickyCount_invalidateProbe (p addr : Nat) (jit : JitMemory) :
    stickyCount (invalidateProbe p jit).1 addr =
      if hasJitBlock jit p = true ∧ (stickyCounter addr).isSome ∧
          stickyCounter p = stickyCounter addr then
        min 255 (stickyCount jit addr + 1)
      else stickyCount jit addr := by
  unfold stickyCount
  cases haddr : stickyCounter addr with
  | none => simp
  | some page =>
      simp only [invalidateProbe_sticky, Option.isSome_some, true_and]

/-- The hits of `invalidate_block` that count for the page of the address. -/
def hitCount (jit : JitMemory) (addr size : Nat) : Nat :=
  (hitProbes jit addr size).countP fun p => decide (stickyCounter p = stickyCounter addr)

/-- The store of `size` bytes at the address demotes its 4K page: it hits, and its hits bring the
page to the threshold. -/
def Demotes (jit : JitMemory) (addr size : Nat) : Prop :=
  hitProbes jit addr size ≠ [] ∧ 4 ≤ stickyCount jit addr + hitCount jit addr size

instance (jit : JitMemory) (addr size : Nat) : Decidable (Demotes jit addr size) :=
  inferInstanceAs (Decidable (_ ∧ _))

/-- The hits that count, probe by probe. -/
theorem hitCount_eq (jit : JitMemory) (addr size : Nat) :
    hitCount jit addr size =
      (if hasJitBlock jit addr = true then 1 else 0) +
        if (hasJitBlock jit (addr + size - 1) = true ∧
          livePage (addr + size - 1) ≠ livePage addr) ∧
            stickyCounter (addr + size - 1) = stickyCounter addr then 1 else 0 := by
  unfold hitCount hitProbes
  rw [List.countP_append]
  congr 1
  · split <;> simp
  · split
    · rename_i h
      simp [h]
    · rename_i h
      simp only [List.countP_nil]
      exact (if_neg fun hand => h hand.1).symm

/-- Whether a page is at the threshold after `invalidate_block`. -/
theorem stickyCount_invalidateBlock {jit : JitMemory} {addr : Nat}
    (haddr : (stickyCounter addr).isSome) (size : Nat) :
    4 ≤ stickyCount (invalidateBlock addr size jit).1 addr ↔
      4 ≤ stickyCount jit addr + hitCount jit addr size := by
  rw [hitCount_eq]
  unfold invalidateBlock
  simp only [stickyCount_invalidateProbe, hasJitBlock_invalidateProbe, haddr, true_and, and_true]
  split_ifs <;> omega

/-- `is_sticky_smc` after a hit. -/
theorem isStickySmc_invalidateBlock {jit : JitMemory} (hok : StickyOk jit) {addr : Nat}
    (haddr : (stickyCounter addr).isSome) (size : Nat) :
    ((invalidateBlock addr size jit).2 = true ∧
      isStickySmc (invalidateBlock addr size jit).1 addr = true) ↔ Demotes jit addr size := by
  rw [Demotes, invalidateBlock_snd, ← stickyCount_invalidateBlock haddr]
  refine and_congr_right fun _ => ?_
  simp only [isStickySmc, Bool.and_eq_true, decide_eq_true_eq]
  refine ⟨And.right, fun h => ⟨?_, h⟩⟩
  obtain ⟨page, hpage⟩ := Option.isSome_iff_exists.mp haddr
  simp only [stickyCount, hpage] at h
  exact invalidateBlock_stickyOk hok addr size page h

/-! ## Page invalidations -/

/-- `jit'` has the records and the counters of `jit`. -/
structure SameRecords (jit jit' : JitMemory) : Prop where
  funcs : jit'.jitFuncs = jit.jitFuncs
  sticky : jit'.stickySmc = jit.stickySmc
  pages : jit'.stickyPages = jit.stickyPages

/-- One round of `invalidate_blocks`. -/
theorem invalidatePage_spec {addr : Nat} (haddr : addr % 256 = 0) (jit : JitMemory) :
    Erased (fun slot => hasJitBlock jit addr = true ∧ Covers addr 256 slot)
      jit.jitEntries (invalidatePage jit addr).jitEntries ∧
    (∀ page, (invalidatePage jit addr).jitLiveRanges page = true ↔
      jit.jitLiveRanges page = true ∧ livePage addr ≠ some page) ∧
    SameRecords jit (invalidatePage jit addr) := by
  unfold invalidatePage hasJitBlock
  cases hpage : livePage addr with
  | none => exact ⟨Erased.refl (by simp) _, by simp, rfl, rfl, rfl⟩
  | some page =>
      have hlt := lt_of_livePage hpage
      simp only
      split
      · rename_i hlive
        refine ⟨?_, fun other => ?_, rfl, rfl, rfl⟩
        · exact (writeJitEntries_erased (by omega) (by omega) _).congr fun slot => by simp [hlive]
        · simp only [Function.update_apply, ne_eq, Option.some.injEq]
          by_cases h : other = page
          · simp [h]
          · simp [h, Ne.symm h]
      · rename_i hlive
        refine ⟨Erased.refl (by simp [hlive]) _, fun other => ?_, rfl, rfl, rfl⟩
        simp only [ne_eq, Option.some.injEq]
        refine (and_iff_left_of_imp ?_).symm
        rintro hother rfl
        exact hlive hother

/-- The rounds of `invalidate_blocks`: a page visited again through a mirror has its bit clear and
its entries cleared already. -/
theorem foldl_invalidatePage_spec :
    ∀ (l : List Nat) (jit : JitMemory), (∀ addr ∈ l, addr % 256 = 0) →
      Erased (fun slot => ∃ addr ∈ l, hasJitBlock jit addr = true ∧ Covers addr 256 slot)
        jit.jitEntries (l.foldl invalidatePage jit).jitEntries ∧
      (∀ page, (l.foldl invalidatePage jit).jitLiveRanges page = true ↔
        jit.jitLiveRanges page = true ∧ ¬ ∃ addr ∈ l, livePage addr = some page) ∧
      SameRecords jit (l.foldl invalidatePage jit)
  | [], jit, _ => ⟨Erased.refl (by simp) _, by simp, rfl, rfl, rfl⟩
  | addr :: l, jit, hl => by
      have haddr := hl addr List.mem_cons_self
      obtain ⟨herase, hlive, hsame⟩ := invalidatePage_spec haddr jit
      obtain ⟨herase', hlive', hsame'⟩ := foldl_invalidatePage_spec l (invalidatePage jit addr)
        fun a ha => hl a (List.mem_cons_of_mem _ ha)
      refine ⟨(herase.trans herase').congr fun slot => ?_, fun page => ?_,
        hsame'.funcs.trans hsame.funcs, hsame'.sticky.trans hsame.sticky,
        hsame'.pages.trans hsame.pages⟩
      · constructor
        · rintro (⟨hhit, hcov⟩ | ⟨a, ha, hhit, hcov⟩)
          · exact ⟨addr, List.mem_cons_self, hhit, hcov⟩
          · refine ⟨a, List.mem_cons_of_mem _ ha, ?_, hcov⟩
            unfold hasJitBlock at hhit ⊢
            cases hpage : livePage a with
            | none => simp [hpage] at hhit
            | some page =>
                simp only [hpage] at hhit ⊢
                exact ((hlive page).mp hhit).1
        · rintro ⟨a, ha, hhit, hcov⟩
          rcases List.mem_cons.mp ha with rfl | hmem
          · exact .inl ⟨hhit, hcov⟩
          · unfold hasJitBlock at hhit
            cases hpage : livePage a with
            | none => simp [hpage] at hhit
            | some page =>
                simp only [hpage] at hhit
                by_cases hsamePage : livePage addr = some page
                · left
                  have hround : ∀ b : Nat, b % 256 = 0 → b / 256 * 256 = b := by omega
                  refine ⟨by simpa [hasJitBlock, hsamePage] using hhit, ?_⟩
                  rw [← hround addr haddr]
                  refine (covers_page_congr hsamePage hpage slot).mpr ?_
                  rw [hround a (hl a ha)]
                  exact hcov
                · refine .inr ⟨a, hmem, ?_, hcov⟩
                  simp only [hasJitBlock, hpage]
                  exact (hlive page).mpr ⟨hhit, hsamePage⟩
      · rw [List.foldl_cons, hlive' page, hlive page]
        simp [and_assoc]

/-- The pages `invalidate_blocks` visits begin at multiples of their size. -/
theorem mod_of_mem_pagesOf {addr size a : Nat} (h : a ∈ pagesOf addr size) : a % 256 = 0 := by
  obtain ⟨i, rfl, -⟩ := (mem_stepBy (by decide)).mp h
  omega

/-- A live-range page whose byte `invalidate_mmu_page` clears. -/
def InMmuPage (addr : Nat) (page : LivePage) : Prop :=
  ∃ a ∈ mmuPageAddrs addr, getLiveRange a = some page.1

/-- The live ranges after the loop of `invalidate_mmu_page`. -/
theorem foldl_clearByte (page : LivePage) :
    ∀ (l : List Nat) (live : LivePage → Bool),
      l.foldl (fun live addr =>
        match getLiveRange addr with
        | none => live
        | some byte => fun page => if page.1 = byte then false else live page) live page = true ↔
      live page = true ∧ ¬ ∃ a ∈ l, getLiveRange a = some page.1
  | [], live => by simp
  | a :: l, live => by
      rw [List.foldl_cons, foldl_clearByte page l]
      cases hbyte : getLiveRange a with
      | none => simp [hbyte]
      | some byte =>
          by_cases h : page.1 = byte
          · simp [hbyte, h]
          · simp [hbyte, h, Ne.symm h]

/-- **`invalidate_mmu_page`** clears the entries and the live ranges of the 4K page. -/
theorem invalidateMmuPage_spec {addr : Nat} (haddr : addr < 0x10000000) (jit : JitMemory) :
    Erased (Covers (addr / 4096 * 4096) 4096) jit.jitEntries
      (invalidateMmuPage addr jit).jitEntries ∧
    (∀ page, (invalidateMmuPage addr jit).jitLiveRanges page = true ↔
      jit.jitLiveRanges page = true ∧ ¬ InMmuPage addr page) ∧
    SameRecords jit (invalidateMmuPage addr jit) :=
  ⟨writeJitEntries_erased (by omega) (by omega) _, fun page => foldl_clearByte page _ _,
    rfl, rfl, rfl⟩

/-! ## Insertion -/

/-- A span ends on a halfword. -/
theorem BlockSpan.even (span : BlockSpan) : 2 ∣ span.guestPc ∧ 2 ∣ span.guestPcEnd := by
  have hstep : 2 ∣ instSize span.thumb := by
    cases span.thumb <;> decide
  exact ⟨hstep.trans span.pc_aligned, hstep.trans span.end_aligned⟩

/-- The last instruction of a span lies in the page of its last byte, for any page size. -/
theorem BlockSpan.last_page (span : BlockSpan) {x size : Nat} (hx : span.Contains x)
    (hsize : 4 ∣ size) (hpos : 0 < size) :
    x / size ≤ (span.guestPcEnd - instSize span.thumb) / size := by
  obtain ⟨hlo, hhi⟩ := hx
  have hstep : instSize span.thumb = 2 ∨ instSize span.thumb = 4 := by
    cases span.thumb <;> simp [instSize]
  have hdiv : instSize span.thumb ∣ size := by
    rcases hstep with h | h <;> rw [h]
    · exact (by decide : 2 ∣ 4).trans hsize
    · exact hsize
  obtain ⟨n, hn⟩ := span.end_aligned
  obtain ⟨d, rfl⟩ := hdiv
  set step := instSize span.thumb with hstepdef
  have hpos' : 0 < step := by omega
  rw [Nat.le_div_iff_mul_le hpos, ← Nat.lt_add_one_iff, hn]
  have hxn : x / step < n := by
    rw [Nat.div_lt_iff_lt_mul hpos', Nat.mul_comm]
    omega
  have hle : x / (step * d) * (step * d) ≤ step * (x / step) := by
    rw [← Nat.div_div_eq_div_mul, Nat.mul_comm step d, ← Nat.mul_assoc, Nat.mul_comm step]
    exact Nat.mul_le_mul_right _ (Nat.div_mul_le_self _ _)
  have hlast : step * (x / step) ≤ step * n - step := by
    rw [← Nat.mul_sub_one]
    exact Nat.mul_le_mul_left _ (by omega)
  omega

/-- The pages a loop over a span visits hold all its addresses. -/
theorem BlockSpan.mem_pages (span : BlockSpan) {x size : Nat} (hx : span.Contains x)
    (hsize : 4 ∣ size) (hpos : 0 < size) :
    x / size ∈ List.range' (span.guestPc / size)
      ((span.guestPcEnd - instSize span.thumb) / size + 1 - span.guestPc / size) := by
  have hlast := span.last_page hx hsize hpos
  have hfirst : span.guestPc / size ≤ x / size := Nat.div_le_div_right hx.1
  rw [List.mem_range'_1]
  omega

/-- The live ranges after a loop that sets the bits of pages. -/
theorem foldl_setBit (page : LivePage) :
    ∀ (l : List Nat) (live : LivePage → Bool),
      l.foldl (fun live i =>
        match livePage (i * 256) with
        | none => live
        | some page => Function.update live page true) live page = true ↔
      live page = true ∨ ∃ i ∈ l, livePage (i * 256) = some page
  | [], live => by simp
  | i :: l, live => by
      rw [List.foldl_cons, foldl_setBit page l]
      cases hpage : livePage (i * 256) with
      | none => simp [hpage]
      | some set =>
          by_cases h : page = set
          · simp [hpage, h]
          · simp [hpage, h, Ne.symm h]

/-- **`jit_set_live_range`** sets the bits of all pages of the span. -/
theorem jitSetLiveRange_of_contains {span : BlockSpan} {x : Nat} (hx : span.Contains x)
    {page : LivePage} (hpage : livePage x = some page) (live : LivePage → Bool) :
    jitSetLiveRange span live page = true := by
  refine (foldl_setBit page _ live).mpr (.inr ⟨x / 256, ?_, ?_⟩)
  · exact span.mem_pages hx (by decide) (by decide)
  · rw [← hpage]
    exact livePage_congr (by omega)

/-- `jit_set_live_range` clears no bit. -/
theorem jitSetLiveRange_mono {span : BlockSpan} {live : LivePage → Bool} {page : LivePage}
    (h : live page = true) : jitSetLiveRange span live page = true :=
  (foldl_setBit page _ live).mpr (.inl h)

/-- The write table after a loop that protects iwram pages. -/
theorem foldl_removeMmuWriteEntry :
    ∀ (l : List Nat) (mmu : Nat → Nat), MirrorsAgree mmu → (∀ i ∈ l, i / 4096 = 3) →
      MirrorsAgree (l.foldl (fun mmu i => removeMmuWriteEntry (i * 4096) iwramRegion mmu) mmu) ∧
      ∀ q, l.foldl (fun mmu i => removeMmuWriteEntry (i * 4096) iwramRegion mmu) mmu q = 0 ↔
        (∃ i ∈ l, IwramMirror (i * 4096) q) ∨ mmu q = 0
  | [], mmu, hagree, _ => ⟨hagree, by simp⟩
  | i :: l, mmu, hagree, hl => by
      have hi : i * 4096 / 0x1000000 = 3 := by
        have := hl i List.mem_cons_self
        omega
      obtain ⟨hagree', hzero⟩ := foldl_removeMmuWriteEntry l _ (hagree.remove hi)
        fun j hj => hl j (List.mem_cons_of_mem _ hj)
      refine ⟨hagree', fun q => ?_⟩
      rw [List.foldl_cons, hzero q, removeMmuWriteEntry_iwram hagree hi]
      simp only [List.mem_cons, exists_eq_or_imp]
      exact or_left_comm.trans or_assoc.symm

/-- An insertable block with an iwram pc ends in iwram: past it are no entries. -/
theorem Insertable.iwram_end {span : BlockSpan} (h : Insertable span)
    (hpc : span.guestPc / 0x1000000 = 3) : span.guestPcEnd ≤ 0x04000000 := by
  obtain ⟨-, -, hentries⟩ := h
  obtain ⟨⟨n, hn⟩, ⟨e, he⟩⟩ := span.even
  by_contra hend
  have hsome := hentries ((0x04000000 - span.guestPc) / 2) (by omega)
  rw [show span.guestPc + 2 * ((0x04000000 - span.guestPc) / 2) = 0x04000000 by omega] at hsome
  revert hsome
  decide

/-- **`jit_protect_region`** clears the write entries of all pages of the span, in every mirror,
and maps none. -/
theorem jitProtectRegion_spec {span : BlockSpan} (h : Insertable span)
    (hpc : span.guestPc / 0x1000000 = 3) {mmu : Nat → Nat} (hagree : MirrorsAgree mmu) :
    MirrorsAgree (jitProtectRegion span iwramRegion mmu) ∧
      (∀ q, mmu q = 0 → jitProtectRegion span iwramRegion mmu q = 0) ∧
      ∀ x, span.Contains x → ∀ q, IwramMirror x q → jitProtectRegion span iwramRegion mmu q = 0 := by
  have hend := h.iwram_end hpc
  have hlt := span.pc_lt
  have hpages : ∀ i ∈ List.range' (span.guestPc / 4096)
      ((span.guestPcEnd - instSize span.thumb) / 4096 + 1 - span.guestPc / 4096),
      i / 4096 = 3 := by
    intro i hi
    obtain ⟨hlo, hhi⟩ := List.mem_range'_1.mp hi
    have hstep : 2 ≤ instSize span.thumb := by
      cases span.thumb <;> decide
    omega
  obtain ⟨hagree', hzero⟩ := foldl_removeMmuWriteEntry _ mmu hagree hpages
  refine ⟨hagree', fun q hq => (hzero q).mpr (.inr hq), fun x hx q hq => (hzero q).mpr (.inl ?_)⟩
  refine ⟨x / 4096, span.mem_pages hx (by decide) (by decide), hq.1, ?_⟩
  rw [hq.2]
  omega

/-- The even part of an address with the thumb bit. -/
theorem or_thumb_even {a : Nat} (h : 2 ∣ a) (thumb : Bool) : (a ||| thumb.toNat) / 2 * 2 = a := by
  obtain ⟨n, rfl⟩ := h
  rw [Nat.or_div_two]
  cases thumb <;> simp [Nat.mul_comm]

/-- What an insertion does. -/
structure BlockInserted (m m' : JitMachine) (block : CodeBlock) : Prop where
  insertable : Insertable block.toBlockSpan
  id_eq : block.id = m.inserted
  inserted : m'.inserted = m.inserted + 1
  shm : m'.shm = m.shm
  entries_old : ∀ slot b, m'.jit.jitEntries slot = some b →
    m.jit.jitEntries slot = some b ∨
      (b = block ∧ Covers block.guestPc (block.guestPcEnd - block.guestPc) slot)
  entries_new : ∀ slot, Covers block.guestPc (block.guestPcEnd - block.guestPc) slot →
    m'.jit.jitEntries slot = some block
  live : m'.jit.jitLiveRanges = jitSetLiveRange block.toBlockSpan m.jit.jitLiveRanges
  sticky : m'.jit.stickySmc = m.jit.stickySmc
  pages : m'.jit.stickyPages = m.jit.stickyPages
  mmuWrite : m'.mmuWrite =
    if block.guestPc / 0x1000000 = 3 then
      jitProtectRegion block.toBlockSpan iwramRegion m.mmuWrite
    else m.mmuWrite
  funcs : ∀ record' ∈ m'.jit.jitFuncs, (∃ record ∈ m.jit.jitFuncs, SameSpan record record') ∨
    (record'.guestPc / 2 * 2 = block.guestPc ∧ record'.guestPcEnd / 2 * 2 = block.guestPcEnd)

/-- An insertable span lies on the bus. -/
theorem Insertable.end_lt {span : BlockSpan} (h : Insertable span) :
    span.guestPcEnd ≤ 0x10000000 := by
  obtain ⟨hregion, hsize, -⟩ := h
  omega

/-- **An insertion** evicts, stores its block, sets the live bits and protects iwram. -/
theorem jitInsertBlock_spec {span : BlockSpan} {codeLen : Nat} {m : JitMachine}
    {r : JitMachine × CodeBlock × Bool} (h : jitInsertBlock span codeLen m = some r) :
    r.2.1.toBlockSpan = span ∧ BlockInserted m r.1 r.2.1 := by
  unfold jitInsertBlock at h
  simp only at h
  split at h
  · rename_i hins
    obtain ⟨a, ha, rfl⟩ := Option.map_eq_some_iff.mp h
    have hev := allocateBlock_evicted ha
    have hsize : span.guestPcEnd - span.guestPc ≤ 0x4000 := by
      have := hins.2.1
      omega
    have hlt := span.pc_lt
    have hend := hins.end_lt
    have haddr : span.guestPc + (span.guestPcEnd - span.guestPc) ≤ 0x10000000 := by omega
    refine ⟨rfl, ⟨hins, rfl, rfl, rfl, fun slot b hb => ?_, fun slot hslot => ?_, ?_, hev.sticky,
      hev.pages, rfl, fun record' hrecord' => ?_⟩⟩
    · simp only [writeJitEntries_apply haddr hsize] at hb
      split at hb
      · rename_i hslot
        exact .inr ⟨(Option.some.inj hb).symm, hslot⟩
      · exact .inl (hev.entries slot b hb)
    · simp only [writeJitEntries_apply haddr hsize]
      exact if_pos hslot
    · simp only [hev.live]
    · rcases List.mem_append.mp hrecord' with hold | hnew
      · exact .inl (hev.funcs record' hold)
      · obtain rfl := List.mem_singleton.mp hnew
        obtain ⟨heven, heven'⟩ := span.even
        exact .inr ⟨or_thumb_even heven _, or_thumb_even heven' _⟩
  · simp at h

/-- An insertion step. -/
theorem jitStep_insert {m m' : JitMachine} {span : BlockSpan} {codeLen : Nat}
    (h : jitStep m (.insert span codeLen) = some m') :
    ∃ block : CodeBlock, block.toBlockSpan = span ∧ BlockInserted m m' block := by
  obtain ⟨r, hr, rfl⟩ := Option.map_eq_some_iff.mp h
  exact ⟨r.2.1, jitInsertBlock_spec hr⟩

/-! ## Stores -/

/-- The entries a store of `size` bytes that changes iwram clears. -/
def StoreClears (jit : JitMemory) (addr size : Nat) (slot : JitSlot) : Prop :=
  (∃ p ∈ hitProbes jit addr size, ClearedBy jit.jitFuncs p slot) ∨
    (Demotes jit addr size ∧ Covers (addr / 4096 * 4096) 4096 slot)

/-- The pages whose live bits such a store clears. -/
def StoreUnwatches (jit : JitMemory) (addr size : Nat) (page : LivePage) : Prop :=
  (∃ p ∈ hitProbes jit addr size, livePage p = some page) ∨
    (Demotes jit addr size ∧ InMmuPage addr page)

/-- The invariants of the tables of the jit memory. -/
structure TablesOk (jit : JitMemory) : Prop where
  records : ∀ record ∈ jit.jitFuncs, RecordOk record
  sticky : StickyOk jit

/-- What a store that changes iwram does to the tables. -/
structure Stored (m m' : JitMachine) (addr size : Nat) : Prop where
  erased : Erased (StoreClears m.jit addr size) m.jit.jitEntries m'.jit.jitEntries
  live : ∀ page, m'.jit.jitLiveRanges page = true ↔
    m.jit.jitLiveRanges page = true ∧ ¬ StoreUnwatches m.jit addr size page
  mmuWrite : m'.mmuWrite =
    if Demotes m.jit addr size then restoreMmuWriteEntry addr iwramRegion m.mmuWrite
    else m.mmuWrite
  inserted : m'.inserted = m.inserted
  funcs : m'.jit.jitFuncs = m.jit.jitFuncs
  sticky : StickyOk m'.jit

/-- The counter of an iwram address. -/
theorem stickyCounter_iwram {addr : Nat} (h : addr / 0x1000000 = 3) :
    stickyCounter addr = some (.iwram, addr % 0x8000 / 4096) := by
  simp [stickyCounter, h]

/-- **A store** that leaves the bytes alone does nothing; any other clears what its hits clear,
and demotes its page when they bring it to the threshold. -/
theorem writeIwram_spec {m : JitMachine} (hok : TablesOk m.jit) {addr : Nat}
    (haddr : addr / 0x1000000 = 3) (width : MemWidth) (value : width.Value) :
    (readFromMem width m.shm (iwramRegion.shmOffset + addr % iwramRegion.size) = value ∧
      writeIwram addr width value m = m) ∨
    (readFromMem width m.shm (iwramRegion.shmOffset + addr % iwramRegion.size) ≠ value ∧
      (writeIwram addr width value m).shm =
        writeToMem width m.shm (iwramRegion.shmOffset + addr % iwramRegion.size) value ∧
      Stored m (writeIwram addr width value m) addr width.bytes) := by
  by_cases hsame : readFromMem width m.shm (iwramRegion.shmOffset + addr % iwramRegion.size) = value
  · exact .inl ⟨hsame, if_pos hsame⟩
  · refine .inr ⟨hsame, ?_⟩
    have hcounter : (stickyCounter addr).isSome := by
      rw [stickyCounter_iwram haddr]
      rfl
    have herase := invalidateBlock_erased hok.records addr width.bytes
    have hlive := invalidateBlock_live addr width.bytes m.jit
    have hdemotes := isStickySmc_invalidateBlock hok.sticky hcounter width.bytes
    have hsticky := invalidateBlock_stickyOk hok.sticky addr width.bytes
    unfold writeIwram
    simp only [if_neg hsame]
    by_cases hdemote : Demotes m.jit addr width.bytes
    · obtain ⟨hhit, hthreshold⟩ := hdemotes.mpr hdemote
      rw [if_pos hhit, if_pos hthreshold]
      have hbus : addr < 0x10000000 := by omega
      obtain ⟨herase', hlive', hsame'⟩ :=
        invalidateMmuPage_spec hbus (invalidateBlock addr width.bytes m.jit).1
      refine ⟨rfl, (herase.trans herase').congr fun slot => ?_, fun page => ?_,
        (if_pos hdemote).symm, rfl,
        hsame'.funcs.trans (invalidateBlock_funcs addr width.bytes m.jit), ?_⟩
      · simp [StoreClears, hdemote]
      · rw [hlive' page, hlive page]
        simp [StoreUnwatches, hdemote, and_assoc]
      · intro page hpage
        simp only [hsame'.sticky, hsame'.pages] at hpage ⊢
        exact hsticky page hpage
    · have hclears : ∀ slot, (∃ p ∈ hitProbes m.jit addr width.bytes,
          ClearedBy m.jit.jitFuncs p slot) ↔ StoreClears m.jit addr width.bytes slot := by
        simp [StoreClears, hdemote]
      have hunwatch : ∀ page, m.jit.jitLiveRanges page = true ∧
          (¬ ∃ p ∈ hitProbes m.jit addr width.bytes, livePage p = some page) ↔
            m.jit.jitLiveRanges page = true ∧ ¬ StoreUnwatches m.jit addr width.bytes page := by
        simp [StoreUnwatches, hdemote]
      have hfuncs := invalidateBlock_funcs addr width.bytes m.jit
      by_cases hhit : (invalidateBlock addr width.bytes m.jit).2 = true
      · have hthreshold : ¬ isStickySmc (invalidateBlock addr width.bytes m.jit).1 addr = true :=
          fun h => hdemote (hdemotes.mp ⟨hhit, h⟩)
        rw [if_pos hhit, if_neg hthreshold]
        exact ⟨rfl, herase.congr hclears, fun page => (hlive page).trans (hunwatch page),
          (if_neg hdemote).symm, rfl, hfuncs, hsticky⟩
      · rw [if_neg hhit]
        exact ⟨rfl, herase.congr hclears, fun page => (hlive page).trans (hunwatch page),
          (if_neg hdemote).symm, rfl, hfuncs, hsticky⟩

/-- A store that lies in iwram is a step. -/
theorem jitStep_writeIwram_eq {addr : Nat} {width : MemWidth}
    (h : 0x03000000 ≤ addr ∧ addr + width.bytes ≤ 0x04000000) (value : width.Value)
    (m : JitMachine) :
    jitStep m (.writeIwram addr width value) = some (writeIwram addr width value m) :=
  if_pos h

/-- A store step is one into iwram. -/
theorem jitStep_writeIwram {m m' : JitMachine} {addr : Nat} {width : MemWidth}
    {value : width.Value} (h : jitStep m (.writeIwram addr width value) = some m') :
    addr / 0x1000000 = 3 ∧ writeIwram addr width value m = m' := by
  simp only [jitStep] at h
  split at h
  · rename_i hrange
    have hbytes : 1 ≤ width.bytes := by
      cases width <;> decide
    exact ⟨by omega, Option.some.inj h⟩
  · simp at h

/-! ## The invariants of every run -/

/-- The invariants: block numbers are below the count, the tables are in order, and mirrors are
mapped together. -/
structure JitInv (m : JitMachine) : Prop where
  id_lt : ∀ slot block, m.jit.jitEntries slot = some block → block.id < m.inserted
  tables : TablesOk m.jit
  mirrors : MirrorsAgree m.mmuWrite

/-- The machine starts with the invariants. -/
theorem jitInv_boot (io : CartridgeIo) (shm : Nat → UInt8) : JitInv (jitBoot io shm) where
  id_lt slot block h := by simp [jitBoot, jitInit] at h
  tables := ⟨by simp [jitBoot, jitInit], by simp [StickyOk, jitBoot, jitInit]⟩
  mirrors p q hp hq _ :=
    iff_of_false (updateAllArm7_mmuWrite_ne_zero io hp) (updateAllArm7_mmuWrite_ne_zero io hq)

/-- Records of the same code are in order together. -/
theorem RecordOk.of_same {record record' : JitBlockMetadata} (h : RecordOk record)
    (hsame : SameSpan record record') : RecordOk record' := by
  rw [RecordOk, hsame.1, hsame.2]
  exact h

/-- An insertion keeps the invariants. -/
theorem JitInv.inserted {m m' : JitMachine} {block : CodeBlock} (hinv : JitInv m)
    (h : BlockInserted m m' block) : JitInv m' where
  id_lt slot b hb := by
    rw [h.inserted]
    rcases h.entries_old slot b hb with hold | ⟨rfl, -⟩
    · have := hinv.id_lt slot b hold
      omega
    · have := h.id_eq
      omega
  tables := by
    refine ⟨fun record' hrecord' => ?_, fun page hpage => ?_⟩
    · rcases h.funcs record' hrecord' with ⟨record, hrecord, hsame⟩ | ⟨hpc, hend⟩
      · exact (hinv.tables.records record hrecord).of_same hsame
      · have hlt := h.insertable.end_lt
        have hsize := h.insertable.2.1
        rw [RecordOk, hpc, hend]
        omega
    · rw [h.sticky] at hpage
      rw [h.pages]
      exact hinv.tables.sticky page hpage
  mirrors := by
    rw [h.mmuWrite]
    split
    · rename_i hpc
      exact (jitProtectRegion_spec h.insertable hpc hinv.mirrors).1
    · exact hinv.mirrors

/-- An invalidation that keeps the records and the counters keeps the invariants. -/
theorem JitInv.invalidated {m : JitMachine} (hinv : JitInv m) {jit : JitMemory}
    {S : JitSlot → Prop} (herase : Erased S m.jit.jitEntries jit.jitEntries)
    (hsame : SameRecords m.jit jit) : JitInv { m with jit := jit } where
  id_lt slot block h := hinv.id_lt slot block (herase.sub h)
  tables := by
    refine ⟨fun record hrecord => hinv.tables.records record (hsame.funcs ▸ hrecord),
      fun page hpage => ?_⟩
    simp only [hsame.sticky, hsame.pages] at hpage ⊢
    exact hinv.tables.sticky page hpage
  mirrors := hinv.mirrors

/-- **Every operation keeps the invariants.** -/
theorem jitInv_step {m m' : JitMachine} {op : JitOp} (hinv : JitInv m)
    (h : jitStep m op = some m') : JitInv m' := by
  cases op with
  | insert span codeLen =>
      obtain ⟨block, -, hins⟩ := jitStep_insert h
      exact hinv.inserted hins
  | writeIwram addr width value =>
      obtain ⟨haddr, rfl⟩ := jitStep_writeIwram h
      rcases writeIwram_spec hinv.tables haddr width value with ⟨-, heq⟩ | ⟨-, -, hst⟩
      · rw [heq]
        exact hinv
      · refine ⟨fun slot block hb => ?_, ⟨?_, hst.sticky⟩, ?_⟩
        · rw [hst.inserted]
          exact hinv.id_lt slot block (hst.erased.sub hb)
        · rw [hst.funcs]
          exact hinv.tables.records
        · rw [hst.mmuWrite]
          split
          · exact hinv.mirrors.restore haddr
          · exact hinv.mirrors
  | invalidateBlock addr size =>
      simp only [jitStep] at h
      split at h
      · obtain rfl := Option.some.inj h
        refine ⟨fun slot block hb => ?_, ⟨?_, ?_⟩, hinv.mirrors⟩
        · exact hinv.id_lt slot block
            ((invalidateBlock_erased hinv.tables.records addr size).sub hb)
        · simp only [invalidateBlock_funcs]
          exact hinv.tables.records
        · exact invalidateBlock_stickyOk hinv.tables.sticky addr size
      · simp at h
  | invalidateBlocks addr size =>
      simp only [jitStep] at h
      split at h
      · obtain rfl := Option.some.inj h
        obtain ⟨herase, -, hsame⟩ := foldl_invalidatePage_spec (pagesOf addr size) m.jit
          fun a ha => mod_of_mem_pagesOf ha
        exact hinv.invalidated herase hsame
      · simp at h
  | invalidateMmuPage addr =>
      simp only [jitStep] at h
      split at h
      · rename_i hrange
        obtain rfl := Option.some.inj h
        obtain ⟨herase, -, hsame⟩ := invalidateMmuPage_spec hrange.2 m.jit
        exact hinv.invalidated herase hsame
      · simp at h
  | invalidateRamBlocks =>
      obtain rfl := Option.some.inj h
      refine ⟨fun slot block hb => ?_, ⟨hinv.tables.records, ?_⟩, hinv.mirrors⟩
      · simp only [invalidateRamBlocks] at hb
        split at hb
        · exact hinv.id_lt slot block hb
        · simp at hb
      · intro page hpage
        simp [invalidateRamBlocks] at hpage
  | resetBlocks =>
      obtain ⟨jit, hjit, rfl⟩ := Option.map_eq_some_iff.mp h
      have hev := resetBlocks_evicted hjit
      refine ⟨fun slot block hb => hinv.id_lt slot block (hev.entries slot block hb),
        ⟨fun record' hrecord' => ?_, fun page hpage => ?_⟩, hinv.mirrors⟩
      · obtain ⟨record, hrecord, hsame⟩ := hev.funcs record' hrecord'
        exact (hinv.tables.records record hrecord).of_same hsame
      · simp only [hev.sticky, hev.pages] at hpage ⊢
        exact hinv.tables.sticky page hpage

/-- **The invariants hold in every run.** -/
theorem jitInv_of_reaches {io : CartridgeIo} {shm : Nat → UInt8} {C : JitMachine → JitOp → Prop}
    {m : JitMachine} (h : Reaches jitStep C (jitBoot io shm) m) : JitInv m :=
  h.invariant (fun _ _ _ hinv _ hstep => jitInv_step hinv hstep) (jitInv_boot io shm)

/-! ## A block over a page border -/

/-- A cartridge without a save memory. -/
def plainCartridge : CartridgeIo := ⟨0x400000, 0x1FFFFFF, .none, false⟩

/-- The machine at the start, with empty memory. -/
def jitStart : JitMachine := jitBoot plainCartridge fun _ => 0

/-- Sixteen thumb instructions over the border of the first two live-range pages of iwram. -/
def straddlingSpan : BlockSpan :=
  ⟨0x030000F0, 0x03000110, true, by decide, by decide, by decide⟩

/-- The machine after their block was inserted. -/
def straddlingInserted : JitMachine :=
  (jitStep jitStart (.insert straddlingSpan 64)).get (by decide)

theorem straddlingInserted_step :
    jitStep jitStart (.insert straddlingSpan 64) = some straddlingInserted :=
  (Option.some_get _).symm

theorem straddlingInserted_inv : JitInv straddlingInserted :=
  jitInv_step (jitInv_boot plainCartridge fun _ => 0) straddlingInserted_step

/-- The inserted block, and the entry of its first instruction. -/
theorem straddlingInserted_entry : ∃ block, block.toBlockSpan = straddlingSpan ∧
    BlockInserted jitStart straddlingInserted block ∧
      jitEntryAt straddlingInserted 0x030000F0 = some block := by
  obtain ⟨block, hspan, hins⟩ := jitStep_insert straddlingInserted_step
  refine ⟨block, hspan, hins, ?_⟩
  have hentry : getJitEntry 0x030000F0 = some (.iwram, 0x78) := by decide
  rw [jitEntryAt, hentry]
  refine hins.entries_new _ ?_
  rw [hspan]
  decide

end AdvancedSlop
