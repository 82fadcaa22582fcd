/-
# The jit memory map

`JitMemoryMap` finds for a guest address the jit entry of its halfword and the live-range byte of
its 256-byte page.  Mirrors collapse onto one another: the tables are as long as the memories.

* `getJitEntry_eq` : the entry of an address in closed form;
* `writeJitEntries_erased` : what `write_jit_entries` clears;
* `covers_livePage` : the entries of a live-range page are those of its addresses, in any mirror.
-/
import AdvancedSlop.WatchedTable
import Mathlib.Tactic

namespace AdvancedSlop

open WatchedTable

/-! ## Entries -/

/-- The guest memories that hold jit entries. -/
inductive CodeRegion
  | ewram
  | iwram
  | rom
  deriving DecidableEq, Repr

/-- The number of bytes of a memory. -/
def CodeRegion.size : CodeRegion → Nat
  | .ewram => 0x40000
  | .iwram => 0x8000
  | .rom => 0x2000000

/-- The number of jit entries of a memory, one a halfword. -/
def CodeRegion.entriesLen (region : CodeRegion) : Nat := region.size / 2

/-- The memory an address lies in, by `addr & 0x0F000000`. -/
def codeRegion (addr : Nat) : Option CodeRegion :=
  let nibble := addr / 0x1000000 % 16
  if nibble = 2 then some .ewram
  else if nibble = 3 then some .iwram
  else if 8 ≤ nibble ∧ nibble < 14 then some .rom
  else none

/-- A cell of the entry tables: the memory and the index in its table. -/
abbrev JitSlot := CodeRegion × Nat

/-- `JitMemoryMap::map`: the first of the 8192 entries of a block, none where the pointer is
null. -/
def jitMap (i : Nat) : Option JitSlot :=
  let addr := i * 8192 * 2
  (codeRegion addr).map fun region => (region, addr / 2 % region.entriesLen)

/-- The entry of a halfword address. -/
def halfwordEntry (addr : Nat) : Option JitSlot :=
  (jitMap (addr / 8192)).map fun block => (block.1, block.2 + addr % 8192)

/-- `get_jit_entry`. -/
def getJitEntry (addr : Nat) : Option JitSlot :=
  halfwordEntry (addr % 0x10000000 / 2)

/-- The region of an address does not depend on what lies below its top byte. -/
theorem codeRegion_congr {a b : Nat} (h : a / 0x1000000 % 16 = b / 0x1000000 % 16) :
    codeRegion a = codeRegion b := by
  unfold codeRegion
  rw [h]

/-- The entry of an address, in closed form. -/
theorem getJitEntry_eq (addr : Nat) :
    getJitEntry addr = (codeRegion addr).map fun region =>
      (region, addr / 2 % region.entriesLen) := by
  have hregion : codeRegion (addr % 0x10000000 / 2 / 8192 * 8192 * 2) = codeRegion addr :=
    codeRegion_congr (by omega)
  unfold getJitEntry halfwordEntry jitMap
  simp only [hregion, Option.map_map]
  congr 1
  funext region
  cases region <;> simp only [Function.comp_apply, CodeRegion.entriesLen, CodeRegion.size,
    Prod.mk.injEq, true_and] <;> omega

/-- The fill of `n` entries from `block` on. -/
def fillEntries {α : Type*} (block : JitSlot) (n : Nat) (value : α) (entries : JitSlot → α) :
    JitSlot → α := fun slot =>
  if slot.1 = block.1 ∧ block.2 ≤ slot.2 ∧ slot.2 < block.2 + n then value else entries slot

/-- The loop of `write_jit_entries`, on halfword addresses.  A null block has no entries: the
host faults there. -/
def writeLoop {α : Type*} (addr size : Nat) (value : α) (entries : JitSlot → α) : JitSlot → α :=
  if 0 < size then
    let blockOffset := addr % 8192
    let writeSize := min (8192 - blockOffset) size
    let filled :=
      match jitMap (addr / 8192) with
      | some block => fillEntries (block.1, block.2 + blockOffset) writeSize value entries
      | none => entries
    writeLoop ((addr + 8191) / 8192 * 8192) (size - writeSize) value filled
  else entries
termination_by size

/-- `write_jit_entries`. -/
def writeJitEntries {α : Type*} (addr size : Nat) (value : α) (entries : JitSlot → α) :
    JitSlot → α :=
  writeLoop (addr % 0x10000000 / 2) (size / 2) value entries

/-- The slot is the entry of one of the halfwords of `[addr, addr + size)`. -/
def Covers (addr size : Nat) (slot : JitSlot) : Prop :=
  ∃ k < size / 2, getJitEntry (addr + 2 * k) = some slot

instance (addr size : Nat) (slot : JitSlot) : Decidable (Covers addr size slot) :=
  inferInstanceAs (Decidable (∃ k < size / 2, getJitEntry (addr + 2 * k) = some slot))

/-! ## What a write of entries does -/

/-- Within a block the halfwords from `addr` on have consecutive entries. -/
theorem halfwordEntry_add {addr k : Nat} (h : k < 8192 - addr % 8192) :
    halfwordEntry (addr + k) =
      (jitMap (addr / 8192)).map fun block => (block.1, block.2 + addr % 8192 + k) := by
  have hblock : (addr + k) / 8192 = addr / 8192 := by omega
  have hoffset : (addr + k) % 8192 = addr % 8192 + k := by omega
  rw [halfwordEntry, hblock, hoffset]
  simp only [Nat.add_assoc]

/-- A loop that stays within one block. -/
theorem writeLoop_block {α : Type*} {addr size : Nat} (h : size ≤ 8192 - addr % 8192) (value : α)
    (entries : JitSlot → α) (slot : JitSlot) :
    writeLoop addr size value entries slot =
      if ∃ k < size, halfwordEntry (addr + k) = some slot then value else entries slot := by
  have hentry : ∀ k < size, halfwordEntry (addr + k) =
      (jitMap (addr / 8192)).map fun block => (block.1, block.2 + addr % 8192 + k) :=
    fun k hk => halfwordEntry_add (by omega)
  unfold writeLoop
  by_cases hsize : 0 < size
  · have hrest : size - min (8192 - addr % 8192) size = 0 := by omega
    simp only [if_pos hsize, hrest]
    unfold writeLoop
    simp only [lt_irrefl, if_false]
    cases hmap : jitMap (addr / 8192) with
    | none =>
        simp only [hmap, Option.map_none] at hentry
        rw [if_neg]
        rintro ⟨k, hk, heq⟩
        rw [hentry k hk] at heq
        simp at heq
    | some block =>
        simp only [hmap, Option.map_some] at hentry
        have hmin : min (8192 - addr % 8192) size = size := by omega
        simp only [fillEntries, hmin]
        refine if_congr ?_ rfl rfl
        constructor
        · rintro ⟨hregion, hlo, hhi⟩
          refine ⟨slot.2 - (block.2 + addr % 8192), by omega, ?_⟩
          rw [hentry _ (by omega), ← hregion]
          exact congrArg some (Prod.ext rfl (by simp only; omega))
        · rintro ⟨k, hk, heq⟩
          rw [hentry k hk] at heq
          obtain rfl := Option.some.inj heq
          exact ⟨rfl, by simp only; omega, by simp only; omega⟩
  · rw [if_neg hsize, if_neg]
    rintro ⟨k, hk, -⟩
    omega

/-- Where entries are written up to: the end of the block behind the next border.  A block border
is aligned already, and the loop stays there. -/
def loopReach (addr : Nat) : Nat := (addr + 8191) / 8192 * 8192 - addr + 8192

/-- A loop from a block border on fills one block, however often. -/
theorem writeLoop_aligned {α : Type*} {addr : Nat} (haddr : addr % 8192 = 0) (size : Nat)
    (value : α) (entries : JitSlot → α) (slot : JitSlot) :
    writeLoop addr size value entries slot =
      if ∃ k < min size 8192, halfwordEntry (addr + k) = some slot then value
      else entries slot := by
  induction size using Nat.strong_induction_on generalizing entries with
  | _ size ih =>
      by_cases hsize : size ≤ 8192
      · rw [writeLoop_block (by omega), min_eq_left hsize]
      · have hround : writeLoop addr size value entries =
            writeLoop addr (size - 8192) value (writeLoop addr 8192 value entries) := by
          have hnext : (addr + 8191) / 8192 * 8192 = addr := by omega
          rw [writeLoop, if_pos (by omega : 0 < size)]
          conv_rhs => rw [writeLoop.eq_def addr 8192, if_pos (by omega : 0 < 8192)]
          simp only [haddr, hnext, Nat.sub_zero, min_self, Nat.sub_self,
            min_eq_left (by omega : 8192 ≤ size)]
          conv_rhs => rw [writeLoop.eq_def addr 0, if_neg (lt_irrefl 0)]
        have hone : min size 8192 = 8192 := by omega
        rw [hround, ih _ (by omega), writeLoop_block (by omega), hone]
        by_cases hslot : ∃ k < 8192, halfwordEntry (addr + k) = some slot
        · rw [if_pos hslot, ite_self]
        · rw [if_neg hslot, if_neg]
          exact fun ⟨k, hk, heq⟩ => hslot ⟨k, by omega, heq⟩

/-- **The loop** fills the entries of its halfwords, as far as it reaches. -/
theorem writeLoop_apply {α : Type*} (addr size : Nat) (value : α) (entries : JitSlot → α)
    (slot : JitSlot) :
    writeLoop addr size value entries slot =
      if ∃ k < min size (loopReach addr), halfwordEntry (addr + k) = some slot then value
      else entries slot := by
  by_cases hblock : size ≤ 8192 - addr % 8192
  · rw [writeLoop_block hblock, min_eq_left (by unfold loopReach; omega)]
  by_cases haligned : addr % 8192 = 0
  · have hreach : loopReach addr = 8192 := by
      unfold loopReach
      omega
    rw [writeLoop_aligned haligned, hreach]
  · -- the first round ends at the border, where the others start
    set first := 8192 - addr % 8192 with hfirst
    have hone : writeLoop addr size value entries =
        writeLoop (addr + first) (size - first) value (writeLoop addr first value entries) := by
      have hmin : min first size = first := by omega
      have hnext : (addr + 8191) / 8192 * 8192 = addr + first := by omega
      rw [writeLoop, if_pos (by omega : 0 < size)]
      conv_rhs => rw [writeLoop.eq_def addr first, if_pos (by omega : 0 < first)]
      simp only [← hfirst, hmin, hnext, min_self, Nat.sub_self]
      conv_rhs => rw [writeLoop.eq_def (addr + first) 0, if_neg (lt_irrefl 0)]
    have hreach : loopReach addr = first + 8192 := by
      unfold loopReach
      omega
    rw [hone, writeLoop_aligned (by omega), writeLoop_block (by omega), hreach]
    by_cases hrest : ∃ k < min (size - first) 8192, halfwordEntry (addr + first + k) = some slot
    · obtain ⟨k, hk, heq⟩ := hrest
      rw [if_pos ⟨k, hk, heq⟩, if_pos ⟨first + k, by omega, by rw [← Nat.add_assoc]; exact heq⟩]
    · rw [if_neg hrest]
      refine if_congr ?_ rfl rfl
      constructor
      · rintro ⟨k, hk, heq⟩
        exact ⟨k, by omega, heq⟩
      · rintro ⟨k, hk, heq⟩
        by_cases hlt : k < first
        · exact ⟨k, hlt, heq⟩
        · refine absurd ⟨k - first, by omega, ?_⟩ hrest
          rw [show addr + first + (k - first) = addr + k by omega]
          exact heq

/-- What is written of the span of `write_jit_entries`. -/
theorem writeJitEntries_eq {α : Type*} {addr size : Nat}
    (haddr : addr % 0x10000000 + size ≤ 0x10000000) (value : α) (entries : JitSlot → α)
    (slot : JitSlot) :
    writeJitEntries addr size value entries slot =
      if ∃ k < min (size / 2) (loopReach (addr % 0x10000000 / 2)),
        getJitEntry (addr + 2 * k) = some slot then value else entries slot := by
  rw [writeJitEntries, writeLoop_apply]
  refine if_congr (exists_congr fun k => and_congr_right fun hk => ?_) rfl rfl
  have hk' : k < size / 2 := lt_of_lt_of_le hk (min_le_left _ _)
  rw [getJitEntry, show (addr + 2 * k) % 0x10000000 / 2 = addr % 0x10000000 / 2 + k by omega]

/-- A span that the loop reaches the end of. -/
theorem writeJitEntries_reached {α : Type*} {addr size : Nat}
    (haddr : addr % 0x10000000 + size ≤ 0x10000000)
    (h : size / 2 ≤ loopReach (addr % 0x10000000 / 2)) (value : α) (entries : JitSlot → α)
    (slot : JitSlot) :
    writeJitEntries addr size value entries slot =
      if Covers addr size slot then value else entries slot := by
  rw [writeJitEntries_eq haddr]
  refine if_congr ?_ rfl rfl
  rw [min_eq_left h, Covers]

/-- **`write_jit_entries`** of at most 16K fills the entries of the halfwords of its span. -/
theorem writeJitEntries_apply {α : Type*} {addr size : Nat} (haddr : addr + size ≤ 0x10000000)
    (h : size ≤ 0x4000) (value : α) (entries : JitSlot → α) (slot : JitSlot) :
    writeJitEntries addr size value entries slot =
      if Covers addr size slot then value else entries slot := by
  have hreach : 8192 ≤ loopReach (addr % 0x10000000 / 2) := Nat.le_add_left _ _
  exact writeJitEntries_reached (by omega) (by omega) value entries slot

/-- The memories have at least two blocks of entries. -/
theorem CodeRegion.two_blocks (region : CodeRegion) : 16384 ≤ region.entriesLen := by
  cases region <;> decide

/-- A span in one memory does not run over the end of the bus. -/
theorem span_le {addr size : Nat} {region : CodeRegion}
    (hregion : ∀ k < size, codeRegion (addr + k) = some region) :
    addr % 0x10000000 + size ≤ 0x10000000 := by
  by_contra hover
  have hwrap := hregion (0x10000000 - addr % 0x10000000) (by omega)
  have hzero : codeRegion (addr + (0x10000000 - addr % 0x10000000)) = none := by
    unfold codeRegion
    have hnibble : (addr + (0x10000000 - addr % 0x10000000)) / 0x1000000 % 16 = 0 := by omega
    rw [hnibble]
    rfl
  rw [hzero] at hwrap
  exact Option.some_ne_none region hwrap.symm

/-- **The entries that are written** are those of the span, in its memory, exactly when the span
ends with the block behind its first border, or before. -/
theorem write_jit_entries_law {α : Type*} [Nontrivial α] {addr size : Nat} {region : CodeRegion}
    (hregion : ∀ k < size, codeRegion (addr + k) = some region) (value : α) :
    (∀ entries slot, writeJitEntries addr size value entries slot =
        if Covers addr size slot then value else entries slot) ↔
      size / 2 ≤ loopReach (addr % 0x10000000 / 2) := by
  have hspan := span_le hregion
  constructor
  · intro hwrites
    by_contra hlong
    set reach := loopReach (addr % 0x10000000 / 2) with hreach
    -- the first halfword that is not reached lies within two blocks of those that are
    have hentry (k : Nat) (hk : k < size / 2) : getJitEntry (addr + 2 * k) =
        some (region, (addr + 2 * k) / 2 % region.entriesLen) := by
      rw [getJitEntry_eq, hregion (2 * k) (by omega)]
      rfl
    obtain ⟨other, hother⟩ := exists_ne value
    have hmissed := hwrites (fun _ => other) (region, (addr + 2 * reach) / 2 % region.entriesLen)
    have hmin : min (size / 2) reach = reach := by omega
    have hcovers : Covers addr size (region, (addr + 2 * reach) / 2 % region.entriesLen) :=
      ⟨reach, by omega, hentry reach (by omega)⟩
    rw [writeJitEntries_eq hspan, ← hreach, hmin, if_pos hcovers] at hmissed
    split at hmissed
    · rename_i hcovered
      obtain ⟨k, hk, heq⟩ := hcovered
      rw [hentry k (by omega), Option.some.injEq, Prod.mk.injEq] at heq
      have hdvd : region.entriesLen ∣ reach - k := by
        have hmod := (Nat.modEq_iff_dvd' (by omega)).mp (show _ ≡ _ [MOD _] from heq.2)
        rwa [show (addr + 2 * reach) / 2 - (addr + 2 * k) / 2 = reach - k by omega] at hmod
      have hle := Nat.le_of_dvd (by omega) hdvd
      have htwo := region.two_blocks
      rw [hreach, loopReach] at hle
      omega
    · exact hother hmissed
  · exact fun hshort entries slot => writeJitEntries_reached hspan hshort value entries slot

/-- 24K from the second halfword of ewram on. -/
theorem write_jit_entries_law_ewram :
    writeJitEntries 0x02000002 0x6000 true (fun _ => false) (.ewram, 1) = true := by
  have hregion : ∀ k < 0x6000, codeRegion (0x02000002 + k) = some .ewram := by
    intro k hk
    rw [codeRegion_congr (show (0x02000002 + k) / 0x1000000 % 16 = 0x02000000 / 0x1000000 % 16 by
      omega)]
    rfl
  have hwrites := (write_jit_entries_law hregion true).mpr (by decide) (fun _ => false) (.ewram, 1)
  rw [hwrites]
  exact if_pos ⟨0, by decide, by decide⟩

/-- 32K from the start of ewram on: the loop stays at the first block, and the second one is not
written. -/
theorem second_block_unwritten :
    Covers 0x02000000 0x8000 (.ewram, 8192) ∧
      writeJitEntries 0x02000000 0x8000 true (fun _ => false) (.ewram, 8192) = false := by
  refine ⟨⟨8192, by decide, by decide⟩, ?_⟩
  rw [writeJitEntries_eq (by decide), if_neg]
  rintro ⟨k, hk, heq⟩
  rw [getJitEntry_eq, codeRegion_congr (show (0x02000000 + 2 * k) / 0x1000000 % 16 =
    0x02000000 / 0x1000000 % 16 by omega)] at heq
  have hindex : (0x02000000 + 2 * k) / 2 % CodeRegion.ewram.entriesLen = 8192 :=
    congrArg Prod.snd (Option.some.inj heq)
  have hk' : k < 8192 := lt_of_lt_of_le hk (by decide)
  rw [CodeRegion.entriesLen, CodeRegion.size] at hindex
  omega

/-- Writing the default entry erases the span. -/
theorem writeJitEntries_erased {α : Type*} {addr size : Nat} (haddr : addr + size ≤ 0x10000000)
    (h : size ≤ 0x4000) (entries : JitSlot → Option α) :
    Erased (Covers addr size) entries (writeJitEntries addr size none entries) := by
  intro slot block
  rw [writeJitEntries_apply haddr h]
  by_cases hc : Covers addr size slot
  · simp [hc]
  · simp [hc]

/-! ## Live ranges -/

/-- A byte of the live-range tables; each of its bits stands for a 256-byte page. -/
abbrev LiveByte := CodeRegion × Nat

/-- A live-range page: its byte and its bit. -/
abbrev LivePage := LiveByte × Nat

/-- `JitMemoryMap::live_ranges_map`, none where the pointer is null: roms have no live ranges. -/
def liveRangesMap (i : Nat) : Option LiveByte :=
  let addr := i * 2048
  if addr / 0x1000000 = 2 then some (.ewram, i % 128)
  else if addr / 0x1000000 = 3 then some (.iwram, i % 16)
  else none

/-- `get_live_range`. -/
def getLiveRange (addr : Nat) : Option LiveByte := liveRangesMap (addr / 2048)

/-- The live-range page of an address. -/
def livePage (addr : Nat) : Option LivePage :=
  (getLiveRange addr).map fun byte => (byte, addr / 256 % 8)

/-- The live-range page of an entry of ewram or iwram. -/
def slotLivePage (slot : JitSlot) : LivePage :=
  ((slot.1, slot.2 / 1024), slot.2 / 128 % 8)

/-- Addresses of one 256-byte page have one live-range page. -/
theorem livePage_congr {a b : Nat} (h : a / 256 = b / 256) : livePage a = livePage b := by
  have hbyte : a / 2048 = b / 2048 := by omega
  rw [livePage, livePage, getLiveRange, getLiveRange, h, hbyte]

/-- An address has a live-range page in ewram and in iwram, and nowhere else. -/
theorem livePage_cases {addr : Nat} {page : LivePage} (h : livePage addr = some page) :
    (addr / 0x1000000 = 2 ∧ page = ((.ewram, addr / 2048 % 128), addr / 256 % 8)) ∨
      (addr / 0x1000000 = 3 ∧ page = ((.iwram, addr / 2048 % 16), addr / 256 % 8)) := by
  unfold livePage getLiveRange liveRangesMap at h
  simp only at h
  split at h
  · rename_i hregion
    exact .inl ⟨by omega, by simpa using h.symm⟩
  · split at h
    · rename_i hregion
      exact .inr ⟨by omega, by simpa using h.symm⟩
    · simp at h

/-- An address with a live-range page lies below the end of the bus. -/
theorem lt_of_livePage {addr : Nat} {page : LivePage} (h : livePage addr = some page) :
    addr < 0x04000000 := by
  rcases livePage_cases h with ⟨hregion, -⟩ | ⟨hregion, -⟩ <;> omega

/-- The region of an ewram address. -/
theorem codeRegion_ewram {addr : Nat} (h : addr / 0x1000000 = 2) :
    codeRegion addr = some .ewram := by
  simp [codeRegion, h]

/-- The region of an iwram address. -/
theorem codeRegion_iwram {addr : Nat} (h : addr / 0x1000000 = 3) :
    codeRegion addr = some .iwram := by
  simp [codeRegion, h]

/-- The live-range page of an address is that of its entry. -/
theorem livePage_of_entry {addr : Nat} {page : LivePage} {slot : JitSlot}
    (h : livePage addr = some page) (hslot : getJitEntry addr = some slot) :
    slotLivePage slot = page := by
  rcases livePage_cases h with ⟨hregion, rfl⟩ | ⟨hregion, rfl⟩
  · rw [getJitEntry_eq, codeRegion_ewram hregion] at hslot
    obtain rfl := Option.some.inj hslot
    simp only [slotLivePage, CodeRegion.entriesLen, CodeRegion.size, Prod.mk.injEq, true_and]
    omega
  · rw [getJitEntry_eq, codeRegion_iwram hregion] at hslot
    obtain rfl := Option.some.inj hslot
    simp only [slotLivePage, CodeRegion.entriesLen, CodeRegion.size, Prod.mk.injEq, true_and]
    omega

/-- The index of an entry lies in its table. -/
theorem getJitEntry_lt {addr : Nat} {slot : JitSlot} (h : getJitEntry addr = some slot) :
    slot.2 < slot.1.entriesLen := by
  rw [getJitEntry_eq] at h
  obtain ⟨region, -, rfl⟩ := Option.map_eq_some_iff.mp h
  exact Nat.mod_lt _ (by cases region <;> simp [CodeRegion.entriesLen, CodeRegion.size])

/-- **The entries of a live-range page** are those of its addresses, whatever mirror names it. -/
theorem covers_livePage {addr : Nat} {page : LivePage} (h : livePage addr = some page)
    (slot : JitSlot) :
    Covers (addr / 256 * 256) 256 slot ↔
      slotLivePage slot = page ∧ slot.2 < slot.1.entriesLen := by
  constructor
  · rintro ⟨k, hk, hslot⟩
    have hpage : livePage (addr / 256 * 256 + 2 * k) = some page := by
      rw [← h]
      exact livePage_congr (by omega)
    exact ⟨livePage_of_entry hpage hslot, getJitEntry_lt hslot⟩
  · obtain ⟨region, i⟩ := slot
    rintro ⟨hpage, hlt⟩
    refine ⟨i % 128, by omega, ?_⟩
    rw [getJitEntry_eq]
    rcases livePage_cases h with ⟨hregion, rfl⟩ | ⟨hregion, rfl⟩
    · rw [codeRegion_ewram (by omega)]
      simp only [slotLivePage, Prod.mk.injEq] at hpage
      obtain ⟨⟨rfl, hbyte⟩, hbit⟩ := hpage
      simp only [CodeRegion.entriesLen, CodeRegion.size] at hlt ⊢
      simp only [Option.map_some, Option.some.injEq, Prod.mk.injEq, true_and]
      omega
    · rw [codeRegion_iwram (by omega)]
      simp only [slotLivePage, Prod.mk.injEq] at hpage
      obtain ⟨⟨rfl, hbyte⟩, hbit⟩ := hpage
      simp only [CodeRegion.entriesLen, CodeRegion.size] at hlt ⊢
      simp only [Option.map_some, Option.some.injEq, Prod.mk.injEq, true_and]
      omega

/-- Two names of one live-range page name the same entries. -/
theorem covers_page_congr {a b : Nat} {page : LivePage} (ha : livePage a = some page)
    (hb : livePage b = some page) (slot : JitSlot) :
    Covers (a / 256 * 256) 256 slot ↔ Covers (b / 256 * 256) 256 slot :=
  (covers_livePage ha slot).trans (covers_livePage hb slot).symm

end AdvancedSlop
