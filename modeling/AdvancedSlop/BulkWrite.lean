/-
# Bulk writes against single writes

`mem_write_multiple_slice` and `mem_write_multiple_memset` copy into one run of the shared memory,
or go to the handlers element by element.

* `CrossesBorder` : a range that leaves an image of a work memory;
* `SliceGood`, `MemsetGood` : when the bulk writes are the single ones;
* `bulk_write_law` : they are, for all contents and elements, exactly then;
* `borderSlice_differs` : a slice over the end of an image of ewram.
-/
import AdvancedSlop.MemoryFrame

namespace AdvancedSlop

open IndexedLoop WordMemory

variable {D : Type*}

/-! ## The conditions -/

/-- An address where an image of a work memory starts over, or where the work memories end.  The
end of ewram is none: iwram follows it in the shared memory as well. -/
def IsMirrorBorder (border : Nat) : Prop :=
  (0x02000000 < border ∧ border < 0x03000000 ∧ border % 0x40000 = 0) ∨
    (0x03000000 < border ∧ border ≤ 0x04000000 ∧ border % 0x8000 = 0)

/-- A range with a border inside. -/
def CrossesBorder (addr size : Nat) : Prop :=
  ∃ border, IsMirrorBorder border ∧ addr < border ∧ border < addr + size

/-- The elements that go to the handlers one by one: none lies behind the bus where iwram would be
next, and none has a live bit in a writable page. -/
def HandlersGood (s : GuestMem D) (width : MemWidth) (addr n : Nat) : Prop :=
  addr + n * width.bytes ≤ 0x13000000 ∧ ∀ i < n, QuietAt s (addr + i * width.bytes)

/-- When a slice is written as its elements are. -/
def SliceGood (s : GuestMem D) (width : MemWidth) (addr n : Nat) : Prop :=
  let addr := alignedAddr width addr
  if getShmOffset s.jit.mmuWrite addr ≠ 0 ∧ allWritable s.jit.mmuWrite addr (n * width.bytes) then
    ¬ CrossesBorder addr (n * width.bytes)
  else HandlersGood s width addr n

/-- When a fill is written as its elements are: it does not look at the later pages. -/
def MemsetGood (s : GuestMem D) (width : MemWidth) (addr n : Nat) : Prop :=
  let addr := alignedAddr width addr
  if getShmOffset s.jit.mmuWrite addr ≠ 0 then
    ¬ CrossesBorder addr (n * width.bytes) ∧
      ∀ i < n, s.jit.mmuWrite ((addr + i * width.bytes) / 4096) = 0 →
        ¬ Watched s (addr + i * width.bytes)
  else HandlersGood s width addr n

/-! ## Runs of work memory -/

/-- **A range without a border** is one run of the shared memory. -/
theorem ramOffset_add {addr size i : Nat} (hram : IsRam addr) (hborder : ¬ CrossesBorder addr size)
    (hi : i < size) : IsRam (addr + i) ∧ ramOffset (addr + i) = ramOffset addr + i := by
  have hstop : ∀ border, IsMirrorBorder border → addr < border → addr + size ≤ border :=
    fun border hb hlt => Nat.le_of_not_lt fun hin => hborder ⟨border, hb, hlt, hin⟩
  have hstop2 := hstop ((addr / 0x40000 + 1) * 0x40000)
  have hstop3 := hstop ((addr / 0x8000 + 1) * 0x8000)
  have hfirst := hstop 0x03008000 (by unfold IsMirrorBorder; omega)
  unfold IsMirrorBorder at hstop2 hstop3
  unfold IsRam at hram ⊢
  unfold ramOffset
  simp only [ewramRegion, iwramRegion]
  rcases hram with hew | hiw
  · by_cases hlast : addr < 0x02FC0000
    · have hend := hstop2 (by omega) (by omega)
      refine ⟨by omega, ?_⟩
      rw [if_pos (by omega), if_pos (by omega)]
      omega
    · -- the last image of ewram, which iwram continues
      refine ⟨by omega, ?_⟩
      rw [if_pos (show addr / 0x1000000 % 16 = 2 by omega)]
      split_ifs <;> omega
  · have hend := hstop3 (by omega) (by omega)
    refine ⟨by omega, ?_⟩
    rw [if_neg (by omega), if_neg (by omega)]
    omega

/-- Stores of the elements of a slice are one copy. -/
theorem writeEach_store (s : GuestMem D) (width : MemWidth) (offset i : Nat)
    (slice : List width.Value) :
    writeEach (fun j value (s : GuestMem D) => some (s.store width (offset + j * width.bytes) value))
        i slice s =
      some (s.withShm (writeWords width.bytes s.jit.shm (offset + i * width.bytes) slice)) := by
  induction slice generalizing i s with
  | nil =>
      rw [writeEach, writeWords_nil]
      rfl
  | cons value slice ih =>
      rw [writeEach, Option.bind_some, ih, writeWords_cons, Nat.succ_mul, Nat.add_assoc]
      rfl

section Sufficient

variable {dev : MemDevices D} {s : GuestMem D} {width : MemWidth} {addr n : Nat}

/-- A range without a border ends in the shared memory. -/
theorem ramOffset_end (hram : IsRam addr) {size : Nat} (hborder : ¬ CrossesBorder addr size) :
    ramOffset addr + size ≤ totalMemSize := by
  have hlow : ramOffset addr < 0x4C000 := by
    unfold ramOffset
    simp only [ewramRegion, iwramRegion]
    split_ifs <;> omega
  rcases Nat.eq_zero_or_pos size with rfl | hpos
  · unfold totalMemSize
    omega
  · obtain ⟨-, hlast⟩ := ramOffset_add hram hborder (Nat.sub_one_lt_of_lt hpos)
    have htop : ramOffset (addr + (size - 1)) < 0x4C000 := by
      unfold ramOffset
      simp only [ewramRegion, iwramRegion]
      split_ifs <;> omega
    unfold totalMemSize
    omega

/-- **The fast copy** is the single writes, where there is no border and no watched page. -/
theorem copyToShm_eq_memWrites (h : TablesGood s) (hram : IsRam (alignedAddr width addr))
    {slice : List width.Value}
    (hborder : ¬ CrossesBorder (alignedAddr width addr) (slice.length * width.bytes))
    (hplain : ∀ i < slice.length,
      s.jit.mmuWrite ((alignedAddr width addr + i * width.bytes) / 4096) = 0 →
        ¬ Watched s (alignedAddr width addr + i * width.bytes)) :
    copyToShm width (ramOffset (alignedAddr width addr)) slice s =
      memWrites dev width addr slice s := by
  have hstores := writeEach_store s width (ramOffset (alignedAddr width addr)) 0 slice
  rw [Nat.zero_mul, Nat.add_zero] at hstores
  rw [copyToShm, if_pos (ramOffset_end hram hborder), ← hstores]
  refine writeEach_congr (I := fun u => ∃ shm, u = s.withShm shm) ?_ ?_ ⟨s.jit.shm, rfl⟩
  · rintro j value u t ⟨shm, rfl⟩ hstep
    obtain rfl := Option.some.inj hstep
    exact ⟨_, rfl⟩
  · rintro j - hj value u ⟨shm, rfl⟩
    rw [Nat.zero_add] at hj
    have hin : j * width.bytes < slice.length * width.bytes :=
      Nat.mul_lt_mul_of_pos_right hj width.bytes_pos
    obtain ⟨hramj, hoffset⟩ := ramOffset_add hram hborder hin
    have haligned : alignedAddr width (addr + j * width.bytes) =
        alignedAddr width addr + j * width.bytes := by
      rw [alignedAddr_add, Nat.mod_eq_of_lt]
      unfold IsRam at hramj
      omega
    rw [memWrite_ram dev (h.withShm shm) (haligned ▸ hramj), haligned, hoffset]
    rw [haligned]
    exact hplain j hj

/-- Behind the bus the handlers of bios, open bus and ewram are those at its start. -/
theorem write_behind_bus (h : MemInv s) (hdvd : width.bytes ∣ addr)
    (hbus : 0x10000000 ≤ addr ∧ addr < 0x13000000) (value : width.Value) :
    MemoryIo.write dev width addr value s =
      memWrite dev width (addr - 0x10000000) value s := by
  have hdvd' : width.bytes ∣ addr - 0x10000000 :=
    Nat.dvd_sub hdvd (width.bytes_dvd.trans (by decide))
  have haligned : alignedAddr width (addr - 0x10000000) = addr - 0x10000000 :=
    alignedAddr_self hdvd' (by omega)
  by_cases hew : addr / 0x1000000 % 16 = 2
  · have hram : IsRam (alignedAddr width (addr - 0x10000000)) := by
      rw [haligned]
      exact .inl (by omega)
    have hplain : ¬ Watched s (alignedAddr width (addr - 0x10000000)) := by
      rintro ⟨hiw, -⟩
      rw [haligned] at hiw
      omega
    have himage : addr % ewramRegion.size = (addr - 0x10000000) % ewramRegion.size := by
      unfold ewramRegion
      simp only
      omega
    rw [memWrite_ram dev h.tables hram fun _ => hplain, write_ewram dev width s value hew, haligned,
      ramOffset, if_pos (by omega), himage]
  · have hunmapped : s.jit.mmuWrite (alignedAddr width (addr - 0x10000000) / 4096) = 0 := by
      by_contra hmapped
      have hram := (getShmOffset_write h.tables hmapped).1
      unfold IsRam at hram
      omega
    rw [write_none dev width s value (by omega), memWrite_of_unmapped dev hunmapped, haligned,
      write_none dev width s value (by omega)]

/-- An element before the iwram behind the bus, in a page that is not writable and watched, is
written by its handler as by a single write. -/
theorem handler_eq_memWrite (h : MemInv s) {j : Nat}
    (hend : alignedAddr width addr + j * width.bytes < 0x13000000)
    (hquiet : QuietAt s (alignedAddr width addr + j * width.bytes)) (value : width.Value) :
    MemoryIo.write dev width (elementAddr width (alignedAddr width addr) j) value s =
      memWrite dev width (addr + j * width.bytes) value s := by
  have haligned : alignedAddr width (addr + j * width.bytes) =
      (alignedAddr width addr + j * width.bytes) % 0x10000000 := alignedAddr_add width addr j
  have helement : elementAddr width (alignedAddr width addr) j =
      alignedAddr width addr + j * width.bytes := Nat.mod_eq_of_lt (by omega)
  have hdvd : width.bytes ∣ alignedAddr width addr + j * width.bytes :=
    (dvd_alignedAddr width addr).add (Nat.dvd_mul_left ..)
  rw [helement]
  generalize alignedAddr width addr + j * width.bytes = element at *
  by_cases hlow : element < 0x10000000
  · rw [Nat.mod_eq_of_lt hlow] at haligned
    by_cases hzero : s.jit.mmuWrite (element / 4096) = 0
    · rw [memWrite_of_unmapped dev (haligned ▸ hzero), haligned]
    · obtain ⟨hram, hoffset⟩ := getShmOffset_write h.tables hzero
      rw [write_ram dev hdvd hram (hquiet hzero), memWrite_of_mapped dev (haligned ▸ hzero),
        haligned, hoffset]
  · rw [write_behind_bus h hdvd ⟨by omega, by omega⟩]
    apply memWrite_congr
    rw [haligned, alignedAddr_self (Nat.dvd_sub hdvd (width.bytes_dvd.trans (by decide)))
      (by omega)]
    omega

/-- **The handlers** one by one are the single writes, where no page is writable and watched. -/
theorem handlers_eq_memWrites (h : MemInv s) {slice : List width.Value}
    (hgood : HandlersGood s width (alignedAddr width addr) slice.length) :
    MemoryMultipleSliceIo.write dev width (alignedAddr width addr) slice s =
      memWrites dev width addr slice s := by
  obtain ⟨hend, hquiet⟩ := hgood
  refine writeEach_congr (I := fun u => MemInv u ∧ ∀ i < slice.length,
    QuietAt u (alignedAddr width addr + i * width.bytes)) ?_ ?_ ⟨h, hquiet⟩
  · rintro j value u t ⟨hu, hq⟩ hstep
    exact ⟨hu.write (dvd_elementAddr (dvd_alignedAddr width addr) j) hstep,
      fun i hi => (hq i hi).write hu hstep⟩
  · rintro j - hj value u ⟨hu, hq⟩
    rw [Nat.zero_add] at hj
    have hin : j * width.bytes < slice.length * width.bytes :=
      Nat.mul_lt_mul_of_pos_right hj width.bytes_pos
    exact handler_eq_memWrite hu (by omega) (hq j hj) value

end Sufficient

/-! ## Elements that tell the two apart -/

section Necessary

variable {dev : MemDevices D} {s : GuestMem D} {width : MemWidth} {addr n : Nat}

/-- Single writes never fail. -/
theorem memWrites_isSome (dev : MemDevices D) (width : MemWidth) (addr : Nat)
    (slice : List width.Value) (s : GuestMem D) : ∃ t, memWrites dev width addr slice s = some t := by
  have hstep : ∀ i value u, True →
      ∃ t, memWrite dev width (addr + i * width.bytes) value u = some t ∧ True :=
    fun i value u _ => (memWrite_isSome dev width _ value u).imp fun _ ht => ⟨ht, trivial⟩
  obtain ⟨t, ht, -⟩ : ∃ t, memWrites dev width addr slice s = some t ∧ True :=
    writeEach_isSome (I := fun _ => True) hstep trivial
  exact ⟨t, ht⟩

/-- Single writes below a byte leave it alone. -/
theorem memWrites_above (h : MemInv s) {slice : List width.Value} {t : GuestMem D}
    (hstep : memWrites dev width addr slice s = some t) {a : Nat}
    (ha : ∀ i < slice.length, writeTop (alignedAddr width (addr + i * width.bytes)) ≤ a) :
    t.jit.shm a = s.jit.shm a := by
  have hrun := writeEach_induction (P := fun _ u => MemInv u ∧ u.jit.shm a = s.jit.shm a) (i := 0)
    ?_ ⟨h, rfl⟩ hstep
  · exact hrun.2
  · rintro j value u v - hj - ⟨hu, hbyte⟩ hstep
    rw [Nat.zero_add] at hj
    exact ⟨hu.memWrite hstep, (memWrite_above hu.tables hstep (ha j hj)).trans hbyte⟩

/-- A copy over a border reaches a byte that lies above all regions of the single writes. -/
theorem exists_above {start : Nat} (hram : IsRam start)
    (hcross : CrossesBorder start (n * width.bytes)) :
    ∃ a, ramOffset start ≤ a ∧ a < ramOffset start + n * width.bytes ∧
      ∀ i < n, writeTop ((start + i * width.bytes) % 0x10000000) ≤ a := by
  have hin : ∀ i < n, i * width.bytes < n * width.bytes :=
    fun i hi => Nat.mul_lt_mul_of_pos_right hi width.bytes_pos
  obtain ⟨border, hborder, hlow, hhigh⟩ := hcross
  unfold IsMirrorBorder at hborder
  unfold IsRam at hram
  unfold ramOffset writeTop
  simp only [ewramRegion, iwramRegion, palettesRegion, romRegion]
  generalize n * width.bytes = size at hin hhigh ⊢
  by_cases hew : start + size ≤ 0x03000000
  · refine ⟨0x44000, ?_, ?_, fun i hi => ?_⟩
    · rw [if_pos (by omega)]
      omega
    · rw [if_pos (by omega)]
      omega
    · have hlt := hin i hi
      rw [if_pos (by omega)]
  · by_cases hio : start + size ≤ 0x05000000
    · refine ⟨0x4C000, ?_, ?_, fun i hi => ?_⟩
      · split_ifs <;> omega
      · split_ifs <;> omega
      · have hlt := hin i hi
        rw [if_pos (show (start + i * width.bytes) % 0x10000000 / 0x1000000 % 16 ≤ 4 by omega)]
        split_ifs <;> omega
    · refine ⟨0x6C000, ?_, ?_, fun i hi => ?_⟩
      · split_ifs <;> omega
      · split_ifs <;> omega
      · split_ifs <;> omega

/-- **A border** in the range: the copy goes on behind the image. -/
theorem crossing_differs (h : MemInv s) (hram : IsRam (alignedAddr width addr))
    (hcross : CrossesBorder (alignedAddr width addr) (n * width.bytes)) :
    copyToShm width (ramOffset (alignedAddr width addr)) (List.replicate n (BitVec.allOnes _))
        (s.withShm fun _ => 0) ≠
      memWrites dev width addr (List.replicate n (BitVec.allOnes _)) (s.withShm fun _ => 0) := by
  intro heq
  obtain ⟨t, ht⟩ := memWrites_isSome dev width addr (List.replicate n (BitVec.allOnes _))
    (s.withShm fun _ => 0)
  obtain ⟨a, hlow, hhigh, habove⟩ := exists_above hram hcross
  have hsingle : t.jit.shm a = 0 := by
    refine memWrites_above (h.withShm _) ht fun i hi => ?_
    rw [alignedAddr_add]
    exact habove i (by rwa [List.length_replicate] at hi)
  rw [ht, copyToShm] at heq
  split_ifs at heq
  obtain rfl := Option.some.inj heq
  rw [withShm_shm, writeWords_replicate _ ⟨hlow, hhigh⟩,
    byteOf_allOnes width (Nat.mod_lt _ width.bytes_pos)] at hsingle
  exact absurd hsingle (by decide)

/-- Words of one width at aligned addresses are one or apart. -/
theorem aligned_apart {x y : Nat} (hx : width.bytes ∣ x) (hy : width.bytes ∣ y) (hne : x ≠ y) :
    x + width.bytes ≤ y ∨ y + width.bytes ≤ x := by
  obtain ⟨i, rfl⟩ := hx
  obtain ⟨j, rfl⟩ := hy
  cases width <;> simp only [MemWidth.bytes] at * <;> omega

/-- The place of an aligned address is aligned. -/
theorem dvd_ramOffset (hdvd : width.bytes ∣ addr) : width.bytes ∣ ramOffset addr := by
  have hpart : ∀ k, 4 ∣ k → width.bytes ∣ k := fun _ => width.bytes_dvd.trans
  rw [ramOffset]
  split_ifs
  · exact (hpart _ (by decide)).add ((Nat.dvd_mod_iff (hpart _ (by decide))).mpr hdvd)
  · exact (hpart _ (by decide)).add ((Nat.dvd_mod_iff (hpart _ (by decide))).mpr hdvd)

/-- Addresses of iwram with one place have one live bit. -/
theorem hasJitBlock_of_ramOffset {x y : Nat} (hx : x / 0x1000000 = 3) (hy : y / 0x1000000 = 3)
    (h : ramOffset x = ramOffset y) (jit : JitMemory) : hasJitBlock jit x = hasJitBlock jit y := by
  have hpage : livePage x = livePage y := by
    unfold ramOffset at h
    simp only [iwramRegion] at h
    rw [if_neg (by omega), if_neg (by omega)] at h
    unfold livePage getLiveRange liveRangesMap
    simp only
    rw [if_neg (by omega), if_pos (by omega), if_neg (by omega), if_pos (by omega)]
    simp only [Option.map_some, Option.some.injEq, Prod.mk.injEq, true_and]
    omega
  unfold hasJitBlock
  rw [hpage]

/-- A handler that changes the word of a watched address clears the live bit. -/
theorem write_unwatches (h : MemInv s) {t : GuestMem D} {value : width.Value} {x : Nat}
    (hx : x / 0x1000000 = 3) (haddr : IsRam addr) (hplace : ramOffset addr = ramOffset x)
    (hdvd : width.bytes ∣ addr) (hne : readWord width.bytes s.jit.shm (ramOffset x) ≠ value)
    (hstep : MemoryIo.write dev width addr value s = some t) :
    hasJitBlock t.jit.jit x = false := by
  have hiw : addr / 0x1000000 = 3 := by
    obtain ⟨-, -, hew, -⟩ := ramOffset_bounds hdvd haddr
    have hpos := width.bytes_pos
    rcases haddr with haddr | haddr
    · have hend := hew haddr
      rw [hplace, ramOffset, if_neg (by omega)] at hend
      simp only [iwramRegion] at hend
      omega
    · exact haddr
  have hoffset : ramOffset addr = iwramRegion.shmOffset + addr % iwramRegion.size := by
    rw [ramOffset, if_neg (by omega)]
  rw [← hasJitBlock_of_ramOffset hiw hx hplace]
  rw [write_iwram dev hiw] at hstep
  obtain rfl := Option.some.inj hstep
  by_cases hlive : hasJitBlock s.jit.jit addr = true
  · refine writeIwram_of_live h.jit.tables hiw hlive ?_
    rw [← hoffset, hplace]
    exact hne
  · rw [writeIwram_of_not_live hdvd (by simpa using hlive)]
    simpa using hlive

/-- **A watched page** in a fill: the single writes clear its live bit, the copy does not. -/
theorem unwatched_copy_differs (h : MemInv s) (hram : IsRam (alignedAddr width addr))
    (hborder : ¬ CrossesBorder (alignedAddr width addr) (n * width.bytes)) {i : Nat} (hi : i < n)
    (hzero : s.jit.mmuWrite ((alignedAddr width addr + i * width.bytes) / 4096) = 0)
    (hwatched : Watched s (alignedAddr width addr + i * width.bytes)) :
    copyToShm width (ramOffset (alignedAddr width addr)) (List.replicate n (BitVec.allOnes _))
        (s.withShm fun _ => 0) ≠
      memWrites dev width addr (List.replicate n (BitVec.allOnes _)) (s.withShm fun _ => 0) := by
  intro heq
  obtain ⟨t, ht⟩ := memWrites_isSome dev width addr (List.replicate n (BitVec.allOnes _))
    (s.withShm fun _ => 0)
  set start := alignedAddr width addr with hstart
  set x := start + i * width.bytes with hxdef
  obtain ⟨hx, hlive⟩ := hwatched
  have hrun := writeEach_induction (i := 0) (P := fun j u => MemInv u ∧
    (hasJitBlock u.jit.jit x = false ∨ (j ≤ i ∧ u.jit.mmuWrite (x / 4096) = 0 ∧
      readWord width.bytes u.jit.shm (ramOffset x) = 0))) ?_
    ⟨h.withShm fun _ => 0, .inr ⟨Nat.zero_le i, hzero, readFromMem_zero width (ramOffset x)⟩⟩ ht
  · -- the run has passed the element
    rw [List.length_replicate, Nat.zero_add] at hrun
    have hcleared : hasJitBlock t.jit.jit x = false := by
      rcases hrun.2 with hcleared | ⟨hlast, -⟩
      · exact hcleared
      · omega
    rw [ht, copyToShm] at heq
    split_ifs at heq
    obtain rfl := Option.some.inj heq
    exact absurd (hlive.symm.trans hcleared) (by decide)
  · rintro j value u v - hj hvalue ⟨hu, hstate⟩ hstep
    rw [List.length_replicate, Nat.zero_add] at hj
    obtain rfl := List.eq_of_mem_replicate hvalue
    refine ⟨hu.memWrite hstep, ?_⟩
    by_cases hcleared : hasJitBlock v.jit.jit x = false
    · exact .inl hcleared
    · have hkept := hasJitBlock_of_memWrite hu hstep (by simpa using hcleared)
      obtain ⟨hji, hunmapped, hword⟩ := hstate.resolve_left (by simp [hkept])
      have hin : ∀ k < n, k * width.bytes < n * width.bytes :=
        fun k hk => Nat.mul_lt_mul_of_pos_right hk width.bytes_pos
      obtain ⟨hramj, hplacej⟩ := ramOffset_add hram hborder (hin j hj)
      obtain ⟨-, hplacei⟩ := ramOffset_add hram hborder (hin i hi)
      have haligned : alignedAddr width (addr + j * width.bytes) = start + j * width.bytes := by
        rw [alignedAddr_add, Nat.mod_eq_of_lt]
        unfold IsRam at hramj
        omega
      rcases Nat.lt_or_eq_of_le hji with hlt | rfl
      · -- an element before it
        right
        refine ⟨hlt, ?_, ?_⟩
        · by_contra hmapped
          have hquiet : QuietAt u x := fun hmapped => absurd hunmapped hmapped
          exact hquiet.memWrite hu hstep hmapped ⟨hx, by simpa using hcleared⟩
        · rw [memWrite_shm_ram hu.tables (haligned ▸ hramj) hstep, haligned,
            readWord_writeWord_of_disjoint, hword]
          left
          have hnext : (j + 1) * width.bytes ≤ i * width.bytes := Nat.mul_le_mul_right _ hlt
          rw [Nat.succ_mul] at hnext
          rw [hplacej, hplacei]
          omega
      · left
        rw [memWrite_of_unmapped dev (haligned ▸ hunmapped), haligned] at hstep
        refine write_unwatches hu hx hramj rfl ?_ ?_ hstep
        · exact (dvd_alignedAddr width addr).add (Nat.dvd_mul_left ..)
        · rw [hword]
          exact allOnes_ne_zero width

/-- **A watched writable page**: the handlers clear its live bit, the single writes do not. -/
theorem watched_handlers_differ (h : MemInv s) {i : Nat} (hi : i < n)
    (hquiet : ¬ QuietAt s (alignedAddr width addr + i * width.bytes)) :
    MemoryMultipleSliceIo.write dev width (alignedAddr width addr)
        (List.replicate n (BitVec.allOnes _)) (s.withShm fun _ => 0) ≠
      memWrites dev width addr (List.replicate n (BitVec.allOnes _)) (s.withShm fun _ => 0) := by
  intro heq
  obtain ⟨t, ht⟩ := memWrites_isSome dev width addr (List.replicate n (BitVec.allOnes _))
    (s.withShm fun _ => 0)
  set start := alignedAddr width addr with hstart
  set x := start + i * width.bytes with hxdef
  have hdvd : width.bytes ∣ start := dvd_alignedAddr width addr
  unfold QuietAt at hquiet
  rw [Classical.not_imp, not_not] at hquiet
  obtain ⟨hmapped, hwatched⟩ := hquiet
  have hx : x / 0x1000000 = 3 := hwatched.1
  have hsteps := ht
  unfold memWrites at hsteps
  have hsingles := writeEach_invariant
    (I := fun u => MemInv u ∧ u.jit.mmuWrite (x / 4096) ≠ 0 ∧ Watched u x)
    (fun j value u v hu hstep =>
      ⟨hu.1.memWrite hstep, watched_of_memWrite hu.1 hstep hu.2.1 hu.2.2⟩)
    ⟨h.withShm fun _ => 0, hmapped, hwatched⟩ hsteps
  rw [ht] at heq
  have hbulk := writeEach_induction (i := 0) (P := fun j u => MemInv u ∧
    (hasJitBlock u.jit.jit x = false ∨
      (j ≤ i ∧ readWord width.bytes u.jit.shm (ramOffset x) = 0))) ?_
    ⟨h.withShm fun _ => 0, .inr ⟨Nat.zero_le i, readFromMem_zero width (ramOffset x)⟩⟩ heq
  · rw [List.length_replicate, Nat.zero_add] at hbulk
    rcases hbulk.2 with hcleared | ⟨hlast, -⟩
    · exact absurd (hsingles.2.2.2.symm.trans hcleared) (by decide)
    · omega
  · rintro j value u v - hj hvalue ⟨hu, hstate⟩ hstep
    obtain rfl := List.eq_of_mem_replicate hvalue
    refine ⟨hu.write (dvd_elementAddr hdvd j) hstep, ?_⟩
    by_cases hcleared : hasJitBlock v.jit.jit x = false
    · exact .inl hcleared
    · have hkept := hasJitBlock_of_write hu hstep (by simpa using hcleared)
      obtain ⟨hji, hword⟩ := hstate.resolve_left (by simp [hkept])
      have hle : j * width.bytes ≤ i * width.bytes := Nat.mul_le_mul_right _ hji
      have helement : elementAddr width start j = start + j * width.bytes :=
        Nat.mod_eq_of_lt (by omega)
      have hdvdj : width.bytes ∣ start + j * width.bytes := hdvd.add (Nat.dvd_mul_left ..)
      have hdvdx : width.bytes ∣ x := hdvd.add (Nat.dvd_mul_left ..)
      rw [helement] at hstep
      have hplace : ¬ (IsRam (start + j * width.bytes) ∧
          ramOffset (start + j * width.bytes) = ramOffset x) := by
        rintro ⟨hram, hplace⟩
        refine hcleared (write_unwatches hu hx hram hplace hdvdj ?_ hstep)
        rw [hword]
        exact allOnes_ne_zero width
      right
      refine ⟨?_, ?_⟩
      · rcases Nat.lt_or_eq_of_le hji with hlt | rfl
        · exact hlt
        · exact absurd ⟨.inr hx, rfl⟩ hplace
      · by_cases hram : IsRam (start + j * width.bytes)
        · rw [write_shm_ram hram hstep, readWord_writeWord_of_disjoint, hword]
          exact aligned_apart (dvd_ramOffset hdvdj) (dvd_ramOffset hdvdx)
            fun heq => hplace ⟨hram, heq⟩
        · rw [write_none dev width u _ (by unfold IsRam at hram; omega)] at hstep
          obtain rfl := Option.some.inj hstep
          exact hword

/-- **Behind the bus** the handler of iwram leaves the host's tables. -/
theorem behind_bus_fails (dev : MemDevices D) (s : GuestMem D) {start : Nat}
    (hdvd : width.bytes ∣ start) (hbus : start < 0x10000000)
    (hend : 0x13000000 < start + n * width.bytes) :
    ∃ slice : List width.Value, slice.length = n ∧
      MemoryMultipleSliceIo.write dev width start slice s = none := by
  -- the element at the first such address differs from what is there by then
  obtain ⟨k, hk⟩ : width.bytes ∣ 0x13000000 - start :=
    Nat.dvd_sub (width.bytes_dvd.trans (by decide)) hdvd
  have hkn : k < n := by
    by_contra hle
    have hmul := Nat.mul_le_mul_right width.bytes (Nat.le_of_not_lt hle)
    rw [Nat.mul_comm k] at hmul
    omega
  have hlength : ∀ value : width.Value,
      (List.replicate k 0 ++ value :: List.replicate (n - k - 1) 0).length = n := by
    intro value
    rw [List.length_append, List.length_cons, List.length_replicate, List.length_replicate]
    omega
  cases hprefix : MemoryMultipleSliceIo.write dev width start (List.replicate k 0) s with
  | none =>
      refine ⟨_, hlength 0, ?_⟩
      unfold MemoryMultipleSliceIo.write at hprefix ⊢
      rw [writeEach_append, hprefix, Option.bind_none]
  | some u =>
      obtain ⟨value, hvalue⟩ : ∃ value : width.Value,
          u.load width (iwramRegion.shmOffset + 0x13000000 % iwramRegion.size) ≠ value := by
        by_cases hsame : u.load width (iwramRegion.shmOffset + 0x13000000 % iwramRegion.size) = 0
        · exact ⟨BitVec.allOnes _, hsame ▸ allOnes_ne_zero width⟩
        · exact ⟨0, hsame⟩
      have helement : elementAddr width start (0 + (List.replicate k (0 : width.Value)).length) =
          0x13000000 := by
        rw [List.length_replicate, Nat.zero_add, elementAddr, Nat.mul_comm, ← hk]
        omega
      refine ⟨_, hlength value, ?_⟩
      unfold MemoryMultipleSliceIo.write at hprefix ⊢
      rw [writeEach_append, hprefix, Option.bind_some, writeEach, helement,
        write_iwramIo dev width u value (by decide), MemoryIo.writeIwramIo, if_neg,
        Option.bind_none]
      rintro (hsame | hlt)
      · exact hvalue hsame
      · exact absurd hlt (by decide)

end Necessary

/-! ## The law -/

/-- Slices of `n` elements are written as the elements one by one, for all contents. -/
def SliceAgrees (dev : MemDevices D) (s : GuestMem D) (width : MemWidth) (addr n : Nat) : Prop :=
  ∀ (shm : Nat → UInt8) (slice : List width.Value), slice.length = n →
    memWriteMultipleSlice dev width addr slice (s.withShm shm) =
      memWrites dev width addr slice (s.withShm shm)

/-- Fills of `n` elements are written as the elements one by one, for all contents. -/
def MemsetAgrees (dev : MemDevices D) (s : GuestMem D) (width : MemWidth) (addr n : Nat) : Prop :=
  ∀ (shm : Nat → UInt8) (value : width.Value),
    memWriteMultipleMemset dev width addr value n (s.withShm shm) =
      memWrites dev width addr (List.replicate n value) (s.withShm shm)

section Law

variable {dev : MemDevices D} {s : GuestMem D} {width : MemWidth} {addr n : Nat}

/-- The pages that a slice looks at are writable. -/
theorem mapped_of_allWritable {mmu : Nat → Nat} {start size : Nat} (hfirst : mmu (start / 4096) ≠ 0)
    (hall : allWritable mmu start size = true) (hbus : start + size < 0x100000000) {i : Nat}
    (hi : i < size) : mmu ((start + i) / 4096) ≠ 0 := by
  by_cases hpage : (start + i) / 4096 = start / 4096
  · rwa [hpage]
  · have hlast : ((start + size) % 0x100000000 + 0xFFFFFFFF) % 0x100000000 = start + size - 1 := by
      omega
    unfold allWritable at hall
    simp only [hlast, List.all_eq_true, decide_eq_true_eq] at hall
    have hmapped := hall ((start + i) / 4096 * 4096) ((mem_stepBy (by decide)).mpr
      ⟨(start + i) / 4096 - start / 4096 - 1, by omega, by omega⟩)
    intro hzero
    apply hmapped
    rw [getShmOffset_eq_zero, Nat.mul_div_cancel _ (by decide)]
    exact hzero

/-- A fill by the handlers is a slice of one value. -/
theorem memset_eq_slice (dev : MemDevices D) (width : MemWidth) (addr : Nat) (value : width.Value)
    (n : Nat) (s : GuestMem D) :
    MemoryMultipleMemsetIo.write dev width addr value n s =
      MemoryMultipleSliceIo.write dev width addr (List.replicate n value) s := by
  unfold MemoryMultipleMemsetIo.write MemoryMultipleSliceIo.write
  generalize 0 = i
  induction n generalizing i s with
  | zero => rfl
  | succ n ih =>
      rw [List.replicate_succ, List.replicate_succ, writeEach, writeEach]
      exact Option.bind_congr fun u _ => ih u (i + 1)

/-- The branches of the bulk writes. -/
theorem slice_fast {slice : List width.Value}
    (hfast : getShmOffset s.jit.mmuWrite (alignedAddr width addr) ≠ 0 ∧
      allWritable s.jit.mmuWrite (alignedAddr width addr) (slice.length * width.bytes)) :
    memWriteMultipleSlice dev width addr slice s =
      copyToShm width (getShmOffset s.jit.mmuWrite (alignedAddr width addr)) slice s :=
  if_pos hfast

theorem slice_slow {slice : List width.Value}
    (hslow : ¬ (getShmOffset s.jit.mmuWrite (alignedAddr width addr) ≠ 0 ∧
      allWritable s.jit.mmuWrite (alignedAddr width addr) (slice.length * width.bytes))) :
    memWriteMultipleSlice dev width addr slice s =
      MemoryMultipleSliceIo.write dev width (alignedAddr width addr) slice s :=
  if_neg hslow

theorem memset_fast (hfast : getShmOffset s.jit.mmuWrite (alignedAddr width addr) ≠ 0)
    (value : width.Value) :
    memWriteMultipleMemset dev width addr value n s =
      copyToShm width (getShmOffset s.jit.mmuWrite (alignedAddr width addr))
        (List.replicate n value) s :=
  if_pos hfast

theorem memset_slow (hslow : ¬ getShmOffset s.jit.mmuWrite (alignedAddr width addr) ≠ 0)
    (value : width.Value) :
    memWriteMultipleMemset dev width addr value n s =
      MemoryMultipleSliceIo.write dev width (alignedAddr width addr) (List.replicate n value) s :=
  (if_neg hslow).trans (memset_eq_slice ..)

/-- A mapped page is one of work memory. -/
theorem ram_of_offset (h : MemInv s)
    (hoffset : getShmOffset s.jit.mmuWrite (alignedAddr width addr) ≠ 0) :
    s.jit.mmuWrite (alignedAddr width addr / 4096) ≠ 0 ∧ IsRam (alignedAddr width addr) ∧
      getShmOffset s.jit.mmuWrite (alignedAddr width addr) =
        ramOffset (alignedAddr width addr) := by
  have hmapped : s.jit.mmuWrite (alignedAddr width addr / 4096) ≠ 0 :=
    fun hzero => hoffset (getShmOffset_eq_zero.mpr hzero)
  exact ⟨hmapped, getShmOffset_write h.tables hmapped⟩

/-- All pages of a slice that is copied are writable. -/
theorem mapped_of_fast (h : MemInv s)
    (hfast : getShmOffset s.jit.mmuWrite (alignedAddr width addr) ≠ 0 ∧
      allWritable s.jit.mmuWrite (alignedAddr width addr) (n * width.bytes))
    (hborder : ¬ CrossesBorder (alignedAddr width addr) (n * width.bytes)) {i : Nat} (hi : i < n) :
    s.jit.mmuWrite ((alignedAddr width addr + i * width.bytes) / 4096) ≠ 0 := by
  obtain ⟨hmapped, hram, -⟩ := ram_of_offset h hfast.1
  refine mapped_of_allWritable hmapped hfast.2 ?_ (Nat.mul_lt_mul_of_pos_right hi width.bytes_pos)
  by_contra hend
  refine hborder ⟨0x04000000, .inr (by decide), ?_, ?_⟩
  · unfold IsRam at hram
    omega
  · omega

/-- Good slices agree. -/
theorem sliceAgrees_of_good (dev : MemDevices D) (h : MemInv s) (hgood : SliceGood s width addr n) :
    SliceAgrees dev s width addr n := by
  rintro shm slice rfl
  unfold SliceGood at hgood
  simp only at hgood
  split_ifs at hgood with hfast
  · obtain ⟨-, hram, hplace⟩ := ram_of_offset h hfast.1
    rw [slice_fast (s := s.withShm shm) hfast, withShm_mmuWrite, hplace]
    exact copyToShm_eq_memWrites (h.withShm shm).tables hram hgood fun i hi hzero =>
      absurd hzero (mapped_of_fast h hfast hgood hi)
  · rw [slice_slow (s := s.withShm shm) hfast]
    exact handlers_eq_memWrites (h.withShm shm) hgood

/-- Good fills agree. -/
theorem memsetAgrees_of_good (dev : MemDevices D) (h : MemInv s)
    (hgood : MemsetGood s width addr n) : MemsetAgrees dev s width addr n := by
  intro shm value
  unfold MemsetGood at hgood
  simp only at hgood
  split_ifs at hgood with hfast
  · obtain ⟨-, hram, hplace⟩ := ram_of_offset h hfast
    rw [memset_fast (s := s.withShm shm) hfast, withShm_mmuWrite, hplace]
    apply copyToShm_eq_memWrites (h.withShm shm).tables hram
    · rw [List.length_replicate]
      exact hgood.1
    · rw [List.length_replicate]
      exact hgood.2
  · rw [memset_slow (s := s.withShm shm) hfast]
    apply handlers_eq_memWrites (h.withShm shm)
    rw [List.length_replicate]
    exact hgood

/-- Slices that agree are good. -/
theorem sliceGood_of_agrees (h : MemInv s) (hagree : SliceAgrees dev s width addr n) :
    SliceGood s width addr n := by
  have hones := hagree (fun _ => 0) (List.replicate n (BitVec.allOnes _)) (List.length_replicate ..)
  unfold SliceGood
  simp only
  split_ifs with hfast
  · obtain ⟨-, hram, hplace⟩ := ram_of_offset h hfast.1
    rw [slice_fast (s := s.withShm fun _ => 0) (by rw [List.length_replicate]; exact hfast), withShm_mmuWrite, hplace] at hones
    exact fun hcross => crossing_differs h hram hcross hones
  · constructor
    · by_contra hend
      obtain ⟨slice, rfl, hnone⟩ := behind_bus_fails (n := n) dev s
        (dvd_alignedAddr width addr) (alignedAddr_lt width addr) (Nat.lt_of_not_le hend)
      have hbulk := hagree s.jit.shm slice rfl
      obtain ⟨t, ht⟩ := memWrites_isSome dev width addr slice s
      rw [withShm_self, slice_slow hfast, hnone, ht] at hbulk
      cases hbulk
    · intro i hi
      by_contra hquiet
      rw [slice_slow (s := s.withShm fun _ => 0) (by rw [List.length_replicate]; exact hfast)] at hones
      exact watched_handlers_differ h hi hquiet hones

/-- Fills that agree are good, up to the end of ewram behind the bus. -/
theorem memsetGood_of_agrees (h : MemInv s)
    (hend : alignedAddr width addr + n * width.bytes ≤ 0x13000000)
    (hagree : MemsetAgrees dev s width addr n) : MemsetGood s width addr n := by
  have hones := hagree (fun _ => 0) (BitVec.allOnes _)
  unfold MemsetGood
  simp only
  split_ifs with hfast
  · obtain ⟨-, hram, hplace⟩ := ram_of_offset h hfast
    rw [memset_fast (s := s.withShm fun _ => 0) hfast, withShm_mmuWrite, hplace] at hones
    have hborder : ¬ CrossesBorder (alignedAddr width addr) (n * width.bytes) :=
      fun hcross => crossing_differs h hram hcross hones
    exact ⟨hborder, fun i hi hzero hwatched =>
      unwatched_copy_differs h hram hborder hi hzero hwatched hones⟩
  · refine ⟨hend, fun i hi => ?_⟩
    by_contra hquiet
    rw [memset_slow (s := s.withShm fun _ => 0) hfast] at hones
    exact watched_handlers_differ h hi hquiet hones

end Law

/-- **Bulk writes.**  In every state of every run, slices are written as their elements one by one
exactly when they are good.  Fills are when they are good, and only then if they end before the
iwram behind the bus. -/
theorem bulk_write_law (dev : MemDevices D) (s : GuestMem D) (h : MemReaches dev s)
    (width : MemWidth) (addr n : Nat) :
    (SliceAgrees dev s width addr n ↔ SliceGood s width addr n) ∧
      (MemsetGood s width addr n → MemsetAgrees dev s width addr n) ∧
      (alignedAddr width addr + n * width.bytes ≤ 0x13000000 →
        MemsetAgrees dev s width addr n → MemsetGood s width addr n) := by
  have hinv := memInv_of_reaches h
  exact ⟨⟨sliceGood_of_agrees hinv, sliceAgrees_of_good dev hinv⟩, memsetAgrees_of_good dev hinv,
    memsetGood_of_agrees hinv⟩

/-- A slice over two pages of ewram. -/
theorem ewramSlice_agrees : SliceAgrees silentDevices (emptyBoot plainCartridge) .word 0x02000FFC 2 := by
  have hloaded : plainCartridge.Loaded := ⟨by decide, by decide, .inl rfl⟩
  refine (bulk_write_law silentDevices _ (emptyBoot_reaches hloaded) .word 0x02000FFC 2).1.mpr ?_
  unfold SliceGood
  rw [if_pos (by decide)]
  rintro ⟨border, hborder, hlow, hhigh⟩
  simp only [IsMirrorBorder, alignedAddr, MemWidth.bytes] at *
  omega

/-! ## The end of an image -/

/-- The second word belongs at the start of ewram; the copy puts it at the start of iwram. -/
theorem borderSlice_differs :
    ¬ ∀ s, MemReaches silentDevices s → ∀ (width : MemWidth) (addr : Nat),
      (∀ slice, memWriteMultipleSlice silentDevices width addr slice s =
        memWrites silentDevices width addr slice s) ∧
      ∀ value n, memWriteMultipleMemset silentDevices width addr value n s =
        memWrites silentDevices width addr (List.replicate n value) s := by
  intro hclaim
  have hloaded : plainCartridge.Loaded := ⟨by decide, by decide, .inl rfl⟩
  have hequal := (hclaim _ (emptyBoot_reaches hloaded) .word 0x0203FFFC).1 [1, 2]
  have hbyte := congrArg (Option.map fun t : GuestMem Unit => t.jit.shm 0x44000) hequal
  exact absurd hbyte (by decide)

end AdvancedSlop
