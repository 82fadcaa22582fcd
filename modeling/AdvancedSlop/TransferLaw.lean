/-
# The law of DMA transfers

A transfer by slices reads its units before it writes them.

* `units_carry` : units that are read where earlier ones were written carry them on;
* `dmaDoTransfer_reaches` : a transfer is a run of the memory;
* `dma_transfer_law` : a good transfer is the unit by unit copy; between runs of the shared memory
  it is, for all contents, only if it is good;
* `overlap_differs` : an overlapping forward copy.
-/
import AdvancedSlop.FastPath
import AdvancedSlop.DmaTransfer

namespace AdvancedSlop

open IndexedLoop WordMemory

variable {D : Type*}

/-! ## Units that are carried on -/

section Carry

variable {dev : MemDevices D} {s : GuestMem D} {width : MemWidth}

/-- Words that share no byte. -/
def DisjointWords (width : MemWidth) (offset offset' : Nat) : Prop :=
  offset + width.bytes ≤ offset' ∨ offset' + width.bytes ≤ offset

/-- **A unit that is carried on**: one is written where a later one is read, and no unit in between
and no unit after them writes over it. -/
theorem units_carry {read : Nat → GuestMem D → width.Value × GuestMem D}
    {write : Nat → width.Value → GuestMem D → Option (GuestMem D)} (source place : Nat → Nat)
    (first last : Nat) {n : Nat}
    (hread : ∀ j < n, ∀ mem,
      read j (s.withShm mem) = ((s.withShm mem).load width (source j), s.withShm mem))
    (hwrite : ∀ j < n, ∀ mem value,
      write j value (s.withShm mem) = some ((s.withShm mem).store width (place j) value))
    (hn : last < n) (hcarry : place first = source last)
    (hbefore : ∀ i < first, DisjointWords width (place i) (source first))
    (hbetween : ∀ i, first < i → i < last → DisjointWords width (place i) (place first))
    (hafter : ∀ i, last < i → i < n → DisjointWords width (place i) (place last))
    (hlt : first < last) {mem : Nat → UInt8} {t : GuestMem D}
    (hrun : copyEach read write 0 n (s.withShm mem) = some t) :
    t.load width (place last) = (s.withShm mem).load width (source first) := by
  set carried := (s.withShm mem).load width (source first)
  have hunits := copyEach_induction (P := fun j u => (∃ mem, u = s.withShm mem) ∧
    (j ≤ first → u.load width (source first) = carried) ∧
    (first < j → j ≤ last → u.load width (place first) = carried) ∧
    (last < j → u.load width (place last) = carried)) ?_ ?_ hrun
  · exact hunits.2.2.2 (by omega)
  · rintro j u t - hj ⟨⟨mem, rfl⟩, hfirst, hmiddle, hlast⟩ hstep
    rw [Nat.zero_add] at hj
    rw [hread j hj mem, hwrite j hj mem] at hstep
    obtain rfl := Option.some.inj hstep
    have hkept : ∀ offset, DisjointWords width (place j) offset →
        ((s.withShm mem).store width (place j) ((s.withShm mem).load width (source j))).load width
          offset = (s.withShm mem).load width offset :=
      fun offset h => readWord_writeWord_of_disjoint _ _ h
    have hself : ((s.withShm mem).store width (place j)
        ((s.withShm mem).load width (source j))).load width (place j) =
          (s.withShm mem).load width (source j) := readWord_writeWord_self ..
    refine ⟨⟨_, rfl⟩, fun hle => ?_, fun hle hge => ?_, fun hle => ?_⟩
    · rw [hkept _ (hbefore j hle)]
      exact hfirst (by omega)
    · rcases Nat.eq_or_lt_of_le (Nat.le_of_lt_succ hle) with rfl | hlt
      · exact hself.trans (hfirst le_rfl)
      · rw [hkept _ (hbetween j hlt hge)]
        exact hmiddle hlt (by omega)
    · rcases Nat.eq_or_lt_of_le (Nat.le_of_lt_succ hle) with rfl | hlt
      · rw [hself, ← hcarry]
        exact hmiddle (by omega) le_rfl
      · rw [hkept _ (hafter j hlt hj)]
        exact hlast hlt
  · exact ⟨⟨mem, rfl⟩, fun _ => rfl, by omega, by omega⟩

/-- All ones in one place, zeros elsewhere. -/
def onesAt (width : MemWidth) (offset : Nat) (a : Nat) : UInt8 :=
  if offset ≤ a ∧ a < offset + width.bytes then 0xFF else 0

theorem load_onesAt (s : GuestMem D) (width : MemWidth) (offset : Nat) :
    (s.withShm (onesAt width offset)).load width offset = BitVec.allOnes _ := by
  refine readWord_eq_iff.mpr fun i hi => ?_
  rw [byteOf_allOnes width hi]
  exact if_pos ⟨by omega, by omega⟩

/-- Elsewhere nothing is all ones. -/
theorem load_onesAt_ne (s : GuestMem D) (width : MemWidth) (offset offset' : Nat)
    (h : DisjointWords width offset offset') :
    (s.withShm (onesAt width offset)).load width offset' ≠ BitVec.allOnes _ := by
  intro hones
  have hbyte := readWord_eq_iff.mp hones 0 width.bytes_pos
  rw [byteOf_allOnes width width.bytes_pos] at hbyte
  have hzero : onesAt width offset (offset' + 0) = 0 := if_neg (by
    have hpos := width.bytes_pos
    unfold DisjointWords at h
    omega)
  exact absurd (hzero.symm.trans hbyte) (by decide)

/-- Words at different multiples. -/
theorem disjointWords_of_ne {a b : Nat} (h : a ≠ b) :
    DisjointWords width (width.bytes * a) (width.bytes * b) := by
  rcases Nat.lt_or_gt_of_ne h with hlt | hlt
  · exact .inl (by rw [← Nat.mul_succ]; exact Nat.mul_le_mul_left _ hlt)
  · exact .inr (by rw [← Nat.mul_succ]; exact Nat.mul_le_mul_left _ hlt)

end Carry

/-! ## Only good transfers -/

section Converse

variable {dev : MemDevices D} {s : GuestMem D} {width : MemWidth}

/-- Whole units lie at whole offsets. -/
theorem dvd_getShmOffset_read (h : TablesGood s) {addr : Nat} (hdvd : width.bytes ∣ addr)
    (hmapped : s.mmuRead (addr / 4096) ≠ 0) : width.bytes ∣ getShmOffset s.mmuRead addr := by
  have hentry : 4 ∣ mmuReadEntry s.cart (addr / 4096 * 4096) := by
    have hmask : (addr / 4096 * 4096 % 0x2000000 &&& s.cart.romMask) % 2 ^ 2 = 0 := by
      have hpage : addr / 4096 * 4096 % 0x2000000 % 2 ^ 2 = 0 := by omega
      rw [Nat.and_mod_two_pow, hpage, Nat.zero_and]
    unfold mmuReadEntry vramOffset
    simp only [ewramRegion, iwramRegion, vramRegion, romRegion]
    split_ifs <;> omega
  obtain ⟨-, -, hoffset⟩ := getShmOffset_read h hmapped
  rw [hoffset]
  exact (width.bytes_dvd.trans hentry).add
    ((Nat.dvd_mod_iff (width.bytes_dvd.trans (by decide))).mpr hdvd)

/-- Where an incrementing unit is accessed. -/
theorem unitPlace_increment (width : MemWidth) (addr : BitVec 32) (i : Nat) :
    unitPlace width .increment addr i = alignedAddr width (addr.toNat + i * width.bytes) :=
  (unitPlace_add width (by decide) addr i).trans (alignedAddr_add width _ i).symm

/-- A write to a work memory touches its place only. -/
theorem apart_of_ram {source dest : Nat} (hram : IsRam dest)
    (h : ∀ taken, readSite s width source = some taken →
      DisjointWords width taken (ramOffset dest)) : Apart s width source dest := by
  unfold IsRam at hram
  refine ⟨fun hport => ?_, fun taken changed htaken hchanged => ?_, fun hdevices => ?_⟩
  · unfold IsPortAddr at hport
    omega
  · rw [writeSite, if_pos (by omega)] at hchanged
    obtain rfl := Option.some.inj hchanged
    exact h taken htaken
  · obtain ⟨-, hwrites⟩ := hdevices
    unfold WritesDevices IsPortAddr at hwrites
    omega

/-- **Between runs of the shared memory**, only units apart are copied as they would be. -/
theorem unitsApart_of_agrees (h : MemInv s) {destAddr srcAddr : BitVec 32} {n : Nat}
    (hread : ReadGood true s width srcAddr.toNat n) (hslice : SliceGood s width destAddr.toNat n)
    (hshared : SharedSource s width srcAddr) (hfast : SharedDest s width destAddr n)
    (hagree : ∀ shm, ((dmaSource dev width srcAddr.toNat n (s.withShm shm)).bind fun r =>
        r.1.writeMultiple dev destAddr.toNat r.2) =
      copyEach (fun j => memRead dev width (srcAddr.toNat + j * width.bytes))
        (fun j => memWrite dev width (destAddr.toNat + j * width.bytes)) 0 n (s.withShm shm)) :
    UnitsApart s width .increment .increment destAddr srcAddr n := by
  obtain ⟨-, hram, hplace⟩ := ram_of_offset h hfast.1
  have hborder := hslice
  unfold SliceGood at hborder
  simp only at hborder
  rw [if_pos ⟨hfast.1, hfast.2⟩] at hborder
  have hunit : ∀ i < n, i * width.bytes < n * width.bytes :=
    fun i hi => Nat.mul_lt_mul_of_pos_right hi width.bytes_pos
  have hdest : ∀ i < n, alignedAddr width (destAddr.toNat + i * width.bytes) =
      alignedAddr width destAddr.toNat + i * width.bytes := by
    intro i hi
    have hrami := (ramOffset_add hram hborder (hunit i hi)).1
    unfold IsRam at hrami
    rw [alignedAddr_add, Nat.mod_eq_of_lt (by omega)]
  obtain ⟨a, ha⟩ := dvd_getShmOffset_read h.tables (dvd_alignedAddr width srcAddr.toNat)
    (fun hzero => hshared (getShmOffset_eq_zero.mpr hzero))
  obtain ⟨b, hb⟩ := dvd_ramOffset (dvd_alignedAddr width destAddr.toNat)
  intro i j hij hj
  rw [unitPlace_increment, unitPlace_increment]
  have hrami := ramOffset_add hram hborder (hunit i (by omega))
  refine apart_of_ram (hdest i (by omega) ▸ hrami.1) fun taken htaken => ?_
  rw [shared_site hread hshared hj] at htaken
  obtain rfl := Option.some.inj htaken
  rw [hdest i (by omega), hrami.2, ha, hb, Nat.mul_comm j, Nat.mul_comm i, ← Nat.mul_add,
    ← Nat.mul_add]
  refine disjointWords_of_ne fun hmeet => ?_
  -- the first unit is carried on to the unit `j - i`
  set off := getShmOffset s.mmuRead (alignedAddr width srcAddr.toNat) with hoff
  set d := ramOffset (alignedAddr width destAddr.toNat) with hd
  have hunits := hagree (onesAt width off)
  rw [dmaSource_shared (s := s.withShm (onesAt width off)) hread hshared, Option.bind_some] at hunits
  have hcopy : @HostSlice.writeMultiple D dev width destAddr.toNat (.shared off n)
      (s.withShm (onesAt width off)) = some (s.withShm (writeWords width.bytes (onesAt width off) d
        (readWords width.bytes (onesAt width off) off n))) := by
    refine (if_pos hfast).trans ?_
    rw [copyToShm, withShm_mmuWrite, hplace, if_pos]
    · rfl
    · rw [readWords, List.length_map, List.length_range]
      exact ramOffset_end hram hborder
  have hcarried := units_carry (s := s) (fun k => off + k * width.bytes)
    (fun k => d + k * width.bytes) 0 (j - i)
    (fun k hk mem => memRead_of_site dev (s := s.withShm mem) (shared_site hread hshared hk))
    (fun k hk mem value => ?_) (by omega) ?_ (by omega) (fun k _ hk => ?_) (fun k hk _ => ?_)
    (by omega) (hunits.symm.trans hcopy)
  · -- the copy finds no ones there
    have hk : j - i < (readWords width.bytes (onesAt width off) off n).length := by
      rw [readWords, List.length_map, List.length_range]
      omega
    have hword := readWord_writeWords (onesAt width off) d hk
    rw [Nat.zero_mul, Nat.add_zero, load_onesAt] at hcarried
    refine load_onesAt_ne s width off (off + (j - i) * width.bytes) ?_ ?_
    · exact .inl (Nat.add_le_add_left (Nat.le_mul_of_pos_left _ (by omega)) _)
    · refine Eq.trans ?_ (hword.symm.trans hcarried)
      simp only [readWords, List.getElem_map, List.getElem_range]
      rfl
  · -- a unit of the destination
    have hramk := ramOffset_add hram hborder (hunit k hk)
    rw [memWrite_ram dev (h.withShm mem).tables (hdest k hk ▸ hramk.1), hdest k hk, hramk.2]
    rw [hdest k hk]
    exact fun hzero => absurd hzero (mapped_of_fast h hfast hborder hk)
  · show d + 0 * width.bytes = off + (j - i) * width.bytes
    rw [ha, hb, Nat.mul_comm (j - i), ← Nat.mul_add, Nat.zero_mul, Nat.add_zero]
    congr 1
    omega
  · show DisjointWords width (d + k * width.bytes) (d + 0 * width.bytes)
    rw [hb, Nat.mul_comm k, Nat.mul_comm 0, ← Nat.mul_add, ← Nat.mul_add]
    exact disjointWords_of_ne (by omega)
  · show DisjointWords width (d + k * width.bytes) (d + (j - i) * width.bytes)
    rw [hb, Nat.mul_comm k, Nat.mul_comm (j - i), ← Nat.mul_add, ← Nat.mul_add]
    exact disjointWords_of_ne (by omega)

/-- **A run of the shared memory into one place** of a work memory: the last unit must not be read
there. -/
theorem lastApart_of_agrees (h : MemInv s) {destAddr srcAddr : BitVec 32} {n : Nat} (hn : 1 < n)
    (hread : ReadGood true s width srcAddr.toNat n) (hshared : SharedSource s width srcAddr)
    (hoffset : getShmOffset s.jit.mmuWrite (alignedAddr width destAddr.toNat) ≠ 0)
    (hagree : ∀ shm, ((dmaSource dev width srcAddr.toNat n (s.withShm shm)).bind fun r =>
        r.1.writeFixed dev destAddr.toNat r.2) =
      copyEach (fun j => memRead dev width (srcAddr.toNat + j * width.bytes))
        (fun _ => memWrite dev width destAddr.toNat) 0 n (s.withShm shm)) :
    Apart s width (unitPlace width .increment srcAddr (n - 1))
      (unitPlace width .fixed destAddr 0) := by
  obtain ⟨hmapped, hram, hplace⟩ := ram_of_offset h hoffset
  obtain ⟨a, ha⟩ := dvd_getShmOffset_read h.tables (dvd_alignedAddr width srcAddr.toNat)
    (fun hzero => hshared (getShmOffset_eq_zero.mpr hzero))
  obtain ⟨b, hb⟩ := dvd_ramOffset (dvd_alignedAddr width destAddr.toNat)
  rw [unitPlace_increment, unitPlace_fixed]
  refine apart_of_ram hram fun taken htaken => ?_
  rw [shared_site hread hshared (by omega)] at htaken
  obtain rfl := Option.some.inj htaken
  rw [ha, hb, Nat.mul_comm (n - 1), ← Nat.mul_add]
  refine disjointWords_of_ne fun hmeet => ?_
  -- the last but one is carried on to the last
  set off := getShmOffset s.mmuRead (alignedAddr width srcAddr.toNat) with hoff
  set d := ramOffset (alignedAddr width destAddr.toNat) with hd
  set mem := onesAt width (off + (n - 2) * width.bytes) with hmem
  have hnext : DisjointWords width (off + (n - 2) * width.bytes) (off + (n - 1) * width.bytes) := by
    rw [ha, Nat.mul_comm (n - 2), Nat.mul_comm (n - 1), ← Nat.mul_add, ← Nat.mul_add]
    exact disjointWords_of_ne (by omega)
  have hlast : off + (n - 1) * width.bytes = d := by
    rw [ha, hb, Nat.mul_comm (n - 1), ← Nat.mul_add, hmeet]
  have hunits := hagree mem
  rw [dmaSource_shared (s := s.withShm mem) hread hshared, Option.bind_some] at hunits
  have hcopy : @HostSlice.writeFixed D dev width destAddr.toNat (.shared off n) (s.withShm mem) =
      some ((s.withShm mem).store width d
        ((s.withShm mem).load width (off + (n - 1) * width.bytes))) :=
    (if_pos hoffset).trans (by rw [withShm_mmuWrite, hplace])
  have hcarried := units_carry (s := s) (fun k => off + k * width.bytes) (fun _ => d) (n - 2) (n - 1)
    (fun k hk mem => memRead_of_site dev (s := s.withShm mem) (shared_site hread hshared hk))
    (fun k _ mem value => memWrite_ram dev (h.withShm mem).tables hram
      (fun hzero => absurd hzero hmapped) value)
    (by omega) hlast.symm (fun k _ => ?_) (by omega) (by omega) (by omega) (hunits.symm.trans hcopy)
  · refine load_onesAt_ne s width _ _ hnext ((?_ : _ = _).trans (hcarried.trans (load_onesAt ..)))
    exact (readWord_writeWord_self ..).symm
  · show DisjointWords width d (off + (n - 2) * width.bytes)
    rw [← hlast]
    exact hnext.symm

theorem dmaWidth_ne_byte (cnt : BitVec 32) : dmaWidth cnt ≠ .byte := by
  unfold dmaWidth
  split_ifs <;> decide

theorem dmaWordCount_pos (cnt : BitVec 32) (channelNum : Fin 4) :
    0 < (dmaWordCount cnt channelNum).toNat := by
  rw [dmaWordCount]
  split_ifs with hzero
  · decide
  · decide
  · exact Nat.pos_of_ne_zero fun h => hzero (BitVec.eq_of_toNat_eq h)

end Converse

/-! ## Transfers in runs -/

section Runs

variable {dev : MemDevices D} {s t : GuestMem D} {width : MemWidth}

/-- A step of the memory leads on. -/
theorem MemReaches.step (h : MemReaches dev s) (op : MemOp D) (hstep : memStep dev s op = some t) :
    MemReaches dev t := by
  obtain ⟨s₀, hstart, hrun⟩ := h
  exact ⟨s₀, hstart, hrun.tail trivial hstep⟩

theorem dmaUnits_reaches {destAddrCtrl srcAddrCtrl : DmaAddrCtrl} {count : Nat}
    {destAddr srcAddr destEnd srcEnd : BitVec 32} (h : MemReaches dev s)
    (hstep : dmaUnits dev width destAddrCtrl srcAddrCtrl count destAddr srcAddr s =
      some (t, destEnd, srcEnd)) : MemReaches dev t := by
  induction count generalizing s destAddr srcAddr with
  | zero =>
      obtain ⟨rfl, -⟩ := Prod.mk.inj (Option.some.inj hstep)
      exact h
  | succ count ih =>
      obtain ⟨u, hu, hrest⟩ := Option.bind_eq_some_iff.mp hstep
      have hread := h.step (.read width srcAddr.toNat) rfl
      exact ih (hread.step (.write width destAddr.toNat _) hu) hrest

theorem dmaSource_reaches {srcAddr n : Nat} {slice : HostSlice width} (h : MemReaches dev s)
    (hstep : dmaSource dev width srcAddr n s = some (slice, t)) : MemReaches dev t := by
  unfold dmaSource at hstep
  simp only at hstep
  split_ifs at hstep
  · obtain ⟨-, rfl⟩ := Prod.mk.inj (Option.some.inj hstep)
    exact h
  · obtain ⟨r, hr, heq⟩ := Option.map_eq_some_iff.mp hstep
    obtain ⟨-, rfl⟩ := Prod.mk.inj heq
    refine h.step (.readSlice false width (alignedAddr width srcAddr) n) ?_
    rw [memStep, hr, Option.map_some]

/-- A host slice is written as a slice of values is. -/
theorem HostSlice.writeMultiple_eq (dev : MemDevices D) (slice : HostSlice width) (addr : Nat)
    (s : GuestMem D) :
    ∃ values, slice.writeMultiple dev addr s = memWriteMultipleSlice dev width addr values s := by
  cases slice with
  | buffer values => exact ⟨values, rfl⟩
  | shared source n =>
      by_cases hfast : getShmOffset s.jit.mmuWrite (alignedAddr width addr) ≠ 0 ∧
          allWritable s.jit.mmuWrite (alignedAddr width addr) (n * width.bytes)
      · refine ⟨readWords width.bytes s.jit.shm source n, (if_pos hfast).trans ?_⟩
        rw [slice_fast (by rwa [readWords, List.length_map, List.length_range])]
      · obtain ⟨values, hlength, hvalues⟩ := exists_values
          (fun i => MemoryIo.write dev width (elementAddr width (alignedAddr width addr) i))
          (fun i s => s.load width (source + i * width.bytes)) 0 n s
        refine ⟨values, (if_neg hfast).trans ?_⟩
        rw [slice_slow (by rwa [hlength])]
        exact hvalues

theorem HostSlice.writeFixed_eq (dev : MemDevices D) (slice : HostSlice width) (addr : Nat)
    (s : GuestMem D) :
    ∃ values, slice.writeFixed dev addr s = memWriteFixedSlice dev width addr values s := by
  cases slice with
  | buffer values => exact ⟨values, rfl⟩
  | shared source n =>
      by_cases hfast : getShmOffset s.jit.mmuWrite (alignedAddr width addr) ≠ 0
      · exact ⟨[s.load width (source + (n - 1) * width.bytes)],
          (if_pos hfast).trans (if_pos hfast).symm⟩
      · obtain ⟨values, -, hvalues⟩ := exists_values
          (fun _ => MemoryIo.write dev width (alignedAddr width addr))
          (fun i s => s.load width (source + i * width.bytes)) 0 n s
        exact ⟨values, ((if_neg hfast).trans hvalues).trans (if_neg hfast).symm⟩

/-- **A transfer** is a run of the memory. -/
theorem dmaDoTransfer_reaches {destAddrCtrl srcAddrCtrl : DmaAddrCtrl} {count : Nat}
    {destAddr srcAddr destEnd srcEnd : BitVec 32} (h : MemReaches dev s)
    (hstep : dmaDoTransfer dev width destAddrCtrl srcAddrCtrl destAddr srcAddr count s =
      some (t, destEnd, srcEnd)) : MemReaches dev t := by
  have hmoving : ∀ {destEnd' srcEnd' : BitVec 32},
      ((dmaSource dev width srcAddr.toNat count s).bind fun r =>
        (r.1.writeMultiple dev destAddr.toNat r.2).map fun s => (s, destEnd', srcEnd')) =
          some (t, destEnd, srcEnd) → MemReaches dev t := by
    intro destEnd' srcEnd' hstep
    obtain ⟨r, hr, hwrite⟩ := Option.bind_eq_some_iff.mp hstep
    obtain ⟨u, hu, heq⟩ := Option.map_eq_some_iff.mp hwrite
    obtain ⟨rfl, -⟩ := Prod.mk.inj heq
    obtain ⟨values, hvalues⟩ := r.1.writeMultiple_eq dev destAddr.toNat r.2
    exact (dmaSource_reaches h hr).step (.writeSlice width destAddr.toNat values)
      (hvalues.symm.trans hu)
  have hfill : ∀ {destEnd' srcEnd' : BitVec 32},
      ((memWriteMultipleSlice dev width destAddr.toNat
          (memReadFixedSlice dev width srcAddr.toNat count s).1
          (memReadFixedSlice dev width srcAddr.toNat count s).2).map fun s =>
            (s, destEnd', srcEnd')) = some (t, destEnd, srcEnd) → MemReaches dev t := by
    intro destEnd' srcEnd' hstep
    obtain ⟨u, hu, heq⟩ := Option.map_eq_some_iff.mp hstep
    obtain ⟨rfl, -⟩ := Prod.mk.inj heq
    exact (h.step (.read width srcAddr.toNat) rfl).step (.writeSlice width destAddr.toNat _) hu
  cases srcAddrCtrl with
  | decrement => cases destAddrCtrl <;> exact dmaUnits_reaches h hstep
  | incrementReload => cases destAddrCtrl <;> exact dmaUnits_reaches h hstep
  | fixed =>
      cases destAddrCtrl with
      | decrement => exact dmaUnits_reaches h hstep
      | fixed => exact dmaUnits_reaches h hstep
      | increment => exact hfill hstep
      | incrementReload => exact hfill hstep
  | increment =>
      cases destAddrCtrl with
      | decrement => exact dmaUnits_reaches h hstep
      | fixed =>
          obtain ⟨r, hr, hwrite⟩ := Option.bind_eq_some_iff.mp hstep
          obtain ⟨u, hu, heq⟩ := Option.map_eq_some_iff.mp hwrite
          obtain ⟨rfl, -⟩ := Prod.mk.inj heq
          obtain ⟨values, hvalues⟩ := r.1.writeFixed_eq dev destAddr.toNat r.2
          exact (dmaSource_reaches h hr).step (.writeFixedSlice width destAddr.toNat values)
            (hvalues.symm.trans hu)
      | increment => exact hmoving hstep
      | incrementReload => exact hmoving hstep

end Runs

/-! ## The law -/

/-- A transfer is the copy unit by unit, for all contents of the shared memory. -/
def TransferAgrees (dev : MemDevices D) (s : GuestMem D) (width : MemWidth)
    (destAddrCtrl srcAddrCtrl : DmaAddrCtrl) (destAddr srcAddr : BitVec 32) (n : Nat) : Prop :=
  ∀ shm, dmaDoTransfer dev width destAddrCtrl srcAddrCtrl destAddr srcAddr n (s.withShm shm) =
    dmaUnits dev width destAddrCtrl srcAddrCtrl n destAddr srcAddr (s.withShm shm)

/-- A transfer from a run of the shared memory to one, or to one place of it, that reads and writes
its slices as their elements are. -/
def BetweenRuns (s : GuestMem D) (width : MemWidth) (destAddrCtrl srcAddrCtrl : DmaAddrCtrl)
    (destAddr srcAddr : BitVec 32) (n : Nat) : Prop :=
  srcAddrCtrl = .increment ∧ SharedSource s width srcAddr ∧ ReadGood true s width srcAddr.toNat n ∧
    match destAddrCtrl with
    | .fixed => getShmOffset s.jit.mmuWrite (alignedAddr width destAddr.toNat) ≠ 0
    | .decrement => True
    | _ => SharedDest s width destAddr n ∧ SliceGood s width destAddr.toNat n


section Contents

variable {s : GuestMem D} {width : MemWidth} {destAddrCtrl srcAddrCtrl : DmaAddrCtrl}
  {destAddr srcAddr : BitVec 32} {n : Nat}

theorem cartridgeAutoEnableRtc_withShm (s : GuestMem D) (shm : Nat → UInt8) :
    cartridgeAutoEnableRtc (s.withShm shm) = (cartridgeAutoEnableRtc s).withShm shm := by
  unfold cartridgeAutoEnableRtc
  by_cases hrtc : s.cart.hasRtc = true
  · have hrtc' : (s.withShm shm).cart.hasRtc = true := hrtc
    rw [if_pos hrtc, if_pos hrtc']
  · have hrtc' : ¬ (s.withShm shm).cart.hasRtc = true := hrtc
    rw [if_neg hrtc, if_neg hrtc']
    rfl

theorem Stays.withShm {source dest : Nat} (h : Stays s width source dest) (shm : Nat → UInt8) :
    Stays (s.withShm shm) width source dest := by
  unfold Stays
  rw [cartridgeAutoEnableRtc_withShm]
  exact h

theorem Apart.withShm {source dest : Nat} (h : Apart s width source dest) (shm : Nat → UInt8) :
    Apart (s.withShm shm) width source dest := ⟨h.1.withShm shm, h.2⟩

theorem UnitsStay.withShm (h : UnitsStay s width destAddrCtrl srcAddrCtrl destAddr srcAddr n)
    (shm : Nat → UInt8) : UnitsStay (s.withShm shm) width destAddrCtrl srcAddrCtrl destAddr srcAddr n :=
  fun i j hij hj => (h i j hij hj).withShm shm

theorem UnitsApart.withShm (h : UnitsApart s width destAddrCtrl srcAddrCtrl destAddr srcAddr n)
    (shm : Nat → UInt8) :
    UnitsApart (s.withShm shm) width destAddrCtrl srcAddrCtrl destAddr srcAddr n :=
  fun i j hij hj => (h i j hij hj).withShm shm

/-- **The contents** of the memory are none of the condition. -/
theorem TransferGood.withShm (h : TransferGood s width destAddrCtrl srcAddrCtrl destAddr srcAddr n)
    (shm : Nat → UInt8) :
    TransferGood (s.withShm shm) width destAddrCtrl srcAddrCtrl destAddr srcAddr n := by
  have hmoving : ReadGood true s width srcAddr.toNat n ∧ SliceGood s width destAddr.toNat n ∧
      (if SharedSource s width srcAddr ∧ ¬ SharedDest s width destAddr n then
        UnitsStay s width .increment .increment destAddr srcAddr n
      else UnitsApart s width .increment .increment destAddr srcAddr n) →
      TransferGood (s.withShm shm) width .increment .increment destAddr srcAddr n := by
    rintro ⟨hread, hslice, hunits⟩
    refine ⟨hread, hslice, ?_⟩
    split_ifs at hunits with hlive
    · exact (if_pos hlive).mpr (hunits.withShm shm)
    · exact (if_neg hlive).mpr (hunits.withShm shm)
  cases srcAddrCtrl with
  | decrement => cases destAddrCtrl <;> trivial
  | incrementReload => cases destAddrCtrl <;> trivial
  | fixed =>
      cases destAddrCtrl with
      | decrement => trivial
      | fixed => trivial
      | increment => exact ⟨h.1, h.2.1.withShm shm, h.2.2⟩
      | incrementReload => exact ⟨h.1, h.2.1.withShm shm, h.2.2⟩
  | increment =>
      cases destAddrCtrl with
      | decrement => trivial
      | fixed =>
          obtain ⟨hread, hunits⟩ := h
          refine ⟨hread, ?_⟩
          split_ifs at hunits with hoffset hshared
          · exact (if_pos hoffset).mpr fun hn => (hunits hn).withShm shm
          · exact ((if_neg hoffset).trans (if_pos hshared)).mpr (hunits.withShm shm)
          · exact ((if_neg hoffset).trans (if_neg hshared)).mpr (hunits.withShm shm)
      | increment => exact hmoving h
      | incrementReload => exact hmoving h

end Contents

/-- A transfer between runs that is the copy of its units is good. -/
theorem transferGood_of_agrees {dev : MemDevices D} {s : GuestMem D} {width : MemWidth}
    {destAddrCtrl srcAddrCtrl : DmaAddrCtrl} {destAddr srcAddr : BitVec 32} {n : Nat} (h : MemInv s)
    (hruns : BetweenRuns s width destAddrCtrl srcAddrCtrl destAddr srcAddr n)
    (hagree : TransferAgrees dev s width destAddrCtrl srcAddrCtrl destAddr srcAddr n) :
    TransferGood s width destAddrCtrl srcAddrCtrl destAddr srcAddr n := by
  obtain ⟨rfl, hshared, hread, hdest⟩ := hruns
  have hmemory : ∀ destAddrCtrl : DmaAddrCtrl, destAddrCtrl ≠ .decrement →
      ∀ (slices : GuestMem D → Option (GuestMem D)) addrs,
      (∀ shm, (slices (s.withShm shm)).map (fun t => (t, addrs)) =
        dmaUnits dev width destAddrCtrl .increment n destAddr srcAddr (s.withShm shm)) →
      ∀ shm, slices (s.withShm shm) =
        copyEach (fun j => memRead dev width (unitAddr width .increment srcAddr j).toNat)
          (fun j => memWrite dev width (unitAddr width destAddrCtrl destAddr j).toNat) 0 n
          (s.withShm shm) := by
    intro destAddrCtrl hctrl slices addrs hequal shm
    have hunits := hequal shm
    rw [dmaUnits_zero dev hctrl (.inl rfl)] at hunits
    have hfirst := congrArg (Option.map Prod.fst) hunits
    simpa only [Option.map_map, Function.comp_def, Option.map_id'] using hfirst
  cases destAddrCtrl with
  | decrement => trivial
  | fixed =>
      have hunits := hmemory .fixed (by decide)
        (fun s => (dmaSource dev width srcAddr.toNat n s).bind fun r =>
          r.1.writeFixed dev destAddr.toNat r.2) _
        fun shm => (Option.map_bind ..).trans (hagree shm)
      simp only [memRead_unit dev width (show DmaAddrCtrl.increment ≠ .fixed by decide)] at hunits
      refine ⟨hread, ?_⟩
      rw [if_pos hdest]
      exact fun hn => lastApart_of_agrees h hn hread hshared hdest hunits
  | increment =>
      have hunits := hmemory .increment (by decide)
        (fun s => (dmaSource dev width srcAddr.toNat n s).bind fun r =>
          r.1.writeMultiple dev destAddr.toNat r.2) _
        fun shm => (Option.map_bind ..).trans (hagree shm)
      simp only [memRead_unit dev width (show DmaAddrCtrl.increment ≠ .fixed by decide),
        memWrite_unit dev width (show DmaAddrCtrl.increment ≠ .fixed by decide)] at hunits
      refine ⟨hread, hdest.2, ?_⟩
      rw [if_neg fun hlive => hlive.2 hdest.1]
      exact unitsApart_of_agrees h hread hdest.2 hshared hdest.1 hunits
  | incrementReload =>
      have hunits := hmemory .incrementReload (by decide)
        (fun s => (dmaSource dev width srcAddr.toNat n s).bind fun r =>
          r.1.writeMultiple dev destAddr.toNat r.2) _
        fun shm => (Option.map_bind ..).trans (hagree shm)
      simp only [memRead_unit dev width (show DmaAddrCtrl.increment ≠ .fixed by decide),
        memWrite_unit dev width (show DmaAddrCtrl.incrementReload ≠ .fixed by decide)] at hunits
      refine ⟨hread, hdest.2, ?_⟩
      rw [if_neg fun hlive => hlive.2 hdest.1]
      exact unitsApart_of_agrees h hread hdest.2 hshared hdest.1 hunits

/-- **Transfers.**  In every state of every run, a good transfer is the copy of its units, with the
addresses they end at; one between runs of the shared memory is only if it is good. -/
theorem dma_transfer_law (dev : MemDevices D) (s : GuestMem D) (h : MemReaches dev s)
    (cnt : BitVec 32) (channelNum : Fin 4) (destAddr srcAddr : BitVec 32) :
    (TransferGood s (dmaWidth cnt) (dmaDestAddrCtrl cnt) (dmaSrcAddrCtrl cnt) destAddr srcAddr
        (dmaWordCount cnt channelNum).toNat →
      TransferAgrees dev s (dmaWidth cnt) (dmaDestAddrCtrl cnt) (dmaSrcAddrCtrl cnt) destAddr srcAddr
        (dmaWordCount cnt channelNum).toNat) ∧
    (BetweenRuns s (dmaWidth cnt) (dmaDestAddrCtrl cnt) (dmaSrcAddrCtrl cnt) destAddr srcAddr
        (dmaWordCount cnt channelNum).toNat →
      TransferAgrees dev s (dmaWidth cnt) (dmaDestAddrCtrl cnt) (dmaSrcAddrCtrl cnt) destAddr srcAddr
        (dmaWordCount cnt channelNum).toNat →
      TransferGood s (dmaWidth cnt) (dmaDestAddrCtrl cnt) (dmaSrcAddrCtrl cnt) destAddr srcAddr
        (dmaWordCount cnt channelNum).toNat) := by
  have hinv := memInv_of_reaches h
  exact ⟨fun hgood shm => dmaDoTransfer_eq dev (hinv.withShm shm) (dmaWidth_ne_byte cnt)
    (dmaWordCount_pos cnt channelNum) (hgood.withShm shm), transferGood_of_agrees hinv⟩

/-- Two half words of ewram, moved down by one. -/
theorem downward_agrees :
    TransferAgrees silentDevices (emptyBoot plainCartridge) .half .increment .increment 0x02000000#32
      0x02000002#32 2 := by
  have hloaded : plainCartridge.Loaded := ⟨by decide, by decide, .inl rfl⟩
  refine (dma_transfer_law silentDevices _ (emptyBoot_reaches hloaded) 0x80000002#32 3 0x02000000#32
    0x02000002#32).1 ⟨?_, ?_, ?_⟩
  · unfold ReadGood
    rw [if_pos (by decide)]
    decide
  · show SliceGood (emptyBoot plainCartridge) .half 0x02000000 2
    unfold SliceGood
    rw [if_pos (by decide)]
    rintro ⟨border, hborder, hlow, hhigh⟩
    simp only [IsMirrorBorder, alignedAddr, MemWidth.bytes] at *
    omega
  · rw [if_neg (by decide)]
    intro i j hij hj
    obtain ⟨rfl, rfl⟩ : i = 0 ∧ j = 1 := by
      have hcount : (dmaWordCount 0x80000002#32 3).toNat = 2 := rfl
      omega
    refine apart_of_ram (by decide) fun taken htaken => ?_
    obtain rfl : 0x4004 = taken := Option.some.inj (.trans (by decide) htaken)
    exact .inr (by decide)

/-! ## Overlaps -/

/-- The boot with a byte set at the start of ewram. -/
def ewramBoot : GuestMem Unit :=
  (emptyBoot plainCartridge).withShm fun a => if a = 0x4000 then 1 else 0

/-- Two half words of ewram, moved up by one: the first should end in both places. -/
theorem overlap_differs :
    ¬ ∀ s, MemReaches silentDevices s → ∀ (cnt : BitVec 32) (channelNum : Fin 4)
      (destAddr srcAddr : BitVec 32),
      dmaDoTransfer silentDevices (dmaWidth cnt) (dmaDestAddrCtrl cnt) (dmaSrcAddrCtrl cnt) destAddr
          srcAddr (dmaWordCount cnt channelNum).toNat s =
        dmaUnits silentDevices (dmaWidth cnt) (dmaDestAddrCtrl cnt) (dmaSrcAddrCtrl cnt)
          (dmaWordCount cnt channelNum).toNat destAddr srcAddr s := by
  intro hclaim
  have hloaded : plainCartridge.Loaded := ⟨by decide, by decide, .inl rfl⟩
  have hequal := hclaim ewramBoot ⟨_, .boot hloaded _ _ _, .refl _⟩ 0x80000002#32 3 0x02000002#32
    0x02000000#32
  have hbyte := congrArg (Option.map fun r => r.1.jit.shm 0x4004) hequal
  exact absurd hbyte (by decide)

end AdvancedSlop
