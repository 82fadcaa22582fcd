/-
# DMA transfers against unit by unit copies

`dma_do_transfer` copies unit by unit, but for three pairs of address controls, which go through
slices of host memory.

* `dmaUnits`, `dmaDoTransfer` : the unit by unit copy, and the transfer;
* `TransferGood` : when the slices do what the units would;
* `dmaDoTransfer_eq` : they do then.
-/
import AdvancedSlop.DmaChannels
import AdvancedSlop.BulkWrite
import AdvancedSlop.AccessOrder

namespace AdvancedSlop

open IndexedLoop WordMemory

variable {D : Type*}

/-! ## The transfer -/

/-- `DmaCnt::src_addr_ctrl`. -/
def dmaSrcAddrCtrl (cnt : BitVec 32) : DmaAddrCtrl := .ofBits (cnt.extractLsb' 23 2)

/-- The units of `DmaCnt::transfer_type`. -/
def dmaWidth (cnt : BitVec 32) : MemWidth := if cnt.getLsbD 26 then .word else .half

/-- The source address after a unit. -/
def dmaSrcStep (ctrl : DmaAddrCtrl) (width : MemWidth) (srcAddr : BitVec 32) : BitVec 32 :=
  match ctrl with
  | .increment => srcAddr + BitVec.ofNat 32 width.bytes
  | .decrement => srcAddr - BitVec.ofNat 32 width.bytes
  | _ => srcAddr

/-- The destination address after a unit. -/
def dmaDestStep (ctrl : DmaAddrCtrl) (width : MemWidth) (destAddr : BitVec 32) : BitVec 32 :=
  match ctrl with
  | .increment | .incrementReload => destAddr + BitVec.ofNat 32 width.bytes
  | .decrement => destAddr - BitVec.ofNat 32 width.bytes
  | .fixed => destAddr

section Transfer

variable (dev : MemDevices D)

/-- **The unit by unit copy**, with the addresses it leaves. -/
def dmaUnits (width : MemWidth) (destAddrCtrl srcAddrCtrl : DmaAddrCtrl) :
    Nat → BitVec 32 → BitVec 32 → GuestMem D → Option (GuestMem D × BitVec 32 × BitVec 32)
  | 0, destAddr, srcAddr, s => some (s, destAddr, srcAddr)
  | count + 1, destAddr, srcAddr, s =>
      let src := memRead dev width srcAddr.toNat s
      (memWrite dev width destAddr.toNat src.1 src.2).bind
        (dmaUnits width destAddrCtrl srcAddrCtrl count (dmaDestStep destAddrCtrl width destAddr)
          (dmaSrcStep srcAddrCtrl width srcAddr))

/-- A slice of host memory: the buffer of the transfers, or the shared memory itself. -/
inductive HostSlice (width : MemWidth)
  | buffer (values : List width.Value)
  | shared (shmOffset n : Nat)

/-- The slice an incrementing source is taken as. -/
def dmaSource (width : MemWidth) (srcAddr count : Nat) (s : GuestMem D) :
    Option (HostSlice width × GuestMem D) :=
  let alignedAddr := alignedAddr width srcAddr
  let shmOffset := getShmOffset s.mmuRead alignedAddr
  if shmOffset ≠ 0 then
    if shmOffset + count * width.bytes ≤ totalMemSize then some (.shared shmOffset count, s)
    else none
  else
    (memReadMultipleSlice dev false width alignedAddr count s).map fun r => (.buffer r.1, r.2)

/-- `mem_write_multiple_slice` of a host slice.  The handlers' loop finds in shared memory what its
own writes left there. -/
def HostSlice.writeMultiple {width : MemWidth} (addr : Nat) :
    HostSlice width → GuestMem D → Option (GuestMem D)
  | .buffer values, s => memWriteMultipleSlice dev width addr values s
  | .shared source n, s =>
      let alignedAddr := alignedAddr width addr
      let shmOffset := getShmOffset s.jit.mmuWrite alignedAddr
      if shmOffset ≠ 0 ∧ allWritable s.jit.mmuWrite alignedAddr (n * width.bytes) then
        copyToShm width shmOffset (readWords width.bytes s.jit.shm source n) s
      else
        writeEach (fun i (_ : Unit) (s : GuestMem D) =>
          MemoryIo.write dev width (elementAddr width alignedAddr i)
            (s.load width (source + i * width.bytes)) s) 0 (List.replicate n ()) s

/-- `mem_write_fixed_slice` of a host slice.  The slice has an element. -/
def HostSlice.writeFixed {width : MemWidth} (addr : Nat) :
    HostSlice width → GuestMem D → Option (GuestMem D)
  | .buffer values, s => memWriteFixedSlice dev width addr values s
  | .shared source n, s =>
      let alignedAddr := alignedAddr width addr
      let shmOffset := getShmOffset s.jit.mmuWrite alignedAddr
      if shmOffset ≠ 0 then
        some (s.store width shmOffset (s.load width (source + (n - 1) * width.bytes)))
      else
        writeEach (fun i (_ : Unit) (s : GuestMem D) =>
          MemoryIo.write dev width alignedAddr (s.load width (source + i * width.bytes)) s) 0
          (List.replicate n ()) s

/-- `dma_do_transfer`. -/
def dmaDoTransfer (width : MemWidth) (destAddrCtrl srcAddrCtrl : DmaAddrCtrl)
    (destAddr srcAddr : BitVec 32) (count : Nat) (s : GuestMem D) :
    Option (GuestMem D × BitVec 32 × BitVec 32) :=
  let totalSize := BitVec.ofNat 32 (count * width.bytes)
  match srcAddrCtrl, destAddrCtrl with
  | .increment, .fixed =>
      (dmaSource dev width srcAddr.toNat count s).bind fun r =>
        (r.1.writeFixed dev destAddr.toNat r.2).map fun s => (s, destAddr, srcAddr + totalSize)
  | .increment, .increment | .increment, .incrementReload =>
      (dmaSource dev width srcAddr.toNat count s).bind fun r =>
        (r.1.writeMultiple dev destAddr.toNat r.2).map fun s =>
          (s, destAddr + totalSize, srcAddr + totalSize)
  | .fixed, .increment | .fixed, .incrementReload =>
      let r := memReadFixedSlice dev width srcAddr.toNat count s
      (memWriteMultipleSlice dev width destAddr.toNat r.1 r.2).map fun s =>
        (s, destAddr + totalSize, srcAddr)
  | srcAddrCtrl, destAddrCtrl => dmaUnits dev width destAddrCtrl srcAddrCtrl count destAddr srcAddr s

end Transfer

/-! ## The condition -/

/-- The address of a unit, of a transfer by slices. -/
def unitAddr (width : MemWidth) (ctrl : DmaAddrCtrl) (addr : BitVec 32) (i : Nat) : BitVec 32 :=
  if ctrl = .fixed then addr else addr + BitVec.ofNat 32 (i * width.bytes)

/-- Where its access is made. -/
def unitPlace (width : MemWidth) (ctrl : DmaAddrCtrl) (addr : BitVec 32) (i : Nat) : Nat :=
  alignedAddr width (unitAddr width ctrl addr i).toNat

/-- No unit is read where an earlier one was written. -/
def UnitsApart (s : GuestMem D) (width : MemWidth) (destAddrCtrl srcAddrCtrl : DmaAddrCtrl)
    (destAddr srcAddr : BitVec 32) (n : Nat) : Prop :=
  ∀ i j, i < j → j < n →
    Apart s width (unitPlace width srcAddrCtrl srcAddr j) (unitPlace width destAddrCtrl destAddr i)

/-- No unit loses its place to an earlier one. -/
def UnitsStay (s : GuestMem D) (width : MemWidth) (destAddrCtrl srcAddrCtrl : DmaAddrCtrl)
    (destAddr srcAddr : BitVec 32) (n : Nat) : Prop :=
  ∀ i j, i < j → j < n →
    Stays s width (unitPlace width srcAddrCtrl srcAddr j) (unitPlace width destAddrCtrl destAddr i)

/-- The source is a run of the shared memory. -/
def SharedSource (s : GuestMem D) (width : MemWidth) (srcAddr : BitVec 32) : Prop :=
  getShmOffset s.mmuRead (alignedAddr width srcAddr.toNat) ≠ 0

/-- The destination is one. -/
def SharedDest (s : GuestMem D) (width : MemWidth) (destAddr : BitVec 32) (n : Nat) : Prop :=
  getShmOffset s.jit.mmuWrite (alignedAddr width destAddr.toNat) ≠ 0 ∧
    allWritable s.jit.mmuWrite (alignedAddr width destAddr.toNat) (n * width.bytes)

instance (s : GuestMem D) (width : MemWidth) (srcAddr : BitVec 32) :
    Decidable (SharedSource s width srcAddr) := inferInstanceAs (Decidable (_ ≠ _))

instance (s : GuestMem D) (width : MemWidth) (destAddr : BitVec 32) (n : Nat) :
    Decidable (SharedDest s width destAddr n) := inferInstanceAs (Decidable (_ ∧ _))

/-- When a transfer by slices does what the units would.  The slices are read and written as their
elements are, and no unit is read where an earlier one was written; handlers that read a shared
source as they go need less, and of a run of stores to one place the last one counts. -/
def TransferGood (s : GuestMem D) (width : MemWidth) (destAddrCtrl srcAddrCtrl : DmaAddrCtrl)
    (destAddr srcAddr : BitVec 32) (n : Nat) : Prop :=
  match srcAddrCtrl, destAddrCtrl with
  | .increment, .fixed =>
      ReadGood true s width srcAddr.toNat n ∧
        if getShmOffset s.jit.mmuWrite (alignedAddr width destAddr.toNat) ≠ 0 then
          1 < n → Apart s width (unitPlace width .increment srcAddr (n - 1))
            (unitPlace width .fixed destAddr 0)
        else if SharedSource s width srcAddr then
          UnitsStay s width .fixed .increment destAddr srcAddr n
        else UnitsApart s width .fixed .increment destAddr srcAddr n
  | .increment, .increment | .increment, .incrementReload =>
      ReadGood true s width srcAddr.toNat n ∧ SliceGood s width destAddr.toNat n ∧
        if SharedSource s width srcAddr ∧ ¬ SharedDest s width destAddr n then
          UnitsStay s width .increment .increment destAddr srcAddr n
        else UnitsApart s width .increment .increment destAddr srcAddr n
  | .fixed, .increment | .fixed, .incrementReload =>
      SliceGood s width destAddr.toNat n ∧
        UnitsApart s width .increment .fixed destAddr srcAddr n ∧
        (1 < n → ¬ ReadsDevices s width (alignedAddr width srcAddr.toNat))
  | _, _ => True

/-! ## Units by their index -/

section Units

variable {dev : MemDevices D} {s : GuestMem D} {width : MemWidth}

/-- An access looks at an address of 32 bits. -/
theorem alignedAddr_mod (width : MemWidth) (addr : Nat) :
    alignedAddr width (addr % 0x100000000) = alignedAddr width addr := by
  cases width <;> simp only [alignedAddr, MemWidth.bytes] <;> omega

/-- The places of the units of a slice. -/
theorem unitPlace_add (width : MemWidth) {ctrl : DmaAddrCtrl} (hctrl : ctrl ≠ .fixed)
    (addr : BitVec 32) (i : Nat) :
    unitPlace width ctrl addr i =
      (alignedAddr width addr.toNat + i * width.bytes) % 0x10000000 := by
  rw [unitPlace, unitAddr, if_neg hctrl, BitVec.toNat_add, BitVec.toNat_ofNat, Nat.add_mod_mod]
  exact (alignedAddr_mod width _).trans (alignedAddr_add width _ i)

theorem unitPlace_fixed (width : MemWidth) (addr : BitVec 32) (i : Nat) :
    unitPlace width .fixed addr i = alignedAddr width addr.toNat := rfl

/-- Accesses at one place are one. -/
theorem memRead_congr {addr addr' : Nat} (h : alignedAddr width addr = alignedAddr width addr') :
    memRead dev width addr = memRead dev width addr' := by
  funext s
  unfold memRead
  rw [h]

/-- Single reads of a slice, by its units. -/
theorem memRead_unit (dev : MemDevices D) (width : MemWidth) {ctrl : DmaAddrCtrl}
    (hctrl : ctrl ≠ .fixed) (addr : BitVec 32) (i : Nat) :
    memRead dev width (unitAddr width ctrl addr i).toNat =
      memRead dev width (addr.toNat + i * width.bytes) := by
  apply memRead_congr
  rw [alignedAddr_add]
  exact unitPlace_add width hctrl addr i

theorem memWrite_unit (dev : MemDevices D) (width : MemWidth) {ctrl : DmaAddrCtrl}
    (hctrl : ctrl ≠ .fixed) (addr : BitVec 32) (i : Nat) :
    memWrite dev width (unitAddr width ctrl addr i).toNat =
      memWrite dev width (addr.toNat + i * width.bytes) := by
  funext value s
  apply memWrite_congr
  rw [alignedAddr_add]
  exact unitPlace_add width hctrl addr i

/-- The next unit. -/
theorem unitAddr_succ {ctrl : DmaAddrCtrl} (addr : BitVec 32) (i : Nat) :
    unitAddr width ctrl addr (i + 1) =
      if ctrl = .fixed then unitAddr width ctrl addr i
      else unitAddr width ctrl addr i + BitVec.ofNat 32 width.bytes := by
  unfold unitAddr
  split_ifs
  · rfl
  · rw [BitVec.add_assoc, ← BitVec.ofNat_add, Nat.succ_mul]

/-- **The units** as a loop over their indices. -/
theorem dmaUnits_eq (dev : MemDevices D) (width : MemWidth) {destAddrCtrl srcAddrCtrl : DmaAddrCtrl}
    (hdest : destAddrCtrl ≠ .decrement) (hsrc : srcAddrCtrl = .increment ∨ srcAddrCtrl = .fixed)
    (destAddr srcAddr : BitVec 32) (i count : Nat) (s : GuestMem D) :
    dmaUnits dev width destAddrCtrl srcAddrCtrl count (unitAddr width destAddrCtrl destAddr i)
        (unitAddr width srcAddrCtrl srcAddr i) s =
      (copyEach (fun j => memRead dev width (unitAddr width srcAddrCtrl srcAddr j).toNat)
        (fun j => memWrite dev width (unitAddr width destAddrCtrl destAddr j).toNat) i count s).map
          fun t => (t, unitAddr width destAddrCtrl destAddr (i + count),
            unitAddr width srcAddrCtrl srcAddr (i + count)) := by
  have hdestStep : ∀ j, dmaDestStep destAddrCtrl width (unitAddr width destAddrCtrl destAddr j) =
      unitAddr width destAddrCtrl destAddr (j + 1) := by
    intro j
    rw [unitAddr_succ]
    cases destAddrCtrl with
    | decrement => exact absurd rfl hdest
    | _ => rfl
  have hsrcStep : ∀ j, dmaSrcStep srcAddrCtrl width (unitAddr width srcAddrCtrl srcAddr j) =
      unitAddr width srcAddrCtrl srcAddr (j + 1) := by
    intro j
    rw [unitAddr_succ]
    rcases hsrc with rfl | rfl <;> rfl
  induction count generalizing i s with
  | zero => rfl
  | succ count ih =>
      rw [dmaUnits, copyEach, Option.map_bind]
      apply Option.bind_congr
      intro t _
      rw [hdestStep, hsrcStep, ih (i + 1) t, Nat.add_right_comm, Nat.add_assoc]
      rfl

theorem dmaUnits_zero (dev : MemDevices D) {destAddrCtrl srcAddrCtrl : DmaAddrCtrl}
    (hdest : destAddrCtrl ≠ .decrement) (hsrc : srcAddrCtrl = .increment ∨ srcAddrCtrl = .fixed)
    (destAddr srcAddr : BitVec 32) (count : Nat) (s : GuestMem D) :
    dmaUnits dev width destAddrCtrl srcAddrCtrl count destAddr srcAddr s =
      (copyEach (fun j => memRead dev width (unitAddr width srcAddrCtrl srcAddr j).toNat)
        (fun j => memWrite dev width (unitAddr width destAddrCtrl destAddr j).toNat) 0 count s).map
          fun t => (t, unitAddr width destAddrCtrl destAddr count,
            unitAddr width srcAddrCtrl srcAddr count) := by
  have hzero : ∀ (ctrl : DmaAddrCtrl) (addr : BitVec 32), unitAddr width ctrl addr 0 = addr := by
    intro ctrl addr
    unfold unitAddr
    split_ifs
    · rfl
    · rw [Nat.zero_mul, BitVec.add_zero]
  have hunits := dmaUnits_eq dev width hdest hsrc destAddr srcAddr 0 count s
  rwa [hzero, hzero, Nat.zero_add] at hunits

end Units

/-! ## Units in another order -/

section Loops

variable {dev : MemDevices D} {s : GuestMem D} {width : MemWidth} {destAt : Nat → Nat} {n : Nat}

/-- What holds before a unit: the invariants, and the reads see the start, or the port was
written. -/
def UnitInv (s : GuestMem D) (width : MemWidth) (destAt : Nat → Nat) (i : Nat) (u : GuestMem D) :
    Prop :=
  MemInv u ∧ ReadFrame s u (∃ k < i, IsPortAddr (alignedAddr width (destAt k)))

theorem UnitInv.start (h : MemInv s) : UnitInv s width destAt 0 s := ⟨h, .refl s⟩

theorem UnitInv.read {i : Nat} {u : GuestMem D} (h : UnitInv s width destAt i u) (addr : Nat) :
    UnitInv s width destAt i (memRead dev width addr u).2 := by
  obtain ⟨devices, hstate⟩ := memRead_state dev width addr u
  refine ⟨h.1.memRead dev width addr, ?_⟩
  rw [hstate]
  exact h.2.withDevices devices

theorem UnitInv.write (hwidth : width ≠ .byte) {i : Nat} {u t : GuestMem D} {value : width.Value}
    (h : UnitInv s width destAt i u) (hstep : memWrite dev width (destAt i) value u = some t) :
    UnitInv s width destAt (i + 1) t := by
  refine ⟨h.1.memWrite hstep, (h.2.write (memWrite_frame h.1.tables hwidth hstep)).imp ?_⟩
  rintro (⟨k, hk, hport⟩ | hport)
  · exact ⟨k, by omega, hport⟩
  · exact ⟨i, by omega, hport⟩

/-- The place of a unit after the writes before it. -/
theorem stays_of_units {i j source : Nat} (hij : i ≤ j)
    (hstay : ∀ k, k < j → Stays s width source (alignedAddr width (destAt k))) :
    (∃ k < i, IsPortAddr (alignedAddr width (destAt k))) →
      ¬ IsPortAddr source ∧
        readSite (cartridgeAutoEnableRtc s) width source = readSite s width source := by
  rintro ⟨k, hk, hport⟩
  exact hstay k (by omega) hport

/-- **Units apart** may be read all at once. -/
theorem units_batch (h : MemInv s) (hwidth : width ≠ .byte) (srcAt destAt : Nat → Nat)
    (hapart : ∀ i j, i < j → j < n →
      Apart s width (alignedAddr width (srcAt j)) (alignedAddr width (destAt i))) :
    copyEach (fun j => memRead dev width (srcAt j)) (fun j => memWrite dev width (destAt j)) 0 n s =
      writeEach (fun j => memWrite dev width (destAt j)) 0
        (readEach (fun j => memRead dev width (srcAt j)) 0 n s).1
        (readEach (fun j => memRead dev width (srcAt j)) 0 n s).2 := by
  refine copyEach_eq_batch (I := UnitInv s width destAt) (fun i j u hu => hu.read _)
    (fun i value u t hu hstep => hu.write hwidth hstep) ?_ (.start h)
  rintro j k - hjk hk u ⟨hu, hframe⟩
  rw [Nat.zero_add] at hk
  exact memWrite_movesOver hu.tables hwidth hframe
    (stays_of_units (Nat.le_of_lt hjk) fun m hm => (hapart m k hm hk).1) (hapart j k hjk hk)

/-- A good slice is its elements. -/
theorem slice_eq_memWrites (h : MemInv s) {addr : Nat} {slice : List width.Value}
    (hgood : SliceGood s width addr slice.length) :
    memWriteMultipleSlice dev width addr slice s = memWrites dev width addr slice s := by
  have hagree := sliceAgrees_of_good dev h hgood s.jit.shm slice rfl
  rwa [withShm_self] at hagree

/-- A read that asks no device changes nothing. -/
theorem memRead_pure (dev : MemDevices D) {addr : Nat}
    (h : ¬ ReadsDevices s width (alignedAddr width addr)) :
    memRead dev width addr s = ((memRead dev width addr s).1, s) := by
  cases hsite : readSite s width (alignedAddr width addr) with
  | none => rw [memRead_plain hsite h]
  | some site => rw [memRead_of_site dev hsite]

/-- One read for all units of a fixed source. -/
theorem readEach_fixed {addr : Nat} (hn : 0 < n)
    (h : 1 < n → ¬ ReadsDevices s width (alignedAddr width addr)) :
    readEach (fun _ => memRead dev width addr) 0 n s = memReadFixedSlice dev width addr n s := by
  by_cases hone : 1 < n
  · have hpure := memRead_pure dev (h hone)
    have hreads : ∀ j, 0 ≤ j → j < 0 + n → memRead dev width addr s =
        ((fun _ => (memRead dev width addr s).1) j, s) := fun _ _ _ => hpure
    rw [readEach_of_pure hreads, memReadFixedSlice, hpure]
    simp only [List.map_const', List.length_range]
  · obtain rfl : n = 1 := by omega
    rfl

/-- **A fixed source.** -/
theorem fixed_source (h : MemInv s) (hwidth : width ≠ .byte) {dest src : Nat} (hn : 0 < n)
    (hslice : SliceGood s width dest n)
    (hapart : ∀ i j, i < j → j < n →
      Apart s width (alignedAddr width src) (alignedAddr width (dest + i * width.bytes)))
    (hdevices : 1 < n → ¬ ReadsDevices s width (alignedAddr width src)) :
    memWriteMultipleSlice dev width dest (memReadFixedSlice dev width src n s).1
        (memReadFixedSlice dev width src n s).2 =
      copyEach (fun _ => memRead dev width src)
        (fun j => memWrite dev width (dest + j * width.bytes)) 0 n s := by
  rw [units_batch h hwidth (fun _ => src) (fun j => dest + j * width.bytes) hapart,
    readEach_fixed hn hdevices]
  obtain ⟨devices, hstate⟩ := memRead_state dev width src s
  have hlength : (memReadFixedSlice dev width src n s).1.length = n := List.length_replicate ..
  apply slice_eq_memWrites
  · show MemInv (memRead dev width src s).2
    exact h.memRead dev width src
  · rw [hlength]
    show SliceGood (memRead dev width src s).2 width dest n
    rw [hstate]
    exact hslice

/-- The place of a unit of a good shared source. -/
theorem shared_site {src : Nat} (hgood : ReadGood true s width src n)
    (hshared : getShmOffset s.mmuRead (alignedAddr width src) ≠ 0) {j : Nat} (hj : j < n) :
    readSite s width (alignedAddr width (src + j * width.bytes)) =
      some (getShmOffset s.mmuRead (alignedAddr width src) + j * width.bytes) := by
  unfold ReadGood at hgood
  simp only at hgood
  rw [if_pos ⟨trivial, hshared⟩] at hgood
  rw [alignedAddr_add]
  exact hgood.2 j hj

/-- The slice of a good shared source. -/
theorem dmaSource_shared {src : Nat} (hgood : ReadGood true s width src n)
    (hshared : getShmOffset s.mmuRead (alignedAddr width src) ≠ 0) :
    dmaSource dev width src n s =
      some (.shared (getShmOffset s.mmuRead (alignedAddr width src)) n, s) := by
  unfold ReadGood at hgood
  simp only at hgood
  rw [if_pos ⟨trivial, hshared⟩] at hgood
  exact (if_pos hshared).trans (if_pos hgood.1)

/-- A good shared source holds what the single reads give. -/
theorem memReads_shared (dev : MemDevices D) {src : Nat} (hgood : ReadGood true s width src n)
    (hshared : getShmOffset s.mmuRead (alignedAddr width src) ≠ 0) :
    memReads dev width src n s =
      (readWords width.bytes s.jit.shm (getShmOffset s.mmuRead (alignedAddr width src)) n, s) := by
  have hagree := readAgrees_of_good dev hgood s.jit.shm
  unfold ReadGood at hgood
  simp only at hgood
  rw [if_pos ⟨trivial, hshared⟩] at hgood
  rw [withShm_self, readSlice_fast ⟨rfl, hshared⟩ hgood.1] at hagree
  exact (Option.some.inj hagree).symm

/-- The buffer of a good source that is not shared. -/
theorem dmaSource_buffer {src : Nat} (hgood : ReadGood true s width src n)
    (hbuffer : ¬ getShmOffset s.mmuRead (alignedAddr width src) ≠ 0) :
    dmaSource dev width src n s =
      some (.buffer (memReads dev width src n s).1, (memReads dev width src n s).2) := by
  have hself : alignedAddr width (alignedAddr width src) = alignedAddr width src :=
    alignedAddr_self (dvd_alignedAddr width src) (alignedAddr_lt width src)
  have hagree := readAgrees_of_good dev hgood s.jit.shm
  rw [withShm_self, readSlice_slow fun hfast => hbuffer hfast.2] at hagree
  have hslow : memReadMultipleSlice dev false width (alignedAddr width src) n s =
      some (memReads dev width src n s) := by
    rw [readSlice_slow fun hfast => Bool.false_ne_true hfast.1, hself]
    exact hagree
  exact (if_neg hbuffer).trans (by rw [hslow]; rfl)

/-- Single reads change the devices only. -/
theorem memReads_state (dev : MemDevices D) (width : MemWidth) (src n : Nat) (s : GuestMem D) :
    ∃ devices, (memReads dev width src n s).2 = { s with devices := devices } := by
  obtain ⟨devices, hstate⟩ := readEach_state (fun i => memRead dev width (src + i * width.bytes))
    (fun i u => memRead_state dev width _ u) (fun i u shm => memRead_withShm_state dev width _ u shm)
    s n
  have hplain := hstate s.jit.shm
  rw [withShm_self] at hplain
  exact ⟨devices, hplain⟩

/-- **A moving source and destination**, read before it is written. -/
theorem slices_batch (h : MemInv s) (hwidth : width ≠ .byte) {dest src : Nat}
    (hread : ReadGood true s width src n) (hslice : SliceGood s width dest n)
    (hfast : getShmOffset s.mmuRead (alignedAddr width src) ≠ 0 →
      getShmOffset s.jit.mmuWrite (alignedAddr width dest) ≠ 0 ∧
        allWritable s.jit.mmuWrite (alignedAddr width dest) (n * width.bytes))
    (hapart : ∀ i j, i < j → j < n →
      Apart s width (alignedAddr width (src + j * width.bytes))
        (alignedAddr width (dest + i * width.bytes))) :
    ((dmaSource dev width src n s).bind fun r => r.1.writeMultiple dev dest r.2) =
      copyEach (fun j => memRead dev width (src + j * width.bytes))
        (fun j => memWrite dev width (dest + j * width.bytes)) 0 n s := by
  rw [units_batch h hwidth (fun j => src + j * width.bytes) (fun j => dest + j * width.bytes) hapart]
  show _ = memWrites dev width dest (memReads dev width src n s).1 (memReads dev width src n s).2
  have hlength : (memReads dev width src n s).1.length = n := length_readEach ..
  obtain ⟨devices, hstate⟩ := memReads_state dev width src n s
  by_cases hshared : getShmOffset s.mmuRead (alignedAddr width src) ≠ 0
  · have hreads := memReads_shared dev hread hshared
    rw [hreads] at hlength
    rw [dmaSource_shared hread hshared, hreads, Option.bind_some,
      ← slice_eq_memWrites h (by rw [hlength]; exact hslice),
      slice_fast (by rw [hlength]; exact hfast hshared)]
    exact if_pos (hfast hshared)
  · rw [dmaSource_buffer hread hshared, Option.bind_some]
    refine slice_eq_memWrites ?_ ?_
    · rw [hstate]
      exact h.withDevices devices
    · rw [hlength, hstate]
      exact hslice

/-- The handlers' loop keeps what holds before a unit. -/
theorem UnitInv.handler (hwidth : width ≠ .byte) {i addr : Nat} {u t : GuestMem D}
    {value : width.Value} (h : UnitInv s width destAt i u) (hdvd : width.bytes ∣ addr)
    (hport : IsPortAddr addr → IsPortAddr (alignedAddr width (destAt i)))
    (hstep : MemoryIo.write dev width addr value u = some t) :
    UnitInv s width destAt (i + 1) t := by
  refine ⟨h.1.write hdvd hstep, (h.2.write (write_frame hwidth hstep)).imp ?_⟩
  rintro (⟨k, hk, hopen⟩ | hopen)
  · exact ⟨k, by omega, hopen⟩
  · exact ⟨i, by omega, hport hopen⟩

/-- **A shared source** that the handlers read as they go. -/
theorem slices_live (h : MemInv s) (hwidth : width ≠ .byte) {dest src : Nat}
    (hread : ReadGood true s width src n) (hslice : SliceGood s width dest n)
    (hshared : getShmOffset s.mmuRead (alignedAddr width src) ≠ 0)
    (hslow : ¬ (getShmOffset s.jit.mmuWrite (alignedAddr width dest) ≠ 0 ∧
      allWritable s.jit.mmuWrite (alignedAddr width dest) (n * width.bytes)))
    (hstay : ∀ i j, i < j → j < n →
      Stays s width (alignedAddr width (src + j * width.bytes))
        (alignedAddr width (dest + i * width.bytes))) :
    ((dmaSource dev width src n s).bind fun r => r.1.writeMultiple dev dest r.2) =
      copyEach (fun j => memRead dev width (src + j * width.bytes))
        (fun j => memWrite dev width (dest + j * width.bytes)) 0 n s := by
  unfold SliceGood at hslice
  simp only at hslice
  rw [if_neg hslow] at hslice
  obtain ⟨hend, hquiet⟩ := hslice
  rw [dmaSource_shared hread hshared, Option.bind_some]
  refine (if_neg hslow).trans (copyEach_eq_writeEach
    (I := fun j u => UnitInv s width (fun j => dest + j * width.bytes) j u ∧
      ∀ i < n, QuietAt u (alignedAddr width dest + i * width.bytes)) ?_ ?_
    ⟨.start h, hquiet⟩).symm
  · rintro j u t ⟨hu, hq⟩ hstep
    have hdvd := dvd_elementAddr (dvd_alignedAddr width dest) j
    refine ⟨hu.handler hwidth hdvd ?_ hstep, fun i hi => (hq i hi).write hu.1 hstep⟩
    intro hport
    rw [alignedAddr_add]
    unfold IsPortAddr elementAddr at *
    omega
  · rintro j - hj u ⟨hu, hq⟩
    rw [Nat.zero_add] at hj
    have hin : j * width.bytes < n * width.bytes := Nat.mul_lt_mul_of_pos_right hj width.bytes_pos
    have hsite := (hu.2.readSite_eq (stays_of_units le_rfl fun k hk => hstay k j hk hj)).trans
      (shared_site hread hshared hj)
    rw [memRead_of_site dev hsite]
    exact (handler_eq_memWrite hu.1 (by omega) (hq j hj) _).symm

/-! ## Fixed destinations -/

/-- The handler of a fixed destination writes as single writes do: where one of its writes maps the
page, the live bits are gone. -/
theorem fixed_handler (h : MemInv s) {dest : Nat} (hquiet : QuietAt s (alignedAddr width dest))
    (value : width.Value) :
    memWrite dev width dest value s =
      MemoryIo.write dev width (alignedAddr width dest) value s := by
  by_cases hzero : s.jit.mmuWrite (alignedAddr width dest / 4096) = 0
  · exact memWrite_of_unmapped dev hzero value
  · obtain ⟨hram, hoffset⟩ := getShmOffset_write h.tables hzero
    rw [memWrite_of_mapped dev hzero, hoffset,
      write_ram dev (dvd_alignedAddr width dest) hram (hquiet hzero)]

/-- No live bit is at a page that is not writable. -/
theorem QuietAt.of_unmapped {addr : Nat} (h : ¬ getShmOffset s.jit.mmuWrite addr ≠ 0) :
    QuietAt s addr :=
  fun hmapped => absurd (getShmOffset_eq_zero.mp (not_not.mp h)) hmapped

/-- **A fixed destination with a handler**, from a shared source. -/
theorem fixed_live (h : MemInv s) (hwidth : width ≠ .byte) {dest src : Nat}
    (hread : ReadGood true s width src n)
    (hshared : getShmOffset s.mmuRead (alignedAddr width src) ≠ 0)
    (hslow : ¬ getShmOffset s.jit.mmuWrite (alignedAddr width dest) ≠ 0)
    (hstay : ∀ i j, i < j → j < n →
      Stays s width (alignedAddr width (src + j * width.bytes)) (alignedAddr width dest)) :
    ((dmaSource dev width src n s).bind fun r => r.1.writeFixed dev dest r.2) =
      copyEach (fun j => memRead dev width (src + j * width.bytes))
        (fun _ => memWrite dev width dest) 0 n s := by
  rw [dmaSource_shared hread hshared, Option.bind_some]
  refine (if_neg hslow).trans (copyEach_eq_writeEach
    (I := fun j u => UnitInv s width (fun _ => dest) j u ∧ QuietAt u (alignedAddr width dest))
    ?_ ?_ ⟨.start h, .of_unmapped hslow⟩).symm
  · rintro j u t ⟨hu, hq⟩ hstep
    exact ⟨hu.handler hwidth (dvd_alignedAddr width dest) id hstep, hq.write hu.1 hstep⟩
  · rintro j - hj u ⟨hu, hq⟩
    rw [Nat.zero_add] at hj
    have hsite := (hu.2.readSite_eq (stays_of_units le_rfl fun k hk => hstay k j hk hj)).trans
      (shared_site hread hshared hj)
    rw [memRead_of_site dev hsite]
    exact fixed_handler hu.1 hq _

/-- **A fixed destination with a handler**, from the buffer. -/
theorem fixed_batch (h : MemInv s) (hwidth : width ≠ .byte) {dest src : Nat}
    (hread : ReadGood true s width src n)
    (hbuffer : ¬ getShmOffset s.mmuRead (alignedAddr width src) ≠ 0)
    (hslow : ¬ getShmOffset s.jit.mmuWrite (alignedAddr width dest) ≠ 0)
    (hapart : ∀ i j, i < j → j < n →
      Apart s width (alignedAddr width (src + j * width.bytes)) (alignedAddr width dest)) :
    ((dmaSource dev width src n s).bind fun r => r.1.writeFixed dev dest r.2) =
      copyEach (fun j => memRead dev width (src + j * width.bytes))
        (fun _ => memWrite dev width dest) 0 n s := by
  rw [dmaSource_buffer hread hbuffer, Option.bind_some,
    units_batch h hwidth (fun j => src + j * width.bytes) (fun _ => dest) hapart]
  obtain ⟨devices, hstate⟩ := memReads_state dev width src n s
  show memWriteFixedSlice dev width dest (memReads dev width src n s).1
    (memReads dev width src n s).2 = writeEach (fun _ => memWrite dev width dest) 0
      (memReads dev width src n s).1 (memReads dev width src n s).2
  rw [hstate]
  refine (if_neg hslow).trans (writeEach_congr
    (I := fun u => MemInv u ∧ QuietAt u (alignedAddr width dest)) ?_ ?_
    ⟨h.withDevices devices, .of_unmapped hslow⟩)
  · rintro j value u t ⟨hu, hq⟩ hstep
    exact ⟨hu.write (dvd_alignedAddr width dest) hstep, hq.write hu hstep⟩
  · rintro j - - value u ⟨hu, hq⟩
    exact (fixed_handler hu hq value).symm

/-- Stores to one place: the last one counts. -/
theorem store_store {offset : Nat} (value value' : width.Value) :
    (s.store width offset value).store width offset value' = s.store width offset value' := by
  rw [store_eq, store_eq, store_eq, withShm_withShm, withShm_shm]
  congr 1
  funext a
  by_cases ha : offset ≤ a ∧ a < offset + width.bytes
  · rw [writeWord_of_mem _ ha, writeWord_of_mem _ ha]
  · rw [writeWord_of_not _ ha, writeWord_of_not _ ha, writeWord_of_not _ ha]

/-- A read after a store leaves the store. -/
theorem memRead_store_state (dev : MemDevices D) (width : MemWidth) (addr : Nat) (s : GuestMem D)
    (offset : Nat) (value : width.Value) :
    (memRead dev width addr (s.store width offset value)).2 =
      (memRead dev width addr s).2.store width offset value := by
  obtain ⟨devices, hstate⟩ := memRead_state dev width addr s
  rw [store_eq, memRead_withShm_state, store_eq, hstate]

/-- The units of a destination in work memory. -/
theorem memWrite_fixed_ram (h : MemInv s) {dest : Nat}
    (hmapped : s.jit.mmuWrite (alignedAddr width dest / 4096) ≠ 0) (src n : Nat)
    (value : width.Value) :
    memWrite dev width dest value (memReads dev width src n s).2 =
        some ((memReads dev width src n s).2.store width (ramOffset (alignedAddr width dest)) value) ∧
      ∀ value', memWrite dev width dest value
          ((memReads dev width src n s).2.store width (ramOffset (alignedAddr width dest)) value') =
        some ((memReads dev width src n s).2.store width (ramOffset (alignedAddr width dest))
          value) := by
  obtain ⟨devices, hstate⟩ := memReads_state dev width src n s
  obtain ⟨hram, -⟩ := getShmOffset_write h.tables hmapped
  rw [hstate]
  have htables := (h.withDevices devices).tables
  refine ⟨memWrite_ram dev htables hram (fun hzero => absurd hzero hmapped) value, fun value' => ?_⟩
  rw [memWrite_ram dev (s := GuestMem.store { s with devices := devices } width _ value')
    (htables.withShm _) hram (fun hzero => absurd hzero hmapped) value, store_store]

/-- They are stored over each other. -/
theorem fixed_ram_prefix (dev : MemDevices D) (h : MemInv s) {dest : Nat}
    (hmapped : s.jit.mmuWrite (alignedAddr width dest / 4096) ≠ 0) (src n : Nat) :
    ∃ value, copyEach (fun j => memRead dev width (src + j * width.bytes))
        (fun _ => memWrite dev width dest) 0 (n + 1) s =
      some ((memReads dev width src (n + 1) s).2.store width
        (ramOffset (alignedAddr width dest)) value) := by
  induction n with
  | zero =>
      refine ⟨(memRead dev width (src + (0 + 0) * width.bytes) s).1, ?_⟩
      rw [copyEach_succ]
      exact (memWrite_fixed_ram h hmapped src 1 _).1
  | succ n ih =>
      obtain ⟨value, hprefix⟩ := ih
      refine ⟨(memRead dev width (src + (0 + (n + 1)) * width.bytes)
        ((memReads dev width src (n + 1) s).2.store width (ramOffset (alignedAddr width dest))
          value)).1, ?_⟩
      rw [copyEach_succ, hprefix, Option.bind_some, memRead_store_state]
      have hround : (memRead dev width (src + (0 + (n + 1)) * width.bytes)
          (memReads dev width src (n + 1) s).2).2 = (memReads dev width src (n + 1 + 1) s).2 :=
        (readEach_succ_state 0 (n + 1) s).symm
      rw [hround]
      exact (memWrite_fixed_ram h hmapped src (n + 1 + 1) _).2 value

/-- **A fixed destination in work memory** keeps the last unit. -/
theorem fixed_ram (h : MemInv s) {dest : Nat}
    (hmapped : s.jit.mmuWrite (alignedAddr width dest / 4096) ≠ 0) (src n : Nat)
    (hlast : 0 < n → MovesOver (memWrite dev width dest)
      (memRead dev width (src + n * width.bytes)) (memReads dev width src n s).2) :
    copyEach (fun j => memRead dev width (src + j * width.bytes))
        (fun _ => memWrite dev width dest) 0 (n + 1) s =
      some ((memReads dev width src (n + 1) s).2.store width (ramOffset (alignedAddr width dest))
        (memRead dev width (src + n * width.bytes) (memReads dev width src n s).2).1) := by
  have hround : (memRead dev width (src + (0 + n) * width.bytes)
      (memReads dev width src n s).2).2 = (memReads dev width src (n + 1) s).2 :=
    (readEach_succ_state 0 n s).symm
  cases n with
  | zero =>
      rw [copyEach_succ]
      exact (memWrite_fixed_ram h hmapped src 1 _).1
  | succ n =>
      obtain ⟨value, hprefix⟩ := fixed_ram_prefix dev h hmapped src n
      have hmoves := hlast (Nat.succ_pos n) value
      rw [(memWrite_fixed_ram h hmapped src (n + 1) value).1] at hmoves
      have hvalue : (memRead dev width (src + (n + 1) * width.bytes)
          ((memReads dev width src (n + 1) s).2.store width (ramOffset (alignedAddr width dest))
            value)).1 =
          (memRead dev width (src + (n + 1) * width.bytes) (memReads dev width src (n + 1) s).2).1 := by
        obtain ⟨t, -, ht⟩ := Option.map_eq_some_iff.mp hmoves.symm
        exact (congrArg Prod.fst ht).symm
      rw [copyEach_succ, hprefix, Option.bind_some, memRead_store_state, hround, Nat.zero_add, hvalue]
      exact (memWrite_fixed_ram h hmapped src (n + 1 + 1) _).2 value

/-- **A fixed destination in work memory**, from either source. -/
theorem fixed_mapped (h : MemInv s) (hwidth : width ≠ .byte) {dest src : Nat} (hn : 0 < n)
    (hread : ReadGood true s width src n)
    (hoffset : getShmOffset s.jit.mmuWrite (alignedAddr width dest) ≠ 0)
    (hapart : 1 < n → Apart s width (alignedAddr width (src + (n - 1) * width.bytes))
      (alignedAddr width dest)) :
    ((dmaSource dev width src n s).bind fun r => r.1.writeFixed dev dest r.2) =
      copyEach (fun j => memRead dev width (src + j * width.bytes))
        (fun _ => memWrite dev width dest) 0 n s := by
  obtain ⟨m, rfl⟩ := Nat.exists_eq_add_one.mpr hn
  rw [Nat.add_sub_cancel] at hapart
  obtain ⟨hmapped, -, hplace⟩ := ram_of_offset h hoffset
  obtain ⟨devices, hstate⟩ := memReads_state dev width src m s
  have hlast : 0 < m → MovesOver (memWrite dev width dest)
      (memRead dev width (src + m * width.bytes)) (memReads dev width src m s).2 := by
    intro hm
    rw [hstate]
    have hframe : ReadFrame s { s with devices := devices } False := .refl s
    exact memWrite_movesOver (h.withDevices devices).tables hwidth hframe False.elim
      (hapart (by omega))
  rw [fixed_ram h hmapped src m hlast]
  by_cases hshared : getShmOffset s.mmuRead (alignedAddr width src) ≠ 0
  · -- the reads leave the state alone
    have hsite := fun j hj => shared_site (j := j) hread hshared hj
    have hpure : ∀ k ≤ m + 1, (memReads dev width src k s).2 = s := by
      intro k hk
      have hreads : ∀ j, 0 ≤ j → j < 0 + k →
          memRead dev width (src + j * width.bytes) s =
            ((fun j => s.load width
              (getShmOffset s.mmuRead (alignedAddr width src) + j * width.bytes)) j, s) :=
        fun j _ hj => memRead_of_site dev (hsite j (by omega))
      rw [memReads, readEach_of_pure hreads]
    rw [dmaSource_shared hread hshared, Option.bind_some, hpure (m + 1) le_rfl, hpure m (by omega),
      memRead_of_site dev (hsite m (by omega)), ← hplace]
    exact if_pos hoffset
  · have hvalue : (memReads dev width src (m + 1) s).1.getLast? =
        some (memRead dev width (src + m * width.bytes) (memReads dev width src m s).2).1 := by
      have hlength : (memReads dev width src (m + 1) s).1.length = m + 1 := length_readEach ..
      rw [List.getLast?_eq_getElem?, hlength, Nat.add_sub_cancel]
      have helement : (memReads dev width src (m + 1) s).1[m]? =
          some (memRead dev width (src + (0 + m) * width.bytes) (memReads dev width src m s).2).1 :=
        readEach_getElem? 0 (m + 1) s (Nat.lt_succ_self m)
      rwa [Nat.zero_add] at helement
    obtain ⟨devices', hstate'⟩ := memReads_state dev width src (m + 1) s
    rw [dmaSource_buffer hread hshared, Option.bind_some]
    show memWriteFixedSlice dev width dest (memReads dev width src (m + 1) s).1
      (memReads dev width src (m + 1) s).2 = _
    rw [hstate']
    exact (if_pos hoffset).trans (by rw [hvalue, Option.map_some, ← hplace])

end Loops

/-! ## Good transfers -/

section Good

variable {dev : MemDevices D} {s : GuestMem D} {width : MemWidth}

/-- **A good transfer** is the copy unit by unit. -/
theorem dmaDoTransfer_eq (dev : MemDevices D) (h : MemInv s) (hwidth : width ≠ .byte)
    {destAddrCtrl srcAddrCtrl : DmaAddrCtrl} {destAddr srcAddr : BitVec 32} {n : Nat} (hn : 0 < n)
    (hgood : TransferGood s width destAddrCtrl srcAddrCtrl destAddr srcAddr n) :
    dmaDoTransfer dev width destAddrCtrl srcAddrCtrl destAddr srcAddr n s =
      dmaUnits dev width destAddrCtrl srcAddrCtrl n destAddr srcAddr s := by
  have hplace : ∀ (addr : BitVec 32) i, unitPlace width .increment addr i =
      alignedAddr width (addr.toNat + i * width.bytes) := fun addr i =>
    (unitPlace_add width (by decide) addr i).trans (alignedAddr_add width _ i).symm
  have hmoving : ReadGood true s width srcAddr.toNat n ∧ SliceGood s width destAddr.toNat n ∧
      (if SharedSource s width srcAddr ∧ ¬ SharedDest s width destAddr n then
        UnitsStay s width .increment .increment destAddr srcAddr n
      else UnitsApart s width .increment .increment destAddr srcAddr n) →
      ((dmaSource dev width srcAddr.toNat n s).bind fun r =>
          r.1.writeMultiple dev destAddr.toNat r.2) =
        copyEach (fun j => memRead dev width (srcAddr.toNat + j * width.bytes))
          (fun j => memWrite dev width (destAddr.toNat + j * width.bytes)) 0 n s := by
    rintro ⟨hread, hslice, hunits⟩
    split_ifs at hunits with hlive
    · refine slices_live h hwidth hread hslice hlive.1 hlive.2 fun i j hij hj => ?_
      rw [← hplace, ← hplace]
      exact hunits i j hij hj
    · refine slices_batch h hwidth hread hslice (fun hshared => ?_) fun i j hij hj => ?_
      · by_contra hslow
        exact hlive ⟨hshared, hslow⟩
      · rw [← hplace, ← hplace]
        exact hunits i j hij hj
  have hfixed : SliceGood s width destAddr.toNat n ∧
      UnitsApart s width .increment .fixed destAddr srcAddr n ∧
      (1 < n → ¬ ReadsDevices s width (alignedAddr width srcAddr.toNat)) →
      memWriteMultipleSlice dev width destAddr.toNat
          (memReadFixedSlice dev width srcAddr.toNat n s).1
          (memReadFixedSlice dev width srcAddr.toNat n s).2 =
        copyEach (fun _ => memRead dev width srcAddr.toNat)
          (fun j => memWrite dev width (destAddr.toNat + j * width.bytes)) 0 n s := by
    rintro ⟨hslice, hunits, hdevices⟩
    refine fixed_source h hwidth hn hslice (fun i j hij hj => ?_) hdevices
    rw [← hplace]
    exact hunits i j hij hj
  cases srcAddrCtrl with
  | decrement => cases destAddrCtrl <;> rfl
  | incrementReload => cases destAddrCtrl <;> rfl
  | fixed =>
      cases destAddrCtrl with
      | decrement => rfl
      | fixed => rfl
      | increment =>
          rw [dmaUnits_zero dev (by decide) (.inr rfl)]
          simp only [memWrite_unit dev width (show DmaAddrCtrl.increment ≠ .fixed by decide)]
          exact congrArg (Option.map fun t =>
            (t, destAddr + BitVec.ofNat 32 (n * width.bytes), srcAddr)) (hfixed hgood)
      | incrementReload =>
          rw [dmaUnits_zero dev (by decide) (.inr rfl)]
          simp only [memWrite_unit dev width (show DmaAddrCtrl.incrementReload ≠ .fixed by decide)]
          exact congrArg (Option.map fun t =>
            (t, destAddr + BitVec.ofNat 32 (n * width.bytes), srcAddr)) (hfixed hgood)
  | increment =>
      cases destAddrCtrl with
      | decrement => rfl
      | fixed =>
          obtain ⟨hread, hunits⟩ := hgood
          rw [dmaUnits_zero dev (by decide) (.inl rfl)]
          simp only [memRead_unit dev width (show DmaAddrCtrl.increment ≠ .fixed by decide)]
          refine (Option.map_bind ..).symm.trans (congrArg _ ?_)
          split_ifs at hunits with hoffset hshared
          · refine fixed_mapped h hwidth hn hread hoffset fun hone => ?_
            rw [← hplace]
            exact hunits hone
          · refine fixed_live h hwidth hread hshared hoffset fun i j hij hj => ?_
            rw [← hplace]
            exact hunits i j hij hj
          · refine fixed_batch h hwidth hread hshared hoffset fun i j hij hj => ?_
            rw [← hplace]
            exact hunits i j hij hj
      | increment =>
          rw [dmaUnits_zero dev (by decide) (.inl rfl)]
          simp only [memRead_unit dev width (show DmaAddrCtrl.increment ≠ .fixed by decide),
            memWrite_unit dev width (show DmaAddrCtrl.increment ≠ .fixed by decide)]
          exact (Option.map_bind ..).symm.trans (congrArg _ (hmoving hgood))
      | incrementReload =>
          rw [dmaUnits_zero dev (by decide) (.inl rfl)]
          simp only [memRead_unit dev width (show DmaAddrCtrl.increment ≠ .fixed by decide),
            memWrite_unit dev width (show DmaAddrCtrl.incrementReload ≠ .fixed by decide)]
          exact (Option.map_bind ..).symm.trans (congrArg _ (hmoving hgood))

end Good

end AdvancedSlop
