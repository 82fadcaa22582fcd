/-
# The io register tables

`src/macros/src/lib.rs`: `io_read!` and `io_write!` build, for accesses of one, two and four bytes,
a table of the functions that serve them; each calls the registers that its cell of the window
overlaps.

* `assembleLutEntries` : the table, by the macro's scan of the registers;
* `assembleLutEntries_getElem?` : each cell holds the registers it overlaps;
* `IoLayout.readDecomposes`, `IoLayout.writeDecomposes` : what an access calls;
* `io_access_decomposes` : every aligned access calls each register it overlaps once, in order, with
  the bytes that belong to it;
* `ioGbaRead`, `ioGbaWrite` : the register layouts of the console.
-/
import Mathlib.Tactic

namespace AdvancedSlop

/-! ## Layouts -/

/-- `io8`, `io16` and `io32`; also the widths of an access. -/
inductive IoSize
  | io8
  | io16
  | io32
  deriving DecidableEq, Repr

/-- The bytes of a size. -/
def IoSize.bytes : IoSize → Nat
  | io8 => 1
  | io16 => 2
  | io32 => 4

/-- `Entry`: a register of the window. -/
structure IoEntry where
  size : IoSize
  offset : Nat
  deriving DecidableEq, Repr

/-- `Entry::offset_end`. -/
def IoEntry.offsetEnd (entry : IoEntry) : Nat := entry.offset + entry.size.bytes

/-- The value of a register. -/
abbrev IoEntry.Value (entry : IoEntry) := BitVec (8 * entry.size.bytes)

/-- A register layout: ascending, apart, each register aligned, the first at a multiple of four. -/
structure IoLayout where
  entries : List IoEntry
  nonempty : entries ≠ []
  apart : entries.Pairwise fun entry entry' => entry.offsetEnd ≤ entry'.offset
  aligned : ∀ entry ∈ entries, entry.size.bytes ∣ entry.offset
  first : 4 ∣ (entries.head nonempty).offset

/-- `MIN_ADDR`. -/
def IoLayout.minAddr (layout : IoLayout) : Nat := (layout.entries.head layout.nonempty).offset

/-- `MAX_ADDR`. -/
def IoLayout.maxAddr (layout : IoLayout) : Nat :=
  (layout.entries.getLast layout.nonempty).offsetEnd

/-- `is_in_range`. -/
def IoLayout.isInRange (layout : IoLayout) (offset : Nat) : Prop :=
  layout.minAddr ≤ offset ∧ offset < layout.maxAddr

instance (layout : IoLayout) (offset : Nat) : Decidable (layout.isInRange offset) :=
  inferInstanceAs (Decidable (_ ∧ _))

/-! ## The tables -/

/-- `LutEntry`: a cell of the window and the registers it overlaps. -/
structure LutEntry where
  offset : Nat
  entries : List IoEntry
  deriving DecidableEq, Repr

/-- The inner loop of `assemble_lut_entries` over the registers from the `i`-th on; the second
result is the next `entry_index`. -/
def scanCell (addr align : Nat) : List IoEntry → Nat → Nat → List IoEntry × Nat
  | [], _, entryIndex => ([], entryIndex)
  | entry :: entries, i, entryIndex =>
      if addr ≤ entry.offset ∧ entry.offset < addr + align ∨
          entry.offset ≤ addr ∧ addr < entry.offsetEnd then
        let rest := scanCell addr align entries (i + 1) i
        (entry :: rest.1, rest.2)
      else if addr + align ≤ entry.offset then ([], entryIndex)
      else scanCell addr align entries (i + 1) entryIndex

/-- The outer loop: `n` cells from `addr` on. -/
def assembleCells (entries : List IoEntry) (align : Nat) : Nat → Nat → Nat → List LutEntry
  | 0, _, _ => []
  | n + 1, addr, entryIndex =>
      let cell := scanCell addr align (entries.drop entryIndex) entryIndex entryIndex
      ⟨addr, cell.1⟩ :: assembleCells entries align n (addr + align) cell.2

/-- `assemble_lut_entries`. -/
def assembleLutEntries (layout : IoLayout) (align : Nat) : List LutEntry :=
  let alignMinAddr := layout.minAddr / align * align
  let alignMaxAddr := (layout.maxAddr + (align - 1)) / align * align
  assembleCells layout.entries align ((alignMaxAddr - alignMinAddr) / align) alignMinAddr 0

/-- The cell of an access; none stands for an index past the end of the table. -/
def IoLayout.cell (layout : IoLayout) (width : IoSize) (offset : Nat) : Option LutEntry :=
  (assembleLutEntries layout width.bytes)[(offset - layout.minAddr) >>> (width.bytes >>> 1)]?

section Access

variable {σ : Type*}

/-- What a cell makes of the value of one of its registers. -/
def LutEntry.piece (cell : LutEntry) (width : IoSize) (entry : IoEntry) (value : entry.Value) :
    BitVec (8 * width.bytes) :=
  if cell.offset ≤ entry.offset then
    value.setWidth (8 * width.bytes) <<< ((entry.offset - cell.offset) * 8)
  else (value >>> ((cell.offset - entry.offset) * 8)).setWidth (8 * width.bytes)

/-- The functions `assemble_read_lut` builds. -/
def LutEntry.read (cell : LutEntry) (width : IoSize)
    (readEntry : (entry : IoEntry) → σ → entry.Value × σ) (s : σ) :
    BitVec (8 * width.bytes) × σ :=
  cell.entries.foldl (fun acc entry =>
    let result := readEntry entry acc.2
    (acc.1 ||| cell.piece width entry result.1, result.2)) (0, s)

/-- A call of a register's write function; a register of one byte takes no mask. -/
structure WriteCall where
  entry : IoEntry
  value : entry.Value
  mask : Option entry.Value

/-- The call of one register of a cell. -/
def LutEntry.writeCall (cell : LutEntry) (width : IoSize) (value : BitVec (8 * width.bytes))
    (entry : IoEntry) : WriteCall where
  entry := entry
  value :=
    if cell.offset ≤ entry.offset then
      (value >>> ((entry.offset - cell.offset) * 8)).setWidth (8 * entry.size.bytes)
    else value.setWidth (8 * entry.size.bytes) <<< ((cell.offset - entry.offset) * 8)
  mask :=
    let mask := (0xFFFFFFFF : BitVec 32) >>> ((4 - width.bytes) * 8)
    if entry.size = .io8 then none
    else if cell.offset ≤ entry.offset then some (mask.setWidth (8 * entry.size.bytes))
    else some ((mask <<< ((cell.offset - entry.offset) * 8)).setWidth (8 * entry.size.bytes))

/-- The functions `assemble_write_lut` builds. -/
def LutEntry.write (cell : LutEntry) (width : IoSize) (writeEntry : WriteCall → σ → σ)
    (value : BitVec (8 * width.bytes)) (s : σ) : σ :=
  cell.entries.foldl (fun s entry => writeEntry (cell.writeCall width value entry) s) s

/-- The generated `read`. -/
def IoLayout.read (layout : IoLayout) (width : IoSize)
    (readEntry : (entry : IoEntry) → σ → entry.Value × σ) (offset : Nat) (s : σ) :
    Option (BitVec (8 * width.bytes) × σ) :=
  (layout.cell width offset).map fun cell => cell.read width readEntry s

/-- The generated `write`. -/
def IoLayout.write (layout : IoLayout) (width : IoSize) (writeEntry : WriteCall → σ → σ)
    (offset : Nat) (value : BitVec (8 * width.bytes)) (s : σ) : Option σ :=
  (layout.cell width offset).map fun cell => cell.write width writeEntry value s

end Access

/-! ## What an access should do -/

/-- The register holds the byte at `addr`. -/
def IoEntry.Covers (entry : IoEntry) (addr : Nat) : Prop :=
  entry.offset ≤ addr ∧ addr < entry.offsetEnd

instance IoEntry.decidableCovers (entry : IoEntry) (addr : Nat) : Decidable (entry.Covers addr) :=
  inferInstanceAs (Decidable (_ ∧ _))

/-- The access reaches a byte of the register. -/
def IoEntry.Overlaps (entry : IoEntry) (width : IoSize) (offset : Nat) : Prop :=
  ∃ k < width.bytes, entry.Covers (offset + k)

/-- The access and the register overlap when neither ends before the other. -/
theorem IoEntry.overlaps_iff (entry : IoEntry) (width : IoSize) (offset : Nat) :
    entry.Overlaps width offset ↔
      entry.offset < offset + width.bytes ∧ offset < entry.offsetEnd := by
  have hwidth : 0 < width.bytes := by cases width <;> decide
  have hsize : entry.offset < entry.offsetEnd := by
    rw [IoEntry.offsetEnd]
    cases entry.size <;> exact Nat.lt_add_of_pos_right (by decide)
  constructor
  · rintro ⟨k, hk, hlow, hhigh⟩
    omega
  · rintro ⟨hlow, hhigh⟩
    by_cases hle : entry.offset ≤ offset
    · exact ⟨0, hwidth, hle, hhigh⟩
    · exact ⟨entry.offset - offset, by omega, by omega, by omega⟩

instance IoEntry.decidableOverlaps (entry : IoEntry) (width : IoSize) (offset : Nat) :
    Decidable (entry.Overlaps width offset) :=
  decidable_of_iff _ (entry.overlaps_iff width offset).symm

/-- The registers an access reaches, in ascending order. -/
def IoLayout.overlapping (layout : IoLayout) (width : IoSize) (offset : Nat) : List IoEntry :=
  layout.entries.filter fun entry => entry.Overlaps width offset

/-- A call of a register's read function and its result. -/
structure ReadCall where
  entry : IoEntry
  value : entry.Value

/-- Registers read one after the other. -/
def callReads {σ : Type*} (readEntry : (entry : IoEntry) → σ → entry.Value × σ) :
    List IoEntry → σ → List ReadCall × σ
  | [], s => ([], s)
  | entry :: entries, s =>
      let result := readEntry entry s
      let rest := callReads readEntry entries result.2
      (⟨entry, result.1⟩ :: rest.1, rest.2)

/-- The byte at `addr` among the values read, zero where no register covers it. -/
def byteAt (calls : List ReadCall) (addr : Nat) : BitVec 8 :=
  match calls.find? fun call => call.entry.Covers addr with
  | some call => call.value.extractLsb' (8 * (addr - call.entry.offset)) 8
  | none => 0

/-- The call carries the accessed bytes of its register: the value has them and zeros elsewhere,
and the mask, where the register takes one, selects them. -/
structure WriteCall.Carries (call : WriteCall) (width : IoSize) (offset : Nat)
    (value : BitVec (8 * width.bytes)) : Prop where
  value : ∀ j < call.entry.size.bytes, call.value.extractLsb' (8 * j) 8 =
    if offset ≤ call.entry.offset + j ∧ call.entry.offset + j < offset + width.bytes then
      value.extractLsb' (8 * (call.entry.offset + j - offset)) 8
    else 0
  mask : ∀ mask, call.mask = some mask → ∀ j < call.entry.size.bytes,
    mask.extractLsb' (8 * j) 8 =
      if offset ≤ call.entry.offset + j ∧ call.entry.offset + j < offset + width.bytes then 0xFF
      else 0
  unmasked : call.mask = none ↔ call.entry.size = .io8

/-- A read calls each register it overlaps once, in order, and returns in each byte that of the
register that covers it. -/
def IoLayout.ReadDecomposes.{u} (layout : IoLayout) (width : IoSize) (offset : Nat) : Prop :=
  ∀ (σ : Type u) (readEntry : (entry : IoEntry) → σ → entry.Value × σ) (s : σ),
    ∃ value, layout.read width readEntry offset s =
        some (value, (callReads readEntry (layout.overlapping width offset) s).2) ∧
      ∀ k < width.bytes, value.extractLsb' (8 * k) 8 =
        byteAt (callReads readEntry (layout.overlapping width offset) s).1 (offset + k)

/-- A write calls each register it overlaps once, in order, with the bytes that belong to it. -/
def IoLayout.WriteDecomposes.{u} (layout : IoLayout) (width : IoSize) (offset : Nat) : Prop :=
  ∀ value : BitVec (8 * width.bytes), ∃ calls : List WriteCall,
    calls.map WriteCall.entry = layout.overlapping width offset ∧
      (∀ call ∈ calls, call.Carries width offset value) ∧
      ∀ (σ : Type u) (writeEntry : WriteCall → σ → σ) (s : σ),
        layout.write width writeEntry offset value s =
          some (calls.foldl (fun s call => writeEntry call s) s)

/-! ## The scan -/

/-- A size is positive. -/
theorem IoSize.bytes_pos (size : IoSize) : 0 < size.bytes := by
  cases size <;> decide

/-- A register is not empty. -/
theorem IoEntry.offset_lt (entry : IoEntry) : entry.offset < entry.offsetEnd :=
  Nat.lt_add_of_pos_right entry.size.bytes_pos

/-- The test of the scan. -/
theorem IoEntry.overlaps_iff_scan (entry : IoEntry) (width : IoSize) (addr : Nat) :
    entry.Overlaps width addr ↔
      addr ≤ entry.offset ∧ entry.offset < addr + width.bytes ∨
        entry.offset ≤ addr ∧ addr < entry.offsetEnd := by
  have hwidth := width.bytes_pos
  have hsize := entry.offset_lt
  rw [entry.overlaps_iff]
  omega

/-- The scan of a cell finds the registers that overlap it. -/
theorem scanCell_fst {width : IoSize} {addr : Nat} {entries : List IoEntry}
    (hapart : entries.Pairwise fun entry entry' => entry.offsetEnd ≤ entry'.offset)
    (i entryIndex : Nat) :
    (scanCell addr width.bytes entries i entryIndex).1 =
      entries.filter fun entry => entry.Overlaps width addr := by
  have hwidth := width.bytes_pos
  induction entries generalizing i entryIndex with
  | nil => rfl
  | cons entry entries ih =>
      obtain ⟨hhead, htail⟩ := List.pairwise_cons.mp hapart
      by_cases hover : entry.Overlaps width addr
      · rw [scanCell, if_pos ((entry.overlaps_iff_scan width addr).mp hover),
          List.filter_cons_of_pos (by simpa using hover)]
        exact congrArg (entry :: ·) (ih htail _ _)
      · rw [scanCell, if_neg (mt (entry.overlaps_iff_scan width addr).mpr hover),
          List.filter_cons_of_neg (by simpa using hover)]
        by_cases hbreak : addr + width.bytes ≤ entry.offset
        · -- the registers after one past the cell are past it too
          rw [if_pos hbreak, eq_comm, List.filter_eq_nil_iff]
          intro entry' hentry'
          have hafter := hhead entry' hentry'
          have hsize := entry.offset_lt
          have hnot : ¬ entry'.Overlaps width addr := by
            rw [entry'.overlaps_iff]
            omega
          simpa using hnot
        · rw [if_neg hbreak, ih htail]

/-- The next `entry_index` is the old one or that of a register that overlaps the cell. -/
theorem scanCell_snd (addr : Nat) (width : IoSize) (entries : List IoEntry) (i entryIndex : Nat) :
    (scanCell addr width.bytes entries i entryIndex).2 = entryIndex ∨
      ∃ j entry, entries[j]? = some entry ∧ entry.Overlaps width addr ∧
        (scanCell addr width.bytes entries i entryIndex).2 = i + j := by
  induction entries generalizing i entryIndex with
  | nil => exact .inl rfl
  | cons entry entries ih =>
      by_cases hover : entry.Overlaps width addr
      · rw [scanCell, if_pos ((entry.overlaps_iff_scan width addr).mp hover)]
        rcases ih (i + 1) i with hsame | ⟨j, entry', hget, hover', hindex⟩
        · exact .inr ⟨0, entry, rfl, hover, hsame⟩
        · exact .inr ⟨j + 1, entry', hget, hover', by rw [hindex]; omega⟩
      · rw [scanCell, if_neg (mt (entry.overlaps_iff_scan width addr).mpr hover)]
        split_ifs with hbreak
        · exact .inl rfl
        · rcases ih (i + 1) entryIndex with hsame | ⟨j, entry', hget, hover', hindex⟩
          · exact .inl hsame
          · exact .inr ⟨j + 1, entry', hget, hover', by rw [hindex]; omega⟩

/-- **Each cell holds the registers it overlaps.**  The registers before `entry_index` end before
the cell. -/
theorem assembleCells_getElem? {width : IoSize} {entries : List IoEntry}
    (hapart : entries.Pairwise fun entry entry' => entry.offsetEnd ≤ entry'.offset)
    {n addr entryIndex : Nat}
    (hbehind : ∀ entry ∈ entries.take entryIndex, entry.offsetEnd ≤ addr) {j : Nat} (hj : j < n) :
    (assembleCells entries width.bytes n addr entryIndex)[j]? =
      some ⟨addr + j * width.bytes,
        entries.filter fun entry => entry.Overlaps width (addr + j * width.bytes)⟩ := by
  have hwidth := width.bytes_pos
  induction n generalizing addr entryIndex j with
  | zero => omega
  | succ n ih =>
      rw [assembleCells]
      cases j with
      | zero =>
          have hskip : entries.filter (fun entry => entry.Overlaps width addr) =
              (entries.drop entryIndex).filter fun entry => entry.Overlaps width addr := by
            conv_lhs => rw [← List.take_append_drop entryIndex entries, List.filter_append]
            have hnone : (entries.take entryIndex).filter
                (fun entry => entry.Overlaps width addr) = [] := by
              rw [List.filter_eq_nil_iff]
              intro entry hentry
              have hend := hbehind entry hentry
              have hnot : ¬ entry.Overlaps width addr := by
                rw [entry.overlaps_iff]
                omega
              simpa using hnot
            rw [hnone, List.nil_append]
          rw [List.getElem?_cons_zero, scanCell_fst (hapart.sublist (List.drop_sublist _ _)),
            Nat.zero_mul, Nat.add_zero, hskip]
      | succ j =>
          have hnext : ∀ entry ∈ entries.take
              (scanCell addr width.bytes (entries.drop entryIndex) entryIndex entryIndex).2,
              entry.offsetEnd ≤ addr + width.bytes := by
            rcases scanCell_snd addr width (entries.drop entryIndex) entryIndex entryIndex with
              hsame | ⟨k, entry', hget, hover, hindex⟩
            · rw [hsame]
              intro entry hentry
              have hend := hbehind entry hentry
              omega
            · rw [hindex]
              intro entry hentry
              obtain ⟨a, ha, rfl⟩ := List.mem_take_iff_getElem.mp hentry
              rw [List.getElem?_drop] at hget
              obtain ⟨hlt, rfl⟩ := List.getElem?_eq_some_iff.mp hget
              have hbefore := List.pairwise_iff_getElem.mp hapart a (entryIndex + k) (by omega) hlt
                (by omega)
              have hlow := ((IoEntry.overlaps_iff _ _ _).mp hover).1
              omega
          have hplace : addr + width.bytes + j * width.bytes = addr + (j + 1) * width.bytes := by
            rw [Nat.succ_mul]
            omega
          rw [List.getElem?_cons_succ, ih hnext (by omega), hplace]

/-- The first register is the lowest. -/
theorem IoLayout.minAddr_le (layout : IoLayout) : layout.minAddr ≤ layout.maxAddr := by
  obtain ⟨entries, hne, hapart, -, -⟩ := layout
  show (entries.head hne).offset ≤ (entries.getLast hne).offsetEnd
  cases entries with
  | nil => exact absurd rfl hne
  | cons entry entries =>
      obtain ⟨hhead, -⟩ := List.pairwise_cons.mp hapart
      have hsize := entry.offset_lt
      rcases List.eq_nil_or_concat entries with rfl | ⟨init, last, rfl⟩
      · exact hsize.le
      · have hlast := hhead last (by simp)
        have hlastSize := last.offset_lt
        rw [List.head_cons]
        simp only [List.concat_eq_append, ← List.cons_append, List.getLast_append_singleton]
        omega

/-- **The index of an aligned access is that of its cell.** -/
theorem IoLayout.cell_eq (layout : IoLayout) {width : IoSize} {offset : Nat}
    (haligned : width.bytes ∣ offset) (hrange : layout.isInRange offset) :
    layout.cell width offset = some ⟨offset, layout.overlapping width offset⟩ := by
  obtain ⟨hlow, hhigh⟩ := hrange
  have hfirst : 4 ∣ layout.minAddr := layout.first
  have hmin : layout.minAddr / width.bytes * width.bytes = layout.minAddr := by
    refine Nat.div_mul_cancel (dvd_trans ?_ hfirst)
    cases width <;> decide
  have hindex : (offset - layout.minAddr) >>> (width.bytes >>> 1) =
      (offset - layout.minAddr) / width.bytes := by
    rw [Nat.shiftRight_eq_div_pow]
    cases width <;> rfl
  have hplace : layout.minAddr + (offset - layout.minAddr) / width.bytes * width.bytes = offset := by
    have hdvd : width.bytes ∣ offset - layout.minAddr := by
      refine Nat.dvd_sub haligned (dvd_trans ?_ hfirst)
      cases width <;> decide
    rw [Nat.div_mul_cancel hdvd]
    omega
  have hlt : (offset - layout.minAddr) / width.bytes <
      ((layout.maxAddr + (width.bytes - 1)) / width.bytes * width.bytes - layout.minAddr) /
        width.bytes := by
    cases width <;> simp only [IoSize.bytes] at haligned hmin ⊢ <;> omega
  rw [IoLayout.cell, assembleLutEntries, hindex]
  simp only [hmin]
  rw [assembleCells_getElem? layout.apart (by simp) hlt, hplace]
  rfl

/-! ## Reads -/

section Reads

variable {σ : Type*} (readEntry : (entry : IoEntry) → σ → entry.Value × σ)

/-- Each register of the list is called once, in order. -/
theorem callReads_entries (entries : List IoEntry) (s : σ) :
    (callReads readEntry entries s).1.map ReadCall.entry = entries := by
  induction entries generalizing s with
  | nil => rfl
  | cons entry entries ih => exact congrArg (entry :: ·) (ih _)

/-- A cell calls its registers and puts their pieces together. -/
theorem LutEntry.read_eq (cell : LutEntry) (width : IoSize) (s : σ) :
    cell.read width readEntry s =
      ((callReads readEntry cell.entries s).1.foldl
        (fun acc call => acc ||| cell.piece width call.entry call.value) 0,
        (callReads readEntry cell.entries s).2) := by
  suffices hgen : ∀ (entries : List IoEntry) (acc : BitVec (8 * width.bytes)) (s : σ),
      entries.foldl (fun acc entry =>
        (acc.1 ||| cell.piece width entry (readEntry entry acc.2).1, (readEntry entry acc.2).2))
          (acc, s) =
        ((callReads readEntry entries s).1.foldl
          (fun acc call => acc ||| cell.piece width call.entry call.value) acc,
          (callReads readEntry entries s).2) from hgen cell.entries 0 s
  intro entries
  induction entries with
  | nil => exact fun _ _ => rfl
  | cons entry entries ih => exact fun acc s => ih _ _

/-- The bits of a piece are those of the register, in their place. -/
theorem LutEntry.getLsbD_piece (cell : LutEntry) (width : IoSize) (entry : IoEntry)
    (value : entry.Value) {b : Nat} (hb : b < 8 * width.bytes) :
    (cell.piece width entry value).getLsbD b =
      (decide (8 * entry.offset ≤ 8 * cell.offset + b) &&
        value.getLsbD (8 * cell.offset + b - 8 * entry.offset)) := by
  unfold LutEntry.piece
  split_ifs with hle
  · rw [BitVec.getLsbD_shiftLeft, BitVec.getLsbD_setWidth]
    by_cases hplace : b < (entry.offset - cell.offset) * 8
    · have hnot : ¬ 8 * entry.offset ≤ 8 * cell.offset + b := by omega
      simp [hplace, hnot]
    · have hin : 8 * entry.offset ≤ 8 * cell.offset + b := by omega
      have hshift : b - (entry.offset - cell.offset) * 8 =
          8 * cell.offset + b - 8 * entry.offset := by omega
      have hlt : 8 * cell.offset + b - 8 * entry.offset < 8 * width.bytes := by omega
      simp [hb, hplace, hin, hshift, hlt]
  · have hin : 8 * entry.offset ≤ 8 * cell.offset + b := by omega
    have hshift : (cell.offset - entry.offset) * 8 + b =
        8 * cell.offset + b - 8 * entry.offset := by omega
    rw [BitVec.getLsbD_setWidth, BitVec.getLsbD_ushiftRight, hshift]
    simp [hb, hin]

/-- The bytes of a piece. -/
theorem LutEntry.extractLsb'_piece (cell : LutEntry) (width : IoSize) (entry : IoEntry)
    (value : entry.Value) {k : Nat} (hk : k < width.bytes) :
    (cell.piece width entry value).extractLsb' (8 * k) 8 =
      if entry.Covers (cell.offset + k) then
        value.extractLsb' (8 * (cell.offset + k - entry.offset)) 8
      else 0 := by
  apply BitVec.eq_of_getLsbD_eq
  intro i hi
  rw [BitVec.getLsbD_extractLsb', cell.getLsbD_piece width entry value (by omega)]
  by_cases hcovers : entry.Covers (cell.offset + k)
  · obtain ⟨hlow, hhigh⟩ := id hcovers
    have hin : 8 * entry.offset ≤ 8 * cell.offset + (8 * k + i) := by omega
    have hplace : 8 * cell.offset + (8 * k + i) - 8 * entry.offset =
        8 * (cell.offset + k - entry.offset) + i := by omega
    rw [if_pos hcovers, BitVec.getLsbD_extractLsb', hplace]
    simp [hin]
  · rw [if_neg hcovers]
    by_cases hin : 8 * entry.offset ≤ 8 * cell.offset + (8 * k + i)
    · have hend : ¬ cell.offset + k < entry.offsetEnd := fun hlt =>
        hcovers ⟨by omega, hlt⟩
      have hge : 8 * entry.size.bytes ≤ 8 * cell.offset + (8 * k + i) - 8 * entry.offset := by
        rw [IoEntry.offsetEnd] at hend
        omega
      rw [BitVec.getLsbD_of_ge _ _ hge]
      simp
    · simp [hin]

/-- The bytes of a value put together from pieces that lie apart. -/
theorem extractLsb'_foldl_piece (cell : LutEntry) (width : IoSize) {calls : List ReadCall}
    (hapart : (calls.map ReadCall.entry).Pairwise fun entry entry' =>
      entry.offsetEnd ≤ entry'.offset)
    (acc : BitVec (8 * width.bytes)) {k : Nat} (hk : k < width.bytes) :
    (calls.foldl (fun acc call => acc ||| cell.piece width call.entry call.value)
      acc).extractLsb' (8 * k) 8 =
      acc.extractLsb' (8 * k) 8 ||| byteAt calls (cell.offset + k) := by
  induction calls generalizing acc with
  | nil => exact (BitVec.or_zero).symm
  | cons call calls ih =>
      rw [List.map_cons, List.pairwise_cons] at hapart
      obtain ⟨hhead, htail⟩ := hapart
      rw [List.foldl_cons, ih htail, BitVec.extractLsb'_or, BitVec.or_assoc,
        cell.extractLsb'_piece width call.entry call.value hk]
      congr 1
      by_cases hcovers : call.entry.Covers (cell.offset + k)
      · -- no later register reaches back to this byte
        have hnone : calls.find? (fun call => call.entry.Covers (cell.offset + k)) = none := by
          rw [List.find?_eq_none]
          intro call' hcall'
          have hafter := hhead call'.entry (List.mem_map_of_mem hcall')
          have hnot : ¬ call'.entry.Covers (cell.offset + k) := by
            rintro ⟨hlow, -⟩
            have hhigh := hcovers.2
            omega
          simpa using hnot
        have hrest : byteAt calls (cell.offset + k) = 0 := by rw [byteAt, hnone]
        have hfirst : byteAt (call :: calls) (cell.offset + k) =
            call.value.extractLsb' (8 * (cell.offset + k - call.entry.offset)) 8 := by
          rw [byteAt, List.find?_cons_of_pos (by simpa using hcovers)]
        rw [if_pos hcovers, hrest, hfirst]
        exact BitVec.or_zero
      · have hskip : byteAt (call :: calls) (cell.offset + k) =
            byteAt calls (cell.offset + k) := by
          rw [byteAt, List.find?_cons_of_neg (by simpa using hcovers), byteAt]
        rw [if_neg hcovers, hskip]
        exact BitVec.zero_or

/-- **A read** decomposes. -/
theorem IoLayout.readDecomposes (layout : IoLayout) {width : IoSize} {offset : Nat}
    (haligned : width.bytes ∣ offset) (hrange : layout.isInRange offset) :
    layout.ReadDecomposes width offset := by
  intro σ readEntry s
  have hread := LutEntry.read_eq readEntry ⟨offset, layout.overlapping width offset⟩ width s
  refine ⟨(LutEntry.read ⟨offset, layout.overlapping width offset⟩ width readEntry s).1, ?_,
    fun k hk => ?_⟩
  · rw [IoLayout.read, layout.cell_eq haligned hrange, Option.map_some, hread]
  · have hapart := layout.apart.sublist
      (List.filter_sublist (p := fun entry => entry.Overlaps width offset))
    rw [← callReads_entries readEntry (List.filter _ _) s] at hapart
    rw [hread]
    refine (extractLsb'_foldl_piece _ _ hapart _ hk).trans ?_
    exact (congrArg (· ||| _) BitVec.extractLsb'_zero).trans BitVec.zero_or

end Reads

/-! ## Writes -/

section Writes

/-- The bits of the value of a call. -/
theorem LutEntry.getLsbD_writeCall_value (cell : LutEntry) (width : IoSize)
    (value : BitVec (8 * width.bytes)) (entry : IoEntry) {b : Nat}
    (hb : b < 8 * entry.size.bytes) :
    (cell.writeCall width value entry).value.getLsbD b =
      (decide (8 * cell.offset ≤ 8 * entry.offset + b) &&
        value.getLsbD (8 * entry.offset + b - 8 * cell.offset)) := by
  unfold LutEntry.writeCall
  simp only
  split_ifs with hle
  · have hin : 8 * cell.offset ≤ 8 * entry.offset + b := by omega
    have hshift : (entry.offset - cell.offset) * 8 + b =
        8 * entry.offset + b - 8 * cell.offset := by omega
    rw [BitVec.getLsbD_setWidth, BitVec.getLsbD_ushiftRight, hshift]
    simp [hb, hin]
  · rw [BitVec.getLsbD_shiftLeft, BitVec.getLsbD_setWidth]
    by_cases hplace : b < (cell.offset - entry.offset) * 8
    · have hnot : ¬ 8 * cell.offset ≤ 8 * entry.offset + b := by omega
      simp [hplace, hnot]
    · have hin : 8 * cell.offset ≤ 8 * entry.offset + b := by omega
      have hshift : b - (cell.offset - entry.offset) * 8 =
          8 * entry.offset + b - 8 * cell.offset := by omega
      have hlt : 8 * entry.offset + b - 8 * cell.offset < 8 * entry.size.bytes := by omega
      simp [hb, hplace, hin, hshift, hlt]

/-- The mask of an access. -/
theorem getLsbD_accessMask (width : IoSize) (b : Nat) :
    ((0xFFFFFFFF : BitVec 32) >>> ((4 - width.bytes) * 8)).getLsbD b =
      decide (b < 8 * width.bytes) := by
  have hones : (0xFFFFFFFF : BitVec 32) = BitVec.allOnes 32 := by decide
  have hiff : (4 - width.bytes) * 8 + b < 32 ↔ b < 8 * width.bytes := by
    cases width <;> simp only [IoSize.bytes] <;> omega
  rw [hones, BitVec.getLsbD_ushiftRight, BitVec.getLsbD_allOnes]
  exact decide_eq_decide.mpr hiff

/-- A register that starts inside an aligned access ends inside it. -/
theorem IoEntry.fits (entry : IoEntry) {width : IoSize} {offset : Nat}
    (haligned : width.bytes ∣ offset) (hentry : entry.size.bytes ∣ entry.offset)
    (hlow : offset < entry.offset) (hhigh : entry.offset < offset + width.bytes) :
    entry.offset + entry.size.bytes ≤ offset + width.bytes := by
  obtain ⟨size, place⟩ := entry
  cases width <;> cases size <;> simp only [IoSize.bytes] at * <;> omega

/-- The bits of the mask of a call. -/
theorem LutEntry.getLsbD_writeCall_mask (cell : LutEntry) (width : IoSize)
    (value : BitVec (8 * width.bytes)) {entry : IoEntry}
    (haligned : width.bytes ∣ cell.offset) (hentry : entry.size.bytes ∣ entry.offset)
    (hover : entry.Overlaps width cell.offset) {mask : entry.Value}
    (hmask : (cell.writeCall width value entry).mask = some mask) {b : Nat}
    (hb : b < 8 * entry.size.bytes) :
    mask.getLsbD b =
      decide (8 * cell.offset ≤ 8 * entry.offset + b ∧
        8 * entry.offset + b < 8 * (cell.offset + width.bytes)) := by
  have hhigh := ((entry.overlaps_iff width cell.offset).mp hover).1
  unfold LutEntry.writeCall at hmask
  simp only at hmask
  split_ifs at hmask with hbyte hle
  · obtain rfl := Option.some.inj hmask
    rw [BitVec.getLsbD_setWidth, getLsbD_accessMask, decide_eq_true hb, Bool.true_and]
    refine decide_eq_decide.mpr ?_
    by_cases heq : cell.offset = entry.offset
    · omega
    · have hfits := entry.fits haligned hentry (by omega) hhigh
      omega
  · obtain rfl := Option.some.inj hmask
    have hword : entry.size.bytes ≤ 4 := by cases entry.size <;> decide
    have hin : b < 32 := by omega
    rw [BitVec.getLsbD_setWidth, BitVec.getLsbD_shiftLeft, getLsbD_accessMask,
      decide_eq_true hb, decide_eq_true hin, Bool.true_and, Bool.true_and, ← decide_not,
      ← Bool.decide_and]
    refine decide_eq_decide.mpr ?_
    omega

/-- **The call of a register carries its bytes of the access.** -/
theorem LutEntry.writeCall_carries (cell : LutEntry) {width : IoSize}
    (value : BitVec (8 * width.bytes)) {entry : IoEntry}
    (haligned : width.bytes ∣ cell.offset) (hentry : entry.size.bytes ∣ entry.offset)
    (hover : entry.Overlaps width cell.offset) :
    (cell.writeCall width value entry).Carries width cell.offset value where
  value := by
    intro j hj
    have hj : j < entry.size.bytes := hj
    show BitVec.extractLsb' (8 * j) 8 (cell.writeCall width value entry).value =
      if cell.offset ≤ entry.offset + j ∧ entry.offset + j < cell.offset + width.bytes then
        value.extractLsb' (8 * (entry.offset + j - cell.offset)) 8
      else 0
    apply BitVec.eq_of_getLsbD_eq
    intro i hi
    rw [BitVec.getLsbD_extractLsb', cell.getLsbD_writeCall_value width value entry (by omega),
      decide_eq_true hi, Bool.true_and]
    split_ifs with haccess
    · have hin : 8 * cell.offset ≤ 8 * entry.offset + (8 * j + i) := by omega
      have hplace : 8 * entry.offset + (8 * j + i) - 8 * cell.offset =
          8 * (entry.offset + j - cell.offset) + i := by omega
      rw [decide_eq_true hin, Bool.true_and, hplace, BitVec.getLsbD_extractLsb',
        decide_eq_true hi, Bool.true_and]
    · by_cases hin : 8 * cell.offset ≤ 8 * entry.offset + (8 * j + i)
      · have hge : 8 * width.bytes ≤ 8 * entry.offset + (8 * j + i) - 8 * cell.offset := by omega
        rw [BitVec.getLsbD_of_ge _ _ hge, Bool.and_false]
        exact BitVec.getLsbD_zero.symm
      · rw [decide_eq_false hin, Bool.false_and]
        exact BitVec.getLsbD_zero.symm
  mask := by
    suffices hbytes : ∀ mask : entry.Value, (cell.writeCall width value entry).mask = some mask →
        ∀ j < entry.size.bytes, mask.extractLsb' (8 * j) 8 =
          if cell.offset ≤ entry.offset + j ∧ entry.offset + j < cell.offset + width.bytes then
            BitVec.allOnes 8
          else 0 from hbytes
    intro mask hmask j hj
    apply BitVec.eq_of_getLsbD_eq
    intro i hi
    rw [BitVec.getLsbD_extractLsb',
      cell.getLsbD_writeCall_mask width value haligned hentry hover hmask (by omega),
      decide_eq_true hi, Bool.true_and]
    split_ifs with haccess
    · rw [BitVec.getLsbD_allOnes, decide_eq_true hi]
      exact decide_eq_true (by omega)
    · refine (decide_eq_false ?_).trans BitVec.getLsbD_zero.symm
      omega
  unmasked := by
    show (cell.writeCall width value entry).mask = none ↔ entry.size = .io8
    unfold LutEntry.writeCall
    simp only
    split_ifs with hbyte hle <;> simp [hbyte]

/-- **A write** decomposes. -/
theorem IoLayout.writeDecomposes (layout : IoLayout) {width : IoSize} {offset : Nat}
    (haligned : width.bytes ∣ offset) (hrange : layout.isInRange offset) :
    layout.WriteDecomposes width offset := by
  intro value
  refine ⟨(layout.overlapping width offset).map
    (LutEntry.writeCall ⟨offset, layout.overlapping width offset⟩ width value), ?_, ?_, ?_⟩
  · rw [List.map_map]
    exact List.map_id _
  · intro call hcall
    obtain ⟨entry, hentry, rfl⟩ := List.mem_map.mp hcall
    obtain ⟨hmem, hover⟩ := List.mem_filter.mp hentry
    exact LutEntry.writeCall_carries ⟨offset, layout.overlapping width offset⟩ value haligned
      (layout.aligned entry hmem) (by simpa using hover)
  · intro σ writeEntry s
    rw [IoLayout.write, layout.cell_eq haligned hrange, Option.map_some, LutEntry.write,
      List.foldl_map]

end Writes

/-- **Io accesses decompose** into calls of the registers they overlap, on every layout. -/
theorem io_access_decomposes.{u, v} (layout : IoLayout) (width : IoSize) (offset : Nat)
    (haligned : width.bytes ∣ offset) (hrange : layout.isInRange offset) :
    layout.ReadDecomposes.{u} width offset ∧ layout.WriteDecomposes.{v} width offset :=
  ⟨layout.readDecomposes haligned hrange, layout.writeDecomposes haligned hrange⟩

/-! ## The layouts of the console -/

/-- The layout of `io_gba_read`. -/
def ioGbaRead : IoLayout where
  entries :=
   [⟨.io16, 0x0⟩, ⟨.io16, 0x2⟩, ⟨.io16, 0x4⟩, ⟨.io16, 0x6⟩, ⟨.io16, 0x8⟩, ⟨.io16, 0xA⟩,
    ⟨.io16, 0xC⟩, ⟨.io16, 0xE⟩, ⟨.io16, 0x48⟩, ⟨.io16, 0x4A⟩, ⟨.io16, 0x50⟩, ⟨.io16, 0x52⟩,
    ⟨.io16, 0x60⟩, ⟨.io16, 0x62⟩, ⟨.io16, 0x64⟩, ⟨.io16, 0x68⟩, ⟨.io16, 0x6C⟩, ⟨.io16, 0x70⟩,
    ⟨.io16, 0x72⟩, ⟨.io16, 0x74⟩, ⟨.io16, 0x78⟩, ⟨.io16, 0x7C⟩, ⟨.io16, 0x80⟩, ⟨.io16, 0x82⟩,
    ⟨.io16, 0x84⟩, ⟨.io16, 0x88⟩, ⟨.io8, 0x90⟩, ⟨.io8, 0x91⟩, ⟨.io8, 0x92⟩, ⟨.io8, 0x93⟩,
    ⟨.io8, 0x94⟩, ⟨.io8, 0x95⟩, ⟨.io8, 0x96⟩, ⟨.io8, 0x97⟩, ⟨.io8, 0x98⟩, ⟨.io8, 0x99⟩,
    ⟨.io8, 0x9A⟩, ⟨.io8, 0x9B⟩, ⟨.io8, 0x9C⟩, ⟨.io8, 0x9D⟩, ⟨.io8, 0x9E⟩, ⟨.io8, 0x9F⟩,
    ⟨.io32, 0xB8⟩, ⟨.io32, 0xC4⟩, ⟨.io32, 0xD0⟩, ⟨.io32, 0xDC⟩, ⟨.io16, 0x100⟩, ⟨.io16, 0x102⟩,
    ⟨.io16, 0x104⟩, ⟨.io16, 0x106⟩, ⟨.io16, 0x108⟩, ⟨.io16, 0x10A⟩, ⟨.io16, 0x10C⟩, ⟨.io16, 0x10E⟩,
    ⟨.io16, 0x130⟩, ⟨.io16, 0x132⟩, ⟨.io16, 0x200⟩, ⟨.io16, 0x202⟩, ⟨.io16, 0x204⟩, ⟨.io8, 0x208⟩,
    ⟨.io8, 0x300⟩, ⟨.io8, 0x301⟩]
  nonempty := by decide
  apart := by decide
  aligned := by decide
  first := by decide

/-- The layout of `io_gba_write`. -/
def ioGbaWrite : IoLayout where
  entries :=
   [⟨.io16, 0x0⟩, ⟨.io16, 0x2⟩, ⟨.io16, 0x4⟩, ⟨.io16, 0x8⟩, ⟨.io16, 0xA⟩, ⟨.io16, 0xC⟩,
    ⟨.io16, 0xE⟩, ⟨.io16, 0x10⟩, ⟨.io16, 0x12⟩, ⟨.io16, 0x14⟩, ⟨.io16, 0x16⟩, ⟨.io16, 0x18⟩,
    ⟨.io16, 0x1A⟩, ⟨.io16, 0x1C⟩, ⟨.io16, 0x1E⟩, ⟨.io16, 0x20⟩, ⟨.io16, 0x22⟩, ⟨.io16, 0x24⟩,
    ⟨.io16, 0x26⟩, ⟨.io32, 0x28⟩, ⟨.io32, 0x2C⟩, ⟨.io16, 0x30⟩, ⟨.io16, 0x32⟩, ⟨.io16, 0x34⟩,
    ⟨.io16, 0x36⟩, ⟨.io32, 0x38⟩, ⟨.io32, 0x3C⟩, ⟨.io16, 0x40⟩, ⟨.io16, 0x42⟩, ⟨.io16, 0x44⟩,
    ⟨.io16, 0x46⟩, ⟨.io16, 0x48⟩, ⟨.io16, 0x4A⟩, ⟨.io16, 0x4C⟩, ⟨.io16, 0x50⟩, ⟨.io16, 0x52⟩,
    ⟨.io16, 0x54⟩, ⟨.io16, 0x60⟩, ⟨.io16, 0x62⟩, ⟨.io16, 0x64⟩, ⟨.io16, 0x68⟩, ⟨.io16, 0x6C⟩,
    ⟨.io16, 0x70⟩, ⟨.io16, 0x72⟩, ⟨.io16, 0x74⟩, ⟨.io16, 0x78⟩, ⟨.io16, 0x7C⟩, ⟨.io16, 0x80⟩,
    ⟨.io16, 0x82⟩, ⟨.io16, 0x84⟩, ⟨.io16, 0x88⟩, ⟨.io8, 0x90⟩, ⟨.io8, 0x91⟩, ⟨.io8, 0x92⟩,
    ⟨.io8, 0x93⟩, ⟨.io8, 0x94⟩, ⟨.io8, 0x95⟩, ⟨.io8, 0x96⟩, ⟨.io8, 0x97⟩, ⟨.io8, 0x98⟩,
    ⟨.io8, 0x99⟩, ⟨.io8, 0x9A⟩, ⟨.io8, 0x9B⟩, ⟨.io8, 0x9C⟩, ⟨.io8, 0x9D⟩, ⟨.io8, 0x9E⟩,
    ⟨.io8, 0x9F⟩, ⟨.io32, 0xA0⟩, ⟨.io32, 0xA4⟩, ⟨.io32, 0xB0⟩, ⟨.io32, 0xB4⟩, ⟨.io32, 0xB8⟩,
    ⟨.io32, 0xBC⟩, ⟨.io32, 0xC0⟩, ⟨.io32, 0xC4⟩, ⟨.io32, 0xC8⟩, ⟨.io32, 0xCC⟩, ⟨.io32, 0xD0⟩,
    ⟨.io32, 0xD4⟩, ⟨.io32, 0xD8⟩, ⟨.io32, 0xDC⟩, ⟨.io16, 0x100⟩, ⟨.io16, 0x102⟩, ⟨.io16, 0x104⟩,
    ⟨.io16, 0x106⟩, ⟨.io16, 0x108⟩, ⟨.io16, 0x10A⟩, ⟨.io16, 0x10C⟩, ⟨.io16, 0x10E⟩, ⟨.io16, 0x132⟩,
    ⟨.io16, 0x200⟩, ⟨.io16, 0x202⟩, ⟨.io16, 0x204⟩, ⟨.io8, 0x208⟩, ⟨.io8, 0x300⟩, ⟨.io8, 0x301⟩]
  nonempty := by decide
  apart := by decide
  aligned := by decide
  first := by decide

/-- A word at the interrupt master enable, and the top byte of a DMA control register. -/
theorem ioGba_decomposes :
    (ioGbaRead.ReadDecomposes.{0} .io32 0x208 ∧ ioGbaRead.WriteDecomposes.{0} .io32 0x208) ∧
      ioGbaWrite.ReadDecomposes.{0} .io8 0xBB ∧ ioGbaWrite.WriteDecomposes.{0} .io8 0xBB :=
  ⟨io_access_decomposes ioGbaRead .io32 0x208 (by decide) (by decide),
    io_access_decomposes ioGbaWrite .io8 0xBB (by decide) (by decide)⟩

end AdvancedSlop
