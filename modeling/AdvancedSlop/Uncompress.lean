/-
# Decompression

`lz77_uncomp` and `runlen_uncomp` of `src/core/hle/bios.rs`.  The output goes byte by byte through
a read and a write of the half word around it, and back-references read what was written.  Sums of
addresses wrap, as in the release build.

* `lz77Uncomp`, `runlenUncomp` : the code, with the rounds of its loops as fuel;
* `lzToken`, `runToken` : the tokens of the two formats;
* `Decoded` : the memory with an output in its place;
* `uncompress_law` : both functions end, and leave the expansion of the shortest prefix of the
  tokens that reaches the declared size.
-/
import AdvancedSlop.AccessOrder
import AdvancedSlop.FastPath
import AdvancedSlop.TokenStream

namespace AdvancedSlop

open TokenStream WordMemory

variable {D : Type*} (dev : MemDevices D)

/-! ## The code -/

/-- A sum of `u32`. -/
def addU32 (a b : ℕ) : ℕ := (a + b) % 0x100000000

/-- `uncomp_write_byte`. -/
def uncompWriteByte (addr : ℕ) (value : BitVec 8) (s : GuestMem D) : Option (GuestMem D) :=
  let aligned := addr / 2 * 2
  let cur : BitVec 16 × GuestMem D := memRead dev .half aligned s
  let shift := addr % 2 * 8
  let new := (cur.1 &&& ~~~(0xFF#16 <<< shift)) ||| (value.setWidth 16 <<< shift)
  memWrite dev .half aligned new cur.2

/-- The memory, and the offsets `src` and `dst` into the two buffers. -/
structure Uncomp (D : Type*) where
  mem : GuestMem D
  src : ℕ
  dst : ℕ

namespace Uncomp

/-- The next byte of the stream. -/
def next (srcAddr : ℕ) (u : Uncomp D) : BitVec 8 × Uncomp D :=
  let r := memRead dev .byte (addU32 srcAddr u.src) u.mem
  (r.1, { u with mem := r.2, src := u.src + 1 })

/-- The next byte of the output. -/
def put (dstAddr : ℕ) (value : BitVec 8) (u : Uncomp D) : Option (Uncomp D) :=
  (uncompWriteByte dev (addU32 dstAddr u.dst) value u.mem).map fun mem =>
    { u with mem := mem, dst := u.dst + 1 }

end Uncomp

/-- The loop of a back-reference, over the bytes that are left. -/
def lz77Copy (dstAddr offset : ℕ) : ℕ → Uncomp D → Option (Uncomp D)
  | 0, u => some u
  | n + 1, u =>
      let value := memRead dev .byte (addU32 dstAddr (u.dst + 0x100000000 - offset)) u.mem
      (Uncomp.put dev dstAddr value.1 { u with mem := value.2 }).bind (lz77Copy dstAddr offset n)

/-- One token, by its flag. -/
def lz77Token (srcAddr dstAddr : ℕ) (flag : Bool) (u : Uncomp D) : Option (Uncomp D) :=
  if flag then
    let val1 := u.next dev srcAddr
    let val2 := val1.2.next dev srcAddr
    let size := 3 + ((val1.1 >>> 4) &&& 0xF).toNat
    let offset := 1 + ((val1.1 &&& 0xF).toNat <<< 8) + val2.1.toNat
    lz77Copy dev dstAddr offset size val2.2
  else
    let value := u.next dev srcAddr
    value.2.put dev dstAddr value.1

/-- The loop over the flags of a byte, and whether it returns. -/
def lz77Flags (srcAddr dstAddr size : ℕ) : ℕ → BitVec 16 → Uncomp D → Option (Uncomp D × Bool)
  | 0, _, u => some (u, false)
  | n + 1, flags, u =>
      if size ≤ u.dst then some (u, true)
      else
        let flags := flags <<< 1
        (lz77Token dev srcAddr dstAddr (flags.getLsbD 8) u).bind (lz77Flags srcAddr dstAddr size n flags)

/-- The outer loop. -/
def lz77Loop (srcAddr dstAddr size : ℕ) : ℕ → Uncomp D → Option (Uncomp D)
  | 0, _ => none
  | fuel + 1, u =>
      let flags := u.next dev srcAddr
      (lz77Flags dev srcAddr dstAddr size 8 (flags.1.setWidth 16) flags.2).bind fun r =>
        if r.2 then some r.1 else lz77Loop srcAddr dstAddr size fuel r.1

/-- `lz77_uncomp`, with the addresses in `r0` and `r1`. -/
def lz77Uncomp (fuel srcAddr dstAddr : ℕ) (s : GuestMem D) : Option (GuestMem D) :=
  let header := memRead dev .word srcAddr s
  (lz77Loop dev srcAddr dstAddr (header.1 >>> 8).toNat fuel ⟨header.2, 4, 0⟩).map Uncomp.mem

/-- The loop of a run. -/
def runlenFill (dstAddr : ℕ) (value : BitVec 8) : ℕ → Uncomp D → Option (Uncomp D)
  | 0, u => some u
  | n + 1, u => (u.put dev dstAddr value).bind (runlenFill dstAddr value n)

/-- The loop of a row of literal bytes. -/
def runlenCopy (srcAddr dstAddr : ℕ) : ℕ → Uncomp D → Option (Uncomp D)
  | 0, u => some u
  | n + 1, u =>
      let value := u.next dev srcAddr
      (value.2.put dev dstAddr value.1).bind (runlenCopy srcAddr dstAddr n)

/-- One token. -/
def runlenToken (srcAddr dstAddr : ℕ) (u : Uncomp D) : Option (Uncomp D) :=
  let flags := u.next dev srcAddr
  if flags.1.getLsbD 7 then
    let value := flags.2.next dev srcAddr
    runlenFill dev dstAddr value.1 ((flags.1 &&& 0x7F).toNat + 3) value.2
  else runlenCopy dev srcAddr dstAddr ((flags.1 &&& 0x7F).toNat + 1) flags.2

/-- The outer loop. -/
def runlenLoop (srcAddr dstAddr size : ℕ) : ℕ → Uncomp D → Option (Uncomp D)
  | 0, _ => none
  | fuel + 1, u =>
      if u.dst < size then
        (runlenToken dev srcAddr dstAddr u).bind (runlenLoop srcAddr dstAddr size fuel)
      else some u

/-- `runlen_uncomp`. -/
def runlenUncomp (fuel srcAddr dstAddr : ℕ) (s : GuestMem D) : Option (GuestMem D) :=
  let header := memRead dev .word srcAddr s
  (runlenLoop dev srcAddr dstAddr (header.1 >>> 8).toNat fuel ⟨header.2, 4, 0⟩).map Uncomp.mem

/-! ## The formats -/

/-- A format of compressed streams: the `k`-th token of a stream, and where the first `k` end. -/
structure StreamFormat where
  token : (ℕ → UInt8) → ℕ → Token UInt8
  stop : (ℕ → UInt8) → ℕ → ℕ

/-- A place in a stream of back-references: the flags of the group, and where it is read on. -/
structure LzCursor where
  flags : UInt8
  pos : ℕ

/-- A byte of flags stands in front of every eight tokens. -/
def LzCursor.enter (bytes : ℕ → UInt8) (k : ℕ) (c : LzCursor) : LzCursor :=
  if k % 8 = 0 then ⟨bytes c.pos, c.pos + 1⟩ else c

/-- Behind the first `k` tokens. -/
def lzCursor (bytes : ℕ → UInt8) : ℕ → LzCursor
  | 0 => ⟨0, 4⟩
  | k + 1 =>
      let c := (lzCursor bytes k).enter bytes k
      ⟨c.flags, c.pos + if c.flags.toBitVec.getMsbD (k % 8) then 2 else 1⟩

/-- Token `k`: a back-reference has its length in the upper four bits and its distance in the
others. -/
def lzToken (bytes : ℕ → UInt8) (k : ℕ) : Token UInt8 :=
  let c := (lzCursor bytes k).enter bytes k
  if c.flags.toBitVec.getMsbD (k % 8) then
    .copy ((bytes c.pos).toNat % 16 * 256 + (bytes (c.pos + 1)).toNat + 1)
      ((bytes c.pos).toNat / 16 + 3)
  else .literals [bytes c.pos]

/-- The format of `lz77_uncomp`. -/
def lzFormat : StreamFormat := ⟨lzToken, fun bytes k => (lzCursor bytes k).pos⟩

/-- Where run-length token `k` starts. -/
def runStart (bytes : ℕ → UInt8) : ℕ → ℕ
  | 0 => 4
  | k + 1 =>
      let pos := runStart bytes k
      if (bytes pos).toBitVec.getLsbD 7 then pos + 2 else pos + (bytes pos).toNat % 128 + 2

/-- Token `k`: a run of one byte, or a row of bytes. -/
def runToken (bytes : ℕ → UInt8) (k : ℕ) : Token UInt8 :=
  let pos := runStart bytes k
  if (bytes pos).toBitVec.getLsbD 7 then
    .literals (List.replicate ((bytes pos).toNat % 128 + 3) (bytes (pos + 1)))
  else .literals ((List.range ((bytes pos).toNat % 128 + 1)).map fun i => bytes (pos + 1 + i))

/-- The format of `runlen_uncomp`. -/
def runFormat : StreamFormat := ⟨runToken, runStart⟩

/-! ## A byte of output -/

section Output

variable {dev : MemDevices D} {s t u : GuestMem D} {addr : ℕ}

/-- The memories that output goes to. -/
def IsOutput (addr : ℕ) : Prop :=
  addr % 0x10000000 / 0x1000000 = 2 ∨ addr % 0x10000000 / 0x1000000 = 3 ∨
    addr % 0x10000000 / 0x1000000 = 6

/-- The place of a byte of output in the shared memory. -/
def outputSite (addr : ℕ) : ℕ :=
  let addr := addr % 0x10000000
  if addr / 0x1000000 = 6 then vramRegion.shmOffset + vramOffset addr else ramOffset addr

/-- A byte of a half word with one byte replaced. -/
theorem byteOf_replace (cur : BitVec 16) (value : BitVec 8) {shift : ℕ} (hshift : shift < 2) {i : ℕ}
    (hi : i < 2) :
    byteOf ((cur &&& ~~~(0xFF#16 <<< (shift * 8))) ||| (value.setWidth 16 <<< (shift * 8))) i =
      if i = shift then UInt8.ofBitVec value else byteOf cur i := by
  have hbyte : ∀ {n : ℕ} (v : BitVec n) (i : ℕ), byteOf v i = UInt8.ofBitVec (v.extractLsb' (i * 8) 8) := by
    intro n v i
    apply UInt8.toNat_inj.mp
    rw [toNat_byteOf]
    rw [UInt8.toNat_ofBitVec, BitVec.extractLsb'_toNat, Nat.shiftRight_eq_div_pow, Nat.mul_comm,
      pow_mul]
    rfl
  rw [hbyte, hbyte, ← apply_ite UInt8.ofBitVec]
  congr 1
  ext k hk
  interval_cases shift <;> interval_cases i <;> interval_cases k <;> simp

/-- The half word around a byte of output. -/
theorem alignedAddr_half (addr : ℕ) :
    alignedAddr .half (addr / 2 * 2) = addr % 0x10000000 / 2 * 2 := by
  unfold alignedAddr
  simp only [MemWidth.bytes]
  omega

theorem alignedAddr_byte (addr : ℕ) : alignedAddr .byte addr = addr % 0x10000000 := by
  unfold alignedAddr
  simp only [MemWidth.bytes]
  omega

/-- The half word lies where its byte does. -/
theorem IsOutput.half (h : IsOutput addr) :
    IsOutput (addr % 0x10000000 / 2 * 2) ∧
      outputSite (addr % 0x10000000 / 2 * 2) + addr % 2 = outputSite addr := by
  unfold IsOutput at h ⊢
  refine ⟨by omega, ?_⟩
  unfold outputSite ramOffset vramOffset
  simp only [ewramRegion, iwramRegion, vramRegion]
  split_ifs <;> omega

/-- Reads take the place of the output. -/
theorem readSite_output (h : TablesGood s) (width : MemWidth) (haddr : IsOutput addr)
    (hbus : addr < 0x10000000) : readSite s width addr = some (outputSite addr) := by
  unfold IsOutput at haddr
  unfold readSite outputSite
  simp only
  rw [Nat.mod_eq_of_lt hbus] at haddr ⊢
  split_ifs with hmapped hvram hvram
  · rw [getShmOffset_read_vram h hvram hmapped]
  · rw [getShmOffset_read_ram h (show IsRam addr from by unfold IsRam; omega) hmapped]
  · unfold slowSite
    simp only
    rw [if_neg (by omega), if_neg (by omega), if_neg (by omega), if_pos (by omega)]
  · unfold slowSite ramOffset
    simp only
    split_ifs <;> first | rfl | omega

/-- So do writes. -/
theorem writeSite_output (haddr : IsOutput addr) (hbus : addr < 0x10000000) :
    writeSite addr = some (outputSite addr) := by
  unfold IsOutput at haddr
  unfold writeSite outputSite
  simp only
  rw [Nat.mod_eq_of_lt hbus] at haddr ⊢
  split_ifs <;> first | rfl | omega


/-- What the output of a decoder leaves alone: everything but the contents and the jit. -/
structure SameBus (s t : GuestMem D) : Prop where
  openBus : t.biosOpenBus = s.biosOpenBus
  cart : t.cart = s.cart
  mmuRead : t.mmuRead = s.mmuRead
  gpControl : t.gpControl = s.gpControl
  devices : t.devices = s.devices
  rom : ∀ a, romRegion.shmOffset ≤ a → t.jit.shm a = s.jit.shm a

theorem SameBus.refl (s : GuestMem D) : SameBus s s := ⟨rfl, rfl, rfl, rfl, rfl, fun _ _ => rfl⟩

theorem SameBus.trans (h : SameBus s t) (h' : SameBus t u) : SameBus s u :=
  ⟨h'.openBus.trans h.openBus, h'.cart.trans h.cart, h'.mmuRead.trans h.mmuRead,
    h'.gpControl.trans h.gpControl, h'.devices.trans h.devices,
    fun a ha => (h'.rom a ha).trans (h.rom a ha)⟩

variable (dev) in
/-- A half word of output is written where it lies. -/
theorem memWrite_output (hinv : MemInv s) (haddr : IsOutput addr) (heven : addr % 2 = 0)
    (hbus : addr < 0x10000000) (value : MemWidth.half.Value) :
    ∃ t, memWrite dev .half addr value s = some t ∧ MemInv t ∧ SameBus s t ∧
      t.jit.shm = writeWord MemWidth.half.bytes s.jit.shm (outputSite addr) value := by
  have haligned : alignedAddr .half addr = addr :=
    alignedAddr_self (Nat.dvd_of_mod_eq_zero heven) hbus
  obtain ⟨t, ht⟩ := memWrite_isSome dev .half addr value s
  have hframe := memWrite_frame hinv.tables (by decide) ht
  have hplain : ¬ WritesDevices s (alignedAddr .half addr) := by
    rw [haligned]
    unfold WritesDevices IsPortAddr
    unfold IsOutput at haddr
    rintro (h | ⟨h, -⟩ | h | h) <;> omega
  obtain ⟨hcart, hread, hport⟩ := hframe.rom.resolve_right fun hopen =>
    hplain (.inr (.inr (.inr hopen.1)))
  have hsite := writeSite_output haddr hbus
  refine ⟨t, ht, hinv.memWrite ht, ⟨hframe.openBus, hcart, hread, hport,
    (memWrite_withDevices dev (by decide) hplain s.devices value).2 t ht, ?_⟩, ?_⟩
  · intro a ha
    apply hframe.shm
    intro changed hchanged
    exact .inr ((writeSite_end (dvd_alignedAddr .half addr) hchanged).trans ha)
  · by_cases hram : IsRam addr
    · rw [memWrite_shm_ram hinv.tables (haligned.symm ▸ hram) ht, haligned]
      unfold IsRam at hram
      unfold outputSite
      simp only
      rw [Nat.mod_eq_of_lt hbus, if_neg (by omega)]
    · -- video memory is never mapped for writing
      unfold IsOutput at haddr
      have hzero : s.jit.mmuWrite (alignedAddr .half addr / 4096) = 0 := by
        by_contra hmapped
        exact hram (haligned ▸ (getShmOffset_write hinv.tables hmapped).1)
      unfold IsRam at hram
      rw [memWrite_of_unmapped dev hzero, haligned, write_vram dev .half s value (by omega)] at ht
      obtain rfl := Option.some.inj ht
      unfold outputSite
      simp only
      rw [Nat.mod_eq_of_lt hbus, if_pos (by omega)]
      rfl


/-- A half word with one byte replaced is written byte by byte. -/
theorem writeWord_replace (mem : ℕ → UInt8) (site : ℕ) (value : BitVec 8) {i : ℕ} (hi : i < 2) :
    writeWord 2 mem site ((readWord 2 mem site &&& ~~~(0xFF#16 <<< (i * 8))) |||
        (value.setWidth 16 <<< (i * 8))) =
      Function.update mem (site + i) (UInt8.ofBitVec value) := by
  funext a
  by_cases ha : site ≤ a ∧ a < site + 2
  · obtain ⟨j, rfl⟩ := Nat.exists_eq_add_of_le ha.1
    have hj : j < 2 := by omega
    rw [writeWord_of_mem _ ha, Nat.add_sub_cancel_left, byteOf_replace _ _ hi hj,
      byteOf_readWord mem site hj, Function.update_apply]
    exact if_congr (by omega) rfl rfl
  · rw [writeWord_of_not _ ha, Function.update_of_ne (by omega)]

variable (dev) in
/-- **A byte of output** changes its place and nothing else. -/
theorem uncompWriteByte_spec (hinv : MemInv s) (haddr : IsOutput addr) (value : BitVec 8) :
    ∃ t, uncompWriteByte dev addr value s = some t ∧ MemInv t ∧ SameBus s t ∧
      t.jit.shm = Function.update s.jit.shm (outputSite addr) (UInt8.ofBitVec value) := by
  obtain ⟨hhalf, hsite⟩ := haddr.half
  have haligned := alignedAddr_half addr
  have hlt : addr % 0x10000000 / 2 * 2 < 0x10000000 := by omega
  have hcur : memRead dev .half (addr / 2 * 2) s =
      (s.load .half (outputSite (addr % 0x10000000 / 2 * 2)), s) :=
    memRead_of_site dev (haligned.symm ▸ readSite_output hinv.tables .half hhalf hlt)
  obtain ⟨t, ht, hinv', hbus, hshm⟩ := memWrite_output dev hinv hhalf (by omega) hlt
    ((readWord 2 s.jit.shm (outputSite (addr % 0x10000000 / 2 * 2)) &&&
      ~~~(0xFF#16 <<< (addr % 2 * 8))) ||| (value.setWidth 16 <<< (addr % 2 * 8)))
  have hself : alignedAddr .half (addr % 0x10000000 / 2 * 2) = addr % 0x10000000 / 2 * 2 :=
    alignedAddr_self (Nat.dvd_mul_left MemWidth.half.bytes _) hlt
  refine ⟨t, ?_, hinv', hbus, ?_⟩
  · rw [← ht]
    unfold uncompWriteByte
    simp only [hcur]
    exact memWrite_congr dev (haligned.trans hself.symm) _ s
  · rw [hshm, ← hsite]
    exact writeWord_replace _ _ value (Nat.mod_lt _ (by decide))

/-- A read that changes nothing, of a place that was not written. -/
theorem memRead_sameBus {width : MemWidth} (hbus : SameBus s u)
    (hkept : ∀ taken, readSite s width (alignedAddr width addr) = some taken →
      ∀ i < width.bytes, u.jit.shm (taken + i) = s.jit.shm (taken + i))
    (hread : (memRead dev width addr s).2 = s) :
    memRead dev width addr u = ((memRead dev width addr s).1, u) := by
  have hsites : readSite u width (alignedAddr width addr) =
      readSite s width (alignedAddr width addr) :=
    readSite_congr hbus.cart hbus.mmuRead fun _ => hbus.gpControl
  by_cases hdevice : ReadsDevices s width (alignedAddr width addr)
  · have hsame : { u with devices := s.devices } = u := by rw [← hbus.devices]
    rw [memRead_device hdevice hbus.cart hbus.mmuRead hbus.gpControl hbus.devices hbus.rom, hread,
      hsame]
  · cases hsite : readSite s width (alignedAddr width addr) with
    | none =>
        have hdevice' : ¬ ReadsDevices u width (alignedAddr width addr) := by
          have heeprom : u.cartridgeIsEeprom (alignedAddr width addr) =
              s.cartridgeIsEeprom (alignedAddr width addr) := by
            unfold GuestMem.cartridgeIsEeprom
            rw [hbus.cart]
          unfold ReadsDevices at hdevice ⊢
          rwa [hsites, heeprom]
        rw [memRead_plain (hsites.trans hsite) hdevice', memRead_plain hsite hdevice, hbus.openBus]
    | some taken =>
        rw [memRead_of_site dev (hsites.trans hsite), memRead_of_site dev hsite]
        have hload : u.load width taken = s.load width taken :=
          readWord_congr (hkept taken hsite)
        rw [hload]

end Output

/-! ## The buffers -/

section Buffers

variable {D : Type*} {dev : MemDevices D} {s : GuestMem D} {srcAddr dstAddr len size : ℕ}
  {out : List UInt8} {u : Uncomp D}

/-- The stream at an address, as it is read. -/
def streamBytes (dev : MemDevices D) (s : GuestMem D) (srcAddr i : ℕ) : UInt8 :=
  UInt8.ofBitVec (memRead dev .byte (addU32 srcAddr i) s).1

/-- The place of a byte of output. -/
def outputPlace (dstAddr j : ℕ) : ℕ := outputSite (addU32 dstAddr j)

/-- A stream of some length in memory that reads leave as it is, and room for some output apart
from it. -/
structure Buffers (dev : MemDevices D) (s : GuestMem D) (srcAddr dstAddr len size : ℕ) : Prop where
  header : (memRead dev .word srcAddr s).2 = s
  readable : ∀ i, 4 ≤ i → i < len → (memRead dev .byte (addU32 srcAddr i) s).2 = s
  output : ∀ j < size, IsOutput (addU32 dstAddr j)
  apart : ∀ i, 4 ≤ i → i < len → ∀ j < size,
    readSite s .byte (alignedAddr .byte (addU32 srcAddr i)) ≠ some (outputPlace dstAddr j)

/-- The memory with an output in its place. -/
structure Decoded (s : GuestMem D) (dstAddr : ℕ) (out : List UInt8) (u : Uncomp D) : Prop where
  inv : MemInv u.mem
  bus : SameBus s u.mem
  dst : u.dst = out.length
  shm : u.mem.jit.shm = placeBytes (outputPlace dstAddr) s.jit.shm out

/-- Bytes of output that are close have places of their own: the images of a memory are farther
apart than a back-reference reaches. -/
theorem outputPlace_ne {i j : ℕ} (hlt : i < j) (hnear : j < i + 0x8000) :
    outputPlace dstAddr j ≠ outputPlace dstAddr i := by
  unfold outputPlace outputSite addU32 ramOffset vramOffset
  simp only [ewramRegion, iwramRegion, vramRegion]
  split_ifs <;> omega

theorem byteOf_zero (value : BitVec 8) : byteOf value 0 = UInt8.ofBitVec value := by
  apply UInt8.toNat_inj.mp
  rw [toNat_byteOf, pow_zero, Nat.div_one, UInt8.toNat_ofBitVec]
  exact Nat.mod_eq_of_lt value.isLt

/-- A byte is loaded as it lies in memory. -/
theorem ofBitVec_load (s : GuestMem D) (offset : ℕ) :
    UInt8.ofBitVec (s.load .byte offset) = s.jit.shm offset :=
  (byteOf_zero (s.load .byte offset)).symm.trans (byteOf_readWord s.jit.shm offset Nat.one_pos)

/-- The next byte of the stream is as it was. -/
theorem Decoded.next (h : Decoded s dstAddr out u) (hbuf : Buffers dev s srcAddr dstAddr len size)
    (hout : out.length ≤ size) (hpos : 4 ≤ u.src) (hlen : u.src < len) :
    ∃ value mem, u.next dev srcAddr = (value, ⟨mem, u.src + 1, u.dst⟩) ∧
      UInt8.ofBitVec value = streamBytes dev s srcAddr u.src ∧
      Decoded s dstAddr out ⟨mem, u.src + 1, u.dst⟩ := by
  have hread : memRead dev .byte (addU32 srcAddr u.src) u.mem =
      ((memRead dev .byte (addU32 srcAddr u.src) s).1, u.mem) := memRead_sameBus h.bus
    (by
      intro taken htaken i hi
      obtain rfl : i = 0 := Nat.lt_one_iff.mp hi
      rw [h.shm]
      apply placeBytes_of_ne
      intro j hj hsite
      refine hbuf.apart u.src hpos hlen j (hj.trans_le hout) ?_
      rw [htaken, hsite]
      rfl)
    (hbuf.readable u.src hpos hlen)
  refine ⟨_, _, ?_, rfl, h.inv, h.bus, h.dst, h.shm⟩
  unfold Uncomp.next
  rw [hread]

variable (dev) in
/-- The next byte of the output goes to its place. -/
theorem Decoded.put (h : Decoded s dstAddr out u)
    (hplace : IsOutput (addU32 dstAddr out.length)) (value : BitVec 8) :
    ∃ u', u.put dev dstAddr value = some u' ∧ u'.src = u.src ∧
      Decoded s dstAddr (out ++ [UInt8.ofBitVec value]) u' := by
  obtain ⟨t, ht, hinv, hbus, hshm⟩ := uncompWriteByte_spec dev h.inv hplace value
  refine ⟨⟨t, u.src, u.dst + 1⟩, ?_, rfl, hinv, h.bus.trans hbus, ?_, ?_⟩
  · unfold Uncomp.put
    rw [h.dst, ht]
    rfl
  · rw [List.length_append, h.dst]
    rfl
  · rw [placeBytes_snoc, ← h.shm, hshm]
    rfl

variable (dev) in
/-- A byte that was put out is read back. -/
theorem Decoded.back (h : Decoded s dstAddr out u) {offset : ℕ} (hpos : 0 < offset)
    (hreach : offset ≤ out.length) (hnear : offset ≤ 0x1000)
    (hplaces : ∀ j < out.length, IsOutput (addU32 dstAddr j)) :
    ∃ value, memRead dev .byte (addU32 dstAddr (u.dst + 0x100000000 - offset)) u.mem =
        (value, u.mem) ∧ out[out.length - offset]? = some (UInt8.ofBitVec value) := by
  have hindex : out.length - offset < out.length := by omega
  have haddr : alignedAddr .byte (addU32 dstAddr (u.dst + 0x100000000 - offset)) =
      addU32 dstAddr (out.length - offset) % 0x10000000 := by
    rw [alignedAddr_byte, h.dst]
    unfold addU32
    omega
  have hplace := hplaces _ hindex
  have hsite : readSite u.mem .byte
      (alignedAddr .byte (addU32 dstAddr (u.dst + 0x100000000 - offset))) =
        some (outputPlace dstAddr (out.length - offset)) := by
    rw [haddr, readSite_output h.inv.tables .byte]
    · unfold outputPlace outputSite
      simp only
      rw [Nat.mod_mod]
    · unfold IsOutput at hplace ⊢
      rwa [Nat.mod_mod]
    · exact Nat.mod_lt _ (by decide)
  refine ⟨_, memRead_of_site dev hsite, ?_⟩
  rw [List.getElem?_eq_getElem hindex, Option.some.injEq]
  have hstored := @placeBytes_site _ (outputPlace dstAddr) s.jit.shm _ _ _
    (List.getElem?_eq_getElem hindex) fun j hj hlt => outputPlace_ne hj (by omega)
  rw [← h.shm] at hstored
  rw [← hstored]
  exact (ofBitVec_load _ _).symm

/-! ## Tokens -/

variable (dev) in
/-- **A back-reference** copies what was put out. -/
theorem Decoded.copy {offset : ℕ} (hpos : 0 < offset) (hnear : offset ≤ 0x1000) (n : ℕ)
    (h : Decoded s dstAddr out u) (hreach : offset ≤ out.length)
    (hplaces : ∀ j < out.length + n, IsOutput (addU32 dstAddr j)) :
    ∃ u', lz77Copy dev dstAddr offset n u = some u' ∧ u'.src = u.src ∧
      Decoded s dstAddr (copyBack offset n out) u' := by
  induction n generalizing out u with
  | zero => exact ⟨u, rfl, rfl, h⟩
  | succ n ih =>
      obtain ⟨value, hread, hvalue⟩ := h.back dev hpos hreach hnear
        fun j hj => hplaces j (by omega)
      obtain ⟨u₁, hput, hsrc, h₁⟩ := h.put dev (hplaces _ (by omega)) value
      obtain ⟨u₂, hrest, hsrc₂, h₂⟩ := ih h₁
        (by rw [List.length_append]; omega)
        (fun j hj => hplaces j (by rw [List.length_append, List.length_singleton] at hj; omega))
      refine ⟨u₂, ?_, hsrc₂.trans hsrc, ?_⟩
      · rw [lz77Copy]
        simp only [hread]
        rw [hput]
        exact hrest
      · rw [copyBack, hvalue]
        exact h₂

variable (dev) in
/-- **A run** is put out. -/
theorem Decoded.fill (value : BitVec 8) (n : ℕ) (h : Decoded s dstAddr out u)
    (hplaces : ∀ j < out.length + n, IsOutput (addU32 dstAddr j)) :
    ∃ u', runlenFill dev dstAddr value n u = some u' ∧ u'.src = u.src ∧
      Decoded s dstAddr (out ++ List.replicate n (UInt8.ofBitVec value)) u' := by
  induction n generalizing out u with
  | zero => exact ⟨u, rfl, rfl, by simpa using h⟩
  | succ n ih =>
      obtain ⟨u₁, hput, hsrc, h₁⟩ := h.put dev (hplaces _ (by omega)) value
      obtain ⟨u₂, hrest, hsrc₂, h₂⟩ := ih h₁
        fun j hj => hplaces j (by rw [List.length_append, List.length_singleton] at hj; omega)
      refine ⟨u₂, ?_, hsrc₂.trans hsrc, ?_⟩
      · rw [runlenFill, hput]
        exact hrest
      · rwa [List.append_assoc, List.singleton_append, ← List.replicate_succ] at h₂

/-- **A row of literal bytes** is copied from the stream. -/
theorem Decoded.row (hbuf : Buffers dev s srcAddr dstAddr len size) (n : ℕ)
    (h : Decoded s dstAddr out u) (hpos : 4 ≤ u.src) (hlen : u.src + n ≤ len)
    (hsize : out.length + n ≤ size) :
    ∃ u', runlenCopy dev srcAddr dstAddr n u = some u' ∧ u'.src = u.src + n ∧
      Decoded s dstAddr
        (out ++ (List.range n).map fun i => streamBytes dev s srcAddr (u.src + i)) u' := by
  induction n generalizing out u with
  | zero => exact ⟨u, rfl, rfl, by simpa using h⟩
  | succ n ih =>
      obtain ⟨value, mem, hnext, hvalue, h₀⟩ := h.next hbuf (by omega) hpos (by omega)
      obtain ⟨u₁, hput, hsrc, h₁⟩ := h₀.put dev (hbuf.output _ (by omega)) value
      have hsrc : u₁.src = u.src + 1 := hsrc
      obtain ⟨u₂, hrest, hsrc₂, h₂⟩ := ih h₁ (by omega) (by omega)
        (by rw [List.length_append, List.length_singleton]; omega)
      refine ⟨u₂, ?_, by omega, ?_⟩
      · rw [runlenCopy]
        simp only [hnext]
        rw [hput]
        exact hrest
      · rw [List.range_succ_eq_map, List.map_cons, List.map_map, Nat.add_zero, ← hvalue]
        rw [List.append_assoc, List.singleton_append, hsrc] at h₂
        simpa [Function.comp_def, Nat.add_assoc, Nat.add_comm 1] using h₂

end Buffers

section Lz

variable {D : Type*} {dev : MemDevices D} {s : GuestMem D} {srcAddr dstAddr len size : ℕ}
  {u : Uncomp D} {bytes : ℕ → UInt8} {k : ℕ}

/-! ## Back-references -/

@[simp] theorem enter_flags_succ (bytes : ℕ → UInt8) (k : ℕ) :
    (lzCursor bytes (k + 1)).flags = ((lzCursor bytes k).enter bytes k).flags := rfl

/-- Where a token is read from. -/
theorem enter_pos (bytes : ℕ → UInt8) (k : ℕ) (c : LzCursor) :
    (c.enter bytes k).pos = c.pos + if k % 8 = 0 then 1 else 0 := by
  unfold LzCursor.enter
  split_ifs <;> rfl

/-- Tokens follow one another. -/
theorem lzCursor_pos_lt (bytes : ℕ → UInt8) (k : ℕ) :
    ((lzCursor bytes k).enter bytes k).pos < (lzCursor bytes (k + 1)).pos := by
  rw [lzCursor]
  simp only
  split_ifs <;> omega

theorem four_le_lzCursor (bytes : ℕ → UInt8) (k : ℕ) : 4 ≤ (lzCursor bytes k).pos := by
  induction k with
  | zero => exact le_rfl
  | succ k ih =>
      have hlt := lzCursor_pos_lt bytes k
      rw [enter_pos] at hlt
      omega

theorem lzCursor_pos_mono (bytes : ℕ → UInt8) {k n : ℕ} (h : k ≤ n) :
    (lzCursor bytes k).pos ≤ (lzCursor bytes n).pos := by
  induction n with
  | zero =>
      obtain rfl := Nat.le_zero.1 h
      exact le_rfl
  | succ n ih =>
      rcases Nat.le_succ_iff.1 h with hk | rfl
      · have hlt := lzCursor_pos_lt bytes n
        rw [enter_pos] at hlt
        have := ih hk
        omega
      · exact le_rfl

/-- The length in a back-reference. -/
theorem lzLength (value : BitVec 8) :
    3 + ((value >>> 4) &&& 0xF).toNat = (UInt8.ofBitVec value).toNat / 16 + 3 := by
  have hand : ((value >>> 4) &&& 0xF).toNat = value.toNat / 16 % 16 := by
    rw [BitVec.toNat_and, BitVec.toNat_ushiftRight, Nat.shiftRight_eq_div_pow]
    exact Nat.and_two_pow_sub_one_eq_mod _ 4
  have hlt := value.isLt
  rw [hand, UInt8.toNat_ofBitVec]
  omega

/-- The distance in a back-reference. -/
theorem lzDistance (value value' : BitVec 8) :
    1 + ((value &&& 0xF).toNat <<< 8) + value'.toNat =
      (UInt8.ofBitVec value).toNat % 16 * 256 + (UInt8.ofBitVec value').toNat + 1 := by
  have hand : (value &&& 0xF).toNat = value.toNat % 16 := by
    rw [BitVec.toNat_and]
    exact Nat.and_two_pow_sub_one_eq_mod _ 4
  rw [hand, UInt8.toNat_ofBitVec, UInt8.toNat_ofBitVec, Nat.shiftLeft_eq]
  omega

/-- **A token** of the stream is put out. -/
theorem Decoded.lzToken {out : List UInt8}
    (hbuf : Buffers dev s srcAddr dstAddr len size) (h : Decoded s dstAddr out u)
    (hbytes : bytes = streamBytes dev s srcAddr)
    (hsrc : u.src = ((lzCursor bytes k).enter bytes k).pos)
    (hreach : (AdvancedSlop.lzToken bytes k).Reaches out)
    (hlen : (lzCursor bytes (k + 1)).pos ≤ len)
    (hsize : ((AdvancedSlop.lzToken bytes k).emit out).length ≤ size) :
    ∃ u', lz77Token dev srcAddr dstAddr
        (((lzCursor bytes k).enter bytes k).flags.toBitVec.getMsbD (k % 8)) u = some u' ∧
      u'.src = (lzCursor bytes (k + 1)).pos ∧
      Decoded s dstAddr ((AdvancedSlop.lzToken bytes k).emit out) u' := by
  have hstart := four_le_lzCursor bytes k
  have hpos := enter_pos bytes k (lzCursor bytes k)
  have houtput := Token.length_emit hreach
  have hroom : out.length ≤ size := by omega
  rw [lzCursor] at hlen ⊢
  unfold AdvancedSlop.lzToken at hreach hsize houtput ⊢
  simp only at hlen hreach hsize houtput ⊢
  generalize (lzCursor bytes k).enter bytes k = c at *
  unfold lz77Token
  cases hflag : c.flags.toBitVec.getMsbD (k % 8) with
  | true =>
      rw [hflag] at hlen hreach hsize houtput
      simp only [if_true] at hlen hreach hsize houtput ⊢
      obtain ⟨val1, mem₁, hnext₁, hval1, h₁⟩ := h.next hbuf hroom (by omega) (by omega)
      obtain ⟨val2, mem₂, hnext₂, hval2, h₂⟩ := h₁.next hbuf hroom
        (show 4 ≤ u.src + 1 by omega) (show u.src + 1 < len by omega)
      simp only [hnext₁, hnext₂]
      rw [← hbytes, hsrc] at hval1
      rw [← hbytes, hsrc] at hval2
      rw [lzLength, lzDistance, hval1, hval2]
      obtain ⟨u', hcopy, hsrc', h'⟩ := h₂.copy dev hreach.1
        (by have := (bytes (c.pos + 1)).toNat_lt; omega) _ hreach.2
        fun j hj => hbuf.output j (by
          rw [houtput] at hsize
          exact hj.trans_le hsize)
      exact ⟨u', hcopy, by rw [hsrc', hsrc], h'⟩
  | false =>
      rw [hflag] at hlen hreach hsize houtput
      simp only [Bool.false_eq_true, if_false] at hlen hreach hsize houtput ⊢
      obtain ⟨value, mem, hnext, hvalue, h₁⟩ := h.next hbuf hroom (by omega) (by omega)
      have hone : out.length < size := by
        rw [houtput] at hsize
        exact hsize
      obtain ⟨u', hput, hsrc', h'⟩ := h₁.put dev (hbuf.output _ hone) value
      simp only [hnext]
      refine ⟨u', hput, by rw [hsrc', hsrc], ?_⟩
      rw [← hbytes, hsrc] at hvalue
      rw [hvalue] at h'
      exact h'

/-- What a run needs of its stream: its first `n` tokens are the shortest prefix of the declared
size, and stay within the output. -/
structure Expands (token : ℕ → Token UInt8) (declared n : ℕ) : Prop where
  shortest : Shortest token declared n
  reaches : ∀ k < n, (token k).Reaches (expand token k)

/-- The expansion of a longer prefix is longer. -/
theorem length_expand_le (token : ℕ → Token UInt8) {k n : ℕ} (h : k ≤ n) :
    (expand token k).length ≤ (expand token n).length :=
  (expand_take token h).length_le

/-- The flag of the first token that is left. -/
theorem getLsbD_flags (flags : UInt8) {n : ℕ} (hn : n < 8) :
    ((flags.toBitVec.setWidth 16 <<< (7 - n)) <<< 1).getLsbD 8 = flags.toBitVec.getMsbD (7 - n) := by
  rw [← BitVec.shiftLeft_add, BitVec.getLsbD_shiftLeft, BitVec.getLsbD_setWidth, BitVec.getMsbD]
  have hlow : ¬ 8 < 7 - n + 1 := by omega
  have hindex : 8 - (7 - n + 1) = 8 - 1 - (7 - n) := by omega
  simp only [hlow, hindex, show 8 - 1 - (7 - n) < 16 by omega, show 7 - n < 8 by omega]
  simp

/-- **The loop over a byte of flags**: it returns once the size is reached, or goes on behind its
tokens. -/
theorem lz77Flags_spec {declared total : ℕ} (hbytes : bytes = streamBytes dev s srcAddr)
    (hexpands : Expands (lzToken bytes) declared total)
    (hbuf : Buffers dev s srcAddr dstAddr (lzCursor bytes total).pos
      (expand (lzToken bytes) total).length) (n : ℕ) (hn : n ≤ 8) (flags : BitVec 16)
    (hk : (k + n) % 8 = 0) (htotal : k ≤ total)
    (h : Decoded s dstAddr (expand (lzToken bytes) k) u)
    (hsrc : u.src = (lzCursor bytes k).pos + if n = 8 then 1 else 0)
    (hflags : 0 < n → flags =
      ((lzCursor bytes k).enter bytes k).flags.toBitVec.setWidth 16 <<< (8 - n)) :
    ∃ u' done, lz77Flags dev srcAddr dstAddr declared n flags u = some (u', done) ∧
      if done then Decoded s dstAddr (expand (lzToken bytes) total) u'
      else k + n ≤ total ∧ Decoded s dstAddr (expand (lzToken bytes) (k + n)) u' ∧
        u'.src = (lzCursor bytes (k + n)).pos := by
  induction n generalizing k u flags with
  | zero => exact ⟨u, false, rfl, htotal, h, hsrc⟩
  | succ n ih =>
      rw [lz77Flags]
      by_cases hdone : declared ≤ u.dst
      · -- the shortest prefix ends here
        have hall : k = total := by
          by_contra hne
          have hshort := hexpands.shortest.shortest k (by omega)
          rw [h.dst] at hdone
          omega
        subst hall
        exact ⟨u, true, if_pos hdone, h⟩
      · have hlt : k < total := by
          rcases Nat.lt_or_ge k total with hlt | hge
          · exact hlt
          · obtain rfl := Nat.le_antisymm htotal hge
            rw [h.dst] at hdone
            exact absurd hexpands.shortest.reaches hdone
        have hmod : k % 8 = 7 - n := by omega
        have hstart : u.src = ((lzCursor bytes k).enter bytes k).pos := by
          rw [hsrc, enter_pos]
          congr 1
          exact if_congr (by omega) rfl rfl
        have hbit : (flags <<< 1).getLsbD 8 =
            ((lzCursor bytes k).enter bytes k).flags.toBitVec.getMsbD (k % 8) := by
          rw [hflags (Nat.succ_pos n), hmod, show 8 - (n + 1) = 7 - n by omega]
          exact getLsbD_flags _ (by omega)
        obtain ⟨u₁, htoken, hsrc₁, h₁⟩ := h.lzToken hbuf hbytes hstart (hexpands.reaches k hlt)
          (lzCursor_pos_mono bytes hlt) (length_expand_le (lzToken bytes) hlt)
        rw [if_neg hdone]
        simp only [hbit, htoken, Option.bind_some]
        have hnext : k + 1 + n = k + (n + 1) := by omega
        rw [← hnext]
        refine ih (by omega) _ (by omega) hlt h₁ ?_ fun hpos => ?_
        · rw [hsrc₁, if_neg (by omega)]
          rfl
        · -- the tokens that are left have the same flags
          have hsame : (lzCursor bytes (k + 1)).enter bytes (k + 1) = lzCursor bytes (k + 1) :=
            if_neg (by omega)
          rw [hsame, enter_flags_succ, hflags (Nat.succ_pos n), ← BitVec.shiftLeft_add]
          congr 1
          omega

/-- **The outer loop** ends, and leaves the expansion. -/
theorem lz77Loop_spec {declared total : ℕ} (hbytes : bytes = streamBytes dev s srcAddr)
    (hexpands : Expands (lzToken bytes) declared total)
    (hbuf : Buffers dev s srcAddr dstAddr (lzCursor bytes total).pos
      (expand (lzToken bytes) total).length) (fuel : ℕ) (hfuel : total < k + fuel)
    (hk : k % 8 = 0) (htotal : k ≤ total)
    (h : Decoded s dstAddr (expand (lzToken bytes) k) u) (hsrc : u.src = (lzCursor bytes k).pos) :
    ∃ u', lz77Loop dev srcAddr dstAddr declared fuel u = some u' ∧
      u'.mem.jit.shm =
        placeBytes (outputPlace dstAddr) s.jit.shm (expand (lzToken bytes) total) := by
  induction fuel generalizing k u with
  | zero => omega
  | succ fuel ih =>
      rw [lz77Loop]
      rcases Nat.lt_or_ge k total with hlt | hge
      · obtain ⟨value, mem, hnext, hvalue, h₁⟩ := h.next hbuf (length_expand_le _ htotal)
          (hsrc ▸ four_le_lzCursor bytes k) (by
            have hpos := lzCursor_pos_lt bytes k
            have hmono := lzCursor_pos_mono bytes (show k + 1 ≤ total from hlt)
            rw [enter_pos] at hpos
            omega)
        rw [← hbytes, hsrc] at hvalue
        obtain ⟨u₁, done, hflags, hspec⟩ := lz77Flags_spec hbytes hexpands hbuf 8 le_rfl
          (value.setWidth 16) (by omega) htotal h₁ (by rw [if_pos rfl]; exact congrArg (· + 1) hsrc)
          (fun _ => by
            rw [Nat.sub_self, BitVec.shiftLeft_zero, LzCursor.enter, if_pos hk]
            simp only
            rw [← hvalue])
        simp only [hnext, hflags, Option.bind_some]
        cases done with
        | true => exact ⟨u₁, rfl, hspec.shm⟩
        | false =>
            obtain ⟨hle, h₂, hsrc₂⟩ := hspec
            exact ih (by omega) (by omega) hle h₂ hsrc₂
      · -- one more byte is read, and not looked at
        obtain rfl := Nat.le_antisymm htotal hge
        obtain ⟨devices, hdevices⟩ :=
          memRead_state dev .byte (addU32 srcAddr u.src) u.mem
        have hdone : declared ≤ u.dst := by
          rw [h.dst]
          exact hexpands.shortest.reaches
        have hreturns : ∀ flags, lz77Flags dev srcAddr dstAddr declared 8 flags
            (u.next dev srcAddr).2 = some ((u.next dev srcAddr).2, true) :=
          fun flags => if_pos hdone
        refine ⟨(u.next dev srcAddr).2, ?_, ?_⟩
        · simp only [hreturns, Option.bind_some]
          rfl
        · rw [← h.shm]
          unfold Uncomp.next
          simp only [hdevices]

end Lz

/-! ## Runs -/

section Run

variable {D : Type*} {dev : MemDevices D} {s : GuestMem D} {srcAddr dstAddr len size : ℕ}
  {u : Uncomp D} {bytes : ℕ → UInt8} {k : ℕ}

/-- Tokens follow one another. -/
theorem runStart_add_two_le (bytes : ℕ → UInt8) (k : ℕ) :
    runStart bytes k + 2 ≤ runStart bytes (k + 1) := by
  rw [runStart]
  split_ifs <;> omega

theorem four_le_runStart (bytes : ℕ → UInt8) (k : ℕ) : 4 ≤ runStart bytes k := by
  induction k with
  | zero => exact le_rfl
  | succ k ih =>
      have hnext := runStart_add_two_le bytes k
      omega

theorem runStart_mono (bytes : ℕ → UInt8) {k n : ℕ} (h : k ≤ n) :
    runStart bytes k ≤ runStart bytes n :=
  monotone_nat_of_le_succ (fun k => (Nat.le_add_right _ 2).trans (runStart_add_two_le bytes k)) h

/-- The length in a token. -/
theorem runLength (value : BitVec 8) :
    (value &&& 0x7F).toNat = (UInt8.ofBitVec value).toNat % 128 := by
  rw [BitVec.toNat_and, UInt8.toNat_ofBitVec]
  exact Nat.and_two_pow_sub_one_eq_mod _ 7

/-- **A token** of the stream is put out. -/
theorem Decoded.runToken {out : List UInt8}
    (hbuf : Buffers dev s srcAddr dstAddr len size) (h : Decoded s dstAddr out u)
    (hbytes : bytes = streamBytes dev s srcAddr) (hsrc : u.src = runStart bytes k)
    (hlen : runStart bytes (k + 1) ≤ len)
    (hsize : ((AdvancedSlop.runToken bytes k).emit out).length ≤ size) :
    ∃ u', runlenToken dev srcAddr dstAddr u = some u' ∧
      u'.src = runStart bytes (k + 1) ∧
      Decoded s dstAddr ((AdvancedSlop.runToken bytes k).emit out) u' := by
  have hstart := four_le_runStart bytes k
  have hnext := runStart_add_two_le bytes k
  have hroom : out.length ≤ size := ((Token.prefix_emit _ out).length_le).trans hsize
  obtain ⟨flags, mem, hflags, hvalue, h₁⟩ := h.next hbuf hroom (by omega) (by omega)
  rw [← hbytes, hsrc] at hvalue
  unfold runlenToken
  simp only [hflags]
  rw [runStart] at hlen ⊢
  unfold AdvancedSlop.runToken at hsize ⊢
  simp only at hlen hsize ⊢
  rw [← hvalue] at hlen hsize ⊢
  cases hbit : flags.getLsbD 7 with
  | true =>
      simp only [hbit, if_true] at hlen hsize ⊢
      obtain ⟨value, mem₂, hread, hvalue₂, h₂⟩ := h₁.next hbuf hroom
        (show 4 ≤ u.src + 1 by omega) (show u.src + 1 < len by omega)
      simp only [hread]
      rw [runLength]
      obtain ⟨u', hfill, hsrc', h'⟩ := h₂.fill dev value
        ((UInt8.ofBitVec flags).toNat % 128 + 3) fun j hj => hbuf.output j (by
          rw [Token.emit, List.length_append, List.length_replicate] at hsize
          exact hj.trans_le hsize)
      refine ⟨u', hfill, by rw [hsrc', hsrc], ?_⟩
      rw [← hbytes, hsrc] at hvalue₂
      rw [hvalue₂] at h'
      exact h'
  | false =>
      simp only [hbit, Bool.false_eq_true, if_false] at hlen hsize ⊢
      rw [runLength]
      obtain ⟨u', hcopy, hsrc', h'⟩ := h₁.row hbuf ((UInt8.ofBitVec flags).toNat % 128 + 1)
        (show 4 ≤ u.src + 1 by omega)
        (show u.src + 1 + ((UInt8.ofBitVec flags).toNat % 128 + 1) ≤ len by omega) (by
          rw [Token.emit, List.length_append, List.length_map, List.length_range] at hsize
          exact hsize)
      refine ⟨u', hcopy, ?_, ?_⟩
      · rw [hsrc']
        show u.src + 1 + _ = _
        omega
      · rw [← hbytes] at h'
        simp only [hsrc] at h'
        exact h'

/-- **The outer loop** ends, and leaves the expansion. -/
theorem runlenLoop_spec {declared total : ℕ} (hbytes : bytes = streamBytes dev s srcAddr)
    (hexpands : Expands (runToken bytes) declared total)
    (hbuf : Buffers dev s srcAddr dstAddr (runStart bytes total)
      (expand (runToken bytes) total).length) (fuel : ℕ) (hfuel : total < k + fuel)
    (htotal : k ≤ total) (h : Decoded s dstAddr (expand (runToken bytes) k) u)
    (hsrc : u.src = runStart bytes k) :
    ∃ u', runlenLoop dev srcAddr dstAddr declared fuel u = some u' ∧
      u'.mem.jit.shm =
        placeBytes (outputPlace dstAddr) s.jit.shm (expand (runToken bytes) total) := by
  induction fuel generalizing k u with
  | zero => omega
  | succ fuel ih =>
      rw [runlenLoop]
      rcases Nat.lt_or_ge k total with hlt | hge
      · have hshort := hexpands.shortest.shortest k hlt
        obtain ⟨u₁, htoken, hsrc₁, h₁⟩ := h.runToken hbuf hbytes hsrc (runStart_mono bytes hlt)
          (length_expand_le (runToken bytes) hlt)
        rw [if_pos (by rw [h.dst]; exact hshort), htoken, Option.bind_some]
        exact ih (by omega) hlt h₁ hsrc₁
      · obtain rfl := Nat.le_antisymm htotal hge
        have hreached := hexpands.shortest.reaches
        rw [if_neg (by rw [h.dst]; omega)]
        exact ⟨u, rfl, h.shm⟩

end Run

/-! ## The end of a run -/

section Ends

variable {D : Type*} (dev : MemDevices D) (srcAddr dstAddr declared : ℕ)

/-- A byte is always put out. -/
theorem put_isSome (value : BitVec 8) (u : Uncomp D) :
    ∃ u', u.put dev dstAddr value = some u' ∧ u'.dst = u.dst + 1 := by
  obtain ⟨t, ht⟩ : ∃ t, uncompWriteByte dev (addU32 dstAddr u.dst) value u.mem = some t :=
    memWrite_isSome dev .half _ _ _
  refine ⟨⟨t, u.src, u.dst + 1⟩, ?_, rfl⟩
  unfold Uncomp.put
  rw [ht]
  rfl

theorem lz77Copy_isSome (offset n : ℕ) (u : Uncomp D) :
    ∃ u', lz77Copy dev dstAddr offset n u = some u' ∧ u'.dst = u.dst + n := by
  induction n generalizing u with
  | zero => exact ⟨u, rfl, rfl⟩
  | succ n ih =>
      rw [lz77Copy]
      generalize memRead dev .byte (addU32 dstAddr (u.dst + 0x100000000 - offset)) u.mem = value
      obtain ⟨u₁, hput, hdst⟩ := put_isSome dev dstAddr value.1 { u with mem := value.2 }
      obtain ⟨u₂, hrest, hdst₂⟩ := ih u₁
      have hdst : u₁.dst = u.dst + 1 := hdst
      refine ⟨u₂, ?_, by omega⟩
      simp only [hput, Option.bind_some]
      exact hrest

theorem lz77Token_isSome (flag : Bool) (u : Uncomp D) :
    ∃ u', lz77Token dev srcAddr dstAddr flag u = some u' ∧ u.dst < u'.dst := by
  unfold lz77Token
  cases flag with
  | true =>
      obtain ⟨u', hcopy, hdst⟩ := lz77Copy_isSome dev dstAddr
        (1 + (((u.next dev srcAddr).1 &&& 0xF).toNat <<< 8) +
          ((u.next dev srcAddr).2.next dev srcAddr).1.toNat)
        (3 + (((u.next dev srcAddr).1 >>> 4) &&& 0xF).toNat)
        ((u.next dev srcAddr).2.next dev srcAddr).2
      refine ⟨u', hcopy, ?_⟩
      have hsame : ((u.next dev srcAddr).2.next dev srcAddr).2.dst = u.dst := rfl
      omega
  | false =>
      obtain ⟨u', hput, hdst⟩ := put_isSome dev dstAddr (u.next dev srcAddr).1
        (u.next dev srcAddr).2
      refine ⟨u', hput, ?_⟩
      have hsame : (u.next dev srcAddr).2.dst = u.dst := rfl
      omega

theorem lz77Flags_isSome (n : ℕ) (flags : BitVec 16) (u : Uncomp D) :
    ∃ u' done, lz77Flags dev srcAddr dstAddr declared n flags u = some (u', done) ∧
      (done = false → u.dst + n ≤ u'.dst ∧ (0 < n → u.dst < declared)) := by
  induction n generalizing flags u with
  | zero => exact ⟨u, false, rfl, fun _ => ⟨le_rfl, fun h => absurd h (lt_irrefl 0)⟩⟩
  | succ n ih =>
      rw [lz77Flags]
      split_ifs with hdone
      · exact ⟨u, true, rfl, fun h => absurd h (by decide)⟩
      · obtain ⟨u₁, htoken, hdst⟩ := lz77Token_isSome dev srcAddr dstAddr
          ((flags <<< 1).getLsbD 8) u
        obtain ⟨u₂, done, hrest, hspec⟩ := ih (flags <<< 1) u₁
        refine ⟨u₂, done, ?_, fun hfalse => ⟨?_, fun _ => Nat.lt_of_not_le hdone⟩⟩
        · simp only [htoken, Option.bind_some]
          exact hrest
        · have := (hspec hfalse).1
          omega

/-- The loop ends, whatever the stream. -/
theorem lz77Loop_ends (m : ℕ) (u : Uncomp D) (hm : declared ≤ u.dst + m) :
    ∃ u', ∀ fuel, m < fuel → lz77Loop dev srcAddr dstAddr declared fuel u = some u' := by
  induction m generalizing u with
  | zero =>
      refine ⟨(u.next dev srcAddr).2, fun fuel hfuel => ?_⟩
      obtain ⟨fuel, rfl⟩ := Nat.exists_eq_succ_of_ne_zero (Nat.pos_iff_ne_zero.1 hfuel)
      have hreturns : ∀ flags, lz77Flags dev srcAddr dstAddr declared 8 flags
          (u.next dev srcAddr).2 = some ((u.next dev srcAddr).2, true) := fun flags => if_pos hm
      rw [Nat.succ_eq_add_one, lz77Loop]
      simp only [hreturns, Option.bind_some]
      rfl
  | succ m ih =>
      obtain ⟨u₁, done, hflags, hspec⟩ := lz77Flags_isSome dev srcAddr dstAddr declared 8
        ((u.next dev srcAddr).1.setWidth 16) (u.next dev srcAddr).2
      cases done with
      | true =>
          refine ⟨u₁, fun fuel hfuel => ?_⟩
          obtain ⟨fuel, rfl⟩ := Nat.exists_eq_succ_of_ne_zero (show fuel ≠ 0 by omega)
          rw [Nat.succ_eq_add_one, lz77Loop]
          simp only [hflags, Option.bind_some, if_true]
      | false =>
          have hmore : u.dst + 8 ≤ u₁.dst := (hspec rfl).1
          obtain ⟨u', hu'⟩ := ih u₁ (by omega)
          refine ⟨u', fun fuel hfuel => ?_⟩
          obtain ⟨fuel, rfl⟩ := Nat.exists_eq_succ_of_ne_zero (show fuel ≠ 0 by omega)
          rw [Nat.succ_eq_add_one, lz77Loop]
          simp only [hflags, Option.bind_some, Bool.false_eq_true, if_false]
          exact hu' fuel (by omega)

theorem runlenFill_isSome (value : BitVec 8) (n : ℕ) (u : Uncomp D) :
    ∃ u', runlenFill dev dstAddr value n u = some u' ∧ u'.dst = u.dst + n := by
  induction n generalizing u with
  | zero => exact ⟨u, rfl, rfl⟩
  | succ n ih =>
      obtain ⟨u₁, hput, hdst⟩ := put_isSome dev dstAddr value u
      obtain ⟨u₂, hrest, hdst₂⟩ := ih u₁
      refine ⟨u₂, ?_, by omega⟩
      rw [runlenFill, hput, Option.bind_some]
      exact hrest

theorem runlenCopy_isSome (n : ℕ) (u : Uncomp D) :
    ∃ u', runlenCopy dev srcAddr dstAddr n u = some u' ∧ u'.dst = u.dst + n := by
  induction n generalizing u with
  | zero => exact ⟨u, rfl, rfl⟩
  | succ n ih =>
      obtain ⟨u₁, hput, hdst⟩ := put_isSome dev dstAddr (u.next dev srcAddr).1
        (u.next dev srcAddr).2
      have hdst : u₁.dst = u.dst + 1 := hdst
      obtain ⟨u₂, hrest, hdst₂⟩ := ih u₁
      refine ⟨u₂, ?_, by omega⟩
      rw [runlenCopy]
      simp only [hput, Option.bind_some]
      exact hrest

theorem runlenToken_isSome (u : Uncomp D) :
    ∃ u', runlenToken dev srcAddr dstAddr u = some u' ∧ u.dst < u'.dst := by
  unfold runlenToken
  simp only
  split_ifs
  · obtain ⟨u', hfill, hdst⟩ := runlenFill_isSome dev dstAddr
      ((u.next dev srcAddr).2.next dev srcAddr).1 (((u.next dev srcAddr).1 &&& 0x7F).toNat + 3)
      ((u.next dev srcAddr).2.next dev srcAddr).2
    refine ⟨u', hfill, ?_⟩
    have hsame : ((u.next dev srcAddr).2.next dev srcAddr).2.dst = u.dst := rfl
    omega
  · obtain ⟨u', hcopy, hdst⟩ := runlenCopy_isSome dev srcAddr dstAddr
      (((u.next dev srcAddr).1 &&& 0x7F).toNat + 1) (u.next dev srcAddr).2
    refine ⟨u', hcopy, ?_⟩
    have hsame : (u.next dev srcAddr).2.dst = u.dst := rfl
    omega

/-- The loop ends, whatever the stream. -/
theorem runlenLoop_ends (m : ℕ) (u : Uncomp D) (hm : declared ≤ u.dst + m) :
    ∃ u', ∀ fuel, m < fuel → runlenLoop dev srcAddr dstAddr declared fuel u = some u' := by
  induction m generalizing u with
  | zero =>
      refine ⟨u, fun fuel hfuel => ?_⟩
      obtain ⟨fuel, rfl⟩ := Nat.exists_eq_succ_of_ne_zero (Nat.pos_iff_ne_zero.1 hfuel)
      exact if_neg (not_lt.2 hm)
  | succ m ih =>
      obtain ⟨u₁, htoken, hdst⟩ := runlenToken_isSome dev srcAddr dstAddr u
      obtain ⟨u', hu'⟩ := ih u₁ (by omega)
      by_cases hdone : u.dst < declared
      · refine ⟨u', fun fuel hfuel => ?_⟩
        obtain ⟨fuel, rfl⟩ := Nat.exists_eq_succ_of_ne_zero (show fuel ≠ 0 by omega)
        rw [Nat.succ_eq_add_one, runlenLoop, if_pos hdone, htoken, Option.bind_some]
        exact hu' fuel (by omega)
      · refine ⟨u, fun fuel hfuel => ?_⟩
        obtain ⟨fuel, rfl⟩ := Nat.exists_eq_succ_of_ne_zero (show fuel ≠ 0 by omega)
        exact if_neg hdone

end Ends

/-! ## The law -/

section Law

variable {D : Type*} {dev : MemDevices D} {s : GuestMem D}

/-- The declared size of a stream. -/
def declaredSize (dev : MemDevices D) (s : GuestMem D) (srcAddr : ℕ) : ℕ :=
  ((memRead dev .word srcAddr s).1 >>> 8).toNat

/-- **A decoder** ends, whatever the stream, and leaves the expansion of the shortest prefix of the
tokens that reaches the declared size in its place, and every other byte as it was. -/
structure Decodes (dev : MemDevices D) (uncomp : ℕ → ℕ → ℕ → GuestMem D → Option (GuestMem D))
    (format : StreamFormat) (s : GuestMem D) (srcAddr dstAddr : ℕ) : Prop where
  ends : ∃ t, ∀ fuel, declaredSize dev s srcAddr < fuel → uncomp fuel srcAddr dstAddr s = some t
  expands : ∀ n, let bytes := streamBytes dev s srcAddr
    Expands (format.token bytes) (declaredSize dev s srcAddr) n →
    Buffers dev s srcAddr dstAddr (format.stop bytes n) (expand (format.token bytes) n).length →
    ∀ fuel, declaredSize dev s srcAddr < fuel → ∃ t, uncomp fuel srcAddr dstAddr s = some t ∧
      t.jit.shm = placeBytes (outputPlace dstAddr) s.jit.shm (expand (format.token bytes) n)

/-- The tokens of a shortest prefix are no more than its bytes. -/
theorem Expands.le {token : ℕ → Token UInt8} {declared n : ℕ} (h : Expands token declared n)
    (hpos : ∀ k, 0 < (token k).length) : n ≤ declared := by
  cases n with
  | zero => exact Nat.zero_le _
  | succ n =>
      have hshort := h.shortest.shortest n (Nat.lt_succ_self n)
      have hlength := le_length_expand hpos fun k (hk : k < n) => h.reaches k (by omega)
      omega

theorem lzToken_pos (bytes : ℕ → UInt8) (k : ℕ) : 0 < (lzToken bytes k).length := by
  unfold lzToken
  simp only
  split_ifs
  · exact Nat.succ_pos _
  · exact Nat.one_pos

theorem runToken_pos (bytes : ℕ → UInt8) (k : ℕ) : 0 < (runToken bytes k).length := by
  unfold runToken
  simp only
  split_ifs
  · rw [Token.length, List.length_replicate]
    exact Nat.succ_pos _
  · rw [Token.length, List.length_map, List.length_range]
    exact Nat.succ_pos _

/-- The decoder before its first token. -/
theorem Decoded.start (hinv : MemInv s) {srcAddr : ℕ}
    (hheader : (memRead dev .word srcAddr s).2 = s) (dstAddr : ℕ) :
    Decoded s dstAddr [] ⟨(memRead dev .word srcAddr s).2, 4, 0⟩ := by
  rw [hheader]
  exact ⟨hinv, .refl s, rfl, rfl⟩

/-- **Decompression**: both functions decode their formats, in every reachable state. -/
theorem uncompress_law (hs : MemReaches dev s) (srcAddr dstAddr : ℕ) :
    Decodes dev (lz77Uncomp dev) lzFormat s srcAddr dstAddr ∧
      Decodes dev (runlenUncomp dev) runFormat s srcAddr dstAddr := by
  have hinv := memInv_of_reaches hs
  refine ⟨⟨?_, fun n hexpands hbuf fuel hfuel => ?_⟩, ⟨?_, fun n hexpands hbuf fuel hfuel => ?_⟩⟩
  · obtain ⟨u', hu'⟩ := lz77Loop_ends dev srcAddr dstAddr (declaredSize dev s srcAddr)
      (declaredSize dev s srcAddr) ⟨(memRead dev .word srcAddr s).2, 4, 0⟩ (Nat.le_add_left _ _)
    exact ⟨u'.mem, fun fuel hfuel => congrArg (Option.map Uncomp.mem) (hu' fuel hfuel)⟩
  · have hle := hexpands.le (lzToken_pos _)
    obtain ⟨u', hloop, hshm⟩ := lz77Loop_spec rfl hexpands hbuf fuel (k := 0) (by omega)
      rfl (Nat.zero_le n) (Decoded.start hinv hbuf.header dstAddr) rfl
    exact ⟨u'.mem, congrArg (Option.map Uncomp.mem) hloop, hshm⟩
  · obtain ⟨u', hu'⟩ := runlenLoop_ends dev srcAddr dstAddr (declaredSize dev s srcAddr)
      (declaredSize dev s srcAddr) ⟨(memRead dev .word srcAddr s).2, 4, 0⟩ (Nat.le_add_left _ _)
    exact ⟨u'.mem, fun fuel hfuel => congrArg (Option.map Uncomp.mem) (hu' fuel hfuel)⟩
  · have hle := hexpands.le (runToken_pos _)
    obtain ⟨u', hloop, hshm⟩ := runlenLoop_spec rfl hexpands hbuf fuel (k := 0)
      (by omega) (Nat.zero_le n) (Decoded.start hinv hbuf.header dstAddr) rfl
    exact ⟨u'.mem, congrArg (Option.map Uncomp.mem) hloop, hshm⟩

end Law

/-- The boot of a cartridge with a stream of five equal bytes in ewram: a literal byte, and a copy of
four bytes from one byte back. -/
def streamBoot : GuestMem Unit :=
  memStart ⟨0x400000, 0x3FFFFF, .none, false⟩ false
    (fun a => [0x10, 5, 0, 0, 0x40, 0xAA, 0x10, 0].getD (a - 0x4000) 0) 0xE129F000 0 ()

theorem streamBoot_reaches : MemReaches silentDevices streamBoot :=
  ⟨_, .boot (by decide) _ _ _, .refl _⟩

/-- The bytes of the stream are read where they lie. -/
theorem streamBoot_site (width : MemWidth) {addr : ℕ} (hlow : 0x02000000 ≤ addr)
    (hhigh : addr < 0x02000010) (haligned : alignedAddr width addr = addr) :
    readSite streamBoot width (alignedAddr width addr) = some (outputSite addr) := by
  have hinv := memInv_of_reaches streamBoot_reaches
  rw [haligned]
  exact readSite_output hinv.tables width (.inl (by omega)) (by omega)

theorem streamBoot_expands :
    Expands (lzToken (streamBytes silentDevices streamBoot 0x02000000))
      (declaredSize silentDevices streamBoot 0x02000000) 2 where
  shortest := by
    refine ⟨by decide +kernel, fun k hk => ?_⟩
    interval_cases k <;> decide +kernel
  reaches k hk := by
    interval_cases k
    · exact trivial
    · exact ⟨by decide +kernel, by decide +kernel⟩

theorem streamBoot_buffers :
    Buffers silentDevices streamBoot 0x02000000 0x03000001
      (lzFormat.stop (streamBytes silentDevices streamBoot 0x02000000) 2) 5 where
  header := by rw [memRead_of_site _ (streamBoot_site .word (by decide) (by decide) rfl)]
  readable i _ hi := by
    have hlen : lzFormat.stop (streamBytes silentDevices streamBoot 0x02000000) 2 = 8 := by
      decide +kernel
    have haddr : addU32 0x02000000 i = 0x02000000 + i := by
      unfold addU32
      omega
    rw [haddr, memRead_of_site _ (streamBoot_site .byte (by omega) (by omega)
      (by rw [alignedAddr_byte]; omega))]
  output j hj := by
    unfold IsOutput addU32
    omega
  apart i _ hi j hj := by
    have hlen : lzFormat.stop (streamBytes silentDevices streamBoot 0x02000000) 2 = 8 := by
      decide +kernel
    have haddr : addU32 0x02000000 i = 0x02000000 + i := by
      unfold addU32
      omega
    rw [haddr, streamBoot_site .byte (by omega) (by omega) (by rw [alignedAddr_byte]; omega)]
    unfold outputPlace outputSite addU32 ramOffset
    simp only [ewramRegion, iwramRegion, vramRegion, Option.some.injEq, ne_eq]
    split_ifs <;> omega

/-- A stream in ewram, put out at an odd address of iwram. -/
theorem uncompress_law_stream :
    ∃ t, lz77Uncomp silentDevices 6 0x02000000 0x03000001 streamBoot = some t ∧
      t.jit.shm = placeBytes (outputPlace 0x03000001) streamBoot.jit.shm
        [0xAA, 0xAA, 0xAA, 0xAA, 0xAA] := by
  have hout : expand (lzToken (streamBytes silentDevices streamBoot 0x02000000)) 2 =
      [0xAA, 0xAA, 0xAA, 0xAA, 0xAA] := by decide +kernel
  have hlength : (expand (lzToken (streamBytes silentDevices streamBoot 0x02000000)) 2).length = 5 :=
    congrArg List.length hout
  have hexpand := (uncompress_law streamBoot_reaches 0x02000000 0x03000001).1.expands 2
    streamBoot_expands (by rw [show lzFormat.token = lzToken from rfl, hlength]; exact streamBoot_buffers)
    6 (by decide +kernel)
  rwa [show lzFormat.token = lzToken from rfl, hout] at hexpand

end AdvancedSlop
