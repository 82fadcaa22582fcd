/-
# The sound fifos

`src/core/apu.rs`: each of the two fifos is a ring of 32 bytes.  Stores to its register fill it, the
overflow of its timer pops a byte to the latch at the DAC, and asks for a sound DMA once it is half
empty.  The request is served by a later check.

* `SoundMachine`, `fifoStep` : the fifos, the channels that feed them, and the steps between;
* `fifoEvents` : what a step is for a fifo, by the bytes it stores;
* `fifoStep_delivers` : every step does that to the queue in the ring.
-/
import AdvancedSlop.DmaChannels
import AdvancedSlop.IoLut
import AdvancedSlop.MemoryIo
import AdvancedSlop.RingQueue

namespace AdvancedSlop

open RingQueue TransitionSystem

/-! ## The machine -/

theorem neZero_fifos : NeZero 2 := ⟨by decide⟩

attribute [local instance] neZero_fifos

/-- The fifos of the apu and the DMA channels. -/
structure SoundMachine where
  fifo : Fin 2 → RingBuf (BitVec 8)
  sampleAb : Fin 2 → BitVec 8
  mainCntH : BitVec 16
  dma : DmaMachine × DmaLog

/-- `Apu::new` and `Dma::new`. -/
def soundReset : SoundMachine where
  fifo _ := ⟨fun _ => 0, 0, 0⟩
  sampleAb _ := 0
  mainCntH := 0
  dma := dmaReset

/-- `write_fifo`. -/
def writeFifo (mask value : BitVec 32) (fifo : RingBuf (BitVec 8)) : RingBuf (BitVec 8) :=
  [0, 8, 16, 24].foldl (fun fifo i =>
    if fifo.len < 32 ∧ mask &&& (0xFF#32 <<< i) ≠ 0 then
      fifo.push 32 ((value >>> i).setWidth 8)
    else fifo) fifo

namespace SoundMachine

/-- Another state of one fifo. -/
def setFifo (s : SoundMachine) (f : Fin 2) (fifo : RingBuf (BitVec 8)) : SoundMachine :=
  { s with fifo := Function.update s.fifo f fifo }

/-- `write_main_cnt_h`. -/
def writeMainCntH (mask value : BitVec 16) (s : SoundMachine) : SoundMachine :=
  let mask := mask &&& 0x770F
  { s with
    mainCntH := (s.mainCntH &&& ~~~mask) ||| (value &&& mask)
    fifo := fun f =>
      if value.getLsbD (if f = 0 then 11 else 15) then (s.fifo f).clear else s.fifo f }

/-- What happens to the channels only. -/
def withDma (s : SoundMachine) (op : DmaOp) : Option SoundMachine :=
  (dmaStep s.dma op).map fun dma => { s with dma := dma }

end SoundMachine

/-- The DMA registers of `io_gba_write`. -/
def dmaRegister : Nat → Option (BitVec 32 → BitVec 32 → DmaOp)
  | 0xB0 => some (.setSad 0)
  | 0xB4 => some (.setDad 0)
  | 0xB8 => some (.setCnt 0)
  | 0xBC => some (.setSad 1)
  | 0xC0 => some (.setDad 1)
  | 0xC4 => some (.setCnt 1)
  | 0xC8 => some (.setSad 2)
  | 0xCC => some (.setDad 2)
  | 0xD0 => some (.setCnt 2)
  | 0xD4 => some (.setSad 3)
  | 0xD8 => some (.setDad 3)
  | 0xDC => some (.setCnt 3)
  | _ => none

/-- The write function of a register, of those for the fifos and the channels. -/
def writeSoundRegister (call : WriteCall) (s : SoundMachine) : SoundMachine :=
  let mask := (call.mask.getD 0).setWidth 32
  let value := call.value.setWidth 32
  if call.entry.offset = 0x82 then s.writeMainCntH (mask.setWidth 16) (value.setWidth 16)
  else if call.entry.offset = 0xA0 then s.setFifo 0 (writeFifo mask value (s.fifo 0))
  else if call.entry.offset = 0xA4 then s.setFifo 1 (writeFifo mask value (s.fifo 1))
  else
    match dmaRegister call.entry.offset with
    | some op => (s.withDma (op mask value)).getD s
    | none => s

/-- `io_gba_write`. -/
def ioStore (width : IoSize) (offset : Nat) (value : BitVec (8 * width.bytes)) (s : SoundMachine) :
    SoundMachine :=
  if ioGbaWrite.isInRange offset then
    (ioGbaWrite.write width writeSoundRegister offset value s).getD s
  else s

/-- The bit of `main_cnt_h` that selects the timer of a fifo. -/
def timerSelect (mainCntH : BitVec 16) (f : Fin 2) : Fin 2 :=
  if mainCntH.getLsbD (if f = 0 then 10 else 14) then 1 else 0

/-- The channel of a fifo. -/
def fifoChannel (f : Fin 2) : Fin 4 := ⟨f.val + 1, by omega⟩

namespace SoundMachine

/-- The next byte of a fifo goes to its latch. -/
def latchNext (f : Fin 2) (s : SoundMachine) : SoundMachine :=
  match (s.fifo f).pop 32 with
  | some (value, fifo) => { s.setFifo f fifo with sampleAb := Function.update s.sampleAb f value }
  | none => s

/-- A fifo that is half empty asks for a sound DMA. -/
def requestRefill (f : Fin 2) (s : SoundMachine) : SoundMachine :=
  if (s.fifo f).len ≤ 16 then
    (s.withDma (.trigger .special fun c => decide (c = fifoChannel f))).getD s
  else s

/-- The body of the loop of `apu_on_fifo_timer`. -/
def clock (timer : Fin 2) (s : SoundMachine) (f : Fin 2) : SoundMachine :=
  if timerSelect s.mainCntH f = timer then (s.latchNext f).requestRefill f else s

/-- `apu_on_fifo_timer`. -/
def onFifoTimer (timer : Fin 2) (s : SoundMachine) : SoundMachine :=
  (List.finRange 2).foldl (clock timer) s

/-- All immediate events are dispatched. -/
def Drained (s : SoundMachine) : Prop := s.dma.1.next = none ∧ s.dma.1.running = none

instance (s : SoundMachine) : Decidable s.Drained := inferInstanceAs (Decidable (_ ∧ _))

/-- The transfer of a channel is a sound DMA. -/
def IsSound (s : SoundMachine) (c : Fin 4) : Prop :=
  dmaTransferMode (s.dma.1.channels c).cnt = .special ∧ (c = 1 ∨ c = 2)

instance (s : SoundMachine) (c : Fin 4) : Decidable (s.IsSound c) :=
  inferInstanceAs (Decidable (_ ∧ _))

end SoundMachine

/-- The io offset of a word at an address. -/
def ioOffset (addr : BitVec 32) : Option Nat :=
  let addr := alignedAddr .word addr.toNat
  if addr / 0x1000000 % 16 = 4 then some (addr % 0x1000000) else none

/-- A word written by `mem_write_fixed_slice`; memory is not looked at here. -/
def storeAt (dest : BitVec 32) (s : SoundMachine) (value : BitVec 32) : SoundMachine :=
  match ioOffset dest with
  | some offset => ioStore .io32 offset value s
  | none => s

/-- What happens. -/
inductive FifoOp
  /-- A store to the io ports, by the guest or by a transfer. -/
  | store (width : IoSize) (offset : Nat) (value : BitVec (8 * width.bytes))
  /-- Timer 0 or 1 overflows. -/
  | timer (timer : Fin 2)
  /-- The screen triggers its transfers. -/
  | triggerAll (mode : DmaTransferMode)
  /-- A check takes the queued events. -/
  | check
  /-- It starts a transfer that is no sound DMA. -/
  | start
  | finish (dest src : BitVec 32)
  /-- It runs a sound DMA of four words read from memory. -/
  | soundDma (values : Fin 4 → BitVec 32) (src : BitVec 32)

/-- One step.  Timed events and the guest run when the immediate events are dispatched. -/
def fifoStep (s : SoundMachine) : FifoOp → Option SoundMachine
  | .store width offset value =>
      if width.bytes ∣ offset then some (ioStore width offset value s) else none
  | .timer timer => if s.Drained then some (s.onFifoTimer timer) else none
  | .triggerAll mode =>
      if s.Drained ∧ mode ≠ .special then s.withDma (.trigger mode fun _ => true) else none
  | .check => s.withDma .check
  | .start =>
      s.dma.1.next.bind fun c => if s.IsSound c then none else s.withDma .start
  | .finish dest src => s.withDma (.finish dest src)
  | .soundDma values src =>
      s.dma.1.next.bind fun c =>
        if s.IsSound c then
          (s.withDma .start).bind fun started =>
            let dest := (s.dma.1.channels c).currentDest
            ((List.ofFn values).foldl (storeAt dest) started).withDma (.finish dest src)
        else none

/-! ## What a step is for a fifo -/

/-- A stored byte: it is written to the fifo, or resets it. -/
def byteEvents (f : Fin 2) (offset : Nat) (byte : BitVec 8) : List (Event (BitVec 8)) :=
  if 0xA0 + 4 * f.val ≤ offset ∧ offset < 0xA4 + 4 * f.val then [.write byte]
  else if offset = 0x83 ∧ byte.getLsbD (if f = 0 then 3 else 7) then [.reset] else []

/-- A store, byte by byte. -/
def storeEvents (f : Fin 2) (width : IoSize) (offset : Nat) (value : BitVec (8 * width.bytes)) :
    List (Event (BitVec 8)) :=
  (List.range width.bytes).flatMap fun k =>
    byteEvents f (offset + k) (value.extractLsb' (8 * k) 8)

/-- A word stored at an address. -/
def wordEvents (f : Fin 2) (dest value : BitVec 32) : List (Event (BitVec 8)) :=
  match ioOffset dest with
  | some offset => storeEvents f .io32 offset value
  | none => []

/-- A step. -/
def fifoEvents (f : Fin 2) (s : SoundMachine) : FifoOp → List (Event (BitVec 8))
  | .store width offset value => storeEvents f width offset value
  | .timer timer => if timerSelect s.mainCntH f = timer then [.read] else []
  | .soundDma values _ =>
      match s.dma.1.next with
      | some c =>
          (List.ofFn values).flatMap (wordEvents f (s.dma.1.channels c).currentDest)
      | none => []
  | _ => []

/-! ## The stores -/

/-- The bytes a mask selects. -/
def maskedBytes (mask value : BitVec 32) : List (BitVec 8) :=
  (List.range 4).flatMap fun j =>
    if mask.extractLsb' (8 * j) 8 = 0 then [] else [value.extractLsb' (8 * j) 8]

/-- A call of a write function. -/
def callEvents (f : Fin 2) (call : WriteCall) : List (Event (BitVec 8)) :=
  if call.entry.offset = 0xA0 + 4 * f.val then
    (maskedBytes ((call.mask.getD 0).setWidth 32) (call.value.setWidth 32)).map .write
  else if call.entry.offset = 0x82 ∧
      ((call.value.setWidth 32).setWidth 16).getLsbD (if f = 0 then 11 else 15) then [.reset]
  else []

/-- The ring of a fifo goes through the events as the queue in it does. -/
structure Follows (fifo fifo' : RingBuf (BitVec 8)) (events : List (Event (BitVec 8))) : Prop where
  good : fifo'.Good 32
  content : fifo'.content 32 = run 32 (fifo.content 32) events

theorem Follows.refl {fifo : RingBuf (BitVec 8)} (h : fifo.Good 32) : Follows fifo fifo [] := ⟨h, rfl⟩

theorem Follows.trans {fifo fifo' fifo'' : RingBuf (BitVec 8)}
    {events events' : List (Event (BitVec 8))} (h : Follows fifo fifo' events)
    (h' : Follows fifo' fifo'' events') : Follows fifo fifo'' (events ++ events') :=
  ⟨h'.good, by rw [h'.content, h.content, run_append]⟩

/-- The byte of a mask. -/
theorem mask_byte_iff (mask : BitVec 32) {i : Nat} (hi : i + 8 ≤ 32) :
    mask &&& (0xFF#32 <<< i) ≠ 0 ↔ mask.extractLsb' i 8 ≠ 0 := by
  refine not_congr ⟨fun h => ?_, fun h => ?_⟩
  · refine BitVec.eq_of_getLsbD_eq fun j hj => ?_
    have hbit := congrArg (BitVec.getLsbD · (i + j)) h
    have hff : (0xFF#32).getLsbD j = true := by
      interval_cases j <;> rfl
    simp only [BitVec.getLsbD_and, BitVec.getLsbD_shiftLeft, Nat.add_sub_cancel_left, hff] at hbit
    rw [BitVec.getLsbD_extractLsb']
    simpa [hj, show i + j < 32 by omega] using hbit
  · refine BitVec.eq_of_getLsbD_eq fun j hj => ?_
    rw [BitVec.getLsbD_and, BitVec.getLsbD_shiftLeft]
    by_cases hin : i ≤ j ∧ j - i < 8
    · have hbit := congrArg (BitVec.getLsbD · (j - i)) h
      rw [BitVec.getLsbD_extractLsb', show i + (j - i) = j by omega] at hbit
      have hclear : mask.getLsbD j = false := by simpa [hin.2] using hbit
      rw [hclear]
      simp
    · have hff : i ≤ j → (0xFF#32).getLsbD (j - i) = false := by
        intro hij
        have hge : 8 ≤ j - i := by omega
        have hle : j - i < 32 := by omega
        interval_cases (j - i) <;> rfl
      by_cases hij : i ≤ j
      · simp [hff hij]
      · simp [show j < i by omega]

/-- **A masked write** writes the bytes the mask selects. -/
theorem writeFifo_follows (mask value : BitVec 32) {fifo : RingBuf (BitVec 8)} (h : fifo.Good 32) :
    Follows fifo (writeFifo mask value fifo) ((maskedBytes mask value).map .write) := by
  -- one byte
  have hbyte : ∀ (i : Nat) {fifo : RingBuf (BitVec 8)}, i + 8 ≤ 32 → fifo.Good 32 →
      Follows fifo
        (if fifo.len < 32 ∧ mask &&& (0xFF#32 <<< i) ≠ 0 then
          fifo.push 32 ((value >>> i).setWidth 8) else fifo)
        ((if mask.extractLsb' i 8 = 0 then [] else [value.extractLsb' i 8]).map .write) := by
    intro i fifo hi hgood
    by_cases hmask : mask.extractLsb' i 8 = 0
    · rw [if_neg fun hc => (mask_byte_iff mask hi).mp hc.2 hmask, if_pos hmask]
      exact .refl hgood
    · rw [if_neg hmask, List.map_singleton]
      by_cases hlen : fifo.len < 32
      · rw [if_pos ⟨hlen, (mask_byte_iff mask hi).mpr hmask⟩]
        refine ⟨hgood.push hlen _, ?_⟩
        rw [RingBuf.content_push hlen, run, List.foldl_cons, List.foldl_nil, next,
          RingBuf.length_content, if_pos hlen]
        rfl
      · rw [if_neg fun hc => hlen hc.1]
        refine ⟨hgood, ?_⟩
        rw [run, List.foldl_cons, List.foldl_nil, next, RingBuf.length_content, if_neg hlen]
  have h0 := hbyte 0 (by decide) h
  have h8 := hbyte 8 (by decide) h0.good
  have h16 := hbyte 16 (by decide) h8.good
  have h24 := hbyte 24 (by decide) h16.good
  have hall := ((h0.trans h8).trans h16).trans h24
  rw [← List.map_append, ← List.map_append, ← List.map_append] at hall
  simpa only [writeFifo, List.foldl_cons, List.foldl_nil, maskedBytes, List.range_succ,
    List.range_zero, List.nil_append, List.flatMap_append, List.flatMap_singleton, Nat.reduceMul,
    Nat.mul_zero] using hall

/-- A write function leaves the latches alone, and is for a fifo what its events say. -/
theorem writeSoundRegister_fifo (call : WriteCall) (s : SoundMachine) (f : Fin 2)
    (h : (s.fifo f).Good 32) :
    Follows (s.fifo f) ((writeSoundRegister call s).fifo f) (callEvents f call) ∧
      (writeSoundRegister call s).sampleAb = s.sampleAb := by
  have hset : ∀ (g : Fin 2) (fifo : RingBuf (BitVec 8)), (s.setFifo g fifo).fifo f =
      if f = g then fifo else s.fifo f := by
    intro g fifo
    show Function.update s.fifo g fifo f = _
    rw [Function.update_apply]
  have hdma : ∀ op, ((s.withDma op).getD s).fifo = s.fifo ∧
      ((s.withDma op).getD s).sampleAb = s.sampleAb := by
    intro op
    unfold SoundMachine.withDma
    cases dmaStep s.dma op <;> exact ⟨rfl, rfl⟩
  unfold writeSoundRegister callEvents
  simp only
  split
  · rename_i hoffset
    rw [hoffset, if_neg (by omega)]
    refine ⟨?_, rfl⟩
    simp only [SoundMachine.writeMainCntH, true_and]
    generalize ((call.value.setWidth 32).setWidth 16).getLsbD (if f = 0 then 11 else 15) = bit
    cases bit with
    | true => exact ⟨RingBuf.clear_good (N := 32) (by decide) _, rfl⟩
    | false => exact .refl h
  · rename_i hcnt
    simp only [hcnt, false_and, if_false]
    split
    · rename_i hoffset
      refine ⟨?_, rfl⟩
      rw [hset, hoffset]
      by_cases hf : f = 0
      · subst hf
        exact writeFifo_follows _ _ h
      · rw [if_neg hf, if_neg (by omega)]
        exact .refl h
    · rename_i hfifo0
      split
      · rename_i hoffset
        refine ⟨?_, rfl⟩
        rw [hset, hoffset]
        by_cases hf : f = 1
        · subst hf
          exact writeFifo_follows _ _ h
        · rw [if_neg hf, if_neg (by omega)]
          exact .refl h
      · rename_i hfifo1
        rw [if_neg (by omega)]
        split
        · rw [(hdma _).1, (hdma _).2]
          exact ⟨.refl h, rfl⟩
        · exact ⟨.refl h, rfl⟩

/-- So are several calls. -/
theorem calls_fifo (f : Fin 2) (calls : List WriteCall) (s : SoundMachine)
    (h : (s.fifo f).Good 32) :
    Follows (s.fifo f) ((calls.foldl (fun s call => writeSoundRegister call s) s).fifo f)
        (calls.flatMap (callEvents f)) ∧
      (calls.foldl (fun s call => writeSoundRegister call s) s).sampleAb = s.sampleAb := by
  induction calls generalizing s with
  | nil => exact ⟨.refl h, rfl⟩
  | cons call calls ih =>
      obtain ⟨hfirst, hlatch⟩ := writeSoundRegister_fifo call s f h
      obtain ⟨hrest, hlatch'⟩ := ih _ hfirst.good
      exact ⟨hfirst.trans hrest, hlatch'.trans hlatch⟩

/-- The registers of the fifos and their resets. -/
theorem ioGbaWrite_size : ∀ entry ∈ ioGbaWrite.entries,
    (entry.offset = 0x82 → entry = ⟨.io16, 0x82⟩) ∧ (entry.offset = 0xA0 → entry = ⟨.io32, 0xA0⟩) ∧
      (entry.offset = 0xA4 → entry = ⟨.io32, 0xA4⟩) := by
  decide

/-- The bytes of a store in the word of a fifo are those its call selects. -/
theorem maskedBytes_store (f : Fin 2) {width : IoSize} {offset : Nat}
    (haligned : width.bytes ∣ offset) (hword : offset / 4 = 0x28 + f.val)
    (value : BitVec (8 * width.bytes)) {mask carried : BitVec 32}
    (hmask : ∀ j < 4, mask.extractLsb' (8 * j) 8 =
      if offset ≤ 0xA0 + 4 * f.val + j ∧ 0xA0 + 4 * f.val + j < offset + width.bytes then 0xFF else 0)
    (hcarried : ∀ j < 4, carried.extractLsb' (8 * j) 8 =
      if offset ≤ 0xA0 + 4 * f.val + j ∧ 0xA0 + 4 * f.val + j < offset + width.bytes then
        value.extractLsb' (8 * (0xA0 + 4 * f.val + j - offset)) 8
      else 0) :
    (maskedBytes mask carried).map .write = storeEvents f width offset value := by
  obtain ⟨k, hk, rfl⟩ : ∃ k < 4, offset = 0xA0 + 4 * f.val + k := ⟨offset % 4, by omega, by omega⟩
  have hbytes : maskedBytes mask carried = (List.range 4).flatMap fun j =>
      if k ≤ j ∧ j < k + width.bytes then [value.extractLsb' (8 * (j - k)) 8] else [] := by
    refine List.flatMap_congr fun j hj => ?_
    rw [List.mem_range] at hj
    have hwindow : (0xA0 + 4 * f.val + k ≤ 0xA0 + 4 * f.val + j ∧
        0xA0 + 4 * f.val + j < 0xA0 + 4 * f.val + k + width.bytes) ↔
          (k ≤ j ∧ j < k + width.bytes) := by omega
    simp only [hmask j hj, hcarried j hj, hwindow, Nat.add_sub_add_left]
    by_cases hin : k ≤ j ∧ j < k + width.bytes
    · simp only [if_pos hin]
      rfl
    · simp only [if_neg hin, if_pos]
  have hin : ∀ j < width.bytes, byteEvents f (0xA0 + 4 * f.val + k + j) (value.extractLsb' (8 * j) 8) =
      [.write (value.extractLsb' (8 * j) 8)] := by
    intro j hj
    refine if_pos ⟨by omega, ?_⟩
    cases width <;> simp only [IoSize.bytes] at haligned hj <;> omega
  have hstore : storeEvents f width (0xA0 + 4 * f.val + k) value =
      (List.range width.bytes).flatMap fun j => [.write (value.extractLsb' (8 * j) 8)] :=
    List.flatMap_congr fun j hj => hin j (List.mem_range.mp hj)
  rw [hbytes, hstore]
  cases width <;> simp only [IoSize.bytes] at haligned ⊢ <;> interval_cases k <;>
    first | omega | rfl

/-- A store to neither fifo register nor the byte of the reset bits is nothing for a fifo. -/
theorem storeEvents_elsewhere (f : Fin 2) {width : IoSize} {offset : Nat}
    (hfifo : ∀ k < width.bytes, (offset + k) / 4 ≠ 0x28 + f.val)
    (hcnt : ∀ k < width.bytes, offset + k ≠ 0x83) (value : BitVec (8 * width.bytes)) :
    storeEvents f width offset value = [] := by
  refine List.flatMap_eq_nil_iff.mpr fun k hk => ?_
  have hlt := List.mem_range.mp hk
  rw [byteEvents, if_neg (by have := hfifo k hlt; omega), if_neg fun h => hcnt k hlt h.1]

/-- A store over the reset bits. -/
theorem storeEvents_reset (f : Fin 2) {width : IoSize} {offset : Nat}
    (haligned : width.bytes ∣ offset) (hover : offset ≤ 0x83 ∧ 0x83 < offset + width.bytes)
    (value : BitVec (8 * width.bytes)) :
    storeEvents f width offset value =
      if (value.extractLsb' (8 * (0x83 - offset)) 8).getLsbD (if f = 0 then 3 else 7) then [.reset]
      else [] := by
  -- the byte of the reset bits is the last one
  have hlast : offset + width.bytes = 0x84 := by
    cases width <;> simp only [IoSize.bytes] at haligned hover ⊢ <;> omega
  obtain ⟨n, hn⟩ : ∃ n, width.bytes = n + 1 :=
    Nat.exists_eq_succ_of_ne_zero width.bytes_pos.ne'
  have hbefore : ∀ k ∈ List.range n, byteEvents f (offset + k) (value.extractLsb' (8 * k) 8) = [] := by
    intro k hk
    have hlt := List.mem_range.mp hk
    rw [byteEvents, if_neg (by omega), if_neg fun h => absurd h.1 (by omega)]
  have hrange : List.range width.bytes = List.range n ++ [n] := by rw [hn, List.range_succ]
  rw [storeEvents, hrange, List.flatMap_append, List.flatMap_eq_nil_iff.mpr hbefore,
    List.flatMap_singleton, List.nil_append, byteEvents, if_neg (by omega),
    show offset + n = 0x83 by omega, show 0x83 - offset = n by omega]
  simp only [true_and]

/-- The call of the register with the reset bits. -/
theorem callEvents_cnt (f : Fin 2) {width : IoSize} {offset : Nat} {value : BitVec (8 * width.bytes)}
    {call : WriteCall} (hcall : call.Carries width offset value)
    (hentry : call.entry = ⟨.io16, 0x82⟩) :
    callEvents f call =
      if offset ≤ 0x83 ∧ 0x83 < offset + width.bytes ∧
        (value.extractLsb' (8 * (0x83 - offset)) 8).getLsbD (if f = 0 then 3 else 7) then [.reset]
      else [] := by
  obtain ⟨entry, carried, mask⟩ := call
  obtain rfl : entry = ⟨.io16, 0x82⟩ := hentry
  have hbyte := hcall.value 1 (show 1 < 2 by decide)
  have hbit : ∀ k < 8, ((carried.setWidth 32).setWidth 16).getLsbD (8 + k) =
      (carried.extractLsb' (8 * 1) 8).getLsbD k := by
    intro k hk
    rw [BitVec.getLsbD_setWidth, BitVec.getLsbD_setWidth, BitVec.getLsbD_extractLsb']
    simp [hk, show 8 + k < 16 by omega, show 8 + k < 32 by omega]
  have hreset : ((carried.setWidth 32).setWidth 16).getLsbD (if f = 0 then 11 else 15) =
      (carried.extractLsb' (8 * 1) 8).getLsbD (if f = 0 then 3 else 7) := by
    split
    · exact hbit 3 (by decide)
    · exact hbit 7 (by decide)
  rw [callEvents, if_neg (show ¬ 0x82 = 0xA0 + 4 * f.val by omega)]
  simp only [true_and, hreset, hbyte]
  by_cases hin : offset ≤ 0x83 ∧ 0x83 < offset + width.bytes
  · rw [if_pos hin]
    simp only [hin.1, hin.2, true_and]
  · rw [if_neg hin, if_neg (by simp), if_neg fun h => hin ⟨h.1, h.2.1⟩]

/-- The call of the register of a fifo. -/
theorem callEvents_fifo (f : Fin 2) {width : IoSize} {offset : Nat} (haligned : width.bytes ∣ offset)
    (hword : offset / 4 = 0x28 + f.val) {value : BitVec (8 * width.bytes)} {call : WriteCall}
    (hcall : call.Carries width offset value) (hentry : call.entry = ⟨.io32, 0xA0 + 4 * f.val⟩) :
    callEvents f call = storeEvents f width offset value := by
  obtain ⟨entry, carried, mask⟩ := call
  obtain rfl : entry = ⟨.io32, 0xA0 + 4 * f.val⟩ := hentry
  cases mask with
  | none => cases hcall.unmasked.mp rfl
  | some mask =>
      rw [callEvents, if_pos rfl]
      refine maskedBytes_store f haligned hword value (fun j hj => ?_) fun j hj => ?_
      · rw [Option.getD_some]
        exact (congrArg (BitVec.extractLsb' (8 * j) 8) (BitVec.setWidth_eq mask)).trans
          (hcall.mask mask rfl j hj)
      · exact (congrArg (BitVec.extractLsb' (8 * j) 8) (BitVec.setWidth_eq carried)).trans
          (hcall.value j hj)

/-- **The bytes of a store** are what its calls are for a fifo. -/
theorem calls_events (f : Fin 2) {width : IoSize} {offset : Nat} (haligned : width.bytes ∣ offset)
    (value : BitVec (8 * width.bytes)) {calls : List WriteCall}
    (hentries : calls.map WriteCall.entry = ioGbaWrite.overlapping width offset)
    (hcarries : ∀ call ∈ calls, call.Carries width offset value) :
    calls.flatMap (callEvents f) = storeEvents f width offset value := by
  have hmem : ∀ call ∈ calls, call.entry ∈ ioGbaWrite.entries ∧
      call.entry.offset < offset + width.bytes ∧ offset < call.entry.offsetEnd := by
    intro call hcall
    have hin : call.entry ∈ ioGbaWrite.overlapping width offset := by
      rw [← hentries]
      exact List.mem_map_of_mem hcall
    obtain ⟨hentry, hover⟩ := List.mem_filter.mp hin
    exact ⟨hentry, (IoEntry.overlaps_iff _ _ _).mp (of_decide_eq_true hover)⟩
  by_cases hword : offset / 4 = 0x28 + f.val
  · -- the word of the fifo
    have hover : ioGbaWrite.overlapping width offset = [⟨.io32, 0xA0 + 4 * f.val⟩] := by
      obtain ⟨k, hk, rfl⟩ : ∃ k < 4, offset = 0xA0 + 4 * f.val + k :=
        ⟨offset % 4, by omega, by omega⟩
      fin_cases f <;> cases width <;> interval_cases k <;>
        first | rfl | (simp only [IoSize.bytes] at haligned; omega)
    rw [hover] at hentries
    obtain ⟨call, rfl, hentry⟩ := List.map_eq_singleton_iff.mp hentries
    rw [List.flatMap_singleton]
    exact callEvents_fifo f haligned hword (hcarries call List.mem_cons_self) hentry
  · by_cases hcnt : offset ≤ 0x83 ∧ 0x83 < offset + width.bytes
    · -- the register with the reset bits is the last one
      rw [storeEvents_reset f haligned hcnt]
      have hover : ∃ before, ioGbaWrite.overlapping width offset = before ++ [⟨.io16, 0x82⟩] ∧
          ∀ entry ∈ before, entry.offset = 0x80 := by
        cases width <;> simp only [IoSize.bytes] at haligned hcnt
        · obtain rfl : offset = 0x83 := by omega
          exact ⟨[], rfl, by decide⟩
        · obtain rfl : offset = 0x82 := by omega
          exact ⟨[], rfl, by decide⟩
        · obtain rfl : offset = 0x80 := by omega
          exact ⟨[⟨.io16, 0x80⟩], rfl, by decide⟩
      obtain ⟨before, hover, hbefore⟩ := hover
      rw [hover] at hentries
      obtain ⟨calls, last, rfl, hmap, hlast⟩ := List.map_eq_append_iff.mp hentries
      obtain ⟨call, rfl, hentry⟩ := List.map_eq_singleton_iff.mp hlast
      have hnone : ∀ call ∈ calls, callEvents f call = [] := by
        intro call hcall
        have hoffset : call.entry.offset = 0x80 :=
          hbefore _ (by rw [← hmap]; exact List.mem_map_of_mem hcall)
        rw [callEvents, hoffset, if_neg (by omega), if_neg (by omega)]
      rw [List.flatMap_append, List.flatMap_eq_nil_iff.mpr hnone, List.flatMap_singleton,
        List.nil_append, callEvents_cnt f (hcarries call (by simp)) hentry]
      simp only [hcnt.1, hcnt.2, true_and]
    · have hapart : ∀ k < width.bytes, (offset + k) / 4 ≠ 0x28 + f.val := by
        intro k hk
        cases width <;> simp only [IoSize.bytes] at haligned hk <;> omega
      rw [storeEvents_elsewhere f hapart (by omega)]
      refine List.flatMap_eq_nil_iff.mpr fun call hcall => ?_
      obtain ⟨hentry, hlow, hhigh⟩ := hmem call hcall
      obtain ⟨hsize82, hsizeA0, hsizeA4⟩ := ioGbaWrite_size _ hentry
      by_cases h82 : call.entry.offset = 0x82
      · rw [callEvents_cnt f (hcarries call hcall) (hsize82 h82), if_neg fun h => hcnt ⟨h.1, h.2.1⟩]
      · rw [callEvents, if_neg, if_neg fun h => h82 h.1]
        intro h
        have hsize : call.entry.offsetEnd = call.entry.offset + 4 := by
          rw [IoEntry.offsetEnd]
          fin_cases f
          · rw [hsizeA0 h]
            rfl
          · rw [hsizeA4 h]
            rfl
        rw [hsize] at hhigh
        refine hword ?_
        cases width <;> simp only [IoSize.bytes] at haligned hlow <;> omega

/-- **A store** is for a fifo what its bytes say, and leaves the latches alone. -/
theorem ioStore_fifo (f : Fin 2) {width : IoSize} {offset : Nat} (haligned : width.bytes ∣ offset)
    (value : BitVec (8 * width.bytes)) (s : SoundMachine) (h : (s.fifo f).Good 32) :
    Follows (s.fifo f) ((ioStore width offset value s).fifo f) (storeEvents f width offset value) ∧
      (ioStore width offset value s).sampleAb = s.sampleAb := by
  unfold ioStore
  split
  · rename_i hrange
    obtain ⟨calls, hentries, hcarries, hwrite⟩ :=
      ioGbaWrite.writeDecomposes haligned hrange value
    rw [hwrite, Option.getD_some, ← calls_events f haligned value hentries hcarries]
    exact calls_fifo f calls s h
  · rename_i hrange
    have hend : 0x302 ≤ offset := by
      by_contra hlt
      exact hrange ⟨Nat.zero_le _, Nat.lt_of_not_le hlt⟩
    rw [storeEvents_elsewhere f (fun k _ => by omega) fun k _ => by omega]
    exact ⟨.refl h, rfl⟩

/-- Words are stored at words. -/
theorem ioOffset_dvd {dest : BitVec 32} {offset : Nat} (h : ioOffset dest = some offset) :
    4 ∣ offset := by
  obtain ⟨-, hoffset⟩ := Option.ite_none_right_eq_some.mp h
  have heq := Option.some.inj hoffset
  rw [alignedAddr, MemWidth.bytes] at heq
  omega

/-- So is a word stored at an address. -/
theorem storeAt_fifo (f : Fin 2) (dest value : BitVec 32) (s : SoundMachine)
    (h : (s.fifo f).Good 32) :
    Follows (s.fifo f) ((storeAt dest s value).fifo f) (wordEvents f dest value) ∧
      (storeAt dest s value).sampleAb = s.sampleAb := by
  unfold storeAt wordEvents
  cases hoffset : ioOffset dest with
  | none => exact ⟨.refl h, rfl⟩
  | some offset => exact @ioStore_fifo f .io32 offset (ioOffset_dvd hoffset) value s h

/-! ## The steps -/

/-- What a fifo delivers: its ring follows the events, and its latch holds the last byte read. -/
structure Delivers (f : Fin 2) (s s' : SoundMachine) (events : List (Event (BitVec 8))) : Prop where
  ring : Follows (s.fifo f) (s'.fifo f) events
  latch : s'.sampleAb f =
    (collect 32 given ((s.fifo f).content 32) events).getLastD (s.sampleAb f)

theorem Delivers.refl {f : Fin 2} {s s' : SoundMachine} (h : (s.fifo f).Good 32)
    (hfifo : s'.fifo f = s.fifo f) (hlatch : s'.sampleAb f = s.sampleAb f) : Delivers f s s' [] where
  ring := by
    rw [hfifo]
    exact .refl h
  latch := hlatch

theorem Delivers.trans {f : Fin 2} {s s' s'' : SoundMachine}
    {events events' : List (Event (BitVec 8))} (h : Delivers f s s' events)
    (h' : Delivers f s' s'' events') : Delivers f s s'' (events ++ events') where
  ring := h.ring.trans h'.ring
  latch := by
    rw [h'.latch, h.latch, collect_append, ← h.ring.content]
    cases collect 32 given ((s'.fifo f).content 32) events' using List.reverseRecOn with
    | nil => rw [List.append_nil]; rfl
    | append_singleton xs x => simp

/-- A store delivers nothing. -/
theorem Delivers.of_store {f : Fin 2} {s s' : SoundMachine} {events : List (Event (BitVec 8))}
    (hring : Follows (s.fifo f) (s'.fifo f) events) (hlatch : s'.sampleAb = s.sampleAb)
    (hread : .read ∉ events) : Delivers f s s' events where
  ring := hring
  latch := by
    rw [hlatch, collect_eq_nil]
    · rfl
    · intro e he q
      cases e with
      | read => exact absurd he hread
      | write x => rfl
      | reset => rfl

/-- Stored bytes are not read. -/
theorem storeEvents_no_read (f : Fin 2) (width : IoSize) (offset : Nat)
    (value : BitVec (8 * width.bytes)) : .read ∉ storeEvents f width offset value := by
  intro he
  obtain ⟨k, -, hk⟩ := List.mem_flatMap.mp he
  unfold byteEvents at hk
  split_ifs at hk <;> simp at hk

theorem wordEvents_no_read (f : Fin 2) (dest value : BitVec 32) :
    .read ∉ wordEvents f dest value := by
  unfold wordEvents
  split
  · exact @storeEvents_no_read f .io32 _ value
  · exact List.not_mem_nil

/-- The words of a sound DMA. -/
theorem storeAt_delivers (f : Fin 2) (dest : BitVec 32) (values : List (BitVec 32))
    (s : SoundMachine) (h : (s.fifo f).Good 32) :
    Delivers f s (values.foldl (storeAt dest) s) (values.flatMap (wordEvents f dest)) := by
  induction values generalizing s with
  | nil => exact .refl h rfl rfl
  | cons value values ih =>
      obtain ⟨hring, hlatch⟩ := storeAt_fifo f dest value s h
      have hfirst := Delivers.of_store hring hlatch (wordEvents_no_read f dest value)
      exact hfirst.trans (ih _ hring.good)

/-- What happens to the channels only. -/
theorem withDma_eq_some {s s' : SoundMachine} {op : DmaOp} (h : s.withDma op = some s') :
    s'.fifo = s.fifo ∧ s'.sampleAb = s.sampleAb ∧ s'.mainCntH = s.mainCntH ∧
      dmaStep s.dma op = some s'.dma := by
  obtain ⟨dma, hdma, rfl⟩ := Option.map_eq_some_iff.mp h
  exact ⟨rfl, rfl, rfl, hdma⟩

theorem withDma_getD (s : SoundMachine) (op : DmaOp) :
    (s.withDma op).getD s = s ∨ s.withDma op = some ((s.withDma op).getD s) := by
  cases h : s.withDma op with
  | none => exact .inl rfl
  | some s' => exact .inr rfl

/-- The state of a fifo and its latch. -/
theorem withDma_getD_same (s : SoundMachine) (op : DmaOp) :
    ((s.withDma op).getD s).fifo = s.fifo ∧ ((s.withDma op).getD s).sampleAb = s.sampleAb ∧
      ((s.withDma op).getD s).mainCntH = s.mainCntH := by
  rcases withDma_getD s op with h | h
  · rw [h]
    exact ⟨rfl, rfl, rfl⟩
  · obtain ⟨hfifo, hlatch, hcnt, -⟩ := withDma_eq_some h
    exact ⟨hfifo, hlatch, hcnt⟩

theorem requestRefill_same (f : Fin 2) (s : SoundMachine) :
    (s.requestRefill f).fifo = s.fifo ∧ (s.requestRefill f).sampleAb = s.sampleAb ∧
      (s.requestRefill f).mainCntH = s.mainCntH := by
  unfold SoundMachine.requestRefill
  split
  · exact withDma_getD_same _ _
  · exact ⟨rfl, rfl, rfl⟩

/-- The next byte of another fifo. -/
theorem latchNext_of_ne (s : SoundMachine) {f g : Fin 2} (hfg : f ≠ g) :
    (s.latchNext g).fifo f = s.fifo f ∧ (s.latchNext g).sampleAb f = s.sampleAb f ∧
      (s.latchNext g).mainCntH = s.mainCntH := by
  unfold SoundMachine.latchNext
  split
  · exact ⟨Function.update_of_ne hfg .., Function.update_of_ne hfg .., rfl⟩
  · exact ⟨rfl, rfl, rfl⟩

/-- The clock of another fifo. -/
theorem clock_of_ne (timer : Fin 2) (s : SoundMachine) {f g : Fin 2} (hfg : f ≠ g) :
    (s.clock timer g).fifo f = s.fifo f ∧ (s.clock timer g).sampleAb f = s.sampleAb f ∧
      (s.clock timer g).mainCntH = s.mainCntH := by
  unfold SoundMachine.clock
  split
  · obtain ⟨hfifo, hlatch, hcnt⟩ := requestRefill_same g (s.latchNext g)
    rw [hfifo, hlatch, hcnt]
    exact latchNext_of_ne s hfg
  · exact ⟨rfl, rfl, rfl⟩

/-- **The next byte of a fifo** is read to the latch. -/
theorem latchNext_delivers (s : SoundMachine) (f : Fin 2) (h : (s.fifo f).Good 32) :
    Delivers f s (s.latchNext f) [.read] := by
  unfold SoundMachine.latchNext
  rcases RingBuf.content_pop h with ⟨hpop, hempty⟩ | ⟨x, fifo, hpop, hgood, hcontent⟩
  · rw [hpop]
    refine ⟨⟨h, ?_⟩, ?_⟩
    · rw [hempty]
      rfl
    · rw [hempty]
      rfl
  · rw [hpop]
    refine ⟨⟨?_, ?_⟩, ?_⟩
    · simp only [SoundMachine.setFifo, Function.update_self]
      exact hgood
    · simp only [SoundMachine.setFifo, Function.update_self]
      rw [hcontent]
      rfl
    · simp only [Function.update_self]
      rw [hcontent]
      rfl

/-- **The clock of a fifo** reads it. -/
theorem clock_self (timer : Fin 2) (s : SoundMachine) (f : Fin 2) (h : (s.fifo f).Good 32) :
    Delivers f s (s.clock timer f) (if timerSelect s.mainCntH f = timer then [.read] else []) := by
  unfold SoundMachine.clock
  split
  · obtain ⟨hfifo, hlatch, -⟩ := requestRefill_same f (s.latchNext f)
    have hread := latchNext_delivers s f h
    refine ⟨?_, ?_⟩
    · rw [hfifo]
      exact hread.ring
    · rw [hlatch]
      exact hread.latch
  · exact .refl h rfl rfl

theorem clock_good (timer : Fin 2) (s : SoundMachine) {f : Fin 2} (h : (s.fifo f).Good 32)
    (g : Fin 2) : ((s.clock timer g).fifo f).Good 32 := by
  by_cases hfg : f = g
  · subst hfg
    exact (clock_self timer s f h).ring.good
  · rw [(clock_of_ne timer s hfg).1]
    exact h

/-- **An overflow** reads the fifos of its timer. -/
theorem onFifoTimer_delivers (timer : Fin 2) (s : SoundMachine) (f : Fin 2)
    (h : (s.fifo f).Good 32) :
    Delivers f s (s.onFifoTimer timer) (if timerSelect s.mainCntH f = timer then [.read] else []) := by
  have hloop : s.onFifoTimer timer = (s.clock timer 0).clock timer 1 := rfl
  rw [hloop]
  by_cases hf : f = 0
  · subst hf
    obtain ⟨hfifo, hlatch, -⟩ := @clock_of_ne timer (s.clock timer 0) 0 1 (by decide)
    have hself := clock_self timer s 0 h
    refine ⟨?_, ?_⟩
    · rw [hfifo]
      exact hself.ring
    · rw [hlatch]
      exact hself.latch
  · obtain rfl : f = 1 := by omega
    obtain ⟨hfifo, hlatch, hcnt⟩ := @clock_of_ne timer s 1 0 (by decide)
    have hself := clock_self timer (s.clock timer 0) 1 (by rw [hfifo]; exact h)
    rw [hcnt] at hself
    refine ⟨?_, ?_⟩
    · rw [← hfifo]
      exact hself.ring
    · rw [← hfifo, ← hlatch]
      exact hself.latch

/-- **The step lemma**: a step is for each fifo what its bytes say. -/
theorem fifoStep_delivers {s s' : SoundMachine} {op : FifoOp} (hs : fifoStep s op = some s')
    (f : Fin 2) (h : (s.fifo f).Good 32) : Delivers f s s' (fifoEvents f s op) := by
  have hdma : ∀ {s s' : SoundMachine} {op : DmaOp}, (s.fifo f).Good 32 → s.withDma op = some s' →
      Delivers f s s' [] := by
    intro s s' op h hop
    obtain ⟨hfifo, hlatch, -⟩ := withDma_eq_some hop
    exact .refl h (by rw [hfifo]) (by rw [hlatch])
  cases op with
  | store width offset value =>
      obtain ⟨haligned, hs⟩ := Option.ite_none_right_eq_some.mp hs
      obtain rfl := Option.some.inj hs
      obtain ⟨hring, hlatch⟩ := ioStore_fifo f haligned value s h
      exact .of_store hring hlatch (storeEvents_no_read f width offset value)
  | timer timer =>
      obtain ⟨-, hs⟩ := Option.ite_none_right_eq_some.mp hs
      obtain rfl := Option.some.inj hs
      exact onFifoTimer_delivers timer s f h
  | triggerAll mode =>
      obtain ⟨-, hs⟩ := Option.ite_none_right_eq_some.mp hs
      exact hdma h hs
  | check => exact hdma h hs
  | start =>
      obtain ⟨c, -, hs⟩ := Option.bind_eq_some_iff.mp hs
      split at hs
      · cases hs
      · exact hdma h hs
  | finish dest src => exact hdma h hs
  | soundDma values src =>
      obtain ⟨c, hc, hs⟩ := Option.bind_eq_some_iff.mp hs
      obtain ⟨-, hs⟩ := Option.ite_none_right_eq_some.mp hs
      obtain ⟨started, hstart, hs⟩ := Option.bind_eq_some_iff.mp hs
      have hfirst := hdma h hstart
      have hwords := storeAt_delivers f (s.dma.1.channels c).currentDest (List.ofFn values) started
        hfirst.ring.good
      have hall := (hfirst.trans hwords).trans (hdma hwords.ring.good hs)
      rw [List.nil_append, List.append_nil] at hall
      rw [fifoEvents, hc]
      exact hall

end AdvancedSlop
