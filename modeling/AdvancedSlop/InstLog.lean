/-
# The instruction log

`src/debug_inst_log.rs` writes instructions, text and memory accesses to a stream of records;
`decode_file` of `src/inst_log_format.rs` prints them again.  The gates that decide whether a site
logs at all stand before the functions here, and the decoder runs without its filters; a printed
line stands for its text by the data it is formatted from.

* `writeRecord`, `writeText`, `logMem`, `logMemSlice` : the encoder;
* `decodeRecord`, `decodeFile` : the decoder;
* `inst_log_round_trip` : a log decodes to what was logged, and a truncated one to a prefix.
-/
import AdvancedSlop.ByteReader
import AdvancedSlop.JitMemory

namespace AdvancedSlop

open ByteReader WordMemory

theorem neZero_cpus : NeZero 2 := ⟨by decide⟩
theorem neZero_statusWords : NeZero 4 := ⟨by decide⟩

attribute [local instance] neZero_cpus neZero_statusWords

/-! ## The format -/

/-- `InstLogRecord`. -/
@[ext] structure InstLogRecord where
  regs : Fin 15 → BitVec 32
  pc : BitVec 32
  cpsr : BitVec 32
  spsr : BitVec 32
  opcode : BitVec 32
  cpu : UInt8
  deriving DecidableEq

namespace InstLogRecord

/-- The words of a record, in the order of its fields. -/
def words (r : InstLogRecord) : Fin (15 + 4) → BitVec 32 :=
  Fin.append r.regs ![r.pc, r.cpsr, r.spsr, r.opcode]

/-- The plain data of the words. -/
abbrev wordPod : Pod (List.Vector (BitVec 32) (15 + 4)) := (Pod.word 4).slice (15 + 4)

/-- The record as its bytes lie in memory; what the padding behind `cpu` holds is not specified. -/
def bytes (r : InstLogRecord) (padding : List.Vector UInt8 3) : List UInt8 :=
  wordPod.bytes (.ofFn r.words) ++ r.cpu :: padding.toList

/-- The record that bytes are read as. -/
def ofBytes (bytes : List UInt8) : InstLogRecord :=
  let words := wordPod.ofBytes (bytes.take 76)
  { regs := fun i => words.get (Fin.castAdd 4 i)
    pc := words.get (Fin.natAdd 15 0)
    cpsr := words.get (Fin.natAdd 15 1)
    spsr := words.get (Fin.natAdd 15 2)
    opcode := words.get (Fin.natAdd 15 3)
    cpu := bytes.getD 76 0 }

theorem length_bytes (r : InstLogRecord) (padding : List.Vector UInt8 3) :
    (r.bytes padding).length = 80 := by
  rw [bytes, List.length_append, wordPod.length_bytes, List.length_cons, padding.toList_length]
  rfl

theorem ofBytes_bytes (r : InstLogRecord) (padding : List.Vector UInt8 3) :
    ofBytes (r.bytes padding) = r := by
  have hlen : (wordPod.bytes (.ofFn r.words)).length = 76 := wordPod.length_bytes _
  have htake : (r.bytes padding).take 76 = wordPod.bytes (.ofFn r.words) := by
    rw [bytes, List.take_append_of_le_length hlen.ge, List.take_of_length_le hlen.le]
  have hcpu : (r.bytes padding).getD 76 0 = r.cpu := by
    rw [bytes, List.getD_eq_getElem?_getD, List.getElem?_append_right hlen.le, hlen]
    rfl
  simp only [ofBytes, htake, hcpu, wordPod.ofBytes_bytes, List.Vector.get_ofFn, words,
    Fin.append_left, Fin.append_right]
  rfl

end InstLogRecord

/-- `RECORD_SIZE`. -/
def RECORD_SIZE : ℕ := 80

/-- `TAG_INST`. -/
def TAG_INST : UInt8 := 0
/-- `TAG_TEXT`. -/
def TAG_TEXT : UInt8 := 1
/-- `TAG_INST_DELTA`. -/
def TAG_INST_DELTA : UInt8 := 2
/-- `TAG_MEM`. -/
def TAG_MEM : UInt8 := 3

/-- `FLAG_PC_SEQ`. -/
def FLAG_PC_SEQ : UInt8 := (1 : UInt8) <<< 1
/-- `FLAG_OPCODE_SAME`. -/
def FLAG_OPCODE_SAME : UInt8 := (1 : UInt8) <<< 2
/-- `FLAG_SPSR_SAME`. -/
def FLAG_SPSR_SAME : UInt8 := (1 : UInt8) <<< 3
/-- `FLAG_CPSR_SAME`. -/
def FLAG_CPSR_SAME : UInt8 := (1 : UInt8) <<< 4
/-- `KEYFRAME_INTERVAL`. -/
def KEYFRAME_INTERVAL : ℕ := 2 ^ 20

/-- `MEM_FLAG_CPU7`. -/
def MEM_FLAG_CPU7 : UInt8 := (1 : UInt8) <<< 4

/-- `MEM_WIDTHS`, by a code of two bits. -/
def MEM_WIDTHS (code : UInt8) : ℕ :=
  if code = 0 then 0 else if code = 1 then 1 else if code = 2 then 2 else 4

/-- `MemLogKind`. -/
inductive MemLogKind
  | read
  | readValue
  | writeValue
  | sliceReadSize
  | fixedReadSize
  | fixedWriteSize
  | memsetWriteSize
  | sliceReadValue
  | fixedReadValue
  | sliceWriteValue
  | fixedWriteValue
  deriving DecidableEq

namespace MemLogKind

/-- `kind as u8`. -/
def code : MemLogKind → UInt8
  | read => 0
  | readValue => 1
  | writeValue => 2
  | sliceReadSize => 3
  | fixedReadSize => 4
  | fixedWriteSize => 5
  | memsetWriteSize => 6
  | sliceReadValue => 7
  | fixedReadValue => 8
  | sliceWriteValue => 9
  | fixedWriteValue => 10

/-- `element_stride`. -/
def elementStride (kind : MemLogKind) (elementSize : ℕ) : ℕ :=
  if kind = sliceReadValue ∨ kind = sliceWriteValue then elementSize else 0

end MemLogKind

/-- `thumb`. -/
def thumbBit (cpsr : BitVec 32) : Bool := cpsr &&& 0x20 ≠ 0

/-- What the program counter moves on by when it is not logged. -/
def pcAdvance (cpsr : BitVec 32) : BitVec 32 := if thumbBit cpsr then 2 else 4

/-- `mem_meta`. -/
def memMeta (cpu : UInt8) (kind : MemLogKind) (widthCode : UInt8) : UInt8 :=
  kind.code ||| (if cpu &&& 1 = 1 then MEM_FLAG_CPU7 else 0) ||| (widthCode <<< 5)

/-- `mem_is_slice`. -/
def memIsSlice (kind : UInt8) : Bool := kind = 7 ∨ kind = 8 ∨ kind = 9 ∨ kind = 10

/-- `mem_stride`. -/
def memStride (kind : UInt8) (elementSize : ℕ) : ℕ :=
  if kind = 7 ∨ kind = 9 then elementSize else 0

/-- A little-endian word. -/
abbrev leWord : Pod (BitVec 32) := Pod.word 4

/-! ## The encoder -/

/-- `PrevState`. -/
structure PrevState where
  regs : Fin 15 → BitVec 32
  pc : BitVec 32
  cpsr : BitVec 32
  spsr : BitVec 32
  opcode : BitVec 32
  valid : Bool
  sinceKeyframe : ℕ

namespace PrevState

/-- `default_const`. -/
def default : PrevState := ⟨fun _ => 0, 0, 0, 0, 0, false, 0⟩

/-- The record that was written last. -/
def record (prev : PrevState) : InstLogRecord :=
  ⟨prev.regs, prev.pc, prev.cpsr, prev.spsr, prev.opcode, 0⟩

end PrevState

section Delta

variable (prev record : InstLogRecord)

/-- Whether the record's program counter follows the previous one. -/
def pcSeq : Bool := record.pc = prev.pc + pcAdvance record.cpsr

/-- The flags of a delta. -/
def deltaFlags : UInt8 :=
  (if pcSeq prev record then FLAG_PC_SEQ else 0) |||
    (if record.cpsr = prev.cpsr then FLAG_CPSR_SAME else 0) |||
    (if record.spsr = prev.spsr then FLAG_SPSR_SAME else 0) |||
    (if record.opcode = prev.opcode then FLAG_OPCODE_SAME else 0)

/-- The registers that changed, in ascending order. -/
def changedRegs : List (Fin 15) :=
  (List.finRange 15).filter fun i => record.regs i ≠ prev.regs i

/-- A register's bit of the mask. -/
def regBit (i : Fin 15) : BitVec 16 := 1#16 <<< i.1

/-- The mask of the changed registers. -/
def deltaMask : BitVec 16 :=
  (changedRegs prev record).foldl (fun mask i => mask ||| regBit i) 0

/-- The words of a delta. -/
def deltaPayload : List (BitVec 32) :=
  (if pcSeq prev record then [] else [record.pc]) ++
    (if record.cpsr = prev.cpsr then [] else [record.cpsr]) ++
    (if record.spsr = prev.spsr then [] else [record.spsr]) ++
    (if record.opcode = prev.opcode then [] else [record.opcode]) ++
    (changedRegs prev record).map record.regs

/-- The worst case the payload's array is made for. -/
theorem length_deltaPayload_le : (deltaPayload prev record).length ≤ 19 := by
  have hregs : (changedRegs prev record).length ≤ 15 :=
    (List.length_filter_le _ _).trans (List.length_finRange).le
  have hone : ∀ (c : Prop) [Decidable c] (w : BitVec 32), (if c then [] else [w]).length ≤ 1 := by
    intro c _ w
    split
    · exact Nat.zero_le 1
    · exact le_rfl
  simp only [deltaPayload, List.length_append, List.length_map]
  have h1 := hone (pcSeq prev record = true) record.pc
  have h2 := hone (record.cpsr = prev.cpsr) record.cpsr
  have h3 := hone (record.spsr = prev.spsr) record.spsr
  have h4 := hone (record.opcode = prev.opcode) record.opcode
  omega

/-- A delta record. -/
def deltaBytes : List UInt8 :=
  [TAG_INST_DELTA, deltaFlags prev record] ++ (Pod.word 2).bytes (deltaMask prev record) ++
    (deltaPayload prev record).flatMap leWord.bytes

end Delta

/-- `write_record`: a keyframe now and then, and what changed in between. -/
def writeRecord (prev : PrevState) (padding : List.Vector UInt8 3) (regs : Fin 15 → BitVec 32)
    (pc cpsr spsr opcode : BitVec 32) : List UInt8 × PrevState :=
  let record : InstLogRecord := ⟨regs, pc, cpsr, spsr, opcode, 0⟩
  if !prev.valid || KEYFRAME_INTERVAL ≤ prev.sinceKeyframe then
    (TAG_INST :: record.bytes padding, ⟨regs, pc, cpsr, spsr, opcode, true, 0⟩)
  else
    (deltaBytes prev.record record,
      ⟨regs, pc, cpsr, spsr, opcode, true, prev.sinceKeyframe + 1⟩)

/-- `write_text`. -/
def writeText (s : List UInt8) (newline : Bool) : List UInt8 :=
  TAG_TEXT :: leWord.bytes (BitVec.ofNat 32 s.length) ++ s ++ [if newline then 1 else 0]

/-- The width code of a value. -/
def valueCode (value : BitVec 32) : UInt8 :=
  if value = 0 then 0 else if value.toNat ≤ 0xFF then 1 else if value.toNat ≤ 0xFFFF then 2 else 3

/-- `log_mem`. -/
def logMem (kind : MemLogKind) (addr value : BitVec 32) : List UInt8 :=
  TAG_MEM :: memMeta 0 kind (valueCode value) :: leWord.bytes addr ++
    (leWord.bytes value).take (MEM_WIDTHS (valueCode value))

/-- The width code of the elements of a slice. -/
def MemWidth.code (width : MemWidth) : UInt8 :=
  if width.bytes = 1 then 1 else if width.bytes = 2 then 2 else 3

/-- `log_mem_slice`. -/
def logMemSlice (kind : MemLogKind) (width : MemWidth) (addr : BitVec 32)
    (values : List width.Value) : List UInt8 :=
  if values.isEmpty then []
  else
    TAG_MEM :: memMeta 0 kind width.code :: leWord.bytes addr ++
      leWord.bytes (BitVec.ofNat 32 values.length) ++ values.flatMap (Pod.word width.bytes).bytes

/-- A call of the encoder.  A single access is not of a slice kind and a slice access is, as their
functions ask for; lengths are those of a `usize` of 32 bits. -/
inductive LogEntry
  | inst (padding : List.Vector UInt8 3) (regs : Fin 15 → BitVec 32)
      (pc cpsr spsr opcode : BitVec 32)
  | text (s : List UInt8) (newline : Bool) (hlen : s.length < 2 ^ 32)
  | mem (kind : MemLogKind) (addr value : BitVec 32) (hkind : memIsSlice kind.code = false)
  | memSlice (kind : MemLogKind) (width : MemWidth) (addr : BitVec 32) (values : List width.Value)
      (hkind : memIsSlice kind.code = true) (hlen : values.length < 2 ^ 32)

/-- What a call writes. -/
def LogEntry.write (prev : PrevState) : LogEntry → List UInt8 × PrevState
  | .inst padding regs pc cpsr spsr opcode => writeRecord prev padding regs pc cpsr spsr opcode
  | .text s newline _ => (writeText s newline, prev)
  | .mem kind addr value _ => (logMem kind addr value, prev)
  | .memSlice kind width addr values _ _ => (logMemSlice kind width addr values, prev)

/-- The log of a sequence of calls. -/
def writeLog : PrevState → List LogEntry → List UInt8
  | _, [] => []
  | prev, entry :: entries => (entry.write prev).1 ++ writeLog (entry.write prev).2 entries

/-! ## The decoder -/

/-- A line that is printed: an instruction with its registers, a text, an access. -/
inductive LogLine
  | inst (record : InstLogRecord)
  | text (s : List UInt8) (newline : Bool)
  | mem (cpu kind : UInt8) (addr value : BitVec 32)
  deriving DecidableEq

/-- The last record of each cpu. -/
abbrev PrevRecords := Fin 2 → Option InstLogRecord

/-- `next_word`, for a field that is only logged when its flag is clear. -/
def nextWordUnless (flags flag : UInt8) (same : BitVec 32) : ByteReader (BitVec 32) :=
  if flags &&& flag = 0 then readPod leWord else pure same

/-- A register of a delta, if its bit is in the mask. -/
def readDeltaReg (mask : BitVec 16) (regs : Fin 15 → BitVec 32) (i : Fin 15) :
    ByteReader (Fin 15 → BitVec 32) :=
  if mask &&& regBit i ≠ 0 then do
    let word ← readPod leWord
    pure (Function.update regs i word)
  else pure regs

/-- The words of a delta against the previous record.  A word that is cut off ends the decoding. -/
def readDelta (flags : UInt8) (mask : BitVec 16) (prev : InstLogRecord) :
    ByteReader InstLogRecord := do
  let explicitPc ← nextWordUnless flags FLAG_PC_SEQ 0
  let cpsr ← nextWordUnless flags FLAG_CPSR_SAME prev.cpsr
  let spsr ← nextWordUnless flags FLAG_SPSR_SAME prev.spsr
  let opcode ← nextWordUnless flags FLAG_OPCODE_SAME prev.opcode
  let regs ← (List.finRange 15).foldlM (readDeltaReg mask) prev.regs
  let pc := if flags &&& FLAG_PC_SEQ = 0 then explicitPc else prev.pc + pcAdvance cpsr
  pure ⟨regs, pc, cpsr, spsr, opcode, prev.cpu⟩

/-- `next_value`: `width` bytes, as the low ones of a word. -/
def nextValue (width : ℕ) : ByteReader (BitVec 32) := do
  let buf ← readExact width
  pure (leWord.ofBytes buf)

/-- The value of a single access, which is 0 when it has no bytes. -/
def singleValue (width : ℕ) : ByteReader (BitVec 32) :=
  if width = 0 then pure 0 else nextValue width

/-- The elements of a slice from the `i`th on, `n` of them.  Where one is cut off the failed read
has taken what was left of the stream. -/
def sliceLines (cpu kind : UInt8) (width : ℕ) (addr : BitVec 32) :
    (i n : ℕ) → List UInt8 → List LogLine × List UInt8
  | _, 0, stream => ([], stream)
  | i, n + 1, stream =>
      match nextValue width stream with
      | none => ([], [])
      | some (value, rest) =>
          let stride := BitVec.ofNat 32 (memStride kind width)
          let line := LogLine.mem cpu kind (addr + BitVec.ofNat 32 i * stride) value
          let lines := sliceLines cpu kind width addr (i + 1) n rest
          (line :: lines.1, lines.2)

/-- The arm of `TAG_INST`. -/
def decodeInst (prev : PrevRecords) : ByteReader (List LogLine × PrevRecords) := do
  let buf ← readExact RECORD_SIZE
  let record := InstLogRecord.ofBytes buf
  pure ([.inst record],
    if h : record.cpu.toNat < 2 then Function.update prev ⟨record.cpu.toNat, h⟩ (some record)
    else prev)

/-- The arm of `TAG_INST_DELTA`. -/
def decodeDelta (prev : PrevRecords) : ByteReader (List LogLine × PrevRecords) := do
  let flags ← readExact 1
  let mask ← readPod (Pod.word 2)
  match prev 0 with
  | none => failure
  | some last => do
      let record ← readDelta (flags.getD 0 0) mask last
      pure ([.inst record], Function.update prev 0 (some record))

/-- The arm of `TAG_TEXT`. -/
def decodeText (prev : PrevRecords) : ByteReader (List LogLine × PrevRecords) := do
  let len ← readPod leWord
  let text ← readExact len.toNat
  let newline ← readExact 1
  pure ([.text text (newline.getD 0 0 ≠ 0)], prev)

/-- The arm of `TAG_MEM`. -/
def decodeMem (prev : PrevRecords) : ByteReader (List LogLine × PrevRecords) := do
  let head ← readExact 1
  let addr ← readPod leWord
  let kind := head.getD 0 0 &&& 0xF
  let cpu := (head.getD 0 0 >>> 4) &&& 1
  let width := MEM_WIDTHS ((head.getD 0 0 >>> 5) &&& 3)
  if memIsSlice kind then do
    let count ← readPod leWord
    fun stream =>
      let r := sliceLines cpu kind width addr 0 count.toNat stream
      some ((r.1, prev), r.2)
  else do
    let value ← singleValue width
    pure ([.mem cpu kind addr value], prev)

/-- A record after its tag; no result where the decoding ends. -/
def decodeRecord (tag : UInt8) (prev : PrevRecords) : ByteReader (List LogLine × PrevRecords) :=
  if tag = TAG_INST then decodeInst prev
  else if tag = TAG_INST_DELTA then decodeDelta prev
  else if tag = TAG_TEXT then decodeText prev
  else if tag = TAG_MEM then decodeMem prev
  else failure

/-- What is printed of a record, by what is printed of a longer stream. -/
abbrev FewerLines (out out' : List LogLine × PrevRecords) : Prop := out.1 <+: out'.1

/-! ## Truncated streams -/

theorem nextValue_extends (width : ℕ) : Extends (nextValue width) :=
  (Extends.readExact width).bind fun buf => Extends.pure (leWord.ofBytes buf)

/-- The elements of a slice in a longer stream. -/
theorem sliceLines_extends (cpu kind : UInt8) (width : ℕ) (addr : BitVec 32) (n : ℕ) :
    ∀ (i : ℕ) (s : List UInt8),
      (sliceLines cpu kind width addr i n s).2 <:+ s ∧ ∀ t,
        sliceLines cpu kind width addr i n (s ++ t)
            = ((sliceLines cpu kind width addr i n s).1,
              (sliceLines cpu kind width addr i n s).2 ++ t) ∨
          (sliceLines cpu kind width addr i n s).2 = [] ∧
            (sliceLines cpu kind width addr i n s).1
              <+: (sliceLines cpu kind width addr i n (s ++ t)).1 := by
  induction n with
  | zero => exact fun i s => ⟨List.suffix_rfl, fun t => Or.inl rfl⟩
  | succ n ih =>
      intro i s
      rcases hvalue : nextValue width s with _ | ⟨value, rest⟩
      · simp only [sliceLines, hvalue]
        exact ⟨List.nil_suffix, fun t => Or.inr ⟨trivial, List.nil_prefix⟩⟩
      · obtain ⟨hsuf, hext⟩ := nextValue_extends width s value rest hvalue
        obtain ⟨hsuf', hext'⟩ := ih (i + 1) rest
        simp only [sliceLines, hvalue]
        refine ⟨hsuf'.trans hsuf, fun t => ?_⟩
        simp only [hext t]
        rcases hext' t with h | ⟨hnil, hpre⟩
        · left
          rw [h]
        · right
          exact ⟨hnil, (List.prefix_cons_inj _).2 hpre⟩

/-- What a record is decoded to in a longer stream. -/
theorem decodeRecord_extends (tag : UInt8) (prev : PrevRecords) :
    ExtendsUpTo FewerLines (decodeRecord tag prev) := by
  have hword : ∀ flags flag same, Extends (nextWordUnless flags flag same) :=
    fun flags flag same => (Extends.readPod leWord).ite (Extends.pure same)
  have hreg : ∀ mask regs i, Extends (readDeltaReg mask regs i) := fun mask regs i =>
    ((Extends.readPod leWord).bind fun _ => Extends.pure _).ite (Extends.pure regs)
  have hdelta : ∀ flags mask last, Extends (readDelta flags mask last) := fun flags mask last =>
    (hword _ _ _).bind fun _ => (hword _ _ _).bind fun _ => (hword _ _ _).bind fun _ =>
      (hword _ _ _).bind fun _ => (Extends.foldlM (hreg mask) _ _).bind fun _ => Extends.pure _
  have hvalue : ∀ width, Extends (singleValue width) := fun width =>
    (Extends.pure 0).ite (nextValue_extends width)
  apply ExtendsUpTo.ite
  · exact ((Extends.readExact RECORD_SIZE).bind fun buf => Extends.pure _).upTo _
  apply ExtendsUpTo.ite
  · apply (Extends.readExact 1).bind_upTo
    intro flags
    apply (Extends.readPod (Pod.word 2)).bind_upTo
    intro mask
    cases prev 0 with
    | none => exact ExtendsUpTo.failure _
    | some last => exact ((hdelta _ mask last).bind fun record => Extends.pure _).upTo _
  apply ExtendsUpTo.ite
  · exact ((Extends.readPod leWord).bind fun len => (Extends.readExact len.toNat).bind fun text =>
      (Extends.readExact 1).bind fun newline => Extends.pure _).upTo _
  apply ExtendsUpTo.ite
  · apply (Extends.readExact 1).bind_upTo
    intro head
    apply (Extends.readPod leWord).bind_upTo
    intro addr
    apply ExtendsUpTo.ite
    · apply (Extends.readPod leWord).bind_upTo
      intro count s out rest h
      obtain ⟨rfl, rfl⟩ := Prod.mk.inj (Option.some.inj h)
      obtain ⟨hsuf, hext⟩ := sliceLines_extends _ _ _ addr count.toNat 0 s
      refine ⟨hsuf, fun t => (hext t).imp (fun h => ?_) fun h => ⟨h.1, _, _, rfl, h.2⟩⟩
      simp only [h]
    · exact ((hvalue _).bind fun value => Extends.pure _).upTo _
  · exact ExtendsUpTo.failure _

/-- The records of a stream, up to its end or to one that is cut off or unknown. -/
def decodeLoop (prev : PrevRecords) : List UInt8 → List LogLine
  | [] => []
  | tag :: body =>
      match _h : decodeRecord tag prev body with
      | none => []
      | some ((lines, prev'), rest) => lines ++ decodeLoop prev' rest
termination_by stream => stream.length
decreasing_by
  exact Nat.lt_succ_of_le ((decodeRecord_extends tag prev).length_le _h)

/-- `decode_file`, without filters. -/
def decodeFile (stream : List UInt8) : List LogLine := decodeLoop (fun _ => none) stream

theorem decodeLoop_nil (prev : PrevRecords) : decodeLoop prev [] = [] := by
  rw [decodeLoop]

theorem decodeLoop_cons_of_none {tag : UInt8} {prev : PrevRecords} {body : List UInt8}
    (h : decodeRecord tag prev body = none) : decodeLoop prev (tag :: body) = [] := by
  rw [decodeLoop]
  split
  · rfl
  · next h' => exact absurd (h.symm.trans h') (Option.some_ne_none _).symm

theorem decodeLoop_cons_of_some {tag : UInt8} {prev prev' : PrevRecords} {lines : List LogLine}
    {body rest : List UInt8} (h : decodeRecord tag prev body = some ((lines, prev'), rest)) :
    decodeLoop prev (tag :: body) = lines ++ decodeLoop prev' rest := by
  rw [decodeLoop]
  split
  · next h' => exact absurd (h.symm.trans h') (Option.some_ne_none _)
  · next h' =>
    obtain ⟨hout, rfl⟩ := Prod.mk.inj (Option.some.inj (h.symm.trans h'))
    obtain ⟨rfl, rfl⟩ := Prod.mk.inj hout
    rfl

/-- **A stream that goes on** is decoded to what goes on. -/
theorem decodeLoop_append (t : List UInt8) (s : List UInt8) (prev : PrevRecords) :
    decodeLoop prev s <+: decodeLoop prev (s ++ t) := by
  induction hn : s.length using Nat.strong_induction_on generalizing s prev with
  | _ n ih =>
      cases s with
      | nil =>
          rw [decodeLoop_nil]
          exact List.nil_prefix
      | cons tag body =>
          rcases h : decodeRecord tag prev body with _ | ⟨⟨lines, prev'⟩, rest⟩
          · rw [decodeLoop_cons_of_none h]
            exact List.nil_prefix
          · obtain ⟨hsuf, hext⟩ := decodeRecord_extends tag prev body _ _ h
            rw [decodeLoop_cons_of_some h, List.cons_append]
            rcases hext t with h' | ⟨rfl, ⟨lines', prev''⟩, rest', h', hpre⟩
            · rw [decodeLoop_cons_of_some h', List.prefix_append_right_inj]
              have hlt : rest.length < n := by
                rw [← hn]
                exact Nat.lt_succ_of_le hsuf.length_le
              exact ih rest.length hlt rest prev' rfl
            · rw [decodeLoop_cons_of_some h', decodeLoop_nil, List.append_nil]
              exact hpre.trans (List.prefix_append _ _)

/-! ## Deltas -/

section Delta

variable {prev record : InstLogRecord}

theorem getLsbD_regBit (i j : Fin 15) : (regBit j).getLsbD i = true ↔ i = j := by
  have hj : j.1 < 16 := j.isLt.trans (by decide)
  rw [regBit, ← BitVec.twoPow_eq, BitVec.getLsbD_twoPow, Bool.and_eq_true, decide_eq_true_eq,
    decide_eq_true_eq, Fin.ext_iff]
  exact ⟨fun h => h.2.symm, fun h => ⟨hj, h.symm⟩⟩

/-- A mask is tested bit by bit. -/
theorem and_regBit (mask : BitVec 16) (i : Fin 15) :
    mask &&& regBit i ≠ 0 ↔ mask.getLsbD i = true := by
  have hne : regBit i ≠ 0 := by
    intro h
    have hbit := (getLsbD_regBit i i).2 rfl
    rw [h, BitVec.ofNat_eq_ofNat, BitVec.getLsbD_zero] at hbit
    exact Bool.false_ne_true hbit
  rw [regBit, ← BitVec.twoPow_eq] at hne ⊢
  rw [BitVec.and_twoPow]
  split
  · next h => exact ⟨fun _ => h, fun _ => hne⟩
  · next h => exact ⟨fun hn => absurd rfl hn, fun hb => absurd hb h⟩

/-- The mask of a list of registers. -/
theorem getLsbD_mask (l : List (Fin 15)) (i : Fin 15) : ∀ mask : BitVec 16,
    (l.foldl (fun mask i => mask ||| regBit i) mask).getLsbD i = true ↔
      mask.getLsbD i = true ∨ i ∈ l := by
  induction l with
  | nil =>
      intro mask
      rw [List.foldl_nil]
      exact ⟨Or.inl, fun h => h.elim id fun hi => absurd hi List.not_mem_nil⟩
  | cons j l ih =>
      intro mask
      rw [List.foldl_cons, ih, List.mem_cons, BitVec.getLsbD_or, Bool.or_eq_true,
        getLsbD_regBit, or_assoc]

/-- The mask has the registers that changed. -/
theorem deltaMask_and_regBit (i : Fin 15) :
    deltaMask prev record &&& regBit i ≠ 0 ↔ record.regs i ≠ prev.regs i := by
  rw [and_regBit, deltaMask, getLsbD_mask, changedRegs, List.mem_filter, decide_eq_true_eq,
    BitVec.ofNat_eq_ofNat, BitVec.getLsbD_zero]
  exact ⟨fun h => h.elim (fun h => absurd h Bool.false_ne_true) And.right,
    fun h => Or.inr ⟨List.mem_finRange i, h⟩⟩

/-- The flags, each of which is read on its own. -/
theorem deltaFlags_and :
    (deltaFlags prev record &&& FLAG_PC_SEQ = 0 ↔ pcSeq prev record = false) ∧
      (deltaFlags prev record &&& FLAG_CPSR_SAME = 0 ↔ record.cpsr ≠ prev.cpsr) ∧
      (deltaFlags prev record &&& FLAG_SPSR_SAME = 0 ↔ record.spsr ≠ prev.spsr) ∧
      (deltaFlags prev record &&& FLAG_OPCODE_SAME = 0 ↔ record.opcode ≠ prev.opcode) := by
  have hflags : ∀ a b c d : Bool,
      let flags := (if a then FLAG_PC_SEQ else 0) ||| (if b then FLAG_CPSR_SAME else 0) |||
        (if c then FLAG_SPSR_SAME else 0) ||| (if d then FLAG_OPCODE_SAME else 0)
      (flags &&& FLAG_PC_SEQ = 0 ↔ a = false) ∧ (flags &&& FLAG_CPSR_SAME = 0 ↔ b = false) ∧
        (flags &&& FLAG_SPSR_SAME = 0 ↔ c = false) ∧
        (flags &&& FLAG_OPCODE_SAME = 0 ↔ d = false) := by
    decide
  have h := hflags (pcSeq prev record) (record.cpsr = prev.cpsr) (record.spsr = prev.spsr)
    (record.opcode = prev.opcode)
  simpa only [deltaFlags, decide_eq_true_eq, decide_eq_false_iff_not] using h

/-- A field of a delta that is written unless it is the same. -/
theorem nextWordUnless_run {flags flag : UInt8} {c : Prop} [Decidable c]
    (hflag : flags &&& flag = 0 ↔ ¬ c) (same w : BitVec 32) (t : List UInt8) :
    nextWordUnless flags flag same ((if c then [] else [w]).flatMap leWord.bytes ++ t)
      = some (if c then same else w, t) := by
  by_cases hc : c
  · rw [nextWordUnless, if_neg (fun h => hflag.1 h hc), if_pos hc, if_pos hc]
    rfl
  · rw [nextWordUnless, if_pos (hflag.2 hc), if_neg hc, if_neg hc, List.flatMap_singleton]
    exact readPod_append leWord w t

/-- The registers of a delta, those that are left to read. -/
theorem readDeltaReg_run {mask : BitVec 16} {old new : Fin 15 → BitVec 32}
    (hmask : ∀ i, mask &&& regBit i ≠ 0 ↔ new i ≠ old i) (t : List UInt8) (l : List (Fin 15)) :
    ∀ regs, (∀ i ∉ l, regs i = new i) → (∀ i ∈ l, regs i = old i) → l.Nodup →
      l.foldlM (readDeltaReg mask) regs
          (((l.filter fun i => new i ≠ old i).map new).flatMap leWord.bytes ++ t)
        = some (new, t) := by
  induction l with
  | nil =>
      intro regs hread _ _
      rw [funext fun i => hread i List.not_mem_nil]
      rfl
  | cons j l ih =>
      intro regs hread hleft hnodup
      obtain ⟨hj, hnodup⟩ := List.nodup_cons.1 hnodup
      rw [List.foldlM_cons]
      by_cases hchanged : new j ≠ old j
      · have hword := readPod_append leWord (new j)
          (((l.filter fun i => new i ≠ old i).map new).flatMap leWord.bytes ++ t)
        have hfilter : (j :: l).filter (fun i => new i ≠ old i)
            = j :: l.filter fun i => new i ≠ old i :=
          List.filter_cons_of_pos (decide_eq_true hchanged)
        rw [readDeltaReg, if_pos ((hmask j).2 hchanged), hfilter, List.map_cons, List.flatMap_cons,
          List.append_assoc, bind_of_run _ (bind_of_run _ hword)]
        apply ih _ _ _ hnodup
        · intro i hi
          by_cases hij : i = j
          · rw [hij, Function.update_self]
          · rw [Function.update_of_ne hij]
            exact hread i fun h => (List.mem_cons.1 h).elim hij hi
        · intro i hi
          rw [Function.update_of_ne fun h : i = j => hj (h ▸ hi)]
          exact hleft i (List.mem_cons_of_mem j hi)
      · have hfilter : (j :: l).filter (fun i => new i ≠ old i)
            = l.filter fun i => new i ≠ old i :=
          List.filter_cons_of_neg (by rw [decide_eq_true_eq]; exact hchanged)
        rw [readDeltaReg, if_neg fun h => hchanged ((hmask j).1 h), hfilter]
        refine ih regs (fun i hi => ?_) (fun i hi => hleft i (List.mem_cons_of_mem j hi)) hnodup
        by_cases hij : i = j
        · rw [hij, hleft j List.mem_cons_self, not_ne_iff.1 hchanged]
        · exact hread i fun h => (List.mem_cons.1 h).elim hij hi

/-- **A delta is read back** against the record it was made from. -/
theorem readDelta_run (hcpu : record.cpu = prev.cpu) (t : List UInt8) :
    readDelta (deltaFlags prev record) (deltaMask prev record) prev
      ((deltaPayload prev record).flatMap leWord.bytes ++ t) = some (record, t) := by
  obtain ⟨hpc, hcpsr, hspsr, hopcode⟩ := @deltaFlags_and prev record
  have hregs : ∀ t, (List.finRange 15).foldlM (readDeltaReg (deltaMask prev record)) prev.regs
      (((changedRegs prev record).map record.regs).flatMap leWord.bytes ++ t)
        = some (record.regs, t) := fun t =>
    readDeltaReg_run deltaMask_and_regBit t (List.finRange 15) prev.regs
      (fun i hi => absurd (List.mem_finRange i) hi) (fun i _ => rfl) (List.nodup_finRange 15)
  have hsame : ∀ w old : BitVec 32, (if w = old then old else w) = w := by
    intro w old
    split
    · next h => exact h.symm
    · rfl
  simp only [deltaPayload, List.flatMap_append, List.append_assoc]
  rw [readDelta, bind_of_run _ (nextWordUnless_run (c := pcSeq prev record = true)
      (by rw [hpc, Bool.not_eq_true]) 0 record.pc _),
    bind_of_run _ (nextWordUnless_run hcpsr prev.cpsr record.cpsr _),
    bind_of_run _ (nextWordUnless_run hspsr prev.spsr record.spsr _),
    bind_of_run _ (nextWordUnless_run hopcode prev.opcode record.opcode _),
    bind_of_run _ (hregs t), hsame, hsame, hsame, ← hcpu, pure_run]
  by_cases hseq : pcSeq prev record = true
  · rw [if_neg fun h => Bool.false_ne_true ((hpc.1 h).symm.trans hseq),
      ← of_decide_eq_true hseq]
  · rw [if_pos (hpc.2 (Bool.eq_false_iff.2 hseq)), if_neg hseq]

end Delta

/-! ## Memory records -/

/-- A value of `k` bytes as the low ones of a word. -/
theorem leWord_ofBytes {k : ℕ} (hk : k ≤ 4) (value : BitVec (8 * k)) :
    leWord.ofBytes ((Pod.word k).bytes value) = value.setWidth 32 := by
  have hpow : 2 ^ (8 * k) ≤ 2 ^ 32 := Nat.pow_le_pow_right (by decide) (by omega)
  have htoNat : (value.setWidth 32).toNat = value.toNat := by
    rw [BitVec.toNat_setWidth, Nat.mod_eq_of_lt (value.isLt.trans_le hpow)]
  have hword : leWord.ofBytes ((Pod.word k).bytes value)
      = readWord 4 (fun i => ((Pod.word k).bytes value).getD i 0) 0 := rfl
  rw [hword]
  refine (readWord_eq_iff (k := 4)).2 fun i hi => ?_
  rw [Nat.zero_add, List.getD_eq_getElem?_getD]
  show (((List.range k).map (byteOf value))[i]?).getD 0 = UInt8.ofNat (_ / 256 ^ i)
  rw [htoNat]
  by_cases hik : i < k
  · rw [List.getElem?_map, List.getElem?_range hik]
    rfl
  · have hlt : value.toNat < 256 ^ i := by
      have h256 : (256 : ℕ) ^ i = 2 ^ (8 * i) := by rw [pow_mul]; rfl
      rw [h256]
      exact value.isLt.trans_le (Nat.pow_le_pow_right (by decide) (by omega))
    rw [List.getElem?_eq_none (by rw [List.length_map, List.length_range]; omega),
      Nat.div_eq_of_lt hlt]
    rfl

/-- The low bytes of a word that fits in them. -/
theorem leWord_bytes_take {k : ℕ} (hk : k ≤ 4) {value : BitVec 32}
    (hvalue : value.toNat < 2 ^ (8 * k)) :
    (leWord.bytes value).take k = (Pod.word k).bytes (value.setWidth (8 * k)) := by
  show ((List.range 4).map (byteOf value)).take k = (List.range k).map (byteOf _)
  have htoNat : (value.setWidth (8 * k)).toNat = value.toNat := by
    rw [BitVec.toNat_setWidth, Nat.mod_eq_of_lt hvalue]
  rw [← List.map_take, List.take_range, Nat.min_eq_left hk]
  refine List.map_congr_left fun i _ => ?_
  rw [byteOf, byteOf, htoNat]

/-- A value of `k` bytes is read as a word. -/
theorem nextValue_run {k : ℕ} (hk : k ≤ 4) (value : BitVec (8 * k)) (t : List UInt8) :
    nextValue k ((Pod.word k).bytes value ++ t) = some (value.setWidth 32, t) := by
  have h : readExact k ((Pod.word k).bytes value ++ t) = some ((Pod.word k).bytes value, t) := by
    have h := readExact_append ((Pod.word k).bytes value) t
    rwa [(Pod.word k).length_bytes] at h
  rw [nextValue, bind_of_run _ h, pure_run, leWord_ofBytes hk]

/-- What a meta byte is taken apart to. -/
theorem memMeta_fields (kind : MemLogKind) {widthCode : UInt8} (hcode : widthCode.toNat < 4) :
    memMeta 0 kind widthCode &&& 0xF = kind.code ∧
      (memMeta 0 kind widthCode >>> 4) &&& 1 = 0 ∧
      (memMeta 0 kind widthCode >>> 5) &&& 3 = widthCode := by
  have hall : ∀ code : Fin 4, ∀ kind : MemLogKind,
      memMeta 0 kind (UInt8.ofNat code) &&& 0xF = kind.code ∧
        (memMeta 0 kind (UInt8.ofNat code) >>> 4) &&& 1 = 0 ∧
        (memMeta 0 kind (UInt8.ofNat code) >>> 5) &&& 3 = UInt8.ofNat code := by
    intro code kind
    revert code
    cases kind <;> decide
  have h := hall ⟨widthCode.toNat, hcode⟩ kind
  rwa [UInt8.ofNat_toNat] at h

/-- The bytes a value is written with hold it. -/
theorem valueCode_spec (value : BitVec 32) :
    (valueCode value).toNat < 4 ∧ MEM_WIDTHS (valueCode value) ≤ 4 ∧
      value.toNat < 2 ^ (8 * MEM_WIDTHS (valueCode value)) := by
  rw [valueCode]
  split
  · next h =>
    subst h
    decide
  · split
    · next h => exact ⟨by decide, by decide, Nat.lt_succ_of_le h⟩
    · split
      · next h => exact ⟨by decide, by decide, Nat.lt_succ_of_le h⟩
      · exact ⟨by decide, by decide, value.isLt⟩

theorem singleValue_run {k : ℕ} (hk : k ≤ 4) {value : BitVec 32}
    (hvalue : value.toNat < 2 ^ (8 * k)) (t : List UInt8) :
    singleValue k ((leWord.bytes value).take k ++ t) = some (value, t) := by
  rw [singleValue]
  split
  · next h =>
    subst h
    have hzero : value = 0 := BitVec.eq_of_toNat_eq (Nat.lt_one_iff.1 hvalue)
    rw [hzero]
    rfl
  · rw [leWord_bytes_take hk hvalue, nextValue_run hk]
    congr 2
    apply BitVec.eq_of_toNat_eq
    rw [BitVec.toNat_setWidth, BitVec.toNat_setWidth, Nat.mod_eq_of_lt hvalue,
      Nat.mod_eq_of_lt value.isLt]

/-- The byte after a tag. -/
theorem readExact_one (b : UInt8) (t : List UInt8) : readExact 1 (b :: t) = some ([b], t) :=
  readExact_append [b] t

/-- **A single access is read back.** -/
theorem decodeMem_single (prev : PrevRecords) {kind : MemLogKind} (addr value : BitVec 32)
    (hkind : memIsSlice kind.code = false) (t : List UInt8) :
    decodeMem prev (memMeta 0 kind (valueCode value) :: leWord.bytes addr ++
        (leWord.bytes value).take (MEM_WIDTHS (valueCode value)) ++ t)
      = some (([.mem 0 kind.code addr value], prev), t) := by
  obtain ⟨hcode, hwidth, hvalue⟩ := valueCode_spec value
  obtain ⟨hfield, hcpu, hwidthCode⟩ := memMeta_fields kind hcode
  rw [List.append_assoc, List.cons_append, decodeMem, bind_of_run _ (readExact_one _ _),
    bind_of_run _ (readPod_append leWord addr _)]
  simp only [List.getD_cons_zero, hfield, hcpu, hwidthCode, hkind, Bool.false_eq_true, if_false]
  rw [bind_of_run _ (singleValue_run hwidth hvalue t)]
  rfl

/-- The line of an element of a slice. -/
def elementLine (kind : MemLogKind) (width : MemWidth) (addr : BitVec 32)
    (element : width.Value × ℕ) : LogLine :=
  .mem 0 kind.code (addr + BitVec.ofNat 32 (element.2 * kind.elementStride width.bytes))
    (element.1.setWidth 32)

theorem memStride_code (kind : MemLogKind) (size : ℕ) :
    memStride kind.code size = kind.elementStride size := by
  cases kind <;> rfl

/-- The elements of a slice that are left to read. -/
theorem sliceLines_run (kind : MemLogKind) (width : MemWidth) (addr : BitVec 32)
    (t : List UInt8) (values : List width.Value) : ∀ i,
    sliceLines 0 kind.code width.bytes addr i values.length
        (values.flatMap (Pod.word width.bytes).bytes ++ t)
      = ((values.zipIdx i).map (elementLine kind width addr), t) := by
  have hwidth : width.bytes ≤ 4 := by cases width <;> decide
  induction values with
  | nil => exact fun i => rfl
  | cons value values ih =>
      intro i
      have haddr : BitVec.ofNat 32 i * BitVec.ofNat 32 (memStride kind.code width.bytes)
          = BitVec.ofNat 32 (i * kind.elementStride width.bytes) := by
        rw [memStride_code, BitVec.ofNat_mul]
      simp only [List.length_cons, List.flatMap_cons, List.append_assoc, sliceLines,
        nextValue_run hwidth value, ih (i + 1), List.zipIdx_cons, List.map_cons, elementLine, haddr]

theorem memWidth_code (width : MemWidth) :
    width.code.toNat < 4 ∧ MEM_WIDTHS width.code = width.bytes := by
  cases width <;> decide

/-- **A slice is read back**, element by element. -/
theorem decodeMem_slice (prev : PrevRecords) {kind : MemLogKind} (width : MemWidth)
    (addr : BitVec 32) (values : List width.Value) (hkind : memIsSlice kind.code = true)
    (hlen : values.length < 2 ^ 32) (t : List UInt8) :
    decodeMem prev (memMeta 0 kind width.code :: leWord.bytes addr ++
        leWord.bytes (BitVec.ofNat 32 values.length) ++
        values.flatMap (Pod.word width.bytes).bytes ++ t)
      = some ((values.zipIdx.map (elementLine kind width addr), prev), t) := by
  obtain ⟨hcode, hwidth⟩ := memWidth_code width
  obtain ⟨hfield, hcpu, hwidthCode⟩ := memMeta_fields kind hcode
  have hcount : (BitVec.ofNat 32 values.length).toNat = values.length := by
    rw [BitVec.toNat_ofNat, Nat.mod_eq_of_lt hlen]
  simp only [List.append_assoc, List.cons_append]
  rw [decodeMem, bind_of_run _ (readExact_one _ _), bind_of_run _ (readPod_append leWord addr _)]
  simp only [List.getD_cons_zero, hfield, hcpu, hwidthCode, hwidth, hkind, if_true]
  rw [bind_of_run _ (readPod_append leWord _ _)]
  simp only [hcount, sliceLines_run]

/-! ## The round trip -/

/-- The lines of an entry. -/
def LogEntry.lines : LogEntry → List LogLine
  | .inst _ regs pc cpsr spsr opcode => [.inst ⟨regs, pc, cpsr, spsr, opcode, 0⟩]
  | .text s newline _ => [.text s newline]
  | .mem kind addr value _ => [.mem 0 kind.code addr value]
  | .memSlice kind width addr values _ _ => values.zipIdx.map (elementLine kind width addr)

/-- The decoder has the record that the encoder wrote last. -/
def Coupled (prev : PrevState) (prevs : PrevRecords) : Prop :=
  prev.valid = true → prevs 0 = some prev.record

/-- **An instruction is read back**, and both sides have it as their last record. -/
theorem decodeLoop_writeRecord {prev : PrevState} {prevs : PrevRecords} (h : Coupled prev prevs)
    (padding : List.Vector UInt8 3) (regs : Fin 15 → BitVec 32) (pc cpsr spsr opcode : BitVec 32) :
    ∃ prevs', Coupled (writeRecord prev padding regs pc cpsr spsr opcode).2 prevs' ∧
      ∀ t, decodeLoop prevs ((writeRecord prev padding regs pc cpsr spsr opcode).1 ++ t)
        = .inst ⟨regs, pc, cpsr, spsr, opcode, 0⟩ :: decodeLoop prevs' t := by
  refine ⟨Function.update prevs 0 (some ⟨regs, pc, cpsr, spsr, opcode, 0⟩), ?_, ?_⟩
  · rw [writeRecord]
    intro _
    rw [Function.update_self]
    split <;> rfl
  intro t
  set record : InstLogRecord := ⟨regs, pc, cpsr, spsr, opcode, 0⟩ with hrecord
  rw [writeRecord]
  split
  · have hread : readExact RECORD_SIZE (record.bytes padding ++ t)
        = some (record.bytes padding, t) := by
      have h := readExact_append (record.bytes padding) t
      rwa [record.length_bytes] at h
    have hdecode : decodeRecord TAG_INST prevs (record.bytes padding ++ t)
        = some (([.inst record], Function.update prevs 0 (some record)), t) := by
      show decodeInst prevs _ = _
      rw [decodeInst, bind_of_run _ hread, record.ofBytes_bytes]
      rfl
    exact decodeLoop_cons_of_some hdecode
  · next hkey =>
    have hvalid : prev.valid = true := by
      rw [Bool.or_eq_true, not_or, Bool.not_eq_true'] at hkey
      exact Bool.not_eq_false _ ▸ hkey.1
    have hdecode : decodeRecord TAG_INST_DELTA prevs
        (deltaFlags prev.record record :: ((Pod.word 2).bytes (deltaMask prev.record record) ++
          ((deltaPayload prev.record record).flatMap leWord.bytes ++ t)))
        = some (([.inst record], Function.update prevs 0 (some record)), t) := by
      have hcpu : record.cpu = prev.record.cpu := rfl
      have hdelta := readDelta_run hcpu t
      show decodeDelta prevs _ = _
      rw [decodeDelta, bind_of_run _ (readExact_one _ _),
        bind_of_run _ (readPod_append (Pod.word 2) _ _), h hvalid]
      simp only [List.getD_cons_zero]
      rw [bind_of_run _ hdelta, pure_run]
    have hbytes : deltaBytes prev.record record ++ t = TAG_INST_DELTA ::
        deltaFlags prev.record record :: ((Pod.word 2).bytes (deltaMask prev.record record) ++
          ((deltaPayload prev.record record).flatMap leWord.bytes ++ t)) := by
      simp only [deltaBytes, List.append_assoc, List.cons_append, List.nil_append]
    rw [hbytes, decodeLoop_cons_of_some hdecode]
    rfl

/-- **An entry is read back.** -/
theorem decodeLoop_write (entry : LogEntry) {prev : PrevState} {prevs : PrevRecords}
    (h : Coupled prev prevs) :
    ∃ prevs', Coupled (entry.write prev).2 prevs' ∧
      ∀ t, decodeLoop prevs ((entry.write prev).1 ++ t) = entry.lines ++ decodeLoop prevs' t := by
  cases entry with
  | inst padding regs pc cpsr spsr opcode =>
      exact decodeLoop_writeRecord h padding regs pc cpsr spsr opcode
  | text s newline hlen =>
      refine ⟨prevs, h, fun t => ?_⟩
      have hcount : (BitVec.ofNat 32 s.length).toNat = s.length := by
        rw [BitVec.toNat_ofNat, Nat.mod_eq_of_lt hlen]
      have hdecode : decodeRecord TAG_TEXT prevs (leWord.bytes (BitVec.ofNat 32 s.length) ++
          (s ++ (if newline then 1 else 0) :: t)) = some (([.text s newline], prevs), t) := by
        show decodeText prevs _ = _
        rw [decodeText, bind_of_run _ (readPod_append leWord _ _), hcount,
          bind_of_run _ (readExact_append s _), bind_of_run _ (readExact_one _ _)]
        cases newline <;> rfl
      have hbytes : writeText s newline ++ t = TAG_TEXT ::
          (leWord.bytes (BitVec.ofNat 32 s.length) ++ (s ++ (if newline then 1 else 0) :: t)) := by
        simp only [writeText, List.append_assoc, List.cons_append, List.nil_append]
      show decodeLoop prevs (writeText s newline ++ t) = _
      rw [hbytes]
      exact decodeLoop_cons_of_some hdecode
  | mem kind addr value hkind =>
      refine ⟨prevs, h, fun t => ?_⟩
      have hdecode : decodeRecord TAG_MEM prevs (memMeta 0 kind (valueCode value) ::
          leWord.bytes addr ++ (leWord.bytes value).take (MEM_WIDTHS (valueCode value)) ++ t)
          = some (([.mem 0 kind.code addr value], prevs), t) :=
        decodeMem_single prevs addr value hkind t
      show decodeLoop prevs (logMem kind addr value ++ t) = _
      rw [logMem, List.cons_append, List.cons_append]
      exact decodeLoop_cons_of_some hdecode
  | memSlice kind width addr values hkind hlen =>
      refine ⟨prevs, h, fun t => ?_⟩
      show decodeLoop prevs (logMemSlice kind width addr values ++ t) = _
      rw [logMemSlice]
      split
      · next hnil =>
        rw [LogEntry.lines, List.isEmpty_iff.1 hnil]
        rfl
      · have hdecode : decodeRecord TAG_MEM prevs (memMeta 0 kind width.code :: leWord.bytes addr ++
            leWord.bytes (BitVec.ofNat 32 values.length) ++
            values.flatMap (Pod.word width.bytes).bytes ++ t)
            = some ((values.zipIdx.map (elementLine kind width addr), prevs), t) :=
          decodeMem_slice prevs width addr values hkind hlen t
        rw [List.cons_append, List.cons_append, List.cons_append]
        exact decodeLoop_cons_of_some hdecode

/-- A log is read back, from any state both sides agree on. -/
theorem decodeLoop_writeLog (entries : List LogEntry) :
    ∀ {prev : PrevState} {prevs : PrevRecords}, Coupled prev prevs →
      decodeLoop prevs (writeLog prev entries) = entries.flatMap LogEntry.lines := by
  induction entries with
  | nil =>
      intro prev prevs _
      exact decodeLoop_nil prevs
  | cons entry entries ih =>
      intro prev prevs h
      obtain ⟨prevs', h', hdecode⟩ := decodeLoop_write entry h
      rw [writeLog, hdecode, ih h', List.flatMap_cons]

/-- **The log's round trip**: what was logged is what is decoded, and a log that is cut off at any
byte is decoded to a prefix of that. -/
theorem inst_log_round_trip (entries : List LogEntry) :
    decodeFile (writeLog .default entries) = entries.flatMap LogEntry.lines ∧
      ∀ k, decodeFile ((writeLog .default entries).take k) <+: entries.flatMap LogEntry.lines := by
  have hwhole : decodeFile (writeLog .default entries) = entries.flatMap LogEntry.lines :=
    decodeLoop_writeLog entries fun h => absurd h Bool.false_ne_true
  refine ⟨hwhole, fun k => ?_⟩
  rw [← hwhole]
  have h := decodeLoop_append ((writeLog .default entries).drop k)
    ((writeLog .default entries).take k) fun _ => none
  rwa [List.take_append_drop] at h

end AdvancedSlop
