/-
# The savestate file

The codec of `src/savestate.rs`: a fixed header, a label, a screenshot and a deflated state.  A
function has no result where the code panics.

* `Deflate` : the compressor of `miniz_oxide` as a parameter, `Deflate.Fed` what it was fed, and
  `Deflate.Documented` what it promises;
* `encodeSavestateFile`, with the loop that feeds the compressor a chunk at a time;
* `parseFixedHeader`, `decodeSavestateFile`, `peek`, `relabelFile`.
-/
import AdvancedSlop.Savestate
import AdvancedSlop.Utf8

namespace AdvancedSlop

open Utf8

/-! ## The compressor -/

/-- `TDEFLFlush`, as far as it is used. -/
inductive TDEFLFlush
  | none
  | finish

/-- `TDEFLStatus`. -/
inductive TDEFLStatus
  | badParam
  | putBufFailed
  | okay
  | done
  deriving DecidableEq

/-- `miniz_oxide`: a compressor takes some of a chunk and writes at most a number of bytes. -/
structure Deflate where
  Compressor : Type
  fresh : Compressor
  compress : Compressor → List UInt8 → Nat → TDEFLFlush →
    Compressor × TDEFLStatus × Nat × List UInt8
  decompressToVecWithLimit : List UInt8 → Nat → Option (List UInt8)

/-- What a compressor has taken and written. -/
inductive Deflate.Fed (d : Deflate) : d.Compressor → List UInt8 → List UInt8 → Prop
  | fresh : Fed d d.fresh [] []
  | okay {compressor compressor' : d.Compressor} {input output chunk bytes : List UInt8}
      {room taken : Nat} {flush : TDEFLFlush} (h : Fed d compressor input output)
      (heq : d.compress compressor chunk room flush = (compressor', .okay, taken, bytes)) :
      Fed d compressor' (input ++ chunk.take taken) (output ++ bytes)

/-- What it has written when it is done. -/
def Deflate.Compressed (d : Deflate) (input output : List UInt8) : Prop :=
  ∃ compressor compressor' input' output' chunk room taken bytes,
    d.Fed compressor input' output' ∧
    d.compress compressor chunk room .finish = (compressor', .done, taken, bytes) ∧
    input = input' ++ chunk ∧ output = output' ++ bytes

/-- What `miniz_oxide` promises: it takes no more than it is given and writes no more than there is
room for, it makes progress while there is room, its output has a bound, it is done when it has
taken all it will be given, and its stream is lossless and ends where it ends. -/
structure Deflate.Documented (d : Deflate) : Prop where
  within : ∀ {compressor compressor' input output chunk room flush status taken bytes},
    d.Fed compressor input output →
    d.compress compressor chunk room flush = (compressor', status, taken, bytes) →
    taken ≤ chunk.length ∧ bytes.length ≤ room
  status : ∀ {compressor compressor' input output chunk room flush status taken bytes},
    d.Fed compressor input output →
    d.compress compressor chunk room flush = (compressor', status, taken, bytes) →
    status = .okay ∨ status = .done
  progress : ∀ {compressor compressor' input output chunk room flush taken bytes},
    d.Fed compressor input output → 64 ≤ room → chunk ≠ [] ∨ flush = .finish →
    d.compress compressor chunk room flush = (compressor', .okay, taken, bytes) →
    0 < taken + bytes.length
  bounded : ∃ bound : Nat → Nat, Monotone bound ∧
    ∀ {compressor input output}, d.Fed compressor input output → output.length ≤ bound input.length
  done : ∀ {compressor compressor' input output chunk room flush taken bytes},
    d.Fed compressor input output →
    d.compress compressor chunk room flush = (compressor', .done, taken, bytes) →
    flush = .finish ∧ taken = chunk.length
  lossless : ∀ {input output limit}, d.Compressed input output → input.length ≤ limit →
    d.decompressToVecWithLimit output limit = some input
  truncated : ∀ {input front more limit}, d.Compressed input (front ++ more) → more ≠ [] →
    d.decompressToVecWithLimit front limit = none

/-! ## The layout -/

/-- `SAVESTATE_MAGIC`, `ASLP` in little endian. -/
def SAVESTATE_MAGIC : BitVec (8 * 4) := 0x504C5341

/-- `SAVESTATE_VERSION`. -/
def SAVESTATE_VERSION : BitVec (8 * 2) := 5

/-- `HEADER_FIXED_LEN`. -/
def HEADER_FIXED_LEN : Nat := 12

/-- `MAX_LABEL_LEN`. -/
def MAX_LABEL_LEN : Nat := 40

/-- `STATE_DECOMPRESS_LIMIT`. -/
def STATE_DECOMPRESS_LIMIT : Nat := 64 * 2 ^ 20

/-- The largest screenshot. -/
def screenshotLimit : Nat := 16 * 2 ^ 20

/-- What `encode_savestate_file` and `relabel_file` write first, up to the label. -/
def fixedHeader (stateKind : UInt8) (labelLen screenshotLen : Nat) : List UInt8 :=
  (Pod.word 4).bytes SAVESTATE_MAGIC ++ ((Pod.word 2).bytes SAVESTATE_VERSION ++
    ([stateKind, UInt8.ofNat labelLen] ++
      (Pod.word 4).bytes (BitVec.ofNat (8 * 4) screenshotLen)))

/-- The fields of the fixed header. -/
structure FixedHeader where
  version : BitVec (8 * 2)
  stateKind : UInt8
  labelLen : Nat
  screenshotLen : Nat

/-- `parse_fixed_header`, of `HEADER_FIXED_LEN` bytes. -/
def parseFixedHeader (fixed : List UInt8) : Option FixedHeader :=
  if (Pod.word 4).ofBytes (fixed.take 4) ≠ SAVESTATE_MAGIC then none
  else
    let screenshotLen := (Pod.word 4).ofBytes ((fixed.drop 8).take 4)
    if screenshotLen.toNat > screenshotLimit then none
    else some ⟨(Pod.word 2).ofBytes ((fixed.drop 4).take 2), fixed.getD 6 0,
      (fixed.getD 7 0).toNat, screenshotLen.toNat⟩

/-! ## Writing -/

/-- The bytes that the loop feeds the compressor at a time. -/
def compressChunk : Nat := 512 * 2 ^ 10

/-- `in_end`. -/
def inEnd (state : List UInt8) (inPos : Nat) : Nat := min (inPos + compressChunk) state.length

/-- The chunk up to it. -/
def nextChunk (state : List UInt8) (inPos : Nat) : List UInt8 :=
  (state.drop inPos).take (inEnd state inPos - inPos)

/-- `flush`. -/
def nextFlush (state : List UInt8) (inPos : Nat) : TDEFLFlush :=
  if inEnd state inPos = state.length then .finish else .none

/-- The loop of `encode_savestate_file`, whose buffer grows while less than 64 bytes are left. -/
def encodeLoop (d : Deflate) (state : List UInt8) :
    Nat → d.Compressor → Nat → List UInt8 → Nat → Option (List UInt8)
  | 0, _, _, _, _ => none
  | fuel + 1, compressor, inPos, out, outPos =>
      let r := d.compress compressor (nextChunk state inPos) (out.length - outPos)
        (nextFlush state inPos)
      let inPos := inPos + r.2.2.1
      let outPos' := outPos + r.2.2.2.length
      let out := out.take outPos ++ r.2.2.2 ++ out.drop outPos'
      if r.2.1 = .okay then
        encodeLoop d state fuel r.1 inPos
          (if out.length - outPos' < 64 then out ++ List.replicate out.length 0 else out) outPos'
      else some (out.take outPos')

/-- `encode_savestate_file`. -/
def encodeSavestateFile (d : Deflate) (fuel : Nat) (stateKind : UInt8) (label : List Char)
    (screenshot state : List UInt8) : Option (List UInt8) :=
  let out := fixedHeader stateKind (encode label).length screenshot.length ++
    (encode label ++ screenshot)
  encodeLoop d state fuel d.fresh 0 (out ++ List.replicate (max (state.length / 2) 64) 0) out.length

/-! ## Reading -/

/-- A slice of the data, where it is in range. -/
def getSlice (data : List UInt8) (start stop : Nat) : Option (List UInt8) :=
  if start ≤ stop ∧ stop ≤ data.length then some ((data.drop start).take (stop - start)) else none

/-- `decode_savestate_file`. -/
def decodeSavestateFile (d : Deflate) (data : List UInt8) (expectedStateKind : UInt8) :
    Option (Option (List UInt8)) :=
  if data.length < HEADER_FIXED_LEN then some none
  else (getSlice data 0 HEADER_FIXED_LEN).map fun fixed =>
    (parseFixedHeader fixed).bind fun header =>
      if header.version ≠ SAVESTATE_VERSION ∨ header.stateKind ≠ expectedStateKind then none
      else
        let stateOffset := HEADER_FIXED_LEN + header.labelLen + header.screenshotLen
        (getSlice data stateOffset data.length).bind fun compressed =>
          d.decompressToVecWithLimit compressed STATE_DECOMPRESS_LIMIT

/-- `SavestateMeta`. -/
structure SavestateMeta where
  label : List Char
  screenshot : List UInt8

/-- `PeekResult`. -/
inductive PeekResult
  | ok (savestateMeta : SavestateMeta)
  | versionMismatch (version : BitVec (8 * 2))
  | unreadable

/-- `read_exact`: the next bytes of a file, and the bytes behind them. -/
def readExact (file : List UInt8) (size : Nat) : Option (List UInt8 × List UInt8) :=
  if size ≤ file.length then some (file.take size, file.drop size) else none

/-- `peek`, of a file that could be opened or not; what is missing makes it unreadable. -/
def peek (file : Option (List UInt8)) : PeekResult :=
  let read := file.bind fun file =>
    (readExact file HEADER_FIXED_LEN).bind fun fixed =>
      (parseFixedHeader fixed.1).bind fun header =>
        if header.version ≠ SAVESTATE_VERSION then some (.versionMismatch header.version)
        else (readExact fixed.2 header.labelLen).bind fun label =>
          (readExact label.2 header.screenshotLen).map fun screenshot =>
            .ok ⟨decodeLossy label.1, screenshot.1⟩
  read.getD .unreadable

/-! ## Renaming -/

/-- The loop of `relabel_file` that cuts the label. -/
def truncateLabel : Nat → List Char → Option (List Char)
  | 0, _ => none
  | fuel + 1, label =>
      if MAX_LABEL_LEN < (encode label).length then
        (prefixOf label (floorCharBoundary label MAX_LABEL_LEN)).bind (truncateLabel fuel)
      else some label

/-- `relabel_file`, from the bytes of the file to the bytes that are written over them. -/
def relabelFile (data : List UInt8) (label : List Char) : Option (Except String (List UInt8)) :=
  let invalid : Except String (List UInt8) := .error "not a savestate of this version"
  if data.length < HEADER_FIXED_LEN then some invalid
  else (getSlice data 0 HEADER_FIXED_LEN).bind fun fixed =>
    ((parseFixedHeader fixed).bind fun header =>
      if header.version ≠ SAVESTATE_VERSION then none
      else
        let restOffset := HEADER_FIXED_LEN + header.labelLen
        (getSlice data restOffset (restOffset + header.screenshotLen)).bind fun screenshot =>
          (getSlice data (restOffset + header.screenshotLen) data.length).map fun payload =>
            (truncateLabel ((encode label).length + 2) (trim label)).map fun label =>
              .ok (fixedHeader header.stateKind (encode label).length header.screenshotLen ++
                (encode label ++ (screenshot ++ payload)))).getD (some invalid)

end AdvancedSlop
