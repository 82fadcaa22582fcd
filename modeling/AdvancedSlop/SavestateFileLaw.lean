/-
# The savestate file keeps its sections

* `Sections` : the sections of a file within the bounds of its header;
* `sections_cases` : every file that the header fits has them, and only one way;
* `Deflate.Compressed.of_loop` : the loop that writes a file compresses the state;
* `savestateFile_law` : what is written is read again, renamed, and not read when it is cut;
* `cutPayload_read` : a file cut inside its payload is still listed and renamed.
-/
import AdvancedSlop.SavestateFile
import Mathlib.Tactic

namespace AdvancedSlop

open Utf8

/-! ## The fixed header -/

theorem length_fixedHeader (kind : UInt8) (labelLen screenshotLen : Nat) :
    (fixedHeader kind labelLen screenshotLen).length = HEADER_FIXED_LEN := by
  rw [fixedHeader, List.length_append, List.length_append, List.length_append,
    (Pod.word 4).length_bytes, (Pod.word 4).length_bytes, (Pod.word 2).length_bytes]
  rfl

/-- The fields of a header that is written. -/
theorem parseFixedHeader_fixedHeader (kind : UInt8) {labelLen screenshotLen : Nat}
    (hlabel : labelLen < 256) (hscreenshot : screenshotLen ≤ screenshotLimit) :
    parseFixedHeader (fixedHeader kind labelLen screenshotLen) =
      some ⟨SAVESTATE_VERSION, kind, labelLen, screenshotLen⟩ := by
  have hmagic : (fixedHeader kind labelLen screenshotLen).take 4 =
      (Pod.word 4).bytes SAVESTATE_MAGIC := rfl
  have hversion : ((fixedHeader kind labelLen screenshotLen).drop 4).take 2 =
      (Pod.word 2).bytes SAVESTATE_VERSION := rfl
  have hscreen : ((fixedHeader kind labelLen screenshotLen).drop 8).take 4 =
      (Pod.word 4).bytes (BitVec.ofNat (8 * 4) screenshotLen) := rfl
  have hkind : (fixedHeader kind labelLen screenshotLen).getD 6 0 = kind := rfl
  have hlen : (fixedHeader kind labelLen screenshotLen).getD 7 0 = UInt8.ofNat labelLen := rfl
  have hword : (BitVec.ofNat (8 * 4) screenshotLen).toNat = screenshotLen := by
    apply Nat.mod_eq_of_lt
    exact lt_of_le_of_lt hscreenshot (by decide)
  have hbyte : (UInt8.ofNat labelLen).toNat = labelLen := by
    rw [UInt8.toNat_ofNat']
    exact Nat.mod_eq_of_lt hlabel
  unfold parseFixedHeader
  rw [hmagic, hversion, hscreen, hkind, hlen, (Pod.word 4).ofBytes_bytes,
    (Pod.word 4).ofBytes_bytes, (Pod.word 2).ofBytes_bytes, hbyte, if_neg (fun h => h rfl)]
  dsimp only
  rw [hword, if_neg (Nat.not_lt.mpr hscreenshot)]

/-- A header that is read is one that is written. -/
theorem fixedHeader_of_parse {fixed : List UInt8} (hlength : fixed.length = HEADER_FIXED_LEN)
    {header : FixedHeader} (h : parseFixedHeader fixed = some header)
    (hversion : header.version = SAVESTATE_VERSION) :
    fixed = fixedHeader header.stateKind header.labelLen header.screenshotLen ∧
      header.labelLen < 256 ∧ header.screenshotLen ≤ screenshotLimit := by
  unfold parseFixedHeader at h
  dsimp only at h
  split_ifs at h with hmagic hscreenshot
  obtain rfl := Option.some.inj h
  have hmagic' := not_not.mp hmagic
  have hword : ∀ k start : Nat, start + k ≤ HEADER_FIXED_LEN →
      (Pod.word k).bytes ((Pod.word k).ofBytes ((fixed.drop start).take k)) =
        (fixed.drop start).take k := by
    intro k start hin
    apply Pod.bytes_ofBytes_word
    rw [List.length_take, List.length_drop, hlength]
    omega
  refine ⟨?_, (fixed.getD 7 0).toNat_lt, Nat.not_lt.mp hscreenshot⟩
  have hpair : [fixed.getD 6 0, fixed.getD 7 0] = (fixed.drop 6).take 2 := by
    obtain ⟨b₀, b₁, b₂, b₃, b₄, b₅, b₆, b₇, rest, rfl⟩ : ∃ b₀ b₁ b₂ b₃ b₄ b₅ b₆ b₇ rest,
        fixed = b₀ :: b₁ :: b₂ :: b₃ :: b₄ :: b₅ :: b₆ :: b₇ :: rest := by
      match fixed, hlength with
      | b₀ :: b₁ :: b₂ :: b₃ :: b₄ :: b₅ :: b₆ :: b₇ :: rest, _ =>
          exact ⟨b₀, b₁, b₂, b₃, b₄, b₅, b₆, b₇, rest, rfl⟩
    rfl
  have hmagicBytes := hword 4 0 (by decide)
  have hversionBytes := hword 2 4 (by decide)
  have hscreenshotBytes := hword 4 8 (by decide)
  -- the twelve bytes are their four parts
  have hparts : fixed = fixed.take 4 ++ ((fixed.drop 4).take 2 ++
      ((fixed.drop 6).take 2 ++ (fixed.drop 8).take 4)) := by
    have hrest : (fixed.drop 8).take 4 = fixed.drop 8 := by
      apply List.take_of_length_le
      rw [List.length_drop, hlength]
      decide
    have hstep : ∀ start k, (fixed.drop start).take k ++ fixed.drop (start + k) =
        fixed.drop start := by
      intro start k
      rw [← List.drop_drop, List.take_append_drop]
    rw [hrest, hstep 6 2, hstep 4 2]
    exact (List.take_append_drop 4 fixed).symm
  rw [List.drop_zero, hmagic'] at hmagicBytes
  rw [fixedHeader, hmagicBytes, ← hversion, hversionBytes, UInt8.ofNat_toNat, hpair,
    BitVec.ofNat_toNat, BitVec.setWidth_eq, hscreenshotBytes]
  exact hparts

/-! ## Sections -/

/-- The sections of a file. -/
structure Sections where
  stateKind : UInt8
  label : List UInt8
  screenshot : List UInt8
  payload : List UInt8
  label_lt : label.length < 256
  screenshot_le : screenshot.length ≤ screenshotLimit

namespace Sections

/-- The file of some sections. -/
def bytes (f : Sections) : List UInt8 :=
  fixedHeader f.stateKind f.label.length f.screenshot.length ++
    (f.label ++ (f.screenshot ++ f.payload))

/-- Where the payload starts. -/
def payloadOffset (f : Sections) : Nat :=
  HEADER_FIXED_LEN + f.label.length + f.screenshot.length

variable (f : Sections)

theorem length_bytes : f.bytes.length = f.payloadOffset + f.payload.length := by
  rw [bytes, List.length_append, List.length_append, List.length_append, length_fixedHeader,
    payloadOffset]
  omega

theorem take_bytes : f.bytes.take HEADER_FIXED_LEN =
    fixedHeader f.stateKind f.label.length f.screenshot.length := by
  rw [bytes, ← length_fixedHeader f.stateKind f.label.length f.screenshot.length, List.take_left]

theorem drop_bytes : f.bytes.drop HEADER_FIXED_LEN = f.label ++ (f.screenshot ++ f.payload) := by
  rw [bytes, ← length_fixedHeader f.stateKind f.label.length f.screenshot.length, List.drop_left]

theorem drop_label : f.bytes.drop (HEADER_FIXED_LEN + f.label.length) =
    f.screenshot ++ f.payload := by
  rw [← List.drop_drop, drop_bytes, List.drop_left]

theorem drop_payload : f.bytes.drop f.payloadOffset = f.payload := by
  rw [payloadOffset, ← List.drop_drop, drop_label, List.drop_left]

theorem parse_bytes : parseFixedHeader (f.bytes.take HEADER_FIXED_LEN) =
    some ⟨SAVESTATE_VERSION, f.stateKind, f.label.length, f.screenshot.length⟩ := by
  rw [take_bytes, parseFixedHeader_fixedHeader f.stateKind f.label_lt f.screenshot_le]

end Sections

/-- **A file that its header fits has sections.** -/
theorem sections_of_parse {data : List UInt8} {header : FixedHeader}
    (hparse : parseFixedHeader (data.take HEADER_FIXED_LEN) = some header)
    (hversion : header.version = SAVESTATE_VERSION)
    (hfit : HEADER_FIXED_LEN + header.labelLen + header.screenshotLen ≤ data.length) :
    ∃ f : Sections, f.bytes = data ∧ f.stateKind = header.stateKind ∧
      f.label.length = header.labelLen ∧ f.screenshot.length = header.screenshotLen := by
  have hlength : (data.take HEADER_FIXED_LEN).length = HEADER_FIXED_LEN := by
    rw [List.length_take]
    omega
  obtain ⟨hfixed, hlabel, hscreenshot⟩ := fixedHeader_of_parse hlength hparse hversion
  have hl : ((data.drop HEADER_FIXED_LEN).take header.labelLen).length = header.labelLen := by
    rw [List.length_take, List.length_drop]
    omega
  have hs : ((data.drop (HEADER_FIXED_LEN + header.labelLen)).take header.screenshotLen).length =
      header.screenshotLen := by
    rw [List.length_take, List.length_drop]
    omega
  have hdata : data = data.take HEADER_FIXED_LEN ++
      ((data.drop HEADER_FIXED_LEN).take header.labelLen ++
        ((data.drop (HEADER_FIXED_LEN + header.labelLen)).take header.screenshotLen ++
          data.drop (HEADER_FIXED_LEN + header.labelLen + header.screenshotLen))) := by
    have hstep : ∀ start k, (data.drop start).take k ++ data.drop (start + k) =
        data.drop start := by
      intro start k
      rw [← List.drop_drop, List.take_append_drop]
    rw [hstep, hstep, List.take_append_drop]
  generalize (data.drop HEADER_FIXED_LEN).take header.labelLen = label at hl hdata
  generalize (data.drop (HEADER_FIXED_LEN + header.labelLen)).take header.screenshotLen =
    screenshot at hs hdata
  generalize data.drop (HEADER_FIXED_LEN + header.labelLen + header.screenshotLen) = payload at hdata
  refine ⟨⟨header.stateKind, label, screenshot, payload, by rwa [hl], by rwa [hs]⟩, ?_, rfl, hl, hs⟩
  rw [hfixed, ← hl, ← hs] at hdata
  exact hdata.symm

/-- The sections of a file that goes on are those of the file. -/
theorem Sections.of_prefix {f g : Sections} {more : List UInt8} (h : f.bytes = g.bytes ++ more) :
    g.stateKind = f.stateKind ∧ g.label = f.label ∧ g.screenshot = f.screenshot ∧
      f.payload = g.payload ++ more := by
  have htake : f.bytes.take HEADER_FIXED_LEN = g.bytes.take HEADER_FIXED_LEN := by
    rw [h, List.take_append_of_le_length]
    rw [g.length_bytes, payloadOffset]
    omega
  have hparse := f.parse_bytes
  rw [htake, g.parse_bytes] at hparse
  injection hparse with hheader
  injection hheader with _ hkind hlabel hscreenshot
  have hrest := congrArg (List.drop HEADER_FIXED_LEN) h
  rw [f.drop_bytes, List.drop_append_of_le_length, g.drop_bytes, List.append_assoc,
    List.append_assoc] at hrest
  · obtain ⟨hl, hrest⟩ := List.append_inj hrest hlabel.symm
    obtain ⟨hs, hrest⟩ := List.append_inj hrest hscreenshot.symm
    exact ⟨hkind, hl.symm, hs.symm, hrest⟩
  · rw [g.length_bytes, payloadOffset]
    omega

/-! ## Reading -/

theorem getSlice_of_le {data : List UInt8} {start stop : Nat} (h : start ≤ stop)
    (hstop : stop ≤ data.length) :
    getSlice data start stop = some ((data.drop start).take (stop - start)) :=
  if_pos ⟨h, hstop⟩

theorem getSlice_rest {data : List UInt8} {start : Nat} (h : start ≤ data.length) :
    getSlice data start data.length = some (data.drop start) := by
  rw [getSlice_of_le h (Nat.le_refl _), List.take_of_length_le]
  rw [List.length_drop]

theorem readExact_of_le {file : List UInt8} {size : Nat} (h : size ≤ file.length) :
    readExact file size = some (file.take size, file.drop size) := if_pos h

section Reading

variable (d : Deflate) (f : Sections)

/-- `decode_savestate_file`, of sections. -/
theorem decode_sections (kind : UInt8) : decodeSavestateFile d f.bytes kind =
    some (if f.stateKind = kind then
      d.decompressToVecWithLimit f.payload STATE_DECOMPRESS_LIMIT else none) := by
  have hlength := f.length_bytes
  have hoffset : f.payloadOffset = HEADER_FIXED_LEN + f.label.length + f.screenshot.length := rfl
  unfold decodeSavestateFile
  rw [if_neg (by omega), getSlice_of_le (Nat.zero_le _) (by omega), Option.map_some,
    List.drop_zero, Nat.sub_zero, f.parse_bytes, Option.bind_some]
  by_cases hkind : f.stateKind = kind
  · rw [if_pos hkind, if_neg (by rintro (hbad | hbad); exact hbad rfl; exact hbad hkind)]
    dsimp only
    rw [← hoffset, getSlice_rest (by omega), f.drop_payload, Option.bind_some]
  · rw [if_neg hkind, if_pos (.inr hkind)]

/-- `peek`, of sections. -/
theorem peek_sections : peek (some f.bytes) = .ok ⟨decodeLossy f.label, f.screenshot⟩ := by
  have hlength := f.length_bytes
  have hoffset : f.payloadOffset = HEADER_FIXED_LEN + f.label.length + f.screenshot.length := rfl
  have hfixed : readExact f.bytes HEADER_FIXED_LEN =
      some (f.bytes.take HEADER_FIXED_LEN, f.label ++ (f.screenshot ++ f.payload)) := by
    rw [readExact_of_le (by omega), f.drop_bytes]
  have hlabel : readExact (f.label ++ (f.screenshot ++ f.payload)) f.label.length =
      some (f.label, f.screenshot ++ f.payload) := by
    rw [readExact_of_le (by rw [List.length_append]; omega), List.take_left, List.drop_left]
  have hscreenshot : readExact (f.screenshot ++ f.payload) f.screenshot.length =
      some (f.screenshot, f.payload) := by
    rw [readExact_of_le (by rw [List.length_append]; omega), List.take_left, List.drop_left]
  rw [peek, Option.bind_some, hfixed, Option.bind_some, f.parse_bytes, Option.bind_some,
    if_neg (fun h => h rfl), hlabel, Option.bind_some, hscreenshot]
  rfl

end Reading

/-! ## Renaming -/

/-- The label that is stored for a name: cut to the limit, at a character. -/
def storedLabel (label : List Char) : List Char := longestPrefix (trim label) MAX_LABEL_LEN

theorem length_storedLabel (label : List Char) : (encode (storedLabel label)).length ≤ 40 :=
  length_longestPrefix (trim label) MAX_LABEL_LEN

/-- The loop cuts once at most. -/
theorem truncateLabel_eq (fuel : Nat) (label : List Char) :
    truncateLabel (fuel + 2) label = some (longestPrefix label MAX_LABEL_LEN) := by
  rw [truncateLabel]
  split_ifs with hlong
  · rw [prefixOf_floorCharBoundary, Option.bind_some, truncateLabel,
      if_neg (Nat.not_lt.mpr (length_longestPrefix label MAX_LABEL_LEN))]
  · rw [longestPrefix_of_le (Nat.not_lt.mp hlong)]

/-- The same sections under a name. -/
def Sections.withLabel (f : Sections) (label : List Char) : Sections where
  stateKind := f.stateKind
  label := encode (storedLabel label)
  screenshot := f.screenshot
  payload := f.payload
  label_lt := (length_storedLabel label).trans_lt (by decide)
  screenshot_le := f.screenshot_le

/-- `relabel_file`, of sections. -/
theorem relabel_sections (f : Sections) (label : List Char) :
    relabelFile f.bytes label = some (.ok (f.withLabel label).bytes) := by
  have hlength := f.length_bytes
  have hoffset : f.payloadOffset = HEADER_FIXED_LEN + f.label.length + f.screenshot.length := rfl
  have hfixed : getSlice f.bytes 0 HEADER_FIXED_LEN = some (f.bytes.take HEADER_FIXED_LEN) := by
    rw [getSlice_of_le (Nat.zero_le _) (by omega), List.drop_zero, Nat.sub_zero]
  have hscreenshot : getSlice f.bytes (HEADER_FIXED_LEN + f.label.length)
      (HEADER_FIXED_LEN + f.label.length + f.screenshot.length) = some f.screenshot := by
    rw [getSlice_of_le (Nat.le_add_right _ _) (by omega), f.drop_label, Nat.add_sub_cancel_left,
      List.take_left]
  have hpayload : getSlice f.bytes (HEADER_FIXED_LEN + f.label.length + f.screenshot.length)
      f.bytes.length = some f.payload := by
    rw [← hoffset, getSlice_rest (by omega), f.drop_payload]
  unfold relabelFile
  dsimp only
  rw [if_neg (by omega), hfixed, Option.bind_some, f.parse_bytes, Option.bind_some,
    if_neg (fun h => h rfl), hscreenshot, Option.bind_some, hpayload, Option.map_some,
    truncateLabel_eq, Option.map_some]
  rfl

/-! ## Files without sections -/

/-- A file that its header does not fit. -/
def Unfit (data : List UInt8) : Prop := ∀ f : Sections, f.bytes ≠ data

theorem sections_cases (data : List UInt8) : (∃ f : Sections, f.bytes = data) ∨ Unfit data := by
  rw [Unfit, ← not_exists]
  exact Classical.em _

section Unfit

variable {data : List UInt8}

/-- What fails in it. -/
theorem Unfit.short (h : Unfit data) {header : FixedHeader}
    (hparse : parseFixedHeader (data.take HEADER_FIXED_LEN) = some header)
    (hversion : header.version = SAVESTATE_VERSION) :
    data.length < HEADER_FIXED_LEN + header.labelLen + header.screenshotLen := by
  by_contra hfit
  obtain ⟨f, hf, -⟩ := sections_of_parse hparse hversion (Nat.not_lt.mp hfit)
  exact h f hf

theorem getSlice_of_lt {start stop : Nat} (h : data.length < start ∨ data.length < stop) :
    getSlice data start stop = none :=
  if_neg (by omega)

/-- Two reads in a row are missing bytes. -/
theorem readExact_short {α : Type} {file : List UInt8} {size size' : Nat}
    (f : List UInt8 × List UInt8 → List UInt8 × List UInt8 → α)
    (h : file.length < size + size') :
    ((readExact file size).bind fun r => (readExact r.2 size').map (f r)) = none := by
  by_cases hsize : size ≤ file.length
  · have hrest : ¬ size' ≤ (file.drop size).length := by
      rw [List.length_drop]
      omega
    rw [readExact_of_le hsize, Option.bind_some, readExact, if_neg hrest, Option.map_none]
  · rw [readExact, if_neg hsize, Option.bind_none]

/-- `decode_savestate_file` rejects it. -/
theorem decode_unfit (d : Deflate) (h : Unfit data) (kind : UInt8) :
    decodeSavestateFile d data kind = some none := by
  unfold decodeSavestateFile
  split_ifs with hshort
  · rfl
  · rw [getSlice_of_le (Nat.zero_le _) (Nat.not_lt.mp hshort), Option.map_some, List.drop_zero,
      Nat.sub_zero]
    cases hparse : parseFixedHeader (data.take HEADER_FIXED_LEN) with
    | none => rfl
    | some header =>
        rw [Option.bind_some]
        split_ifs with hother
        · rfl
        · rw [not_or, not_not] at hother
          have hlt := h.short hparse hother.1
          dsimp only
          rw [getSlice_of_lt (.inl hlt)]
          rfl

/-- `relabel_file` rejects it. -/
theorem relabel_unfit (h : Unfit data) (label : List Char) :
    relabelFile data label = some (.error "not a savestate of this version") := by
  unfold relabelFile
  dsimp only
  split_ifs with hshort
  · rfl
  · rw [getSlice_of_le (Nat.zero_le _) (Nat.not_lt.mp hshort), Option.bind_some, List.drop_zero,
      Nat.sub_zero]
    cases hparse : parseFixedHeader (data.take HEADER_FIXED_LEN) with
    | none => rfl
    | some header =>
        rw [Option.bind_some]
        split_ifs with hother
        · rfl
        · have hlt := h.short hparse (not_not.mp hother)
          rw [getSlice_of_lt (.inr hlt)]
          rfl

/-- `peek` does not list it. -/
theorem peek_unfit (h : Unfit data) (savestateMeta : SavestateMeta) :
    peek (some data) ≠ .ok savestateMeta := by
  rw [peek, Option.bind_some]
  by_cases hshort : HEADER_FIXED_LEN ≤ data.length
  · rw [readExact_of_le hshort, Option.bind_some]
    cases hparse : parseFixedHeader (data.take HEADER_FIXED_LEN) with
    | none =>
        intro hbad
        cases hbad
    | some header =>
        rw [Option.bind_some]
        split_ifs with hother
        · intro hbad
          cases hbad
        · have hlt := h.short hparse (not_not.mp hother)
          rw [readExact_short (fun label screenshot =>
            PeekResult.ok ⟨decodeLossy label.1, screenshot.1⟩)]
          · intro hbad
            cases hbad
          · rw [List.length_drop]
            omega
  · rw [readExact, if_neg hshort]
    intro hbad
    cases hbad

end Unfit

/-! ## The loop that writes -/

section Loop

variable {d : Deflate} {state head out output : List UInt8} {compressor : d.Compressor}
  {inPos outPos : Nat}

/-- Between two rounds of the loop: the compressor was fed the state up to a place, the buffer
holds the header and what the compressor wrote, and there is room. -/
structure Feeding (d : Deflate) (state head : List UInt8) (compressor : d.Compressor) (inPos : Nat)
    (out : List UInt8) (outPos : Nat) (output : List UInt8) : Prop where
  fed : d.Fed compressor (state.take inPos) output
  inPos_le : inPos ≤ state.length
  written : out.take outPos = head ++ output
  room : outPos + 64 ≤ out.length

theorem take_append_nextChunk {taken : Nat} (hin : inPos ≤ state.length)
    (htaken : taken ≤ (nextChunk state inPos).length) :
    inPos + taken ≤ state.length ∧
      state.take inPos ++ (nextChunk state inPos).take taken = state.take (inPos + taken) := by
  have hend : inEnd state inPos ≤ state.length := Nat.min_le_right _ _
  rw [nextChunk, List.length_take, List.length_drop] at htaken
  constructor
  · omega
  · rw [nextChunk, List.take_take, Nat.min_eq_left (by omega), ← List.take_add]

/-- The last chunk ends the state. -/
theorem take_append_lastChunk (hflush : nextFlush state inPos = .finish) :
    state.take inPos ++ nextChunk state inPos = state := by
  have hend : inEnd state inPos = state.length := by
    by_contra hne
    rw [nextFlush, if_neg hne] at hflush
    cases hflush
  rw [nextChunk, hend, ← List.length_drop, List.take_length, List.take_append_drop]

/-- There is something to do in every round. -/
theorem nextChunk_ne_nil_or (state : List UInt8) (inPos : Nat) :
    nextChunk state inPos ≠ [] ∨ nextFlush state inPos = .finish := by
  by_cases hend : inEnd state inPos = state.length
  · exact .inr (if_pos hend)
  · refine .inl (List.ne_nil_of_length_pos ?_)
    have hchunk : 0 < compressChunk := by decide
    rw [nextChunk, List.length_take, List.length_drop]
    unfold inEnd at hend ⊢
    omega

/-- What a round writes to the buffer. -/
theorem take_written {bytes : List UInt8} (hbytes : outPos + bytes.length ≤ out.length) :
    (out.take outPos ++ bytes ++ out.drop (outPos + bytes.length)).length = out.length ∧
      (out.take outPos ++ bytes ++ out.drop (outPos + bytes.length)).take
        (outPos + bytes.length) = out.take outPos ++ bytes := by
  have hfront : (out.take outPos ++ bytes).length = outPos + bytes.length := by
    rw [List.length_append, List.length_take, Nat.min_eq_left (by omega)]
  constructor
  · rw [List.length_append, hfront, List.length_drop]
    omega
  · rw [← hfront, List.take_left]

theorem feeding_start (d : Deflate) (state head : List UInt8) :
    Feeding d state head d.fresh 0 (head ++ List.replicate (max (state.length / 2) 64) 0)
      head.length [] := by
  refine ⟨.fresh, Nat.zero_le _, ?_, ?_⟩
  · rw [List.take_left, List.append_nil]
  · rw [List.length_append, List.length_replicate]
    omega

/-- **One round**: it goes on between two rounds, or it is done. -/
theorem Feeding.round (hd : d.Documented)
    (h : Feeding d state head compressor inPos out outPos output) (compressor' : d.Compressor)
    (status : TDEFLStatus) (taken : Nat) (bytes : List UInt8)
    (heq : d.compress compressor (nextChunk state inPos) (out.length - outPos)
      (nextFlush state inPos) = (compressor', status, taken, bytes)) :
    let out' := out.take outPos ++ bytes ++ out.drop (outPos + bytes.length)
    (status = .okay ∧ 0 < taken + bytes.length ∧
      Feeding d state head compressor' (inPos + taken)
        (if out'.length - (outPos + bytes.length) < 64 then out' ++ List.replicate out'.length 0
          else out') (outPos + bytes.length) (output ++ bytes)) ∨
    (status = .done ∧ d.Compressed state (output ++ bytes) ∧
      out'.take (outPos + bytes.length) = head ++ (output ++ bytes)) := by
  obtain ⟨htaken, hbytes⟩ := hd.within h.fed heq
  have hroom := h.room
  obtain ⟨hlength, htake⟩ := take_written (show outPos + bytes.length ≤ out.length by omega)
  have hfile := htake.trans (by rw [h.written, List.append_assoc])
  obtain rfl | rfl := hd.status h.fed heq
  · obtain ⟨hin, hfed⟩ := take_append_nextChunk h.inPos_le htaken
    refine .inl ⟨rfl, hd.progress h.fed (by omega) (nextChunk_ne_nil_or state inPos) heq,
      hfed ▸ h.fed.okay heq, hin, ?_, ?_⟩
    · split_ifs
      · rw [List.take_append_of_le_length (by rw [hlength]; omega), hfile]
      · exact hfile
    · split_ifs with hgrow
      · rw [List.length_append, List.length_replicate, hlength]
        omega
      · omega
  · obtain ⟨hflush, -⟩ := hd.done h.fed heq
    rw [hflush] at heq
    exact .inr ⟨rfl, ⟨compressor, compressor', _, _, _, _, _, _, h.fed, heq,
      (take_append_lastChunk hflush).symm, rfl⟩, hfile⟩

/-- **What the loop writes** is the header and the compressed state. -/
theorem Feeding.run (hd : d.Documented) {fuel : Nat} {file : List UInt8}
    (h : Feeding d state head compressor inPos out outPos output)
    (hloop : encodeLoop d state fuel compressor inPos out outPos = some file) :
    ∃ stream, d.Compressed state stream ∧ file = head ++ stream := by
  induction fuel generalizing compressor inPos out outPos output with
  | zero => cases hloop
  | succ fuel ih =>
      rw [encodeLoop] at hloop
      obtain ⟨hokay, -, hnext⟩ | ⟨hdone, hcompressed, hfile⟩ := h.round hd _ _ _ _ rfl
      · rw [if_pos hokay] at hloop
        exact ih hnext hloop
      · rw [if_neg (by rw [hdone]; decide)] at hloop
        exact ⟨_, hcompressed, (Option.some.inj hloop).symm.trans hfile⟩

/-- **The loop ends**: every round takes or writes a byte, and there are so many. -/
theorem Feeding.ends (hd : d.Documented) {fuel bound : Nat}
    (hbound : ∀ {compressor inPos output}, d.Fed compressor (state.take inPos) output →
      output.length ≤ bound)
    (h : Feeding d state head compressor inPos out outPos output)
    (hfuel : state.length + bound < fuel + (inPos + output.length)) :
    ∃ file, encodeLoop d state fuel compressor inPos out outPos = some file := by
  induction fuel generalizing compressor inPos out outPos output with
  | zero =>
      have := h.inPos_le
      have := hbound h.fed
      omega
  | succ fuel ih =>
      rw [encodeLoop]
      obtain ⟨hokay, hprogress, hnext⟩ | ⟨hdone, -, -⟩ := h.round hd _ _ _ _ rfl
      · rw [if_pos hokay]
        apply ih hnext
        rw [List.length_append]
        omega
      · rw [if_neg (by rw [hdone]; decide)]
        exact ⟨_, rfl⟩

end Loop

/-! ## The law -/

section Law

variable {d : Deflate}

/-- The sections that are written. -/
def writtenSections (kind : UInt8) {label : List Char} {screenshot : List UInt8}
    (stream : List UInt8) (hlabel : (encode label).length ≤ MAX_LABEL_LEN)
    (hscreenshot : screenshot.length ≤ screenshotLimit) : Sections where
  stateKind := kind
  label := encode label
  screenshot := screenshot
  payload := stream
  label_lt := hlabel.trans_lt (by decide)
  screenshot_le := hscreenshot

/-- **What `encode_savestate_file` writes**: it does write, and it writes the sections. -/
theorem encode_sections (hd : d.Documented) (kind : UInt8) {label : List Char}
    {screenshot : List UInt8} (state : List UInt8)
    (hlabel : (encode label).length ≤ MAX_LABEL_LEN)
    (hscreenshot : screenshot.length ≤ screenshotLimit) :
    (∃ fuel file, encodeSavestateFile d fuel kind label screenshot state = some file) ∧
    ∀ fuel file, encodeSavestateFile d fuel kind label screenshot state = some file →
      ∃ stream, d.Compressed state stream ∧
        (writtenSections kind stream hlabel hscreenshot).bytes = file := by
  have hstart := feeding_start d state
    (fixedHeader kind (encode label).length screenshot.length ++ (encode label ++ screenshot))
  constructor
  · obtain ⟨bound, hmono, hbound⟩ := hd.bounded
    refine ⟨state.length + bound state.length + 1, ?_⟩
    have hwritten : ∀ {compressor inPos output}, d.Fed compressor (state.take inPos) output →
        output.length ≤ bound state.length := by
      intro compressor inPos output hfed
      refine (hbound hfed).trans (hmono ?_)
      rw [List.length_take]
      exact Nat.min_le_right _ _
    exact hstart.ends hd hwritten (Nat.lt_succ_self _)
  · intro fuel file hfile
    obtain ⟨stream, hstream, rfl⟩ := hstart.run hd hfile
    refine ⟨stream, hstream, ?_⟩
    rw [List.append_assoc, List.append_assoc]
    rfl

/-- What a file is read as. -/
structure Reads (d : Deflate) (file : List UInt8) (kind : UInt8) (label : List Char)
    (screenshot state : List UInt8) : Prop where
  decode : decodeSavestateFile d file kind = some (some state)
  otherKind : ∀ other ≠ kind, decodeSavestateFile d file other = some none
  peek : peek (some file) = .ok ⟨label, screenshot⟩
  header : parseFixedHeader (file.take HEADER_FIXED_LEN) =
    some ⟨SAVESTATE_VERSION, kind, (encode label).length, screenshot.length⟩

/-- Nothing reads a file. -/
structure Rejected (d : Deflate) (file : List UInt8) : Prop where
  decode : ∀ kind, decodeSavestateFile d file kind = some none
  peek : ∀ savestateMeta, peek (some file) ≠ .ok savestateMeta
  relabel : ∀ label, relabelFile file label = some (.error "not a savestate of this version")

/-- What is promised of a file that is written. -/
structure Kept (d : Deflate) (file : List UInt8) (kind : UInt8) (label : List Char)
    (screenshot state : List UInt8) : Prop where
  reads : Reads d file kind label screenshot state
  /-- Renaming replaces the label alone, and the last name is the one that counts. -/
  renames : ∀ name, ∃ out, relabelFile file name = some (.ok out) ∧
    Reads d out kind (storedLabel name) screenshot state ∧
    out.drop (HEADER_FIXED_LEN + (encode (storedLabel name)).length) =
      file.drop (HEADER_FIXED_LEN + (encode label).length) ∧
    ∀ last, relabelFile out last = relabelFile file last
  /-- A file that is cut is not decoded, nor read at all if it is cut before its payload. -/
  cut : ∀ front more, more ≠ [] → file = front ++ more →
    (∀ kind, decodeSavestateFile d front kind = some none) ∧
    (front.length < HEADER_FIXED_LEN + (encode label).length + screenshot.length →
      Rejected d front)

/-- A file whose header is missing, wrong, or says more than there is. -/
def Inconsistent (data : List UInt8) : Prop :=
  data.length < HEADER_FIXED_LEN ∨ parseFixedHeader (data.take HEADER_FIXED_LEN) = none ∨
    ∃ header, parseFixedHeader (data.take HEADER_FIXED_LEN) = some header ∧
      data.length < HEADER_FIXED_LEN + header.labelLen + header.screenshotLen

theorem Inconsistent.unfit {data : List UInt8} (h : Inconsistent data) : Unfit data := by
  rintro f rfl
  have hlength := f.length_bytes
  have hoffset : f.payloadOffset = HEADER_FIXED_LEN + f.label.length + f.screenshot.length := rfl
  obtain hshort | hnone | ⟨header, hparse, hlt⟩ := h
  · omega
  · rw [f.parse_bytes] at hnone
    cases hnone
  · rw [f.parse_bytes] at hparse
    obtain rfl := Option.some.inj hparse
    dsimp only at hlt
    omega

theorem Unfit.rejected {data : List UInt8} (h : Unfit data) (d : Deflate) : Rejected d data :=
  ⟨decode_unfit d h, peek_unfit h, relabel_unfit h⟩

/-- Sections with a compressed payload are read. -/
theorem Sections.reads (hd : d.Documented) (f : Sections) {label : List Char} {state : List UInt8}
    (hlabel : f.label = encode label) (hstate : state.length ≤ STATE_DECOMPRESS_LIMIT)
    (hstream : d.Compressed state f.payload) :
    Reads d f.bytes f.stateKind label f.screenshot state where
  decode := by rw [decode_sections, if_pos rfl, hd.lossless hstream hstate]
  otherKind other hother := by rw [decode_sections, if_neg (Ne.symm hother)]
  peek := by rw [peek_sections, hlabel, decodeLossy_encode]
  header := by rw [f.parse_bytes, hlabel]

/-- **A file that is written is kept.** -/
theorem Sections.kept (hd : d.Documented) (f : Sections) {label : List Char} {state : List UInt8}
    (hlabel : f.label = encode label) (hstate : state.length ≤ STATE_DECOMPRESS_LIMIT)
    (hstream : d.Compressed state f.payload) :
    Kept d f.bytes f.stateKind label f.screenshot state where
  reads := f.reads hd hlabel hstate hstream
  renames name := by
    refine ⟨(f.withLabel name).bytes, relabel_sections f name,
      (f.withLabel name).reads hd rfl hstate hstream, ?_, fun last => ?_⟩
    · rw [← hlabel, f.drop_label]
      exact (f.withLabel name).drop_label
    · rw [relabel_sections, relabel_sections]
      rfl
  cut front more hmore hsplit := by
    obtain ⟨g, rfl⟩ | hunfit := sections_cases front
    · obtain ⟨-, hl, hs, hpayload⟩ := Sections.of_prefix hsplit
      constructor
      · intro kind
        rw [hpayload] at hstream
        rw [decode_sections, hd.truncated hstream hmore, ite_self]
      · intro hlt
        have hlength := g.length_bytes
        have hoffset : g.payloadOffset = HEADER_FIXED_LEN + g.label.length + g.screenshot.length :=
          rfl
        rw [hl, hlabel, hs] at hoffset
        omega
    · exact ⟨decode_unfit d hunfit, fun _ => hunfit.rejected d⟩

/-- **The savestate file.** -/
theorem savestateFile_law (hd : d.Documented) :
    (∀ kind label screenshot state, (encode label).length ≤ MAX_LABEL_LEN →
      screenshot.length ≤ screenshotLimit → state.length ≤ STATE_DECOMPRESS_LIMIT →
      (∃ fuel file, encodeSavestateFile d fuel kind label screenshot state = some file) ∧
      ∀ fuel file, encodeSavestateFile d fuel kind label screenshot state = some file →
        Kept d file kind label screenshot state) ∧
    (∀ name, storedLabel name <+: trim name ∧
      (encode (storedLabel name)).length ≤ MAX_LABEL_LEN ∧
      ∀ front, front <+: trim name → (encode front).length ≤ MAX_LABEL_LEN →
        front <+: storedLabel name) ∧
    (∀ data, (∀ kind, ∃ r, decodeSavestateFile d data kind = some r) ∧
      (∀ name, ∃ r, relabelFile data name = some r) ∧
      (∀ name out, relabelFile data name = some (.ok out) →
        ∀ last, relabelFile out last = relabelFile data last) ∧
      (Inconsistent data → Rejected d data)) := by
  refine ⟨?_, fun name => ?_, fun data => ?_⟩
  · intro kind label screenshot state hlabel hscreenshot hstate
    obtain ⟨hends, hruns⟩ := encode_sections hd kind state hlabel hscreenshot
    refine ⟨hends, fun fuel file hfile => ?_⟩
    obtain ⟨stream, hstream, rfl⟩ := hruns fuel file hfile
    exact (writtenSections kind stream hlabel hscreenshot).kept hd rfl hstate hstream
  · exact ⟨longestPrefix_isPrefix _ _, length_storedLabel name,
      fun front hfront hlength => isPrefix_longestPrefix hfront hlength⟩
  · obtain ⟨f, rfl⟩ | hunfit := sections_cases data
    · refine ⟨fun kind => ⟨_, decode_sections d f kind⟩, fun name => ⟨_, relabel_sections f name⟩,
        ?_, fun h => absurd rfl (h.unfit f)⟩
      intro name out hout last
      rw [relabel_sections] at hout
      obtain rfl := Except.ok.inj (Option.some.inj hout)
      rw [relabel_sections, relabel_sections]
      rfl
    · refine ⟨fun kind => ⟨_, decode_unfit d hunfit kind⟩,
        fun name => ⟨_, relabel_unfit hunfit name⟩, ?_, fun _ => hunfit.rejected d⟩
      intro name out hout
      rw [relabel_unfit hunfit] at hout
      cases hout

end Law

/-! ## A compressor -/

/-- Stored blocks of one byte. -/
def storedBlocks (input : List UInt8) : List UInt8 :=
  input.flatMap fun byte => [0, 1, 0, 0xFE, 0xFF, byte]

/-- The block that ends a stream, without bytes. -/
def lastBlock : List UInt8 := [3, 0]

/-- What such a stream holds. -/
def inflateStored : List UInt8 → Option (List UInt8)
  | 3 :: 0 :: _ => some []
  | 0 :: 1 :: 0 :: 0xFE :: 0xFF :: byte :: rest => (inflateStored rest).map (byte :: ·)
  | _ => none

/-- Storing, and keeping what there is no room for. -/
def storingCompress (pending chunk : List UInt8) (room : Nat) (flush : TDEFLFlush) :
    List UInt8 × TDEFLStatus × Nat × List UInt8 :=
  let pending := pending ++ storedBlocks chunk
  match flush with
  | .none => (pending.drop room, .okay, chunk.length, pending.take room)
  | .finish =>
      if (pending ++ lastBlock).length ≤ room then ([], .done, chunk.length, pending ++ lastBlock)
      else (pending.drop room, .okay, chunk.length, pending.take room)

/-- A compressor that stores. -/
def storingDeflate : Deflate where
  Compressor := List UInt8
  fresh := []
  compress := storingCompress
  decompressToVecWithLimit stream limit :=
    (inflateStored stream).filter fun input => input.length ≤ limit

/-- The two ways in which it returns. -/
theorem storingCompress_cases {pending pending' chunk bytes : List UInt8} {room taken : Nat}
    {flush : TDEFLFlush} {status : TDEFLStatus}
    (h : storingCompress pending chunk room flush = (pending', status, taken, bytes)) :
    taken = chunk.length ∧
    ((status = .okay ∧ pending' = (pending ++ storedBlocks chunk).drop room ∧
      bytes = (pending ++ storedBlocks chunk).take room ∧
      (flush = .finish → room < (pending ++ storedBlocks chunk ++ lastBlock).length)) ∨
    (status = .done ∧ flush = .finish ∧ bytes = pending ++ storedBlocks chunk ++ lastBlock ∧
      bytes.length ≤ room)) := by
  cases flush with
  | none =>
      obtain ⟨rfl, rfl, rfl, rfl⟩ := h
      exact ⟨rfl, .inl ⟨rfl, rfl, rfl, fun hbad => by cases hbad⟩⟩
  | finish =>
      by_cases hfits : (pending ++ storedBlocks chunk ++ lastBlock).length ≤ room
      · obtain ⟨rfl, rfl, rfl, rfl⟩ := (if_pos hfits).symm.trans h
        exact ⟨rfl, .inr ⟨rfl, rfl, rfl, hfits⟩⟩
      · obtain ⟨rfl, rfl, rfl, rfl⟩ := (if_neg hfits).symm.trans h
        exact ⟨rfl, .inl ⟨rfl, rfl, rfl, fun _ => Nat.not_le.mp hfits⟩⟩

theorem storedBlocks_append (input chunk : List UInt8) :
    storedBlocks (input ++ chunk) = storedBlocks input ++ storedBlocks chunk :=
  List.flatMap_append

theorem length_storedBlocks (input : List UInt8) : (storedBlocks input).length = 6 * input.length := by
  induction input with
  | nil => rfl
  | cons byte input ih =>
      have hcons : (storedBlocks (byte :: input)).length = 6 + (storedBlocks input).length := by
        rw [storedBlocks, List.flatMap_cons, List.length_append]
        rfl
      rw [hcons, ih, List.length_cons]
      omega

/-- What it wrote and keeps are the blocks of what it took. -/
theorem storingDeflate_fed {compressor : storingDeflate.Compressor} {input output : List UInt8}
    (h : storingDeflate.Fed compressor input output) :
    ∃ pending : List UInt8, pending = compressor ∧ output ++ pending = storedBlocks input := by
  induction h with
  | fresh => exact ⟨[], rfl, rfl⟩
  | okay h heq ih =>
      obtain ⟨pending, rfl, ih⟩ := ih
      obtain ⟨rfl, ⟨-, rfl, rfl, -⟩ | ⟨hbad, -⟩⟩ := storingCompress_cases heq
      · refine ⟨_, rfl, ?_⟩
        rw [List.append_assoc, List.take_append_drop, ← List.append_assoc, ih, List.take_length,
          storedBlocks_append]
      · cases hbad

theorem storingDeflate_compressed {input output : List UInt8}
    (h : storingDeflate.Compressed input output) : output = storedBlocks input ++ lastBlock := by
  obtain ⟨compressor, _, input', output', chunk, room, _, bytes, hfed, heq, rfl, rfl⟩ := h
  obtain ⟨pending, rfl, hpending⟩ := storingDeflate_fed hfed
  have hstore : storingCompress pending chunk room .finish = (_, .done, _, bytes) := heq
  obtain ⟨-, ⟨hbad, -⟩ | ⟨-, -, rfl, -⟩⟩ := storingCompress_cases hstore
  · cases hbad
  · rw [storedBlocks_append, ← hpending, List.append_assoc, List.append_assoc, List.append_assoc]

theorem inflateStored_storedBlocks (input : List UInt8) :
    inflateStored (storedBlocks input ++ lastBlock) = some input := by
  induction input with
  | nil => rfl
  | cons byte input ih =>
      show (inflateStored (storedBlocks input ++ lastBlock)).map (byte :: ·) = _
      rw [ih, Option.map_some]

theorem inflateStored_cut (input front more : List UInt8)
    (h : storedBlocks input ++ lastBlock = front ++ more) (hmore : more ≠ []) :
    inflateStored front = none := by
  induction input generalizing front with
  | nil =>
      match front with
      | [] => rfl
      | [a] =>
          obtain rfl := (List.cons.inj h).1
          rfl
      | a :: b :: rest =>
          have hnil := (List.cons.inj (List.cons.inj h).2).2
          exact absurd (List.append_eq_nil_iff.mp hnil.symm).2 hmore
  | cons byte input ih =>
      have hcons : (0 : UInt8) :: 1 :: 0 :: 0xFE :: 0xFF :: byte :: (storedBlocks input ++ lastBlock) =
          front ++ more := h
      rcases front with _ | ⟨a₀, _ | ⟨a₁, _ | ⟨a₂, _ | ⟨a₃, _ | ⟨a₄, _ | ⟨a₅, front⟩⟩⟩⟩⟩⟩
      · rfl
      all_goals simp only [List.cons_append, List.cons.injEq] at hcons
      · obtain ⟨rfl, -⟩ := hcons
        rfl
      · obtain ⟨rfl, rfl, -⟩ := hcons
        rfl
      · obtain ⟨rfl, rfl, rfl, -⟩ := hcons
        rfl
      · obtain ⟨rfl, rfl, rfl, rfl, -⟩ := hcons
        rfl
      · obtain ⟨rfl, rfl, rfl, rfl, rfl, -⟩ := hcons
        rfl
      · obtain ⟨rfl, rfl, rfl, rfl, rfl, rfl, hrest⟩ := hcons
        show (inflateStored front).map _ = none
        rw [ih front hrest, Option.map_none]

/-- **It keeps what is promised.** -/
theorem storingDeflate_documented : storingDeflate.Documented where
  within hfed heq := by
    obtain ⟨rfl, ⟨-, -, rfl, -⟩ | ⟨-, -, -, hfits⟩⟩ := storingCompress_cases heq
    · exact ⟨Nat.le_refl _, by rw [List.length_take]; exact Nat.min_le_left _ _⟩
    · exact ⟨Nat.le_refl _, hfits⟩
  status hfed heq := by
    obtain ⟨-, ⟨h, -⟩ | ⟨h, -⟩⟩ := storingCompress_cases heq
    · exact .inl h
    · exact .inr h
  progress hfed hroom hwork heq := by
    obtain ⟨rfl, ⟨-, -, rfl, hfull⟩ | ⟨hbad, -⟩⟩ := storingCompress_cases heq
    · obtain hchunk | hflush := hwork
      · exact Nat.add_pos_left (List.length_pos_iff.mpr hchunk) _
      · have hlong := hfull hflush
        rw [List.length_append, show lastBlock.length = 2 from rfl] at hlong
        rw [List.length_take]
        omega
    · cases hbad
  bounded := by
    refine ⟨fun n => 6 * n, fun a b h => Nat.mul_le_mul_left 6 h, fun {_ input _} hfed => ?_⟩
    show _ ≤ 6 * input.length
    obtain ⟨pending, -, hpending⟩ := storingDeflate_fed hfed
    rw [← length_storedBlocks, ← hpending, List.length_append]
    exact Nat.le_add_right _ _
  done hfed heq := by
    obtain ⟨rfl, ⟨hbad, -⟩ | ⟨-, hflush, -⟩⟩ := storingCompress_cases heq
    · cases hbad
    · exact ⟨hflush, rfl⟩
  lossless h hlimit := by
    rw [storingDeflate_compressed h]
    show (inflateStored _).filter _ = _
    rw [inflateStored_storedBlocks, Option.filter_some,
      if_pos (decide_eq_true hlimit)]
  truncated h hmore := by
    show (inflateStored _).filter _ = _
    rw [inflateStored_cut _ _ _ (storingDeflate_compressed h).symm hmore]
    rfl

/-- An empty state, labelled `a`, without a screenshot. -/
def freshFile : List UInt8 :=
  [0x41, 0x53, 0x4C, 0x50, 5, 0, 0, 1, 0, 0, 0, 0, 0x61, 3, 0]

/-- It is kept. -/
theorem freshFile_kept : Kept storingDeflate freshFile 0 ['a'] [] [] :=
  ((savestateFile_law storingDeflate_documented).1 0 ['a'] [] [] (by decide) (by decide)
    (by decide)).2 1 freshFile (by decide)

/-- The sections of a file labelled `a`. -/
def labelledSections (kind : UInt8) (payload : List UInt8) : Sections where
  stateKind := kind
  label := encode ['a']
  screenshot := []
  payload := payload
  label_lt := by decide
  screenshot_le := Nat.zero_le _

/-- **Cut inside its payload** the file is still listed and renamed, and what is listed does not
tell its kind. -/
theorem cutPayload_read :
    peek (some (freshFile.take 14)) = .ok ⟨['a'], []⟩ ∧
      relabelFile (freshFile.take 14) [] =
        some (.ok [0x41, 0x53, 0x4C, 0x50, 5, 0, 0, 0, 0, 0, 0, 0, 3]) ∧
      peek (some (freshFile.set 6 1)) = peek (some freshFile) := by
  have hcut : freshFile.take 14 = (labelledSections 0 [3]).bytes := by decide
  have hother : freshFile.set 6 1 = (labelledSections 1 lastBlock).bytes := by decide
  have hfresh : freshFile = (labelledSections 0 lastBlock).bytes := by decide
  refine ⟨?_, ?_, ?_⟩
  · rw [hcut, peek_sections]
    exact congrArg (fun label => PeekResult.ok ⟨label, []⟩) (decodeLossy_encode ['a'])
  · rw [hcut, relabel_sections]
    decide
  · rw [hother, peek_sections, hfresh, peek_sections]
    rfl

end AdvancedSlop
