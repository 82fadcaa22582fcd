/-
# The dirty bits of the video memory

The write handlers of palettes, vram and oam (`src/core/memory/mem.rs`) set a bit of
`gpu_mem_dirty` for the part they change, and a restore sets all of them.  The video memory is
never mapped for writing, so that every store into it comes to a handler.

* `VideoPart` : the parts with a bit each; `videoCells`, `flagged` : their bytes, and the flags;
* `GuestMem.video` : the video memory in the shared memory;
* `Mapped` : what the tables have to keep;
* `MemOp.Overruns` : a bulk write to work memory whose copy runs past the end of it;
* `MarksVideo.step`, `MarksVideo.session` : every other operation flags the parts that it changes.
-/
import AdvancedSlop.DirtyMirror
import AdvancedSlop.JitStaleness
import AdvancedSlop.MemoryFrame
import AdvancedSlop.MemorySession
import AdvancedSlop.RenderSync

namespace AdvancedSlop

open DirtyMirror IndexedLoop WordMemory

/-! ## Parts -/

/-- The parts of the video memory that have a dirty bit. -/
inductive VideoPart where
  | bg
  | obj
  | pal
  | oam
  deriving DecidableEq

namespace VideoPart

/-- The dirty bit. -/
def bit : VideoPart → BitVec 8
  | .bg => DIRTY_BG
  | .obj => DIRTY_OBJ
  | .pal => DIRTY_PAL
  | .oam => DIRTY_OAM

/-- What `snapshot` copies for the bit. -/
def bytes : VideoPart → List (MemPart × ℕ)
  | .bg => partBytes .vram 0 BG_VRAM_SIZE
  | .obj => partBytes .vram BG_VRAM_SIZE OBJ_VRAM_SIZE
  | .pal => partBytes .pal 0 PALETTES_SIZE
  | .oam => partBytes .oam 0 OAM_SIZE

/-- The image of the part in the shared memory. -/
def InImage (p : VideoPart) (a : ℕ) : Prop :=
  match p with
  | .bg => vramRegion.shmOffset ≤ a ∧ a < vramRegion.shmOffset + BG_VRAM_SIZE
  | .obj => vramRegion.shmOffset + BG_VRAM_SIZE ≤ a ∧
      a < vramRegion.shmOffset + BG_VRAM_SIZE + OBJ_VRAM_SIZE
  | .pal => palettesRegion.shmOffset ≤ a ∧ a < palettesRegion.shmOffset + PALETTES_SIZE
  | .oam => oamRegion.shmOffset ≤ a ∧ a < oamRegion.shmOffset + OAM_SIZE

/-- The images lie behind the work memories. -/
theorem InImage.le {p : VideoPart} {a : ℕ} (h : p.InImage a) : palettesRegion.shmOffset ≤ a := by
  cases p <;> simp only [InImage, vramRegion, oamRegion, palettesRegion] at h ⊢ <;> omega

end VideoPart

/-- The bytes of a part. -/
def videoCells (p : VideoPart) : Set (MemPart × ℕ) := {c | c ∈ p.bytes}

/-- The parts that are flagged. -/
def flagged (dirty : BitVec 8) : Set VideoPart := {p | dirty &&& p.bit ≠ 0}

theorem flagged_or (a b : BitVec 8) : flagged (a ||| b) = flagged a ∪ flagged b := by
  ext p
  show (a ||| b) &&& p.bit ≠ 0 ↔ a &&& p.bit ≠ 0 ∨ b &&& p.bit ≠ 0
  rw [BitVec.and_or_distrib_right]
  exact (not_congr BitVec.or_eq_zero_iff).trans not_and_or

theorem flagged_zero : flagged 0 = ∅ := by
  ext p
  exact iff_of_false (not_not.mpr BitVec.zero_and) (Set.notMem_empty p)

theorem flagged_all : flagged allDirty = Set.univ := by
  ext p
  refine iff_of_true ?_ (Set.mem_univ p)
  show allDirty &&& p.bit ≠ 0
  cases p <;> decide

theorem mem_flagged_bit (p : VideoPart) : p ∈ flagged p.bit := by
  show p.bit &&& p.bit ≠ 0
  cases p <;> decide

theorem mem_partBytes {part : MemPart} {start size : ℕ} {c : MemPart × ℕ} :
    c ∈ partBytes part start size ↔ c.1 = part ∧ start ≤ c.2 ∧ c.2 < start + size := by
  unfold partBytes
  rw [List.mem_map]
  constructor
  · rintro ⟨i, hi, rfl⟩
    rw [List.mem_range] at hi
    exact ⟨rfl, by omega, by omega⟩
  · obtain ⟨part', i⟩ := c
    rintro ⟨rfl, hlow, hhigh⟩
    refine ⟨i - start, List.mem_range.mpr ?_, ?_⟩
    · simp only at hlow hhigh
      omega
    · simp only at hlow
      rw [Nat.add_sub_cancel' hlow]

/-! ## The video memory -/

/-- A byte of the video memory. -/
def GpuMemBuf.byte (buf : GpuMemBuf) : MemPart × ℕ → UInt8
  | (.vram, i) => buf.vram i
  | (.pal, i) => buf.pal i
  | (.oam, i) => buf.oam i

/-- Its place in the shared memory. -/
def shmPlace : MemPart × ℕ → ℕ
  | (.vram, i) => vramRegion.shmOffset + i
  | (.pal, i) => palettesRegion.shmOffset + i
  | (.oam, i) => oamRegion.shmOffset + i

variable {D : Type*}

/-- The video memory of the guest. -/
def GuestMem.video (s : GuestMem D) : GpuMemBuf where
  vram i := s.jit.shm (vramRegion.shmOffset + i)
  pal i := s.jit.shm (palettesRegion.shmOffset + i)
  oam i := s.jit.shm (oamRegion.shmOffset + i)

theorem byte_video (s : GuestMem D) (c : MemPart × ℕ) :
    s.video.byte c = s.jit.shm (shmPlace c) := by
  obtain ⟨part, i⟩ := c
  cases part <;> rfl

theorem inImage_shmPlace {p : VideoPart} {c : MemPart × ℕ} (hc : c ∈ videoCells p) :
    p.InImage (shmPlace c) := by
  obtain ⟨part, i⟩ := c
  have hbytes : (part, i) ∈ p.bytes := hc
  cases p <;> rw [VideoPart.bytes, mem_partBytes] at hbytes <;> obtain ⟨rfl, hlow, hhigh⟩ := hbytes <;>
    simp only [VideoPart.InImage, shmPlace] at hlow hhigh ⊢ <;> omega

/-! ## What a step on the bus does -/

/-- What the tables have to keep, whatever is restored. -/
structure Mapped (s : GuestMem D) : Prop where
  jit : JitInv s.jit
  tables : TablesGood s

/-- A step flags the parts that it changes, and keeps the tables. -/
structure MarksVideo (s t : GuestMem D) : Prop where
  marks : Marks videoCells s.video.byte (flagged s.gpuMemDirty) t.video.byte (flagged t.gpuMemDirty)
  mapped : Mapped s → Mapped t

section MarksVideo

variable {dev : MemDevices D} {s t u : GuestMem D} {width : MemWidth} {addr : ℕ}
  {value : width.Value}

theorem MarksVideo.refl (s : GuestMem D) : MarksVideo s s := ⟨.refl _ _, id⟩

theorem MarksVideo.trans (h : MarksVideo s t) (h' : MarksVideo t u) : MarksVideo s u :=
  ⟨h.marks.trans h'.marks, h'.mapped ∘ h.mapped⟩

/-- The parts a step changes, by their images. -/
theorem marks_of_images (hmono : flagged s.gpuMemDirty ⊆ flagged t.gpuMemDirty)
    (hshm : ∀ p ∉ flagged t.gpuMemDirty, ∀ a, p.InImage a → t.jit.shm a = s.jit.shm a) :
    Marks videoCells s.video.byte (flagged s.gpuMemDirty) t.video.byte (flagged t.gpuMemDirty) := by
  refine ⟨hmono, fun p hp c hc => ?_⟩
  rw [byte_video, byte_video]
  exact hshm p hp _ (inImage_shmPlace hc)

/-- A step that leaves the video memory alone. -/
theorem marks_of_below (hdirty : t.gpuMemDirty = s.gpuMemDirty)
    (hshm : ∀ a, palettesRegion.shmOffset ≤ a → t.jit.shm a = s.jit.shm a) :
    Marks videoCells s.video.byte (flagged s.gpuMemDirty) t.video.byte (flagged t.gpuMemDirty) :=
  marks_of_images (by rw [hdirty]) fun _ _ a ha => hshm a ha.le

theorem Mapped.handled (h : Mapped s) (hhandled : Handled s t) : Mapped t where
  jit := by
    refine ⟨?_, ?_, ?_⟩
    · rw [hhandled.jit, hhandled.inserted]
      exact h.jit.id_lt
    · rw [hhandled.jit]
      exact h.jit.tables
    · rw [hhandled.mmuWrite]
      exact h.jit.mirrors
  tables := h.tables.handled hhandled

theorem Mapped.jitStep (h : Mapped s) {op : JitOp} {jit : JitMachine}
    (hstep : jitStep s.jit op = some jit) : Mapped { s with jit := jit } where
  jit := jitInv_step h.jit hstep
  tables := ⟨h.tables.write.jitStep h.jit hstep, h.tables.read⟩

/-- A step that changes neither the shared memory nor the dirty bits. -/
theorem MarksVideo.of_same (hhandled : Handled s t) (hdirty : t.gpuMemDirty = s.gpuMemDirty)
    (hshm : t.jit.shm = s.jit.shm) : MarksVideo s t :=
  ⟨marks_of_below hdirty fun a _ => congrFun hshm a, fun h => h.handled hhandled⟩

/-- A change of the shared memory below the images. -/
theorem MarksVideo.withShm {shm : ℕ → UInt8}
    (hshm : ∀ a, palettesRegion.shmOffset ≤ a → shm a = s.jit.shm a) :
    MarksVideo s (s.withShm shm) :=
  ⟨marks_of_below rfl hshm, fun h => h.handled (.of_same rfl rfl rfl rfl rfl rfl)⟩

/-- A store below the images. -/
theorem MarksVideo.store {offset : ℕ} (h : offset + width.bytes ≤ palettesRegion.shmOffset) :
    MarksVideo s (s.store width offset value) :=
  .withShm fun _ ha => writeWord_of_not value (by omega)

/-- **A store into a part** that is flagged first. -/
theorem MarksVideo.markStore {p : VideoPart} {offset : ℕ}
    (hsite : ∀ q a, q.InImage a → offset ≤ a → a < offset + width.bytes → q = p) :
    MarksVideo s ((s.markDirty p.bit).store width offset value) := by
  refine ⟨marks_of_images ?_ fun q hq a ha => ?_, fun h =>
    h.handled (.of_same rfl rfl rfl rfl rfl rfl)⟩
  · show flagged s.gpuMemDirty ⊆ flagged (s.gpuMemDirty ||| p.bit)
    rw [flagged_or]
    exact Set.subset_union_left
  · have hne : q ≠ p := by
      rintro rfl
      apply hq
      show q ∈ flagged (s.gpuMemDirty ||| q.bit)
      rw [flagged_or]
      exact Set.mem_union_right _ (mem_flagged_bit q)
    exact writeWord_of_not value fun hin => hne (hsite q a ha hin.1 hin.2)

/-- Flagging a part. -/
theorem MarksVideo.mark (p : VideoPart) : MarksVideo s (s.markDirty p.bit) := by
  refine ⟨marks_of_images ?_ fun _ _ _ _ => rfl, fun h =>
    h.handled (.of_same rfl rfl rfl rfl rfl rfl)⟩
  show flagged s.gpuMemDirty ⊆ flagged (s.gpuMemDirty ||| p.bit)
  rw [flagged_or]
  exact Set.subset_union_left

/-- The parts are told apart by their images. -/
theorem MarksVideo.markStore_of_image {p : VideoPart} {offset : ℕ}
    (hfirst : p.InImage offset) (hlast : p.InImage (offset + width.bytes - 1)) :
    MarksVideo s ((s.markDirty p.bit).store width offset value) := by
  refine .markStore fun q a hq hlow hhigh => ?_
  cases p <;> cases q <;>
    simp only [VideoPart.InImage, vramRegion, oamRegion, palettesRegion, BG_VRAM_SIZE,
      OBJ_VRAM_SIZE, PALETTES_SIZE, OAM_SIZE] at hfirst hlast hq <;>
    first
      | rfl
      | omega

/-- A write to the general purpose port. -/
theorem writeRom_same (dev : MemDevices D) (width : MemWidth) (addr : ℕ) (value : width.Value)
    (s : GuestMem D) :
    (MemoryIo.writeRom dev width addr value s).gpuMemDirty = s.gpuMemDirty ∧
      (MemoryIo.writeRom dev width addr value s).jit.shm = s.jit.shm := by
  have henable : (cartridgeAutoEnableRtc s).gpuMemDirty = s.gpuMemDirty ∧
      (cartridgeAutoEnableRtc s).jit.shm = s.jit.shm := by
    unfold cartridgeAutoEnableRtc
    split_ifs <;> exact ⟨rfl, rfl⟩
  unfold MemoryIo.writeRom
  split_ifs
  · unfold cartridgeWriteGpio
    split_ifs <;> exact henable
  · exact ⟨rfl, rfl⟩

/-- An aligned word does not leave its eight bytes. -/
theorem mod_add_bytes_le (hdvd : width.bytes ∣ addr) : addr % 8 + width.bytes ≤ 8 := by
  obtain ⟨i, rfl⟩ := hdvd
  cases width <;> simp only [MemWidth.bytes] <;> omega

theorem MarksVideo.writePalettes (hdvd : width.bytes ∣ addr) :
    MarksVideo s (MemoryIo.writePalettes width addr value s) := by
  have hpos := width.bytes_pos
  have hword := mod_add_bytes_le hdvd
  unfold MemoryIo.writePalettes
  simp only
  split_ifs
  · apply MarksVideo.markStore_of_image (p := .pal) <;>
      simp only [VideoPart.InImage, PALETTES_SIZE, palettesSize, MemWidth.bytes] <;> omega
  · apply MarksVideo.markStore_of_image (p := .pal) <;>
      simp only [VideoPart.InImage, PALETTES_SIZE, palettesSize] <;> omega

theorem MarksVideo.writeOam (hdvd : width.bytes ∣ addr) :
    MarksVideo s (MemoryIo.writeOam width addr value s) := by
  have hpos := width.bytes_pos
  have hword := mod_add_bytes_le hdvd
  unfold MemoryIo.writeOam
  split_ifs
  · exact .refl s
  · apply MarksVideo.markStore_of_image (p := .oam) <;>
      simp only [VideoPart.InImage, OAM_SIZE, palettesSize] <;> omega

/-- The part of a place in vram. -/
def vramPart (offset : ℕ) : VideoPart := if offset < BG_VRAM_SIZE then .bg else .obj

theorem vramPart_bit (offset : ℕ) :
    (vramPart offset).bit = if offset < 0x10000 then dirtyBg else dirtyObj := by
  unfold vramPart BG_VRAM_SIZE
  split_ifs <;> rfl

/-- A place in the same half of vram lies in the image of the part. -/
theorem inImage_vramPart {offset a : ℕ} (hlow : vramRegion.shmOffset ≤ a)
    (hhigh : a < vramRegion.shmOffset + VRAM_BYTES)
    (hsame : (a - vramRegion.shmOffset) / BG_VRAM_SIZE = offset / BG_VRAM_SIZE) :
    (vramPart offset).InImage a := by
  simp only [vramRegion, VRAM_BYTES, BG_VRAM_SIZE] at hlow hhigh hsame
  unfold vramPart BG_VRAM_SIZE
  split_ifs <;> simp only [VideoPart.InImage, vramRegion, BG_VRAM_SIZE, OBJ_VRAM_SIZE] <;> omega

theorem MarksVideo.writeVram (hdvd : width.bytes ∣ addr) :
    MarksVideo s (MemoryIo.writeVram dev width addr value s) := by
  have hpos := width.bytes_pos
  have hword := mod_add_bytes_le hdvd
  have hmod := vramOffset_mod addr
  have hlt := vramOffset_lt addr
  unfold VRAM_BYTES at hlt
  unfold MemoryIo.writeVram
  simp only [← vramPart_bit]
  -- both bytes of the half, or all of the word, lie in one half of vram
  split_ifs
  · exact .mark _
  · apply MarksVideo.markStore_of_image <;> apply inImage_vramPart <;>
      simp only [vramRegion, VRAM_BYTES, BG_VRAM_SIZE, MemWidth.bytes] <;> omega
  · apply MarksVideo.markStore_of_image <;> apply inImage_vramPart <;>
      simp only [vramRegion, VRAM_BYTES, BG_VRAM_SIZE] <;> omega

/-- **The write handlers**, at an aligned address. -/
theorem MarksVideo.write (hdvd : width.bytes ∣ addr)
    (hstep : MemoryIo.write dev width addr value s = some t) : MarksVideo s t := by
  have hpos := width.bytes_pos
  have hword : addr % 4 + width.bytes ≤ 4 := by
    obtain ⟨i, rfl⟩ := hdvd
    cases width <;> simp only [MemWidth.bytes] <;> omega
  by_cases hregion : addr / 0x1000000 % 16 = 3
  · rw [write_iwramIo dev width s value hregion, MemoryIo.writeIwramIo] at hstep
    split_ifs at hstep with hsafe
    obtain rfl := Option.some.inj hstep
    refine ⟨marks_of_below rfl fun a ha => ?_, fun h => ?_⟩
    · show (writeIwram addr width value s.jit).shm a = s.jit.shm a
      rw [writeIwram_shm]
      refine writeWord_of_not value fun hin => ?_
      simp only [iwramRegion, palettesRegion] at ha hin
      omega
    · by_cases hsame : s.load width (iwramRegion.shmOffset + addr % iwramRegion.size) = value
      · have heq : writeIwram addr width value s.jit = s.jit := if_pos hsame
        rw [heq]
        exact h
      · have hbus := hsafe.resolve_left hsame
        exact h.jitStep (jitStep_writeIwram_eq ⟨by omega, by omega⟩ value s.jit)
  · have hhandled := write_handled hregion hstep
    rcases region_cases addr with hnone | hnone | hew | hiw | hio | hpal | hvram | hoam | hrom |
      heeprom | hsram
    · rw [write_none dev width s value (by omega)] at hstep
      exact Option.some.inj hstep ▸ .refl s
    · rw [write_none dev width s value (by omega)] at hstep
      exact Option.some.inj hstep ▸ .refl s
    · rw [write_ewram dev width s value hew] at hstep
      obtain rfl := Option.some.inj hstep
      apply MarksVideo.store
      simp only [ewramRegion, palettesRegion]
      omega
    · exact absurd hiw hregion
    · rw [write_ioPorts dev width s value hio] at hstep
      obtain rfl := Option.some.inj hstep
      exact .of_same hhandled rfl rfl
    · rw [write_palettes dev width s value hpal] at hstep
      obtain rfl := Option.some.inj hstep
      exact .writePalettes hdvd
    · rw [write_vram dev width s value hvram] at hstep
      obtain rfl := Option.some.inj hstep
      exact .writeVram hdvd
    · rw [write_oam dev width s value hoam] at hstep
      obtain rfl := Option.some.inj hstep
      exact .writeOam hdvd
    · rw [write_rom dev width s value hrom] at hstep
      obtain rfl := Option.some.inj hstep
      obtain ⟨hdirty, hshm⟩ := writeRom_same dev width addr value s
      exact .of_same hhandled hdirty hshm
    · rw [write_romEeprom dev width s value heeprom] at hstep
      obtain rfl := Option.some.inj hstep
      unfold MemoryIo.writeRomEeprom
      split_ifs
      · exact .of_same (.of_same rfl rfl rfl rfl rfl rfl) rfl rfl
      · exact .refl s
    · rw [write_sram dev width s value hsram] at hstep
      obtain rfl := Option.some.inj hstep
      exact .of_same hhandled rfl rfl

/-- The read handlers. -/
theorem MarksVideo.read (dev : MemDevices D) (width : MemWidth) (addr : ℕ) (s : GuestMem D) :
    MarksVideo s (MemoryIo.read dev width addr s).2 := by
  obtain ⟨devices, heq⟩ := read_state dev width addr s
  rw [heq]
  exact .of_same (.of_same rfl rfl rfl rfl rfl rfl) rfl rfl

/-- A copy to work memory. -/
theorem MarksVideo.copyToShm {offset : ℕ} {slice : List width.Value}
    (hlen : offset + slice.length * width.bytes ≤ palettesRegion.shmOffset)
    (hstep : copyToShm width offset slice s = some t) : MarksVideo s t := by
  unfold AdvancedSlop.copyToShm at hstep
  split_ifs at hstep
  obtain rfl := Option.some.inj hstep
  exact .withShm fun _ ha => writeWords_of_not fun hin => by omega

/-- A loop of handlers. -/
theorem MarksVideo.writeEach {α : Type*} {write : ℕ → α → GuestMem D → Option (GuestMem D)} {i : ℕ}
    {values : List α} (hwrite : ∀ i value s t, write i value s = some t → MarksVideo s t)
    (hstep : IndexedLoop.writeEach write i values s = some t) : MarksVideo s t :=
  writeEach_invariant (I := MarksVideo s) (fun i value _ _ hs ht => hs.trans (hwrite i value _ _ ht))
    (.refl s) hstep

/-- A fast store goes to work memory. -/
theorem getShmOffset_add_le (h : Mapped s) (hdvd : width.bytes ∣ addr)
    (hmapped : getShmOffset s.jit.mmuWrite addr ≠ 0) :
    getShmOffset s.jit.mmuWrite addr + width.bytes ≤ palettesRegion.shmOffset := by
  obtain ⟨hram, hplace⟩ := getShmOffset_write h.tables (mt getShmOffset_eq_zero.mpr hmapped)
  rw [hplace]
  exact (ramOffset_bounds hdvd hram).2.1

end MarksVideo

/-! ## The operations -/

/-- A copy of `n` elements that starts in work memory runs past the end of it. -/
def CopyOverruns (s : GuestMem D) (width : MemWidth) (addr n : ℕ) : Prop :=
  getShmOffset s.jit.mmuWrite (alignedAddr width addr) ≠ 0 ∧
    palettesRegion.shmOffset <
      getShmOffset s.jit.mmuWrite (alignedAddr width addr) + n * width.bytes

/-- **A bulk write that overruns**: it is made to work memory, and its copy goes on into the images
behind, which are no part of what is addressed. -/
def MemOp.Overruns (s : GuestMem D) : MemOp D → Prop
  | .writeSlice width addr slice => CopyOverruns s width addr slice.length ∧
      allWritable s.jit.mmuWrite (alignedAddr width addr) (slice.length * width.bytes) = true
  | .writeMemset width addr _ size => CopyOverruns s width addr size
  | _ => False

/-- The operations that are a step of the guest: a store of a handler is a part of a write, and the
renderer takes the bits at the end of a frame. -/
def MemOp.OfGuest : MemOp D → Bool
  | .jit (.writeIwram _ _ _) => false
  | .frameFinish => false
  | _ => true

section Step

variable {dev : MemDevices D} {s t : GuestMem D}

/-- **No write to the video memory** overruns. -/
theorem not_copyOverruns (h : Mapped s) {width : MemWidth} {addr : ℕ}
    (hvideo : ¬ IsRam (alignedAddr width addr)) (n : ℕ) : ¬ CopyOverruns s width addr n :=
  fun hover => hvideo
    (getShmOffset_write h.tables (mt getShmOffset_eq_zero.mpr hover.1)).1

/-- **Every operation of the guest** that does not overrun flags the parts that it changes. -/
theorem MarksVideo.step (h : Mapped s) {op : MemOp D} (hop : op.OfGuest = true)
    (hspares : ¬ op.Overruns s) (hstep : memStep dev s op = some t) : MarksVideo s t := by
  cases op with
  | jit op =>
      obtain ⟨jit, hjit, rfl⟩ := Option.map_eq_some_iff.mp hstep
      have hshm : jit.shm = s.jit.shm := jitStep_shm hjit fun addr width value heq => by
        rw [heq] at hop
        exact Bool.noConfusion hop
      exact ⟨marks_of_below rfl fun a _ => congrFun hshm a, fun h => h.jitStep hjit⟩
  | read width addr =>
      obtain rfl := Option.some.inj hstep
      unfold memRead
      simp only
      split_ifs
      · exact .refl s
      · exact .read dev width _ s
  | readSlice shmMemory width addr n =>
      obtain ⟨r, hr, rfl⟩ := Option.map_eq_some_iff.mp hstep
      unfold memReadMultipleSlice at hr
      simp only at hr
      split_ifs at hr
      · obtain rfl := Option.some.inj hr
        exact .refl s
      · obtain rfl := Option.some.inj hr
        exact readEach_invariant (I := MarksVideo s)
          (fun _ _ hs => hs.trans (.read dev width _ _)) (.refl s)
  | write width addr value =>
      simp only [memStep, memWrite] at hstep
      split_ifs at hstep with hmapped
      · obtain rfl := Option.some.inj hstep
        exact .store (getShmOffset_add_le h (dvd_alignedAddr width addr) hmapped)
      · exact .write (dvd_alignedAddr width addr) hstep
  | writeSlice width addr slice =>
      simp only [memStep, memWriteMultipleSlice] at hstep
      split_ifs at hstep with hmapped
      · exact .copyToShm (not_lt.mp fun hlt => hspares ⟨⟨hmapped.1, hlt⟩, hmapped.2⟩) hstep
      · exact .writeEach (fun i _ _ _ ht =>
          .write (dvd_elementAddr (dvd_alignedAddr width addr) i) ht) hstep
  | writeMemset width addr value size =>
      simp only [memStep, memWriteMultipleMemset] at hstep
      split_ifs at hstep with hmapped
      · refine .copyToShm ?_ hstep
        rw [List.length_replicate]
        exact not_lt.mp fun hlt => hspares ⟨hmapped, hlt⟩
      · exact .writeEach (fun i _ _ _ ht =>
          .write (dvd_elementAddr (dvd_alignedAddr width addr) i) ht) hstep
  | writeFixedSlice width addr slice =>
      simp only [memStep, memWriteFixedSlice] at hstep
      split_ifs at hstep with hmapped
      · obtain ⟨value, -, rfl⟩ := Option.map_eq_some_iff.mp hstep
        exact .store (getShmOffset_add_le h (dvd_alignedAddr width addr) hmapped)
      · exact .writeEach (fun _ _ _ _ ht => .write (dvd_alignedAddr width addr) ht) hstep
  | biosFetch value =>
      simp only [memStep] at hstep
      split_ifs at hstep
      obtain rfl := Option.some.inj hstep
      exact ⟨marks_of_below rfl fun _ _ => rfl, fun h => ⟨h.jit, ⟨h.tables.write, h.tables.read⟩⟩⟩
  | frameFinish => exact Bool.noConfusion hop
  | devices f =>
      obtain rfl := Option.some.inj hstep
      exact .of_same (.of_same rfl rfl rfl rfl rfl rfl) rfl rfl

end Step

/-! ## Restores -/

section Restores

variable {dev : MemDevices D}

theorem ofGuest_withCartridge (op : MemOp D) : op.withCartridge.OfGuest = op.OfGuest := by
  cases op with
  | jit op => cases op <;> rfl
  | _ => rfl

/-- A restore flags everything. -/
theorem MarksVideo.of_allDirty {s t : GuestMem D} (hdirty : t.gpuMemDirty = allDirty)
    (hmapped : Mapped s → Mapped t) : MarksVideo s t := by
  refine ⟨?_, hmapped⟩
  rw [hdirty, flagged_all]
  exact .of_univ _ _ _

/-- A savestate: the tables are filled anew, and no code is left. -/
theorem MarksVideo.savestate (data : WalkedMemory D) (m : CartMem D) :
    MarksVideo m (m.walkIn data).savestatePostLoad := by
  have hboot := jitInv_boot m.cart m.jit.shm
  have hjit : JitInv (m.walkIn data).savestatePostLoad.jit := by
    simp only [CartMem.savestatePostLoad]
    split_ifs <;>
      exact ⟨fun slot block hblock => absurd hblock.symm (Option.some_ne_none block), hboot.tables,
        hboot.mirrors⟩
  have htables : TablesGood (m.walkIn data).savestatePostLoad := by
    simp only [CartMem.savestatePostLoad]
    split_ifs
    · exact ⟨fun page => .inl rfl, .inr rfl⟩
    · exact ⟨fun page => .inl rfl, .inl rfl⟩
  exact .of_allDirty rfl fun _ => ⟨hjit, htables⟩

/-- A step back: the tables stay, and the blocks in ram are gone. -/
theorem MarksVideo.rewind (data : WalkedMemory D) (m : CartMem D) :
    MarksVideo m (m.walkIn data).rewindPostRestore := by
  refine .of_allDirty rfl fun h => ?_
  have hjit : jitStep m.jit .invalidateRamBlocks =
      some { m.jit with jit := invalidateRamBlocks m.jit.jit } := rfl
  have hinv := jitInv_step h.jit hjit
  exact ⟨⟨hinv.id_lt, hinv.tables, hinv.mirrors⟩, ⟨h.tables.write, h.tables.read⟩⟩

/-- **Every operation of a session** that does not overrun flags the parts that it changes. -/
theorem MarksVideo.session {s t : MemSession D} (h : Mapped s.mem) {op : MemSession.Op D}
    (hop : ∀ play, op = .play play → play.OfGuest = true ∧ ¬ play.withCartridge.Overruns s.mem)
    (hstep : s.step dev op = some t) : MarksVideo s.mem t.mem := by
  cases op with
  | play op =>
      obtain ⟨mem, hmem, rfl⟩ := Option.map_eq_some_iff.mp hstep
      obtain ⟨hguest, hspares⟩ := hop op rfl
      exact .step h ((ofGuest_withCartridge op).trans hguest) hspares hmem
  | loadState data =>
      obtain rfl := Option.some.inj hstep
      cases data with
      | none => exact .refl s.mem
      | some data => exact .savestate data s.mem
  | rewindOnFrame setting held bufLen =>
      obtain rfl := Option.some.inj hstep
      simp only [MemSession.rewindOnFrame]
      split_ifs
      · exact .refl s.mem
      · exact .refl s.mem
      · unfold MemSession.rewindStepBack
        cases s.rewind.slots.getLast? with
        | none => exact .refl s.mem
        | some data => exact .rewind data s.mem
      · exact .refl s.mem
      · exact .refl s.mem

/-- The start of a game. -/
theorem MemSession.Start.mapped {s : MemSession D} (h : s.Start) : Mapped s.mem := by
  obtain ⟨content, shm, gpControl, devices, hmem⟩ := h.mem
  have hinv : MemInv s.mem := by
    rw [hmem]
    exact (MemStart.boot h.loaded shm gpControl _).memInv
  exact ⟨hinv.jit, hinv.tables⟩

end Restores

end AdvancedSlop
