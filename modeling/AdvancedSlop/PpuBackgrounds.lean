/-
# Drawing backgrounds

`draw_text_bg`, `draw_affine_bg` and `draw_bitmap_bg` of `src/core/ppu.rs`.  A drawn line has no
result where the code would read or write out of bounds.

* `drawTextBg`, `drawAffineBg`, `drawBitmapBg` : the code;
* `textPixel` : a pixel of a text background on its own;
* `background_law` : the runs of tiles and the identity path give the pixels one by one.
-/
import AdvancedSlop.PpuMemory

namespace AdvancedSlop

open WordMemory

attribute [local instance] neZero_pair

/-! ## Lines drawn pixel by pixel -/

/-- A line with its pixels from `lo` to `hi` updated, each on its own. -/
def updateRange {σ : Type} (f : ℕ → σ → σ) (lo hi : ℕ) (line : PixelLine σ) : PixelLine σ :=
  fun x => if lo ≤ x.1 ∧ x.1 < hi then f x (line x) else line x

theorem updateRange_self {σ : Type} (f : ℕ → σ → σ) (lo : ℕ) (line : PixelLine σ) :
    updateRange f lo lo line = line :=
  funext fun _ => if_neg fun h => absurd h.1 (not_le.2 h.2)

theorem updateRange_same {σ : Type} {f : ℕ → σ → σ} {lo hi : ℕ}
    (h : ∀ x, lo ≤ x → x < hi → ∀ old, f x old = old) (line : PixelLine σ) :
    updateRange f lo hi line = line := by
  funext x
  rw [updateRange]
  split
  · next hx => exact h x hx.1 hx.2 (line x)
  · rfl

/-- Only the pixels of a part of the line are changed. -/
theorem updateRange_part {σ : Type} {f : ℕ → σ → σ} {lo hi : ℕ}
    (h : ∀ x < DISPLAY_WIDTH, ¬ (lo ≤ x ∧ x < hi) → ∀ old, f x old = old) (line : PixelLine σ) :
    updateRange f 0 DISPLAY_WIDTH line = updateRange f lo hi line := by
  funext x
  rw [updateRange, updateRange, if_pos ⟨Nat.zero_le _, x.isLt⟩]
  split
  · rfl
  · next hx => exact h x x.isLt hx (line x)

theorem updateRange_trans {σ : Type} (f : ℕ → σ → σ) {lo mid hi : ℕ} (hlo : lo ≤ mid)
    (hhi : mid ≤ hi) (line : PixelLine σ) :
    updateRange f mid hi (updateRange f lo mid line) = updateRange f lo hi line := by
  funext x
  simp only [updateRange]
  split_ifs <;> first | rfl | omega

/-- A loop that updates one pixel after the other. -/
theorem foldlM_updateRange {σ : Type} {f : ℕ → σ → σ}
    {step : PixelLine σ → ℕ → Option (PixelLine σ)} (lo n : ℕ)
    (h : ∀ i < n, ∀ line, step line i = some (updateRange f (lo + i) (lo + i + 1) line))
    (line : PixelLine σ) :
    (List.range n).foldlM step line = some (updateRange f lo (lo + n) line) := by
  induction n with
  | zero => exact congrArg some (updateRange_self f lo line).symm
  | succ n ih =>
      rw [List.range_succ, List.foldlM_append, ih fun i hi => h i (Nat.lt_succ_of_lt hi)]
      simp only [Option.bind_eq_bind, Option.bind_some, List.foldlM_cons, List.foldlM_nil,
        h n (Nat.lt_succ_self n), updateRange_trans f (Nat.le_add_right lo n) (Nat.le_succ _),
        Option.pure_def]
      rfl

/-- A write to a pixel updates it. -/
theorem setPixel_eq {σ : Type} (f : ℕ → σ → σ) {x : ℕ} (hx : x < DISPLAY_WIDTH)
    (line : PixelLine σ) :
    setPixel line x (f x (line ⟨x, hx⟩)) = some (updateRange f x (x + 1) line) := by
  rw [setPixel, dif_pos hx]
  congr 1
  funext i
  by_cases hi : i = ⟨x, hx⟩
  · subst hi
    rw [Function.update_self, updateRange, if_pos ⟨le_rfl, Nat.lt_succ_self x⟩]
  · have hne : i.1 ≠ x := fun h => hi (Fin.ext h)
    rw [Function.update_of_ne hi, updateRange, if_neg (by omega)]

/-! ## The code -/

/-- `LineContext`. -/
structure LineContext where
  vram : ℕ → UInt8
  pal : ℕ → UInt8
  dispCnt : DispCnt
  line : ℕ

/-- The base of the characters. -/
def charBase (cnt : BitVec 16) : ℕ := ((cnt >>> 2) &&& 3).toNat <<< 14

/-- The base of the map. -/
def screenBase (cnt : BitVec 16) : ℕ := ((cnt >>> 8) &&& 0x1F).toNat <<< 11

/-- The pixels of a tile's row, from its texel `firstTx` on: the palette entry of a texel that is
not transparent. -/
def plotRow (pal : ℕ → UInt8) (hFlip : Bool) (texel : ℕ → ℕ) (palBase firstTx px run : ℕ)
    (out : PixelLine (BitVec 16)) : Option (PixelLine (BitVec 16)) :=
  (List.range run).foldlM
    (fun out i =>
      let tx := firstTx + i
      let tx := if hFlip then 7 - tx else tx
      let index := texel tx
      if index ≠ 0 then do
        let color ← readPal16 pal (palBase + index)
        setPixel out (px + i) (color ||| 0x8000)
      else some out) out

/-- The run of a tile's texels on row `y` of the map: one load for the row of the tile. -/
def textRun (ctx : LineContext) (cnt entry : BitVec 16) (y firstTx px run : ℕ)
    (out : PixelLine (BitVec 16)) : Option (PixelLine (BitVec 16)) :=
  let tile := (entry &&& 0x3FF).toNat
  let hFlip := entry.getLsbD 10
  let ty := if entry.getLsbD 11 then 7 - (y &&& 7) else y &&& 7
  if cnt.getLsbD 7 then
    (readRow 8 ctx.vram (vramOffset (charBase cnt + tile * 64 + ty * 8))).bind fun row64 =>
      -- An empty row is passed over: the line has been cleared.
      if row64 ≠ 0 then
        plotRow ctx.pal hFlip (fun tx => ((row64 >>> (tx * 8)).setWidth 8).toNat) 0 firstTx px run
          out
      else some out
  else
    (readRow 4 ctx.vram (vramOffset (charBase cnt + tile * 32 + ty * 4))).bind fun row32 =>
      if row32 ≠ 0 then
        let palBank := ((entry >>> 12) &&& 0xF).toNat
        plotRow ctx.pal hFlip (fun tx => ((row32 >>> (tx * 4)) &&& 0xF).toNat) (palBank * 16)
          firstTx px run out
      else some out

section Text

variable (ctx : LineContext) (regs : PpuRegs) (bg : Fin 4)

/-- The row of the map, `y`. -/
def textY : ℕ :=
  (ctx.line + (regs.bgVOfs bg).toNat) &&& (if (regs.bgCnt bg).getLsbD 15 then 511 else 255)

/-- The part of the address of a screen block that is one for the line. -/
def rowBlock : ℕ :=
  screenBase (regs.bgCnt bg) +
    if textY ctx regs bg ≥ 256 then if (regs.bgCnt bg).getLsbD 14 then 0x1000 else 0x800 else 0

/-- The loop over the runs of `draw_text_bg`, from a pixel on. -/
def textLoop (px : ℕ) (out : PixelLine (BitVec 16)) : Option (PixelLine (BitVec 16)) :=
  if h : px < DISPLAY_WIDTH then
    let cnt := regs.bgCnt bg
    let y := textY ctx regs bg
    let x := (px + (regs.bgHOfs bg).toNat) &&& (if cnt.getLsbD 14 then 511 else 255)
    let block := rowBlock ctx regs bg + if x ≥ 256 then 0x800 else 0
    let rowTile := (y &&& 255) / 8 * 32
    let firstTx := x &&& 7
    let run := min (8 - firstTx) (DISPLAY_WIDTH - px)
    have : DISPLAY_WIDTH - (px + run) < DISPLAY_WIDTH - px := by
      have hle : x &&& 7 ≤ 7 := Nat.and_le_right
      omega
    (readVram16 ctx.vram (block + (rowTile + (x &&& 255) / 8) * 2)).bind fun entry =>
      (textRun ctx cnt entry y firstTx px run out).bind fun out => textLoop (px + run) out
  else some out
termination_by DISPLAY_WIDTH - px

/-- **`draw_text_bg`.** -/
def drawTextBg (out : PixelLine (BitVec 16)) : Option (PixelLine (BitVec 16)) :=
  textLoop ctx regs bg 0 out

end Text

/-- A loop over the pixels of a line with a reference point that is stepped from pixel to pixel. -/
def refLoop (pa pc : BitVec 32)
    (pixel : BitVec 32 → BitVec 32 → PixelLine (BitVec 16) → ℕ → Option (PixelLine (BitVec 16)))
    (cx cy : BitVec 32) (out : PixelLine (BitVec 16)) : Option (PixelLine (BitVec 16)) :=
  ((List.range DISPLAY_WIDTH).foldlM
    (fun (state : BitVec 32 × BitVec 32 × PixelLine (BitVec 16)) px =>
      (pixel state.1 state.2.1 state.2.2 px).map fun out => (state.1 + pa, state.2.1 + pc, out))
    (cx, cy, out)).map fun (state : BitVec 32 × BitVec 32 × PixelLine (BitVec 16)) => state.2.2

/-- The place of an affine background that is seen at a reference point, if there is one. -/
def affineTexel (wrap : Bool) (size : ℕ) (cx cy : BitVec 32) : Option (ℕ × ℕ) :=
  let x := cx.sshiftRight 8
  let y := cy.sshiftRight 8
  if wrap then
    some ((x &&& BitVec.ofNat 32 (size - 1)).toNat, (y &&& BitVec.ofNat 32 (size - 1)).toNat)
  else if x.toInt < 0 ∨ (size : ℤ) ≤ x.toInt ∨ y.toInt < 0 ∨ (size : ℤ) ≤ y.toInt then none
  else some (x.toNat, y.toNat)

/-- A pixel of `draw_affine_bg`. -/
def affinePixel (ctx : LineContext) (cnt : BitVec 16) (cx cy : BitVec 32)
    (out : PixelLine (BitVec 16)) (px : ℕ) : Option (PixelLine (BitVec 16)) :=
  let size := 128 <<< ((cnt >>> 14) &&& 3).toNat
  match affineTexel (cnt.getLsbD 13) size cx cy with
  | none => some out
  | some (x, y) => do
      let tile ← readVram8 ctx.vram (vramOffset (screenBase cnt + y / 8 * (size / 8) + x / 8))
      let index ← readVram8 ctx.vram
        (vramOffset (charBase cnt + tile.toNat * 64 + (y &&& 7) * 8 + (x &&& 7)))
      if index = 0 then some out
      else do
        let color ← readPal16 ctx.pal index.toNat
        setPixel out px (color ||| 0x8000)

/-- **`draw_affine_bg`**, of background 2 or 3. -/
def drawAffineBg (ctx : LineContext) (regs : PpuRegs) (i : Fin 2) (out : PixelLine (BitVec 16)) :
    Option (PixelLine (BitVec 16)) :=
  refLoop ((regs.bgPa i).signExtend 32) ((regs.bgPc i).signExtend 32)
    (affinePixel ctx (regs.bgCnt ⟨2 + i.1, by omega⟩)) (regs.internalX i) (regs.internalY i) out

section Bitmap

variable (ctx : LineContext) (regs : PpuRegs) (mode : ℕ)

/-- The size of a bitmap. -/
def bitmapSize : ℤ × ℤ := if mode = 5 then (160, 128) else (240, 160)

/-- The page that is shown. -/
def bitmapPage : ℕ := if mode ≠ 3 ∧ ctx.dispCnt.displayFrameSelect then 0xA000 else 0

/-- A pixel of the general loop of `draw_bitmap_bg`. -/
def bitmapPixel (cx cy : BitVec 32) (out : PixelLine (BitVec 16)) (px : ℕ) :
    Option (PixelLine (BitVec 16)) :=
  let x := (cx.sshiftRight 8).toInt
  let y := (cy.sshiftRight 8).toInt
  if x < 0 ∨ (bitmapSize mode).1 ≤ x ∨ y < 0 ∨ (bitmapSize mode).2 ≤ y then some out
  else
    let pixelIndex := (y * (bitmapSize mode).1 + x).toNat
    if mode = 4 then do
      let index ← readVram8 ctx.vram (vramOffset (bitmapPage ctx mode + pixelIndex))
      if index = 0 then some out
      else do
        let color ← readPal16 ctx.pal index.toNat
        setPixel out px (color ||| 0x8000)
    else do
      let color ← readVram16 ctx.vram (bitmapPage ctx mode + pixelIndex * 2)
      setPixel out px (color ||| 0x8000)

/-- The general loop of `draw_bitmap_bg`. -/
def bitmapLoop (out : PixelLine (BitVec 16)) : Option (PixelLine (BitVec 16)) :=
  refLoop ((regs.bgPa 0).signExtend 32) ((regs.bgPc 0).signExtend 32) (bitmapPixel ctx mode)
    (regs.internalX 0) (regs.internalY 0) out

/-- The identity path of `draw_bitmap_bg`: the pixels from `pxStart` to `pxEnd` are a run of the
bitmap's row. -/
def bitmapRun (out : PixelLine (BitVec 16)) : Option (PixelLine (BitVec 16)) :=
  let y := ((regs.internalY 0).sshiftRight 8).toInt
  let x0 := ((regs.internalX 0).sshiftRight 8).toInt
  let pxStart := (min (max (-x0) 0) DISPLAY_WIDTH).toNat
  let pxEnd := (min (max ((bitmapSize mode).1 - x0) 0) DISPLAY_WIDTH).toNat
  if y < 0 ∨ (bitmapSize mode).2 ≤ y then some out
  else if pxEnd ≤ pxStart then some out
  else if mode = 4 then
    let base := bitmapPage ctx mode + (y * (bitmapSize mode).1).toNat + (x0 + pxStart).toNat
    if base + (pxEnd - pxStart) ≤ VRAM_BYTES then
      (List.range (pxEnd - pxStart)).foldlM
        (fun out i =>
          let index := ctx.vram (base + i)
          if index ≠ 0 then do
            let color ← readPal16 ctx.pal index.toNat
            setPixel out (pxStart + i) (color ||| 0x8000)
          else some out) out
    else none
  else
    let base := bitmapPage ctx mode + (y * (bitmapSize mode).1).toNat * 2 + (x0 + pxStart).toNat * 2
    if base + (pxEnd - pxStart) * 2 ≤ VRAM_BYTES then
      (List.range (pxEnd - pxStart)).foldlM
        (fun out i => setPixel out (pxStart + i) (readWord 2 ctx.vram (base + 2 * i) ||| 0x8000))
        out
    else none

/-- **`draw_bitmap_bg`.** -/
def drawBitmapBg (out : PixelLine (BitVec 16)) : Option (PixelLine (BitVec 16)) :=
  if regs.bgPa 0 = 0x100 ∧ regs.bgPc 0 = 0 then bitmapRun ctx regs mode out
  else bitmapLoop ctx regs mode out

end Bitmap

/-! ## The pixels one by one -/

/-- The colour of an index of the palette, from an entry on; the index 0 is transparent. -/
def paint (pal : ℕ → UInt8) (palBase index : ℕ) : Option (BitVec 16) :=
  if index = 0 then none else some (readWord 2 pal (2 * (palBase + index)) ||| 0x8000)

section Text

variable (ctx : LineContext) (regs : PpuRegs) (bg : Fin 4)

/-- The place across the map that a pixel is scrolled to. -/
def scrolledX (x : ℕ) : ℕ :=
  (x + (regs.bgHOfs bg).toNat) % (if (regs.bgCnt bg).getLsbD 14 then 512 else 256)

/-- The place down the map that the line is scrolled to. -/
def scrolledY : ℕ :=
  (ctx.line + (regs.bgVOfs bg).toNat) % (if (regs.bgCnt bg).getLsbD 15 then 512 else 256)

/-- The map's entry for a place: blocks of 32 by 32 tiles, across first. -/
def mapEntry (sx sy : ℕ) : BitVec 16 :=
  let cnt := regs.bgCnt bg
  let block := screenBase cnt +
    (if 256 ≤ sy then if cnt.getLsbD 14 then 0x1000 else 0x800 else 0) +
    (if 256 ≤ sx then 0x800 else 0)
  readWord 2 ctx.vram (vramOffset (block + (sy % 256 / 8 * 32 + sx % 256 / 8) * 2))

/-- A texel of an entry's tile, flipped, in its palette. -/
def tilePixel (entry : BitVec 16) (sx sy : ℕ) : Option (BitVec 16) :=
  let cnt := regs.bgCnt bg
  let tile := entry.toNat % 0x400
  let tx := if entry.getLsbD 10 then 7 - sx % 8 else sx % 8
  let ty := if entry.getLsbD 11 then 7 - sy % 8 else sy % 8
  if cnt.getLsbD 7 then
    paint ctx.pal 0 (ctx.vram (vramOffset (charBase cnt + tile * 64 + ty * 8 + tx))).toNat
  else
    let pair := (ctx.vram (vramOffset (charBase cnt + tile * 32 + ty * 4 + tx / 2))).toNat
    paint ctx.pal (entry.toNat / 0x1000 * 16) (pair / 16 ^ (tx % 2) % 16)

/-- **A pixel of a text background**, on its own. -/
def textPixel (x : ℕ) : Option (BitVec 16) :=
  let sx := scrolledX regs bg x
  let sy := scrolledY ctx regs bg
  tilePixel ctx regs bg (mapEntry ctx regs bg sx sy) sx sy

end Text

/-- The pixels that are not transparent, over a line. -/
def drawPixels (pixel : ℕ → Option (BitVec 16)) (x : ℕ) (old : BitVec 16) : BitVec 16 :=
  (pixel x).getD old

/-- One texel of a row. -/
theorem plotTexel_eq {pal : ℕ → UInt8} {pixel : ℕ → Option (BitVec 16)} {palBase index x : ℕ}
    (hindex : palBase + index < 512) (hx : x < DISPLAY_WIDTH)
    (hpixel : pixel x = paint pal palBase index) (out : PixelLine (BitVec 16)) :
    (if index ≠ 0 then (readPal16 pal (palBase + index)).bind fun color =>
        setPixel out x (color ||| 0x8000)
      else some out) = some (updateRange (drawPixels pixel) x (x + 1) out) := by
  by_cases hzero : index = 0
  · have hnone : pixel x = none := by rw [hpixel, paint, if_pos hzero]
    rw [if_neg (not_not.2 hzero), updateRange_same fun y hlo hhi old => ?_]
    have hy : y = x := by omega
    rw [hy, drawPixels, hnone, Option.getD_none]
  · have hsome : pixel x = some (readWord 2 pal (2 * (palBase + index)) ||| 0x8000) := by
      rw [hpixel, paint, if_neg hzero]
    have hwrite := setPixel_eq (drawPixels pixel) hx out
    rw [drawPixels, hsome, Option.getD_some] at hwrite
    rw [if_pos hzero, readPal16, if_pos (by unfold PAL_BYTES; omega)]
    exact hwrite

/-- A run of texels. -/
theorem plotRow_eq {pal : ℕ → UInt8} {pixel : ℕ → Option (BitVec 16)} {hFlip : Bool}
    {texel : ℕ → ℕ} {palBase firstTx px run : ℕ} (hindex : ∀ tx, palBase + texel tx < 512)
    (hrun : px + run ≤ DISPLAY_WIDTH)
    (hpixel : ∀ i < run, pixel (px + i)
      = paint pal palBase (texel (if hFlip then 7 - (firstTx + i) else firstTx + i)))
    (out : PixelLine (BitVec 16)) :
    plotRow pal hFlip texel palBase firstTx px run out
      = some (updateRange (drawPixels pixel) px (px + run) out) :=
  foldlM_updateRange px run (fun i hi line =>
    plotTexel_eq (hindex _) (by omega) (hpixel i hi) line) out

/-- A run of texels of a row that is passed over when it is empty. -/
theorem plotRow_or_skip {k : ℕ} {pal : ℕ → UInt8} {pixel : ℕ → Option (BitVec 16)} {hFlip : Bool}
    {row : BitVec (8 * k)} {texel : ℕ → ℕ} {palBase firstTx px run : ℕ}
    (hindex : ∀ tx, palBase + texel tx < 512) (hrun : px + run ≤ DISPLAY_WIDTH)
    (hempty : row = 0 → ∀ tx, texel tx = 0)
    (hpixel : ∀ i < run, pixel (px + i)
      = paint pal palBase (texel (if hFlip then 7 - (firstTx + i) else firstTx + i)))
    (out : PixelLine (BitVec 16)) :
    (if row ≠ 0 then plotRow pal hFlip texel palBase firstTx px run out else some out)
      = some (updateRange (drawPixels pixel) px (px + run) out) := by
  by_cases hrow : row = 0
  · rw [if_neg (not_not.2 hrow), updateRange_same fun x hlo hhi old => ?_]
    obtain ⟨i, rfl⟩ := Nat.exists_eq_add_of_le hlo
    rw [drawPixels, hpixel i (by omega), hempty hrow, paint, if_pos rfl, Option.getD_none]
  · rw [if_pos hrow, plotRow_eq hindex hrun hpixel]

section Text

variable (ctx : LineContext) (regs : PpuRegs) (bg : Fin 4)

/-- A place on the map, with the sizes as powers of two. -/
theorem and_mapSize (n : ℕ) (b : Bool) :
    n &&& (if b then 511 else 255) = n % (if b then 512 else 256) := by
  cases b
  · exact Nat.and_two_pow_sub_one_eq_mod n 8
  · exact Nat.and_two_pow_sub_one_eq_mod n 9

theorem charBase_mod (cnt : BitVec 16) : charBase cnt % 8 = 0 := by
  rw [charBase, Nat.shiftLeft_eq]
  omega

theorem screenBase_mod (cnt : BitVec 16) : screenBase cnt % 8 = 0 := by
  rw [screenBase, Nat.shiftLeft_eq]
  omega

theorem textY_eq : textY ctx regs bg = scrolledY ctx regs bg := and_mapSize _ _

/-- The entry of a run's tile. -/
theorem readVram16_mapEntry (sx : ℕ) :
    readVram16 ctx.vram (rowBlock ctx regs bg + (if sx ≥ 256 then 0x800 else 0) +
        ((scrolledY ctx regs bg &&& 255) / 8 * 32 + (sx &&& 255) / 8) * 2)
      = some (mapEntry ctx regs bg sx (scrolledY ctx regs bg)) := by
  have hand : ∀ n, n &&& 255 = n % 256 := fun n => Nat.and_two_pow_sub_one_eq_mod n 8
  have hbase := screenBase_mod (regs.bgCnt bg)
  rw [readVram16, hand, hand, rowBlock, textY_eq]
  refine readRow_vramOffset ctx.vram ?_
  split_ifs <;> omega

/-- The pixels of a run have one entry, and their texels follow each other. -/
theorem textPixel_run {px i : ℕ} (h : scrolledX regs bg px % 8 + i < 8) :
    textPixel ctx regs bg (px + i)
      = tilePixel ctx regs bg
          (mapEntry ctx regs bg (scrolledX regs bg px) (scrolledY ctx regs bg))
          (scrolledX regs bg px + i) (scrolledY ctx regs bg) := by
  have hnext : scrolledX regs bg (px + i) = scrolledX regs bg px + i := by
    unfold scrolledX at h ⊢
    split_ifs at h ⊢ <;> omega
  have hblock : 256 ≤ scrolledX regs bg px + i ↔ 256 ≤ scrolledX regs bg px := by omega
  have hcolumn : (scrolledX regs bg px + i) % 256 / 8 = scrolledX regs bg px % 256 / 8 := by omega
  rw [textPixel, hnext, mapEntry, mapEntry, if_congr hblock rfl rfl, hcolumn]

/-- **The run of a tile** draws its pixels. -/
theorem textRun_eq {pixel : ℕ → Option (BitVec 16)} {entry : BitVec 16} {sx y px run : ℕ}
    (hrun : px + run ≤ DISPLAY_WIDTH) (htile : sx % 8 + run ≤ 8)
    (hpixel : ∀ i < run, pixel (px + i) = tilePixel ctx regs bg entry (sx + i) y)
    (out : PixelLine (BitVec 16)) :
    textRun ctx (regs.bgCnt bg) entry y (sx % 8) px run out
      = some (updateRange (drawPixels pixel) px (px + run) out) := by
  have hbase := charBase_mod (regs.bgCnt bg)
  have hand : y &&& 7 = y % 8 := Nat.and_two_pow_sub_one_eq_mod y 3
  have htileNat : (entry &&& 0x3FF).toNat = entry.toNat % 0x400 := by
    rw [BitVec.toNat_and]
    exact Nat.and_two_pow_sub_one_eq_mod _ 10
  have hbank : ((entry >>> 12) &&& 0xF).toNat = entry.toNat / 0x1000 := by
    have hlt := entry.isLt
    rw [BitVec.toNat_and, BitVec.toNat_ushiftRight, Nat.shiftRight_eq_div_pow]
    refine (Nat.and_two_pow_sub_one_eq_mod _ 4).trans ?_
    omega
  have hmod : ∀ i < run, (sx + i) % 8 = sx % 8 + i := by
    intro i hi
    omega
  rw [textRun]
  simp only [hand, htileNat, hbank]
  set ty := if entry.getLsbD 11 = true then 7 - y % 8 else y % 8 with hty
  have hty' : ty < 8 := by
    rw [hty]
    split <;> omega
  have htx : ∀ i < run, (if entry.getLsbD 10 = true then 7 - (sx % 8 + i) else sx % 8 + i) < 8 := by
    intro i hi
    split <;> omega
  split
  · next hdepth =>
    set row := charBase (regs.bgCnt bg) + entry.toNat % 0x400 * 64 + ty * 8 with hrow
    rw [readRow_vramOffset ctx.vram (show row % 8 + 8 ≤ 8 by omega), Option.bind_some]
    refine plotRow_or_skip (fun tx => ?_) hrun (fun hzero tx => ?_) (fun i hi => ?_) out
    · have hlt := ((readWord 8 ctx.vram (vramOffset row) >>> (tx * 8)).setWidth 8).isLt
      omega
    · rw [hzero]
      simp
    · rw [hpixel i hi, tilePixel]
      simp only [hmod i hi, if_pos hdepth]
      rw [row_byte ctx.vram _ (htx i hi), ← vramOffset_add (by have := htx i hi; omega)]
  · next hdepth =>
    set row := charBase (regs.bgCnt bg) + entry.toNat % 0x400 * 32 + ty * 4 with hrow
    rw [readRow_vramOffset ctx.vram (show row % 8 + 4 ≤ 8 by omega), Option.bind_some]
    have hnibble : ∀ w : BitVec (8 * 4), (w &&& 0xF).toNat = w.toNat % 16 := fun w => by
      rw [BitVec.toNat_and]
      exact Nat.and_two_pow_sub_one_eq_mod _ 4
    have hentry := entry.isLt
    refine plotRow_or_skip (fun tx => ?_) hrun (fun hzero tx => ?_) (fun i hi => ?_) out
    · rw [hnibble]
      omega
    · rw [hzero]
      simp
    · rw [hpixel i hi, tilePixel, hnibble, row_nibble ctx.vram _ (htx i hi)]
      simp only [hmod i hi, if_neg hdepth]
      rw [← vramOffset_add (by have := htx i hi; omega)]

/-- **The loop over the runs** draws the pixels from where it is. -/
theorem textLoop_eq (px : ℕ) (out : PixelLine (BitVec 16)) :
    textLoop ctx regs bg px out
      = some (updateRange (drawPixels (textPixel ctx regs bg)) px DISPLAY_WIDTH out) := by
  induction hn : DISPLAY_WIDTH - px using Nat.strong_induction_on generalizing px out with
  | _ n ih =>
      rw [textLoop]
      split
      · next hpx =>
        have hx : (px + (regs.bgHOfs bg).toNat) &&&
            (if (regs.bgCnt bg).getLsbD 14 then 511 else 255) = scrolledX regs bg px :=
          and_mapSize _ _
        have hand : ∀ n, n &&& 7 = n % 8 := fun n => Nat.and_two_pow_sub_one_eq_mod n 3
        simp only [hx, textY_eq, readVram16_mapEntry, Option.bind_some, hand]
        set run := min (8 - scrolledX regs bg px % 8) (DISPLAY_WIDTH - px) with hrun
        rw [textRun_eq ctx regs bg (by omega) (by omega) (fun i hi => textPixel_run ctx regs bg
          (by omega)) out, Option.bind_some, ih _ (by omega) _ _ rfl,
          updateRange_trans _ (Nat.le_add_right px run) (by omega)]
      · next hpx =>
        rw [updateRange_same fun x hlo hhi _ => absurd (hlo.trans_lt hhi) hpx]

/-- **A text background** is drawn pixel by pixel. -/
theorem drawTextBg_eq (out : PixelLine (BitVec 16)) :
    drawTextBg ctx regs bg out
      = some fun x : Fin DISPLAY_WIDTH => (textPixel ctx regs bg x).getD (out x) := by
  rw [drawTextBg, textLoop_eq]
  congr 1
  funext x
  exact if_pos ⟨Nat.zero_le _, x.isLt⟩

end Text

/-! ## Bitmaps -/

/-- A loop with a reference point draws the pixels, each at its step of the reference point. -/
theorem refLoop_eq {f : ℕ → BitVec 16 → BitVec 16} {pa pc cx cy : BitVec 32}
    {pixel : BitVec 32 → BitVec 32 → PixelLine (BitVec 16) → ℕ → Option (PixelLine (BitVec 16))}
    (h : ∀ px < DISPLAY_WIDTH, ∀ line,
      pixel (cx + BitVec.ofNat 32 px * pa) (cy + BitVec.ofNat 32 px * pc) line px
        = some (updateRange f px (px + 1) line)) (out : PixelLine (BitVec 16)) :
    refLoop pa pc pixel cx cy out = some (updateRange f 0 DISPLAY_WIDTH out) := by
  have hstep : ∀ (ref delta : BitVec 32) (n : ℕ),
      ref + BitVec.ofNat 32 n * delta + delta = ref + BitVec.ofNat 32 (n + 1) * delta := by
    intro ref delta n
    rw [BitVec.ofNat_add, BitVec.add_mul, BitVec.one_mul, BitVec.add_assoc]
  have hrun : ∀ n ≤ DISPLAY_WIDTH, (List.range n).foldlM
      (fun (state : BitVec 32 × BitVec 32 × PixelLine (BitVec 16)) px =>
        (pixel state.1 state.2.1 state.2.2 px).map fun out => (state.1 + pa, state.2.1 + pc, out))
      (cx, cy, out)
        = some (cx + BitVec.ofNat 32 n * pa, cy + BitVec.ofNat 32 n * pc,
            updateRange f 0 n out) := by
    intro n hn
    induction n with
    | zero =>
        rw [updateRange_self, BitVec.zero_mul, BitVec.zero_mul, BitVec.add_zero, BitVec.add_zero]
        rfl
    | succ n ih =>
        rw [List.range_succ, List.foldlM_append, ih (Nat.le_of_succ_le hn)]
        simp only [Option.bind_eq_bind, Option.bind_some, List.foldlM_cons, List.foldlM_nil,
          h n hn, Option.map_some, hstep, updateRange_trans f (Nat.zero_le n) (Nat.le_succ n),
          Option.pure_def]
  rw [refLoop, hrun DISPLAY_WIDTH le_rfl]
  rfl

/-- The bitmaps end below the mirror of vram. -/
theorem vramOffset_of_lt {addr : ℕ} (h : addr < VRAM_BYTES) : vramOffset addr = addr := by
  unfold VRAM_BYTES at h
  unfold vramOffset
  dsimp only
  split <;> omega

section Bitmap

variable (ctx : LineContext) (regs : PpuRegs) {mode : ℕ}

variable (mode) in
/-- The colour of a bitmap at a place. -/
def bitmapColor (x y : ℤ) : Option (BitVec 16) :=
  if x < 0 ∨ (bitmapSize mode).1 ≤ x ∨ y < 0 ∨ (bitmapSize mode).2 ≤ y then none
  else
    let pixelIndex := (y * (bitmapSize mode).1 + x).toNat
    if mode = 4 then paint ctx.pal 0 (ctx.vram (bitmapPage ctx mode + pixelIndex)).toNat
    else some (readWord 2 ctx.vram (bitmapPage ctx mode + pixelIndex * 2) ||| 0x8000)

/-- A place of a bitmap is in the vram, with the page it is on. -/
theorem bitmap_bounds (hmode : mode = 3 ∨ mode = 4 ∨ mode = 5) {x y : ℤ}
    (h : ¬ (x < 0 ∨ (bitmapSize mode).1 ≤ x ∨ y < 0 ∨ (bitmapSize mode).2 ≤ y)) :
    bitmapPage ctx mode + (y * (bitmapSize mode).1 + x).toNat * (if mode = 4 then 1 else 2) + 2
      ≤ VRAM_BYTES := by
  have hpage : bitmapPage ctx mode ≤ 0xA000 ∧ (mode = 3 → bitmapPage ctx mode = 0) := by
    rw [bitmapPage]
    split
    · next hp => exact ⟨le_rfl, fun h3 => absurd h3 hp.1⟩
    · exact ⟨Nat.zero_le _, fun _ => rfl⟩
  unfold VRAM_BYTES
  rcases hmode with rfl | rfl | rfl
  · simp only [bitmapSize, show ¬ (3 : ℕ) = 5 by decide, show ¬ (3 : ℕ) = 4 by decide, if_false]
      at h ⊢
    have := hpage.2 rfl
    omega
  · simp only [bitmapSize, show ¬ (4 : ℕ) = 5 by decide, if_true, if_false] at h ⊢
    omega
  · simp only [bitmapSize, show ¬ (5 : ℕ) = 4 by decide, if_true, if_false] at h ⊢
    omega

/-- A byte is compared as its number. -/
theorem ite_index {α : Type} (index : UInt8) (a b : α) :
    (if index = 0 then a else b) = if index.toNat ≠ 0 then b else a := by
  have hzero : index.toNat ≠ 0 ↔ ¬ index = 0 := by
    rw [ne_eq, not_iff_not, ← UInt8.toNat_inj]
    rfl
  rw [if_congr hzero rfl rfl, ite_not]

/-- A pixel of an index of the palette. -/
theorem plotIndex_eq {pal : ℕ → UInt8} {pixel : ℕ → Option (BitVec 16)} {index : UInt8} {x : ℕ}
    (hx : x < DISPLAY_WIDTH) (hpixel : pixel x = paint pal 0 index.toNat)
    (out : PixelLine (BitVec 16)) :
    (if index = 0 then some out
      else (readPal16 pal index.toNat).bind fun color => setPixel out x (color ||| 0x8000))
        = some (updateRange (drawPixels pixel) x (x + 1) out) := by
  have hindex := index.toNat_lt
  rw [← plotTexel_eq (by omega) hx hpixel, Nat.zero_add]
  exact ite_index _ _ _

/-- A pixel of the general loop. -/
theorem bitmapPixel_eq (hmode : mode = 3 ∨ mode = 4 ∨ mode = 5)
    {pixel : ℕ → Option (BitVec 16)} {cx cy : BitVec 32} {px : ℕ} (hpx : px < DISPLAY_WIDTH)
    (hpixel : pixel px
      = bitmapColor ctx mode (cx.sshiftRight 8).toInt (cy.sshiftRight 8).toInt)
    (out : PixelLine (BitVec 16)) :
    bitmapPixel ctx mode cx cy out px
      = some (updateRange (drawPixels pixel) px (px + 1) out) := by
  rw [bitmapPixel]
  simp only []
  generalize (cx.sshiftRight 8).toInt = x at hpixel ⊢
  generalize (cy.sshiftRight 8).toInt = y at hpixel ⊢
  rw [bitmapColor] at hpixel
  by_cases hout : x < 0 ∨ (bitmapSize mode).1 ≤ x ∨ y < 0 ∨ (bitmapSize mode).2 ≤ y
  · rw [if_pos hout] at hpixel ⊢
    rw [updateRange_same fun i hlo hhi old => ?_]
    have hi : i = px := by omega
    rw [hi, drawPixels, hpixel, Option.getD_none]
  · have hbounds := bitmap_bounds ctx hmode hout
    rw [if_neg hout] at hpixel ⊢
    by_cases h4 : mode = 4
    · rw [if_pos h4] at hpixel hbounds
      rw [if_pos h4, readVram8_vramOffset, vramOffset_of_lt (by omega)]
      exact plotIndex_eq hpx hpixel out
    · rw [if_neg h4] at hpixel hbounds
      have hwrite := setPixel_eq (drawPixels pixel) hpx out
      rw [drawPixels, hpixel, Option.getD_some] at hwrite
      rw [if_neg h4, readVram16, vramOffset_of_lt (by omega), readRow, if_pos (by omega)]
      exact hwrite

/-- **The general loop** draws the pixels at the steps of the reference point. -/
theorem bitmapLoop_eq (hmode : mode = 3 ∨ mode = 4 ∨ mode = 5) (out : PixelLine (BitVec 16)) :
    bitmapLoop ctx regs mode out
      = some (updateRange (drawPixels fun x => bitmapColor ctx mode
            ((regs.internalX 0 + BitVec.ofNat 32 x * (regs.bgPa 0).signExtend 32).sshiftRight
              8).toInt
            ((regs.internalY 0 + BitVec.ofNat 32 x * (regs.bgPc 0).signExtend 32).sshiftRight
              8).toInt)
          0 DISPLAY_WIDTH out) := by
  refine refLoop_eq (fun px hpx line => ?_) out
  exact bitmapPixel_eq ctx hmode hpx rfl line

/-- **The identity path** draws the pixels of one row. -/
theorem bitmapRun_eq (hmode : mode = 3 ∨ mode = 4 ∨ mode = 5) (out : PixelLine (BitVec 16)) :
    bitmapRun ctx regs mode out
      = some (updateRange (drawPixels fun x => bitmapColor ctx mode
          (((regs.internalX 0).sshiftRight 8).toInt + x) ((regs.internalY 0).sshiftRight 8).toInt)
        0 DISPLAY_WIDTH out) := by
  rw [bitmapRun]
  generalize ((regs.internalX 0).sshiftRight 8).toInt = x0
  generalize ((regs.internalY 0).sshiftRight 8).toInt = y
  have hwidth : 0 < (bitmapSize mode).1 ∧ (bitmapSize mode).1 ≤ 240 := by
    rw [bitmapSize]
    split <;> decide
  simp only []
  set pxStart := (min (max (-x0) 0) DISPLAY_WIDTH).toNat with hstart
  set pxEnd := (min (max ((bitmapSize mode).1 - x0) 0) DISPLAY_WIDTH).toNat with hend
  -- The clipped range is that of the pixels that are on the bitmap.
  have hclip : ∀ x < DISPLAY_WIDTH, (pxStart ≤ x ∧ x < pxEnd ↔
      ¬ (x0 + x < 0 ∨ (bitmapSize mode).1 ≤ x0 + x)) := by
    intro x hx
    omega
  set pixel : ℕ → Option (BitVec 16) := fun x => bitmapColor ctx mode (x0 + x) y with hpixel
  have hout : ∀ x < DISPLAY_WIDTH, ¬ (pxStart ≤ x ∧ x < pxEnd) →
      ∀ old, drawPixels pixel x old = old := by
    intro x hx hnot old
    have hside := not_not.1 (mt (hclip x hx).2 hnot)
    rw [drawPixels, hpixel]
    show (bitmapColor ctx mode (x0 + x) y).getD old = old
    rw [bitmapColor, if_pos (by tauto), Option.getD_none]
  split
  · next hy =>
    rw [updateRange_same fun x _ _ old => ?_]
    show (bitmapColor ctx mode (x0 + x) y).getD old = old
    rw [bitmapColor, if_pos (by tauto), Option.getD_none]
  · next hy =>
    rw [updateRange_part hout]
    split
    · next hempty =>
      rw [updateRange_same fun x hlo hhi _ => absurd (hlo.trans_lt hhi) (not_lt.2 hempty)]
    · next hempty =>
      have hrow : 0 ≤ y * (bitmapSize mode).1 :=
        Int.mul_nonneg (not_lt.1 fun h => hy (Or.inl h)) hwidth.1.le
      have hin : ∀ x, pxStart ≤ x → x < pxEnd → ¬ (x0 + (x : ℕ) < 0 ∨
          (bitmapSize mode).1 ≤ x0 + (x : ℕ) ∨ y < 0 ∨ (bitmapSize mode).2 ≤ y) := by
        intro x hlo hhi h
        have hside := (hclip x (by omega)).1 ⟨hlo, hhi⟩
        tauto
      have hlast := bitmap_bounds ctx hmode (hin (pxEnd - 1) (by omega) (by omega))
      have hrange : pxStart + (pxEnd - pxStart) = pxEnd := by omega
      have hplace : ∀ i < pxEnd - pxStart,
          (y * (bitmapSize mode).1).toNat + (x0 + pxStart).toNat + i
            = (y * (bitmapSize mode).1 + (x0 + (pxStart + i : ℕ))).toNat := by
        intro i hi
        have hfirst := hin pxStart le_rfl (by omega)
        omega
      split
      · next h4 =>
        rw [if_pos h4] at hlast
        have hend := hplace (pxEnd - pxStart - 1) (by omega)
        have hrange' : pxStart + (pxEnd - pxStart - 1) = pxEnd - 1 := by omega
        rw [hrange'] at hend
        rw [if_pos (by omega)]
        conv_rhs => rw [← hrange]
        refine foldlM_updateRange pxStart _ (fun i hi line => ?_) out
        have hcolor : pixel (pxStart + i) = paint ctx.pal 0 (ctx.vram (bitmapPage ctx mode +
            (y * (bitmapSize mode).1).toNat + (x0 + pxStart).toNat + i)).toNat := by
          rw [hpixel]
          show bitmapColor ctx mode (x0 + (pxStart + i : ℕ)) y = _
          rw [bitmapColor, if_neg (hin _ (by omega) (by omega)), if_pos h4, ← hplace i hi,
            Nat.add_assoc, Nat.add_assoc, Nat.add_assoc]
        rw [ite_not, ite_index]
        rw [← plotTexel_eq (by have := (ctx.vram (bitmapPage ctx mode +
            (y * (bitmapSize mode).1).toNat + (x0 + pxStart).toNat + i)).toNat_lt; omega)
          (by omega) hcolor, Nat.zero_add]
        rfl
      · next h4 =>
        rw [if_neg h4] at hlast
        have hend := hplace (pxEnd - pxStart - 1) (by omega)
        have hrange' : pxStart + (pxEnd - pxStart - 1) = pxEnd - 1 := by omega
        rw [hrange'] at hend
        rw [if_pos (by omega)]
        conv_rhs => rw [← hrange]
        refine foldlM_updateRange pxStart _ (fun i hi line => ?_) out
        have hcolor : pixel (pxStart + i) = some (readWord 2 ctx.vram (bitmapPage ctx mode +
            (y * (bitmapSize mode).1).toNat * 2 + (x0 + pxStart).toNat * 2 + 2 * i)
              ||| 0x8000) := by
          rw [hpixel]
          show bitmapColor ctx mode (x0 + (pxStart + i : ℕ)) y = _
          rw [bitmapColor, if_neg (hin _ (by omega) (by omega))]
          simp only []
          rw [if_neg h4, ← hplace i hi]
          congr 3
          omega
        have hi' : pxStart + i < DISPLAY_WIDTH := by omega
        have hwrite := setPixel_eq (drawPixels pixel) hi' line
        rw [drawPixels, hcolor, Option.getD_some] at hwrite
        exact hwrite

/-- The place that is seen at a pixel when the reference point moves by one place a pixel. -/
theorem identity_place {cx : BitVec 32} (hcx : |cx.toInt| ≤ 2 ^ 27 + 160 * 2 ^ 15) {x : ℕ}
    (hx : x < DISPLAY_WIDTH) :
    ((cx + BitVec.ofNat 32 x * (0x100 : BitVec 16).signExtend 32).sshiftRight 8).toInt
      = (cx.sshiftRight 8).toInt + x := by
  have hstep : BitVec.ofNat 32 x * (0x100 : BitVec 16).signExtend 32
      = BitVec.ofNat 32 (x * 0x100) := by
    rw [BitVec.ofNat_mul]
    rfl
  have hx : x < 240 := hx
  have htoInt : (BitVec.ofNat 32 (x * 0x100)).toInt = (x * 0x100 : ℕ) := by
    rw [BitVec.toInt_eq_toNat_cond, BitVec.toNat_ofNat]
    split <;> omega
  rw [abs_le] at hcx
  rw [hstep, BitVec.toInt_sshiftRight, BitVec.toInt_sshiftRight, BitVec.toInt_add, htoInt,
    Int.bmod_eq_of_le (by omega) (by omega), Int.shiftRight_eq_div_pow, Int.shiftRight_eq_div_pow]
  omega

/-- **The identity path** is the general loop, wherever the reference point may be on a frame. -/
theorem drawBitmapBg_eq_loop (hmode : mode = 3 ∨ mode = 4 ∨ mode = 5) {n : ℕ}
    (hframe : regs.InFrame n) (hpa : regs.bgPa 0 = 0x100) (hpc : regs.bgPc 0 = 0)
    (out : PixelLine (BitVec 16)) :
    drawBitmapBg ctx regs mode out = bitmapLoop ctx regs mode out := by
  obtain ⟨hn, hrefs⟩ := hframe.bounds
  obtain ⟨-, -, hX, -⟩ := hrefs 0
  have hX : |(regs.internalX 0).toInt| ≤ 2 ^ 27 + 160 * 2 ^ 15 := hX.trans (by omega)
  have hzero : (0 : BitVec 16).signExtend 32 = 0 := by decide
  rw [drawBitmapBg, if_pos ⟨hpa, hpc⟩, bitmapRun_eq ctx regs hmode, bitmapLoop_eq ctx regs hmode,
    hpa, hpc, hzero]
  congr 1
  funext x
  rw [updateRange, updateRange, drawPixels, drawPixels, identity_place hX x.isLt,
    BitVec.ofNat_eq_ofNat, BitVec.mul_zero, BitVec.add_zero]

/-- A bitmap is drawn within its bounds, whatever the registers hold. -/
theorem drawBitmapBg_isSome (hmode : mode = 3 ∨ mode = 4 ∨ mode = 5)
    (out : PixelLine (BitVec 16)) : ∃ line, drawBitmapBg ctx regs mode out = some line := by
  rw [drawBitmapBg]
  split
  · exact ⟨_, bitmapRun_eq ctx regs hmode out⟩
  · exact ⟨_, bitmapLoop_eq ctx regs hmode out⟩

end Bitmap

/-! ## Affine backgrounds -/

section Affine

variable (ctx : LineContext) (regs : PpuRegs)

/-- The colour of an affine background at a reference point. -/
def affineColor (cnt : BitVec 16) (cx cy : BitVec 32) : Option (BitVec 16) :=
  let size := 128 <<< ((cnt >>> 14) &&& 3).toNat
  (affineTexel (cnt.getLsbD 13) size cx cy).bind fun place =>
    let tile := ctx.vram (vramOffset (screenBase cnt + place.2 / 8 * (size / 8) + place.1 / 8))
    paint ctx.pal 0 (ctx.vram (vramOffset
      (charBase cnt + tile.toNat * 64 + (place.2 &&& 7) * 8 + (place.1 &&& 7)))).toNat

/-- A pixel of an affine background. -/
theorem affinePixel_eq {cnt : BitVec 16} {pixel : ℕ → Option (BitVec 16)} {cx cy : BitVec 32}
    {px : ℕ} (hpx : px < DISPLAY_WIDTH) (hpixel : pixel px = affineColor ctx cnt cx cy)
    (out : PixelLine (BitVec 16)) :
    affinePixel ctx cnt cx cy out px = some (updateRange (drawPixels pixel) px (px + 1) out) := by
  rw [affineColor] at hpixel
  rw [affinePixel]
  simp only [] at hpixel ⊢
  cases htexel : affineTexel (cnt.getLsbD 13) (128 <<< ((cnt >>> 14) &&& 3).toNat) cx cy with
  | none =>
      rw [htexel, Option.bind_none] at hpixel
      rw [updateRange_same fun i hlo hhi old => ?_]
      have hi : i = px := by omega
      rw [hi, drawPixels, hpixel, Option.getD_none]
  | some place =>
      rw [htexel, Option.bind_some] at hpixel
      simp only [readVram8_vramOffset, Option.bind_eq_bind, Option.bind_some]
      exact plotIndex_eq hpx hpixel out

/-- **An affine background** is drawn at the steps of the reference point. -/
theorem drawAffineBg_eq (i : Fin 2) (out : PixelLine (BitVec 16)) :
    drawAffineBg ctx regs i out
      = some (updateRange (drawPixels fun x => affineColor ctx (regs.bgCnt ⟨2 + i.1, by omega⟩)
            (regs.internalX i + BitVec.ofNat 32 x * (regs.bgPa i).signExtend 32)
            (regs.internalY i + BitVec.ofNat 32 x * (regs.bgPc i).signExtend 32))
          0 DISPLAY_WIDTH out) :=
  refLoop_eq (fun _ hpx line => affinePixel_eq ctx hpx rfl line) out

end Affine

/-- **The backgrounds' fast paths**: a text background has at every pixel what its map, tile, flip
and palette give there, a bitmap's identity path draws what the general loop does on any line of a
frame, and neither leaves the vram. -/
theorem background_law (ctx : LineContext) (regs : PpuRegs) (out : PixelLine (BitVec 16)) :
    (∀ bg, drawTextBg ctx regs bg out
      = some fun x : Fin DISPLAY_WIDTH => (textPixel ctx regs bg x).getD (out x)) ∧
    ∀ mode, mode = 3 ∨ mode = 4 ∨ mode = 5 →
      (∃ line, drawBitmapBg ctx regs mode out = some line) ∧
      (∃ line, bitmapLoop ctx regs mode out = some line) ∧
      ∀ n, regs.InFrame n → regs.bgPa 0 = 0x100 → regs.bgPc 0 = 0 →
        drawBitmapBg ctx regs mode out = bitmapLoop ctx regs mode out :=
  ⟨fun bg => drawTextBg_eq ctx regs bg out, fun _ hmode =>
    ⟨drawBitmapBg_isSome ctx regs hmode out, ⟨_, bitmapLoop_eq ctx regs hmode out⟩,
      fun _ hframe hpa hpc => drawBitmapBg_eq_loop ctx regs hmode hframe hpa hpc out⟩⟩

/-- A vram of the pattern of its addresses, with palettes to match, on the second page. -/
def patternContext : LineContext where
  vram i := UInt8.ofNat (i % 251)
  pal i := UInt8.ofNat (i % 127)
  dispCnt := ⟨4, true, true, false, fun _ => true, true, false, false, false⟩
  line := 7

/-- A bitmap of the second page, on the line after the first one. -/
theorem background_law_pattern :
    (4 = 3 ∨ 4 = 4 ∨ 4 = 5) ∧ PpuRegs.new.stepInternalRefs.InFrame 1 ∧
      drawBitmapBg patternContext PpuRegs.new.stepInternalRefs 4 (fun _ => 0)
        = bitmapLoop patternContext PpuRegs.new.stepInternalRefs 4 (fun _ => 0) :=
  have hframe : PpuRegs.new.stepInternalRefs.InFrame 1 := .step .new (by decide)
  ⟨by decide, hframe, ((background_law patternContext PpuRegs.new.stepInternalRefs fun _ => 0).2 4
    (by decide)).2.2 1 hframe rfl rfl⟩

end AdvancedSlop
