/-
# A scanline on one core

`draw_objs`, `draw_bgs`, `draw_scanline` and the scratch of a core, `RasterScratch`, of
`src/core/ppu.rs`.  The scratch keeps what earlier lines, frames and modes left in it; the model
keeps it as well, wherever the source does not write.

* `drawObjs`, `drawBgs`, `RasterScratch.beginFrame`, `drawScanline` : the code;
* `drawScanline_agree` : two scratches draw the same line;
* `scratch_reuse_law` : so do the runs of the cores, however they interleave;
* `layer_selection_law` : the selection of layers and the path without blending.
-/
import AdvancedSlop.PpuSprites

namespace AdvancedSlop

open WordMemory

attribute [local instance] neZero_pair

/-! ## The window mask -/

/-- `fill` of a line. -/
def fillLine {α : Type} (value : α) (_line : PixelLine α) : PixelLine α := fun _ => value

/-- A loop that writes one value from a pixel to another. -/
def fillRange {α : Type} (value : α) (lo hi : ℕ) (line : PixelLine α) : Option (PixelLine α) :=
  (List.range (hi - lo)).foldlM (fun line i => setPixel line (lo + i) value) line

/-- Whether a line is between the bounds of a window; they may wrap around. -/
def insideWindow (winV : BitVec 16) (line : ℕ) : Bool :=
  let y1 := (winV >>> 8).toNat
  let y2 := (winV &&& 0xFF).toNat
  if y1 ≤ y2 then y1 ≤ line && line < y2 else y1 ≤ line || line < y2

/-- The pixels of window `w` on a line. -/
def applyWindow (regs : PpuRegs) (line : ℕ) (enabled : Bool) (w : Fin 2)
    (mask : PixelLine (BitVec 8)) : Option (PixelLine (BitVec 8)) :=
  if enabled = false then some mask
  else if insideWindow (regs.winV w) line = false then some mask
  else
    let x1 := (regs.winH w >>> 8).toNat
    let x2 := (regs.winH w &&& 0xFF).toNat
    let winIn := (regs.winIn >>> (w.1 * 8)).setWidth 8 &&& 0x3F
    if x1 ≤ x2 then fillRange winIn x1 (min x2 DISPLAY_WIDTH) mask
    else (fillRange winIn 0 (min x2 DISPLAY_WIDTH) mask).bind (fillRange winIn x1 DISPLAY_WIDTH)

/-- The window mask of a line: bits 0-3 for the backgrounds, 4 for the objects, 5 for the
effects. -/
def windowMask (regs : PpuRegs) (dispCnt : DispCnt) (line : ℕ) (objWindow : PixelLine Bool)
    (mask : PixelLine (BitVec 8)) : Option (PixelLine (BitVec 8)) :=
  if dispCnt.window0Display || dispCnt.window1Display || dispCnt.objWindowDisplay then
    let winOut := regs.winOut.setWidth 8 &&& 0x3F
    let objWin := (regs.winOut >>> 8).setWidth 8 &&& 0x3F
    let mask := fillLine winOut mask
    let mask := if dispCnt.objWindowDisplay then
      fun x => if objWindow x then objWin else mask x else mask
    -- Window 1 is below window 0: it is applied first.
    (applyWindow regs line dispCnt.window1Display 1 mask).bind
      (applyWindow regs line dispCnt.window0Display 0)
  else some (fillLine 0x3F mask)

/-! ## The layers of a line -/

/-- `ObjLine::new` and the other fields of `ObjLayer::default`. -/
def ObjLayer.default : ObjLayer where
  obj := ⟨fun _ => 0, fun _ => 0, fun _ => 0⟩
  winMask _ := 0x3F
  backdrop := 0
  bldCnt := 0
  bldAlpha := 0
  bldY := 0
  forcedBlank := false
  anySemi := false

/-- The end of `draw_objs`: the window mask over the layer, with the objects that are drawn. -/
def finishObjs (regs : PpuRegs) (dispCnt : DispCnt) (line : ℕ) (out : ObjLayer) (drawn : ObjDraw) :
    Option ObjLayer :=
  (windowMask regs dispCnt line drawn.window out.winMask).map fun winMask =>
    { out with obj := drawn.obj, winMask, anySemi := drawn.anySemi }

/-- **`draw_objs`**, over the layer of an earlier line. -/
def drawObjs (mem : GpuMemBuf) (regs : PpuRegs) (dispCnt : DispCnt) (line : ℕ) (out : ObjLayer)
    (oam : OamScratch) : Option ObjLayer :=
  (readPal16 mem.pal 0).bind fun entry =>
    let out := { out with
      forcedBlank := dispCnt.forcedBlank
      backdrop := entry &&& 0x7FFF
      bldCnt := regs.bldCnt
      bldAlpha := regs.bldAlpha
      bldY := regs.bldY
      anySemi := false }
    if dispCnt.forcedBlank then some out
    else
      -- Priorities and semi flags of the pixels that nothing is drawn on stay.
      let cleared : ObjDraw :=
        ⟨{ out.obj with color := fillLine 0 out.obj.color }, fun _ => false, false⟩
      let drawn :=
        if dispCnt.screenDisplayObj then
          drawObjects ⟨mem.vram, mem.pal, dispCnt, line⟩ oam cleared
        else some cleared
      drawn.bind (finishObjs regs dispCnt line out)

/-- `BgHalf::default`. -/
def BgHalf.default : BgHalf where
  bg _ _ := 0
  active _ := false
  prio _ := 0

/-- A background that is drawn. -/
def BgHalf.put (out : BgHalf) (i : Fin 2) (prio : BitVec 16) (line : PixelLine (BitVec 16)) :
    BgHalf where
  bg := Function.update out.bg i line
  active := Function.update out.active i true
  prio := Function.update out.prio i prio

/-- One of the two backgrounds, if the mode has it. -/
def drawBg (ctx : LineContext) (regs : PpuRegs) (base : ℕ) (out : BgHalf) (i : Fin 2) :
    Option BgHalf :=
  if h : base + i.1 < 4 then
    let bg : Fin 4 := ⟨base + i.1, h⟩
    if ctx.dispCnt.screenDisplayBg bg = false then some out
    else
      let mode := ctx.dispCnt.bgMode.toNat
      let dst := fillLine 0 (out.bg i)
      let prio := regs.bgCnt bg &&& 3
      if mode = 0 ∨ (mode = 1 ∧ (bg.1 = 0 ∨ bg.1 = 1)) then
        (drawTextBg ctx regs bg dst).map (out.put i prio)
      else if (mode = 1 ∧ bg.1 = 2) ∨ (mode = 2 ∧ (bg.1 = 2 ∨ bg.1 = 3)) then
        (drawAffineBg ctx regs ⟨bg.1 - 2, by omega⟩ dst).map (out.put i prio)
      else if (3 ≤ mode ∧ mode ≤ 5) ∧ bg.1 = 2 then
        (drawBitmapBg ctx regs mode dst).map (out.put i prio)
      else some out
  else none

/-- **`draw_bgs`**: the backgrounds from `base` on, over the half of an earlier line. -/
def drawBgs (mem : GpuMemBuf) (regs : PpuRegs) (dispCnt : DispCnt) (line : ℕ) (out : BgHalf)
    (base : ℕ) : Option BgHalf :=
  let out := { out with active := fun _ => false }
  if dispCnt.forcedBlank then some out
  else
    (List.finRange 2).foldlM (drawBg ⟨mem.vram, mem.pal, dispCnt, line⟩ regs base) out

/-! ## The scratch of a core -/

/-- `Selection::new`. -/
def Selection.new : Selection where
  topColor _ := 0
  topKey _ := KEY_NONE
  bottomColor _ := 0
  bottomKey _ := KEY_NONE

/-- `RasterScratch`. -/
structure RasterScratch where
  obj : ObjLayer
  bg01 : BgHalf
  bg23 : BgHalf
  sel : Selection
  oam : OamScratch

/-- `RasterScratch::new`. -/
def RasterScratch.new : RasterScratch :=
  ⟨.default, .default, .default, .new, .new⟩

/-- **`begin_frame`**, for a range of lines. -/
def RasterScratch.beginFrame (mem : GpuMemBuf) (start stop : ℕ) (scratch : RasterScratch) :
    Option RasterScratch :=
  (scratch.oam.decode mem.oam start stop).map fun oam => { scratch with oam }

/-- **`draw_scanline`**: the scratch after it, and the row of the frame. -/
def drawScanline (mem : GpuMemBuf) (regs : PpuRegs) (dispCnt : DispCnt) (line : ℕ)
    (scratch : RasterScratch) (fbLine : PixelLine (BitVec 32)) :
    Option (RasterScratch × PixelLine (BitVec 32)) :=
  (drawObjs mem regs dispCnt line scratch.obj scratch.oam).bind fun obj =>
    (drawBgs mem regs dispCnt line scratch.bg01 0).bind fun bg01 =>
      (drawBgs mem regs dispCnt line scratch.bg23 2).map fun bg23 =>
        let composed := composeScanline obj bg01 bg23 fbLine scratch.sel
        (⟨obj, bg01, bg23, composed.2, scratch.oam⟩, composed.1)

/-! ## The pixels of the objects over an old line -/

/-- Two lines of objects that show the same: the priority and the semi flag of a pixel count where
it is opaque. -/
structure ObjLine.Agree (a b : ObjLine) : Prop where
  color : a.color = b.color
  prio : ∀ x, opaquePixel (a.color x) = true → a.prio x = b.prio x
  semi : ∀ x, opaquePixel (a.color x) = true → a.semi x = b.semi x

/-- The same, while a line is drawn. -/
structure ObjDraw.Agree (a b : ObjDraw) : Prop where
  obj : a.obj.Agree b.obj
  window : a.window = b.window
  anySemi : a.anySemi = b.anySemi

/-- A write to two functions that agree where they are shown. -/
theorem update_agree {ι α : Type} [DecidableEq ι] {f g : ι → α} {shown shown' : ι → Prop} {x : ι}
    (hold : ∀ y, y ≠ x → shown' y → shown y) (h : ∀ y, shown y → f y = g y) (value : α) (y : ι)
    (hy : shown' y) : Function.update f x value y = Function.update g x value y := by
  by_cases hyx : y = x
  · rw [hyx, Function.update_self, Function.update_self]
  · rw [Function.update_of_ne hyx, Function.update_of_ne hyx, h y (hold y hyx hy)]

/-- **A texel** does the same to lines that show the same. -/
theorem ObjDraw.Agree.plotPixel {a b : ObjDraw} (h : a.Agree b) (pal : ℕ → UInt8) (o : DecodedObj)
    (x index : ℕ) : (plotPixel pal o x index a).Agree (plotPixel pal o x index b) := by
  rw [AdvancedSlop.plotPixel, AdvancedSlop.plotPixel]
  obtain ⟨⟨hcolor, hprio, hsemi⟩, hwindow, hany⟩ := h
  by_cases hx : x < DISPLAY_WIDTH
  · rw [dif_pos hx, dif_pos hx]
    simp only []
    split
    · exact ⟨⟨hcolor, hprio, hsemi⟩, hwindow, hany⟩
    · split
      · exact ⟨⟨hcolor, hprio, hsemi⟩, by rw [hwindow], hany⟩
      · have hbehind : (opaquePixel (a.obj.color ⟨x, hx⟩) = false ∨
            o.prio.toNat < (a.obj.prio ⟨x, hx⟩).toNat) ↔
              (opaquePixel (b.obj.color ⟨x, hx⟩) = false ∨
                o.prio.toNat < (b.obj.prio ⟨x, hx⟩).toNat) := by
          rw [← hcolor]
          cases hopaque : opaquePixel (a.obj.color ⟨x, hx⟩) with
          | false => exact ⟨fun _ => Or.inl rfl, fun _ => Or.inl rfl⟩
          | true => rw [hprio _ hopaque]
        have hold : ∀ (color : BitVec 16) y, y ≠ ⟨x, hx⟩ →
            opaquePixel (Function.update a.obj.color ⟨x, hx⟩ color y) = true →
              opaquePixel (a.obj.color y) = true := fun color y hy hopaque => by
          rwa [Function.update_of_ne hy] at hopaque
        by_cases hfront : opaquePixel (a.obj.color ⟨x, hx⟩) = false ∨
            o.prio.toNat < (a.obj.prio ⟨x, hx⟩).toNat
        · rw [if_pos hfront, if_pos (hbehind.1 hfront)]
          exact ⟨⟨by rw [hcolor], update_agree (hold _) hprio o.prio,
            update_agree (hold _) hsemi _⟩, hwindow, by rw [hany]⟩
        · rw [if_neg hfront, if_neg (hbehind.not.1 hfront)]
          exact ⟨⟨hcolor, hprio, hsemi⟩, hwindow, hany⟩
  · rw [dif_neg hx, dif_neg hx]
    exact ⟨⟨hcolor, hprio, hsemi⟩, hwindow, hany⟩

/-- A loop whose steps keep a relation. -/
theorem foldl_related {α β : Type} {R : β → β → Prop} {g : β → α → β}
    (hstep : ∀ b b' a, R b b' → R (g b a) (g b' a)) (l : List α) :
    ∀ {b b' : β}, R b b' → R (l.foldl g b) (l.foldl g b') := by
  induction l with
  | nil => exact fun h => h
  | cons a l ih => exact fun h => ih (hstep _ _ a h)

/-- **The scan** does the same to lines that show the same. -/
theorem ObjDraw.Agree.plainScan {a b : ObjDraw} (h : a.Agree b) (ctx : LineContext)
    (oam : ℕ → UInt8) : (plainScan ctx oam a).Agree (plainScan ctx oam b) := by
  refine foldl_related (fun b b' obj h => ?_) _ h
  rw [plainEntry, plainEntry]
  split
  · exact h
  · next o _ =>
    simp only []
    split
    · exact h
    · split
      · refine foldl_related (fun b b' x h => ?_) _ h
        simp only []
        split
        · exact h.plotPixel _ _ _ _
        · exact h
      · exact h

/-! ## The layers over an old line -/

/-- A loop that writes one value has a result within the line. -/
theorem fillRange_isSome {α : Type} (value : α) (lo : ℕ) {hi : ℕ} (hhi : hi ≤ DISPLAY_WIDTH)
    (line : PixelLine α) : ∃ line', fillRange value lo hi line = some line' := by
  refine ⟨_, foldlM_updateRange (f := fun _ _ => value) lo (hi - lo) (fun i hi' line => ?_) line⟩
  exact setPixel_eq (fun _ _ => value) (by omega) line

theorem applyWindow_isSome (regs : PpuRegs) (line : ℕ) (enabled : Bool) (w : Fin 2)
    (mask : PixelLine (BitVec 8)) : ∃ mask', applyWindow regs line enabled w mask = some mask' := by
  rw [applyWindow]
  simp only []
  split
  · exact ⟨mask, rfl⟩
  · split
    · exact ⟨mask, rfl⟩
    · split
      · exact fillRange_isSome _ _ (min_le_right _ _) mask
      · obtain ⟨mask', hmask'⟩ := fillRange_isSome
          ((regs.winIn >>> (w.1 * 8)).setWidth 8 &&& 0x3F) 0
          (min_le_right (regs.winH w &&& 0xFF).toNat DISPLAY_WIDTH) mask
        rw [hmask', Option.bind_some]
        exact fillRange_isSome _ _ le_rfl mask'

/-- The mask is made anew, whatever was in it. -/
theorem windowMask_fresh (regs : PpuRegs) (dispCnt : DispCnt) (line : ℕ)
    (objWindow : PixelLine Bool) : ∃ mask', ∀ mask,
      windowMask regs dispCnt line objWindow mask = some mask' := by
  have hsome : ∃ mask', windowMask regs dispCnt line objWindow (fun _ => 0) = some mask' := by
    rw [windowMask]
    simp only []
    split
    · obtain ⟨mask', hmask'⟩ := applyWindow_isSome regs line dispCnt.window1Display 1
        (if dispCnt.objWindowDisplay then
          fun x => if objWindow x then (regs.winOut >>> 8).setWidth 8 &&& 0x3F
            else regs.winOut.setWidth 8 &&& 0x3F
        else fun _ => regs.winOut.setWidth 8 &&& 0x3F)
      obtain ⟨mask'', hmask''⟩ := applyWindow_isSome regs line dispCnt.window0Display 0 mask'
      exact ⟨mask'', (congrArg (Option.bind · _) hmask').trans hmask''⟩
    · exact ⟨_, rfl⟩
  obtain ⟨mask', hmask'⟩ := hsome
  exact ⟨mask', fun _ => hmask'⟩

/-- Two layers of objects that show the same. -/
structure ObjLayer.Agree (a b : ObjLayer) : Prop where
  forcedBlank : a.forcedBlank = b.forcedBlank
  shown : a.forcedBlank = false → a.obj.Agree b.obj ∧ a.winMask = b.winMask ∧
    a.backdrop = b.backdrop ∧ a.bldCnt = b.bldCnt ∧ a.bldAlpha = b.bldAlpha ∧ a.bldY = b.bldY ∧
      a.anySemi = b.anySemi

/-- Two halves that show the same. -/
structure BgHalf.Agree (a b : BgHalf) : Prop where
  active : a.active = b.active
  bg : ∀ i, a.active i = true → a.bg i = b.bg i
  prio : ∀ i, a.active i = true → a.prio i = b.prio i

/-- The scratch holds the sprites of a range with the line. -/
def Begun (mem : GpuMemBuf) (line : ℕ) (oam : OamScratch) : Prop :=
  ∃ (start stop : ℕ) (s : OamScratch), s.decode mem.oam start stop = some oam ∧
    stop - start ≤ HALF_LINES ∧ stop ≤ 0x10000 ∧ start ≤ line ∧ line < stop

theorem Begun.drawObjects_eq {mem : GpuMemBuf} {line : ℕ} {oam : OamScratch}
    (h : Begun mem line oam) (dispCnt : DispCnt) (st : ObjDraw) :
    drawObjects ⟨mem.vram, mem.pal, dispCnt, line⟩ oam st
      = some (plainScan ⟨mem.vram, mem.pal, dispCnt, line⟩ mem.oam st) := by
  obtain ⟨start, stop, s, hdecode, hlines, hstop, hlo, hhi⟩ := h
  obtain ⟨s', hs', hdraw⟩ := sprite_law ⟨mem.vram, mem.pal, dispCnt, line⟩ mem.oam s hlines
    (by omega) hlo hhi
  obtain rfl := Option.some.inj (hdecode.symm.trans hs')
  exact hdraw st

section TwoRuns

variable (mem : GpuMemBuf) (regs : PpuRegs) (dispCnt : DispCnt) (line : ℕ)

theorem readPal16_zero (pal : ℕ → UInt8) : readPal16 pal 0 = some (readWord 2 pal 0) :=
  if_pos (by decide)

/-- The end of `draw_objs`, of lines that agree. -/
theorem finishObjs_agree {out out' : ObjLayer} (hblank : out.forcedBlank = out'.forcedBlank)
    (hregs : out.backdrop = out'.backdrop ∧ out.bldCnt = out'.bldCnt ∧
      out.bldAlpha = out'.bldAlpha ∧ out.bldY = out'.bldY)
    {drawn drawn' : ObjDraw} (h : drawn.Agree drawn') :
    ∃ objs objs', finishObjs regs dispCnt line out drawn = some objs ∧
      finishObjs regs dispCnt line out' drawn' = some objs' ∧ objs.Agree objs' := by
  obtain ⟨mask, hmask⟩ := windowMask_fresh regs dispCnt line drawn.window
  obtain ⟨hbackdrop, hcnt, halpha, hy⟩ := hregs
  simp only [finishObjs, ← h.window, hmask, Option.map_some]
  exact ⟨_, _, rfl, rfl, hblank, fun _ =>
    ⟨h.obj, rfl, hbackdrop, hcnt, halpha, hy, h.anySemi⟩⟩

/-- **The objects** over two old layers. -/
theorem drawObjs_agree {oam oam' : OamScratch} (hoam : Begun mem line oam)
    (hoam' : Begun mem line oam') (out out' : ObjLayer) :
    ∃ objs objs', drawObjs mem regs dispCnt line out oam = some objs ∧
      drawObjs mem regs dispCnt line out' oam' = some objs' ∧ objs.Agree objs' := by
  rw [drawObjs, drawObjs, readPal16_zero, Option.bind_some, Option.bind_some]
  simp only []
  have hclear : ¬ opaquePixel 0 = true := by decide
  have hcleared : ObjDraw.Agree
      ⟨{ out.obj with color := fillLine 0 out.obj.color }, fun _ => false, false⟩
      ⟨{ out'.obj with color := fillLine 0 out'.obj.color }, fun _ => false, false⟩ :=
    ⟨⟨rfl, fun _ h => absurd h hclear, fun _ h => absurd h hclear⟩, rfl, rfl⟩
  split
  · next hblank => exact ⟨_, _, rfl, rfl, rfl, fun h => absurd (h.symm.trans hblank) (by decide)⟩
  · split
    · rw [hoam.drawObjects_eq, hoam'.drawObjects_eq, Option.bind_some, Option.bind_some]
      exact finishObjs_agree regs dispCnt line rfl ⟨rfl, rfl, rfl, rfl⟩ (hcleared.plainScan _ _)
    · exact finishObjs_agree regs dispCnt line rfl ⟨rfl, rfl, rfl, rfl⟩ hcleared

theorem BgHalf.Agree.put {a b : BgHalf} (h : a.Agree b) (i : Fin 2) (prio : BitVec 16)
    (dst : PixelLine (BitVec 16)) : (a.put i prio dst).Agree (b.put i prio dst) := by
  have hold : ∀ j, j ≠ i → Function.update a.active i true j = true → a.active j = true := by
    intro j hj hactive
    rwa [Function.update_of_ne hj] at hactive
  exact ⟨by rw [BgHalf.put, BgHalf.put, h.active], update_agree hold h.bg dst,
    update_agree hold h.prio prio⟩

/-- **A background** over two old halves. -/
theorem drawBg_agree (ctx : LineContext) (regs : PpuRegs) {base : ℕ} (hbase : base ≤ 2)
    {a b : BgHalf} (h : a.Agree b) (i : Fin 2) :
    ∃ half half', drawBg ctx regs base a i = some half ∧ drawBg ctx regs base b i = some half' ∧
      half.Agree half' := by
  rw [drawBg, drawBg, dif_pos (by omega), dif_pos (by omega)]
  simp only []
  split
  · exact ⟨a, b, rfl, rfl, h⟩
  · -- Both draw on a line that has been cleared.
    have hfill : ∀ line line' : PixelLine (BitVec 16), fillLine 0 line = fillLine 0 line' :=
      fun _ _ => rfl
    rw [hfill (b.bg i) (a.bg i)]
    split
    · rw [drawTextBg_eq]
      exact ⟨_, _, rfl, rfl, h.put i _ _⟩
    · split
      · rw [drawAffineBg_eq]
        exact ⟨_, _, rfl, rfl, h.put i _ _⟩
      · split
        · next hmode =>
          obtain ⟨dst, hdst⟩ := drawBitmapBg_isSome ctx regs
            (show ctx.dispCnt.bgMode.toNat = 3 ∨ ctx.dispCnt.bgMode.toNat = 4 ∨
              ctx.dispCnt.bgMode.toNat = 5 by omega) (fillLine 0 (a.bg i))
          rw [hdst]
          exact ⟨_, _, rfl, rfl, h.put i _ _⟩
        · exact ⟨a, b, rfl, rfl, h⟩

/-- A monadic loop whose steps keep a relation and have results. -/
theorem foldlM_related {α β : Type} {R : β → β → Prop} {f : β → α → Option β}
    (hstep : ∀ b b' a, R b b' → ∃ r r', f b a = some r ∧ f b' a = some r' ∧ R r r') (l : List α) :
    ∀ {b b' : β}, R b b' → ∃ r r', l.foldlM f b = some r ∧ l.foldlM f b' = some r' ∧ R r r' := by
  induction l with
  | nil => exact fun h => ⟨_, _, rfl, rfl, h⟩
  | cons a l ih =>
      intro b b' h
      obtain ⟨r, r', hr, hr', hR⟩ := hstep b b' a h
      obtain ⟨t, t', ht, ht', hR'⟩ := ih hR
      refine ⟨t, t', ?_, ?_, hR'⟩
      · rw [List.foldlM_cons, hr]
        exact ht
      · rw [List.foldlM_cons, hr']
        exact ht'

/-- **The backgrounds** over two old halves. -/
theorem drawBgs_agree {base : ℕ} (hbase : base ≤ 2) (out out' : BgHalf) :
    ∃ half half', drawBgs mem regs dispCnt line out base = some half ∧
      drawBgs mem regs dispCnt line out' base = some half' ∧ half.Agree half' := by
  have hinactive : BgHalf.Agree { out with active := fun _ => false }
      { out' with active := fun _ => false } :=
    ⟨rfl, fun _ h => absurd h Bool.false_ne_true, fun _ h => absurd h Bool.false_ne_true⟩
  rw [drawBgs, drawBgs]
  split
  · exact ⟨_, _, rfl, rfl, hinactive⟩
  · exact foldlM_related (fun _ _ i h => drawBg_agree _ regs hbase h i) _ hinactive

end TwoRuns

/-! ## The line that is composed -/

section Compose

variable {objs objs' : ObjLayer} {a01 b01 a23 b23 : BgHalf}

/-- The candidates of halves that agree. -/
theorem bgOrder_congr (h01 : a01.Agree b01) (h23 : a23.Agree b23) :
    bgOrder a01 a23 = bgOrder b01 b23 := by
  have hslot : ∀ bg, (bgSlot a01 a23 bg).1.Agree (bgSlot b01 b23 bg).1 ∧
      (bgSlot a01 a23 bg).2 = (bgSlot b01 b23 bg).2 := by
    intro bg
    rw [bgSlot, bgSlot]
    split
    · exact ⟨h01, rfl⟩
    · exact ⟨h23, rfl⟩
  rw [bgOrder, bgOrder]
  congr 1
  funext prio
  congr 1
  funext bg
  obtain ⟨hhalf, hi⟩ := hslot bg
  simp only [← hi, ← hhalf.active]
  by_cases hactive : (bgSlot a01 a23 bg).1.active (bgSlot a01 a23 bg).2 = true
  · rw [hhalf.bg _ hactive, hhalf.prio _ hactive]
  · rw [if_neg fun h => hactive h.1, if_neg fun h => hactive h.1]

/-- The lanes of objects that agree. -/
theorem selectLane_congr {obj obj' : ObjLine} (h : obj.Agree obj') (cs : List BgCandidate)
    (winMask : PixelLine (BitVec 8)) (x : Fin DISPLAY_WIDTH) :
    selectLane cs obj winMask x = selectLane cs obj' winMask x := by
  rw [selectLane, selectLane, h.color]
  cases hopaque : opaquePixel (obj.color x) with
  | true => rw [h.prio x hopaque]
  | false =>
      have hzero : obj.color x &&& 0x8000 = 0 := not_not.1 (of_decide_eq_false hopaque)
      rw [h.color] at hzero
      have hvalid : ∀ w, vtst (obj'.color x) 0x8000 &&& w = 0 := by
        intro w
        rw [vtst, if_neg (not_not.2 hzero)]
        exact BitVec.zero_and
      simp only [hvalid, vbsl_zero]

/-- A selection has nothing of an earlier line. -/
theorem selectLayersNeon_congr {obj obj' : ObjLine} (h : obj.Agree obj') (cs : List BgCandidate)
    (winMask : PixelLine (BitVec 8)) (sel sel' : Selection) :
    selectLayersNeon cs obj winMask sel = selectLayersNeon cs obj' winMask sel' := by
  simp only [selectLayersNeon, storeLanes_eq, selectLane_congr h]

/-- The blended pixels of layers that agree. -/
theorem composePixel_congr (hshown : objs.obj.Agree objs'.obj ∧ objs.winMask = objs'.winMask ∧
      objs.backdrop = objs'.backdrop ∧ objs.bldCnt = objs'.bldCnt ∧
        objs.bldAlpha = objs'.bldAlpha ∧ objs.bldY = objs'.bldY ∧ objs.anySemi = objs'.anySemi)
    (sel : Selection) (x : Fin DISPLAY_WIDTH) :
    composePixel objs (selectLayersNeon (bgOrder a01 a23) objs.obj objs.winMask sel) x
      = composePixel objs' (selectLayersNeon (bgOrder a01 a23) objs.obj objs.winMask sel) x := by
  obtain ⟨hobj, hmask, hbackdrop, hcnt, halpha, hy, -⟩ := hshown
  have hpick := selectLayersNeon_pick (bgOrder a01 a23) objs.obj objs.winMask sel x
  have htop := (@keyLayer_selectLane a01 a23 objs.obj objs.winMask x).2
  rw [← hpick] at htop
  generalize selectLayersNeon (bgOrder a01 a23) objs.obj objs.winMask sel = sel at htop ⊢
  -- The semi flag counts where the object is on top, and so opaque.
  have hsemi : (keyLayer (sel.topKey x) = LAYER_OBJ ∧ objs.obj.semi x ≠ 0) ↔
      (keyLayer (sel.topKey x) = LAYER_OBJ ∧ objs'.obj.semi x ≠ 0) := by
    refine and_congr_right fun hlayer => ?_
    rw [hobj.semi x (Bool.and_eq_true_iff.1 (htop hlayer)).2]
  simp only [composePixel, hsemi, hmask, hbackdrop, hcnt, halpha, hy]

/-- **The line that is composed** has nothing of an earlier line, of the selection or of the row. -/
theorem composeScanline_congr (hobjs : objs.Agree objs') (h01 : a01.Agree b01)
    (h23 : a23.Agree b23) (sel sel' : Selection) (fbLine fbLine' : PixelLine (BitVec 32)) :
    (composeScanline objs a01 a23 fbLine sel).1
      = (composeScanline objs' b01 b23 fbLine' sel').1 := by
  rw [composeScanline, composeScanline, ← hobjs.forcedBlank]
  cases hblank : objs.forcedBlank with
  | true => rfl
  | false =>
      have hshown := hobjs.shown hblank
      obtain ⟨hobj, hmask, hbackdrop, hcnt, -, -, hany⟩ := hobjs.shown hblank
      have hno : noBlend objs' = noBlend objs := by rw [noBlend, noBlend, hcnt, hany]
      have hsel : selectLayersNeon (bgOrder b01 b23) objs'.obj objs'.winMask sel'
          = selectLayersNeon (bgOrder a01 a23) objs.obj objs.winMask sel := by
        rw [← hmask, ← bgOrder_congr h01 h23]
        exact (selectLayersNeon_congr hobj _ _ sel sel').symm
      simp only [Bool.false_eq_true, if_false, hno, hsel]
      split
      · simp only [topToAbgr, storeAbgr8, storeLanes_eq, hbackdrop]
      · have hpixels : composePixel objs'
            (selectLayersNeon (bgOrder a01 a23) objs.obj objs.winMask sel)
            = composePixel objs (selectLayersNeon (bgOrder a01 a23) objs.obj objs.winMask sel) := by
          funext x
          exact (composePixel_congr hshown sel x).symm
        simp only [blendLine, storeAbgr8, storeLanes_eq, hpixels]

end Compose

/-! ## Lines and frames -/

section Frame

variable (mem : GpuMemBuf)

/-- **A line over two old scratches**: the rows are the same, and the sprites stay. -/
theorem drawScanline_agree (regs : PpuRegs) (dispCnt : DispCnt) {line : ℕ}
    {scratch scratch' : RasterScratch} (h : Begun mem line scratch.oam)
    (h' : Begun mem line scratch'.oam) (fbLine fbLine' : PixelLine (BitVec 32)) :
    ∃ after after' row, drawScanline mem regs dispCnt line scratch fbLine = some (after, row) ∧
      drawScanline mem regs dispCnt line scratch' fbLine' = some (after', row) ∧
        after.oam = scratch.oam ∧ after'.oam = scratch'.oam := by
  obtain ⟨objs, objs', hobjs, hobjs', hobj⟩ :=
    drawObjs_agree mem regs dispCnt line h h' scratch.obj scratch'.obj
  obtain ⟨bg01, bg01', hbg01, hbg01', h01⟩ :=
    drawBgs_agree mem regs dispCnt line (Nat.zero_le 2) scratch.bg01 scratch'.bg01
  obtain ⟨bg23, bg23', hbg23, hbg23', h23⟩ :=
    drawBgs_agree mem regs dispCnt line (le_refl 2) scratch.bg23 scratch'.bg23
  refine ⟨⟨objs, bg01, bg23, (composeScanline objs bg01 bg23 fbLine scratch.sel).2, scratch.oam⟩,
    ⟨objs', bg01', bg23', (composeScanline objs' bg01' bg23' fbLine' scratch'.sel).2,
      scratch'.oam⟩, (composeScanline objs bg01 bg23 fbLine scratch.sel).1, ?_, ?_, rfl, rfl⟩
  · rw [drawScanline, hobjs, hbg01, hbg23]
    rfl
  · rw [composeScanline_congr hobj h01 h23 scratch.sel scratch'.sel fbLine fbLine',
      drawScanline, hobjs', hbg01', hbg23']
    rfl

theorem beginFrame_begun (start stop : ℕ) (hlines : stop - start ≤ HALF_LINES)
    (hstop : stop ≤ 0x10000) (scratch : RasterScratch) :
    ∃ begun, scratch.beginFrame mem start stop = some begun ∧
      ∀ line, start ≤ line → line < stop → Begun mem line begun.oam := by
  obtain ⟨oam, hdecode, -⟩ := OamScratch.decode_lists mem.oam hlines scratch.oam
  refine ⟨{ scratch with oam }, ?_, fun line hlo hhi =>
    ⟨start, stop, scratch.oam, hdecode, hlines, hstop, hlo, hhi⟩⟩
  rw [RasterScratch.beginFrame, hdecode]
  rfl

/-- A line drawn with a fresh scratch, on its own. -/
def freshRow (regs : PpuRegs) (dispCnt : DispCnt) (line : ℕ) : Option (PixelLine (BitVec 32)) :=
  (RasterScratch.new.beginFrame mem line (line + 1)).bind fun scratch =>
    (drawScanline mem regs dispCnt line scratch fun _ => 0).map Prod.snd

/-- **A line** is what it would be with a fresh scratch. -/
theorem drawScanline_eq_freshRow (regs : PpuRegs) (dispCnt : DispCnt) {line : ℕ}
    {scratch : RasterScratch} (h : Begun mem line scratch.oam) (fbLine : PixelLine (BitVec 32)) :
    ∃ after row, drawScanline mem regs dispCnt line scratch fbLine = some (after, row) ∧
      freshRow mem regs dispCnt line = some row ∧ after.oam = scratch.oam := by
  have hline : line + 1 ≤ 0x10000 := by
    obtain ⟨start, stop, -, -, -, hstop, -, hhi⟩ := h
    omega
  obtain ⟨fresh, hbegin, hfresh⟩ := beginFrame_begun mem line (line + 1)
    (by unfold HALF_LINES; omega) hline RasterScratch.new
  obtain ⟨after, after', row, hdraw, hdraw', hoam, -⟩ := drawScanline_agree mem regs dispCnt h
    (hfresh line le_rfl (Nat.lt_succ_self line)) fbLine fun _ => 0
  refine ⟨after, row, hdraw, ?_, hoam⟩
  rw [freshRow, hbegin, Option.bind_some, hdraw']
  rfl

end Frame

/-! ## The runs of the cores -/

/-- What a core does for a frame: it begins a range of lines, or it draws a line. -/
inductive RasterOp (W : Type) where
  | beginFrame (worker : W) (start stop : ℕ)
  | drawScanline (worker : W) (line : ℕ)

/-- The core of an operation. -/
def RasterOp.worker {W : Type} : RasterOp W → W
  | beginFrame worker _ _ => worker
  | drawScanline worker _ => worker

/-- The scratches of the cores, and the rows of the frame. -/
structure RasterState (W : Type) where
  scratch : W → RasterScratch
  frame : ℕ → PixelLine (BitVec 32)

section Runs

variable {W : Type} [DecidableEq W] (mem : GpuMemBuf) (regs : ℕ → PpuRegs) (dispCnt : ℕ → DispCnt)

/-- An operation on the scratch of its core, with the registers that were captured for the line. -/
def RasterState.step (s : RasterState W) : RasterOp W → Option (RasterState W)
  | .beginFrame w start stop =>
      ((s.scratch w).beginFrame mem start stop).map fun scratch =>
        { s with scratch := Function.update s.scratch w scratch }
  | .drawScanline w line =>
      (drawScanline mem (regs line) (dispCnt line) line (s.scratch w) (s.frame line)).map
        fun drawn =>
          { scratch := Function.update s.scratch w drawn.1
            frame := Function.update s.frame line drawn.2 }

/-- Whether each core draws lines of the range that it has begun. -/
def Scheduled : (W → Option (ℕ × ℕ)) → List (RasterOp W) → Prop
  | _, [] => True
  | ranges, .beginFrame w start stop :: ops =>
      (stop - start ≤ HALF_LINES ∧ stop ≤ 0x10000) ∧
        Scheduled (Function.update ranges w (some (start, stop))) ops
  | ranges, .drawScanline w line :: ops =>
      (∃ start stop, ranges w = some (start, stop) ∧ start ≤ line ∧ line < stop) ∧
        Scheduled ranges ops

/-- **The runs of the cores**: a line that is drawn is what it would be with a fresh scratch. -/
theorem run_scheduled {ops : List (RasterOp W)} :
    ∀ {ranges : W → Option (ℕ × ℕ)}, Scheduled ranges ops → ∀ {s : RasterState W},
      (∀ w start stop, ranges w = some (start, stop) → ∀ line, start ≤ line → line < stop →
        Begun mem line (s.scratch w).oam) →
      ∃ s', ops.foldlM (RasterState.step mem regs dispCnt) s = some s' ∧
        (∀ line, (∃ w, .drawScanline w line ∈ ops) →
          freshRow mem (regs line) (dispCnt line) line = some (s'.frame line)) ∧
        ∀ line, (¬ ∃ w, .drawScanline w line ∈ ops) → s'.frame line = s.frame line := by
  induction ops with
  | nil =>
      exact fun _ s _ => ⟨s, rfl, fun _ h => absurd h.choose_spec List.not_mem_nil, fun _ _ => rfl⟩
  | cons op ops ih =>
      intro ranges hops s hs
      cases op with
      | beginFrame w start stop =>
          obtain ⟨⟨hlines, hstop⟩, hops⟩ := hops
          obtain ⟨begun, hbegin, hbegun⟩ := beginFrame_begun mem start stop hlines hstop (s.scratch w)
          obtain ⟨s', hrun, hdrawn, hkept⟩ := ih hops
            (s := { s with scratch := Function.update s.scratch w begun })
            fun w' start' stop' hrange line hlo hhi => by
              by_cases hw : w' = w
              · rw [hw, Function.update_self] at hrange
                obtain ⟨rfl, rfl⟩ := Prod.mk.inj (Option.some.inj hrange)
                simp only [hw, Function.update_self]
                exact hbegun line hlo hhi
              · rw [Function.update_of_ne hw] at hrange
                simp only [Function.update_of_ne hw]
                exact hs w' start' stop' hrange line hlo hhi
          have hstep : RasterState.step mem regs dispCnt s (.beginFrame w start stop)
              = some { s with scratch := Function.update s.scratch w begun } := by
            rw [RasterState.step, hbegin]
            rfl
          refine ⟨s', ?_, fun line hline => hdrawn line ?_, fun line hline => hkept line ?_⟩
          · rw [List.foldlM_cons, hstep]
            exact hrun
          · obtain ⟨w', hmem⟩ := hline
            exact ⟨w', (List.mem_cons.1 hmem).resolve_left nofun⟩
          · exact fun ⟨w', hmem⟩ => hline ⟨w', List.mem_cons_of_mem _ hmem⟩
      | drawScanline w line =>
          obtain ⟨⟨start, stop, hrange, hlo, hhi⟩, hops⟩ := hops
          obtain ⟨after, row, hdraw, hrow, hoam⟩ := drawScanline_eq_freshRow mem (regs line)
            (dispCnt line) (hs w start stop hrange line hlo hhi) (s.frame line)
          obtain ⟨s', hrun, hdrawn, hkept⟩ := ih hops
            (s := { scratch := Function.update s.scratch w after
                    frame := Function.update s.frame line row })
            fun w' start' stop' hrange' line' hlo' hhi' => by
              have hbegun := hs w' start' stop' hrange' line' hlo' hhi'
              by_cases hw : w' = w
              · rw [hw] at hbegun
                simp only [hw, Function.update_self, hoam]
                exact hbegun
              · simp only [Function.update_of_ne hw]
                exact hbegun
          have hstep : RasterState.step mem regs dispCnt s (.drawScanline w line)
              = some { scratch := Function.update s.scratch w after
                       frame := Function.update s.frame line row } := by
            rw [RasterState.step, hdraw]
            rfl
          refine ⟨s', ?_, fun line' hline => ?_, fun line' hline => ?_⟩
          · rw [List.foldlM_cons, hstep]
            exact hrun
          · -- The last time a line is drawn decides.
            by_cases hlater : ∃ w', RasterOp.drawScanline w' line' ∈ ops
            · exact hdrawn line' hlater
            · obtain ⟨w', hmem⟩ := hline
              rcases List.mem_cons.1 hmem with hhere | hmem
              · obtain ⟨-, rfl⟩ := RasterOp.drawScanline.inj hhere
                rw [hkept line' hlater, hrow]
                show some row = some (Function.update s.frame line' row line')
                rw [Function.update_self]
              · exact absurd ⟨w', hmem⟩ hlater
          · have hne : line' ≠ line := fun h => hline ⟨w, h ▸ List.mem_cons_self⟩
            rw [hkept line' fun ⟨w', hmem⟩ => hline ⟨w', List.mem_cons_of_mem _ hmem⟩]
            exact Function.update_of_ne hne _ _

/-- What a core has left of its range, seen apart from the others. -/
theorem scheduled_congr {ops : List (RasterOp W)} :
    ∀ {ranges ranges' : W → Option (ℕ × ℕ)}, Scheduled ranges ops →
      (∀ op ∈ ops, ranges op.worker = ranges' op.worker) → Scheduled ranges' ops := by
  induction ops with
  | nil => exact fun _ _ => trivial
  | cons op ops ih =>
      intro ranges ranges' hops h
      cases op with
      | beginFrame w start stop =>
          refine ⟨hops.1, ih hops.2 fun op hop => ?_⟩
          by_cases hw : op.worker = w
          · rw [hw, Function.update_self, Function.update_self]
          · rw [Function.update_of_ne hw, Function.update_of_ne hw,
              h op (List.mem_cons_of_mem _ hop)]
      | drawScanline w line =>
          have hw : ranges w = ranges' w := h _ List.mem_cons_self
          exact ⟨hw ▸ hops.1, ih hops.2 fun op hop => h op (List.mem_cons_of_mem _ hop)⟩

/-- **An interleaving** is scheduled where what each core does is. -/
theorem scheduled_of_workers {ops : List (RasterOp W)} :
    ∀ {ranges : W → Option (ℕ × ℕ)},
      (∀ w, Scheduled ranges (ops.filter fun op => op.worker = w)) → Scheduled ranges ops := by
  induction ops with
  | nil => exact fun _ => trivial
  | cons op ops ih =>
      intro ranges h
      have hown := h op.worker
      have hother : ∀ w, w ≠ op.worker → Scheduled ranges (ops.filter fun op => op.worker = w) := by
        intro w hw
        have hall := h w
        rwa [List.filter_cons, if_neg (by simpa using hw.symm)] at hall
      rw [List.filter_cons, if_pos (decide_eq_true rfl)] at hown
      cases op with
      | beginFrame w start stop =>
          refine ⟨hown.1, ih fun w' => ?_⟩
          by_cases hw : w' = w
          · rw [hw]
            exact hown.2
          · refine scheduled_congr (hother w' hw) fun op hop => ?_
            have hworker : op.worker = w' := of_decide_eq_true (List.mem_filter.1 hop).2
            rw [hworker, Function.update_of_ne hw]
      | drawScanline w line =>
          refine ⟨hown.1, ih fun w' => ?_⟩
          by_cases hw : w' = w
          · rw [hw]
            exact hown.2
          · exact hother w' hw

/-- `rasterize_half`: what a core does for a half of the frame. -/
def rasterizeHalf (w : W) (half : ℕ) : List (RasterOp W) :=
  .beginFrame w (half * HALF_LINES) (half * HALF_LINES + HALF_LINES) ::
    (List.range HALF_LINES).map fun i => .drawScanline w (half * HALF_LINES + i)

/-- A half is scheduled. -/
theorem scheduled_half {half : ℕ} (hhalf : half < 2) (w : W) (ops : List (RasterOp W))
    (hops : ∀ ranges : W → Option (ℕ × ℕ), Scheduled ranges ops) (ranges : W → Option (ℕ × ℕ)) :
    Scheduled ranges (rasterizeHalf w half ++ ops) := by
  have hdraws : ∀ (lines : List ℕ) (ranges : W → Option (ℕ × ℕ)) (start stop : ℕ),
      ranges w = some (start, stop) → (∀ line ∈ lines, start ≤ line ∧ line < stop) →
        Scheduled ranges (lines.map (RasterOp.drawScanline w) ++ ops) := by
    intro lines
    induction lines with
    | nil => exact fun ranges _ _ _ _ => hops ranges
    | cons line lines ih =>
        intro ranges start stop hrange hlines
        exact ⟨⟨start, stop, hrange, hlines line List.mem_cons_self⟩,
          ih ranges start stop hrange fun l hl => hlines l (List.mem_cons_of_mem _ hl)⟩
  unfold rasterizeHalf HALF_LINES
  refine ⟨⟨by unfold HALF_LINES; omega, by omega⟩, ?_⟩
  have hlist := hdraws ((List.range 80).map fun i => half * 80 + i)
    (Function.update ranges w (some (half * 80, half * 80 + 80))) _ _ (Function.update_self _ _ _)
    fun line hline => by
      obtain ⟨i, hi, rfl⟩ := List.mem_map.1 hline
      have hlt := List.mem_range.1 hi
      omega
  rw [List.map_map] at hlist
  exact hlist

end Runs

/-- **Reuse of a scratch never shows.**  Whatever two scratches held before their sprites were
decoded for a range with the line, the line they draw is the same; so the two halves of a frame,
drawn with two scratches and interleaved in any way, are the frame that one scratch draws in
sequence. -/
theorem scratch_reuse_law (mem : GpuMemBuf) :
    (∀ regs dispCnt line scratch scratch' fbLine fbLine', Begun mem line scratch.oam →
      Begun mem line scratch'.oam → ∃ after after' row,
        drawScanline mem regs dispCnt line scratch fbLine = some (after, row) ∧
          drawScanline mem regs dispCnt line scratch' fbLine' = some (after', row)) ∧
    ∀ regs dispCnt (s : RasterState (Fin 2)) (t : RasterState Unit) (ops : List (RasterOp (Fin 2))),
      (∀ w, ops.filter (fun op => op.worker = w) = rasterizeHalf w w) →
        ∃ s' t', ops.foldlM (RasterState.step mem regs dispCnt) s = some s' ∧
          (rasterizeHalf () 0 ++ rasterizeHalf () 1).foldlM (RasterState.step mem regs dispCnt) t
            = some t' ∧
          ∀ line < 2 * HALF_LINES, s'.frame line = t'.frame line := by
  refine ⟨fun regs dispCnt line scratch scratch' fbLine fbLine' h h' => ?_, fun regs dispCnt s t
    ops hops => ?_⟩
  · obtain ⟨after, after', row, hdraw, hdraw', -, -⟩ :=
      drawScanline_agree mem regs dispCnt h h' fbLine fbLine'
    exact ⟨after, after', row, hdraw, hdraw'⟩
  · have hnone : ∀ {W : Type} {scratch : W → RasterScratch} (w : W) (start stop : ℕ),
        (none : Option (ℕ × ℕ)) = some (start, stop) → ∀ line, start ≤ line → line < stop →
          Begun mem line (scratch w).oam := fun _ _ _ h => absurd h.symm (Option.some_ne_none _)
    have htwo : Scheduled (fun _ => none) ops := scheduled_of_workers fun w => by
      rw [hops w, ← List.append_nil (rasterizeHalf w w)]
      exact scheduled_half w.isLt w [] (fun _ => trivial) _
    have hone : Scheduled (fun _ : Unit => none) (rasterizeHalf () 0 ++ rasterizeHalf () 1) := by
      refine scheduled_half (by decide) () _ (fun ranges => ?_) _
      rw [← List.append_nil (rasterizeHalf () 1)]
      exact scheduled_half (by decide) () [] (fun _ => trivial) ranges
    obtain ⟨s', hs', hdrawn, -⟩ := run_scheduled mem regs dispCnt htwo (s := s) hnone
    obtain ⟨t', ht', hdrawn', -⟩ := run_scheduled mem regs dispCnt hone (s := t) hnone
    refine ⟨s', t', hs', ht', fun line hline => ?_⟩
    obtain ⟨half, hhalf, i, hi, rfl⟩ :
        ∃ half < 2, ∃ i < HALF_LINES, half * HALF_LINES + i = line := by
      unfold HALF_LINES at hline ⊢
      exact ⟨line / 80, by omega, line % 80, by omega, by omega⟩
    have hmem : ∀ {W : Type} (w : W),
        RasterOp.drawScanline w (half * HALF_LINES + i) ∈ rasterizeHalf w half := fun w =>
      List.mem_cons_of_mem _ (List.mem_map_of_mem (List.mem_range.2 hi))
    have hinOps : RasterOp.drawScanline (⟨half, hhalf⟩ : Fin 2) (half * HALF_LINES + i) ∈ ops := by
      refine List.mem_of_mem_filter (p := fun op => op.worker = ⟨half, hhalf⟩) ?_
      rw [hops ⟨half, hhalf⟩]
      exact hmem _
    have hinSequence : RasterOp.drawScanline () (half * HALF_LINES + i)
        ∈ rasterizeHalf () 0 ++ rasterizeHalf () 1 := by
      refine List.mem_append.2 ?_
      interval_cases half
      · exact Or.inl (hmem ())
      · exact Or.inr (hmem ())
    exact Option.some.inj ((hdrawn _ ⟨_, hinOps⟩).symm.trans (hdrawn' _ ⟨_, hinSequence⟩))

/-- A memory of the pattern of its addresses. -/
def patternMem : GpuMemBuf where
  vram := patternContext.vram
  pal := patternContext.pal
  oam i := UInt8.ofNat (i * 37 % 256)

/-- A scratch with lines in it. -/
def usedScratch : RasterScratch where
  obj := { ObjLayer.default with
    obj := ⟨fun _ => 0xFFFF, fun _ => 0, fun _ => 1⟩, winMask := fun _ => 0, anySemi := true }
  bg01 := ⟨fun _ _ => 0xFFFF, fun _ => true, fun _ => 0⟩
  bg23 := ⟨fun _ _ => 0xFFFF, fun _ => true, fun _ => 0⟩
  sel := ⟨fun _ => 0x7FFF, fun _ => 0, fun _ => 0x7FFF, fun _ => 0⟩
  oam := { OamScratch.new with counts := fun _ => 128, baseLine := 80 }

/-- A used scratch against a new one, and the lower half before the upper one. -/
theorem scratch_reuse_law_pattern :
    (∃ scratch scratch' after after' row,
      RasterScratch.new.beginFrame patternMem 0 80 = some scratch ∧
        usedScratch.beginFrame patternMem 0 80 = some scratch' ∧
        drawScanline patternMem .new patternContext.dispCnt 7 scratch (fun _ => 0)
          = some (after, row) ∧
        drawScanline patternMem .new patternContext.dispCnt 7 scratch' (fun _ => 1)
          = some (after', row)) ∧
    ∃ s' t',
      (rasterizeHalf 1 1 ++ rasterizeHalf 0 0 : List (RasterOp (Fin 2))).foldlM
        (RasterState.step patternMem (fun _ => .new) fun _ => patternContext.dispCnt)
        ⟨fun _ => usedScratch, fun _ _ => 0⟩ = some s' ∧
      (rasterizeHalf () 0 ++ rasterizeHalf () 1).foldlM
        (RasterState.step patternMem (fun _ => .new) fun _ => patternContext.dispCnt)
        ⟨fun _ => .new, fun _ _ => 1⟩ = some t' ∧
      ∀ line < 2 * HALF_LINES, s'.frame line = t'.frame line := by
  obtain ⟨hrow, hframe⟩ := scratch_reuse_law patternMem
  obtain ⟨scratch, hbegin, hbegun⟩ :=
    beginFrame_begun patternMem 0 80 (by decide) (by decide) .new
  obtain ⟨scratch', hbegin', hbegun'⟩ :=
    beginFrame_begun patternMem 0 80 (by decide) (by decide) usedScratch
  obtain ⟨after, after', row, hdraw, hdraw'⟩ := hrow .new patternContext.dispCnt 7 scratch scratch'
    (fun _ => 0) (fun _ => 1) (hbegun 7 (by decide) (by decide)) (hbegun' 7 (by decide) (by decide))
  refine ⟨⟨scratch, scratch', after, after', row, hbegin, hbegin', hdraw, hdraw'⟩,
    hframe _ _ _ _ _ fun w => ?_⟩
  fin_cases w <;> rfl

/-! ## The semi flags -/

/-- Whether every semi-transparent pixel that is drawn has been noted. -/
def ObjDraw.NotesSemi (st : ObjDraw) : Prop :=
  ∀ x, opaquePixel (st.obj.color x) = true → st.obj.semi x ≠ 0 → st.anySemi = true

/-- A monadic loop whose steps keep an invariant. -/
theorem foldlM_keeps {α β : Type} {P : β → Prop} {f : β → α → Option β}
    (hstep : ∀ b a b', P b → f b a = some b' → P b') (l : List α) :
    ∀ {b b' : β}, P b → l.foldlM f b = some b' → P b' := by
  induction l with
  | nil => exact fun h hrun => Option.some.inj hrun ▸ h
  | cons a l ih =>
      intro b b' h hrun
      rw [List.foldlM_cons] at hrun
      obtain ⟨b₁, hb₁, hrest⟩ := Option.bind_eq_some_iff.1 hrun
      exact ih (hstep b a b₁ h hb₁) hrest

section Semi

variable {ctx : LineContext} {o : DecodedObj} {st st' : ObjDraw}

theorem plot_notesSemi {sx index : ℕ} (h : st.NotesSemi)
    (hplot : plot ctx o sx index st = some st') : st'.NotesSemi := by
  rw [plot] at hplot
  split at hplot
  · split at hplot
    · next hsx =>
      simp only [] at hplot
      split at hplot
      · obtain rfl := Option.some.inj hplot
        exact h
      · split at hplot
        · obtain ⟨color, -, rfl⟩ := Option.map_eq_some_iff.1 hplot
          intro x hopaque hsemi
          rw [Bool.or_eq_true]
          by_cases hx : x = ⟨sx, hsx⟩
          · simp only [hx, Function.update_self] at hsemi
            cases ho : o.semi with
            | false => rw [ho] at hsemi; exact absurd rfl hsemi
            | true => exact Or.inr rfl
          · simp only [Function.update_of_ne hx] at hopaque hsemi
            exact Or.inl (h x hopaque hsemi)
        · obtain rfl := Option.some.inj hplot
          exact h
    · exact absurd hplot.symm (Option.some_ne_none _)
  · obtain rfl := Option.some.inj hplot
    exact h

theorem affineObjPixel_notesSemi {localY : ℤ} {localX : ℕ} (h : st.NotesSemi)
    (hdraw : affineObjPixel ctx o localY st localX = some st') : st'.NotesSemi := by
  rw [affineObjPixel] at hdraw
  simp only [] at hdraw
  split at hdraw
  · split at hdraw <;> obtain ⟨index, -, hplot⟩ := Option.bind_eq_some_iff.1 hdraw
    · exact plot_notesSemi h hplot
    · exact plot_notesSemi h hplot
  · obtain rfl := Option.some.inj hdraw
    exact h

theorem regularRow_notesSemi {ty tx0 localX run : ℕ} (h : st.NotesSemi)
    (hdraw : regularRow ctx o ty tx0 localX run st = some st') : st'.NotesSemi := by
  have hrun : ∀ (texel : ℕ → ℕ), objRun ctx o texel tx0 localX run st = some st' → st'.NotesSemi :=
    fun texel hrun => foldlM_keeps (fun _ _ _ h hplot => plot_notesSemi h hplot) _ h hrun
  rw [regularRow] at hdraw
  split at hdraw <;> obtain ⟨row, -, hdraw⟩ := Option.bind_eq_some_iff.1 hdraw <;> split at hdraw
  · exact hrun _ hdraw
  · exact Option.some.inj hdraw ▸ h
  · exact hrun _ hdraw
  · exact Option.some.inj hdraw ▸ h

theorem regularLoop_notesSemi {ty xEnd localX : ℕ} (h : st.NotesSemi)
    (hdraw : regularLoop ctx o ty xEnd localX st = some st') : st'.NotesSemi := by
  induction hn : xEnd - localX using Nat.strong_induction_on generalizing localX st with
  | _ n ih =>
      rw [regularLoop] at hdraw
      split at hdraw
      · next hlt =>
        obtain ⟨st₁, hrow, hrest⟩ := Option.bind_eq_some_iff.1 hdraw
        refine ih _ ?_ (regularRow_notesSemi h hrow) hrest rfl
        have hle : ∀ n, n &&& 7 ≤ 7 := fun n => Nat.and_le_right
        have hflip := hle (o.w - 1 - localX)
        have hplain := hle localX
        split <;> omega
      · exact Option.some.inj hdraw ▸ h

theorem drawObj_notesSemi (h : st.NotesSemi) (hdraw : drawObj ctx o st = some st') :
    st'.NotesSemi := by
  rw [drawObj] at hdraw
  simp only [] at hdraw
  split at hdraw
  · exact Option.some.inj hdraw ▸ h
  · split at hdraw
    · exact foldlM_keeps (fun _ _ _ h hpixel => affineObjPixel_notesSemi h hpixel) _ h hdraw
    · exact regularLoop_notesSemi h hdraw

theorem drawObjects_notesSemi {oam : OamScratch} (h : st.NotesSemi)
    (hdraw : drawObjects ctx oam st = some st') : st'.NotesSemi := by
  rw [drawObjects] at hdraw
  split at hdraw
  · refine foldlM_keeps (fun st j st' h hobj => ?_) _ h hdraw
    split at hobj
    · exact drawObj_notesSemi h hobj
    · exact absurd hobj.symm (Option.some_ne_none _)
  · exact absurd hdraw.symm (Option.some_ne_none _)

end Semi

/-- **`draw_objs` notes the semi-transparent pixels** of the line it draws. -/
theorem drawObjs_notesSemi {mem : GpuMemBuf} {regs : PpuRegs} {dispCnt : DispCnt} {line : ℕ}
    {out objs : ObjLayer} {oam : OamScratch}
    (h : drawObjs mem regs dispCnt line out oam = some objs) (hblank : objs.forcedBlank = false) :
    objs.NotesSemi := by
  rw [drawObjs, readPal16_zero, Option.bind_some] at h
  simp only [] at h
  split at h
  · next hforced =>
    obtain rfl := Option.some.inj h
    exact absurd (hforced.symm.trans hblank) (by decide)
  · obtain ⟨drawn, hdrawn, hfinish⟩ := Option.bind_eq_some_iff.1 h
    have hclear : ¬ opaquePixel 0 = true := by decide
    have hcleared : ObjDraw.NotesSemi
        ⟨{ out.obj with color := fillLine 0 out.obj.color }, fun _ => false, false⟩ :=
      fun _ hopaque => absurd hopaque hclear
    have hnotes : drawn.NotesSemi := by
      split at hdrawn
      · exact drawObjects_notesSemi hcleared hdrawn
      · exact Option.some.inj hdrawn ▸ hcleared
    rw [finishObjs] at hfinish
    obtain ⟨winMask, -, rfl⟩ := Option.map_eq_some_iff.1 hfinish
    exact hnotes

/-- **The selection of layers.**  The lanes pick at every pixel what the walk picks, the layer in
front and the one behind it; and a line on the path without blending is the one the general loop
writes. -/
theorem layer_selection_law :
    (∀ bg01 bg23 obj winMask sel x,
      (selectLayersNeon (bgOrder bg01 bg23) obj winMask sel).pick x
          = (selectLayersScalar (bgOrder bg01 bg23) obj winMask).pick x ∧
        (selectLayersScalar (bgOrder bg01 bg23) obj winMask).pick x
          = frontLayers bg01 bg23 obj winMask x) ∧
    ∀ mem regs dispCnt line out oam objs, drawObjs mem regs dispCnt line out oam = some objs →
      objs.forcedBlank = false → noBlend objs = true → ∀ bg01 bg23 fbLine sel,
        (composeScanline objs bg01 bg23 fbLine sel).1
          = blendLine objs (selectLayersNeon (bgOrder bg01 bg23) objs.obj objs.winMask sel)
              fbLine := by
  refine ⟨fun bg01 bg23 obj winMask sel x => ⟨?_, walk_eq_frontLayers bg01 bg23 obj winMask x⟩,
    fun mem regs dispCnt line out oam objs h hblank hno bg01 bg23 fbLine sel => ?_⟩
  · exact (selectLayersNeon_pick _ obj winMask sel x).trans (selectLane_eq bg01 bg23 obj winMask x)
  · rw [composeScanline, hblank]
    simp only [Bool.false_eq_true, if_false, if_pos hno]
    exact topToAbgr_eq_blendLine (drawObjs_notesSemi h hblank) hno sel fbLine

/-- A line with its objects shown, and effects that are off. -/
theorem layer_selection_law_pattern :
    ∃ objs, drawObjs patternMem .new
        ⟨0, false, true, false, fun _ => true, true, false, false, false⟩ 7 usedScratch.obj .new
          = some objs ∧ objs.forcedBlank = false ∧ noBlend objs = true ∧
      (composeScanline objs usedScratch.bg01 .default (fun _ => 0) .new).1
        = blendLine objs (selectLayersNeon (bgOrder usedScratch.bg01 .default) objs.obj objs.winMask
            .new) fun _ => 0 :=
  ⟨_, rfl, rfl, rfl, layer_selection_law.2 patternMem .new
    ⟨0, false, true, false, fun _ => true, true, false, false, false⟩ 7 usedScratch.obj .new _ rfl
    rfl rfl usedScratch.bg01 .default (fun _ => 0) .new⟩

end AdvancedSlop
