/-
# Drawing objects

`OamScratch::decode` and `draw_objects` of `src/core/ppu.rs`: the sprites of a half of the frame are
unpacked once, each line walks those that cover it.  A drawn line has no result where the code
would read or write out of bounds.

* `OamScratch.decode`, `drawObjects` : the code;
* `plainScan` : all entries of the oam in order, each covered pixel on its own;
* `sprite_law` : the two draw the same.
-/
import AdvancedSlop.PpuBackgrounds

namespace AdvancedSlop

open WordMemory

/-! ## Entries -/

/-- `OBJ_SIZES`. -/
def OBJ_SIZES : List (List (ℕ × ℕ)) :=
  [[(8, 8), (16, 16), (32, 32), (64, 64)],
    [(16, 8), (32, 8), (32, 16), (64, 32)],
    [(8, 16), (8, 32), (16, 32), (32, 64)]]

/-- `DecodedObj`, with its flags one by one. -/
structure DecodedObj where
  ox : ℤ
  oy : ℤ
  w : ℕ
  h : ℕ
  boundW : ℕ
  boundH : ℕ
  baseTile : ℕ
  stride1d : ℕ
  pa : ℤ
  pb : ℤ
  pc : ℤ
  pd : ℤ
  prio : BitVec 8
  palBank : ℕ
  affine : Bool
  semi : Bool
  window : Bool
  is8bpp : Bool
  hFlip : Bool
  vFlip : Bool

section Entry

variable (oam : ℕ → UInt8) (obj : ℕ)

/-- An attribute word of an entry. -/
def objAttr (i : ℕ) : BitVec 16 := readWord 2 oam (obj * 8 + i * 2)

/-- An affine parameter of a group. -/
def affineParam (group i : ℕ) : ℤ := (readWord 2 oam (group * 32 + 6 + i * 8)).toInt

/-- An entry unpacked; nothing when it is disabled or prohibited. -/
def unpackEntry : Option DecodedObj :=
  let attr0 := objAttr oam obj 0
  let attr1 := objAttr oam obj 1
  let attr2 := objAttr oam obj 2
  let affine := attr0.getLsbD 8
  let gfxMode := ((attr0 >>> 10) &&& 3).toNat
  let shape := ((attr0 >>> 14) &&& 3).toNat
  if (affine = false ∧ attr0.getLsbD 9) ∨ gfxMode = 3 ∨ shape = 3 then none
  else
    let size := (OBJ_SIZES.getD shape []).getD ((attr1 >>> 14) &&& 3).toNat (0, 0)
    let w := size.1
    let h := size.2
    let double := affine && attr0.getLsbD 9
    let boundW := if double then w * 2 else w
    let boundH := if double then h * 2 else h
    let y : ℤ := (attr0 &&& 0xFF).toNat
    let x : ℤ := (attr1 &&& 0x1FF).toNat
    let is8bpp := attr0.getLsbD 13
    let group := ((attr1 >>> 9) &&& 0x1F).toNat
    -- An object that would reach past row 256 begins above the screen instead.
    some
      { ox := if (DISPLAY_WIDTH : ℤ) ≤ x then x - 512 else x
        oy := if 256 < y + boundH then y - 256 else y
        w, h, boundW, boundH
        baseTile := (attr2 &&& 0x3FF).toNat
        stride1d := w / 8 * if is8bpp then 2 else 1
        pa := if affine then affineParam oam group 0 else 0x100
        pb := if affine then affineParam oam group 1 else 0
        pc := if affine then affineParam oam group 2 else 0
        pd := if affine then affineParam oam group 3 else 0x100
        prio := ((attr2 >>> 10) &&& 3).setWidth 8
        palBank := ((attr2 >>> 12) &&& 0xF).toNat
        affine
        semi := gfxMode = 1
        window := gfxMode = 2
        is8bpp
        hFlip := !affine && attr1.getLsbD 12
        vFlip := !affine && attr1.getLsbD 13 }

/-- An entry as `decode` takes it, with its lines of the range; nothing when no pixel of it can be
seen there. -/
def decodeEntry (start stop : ℕ) : Option (DecodedObj × ℤ × ℤ) :=
  match unpackEntry oam obj with
  | none => none
  | some o =>
      let y0 := max o.oy start
      let y1 := min (o.oy + o.boundH) stop
      if y1 ≤ y0 then none
      else if o.ox + o.boundW ≤ 0 then none
      else some (o, y0, y1)

end Entry

/-! ## The lists of the lines -/

/-- `HALF_LINES`. -/
def HALF_LINES : ℕ := 80

/-- `OamScratch`: 128 objects, and a list of them for each of 80 lines. -/
structure OamScratch where
  objs : ℕ → DecodedObj
  counts : ℕ → ℕ
  lists : ℕ → ℕ → ℕ
  baseLine : ℕ

namespace OamScratch

/-- `OamScratch::new`, all zeros. -/
def new : OamScratch where
  objs _ := ⟨0, 0, 0, 0, 0, 0, 0, 0, 0, 0, 0, 0, 0, 0, false, false, false, false, false, false⟩
  counts _ := 0
  lists _ _ := 0
  baseLine := 0

/-- An object on the list of a line. -/
def pushSlot (slot : ℕ) (s : OamScratch) (li : ℕ) : Option OamScratch :=
  if li < HALF_LINES ∧ s.counts li < 128 then
    some { s with
      lists := Function.update s.lists li (Function.update (s.lists li) (s.counts li) slot)
      counts := Function.update s.counts li (s.counts li + 1) }
  else none

/-- An entry of the oam, with the number of objects that are decoded so far. -/
def decodeStep (oam : ℕ → UInt8) (start stop : ℕ) (state : OamScratch × ℕ) (obj : ℕ) :
    Option (OamScratch × ℕ) :=
  match decodeEntry oam obj start stop with
  | none => some state
  | some (o, y0, y1) =>
      if state.2 < 128 then
        ((List.range (y1 - y0).toNat).foldlM
          (fun s (i : ℕ) => pushSlot state.2 s (y0 + (i : ℤ) - start).toNat)
          { state.1 with objs := Function.update state.1.objs state.2 o }).map
            fun s => (s, state.2 + 1)
      else none

/-- **`OamScratch::decode`**, over what the scratch held. -/
def decode (oam : ℕ → UInt8) (start stop : ℕ) (s : OamScratch) : Option OamScratch :=
  let lineCount := stop - start
  if lineCount ≤ HALF_LINES then
    ((List.range 128).foldlM (decodeStep oam start stop)
      ({ s with
        baseLine := start % 0x10000
        counts := fun li => if li < lineCount then 0 else s.counts li }, 0)).map Prod.fst
  else none

end OamScratch

/-! ## Drawing -/

/-- The objects' line while it is drawn. -/
structure ObjDraw where
  obj : ObjLine
  window : PixelLine Bool
  anySemi : Bool

section Plot

variable (ctx : LineContext) (o : DecodedObj)

/-- `plot!`: a texel against what is on the line.  Of two objects of one priority the earlier one
stays. -/
def plot (sx index : ℕ) (st : ObjDraw) : Option ObjDraw :=
  if index ≠ 0 then
    if h : sx < DISPLAY_WIDTH then
      let x : Fin DISPLAY_WIDTH := ⟨sx, h⟩
      if o.window then some { st with window := Function.update st.window x true }
      else if opaquePixel (st.obj.color x) = false ∨ o.prio.toNat < (st.obj.prio x).toNat then
        (readPal16 ctx.pal (if o.is8bpp then 256 + index else 256 + o.palBank * 16 + index)).map
          fun color =>
            { st with
              obj :=
                { color := Function.update st.obj.color x (color ||| 0x8000)
                  prio := Function.update st.obj.prio x o.prio
                  semi := Function.update st.obj.semi x (if o.semi then 1 else 0) }
              anySemi := st.anySemi || o.semi }
      else some st
    else none
  else some st

/-- The distance of two rows of tiles. -/
def rowStride : ℕ := if ctx.dispCnt.objMapping1d then o.stride1d else 32

/-- The distance of two tiles of a row. -/
def tileStep : ℕ := if o.is8bpp then 2 else 1

/-- A pixel of an affine object, `localX` from the left of its bounds. -/
def affineObjPixel (localY : ℤ) (st : ObjDraw) (localX : ℕ) : Option ObjDraw :=
  let cx := localX - (o.boundW : ℤ) / 2
  let cy := localY - (o.boundH : ℤ) / 2
  let tx := (o.pa * cx + o.pb * cy) >>> (8 : ℕ) + (o.w : ℤ) / 2
  let ty := (o.pc * cx + o.pd * cy) >>> (8 : ℕ) + (o.h : ℤ) / 2
  if 0 ≤ tx ∧ tx < o.w ∧ 0 ≤ ty ∧ ty < o.h then
    let tx := tx.toNat
    let ty := ty.toNat
    let tile := o.baseTile + ty / 8 * rowStride ctx o + tx / 8 * tileStep o
    let sx := (o.ox + localX).toNat
    if o.is8bpp then
      (readVram8 ctx.vram
        (vramOffset (0x10000 + (tile &&& 0x3FF) * 32 + (ty &&& 7) * 8 + (tx &&& 7)))).bind
          fun index => plot ctx o sx index.toNat st
    else
      (readVram8 ctx.vram
        (vramOffset (0x10000 + (tile &&& 0x3FF) * 32 + (ty &&& 7) * 4 + (tx &&& 7) / 2))).bind
          fun byte => plot ctx o sx ((byte.toNat >>> ((tx &&& 1) * 4)) &&& 0xF) st
  else some st

/-- A run of a row of a tile, from its texel `tx0` on. -/
def objRun (texel : ℕ → ℕ) (tx0 localX run : ℕ) (st : ObjDraw) : Option ObjDraw :=
  (List.range run).foldlM
    (fun st (i : ℕ) =>
      let tx := if o.hFlip then tx0 - i else tx0 + i
      plot ctx o (o.ox + (localX + i : ℕ)).toNat (texel (tx &&& 7)) st) st

/-- A run of a tile on row `ty` of the object: one load for the row of the tile. -/
def regularRow (ty tx0 localX run : ℕ) (st : ObjDraw) : Option ObjDraw :=
  let rowTile := o.baseTile + ty / 8 * rowStride ctx o
  let tile := rowTile + tx0 / 8 * tileStep o
  if o.is8bpp then
    (readRow 8 ctx.vram
      (vramOffset (0x10000 + (tile &&& 0x3FF) * 32 + (ty &&& 7) * 8))).bind fun row64 =>
        if row64 ≠ 0 then
          objRun ctx o (fun tx => ((row64 >>> (tx * 8)).setWidth 8).toNat) tx0 localX run st
        else some st
  else
    (readRow 4 ctx.vram
      (vramOffset (0x10000 + (tile &&& 0x3FF) * 32 + (ty &&& 7) * 4))).bind fun row32 =>
        if row32 ≠ 0 then
          objRun ctx o (fun tx => ((row32 >>> (tx * 4)) &&& 0xF).toNat) tx0 localX run st
        else some st

/-- The loop over the tiles of a regular object, from a pixel on. -/
def regularLoop (ty xEnd localX : ℕ) (st : ObjDraw) : Option ObjDraw :=
  if h : localX < xEnd then
    let tx0 := if o.hFlip then o.w - 1 - localX else localX
    let inTile := if o.hFlip then (tx0 &&& 7) + 1 else 8 - (tx0 &&& 7)
    let run := min inTile (xEnd - localX)
    have : xEnd - (localX + run) < xEnd - localX := by
      have hle : tx0 &&& 7 ≤ 7 := Nat.and_le_right
      have hpos : 0 < inTile := by
        show 0 < if o.hFlip then (tx0 &&& 7) + 1 else 8 - (tx0 &&& 7)
        split <;> omega
      omega
    (regularRow ctx o ty tx0 localX run st).bind fun st => regularLoop ty xEnd (localX + run) st
  else some st
termination_by xEnd - localX

/-- One object of the line. -/
def drawObj (st : ObjDraw) : Option ObjDraw :=
  -- In bitmap modes the low characters are the bitmap's.
  if 3 ≤ ctx.dispCnt.bgMode.toNat ∧ o.baseTile < 512 then some st
  else
    let localY := ctx.line - o.oy
    let xStart := (max (-o.ox) 0).toNat
    if o.affine then
      let xEnd := (min (o.boundW : ℤ) (DISPLAY_WIDTH - o.ox)).toNat
      (List.range' xStart (xEnd - xStart)).foldlM (affineObjPixel ctx o localY) st
    else
      let ty := (if o.vFlip then o.h - 1 - localY else localY).toNat
      let xEnd := (min (o.w : ℤ) (DISPLAY_WIDTH - o.ox)).toNat
      regularLoop ctx o ty xEnd xStart st

end Plot

/-- **`draw_objects`.** -/
def drawObjects (ctx : LineContext) (oam : OamScratch) (st : ObjDraw) : Option ObjDraw :=
  let li := ctx.line - oam.baseLine
  if oam.baseLine ≤ ctx.line ∧ li < HALF_LINES ∧ oam.counts li ≤ 128 then
    (List.range (oam.counts li)).foldlM
      (fun st j =>
        if oam.lists li j < 128 then drawObj ctx (oam.objs (oam.lists li j)) st else none) st
  else none

/-! ## The plain scan -/

/-- A texel at a pixel of the line.  Of two objects of one priority the earlier one stays. -/
def plotPixel (pal : ℕ → UInt8) (o : DecodedObj) (x index : ℕ) (st : ObjDraw) : ObjDraw :=
  if h : x < DISPLAY_WIDTH then
    let x : Fin DISPLAY_WIDTH := ⟨x, h⟩
    if index = 0 then st
    else if o.window then { st with window := Function.update st.window x true }
    else if opaquePixel (st.obj.color x) = false ∨ o.prio.toNat < (st.obj.prio x).toNat then
      let color := readWord 2 pal (2 * (256 + (if o.is8bpp then 0 else o.palBank * 16) + index))
      { st with
        obj :=
          { color := Function.update st.obj.color x (color ||| 0x8000)
            prio := Function.update st.obj.prio x o.prio
            semi := Function.update st.obj.semi x (if o.semi then 1 else 0) }
        anySemi := st.anySemi || o.semi }
    else st
  else st

section Plain

variable (ctx : LineContext) (o : DecodedObj)

/-- The index at a place of the object's texture. -/
def textureIndex (tx ty : ℕ) : ℕ :=
  let stride := if ctx.dispCnt.objMapping1d then o.w / 8 * (if o.is8bpp then 2 else 1) else 32
  let tile := (o.baseTile + ty / 8 * stride + tx / 8 * (if o.is8bpp then 2 else 1)) % 0x400
  if o.is8bpp then
    (ctx.vram (vramOffset (0x10000 + tile * 32 + ty % 8 * 8 + tx % 8))).toNat
  else
    (ctx.vram (vramOffset (0x10000 + tile * 32 + ty % 8 * 4 + tx % 8 / 2))).toNat
      / 16 ^ (tx % 2) % 16

/-- **A texel of an object**, at a place in its bounds: flipped, or transformed around the
centre. -/
def objTexel (lx ly : ℕ) : ℕ :=
  if o.affine then
    let cx := lx - (o.boundW : ℤ) / 2
    let cy := ly - (o.boundH : ℤ) / 2
    let tx := (o.pa * cx + o.pb * cy) / 256 + (o.w : ℤ) / 2
    let ty := (o.pc * cx + o.pd * cy) / 256 + (o.h : ℤ) / 2
    if 0 ≤ tx ∧ tx < o.w ∧ 0 ≤ ty ∧ ty < o.h then textureIndex ctx o tx.toNat ty.toNat else 0
  else
    textureIndex ctx o (if o.hFlip then o.w - 1 - lx else lx) (if o.vFlip then o.h - 1 - ly else ly)

/-- An object on a line that it covers, pixel by pixel; `left` is where its bounds begin, on a row
of 512 places that wraps around. -/
def plainObj (left ly : ℕ) (st : ObjDraw) : ObjDraw :=
  (List.range DISPLAY_WIDTH).foldl
    (fun st x =>
      let lx := (x + 512 - left) % 512
      if lx < o.boundW then plotPixel ctx.pal o x (objTexel ctx o lx ly) st else st) st

end Plain

/-- An entry of the oam, if it covers the line. -/
def plainEntry (ctx : LineContext) (oam : ℕ → UInt8) (st : ObjDraw) (obj : ℕ) : ObjDraw :=
  match unpackEntry oam obj with
  | none => st
  | some o =>
      let ly := ctx.line - o.oy
      if 3 ≤ ctx.dispCnt.bgMode.toNat ∧ o.baseTile < 512 then st
      else if 0 ≤ ly ∧ ly < o.boundH then
        plainObj ctx o (objAttr oam obj 1 &&& 0x1FF).toNat ly.toNat st
      else st

/-- **The plain scan**: all the entries in order. -/
def plainScan (ctx : LineContext) (oam : ℕ → UInt8) (st : ObjDraw) : ObjDraw :=
  (List.range 128).foldl (plainEntry ctx oam) st

/-! ## What the lists hold -/

theorem foldlM_congr {α β : Type} {f g : β → α → Option β} {l : List α}
    (h : ∀ a ∈ l, ∀ b, f b a = g b a) : ∀ b, l.foldlM f b = l.foldlM g b := by
  induction l with
  | nil => exact fun b => rfl
  | cons a l ih =>
      intro b
      rw [List.foldlM_cons, List.foldlM_cons, h a List.mem_cons_self]
      congr 1
      funext b'
      exact ih (fun a' ha' => h a' (List.mem_cons_of_mem a ha')) b'

/-- A monadic loop whose steps all have a result. -/
theorem foldlM_eq_foldl {α β : Type} {f : β → α → Option β} {g : β → α → β} {l : List α}
    (h : ∀ a ∈ l, ∀ b, f b a = some (g b a)) (b : β) : l.foldlM f b = some (l.foldl g b) :=
  (foldlM_congr h b).trans List.foldlM_pure

/-- An entry that `decode` takes has a line of the range and a pixel that is not off the left. -/
theorem decodeEntry_some {oam : ℕ → UInt8} {obj start stop : ℕ} {o : DecodedObj} {y0 y1 : ℤ}
    (h : decodeEntry oam obj start stop = some (o, y0, y1)) :
    unpackEntry oam obj = some o ∧ y0 = max o.oy start ∧ y1 = min (o.oy + o.boundH) stop ∧
      y0 < y1 := by
  rw [decodeEntry] at h
  split at h
  · exact absurd h (Option.some_ne_none _).symm
  · next o' hunpack =>
    simp only [] at h
    split at h
    · exact absurd h (Option.some_ne_none _).symm
    · next hlines =>
      split at h
      · exact absurd h (Option.some_ne_none _).symm
      · obtain ⟨hobj, hrange⟩ := Prod.mk.inj (Option.some.inj h)
        obtain ⟨hy0, hy1⟩ := Prod.mk.inj hrange
        subst hobj
        exact ⟨hunpack, hy0.symm, hy1.symm, hy0 ▸ hy1 ▸ not_le.1 hlines⟩

/-- An entry that `decode` passes over is disabled, has no line of the range, or is off the left. -/
theorem decodeEntry_none {oam : ℕ → UInt8} {obj start stop : ℕ}
    (h : decodeEntry oam obj start stop = none) {o : DecodedObj}
    (ho : unpackEntry oam obj = some o) :
    min (o.oy + o.boundH) (stop : ℤ) ≤ max o.oy start ∨ o.ox + o.boundW ≤ 0 := by
  rw [decodeEntry, ho] at h
  simp only [] at h
  split at h
  · next hlines => exact Or.inl hlines
  · split at h
    · next hleft => exact Or.inr hleft
    · exact absurd h (Option.some_ne_none _)

namespace OamScratch

/-- An object on the lists of the lines from `a` on. -/
theorem foldlM_pushSlot (slot a : ℕ) (s : OamScratch) (m : ℕ) (ha : a + m ≤ HALF_LINES)
    (hcounts : ∀ li, a ≤ li → li < a + m → s.counts li < 128) :
    (List.range m).foldlM (fun s i => pushSlot slot s (a + i)) s = some { s with
      lists := fun li => if a ≤ li ∧ li < a + m then
        Function.update (s.lists li) (s.counts li) slot else s.lists li
      counts := fun li => if a ≤ li ∧ li < a + m then s.counts li + 1 else s.counts li } := by
  induction m with
  | zero =>
      have hempty : ∀ li, ¬ (a ≤ li ∧ li < a + 0) := fun li => by omega
      simp only [hempty, if_false]
      rfl
  | succ m ih =>
      rw [List.range_succ, List.foldlM_append,
        ih (by omega) fun li hlo hhi => hcounts li hlo (by omega)]
      have hnot : ¬ (a ≤ a + m ∧ a + m < a + m) := by omega
      have hlt := hcounts (a + m) (by omega) (by omega)
      simp only [Option.bind_eq_bind, Option.bind_some, List.foldlM_cons, List.foldlM_nil, pushSlot,
        if_neg hnot]
      rw [if_pos ⟨by omega, hlt⟩]
      simp only [Option.bind_some, Option.pure_def, Option.some.injEq, mk.injEq, true_and, and_true]
      have hgrow : ∀ li, li ≠ a + m → (a ≤ li ∧ li < a + m ↔ a ≤ li ∧ li < a + (m + 1)) := by
        intro li hli
        omega
      constructor <;> funext li <;> by_cases hli : li = a + m
      · rw [hli, Function.update_self, if_pos (by omega)]
      · rw [Function.update_of_ne hli, if_congr (hgrow li hli) rfl rfl]
      · rw [hli, Function.update_self, if_pos (by omega)]
      · rw [Function.update_of_ne hli, if_congr (hgrow li hli) rfl rfl]

section Decode

variable (oam : ℕ → UInt8) (start stop : ℕ)

/-- An entry on a line, if `decode` takes it and it covers the line. -/
def entryOn (line obj : ℕ) : Option DecodedObj :=
  match decodeEntry oam obj start stop with
  | none => none
  | some (o, y0, y1) => if y0 ≤ line ∧ (line : ℤ) < y1 then some o else none

/-- After the first `k` entries each line has those that cover it on its list, in order. -/
structure ListsUpTo (k : ℕ) (state : OamScratch × ℕ) : Prop where
  decoded_le : state.2 ≤ k
  counts_le : ∀ li < stop - start, state.1.counts li ≤ state.2
  slots_lt : ∀ li < stop - start, ∀ j < state.1.counts li, state.1.lists li j < state.2
  lists : ∀ li < stop - start, (List.range (state.1.counts li)).map
    (fun j => state.1.objs (state.1.lists li j))
      = (List.range k).filterMap (entryOn oam start stop (start + li))
  baseLine : state.1.baseLine = start % 0x10000

variable {oam start stop}

/-- **An entry** goes on the lists of the lines it covers. -/
theorem ListsUpTo.step (hlines : stop - start ≤ HALF_LINES) {k : ℕ} (hk : k < 128)
    {state : OamScratch × ℕ} (h : ListsUpTo oam start stop k state) :
    ∃ state', decodeStep oam start stop state k = some state' ∧
      ListsUpTo oam start stop (k + 1) state' := by
  obtain ⟨hdecoded, hcounts, hslots, hlists, hbase⟩ := h
  rcases hentry : decodeEntry oam k start stop with _ | ⟨o, y0, y1⟩
  · have hon : ∀ line, entryOn oam start stop line k = none := fun line => by
      rw [entryOn, hentry]
    have hstep : decodeStep oam start stop state k = some state := by
      rw [decodeStep, hentry]
    refine ⟨state, hstep, Nat.le_succ_of_le hdecoded, hcounts, hslots, fun li hli => ?_, hbase⟩
    rw [List.range_succ, List.filterMap_append, hlists li hli, List.filterMap_cons_none (hon _),
      List.filterMap_nil, List.append_nil]
  · obtain ⟨-, hy0, hy1, hlt⟩ := decodeEntry_some hentry
    have hrange : ((y0 - start).toNat + (y1 - y0).toNat : ℕ) ≤ stop - start := by omega
    have hline : ∀ i : ℕ, (y0 + (i : ℤ) - start).toNat = (y0 - start).toNat + i := fun i => by
      omega
    have hcovers : ∀ li, (y0 - start).toNat ≤ li ∧ li < (y0 - start).toNat + (y1 - y0).toNat ↔
        y0 ≤ (start + li : ℕ) ∧ ((start + li : ℕ) : ℤ) < y1 := fun li => by omega
    have hpush := foldlM_pushSlot state.2 (y0 - start).toNat
      { state.1 with objs := Function.update state.1.objs state.2 o } (y1 - y0).toNat
      (hrange.trans hlines)
      fun li _ hhi => (hcounts li (by omega)).trans_lt (hdecoded.trans_lt hk)
    have hfit : state.2 < 128 := hdecoded.trans_lt hk
    have hstep : decodeStep oam start stop state k = some ({ state.1 with
        objs := Function.update state.1.objs state.2 o
        lists := fun li => if (y0 - start).toNat ≤ li ∧ li < (y0 - start).toNat + (y1 - y0).toNat
          then Function.update (state.1.lists li) (state.1.counts li) state.2 else state.1.lists li
        counts := fun li => if (y0 - start).toNat ≤ li ∧
          li < (y0 - start).toNat + (y1 - y0).toNat then state.1.counts li + 1
          else state.1.counts li }, state.2 + 1) := by
      rw [decodeStep, hentry]
      simp only [if_pos hfit, hline]
      rw [hpush]
      rfl
    refine ⟨_, hstep, Nat.succ_le_succ hdecoded, ?_, ?_, ?_, hbase⟩
    · intro li hli
      have hle := hcounts li hli
      have hif : (if (y0 - start).toNat ≤ li ∧ li < (y0 - start).toNat + (y1 - y0).toNat
          then state.1.counts li + 1 else state.1.counts li) ≤ state.2 + 1 := by
        split <;> omega
      exact hif
    · intro li hli j hj
      have hle := hcounts li hli
      have hj : j < if (y0 - start).toNat ≤ li ∧ li < (y0 - start).toNat + (y1 - y0).toNat
        then state.1.counts li + 1 else state.1.counts li := hj
      show (if (y0 - start).toNat ≤ li ∧ li < (y0 - start).toNat + (y1 - y0).toNat
        then Function.update (state.1.lists li) (state.1.counts li) state.2
        else state.1.lists li) j < state.2 + 1
      by_cases hli' : (y0 - start).toNat ≤ li ∧ li < (y0 - start).toNat + (y1 - y0).toNat
      · rw [if_pos hli'] at hj ⊢
        by_cases hlast : j = state.1.counts li
        · rw [hlast, Function.update_self]
          exact Nat.lt_succ_self _
        · rw [Function.update_of_ne hlast]
          exact Nat.lt_succ_of_lt (hslots li hli j (by omega))
      · rw [if_neg hli'] at hj ⊢
        exact Nat.lt_succ_of_lt (hslots li hli j hj)
    · intro li hli
      have hold : ∀ j < state.1.counts li,
          Function.update state.1.objs state.2 o (state.1.lists li j)
            = state.1.objs (state.1.lists li j) := fun j hj =>
        Function.update_of_ne (hslots li hli j hj).ne _ _
      have hprev : (List.range (state.1.counts li)).map
          (fun j => Function.update state.1.objs state.2 o (state.1.lists li j))
            = (List.range k).filterMap (entryOn oam start stop (start + li)) := by
        rw [← hlists li hli]
        exact List.map_congr_left fun j hj => hold j (List.mem_range.1 hj)
      show (List.range (if (y0 - start).toNat ≤ li ∧ li < (y0 - start).toNat + (y1 - y0).toNat
          then state.1.counts li + 1 else state.1.counts li)).map
        (fun j => Function.update state.1.objs state.2 o
          ((if (y0 - start).toNat ≤ li ∧ li < (y0 - start).toNat + (y1 - y0).toNat
            then Function.update (state.1.lists li) (state.1.counts li) state.2
            else state.1.lists li) j)) = _
      rw [List.range_succ, List.filterMap_append, ← hprev]
      by_cases hli' : (y0 - start).toNat ≤ li ∧ li < (y0 - start).toNat + (y1 - y0).toNat
      · have hon : entryOn oam start stop (start + li) k = some o := by
          rw [entryOn, hentry]
          exact if_pos ((hcovers li).1 hli')
        simp only [if_pos hli']
        rw [List.range_succ, List.map_append, List.filterMap_cons_some hon, List.filterMap_nil]
        congr 1
        · refine List.map_congr_left fun j hj => ?_
          rw [Function.update_of_ne (List.mem_range.1 hj).ne]
        · rw [List.map_singleton, Function.update_self, Function.update_self]
      · have hon : entryOn oam start stop (start + li) k = none := by
          rw [entryOn, hentry]
          exact if_neg fun h => hli' ((hcovers li).2 h)
        simp only [if_neg hli']
        rw [List.filterMap_cons_none hon, List.filterMap_nil, List.append_nil]

/-- **The lists** hold the entries that cover their lines. -/
theorem decode_lists (oam : ℕ → UInt8) {start stop : ℕ} (hlines : stop - start ≤ HALF_LINES)
    (s : OamScratch) :
    ∃ s', s.decode oam start stop = some s' ∧ s'.baseLine = start % 0x10000 ∧
      ∀ li < stop - start, s'.counts li ≤ 128 ∧ (∀ j < s'.counts li, s'.lists li j < 128) ∧
        (List.range (s'.counts li)).map (fun j => s'.objs (s'.lists li j))
          = (List.range 128).filterMap (entryOn oam start stop (start + li)) := by
  have hrun : ∀ k ≤ 128, ∃ state, (List.range k).foldlM (decodeStep oam start stop)
      ({ s with
        baseLine := start % 0x10000
        counts := fun li => if li < stop - start then 0 else s.counts li }, 0) = some state ∧
      ListsUpTo oam start stop k state := by
    intro k hk
    induction k with
    | zero =>
        have hzero : ∀ li < stop - start, (if li < stop - start then 0 else s.counts li) = 0 :=
          fun li hli => if_pos hli
        refine ⟨_, rfl, le_rfl, fun li hli => (hzero li hli).le, fun li hli j hj => ?_,
          fun li hli => ?_, rfl⟩
        · have hj : j < if li < stop - start then 0 else s.counts li := hj
          rw [hzero li hli] at hj
          exact absurd hj (Nat.not_lt_zero j)
        · show (List.range (if li < stop - start then 0 else s.counts li)).map _ = _
          rw [hzero li hli]
          rfl
    | succ k ih =>
        obtain ⟨state, hfold, hinv⟩ := ih (Nat.le_of_succ_le hk)
        obtain ⟨state', hstep, hinv'⟩ := hinv.step hlines hk
        refine ⟨state', ?_, hinv'⟩
        rw [List.range_succ, List.foldlM_append, hfold]
        simp only [Option.bind_eq_bind, Option.bind_some, List.foldlM_cons, List.foldlM_nil, hstep,
          Option.pure_def]
  obtain ⟨⟨s', decoded⟩, hfold, hinv⟩ := hrun 128 le_rfl
  refine ⟨s', ?_, hinv.baseLine, fun li hli => ⟨?_, fun j hj => ?_, hinv.lists li hli⟩⟩
  · rw [decode]
    simp only [if_pos hlines, hfold, Option.map_some]
  · exact (hinv.counts_le li hli).trans hinv.decoded_le
  · exact (hinv.slots_lt li hli j hj).trans_le hinv.decoded_le

end Decode

end OamScratch

/-! ## What an unpacked entry is -/

/-- The sides of an object. -/
theorem OBJ_SIZES_side (shape size : ℕ) (hshape : shape < 3) (hsize : size < 4) :
    (((OBJ_SIZES.getD shape []).getD size (0, 0)).1 ≤ 64 ∧
      8 ∣ ((OBJ_SIZES.getD shape []).getD size (0, 0)).1) ∧
    (((OBJ_SIZES.getD shape []).getD size (0, 0)).2 ≤ 64 ∧
      8 ∣ ((OBJ_SIZES.getD shape []).getD size (0, 0)).2) := by
  revert size
  revert shape
  decide

/-- What holds of the objects that are drawn. -/
structure Unpacked (oam : ℕ → UInt8) (obj : ℕ) (o : DecodedObj) : Prop where
  ox : o.ox = if 240 ≤ (objAttr oam obj 1 &&& 0x1FF).toNat then
    ((objAttr oam obj 1 &&& 0x1FF).toNat : ℤ) - 512 else (objAttr oam obj 1 &&& 0x1FF).toNat
  boundW_le : o.boundW ≤ 128
  regular : o.affine = false → o.boundW = o.w ∧ o.boundH = o.h
  stride : o.stride1d = o.w / 8 * if o.is8bpp then 2 else 1
  palBank_lt : o.palBank < 16

theorem and_toNat_lt (w : BitVec 16) (k : ℕ) (mask : BitVec 16) (h : mask.toNat = 2 ^ k - 1) :
    (w &&& mask).toNat < 2 ^ k := by
  rw [BitVec.toNat_and, h]
  exact Nat.and_lt_two_pow _ (Nat.sub_lt (Nat.two_pow_pos k) one_pos)

theorem Unpacked.ox_lt {oam : ℕ → UInt8} {obj : ℕ} {o : DecodedObj} (ho : Unpacked oam obj o) :
    o.ox < DISPLAY_WIDTH := by
  have hleft : (objAttr oam obj 1 &&& 0x1FF).toNat < 512 := and_toNat_lt _ 9 0x1FF rfl
  have hox := ho.ox
  unfold DISPLAY_WIDTH
  split at hox <;> omega

/-- **An unpacked entry.** -/
theorem unpackEntry_some {oam : ℕ → UInt8} {obj : ℕ} {o : DecodedObj}
    (h : unpackEntry oam obj = some o) : Unpacked oam obj o := by
  rw [unpackEntry] at h
  simp only [] at h
  split at h
  · exact absurd h (Option.some_ne_none _).symm
  · next hdrawn =>
    have hshape : ((objAttr oam obj 0 >>> 14) &&& 3).toNat < 3 := by
      have hlt : ((objAttr oam obj 0 >>> 14) &&& 3).toNat < 4 := and_toNat_lt _ 2 3 rfl
      have hne : ((objAttr oam obj 0 >>> 14) &&& 3).toNat ≠ 3 := fun h3 =>
        hdrawn (Or.inr (Or.inr h3))
      omega
    have hsize : ((objAttr oam obj 1 >>> 14) &&& 3).toNat < 4 := and_toNat_lt _ 2 3 rfl
    obtain ⟨⟨hw, -⟩, -⟩ := OBJ_SIZES_side _ _ hshape hsize
    obtain rfl := Option.some.inj h
    refine ⟨?_, ?_, fun haffine => ?_, rfl, and_toNat_lt _ 4 0xF rfl⟩
    · exact if_congr (by unfold DISPLAY_WIDTH; omega) rfl rfl
    · simp only []
      split <;> omega
    · simp only [] at haffine
      simp only [haffine, Bool.false_and, Bool.false_eq_true, if_false, and_self]

/-! ## An object drawn -/

theorem foldl_same {α β : Type} {g : β → α → β} {l : List α} (h : ∀ a ∈ l, ∀ b, g b a = b) (b : β) :
    l.foldl g b = b := by
  induction l with
  | nil => rfl
  | cons a l ih =>
      rw [List.foldl_cons, h a List.mem_cons_self]
      exact ih fun a' ha' => h a' (List.mem_cons_of_mem a ha')

/-- A loop over a range that passes over all but a part of it. -/
theorem foldl_range_part {β : Type} (g : β → ℕ → β) {lo m n : ℕ} (h : lo + m ≤ n) (b : β) :
    (List.range n).foldl (fun b x => if lo ≤ x ∧ x < lo + m then g b x else b) b
      = (List.range m).foldl (fun b i => g b (lo + i)) b := by
  obtain ⟨k, rfl⟩ := Nat.exists_eq_add_of_le h
  have hbefore : ∀ x ∈ List.range lo, ∀ b : β,
      (if lo ≤ x ∧ x < lo + m then g b x else b) = b := by
    intro x hx b
    have hlt := List.mem_range.1 hx
    exact if_neg (by omega)
  have hafter : ∀ i ∈ List.range k, ∀ b : β,
      (if lo ≤ lo + m + i ∧ lo + m + i < lo + m then g b (lo + m + i) else b) = b :=
    fun i _ b => if_neg (by omega)
  rw [List.range_add, List.range_add, List.foldl_append, List.foldl_append, List.foldl_map,
    List.foldl_map, foldl_same hbefore, foldl_same hafter]
  refine List.foldl_ext _ _ b fun b i hi => if_pos ?_
  have hlt := List.mem_range.1 hi
  omega

section Draw

variable {ctx : LineContext} {o : DecodedObj}

theorem plotPixel_zero (pal : ℕ → UInt8) (o : DecodedObj) (x : ℕ) (st : ObjDraw) :
    plotPixel pal o x 0 st = st := by
  rw [plotPixel]
  split <;> rfl

/-- The code's texel is in bounds. -/
theorem plot_eq (hbank : o.palBank < 16) {sx index : ℕ} (hsx : sx < DISPLAY_WIDTH)
    (hindex : index < if o.is8bpp then 256 else 16) (st : ObjDraw) :
    plot ctx o sx index st = some (plotPixel ctx.pal o sx index st) := by
  rw [plot, plotPixel, dif_pos hsx, dif_pos hsx]
  by_cases hzero : index = 0
  · rw [if_neg (not_not.2 hzero)]
    simp only [if_pos hzero]
  · rw [if_pos hzero]
    simp only [if_neg hzero]
    have hread : readPal16 ctx.pal
        (if o.is8bpp then 256 + index else 256 + o.palBank * 16 + index)
          = some (readWord 2 ctx.pal
            (2 * (256 + (if o.is8bpp then 0 else o.palBank * 16) + index))) := by
      rw [readPal16]
      unfold PAL_BYTES
      split at hindex
      · next h8 => rw [if_pos h8, if_pos h8, if_pos (by omega), Nat.add_zero]
      · next h8 => rw [if_neg h8, if_neg h8, if_pos (by omega)]
    split
    · rfl
    · split
      · rw [hread]
        rfl
      · rfl

/-- The places an object covers on a line, with what is drawn there. -/
def coverRun (ctx : LineContext) (o : DecodedObj) (ly localX run : ℕ) (st : ObjDraw) : ObjDraw :=
  (List.range run).foldl
    (fun st i =>
      plotPixel ctx.pal o (o.ox + (localX + i : ℕ)).toNat (objTexel ctx o (localX + i) ly) st) st

theorem coverRun_add (ly localX m n : ℕ) (st : ObjDraw) :
    coverRun ctx o ly (localX + m) n (coverRun ctx o ly localX m st)
      = coverRun ctx o ly localX (m + n) st := by
  simp only [coverRun, List.range_add, List.foldl_append, List.foldl_map, Nat.add_assoc]

/-- **The plain object** is drawn where its bounds are on the screen. -/
theorem plainObj_eq_coverRun {oam : ℕ → UInt8} {obj : ℕ} (ho : Unpacked oam obj o) (ly : ℕ)
    (st : ObjDraw) :
    plainObj ctx o (objAttr oam obj 1 &&& 0x1FF).toNat ly st
      = coverRun ctx o ly (max (-o.ox) 0).toNat
          ((min (o.boundW : ℤ) (DISPLAY_WIDTH - o.ox)).toNat - (max (-o.ox) 0).toNat) st := by
  have hleft : (objAttr oam obj 1 &&& 0x1FF).toNat < 512 := and_toNat_lt _ 9 0x1FF rfl
  have hox := ho.ox
  have hbound := ho.boundW_le
  generalize (objAttr oam obj 1 &&& 0x1FF).toNat = left at hleft hox ⊢
  set xStart := (max (-o.ox) 0).toNat with hstart
  set xEnd := (min (o.boundW : ℤ) (DISPLAY_WIDTH - o.ox)).toNat with hend
  have hplace : ∀ x < DISPLAY_WIDTH, (x + 512 - left) % 512 < o.boundW ↔
      (o.ox + xStart).toNat ≤ x ∧ x < (o.ox + xStart).toNat + (xEnd - xStart) := by
    intro x hx
    unfold DISPLAY_WIDTH at hx hend
    split at hox <;> omega
  have hfit : (o.ox + xStart).toNat + (xEnd - xStart) ≤ DISPLAY_WIDTH := by
    unfold DISPLAY_WIDTH at hend ⊢
    split at hox <;> omega
  rw [plainObj]
  refine (List.foldl_ext _ (fun st x => if (o.ox + xStart).toNat ≤ x ∧
    x < (o.ox + xStart).toNat + (xEnd - xStart) then
      plotPixel ctx.pal o x (objTexel ctx o ((x + 512 - left) % 512) ly) st else st) st
    fun st x hx => if_congr (hplace x (List.mem_range.1 hx)) rfl rfl).trans
    ((foldl_range_part _ hfit st).trans (List.foldl_ext _ _ st fun st i hi => ?_))
  have hlt := List.mem_range.1 hi
  have hx : (o.ox + xStart).toNat + i = (o.ox + (xStart + i : ℕ)).toNat := by
    omega
  have hlx : ((o.ox + xStart).toNat + i + 512 - left) % 512 = xStart + i := by
    unfold DISPLAY_WIDTH at hend
    split at hox <;> omega
  rw [hlx, hx]

/-- A run of texels of a row that is passed over when it is empty. -/
theorem objRun_or_skip (hbank : o.palBank < 16) {w : ℕ} {row : BitVec w} {texel : ℕ → ℕ}
    {tx0 localX run ly : ℕ} (hindex : ∀ tx, texel tx < if o.is8bpp then 256 else 16)
    (hx : ∀ i < run, (o.ox + (localX + i : ℕ)).toNat < DISPLAY_WIDTH)
    (hempty : row = 0 → ∀ tx, texel tx = 0)
    (htexel : ∀ i < run, objTexel ctx o (localX + i) ly
      = texel ((if o.hFlip then tx0 - i else tx0 + i) &&& 7)) (st : ObjDraw) :
    (if row ≠ 0 then objRun ctx o texel tx0 localX run st else some st)
      = some (coverRun ctx o ly localX run st) := by
  by_cases hrow : row = 0
  · rw [if_neg (not_not.2 hrow), coverRun, foldl_same fun i hi st => ?_]
    rw [htexel i (List.mem_range.1 hi), hempty hrow, plotPixel_zero]
  · rw [if_pos hrow]
    refine foldlM_eq_foldl (fun i hi st => ?_) st
    have hlt := List.mem_range.1 hi
    rw [htexel i hlt]
    exact plot_eq hbank (hx i hlt) (hindex _) st

/-- A texel of an object of 256 colours, out of the row of its tile. -/
theorem textureIndex_row8 (hstride : o.stride1d = o.w / 8 * if o.is8bpp then 2 else 1)
    (h8 : o.is8bpp = true) {tx tx0 ty : ℕ} (htile : tx / 8 = tx0 / 8) :
    textureIndex ctx o tx ty = ((readWord 8 ctx.vram (vramOffset (0x10000 +
      ((o.baseTile + ty / 8 * rowStride ctx o + tx0 / 8 * tileStep o) &&& 0x3FF) * 32 +
        (ty &&& 7) * 8)) >>> ((tx &&& 7) * 8)).setWidth 8).toNat := by
  have hand : ∀ n, n &&& 7 = n % 8 := fun n => Nat.and_two_pow_sub_one_eq_mod n 3
  have hwrap : ∀ n, n &&& 0x3FF = n % 0x400 := fun n => Nat.and_two_pow_sub_one_eq_mod n 10
  have htx : tx % 8 < 8 := Nat.mod_lt _ (by decide)
  rw [hand, hand, hwrap, row_byte ctx.vram _ htx, ← vramOffset_add (by omega), textureIndex,
    rowStride, tileStep, hstride, htile]
  simp only [if_pos h8]

/-- A texel of an object of 16 colours, out of the row of its tile. -/
theorem textureIndex_row4 (hstride : o.stride1d = o.w / 8 * if o.is8bpp then 2 else 1)
    (h8 : ¬ o.is8bpp = true) {tx tx0 ty : ℕ} (htile : tx / 8 = tx0 / 8) :
    textureIndex ctx o tx ty = ((readWord 4 ctx.vram (vramOffset (0x10000 +
      ((o.baseTile + ty / 8 * rowStride ctx o + tx0 / 8 * tileStep o) &&& 0x3FF) * 32 +
        (ty &&& 7) * 4)) >>> ((tx &&& 7) * 4)) &&& 0xF).toNat := by
  have hand : ∀ n, n &&& 7 = n % 8 := fun n => Nat.and_two_pow_sub_one_eq_mod n 3
  have hwrap : ∀ n, n &&& 0x3FF = n % 0x400 := fun n => Nat.and_two_pow_sub_one_eq_mod n 10
  have hnibble : ∀ w : BitVec (8 * 4), (w &&& 0xF).toNat = w.toNat % 16 := fun w => by
    rw [BitVec.toNat_and]
    exact Nat.and_two_pow_sub_one_eq_mod _ 4
  have htx : tx % 8 < 2 * 4 := Nat.mod_lt _ (by decide)
  have hodd : tx % 8 % 2 = tx % 2 := by omega
  rw [hand, hand, hwrap, hnibble, row_nibble ctx.vram _ htx, ← vramOffset_add (by omega), hodd,
    textureIndex, rowStride, tileStep, hstride, htile]
  simp only [if_neg h8]

/-- **A run of a tile** draws its pixels. -/
theorem regularRow_eq {oam : ℕ → UInt8} {obj : ℕ} (ho : Unpacked oam obj o)
    {ty tx0 localX run ly : ℕ}
    (hx : ∀ i < run, (o.ox + (localX + i : ℕ)).toNat < DISPLAY_WIDTH)
    (htile : ∀ i < run, (if o.hFlip then tx0 - i else tx0 + i) / 8 = tx0 / 8)
    (htexel : ∀ i < run, objTexel ctx o (localX + i) ly
      = textureIndex ctx o (if o.hFlip then tx0 - i else tx0 + i) ty) (st : ObjDraw) :
    regularRow ctx o ty tx0 localX run st = some (coverRun ctx o ly localX run st) := by
  have hand : ty &&& 7 = ty % 8 := Nat.and_two_pow_sub_one_eq_mod ty 3
  rw [regularRow]
  split
  · next h8 =>
    rw [readRow_vramOffset ctx.vram (by omega), Option.bind_some]
    refine objRun_or_skip ho.palBank_lt (fun tx => ?_) hx (fun hzero tx => ?_) (fun i hi => ?_) st
    · rw [if_pos h8]
      exact BitVec.isLt _
    · rw [hzero]
      simp
    · rw [htexel i hi, textureIndex_row8 ho.stride h8 (htile i hi)]
  · next h8 =>
    rw [readRow_vramOffset ctx.vram (by omega), Option.bind_some]
    refine objRun_or_skip ho.palBank_lt (fun tx => ?_) hx (fun hzero tx => ?_) (fun i hi => ?_) st
    · rw [if_neg h8, BitVec.toNat_and]
      exact Nat.and_lt_two_pow _ (show (0xF : BitVec 32).toNat < 2 ^ 4 by decide)
    · rw [hzero]
      simp
    · rw [htexel i hi, textureIndex_row4 ho.stride h8 (htile i hi)]

/-- **The loop over the tiles** draws the object's pixels from where it is. -/
theorem regularLoop_eq {oam : ℕ → UInt8} {obj : ℕ} (ho : Unpacked oam obj o)
    (haffine : o.affine = false) {xEnd : ℕ} (hw : xEnd ≤ o.w)
    (hscreen : o.ox + xEnd ≤ DISPLAY_WIDTH) (ly localX : ℕ) (hleft : 0 ≤ o.ox + localX)
    (st : ObjDraw) :
    regularLoop ctx o (if o.vFlip then o.h - 1 - ly else ly) xEnd localX st
      = some (coverRun ctx o ly localX (xEnd - localX) st) := by
  induction hn : xEnd - localX using Nat.strong_induction_on generalizing localX st with
  | _ n ih =>
      rw [regularLoop]
      split
      · next hlt =>
        have hand : ∀ n, n &&& 7 = n % 8 := fun n => Nat.and_two_pow_sub_one_eq_mod n 3
        simp only [hand]
        set tx0 := if o.hFlip then o.w - 1 - localX else localX with htx0
        set run := min (if o.hFlip then tx0 % 8 + 1 else 8 - tx0 % 8) (xEnd - localX) with hrun
        have hpos : 0 < run := by
          split at hrun <;> omega
        have htx : ∀ i < run, (if o.hFlip then o.w - 1 - (localX + i) else localX + i)
            = if o.hFlip then tx0 - i else tx0 + i := by
          intro i hi
          by_cases hflip : o.hFlip = true
          · rw [if_pos hflip] at htx0 ⊢
            rw [if_pos hflip]
            omega
          · rw [if_neg hflip] at htx0 ⊢
            rw [if_neg hflip]
            omega
        have htile : ∀ i < run, (if o.hFlip then tx0 - i else tx0 + i) / 8 = tx0 / 8 := by
          intro i hi
          by_cases hflip : o.hFlip = true
          · rw [if_pos hflip] at hrun ⊢
            omega
          · rw [if_neg hflip] at hrun ⊢
            omega
        rw [regularRow_eq ho (fun i hi => by unfold DISPLAY_WIDTH at hscreen ⊢; omega) htile
          fun i hi => ?_, Option.bind_some, ih _ (by omega) _ (by omega) _ rfl, coverRun_add]
        · congr 2
          omega
        · rw [objTexel, haffine, htx i hi]
          rfl
      · next hlt =>
        have hzero : n = 0 := by omega
        rw [hzero]
        rfl

/-- A pixel of an affine object. -/
theorem affineObjPixel_eq {oam : ℕ → UInt8} {obj : ℕ} (ho : Unpacked oam obj o)
    (haffine : o.affine = true) {localX : ℕ} (hx : (o.ox + localX).toNat < DISPLAY_WIDTH) (ly : ℕ)
    (st : ObjDraw) :
    affineObjPixel ctx o ly st localX
      = some (plotPixel ctx.pal o (o.ox + localX).toNat (objTexel ctx o localX ly) st) := by
  have hand : ∀ n, n &&& 7 = n % 8 := fun n => Nat.and_two_pow_sub_one_eq_mod n 3
  have hodd : ∀ n, n &&& 1 = n % 2 := fun n => Nat.and_two_pow_sub_one_eq_mod n 1
  have hnibble : ∀ n, n &&& 0xF = n % 16 := fun n => Nat.and_two_pow_sub_one_eq_mod n 4
  have hwrap : ∀ n, n &&& 0x3FF = n % 0x400 := fun n => Nat.and_two_pow_sub_one_eq_mod n 10
  have hshift : ∀ n : ℤ, n >>> (8 : ℕ) = n / 256 := fun n => Int.shiftRight_eq_div_pow n 8
  rw [affineObjPixel, objTexel, if_pos haffine]
  simp only [hshift]
  split
  · rw [textureIndex]
    simp only [readVram8_vramOffset, Option.bind_some, hand, hwrap, rowStride, tileStep, ho.stride]
    split
    · next h8 =>
      refine plot_eq ho.palBank_lt hx ?_ st
      rw [if_pos h8]
      exact UInt8.toNat_lt _
    · next h8 =>
      have hpow : ∀ n : ℕ, 2 ^ (n % 2 * 4) = 16 ^ (n % 2) := fun n => by
        rw [Nat.mul_comm, pow_mul]
        rfl
      rw [hodd, hnibble, Nat.shiftRight_eq_div_pow, hpow]
      refine plot_eq ho.palBank_lt hx ?_ st
      rw [if_neg h8]
      exact Nat.mod_lt _ (by decide)
  · rw [plotPixel_zero]

/-- **An object of the line** is drawn as the plain object is. -/
theorem drawObj_eq {oam : ℕ → UInt8} {obj : ℕ} (ho : Unpacked oam obj o) (hlo : o.oy ≤ ctx.line)
    (st : ObjDraw) :
    drawObj ctx o st = some (if 3 ≤ ctx.dispCnt.bgMode.toNat ∧ o.baseTile < 512 then st
      else plainObj ctx o (objAttr oam obj 1 &&& 0x1FF).toNat (ctx.line - o.oy).toNat st) := by
  obtain ⟨ly, hly⟩ := Int.eq_ofNat_of_zero_le (sub_nonneg.2 hlo)
  rw [drawObj]
  split
  · rfl
  · rw [plainObj_eq_coverRun ho, hly, Int.toNat_natCast]
    cases haffine : o.affine with
    | true =>
        simp only [if_true, List.range'_eq_map_range, List.foldlM_map]
        refine foldlM_eq_foldl (fun i hi st => affineObjPixel_eq ho haffine ?_ ly st) st
        have hlt := List.mem_range.1 hi
        unfold DISPLAY_WIDTH at hlt ⊢
        omega
    | false =>
        have hbound := (ho.regular haffine).1
        have hty : (if o.vFlip then (o.h : ℤ) - 1 - ly else ly).toNat
            = if o.vFlip then o.h - 1 - ly else ly := by
          split <;> omega
        simp only [Bool.false_eq_true, if_false, hty, hbound]
        refine regularLoop_eq ho haffine ?_ ?_ ly _ ?_ st
        · omega
        · have hlt := ho.ox_lt
          unfold DISPLAY_WIDTH at hlt ⊢
          omega
        · omega

end Draw

/-! ## The sprite law -/

section Law

variable {ctx : LineContext} {oam : ℕ → UInt8} {start stop obj : ℕ}

/-- An entry on a line is drawn as the plain scan draws it. -/
theorem drawObj_entryOn {o : DecodedObj}
    (hon : OamScratch.entryOn oam start stop ctx.line obj = some o) (st : ObjDraw) :
    drawObj ctx o st = some (plainEntry ctx oam st obj) := by
  rw [OamScratch.entryOn] at hon
  split at hon
  · exact absurd hon (Option.some_ne_none _).symm
  · next o' y0 y1 hentry =>
    obtain ⟨hunpack, hy0, hy1, -⟩ := decodeEntry_some hentry
    split at hon
    · next hline =>
      obtain rfl := Option.some.inj hon
      rw [drawObj_eq (unpackEntry_some hunpack) (by omega), plainEntry, hunpack]
      simp only [if_pos (show 0 ≤ (ctx.line : ℤ) - o'.oy ∧ (ctx.line : ℤ) - o'.oy < o'.boundH by
        omega)]
    · exact absurd hon (Option.some_ne_none _).symm

/-- The plain scan draws nothing of an entry that is not on the line. -/
theorem plainEntry_of_entryOn_none (hlo : start ≤ ctx.line) (hhi : ctx.line < stop)
    (hon : OamScratch.entryOn oam start stop ctx.line obj = none) (st : ObjDraw) :
    plainEntry ctx oam st obj = st := by
  rw [plainEntry]
  split
  · rfl
  · next o hunpack =>
    have ho := unpackEntry_some hunpack
    simp only []
    split
    · rfl
    · split
      · next hcover =>
        rw [OamScratch.entryOn] at hon
        split at hon
        · next hentry =>
          rcases decodeEntry_none hentry hunpack with hempty | hleft
          · omega
          · -- An object off the left has no pixel on the screen.
            rw [plainObj_eq_coverRun ho, coverRun]
            have hzero : (min (o.boundW : ℤ) (DISPLAY_WIDTH - o.ox)).toNat - (max (-o.ox) 0).toNat
                = 0 := by omega
            rw [hzero]
            rfl
        · next o' y0 y1 hentry =>
          obtain ⟨hunpack', hy0, hy1, -⟩ := decodeEntry_some hentry
          obtain rfl := Option.some.inj (hunpack.symm.trans hunpack')
          split at hon
          · exact absurd hon (Option.some_ne_none _)
          · next hline => exact absurd ⟨by omega, by omega⟩ hline
      · rfl

end Law

/-- **The sprite law.**  The lists of a range of lines draw each line of it as the plain scan
does, within the bounds of vram, the palettes and the buffers. -/
theorem sprite_law (ctx : LineContext) (oam : ℕ → UInt8) {start stop : ℕ} (s : OamScratch)
    (hlines : stop - start ≤ HALF_LINES) (hstart : start < 0x10000) (hlo : start ≤ ctx.line)
    (hhi : ctx.line < stop) :
    ∃ s', s.decode oam start stop = some s' ∧
      ∀ st, drawObjects ctx s' st = some (plainScan ctx oam st) := by
  obtain ⟨s', hdecode, hbase, hlists⟩ := OamScratch.decode_lists oam hlines s
  refine ⟨s', hdecode, fun st => ?_⟩
  obtain ⟨hcounts, hslots, hlist⟩ := hlists (ctx.line - start) (by omega)
  rw [Nat.mod_eq_of_lt hstart] at hbase
  have hline : start + (ctx.line - start) = ctx.line := by omega
  rw [hline] at hlist
  rw [drawObjects, hbase]
  rw [if_pos ⟨hlo, by omega, hcounts⟩, foldlM_congr fun j hj st =>
    if_pos (hslots j (List.mem_range.1 hj)),
    ← List.foldlM_map (g := fun st o => drawObj ctx o st), hlist, List.foldlM_filterMap]
  refine foldlM_eq_foldl (fun obj _ st => ?_) st
  split
  · next o hon => exact drawObj_entryOn hon st
  · next hon => rw [plainEntry_of_entryOn_none hlo hhi hon st, Option.pure_def]

/-- A line of the first half, with an oam of the pattern of its addresses. -/
theorem sprite_law_pattern :
    80 - 0 ≤ HALF_LINES ∧ ∃ s',
      OamScratch.new.decode (fun i => UInt8.ofNat (i * 37 % 256)) 0 80 = some s' ∧
        ∀ st, drawObjects patternContext s' st
          = some (plainScan patternContext (fun i => UInt8.ofNat (i * 37 % 256)) st) :=
  ⟨by decide, sprite_law patternContext _ OamScratch.new (by decide) (by decide) (by decide)
    (by decide)⟩

end AdvancedSlop
