/-
# Composing a scanline

`src/core/ppu.rs`, from the drawn layers of a line to its pixels: which two layers are on top at
each pixel, and how they are blended.

* `selectLayersScalar`, `selectLayersNeon` : the walk in order, and the running minimum on vectors;
* `composeScanline` : the line, with its path for lines that cannot blend;
* `selectLane_eq`, `walk_eq` : both selections are the first two of the visible layers.
-/
import AdvancedSlop.TopTwo
import Mathlib.Data.List.FinRange
import Mathlib.Tactic.IntervalCases

namespace AdvancedSlop

/-! ## Lines -/

/-- `DISPLAY_WIDTH`. -/
abbrev DISPLAY_WIDTH : ℕ := 240

/-- One value for each pixel of a scanline. -/
abbrev PixelLine (α : Type) := Fin DISPLAY_WIDTH → α

/-- A loop that stores eight lanes at a time, from the left to the end of the line. -/
def storeLanes {α : Type} (lane : PixelLine α) (line : PixelLine α) : PixelLine α :=
  (List.range (DISPLAY_WIDTH / 8)).foldl
    (fun line k x => if 8 * k ≤ x.1 ∧ x.1 < 8 * k + 8 then lane x else line x) line

/-- `ObjLine`: the colours have bit 15 set where they are valid. -/
structure ObjLine where
  color : PixelLine (BitVec 16)
  prio : PixelLine (BitVec 8)
  semi : PixelLine (BitVec 8)

/-- `ObjLayer`. -/
structure ObjLayer where
  obj : ObjLine
  winMask : PixelLine (BitVec 8)
  backdrop : BitVec 16
  bldCnt : BitVec 16
  bldAlpha : BitVec 16
  bldY : BitVec 16
  forcedBlank : Bool
  anySemi : Bool

/-- `BgHalf`: two of the backgrounds. -/
structure BgHalf where
  bg : Fin 2 → PixelLine (BitVec 16)
  active : Fin 2 → Bool
  prio : Fin 2 → BitVec 16

/-- `BgCandidate`. -/
structure BgCandidate where
  line : PixelLine (BitVec 16)
  bg : Fin 4
  prio : BitVec 16

/-! ## Keys -/

/-- `KEY_NONE`. -/
def KEY_NONE : BitVec 16 := 0xFFFF

/-- `obj_key`. -/
def objKey (prio : BitVec 8) : BitVec 16 := prio.setWidth 16 <<< 4

/-- `bg_key`. -/
def bgKey (prio : BitVec 16) (bg : Fin 4) : BitVec 16 := (prio <<< 4) ||| (BitVec.ofNat 16 bg + 1)

/-- `LAYER_OBJ`. -/
def LAYER_OBJ : ℕ := 4
/-- `LAYER_BACKDROP`. -/
def LAYER_BACKDROP : ℕ := 5

/-- `key_layer`. -/
def keyLayer (key : BitVec 16) : ℕ :=
  if key = KEY_NONE then LAYER_BACKDROP
  else if key &&& 0xF = 0 then LAYER_OBJ
  else (key &&& 0xF).toNat - 1

/-- What is selected at a pixel. -/
@[ext] structure LayerPick where
  topKey : BitVec 16
  topColor : BitVec 16
  bottomKey : BitVec 16
  bottomColor : BitVec 16
  deriving DecidableEq

/-- `Selection`. -/
structure Selection where
  topColor : PixelLine (BitVec 16)
  topKey : PixelLine (BitVec 16)
  bottomColor : PixelLine (BitVec 16)
  bottomKey : PixelLine (BitVec 16)

/-- What a selection has at a pixel. -/
def Selection.pick (sel : Selection) (x : Fin DISPLAY_WIDTH) : LayerPick :=
  ⟨sel.topKey x, sel.topColor x, sel.bottomKey x, sel.bottomColor x⟩

/-! ## The walk in order -/

/-- The opaque bit of a pixel. -/
def opaquePixel (px : BitVec 16) : Bool := px &&& 0x8000 ≠ 0

/-- The two layers of a pixel as the walk has taken them so far: none, or the top one. -/
def pickOf (top : Option (BitVec 16 × BitVec 16)) : LayerPick :=
  ⟨(top.map Prod.fst).getD KEY_NONE, (top.map Prod.snd).getD 0, KEY_NONE, 0⟩

/-- `take!`: the first layer that is taken is the top one, the second one ends the walk. -/
def takeLayer (layer : BitVec 16 × BitVec 16) (top : Option (BitVec 16 × BitVec 16))
    (go : Option (BitVec 16 × BitVec 16) → LayerPick) : LayerPick :=
  match top with
  | none => go (some layer)
  | some (key, color) => ⟨key, color, layer.1, layer.2⟩

section Walk

variable (obj : ObjLine) (mask : BitVec 8) (x : Fin DISPLAY_WIDTH)

/-- The layer of an object's pixel. -/
def objLayer : BitVec 16 × BitVec 16 := (objKey (obj.prio x), obj.color x &&& 0x7FFF)

/-- The layer of a background's pixel. -/
def bgLayer (c : BgCandidate) : BitVec 16 × BitVec 16 := (bgKey c.prio c.bg, c.line x &&& 0x7FFF)

/-- Whether a background shows at a pixel. -/
def bgVisible (c : BgCandidate) : Bool :=
  mask &&& (1#8 <<< c.bg.1) ≠ 0 && opaquePixel (c.line x)

/-- Whether an object shows at a pixel. -/
def objVisible : Bool := mask &&& 0x10 ≠ 0 && opaquePixel (obj.color x)

/-- The loop over the candidates, with the object's pixel where it is still to come. -/
def walk : List BgCandidate → Bool → Option (BitVec 16 × BitVec 16) → LayerPick
  | [], objPending, top => if objPending then takeLayer (objLayer obj x) top pickOf else pickOf top
  | c :: cs, objPending, top =>
      let bgStep (objPending : Bool) (top : Option (BitVec 16 × BitVec 16)) : LayerPick :=
        if bgVisible mask x c then takeLayer (bgLayer x c) top (walk cs objPending)
        else walk cs objPending top
      -- Objects sit above backgrounds of the same priority.
      if objPending ∧ ((obj.prio x).setWidth 16).toNat ≤ c.prio.toNat then
        takeLayer (objLayer obj x) top (bgStep false)
      else bgStep objPending top

end Walk

/-- **`select_layers_scalar`**, whatever the selection had before. -/
def selectLayersScalar (bgOrder : List BgCandidate) (obj : ObjLine)
    (winMask : PixelLine (BitVec 8)) : Selection :=
  let pick x := walk obj (winMask x) x bgOrder (objVisible obj (winMask x) x) none
  ⟨fun x => (pick x).topColor, fun x => (pick x).topKey, fun x => (pick x).bottomColor,
    fun x => (pick x).bottomKey⟩

/-! ## The running minimum -/

/-- `vtstq_u16` in one lane. -/
def vtst (a b : BitVec 16) : BitVec 16 := if a &&& b ≠ 0 then BitVec.allOnes 16 else 0

/-- `vcltq_u16` in one lane. -/
def vclt (a b : BitVec 16) : BitVec 16 := if a.toNat < b.toNat then BitVec.allOnes 16 else 0

/-- `vceqq_u16` in one lane. -/
def vceq (a b : BitVec 16) : BitVec 16 := if a = b then BitVec.allOnes 16 else 0

/-- `vbslq_u16` in one lane. -/
def vbsl (mask a b : BitVec 16) : BitVec 16 := (mask &&& a) ||| (~~~mask &&& b)

/-- A candidate of a lane: its key is `KEY_NONE` where it does not show. -/
def laneStep (key color : BitVec 16) (s : LayerPick) : LayerPick :=
  let ltBest := vclt key s.topKey
  let ltSecond := vclt key s.bottomKey
  { bottomKey := vbsl ltBest s.topKey (vbsl ltSecond key s.bottomKey)
    bottomColor := vbsl ltBest s.topColor (vbsl ltSecond color s.bottomColor)
    topKey := vbsl ltBest key s.topKey
    topColor := vbsl ltBest color s.topColor }

/-- One lane of the vectors. -/
def selectLane (bgOrder : List BgCandidate) (obj : ObjLine) (winMask : PixelLine (BitVec 8))
    (x : Fin DISPLAY_WIDTH) : LayerPick :=
  let win := (winMask x).setWidth 16
  let valid := vtst (obj.color x) 0x8000 &&& vtst win 0x10
  let key := vbsl valid ((obj.prio x).setWidth 16 <<< 4) KEY_NONE
  bgOrder.foldl
    (fun s c =>
      let valid := vtst (c.line x) 0x8000 &&& vtst win (1#16 <<< c.bg.1)
      laneStep (vbsl valid (bgKey c.prio c.bg) KEY_NONE) (c.line x &&& 0x7FFF) s)
    (laneStep key (obj.color x &&& 0x7FFF) ⟨KEY_NONE, 0, KEY_NONE, 0⟩)

/-- **`select_layers_neon`**, over a selection. -/
def selectLayersNeon (bgOrder : List BgCandidate) (obj : ObjLine) (winMask : PixelLine (BitVec 8))
    (sel : Selection) : Selection :=
  let lane := selectLane bgOrder obj winMask
  ⟨storeLanes (fun x => (lane x).topColor) sel.topColor,
    storeLanes (fun x => (lane x).topKey) sel.topKey,
    storeLanes (fun x => (lane x).bottomColor) sel.bottomColor,
    storeLanes (fun x => (lane x).bottomKey) sel.bottomKey⟩

/-! ## Blending -/

/-- The colour channel at a bit. -/
def colorChannel (color : BitVec 16) (lsb : ℕ) : ℕ := ((color >>> lsb) &&& 0x1F).toNat

/-- A colour of three channels. -/
def packColor (r g b : ℕ) : BitVec 16 := BitVec.ofNat 16 (r ||| (g <<< 5) ||| (b <<< 10))

/-- `alpha_blend`. -/
def alphaBlend (top bottom : BitVec 16) (eva evb : ℕ) : BitVec 16 :=
  let mix lsb := min ((colorChannel top lsb * eva + colorChannel bottom lsb * evb) >>> 4) 31
  packColor (mix 0) (mix 5) (mix 10)

/-- `brightness`. -/
def brightness (color : BitVec 16) (evy : ℕ) (up : Bool) : BitVec 16 :=
  let f c := if up then c + (((31 - c) * evy) >>> 4) else c - ((c * evy) >>> 4)
  packColor (f (colorChannel color 0)) (f (colorChannel color 5)) (f (colorChannel color 10))

/-- `abgr8_from_555`, of a widened pixel. -/
def abgr8From555 (c : BitVec 32) : BitVec 32 :=
  ((c &&& 0x1F) <<< 3) ||| ((c &&& 0x3E0) <<< 6) ||| (((c &&& 0x7C00) <<< 9) ||| 0xFF000000)

/-- `store_abgr8` of a line, eight pixels at a time. -/
def storeAbgr8 (line : PixelLine (BitVec 16)) (fbLine : PixelLine (BitVec 32)) :
    PixelLine (BitVec 32) :=
  storeLanes (fun x => abgr8From555 ((line x).setWidth 32)) fbLine

/-- `top_to_abgr`. -/
def topToAbgr (sel : Selection) (backdrop : BitVec 16) (fbLine : PixelLine (BitVec 32)) :
    PixelLine (BitVec 32) :=
  storeAbgr8 (fun x => vbsl (vceq (sel.topKey x) KEY_NONE) backdrop (sel.topColor x)) fbLine

/-- Whether a layer is among the targets from a bit of `BLDCNT` on. -/
def isTarget (bldCnt : BitVec 16) (lsb layer : ℕ) : Bool := bldCnt &&& (1#16 <<< (lsb + layer)) ≠ 0

/-- The mode of `BLDCNT`. -/
def bldMode (bldCnt : BitVec 16) : BitVec 16 := (bldCnt >>> 6) &&& 3

/-- The general loop's colour of a pixel. -/
def composePixel (objs : ObjLayer) (sel : Selection) (x : Fin DISPLAY_WIDTH) : BitVec 16 :=
  let eva := min (objs.bldAlpha &&& 0x1F).toNat 16
  let evb := min ((objs.bldAlpha >>> 8) &&& 0x1F).toNat 16
  let evy := min (objs.bldY &&& 0x1F).toNat 16
  let topColor := if sel.topKey x = KEY_NONE then objs.backdrop else sel.topColor x
  let bottomColor := if sel.bottomKey x = KEY_NONE then objs.backdrop else sel.bottomColor x
  let topLayer := keyLayer (sel.topKey x)
  let bottomLayer := keyLayer (sel.bottomKey x)
  let topSemi := topLayer = LAYER_OBJ ∧ objs.obj.semi x ≠ 0
  let effectsOk := objs.winMask x &&& 0x20 ≠ 0
  let firstTarget := isTarget objs.bldCnt 0 topLayer
  let secondTarget := isTarget objs.bldCnt 8 bottomLayer
  if topSemi ∧ secondTarget ∧ effectsOk then alphaBlend topColor bottomColor eva evb
  else if effectsOk ∧ firstTarget then
    if bldMode objs.bldCnt = 1 ∧ secondTarget then alphaBlend topColor bottomColor eva evb
    else if bldMode objs.bldCnt = 2 then brightness topColor evy true
    else if bldMode objs.bldCnt = 3 then brightness topColor evy false
    else topColor
  else topColor

/-- The general loop, with `convert_555_line`. -/
def blendLine (objs : ObjLayer) (sel : Selection) (fbLine : PixelLine (BitVec 32)) :
    PixelLine (BitVec 32) :=
  storeAbgr8 (composePixel objs sel) fbLine

/-- A background's half, and its place in it. -/
def bgSlot (bg01 bg23 : BgHalf) (bg : Fin 4) : BgHalf × Fin 2 :=
  if h : bg.1 < 2 then (bg01, ⟨bg.1, h⟩) else (bg23, ⟨bg.1 - 2, by omega⟩)

/-- The backgrounds that contribute to a line, by priority and then by index. -/
def bgOrder (bg01 bg23 : BgHalf) : List BgCandidate :=
  (List.range 4).flatMap fun prio => (List.finRange 4).filterMap fun bg =>
    let half := (bgSlot bg01 bg23 bg).1
    let i := (bgSlot bg01 bg23 bg).2
    if half.active i ∧ half.prio i = BitVec.ofNat 16 prio then
      some ⟨half.bg i, bg, BitVec.ofNat 16 prio⟩
    else none

/-- Whether a line takes the path without blending. -/
def noBlend (objs : ObjLayer) : Bool :=
  bldMode objs.bldCnt = 0 && (!objs.anySemi || objs.bldCnt &&& 0x3F00 = 0)

/-- **`compose_scanline`**, without the comparison of the two selections in debug builds. -/
def composeScanline (objs : ObjLayer) (bg01 bg23 : BgHalf) (fbLine : PixelLine (BitVec 32))
    (sel : Selection) : PixelLine (BitVec 32) × Selection :=
  if objs.forcedBlank then (fun _ => 0xFFFFFFFF, sel)
  else
    let sel := selectLayersNeon (bgOrder bg01 bg23) objs.obj objs.winMask sel
    if noBlend objs then (topToAbgr sel objs.backdrop fbLine, sel)
    else (blendLine objs sel fbLine, sel)

/-! ## Stores of whole lines -/

/-- Thirty stores of eight lanes cover the line. -/
theorem storeLanes_eq {α : Type} (lane line : PixelLine α) : storeLanes lane line = lane := by
  have hrun : ∀ (n : ℕ) (x : Fin DISPLAY_WIDTH), (List.range n).foldl
      (fun line k x => if 8 * k ≤ x.1 ∧ x.1 < 8 * k + 8 then lane x else line x) line x
        = if x.1 < 8 * n then lane x else line x := by
    intro n
    induction n with
    | zero => exact fun x => rfl
    | succ n ih =>
        intro x
        rw [List.range_succ, List.foldl_append, List.foldl_cons, List.foldl_nil, ih]
        split_ifs <;> first | rfl | omega
  funext x
  exact (hrun (DISPLAY_WIDTH / 8) x).trans (if_pos x.isLt)

/-! ## The lanes -/

theorem vbsl_allOnes (a b : BitVec 16) : vbsl (BitVec.allOnes 16) a b = a := by
  rw [vbsl, BitVec.allOnes_and, BitVec.not_allOnes, BitVec.zero_and, BitVec.or_zero]

theorem vbsl_zero (a b : BitVec 16) : vbsl 0 a b = b := by
  rw [vbsl, BitVec.ofNat_eq_ofNat, BitVec.zero_and, BitVec.not_zero, BitVec.allOnes_and,
    BitVec.zero_or]

/-- A select by a comparison. -/
theorem vbsl_ite (c : Prop) [Decidable c] (a b : BitVec 16) :
    vbsl (if c then BitVec.allOnes 16 else 0) a b = if c then a else b := by
  split
  · exact vbsl_allOnes a b
  · exact vbsl_zero a b

/-- A select by two tests. -/
theorem vbsl_and_ite (c d : Prop) [Decidable c] [Decidable d] (a b : BitVec 16) :
    vbsl ((if c then BitVec.allOnes 16 else 0) &&& if d then BitVec.allOnes 16 else 0) a b
      = if c ∧ d then a else b := by
  by_cases hc : c <;> by_cases hd : d <;>
    simp only [hc, hd, if_true, if_false, true_and, false_and, and_self, BitVec.and_self,
      BitVec.ofNat_eq_ofNat, BitVec.and_zero, BitVec.zero_and]
  · exact vbsl_allOnes a b
  all_goals exact vbsl_zero a b

/-- A pick as the two least keys. -/
def LayerPick.toTopTwo (p : LayerPick) : TopTwo ℕ (BitVec 16) :=
  ⟨(p.topKey.toNat, p.topColor), (p.bottomKey.toNat, p.bottomColor)⟩

theorem LayerPick.toTopTwo_injective : Function.Injective LayerPick.toTopTwo := by
  intro p q h
  obtain ⟨hbest, hsecond⟩ := TopTwo.mk.inj h
  obtain ⟨htopKey, htop⟩ := Prod.mk.inj hbest
  obtain ⟨hbottomKey, hbottom⟩ := Prod.mk.inj hsecond
  exact LayerPick.ext (BitVec.eq_of_toNat_eq htopKey) htop (BitVec.eq_of_toNat_eq hbottomKey)
    hbottom

/-- A layer with its key as a number. -/
def layerEntry (layer : BitVec 16 × BitVec 16) : ℕ × BitVec 16 := (layer.1.toNat, layer.2)

/-- The entry of no layer. -/
def noEntry : ℕ × BitVec 16 := layerEntry (KEY_NONE, 0)

/-- **A lane keeps the two least keys.** -/
theorem laneStep_toTopTwo (key color : BitVec 16) (s : LayerPick) :
    (laneStep key color s).toTopTwo = s.toTopTwo.push (layerEntry (key, color)) := by
  by_cases hbest : key.toNat < s.topKey.toNat <;>
    by_cases hsecond : key.toNat < s.bottomKey.toNat <;>
    simp only [laneStep, vclt, vbsl_allOnes, vbsl_zero, LayerPick.toTopTwo, TopTwo.push, layerEntry,
      hbest, hsecond, if_true, if_false]

/-! ## The keys of a line -/

/-- An object's key, as a number. -/
theorem toNat_objKey (prio : BitVec 8) : (objKey prio).toNat = 16 * prio.toNat := by
  have hlt := prio.isLt
  rw [objKey, BitVec.toNat_shiftLeft, BitVec.toNat_setWidth, Nat.shiftLeft_eq]
  omega

/-- A background's key, as a number. -/
theorem toNat_bgKey {prio : BitVec 16} (hprio : prio.toNat < 4) (bg : Fin 4) :
    (bgKey prio bg).toNat = 16 * prio.toNat + bg + 1 := by
  have hall : ∀ p bg : Fin 4, (bgKey (BitVec.ofNat 16 p) bg).toNat = 16 * p + bg + 1 := by decide
  have h := hall ⟨prio.toNat, hprio⟩ bg
  rwa [BitVec.ofNat_toNat, BitVec.setWidth_eq] at h

/-- Where a candidate comes from. -/
theorem mem_bgOrder {bg01 bg23 : BgHalf} {c : BgCandidate} :
    c ∈ bgOrder bg01 bg23 ↔ ∃ prio < 4, ∃ bg : Fin 4,
      ((bgSlot bg01 bg23 bg).1.active (bgSlot bg01 bg23 bg).2 = true ∧
        (bgSlot bg01 bg23 bg).1.prio (bgSlot bg01 bg23 bg).2 = BitVec.ofNat 16 prio) ∧
      c = ⟨(bgSlot bg01 bg23 bg).1.bg (bgSlot bg01 bg23 bg).2, bg, BitVec.ofNat 16 prio⟩ := by
  simp only [bgOrder, List.mem_flatMap, List.mem_range, List.mem_filterMap, List.mem_finRange,
    true_and, Option.ite_none_right_eq_some, Option.some.injEq, eq_comm (a := c)]

/-- A candidate's key is above those of the candidates before it. -/
theorem bgOrder_pairwise (bg01 bg23 : BgHalf) :
    (bgOrder bg01 bg23).Pairwise
      fun c d => (bgKey c.prio c.bg).toNat < (bgKey d.prio d.bg).toNat := by
  have hkey : ∀ prio < 4, ∀ bg : Fin 4,
      (bgKey (BitVec.ofNat 16 prio) bg).toNat = 16 * prio + bg + 1 := by
    intro prio hprio bg
    have htoNat : (BitVec.ofNat 16 prio).toNat = prio := by
      rw [BitVec.toNat_ofNat]
      omega
    rw [toNat_bgKey (htoNat.trans_lt hprio), htoNat]
  refine List.pairwise_flatMap.2 ⟨fun prio hprio => ?_, ?_⟩
  · rw [List.pairwise_filterMap]
    refine (List.pairwise_lt_finRange 4).imp fun {b b'} hlt c hc d hd => ?_
    obtain rfl := Option.some.inj (Option.ite_none_right_eq_some.1 hc).2
    obtain rfl := Option.some.inj (Option.ite_none_right_eq_some.1 hd).2
    have hlt : b.1 < b'.1 := hlt
    rw [hkey prio (List.mem_range.1 hprio), hkey prio (List.mem_range.1 hprio)]
    show 16 * prio + b.1 + 1 < 16 * prio + b'.1 + 1
    omega
  · refine List.pairwise_lt_range.imp_of_mem fun {p p'} hp hp' hlt c hc d hd => ?_
    obtain ⟨b, -, hc⟩ := List.mem_filterMap.1 hc
    obtain ⟨b', -, hd⟩ := List.mem_filterMap.1 hd
    obtain rfl := Option.some.inj (Option.ite_none_right_eq_some.1 hc).2
    obtain rfl := Option.some.inj (Option.ite_none_right_eq_some.1 hd).2
    rw [hkey p (List.mem_range.1 hp), hkey p' (List.mem_range.1 hp')]
    omega

/-- A candidate's priority. -/
theorem prio_lt_of_mem_bgOrder {bg01 bg23 : BgHalf} {c : BgCandidate}
    (h : c ∈ bgOrder bg01 bg23) : c.prio.toNat < 4 := by
  obtain ⟨prio, hprio, bg, -, rfl⟩ := mem_bgOrder.1 h
  show (BitVec.ofNat 16 prio).toNat < 4
  rw [BitVec.toNat_ofNat]
  omega

/-! ## The visible layers of a pixel -/

section Pixel

variable (obj : ObjLine) (mask : BitVec 8) (x : Fin DISPLAY_WIDTH)

/-- The layers the walk takes, were it to go on to the end. -/
def walkLayers : List BgCandidate → Bool → List (BitVec 16 × BitVec 16)
  | [], objPending => if objPending then [objLayer obj x] else []
  | c :: cs, objPending =>
      let bgs (objPending : Bool) : List (BitVec 16 × BitVec 16) :=
        (if bgVisible mask x c then [bgLayer x c] else []) ++ walkLayers cs objPending
      if objPending ∧ ((obj.prio x).setWidth 16).toNat ≤ c.prio.toNat then
        objLayer obj x :: bgs false
      else bgs objPending

/-- The first two of the layers, when one may have been taken already. -/
def firstTwoOf (top : Option (BitVec 16 × BitVec 16)) (layers : List (BitVec 16 × BitVec 16)) :
    LayerPick :=
  match top.toList ++ layers with
  | [] => ⟨KEY_NONE, 0, KEY_NONE, 0⟩
  | [layer] => ⟨layer.1, layer.2, KEY_NONE, 0⟩
  | layer :: layer' :: _ => ⟨layer.1, layer.2, layer'.1, layer'.2⟩

/-- A layer that is taken, and then the rest. -/
theorem takeLayer_firstTwoOf (layer : BitVec 16 × BitVec 16)
    (top : Option (BitVec 16 × BitVec 16)) (layers : List (BitVec 16 × BitVec 16)) :
    takeLayer layer top (fun top => firstTwoOf top layers) = firstTwoOf top (layer :: layers) := by
  cases top <;> cases layers <;> rfl

/-- **The walk** picks the first two layers it takes. -/
theorem walk_eq (cs : List BgCandidate) : ∀ (objPending : Bool)
    (top : Option (BitVec 16 × BitVec 16)),
    walk obj mask x cs objPending top = firstTwoOf top (walkLayers obj mask x cs objPending) := by
  induction cs with
  | nil =>
      have hpick : pickOf = fun top => firstTwoOf top [] := by
        funext top
        cases top <;> rfl
      intro objPending top
      rw [walk, walkLayers, hpick]
      split
      · exact takeLayer_firstTwoOf _ top []
      · rfl
  | cons c cs ih =>
      have hbg : ∀ objPending top,
          (if bgVisible mask x c then
            takeLayer (bgLayer x c) top (walk obj mask x cs objPending)
          else walk obj mask x cs objPending top)
          = firstTwoOf top ((if bgVisible mask x c then [bgLayer x c] else []) ++
              walkLayers obj mask x cs objPending) := by
        intro objPending top
        rw [funext (ih objPending)]
        split
        · exact takeLayer_firstTwoOf _ top _
        · rfl
      intro objPending top
      simp only [walk, walkLayers]
      split
      · rw [funext (hbg false)]
        exact takeLayer_firstTwoOf _ top _
      · exact hbg objPending top

/-- The visible layers, the object's first. -/
def visibleLayers (cs : List BgCandidate) (objPending : Bool) : List (BitVec 16 × BitVec 16) :=
  (if objPending then [objLayer obj x] else []) ++ (cs.filter (bgVisible mask x)).map (bgLayer x)

theorem visibleLayers_cons (c : BgCandidate) (cs : List BgCandidate) (objPending : Bool) :
    visibleLayers obj mask x (c :: cs) objPending
      = (if objPending then [objLayer obj x] else []) ++
        ((if bgVisible mask x c then [bgLayer x c] else []) ++
          visibleLayers obj mask x cs false) := by
  rw [visibleLayers, visibleLayers, List.filter_cons]
  by_cases h : bgVisible mask x c = true
  · rw [if_pos h, if_pos h]
    rfl
  · rw [if_neg h, if_neg h]
    rfl

/-- The walk takes the visible layers. -/
theorem walkLayers_perm (cs : List BgCandidate) : ∀ objPending,
    (walkLayers obj mask x cs objPending).Perm (visibleLayers obj mask x cs objPending) := by
  induction cs with
  | nil =>
      intro objPending
      rw [walkLayers, visibleLayers, List.filter_nil, List.map_nil, List.append_nil]
  | cons c cs ih =>
      intro objPending
      rw [walkLayers, visibleLayers_cons]
      cases objPending with
      | false =>
          rw [if_neg fun h => Bool.false_ne_true h.1]
          exact (ih false).append_left _
      | true =>
          split
          · exact ((ih false).append_left _).cons _
          · have hobj : visibleLayers obj mask x cs true
                = [objLayer obj x] ++ visibleLayers obj mask x cs false := rfl
            refine ((ih true).append_left _).trans ?_
            rw [hobj, ← List.append_assoc, ← List.append_assoc]
            exact List.perm_append_comm.append_right _

/-- A layer the walk takes is the object's or a background's. -/
theorem mem_walkLayers {cs : List BgCandidate} {objPending : Bool}
    {layer : BitVec 16 × BitVec 16} (h : layer ∈ walkLayers obj mask x cs objPending) :
    objPending = true ∧ layer = objLayer obj x ∨ ∃ c ∈ cs, layer = bgLayer x c := by
  rcases List.mem_append.1 ((walkLayers_perm obj mask x cs objPending).mem_iff.1 h) with h | h
  · left
    cases objPending with
    | false => exact absurd h List.not_mem_nil
    | true => exact ⟨rfl, List.mem_singleton.1 h⟩
  · right
    obtain ⟨c, hc, rfl⟩ := List.mem_map.1 h
    exact ⟨c, (List.mem_filter.1 hc).1, rfl⟩

/-- The walk goes through the keys in order. -/
theorem walkLayers_pairwise {cs : List BgCandidate} (hprio : ∀ c ∈ cs, c.prio.toNat < 4)
    (hcs : cs.Pairwise fun c d => (bgKey c.prio c.bg).toNat < (bgKey d.prio d.bg).toNat) :
    ∀ objPending, (walkLayers obj mask x cs objPending).Pairwise
      fun layer layer' => layer.1.toNat < layer'.1.toNat := by
  have hwiden : ((obj.prio x).setWidth 16).toNat = (obj.prio x).toNat := by
    have hlt := (obj.prio x).isLt
    rw [BitVec.toNat_setWidth]
    omega
  induction cs with
  | nil =>
      intro objPending
      rw [walkLayers]
      split
      · exact List.pairwise_singleton _ _
      · exact List.Pairwise.nil
  | cons c cs ih =>
      obtain ⟨hfirst, hrest⟩ := List.pairwise_cons.1 hcs
      have hc := hprio c List.mem_cons_self
      have hprio' : ∀ d ∈ cs, d.prio.toNat < 4 := fun d hd => hprio d (List.mem_cons_of_mem c hd)
      have ih := ih hprio' hrest
      have hobj : (objLayer obj x).1.toNat = 16 * (obj.prio x).toNat := toNat_objKey _
      have hckey : (bgLayer x c).1.toNat = 16 * c.prio.toNat + c.bg + 1 := toNat_bgKey hc c.bg
      have hbg := c.bg.isLt
      have hlater : ∀ d ∈ cs, (bgLayer x c).1.toNat < (bgLayer x d).1.toNat := hfirst
      -- The background, and then what comes after it.
      have hbgs : ∀ objPending, (objPending = true → c.prio.toNat < (obj.prio x).toNat) →
          ((if bgVisible mask x c then [bgLayer x c] else []) ++
            walkLayers obj mask x cs objPending).Pairwise
              fun layer layer' => layer.1.toNat < layer'.1.toNat := by
        intro objPending hpending
        split
        · refine List.pairwise_cons.2 ⟨fun layer hlayer => ?_, ih objPending⟩
          rcases mem_walkLayers obj mask x hlayer with ⟨hp, rfl⟩ | ⟨d, hd, rfl⟩
          · have hlt := hpending hp
            rw [hobj, hckey]
            omega
          · exact hlater d hd
        · exact ih objPending
      intro objPending
      rw [walkLayers]
      split
      · next h =>
        have hle : (obj.prio x).toNat ≤ c.prio.toNat := hwiden ▸ h.2
        refine List.pairwise_cons.2
          ⟨fun layer hlayer => ?_, hbgs false fun h => absurd h Bool.false_ne_true⟩
        have hlayer' : layer ∈ walkLayers obj mask x (c :: cs) false := by
          rw [walkLayers, if_neg fun h => Bool.false_ne_true h.1]
          exact hlayer
        rcases mem_walkLayers obj mask x hlayer' with ⟨hp, -⟩ | ⟨d, hd, rfl⟩
        · exact absurd hp Bool.false_ne_true
        · have hdkey : (bgLayer x d).1.toNat = 16 * d.prio.toNat + d.bg + 1 :=
            toNat_bgKey (hprio d hd) d.bg
          rcases List.mem_cons.1 hd with rfl | hd
          · rw [hobj, hdkey]
            omega
          · have hlt := hlater d hd
            rw [hobj]
            omega
      · next h =>
        refine hbgs objPending fun hp => ?_
        rw [← hwiden]
        exact not_le.1 fun hle => h ⟨hp, hle⟩

/-- What the lanes run over: the object and every candidate, with no key where they do not show. -/
def laneLayers (cs : List BgCandidate) : List (ℕ × BitVec 16) :=
  layerEntry (if objVisible obj mask x then objKey (obj.prio x) else KEY_NONE,
      obj.color x &&& 0x7FFF) ::
    cs.map fun c =>
      layerEntry (if bgVisible mask x c then bgKey c.prio c.bg else KEY_NONE, c.line x &&& 0x7FFF)

/-- The entries of the lanes that are of a layer are those of the visible layers. -/
theorem laneLayers_filter {cs : List BgCandidate} (hprio : ∀ c ∈ cs, c.prio.toNat < 4) :
    (laneLayers obj mask x cs).filter (·.1 < noEntry.1)
      = (visibleLayers obj mask x cs (objVisible obj mask x)).map layerEntry := by
  have hnone : noEntry.1 = 0xFFFF := rfl
  have hhide : ∀ color, ¬ (layerEntry (KEY_NONE, color)).1 < noEntry.1 := fun _ => lt_irrefl _
  have hobj : (layerEntry (objLayer obj x)).1 < noEntry.1 := by
    have hlt := (obj.prio x).isLt
    have hkey : (layerEntry (objLayer obj x)).1 = 16 * (obj.prio x).toNat := toNat_objKey _
    rw [hkey, hnone]
    omega
  have hbgs : ((cs.map fun c => layerEntry (if bgVisible mask x c then bgKey c.prio c.bg
      else KEY_NONE, c.line x &&& 0x7FFF)).filter (·.1 < noEntry.1))
        = ((cs.filter (bgVisible mask x)).map (bgLayer x)).map layerEntry := by
    induction cs with
    | nil => rfl
    | cons c cs ih =>
        have hc := hprio c List.mem_cons_self
        have hbg := c.bg.isLt
        have hkey : (layerEntry (bgLayer x c)).1 = 16 * c.prio.toNat + c.bg + 1 :=
          toNat_bgKey hc c.bg
        have hbgkey : (layerEntry (bgLayer x c)).1 < noEntry.1 := by
          rw [hkey, hnone]
          omega
        have ih := ih fun d hd => hprio d (List.mem_cons_of_mem c hd)
        rw [List.map_cons, List.filter_cons, List.filter_cons, ih]
        by_cases hvisible : bgVisible mask x c = true
        · simp only [hvisible, if_true, List.map_cons]
          exact if_pos (decide_eq_true hbgkey)
        · simp only [hvisible]
          exact if_neg fun h => hhide _ (of_decide_eq_true h)
  rw [laneLayers, List.filter_cons, hbgs, visibleLayers, List.map_append]
  by_cases hvisible : objVisible obj mask x = true
  · simp only [hvisible, if_true]
    exact if_pos (decide_eq_true hobj)
  · simp only [hvisible]
    exact if_neg fun h => hhide _ (of_decide_eq_true h)

end Pixel

/-! ## Both selections -/

/-- The first two layers of a list, as the two least keys. -/
theorem firstTwoOf_toTopTwo (layers : List (BitVec 16 × BitVec 16)) :
    (firstTwoOf none layers).toTopTwo = firstTwo noEntry (layers.map layerEntry) := by
  rcases layers with _ | ⟨layer, _ | ⟨layer', layers⟩⟩ <;> rfl

/-- A bit of the window mask, in a lane. -/
theorem win_and_ne_zero (mask bit : BitVec 8) :
    mask.setWidth 16 &&& bit.setWidth 16 ≠ 0 ↔ mask &&& bit ≠ 0 := by
  rw [← BitVec.setWidth_and, ne_eq, ne_eq, not_iff_not]
  constructor
  · intro h
    apply BitVec.eq_of_toNat_eq
    have hlt := (mask &&& bit).isLt
    have htoNat := congrArg BitVec.toNat h
    rw [BitVec.toNat_setWidth, Nat.mod_eq_of_lt (hlt.trans (by decide))] at htoNat
    exact htoNat
  · intro h
    rw [h]
    rfl

/-- What a lane runs over. -/
theorem selectLane_toTopTwo (cs : List BgCandidate) (obj : ObjLine)
    (winMask : PixelLine (BitVec 8)) (x : Fin DISPLAY_WIDTH) :
    (selectLane cs obj winMask x).toTopTwo
      = (laneLayers obj (winMask x) x cs).foldl TopTwo.push ⟨noEntry, noEntry⟩ := by
  have hshow : ∀ (px : BitVec 16) (bit : BitVec 8) (key : BitVec 16),
      vbsl (vtst px 0x8000 &&& vtst ((winMask x).setWidth 16) (bit.setWidth 16)) key KEY_NONE
        = if (decide (winMask x &&& bit ≠ 0) && opaquePixel px) = true then key else KEY_NONE := by
    intro px bit key
    rw [vtst, vtst, vbsl_and_ite]
    refine if_congr ?_ rfl rfl
    rw [win_and_ne_zero, Bool.and_eq_true, decide_eq_true_eq, opaquePixel, decide_eq_true_eq,
      and_comm]
  have hbit : ∀ bg : Fin 4, 1#16 <<< bg.1 = (1#8 <<< bg.1).setWidth 16 := by decide
  have hrun : ∀ (cs : List BgCandidate) (s : LayerPick), (cs.foldl (fun s c =>
      laneStep (if bgVisible (winMask x) x c then bgKey c.prio c.bg else KEY_NONE)
        (c.line x &&& 0x7FFF) s) s).toTopTwo
      = (cs.map fun c => layerEntry (if bgVisible (winMask x) x c then bgKey c.prio c.bg
          else KEY_NONE, c.line x &&& 0x7FFF)).foldl TopTwo.push s.toTopTwo := by
    intro cs
    induction cs with
    | nil => exact fun s => rfl
    | cons c cs ih =>
        intro s
        rw [List.foldl_cons, ih, laneStep_toTopTwo, List.map_cons, List.foldl_cons]
  have hobj : (0x10 : BitVec 16) = (0x10#8).setWidth 16 := by decide
  rw [selectLane]
  simp only [hbit, hobj, hshow]
  refine (hrun cs _).trans ?_
  rw [laneStep_toTopTwo, laneLayers, List.foldl_cons]
  rfl

section Line

variable (bg01 bg23 : BgHalf) (obj : ObjLine) (winMask : PixelLine (BitVec 8))
  (x : Fin DISPLAY_WIDTH)

/-- The visible layers in the order of the walk. -/
abbrev lineLayers : List (BitVec 16 × BitVec 16) :=
  walkLayers obj (winMask x) x (bgOrder bg01 bg23) (objVisible obj (winMask x) x)

variable {bg01 bg23 obj winMask x} in
/-- A visible layer's key is below that of no layer. -/
theorem lt_noEntry {e : ℕ × BitVec 16}
    (he : e ∈ (lineLayers bg01 bg23 obj winMask x).map layerEntry) : e.1 < noEntry.1 := by
  obtain ⟨layer, hlayer, rfl⟩ := List.mem_map.1 he
  have hlayer := (walkLayers_perm obj (winMask x) x _ _).mem_iff.1 hlayer
  have hmem : layerEntry layer
      ∈ (laneLayers obj (winMask x) x (bgOrder bg01 bg23)).filter (·.1 < noEntry.1) := by
    rw [laneLayers_filter obj (winMask x) x fun c hc => prio_lt_of_mem_bgOrder hc]
    exact List.mem_map_of_mem hlayer
  exact of_decide_eq_true (List.mem_filter.1 hmem).2

/-- Entries in the order of the walk leave the first two, in whatever order they come. -/
theorem foldl_push_lineLayers {l : List (ℕ × BitVec 16)}
    (h : l.Perm ((lineLayers bg01 bg23 obj winMask x).map layerEntry)) :
    l.foldl TopTwo.push ⟨noEntry, noEntry⟩
      = (firstTwoOf none (lineLayers bg01 bg23 obj winMask x)).toTopTwo := by
  have hprio : ∀ c ∈ bgOrder bg01 bg23, c.prio.toNat < 4 := fun c hc => prio_lt_of_mem_bgOrder hc
  have hsorted : ((lineLayers bg01 bg23 obj winMask x).map layerEntry).Pairwise
      fun e e' => e.1 < e'.1 :=
    List.pairwise_map.2 (walkLayers_pairwise obj (winMask x) x hprio (bgOrder_pairwise _ _) _)
  rw [← TopTwo.foldl_push_of_perm h.symm (hsorted.imp fun hlt => hlt.ne),
    TopTwo.foldl_push_of_sorted hsorted fun e he => lt_noEntry he, firstTwoOf_toTopTwo]

/-- **The lanes select what the walk does.** -/
theorem selectLane_eq :
    selectLane (bgOrder bg01 bg23) obj winMask x
      = walk obj (winMask x) x (bgOrder bg01 bg23) (objVisible obj (winMask x) x) none := by
  have hprio : ∀ c ∈ bgOrder bg01 bg23, c.prio.toNat < 4 := fun c hc => prio_lt_of_mem_bgOrder hc
  apply LayerPick.toTopTwo_injective
  rw [selectLane_toTopTwo, walk_eq, TopTwo.foldl_push_filter noEntry.1 _ _ le_rfl le_rfl,
    laneLayers_filter obj (winMask x) x hprio]
  exact foldl_push_lineLayers bg01 bg23 obj winMask x
    ((walkLayers_perm obj (winMask x) x _ _).symm.map layerEntry)

end Line

/-! ## The reference -/

/-- A layer that shows at a pixel, with its priority and its rank among the layers of one priority:
the object's pixel, and then the backgrounds by index. -/
structure ShownLayer where
  prio : ℕ
  rank : ℕ
  key : BitVec 16
  color : BitVec 16

/-- Whether a layer is in front of another one. -/
def ShownLayer.inFront (a b : ShownLayer) : Bool :=
  a.prio < b.prio || (a.prio = b.prio && a.rank ≤ b.rank)

section Reference

variable (bg01 bg23 : BgHalf) (obj : ObjLine) (winMask : PixelLine (BitVec 8))
  (x : Fin DISPLAY_WIDTH)

/-- The layers that show at a pixel: an object that is opaque and in its window, and the
backgrounds of a priority that are active, opaque and in their window. -/
def shownLayers : List ShownLayer :=
  (if winMask x &&& 0x10 ≠ 0 ∧ obj.color x &&& 0x8000 ≠ 0 then
    [⟨(obj.prio x).toNat, 0, objKey (obj.prio x), obj.color x &&& 0x7FFF⟩]
  else []) ++
  (List.finRange 4).filterMap fun bg =>
    let half := (bgSlot bg01 bg23 bg).1
    let i := (bgSlot bg01 bg23 bg).2
    if half.active i ∧ (half.prio i).toNat < 4 ∧ winMask x &&& (1#8 <<< bg.1) ≠ 0 ∧
        half.bg i x &&& 0x8000 ≠ 0 then
      some ⟨(half.prio i).toNat, bg + 1, bgKey (half.prio i) bg, half.bg i x &&& 0x7FFF⟩
    else none

/-- The layer in front and the one behind it. -/
def frontLayers : LayerPick :=
  match (shownLayers bg01 bg23 obj winMask x).mergeSort ShownLayer.inFront with
  | [] => ⟨KEY_NONE, 0, KEY_NONE, 0⟩
  | [a] => ⟨a.key, a.color, KEY_NONE, 0⟩
  | a :: b :: _ => ⟨a.key, a.color, b.key, b.color⟩

/-- The number of a shown layer's key. -/
theorem key_of_mem_shownLayers {a : ShownLayer} (h : a ∈ shownLayers bg01 bg23 obj winMask x) :
    a.key.toNat = 16 * a.prio + a.rank ∧ a.rank < 16 := by
  rcases List.mem_append.1 h with h | h
  · split at h
    · obtain rfl := List.mem_singleton.1 h
      exact ⟨toNat_objKey _, Nat.zero_lt_succ 15⟩
    · exact absurd h List.not_mem_nil
  · obtain ⟨bg, -, h⟩ := List.mem_filterMap.1 h
    obtain ⟨⟨-, hprio, -⟩, h⟩ := Option.ite_none_right_eq_some.1 h
    obtain rfl := Option.some.inj h
    exact ⟨toNat_bgKey hprio bg, Nat.lt_of_le_of_lt bg.isLt (by decide)⟩

/-- No two shown layers have one rank. -/
theorem shownLayers_pairwise :
    (shownLayers bg01 bg23 obj winMask x).Pairwise fun a b => a.rank < b.rank := by
  have hbg : ∀ {bg : Fin 4} {a : ShownLayer},
      (let half := (bgSlot bg01 bg23 bg).1
       let i := (bgSlot bg01 bg23 bg).2
       if half.active i ∧ (half.prio i).toNat < 4 ∧ winMask x &&& (1#8 <<< bg.1) ≠ 0 ∧
          half.bg i x &&& 0x8000 ≠ 0 then
        some (⟨(half.prio i).toNat, bg + 1, bgKey (half.prio i) bg,
          half.bg i x &&& 0x7FFF⟩ : ShownLayer)
      else none) = some a → a.rank = bg + 1 := by
    intro bg a h
    obtain rfl := Option.some.inj (Option.ite_none_right_eq_some.1 h).2
    rfl
  refine List.pairwise_append.2 ⟨?_, ?_, fun a ha b hb => ?_⟩
  · split
    · exact List.pairwise_singleton _ _
    · exact List.Pairwise.nil
  · rw [List.pairwise_filterMap]
    refine (List.pairwise_lt_finRange 4).imp fun {i j} hlt a ha b hb => ?_
    have hlt : i.1 < j.1 := hlt
    rw [hbg ha, hbg hb]
    omega
  · split at ha
    · obtain rfl := List.mem_singleton.1 ha
      obtain ⟨bg, -, hb⟩ := List.mem_filterMap.1 hb
      rw [hbg hb]
      exact Nat.succ_pos _
    · exact absurd ha List.not_mem_nil

/-- A shown layer, as an entry. -/
def ShownLayer.entry (a : ShownLayer) : ℕ × BitVec 16 := layerEntry (a.key, a.color)

/-- A background shows when it is a candidate that is visible. -/
theorem mem_shown_bg {e : ℕ × BitVec 16} :
    (∃ c ∈ bgOrder bg01 bg23, bgVisible (winMask x) x c = true ∧ layerEntry (bgLayer x c) = e) ↔
      ∃ bg : Fin 4, ((bgSlot bg01 bg23 bg).1.active (bgSlot bg01 bg23 bg).2 = true ∧
        ((bgSlot bg01 bg23 bg).1.prio (bgSlot bg01 bg23 bg).2).toNat < 4 ∧
        winMask x &&& (1#8 <<< bg.1) ≠ 0 ∧
        (bgSlot bg01 bg23 bg).1.bg (bgSlot bg01 bg23 bg).2 x &&& 0x8000 ≠ 0) ∧
      layerEntry (bgKey ((bgSlot bg01 bg23 bg).1.prio (bgSlot bg01 bg23 bg).2) bg,
        (bgSlot bg01 bg23 bg).1.bg (bgSlot bg01 bg23 bg).2 x &&& 0x7FFF) = e := by
  constructor
  · rintro ⟨c, hc, hvisible, rfl⟩
    obtain ⟨prio, hprio, bg, ⟨hactive, hbg⟩, rfl⟩ := mem_bgOrder.1 hc
    rw [bgVisible, opaquePixel, Bool.and_eq_true, decide_eq_true_eq, decide_eq_true_eq] at hvisible
    refine ⟨bg, ⟨hactive, ?_, hvisible⟩, ?_⟩
    · rw [hbg, BitVec.toNat_ofNat]
      omega
    · rw [hbg]
      rfl
  · rintro ⟨bg, ⟨hactive, hprio, hvisible⟩, rfl⟩
    have hbg : (bgSlot bg01 bg23 bg).1.prio (bgSlot bg01 bg23 bg).2
        = BitVec.ofNat 16 ((bgSlot bg01 bg23 bg).1.prio (bgSlot bg01 bg23 bg).2).toNat := by
      rw [BitVec.ofNat_toNat, BitVec.setWidth_eq]
    refine ⟨_, mem_bgOrder.2 ⟨_, hprio, bg, ⟨hactive, hbg⟩, rfl⟩, ?_, ?_⟩
    · rw [bgVisible, opaquePixel, Bool.and_eq_true, decide_eq_true_eq, decide_eq_true_eq]
      exact hvisible
    · rw [bgLayer, ← hbg]

/-- The shown layers are those that the walk takes. -/
theorem shownLayers_perm :
    ((shownLayers bg01 bg23 obj winMask x).map ShownLayer.entry).Perm
      ((lineLayers bg01 bg23 obj winMask x).map layerEntry) := by
  have hprio : ∀ c ∈ bgOrder bg01 bg23, c.prio.toNat < 4 := fun c hc => prio_lt_of_mem_bgOrder hc
  have hshown : ((shownLayers bg01 bg23 obj winMask x).map ShownLayer.entry).Nodup := by
    refine List.pairwise_map.2
      ((shownLayers_pairwise bg01 bg23 obj winMask x).imp_of_mem fun {a b} ha hb hlt heq => ?_)
    obtain ⟨hakey, harank⟩ := key_of_mem_shownLayers bg01 bg23 obj winMask x ha
    obtain ⟨hbkey, hbrank⟩ := key_of_mem_shownLayers bg01 bg23 obj winMask x hb
    have hkey : a.key.toNat = b.key.toNat := congrArg Prod.fst heq
    omega
  have hwalk : ((lineLayers bg01 bg23 obj winMask x).map layerEntry).Nodup := by
    refine List.pairwise_map.2
      ((walkLayers_pairwise obj (winMask x) x hprio (bgOrder_pairwise _ _) _).imp fun hlt heq => ?_)
    exact hlt.ne (congrArg Prod.fst heq)
  refine (List.perm_ext_iff_of_nodup hshown hwalk).2 fun e => ?_
  rw [((walkLayers_perm obj (winMask x) x (bgOrder bg01 bg23) _).map layerEntry).mem_iff,
    shownLayers, visibleLayers, List.map_append, List.map_append, List.mem_append, List.mem_append]
  refine or_congr ?_ ?_
  · have hshow : (winMask x &&& 0x10 ≠ 0 ∧ obj.color x &&& 0x8000 ≠ 0) ↔
        objVisible obj (winMask x) x = true := by
      rw [objVisible, opaquePixel, Bool.and_eq_true, decide_eq_true_eq, decide_eq_true_eq]
    rw [if_congr hshow rfl rfl]
    split <;> exact Iff.rfl
  · have hbgs := mem_shown_bg bg01 bg23 winMask x (e := e)
    simp only [List.mem_map, List.mem_filterMap, List.mem_finRange, true_and, List.mem_filter,
      Option.ite_none_right_eq_some, Option.some.injEq]
    constructor
    · rintro ⟨a, ⟨bg, hbg, rfl⟩, rfl⟩
      obtain ⟨c, hc, hvisible, he⟩ := hbgs.2 ⟨bg, hbg, rfl⟩
      exact ⟨_, ⟨c, ⟨hc, hvisible⟩, rfl⟩, he⟩
    · rintro ⟨-, ⟨c, ⟨hc, hvisible⟩, rfl⟩, rfl⟩
      obtain ⟨bg, hbg, he⟩ := hbgs.1 ⟨c, hc, hvisible, rfl⟩
      exact ⟨_, ⟨bg, hbg, rfl⟩, he⟩

/-- **The walk picks the layer in front and the one behind it.** -/
theorem walk_eq_frontLayers :
    walk obj (winMask x) x (bgOrder bg01 bg23) (objVisible obj (winMask x) x) none
      = frontLayers bg01 bg23 obj winMask x := by
  have htrans : ∀ a b c : ShownLayer, a.inFront b → b.inFront c → a.inFront c := by
    intro a b c hab hbc
    simp only [ShownLayer.inFront, Bool.or_eq_true, Bool.and_eq_true, decide_eq_true_eq] at *
    omega
  have htotal : ∀ a b : ShownLayer, (a.inFront b || b.inFront a) = true := by
    intro a b
    simp only [ShownLayer.inFront, Bool.or_eq_true, Bool.and_eq_true, decide_eq_true_eq]
    omega
  set l := (shownLayers bg01 bg23 obj winMask x).mergeSort ShownLayer.inFront with hl
  have hperm : l.Perm (shownLayers bg01 bg23 obj winMask x) := List.mergeSort_perm _ _
  have hfront : l.Pairwise fun a b => a.inFront b = true := List.pairwise_mergeSort htrans htotal _
  have hranks : l.Pairwise fun a b => a.rank ≠ b.rank :=
    (hperm.pairwise_iff fun h => h.symm).2
      ((shownLayers_pairwise bg01 bg23 obj winMask x).imp fun hlt => hlt.ne)
  have hsorted : (l.map ShownLayer.entry).Pairwise fun e e' => e.1 < e'.1 := by
    refine List.pairwise_map.2 ((hfront.and hranks).imp_of_mem fun {a b} ha hb h => ?_)
    obtain ⟨hakey, harank⟩ := key_of_mem_shownLayers bg01 bg23 obj winMask x (hperm.mem_iff.1 ha)
    obtain ⟨hbkey, hbrank⟩ := key_of_mem_shownLayers bg01 bg23 obj winMask x (hperm.mem_iff.1 hb)
    obtain ⟨hfront, hne⟩ := h
    simp only [ShownLayer.inFront, Bool.or_eq_true, Bool.and_eq_true, decide_eq_true_eq] at hfront
    show a.key.toNat < b.key.toNat
    omega
  apply LayerPick.toTopTwo_injective
  have hlayers := (hperm.map ShownLayer.entry).trans (shownLayers_perm bg01 bg23 obj winMask x)
  rw [walk_eq, ← foldl_push_lineLayers bg01 bg23 obj winMask x hlayers,
    TopTwo.foldl_push_of_sorted hsorted fun e he => lt_noEntry (hlayers.mem_iff.1 he),
    frontLayers, ← hl]
  rcases l with _ | ⟨a, _ | ⟨b, l⟩⟩ <;> rfl

end Reference

/-! ## Lines that cannot blend -/

theorem selectLayersNeon_pick (cs : List BgCandidate) (obj : ObjLine)
    (winMask : PixelLine (BitVec 8)) (sel : Selection) (x : Fin DISPLAY_WIDTH) :
    (selectLayersNeon cs obj winMask sel).pick x = selectLane cs obj winMask x := by
  simp only [selectLayersNeon, Selection.pick, storeLanes_eq]

/-- The layer of a key, by its number. -/
theorem keyLayer_eq (key : BitVec 16) : keyLayer key =
    if key.toNat = 0xFFFF then LAYER_BACKDROP
    else if key.toNat % 16 = 0 then LAYER_OBJ else key.toNat % 16 - 1 := by
  have hlow : (key &&& 0xF).toNat = key.toNat % 16 := by
    rw [BitVec.toNat_and]
    exact Nat.and_two_pow_sub_one_eq_mod key.toNat 4
  have hnone : key = KEY_NONE ↔ key.toNat = 0xFFFF :=
    ⟨fun h => by rw [h]; rfl, fun h => BitVec.eq_of_toNat_eq h⟩
  have hzero : key &&& 0xF = 0 ↔ key.toNat % 16 = 0 := by
    rw [← hlow]
    exact ⟨fun h => by rw [h]; rfl, fun h => BitVec.eq_of_toNat_eq h⟩
  rw [keyLayer, if_congr hnone rfl (if_congr hzero rfl rfl), hlow]

section NoBlend

variable {bg01 bg23 : BgHalf} {obj : ObjLine} {winMask : PixelLine (BitVec 8)}
  {x : Fin DISPLAY_WIDTH}

/-- The layer of a key that is selected: the objects' only when the object shows. -/
theorem keyLayer_of_mem {layer : BitVec 16 × BitVec 16}
    (h : layer ∈ lineLayers bg01 bg23 obj winMask x) :
    keyLayer layer.1 ≤ 4 ∧
      (keyLayer layer.1 = LAYER_OBJ → objVisible obj (winMask x) x = true) := by
  rw [keyLayer_eq]
  rcases mem_walkLayers obj (winMask x) x h with ⟨hvisible, rfl⟩ | ⟨c, hc, rfl⟩
  · have hkey : (objLayer obj x).1.toNat = 16 * (obj.prio x).toNat := toNat_objKey _
    have hlt := (obj.prio x).isLt
    rw [hkey, if_neg (by omega), if_pos (by omega)]
    exact ⟨le_rfl, fun _ => hvisible⟩
  · have hprio := prio_lt_of_mem_bgOrder hc
    have hbg := c.bg.isLt
    have hkey : (bgLayer x c).1.toNat = 16 * c.prio.toNat + c.bg + 1 := toNat_bgKey hprio c.bg
    rw [hkey, if_neg (by omega), if_neg (by omega)]
    refine ⟨by omega, fun hobj => ?_⟩
    rw [LAYER_OBJ] at hobj
    omega

/-- The layers of a selection: one of the objects on top shows. -/
theorem keyLayer_selectLane :
    keyLayer (selectLane (bgOrder bg01 bg23) obj winMask x).bottomKey ≤ 5 ∧
      (keyLayer (selectLane (bgOrder bg01 bg23) obj winMask x).topKey = LAYER_OBJ →
        objVisible obj (winMask x) x = true) := by
  have hnone : keyLayer KEY_NONE = 5 := rfl
  have hpick : selectLane (bgOrder bg01 bg23) obj winMask x
      = firstTwoOf none (lineLayers bg01 bg23 obj winMask x) := by
    rw [selectLane_eq, walk_eq]
  rw [hpick]
  have hmem := @keyLayer_of_mem bg01 bg23 obj winMask x
  generalize lineLayers bg01 bg23 obj winMask x = layers at hmem ⊢
  rcases layers with _ | ⟨layer, _ | ⟨layer', layers⟩⟩
  · exact ⟨hnone.le, fun h => absurd (hnone.symm.trans h) (by decide)⟩
  · exact ⟨hnone.le, (hmem List.mem_cons_self).2⟩
  · exact ⟨(hmem (List.mem_cons_of_mem _ List.mem_cons_self)).1.trans (Nat.le_succ 4),
      (hmem List.mem_cons_self).2⟩

/-- Whether every semi-transparent pixel of the objects has been noted. -/
def ObjLayer.NotesSemi (objs : ObjLayer) : Prop :=
  ∀ x, opaquePixel (objs.obj.color x) = true → objs.obj.semi x ≠ 0 → objs.anySemi = true

/-- No second target is armed. -/
theorem isTarget_eq_false {bldCnt : BitVec 16} (h : bldCnt &&& 0x3F00 = 0) {layer : ℕ}
    (hlayer : layer ≤ 5) : isTarget bldCnt 8 layer = false := by
  have hbit : (1#16 <<< (8 + layer)) = 0x3F00#16 &&& (1#16 <<< (8 + layer)) := by
    interval_cases layer <;> rfl
  have hand : bldCnt &&& (1#16 <<< (8 + layer)) = 0 := by
    rw [hbit, ← BitVec.and_assoc]
    show (bldCnt &&& 0x3F00) &&& (1#16 <<< (8 + layer)) = 0
    rw [h, BitVec.ofNat_eq_ofNat, BitVec.zero_and]
  rw [isTarget, hand]
  rfl

/-- **The path without blending** writes what the general loop would write. -/
theorem topToAbgr_eq_blendLine {objs : ObjLayer} (hsemi : objs.NotesSemi)
    (hno : noBlend objs = true) (sel : Selection) (fbLine : PixelLine (BitVec 32)) :
    topToAbgr (selectLayersNeon (bgOrder bg01 bg23) objs.obj objs.winMask sel) objs.backdrop fbLine
      = blendLine objs (selectLayersNeon (bgOrder bg01 bg23) objs.obj objs.winMask sel)
          fbLine := by
  obtain ⟨hmode, hno⟩ := Bool.and_eq_true_iff.1 hno
  have hmode : bldMode objs.bldCnt = 0 := of_decide_eq_true hmode
  rw [topToAbgr, blendLine]
  congr 1
  funext x
  have hpick := selectLayersNeon_pick (bgOrder bg01 bg23) objs.obj objs.winMask sel x
  generalize selectLayersNeon (bgOrder bg01 bg23) objs.obj objs.winMask sel = sel at hpick ⊢
  obtain ⟨hbottom, htop⟩ := @keyLayer_selectLane bg01 bg23 objs.obj objs.winMask x
  rw [← hpick] at hbottom htop
  have hblend : ¬ ((keyLayer (sel.topKey x) = LAYER_OBJ ∧ objs.obj.semi x ≠ 0) ∧
      isTarget objs.bldCnt 8 (keyLayer (sel.bottomKey x)) = true ∧
        objs.winMask x &&& 0x20 ≠ 0) := by
    rintro ⟨⟨hobj, hx⟩, htarget, -⟩
    rcases Bool.or_eq_true_iff.1 hno with h | h
    · have hvisible := (Bool.and_eq_true_iff.1 (htop hobj)).2
      rw [hsemi x hvisible hx] at h
      exact Bool.false_ne_true h
    · have hfalse : isTarget objs.bldCnt 8 (keyLayer (sel.bottomKey x)) = false :=
        isTarget_eq_false (of_decide_eq_true h) hbottom
      rw [hfalse] at htarget
      exact Bool.false_ne_true htarget
  have halpha : ¬ ((0 : BitVec 16) = 1 ∧
      isTarget objs.bldCnt 8 (keyLayer (sel.bottomKey x)) = true) :=
    fun h => absurd h.1 (by decide)
  have hup : ¬ (0 : BitVec 16) = 2 := by decide
  have hdown : ¬ (0 : BitVec 16) = 3 := by decide
  simp only [composePixel]
  rw [if_neg hblend, vceq, vbsl_ite, hmode, if_neg halpha, if_neg hup, if_neg hdown, ite_self]

end NoBlend

end AdvancedSlop
