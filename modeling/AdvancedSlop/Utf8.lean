/-
# Text as its UTF-8 bytes

* `encode`, `decodeLossy` : the bytes of a text, and the text of any bytes;
* `prefixOf`, `floorCharBoundary` : the text before an index, and the last index before a bound
  at which a text can be cut;
* `longestPrefix` : the text before that index, the longest prefix within the bound;
* `trim` : a text without white space at its ends.
-/
import Mathlib.Data.List.DropRight
import Mathlib.Tactic

namespace Utf8

/-! ## Bytes -/

/-- The bytes of a text. -/
def encode (text : List Char) : List UInt8 := text.flatMap String.utf8EncodeChar

@[simp] theorem encode_nil : encode [] = [] := rfl

@[simp] theorem encode_cons (c : Char) (text : List Char) :
    encode (c :: text) = String.utf8EncodeChar c ++ encode text := rfl

theorem length_encode_cons (c : Char) (text : List Char) :
    (encode (c :: text)).length = c.utf8Size + (encode text).length := by
  rw [encode_cons, List.length_append, String.length_utf8EncodeChar]

/-- The bytes that one replacement character stands for: the start of a sequence up to the first
byte that it cannot have. -/
def maximalSubpart : List UInt8 → Nat
  | [] => 1
  | b :: rest =>
      let tail := fun b : UInt8 => 0x80 ≤ b ∧ b ≤ 0xBF
      let second : UInt8 × UInt8 :=
        if b = 0xE0 then (0xA0, 0xBF) else if b = 0xED then (0x80, 0x9F)
        else if b = 0xF0 then (0x90, 0xBF) else if b = 0xF4 then (0x80, 0x8F) else (0x80, 0xBF)
      match rest with
      | [] => 1
      | b₁ :: rest =>
          if ¬ (0xE0 ≤ b ∧ b ≤ 0xF4 ∧ second.1 ≤ b₁ ∧ b₁ ≤ second.2) then 1
          else match rest with
            | [] => 2
            | b₂ :: _ => if 0xF0 ≤ b ∧ tail b₂ then 3 else 2

/-- `decodeLossy` with a bound on the characters. -/
def decodeChars : Nat → List UInt8 → List Char
  | 0, _ => []
  | _ + 1, [] => []
  | fuel + 1, b :: rest =>
      match (b :: rest).toByteArray.utf8DecodeChar? 0 with
      | some c => c :: decodeChars fuel ((b :: rest).drop c.utf8Size)
      | none => Char.ofNat 0xFFFD :: decodeChars fuel ((b :: rest).drop (maximalSubpart (b :: rest)))

/-- The text of any bytes, with a replacement character where they are not UTF-8. -/
def decodeLossy (bytes : List UInt8) : List Char := decodeChars bytes.length bytes

/-- The first character of the bytes of a text. -/
theorem utf8DecodeChar_encode (c : Char) (rest : List UInt8) :
    (String.utf8EncodeChar c ++ rest).toByteArray.utf8DecodeChar? 0 = some c := by
  rw [List.toByteArray_append]
  exact ByteArray.utf8DecodeChar?_utf8EncodeChar_append

theorem utf8EncodeChar_eq_cons (c : Char) : ∃ b rest, String.utf8EncodeChar c = b :: rest := by
  have hpos := c.utf8Size_pos
  rw [← String.length_utf8EncodeChar] at hpos
  exact List.exists_cons_of_length_pos hpos

theorem decodeChars_encode (text : List Char) {fuel : Nat} (hfuel : text.length ≤ fuel) :
    decodeChars fuel (encode text) = text := by
  induction text generalizing fuel with
  | nil =>
      rw [encode_nil]
      cases fuel <;> rfl
  | cons c text ih =>
      obtain ⟨fuel, rfl⟩ : ∃ k, fuel = k + 1 := ⟨fuel - 1, by rw [List.length_cons] at hfuel; omega⟩
      obtain ⟨b, rest, hbytes⟩ := utf8EncodeChar_eq_cons c
      have hchar := utf8DecodeChar_encode c (encode text)
      have hdrop : (String.utf8EncodeChar c ++ encode text).drop c.utf8Size = encode text := by
        rw [← String.length_utf8EncodeChar, List.drop_left]
      rw [encode_cons]
      rw [hbytes] at hchar hdrop ⊢
      rw [List.cons_append] at hchar hdrop ⊢
      rw [decodeChars, hchar]
      show c :: decodeChars fuel (((b :: (rest ++ encode text))).drop c.utf8Size) = c :: text
      rw [hdrop, ih (by rw [List.length_cons] at hfuel; omega)]

theorem length_le_length_encode (text : List Char) : text.length ≤ (encode text).length := by
  induction text with
  | nil => exact Nat.le_refl 0
  | cons c text ih =>
      have hpos := c.utf8Size_pos
      rw [length_encode_cons, List.length_cons]
      omega

/-- **The round trip** of a text. -/
theorem decodeLossy_encode (text : List Char) : decodeLossy (encode text) = text :=
  decodeChars_encode text (length_le_length_encode text)

/-! ## Cutting -/

/-- The text before an index, where it is between two characters. -/
def prefixOf : List Char → Nat → Option (List Char)
  | _, 0 => some []
  | [], _ + 1 => none
  | c :: text, index + 1 =>
      if c.utf8Size ≤ index + 1 then (prefixOf text (index + 1 - c.utf8Size)).map (c :: ·)
      else none

/-- The last index between two characters, up to a bound. -/
def floorCharBoundary : List Char → Nat → Nat
  | [], _ => 0
  | c :: text, bound =>
      if c.utf8Size ≤ bound then c.utf8Size + floorCharBoundary text (bound - c.utf8Size) else 0

/-- The characters that are within a bound. -/
def longestPrefix : List Char → Nat → List Char
  | [], _ => []
  | c :: text, bound =>
      if c.utf8Size ≤ bound then c :: longestPrefix text (bound - c.utf8Size) else []

/-- **A text can be cut there.** -/
theorem prefixOf_floorCharBoundary (text : List Char) (bound : Nat) :
    prefixOf text (floorCharBoundary text bound) = some (longestPrefix text bound) := by
  induction text generalizing bound with
  | nil => rfl
  | cons c text ih =>
      rw [floorCharBoundary, longestPrefix]
      split_ifs with hc
      · obtain ⟨k, hk⟩ : ∃ k, c.utf8Size + floorCharBoundary text (bound - c.utf8Size) = k + 1 :=
          ⟨c.utf8Size + floorCharBoundary text (bound - c.utf8Size) - 1, by
            have := c.utf8Size_pos
            omega⟩
        rw [hk, prefixOf, ← hk, if_pos (Nat.le_add_right _ _), Nat.add_sub_cancel_left, ih,
          Option.map_some]
      · rfl

theorem longestPrefix_isPrefix (text : List Char) (bound : Nat) :
    longestPrefix text bound <+: text := by
  induction text generalizing bound with
  | nil => exact List.prefix_refl []
  | cons c text ih =>
      rw [longestPrefix]
      split_ifs
      · exact (List.prefix_cons_inj c).mpr (ih _)
      · exact List.nil_prefix

theorem length_longestPrefix (text : List Char) (bound : Nat) :
    (encode (longestPrefix text bound)).length ≤ bound := by
  induction text generalizing bound with
  | nil => exact Nat.zero_le bound
  | cons c text ih =>
      rw [longestPrefix]
      split_ifs with hc
      · have := ih (bound - c.utf8Size)
        rw [length_encode_cons]
        omega
      · exact Nat.zero_le bound

/-- **The longest**: a prefix within the bound is a prefix of it. -/
theorem isPrefix_longestPrefix {text front : List Char} {bound : Nat} (h : front <+: text)
    (hbound : (encode front).length ≤ bound) : front <+: longestPrefix text bound := by
  induction text generalizing front bound with
  | nil => exact h
  | cons c text ih =>
      cases front with
      | nil => exact List.nil_prefix
      | cons d front =>
          obtain ⟨rfl, hfront⟩ := List.cons_prefix_cons.mp h
          rw [length_encode_cons] at hbound
          rw [longestPrefix, if_pos (by omega)]
          exact (List.prefix_cons_inj d).mpr (ih hfront (by omega))

/-- A text within the bound is not cut. -/
theorem longestPrefix_of_le {text : List Char} {bound : Nat} (h : (encode text).length ≤ bound) :
    longestPrefix text bound = text := by
  have hle := (isPrefix_longestPrefix (List.prefix_refl text) h).length_le
  exact (longestPrefix_isPrefix text bound).eq_of_length_le hle

/-! ## White space -/

/-- The white space of Unicode. -/
def isWhitespace (c : Char) : Bool :=
  let code := c.toNat
  (0x9 ≤ code && code ≤ 0xD) || code == 0x20 || code == 0x85 || code == 0xA0 || code == 0x1680 ||
    (0x2000 ≤ code && code ≤ 0x200A) || code == 0x2028 || code == 0x2029 || code == 0x202F ||
    code == 0x205F || code == 0x3000

/-- A text without the white space at its ends. -/
def trim (text : List Char) : List Char := (text.dropWhile isWhitespace).rdropWhile isWhitespace

end Utf8
