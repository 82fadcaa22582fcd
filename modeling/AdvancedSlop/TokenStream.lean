/-
# Streams of tokens

A compressed stream is a sequence of tokens: literal bytes, and copies of what has been put out
already.  A decoder puts the bytes into places of a memory, one after the other.

* `Token`, `Token.emit`, `expand` : the tokens, and what a number of them puts out;
* `Shortest` : the shortest prefix of a sequence that reaches a size;
* `placeBytes` : a memory with the bytes of an output in their places.
-/
import Mathlib.Data.List.Basic
import Mathlib.Order.Basic
import Mathlib.Logic.Function.Basic
import Mathlib.Tactic

namespace TokenStream

/-! ## Tokens -/

/-- A token: literal bytes, or a copy of what was put out, `distance` bytes back. -/
inductive Token (α : Type*) where
  | literals (bytes : List α)
  | copy (distance length : ℕ)

variable {α : Type*}

/-- The bytes of a token. -/
def Token.length : Token α → ℕ
  | .literals bytes => bytes.length
  | .copy _ length => length

/-- A copy, byte by byte: it may read what it has put out itself. -/
def copyBack (distance : ℕ) : ℕ → List α → List α
  | 0, out => out
  | n + 1, out => copyBack distance n (out ++ out[out.length - distance]?.toList)

/-- What a token puts out, behind what was put out before. -/
def Token.emit (out : List α) : Token α → List α
  | .literals bytes => out ++ bytes
  | .copy distance length => copyBack distance length out

/-- A token that does not reach before the start of the output. -/
def Token.Reaches (out : List α) : Token α → Prop
  | .literals _ => True
  | .copy distance _ => 0 < distance ∧ distance ≤ out.length

/-- What the first tokens of a sequence put out. -/
def expand (token : ℕ → Token α) : ℕ → List α
  | 0 => []
  | n + 1 => (token n).emit (expand token n)

theorem length_copyBack {distance : ℕ} (hpos : 0 < distance) (n : ℕ) {out : List α}
    (h : distance ≤ out.length) : (copyBack distance n out).length = out.length + n := by
  induction n generalizing out with
  | zero => rfl
  | succ n ih =>
      have hlength : (out ++ out[out.length - distance]?.toList).length = out.length + 1 := by
        rw [List.getElem?_eq_getElem (by omega), List.length_append]
        rfl
      rw [copyBack, ih (by omega), hlength]
      omega

/-- A token that reaches no further than the output puts out its bytes. -/
theorem Token.length_emit {out : List α} {token : Token α} (h : token.Reaches out) :
    (token.emit out).length = out.length + token.length := by
  cases token with
  | literals bytes => exact List.length_append
  | copy distance length => exact length_copyBack h.1 length h.2

/-- What was put out stays. -/
theorem prefix_copyBack (distance n : ℕ) (out : List α) : out <+: copyBack distance n out := by
  induction n generalizing out with
  | zero => exact List.prefix_rfl
  | succ n ih => exact (List.prefix_append _ _).trans (ih _)

theorem Token.prefix_emit (token : Token α) (out : List α) : out <+: token.emit out := by
  cases token with
  | literals bytes => exact List.prefix_append _ _
  | copy distance length => exact prefix_copyBack distance length out

theorem expand_take (token : ℕ → Token α) {k n : ℕ} (h : k ≤ n) :
    expand token k <+: expand token n := by
  induction n with
  | zero =>
      obtain rfl := Nat.le_zero.1 h
      exact List.prefix_rfl
  | succ n ih =>
      rcases Nat.le_succ_iff.1 h with hk | rfl
      · exact (ih hk).trans (Token.prefix_emit _ _)
      · exact List.prefix_rfl

/-! ## The shortest prefix -/

/-- **The shortest prefix** of a sequence of tokens that puts out a size. -/
structure Shortest (token : ℕ → Token α) (size n : ℕ) : Prop where
  reaches : size ≤ (expand token n).length
  shortest : ∀ k < n, (expand token k).length < size

/-- Tokens that are not empty put out at least a byte each. -/
theorem le_length_expand {token : ℕ → Token α} (hpos : ∀ k, 0 < (token k).length) {n : ℕ}
    (hreaches : ∀ k < n, (token k).Reaches (expand token k)) :
    n ≤ (expand token n).length := by
  induction n with
  | zero => exact Nat.zero_le _
  | succ n ih =>
      have hn := ih fun k hk => hreaches k (hk.trans (Nat.lt_succ_self n))
      have hemit := (token n).length_emit (hreaches n (Nat.lt_succ_self n))
      have hone := hpos n
      rw [expand]
      omega

/-- A sequence of tokens that are not empty has a shortest prefix. -/
theorem exists_shortest {token : ℕ → Token α} (hpos : ∀ k, 0 < (token k).length)
    (hreaches : ∀ k, (token k).Reaches (expand token k)) (size : ℕ) :
    ∃ n, Shortest token size n := by
  have hexists : ∃ n, size ≤ (expand token n).length :=
    ⟨size, le_length_expand hpos fun k _ => hreaches k⟩
  classical
  exact ⟨Nat.find hexists, Nat.find_spec hexists, fun k hk => not_le.1 (Nat.find_min hexists hk)⟩

/-! ## The places of the bytes -/

/-- A memory with the bytes of an output in their places, the later ones over the earlier. -/
def placeBytes (site : ℕ → ℕ) (mem : ℕ → α) (out : List α) : ℕ → α :=
  out.zipIdx.foldl (fun mem byte => Function.update mem (site byte.2) byte.1) mem

variable {site : ℕ → ℕ} {mem : ℕ → α}

@[simp] theorem placeBytes_nil : placeBytes site mem [] = mem := rfl

theorem placeBytes_snoc (out : List α) (byte : α) :
    placeBytes site mem (out ++ [byte]) =
      Function.update (placeBytes site mem out) (site out.length) byte := by
  rw [placeBytes, List.zipIdx_append, List.foldl_append, List.zipIdx_singleton, Nat.zero_add]
  rfl

/-- A byte in none of the places stays. -/
theorem placeBytes_of_ne {out : List α} {a : ℕ} (h : ∀ j < out.length, site j ≠ a) :
    placeBytes site mem out a = mem a := by
  induction out using List.reverseRecOn with
  | nil => rfl
  | append_singleton out byte ih =>
      rw [List.length_append, List.length_singleton] at h
      rw [placeBytes_snoc, Function.update_of_ne (h _ (Nat.lt_succ_self _)).symm]
      exact ih fun j hj => h j (hj.trans (Nat.lt_succ_self _))

/-- **A byte in its place**, where no later one has the place. -/
theorem placeBytes_site {out : List α} {i : ℕ} {byte : α} (hbyte : out[i]? = some byte)
    (h : ∀ j, i < j → j < out.length → site j ≠ site i) :
    placeBytes site mem out (site i) = byte := by
  induction out using List.reverseRecOn with
  | nil => exact absurd hbyte.symm (Option.some_ne_none byte)
  | append_singleton out last ih =>
      rw [List.length_append, List.length_singleton] at h
      rw [placeBytes_snoc]
      rcases lt_trichotomy i out.length with hi | rfl | hi
      · rw [Function.update_of_ne (h _ hi (Nat.lt_succ_self _)).symm]
        rw [List.getElem?_append_left hi] at hbyte
        exact ih hbyte fun j hij hj => h j hij (hj.trans (Nat.lt_succ_self _))
      · rw [List.getElem?_concat_length] at hbyte
        rw [Function.update_self, Option.some.inj hbyte]
      · have hnone : (out ++ [last]).length ≤ i := by
          rw [List.length_append, List.length_singleton]
          omega
        rw [List.getElem?_eq_none hnone] at hbyte
        exact absurd hbyte.symm (Option.some_ne_none byte)

end TokenStream
