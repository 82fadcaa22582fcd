/-
# Indexed loops

Loops over the indices of a slice: each round reads or writes the element of its index and goes on
from the state the round before left.  A write may fail.

* `readEach`, `writeEach`, `copyEach` : the loops;
* `readEach_congr`, `writeEach_congr` : two loops agree when their rounds do, under an invariant;
* `writeEach_induction`, `writeEach_invariant` : what every round preserves, the loop preserves;
* `copyEach_eq_batch` : a copy reads everything first when its writes move over its later reads.
-/
import Mathlib.Tactic

namespace IndexedLoop

variable {σ α : Type*}

/-- Reads `n` elements from an index on. -/
def readEach (read : ℕ → σ → α × σ) : ℕ → ℕ → σ → List α × σ
  | _, 0, s => ([], s)
  | i, n + 1, s =>
      let first := read i s
      let rest := readEach read (i + 1) n first.2
      (first.1 :: rest.1, rest.2)

/-- Writes the elements of a list from an index on. -/
def writeEach (write : ℕ → α → σ → Option σ) : ℕ → List α → σ → Option σ
  | _, [], s => some s
  | i, value :: values, s => (write i value s).bind (writeEach write (i + 1) values)

/-- Reads an element and writes it, from an index on. -/
def copyEach (read : ℕ → σ → α × σ) (write : ℕ → α → σ → Option σ) : ℕ → ℕ → σ → Option σ
  | _, 0, s => some s
  | i, n + 1, s => (write i (read i s).1 (read i s).2).bind (copyEach read write (i + 1) n)

/-! ## Writing -/

section Write

variable {write write' : ℕ → α → σ → Option σ} {I : σ → Prop}

/-- **Induction** over the rounds of a loop. -/
theorem writeEach_induction {P : ℕ → σ → Prop} {i : ℕ} {values : List α} {s t : σ}
    (hP : ∀ j value s t, i ≤ j → j < i + values.length → value ∈ values → P j s →
      write j value s = some t → P (j + 1) t)
    (hs : P i s) (h : writeEach write i values s = some t) : P (i + values.length) t := by
  induction values generalizing i s with
  | nil =>
      obtain rfl := Option.some.inj h
      exact hs
  | cons value values ih =>
      rw [List.length_cons] at hP ⊢
      obtain ⟨u, hu, hrest⟩ := Option.bind_eq_some_iff.mp h
      have hfirst := hP i value s u le_rfl (by omega) List.mem_cons_self hs hu
      have hlast := ih (fun j v s t hij hj hv => hP j v s t (by omega) (by omega)
        (List.mem_cons_of_mem _ hv)) hfirst hrest
      rwa [Nat.add_right_comm, Nat.add_assoc] at hlast

/-- What every round preserves, the loop preserves. -/
theorem writeEach_invariant (hI : ∀ i value s t, I s → write i value s = some t → I t) {i : ℕ}
    {values : List α} {s t : σ} (hs : I s) (h : writeEach write i values s = some t) : I t :=
  writeEach_induction (P := fun _ => I) (fun j value s t _ _ _ => hI j value s t) hs h

/-- **Two loops** agree when their rounds agree wherever the invariant holds. -/
theorem writeEach_congr (hI : ∀ i value s t, I s → write i value s = some t → I t) {i : ℕ}
    {values : List α}
    (h : ∀ j, i ≤ j → j < i + values.length → ∀ value s, I s →
      write j value s = write' j value s) {s : σ} (hs : I s) :
    writeEach write i values s = writeEach write' i values s := by
  induction values generalizing i s with
  | nil => rfl
  | cons value values ih =>
      rw [List.length_cons] at h
      rw [writeEach, writeEach, ← h i le_rfl (by omega) value s hs]
      cases hu : write i value s with
      | none => rfl
      | some u =>
          exact ih (fun j hij hj => h j (by omega) (by omega)) (hI _ _ _ _ hs hu)

/-- A loop that finds its values as it goes writes a list of them. -/
theorem exists_values (write : ℕ → α → σ → Option σ) (value : ℕ → σ → α) (i n : ℕ) (s : σ) :
    ∃ values : List α, values.length = n ∧
      writeEach (fun j (_ : Unit) s => write j (value j s) s) i (List.replicate n ()) s =
        writeEach write i values s := by
  induction n generalizing i s with
  | zero => exact ⟨[], rfl, rfl⟩
  | succ n ih =>
      cases hu : write i (value i s) s with
      | none =>
          refine ⟨List.replicate (n + 1) (value i s), List.length_replicate .., ?_⟩
          rw [List.replicate_succ, List.replicate_succ, writeEach, writeEach, hu]
          rfl
      | some u =>
          obtain ⟨values, hlength, hrest⟩ := ih (i + 1) u
          refine ⟨value i s :: values, by rw [List.length_cons, hlength], ?_⟩
          rw [List.replicate_succ, writeEach, writeEach, hu, Option.bind_some, Option.bind_some, hrest]

/-- A loop whose rounds succeed succeeds. -/
theorem writeEach_isSome (hI : ∀ i value s, I s → ∃ t, write i value s = some t ∧ I t) {i : ℕ}
    {values : List α} {s : σ} (hs : I s) : ∃ t, writeEach write i values s = some t ∧ I t := by
  induction values generalizing i s with
  | nil => exact ⟨s, rfl, hs⟩
  | cons value values ih =>
      obtain ⟨u, hu, hIu⟩ := hI i value s hs
      obtain ⟨t, ht, hIt⟩ := ih (i := i + 1) hIu
      exact ⟨t, by rw [writeEach, hu, Option.bind_some, ht], hIt⟩

/-- A loop in two parts. -/
theorem writeEach_append (i : ℕ) (values values' : List α) (s : σ) :
    writeEach write i (values ++ values') s =
      (writeEach write i values s).bind (writeEach write (i + values.length) values') := by
  induction values generalizing i s with
  | nil => rfl
  | cons value values ih =>
      rw [List.cons_append, writeEach, writeEach, Option.bind_assoc]
      apply Option.bind_congr
      intro u _
      rw [ih, List.length_cons, Nat.add_right_comm, Nat.add_assoc]

end Write

/-! ## Reading -/

section Read

variable {read read' : ℕ → σ → α × σ} {I : σ → Prop}

/-- A loop reads as many elements as it has rounds. -/
theorem length_readEach (read : ℕ → σ → α × σ) (i n : ℕ) (s : σ) :
    (readEach read i n s).1.length = n := by
  induction n generalizing i s with
  | zero => rfl
  | succ n ih => rw [readEach, List.length_cons, ih]

/-- What every round preserves, the loop preserves. -/
theorem readEach_invariant (hI : ∀ i s, I s → I (read i s).2) {i n : ℕ} {s : σ} (hs : I s) :
    I (readEach read i n s).2 := by
  induction n generalizing i s with
  | zero => exact hs
  | succ n ih => exact ih (hI i s hs)

/-- **Two loops** agree when their rounds agree wherever the invariant holds. -/
theorem readEach_congr (hI : ∀ i s, I s → I (read i s).2) {i n : ℕ}
    (h : ∀ j, i ≤ j → j < i + n → ∀ s, I s → read j s = read' j s) {s : σ} (hs : I s) :
    readEach read i n s = readEach read' i n s := by
  induction n generalizing i s with
  | zero => rfl
  | succ n ih =>
      rw [readEach, readEach, ← h i le_rfl (by omega) s hs,
        ih (fun j hij hj => h j (by omega) (by omega)) (hI i s hs)]

/-- A map of the states that commutes with every round commutes with the loop. -/
theorem readEach_map {f : σ → σ} (h : ∀ i s, (read i (f s)).2 = f (read i s).2) (i n : ℕ) (s : σ) :
    (readEach read i n (f s)).2 = f (readEach read i n s).2 := by
  induction n generalizing i s with
  | zero => rfl
  | succ n ih => rw [readEach, readEach, h, ih]

/-- The element of a round is read in the state the rounds before it left. -/
theorem readEach_getElem? (i n : ℕ) (s : σ) {j : ℕ} (hj : j < n) :
    (readEach read i n s).1[j]? = some (read (i + j) (readEach read i j s).2).1 := by
  induction n generalizing i s j with
  | zero => omega
  | succ n ih =>
      cases j with
      | zero => rfl
      | succ j =>
          rw [readEach, List.getElem?_cons_succ, ih (i + 1) _ (by omega), readEach]
          rw [Nat.add_right_comm, Nat.add_assoc]

/-- The last round of a loop of reads. -/
theorem readEach_succ_state (i n : ℕ) (s : σ) :
    (readEach read i (n + 1) s).2 = (read (i + n) (readEach read i n s).2).2 := by
  induction n generalizing i s with
  | zero => rfl
  | succ n ih =>
      show (readEach read (i + 1) (n + 1) (read i s).2).2 = _
      rw [ih, Nat.add_right_comm, Nat.add_assoc]
      rfl

/-- A loop that leaves the state alone reads its elements independently. -/
theorem readEach_of_pure {value : ℕ → α} {i n : ℕ} {s : σ}
    (h : ∀ j, i ≤ j → j < i + n → read j s = (value j, s)) :
    readEach read i n s = ((List.range n).map fun j => value (i + j), s) := by
  induction n generalizing i with
  | zero => rfl
  | succ n ih =>
      rw [readEach, h i le_rfl (by omega), ih fun j hij hj => h j (by omega) (by omega),
        List.range_succ_eq_map, List.map_cons, List.map_map, Nat.add_zero]
      congr 2
      apply List.map_congr_left
      intro j _
      show value (i + 1 + j) = value (i + (j + 1))
      rw [Nat.add_assoc, Nat.add_comm 1 j]

end Read

/-! ## Copying -/

section Copy

variable {read : ℕ → σ → α × σ} {write : ℕ → α → σ → Option σ}

/-- A write moves over a read: in the other order they give the same value and the same state. -/
def MovesOver (write : α → σ → Option σ) (read : σ → α × σ) (s : σ) : Prop :=
  ∀ value, (write value s).map read = (write value (read s).2).map fun t => ((read s).1, t)

/-- A write that moves over every read of a loop moves over the loop. -/
theorem movesOver_readEach {I : σ → Prop} {write : α → σ → Option σ}
    (hI : ∀ j s, I s → I (read j s).2) {i n : ℕ}
    (h : ∀ j, i ≤ j → j < i + n → ∀ s, I s → MovesOver write (read j) s) {s : σ} (hs : I s)
    (value : α) :
    (write value s).map (readEach read i n) =
      (write value (readEach read i n s).2).map fun t => ((readEach read i n s).1, t) := by
  induction n generalizing i s with
  | zero => rfl
  | succ n ih =>
      have hfirst := h i le_rfl (by omega) s hs value
      have hrest := ih (i := i + 1) (fun j hij hj => h j (by omega) (by omega)) (hI i s hs)
      calc (write value s).map (readEach read i (n + 1))
          = ((write value s).map (read i)).map fun r =>
              (r.1 :: (readEach read (i + 1) n r.2).1, (readEach read (i + 1) n r.2).2) := by
            rw [Option.map_map]
            rfl
        _ = ((write value (read i s).2).map (readEach read (i + 1) n)).map fun r =>
              ((read i s).1 :: r.1, r.2) := by
            rw [hfirst, Option.map_map, Option.map_map]
            rfl
        _ = _ := by
            rw [hrest, Option.map_map]
            rfl

/-- **Induction** over the rounds of a copy. -/
theorem copyEach_induction {P : ℕ → σ → Prop} {i n : ℕ} {s t : σ}
    (hP : ∀ j s t, i ≤ j → j < i + n → P j s → write j (read j s).1 (read j s).2 = some t →
      P (j + 1) t)
    (hs : P i s) (h : copyEach read write i n s = some t) : P (i + n) t := by
  induction n generalizing i s with
  | zero =>
      obtain rfl := Option.some.inj h
      exact hs
  | succ n ih =>
      obtain ⟨u, hu, hrest⟩ := Option.bind_eq_some_iff.mp h
      have hlast := ih (fun j s t hij hj => hP j s t (by omega) (by omega))
        (hP i s u le_rfl (by omega) hs hu) hrest
      rwa [Nat.add_right_comm, Nat.add_assoc] at hlast

/-- The last round of a copy. -/
theorem copyEach_succ (i n : ℕ) (s : σ) :
    copyEach read write i (n + 1) s =
      (copyEach read write i n s).bind fun t =>
        write (i + n) (read (i + n) t).1 (read (i + n) t).2 := by
  induction n generalizing i s with
  | zero =>
      rw [copyEach, copyEach, Option.bind_some, Nat.add_zero]
      cases write i (read i s).1 (read i s).2 <;> rfl
  | succ n ih =>
      rw [copyEach, copyEach, Option.bind_assoc]
      apply Option.bind_congr
      intro t _
      rw [ih, Nat.add_right_comm, Nat.add_assoc]

/-- **A copy** reads everything first when every write moves over the reads after it. -/
theorem copyEach_eq_batch {I : ℕ → σ → Prop} (hread : ∀ i j s, I i s → I i (read j s).2)
    (hwrite : ∀ i value s t, I i s → write i value s = some t → I (i + 1) t) {i n : ℕ}
    (hmove : ∀ j k, i ≤ j → j < k → k < i + n → ∀ s, I j s → MovesOver (write j) (read k) s)
    {s : σ} (hs : I i s) :
    copyEach read write i n s =
      writeEach write i (readEach read i n s).1 (readEach read i n s).2 := by
  induction n generalizing i s with
  | zero => rfl
  | succ n ih =>
      have hu := hread i i s hs
      have hmoves := movesOver_readEach (I := I i) (fun j s => hread i j s)
        (fun j hij hj => hmove i j le_rfl (by omega) (by omega)) hu (i := i + 1) (n := n)
        (read i s).1
      have hrest : ∀ t, write i (read i s).1 (read i s).2 = some t →
          copyEach read write (i + 1) n t =
            writeEach write (i + 1) (readEach read (i + 1) n t).1 (readEach read (i + 1) n t).2 :=
        fun t ht => ih (fun j k hij hjk hk => hmove j k (by omega) hjk (by omega))
          (hwrite i _ _ _ hu ht)
      calc copyEach read write i (n + 1) s
          = ((write i (read i s).1 (read i s).2).map (readEach read (i + 1) n)).bind fun r =>
              writeEach write (i + 1) r.1 r.2 := by
            rw [copyEach, Option.bind_map]
            exact Option.bind_congr hrest
        _ = _ := by
            rw [hmoves, Option.bind_map]
            rfl

/-- A copy whose rounds are those of a loop of its own. -/
theorem copyEach_eq_writeEach {I : ℕ → σ → Prop} {round : ℕ → Unit → σ → Option σ}
    (hI : ∀ j s t, I j s → round j () s = some t → I (j + 1) t) {i n : ℕ}
    (h : ∀ j, i ≤ j → j < i + n → ∀ s, I j s →
      write j (read j s).1 (read j s).2 = round j () s) {s : σ} (hs : I i s) :
    copyEach read write i n s = writeEach round i (List.replicate n ()) s := by
  induction n generalizing i s with
  | zero => rfl
  | succ n ih =>
      rw [copyEach, List.replicate_succ, writeEach, h i le_rfl (by omega) s hs]
      apply Option.bind_congr
      intro t ht
      exact ih (fun j hij hj => h j (by omega) (by omega)) (hI i s t hs ht)

end Copy

end IndexedLoop
