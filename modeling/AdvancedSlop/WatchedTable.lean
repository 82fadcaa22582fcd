/-
# Watched tables

A table holds at most one object in each slot, and an object touches cells.  A cell can be
watched; the table is covered when its objects touch watched cells only, so that whatever
happens in a touched cell is noticed.

* `Erased S table table'` : `table'` is `table` with the slots of `S` emptied; erasures compose
  (`Erased.trans`, `Erased.foldl`);
* `Erased.untouched_iff` : what an erasure has to empty so that no object with a property is left;
* `Covered.erased_iff` : what it has to empty so that the table stays covered when cells lose
  their watch;
* `Covered.stored` : storing an object keeps the table covered when its cells are watched.
-/
import Mathlib.Tactic.ByContra

namespace WatchedTable

variable {Slot Obj Cell α : Type*}

/-! ## Erasing slots -/

/-- `table'` is `table` with the slots of `S` emptied. -/
def Erased (S : Slot → Prop) (table table' : Slot → Option Obj) : Prop :=
  ∀ slot obj, table' slot = some obj ↔ table slot = some obj ∧ ¬ S slot

variable {S S' : Slot → Prop} {table table' table'' : Slot → Option Obj}

/-- A table is itself with no slot emptied. -/
theorem Erased.refl (hS : ∀ slot, ¬ S slot) (table : Slot → Option Obj) : Erased S table table := by
  intro slot obj
  simp [hS slot]

/-- Erasures of equivalent sets of slots agree. -/
theorem Erased.congr (h : Erased S table table') (hS : ∀ slot, S slot ↔ S' slot) :
    Erased S' table table' := by
  intro slot obj
  rw [h slot obj, hS slot]

/-- Erasures compose. -/
theorem Erased.trans (h : Erased S table table') (h' : Erased S' table' table'') :
    Erased (fun slot => S slot ∨ S' slot) table table'' := by
  intro slot obj
  rw [h' slot obj, h slot obj, and_assoc, not_or]

/-- What is left of an erased table was there before. -/
theorem Erased.sub (h : Erased S table table') {slot : Slot} {obj : Obj}
    (hobj : table' slot = some obj) : table slot = some obj :=
  ((h slot obj).mp hobj).1

/-- A loop of erasures empties what one of its rounds empties. -/
theorem Erased.foldl {f : (Slot → Option Obj) → α → Slot → Option Obj} {P : α → Slot → Prop} :
    ∀ (l : List α) (table : Slot → Option Obj),
      (∀ a ∈ l, ∀ table, Erased (P a) table (f table a)) →
      Erased (fun slot => ∃ a ∈ l, P a slot) table (l.foldl f table)
  | [], table, _ => Erased.refl (by simp) table
  | a :: l, table, h => by
      have hhead := h a List.mem_cons_self table
      have htail := Erased.foldl l (f table a) fun b hb => h b (List.mem_cons_of_mem a hb)
      refine (hhead.trans htail).congr fun slot => ?_
      simp

/-- An erasure seen through a partial index into the table. -/
theorem Erased.comap {Key : Type*} (h : Erased S table table') (index : Key → Option Slot) :
    Erased (fun key => ∃ slot, index key = some slot ∧ S slot) (fun key => (index key).bind table)
      fun key => (index key).bind table' := by
  intro key obj
  cases hkey : index key with
  | none => simp [hkey]
  | some slot => simp [hkey, h slot obj]

/-! ## Objects an erasure leaves -/

/-- **What is left.**  No object with the property `T` is left exactly when the erasure empties
every slot that holds one. -/
theorem Erased.untouched_iff (h : Erased S table table') (T : Obj → Prop) :
    (∀ slot obj, table' slot = some obj → ¬ T obj) ↔
      ∀ slot obj, table slot = some obj → T obj → S slot := by
  constructor
  · intro hleft slot obj hobj hT
    by_contra hS
    exact hleft slot obj ((h slot obj).mpr ⟨hobj, hS⟩) hT
  · intro hall slot obj hobj hT
    obtain ⟨hold, hS⟩ := (h slot obj).mp hobj
    exact hS (hall slot obj hold hT)

/-! ## Covered tables -/

/-- Every object of the table touches watched cells only. -/
def Covered (table : Slot → Option Obj) (touches : Obj → Cell → Prop) (watched : Cell → Prop) :
    Prop :=
  ∀ slot obj cell, table slot = some obj → touches obj cell → watched cell

variable {touches : Obj → Cell → Prop} {watched watched' U : Cell → Prop}

/-- **Erasing and unwatching.**  When the cells of `U` lose their watch, a covered table stays
covered exactly when every slot is emptied whose object touches such a cell. -/
theorem Covered.erased_iff (hc : Covered table touches watched) (h : Erased S table table')
    (hw : ∀ cell, watched' cell ↔ watched cell ∧ ¬ U cell) :
    Covered table' touches watched' ↔
      ∀ slot obj, table slot = some obj → (∃ cell, touches obj cell ∧ U cell) → S slot := by
  refine Iff.trans ?_ (h.untouched_iff fun obj => ∃ cell, touches obj cell ∧ U cell)
  constructor
  · rintro hc' slot obj hobj ⟨cell, ht, hU⟩
    exact ((hw cell).mp (hc' slot obj cell hobj ht)).2 hU
  · intro hleft slot obj cell hobj ht
    exact (hw cell).mpr ⟨hc slot obj cell (h.sub hobj) ht,
      fun hU => hleft slot obj hobj ⟨cell, ht, hU⟩⟩

/-- Erasing slots keeps a table covered when no cell loses its watch. -/
theorem Covered.erased (hc : Covered table touches watched) (h : Erased S table table')
    (hw : ∀ cell, watched cell → watched' cell) : Covered table' touches watched' :=
  fun slot obj cell hobj ht => hw cell (hc slot obj cell (h.sub hobj) ht)

/-- **Storing.**  An object whose cells are watched can be stored, whatever it displaces. -/
theorem Covered.stored (hc : Covered table touches watched) (obj : Obj)
    (h : ∀ slot o, table' slot = some o → table slot = some o ∨ o = obj)
    (hw : ∀ cell, watched cell → watched' cell) (hobj : ∀ cell, touches obj cell → watched' cell) :
    Covered table' touches watched' := by
  intro slot o cell ho ht
  rcases h slot o ho with hold | rfl
  · exact hw cell (hc slot o cell hold ht)
  · exact hobj cell ht

end WatchedTable
