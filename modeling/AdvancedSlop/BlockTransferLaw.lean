/-
# Where the two engines transfer the same block

* `popRegs_eq`, `requestRegs_eq` : the bits taken from a reversed list are its registers in order;
* `foldl_loadReg`, `storedReg_eq_requestGet` : the two loops over the registers;
* `tellMem` : a memory that tells any two addresses apart;
* `Good` : when the transfers are the same;
* `block_transfers_law` : the slow path does what the interpreter does, whatever the memory is,
  exactly then;
* `pcStore_differs` : a stored pc.
-/
import AdvancedSlop.BitScan
import AdvancedSlop.BlockTransfer
import AdvancedSlop.MemoryRuns

namespace AdvancedSlop

open IndexedLoop WordMemory

attribute [local instance] neZero_regs

variable {D : Type*}

/-! ## The registers of a list -/

/-- The first number of a filtered range. -/
theorem filter_range_first {n k : Nat} {p : Nat → Bool} (hk : k < n) (hp : p k = true)
    (hfirst : ∀ i < k, p i = false) :
    (List.range n).filter p = k :: (List.range n).filter fun i => p i && decide (i ≠ k) := by
  have hsplit : List.range n = List.range k ++ k :: List.range' (k + 1) (n - k - 1) := by
    have happ := List.range'_append_1 (s := 0) (m := k) (n := n - k - 1 + 1)
    rw [Nat.zero_add] at happ
    rw [List.range_eq_range', List.range_eq_range', ← List.range'_succ, happ]
    congr 1
    omega
  have hnil : ∀ q : Nat → Bool, (∀ i < k, q i = false) → (List.range k).filter q = [] := by
    intro q hq
    refine List.filter_eq_nil_iff.mpr fun i hi => ?_
    rw [hq i (List.mem_range.mp hi)]
    exact Bool.false_ne_true
  rw [hsplit, List.filter_append, List.filter_append, hnil p hfirst,
    hnil (fun i => p i && decide (i ≠ k)) fun i hi => by rw [hfirst i hi, Bool.false_and],
    List.nil_append, List.nil_append, List.filter_cons_of_pos hp, List.filter_cons_of_neg (by simp)]
  congr 1
  refine List.filter_congr fun i hi => ?_
  have hlt := (List.mem_range'_1.mp hi).1
  rw [decide_eq_true (by omega : i ≠ k), Bool.and_true]

/-- A cleared bit. -/
theorem getMsbD_clear (r : BitVec 32) {k i : Nat} (hk : k < 32) (hi : i < 32) :
    (r &&& ~~~((0x80000000 : BitVec 32) >>> k)).getMsbD i = (r.getMsbD i && decide (i ≠ k)) := by
  have hbit : ((0x80000000 : BitVec 32) >>> k).getLsbD (32 - 1 - i) = decide (i = k) := by
    rw [BitVec.getLsbD_ushiftRight]
    have hpow : (0x80000000 : BitVec 32) = BitVec.twoPow 32 31 := by decide
    rw [hpow, BitVec.getLsbD_twoPow]
    simp only [Nat.reduceLT, decide_true, Bool.true_and]
    exact decide_eq_decide.mpr (by omega)
  rw [BitVec.getMsbD_eq_getLsbD, BitVec.getMsbD_eq_getLsbD, BitVec.getLsbD_and, BitVec.getLsbD_not,
    hbit, decide_eq_true hi, decide_eq_true (by omega : 32 - 1 - i < 32)]
  simp

/-- **The loop** visits the bits of a list from the first on. -/
theorem popRegs_eq {n : Nat} {r : BitVec 32}
    (h : n ≤ ((List.range 32).filter fun i => r.getMsbD i).length) :
    popRegs n r = ((List.range 32).filter fun i => r.getMsbD i).take n := by
  induction n generalizing r with
  | zero => rfl
  | succ n ih =>
      have hne : r ≠ 0 := by
        rintro rfl
        have hnil : ((List.range 32).filter fun i => (0 : BitVec 32).getMsbD i) = [] := by decide
        rw [hnil] at h
        exact absurd h (Nat.not_succ_le_zero n)
      obtain ⟨hlt, hbit, hfirst⟩ := BitScan.first_bit hne
      have hstep : ((List.range 32).filter fun i => r.getMsbD i) = r.clz.toNat ::
          (List.range 32).filter fun i =>
            (r &&& ~~~((0x80000000 : BitVec 32) >>> r.clz.toNat)).getMsbD i := by
        rw [filter_range_first hlt hbit hfirst]
        congr 1
        refine List.filter_congr fun i hi => ?_
        exact (getMsbD_clear r hlt (List.mem_range.mp hi)).symm
      rw [hstep, List.length_cons] at h
      rw [hstep, List.take_succ_cons, popRegs, ih (Nat.le_of_succ_le_succ h)]

/-- **The registers of a request** are those of the transfer. -/
theorem requestRegs_eq {t : BlockTransfer} {n : Nat} (h : n ≤ t.count) :
    requestRegs t.regList n = t.regs.take n := by
  have hbits : ((List.range 32).filter fun i => (t.regList.setWidth 32).reverse.getMsbD i) =
      t.regs.map Fin.val := by
    have hreg : ((List.range 32).filter fun i => (t.regList.setWidth 32).reverse.getMsbD i) =
        (List.range 16).filter fun i => t.regList.getLsbD i := by
      have hsplit : List.range 32 = List.range 16 ++ List.range' 16 16 := by decide
      have hhigh : ((List.range' 16 16).filter fun i =>
          (t.regList.setWidth 32).reverse.getMsbD i) = [] := by
        refine List.filter_eq_nil_iff.mpr fun i hi => ?_
        rw [BitVec.getMsbD_reverse, BitVec.getLsbD_setWidth,
          BitVec.getLsbD_of_ge _ _ (List.mem_range'_1.mp hi).1, Bool.and_false]
        exact Bool.false_ne_true
      rw [hsplit, List.filter_append, hhigh, List.append_nil]
      refine List.filter_congr fun i hi => ?_
      have hlt : i < 32 := (List.mem_range.mp hi).trans (by decide)
      rw [BitVec.getMsbD_reverse, BitVec.getLsbD_setWidth, decide_eq_true hlt, Bool.true_and]
    rw [hreg, BlockTransfer.regs, ← List.map_coe_finRange_eq_range, List.filter_map]
    rfl
  rw [requestRegs, popRegs_eq, hbits, ← List.map_take, List.map_map]
  · refine (List.map_congr_left fun i _ => ?_).trans (List.map_id _)
    exact Fin.ext (Nat.mod_eq_of_lt i.isLt)
  · rw [hbits, List.length_map]
    exact h

namespace BlockTransfer

variable {t : BlockTransfer}

theorem mem_regs {i : Fin 16} : i ∈ t.regs ↔ t.regList.getLsbD i = true := by
  rw [regs, List.mem_filter]
  exact and_iff_right (List.mem_finRange i)

theorem nodup_regs (t : BlockTransfer) : t.regs.Nodup := (List.nodup_finRange 16).filter _

theorem count_le (t : BlockTransfer) : t.count ≤ 16 :=
  (List.length_filter_le _ _).trans_eq List.length_finRange

theorem count_pos (h : t.regList ≠ 0) : 0 < t.count := by
  rw [count, List.length_pos_iff]
  intro hnil
  apply h
  apply BitVec.eq_of_getLsbD_eq
  intro i hi
  have hmem : ¬ (⟨i, hi⟩ : Fin 16) ∈ t.regs := by
    rw [hnil]
    exact List.not_mem_nil
  change t.regList.getLsbD i = (0#16).getLsbD i
  rw [BitVec.getLsbD_zero]
  exact Bool.eq_false_iff.mpr fun hbit => hmem (mem_regs.mpr hbit)

/-- Only the full list has sixteen registers. -/
theorem count_lt {i : Fin 16} (h : t.regList.getLsbD i = false) : t.count < 16 := by
  have hlength : (List.finRange 16).length = 16 := List.length_finRange
  rw [count, regs]
  refine Nat.lt_of_lt_of_eq (List.length_filter_lt_length_iff_exists.mpr ?_) hlength
  exact ⟨i, List.mem_finRange i, by rw [h]; exact Bool.false_ne_true⟩

/-- A transfer moves its base. -/
theorem finalBase_ne (h : t.regList ≠ 0) (base : BitVec 32) : t.finalBase base ≠ base := by
  have hpos := count_pos h
  have hle := t.count_le
  unfold finalBase
  split_ifs <;> bv_omega

theorem finalBase_inj {base base' : BitVec 32} (h : t.finalBase base = t.finalBase base') :
    base = base' := by
  unfold finalBase at h
  split_ifs at h
  · exact (BitVec.add_left_inj _).mp h
  · bv_omega

/-- The base of a request is that of the transfer. -/
theorem requestBase_eq (t : BlockTransfer) (base : BitVec 32) :
    requestBase (!t.up) t.count base = t.finalBase base := by
  unfold requestBase finalBase
  cases t.up <;> rfl

/-- **The inverted flag** of a decrement leads to the address of the transfer. -/
theorem requestAddr_eq (t : BlockTransfer) (base : BitVec 32) :
    requestAddr (!t.up) (if t.up then t.pre else !t.pre) t.count base = t.lowestAddr base := by
  unfold requestAddr lowestAddr
  cases t.up <;> cases t.pre <;> simp

/-- The test of the slow path for a base that is not the lowest register. -/
theorem early_iff (h : t.regList.getLsbD t.rn = true) :
    t.regList.toNat &&& (2 ^ (t.rn.val + 1) - 1) > 2 ^ t.rn.val ↔
      t.regList.toNat &&& (2 ^ t.rn.val - 1) ≠ 0 := by
  have hbit : t.regList.toNat / 2 ^ t.rn.val % 2 = 1 := by
    have htest : t.regList.toNat.testBit t.rn.val = true := h
    rwa [Nat.testBit_eq_decide_div_mod_eq, decide_eq_true_iff] at htest
  rw [Nat.and_two_pow_sub_one_eq_mod, Nat.and_two_pow_sub_one_eq_mod, Nat.mod_pow_succ, hbit,
    Nat.mul_one]
  omega

end BlockTransfer

/-! ## The loops over the registers -/

section Loops

open ThreadRegs

variable {banked fiq : Bool} {regs : ThreadRegs} {i j : Fin 16} {value : BitVec 32}
  {l : List (Fin 16 × BitVec 32)}

/-- The loop of the interpreter is that of the slow path. -/
theorem foldl_loadReg (h : ∀ p ∈ l, p.1 ≠ 15) (regs : ThreadRegs) :
    l.foldl (loadReg banked (banked && fiq)) (regs, none) =
      (l.foldl (requestSet banked fiq) regs, none) := by
  induction l generalizing regs with
  | nil => rfl
  | cons p l ih =>
      have hstep : loadReg banked (banked && fiq) (regs, none) p =
          (requestSet banked fiq regs p, none) := by
        have hiff : banked ∧ (p.1 = 13 ∨ p.1 = 14 ∨ (banked && fiq) = true) ↔
            banked ∧ (fiq ∨ p.1 = 13 ∨ p.1 = 14) := by
          cases banked <;> cases fiq <;> simp
        unfold loadReg requestSet
        rw [if_neg (h p List.mem_cons_self), apply_ite (fun r => (r, (none : Option (BitVec 32))))]
        exact if_congr hiff rfl rfl
      rw [List.foldl_cons, List.foldl_cons, hstep]
      exact ih (fun q hq => h q (List.mem_cons_of_mem _ hq)) _

theorem requestGet_requestSet_self (regs : ThreadRegs) (i : Fin 16) (value : BitVec 32) :
    requestGet banked fiq (requestSet banked fiq regs (i, value)) i = value := by
  unfold requestGet requestSet
  by_cases h : banked ∧ (fiq ∨ i = 13 ∨ i = 14)
  · rw [if_pos h, if_pos h]
    exact getRegUsr_setRegUsr_self regs i value
  · rw [if_neg h, if_neg h]
    exact getReg_setReg_self regs i value

theorem requestGet_requestSet_of_ne (h : j ≠ i) (regs : ThreadRegs) (value : BitVec 32) :
    requestGet banked fiq (requestSet banked fiq regs (i, value)) j =
      requestGet banked fiq regs j := by
  unfold requestGet requestSet
  split_ifs
  · exact getRegUsr_setRegUsr_of_ne h regs value
  · exact getRegUsr_setReg_of_ne h regs value
  · exact getReg_setRegUsr_of_ne h regs value
  · exact getReg_setReg_of_ne h regs value

theorem requestGet_setReg_of_ne (h : j ≠ i) (regs : ThreadRegs) (value : BitVec 32) :
    requestGet banked fiq (regs.setReg i value) j = requestGet banked fiq regs j := by
  unfold requestGet
  rw [getRegUsr_setReg_of_ne h, getReg_setReg_of_ne h]

/-- A register that is not in the list. -/
theorem requestGet_foldl_of_ne (h : ∀ p ∈ l, p.1 ≠ i) (regs : ThreadRegs) :
    requestGet banked fiq (l.foldl (requestSet banked fiq) regs) i =
      requestGet banked fiq regs i := by
  induction l generalizing regs with
  | nil => rfl
  | cons p l ih =>
      rw [List.foldl_cons, ih fun q hq => h q (List.mem_cons_of_mem _ hq)]
      exact requestGet_requestSet_of_ne (h p List.mem_cons_self).symm regs p.2

/-- **The loaded words** are in their registers after the loop. -/
theorem map_requestGet_foldl {list : List (Fin 16)} {words : List (BitVec 32)}
    (hnodup : list.Nodup) (hlength : words.length = list.length) (regs : ThreadRegs) :
    list.map (requestGet banked fiq ((list.zip words).foldl (requestSet banked fiq) regs)) =
      words := by
  induction list generalizing words regs with
  | nil => exact (List.length_eq_zero_iff.mp hlength).symm
  | cons i list ih =>
      obtain ⟨word, words, rfl⟩ := List.exists_cons_of_length_eq_add_one hlength
      obtain ⟨hmem, hnodup⟩ := List.nodup_cons.mp hnodup
      have hne : ∀ p ∈ list.zip words, p.1 ≠ i := by
        rintro ⟨j, w⟩ hp rfl
        exact hmem (List.of_mem_zip hp).1
      rw [List.zip_cons_cons, List.foldl_cons, List.map_cons, ih hnodup (Nat.succ.inj hlength),
        requestGet_foldl_of_ne hne, requestGet_requestSet_self]

/-- The registers of the mode, where the loop only reaches the user bank. -/
theorem getReg_foldl (h : ∀ p ∈ l, p.1 = i → banked = true ∧ Banked (fiq = true) i)
    (regs : ThreadRegs) :
    (l.foldl (requestSet banked fiq) regs).getReg i = regs.getReg i := by
  induction l generalizing regs with
  | nil => rfl
  | cons p l ih =>
      rw [List.foldl_cons, ih fun q hq => h q (List.mem_cons_of_mem _ hq)]
      by_cases hi : p.1 = i
      · obtain ⟨hbanked, hbank⟩ := h p List.mem_cons_self hi
        have hhigh : 8 ≤ i.val ∧ i ≠ 15 := by
          rcases hbank with rfl | rfl | hbank
          · decide
          · decide
          · exact ⟨hbank.2.1, fun h15 => absurd (h15 ▸ hbank.2.2) (by decide)⟩
        have hcond : banked ∧ (fiq ∨ p.1 = 13 ∨ p.1 = 14) := by
          rw [hi]
          rcases hbank with h13 | h14 | hbank
          · exact ⟨hbanked, .inr (.inl h13)⟩
          · exact ⟨hbanked, .inr (.inr h14)⟩
          · exact ⟨hbanked, .inl hbank.1⟩
        rw [requestSet, if_pos hcond, hi]
        exact getReg_setRegUsr hhigh.1 hhigh.2
      · unfold requestSet
        split_ifs
        · exact getReg_setRegUsr_of_ne (Ne.symm hi) regs p.2
        · exact getReg_setReg_of_ne (Ne.symm hi) regs p.2

/-- A base outside the list is written before or after the loop. -/
theorem requestSet_setReg (h : j ≠ i) (regs : ThreadRegs) (word : BitVec 32) :
    requestSet banked fiq (regs.setReg i value) (j, word) =
      (requestSet banked fiq regs (j, word)).setReg i value := by
  unfold requestSet
  split_ifs
  · exact setRegUsr_setReg_comm h regs word value
  · exact setReg_comm h.symm regs value word

theorem foldl_requestSet_setReg (h : ∀ p ∈ l, p.1 ≠ i) (regs : ThreadRegs) :
    l.foldl (requestSet banked fiq) (regs.setReg i value) =
      (l.foldl (requestSet banked fiq) regs).setReg i value := by
  induction l generalizing regs with
  | nil => rfl
  | cons p l ih =>
      rw [List.foldl_cons, List.foldl_cons, ← ih fun q hq => h q (List.mem_cons_of_mem _ hq)]
      congr 1
      exact requestSet_setReg (h p List.mem_cons_self) regs p.2

/-- **A base in the list** that the loop writes may hold anything before. -/
theorem foldl_requestSet_absorb (hmem : i ∈ l.map Prod.fst)
    (h : banked = true → ¬ Banked (fiq = true) i) (regs : ThreadRegs) :
    l.foldl (requestSet banked fiq) (regs.setReg i value) =
      l.foldl (requestSet banked fiq) regs := by
  induction l generalizing regs with
  | nil => exact absurd hmem List.not_mem_nil
  | cons p l ih =>
      rw [List.foldl_cons, List.foldl_cons]
      by_cases hi : p.1 = i
      · congr 1
        unfold requestSet
        rw [hi]
        by_cases hcond : banked ∧ (fiq ∨ i = 13 ∨ i = 14)
        · have hnot := h hcond.1
          have hfiq : fiq = true := by
            rcases hcond.2 with hfiq | h13 | h14
            · exact hfiq
            · exact absurd (.inl h13) hnot
            · exact absurd (.inr (.inl h14)) hnot
          have hbank : ¬ Banked True i := by
            rw [hfiq, eq_self] at hnot
            exact hnot
          rw [if_pos hcond, if_pos hcond, setRegUsr_of_not_banked hbank,
            setRegUsr_of_not_banked hbank, setReg_setReg]
        · rw [if_neg hcond, if_neg hcond, setReg_setReg]
      · rw [requestSet_setReg hi]
        rw [List.map_cons, List.mem_cons] at hmem
        exact ih (hmem.resolve_left (Ne.symm hi)) _

end Loops

/-! ## The engines -/

namespace BlockTransfer

/-- The const parameters that the packing code chooses. -/
def handler (t : BlockTransfer) : MultipleHandler :=
  ⟨!t.load, t.wb, !t.up, !t.wb || !t.regList.getLsbD t.rn, t.user && !t.regList.getLsbD 15,
    t.regList.getLsbD 15⟩

/-- The base that the slow path starts from. -/
def slowBase (t : BlockTransfer) (regs : ThreadRegs) : BitVec 32 := regs.getReg t.rn

/-- The base is written before the registers are visited. -/
def Early (t : BlockTransfer) : Prop :=
  t.wb = true ∧ (t.load = true ∨ t.regList.getLsbD t.rn = false ∨
    t.regList.toNat &&& (2 ^ t.rn.val - 1) ≠ 0)

instance (t : BlockTransfer) : Decidable t.Early := inferInstanceAs (Decidable (_ ∧ _))

/-- The registers when they are visited. -/
def earlyRegs (t : BlockTransfer) (regs : ThreadRegs) : ThreadRegs :=
  if t.Early then regs.setReg t.rn (t.finalBase (t.slowBase regs)) else regs

variable {t : BlockTransfer} {instAddr : BitVec 32} {regs : ThreadRegs}

theorem requestEarly_eq (t : BlockTransfer) (regs : ThreadRegs) :
    requestEarly t.handler t.regList t.count t.rn regs = t.earlyRegs regs := by
  have hiff : (t.handler.writeBack = true ∧ (¬ t.handler.write = true ∨ t.handler.valid = true ∨
      t.regList.toNat &&& (2 ^ (t.rn.val + 1) - 1) > 2 ^ t.rn.val)) ↔ t.Early := by
    refine and_congr_right fun hwb => ?_
    have hwb' : t.wb = true := hwb
    rw [show t.handler.valid = (!t.wb || !t.regList.getLsbD t.rn) from rfl,
      show t.handler.write = !t.load from rfl, hwb']
    cases hlist : t.regList.getLsbD t.rn
    · simp
    · rw [early_iff hlist]
      simp
  unfold requestEarly earlyRegs
  rw [show t.handler.decrement = !t.up from rfl, requestBase_eq]
  exact if_congr hiff rfl rfl

theorem userBanked_eq (h15 : t.regList.getLsbD 15 = false) (regs : ThreadRegs) :
    t.userBanked regs = (t.user && !regs.isUser) := by
  rw [userBanked, h15, Bool.not_false, Bool.and_true]

theorem ne_fifteen (h15 : t.regList.getLsbD 15 = false) {i : Fin 16} (hi : i ∈ t.regs) :
    i ≠ 15 := by
  rintro rfl
  rw [mem_regs, show ((15 : Fin 16) : Nat) = 15 from rfl, h15] at hi
  cases hi

theorem zip_ne_fifteen (h15 : t.regList.getLsbD 15 = false) (words : List (BitVec 32)) :
    ∀ p ∈ t.regs.zip words, p.1 ≠ 15 :=
  fun _ hp => ne_fifteen h15 (List.of_mem_zip hp).1

end BlockTransfer

section Engines

open BlockTransfer ThreadRegs

variable (dev : MemDevices D) {u4New : Nat → Option (BitVec 4)} {t : BlockTransfer}
  {instAddr : BitVec 32} {g : GuestState D}

theorem memReadMultipleSlice_congr {shmMemory : Bool} {width : MemWidth} {addr addr' : Nat}
    (h : alignedAddr width addr = alignedAddr width addr') (n : Nat) (s : GuestMem D) :
    memReadMultipleSlice dev shmMemory width addr n s =
      memReadMultipleSlice dev shmMemory width addr' n s := by
  unfold memReadMultipleSlice
  rw [h]

theorem memWriteMultipleSlice_congr {width : MemWidth} {addr addr' : Nat}
    (h : alignedAddr width addr = alignedAddr width addr') (words : List width.Value)
    (s : GuestMem D) :
    memWriteMultipleSlice dev width addr words s =
      memWriteMultipleSlice dev width addr' words s := by
  unfold memWriteMultipleSlice
  rw [h]

/-- The read of a request is the bulk read of the interpreter. -/
theorem requestRead_eq (addr n : Nat) (mem : GuestMem D) :
    requestRead dev addr n mem = memReadMultipleSlice dev true .word addr n mem := by
  have hself : alignedAddr .word (alignedAddr .word addr) = alignedAddr .word addr :=
    alignedAddr_self (dvd_alignedAddr .word addr) (alignedAddr_lt .word addr)
  unfold requestRead memReadMultipleSlice
  simp only [hself, true_and, Bool.false_eq_true, false_and, if_false]
  rfl

/-- A bulk read gives as many words as were asked for. -/
theorem length_of_read {shmMemory : Bool} {width : MemWidth} {addr n : Nat} {s : GuestMem D}
    {r : List width.Value × GuestMem D}
    (h : memReadMultipleSlice dev shmMemory width addr n s = some r) : r.1.length = n := by
  unfold memReadMultipleSlice at h
  simp only at h
  split_ifs at h
  · obtain rfl := Option.some.inj h
    exact (List.length_map _).trans List.length_range
  · obtain rfl := Option.some.inj h
    exact length_readEach _ _ _ _

/-- **The packed parameters** are the transfer's, except for a load of the pc and the full list. -/
theorem executeSlowMultiple_eq
    (hu4 : ∀ n, u4New n = if n < 16 then some (BitVec.ofNat 4 n) else none)
    (hload : t.load = true → t.regList.getLsbD 15 = false) (hcount : t.count < 16) :
    executeSlowMultiple dev u4New t instAddr g =
      handleMultipleRequest dev t.handler t.regList t.count t.rn
        (if t.up then t.pre else !t.pre) instAddr g := by
  have hhandler : getInstMemMultipleHandlerFun (!t.load) t.wb t.up
      (t.user && !t.regList.getLsbD 15) (!t.wb || !t.regList.getLsbD t.rn) (t.regList.getLsbD 15) =
        some t.handler := by
    unfold getInstMemMultipleHandlerFun
    rw [if_pos]
    · rfl
    · cases hwb : t.wb <;> cases hl : t.load <;> cases h15 : t.regList.getLsbD 15 <;> simp
      all_goals exact absurd ((hload hl).symm.trans h15) (by decide)
  have hlen : (BitVec.ofNat 4 t.count).toNat = t.count := by
    rw [BitVec.toNat_ofNat]
    exact Nat.mod_eq_of_lt hcount
  have hreg : Fin.ofNat 16 (BitVec.ofNat 4 t.rn.val).toNat = t.rn := by
    apply Fin.ext
    rw [BitVec.toNat_ofNat]
    change t.rn.val % 2 ^ 4 % 16 = t.rn.val
    omega
  have hvalid : ¬ ((¬ t.handler.writeBack = true ∧ ¬ t.handler.valid = true) ∨
      (¬ t.handler.write = true ∧ t.handler.needsPc = true) ∨
        (t.handler.user = true ∧ t.handler.needsPc = true)) := by
    unfold handler
    cases hwb : t.wb <;> cases hl : t.load <;> cases h15 : t.regList.getLsbD 15 <;> simp
    all_goals exact absurd ((hload hl).symm.trans h15) (by decide)
  unfold executeSlowMultiple
  simp only
  rw [hhandler, Option.bind_some, hu4, if_pos hcount, Option.bind_some, hu4, if_pos t.rn.isLt,
    Option.bind_some]
  unfold instMemHandlerMultiple
  rw [if_neg hvalid]
  simp only [InstMemMultipleParams.ofWord_toWord]
  rw [hlen, hreg]

/-- **Without a defined result**: a load of the pc, and the full list. -/
theorem executeSlowMultiple_none
    (hu4 : ∀ n, u4New n = if n < 16 then some (BitVec.ofNat 4 n) else none)
    (h : (t.load = true ∧ t.regList.getLsbD 15 = true) ∨ ¬ t.count < 16) :
    executeSlowMultiple dev u4New t instAddr g = none := by
  unfold executeSlowMultiple
  simp only
  rcases h with ⟨hload, h15⟩ | hcount
  · have hnone : getInstMemMultipleHandlerFun (!t.load) t.wb t.up
        (t.user && !t.regList.getLsbD 15) (!t.wb || !t.regList.getLsbD t.rn)
          (t.regList.getLsbD 15) = none := by
      unfold getInstMemMultipleHandlerFun
      rw [if_neg]
      rw [hload, h15]
      simp
    rw [hnone, Option.bind_none]
  · rw [hu4, if_neg hcount]
    cases getInstMemMultipleHandlerFun (!t.load) t.wb t.up
        (t.user && !t.regList.getLsbD 15) (!t.wb || !t.regList.getLsbD t.rn)
          (t.regList.getLsbD 15) with
    | none => rfl
    | some handler => rfl

/-- The interpreter's load without the pc. -/
theorem ldm_eq (h15 : t.regList.getLsbD 15 = false) :
    ldm dev t instAddr g =
      (memReadMultipleSlice dev true .word (t.lowestAddr (ctxReg instAddr g.regs t.rn)).toNat
        t.count g.mem).map fun r =>
          let loaded := (t.regs.zip r.1).foldl (requestSet (t.userBanked g.regs) g.regs.isFiq)
            g.regs
          (⟨if t.wb ∧ t.regList.getLsbD t.rn = false then
              loaded.setReg t.rn (t.finalBase (ctxReg instAddr g.regs t.rn)) else loaded, r.2⟩,
            .continueNext (t.count + 2)) := by
  unfold ldm
  simp only
  congr 1
  funext r
  rw [foldl_loadReg (zip_ne_fifteen h15 r.1)]
  simp only [Option.isSome_none, Bool.and_false, Bool.false_eq_true, if_false]
  congr 2
  cases t.regList.getLsbD t.rn <;> simp

/-- The slow path's load. -/
theorem request_load_eq (hload : t.load = true) :
    handleMultipleRequest dev t.handler t.regList t.count t.rn
        (if t.up then t.pre else !t.pre) instAddr g =
      (memReadMultipleSlice dev true .word (t.lowestAddr (t.slowBase g.regs)).toNat t.count
        g.mem).map fun r =>
          let loaded := (t.regs.zip r.1).foldl (requestSet (t.userBanked g.regs) g.regs.isFiq)
            (t.earlyRegs g.regs)
          ⟨if t.wb ∧ t.regList.getLsbD t.rn = false then
              loaded.setReg t.rn (t.finalBase (t.slowBase g.regs)) else loaded, r.2⟩ := by
  have hcpsr : (t.earlyRegs g.regs).cpsr = g.regs.cpsr := by
    unfold earlyRegs
    split_ifs
    · exact setReg_cpsr
    · rfl
  have hlist : requestRegs t.regList t.count = t.regs := by
    rw [requestRegs_eq (Nat.le_refl _)]
    exact List.take_length
  have hwrite : ¬ t.handler.write = true := by
    rw [show t.handler.write = !t.load from rfl, hload]
    decide
  unfold handleMultipleRequest
  simp only
  rw [requestEarly_eq, if_neg hwrite, hlist, show t.handler.decrement = !t.up from rfl,
    requestAddr_eq, requestBase_eq, requestRead_eq]
  congr 1
  funext r
  have hbanked : (t.handler.user && !(t.earlyRegs g.regs).isUser) = t.userBanked g.regs := by
    rw [userBanked, isUser, isUser, hcpsr]
    rfl
  have hfiq : (t.earlyRegs g.regs).isFiq = g.regs.isFiq := by
    rw [isFiq, isFiq, hcpsr]
  rw [hbanked, hfiq]
  congr 1
  refine if_congr (and_congr_right fun hwb => ?_) rfl rfl
  have hwb' : t.wb = true := hwb
  simp [handler, hload, hwb']

/-- The words the slow path stores. -/
def slowWords (t : BlockTransfer) (instAddr : BitVec 32) (regs : ThreadRegs) : List (BitVec 32) :=
  requestWords t.handler t.regList t.count instAddr (t.earlyRegs regs)

/-- The slow path's store. -/
theorem request_store_eq (hload : t.load = false) :
    handleMultipleRequest dev t.handler t.regList t.count t.rn
        (if t.up then t.pre else !t.pre) instAddr g =
      (memWriteMultipleSlice dev .word (t.lowestAddr (t.slowBase g.regs)).toNat
        (slowWords t instAddr g.regs) g.mem).map fun mem =>
          ⟨if t.wb then g.regs.setReg t.rn (t.finalBase (t.slowBase g.regs)) else g.regs, mem⟩ := by
  have hwrite : t.handler.write = true := by
    rw [show t.handler.write = !t.load from rfl, hload]
    rfl
  unfold handleMultipleRequest
  simp only
  rw [requestEarly_eq, if_pos hwrite, show t.handler.decrement = !t.up from rfl,
    requestAddr_eq, requestBase_eq]
  change Option.map _ (memWriteMultipleSlice dev .word _ (slowWords t instAddr g.regs) g.mem) = _
  congr 1
  funext mem
  congr 1
  rw [hwrite, show t.handler.writeBack = t.wb from rfl]
  unfold earlyRegs
  by_cases hwb : t.wb = true
  · rw [if_pos ⟨hwb, .inl rfl⟩, if_pos hwb]
    split_ifs
    · exact setReg_setReg _ _ _ _
    · rfl
  · rw [if_neg fun h => hwb h.1, if_neg hwb, if_neg fun h => hwb h.1]

end Engines

/-! ## The stored words -/

section Words

open BlockTransfer ThreadRegs

variable {t : BlockTransfer} {instAddr : BitVec 32} {regs : ThreadRegs}

theorem earlyRegs_cpsr : (t.earlyRegs regs).cpsr = regs.cpsr := by
  unfold earlyRegs
  split_ifs
  · exact setReg_cpsr
  · rfl

/-- Without the pc the words are those of the registers. -/
theorem slowWords_eq (h15 : t.regList.getLsbD 15 = false) :
    slowWords t instAddr regs =
      t.regs.map (requestGet (t.userBanked regs) regs.isFiq (t.earlyRegs regs)) := by
  have hpc : ¬ t.handler.needsPc = true := by
    rw [show t.handler.needsPc = t.regList.getLsbD 15 from rfl, h15]
    decide
  have hlist : requestRegs t.regList t.count = t.regs := by
    rw [requestRegs_eq (Nat.le_refl _)]
    exact List.take_length
  unfold slowWords requestWords
  simp only
  rw [if_neg hpc, hlist, userBanked, isUser, isUser, isFiq, isFiq, earlyRegs_cpsr]
  rfl

theorem length_slowWords (h : t.regList ≠ 0) : (slowWords t instAddr regs).length = t.count := by
  have hpos := count_pos h
  have hlist : ∀ n ≤ t.count, (requestRegs t.regList n).length = n := by
    intro n hn
    rw [requestRegs_eq hn]
    exact List.length_take_of_le hn
  unfold slowWords requestWords
  simp only
  by_cases hpc : t.handler.needsPc = true
  · rw [if_pos hpc, List.length_append, List.length_map, hlist _ (Nat.sub_le _ _)]
    exact Nat.sub_add_cancel hpos
  · rw [if_neg hpc, List.length_map, hlist _ (Nat.le_refl _)]

/-- The pc is the last register of a list. -/
theorem regs_of_pc (h15 : t.regList.getLsbD 15 = true) :
    ∃ others : List (Fin 16), t.regs = others ++ [15] := by
  refine ⟨((List.finRange 15).map Fin.castSucc).filter fun i : Fin 16 => t.regList.getLsbD i, ?_⟩
  rw [BlockTransfer.regs, List.finRange_succ_last, List.filter_append]
  congr 1
  exact List.filter_cons_of_pos h15

/-- An instruction is not followed by its half. -/
theorem storedPc_ne (instAddr : BitVec 32) :
    instAddr + 12 ≠ (instAddr &&& ~~~1) + if instAddr.getLsbD 0 then 4 else 8 := by
  have hsplit : instAddr = (instAddr &&& ~~~1) + (instAddr &&& 1) := by
    rw [BitVec.add_eq_or_of_and_eq_zero]
    · ext i hi
      simp only [BitVec.getElem_or, BitVec.getElem_and, BitVec.getElem_not]
      cases instAddr[i] <;> cases (1 : BitVec 32)[i] <;> rfl
    · ext i hi
      simp only [BitVec.getElem_and, BitVec.getElem_not]
      cases instAddr[i] <;> cases (1 : BitVec 32)[i] <;> simp
  have hlow : (instAddr &&& 1).toNat ≤ 1 := by
    rw [BitVec.toNat_and]
    exact Nat.and_le_right
  intro heq
  have hword : (instAddr &&& ~~~1) + (instAddr &&& 1) + 12 =
      (instAddr &&& ~~~1) + if instAddr.getLsbD 0 then 4 else 8 := by
    rw [← hsplit]
    exact heq
  generalize instAddr &&& ~~~1 = pc at hword
  generalize instAddr &&& 1 = low at hword hlow
  split_ifs at hword
  · bv_omega
  · bv_omega

/-- **The stored pc** is another one. -/
theorem storedReg_ne_slowWords (h15 : t.regList.getLsbD 15 = true) :
    t.regs.map (storedReg t instAddr regs) ≠ slowWords t instAddr regs := by
  intro heq
  have hlast := congrArg List.getLast? heq
  have hpc : t.handler.needsPc = true := h15
  obtain ⟨others, hothers⟩ := regs_of_pc h15
  rw [hothers, List.map_append, List.map_singleton, List.getLast?_concat, slowWords,
    requestWords] at hlast
  rw [if_pos hpc, List.getLast?_concat] at hlast
  exact storedPc_ne instAddr (Option.some.inj hlast)

end Words

/-! ## The condition -/

namespace BlockTransfer

variable {t : BlockTransfer} {instAddr : BitVec 32} {regs : ThreadRegs}

/-- The engines read a base that is the pc alike: the same word is accessed, and what is written
back is the same. -/
def PcBaseGood (t : BlockTransfer) (instAddr : BitVec 32) (regs : ThreadRegs) : Prop :=
  t.rn = 15 → (t.wb = true → regs.pc = instAddr + 8) ∧
    alignedAddr .word (t.lowestAddr regs.pc).toNat =
      alignedAddr .word (t.lowestAddr (instAddr + 8)).toNat

/-- A written-back base in the list of a transfer of the user bank: a loaded one is not banked in
the mode, a stored one of the fiq mode is the lowest register or banked. -/
def ListedBaseGood (t : BlockTransfer) (regs : ThreadRegs) : Prop :=
  t.wb = true → t.regList.getLsbD t.rn = true → t.userBanked regs = true →
    if t.load then ¬ ThreadRegs.Banked (regs.isFiq = true) t.rn
    else regs.isFiq = true → t.rn.val < 8 → t.regList.toNat &&& (2 ^ t.rn.val - 1) = 0

/-- When the engines transfer the same. -/
def Good (t : BlockTransfer) (instAddr : BitVec 32) (regs : ThreadRegs) : Prop :=
  t.regList.getLsbD 15 = false ∧ t.PcBaseGood instAddr regs ∧ t.ListedBaseGood regs

instance (t : BlockTransfer) (instAddr : BitVec 32) (regs : ThreadRegs) :
    Decidable (t.PcBaseGood instAddr regs) := inferInstanceAs (Decidable (_ → _))

instance (t : BlockTransfer) (regs : ThreadRegs) : Decidable (t.ListedBaseGood regs) :=
  inferInstanceAs (Decidable (_ → _ → _ → _))

instance (t : BlockTransfer) (instAddr : BitVec 32) (regs : ThreadRegs) :
    Decidable (t.Good instAddr regs) := inferInstanceAs (Decidable (_ ∧ _ ∧ _))

/-- The two bases under the condition. -/
theorem pcBaseGood_iff : t.PcBaseGood instAddr regs ↔
    (t.wb = true → ctxReg instAddr regs t.rn = t.slowBase regs) ∧
      alignedAddr .word (t.lowestAddr (t.slowBase regs)).toNat =
        alignedAddr .word (t.lowestAddr (ctxReg instAddr regs t.rn)).toNat := by
  unfold PcBaseGood ctxReg slowBase
  by_cases h15 : t.rn = 15
  · have hpc : regs.getReg 15 = regs.pc := rfl
    rw [if_pos h15, h15, hpc]
    constructor
    · intro h
      exact ⟨fun hwb => ((h rfl).1 hwb).symm, (h rfl).2⟩
    · intro h _
      exact ⟨fun hwb => (h.1 hwb).symm, h.2⟩
  · rw [if_neg h15]
    exact ⟨fun _ => ⟨fun _ => rfl, rfl⟩, fun _ h => absurd h h15⟩

end BlockTransfer

/-! ## The stored words without the pc -/

section StoredWords

open BlockTransfer ThreadRegs

variable {t : BlockTransfer} {instAddr : BitVec 32} {regs : ThreadRegs}

/-- The two tests for the user bank. -/
theorem usr_iff (banked fiq : Bool) (i : Fin 16) :
    (banked = true ∧ (i = 13 ∨ i = 14 ∨ (banked && fiq) = true)) ↔
      (banked = true ∧ (fiq = true ∨ i = 13 ∨ i = 14)) := by
  cases banked <;> cases fiq <;> simp

/-- A register that is not the base. -/
theorem storedReg_of_ne {i : Fin 16} (h15 : i ≠ 15) (hne : i ≠ t.rn) :
    storedReg t instAddr regs i =
      requestGet (t.userBanked regs) regs.isFiq (t.earlyRegs regs) i := by
  have husr : (t.earlyRegs regs).getRegUsr i = regs.getRegUsr i := by
    unfold earlyRegs
    split_ifs
    · exact getRegUsr_setReg_of_ne hne _ _
    · rfl
  have hreg : (t.earlyRegs regs).getReg i = regs.getReg i := by
    unfold earlyRegs
    split_ifs
    · exact getReg_setReg_of_ne hne _ _
    · rfl
  unfold storedReg requestGet
  simp only
  rw [if_neg h15, husr, hreg, if_neg fun h : _ ∧ i = t.rn ∧ _ => hne h.2.1, ctxReg, if_neg h15]
  exact if_congr (usr_iff _ _ _) rfl rfl

/-- A base in the list of a store is written first unless it is the lowest register. -/
theorem early_store_iff (hload : t.load = false) (hlist : t.regList.getLsbD t.rn = true) :
    t.Early ↔ t.wb = true ∧ t.regList.toNat &&& (2 ^ t.rn.val - 1) ≠ 0 := by
  unfold Early
  rw [hload, hlist]
  simp

/-- **The stored base.** -/
theorem storedReg_base (h15 : t.rn ≠ 15) (hload : t.load = false)
    (hlist : t.regList.getLsbD t.rn = true) (hgood : t.ListedBaseGood regs) :
    storedReg t instAddr regs t.rn =
      requestGet (t.userBanked regs) regs.isFiq (t.earlyRegs regs) t.rn := by
  have hearly := early_store_iff hload hlist
  unfold storedReg requestGet
  simp only
  rw [if_neg h15]
  by_cases husr : t.userBanked regs = true ∧ (regs.isFiq = true ∨ t.rn = 13 ∨ t.rn = 14)
  · rw [if_pos ((usr_iff _ _ _).mpr husr), if_pos husr]
    unfold earlyRegs
    split_ifs with hfirst
    · -- the new base is in the registers of the mode, the stored one is not
      have hhigh : 8 ≤ t.rn.val := by
        by_contra hlow
        obtain ⟨hwb, hmask⟩ := hearly.mp hfirst
        have hfiq : regs.isFiq = true := by
          rcases husr.2 with hfiq | h13 | h14
          · exact hfiq
          · exact absurd h13 fun h => hlow (by rw [h]; decide)
          · exact absurd h14 fun h => hlow (by rw [h]; decide)
        have hlowest := hgood hwb hlist husr.1
        rw [hload] at hlowest
        exact hmask (hlowest hfiq (Nat.lt_of_not_le hlow))
      exact (getRegUsr_setReg hhigh h15).symm
    · rfl
  · rw [if_neg fun h => husr ((usr_iff _ _ _).mp h), if_neg husr, ctxReg, if_neg h15]
    unfold earlyRegs slowBase
    by_cases hfirst : t.Early
    · obtain ⟨hwb, hmask⟩ := hearly.mp hfirst
      rw [if_pos hfirst, if_pos ⟨hwb, trivial, hmask⟩, getReg_setReg_self]
    · rw [if_neg hfirst, if_neg fun h => hfirst (hearly.mpr ⟨h.1, h.2.2⟩)]

/-- Where the condition fails the old base is stored by one engine and the new one by the other. -/
theorem storedReg_base_ne (instAddr : BitVec 32) (hload : t.load = false)
    (hgood : ¬ t.ListedBaseGood regs) :
    t.rn ∈ t.regs ∧ storedReg t instAddr regs t.rn ≠
      requestGet (t.userBanked regs) regs.isFiq (t.earlyRegs regs) t.rn := by
  unfold ListedBaseGood at hgood
  rw [hload] at hgood
  simp only [Classical.not_imp] at hgood
  obtain ⟨hwb, hlist, husr, hfail⟩ := hgood
  simp only [Bool.false_eq_true, if_false, not_forall] at hfail
  obtain ⟨hfiq, hlow, hmask⟩ := hfail
  have h15 : t.rn ≠ 15 := by
    intro h
    rw [h] at hlow
    exact absurd hlow (by decide)
  have hne : t.regList ≠ 0 := by
    intro h
    rw [h] at hlist
    exact absurd hlist (by simp)
  have hcond : t.userBanked regs = true ∧ (regs.isFiq = true ∨ t.rn = 13 ∨ t.rn = 14) :=
    ⟨husr, .inl hfiq⟩
  refine ⟨mem_regs.mpr hlist, ?_⟩
  unfold storedReg requestGet
  simp only
  rw [if_neg h15, if_pos ((usr_iff _ _ _).mpr hcond), if_pos hcond, getRegUsr_of_low hlow,
    getRegUsr_of_low hlow, earlyRegs, if_pos ((early_store_iff hload hlist).mpr ⟨hwb, hmask⟩),
    getReg_setReg_self]
  exact (finalBase_ne hne _).symm

/-- **The words without the pc** are the same exactly under the condition on the base. -/
theorem words_eq_iff (hload : t.load = false) (h15 : t.regList.getLsbD 15 = false) :
    t.regs.map (storedReg t instAddr regs) = slowWords t instAddr regs ↔ t.ListedBaseGood regs := by
  rw [slowWords_eq h15, List.map_inj_left]
  constructor
  · intro heq
    by_contra hgood
    obtain ⟨hmem, hne⟩ := storedReg_base_ne instAddr hload hgood
    exact hne (heq t.rn hmem)
  · intro hgood i hi
    by_cases hbase : i = t.rn
    · subst hbase
      exact storedReg_base (ne_fifteen h15 hi) hload (mem_regs.mp hi) hgood
    · exact storedReg_of_ne (ne_fifteen h15 hi) hbase

end StoredWords

/-! ## A memory that tells addresses apart -/

section Tell

/-- A table that maps every page, one of them elsewhere than the others. -/
def tellTable (page p : Nat) : Nat := if p = page then 4096 else 12288

/-- A memory with the table for reads and writes. -/
def tellMem (mem : GuestMem D) (page : Nat) (shm : Nat → UInt8) : GuestMem D :=
  { mem with
    jit := { mem.jit with mmuWrite := tellTable page, shm := shm }
    mmuRead := tellTable page }

/-- The place of an address. -/
def tellPlace (page addr : Nat) : Nat := getShmOffset (tellTable page) (alignedAddr .word addr)

theorem tellTable_bounds (page p : Nat) : 4096 ≤ tellTable page p ∧ tellTable page p ≤ 12288 := by
  unfold tellTable
  split_ifs <;> omega

theorem getShmOffset_tellTable (page addr : Nat) :
    getShmOffset (tellTable page) addr = tellTable page (addr / 4096) + addr % 4096 := by
  have hpos := (tellTable_bounds page (addr / 4096)).1
  exact if_pos (by omega)

/-- **The places** differ where the addresses do. -/
theorem aligned_of_tellPlace {addr addr' : Nat}
    (h : tellPlace (alignedAddr .word addr / 4096) addr =
      tellPlace (alignedAddr .word addr / 4096) addr') :
    alignedAddr .word addr = alignedAddr .word addr' := by
  unfold tellPlace at h
  rw [getShmOffset_tellTable, getShmOffset_tellTable] at h
  unfold tellTable at h
  split_ifs at h <;> omega

variable (dev : MemDevices D) (mem : GuestMem D) (page addr : Nat) (shm : Nat → UInt8)

theorem tellPlace_bounds : tellPlace page addr ≠ 0 ∧ tellPlace page addr < 20480 := by
  have hbounds := tellTable_bounds page (alignedAddr .word addr / 4096)
  rw [tellPlace, getShmOffset_tellTable]
  omega

theorem tell_read {n : Nat} (hn : n ≤ 16) :
    memReadMultipleSlice dev true .word addr n (tellMem mem page shm) =
      some (readWords 4 shm (tellPlace page addr) n, tellMem mem page shm) := by
  obtain ⟨hne, hlt⟩ := tellPlace_bounds page addr
  have hend : tellPlace page addr + n * 4 ≤ totalMemSize := by
    unfold totalMemSize
    omega
  exact (if_pos ⟨rfl, hne⟩).trans (if_pos hend)

theorem tell_write {words : List (BitVec 32)} (hn : words.length ≤ 16) :
    memWriteMultipleSlice dev .word addr words (tellMem mem page shm) =
      some (tellMem mem page (writeWords 4 shm (tellPlace page addr) words)) := by
  obtain ⟨hne, hlt⟩ := tellPlace_bounds page addr
  have hend : tellPlace page addr + words.length * 4 ≤ totalMemSize := by
    unfold totalMemSize
    omega
  have hall : ∀ start size, allWritable (tellTable page) start size = true := by
    intro start size
    refine List.all_eq_true.mpr fun p _ => decide_eq_true ?_
    have hpos := (tellTable_bounds page (p / 4096)).1
    rw [getShmOffset_tellTable]
    omega
  exact (if_pos ⟨hne, hall _ _⟩).trans (if_pos hend)

end Tell

/-! ## The law -/

/-- The slow path does what the interpreter does, whatever the memory is. -/
def TransfersAgree (dev : MemDevices D) (u4New : Nat → Option (BitVec 4)) (t : BlockTransfer)
    (instAddr : BitVec 32) (regs : ThreadRegs) : Prop :=
  ∀ (mem : GuestMem D) (g : GuestState D) (r : InstResult),
    ldmStm dev t instAddr ⟨regs, mem⟩ = some (g, r) →
      executeSlowMultiple dev u4New t instAddr ⟨regs, mem⟩ = some g

section Law

open BlockTransfer ThreadRegs

variable (dev : MemDevices D) {u4New : Nat → Option (BitVec 4)} {t : BlockTransfer}
  {instAddr : BitVec 32} {regs : ThreadRegs}

/-- The base of a good load is written before or after the loop. -/
theorem loaded_eq (hbase : t.wb = true → ctxReg instAddr regs t.rn = t.slowBase regs)
    (hload : t.load = true) (hlisted : t.ListedBaseGood regs) {words : List (BitVec 32)}
    (hlength : words.length = t.count) :
    (let loaded := (t.regs.zip words).foldl (requestSet (t.userBanked regs) regs.isFiq)
        (t.earlyRegs regs)
      if t.wb ∧ t.regList.getLsbD t.rn = false then
        loaded.setReg t.rn (t.finalBase (t.slowBase regs)) else loaded) =
    (let loaded := (t.regs.zip words).foldl (requestSet (t.userBanked regs) regs.isFiq) regs
      if t.wb ∧ t.regList.getLsbD t.rn = false then
        loaded.setReg t.rn (t.finalBase (ctxReg instAddr regs t.rn)) else loaded) := by
  have hearly : t.Early ↔ t.wb = true := by
    unfold Early
    rw [hload]
    simp
  simp only
  by_cases hwb : t.wb = true
  · rw [earlyRegs, if_pos (hearly.mpr hwb), hbase hwb]
    cases hlist : t.regList.getLsbD t.rn
    · -- the base is not in the list: the last write of it counts
      have hne : ∀ p ∈ t.regs.zip words, p.1 ≠ t.rn := by
        rintro p hp heq
        have hmem := mem_regs.mp (heq ▸ (List.of_mem_zip hp).1)
        rw [hlist] at hmem
        cases hmem
      rw [foldl_requestSet_setReg hne, if_pos ⟨hwb, rfl⟩, if_pos ⟨hwb, rfl⟩, setReg_setReg]
    · -- the base is in the list: the loaded value counts
      have hmem : t.rn ∈ (t.regs.zip words).map Prod.fst := by
        rw [List.map_fst_zip (Nat.le_of_eq hlength.symm)]
        exact mem_regs.mpr hlist
      have hbank : t.userBanked regs = true → ¬ Banked (regs.isFiq = true) t.rn := by
        intro husr
        have hgood := hlisted hwb hlist husr
        rwa [if_pos hload] at hgood
      have hnot : ¬ (t.wb = true ∧ true = false) := fun h => Bool.noConfusion h.2
      rw [foldl_requestSet_absorb hmem hbank, if_neg hnot]
  · rw [earlyRegs, if_neg fun h => hwb (hearly.mp h), if_neg fun h => hwb h.1,
      if_neg fun h => hwb h.1]

/-- **Good transfers** are the same. -/
theorem transfersAgree_of_good
    (hu4 : ∀ n, u4New n = if n < 16 then some (BitVec.ofNat 4 n) else none)
    (hlist : t.regList ≠ 0) (hgood : t.Good instAddr regs) :
    TransfersAgree dev u4New t instAddr regs := by
  obtain ⟨h15, hpc, hlisted⟩ := hgood
  obtain ⟨hbase, haddr⟩ := pcBaseGood_iff.mp hpc
  intro mem g r hstep
  rw [ldmStm, if_neg hlist] at hstep
  rw [executeSlowMultiple_eq dev hu4 (fun _ => h15) (count_lt (i := 15) h15)]
  cases hload : t.load with
  | true =>
      rw [if_pos hload, ldm_eq dev h15] at hstep
      obtain ⟨words, hread, hg⟩ := Option.map_eq_some_iff.mp hstep
      obtain rfl := congrArg Prod.fst hg
      rw [request_load_eq dev hload, memReadMultipleSlice_congr dev haddr, hread, Option.map_some]
      congr 1
      have hlength : words.1.length = t.count := length_of_read dev hread
      exact congrArg (fun regs => (⟨regs, words.2⟩ : GuestState D))
        (loaded_eq hbase hload hlisted hlength)
  | false =>
      rw [if_neg (by rw [hload]; decide)] at hstep
      obtain ⟨mem', hwrite, hg⟩ := Option.map_eq_some_iff.mp hstep
      obtain rfl := congrArg Prod.fst hg
      have hslow : memWriteMultipleSlice dev .word (t.lowestAddr (t.slowBase regs)).toNat
          (slowWords t instAddr regs) mem = some mem' := by
        rw [← (words_eq_iff hload h15).mpr hlisted]
        exact (memWriteMultipleSlice_congr dev haddr _ mem).trans hwrite
      rw [request_store_eq dev hload, hslow, Option.map_some]
      congr 1
      refine congrArg (fun regs => (⟨regs, mem'⟩ : GuestState D)) ?_
      by_cases hwb : t.wb = true
      · rw [if_pos hwb, if_pos hwb, hbase hwb]
      · rw [if_neg hwb, if_neg hwb]

/-- The loaded words after a last write of the base. -/
theorem map_requestGet_loaded {words : List (BitVec 32)} (hlength : words.length = t.count)
    (start : ThreadRegs) (value : BitVec 32) :
    t.regs.map (requestGet (t.userBanked regs) regs.isFiq
      (let loaded := (t.regs.zip words).foldl (requestSet (t.userBanked regs) regs.isFiq) start
        if t.wb ∧ t.regList.getLsbD t.rn = false then loaded.setReg t.rn value else loaded)) =
      words := by
  have hfold : t.regs.map (requestGet (t.userBanked regs) regs.isFiq
      ((t.regs.zip words).foldl (requestSet (t.userBanked regs) regs.isFiq) start)) = words :=
    map_requestGet_foldl t.nodup_regs hlength start
  simp only
  split_ifs with hlast
  · have hne : ∀ i ∈ t.regs, i ≠ t.rn := by
      rintro i hi rfl
      rw [mem_regs, hlast.2] at hi
      cases hi
    exact (List.map_congr_left fun i hi => requestGet_setReg_of_ne (hne i hi) _ _).trans hfold
  · exact hfold

/-- Agreement on loads leaves no pc in the list, and reads what is read from one address. -/
theorem good_of_load_agrees [Nonempty (GuestMem D)]
    (hu4 : ∀ n, u4New n = if n < 16 then some (BitVec.ofNat 4 n) else none)
    (hlist : t.regList ≠ 0) (hload : t.load = true)
    (hagree : TransfersAgree dev u4New t instAddr regs) : t.Good instAddr regs := by
  obtain ⟨mem⟩ := ‹Nonempty (GuestMem D)›
  have hstep : ∀ page shm, ∃ g r, ldm dev t instAddr ⟨regs, tellMem mem page shm⟩ = some (g, r) ∧
      executeSlowMultiple dev u4New t instAddr ⟨regs, tellMem mem page shm⟩ = some g := by
    intro page shm
    have hldm : ldmStm dev t instAddr ⟨regs, tellMem mem page shm⟩ =
        ldm dev t instAddr ⟨regs, tellMem mem page shm⟩ := by
      rw [ldmStm, if_neg hlist, if_pos hload]
    have hsome : (ldm dev t instAddr ⟨regs, tellMem mem page shm⟩).isSome := by
      unfold ldm
      simp only
      rw [Option.isSome_map, Option.isSome_iff_exists]
      exact ⟨_, tell_read dev mem page _ shm t.count_le⟩
    obtain ⟨⟨g, r⟩, hg⟩ := Option.isSome_iff_exists.mp hsome
    exact ⟨g, r, hg, hagree _ g r (hldm.trans hg)⟩
  have h15 : t.regList.getLsbD 15 = false := by
    by_contra h15
    obtain ⟨g, r, -, hslow⟩ := hstep 0 fun _ => 0
    rw [executeSlowMultiple_none dev hu4 (.inl ⟨hload, Bool.eq_true_of_not_eq_false h15⟩)] at hslow
    cases hslow
  -- the registers after both, from the words of the two places
  have hregs : ∀ page shm,
      (let loaded := (t.regs.zip (readWords 4 shm
            (tellPlace page (t.lowestAddr (t.slowBase regs)).toNat) t.count)).foldl
          (requestSet (t.userBanked regs) regs.isFiq) (t.earlyRegs regs)
        if t.wb ∧ t.regList.getLsbD t.rn = false then
          loaded.setReg t.rn (t.finalBase (t.slowBase regs)) else loaded) =
      (let loaded := (t.regs.zip (readWords 4 shm
            (tellPlace page (t.lowestAddr (ctxReg instAddr regs t.rn)).toNat) t.count)).foldl
          (requestSet (t.userBanked regs) regs.isFiq) regs
        if t.wb ∧ t.regList.getLsbD t.rn = false then
          loaded.setReg t.rn (t.finalBase (ctxReg instAddr regs t.rn)) else loaded) := by
    intro page shm
    obtain ⟨g, r, hldm, hslow⟩ := hstep page shm
    rw [ldm_eq dev h15, tell_read dev mem page _ shm t.count_le] at hldm
    rw [executeSlowMultiple_eq dev hu4 (fun _ => h15) (count_lt (i := 15) h15),
      request_load_eq dev hload, tell_read dev mem page _ shm t.count_le] at hslow
    have hg := congrArg Prod.fst (Option.some.inj hldm)
    exact congrArg GuestState.regs ((Option.some.inj hslow).trans hg.symm)
  have hlength : ∀ shm place, (readWords 4 shm place t.count).length = t.count :=
    fun shm place => (List.length_map _).trans List.length_range
  refine ⟨h15, pcBaseGood_iff.mpr ⟨fun hwb => ?_, ?_⟩, fun hwb hbase husr => ?_⟩
  · by_cases hpc : t.rn = 15
    · have hnot : t.regList.getLsbD t.rn = false := by
        rw [hpc]
        exact h15
      have hfinal := congrArg (fun regs => regs.getReg t.rn) (hregs 0 fun _ => 0)
      simp only at hfinal
      rw [if_pos ⟨hwb, hnot⟩, if_pos ⟨hwb, hnot⟩, getReg_setReg_self, getReg_setReg_self] at hfinal
      exact (finalBase_inj hfinal).symm
    · exact if_neg hpc
  · refine aligned_of_tellPlace (offset_of_readWords (k := 4) (by decide) (count_pos hlist)
      fun shm => ?_)
    have hwords := congrArg (fun after =>
      t.regs.map (requestGet (t.userBanked regs) regs.isFiq after))
        (hregs (alignedAddr .word (t.lowestAddr (t.slowBase regs)).toNat / 4096) shm)
    simp only at hwords
    exact (map_requestGet_loaded (hlength shm _) _ _).symm.trans
      (hwords.trans (map_requestGet_loaded (hlength shm _) _ _))
  · rw [if_pos hload]
    intro hbank
    have hnot : ¬ (t.wb = true ∧ t.regList.getLsbD t.rn = false) := by
      rw [hbase]
      exact fun h => Bool.noConfusion h.2
    have hfinal := congrArg (fun regs => regs.getReg t.rn) (hregs 0 fun _ => 0)
    simp only at hfinal
    rw [if_neg hnot, if_neg hnot, getReg_foldl fun _ _ _ => ⟨husr, hbank⟩,
      getReg_foldl fun _ _ _ => ⟨husr, hbank⟩, earlyRegs, if_pos ⟨hwb, .inl hload⟩,
      getReg_setReg_self] at hfinal
    exact finalBase_ne hlist _ hfinal

/-- Agreement on stores stores the same words at the same address. -/
theorem good_of_store_agrees [Nonempty (GuestMem D)]
    (hu4 : ∀ n, u4New n = if n < 16 then some (BitVec.ofNat 4 n) else none)
    (hlist : t.regList ≠ 0) (hload : t.load = false)
    (hagree : TransfersAgree dev u4New t instAddr regs) : t.Good instAddr regs := by
  obtain ⟨mem⟩ := ‹Nonempty (GuestMem D)›
  have hlength : (t.regs.map (storedReg t instAddr regs)).length = t.count := List.length_map _
  have hlengthSlow : (slowWords t instAddr regs).length = t.count := length_slowWords hlist
  have hstep : ∀ page shm, executeSlowMultiple dev u4New t instAddr ⟨regs, tellMem mem page shm⟩ =
      some ⟨if t.wb then regs.setReg t.rn (t.finalBase (ctxReg instAddr regs t.rn)) else regs,
        tellMem mem page (writeWords 4 shm
          (tellPlace page (t.lowestAddr (ctxReg instAddr regs t.rn)).toNat)
          (t.regs.map (storedReg t instAddr regs)))⟩ := by
    intro page shm
    refine hagree _ _ (.continueStore (t.count + 1)) ?_
    have hnot : ¬ t.load = true := by
      rw [hload]
      decide
    rw [ldmStm, if_neg hlist, if_neg hnot, stm]
    simp only
    rw [tell_write dev mem page _ shm (hlength ▸ t.count_le), Option.map_some]
  have hcount : t.count < 16 := by
    by_contra hcount
    have hslow := hstep 0 fun _ => 0
    rw [executeSlowMultiple_none dev hu4 (.inr hcount)] at hslow
    cases hslow
  have hsame : ∀ page shm,
      (⟨if t.wb then regs.setReg t.rn (t.finalBase (t.slowBase regs)) else regs,
        tellMem mem page (writeWords 4 shm (tellPlace page (t.lowestAddr (t.slowBase regs)).toNat)
          (slowWords t instAddr regs))⟩ : GuestState D) =
      ⟨if t.wb then regs.setReg t.rn (t.finalBase (ctxReg instAddr regs t.rn)) else regs,
        tellMem mem page (writeWords 4 shm
          (tellPlace page (t.lowestAddr (ctxReg instAddr regs t.rn)).toNat)
          (t.regs.map (storedReg t instAddr regs)))⟩ := by
    intro page shm
    have hslow := hstep page shm
    rw [executeSlowMultiple_eq dev hu4 (fun h => by rw [hload] at h; cases h) hcount,
      request_store_eq dev hload,
      tell_write dev mem page _ shm (hlengthSlow ▸ t.count_le)] at hslow
    exact Option.some.inj hslow
  obtain ⟨hplace, hwords⟩ := offset_of_writeWords (k := 4) (by decide)
    (hlengthSlow.trans hlength.symm) (hlengthSlow ▸ count_pos hlist) fun shm =>
      congrArg (fun g : GuestState D => g.mem.jit.shm)
        (hsame (alignedAddr .word (t.lowestAddr (t.slowBase regs)).toNat / 4096) shm)
  have h15 : t.regList.getLsbD 15 = false := by
    by_contra h15
    exact storedReg_ne_slowWords (Bool.eq_true_of_not_eq_false h15) hwords.symm
  refine ⟨h15, pcBaseGood_iff.mpr ⟨fun hwb => ?_, aligned_of_tellPlace hplace⟩,
    (words_eq_iff hload h15).mp hwords.symm⟩
  by_cases hpc : t.rn = 15
  · have hfinal := congrArg (fun g : GuestState D => g.regs.getReg t.rn) (hsame 0 fun _ => 0)
    simp only at hfinal
    rw [if_pos hwb, if_pos hwb, getReg_setReg_self, getReg_setReg_self] at hfinal
    exact (finalBase_inj hfinal).symm
  · exact if_neg hpc

end Law

/-- **Block transfers.**  For every list with a register, base, addressing mode, write-back, user
bit and register file, the slow path does what the interpreter does in every memory exactly when
the transfer is good. -/
theorem block_transfers_law [Nonempty D] (dev : MemDevices D) (u4New : Nat → Option (BitVec 4))
    (hu4 : ∀ n, u4New n = if n < 16 then some (BitVec.ofNat 4 n) else none) (t : BlockTransfer)
    (hlist : t.regList ≠ 0) (instAddr : BitVec 32) (regs : ThreadRegs) :
    TransfersAgree dev u4New t instAddr regs ↔ t.Good instAddr regs := by
  have hmem : Nonempty (GuestMem D) := by
    obtain ⟨devices⟩ := ‹Nonempty D›
    exact ⟨memStart plainCartridge false (fun _ => 0) 0 0 devices⟩
  constructor
  · intro hagree
    cases hload : t.load with
    | true => exact good_of_load_agrees dev hu4 hlist hload hagree
    | false => exact good_of_store_agrees dev hu4 hlist hload hagree
  · exact transfersAgree_of_good dev hu4 hlist

/-- `u4::new`. -/
def checkedU4 (n : Nat) : Option (BitVec 4) := if n < 16 then some (BitVec.ofNat 4 n) else none

/-- `stmia r0!, {r0, r3}` with `r0` at the start of ewram. -/
theorem lowestBase_agrees : TransfersAgree silentDevices checkedU4
    ⟨false, false, true, false, true, 0, 0b1001⟩ 0x08000000
      (ThreadRegs.default.setReg 0 0x02000000) :=
  (block_transfers_law silentDevices checkedU4 (fun _ => rfl) _ (by decide) _ _).mpr (by decide)

/-! ## A stored pc -/

/-- `stmia r0, {pc}`. -/
def pcStore : BlockTransfer := ⟨false, false, true, false, false, 0, 0x8000⟩

/-- The guest in front of it: `r0` is the start of ewram. -/
def pcStoreGuest : GuestState Unit :=
  ⟨ThreadRegs.default.setReg 0 0x02000000, emptyBoot plainCartridge⟩

/-- **The stored pc** is 12 ahead in the interpreter, and 8 ahead in the slow path. -/
theorem pcStore_differs :
    ¬ ∀ (t : BlockTransfer) (instAddr : BitVec 32) (regs : ThreadRegs), t.regList ≠ 0 →
      TransfersAgree silentDevices checkedU4 t instAddr regs := by
  intro hall
  have hint : (ldmStm silentDevices pcStore 0x08000000 pcStoreGuest).map
      (fun r => r.1.mem.jit.shm ewramRegion.shmOffset) = some 12 := by
    decide +kernel
  have hslow : (executeSlowMultiple silentDevices checkedU4 pcStore 0x08000000 pcStoreGuest).map
      (fun g => g.mem.jit.shm ewramRegion.shmOffset) = some 8 := by
    decide +kernel
  obtain ⟨⟨g, r⟩, hg, hbyte⟩ := Option.map_eq_some_iff.mp hint
  have hagree : executeSlowMultiple silentDevices checkedU4 pcStore 0x08000000 pcStoreGuest =
      some g := hall pcStore 0x08000000 _ (by decide) _ g r hg
  rw [hagree, Option.map_some, hbyte] at hslow
  exact absurd hslow (by decide)

end AdvancedSlop
