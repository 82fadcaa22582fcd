/-
# The basic block law

What the two passes of `createBasicBlocks` do with decoded instructions.

* `analyzeBranchLabel_eq` : a label in front of an instruction of the list is found;
* `markAll_spec` : the first pass marks where the branches lead;
* `Tiles`, `SplitInv`, `splitBlocks_spec` : the second pass splits there and behind the branches;
* `liveSets_iff` : the backward pass finds the registers that are needed;
* `basic_blocks_law` : the blocks.
-/
import AdvancedSlop.AsmAnalyzer

namespace AdvancedSlop


/-! ## Where a branch leads -/

/-- The distance between two instructions. -/
theorem instPc_sub (startPc : BitVec 32) (thumb : Bool) {i k : Nat} (hi : i < 2 ^ 29)
    (hk : k < 2 ^ 29) :
    (instPc startPc thumb k - instPc startPc thumb i).toInt =
      ((k : Int) - i) * 2 ^ pcShift thumb := by
  have hsub : instPc startPc thumb k - instPc startPc thumb i =
      BitVec.ofInt 32 (((k : Int) - i) * 2 ^ pcShift thumb) := by
    apply BitVec.eq_of_toNat_eq
    cases thumb <;> simp [instPc, pcShift, BitVec.toNat_ofInt, Nat.shiftLeft_eq] <;> omega
  rw [hsub, BitVec.toInt_ofInt]
  cases thumb <;> simp only [pcShift] <;> rw [Int.bmod_eq_of_le] <;> simp <;> omega

/-- A label in front of an instruction of the list is found. -/
theorem localTarget_eq {insts : List InstInfo} (startPc : BitVec 32) (thumb : Bool) {i k : Nat}
    (hlen : insts.length < 2 ^ 29) (hi : i < insts.length) (hk : k < insts.length) :
    localTarget insts thumb i (instPc startPc thumb i) (instPc startPc thumb k) = some k := by
  have hindex : (i : Int) + ((instPc startPc thumb k - instPc startPc thumb i).sshiftRight
      (pcShift thumb)).toInt = k := by
    rw [BitVec.toInt_sshiftRight, instPc_sub startPc thumb (hi.trans hlen) (hk.trans hlen),
      Int.shiftRight_eq_div_pow, Nat.cast_pow, Nat.cast_ofNat,
      Int.mul_ediv_cancel _ (by positivity)]
    omega
  unfold localTarget
  simp only [hindex, Int.toNat_natCast]
  rw [if_pos ⟨Int.natCast_nonneg k, hk⟩]

/-- So it is by an idle loop. -/
theorem idleTarget_eq {debugLog : Bool} {insts : List InstInfo} {startPc : BitVec 32} {thumb : Bool}
    {i k j : Nat} {cond : Cond} (hlen : insts.length < 2 ^ 29) (hi : i < insts.length)
    (hk : k < insts.length)
    (h : idleTarget debugLog insts thumb i cond (instPc startPc thumb i) (instPc startPc thumb k) =
      some j) : j = k := by
  obtain ⟨⟨-, -, -, -, hdiff, -⟩, hj⟩ := Option.ite_none_right_eq_some.mp h
  have hj' := Option.some.inj hj
  have hint := instPc_sub startPc thumb (hk.trans hlen) (hi.trans hlen)
  rw [BitVec.toNat_ushiftRight, Nat.shiftRight_eq_div_pow] at hdiff hj'
  rw [BitVec.toInt_eq_toNat_cond] at hint
  have hshift : pcShift thumb = 1 ∨ pcShift thumb = 2 := by cases thumb <;> decide
  generalize (instPc startPc thumb i - instPc startPc thumb k).toNat = n at hint hdiff hj'
  rcases hshift with hshift | hshift <;> rw [hshift] at hint hdiff hj' <;>
    split at hint <;> omega

/-- **Where a branch leads** in the list. -/
theorem analyzeBranchLabel_eq {debugLog : Bool} {insts : List InstInfo} {startPc : BitVec 32}
    {thumb : Bool} {i k : Nat} (cond : Cond) (hlen : insts.length < 2 ^ 29) (hi : i < insts.length)
    (hk : k < insts.length) :
    analyzeBranchLabel debugLog insts thumb i cond (instPc startPc thumb i)
        (instPc startPc thumb k) = .idle k ∨
      analyzeBranchLabel debugLog insts thumb i cond (instPc startPc thumb i)
        (instPc startPc thumb k) = .here k := by
  unfold analyzeBranchLabel
  split
  · rename_i j hj
    rw [idleTarget_eq hlen hi hk hj]
    exact .inl rfl
  · rw [localTarget_eq startPc thumb hlen hi hk]
    exact .inr rfl

/-! ## The first pass -/

/-- A branch leads to the instruction. -/
def EntryAt (metadata : List InstMetadata) (k : Nat) : Prop :=
  (metadata.getD k .default).localBranchEntry = true

theorem length_markBranch (metadata : List InstMetadata) (i : Nat) (info : JitBranchInfo) :
    (markBranch metadata i info).length = metadata.length := by
  cases info <;> simp [markBranch, setLocalBranchEntry]

/-- What is marked stays marked. -/
theorem EntryAt.markBranch {metadata : List InstMetadata} {k : Nat} (h : EntryAt metadata k)
    (i : Nat) (info : JitBranchInfo) : EntryAt (markBranch metadata i info) k := by
  have hmodify : ∀ {metadata : List InstMetadata} (f : InstMetadata → InstMetadata) (i : Nat),
      (∀ m, m.localBranchEntry = true → (f m).localBranchEntry = true) → EntryAt metadata k →
        EntryAt (metadata.modify i f) k := by
    intro metadata f i hf h
    unfold EntryAt at h ⊢
    rw [List.getD_eq_getElem?_getD] at h ⊢
    rw [List.getElem?_modify]
    cases hm : metadata[k]? with
    | none =>
        rw [hm] at h
        cases h
    | some m =>
        rw [hm] at h
        by_cases hik : i = k
        · simpa [hik] using hf m h
        · simpa [hik] using h
  cases info with
  | idle index =>
      refine hmodify _ _ (fun _ _ => rfl) (hmodify _ _ (fun m hm => hm) h)
  | here index => exact hmodify _ _ (fun _ _ => rfl) h
  | none => exact hmodify _ _ (fun m hm => hm) h

/-- A branch marks where it leads. -/
theorem entryAt_markBranch {metadata : List InstMetadata} {k : Nat} (hk : k < metadata.length)
    (i : Nat) {info : JitBranchInfo} (h : info = .idle k ∨ info = .here k) :
    EntryAt (markBranch metadata i info) k := by
  have hset : ∀ {metadata : List InstMetadata}, k < metadata.length →
      EntryAt (setLocalBranchEntry metadata k) k := by
    intro metadata hk
    unfold EntryAt setLocalBranchEntry
    rw [List.getD_eq_getElem?_getD, List.getElem?_modify, List.getElem?_eq_getElem hk]
    simp
  rcases h with rfl | rfl
  · exact hset (by simpa using hk)
  · exact hset hk

section Passes

variable {debugLog : Bool} {startPc : BitVec 32} {insts : List InstInfo} {thumb : Bool}

/-- One instruction of the first pass. -/
theorem markInst_spec {metadata metadata' : List InstMetadata} {x : InstInfo × Nat}
    (h : markInst debugLog startPc insts thumb metadata x = some metadata') :
    metadata'.length = metadata.length ∧ (∀ k, EntryAt metadata k → EntryAt metadata' k) ∧
      (x.1.isLocalBranch = true → insts.length < 2 ^ 29 → x.2 < insts.length → ∀ imm k,
        x.1.operands.head? = some (.imm imm) → k < insts.length → k < metadata.length →
          branchTargetPc startPc thumb x.2 imm = instPc startPc thumb k → EntryAt metadata' k) := by
  unfold markInst at h
  split at h
  · rename_i hbranch
    obtain ⟨imm, himm, rfl⟩ := Option.map_eq_some_iff.mp h
    refine ⟨length_markBranch .., fun k hk => hk.markBranch _ _, ?_⟩
    intro _ hlen hx imm' k himm' hk hk' htarget
    rw [himm'] at himm
    obtain rfl : imm' = imm := Option.some.inj himm
    rw [htarget]
    exact entryAt_markBranch hk' _ (analyzeBranchLabel_eq _ hlen hx hk)
  · rename_i hbranch
    obtain rfl := Option.some.inj h
    exact ⟨rfl, fun k hk => hk, fun hb => absurd hb hbranch⟩

/-- **The first pass** marks every instruction a branch leads to. -/
theorem markAll_spec {xs : List (InstInfo × Nat)} {metadata metadata' : List InstMetadata}
    (hlen : insts.length < 2 ^ 29) (hxs : ∀ x ∈ xs, x.2 < insts.length)
    (h : xs.foldlM (markInst debugLog startPc insts thumb) metadata = some metadata') :
    metadata'.length = metadata.length ∧ (∀ k, EntryAt metadata k → EntryAt metadata' k) ∧
      ∀ x ∈ xs, x.1.isLocalBranch = true → ∀ imm k, x.1.operands.head? = some (.imm imm) →
        k < insts.length → k < metadata.length →
          branchTargetPc startPc thumb x.2 imm = instPc startPc thumb k → EntryAt metadata' k := by
  induction xs generalizing metadata with
  | nil =>
      obtain rfl := Option.some.inj h
      exact ⟨rfl, fun k hk => hk, fun x hx => absurd hx List.not_mem_nil⟩
  | cons x xs ih =>
      rw [List.foldlM_cons, Option.bind_eq_bind, Option.bind_eq_some_iff] at h
      obtain ⟨mid, hmid, hrest⟩ := h
      obtain ⟨hlength, hkeep, hmark⟩ := markInst_spec hmid
      rw [List.forall_mem_cons] at hxs
      obtain ⟨hlength', hkeep', hmark'⟩ := ih hxs.2 hrest
      refine ⟨hlength'.trans hlength, fun k hk => hkeep' k (hkeep k hk), ?_⟩
      intro y hy hbranch imm k himm hk hk' htarget
      rcases List.mem_cons.mp hy with rfl | hy
      · exact hkeep' k (hmark hbranch hlen hxs.1 imm k himm hk hk' htarget)
      · exact hmark' y hy hbranch imm k himm hk (by rw [hlength]; exact hk') htarget

/-- It goes through when the labels are immediates. -/
theorem markAll_isSome {xs : List (InstInfo × Nat)} (metadata : List InstMetadata)
    (h : ∀ x ∈ xs, x.1.isLocalBranch = true → ∃ imm, x.1.operands.head? = some (.imm imm)) :
    (xs.foldlM (markInst debugLog startPc insts thumb) metadata).isSome := by
  induction xs generalizing metadata with
  | nil => rfl
  | cons x xs ih =>
      rw [List.forall_mem_cons] at h
      rw [List.foldlM_cons]
      have hfirst : ∃ mid, markInst debugLog startPc insts thumb metadata x = some mid := by
        unfold markInst
        split
        · rename_i hbranch
          obtain ⟨imm, himm⟩ := h.1 hbranch
          rw [himm]
          exact ⟨_, rfl⟩
        · exact ⟨_, rfl⟩
      obtain ⟨mid, hmid⟩ := hfirst
      rw [hmid]
      exact ih mid h.2

end Passes

/-! ## The second pass -/

/-- Blocks from `lo` on up to `hi`, none empty, one behind the other. -/
def Tiles : Nat → List BasicBlock → Nat → Prop
  | lo, [], hi => lo = hi
  | lo, block :: blocks, hi =>
      block.startIndex = lo ∧ block.startIndex ≤ block.endIndex ∧
        Tiles (block.endIndex + 1) blocks hi

/-- One more block. -/
theorem Tiles.snoc {lo hi : Nat} {blocks : List BasicBlock} {block : BasicBlock}
    (h : Tiles lo blocks hi) (hstart : block.startIndex = hi)
    (hle : block.startIndex ≤ block.endIndex) :
    Tiles lo (blocks ++ [block]) (block.endIndex + 1) := by
  induction blocks generalizing lo with
  | nil => exact ⟨hstart.trans (Eq.symm h), hle, rfl⟩
  | cons first blocks ih => exact ⟨h.1, h.2.1, ih h.2.2⟩

theorem Tiles.le {lo hi : Nat} {blocks : List BasicBlock} (h : Tiles lo blocks hi) : lo ≤ hi := by
  induction blocks generalizing lo with
  | nil => exact le_of_eq h
  | cons block blocks ih =>
      obtain ⟨rfl, hle, hrest⟩ := h
      exact hle.trans (Nat.le_of_succ_le (ih hrest))

/-- **Tiles** have each position of the interval in one of them. -/
theorem Tiles.existsUnique {lo hi : Nat} {blocks : List BasicBlock} (h : Tiles lo blocks hi)
    {i : Nat} (hlo : lo ≤ i) (hhi : i < hi) :
    ∃! block, block ∈ blocks ∧ block.startIndex ≤ i ∧ i ≤ block.endIndex := by
  induction blocks generalizing lo with
  | nil => exact absurd (hlo.trans_lt hhi) (by rw [show lo = hi from h]; exact lt_irrefl _)
  | cons block blocks ih =>
      obtain ⟨rfl, hle, hrest⟩ := h
      -- a later block starts behind this one
      have hlater : ∀ {lo hi : Nat} {blocks : List BasicBlock}, Tiles lo blocks hi →
          ∀ block ∈ blocks, lo ≤ block.startIndex := by
        intro lo hi blocks
        induction blocks generalizing lo with
        | nil => exact fun _ block hmem => absurd hmem List.not_mem_nil
        | cons first blocks ih =>
            rintro ⟨rfl, hle, hrest⟩ block hmem
            rcases List.mem_cons.mp hmem with rfl | hmem
            · exact le_rfl
            · exact (hle.trans (Nat.le_succ _)).trans (ih hrest block hmem)
      rcases Nat.lt_or_ge block.endIndex i with hlt | hge
      · obtain ⟨found, ⟨hmem, hin⟩, honly⟩ := ih hrest hlt
        refine ⟨found, ⟨List.mem_cons_of_mem _ hmem, hin⟩, ?_⟩
        rintro other ⟨hother, hother'⟩
        rcases List.mem_cons.mp hother with rfl | hother
        · exact absurd hother'.2 (Nat.not_le.mpr hlt)
        · exact honly other ⟨hother, hother'⟩
      · refine ⟨block, ⟨List.mem_cons_self, hlo, hge⟩, ?_⟩
        rintro other ⟨hother, hother'⟩
        rcases List.mem_cons.mp hother with rfl | hother
        · rfl
        · have := hlater hrest other hother
          omega

section Split

variable (startPc : BitVec 32) (thumb : Bool) (metadata : List InstMetadata)

/-- **The invariant of the second pass** behind some instructions. -/
structure SplitInv (before : List InstInfo) (s : BlockSplit) : Prop where
  tiles : Tiles 0 s.blocks s.blockStart
  start_le : s.blockStart ≤ before.length
  fresh : ∀ block ∈ s.blocks,
    block = .new (instPc startPc thumb block.startIndex) block.startIndex block.endIndex
  entries : ∀ k < before.length, EntryAt metadata k →
    s.blockStart = k ∨ ∃ block ∈ s.blocks, block.startIndex = k
  branches : ∀ x ∈ before.zipIdx, x.1.isLocalBranch = true →
    ∃ block ∈ s.blocks, block.endIndex = x.2

variable {startPc thumb metadata}

/-- A block is pushed. -/
theorem SplitInv.push {before : List InstInfo} {s : BlockSplit}
    (h : SplitInv startPc thumb metadata before s) (endIndex : Nat)
    (hle : s.blockStart ≤ endIndex) :
    Tiles 0 (s.push startPc thumb endIndex (endIndex + 1)).blocks (endIndex + 1) ∧
      (∀ block ∈ (s.push startPc thumb endIndex (endIndex + 1)).blocks, block =
        .new (instPc startPc thumb block.startIndex) block.startIndex block.endIndex) ∧
      (∀ k < before.length, EntryAt metadata k →
        ∃ block ∈ (s.push startPc thumb endIndex (endIndex + 1)).blocks, block.startIndex = k) ∧
      (∀ x ∈ before.zipIdx, x.1.isLocalBranch = true →
        ∃ block ∈ (s.push startPc thumb endIndex (endIndex + 1)).blocks, block.endIndex = x.2) := by
  refine ⟨h.tiles.snoc rfl hle, ?_, ?_, ?_⟩
  · intro block hmem
    rcases List.mem_append.mp hmem with hmem | hmem
    · exact h.fresh block hmem
    · rw [List.mem_singleton.mp hmem]
      rfl
  · intro k hk hentry
    rcases h.entries k hk hentry with hstart | ⟨block, hmem, hblock⟩
    · exact ⟨_, List.mem_append_right _ List.mem_cons_self, hstart⟩
    · exact ⟨block, List.mem_append_left _ hmem, hblock⟩
  · intro x hx hbranch
    obtain ⟨block, hmem, hblock⟩ := h.branches x hx hbranch
    exact ⟨block, List.mem_append_left _ hmem, hblock⟩

/-- One instruction of the second pass. -/
theorem SplitInv.splitInst {before : List InstInfo} {s : BlockSplit} (inst : InstInfo)
    (h : SplitInv startPc thumb metadata before s) :
    SplitInv startPc thumb metadata (before ++ [inst])
      (AdvancedSlop.splitInst startPc thumb metadata s (inst, before.length)) := by
  -- in front of the instruction
  have hentry : ∃ t, t = (if (metadata.getD before.length .default).localBranchEntry then
        if s.blockStart < before.length then
          s.push startPc thumb (before.length - 1) before.length
        else { s with blockStart := before.length }
      else s) ∧ SplitInv startPc thumb metadata before t ∧
        (EntryAt metadata before.length → t.blockStart = before.length) := by
    refine ⟨_, rfl, ?_⟩
    split
    · rename_i hmark
      split
      · rename_i hlt
        have hsucc : before.length - 1 + 1 = before.length := by omega
        obtain ⟨htiles, hfresh, hentries, hbranches⟩ := h.push (before.length - 1)
          (by omega)
        rw [hsucc] at htiles hfresh hentries hbranches
        exact ⟨⟨htiles, le_rfl, hfresh, fun k hk he => .inr (hentries k hk he), hbranches⟩,
          fun _ => rfl⟩
      · rename_i hge
        have hstart : s.blockStart = before.length := le_antisymm h.start_le (Nat.le_of_not_lt hge)
        have hsame : ({ s with blockStart := before.length } : BlockSplit) = s := by rw [← hstart]
        rw [hsame]
        exact ⟨h, fun _ => hstart⟩
    · rename_i hmark
      exact ⟨h, fun he => absurd he hmark⟩
  obtain ⟨t, ht, hinv, hstart⟩ := hentry
  have hstep : AdvancedSlop.splitInst startPc thumb metadata s (inst, before.length) =
      if inst.isLocalBranch then t.push startPc thumb before.length (before.length + 1) else t := by
    rw [ht]
    rfl
  rw [hstep]
  have hlength : (before ++ [inst]).length = before.length + 1 := by simp
  have hzip : (before ++ [inst]).zipIdx = before.zipIdx ++ [(inst, before.length)] := by
    rw [List.zipIdx_append]
    simp
  split
  · rename_i hbranch
    obtain ⟨htiles, hfresh, hentries, hbranches⟩ := hinv.push _ hinv.start_le
    refine ⟨htiles, le_of_eq hlength.symm, hfresh, ?_, ?_⟩
    · intro k hk he
      rw [hlength] at hk
      rcases Nat.lt_succ_iff_lt_or_eq.mp hk with hk | rfl
      · exact .inr (hentries k hk he)
      · exact .inr ⟨_, List.mem_append_right _ List.mem_cons_self, hstart he⟩
    · intro x hx hb
      rw [hzip] at hx
      rcases List.mem_append.mp hx with hx | hx
      · exact hbranches x hx hb
      · rw [List.mem_singleton.mp hx]
        exact ⟨_, List.mem_append_right _ List.mem_cons_self, rfl⟩
  · rename_i hbranch
    refine ⟨hinv.tiles, hinv.start_le.trans (by omega), hinv.fresh, ?_, ?_⟩
    · intro k hk he
      rw [hlength] at hk
      rcases Nat.lt_succ_iff_lt_or_eq.mp hk with hk | rfl
      · exact hinv.entries k hk he
      · exact .inl (hstart he)
    · intro x hx hb
      rw [hzip] at hx
      rcases List.mem_append.mp hx with hx | hx
      · exact hinv.branches x hx hb
      · rw [List.mem_singleton.mp hx] at hb
        exact absurd hb hbranch

/-- All of them. -/
theorem splitAll_inv (insts : List InstInfo) :
    SplitInv startPc thumb metadata insts
      (insts.zipIdx.foldl (AdvancedSlop.splitInst startPc thumb metadata) ⟨[], 0⟩) := by
  induction insts using List.reverseRecOn with
  | nil => exact ⟨rfl, le_rfl, by simp, by simp, by simp⟩
  | append_singleton insts inst ih =>
      rw [List.zipIdx_append, List.foldl_append]
      simpa using ih.splitInst inst

/-- **The second pass** splits the instructions at the marks and behind the branches. -/
theorem splitBlocks_spec (insts : List InstInfo) :
    Tiles 0 (splitBlocks startPc insts thumb metadata) insts.length ∧
      (∀ block ∈ splitBlocks startPc insts thumb metadata, block =
        .new (instPc startPc thumb block.startIndex) block.startIndex block.endIndex) ∧
      (∀ k < insts.length, EntryAt metadata k →
        ∃ block ∈ splitBlocks startPc insts thumb metadata, block.startIndex = k) ∧
      ∀ x ∈ insts.zipIdx, x.1.isLocalBranch = true →
        ∃ block ∈ splitBlocks startPc insts thumb metadata, block.endIndex = x.2 := by
  have hinv := @splitAll_inv startPc thumb metadata insts
  unfold splitBlocks
  simp only
  generalize insts.zipIdx.foldl _ _ = s at hinv ⊢
  split
  · rename_i hlt
    have hsucc : insts.length - 1 + 1 = insts.length := by omega
    obtain ⟨htiles, hrest⟩ := hinv.push (insts.length - 1) (by omega)
    rw [hsucc] at htiles hrest
    exact ⟨htiles, hrest⟩
  · rename_i hge
    have hstart : s.blockStart = insts.length := le_antisymm hinv.start_le (Nat.le_of_not_lt hge)
    refine ⟨hstart ▸ hinv.tiles, hinv.fresh, fun k hk he => ?_, hinv.branches⟩
    rcases hinv.entries k hk he with h | h
    · omega
    · exact h

end Split

/-! ## Live registers -/

/-- Behind the position an instruction reads the register, or writes it on a condition only, and
none before it writes it for certain. -/
def NeededAt (insts : List InstInfo) (i : Nat) (r : Reg) : Prop :=
  ∃ j inst, i ≤ j ∧ insts[j]? = some inst ∧
    (inst.srcRegs.isReserved r = true ∨ inst.cond ≠ .al ∧ inst.outRegs.isReserved r = true) ∧
      ∀ m inst', i ≤ m → m < j → insts[m]? = some inst' →
        ¬ (inst'.cond = .al ∧ inst'.outRegs.isReserved r = true)

/-- The first instruction does not matter to the later positions. -/
theorem neededAt_succ (inst : InstInfo) (insts : List InstInfo) (i : Nat) (r : Reg) :
    NeededAt (inst :: insts) (i + 1) r ↔ NeededAt insts i r := by
  constructor
  · rintro ⟨j, use, hij, hj, huse, hkill⟩
    obtain ⟨j, rfl⟩ : ∃ n, j = n + 1 := ⟨j - 1, by omega⟩
    refine ⟨j, use, by omega, by simpa using hj, huse, fun m inst' him hmj hm => ?_⟩
    exact hkill (m + 1) inst' (by omega) (by omega) (by simpa using hm)
  · rintro ⟨j, use, hij, hj, huse, hkill⟩
    refine ⟨j + 1, use, by omega, by simpa using hj, huse, fun m inst' him hmj hm => ?_⟩
    obtain ⟨m, rfl⟩ : ∃ n, m = n + 1 := ⟨m - 1, by omega⟩
    exact hkill m inst' (by omega) (by omega) (by simpa using hm)

/-- What is needed in front of an instruction. -/
theorem neededAt_zero (inst : InstInfo) (insts : List InstInfo) (r : Reg) :
    NeededAt (inst :: insts) 0 r ↔
      (inst.srcRegs.isReserved r = true ∨ inst.cond ≠ .al ∧ inst.outRegs.isReserved r = true) ∨
        ¬ (inst.cond = .al ∧ inst.outRegs.isReserved r = true) ∧ NeededAt insts 0 r := by
  constructor
  · rintro ⟨j, use, -, hj, huse, hkill⟩
    rcases j with - | j
    · obtain rfl : inst = use := by simpa using hj
      exact .inl huse
    · refine .inr ⟨hkill 0 inst le_rfl (Nat.succ_pos j) rfl, j, use, Nat.zero_le _, by simpa using hj,
        huse, fun m inst' _ hmj hm => ?_⟩
      exact hkill (m + 1) inst' (Nat.zero_le _) (by omega) (by simpa using hm)
  · rintro (huse | ⟨hfirst, j, use, -, hj, huse, hkill⟩)
    · exact ⟨0, inst, le_rfl, rfl, huse, fun m _ _ hm => absurd hm (Nat.not_lt_zero m)⟩
    · refine ⟨j + 1, use, Nat.zero_le _, by simpa using hj, huse, fun m inst' _ hmj hm => ?_⟩
      rcases m with - | m
      · obtain rfl : inst = inst' := by simpa using hm
        exact hfirst
      · exact hkill m inst' (Nat.zero_le _) (by omega) (by simpa using hm)

theorem length_liveSets (insts : List InstInfo) : (liveSets insts).length = insts.length + 1 := by
  induction insts with
  | nil => rfl
  | cons inst insts ih => rw [liveSets, List.length_cons, ih, List.length_cons]

/-- The transfer of one instruction. -/
theorem isReserved_liveBefore (inst : InstInfo) (live : RegReserve) (r : Reg) :
    (liveBefore inst live).isReserved r = true ↔
      (inst.srcRegs.isReserved r = true ∨ inst.cond ≠ .al ∧ inst.outRegs.isReserved r = true) ∨
        ¬ (inst.cond = .al ∧ inst.outRegs.isReserved r = true) ∧ live.isReserved r = true := by
  unfold liveBefore
  by_cases hcond : inst.cond = .al
  · simp only [hcond, ne_eq, not_true, if_false, false_and, or_false, true_and,
      RegReserve.isReserved_add, RegReserve.isReserved_sub]
    cases inst.outRegs.isReserved r <;> cases inst.srcRegs.isReserved r <;> simp
  · simp only [hcond, ne_eq, not_false_iff, if_true, false_and, true_and,
      RegReserve.isReserved_add, RegReserve.isReserved_sub]
    cases inst.outRegs.isReserved r <;> cases inst.srcRegs.isReserved r <;> simp

/-- **The backward pass** finds the registers that are needed, and no others. -/
theorem liveSets_iff (insts : List InstInfo) (i : Nat) (r : Reg) :
    ((liveSets insts).getD i .new).isReserved r = true ↔ NeededAt insts i r := by
  induction insts generalizing i with
  | nil =>
      have hnone : ¬ NeededAt [] i r := by
        rintro ⟨j, inst, -, hj, -⟩
        simp at hj
      simp only [hnone, iff_false]
      rcases i with - | i <;> simp [liveSets]
  | cons inst insts ih =>
      rcases i with - | i
      · rw [neededAt_zero, ← ih 0, ← isReserved_liveBefore]
        obtain ⟨first, rest, hrest⟩ := List.exists_cons_of_length_pos
          (show 0 < (liveSets insts).length by rw [length_liveSets]; exact Nat.succ_pos _)
        rw [liveSets, hrest]
        rfl
      · rw [neededAt_succ, ← ih i]
        rfl

/-- The registers a block writes. -/
theorem isReserved_outputs (insts : List InstInfo) (regs : RegReserve) (r : Reg) :
    (insts.foldr (fun inst regs => regs + inst.outRegs) regs).isReserved r = true ↔
      regs.isReserved r = true ∨ ∃ inst ∈ insts, inst.outRegs.isReserved r = true := by
  induction insts with
  | nil => simp
  | cons inst insts ih =>
      rw [List.foldr_cons, RegReserve.isReserved_add, Bool.or_eq_true, ih]
      rw [List.exists_mem_cons_iff, or_assoc]
      exact or_congr_right or_comm

/-! ## Labels -/

/-- The label of a branch is an immediate. -/
def InstInfo.Decoded (inst : InstInfo) : Prop :=
  inst.isLocalBranch = true → ∃ imm, inst.operands.head? = some (.imm imm)

/-- `Cond::from`. -/
def Cond.ofBits (bits : BitVec 4) : Cond :=
  [.eq, .ne, .hs, .lo, .mi, .pl, .vs, .vc, .hi, .ls, .ge, .lt, .gt, .le, .al].getD bits.toNat .nv

/-- `b` and `bl` of the disassembler. -/
def armBranch (op : Op) (outRegs : List Reg) (opcode : BitVec 32) : InstInfo :=
  let op0 := (opcode <<< 8).sshiftRight 6
  let cond := Cond.ofBits (opcode.extractLsb' 28 4)
  if cond = .nv then
    .new .al .blx [.imm (op0 ||| (opcode &&& 0x1000000) >>> 23)] .new (.ofRegs [.lr, .pc]) 1
  else .new cond op [.imm op0] .new (.ofRegs outRegs) 1

/-- `b_t`. -/
def thumbBranch (opcode : BitVec 16) : InstInfo :=
  .ofThumb .bT [.imm (((opcode <<< 5).sshiftRight 4).signExtend 32)] .new (.ofRegs [.pc]) 1

/-- `b_cond`. -/
def thumbBranchCond (op : Op) (opcode : BitVec 16) : InstInfo :=
  .ofThumb op [.imm ((opcode.setWidth 8).signExtend 32 <<< 1)] (.ofRegs [.cpsr]) (.ofRegs [.pc]) 1

/-- **The branches of the disassembler** have immediate labels. -/
theorem branches_decoded (op : Op) (outRegs : List Reg) (opcode : BitVec 32) (opcodeT : BitVec 16) :
    (armBranch op outRegs opcode).Decoded ∧ (thumbBranch opcodeT).Decoded ∧
      (thumbBranchCond op opcodeT).Decoded := by
  refine ⟨fun _ => ?_, fun _ => ⟨_, rfl⟩, fun _ => ?_⟩
  · unfold armBranch
    simp only
    split <;> exact ⟨_, rfl⟩
  · unfold thumbBranchCond InstInfo.ofThumb
    simp only
    split <;> exact ⟨_, rfl⟩

/-! ## The law -/

/-- The last pass leaves the spans alone. -/
theorem tiles_resolve (insts : List InstInfo) {lo hi : Nat} {blocks : List BasicBlock} :
    Tiles lo (blocks.map (.resolveLiveRegs insts)) hi ↔ Tiles lo blocks hi := by
  induction blocks generalizing lo with
  | nil => exact Iff.rfl
  | cons block blocks ih => exact and_congr_right fun _ => and_congr_right fun _ => ih

/-- **Basic blocks** of decoded instructions.  A list takes up less than 2^31 bytes of the host's
memory, an instruction more than four.

The blocks cover the instructions in order, each instruction once.  A branch without a link ends its
block, and where it leads to an instruction of the list, that starts one.  The addresses of the
blocks are those of their first instructions.  The live sets are the registers that are needed, the
output registers those that are written. -/
theorem basic_blocks_law (debugLog : Bool) (startPc : BitVec 32) (insts : List InstInfo)
    (thumb : Bool) (hdecoded : ∀ inst ∈ insts, inst.Decoded) (hlen : insts.length < 2 ^ 29) :
    ∃ a, createBasicBlocks debugLog startPc insts thumb = some a ∧
      Tiles 0 a.basicBlocks insts.length ∧
      (∀ i < insts.length,
        ∃! block, block ∈ a.basicBlocks ∧ block.startIndex ≤ i ∧ i ≤ block.endIndex) ∧
      (∀ i inst, insts[i]? = some inst → inst.isLocalBranch = true →
        (∃ block ∈ a.basicBlocks, block.endIndex = i) ∧
          ∀ imm k, inst.operands.head? = some (.imm imm) → k < insts.length →
            branchTargetPc startPc thumb i imm = instPc startPc thumb k →
              ∃ block ∈ a.basicBlocks, block.startIndex = k) ∧
      (∀ block ∈ a.basicBlocks, a.getPcFromInst block.startIndex = some block.startPc) ∧
      ∀ block ∈ a.basicBlocks,
        block.liveRegs.length = (block.insts insts).length + 1 ∧
        (∀ i r, (block.liveRegs.getD i .new).isReserved r = true ↔
          NeededAt (block.insts insts) i r) ∧
        ∀ r, block.outputRegs.isReserved r = true ↔
          ∃ inst ∈ block.insts insts, inst.outRegs.isReserved r = true := by
  have hmem : ∀ x ∈ insts.zipIdx, x.2 < insts.length ∧ insts[x.2]? = some x.1 := by
    intro x hx
    have hget := List.mem_zipIdx_iff_getElem?.mp hx
    exact ⟨(List.getElem?_eq_some_iff.mp hget).1, hget⟩
  obtain ⟨metadata, hmark⟩ := Option.isSome_iff_exists.mp
    (@markAll_isSome debugLog startPc insts thumb _
      (List.replicate insts.length .default) fun x hx hbranch =>
        hdecoded x.1 (List.mem_of_getElem? (hmem x hx).2) hbranch)
  obtain ⟨-, -, hentry⟩ := markAll_spec hlen (fun x hx => (hmem x hx).1) hmark
  obtain ⟨htiles, hfresh, hentries, hbranches⟩ :=
    @splitBlocks_spec startPc thumb metadata insts
  generalize hblocks : splitBlocks startPc insts thumb metadata = blocks at *
  have hcreate : createBasicBlocks debugLog startPc insts thumb =
      some ⟨thumb, blocks.map (.resolveLiveRegs insts), metadata, immStores startPc insts thumb⟩ := by
    rw [createBasicBlocks, hmark, Option.map_some, hblocks]
  have htiles' := (tiles_resolve insts).mpr htiles
  refine ⟨_, hcreate, htiles', fun i hi => htiles'.existsUnique (Nat.zero_le i) hi, ?_, ?_, ?_⟩
  · intro i inst hinst hbranch
    have hzip : (inst, i) ∈ insts.zipIdx := List.mem_zipIdx_iff_getElem?.mpr hinst
    refine ⟨?_, fun imm k himm hk htarget => ?_⟩
    · obtain ⟨block, hblock, hend⟩ := hbranches _ hzip hbranch
      exact ⟨_, List.mem_map_of_mem hblock, hend⟩
    · have hk' : k < (List.replicate insts.length InstMetadata.default).length := by simpa using hk
      obtain ⟨block, hblock, hstart⟩ := hentries k hk
        (hentry _ hzip hbranch imm k himm hk hk' htarget)
      exact ⟨_, List.mem_map_of_mem hblock, hstart⟩
  · intro block hblock
    obtain ⟨block, hmem', rfl⟩ := List.mem_map.mp hblock
    obtain ⟨first, rest, rfl⟩ := List.exists_cons_of_ne_nil (List.ne_nil_of_mem hmem')
    have hfirst : first.startPc = startPc := by
      rw [hfresh first List.mem_cons_self, htiles.1]
      simp [BasicBlock.new, instPc]
    have hpc : block.startPc = instPc startPc thumb block.startIndex := by
      rw [hfresh block hmem']
      rfl
    show some (first.startPc + BitVec.ofNat 32 block.startIndex <<< pcShift thumb) =
      some block.startPc
    rw [hfirst, hpc]
    rfl
  · intro block hblock
    obtain ⟨block, hmem', rfl⟩ := List.mem_map.mp hblock
    refine ⟨length_liveSets _, fun i r => liveSets_iff _ i r, fun r => ?_⟩
    have hout : block.outputRegs = .new := by rw [hfresh block hmem']; rfl
    refine (isReserved_outputs _ _ r).trans ?_
    rw [hout, RegReserve.isReserved_new]
    simp only [Bool.false_eq_true, false_or]
    rfl

/-- A flag is loaded and tested until it is set. -/
def pollLoop : List InstInfo :=
  [.ofThumb (.ldrT ⟨true, false, true, false, 2⟩) [.reg .r0 none, .reg .r1 none, .imm 0]
      (.ofRegs [.r1]) (.ofRegs [.r0]) 3,
    .ofThumb .cmpT [.reg .r0 none, .imm 0] (.ofRegs [.r0]) (.ofRegs [.cpsr]) 1,
    thumbBranchCond .beqT 0xD0FC,
    .ofThumb .movT [.reg .r2 none, .imm 1] .new (.ofRegs [.r2, .cpsr]) 1]

/-- **A block starts** where the loop does, and one ends with it; `r1` is live at its start. -/
theorem pollLoop_blocks : ∃ a, createBasicBlocks false 0x08000000 pollLoop true = some a ∧
    a.basicBlocks.map (fun block => (block.startIndex, block.endIndex)) = [(0, 2), (3, 3)] ∧
      ∃ block ∈ a.basicBlocks, block.startIndex = 0 ∧
        (block.liveRegs.getD 0 .new).isReserved .r1 = true := by
  obtain ⟨a, ha, -, -, hbranch, -, hlive⟩ :=
    basic_blocks_law false 0x08000000 pollLoop true
      (by simp only [pollLoop, List.forall_mem_cons]
          exact ⟨nofun, nofun, fun _ => ⟨_, rfl⟩, nofun, by simp⟩)
      (by decide)
  obtain ⟨block, hmem, hstart⟩ := (hbranch 2 _ rfl (by decide)).2 _ 0 rfl (by decide) (by decide)
  have hspans : a.basicBlocks.map (fun block => (block.startIndex, block.endIndex)) =
      [(0, 2), (3, 3)] := by
    have hrun : (createBasicBlocks false 0x08000000 pollLoop true).map (fun a =>
        a.basicBlocks.map fun block => (block.startIndex, block.endIndex)) =
          some [(0, 2), (3, 3)] := by decide
    rw [ha] at hrun
    exact Option.some.inj hrun
  refine ⟨a, ha, hspans, block, hmem, hstart, ?_⟩
  refine ((hlive block hmem).2.1 0 .r1).mpr ⟨0, pollLoop.head (by decide), le_rfl, ?_, by decide, ?_⟩
  · have hend : block.endIndex = 2 := by
      have hin := List.mem_map_of_mem (f := fun block : BasicBlock =>
        (block.startIndex, block.endIndex)) hmem
      rw [hspans, hstart] at hin
      simpa using hin
    rw [BasicBlock.insts, hstart, hend]
    rfl
  · exact fun m _ _ hm => absurd hm (Nat.not_lt_zero m)

end AdvancedSlop
