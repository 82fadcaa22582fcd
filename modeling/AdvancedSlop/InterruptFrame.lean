/-
# The frame of an interrupt

`interrupt` and `uninterrupt` of `src/core/hle/bios.rs` over the guest's memory.  The entry pushes
`r0` to `r3`, `r12` and the return address below the stack pointer of IRQ mode; the return takes
them from there, with a raw read of the shared memory.

* `guestBus` : the memory behind the bios;
* `memWriteMultipleSlice_ram`, `frameRead_ram` : a frame in one image is written and read as its
  words;
* `Interrupted`, `Restored` : an interrupt with a handler that keeps what it has to, and what the
  interrupted program sees of it;
* `interrupt_transparent` : the program sees nothing, unless the frame holds the flags word of the
  `IntrWait` that the return satisfies;
* `interrupt_overFlags` : there it does.
-/
import AdvancedSlop.BulkWrite
import AdvancedSlop.CpuInterrupt
import AdvancedSlop.FastPath
import AdvancedSlop.RegisterBanks

namespace AdvancedSlop

open IndexedLoop TransitionSystem WordMemory

variable {D : Type*}

/-! ## The memory behind the bios -/

section Bus

variable (dev : MemDevices D)

/-- The words `uninterrupt` takes from its stack: the raw shared memory where the page of the stack
pointer is mapped. -/
def frameRead (sp : BitVec 32) (n : ℕ) (g : GuestMem D) :
    Option (List (BitVec 32) × GuestMem D) :=
  let shmOffset := getShmOffset g.mmuRead (alignedAddr .word sp.toNat)
  if shmOffset ≠ 0 then
    if shmOffset + n * 4 ≤ totalMemSize then some (readWords 4 g.jit.shm shmOffset n, g) else none
  else memReadMultipleSlice dev false .word sp.toNat n g

/-- The guest's memory as the bios routines use it, none once an access has left the host's
tables.  None of these accesses reads the bios region, so the copy of `bios_open_bus` in the memory
is not needed. -/
def guestBus : Bus (Option (GuestMem D)) where
  memRead addr s :=
    let r : Option (BitVec 32 × GuestMem D) := s.map (memRead dev .word addr.toNat)
    ((r.map Prod.fst).getD 0, r.map Prod.snd)
  memWrite addr value s := s.bind (memWrite dev .word addr.toNat value)
  memReadMultiple sp n s :=
    let r := s.bind (frameRead dev sp n)
    (fun i => ((r.map Prod.fst).getD []).getD i 0, r.map Prod.snd)
  memWriteMultiple sp words s := s.bind (memWriteMultipleSlice dev .word sp.toNat words)

end Bus

/-! ## Frames in work memory -/

section Frame

variable {dev : MemDevices D} {s t : GuestMem D} {width : MemWidth} {addr size : ℕ}

/-- A range inside one image of a work memory. -/
def InOneImage (addr size : ℕ) : Prop :=
  (addr / 0x1000000 = 2 ∧ addr % 0x40000 + size ≤ 0x40000) ∨
    (addr / 0x1000000 = 3 ∧ addr % 0x8000 + size ≤ 0x8000)

instance (addr size : ℕ) : Decidable (InOneImage addr size) := inferInstanceAs (Decidable (_ ∨ _))

theorem InOneImage.isRam (h : InOneImage addr size) : IsRam addr := h.imp And.left And.left

/-- There is no border inside one image. -/
theorem InOneImage.not_crossesBorder (h : InOneImage addr size) : ¬ CrossesBorder addr size := by
  rintro ⟨border, hborder, hlow, hhigh⟩
  unfold IsMirrorBorder at hborder
  unfold InOneImage at h
  omega

/-- The work memories are mapped for reads. -/
theorem mmuRead_ne_zero (h : TablesGood s) (hram : IsRam addr) : s.mmuRead (addr / 4096) ≠ 0 := by
  have hentry : (updateAllArm7 s.cart).mmuRead (addr / 4096) ≠ 0 := by
    unfold IsRam at hram
    simp only [updateAllArm7, mmuReadEntry, ewramRegion, iwramRegion]
    split_ifs <;> omega
  rcases h.read with hread | hread
  · rw [hread]
    exact hentry
  · have hhead : ¬ RomHeadPage (addr / 4096) := by
      unfold RomHeadPage
      unfold IsRam at hram
      omega
    rw [hread, mmuUnmapRomHead_apply, if_neg hhead]
    exact hentry

variable (dev) in
/-- A read of work memory takes the word. -/
theorem memRead_ram (h : TablesGood s) (hram : IsRam (alignedAddr width addr)) :
    memRead dev width addr s = (s.load width (ramOffset (alignedAddr width addr)), s) := by
  have hmapped := mmuRead_ne_zero h hram
  rw [memRead_of_mapped dev hmapped, getShmOffset_read_ram h hram hmapped]

variable (dev) in
/-- A frame in one image is read as its words. -/
theorem frameRead_ram (h : TablesGood s) {sp : BitVec 32} {n : ℕ}
    (himage : InOneImage (alignedAddr .word sp.toNat) (n * 4)) :
    frameRead dev sp n s =
      some (readWords 4 s.jit.shm (ramOffset (alignedAddr .word sp.toNat)) n, s) := by
  have hmapped := mmuRead_ne_zero h himage.isRam
  have hoffset := getShmOffset_read_ram h himage.isRam hmapped
  have hend := ramOffset_end himage.isRam himage.not_crossesBorder
  have hfast : getShmOffset s.mmuRead (alignedAddr .word sp.toNat) ≠ 0 :=
    fun hzero => hmapped (getShmOffset_eq_zero.mp hzero)
  refine (if_pos hfast).trans ?_
  rw [hoffset]
  exact if_pos hend

variable (dev) in
/-- The handlers of work memory succeed and change the word only. -/
theorem write_isRam (hram : IsRam addr) (value : width.Value) :
    ∃ t, MemoryIo.write dev width addr value s = some t ∧ t = { s with jit := t.jit } ∧
      t.jit.shm = writeWord width.bytes s.jit.shm (ramOffset addr) value := by
  rcases hram with hew | hiw
  · have hwrite := write_ewram dev width s value (show addr / 0x1000000 % 16 = 2 by omega)
    exact ⟨_, hwrite, rfl, write_shm_ram (.inl hew) hwrite⟩
  · have hwrite := write_iwram dev hiw value s
    exact ⟨_, hwrite, rfl, write_shm_ram (.inr hiw) hwrite⟩

variable (dev) in
/-- The handlers write the elements of a range without a border one after the other. -/
theorem writeEach_ram (hram : IsRam addr) {slice : List width.Value} (i : ℕ)
    (hborder : ¬ CrossesBorder addr ((i + slice.length) * width.bytes)) :
    ∃ t, writeEach (fun j => MemoryIo.write dev width (elementAddr width addr j)) i slice s = some t ∧
      t = { s with jit := t.jit } ∧
      t.jit.shm = writeWords width.bytes s.jit.shm (ramOffset addr + i * width.bytes) slice := by
  induction slice generalizing i s with
  | nil => exact ⟨s, rfl, rfl, (writeWords_nil ..).symm⟩
  | cons value slice ih =>
      have hin : i * width.bytes < (i + (value :: slice).length) * width.bytes :=
        Nat.mul_lt_mul_of_pos_right (by rw [List.length_cons]; omega) width.bytes_pos
      obtain ⟨hrami, hoffset⟩ := ramOffset_add hram hborder hin
      have helement : elementAddr width addr i = addr + i * width.bytes := by
        unfold IsRam at hrami
        exact Nat.mod_eq_of_lt (by omega)
      obtain ⟨u, hu, hsame, hshm⟩ := write_isRam dev (s := s) hrami value
      rw [List.length_cons, Nat.add_comm slice.length, ← Nat.add_assoc] at hborder
      obtain ⟨t, ht, hsame', hshm'⟩ := ih (s := u) (i + 1) hborder
      refine ⟨t, ?_, ?_, ?_⟩
      · rw [writeEach, helement, hu, Option.bind_some]
        exact ht
      · rw [hsame', hsame]
      · rw [hshm', hshm, hoffset, writeWords_cons, Nat.succ_mul, Nat.add_assoc]

variable (dev) in
/-- **A slice in one image** is written as its words, whether it is copied or goes to the handlers,
and whatever is compiled from the memory. -/
theorem memWriteMultipleSlice_ram (h : TablesGood s) (width : MemWidth) (addr : ℕ)
    (slice : List width.Value)
    (himage : InOneImage (alignedAddr width addr) (slice.length * width.bytes)) :
    ∃ t, memWriteMultipleSlice dev width addr slice s = some t ∧ t = { s with jit := t.jit } ∧
      t.jit.shm = writeWords width.bytes s.jit.shm (ramOffset (alignedAddr width addr)) slice := by
  by_cases hfast : getShmOffset s.jit.mmuWrite (alignedAddr width addr) ≠ 0 ∧
      allWritable s.jit.mmuWrite (alignedAddr width addr) (slice.length * width.bytes)
  · have hoffset := (getShmOffset_write h fun hzero =>
      hfast.1 (getShmOffset_eq_zero.mpr hzero)).2
    have hend := ramOffset_end himage.isRam himage.not_crossesBorder
    rw [slice_fast hfast, hoffset, copyToShm, if_pos hend]
    exact ⟨_, rfl, rfl, rfl⟩
  · have hborder := himage.not_crossesBorder
    rw [← Nat.zero_add slice.length] at hborder
    have hslow := writeEach_ram dev (s := s) himage.isRam 0 hborder
    rw [Nat.zero_mul, Nat.add_zero] at hslow
    rw [slice_slow hfast]
    exact hslow

end Frame

/-! ## The registers -/

/-- The words that `interrupt` pushes. -/
def frameWords (regs : ThreadRegs) : List (BitVec 32) :=
  [regs.gpRegs 0, regs.gpRegs 1, regs.gpRegs 2, regs.gpRegs 3, regs.gpRegs 12, regs.pc + 4]

/-- The registers in IRQ mode, before the frame is pushed. -/
def irqRegs (regs : ThreadRegs) : ThreadRegs := regs.setCpsr (handlerCpsr regs.cpsr) true

/-- The registers a handler at `pc` starts with. -/
def handlerRegs (regs : ThreadRegs) (pc : BitVec 32) : ThreadRegs :=
  { irqRegs regs with
    spsr := cpsrSetThumb (irqRegs regs).spsr ((irqRegs regs).pc.getLsbD 0)
    sp := (irqRegs regs).sp - 24
    lr := 0xFFF00000
    pc := pc }

/-- The registers in IRQ mode, after the words of the frame are popped. -/
def poppedRegs (regs : ThreadRegs) (words : ℕ → BitVec 32) : ThreadRegs :=
  { regs with
    gpRegs := fun i => if i < 4 then words i else if i = 12 then words 4 else regs.gpRegs i
    sp := regs.sp + 24
    lr := words 5
    pc := ((words 5 - 4) &&& ~~~1) ||| (if cpsrThumb regs.spsr then 1 else 0) }

section Registers

variable {E : Type*} (bus : Bus E) (m : Machine E)

@[simp] theorem threadSetCpsr_rest (value : BitVec 32) (save : Bool) :
    (threadSetCpsr value save m).dev.rest = m.dev.rest := by
  unfold threadSetCpsr cpuCheckForInterrupt
  split <;> rfl

/-- What the entry does to the memory and the registers. -/
theorem interrupt_spec :
    let pushed := bus.memWriteMultiple ((irqRegs m.dev.regs).sp - 24)
      (frameWords (irqRegs m.dev.regs)) m.dev.rest
    (interrupt bus m).dev.rest = (bus.memRead 0x3FFFFFC pushed).2 ∧
      (interrupt bus m).dev.regs =
        handlerRegs m.dev.regs (bus.memRead 0x3FFFFFC pushed).1 := by
  simp only [interrupt, threadSetCpsr_regs, threadSetCpsr_rest, withRegs_regs, withRegs_rest,
    withRest_regs, withRest_rest, withCpu_regs, withCpu_rest]
  exact ⟨rfl, rfl⟩

/-- What the return does. -/
theorem uninterrupt_spec :
    let popped := bus.memReadMultiple m.dev.regs.sp 6 (recheckWaitFlags bus m).dev.rest
    (uninterrupt bus m).dev.rest = popped.2 ∧
      (uninterrupt bus m).dev.regs =
        (poppedRegs m.dev.regs popped.1).setCpsr m.dev.regs.spsr false := by
  simp only [uninterrupt, recheckWaitFlags_regs, threadSetCpsr_regs, threadSetCpsr_rest,
    withRegs_regs, withRegs_rest]
  exact ⟨rfl, rfl⟩

end Registers

section Restore

variable {regs regs' : ThreadRegs} {b : Bank} {pc value : BitVec 32} {words : ℕ → BitVec 32}

/-- A handler runs in IRQ mode. -/
theorem cpsrMode_handlerCpsr (cpsr : BitVec 32) : cpsrMode (handlerCpsr cpsr) = 0x12 := by
  unfold cpsrMode handlerCpsr cpsrSetMode
  rw [BitVec.and_or_distrib_right, BitVec.and_assoc]
  simp

/-- Setting the bit that is there. -/
theorem cpsrSetThumb_self (cpsr : BitVec 32) : cpsrSetThumb cpsr (cpsrThumb cpsr) = cpsr := by
  unfold cpsrSetThumb cpsrThumb
  ext i hi
  by_cases h5 : i = 5
  · subst h5
    cases h : cpsr.getLsbD 5 <;> simp_all
  · have hbit : (0x20 : BitVec 32).getLsbD i = false ∧ (~~~0x20 : BitVec 32).getLsbD i = true := by
      interval_cases i <;> simp_all
    cases cpsr.getLsbD 5 <;> simp_all

/-- The registers a program sees, in its own mode and through the stack pointers of the others. -/
structure SameRegs (b : Bank) (regs regs' : ThreadRegs) : Prop where
  gpRegs : regs'.gpRegs = regs.gpRegs
  sp : regs'.sp = regs.sp
  lr : regs'.lr = regs.lr
  pc : regs'.pc = regs.pc
  cpsr : regs'.cpsr = regs.cpsr
  banks : ∀ bank, regs'.bankedSp b bank = regs.bankedSp b bank

/-- What a handler keeps from its first instruction to the trampoline. -/
structure KeepsRegs (regs regs' : ThreadRegs) : Prop where
  mode : cpsrMode regs'.cpsr = 0x12
  high : ∀ i : Fin 13, 4 ≤ i.val → i.val < 12 → regs'.gpRegs i = regs.gpRegs i
  sp : regs'.sp = regs.sp
  spsr : regs'.spsr = regs.spsr
  bankSp : ∀ bank, bank ≠ .irq → regs'.storedSp bank = regs.storedSp bank
  bankLr : ∀ bank, bank ≠ .irq → regs'.storedLr bank = regs.storedLr bank
  fiq : regs'.fiq.gpRegs = regs.fiq.gpRegs

/-- The pc is the same in every bank. -/
theorem switchBank_pc (regs : ThreadRegs) (mode mode' : BitVec 32) :
    (regs.switchBank mode mode').pc = regs.pc := by
  have hstore : (regs.storeBank mode).pc = regs.pc := by
    unfold ThreadRegs.storeBank
    split_ifs <;> rfl
  unfold ThreadRegs.switchBank
  split_ifs
  · rfl
  · rfl
  · rfl
  · rw [← hstore]
    unfold ThreadRegs.loadBank
    split_ifs <;> rfl

/-- What a mode switch does to the registers a program sees. -/
theorem setCpsr_banks {current new : Bank} (h : bankOf (cpsrMode regs.cpsr) = some current)
    (h' : bankOf (cpsrMode value) = some new) (save : Bool) :
    (∀ bank, (regs.setCpsr value save).bankedSp new bank = regs.bankedSp current bank) ∧
      (∀ bank, (regs.setCpsr value save).bankedLr new bank = regs.bankedLr current bank) ∧
      (∀ isFiq, (regs.setCpsr value save).bankedHigh new isFiq = regs.bankedHigh current isFiq) ∧
      (regs.setCpsr value save).low = regs.low ∧ (regs.setCpsr value save).pc = regs.pc := by
  obtain ⟨hsp, hlr, hhigh, -, hlow, -⟩ := regs.switchBank_spec h h'
  refine ⟨fun bank => ?_, fun bank => ?_, fun isFiq => ?_, hlow, switchBank_pc ..⟩
  · rw [← hsp bank]
    cases bank <;> rfl
  · rw [← hlr bank]
    cases bank <;> rfl
  · rw [← hhigh isFiq]
    cases isFiq <;> rfl

/-- The registers by number, from the two halves. -/
theorem gpRegs_eq (hlow : regs'.low = regs.low) (hhigh : regs'.high = regs.high) :
    regs'.gpRegs = regs.gpRegs := by
  funext i
  by_cases hi : i.val < 8
  · exact congrFun hlow ⟨i, hi⟩
  · have hhi := congrFun hhigh ⟨i - 8, by omega⟩
    unfold ThreadRegs.high at hhi
    simp only [Nat.sub_add_cancel (Nat.le_of_not_lt hi)] at hhi
    exact hhi

/-- Popping the words of the frame gives back the registers of IRQ mode before it was pushed. -/
theorem poppedRegs_gpRegs (hwords : ∀ i < 6, words i = (frameWords (irqRegs regs)).getD i 0)
    (hkeeps : KeepsRegs (handlerRegs regs pc) regs') :
    (poppedRegs regs' words).gpRegs = (irqRegs regs).gpRegs := by
  funext i
  have hhigh := hkeeps.high i
  show (if i < 4 then words i else if i = 12 then words 4 else regs'.gpRegs i) = _
  fin_cases i
  · exact hwords 0 (by decide)
  · exact hwords 1 (by decide)
  · exact hwords 2 (by decide)
  · exact hwords 3 (by decide)
  all_goals first | exact hhigh (by decide) (by decide) | exact hwords 4 (by decide)

/-- **The registers**: the entry, a handler that keeps what it has to, and the return, cancel. -/
theorem sameRegs (hmode : bankOf (cpsrMode regs.cpsr) = some b) (hb : b ≠ .irq)
    (hthumb : regs.pc.getLsbD 0 = cpsrThumb regs.cpsr)
    (hwords : ∀ i < 6, words i = (frameWords (irqRegs regs)).getD i 0)
    (hkeeps : KeepsRegs (handlerRegs regs pc) regs') :
    SameRegs b regs ((poppedRegs regs' words).setCpsr regs'.spsr false) := by
  have hirq : bankOf (cpsrMode (handlerCpsr regs.cpsr)) = some .irq := by
    rw [cpsrMode_handlerCpsr]
    rfl
  obtain ⟨hsp, hlr, hhigh, hlow, hpc⟩ := setCpsr_banks hmode hirq true
  -- the saved status register is the old one: pc carries its thumb bit
  have hspsr : regs'.spsr = regs.cpsr := by
    rw [hkeeps.spsr]
    show cpsrSetThumb (irqRegs regs).spsr ((irqRegs regs).pc.getLsbD 0) = _
    unfold irqRegs
    rw [hpc, hthumb, ThreadRegs.setCpsr_spsr, if_pos rfl, cpsrSetThumb_self]
  have hreturn : bankOf (cpsrMode (poppedRegs regs' words).cpsr) = some .irq := by
    show bankOf (cpsrMode regs'.cpsr) = _
    rw [hkeeps.mode]
    rfl
  rw [hspsr]
  obtain ⟨hsp', hlr', hhigh', hlow', hpc'⟩ := setCpsr_banks hreturn hmode false
  have hgp := poppedRegs_gpRegs hwords hkeeps
  have hbanks : ∀ bank, ((poppedRegs regs' words).setCpsr regs.cpsr false).bankedSp b bank =
      regs.bankedSp b bank := by
    intro bank
    rw [hsp' bank, ← hsp bank]
    by_cases hbank : bank = .irq
    · rw [ThreadRegs.bankedSp, ThreadRegs.bankedSp, if_pos hbank, if_pos hbank]
      show regs'.sp + 24 = (irqRegs regs).sp
      rw [hkeeps.sp]
      exact BitVec.sub_add_cancel _ _
    · rw [ThreadRegs.bankedSp, ThreadRegs.bankedSp, if_neg hbank, if_neg hbank]
      exact (by cases bank <;> rfl : _ = regs'.storedSp bank).trans ((hkeeps.bankSp bank hbank).trans
        (by cases bank <;> rfl))
  have hlrs : ((poppedRegs regs' words).setCpsr regs.cpsr false).bankedLr b b =
      regs.bankedLr b b := by
    rw [hlr' b, ← hlr b, ThreadRegs.bankedLr, ThreadRegs.bankedLr, if_neg hb, if_neg hb]
    exact (by cases b <;> rfl : _ = regs'.storedLr b).trans ((hkeeps.bankLr b hb).trans
      (by cases b <;> rfl))
  have hhighs : ∀ isFiq, ((poppedRegs regs' words).setCpsr regs.cpsr false).bankedHigh b isFiq =
      regs.bankedHigh b isFiq := by
    intro isFiq
    rw [hhigh' isFiq, ← hhigh isFiq]
    cases isFiq with
    | false =>
        show (poppedRegs regs' words).high = (irqRegs regs).high
        unfold ThreadRegs.high
        rw [hgp]
    | true => exact hkeeps.fiq
  refine ⟨gpRegs_eq ?_ ?_, ?_, ?_, ?_, rfl, hbanks⟩
  · rw [hlow', ← hlow]
    unfold ThreadRegs.low
    rw [hgp]
    rfl
  · have hcurrent := hhighs (decide (b = .fiq))
    rwa [ThreadRegs.bankedHigh, ThreadRegs.bankedHigh, if_pos rfl, if_pos rfl] at hcurrent
  · have hcurrent := hbanks b
    rwa [ThreadRegs.bankedSp, ThreadRegs.bankedSp, if_pos rfl, if_pos rfl] at hcurrent
  · rwa [ThreadRegs.bankedLr, ThreadRegs.bankedLr, if_pos rfl, if_pos rfl] at hlrs
  · rw [hpc']
    show ((words 5 - 4) &&& ~~~1) ||| (if cpsrThumb regs'.spsr then 1 else 0) = regs.pc
    have hpushed : words 5 = regs.pc + 4 := by
      rw [hwords 5 (by decide), ← hpc]
      rfl
    rw [hpushed, hspsr, ← hthumb, BitVec.add_sub_cancel]
    ext i hi
    by_cases h0 : i = 0
    · subst h0
      cases h : regs.pc.getLsbD 0 <;> simp_all
    · have hbit : (1 : BitVec 32).getLsbD i = false ∧ (~~~1 : BitVec 32).getLsbD i = true := by
        interval_cases i <;> simp_all
      cases regs.pc.getLsbD 0 <;> simp_all

end Restore

/-! ## The law -/

section Law

variable (dev : MemDevices D)

/-- The frame: 24 bytes below the stack pointer of IRQ mode, at a word. -/
def frameAddr (regs : ThreadRegs) : ℕ := alignedAddr .word (regs.irq.sp - 24).toNat

/-- Its place in the shared memory. -/
def frameSite (regs : ThreadRegs) : ℕ := ramOffset (frameAddr regs)

/-- The place of the flags word. -/
def waitFlagsSite : ℕ := iwramRegion.shmOffset + 0x7FF8

/-- The flags word. -/
def flagsWord (g : GuestMem D) : BitVec 32 := g.load .word waitFlagsSite

/-- An `IntrWait` is pending, and one of its flags is there. -/
def WaitSatisfied (m : Machine (Option (GuestMem D))) (g : GuestMem D) : Prop :=
  flagsWord g &&& m.dev.cpu.biosWaitFlags ≠ 0

instance (m : Machine (Option (GuestMem D))) (g : GuestMem D) : Decidable (WaitSatisfied m g) :=
  inferInstanceAs (Decidable (_ ≠ _))

/-- An interrupt in `m`, out of any mode but IRQ, whose handler comes back in `m₂`. -/
structure Interrupted (m m₂ : Machine (Option (GuestMem D))) (g g₂ : GuestMem D) (b : Bank) :
    Prop where
  rest : m.dev.rest = some g
  reaches : MemReaches dev g
  mode : bankOf (cpsrMode m.dev.regs.cpsr) = some b
  notIrq : b ≠ .irq
  thumb : m.dev.regs.pc.getLsbD 0 = cpsrThumb m.dev.regs.cpsr
  image : InOneImage (frameAddr m.dev.regs) 24
  rest' : m₂.dev.rest = some g₂
  reaches' : MemReaches dev g₂
  keeps : KeepsRegs (interrupt (guestBus dev) m).dev.regs m₂.dev.regs
  frame : ∀ g₁, (interrupt (guestBus dev) m).dev.rest = some g₁ → ∀ i < 24,
    g₂.jit.shm (frameSite m.dev.regs + i) = g₁.jit.shm (frameSite m.dev.regs + i)

/-- The flags word after the return. -/
def clearedFlags (m : Machine (Option (GuestMem D))) (g : GuestMem D) : ℕ → UInt8 :=
  if WaitSatisfied m g then
    writeWord MemWidth.word.bytes g.jit.shm waitFlagsSite
      (flagsWord g &&& ~~~m.dev.cpu.biosWaitFlags : BitVec 32)
  else g.jit.shm

/-- **Transparency**: the registers are those of the interrupted program, the entry writes the frame
only, and the return writes nothing but the flags word, if it satisfies an `IntrWait`. -/
structure Restored (m m₂ : Machine (Option (GuestMem D))) (g g₂ : GuestMem D) (b : Bank) :
    Prop where
  regs : SameRegs b m.dev.regs (uninterrupt (guestBus dev) m₂).dev.regs
  entry : ∃ g₁, (interrupt (guestBus dev) m).dev.rest = some g₁ ∧ MemReaches dev g₁ ∧
    g₁ = { g with jit := g₁.jit } ∧
    ∀ a, a < frameSite m.dev.regs ∨ frameSite m.dev.regs + 24 ≤ a → g₁.jit.shm a = g.jit.shm a
  exit : ∃ g₃, (uninterrupt (guestBus dev) m₂).dev.rest = some g₃ ∧ MemReaches dev g₃ ∧
    g₃ = { g₂ with jit := g₃.jit } ∧ g₃.jit.shm = clearedFlags m₂ g₂

section Steps

variable {dev} {m m₂ : Machine (Option (GuestMem D))} {g g₁ g₂ : GuestMem D} {b : Bank}

/-- A step more is a run. -/
theorem MemReaches.tail (h : MemReaches dev g) (op : MemOp D) (hstep : memStep dev g op = some g₁) :
    MemReaches dev g₁ := by
  obtain ⟨s₀, hstart, hrun⟩ := h
  exact ⟨s₀, hstart, hrun.tail trivial hstep⟩

/-- The flags word is read and written in the last image of iwram. -/
theorem waitFlags_aligned : alignedAddr .word waitFlagsAddr.toNat = 0x3FFFFF8 ∧
    ramOffset 0x3FFFFF8 = waitFlagsSite := by
  decide

/-- The entry finds the stack pointer of IRQ mode. -/
theorem irqRegs_sp {regs : ThreadRegs} (hmode : bankOf (cpsrMode regs.cpsr) = some b)
    (hb : b ≠ .irq) : (irqRegs regs).sp = regs.irq.sp := by
  have hirq : bankOf (cpsrMode (handlerCpsr regs.cpsr)) = some .irq := by
    rw [cpsrMode_handlerCpsr]
    rfl
  have hbank := (setCpsr_banks hmode hirq true).1 .irq
  rwa [ThreadRegs.bankedSp, ThreadRegs.bankedSp, if_pos rfl, if_neg (Ne.symm hb)] at hbank

/-- **The entry** pushes the frame and reads the handler's address. -/
theorem entry_spec (hrest : m.dev.rest = some g) (hg : MemReaches dev g)
    (hmode : bankOf (cpsrMode m.dev.regs.cpsr) = some b) (hb : b ≠ .irq)
    (himage : InOneImage (frameAddr m.dev.regs) 24) :
    ∃ g₁ pc, (interrupt (guestBus dev) m).dev.rest = some g₁ ∧ MemReaches dev g₁ ∧
      g₁ = { g with jit := g₁.jit } ∧
      g₁.jit.shm = writeWords MemWidth.word.bytes g.jit.shm (frameSite m.dev.regs)
        (frameWords (irqRegs m.dev.regs)) ∧
      (interrupt (guestBus dev) m).dev.regs = handlerRegs m.dev.regs pc := by
  have hsp := irqRegs_sp hmode hb
  obtain ⟨g₁, hwrite, hsame, hshm⟩ := memWriteMultipleSlice_ram dev (memInv_of_reaches hg).tables
    .word (m.dev.regs.irq.sp - 24).toNat (frameWords (irqRegs m.dev.regs)) himage
  have hreach : MemReaches dev g₁ := hg.tail
    (.writeSlice .word (m.dev.regs.irq.sp - 24).toNat (frameWords (irqRegs m.dev.regs))) hwrite
  have hram : IsRam (alignedAddr .word (0x3FFFFFC : BitVec 32).toNat) := by decide
  have hread := memRead_ram dev (memInv_of_reaches hreach).tables hram
  have hpushed : (guestBus dev).memWriteMultiple ((irqRegs m.dev.regs).sp - 24)
      (frameWords (irqRegs m.dev.regs)) m.dev.rest = some g₁ := by
    rw [hrest, hsp]
    exact hwrite
  obtain ⟨hrest', hregs⟩ := interrupt_spec (guestBus dev) m
  rw [hpushed] at hrest' hregs
  refine ⟨g₁, _, hrest'.trans ?_, hreach, hsame, hshm, hregs⟩
  show some (memRead dev .word (0x3FFFFFC : BitVec 32).toNat g₁).2 = some g₁
  rw [hread]

/-- **The check of the flags** at the return changes the flags word, if anything. -/
theorem recheck_spec (hrest : m.dev.rest = some g) (hg : MemReaches dev g) :
    ∃ g₁, (recheckWaitFlags (guestBus dev) m).dev.rest = some g₁ ∧ MemReaches dev g₁ ∧
      g₁ = { g with jit := g₁.jit } ∧ g₁.jit.shm = clearedFlags m g := by
  have hinv := memInv_of_reaches hg
  have hram : IsRam (alignedAddr .word waitFlagsAddr.toNat) := by decide
  have hread := memRead_ram dev hinv.tables hram
  rw [waitFlags_aligned.1, waitFlags_aligned.2] at hread
  have hfound : (guestBus dev).memRead waitFlagsAddr m.dev.rest = (flagsWord g, some g) := by
    rw [hrest]
    exact congrArg (fun r : BitVec 32 × GuestMem D => (r.1, some r.2)) hread
  unfold clearedFlags
  by_cases hwait : m.dev.cpu.biosWaitFlags ≠ 0
  · have hcheck : recheckWaitFlags (guestBus dev) m =
        checkWaitFlags (guestBus dev) (m.withCpu { m.dev.cpu with biosOpenBus := 0xE55EC002 }) :=
      if_pos hwait
    rw [hcheck]
    by_cases hsatisfied : WaitSatisfied m g
    · have hflags : flagsWord g &&& m.dev.cpu.biosWaitFlags ≠ 0 := hsatisfied
      obtain ⟨t, ht⟩ := memWrite_isSome dev .word waitFlagsAddr.toNat
        (flagsWord g &&& ~~~m.dev.cpu.biosWaitFlags : BitVec 32) g
      have hshm := memWrite_shm_ram hinv.tables hram ht
      rw [waitFlags_aligned.1, waitFlags_aligned.2] at hshm
      refine ⟨t, ?_, hg.tail (.write .word waitFlagsAddr.toNat _) ht,
        memWrite_same_ram hinv.tables hram ht, ?_⟩
      · simp only [checkWaitFlags, withCpu_rest, withCpu_cpu, withRest_cpu, hfound, if_pos hflags]
        exact ht
      · rw [if_pos hsatisfied]
        exact hshm
    · have hflags : ¬ flagsWord g &&& m.dev.cpu.biosWaitFlags ≠ 0 := hsatisfied
      refine ⟨g, ?_, hg, rfl, (if_neg hsatisfied).symm⟩
      simp only [checkWaitFlags, withCpu_rest, withCpu_cpu, withRest_cpu, hfound, if_neg hflags]
      rfl
  · have hsatisfied : ¬ WaitSatisfied m g := by
      unfold WaitSatisfied
      rw [not_not.mp hwait]
      simp
    refine ⟨g, ?_, hg, rfl, (if_neg hsatisfied).symm⟩
    rw [show recheckWaitFlags (guestBus dev) m =
      m.withCpu { m.dev.cpu with biosOpenBus := 0xE55EC002 } from if_neg hwait]
    exact hrest

/-- **The return** pops what it finds in the frame after the check. -/
theorem exit_spec (hrest : m.dev.rest = some g) (hg : MemReaches dev g)
    (himage : InOneImage (alignedAddr .word m.dev.regs.sp.toNat) 24) :
    ∃ g₁, (uninterrupt (guestBus dev) m).dev.rest = some g₁ ∧ MemReaches dev g₁ ∧
      g₁ = { g with jit := g₁.jit } ∧ g₁.jit.shm = clearedFlags m g ∧
      (uninterrupt (guestBus dev) m).dev.regs =
        (poppedRegs m.dev.regs fun i => (readWords 4 g₁.jit.shm
          (ramOffset (alignedAddr .word m.dev.regs.sp.toNat)) 6).getD i 0).setCpsr
            m.dev.regs.spsr false := by
  obtain ⟨g₁, hcheck, hreach, hsame, hshm⟩ := recheck_spec hrest hg
  have hread := frameRead_ram dev (n := 6) (memInv_of_reaches hreach).tables himage
  obtain ⟨hrest', hregs⟩ := uninterrupt_spec (guestBus dev) m
  have hpopped : (guestBus dev).memReadMultiple m.dev.regs.sp 6
      (recheckWaitFlags (guestBus dev) m).dev.rest =
        (fun i => (readWords 4 g₁.jit.shm
          (ramOffset (alignedAddr .word m.dev.regs.sp.toNat)) 6).getD i 0, some g₁) := by
    rw [hcheck]
    simp only [guestBus, Option.bind_some, hread, Option.map_some, Option.getD_some]
  rw [hpopped] at hrest' hregs
  exact ⟨g₁, hrest', hreach, hsame, hshm, hregs⟩

/-- The flags word lies outside the frame, or the return leaves it alone. -/
def SparesFlags (m m₂ : Machine (Option (GuestMem D))) (g₂ : GuestMem D) : Prop :=
  WaitSatisfied m₂ g₂ →
    waitFlagsSite + 4 ≤ frameSite m.dev.regs ∨ frameSite m.dev.regs + 24 ≤ waitFlagsSite

/-- Outside the flags word the return changes nothing. -/
theorem clearedFlags_of_not {a : ℕ}
    (ha : WaitSatisfied m g → a < waitFlagsSite ∨ waitFlagsSite + 4 ≤ a) :
    clearedFlags m g a = g.jit.shm a := by
  have hbytes : MemWidth.word.bytes = 4 := rfl
  unfold clearedFlags
  split_ifs with hsatisfied
  · apply writeWord_of_not
    have hout := ha hsatisfied
    omega
  · rfl

/-- The return of a handler pops the frame. -/
theorem Interrupted.returns (h : Interrupted dev m m₂ g g₂ b) :
    ∃ g₃, (uninterrupt (guestBus dev) m₂).dev.rest = some g₃ ∧ MemReaches dev g₃ ∧
      g₃ = { g₂ with jit := g₃.jit } ∧ g₃.jit.shm = clearedFlags m₂ g₂ ∧
      (uninterrupt (guestBus dev) m₂).dev.regs =
        (poppedRegs m₂.dev.regs fun i =>
          (readWords 4 g₃.jit.shm (frameSite m.dev.regs) 6).getD i 0).setCpsr
            m₂.dev.regs.spsr false := by
  obtain ⟨-, pc, -, -, -, -, hregs⟩ := entry_spec h.rest h.reaches h.mode h.notIrq h.image
  have hsp : m₂.dev.regs.sp = m.dev.regs.irq.sp - 24 := by
    rw [h.keeps.sp, hregs]
    exact congrArg (· - 24) (irqRegs_sp h.mode h.notIrq)
  have hsite : ramOffset (alignedAddr .word m₂.dev.regs.sp.toNat) = frameSite m.dev.regs := by
    rw [hsp]
    rfl
  rw [← hsite]
  apply exit_spec h.rest' h.reaches'
  rw [hsp]
  exact h.image

/-- **An interrupt is transparent** when its frame spares the flags word. -/
theorem interrupt_transparent (h : Interrupted dev m m₂ g g₂ b) (hspares : SparesFlags m m₂ g₂) :
    Restored dev m m₂ g g₂ b := by
  obtain ⟨g₁, pc, hentry, hreach₁, hsame₁, hshm₁, hregs₁⟩ :=
    entry_spec h.rest h.reaches h.mode h.notIrq h.image
  have hkeeps : KeepsRegs (handlerRegs m.dev.regs pc) m₂.dev.regs := hregs₁ ▸ h.keeps
  obtain ⟨g₃, hexit, hreach₃, hsame₃, hshm₃, hregs₃⟩ := h.returns
  -- the frame from the push to the pop
  have hframe : ∀ i < 24, g₃.jit.shm (frameSite m.dev.regs + i) =
      g₁.jit.shm (frameSite m.dev.regs + i) := by
    intro i hi
    rw [hshm₃, ← h.frame g₁ hentry i hi]
    apply clearedFlags_of_not
    intro hsatisfied
    have hapart := hspares hsatisfied
    omega
  have hwords : readWords 4 g₃.jit.shm (frameSite m.dev.regs) 6 =
      frameWords (irqRegs m.dev.regs) := by
    have hpushed : readWords 4 g₁.jit.shm (frameSite m.dev.regs) 6 =
        frameWords (irqRegs m.dev.regs) := by
      rw [hshm₁]
      exact @readWords_writeWords 4 _ _ (frameWords (irqRegs m.dev.regs))
    rw [← hpushed]
    apply List.map_congr_left
    intro i hi
    apply readWord_congr
    intro j hj
    have hlast : i < 6 := List.mem_range.mp hi
    rw [Nat.add_assoc]
    exact hframe _ (by omega)
  refine ⟨?_, ⟨g₁, hentry, hreach₁, hsame₁, fun a ha => ?_⟩,
    g₃, hexit, hreach₃, hsame₃, hshm₃⟩
  · rw [hregs₃]
    refine sameRegs h.mode h.notIrq h.thumb (fun i _ => ?_) hkeeps
    rw [hwords]
  · rw [hshm₁]
    apply writeWords_of_not
    show ¬ (frameSite m.dev.regs ≤ a ∧ a < frameSite m.dev.regs + 24)
    omega

end Steps

end Law

/-! ## An `IntrWait` -/

/-- A handler that returns at once. -/
theorem Interrupted.at_once (dev : MemDevices D) {m : Machine (Option (GuestMem D))} {g : GuestMem D}
    {b : Bank} (hrest : m.dev.rest = some g) (hg : MemReaches dev g)
    (hmode : bankOf (cpsrMode m.dev.regs.cpsr) = some b) (hb : b ≠ .irq)
    (hthumb : m.dev.regs.pc.getLsbD 0 = cpsrThumb m.dev.regs.cpsr)
    (himage : InOneImage (frameAddr m.dev.regs) 24) :
    ∃ g₁, Interrupted dev m (interrupt (guestBus dev) m) g g₁ b ∧
      g₁.jit.shm = writeWords MemWidth.word.bytes g.jit.shm (frameSite m.dev.regs)
        (frameWords (irqRegs m.dev.regs)) ∧
      (interrupt (guestBus dev) m).dev.cpu.biosWaitFlags = m.dev.cpu.biosWaitFlags := by
  obtain ⟨g₁, pc, hentry, hreach, -, hshm, hregs⟩ := entry_spec hrest hg hmode hb himage
  have hkeeps : KeepsRegs (interrupt (guestBus dev) m).dev.regs
      (interrupt (guestBus dev) m).dev.regs := by
    refine ⟨?_, fun _ _ _ => rfl, rfl, rfl, fun _ _ => rfl, fun _ _ => rfl, rfl⟩
    rw [hregs]
    exact cpsrMode_handlerCpsr _
  refine ⟨g₁, ⟨hrest, hg, hmode, hb, hthumb, himage, hentry, hreach, hkeeps, ?_⟩, hshm, ?_⟩
  · rintro g₁' hentry' i -
    rw [Option.some.inj (hentry.symm.trans hentry')]
  · simp [interrupt]

/-- Empty memory but for the flags word, which has the flag of timer 0. -/
def flaggedBoot : GuestMem Unit :=
  memStart ⟨0x400000, 0x3FFFFF, .none, false⟩ false
    (fun a => if a = waitFlagsSite then 8 else 0) 0xE129F000 0 ()

theorem flaggedBoot_reaches : MemReaches silentDevices flaggedBoot :=
  ⟨_, .boot (by decide) _ _ _, .refl _⟩

/-- A program in system mode that waits for timer 0. -/
def waiting (irqSp pc cpsr : BitVec 32) : Machine (Option (GuestMem Unit)) :=
  let m := boot (some flaggedBoot)
  (m.withRegs { m.dev.regs with pc := pc, cpsr := cpsr, irq := ⟨irqSp, 0, 0⟩ }).withCpu
    { m.dev.cpu with biosWaitFlags := 8 }

/-- Thumb code that waits, with the stack of the direct boot. -/
theorem interrupt_transparent_waiting :
    ∃ m₂ g₂, WaitSatisfied m₂ g₂ ∧
      Restored silentDevices (waiting 0x03007FA0 0x08000101 0x3F) m₂ flaggedBoot g₂ .user := by
  obtain ⟨g₂, h, hshm, hwait⟩ := Interrupted.at_once silentDevices
    (m := waiting 0x03007FA0 0x08000101 0x3F) (b := .user) rfl flaggedBoot_reaches
    (by decide) (by decide) (by decide) (by decide)
  refine ⟨_, g₂, ?_, interrupt_transparent h fun _ => .inr (by decide)⟩
  have hword : flagsWord g₂ = 8 := by
    have hkept : flagsWord g₂ = flagsWord flaggedBoot := by
      apply readWord_congr
      intro i hi
      rw [hshm]
      apply writeWords_of_not
      rintro ⟨-, hend⟩
      have hsite : frameSite (waiting 0x03007FA0 0x08000101 0x3F).dev.regs + 24 + 88 =
          waitFlagsSite := by decide
      have hend : waitFlagsSite + i < frameSite (waiting 0x03007FA0 0x08000101 0x3F).dev.regs + 24 :=
        hend
      omega
    rw [hkept]
    decide
  unfold WaitSatisfied
  rw [hword, hwait]
  decide

/-- **A frame over the flags word**: the return satisfies the `IntrWait` with the return address, and
comes back elsewhere. -/
theorem interrupt_overFlags :
    ¬ ∀ (m m₂ : Machine (Option (GuestMem Unit))) (g g₂ : GuestMem Unit) (b : Bank),
      Interrupted silentDevices m m₂ g g₂ b → Restored silentDevices m m₂ g g₂ b := by
  intro hclaim
  obtain ⟨g₂, h, hshm, hwait⟩ := Interrupted.at_once silentDevices
    (m := waiting 0x03007FFC 0x08000104 0x1F) (b := .user) rfl flaggedBoot_reaches
    (by decide) (by decide) (by decide) (by decide)
  have hplace : frameSite (waiting 0x03007FFC 0x08000104 0x1F).dev.regs + 5 * 4 =
      waitFlagsSite := by decide
  have hpushed : flagsWord g₂ = 0x08000108 := by
    have hread : readWord 4 g₂.jit.shm (frameSite (waiting 0x03007FFC 0x08000104 0x1F).dev.regs +
        5 * 4) = (frameWords (irqRegs (waiting 0x03007FFC 0x08000104 0x1F).dev.regs))[5] := by
      rw [hshm]
      exact readWord_writeWords (k := 4) _ _ (by decide)
    rw [hplace] at hread
    exact hread.trans (by decide)
  have hsatisfied : WaitSatisfied (interrupt (guestBus silentDevices)
      (waiting 0x03007FFC 0x08000104 0x1F)) g₂ := by
    unfold WaitSatisfied
    rw [hpushed, hwait]
    decide
  obtain ⟨g₃, -, -, -, hshm₃, hregs₃⟩ := h.returns
  -- the return address without the flag
  have hpopped : (readWords 4 g₃.jit.shm
      (frameSite (waiting 0x03007FFC 0x08000104 0x1F).dev.regs) 6).getD 5 0 = 0x08000100 := by
    show readWord 4 g₃.jit.shm (frameSite _ + 5 * 4) = _
    rw [hplace, hshm₃, clearedFlags, if_pos hsatisfied, hpushed, hwait]
    exact (readWord_writeWord_self (k := 4) _ _ _).trans (by decide)
  have hpc := (hclaim _ _ _ _ _ h).regs.pc
  rw [hregs₃] at hpc
  change ((ThreadRegs.switchBank _ _ _).pc : BitVec 32) = 0x08000104 at hpc
  rw [switchBank_pc] at hpc
  simp only [poppedRegs, hpopped] at hpc
  revert hpc
  split_ifs <;> decide

end AdvancedSlop
