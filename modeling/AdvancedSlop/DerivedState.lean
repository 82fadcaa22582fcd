/-
# What is derived after a restore

A savestate puts everything right.  A step back leaves the read table alone: the head of the rom
is unmapped then only if the boot did not leave it mapped, for a cartridge known to have a clock,
or a savestate has been loaded since.

* `SizeKept` : the size of the EEPROM chip is revealed once;
* `RingGood` : the sizes in the rewind ring lead to that of the chip;
* `HeadRight`, `HeadMapped` : the head of the rom, `head_of_trace` : in runs;
* `derived_state_law` : what holds after the restores of a run.
-/
import AdvancedSlop.FastPath
import AdvancedSlop.MemorySession

namespace AdvancedSlop

open TransitionSystem

variable {D : Type*} {dev : MemDevices D}

/-! ## The size of the chip -/

/-- The buffer has the length of the chip, once that is known. -/
def Cartridge.Sized (cartridge : Cartridge) : Prop :=
  cartridge.eeprom.size ≠ 0 → cartridge.saveBuf.length = cartridge.eeprom.size

/-- A size that is known stays, and one that becomes known is that of the buffer. -/
structure SizeKept (c c' : Cartridge) : Prop where
  kept : c.eeprom.size ≠ 0 →
    c'.eeprom.size = c.eeprom.size ∧ c'.saveBuf.length = c.saveBuf.length
  revealed : c.eeprom.size = 0 → c'.Sized

namespace SizeKept

variable {c c' c'' : Cartridge}

theorem of_same (hsize : c'.eeprom.size = c.eeprom.size)
    (hlen : c'.saveBuf.length = c.saveBuf.length) : SizeKept c c' :=
  ⟨fun _ => ⟨hsize, hlen⟩, fun hzero hne => absurd (hsize.trans hzero) hne⟩

theorem trans (h : SizeKept c c') (h' : SizeKept c' c'') : SizeKept c c'' where
  kept hne := by
    obtain ⟨hsize, hlen⟩ := h.kept hne
    obtain ⟨hsize', hlen'⟩ := h'.kept (hsize ▸ hne)
    exact ⟨hsize'.trans hsize, hlen'.trans hlen⟩
  revealed hzero := by
    by_cases hzero' : c'.eeprom.size = 0
    · exact h'.revealed hzero'
    · intro _
      obtain ⟨hsize, hlen⟩ := h'.kept hzero'
      rw [hlen, hsize]
      exact h.revealed hzero hzero'

/-- The buffer keeps its length. -/
theorem sized (h : SizeKept c c') (hc : c.Sized) : c'.Sized := by
  by_cases hzero : c.eeprom.size = 0
  · exact h.revealed hzero
  · intro _
    obtain ⟨hsize, hlen⟩ := h.kept hzero
    rw [hlen, hsize]
    exact hc hzero

end SizeKept

/-- Writes do not change the length of the buffer. -/
theorem length_foldl_writeSaveBuf (l : List Nat) (addr : Nat → Nat) (value : Nat → BitVec 8)
    (saveBuf : SaveBuf) :
    (l.foldl (fun saveBuf i => writeSaveBuf saveBuf (addr i) (value i)) saveBuf).length =
      saveBuf.length := by
  induction l generalizing saveBuf with
  | nil => rfl
  | cons i l ih => rw [List.foldl_cons, ih, length_writeSaveBuf]

/-- The byte-wide window does not change it. -/
theorem sizeKept_writeSram (c : Cartridge) (addr : Nat) (value : BitVec 8) :
    SizeKept c (c.writeSram addr value) := by
  have herase : ∀ flash base n,
      SizeKept c { c with flash := flash, saveBuf := eraseRange c.saveBuf base n } :=
    fun _ _ _ => .of_same rfl (length_foldl_writeSaveBuf ..)
  have hcommand : ∀ offset, SizeKept c (c.flashCommand offset value) := by
    intro offset
    unfold Cartridge.flashCommand
    simp only
    split
    · exact herase _ _ _
    · split
      · exact herase _ _ _
      · exact .of_same rfl rfl
  have hsequence : ∀ offset, SizeKept c (c.flashSequence offset value) := by
    intro offset
    unfold Cartridge.flashSequence
    simp only
    split
    · split <;> exact .of_same rfl rfl
    · exact .of_same rfl rfl
    · exact hcommand offset
  have hflash : ∀ offset, SizeKept c (c.writeFlash offset value) := by
    intro offset
    unfold Cartridge.writeFlash
    simp only
    split
    · exact .of_same rfl (length_writeSaveBuf ..)
    · split
      · exact .of_same rfl rfl
      · exact hsequence offset
  unfold Cartridge.writeSram
  simp only
  split
  · exact .of_same rfl rfl
  · exact .of_same rfl rfl
  · exact .of_same rfl (length_writeSaveBuf ..)
  · exact hflash _
  · exact hflash _

/-- The first read reveals the size and gives it to the buffer. -/
theorem sizeKept_detectEeprom (c : Cartridge) : SizeKept c c.detectEeprom := by
  unfold Cartridge.detectEeprom
  split
  · rename_i hzero
    exact ⟨fun hne => absurd hzero hne, fun _ _ => length_resizeSaveBuf ..⟩
  · exact .of_same rfl rfl

theorem sizeKept_readEeprom (c : Cartridge) : SizeKept c c.readEeprom.2 := by
  refine (sizeKept_detectEeprom c).trans ?_
  unfold Cartridge.readEeprom
  simp only
  split
  · split
    · refine .of_same ?_ rfl
      show (if _ then _ else _ : EepromState).size = _
      split <;> rfl
    · exact .of_same rfl rfl
  · split <;> exact .of_same rfl rfl

/-- The store of a write takes an unknown chip for the large one. -/
theorem sizeKept_storeEeprom (c : Cartridge) (data : BitVec 64) :
    SizeKept c (c.storeEeprom data) := by
  have hassume : SizeKept c c.assumeEeprom := by
    unfold Cartridge.assumeEeprom
    split
    · rename_i hzero
      exact ⟨fun hne => absurd hzero hne, fun _ _ => length_resizeSaveBuf ..⟩
    · exact .of_same rfl rfl
  exact hassume.trans (.of_same rfl (length_foldl_writeSaveBuf ..))

theorem sizeKept_writeEeprom (c : Cartridge) (value : BitVec 16) :
    SizeKept c (c.writeEeprom value) := by
  unfold Cartridge.writeEeprom
  simp only
  split
  · exact .of_same rfl rfl
  · split
    · refine .of_same ?_ rfl
      show (if _ then _ else _ : EepromState).size = _
      split <;> rfl
    · split
      · split
        · refine .trans ?_ (sizeKept_storeEeprom _ _)
          exact .of_same rfl rfl
        · exact .of_same rfl rfl
      · exact .of_same rfl rfl

/-- The devices on the bus keep the size of the chip. -/
theorem moves_sizeKept (dev : MemDevices D) :
    (cartridgeDevices dev).Moves fun d e => SizeKept d.1 e.1 where
  refl _ := .of_same rfl rfl
  trans _ _ _ h h' := h.trans h'
  ioGbaRead _ _ _ := .of_same rfl rfl
  ioGbaWrite _ _ _ _ := .of_same rfl rfl
  writeGpData _ _ := .of_same rfl rfl
  writeGpDirection _ _ := .of_same rfl rfl
  cartridgeReadEeprom d := sizeKept_readEeprom d.1
  cartridgeWriteEeprom value d := sizeKept_writeEeprom d.1 value
  cartridgeWriteSram addr value d := sizeKept_writeSram d.1 addr value

/-- **The game's steps** keep the size of the chip, and the read table that of the cartridge. -/
theorem play_busStep {m m' : CartMem D} {op : MemOp D}
    (h : memStep (cartridgeDevices dev) m op.withCartridge = some m') :
    BusStep (fun d e => SizeKept d.1 e.1) m m' := by
  refine .step (moves_sizeKept dev) (fun f hop d => ?_) h
  cases op with
  | devices g =>
      obtain rfl := MemOp.devices.inj hop
      exact .of_same rfl rfl
  | _ => cases hop

/-- The fix-up after the load gives the buffer the length of the chip. -/
theorem sized_savestatePostLoad (c : Cartridge) : c.savestatePostLoad.Sized := by
  intro hne
  unfold Cartridge.savestatePostLoad at hne ⊢
  split_ifs at hne ⊢ with h
  · exact length_resizeSaveBuf ..
  · exact not_not.mp fun hlen => h ⟨hne, hlen⟩

/-! ## The ring -/

namespace MemSession

/-- The sizes of the chip in the ring, and now. -/
def sizes (s : MemSession D) : List Nat :=
  s.rewind.slots.map (fun data => data.eeprom.size) ++ [s.mem.devices.1.eeprom.size]

/-- Once known, the size is the same in all later snapshots and now, and that of the buffer. -/
structure RingGood (s : MemSession D) : Prop where
  sizes : s.sizes.Pairwise fun old new => old ≠ 0 → new = old
  sized : s.mem.devices.1.Sized

variable {s t : MemSession D} {op : Op D}

theorem ringGood_of_empty (hslots : s.rewind.slots = []) (hsized : s.mem.devices.1.Sized) :
    s.RingGood := by
  refine ⟨?_, hsized⟩
  rw [MemSession.sizes, hslots]
  exact List.pairwise_singleton ..

/-- Each size of the ring is now that of the chip. -/
theorem RingGood.size_eq (h : s.RingGood) {data : WalkedMemory D} (hdata : data ∈ s.rewind.slots)
    (hne : data.eeprom.size ≠ 0) : s.mem.devices.1.eeprom.size = data.eeprom.size :=
  (List.pairwise_append.mp h.sizes).2.2 _ (List.mem_map_of_mem hdata) _
    (List.mem_singleton.mpr rfl) hne

/-- The game plays on. -/
theorem RingGood.play (h : s.RingGood) {mem : CartMem D}
    (hkept : SizeKept s.mem.devices.1 mem.devices.1) : RingGood { s with mem := mem } := by
  refine ⟨?_, hkept.sized h.sized⟩
  obtain ⟨hring, -, -⟩ := List.pairwise_append.mp h.sizes
  refine List.pairwise_append.mpr ⟨hring, List.pairwise_singleton .., ?_⟩
  intro old hold new hnew hne
  obtain ⟨data, hdata, rfl⟩ := List.mem_map.mp hold
  obtain rfl := List.mem_singleton.mp hnew
  have hsize := h.size_eq hdata hne
  rw [← hsize] at hne
  exact (hkept.kept hne).1.trans hsize

/-- A snapshot is taken; the oldest may leave. -/
theorem RingGood.snapshot (h : s.RingGood) (bufLen : Nat) :
    RingGood (s.rewindSnapshot bufLen) := by
  refine ⟨?_, h.sized⟩
  have hall : ((s.rewind.slots ++ [walkOut s.mem]).map (fun data => data.eeprom.size) ++
      [s.mem.devices.1.eeprom.size]).Pairwise fun old new => old ≠ 0 → new = old := by
    obtain ⟨hring, -, hlast⟩ := List.pairwise_append.mp h.sizes
    rw [List.map_append, List.append_assoc]
    refine List.pairwise_append.mpr ⟨hring, ?_, ?_⟩
    · simp [walkOut]
    · intro old hold new hnew
      refine hlast old hold new ?_
      simpa [walkOut] using hnew
  have htail : ((s.rewind.slots ++ [walkOut s.mem]).tail.map (fun data => data.eeprom.size) ++
      [s.mem.devices.1.eeprom.size]).Pairwise fun old new => old ≠ 0 → new = old := by
    refine hall.sublist (List.Sublist.append_right ?_ _)
    rw [List.map_tail]
    exact List.tail_sublist _
  unfold MemSession.sizes rewindSnapshot
  simp only
  split_ifs <;> assumption

/-- A step back. -/
theorem RingGood.stepBack (h : s.RingGood) : RingGood s.rewindStepBack := by
  unfold rewindStepBack
  cases hlast : s.rewind.slots.getLast? with
  | none => exact h
  | some data =>
      have hdata : data ∈ s.rewind.slots := List.mem_of_getLast? hlast
      have hslots : s.rewind.slots.dropLast ++ [data] = s.rewind.slots :=
        List.dropLast_append_getLast? data hlast
      refine ⟨?_, ?_⟩
      · have hring := (List.pairwise_append.mp h.sizes).1
        rw [← hslots, List.map_append] at hring
        exact hring
      · intro hne
        have hsize := h.size_eq hdata hne
        have hlen := h.sized (by rw [hsize]; exact hne)
        exact hlen.trans hsize

/-- **Every operation** keeps the ring good. -/
theorem RingGood.step (h : s.RingGood) (hstep : MemSession.step dev s op = some t) :
    t.RingGood := by
  cases op with
  | play op =>
      obtain ⟨mem, hmem, rfl⟩ := Option.map_eq_some_iff.mp hstep
      exact h.play (play_busStep hmem).devices
  | loadState data =>
      obtain rfl := Option.some.inj hstep
      cases data with
      | none => exact h
      | some data => exact ringGood_of_empty rfl (sized_savestatePostLoad _)
  | rewindOnFrame setting held bufLen =>
      obtain rfl := Option.some.inj hstep
      unfold rewindOnFrame
      simp only
      split_ifs
      · exact h
      · exact ringGood_of_empty rfl h.sized
      · exact h.stepBack
      · have hreset : RingGood { s with rewind := { s.rewind with framesSinceSnapshot := 0 } } :=
          ⟨h.sizes, h.sized⟩
        exact hreset.snapshot bufLen
      · exact ⟨h.sizes, h.sized⟩

end MemSession

/-! ## The head of the rom -/

/-- The read table is that of the cartridge. -/
def HeadRight (m : CartMem D) : Prop := m.mmuRead = mmuReadFor m.cart

/-- The head is mapped although the cartridge has a clock. -/
def HeadMapped (m : CartMem D) : Prop :=
  m.cart.hasRtc = true ∧ m.mmuRead = (updateAllArm7 m.cart).mmuRead

/-- The two exclude each other. -/
theorem HeadMapped.not_headRight {m : CartMem D} (h : HeadMapped m) (hloaded : m.cart.Loaded) :
    ¬ HeadRight m := by
  intro hright
  rw [HeadRight, mmuReadFor, if_pos h.1, h.2] at hright
  have hhead := congrFun hright 0x8000
  rw [mmuUnmapRomHead_apply, if_pos (by decide)] at hhead
  exact updateAllArm7_head hloaded hhead

section Moves

variable {m m' : CartMem D}

/-- The steps of the bus keep the right table right. -/
theorem HeadRight.moves (h : HeadRight m) (hmoves : HeadMoves m m') : HeadRight m' := by
  rcases hmoves with ⟨hcart, hread⟩ | ⟨hoff, hcart, hread⟩
  · rw [HeadRight, hcart, hread]
    exact h
  · rw [HeadRight, mmuReadFor, hoff] at h
    rw [HeadRight, mmuReadFor, hread, h, hcart, if_pos rfl]
    rfl

/-- They leave the head mapped. -/
theorem HeadMapped.moves (h : HeadMapped m) (hmoves : HeadMoves m m') : HeadMapped m' := by
  rcases hmoves with ⟨hcart, hread⟩ | ⟨hoff, -⟩
  · rw [HeadMapped, hcart, hread]
    exact h
  · rw [h.1] at hoff
    cases hoff

/-- They keep the rom. -/
theorem HeadMoves.loaded (h : HeadMoves m m') (hloaded : m.cart.Loaded) : m'.cart.Loaded := by
  rcases h with ⟨hcart, -⟩ | ⟨-, hcart, -⟩
  · rw [hcart]
    exact hloaded
  · rw [hcart]
    exact hloaded

end Moves

/-- After a load the table is right. -/
theorem headRight_savestatePostLoad (m : CartMem D) : HeadRight m.savestatePostLoad := by
  unfold HeadRight mmuReadFor CartMem.savestatePostLoad
  simp only
  split
  · rename_i hrtc
    exact (if_pos hrtc).symm
  · rfl

namespace MemSession

variable {s t : MemSession D} {op : Op D}

/-- The rewind hook leaves cartridge and read table alone. -/
theorem rewindOnFrame_head (setting held : Bool) (bufLen : Nat) (s : MemSession D) :
    HeadMoves s.mem (s.rewindOnFrame setting held bufLen).mem := by
  have hback : HeadMoves s.mem s.rewindStepBack.mem := by
    unfold rewindStepBack
    split <;> exact .of_same rfl rfl
  unfold rewindOnFrame
  simp only
  split_ifs
  · exact .of_same rfl rfl
  · exact .of_same rfl rfl
  · exact hback
  · exact .of_same rfl rfl
  · exact .of_same rfl rfl

/-- What is no load only moves the head. -/
theorem head_of_step (hop : ¬ Loads op) (hstep : MemSession.step dev s op = some t) :
    HeadMoves s.mem t.mem := by
  cases op with
  | play op =>
      obtain ⟨mem, hmem, rfl⟩ := Option.map_eq_some_iff.mp hstep
      exact (play_busStep hmem).head
  | loadState data =>
      obtain rfl := Option.some.inj hstep
      cases data with
      | none => exact .of_same rfl rfl
      | some data => exact absurd trivial hop
  | rewindOnFrame setting held bufLen =>
      obtain rfl := Option.some.inj hstep
      exact rewindOnFrame_head setting held bufLen s

/-- A load puts the head right. -/
theorem loads_spec (hop : Loads op) (hstep : MemSession.step dev s op = some t) :
    ∃ data, op = .loadState (some data) ∧
      t = ⟨(s.mem.walkIn data).savestatePostLoad, s.rewind.clear⟩ := by
  cases op with
  | play op => exact hop.elim
  | rewindOnFrame setting held bufLen => exact hop.elim
  | loadState data =>
      cases data with
      | none => exact hop.elim
      | some data => exact ⟨data, rfl, (Option.some.inj hstep).symm⟩

/-- **The head in a run.**  It is right from the first load on, and before it for a cartridge that
booted without a clock. -/
theorem head_of_trace (hstart : s.Start) {run : List (MemSession D × Op D × MemSession D)}
    (h : Trace (MemSession.step dev) s run t) :
    t.mem.cart.Loaded ∧
      (s.mem.cart.hasRtc = false ∨ (∃ x ∈ run, Loads x.2.1) → HeadRight t.mem) ∧
      (¬ (s.mem.cart.hasRtc = false ∨ ∃ x ∈ run, Loads x.2.1) → HeadMapped t.mem) := by
  induction h with
  | nil =>
      obtain ⟨content, shm, gpControl, devices, hmem⟩ := hstart.mem
      have hread : s.mem.mmuRead = (updateAllArm7 s.mem.cart).mmuRead := by
        conv_lhs => rw [hmem]
        rfl
      refine ⟨hstart.loaded, ?_, ?_⟩
      · rintro (hrtc | ⟨x, hx, -⟩)
        · rw [HeadRight, mmuReadFor, hrtc, hread]
          rfl
        · exact absurd hx List.not_mem_nil
      · intro hrtc
        exact ⟨by simpa using hrtc, hread⟩
  | @snoc run u v op hrun hstep ih =>
      obtain ⟨hloaded, hright, hmapped⟩ := ih
      by_cases hop : Loads op
      · obtain ⟨data, -, rfl⟩ := loads_spec hop hstep
        refine ⟨?_, fun _ => headRight_savestatePostLoad _, fun hno => ?_⟩
        · have hcart : (u.mem.walkIn data).savestatePostLoad.cart = u.mem.cart := by
            unfold CartMem.savestatePostLoad
            simp only
            split <;> rfl
          rw [hcart]
          exact hloaded
        · exact absurd (.inr ⟨_, List.mem_append_right _ (List.mem_singleton.mpr rfl), hop⟩) hno
      · have hmoves := head_of_step hop hstep
        have hlast : (∃ x ∈ run ++ [(u, op, v)], Loads x.2.1) ↔ ∃ x ∈ run, Loads x.2.1 := by
          simp [or_and_right, exists_or, hop]
        rw [hlast]
        exact ⟨hmoves.loaded hloaded, fun hyes => (hright hyes).moves hmoves,
          fun hno => (hmapped hno).moves hmoves⟩

/-- The ring in a run. -/
theorem ringGood_of_trace (hstart : s.Start) {run : List (MemSession D × Op D × MemSession D)}
    (h : Trace (MemSession.step dev) s run t) : t.RingGood := by
  refine (h.invariant (I := RingGood) (fun _ _ _ hs hstep => hs.step hstep) ?_).1
  obtain ⟨content, shm, gpControl, devices, hmem⟩ := hstart.mem
  refine ringGood_of_empty hstart.rewind.1 ?_
  rw [hmem]
  exact fun hne => absurd rfl hne

/-! ## After a restore -/

/-- What the host derives from the guest's memory is in order. -/
structure Derived (m : CartMem D) : Prop where
  entries : ∀ addr slot, IsRam addr → getJitEntry addr = some slot → m.jit.jit.jitEntries slot = none
  dirty : m.gpuMemDirty = allDirty
  tables : HeadRight m
  saveLen : m.devices.1.Sized

/-- The entries of work memory. -/
theorem ramEntry_ne_rom {addr : Nat} {slot : JitSlot} (hram : IsRam addr)
    (hslot : getJitEntry addr = some slot) : slot.1 ≠ .rom := by
  rw [getJitEntry_eq] at hslot
  rcases hram with h | h
  · rw [codeRegion_ewram h] at hslot
    obtain rfl := Option.some.inj hslot
    exact nofun
  · rw [codeRegion_iwram h] at hslot
    obtain rfl := Option.some.inj hslot
    exact nofun

/-- **A load** puts everything in order. -/
theorem derived_of_loads (hop : Loads op) (hstep : MemSession.step dev s op = some t) :
    Derived t.mem := by
  obtain ⟨data, -, rfl⟩ := loads_spec hop hstep
  exact ⟨fun _ _ _ _ => rfl, rfl, headRight_savestatePostLoad _, sized_savestatePostLoad _⟩

/-- What a step back leaves. -/
theorem stepsBack_spec (hop : s.StepsBack op) (hstep : MemSession.step dev s op = some t) :
    ∃ data ∈ s.rewind.slots, t.mem = (s.mem.walkIn data).rewindPostRestore := by
  cases op with
  | play op => exact hop.elim
  | loadState data => exact hop.elim
  | rewindOnFrame setting held bufLen =>
      obtain ⟨hsetting, hheld, hslots⟩ := hop
      obtain rfl := Option.some.inj hstep
      cases hlast : s.rewind.slots.getLast? with
      | none => exact absurd (List.getLast?_eq_none_iff.mp hlast) hslots
      | some data =>
          refine ⟨data, List.mem_of_getLast? hlast, ?_⟩
          simp [rewindOnFrame, rewindStepBack, hsetting, hheld, hlast]

/-- **A step back** puts everything in order where the head was. -/
theorem derived_stepsBack_iff (hring : s.RingGood) (hop : s.StepsBack op)
    (hstep : MemSession.step dev s op = some t) : Derived t.mem ↔ HeadRight s.mem := by
  have hgood : t.RingGood := hring.step hstep
  obtain ⟨data, -, hmem⟩ := stepsBack_spec hop hstep
  constructor
  · intro h
    have hright := h.tables
    rw [hmem] at hright
    exact hright
  · intro h
    refine ⟨fun addr slot hram hslot => ?_, ?_, ?_, hgood.sized⟩
    · rw [hmem]
      exact if_neg (ramEntry_ne_rom hram hslot)
    · rw [hmem]
      rfl
    · rw [hmem]
      exact h

/-- **The derived state after restores.**  In a run from the start of a game everything is in order
after every restore exactly when the game started without a clock or no step back is made before
the first load. -/
theorem derived_state_law (hstart : s.Start) {run : List (MemSession D × Op D × MemSession D)}
    (h : Trace (MemSession.step dev) s run t) :
    (∀ x ∈ run, x.1.Restores x.2.1 → Derived x.2.2.mem) ↔
      (s.mem.cart.hasRtc = false ∨
        ∀ before x after, run = before ++ x :: after → x.1.StepsBack x.2.1 →
          ∃ y ∈ before, Loads y.2.1) := by
  have hstate : ∀ before x after, run = before ++ x :: after → x.1.StepsBack x.2.1 →
      (Derived x.2.2.mem ↔ (s.mem.cart.hasRtc = false ∨ ∃ y ∈ before, Loads y.2.1)) := by
    rintro before x after rfl hback
    have hbefore := h.before
    obtain ⟨hloaded, hright, hmapped⟩ := head_of_trace hstart hbefore
    rw [derived_stepsBack_iff (ringGood_of_trace hstart hbefore) hback (h.step_of_mem (by simp))]
    constructor
    · intro hhead
      by_contra hno
      exact (hmapped hno).not_headRight hloaded hhead
    · exact hright
  constructor
  · intro hall
    by_cases hrtc : s.mem.cart.hasRtc = false
    · exact .inl hrtc
    · refine .inr fun before x after hrun hback => ?_
      have hderived := hall x (by rw [hrun]; simp) (.inr hback)
      exact ((hstate before x after hrun hback).mp hderived).resolve_left hrtc
  · intro hcond x hx hrestores
    rcases hrestores with hload | hback
    · exact derived_of_loads hload (h.step_of_mem hx)
    · obtain ⟨before, after, hrun⟩ := List.append_of_mem hx
      exact (hstate before x after hrun hback).mpr
        (hcond.imp_right fun hfirst => hfirst before x after hrun hback)

/-- The start of a game with erased memory. -/
def startOf (cart : CartridgeIo) : MemSession Unit :=
  ⟨memStart cart false (fun _ => 0) 0xE129F000 0 (Cartridge.load cart.saveType [], ()), [], 0, 0⟩

/-- The same with a snapshot in the ring. -/
def snapshotOf (cart : CartridgeIo) : MemSession Unit :=
  ⟨(startOf cart).mem, [walkOut (startOf cart).mem], 0, memoryBudget⟩

theorem startOf_start {cart : CartridgeIo} (h : cart.Loaded) : (startOf cart).Start :=
  ⟨h, ⟨[], _, _, _, rfl⟩, rfl, rfl⟩

/-- Frames before the first snapshot. -/
theorem exists_frames (cart : CartridgeIo) (n : Nat) (hn : n < snapshotInterval) : ∃ run,
    Trace (step silentDevices) (startOf cart) run ⟨(startOf cart).mem, [], n, 0⟩ := by
  induction n with
  | zero => exact ⟨[], .nil⟩
  | succ n ih =>
      obtain ⟨run, htrace⟩ := ih (by omega)
      have hstep : step silentDevices ⟨(startOf cart).mem, [], n, 0⟩
          (.rewindOnFrame true false 1) = some ⟨(startOf cart).mem, [], n + 1, 0⟩ := by
        simp [step, rewindOnFrame, show ¬ snapshotInterval ≤ n + 1 by omega]
      exact ⟨_, htrace.snoc hstep⟩

/-- Twelve frames and a step back. -/
theorem exists_stepBack (cart : CartridgeIo) : ∃ run t op,
    Trace (step silentDevices) (startOf cart) (run ++ [(snapshotOf cart, op, t)]) t ∧
      (snapshotOf cart).StepsBack op := by
  obtain ⟨run, htrace⟩ := exists_frames cart 11 (by decide)
  have hstep : step silentDevices ⟨(startOf cart).mem, [], 11, 0⟩ (.rewindOnFrame true false 1) =
      some (snapshotOf cart) := by
    simp [step, rewindOnFrame, rewindSnapshot, snapshotOf, snapshotInterval, memoryBudget,
      minSlots]
  exact ⟨_, _, .rewindOnFrame true true 1, (htrace.snoc hstep).snoc rfl, rfl, rfl, nofun⟩

/-- **A cartridge without a clock** can step back. -/
theorem plainSession_derived : ∃ run t,
    Trace (step silentDevices) (startOf plainCartridge) run t ∧
      (∃ x ∈ run, x.1.StepsBack x.2.1) ∧
      ∀ x ∈ run, x.1.Restores x.2.1 → Derived x.2.2.mem := by
  obtain ⟨run, t, op, htrace, hback⟩ := exists_stepBack plainCartridge
  refine ⟨_, t, htrace, ⟨_, List.mem_append_right _ (List.mem_singleton.mpr rfl), hback⟩, ?_⟩
  exact (derived_state_law (startOf_start (by decide)) htrace).mpr (.inl rfl)

/-- A cartridge whose rom says that it has a clock. -/
def clockCartridge : CartridgeIo := ⟨0x400000, 0x1FFFFFF, .none, true⟩

/-- **A cartridge with a clock**: a step back leaves the head of the rom mapped. -/
theorem clockSession_headMapped : ¬ ∀ s : MemSession Unit, s.Start → ∀ run t,
    Trace (step silentDevices) s run t →
      ∀ x ∈ run, x.1.Restores x.2.1 → Derived x.2.2.mem := by
  intro hall
  obtain ⟨run, t, op, htrace, hback⟩ := exists_stepBack clockCartridge
  have hderived := hall _ (startOf_start (by decide)) _ t htrace _
    (List.mem_append_right _ (List.mem_singleton.mpr rfl)) (.inr hback)
  have hstep := htrace.step_of_mem (List.mem_append_right _ (List.mem_singleton.mpr rfl))
  obtain ⟨data, -, hmem⟩ := stepsBack_spec hback hstep
  have htables : HeadRight t.mem := hderived.tables
  have hmapped : HeadMapped t.mem := by
    rw [show t.mem = _ from hmem]
    exact ⟨rfl, rfl⟩
  refine hmapped.not_headRight ?_ htables
  rw [show t.mem = _ from hmem]
  show clockCartridge.Loaded
  decide

end MemSession

end AdvancedSlop
