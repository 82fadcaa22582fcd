/-
# The fast path against the handlers

An access to a mapped page goes to the shared memory.  The tables are filled page by page, from the
first address of each page; the handlers decide address by address.

* `FastAgrees` : on every mapped page the fast access is the handler's;
* `PagesServed` : no mapped page holds an address that its handler serves in another way;
* `fast_path_law` : the first holds for all contents exactly when the second does and no live bit
  lies in a writable page;
* `trimmedCartridge_disagrees` : the last page of a rom that does not fill it.
-/
import AdvancedSlop.MemoryRuns
import Mathlib.Data.Nat.Log

namespace AdvancedSlop

open WordMemory

variable {D : Type*}

/-! ## The property -/

/-- A rom address that is not served from the rom. -/
def SpecialRom (s : GuestMem D) (addr : Nat) : Prop :=
  s.isGpioAddr addr = true ∨
    (addr / 0x1000000 = 13 ∧ s.cartridgeIsEeprom addr = true) ∨
    (8 ≤ addr / 0x1000000 ∧ addr / 0x1000000 < 14 ∧ s.cart.romLen ≤ s.romOffset addr)

/-- **Agreement**: on a mapped page the access is the one of the handler, the handler of a read has
no other effect, and no address is special. -/
def FastAgrees (dev : MemDevices D) (s : GuestMem D) : Prop :=
  ∀ addr < 0x10000000,
    (s.mmuRead (addr / 4096) ≠ 0 → ¬ SpecialRom s addr) ∧
    ∀ width : MemWidth,
      (s.mmuRead (alignedAddr width addr / 4096) ≠ 0 →
        memRead dev width addr s = MemoryIo.read dev width (alignedAddr width addr) s ∧
          (MemoryIo.read dev width (alignedAddr width addr) s).2 = s) ∧
      (s.jit.mmuWrite (alignedAddr width addr / 4096) ≠ 0 → ∀ value,
        memWrite dev width addr value s =
          MemoryIo.write dev width (alignedAddr width addr) value s)

/-- The mapped rom pages hold rom only: the rom ends with a page, fills the region, or lies in the
unmapped head; it ends before the page of a large rom's EEPROM window; and a clock has the head
unmapped. -/
def PagesServed (io : CartridgeIo) (headUnmapped : Prop) : Prop :=
  (io.romLen % 0x1000 = 0 ∨ 0x2000000 ≤ io.romLen ∨
    (headUnmapped ∧ io.romMask = 0x1FFFFFF ∧ io.romLen ≤ 0x4000)) ∧
  (io.saveType = .eeprom → io.romLen ≤ 0x1FFF000) ∧
  (io.hasRtc = true → headUnmapped)

/-- No writable page holds a live bit. -/
def WritableQuiet (s : GuestMem D) : Prop :=
  ∀ addr, QuietAt s addr

/-! ## The rom mask -/

/-- The mask of a loaded rom: 32M, or the power of two around its length. -/
theorem CartridgeIo.Loaded.mask {io : CartridgeIo} (h : io.Loaded) :
    ∃ k, io.romMask = 2 ^ k - 1 ∧ (k = 25 ∨ (io.romLen ≤ 2 ^ k ∧ 2 ^ k < 2 * io.romLen)) := by
  obtain ⟨hmin, -, hmask | hmask⟩ := h
  · exact ⟨25, hmask, .inl rfl⟩
  · refine ⟨Nat.clog 2 io.romLen, hmask, .inr ⟨Nat.le_pow_clog (by decide) _, ?_⟩⟩
    have hpred : 2 ^ (Nat.clog 2 io.romLen - 1) < io.romLen :=
      Nat.pow_pred_clog_lt_self (by decide) (by omega)
    have hpos : 0 < Nat.clog 2 io.romLen := Nat.clog_pos (by decide) (by omega)
    calc 2 ^ Nat.clog 2 io.romLen = 2 ^ (Nat.clog 2 io.romLen - 1 + 1) := by
          rw [Nat.sub_add_cancel hpos]
      _ = 2 * 2 ^ (Nat.clog 2 io.romLen - 1) := pow_succ' ..
      _ < 2 * io.romLen := by omega

/-- The rom offset of an address, by its mask. -/
theorem romOffset_eq {s : GuestMem D} {k : Nat} (h : s.cart.romMask = 2 ^ k - 1) (addr : Nat) :
    s.romOffset addr = addr % 0x2000000 % 2 ^ k := by
  rw [GuestMem.romOffset, h, Nat.and_two_pow_sub_one_eq_mod]

/-- A power of two that is large enough is a multiple of the page. -/
theorem exists_pages {k : Nat} (h : 4096 ≤ 2 ^ k) : ∃ m, 2 ^ k = 4096 * m := by
  have hk : 12 ≤ k := (Nat.pow_le_pow_iff_right (by decide)).mp (show 2 ^ 12 ≤ 2 ^ k by exact h)
  exact ⟨2 ^ (k - 12), by rw [show 4096 = 2 ^ 12 from rfl, ← pow_add, Nat.add_sub_cancel' hk]⟩

/-- Where the mask keeps whole pages, a page of the bus is a page of the rom. -/
theorem romOffset_page {s : GuestMem D} {k : Nat} (h : s.cart.romMask = 2 ^ k - 1)
    (hk : 4096 ≤ 2 ^ k) (addr : Nat) :
    s.romOffset addr = s.romOffset (addr / 4096 * 4096) + addr % 4096 ∧
      s.romOffset (addr / 4096 * 4096) % 4096 = 0 := by
  obtain ⟨m, hm⟩ := exists_pages hk
  rw [romOffset_eq h, romOffset_eq h, hm, Nat.mod_mul, Nat.mod_mul]
  have hpage : addr / 4096 * 4096 % 0x2000000 / 4096 = addr % 0x2000000 / 4096 := by omega
  rw [hpage]
  omega

/-! ## Served pages -/

/-- The offset a fast read of a page takes, from the entry of the page. -/
theorem getShmOffset_read {s : GuestMem D} (h : TablesGood s) {addr : Nat}
    (hmapped : s.mmuRead (addr / 4096) ≠ 0) :
    addr < 0x10000000 ∧ mmuReadEntry s.cart (addr / 4096 * 4096) ≠ 0 ∧
      getShmOffset s.mmuRead addr =
        mmuReadEntry s.cart (addr / 4096 * 4096) + addr % 4096 := by
  have hfilled : s.mmuRead (addr / 4096) = (updateAllArm7 s.cart).mmuRead (addr / 4096) := by
    rcases h.read with hread | hread
    · rw [hread]
    · rw [hread, mmuUnmapRomHead_apply] at hmapped ⊢
      split_ifs at hmapped ⊢
      · exact absurd rfl hmapped
      · rfl
  rw [getShmOffset, if_pos hmapped]
  rw [hfilled] at hmapped ⊢
  simp only [updateAllArm7] at hmapped ⊢
  split_ifs at hmapped ⊢ with hpage
  · exact ⟨by omega, hmapped, rfl⟩
  · exact absurd rfl hmapped

/-- A mapped rom page starts in the rom, outside the EEPROM window. -/
theorem mmuReadEntry_rom {s : GuestMem D} {page : Nat} (hlow : 8 ≤ page / 0x1000000)
    (hhigh : page / 0x1000000 < 14) (h : mmuReadEntry s.cart page ≠ 0) :
    mmuReadEntry s.cart page = romRegion.shmOffset + s.romOffset page ∧
      s.romOffset page < s.cart.romLen ∧
      ¬ (s.cart.saveType = .eeprom ∧ eepromWindowStart s.cart ≤ page) := by
  unfold mmuReadEntry at h ⊢
  simp only at h ⊢
  rw [if_neg (by omega), if_neg (by omega), if_neg (by omega), if_pos (by omega)] at h ⊢
  split_ifs at h ⊢ with hmapped
  · exact ⟨rfl, hmapped.1, fun hwindow => hmapped.2 ⟨hwindow.1, hwindow.2, by omega⟩⟩
  · exact absurd rfl h

/-- The first page of a loaded rom is filled. -/
theorem updateAllArm7_head {io : CartridgeIo} (h : io.Loaded) :
    (updateAllArm7 io).mmuRead 0x8000 ≠ 0 := by
  have hlen : 0 < io.romLen := by
    have hmin := h.1
    omega
  have hwindow : ¬ eepromWindowStart io ≤ 0x08000000 := by
    unfold eepromWindowStart
    split_ifs <;> omega
  simp [updateAllArm7, mmuReadEntry, romRegion, hlen, hwindow]

/-- An unmapped first page says that the head of all images is. -/
theorem romHead_unmapped {s : GuestMem D} (hinv : MemInv s) (hzero : s.mmuRead 0x8000 = 0)
    {page : Nat} (hhead : RomHeadPage page) : s.mmuRead page = 0 := by
  rcases hinv.tables.read with hread | hread
  · exact absurd (hread ▸ hzero) (updateAllArm7_head hinv.loaded)
  · rw [hread, mmuUnmapRomHead_apply, if_pos hhead]

/-- The rom offsets of a mapped page of a served cartridge lie in the rom. -/
theorem served_inside {s : GuestMem D} (hinv : MemInv s)
    (hserved : PagesServed s.cart (s.mmuRead 0x8000 = 0)) {addr : Nat}
    (hmapped : s.mmuRead (addr / 4096) ≠ 0) (hrom : 8 ≤ addr / 0x1000000 ∧ addr / 0x1000000 < 14)
    (hinside : s.romOffset (addr / 4096 * 4096) < s.cart.romLen) :
    s.romOffset addr = s.romOffset (addr / 4096 * 4096) + addr % 4096 ∧
      s.romOffset addr < s.cart.romLen := by
  obtain ⟨k, hmask, hk⟩ := hinv.loaded.mask
  have hmin := hinv.loaded.1
  rcases hserved.1 with hpages | hfull | ⟨hzero, hmask', hsmall⟩
  · have hpow : 4096 ≤ 2 ^ k := by
      rcases hk with rfl | ⟨hk, -⟩
      · decide
      · omega
    obtain ⟨hoffset, haligned⟩ := romOffset_page hmask hpow addr
    exact ⟨hoffset, by omega⟩
  · have hpow : 4096 ≤ 2 ^ k := by
      rcases hk with rfl | ⟨hk, -⟩
      · decide
      · omega
    refine ⟨(romOffset_page hmask hpow addr).1, ?_⟩
    rw [romOffset_eq hmask]
    have hle := Nat.mod_le (addr % 0x2000000) (2 ^ k)
    omega
  · -- the whole rom is in the head
    have hpow : 2 ^ k = 0x2000000 := by omega
    rw [romOffset_eq hmask, hpow] at hinside
    refine absurd (romHead_unmapped hinv hzero ?_) hmapped
    unfold RomHeadPage
    omega

/-- **A mapped rom address** of a served cartridge is served from the rom, at the offset the fast
access takes. -/
theorem served_rom {s : GuestMem D} (hinv : MemInv s)
    (hserved : PagesServed s.cart (s.mmuRead 0x8000 = 0)) {addr : Nat}
    (hrom : 8 ≤ addr / 0x1000000 ∧ addr / 0x1000000 < 14)
    (hmapped : s.mmuRead (addr / 4096) ≠ 0) :
    getShmOffset s.mmuRead addr = romRegion.shmOffset + s.romOffset addr ∧
      ¬ SpecialRom s addr := by
  obtain ⟨-, hentry, hoffset⟩ := getShmOffset_read hinv.tables hmapped
  obtain ⟨hpage, hinside, hwindow⟩ := mmuReadEntry_rom (by omega) (by omega) hentry
  obtain ⟨hcontiguous, hlen⟩ := served_inside hinv hserved hmapped hrom hinside
  refine ⟨by omega, ?_⟩
  rintro (hgpio | ⟨hregion, heeprom⟩ | ⟨-, -, hpast⟩)
  · -- a clock has the page of its port unmapped
    simp only [GuestMem.isGpioAddr, Bool.and_eq_true, decide_eq_true_eq] at hgpio
    obtain ⟨hrtc, hlow, hhigh⟩ := hgpio
    have hport : addr / 4096 = 0x8000 := by omega
    rw [hport] at hmapped
    exact hmapped (hserved.2.2 hrtc)
  · simp only [GuestMem.cartridgeIsEeprom, Bool.and_eq_true, decide_eq_true_eq] at heeprom
    obtain ⟨htype, hin⟩ := heeprom
    have hlimit := hserved.2.1 htype
    split_ifs at hin with hlarge
    · -- the last page of the rom is past the end of such a cartridge
      simp only [decide_eq_true_eq] at hin
      obtain ⟨k, hmask, hk⟩ := hinv.loaded.mask
      have hpow : 0x2000000 ≤ 2 ^ k := by
        rcases hk with rfl | ⟨hk, -⟩
        · decide
        · have hlt : 2 ^ 24 < 2 ^ k := lt_of_lt_of_le hlarge hk
          have hle : 2 ^ 25 ≤ 2 ^ k :=
            Nat.pow_le_pow_right (by decide) ((Nat.pow_lt_pow_iff_right (by decide)).mp hlt)
          exact hle
      have hmod : addr / 4096 * 4096 % 0x2000000 < 2 ^ k := by omega
      rw [romOffset_eq hmask, Nat.mod_eq_of_lt hmod] at hinside
      omega
    · -- the window of a small cartridge is a whole region
      apply hwindow
      refine ⟨htype, ?_⟩
      rw [eepromWindowStart, if_neg hlarge]
      omega
  · omega

/-- The regions with mapped pages. -/
theorem mapped_region {s : GuestMem D} (h : TablesGood s) {addr : Nat}
    (hmapped : s.mmuRead (addr / 4096) ≠ 0) :
    addr / 0x1000000 = 2 ∨ addr / 0x1000000 = 3 ∨ addr / 0x1000000 = 6 ∨
      (8 ≤ addr / 0x1000000 ∧ addr / 0x1000000 < 14) := by
  obtain ⟨hbus, hentry, -⟩ := getShmOffset_read h hmapped
  have hnibble : addr / 4096 * 4096 / 0x1000000 % 16 = addr / 0x1000000 := by omega
  by_contra hregion
  apply hentry
  unfold mmuReadEntry
  simp only [hnibble]
  rw [if_neg (by omega), if_neg (by omega), if_neg (by omega), if_neg (by omega)]

/-- The offset of a fast read of the work memories. -/
theorem getShmOffset_read_ram {s : GuestMem D} (h : TablesGood s) {addr : Nat}
    (hram : IsRam addr) (hmapped : s.mmuRead (addr / 4096) ≠ 0) :
    getShmOffset s.mmuRead addr = ramOffset addr := by
  rw [(getShmOffset_read h hmapped).2.2]
  unfold mmuReadEntry ramOffset
  unfold IsRam at hram
  simp only [ewramRegion, iwramRegion]
  rcases hram with hew | hiw
  · rw [if_pos (by omega), if_pos (by omega)]
    omega
  · rw [if_neg (by omega), if_pos (by omega), if_neg (by omega)]
    omega

/-- The offset of a fast read of video memory. -/
theorem getShmOffset_read_vram {s : GuestMem D} (h : TablesGood s) {addr : Nat}
    (hvram : addr / 0x1000000 = 6) (hmapped : s.mmuRead (addr / 4096) ≠ 0) :
    getShmOffset s.mmuRead addr = vramRegion.shmOffset + vramOffset addr := by
  rw [(getShmOffset_read h hmapped).2.2]
  unfold mmuReadEntry
  simp only
  rw [if_neg (by omega), if_neg (by omega), if_pos (by omega), Nat.add_assoc]
  congr 1
  unfold vramOffset
  simp only
  split_ifs <;> omega

/-- **The handler** of a mapped page reads the shared memory where the fast access does. -/
theorem served_read (dev : MemDevices D) {s : GuestMem D} (hinv : MemInv s)
    (hserved : PagesServed s.cart (s.mmuRead 0x8000 = 0)) (width : MemWidth) {addr : Nat}
    (hmapped : s.mmuRead (addr / 4096) ≠ 0) :
    MemoryIo.read dev width addr s = (s.load width (getShmOffset s.mmuRead addr), s) := by
  rcases mapped_region hinv.tables hmapped with hew | hiw | hvram | hrom
  · rw [getShmOffset_read_ram hinv.tables (.inl hew) hmapped, read_ewram dev width s (by omega),
      ramOffset, if_pos (by omega)]
  · rw [getShmOffset_read_ram hinv.tables (.inr hiw) hmapped, read_iwram dev width s (by omega),
      ramOffset, if_neg (by omega)]
  · rw [getShmOffset_read_vram hinv.tables hvram hmapped, read_vram dev width s (by omega)]
  · obtain ⟨hoffset, hplain⟩ := served_rom hinv hserved hrom hmapped
    have hgpio : ¬ s.isGpioAddr addr = true := fun h => hplain (.inl h)
    have hinside : s.romOffset addr < s.cart.romLen := by
      by_contra hpast
      exact hplain (.inr (.inr ⟨hrom.1, hrom.2, Nat.le_of_not_lt hpast⟩))
    have hread : MemoryIo.readRom dev width addr s =
        s.load width (getShmOffset s.mmuRead addr) := by
      rw [MemoryIo.readRom, if_neg hgpio, if_pos hinside, hoffset]
    by_cases heeprom : addr / 0x1000000 = 13
    · have hplain : ¬ s.cartridgeIsEeprom addr = true := fun h => hplain (.inr (.inl ⟨heeprom, h⟩))
      rw [read_romEeprom dev width s (by omega), MemoryIo.readRomEeprom, if_neg hplain, hread]
    · rw [read_rom dev width s (by omega), hread]

/-! ## The law -/

/-- Served pages and quiet writable pages are enough. -/
theorem fastAgrees_of_served (dev : MemDevices D) {s : GuestMem D} (hinv : MemInv s)
    (hserved : PagesServed s.cart (s.mmuRead 0x8000 = 0)) (hquiet : WritableQuiet s) :
    FastAgrees dev s := by
  intro addr hbus
  refine ⟨fun hmapped hspecial => ?_, fun width => ⟨fun hmapped => ?_, fun hmapped value => ?_⟩⟩
  · have hrom : 8 ≤ addr / 0x1000000 ∧ addr / 0x1000000 < 14 := by
      rcases hspecial with hgpio | ⟨hregion, -⟩ | ⟨hlow, hhigh, -⟩
      · simp only [GuestMem.isGpioAddr, Bool.and_eq_true, decide_eq_true_eq] at hgpio
        omega
      · omega
      · exact ⟨hlow, hhigh⟩
    exact (served_rom hinv hserved hrom hmapped).2 hspecial
  · rw [served_read dev hinv hserved width hmapped, memRead_of_mapped dev hmapped]
    exact ⟨rfl, rfl⟩
  · have hram := (getShmOffset_write hinv.tables hmapped).1
    rw [memWrite_ram dev hinv.tables hram (fun hzero => absurd hzero hmapped),
      write_ram dev (dvd_alignedAddr width addr) hram (hquiet _ hmapped)]

/-- The page of a rom address, when nothing else is in it. -/
theorem mapped_of_entry {s : GuestMem D} (hinv : MemInv s) {page : Nat} (hpage : page < 0x10000)
    (hrom : 0x8000 ≤ page ∧ page < 0xE000) (hhead : s.mmuRead 0x8000 = 0 → ¬ RomHeadPage page)
    (hinside : s.romOffset (page * 4096) < s.cart.romLen)
    (hwindow : ¬ (s.cart.saveType = .eeprom ∧ eepromWindowStart s.cart ≤ page * 4096)) :
    s.mmuRead page ≠ 0 := by
  have hfilled : (updateAllArm7 s.cart).mmuRead page ≠ 0 := by
    simp only [updateAllArm7, mmuReadEntry]
    rw [if_pos hpage, if_neg (by omega), if_neg (by omega), if_neg (by omega), if_pos (by omega),
      if_pos ⟨hinside, fun h => hwindow ⟨h.1, h.2.1⟩⟩]
    simp [romRegion]
  rcases hinv.tables.read with hread | hread
  · rw [hread]
    exact hfilled
  · have hzero : s.mmuRead 0x8000 = 0 := by
      rw [hread, mmuUnmapRomHead_apply, if_pos (by decide)]
    rw [hread, mmuUnmapRomHead_apply, if_neg (hhead hzero)]
    exact hfilled

/-- The rom offsets of the second half of the first image, for a mask of at most 16M. -/
theorem romOffset_half {s : GuestMem D} {k : Nat} (hmask : s.cart.romMask = 2 ^ k - 1)
    (hk : k ≤ 24) {offset : Nat} (hoffset : offset < 0x1000000) :
    s.romOffset (0x09000000 + offset) = offset % 2 ^ k := by
  obtain ⟨c, hc⟩ : 2 ^ k ∣ 2 ^ 24 := Nat.pow_dvd_pow 2 hk
  have hc : 0x1000000 = 2 ^ k * c := hc
  have himage : (0x09000000 + offset) % 0x2000000 = 2 ^ k * c + offset := by omega
  rw [romOffset_eq hmask, himage, Nat.mul_add_mod]

/-- A last page that the rom does not fill is mapped, with what lies behind the rom. -/
theorem exists_special {s : GuestMem D} (hinv : MemInv s) (hragged : s.cart.romLen % 0x1000 ≠ 0)
    (hlen : s.cart.romLen < 0x2000000)
    (hhead : ¬ (s.mmuRead 0x8000 = 0 ∧ s.cart.romMask = 0x1FFFFFF ∧ s.cart.romLen ≤ 0x4000))
    (hsmall : ¬ (s.cart.romLen < 0x1000 ∧ s.cart.romMask + 1 = s.cart.romLen)) :
    ∃ addr < 0x10000000, s.mmuRead (addr / 4096) ≠ 0 ∧ SpecialRom s addr := by
  obtain ⟨k, hmask, hk⟩ := hinv.loaded.mask
  have hmin := hinv.loaded.1
  have hstart : 0x0D000000 ≤ eepromWindowStart s.cart := by
    unfold eepromWindowStart
    split_ifs <;> omega
  have hone : 1 ≤ 2 ^ k := Nat.one_le_two_pow
  by_cases hfull : s.cart.romMask = 0x1FFFFFF
  · -- the page behind the last whole one, in the first image
    have hpow : 2 ^ k = 0x2000000 := by omega
    have hoffset : ∀ offset < 0x2000000, s.romOffset (0x08000000 + offset) = offset := by
      intro offset hlt
      rw [romOffset_eq hmask, hpow]
      omega
    refine ⟨0x08000000 + (s.cart.romLen / 4096 * 4096 + 0xFFF), by omega, ?_,
      .inr (.inr ⟨by omega, by omega, ?_⟩)⟩
    · rw [show (0x08000000 + (s.cart.romLen / 4096 * 4096 + 0xFFF)) / 4096 =
        0x8000 + s.cart.romLen / 4096 by omega]
      refine mapped_of_entry hinv (by omega) (by omega) (fun hzero hpage => ?_) ?_ (by omega)
      · unfold RomHeadPage at hpage
        exact hhead ⟨hzero, hfull, by omega⟩
      · rw [show (0x8000 + s.cart.romLen / 4096) * 4096 =
          0x08000000 + s.cart.romLen / 4096 * 4096 by omega, hoffset _ (by omega)]
        omega
    · rw [hoffset _ (by omega)]
      omega
  · -- a mirror of that page outside the head
    obtain ⟨hle, hlt⟩ : s.cart.romLen ≤ 2 ^ k ∧ 2 ^ k < 2 * s.cart.romLen := by
      rcases hk with rfl | hk
      · exact absurd hmask hfull
      · exact hk
    have hk24 : k ≤ 24 := by
      have hlt : 2 ^ k < 2 ^ 26 := by omega
      have hk26 := (Nat.pow_lt_pow_iff_right (by decide)).mp hlt
      have hk25 : k ≠ 25 := by
        rintro rfl
        exact hfull hmask
      omega
    have hpow24 : 2 ^ k ≤ 0x1000000 := Nat.pow_le_pow_right (by decide) hk24
    by_cases hpow : 4096 ≤ 2 ^ k
    · obtain ⟨m, hm⟩ := exists_pages hpow
      refine ⟨0x09000000 + (s.cart.romLen / 4096 * 4096 + 0xFFF), by omega, ?_,
        .inr (.inr ⟨by omega, by omega, ?_⟩)⟩
      · rw [show (0x09000000 + (s.cart.romLen / 4096 * 4096 + 0xFFF)) / 4096 =
          0x9000 + s.cart.romLen / 4096 by omega]
        refine mapped_of_entry hinv (by omega) (by omega) (fun _ hpage => ?_) ?_ (by omega)
        · unfold RomHeadPage at hpage
          omega
        · rw [show (0x9000 + s.cart.romLen / 4096) * 4096 =
            0x09000000 + s.cart.romLen / 4096 * 4096 by omega,
            romOffset_half hmask hk24 (by omega), Nat.mod_eq_of_lt (by omega)]
          omega
      · rw [romOffset_half hmask hk24 (by omega), Nat.mod_eq_of_lt (by omega)]
        omega
    · refine ⟨0x09000000 + s.cart.romLen, by omega, ?_, .inr (.inr ⟨by omega, by omega, ?_⟩)⟩
      · rw [show (0x09000000 + s.cart.romLen) / 4096 = 0x9000 by omega]
        refine mapped_of_entry hinv (by decide) (by decide) (fun _ => by decide) ?_ (by omega)
        rw [show 0x9000 * 4096 = 0x09000000 + 0 by rfl, romOffset_half hmask hk24 (by decide),
          Nat.zero_mod]
        omega
      · rw [romOffset_half hmask hk24 (by omega), Nat.mod_eq_of_lt (by omega)]

/-- A rom that is smaller than a page and mirrored within it: the fast access reads on behind it. -/
theorem smallMirror_disagrees (dev : MemDevices D) {s : GuestMem D} (hinv : MemInv s)
    (hsmall : s.cart.romLen < 0x1000 ∧ s.cart.romMask + 1 = s.cart.romLen) :
    ¬ ∀ shm, FastAgrees dev (s.withShm shm) := by
  intro hagree
  obtain ⟨k, hmask, hk⟩ := hinv.loaded.mask
  have hone : 1 ≤ 2 ^ k := Nat.one_le_two_pow
  have hpow : 2 ^ k = s.cart.romLen := by omega
  have hmin := hinv.loaded.1
  have hk24 : k ≤ 24 := by
    have hlt : 2 ^ k < 2 ^ 12 := by omega
    have hk12 := (Nat.pow_lt_pow_iff_right (by decide)).mp hlt
    omega
  have hstart : 0x0D000000 ≤ eepromWindowStart s.cart := by
    unfold eepromWindowStart
    split_ifs <;> omega
  have hpage : s.romOffset 0x09000000 = 0 := by
    have hhalf := romOffset_half hmask hk24 (show 0 < 0x1000000 by decide)
    rwa [Nat.zero_mod] at hhalf
  have hmapped : s.mmuRead 0x9000 ≠ 0 :=
    mapped_of_entry hinv (by decide) (by decide) (fun _ => by decide)
      (show s.romOffset 0x09000000 < s.cart.romLen by omega) (by omega)
  -- contents that tell the two offsets apart
  set shm : Nat → UInt8 := fun a => if a = romRegion.shmOffset + 0xFFF then 1 else 0 with hshm
  have hinv' : MemInv (s.withShm shm) := hinv.withShm shm
  have hlast : (s.withShm shm).romOffset 0x09000FFF = 0xFFF % 2 ^ k :=
    romOffset_half hmask hk24 (show 0xFFF < 0x1000000 by decide)
  have hlt : 0xFFF % 2 ^ k < 2 ^ k := Nat.mod_lt _ hone
  have hfast : memRead dev .byte 0x09000FFF (s.withShm shm) =
      ((s.withShm shm).load .byte (romRegion.shmOffset + 0xFFF), s.withShm shm) := by
    obtain ⟨-, hpos, hread⟩ := @getShmOffset_read D s hinv.tables 0x09000FFF hmapped
    have hentry := @mmuReadEntry_rom D s 0x09000000 (by decide) (by decide) hpos
    have hoffset : getShmOffset s.mmuRead 0x09000FFF = romRegion.shmOffset + 0xFFF := by
      rw [hread]
      show mmuReadEntry s.cart 0x09000000 + 0xFFF = _
      rw [hentry.1, hpage]
    have haligned : alignedAddr .byte 0x09000FFF = 0x09000FFF := by decide
    rw [memRead_of_mapped dev (by rw [haligned]; exact hmapped), haligned, withShm_mmuRead, hoffset]
  have hslow : MemoryIo.read dev .byte 0x09000FFF (s.withShm shm) =
      ((s.withShm shm).load .byte (romRegion.shmOffset + 0xFFF % 2 ^ k), s.withShm shm) := by
    have hgpio : (s.withShm shm).isGpioAddr 0x09000FFF = false := by simp [GuestMem.isGpioAddr]
    rw [read_rom dev .byte _ (by decide), MemoryIo.readRom, hgpio, hlast,
      if_neg (by decide), withShm_cart, if_pos (by omega)]
  have hequal := ((hagree shm 0x09000FFF (by decide)).2 .byte).1 hmapped
  rw [hfast] at hequal
  have hvalues := congrArg Prod.fst (hequal.1.trans hslow)
  have hbyte := eq_of_readWord hvalues (show 0 < MemWidth.byte.bytes by decide)
  simp only [withShm_shm, hshm, Nat.add_zero] at hbyte
  rw [if_pos trivial, if_neg (by omega)] at hbyte
  exact absurd hbyte (by decide)

/-- A live bit in a writable page: the fast store does not see it. -/
theorem writableQuiet_of_agrees (dev : MemDevices D) {s : GuestMem D} (hinv : MemInv s)
    (hagree : ∀ shm, FastAgrees dev (s.withShm shm)) : WritableQuiet s := by
  rintro addr hmapped ⟨hiw, hlive⟩
  have hbus : addr < 0x10000000 := by omega
  have haligned : alignedAddr .byte addr = addr := alignedAddr_self (Nat.one_dvd _) hbus
  set s' := s.withShm fun _ => 0 with hs'
  have hequal := ((hagree (fun _ => 0) addr hbus).2 .byte).2
  rw [haligned] at hequal
  have hequal := hequal hmapped 1
  have hram : IsRam (alignedAddr .byte addr) := by
    rw [haligned]
    exact .inr hiw
  have hfast := memWrite_ram dev (hinv.withShm fun _ => 0).tables hram
    (fun hzero => absurd (haligned ▸ hzero) hmapped) 1
  rw [hfast, write_iwram dev hiw] at hequal
  have hjit := congrArg (fun s : GuestMem D => hasJitBlock s.jit.jit addr) (Option.some.inj hequal)
  have hunwatched := @writeIwram_of_live s'.jit hinv.jit.tables .byte addr hiw hlive 1 (by
    rw [show readFromMem .byte s'.jit.shm _ = 0 from readFromMem_zero _ _]
    decide)
  have hkept : hasJitBlock s.jit.jit addr = false := hjit.trans hunwatched
  rw [hlive] at hkept
  exact absurd hkept (by decide)

/-- **The fast path.**  In every state of every run the fast accesses are the handlers', for all
contents of the memory, exactly when the pages are served and the writable ones quiet. -/
theorem fast_path_law (dev : MemDevices D) (s : GuestMem D) (h : MemReaches dev s) :
    (∀ shm, FastAgrees dev (s.withShm shm)) ↔
      PagesServed s.cart (s.mmuRead 0x8000 = 0) ∧ WritableQuiet s := by
  have hinv := memInv_of_reaches h
  constructor
  · intro hagree
    have hplain : ∀ addr < 0x10000000, s.mmuRead (addr / 4096) ≠ 0 → ¬ SpecialRom s addr :=
      fun addr hbus => (hagree s.jit.shm addr hbus).1
    refine ⟨⟨?_, fun htype => ?_, fun hrtc => ?_⟩, writableQuiet_of_agrees dev hinv hagree⟩
    · by_contra hserved
      simp only [not_or, Nat.not_le] at hserved
      obtain ⟨hragged, hlen, hhead⟩ := hserved
      by_cases hsmall : s.cart.romLen < 0x1000 ∧ s.cart.romMask + 1 = s.cart.romLen
      · exact smallMirror_disagrees dev hinv hsmall hagree
      · obtain ⟨addr, hbus, hmapped, hspecial⟩ :=
          exists_special hinv hragged hlen hhead hsmall
        exact hplain addr hbus hmapped hspecial
    · by_contra hlimit
      have hwindow : eepromWindowStart s.cart = 0x0DFFFF00 := by
        rw [eepromWindowStart, if_pos (by omega)]
      refine hplain 0x0DFFFF00 (by decide) ?_ (.inr (.inl ⟨by decide, ?_⟩))
      · obtain ⟨k, hmask, -⟩ := hinv.loaded.mask
        refine mapped_of_entry hinv (show 0xDFFF < 0x10000 by decide) (by decide)
          (fun _ => by decide) ?_ (by omega)
        rw [romOffset_eq hmask]
        have hle := Nat.mod_le 0x1FFF000 (2 ^ k)
        show 0x1FFF000 % 2 ^ k < _
        omega
      · have hlarge : s.cart.romLen > 16 * 1024 * 1024 := by omega
        simp [GuestMem.cartridgeIsEeprom, htype, hlarge]
    · by_contra hmapped
      exact hplain 0x080000C4 (by decide) hmapped (.inl (by simp [GuestMem.isGpioAddr, hrtc]))
  · rintro ⟨hserved, hquiet⟩ shm
    exact fastAgrees_of_served dev (hinv.withShm shm) hserved hquiet

/-- No code is compiled at the boot. -/
theorem writableQuiet_emptyBoot (cart : CartridgeIo) : WritableQuiet (emptyBoot cart) := by
  rintro addr - ⟨-, hlive⟩
  have hempty : hasJitBlock jitInit addr = true := hlive
  unfold hasJitBlock at hempty
  split at hempty
  · exact absurd hempty (by decide)
  · exact absurd hempty (by simp [jitInit])

/-- The boot of a rom of four megabytes agrees. -/
theorem plainCartridge_agrees : FastAgrees silentDevices (emptyBoot plainCartridge) := by
  have hloaded : plainCartridge.Loaded := by
    refine ⟨by decide, by decide, .inl rfl⟩
  have hserved : PagesServed plainCartridge ((emptyBoot plainCartridge).mmuRead 0x8000 = 0) :=
    ⟨.inl (by decide), by decide, by decide⟩
  exact (fast_path_law silentDevices _ (emptyBoot_reaches hloaded)).mpr
    ⟨hserved, writableQuiet_emptyBoot _⟩ fun _ => 0

/-! ## A partial page -/

/-- A rom of four megabytes and 256 bytes. -/
def trimmedCartridge : CartridgeIo := ⟨0x400100, 0x1FFFFFF, .none, false⟩

/-- Behind its end the fast access finds the shared memory, the handler gives the pattern of the
open bus. -/
theorem trimmedCartridge_disagrees :
    ¬ ∀ s, MemReaches silentDevices s → FastAgrees silentDevices s := by
  intro hclaim
  have hloaded : trimmedCartridge.Loaded := by
    refine ⟨by decide, by decide, .inl rfl⟩
  have hagree := hclaim _ (emptyBoot_reaches hloaded)
  have hmapped : (emptyBoot trimmedCartridge).mmuRead
      (alignedAddr .byte 0x08400100 / 4096) ≠ 0 := by decide
  have hequal := (((hagree 0x08400100 (by decide)).2 .byte).1 hmapped).1
  have hslow : (MemoryIo.read silentDevices .byte (alignedAddr .byte 0x08400100)
      (emptyBoot trimmedCartridge)).1 = 0x80 := by decide
  rw [← hequal, memRead_of_mapped silentDevices hmapped] at hslow
  have hfast : ∀ offset, (emptyBoot trimmedCartridge).load .byte offset = 0 :=
    readFromMem_zero .byte
  exact absurd ((hfast _).symm.trans hslow) (by decide)

end AdvancedSlop
