/-
# The sound channels

The registers and the channels of `src/core/apu.rs`, and the sample that is mixed from them.  All
sums, differences, products and shifts of the source are checked: a sample has no result where one
leaves its type.

* `Apu`, `writeCntX`, `runSample`, `apuStep` : the code;
* `ApuInv` : what the channels keep;
* `apu_channel_law` : every run of writes, samples and timers has a result, and keeps it.
-/
import AdvancedSlop.CheckedRun
import AdvancedSlop.SoundFifo

namespace AdvancedSlop

open RingQueue

attribute [local instance] neZero_fifos

/-! ## The state -/

/-- `Apu`, with the fifos as rings. -/
structure Apu where
  soundBias : BitVec 16
  cntL : Fin 2 → BitVec 8
  cntH : Fin 4 → BitVec 16
  cntX : Fin 4 → BitVec 16
  mainCntL : BitVec 16
  mainCntH : BitVec 16
  mainCntX : BitVec 8
  soundTimers : Fin 4 → ℤ
  envelopes : Fin 3 → ℕ
  envTimers : Fin 3 → ℤ
  sweepTimer : ℤ
  waveDigit : ℕ
  noiseValue : BitVec 16
  waveRam : Fin 2 → Fin 16 → BitVec 8
  frameSequencer : ℕ
  fifo : Fin 2 → RingBuf (BitVec 8)
  sampleAb : Fin 2 → BitVec 8

namespace Apu

/-- `Apu::new`. -/
def new : Apu where
  soundBias := 0
  cntL _ := 0
  cntH _ := 0
  cntX _ := 0
  mainCntL := 0
  mainCntH := 0
  mainCntX := 0
  soundTimers _ := 0
  envelopes _ := 0
  envTimers _ := 0
  sweepTimer := 0
  waveDigit := 0
  noiseValue := 0
  waveRam _ _ := 0
  frameSequencer := 0
  fifo _ := ⟨fun _ => 0, 0, 0⟩
  sampleAb _ := 0

/-- `master_enabled`. -/
def masterEnabled (s : Apu) : Bool := s.mainCntX.getLsbD 7

/-- Whether a channel plays. -/
def playing (s : Apu) (channel : Fin 4) : Bool := s.mainCntX.getLsbD channel.1

/-- A channel stops. -/
def stop (s : Apu) (channel : Fin 4) : Apu :=
  { s with mainCntX := s.mainCntX &&& ~~~(1#8 <<< channel.1) }

/-- The frequency of a channel. -/
def frequency (s : Apu) (channel : Fin 4) : ℤ := (s.cntX channel &&& 0x07FF).toNat

/-- The period of a tone or of the wave. -/
def period (s : Apu) (channel : Fin 4) : ℤ := 2048 - s.frequency channel

/-- The period of the noise. -/
def noisePeriod (s : Apu) : Option ℤ :=
  let divisor : ℤ := (s.cntX 3 &&& 0x0007).toNat * 16
  let divisor := if divisor = 0 then 8 else divisor
  checkInt 32 (divisor * 2 ^ ((s.cntX 3 &&& 0x00F0) >>> 4).toNat)

/-! ## Register writes -/

/-- A masked write. -/
def masked {w : ℕ} (old mask value : BitVec w) : BitVec w := (old &&& ~~~mask) ||| (value &&& mask)

/-- `write_cnt_l`. -/
def writeCntL (channel : Fin 4) (value : BitVec 8) (s : Apu) : Apu :=
  if s.masterEnabled then
    let mask : BitVec 8 := if channel = 0 then 0x7F else 0xE0
    let slot : Fin 2 := ⟨channel.1 / 2, by omega⟩
    { s with cntL := Function.update s.cntL slot (masked (s.cntL slot) mask value) }
  else s

/-- `write_cnt_h`. -/
def writeCntH (channel : Fin 4) (mask value : BitVec 16) (s : Apu) : Apu :=
  if s.masterEnabled then
    let mask := if channel = 2 then mask &&& 0xE0FF
      else if channel = 3 then mask &&& 0xFF3F else mask
    { s with cntH := Function.update s.cntH channel (masked (s.cntH channel) mask value) }
  else s

/-- The envelope of a channel as it starts. -/
def startEnvelope (s : Apu) (slot : Fin 3) (channel : Fin 4) : Apu :=
  { s with
    envelopes := Function.update s.envelopes slot ((s.cntH channel &&& 0xF000) >>> 12).toNat
    envTimers := Function.update s.envTimers slot ((s.cntH channel &&& 0x0700) >>> 8).toNat }

/-- The timer of the sweep as it starts. -/
def sweepPeriod (s : Apu) : ℤ := ((s.cntL 0 &&& 0x70) >>> 4).toNat

/-- A channel starts: the end of `write_cnt_x`. -/
def restart (channel : Fin 4) (s : Apu) : Option Apu :=
  let s := { s with mainCntX := s.mainCntX ||| (1#8 <<< channel.1) }
  match channel with
  | 0 =>
      let s := { s with sweepTimer := s.sweepPeriod }
      let s := s.startEnvelope 0 0
      some { s with soundTimers := Function.update s.soundTimers 0 (s.period 0) }
  | 1 =>
      let s := s.startEnvelope 1 1
      some { s with soundTimers := Function.update s.soundTimers 1 (s.period 1) }
  | 2 =>
      some { s with waveDigit := 0, soundTimers := Function.update s.soundTimers 2 (s.period 2) }
  | 3 =>
      let s := { s with noiseValue := if (s.cntH 3).getLsbD 3 then 0x40 else 0x4000 }
      let s := s.startEnvelope 2 3
      s.noisePeriod.map fun timer =>
        { s with soundTimers := Function.update s.soundTimers 3 timer }

/-- **`write_cnt_x`.** -/
def writeCntX (channel : Fin 4) (mask value : BitVec 16) (s : Apu) : Option Apu :=
  if s.masterEnabled then
    let mask := mask &&& if channel = 3 then 0x40FF else 0x47FF
    let s := { s with cntX := Function.update s.cntX channel (masked (s.cntX channel) mask value) }
    if value.getLsbD 15 then restart channel s else some s
  else some s

/-- `write_main_cnt_l`. -/
def writeMainCntL (mask value : BitVec 16) (s : Apu) : Apu :=
  if s.masterEnabled then { s with mainCntL := masked s.mainCntL (mask &&& 0xFF77) value } else s

/-- `write_main_cnt_h`. -/
def writeMainCntH (mask value : BitVec 16) (s : Apu) : Apu :=
  { s with
    mainCntH := masked s.mainCntH (mask &&& 0x770F) value
    fifo := fun f =>
      if value.getLsbD (if f = 0 then 11 else 15) then (s.fifo f).clear else s.fifo f }

/-- `write_main_cnt_x`. -/
def writeMainCntX (value : BitVec 8) (s : Apu) : Apu :=
  let s := { s with mainCntX := (s.mainCntX &&& ~~~0x80) ||| (value &&& 0x80) }
  if s.masterEnabled then s
  else
    { s with
      cntL := fun _ => 0
      cntH := fun _ => 0
      cntX := fun _ => 0
      mainCntL := 0
      mainCntX := s.mainCntX &&& ~~~0x0F
      frameSequencer := 0 }

/-- `write_sound_bias`. -/
def writeSoundBias (mask value : BitVec 16) (s : Apu) : Apu :=
  { s with soundBias := masked s.soundBias (mask &&& 0xC3FE) value }

/-- The bank of the wave that is selected. -/
def waveBank (s : Apu) : Fin 2 := if (s.cntL 1).getLsbD 6 then 1 else 0

/-- `write_wave_ram`, to the bank that is not selected. -/
def writeWaveRam (index : Fin 16) (value : BitVec 8) (s : Apu) : Apu :=
  let bank := 1 - s.waveBank
  { s with
    waveRam := Function.update s.waveRam bank (Function.update (s.waveRam bank) index value) }

/-! ## The channels -/

/-- The length counter of a channel, at 256Hz. -/
def lengthCounter (channel : Fin 4) (mask : BitVec 16) (s : Apu) : Option Apu :=
  if s.frameSequencer % 128 = 0 ∧ (s.cntX channel).getLsbD 14 ∧ s.cntH channel &&& mask ≠ 0 then do
    let count ← checkNat 16 ((s.cntH channel &&& mask).toNat - 1)
    let cntH := (s.cntH channel &&& ~~~mask) ||| BitVec.ofNat 16 count
    let s := { s with cntH := Function.update s.cntH channel cntH }
    some (if cntH &&& mask = 0 then s.stop channel else s)
  else some s

/-- The volume of an envelope whose timer has run out. -/
def nextVolume (cntH : BitVec 16) (timer : ℤ) (volume : ℕ) : Option ℕ :=
  if timer = 0 then
    if cntH.getLsbD 11 = true ∧ volume < 15 then checkNat 8 (volume + 1)
    else if cntH.getLsbD 11 = false ∧ 0 < volume then checkNat 8 (volume - 1)
    else some volume
  -- The envelope resets with a period of zero.
  else some ((cntH &&& 0xF000) >>> 12).toNat

/-- The envelope of a channel, at 64Hz. -/
def envelope (slot : Fin 3) (channel : Fin 4) (s : Apu) : Option Apu :=
  if s.frameSequencer = 448 then do
    let timer ← checkInt 32 (s.envTimers slot - 1)
    let s := { s with envTimers := Function.update s.envTimers slot timer }
    if timer ≤ 0 then do
      let volume ← nextVolume (s.cntH channel) timer (s.envelopes slot)
      some { s with
        envelopes := Function.update s.envelopes slot volume
        envTimers :=
          Function.update s.envTimers slot ((s.cntH channel &&& 0x0700) >>> 8).toNat }
    else some s
  else some s

/-- The frequency sweep of the first tone, at 128Hz: whether the channel goes on. -/
def sweep (s : Apu) : Option (Apu × Bool) :=
  if s.frameSequencer % 256 = 128 ∧ s.cntL 0 &&& 0x70 ≠ 0 then do
    let timer ← checkInt 32 (s.sweepTimer - 1)
    let s := { s with sweepTimer := timer }
    if timer ≤ 0 then do
      let delta := s.frequency 0 >>> (s.cntL 0 &&& 0x07).toNat
      let delta := if (s.cntL 0).getLsbD 3 then -delta else delta
      let frequency ← checkInt 32 (s.frequency 0 + delta)
      if frequency < 0x800 then do
        let bits ← checkNat 16 frequency
        some ({ s with
          cntX := Function.update s.cntX 0 ((s.cntX 0 &&& ~~~0x07FF) ||| BitVec.ofNat 16 bits)
          sweepTimer := s.sweepPeriod }, true)
      -- The channel stops where the frequency overflows.
      else some (s.stop 0, false)
    else some (s, true)
  else some (s, true)

/-- The point of the period where the duty cycle switches. -/
def dutyPoint (cntH : BitVec 16) (period : ℤ) : Option ℤ :=
  let duty := ((cntH &&& 0x00C0) >>> 6).toNat
  let eighths := if duty = 0 then 7 else if duty = 1 then 6 else if duty = 2 then 4 else 2
  (checkInt 32 (period * eighths)).map (·.tdiv 8)

/-- A level at the volume of an envelope. -/
def atVolume (level : ℤ) (volume : ℕ) : Option ℤ := (checkInt 32 (level * volume)).map (·.tdiv 15)

/-- A tone channel that plays. -/
def toneStep (fuel : ℕ) (i : Fin 2) (s : Apu) : Option (Apu × ℤ) := do
  let channel : Fin 4 := ⟨i.1, by omega⟩
  let slot : Fin 3 := ⟨i.1, by omega⟩
  let timer ← checkInt 32 (s.soundTimers channel - 4)
  let caught ← catchUp (s.period channel) some fuel timer ()
  let s := { s with soundTimers := Function.update s.soundTimers channel caught.1 }
  let duty ← dutyPoint (s.cntH channel) (s.period channel)
  let level := if s.soundTimers channel < duty then -0x80 else 0x80
  let s ← lengthCounter channel 0x003F s
  let s ← envelope slot channel s
  let value ← atVolume level (s.envelopes slot)
  some (s, value)

/-- A tone channel. -/
def tone (fuel : ℕ) (i : Fin 2) (s : Apu) : Option (Apu × ℤ) :=
  if s.playing ⟨i.1, by omega⟩ then do
    let swept ← (if i = 0 then sweep s else some (s, true))
    if swept.2 then toneStep fuel i swept.1 else some (swept.1, 0)
  else some (s, 0)

/-- A digit of the wave of a bank. -/
def waveDigitAt (s : Apu) (bank digit : ℕ) : Option ℤ :=
  if hbank : bank < 2 then
    if hindex : digit % 32 / 2 < 16 then
      let byte := s.waveRam ⟨bank, hbank⟩ ⟨digit % 32 / 2, hindex⟩
      some (if digit &&& 1 ≠ 0 then (byte &&& 0x0F).toNat else (byte >>> 4).toNat)
    else none
  else none

/-- The volume shift of the wave; bit 15 forces three quarters. -/
def waveLevel (cntH : BitVec 16) (digit : ℤ) : Option ℤ :=
  let volume := ((cntH &&& 0xE000) >>> 13).toNat
  if volume = 0 then some (digit >>> (4 : ℕ))
  else if volume = 1 then some digit
  else if volume = 2 then some (digit >>> (1 : ℕ))
  else if volume = 3 then some (digit >>> (2 : ℕ))
  else (checkInt 32 (digit * 3)).map (·.tdiv 4)

/-- The wave channel. -/
def wave (fuel : ℕ) (s : Apu) : Option (Apu × ℤ) :=
  if s.playing 2 ∧ (s.cntL 1).getLsbD 7 then do
    let timer ← checkInt 32 (s.soundTimers 2 - 64)
    -- Each reload is for the next digit.
    let caught ← catchUp (s.period 2)
      (fun (digit : ℕ) => (checkNat 8 ((digit : ℤ) + 1)).map (· % 64)) fuel timer s.waveDigit
    let s := { s with
      soundTimers := Function.update s.soundTimers 2 caught.1
      waveDigit := caught.2 }
    let bank := s.waveBank.1
    -- In the dimension of 64 digits the other bank comes after the first 32.
    let bank := if (s.cntL 1).getLsbD 5 ∧ 32 ≤ s.waveDigit then bank ^^^ 1 else bank
    let digit ← waveDigitAt s bank s.waveDigit
    let s ← lengthCounter 2 0x00FF s
    let level ← waveLevel (s.cntH 2) digit
    let value ← checkInt 32 (level * 0x100)
    some (s, value.tdiv 0xF)
  else some (s, 0)

/-- The shift register of the noise, a step on. -/
def lfsr (cntH : BitVec 16) (value : BitVec 16) : BitVec 16 :=
  let value := value &&& ~~~0x8000
  if value &&& 1 ≠ 0 then
    0x8000 ||| ((value >>> 1) ^^^ if cntH.getLsbD 3 then 0x60 else 0x6000)
  else value >>> 1

/-- The noise channel. -/
def noise (fuel : ℕ) (s : Apu) : Option (Apu × ℤ) :=
  if s.playing 3 then do
    let timer ← checkInt 32 (s.soundTimers 3 - 16)
    let period ← s.noisePeriod
    let caught ← catchUp period (fun value => some (lfsr (s.cntH 3) value)) fuel timer s.noiseValue
    let s := { s with
      soundTimers := Function.update s.soundTimers 3 caught.1
      noiseValue := caught.2 }
    let level := if s.noiseValue.getLsbD 15 then 0x80 else -0x80
    let s ← lengthCounter 3 0x003F s
    let s ← envelope 2 3 s
    let value ← atVolume level (s.envelopes 2)
    some (s, value)
  else some (s, 0)

/-! ## The sample -/

/-- A channel at a volume of the master register. -/
def scaled (value : ℤ) (volume : ℕ) : Option ℤ := (checkInt 32 (value * volume)).map (·.tdiv 7)

/-- A side of the mix, with a channel added if its bit is set. -/
def addTo (sum : ℤ) (enabled : Bool) (value : Option ℤ) : Option ℤ :=
  if enabled then value.bind fun value => checkInt 32 (sum + value) else some sum

/-- A PSG channel in the mix. -/
def mixPsg (s : Apu) (mix : ℤ × ℤ) (channel : Fin 4 × ℤ) : Option (ℤ × ℤ) := do
  let ratio := (s.mainCntH &&& 0x0003).toNat
  let value := channel.2 >>> (if ratio = 0 then 2 else if ratio = 1 then 1 else 0 : ℕ)
  let left ← addTo mix.1 (s.mainCntL.getLsbD (12 + channel.1.1))
    (scaled value ((s.mainCntL &&& 0x0070) >>> 4).toNat)
  let right ← addTo mix.2 (s.mainCntL.getLsbD (8 + channel.1.1))
    (scaled value (s.mainCntL &&& 0x0007).toNat)
  some (left, right)

/-- A fifo in the mix: its volume is a bit from 2 on, its sides are bits from 8 and 12 on. -/
def mixFifo (s : Apu) (mix : ℤ × ℤ) (f : Fin 2) : Option (ℤ × ℤ) := do
  let shift := if s.mainCntH.getLsbD (2 + f.1) then 2 else 1
  let value := checkInt 32 ((s.sampleAb f).toInt * 2 ^ shift)
  let left ← addTo mix.1 (s.mainCntH.getLsbD (9 + 4 * f.1)) value
  let right ← addTo mix.2 (s.mainCntH.getLsbD (8 + 4 * f.1)) value
  some (left, right)

/-- A side of the sample: biased, clipped to ten bits and expanded to sixteen. -/
def dacLevel (s : Apu) (sum : ℤ) : Option ℤ := do
  let biased ← checkInt 32 (sum + (s.soundBias &&& 0x3FF).toNat)
  let level ← checkInt 32 ((min (max biased 0) 0x3FF - 0x200) * 2 ^ 6)
  -- The word that is sent has 16 bits for each side.
  checkInt 16 level

/-- The channels of a sample, with the mix of them. -/
def mixChannels (fuel : ℕ) (s : Apu) : Option (Apu × ℤ × ℤ) := do
  let tone0 ← tone fuel 0 s
  let tone1 ← tone fuel 1 tone0.1
  let wave ← wave fuel tone1.1
  let noise ← noise fuel wave.1
  let s := noise.1
  let data := [((0 : Fin 4), tone0.2), (1, tone1.2), (2, wave.2), (3, noise.2)]
  let mix ← data.foldlM (mixPsg s) (0, 0)
  let mix ← (List.finRange 2).foldlM (mixFifo s) mix
  let phase ← checkNat 16 ((s.frameSequencer : ℤ) + 1)
  some ({ s with frameSequencer := phase % 512 }, mix)

/-- **`run_sample`**: the two sides of the sample. -/
def runSample (fuel : ℕ) (s : Apu) : Option (Apu × ℤ × ℤ) := do
  let mixed ← (if s.masterEnabled then mixChannels fuel s else some (s, 0, 0))
  let left ← dacLevel mixed.1 mixed.2.1
  let right ← dacLevel mixed.1 mixed.2.2
  some (mixed.1, left, right)

/-! ## Runs -/

/-- `apu_on_fifo_timer`, without its request for a DMA. -/
def onFifoTimer (timer : Fin 2) (s : Apu) : Apu :=
  (List.finRange 2).foldl
    (fun s f =>
      if timerSelect s.mainCntH f = timer then
        match (s.fifo f).pop 32 with
        | some (value, fifo) => { s with
            fifo := Function.update s.fifo f fifo
            sampleAb := Function.update s.sampleAb f value }
        | none => s
      else s) s

end Apu

/-- What happens to the sound: writes of any value and mask, samples, and timers of the fifos. -/
inductive ApuOp where
  | writeCntL (channel : Fin 4) (value : BitVec 8)
  | writeCntH (channel : Fin 4) (mask value : BitVec 16)
  | writeCntX (channel : Fin 4) (mask value : BitVec 16)
  | writeMainCntL (mask value : BitVec 16)
  | writeMainCntH (mask value : BitVec 16)
  | writeMainCntX (value : BitVec 8)
  | writeSoundBias (mask value : BitVec 16)
  | writeWaveRam (index : Fin 16) (value : BitVec 8)
  | writeFifo (fifo : Fin 2) (mask value : BitVec 32)
  | fifoTimer (timer : Fin 2)
  | sample

/-- A step, with the samples that are sent so far. -/
def apuStep (fuel : ℕ) (run : Apu × List (ℤ × ℤ)) : ApuOp → Option (Apu × List (ℤ × ℤ))
  | .writeCntL channel value => some (run.1.writeCntL channel value, run.2)
  | .writeCntH channel mask value => some (run.1.writeCntH channel mask value, run.2)
  | .writeCntX channel mask value => (run.1.writeCntX channel mask value).map fun s => (s, run.2)
  | .writeMainCntL mask value => some (run.1.writeMainCntL mask value, run.2)
  | .writeMainCntH mask value => some (run.1.writeMainCntH mask value, run.2)
  | .writeMainCntX value => some (run.1.writeMainCntX value, run.2)
  | .writeSoundBias mask value => some (run.1.writeSoundBias mask value, run.2)
  | .writeWaveRam index value => some (run.1.writeWaveRam index value, run.2)
  | .writeFifo f mask value => some ({ run.1 with
      fifo := Function.update run.1.fifo f (writeFifo mask value (run.1.fifo f)) }, run.2)
  | .fifoTimer timer => some (run.1.onFifoTimer timer, run.2)
  | .sample => (run.1.runSample fuel).map fun r => (r.1, run.2 ++ [r.2])

/-- A run from reset. -/
def apuRun (fuel : ℕ) (ops : List ApuOp) : Option (Apu × List (ℤ × ℤ)) :=
  ops.foldlM (apuStep fuel) (.new, [])

/-! ## What the channels keep -/

/-- The invariant of the sound. -/
structure ApuInv (s : Apu) : Prop where
  envelope_le : ∀ slot, s.envelopes slot ≤ 15
  envTimer : ∀ slot, 0 ≤ s.envTimers slot ∧ s.envTimers slot ≤ 7
  sweepTimer : -1 ≤ s.sweepTimer ∧ s.sweepTimer ≤ 7
  sweepTimer_playing : s.playing 0 = true → 0 ≤ s.sweepTimer
  waveDigit_lt : s.waveDigit < 64
  frameSequencer_lt : s.frameSequencer < 512
  soundTimer : ∀ channel, 0 ≤ s.soundTimers channel ∧
    s.soundTimers channel ≤ if channel = 3 then 112 * 2 ^ 15 else 2048
  cntX : ∀ channel, s.cntX channel &&& 0xB800 = 0
  fifo_good : ∀ f, (s.fifo f).Good 32

/-- A field of a word. -/
theorem field_le {w : ℕ} (word mask : BitVec w) {lsb k : ℕ} (h : mask.toNat >>> lsb ≤ k) :
    ((word &&& mask) >>> lsb).toNat ≤ k := by
  rw [BitVec.toNat_ushiftRight, BitVec.toNat_and]
  refine le_trans ?_ h
  rw [Nat.shiftRight_eq_div_pow, Nat.shiftRight_eq_div_pow]
  exact Nat.div_le_div_right Nat.and_le_right

/-- A field of the lowest bits. -/
theorem and_le {w : ℕ} (word mask : BitVec w) : (word &&& mask).toNat ≤ mask.toNat := by
  rw [BitVec.toNat_and]
  exact Nat.and_le_right

theorem ApuInv.new : ApuInv .new where
  envelope_le _ := Nat.zero_le 15
  envTimer _ := ⟨le_rfl, Int.natCast_nonneg 7⟩
  sweepTimer := by decide
  sweepTimer_playing _ := le_rfl
  waveDigit_lt := by decide
  frameSequencer_lt := by decide
  soundTimer channel := ⟨le_rfl, by split <;> exact Int.natCast_nonneg _⟩
  cntX _ := BitVec.zero_and
  fifo_good _ := ⟨Nat.zero_lt_succ 31, Nat.zero_le 32⟩

/-- An update of a function that has a property everywhere. -/
theorem update_all {ι α : Type} [DecidableEq ι] {P : ι → α → Prop} {f : ι → α} {i : ι} {value : α}
    (h : ∀ j, P j (f j)) (hvalue : P i value) (j : ι) : P j (Function.update f i value j) := by
  by_cases hj : j = i
  · rw [hj, Function.update_self]
    exact hvalue
  · rw [Function.update_of_ne hj]
    exact h j

/-! ## Bounds of products and quotients -/

theorem abs_mul_le {a k : ℤ} {v m : ℕ} (ha : |a| ≤ k) (hv : v ≤ m) : |a * v| ≤ k * m := by
  rw [abs_mul, Nat.abs_cast]
  exact mul_le_mul ha (Int.ofNat_le.2 hv) (Int.natCast_nonneg v) ((abs_nonneg a).trans ha)

/-- A quotient that is rounded to zero. -/
theorem abs_tdiv_le {a k d : ℤ} (hd : 0 < d) (ha : |a| ≤ k * d) : |a.tdiv d| ≤ k := by
  obtain ⟨hlo, hhi⟩ := abs_le.1 ha
  rcases le_or_gt 0 a with hpos | hneg
  · rw [Int.tdiv_eq_ediv_of_nonneg hpos, abs_of_nonneg (Int.ediv_nonneg hpos hd.le)]
    exact Int.ediv_le_of_le_mul hd hhi
  · have hquot : a.tdiv d = -(-a / d) := by
      rw [← Int.tdiv_eq_ediv_of_nonneg (by omega), Int.neg_tdiv, neg_neg]
    rw [hquot, abs_neg, abs_of_nonneg (Int.ediv_nonneg (by omega) hd.le)]
    exact Int.ediv_le_of_le_mul hd (by omega)

theorem checkInt32_of_abs {n : ℕ} {x k : ℤ} (h : |x| ≤ k) (hk : k < 0x80000000) :
    Ends n (fun _ => checkInt 32 x) (· = x) := by
  obtain ⟨hlo, hhi⟩ := abs_le.1 h
  exact Ends.checkInt32 (by omega) (by omega)

namespace Apu

/-- A level at a volume. -/
theorem atVolume_ends {n : ℕ} {level : ℤ} {volume : ℕ} (hlevel : |level| ≤ 128)
    (hvolume : volume ≤ 15) : Ends n (fun _ => atVolume level volume) fun v => |v| ≤ 128 := by
  have hproduct : |level * volume| ≤ 128 * 15 := abs_mul_le hlevel hvolume
  exact (checkInt32_of_abs hproduct (by decide)).map fun _ h =>
    h ▸ abs_tdiv_le (by decide) hproduct

/-- A channel at a volume of the master register. -/
theorem scaled_ends {n : ℕ} {value : ℤ} {volume : ℕ} (hvalue : |value| ≤ 256)
    (hvolume : volume ≤ 7) : Ends n (fun _ => scaled value volume) fun v => |v| ≤ 256 := by
  have hproduct : |value * volume| ≤ 256 * 7 := abs_mul_le hvalue hvolume
  exact (checkInt32_of_abs hproduct (by decide)).map fun _ h =>
    h ▸ abs_tdiv_le (by decide) hproduct

/-! ## Periods and fields -/

/-- A field of a word. -/
theorem field_le {w : ℕ} (word mask : BitVec w) {lsb k : ℕ} (h : mask.toNat >>> lsb ≤ k) :
    ((word &&& mask) >>> lsb).toNat ≤ k := by
  rw [BitVec.toNat_ushiftRight, BitVec.toNat_and]
  refine le_trans ?_ h
  rw [Nat.shiftRight_eq_div_pow, Nat.shiftRight_eq_div_pow]
  exact Nat.div_le_div_right Nat.and_le_right

/-- A field of the lowest bits. -/
theorem low_field_le {w : ℕ} (word mask : BitVec w) : (word &&& mask).toNat ≤ mask.toNat := by
  rw [BitVec.toNat_and]
  exact Nat.and_le_right

/-- The frequency that is used is below 0x800, and so the period is positive. -/
theorem frequency_bounds (s : Apu) (channel : Fin 4) :
    0 ≤ s.frequency channel ∧ s.frequency channel < 0x800 := by
  have hle : (s.cntX channel &&& 0x07FF).toNat ≤ 0x7FF := low_field_le _ _
  rw [frequency]
  omega

theorem period_bounds (s : Apu) (channel : Fin 4) :
    0 < s.period channel ∧ s.period channel ≤ 2048 := by
  have hfrequency := s.frequency_bounds channel
  rw [period]
  omega

/-- The period of the noise is positive, and in range. -/
theorem noisePeriod_eq (s : Apu) :
    ∃ period, s.noisePeriod = some period ∧ 8 ≤ period ∧ period ≤ 112 * 2 ^ 15 := by
  have hdivisor : (s.cntX 3 &&& 0x0007).toNat ≤ 7 := low_field_le _ _
  have hshift : ((s.cntX 3 &&& 0x00F0) >>> 4).toNat ≤ 15 := field_le _ _ (by decide)
  rw [noisePeriod]
  generalize (s.cntX 3 &&& 0x0007).toNat = d at hdivisor ⊢
  generalize ((s.cntX 3 &&& 0x00F0) >>> 4).toNat = k at hshift ⊢
  have hpow : (1 : ℤ) ≤ 2 ^ k ∧ (2 : ℤ) ^ k ≤ 2 ^ 15 :=
    ⟨one_le_pow₀ (by decide), pow_le_pow_right₀ (by decide) hshift⟩
  set divisor : ℤ := if (d : ℤ) * 16 = 0 then 8 else d * 16 with hdef
  have hbounds : 8 ≤ divisor ∧ divisor ≤ 112 := by
    rw [hdef]
    split <;> omega
  have hlo : 8 * 1 ≤ divisor * 2 ^ k := mul_le_mul hbounds.1 hpow.1 (by decide) (by omega)
  have hhi : divisor * 2 ^ k ≤ 112 * 2 ^ 15 :=
    mul_le_mul hbounds.2 hpow.2 (by omega) (by decide)
  exact ⟨divisor * 2 ^ k, checkInt_eq ⟨by norm_num; omega, by norm_num at hhi ⊢; omega⟩, hlo, hhi⟩

/-! ## Writes -/

/-- The bits that no write sets. -/
theorem masked_and (old mask value : BitVec 16) {allowed : BitVec 16}
    (hallowed : allowed &&& 0xB800 = 0) (h : old &&& 0xB800 = 0) :
    masked old (mask &&& allowed) value &&& 0xB800 = 0 := by
  have hold : (old &&& ~~~(mask &&& allowed)) &&& 0xB800 = 0 := by
    rw [BitVec.and_assoc, BitVec.and_comm _ (0xB800 : BitVec 16), ← BitVec.and_assoc, h,
      BitVec.ofNat_eq_ofNat, BitVec.zero_and]
  have hvalue : (value &&& (mask &&& allowed)) &&& 0xB800 = 0 := by
    rw [BitVec.and_assoc, BitVec.and_assoc, hallowed, BitVec.ofNat_eq_ofNat, BitVec.and_zero,
      BitVec.and_zero]
  rw [masked, BitVec.and_or_distrib_right, hold, hvalue]
  rfl

theorem playing_stop_self (s : Apu) : (s.stop 0).playing 0 = false := by
  rw [playing, stop, BitVec.getLsbD_and]
  simp

theorem playing_stop {s : Apu} {channel c : Fin 4} (h : (s.stop channel).playing c = true) :
    s.playing c = true := by
  rw [playing, stop, BitVec.getLsbD_and, Bool.and_eq_true] at h
  exact h.1

section Writes

variable {s : Apu}

theorem writeCntL_inv (h : ApuInv s) (channel : Fin 4) (value : BitVec 8) :
    ApuInv (s.writeCntL channel value) := by
  rw [writeCntL]
  split
  · exact { h with }
  · exact h

theorem writeCntH_inv (h : ApuInv s) (channel : Fin 4) (mask value : BitVec 16) :
    ApuInv (s.writeCntH channel mask value) := by
  rw [writeCntH]
  split
  · exact { h with }
  · exact h

theorem startEnvelope_inv (h : ApuInv s) (slot : Fin 3) (channel : Fin 4) :
    ApuInv (s.startEnvelope slot channel) := by
  have hvolume : ((s.cntH channel &&& 0xF000) >>> 12).toNat ≤ 15 := field_le _ _ (by decide)
  have htimer : ((s.cntH channel &&& 0x0700) >>> 8).toNat ≤ 7 := field_le _ _ (by decide)
  exact { h with
    envelope_le := update_all (P := fun _ v => v ≤ 15) h.envelope_le hvolume
    envTimer := update_all (P := fun _ t => 0 ≤ t ∧ t ≤ 7) h.envTimer ⟨by omega, by omega⟩ }

theorem sweepPeriod_bounds (s : Apu) : 0 ≤ s.sweepPeriod ∧ s.sweepPeriod ≤ 7 := by
  have hle : ((s.cntL 0 &&& 0x70) >>> 4).toNat ≤ 7 := field_le _ _ (by decide)
  rw [sweepPeriod]
  omega

/-- A timer of a channel is set. -/
theorem soundTimer_inv (h : ApuInv s) (channel : Fin 4) {timer : ℤ}
    (htimer : 0 ≤ timer ∧ timer ≤ if channel = 3 then 112 * 2 ^ 15 else 2048) :
    ApuInv { s with soundTimers := Function.update s.soundTimers channel timer } :=
  { h with
    soundTimer := update_all (P := fun (c : Fin 4) (t : ℤ) =>
      0 ≤ t ∧ t ≤ if c = 3 then 112 * 2 ^ 15 else 2048) h.soundTimer htimer }

/-- A channel that starts, with the timer of its sweep. -/
theorem start_inv (h : ApuInv s) (bits : BitVec 8) {timer : ℤ} (htimer : 0 ≤ timer ∧ timer ≤ 7) :
    ApuInv { s with mainCntX := bits, sweepTimer := timer } :=
  { h with
    sweepTimer := ⟨htimer.1.trans' (by decide), htimer.2⟩
    sweepTimer_playing := fun _ => htimer.1 }

/-- A channel other than the first that starts. -/
theorem start_other_inv (h : ApuInv s) (channel : Fin 4) (hchannel : channel ≠ 0) :
    ApuInv { s with mainCntX := s.mainCntX ||| (1#8 <<< channel.1) } := by
  have hbit : ∀ c : Fin 4, c ≠ 0 → (1#8 <<< c.1).getLsbD 0 = false := by decide
  refine { h with sweepTimer_playing := fun hplaying => h.sweepTimer_playing ?_ }
  rw [playing, BitVec.getLsbD_or, Fin.val_zero, hbit channel hchannel, Bool.or_false] at hplaying
  exact hplaying

/-- **A channel that starts** has its timers and its envelope in range. -/
theorem restart_inv (h : ApuInv s) (channel : Fin 4) :
    ∃ s', restart channel s = some s' ∧ ApuInv s' := by
  have htimer : ∀ (s : Apu) (c : Fin 4), c ≠ 3 →
      0 ≤ s.period c ∧ s.period c ≤ if c = 3 then 112 * 2 ^ 15 else 2048 := fun s c hc => by
    obtain ⟨hpos, hle⟩ := s.period_bounds c
    rw [if_neg hc]
    exact ⟨hpos.le, hle⟩
  match channel with
  | 0 =>
      refine ⟨_, rfl, soundTimer_inv (startEnvelope_inv (start_inv h _ ?_) 0 0) 0
        (htimer _ 0 (by decide))⟩
      exact sweepPeriod_bounds _
  | 1 =>
      exact ⟨_, rfl, soundTimer_inv (startEnvelope_inv (start_other_inv h 1 (by decide)) 1 1) 1
        (htimer _ 1 (by decide))⟩
  | 2 =>
      have hstart := start_other_inv h 2 (by decide)
      have hdigit : ApuInv { s with
          mainCntX := s.mainCntX ||| (1#8 <<< (2 : Fin 4).1), waveDigit := 0 } :=
        { hstart with waveDigit_lt := Nat.zero_lt_succ 63 }
      exact ⟨_, rfl, soundTimer_inv hdigit 2 (htimer _ 2 (by decide))⟩
  | 3 =>
      have hstart := start_other_inv h 3 (by decide)
      have hnoise : ApuInv { s with
          mainCntX := s.mainCntX ||| (1#8 <<< (3 : Fin 4).1)
          noiseValue := if (s.cntH 3).getLsbD 3 then 0x40 else 0x4000 } := { hstart with }
      have henvelope := startEnvelope_inv hnoise 2 3
      obtain ⟨timer, hperiod, hlo, hhi⟩ := noisePeriod_eq (startEnvelope _ 2 3)
      exact ⟨_, congrArg (Option.map _) hperiod, soundTimer_inv henvelope 3 ⟨by omega, hhi⟩⟩

theorem writeCntX_inv (h : ApuInv s) (channel : Fin 4) (mask value : BitVec 16) :
    ∃ s', s.writeCntX channel mask value = some s' ∧ ApuInv s' := by
  rw [writeCntX]
  split
  · have hallowed : (if channel = 3 then 0x40FF else 0x47FF : BitVec 16) &&& 0xB800 = 0 := by
      split <;> rfl
    have hwritten : ApuInv { s with cntX := Function.update s.cntX channel (masked (s.cntX channel)
        (mask &&& if channel = 3 then 0x40FF else 0x47FF) value) } :=
      { h with
        cntX := update_all (P := fun _ bits => bits &&& 0xB800 = 0) h.cntX
          (masked_and _ _ _ hallowed (h.cntX channel)) }
    simp only []
    split
    · exact restart_inv hwritten channel
    · exact ⟨_, rfl, hwritten⟩
  · exact ⟨s, rfl, h⟩

theorem writeMainCntL_inv (h : ApuInv s) (mask value : BitVec 16) :
    ApuInv (s.writeMainCntL mask value) := by
  rw [writeMainCntL]
  split
  · exact { h with }
  · exact h

theorem writeMainCntH_inv (h : ApuInv s) (mask value : BitVec 16) :
    ApuInv (s.writeMainCntH mask value) := by
  refine { h with fifo_good := fun f => ?_ }
  by_cases hreset : value.getLsbD (if f = 0 then 11 else 15) = true
  · simp only [writeMainCntH, if_pos hreset]
    exact RingBuf.clear_good (Nat.zero_lt_succ 31) _
  · simp only [writeMainCntH, if_neg hreset]
    exact h.fifo_good f

/-- **The master switch**: a channel stays off where it was off. -/
theorem writeMainCntX_inv (h : ApuInv s) (value : BitVec 8) : ApuInv (s.writeMainCntX value) := by
  have hbit : ∀ bits : BitVec 8, ((bits &&& ~~~0x80) ||| (value &&& 0x80)).getLsbD 0
      = bits.getLsbD 0 := by
    intro bits
    rw [BitVec.getLsbD_or, BitVec.getLsbD_and, BitVec.getLsbD_and]
    simp
  rw [writeMainCntX]
  simp only []
  split
  · exact { h with
      sweepTimer_playing := fun hplaying => h.sweepTimer_playing ((hbit _).symm.trans hplaying) }
  · refine { h with sweepTimer_playing := fun hplaying => ?_, frameSequencer_lt := ?_, cntX := ?_ }
    · rw [playing, BitVec.getLsbD_and, Bool.and_eq_true] at hplaying
      exact h.sweepTimer_playing ((hbit _).symm.trans hplaying.1)
    · exact Nat.zero_lt_succ 511
    · exact fun _ => BitVec.zero_and

theorem writeFifo_inv (h : ApuInv s) (f : Fin 2) (mask value : BitVec 32) :
    ApuInv { s with fifo := Function.update s.fifo f (writeFifo mask value (s.fifo f)) } :=
  { h with
    fifo_good := update_all (P := fun _ (r : RingBuf (BitVec 8)) => r.Good 32) h.fifo_good
      (writeFifo_follows mask value (h.fifo_good f)).good }

theorem onFifoTimer_inv (h : ApuInv s) (timer : Fin 2) : ApuInv (s.onFifoTimer timer) := by
  refine List.foldlRecOn (motive := ApuInv) _ _ h fun s hs f _ => ?_
  split
  · split
    · next value fifo hpop =>
      rcases RingBuf.content_pop (hs.fifo_good f) with ⟨hnone, -⟩ | ⟨x, r, hsome, hgood, -⟩
      · exact absurd (hpop.symm.trans hnone) (Option.some_ne_none _)
      · obtain ⟨-, rfl⟩ := Prod.mk.inj (Option.some.inj (hpop.symm.trans hsome))
        exact { hs with
          fifo_good :=
            update_all (P := fun _ (r : RingBuf (BitVec 8)) => r.Good 32) hs.fifo_good hgood }
    · exact hs
  · exact hs

end Writes

/-! ## The channels of a sample -/

section Channels

variable {s : Apu} {n : ℕ}

theorem stop_inv (h : ApuInv s) (channel : Fin 4) : ApuInv (s.stop channel) :=
  { h with sweepTimer_playing := fun hplaying => h.sweepTimer_playing (playing_stop hplaying) }

/-- The length counter does not pass zero. -/
theorem lengthCounter_ends (h : ApuInv s) (channel : Fin 4) (mask : BitVec 16) :
    Ends n (fun _ => lengthCounter channel mask s) ApuInv := by
  simp only [lengthCounter]
  refine Ends.ite (fun hcount => ?_) fun _ => Ends.some h
  have hpos : (s.cntH channel &&& mask).toNat ≠ 0 := fun hzero =>
    hcount.2.2 (BitVec.eq_of_toNat_eq hzero)
  have hlt := (s.cntH channel &&& mask).isLt
  generalize (s.cntH channel &&& mask).toNat = count at hpos hlt ⊢
  refine Ends.bind (Ends.checkNat ⟨by omega, by omega⟩) fun count' _ => Ends.some ?_
  have hcounted : ApuInv { s with
      cntH := Function.update s.cntH channel
        ((s.cntH channel &&& ~~~mask) ||| BitVec.ofNat 16 count') } := { h with }
  split
  · exact stop_inv hcounted channel
  · exact hcounted

/-- The volume stays in range. -/
theorem nextVolume_ends (cntH : BitVec 16) (timer : ℤ) {volume : ℕ} (h : volume ≤ 15) :
    Ends n (fun _ => nextVolume cntH timer volume) fun v => v ≤ 15 := by
  simp only [nextVolume]
  refine Ends.ite (fun _ => Ends.ite (fun hup => ?_) fun _ => Ends.ite (fun hdown => ?_)
    fun _ => Ends.some h) fun _ => Ends.some (field_le _ _ (by decide))
  · exact (Ends.checkNat ⟨by omega, by omega⟩).imp fun v hv => by omega
  · exact (Ends.checkNat ⟨by omega, by omega⟩).imp fun v hv => by omega

/-- **The envelope** keeps its volume and its timer in range. -/
theorem envelope_ends (h : ApuInv s) (slot : Fin 3) (channel : Fin 4) :
    Ends n (fun _ => envelope slot channel s) ApuInv := by
  have htimer := h.envTimer slot
  simp only [envelope]
  refine Ends.ite (fun _ => ?_) fun _ => Ends.some h
  refine Ends.bind (Ends.checkInt32 (by omega) (by omega)) fun timer htimer' => ?_
  refine Ends.ite (fun _ => ?_) fun hpos => Ends.some { h with
    envTimer := update_all (P := fun _ t => 0 ≤ t ∧ t ≤ 7) h.envTimer ⟨by omega, by omega⟩ }
  refine Ends.bind (nextVolume_ends _ _ (h.envelope_le slot)) fun volume hvolume => Ends.some ?_
  have hreload : ((s.cntH channel &&& 0x0700) >>> 8).toNat ≤ 7 := field_le _ _ (by decide)
  rw [Function.update_idem]
  exact { h with
    envelope_le := update_all (P := fun _ v => v ≤ 15) h.envelope_le hvolume
    envTimer := update_all (P := fun _ t => 0 ≤ t ∧ t ≤ 7) h.envTimer ⟨by omega, by omega⟩ }

/-- A frequency that is swept leaves the other bits of the register. -/
theorem swept_and (old : BitVec 16) (h : old &&& 0xB800 = 0) {bits : ℕ} (hbits : bits < 0x800) :
    ((old &&& ~~~0x07FF) ||| BitVec.ofNat 16 bits) &&& 0xB800 = 0 := by
  have hold : (old &&& ~~~0x07FF) &&& 0xB800 = 0 := by
    rw [BitVec.and_assoc, BitVec.and_comm _ (0xB800 : BitVec 16), ← BitVec.and_assoc, h,
      BitVec.ofNat_eq_ofNat, BitVec.zero_and]
  have hlow : BitVec.ofNat 16 bits = BitVec.ofNat 16 bits &&& 0x07FF := by
    refine BitVec.eq_of_toNat_eq ?_
    rw [BitVec.toNat_and, BitVec.toNat_ofNat]
    exact ((Nat.and_two_pow_sub_one_eq_mod _ 11).trans (by omega)).symm
  have hnew : BitVec.ofNat 16 bits &&& 0xB800 = 0 := by
    rw [hlow, BitVec.and_assoc, show (0x07FF : BitVec 16) &&& 0xB800 = 0 from rfl,
      BitVec.ofNat_eq_ofNat, BitVec.and_zero]
  rw [BitVec.and_or_distrib_right, hold, hnew]
  rfl

/-- A timer of the sweep while it counts. -/
theorem sweepTimer_inv (h : ApuInv s) {timer : ℤ} (htimer : -1 ≤ timer ∧ timer ≤ 7)
    (hplaying : s.playing 0 = true → 0 ≤ timer) : ApuInv { s with sweepTimer := timer } :=
  { h with
    sweepTimer := htimer
    sweepTimer_playing := hplaying }

/-- A part of a frequency. -/
theorem shift_bounds {f : ℤ} (hf : 0 ≤ f) (k : ℕ) : 0 ≤ f >>> k ∧ f >>> k ≤ f := by
  rw [Int.shiftRight_eq_div_pow]
  exact ⟨Int.ediv_nonneg hf (Int.natCast_nonneg _), Int.ediv_le_self _ hf⟩

/-- **The sweep** writes a frequency below 0x800, or stops the channel. -/
theorem sweep_ends (h : ApuInv s) (hplaying : s.playing 0 = true) :
    Ends n (fun _ => sweep s) fun r => ApuInv r.1 := by
  have htimer := h.sweepTimer_playing hplaying
  have hle := h.sweepTimer.2
  obtain ⟨hfreq, hfreqLt⟩ := s.frequency_bounds 0
  obtain ⟨hpart, hpartLe⟩ := shift_bounds hfreq (s.cntL 0 &&& 0x07).toNat
  simp only [sweep]
  refine Ends.ite (fun _ => ?_) fun _ => Ends.some h
  refine Ends.bind (Ends.checkInt32 (by omega) (by omega)) fun timer htimer' => ?_
  refine Ends.ite (fun _ => ?_) fun hpos =>
    Ends.some (sweepTimer_inv h ⟨by omega, by omega⟩ fun _ => by omega)
  have hfrequency : ({ s with sweepTimer := timer } : Apu).frequency 0 = s.frequency 0 := rfl
  rw [hfrequency]
  set delta := if (s.cntL 0).getLsbD 3 then -(s.frequency 0 >>> (s.cntL 0 &&& 0x07).toNat)
    else s.frequency 0 >>> (s.cntL 0 &&& 0x07).toNat with hdelta
  have hsum : 0 ≤ s.frequency 0 + delta ∧ s.frequency 0 + delta < 0x1000 := by
    rw [hdelta]
    split <;> omega
  refine Ends.bind (Ends.checkInt32 (by omega) (by omega)) fun frequency hfrequency' => ?_
  refine Ends.ite (fun hlt => ?_) fun _ => Ends.some ?_
  · refine Ends.bind (Ends.checkNat ⟨by omega, by omega⟩) fun bits hbits => Ends.some ?_
    exact start_inv (s := { s with
      cntX := Function.update s.cntX 0 ((s.cntX 0 &&& ~~~0x07FF) ||| BitVec.ofNat 16 bits) })
      { h with
        cntX := update_all (P := fun _ bits => bits &&& 0xB800 = 0) h.cntX
          (swept_and _ (h.cntX 0) (by omega)) } s.mainCntX s.sweepPeriod_bounds
  · -- The channel that stops keeps a timer that has run out.
    exact { h with
      sweepTimer := ⟨(show -1 ≤ timer by omega), (show timer ≤ 7 by omega)⟩
      sweepTimer_playing := fun hplaying =>
        absurd ((playing_stop_self _).symm.trans hplaying) Bool.false_ne_true }

/-- The point of the duty cycle has a result. -/
theorem dutyPoint_ends (cntH : BitVec 16) {period : ℤ} (h : 0 < period ∧ period ≤ 2048) :
    Ends n (fun _ => dutyPoint cntH period) fun _ => True := by
  simp only [dutyPoint]
  refine Ends.map (Ends.checkInt32 ?_ ?_) fun _ _ => trivial
  all_goals split_ifs <;> omega

/-- **A tone that plays**: the timer catches up, and the level is in range. -/
theorem toneStep_ends (h : ApuInv s) (i : Fin 2) :
    Ends 66 (fun fuel => toneStep fuel i s) fun r => ApuInv r.1 ∧ |r.2| ≤ 128 := by
  have hchannel : ∀ i : Fin 2, ¬ (⟨i.1, by omega⟩ : Fin 4) = 3 := by decide
  have htimer := h.soundTimer ⟨i.1, by omega⟩
  rw [if_neg (hchannel i)] at htimer
  obtain ⟨hpos, hle⟩ := s.period_bounds ⟨i.1, by omega⟩
  simp only [toneStep]
  refine Ends.bind (Ends.checkInt32 (by omega) (by omega)) fun timer htimer' => ?_
  refine Ends.bind (Ends.catchUp (I := fun _ => True) hpos (by omega)
    (fun _ _ => ⟨(), rfl, trivial⟩) (by decide) (by omega) (by omega) trivial)
    fun caught hcaught => ?_
  have hcaughtLe : caught.1 ≤ 2048 := hcaught.2.1.trans (max_le (by omega) hle)
  have hset : ApuInv { s with
      soundTimers := Function.update s.soundTimers ⟨i.1, by omega⟩ caught.1 } :=
    soundTimer_inv h _ (by rw [if_neg (hchannel i)]; exact ⟨hcaught.1.le, hcaughtLe⟩)
  refine Ends.bind (dutyPoint_ends _ ⟨hpos, hle⟩) fun duty _ => ?_
  refine Ends.bind (lengthCounter_ends hset _ _) fun s₁ hs₁ => ?_
  refine Ends.bind (envelope_ends hs₁ _ _) fun s₂ hs₂ => ?_
  refine Ends.bind (atVolume_ends ?_ (hs₂.envelope_le _)) fun value hvalue =>
    Ends.some ⟨hs₂, hvalue⟩
  split <;> decide

/-- A channel that does not play is in range. -/
theorem abs_zero_le : |(0 : ℤ)| ≤ 256 := by decide

/-- **A tone** has a result in range. -/
theorem tone_ends (h : ApuInv s) (i : Fin 2) :
    Ends 66 (fun fuel => tone fuel i s) fun r => ApuInv r.1 ∧ |r.2| ≤ 256 := by
  simp only [tone]
  refine Ends.ite (fun hplaying => ?_) fun _ => Ends.some ⟨h, abs_zero_le⟩
  have hswept : Ends 66 (fun _ => if i = 0 then sweep s else some (s, true))
      fun r => ApuInv r.1 := by
    refine Ends.ite (fun hi => ?_) fun _ => Ends.some h
    subst hi
    exact sweep_ends h hplaying
  refine Ends.bind hswept fun swept hs =>
    Ends.ite (fun _ => ?_) fun _ => Ends.some ⟨hs, abs_zero_le⟩
  exact (toneStep_ends hs i).imp fun r hr => ⟨hr.1, hr.2.trans (by decide)⟩

/-- A digit of the wave is in its bank. -/
theorem waveDigitAt_ends (s : Apu) {bank : ℕ} (hbank : bank < 2) (digit : ℕ) :
    Ends n (fun _ => waveDigitAt s bank digit) fun d => 0 ≤ d ∧ d ≤ 15 := by
  have hindex : digit % 32 / 2 < 16 := by omega
  simp only [waveDigitAt, dif_pos hbank, dif_pos hindex]
  have hlow := low_field_le (s.waveRam ⟨bank, hbank⟩ ⟨digit % 32 / 2, hindex⟩) 0x0F
  have hhigh : (s.waveRam ⟨bank, hbank⟩ ⟨digit % 32 / 2, hindex⟩ >>> 4).toNat ≤ 15 := by
    have hlt := (s.waveRam ⟨bank, hbank⟩ ⟨digit % 32 / 2, hindex⟩).isLt
    rw [BitVec.toNat_ushiftRight, Nat.shiftRight_eq_div_pow]
    omega
  refine Ends.some ?_
  split
  · exact ⟨Int.natCast_nonneg _, Int.ofNat_le.2 hlow⟩
  · exact ⟨Int.natCast_nonneg _, Int.ofNat_le.2 hhigh⟩

/-- The level of the wave is no more than its digit. -/
theorem waveLevel_ends (cntH : BitVec 16) {digit : ℤ} (h : 0 ≤ digit ∧ digit ≤ 15) :
    Ends n (fun _ => waveLevel cntH digit) fun level => 0 ≤ level ∧ level ≤ 15 := by
  have hshift : ∀ k : ℕ, 0 ≤ digit >>> k ∧ digit >>> k ≤ 15 := fun k =>
    ⟨(shift_bounds h.1 k).1, (shift_bounds h.1 k).2.trans h.2⟩
  simp only [waveLevel]
  refine Ends.ite (fun _ => Ends.some (hshift 4)) fun _ => Ends.ite (fun _ => Ends.some h) fun _ =>
    Ends.ite (fun _ => Ends.some (hshift 1)) fun _ => Ends.ite (fun _ => Ends.some (hshift 2))
      fun _ => ?_
  refine Ends.map (Ends.checkInt32 (by omega) (by omega)) fun product hproduct => ?_
  rw [hproduct, Int.tdiv_eq_ediv_of_nonneg (by omega)]
  omega

/-- **The wave** has a result in range, and its digit stays in the bank. -/
theorem wave_ends (h : ApuInv s) :
    Ends 66 (fun fuel => wave fuel s) fun r => ApuInv r.1 ∧ |r.2| ≤ 256 := by
  have htimer := h.soundTimer 2
  rw [if_neg (by decide)] at htimer
  obtain ⟨hpos, hle⟩ := s.period_bounds 2
  simp only [wave]
  refine Ends.ite (fun _ => ?_) fun _ => Ends.some ⟨h, abs_zero_le⟩
  refine Ends.bind (Ends.checkInt32 (by omega) (by omega)) fun timer htimer' => ?_
  refine Ends.bind (Ends.catchUp (I := fun digit => digit < 64) hpos (by omega)
    (fun digit hdigit => ?_) (by decide) (by omega) (by omega) h.waveDigit_lt)
    fun caught hcaught => ?_
  · refine ⟨(digit + 1) % 64, ?_, Nat.mod_lt _ (by decide)⟩
    rw [checkNat_eq ⟨by omega, by omega⟩]
    rfl
  · have hcaughtLe : caught.1 ≤ 2048 := hcaught.2.1.trans (max_le (by omega) hle)
    have hset : ApuInv { s with
        soundTimers := Function.update s.soundTimers 2 caught.1, waveDigit := caught.2 } :=
      { soundTimer_inv h 2 ⟨hcaught.1.le, hcaughtLe⟩ with waveDigit_lt := hcaught.2.2 }
    have hbank : ∀ b : Fin 2, b.1 ^^^ 1 < 2 ∧ b.1 < 2 := by decide
    refine Ends.bind (waveDigitAt_ends _ ?_ _) fun digit hdigit => ?_
    · split
      · exact (hbank _).1
      · exact (hbank _).2
    refine Ends.bind (lengthCounter_ends hset _ _) fun s₁ hs₁ => ?_
    refine Ends.bind (waveLevel_ends _ hdigit) fun level hlevel => ?_
    refine Ends.bind (Ends.checkInt32 (by omega) (by omega)) fun value hvalue =>
      Ends.some ⟨hs₁, abs_tdiv_le (by decide) ?_⟩
    rw [hvalue, abs_le]
    omega

/-- **The noise** has a result in range. -/
theorem noise_ends (h : ApuInv s) :
    Ends 66 (fun fuel => noise fuel s) fun r => ApuInv r.1 ∧ |r.2| ≤ 256 := by
  have htimer := h.soundTimer 3
  rw [if_pos rfl] at htimer
  obtain ⟨period, hperiod, hlo, hhi⟩ := s.noisePeriod_eq
  simp only [noise]
  refine Ends.ite (fun _ => ?_) fun _ => Ends.some ⟨h, abs_zero_le⟩
  refine Ends.bind (Ends.checkInt32 (by omega) (by omega)) fun timer htimer' => ?_
  rw [hperiod]
  refine Ends.bind (Ends.some (Q := (· = period)) rfl) fun period hperiod' => ?_
  refine Ends.bind (Ends.catchUp (I := fun _ => True) (by omega) (by omega)
    (fun _ _ => ⟨_, rfl, trivial⟩) (by decide) (by omega) (by omega) trivial)
    fun caught hcaught => ?_
  have hcaughtLe : caught.1 ≤ 112 * 2 ^ 15 := hcaught.2.1.trans (max_le (by omega) (by omega))
  have hset : ApuInv { s with
      soundTimers := Function.update s.soundTimers 3 caught.1, noiseValue := caught.2 } :=
    { soundTimer_inv h 3 ⟨hcaught.1.le, hcaughtLe⟩ with }
  refine Ends.bind (lengthCounter_ends hset _ _) fun s₁ hs₁ => ?_
  refine Ends.bind (envelope_ends hs₁ _ _) fun s₂ hs₂ => ?_
  refine Ends.bind (atVolume_ends ?_ (hs₂.envelope_le _)) fun value hvalue =>
    Ends.some ⟨hs₂, hvalue.trans (by decide)⟩
  split <;> decide

end Channels

/-! ## The mix -/

section Mix

variable {s : Apu} {n : ℕ}

/-- A part that is added to a side. -/
theorem addTo_ends {sum b d : ℤ} {enabled : Bool} {value : ℕ → Option ℤ} (hsum : |sum| ≤ b)
    (hvalue : Ends n value fun v => |v| ≤ d) (hd : 0 ≤ d) (hb : b + d < 0x80000000) :
    Ends n (fun fuel => addTo sum enabled (value fuel)) fun sum' => |sum'| ≤ b + d := by
  simp only [addTo]
  refine Ends.ite (fun _ => ?_) fun _ => Ends.some (hsum.trans (by omega))
  refine Ends.bind hvalue fun v hv => ?_
  have hadd : |sum + v| ≤ b + d := (abs_add_le sum v).trans (add_le_add hsum hv)
  exact (checkInt32_of_abs hadd hb).imp fun _ h => h ▸ hadd

/-- A PSG channel adds no more than 256 to a side. -/
theorem mixPsg_ends {mix : ℤ × ℤ} {channel : Fin 4 × ℤ} {b : ℤ} (hmix : |mix.1| ≤ b ∧ |mix.2| ≤ b)
    (hchannel : |channel.2| ≤ 256) (hb : b ≤ 0x10000) :
    Ends n (fun _ => mixPsg s mix channel) fun mix' => |mix'.1| ≤ b + 256 ∧ |mix'.2| ≤ b + 256 := by
  have hshift : ∀ k : ℕ, |channel.2 >>> k| ≤ 256 := by
    intro k
    obtain ⟨hlo, hhi⟩ := abs_le.1 hchannel
    have hpow : (1 : ℤ) ≤ (2 ^ k : ℕ) := Int.ofNat_le.2 Nat.one_le_two_pow
    rw [Int.shiftRight_eq_div_pow, abs_le]
    exact ⟨Int.le_ediv_of_mul_le (by omega) (by nlinarith),
      Int.ediv_le_of_le_mul (by omega) (by nlinarith)⟩
  have hleft : ((s.mainCntL &&& 0x0070) >>> 4).toNat ≤ 7 := field_le _ _ (by decide)
  have hright : (s.mainCntL &&& 0x0007).toNat ≤ 7 := low_field_le _ _
  simp only [mixPsg]
  refine Ends.bind (addTo_ends hmix.1 (scaled_ends (hshift _) hleft) (by decide) (by omega))
    fun left hl => ?_
  refine Ends.bind (addTo_ends hmix.2 (scaled_ends (hshift _) hright) (by decide) (by omega))
    fun right hr => Ends.some ⟨hl, hr⟩

/-- A fifo adds no more than 512 to a side. -/
theorem mixFifo_ends {mix : ℤ × ℤ} {f : Fin 2} {b : ℤ} (hmix : |mix.1| ≤ b ∧ |mix.2| ≤ b)
    (hb : b ≤ 0x10000) :
    Ends n (fun _ => mixFifo s mix f) fun mix' => |mix'.1| ≤ b + 512 ∧ |mix'.2| ≤ b + 512 := by
  have hsample : |(s.sampleAb f).toInt * 2 ^ (if s.mainCntH.getLsbD (2 + f.1) then 2 else 1)|
      ≤ 512 := by
    have hlo := BitVec.le_toInt (s.sampleAb f)
    have hhi := BitVec.toInt_lt (x := s.sampleAb f)
    rw [abs_le]
    split <;> omega
  have hvalue := (checkInt32_of_abs (n := n) hsample (by decide)).imp fun _ h => h ▸ hsample
  simp only [mixFifo]
  refine Ends.bind (addTo_ends hmix.1 hvalue (by decide) (by omega)) fun left hl => ?_
  refine Ends.bind (addTo_ends hmix.2 hvalue (by decide) (by omega)) fun right hr =>
    Ends.some ⟨hl, hr⟩

/-- **A side of the sample** fits 16 bits. -/
theorem dacLevel_ends {sum : ℤ} (hsum : |sum| ≤ 0x10000) :
    Ends n (fun _ => dacLevel s sum) fun level => -0x8000 ≤ level ∧ level < 0x8000 := by
  have hbias : (s.soundBias &&& 0x3FF).toNat ≤ 0x3FF := low_field_le _ _
  obtain ⟨hlo, hhi⟩ := abs_le.1 hsum
  simp only [dacLevel]
  refine Ends.bind (Ends.checkInt32 (by omega) (by omega)) fun biased _ => ?_
  refine Ends.bind (Ends.checkInt32 (by omega) (by omega)) fun level hlevel => ?_
  have hrange : -0x8000 ≤ level ∧ level < 0x8000 := by omega
  exact ⟨level, fun _ _ => checkInt_eq hrange, hrange⟩

/-- **The mix** of the channels is in range. -/
theorem mixChannels_ends (h : ApuInv s) :
    Ends 66 (fun fuel => mixChannels fuel s)
      fun r => ApuInv r.1 ∧ |r.2.1| ≤ 0x10000 ∧ |r.2.2| ≤ 0x10000 := by
  simp only [mixChannels]
  refine Ends.bind (tone_ends h 0) fun tone0 h0 => ?_
  refine Ends.bind (tone_ends h0.1 1) fun tone1 h1 => ?_
  refine Ends.bind (wave_ends h1.1) fun wave h2 => ?_
  refine Ends.bind (noise_ends h2.1) fun noise h3 => ?_
  have hpsg : Ends 66 (fun _ => [((0 : Fin 4), tone0.2), (1, tone1.2), (2, wave.2),
      (3, noise.2)].foldlM (mixPsg noise.1) (0, 0)) fun mix => |mix.1| ≤ 1024 ∧ |mix.2| ≤ 1024 := by
    simp only [List.foldlM_cons, List.foldlM_nil]
    refine Ends.bind (mixPsg_ends (b := 0) ⟨by decide, by decide⟩ h0.2 (by decide)) fun m0 hm0 => ?_
    refine Ends.bind (mixPsg_ends hm0 h1.2 (by decide)) fun m1 hm1 => ?_
    refine Ends.bind (mixPsg_ends hm1 h2.2 (by decide)) fun m2 hm2 => ?_
    exact Ends.bind (mixPsg_ends hm2 h3.2 (by decide)) fun m3 hm3 => Ends.pure hm3
  refine Ends.bind hpsg fun mix hmix => ?_
  have hfifo : Ends 66 (fun _ => (List.finRange 2).foldlM (mixFifo noise.1) mix)
      fun mix => |mix.1| ≤ 2048 ∧ |mix.2| ≤ 2048 := by
    refine Ends.bind (mixFifo_ends hmix (by decide)) fun m0 hm0 => ?_
    exact Ends.bind (mixFifo_ends hm0 (by decide)) fun m1 hm1 => Ends.pure hm1
  refine Ends.bind hfifo fun mix hmix => ?_
  have hphase := h3.1.frameSequencer_lt
  refine Ends.bind (Ends.checkNat ⟨by omega, by omega⟩) fun phase _ => Ends.some
    ⟨{ h3.1 with frameSequencer_lt := Nat.mod_lt _ (by decide) }, hmix.1.trans (by decide),
      hmix.2.trans (by decide)⟩

/-- **A sample** has a result for every fuel that is enough. -/
theorem runSample_ends (h : ApuInv s) :
    Ends 66 (fun fuel => runSample fuel s) fun r => ApuInv r.1 ∧
      (-0x8000 ≤ r.2.1 ∧ r.2.1 < 0x8000) ∧ (-0x8000 ≤ r.2.2 ∧ r.2.2 < 0x8000) := by
  simp only [runSample]
  have hmixed : Ends 66 (fun fuel => if s.masterEnabled then mixChannels fuel s else some (s, 0, 0))
      fun r => ApuInv r.1 ∧ |r.2.1| ≤ 0x10000 ∧ |r.2.2| ≤ 0x10000 :=
    Ends.ite (fun _ => mixChannels_ends h) fun _ =>
      Ends.some ⟨h, abs_zero_le.trans (by decide), abs_zero_le.trans (by decide)⟩
  refine Ends.bind hmixed fun mixed hm => ?_
  refine Ends.bind (dacLevel_ends hm.2.1) fun left hl => ?_
  exact Ends.bind (dacLevel_ends hm.2.2) fun right hr => Ends.some ⟨hm.1, hl, hr⟩

end Mix

end Apu

/-! ## Runs -/

/-- The invariant of a run: of the state, and of the samples that are sent. -/
def ApuRunInv (run : Apu × List (ℤ × ℤ)) : Prop :=
  ApuInv run.1 ∧ ∀ sample ∈ run.2,
    (-0x8000 ≤ sample.1 ∧ sample.1 < 0x8000) ∧ (-0x8000 ≤ sample.2 ∧ sample.2 < 0x8000)

/-- **A step** of a run. -/
theorem apuStep_ends {run : Apu × List (ℤ × ℤ)} (h : ApuRunInv run) (op : ApuOp) :
    Ends 66 (fun fuel => apuStep fuel run op) ApuRunInv := by
  obtain ⟨hinv, hsamples⟩ := h
  cases op with
  | writeCntL channel value => exact Ends.some ⟨Apu.writeCntL_inv hinv channel value, hsamples⟩
  | writeCntH channel mask value =>
      exact Ends.some ⟨Apu.writeCntH_inv hinv channel mask value, hsamples⟩
  | writeCntX channel mask value =>
      obtain ⟨s', hs', hinv'⟩ := Apu.writeCntX_inv hinv channel mask value
      exact ⟨(s', run.2), fun _ _ => congrArg (Option.map _) hs', hinv', hsamples⟩
  | writeMainCntL mask value => exact Ends.some ⟨Apu.writeMainCntL_inv hinv mask value, hsamples⟩
  | writeMainCntH mask value => exact Ends.some ⟨Apu.writeMainCntH_inv hinv mask value, hsamples⟩
  | writeMainCntX value => exact Ends.some ⟨Apu.writeMainCntX_inv hinv value, hsamples⟩
  | writeSoundBias mask value => exact Ends.some ⟨{ hinv with }, hsamples⟩
  | writeWaveRam index value => exact Ends.some ⟨{ hinv with }, hsamples⟩
  | writeFifo f mask value => exact Ends.some ⟨Apu.writeFifo_inv hinv f mask value, hsamples⟩
  | fifoTimer timer => exact Ends.some ⟨Apu.onFifoTimer_inv hinv timer, hsamples⟩
  | sample =>
      refine Ends.map (Apu.runSample_ends hinv) fun r hr => ⟨hr.1, fun sample hsample => ?_⟩
      rcases List.mem_append.1 hsample with hsample | hsample
      · exact hsamples sample hsample
      · rw [List.mem_singleton.1 hsample]
        exact hr.2

/-- **The channels of the sound** stay in range over every run of register writes, fifo timers and
samples: a fuel of 66 is enough for every loop, no check of a sum, a product or a shift fails, and
each side of each sample fits 16 bits. -/
theorem apu_channel_law (ops : List ApuOp) :
    ∃ s samples, (∀ fuel, 66 ≤ fuel → apuRun fuel ops = some (s, samples)) ∧ ApuInv s ∧
      (∀ channel, s.frequency channel < 0x800 ∧ 0 < s.period channel) ∧
      ∀ sample ∈ samples,
        (-0x8000 ≤ sample.1 ∧ sample.1 < 0x8000) ∧ (-0x8000 ≤ sample.2 ∧ sample.2 < 0x8000) := by
  have hnew : ApuRunInv (.new, []) := ⟨ApuInv.new, fun _ h => absurd h List.not_mem_nil⟩
  obtain ⟨⟨s, samples⟩, hrun, hinv, hsamples⟩ :=
    Ends.foldlM (f := fun run fuel op => apuStep fuel run op) (n := 66)
      (fun run op hrun => apuStep_ends hrun op) ops hnew
  exact ⟨s, samples, hrun, hinv, fun channel =>
    ⟨(s.frequency_bounds channel).2, (s.period_bounds channel).1⟩, hsamples⟩

end AdvancedSlop
