/-
# The clock chip

`src/core/rtc.rs`: commands and registers go over three pins, a bit for each rising edge of the
serial clock.  A step has no result where the code panics: an index beyond the bytes of the date
and time, or a shift by eight places or more.

* `Rtc`, `updateRtc`, `rtcStep` : the chip, one sample of its pins, one write to its port;
* `Overruns` : an edge that reads past the last register byte;
* `rtc_safety_law` : a run is safe exactly when no edge overruns, and chip select resets it;
* `longTimeRead_panics` : a time read that is clocked on.
-/
import AdvancedSlop.TransitionSystem
import Mathlib.Tactic

namespace AdvancedSlop

open TransitionSystem

/-! ## The chip -/

/-- `Rtc`. -/
structure Rtc where
  cs : BitVec 8
  sck : BitVec 8
  sio : BitVec 8
  writeCount : BitVec 8
  command : BitVec 8
  control : BitVec 8
  dateTime : Fin 7 → BitVec 8
  gpDirection : BitVec 16
  gpControl : BitVec 16

/-- `Rtc::new`. -/
def Rtc.new : Rtc := ⟨0, 0, 0, 0, 0, 0, fun _ => 0, 0, 0⟩

/-- The host's local time. -/
structure LocalTime where
  year : Int
  month : Nat
  day : Nat
  weekday : Nat
  hour : Nat
  minute : Nat
  second : Nat

/-- A shift of a byte, by less than its width. -/
def shiftByte (shift : BitVec 8 → Nat → BitVec 8) (value : BitVec 8) (count : Nat) :
    Option (BitVec 8) :=
  if count < 8 then some (shift value count) else none

/-- The two digits of a number, four bits each. -/
def bcd (v : BitVec 8) : BitVec 8 := ((v / 10) <<< 4) ||| (v % 10)

/-- `update_date_time`; a frozen clock has no time. -/
def updateDateTime (now : Option LocalTime) (rtc : Rtc) : Rtc :=
  match now with
  | none => { rtc with dateTime := ![0x26, 0x07, 0x23, 0x04, 0x12, 0x00, 0x00] }
  | some now =>
      let hour := BitVec.ofNat 8 now.hour
      let pm := 12 ≤ hour.toNat
      -- twelve hours unless the control bit asks for all of them
      let shown := if rtc.control &&& (1 <<< 6) = 0 then hour % 12 else hour
      let hours := if pm then bcd shown ||| (1 <<< 6) else bcd shown
      { rtc with
        dateTime := ![bcd (BitVec.ofInt 8 (now.year.tmod 100)), bcd (BitVec.ofNat 8 now.month),
          bcd (BitVec.ofNat 8 now.day), bcd (BitVec.ofNat 8 now.weekday), hours,
          bcd (BitVec.ofNat 8 now.minute), bcd (BitVec.ofNat 8 now.second)] }

/-- `date_time[write_count / 8 + first - 1] >> (write_count % 8) & 1`. -/
def dateTimeBit (first : Nat) (rtc : Rtc) : Option (BitVec 8) :=
  let index := rtc.writeCount.toNat / 8 + first
  if h : 0 < index ∧ index - 1 < 7 then
    (shiftByte (· >>> ·) (rtc.dateTime ⟨index - 1, h.2⟩) (rtc.writeCount.toNat % 8)).map (· &&& 1)
  else none

/-- `read_register`, with the chip it leaves. -/
def readRegister (now : Option LocalTime) (index : BitVec 8) (rtc : Rtc) :
    Option (BitVec 8 × Rtc) :=
  let latched := if rtc.writeCount = 8 then updateDateTime now rtc else rtc
  if index = 0 then some (0, { rtc with control := 0 })
  else if index = 1 then
    (shiftByte (· >>> ·) rtc.control (rtc.writeCount &&& 7).toNat).map fun bits => (bits &&& 1, rtc)
  else if index = 2 then (dateTimeBit 0 latched).map fun bit => (bit, latched)
  else if index = 3 then (dateTimeBit 4 latched).map fun bit => (bit, latched)
  else some (0, rtc)

/-- `write_register`. -/
def writeRegister (index value : BitVec 8) (rtc : Rtc) : Option Rtc :=
  if index = 1 then do
    let place ← shiftByte (· <<< ·) 1 (rtc.writeCount &&& 7).toNat
    if place &&& 0x6A ≠ 0 then
      let bit ← shiftByte (· <<< ·) value (rtc.writeCount &&& 7).toNat
      some { rtc with control := (rtc.control &&& ~~~place) ||| bit }
    else some rtc
  else some rtc

/-- A rising edge of the clock, with the data line it leaves. -/
def clockEdge (now : Option LocalTime) (sio : BitVec 8) (rtc : Rtc) : Option (BitVec 8 × Rtc) :=
  if rtc.writeCount.toNat < 8 then
    (shiftByte (· <<< ·) sio (7 - rtc.writeCount.toNat)).map fun bit =>
      let command := rtc.command ||| bit
      let command :=
        if rtc.writeCount = 7 ∧ command &&& 0xF0 ≠ 0x60 then command.reverse else command
      (sio, { rtc with command := command })
  else if rtc.command &&& 1 ≠ 0 then readRegister now ((rtc.command >>> 1) &&& 7) rtc
  else (writeRegister ((rtc.command >>> 1) &&& 7) sio rtc).map fun rtc => (sio, rtc)

/-- `update_rtc`. -/
def updateRtc (now : Option LocalTime) (cs sck sio : BitVec 8) (rtc : Rtc) : Option Rtc :=
  if cs ≠ 0 then
    if rtc.sck = 0 ∧ sck ≠ 0 then
      (clockEdge now sio rtc).map fun r =>
        { r.2 with writeCount := r.2.writeCount + 1, cs := cs, sck := sck, sio := r.1 }
    else some { rtc with cs := cs, sck := sck, sio := sio }
  else some { rtc with writeCount := 0, command := 0, cs := cs, sck := sck, sio := sio }

/-- A pin: the written bit where the port drives it, else what it was. -/
def pin (rtc : Rtc) (bit : Nat) (old : BitVec 8) (value : BitVec 16) : BitVec 8 :=
  if rtc.gpDirection &&& (1 <<< bit) ≠ 0 then ((value >>> bit) &&& 1).setWidth 8 else old

/-- `write_gp_data`. -/
def writeGpData (now : Option LocalTime) (mask value : BitVec 16) (rtc : Rtc) : Option Rtc :=
  if mask &&& 0xFF ≠ 0 then
    updateRtc now (pin rtc 2 rtc.cs value) (pin rtc 0 rtc.sck value) (pin rtc 1 rtc.sio value) rtc
  else some rtc

/-- `read_gp_data`: the pins that are inputs. -/
def readGpData (rtc : Rtc) : BitVec 16 :=
  let input (bit : Nat) (old : BitVec 8) : BitVec 16 :=
    if rtc.gpDirection &&& (1 <<< bit) ≠ 0 then 0 else old.setWidth 16
  (input 2 rtc.cs <<< 2) ||| (input 1 rtc.sio <<< 1) ||| input 0 rtc.sck

/-- `write_gp_direction`. -/
def writeGpDirection (mask value : BitVec 16) (rtc : Rtc) : Rtc :=
  { rtc with gpDirection := (rtc.gpDirection &&& ~~~(mask &&& 0xF)) ||| (value &&& (mask &&& 0xF)) }

/-- `write_gp_control`. -/
def writeGpControl (mask value : BitVec 16) (rtc : Rtc) : Rtc :=
  { rtc with gpControl := (rtc.gpControl &&& ~~~(mask &&& 1)) ||| (value &&& (mask &&& 1)) }

/-- A write to the port; the host's time when it is made. -/
inductive RtcOp
  | data (now : Option LocalTime) (mask value : BitVec 16)
  | direction (mask value : BitVec 16)
  | control (mask value : BitVec 16)

/-- One write. -/
def rtcStep (rtc : Rtc) : RtcOp → Option Rtc
  | .data now mask value => writeGpData now mask value rtc
  | .direction mask value => some (writeGpDirection mask value rtc)
  | .control mask value => some (writeGpControl mask value rtc)

/-! ## Edges past the registers -/

/-- The register a command names. -/
def commandRegister (rtc : Rtc) : BitVec 8 := (rtc.command >>> 1) &&& 7

/-- A write that clocks a read past the last byte of the date and time, from its start or from the
hour on. -/
def Overruns (rtc : Rtc) : RtcOp → Prop
  | .data _ mask value =>
      mask &&& 0xFF ≠ 0 ∧ pin rtc 2 rtc.cs value ≠ 0 ∧ rtc.sck = 0 ∧ pin rtc 0 rtc.sck value ≠ 0 ∧
        rtc.command &&& 1 ≠ 0 ∧
        ((commandRegister rtc = 2 ∧ 64 ≤ rtc.writeCount.toNat) ∨
          (commandRegister rtc = 3 ∧ 32 ≤ rtc.writeCount.toNat))
  | _ => False

section Steps

variable {now : Option LocalTime} {rtc : Rtc}

theorem shiftByte_of_lt (shift : BitVec 8 → Nat → BitVec 8) (value : BitVec 8) {count : Nat}
    (h : count < 8) : shiftByte shift value count = some (shift value count) := if_pos h

/-- The place of a bit in its byte. -/
theorem bitPlace_lt (count : BitVec 8) : (count &&& 7).toNat < 8 := by
  rw [BitVec.toNat_and]
  exact Nat.and_lt_two_pow _ (by decide : (7#8).toNat < 2 ^ 3)

/-- The date and time have seven bytes. -/
theorem dateTimeBit_eq_none_iff {first : Nat} :
    dateTimeBit first rtc = none ↔
      rtc.writeCount.toNat / 8 + first = 0 ∨ 8 ≤ rtc.writeCount.toNat / 8 + first := by
  unfold dateTimeBit
  simp only
  split_ifs with hindex
  · rw [shiftByte_of_lt _ _ (Nat.mod_lt _ (by decide)), Option.map_some]
    constructor
    · intro hnone
      exact absurd hnone (Option.some_ne_none _)
    · intro hout
      omega
  · constructor
    · intro _
      omega
    · intro _
      rfl

@[simp] theorem updateDateTime_writeCount :
    (updateDateTime now rtc).writeCount = rtc.writeCount := by
  unfold updateDateTime
  cases now <;> rfl

/-- A read runs past the registers when the counter does. -/
theorem readRegister_eq_none_iff {index : BitVec 8} (hcount : 8 ≤ rtc.writeCount.toNat) :
    readRegister now index rtc = none ↔
      (index = 2 ∧ 64 ≤ rtc.writeCount.toNat) ∨ (index = 3 ∧ 32 ≤ rtc.writeCount.toNat) := by
  set latched := if rtc.writeCount = 8 then updateDateTime now rtc else rtc with hlatched
  have hsame : latched.writeCount = rtc.writeCount := by
    rw [hlatched]
    split_ifs
    · exact updateDateTime_writeCount
    · rfl
  unfold readRegister
  simp only [← hlatched]
  split_ifs with h0 h1 h2 h3
  · subst h0
    simp
  · subst h1
    rw [shiftByte_of_lt _ _ (bitPlace_lt _)]
    simp
  · subst h2
    rw [Option.map_eq_none_iff, dateTimeBit_eq_none_iff, hsame]
    simp
    omega
  · subst h3
    rw [Option.map_eq_none_iff, dateTimeBit_eq_none_iff, hsame]
    simp
    omega
  · constructor
    · intro hnone
      cases hnone
    · rintro (⟨hindex, -⟩ | ⟨hindex, -⟩)
      · exact absurd hindex h2
      · exact absurd hindex h3

/-- Register writes stay inside. -/
theorem writeRegister_ne_none (index value : BitVec 8) : writeRegister index value rtc ≠ none := by
  unfold writeRegister
  simp only [shiftByte_of_lt _ _ (bitPlace_lt _), Option.bind_eq_bind, Option.bind_some]
  split_ifs <;> exact Option.some_ne_none _

/-- **An edge** panics when it overruns. -/
theorem clockEdge_eq_none_iff {sio : BitVec 8} :
    clockEdge now sio rtc = none ↔
      rtc.command &&& 1 ≠ 0 ∧
        ((commandRegister rtc = 2 ∧ 64 ≤ rtc.writeCount.toNat) ∨
          (commandRegister rtc = 3 ∧ 32 ≤ rtc.writeCount.toNat)) := by
  unfold clockEdge
  split_ifs with hcommand hread
  · -- the command is not complete
    rw [shiftByte_of_lt _ _ (by omega)]
    constructor
    · intro hnone
      exact absurd hnone (Option.some_ne_none _)
    · rintro ⟨-, ⟨-, hcount⟩ | ⟨-, hcount⟩⟩ <;> omega
  · rw [readRegister_eq_none_iff (Nat.le_of_not_lt hcommand)]
    exact (and_iff_right hread).symm
  · rw [Option.map_eq_none_iff]
    constructor
    · intro hnone
      exact absurd hnone (writeRegister_ne_none _ _)
    · intro hout
      exact absurd hout.1 hread

/-- **A write** panics when its edge overruns. -/
theorem rtcStep_eq_none_iff {op : RtcOp} : rtcStep rtc op = none ↔ Overruns rtc op := by
  cases op with
  | data now mask value =>
      show writeGpData now mask value rtc = none ↔ Overruns rtc (.data now mask value)
      unfold writeGpData updateRtc Overruns
      split_ifs with hmask hcs hedge
      · rw [Option.map_eq_none_iff, clockEdge_eq_none_iff]
        constructor
        · intro hread
          exact ⟨hmask, hcs, hedge.1, hedge.2, hread⟩
        · rintro ⟨-, -, -, -, hread⟩
          exact hread
      · constructor
        · intro hnone
          cases hnone
        · rintro ⟨-, -, hlow, hhigh, -⟩
          exact absurd ⟨hlow, hhigh⟩ hedge
      · constructor
        · intro hnone
          cases hnone
        · rintro ⟨-, hselect, -⟩
          exact absurd hselect hcs
      · constructor
        · intro hnone
          cases hnone
        · rintro ⟨hwritten, -⟩
          exact absurd hwritten hmask
  | direction mask value => simp [rtcStep, Overruns]
  | control mask value => simp [rtcStep, Overruns]

end Steps

/-! ## Runs -/

/-- A run none of whose edges overruns. -/
def StaysWithin (rtc : Rtc) (ops : List RtcOp) : Prop :=
  ∀ before op after t, ops = before ++ op :: after → before.foldlM rtcStep rtc = some t →
    ¬ Overruns t op

/-- The state at the start of a command. -/
def AtCommandStart (rtc : Rtc) : Prop := rtc.writeCount = 0 ∧ rtc.command = 0

/-- A chip that is not selected is at the start of a command. -/
def Deselected (rtc : Rtc) : Prop := rtc.cs = 0 → AtCommandStart rtc

/-- **Dropping chip select** resets the chip. -/
theorem writeGpData_deselects {now : Option LocalTime} {mask value : BitVec 16} {rtc t : Rtc}
    (hmask : mask &&& 0xFF ≠ 0) (hcs : pin rtc 2 rtc.cs value = 0)
    (hstep : rtcStep rtc (.data now mask value) = some t) : t.cs = 0 ∧ AtCommandStart t := by
  rw [rtcStep, writeGpData, if_pos hmask, updateRtc, if_neg (not_not.mpr hcs)] at hstep
  obtain rfl := Option.some.inj hstep
  exact ⟨hcs, rfl, rfl⟩

/-- Every write keeps that. -/
theorem Deselected.step {rtc t : Rtc} (h : Deselected rtc) {op : RtcOp}
    (hstep : rtcStep rtc op = some t) : Deselected t := by
  cases op with
  | data now mask value =>
      by_cases hmask : mask &&& 0xFF ≠ 0
      · by_cases hcs : pin rtc 2 rtc.cs value = 0
        · intro _
          exact (writeGpData_deselects hmask hcs hstep).2
        · -- the chip is selected
          rw [rtcStep, writeGpData, if_pos hmask, updateRtc, if_pos hcs] at hstep
          split_ifs at hstep
          · obtain ⟨r, -, rfl⟩ := Option.map_eq_some_iff.mp hstep
            intro hlow
            exact absurd hlow hcs
          · obtain rfl := Option.some.inj hstep
            intro hlow
            exact absurd hlow hcs
      · rw [rtcStep, writeGpData, if_neg hmask] at hstep
        obtain rfl := Option.some.inj hstep
        exact h
  | direction mask value =>
      obtain rfl := Option.some.inj hstep
      exact h
  | control mask value =>
      obtain rfl := Option.some.inj hstep
      exact h

/-- **A run** goes through when its edges stay within the registers. -/
theorem foldlM_rtcStep_iff (rtc : Rtc) (ops : List RtcOp) :
    (∃ t, ops.foldlM rtcStep rtc = some t) ↔ StaysWithin rtc ops := by
  rw [foldlM_eq_some_iff]
  unfold StaysWithin
  simp only [ne_eq, rtcStep_eq_none_iff]

theorem deselected_of_run {ops : List RtcOp} {t : Rtc} (h : ops.foldlM rtcStep .new = some t) :
    Deselected t := by
  obtain ⟨run, htrace, -⟩ := Trace.of_foldlM h
  have hnew : Deselected .new := fun _ => ⟨rfl, rfl⟩
  exact (htrace.invariant (fun _ _ _ hs hstep => hs.step hstep) hnew).1

/-- **Safety of the clock's port.**  From every state, a run of writes goes through exactly when no
edge of it overruns; dropping chip select resets the chip, and from reset on, a chip that is not
selected is at the start of a command. -/
theorem rtc_safety_law (ops : List RtcOp) :
    (∀ rtc, (∃ t, ops.foldlM rtcStep rtc = some t) ↔ StaysWithin rtc ops) ∧
      (∀ rtc now mask value t, mask &&& 0xFF ≠ 0 → pin rtc 2 rtc.cs value = 0 →
        rtcStep rtc (.data now mask value) = some t → t.cs = 0 ∧ AtCommandStart t) ∧
      ∀ t, ops.foldlM rtcStep .new = some t → Deselected t := by
  refine ⟨fun rtc => foldlM_rtcStep_iff rtc ops, ?_, fun t h => deselected_of_run h⟩
  intro rtc now mask value t hmask hcs hstep
  exact writeGpData_deselects hmask hcs hstep

/-! ## A long read -/

/-- The edges that send or read the bits. -/
def clocked (bits : List Bool) : List RtcOp :=
  bits.flatMap fun bit =>
    let line : BitVec 16 := if bit then 2 else 0
    [.data none 0xFFFF (4 ||| line), .data none 0xFFFF (5 ||| line)]

/-- The command of a time read, and one bit more than the three bytes of the time. -/
def longTimeRead : List RtcOp :=
  .direction 7 7 :: clocked ([false, true, true, false, false, true, true, true] ++
    List.replicate 25 false)

/-- Its last edge reads behind the seconds. -/
theorem longTimeRead_panics :
    ¬ ∀ ops : List RtcOp, ∃ t, ops.foldlM rtcStep .new = some t := by
  intro hclaim
  obtain ⟨t, ht⟩ := hclaim longTimeRead
  have hstuck : (longTimeRead.foldlM rtcStep .new).isSome = false := by decide +kernel
  rw [ht] at hstuck
  cases hstuck

end AdvancedSlop
