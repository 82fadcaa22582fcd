/-
# The DMA channels

`src/core/memory/dma.rs`: a trigger only queues a channel, and the next scheduler check transfers
what is queued.  Register writes fall between the two, also those the transfers themselves make.

* `dmaStep` : register writes, triggers, and the check in its pieces;
* `QueueGood` : every queued channel is enabled, in the mode of the trigger that queued it;
* `queue_law` : that holds all along a run exactly when no step breaks a queued channel;
* `dma_channels_law` : in such a run every transfer is of an enabled channel in the mode that
  queued it; in every run a trigger causes at most one transfer, and a transfer leaves the registers
  as it should;
* `disabledInQueue_transfers` : a channel disabled in the queue is transferred all the same.
-/
import AdvancedSlop.CycleManager
import AdvancedSlop.TransitionSystem
import Mathlib.Tactic

namespace AdvancedSlop

open TransitionSystem

/-! ## The data -/

/-- `DmaAddrCtrl`. -/
inductive DmaAddrCtrl
  | increment
  | decrement
  | fixed
  | incrementReload
  deriving DecidableEq, Repr

/-- `DmaAddrCtrl::from`. -/
def DmaAddrCtrl.ofBits (bits : BitVec 2) : DmaAddrCtrl :=
  if bits = 0 then .increment else if bits = 1 then .decrement else if bits = 2 then .fixed
  else .incrementReload

/-- `DmaTransferMode`. -/
inductive DmaTransferMode
  | startImm
  | startAtVBlank
  | startAtHBlank
  | special
  deriving DecidableEq, Repr

/-- `DmaTransferMode::from`. -/
def DmaTransferMode.ofBits (bits : BitVec 2) : DmaTransferMode :=
  if bits = 0 then .startImm else if bits = 1 then .startAtVBlank
  else if bits = 2 then .startAtHBlank else .special

/-- `DmaCnt::enable`. -/
def dmaEnable (cnt : BitVec 32) : Bool := cnt.getLsbD 31

/-- `DmaCnt::irq_at_end`. -/
def dmaIrqAtEnd (cnt : BitVec 32) : Bool := cnt.getLsbD 30

/-- `DmaTransferMode::from_cnt`. -/
def dmaTransferMode (cnt : BitVec 32) : DmaTransferMode := .ofBits (cnt.extractLsb' 28 2)

/-- `DmaCnt::repeat`. -/
def dmaRepeat (cnt : BitVec 32) : Bool := cnt.getLsbD 25

/-- `DmaCnt::dest_addr_ctrl`. -/
def dmaDestAddrCtrl (cnt : BitVec 32) : DmaAddrCtrl := .ofBits (cnt.extractLsb' 21 2)

/-- `dma_word_count`. -/
def dmaWordCount (cnt : BitVec 32) (channelNum : Fin 4) : BitVec 32 :=
  let count := cnt &&& 0xFFFF
  if count = 0 then (if channelNum = 3 then 0x10000 else 0x4000) else count

/-- `DmaChannel`. -/
structure DmaChannel where
  cnt : BitVec 32
  sad : BitVec 32
  dad : BitVec 32
  currentSrc : BitVec 32
  currentDest : BitVec 32
  currentCount : BitVec 32
  deriving DecidableEq, Repr

/-- What `dma_on_event` reads before it transfers. -/
structure DmaTransfer where
  channel : Fin 4
  cnt : BitVec 32
  dest : BitVec 32
  src : BitVec 32
  count : BitVec 32
  deriving DecidableEq, Repr

/-- The channels and the scheduler's immediate events for them. -/
structure DmaMachine where
  channels : Fin 4 → DmaChannel
  /-- The bits of `active_imm_events`. -/
  pending : Fin 4 → Bool
  /-- Those the check under way has taken and not dispatched yet. -/
  draining : Fin 4 → Bool
  /-- The transfer under way. -/
  running : Option DmaTransfer
  breakoutImm : Bool
  /-- The interrupts requested at the end of transfers. -/
  interrupts : List (Fin 4)

/-- The history of the triggers, kept for the statements only. -/
structure DmaLog where
  /-- The mode of the last trigger that queued a channel. -/
  queuedBy : Fin 4 → Option DmaTransferMode
  triggers : Fin 4 → Nat
  transfers : Fin 4 → Nat

/-- `Dma::new`, and a scheduler without events. -/
def dmaReset : DmaMachine × DmaLog :=
  ({ channels := fun _ => ⟨0, 0, 0, 0, 0, 0⟩
     pending := fun _ => false
     draining := fun _ => false
     running := none
     breakoutImm := false
     interrupts := [] },
    { queuedBy := fun _ => none, triggers := fun _ => 0, transfers := fun _ => 0 })

/-! ## The steps -/

/-- A masked register write. -/
def maskedWrite (old mask value : BitVec 32) : BitVec 32 := (old &&& ~~~mask) ||| (value &&& mask)

/-- The address bits of a channel. -/
def dmaAddrMask (channelNum : Fin 4) : BitVec 32 :=
  if channelNum ≠ 0 then 0x0FFFFFFF else 0x07FFFFFF

/-- The control bits of a channel. -/
def dmaCntMask (channelNum : Fin 4) : BitVec 32 :=
  if channelNum = 3 then 0xF7E0FFFF else 0xF7E03FFF

/-- What happens to the channels. -/
inductive DmaOp
  | setSad (channelNum : Fin 4) (mask value : BitVec 32)
  | setDad (channelNum : Fin 4) (mask value : BitVec 32)
  | setCnt (channelNum : Fin 4) (mask value : BitVec 32)
  | trigger (mode : DmaTransferMode) (channels : Fin 4 → Bool)
  /-- A scheduler check takes the queued events. -/
  | check
  /-- It dispatches the first of them: `dma_on_event` up to its transfer. -/
  | start
  /-- The rest of `dma_on_event`, with the addresses the transfer leaves. -/
  | finish (dest src : BitVec 32)

namespace DmaMachine

/-- The value `dma_set_cnt` leaves in the register. -/
def writtenCnt (s : DmaMachine) (channelNum : Fin 4) (mask value : BitVec 32) : BitVec 32 :=
  maskedWrite (s.channels channelNum).cnt (mask &&& dmaCntMask channelNum) value

/-- Another state of one channel. -/
def setChannel (s : DmaMachine) (channelNum : Fin 4) (channel : DmaChannel) : DmaMachine :=
  { s with channels := Function.update s.channels channelNum channel }

/-- The trigger finds the channel enabled and in its mode. -/
def triggers (s : DmaMachine) (mode : DmaTransferMode) (channels : Fin 4 → Bool)
    (channelNum : Fin 4) : Bool :=
  channels channelNum && dmaEnable (s.channels channelNum).cnt &&
    decide (dmaTransferMode (s.channels channelNum).cnt = mode)

/-- The next event of the check. -/
def next (s : DmaMachine) : Option (Fin 4) := (List.finRange 4).find? s.draining

end DmaMachine

/-- The transfer keeps its channel enabled. -/
def DmaTransfer.Repeats (transfer : DmaTransfer) : Prop :=
  dmaRepeat transfer.cnt = true ∧ dmaTransferMode transfer.cnt ≠ .startImm

instance (transfer : DmaTransfer) : Decidable transfer.Repeats :=
  inferInstanceAs (Decidable (_ ∧ _))

/-- The channel at the end of its transfer. -/
def DmaTransfer.finish (transfer : DmaTransfer) (channel : DmaChannel) (dest src : BitVec 32) :
    DmaChannel :=
  let channel := { channel with currentDest := dest, currentSrc := src }
  if transfer.Repeats then
    { channel with
      currentCount := dmaWordCount channel.cnt transfer.channel
      currentDest :=
        if dmaDestAddrCtrl transfer.cnt = .incrementReload then channel.dad
        else channel.currentDest }
  else { channel with cnt := channel.cnt &&& ~~~0x80000000#32 }

/-- `schedule_imm` for a channel, by a trigger of a mode. -/
def DmaLog.queue (log : DmaLog) (channelNum : Fin 4) (mode : DmaTransferMode) : DmaLog :=
  { log with
    queuedBy := Function.update log.queuedBy channelNum (some mode)
    triggers := Function.update log.triggers channelNum (log.triggers channelNum + 1) }

/-- `dma_set_cnt`. -/
def dmaSetCnt (s : DmaMachine × DmaLog) (channelNum : Fin 4) (mask value : BitVec 32) :
    DmaMachine × DmaLog :=
  let channel := s.1.channels channelNum
  let cnt := s.1.writtenCnt channelNum mask value
  if dmaEnable channel.cnt = false ∧ dmaEnable cnt = true then
    let s' := s.1.setChannel channelNum
      { channel with
        cnt := cnt
        currentSrc := channel.sad
        currentDest := channel.dad
        currentCount := dmaWordCount cnt channelNum }
    if dmaTransferMode cnt = .startImm then
      ({ s' with breakoutImm := true, pending := Function.update s'.pending channelNum true },
        s.2.queue channelNum .startImm)
    else (s', s.2)
  else (s.1.setChannel channelNum { channel with cnt := cnt }, s.2)

/-- One step. -/
def dmaStep (s : DmaMachine × DmaLog) : DmaOp → Option (DmaMachine × DmaLog)
  | .setSad channelNum mask value =>
      let channel := s.1.channels channelNum
      some (s.1.setChannel channelNum
        { channel with sad := maskedWrite channel.sad (mask &&& dmaAddrMask channelNum) value }, s.2)
  | .setDad channelNum mask value =>
      let channel := s.1.channels channelNum
      some (s.1.setChannel channelNum
        { channel with dad := maskedWrite channel.dad (mask &&& dmaAddrMask channelNum) value }, s.2)
  | .setCnt channelNum mask value => some (dmaSetCnt s channelNum mask value)
  | .trigger mode channels =>
      let triggered := s.1.triggers mode channels
      some ({ s.1 with pending := fun c => triggered c || s.1.pending c },
        { s.2 with
          queuedBy := fun c => if triggered c then some mode else s.2.queuedBy c
          triggers := fun c => if triggered c then s.2.triggers c + 1 else s.2.triggers c })
  | .check =>
      if s.1.next = none ∧ s.1.running = none then
        some ({ s.1 with draining := s.1.pending, pending := fun _ => false }, s.2)
      else none
  | .start =>
      if s.1.running = none then
        s.1.next.map fun c =>
          let channel := s.1.channels c
          ({ s.1 with
              draining := Function.update s.1.draining c false
              running := some ⟨c, channel.cnt, channel.currentDest, channel.currentSrc,
                channel.currentCount⟩ },
            { s.2 with transfers := Function.update s.2.transfers c (s.2.transfers c + 1) })
      else none
  | .finish dest src =>
      s.1.running.map fun transfer =>
        ({ s.1.setChannel transfer.channel
            (transfer.finish (s.1.channels transfer.channel) dest src) with
            running := none
            interrupts :=
              if dmaIrqAtEnd transfer.cnt then s.1.interrupts ++ [transfer.channel]
              else s.1.interrupts }, s.2)

/-! ## The properties -/

/-- The channel waits for a check to transfer it. -/
def DmaMachine.Queued (s : DmaMachine) (c : Fin 4) : Prop :=
  s.pending c = true ∨ s.draining c = true

/-- A channel is enabled, in the mode of the trigger that queued it. -/
def ChannelGood (s : DmaMachine × DmaLog) (c : Fin 4) : Prop :=
  dmaEnable (s.1.channels c).cnt = true ∧
    s.2.queuedBy c = some (dmaTransferMode (s.1.channels c).cnt)

/-- Every queued channel is. -/
def QueueGood (s : DmaMachine × DmaLog) : Prop := ∀ c, s.1.Queued c → ChannelGood s c

/-- A transfer that starts is of such a channel. -/
def StartGood (s : DmaMachine × DmaLog) : DmaOp → Prop
  | .start => ∀ c, s.1.next = some c → ChannelGood s c
  | _ => True

/-- What a transfer leaves in the registers of its channel. -/
def FinishGood (s : DmaMachine × DmaLog) (op : DmaOp) (s' : DmaMachine × DmaLog) : Prop :=
  ∀ dest src transfer, op = .finish dest src → s.1.running = some transfer →
    let channel := s.1.channels transfer.channel
    let channel' := s'.1.channels transfer.channel
    if transfer.Repeats then
      channel' =
        { channel with
          currentSrc := src
          currentCount := dmaWordCount channel.cnt transfer.channel
          currentDest :=
            if dmaDestAddrCtrl transfer.cnt = .incrementReload then channel.dad else dest }
    else dmaEnable channel'.cnt = false

/-- A step leaves the queued channels as they are: a write to the control register of one keeps it
enabled and in its mode, and no transfer that disables its channel ends with the channel queued
anew. -/
def KeepsQueue (s : DmaMachine × DmaLog) : DmaOp → Prop
  | .setCnt c mask value => s.1.Queued c →
      dmaEnable (s.1.writtenCnt c mask value) = true ∧
        dmaTransferMode (s.1.writtenCnt c mask value) = dmaTransferMode (s.1.channels c).cnt
  | .finish _ _ => ∀ transfer, s.1.running = some transfer → ¬ transfer.Repeats →
      ¬ s.1.Queued transfer.channel
  | _ => True

/-! ## The queue -/

/-- A step that touches neither a control register nor the history and queues nothing. -/
theorem QueueGood.of_same {s s' : DmaMachine × DmaLog} (h : QueueGood s)
    (hcnt : ∀ c, (s'.1.channels c).cnt = (s.1.channels c).cnt)
    (hqueued : ∀ c, s'.1.Queued c → s.1.Queued c) (hlog : s'.2.queuedBy = s.2.queuedBy) :
    QueueGood s' := by
  intro c hc
  obtain ⟨henable, hmode⟩ := h c (hqueued c hc)
  exact ⟨by rw [hcnt]; exact henable, by rw [hlog, hcnt]; exact hmode⟩

/-- A channel whose address registers change keeps its control register. -/
theorem setChannel_cnt (s : DmaMachine) (channelNum : Fin 4) {channel : DmaChannel}
    (hcnt : channel.cnt = (s.channels channelNum).cnt) (c : Fin 4) :
    ((s.setChannel channelNum channel).channels c).cnt = (s.channels c).cnt := by
  show (Function.update s.channels channelNum channel c).cnt = _
  by_cases hc : c = channelNum
  · rw [hc, Function.update_self, hcnt]
  · rw [Function.update_of_ne hc]

/-- What `dma_set_cnt` does: it writes the control register, and queues the channel when it enables
it in the immediate mode. -/
theorem dmaSetCnt_spec (s : DmaMachine × DmaLog) (c : Fin 4) (mask value : BitVec 32) :
    ((dmaSetCnt s c mask value).1.channels c).cnt = s.1.writtenCnt c mask value ∧
      (∀ c' ≠ c, (dmaSetCnt s c mask value).1.channels c' = s.1.channels c') ∧
      ((dmaSetCnt s c mask value).1.pending = s.1.pending ∧ (dmaSetCnt s c mask value).2 = s.2 ∨
        dmaEnable (s.1.channels c).cnt = false ∧ dmaEnable (s.1.writtenCnt c mask value) = true ∧
          dmaTransferMode (s.1.writtenCnt c mask value) = .startImm ∧
          (dmaSetCnt s c mask value).1.pending = Function.update s.1.pending c true ∧
          (dmaSetCnt s c mask value).2 = s.2.queue c .startImm) ∧
      (dmaSetCnt s c mask value).1.draining = s.1.draining ∧
      (dmaSetCnt s c mask value).1.running = s.1.running := by
  unfold dmaSetCnt
  simp only
  split_ifs with henable himm
  · refine ⟨?_, fun c' hc' => ?_, .inr ⟨henable.1, henable.2, himm, rfl, rfl⟩, rfl, rfl⟩
    · show (Function.update s.1.channels c _ c).cnt = _
      rw [Function.update_self]
    · exact Function.update_of_ne hc' ..
  · refine ⟨?_, fun c' hc' => ?_, .inl ⟨rfl, rfl⟩, rfl, rfl⟩
    · show (Function.update s.1.channels c _ c).cnt = _
      rw [Function.update_self]
    · exact Function.update_of_ne hc' ..
  · refine ⟨?_, fun c' hc' => ?_, .inl ⟨rfl, rfl⟩, rfl, rfl⟩
    · show (Function.update s.1.channels c _ c).cnt = _
      rw [Function.update_self]
    · exact Function.update_of_ne hc' ..

/-- A write to a control register keeps the queue good exactly when it leaves a queued channel
enabled and in its mode. -/
theorem QueueGood.setCnt_iff {s : DmaMachine × DmaLog} (h : QueueGood s) (c : Fin 4)
    (mask value : BitVec 32) :
    QueueGood (dmaSetCnt s c mask value) ↔ KeepsQueue s (.setCnt c mask value) := by
  obtain ⟨hcnt, hother, hqueue, hdraining, -⟩ := dmaSetCnt_spec s c mask value
  constructor
  · intro hgood hqueued
    obtain ⟨henable, hmode⟩ := h c hqueued
    -- an enabled channel is not queued anew
    have hsame : (dmaSetCnt s c mask value).1.pending = s.1.pending ∧
        (dmaSetCnt s c mask value).2 = s.2 := by
      rcases hqueue with hsame | ⟨hdisabled, -⟩
      · exact hsame
      · exact absurd henable (by simp [hdisabled])
    have hqueued' : (dmaSetCnt s c mask value).1.Queued c := by
      rcases hqueued with hpending | hdrain
      · exact .inl (by rw [hsame.1]; exact hpending)
      · exact .inr (by rw [hdraining]; exact hdrain)
    obtain ⟨henable', hmode'⟩ := hgood c hqueued'
    rw [hcnt] at henable' hmode'
    rw [hsame.2, hmode] at hmode'
    exact ⟨henable', (Option.some.inj hmode').symm⟩
  · intro hkeeps c' hc'
    by_cases hcc : c' = c
    · subst hcc
      rw [ChannelGood, hcnt]
      rcases hqueue with ⟨hpending, hlog⟩ | ⟨-, henable, hmode, -, hlog⟩
      · have hqueued : s.1.Queued c' := by
          rcases hc' with hp | hd
          · exact .inl (by rw [← hpending]; exact hp)
          · exact .inr (by rw [← hdraining]; exact hd)
        obtain ⟨henable, hmode⟩ := hkeeps hqueued
        rw [hlog, (h c' hqueued).2, hmode]
        exact ⟨henable, rfl⟩
      · rw [hlog, hmode]
        exact ⟨henable, Function.update_self ..⟩
    · have hqueued : s.1.Queued c' := by
        rcases hc' with hp | hd
        · rcases hqueue with ⟨hpending, -⟩ | ⟨-, -, -, hpending, -⟩
          · exact .inl (by rw [← hpending]; exact hp)
          · rw [hpending, Function.update_of_ne hcc] at hp
            exact .inl hp
        · exact .inr (by rw [← hdraining]; exact hd)
      have hlog : (dmaSetCnt s c mask value).2.queuedBy c' = s.2.queuedBy c' := by
        rcases hqueue with ⟨-, hlog⟩ | ⟨-, -, -, -, hlog⟩
        · rw [hlog]
        · rw [hlog]
          exact Function.update_of_ne hcc ..
      rw [ChannelGood, hother c' hcc, hlog]
      exact h c' hqueued

/-- The end of a transfer keeps the mode bits and, when it repeats, the control register. -/
theorem DmaTransfer.finish_cnt (transfer : DmaTransfer) (channel : DmaChannel)
    (dest src : BitVec 32) :
    (transfer.finish channel dest src).cnt =
      if transfer.Repeats then channel.cnt else channel.cnt &&& ~~~0x80000000#32 := by
  unfold DmaTransfer.finish
  simp only
  split_ifs <;> rfl

/-- A cleared enable bit. -/
theorem dmaEnable_clear (cnt : BitVec 32) : dmaEnable (cnt &&& ~~~0x80000000#32) = false := by
  rw [dmaEnable, BitVec.getLsbD_and]
  have hbit : (~~~0x80000000#32).getLsbD 31 = false := by decide
  rw [hbit, Bool.and_false]

/-- **One step** keeps the queue good exactly when it keeps the queued channels. -/
theorem QueueGood.step_iff {s s' : DmaMachine × DmaLog} {op : DmaOp} (h : QueueGood s)
    (hstep : dmaStep s op = some s') : QueueGood s' ↔ KeepsQueue s op := by
  cases op with
  | setSad channelNum mask value =>
      obtain rfl := Option.some.inj hstep
      exact iff_of_true (h.of_same (setChannel_cnt s.1 channelNum rfl) (fun _ hc => hc) rfl) trivial
  | setDad channelNum mask value =>
      obtain rfl := Option.some.inj hstep
      exact iff_of_true (h.of_same (setChannel_cnt s.1 channelNum rfl) (fun _ hc => hc) rfl) trivial
  | setCnt channelNum mask value =>
      obtain rfl := Option.some.inj hstep
      exact h.setCnt_iff channelNum mask value
  | trigger mode channels =>
      obtain rfl := Option.some.inj hstep
      refine iff_of_true (fun c hc => ?_) trivial
      by_cases htriggered : s.1.triggers mode channels c = true
      · have hfields := htriggered
        simp only [DmaMachine.triggers, Bool.and_eq_true, decide_eq_true_eq] at hfields
        refine ⟨hfields.1.2, ?_⟩
        show (if _ then _ else _) = _
        rw [if_pos htriggered, hfields.2]
      · have hqueued : s.1.Queued c := by
          rcases hc with hp | hd
          · simp only [Bool.or_eq_true] at hp
            exact .inl (hp.resolve_left htriggered)
          · exact .inr hd
        refine ⟨(h c hqueued).1, ?_⟩
        show (if _ then _ else _) = _
        rw [if_neg htriggered]
        exact (h c hqueued).2
  | check =>
      simp only [dmaStep] at hstep
      split_ifs at hstep
      obtain rfl := Option.some.inj hstep
      refine iff_of_true (h.of_same (fun _ => rfl) (fun c hc => ?_) rfl) trivial
      rcases hc with hp | hd
      · exact absurd hp (by simp)
      · exact .inl hd
  | start =>
      simp only [dmaStep] at hstep
      split_ifs at hstep
      obtain ⟨c, hc, rfl⟩ := Option.map_eq_some_iff.mp hstep
      refine iff_of_true (h.of_same (fun _ => rfl) (fun c' hc' => ?_) rfl) trivial
      rcases hc' with hp | hd
      · exact .inl hp
      · have hd : Function.update s.1.draining c false c' = true := hd
        by_cases hcc : c' = c
        · rw [hcc, Function.update_self] at hd
          exact absurd hd (by simp)
        · rw [Function.update_of_ne hcc] at hd
          exact .inr hd
  | finish dest src =>
      obtain ⟨transfer, htransfer, rfl⟩ := Option.map_eq_some_iff.mp hstep
      have hcnt : ∀ c, (((s.1.setChannel transfer.channel
          (transfer.finish (s.1.channels transfer.channel) dest src)).channels c).cnt =
            if c = transfer.channel ∧ ¬ transfer.Repeats then
              (s.1.channels c).cnt &&& ~~~0x80000000#32
            else (s.1.channels c).cnt) := by
        intro c
        show (Function.update s.1.channels _ _ c).cnt = _
        by_cases hc : c = transfer.channel
        · subst hc
          rw [Function.update_self, transfer.finish_cnt]
          by_cases hrepeats : transfer.Repeats <;> simp [hrepeats]
        · rw [Function.update_of_ne hc, if_neg fun hboth => hc hboth.1]
      constructor
      · intro hgood transfer' htransfer' honce hqueued
        obtain rfl : transfer = transfer' := Option.some.inj (htransfer.symm.trans htransfer')
        have henable := (hgood transfer.channel hqueued).1
        have hcleared := hcnt transfer.channel
        rw [if_pos ⟨rfl, honce⟩] at hcleared
        have henable : dmaEnable (((s.1.setChannel transfer.channel
          (transfer.finish (s.1.channels transfer.channel) dest src)).channels
            transfer.channel).cnt) = true := henable
        rw [hcleared, dmaEnable_clear] at henable
        exact absurd henable (by simp)
      · intro hkeeps
        refine fun c hc => ?_
        have hnot : ¬ (c = transfer.channel ∧ ¬ transfer.Repeats) := by
          rintro ⟨rfl, honce⟩
          exact hkeeps transfer htransfer honce hc
        have hsame := hcnt c
        rw [if_neg hnot] at hsame
        refine ⟨?_, ?_⟩
        · exact (congrArg dmaEnable hsame).trans (h c hc).1
        · exact (h c hc).2.trans (congrArg (some ∘ dmaTransferMode) hsame).symm

/-- At reset nothing is queued. -/
theorem queueGood_reset : QueueGood dmaReset := by
  rintro c (hp | hd)
  · exact absurd hp (by simp [dmaReset])
  · exact absurd hd (by simp [dmaReset])

/-- **The queue law.**  In a run from reset the queue is good after every step exactly when every
step keeps the queued channels. -/
theorem queue_law {run : List ((DmaMachine × DmaLog) × DmaOp × DmaMachine × DmaLog)}
    {s : DmaMachine × DmaLog} (h : Trace dmaStep dmaReset run s) :
    (∀ x ∈ run, QueueGood x.2.2) ↔ ∀ x ∈ run, KeepsQueue x.1 x.2.1 :=
  h.states_iff (I := fun _ => True) (fun _ _ _ _ _ => trivial)
    (fun _ _ _ _ hgood hstep => hgood.step_iff hstep) trivial queueGood_reset

/-! ## Counting -/

/-- The transfers of a channel and its queued events. -/
def dmaCaused (s : DmaMachine × DmaLog) (c : Fin 4) : Nat :=
  s.2.transfers c + (s.1.pending c).toNat + (s.1.draining c).toNat

/-- No event without a trigger. -/
def CountsGood (s : DmaMachine × DmaLog) : Prop := ∀ c, dmaCaused s c ≤ s.2.triggers c

/-- The next event of a check is one of those it took. -/
theorem DmaMachine.draining_of_next {s : DmaMachine} {c : Fin 4} (h : s.next = some c) :
    s.draining c = true :=
  List.find?_some h

/-- A check that is done has dispatched all its events. -/
theorem DmaMachine.draining_eq_false {s : DmaMachine} (h : s.next = none) (c : Fin 4) :
    s.draining c = false := by
  have hall := List.find?_eq_none.mp h c (List.mem_finRange c)
  simpa using hall

/-- **One step** starts no more transfers than there are triggers. -/
theorem CountsGood.step {s s' : DmaMachine × DmaLog} {op : DmaOp} (h : CountsGood s)
    (hstep : dmaStep s op = some s') : CountsGood s' := by
  intro c
  have hc := h c
  unfold dmaCaused at hc ⊢
  cases op with
  | setSad channelNum mask value =>
      obtain rfl := Option.some.inj hstep
      exact hc
  | setDad channelNum mask value =>
      obtain rfl := Option.some.inj hstep
      exact hc
  | setCnt channelNum mask value =>
      obtain rfl := Option.some.inj hstep
      obtain ⟨-, -, hqueue, hdraining, -⟩ := dmaSetCnt_spec s channelNum mask value
      rw [hdraining]
      rcases hqueue with ⟨hpending, hlog⟩ | ⟨-, -, -, hpending, hlog⟩
      · rw [hpending, hlog]
        exact hc
      · rw [hpending, hlog]
        show s.2.transfers c + _ + _ ≤ Function.update s.2.triggers channelNum _ c
        by_cases hcc : c = channelNum
        · subst hcc
          rw [Function.update_self, Function.update_self, Bool.toNat_true]
          have hbool := Bool.toNat_le (s.1.pending c)
          omega
        · rw [Function.update_of_ne hcc, Function.update_of_ne hcc]
          exact hc
  | trigger mode channels =>
      obtain rfl := Option.some.inj hstep
      show s.2.transfers c + (s.1.triggers mode channels c || s.1.pending c).toNat +
        (s.1.draining c).toNat ≤ if s.1.triggers mode channels c then _ else _
      have hbool := Bool.toNat_le (s.1.triggers mode channels c || s.1.pending c)
      by_cases htriggered : s.1.triggers mode channels c = true
      · rw [if_pos htriggered]
        omega
      · rw [if_neg htriggered, eq_false_of_ne_true htriggered, Bool.false_or]
        exact hc
  | check =>
      simp only [dmaStep] at hstep
      split_ifs at hstep with hidle
      obtain rfl := Option.some.inj hstep
      have hdrained := DmaMachine.draining_eq_false hidle.1 c
      rw [hdrained, Bool.toNat_false] at hc
      show s.2.transfers c + 0 + (s.1.pending c).toNat ≤ s.2.triggers c
      omega
  | start =>
      simp only [dmaStep] at hstep
      split_ifs at hstep
      obtain ⟨c', hnext, rfl⟩ := Option.map_eq_some_iff.mp hstep
      show Function.update s.2.transfers c' _ c + (s.1.pending c).toNat +
        (Function.update s.1.draining c' false c).toNat ≤ s.2.triggers c
      by_cases hcc : c = c'
      · subst hcc
        rw [DmaMachine.draining_of_next hnext, Bool.toNat_true] at hc
        rw [Function.update_self, Function.update_self, Bool.toNat_false]
        omega
      · rw [Function.update_of_ne hcc, Function.update_of_ne hcc]
        exact hc
  | finish dest src =>
      obtain ⟨transfer, -, rfl⟩ := Option.map_eq_some_iff.mp hstep
      exact hc

/-! ## The end of a transfer -/

/-- Every transfer leaves the registers as it should. -/
theorem finishGood_of_step {s s' : DmaMachine × DmaLog} {op : DmaOp}
    (hstep : dmaStep s op = some s') : FinishGood s op s' := by
  rintro dest src transfer rfl hrunning
  rw [dmaStep, hrunning, Option.map_some] at hstep
  obtain rfl := Option.some.inj hstep
  have hchannel : (s.1.setChannel transfer.channel
      (transfer.finish (s.1.channels transfer.channel) dest src)).channels transfer.channel =
        transfer.finish (s.1.channels transfer.channel) dest src :=
    Function.update_self ..
  simp only [hchannel]
  by_cases hrepeats : transfer.Repeats
  · rw [if_pos hrepeats, DmaTransfer.finish]
    simp only [if_pos hrepeats]
  · rw [if_neg hrepeats, transfer.finish_cnt, if_neg hrepeats, dmaEnable_clear]

/-! ## The law -/

/-- A transfer that starts from a good queue is of an enabled channel in the mode that queued it. -/
theorem QueueGood.startGood {s : DmaMachine × DmaLog} (h : QueueGood s) (op : DmaOp) :
    StartGood s op := by
  cases op with
  | start => exact fun c hnext => h c (.inr (DmaMachine.draining_of_next hnext))
  | _ => trivial

/-- **The DMA channels.**  In every run from reset whose steps keep the queued channels, every
transfer is of an enabled channel in the mode of the trigger that queued it; in every run a channel
has no more transfers than triggers, and a transfer leaves its registers as it should. -/
theorem dma_channels_law (run : List ((DmaMachine × DmaLog) × DmaOp × DmaMachine × DmaLog))
    (s : DmaMachine × DmaLog) (h : Trace dmaStep dmaReset run s) :
    ((∀ x ∈ run, KeepsQueue x.1 x.2.1) → ∀ x ∈ run, StartGood x.1 x.2.1) ∧
      (∀ c, s.2.transfers c ≤ s.2.triggers c) ∧
      ∀ x ∈ run, FinishGood x.1 x.2.1 x.2.2 := by
  refine ⟨fun hkeeps => ?_, fun c => ?_, fun x hx => finishGood_of_step (h.step_of_mem hx)⟩
  · -- the queue is good before each step, since it is after the steps before
    suffices hgood : (∀ x ∈ run, QueueGood x.1) ∧ QueueGood s from
      fun x hx => (hgood.1 x hx).startGood x.2.1
    induction h with
    | nil => exact ⟨by simp, queueGood_reset⟩
    | snoc htrace hstep ih =>
        obtain ⟨hall, hlast⟩ := ih fun x hx => hkeeps x (List.mem_append_left _ hx)
        refine ⟨fun x hx => ?_, ?_⟩
        · rcases List.mem_append.mp hx with hx | hx
          · exact hall x hx
          · obtain rfl := List.mem_singleton.mp hx
            exact hlast
        · exact (hlast.step_iff hstep).mpr
            (hkeeps (_, _, _) (List.mem_append_right _ (List.mem_singleton_self _)))
  · have hcounts := (h.invariant (I := CountsGood) (fun _ _ _ hI hstep => hI.step hstep)
      (fun c => le_refl _)).1 c
    unfold dmaCaused at hcounts
    omega

/-- Channel 0 once it is enabled for one word at once. -/
def enabledAtOnce : DmaMachine × DmaLog := dmaSetCnt dmaReset 0 0xFFFFFFFF 0x80000001

/-- The check has taken it. -/
def takenAtOnce : DmaMachine × DmaLog := (dmaStep enabledAtOnce .check).getD enabledAtOnce

/-- Its transfer is under way. -/
def startedAtOnce : DmaMachine × DmaLog := (dmaStep takenAtOnce .start).getD takenAtOnce

/-- An immediate transfer is of an enabled channel, and the only one of its trigger. -/
theorem startedAtOnce_good :
    takenAtOnce.1.next = some 0 ∧ StartGood takenAtOnce .start ∧
      startedAtOnce.2.transfers 0 ≤ startedAtOnce.2.triggers 0 := by
  have htrace : Trace dmaStep dmaReset
      [(dmaReset, .setCnt 0 0xFFFFFFFF 0x80000001, enabledAtOnce),
        (enabledAtOnce, .check, takenAtOnce), (takenAtOnce, .start, startedAtOnce)]
      startedAtOnce :=
    ((Trace.nil.snoc rfl).snoc (by rfl)).snoc (by rfl)
  obtain ⟨hstarts, hcounts, -⟩ := dma_channels_law _ _ htrace
  refine ⟨by decide, hstarts ?_ (takenAtOnce, .start, startedAtOnce) (by simp),
    hcounts 0⟩
  simp only [List.forall_mem_cons]
  refine ⟨fun hqueued => ?_, trivial, trivial, by simp⟩
  rcases hqueued with hp | hd
  · exact absurd hp (by simp [dmaReset])
  · exact absurd hd (by simp [dmaReset])

/-! ## Disabled in the queue -/

/-- A vertical blank queues channel 0, and the program disables it before the check. -/
def disabledInQueue : List DmaOp :=
  [.setCnt 0 0xFFFFFFFF 0x90000001, .trigger .startAtVBlank (fun _ => true),
    .setCnt 0 0xFFFFFFFF 0, .check]

/-- The check transfers it all the same. -/
theorem disabledInQueue_transfers :
    ¬ ∀ (run : List ((DmaMachine × DmaLog) × DmaOp × DmaMachine × DmaLog))
      (s : DmaMachine × DmaLog), Trace dmaStep dmaReset run s →
        ∀ x ∈ run, StartGood x.1 x.2.1 := by
  intro hclaim
  have hrun : ((disabledInQueue.foldlM dmaStep dmaReset).map fun s =>
      (s.1.next, dmaEnable (s.1.channels 0).cnt, (dmaStep s .start).isSome)) =
        some (some 0, false, true) := by decide
  obtain ⟨s, hs, hvisible⟩ := Option.map_eq_some_iff.mp hrun
  simp only [Prod.mk.injEq] at hvisible
  obtain ⟨hnext, hdisabled, hstarts⟩ := hvisible
  obtain ⟨s', hstep⟩ := Option.isSome_iff_exists.mp hstarts
  obtain ⟨run, htrace, -⟩ := Trace.of_foldlM hs
  have hgood := hclaim _ _ (htrace.snoc hstep) (s, .start, s')
    (List.mem_append_right _ (List.mem_singleton_self _))
  have henabled := (hgood 0 hnext).1
  rw [hdisabled] at henabled
  exact absurd henabled (by simp)

end AdvancedSlop
