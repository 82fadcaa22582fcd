/-
# The fifo law

What the fifos of `SoundFifo` deliver in a run, and why the sound DMA never writes to a full one: a
request is made at or below half full, nothing but the burst it leads to fills the fifo, and no
second request can wait behind the one that is served.

* `RequestGood` : a fifo whose channel is requested is at most half full, and the request is single;
* `soundDma_request` : a sound DMA on request finds room;
* `fifo_law` : what the DAC gets, and that bursts on request are never dropped.
-/
import AdvancedSlop.SoundFifo

namespace AdvancedSlop

open RingQueue TransitionSystem

attribute [local instance] neZero_fifos

/-! ## The requests -/

/-- A requested channel, of the requests a fifo makes: there is one request, and at most 16 bytes
are left. -/
def RequestGood (c : Fin 4) (len : Nat) (dma : DmaMachine × DmaLog) : Prop :=
  dma.2.queuedBy c = some .special →
    (dma.1.Queued c → len ≤ 16) ∧ ¬ (dma.1.pending c = true ∧ dma.1.draining c = true)

theorem RequestGood.mono {c : Fin 4} {len len' : Nat} {dma : DmaMachine × DmaLog}
    (h : RequestGood c len dma) (hlen : len' ≤ len) : RequestGood c len' dma :=
  fun hspecial => ⟨fun hqueued => hlen.trans ((h hspecial).1 hqueued), (h hspecial).2⟩

/-- What no longer waits does not wait with more bytes left. -/
theorem RequestGood.of_not_queued {c : Fin 4} {len : Nat} {dma : DmaMachine × DmaLog}
    (h : dma.2.queuedBy c = some .special → ¬ dma.1.Queued c) : RequestGood c len dma :=
  fun hspecial => ⟨fun hqueued => absurd hqueued (h hspecial), fun hboth => h hspecial (.inl hboth.1)⟩

/-- A step that queues nothing. -/
theorem RequestGood.of_same {c : Fin 4} {len : Nat} {dma dma' : DmaMachine × DmaLog}
    (h : RequestGood c len dma) (hpending : dma'.1.pending c = dma.1.pending c)
    (hdraining : dma'.1.draining c = true → dma.1.draining c = true)
    (hlog : dma'.2.queuedBy c = dma.2.queuedBy c) : RequestGood c len dma' := by
  intro hspecial
  obtain ⟨hhalf, honce⟩ := h (by rw [← hlog]; exact hspecial)
  refine ⟨fun hqueued => hhalf ?_, fun hboth => honce ⟨?_, hdraining hboth.2⟩⟩
  · rcases hqueued with hp | hd
    · exact .inl (by rw [← hpending]; exact hp)
    · exact .inr (hdraining hd)
  · rw [← hpending]
    exact hboth.1

theorem queue_queuedBy (log : DmaLog) (d : Fin 4) (mode : DmaTransferMode) :
    (log.queue d mode).queuedBy = Function.update log.queuedBy d (some mode) := rfl

/-- A step asks for no refill of the channel. -/
def NoRequest (c : Fin 4) : DmaOp → Prop
  | .trigger mode channels => mode = .special → channels c = false
  | _ => True

/-- **The channels' steps** keep the requests. -/
theorem RequestGood.dmaStep {c : Fin 4} {len : Nat} {dma dma' : DmaMachine × DmaLog} {op : DmaOp}
    (h : RequestGood c len dma) (hop : NoRequest c op) (hs : AdvancedSlop.dmaStep dma op = some dma') :
    RequestGood c len dma' := by
  cases op with
  | setSad d mask value =>
      obtain rfl := Option.some.inj hs
      exact h.of_same rfl id rfl
  | setDad d mask value =>
      obtain rfl := Option.some.inj hs
      exact h.of_same rfl id rfl
  | setCnt d mask value =>
      obtain rfl := Option.some.inj hs
      obtain ⟨-, -, hqueue, hdraining, -⟩ := dmaSetCnt_spec dma d mask value
      rcases hqueue with ⟨hpending, hlog⟩ | ⟨-, -, -, hpending, hlog⟩
      · exact h.of_same (by rw [hpending]) (by rw [hdraining]; exact id) (by rw [hlog])
      · by_cases hcd : c = d
        · -- the channel is queued anew, by its own register
          intro hspecial
          rw [hlog, hcd, queue_queuedBy, Function.update_self] at hspecial
          cases hspecial
        · refine h.of_same ?_ (by rw [hdraining]; exact id) ?_
          · rw [hpending, Function.update_of_ne hcd]
          · rw [hlog, queue_queuedBy, Function.update_of_ne hcd]
  | trigger mode channels =>
      obtain rfl := Option.some.inj hs
      by_cases htrig : dma.1.triggers mode channels c = true
      · intro hspecial
        simp only [htrig, if_true, Option.some.injEq] at hspecial
        have hnot := hop hspecial
        simp [DmaMachine.triggers, hnot] at htrig
      · have hfalse : dma.1.triggers mode channels c = false := by simpa using htrig
        exact h.of_same (by simp [hfalse]) id (by simp [hfalse])
  | check =>
      obtain ⟨⟨hnext, -⟩, hs⟩ := Option.ite_none_right_eq_some.mp hs
      obtain rfl := Option.some.inj hs
      intro hspecial
      refine ⟨fun hqueued => (h hspecial).1 ?_, fun hboth => Bool.false_ne_true hboth.1⟩
      rcases hqueued with hp | hd
      · cases hp
      · exact .inl hd
  | start =>
      obtain ⟨-, hs⟩ := Option.ite_none_right_eq_some.mp hs
      obtain ⟨d, -, rfl⟩ := Option.map_eq_some_iff.mp hs
      refine h.of_same rfl (fun hd => ?_) rfl
      by_cases hcd : c = d
      · subst hcd
        simp at hd
      · simpa [Function.update_of_ne hcd] using hd
  | finish dest src =>
      obtain ⟨transfer, -, rfl⟩ := Option.map_eq_some_iff.mp hs
      exact h.of_same rfl id rfl

/-- The registers of the channels ask for no refill. -/
theorem dmaRegister_noRequest {offset : Nat} {op : BitVec 32 → BitVec 32 → DmaOp}
    (h : dmaRegister offset = some op) (c : Fin 4) (mask value : BitVec 32) :
    NoRequest c (op mask value) := by
  unfold dmaRegister at h
  split at h <;> first | (obtain rfl := Option.some.inj h; trivial) | cases h

theorem withDma_request {c : Fin 4} {len : Nat} {s : SoundMachine} {op : DmaOp}
    (h : RequestGood c len s.dma) (hop : NoRequest c op) :
    RequestGood c len ((s.withDma op).getD s).dma := by
  rcases withDma_getD s op with hs | hs
  · rw [hs]
    exact h
  · exact h.dmaStep hop (withDma_eq_some hs).2.2.2

/-- A write function keeps the requests. -/
theorem writeSoundRegister_request {c : Fin 4} {len : Nat} (call : WriteCall) {s : SoundMachine}
    (h : RequestGood c len s.dma) : RequestGood c len (writeSoundRegister call s).dma := by
  unfold writeSoundRegister
  simp only
  split
  · exact h
  · split
    · exact h
    · split
      · exact h
      · split
        · rename_i op hop
          exact withDma_request h (dmaRegister_noRequest hop c _ _)
        · exact h

/-- So does a store. -/
theorem ioStore_request {c : Fin 4} {len : Nat} (width : IoSize) (offset : Nat)
    (value : BitVec (8 * width.bytes)) {s : SoundMachine} (h : RequestGood c len s.dma) :
    RequestGood c len (ioStore width offset value s).dma := by
  unfold ioStore
  split
  · rw [IoLayout.write]
    cases ioGbaWrite.cell width offset with
    | none => exact h
    | some cell =>
        rw [Option.map_some, Option.getD_some, LutEntry.write]
        induction cell.entries generalizing s with
        | nil => exact h
        | cons entry entries ih =>
            rw [List.foldl_cons]
            exact ih (writeSoundRegister_request _ h)
  · exact h

/-- So do the words of a sound DMA. -/
theorem storeAt_request {c : Fin 4} {len : Nat} (dest : BitVec 32) (values : List (BitVec 32))
    {s : SoundMachine} (h : RequestGood c len s.dma) :
    RequestGood c len (values.foldl (storeAt dest) s).dma := by
  induction values generalizing s with
  | nil => exact h
  | cons value values ih =>
      refine ih ?_
      unfold storeAt
      split
      · exact @ioStore_request c len .io32 _ value s h
      · exact h

theorem fifoChannel_injective : Function.Injective fifoChannel := by decide

/-- The loop of an overflow keeps the requests, all events being dispatched. -/
theorem clock_request {f : Fin 2} (timer : Fin 2) {s : SoundMachine} (g : Fin 2)
    (hgood : (s.fifo f).Good 32) (hdrained : s.dma.1.draining (fifoChannel f) = false)
    (h : RequestGood (fifoChannel f) (s.fifo f).len s.dma) :
    RequestGood (fifoChannel f) ((s.clock timer g).fifo f).len (s.clock timer g).dma ∧
      (s.clock timer g).dma.1.draining (fifoChannel f) = false := by
  unfold SoundMachine.clock
  split
  swap
  · exact ⟨h, hdrained⟩
  · -- what is left is no more than before
    have hlatch : (s.latchNext g).dma = s.dma := by
      unfold SoundMachine.latchNext
      split <;> rfl
    have hlen : ((s.latchNext g).fifo f).len ≤ (s.fifo f).len := by
      by_cases hfg : f = g
      · subst hfg
        have hread := (latchNext_delivers s f hgood).ring
        rw [← @RingBuf.length_content _ 32, hread.content, ← @RingBuf.length_content _ 32 (s.fifo f)]
        exact length_run_le_self (by simp) _
      · rw [(latchNext_of_ne s hfg).1]
    have hkept : RequestGood (fifoChannel f) ((s.latchNext g).fifo f).len (s.latchNext g).dma := by
      rw [hlatch]
      exact h.mono hlen
    rw [(requestRefill_same g _).1]
    unfold SoundMachine.requestRefill
    split
    swap
    · exact ⟨hkept, by rw [hlatch]; exact hdrained⟩
    · rename_i hhalf
      -- a request at or below half full
      refine ⟨?_, ?_⟩
      · by_cases hfg : f = g
        · subst hfg
          exact fun _ => ⟨fun _ => hhalf, fun hboth => by
            have hd := hboth.2
            rw [show ((((s.latchNext f).withDma _).getD (s.latchNext f)).dma.1.draining) =
              (s.latchNext f).dma.1.draining from rfl, hlatch, hdrained] at hd
            cases hd⟩
        · refine withDma_request hkept fun _ => ?_
          exact decide_eq_false fun heq => hfg (fifoChannel_injective heq)
      · show (s.latchNext g).dma.1.draining _ = false
        rw [hlatch]
        exact hdrained

/-! ## The law -/

/-- A step that writes to a fifo is the sound DMA of its channel, on its request. -/
def FedByBursts (f : Fin 2) (s : SoundMachine) (op : FifoOp) : Prop :=
  (∃ x, .write x ∈ fifoEvents f s op) →
    ∃ values src, op = .soundDma values src ∧ s.dma.1.next = some (fifoChannel f) ∧
      s.dma.2.queuedBy (fifoChannel f) = some .special

/-- What holds between the steps. -/
structure FifoInv (f : Fin 2) (s : SoundMachine) : Prop where
  good : (s.fifo f).Good 32
  request : RequestGood (fifoChannel f) (s.fifo f).len s.dma

/-- A drained machine waits for nothing. -/
theorem Drained.draining {s : SoundMachine} (h : s.Drained) (c : Fin 4) :
    s.dma.1.draining c = false := by
  have hnone := List.find?_eq_none.mp h.1 c (List.mem_finRange c)
  simpa using hnone

/-- A word is written to a fifo where its register is, all four bytes of it. -/
theorem wordEvents_eq {f : Fin 2} {dest value : BitVec 32} {x : BitVec 8}
    (h : .write x ∈ wordEvents f dest value) (value' : BitVec 32) :
    wordEvents f dest value' =
      ((List.range 4).map fun k => value'.extractLsb' (8 * k) 8).map .write := by
  unfold wordEvents at h ⊢
  cases hoffset : ioOffset dest with
  | none =>
      rw [hoffset] at h
      cases h
  | some offset =>
      rw [hoffset] at h
      have hdvd := ioOffset_dvd hoffset
      obtain ⟨k, hk, hwrite⟩ := List.mem_flatMap.mp h
      have hlt : k < 4 := List.mem_range.mp hk
      have hin : 0xA0 + 4 * f.val ≤ offset + k ∧ offset + k < 0xA4 + 4 * f.val := by
        by_contra hout
        rw [byteEvents, if_neg hout] at hwrite
        split at hwrite <;> simp at hwrite
      rw [List.map_map, List.map_eq_flatMap]
      refine List.flatMap_congr fun j hj => ?_
      have hjlt : j < 4 := List.mem_range.mp hj
      exact if_pos (by omega)

/-- A burst. -/
theorem burst_eq {f : Fin 2} {dest : BitVec 32} {values : List (BitVec 32)} {x : BitVec 8}
    (h : .write x ∈ values.flatMap (wordEvents f dest)) :
    ∃ bytes : List (BitVec 8), bytes.length = 4 * values.length ∧
      values.flatMap (wordEvents f dest) = bytes.map .write := by
  obtain ⟨value, -, hwrite⟩ := List.mem_flatMap.mp h
  refine ⟨values.flatMap fun value => (List.range 4).map fun k => value.extractLsb' (8 * k) 8, ?_, ?_⟩
  · simp [List.length_flatMap, Nat.mul_comm]
  · rw [List.map_flatMap]
    exact List.flatMap_congr fun value' _ => wordEvents_eq hwrite value'

/-- What does not write leaves no more than there was. -/
theorem Follows.len_le {fifo fifo' : RingBuf (BitVec 8)} {events : List (Event (BitVec 8))}
    (h : Follows fifo fifo' events) (hwrite : ∀ x, .write x ∉ events) : fifo'.len ≤ fifo.len := by
  rw [← @RingBuf.length_content _ 32 fifo', ← @RingBuf.length_content _ 32 fifo, h.content]
  exact length_run_le_self hwrite _

/-- It drops nothing. -/
theorem dropped_eq_nil {events : List (Event (BitVec 8))} (hwrite : ∀ x, .write x ∉ events)
    (q : List (BitVec 8)) : collect 32 (dropped 32) q events = [] := by
  refine collect_eq_nil (fun e he q => ?_) q
  cases e with
  | write x => exact absurd he (hwrite x)
  | read => rfl
  | reset => rfl

/-- **A sound DMA on request** finds room, and its request is gone. -/
theorem soundDma_request {f : Fin 2} {s started : SoundMachine} (h : FifoInv f s)
    (hstart : s.withDma .start = some started) (hnext : s.dma.1.next = some (fifoChannel f))
    (hspecial : s.dma.2.queuedBy (fifoChannel f) = some .special) :
    (s.fifo f).len ≤ 16 ∧ RequestGood (fifoChannel f) 32 started.dma := by
  have hdraining : s.dma.1.draining (fifoChannel f) = true := List.find?_some hnext
  obtain ⟨hhalf, honce⟩ := h.request hspecial
  refine ⟨hhalf (.inr hdraining), .of_not_queued fun _ => ?_⟩
  obtain ⟨-, hs⟩ := Option.ite_none_right_eq_some.mp (withDma_eq_some hstart).2.2.2
  rw [hnext, Option.map_some, Option.some.injEq] at hs
  rw [← hs]
  rintro (hp | hd)
  · exact honce ⟨hp, hdraining⟩
  · simp at hd

/-- **The step lemma of the bursts.** -/
theorem fifoStep_inv {f : Fin 2} {s s' : SoundMachine} {op : FifoOp} (h : FifoInv f s)
    (hfed : FedByBursts f s op) (hs : fifoStep s op = some s') :
    FifoInv f s' ∧ collect 32 (dropped 32) ((s.fifo f).content 32) (fifoEvents f s op) = [] := by
  have hring := (fifoStep_delivers hs f h.good).ring
  have hdma : ∀ {s s' : SoundMachine} {op : DmaOp} {len : Nat}, s.withDma op = some s' →
      NoRequest (fifoChannel f) op → RequestGood (fifoChannel f) len s.dma →
        RequestGood (fifoChannel f) len s'.dma :=
    fun hstep hop h => h.dmaStep hop (withDma_eq_some hstep).2.2.2
  -- a step that writes nothing
  have hquiet : (∀ x, .write x ∉ fifoEvents f s op) →
      RequestGood (fifoChannel f) (s.fifo f).len s'.dma →
      FifoInv f s' ∧ collect 32 (dropped 32) ((s.fifo f).content 32) (fifoEvents f s op) = [] :=
    fun hwrite hrequest =>
      ⟨⟨hring.good, hrequest.mono (hring.len_le hwrite)⟩, dropped_eq_nil hwrite _⟩
  cases op with
  | store width offset value =>
      refine hquiet (fun x hx => ?_) ?_
      · obtain ⟨values, src, hop, -⟩ := hfed ⟨x, hx⟩
        cases hop
      · obtain ⟨-, hs⟩ := Option.ite_none_right_eq_some.mp hs
        obtain rfl := Option.some.inj hs
        exact ioStore_request width offset value h.request
  | timer timer =>
      obtain ⟨hdrained, hs⟩ := Option.ite_none_right_eq_some.mp hs
      obtain rfl := Option.some.inj hs
      have hwrite : ∀ x, .write x ∉ fifoEvents f s (.timer timer) := by
        intro x hx
        simp only [fifoEvents] at hx
        split at hx <;> simp at hx
      refine ⟨⟨hring.good, ?_⟩, dropped_eq_nil hwrite _⟩
      obtain ⟨hfirst, hdraining⟩ := clock_request timer 0 h.good
        (Drained.draining hdrained _) h.request
      exact (clock_request timer 1 (clock_good timer s h.good 0) hdraining hfirst).1
  | triggerAll mode =>
      obtain ⟨⟨-, hmode⟩, hs⟩ := Option.ite_none_right_eq_some.mp hs
      exact hquiet (by simp [fifoEvents]) (hdma hs (fun h => absurd h hmode) h.request)
  | check => exact hquiet (by simp [fifoEvents]) (hdma hs trivial h.request)
  | start =>
      obtain ⟨c, -, hs⟩ := Option.bind_eq_some_iff.mp hs
      split at hs
      · cases hs
      · exact hquiet (by simp [fifoEvents]) (hdma hs trivial h.request)
  | finish dest src => exact hquiet (by simp [fifoEvents]) (hdma hs trivial h.request)
  | soundDma values src =>
      obtain ⟨c, hc, hs⟩ := Option.bind_eq_some_iff.mp hs
      obtain ⟨-, hs⟩ := Option.ite_none_right_eq_some.mp hs
      obtain ⟨started, hstart, hs⟩ := Option.bind_eq_some_iff.mp hs
      by_cases hwrite : ∃ x, .write x ∈ fifoEvents f s (.soundDma values src)
      · obtain ⟨-, -, -, hnext, hspecial⟩ := hfed hwrite
        obtain ⟨hhalf, hstarted⟩ := soundDma_request h hstart hnext hspecial
        refine ⟨⟨hring.good, ?_⟩, ?_⟩
        · have hend := hdma hs trivial (storeAt_request _ _ hstarted)
          exact hend.mono hring.good.len
        · obtain ⟨x, hx⟩ := hwrite
          rw [fifoEvents, hc] at hx ⊢
          obtain ⟨bytes, hbytes, heq⟩ := burst_eq hx
          rw [List.length_ofFn] at hbytes
          simp only [heq]
          refine (collect_dropped_writes ?_).1
          rw [RingBuf.length_content]
          omega
      · refine hquiet (fun x hx => hwrite ⟨x, hx⟩) ?_
        exact hdma hs trivial (storeAt_request _ _ (hdma hstart trivial h.request))

/-- What a run is for a fifo. -/
def fifoHistory (f : Fin 2) (steps : List (SoundMachine × FifoOp × SoundMachine)) :
    List (Event (BitVec 8)) :=
  steps.flatMap fun x => fifoEvents f x.1 x.2.1

theorem soundReset_good (f : Fin 2) : (soundReset.fifo f).Good 32 :=
  ⟨Nat.zero_lt_succ _, Nat.zero_le _⟩

/-- The run lemma. -/
theorem run_delivers {s : SoundMachine} {steps : List (SoundMachine × FifoOp × SoundMachine)}
    (h : Trace fifoStep soundReset steps s) (f : Fin 2) :
    Delivers f soundReset s (fifoHistory f steps) := by
  induction h with
  | nil => exact .refl (soundReset_good f) rfl rfl
  | snoc _ hstep ih =>
      rw [fifoHistory, List.flatMap_append, List.flatMap_singleton]
      exact ih.trans (fifoStep_delivers hstep f ih.ring.good)

/-- The run lemma of the bursts. -/
theorem run_fed {s : SoundMachine} {steps : List (SoundMachine × FifoOp × SoundMachine)}
    (h : Trace fifoStep soundReset steps s) {f : Fin 2}
    (hfed : ∀ x ∈ steps, FedByBursts f x.1 x.2.1) :
    FifoInv f s ∧ collect 32 (dropped 32) [] (fifoHistory f steps) = [] := by
  induction h with
  | nil => exact ⟨⟨soundReset_good f, .of_not_queued fun h => by cases h⟩, rfl⟩
  | snoc htrace hstep ih =>
      rw [List.forall_mem_append, List.forall_mem_singleton] at hfed
      obtain ⟨hinv, hdropped⟩ := ih hfed.1
      obtain ⟨hinv', hlast⟩ := fifoStep_inv hinv hfed.2 hstep
      refine ⟨hinv', ?_⟩
      have hcontent := (run_delivers htrace f).ring.content
      rw [hcontent] at hlast
      rw [fifoHistory, List.flatMap_append, List.flatMap_singleton, collect_append]
      exact List.append_eq_nil_iff.mpr ⟨hdropped, hlast⟩

/-- **The fifo law.**  In every run from power-on the ring of a fifo stays in bounds.  The bytes
delivered since the last reset, and those left, are the bytes written since that found the queue
not full, in order; the latch holds the last byte delivered.  If the fifo is fed by the sound DMA of
its channel on request only, no byte is dropped. -/
theorem fifo_law {s : SoundMachine} {steps : List (SoundMachine × FifoOp × SoundMachine)}
    (h : Trace fifoStep soundReset steps s) (f : Fin 2) :
    ((s.fifo f).head < 32 ∧ (s.fifo f).len ≤ 32) ∧
      collect 32 given [] (sinceReset (fifoHistory f steps)) ++ (s.fifo f).content 32 =
        collect 32 (taken 32) [] (sinceReset (fifoHistory f steps)) ∧
      s.sampleAb f = (collect 32 given [] (fifoHistory f steps)).getLastD 0 ∧
      ((∀ x ∈ steps, FedByBursts f x.1 x.2.1) →
        collect 32 (dropped 32) [] (fifoHistory f steps) = []) := by
  obtain ⟨⟨hgood, hcontent⟩, hlatch⟩ := run_delivers h f
  refine ⟨⟨hgood.head, hgood.len⟩, ?_, hlatch, fun hfed => (run_fed h hfed).2⟩
  rw [hcontent]
  exact given_sinceReset _

/-- A step that writes nothing to the fifo. -/
theorem FedByBursts.of_quiet {f : Fin 2} {s : SoundMachine} {op : FifoOp}
    (h : ∀ x, .write x ∉ fifoEvents f s op) : FedByBursts f s op :=
  fun ⟨x, hx⟩ => absurd hx (h x)

/-- Channel 1 is pointed at the first fifo and enabled, the timer asks for a refill, gets it, and
reads a byte. -/
def refillOps : List FifoOp :=
  [.store .io32 0xC0 0x040000A0#32, .store .io32 0xC4 0xB2000000#32, .timer 0, .check,
    .soundDma (fun _ => 0x04030201) 0, .timer 0]

/-- **Nothing of it is dropped.** -/
theorem refillOps_kept : ∃ steps s, Trace fifoStep soundReset steps s ∧
    steps.map (·.2.1) = refillOps ∧ s.sampleAb 0 = 1 ∧ (s.fifo 0).len = 15 ∧
      collect 32 (dropped 32) [] (fifoHistory 0 steps) = [] := by
  have htrace : ∃ steps s, Trace fifoStep soundReset steps s ∧ steps.map (·.2.1) = refillOps ∧
      s.sampleAb 0 = 1 ∧ (s.fifo 0).len = 15 ∧ ∀ x ∈ steps, FedByBursts 0 x.1 x.2.1 := by
    refine ⟨_, _, .snoc (a := .timer 0)
      (.snoc (a := .soundDma (fun _ => 0x04030201) 0)
        (.snoc (a := .check)
          (.snoc (a := .timer 0)
            (.snoc (a := .store .io32 0xC4 0xB2000000#32)
              (.snoc (a := .store .io32 0xC0 0x040000A0#32) .nil rfl) rfl) rfl) rfl) rfl) rfl,
      rfl, by decide +kernel, by decide +kernel, ?_⟩
    simp only [List.forall_mem_append, List.forall_mem_singleton]
    refine ⟨⟨⟨⟨⟨⟨by simp, ?_⟩, ?_⟩, ?_⟩, ?_⟩, ?_⟩, ?_⟩
    · exact .of_quiet fun x => List.not_mem_nil
    · exact .of_quiet fun x => List.not_mem_nil
    · exact .of_quiet fun x => by simp [fifoEvents]
    · exact .of_quiet fun x => List.not_mem_nil
    · exact fun _ => ⟨_, _, rfl, by decide +kernel, by decide +kernel⟩
    · exact .of_quiet fun x => by simp [fifoEvents]
  obtain ⟨steps, s, h, hops, hlatch, hlen, hfed⟩ := htrace
  exact ⟨steps, s, h, hops, hlatch, hlen, (fifo_law h 0).2.2.2 hfed⟩
end AdvancedSlop
