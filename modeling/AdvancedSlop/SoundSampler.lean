/-
# The hand-off of sound samples

`SoundSampler`: the cpu thread pushes samples into one queue while the audio thread copies the
other one, and parks when both are full.

* `SoundSampler.push`, `SoundSampler.consume` : the two critical sections;
* `soundStep` : the steps of the two threads, in any order;
* `SoundSampler.queued` : the samples that were not copied yet;
* `sound_handoff_law` : what is pushed is what is copied, given up and queued, in order;
* `fastSamples_discarded` : above full speed samples are discarded.
-/
import Mathlib.Data.Fin.VecNotation
import AdvancedSlop.TransitionSystem

namespace AdvancedSlop

open TransitionSystem

/-! ## The queues -/

/-- `SAMPLE_BUFFER_SIZE`. -/
def sampleBufferSize : Nat := 32768 * 1024 / 48000

/-- `SAMPLE_LIMITS`, by the framelimit: off, 100%, 125%, 150%, 175%, 200%, 250%, 300%, 400% and
500%. -/
def sampleLimit : Fin 10 → Nat :=
  ![sampleBufferSize, sampleBufferSize, sampleBufferSize * 125 / 100, sampleBufferSize * 150 / 100,
    sampleBufferSize * 175 / 100, sampleBufferSize * 200 / 100, sampleBufferSize * 250 / 100,
    sampleBufferSize * 3, sampleBufferSize * 4, sampleBufferSize * 5]

theorem sampleLimit_pos (framelimit : Fin 10) : 0 < sampleLimit framelimit := by
  revert framelimit
  decide

/-- A queue.  Its size goes on counting when the buffer is full. -/
structure SampleQueue where
  queue : Nat → UInt32
  size : Nat

namespace SampleQueue

/-- One more sample. -/
def push (sample : UInt32) (q : SampleQueue) : SampleQueue where
  queue := if q.size < sampleBufferSize then Function.update q.queue q.size sample else q.queue
  size := q.size + 1

/-- The samples that are copied out of the queue. -/
def samples (q : SampleQueue) : List UInt32 :=
  (List.range (min q.size sampleBufferSize)).map q.queue

theorem samples_of_size {q : SampleQueue} (h : q.size = 0) : q.samples = [] := by
  rw [samples, h, Nat.zero_min, List.range_zero, List.map_nil]

/-- A full queue drops the sample. -/
theorem samples_push (sample : UInt32) (q : SampleQueue) :
    (q.push sample).samples =
      q.samples ++ if q.size < sampleBufferSize then [sample] else [] := by
  unfold samples push
  dsimp only
  split_ifs with h
  · rw [Nat.min_eq_left (Nat.succ_le_of_lt h), Nat.min_eq_left h.le, List.range_succ,
      List.map_append, List.map_singleton, Function.update_self]
    congr 1
    refine List.map_congr_left fun i hi => ?_
    exact Function.update_of_ne (List.mem_range.mp hi).ne _ _
  · rw [Nat.min_eq_right (by omega), Nat.min_eq_right (by omega), List.append_nil]

end SampleQueue

/-! ## The sampler -/

/-- The fields of `SoundSampler` the two threads share.  `canSample` is what the condition variable
guards. -/
structure SoundSampler where
  queues : Fin 2 → SampleQueue
  busyQueue : Fin 2
  readyQueue : Fin 2
  waiting : Bool
  canSample : Bool

namespace SoundSampler

/-- `SoundSampler::new`. -/
def new : SoundSampler where
  queues _ := ⟨fun _ => 0, 0⟩
  busyQueue := 0
  readyQueue := 0
  waiting := false
  canSample := false

/-- Empties a queue. -/
def clear (q : Fin 2) (s : SoundSampler) : SoundSampler :=
  { s with queues := Function.update s.queues q { s.queues q with size := 0 } }

/-- One more sample in the busy queue. -/
def store (sample : UInt32) (s : SoundSampler) : SoundSampler :=
  { s with queues := Function.update s.queues s.busyQueue ((s.queues s.busyQueue).push sample) }

/-- Notifies the condition variable.  With audio stretching nobody waits on it. -/
def notify (audioStretching : Bool) (s : SoundSampler) : SoundSampler :=
  { s with canSample := s.canSample || !audioStretching }

/-- The critical section of `push`, and whether the cpu thread parks behind it. -/
def push (sample : UInt32) (framelimit : Fin 10) (audioStretching : Bool) (s : SoundSampler) :
    SoundSampler × Bool :=
  let s := s.store sample
  if sampleLimit framelimit ≤ (s.queues s.busyQueue).size then
    let s := s.notify audioStretching
    let other := s.busyQueue ^^^ 1
    if framelimit ≠ 0 ∧ sampleLimit framelimit ≤ (s.queues other).size then
      ({ s with waiting := true }, true)
    else ({ s.clear other with readyQueue := s.busyQueue, busyQueue := other }, false)
  else (s, false)

/-- The critical section of `consume`: the samples it copies, and whether it unparks the cpu
thread. -/
def consume (s : SoundSampler) : SoundSampler × List UInt32 × Bool :=
  let readyQueue := s.readyQueue
  let copied := (s.queues readyQueue).samples
  let s := { s.clear readyQueue with readyQueue := s.busyQueue }
  if s.waiting then ({ s with waiting := false, busyQueue := readyQueue }, copied, true)
  else (s, copied, false)

end SoundSampler

/-! ## The threads -/

/-- The two threads: whether the cpu thread is parked, its token, and whether the audio thread has
waited for samples. -/
structure SoundThreads where
  sampler : SoundSampler
  parked : Bool
  token : Bool
  waited : Bool

/-- The threads at the start. -/
def SoundThreads.new : SoundThreads where
  sampler := SoundSampler.new
  parked := false
  token := false
  waited := false

/-- The steps of the threads. -/
inductive SoundOp
  | push (sample : UInt32) (framelimit : Fin 10) (audioStretching : Bool)
  | unparked
  | waitForSamples
  | timedOut
  | consume (audioStretching : Bool)

/-- One step.  Only `consume` unparks the cpu thread.  With audio stretching the audio thread does
not wait for samples. -/
def soundStep (t : SoundThreads) : SoundOp → Option SoundThreads
  | .push sample framelimit audioStretching =>
      if t.parked then none
      else
        let r := t.sampler.push sample framelimit audioStretching
        some { t with sampler := r.1, parked := r.2 }
  | .unparked =>
      if t.parked ∧ t.token then some { t with parked := false, token := false } else none
  | .waitForSamples =>
      if t.sampler.canSample ∧ ¬ t.waited then
        some { t with sampler := { t.sampler with canSample := false }, waited := true }
      else none
  | .timedOut => if t.sampler.canSample ∨ t.waited then none else some t
  | .consume audioStretching =>
      if t.waited = audioStretching then none
      else
        let r := t.sampler.consume
        some { t with sampler := r.1, token := t.token || r.2.2, waited := false }

/-! ## What flows -/

namespace SoundSampler

/-- The samples that were not copied yet. -/
def queued (s : SoundSampler) : List UInt32 :=
  (s.queues (s.busyQueue ^^^ 1)).samples ++ (s.queues s.busyQueue).samples

/-- The sample a push keeps: a full queue drops it. -/
def kept (sample : UInt32) (s : SoundSampler) : List UInt32 :=
  if (s.queues s.busyQueue).size < sampleBufferSize then [sample] else []

/-- A push fills the busy queue up to the limit. -/
def Fills (framelimit : Fin 10) (s : SoundSampler) : Prop :=
  sampleLimit framelimit ≤ (s.queues s.busyQueue).size + 1

/-- A push that fills the busy queue waits for the other one. -/
def Waits (framelimit : Fin 10) (s : SoundSampler) : Prop :=
  framelimit ≠ 0 ∧ sampleLimit framelimit ≤ (s.queues (s.busyQueue ^^^ 1)).size

instance (framelimit : Fin 10) (s : SoundSampler) : Decidable (s.Fills framelimit) :=
  inferInstanceAs (Decidable (_ ≤ _))

instance (framelimit : Fin 10) (s : SoundSampler) : Decidable (s.Waits framelimit) :=
  inferInstanceAs (Decidable (_ ∧ _))

/-- The samples a push gives up: those of the other queue, which it takes over unread. -/
def givenUp (framelimit : Fin 10) (s : SoundSampler) : List UInt32 :=
  if s.Fills framelimit ∧ ¬ s.Waits framelimit then (s.queues (s.busyQueue ^^^ 1)).samples else []

/-- The other queue is empty unless it is the one that is ready. -/
def Handed (s : SoundSampler) : Prop :=
  s.readyQueue = s.busyQueue → (s.queues (s.busyQueue ^^^ 1)).size = 0

end SoundSampler

theorem other_ne (q : Fin 2) : q ^^^ 1 ≠ q := by
  revert q
  decide

theorem other_other (q : Fin 2) : q ^^^ 1 ^^^ 1 = q := by
  revert q
  decide

theorem eq_other {q r : Fin 2} (h : r ≠ q) : r = q ^^^ 1 := by
  revert h q r
  decide

namespace SoundSampler

variable {s : SoundSampler} {sample : UInt32} {framelimit : Fin 10} {audioStretching : Bool}

theorem store_busy (sample : UInt32) (s : SoundSampler) :
    (s.store sample).queues s.busyQueue = (s.queues s.busyQueue).push sample :=
  Function.update_self _ _ _

theorem store_other (sample : UInt32) (s : SoundSampler) :
    (s.store sample).queues (s.busyQueue ^^^ 1) = s.queues (s.busyQueue ^^^ 1) :=
  Function.update_of_ne (other_ne s.busyQueue) _ _

theorem clear_self (q : Fin 2) (s : SoundSampler) : ((s.clear q).queues q).size = 0 := by
  rw [clear]
  show (Function.update s.queues q _ q).size = 0
  rw [Function.update_self]

theorem clear_of_ne {q r : Fin 2} (h : r ≠ q) (s : SoundSampler) :
    (s.clear q).queues r = s.queues r :=
  Function.update_of_ne h _ _

/-- A push that does not fill the busy queue. -/
theorem push_of_not_fills (h : ¬ s.Fills framelimit) :
    s.push sample framelimit audioStretching = (s.store sample, false) := by
  rw [Fills] at h
  refine if_neg ?_
  show ¬ sampleLimit framelimit ≤ ((s.store sample).queues s.busyQueue).size
  rw [store_busy]
  exact h

/-- A push that fills it and waits. -/
theorem push_of_waits (h : s.Fills framelimit) (hwaits : s.Waits framelimit) :
    s.push sample framelimit audioStretching =
      ({ (s.store sample).notify audioStretching with waiting := true }, true) := by
  refine (if_pos ?_).trans (if_pos ?_)
  · show sampleLimit framelimit ≤ ((s.store sample).queues s.busyQueue).size
    rw [store_busy]
    exact h
  · show _ ∧ sampleLimit framelimit ≤ ((s.store sample).queues (s.busyQueue ^^^ 1)).size
    rw [store_other]
    exact hwaits

/-- A push that fills it and goes on with the other queue. -/
theorem push_of_swaps (h : s.Fills framelimit) (hwaits : ¬ s.Waits framelimit) :
    s.push sample framelimit audioStretching =
      ({ ((s.store sample).notify audioStretching).clear (s.busyQueue ^^^ 1) with
        readyQueue := s.busyQueue, busyQueue := s.busyQueue ^^^ 1 }, false) := by
  refine (if_pos ?_).trans (if_neg ?_)
  · show sampleLimit framelimit ≤ ((s.store sample).queues s.busyQueue).size
    rw [store_busy]
    exact h
  · show ¬ (_ ∧ sampleLimit framelimit ≤ ((s.store sample).queues (s.busyQueue ^^^ 1)).size)
    rw [store_other]
    exact hwaits

/-- **The flow of a push.** -/
theorem push_flow (sample : UInt32) (framelimit : Fin 10) (audioStretching : Bool)
    (s : SoundSampler) :
    s.queued ++ s.kept sample =
      s.givenUp framelimit ++ (s.push sample framelimit audioStretching).1.queued := by
  have hbusy : (s.queues s.busyQueue).samples ++ s.kept sample =
      ((s.store sample).queues s.busyQueue).samples := by
    rw [store_busy, SampleQueue.samples_push, kept]
  have hother := store_other sample s
  rw [queued, List.append_assoc, hbusy]
  by_cases hfills : s.Fills framelimit
  · by_cases hwaits : s.Waits framelimit
    · rw [push_of_waits hfills hwaits, givenUp, if_neg fun h => h.2 hwaits, List.nil_append]
      show _ = ((s.store sample).queues (s.busyQueue ^^^ 1)).samples ++ _
      rw [hother]
      rfl
    · rw [push_of_swaps hfills hwaits, givenUp, if_pos ⟨hfills, hwaits⟩]
      congr 1
      show _ = ((clear _ _).queues (s.busyQueue ^^^ 1 ^^^ 1)).samples ++
        ((clear _ _).queues (s.busyQueue ^^^ 1)).samples
      rw [other_other, SampleQueue.samples_of_size (clear_self _ _), List.append_nil,
        clear_of_ne (other_ne s.busyQueue).symm]
      rfl
  · rw [push_of_not_fills hfills, givenUp, if_neg fun h => hfills h.1, List.nil_append]
    show _ = ((s.store sample).queues (s.busyQueue ^^^ 1)).samples ++ _
    rw [hother]
    rfl

/-- A consume that wakes the cpu thread, which goes on with the queue it empties. -/
theorem consume_of_waiting (h : s.waiting = true) :
    s.consume = ({ s.clear s.readyQueue with
      readyQueue := s.busyQueue, waiting := false, busyQueue := s.readyQueue },
      (s.queues s.readyQueue).samples, true) :=
  if_pos h

theorem consume_of_running (h : s.waiting = false) :
    s.consume = ({ s.clear s.readyQueue with readyQueue := s.busyQueue },
      (s.queues s.readyQueue).samples, false) :=
  if_neg (Bool.eq_false_iff.mp h)

/-- **The flow of a consume.** -/
theorem consume_flow (hhanded : s.Handed)
    (hwaiting : s.waiting = true → s.readyQueue ≠ s.busyQueue) :
    s.queued = s.consume.2.1 ++ s.consume.1.queued := by
  have hne := other_ne s.busyQueue
  cases hw : s.waiting with
  | true =>
      obtain hready := eq_other (hwaiting hw)
      rw [consume_of_waiting hw]
      show _ = (s.queues s.readyQueue).samples ++
        (((s.clear s.readyQueue).queues (s.readyQueue ^^^ 1)).samples ++
          ((s.clear s.readyQueue).queues s.readyQueue).samples)
      rw [SampleQueue.samples_of_size (clear_self _ _), List.append_nil, hready, other_other,
        clear_of_ne hne.symm]
      rfl
  | false =>
      rw [consume_of_running hw]
      show _ = (s.queues s.readyQueue).samples ++
        (((s.clear s.readyQueue).queues (s.busyQueue ^^^ 1)).samples ++
          ((s.clear s.readyQueue).queues s.busyQueue).samples)
      by_cases hready : s.readyQueue = s.busyQueue
      · rw [hready, SampleQueue.samples_of_size (clear_self _ _), List.append_nil,
          clear_of_ne hne, queued, SampleQueue.samples_of_size (hhanded hready), List.append_nil]
        rfl
      · rw [eq_other hready, SampleQueue.samples_of_size (clear_self _ _), List.nil_append,
          clear_of_ne hne.symm]
        rfl

end SoundSampler

/-! ## The invariants -/

/-- What holds between two steps, at any framelimits. -/
structure SoundInv (t : SoundThreads) : Prop where
  handed : t.sampler.Handed
  waiting : t.sampler.waiting = true →
    t.sampler.readyQueue ≠ t.sampler.busyQueue ∧ t.parked = true
  token : t.token = true → t.parked = true ∧ t.sampler.waiting = false

theorem soundInv_new : SoundInv .new where
  handed _ := rfl
  waiting h := by cases h
  token h := by cases h

/-- What holds besides at one framelimit other than off. -/
structure LimitInv (framelimit : Fin 10) (s : SoundSampler) : Prop where
  full : s.readyQueue ≠ s.busyQueue →
    (s.queues (s.busyQueue ^^^ 1)).size = sampleLimit framelimit
  waits : s.waiting = true → (s.queues s.busyQueue).size = sampleLimit framelimit
  runs : s.waiting = false → (s.queues s.busyQueue).size < sampleLimit framelimit

theorem limitInv_new (framelimit : Fin 10) : LimitInv framelimit .new where
  full h := absurd rfl h
  waits h := by cases h
  runs _ := sampleLimit_pos framelimit

namespace SoundSampler

variable {s : SoundSampler} {sample : UInt32} {framelimit : Fin 10} {audioStretching : Bool}

theorem push_handed (h : s.Handed) : (s.push sample framelimit audioStretching).1.Handed := by
  by_cases hfills : s.Fills framelimit
  · by_cases hwaits : s.Waits framelimit
    · rw [push_of_waits hfills hwaits]
      intro hready
      show ((s.store sample).queues (s.busyQueue ^^^ 1)).size = 0
      rw [store_other]
      exact h hready
    · rw [push_of_swaps hfills hwaits]
      intro hready
      exact absurd hready.symm (other_ne s.busyQueue)
  · rw [push_of_not_fills hfills]
    intro hready
    show ((s.store sample).queues (s.busyQueue ^^^ 1)).size = 0
    rw [store_other]
    exact h hready

/-- A push that waits has filled both queues. -/
theorem push_waiting (sample : UInt32) (framelimit : Fin 10) (audioStretching : Bool)
    (h : s.Handed) (hrunning : s.waiting = false) :
    (s.push sample framelimit audioStretching).1.waiting =
        (s.push sample framelimit audioStretching).2 ∧
      ((s.push sample framelimit audioStretching).2 = true →
        (s.push sample framelimit audioStretching).1.readyQueue ≠
          (s.push sample framelimit audioStretching).1.busyQueue) := by
  by_cases hfills : s.Fills framelimit
  · by_cases hwaits : s.Waits framelimit
    · rw [push_of_waits hfills hwaits]
      refine ⟨rfl, fun _ hready => ?_⟩
      have hzero := h hready
      have hfull := hwaits.2
      have hpos := sampleLimit_pos framelimit
      omega
    · rw [push_of_swaps hfills hwaits]
      exact ⟨hrunning, fun hbad => by cases hbad⟩
  · rw [push_of_not_fills hfills]
    exact ⟨hrunning, fun hbad => by cases hbad⟩

theorem consume_handed (h : s.Handed) (hwaiting : s.waiting = true → s.readyQueue ≠ s.busyQueue) :
    s.consume.1.Handed := by
  cases hw : s.waiting with
  | true =>
      rw [consume_of_waiting hw]
      intro hready
      exact absurd hready.symm (hwaiting hw)
  | false =>
      rw [consume_of_running hw]
      intro _
      show ((s.clear s.readyQueue).queues (s.busyQueue ^^^ 1)).size = 0
      by_cases hready : s.readyQueue = s.busyQueue
      · rw [hready, clear_of_ne (other_ne s.busyQueue)]
        exact h hready
      · rw [eq_other hready]
        exact clear_self _ _

/-- At one framelimit no queue is given up. -/
theorem givenUp_eq_nil (h : s.Handed) (hlimit : LimitInv framelimit s) (hon : framelimit ≠ 0) :
    s.givenUp framelimit = [] := by
  rw [givenUp]
  split_ifs with hswaps
  · have hready : s.readyQueue = s.busyQueue := by
      by_contra hne
      exact hswaps.2 ⟨hon, (hlimit.full hne).ge⟩
    exact SampleQueue.samples_of_size (h hready)
  · rfl

/-- **A push at one framelimit.** -/
theorem push_limitInv (hlimit : LimitInv framelimit s) (hrunning : s.waiting = false) :
    LimitInv framelimit (s.push sample framelimit audioStretching).1 := by
  have hroom := hlimit.runs hrunning
  have hbusy : ((s.store sample).queues s.busyQueue).size = (s.queues s.busyQueue).size + 1 := by
    rw [store_busy]
    rfl
  have hother := store_other sample s
  by_cases hfills : s.Fills framelimit
  · have hfull : ((s.store sample).queues s.busyQueue).size = sampleLimit framelimit := by
      rw [Fills] at hfills
      omega
    by_cases hwaits : s.Waits framelimit
    · rw [push_of_waits hfills hwaits]
      refine ⟨fun hready => ?_, fun _ => hfull, fun hbad => by cases hbad⟩
      show ((s.store sample).queues (s.busyQueue ^^^ 1)).size = _
      rw [hother]
      exact hlimit.full hready
    · rw [push_of_swaps hfills hwaits]
      refine ⟨fun _ => ?_, fun hbad => ?_, fun _ => ?_⟩
      · show ((clear _ _).queues (s.busyQueue ^^^ 1 ^^^ 1)).size = _
        rw [other_other, clear_of_ne (other_ne s.busyQueue).symm]
        exact hfull
      · exact absurd (hrunning.symm.trans hbad) Bool.false_ne_true
      · show ((clear _ _).queues (s.busyQueue ^^^ 1)).size < _
        rw [clear_self]
        exact sampleLimit_pos framelimit
  · rw [push_of_not_fills hfills]
    refine ⟨fun hready => ?_, fun hbad => ?_, fun _ => ?_⟩
    · show ((s.store sample).queues (s.busyQueue ^^^ 1)).size = _
      rw [hother]
      exact hlimit.full hready
    · exact absurd (hrunning.symm.trans hbad) Bool.false_ne_true
    · show ((s.store sample).queues s.busyQueue).size < _
      rw [Fills] at hfills
      omega

/-- **A consume at one framelimit.** -/
theorem consume_limitInv (hlimit : LimitInv framelimit s)
    (hwaiting : s.waiting = true → s.readyQueue ≠ s.busyQueue) :
    LimitInv framelimit s.consume.1 := by
  cases hw : s.waiting with
  | true =>
      have hready := eq_other (hwaiting hw)
      rw [consume_of_waiting hw]
      refine ⟨fun _ => ?_, fun hbad => (by cases hbad), fun _ => ?_⟩
      · show ((s.clear s.readyQueue).queues (s.readyQueue ^^^ 1)).size = _
        rw [hready, other_other, clear_of_ne (other_ne s.busyQueue).symm]
        exact hlimit.waits hw
      · show ((s.clear s.readyQueue).queues s.readyQueue).size < _
        rw [clear_self]
        exact sampleLimit_pos framelimit
  | false =>
      rw [consume_of_running hw]
      refine ⟨fun hbad => absurd rfl hbad, fun hbad => ?_, fun _ => ?_⟩
      · exact absurd (hw.symm.trans hbad) Bool.false_ne_true
      · show ((s.clear s.readyQueue).queues s.busyQueue).size < _
        by_cases hready : s.readyQueue = s.busyQueue
        · rw [hready, clear_self]
          exact sampleLimit_pos framelimit
        · rw [clear_of_ne (Ne.symm hready)]
          exact hlimit.runs hw

/-- What a consume copies, and whether it wakes the cpu thread. -/
theorem consume_outputs (s : SoundSampler) :
    s.consume.2.1 = (s.queues s.readyQueue).samples ∧ s.consume.2.2 = s.waiting ∧
      s.consume.1.waiting = false := by
  cases hw : s.waiting with
  | true =>
      rw [consume_of_waiting hw]
      exact ⟨rfl, rfl, rfl⟩
  | false =>
      rw [consume_of_running hw]
      exact ⟨rfl, rfl, hw⟩

/-- **What is queued** is what the next two consumes copy. -/
theorem queued_eq_consume (h : s.Handed)
    (hwaiting : s.waiting = true → s.readyQueue ≠ s.busyQueue) :
    s.queued = s.consume.2.1 ++ s.consume.1.consume.2.1 := by
  have hhanded := consume_handed h hwaiting
  rw [consume_flow h hwaiting, (consume_outputs s.consume.1).1]
  congr 1
  cases hw : s.waiting with
  | true =>
      rw [consume_of_waiting hw, queued]
      show _ ++ ((s.clear s.readyQueue).queues s.readyQueue).samples =
        ((s.clear s.readyQueue).queues s.busyQueue).samples
      rw [SampleQueue.samples_of_size (clear_self _ _), List.append_nil, eq_other (hwaiting hw)]
      show ((clear _ _).queues (s.busyQueue ^^^ 1 ^^^ 1)).samples = _
      rw [other_other]
  | false =>
      rw [consume_of_running hw] at hhanded ⊢
      rw [queued, SampleQueue.samples_of_size (hhanded rfl), List.nil_append]
      rfl

end SoundSampler

/-! ## The law of the hand-off -/

/-- The sample of a push. -/
def pushedSamples (_ : SoundThreads) : SoundOp → List UInt32
  | .push sample _ _ => [sample]
  | _ => []

/-- The sample of a push that is kept. -/
def keptSamples (t : SoundThreads) : SoundOp → List UInt32
  | .push sample _ _ => t.sampler.kept sample
  | _ => []

/-- The samples a step copies. -/
def copiedSamples (t : SoundThreads) : SoundOp → List UInt32
  | .consume _ => t.sampler.consume.2.1
  | _ => []

/-- The samples that leave the queues: those that are copied, and those that are given up. -/
def leavingSamples (t : SoundThreads) : SoundOp → List UInt32
  | .push _ framelimit _ => t.sampler.givenUp framelimit
  | .consume _ => t.sampler.consume.2.1
  | _ => []

/-- Pushes have the framelimit. -/
def AtFramelimit (framelimit : Fin 10) (_ : SoundThreads) : SoundOp → Prop
  | .push _ f _ => f = framelimit
  | _ => True

/-- **A step** keeps the invariant, and the samples flow. -/
theorem soundStep_flow {t t' : SoundThreads} {op : SoundOp} (h : SoundInv t)
    (hstep : soundStep t op = some t') :
    SoundInv t' ∧ t.sampler.queued ++ keptSamples t op =
      leavingSamples t op ++ t'.sampler.queued := by
  have hwaiting : t.sampler.waiting = true → t.sampler.readyQueue ≠ t.sampler.busyQueue :=
    fun hw => (h.waiting hw).1
  cases op with
  | push sample framelimit audioStretching =>
      rw [soundStep] at hstep
      split_ifs at hstep with hparked
      obtain rfl := Option.some.inj hstep
      have hrunning : t.sampler.waiting = false := by
        by_contra hbad
        exact hparked (h.waiting (by simpa using hbad)).2
      obtain ⟨hparks, hfull⟩ :=
        SoundSampler.push_waiting sample framelimit audioStretching h.handed hrunning
      refine ⟨⟨SoundSampler.push_handed h.handed, fun hw => ?_, fun htoken => ?_⟩,
        SoundSampler.push_flow sample framelimit audioStretching t.sampler⟩
      · have hpark := hparks.symm.trans hw
        exact ⟨hfull hpark, hpark⟩
      · exact absurd (h.token htoken).1 hparked
  | unparked =>
      rw [soundStep] at hstep
      split_ifs at hstep with hready
      obtain rfl := Option.some.inj hstep
      refine ⟨⟨h.handed, fun hw => ?_, fun hbad => by cases hbad⟩, List.append_nil _⟩
      have hrunning := (h.token hready.2).2
      exact absurd (hrunning.symm.trans hw) Bool.false_ne_true
  | waitForSamples =>
      rw [soundStep] at hstep
      split_ifs at hstep
      obtain rfl := Option.some.inj hstep
      exact ⟨⟨h.handed, h.waiting, h.token⟩, List.append_nil _⟩
  | timedOut =>
      rw [soundStep] at hstep
      split_ifs at hstep
      obtain rfl := Option.some.inj hstep
      exact ⟨h, List.append_nil _⟩
  | consume audioStretching =>
      rw [soundStep] at hstep
      split_ifs at hstep
      obtain rfl := Option.some.inj hstep
      refine ⟨⟨SoundSampler.consume_handed h.handed hwaiting, ?_, ?_⟩,
        (List.append_nil _).trans (SoundSampler.consume_flow h.handed hwaiting)⟩
      · intro hbad
        have hrunning := (SoundSampler.consume_outputs t.sampler).2.2
        exact absurd (hrunning.symm.trans hbad) Bool.false_ne_true
      · intro htoken
        obtain ⟨-, hunparks, hrunning⟩ := SoundSampler.consume_outputs t.sampler
        refine ⟨?_, hrunning⟩
        rcases Bool.or_eq_true_iff.mp htoken with hold | hnew
        · exact (h.token hold).1
        · exact (h.waiting (hunparks.symm.trans hnew)).2

/-- **A step at one framelimit** keeps its invariant, and gives nothing up. -/
theorem soundStep_limitInv {t t' : SoundThreads} {op : SoundOp} {framelimit : Fin 10}
    (h : SoundInv t) (hlimit : LimitInv framelimit t.sampler) (hon : framelimit ≠ 0)
    (hop : AtFramelimit framelimit t op) (hstep : soundStep t op = some t') :
    LimitInv framelimit t'.sampler ∧ leavingSamples t op = copiedSamples t op := by
  cases op with
  | push sample f audioStretching =>
      obtain rfl : f = framelimit := hop
      rw [soundStep] at hstep
      split_ifs at hstep with hparked
      obtain rfl := Option.some.inj hstep
      have hrunning : t.sampler.waiting = false := by
        by_contra hbad
        exact hparked (h.waiting (by simpa using hbad)).2
      exact ⟨SoundSampler.push_limitInv hlimit hrunning,
        SoundSampler.givenUp_eq_nil h.handed hlimit hon⟩
  | unparked =>
      rw [soundStep] at hstep
      split_ifs at hstep
      obtain rfl := Option.some.inj hstep
      exact ⟨hlimit, rfl⟩
  | waitForSamples =>
      rw [soundStep] at hstep
      split_ifs at hstep
      obtain rfl := Option.some.inj hstep
      exact ⟨⟨hlimit.full, hlimit.waits, hlimit.runs⟩, rfl⟩
  | timedOut =>
      rw [soundStep] at hstep
      split_ifs at hstep
      obtain rfl := Option.some.inj hstep
      exact ⟨hlimit, rfl⟩
  | consume audioStretching =>
      rw [soundStep] at hstep
      split_ifs at hstep
      obtain rfl := Option.some.inj hstep
      exact ⟨SoundSampler.consume_limitInv hlimit fun hw => (h.waiting hw).1, rfl⟩

/-- At full speed every sample is kept. -/
theorem kept_eq_pushed {t t' : SoundThreads} {op : SoundOp} (h : SoundInv t)
    (hlimit : LimitInv 1 t.sampler) (hstep : soundStep t op = some t') :
    keptSamples t op = pushedSamples t op := by
  cases op with
  | push sample f audioStretching =>
      rw [soundStep] at hstep
      split_ifs at hstep with hparked
      have hrunning : t.sampler.waiting = false := by
        by_contra hbad
        exact hparked (h.waiting (by simpa using hbad)).2
      exact if_pos (hlimit.runs hrunning)
  | unparked => rfl
  | waitForSamples => rfl
  | timedOut => rfl
  | consume audioStretching => rfl

/-- What holds along a run at one framelimit. -/
def AtLimit (framelimit : Fin 10) (t : SoundThreads) : Prop :=
  SoundInv t ∧ LimitInv framelimit t.sampler

theorem atLimit_new (framelimit : Fin 10) : AtLimit framelimit .new :=
  ⟨soundInv_new, limitInv_new framelimit⟩

/-- **The flow at one framelimit.** -/
theorem soundStep_flow_at {t t' : SoundThreads} {op : SoundOp} {framelimit : Fin 10}
    (hon : framelimit ≠ 0) (h : AtLimit framelimit t) (hop : AtFramelimit framelimit t op)
    (hstep : soundStep t op = some t') :
    AtLimit framelimit t' ∧ t.sampler.queued ++ keptSamples t op =
      copiedSamples t op ++ t'.sampler.queued := by
  obtain ⟨hinv, hflow⟩ := soundStep_flow h.1 hstep
  obtain ⟨hlimit, hleaving⟩ := soundStep_limitInv h.1 h.2 hon hop hstep
  exact ⟨⟨hinv, hlimit⟩, hleaving ▸ hflow⟩

/-- **The flow at full speed.** -/
theorem soundStep_flow_full {t t' : SoundThreads} {op : SoundOp} (h : AtLimit 1 t)
    (hop : AtFramelimit 1 t op) (hstep : soundStep t op = some t') :
    AtLimit 1 t' ∧ t.sampler.queued ++ pushedSamples t op =
      copiedSamples t op ++ t'.sampler.queued := by
  rw [← kept_eq_pushed h.1 h.2 hstep]
  exact soundStep_flow_at (by decide) h hop hstep

/-- The samples of the steps of a run. -/
def along (samples : SoundThreads → SoundOp → List UInt32)
    (run : List (SoundThreads × SoundOp × SoundThreads)) : List UInt32 :=
  run.flatMap fun x => samples x.1 x.2.1

/-- **The law of the hand-off.** However the steps of the two threads interleave, the samples that
are kept leave the queues in order, or are queued, and the next two consumes copy what is queued.
At one framelimit other than off only consumes make samples leave; and at 100% what is copied and
what is queued are all samples that were pushed. -/
theorem sound_handoff_law (run : List (SoundThreads × SoundOp × SoundThreads)) (t : SoundThreads)
    (h : Trace soundStep .new run t) :
    along keptSamples run = along leavingSamples run ++ t.sampler.queued ∧
    t.sampler.queued = t.sampler.consume.2.1 ++ t.sampler.consume.1.consume.2.1 ∧
    (∀ framelimit ≠ 0, (∀ x ∈ run, AtFramelimit framelimit x.1 x.2.1) →
      along keptSamples run = along copiedSamples run ++ t.sampler.queued) ∧
    ((∀ x ∈ run, AtFramelimit 1 x.1 x.2.1) →
      along pushedSamples run = along copiedSamples run ++ t.sampler.queued) := by
  have hnew : SoundThreads.new.sampler.queued = [] := rfl
  have hstep : ∀ s op u, SoundInv s → True → soundStep s op = some u →
      SoundInv u ∧ s.sampler.queued ++ keptSamples s op = leavingSamples s op ++ u.sampler.queued :=
    fun s op u hI _ hstep => soundStep_flow hI hstep
  obtain ⟨hinv, hflow⟩ := h.flow hstep soundInv_new fun _ _ => trivial
  rw [hnew, List.nil_append] at hflow
  refine ⟨hflow, ?_, ?_, ?_⟩
  · exact SoundSampler.queued_eq_consume hinv.handed fun hw => (hinv.waiting hw).1
  · intro framelimit hon hat
    obtain ⟨-, hflow⟩ := h.flow (fun _ _ _ => soundStep_flow_at hon) (atLimit_new framelimit) hat
    rw [hnew, List.nil_append] at hflow
    exact hflow
  · intro hat
    obtain ⟨-, hflow⟩ := h.flow (fun _ _ _ => soundStep_flow_full) (atLimit_new 1) hat
    rw [hnew, List.nil_append] at hflow
    exact hflow

/-- Two samples, a consume and one more, at 100%. -/
def shortRun : List SoundOp := [.push 5 1 true, .push 6 1 true, .consume true, .push 7 1 true]

/-- The law along it. -/
theorem shortRun_flows : ∃ run t, Trace soundStep .new run t ∧ run.map (·.2.1) = shortRun ∧
    along pushedSamples run = along copiedSamples run ++ t.sampler.queued := by
  have hrun : (shortRun.foldlM soundStep .new).isSome := by decide
  obtain ⟨t, ht⟩ := Option.isSome_iff_exists.mp hrun
  obtain ⟨run, htrace, hmap, -⟩ := Trace.of_foldlM ht
  refine ⟨run, t, htrace, hmap, (sound_handoff_law run t htrace).2.2.2 fun x hx => ?_⟩
  have hop : x.2.1 ∈ shortRun := hmap ▸ List.mem_map_of_mem hx
  have hat : ∀ op ∈ shortRun, AtFramelimit 1 x.1 op := by
    simp [shortRun, AtFramelimit]
  exact hat _ hop

/-! ## Above full speed -/

/-- One sample more than a queue holds, at 125%. -/
def fastSamples : List SoundOp := List.replicate 700 (.push 1 2 true)

/-- **Above full speed** a queue counts on when it is full, and the sample is discarded. -/
theorem fastSamples_discarded :
    ¬ ∀ (run : List (SoundThreads × SoundOp × SoundThreads)) (t : SoundThreads)
      (framelimit : Fin 10), framelimit ≠ 0 → Trace soundStep .new run t →
        (∀ x ∈ run, AtFramelimit framelimit x.1 x.2.1) →
          along pushedSamples run = along copiedSamples run ++ t.sampler.queued := by
  intro hall
  have hrun : ((fastSamples.foldlM soundStep .new).map fun t => t.sampler.queued.length) =
      some 699 := by
    decide +kernel
  obtain ⟨t, ht, hlength⟩ := Option.map_eq_some_iff.mp hrun
  obtain ⟨run, htrace, hmap, -⟩ := Trace.of_foldlM ht
  have hops : ∀ x ∈ run, x.2.1 = .push 1 2 true := fun x hx =>
    List.eq_of_mem_replicate (hmap ▸ List.mem_map_of_mem hx)
  have hat : ∀ x ∈ run, AtFramelimit 2 x.1 x.2.1 := by
    intro x hx
    rw [hops x hx]
    exact rfl
  have hpushed : (along pushedSamples run).length = 700 := by
    have hpushes : along pushedSamples run =
        (run.map (·.2.1)).flatMap (pushedSamples .new) :=
      (List.flatMap_map ..).symm
    rw [hpushes, hmap]
    decide +kernel
  have hcopied : along copiedSamples run = [] := by
    refine List.flatMap_eq_nil_iff.mpr fun x hx => ?_
    rw [hops x hx]
    rfl
  have heq := hall run t 2 (by decide) htrace hat
  rw [hcopied, List.nil_append] at heq
  rw [heq, hlength] at hpushed
  omega

end AdvancedSlop
