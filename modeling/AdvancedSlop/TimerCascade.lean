/-
# The timer cascade

A started timer with the count-up bit counts the overflows of the timer below it.
`timers_overflow` tests the count-up bit of the overflowing timer and increments that timer's
own counter, where the bit and the counter meant are those of the timer above.

* `CascadeLaw` : what a step has to do to the counters, and which overflows it may have;
* `cascadeLaw_step_iff` : a step obeys the law exactly when it dispatches no overflow that the
  cascade would pass on;
* `cascade_law_iff` : so does every step of a run.
-/
import AdvancedSlop.Timers

namespace AdvancedSlop

open TransitionSystem

variable {D : Type*}

/-! ## The law -/

/-- The timer whose overflow event a step dispatches. -/
def TimerOp.event : TimerOp D → Option (Fin 4)
  | .overflowEvent n => some n
  | _ => none

/-- The overflow effects of a step. -/
def timerEffects (port : FifoPort D) (m : TimerMachine D) : TimerOp D → List TimerEffect
  | .overflowEvent n => (dispatchTimer port n m).1
  | _ => []

/-- The timer below `n` overflowed. -/
def OverflowedBelow (effects : List TimerEffect) (n : Fin 4) : Prop :=
  ∃ k : Fin 4, k.val + 1 = n.val ∧ .reload k ∈ effects

instance (effects : List TimerEffect) (n : Fin 4) : Decidable (OverflowedBelow effects n) :=
  inferInstanceAs (Decidable (∃ _, _))

/-- **The cascade law** of a step from `m` to `m'` with the given overflow effects, `event` being
the timer whose own overflow event it dispatches. -/
structure CascadeLaw (m m' : TimerMachine D) (effects : List TimerEffect)
    (event : Option (Fin 4)) : Prop where
  /-- A counting timer advances by one on every overflow below, and at no other time. -/
  counts : ∀ n, CountsUp n (channel m n) → CountsUp n (channel m' n) →
    (channel m' n).currentValue =
      if OverflowedBelow effects n then
        if (channel m n).currentValue = 0xFFFF then (channel m n).cntL
        else (channel m n).currentValue + 1
      else (channel m n).currentValue
  /-- A counting timer overflows exactly when that increment wraps. -/
  wraps : ∀ n, CountsUp n (channel m n) →
    (.reload n ∈ effects ↔
      OverflowedBelow effects n ∧ (channel m n).currentValue = 0xFFFF)
  /-- Any other timer overflows exactly when it is started and its event is dispatched. -/
  others : ∀ n, ¬ CountsUp n (channel m n) →
    (.reload n ∈ effects ↔ event = some n ∧ cntStart (channel m n).cntH = true)
  /-- The overflow of a timer that runs by itself leaves its reload value in its counter. -/
  own : ∀ n, Running m n → .reload n ∈ effects → (channel m' n).currentValue = (channel m n).cntL
  /-- Each overflow has all its effects, the lower timer's first. -/
  effects_eq : effects = (List.finRange 4).flatMap fun n =>
    if .reload n ∈ effects then overflowEffects n (channel m n).cntH else []

/-- The step passes nothing up the cascade: the timer whose overflow it dispatches is stopped,
or has its own count-up bit clear and no counting timer above it. -/
def CascadeFree (m : TimerMachine D) : TimerOp D → Prop
  | .overflowEvent n =>
      cntStart (channel m n).cntH = true →
        cntCountUp (channel m n).cntH = false ∧
          ∀ k : Fin 4, n.val + 1 = k.val → ¬ CountsUp k (channel m k)
  | _ => True

/-! ## Steps without an overflow -/

/-- A step without effects obeys the law when no counting timer's counter moves. -/
theorem CascadeLaw.quiet {m m' : TimerMachine D} {event : Option (Fin 4)}
    (hevent : ∀ n, event = some n → cntStart (channel m n).cntH = false)
    (h : ∀ n, CountsUp n (channel m n) →
      (channel m' n).currentValue = (channel m n).currentValue) :
    CascadeLaw m m' [] event where
  counts n hn _ := by
    rw [if_neg (by simp [OverflowedBelow])]
    exact h n hn
  wraps n _ := by simp [OverflowedBelow]
  others n _ := by
    constructor
    · intro hmem
      simp at hmem
    · rintro ⟨he, hs⟩
      rw [hevent n he] at hs
      simp at hs
  own n _ hmem := by simp at hmem
  effects_eq := by simp

/-- The channel a control write leaves. -/
theorem channel_timersSetCntH (n : Fin 4) (mask value : BitVec 16) (m : TimerMachine D) :
    ∃ scheduled, channel (timersSetCntH n mask value m) n =
      { (writeCntH n mask value (channel m n)).1 with scheduledCycle := scheduled } := by
  unfold timersSetCntH
  simp only
  split
  · exact ⟨_, channel_setChannel m n _⟩
  · exact ⟨_, channel_setChannel m n _⟩

theorem channel_timersSetCntH_of_ne {n k : Fin 4} (h : k ≠ n) (mask value : BitVec 16)
    (m : TimerMachine D) : channel (timersSetCntH n mask value m) k = channel m k := by
  unfold timersSetCntH
  simp only
  split
  · exact channel_setChannel_of_ne m _ h
  · exact channel_setChannel_of_ne m _ h

/-- A counting timer's counter moves in overflow steps only. -/
theorem counting_value {port : FifoPort D} {m m' : TimerMachine D} {op : TimerOp D}
    (hs : timerStep port m op = some m') (hop : op.event = none) {n : Fin 4}
    (hn : CountsUp n (channel m n)) :
    (channel m' n).currentValue = (channel m n).currentValue := by
  cases op with
  | setCntL k mask value =>
      obtain rfl := Option.some.inj hs
      by_cases hk : n = k
      · subst hk
        rw [timersSetCntL, channel_setChannel]
      · rw [timersSetCntL, channel_setChannel_of_ne _ _ hk]
  | setCntH k mask value =>
      obtain rfl := Option.some.inj hs
      by_cases hk : n = k
      · subst hk
        obtain ⟨scheduled, hch⟩ := channel_timersSetCntH n mask value m
        rw [hch]
        simp [writeCntH, hn.1]
      · rw [channel_timersSetCntH_of_ne hk]
  | getCntL k =>
      obtain rfl := Option.some.inj hs
      by_cases hk : n = k
      · subst hk
        simp [timersGetCntL, hn.2]
      · simp only [timersGetCntL]
        rw [channel_setChannel_of_ne _ _ hk]
  | addCycles cycles =>
      obtain rfl := Option.some.inj hs
      rfl
  | overflowEvent k => simp [TimerOp.event] at hop
  | rebase =>
      simp only [timerStep] at hs
      split at hs
      · obtain rfl := Option.some.inj hs
        rfl
      · simp at hs
  | elsewhere t =>
      simp only [timerStep] at hs
      split at hs
      · rename_i hsame
        obtain rfl := Option.some.inj hs
        rw [(hsame.2 n).1]
      · simp at hs

/-! ## Overflow steps -/

/-- The effects of one overflow reload its timer, and no other. -/
theorem reload_mem_overflowEffects {k n : Fin 4} {cntH : BitVec 16} :
    .reload k ∈ overflowEffects n cntH ↔ k = n := by
  unfold overflowEffects
  split <;> split <;> simp

/-- An overflow with the count-up bit clear is the body alone. -/
theorem dispatchTimer_of_not_countUp (port : FifoPort D) {n : Fin 4} {m : TimerMachine D}
    (hs : cntStart (channel m n).cntH = true) (hc : cntCountUp (channel m n).cntH = false) :
    dispatchTimer port n m =
      (overflowEffects n (channel m n).cntH, overflowBody port n (beginOverflow n m)) := by
  rcases dispatchTimer_cases port n m with ⟨h, -⟩ | ⟨-, ⟨-, hr⟩ | ⟨h, -⟩⟩
  · simp [hs] at h
  · exact hr
  · simp [hc] at h

/-- The overflow of a stopped timer does nothing. -/
theorem dispatchTimer_of_stopped (port : FifoPort D) {n : Fin 4} {m : TimerMachine D}
    (hs : cntStart (channel m n).cntH = false) :
    dispatchTimer port n m = ([], beginOverflow n m) := by
  rcases dispatchTimer_cases port n m with ⟨-, hr⟩ | ⟨h, -⟩
  · exact hr
  · simp [hs] at h

/-- The overflow of a started timer reloads it. -/
theorem reload_mem_dispatchTimer (port : FifoPort D) {n : Fin 4} {m : TimerMachine D}
    (hs : cntStart (channel m n).cntH = true) : .reload n ∈ (dispatchTimer port n m).1 := by
  have hown : .reload n ∈ overflowEffects n (channel m n).cntH :=
    reload_mem_overflowEffects.mpr rfl
  rcases dispatchTimer_cases port n m with
    ⟨h, -⟩ | ⟨-, ⟨-, hr⟩ | ⟨-, _, -, ⟨-, hr⟩ | ⟨-, hr⟩⟩⟩
  · simp [hs] at h
  · rw [hr]
    exact hown
  · rw [hr]
    exact hown
  · rw [hr]
    exact List.mem_append_left _ hown

/-- A started timer with its count-up bit set increments its own reloaded counter. -/
theorem value_dispatchTimer_of_countUp (port : FifoPort D) {n : Fin 4} {m : TimerMachine D}
    (hs : cntStart (channel m n).cntH = true) (hc : cntCountUp (channel m n).cntH = true)
    (hn3 : n ≠ 3) :
    (channel (dispatchTimer port n m).2 n).currentValue = (channel m n).cntL + 1 := by
  have hbump : (channel (bumpTimer n (overflowBody port n (beginOverflow n m))) n).currentValue =
      (channel m n).cntL + 1 := by
    rw [bumpTimer, channel_setChannel, channel_overflowBody, channel_reloadTimer]
    rfl
  rcases dispatchTimer_cases port n m with
    ⟨h, -⟩ | ⟨-, ⟨h | h, -⟩ | ⟨-, above, habove, ⟨-, hr⟩ | ⟨-, hr⟩⟩⟩
  · simp [hs] at h
  · simp [hc] at h
  · exact absurd h hn3
  · rw [hr]
    exact hbump
  · rw [hr]
    -- the overflow of the timers above leaves this one alone
    have hframe := timersOverflowBelow_frame port above (by omega)
      (bumpTimer n (overflowBody port n (beginOverflow n m))) n (by omega)
    simp only
    rw [hframe.1]
    exact hbump

/-- **The overflow step lemma.** -/
theorem cascadeLaw_dispatch_iff (port : FifoPort D) (n : Fin 4) (m : TimerMachine D) :
    CascadeLaw m (dispatchTimer port n m).2 (dispatchTimer port n m).1 (some n) ↔
      CascadeFree m (.overflowEvent n : TimerOp D) := by
  by_cases hs : cntStart (channel m n).cntH = true
  swap
  · have hstop : cntStart (channel m n).cntH = false := by simpa using hs
    rw [dispatchTimer_of_stopped port hstop]
    refine ⟨fun _ h => absurd h hs, fun _ => CascadeLaw.quiet ?_ fun _ _ => rfl⟩
    rintro k hk
    rw [← Option.some.inj hk]
    exact hstop
  have hreload := reload_mem_dispatchTimer port hs
  constructor
  · intro hlaw _
    have hc : cntCountUp (channel m n).cntH = false := by
      by_contra hne
      have hc : cntCountUp (channel m n).cntH = true := by simpa using hne
      by_cases h0 : n = 0
      · -- timer 0 disturbs its own counter
        subst h0
        have hown := hlaw.own 0 ⟨hs, rfl⟩ hreload
        rw [value_dispatchTimer_of_countUp port hs hc (by decide)] at hown
        simp at hown
      · -- a counting timer overflows by itself
        have hcount : CountsUp n (channel m n) := ⟨hs, by simp [cntIsCountUp, h0, hc]⟩
        obtain ⟨⟨k, hk, hmem⟩, -⟩ := (hlaw.wraps n hcount).mp hreload
        have := timersOverflowBelow_reload port (3 - n.val) (by omega) _ k hmem
        omega
    refine ⟨hc, fun k hk hcount => ?_⟩
    rw [dispatchTimer_of_not_countUp port hs hc] at hlaw
    have hne : k ≠ n := by
      rintro rfl
      omega
    have hsame := sameTimer_overflowBody port (beginOverflow n m) hne
    have hbelow : OverflowedBelow (overflowEffects n (channel m n).cntH) k :=
      ⟨n, hk, reload_mem_overflowEffects.mpr rfl⟩
    have hcounts := hlaw.counts k hcount (by rw [hsame.1]; exact hcount)
    rw [if_pos hbelow, hsame.1] at hcounts
    by_cases hlast : (channel m k).currentValue = 0xFFFF
    · have := (hlaw.wraps k hcount).mpr ⟨hbelow, hlast⟩
      exact hne (reload_mem_overflowEffects.mp this)
    · rw [if_neg hlast] at hcounts
      change (channel m k).currentValue = (channel m k).currentValue + 1 at hcounts
      simp at hcounts
  · intro hfree
    obtain ⟨hc, habove⟩ := hfree hs
    rw [dispatchTimer_of_not_countUp port hs hc]
    have hnot : ¬ CountsUp n (channel m n) := by
      rintro ⟨-, h⟩
      simp [cntIsCountUp, hc] at h
    have hbelow : ∀ k, CountsUp k (channel m k) →
        ¬ OverflowedBelow (overflowEffects n (channel m n).cntH) k := by
      rintro k hk ⟨j, hj, hmem⟩
      rw [reload_mem_overflowEffects.mp hmem] at hj
      exact habove k hj hk
    have hother : ∀ k, CountsUp k (channel m k) → k ≠ n := by
      rintro k hk rfl
      exact hnot hk
    refine ⟨?_, ?_, ?_, ?_, ?_⟩
    · intro k hk _
      rw [if_neg (hbelow k hk)]
      rw [(sameTimer_overflowBody port _ (hother k hk)).1]
      rfl
    · intro k hk
      rw [reload_mem_overflowEffects]
      exact ⟨fun h => absurd h (hother k hk), fun h => absurd h.1 (hbelow k hk)⟩
    · intro k _
      rw [reload_mem_overflowEffects]
      constructor
      · rintro rfl
        exact ⟨rfl, hs⟩
      · rintro ⟨h, -⟩
        exact (Option.some.inj h).symm
    · intro k _ hmem
      obtain rfl := reload_mem_overflowEffects.mp hmem
      rw [channel_overflowBody, channel_reloadTimer]
      rfl
    · simp only [reload_mem_overflowEffects]
      fin_cases n <;> simp [List.finRange_succ]

/-- **The step lemma of the law.** -/
theorem cascadeLaw_step_iff {port : FifoPort D} {m m' : TimerMachine D} {op : TimerOp D}
    (hs : timerStep port m op = some m') :
    CascadeLaw m m' (timerEffects port m op) op.event ↔ CascadeFree m op := by
  by_cases hop : op.event = none
  · have heffects : timerEffects port m op = [] := by
      cases op with
      | overflowEvent n => simp [TimerOp.event] at hop
      | _ => rfl
    have hfree : CascadeFree m op := by
      cases op with
      | overflowEvent n => simp [TimerOp.event] at hop
      | _ => trivial
    rw [heffects, hop]
    exact ⟨fun _ => hfree, fun _ => CascadeLaw.quiet (by simp) fun n hn => counting_value hs hop hn⟩
  · cases op with
    | overflowEvent n =>
        simp only [timerStep] at hs
        split at hs
        · obtain rfl := Option.some.inj hs
          exact cascadeLaw_dispatch_iff port n m
        · simp at hs
    | _ => exact absurd rfl hop

/-! ## Runs -/

/-- **The cascade law of a run.**  Every step of a run from boot obeys the law exactly when no
step dispatches an overflow the cascade would pass on. -/
theorem cascade_law_iff (port : FifoPort D) {other : D} {m : TimerMachine D}
    {run : List (TimerMachine D × TimerOp D × TimerMachine D)}
    (h : Trace (timerStep port) (timersBoot other) run m) :
    (∀ x ∈ run, CascadeLaw x.1 x.2.2 (timerEffects port x.1 x.2.1) x.2.1.event) ↔
      ∀ x ∈ run, CascadeFree x.1 x.2.1 :=
  h.forall_iff (P := fun m op m' => CascadeLaw m m' (timerEffects port m op) op.event)
    fun _ _ _ hs => cascadeLaw_step_iff hs

/-- No sound channel listens to a timer. -/
def silentFifo : FifoPort Unit := fun _ _ => ([], ())

/-- The control register of timer 1 is written, then timer 0 is started with reload value 0xFFFF
and overflows one cycle later. -/
def overflowRun (cntH1 : BitVec 16) :
    List (TimerMachine Unit × TimerOp Unit × TimerMachine Unit) :=
  let m₁ := timersSetCntH 1 0xFFFF cntH1 (timersBoot ())
  let m₂ := timersSetCntL 0 0xFFFF 0xFFFF m₁
  let m₃ := timersSetCntH 0 0xFFFF 0x80 m₂
  let m₄ := { m₃ with cm := m₃.cm.addCycles 1 }
  [(timersBoot (), .setCntH 1 0xFFFF cntH1, m₁), (m₁, .setCntL 0 0xFFFF 0xFFFF, m₂),
    (m₂, .setCntH 0 0xFFFF 0x80, m₃), (m₃, .addCycles 1, m₄),
    (m₄, .overflowEvent 0, (dispatchTimer silentFifo 0 m₄).2)]

/-- A run of which every step obeys the law. -/
def CascadeLawful (port : FifoPort D) (run : List (TimerMachine D × TimerOp D × TimerMachine D)) :
    Prop :=
  ∀ x ∈ run, CascadeLaw x.1 x.2.2 (timerEffects port x.1 x.2.1) x.2.1.event

/-- With timer 1 stopped the run obeys the law. -/
theorem overflowRun_stopped_lawful : CascadeLawful silentFifo (overflowRun 0) := by
  have htrace : Trace (timerStep silentFifo) (timersBoot ()) (overflowRun 0) _ :=
    .snoc (.snoc (.snoc (.snoc (.snoc .nil rfl) rfl) rfl) rfl)
      (timerStep_overflowEvent _ (by decide))
  refine (cascade_law_iff silentFifo htrace).mpr ?_
  simp only [overflowRun, List.forall_mem_cons]
  refine ⟨trivial, trivial, trivial, trivial, fun _ => ⟨by decide, by decide⟩, by simp⟩

/-- **The lost cascade**: with timer 1 counting, the overflow of timer 0 leaves its counter
at 0. -/
theorem overflowRun_counting_lost :
    ∃ m, Trace (timerStep silentFifo) (timersBoot ()) (overflowRun 0x84) m ∧
      CountsUp 1 (channel m 1) ∧ (channel m 1).currentValue = 0 ∧
      ∃ x ∈ overflowRun 0x84,
        .reload 0 ∈ timerEffects silentFifo x.1 x.2.1 ∧ CountsUp 1 (channel x.1 1) ∧
        ¬ CascadeLaw x.1 x.2.2 (timerEffects silentFifo x.1 x.2.1) x.2.1.event := by
  refine ⟨_, .snoc (.snoc (.snoc (.snoc (.snoc .nil rfl) rfl) rfl) rfl) (timerStep_overflowEvent _ (by decide)),
    by decide, by decide, _, List.mem_of_mem_getLast? rfl, by decide, by decide, fun h => ?_⟩
  exact absurd (h.counts 1 (by decide) (by decide)) (by decide)

end AdvancedSlop
