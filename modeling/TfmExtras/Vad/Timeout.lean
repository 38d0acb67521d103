import Mathlib.Algebra.Group.Nat.Defs
import Mathlib.Data.List.Infix
import Mathlib.Logic.Function.Basic

/-! The waits of `systimer_armv8-m_timeout.c`. The two functions keep a timeout object each, and
share one delay and one timer. -/

namespace Vad.Timeout

/-- `SYSTIMER3_ARMV8M_DEFAULT_FREQ_HZ`, an `unsigned long` of 32 bits. -/
def defaultFreqHz : UInt32 := 32000000

def msToTick (ms : UInt32) : UInt32 := ms * (defaultFreqHz / 1000)
def usToTick (us : UInt32) : UInt32 := us * defaultFreqHz / 1000000
def maxDelayMs : UInt32 := 0xFFFFFFFF / (defaultFreqHz / 1000)
def maxDelayUs : UInt32 := 0xFFFFFFFF / (defaultFreqHz / 1000000)

/-- The values of `dev_ptr`. -/
inductive Dev
  | null | systimer3
deriving DecidableEq, Repr

/-- `struct timeout_t`. -/
structure TimeoutT where
  devPtr : Dev
  isInitialized : Bool
deriving DecidableEq, Repr

/-- The functions that wait. Each names the `timeout` that is static in it. -/
inductive Wait
  | us | ms
deriving DecidableEq, Repr

/-- The driver of the timer over its registers `τ`, and how these change while time passes.
`count` and `compare` say where the counter is and where it raises the interrupt. -/
structure Systimer (τ : Type) where
  init : Dev → τ → τ
  setTimerValue : Dev → UInt32 → τ → τ
  isInterruptAsserted : Dev → τ → Bool
  tick : τ → τ
  count : τ → Nat
  compare : τ → Nat

/-- A value of the 32-bit down-counting view lets the interrupt come that many ticks later, and the
counter never goes back. -/
structure Systimer.Lawful {τ : Type} (drv : Systimer τ) : Prop where
  count_init : ∀ dev t, drv.count t ≤ drv.count (drv.init dev t)
  count_set : ∀ dev n t, drv.count t ≤ drv.count (drv.setTimerValue dev n t)
  count_tick : ∀ t, drv.count t ≤ drv.count (drv.tick t)
  compare_set : ∀ n t,
    drv.count t + n.toNat ≤ drv.compare (drv.setTimerValue .systimer3 n t)
  compare_tick : ∀ t, drv.compare (drv.tick t) = drv.compare t
  asserted : ∀ t, drv.isInterruptAsserted .systimer3 t = true → drv.compare t ≤ drv.count t

/-- The static variables and the timer. `values` collects what the timer was programmed with. -/
structure State (τ : Type) where
  delayInTick : UInt32
  timeout : Wait → TimeoutT
  timer : τ
  values : List UInt32

variable {τ : Type} {drv : Systimer τ}

def State.setTimerValue (drv : Systimer τ) (dev : Dev) (n : UInt32) (s : State τ) : State τ :=
  { s with timer := drv.setTimerValue dev n s.timer, values := s.values ++ [n] }

/-- `timeout_init` and `timeout_init_us`, which differ in the largest delay and in the ticks. -/
def timeoutInitWith (drv : Systimer τ) (maxDelay : UInt32) (toTick : UInt32 → UInt32)
    (timeout : Option Wait) (delay : UInt32) (s : State τ) : Bool × State τ :=
  match timeout with
  | none => (false, s)
  | some timeout =>
    if delay > maxDelay then (false, s)
    else if (s.timeout timeout).isInitialized then (false, s)
    else
      let dev := Dev.systimer3
      let s := { s with timer := drv.init dev s.timer, delayInTick := toTick delay }
      let s := s.setTimerValue drv dev s.delayInTick
      (true, { s with timeout := Function.update s.timeout timeout ⟨dev, true⟩ })

def timeoutInit (drv : Systimer τ) : Option Wait → UInt32 → State τ → Bool × State τ :=
  timeoutInitWith drv maxDelayMs msToTick

def timeoutInitUs (drv : Systimer τ) : Option Wait → UInt32 → State τ → Bool × State τ :=
  timeoutInitWith drv maxDelayUs usToTick

def timeoutDelayIsElapsed (drv : Systimer τ) (timeout : Option Wait) (s : State τ) :
    Bool × State τ :=
  match timeout with
  | none => (false, s)
  | some timeout =>
    if (s.timeout timeout).isInitialized = false then (false, s)
    else
      let dev := (s.timeout timeout).devPtr
      if drv.isInterruptAsserted dev s.timer then (true, s.setTimerValue drv dev s.delayInTick)
      else (false, s)

/-! ## The waits -/

/-- What `wait_us` and `wait_ms` do before their loop. They drop the result. -/
def Wait.enter (drv : Systimer τ) (delay : UInt32) (s : State τ) : Wait → State τ
  | .us => (timeoutInitUs drv (some .us) delay s).2
  | .ms => (timeoutInit drv (some .ms) delay s).2

def Wait.maxDelay : Wait → UInt32
  | .us => maxDelayUs
  | .ms => maxDelayMs

/-- The ticks of a delay, as numbers. -/
def Wait.period (delay : UInt32) : Wait → Nat
  | .us => delay.toNat * defaultFreqHz.toNat / 1000000
  | .ms => delay.toNat * (defaultFreqHz.toNat / 1000)

/-- A call, with the counter when it was entered and how often the timer was programmed before. -/
structure Call where
  wait : Wait
  delay : UInt32
  entered : Nat
  mark : Nat

def Call.period (c : Call) : Nat := c.wait.period c.delay

/-- The system: which call waits, and which have returned, with the counter then. -/
structure Sys (τ : Type) where
  state : State τ
  waiting : Option Call
  returned : List (Call × Nat)

def Sys.reset (t : τ) : Sys τ := ⟨⟨0, fun _ => ⟨.null, false⟩, t, []⟩, none, []⟩

/-- Time passes, a function is called, or its loop asks the timer. -/
inductive Act
  | tick
  | enter (wait : Wait) (delay : UInt32)
  | poll

/-- There is one thread, and it calls with delays that pass the range checks. -/
def Sys.step (drv : Systimer τ) (s : Sys τ) : Act → Option (Sys τ)
  | .tick => some { s with state := { s.state with timer := drv.tick s.state.timer } }
  | .enter wait delay =>
    if s.waiting.isSome ∨ delay > wait.maxDelay then none
    else
      let c := ⟨wait, delay, drv.count s.state.timer, s.state.values.length⟩
      some { s with state := wait.enter drv delay s.state, waiting := some c }
  | .poll =>
    match s.waiting with
    | none => none
    | some c =>
      let (elapsed, state) := timeoutDelayIsElapsed drv (some c.wait) s.state
      if elapsed then
        some ⟨state, none, s.returned ++ [(c, drv.count state.timer)]⟩
      else some { s with state := state }

def run (drv : Systimer τ) (acts : List Act) (s : Sys τ) : Option (Sys τ) :=
  acts.foldlM (Sys.step drv) s

/-- The calls of a function. -/
def calls (wait : Wait) (acts : List Act) : Nat :=
  acts.countP fun a => match a with
    | .enter w _ => w = wait
    | _ => false

/-- A call that waits has programmed the timer with its own period, and nothing else did since. A
call that has returned took its period at least. -/
structure Sys.OwnDelay (s : Sys τ) : Prop where
  programmed : ∀ c, s.waiting = some c →
    (s.state.values.drop c.mark).map UInt32.toNat = [c.period]
  elapsed : ∀ r ∈ s.returned, r.1.entered + r.1.period ≤ r.2

/-! ## Ticks -/

def Wait.toTick (delay : UInt32) : Wait → UInt32
  | .us => usToTick delay
  | .ms => msToTick delay

theorem usToTick_toNat (us : UInt32) :
    (usToTick us).toNat = us.toNat * defaultFreqHz.toNat % 2 ^ 32 / 1000000 := by
  simp [usToTick]

theorem msToTick_toNat {ms : UInt32} (h : ms ≤ maxDelayMs) :
    (msToTick ms).toNat = ms.toNat * (defaultFreqHz.toNat / 1000) := by
  have hms : ms.toNat ≤ 134217 := UInt32.le_iff_toNat_le.mp h
  have hticks : (defaultFreqHz / 1000).toNat = 32000 := rfl
  have hperms : defaultFreqHz.toNat / 1000 = 32000 := rfl
  rw [msToTick, UInt32.toNat_mul, hticks, hperms]
  apply Nat.mod_eq_of_lt
  omega

/-- The product is over in 32 bits for most of the delays that the range check of
`timeout_init_us` accepts. -/
theorem usToTick_exact_iff (us : UInt32) :
    (usToTick us).toNat = Wait.period us .us ↔ us.toNat * defaultFreqHz.toNat < 2 ^ 32 := by
  rw [usToTick_toNat, Wait.period]
  generalize us.toNat * defaultFreqHz.toNat = n
  constructor
  · intro h
    have hdiv := Nat.div_add_mod n (2 ^ 32)
    by_contra hn
    have : 1 ≤ n / 2 ^ 32 := (Nat.one_le_div_iff (by decide)).mpr (not_lt.mp hn)
    omega
  · intro h
    rw [Nat.mod_eq_of_lt h]

theorem Wait.toTick_exact_iff {delay : UInt32} {w : Wait} (h : delay ≤ w.maxDelay) :
    (w.toTick delay).toNat = w.period delay ↔
      (w = .us → delay.toNat * defaultFreqHz.toNat < 2 ^ 32) := by
  cases w with
  | us => simpa [Wait.toTick] using usToTick_exact_iff delay
  | ms => simpa [Wait.toTick, Wait.period] using msToTick_toNat h

/-! ## What a call does -/

theorem Wait.enter_eq (w : Wait) (delay : UInt32) (s : State τ) :
    w.enter drv delay s = (timeoutInitWith drv w.maxDelay w.toTick (some w) delay s).2 := by
  cases w <;> rfl

/-- A function programs the timer the first time it is called, and never again. -/
theorem Wait.enter_first {w : Wait} {delay : UInt32} {s : State τ} (hdelay : delay ≤ w.maxDelay)
    (h : (s.timeout w).isInitialized = false) :
    w.enter drv delay s = { s with
      delayInTick := w.toTick delay
      timeout := Function.update s.timeout w ⟨.systimer3, true⟩
      timer := drv.setTimerValue .systimer3 (w.toTick delay) (drv.init .systimer3 s.timer)
      values := s.values ++ [w.toTick delay] } := by
  rw [Wait.enter_eq, timeoutInitWith]
  simp [h, UInt32.not_lt.mpr hdelay, State.setTimerValue]

theorem Wait.enter_again {w : Wait} {delay : UInt32} {s : State τ} (hdelay : delay ≤ w.maxDelay)
    (h : (s.timeout w).isInitialized = true) : w.enter drv delay s = s := by
  rw [Wait.enter_eq, timeoutInitWith]
  simp [h, UInt32.not_lt.mpr hdelay]

theorem timeoutDelayIsElapsed_ready {w : Wait} {s : State τ}
    (h : s.timeout w = ⟨.systimer3, true⟩) :
    timeoutDelayIsElapsed drv (some w) s =
      if drv.isInterruptAsserted .systimer3 s.timer then
        (true, s.setTimerValue drv .systimer3 s.delayInTick)
      else (false, s) := by
  simp [timeoutDelayIsElapsed, h]

/-! ## Runs -/

theorem run_append (as bs : List Act) (s : Sys τ) :
    run drv (as ++ bs) s = (run drv as s).bind (run drv bs) :=
  List.foldlM_append

theorem run_snoc {acts : List Act} {a : Act} {s s' : Sys τ}
    (h : run drv (acts ++ [a]) s = some s') :
    ∃ m, run drv acts s = some m ∧ m.step drv a = some s' := by
  rw [run_append] at h
  obtain ⟨m, hm, hstep⟩ := Option.bind_eq_some_iff.mp h
  refine ⟨m, hm, ?_⟩
  simpa [run] using hstep

theorem run_of_prefix {pre acts : List Act} {s s' : Sys τ} (hpre : pre <+: acts)
    (h : run drv acts s = some s') : ∃ m, run drv pre s = some m := by
  obtain ⟨suf, rfl⟩ := hpre
  rw [run_append] at h
  obtain ⟨m, hm, -⟩ := Option.bind_eq_some_iff.mp h
  exact ⟨m, hm⟩

theorem calls_append (w : Wait) (as bs : List Act) :
    calls w (as ++ bs) = calls w as + calls w bs :=
  List.countP_append

@[simp] theorem calls_tick (w : Wait) : calls w [.tick] = 0 := rfl

@[simp] theorem calls_poll (w : Wait) : calls w [.poll] = 0 := rfl

theorem calls_enter (w v : Wait) (delay : UInt32) :
    calls w [.enter v delay] = if v = w then 1 else 0 := by
  simp [calls, List.countP_cons]

/-- What a step does. -/
theorem Sys.step_cases {s s' : Sys τ} {a : Act} (h : s.step drv a = some s') :
    (a = .tick ∧ s' = { s with state := { s.state with timer := drv.tick s.state.timer } }) ∨
    (∃ w delay, a = .enter w delay ∧ s.waiting = none ∧ delay ≤ w.maxDelay ∧
      s' = { s with
        state := w.enter drv delay s.state
        waiting := some ⟨w, delay, drv.count s.state.timer, s.state.values.length⟩ }) ∨
    (∃ c, a = .poll ∧ s.waiting = some c ∧
      s' = if (timeoutDelayIsElapsed drv (some c.wait) s.state).1 then
          ⟨(timeoutDelayIsElapsed drv (some c.wait) s.state).2, none, s.returned ++
            [(c, drv.count (timeoutDelayIsElapsed drv (some c.wait) s.state).2.timer)]⟩
        else { s with state := (timeoutDelayIsElapsed drv (some c.wait) s.state).2 }) := by
  cases a with
  | tick => exact .inl ⟨rfl, (Option.some.inj h).symm⟩
  | enter w delay =>
    simp only [Sys.step] at h
    split at h
    · cases h
    · rename_i hok
      rw [not_or] at hok
      exact .inr <| .inl ⟨w, delay, rfl, by simpa using hok.1, UInt32.not_lt.mp hok.2,
        (Option.some.inj h).symm⟩
  | poll =>
    simp only [Sys.step] at h
    split at h
    · cases h
    · rename_i c hc
      refine .inr <| .inr ⟨c, rfl, hc, ?_⟩
      split_ifs at h ⊢ <;> exact (Option.some.inj h).symm

/-- An object is initialised when its function has been called, and a call that waits is one. -/
structure Sys.Tracks (acts : List Act) (s : Sys τ) : Prop where
  objects : ∀ w, s.state.timeout w =
    if calls w acts = 0 then ⟨.null, false⟩ else ⟨.systimer3, true⟩
  waiting : ∀ c, s.waiting = some c → calls c.wait acts ≠ 0

theorem Sys.Tracks.ready {acts : List Act} {s : Sys τ} (h : s.Tracks acts) {c : Call}
    (hc : s.waiting = some c) : s.state.timeout c.wait = ⟨.systimer3, true⟩ := by
  rw [h.objects, if_neg (h.waiting c hc)]

theorem Sys.Tracks.isInitialized_iff {acts : List Act} {s : Sys τ} (h : s.Tracks acts) (w : Wait) :
    (s.state.timeout w).isInitialized = true ↔ calls w acts ≠ 0 := by
  rw [h.objects]
  split_ifs with hw <;> simp [hw]

theorem timeoutDelayIsElapsed_timeout (timeout : Option Wait) (s : State τ) :
    (timeoutDelayIsElapsed drv timeout s).2.timeout = s.timeout := by
  cases timeout with
  | none => rfl
  | some w =>
    simp only [timeoutDelayIsElapsed]
    split_ifs <;> rfl

theorem Wait.enter_timeout {w : Wait} {delay : UInt32} {s : State τ} (hdelay : delay ≤ w.maxDelay)
    {acts : List Act}
    (h : ∀ w, s.timeout w = if calls w acts = 0 then ⟨.null, false⟩ else ⟨.systimer3, true⟩) :
    (w.enter drv delay s).timeout = Function.update s.timeout w ⟨.systimer3, true⟩ := by
  have hw := h w
  split_ifs at hw with hcalls
  · rw [Wait.enter_first hdelay (by rw [hw])]
  · rw [Wait.enter_again hdelay (by rw [hw]), ← hw, Function.update_eq_self]

theorem Sys.Tracks.step {acts : List Act} {s s' : Sys τ} {a : Act} (h : s.Tracks acts)
    (hstep : s.step drv a = some s') : s'.Tracks (acts ++ [a]) := by
  obtain ⟨rfl, rfl⟩ | ⟨w, delay, rfl, -, hdelay, rfl⟩ | ⟨c, rfl, hc, rfl⟩ := Sys.step_cases hstep
  · constructor
    · simpa [calls_append] using h.objects
    · simpa [calls_append] using h.waiting
  · constructor
    · intro v
      dsimp only
      rw [Wait.enter_timeout hdelay h.objects, calls_append, calls_enter]
      by_cases hv : w = v
      · subst hv
        simp
      · rw [Function.update_of_ne (Ne.symm hv), if_neg hv, Nat.add_zero, h.objects]
    · rintro c hc
      cases Option.some.inj hc
      simp [calls_append, calls_enter]
  · split_ifs with helapsed
    · constructor
      · simpa [calls_append, timeoutDelayIsElapsed_timeout] using h.objects
      · rintro c' hc'
        cases hc'
    · constructor
      · simpa [calls_append, timeoutDelayIsElapsed_timeout] using h.objects
      · simpa [calls_append] using h.waiting

theorem Sys.Tracks.of_run {t : τ} {acts : List Act} {s : Sys τ}
    (h : run drv acts (.reset t) = some s) : s.Tracks acts := by
  induction acts using List.reverseRecOn generalizing s with
  | nil =>
    cases Option.some.inj h
    exact ⟨fun _ => rfl, nofun⟩
  | append_singleton acts a ih =>
    obtain ⟨m, hm, hstep⟩ := run_snoc h
    exact (ih hm).step hstep

/-- The states in which every call got its own delay, with the timer set for the one that waits. -/
structure Sys.Served (drv : Systimer τ) (s : Sys τ) : Prop where
  own : s.OwnDelay
  armed : ∀ c, s.waiting = some c → c.entered + c.period ≤ drv.compare s.state.timer

/-- A function is called for the first time, with a delay whose ticks are no more than 32 bits. -/
def Fits (acts : List Act) : Act → Prop
  | .enter w delay =>
    calls w acts = 0 ∧ (w = .us → delay.toNat * defaultFreqHz.toNat < 2 ^ 32)
  | _ => True

theorem Sys.Served.enter {acts : List Act} {s : Sys τ} {w : Wait} {delay : UInt32}
    (hd : drv.Lawful) (h : s.Served drv) (htracks : s.Tracks acts) (hdelay : delay ≤ w.maxDelay)
    (hfits : Fits acts (.enter w delay)) :
    Sys.Served drv { s with
      state := w.enter drv delay s.state
      waiting := some ⟨w, delay, drv.count s.state.timer, s.state.values.length⟩ } := by
  have hfirst : (s.state.timeout w).isInitialized = false := by
    rw [htracks.objects, if_pos hfits.1]
  have hperiod := (Wait.toTick_exact_iff hdelay).mpr hfits.2
  constructor
  · constructor
    · rintro c hc
      cases Option.some.inj hc
      dsimp only
      rw [Wait.enter_first hdelay hfirst, List.drop_left, List.map_singleton, hperiod]
      rfl
    · exact h.own.elapsed
  · rintro c hc
    cases Option.some.inj hc
    dsimp only
    rw [Wait.enter_first hdelay hfirst]
    calc drv.count s.state.timer + w.period delay
        ≤ drv.count (drv.init .systimer3 s.state.timer) + (w.toTick delay).toNat := by
          rw [hperiod]
          exact Nat.add_le_add_right (hd.count_init _ _) _
      _ ≤ _ := hd.compare_set _ _

theorem Sys.Served.poll {acts : List Act} {s : Sys τ} {c : Call} (hd : drv.Lawful)
    (h : s.Served drv) (htracks : s.Tracks acts) (hc : s.waiting = some c) :
    Sys.Served drv (if (timeoutDelayIsElapsed drv (some c.wait) s.state).1 then
        ⟨(timeoutDelayIsElapsed drv (some c.wait) s.state).2, none, s.returned ++
          [(c, drv.count (timeoutDelayIsElapsed drv (some c.wait) s.state).2.timer)]⟩
      else { s with state := (timeoutDelayIsElapsed drv (some c.wait) s.state).2 }) := by
  rw [timeoutDelayIsElapsed_ready (htracks.ready hc)]
  by_cases hasserted : drv.isInterruptAsserted .systimer3 s.state.timer = true
  · rw [if_pos hasserted, if_pos rfl]
    refine ⟨⟨nofun, fun r hr => ?_⟩, nofun⟩
    rcases List.mem_append.mp hr with hr | hr
    · exact h.own.elapsed r hr
    · cases List.mem_singleton.mp hr
      calc c.entered + c.period ≤ drv.compare s.state.timer := h.armed c hc
        _ ≤ drv.count s.state.timer := hd.asserted _ hasserted
        _ ≤ _ := hd.count_set _ _ _
  · rw [if_neg hasserted, if_neg (by simp)]
    exact h

theorem Sys.Served.step {acts : List Act} {s s' : Sys τ} {a : Act} (hd : drv.Lawful)
    (h : s.Served drv) (htracks : s.Tracks acts) (hstep : s.step drv a = some s')
    (hfits : Fits acts a) : s'.Served drv := by
  obtain ⟨rfl, rfl⟩ | ⟨w, delay, rfl, -, hdelay, rfl⟩ | ⟨c, rfl, hc, rfl⟩ := Sys.step_cases hstep
  · refine ⟨⟨h.own.programmed, h.own.elapsed⟩, fun c hc => ?_⟩
    dsimp only
    rw [hd.compare_tick]
    exact h.armed c hc
  · exact h.enter hd htracks hdelay hfits
  · exact h.poll hd htracks hc

/-- Only a call that fits has programmed the timer with its own period. -/
theorem Sys.OwnDelay.fits {acts : List Act} {s s' : Sys τ} {a : Act} (htracks : s.Tracks acts)
    (hstep : s.step drv a = some s') (h : s'.OwnDelay) : Fits acts a := by
  obtain ⟨rfl, rfl⟩ | ⟨w, delay, rfl, -, hdelay, rfl⟩ | ⟨c, rfl, hc, rfl⟩ := Sys.step_cases hstep
  · trivial
  · have hvalues := h.programmed _ rfl
    dsimp only at hvalues
    have hcalls : calls w acts = 0 := by
      by_contra hagain
      rw [Wait.enter_again hdelay ((htracks.isInitialized_iff w).mpr hagain),
        List.drop_length] at hvalues
      cases hvalues
    refine ⟨hcalls, (Wait.toTick_exact_iff hdelay).mp ?_⟩
    have hfirst : (s.state.timeout w).isInitialized = false := by
      rw [htracks.objects, if_pos hcalls]
    rw [Wait.enter_first hdelay hfirst, List.drop_left] at hvalues
    exact (List.cons.inj hvalues).1
  · trivial

/-- The runs in which every call fits. -/
def AllFit (acts : List Act) : Prop :=
  ∀ pre a, pre ++ [a] <+: acts → Fits pre a

theorem AllFit.of_prefix {pre acts : List Act} (h : AllFit acts) (hpre : pre <+: acts) :
    AllFit pre :=
  fun _ _ ha => h _ _ (ha.trans hpre)

theorem AllFit.served {t : τ} {acts : List Act} {s : Sys τ} (hd : drv.Lawful) (hfit : AllFit acts)
    (h : run drv acts (.reset t) = some s) : s.Served drv := by
  induction acts using List.reverseRecOn generalizing s with
  | nil =>
    cases Option.some.inj h
    exact ⟨⟨nofun, nofun⟩, nofun⟩
  | append_singleton acts a ih =>
    obtain ⟨m, hm, hstep⟩ := run_snoc h
    have hserved := ih (hfit.of_prefix (List.prefix_append _ _)) hm
    exact hserved.step hd (.of_run hm) hstep (hfit acts a List.prefix_rfl)

theorem allFit_iff (acts : List Act) :
    AllFit acts ↔ (∀ w, calls w acts ≤ 1) ∧
      ∀ delay, .enter .us delay ∈ acts → delay.toNat * defaultFreqHz.toNat < 2 ^ 32 := by
  constructor
  · intro h
    constructor
    · intro w
      induction acts using List.reverseRecOn with
      | nil => exact Nat.zero_le 1
      | append_singleton acts a ih =>
        have hcalls := ih (h.of_prefix (List.prefix_append _ _))
        have hfits := h acts a List.prefix_rfl
        rw [calls_append]
        cases a with
        | tick => exact hcalls
        | poll => exact hcalls
        | enter v delay =>
          rw [calls_enter]
          split_ifs with hv
          · subst hv
            rw [hfits.1]
          · exact hcalls
    · intro delay hmem
      obtain ⟨pre, suf, rfl⟩ := List.append_of_mem hmem
      have hpre : pre ++ [.enter .us delay] <+: pre ++ .enter .us delay :: suf := ⟨suf, by simp⟩
      exact (h _ _ hpre).2 rfl
  · rintro ⟨hcalls, hsize⟩ pre a ⟨suf, rfl⟩
    cases a with
    | tick => trivial
    | poll => trivial
    | enter w delay =>
      constructor
      · have hw := hcalls w
        rw [calls_append, calls_append, calls_enter, if_pos rfl] at hw
        omega
      · rintro rfl
        exact hsize delay (by simp)

/-- Every call gets its own delay in the runs that call each function at most once, the one for
microseconds with a delay whose product with the frequency is less than 32 bits. -/
theorem ownDelay_iff (hd : drv.Lawful) {t : τ} {acts : List Act} {s : Sys τ}
    (h : run drv acts (.reset t) = some s) :
    (∀ pre, pre <+: acts → ∀ m, run drv pre (.reset t) = some m → m.OwnDelay) ↔
      (∀ w, calls w acts ≤ 1) ∧
        ∀ delay, .enter .us delay ∈ acts → delay.toNat * defaultFreqHz.toNat < 2 ^ 32 := by
  rw [← allFit_iff]
  constructor
  · intro hown pre a hpre
    obtain ⟨m', hm'⟩ := run_of_prefix hpre h
    obtain ⟨m, hm, hstep⟩ := run_snoc hm'
    exact (hown _ hpre m' hm').fits (.of_run hm) hstep
  · intro hfit pre hpre m hm
    exact ((hfit.of_prefix hpre).served hd hm).own

/-! ## The down counter -/

/-- A timer of a counter and a compare value, which always runs. -/
def downCounter : Systimer (Nat × Nat) where
  init _ t := t
  setTimerValue _ n t := (t.1, t.1 + n.toNat)
  isInterruptAsserted _ t := t.2 ≤ t.1
  tick t := (t.1 + 1, t.2)
  count := Prod.fst
  compare := Prod.snd

theorem downCounter_lawful : downCounter.Lawful where
  count_init _ _ := le_rfl
  count_set _ _ _ := le_rfl
  count_tick _ := Nat.le_succ _
  compare_set _ _ := le_rfl
  compare_tick _ := rfl
  asserted _ h := of_decide_eq_true h

/-- A microsecond and a millisecond, each waited for once. -/
def waitBoth : List Act :=
  [.enter .us 1] ++ List.replicate 32 .tick ++ [.poll, .enter .ms 1, .tick, .poll]

/-- The counter of each call that returned: where it began, its period and where it ended. -/
def Sys.spans (s : Sys τ) : List (Nat × Nat × Nat) :=
  s.returned.map fun r => (r.1.entered, r.1.period, r.2)

theorem Sys.OwnDelay.spans_le {s : Sys τ} (h : s.OwnDelay) {x : Nat × Nat × Nat}
    (hx : x ∈ s.spans) : x.1 + x.2.1 ≤ x.2.2 := by
  obtain ⟨r, hr, rfl⟩ := List.mem_map.mp hx
  exact h.elapsed r hr

theorem ownDelay_waitBoth : ∃ s, run downCounter waitBoth (.reset (0, 0)) = some s ∧
    ((∀ pre, pre <+: waitBoth → ∀ m, run downCounter pre (.reset (0, 0)) = some m → m.OwnDelay) ↔
      (∀ w, calls w waitBoth ≤ 1) ∧
        ∀ delay, .enter .us delay ∈ waitBoth →
          delay.toNat * defaultFreqHz.toNat < 2 ^ 32) := by
  have hsome : (run downCounter waitBoth (.reset (0, 0))).isSome = true := by decide +kernel
  obtain ⟨s, hs⟩ := Option.isSome_iff_exists.mp hsome
  exact ⟨s, hs, ownDelay_iff downCounter_lawful hs⟩

/-- One microsecond, and then a hundred of them. -/
def waitAgain : List Act :=
  [.enter .us 1] ++ List.replicate 32 .tick ++ [.poll, .enter .us 100] ++
    List.replicate 32 .tick ++ [.poll]

/-- 135 microseconds are 4320 ticks, and the product over 32 bits leaves 25 of them. -/
def waitLong : List Act := [.enter .us 135] ++ List.replicate 25 .tick ++ [.poll]

theorem not_ownDelay_run {acts : List Act} {t : τ} {x : Nat × Nat × Nat}
    (hx : (run drv acts (.reset t)).any (fun s => x ∈ s.spans) = true)
    (hlt : x.2.2 < x.1 + x.2.1) :
    ∃ s, run drv acts (.reset t) = some s ∧ ¬ s.OwnDelay := by
  obtain ⟨s, hs, hmem⟩ := (Option.any_eq_true _ _).mp hx
  refine ⟨s, hs, fun hown => ?_⟩
  have hle := hown.spans_le (of_decide_eq_true hmem)
  omega

theorem not_ownDelay :
    downCounter.Lawful ∧
      (∃ s, run downCounter waitAgain (.reset (0, 0)) = some s ∧ ¬ s.OwnDelay) ∧
      ∃ s, run downCounter waitLong (.reset (0, 0)) = some s ∧ ¬ s.OwnDelay := by
  refine ⟨downCounter_lawful, ?_, ?_⟩
  · exact not_ownDelay_run (x := (32, 3200, 64)) (by decide +kernel) (by decide)
  · exact not_ownDelay_run (x := (0, 4320, 25)) (by decide +kernel) (by decide)

end Vad.Timeout
