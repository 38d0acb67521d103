import TfmExtras.SecureFlash.Access

/-! The reference count of `secureflash_init` and `secureflash_uninit`. An uninit shuts the JEDEC layer
down and clears the application table before it looks at the count. -/

namespace SecureFlash
open Etss

inductive InitError
  | initial | device | unsupportedDevice | getProvisionInfo | secureInit | secureDeinit
deriving DecidableEq, Repr

/-- What is passed to the JEDEC layer, and whether it succeeds. -/
inductive JedecCall
  | secureInit (ok : Bool)
  | secureUninit (ok : Bool)
deriving DecidableEq, Repr

/-- An entry of the table of supported devices. -/
structure FlashInfo where
  id : List UInt8
  flashProfile : Architecture

/-- The device: its id, the application table it was provisioned with, and the devices that the
build supports. -/
structure Chip where
  id : List UInt8
  provisioned : List AppData
  flashInfo : List FlashInfo

/-- `secureflash_t`, with what was passed to the JEDEC layer. -/
structure Context where
  initRefCount : Nat
  isInitialized : Bool
  appInfo : List AppData
  flashProfile : Option Architecture
  jedec : List JedecCall

/-- The context as the program defines it. -/
def Context.initial : Context := ⟨0, false, [], none, []⟩

/-- Which steps of an init succeed. -/
structure InitAnswers where
  spiNorInit : Bool
  readId : Bool
  getData : Bool
  secureInit : Bool

variable {chip : Chip} {a : InitAnswers} {c : Context} {ok : Bool}

def secureflashMatchId (chip : Chip) : Option Architecture :=
  (chip.flashInfo.find? fun info => info.id.isPrefixOf chip.id).map (·.flashProfile)

/-- The steps of an init whose count is one. -/
def bringUp (chip : Chip) (a : InitAnswers) (c : Context) : Except InitError Unit × Context :=
  if a.spiNorInit = false then (.error .initial, c)
  else if a.readId = false then (.error .device, c)
  else
    match secureflashMatchId chip with
    | none => (.error .unsupportedDevice, c)
    | some profile =>
      let c := { c with flashProfile := some profile, appInfo := [] }
      if a.getData = false then (.error .getProvisionInfo, c)
      else
        let c := { c with
          appInfo := chip.provisioned, jedec := c.jedec ++ [.secureInit a.secureInit] }
        if a.secureInit = false then (.error .secureInit, c)
        else (.ok (), { c with isInitialized := true })

def secureflashInit (chip : Chip) (a : InitAnswers) (c : Context) :
    Except InitError Unit × Context :=
  let count := if c.isInitialized = false then 0 else c.initRefCount
  let c := { c with initRefCount := add32 count 1 }
  if c.initRefCount ≠ 1 then (.ok (), c)
  else bringUp chip a c

/-- `ok` is what `jedec_secure_uninit` returns. -/
def secureflashUninit (ok : Bool) (c : Context) : Except InitError Unit × Context :=
  let jedec := c.jedec ++ [.secureUninit ok]
  if ok = false then (.error .secureDeinit, { c with jedec })
  else
    let count := sub32 c.initRefCount 1
    if count ≠ 0 then (.ok (), { c with jedec, appInfo := [], initRefCount := count })
    else if c.isInitialized = false then (.ok (), { c with jedec, appInfo := [], initRefCount := 0 })
    else (.ok (), { c with jedec, appInfo := [], initRefCount := count, isInitialized := false })

/-! ## References -/

inductive RefCall
  | init (a : InitAnswers)
  | uninit (ok : Bool)

def RefCall.exec (chip : Chip) (c : Context) : RefCall → Except InitError Unit × Context
  | .init a => secureflashInit chip a c
  | .uninit ok => secureflashUninit ok c

/-- The context, and the references that are held: the successful inits less the successful
uninits since there was none. -/
structure Counted where
  context : Context
  refs : Nat

/-- The references after a call that returned `r`. -/
def RefCall.refs (r : Except InitError Unit) (refs : Nat) : RefCall → Nat
  | .init _ => if r = .ok () then refs + 1 else refs
  | .uninit _ => if r = .ok () then refs - 1 else refs

def RefCall.step (chip : Chip) (call : RefCall) (s : Counted) : Counted :=
  let (r, c) := call.exec chip s.context
  ⟨c, call.refs r s.refs⟩

/-- A call that fails changes nothing. -/
def JedecCall.up (up : Bool) : JedecCall → Bool
  | .secureInit true => true
  | .secureUninit true => false
  | _ => up

/-- The JEDEC layer was initialised, and has not been shut down since. -/
def jedecUp (calls : List JedecCall) : Bool := calls.foldl JedecCall.up false

/-- What the accesses see of the context. -/
def Context.device (c : Context) : Option Secureflash :=
  c.flashProfile.map fun architecture => ⟨c.isInitialized, c.appInfo, architecture⟩

/-- The device as it was provisioned: accesses to it work. -/
def Chip.device (chip : Chip) : Option Secureflash :=
  (secureflashMatchId chip).map fun architecture => ⟨true, chip.provisioned, architecture⟩

/-- Every step succeeds. -/
def InitAnswers.good : InitAnswers := ⟨true, true, true, true⟩

/-- What is promised of a call, from the state before it. -/
structure RefCounted (chip : Chip) (call : RefCall) (s : Counted) : Prop where
  held : 0 < (call.step chip s).refs →
    (call.step chip s).context.device = chip.device ∧ chip.device ≠ none
  up_iff : jedecUp (call.step chip s).context.jedec = true ↔ 0 < (call.step chip s).refs
  extra : ∀ ok, call = .uninit ok → s.refs = 0 →
    (call.step chip s).context.initRefCount ≤ s.context.initRefCount
  failed : ∀ a e, call = .init a → (call.exec chip s.context).1 = .error e →
    (call.step chip s).context.isInitialized = false ∧ (chip.device ≠ none →
      (secureflashInit chip .good (call.step chip s).context).1 = .ok ())

/-- An uninit that the JEDEC layer carries out while other references are held, or on a count of
zero while none is; or an init that fails after the count has wrapped around. -/
def RefCall.Breaks (s : Counted) : RefCall → Prop
  | .uninit ok => ok = true ∧ (1 < s.refs ∨ s.refs = 0 ∧ s.context.initRefCount = 0)
  | .init a => a ≠ .good ∧ 0 < s.refs ∧ s.context.initRefCount = 0

/-! ## The steps of an init -/

theorem jedecUp_append (calls : List JedecCall) (call : JedecCall) :
    jedecUp (calls ++ [call]) = call.up (jedecUp calls) := by
  unfold jedecUp
  rw [List.foldl_append]
  rfl

theorem bringUp_good {profile : Architecture} (hm : secureflashMatchId chip = some profile)
    (c : Context) : bringUp chip .good c = (.ok (), { c with
      flashProfile := some profile, appInfo := chip.provisioned,
      jedec := c.jedec ++ [.secureInit true], isInitialized := true }) := by
  unfold bringUp
  rw [hm]
  rfl

/-- An init that fails leaves the flag, the count and the JEDEC layer as they are. -/
theorem bringUp_fails (h : a ≠ .good ∨ secureflashMatchId chip = none) (c : Context) :
    (∃ e, (bringUp chip a c).1 = .error e) ∧
      (bringUp chip a c).2.isInitialized = c.isInitialized ∧
      (bringUp chip a c).2.initRefCount = c.initRefCount ∧
      jedecUp (bringUp chip a c).2.jedec = jedecUp c.jedec := by
  obtain ⟨spiNorInit, readId, getData, secureInit⟩ := a
  unfold bringUp
  cases spiNorInit with
  | false => exact ⟨⟨_, rfl⟩, rfl, rfl, rfl⟩
  | true =>
    cases readId with
    | false => exact ⟨⟨_, rfl⟩, rfl, rfl, rfl⟩
    | true =>
      cases hm : secureflashMatchId chip with
      | none => exact ⟨⟨_, rfl⟩, rfl, rfl, rfl⟩
      | some profile =>
        cases getData with
        | false => exact ⟨⟨_, rfl⟩, rfl, rfl, rfl⟩
        | true =>
          cases secureInit with
          | false => exact ⟨⟨_, rfl⟩, rfl, rfl, jedecUp_append _ _⟩
          | true => exact absurd (h.resolve_right (hm ▸ Option.some_ne_none profile)) (not_not_intro rfl)

theorem secureflashInit_down (h : c.isInitialized = false) (a : InitAnswers) :
    secureflashInit chip a c = bringUp chip a { c with initRefCount := 1 } := by
  unfold secureflashInit
  rw [if_pos h]
  rfl

theorem secureflashInit_again (h : c.isInitialized = true) (hc : c.initRefCount ≠ 0)
    (hlt : c.initRefCount < 2 ^ 32) (a : InitAnswers) :
    secureflashInit chip a c = (.ok (), { c with initRefCount := add32 c.initRefCount 1 }) := by
  have hne : add32 c.initRefCount 1 ≠ 1 := by
    unfold add32
    omega
  unfold secureflashInit
  rw [h]
  exact if_pos hne

/-- After the count has wrapped around, the device is brought up once more. -/
theorem secureflashInit_wrapped (h : c.isInitialized = true) (hc : c.initRefCount = 0)
    (a : InitAnswers) :
    secureflashInit chip a c = bringUp chip a { c with initRefCount := 1 } := by
  unfold secureflashInit
  rw [h, hc]
  rfl

/-! ## The invariant -/

/-- The count is that of the references, modulo its width, and the device is up exactly while
there is one. -/
structure Counted.Sound (chip : Chip) (s : Counted) : Prop where
  idle : s.refs = 0 → s.context.isInitialized = false ∧ s.context.initRefCount ≤ 1
  held : 0 < s.refs → s.context.isInitialized = true ∧
    s.context.initRefCount = s.refs % 2 ^ 32 ∧ s.context.device = chip.device ∧
      chip.device ≠ none
  up_iff : jedecUp s.context.jedec = true ↔ 0 < s.refs

theorem Counted.sound_initial (chip : Chip) : Counted.Sound chip ⟨.initial, 0⟩ where
  idle _ := ⟨rfl, Nat.zero_le 1⟩
  held h := absurd h (Nat.lt_irrefl 0)
  up_iff := iff_of_false (by decide) (Nat.lt_irrefl 0)

variable {call : RefCall} {s : Counted}

theorem Chip.device_ne_none : chip.device ≠ none ↔ ∃ profile, secureflashMatchId chip = some profile := by
  unfold Chip.device
  rw [Ne, Option.map_eq_none_iff, ← Ne, Option.ne_none_iff_exists']

theorem RefCall.step_eq {r : Except InitError Unit} {c : Context}
    (h : call.exec chip s.context = (r, c)) : call.step chip s = ⟨c, call.refs r s.refs⟩ := by
  unfold RefCall.step
  rw [h]

/-- An init that fails: nothing that counts has changed. -/
theorem step_init_error {e : InitError} {c : Context}
    (h : (RefCall.init a).exec chip s.context = (.error e, c)) :
    (RefCall.init a).step chip s = ⟨c, s.refs⟩ := RefCall.step_eq h

theorem step_init_ok {c : Context} (h : (RefCall.init a).exec chip s.context = (.ok (), c)) :
    (RefCall.init a).step chip s = ⟨c, s.refs + 1⟩ := RefCall.step_eq h

/-- The device is brought up, with a count of one. -/
theorem sound_broughtUp {profile : Architecture} (hm : secureflashMatchId chip = some profile)
    {refs : Nat} (hr : (refs + 1) % 2 ^ 32 = 1) (c : Context) :
    Counted.Sound chip ⟨{ c with
      initRefCount := 1, flashProfile := some profile, appInfo := chip.provisioned,
      jedec := c.jedec ++ [.secureInit true], isInitialized := true }, refs + 1⟩ where
  idle h := absurd h refs.succ_ne_zero
  held _ := by
    refine ⟨rfl, hr.symm, ?_, Chip.device_ne_none.mpr ⟨profile, hm⟩⟩
    unfold Chip.device
    rw [hm]
    rfl
  up_iff := iff_of_true (jedecUp_append _ _) refs.succ_pos

theorem step_init_sound (hs : s.Sound chip) (hb : ¬ (RefCall.init a).Breaks s) :
    ((RefCall.init a).step chip s).Sound chip ∧
      ∀ e, ((RefCall.init a).exec chip s.context).1 = .error e →
        ((RefCall.init a).step chip s).context.isInitialized = false := by
  obtain ⟨c, refs⟩ := s
  rcases Nat.eq_zero_or_pos refs with rfl | hpos
  · have hdown : c.isInitialized = false := (hs.idle rfl).1
    have hexec : (RefCall.init a).exec chip c = bringUp chip a { c with initRefCount := 1 } :=
      secureflashInit_down hdown a
    by_cases hf : a ≠ .good ∨ secureflashMatchId chip = none
    · obtain ⟨⟨e, he⟩, hflag, hcount, hup⟩ := bringUp_fails hf { c with initRefCount := 1 }
      generalize bringUp chip a { c with initRefCount := 1 } = r at hexec he hflag hcount hup
      obtain ⟨r, c'⟩ := r
      obtain rfl : r = .error e := he
      rw [step_init_error hexec]
      refine ⟨⟨fun _ => ⟨hflag.trans hdown, Nat.le_of_eq hcount⟩, fun h => absurd h (Nat.lt_irrefl 0),
        ?_⟩, fun _ _ => hflag.trans hdown⟩
      rw [hup]
      exact hs.up_iff
    · rw [not_or, not_not, ← Ne, Option.ne_none_iff_exists'] at hf
      obtain ⟨rfl, profile, hm⟩ := hf
      have hexec := hexec.trans (bringUp_good hm _)
      rw [step_init_ok hexec, hexec]
      exact ⟨sound_broughtUp hm rfl c, fun e he => nomatch he⟩
  · obtain ⟨hup, hcount, hdev, hsome⟩ := hs.held hpos
    dsimp only at hup hcount
    have hlt : c.initRefCount < 2 ^ 32 := hcount ▸ Nat.mod_lt refs (by decide)
    by_cases h0 : c.initRefCount = 0
    · have hgood : a = .good := by
        by_contra hne
        exact hb ⟨hne, hpos, h0⟩
      obtain ⟨profile, hm⟩ := Chip.device_ne_none.mp hsome
      have hexec : (RefCall.init a).exec chip c = _ :=
        (secureflashInit_wrapped hup h0 a).trans (hgood ▸ bringUp_good hm _)
      have hr : (refs + 1) % 2 ^ 32 = 1 := by omega
      rw [step_init_ok hexec, hexec]
      exact ⟨sound_broughtUp hm hr c, fun e he => nomatch he⟩
    · have hexec : (RefCall.init a).exec chip c = _ := secureflashInit_again hup h0 hlt a
      rw [step_init_ok hexec, hexec]
      refine ⟨⟨fun h => absurd h refs.succ_ne_zero, fun _ => ⟨hup, ?_, hdev, hsome⟩, ?_⟩,
        fun e he => nomatch he⟩
      · show add32 c.initRefCount 1 = (refs + 1) % 2 ^ 32
        unfold add32
        omega
      · exact iff_of_true (hs.up_iff.mpr hpos) refs.succ_pos

/-- An uninit that the JEDEC layer refuses changes nothing but the calls to it. -/
theorem step_uninit_false : (RefCall.uninit false).step chip s =
    ⟨{ s.context with jedec := s.context.jedec ++ [.secureUninit false] }, s.refs⟩ := rfl

theorem step_uninit_ok {c : Context} (h : (RefCall.uninit true).exec chip s.context = (.ok (), c)) :
    (RefCall.uninit true).step chip s = ⟨c, s.refs - 1⟩ := RefCall.step_eq h

/-- An uninit that the JEDEC layer carries out clears the table, whatever the count is. -/
theorem step_uninit_more (h : sub32 s.context.initRefCount 1 ≠ 0) :
    (RefCall.uninit true).step chip s = ⟨{ s.context with
      jedec := s.context.jedec ++ [.secureUninit true], appInfo := [],
      initRefCount := sub32 s.context.initRefCount 1 }, s.refs - 1⟩ := by
  refine step_uninit_ok ?_
  show secureflashUninit true s.context = _
  unfold secureflashUninit
  rw [if_neg Bool.true_eq_false.mp]
  exact if_pos h

theorem step_uninit_last (h : sub32 s.context.initRefCount 1 = 0) :
    (RefCall.uninit true).step chip s = ⟨{ s.context with
      jedec := s.context.jedec ++ [.secureUninit true], appInfo := [], initRefCount := 0,
      isInitialized := false }, s.refs - 1⟩ := by
  refine step_uninit_ok ?_
  show secureflashUninit true s.context = _
  unfold secureflashUninit
  rw [if_neg Bool.true_eq_false.mp, h]
  dsimp only
  rw [if_neg (not_not_intro rfl)]
  split_ifs with hflag
  · rw [← hflag]
  · rfl

theorem step_uninit_sound (hs : s.Sound chip) (hb : ¬ (RefCall.uninit ok).Breaks s) :
    ((RefCall.uninit ok).step chip s).Sound chip ∧ (s.refs = 0 →
      ((RefCall.uninit ok).step chip s).context.initRefCount ≤ s.context.initRefCount) := by
  cases ok with
  | false =>
    rw [step_uninit_false]
    refine ⟨⟨hs.idle, hs.held, ?_⟩, fun _ => le_rfl⟩
    rw [jedecUp_append]
    exact hs.up_iff
  | true =>
    have hrefs : s.refs ≤ 1 ∧ (s.refs = 0 → s.context.initRefCount ≠ 0) :=
      ⟨not_lt.mp fun h => hb ⟨rfl, .inl h⟩, fun h h0 => hb ⟨rfl, .inr ⟨h, h0⟩⟩⟩
    -- the last reference, or what an init that failed has left of one
    have hone : s.context.initRefCount = 1 := by
      rcases Nat.eq_zero_or_pos s.refs with h | h
      · have hle := (hs.idle h).2
        have hne := hrefs.2 h
        omega
      · have hcount := (hs.held h).2.1
        omega
    have hlast : sub32 s.context.initRefCount 1 = 0 := by
      rw [hone]
      exact sub32_eq (by omega) le_rfl
    have hnone : s.refs - 1 = 0 := by omega
    have hdown : jedecUp (s.context.jedec ++ [.secureUninit true]) = false := jedecUp_append _ _
    rw [step_uninit_last hlast, hnone]
    refine ⟨⟨fun _ => ⟨rfl, Nat.zero_le 1⟩, fun h => absurd h (Nat.lt_irrefl 0), ?_⟩,
      fun _ => Nat.zero_le _⟩
    rw [hdown]
    exact iff_of_false Bool.false_ne_true (Nat.lt_irrefl 0)

/-! ## Which calls keep the promises -/

theorem secureflashInit_later (h : c.isInitialized = false) (hd : chip.device ≠ none) :
    (secureflashInit chip .good c).1 = .ok () := by
  obtain ⟨profile, hm⟩ := Chip.device_ne_none.mp hd
  rw [secureflashInit_down h, bringUp_good hm]

theorem refCounted_of_not_breaks (hs : s.Sound chip) (hb : ¬ call.Breaks s) :
    (call.step chip s).Sound chip ∧ RefCounted chip call s := by
  cases call with
  | init a =>
    obtain ⟨hs', hfail⟩ := step_init_sound hs hb
    refine ⟨hs', fun h => (hs'.held h).2.2, hs'.up_iff, fun ok h => (nomatch h), fun b e h he => ?_⟩
    exact ⟨hfail e he, secureflashInit_later (hfail e he)⟩
  | uninit ok =>
    obtain ⟨hs', hextra⟩ := step_uninit_sound hs hb
    exact ⟨hs', fun h => (hs'.held h).2.2, hs'.up_iff, fun _ _ => hextra, fun b e h => nomatch h⟩

theorem not_breaks_of_refCounted (hs : s.Sound chip) (h : RefCounted chip call s) :
    ¬ call.Breaks s := by
  cases call with
  | init a =>
    rintro ⟨hne, hpos, h0⟩
    -- the device stays up after an init that fails
    have hup := (hs.held hpos).1
    have hexec : (RefCall.init a).exec chip s.context = _ := secureflashInit_wrapped hup h0 a
    obtain ⟨⟨e, he⟩, hflag, _⟩ : (∃ e, _) ∧ _ := bringUp_fails (.inl hne)
      { s.context with initRefCount := 1 }
    rw [← hexec] at he hflag
    have hdown := (h.failed a e rfl he).1
    have hstep : ((RefCall.init a).step chip s).context =
        ((RefCall.init a).exec chip s.context).2 := rfl
    rw [hstep, hflag] at hdown
    exact absurd (hup.symm.trans hdown) (by decide)
  | uninit ok =>
    rintro ⟨rfl, hmany | ⟨h0, hcount⟩⟩
    · -- the JEDEC layer is down while references are held
      obtain ⟨c, hstep, hdown⟩ : ∃ c, (RefCall.uninit true).step chip s = ⟨c, s.refs - 1⟩ ∧
          jedecUp c.jedec = false := by
        by_cases hlast : sub32 s.context.initRefCount 1 = 0
        · exact ⟨_, step_uninit_last hlast, jedecUp_append _ _⟩
        · exact ⟨_, step_uninit_more hlast, jedecUp_append _ _⟩
      have hup := h.up_iff
      rw [hstep, hdown] at hup
      exact absurd (hup.mpr (Nat.sub_pos_of_lt hmany)) Bool.false_ne_true
    · -- the count goes below zero
      have hle := h.extra true rfl h0
      have hwrap : sub32 0 1 = 2 ^ 32 - 1 := by
        unfold sub32
        omega
      have hmore : sub32 s.context.initRefCount 1 ≠ 0 := by
        rw [hcount, hwrap]
        omega
      rw [step_uninit_more hmore] at hle
      dsimp only at hle
      rw [hcount, hwrap] at hle
      omega

/-! ## Runs -/

/-- The calls of a sequence, each with the state before it. -/
def refRun (chip : Chip) : List RefCall → Counted → List (RefCall × Counted)
  | [], _ => []
  | call :: calls, s => (call, s) :: refRun chip calls (call.step chip s)

theorem refRun_iff {calls : List RefCall} (hs : s.Sound chip) :
    (∀ r ∈ refRun chip calls s, RefCounted chip r.1 r.2) ↔
      ∀ r ∈ refRun chip calls s, ¬ r.1.Breaks r.2 := by
  induction calls generalizing s with
  | nil => exact iff_of_true (fun r hr => absurd hr List.not_mem_nil) fun r hr => absurd hr List.not_mem_nil
  | cons call calls ih =>
    unfold refRun
    rw [List.forall_mem_cons, List.forall_mem_cons]
    constructor
    · rintro ⟨hcall, hrest⟩
      have hb := not_breaks_of_refCounted hs hcall
      exact ⟨hb, (ih (refCounted_of_not_breaks hs hb).1).mp hrest⟩
    · rintro ⟨hb, hrest⟩
      obtain ⟨hs', hcall⟩ := refCounted_of_not_breaks hs hb
      exact ⟨hcall, (ih hs').mpr hrest⟩

/-- A supported device, provisioned for the two applications. -/
def twoAppsChip : Chip := ⟨[0xc2], twoApps.appData, [⟨[0xc2], twoApps.architecture⟩]⟩

end SecureFlash
