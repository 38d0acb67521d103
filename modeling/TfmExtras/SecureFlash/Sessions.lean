import TfmExtras.SecureFlash.Chunks

/-! The sessions of the accesses. A loop that fails leaves past the end of its session, so that the
session stays open. -/

namespace SecureFlash
open Etss

variable {J : Type} {hal : Jedec J} {spEtss : Int} {sf : Secureflash} {appId : Int}
  {addr size pos n len session : Nat} {d d' : Device J} {buf : List UInt8} {e : Error}

/-! ## The chunks of a loop -/

/-- The chunks of at most `n` rounds, whatever the operation on them returns. -/
def chunksOf (next : (addr size : Nat) → Nat) : Nat → (addr size pos : Nat) → List Chunk
  | _, _, 0, _ => []
  | 0, _, _ + 1, _ => []
  | n + 1, addr, size + 1, pos =>
    let chunk := next addr (size + 1)
    ⟨addr, pos, chunk⟩ :: chunksOf next n (add32 addr chunk) (sub32 (size + 1) chunk) (pos + chunk)

variable {op : (addr pos chunk : Nat) → Device J → Option (List UInt8) × Device J}

/-- The operation fails on one of the chunks, after it succeeded on those before. -/
def FailsOn (op : (addr pos chunk : Nat) → Device J → Option (List UInt8) × Device J) :
    Device J → List Chunk → Prop
  | _, [] => False
  | d, c :: cs =>
    match op c.addr c.pos c.len d with
    | (none, _) => True
    | (some _, d) => FailsOn op d cs

/-- The call returns an error. -/
def Errs (r : Result J) : Prop := ∃ e d', r = (some (.error e), d')

theorem not_errs_ok : ¬ Errs ((some (.ok buf), d) : Result J) := fun ⟨_, _, h⟩ => nomatch h

theorem not_errs_running : ¬ Errs ((none, d) : Result J) := fun ⟨_, _, h⟩ => nomatch h

theorem transferLoop_errs_iff : Errs (transferLoop len op e n addr size pos buf d) ↔
    FailsOn op d (chunksOf (nextChunk len) n addr size pos) := by
  induction n generalizing addr size pos buf d with
  | zero =>
    cases size with
    | zero => exact iff_of_false not_errs_ok id
    | succ size => exact iff_of_false not_errs_running id
  | succ n ih =>
    cases size with
    | zero => exact iff_of_false not_errs_ok id
    | succ size =>
      unfold transferLoop chunksOf FailsOn
      dsimp only
      cases op addr pos (nextChunk len addr (size + 1)) d with
      | mk r d₁ =>
        cases r with
        | none => exact iff_of_true ⟨e, d₁, rfl⟩ trivial
        | some bs => exact ih

theorem eraseLoop_errs_iff (pos : Nat) : Errs (eraseLoop hal len session n addr size d) ↔
    FailsOn (eraseChunk hal session) d (chunksOf (fun _ _ => len) n addr size pos) := by
  induction n generalizing addr size pos d with
  | zero =>
    cases size with
    | zero => exact iff_of_false not_errs_ok id
    | succ size => exact iff_of_false not_errs_running id
  | succ n ih =>
    cases size with
    | zero => exact iff_of_false not_errs_ok id
    | succ size =>
      unfold eraseLoop chunksOf FailsOn eraseChunk
      dsimp only
      cases jedecSecureErase hal addr len session d with
      | mk r d₁ =>
        cases r with
        | false => exact iff_of_true ⟨_, d₁, rfl⟩ trivial
        | true => exact ih (pos + len)

/-! ## What a loop adds -/

/-- Only accesses in the session are added to the events. -/
def AddsAccesses (session : Nat) (d d' : Device J) : Prop :=
  ∃ evs, d'.events = d.events ++ evs ∧ ∀ e ∈ evs, ∃ a l, e = .access a l session

theorem AddsAccesses.refl : AddsAccesses session d d :=
  ⟨[], (List.append_nil _).symm, fun _ h => absurd h List.not_mem_nil⟩

theorem AddsAccesses.cons {d₁ : Device J} {a l : Nat}
    (h₁ : d₁.events = d.events ++ [.access a l session]) (h : AddsAccesses session d₁ d') :
    AddsAccesses session d d' := by
  obtain ⟨evs, he, hin⟩ := h
  refine ⟨.access a l session :: evs, ?_, fun e he => ?_⟩
  · rw [he, h₁, List.append_assoc]
    rfl
  · rcases List.mem_cons.mp he with rfl | he
    · exact ⟨a, l, rfl⟩
    · exact hin e he

theorem transferLoop_addsAccesses (hop : Reports session op) :
    AddsAccesses session d (transferLoop len op e n addr size pos buf d).2 := by
  induction n generalizing addr size pos buf d with
  | zero => cases size <;> exact .refl
  | succ n ih =>
    cases size with
    | zero => exact .refl
    | succ size =>
      have hev := hop addr pos (nextChunk len addr (size + 1)) d
      unfold transferLoop
      dsimp only
      generalize op addr pos (nextChunk len addr (size + 1)) d = r at hev ⊢
      obtain ⟨_ | bs, d₁⟩ := r
      · exact .cons hev .refl
      · exact .cons hev ih

theorem eraseLoop_addsAccesses :
    AddsAccesses session d (eraseLoop hal len session n addr size d).2 := by
  induction n generalizing addr size d with
  | zero => cases size <;> exact .refl
  | succ n ih =>
    cases size with
    | zero => exact .refl
    | succ size =>
      have hev : (jedecSecureErase hal addr len session d).2.events =
          d.events ++ [.access addr len session] := rfl
      unfold eraseLoop
      generalize jedecSecureErase hal addr len session d = r at hev ⊢
      obtain ⟨_ | _, d₁⟩ := r
      · exact .cons hev .refl
      · exact .cons hev ih

/-! ## Sessions -/

/-- Each session that is made after `before` is passed to the HAL to be ended by `after`. -/
def EndsSessions (before after : List Event) : Prop :=
  ∃ added, after = before ++ added ∧ ∀ pre keyId session post,
    added = pre ++ .create keyId (some session) :: post → .terminate session ∈ post

def Event.opens : Event → Int
  | .create _ (some _) => 1
  | .terminate _ => -1
  | _ => 0

/-- The number of sessions that are open. -/
def openSessions (events : List Event) : Int := (events.map Event.opens).sum

theorem openSessions_append (evs evs' : List Event) :
    openSessions (evs ++ evs') = openSessions evs + openSessions evs' := by
  unfold openSessions
  rw [List.map_append, List.sum_append]

theorem openSessions_cons (e : Event) (evs : List Event) :
    openSessions (e :: evs) = e.opens + openSessions evs := by
  unfold openSessions
  rw [List.map_cons, List.sum_cons]

theorem openSessions_accesses {evs : List Event} (h : ∀ e ∈ evs, ∃ a l, e = .access a l session) :
    openSessions evs = 0 := by
  induction evs with
  | nil => rfl
  | cons e evs ih =>
    obtain ⟨a, l, rfl⟩ := h e List.mem_cons_self
    have hrest := ih fun e he => h e (List.mem_cons_of_mem _ he)
    rw [openSessions_cons, hrest]
    rfl

/-- Each session is ended, and as many are open as before. -/
def Balanced (before after : List Event) : Prop :=
  EndsSessions before after ∧ openSessions after = openSessions before

/-- A session that is made, used and ended. -/
theorem balanced_ended (before : List Event) (keyId : Nat) {evs : List Event}
    (h : ∀ e ∈ evs, ∃ a l, e = .access a l session) :
    Balanced before (before ++ .create keyId (some session) :: (evs ++ [.terminate session])) := by
  refine ⟨⟨_, rfl, fun pre k s post he => ?_⟩, ?_⟩
  · cases pre with
    | nil =>
      injection he with hhead htail
      injection hhead with _ hs
      injection hs with hs
      subst hs
      rw [← htail]
      exact List.mem_append_right _ (List.mem_singleton_self _)
    | cons e pre =>
      -- nothing after the first event makes a session
      injection he with _ htail
      have hm : Event.create k (some s) ∈ evs ++ [.terminate session] :=
        htail ▸ List.mem_append_right _ List.mem_cons_self
      rcases List.mem_append.mp hm with hm | hm
      · obtain ⟨a, l, hacc⟩ := h _ hm
        cases hacc
      · cases List.mem_singleton.mp hm
  · -- one session more is open, then one less
    rw [openSessions_append, openSessions_cons, openSessions_append, openSessions_accesses h]
    exact add_zero _

/-- A session that is made and used, and left open. -/
theorem not_endsSessions (before : List Event) (keyId : Nat) {evs : List Event}
    (h : ∀ e ∈ evs, ∃ a l, e = .access a l session) :
    ¬ EndsSessions before (before ++ .create keyId (some session) :: evs) := by
  rintro ⟨added, he, hends⟩
  obtain rfl := List.append_cancel_left he
  obtain ⟨a, l, hacc⟩ := h _ (hends [] keyId session evs rfl)
  cases hacc

theorem Balanced.refl (evs : List Event) : Balanced evs evs :=
  ⟨⟨[], (List.append_nil _).symm, fun pre _ _ _ h => by simp at h⟩, rfl⟩

theorem balanced_create_none (evs : List Event) (keyId : Nat) :
    Balanced evs (evs ++ [.create keyId none]) := by
  refine ⟨⟨_, rfl, fun pre k s post h => ?_⟩, ?_⟩
  · cases pre with
    | nil => cases h
    | cons e pre => simp at h
  · rw [openSessions_append]
    exact add_zero _

/-- The sessions of an access that returns: they balance exactly when no session is made, or its
loop does not fail. -/
theorem accessIn_balanced_iff {loop : (session : Nat) → Device J → Result J} {first : AppData}
    (hq : queryAppInfo spEtss sf addr appId = some first)
    (hadds : ∀ session d, AddsAccesses session d (loop session d).2)
    (hret : (accessIn hal spEtss sf addr appId loop d).1.isSome = true) :
    (EndsSessions d.events (accessIn hal spEtss sf addr appId loop d).2.events ↔
      ¬ ∃ session d₁, jedecCreateSession hal first.keyId d = (some session, d₁) ∧
        Errs (loop session d₁)) ∧
    (EndsSessions d.events (accessIn hal spEtss sf addr appId loop d).2.events →
      Balanced d.events (accessIn hal spEtss sf addr appId loop d).2.events) := by
  have hcreate : (jedecCreateSession hal first.keyId d).2.events =
      d.events ++ [.create first.keyId (jedecCreateSession hal first.keyId d).1] := rfl
  unfold accessIn at hret ⊢
  rw [hq] at hret ⊢
  dsimp only at hret ⊢
  generalize jedecCreateSession hal first.keyId d = r at hcreate hret ⊢
  obtain ⟨_ | session, d₁⟩ := r
  · have hb : Balanced d.events d₁.events := hcreate ▸ balanced_create_none _ _
    exact ⟨iff_of_true hb.1 fun ⟨_, _, h, _⟩ => (nomatch h), fun _ => hb⟩
  obtain ⟨evs, hevs, hacc⟩ := hadds session d₁
  have hloop : (loop session d₁).2.events =
      d.events ++ .create first.keyId (some session) :: evs := by
    rw [hevs, hcreate, List.append_assoc]
    rfl
  have hsame : (∃ session' d', ((some session, d₁) : Option Nat × Device J) = (some session', d') ∧
      Errs (loop session' d')) ↔ Errs (loop session d₁) := by
    constructor
    · rintro ⟨session', d', h, he⟩
      cases h
      exact he
    · exact fun he => ⟨session, d₁, rfl, he⟩
  rw [hsame]
  dsimp only at hret ⊢
  generalize loop session d₁ = r at hloop hret ⊢
  obtain ⟨_ | _ | buf, d₂⟩ := r
  · cases hret
  · have hopen := not_endsSessions d.events first.keyId hacc
    dsimp only at hloop ⊢
    rw [hloop]
    exact ⟨iff_of_false hopen (not_not_intro ⟨_, _, rfl⟩), fun h => absurd h hopen⟩
  · have hterm : (jedecTerminateSession hal session d₂).2.events =
        d.events ++ .create first.keyId (some session) :: (evs ++ [.terminate session]) := by
      show d₂.events ++ [.terminate session] = _
      rw [hloop, List.append_assoc]
      rfl
    have hb := balanced_ended d.events first.keyId hacc
    rw [← hterm] at hb
    dsimp only at hret ⊢
    generalize jedecTerminateSession hal session d₂ = r at hb ⊢
    obtain ⟨_ | _, d₃⟩ := r <;> exact ⟨iff_of_true hb.1 not_errs_ok, fun _ => hb⟩

/-! ## Calls -/

/-- A call of any of the three functions; the loop of an erase is followed for `rounds` rounds. -/
structure Call where
  access : Access
  addr : Nat
  size : Nat
  appId : Int
  rounds : Nat

namespace Call

def exec (hal : Jedec J) (spEtss : Int) (sf : Secureflash) (c : Call) (d : Device J) : Result J :=
  match c.access with
  | .read => secureflashSecureRead hal spEtss sf c.addr c.size c.appId d
  | .program buffer => secureflashSecureProgram hal spEtss sf buffer c.addr c.size c.appId d
  | .erase => secureflashSecureErase hal spEtss sf c.rounds c.addr c.size c.appId d

/-- What the call does with a chunk. -/
def onChunk (hal : Jedec J) (c : Call) (session : Nat) :
    (addr pos chunk : Nat) → Device J → Option (List UInt8) × Device J :=
  match c.access with
  | .read => readChunk hal session
  | .program buffer => programChunk hal buffer session
  | .erase => eraseChunk hal session

def chunks (sf : Secureflash) (c : Call) : List Chunk :=
  match c.access with
  | .read => chunksOf (nextChunk sf.architecture.secureReadSize) c.size c.addr c.size 0
  | .program _ => chunksOf (nextChunk sf.architecture.secureProgramSize) c.size c.addr c.size 0
  | .erase => chunksOf (fun _ _ => sf.architecture.minSecureEraseSize) c.rounds c.addr c.size 0

/-- The call passes its checks and is given a session, and the HAL then fails on one of its chunks. -/
def LeavesOpen (hal : Jedec J) (spEtss : Int) (sf : Secureflash) (c : Call) (d : Device J) : Prop :=
  ¬ Refused spEtss sf c.addr c.size c.appId c.access ∧ ∃ first session d₁,
    queryAppInfo spEtss sf c.addr c.appId = some first ∧
      jedecCreateSession hal first.keyId d = (some session, d₁) ∧
        FailsOn (c.onChunk hal session) d₁ (c.chunks sf)

/-- A call that is not refused: its loop in a session. -/
structure InSession (hal : Jedec J) (spEtss : Int) (sf : Secureflash) (c : Call)
    (loop : (session : Nat) → Device J → Result J) : Prop where
  exec_eq : ∀ d, c.exec hal spEtss sf d = accessIn hal spEtss sf c.addr c.appId loop d
  adds : ∀ session d, AddsAccesses session d (loop session d).2
  errs_iff : ∀ session d, Errs (loop session d) ↔ FailsOn (c.onChunk hal session) d (c.chunks sf)

variable {c : Call}

theorem inSession (h : ¬ Refused spEtss sf c.addr c.size c.appId c.access) :
    ∃ loop, InSession hal spEtss sf c loop := by
  obtain ⟨access, addr, size, appId, rounds⟩ := c
  unfold Refused at h
  simp only [not_or] at h
  obtain ⟨hinit, htotal, _, hrest⟩ := h
  cases access with
  | read =>
    refine ⟨fun session => transferLoop sf.architecture.secureReadSize (readChunk hal session)
      .secureRead size addr size 0 [], fun d => ?_,
      fun _ _ => transferLoop_addsAccesses (read_reports _), fun _ _ => transferLoop_errs_iff⟩
    show secureflashSecureRead hal spEtss sf addr size appId d = _
    unfold secureflashSecureRead
    rw [if_neg hinit, if_neg htotal]
    rfl
  | program buffer =>
    refine ⟨fun session => transferLoop sf.architecture.secureProgramSize
      (programChunk hal buffer session) .secureProgram size addr size 0 [], fun d => ?_,
      fun _ _ => transferLoop_addsAccesses (program_reports buffer _),
      fun _ _ => transferLoop_errs_iff⟩
    show secureflashSecureProgram hal spEtss sf buffer addr size appId d = _
    unfold secureflashSecureProgram
    rw [if_neg hinit, if_neg htotal]
  | erase =>
    refine ⟨fun session => eraseLoop hal sf.architecture.minSecureEraseSize session rounds addr size,
      fun d => ?_, fun _ _ => eraseLoop_addsAccesses, fun _ _ => eraseLoop_errs_iff 0⟩
    show secureflashSecureErase hal spEtss sf rounds addr size appId d = _
    unfold secureflashSecureErase
    dsimp only
    have hrest : ¬ (addr % sf.architecture.minSecureEraseSize ≠ 0 ∨
      add32 addr size % sf.architecture.minSecureEraseSize ≠ 0) := hrest
    rw [if_neg hinit, if_neg htotal, if_neg hrest]

/-- A refused call leaves the device alone. -/
theorem exec_refused (h : Refused spEtss sf c.addr c.size c.appId c.access) (d : Device J) :
    (c.exec hal spEtss sf d).2 = d := by
  obtain ⟨access, addr, size, appId, rounds⟩ := c
  have hnone : ∀ loop : (session : Nat) → Device J → Result J,
      queryAppInfo spEtss sf addr appId = none →
        (accessIn hal spEtss sf addr appId loop d).2 = d := fun loop hq => by
    unfold accessIn
    rw [hq]
  unfold Refused at h
  dsimp only at h
  cases access with
  | read =>
    show (secureflashSecureRead hal spEtss sf addr size appId d).2 = d
    unfold secureflashSecureRead
    split_ifs with h₁ h₂
    · rfl
    · rfl
    · exact hnone _ (by tauto)
  | program buffer =>
    show (secureflashSecureProgram hal spEtss sf buffer addr size appId d).2 = d
    unfold secureflashSecureProgram
    split_ifs with h₁ h₂
    · rfl
    · rfl
    · exact hnone _ (by tauto)
  | erase =>
    show (secureflashSecureErase hal spEtss sf rounds addr size appId d).2 = d
    unfold secureflashSecureErase
    dsimp only
    split_ifs with h₁ h₂ h₃
    · rfl
    · rfl
    · rfl
    · exact hnone _ (by tauto)

/-- A call that returns ends its sessions exactly when it does not leave one open; the sessions
then balance. -/
theorem endsSessions_iff (hret : (c.exec hal spEtss sf d).1.isSome = true) :
    (EndsSessions d.events (c.exec hal spEtss sf d).2.events ↔ ¬ c.LeavesOpen hal spEtss sf d) ∧
    (EndsSessions d.events (c.exec hal spEtss sf d).2.events →
      Balanced d.events (c.exec hal spEtss sf d).2.events) := by
  by_cases hr : Refused spEtss sf c.addr c.size c.appId c.access
  · rw [exec_refused hr]
    have hb := Balanced.refl d.events
    exact ⟨iff_of_true hb.1 fun hl => hl.1 hr, fun _ => hb⟩
  obtain ⟨loop, hl⟩ : ∃ loop, InSession hal spEtss sf c loop := inSession hr
  have hquery := hr
  unfold Refused at hquery
  simp only [not_or] at hquery
  obtain ⟨first, hq⟩ := Option.ne_none_iff_exists'.mp hquery.2.2.1
  have hleaves : c.LeavesOpen hal spEtss sf d ↔ ∃ session d₁,
      jedecCreateSession hal first.keyId d = (some session, d₁) ∧ Errs (loop session d₁) := by
    simp only [LeavesOpen, hl.errs_iff, hq, Option.some.injEq]
    constructor
    · rintro ⟨_, _, session, d₁, rfl, h⟩
      exact ⟨session, d₁, h⟩
    · rintro ⟨session, d₁, h⟩
      exact ⟨hr, first, session, d₁, rfl, h⟩
  rw [hl.exec_eq] at hret ⊢
  rw [hleaves]
  exact accessIn_balanced_iff hq hl.adds hret

end Call

/-! ## Sequences of calls -/

/-- A call that returned, and the devices before and after it. -/
structure Returned (J : Type) where
  call : Call
  before : Device J
  after : Device J

/-- The calls of a sequence that return: one that does not is the last. -/
def returns (hal : Jedec J) (spEtss : Int) (sf : Secureflash) :
    List Call → Device J → List (Returned J)
  | [], _ => []
  | c :: cs, d =>
    match c.exec hal spEtss sf d with
    | (none, _) => []
    | (some _, d') => ⟨c, d, d'⟩ :: returns hal spEtss sf cs d'

theorem returns_balanced {cs : List Call}
    (h : ∀ r ∈ returns hal spEtss sf cs d, ¬ r.call.LeavesOpen hal spEtss sf r.before) :
    ∀ r ∈ returns hal spEtss sf cs d, EndsSessions r.before.events r.after.events ∧
      openSessions r.after.events = openSessions d.events := by
  induction cs generalizing d with
  | nil => exact fun r hr => absurd hr List.not_mem_nil
  | cons c cs ih =>
    unfold returns at h ⊢
    have hcall := @Call.endsSessions_iff J hal spEtss sf d c
    generalize c.exec hal spEtss sf d = r at h hcall ⊢
    obtain ⟨_ | ret, d₁⟩ := r
    · exact fun r hr => absurd hr List.not_mem_nil
    obtain ⟨hiff, hbal⟩ := hcall rfl
    have hends := hiff.mpr (h _ List.mem_cons_self)
    have hopen : openSessions d₁.events = openSessions d.events := (hbal hends).2
    intro r hr
    rcases List.mem_cons.mp hr with rfl | hr
    · exact ⟨hends, hopen⟩
    · rw [← hopen]
      exact ih (fun r hr => h r (List.mem_cons_of_mem _ hr)) r hr

theorem not_leavesOpen_of_returns {cs : List Call}
    (h : ∀ r ∈ returns hal spEtss sf cs d, EndsSessions r.before.events r.after.events) :
    ∀ r ∈ returns hal spEtss sf cs d, ¬ r.call.LeavesOpen hal spEtss sf r.before := by
  induction cs generalizing d with
  | nil => exact fun r hr => absurd hr List.not_mem_nil
  | cons c cs ih =>
    unfold returns at h ⊢
    have hcall := @Call.endsSessions_iff J hal spEtss sf d c
    generalize c.exec hal spEtss sf d = r at h hcall ⊢
    obtain ⟨_ | ret, d₁⟩ := r
    · exact fun r hr => absurd hr List.not_mem_nil
    intro r hr
    rcases List.mem_cons.mp hr with rfl | hr
    · exact (hcall rfl).1.mp (h _ List.mem_cons_self)
    · exact ih (fun r hr => h r (List.mem_cons_of_mem _ hr)) r hr

/-- The sessions of a sequence of calls balance exactly when no call of it leaves its session
open: every call ends what it makes, and between calls the number of open sessions is the same. -/
theorem sessions_balanced_iff (hal : Jedec J) (spEtss : Int) (sf : Secureflash) (cs : List Call)
    (d : Device J) :
    (∀ r ∈ returns hal spEtss sf cs d, EndsSessions r.before.events r.after.events ∧
        openSessions r.after.events = openSessions d.events) ↔
      ∀ r ∈ returns hal spEtss sf cs d, ¬ r.call.LeavesOpen hal spEtss sf r.before :=
  ⟨fun h => not_leavesOpen_of_returns fun r hr => (h r hr).1, returns_balanced⟩

/-- A HAL on which every read fails. -/
def readsFail : Jedec Unit := { allSucceeds with secureRead := fun _ _ _ j => (none, j) }

/-- Application 7 reads eight bytes of its zone; the read fails and the session stays open. -/
theorem not_sessions_balanced : ¬ ∀ (J : Type) (hal : Jedec J) spEtss sf cs (d : Device J),
    ∀ r ∈ returns hal spEtss sf cs d, EndsSessions r.before.events r.after.events ∧
      openSessions r.after.events = openSessions d.events := by
  intro h
  have hopen := (h Unit readsFail 1 twoApps [⟨.read, 4, 8, 7, 0⟩] ⟨(), []⟩ _ List.mem_cons_self).2
  exact absurd hopen (by decide)

end SecureFlash
