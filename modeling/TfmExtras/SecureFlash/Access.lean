import TfmExtras.SecureFlash.Defs

/-! The bytes that an access reaches, and the zones they lie in. The permission is looked up for
the first byte only, so that a range over the end of its zone reaches the next one. -/

namespace SecureFlash
open Etss

variable {J : Type} {hal : Jedec J} {spEtss : Int} {sf : Secureflash} {appId : Int}
  {addr size pos n len session x : Nat} {d d' : Device J} {buf : List UInt8} {e : Error}

/-! ## Chunks -/

theorem nextChunk_cases (addr : Nat) (hl : 0 < len) (hl' : len < 2 ^ 32) (hs : 0 < size)
    (hs' : size < 2 ^ 32) :
    nextChunk len addr size = size ∨
      (nextChunk len addr size = len - addr % len ∧ nextChunk len addr size ≤ size) := by
  have hmod := Nat.mod_lt addr hl
  unfold nextChunk
  dsimp only
  split_ifs with h
  · exact .inl rfl
  · rw [sub32_eq hl' hmod.le]
    refine .inr ⟨rfl, ?_⟩
    unfold add32 at h
    omega

theorem nextChunk_pos (addr : Nat) (hl : 0 < len) (hl' : len < 2 ^ 32) (hs : 0 < size) (hs' : size < 2 ^ 32) :
    0 < nextChunk len addr size ∧ nextChunk len addr size ≤ size := by
  have hmod := Nat.mod_lt addr hl
  rcases nextChunk_cases addr hl hl' hs hs' with h | ⟨h, hle⟩ <;> omega

/-! ## What a loop passes to the HAL -/

/-- The events that are added are accesses inside `[addr, addr + size)`. -/
def AddsWithin (addr size session : Nat) (d d' : Device J) : Prop :=
  ∃ evs, d'.events = d.events ++ evs ∧ ∀ e ∈ evs, ∃ a l, e = .access a l session ∧
    addr ≤ a ∧ a + l ≤ addr + size

theorem AddsWithin.refl : AddsWithin addr size session d d :=
  ⟨[], (List.append_nil _).symm, fun _ h => absurd h List.not_mem_nil⟩

/-- One access, and those after it. -/
theorem AddsWithin.cons {d₁ : Device J} {chunk : Nat} (hc : chunk ≤ size)
    (h₁ : d₁.events = d.events ++ [.access addr chunk session])
    (h : AddsWithin (addr + chunk) (size - chunk) session d₁ d') :
    AddsWithin addr size session d d' := by
  obtain ⟨evs, he, hin⟩ := h
  refine ⟨.access addr chunk session :: evs, ?_, fun e he => ?_⟩
  · rw [he, h₁, List.append_assoc]
    rfl
  · rcases List.mem_cons.mp he with rfl | he
    · exact ⟨addr, chunk, rfl, le_rfl, by omega⟩
    · obtain ⟨a, l, rfl, h₁, h₂⟩ := hin e he
      exact ⟨a, l, rfl, by omega, by omega⟩

/-- The operation adds its access to the events, whatever it returns. -/
def Reports (session : Nat) (op : (addr pos chunk : Nat) → Device J → Option (List UInt8) × Device J) :
    Prop :=
  ∀ addr pos chunk d, (op addr pos chunk d).2.events = d.events ++ [.access addr chunk session]

theorem transferLoop_within {op : (addr pos chunk : Nat) → Device J → Option (List UInt8) × Device J}
    (hop : Reports session op) (hl : 0 < len) (hl' : len < 2 ^ 32) (ha : addr + size < 2 ^ 32) :
    AddsWithin addr size session d (transferLoop len op e n addr size pos buf d).2 := by
  induction n generalizing addr size pos buf d with
  | zero => cases size <;> exact .refl
  | succ n ih =>
    cases size with
    | zero => exact .refl
    | succ size =>
      obtain ⟨hpos, hle⟩ := nextChunk_pos addr hl hl' (show 0 < size + 1 by omega) (by omega)
      have hev := hop addr pos (nextChunk len addr (size + 1)) d
      unfold transferLoop
      dsimp only
      generalize op addr pos (nextChunk len addr (size + 1)) d = r at hev ⊢
      obtain ⟨_ | bs, d₁⟩ := r
      · exact .cons hle hev .refl
      · rw [add32_eq (by omega), sub32_eq (by omega) hle]
        exact .cons hle hev (ih (by omega))

/-- Without a wrap-around, a loop that ends at a multiple of the erase size stays in its range. -/
theorem eraseLoop_within (ha : addr + size < 2 ^ 32) (hd : len ∣ size) :
    AddsWithin addr size session d (eraseLoop hal len session n addr size d).2 := by
  induction n generalizing addr size d with
  | zero => cases size <;> exact .refl
  | succ n ih =>
    cases size with
    | zero => exact .refl
    | succ size =>
      have hle : len ≤ size + 1 := Nat.le_of_dvd size.succ_pos hd
      have hev : (jedecSecureErase hal addr len session d).2.events =
          d.events ++ [.access addr len session] := rfl
      unfold eraseLoop
      generalize jedecSecureErase hal addr len session d = r at hev ⊢
      obtain ⟨_ | _, d₁⟩ := r
      · exact .cons hle hev .refl
      · dsimp only
        rw [add32_eq (by omega), sub32_eq (by omega) hle]
        exact .cons hle hev (ih (by omega) (Nat.dvd_sub hd dvd_rfl))

/-! ## What a loop reaches when nothing fails -/

/-- Byte `x` is accessed in the session. -/
def Reached (session x : Nat) (d : Device J) : Prop :=
  ∃ a l, .access a l session ∈ d.events ∧ a ≤ x ∧ x < a + l

/-- The loop only adds to the events. -/
theorem transferLoop_extends
    {op : (addr pos chunk : Nat) → Device J → Option (List UInt8) × Device J}
    (hop : Reports session op) (n addr size pos : Nat) (buf : List UInt8) (d : Device J) :
    d.events <+: (transferLoop len op e n addr size pos buf d).2.events := by
  induction n generalizing addr size pos buf d with
  | zero => cases size <;> exact List.prefix_rfl
  | succ n ih =>
    cases size with
    | zero => exact List.prefix_rfl
    | succ size =>
      have hev := hop addr pos (nextChunk len addr (size + 1)) d
      unfold transferLoop
      dsimp only
      generalize op addr pos (nextChunk len addr (size + 1)) d = r at hev ⊢
      have hpre : d.events <+: r.2.events := hev ▸ List.prefix_append _ _
      obtain ⟨_ | bs, d₁⟩ := r
      · exact hpre
      · exact hpre.trans (ih _ _ _ _ _)

theorem eraseLoop_extends (n addr size : Nat) (d : Device J) :
    d.events <+: (eraseLoop hal len session n addr size d).2.events := by
  induction n generalizing addr size d with
  | zero => cases size <;> exact List.prefix_rfl
  | succ n ih =>
    cases size with
    | zero => exact List.prefix_rfl
    | succ size =>
      have hpre : d.events <+: (jedecSecureErase hal addr len session d).2.events :=
        List.prefix_append _ _
      unfold eraseLoop
      generalize jedecSecureErase hal addr len session d = r at hpre ⊢
      obtain ⟨_ | _, d₁⟩ := r
      · exact hpre
      · exact hpre.trans (ih _ _ _)

theorem reached_of_prefix {chunk : Nat} {d₁ : Device J} (h₁ : addr ≤ x) (h₂ : x < addr + chunk)
    (hd : d.events ++ [.access addr chunk session] <+: d₁.events) : Reached session x d₁ :=
  ⟨addr, chunk, hd.subset (List.mem_append_right _ (List.mem_singleton_self _)), h₁, h₂⟩

/-- Every byte of the range is reached, up to where the addresses wrap around. -/
theorem transferLoop_reaches
    {op : (addr pos chunk : Nat) → Device J → Option (List UInt8) × Device J}
    (hop : Reports session op) (hok : ∀ addr pos chunk d, (op addr pos chunk d).1.isSome = true)
    (hl : 0 < len) (hl' : len < 2 ^ 32) (hs : size < 2 ^ 32) (hn : size ≤ n) (h₁ : addr ≤ x)
    (h₂ : x < addr + size) (hx : x < 2 ^ 32) :
    Reached session x (transferLoop len op e n addr size pos buf d).2 := by
  induction n generalizing addr size pos buf d with
  | zero => omega
  | succ n ih =>
    cases size with
    | zero => omega
    | succ size =>
      obtain ⟨hpos, hle⟩ := nextChunk_pos addr hl hl' (show 0 < size + 1 by omega) hs
      have hev := hop addr pos (nextChunk len addr (size + 1)) d
      have hsome := hok addr pos (nextChunk len addr (size + 1)) d
      unfold transferLoop
      dsimp only
      generalize op addr pos (nextChunk len addr (size + 1)) d = r at hev hsome ⊢
      obtain ⟨_ | bs, d₁⟩ := r
      · cases hsome
      · by_cases hc : x < addr + nextChunk len addr (size + 1)
        · exact reached_of_prefix h₁ hc (hev ▸ transferLoop_extends hop _ _ _ _ _ _)
        · dsimp only
          rw [add32_eq (by omega), sub32_eq hs hle]
          exact ih (by omega) (by omega) (by omega) (by omega)

theorem eraseLoop_reaches (hok : ∀ addr len session j, (hal.secureErase addr len session j).1 = true)
    (hl : 0 < len) (hs : size < 2 ^ 32) (hn : size ≤ n) (h₁ : addr ≤ x) (h₂ : x < addr + size)
    (hx : x < 2 ^ 32) : Reached session x (eraseLoop hal len session n addr size d).2 := by
  induction n generalizing addr size d with
  | zero => omega
  | succ n ih =>
    cases size with
    | zero => omega
    | succ size =>
      have hev : (jedecSecureErase hal addr len session d).2.events =
          d.events ++ [.access addr len session] := rfl
      have htrue : (jedecSecureErase hal addr len session d).1 = true := hok addr len session _
      unfold eraseLoop
      generalize jedecSecureErase hal addr len session d = r at hev htrue ⊢
      obtain ⟨_ | _, d₁⟩ := r
      · cases htrue
      · by_cases hc : x < addr + len
        · exact reached_of_prefix h₁ hc (hev ▸ eraseLoop_extends _ _ _ _)
        · dsimp only
          rw [add32_eq (by omega), sub32_eq hs (by omega)]
          exact ih (by omega) (by omega) (by omega) (by omega)

/-! ## Calls -/

/-- An access, with what it is given besides the address and the size. -/
inductive Access
  | read
  | program (buffer : Nat → UInt8)
  | erase

/-- An access on an idle device, where the loop of an erase is followed for `n` rounds. -/
def Access.run (spEtss : Int) (sf : Secureflash) (hal : Jedec J) (n addr size : Nat) (appId : Int)
    (j : J) : Access → Result J
  | .read => secureflashSecureRead hal spEtss sf addr size appId ⟨j, []⟩
  | .program buffer => secureflashSecureProgram hal spEtss sf buffer addr size appId ⟨j, []⟩
  | .erase => secureflashSecureErase hal spEtss sf n addr size appId ⟨j, []⟩

/-- The zone of byte `x` is bound to the application by an entry with this key. For the ETSS
partition, an entry of any application is enough. -/
def Bound (spEtss : Int) (sf : Secureflash) (appId : Int) (x keyId : Nat) : Prop :=
  ∃ entry ∈ sf.appData, entry.zoneId = x / sf.architecture.secureZoneSize ∧
    (appId = spEtss ∨ entry.appId = appId) ∧ entry.keyId = keyId

/-- Every byte that is accessed lies below the end of the zones and in a zone that is bound to
the application, under the key that the session was made with. -/
def Confined (spEtss : Int) (sf : Secureflash) (appId : Int) (events : List Event) : Prop :=
  ∀ addr len session, .access addr len session ∈ events → ∀ x, addr ≤ x → x < addr + len →
    x < sf.architecture.secureZoneTotalSize ∧
      ∃ keyId, .create keyId (some session) ∈ events ∧ Bound spEtss sf appId x keyId

/-- The checks that an access makes, from the start address alone. -/
def Refused (spEtss : Int) (sf : Secureflash) (addr size : Nat) (appId : Int) (a : Access) : Prop :=
  sf.isInitialized = false ∨ add32 addr size > sf.architecture.secureZoneTotalSize ∨
    queryAppInfo spEtss sf addr appId = none ∨
    match a with
    | .erase => addr % sf.architecture.minSecureEraseSize ≠ 0 ∨
        add32 addr size % sf.architecture.minSecureEraseSize ≠ 0
    | _ => False

/-- The range does not wrap around, and each of its zones is bound to the application under the
key of the first one. -/
def Covered (spEtss : Int) (sf : Secureflash) (addr size : Nat) (appId : Int) : Prop :=
  addr + size < 2 ^ 32 ∧ ∃ first, queryAppInfo spEtss sf addr appId = some first ∧
    ∀ x, addr ≤ x → x < addr + size → Bound spEtss sf appId x first.keyId

/-! ## The session around a loop -/

/-- The events of an access whose lookup finds `first`: the attempt to make a session under its
key, what the loop adds, and the end of the session. -/
theorem accessIn_events {loop : (session : Nat) → Device J → Result J} {first : AppData} {j : J}
    (hq : queryAppInfo spEtss sf addr appId = some first)
    (hin : ∀ session d, AddsWithin addr size session d (loop session d).2) :
    ∃ session evs, (accessIn hal spEtss sf addr appId loop ⟨j, []⟩).2.events =
        .create first.keyId session :: evs ∧ ∀ e ∈ evs, ∃ s, session = some s ∧
          (e = .terminate s ∨ ∃ a l, e = .access a l s ∧ addr ≤ a ∧ a + l ≤ addr + size) := by
  have hcreate : (jedecCreateSession hal first.keyId ⟨j, []⟩).2.events =
      [.create first.keyId (jedecCreateSession hal first.keyId ⟨j, []⟩).1] := rfl
  unfold accessIn
  rw [hq]
  dsimp only
  generalize jedecCreateSession hal first.keyId ⟨j, []⟩ = r at hcreate ⊢
  obtain ⟨_ | session, d₁⟩ := r
  · exact ⟨none, [], hcreate, fun _ he => absurd he List.not_mem_nil⟩
  obtain ⟨evs, hevs, hacc⟩ := hin session d₁
  have hloop : (loop session d₁).2.events = .create first.keyId (some session) :: evs := by
    rw [hevs, hcreate]
    rfl
  have hin' : ∀ e ∈ evs, ∃ s, some session = some s ∧
      (e = .terminate s ∨ ∃ a l, e = .access a l s ∧ addr ≤ a ∧ a + l ≤ addr + size) :=
    fun e he => ⟨session, rfl, .inr (hacc e he)⟩
  dsimp only
  generalize loop session d₁ = r at hloop ⊢
  obtain ⟨_ | _ | buf, d₂⟩ := r
  · exact ⟨some session, evs, hloop, hin'⟩
  · exact ⟨some session, evs, hloop, hin'⟩
  · have hterm : (jedecTerminateSession hal session d₂).2.events =
        .create first.keyId (some session) :: (evs ++ [.terminate session]) := by
      show d₂.events ++ [.terminate session] = _
      rw [hloop]
      rfl
    refine ⟨some session, evs ++ [.terminate session], ?_, fun e he => ?_⟩
    · dsimp only
      generalize jedecTerminateSession hal session d₂ = r at hterm ⊢
      obtain ⟨_ | _, d₃⟩ := r <;> exact hterm
    · rcases List.mem_append.mp he with he | he
      · exact hin' e he
      · exact ⟨session, rfl, .inl (List.mem_singleton.mp he)⟩

theorem accessIn_confined {loop : (session : Nat) → Device J → Result J} {j : J}
    (hc : Covered spEtss sf addr size appId)
    (htotal : add32 addr size ≤ sf.architecture.secureZoneTotalSize)
    (hin : ∀ session d, AddsWithin addr size session d (loop session d).2) :
    Confined spEtss sf appId (accessIn hal spEtss sf addr appId loop ⟨j, []⟩).2.events := by
  obtain ⟨hlt, first, hq, hbound⟩ := hc
  obtain ⟨session, evs, he, hevs⟩ : ∃ session evs, (accessIn hal spEtss sf addr appId loop
      ⟨j, []⟩).2.events = .create first.keyId session :: evs ∧ _ := accessIn_events hq hin
  rw [add32_eq hlt] at htotal
  rw [he]
  intro a l s hm x h₁ h₂
  rcases List.mem_cons.mp hm with hm | hm
  · cases hm
  obtain ⟨s', rfl, ht | ⟨a', l', hacc, h₃, h₄⟩⟩ := hevs _ hm
  · cases ht
  injection hacc with ha hl hs
  subst ha hl hs
  exact ⟨by omega, first.keyId, List.mem_cons_self, hbound x (by omega) (by omega)⟩

/-- A HAL that never fails. -/
def allSucceeds : Jedec Unit where
  createSession _ j := (some 0, j)
  terminateSession _ j := (true, j)
  secureRead _ _ _ j := (some [], j)
  secureProgram _ _ _ j := (true, j)
  secureErase _ _ _ j := (true, j)

/-- What the loop reaches is reached by the access. -/
theorem accessIn_reaches {loop : (session : Nat) → Device Unit → Result Unit} {first : AppData}
    (hq : queryAppInfo spEtss sf addr appId = some first)
    (hx : ∀ d, Reached 0 x (loop 0 d).2) :
    Reached 0 x (accessIn allSucceeds spEtss sf addr appId loop ⟨(), []⟩).2 := by
  have hcreate : jedecCreateSession allSucceeds first.keyId ⟨(), []⟩ =
      (some 0, ⟨(), [.create first.keyId (some 0)]⟩) := rfl
  unfold accessIn
  rw [hq]
  dsimp only
  rw [hcreate]
  have hr := hx ⟨(), [.create first.keyId (some 0)]⟩
  dsimp only
  generalize loop 0 ⟨(), [.create first.keyId (some 0)]⟩ = r at hr ⊢
  obtain ⟨_ | _ | buf, d₂⟩ := r
  · exact hr
  · exact hr
  · obtain ⟨a, l, hm, h₁, h₂⟩ := hr
    exact ⟨a, l, List.mem_append_left _ hm, h₁, h₂⟩

/-- An access that reaches its whole range is confined only when the range is covered. -/
theorem covered_of_confined {loop : (session : Nat) → Device Unit → Result Unit}
    {first : AppData} (hq : queryAppInfo spEtss sf addr appId = some first)
    (ha : addr < 2 ^ 32)
    (hreach : ∀ x, addr ≤ x → x < addr + size → x < 2 ^ 32 → ∀ d, Reached 0 x (loop 0 d).2)
    (hin : addr + size < 2 ^ 32 → ∀ session d, AddsWithin addr size session d (loop session d).2)
    (hc : Confined spEtss sf appId
      (accessIn allSucceeds spEtss sf addr appId loop ⟨(), []⟩).2.events) :
    Covered spEtss sf addr size appId := by
  have hbyte : ∀ x, addr ≤ x → x < addr + size → x < 2 ^ 32 →
      x < sf.architecture.secureZoneTotalSize ∧ ∃ keyId, .create keyId (some 0) ∈
        (accessIn allSucceeds spEtss sf addr appId loop ⟨(), []⟩).2.events ∧
          Bound spEtss sf appId x keyId := by
    intro x h₁ h₂ hx
    obtain ⟨a, l, hm, h₃, h₄⟩ := accessIn_reaches hq (hreach x h₁ h₂ hx)
    exact hc a l 0 hm x h₃ h₄
  have htotal := sf.architecture.secureZoneTotalSize_lt
  -- a range that wraps around has the last address in it, which is in no zone
  have hlt : addr + size < 2 ^ 32 := by
    by_contra hn
    have hlast := (hbyte (2 ^ 32 - 1) (by omega) (by omega) (by omega)).1
    omega
  obtain ⟨session, evs, he, hevs⟩ : ∃ session evs, (accessIn allSucceeds spEtss sf addr appId loop
      ⟨(), []⟩).2.events = .create first.keyId session :: evs ∧ _ := accessIn_events hq (hin hlt)
  refine ⟨hlt, first, hq, fun x h₁ h₂ => ?_⟩
  obtain ⟨_, keyId, hm, hbound⟩ := hbyte x h₁ h₂ (by omega)
  rw [he] at hm
  rcases List.mem_cons.mp hm with hm | hm
  · injection hm with hkey _
    exact hkey ▸ hbound
  · obtain ⟨s, _, ht | ⟨a, l, hacc, _⟩⟩ := hevs _ hm
    · cases ht
    · cases hacc

/-! ## Which accesses are confined -/

theorem read_reports (session : Nat) :
    Reports session fun addr _ chunk => jedecSecureRead hal addr chunk session := by
  intro addr pos chunk d
  rfl

theorem program_reports (buffer : Nat → UInt8) (session : Nat) :
    Reports session (programChunk hal buffer session) := by
  intro addr pos chunk d
  have hev : (jedecSecureProgram hal addr ((List.range chunk).map fun k => buffer (pos + k))
      session d).2.events = d.events ++ [.access addr chunk session] := by
    show d.events ++ [.access addr ((List.range chunk).map fun k => buffer (pos + k)).length
      session] = _
    rw [List.length_map, List.length_range]
  unfold programChunk
  generalize jedecSecureProgram hal addr ((List.range chunk).map fun k => buffer (pos + k))
    session d = r at hev ⊢
  obtain ⟨_ | _, d₁⟩ := r <;> exact hev

/-- What an access does when its arguments are not refused: a loop in a session, which stays in
the range where the addresses do not wrap around, and reaches all of it when nothing fails. -/
structure Loops (spEtss : Int) (sf : Secureflash) (addr size : Nat) (appId : Int) (a : Access)
    (loop : (J : Type) → Jedec J → (n session : Nat) → Device J → Result J) : Prop where
  run_eq : ∀ (J : Type) (hal : Jedec J) n j, a.run spEtss sf hal n addr size appId j =
    accessIn hal spEtss sf addr appId (loop J hal n) ⟨j, []⟩
  within : ∀ (J : Type) (hal : Jedec J) n, addr + size < 2 ^ 32 → ∀ session d,
    AddsWithin addr size session d (loop J hal n session d).2
  reaches : size < 2 ^ 32 → ∀ x, addr ≤ x → x < addr + size → x < 2 ^ 32 → ∀ d,
    Reached 0 x (loop Unit allSucceeds size 0 d).2

theorem loops_read (hinit : ¬ sf.isInitialized = false)
    (htotal : ¬ add32 addr size > sf.architecture.secureZoneTotalSize) :
    Loops spEtss sf addr size appId .read fun _ hal _ session =>
      transferLoop sf.architecture.secureReadSize
        (fun addr _ chunk => jedecSecureRead hal addr chunk session) .secureRead size addr size 0
          [] where
  run_eq J hal n j := by
    show secureflashSecureRead hal spEtss sf addr size appId ⟨j, []⟩ = _
    unfold secureflashSecureRead
    rw [if_neg hinit, if_neg htotal]
  within J hal n hlt session d := transferLoop_within (read_reports session)
    sf.architecture.secureReadSize_pos sf.architecture.secureReadSize_lt hlt
  reaches hs x h₁ h₂ hx d := transferLoop_reaches (read_reports 0) (fun _ _ _ _ => rfl)
    sf.architecture.secureReadSize_pos sf.architecture.secureReadSize_lt hs le_rfl h₁ h₂ hx

theorem loops_program (buffer : Nat → UInt8) (hinit : ¬ sf.isInitialized = false)
    (htotal : ¬ add32 addr size > sf.architecture.secureZoneTotalSize) :
    Loops spEtss sf addr size appId (.program buffer) fun _ hal _ session =>
      transferLoop sf.architecture.secureProgramSize (programChunk hal buffer session)
        .secureProgram size addr size 0 [] where
  run_eq J hal n j := by
    show secureflashSecureProgram hal spEtss sf buffer addr size appId ⟨j, []⟩ = _
    unfold secureflashSecureProgram
    rw [if_neg hinit, if_neg htotal]
  within J hal n hlt session d := transferLoop_within (program_reports buffer session)
    sf.architecture.secureProgramSize_pos sf.architecture.secureProgramSize_lt hlt
  reaches hs x h₁ h₂ hx d := transferLoop_reaches (program_reports buffer 0)
    (fun _ _ _ _ => rfl) sf.architecture.secureProgramSize_pos
    sf.architecture.secureProgramSize_lt hs le_rfl h₁ h₂ hx

theorem loops_erase (hinit : ¬ sf.isInitialized = false)
    (htotal : ¬ add32 addr size > sf.architecture.secureZoneTotalSize)
    (hal : ¬ (addr % sf.architecture.minSecureEraseSize ≠ 0 ∨
      add32 addr size % sf.architecture.minSecureEraseSize ≠ 0)) :
    Loops spEtss sf addr size appId .erase fun _ hal n session =>
      eraseLoop hal sf.architecture.minSecureEraseSize session n addr size where
  run_eq J hal' n j := by
    show secureflashSecureErase hal' spEtss sf n addr size appId ⟨j, []⟩ = _
    unfold secureflashSecureErase
    rw [if_neg hinit, if_neg htotal]
    exact if_neg hal
  within J hal' n hlt session d := by
    refine eraseLoop_within hlt ?_
    rw [not_or, not_not, not_not, add32_eq hlt] at hal
    exact (Nat.dvd_add_iff_right (Nat.dvd_of_mod_eq_zero hal.1)).mpr
      (Nat.dvd_of_mod_eq_zero hal.2)
  reaches hs x h₁ h₂ hx d := eraseLoop_reaches (fun _ _ _ _ => rfl)
    sf.architecture.minSecureEraseSize_pos hs le_rfl h₁ h₂ hx

theorem loops_of_not_refused {a : Access} (h : ¬ Refused spEtss sf addr size appId a) :
    ∃ loop, Loops spEtss sf addr size appId a loop := by
  unfold Refused at h
  simp only [not_or] at h
  obtain ⟨hinit, htotal, _, hrest⟩ := h
  cases a with
  | read => exact ⟨_, loops_read hinit htotal⟩
  | program buffer => exact ⟨_, loops_program buffer hinit htotal⟩
  | erase => exact ⟨_, loops_erase hinit htotal hrest⟩

/-- A refused access passes nothing to the HAL. -/
theorem events_of_refused {a : Access} (h : Refused spEtss sf addr size appId a) (n : Nat) (j : J) :
    (a.run spEtss sf hal n addr size appId j).2.events = [] := by
  have hnone : ∀ loop : (session : Nat) → Device J → Result J,
      queryAppInfo spEtss sf addr appId = none →
        (accessIn hal spEtss sf addr appId loop ⟨j, []⟩).2.events = [] := fun loop hq => by
    unfold accessIn
    rw [hq]
  unfold Refused at h
  cases a with
  | read =>
    show (secureflashSecureRead hal spEtss sf addr size appId ⟨j, []⟩).2.events = []
    unfold secureflashSecureRead
    split_ifs with h₁ h₂
    · rfl
    · rfl
    · exact hnone _ (by tauto)
  | program buffer =>
    show (secureflashSecureProgram hal spEtss sf buffer addr size appId ⟨j, []⟩).2.events = []
    unfold secureflashSecureProgram
    split_ifs with h₁ h₂
    · rfl
    · rfl
    · exact hnone _ (by tauto)
  | erase =>
    show (secureflashSecureErase hal spEtss sf n addr size appId ⟨j, []⟩).2.events = []
    unfold secureflashSecureErase
    dsimp only
    split_ifs with h₁ h₂ h₃
    · rfl
    · rfl
    · rfl
    · exact hnone _ (by tauto)

/-- An access is confined, whatever the HAL answers, exactly when it is refused or empty or its
whole range is covered. -/
theorem access_confined_iff (a : Access) (ha : addr < 2 ^ 32) (hs : size < 2 ^ 32) :
    (∀ (J : Type) (hal : Jedec J) n j, Confined spEtss sf appId
        (a.run spEtss sf hal n addr size appId j).2.events) ↔
      Refused spEtss sf addr size appId a ∨ size = 0 ∨ Covered spEtss sf addr size appId := by
  by_cases hr : Refused spEtss sf addr size appId a
  · refine iff_of_true (fun J hal n j => ?_) (.inl hr)
    rw [events_of_refused hr]
    exact fun _ _ _ hm => absurd hm List.not_mem_nil
  obtain ⟨loop, hl⟩ := loops_of_not_refused hr
  have hchecks := hr
  unfold Refused at hchecks
  simp only [not_or] at hchecks
  obtain ⟨_, htotal, hquery, _⟩ := hchecks
  obtain ⟨first, hq⟩ := Option.ne_none_iff_exists'.mp hquery
  constructor
  · intro hc
    have hconf := hc Unit allSucceeds size ()
    rw [hl.run_eq] at hconf
    exact .inr (.inr (covered_of_confined hq ha (hl.reaches hs)
      (hl.within Unit allSucceeds size) hconf))
  · rintro (hf | h0 | hc) J hal n j
    · exact absurd hf hr
    · -- no byte lies in an empty range
      have hlt : addr + size < 2 ^ 32 := by omega
      rw [hl.run_eq]
      exact accessIn_confined ⟨hlt, first, hq, fun x h₁ h₂ => by omega⟩ (not_lt.mp htotal)
        (hl.within J hal n hlt)
    · rw [hl.run_eq]
      exact accessIn_confined hc (not_lt.mp htotal) (hl.within J hal n hc.1)

/-- Four zones of 16 bytes; the first is bound to application 7 and the second to application 9. -/
def twoApps : Secureflash where
  isInitialized := true
  appData := [⟨7, 1, 0⟩, ⟨9, 2, 1⟩]
  architecture :=
    { secureZoneSize := 16
      secureZoneTotalSize := 64
      secureReadSize := 8
      secureProgramSize := 8
      minSecureEraseSize := 16 }

/-- A read in the first zone is not refused, and is confined. -/
theorem confined_firstZone : ¬ Refused 1 twoApps 4 12 7 .read ∧
    ∀ (J : Type) (hal : Jedec J) n j, Confined 1 twoApps 7
      (Access.read.run 1 twoApps hal n 4 12 7 j).2.events := by
  refine ⟨?_, (access_confined_iff .read (by decide) (by decide)).mpr (.inr (.inr ⟨by decide,
    ⟨7, 1, 0⟩, by decide, fun x h₁ h₂ => ⟨⟨7, 1, 0⟩, List.mem_cons_self, ?_, .inr rfl, rfl⟩⟩))⟩
  · rintro (h | h | h | h)
    · exact absurd h (by decide)
    · exact absurd h (by decide)
    · exact absurd h (by decide)
    · exact h
  · show 0 = x / 16
    omega

/-- Application 7 reads on into the zone of application 9. -/
theorem not_confined_nextZone : ¬ ∀ (J : Type) (hal : Jedec J) n j, Confined 1 twoApps 7
    (Access.read.run 1 twoApps hal n 8 16 7 j).2.events := by
  intro h
  obtain ⟨_, keyId, _, entry, hm, hz, hb, _⟩ :=
    h Unit allSucceeds 0 () 16 8 0 (by decide) 16 le_rfl (by decide)
  have hz' : entry.zoneId = 1 := hz
  have hb' : entry.appId = 7 := hb.resolve_left (by decide)
  have hm' : entry = ⟨7, 1, 0⟩ ∨ entry = ⟨9, 2, 1⟩ := by simpa [twoApps] using hm
  rcases hm' with rfl | rfl
  · exact absurd hz' (by decide)
  · exact absurd hb' (by decide)

end SecureFlash
