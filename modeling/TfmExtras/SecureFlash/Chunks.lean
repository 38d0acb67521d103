import TfmExtras.SecureFlash.Access

/-! The chunks of an access: they are consecutive, cover its range exactly and cross no boundary, and
its loop ends. -/

namespace SecureFlash
open Etss

variable {J : Type} {hal : Jedec J} {spEtss : Int} {sf : Secureflash} {appId : Int}
  {addr size pos n len unit session x : Nat} {d d' : Device J} {buf out : List UInt8} {e : Error}

/-! ## Chunks -/

/-- A round of a loop: `len` bytes from `addr` on, and from `pos` of the buffer on. -/
structure Chunk where
  addr : Nat
  pos : Nat
  len : Nat

/-- Each chunk begins where the one before it ends, up to `stop`. -/
def Consecutive : (addr pos : Nat) → List Chunk → (stop : Nat) → Prop
  | addr, _, [], stop => addr = stop
  | addr, pos, c :: cs, stop => c.addr = addr ∧ c.pos = pos ∧ 0 < c.len ∧
    Consecutive (addr + c.len) (pos + c.len) cs stop

/-- The chunks cover `[addr, addr + size)` and the buffer exactly, and cross no boundary. -/
structure ExactChunks (unit addr size : Nat) (cs : List Chunk) : Prop where
  consecutive : Consecutive addr 0 cs (addr + size)
  nonempty : ∀ c ∈ cs, 0 < c.len
  disjoint : cs.Pairwise fun c c' => c.addr + c.len ≤ c'.addr
  cover : ∀ x, (∃ c ∈ cs, c.addr ≤ x ∧ x < c.addr + c.len) ↔ addr ≤ x ∧ x < addr + size
  buffer : ∀ c ∈ cs, c.addr = addr + c.pos
  bounded : ∀ c ∈ cs, c.pos + c.len ≤ size
  inUnit : ∀ c ∈ cs, (c.addr + c.len - 1) / unit = c.addr / unit

namespace Consecutive
variable {cs : List Chunk} {stop : Nat}

theorem le (h : Consecutive addr pos cs stop) : addr ≤ stop := by
  induction cs generalizing addr pos with
  | nil => exact Nat.le_of_eq h
  | cons c cs ih =>
    have hle := ih h.2.2.2
    omega

theorem mem (h : Consecutive addr pos cs stop) {c : Chunk} (hc : c ∈ cs) :
    0 < c.len ∧ c.addr + pos = addr + c.pos ∧ addr ≤ c.addr ∧ c.addr + c.len ≤ stop := by
  induction cs generalizing addr pos with
  | nil => exact absurd hc List.not_mem_nil
  | cons c' cs ih =>
    obtain ⟨rfl, rfl, hpos, htail⟩ := h
    rcases List.mem_cons.mp hc with rfl | hc
    · exact ⟨hpos, rfl, le_rfl, htail.le⟩
    · obtain ⟨h₁, h₂, h₃, h₄⟩ := ih htail hc
      exact ⟨h₁, by omega, by omega, h₄⟩

theorem disjoint (h : Consecutive addr pos cs stop) :
    cs.Pairwise fun c c' => c.addr + c.len ≤ c'.addr := by
  induction cs generalizing addr pos with
  | nil => exact .nil
  | cons c cs ih =>
    obtain ⟨rfl, rfl, _, htail⟩ := h
    exact .cons (fun c' hc' => (htail.mem hc').2.2.1) (ih htail)

theorem cover (h : Consecutive addr pos cs stop) (x : Nat) :
    (∃ c ∈ cs, c.addr ≤ x ∧ x < c.addr + c.len) ↔ addr ≤ x ∧ x < stop := by
  induction cs generalizing addr pos with
  | nil =>
    obtain rfl : addr = stop := h
    refine iff_of_false (fun ⟨c, hc, _⟩ => List.not_mem_nil hc) fun hx => ?_
    omega
  | cons c cs ih =>
    obtain ⟨rfl, rfl, _, htail⟩ := h
    have hle := htail.le
    simp only [List.mem_cons, exists_eq_or_imp, ih htail]
    omega

theorem exact (h : Consecutive addr 0 cs (addr + size))
    (hu : ∀ c ∈ cs, (c.addr + c.len - 1) / unit = c.addr / unit) : ExactChunks unit addr size cs where
  consecutive := h
  nonempty _ hc := (h.mem hc).1
  disjoint := h.disjoint
  cover := h.cover
  buffer _ hc := (h.mem hc).2.1
  bounded c hc := by
    obtain ⟨_, h₂, _, h₄⟩ := h.mem hc
    omega
  inUnit := hu

end Consecutive

/-- A chunk that ends at a boundary at the latest crosses none. -/
theorem div_eq_of_mod_add_le {chunk : Nat} (hl : 0 < len) (hpos : 0 < chunk)
    (h : addr % len + chunk ≤ len) : (addr + chunk - 1) / len = addr / len := by
  have hdiv := Nat.div_add_mod addr len
  have he : addr + chunk - 1 = len * (addr / len) + (addr % len + chunk - 1) := by omega
  have hrest : (addr % len + chunk - 1) / len = 0 := Nat.div_eq_of_lt (by omega)
  rw [he, Nat.mul_add_div hl, hrest, Nat.add_zero]

theorem nextChunk_le (hl : 0 < len) (hl' : len < 2 ^ 32) (ha : addr + size < 2 ^ 32) :
    addr % len + nextChunk len addr size ≤ len := by
  have hmod := Nat.mod_lt addr hl
  have hle := Nat.mod_le addr len
  unfold nextChunk
  dsimp only
  rw [add32_eq (by omega), sub32_eq hl' hmod.le]
  split_ifs with h
  · exact h.le
  · omega

/-! ## Rounds -/

/-- The operation succeeds on the chunks one after the other. -/
inductive Runs (op : (addr pos chunk : Nat) → Device J → Option (List UInt8) × Device J) :
    Device J → List Chunk → List UInt8 → Device J → Prop
  | nil (d : Device J) : Runs op d [] [] d
  | cons {d d₁ d₂ : Device J} {c : Chunk} {cs : List Chunk} {bs bytes : List UInt8}
    (round : op c.addr c.pos c.len d = (some bs, d₁)) (rest : Runs op d₁ cs bytes d₂) :
    Runs op d (c :: cs) (bs ++ bytes) d₂

variable {op : (addr pos chunk : Nat) → Device J → Option (List UInt8) × Device J}

/-- A loop that succeeds has run through chunks that cover its range. -/
theorem transferLoop_runs (hl : 0 < len) (hl' : len < 2 ^ 32) (ha : addr + size < 2 ^ 32)
    (h : transferLoop len op e n addr size pos buf d = (some (.ok out), d')) :
    ∃ cs bytes, Runs op d cs bytes d' ∧ out = buf ++ bytes ∧
      Consecutive addr pos cs (addr + size) ∧
      ∀ c ∈ cs, (c.addr + c.len - 1) / len = c.addr / len := by
  induction n generalizing addr size pos buf d with
  | zero =>
    cases size with
    | zero =>
      obtain ⟨rfl, rfl⟩ : buf = out ∧ d = d' := by simpa [transferLoop] using h
      exact ⟨[], [], .nil d, (List.append_nil _).symm, rfl, fun _ hc => absurd hc List.not_mem_nil⟩
    | succ size => cases h
  | succ n ih =>
    cases size with
    | zero =>
      obtain ⟨rfl, rfl⟩ : buf = out ∧ d = d' := by simpa [transferLoop] using h
      exact ⟨[], [], .nil d, (List.append_nil _).symm, rfl, fun _ hc => absurd hc List.not_mem_nil⟩
    | succ size =>
      obtain ⟨hpos, hle⟩ := nextChunk_pos addr hl hl' (show 0 < size + 1 by omega) (by omega)
      have hin := nextChunk_le hl hl' ha
      unfold transferLoop at h
      dsimp only at h
      generalize nextChunk len addr (size + 1) = chunk at h hpos hle hin
      cases hop : op addr pos chunk d with
      | mk r d₁ =>
        rw [hop] at h
        cases r with
        | none => cases h
        | some bs =>
          dsimp only at h
          rw [add32_eq (by omega), sub32_eq (by omega) hle] at h
          obtain ⟨cs, bytes, hruns, hout, hcons, hunit⟩ := ih (by omega) h
          have hend : addr + chunk + (size + 1 - chunk) = addr + (size + 1) := by omega
          rw [hend] at hcons
          refine ⟨⟨addr, pos, chunk⟩ :: cs, bs ++ bytes, .cons hop hruns, ?_, ⟨rfl, rfl, hpos, hcons⟩,
            fun c hc => ?_⟩
          · rw [hout, List.append_assoc]
          · rcases List.mem_cons.mp hc with rfl | hc
            · exact div_eq_of_mod_add_le hl hpos hin
            · exact hunit c hc

/-- A loop ends when it may run as many rounds as there are bytes. -/
theorem transferLoop_ends (hl : 0 < len) (hl' : len < 2 ^ 32) (hs : size < 2 ^ 32) (hn : size ≤ n) :
    (transferLoop len op e n addr size pos buf d).1.isSome = true := by
  induction n generalizing addr size pos buf d with
  | zero =>
    obtain rfl : size = 0 := by omega
    rfl
  | succ n ih =>
    cases size with
    | zero => rfl
    | succ size =>
      obtain ⟨hpos, hle⟩ := nextChunk_pos addr hl hl' (show 0 < size + 1 by omega) hs
      unfold transferLoop
      dsimp only
      generalize op addr pos (nextChunk len addr (size + 1)) d = r
      obtain ⟨_ | bs, d₁⟩ := r
      · rfl
      · dsimp only
        rw [sub32_eq hs hle]
        exact ih (by omega) (by omega)

/-- Erases a chunk, for which nothing is returned. -/
def eraseChunk (hal : Jedec J) (session addr _pos chunk : Nat) (d : Device J) :
    Option (List UInt8) × Device J :=
  match jedecSecureErase hal addr chunk session d with
  | (false, d) => (none, d)
  | (true, d) => (some [], d)

theorem eraseLoop_runs (pos : Nat) (hl : 0 < len) (hd : len ∣ addr) (hs : len ∣ size) (ha : addr + size < 2 ^ 32)
    (h : eraseLoop hal len session n addr size d = (some (.ok out), d')) :
    ∃ cs, Runs (eraseChunk hal session) d cs [] d' ∧ out = [] ∧
      Consecutive addr pos cs (addr + size) ∧
      ∀ c ∈ cs, (c.addr + c.len - 1) / len = c.addr / len := by
  induction n generalizing addr size pos d with
  | zero =>
    cases size with
    | zero =>
      obtain ⟨rfl, rfl⟩ : out = [] ∧ d = d' := by simpa [eraseLoop, eq_comm] using h
      exact ⟨[], .nil d, rfl, rfl, fun _ hc => absurd hc List.not_mem_nil⟩
    | succ size => cases h
  | succ n ih =>
    cases size with
    | zero =>
      obtain ⟨rfl, rfl⟩ : out = [] ∧ d = d' := by simpa [eraseLoop, eq_comm] using h
      exact ⟨[], .nil d, rfl, rfl, fun _ hc => absurd hc List.not_mem_nil⟩
    | succ size =>
      have hle : len ≤ size + 1 := Nat.le_of_dvd size.succ_pos hs
      unfold eraseLoop at h
      cases hop : jedecSecureErase hal addr len session d with
      | mk r d₁ =>
        rw [hop] at h
        cases r with
        | false => cases h
        | true =>
          dsimp only at h
          rw [add32_eq (by omega), sub32_eq (by omega) hle] at h
          obtain ⟨cs, hruns, hout, hcons, hunit⟩ := ih (pos + len) (Nat.dvd_add hd dvd_rfl)
            (Nat.dvd_sub hs dvd_rfl) (by omega) h
          have hend : addr + len + (size + 1 - len) = addr + (size + 1) := by omega
          rw [hend] at hcons
          have hround : eraseChunk hal session addr pos len d = (some [], d₁) := by
            unfold eraseChunk
            rw [hop]
          have hruns' : Runs (eraseChunk hal session) d (⟨addr, pos, len⟩ :: cs) ([] ++ []) d' :=
            .cons hround hruns
          refine ⟨⟨addr, pos, len⟩ :: cs, hruns', hout, ⟨rfl, rfl, hl, hcons⟩, fun c hc => ?_⟩
          rcases List.mem_cons.mp hc with rfl | hc
          · exact div_eq_of_mod_add_le hl hl (by rw [Nat.mod_eq_zero_of_dvd hd, Nat.zero_add])
          · exact hunit c hc

theorem eraseLoop_ends (hl : 0 < len) (hd : len ∣ size) (hs : size < 2 ^ 32) (hn : size ≤ n) :
    (eraseLoop hal len session n addr size d).1.isSome = true := by
  induction n generalizing addr size d with
  | zero =>
    obtain rfl : size = 0 := by omega
    rfl
  | succ n ih =>
    cases size with
    | zero => rfl
    | succ size =>
      have hle : len ≤ size + 1 := Nat.le_of_dvd size.succ_pos hd
      unfold eraseLoop
      generalize jedecSecureErase hal addr len session d = r
      obtain ⟨_ | _, d₁⟩ := r
      · rfl
      · dsimp only
        rw [sub32_eq hs hle]
        exact ih (Nat.dvd_sub hd dvd_rfl) (by omega) (by omega)

/-- The rounds are what is passed to the HAL. -/
theorem Runs.events {cs : List Chunk} {bytes : List UInt8} (hop : Reports session op)
    (h : Runs op d cs bytes d') :
    d'.events = d.events ++ cs.map fun c => .access c.addr c.len session := by
  induction h with
  | nil d => exact (List.append_nil _).symm
  | @cons d d₁ d₂ c cs bs bytes round _ ih =>
    have hev := hop c.addr c.pos c.len d
    rw [round] at hev
    rw [ih, hev, List.append_assoc]
    rfl

theorem erase_reports (session : Nat) : Reports session (eraseChunk hal session) := by
  intro addr pos chunk d
  have hev : (jedecSecureErase hal addr chunk session d).2.events =
      d.events ++ [.access addr chunk session] := rfl
  unfold eraseChunk
  generalize jedecSecureErase hal addr chunk session d = r at hev ⊢
  obtain ⟨_ | _, d₁⟩ := r <;> exact hev

/-! ## Accesses that succeed -/

/-- An access that succeeds: a session is made, the operation succeeds on exact chunks, and the
session is ended; this is all that is passed to the HAL. -/
def Transferred (hal : Jedec J)
    (op : (session addr pos chunk : Nat) → Device J → Option (List UInt8) × Device J)
    (unit addr size : Nat) (d : Device J) (out : List UInt8) (d' : Device J) : Prop :=
  ∃ keyId session d₁ d₂ cs, jedecCreateSession hal keyId d = (some session, d₁) ∧
    Runs (op session) d₁ cs out d₂ ∧ jedecTerminateSession hal session d₂ = (true, d') ∧
    ExactChunks unit addr size cs ∧
    d'.events = d.events ++ [.create keyId (some session)] ++
      cs.map (fun c => .access c.addr c.len session) ++ [.terminate session]

/-- The operation of a read. -/
def readChunk (hal : Jedec J) (session addr _pos chunk : Nat) (d : Device J) :
    Option (List UInt8) × Device J := jedecSecureRead hal addr chunk session d

theorem accessIn_ok {loop : (session : Nat) → Device J → Result J}
    (h : accessIn hal spEtss sf addr appId loop d = (some (.ok out), d')) :
    ∃ keyId session d₁ d₂, jedecCreateSession hal keyId d = (some session, d₁) ∧
      loop session d₁ = (some (.ok out), d₂) ∧
      jedecTerminateSession hal session d₂ = (true, d') := by
  unfold accessIn at h
  cases hq : queryAppInfo spEtss sf addr appId with
  | none =>
    rw [hq] at h
    cases h
  | some first =>
    rw [hq] at h
    dsimp only at h
    cases hcreate : jedecCreateSession hal first.keyId d with
    | mk r d₁ =>
      rw [hcreate] at h
      cases r with
      | none => cases h
      | some session =>
        dsimp only at h
        cases hloop : loop session d₁ with
        | mk r d₂ =>
          rw [hloop] at h
          obtain _ | _ | buf := r
          · cases h
          · cases h
          dsimp only at h
          cases hterm : jedecTerminateSession hal session d₂ with
          | mk r d₃ =>
            rw [hterm] at h
            cases r with
            | false => cases h
            | true =>
              obtain ⟨rfl, rfl⟩ : buf = out ∧ d₃ = d' := by simpa using h
              exact ⟨first.keyId, session, d₁, d₂, hcreate, hloop, hterm⟩

/-- An access whose loop runs through exact chunks. -/
theorem transferred_of_accessIn {loop : (session : Nat) → Device J → Result J}
    {op : (session addr pos chunk : Nat) → Device J → Option (List UInt8) × Device J}
    (hop : ∀ session, Reports session (op session))
    (hloop : ∀ session d out d', loop session d = (some (.ok out), d') →
      ∃ cs, Runs (op session) d cs out d' ∧ ExactChunks unit addr size cs)
    (h : accessIn hal spEtss sf x appId loop d = (some (.ok out), d')) :
    Transferred hal op unit addr size d out d' := by
  obtain ⟨keyId, session, d₁, d₂, hcreate, hrun, hterm⟩ := accessIn_ok h
  obtain ⟨cs, hruns, hexact⟩ := hloop session d₁ out d₂ hrun
  refine ⟨keyId, session, d₁, d₂, cs, hcreate, hruns, hterm, hexact, ?_⟩
  have h₁ : (jedecCreateSession hal keyId d).2.events = d.events ++
      [.create keyId (jedecCreateSession hal keyId d).1] := rfl
  have h₂ : (jedecTerminateSession hal session d₂).2.events = d₂.events ++ [.terminate session] := rfl
  rw [hcreate] at h₁
  rw [hterm] at h₂
  rw [h₂, hruns.events (hop session), h₁]

theorem read_transferred (ha : addr + size < 2 ^ 32)
    (h : secureflashSecureRead hal spEtss sf addr size appId d = (some (.ok out), d')) :
    Transferred hal (readChunk hal) sf.architecture.secureReadSize addr size d out d' := by
  unfold secureflashSecureRead at h
  split_ifs at h
  · cases h
  · cases h
  refine transferred_of_accessIn read_reports (fun session d₁ out₁ d₂ hl => ?_) h
  obtain ⟨cs, bytes, hruns, hout, hcons, hunit⟩ := transferLoop_runs
    sf.architecture.secureReadSize_pos sf.architecture.secureReadSize_lt ha hl
  obtain rfl : out₁ = bytes := hout
  exact ⟨cs, hruns, hcons.exact hunit⟩

theorem program_transferred {buffer : Nat → UInt8} (ha : addr + size < 2 ^ 32)
    (h : secureflashSecureProgram hal spEtss sf buffer addr size appId d = (some (.ok out), d')) :
    Transferred hal (programChunk hal buffer) sf.architecture.secureProgramSize addr size d out d' := by
  unfold secureflashSecureProgram at h
  split_ifs at h
  · cases h
  · cases h
  refine transferred_of_accessIn (program_reports buffer) (fun session d₁ out₁ d₂ hl => ?_) h
  obtain ⟨cs, bytes, hruns, hout, hcons, hunit⟩ := transferLoop_runs
    sf.architecture.secureProgramSize_pos sf.architecture.secureProgramSize_lt ha hl
  obtain rfl : out₁ = bytes := hout
  exact ⟨cs, hruns, hcons.exact hunit⟩

theorem erase_transferred (ha : addr + size < 2 ^ 32)
    (h : secureflashSecureErase hal spEtss sf n addr size appId d = (some (.ok out), d')) :
    Transferred hal (eraseChunk hal) sf.architecture.minSecureEraseSize addr size d out d' := by
  unfold secureflashSecureErase at h
  dsimp only at h
  split_ifs at h with _ _ hal'
  · cases h
  · cases h
  · cases h
  rw [not_or, not_not, not_not, add32_eq ha] at hal'
  have hd := Nat.dvd_of_mod_eq_zero hal'.1
  have hs := (Nat.dvd_add_iff_right hd).mpr (Nat.dvd_of_mod_eq_zero hal'.2)
  refine transferred_of_accessIn erase_reports (fun session d₁ out₁ d₂ hl => ?_) h
  obtain ⟨cs, hruns, rfl, hcons, hunit⟩ := eraseLoop_runs 0
    sf.architecture.minSecureEraseSize_pos hd hs ha hl
  exact ⟨cs, hruns, hcons.exact hunit⟩

theorem accessIn_ends {loop : (session : Nat) → Device J → Result J}
    (h : ∀ session d, (loop session d).1.isSome = true) :
    (accessIn hal spEtss sf addr appId loop d).1.isSome = true := by
  unfold accessIn
  cases queryAppInfo spEtss sf addr appId with
  | none => rfl
  | some first =>
    dsimp only
    generalize jedecCreateSession hal first.keyId d = r
    obtain ⟨_ | session, d₁⟩ := r
    · rfl
    have hend := h session d₁
    dsimp only
    generalize loop session d₁ = r at hend ⊢
    obtain ⟨_ | _ | buf, d₂⟩ := r
    · cases hend
    · rfl
    dsimp only
    generalize jedecTerminateSession hal session d₂ = r
    obtain ⟨_ | _, d₃⟩ := r <;> rfl

theorem read_ends (ha : addr + size < 2 ^ 32) :
    (secureflashSecureRead hal spEtss sf addr size appId d).1.isSome = true := by
  unfold secureflashSecureRead
  split_ifs
  · rfl
  · rfl
  · exact accessIn_ends fun _ _ => transferLoop_ends sf.architecture.secureReadSize_pos
      sf.architecture.secureReadSize_lt (by omega) le_rfl

theorem program_ends {buffer : Nat → UInt8} (ha : addr + size < 2 ^ 32) :
    (secureflashSecureProgram hal spEtss sf buffer addr size appId d).1.isSome = true := by
  unfold secureflashSecureProgram
  split_ifs
  · rfl
  · rfl
  · exact accessIn_ends fun _ _ => transferLoop_ends sf.architecture.secureProgramSize_pos
      sf.architecture.secureProgramSize_lt (by omega) le_rfl

theorem erase_ends (ha : addr + size < 2 ^ 32) (hn : size ≤ n) :
    (secureflashSecureErase hal spEtss sf n addr size appId d).1.isSome = true := by
  unfold secureflashSecureErase
  dsimp only
  split_ifs with _ _ hal'
  · rfl
  · rfl
  · rfl
  rw [not_or, not_not, not_not, add32_eq ha] at hal'
  have hd := Nat.dvd_of_mod_eq_zero hal'.1
  have hs := (Nat.dvd_add_iff_right hd).mpr (Nat.dvd_of_mod_eq_zero hal'.2)
  exact accessIn_ends fun _ _ => eraseLoop_ends sf.architecture.minSecureEraseSize_pos hs
    (by omega) hn

/-! ## A HAL that never fails -/

structure NeverFails (hal : Jedec J) : Prop where
  create : ∀ keyId j, (hal.createSession keyId j).1.isSome = true
  terminate : ∀ session j, (hal.terminateSession session j).1 = true
  read : ∀ addr len session j, (hal.secureRead addr len session j).1.isSome = true
  program : ∀ addr data session j, (hal.secureProgram addr data session j).1 = true
  erase : ∀ addr len session j, (hal.secureErase addr len session j).1 = true

/-- The call succeeds. -/
def Succeeds (r : Result J) : Prop := ∃ out d', r = (some (.ok out), d')

theorem transferLoop_succeeds (hop : ∀ addr pos chunk d, (op addr pos chunk d).1.isSome = true)
    (hl : 0 < len) (hl' : len < 2 ^ 32) (hs : size < 2 ^ 32) (hn : size ≤ n) :
    Succeeds (transferLoop len op e n addr size pos buf d) := by
  induction n generalizing addr size pos buf d with
  | zero =>
    obtain rfl : size = 0 := by omega
    exact ⟨_, _, rfl⟩
  | succ n ih =>
    cases size with
    | zero => exact ⟨_, _, rfl⟩
    | succ size =>
      obtain ⟨hpos, hle⟩ := nextChunk_pos addr hl hl' (show 0 < size + 1 by omega) hs
      have hsome := hop addr pos (nextChunk len addr (size + 1)) d
      unfold transferLoop
      dsimp only
      generalize op addr pos (nextChunk len addr (size + 1)) d = r at hsome ⊢
      obtain ⟨_ | bs, d₁⟩ := r
      · cases hsome
      · dsimp only
        rw [sub32_eq hs hle]
        exact ih (by omega) (by omega)

theorem eraseLoop_succeeds (h : NeverFails hal) (hl : 0 < len) (hd : len ∣ size)
    (hs : size < 2 ^ 32) (hn : size ≤ n) : Succeeds (eraseLoop hal len session n addr size d) := by
  induction n generalizing addr size d with
  | zero =>
    obtain rfl : size = 0 := by omega
    exact ⟨_, _, rfl⟩
  | succ n ih =>
    cases size with
    | zero => exact ⟨_, _, rfl⟩
    | succ size =>
      have hle : len ≤ size + 1 := Nat.le_of_dvd size.succ_pos hd
      have htrue : (jedecSecureErase hal addr len session d).1 = true := h.erase addr len session _
      unfold eraseLoop
      generalize jedecSecureErase hal addr len session d = r at htrue ⊢
      obtain ⟨_ | _, d₁⟩ := r
      · cases htrue
      · dsimp only
        rw [sub32_eq hs hle]
        exact ih (Nat.dvd_sub hd dvd_rfl) (by omega) (by omega)

theorem accessIn_succeeds (h : NeverFails hal) {loop : (session : Nat) → Device J → Result J}
    (hq : queryAppInfo spEtss sf addr appId ≠ none)
    (hloop : ∀ session d, Succeeds (loop session d)) :
    Succeeds (accessIn hal spEtss sf addr appId loop d) := by
  obtain ⟨first, hq⟩ := Option.ne_none_iff_exists'.mp hq
  have hcreate : (jedecCreateSession hal first.keyId d).1.isSome = true := h.create _ _
  unfold accessIn
  rw [hq]
  dsimp only
  generalize jedecCreateSession hal first.keyId d = r at hcreate ⊢
  obtain ⟨_ | session, d₁⟩ := r
  · cases hcreate
  obtain ⟨out, d₂, hrun⟩ := hloop session d₁
  dsimp only
  rw [hrun]
  have hterm : (jedecTerminateSession hal session d₂).1 = true := h.terminate _ _
  dsimp only
  generalize jedecTerminateSession hal session d₂ = r at hterm ⊢
  obtain ⟨_ | _, d₃⟩ := r
  · cases hterm
  · exact ⟨_, _, rfl⟩

theorem read_succeeds (h : NeverFails hal) (ha : addr + size < 2 ^ 32)
    (hr : ¬ Refused spEtss sf addr size appId .read) :
    Succeeds (secureflashSecureRead hal spEtss sf addr size appId d) := by
  unfold Refused at hr
  simp only [not_or] at hr
  obtain ⟨hinit, htotal, hquery, _⟩ := hr
  unfold secureflashSecureRead
  rw [if_neg hinit, if_neg htotal]
  exact accessIn_succeeds h hquery fun session _ => transferLoop_succeeds
    (fun addr _ chunk d => h.read addr chunk session d.jedec) sf.architecture.secureReadSize_pos
    sf.architecture.secureReadSize_lt (by omega) le_rfl

theorem program_succeeds {buffer : Nat → UInt8} (h : NeverFails hal) (ha : addr + size < 2 ^ 32)
    (hr : ¬ Refused spEtss sf addr size appId (.program buffer)) :
    Succeeds (secureflashSecureProgram hal spEtss sf buffer addr size appId d) := by
  unfold Refused at hr
  simp only [not_or] at hr
  obtain ⟨hinit, htotal, hquery, _⟩ := hr
  have hop : ∀ session addr pos chunk d, (programChunk hal buffer session addr pos chunk d).1.isSome =
      true := fun session addr pos chunk d => by
    have hp : (jedecSecureProgram hal addr ((List.range chunk).map fun k => buffer (pos + k)) session
      d).1 = true := h.program _ _ _ _
    unfold programChunk
    generalize jedecSecureProgram hal addr ((List.range chunk).map fun k => buffer (pos + k)) session
      d = r at hp ⊢
    obtain ⟨_ | _, d₁⟩ := r
    · cases hp
    · rfl
  unfold secureflashSecureProgram
  rw [if_neg hinit, if_neg htotal]
  exact accessIn_succeeds h hquery fun session _ => transferLoop_succeeds (hop session)
    sf.architecture.secureProgramSize_pos sf.architecture.secureProgramSize_lt (by omega) le_rfl

theorem erase_succeeds (h : NeverFails hal) (ha : addr + size < 2 ^ 32) (hn : size ≤ n)
    (hr : ¬ Refused spEtss sf addr size appId .erase) :
    Succeeds (secureflashSecureErase hal spEtss sf n addr size appId d) := by
  unfold Refused at hr
  simp only [not_or] at hr
  obtain ⟨hinit, htotal, hquery, hrest⟩ := hr
  have hrest : ¬ (addr % sf.architecture.minSecureEraseSize ≠ 0 ∨
      add32 addr size % sf.architecture.minSecureEraseSize ≠ 0) := not_or.mpr hrest
  unfold secureflashSecureErase
  dsimp only
  rw [if_neg hinit, if_neg htotal, if_neg hrest]
  rw [not_or, not_not, not_not, add32_eq ha] at hrest
  have hs := (Nat.dvd_add_iff_right (Nat.dvd_of_mod_eq_zero hrest.1)).mpr
    (Nat.dvd_of_mod_eq_zero hrest.2)
  exact accessIn_succeeds h hquery fun _ _ =>
    eraseLoop_succeeds h sf.architecture.minSecureEraseSize_pos hs (by omega) hn

end SecureFlash
