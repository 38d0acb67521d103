import TfmExtras.SecureFlash.Chunks

/-! What the chunks come to over a HAL that stores bytes: what is programmed is read back, and the
block driver erases blocks. -/

namespace SecureFlash
open Etss

variable {J : Type} {hal : Jedec J} {spEtss : Int} {sf : Secureflash} {appId : Int}
  {addr size pos n len session : Nat} {d d' : Device J} {out : List UInt8}

/-! ## A HAL that stores bytes -/

/-- The bytes from `addr` on, `len` of them. -/
def bytesAt (m : Nat → UInt8) (addr len : Nat) : List UInt8 := (List.range len).map fun k => m (addr + k)

/-- The memory with the bytes of a range replaced. -/
def overwritten (m : Nat → UInt8) (addr len : Nat) (new : Nat → UInt8) (x : Nat) : UInt8 :=
  if addr ≤ x ∧ x < addr + len then new (x - addr) else m x

/-- The HAL stores bytes in `mem`: a read that succeeds returns those of its range, and a program or
an erase that succeeds replaces them. What the other calls do is left open. -/
structure Stores (hal : Jedec J) (mem : J → Nat → UInt8) (eraseVal : UInt8) : Prop where
  create : ∀ keyId j, mem (hal.createSession keyId j).2 = mem j
  terminate : ∀ session j, mem (hal.terminateSession session j).2 = mem j
  read : ∀ addr len session j bs, (hal.secureRead addr len session j).1 = some bs →
    bs = bytesAt (mem j) addr len ∧ mem (hal.secureRead addr len session j).2 = mem j
  program : ∀ addr (f : Nat → UInt8) len session j,
    (hal.secureProgram addr ((List.range len).map f) session j).1 = true →
      mem (hal.secureProgram addr ((List.range len).map f) session j).2 =
        overwritten (mem j) addr len f
  erase : ∀ addr len session j, (hal.secureErase addr len session j).1 = true →
    mem (hal.secureErase addr len session j).2 = overwritten (mem j) addr len fun _ => eraseVal

variable {mem : J → Nat → UInt8} {eraseVal : UInt8} {stop : Nat} {cs : List Chunk} {bytes : List UInt8}

theorem bytesAt_append (m : Nat → UInt8) (addr a b : Nat) :
    bytesAt m addr a ++ bytesAt m (addr + a) b = bytesAt m addr (a + b) := by
  unfold bytesAt
  rw [List.range_add, List.map_append, List.map_map]
  congr 1
  exact List.map_congr_left fun k _ => by rw [Function.comp_apply, Nat.add_assoc]

/-- Two replacements side by side are one. -/
theorem overwritten_append (m : Nat → UInt8) (addr a b : Nat) (f g : Nat → UInt8)
    (hg : ∀ k, g k = f (a + k)) :
    overwritten (overwritten m addr a f) (addr + a) b g = overwritten m addr (a + b) f := by
  funext x
  unfold overwritten
  split_ifs
  · rw [hg]
    congr 1
    omega
  · omega
  · rfl
  · omega
  · omega
  · rfl

theorem overwritten_zero (m : Nat → UInt8) (addr : Nat) (f : Nat → UInt8) :
    overwritten m addr 0 f = m := by
  funext x
  exact if_neg (by omega)

theorem Stores.read_runs (h : Stores hal mem eraseVal) (hr : Runs (readChunk hal session) d cs bytes d')
    (hc : Consecutive addr pos cs stop) :
    bytes = bytesAt (mem d.jedec) addr (stop - addr) ∧ mem d'.jedec = mem d.jedec := by
  induction hr generalizing addr pos with
  | nil d =>
    obtain rfl : addr = stop := hc
    rw [Nat.sub_self]
    exact ⟨rfl, rfl⟩
  | @cons d d₁ d₂ c cs bs bytes round _ ih =>
    obtain ⟨rfl, rfl, _, htail⟩ := hc
    obtain ⟨hbytes, hmem⟩ := ih htail
    have hle := htail.le
    obtain ⟨hbs, hm⟩ := h.read c.addr c.len session d.jedec bs (congrArg Prod.fst round)
    have hd₁ : (hal.secureRead c.addr c.len session d.jedec).2 = d₁.jedec :=
      congrArg (fun r => r.2.jedec) round
    rw [hd₁] at hm
    refine ⟨?_, hmem.trans hm⟩
    rw [hbytes, hbs, hm, bytesAt_append]
    congr 1
    omega

theorem Stores.program_runs (h : Stores hal mem eraseVal) {buffer : Nat → UInt8}
    (hr : Runs (programChunk hal buffer session) d cs bytes d') (hc : Consecutive addr pos cs stop) :
    mem d'.jedec = overwritten (mem d.jedec) addr (stop - addr) fun k => buffer (pos + k) := by
  induction hr generalizing addr pos with
  | nil d =>
    obtain rfl : addr = stop := hc
    rw [Nat.sub_self, overwritten_zero]
  | @cons d d₁ d₂ c cs bs bytes round _ ih =>
    obtain ⟨rfl, rfl, _, htail⟩ := hc
    have hle := htail.le
    have hround : (hal.secureProgram c.addr ((List.range c.len).map fun k => buffer (c.pos + k))
        session d.jedec).1 = true ∧ (hal.secureProgram c.addr ((List.range c.len).map fun k =>
          buffer (c.pos + k)) session d.jedec).2 = d₁.jedec := by
      unfold programChunk at round
      cases hp : jedecSecureProgram hal c.addr ((List.range c.len).map fun k => buffer (c.pos + k))
        session d with
      | mk r d₂ =>
        rw [hp] at round
        cases r with
        | false => cases round
        | true =>
          obtain ⟨-, rfl⟩ := Prod.mk.inj round
          exact ⟨congrArg Prod.fst hp, congrArg (fun r => r.2.jedec) hp⟩
    have hm := h.program _ _ _ _ _ hround.1
    rw [hround.2] at hm
    rw [ih htail, hm, overwritten_append _ _ _ _ _ _ fun k => by rw [Nat.add_assoc]]
    congr 1
    omega

theorem Stores.erase_runs (h : Stores hal mem eraseVal)
    (hr : Runs (eraseChunk hal session) d cs bytes d') (hc : Consecutive addr pos cs stop) :
    mem d'.jedec = overwritten (mem d.jedec) addr (stop - addr) fun _ => eraseVal := by
  induction hr generalizing addr pos with
  | nil d =>
    obtain rfl : addr = stop := hc
    rw [Nat.sub_self, overwritten_zero]
  | @cons d d₁ d₂ c cs bs bytes round _ ih =>
    obtain ⟨rfl, rfl, _, htail⟩ := hc
    have hle := htail.le
    have hround : (hal.secureErase c.addr c.len session d.jedec).1 = true ∧
        (hal.secureErase c.addr c.len session d.jedec).2 = d₁.jedec := by
      unfold eraseChunk at round
      cases hp : jedecSecureErase hal c.addr c.len session d with
      | mk r d₂ =>
        rw [hp] at round
        cases r with
        | false => cases round
        | true =>
          obtain ⟨-, rfl⟩ := Prod.mk.inj round
          exact ⟨congrArg Prod.fst hp, congrArg (fun r => r.2.jedec) hp⟩
    have hm := h.erase _ _ _ _ hround.1
    rw [hround.2] at hm
    rw [ih htail, hm, overwritten_append _ _ _ _ _ _ fun _ => rfl]
    congr 1
    omega

/-- What an access that succeeds does to the memory is what its rounds do. -/
theorem Stores.transferred (h : Stores hal mem eraseVal)
    {op : (session addr pos chunk : Nat) → Device J → Option (List UInt8) × Device J}
    (ht : Transferred hal op unit addr size d out d') :
    ∃ session d₁ d₂ cs, Runs (op session) d₁ cs out d₂ ∧ Consecutive addr 0 cs (addr + size) ∧
      mem d₁.jedec = mem d.jedec ∧ mem d'.jedec = mem d₂.jedec := by
  obtain ⟨keyId, session, d₁, d₂, cs, hcreate, hruns, hterm, hexact, _⟩ := ht
  have h₁ := h.create keyId d.jedec
  have h₂ := h.terminate session d₂.jedec
  have hd₁ : (hal.createSession keyId d.jedec).2 = d₁.jedec := congrArg (fun r => r.2.jedec) hcreate
  have hd' : (hal.terminateSession session d₂.jedec).2 = d'.jedec :=
    congrArg (fun r => r.2.jedec) hterm
  rw [hd₁] at h₁
  rw [hd'] at h₂
  exact ⟨session, d₁, d₂, cs, hruns, hexact.consecutive, h₁, h₂⟩

/-- A read that succeeds returns the bytes of its range. -/
theorem Stores.read_eq (h : Stores hal mem eraseVal) (ha : addr + size < 2 ^ 32)
    (hr : secureflashSecureRead hal spEtss sf addr size appId d = (some (.ok out), d')) :
    out = bytesAt (mem d.jedec) addr size := by
  obtain ⟨session, d₁, d₂, cs, hruns, hcons, h₁, _⟩ := h.transferred (read_transferred ha hr)
  obtain ⟨hout, _⟩ := h.read_runs hruns hcons
  rwa [Nat.add_sub_cancel_left, h₁] at hout

/-- A program that succeeds replaces the bytes of its range. -/
theorem Stores.program_eq (h : Stores hal mem eraseVal) {buffer : Nat → UInt8}
    (ha : addr + size < 2 ^ 32)
    (hr : secureflashSecureProgram hal spEtss sf buffer addr size appId d = (some (.ok out), d')) :
    mem d'.jedec = overwritten (mem d.jedec) addr size buffer := by
  obtain ⟨session, d₁, d₂, cs, hruns, hcons, h₁, h₂⟩ := h.transferred (program_transferred ha hr)
  have hm := h.program_runs hruns hcons
  rw [Nat.add_sub_cancel_left, h₁] at hm
  rw [h₂, hm]
  simp only [Nat.zero_add]

/-- An erase that succeeds sets the bytes of its range to the erase value. -/
theorem Stores.erase_eq (h : Stores hal mem eraseVal) (ha : addr + size < 2 ^ 32)
    (hr : secureflashSecureErase hal spEtss sf n addr size appId d = (some (.ok out), d')) :
    mem d'.jedec = overwritten (mem d.jedec) addr size fun _ => eraseVal := by
  obtain ⟨session, d₁, d₂, cs, hruns, hcons, h₁, h₂⟩ := h.transferred (erase_transferred ha hr)
  have hm := h.erase_runs hruns hcons
  rw [Nat.add_sub_cancel_left, h₁] at hm
  rw [h₂, hm]

/-! ## The block driver: `etss_secureflash.c` -/

/-- `get_phys_address`. -/
def getPhysAddress (cfg : Config) (blockId offset : Nat) : Nat :=
  add32 (add32 cfg.flashAreaAddr (blockId * cfg.blockSize % 2 ^ 32)) offset

/-- The loop of `etss_secureflash_erase` from `offset` on, for at most `n` rounds, with at most `m`
rounds of the loop below. -/
def eraseSectors (hal : Jedec J) (spEtss : Int) (sf : Secureflash) (appId : Int) (cfg : Config)
    (m blockId : Nat) : Nat → Nat → Device J → Option (Except Status Unit) × Device J
  | 0, offset, d => (if offset < cfg.blockSize then none else some (.ok ()), d)
  | n + 1, offset, d =>
    if offset < cfg.blockSize then
      match secureflashSecureErase hal spEtss sf m (getPhysAddress cfg blockId offset)
        cfg.sectorSize appId d with
      | (none, d) => (none, d)
      | (some (.error _), d) => (some (.error .storageFailure), d)
      | (some (.ok _), d) =>
        eraseSectors hal spEtss sf appId cfg m blockId n (add32 offset cfg.sectorSize) d
    else (some (.ok ()), d)

def etssSecureflashErase (hal : Jedec J) (spEtss : Int) (sf : Secureflash) (appId : Int)
    (cfg : Config) (m n blockId : Nat) (d : Device J) : Option (Except Status Unit) × Device J :=
  eraseSectors hal spEtss sf appId cfg m blockId n 0 d

section Sectors
variable {cfg : Config} {m blockId offset : Nat}

/-- The addresses of the block do not wrap around. -/
def Fits (cfg : Config) (blockId : Nat) : Prop :=
  cfg.flashAreaAddr + (blockId + 1) * cfg.blockSize < 2 ^ 32

theorem Fits.phys_eq (h : Fits cfg blockId) (ho : offset ≤ cfg.blockSize) :
    getPhysAddress cfg blockId offset = cfg.flashAreaAddr + blockId * cfg.blockSize + offset := by
  unfold Fits at h
  rw [Nat.add_mul, Nat.one_mul] at h
  have hbase : add32 cfg.flashAreaAddr (blockId * cfg.blockSize) =
      cfg.flashAreaAddr + blockId * cfg.blockSize := add32_eq (by omega)
  unfold getPhysAddress
  rw [Nat.mod_eq_of_lt (show blockId * cfg.blockSize < 2 ^ 32 by omega), hbase, add32_eq (by omega)]

/-- The sectors from `offset` on are set to the erase value. -/
theorem Stores.eraseSectors_eq (h : Stores hal mem eraseVal) (hf : Fits cfg blockId)
    (hd : cfg.sectorSize ∣ cfg.blockSize) (ho : cfg.sectorSize ∣ offset) (hle : offset ≤ cfg.blockSize)
    (hr : eraseSectors hal spEtss sf appId cfg m blockId n offset d = (some (.ok ()), d')) :
    mem d'.jedec = overwritten (mem d.jedec) (cfg.flashAreaAddr + blockId * cfg.blockSize + offset)
      (cfg.blockSize - offset) fun _ => eraseVal := by
  have hlt := cfg.blockSize_lt
  induction n generalizing offset d with
  | zero =>
    unfold eraseSectors at hr
    split_ifs at hr with hend
    · cases hr
    · obtain rfl : d = d' := (Prod.mk.inj hr).2
      obtain rfl : offset = cfg.blockSize := by omega
      rw [Nat.sub_self, overwritten_zero]
  | succ n ih =>
    unfold eraseSectors at hr
    split_ifs at hr with hend
    · have hnext : offset + cfg.sectorSize ≤ cfg.blockSize := by
        have hsub : cfg.sectorSize ∣ cfg.blockSize - offset := Nat.dvd_sub hd ho
        have := Nat.le_of_dvd (by omega) hsub
        omega
      rw [hf.phys_eq hle] at hr
      cases hop : secureflashSecureErase hal spEtss sf m
        (cfg.flashAreaAddr + blockId * cfg.blockSize + offset) cfg.sectorSize appId d with
      | mk r d₁ =>
        rw [hop] at hr
        obtain _ | _ | out := r
        · cases hr
        · cases hr
        dsimp only at hr
        rw [add32_eq (by omega)] at hr
        unfold Fits at hf
        rw [Nat.add_mul, Nat.one_mul] at hf
        have hm := h.erase_eq (by omega) hop
        rw [ih (Nat.dvd_add ho dvd_rfl) hnext hr, hm]
        have happ := overwritten_append (mem d.jedec)
          (cfg.flashAreaAddr + blockId * cfg.blockSize + offset) cfg.sectorSize
          (cfg.blockSize - (offset + cfg.sectorSize)) (fun _ => eraseVal) (fun _ => eraseVal)
          fun _ => rfl
        rw [← Nat.add_assoc, happ]
        congr 1
        omega
    · obtain rfl : d = d' := (Prod.mk.inj hr).2
      obtain rfl : offset = cfg.blockSize := by omega
      rw [Nat.sub_self, overwritten_zero]

/-- The loop ends when it may run as many rounds as the block has bytes. -/
theorem eraseSectors_ends (hf : Fits cfg blockId) (hd : cfg.sectorSize ∣ cfg.blockSize)
    (ho : cfg.sectorSize ∣ offset) (hle : offset ≤ cfg.blockSize) (hm : cfg.sectorSize ≤ m)
    (hn : cfg.blockSize - offset ≤ n) :
    (eraseSectors hal spEtss sf appId cfg m blockId n offset d).1.isSome = true := by
  have hlt := cfg.blockSize_lt
  induction n generalizing offset d with
  | zero =>
    unfold eraseSectors
    rw [if_neg (by omega)]
    rfl
  | succ n ih =>
    unfold eraseSectors
    split_ifs with hend
    · have hpos : 0 < cfg.sectorSize := by
        rcases Nat.eq_zero_or_pos cfg.sectorSize with h0 | hpos
        · rw [h0, Nat.zero_dvd] at hd
          omega
        · exact hpos
      have hnext : offset + cfg.sectorSize ≤ cfg.blockSize := by
        have hsub : cfg.sectorSize ∣ cfg.blockSize - offset := Nat.dvd_sub hd ho
        have := Nat.le_of_dvd (by omega) hsub
        omega
      have hend' : (secureflashSecureErase hal spEtss sf m (getPhysAddress cfg blockId offset)
          cfg.sectorSize appId d).1.isSome = true := by
        rw [hf.phys_eq hle]
        unfold Fits at hf
        rw [Nat.add_mul, Nat.one_mul] at hf
        exact erase_ends (by omega) hm
      generalize secureflashSecureErase hal spEtss sf m (getPhysAddress cfg blockId offset)
        cfg.sectorSize appId d = r at hend' ⊢
      obtain ⟨_ | _ | out, d₁⟩ := r
      · cases hend'
      · rfl
      · dsimp only
        rw [add32_eq (by omega)]
        exact ih (Nat.dvd_add ho dvd_rfl) hnext (by omega)
    · rfl

end Sectors

/-! ## Chunking is exact -/

/-- What holds of the accesses to a range, whatever the HAL answers: their loops end, and an access
that succeeds has passed exact chunks to the HAL, with the matching part of the buffer. They succeed
over a HAL that never fails, unless their arguments are refused. -/
structure ChunksExact (hal : Jedec J) (spEtss : Int) (sf : Secureflash) (addr size : Nat) (appId : Int)
    (buffer : Nat → UInt8) (d : Device J) : Prop where
  read_ends : (secureflashSecureRead hal spEtss sf addr size appId d).1.isSome = true
  program_ends : (secureflashSecureProgram hal spEtss sf buffer addr size appId d).1.isSome = true
  erase_ends : ∀ n, size ≤ n → (secureflashSecureErase hal spEtss sf n addr size appId d).1.isSome = true
  read : ∀ out d', secureflashSecureRead hal spEtss sf addr size appId d = (some (.ok out), d') →
    Transferred hal (readChunk hal) sf.architecture.secureReadSize addr size d out d'
  program : ∀ out d', secureflashSecureProgram hal spEtss sf buffer addr size appId d =
    (some (.ok out), d') →
    Transferred hal (programChunk hal buffer) sf.architecture.secureProgramSize addr size d out d'
  erase : ∀ n out d', secureflashSecureErase hal spEtss sf n addr size appId d =
    (some (.ok out), d') →
    Transferred hal (eraseChunk hal) sf.architecture.minSecureEraseSize addr size d out d'
  succeeds : NeverFails hal →
    (¬ Refused spEtss sf addr size appId .read →
      Succeeds (secureflashSecureRead hal spEtss sf addr size appId d)) ∧
    (¬ Refused spEtss sf addr size appId (.program buffer) →
      Succeeds (secureflashSecureProgram hal spEtss sf buffer addr size appId d)) ∧
    ∀ n, size ≤ n → ¬ Refused spEtss sf addr size appId .erase →
      Succeeds (secureflashSecureErase hal spEtss sf n addr size appId d)

/-- What follows over a HAL that stores bytes: reads of a part of what was programmed, by a device
with other chunk sizes as well, return it, and erasing a block sets exactly its bytes. -/
structure BytesKept (hal : Jedec J) (spEtss : Int) (sf : Secureflash) (addr size : Nat) (appId : Int)
    (buffer : Nat → UInt8) (mem : J → Nat → UInt8) (eraseVal : UInt8) (d : Device J) : Prop where
  readBack : ∀ (sf' : Secureflash) appId' out d₁ off len out' d₂,
    secureflashSecureProgram hal spEtss sf buffer addr size appId d = (some (.ok out), d₁) →
    off + len ≤ size →
    secureflashSecureRead hal spEtss sf' (addr + off) len appId' d₁ = (some (.ok out'), d₂) →
    out' = bytesAt buffer off len
  block_ends : ∀ (cfg : Config) m n blockId, Fits cfg blockId → cfg.sectorSize ∣ cfg.blockSize →
    cfg.sectorSize ≤ m → cfg.blockSize ≤ n →
    (etssSecureflashErase hal spEtss sf appId cfg m n blockId d).1.isSome = true
  block : ∀ (cfg : Config) m n blockId d', Fits cfg blockId → cfg.sectorSize ∣ cfg.blockSize →
    etssSecureflashErase hal spEtss sf appId cfg m n blockId d = (some (.ok ()), d') →
    mem d'.jedec = overwritten (mem d.jedec) (cfg.flashAreaAddr + blockId * cfg.blockSize)
      cfg.blockSize fun _ => eraseVal

theorem bytesAt_overwritten (m : Nat → UInt8) {off : Nat} (h : off + len ≤ size) (f : Nat → UInt8) :
    bytesAt (overwritten m addr size f) (addr + off) len = bytesAt f off len := by
  refine List.map_congr_left fun k hk => ?_
  have hk := List.mem_range.mp hk
  unfold overwritten
  rw [if_pos (by omega)]
  congr 1
  omega

/-- Secure flash chunking is exact, and so over a HAL that stores bytes what is programmed is read
back and what is erased is a block. -/
theorem secureflash_exact (hal : Jedec J) (spEtss : Int) (sf : Secureflash) (appId : Int)
    (buffer : Nat → UInt8) (d : Device J) {addr size : Nat} (ha : addr + size < 2 ^ 32) :
    ChunksExact hal spEtss sf addr size appId buffer d ∧ ∀ mem eraseVal, Stores hal mem eraseVal →
      BytesKept hal spEtss sf addr size appId buffer mem eraseVal d := by
  constructor
  · exact ⟨read_ends ha, program_ends ha, fun _ hn => erase_ends ha hn,
      fun _ _ h => read_transferred ha h, fun _ _ h => program_transferred ha h,
      fun _ _ _ h => erase_transferred ha h, fun h => ⟨read_succeeds h ha, program_succeeds h ha,
        fun _ hn hr => erase_succeeds h ha hn hr⟩⟩
  intro mem eraseVal hs
  refine ⟨fun sf' appId' out d₁ off len out' d₂ hp hle hr => ?_, fun cfg m n blockId hf hd hm hn => ?_,
    fun cfg m n blockId d' hf hd he => ?_⟩
  · rw [hs.read_eq (by omega) hr, hs.program_eq ha hp]
    exact bytesAt_overwritten _ hle buffer
  · exact eraseSectors_ends hf hd (Nat.dvd_zero _) (Nat.zero_le _) hm hn
  · exact hs.eraseSectors_eq hf hd (Nat.dvd_zero _) (Nat.zero_le _) he

/-- A memory of bytes as a HAL. -/
def memoryHal : Jedec (Nat → UInt8) where
  createSession _ m := (some 0, m)
  terminateSession _ m := (true, m)
  secureRead addr len _ m := (some (bytesAt m addr len), m)
  secureProgram addr data _ m := (true, overwritten m addr data.length fun k => data.getD k 0)
  secureErase addr len _ m := (true, overwritten m addr len fun _ => 0xFF)

theorem memoryHal_stores : Stores memoryHal id 0xFF where
  create _ _ := rfl
  terminate _ _ := rfl
  read _ _ _ _ _ h := ⟨(Option.some.inj h).symm, rfl⟩
  program addr f len _ m _ := by
    show overwritten m addr ((List.range len).map f).length
      (fun k => ((List.range len).map f).getD k 0) = overwritten m addr len f
    rw [List.length_map, List.length_range]
    funext x
    unfold overwritten
    split_ifs with hx
    · dsimp only
      rw [List.getD_eq_getElem?_getD, List.getElem?_map, List.getElem?_range (by omega)]
      rfl
    · rfl
  erase _ _ _ _ _ := rfl

/-- Thirteen bytes are programmed in chunks of at most eight. -/
theorem secureflash_exact_memory :
    ChunksExact memoryHal 1 twoApps 3 13 7 UInt8.ofNat ⟨fun _ => 0xFF, []⟩ ∧
      BytesKept memoryHal 1 twoApps 3 13 7 UInt8.ofNat id 0xFF ⟨fun _ => 0xFF, []⟩ := by
  have h := secureflash_exact memoryHal 1 twoApps 7 UInt8.ofNat ⟨fun _ => 0xFF, []⟩
    (show 3 + 13 < 2 ^ 32 by decide)
  exact ⟨h.1, h.2 id 0xFF memoryHal_stores⟩

end SecureFlash
