import TfmExtras.Lib.PowerLoss
import TfmExtras.SecureFlash.BlockDriver

/-! The block driver over a HAL that loses power in one of its calls. An operation is then carried out in
full, or its first bytes are changed and nothing else is until the next start. -/

namespace SecureFlash
open Etss NorFlash

variable {J : Type} {hal : Jedec J} {hw : Hardware J} {spEtss appId : Int} {sf : Secureflash}
  {cfg : Config} {mem : J → Nat → UInt8} {eraseVal : UInt8} {on I : J → Prop}
  {addr size pos n len session : Nat} {buf : List UInt8} {e : Error} {d : Device J} {b : Board J}
  {m : Nat → Nat → UInt8} {ok ok' : Prop} {j : J}

/-! ## What every call to the HAL keeps -/

structure Jedec.Keeps (hal : Jedec J) (I : J → Prop) : Prop where
  create : ∀ keyId j, I j → I (hal.createSession keyId j).2
  terminate : ∀ session j, I j → I (hal.terminateSession session j).2
  read : ∀ addr len session j, I j → I (hal.secureRead addr len session j).2
  program : ∀ addr data session j, I j → I (hal.secureProgram addr data session j).2
  erase : ∀ addr len session j, I j → I (hal.secureErase addr len session j).2

theorem transferLoop_keeps {op : (addr pos chunk : Nat) → Device J → Option (List UInt8) × Device J}
    (hop : ∀ addr pos chunk d, I d.jedec → I (op addr pos chunk d).2.jedec) (n : Nat) :
    ∀ {addr size pos buf d}, I d.jedec →
      I (transferLoop len op e n addr size pos buf d).2.jedec := by
  induction n with
  | zero =>
    intro addr size pos buf d hd
    cases size <;> exact hd
  | succ n ih =>
    intro addr size pos buf d hd
    cases size with
    | zero => exact hd
    | succ size =>
      have hop := hop addr pos (nextChunk len addr (size + 1)) d hd
      unfold transferLoop
      dsimp only
      generalize op addr pos (nextChunk len addr (size + 1)) d = r at hop ⊢
      obtain ⟨_ | bs, d₁⟩ := r
      · exact hop
      · exact ih hop

theorem programChunk_jedec (buffer : Nat → UInt8) (session addr pos chunk : Nat) (d : Device J) :
    ((programChunk hal buffer session addr pos chunk d).1.isSome = (hal.secureProgram addr
        ((List.range chunk).map fun k => buffer (pos + k)) session d.jedec).1) ∧
      (programChunk hal buffer session addr pos chunk d).2.jedec = (hal.secureProgram addr
        ((List.range chunk).map fun k => buffer (pos + k)) session d.jedec).2 := by
  unfold programChunk jedecSecureProgram
  generalize hal.secureProgram addr ((List.range chunk).map fun k => buffer (pos + k)) session
    d.jedec = r
  obtain ⟨_ | _, j⟩ := r <;> exact ⟨rfl, rfl⟩

namespace Jedec.Keeps
variable (h : hal.Keeps I)
include h

theorem eraseLoop (n : Nat) : ∀ {addr size d}, I d.jedec →
    I (eraseLoop hal len session n addr size d).2.jedec := by
  induction n with
  | zero =>
    intro addr size d hd
    cases size <;> exact hd
  | succ n ih =>
    intro addr size d hd
    cases size with
    | zero => exact hd
    | succ size =>
      have herase : I (jedecSecureErase hal addr len session d).2.jedec := h.erase _ _ _ _ hd
      unfold SecureFlash.eraseLoop
      generalize jedecSecureErase hal addr len session d = r at herase ⊢
      obtain ⟨_ | _, d₁⟩ := r
      · exact herase
      · exact ih herase

theorem accessIn {loop : (session : Nat) → Device J → Result J}
    (hloop : ∀ session d, I d.jedec → I (loop session d).2.jedec) (hd : I d.jedec) :
    I (accessIn hal spEtss sf addr appId loop d).2.jedec := by
  unfold SecureFlash.accessIn
  cases queryAppInfo spEtss sf addr appId with
  | none => exact hd
  | some first =>
    have hcreate : I (jedecCreateSession hal first.keyId d).2.jedec := h.create _ _ hd
    dsimp only
    generalize jedecCreateSession hal first.keyId d = r at hcreate ⊢
    obtain ⟨_ | session, d₁⟩ := r
    · exact hcreate
    have hrun := hloop session d₁ hcreate
    dsimp only
    generalize loop session d₁ = r at hrun ⊢
    obtain ⟨_ | _ | out, d₂⟩ := r
    · exact hrun
    · exact hrun
    have hterm : I (jedecTerminateSession hal session d₂).2.jedec := h.terminate _ _ hrun
    dsimp only
    generalize jedecTerminateSession hal session d₂ = r at hterm ⊢
    obtain ⟨_ | _, d₃⟩ := r <;> exact hterm

theorem readLoop (n : Nat) (hd : I d.jedec) :
    I (transferLoop len (fun addr _ chunk => jedecSecureRead hal addr chunk session) e n addr size pos
      buf d).2.jedec :=
  transferLoop_keeps (fun addr _ chunk d hd => h.read addr chunk session d.jedec hd) n hd

theorem programLoop (buffer : Nat → UInt8) (n : Nat) (hd : I d.jedec) :
    I (transferLoop len (programChunk hal buffer session) e n addr size pos buf d).2.jedec :=
  transferLoop_keeps (fun addr pos chunk d hd =>
    (programChunk_jedec buffer session addr pos chunk d).2 ▸ h.program _ _ session d.jedec hd) n hd

theorem secureRead (hd : I d.jedec) :
    I (secureflashSecureRead hal spEtss sf addr size appId d).2.jedec := by
  unfold secureflashSecureRead
  split_ifs
  · exact hd
  · exact hd
  · exact h.accessIn (fun _ _ hd => h.readLoop _ hd) hd

theorem secureProgram (buffer : Nat → UInt8) (hd : I d.jedec) :
    I (secureflashSecureProgram hal spEtss sf buffer addr size appId d).2.jedec := by
  unfold secureflashSecureProgram
  split_ifs
  · exact hd
  · exact hd
  · exact h.accessIn (fun _ _ hd => h.programLoop buffer _ hd) hd

theorem secureErase (n : Nat) (hd : I d.jedec) :
    I (secureflashSecureErase hal spEtss sf n addr size appId d).2.jedec := by
  unfold secureflashSecureErase
  dsimp only
  split_ifs
  · exact hd
  · exact hd
  · exact hd
  · exact h.accessIn (fun _ _ hd => h.eraseLoop _ hd) hd

theorem eraseSectors {blk k : Nat} (n : Nat) : ∀ {off : Nat} {d : Device J}, I d.jedec →
    I (eraseSectors hal spEtss sf appId cfg k blk n off d).2.jedec := by
  induction n with
  | zero => exact fun hd => hd
  | succ n ih =>
    intro off d hd
    unfold SecureFlash.eraseSectors
    split_ifs with hend
    · have herase : I (secureflashSecureErase hal spEtss sf k (getPhysAddress cfg blk off) cfg.sectorSize
        appId d).2.jedec := h.secureErase k hd
      generalize secureflashSecureErase hal spEtss sf k (getPhysAddress cfg blk off) cfg.sectorSize
        appId d = r at herase ⊢
      obtain ⟨_ | _ | out, d₁⟩ := r
      · exact herase
      · exact herase
      · exact ih herase
    · exact hd

end Jedec.Keeps

theorem Board.access_keeps {call : Secureflash → Device J → Result J}
    (hcall : ∀ sf d, I d.jedec → I (call sf d).2.jedec) (hb : I b.device.jedec) :
    I (b.access call).2.device.jedec := by
  unfold Board.access
  cases b.context.device with
  | none => exact hb
  | some sf =>
    have hrun := hcall sf b.device hb
    dsimp only
    generalize call sf b.device = r at hrun ⊢
    obtain ⟨_ | _ | out, d₁⟩ := r <;> exact hrun

/-- What every call to the HAL keeps, every operation keeps. -/
theorem ops_keep (h : hw.hal.Keeps I) (o : Op) (hb : I b.device.jedec) :
    I (secureFlashFsOps hw cfg o b).2.device.jedec := by
  cases o with
  | init =>
    unfold secureFlashFsOps etssSecureflashInit
    dsimp only
    generalize secureflashInit hw.chip hw.answers b.context = r
    obtain ⟨_ | _, c⟩ := r <;> exact hb
  | read blk off n => exact Board.access_keeps (fun _ _ hd => h.secureRead hd) hb
  | write blk off data => exact Board.access_keeps (fun _ _ hd => h.secureProgram _ hd) hb
  | flush blk => exact hb
  | erase blk =>
    refine Board.access_keeps (fun sf d hd => ?_) hb
    have hrun : I (etssSecureflashErase hw.hal hw.spEtss sf b.appId cfg hw.rounds hw.rounds blk
      d).2.jedec := h.eraseSectors _ hd
    generalize etssSecureflashErase hw.hal hw.spEtss sf b.appId cfg hw.rounds hw.rounds blk d = r
      at hrun ⊢
    obtain ⟨_ | _ | out, d₁⟩ := r <;> exact hrun

/-! ## A HAL that loses power -/

/-- The HAL stores bytes, and fails no call while it has power. A program or an erase that power is lost
in changes the first bytes of its range. Without power nothing changes. -/
structure LosesPower (hal : Jedec J) (mem : J → Nat → UInt8) (eraseVal : UInt8) (on : J → Prop) : Prop
    extends Stores hal mem eraseVal where
  off : ∀ bytes, hal.Keeps fun j => ¬ on j ∧ mem j = bytes
  createOn : ∀ keyId j, on (hal.createSession keyId j).2 →
    (hal.createSession keyId j).1.isSome = true
  terminateOn : ∀ session j, on (hal.terminateSession session j).2 →
    (hal.terminateSession session j).1 = true
  readOn : ∀ addr len session j, on (hal.secureRead addr len session j).2 →
    (hal.secureRead addr len session j).1.isSome = true
  readMem : ∀ addr len session j, mem (hal.secureRead addr len session j).2 = mem j
  programOn : ∀ addr data session j, on (hal.secureProgram addr data session j).2 →
    (hal.secureProgram addr data session j).1 = true
  programOff : ∀ addr (f : Nat → UInt8) len session j,
    ¬ on (hal.secureProgram addr ((List.range len).map f) session j).2 → ∃ k ≤ len,
      mem (hal.secureProgram addr ((List.range len).map f) session j).2 = overwritten (mem j) addr k f
  eraseOn : ∀ addr len session j, on (hal.secureErase addr len session j).2 →
    (hal.secureErase addr len session j).1 = true
  eraseOff : ∀ addr len session j, ¬ on (hal.secureErase addr len session j).2 → ∃ k ≤ len,
    mem (hal.secureErase addr len session j).2 = overwritten (mem j) addr k fun _ => eraseVal

/-- With power on, all of the `n` bytes are done; without, the first of them. The memory is `m k` once
`k` bytes are done. -/
def Progress (mem : J → Nat → UInt8) (on : J → Prop) (m : Nat → Nat → UInt8) (n : Nat) (ok : Prop)
    (j : J) : Prop :=
  on j ∧ ok ∧ mem j = m n ∨ ¬ on j ∧ ∃ k ≤ n, mem j = m k

namespace Progress

theorem mono (h : Progress mem on m n ok j) (hok : ok → ok') : Progress mem on m n ok' j :=
  h.imp_left fun ⟨hon, h, hm⟩ => ⟨hon, hok h, hm⟩

/-- After the first `k` bytes. -/
theorem shift {k : Nat} (h : Progress mem on (fun i => m (k + i)) n ok j) :
    Progress mem on m (k + n) ok j :=
  h.imp_right fun ⟨hoff, i, hi, hm⟩ => ⟨hoff, k + i, by omega, hm⟩

theorem lost {k : Nat} (h : ¬ on j ∧ mem j = m k) (hk : k ≤ n) : Progress mem on m n ok j :=
  .inr ⟨h.1, k, hk, h.2⟩

end Progress

theorem transferLoop_progress
    {op : (addr pos chunk : Nat) → Device J → Option (List UInt8) × Device J}
    (hop : ∀ pos chunk d, on d.jedec → mem d.jedec = m pos →
      Progress mem on m (pos + chunk) ((op (addr + pos) pos chunk d).1.isSome = true)
        (op (addr + pos) pos chunk d).2.jedec)
    (hoff : ∀ bytes addr pos chunk d, ¬ on d.jedec ∧ mem d.jedec = bytes →
      ¬ on (op addr pos chunk d).2.jedec ∧ mem (op addr pos chunk d).2.jedec = bytes)
    (hl : 0 < len) (hl' : len < 2 ^ 32) (ha : addr + size < 2 ^ 32) (n : Nat) :
    ∀ {pos rest buf d}, pos + rest = size → rest ≤ n → on d.jedec → mem d.jedec = m pos →
      Progress mem on m size (Succeeds (transferLoop len op e n (addr + pos) rest pos buf d))
        (transferLoop len op e n (addr + pos) rest pos buf d).2.jedec := by
  induction n with
  | zero =>
    intro pos rest buf d hsize hrest hon hm
    obtain rfl : rest = 0 := by omega
    obtain rfl : pos = size := hsize
    exact .inl ⟨hon, ⟨_, _, rfl⟩, hm⟩
  | succ n ih =>
    intro pos rest buf d hsize hrest hon hm
    cases rest with
    | zero =>
      obtain rfl : pos = size := hsize
      exact .inl ⟨hon, ⟨_, _, rfl⟩, hm⟩
    | succ rest =>
      obtain ⟨hpos, hle⟩ := nextChunk_pos (addr + pos) hl hl' (show 0 < rest + 1 by omega) (by omega)
      have hround := hop pos (nextChunk len (addr + pos) (rest + 1)) d hon hm
      unfold transferLoop
      dsimp only
      generalize nextChunk len (addr + pos) (rest + 1) = chunk at hpos hle hround ⊢
      generalize op (addr + pos) pos chunk d = r at hround ⊢
      obtain ⟨r, d₁⟩ := r
      rcases hround with ⟨hon₁, hsome, hm₁⟩ | ⟨hoff₁, k, hk, hm₁⟩
      · obtain ⟨bs, rfl⟩ := Option.isSome_iff_exists.mp hsome
        dsimp only
        rw [add32_eq (by omega), sub32_eq (by omega) hle, Nat.add_assoc]
        exact ih (by omega) (by omega) hon₁ hm₁
      · cases r with
        | none => exact .lost ⟨hoff₁, hm₁⟩ (by omega)
        | some bs =>
          refine .lost (k := k) ?_ (by omega)
          exact transferLoop_keeps (I := fun j => ¬ on j ∧ mem j = m k) (hoff (m k)) n ⟨hoff₁, hm₁⟩

namespace LosesPower
variable (h : LosesPower hal mem eraseVal on)
include h

theorem eraseLoop_progress {unit : Nat} (hl : 0 < unit) (hd : unit ∣ size) (ha : addr + size < 2 ^ 32)
    (hm : ∀ i k, overwritten (m i) (addr + i) k (fun _ => eraseVal) = m (i + k)) (n : Nat) :
    ∀ {pos rest d}, pos + rest = size → unit ∣ rest → rest ≤ n → on d.jedec → mem d.jedec = m pos →
      Progress mem on m size (Succeeds (eraseLoop hal unit session n (addr + pos) rest d))
        (eraseLoop hal unit session n (addr + pos) rest d).2.jedec := by
  induction n with
  | zero =>
    intro pos rest d hsize _ hrest hon hmem
    obtain rfl : rest = 0 := by omega
    obtain rfl : pos = size := hsize
    exact .inl ⟨hon, ⟨_, _, rfl⟩, hmem⟩
  | succ n ih =>
    intro pos rest d hsize hdvd hrest hon hmem
    cases rest with
    | zero =>
      obtain rfl : pos = size := hsize
      exact .inl ⟨hon, ⟨_, _, rfl⟩, hmem⟩
    | succ rest =>
      have hle : unit ≤ rest + 1 := Nat.le_of_dvd rest.succ_pos hdvd
      have htrue := h.eraseOn (addr + pos) unit session d.jedec
      have hpart := h.eraseOff (addr + pos) unit session d.jedec
      have hfull := h.erase (addr + pos) unit session d.jedec
      rw [hmem] at hpart hfull
      unfold SecureFlash.eraseLoop jedecSecureErase
      generalize hal.secureErase (addr + pos) unit session d.jedec = r at htrue hpart hfull ⊢
      obtain ⟨r, j⟩ := r
      dsimp only at htrue hpart hfull ⊢
      by_cases hj : on j
      · obtain rfl := htrue hj
        dsimp only
        rw [add32_eq (by omega), sub32_eq (by omega) hle, Nat.add_assoc]
        exact ih (by omega) (Nat.dvd_sub hdvd dvd_rfl) (by omega) hj ((hfull rfl).trans (hm _ _))
      · obtain ⟨k, hk, hmem'⟩ := hpart hj
        have hleft : ¬ on j ∧ mem j = m (pos + k) := ⟨hj, hmem'.trans (hm _ _)⟩
        cases r with
        | false => exact .lost hleft (by omega)
        | true => exact .lost ((h.off _).eraseLoop n hleft) (by omega)

/-! ## Accesses -/

theorem accessIn_progress {loop : (session : Nat) → Device J → Result J}
    (hq : queryAppInfo spEtss sf addr appId ≠ none)
    (hloop : ∀ session d, on d.jedec → mem d.jedec = m 0 →
      Progress mem on m n (Succeeds (loop session d)) (loop session d).2.jedec)
    (hoff : ∀ session d, ¬ on d.jedec ∧ mem d.jedec = m 0 →
      ¬ on (loop session d).2.jedec ∧ mem (loop session d).2.jedec = m 0)
    (hmem : mem d.jedec = m 0) :
    Progress mem on m n (Succeeds (accessIn hal spEtss sf addr appId loop d))
      (accessIn hal spEtss sf addr appId loop d).2.jedec := by
  obtain ⟨first, hq⟩ := Option.ne_none_iff_exists'.mp hq
  have hcreate : on (jedecCreateSession hal first.keyId d).2.jedec →
    (jedecCreateSession hal first.keyId d).1.isSome = true := h.createOn first.keyId d.jedec
  have hcreated : mem (jedecCreateSession hal first.keyId d).2.jedec = m 0 :=
    (h.create first.keyId d.jedec).trans hmem
  -- whatever is left of the loop without power, ending the session does not change it
  have hlost : ∀ session {k d₂}, ¬ on d₂.jedec ∧ mem d₂.jedec = m k →
      ¬ on (jedecTerminateSession hal session d₂).2.jedec ∧
        mem (jedecTerminateSession hal session d₂).2.jedec = m k :=
    fun session k d₂ hd₂ => (h.off (m k)).terminate session d₂.jedec hd₂
  unfold SecureFlash.accessIn
  rw [hq]
  dsimp only
  generalize jedecCreateSession hal first.keyId d = r at hcreate hcreated ⊢
  obtain ⟨r, d₁⟩ := r
  by_cases hon : on d₁.jedec
  · obtain ⟨session, rfl⟩ := Option.isSome_iff_exists.mp (hcreate hon)
    have hrun := hloop session d₁ hon hcreated
    dsimp only
    generalize loop session d₁ = r at hrun ⊢
    obtain ⟨r, d₂⟩ := r
    rcases hrun with ⟨hon₂, ⟨out, d', hr⟩, hm₂⟩ | ⟨hoff₂, k, hk, hm₂⟩
    · obtain ⟨rfl, rfl⟩ := Prod.mk.inj hr
      have hterm : on (jedecTerminateSession hal session d₂).2.jedec →
        (jedecTerminateSession hal session d₂).1 = true := h.terminateOn session d₂.jedec
      have hmterm : mem (jedecTerminateSession hal session d₂).2.jedec = m n :=
        (h.terminate session d₂.jedec).trans hm₂
      dsimp only
      generalize jedecTerminateSession hal session d₂ = r at hterm hmterm ⊢
      obtain ⟨r, d₃⟩ := r
      by_cases hon' : on d₃.jedec
      · obtain rfl := hterm hon'
        exact .inl ⟨hon', ⟨_, _, rfl⟩, hmterm⟩
      · cases r <;> exact .lost ⟨hon', hmterm⟩ le_rfl
    · obtain _ | _ | out := r
      · exact .lost ⟨hoff₂, hm₂⟩ hk
      · exact .lost ⟨hoff₂, hm₂⟩ hk
      · have hterm := hlost session ⟨hoff₂, hm₂⟩
        dsimp only
        generalize jedecTerminateSession hal session d₂ = r at hterm ⊢
        obtain ⟨_ | _, d₃⟩ := r <;> exact .lost hterm hk
  · cases r with
    | none => exact .lost ⟨hon, hcreated⟩ (Nat.zero_le n)
    | some session =>
      have hrun := hoff session d₁ ⟨hon, hcreated⟩
      dsimp only
      generalize loop session d₁ = r at hrun ⊢
      obtain ⟨_ | _ | out, d₂⟩ := r
      · exact .lost hrun (Nat.zero_le n)
      · exact .lost hrun (Nat.zero_le n)
      · have hterm := hlost session hrun
        dsimp only
        generalize jedecTerminateSession hal session d₂ = r at hterm ⊢
        obtain ⟨_ | _, d₃⟩ := r <;> exact .lost hterm (Nat.zero_le n)

theorem read_progress (ha : addr + size < 2 ^ 32) (hr : ¬ Refused spEtss sf addr size appId .read) :
    Progress mem on (fun _ => mem d.jedec) size
      (Succeeds (secureflashSecureRead hal spEtss sf addr size appId d))
      (secureflashSecureRead hal spEtss sf addr size appId d).2.jedec := by
  unfold Refused at hr
  simp only [not_or] at hr
  obtain ⟨hinit, htotal, hquery, _⟩ := hr
  unfold secureflashSecureRead
  rw [if_neg hinit, if_neg htotal]
  refine h.accessIn_progress hquery (fun session d₁ hon hm => ?_)
    (fun session d₁ hd₁ => (h.off _).readLoop _ hd₁) rfl
  refine transferLoop_progress (fun pos chunk d₂ hon₂ hm₂ => ?_)
    (fun bytes addr pos chunk d₂ hd₂ => (h.off bytes).read addr chunk session d₂.jedec hd₂)
    sf.architecture.secureReadSize_pos sf.architecture.secureReadSize_lt ha size
    (Nat.zero_add size) le_rfl hon hm
  have hmem := (h.readMem (addr + pos) chunk session d₂.jedec).trans hm₂
  by_cases hon' : on (hal.secureRead (addr + pos) chunk session d₂.jedec).2
  · exact .inl ⟨hon', h.readOn _ _ _ _ hon', hmem⟩
  · exact .lost ⟨hon', hmem⟩ (Nat.zero_le _)

theorem program_progress {buffer : Nat → UInt8} (ha : addr + size < 2 ^ 32)
    (hr : ¬ Refused spEtss sf addr size appId (.program buffer)) :
    Progress mem on (fun k => overwritten (mem d.jedec) addr k buffer) size
      (Succeeds (secureflashSecureProgram hal spEtss sf buffer addr size appId d))
      (secureflashSecureProgram hal spEtss sf buffer addr size appId d).2.jedec := by
  unfold Refused at hr
  simp only [not_or] at hr
  obtain ⟨hinit, htotal, hquery, _⟩ := hr
  have hzero : mem d.jedec = overwritten (mem d.jedec) addr 0 buffer := (overwritten_zero _ _ _).symm
  unfold secureflashSecureProgram
  rw [if_neg hinit, if_neg htotal]
  refine h.accessIn_progress hquery (fun session d₁ hon hm => ?_)
    (fun session d₁ hd₁ => (h.off _).programLoop buffer _ hd₁) hzero
  refine transferLoop_progress (fun pos chunk d₂ hon₂ hm₂ => ?_)
    (fun bytes addr pos chunk d₂ hd₂ => ?_)
    sf.architecture.secureProgramSize_pos sf.architecture.secureProgramSize_lt ha size
    (Nat.zero_add size) le_rfl hon hm
  · obtain ⟨hsome, hjedec⟩ := programChunk_jedec buffer session (addr + pos) pos chunk d₂
    have hjoin : ∀ k, overwritten (overwritten (mem d.jedec) addr pos buffer) (addr + pos) k
        (fun i => buffer (pos + i)) = overwritten (mem d.jedec) addr (pos + k) buffer :=
      fun k => overwritten_append _ _ _ _ _ _ fun _ => rfl
    have hfull := h.program (addr + pos) (fun k => buffer (pos + k)) chunk session d₂.jedec
    have hpart := h.programOff (addr + pos) (fun k => buffer (pos + k)) chunk session d₂.jedec
    rw [hm₂] at hfull hpart
    rw [hsome, hjedec]
    by_cases hon' : on (hal.secureProgram (addr + pos)
      ((List.range chunk).map fun k => buffer (pos + k)) session d₂.jedec).2
    · have htrue := h.programOn _ _ _ _ hon'
      exact .inl ⟨hon', htrue, (hfull htrue).trans (hjoin chunk)⟩
    · obtain ⟨k, hk, hmem⟩ := hpart hon'
      exact .lost ⟨hon', hmem.trans (hjoin k)⟩ (by omega)
  · rw [(programChunk_jedec buffer session addr pos chunk d₂).2]
    exact (h.off bytes).program addr _ session d₂.jedec hd₂

theorem erase_progress (ha : addr + size < 2 ^ 32) (hn : size ≤ n)
    (hr : ¬ Refused spEtss sf addr size appId .erase) :
    Progress mem on (fun k => overwritten (mem d.jedec) addr k fun _ => eraseVal) size
      (Succeeds (secureflashSecureErase hal spEtss sf n addr size appId d))
      (secureflashSecureErase hal spEtss sf n addr size appId d).2.jedec := by
  unfold Refused at hr
  simp only [not_or] at hr
  obtain ⟨hinit, htotal, hquery, hrest⟩ := hr
  have hrest : ¬ (addr % sf.architecture.minSecureEraseSize ≠ 0 ∨
      add32 addr size % sf.architecture.minSecureEraseSize ≠ 0) := not_or.mpr hrest
  unfold secureflashSecureErase
  dsimp only
  rw [if_neg hinit, if_neg htotal, if_neg hrest]
  rw [not_or, not_not, not_not, add32_eq ha] at hrest
  have hs := (Nat.dvd_add_iff_right (Nat.dvd_of_mod_eq_zero hrest.1)).mpr
    (Nat.dvd_of_mod_eq_zero hrest.2)
  refine h.accessIn_progress hquery (fun session d₁ hon hm => ?_)
    (fun session d₁ hd₁ => (h.off _).eraseLoop _ hd₁) (overwritten_zero _ _ _).symm
  exact h.eraseLoop_progress sf.architecture.minSecureEraseSize_pos hs ha
    (fun i k => overwritten_append _ _ _ _ _ _ fun _ => rfl) n (Nat.zero_add size) hs hn hon hm

end LosesPower

/-! ## Operations on the area of a filesystem -/

section
variable {fl fl' : Flash} {o : Op} {b' : Board J}

/-- The board while it has power: an operation has changed the flash in the area, and nothing outside
it. -/
structure Powered (sf : Secureflash) (cfg : Config) (mem : J → Nat → UInt8) (on : J → Prop)
    (b b' : Board J) (fl' : Flash) : Prop where
  on : on b'.device.jedec
  device : b'.context.device = some sf
  appId : b'.appId = b.appId
  represents : Represents cfg (mem b'.device.jedec) fl'
  outside : ∀ x, x < cfg.flashAreaAddr ∨ areaEnd cfg ≤ x →
    mem b'.device.jedec x = mem b.device.jedec x

/-- The board without power. -/
structure Unpowered (cfg : Config) (mem : J → Nat → UInt8) (on : J → Prop) (b b' : Board J)
    (fl' : Flash) : Prop where
  off : ¬ on b'.device.jedec
  represents : Represents cfg (mem b'.device.jedec) fl'
  outside : ∀ x, x < cfg.flashAreaAddr ∨ areaEnd cfg ≤ x →
    mem b'.device.jedec x = mem b.device.jedec x

theorem Unpowered.op (hp : LosesPower hw.hal mem cfg.eraseVal on) (h : Unpowered cfg mem on b b' fl) :
    Unpowered cfg mem on b (secureFlashFsOps hw cfg o b').2 fl := by
  obtain ⟨hoff, hm⟩ : ¬ on (secureFlashFsOps hw cfg o b').2.device.jedec ∧
    mem (secureFlashFsOps hw cfg o b').2.device.jedec = mem b'.device.jedec :=
      ops_keep (hp.off _) o ⟨h.off, rfl⟩
  exact ⟨hoff, hm.symm ▸ h.represents, fun x hx => hm.symm ▸ h.outside x hx⟩

theorem LosesPower.eraseSectors_progress (hp : LosesPower hw.hal mem cfg.eraseVal on)
    (ha : Area hw sf cfg appId) (hinit : sf.isInitialized = true) {blk : Nat}
    (hb : blk < cfg.numBlocks)
    (hm : ∀ i k, overwritten (m i) (cfg.flashAreaAddr + blk * cfg.blockSize + i) k
      (fun _ => cfg.eraseVal) = m (i + k)) (n : Nat) :
    ∀ {off : Nat} {d : Device J}, cfg.sectorSize ∣ off → off ≤ cfg.blockSize →
      cfg.blockSize - off ≤ n → on d.jedec → mem d.jedec = m off →
      Progress mem on m cfg.blockSize
        (∃ d', eraseSectors hw.hal hw.spEtss sf appId cfg hw.rounds blk n off d = (some (.ok ()), d'))
        (eraseSectors hw.hal hw.spEtss sf appId cfg hw.rounds blk n off d).2.jedec := by
  have hlt := cfg.blockSize_lt
  induction n with
  | zero =>
    intro off d _ hle hrest hon hmem
    obtain rfl : off = cfg.blockSize := by omega
    unfold eraseSectors
    rw [if_neg (Nat.lt_irrefl _)]
    exact .inl ⟨hon, ⟨_, rfl⟩, hmem⟩
  | succ n ih =>
    intro off d hdvd hle hrest hon hmem
    unfold eraseSectors
    split_ifs with hend
    · have hsub : cfg.sectorSize ∣ cfg.blockSize - off := Nat.dvd_sub ha.sector hdvd
      have hpos : 0 < cfg.sectorSize := Nat.pos_of_dvd_of_pos hsub (by omega)
      have hnext := Nat.le_of_dvd (by omega) hsub
      have hin := ha.inArea hb (show off + cfg.sectorSize ≤ cfg.blockSize by omega)
      have hrounds := ha.rounds
      have herase := hp.erase_progress (d := d) (n := hw.rounds) hin.lt (by omega)
        (ha.not_refused hinit hin fun _ => ⟨ha.unit.trans hdvd, ha.unit⟩)
      rw [hmem] at herase
      simp only [hm] at herase
      rw [hin.fits.phys_eq hle]
      have hsector := herase.shift
      generalize secureflashSecureErase hw.hal hw.spEtss sf hw.rounds
        (cfg.flashAreaAddr + blk * cfg.blockSize + off) cfg.sectorSize appId d = r at hsector ⊢
      obtain ⟨r, d₁⟩ := r
      rcases hsector with ⟨hon₁, ⟨out, d', hr⟩, hm₁⟩ | ⟨hoff₁, k, hk, hm₁⟩
      · obtain ⟨rfl, rfl⟩ := Prod.mk.inj hr
        dsimp only
        rw [add32_eq (by omega)]
        exact ih (Nat.dvd_add hdvd dvd_rfl) (by omega) (by omega) hon₁ hm₁
      · obtain _ | _ | out := r
        · exact .lost ⟨hoff₁, hm₁⟩ (by omega)
        · exact .lost ⟨hoff₁, hm₁⟩ (by omega)
        · exact .lost ((hp.off _).eraseSectors n ⟨hoff₁, hm₁⟩) (by omega)
    · obtain rfl : off = cfg.blockSize := by omega
      exact .inl ⟨hon, ⟨_, rfl⟩, hmem⟩

/-- What a call to `secureflash.c` has come to is what the board is left with. -/
theorem Board.access_progress (call : Secureflash → Device J → Result J) {P : List UInt8 → Prop}
    (hsf : b.context.device = some sf)
    (h : Progress mem on m n (∃ out d', call sf b.device = (some (.ok out), d') ∧ P out)
      (call sf b.device).2.jedec) :
    Progress mem on m n (∃ out, (b.access call).1 = some out ∧ P out)
        (b.access call).2.device.jedec ∧
      (b.access call).2.context = b.context ∧ (b.access call).2.appId = b.appId := by
  unfold Board.access
  rw [hsf]
  dsimp only
  generalize call sf b.device = r at h ⊢
  obtain ⟨r, d₁⟩ := r
  rcases h with ⟨hon, ⟨out, d', hr, hP⟩, hm⟩ | hoff
  · obtain rfl : r = some (.ok out) := congrArg Prod.fst hr
    exact ⟨.inl ⟨hon, ⟨out, rfl, hP⟩, hm⟩, rfl, rfl⟩
  · obtain _ | _ | out := r <;> exact ⟨.inr hoff, rfl, rfl⟩

/-- A flash `fls k` for each number of bytes that are done. -/
theorem Progress.board (h : Progress mem on m n ok b'.device.jedec ∧ b'.context = b.context ∧
      b'.appId = b.appId) (hsf : b.context.device = some sf) {fls : Nat → Flash}
    (hR : ∀ k ≤ n, Represents cfg (m k) (fls k)) (hfull : Represents cfg (m n) fl')
    (hout : ∀ k ≤ n, ∀ x, x < cfg.flashAreaAddr ∨ areaEnd cfg ≤ x → m k x = mem b.device.jedec x) :
    ok ∧ Powered sf cfg mem on b b' fl' ∨ ∃ k ≤ n, Unpowered cfg mem on b b' (fls k) := by
  obtain ⟨⟨hon, hok, hm⟩ | ⟨hoff, k, hk, hm⟩, hctx, happ⟩ := h
  · exact .inl ⟨hok, hon, hctx ▸ hsf, happ, hm.symm ▸ hfull, hm.symm ▸ hout n le_rfl⟩
  · exact .inr ⟨k, hk, hoff, hm.symm ▸ hR k hk, hm.symm ▸ hout k hk⟩

section
variable (ha : Area hw sf cfg b.appId) (hp : LosesPower hw.hal mem cfg.eraseVal on)
  (hsf : b.context.device = some sf) (hinit : sf.isInitialized = true)
include ha hp hsf hinit

theorem read_powered (hR : Represents cfg (mem b.device.jedec) fl) {blk off : Nat}
    (hb : blk < cfg.numBlocks) (hle : off + size ≤ cfg.blockSize) :
    (etssSecureflashRead hw cfg blk off size b).1 = some (fl.read cfg.eraseVal blk off size) ∧
        Powered sf cfg mem on b (etssSecureflashRead hw cfg blk off size b).2 fl ∨
      Unpowered cfg mem on b (etssSecureflashRead hw cfg blk off size b).2 fl := by
  have hin := ha.inArea hb hle
  have hread := hp.read_progress (d := b.device) hin.lt (ha.not_refused hinit hin fun h => by cases h)
  rw [← hin.fits.phys_eq (show off ≤ cfg.blockSize by omega)] at hread
  have hboard := b.access_progress (fun sf d => secureflashSecureRead hw.hal hw.spEtss sf
      (getPhysAddress cfg blk off) size b.appId d) hsf (hread.mono fun ⟨out, d', hr⟩ => by
    have hr' := hr
    rw [hin.fits.phys_eq (show off ≤ cfg.blockSize by omega)] at hr'
    exact ⟨out, d', hr, (hp.read_eq hin.lt hr').trans (hR.read hb hle)⟩)
  refine (Progress.board hboard hsf (fun _ _ => hR) hR fun _ _ _ _ => rfl).imp ?_
    fun ⟨_, _, hoff⟩ => hoff
  rintro ⟨⟨out, hout, rfl⟩, hpow⟩
  exact ⟨hout, hpow⟩

theorem write_powered (hR : Represents cfg (mem b.device.jedec) fl) {blk off : Nat}
    {data : List UInt8} (hb : blk < cfg.numBlocks) (hle : off + data.length ≤ cfg.blockSize) :
    (etssSecureflashWrite hw cfg blk off data b).1 = some [] ∧
        Powered sf cfg mem on b (etssSecureflashWrite hw cfg blk off data b).2 (fl.write blk off data) ∨
      ∃ k ≤ data.length, Unpowered cfg mem on b (etssSecureflashWrite hw cfg blk off data b).2
        (fl.write blk off (data.take k)) := by
  have hin := ha.inArea hb hle
  have hprog : Progress mem on _ _ (Succeeds (secureflashSecureProgram hw.hal hw.spEtss sf
      (fun k => data.getD k 0) _ data.length b.appId b.device)) _ :=
    hp.program_progress hin.lt (ha.not_refused hinit hin fun h => by cases h)
  have hboard := b.access_progress (P := fun _ => True) (fun sf d => secureflashSecureProgram hw.hal
      hw.spEtss sf (fun k => data.getD k 0) (cfg.flashAreaAddr + blk * cfg.blockSize + off) data.length
        b.appId d) hsf (hprog.mono fun ⟨out, d', hr⟩ => ⟨out, d', hr, trivial⟩)
  have hfull := hR.written blk hle le_rfl
  rw [List.take_length] at hfull
  have hpart := Progress.board hboard hsf (fun _ => hR.written blk hle) hfull fun k hk _ hx =>
    overwritten_outside _ _ hin.ge ((Nat.add_le_add_left hk _).trans hin.le) hx
  rw [← hin.fits.phys_eq (show off ≤ cfg.blockSize by omega)] at hpart
  refine hpart.imp_left ?_
  rintro ⟨⟨out, hout, -⟩, hpow⟩
  exact ⟨congrArg (Option.map fun _ => []) hout, hpow⟩

theorem erase_powered (hR : Represents cfg (mem b.device.jedec) fl) {blk : Nat}
    (hb : blk < cfg.numBlocks) (hon : on b.device.jedec) :
    (secureFlashFsOps hw cfg (.erase blk) b).1 = some [] ∧
        Powered sf cfg mem on b (secureFlashFsOps hw cfg (.erase blk) b).2 (fl.erase blk) ∨
      ∃ k ≤ cfg.blockSize, Unpowered cfg mem on b (secureFlashFsOps hw cfg (.erase blk) b).2
        (fl.eraseFirst blk k) := by
  have hin := ha.inArea hb (Nat.zero_add _).le
  have herase := hp.eraseSectors_progress ha hinit hb (m := fun k => overwritten (mem b.device.jedec)
      (cfg.flashAreaAddr + blk * cfg.blockSize) k fun _ => cfg.eraseVal)
    (fun i k => overwritten_append _ _ _ _ _ _ fun _ => rfl) hw.rounds (d := b.device)
    (Nat.dvd_zero _) (Nat.zero_le _) (by have := ha.rounds; omega) hon
    (overwritten_zero _ _ _).symm
  have hboard : Progress mem on (fun k => overwritten (mem b.device.jedec)
        (cfg.flashAreaAddr + blk * cfg.blockSize) k fun _ => cfg.eraseVal) cfg.blockSize
      (∃ out, (secureFlashFsOps hw cfg (.erase blk) b).1 = some out ∧ out = [])
        (secureFlashFsOps hw cfg (.erase blk) b).2.device.jedec ∧
      (secureFlashFsOps hw cfg (.erase blk) b).2.context = b.context ∧
        (secureFlashFsOps hw cfg (.erase blk) b).2.appId = b.appId := by
    refine b.access_progress _ hsf ?_
    unfold etssSecureflashErase
    generalize eraseSectors hw.hal hw.spEtss sf b.appId cfg hw.rounds blk hw.rounds 0 b.device = r
      at herase ⊢
    obtain ⟨r, d₁⟩ := r
    rcases herase with ⟨hon', ⟨d', hr⟩, hm⟩ | hoff
    · obtain rfl : r = some (.ok ()) := congrArg Prod.fst hr
      exact .inl ⟨hon', ⟨_, _, rfl, rfl⟩, hm⟩
    · obtain _ | _ | _ := r <;> exact .inr hoff
  have hfull : ∀ blk', ∀ off < cfg.blockSize, (fl.erase blk).cell blk' off =
      if blk' = blk ∧ off < cfg.blockSize then none else fl.cell blk' off := fun blk' off hlt =>
    (Flash.cell_erase _ _ _ _).trans (if_congr (iff_self_and.mpr fun _ => hlt) rfl rfl)
  refine (Progress.board hboard hsf (fun k hk => hR.erased hk fun _ _ _ =>
    Flash.cell_eraseFirst fl blk k _ _) (hR.erased le_rfl hfull) fun k hk _ hx =>
    overwritten_outside _ _ hin.ge ((Nat.add_le_add_left hk _).trans hin.le) hx).imp_left ?_
  rintro ⟨⟨out, hout, rfl⟩, hpow⟩
  exact ⟨hout, hpow⟩

/-- Each operation on a block is carried out, or cut. -/
theorem ops_powered (hon : on b.device.jedec) (hR : Represents cfg (mem b.device.jedec) fl)
    (h : BlockOp cfg o) :
    (secureFlashFsOps hw cfg o b).1 = some (fl.reply cfg.eraseVal o) ∧
        Powered sf cfg mem on b (secureFlashFsOps hw cfg o b).2 (fl.apply o) ∨
      ∃ fl', fl.Cut o fl' ∧ Unpowered cfg mem on b (secureFlashFsOps hw cfg o b).2 fl' := by
  obtain ⟨ho, hi⟩ := h
  cases o with
  | init => exact absurd rfl hi
  | read blk off size =>
    exact (read_powered ha hp hsf hinit hR ho.1 ho.2).imp_right fun hoff => ⟨fl, .unchanged _, hoff⟩
  | write blk off data =>
    exact (write_powered ha hp hsf hinit hR ho.1 ho.2).imp_right
      fun ⟨k, _, hoff⟩ => ⟨_, .write blk off data k, hoff⟩
  | flush blk => exact .inl ⟨rfl, hon, hsf, rfl, hR, fun _ _ => rfl⟩
  | erase blk =>
    exact (erase_powered ha hp hsf hinit hR ho hon).imp_right
      fun ⟨k, _, hoff⟩ => ⟨_, .erase blk k, hoff⟩

end
end

/-! ## Programs over the driver -/

/-- A device as it was provisioned is up. -/
theorem Chip.device_isInitialized {chip : Chip} (h : chip.device = some sf) :
    sf.isInitialized = true := by
  obtain ⟨_, _, rfl⟩ := Option.map_eq_some_iff.mp h
  rfl

/-- An init whose steps all succeed leaves the device as it was provisioned. -/
theorem secureflashInit_good {chip : Chip} {c : Context} (hchip : chip.device = some sf)
    (hc : c.isInitialized = true → c.device = some sf) :
    (secureflashInit chip .good c).1 = .ok () ∧
      (secureflashInit chip .good c).2.device = some sf := by
  obtain ⟨profile, hm, rfl⟩ := Option.map_eq_some_iff.mp hchip
  by_cases hup : c.isInitialized = true
  · have hdevice := hc hup
    unfold Context.device at hdevice
    rw [hup] at hdevice
    unfold secureflashInit
    rw [hup, if_neg Bool.true_eq_false.mp]
    dsimp only
    by_cases hcount : add32 c.initRefCount 1 ≠ 1
    · rw [if_pos hcount]
      exact ⟨rfl, hdevice⟩
    · rw [if_neg hcount, bringUp_good hm]
      exact ⟨rfl, rfl⟩
  · rw [secureflashInit_down (eq_false_of_ne_true hup), bringUp_good hm]
    exact ⟨rfl, rfl⟩

theorem Powered.trans {b'' : Board J} {fl'' : Flash} (h : Powered sf cfg mem on b b' fl')
    (h' : Powered sf cfg mem on b' b'' fl'') : Powered sf cfg mem on b b'' fl'' :=
  ⟨h'.on, h'.device, h'.appId.trans h.appId, h'.represents,
    fun x hx => (h'.outside x hx).trans (h.outside x hx)⟩

theorem Powered.unpowered {b'' : Board J} {fl'' : Flash} (h : Powered sf cfg mem on b b' fl')
    (h' : Unpowered cfg mem on b' b'' fl'') : Unpowered cfg mem on b b'' fl'' :=
  ⟨h'.off, h'.represents, fun x hx => (h'.outside x hx).trans (h.outside x hx)⟩

section
variable (ha : Area hw sf cfg b.appId) (hp : LosesPower hw.hal mem cfg.eraseVal on)
  (hinit : sf.isInitialized = true)
include ha hp hinit

/-- Programs on the blocks are carried out, until power is lost. -/
theorem ops_carriesUntilLost : (secureFlashFsOps hw cfg).CarriesUntilLost cfg.eraseVal (BlockOp cfg)
    (Powered sf cfg mem on b) (Unpowered cfg mem on b) where
  carries := fun o b' fl ho h => by
    have hop := ops_powered (b := b') (by rwa [h.appId]) hp h.device hinit h.on h.represents ho
    exact hop.imp (fun hop => ⟨hop.1, h.trans hop.2⟩)
      fun ⟨fl', hcut, hoff⟩ => ⟨fl', hcut, h.unpowered hoff⟩
  lost := fun _ _ _ h => h.op hp

/-- A program that starts the filesystem sets the device up as well. -/
theorem starts_carriesUntilLost (happ : b.appId = hw.spEtss) (hchip : hw.chip.device = some sf)
    (hans : hw.answers = .good) :
    (secureFlashFsOps hw cfg).CarriesUntilLost cfg.eraseVal (InBlock cfg) (Powered sf cfg mem on b)
      (Unpowered cfg mem on b) where
  carries := fun o b' fl ho h => by
    by_cases hi : o = .init
    · subst hi
      obtain ⟨hok, hdevice⟩ := secureflashInit_good (c := b'.context) hchip fun _ => h.device
      left
      unfold secureFlashFsOps etssSecureflashInit
      dsimp only
      rw [hans, hok]
      exact ⟨rfl, h.on, hdevice, happ.symm, h.represents, h.outside⟩
    · exact (ops_carriesUntilLost ha hp hinit).carries ⟨ho, hi⟩ h
  lost := fun _ _ _ h => h.op hp

end

/-- The id of the application is set by an init, which does not look at it. -/
theorem init_appId (id : Int) : secureFlashFsOps hw cfg .init { b with appId := id } =
    secureFlashFsOps hw cfg .init b := rfl

/-- The hardware with other answers to the steps of an init. -/
def Hardware.answering (hw : Hardware J) (a : InitAnswers) : Hardware J := { hw with answers := a }

theorem Area.answering (h : Area hw sf cfg appId) (a : InitAnswers) :
    Area (hw.answering a) sf cfg appId :=
  ⟨h.sector, h.unit, h.start, h.total, h.bound, h.rounds⟩

/-! ## A HAL that loses power -/

/-- A memory, and in how many calls its power is lost. -/
structure Supply where
  bytes : Nat → UInt8
  left : Option Nat

def Supply.On (s : Supply) : Prop := s.left ≠ some 0

instance (s : Supply) : Decidable s.On := inferInstanceAs (Decidable (s.left ≠ some 0))

/-- A call that returns `out` and leaves the bytes `done`, or `cut` when power is lost in it. -/
def Supply.call {α : Type} (s : Supply) (out no : α) (done cut : Nat → UInt8) : α × Supply :=
  match s.left with
  | none => (out, ⟨done, none⟩)
  | some 0 => (no, s)
  | some 1 => (no, ⟨cut, some 0⟩)
  | some (n + 2) => (out, ⟨done, some (n + 1)⟩)

/-- Half of the bytes of the call are done when power is lost. -/
def fadingHal : Jedec Supply where
  createSession _ s := s.call (some 0) none s.bytes s.bytes
  terminateSession _ s := s.call true false s.bytes s.bytes
  secureRead addr len _ s := s.call (some (bytesAt s.bytes addr len)) none s.bytes s.bytes
  secureProgram addr data _ s :=
    s.call true false (overwritten s.bytes addr data.length fun k => data.getD k 0)
      (overwritten s.bytes addr (data.length / 2) fun k => data.getD k 0)
  secureErase addr len _ s :=
    s.call true false (overwritten s.bytes addr len fun _ => 0xFF)
      (overwritten s.bytes addr (len / 2) fun _ => 0xFF)

section
variable {α : Type} {s : Supply} {out no : α} {done cut : Nat → UInt8}

theorem Supply.call_on (h : (s.call out no done cut).2.On) :
    (s.call out no done cut).1 = out ∧ (s.call out no done cut).2.bytes = done := by
  unfold call at h ⊢
  split at h
  · exact ⟨rfl, rfl⟩
  · next hs => exact absurd hs h
  · exact absurd rfl h
  · exact ⟨rfl, rfl⟩

theorem Supply.call_off (h : ¬ (s.call out no done cut).2.On) :
    (s.call out no done cut).1 = no ∧
      ((s.call out no done cut).2.bytes = s.bytes ∨ (s.call out no done cut).2.bytes = cut) := by
  unfold call at h ⊢
  split at h
  · exact absurd (fun hs : none = some 0 => by cases hs) h
  · exact ⟨rfl, .inl rfl⟩
  · exact ⟨rfl, .inr rfl⟩
  · exact absurd (fun hs => by cases hs) h

theorem Supply.call_keeps {bytes : Nat → UInt8} (h : ¬ s.On ∧ s.bytes = bytes) :
    ¬ (s.call out no done cut).2.On ∧ (s.call out no done cut).2.bytes = bytes := by
  obtain ⟨bytes, left⟩ := s
  obtain ⟨hoff, rfl⟩ := h
  obtain rfl : left = some 0 := not_not.mp hoff
  exact ⟨hoff, rfl⟩

theorem Supply.call_bytes (s : Supply) (out no : α) :
    (s.call out no s.bytes s.bytes).2.bytes = s.bytes := by
  unfold call
  split <;> rfl

end

theorem overwritten_range (m : Nat → UInt8) (addr : Nat) {k len : Nat} (hk : k ≤ len)
    (f : Nat → UInt8) : overwritten m addr k (fun i => ((List.range len).map f).getD i 0) =
      overwritten m addr k f := by
  funext x
  unfold overwritten
  split_ifs with hx
  · dsimp only
    rw [List.getD_eq_getElem?_getD, List.getElem?_map, List.getElem?_range (by omega)]
    rfl
  · rfl

theorem fadingHal_losesPower : LosesPower fadingHal Supply.bytes 0xFF Supply.On where
  create _ s := s.call_bytes _ _
  terminate _ s := s.call_bytes _ _
  read addr len session s bs h := by
    by_cases hon : (fadingHal.secureRead addr len session s).2.On
    · exact ⟨Option.some.inj (h.symm.trans (Supply.call_on hon).1), s.call_bytes _ _⟩
    · cases h.symm.trans (Supply.call_off hon).1
  program addr f len session s h := by
    by_cases hon : (fadingHal.secureProgram addr ((List.range len).map f) session s).2.On
    · refine (Supply.call_on hon).2.trans ?_
      rw [List.length_map, List.length_range]
      exact overwritten_range _ _ le_rfl f
    · cases h.symm.trans (Supply.call_off hon).1
  erase addr len session s h := by
    by_cases hon : (fadingHal.secureErase addr len session s).2.On
    · exact (Supply.call_on hon).2
    · cases h.symm.trans (Supply.call_off hon).1
  off bytes := ⟨fun _ _ => Supply.call_keeps, fun _ _ => Supply.call_keeps,
    fun _ _ _ _ => Supply.call_keeps, fun _ _ _ _ => Supply.call_keeps,
    fun _ _ _ _ => Supply.call_keeps⟩
  createOn _ _ h := congrArg Option.isSome (Supply.call_on h).1
  terminateOn _ _ h := (Supply.call_on h).1
  readOn _ _ _ _ h := congrArg Option.isSome (Supply.call_on h).1
  readMem _ _ _ s := s.call_bytes _ _
  programOn _ _ _ _ h := (Supply.call_on h).1
  programOff addr f len session s h := by
    rcases (Supply.call_off h).2 with hm | hm
    · exact ⟨0, Nat.zero_le _, hm.trans (overwritten_zero _ _ _).symm⟩
    · refine ⟨len / 2, Nat.div_le_self _ _, hm.trans ?_⟩
      rw [List.length_map, List.length_range]
      exact overwritten_range _ _ (Nat.div_le_self _ _) f
  eraseOn _ _ _ _ h := (Supply.call_on h).1
  eraseOff addr len session s h := by
    rcases (Supply.call_off h).2 with hm | hm
    · exact ⟨0, Nat.zero_le _, hm.trans (overwritten_zero _ _ _).symm⟩
    · exact ⟨len / 2, Nat.div_le_self _ _, hm⟩

/-- Without a number of calls, power is not lost. -/
theorem fadingHal_keeps : fadingHal.Keeps fun s => s.left = none := by
  have hcall : ∀ {α : Type} (out no : α) (done cut : Nat → UInt8) (s : Supply), s.left = none →
      (s.call out no done cut).2.left = none := by
    intro α out no done cut s h
    unfold Supply.call
    rw [h]
  exact ⟨fun _ _ => hcall _ _ _ _ _, fun _ _ => hcall _ _ _ _ _, fun _ _ _ _ => hcall _ _ _ _ _,
    fun _ _ _ _ => hcall _ _ _ _ _, fun _ _ _ _ => hcall _ _ _ _ _⟩

end SecureFlash
