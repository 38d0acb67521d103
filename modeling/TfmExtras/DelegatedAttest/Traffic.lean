import TfmExtras.DelegatedAttest.Service

/-! The traffic of the Delegated Attestation handlers, and which messages the partition answers. -/

namespace DelegatedAttest
open MeasuredBoot Bytes Ipc

variable {κ : Type} {p : Platform κ} {slots : MeasurementSlots} {msg : Msg} {s : State κ}

/-! ## Answers -/

theorem getDelegatedAttestationKey_quiet :
    Quiet (getDelegatedAttestationKey p slots msg s .start).2.2.events := by
  have h0 : Quiet (Io.start : Io PsaStatus).events := Quiet.nil
  have h1 := h0.read 0 eccFamilySize eccFamilySize
  have h2 := h1.read 1 keyBitsSize keyBitsSize
  have h3 := h2.read 2 algorithmSize algorithmSize
  unfold getDelegatedAttestationKey
  dsimp only
  split_ifs
  · exact h0
  · exact h1
  · exact h2
  · exact h3
  · exact h3
  · exact h3
  · exact h3
  · exact h3.write _ _
  · exact h3

theorem getPlatformAttestationToken_quiet :
    Quiet (getPlatformAttestationToken p msg s .start).2.2.events := by
  have h0 : Quiet (Io.start : Io PsaStatus).events := Quiet.nil
  have h1 := h0.read 0 sha512Length (msg.inSize 0)
  unfold getPlatformAttestationToken
  dsimp only
  split_ifs
  · exact h1
  · exact h1
  · exact h1.write _ _
  · exact h1

/-- The types that the partition has services for. -/
def ServiceType (type : Int) : Prop :=
  type = delegatedAttestGetDelegatedKeyType ∨ type = delegatedAttestGetPlatformTokenType

theorem delegatedAttestationRound_answered_iff (i : Pending Signal × MeasurementSlots)
    (s : State κ) :
    Answered (delegatedAttestationRound p i s).1 ↔
      ∃ msg, i.1.msg .delegatedAttestation = some msg ∧ ServiceType msg.type := by
  obtain ⟨sig, hany⟩ := i.1.any
  obtain ⟨msg, hm⟩ := Option.isSome_iff_exists.mp hany
  cases sig
  unfold delegatedAttestationRound delegatedAttestationSignalHandle ServiceType
  rw [hm]
  dsimp only
  rw [if_pos (by rfl)]
  split_ifs with h1 h2
  · exact iff_of_true (getDelegatedAttestationKey_quiet.answered _ _) ⟨msg, rfl, .inl h1⟩
  · exact iff_of_true (getPlatformAttestationToken_quiet.answered _ _) ⟨msg, rfl, .inr h2⟩
  · refine iff_of_false (not_answered_of_stops (e := .panic) (by simp) rfl) ?_
    rintro ⟨msg', he, h⟩
    obtain rfl := Option.some_inj.mp he
    exact h.elim h1 h2

/-! ## Buffers -/

/-- The services write no more than the size of the buffer they are given. -/
structure Platform.KeepsSizes (p : Platform κ) : Prop where
  exportKey : ∀ st id n, (p.services (.exportKey id n) st).1.data.length ≤ n
  initialAttestGetToken : ∀ st h n,
    (p.services (.initialAttestGetToken h n) st).1.data.length ≤ n

theorem exportDelegatedAttestationKey_length (hp : p.KeepsSizes) (n : Nat) (s : State κ) :
    (exportDelegatedAttestationKey p n s).2.1.length ≤ n := by
  unfold exportDelegatedAttestationKey
  dsimp only
  split_ifs
  · exact Nat.zero_le _
  · exact hp.exportKey _ _ _

theorem deriveDelegatedAttestationKey_length (hp : p.KeepsSizes) (c b : Nat) (salt : List UInt8)
    (n : Nat) (s : State κ) :
    (deriveDelegatedAttestationKey p c b salt n s).2.1.length ≤ n := by
  unfold deriveDelegatedAttestationKey outputDelegatedAttestationKey
  dsimp only
  split_ifs <;> first
    | exact Nat.zero_le _
    | exact exportDelegatedAttestationKey_length hp _ _

theorem delegatedAttestGetDelegatedKey_length (hp : p.KeepsSizes) (c b n a : Nat) (s : State κ) :
    (delegatedAttestGetDelegatedKey p slots c b n a s).2.1.length ≤ n := by
  unfold delegatedAttestGetDelegatedKey
  dsimp only
  split_ifs
  · exact Nat.zero_le _
  · split
    · exact Nat.zero_le _
    · split_ifs <;> exact deriveDelegatedAttestationKey_length hp _ _ _ _ _

theorem delegatedAttestGetPlatformToken_length (hp : p.KeepsSizes) (h : List UInt8) (n : Nat)
    (s : State κ) : (delegatedAttestGetPlatformToken p h n s).2.1.length ≤ n := by
  unfold delegatedAttestGetPlatformToken
  dsimp only
  split_ifs
  · exact Nat.zero_le _
  · exact Nat.zero_le _
  · exact Nat.zero_le _
  · exact hp.initialAttestGetToken _ _ _

theorem getDelegatedAttestationKey_within (hp : p.KeepsSizes) :
    ∃ room, Within msg room (getDelegatedAttestationKey p slots msg s .start).2.2 := by
  have h0 := within_start (ρ := PsaStatus) msg
  have h1 := h0.psaRead (le_refl eccFamilySize) 0
  have h2 := h1.psaRead (le_refl keyBitsSize) 1
  have h3 := h2.psaRead (le_refl algorithmSize) 2
  unfold getDelegatedAttestationKey
  dsimp only
  split_ifs
  · exact ⟨_, h0⟩
  · exact ⟨_, h1⟩
  · exact ⟨_, h2⟩
  · exact ⟨_, h3⟩
  · exact ⟨_, h3⟩
  · exact ⟨_, h3⟩
  · exact ⟨_, h3⟩
  · exact ⟨_, h3.psaWrite ((delegatedAttestGetDelegatedKey_length hp _ _ _ _ _).trans
      (Nat.min_le_left _ _))⟩
  · exact ⟨_, h3⟩

theorem getPlatformAttestationToken_within (hp : p.KeepsSizes) (hs : msg.inSize 0 ≤ sha512Length) :
    ∃ room, Within msg room (getPlatformAttestationToken p msg s .start).2.2 := by
  have h0 := within_start (ρ := PsaStatus) msg
  have h1 := h0.psaRead hs 0
  unfold getPlatformAttestationToken
  dsimp only
  split_ifs
  · exact ⟨_, h1⟩
  · exact ⟨_, h1⟩
  · exact ⟨_, h1.psaWrite ((delegatedAttestGetPlatformToken_length hp _ _ _).trans
      (Nat.min_le_left _ _))⟩
  · exact ⟨_, h1⟩

/-- The hash is read whatever its size. -/
theorem read_mem_getPlatformAttestationToken :
    .read 0 sha512Length (msg.inSize 0) ∈
      (getPlatformAttestationToken p msg s .start).2.2.events := by
  unfold getPlatformAttestationToken
  dsimp only
  split_ifs <;> simp [Io.psaRead, Io.psaWrite, Io.add]

/-- A request for a token whose hash is longer than any supported one. -/
def HashTooLong (msg : Msg) : Prop :=
  msg.type = delegatedAttestGetPlatformTokenType ∧ sha512Length < msg.inSize 0

theorem delegatedAttestationSignalHandle_fits_iff (hp : p.KeepsSizes) (msg : Msg)
    (s : State κ) :
    Fits msg (delegatedAttestationSignalHandle p slots (some msg) s).1 ↔ ¬ HashTooLong msg := by
  have hne : delegatedAttestGetPlatformTokenType ≠ delegatedAttestGetDelegatedKeyType := by decide
  unfold delegatedAttestationSignalHandle HashTooLong
  dsimp only
  split_ifs with h1 h2
  · obtain ⟨room, h⟩ := getDelegatedAttestationKey_within (s := s) hp
    exact iff_of_true (h.fits _ _) fun hn => hne (hn.1.symm.trans h1)
  · by_cases hs : msg.inSize 0 ≤ sha512Length
    · obtain ⟨room, h⟩ := getPlatformAttestationToken_within (s := s) hp hs
      exact iff_of_true (h.fits _ _) fun hn => absurd hn.2 (Nat.not_lt_of_le hs)
    · refine iff_of_false (fun hf => hs (hf.reads 0 sha512Length (msg.inSize 0) ?_))
        (not_not_intro ⟨h2, Nat.lt_of_not_le hs⟩)
      exact List.mem_cons_of_mem _
        (List.mem_append_left _ read_mem_getPlatformAttestationToken)
  · exact iff_of_true ⟨fun _ _ _ h => absurd h (by simp), fun _ => Nat.zero_le _⟩
      fun hn => h2 hn.1

end DelegatedAttest
