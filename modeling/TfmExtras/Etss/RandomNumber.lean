import TfmExtras.Etss.Defs

/-! The random number service over a driver that answers. A size of a multiple of 256 is passed to
the driver as zero, so that a longer request comes to a round that takes no byte. -/

namespace Etss

/-- `secureflash_get_trng` over a state of the driver: it fails, or writes bytes to the buffer and
returns their number. -/
structure Trng (S : Type) where
  getTrng : (size : Nat) → S → Option (List UInt8) × S

variable {S : Type} {trng : Trng S} {rng : Bool} {trngMax n bufSize randomLen : Nat}

/-- A request for bytes is answered with one of them at least, and with no more than asked for. -/
def Trng.Answers (trng : Trng S) : Prop :=
  ∀ size s bs s', size < 256 → trng.getTrng size s = (some bs, s') →
    bs.length ≤ size ∧ (0 < size → 0 < bs.length)

/-- The driver, the sizes it was asked for and the bytes it wrote, and what the caller was
written. -/
structure Drawn (S : Type) where
  driver : S
  asked : List Nat
  produced : List UInt8
  written : List UInt8

variable {d : Drawn S}

/-- A call of the driver; the parameter for the size has eight bits. -/
def Drawn.ask (trng : Trng S) (bufSize : Nat) (d : Drawn S) : Option (List UInt8) × Drawn S :=
  let size := bufSize % 256
  let (r, driver) := trng.getTrng size d.driver
  (r, { d with driver, asked := d.asked ++ [size], produced := d.produced ++ r.getD [] })

/-- `etss_req_mngr_write` of the first `n` bytes of the local buffer, which begins with `bs`. -/
def Drawn.write (bs : List UInt8) (n : Nat) (d : Drawn S) : Drawn S :=
  { d with written := d.written ++ bs.take n }

namespace Trng

/-- The loop of `etss_generate_random_number`, for at most `n` rounds. -/
def randomLoop (trng : Trng S) : Nat → (bufSize randomLen : Nat) → Drawn S →
    Option (Except Status Nat) × Drawn S
  | _, 0, randomLen, d => (some (.ok randomLen), d)
  | 0, _ + 1, _, d => (none, d)
  | n + 1, bufSize + 1, randomLen, d =>
    match d.ask trng (bufSize + 1) with
    | (none, d) => (some (.error .storageFailure), d)
    | (some bs, d) =>
      let actualSize := min (bufSize + 1) bs.length
      randomLoop trng n (bufSize + 1 - actualSize) (randomLen + actualSize) (d.write bs actualSize)

/-- The call, for at most `n` rounds; it returns the length. -/
def etssGenerateRandomNumber (rng : Bool) (trng : Trng S) (n bufSize : Nat) (s : S) :
    Option (Except Status Nat) × Drawn S :=
  if rng then randomLoop trng n bufSize 0 ⟨s, [], [], []⟩
  else (some (.error .notSupported), ⟨s, [], [], []⟩)

/-- What is promised of a call, where the local buffer has `trngMax` bytes. -/
structure Serves (rng : Bool) (trng : Trng S) (trngMax bufSize : Nat) (s : S) : Prop where
  returns : ∃ n, (etssGenerateRandomNumber rng trng n bufSize s).1.isSome = true
  fits : ∀ n, ∀ size ∈ (etssGenerateRandomNumber rng trng n bufSize s).2.asked, size ≤ trngMax
  exact : ∀ n len, (etssGenerateRandomNumber rng trng n bufSize s).1 = some (.ok len) →
    len = bufSize ∧ (etssGenerateRandomNumber rng trng n bufSize s).2.written.length = bufSize ∧
      (etssGenerateRandomNumber rng trng n bufSize s).2.written =
        (etssGenerateRandomNumber rng trng n bufSize s).2.produced

/-! ## Short requests -/

/-- A round takes no more bytes than it asks for, and one at least if it asks for any. -/
theorem Answers.ask (h : trng.Answers) {bs : List UInt8} {d' : Drawn S}
    (ha : d.ask trng bufSize = (some bs, d')) :
    bs.length ≤ bufSize % 256 ∧ (0 < bufSize % 256 → 0 < bs.length) ∧
      d'.produced = d.produced ++ bs ∧ d'.written = d.written := by
  obtain ⟨hr, rfl⟩ := Prod.mk.inj ha
  have hg : trng.getTrng (bufSize % 256) d.driver =
      (some bs, (trng.getTrng (bufSize % 256) d.driver).2) := Prod.ext hr rfl
  obtain ⟨hle, hone⟩ := h _ _ _ _ (Nat.mod_lt bufSize (by decide)) hg
  refine ⟨hle, hone, ?_, rfl⟩
  show d.produced ++ (trng.getTrng (bufSize % 256) d.driver).1.getD [] = _
  rw [hg]
  rfl

/-- A call of the loop that is exact: at most `bufSize` bytes are asked for, and on success as many
are written, as the driver produces them. -/
structure Draws (bufSize randomLen : Nat) (d : Drawn S)
    (r : Option (Except Status Nat) × Drawn S) : Prop where
  asked : ∀ size ∈ r.2.asked, size ∈ d.asked ∨ size ≤ bufSize
  exact : ∀ len, r.1 = some (.ok len) → len = randomLen + bufSize ∧ ∃ bs, bs.length = bufSize ∧
    r.2.written = d.written ++ bs ∧ r.2.produced = d.produced ++ bs

theorem draws_done : Draws 0 randomLen d (some (.ok randomLen), d) := by
  refine ⟨fun _ hm => .inl hm, fun len hl => ?_⟩
  cases hl
  exact ⟨rfl, [], rfl, (List.append_nil _).symm, (List.append_nil _).symm⟩

/-- Nothing is promised of a call that fails or still runs, but the sizes. -/
theorem draws_failed {r : Option (Except Status Nat)} {d' : Drawn S} (hr : ∀ len, r ≠ some (.ok len))
    (ha : ∀ size ∈ d'.asked, size ∈ d.asked ∨ size ≤ bufSize) : Draws bufSize randomLen d (r, d') :=
  ⟨ha, fun len hl => absurd hl (hr len)⟩

/-- A round, and those after it. -/
theorem Draws.round {bs : List UInt8} {d₁ : Drawn S} {r : Option (Except Status Nat) × Drawn S}
    (hle : bs.length ≤ bufSize) (ha : d₁.asked = d.asked ++ [bufSize])
    (hp : d₁.produced = d.produced ++ bs) (hw : d₁.written = d.written)
    (h : Draws (bufSize - bs.length) (randomLen + bs.length) (d₁.write bs bs.length) r) :
    Draws bufSize randomLen d r := by
  refine ⟨fun size hm => ?_, fun len hl => ?_⟩
  · rcases h.asked size hm with hm | hm
    · have hm : size ∈ d₁.asked := hm
      rw [ha] at hm
      rcases List.mem_append.mp hm with hm | hm
      · exact .inl hm
      · exact .inr (Nat.le_of_eq (List.mem_singleton.mp hm))
    · exact .inr (by omega)
  · obtain ⟨hlen, rest, hrest, hwr, hpr⟩ := h.exact len hl
    have htake : (d₁.write bs bs.length).written = d.written ++ bs := by
      show d₁.written ++ bs.take bs.length = _
      rw [hw, List.take_length]
    have hprod : (d₁.write bs bs.length).produced = d.produced ++ bs := hp
    refine ⟨by omega, bs ++ rest, ?_, ?_, ?_⟩
    · rw [List.length_append]
      omega
    · rw [hwr, htake, List.append_assoc]
    · rw [hpr, hprod, List.append_assoc]

/-- Below 256, the size that the driver is asked for is the size that is left. -/
theorem randomLoop_draws (h : trng.Answers) (hb : bufSize < 256) :
    Draws bufSize randomLen d (randomLoop trng n bufSize randomLen d) := by
  induction n generalizing bufSize randomLen d with
  | zero =>
    cases bufSize with
    | zero => exact draws_done
    | succ bufSize => exact draws_failed (fun _ hl => nomatch hl) fun _ hm => .inl hm
  | succ n ih =>
    cases bufSize with
    | zero => exact draws_done
    | succ bufSize =>
      have hmod : (bufSize + 1) % 256 = bufSize + 1 := Nat.mod_eq_of_lt hb
      have hasked : (d.ask trng (bufSize + 1)).2.asked = d.asked ++ [bufSize + 1] := by
        conv_rhs => rw [← hmod]
        rfl
      unfold randomLoop
      cases hr : d.ask trng (bufSize + 1) with
      | mk r d₁ =>
        rw [hr] at hasked
        cases r with
        | none =>
          refine draws_failed (fun _ hl => nomatch hl) fun size hm => ?_
          rw [hasked] at hm
          rcases List.mem_append.mp hm with hm | hm
          · exact .inl hm
          · exact .inr (Nat.le_of_eq (List.mem_singleton.mp hm))
        | some bs =>
          obtain ⟨hle, _, hprod, hwr⟩ := h.ask hr
          have hmin : min (bufSize + 1) bs.length = bs.length := Nat.min_eq_right (by omega)
          dsimp only
          rw [hmin]
          exact .round (by omega) hasked hprod hwr (ih (by omega))

theorem randomLoop_returns (h : trng.Answers) (hb : bufSize < 256) (hn : bufSize ≤ n) :
    (randomLoop trng n bufSize randomLen d).1.isSome = true := by
  induction n generalizing bufSize randomLen d with
  | zero =>
    obtain rfl : bufSize = 0 := by omega
    rfl
  | succ n ih =>
    cases bufSize with
    | zero => rfl
    | succ bufSize =>
      unfold randomLoop
      cases hr : d.ask trng (bufSize + 1) with
      | mk r d₁ =>
        cases r with
        | none => rfl
        | some bs =>
          obtain ⟨hle, hone, _⟩ := h.ask hr
          have hpos := hone (by omega)
          exact ih (by omega) (by omega)

/-! ## Long requests -/

/-- From 256 bytes on, the rounds come down to a multiple of 256 and then take no byte: while the
driver does not fail, the loop does not end. -/
theorem randomLoop_never_returns (h : trng.Answers)
    (hok : ∀ size s, (trng.getTrng size s).1.isSome = true) (hb : 256 ≤ bufSize) :
    (randomLoop trng n bufSize randomLen d).1 = none := by
  induction n generalizing bufSize randomLen d with
  | zero =>
    cases bufSize with
    | zero => omega
    | succ bufSize => rfl
  | succ n ih =>
    cases bufSize with
    | zero => omega
    | succ bufSize =>
      have hsome : (d.ask trng (bufSize + 1)).1.isSome = true := hok _ _
      unfold randomLoop
      cases hr : d.ask trng (bufSize + 1) with
      | mk r d₁ =>
        rw [hr] at hsome
        cases r with
        | none => cases hsome
        | some bs =>
          have hle : bs.length ≤ (bufSize + 1) % 256 := (h.ask hr).1
          exact ih (by omega)

/-- The first size that is asked for. -/
theorem asked_first (trng : Trng S) (hpos : 0 < bufSize) (s : S) :
    bufSize % 256 ∈ (etssGenerateRandomNumber true trng 1 bufSize s).2.asked := by
  obtain ⟨b, rfl⟩ := Nat.exists_eq_succ_of_ne_zero hpos.ne'
  have hasked : (Drawn.ask trng (b + 1) ⟨s, [], [], []⟩).2.asked = [(b + 1) % 256] := rfl
  unfold etssGenerateRandomNumber
  rw [if_pos rfl]
  unfold randomLoop
  generalize Drawn.ask trng (b + 1) ⟨s, [], [], []⟩ = r at hasked ⊢
  have hm : (b + 1) % 256 ∈ r.2.asked := hasked ▸ List.mem_singleton_self _
  obtain ⟨_ | bs, d₁⟩ := r
  · exact hm
  · dsimp only
    cases b + 1 - min (b + 1) bs.length <;> exact hm

/-- A driver that writes as many bytes as it is asked for. -/
def zeros : Trng Unit := ⟨fun size s => (some (List.replicate size 0), s)⟩

theorem zeros_answers : zeros.Answers := by
  intro size s bs s' _ h
  obtain ⟨rfl, -⟩ : List.replicate size 0 = bs ∧ s = s' := by simpa [zeros] using h
  rw [List.length_replicate]
  exact ⟨le_rfl, id⟩

/-- Every driver that answers is used as promised exactly when the device has no generator, or the
request is shorter than 256 bytes and fits in the local buffer. -/
theorem etssGenerateRandomNumber_serves_iff (rng : Bool) (trngMax bufSize : Nat) :
    (∀ (S : Type) (trng : Trng S) s, trng.Answers → Serves rng trng trngMax bufSize s) ↔
      rng = false ∨ bufSize < 256 ∧ bufSize ≤ trngMax := by
  constructor
  · intro h
    cases rng with
    | false => exact .inl rfl
    | true =>
      have hs := h Unit zeros () zeros_answers
      have hb : bufSize < 256 := by
        by_contra hge
        obtain ⟨n, hn⟩ := hs.returns
        have hnever : (etssGenerateRandomNumber true zeros n bufSize ()).1 = none :=
          randomLoop_never_returns zeros_answers (fun _ _ => rfl) (not_lt.mp hge)
        rw [hnever] at hn
        cases hn
      rcases Nat.eq_zero_or_pos bufSize with rfl | hpos
      · exact .inr ⟨hb, Nat.zero_le _⟩
      · have hfit := hs.fits 1 _ (asked_first zeros hpos ())
        rw [Nat.mod_eq_of_lt hb] at hfit
        exact .inr ⟨hb, hfit⟩
  · rintro (rfl | ⟨hb, hmax⟩) S trng s ha
    · exact ⟨⟨0, rfl⟩, fun _ _ hm => absurd hm List.not_mem_nil, fun _ _ hl => nomatch hl⟩
    · cases rng with
      | false =>
        exact ⟨⟨0, rfl⟩, fun _ _ hm => absurd hm List.not_mem_nil, fun _ _ hl => nomatch hl⟩
      | true =>
        have hdraws : ∀ n, Draws bufSize 0 ⟨s, [], [], []⟩
            (etssGenerateRandomNumber true trng n bufSize s) := fun n => randomLoop_draws ha hb
        refine ⟨⟨bufSize, randomLoop_returns ha hb le_rfl⟩, fun n size hm => ?_, fun n len hl => ?_⟩
        · rcases (hdraws n).asked size hm with hm | hle
          · exact absurd hm List.not_mem_nil
          · exact hle.trans hmax
        · obtain ⟨hlen, bs, hbs, hwr, hpr⟩ := (hdraws n).exact len hl
          rw [hwr, hpr]
          exact ⟨hlen.trans (Nat.zero_add _), hbs, rfl⟩

/-- 256 bytes are asked for as none: the driver answers, and the call does not return. -/
theorem not_etssGenerateRandomNumber_serves : ¬ ∀ (S : Type) (trng : Trng S) rng trngMax bufSize s,
    trng.Answers → Serves rng trng trngMax bufSize s := by
  intro h
  obtain ⟨n, hn⟩ := (h Unit zeros true 32 256 () zeros_answers).returns
  have hnever : (etssGenerateRandomNumber true zeros n 256 ()).1 = none :=
    randomLoop_never_returns zeros_answers (fun _ _ => rfl) le_rfl
  rw [hnever] at hn
  cases hn

end Trng
end Etss
