import TfmExtras.Lib.FlashM

/-! Flash operations that report errors. A call is run under a pattern of failing operations; a
call that gives up at the first of them leaves what it had when it issued that operation. -/

namespace NorFlash

/-- The flash after an operation that reports an error: a write has programmed `n` bytes, and an
erase has erased its block or, if `n` is zero, left it as it was. -/
def Flash.failed (fl : Flash) (n : Nat) : Op → Flash
  | .erase b => if n = 0 then fl else fl.erase b
  | o => fl.torn n o

/-- The operations that fail, by number, each with how much of it was done. -/
abbrev Faults := Nat → Option Nat

namespace Faults

/-- The pattern that is left after `n` operations. -/
def drop (F : Faults) (n : Nat) : Faults := fun i => F (n + i)

/-- Operation `i` is the first one that fails. -/
def FirstAt (F : Faults) (i : Nat) : Prop := (F i).isSome ∧ ∀ j < i, F j = none

/-- None of the first `n` operations fails. -/
def CleanFor (F : Faults) (n : Nat) : Prop := ∀ j < n, F j = none

instance (F : Faults) (n : Nat) : Decidable (F.CleanFor n) :=
  inferInstanceAs (Decidable (∀ j < n, F j = none))

variable {F : Faults} {i j m n : Nat}

theorem cleanFor_or_firstAt (F : Faults) (n : Nat) : F.CleanFor n ∨ ∃ i < n, F.FirstAt i := by
  induction n with
  | zero => exact .inl fun j hj => absurd hj (Nat.not_lt_zero j)
  | succ n ih =>
    rcases ih with hc | ⟨i, hi, hF⟩
    · cases hn : F n with
      | none =>
        refine .inl fun j hj => ?_
        rcases Nat.lt_succ_iff_lt_or_eq.mp hj with hj | rfl
        · exact hc j hj
        · exact hn
      | some k => exact .inr ⟨n, Nat.lt_succ_self n, by rw [hn]; rfl, hc⟩
    · exact .inr ⟨i, Nat.lt_succ_of_lt hi, hF⟩

theorem FirstAt.eq (h : F.FirstAt i) (h' : F.FirstAt j) : i = j := by
  rcases Nat.lt_trichotomy i j with hlt | he | hlt
  · exact absurd h.1 (by rw [h'.2 i hlt]; exact Bool.false_ne_true)
  · exact he
  · exact absurd h'.1 (by rw [h.2 j hlt]; exact Bool.false_ne_true)

theorem FirstAt.cleanFor (h : F.FirstAt i) (hn : n ≤ i) : F.CleanFor n :=
  fun j hj => h.2 j (lt_of_lt_of_le hj hn)

theorem CleanFor.not_firstAt (h : F.CleanFor n) (hi : i < n) : ¬ F.FirstAt i :=
  fun hF => absurd hF.1 (by rw [h i hi]; exact Bool.false_ne_true)

theorem CleanFor.mono (h : F.CleanFor n) (hm : m ≤ n) : F.CleanFor m :=
  fun j hj => h j (lt_of_lt_of_le hj hm)

theorem drop_drop (F : Faults) (m n : Nat) : (F.drop m).drop n = F.drop (m + n) :=
  funext fun i => congrArg F (Nat.add_assoc m n i).symm

theorem FirstAt.drop (h : F.FirstAt i) (hm : m ≤ i) : (F.drop m).FirstAt (i - m) := by
  refine ⟨?_, fun j hj => h.2 (m + j) (by omega)⟩
  show (F (m + (i - m))).isSome
  rw [Nat.add_sub_cancel' hm]
  exact h.1

theorem CleanFor.drop (h : F.CleanFor (m + n)) : (F.drop m).CleanFor n :=
  fun j hj => h (m + j) (by omega)

/-- Past operations that do not fail, the first one that fails is counted from there. -/
theorem CleanFor.firstAt_drop (h : F.CleanFor m) : (F.drop m).FirstAt i ↔ F.FirstAt (m + i) := by
  refine and_congr Iff.rfl ⟨fun hj j hlt => ?_, fun hj j hlt => hj (m + j) (by omega)⟩
  by_cases hm : j < m
  · exact h j hm
  · have hd := hj (j - m) (by omega)
    unfold Faults.drop at hd
    rwa [Nat.add_sub_cancel' (Nat.not_lt.mp hm)] at hd

end Faults

namespace Prog
variable {α β : Type} {ev : UInt8} {F : Faults} {L L' R R' : α → Prop} {p : Prog α} {fl : Flash}
  {i n : Nat}

/-- The run in which the operations of the pattern fail. -/
def runFaulty (ev : UInt8) : Faults → Prog α → Flash → α × Flash
  | _, .pure a, fl => (a, fl)
  | F, .op o k, fl =>
    match F 0 with
    | none => (k (some (fl.reply ev o))).runFaulty ev (F.drop 1) (fl.apply o)
    | some n => (k none).runFaulty ev (F.drop 1) (fl.failed n o)

theorem runFaulty_op_none {o : Op} {k : Option (List UInt8) → Prog α} (h : F 0 = none) :
    (Prog.op o k).runFaulty ev F fl =
      (k (some (fl.reply ev o))).runFaulty ev (F.drop 1) (fl.apply o) := by
  rw [runFaulty, h]

theorem runFaulty_op_some {o : Op} {k : Option (List UInt8) → Prog α} (h : F 0 = some n) :
    (Prog.op o k).runFaulty ev F fl = (k none).runFaulty ev (F.drop 1) (fl.failed n o) := by
  rw [runFaulty, h]

/-- The pattern that is left for the next run. -/
def faultsLeft (ev : UInt8) : Faults → Prog α → Flash → Faults
  | F, .pure _, _ => F
  | F, .op o k, fl =>
    match F 0 with
    | none => (k (some (fl.reply ev o))).faultsLeft ev (F.drop 1) (fl.apply o)
    | some n => (k none).faultsLeft ev (F.drop 1) (fl.failed n o)

/-- The second part of a run goes on with what the first part leaves of the pattern. -/
theorem runFaulty_bind {f : α → Prog β} (p : Prog α) (F : Faults) (fl : Flash) :
    (p.bind f).runFaulty ev F fl = (f (p.runFaulty ev F fl).1).runFaulty ev
      (p.faultsLeft ev F fl) (p.runFaulty ev F fl).2 := by
  induction p generalizing F fl with
  | pure a => rfl
  | op o k ih =>
    cases hF : F 0 with
    | none =>
      rw [bind, runFaulty_op_none hF, runFaulty_op_none hF, faultsLeft, hF]
      exact ih _ _ _
    | some n =>
      rw [bind, runFaulty_op_some hF, runFaulty_op_some hF, faultsLeft, hF]
      exact ih _ _ _

theorem faultsLeft_bind {f : α → Prog β} (p : Prog α) (F : Faults) (fl : Flash) :
    (p.bind f).faultsLeft ev F fl = (f (p.runFaulty ev F fl).1).faultsLeft ev
      (p.faultsLeft ev F fl) (p.runFaulty ev F fl).2 := by
  induction p generalizing F fl with
  | pure a => rfl
  | op o k ih =>
    cases hF : F 0 with
    | none =>
      rw [bind, runFaulty_op_none hF, faultsLeft, faultsLeft, hF]
      exact ih _ _ _
    | some n =>
      rw [bind, runFaulty_op_some hF, faultsLeft, faultsLeft, hF]
      exact ih _ _ _

/-- A run without failing operations is an ordinary run. -/
theorem runFaulty_of_clean (p : Prog α) {F : Faults} {fl : Flash}
    (h : F.CleanFor (p.trace ev fl).length) : p.runFaulty ev F fl = p.run ev fl ∧
      p.faultsLeft ev F fl = F.drop (p.trace ev fl).length := by
  induction p generalizing fl F with
  | pure a => exact ⟨rfl, funext fun i => congrArg F (Nat.zero_add i).symm⟩
  | op o k ih =>
    have hlen : ((Prog.op o k).trace ev fl).length =
        1 + ((k (some (fl.reply ev o))).trace ev (fl.apply o)).length := Nat.add_comm _ _
    rw [hlen] at h ⊢
    obtain ⟨hr, hl⟩ := ih (some (fl.reply ev o)) h.drop
    have h0 := h 0 (by omega)
    rw [runFaulty_op_none h0, hr, faultsLeft, h0]
    dsimp only
    rw [hl, Faults.drop_drop]
    exact ⟨rfl, rfl⟩

/-- A part of the run without failing operations is an ordinary run. -/
theorem runFaulty_bind_of_clean {f : α → Prog β} (p : Prog α) {F : Faults} {fl : Flash}
    (h : F.CleanFor (p.trace ev fl).length) :
    (p.bind f).runFaulty ev F fl = (f (p.run ev fl).1).runFaulty ev
      (F.drop (p.trace ev fl).length) (p.run ev fl).2 := by
  obtain ⟨hr, hl⟩ := p.runFaulty_of_clean h
  rw [runFaulty_bind, hr, hl]

/-- Whatever the device replies, the program only reads, and ends in `L`. -/
inductive Settles (L : α → Prop) : Prog α → Prop
  | pure {a : α} (h : L a) : Settles L (.pure a)
  | read {b o n : Nat} {k : Option (List UInt8) → Prog α} (h : ∀ r, Settles L (k r)) :
    Settles L (.op (.read b o n) k)

/-- Whatever the device replies, the program settles in `L` once an operation fails, and ends in
`R` otherwise. -/
inductive Stops (L R : α → Prop) : Prog α → Prop
  | pure {a : α} (h : R a) : Stops L R (.pure a)
  | op {o : Op} {k : Option (List UInt8) → Prog α} (fails : Settles L (k none))
    (goes : ∀ bs, Stops L R (k (some bs))) : Stops L R (.op o k)

theorem Settles.mono (h : p.Settles L) (hL : ∀ a, L a → L' a) : p.Settles L' := by
  induction h with
  | pure h => exact .pure (hL _ h)
  | read _ ih => exact .read ih

theorem Settles.bind {f : α → Prog β} {L' : β → Prop} (h : p.Settles L)
    (hf : ∀ a, L a → (f a).Settles L') : (p.bind f).Settles L' := by
  induction h with
  | pure h => exact hf _ h
  | read _ ih => exact .read ih

/-- A program that settles leaves the flash as it is. -/
theorem Settles.runFaulty (h : p.Settles L) (ev : UInt8) (F : Faults) (fl : Flash) :
    L (p.runFaulty ev F fl).1 ∧ (p.runFaulty ev F fl).2 = fl := by
  induction h generalizing F fl with
  | pure h => exact ⟨h, rfl⟩
  | @read b o n k _ ih =>
    cases hF : F 0 with
    | none =>
      rw [runFaulty_op_none hF]
      exact ih _ _ fl
    | some m =>
      rw [runFaulty_op_some hF]
      exact ih _ _ fl

theorem Stops.mono (h : p.Stops L R) (hL : ∀ a, L a → L' a) (hR : ∀ a, R a → R' a) :
    p.Stops L' R' := by
  induction h with
  | pure h => exact .pure (hR _ h)
  | op fails _ ih => exact .op (fails.mono hL) ih

theorem Stops.run (h : p.Stops L R) (ev : UInt8) (fl : Flash) : R (p.run ev fl).1 := by
  induction h generalizing fl with
  | pure h => exact h
  | op _ _ ih => exact ih _ _

theorem Stops.bind {f : α → Prog β} {L' R' : β → Prop} (h : p.Stops L R)
    (hL : ∀ a, L a → (f a).Settles L') (hR : ∀ a, R a → (f a).Stops L' R') :
    (p.bind f).Stops L' R' := by
  induction h with
  | pure h => exact hR _ h
  | op fails _ ih => exact .op (fails.bind hL) ih

/-- When an operation of the first part fails, the run settles on the flash of that operation. -/
theorem Stops.runFaulty_bind {f : α → Prog β} {L' : β → Prop} (h : p.Stops L R)
    (hL : ∀ a, L a → (f a).Settles L') (hF : F.FirstAt i)
    (hi : i < (p.trace ev fl).length) :
    L' ((p.bind f).runFaulty ev F fl).1 ∧ ∃ x ∈ p.trace ev fl, ∃ n, F i = some n ∧
      ((p.bind f).runFaulty ev F fl).2 = x.1.failed n x.2 := by
  induction h generalizing F fl i with
  | pure _ => exact absurd hi (Nat.not_lt_zero i)
  | @op o k fails _ ih =>
    cases hn : F 0 with
    | some n =>
      obtain ⟨hl, hf⟩ := (fails.bind hL).runFaulty ev (F.drop 1) (fl.failed n o)
      have h0 : i = 0 := by
        by_contra h0
        have hnone := hF.2 0 (Nat.pos_of_ne_zero h0)
        rw [hn] at hnone
        cases hnone
      rw [Prog.bind, runFaulty_op_some hn]
      exact ⟨hl, (fl, o), List.mem_cons_self .., n, h0 ▸ hn, hf⟩
    | none =>
      have h0 : i ≠ 0 := fun he => absurd hF.1 (by rw [he, hn]; exact Bool.false_ne_true)
      have hF' : (F.drop 1).FirstAt (i - 1) := hF.drop (by omega)
      have hlt : i < ((k (some (fl.reply ev o))).trace ev (fl.apply o)).length + 1 := hi
      have hlt' : i - 1 < ((k (some (fl.reply ev o))).trace ev (fl.apply o)).length := by omega
      obtain ⟨hl, x, hx, m, hm, hc⟩ := ih (fl.reply ev o) hF' hlt'
      have hFi : F i = F.drop 1 (i - 1) := congrArg F (by omega)
      rw [Prog.bind, runFaulty_op_none hn]
      exact ⟨hl, x, List.mem_cons_of_mem _ hx, m, hFi.trans hm, hc⟩

theorem crashAt_failed (o : Op) (k : Option (List UInt8) → Prog α) (fl : Flash) (n : Nat) :
    CrashAt ev (.op o k) fl (fl.failed n o) := by
  cases o with
  | erase b =>
    show CrashAt ev _ fl (if n = 0 then fl else fl.erase b)
    split_ifs
    · exact .here _ fl
    · exact .step (.here _ _)
  | _ => exact .torn _ k fl n

/-- The end of a run is a point at which power can be lost. -/
theorem crashAt_run (p : Prog α) (fl : Flash) : CrashAt ev p fl (p.run ev fl).2 := by
  induction p generalizing fl with
  | pure a => exact .here _ fl
  | op o k ih => exact .step (ih _ _)

/-- A run that stops at the first failing operation leaves the flash as a loss of power can. -/
theorem Stops.runFaulty_cases (h : p.Stops L R) (F : Faults) (fl : Flash) :
    p.runFaulty ev F fl = p.run ev fl ∨
      L (p.runFaulty ev F fl).1 ∧ CrashAt ev p fl (p.runFaulty ev F fl).2 := by
  induction h generalizing F fl with
  | pure _ => exact .inl rfl
  | @op o k fails _ ih =>
    cases hn : F 0 with
    | none =>
      rw [runFaulty_op_none hn]
      exact (ih _ _ _).imp id fun ⟨hl, hc⟩ => ⟨hl, .step hc⟩
    | some n =>
      obtain ⟨hl, hf⟩ := fails.runFaulty ev (F.drop 1) (fl.failed n o)
      rw [runFaulty_op_some hn]
      refine .inr ⟨hl, ?_⟩
      rw [hf]
      exact crashAt_failed o k fl n

end Prog

namespace FlashM
variable {σ ε α β : Type} {ev : UInt8} {F : Faults} {c c₀ : σ} {fl : Flash} {e : ε} {i : Nat}
variable {m : FlashM σ ε α} {f : α → FlashM σ ε β}

/-- What a call leaves when the operations of the pattern fail. -/
def runFaulty (ev : UInt8) (F : Faults) (m : FlashM σ ε α) (c : σ) (fl : Flash) :
    Outcome σ ε α :=
  ⟨((m c).runFaulty ev F fl).1.1, ((m c).runFaulty ev F fl).1.2, ((m c).runFaulty ev F fl).2⟩

/-- The pattern that is left for the next call. -/
def faultsLeft (ev : UInt8) (F : Faults) (m : FlashM σ ε α) (c : σ) (fl : Flash) : Faults :=
  (m c).faultsLeft ev F fl

/-! ## Calls that only read -/

/-- Whatever the device replies, the call only reads, and keeps the context. -/
def Reads (m : FlashM σ ε α) (c : σ) : Prop := (m c).Settles fun r => r.2 = c

/-- Whatever fails, such a call changes nothing. -/
theorem Reads.runFaulty_eq (h : m.Reads c) (ev : UInt8) (F : Faults) (fl : Flash) :
    (m.runFaulty ev F c fl).ctx = c ∧ (m.runFaulty ev F c fl).flash = fl :=
  Prog.Settles.runFaulty h ev F fl

theorem reads_pure (a : α) (c : σ) : (pure a : FlashM σ ε α).Reads c := .pure rfl

theorem reads_fail (e : ε) (c : σ) : (fail e : FlashM σ ε α).Reads c := .pure rfl

theorem reads_get (c : σ) : (get : FlashM σ ε σ).Reads c := .pure rfl

theorem reads_ofExcept (r : Except ε α) (c : σ) : (ofExcept r : FlashM σ ε α).Reads c := .pure rfl

theorem reads_failIf (p : Prop) [Decidable p] (e : ε) (c : σ) :
    (failIf p e : FlashM σ ε Unit).Reads c := by
  unfold failIf
  split_ifs
  · exact .pure rfl
  · exact .pure rfl

theorem reads_issue (b o n : Nat) (e : ε) (c : σ) :
    (issue (.read b o n) e : FlashM σ ε _).Reads c := by
  refine .read fun r => ?_
  cases r <;> exact .pure rfl

theorem Reads.bind (h : m.Reads c) (hf : ∀ a, (f a).Reads c) : (m >>= f).Reads c := by
  refine Prog.Settles.bind h ?_
  rintro ⟨r, c'⟩ hc
  obtain rfl : c' = c := hc
  cases r with
  | ok a => exact hf a
  | error e => exact .pure rfl

theorem Reads.attempt (h : m.Reads c) : m.attempt.Reads c :=
  Prog.Settles.bind h fun _ hc => .pure hc

theorem Reads.failAs (h : m.Reads c) : (m.failAs e).Reads c := by
  refine Prog.Settles.bind h ?_
  rintro ⟨r, c'⟩ hc
  cases r <;> exact .pure hc

/-! ## Calls that give up at the first error -/

/-- Whatever the device replies, an operation that fails makes the call return an error in `E`
and a context in `S`, and otherwise the context it leaves is in `R`. -/
def GivesUp (m : FlashM σ ε α) (c : σ) (E : ε → Prop) (S R : σ → Prop) : Prop :=
  (m c).Stops (fun r => (∃ e, r.1 = .error e ∧ E e) ∧ S r.2) fun r => R r.2

variable {E E' : ε → Prop} {S S' R R' : σ → Prop}

theorem GivesUp.mono (h : m.GivesUp c E S R) (hE : ∀ e, E e → E' e) (hS : ∀ c, S c → S' c)
    (hR : ∀ c, R c → R' c) : m.GivesUp c E' S' R' :=
  Prog.Stops.mono h (fun _ ⟨⟨e, hr, he⟩, hc⟩ => ⟨⟨e, hr, hE e he⟩, hS _ hc⟩) fun _ => hR _

theorem givesUp_pure {a : α} (h : R c) : (pure a : FlashM σ ε α).GivesUp c E S R := .pure h

theorem givesUp_fail (e : ε) (h : R c) : (fail e : FlashM σ ε α).GivesUp c E S R := .pure h

theorem givesUp_get (h : R c) : (get : FlashM σ ε σ).GivesUp c E S R := .pure h

theorem givesUp_ofExcept (r : Except ε α) (h : R c) :
    (ofExcept r : FlashM σ ε α).GivesUp c E S R := .pure h

theorem givesUp_failIf (p : Prop) [Decidable p] (e : ε) (h : R c) :
    (failIf p e : FlashM σ ε Unit).GivesUp c E S R := by
  unfold failIf
  split_ifs <;> exact .pure h

theorem givesUp_issue (o : Op) {e : ε} (he : E e) (hS : S c) (hR : R c) :
    (issue o e : FlashM σ ε _).GivesUp c E S R :=
  .op (.pure ⟨⟨e, rfl, he⟩, hS⟩) fun _ => .pure hR

theorem GivesUp.bind (h : m.GivesUp c E S R') (hR : ∀ c, R' c → R c)
    (hf : ∀ a c', R' c' → (f a).GivesUp c' E S R) : (m >>= f).GivesUp c E S R := by
  refine Prog.Stops.bind h ?_ ?_
  · rintro ⟨r, c'⟩ ⟨⟨e, hr, he⟩, hc⟩
    obtain rfl : r = .error e := hr
    exact .pure ⟨⟨e, rfl, he⟩, hc⟩
  · rintro ⟨r, c'⟩ hc
    cases r with
    | ok a => exact hf a c' hc
    | error e => exact .pure (hR c' hc)

theorem get_bind_givesUp {k : σ → FlashM σ ε β} (h : (k c).GivesUp c E S R) :
    (get >>= k).GivesUp c E S R := h

theorem modify_bind_givesUp {g : σ → σ} {c' : σ} {k : Unit → FlashM σ ε β} (hg : g c = c')
    (h : (k ()).GivesUp c' E S R) : (modify g >>= k).GivesUp c E S R := by
  subst hg
  exact h

/-- Any error of the call is reported as `e`. -/
theorem GivesUp.failAs (h : m.GivesUp c E S R) (he : E' e) : (m.failAs e).GivesUp c E' S R := by
  refine Prog.Stops.bind h ?_ ?_
  · rintro ⟨r, c'⟩ ⟨⟨e', hr, _⟩, hc⟩
    obtain rfl : r = .error e' := hr
    exact .pure ⟨⟨e, rfl, he⟩, hc⟩
  · rintro ⟨r, c'⟩ hc
    cases r <;> exact .pure hc

/-- A caller that handles the error of a part is handed it. -/
theorem GivesUp.attempt_stops (h : m.GivesUp c E S R) : Prog.Stops
    (fun r => (∃ e, r.1 = .ok (.error e) ∧ E e) ∧ S r.2) (fun r => (∃ x, r.1 = .ok x) ∧ R r.2)
    (m.attempt c) := by
  refine Prog.Stops.bind h ?_ ?_
  · rintro ⟨r, c'⟩ ⟨⟨e, hr, he⟩, hc⟩
    obtain rfl : r = .error e := hr
    exact .pure ⟨⟨e, rfl, he⟩, hc⟩
  · rintro ⟨r, c'⟩ hc
    exact .pure ⟨⟨r, rfl⟩, hc⟩

/-- Such a caller gives up after reads at most. -/
theorem GivesUp.attempt_bind {k : Except ε α → FlashM σ ε β} (h : m.GivesUp c E' S' R')
    (hk : ∀ e c', E' e → S' c' →
      (k (.error e) c').Settles fun r => (∃ e, r.1 = .error e ∧ E e) ∧ S r.2)
    (hf : ∀ r c', R' c' → (k r).GivesUp c' E S R) : (m.attempt >>= k).GivesUp c E S R := by
  refine Prog.Stops.bind h.attempt_stops ?_ ?_
  · rintro ⟨r, c'⟩ ⟨⟨e, hr, he⟩, hc⟩
    obtain rfl : r = .ok (.error e) := hr
    exact hk e c' he hc
  · rintro ⟨r, c'⟩ ⟨⟨x, hr⟩, hc⟩
    obtain rfl : r = .ok x := hr
    exact hf x c' hc

/-- Whatever is read, the call fails in the end. -/
theorem Reads.bind_fail (h : m.Reads c) (hS : S c) :
    ((m >>= fun _ => fail e : FlashM σ ε β) c).Settles
      fun r => (∃ e, r.1 = .error e ∧ True) ∧ S r.2 := by
  refine Prog.Settles.bind h ?_
  rintro ⟨r, c'⟩ hc
  obtain rfl : c' = c := hc
  cases r with
  | ok a => exact .pure ⟨⟨e, rfl, trivial⟩, hS⟩
  | error e' => exact .pure ⟨⟨e', rfl, trivial⟩, hS⟩

theorem runFaulty_of_clean (h : F.CleanFor (m.trace ev c fl).length) :
    m.runFaulty ev F c fl = m.run ev c fl ∧
      m.faultsLeft ev F c fl = F.drop (m.trace ev c fl).length := by
  obtain ⟨hr, hl⟩ := Prog.runFaulty_of_clean (m c) h
  unfold runFaulty run
  rw [hr]
  exact ⟨rfl, hl⟩

/-- What a call goes on with after a first part, whatever fails in it. -/
theorem runFaulty_bind_ok {a : α} (h : (m.runFaulty ev F c fl).status = .ok a) :
    (m >>= f).runFaulty ev F c fl = (f a).runFaulty ev (m.faultsLeft ev F c fl)
      (m.runFaulty ev F c fl).ctx (m.runFaulty ev F c fl).flash := by
  have hr : ((m c).runFaulty ev F fl).1 = (.ok a, ((m c).runFaulty ev F fl).1.2) := Prod.ext h rfl
  unfold runFaulty
  rw [bind_apply, Prog.runFaulty_bind, hr]
  rfl

theorem runFaulty_bind_err (h : (m.runFaulty ev F c fl).status = .error e) :
    (m >>= f).runFaulty ev F c fl =
      ⟨.error e, (m.runFaulty ev F c fl).ctx, (m.runFaulty ev F c fl).flash⟩ := by
  have hr : ((m c).runFaulty ev F fl).1 = (.error e, ((m c).runFaulty ev F fl).1.2) :=
    Prod.ext h rfl
  unfold runFaulty
  rw [bind_apply, Prog.runFaulty_bind, hr]
  rfl

theorem faultsLeft_bind_ok {a : α} (h : (m.runFaulty ev F c fl).status = .ok a) :
    (m >>= f).faultsLeft ev F c fl = (f a).faultsLeft ev (m.faultsLeft ev F c fl)
      (m.runFaulty ev F c fl).ctx (m.runFaulty ev F c fl).flash := by
  have hr : ((m c).runFaulty ev F fl).1 = (.ok a, ((m c).runFaulty ev F fl).1.2) := Prod.ext h rfl
  unfold faultsLeft runFaulty
  rw [bind_apply, Prog.faultsLeft_bind, hr]
  rfl

theorem runFaulty_attempt : m.attempt.runFaulty ev F c fl =
    ⟨.ok (m.runFaulty ev F c fl).status, (m.runFaulty ev F c fl).ctx,
      (m.runFaulty ev F c fl).flash⟩ := by
  unfold runFaulty attempt
  rw [Prog.runFaulty_bind]
  rfl

theorem runFaulty_failAs : (m.failAs e).runFaulty ev F c fl =
    ⟨(m.runFaulty ev F c fl).status.mapError fun _ => e, (m.runFaulty ev F c fl).ctx,
      (m.runFaulty ev F c fl).flash⟩ := by
  unfold runFaulty failAs
  rw [Prog.runFaulty_bind]
  generalize (m c).runFaulty ev F fl = out
  obtain ⟨⟨r, c'⟩, fl'⟩ := out
  cases r <;> rfl

theorem faultsLeft_failAs : (m.failAs e).faultsLeft ev F c fl = m.faultsLeft ev F c fl := by
  unfold faultsLeft failAs
  rw [Prog.faultsLeft_bind]
  generalize (m c).runFaulty ev F fl = out
  obtain ⟨⟨r, c'⟩, fl'⟩ := out
  cases r <;> rfl

/-- A call with an operation that fails returns an error and leaves the flash as a loss of power
can. -/
theorem GivesUp.runFaulty_cases (h : m.GivesUp c E S R) (F : Faults) (fl : Flash) :
    m.runFaulty ev F c fl = m.run ev c fl ∨
      (∃ e, (m.runFaulty ev F c fl).status = .error e) ∧
        m.CrashAt ev c fl (m.runFaulty ev F c fl).flash := by
  rcases Prog.Stops.runFaulty_cases h F fl with he | ⟨⟨⟨e, hr, _⟩, _⟩, hc⟩
  · refine .inl ?_
    unfold runFaulty run
    rw [he]
  · exact .inr ⟨⟨e, hr⟩, hc⟩

/-- An operation that fails in the first part ends the call there, with an error of that part. -/
theorem GivesUp.runFaulty_bind_error (h : m.GivesUp c E S R) (hF : F.FirstAt i)
    (hi : i < (m.trace ev c fl).length) :
    (∃ e, ((m >>= f).runFaulty ev F c fl).status = .error e ∧ E e) ∧
      S ((m >>= f).runFaulty ev F c fl).ctx ∧ ∃ x ∈ m.trace ev c fl, ∃ n, F i = some n ∧
      ((m >>= f).runFaulty ev F c fl).flash = x.1.failed n x.2 := by
  have hnext : ∀ r : Except ε α × σ, ((∃ e, r.1 = .error e ∧ E e) ∧ S r.2) →
      (next f r).Settles fun r => (∃ e, r.1 = .error e ∧ E e) ∧ S r.2 := by
    rintro ⟨r, c'⟩ ⟨⟨e, hr, he⟩, hc⟩
    obtain rfl : r = .error e := hr
    exact .pure ⟨⟨e, rfl, he⟩, hc⟩
  unfold runFaulty
  rw [bind_apply]
  exact and_assoc.mp (Prog.Stops.runFaulty_bind h hnext hF hi)

theorem GivesUp.runFaulty_bind (h : m.GivesUp c E S R) (hF : F.FirstAt i)
    (hi : i < (m.trace ev c fl).length) :
    (∃ e, ((m >>= f).runFaulty ev F c fl).status = .error e) ∧
      S ((m >>= f).runFaulty ev F c fl).ctx ∧ ∃ x ∈ m.trace ev c fl, ∃ n, F i = some n ∧
      ((m >>= f).runFaulty ev F c fl).flash = x.1.failed n x.2 := by
  obtain ⟨⟨e, he, _⟩, hs, hx⟩ := GivesUp.runFaulty_bind_error (f := f) h hF hi
  exact ⟨⟨e, he⟩, hs, hx⟩

/-- A call that succeeds when nothing fails succeeds exactly when none of its operations fails. -/
theorem GivesUp.ok_iff_cleanFor {a : α} (h : m.GivesUp c E S R)
    (ha : (m.run ev c fl).status = .ok a) : (∃ a, (m.runFaulty ev F c fl).status = .ok a) ↔
      F.CleanFor (m.trace ev c fl).length := by
  constructor
  · rintro ⟨a', ha'⟩
    refine (F.cleanFor_or_firstAt _).resolve_right ?_
    rintro ⟨i, hi, hF⟩
    obtain ⟨⟨e, he⟩, -⟩ := GivesUp.runFaulty_bind (f := pure) h hF hi
    rw [bind_pure, ha'] at he
    cases he
  · intro hc
    rw [(runFaulty_of_clean hc).1]
    exact ⟨a, ha⟩

/-- Without one, the rest of the call runs under the rest of the pattern. -/
theorem runFaulty_bind_of_clean {a : α} (h : F.CleanFor (m.trace ev c fl).length)
    (ha : (m.run ev c fl).status = .ok a) :
    (m >>= f).runFaulty ev F c fl = (f a).runFaulty ev (F.drop (m.trace ev c fl).length)
      (m.run ev c fl).ctx (m.run ev c fl).flash := by
  have hr : ((m c).run ev fl).1 = (.ok a, ((m c).run ev fl).1.2) := Prod.ext ha rfl
  unfold runFaulty
  rw [bind_apply, Prog.runFaulty_bind_of_clean (m c) h, hr]
  rfl

theorem runFaulty_bind_of_clean_error (h : F.CleanFor (m.trace ev c fl).length)
    (he : (m.run ev c fl).status = .error e) :
    (m >>= f).runFaulty ev F c fl =
      ⟨.error e, (m.run ev c fl).ctx, (m.run ev c fl).flash⟩ := by
  have hr : ((m c).run ev fl).1 = (.error e, ((m c).run ev fl).1.2) := Prod.ext he rfl
  unfold runFaulty
  rw [bind_apply, Prog.runFaulty_bind_of_clean (m c) h, hr]
  rfl

/-! ## Calls that keep the context -/

/-- Whatever the device replies, the call gives up at the first error, and keeps the context. -/
def Steady (m : FlashM σ ε α) (c : σ) : Prop :=
  m.GivesUp c (fun _ => True) (· = c) (· = c)

theorem steady_pure (a : α) : (pure a : FlashM σ ε α).Steady c := givesUp_pure rfl

theorem steady_fail (e : ε) : (fail e : FlashM σ ε α).Steady c := givesUp_fail e rfl

theorem steady_get : (get : FlashM σ ε σ).Steady c := givesUp_get rfl

theorem steady_ofExcept (r : Except ε α) : (ofExcept r : FlashM σ ε α).Steady c :=
  givesUp_ofExcept r rfl

theorem steady_failIf (p : Prop) [Decidable p] (e : ε) :
    (failIf p e : FlashM σ ε Unit).Steady c := givesUp_failIf p e rfl

theorem steady_issue (o : Op) (e : ε) : (issue o e : FlashM σ ε _).Steady c :=
  givesUp_issue o trivial rfl rfl

theorem Steady.bind (h : m.Steady c) (hf : ∀ a, (f a).Steady c) : (m >>= f).Steady c :=
  GivesUp.bind h (fun _ => id) fun a c' hc => by
    obtain rfl : c' = c := hc
    exact hf a

theorem Steady.failAs (h : m.Steady c) : (m.failAs e).Steady c := GivesUp.failAs h trivial

theorem Steady.ite {p : Prop} [Decidable p] {m' : FlashM σ ε α} (h : m.Steady c)
    (h' : m'.Steady c) : (if p then m else m').Steady c := by
  split_ifs
  · exact h
  · exact h'

/-- Before a part that may change the context. -/
theorem Steady.bind_givesUp (h : m.Steady c) (hS : S c) (hR : R c)
    (hf : ∀ a, (f a).GivesUp c (fun _ => True) S R) :
    (m >>= f).GivesUp c (fun _ => True) S R := by
  refine GivesUp.bind (GivesUp.mono h (fun _ => id) (fun c' hc => ?_) fun _ => id)
    (fun c' hc => ?_) fun a c' hc => ?_ <;> obtain rfl : c' = c := hc
  · exact hS
  · exact hR
  · exact hf a

end FlashM
end NorFlash
