import TfmExtras.Lib.FlashProg

/-! Functions that work on a context in RAM and a flash device and return a status. The
context keeps its changes when an error is returned, as the memory of a C caller does. -/

namespace NorFlash

def FlashM (σ ε α : Type) : Type := σ → Prog (Except ε α × σ)

namespace FlashM
variable {σ ε α β : Type}

protected def pure (a : α) : FlashM σ ε α := fun c => .pure (.ok a, c)

protected def bind (m : FlashM σ ε α) (f : α → FlashM σ ε β) : FlashM σ ε β := fun c =>
  (m c).bind fun r =>
    match r with
    | (.ok a, c') => f a c'
    | (.error e, c') => .pure (.error e, c')

instance : Monad (FlashM σ ε) where
  pure := FlashM.pure
  bind := FlashM.bind

instance : LawfulMonad (FlashM σ ε) := .mk' _
  (fun m => funext fun c => by
    refine Eq.trans ?_ (Prog.bind_pure (m c))
    refine congrArg (Prog.bind (m c)) (funext ?_)
    rintro ⟨r, c'⟩
    cases r <;> rfl)
  (fun _ _ => rfl)
  (fun m f g => funext fun c => by
    refine Eq.trans (Prog.bind_assoc (m c) _ _) ?_
    refine congrArg (Prog.bind (m c)) (funext ?_)
    rintro ⟨r, c'⟩
    cases r <;> rfl)

def fail (e : ε) : FlashM σ ε α := fun c => .pure (.error e, c)

def failIf (p : Prop) [Decidable p] (e : ε) : FlashM σ ε Unit :=
  if p then fail e else FlashM.pure ()

def ofExcept (r : Except ε α) : FlashM σ ε α := fun c => .pure (r, c)

def get : FlashM σ ε σ := fun c => .pure (.ok c, c)

def modify (f : σ → σ) : FlashM σ ε Unit := fun c => .pure (.ok (), f c)

/-- Runs `m` and hands its status to the caller. -/
def attempt (m : FlashM σ ε α) : FlashM σ ε (Except ε α) := fun c =>
  (m c).bind fun r => .pure (.ok r.1, r.2)

/-- Replaces any error of `m` by `e`. -/
def failAs (m : FlashM σ ε α) (e : ε) : FlashM σ ε α := fun c =>
  (m c).bind fun r =>
    match r with
    | (.ok a, c') => .pure (.ok a, c')
    | (.error _, c') => .pure (.error e, c')

/-- Issues one flash operation; an error it reports is returned as `e`. -/
def issue (o : Op) (e : ε) : FlashM σ ε (List UInt8) := fun c =>
  .op o fun r =>
    match r with
    | some bs => .pure (.ok bs, c)
    | none => .pure (.error e, c)

/-! ## Runs -/

/-- The status, the context and the flash a call leaves. -/
@[ext] structure Outcome (σ ε α : Type) where
  status : Except ε α
  ctx : σ
  flash : Flash

def run (ev : UInt8) (m : FlashM σ ε α) (c : σ) (fl : Flash) : Outcome σ ε α :=
  ⟨((m c).run ev fl).1.1, ((m c).run ev fl).1.2, ((m c).run ev fl).2⟩

def trace (ev : UInt8) (m : FlashM σ ε α) (c : σ) (fl : Flash) : List (Flash × Op) :=
  (m c).trace ev fl

def CrashAt (ev : UInt8) (m : FlashM σ ε α) (c : σ) (fl fl' : Flash) : Prop :=
  Prog.CrashAt ev (m c) fl fl'

/-- What a call goes on with after its first part. -/
def next (f : α → FlashM σ ε β) : Except ε α × σ → Prog (Except ε β × σ)
  | (.ok a, c) => f a c
  | (.error e, c) => .pure (.error e, c)

theorem bind_apply (m : FlashM σ ε α) (f : α → FlashM σ ε β) (c : σ) :
    (m >>= f) c = (m c).bind (next f) := by
  refine congrArg (Prog.bind (m c)) (funext ?_)
  rintro ⟨r, c'⟩
  cases r <;> rfl

theorem run_bind_ok {m : FlashM σ ε α} {f : α → FlashM σ ε β} {ev : UInt8} {c : σ} {fl : Flash}
    {a : α} (h : (m.run ev c fl).status = .ok a) :
    (m >>= f).run ev c fl = (f a).run ev (m.run ev c fl).ctx (m.run ev c fl).flash := by
  have hr : ((m c).run ev fl).1 = (.ok a, ((m c).run ev fl).1.2) := Prod.ext h rfl
  unfold run
  rw [bind_apply, Prog.run_bind, hr]
  rfl

theorem run_bind_error {m : FlashM σ ε α} {f : α → FlashM σ ε β} {ev : UInt8} {c : σ} {fl : Flash}
    {e : ε} (h : (m.run ev c fl).status = .error e) :
    (m >>= f).run ev c fl = ⟨.error e, (m.run ev c fl).ctx, (m.run ev c fl).flash⟩ := by
  have hr : ((m c).run ev fl).1 = (.error e, ((m c).run ev fl).1.2) := Prod.ext h rfl
  unfold run
  rw [bind_apply, Prog.run_bind, hr]
  rfl

theorem run_attempt (m : FlashM σ ε α) (ev : UInt8) (c : σ) (fl : Flash) : m.attempt.run ev c fl =
    ⟨.ok (m.run ev c fl).status, (m.run ev c fl).ctx, (m.run ev c fl).flash⟩ := by
  unfold run attempt
  rw [Prog.run_bind]
  rfl

theorem trace_bind_ok {m : FlashM σ ε α} {f : α → FlashM σ ε β} {ev : UInt8} {c : σ} {fl : Flash}
    {a : α} (h : (m.run ev c fl).status = .ok a) :
    (m >>= f).trace ev c fl =
      m.trace ev c fl ++ (f a).trace ev (m.run ev c fl).ctx (m.run ev c fl).flash := by
  have hr : ((m c).run ev fl).1 = (.ok a, ((m c).run ev fl).1.2) := Prod.ext h rfl
  unfold trace
  rw [bind_apply, Prog.trace_bind, hr]
  rfl

theorem trace_bind_error {m : FlashM σ ε α} {f : α → FlashM σ ε β} {ev : UInt8} {c : σ}
    {fl : Flash} {e : ε} (h : (m.run ev c fl).status = .error e) :
    (m >>= f).trace ev c fl = m.trace ev c fl := by
  have hr : ((m c).run ev fl).1 = (.error e, ((m c).run ev fl).1.2) := Prod.ext h rfl
  unfold trace
  rw [bind_apply, Prog.trace_bind, hr]
  exact List.append_nil _

theorem trace_failAs (m : FlashM σ ε α) (e : ε) (ev : UInt8) (c : σ) (fl : Flash) :
    (m.failAs e).trace ev c fl = m.trace ev c fl := by
  unfold trace failAs
  rw [Prog.trace_bind]
  generalize (m c).run ev fl = out
  obtain ⟨⟨r, c'⟩, fl'⟩ := out
  cases r <;> exact List.append_nil _

/-! ## Weakest preconditions -/

abbrev Post (σ ε α : Type) := Except ε α → σ → Flash → Prop

def wp (ev : UInt8) (G : Prog.Guard) (m : FlashM σ ε α) (c : σ) (fl : Flash)
    (Q : Post σ ε α) : Prop :=
  (m c).wp ev G fl fun r fl' => Q r.1 r.2 fl'

/-- The call succeeds, and its value, context and flash satisfy `R`. -/
def Ok (ev : UInt8) (G : Prog.Guard) (m : FlashM σ ε α) (c : σ) (fl : Flash)
    (R : α → σ → Flash → Prop) : Prop :=
  m.wp ev G c fl fun r c' fl' => ∃ a, r = .ok a ∧ R a c' fl'

/-- The call fails with `e`, and the context and flash it leaves satisfy `R`. -/
def Err (ev : UInt8) (G : Prog.Guard) (m : FlashM σ ε α) (c : σ) (fl : Flash) (e : ε)
    (R : σ → Flash → Prop) : Prop :=
  m.wp ev G c fl fun r c' fl' => r = .error e ∧ R c' fl'

variable {ev : UInt8} {G G' : Prog.Guard} {c : σ} {fl : Flash}
variable {m : FlashM σ ε α} {f : α → FlashM σ ε β}
variable {Q Q' : Post σ ε α} {R R' : α → σ → Flash → Prop}

theorem wp_iff : m.wp ev G c fl Q ↔ (∀ x ∈ m.trace ev c fl, G x.1 x.2) ∧
    Q (m.run ev c fl).status (m.run ev c fl).ctx (m.run ev c fl).flash :=
  Prog.wp_iff _ _

theorem wp_mono (h : m.wp ev G c fl Q) (hG : ∀ fl o, G fl o → G' fl o)
    (hQ : ∀ r c fl, Q r c fl → Q' r c fl) : m.wp ev G' c fl Q' :=
  Prog.wp_mono h hG fun r fl => hQ r.1 r.2 fl

theorem wp_post (h : m.wp ev G c fl Q) (hQ : ∀ r c fl, Q r c fl → Q' r c fl) :
    m.wp ev G c fl Q' := wp_mono h (fun _ _ => id) hQ

theorem wp_bind {Q : Post σ ε β} : (m >>= f).wp ev G c fl Q ↔
    m.wp ev G c fl fun r c' fl' =>
      match r with
      | .ok a => (f a).wp ev G c' fl' Q
      | .error e => Q (.error e) c' fl' := by
  refine (Prog.wp_bind (m c) fl).trans ?_
  constructor <;> refine fun h => Prog.wp_mono h (fun _ _ => id) ?_
  all_goals
    rintro ⟨r, c'⟩ fl' hr
    cases r <;> exact hr

@[simp] theorem wp_pure (a : α) : (pure a : FlashM σ ε α).wp ev G c fl Q ↔ Q (.ok a) c fl :=
  Iff.rfl

@[simp] theorem wp_fail (e : ε) : (fail e : FlashM σ ε α).wp ev G c fl Q ↔ Q (.error e) c fl :=
  Iff.rfl

@[simp] theorem wp_ofExcept (r : Except ε α) :
    (ofExcept r : FlashM σ ε α).wp ev G c fl Q ↔ Q r c fl := Iff.rfl

@[simp] theorem wp_modify (g : σ → σ) {Q : Post σ ε Unit} :
    (modify g : FlashM σ ε Unit).wp ev G c fl Q ↔ Q (.ok ()) (g c) fl := Iff.rfl

theorem modify_bind_wp {g : σ → σ} {c' : σ} {k : Unit → FlashM σ ε β} {Q : Post σ ε β}
    (hg : g c = c') (hk : (k ()).wp ev G c' fl Q) : (modify g >>= k).wp ev G c fl Q := by
  subst hg
  exact wp_bind.mpr hk

theorem wp_attempt {Q : Post σ ε (Except ε α)} :
    m.attempt.wp ev G c fl Q ↔ m.wp ev G c fl fun r c' fl' => Q (.ok r) c' fl' :=
  Prog.wp_bind _ _

theorem wp_failAs {e : ε} : (m.failAs e).wp ev G c fl Q ↔
    m.wp ev G c fl fun r c' fl' =>
      match r with
      | .ok a => Q (.ok a) c' fl'
      | .error _ => Q (.error e) c' fl' := by
  refine (Prog.wp_bind _ _).trans ?_
  constructor <;> refine fun h => Prog.wp_mono h (fun _ _ => id) ?_
  all_goals
    rintro ⟨r, c'⟩ fl' hr
    cases r <;> exact hr

theorem wp_issue {o : Op} {e : ε} {Q : Post σ ε (List UInt8)} :
    (issue o e : FlashM σ ε _).wp ev G c fl Q ↔
      G fl o ∧ Q (.ok (fl.reply ev o)) c (fl.apply o) := Iff.rfl

/-! ## Calls that succeed -/

theorem Ok.exists_run (h : m.Ok ev G c fl R) :
    ∃ a c' fl', m.run ev c fl = ⟨.ok a, c', fl'⟩ ∧ R a c' fl' := by
  obtain ⟨a, hr, hR⟩ := (wp_iff.mp h).2
  refine ⟨a, _, _, ?_, hR⟩
  rw [← hr]

theorem Ok.mono (h : m.Ok ev G c fl R) (hR : ∀ a c fl, R a c fl → R' a c fl) :
    m.Ok ev G c fl R' :=
  wp_post h fun _ _ _ ⟨a, ha, hr⟩ => ⟨a, ha, hR _ _ _ hr⟩

theorem Ok.bind_wp {Q : Post σ ε β} (h : m.Ok ev G c fl R)
    (hf : ∀ a c' fl', R a c' fl' → (f a).wp ev G c' fl' Q) : (m >>= f).wp ev G c fl Q :=
  wp_bind.mpr (wp_post h fun _ _ _ ⟨_, hr, hR⟩ => hr ▸ hf _ _ _ hR)

theorem Ok.bind {S : β → σ → Flash → Prop} (h : m.Ok ev G c fl R)
    (hf : ∀ a c' fl', R a c' fl' → (f a).Ok ev G c' fl' S) : (m >>= f).Ok ev G c fl S :=
  h.bind_wp hf

theorem Ok.failAs {e : ε} (h : m.Ok ev G c fl R) : (m.failAs e).Ok ev G c fl R :=
  wp_failAs.mpr (wp_post h fun _ _ _ ⟨a, hr, hR⟩ => hr ▸ ⟨a, rfl, hR⟩)

theorem Ok.attempt (h : m.Ok ev G c fl R) :
    m.attempt.Ok ev G c fl fun r c' fl' => ∃ a, r = .ok a ∧ R a c' fl' :=
  wp_attempt.mpr (wp_post h fun _ _ _ hr => ⟨_, rfl, hr⟩)

/-- A step that is only made under a condition, before a common rest. -/
theorem Ok.ite_bind {p : Prop} [Decidable p] {m : FlashM σ ε Unit} {k : Unit → FlashM σ ε β}
    {R : Unit → σ → Flash → Prop} {Q : Post σ ε β} (hp : p → m.Ok ev G c fl R)
    (hn : ¬ p → R () c fl) (hk : ∀ c' fl', R () c' fl' → (k ()).wp ev G c' fl' Q) :
    (if p then m >>= k else k ()).wp ev G c fl Q := by
  split_ifs with h
  · exact (hp h).bind_wp fun _ c' fl' hR => hk c' fl' hR
  · exact hk c fl (hn h)

theorem ok_pure {a : α} (h : R a c fl) : (pure a : FlashM σ ε α).Ok ev G c fl R := ⟨a, rfl, h⟩

theorem ok_ofExcept {r : Except ε α} {a : α} (hr : r = .ok a) (h : R a c fl) :
    (ofExcept r : FlashM σ ε α).Ok ev G c fl R := ⟨a, hr, h⟩

theorem ok_get {R : σ → σ → Flash → Prop} (h : R c c fl) :
    (get : FlashM σ ε σ).Ok ev G c fl R := ⟨c, rfl, h⟩

theorem ok_modify {g : σ → σ} {R : Unit → σ → Flash → Prop} (h : R () (g c) fl) :
    (modify g : FlashM σ ε Unit).Ok ev G c fl R := ⟨(), rfl, h⟩

theorem ok_failIf {p : Prop} [Decidable p] {e : ε} {R : Unit → σ → Flash → Prop} (hp : ¬ p)
    (h : R () c fl) : (failIf p e : FlashM σ ε Unit).Ok ev G c fl R := by
  rw [failIf, if_neg hp]
  exact ⟨(), rfl, h⟩

theorem ok_issue {o : Op} {e : ε} {R : List UInt8 → σ → Flash → Prop} (hG : G fl o)
    (h : R (fl.reply ev o) c (fl.apply o)) : (issue o e : FlashM σ ε _).Ok ev G c fl R :=
  ⟨hG, _, rfl, h⟩

/-! ## Calls that fail -/

theorem Err.bind {e : ε} {S : σ → Flash → Prop} (h : m.Err ev G c fl e S) :
    (m >>= f).Err ev G c fl e S :=
  wp_bind.mpr (wp_post h fun _ _ _ ⟨hr, hS⟩ => hr ▸ ⟨rfl, hS⟩)

theorem Ok.bind_err {e : ε} {S : σ → Flash → Prop} (h : m.Ok ev G c fl R)
    (hf : ∀ a c' fl', R a c' fl' → (f a).Err ev G c' fl' e S) : (m >>= f).Err ev G c fl e S :=
  h.bind_wp hf

theorem Err.failAs {e e' : ε} {S : σ → Flash → Prop} (h : m.Err ev G c fl e S) :
    (m.failAs e').Err ev G c fl e' S :=
  wp_failAs.mpr (wp_post h fun _ _ _ ⟨hr, hS⟩ => hr ▸ ⟨rfl, hS⟩)

theorem err_fail {e : ε} {S : σ → Flash → Prop} (h : S c fl) :
    (fail e : FlashM σ ε α).Err ev G c fl e S := ⟨rfl, h⟩

theorem err_failIf {p : Prop} [Decidable p] {e : ε} {S : σ → Flash → Prop} (hp : p)
    (h : S c fl) : (failIf p e : FlashM σ ε Unit).Err ev G c fl e S := by
  rw [failIf, if_pos hp]
  exact ⟨rfl, h⟩

/-! ## Calls that only read -/

/-- The call returns `r` and leaves the context and the flash as they are. -/
def Query (ev : UInt8) (G : Prog.Guard) (m : FlashM σ ε α) (c : σ) (fl : Flash)
    (r : Except ε α) : Prop :=
  m.wp ev G c fl fun r' c' fl' => r' = r ∧ c' = c ∧ fl' = fl

variable {r : Except ε α}

theorem Query.wp (h : m.Query ev G c fl r) (hQ : Q r c fl) : m.wp ev G c fl Q :=
  wp_post h fun _ _ _ ⟨hr, hc, hf⟩ => hr ▸ hc ▸ hf ▸ hQ

theorem Query.mono (h : m.Query ev G c fl r) (hG : ∀ fl o, G fl o → G' fl o) :
    m.Query ev G' c fl r := wp_mono h hG fun _ _ _ => id

theorem Query.bind_wp {Q : Post σ ε β} (h : m.Query ev G c fl r)
    (hok : ∀ a, r = .ok a → (f a).wp ev G c fl Q)
    (herr : ∀ e, r = .error e → Q (.error e) c fl) : (m >>= f).wp ev G c fl Q := by
  refine wp_bind.mpr (h.wp ?_)
  cases r with
  | ok a => exact hok a rfl
  | error e => exact herr e rfl

theorem Query.bind {r' : α → Except ε β} (h : m.Query ev G c fl r)
    (hf : ∀ a, r = .ok a → (f a).Query ev G c fl (r' a)) :
    (m >>= f).Query ev G c fl (r >>= r') := by
  refine h.bind_wp (fun a ha => ?_) fun e he => ?_
  · rw [ha]
    exact hf a ha
  · rw [he]
    exact ⟨rfl, rfl, rfl⟩

theorem Query.seq_wp {a : α} {Q : Post σ ε β} (h : m.Query ev G c fl (.ok a))
    (hf : (f a).wp ev G c fl Q) : (m >>= f).wp ev G c fl Q :=
  h.bind_wp (fun _ ha => by injection ha with ha; exact ha ▸ hf) fun _ he => by injection he

theorem Query.seq {a : α} {r' : Except ε β} (h : m.Query ev G c fl (.ok a))
    (hf : (f a).Query ev G c fl r') : (m >>= f).Query ev G c fl r' := h.seq_wp hf

theorem Query.seq_error {e : ε} (h : m.Query ev G c fl (.error e)) :
    (m >>= f).Query ev G c fl (.error e) :=
  h.bind_wp (fun _ ha => by injection ha) fun _ he => by
    injection he with he
    exact he ▸ ⟨rfl, rfl, rfl⟩

theorem Query.run_eq (h : m.Query ev G c fl r) : m.run ev c fl = ⟨r, c, fl⟩ := by
  obtain ⟨hr, hc, hf⟩ := (wp_iff.mp h).2
  calc m.run ev c fl
      = ⟨(m.run ev c fl).status, (m.run ev c fl).ctx, (m.run ev c fl).flash⟩ := rfl
    _ = ⟨r, c, fl⟩ := by rw [hr, hc, hf]

theorem Query.attempt (h : m.Query ev G c fl r) : m.attempt.Query ev G c fl (.ok r) :=
  wp_attempt.mpr (h.wp ⟨rfl, rfl, rfl⟩)

theorem Query.failAs {e : ε} (h : m.Query ev G c fl r) :
    (m.failAs e).Query ev G c fl (r.mapError fun _ => e) := by
  refine wp_failAs.mpr (h.wp ?_)
  cases r <;> exact ⟨rfl, rfl, rfl⟩

theorem Query.ok {a : α} (h : m.Query ev G c fl (.ok a)) :
    m.Ok ev G c fl fun a' c' fl' => a' = a ∧ c' = c ∧ fl' = fl :=
  h.wp ⟨a, rfl, rfl, rfl, rfl⟩

theorem query_pure (a : α) : (pure a : FlashM σ ε α).Query ev G c fl (.ok a) := ⟨rfl, rfl, rfl⟩

theorem query_fail (e : ε) : (fail e : FlashM σ ε α).Query ev G c fl (.error e) := ⟨rfl, rfl, rfl⟩

theorem query_get : (get : FlashM σ ε σ).Query ev G c fl (.ok c) := ⟨rfl, rfl, rfl⟩

theorem query_ofExcept (r : Except ε α) : (ofExcept r : FlashM σ ε α).Query ev G c fl r :=
  ⟨rfl, rfl, rfl⟩

theorem query_failIf_of {p : Prop} [Decidable p] {e : ε} (hp : p) :
    (failIf p e : FlashM σ ε Unit).Query ev G c fl (.error e) := by
  rw [failIf, if_pos hp]
  exact query_fail e

theorem query_failIf_of_not {p : Prop} [Decidable p] {e : ε} (hp : ¬ p) :
    (failIf p e : FlashM σ ε Unit).Query ev G c fl (.ok ()) := by
  rw [failIf, if_neg hp]
  exact query_pure ()

/-- A check that succeeds, whatever error it would be reported as. -/
theorem query_check {a : α} {e : ε} (hr : r = .ok a) :
    ((ofExcept r).failAs e : FlashM σ ε α).Query ev G c fl (.ok a) := by
  rw [hr]
  exact (query_ofExcept _).failAs

theorem query_issue {o : Op} {e : ε} (hG : G fl o) (ho : fl.apply o = fl) :
    (issue o e : FlashM σ ε _).Query ev G c fl (.ok (fl.reply ev o)) := ⟨hG, rfl, rfl, ho⟩

/-! ## Invariants of the flash -/

/-- What the guarded operations preserve holds at each of them and at the end. -/
theorem wp_inv {I : Flash → Prop} (h : m.wp ev G c fl Q) (h₀ : I fl)
    (hI : ∀ fl o, I fl → G fl o → I (fl.apply o)) :
    m.wp ev (fun fl o => I fl ∧ G fl o) c fl fun r c' fl' => I fl' ∧ Q r c' fl' :=
  Prog.wp_inv h h₀ hI

theorem Ok.inv {I : Flash → Prop} (h : m.Ok ev G c fl R) (h₀ : I fl)
    (hI : ∀ fl o, I fl → G fl o → I (fl.apply o)) :
    m.Ok ev (fun fl o => I fl ∧ G fl o) c fl fun a c' fl' => I fl' ∧ R a c' fl' :=
  wp_post (wp_inv h h₀ hI) fun _ _ _ ⟨hi, a, hr, hR⟩ => ⟨a, hr, hi, hR⟩

theorem Ok.guard (h : m.Ok ev G c fl R) (hG : ∀ fl o, G fl o → G' fl o) : m.Ok ev G' c fl R :=
  wp_mono h hG fun _ _ _ => id

/-- Crash states satisfy what every operation of the run keeps, torn or complete. -/
theorem wp_crash {C : Flash → Prop} {fl' : Flash} (h : m.wp ev G c fl Q) (h₀ : C fl)
    (hG : ∀ fl o, C fl → G fl o → C (fl.apply o) ∧ ∀ n, C (fl.torn n o))
    (hc : m.CrashAt ev c fl fl') : C fl' :=
  Prog.wp_crash h h₀ hG hc

-- programs are reasoned about by the rules above only
attribute [irreducible] FlashM.wp

end FlashM
end NorFlash
