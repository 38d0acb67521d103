import TfmExtras.Lib.FlashFault

/-! Calls on a device of which nothing is known: whatever it replies, the operations stay inside a
set, and the call ends as described. -/

namespace NorFlash

/-- The number of bytes in the reply to an operation. -/
def Op.replySize : Op → Nat
  | read _ _ n => n
  | _ => 0

theorem Flash.reply_length (fl : Flash) (ev : UInt8) (o : Op) :
    (fl.reply ev o).length = o.replySize := by
  cases o with
  | read b off n => exact read_length fl ev b off n
  | _ => rfl

namespace Prog
variable {α β : Type} {A A' : Op → Prop} {R R' : α → Prop} {p : Prog α}

/-- Whatever the device replies, every operation is in `A`, and the program ends in `R`. -/
inductive Within (A : Op → Prop) (R : α → Prop) : Prog α → Prop
  | pure {a : α} (h : R a) : Within A R (.pure a)
  | op {o : Op} {k : Option (List UInt8) → Prog α} (h : A o)
    (next : ∀ bs, bs.length = o.replySize → Within A R (k (some bs))) : Within A R (.op o k)

theorem Within.mono (h : p.Within A R) (hA : ∀ o, A o → A' o) (hR : ∀ a, R a → R' a) :
    p.Within A' R' := by
  induction h with
  | pure h => exact .pure (hR _ h)
  | op h _ ih => exact .op (hA _ h) ih

theorem Within.bind {f : α → Prog β} {R' : β → Prop} (h : p.Within A R)
    (hf : ∀ a, R a → (f a).Within A R') : (p.bind f).Within A R' := by
  induction h with
  | pure h => exact hf _ h
  | op h _ ih => exact .op h ih

theorem Within.wp (h : p.Within A R) (ev : UInt8) (fl : Flash) :
    p.wp ev (fun _ o => A o) fl fun a _ => R a := by
  induction h generalizing fl with
  | pure h => exact h
  | op h _ ih => exact ⟨h, ih _ (fl.reply_length ev _) _⟩

theorem Stops.within {L : α → Prop} (h : p.Stops L R) : p.Within (fun _ => True) R := by
  induction h with
  | pure h => exact .pure h
  | op _ _ ih => exact .op trivial fun bs _ => ih bs

end Prog

/-- An error is no result. -/
theorem of_error_eq_ok {ε α : Type} {p : Prop} {e : ε} {a : α}
    (h : (.error e : Except ε α) = .ok a) : p := by cases h

namespace FlashM
variable {σ ε α β : Type} {A : Op → Prop} {c : σ} {e : ε}
variable {m : FlashM σ ε α} {f : α → FlashM σ ε β} {Q Q' : Except ε α → σ → Prop}

/-- Whatever the device replies, every operation of the call is in `A`, and `Q` holds of its status
and of the context that it leaves. -/
def Within (A : Op → Prop) (m : FlashM σ ε α) (c : σ) (Q : Except ε α → σ → Prop) : Prop :=
  (m c).Within A fun r => Q r.1 r.2

theorem Within.mono (h : m.Within A c Q) (hQ : ∀ r c, Q r c → Q' r c) : m.Within A c Q' :=
  Prog.Within.mono h (fun _ => id) fun r => hQ r.1 r.2

theorem Within.bind {Q' : Except ε β → σ → Prop} (h : m.Within A c Q)
    (hok : ∀ a c', Q (.ok a) c' → (f a).Within A c' Q')
    (herr : ∀ e c', Q (.error e) c' → Q' (.error e) c') : (m >>= f).Within A c Q' := by
  refine Prog.Within.bind h ?_
  rintro ⟨r, c'⟩ hr
  cases r with
  | ok a => exact hok a c' hr
  | error e => exact .pure (herr e c' hr)

theorem Within.attempt {Q' : Except ε (Except ε α) → σ → Prop} (h : m.Within A c Q)
    (hQ : ∀ r c, Q r c → Q' (.ok r) c) : m.attempt.Within A c Q' :=
  Prog.Within.bind h fun r hr => .pure (hQ r.1 r.2 hr)

theorem Within.failAs (h : m.Within A c Q) (hok : ∀ a c', Q (.ok a) c' → Q' (.ok a) c')
    (herr : ∀ e' c', Q (.error e') c' → Q' (.error e) c') : (m.failAs e).Within A c Q' := by
  refine Prog.Within.bind h ?_
  rintro ⟨r, c'⟩ hr
  cases r with
  | ok a => exact .pure (hok a c' hr)
  | error e' => exact .pure (herr e' c' hr)

theorem within_pure {a : α} (h : Q (.ok a) c) : (pure a : FlashM σ ε α).Within A c Q := .pure h

theorem within_fail (h : Q (.error e) c) : (fail e : FlashM σ ε α).Within A c Q := .pure h

theorem within_ofExcept {r : Except ε α} (h : Q r c) : (ofExcept r : FlashM σ ε α).Within A c Q :=
  .pure h

theorem within_issue {o : Op} {Q : Except ε (List UInt8) → σ → Prop} (h : A o)
    (hQ : ∀ bs, bs.length = o.replySize → Q (.ok bs) c) :
    (issue o e : FlashM σ ε _).Within A c Q := .op h fun bs hbs => .pure (hQ bs hbs)

theorem get_bind_within {k : σ → FlashM σ ε β} {Q : Except ε β → σ → Prop}
    (h : (k c).Within A c Q) : (get >>= k).Within A c Q := h

theorem modify_bind_within {g : σ → σ} {c' : σ} {k : Unit → FlashM σ ε β}
    {Q : Except ε β → σ → Prop} (hg : g c = c') (h : (k ()).Within A c' Q) :
    (modify g >>= k).Within A c Q := by
  subst hg
  exact h

/-- A rest that only depends on some property of the modified context. -/
theorem modify_bind_within_of {g : σ → σ} {P : σ → Prop} {k : Unit → FlashM σ ε β}
    {Q : Except ε β → σ → Prop} (hg : P (g c)) (hk : ∀ c', P c' → (k ()).Within A c' Q) :
    (modify g >>= k).Within A c Q := hk _ hg

theorem Within.ite {p : Prop} [Decidable p] {m' : FlashM σ ε α} (h : p → m.Within A c Q)
    (h' : ¬ p → m'.Within A c Q) : (if p then m else m').Within A c Q := by
  split_ifs with hp
  · exact h hp
  · exact h' hp

theorem Within.wp (h : m.Within A c Q) (ev : UInt8) (fl : Flash) :
    m.wp ev (fun _ o => A o) c fl fun r c' _ => Q r c' := by
  unfold FlashM.wp
  exact Prog.Within.wp h ev fl

/-- Where a call that gives up ends when nothing fails. -/
theorem GivesUp.within {E : ε → Prop} {S R : σ → Prop} (h : m.GivesUp c E S R) :
    m.Within (fun _ => True) c fun _ c' => R c' := Prog.Stops.within h

/-! ## Calls that succeed -/

/-- Whatever the device replies, the call succeeds and keeps the context. -/
def Passes (A : Op → Prop) (m : FlashM σ ε α) (c : σ) : Prop :=
  m.Within A c fun r c' => (∃ a, r = .ok a) ∧ c' = c

theorem Passes.bind {Q : Except ε β → σ → Prop} (h : m.Passes A c)
    (hf : ∀ a, (f a).Within A c Q) : (m >>= f).Within A c Q := by
  refine Within.bind h ?_ ?_
  · rintro a c' ⟨-, rfl⟩
    exact hf a
  · rintro e c' ⟨⟨a, ha⟩, -⟩
    cases ha

theorem Passes.failAs (h : m.Passes A c) : (m.failAs e).Passes A c := by
  refine Within.failAs h (fun _ _ => id) ?_
  rintro e' c' ⟨⟨a, ha⟩, -⟩
  cases ha

theorem passes_pure (a : α) : (pure a : FlashM σ ε α).Passes A c := .pure ⟨⟨a, rfl⟩, rfl⟩

theorem passes_issue {o : Op} (h : A o) : (issue o e : FlashM σ ε _).Passes A c :=
  within_issue h fun bs _ => ⟨⟨bs, rfl⟩, rfl⟩

theorem Passes.within (h : m.Passes A c) (hQ : ∀ a, Q (.ok a) c) : m.Within A c Q := by
  refine Within.mono h ?_
  rintro _ _ ⟨⟨a, rfl⟩, rfl⟩
  exact hQ a

/-- Whatever the device replies, the call keeps the context. -/
def Stays (A : Op → Prop) (m : FlashM σ ε α) (c : σ) : Prop := m.Within A c fun _ c' => c' = c

theorem Passes.stays (h : m.Passes A c) : m.Stays A c := h.within fun _ => rfl

theorem Steady.stays (h : m.Steady c) : m.Stays (fun _ => True) c := GivesUp.within h

theorem Stays.bind {Q : Except ε β → σ → Prop} (h : m.Stays A c) (hf : ∀ a, (f a).Within A c Q)
    (he : ∀ e, Q (.error e) c) : (m >>= f).Within A c Q := by
  refine Within.bind h ?_ ?_
  · rintro a c' rfl
    exact hf a
  · rintro e c' rfl
    exact he e

theorem Stays.failAs (h : m.Stays A c) : (m.failAs e).Stays A c :=
  Within.failAs h (fun _ _ => id) fun _ _ => id

theorem Stays.attempt (h : m.Stays A c) : m.attempt.Stays A c := Within.attempt h fun _ _ => id

theorem stays_fail (e : ε) : (fail e : FlashM σ ε α).Stays A c := within_fail rfl

theorem stays_failIf (p : Prop) [Decidable p] (e : ε) : (failIf p e : FlashM σ ε Unit).Stays A c := by
  unfold failIf
  exact .ite (fun _ => stays_fail e) fun _ => within_pure rfl

/-- A step that is only made under a condition, before a common rest. -/
theorem Passes.ite_bind {p : Prop} [Decidable p] {m : FlashM σ ε Unit} {k : Unit → FlashM σ ε β}
    {Q : Except ε β → σ → Prop} (h : p → m.Passes A c) (hk : (k ()).Within A c Q) :
    (if p then m >>= k else k ()).Within A c Q :=
  .ite (fun hp => (h hp).bind fun _ => hk) fun _ => hk

theorem Stays.ite_bind {p : Prop} [Decidable p] {m : FlashM σ ε Unit} {k : Unit → FlashM σ ε β}
    {Q : Except ε β → σ → Prop} (h : p → m.Stays A c) (hk : (k ()).Within A c Q)
    (he : ∀ e, Q (.error e) c) : (if p then m >>= k else k ()).Within A c Q :=
  .ite (fun hp => (h hp).bind (fun _ => hk) he) fun _ => hk

/-- An operation before the rest of a call, which is given its reply. -/
theorem issue_bind_within {o : Op} {k : List UInt8 → FlashM σ ε β} {Q : Except ε β → σ → Prop}
    (h : A o) (hk : ∀ bs, bs.length = o.replySize → (k bs).Within A c Q) :
    (issue o e >>= k).Within A c Q := .op h fun bs hbs => hk bs hbs

end FlashM
end NorFlash
