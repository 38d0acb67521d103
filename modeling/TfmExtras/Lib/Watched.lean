import TfmExtras.Lib.FlashM

/-! Runs on a device that are watched: what an operation may do depends on a state beside the
program, which the operations before it have moved. -/

namespace NorFlash

/-- What operations may do in a state, and how they move it. -/
structure Watch (γ : Type) where
  allows : γ → Flash → Op → Prop
  next : γ → Op → γ

namespace Watch
variable {γ : Type} (W : Watch γ) {g : γ}

/-- Every operation is allowed in the state that the ones before it have led to. -/
def Keeps : γ → List (Flash × Op) → Prop
  | _, [] => True
  | g, x :: xs => W.allows g x.1 x.2 ∧ Keeps (W.next g x.2) xs

/-- The state that operations lead to. -/
def after (g : γ) (xs : List (Flash × Op)) : γ := xs.foldl (fun g x => W.next g x.2) g

theorem after_append (g : γ) (xs ys : List (Flash × Op)) :
    W.after g (xs ++ ys) = W.after (W.after g xs) ys := List.foldl_append ..

theorem keeps_append (xs ys : List (Flash × Op)) :
    W.Keeps g (xs ++ ys) ↔ W.Keeps g xs ∧ W.Keeps (W.after g xs) ys := by
  induction xs generalizing g with
  | nil => exact (and_iff_right trivial).symm
  | cons x xs ih => exact (and_congr_right fun _ => ih).trans (and_assoc).symm

theorem Keeps.of_forall {A : Flash → Op → Prop} {xs : List (Flash × Op)} (h : W.Keeps g xs)
    (hA : ∀ g fl o, W.allows g fl o → A fl o) : ∀ x ∈ xs, A x.1 x.2 := by
  induction xs generalizing g with
  | nil => exact fun x hx => nomatch hx
  | cons y ys ih => exact List.forall_mem_cons.mpr ⟨hA _ _ _ h.1, ih h.2⟩

/-- The operations are allowed in a state, and stay in it. -/
def Rests (g : γ) (xs : List (Flash × Op)) : Prop :=
  ∀ x ∈ xs, W.allows g x.1 x.2 ∧ W.next g x.2 = g

theorem after_eq {xs : List (Flash × Op)} (h : ∀ x ∈ xs, W.next g x.2 = g) : W.after g xs = g := by
  induction xs with
  | nil => rfl
  | cons x xs ih =>
    obtain ⟨hx, h⟩ := List.forall_mem_cons.mp h
    exact (congrArg (fun g => W.after g xs) hx).trans (ih h)

theorem Rests.after {xs : List (Flash × Op)} (h : W.Rests g xs) : W.after g xs = g :=
  W.after_eq fun x hx => (h x hx).2

theorem Rests.keeps {xs : List (Flash × Op)} (h : W.Rests g xs) : W.Keeps g xs := by
  induction xs with
  | nil => trivial
  | cons x xs ih =>
    obtain ⟨⟨hx, hn⟩, h⟩ := List.forall_mem_cons.mp h
    exact ⟨hx, hn.symm ▸ ih h⟩

instance decidableKeeps [∀ g fl o, Decidable (W.allows g fl o)] :
    (g : γ) → (xs : List (Flash × Op)) → Decidable (W.Keeps g xs)
  | _, [] => .isTrue trivial
  | g, x :: xs =>
    have := decidableKeeps (W.next g x.2) xs
    inferInstanceAs (Decidable (W.allows g x.1 x.2 ∧ W.Keeps (W.next g x.2) xs))

end Watch

namespace FlashM
variable {γ σ ε α β : Type} {W : Watch γ} {ev : UInt8} {g : γ} {c : σ} {fl : Flash}
variable {m : FlashM σ ε α} {f : α → FlashM σ ε β}

/-- The run of a call keeps to the watch, and what it leaves satisfies `Q`. -/
def Watched (W : Watch γ) (ev : UInt8) (m : FlashM σ ε α) (g : γ) (c : σ) (fl : Flash)
    (Q : γ → Except ε α → σ → Flash → Prop) : Prop :=
  W.Keeps g (m.trace ev c fl) ∧ Q (W.after g (m.trace ev c fl)) (m.run ev c fl).status
    (m.run ev c fl).ctx (m.run ev c fl).flash

variable {Q Q' : γ → Except ε α → σ → Flash → Prop}

theorem watched_bind {Q : γ → Except ε β → σ → Flash → Prop} :
    (m >>= f).Watched W ev g c fl Q ↔ m.Watched W ev g c fl fun g' r c' fl' =>
      match r with
      | .ok a => (f a).Watched W ev g' c' fl' Q
      | .error e => Q g' (.error e) c' fl' := by
  unfold Watched
  cases hr : (m.run ev c fl).status with
  | ok a => rw [trace_bind_ok hr, run_bind_ok hr, W.keeps_append, W.after_append, and_assoc]
  | error e => rw [trace_bind_error hr, run_bind_error hr]

theorem Watched.mono (h : m.Watched W ev g c fl Q) (hQ : ∀ g r c fl, Q g r c fl → Q' g r c fl) :
    m.Watched W ev g c fl Q' := ⟨h.1, hQ _ _ _ _ h.2⟩

/-- Operations that do not move the state lead to their result in that state. -/
theorem Watched.stays {G : Prog.Guard} {R : Post σ ε α} (h : m.Watched W ev g c fl Q)
    (hm : m.wp ev G c fl R) (hG : ∀ fl o, G fl o → W.next g o = g) :
    ∃ r c' fl', R r c' fl' ∧ Q g r c' fl' := by
  obtain ⟨hG', hR⟩ := wp_iff.mp hm
  have hQ := h.2
  rw [W.after_eq fun x hx => hG _ _ (hG' x hx)] at hQ
  exact ⟨_, _, _, hR, hQ⟩

/-- A step that rests only matters for what it leaves. -/
theorem watched_of_rests (h : W.Rests g (m.trace ev c fl)) : m.Watched W ev g c fl Q ↔
    Q g (m.run ev c fl).status (m.run ev c fl).ctx (m.run ev c fl).flash := by
  unfold Watched
  rw [h.after]
  exact and_iff_right h.keeps

/-- A call whose operations all rest, and whose result is known. -/
theorem watched_of_wp {G : Prog.Guard} {R : Post σ ε α} (h : m.wp ev G c fl R)
    (hG : ∀ fl o, G fl o → W.allows g fl o ∧ W.next g o = g) {P : Prop}
    (hR : ∀ r c' fl', R r c' fl' → (Q g r c' fl' ↔ P)) : m.Watched W ev g c fl Q ↔ P := by
  obtain ⟨hG', hR'⟩ := wp_iff.mp h
  have hrest : W.Rests g (m.trace ev c fl) := fun x hx => hG _ _ (hG' x hx)
  exact (watched_of_rests hrest).trans (hR _ _ _ hR')

theorem Query.watched {G : Prog.Guard} {r : Except ε α} (h : m.Query ev G c fl r)
    (hG : ∀ fl o, G fl o → W.allows g fl o ∧ W.next g o = g) :
    m.Watched W ev g c fl Q ↔ Q g r c fl :=
  watched_of_wp h hG fun _ _ _ ⟨hr, hc, hf⟩ => hr ▸ hc ▸ hf ▸ Iff.rfl

theorem watched_pure (a : α) : (pure a : FlashM σ ε α).Watched W ev g c fl Q ↔ Q g (.ok a) c fl :=
  and_iff_right trivial

theorem watched_fail (e : ε) : (fail e : FlashM σ ε α).Watched W ev g c fl Q ↔ Q g (.error e) c fl :=
  and_iff_right trivial

theorem watched_ofExcept (r : Except ε α) :
    (ofExcept r : FlashM σ ε α).Watched W ev g c fl Q ↔ Q g r c fl := and_iff_right trivial

theorem watched_get {Q : γ → Except ε σ → σ → Flash → Prop} :
    (get : FlashM σ ε σ).Watched W ev g c fl Q ↔ Q g (.ok c) c fl := and_iff_right trivial

theorem watched_modify (h : σ → σ) {Q : γ → Except ε Unit → σ → Flash → Prop} :
    (modify h : FlashM σ ε Unit).Watched W ev g c fl Q ↔ Q g (.ok ()) (h c) fl := and_iff_right trivial

theorem watched_issue {o : Op} {e : ε} {Q : γ → Except ε (List UInt8) → σ → Flash → Prop} :
    (issue o e : FlashM σ ε _).Watched W ev g c fl Q ↔
      W.allows g fl o ∧ Q (W.next g o) (.ok (fl.reply ev o)) c (fl.apply o) :=
  and_congr_left' (and_iff_left trivial)

theorem get_bind_watched {k : σ → FlashM σ ε β} {Q : γ → Except ε β → σ → Flash → Prop} :
    (get >>= k).Watched W ev g c fl Q ↔ (k c).Watched W ev g c fl Q := watched_bind.trans watched_get

theorem modify_bind_watched {h : σ → σ} {d : σ} {k : Unit → FlashM σ ε β}
    {Q : γ → Except ε β → σ → Flash → Prop} (hc : h c = d) :
    (modify h >>= k).Watched W ev g c fl Q ↔ (k ()).Watched W ev g d fl Q := by
  subst hc
  exact watched_bind.trans (watched_modify h)

theorem Query.bind_watched {G : Prog.Guard} {a : α} {Q : γ → Except ε β → σ → Flash → Prop}
    (h : m.Query ev G c fl (.ok a)) (hG : ∀ fl o, G fl o → W.allows g fl o ∧ W.next g o = g) :
    (m >>= f).Watched W ev g c fl Q ↔ (f a).Watched W ev g c fl Q :=
  watched_bind.trans (h.watched hG)

theorem Query.bind_watched_error {G : Prog.Guard} {e : ε}
    {Q : γ → Except ε β → σ → Flash → Prop} (h : m.Query ev G c fl (.error e))
    (hG : ∀ fl o, G fl o → W.allows g fl o ∧ W.next g o = g) :
    (m >>= f).Watched W ev g c fl Q ↔ Q g (.error e) c fl :=
  watched_bind.trans (h.watched hG)

theorem issue_bind_watched {o : Op} {e : ε} {k : List UInt8 → FlashM σ ε β}
    {Q : γ → Except ε β → σ → Flash → Prop} :
    (issue o e >>= k).Watched W ev g c fl Q ↔ W.allows g fl o ∧
      (k (fl.reply ev o)).Watched W ev (W.next g o) c (fl.apply o) Q :=
  watched_bind.trans watched_issue

theorem trace_attempt (m : FlashM σ ε α) (ev : UInt8) (c : σ) (fl : Flash) :
    m.attempt.trace ev c fl = m.trace ev c fl := by
  unfold trace attempt
  rw [Prog.trace_bind]
  exact List.append_nil _

theorem watched_attempt {Q : γ → Except ε (Except ε α) → σ → Flash → Prop} :
    m.attempt.Watched W ev g c fl Q ↔
      m.Watched W ev g c fl fun g' r c' fl' => Q g' (.ok r) c' fl' := by
  unfold Watched
  rw [trace_attempt, run_attempt]

theorem run_failAs (m : FlashM σ ε α) (e : ε) (ev : UInt8) (c : σ) (fl : Flash) :
    (m.failAs e).run ev c fl = ⟨(m.run ev c fl).status.mapError fun _ => e, (m.run ev c fl).ctx,
      (m.run ev c fl).flash⟩ := by
  unfold run failAs
  rw [Prog.run_bind]
  generalize (m c).run ev fl = out
  obtain ⟨⟨r, c'⟩, fl'⟩ := out
  cases r <;> rfl

theorem watched_failAs {e : ε} : (m.failAs e).Watched W ev g c fl Q ↔
    m.Watched W ev g c fl fun g' r c' fl' => Q g' (r.mapError fun _ => e) c' fl' := by
  unfold Watched
  rw [trace_failAs, run_failAs]

end FlashM
end NorFlash
