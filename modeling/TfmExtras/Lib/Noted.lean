import TfmExtras.Lib.AnyReply

/-! Calls that keep notes. The notes stand beside the context; a call that keeps them issues the
operations of the call that does not, and leaves what that one leaves. -/

namespace NorFlash
namespace FlashM
variable {σ ε α β γ : Type}

/-- A call that takes no notes. -/
def silent (m : FlashM σ ε α) : FlashM (σ × List γ) ε α := fun s =>
  (m s.1).bind fun r => .pure (r.1, (r.2, s.2))

def note (xs : List γ) : FlashM (σ × List γ) ε Unit := modify fun s => (s.1, s.2 ++ xs)

/-- Without its notes, the first call is the second one. -/
def Notes (m' : FlashM (σ × List γ) ε α) (m : FlashM σ ε α) : Prop :=
  ∀ s, (m' s).bind (fun r => .pure (r.1, r.2.1)) = m s.1

variable {m' : FlashM (σ × List γ) ε α} {m : FlashM σ ε α}
variable {f' : α → FlashM (σ × List γ) ε β} {f : α → FlashM σ ε β}

theorem notes_silent (m : FlashM σ ε α) : Notes (silent m : FlashM (σ × List γ) ε α) m := fun _ =>
  (Prog.bind_assoc _ _ _).trans (Prog.bind_pure _)

theorem notes_pure (a : α) : Notes (pure a : FlashM (σ × List γ) ε α) (pure a) := fun _ => rfl

theorem Notes.bind (h : Notes m' m) (hf : ∀ a, Notes (f' a) (f a)) :
    Notes (m' >>= f') (m >>= f) := by
  intro s
  rw [bind_apply, bind_apply, ← h s, Prog.bind_assoc, Prog.bind_assoc]
  refine congrArg (Prog.bind (m' s)) (funext ?_)
  rintro ⟨r, s'⟩
  cases r with
  | ok a => exact hf a s'
  | error e => rfl

theorem notes_note_bind {k : Unit → FlashM (σ × List γ) ε α} {xs : List γ}
    (h : Notes (k ()) m) : Notes (note xs >>= k) m := fun s => h (s.1, s.2 ++ xs)

theorem Notes.attempt (h : Notes m' m) : Notes m'.attempt m.attempt := by
  intro s
  unfold FlashM.attempt
  rw [← h s, Prog.bind_assoc, Prog.bind_assoc]
  rfl

theorem Notes.failAs {e : ε} (h : Notes m' m) : Notes (m'.failAs e) (m.failAs e) := by
  intro s
  unfold FlashM.failAs
  rw [← h s, Prog.bind_assoc, Prog.bind_assoc]
  refine congrArg (Prog.bind (m' s)) (funext ?_)
  rintro ⟨r, s'⟩
  cases r <;> rfl

theorem Notes.ite {p : Prop} [Decidable p] {n' : FlashM (σ × List γ) ε α} {n : FlashM σ ε α}
    (h : Notes m' m) (h' : Notes n' n) : Notes (if p then m' else n') (if p then m else n) := by
  split_ifs
  · exact h
  · exact h'

/-- A step that is only made under a condition, before a common rest. -/
theorem Notes.ite_bind {p : Prop} [Decidable p] {n' : FlashM (σ × List γ) ε Unit}
    {n : FlashM σ ε Unit} {k' : Unit → FlashM (σ × List γ) ε α} {k : Unit → FlashM σ ε α}
    (h : Notes n' n) (hk : Notes (k' ()) (k ())) :
    Notes (if p then n' >>= k' else k' ()) (if p then n >>= k else k ()) :=
  .ite (h.bind fun _ => hk) hk

/-! ## Runs with notes -/

variable {ev : UInt8} {G : Prog.Guard} {s : σ × List γ} {fl : Flash}

theorem Notes.trace_eq (h : Notes m' m) (ev : UInt8) (s : σ × List γ) (fl : Flash) :
    m'.trace ev s fl = m.trace ev s.1 fl := by
  unfold trace
  rw [← h s, Prog.trace_bind]
  exact (List.append_nil _).symm

/-- The run with notes leaves the status, the context and the flash of the run without. -/
theorem Notes.run_eq (h : Notes m' m) (ev : UInt8) (s : σ × List γ) (fl : Flash) :
    m.run ev s.1 fl = ⟨(m'.run ev s fl).status, (m'.run ev s fl).ctx.1, (m'.run ev s fl).flash⟩ := by
  unfold run
  rw [← h s, Prog.run_bind]
  rfl

theorem wp_silent {Q : Post (σ × List γ) ε α} : (silent m).wp ev G s fl Q ↔
    m.wp ev G s.1 fl fun r c' fl' => Q r (c', s.2) fl' := by
  unfold FlashM.wp silent
  exact Prog.wp_bind _ _

theorem note_bind_wp {xs : List γ} {k : Unit → FlashM (σ × List γ) ε α} {Q : Post (σ × List γ) ε α}
    (h : (k ()).wp ev G (s.1, s.2 ++ xs) fl Q) : (note xs >>= k).wp ev G s fl Q :=
  modify_bind_wp rfl h

theorem within_silent {A : Op → Prop} {Q : Except ε α → σ × List γ → Prop}
    (h : m.Within A s.1 fun r c' => Q r (c', s.2)) : (silent m).Within A s Q :=
  Prog.Within.bind h fun _ hr => .pure hr

theorem silent_wp_bind {f : α → FlashM (σ × List γ) ε β} {Q₀ : Post σ ε α}
    {Q : Post (σ × List γ) ε β} (h : m.wp ev G s.1 fl Q₀)
    (hok : ∀ a c' fl', Q₀ (.ok a) c' fl' → (f a).wp ev G (c', s.2) fl' Q)
    (herr : ∀ e c' fl', Q₀ (.error e) c' fl' → Q (.error e) (c', s.2) fl') :
    (silent m >>= f).wp ev G s fl Q := by
  refine wp_bind.mpr (wp_silent.mpr (wp_post h fun r c' fl' hr => ?_))
  cases r with
  | ok a => exact hok a c' fl' hr
  | error e => exact herr e c' fl' hr

theorem silent_query_wp {r : Except ε α} {Q : Post (σ × List γ) ε α} (h : m.Query ev G s.1 fl r)
    (hQ : Q r s fl) : (silent m).wp ev G s fl Q := wp_silent.mpr (h.wp hQ)

/-! ## Calls without notes before the rest -/

variable {A : Op → Prop} {k : α → FlashM (σ × List γ) ε β}

theorem silent_bind_within {Q₀ : Except ε α → σ → Prop} {Q : Except ε β → σ × List γ → Prop}
    (h : m.Within A s.1 Q₀) (hok : ∀ a c', Q₀ (.ok a) c' → (k a).Within A (c', s.2) Q)
    (herr : ∀ e c', Q₀ (.error e) c' → Q (.error e) (c', s.2)) :
    (silent m >>= k).Within A s Q := by
  refine Within.bind (Q := fun r s' => Q₀ r s'.1 ∧ s'.2 = s.2) (within_silent (h.mono fun _ _ hr =>
    ⟨hr, rfl⟩)) ?_ ?_
  · rintro a ⟨c', xs⟩ ⟨hr, rfl⟩
    exact hok a c' hr
  · rintro e ⟨c', xs⟩ ⟨hr, rfl⟩
    exact herr e c' hr

theorem silent_passes_bind {Q : Except ε β → σ × List γ → Prop} (h : m.Passes A s.1)
    (hk : ∀ a, (k a).Within A s Q) : (silent m >>= k).Within A s Q := by
  refine silent_bind_within h ?_ ?_
  · rintro a c' ⟨-, rfl⟩
    exact hk a
  · rintro e c' ⟨⟨a, ha⟩, -⟩
    cases ha

/-- A step that is only made under a condition, before a common rest. -/
theorem silent_ite_bind {p : Prop} [Decidable p] {m : FlashM σ ε Unit}
    {k : Unit → FlashM (σ × List γ) ε β} {Q : Except ε β → σ × List γ → Prop}
    (h : p → m.Passes A s.1) (hk : (k ()).Within A s Q) :
    (if p then silent m >>= k else k ()).Within A s Q :=
  .ite (fun hp => silent_passes_bind (h hp) fun _ => hk) fun _ => hk

theorem silent_get_bind_within {k : σ → FlashM (σ × List γ) ε β}
    {Q : Except ε β → σ × List γ → Prop} (h : (k s.1).Within A s Q) :
    (silent get >>= k).Within A s Q := h

theorem silent_stays_bind {Q : Except ε β → σ × List γ → Prop} (h : m.Stays A s.1)
    (hk : ∀ a, (k a).Within A s Q) (he : ∀ e, Q (.error e) s) : (silent m >>= k).Within A s Q := by
  refine silent_bind_within h ?_ ?_
  · rintro a c' rfl
    exact hk a
  · rintro e c' rfl
    exact he e

/-- A check before the rest, which goes on when it is passed. -/
theorem silent_failIf_bind {p : Prop} [Decidable p] {e : ε} {k : Unit → FlashM (σ × List γ) ε β}
    {Q : Except ε β → σ × List γ → Prop} (hk : ¬ p → (k ()).Within A s Q) (he : Q (.error e) s) :
    (silent (failIf p e) >>= k).Within A s Q := by
  unfold failIf
  split_ifs with hp
  · exact .pure he
  · exact hk hp

theorem silent_checkAs_bind {r : Except ε α} {e : ε} {Q : Except ε β → σ × List γ → Prop}
    (hk : ∀ a, r = .ok a → (k a).Within A s Q) (he : Q (.error e) s) :
    (silent ((ofExcept r).failAs e) >>= k).Within A s Q := by
  cases r with
  | ok a => exact hk a rfl
  | error _ => exact .pure he

theorem silent_query_bind {r : Except ε α} {Q : Post (σ × List γ) ε β}
    (h : m.Query ev G s.1 fl r) (hok : ∀ a, r = .ok a → (k a).wp ev G s fl Q)
    (herr : ∀ e, r = .error e → Q (.error e) s fl) : (silent m >>= k).wp ev G s fl Q := by
  refine wp_bind.mpr (wp_silent.mpr (h.wp ?_))
  cases r with
  | ok a => exact hok a rfl
  | error e => exact herr e rfl

theorem note_bind_within {A : Op → Prop} {xs : List γ} {k : Unit → FlashM (σ × List γ) ε α}
    {Q : Except ε α → σ × List γ → Prop} (h : (k ()).Within A (s.1, s.2 ++ xs) Q) :
    (note xs >>= k).Within A s Q := modify_bind_within rfl h

end FlashM
end NorFlash
