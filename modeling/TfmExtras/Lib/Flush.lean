import TfmExtras.Lib.FlashFault

/-! Flash devices that buffer one block: a block that was written is flushed before another one is
written, and before the call that wrote it succeeds. -/

namespace NorFlash

/-- Between a write to a block and a later write to another one, the first block is flushed. -/
def FlushedBetween (ops : List Op) : Prop :=
  ∀ pre mid post b o data b' o' data',
    ops = pre ++ .write b o data :: (mid ++ .write b' o' data' :: post) → b' ≠ b → .flush b ∈ mid

/-- Every block that is written is flushed later on. -/
def FlushedAtEnd (ops : List Op) : Prop :=
  ∀ pre post b o data, ops = pre ++ .write b o data :: post → .flush b ∈ post

/-! ## The block that is not flushed yet -/

/-- The block that is left unflushed; there is no answer once another block is written. -/
def Op.flushStep (d : Option Nat) : Op → Option (Option Nat)
  | .write b _ _ => if d = none ∨ d = some b then some (some b) else none
  | .flush b => some (if d = some b then none else d)
  | _ => some d

def flushRun (d : Option Nat) (ops : List Op) : Option (Option Nat) := ops.foldlM Op.flushStep d

/-- Block `b` is flushed before a write to another block. -/
def FlushedFor (b : Nat) (ops : List Op) : Prop :=
  ∀ mid post b' o' data', ops = mid ++ .write b' o' data' :: post → b' ≠ b → .flush b ∈ mid

section Lists
variable {b : Nat} {d d' : Option Nat} {o : Op} {ops : List Op}

theorem flushedFor_nil : FlushedFor b [] := by
  intro mid post b' o' data' he
  cases mid <;> cases he

theorem flushedFor_cons : FlushedFor b (o :: ops) ↔
    (∀ b' off data, o = .write b' off data → b' = b) ∧ (o = .flush b ∨ FlushedFor b ops) := by
  constructor
  · intro h
    constructor
    · intro b' off data ho
      by_contra hne
      exact List.not_mem_nil (h [] ops b' off data (by rw [ho]; rfl) hne)
    · by_cases ho : o = .flush b
      · exact .inl ho
      · refine .inr fun mid post b' o' data' he hne => ?_
        have hm := h (o :: mid) post b' o' data' (congrArg (o :: ·) he) hne
        exact (List.mem_cons.mp hm).resolve_left (Ne.symm ho)
  · rintro ⟨hw, ho⟩ mid post b' o' data' he hne
    cases mid with
    | nil =>
      have hhead := (List.cons.inj he).1
      exact absurd (hw b' o' data' hhead) hne
    | cons x mid =>
      obtain ⟨rfl, htail⟩ := List.cons.inj he
      rcases ho with rfl | ho
      · exact List.mem_cons_self ..
      · exact List.mem_cons_of_mem _ (ho mid post b' o' data' htail hne)

theorem flushedBetween_nil : FlushedBetween [] := by
  intro pre mid post b o data b' o' data' he
  cases pre <;> cases he

theorem flushedBetween_cons : FlushedBetween (o :: ops) ↔
    (∀ b off data, o = .write b off data → FlushedFor b ops) ∧ FlushedBetween ops := by
  constructor
  · intro h
    constructor
    · rintro b off data rfl mid post b' o' data' rfl hne
      exact h [] mid post b off data b' o' data' rfl hne
    · rintro pre mid post b off data b' o' data' rfl hne
      exact h (o :: pre) mid post b off data b' o' data' rfl hne
  · rintro ⟨hw, h⟩ pre mid post b off data b' o' data' he hne
    cases pre with
    | nil =>
      obtain ⟨rfl, rfl⟩ := List.cons.inj he
      exact hw b off data rfl mid post b' o' data' rfl hne
    | cons x pre =>
      exact h pre mid post b off data b' o' data' (List.cons.inj he).2 hne

theorem flushedAtEnd_nil : FlushedAtEnd [] := by
  intro pre post b o data he
  cases pre <;> cases he

theorem flushedAtEnd_cons : FlushedAtEnd (o :: ops) ↔
    (∀ b off data, o = .write b off data → .flush b ∈ ops) ∧ FlushedAtEnd ops := by
  constructor
  · intro h
    constructor
    · rintro b off data rfl
      exact h [] ops b off data rfl
    · rintro pre post b off data rfl
      exact h (o :: pre) post b off data rfl
  · rintro ⟨hw, h⟩ pre post b off data he
    cases pre with
    | nil =>
      obtain ⟨rfl, rfl⟩ := List.cons.inj he
      exact hw b off data rfl
    | cons x pre => exact h pre post b off data (List.cons.inj he).2

theorem flushRun_cons (d : Option Nat) (o : Op) (ops : List Op) :
    flushRun d (o :: ops) = (o.flushStep d).bind fun d' => flushRun d' ops := rfl

theorem flushRun_append (d : Option Nat) (ops ops' : List Op) :
    flushRun d (ops ++ ops') = (flushRun d ops).bind fun d' => flushRun d' ops' :=
  List.foldlM_append

/-- The run goes through when no block is written while another one is unflushed. -/
theorem flushRun_isSome_iff (d : Option Nat) (ops : List Op) : (flushRun d ops).isSome ↔
    (∀ b, d = some b → FlushedFor b ops) ∧ FlushedBetween ops := by
  induction ops generalizing d with
  | nil => exact iff_of_true rfl ⟨fun _ _ => flushedFor_nil, flushedBetween_nil⟩
  | cons o ops ih =>
    cases o with
    | write b off data =>
      rw [flushRun_cons, flushedBetween_cons]
      by_cases hd : d = none ∨ d = some b
      · rw [Op.flushStep, if_pos hd]
        refine (ih (some b)).trans ?_
        constructor
        · rintro ⟨hb, h⟩
          have hb := hb b rfl
          refine ⟨fun b' hb' => flushedFor_cons.mpr ?_, fun b' _ _ he => ?_, h⟩
          · obtain rfl : b = b' := by
              rcases hd with hd | hd
              · rw [hd] at hb'
                cases hb'
              · exact Option.some.inj (hd.symm.trans hb')
            exact ⟨fun _ _ _ he => ((Op.write.inj he).1).symm, .inr hb⟩
          · obtain ⟨rfl, _⟩ := Op.write.inj he
            exact hb
        · rintro ⟨_, hw, h⟩
          refine ⟨fun b' hb' => ?_, h⟩
          obtain rfl := Option.some.inj hb'
          exact hw b off data rfl
      · rw [Op.flushStep, if_neg hd]
        refine iff_of_false (fun h => Bool.false_ne_true h) fun h => ?_
        rw [not_or] at hd
        obtain ⟨b', hb'⟩ := Option.ne_none_iff_exists'.mp hd.1
        have he := (flushedFor_cons.mp (h.1 b' hb')).1 b off data rfl
        exact hd.2 (hb'.trans (congrArg some he.symm))
    | flush b =>
      have hother : FlushedBetween (.flush b :: ops) ↔ FlushedBetween ops := by
        rw [flushedBetween_cons]
        exact and_iff_right fun _ _ _ he => nomatch he
      rw [flushRun_cons, Op.flushStep, hother]
      refine (ih _).trans (and_congr_left fun _ => ?_)
      split_ifs with hd
      · refine iff_of_true (fun b' hb' => nomatch hb') fun b' hb' => flushedFor_cons.mpr ?_
        rw [hd] at hb'
        exact ⟨fun _ _ _ he => (nomatch he), .inl (congrArg Op.flush (Option.some.inj hb'))⟩
      · refine forall₂_congr fun b' hb' => ?_
        rw [flushedFor_cons]
        constructor
        · exact fun h => ⟨fun _ _ _ he => (nomatch he), .inr h⟩
        · rintro ⟨_, he | h⟩
          · exact absurd (hb'.trans (congrArg some (Op.flush.inj he).symm)) hd
          · exact h
    | _ =>
      rw [flushRun_cons, flushedBetween_cons]
      simp only [Op.flushStep, Option.bind_some, ih, flushedFor_cons, reduceCtorEq, false_or,
        IsEmpty.forall_iff, implies_true, true_and]

/-- A run that goes through leaves no block unflushed when every write is followed by a flush. -/
theorem flushRun_eq_none_iff (h : flushRun d ops = some d') : d' = none ↔
    (∀ b, d = some b → .flush b ∈ ops) ∧ FlushedAtEnd ops := by
  induction ops generalizing d with
  | nil =>
    obtain rfl : d = d' := Option.some.inj h
    refine ⟨fun hd => ⟨fun b hb => ?_, flushedAtEnd_nil⟩, fun hd => ?_⟩
    · rw [hd] at hb
      cases hb
    · cases d with
      | none => rfl
      | some b => exact absurd (hd.1 b rfl) List.not_mem_nil
  | cons o ops ih =>
    rw [flushRun_cons] at h
    rw [flushedAtEnd_cons]
    cases o with
    | write b off data =>
      by_cases hd : d = none ∨ d = some b
      · rw [Op.flushStep, if_pos hd] at h
        refine (ih h).trans ?_
        simp only [List.mem_cons, reduceCtorEq, false_or, Op.write.injEq]
        constructor
        · rintro ⟨hb, he⟩
          refine ⟨fun b' hb' => ?_, fun b' _ _ hw => hb b' (congrArg some hw.1), he⟩
          rcases hd with hd | hd
          · rw [hd] at hb'
            cases hb'
          · exact hb b' (hd.symm.trans hb')
        · rintro ⟨_, hw, he⟩
          exact ⟨fun b' hb' => hw b' off data ⟨Option.some.inj hb', rfl, rfl⟩, he⟩
      · rw [Op.flushStep, if_neg hd] at h
        cases h
    | flush b =>
      refine (ih h).trans ?_
      simp only [List.mem_cons, reduceCtorEq, Op.flush.injEq, IsEmpty.forall_iff, implies_true,
        true_and]
      refine and_congr_left fun _ => ?_
      split_ifs with hd
      · refine iff_of_true (fun b' hb' => nomatch hb') fun b' hb' => .inl ?_
        exact Option.some.inj (hb'.symm.trans hd)
      · refine forall₂_congr fun b' hb' => ?_
        constructor
        · exact .inr
        · rintro (rfl | hm)
          · exact absurd hb' hd
          · exact hm
    | _ =>
      refine (ih h).trans ?_
      simp only [List.mem_cons, reduceCtorEq, false_or, IsEmpty.forall_iff, implies_true, true_and]

end Lists

/-! ## Calls from any block that is left unflushed -/

/-- Whatever the device replies, the program writes no block while another one is unflushed, and
ends in `Q`. -/
def Prog.Flushes {α : Type} (Q : α → Option Nat → Prop) : Prog α → Option Nat → Prop
  | .pure a, d => Q a d
  | .op o k, d => ∃ d', o.flushStep d = some d' ∧ ∀ r, (k r).Flushes Q d'

namespace Prog
variable {α β : Type} {Q Q' : α → Option Nat → Prop} {p : Prog α} {d : Option Nat}

theorem Flushes.mono (h : p.Flushes Q d) (hQ : ∀ a d, Q a d → Q' a d) : p.Flushes Q' d := by
  induction p generalizing d with
  | pure a => exact hQ a d h
  | op o k ih =>
    obtain ⟨d', hd, hk⟩ := h
    exact ⟨d', hd, fun r => ih r (hk r)⟩

theorem Flushes.bind {f : α → Prog β} {R : β → Option Nat → Prop} (h : p.Flushes Q d)
    (hf : ∀ a d, Q a d → (f a).Flushes R d) : (p.bind f).Flushes R d := by
  induction p generalizing d with
  | pure a => exact hf a d h
  | op o k ih =>
    obtain ⟨d', hd, hk⟩ := h
    exact ⟨d', hd, fun r => ih r (hk r)⟩

/-- What holds whatever the device replies holds in the run. -/
theorem Flushes.run (h : p.Flushes Q d) (ev : UInt8) (fl : Flash) :
    ∃ d', flushRun d ((p.trace ev fl).map Prod.snd) = some d' ∧ Q (p.run ev fl).1 d' := by
  induction p generalizing d fl with
  | pure a => exact ⟨d, rfl, h⟩
  | op o k ih =>
    obtain ⟨d₁, hd, hk⟩ := h
    obtain ⟨d', hr, hQ⟩ := ih (some (fl.reply ev o)) (hk _) (fl.apply o)
    refine ⟨d', ?_, hQ⟩
    show flushRun d (o :: _) = some d'
    rw [flushRun_cons, hd]
    exact hr

/-- A program that only reads leaves the same block unflushed. -/
theorem Settles.flushes {L : α → Prop} (h : p.Settles L) (d : Option Nat) :
    p.Flushes (fun a d' => L a ∧ d' = d) d := by
  induction h with
  | pure h => exact ⟨h, rfl⟩
  | read _ ih => exact ⟨d, rfl, ih⟩

end Prog

namespace FlashM
variable {σ ε α β : Type} {ev : UInt8} {c c' : σ} {fl fl' : Flash} {a : α} {e : ε} {d d' : Option Nat}
variable {m : FlashM σ ε α} {f : α → FlashM σ ε β}

/-- The operations of a run. -/
def ops (ev : UInt8) (m : FlashM σ ε α) (c : σ) (fl : Flash) : List Op :=
  (m.trace ev c fl).map Prod.snd

/-- The block that a run leaves unflushed. -/
def unflushed (ev : UInt8) (m : FlashM σ ε α) (c : σ) (fl : Flash) (d : Option Nat) :
    Option (Option Nat) := flushRun d (m.ops ev c fl)

/-- The flash operations of a run keep the flush protocol. -/
structure FlushKept (ev : UInt8) (m : FlashM σ ε α) (c : σ) (fl : Flash) : Prop where
  between : FlushedBetween (m.ops ev c fl)
  atEnd : (m.run ev c fl).status.isOk → FlushedAtEnd (m.ops ev c fl)

theorem flushKept_iff : FlushKept ev m c fl ↔ ∃ d, m.unflushed ev c fl none = some d ∧
    ((m.run ev c fl).status.isOk → d = none) := by
  have hnone : ∀ P : Nat → Prop, ∀ b, (none : Option Nat) = some b → P b := fun P b hb => nomatch hb
  constructor
  · rintro ⟨hb, he⟩
    obtain ⟨d, hd⟩ := Option.isSome_iff_exists.mp ((flushRun_isSome_iff none _).mpr ⟨hnone _, hb⟩)
    exact ⟨d, hd, fun hs => (flushRun_eq_none_iff hd).mpr ⟨hnone _, he hs⟩⟩
  · rintro ⟨d, hd, hs⟩
    have hsome := (flushRun_isSome_iff none _).mp (Option.isSome_iff_exists.mpr ⟨d, hd⟩)
    exact ⟨hsome.2, fun hok => ((flushRun_eq_none_iff hd).mp (hs hok)).2⟩

theorem not_flushKept (h : m.unflushed ev c fl none = none) : ¬ FlushKept ev m c fl := fun hk => by
  obtain ⟨d, hd, _⟩ := flushKept_iff.mp hk
  rw [h] at hd
  cases hd

theorem unflushed_seq (hr : m.run ev c fl = ⟨.ok a, c', fl'⟩)
    (hd : m.unflushed ev c fl d = some d') :
    (m >>= f).unflushed ev c fl d = (f a).unflushed ev c' fl' d' := by
  have hs : (m.run ev c fl).status = .ok a := by rw [hr]
  unfold unflushed ops at hd ⊢
  rw [trace_bind_ok hs, List.map_append, flushRun_append, hd, hr]
  rfl

theorem unflushed_seq_error (hr : m.run ev c fl = ⟨.error e, c', fl'⟩) :
    (m >>= f).unflushed ev c fl d = m.unflushed ev c fl d := by
  unfold unflushed ops
  rw [trace_bind_error (show (m.run ev c fl).status = .error e by rw [hr])]

theorem flushKept_seq_error (hr : m.run ev c fl = ⟨.error e, c', fl'⟩)
    (hd : m.unflushed ev c fl none = some d) : FlushKept ev (m >>= f) c fl := by
  refine flushKept_iff.mpr ⟨d, (unflushed_seq_error hr).trans hd, fun hok => ?_⟩
  rw [run_bind_error (show (m.run ev c fl).status = .error e by rw [hr])] at hok
  exact absurd hok Bool.false_ne_true

/-- Once a block was written in the wrong order, the rest does not matter. -/
theorem unflushed_stuck (h : m.unflushed ev c fl d = none) :
    (m >>= f).unflushed ev c fl d = none := by
  unfold unflushed ops trace at h ⊢
  rw [bind_apply, Prog.trace_bind, List.map_append, flushRun_append, h]
  rfl

theorem unflushed_failAs (m : FlashM σ ε α) (e : ε) :
    (m.failAs e).unflushed ev c fl d = m.unflushed ev c fl d := by
  unfold unflushed ops
  rw [trace_failAs]

theorem Reads.unflushed (h : m.Reads c) : m.unflushed ev c fl d = some d := by
  obtain ⟨d', hd, _, rfl⟩ := (Prog.Settles.flushes h d).run ev fl
  exact hd

/-- A call that only reads, before the rest. -/
theorem Reads.unflushed_seq (h : m.Reads c) {G : Prog.Guard} (hq : m.Query ev G c fl (.ok a)) :
    (m >>= f).unflushed ev c fl d = (f a).unflushed ev c fl d :=
  FlashM.unflushed_seq hq.run_eq h.unflushed

/-! ## Rules -/

def Flushes (m : FlashM σ ε α) (c : σ) (d : Option Nat)
    (Q : Except ε α → σ → Option Nat → Prop) : Prop :=
  (m c).Flushes (fun r => Q r.1 r.2) d

variable {Q Q' : Except ε α → σ → Option Nat → Prop}

theorem Flushes.mono (h : m.Flushes c d Q) (hQ : ∀ r c d, Q r c d → Q' r c d) :
    m.Flushes c d Q' := Prog.Flushes.mono h fun r => hQ r.1 r.2

theorem Flushes.unflushed (h : m.Flushes c d Q) (ev : UInt8) (fl : Flash) :
    ∃ d', m.unflushed ev c fl d = some d' ∧ Q (m.run ev c fl).status (m.run ev c fl).ctx d' :=
  Prog.Flushes.run h ev fl

theorem Flushes.bind {R : Except ε β → σ → Option Nat → Prop} (h : m.Flushes c d Q)
    (hok : ∀ a c d, Q (.ok a) c d → (f a).Flushes c d R)
    (herr : ∀ e c d, Q (.error e) c d → R (.error e) c d) : (m >>= f).Flushes c d R := by
  refine Prog.Flushes.bind h ?_
  rintro ⟨r, c'⟩ d' hr
  cases r with
  | ok a => exact hok a c' d' hr
  | error e => exact herr e c' d' hr

theorem get_bind_flushes {k : σ → FlashM σ ε β} {R : Except ε β → σ → Option Nat → Prop}
    (h : (k c).Flushes c d R) : (get >>= k).Flushes c d R := h

theorem modify_bind_flushes {g : σ → σ} {k : Unit → FlashM σ ε β}
    {R : Except ε β → σ → Option Nat → Prop} (h : (k ()).Flushes (g c) d R) :
    (modify g >>= k).Flushes c d R := h

theorem flushes_issue {o : Op} {Q : Except ε (List UInt8) → σ → Option Nat → Prop}
    (ho : o.flushStep d = some d') (hok : ∀ bs, Q (.ok bs) c d') (herr : Q (.error e) c d') :
    (issue o e : FlashM σ ε _).Flushes c d Q := by
  refine ⟨d', ho, fun r => ?_⟩
  cases r with
  | none => exact herr
  | some bs => exact hok bs

/-- What holds when a call succeeds. -/
def IfOk (P : σ → Option Nat → Prop) (r : Except ε α) (c : σ) (d : Option Nat) : Prop :=
  r.isOk → P c d

/-- A call that succeeds leaves no block unflushed. -/
abbrev AllFlushed : Except ε α → σ → Option Nat → Prop := IfOk fun _ d => d = none

variable {P P' : σ → Option Nat → Prop}

theorem ifOk_error (e : ε) (c : σ) (d : Option Nat) : IfOk P (.error e : Except ε α) c d :=
  fun hr => absurd hr Bool.false_ne_true

theorem allFlushed_error (e : ε) (c : σ) (d : Option Nat) :
    AllFlushed (.error e : Except ε α) c d := ifOk_error e c d

theorem Flushes.bind_ok (h : m.Flushes c d (IfOk P))
    (hok : ∀ a c d, P c d → (f a).Flushes c d (IfOk P')) : (m >>= f).Flushes c d (IfOk P') :=
  h.bind (fun a c d hr => hok a c d (hr rfl)) fun e c d _ => ifOk_error e c d

/-- A call that only reads, before the rest. -/
theorem Reads.bind_flushes {R : Except ε β → σ → Option Nat → Prop} (h : m.Reads c)
    (hok : ∀ a, (f a).Flushes c d R) (herr : ∀ e, R (.error e) c d) : (m >>= f).Flushes c d R := by
  refine Prog.Flushes.bind (h.flushes d) ?_
  rintro ⟨r, c'⟩ d' ⟨hc, hd⟩
  obtain rfl : c' = c := hc
  subst hd
  cases r with
  | ok a => exact hok a
  | error e => exact herr e

theorem Flushes.failAs (h : m.Flushes c d (IfOk P)) : (m.failAs e).Flushes c d (IfOk P) := by
  refine Prog.Flushes.bind h ?_
  rintro ⟨r, c'⟩ d' hr
  cases r <;> exact hr

theorem Flushes.flushKept (h : m.Flushes c none AllFlushed) (ev : UInt8) (fl : Flash) :
    FlushKept ev m c fl := flushKept_iff.mpr (h.unflushed ev fl)

/-! ## Calls that go on -/

/-- The call goes on as `m'` does from another context, flash and unflushed block. -/
structure GoesOn (ev : UInt8) (m : FlashM σ ε α) (c : σ) (fl : Flash) (d : Option Nat)
    (m' : FlashM σ ε α) (c' : σ) (fl' : Flash) (d' : Option Nat) : Prop where
  run : m.run ev c fl = m'.run ev c' fl'
  unflushed : m.unflushed ev c fl d = m'.unflushed ev c' fl' d'

variable {m₁ m₂ : FlashM σ ε α}

theorem GoesOn.refl (ev : UInt8) (m : FlashM σ ε α) (c : σ) (fl : Flash) (d : Option Nat) :
    GoesOn ev m c fl d m c fl d := ⟨rfl, rfl⟩

theorem GoesOn.trans {c'' : σ} {fl'' : Flash} {d'' : Option Nat}
    (h : GoesOn ev m c fl d m₁ c' fl' d') (h' : GoesOn ev m₁ c' fl' d' m₂ c'' fl'' d'') :
    GoesOn ev m c fl d m₂ c'' fl'' d'' :=
  ⟨h.run.trans h'.run, h.unflushed.trans h'.unflushed⟩

theorem goesOn_seq (hr : m.run ev c fl = ⟨.ok a, c', fl'⟩)
    (hd : m.unflushed ev c fl d = some d') : GoesOn ev (m >>= f) c fl d (f a) c' fl' d' := by
  refine ⟨?_, unflushed_seq hr hd⟩
  rw [run_bind_ok (show (m.run ev c fl).status = .ok a by rw [hr]), hr]

theorem Reads.goesOn (h : m.Reads c) {G : Prog.Guard} (hq : m.Query ev G c fl (.ok a)) :
    GoesOn ev (m >>= f) c fl d (f a) c fl d := goesOn_seq hq.run_eq h.unflushed

theorem GoesOn.flushKept (h : GoesOn ev m c fl none m₁ c' fl' d')
    (hf : m₁.Flushes c' d' AllFlushed) : FlushKept ev m c fl := by
  obtain ⟨d₁, hd, hs⟩ := hf.unflushed ev fl'
  refine flushKept_iff.mpr ⟨d₁, h.unflushed.trans hd, fun hok => hs ?_⟩
  rwa [← h.run]

theorem GoesOn.not_flushKept (h : GoesOn ev m c fl none m₁ c' fl' d')
    (hn : m₁.unflushed ev c' fl' d' = none) : ¬ FlushKept ev m c fl :=
  FlashM.not_flushKept (h.unflushed.trans hn)

/-! ## Calls that write nothing -/

/-- Whatever the device replies, the call leaves the same block unflushed. -/
def Idle (m : FlashM σ ε α) : Prop := ∀ c d, m.Flushes c d fun _ _ d' => d' = d

theorem Idle.bind (h : m.Idle) (hf : ∀ a, (f a).Idle) : (m >>= f).Idle := by
  intro c d
  refine (h c d).bind (fun a c₁ d₁ hd => ?_) fun _ _ _ hd => hd
  subst hd
  exact hf a c₁ d₁

theorem Idle.failAs (h : m.Idle) : (m.failAs e).Idle := by
  intro c d
  refine Prog.Flushes.bind (h c d) ?_
  rintro ⟨r, c'⟩ d' hr
  cases r <;> exact hr

theorem Idle.attempt (h : m.Idle) : m.attempt.Idle :=
  fun c d => Prog.Flushes.bind (h c d) fun _ _ hr => hr

theorem idle_of_reads (h : ∀ c, m.Reads c) : m.Idle :=
  fun c d => Prog.Flushes.mono ((h c).flushes d) fun _ _ hr => hr.2

theorem idle_get : (get : FlashM σ ε σ).Idle := fun _ _ => rfl

theorem idle_modify (g : σ → σ) : (modify g : FlashM σ ε Unit).Idle := fun _ _ => rfl

theorem idle_init (e : ε) : (issue .init e : FlashM σ ε _).Idle :=
  fun _ _ => flushes_issue rfl (fun _ => rfl) rfl

theorem idle_erase (b : Nat) (e : ε) : (issue (.erase b) e : FlashM σ ε _).Idle :=
  fun _ _ => flushes_issue rfl (fun _ => rfl) rfl

theorem Idle.bind_flushes {R : Except ε β → σ → Option Nat → Prop} (h : m.Idle)
    (hok : ∀ a c, (f a).Flushes c d R) (herr : ∀ e c d, R (.error e) c d) :
    (m >>= f).Flushes c d R := by
  refine (h c d).bind (fun a c' d' hd => ?_) fun e c' d' _ => herr e c' d'
  subst hd
  exact hok a c'

theorem Idle.unflushed (h : m.Idle) : m.unflushed ev c fl d = some d := by
  obtain ⟨d', hd, rfl⟩ := (h c d).unflushed ev fl
  exact hd

/-- What follows a call and writes nothing. -/
theorem unflushed_seq_idle (hf : ∀ a, (f a).Idle) :
    (m >>= f).unflushed ev c fl d = m.unflushed ev c fl d := by
  cases hd : m.unflushed ev c fl d with
  | none => exact unflushed_stuck hd
  | some d' =>
    generalize hr : m.run ev c fl = out
    obtain ⟨r, c', fl'⟩ := out
    cases r with
    | ok a =>
      rw [unflushed_seq hr hd]
      exact (hf a).unflushed
    | error e => rw [unflushed_seq_error hr, hd]

/-! ## Calls that write one block -/

/-- Whatever the device replies, the call writes block `b` only, does not flush it, and keeps the
contexts in `I`. -/
def WritesTo (b : Nat) (I : σ → Prop) (m : FlashM σ ε α) : Prop :=
  ∀ c d, I c → d = none ∨ d = some b →
    m.Flushes c d fun _ c' d' => I c' ∧ (d' = d ∨ d' = some b)

variable {b : Nat} {I : σ → Prop}

theorem WritesTo.bind (h : m.WritesTo b I) (hf : ∀ a, (f a).WritesTo b I) :
    (m >>= f).WritesTo b I := by
  intro c d hc hd
  refine (h c d hc hd).bind (fun a c₁ d₁ h₁ => ?_) fun _ _ _ h₁ => h₁
  refine (hf a c₁ d₁ h₁.1 (h₁.2.elim (fun he => he ▸ hd) .inr)).mono ?_
  rintro _ c₂ d₂ ⟨hc₂, hd₂⟩
  refine ⟨hc₂, ?_⟩
  rcases hd₂ with rfl | rfl
  · exact h₁.2
  · exact .inr rfl

theorem writesTo_of_reads (h : ∀ c, m.Reads c) : m.WritesTo b I := by
  intro c d hc _
  refine Prog.Flushes.mono ((h c).flushes d) ?_
  rintro ⟨r, c'⟩ d' ⟨he, hd⟩
  obtain rfl : c' = c := he
  exact ⟨hc, .inl hd⟩

theorem writesTo_pure (a : α) : (pure a : FlashM σ ε α).WritesTo b I :=
  writesTo_of_reads (reads_pure a)

theorem writesTo_fail (e : ε) : (fail e : FlashM σ ε α).WritesTo b I :=
  writesTo_of_reads (reads_fail e)

theorem writesTo_ofExcept (r : Except ε α) : (ofExcept r : FlashM σ ε α).WritesTo b I :=
  writesTo_of_reads (reads_ofExcept r)

theorem writesTo_read (x o n : Nat) (e : ε) : (issue (.read x o n) e : FlashM σ ε _).WritesTo b I :=
  writesTo_of_reads (reads_issue x o n e)

theorem writesTo_write (o : Nat) (data : List UInt8) (e : ε) :
    (issue (.write b o data) e : FlashM σ ε _).WritesTo b I := by
  intro c d hc hd
  exact flushes_issue (if_pos hd) (fun _ => ⟨hc, .inr rfl⟩) ⟨hc, .inr rfl⟩

/-- The flush of another block. -/
theorem writesTo_flush {x : Nat} (hx : x ≠ b) (e : ε) :
    (issue (.flush x) e : FlashM σ ε _).WritesTo b I := by
  intro c d hc hd
  have hne : d ≠ some x := by
    intro he
    rcases hd with hd | hd
    · rw [hd] at he
      cases he
    · exact hx (Option.some.inj (he.symm.trans hd))
  exact flushes_issue (congrArg some (if_neg hne)) (fun _ => ⟨hc, .inl rfl⟩) ⟨hc, .inl rfl⟩

theorem writesTo_erase (x : Nat) (e : ε) : (issue (.erase x) e : FlashM σ ε _).WritesTo b I :=
  fun _ _ hc _ => flushes_issue rfl (fun _ => ⟨hc, .inl rfl⟩) ⟨hc, .inl rfl⟩

theorem get_bind_writesTo {k : σ → FlashM σ ε β} (h : ∀ c, I c → (k c).WritesTo b I) :
    (get >>= k).WritesTo b I := fun c d hc hd => h c hc c d hc hd

theorem modify_bind_writesTo {g : σ → σ} {k : Unit → FlashM σ ε β} (hg : ∀ c, I c → I (g c))
    (h : (k ()).WritesTo b I) : (modify g >>= k).WritesTo b I :=
  fun c d hc hd => h (g c) d (hg c hc) hd

theorem WritesTo.ite {p : Prop} [Decidable p] {m' : FlashM σ ε α} (h : p → m.WritesTo b I)
    (h' : ¬ p → m'.WritesTo b I) : (if p then m else m').WritesTo b I := by
  split_ifs with hp
  · exact h hp
  · exact h' hp

theorem WritesTo.failAs (h : m.WritesTo b I) : (m.failAs e).WritesTo b I := by
  intro c d hc hd
  refine Prog.Flushes.bind (h c d hc hd) ?_
  rintro ⟨r, c'⟩ d' hr
  cases r <;> exact hr

theorem WritesTo.attempt (h : m.WritesTo b I) : m.attempt.WritesTo b I :=
  fun c d hc hd => Prog.Flushes.bind (h c d hc hd) fun _ _ hr => hr

/-- After such a call the block is the only one that can be unflushed. -/
theorem WritesTo.unflushed (h : m.WritesTo b I) (hc : I c) (hd : d = none ∨ d = some b) (ev : UInt8)
    (fl : Flash) : ∃ d', m.unflushed ev c fl d = some d' ∧ I (m.run ev c fl).ctx ∧
      (d' = d ∨ d' = some b) := (h c d hc hd).unflushed ev fl

/-- What follows such a call. -/
theorem WritesTo.bind_flushes {R : Except ε β → σ → Option Nat → Prop} (h : m.WritesTo b I)
    (hc : I c) (hd : d = none ∨ d = some b)
    (hok : ∀ a c d, I c → d = none ∨ d = some b → (f a).Flushes c d R)
    (herr : ∀ e c d, R (.error e) c d) : (m >>= f).Flushes c d R := by
  refine (h c d hc hd).bind (fun a c' d' hr => hok a c' d' hr.1 ?_) fun e c' d' _ => herr e c' d'
  exact hr.2.elim (fun he => he ▸ hd) .inr

end FlashM
end NorFlash
