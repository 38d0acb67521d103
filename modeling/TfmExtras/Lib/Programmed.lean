import TfmExtras.Lib.FlashFault

/-! How often a cell is programmed: the writes of a run that cover it are counted, and a call is
said to program it when none of its runs succeeds without such a write. -/

namespace NorFlash

/-- A write that covers the cell at an offset of a block. -/
def Op.Programs (b o : Nat) : Op → Prop
  | .write b' off data => b' = b ∧ off ≤ o ∧ o < off + data.length
  | _ => False

instance (b o : Nat) (op : Op) : Decidable (op.Programs b o) := by
  cases op <;> unfold Op.Programs <;> infer_instance

namespace Flash

/-- A block that is not erased keeps what is programmed. -/
theorem cell_apply_ne_none {fl : Flash} {b o : Nat} {op : Op} (h : fl.cell b o ≠ none)
    (hop : op ≠ .erase b) : (fl.apply op).cell b o ≠ none := by
  cases op with
  | write b' off data =>
    rw [apply, cell_write]
    split_ifs
    · exact Option.some_ne_none _
    · exact h
  | erase b' =>
    have hb : b ≠ b' := fun hb => hop (hb ▸ rfl)
    rwa [apply, cell_erase, if_neg hb]
  | init => exact h
  | read _ _ _ => exact h
  | flush _ => exact h

theorem cell_apply_programs {fl : Flash} {b o : Nat} {op : Op} (h : op.Programs b o) :
    (fl.apply op).cell b o ≠ none := by
  cases op with
  | write b' off data =>
    obtain ⟨rfl, h₁, h₂⟩ := h
    rw [apply, cell_write, if_pos ⟨rfl, h₁, h₂⟩]
    exact Option.some_ne_none _
  | init => exact absurd h id
  | read _ _ _ => exact absurd h id
  | flush _ => exact absurd h id
  | erase _ => exact absurd h id

end Flash

namespace Prog
variable {α β : Type} {ev : UInt8} {b o : Nat}

/-- The writes of a run that cover the cell. -/
def programCount (ev : UInt8) (b o : Nat) (p : Prog α) (fl : Flash) : Nat :=
  (p.trace ev fl).countP fun x => x.2.Programs b o

theorem programCount_op (op : Op) (k : Option (List UInt8) → Prog α) (fl : Flash) :
    (Prog.op op k).programCount ev b o fl =
      (k (some (fl.reply ev op))).programCount ev b o (fl.apply op) +
        if op.Programs b o then 1 else 0 := by
  rw [programCount, trace, List.countP_cons]
  simp only [decide_eq_true_eq]
  rfl

theorem programCount_bind (p : Prog α) (f : α → Prog β) (fl : Flash) :
    (p.bind f).programCount ev b o fl = p.programCount ev b o fl +
      (f (p.run ev fl).1).programCount ev b o (p.run ev fl).2 := by
  rw [programCount, trace_bind, List.countP_append]
  rfl

/-- A run that programs the cell only when it is erased, and never erases it. -/
def Once (ev : UInt8) (b o : Nat) (p : Prog α) (fl : Flash) : Prop :=
  ∀ x ∈ p.trace ev fl, x.2 ≠ .erase b ∧ (x.2.Programs b o → x.1.cell b o = none)

theorem Once.programCount_eq_zero {p : Prog α} {fl : Flash} (h : p.Once ev b o fl)
    (hcell : fl.cell b o ≠ none) : p.programCount ev b o fl = 0 := by
  induction p generalizing fl with
  | pure a => rfl
  | op op k ih =>
    have hop := h (fl, op) (List.mem_cons_self ..)
    rw [programCount_op, if_neg fun hp => hcell (hop.2 hp), Nat.add_zero]
    exact ih _ (fun x hx => h x (List.mem_cons_of_mem _ hx))
      (Flash.cell_apply_ne_none hcell hop.1)

theorem Once.programCount_le_one {p : Prog α} {fl : Flash} (h : p.Once ev b o fl) :
    p.programCount ev b o fl ≤ 1 := by
  induction p generalizing fl with
  | pure a => exact Nat.zero_le 1
  | op op k ih =>
    have hrest : (k (some (fl.reply ev op))).Once ev b o (fl.apply op) :=
      fun x hx => h x (List.mem_cons_of_mem _ hx)
    rw [programCount_op]
    split_ifs with hp
    · rw [hrest.programCount_eq_zero (Flash.cell_apply_programs hp)]
    · exact ih _ hrest

end Prog

namespace FlashM
variable {σ ε α β : Type} {ev : UInt8} {b o : Nat} {m : FlashM σ ε α} {f : α → FlashM σ ε β}
  {c : σ} {fl : Flash} {Q : α → Prop} {Q' : β → Prop}

def programCount (ev : UInt8) (b o : Nat) (m : FlashM σ ε α) (c : σ) (fl : Flash) : Nat :=
  (m c).programCount ev b o fl

theorem programCount_bind_ok {a : α} (ha : (m.run ev c fl).status = .ok a) :
    (m >>= f).programCount ev b o c fl = m.programCount ev b o c fl +
      (f a).programCount ev b o (m.run ev c fl).ctx (m.run ev c fl).flash := by
  have hr : ((m c).run ev fl).1 = (.ok a, ((m c).run ev fl).1.2) := Prod.ext ha rfl
  unfold programCount
  rw [bind_apply, Prog.programCount_bind, hr]
  rfl

theorem status_bind_ok {x : β} (h : ((m >>= f).run ev c fl).status = .ok x) :
    ∃ a, (m.run ev c fl).status = .ok a ∧
      ((f a).run ev (m.run ev c fl).ctx (m.run ev c fl).flash).status = .ok x := by
  cases hm : (m.run ev c fl).status with
  | ok a => exact ⟨a, rfl, by rwa [run_bind_ok hm] at h⟩
  | error e =>
    rw [run_bind_error hm] at h
    cases h

theorem Steady.ctx_run (h : m.Steady c) (ev : UInt8) (fl : Flash) : (m.run ev c fl).ctx = c :=
  Prog.Stops.run h ev fl

/-! ## Calls that program a cell -/

/-- No run that returns a result in `Q` leaves the cell without a write. -/
def Programs (ev : UInt8) (b o : Nat) (m : FlashM σ ε α) (c : σ) (Q : α → Prop) : Prop :=
  ∀ fl a, (m.run ev c fl).status = .ok a → Q a → 0 < m.programCount ev b o c fl

theorem Programs.mono {Q₁ : α → Prop} (h : m.Programs ev b o c Q) (hQ : ∀ a, Q₁ a → Q a) :
    m.Programs ev b o c Q₁ :=
  fun fl a ha hq => h fl a ha (hQ a hq)

theorem programs_pure {a : α} (h : ¬ Q a) : (pure a : FlashM σ ε α).Programs ev b o c Q := by
  intro fl a' ha hq
  cases ha
  exact absurd hq h

theorem programs_fail (e : ε) : (fail e : FlashM σ ε α).Programs ev b o c Q := by
  intro fl a ha
  cases ha

theorem programs_write {off : Nat} {data : List UInt8} {e : ε} {Q : List UInt8 → Prop}
    (h₁ : off ≤ o) (h₂ : o < off + data.length) :
    (issue (.write b off data) e : FlashM σ ε _).Programs ev b o c Q := by
  intro fl a _ _
  have hp : Op.Programs b o (.write b off data) := ⟨rfl, h₁, h₂⟩
  show 0 < Prog.programCount ev b o _ fl
  rw [issue, Prog.programCount_op, if_pos hp]
  exact Nat.succ_pos _

theorem Programs.bind_left (h : m.Programs ev b o c fun _ => True) :
    (m >>= f).Programs ev b o c Q' := by
  intro fl x hx _
  obtain ⟨a, ha, _⟩ := status_bind_ok hx
  rw [programCount_bind_ok ha]
  exact Nat.add_pos_left (h fl a ha trivial) _

theorem Programs.bind_right (h : m.Steady c) (hf : ∀ a, (f a).Programs ev b o c Q') :
    (m >>= f).Programs ev b o c Q' := by
  intro fl x hx hq
  obtain ⟨a, ha, hx⟩ := status_bind_ok hx
  rw [programCount_bind_ok ha]
  rw [h.ctx_run] at hx ⊢
  exact Nat.add_pos_right _ (hf a _ x hx hq)

theorem Programs.bind_any (hf : ∀ a c, (f a).Programs ev b o c Q') :
    (m >>= f).Programs ev b o c Q' := by
  intro fl x hx hq
  obtain ⟨a, ha, hx⟩ := status_bind_ok hx
  rw [programCount_bind_ok ha]
  exact Nat.add_pos_right _ (hf a _ _ x hx hq)

/-- Where the first part programs the cell for some of its results only. -/
theorem Programs.bind (h : m.Programs ev b o c Q)
    (hf : ∀ a c, ¬ Q a → (f a).Programs ev b o c Q') : (m >>= f).Programs ev b o c Q' := by
  intro fl x hx hq
  obtain ⟨a, ha, hx⟩ := status_bind_ok hx
  rw [programCount_bind_ok ha]
  by_cases hqa : Q a
  · exact Nat.add_pos_left (h fl a ha hqa) _
  · exact Nat.add_pos_right _ (hf a _ hqa _ x hx hq)

/-- After a read, whose bytes are as many as it asked for. -/
theorem programs_read_bind {b' off n : Nat} {e : ε} {f : List UInt8 → FlashM σ ε β}
    (h : ∀ bs, bs.length = n → (f bs).Programs ev b o c Q') :
    (issue (.read b' off n) e >>= f).Programs ev b o c Q' := by
  intro fl x hx hq
  have hrun : ((issue (.read b' off n) e : FlashM σ ε _).run ev c fl).status =
      .ok (fl.read ev b' off n) := rfl
  rw [run_bind_ok hrun] at hx
  rw [programCount_bind_ok hrun]
  exact Nat.add_pos_right _ (h _ (Flash.read_length ..) _ x hx hq)

theorem programs_pure_bind {a : α} (h : (f a).Programs ev b o c Q') :
    (pure a >>= f).Programs ev b o c Q' := h

theorem programs_get_bind {f : σ → FlashM σ ε β} (h : (f c).Programs ev b o c Q') :
    (get >>= f).Programs ev b o c Q' := h

theorem programs_modify_bind {g : σ → σ} {f : Unit → FlashM σ ε β}
    (h : (f ()).Programs ev b o (g c) Q') : (modify g >>= f).Programs ev b o c Q' := h

theorem Programs.ite {p : Prop} [Decidable p] {m' : FlashM σ ε α}
    (h : p → m.Programs ev b o c Q) (h' : ¬ p → m'.Programs ev b o c Q) :
    (if p then m else m').Programs ev b o c Q := by
  split_ifs with hp
  · exact h hp
  · exact h' hp

theorem Programs.failAs {e : ε} (h : m.Programs ev b o c Q) :
    (m.failAs e).Programs ev b o c Q := by
  intro fl a ha hq
  have hcount : (m.failAs e).programCount ev b o c fl = m.programCount ev b o c fl :=
    congrArg _ (trace_failAs m e ev c fl)
  rw [hcount]
  refine h fl a ?_ hq
  unfold run FlashM.failAs at ha
  rw [Prog.run_bind] at ha
  unfold run
  generalize (m c).run ev fl = out at ha ⊢
  obtain ⟨⟨r, c'⟩, fl'⟩ := out
  cases r with
  | ok a' => exact ha
  | error e' => cases ha

/-- After a call whose error is handed on as a result. -/
theorem Programs.attempt_bind {f : Except ε α → FlashM σ ε β}
    (h : m.Programs ev b o c fun _ => True)
    (hf : ∀ e c', (f (.error e)).Programs ev b o c' Q') :
    (m.attempt >>= f).Programs ev b o c Q' := by
  intro fl x hx hq
  have hrun := congrArg Outcome.status (run_attempt m ev c fl)
  rw [run_bind_ok hrun] at hx
  rw [programCount_bind_ok hrun]
  cases hm : (m.run ev c fl).status with
  | ok a =>
    refine Nat.add_pos_left ?_ _
    have hcount : m.attempt.programCount ev b o c fl = m.programCount ev b o c fl := by
      unfold programCount attempt
      rw [Prog.programCount_bind]
      rfl
    rw [hcount]
    exact h fl a hm trivial
  | error e =>
    rw [hm] at hx
    exact Nat.add_pos_right _ (hf e _ _ x hx hq)

/-- After a first part whose run is known. -/
theorem Programs.after_run {a : α} {x : β} (hf : (f a).Programs ev b o c Q')
    (hm : m.run ev c fl = ⟨.ok a, c, fl⟩) (hx : ((m >>= f).run ev c fl).status = .ok x)
    (hq : Q' x) : 0 < (m >>= f).programCount ev b o c fl := by
  have ha : (m.run ev c fl).status = .ok a := congrArg Outcome.status hm
  rw [run_bind_ok ha, hm] at hx
  rw [programCount_bind_ok ha, hm]
  exact Nat.add_pos_right _ (hf fl x hx hq)

theorem Programs.attempt_right {f : Except ε α → FlashM σ ε β} (h : m.Steady c)
    (hf : ∀ r, (f r).Programs ev b o c Q') : (m.attempt >>= f).Programs ev b o c Q' := by
  intro fl x hx hq
  have hrun := congrArg Outcome.status (run_attempt m ev c fl)
  have hctx : (m.attempt.run ev c fl).ctx = c := by
    rw [run_attempt]
    exact h.ctx_run ev fl
  rw [run_bind_ok hrun, hctx] at hx
  rw [programCount_bind_ok hrun, hctx]
  exact Nat.add_pos_right _ (hf _ _ x hx hq)

end FlashM
end NorFlash
