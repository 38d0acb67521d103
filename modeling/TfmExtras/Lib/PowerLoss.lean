import TfmExtras.Lib.Driver

/-! A loss of power in a program over a driver. The operation that it comes in is carried out in part, from
the first byte on, and those after it are not carried out. -/

namespace NorFlash
namespace Flash

/-- The flash with the first `n` cells of a block erased. -/
def eraseFirst (fl : Flash) (b n : Nat) : Flash :=
  ⟨setRow (List.replicate n none ++ (fl.row b).drop n) b fl.rows⟩

theorem cell_eraseFirst (fl : Flash) (b n b' o' : Nat) :
    (fl.eraseFirst b n).cell b' o' = if b' = b ∧ o' < n then none else fl.cell b' o' := by
  rw [cell, row, eraseFirst, setRow_getD]
  by_cases hb : b' = b
  · subst hb
    rw [if_pos rfl, cell]
    by_cases ho : o' < n
    · rw [if_pos ⟨rfl, ho⟩, List.getD_append _ _ _ _ (by simpa using ho), List.getD_replicate _ ho]
    · rw [if_neg fun h => ho h.2, List.getD_append_right _ _ _ _ (by simpa using ho),
        List.length_replicate, List.getD_eq_getElem?_getD, List.getElem?_drop,
        Nat.add_sub_cancel' (Nat.not_lt.mp ho), List.getD_eq_getElem?_getD]
  · rw [if_neg hb, if_neg fun h => hb h.1, cell, row]

/-- What a loss of power in an operation leaves of the flash. -/
inductive Cut (fl : Flash) : Op → Flash → Prop
  | unchanged (o : Op) : Cut fl o fl
  | write (b off : Nat) (data : List UInt8) (n : Nat) :
    Cut fl (.write b off data) (fl.write b off (data.take n))
  | erase (b n : Nat) : Cut fl (.erase b) (fl.eraseFirst b n)

end Flash

/-- The driver carries out operations on the flash that its device stands for. When power is lost in one
of them, the device is left with a part of it, and no operation changes what it is left with. -/
structure Driver.CarriesUntilLost {δ : Type} (D : Driver δ) (ev : UInt8) (A : Op → Prop)
    (R L : δ → Flash → Prop) : Prop where
  carries : ∀ ⦃o d fl⦄, A o → R d fl →
    (D o d).1 = some (fl.reply ev o) ∧ R (D o d).2 (fl.apply o) ∨
      ∃ fl', fl.Cut o fl' ∧ L (D o d).2 fl'
  lost : ∀ ⦃o d fl⦄, L d fl → L (D o d).2 fl

variable {δ α σ ε : Type} {D : Driver δ} {ev : UInt8} {A : Op → Prop} {R L : δ → Flash → Prop} {d : δ}
  {fl fl' : Flash} {G : Prog.Guard}

namespace Prog

/-- The flash contents that a loss of power in an operation can leave behind. -/
inductive CutAt (ev : UInt8) : Prog α → Flash → Flash → Prop
  | here {o : Op} {k : Option (List UInt8) → Prog α} {fl fl' : Flash} (h : fl.Cut o fl') :
    CutAt ev (.op o k) fl fl'
  | step {o : Op} {k : Option (List UInt8) → Prog α} {fl fl' : Flash}
    (h : CutAt ev (k (some (fl.reply ev o))) (fl.apply o) fl') : CutAt ev (.op o k) fl fl'

/-- They satisfy what every operation of the run keeps, cut or complete. -/
theorem wp_cut {C : Flash → Prop} {Q : α → Flash → Prop} {p : Prog α} (h : p.wp ev G fl Q) (h₀ : C fl)
    (hG : ∀ fl o, C fl → G fl o → C (fl.apply o) ∧ ∀ fl', fl.Cut o fl' → C fl')
    (hc : CutAt ev p fl fl') : C fl' := by
  induction hc with
  | here hcut => exact (hG _ _ h₀ h.1).2 _ hcut
  | step _ ih => exact ih h.2 (hG _ _ h₀ h.1).1

/-- What no operation of the driver changes. -/
theorem runOn_keeps {I : δ → Prop} (h : ∀ ⦃o d⦄, I d → I (D o d).2) (p : Prog α) :
    ∀ {d}, I d → I (p.runOn D d).2 := by
  induction p with
  | pure a => exact fun hI => hI
  | op o k ih => exact fun hI => ih _ (h hI)

theorem runOn_cut (h : D.CarriesUntilLost ev A R L) {Q : α → Flash → Prop} (p : Prog α) :
    ∀ {d fl}, p.wp ev (fun _ o => A o) fl Q → R d fl →
      (p.runOn D d).1 = (p.run ev fl).1 ∧ R (p.runOn D d).2 (p.run ev fl).2 ∨
        ∃ fl', CutAt ev p fl fl' ∧ L (p.runOn D d).2 fl' := by
  induction p with
  | pure a => exact fun _ hR => .inl ⟨rfl, hR⟩
  | op o k ih =>
    intro d fl hp hR
    obtain ⟨ho, hp⟩ := hp
    unfold runOn run
    rcases h.carries ho hR with ⟨hreply, hR'⟩ | ⟨fl', hcut, hL⟩
    · rw [hreply]
      rcases ih _ hp hR' with hsame | ⟨fl', hcut, hL⟩
      · exact .inl hsame
      · exact .inr ⟨fl', .step hcut, hL⟩
    · exact .inr ⟨fl', .here hcut, runOn_keeps (I := fun d => L d fl') (fun _ _ hI => h.lost hI) _ hL⟩

end Prog

namespace FlashM
variable {m : FlashM σ ε α} {c : σ} {Q : Except ε α → σ → Flash → Prop}

def CutAt (ev : UInt8) (m : FlashM σ ε α) (c : σ) (fl fl' : Flash) : Prop :=
  Prog.CutAt ev (m c) fl fl'

theorem wp_cut {C : Flash → Prop} (h : m.wp ev G c fl Q) (h₀ : C fl)
    (hG : ∀ fl o, C fl → G fl o → C (fl.apply o) ∧ ∀ fl', fl.Cut o fl' → C fl')
    (hc : m.CutAt ev c fl fl') : C fl' := by
  unfold wp at h
  exact Prog.wp_cut h h₀ hG hc

theorem runOn_keeps {I : δ → Prop} (h : ∀ ⦃o d⦄, I d → I (D o d).2) (m : FlashM σ ε α) (c : σ)
    (hI : I d) : I (m.runOn D c d).2.2 := (m c).runOn_keeps h hI

/-- A call that keeps to the operations which the driver carries out, until power is lost. -/
theorem runOn_cut (h : D.CarriesUntilLost ev A R L) (hm : m.wp ev (fun _ o => A o) c fl Q)
    (hR : R d fl) :
    ((m.runOn D c d).1 = (m.run ev c fl).status ∧ (m.runOn D c d).2.1 = (m.run ev c fl).ctx ∧
      R (m.runOn D c d).2.2 (m.run ev c fl).flash) ∨
      ∃ fl', m.CutAt ev c fl fl' ∧ L (m.runOn D c d).2.2 fl' := by
  unfold wp at hm
  rcases (m c).runOn_cut h hm hR with ⟨hres, hR'⟩ | hcut
  · exact .inl ⟨congrArg Prod.fst hres, congrArg Prod.snd hres, hR'⟩
  · exact .inr hcut

/-- A program whose first operation is carried out alike. -/
theorem runOn_congr {o : Op} {k : Option (List UInt8) → Prog (Except ε α × σ)} {d' : δ}
    (hm : m c = .op o k) (hd : D o d = D o d') : m.runOn D c d = m.runOn D c d' := by
  unfold runOn
  rw [hm]
  unfold Prog.runOn
  rw [hd]

end FlashM
end NorFlash
