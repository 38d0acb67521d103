import TfmExtras.Lib.FlashM

/-! Programs over a driver: what carries out the operations of a flash on a device of its own. A
driver that does so on the operations of a run leads to the same result. -/

namespace NorFlash

/-- The reply to an operation, `none` for an error, and the device after it. -/
abbrev Driver (δ : Type) := Op → δ → Option (List UInt8) × δ

/-- The driver carries out operations on the flash that its device stands for. -/
def Driver.Carries {δ : Type} (D : Driver δ) (ev : UInt8) (A : Op → Prop) (R : δ → Flash → Prop) :
    Prop :=
  ∀ ⦃o d fl⦄, A o → R d fl → (D o d).1 = some (fl.reply ev o) ∧ R (D o d).2 (fl.apply o)

variable {δ α σ ε : Type} {D : Driver δ} {ev : UInt8} {A : Op → Prop} {R : δ → Flash → Prop} {d : δ}
  {fl : Flash}

namespace Prog

def runOn (D : Driver δ) : Prog α → δ → α × δ
  | .pure a, d => (a, d)
  | .op o k, d => (k (D o d).1).runOn D (D o d).2

theorem runOn_carried (h : D.Carries ev A R) {Q : α → Flash → Prop} (p : Prog α) :
    ∀ {d fl}, p.wp ev (fun _ o => A o) fl Q → R d fl →
      (p.runOn D d).1 = (p.run ev fl).1 ∧ R (p.runOn D d).2 (p.run ev fl).2 := by
  induction p with
  | pure a => exact fun _ hR => ⟨rfl, hR⟩
  | op o k ih =>
    intro d fl hp hR
    obtain ⟨ho, hp⟩ := hp
    obtain ⟨hreply, hR⟩ := h ho hR
    unfold runOn run
    rw [hreply]
    exact ih _ hp hR

end Prog

namespace FlashM

/-- The status, the context and the device that a call leaves. -/
def runOn (D : Driver δ) (m : FlashM σ ε α) (c : σ) (d : δ) : Except ε α × σ × δ :=
  (((m c).runOn D d).1.1, ((m c).runOn D d).1.2, ((m c).runOn D d).2)

/-- A call that keeps to the operations which the driver carries out. -/
theorem runOn_carried (h : D.Carries ev A R) {m : FlashM σ ε α} {c : σ}
    {Q : Except ε α → σ → Flash → Prop} (hm : m.wp ev (fun _ o => A o) c fl Q) (hR : R d fl) :
    (m.runOn D c d).1 = (m.run ev c fl).status ∧ (m.runOn D c d).2.1 = (m.run ev c fl).ctx ∧
      R (m.runOn D c d).2.2 (m.run ev c fl).flash := by
  unfold wp at hm
  obtain ⟨hres, hR⟩ := (m c).runOn_carried h hm hR
  exact ⟨congrArg Prod.fst hres, congrArg Prod.snd hres, hR⟩

end FlashM
end NorFlash
