import TfmExtras.Lib.NorFlash

/-! Programs over a flash device, as trees of flash operations. A tree is run without faults,
run under a pattern of failing operations, or cut by a loss of power; `wp` is the rule set
for the fault-free run, with a guard on every operation issued. -/

namespace NorFlash

inductive Op
  | init
  | read (block offset size : Nat)
  | write (block offset : Nat) (data : List UInt8)
  | flush (block : Nat)
  | erase (block : Nat)
deriving DecidableEq, Repr

namespace Flash

def reply (fl : Flash) (ev : UInt8) : Op → List UInt8
  | .read b o n => fl.read ev b o n
  | _ => []

def apply (fl : Flash) : Op → Flash
  | .write b o data => fl.write b o data
  | .erase b => fl.erase b
  | _ => fl

/-- The flash when power is lost during an operation: a write has programmed a prefix. -/
def torn (fl : Flash) (n : Nat) : Op → Flash
  | .write b o data => fl.write b o (data.take n)
  | _ => fl

end Flash

/-- The reply to an operation is `none` when the operation reports an error. -/
inductive Prog (α : Type) : Type
  | pure (a : α)
  | op (o : Op) (k : Option (List UInt8) → Prog α)

namespace Prog
variable {α β : Type} {ev : UInt8}

def bind : Prog α → (α → Prog β) → Prog β
  | .pure a, f => f a
  | .op o k, f => .op o fun r => (k r).bind f

/-! ## Runs -/

def run (ev : UInt8) : Prog α → Flash → α × Flash
  | .pure a, fl => (a, fl)
  | .op o k, fl => (k (some (fl.reply ev o))).run ev (fl.apply o)

/-- The operations of a run, each with the flash it was issued on. -/
def trace (ev : UInt8) : Prog α → Flash → List (Flash × Op)
  | .pure _, _ => []
  | .op o k, fl => (fl, o) :: (k (some (fl.reply ev o))).trace ev (fl.apply o)

/-- The flash contents a loss of power can leave behind. -/
inductive CrashAt (ev : UInt8) : Prog α → Flash → Flash → Prop
  | here (p : Prog α) (fl : Flash) : CrashAt ev p fl fl
  | torn (o : Op) (k : Option (List UInt8) → Prog α) (fl : Flash) (n : Nat) :
      CrashAt ev (.op o k) fl (fl.torn n o)
  | step {o : Op} {k : Option (List UInt8) → Prog α} {fl fl' : Flash}
      (h : CrashAt ev (k (some (fl.reply ev o))) (fl.apply o) fl') : CrashAt ev (.op o k) fl fl'

theorem run_bind (p : Prog α) (f : α → Prog β) (fl : Flash) :
    (p.bind f).run ev fl = (f (p.run ev fl).1).run ev (p.run ev fl).2 := by
  induction p generalizing fl with
  | pure a => rfl
  | op o k ih => exact ih _ _

theorem trace_bind (p : Prog α) (f : α → Prog β) (fl : Flash) :
    (p.bind f).trace ev fl =
      p.trace ev fl ++ (f (p.run ev fl).1).trace ev (p.run ev fl).2 := by
  induction p generalizing fl with
  | pure a => rfl
  | op o k ih => simpa only [bind, trace, run, List.cons_append] using congrArg _ (ih _ _)

theorem bind_pure (p : Prog α) : p.bind .pure = p := by
  induction p with
  | pure a => rfl
  | op o k ih => exact congrArg (Prog.op o) (funext ih)

theorem bind_assoc {γ : Type} (p : Prog α) (f : α → Prog β) (g : β → Prog γ) :
    (p.bind f).bind g = p.bind fun a => (f a).bind g := by
  induction p with
  | pure a => rfl
  | op o k ih => exact congrArg (Prog.op o) (funext ih)

theorem CrashAt.bind_cases {p : Prog α} {f : α → Prog β} {fl fl' : Flash}
    (h : CrashAt ev (p.bind f) fl fl') :
    CrashAt ev p fl fl' ∨ CrashAt ev (f (p.run ev fl).1) (p.run ev fl).2 fl' := by
  induction p generalizing fl with
  | pure a => exact .inr h
  | op o k ih =>
    cases h with
    | here => exact .inl (.here _ _)
    | torn _ _ _ n => exact .inl (.torn o k fl n)
    | step h => exact (ih _ h).imp .step id

/-! ## Weakest preconditions -/

abbrev Guard := Flash → Op → Prop

/-- Every operation of the fault-free run satisfies the guard, and the run ends in `Q`. -/
def wp (ev : UInt8) (G : Guard) : Prog α → Flash → (α → Flash → Prop) → Prop
  | .pure a, fl, Q => Q a fl
  | .op o k, fl, Q => G fl o ∧ (k (some (fl.reply ev o))).wp ev G (fl.apply o) Q

variable {G G' : Guard} {fl : Flash} {Q Q' : α → Flash → Prop}

theorem wp_iff (p : Prog α) (fl : Flash) :
    p.wp ev G fl Q ↔ (∀ x ∈ p.trace ev fl, G x.1 x.2) ∧ Q (p.run ev fl).1 (p.run ev fl).2 := by
  induction p generalizing fl with
  | pure a => simp [wp, trace, run]
  | op o k ih => simp only [wp, trace, run, ih, List.forall_mem_cons, and_assoc]

theorem wp_bind {f : α → Prog β} {Q : β → Flash → Prop} (p : Prog α) (fl : Flash) :
    (p.bind f).wp ev G fl Q ↔ p.wp ev G fl fun a fl' => (f a).wp ev G fl' Q := by
  induction p generalizing fl with
  | pure a => rfl
  | op o k ih => simp only [bind, wp, ih]

theorem wp_mono {p : Prog α} (h : p.wp ev G fl Q) (hG : ∀ fl o, G fl o → G' fl o)
    (hQ : ∀ a fl, Q a fl → Q' a fl) : p.wp ev G' fl Q' := by
  induction p generalizing fl with
  | pure a => exact hQ a fl h
  | op o k ih => exact ⟨hG _ _ h.1, ih _ h.2⟩

/-- What the guarded operations preserve holds at each of them and at the end. -/
theorem wp_inv {I : Flash → Prop} {p : Prog α} (h : p.wp ev G fl Q) (h₀ : I fl)
    (hI : ∀ fl o, I fl → G fl o → I (fl.apply o)) :
    p.wp ev (fun fl o => I fl ∧ G fl o) fl fun a fl' => I fl' ∧ Q a fl' := by
  induction p generalizing fl with
  | pure a => exact ⟨h₀, h⟩
  | op o k ih => exact ⟨⟨h₀, h.1⟩, ih _ h.2 (hI _ _ h₀ h.1)⟩

/-- Crash states satisfy what every operation of the run keeps, torn or complete. -/
theorem wp_crash {C : Flash → Prop} {p : Prog α} {fl' : Flash} (h : p.wp ev G fl Q) (h₀ : C fl)
    (hG : ∀ fl o, C fl → G fl o → C (fl.apply o) ∧ ∀ n, C (fl.torn n o))
    (hc : CrashAt ev p fl fl') : C fl' := by
  induction hc with
  | here => exact h₀
  | torn o k fl n => exact (hG _ _ h₀ h.1).2 n
  | step _ ih => exact ih h.2 (hG _ _ h₀ h.1).1

end Prog
end NorFlash
