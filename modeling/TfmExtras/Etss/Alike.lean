import TfmExtras.Etss.Calls

/-! The partition on two kinds of filesystems that answer alike until one of them is lost: the requests
are answered alike, and leave states that are related as those before, or a filesystem that is lost. -/

namespace Etss
open NorFlash Ipc

variable {φ ψ α : Type} {R L : φ → ψ → Prop} {I : φ → Prop} {size : Nat} {t : Calls α} {x : φ} {y : ψ}

/-- The same result and states that are related, or states that are lost. -/
def AgreeUntil (R L : φ → ψ → Prop) (r : α × φ) (r' : α × ψ) : Prop :=
  r.1 = r'.1 ∧ R r.2 r'.2 ∨ L r.2 r'.2

/-- The calls of the partition do not leave `I`. -/
def FileSystem.Keeps (size : Nat) (fs : FileSystem φ) (I : φ → Prop) : Prop :=
  ∀ ⦃c : FileSystem.Call⦄ ⦃x : φ⦄, c.InRange size → I x → I (fs.call c x).2

theorem FileSystem.Keeps.on {fs : FileSystem φ} (h : fs.Keeps size I) (ht : t.InRange size)
    (hx : I x) : I (t.on fs x).2 := by
  induction t generalizing x with
  | done a => exact hx
  | call c k ih => exact ih _ (ht.2 _) (h ht.1 hx)

/-- The calls of the partition agree on related states, and do not leave those that are lost. -/
structure FileSystem.AlikeUntil (size : Nat) (R L : φ → ψ → Prop) (fs : FileSystem φ)
    (fs' : FileSystem ψ) : Prop where
  call : ∀ {c : FileSystem.Call} {x y}, c.InRange size → R x y →
    AgreeUntil R L (fs.call c x) (fs'.call c y)
  keeps : ∀ y, fs.Keeps size fun x => L x y
  keeps' : ∀ x, fs'.Keeps size (L x)

theorem FileSystem.AlikeUntil.on {fs : FileSystem φ} {fs' : FileSystem ψ}
    (h : fs.AlikeUntil size R L fs') (ht : t.InRange size) (hR : R x y) :
    AgreeUntil R L (t.on fs x) (t.on fs' y) := by
  induction t generalizing x y with
  | done a => exact .inl ⟨rfl, hR⟩
  | call c k ih =>
    unfold Calls.on
    rcases h.call ht.1 hR with ⟨hres, hR'⟩ | hL
    · rw [hres]
      exact ih _ (ht.2 _) hR'
    · exact .inr ((h.keeps _).on (ht.2 _) ((h.keeps' _).on (ht.2 _) hL))

/-- Two builds of the partition that agree for a client. -/
structure Platform.AlikeUntil (p : Platform φ) (p' : Platform ψ) (clientId : Int)
    (R L : φ → ψ → Prop) : Prop where
  feature : p'.securityFeature = p.securityFeature
  size : p'.assetDataSize = p.assetDataSize
  fsCtx : Option.Rel (fun fs fs' => fs.AlikeUntil p.assetDataSize R L fs') (p.fsCtx clientId)
    (p'.fsCtx clientId)

/-- The buffers are the same, and the filesystems related. -/
def PartitionsAgree (R : φ → ψ → Prop) (s : Partition φ) (s' : Partition ψ) : Prop :=
  s'.assetData = s.assetData ∧ R s.fs s'.fs

section
variable {p : Platform φ} {p' : Platform ψ} {req : Request} {s : Partition φ} {s' : Partition ψ}
  (hreq : req.InRange) (hlt : req.createFlags < 2 ^ 32)
include hreq hlt

theorem Platform.AlikeUntil.serve (h : p.AlikeUntil p' req.msg.clientId R L)
    (hs : PartitionsAgree R s s') :
    (p.serve req s).1 = (p'.serve req s').1 ∧
        PartitionsAgree R (p.serve req s).2 (p'.serve req s').2 ∨
      L (p.serve req s).2.fs (p'.serve req s').2.fs := by
  obtain ⟨⟨x, _⟩, ⟨y, buf⟩, ⟨rfl, hR⟩⟩ := s, s', hs
  obtain ⟨a, t, ht, heq⟩ := serve_makesCalls p.assetDataSize_pos hreq hlt buf
  have hon : AgreeUntil R L (t.onCtx (p.fsCtx req.msg.clientId) a x)
      (t.onCtx (p'.fsCtx req.msg.clientId) a y) := by
    have hctx := h.fsCtx
    generalize p.fsCtx req.msg.clientId = ctx at hctx ⊢
    generalize p'.fsCtx req.msg.clientId = ctx' at hctx ⊢
    cases hctx with
    | none => exact .inl ⟨rfl, hR⟩
    | some hfs => exact hfs.on ht hR
  rw [← heq p x rfl rfl, ← heq p' y h.feature h.size] at hon
  refine hon.imp_left fun ⟨hans, hR'⟩ => ?_
  exact ⟨congrArg Prod.fst hans, (congrArg Prod.snd hans).symm, hR'⟩

theorem Platform.serve_keeps (h : ∀ fs, p.fsCtx req.msg.clientId = some fs →
    fs.Keeps p.assetDataSize I) (hI : I s.fs) : I (p.serve req s).2.fs := by
  obtain ⟨x, buf⟩ := s
  obtain ⟨a, t, ht, heq⟩ := serve_makesCalls p.assetDataSize_pos hreq hlt buf
  have hon : I (t.onCtx (p.fsCtx req.msg.clientId) a x).2 := by
    generalize hctx : p.fsCtx req.msg.clientId = ctx
    cases ctx with
    | none => exact hI
    | some fs => exact (h fs hctx).on ht hI
  rwa [← heq p x rfl rfl] at hon

end

theorem Build.serve_eq {ι : Type} [DecidableEq ι] (b : Build ι) (req : Request)
    (s : Partition (Storage ι)) :
    b.serve req s = b.platform.serve req { s with fs := { s.fs with calls := [] } } := by
  cases req <;> rfl

end Etss
