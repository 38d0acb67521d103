import TfmExtras.Etss.CrashAtomic
import TfmExtras.Etss.Requests

/-! Starting the filesystem of an area: `etss_flash_fs_init_ctx_and_prepare`. -/

namespace Etss
open NorFlash NorFlash.Flash FlashM

/-- With `createFlashLayout`, an area that cannot be mounted is wiped and mounted again. -/
def etssFlashFsInitCtxAndPrepare (cfg : Config) (createFlashLayout : Bool) : FsM Unit := do
  let c ← (ofExcept (flashFsInitCtx cfg)).failAs .storageFailure
  modify fun _ => c
  match ← (flashFsPrepare cfg).attempt with
  | .ok () => pure ()
  | .error _ =>
    if createFlashLayout then do
      flashFsWipeAll cfg
      (flashFsPrepare cfg).failAs .storageFailure
    else fail .storageFailure

variable {cfg : Config} {createFlashLayout : Bool} {M : Fid → Option Image.View} {c : Ctx}
  {fl fl' : Flash}

theorem flashFsInitCtx_ok (hacc : cfg.Accepted) : flashFsInitCtx cfg = .ok Ctx.zero := by
  unfold flashFsInitCtx
  rw [show flashFsValidateConfig cfg = .ok () from hacc]

/-- When the area can be mounted, nothing else is done. -/
theorem initCtxAndPrepare_wp {G : Prog.Guard} {R : Ctx → Flash → Prop} (hacc : cfg.Accepted)
    (h : (flashFsPrepare cfg).Ok cfg.eraseVal G Ctx.zero fl fun _ => R) :
    (etssFlashFsInitCtxAndPrepare cfg createFlashLayout).Ok cfg.eraseVal G c fl fun _ => R := by
  unfold etssFlashFsInitCtxAndPrepare
  refine Ok.bind (Ok.failAs (ok_ofExcept (flashFsInitCtx_ok hacc)
    (R := fun a c' fl' => a = Ctx.zero ∧ fl' = fl) ⟨rfl, rfl⟩)) ?_
  rintro _ _ _ ⟨rfl, rfl⟩
  refine modify_bind_wp rfl ?_
  refine Ok.bind h.attempt ?_
  rintro r c' fl' ⟨_, rfl, hr⟩
  exact ok_pure hr

namespace Restores
variable (h : Restores cfg M fl)
include h

theorem accepted : cfg.Accepted := by
  obtain ⟨_, hm, -⟩ := h
  exact hm.accepted

theorem start_ok : (etssFlashFsInitCtxAndPrepare cfg createFlashLayout).Ok cfg.eraseVal anyOp c fl
    fun _ c' fl' => Store cfg c' fl' ∧ (mountedImage cfg c' fl').fileMap cfg = M :=
  initCtxAndPrepare_wp h.accepted (h.prepare_ok Ctx.zero)

/-- Power is lost while the filesystem is started. -/
theorem start_crash (he : cfg.eraseVal = 0x00 ∨ cfg.eraseVal = 0xFF)
    (hc : (etssFlashFsInitCtxAndPrepare cfg createFlashLayout).CrashAt cfg.eraseVal c fl fl') :
    Restores cfg M fl' := by
  obtain ⟨a, hm, hst⟩ := h
  have hok : (etssFlashFsInitCtxAndPrepare cfg createFlashLayout).Ok cfg.eraseVal
      (PrepareOp cfg a fl) c fl fun _ => MountSpec cfg a fl :=
    initCtxAndPrepare_wp hm.accepted (hm.prepare_spec hst.closed_or_pending)
  exact wp_crash hok ⟨a, hm, hst⟩
    (fun fl o hfl ho => Mountable.restores_op hfl (fun _ => id) hm he hst ho) hc

end Restores

end Etss
