import TfmExtras.Etss.Store

/-! Runs of the filesystem: calls from outside, one after the other, and the states they lead
to from a formatted flash. -/

namespace Etss
open NorFlash NorFlash.Flash FlashM

/-- The calls that change a filesystem. -/
inductive FsCall
  | write (r : WriteReq)
  | delete (fid : Fid)
  | prepare

namespace FsCall
variable (cfg : Config)

def exec : FsCall → FsM Unit
  | write r => flashFsFileWrite cfg r.fid r.flags r.maxSize r.dataSize r.offset r.data
  | delete fid => flashFsFileDelete cfg fid
  | prepare => flashFsPrepare cfg

/-- The file id is not zero, and rounding the sizes up does not wrap. -/
def Valid : FsCall → Prop
  | write r => r.Valid cfg
  | delete fid => fid ≠ 0
  | prepare => True

instance (f : FsCall) : Decidable (f.Valid cfg) :=
  match f with
  | write r => inferInstanceAs (Decidable (r.Valid cfg))
  | delete fid => inferInstanceAs (Decidable (fid ≠ 0))
  | prepare => .isTrue trivial

/-- The operations a call may issue from a store. -/
def Guarded (strict : Prop) (c : Ctx) (fl : Flash) : FsCall → Prog.Guard
  | write r => WriteOp cfg fl c.activeMetablock c.scratchMetablock strict r
  | delete fid => UpdateOp cfg fl c.activeMetablock c.scratchMetablock strict
      (DeleteOf cfg c.scratchMetablock (mountedImage cfg c fl) fid)
  | prepare => PrepareOp cfg c.activeMetablock fl

/-- What a call leaves of a store. -/
def Spec (c : Ctx) (fl : Flash) : FsCall → Post Ctx Status Unit
  | write r => WriteSpec cfg c fl r
  | delete fid => DeleteSpec cfg c fl fid
  | prepare => fun res c' fl' => res = .ok () ∧ PrepareSpec cfg c fl c' fl'

end FsCall

variable {cfg : Config} {strict : Prop} {c c' : Ctx} {fl fl' : Flash} {f : FsCall}

/-- One call from a store. -/
theorem Store.call_wp (h : Store cfg c fl) (f : FsCall) (hv : f.Valid cfg)
    (hc : strict → Clean (scratchFiles cfg c) fl) :
    (f.exec cfg).wp cfg.eraseVal (f.Guarded cfg strict c fl) c fl (f.Spec cfg c fl) := by
  cases f with
  | write r => exact h.fileWrite_wp hv hc
  | delete fid => exact h.fileDelete_wp hv hc
  | prepare => exact wp_post h.prepare_ok fun _ _ _ ⟨_, hr, hs⟩ => ⟨hr, hs⟩

theorem FsCall.Spec.store {res : Except Status Unit} (h : f.Spec cfg c fl res c' fl') :
    Store cfg c' fl' := by
  cases f with
  | write r => exact WriteSpec.store h
  | delete fid => exact DeleteSpec.store h
  | prepare => exact h.2.store

/-- What a call leaves. -/
def FsCall.after (cfg : Config) (f : FsCall) (c : Ctx) (fl : Flash) : Outcome Ctx Status Unit :=
  (f.exec cfg).run cfg.eraseVal c fl

theorem Store.call_spec (h : Store cfg c fl) (hv : f.Valid cfg) :
    f.Spec cfg c fl (f.after cfg c fl).status (f.after cfg c fl).ctx (f.after cfg c fl).flash :=
  (wp_iff.mp (h.call_wp f hv (False.elim : False → _))).2

/-- The states that calls lead to, from a formatted flash of any contents. -/
inductive Reaches (cfg : Config) : Ctx → Flash → Prop
  | format (c : Ctx) (fl : Flash) :
    Reaches cfg ((flashFsFormat cfg).run cfg.eraseVal c fl).ctx
      ((flashFsFormat cfg).run cfg.eraseVal c fl).flash
  | call {c : Ctx} {fl : Flash} (f : FsCall) (h : Reaches cfg c fl) (hv : f.Valid cfg) :
    Reaches cfg (f.after cfg c fl).ctx (f.after cfg c fl).flash

theorem format_spec (hacc : cfg.Accepted) (c : Ctx) (fl : Flash) :
    ((flashFsFormat cfg).run cfg.eraseVal c fl).status = .ok () ∧
      Store cfg ((flashFsFormat cfg).run cfg.eraseVal c fl).ctx
        ((flashFsFormat cfg).run cfg.eraseVal c fl).flash ∧
      (mountedImage cfg ((flashFsFormat cfg).run cfg.eraseVal c fl).ctx
        ((flashFsFormat cfg).run cfg.eraseVal c fl).flash).IsEmpty cfg := by
  obtain ⟨_, hr, hs, he, _⟩ := (wp_iff.mp (format_ok hacc :
    (flashFsFormat cfg).Ok cfg.eraseVal anyOp c fl _)).2
  exact ⟨hr, hs, he⟩

/-- Every state that is reached is a store. -/
theorem Reaches.store (h : Reaches cfg c fl) (hacc : cfg.Accepted) : Store cfg c fl := by
  induction h with
  | format c fl => exact (format_spec hacc c fl).2.1
  | call f _ hv ih => exact (ih.call_spec hv).store

/-! ## Lists of calls -/

/-- The state that a list of calls leads to. -/
def runCalls (cfg : Config) : List FsCall → Ctx × Flash → Ctx × Flash
  | [], s => s
  | f :: fs, s => runCalls cfg fs ((f.after cfg s.1 s.2).ctx, (f.after cfg s.1 s.2).flash)

theorem Reaches.runCalls {s : Ctx × Flash} (h : Reaches cfg s.1 s.2) {fs : List FsCall}
    (hv : ∀ f ∈ fs, f.Valid cfg) :
    Reaches cfg (runCalls cfg fs s).1 (runCalls cfg fs s).2 := by
  induction fs generalizing s with
  | nil => exact h
  | cons f fs ih =>
    exact ih (.call f h (hv f (List.mem_cons_self ..))) fun g hg => hv g (List.mem_cons_of_mem _ hg)

/-! ## Small filesystems -/

/-- Two blocks of 128 bytes, for at most three files of at most 12 bytes. -/
def twoBlocks : Config where
  flashAreaAddr := 0
  sectorSize := 128
  blockSize := 128
  numBlocks := 2
  programUnit := 4
  maxFileSize := 12
  maxNumFiles := 3
  eraseVal := 0xFF
  validateMetadata := false

theorem twoBlocks_accepted : twoBlocks.Accepted := rfl

/-- Three blocks for data besides the metadata blocks. -/
def fiveBlocks : Config :=
  { twoBlocks with
    blockSize := 160
    blockSize_lt := by decide
    numBlocks := 5
    numBlocks_lt := by decide }

theorem fiveBlocks_accepted : fiveBlocks.Accepted := rfl

theorem fiveBlocks_unit : ∃ k, fiveBlocks.programUnit = 2 ^ k := ⟨2, rfl⟩

/-- A configuration without files, which is accepted too. -/
def noFiles : Config := { twoBlocks with maxNumFiles := 0, maxNumFiles_lt := by decide }

/-- An erased flash, after it is formatted. -/
def formatted (cfg : Config) : Outcome Ctx Status Unit :=
  (flashFsFormat cfg).run cfg.eraseVal Ctx.zero ⟨[]⟩

/-- The state after calls on a formatted flash. -/
def filled (cfg : Config) (fs : List FsCall) : Ctx × Flash :=
  runCalls cfg fs ((formatted cfg).ctx, (formatted cfg).flash)

theorem reaches_filled {fs : List FsCall} (hv : ∀ f ∈ fs, f.Valid cfg) :
    Reaches cfg (filled cfg fs).1 (filled cfg fs).2 :=
  Reaches.runCalls (.format Ctx.zero ⟨[]⟩) hv

/-- A new file of four bytes. -/
def fourBytes : WriteReq := ⟨1, flagCreate, 4, 4, 0, UInt8.ofNat⟩

end Etss
