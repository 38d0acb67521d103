import TfmExtras.Etss.Image

/-! The functions that only read: each returns a value computed from the tables. -/

namespace Etss
open NorFlash FlashM

/-- Every read inside the area is let through. -/
def AllowsReads (cfg : Config) (G : Prog.Guard) : Prop :=
  ∀ fl b o n, b < cfg.numBlocks → o + n ≤ cfg.blockSize → G fl (.read b o n)

/-- A file entry as the readers return it. -/
def checkFile (cfg : Config) (fileMeta : FileMeta) : Except Status FileMeta :=
  (if cfg.validateMetadata then mblockValidateFileMeta cfg fileMeta else .ok ()) >>= fun _ =>
    pure fileMeta

def checkBlock (cfg : Config) (blockMeta : BlockMeta) : Except Status BlockMeta :=
  (if cfg.validateMetadata then mblockValidateBlockMeta cfg blockMeta else .ok ()) >>= fun _ =>
    pure blockMeta

/-- The first of `n` entries from `i` on that satisfies `p`. -/
def findFile (cfg : Config) (files : Nat → FileMeta) (p : FileMeta → Bool) :
    Nat → Nat → Except Status Nat
  | 0, _ => .error .doesNotExist
  | n + 1, i => do
    let fileMeta ← (checkFile cfg (files i)).mapError fun _ => .genericError
    if p fileMeta then pure i else findFile cfg files p n (i + 1)

/-- The first free entry from `i` on, or the second one without the spare. -/
def freeIndex (cfg : Config) (files : Nat → FileMeta) : Nat → Nat → Bool → Nat
  | 0, _, _ => metadataInvalidIndex
  | n + 1, i, useSpare =>
    match checkFile cfg (files i) with
    | .error _ => metadataInvalidIndex
    | .ok fileMeta =>
      match utilsValidateFid fileMeta.id with
      | .ok () => freeIndex cfg files n (i + 1) useSpare
      | .error _ => if useSpare then i else freeIndex cfg files n (i + 1) true

/-- The first of `n` logical blocks from `i` on with room for the file. -/
def reserveIn (cfg : Config) (blocks : Nat → BlockMeta) (fid : Fid) (size flags : Nat) :
    Nat → Nat → Except Status (FileMeta × BlockMeta)
  | 0, _ => .error .insufficientStorage
  | n + 1, i => do
    let blockMeta ← (checkBlock cfg (blocks i)).mapError fun _ => .genericError
    if blockMeta.freeSize ≥ size then
      pure (⟨i, sub32 cfg.blockSize blockMeta.freeSize, 0, size, flags, fid⟩,
        { blockMeta with freeSize := blockMeta.freeSize - size })
    else reserveIn cfg blocks fid size flags n (i + 1)

variable {cfg : Config} {G : Prog.Guard} {c : Ctx} {fl : Flash}

theorem findFile_congr {files files' : Nat → FileMeta} (p : FileMeta → Bool) {n i : Nat}
    (h : ∀ k, i ≤ k → k < i + n → files' k = files k) :
    findFile cfg files' p n i = findFile cfg files p n i := by
  induction n generalizing i with
  | zero => rfl
  | succ n ih =>
    unfold findFile
    rw [h i le_rfl (by omega), ih fun k h₁ h₂ => h k (by omega) (by omega)]

theorem opsRead_query (hG : AllowsReads cfg G) {b o n : Nat} (hb : b < cfg.numBlocks)
    (ho : o + n ≤ cfg.blockSize) :
    (opsRead b o n).Query cfg.eraseVal G c fl (.ok (fl.read cfg.eraseVal b o n)) :=
  query_issue (hG _ _ _ _ hb ho) rfl

section Entries
variable (hG : AllowsReads cfg G) (hacc : cfg.Accepted) (ha : c.activeMetablock < cfg.numBlocks)
include hG hacc ha

theorem readFileMeta_query {i : Nat} (hi : i < cfg.maxNumFiles) :
    (flashFsMblockReadFileMeta cfg i).Query cfg.eraseVal G c fl
      (checkFile cfg ((image cfg fl c.activeMetablock).files i)) := by
  have hle : cfg.fileEntry i + fileMetadataSize ≤ cfg.blockSize :=
    le_trans (hacc.fileEntry_le (Nat.succ_le_of_lt hi)) hacc.metaEnd_le
  unfold flashFsMblockReadFileMeta
  rw [hacc.fileOffset_eq hi.le]
  refine query_get.seq ((opsRead_query hG ha hle).seq ?_)
  exact (query_ofExcept _).bind fun _ _ => query_pure _

theorem readBlockMetadata_query {l : Nat} (hl : l < numActiveDblocks cfg) :
    (flashFsMblockReadBlockMetadata cfg l).Query cfg.eraseVal G c fl
      (checkBlock cfg ((image cfg fl c.activeMetablock).blocks l)) := by
  have hle : 8 + 12 * l + blockMetadataSize ≤ cfg.blockSize := by
    have h₁ := hacc.metaEnd_le
    unfold Config.metaEnd Config.fileEntry Config.filesStart at h₁
    unfold blockMetadataSize
    omega
  unfold flashFsMblockReadBlockMetadata
  rw [hacc.blockOffset_eq hl.le]
  refine query_get.seq ((opsRead_query hG ha hle).seq ?_)
  exact (query_ofExcept _).bind fun _ _ => query_pure _

theorem findFileMeta_query (p : FileMeta → Bool) {n i : Nat} (hi : i + n ≤ cfg.maxNumFiles) :
    (mblockFindFileMeta cfg p n i).Query cfg.eraseVal G c fl
      (findFile cfg (image cfg fl c.activeMetablock).files p n i) := by
  induction n generalizing i with
  | zero => exact query_fail _
  | succ n ih =>
    refine (readFileMeta_query hG hacc ha (by omega)).failAs.bind fun fileMeta _ => ?_
    split_ifs
    · exact query_pure i
    · exact ih (by omega)

theorem getFreeFileIndexLoop_query {n i : Nat} (hi : i + n ≤ cfg.maxNumFiles) (useSpare : Bool) :
    (getFreeFileIndexLoop cfg n i useSpare).Query cfg.eraseVal G c fl
      (.ok (freeIndex cfg (image cfg fl c.activeMetablock).files n i useSpare)) := by
  induction n generalizing i useSpare with
  | zero => exact query_pure _
  | succ n ih =>
    have hi' : i + 1 + n ≤ cfg.maxNumFiles := by omega
    unfold getFreeFileIndexLoop freeIndex
    refine (readFileMeta_query hG hacc ha (by omega)).attempt.seq ?_
    cases checkFile cfg ((image cfg fl c.activeMetablock).files i) with
    | error e => exact query_pure _
    | ok fileMeta =>
      cases hv : utilsValidateFid fileMeta.id with
      | ok _ =>
        simp only [hv]
        exact ih hi' useSpare
      | error _ =>
        simp only [hv]
        split_ifs
        · exact query_pure i
        · exact ih hi' true

theorem reserveFileLoop_query (fid : Fid) (size flags : Nat) {n i : Nat}
    (hi : i + n ≤ numActiveDblocks cfg) :
    (mblockReserveFileLoop cfg fid size flags n i).Query cfg.eraseVal G c fl
      (reserveIn cfg (image cfg fl c.activeMetablock).blocks fid size flags n i) := by
  induction n generalizing i with
  | zero => exact query_fail _
  | succ n ih =>
    refine (readBlockMetadata_query hG hacc ha (by omega)).failAs.bind fun blockMeta _ => ?_
    split_ifs
    · exact query_pure _
    · exact ih (by omega)

end Entries

end Etss
