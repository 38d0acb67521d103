import TfmExtras.Etss.StageData

/-! The headers of the two metadata blocks: which are valid, which of two is in force, and the
commit of an update by writing the next one. -/

namespace Etss
open NorFlash NorFlash.Flash FlashM

variable {cfg : Config} {G : Prog.Guard} {c : Ctx} {fl : Flash}

/-- The XOR of the block and file tables in a metadata block. -/
def metadataXor (cfg : Config) (fl : Flash) (b : Nat) : UInt8 :=
  (fl.read cfg.eraseVal b 8 (cfg.metaEnd - 8)).foldl (· ^^^ ·) 0

/-- The result of the checks on a header. -/
def headerCheck (cfg : Config) (fl : Flash) (b : Nat) (hMeta : MetadataBlockHeader) :
    Except Status Unit :=
  mblockValidateFsVersion hMeta.fsVersion >>= fun backwardCompatible =>
    if backwardCompatible then mblockValidateSwapCount cfg hMeta.compSwapCount
    else mblockValidateSwapCount cfg hMeta.activeSwapCount >>= fun _ =>
      if cfg.validateMetadata then
        if metadataXor cfg fl b ≠ hMeta.metadataXor then .error .storageFailure else .ok ()
      else .ok ()

/-- The header of a metadata block, when it passes the checks. -/
def readHeader (cfg : Config) (fl : Flash) (b : Nat) : Option MetadataBlockHeader :=
  match headerCheck cfg fl b (image cfg fl b).header with
  | .ok () => some (image cfg fl b).header
  | .error _ => none

/-- The metadata block that mounting takes as the active one. -/
def selectActive (cfg : Config) (fl : Flash) : Except Status Nat :=
  match readHeader cfg fl metadataBlock0, readHeader cfg fl metadataBlock1 with
  | some hMeta0, some hMeta1 => .ok (mblockLatestMetaBlock cfg hMeta0 hMeta1)
  | some _, none => .ok metadataBlock0
  | none, some _ => .ok metadataBlock1
  | none, none => .error .genericError

/-! ## The checks as they are made -/

theorem xorEntries_query (off : Nat) (hG : AllowsReads cfg G) {b size : Nat} {pos : Nat → Nat}
    (hb : b < cfg.numBlocks) {n i : Nat} (hpos : ∀ j, i ≤ j → j < i + n → pos j = off + size * j)
    (hle : off + size * (i + n) ≤ cfg.blockSize) (x : UInt8) :
    (mblockXorEntries b size pos n i x).Query cfg.eraseVal G c fl
      (.ok ((fl.read cfg.eraseVal b (off + size * i) (size * n)).foldl (· ^^^ ·) x)) := by
  induction n generalizing i x with
  | zero => exact query_pure x
  | succ n ih =>
    have hsplit : size * (n + 1) = size + size * n := by ring
    have hstep : off + size * i + size = off + size * (i + 1) := by ring
    have hlast : size * (i + (n + 1)) = size * i + size + size * n := by ring
    rw [hsplit, read_append, List.foldl_append, hstep]
    unfold mblockXorEntries
    rw [hpos i le_rfl (by omega)]
    refine (opsRead_query hG hb (by omega)).seq (ih (fun j h₁ h₂ => hpos j (by omega) (by omega)) ?_ _)
    rwa [show i + 1 + n = i + (n + 1) by omega]

theorem calculateMetadataXor_query (hG : AllowsReads cfg G) (hacc : cfg.Accepted) {b : Nat}
    (hb : b ≤ 1) :
    (mblockCalculateMetadataXor cfg b).Query cfg.eraseVal G c fl (.ok (metadataXor cfg fl b)) := by
  have hlt : b < cfg.numBlocks := lt_of_le_of_lt hb hacc.two_le_numBlocks
  have hend := hacc.metaEnd_le
  have hfiles : cfg.filesStart ≤ cfg.metaEnd := by
    unfold Config.metaEnd Config.fileEntry
    omega
  have hn : ¬ (b ≠ metadataBlock0 ∧ b ≠ metadataBlock1) := by
    unfold metadataBlock0 metadataBlock1
    omega
  unfold mblockCalculateMetadataXor failIf
  rw [if_neg hn]
  refine (query_pure ()).seq ?_
  have hblocks : 8 + 12 * (0 + numActiveDblocks cfg) ≤ cfg.blockSize := by
    unfold Config.filesStart at hfiles
    omega
  have hread : fl.read cfg.eraseVal b 8 (cfg.metaEnd - 8) =
      fl.read cfg.eraseVal b (8 + 12 * 0) (12 * numActiveDblocks cfg) ++
        fl.read cfg.eraseVal b (cfg.filesStart + 32 * 0) (32 * cfg.maxNumFiles) := by
    simp only [Nat.mul_zero, Nat.add_zero]
    rw [Config.filesStart, ← read_append]
    unfold Config.metaEnd Config.fileEntry Config.filesStart
    congr 1
    omega
  unfold metadataXor
  rw [hread, List.foldl_append]
  refine (xorEntries_query 8 hG hlt
    (fun j _ hj => hacc.blockOffset_eq (Nat.le_of_lt (by omega))) hblocks 0).seq ?_
  exact xorEntries_query cfg.filesStart hG hlt
    (fun j _ hj => hacc.fileOffset_eq (Nat.le_of_lt (by omega)))
    (show cfg.filesStart + 32 * (0 + cfg.maxNumFiles) ≤ cfg.blockSize by
      unfold Config.metaEnd Config.fileEntry at hend
      omega) _

theorem validateHeaderMeta_query (hG : AllowsReads cfg G) (hacc : cfg.Accepted) {b : Nat}
    (hb : b ≤ 1) (hMeta : MetadataBlockHeader) :
    (mblockValidateHeaderMeta cfg hMeta b).Query cfg.eraseVal G c fl
      (headerCheck cfg fl b hMeta) := by
  refine (query_ofExcept _).bind fun backwardCompatible _ => ?_
  cases backwardCompatible with
  | true => exact query_ofExcept _
  | false =>
    refine (query_ofExcept _).bind fun _ _ => ?_
    split_ifs with hv hx
    · refine (calculateMetadataXor_query hG hacc hb).seq ?_
      rw [failIf, if_pos hx]
      exact query_fail _
    · refine (calculateMetadataXor_query hG hacc hb).seq ?_
      rw [failIf, if_neg hx]
      exact query_pure _
    · exact query_pure _

theorem initReadHeader_query (hG : AllowsReads cfg G) (hacc : cfg.Accepted) {b : Nat}
    (hb : b ≤ 1) :
    (initReadHeader cfg b).Query cfg.eraseVal G c fl (.ok (readHeader cfg fl b)) := by
  have hlt : b < cfg.numBlocks := lt_of_le_of_lt hb hacc.two_le_numBlocks
  have hend := hacc.metaEnd_le
  have h8 : 0 + blockMetaHeaderSize ≤ cfg.blockSize := by
    have := metaEnd_ge cfg
    unfold blockMetaHeaderSize
    omega
  unfold initReadHeader readHeader
  refine (opsRead_query hG hlt h8).attempt.seq ?_
  refine (validateHeaderMeta_query hG hacc hb _).attempt.seq ?_
  have himage : (image cfg fl b).header =
      .decode (fl.read cfg.eraseVal b 0 blockMetaHeaderSize) := rfl
  rw [himage]
  cases headerCheck cfg fl b (.decode (fl.read cfg.eraseVal b 0 blockMetaHeaderSize)) with
  | error _ => exact query_pure _
  | ok _ => exact query_pure _

/-- Selecting the active metadata block only sets the two block ids of the context. -/
theorem initGetActiveMetablock_wp (hG : AllowsReads cfg G) (hacc : cfg.Accepted)
    {Q : Post Ctx Status Unit}
    (hok : ∀ a, selectActive cfg fl = .ok a →
      Q (.ok ()) { c with activeMetablock := a, scratchMetablock := otherMetaBlock a } fl)
    (herr : ∀ e, selectActive cfg fl = .error e → Q (.error e) c fl) :
    (initGetActiveMetablock cfg).wp cfg.eraseVal G c fl Q := by
  refine (initReadHeader_query hG hacc (Nat.zero_le 1)).seq_wp ?_
  refine (initReadHeader_query hG hacc le_rfl).seq_wp ?_
  refine (query_ofExcept (selectActive cfg fl)).bind_wp (fun a ha => ?_) herr
  exact (wp_modify _).mpr (hok a ha)

end Etss
