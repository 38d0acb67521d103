import TfmExtras.Etss.ErrorKeeps
import TfmExtras.Etss.RequestFault

/-! Lookups in which reads fail. An entry that cannot be read is reported as a missing file, and the
check of the write-once flag is then passed over. -/

namespace Etss
open NorFlash NorFlash.Flash FlashM Ipc

variable {cfg : Config} {st : Image} {c c' : Ctx} {fl fl' : Flash} {F : Faults} {fid : Fid}
  {i k n : Nat} {α : Type}

/-! ## The reads of a lookup -/

/-- How many entries a lookup of the file id reads. -/
def Image.scanned (cfg : Config) (st : Image) (fid : Fid) : Nat :=
  match findFile cfg st.files (fun fileMeta => fileMeta.id == fid) cfg.maxNumFiles 0 with
  | .ok i => i + 1
  | .error _ => cfg.maxNumFiles

theorem findFileMeta_reads (p : FileMeta → Bool) (n : Nat) : ∀ i,
    (mblockFindFileMeta cfg p n i).Reads c := by
  induction n with
  | zero => exact fun i => reads_fail _ c
  | succ n ih =>
    intro i
    refine (readFileMeta_reads i).failAs.bind fun fileMeta => ?_
    show (if p fileMeta then pure i else mblockFindFileMeta cfg p n (i + 1)).Reads c
    split_ifs
    · exact reads_pure i c
    · exact ih (i + 1)

theorem fileGetInfo_reads (fid : Fid) : (flashFsFileGetInfo cfg fid).Reads c := by
  refine (findFileMeta_reads _ _ 0).failAs.bind fun idx => ?_
  refine (readFileMeta_reads idx).bind fun tmpMetadata => ?_
  refine Reads.bind ?_ fun _ => reads_pure _ c
  unfold failIf
  split_ifs
  · exact reads_fail _ c
  · exact reads_pure _ c

/-- An entry is read with one operation. -/
theorem readFileMeta_trace (cfg : Config) (c : Ctx) (fl : Flash) (i : Nat) :
    ((flashFsMblockReadFileMeta cfg i).trace cfg.eraseVal c fl).length = 1 := by
  have hlast : ∀ (r : Except Status Unit) (m : FileMeta),
      ((ofExcept r >>= fun _ => pure m : FsM FileMeta).trace cfg.eraseVal c fl).length = 0 := by
    intro r m
    cases r <;> rfl
  exact congrArg Nat.succ (hlast _ _)

namespace Readable
variable (h : Readable cfg c fl)
include h

theorem findFileMeta_trace (p : FileMeta → Bool) (n : Nat) : ∀ i, i + n ≤ cfg.maxNumFiles →
    ((mblockFindFileMeta cfg p n i).trace cfg.eraseVal c fl).length + i =
      match findFile cfg (mountedImage cfg c fl).files p n i with
      | .ok k => k + 1
      | .error _ => i + n := by
  have hw : (mountedImage cfg c fl).Wf cfg c.activeMetablock := h.wf
  induction n with
  | zero => exact fun i _ => Nat.add_comm _ _
  | succ n ih =>
    intro i hi
    have hread := (h.readFile (G := fun _ _ => True) (fun _ _ _ _ _ _ => trivial)
      (show i < cfg.maxNumFiles by omega)).failAs (e := .genericError)
    have hfind : findFile cfg (mountedImage cfg c fl).files p (n + 1) i =
        if p ((mountedImage cfg c fl).files i) = true then .ok i
        else findFile cfg (mountedImage cfg c fl).files p n (i + 1) := by
      rw [findFile, hw.checkFile_eq h.accepted (by omega)]
      rfl
    unfold mblockFindFileMeta
    rw [hfind, trace_bind_ok (a := (mountedImage cfg c fl).files i) (by rw [hread.run_eq]; rfl),
      hread.run_eq, List.length_append, trace_failAs, readFileMeta_trace]
    dsimp only
    split_ifs with hp
    · show 1 + 0 + i = i + 1
      omega
    · have hrest := ih (i + 1) (by omega)
      rw [show n + 1 = 1 + n from Nat.add_comm _ _, ← Nat.add_assoc, ← hrest]
      omega

theorem getFileIdx_trace (fid : Fid) :
    ((flashFsMblockGetFileIdx cfg fid).trace cfg.eraseVal c fl).length =
      (mountedImage cfg c fl).scanned cfg fid := by
  have ht := h.findFileMeta_trace (fun fileMeta => fileMeta.id == fid) cfg.maxNumFiles 0
    (Nat.zero_add _).le
  rw [Nat.zero_add, Nat.add_zero] at ht
  exact ht

end Readable

/-! ## Lookups -/

/-- A lookup says that the file does not exist only when no entry of the active table has its id
and nothing failed. -/
def LookupSound (cfg : Config) (c : Ctx) (fl : Flash) (fid : Fid) (F : Faults) (m : FsM α) : Prop :=
  (m.runFaulty cfg.eraseVal F c fl).status = .error .doesNotExist →
    (∀ i < cfg.maxNumFiles, ((mountedImage cfg c fl).files i).id ≠ fid) ∧
      F.CleanFor (m.trace cfg.eraseVal c fl).length

def LookupsSound (cfg : Config) (c : Ctx) (fl : Flash) (fid : Fid) (F : Faults) : Prop :=
  LookupSound cfg c fl fid F (flashFsFileExist cfg fid) ∧
    LookupSound cfg c fl fid F (flashFsFileGetInfo cfg fid)

theorem Image.Wf.findFile_id {a : Nat} (h : st.Wf cfg a) (hacc : cfg.Accepted) (fid : Fid) :
    (∃ i < cfg.maxNumFiles, (st.files i).id = fid ∧
      findFile cfg st.files (fun fileMeta => fileMeta.id == fid) cfg.maxNumFiles 0 = .ok i) ∨
    ((∀ i < cfg.maxNumFiles, (st.files i).id ≠ fid) ∧ findFile cfg st.files
      (fun fileMeta => fileMeta.id == fid) cfg.maxNumFiles 0 = .error .doesNotExist) := by
  rw [h.findFile_eq hacc _ (Nat.zero_add _).le]
  cases hs : (List.range' 0 cfg.maxNumFiles).find? fun k => (st.files k).id == fid with
  | none =>
    refine .inr ⟨fun i hi hid => ?_, rfl⟩
    exact List.find?_eq_none.mp hs i (List.mem_range'_1.mpr ⟨Nat.zero_le _, by omega⟩)
      (beq_iff_eq.mpr hid)
  | some i =>
    have hi := List.mem_range'_1.mp (List.mem_of_find?_eq_some hs)
    have hid := List.find?_some hs
    exact .inl ⟨i, by omega, beq_iff_eq.mp hid, rfl⟩

namespace Readable
variable {f : Nat → FsM α} (h : Readable cfg c fl)
include h

/-- An entry that cannot be read ends the lookup as if there was no file. -/
theorem lookup_of_firstAt (hF : F.FirstAt k) (hk : k < (mountedImage cfg c fl).scanned cfg fid) :
    (((flashFsMblockGetFileIdx cfg fid).failAs .doesNotExist >>= f).runFaulty cfg.eraseVal F c
      fl).status = .error .doesNotExist := by
  have hg : ((flashFsMblockGetFileIdx cfg fid).failAs .doesNotExist).GivesUp c
      (· = .doesNotExist) (· = c) (· = c) := (findFileMeta_givesUp _ _ 0).failAs rfl
  rw [← h.getFileIdx_trace, ← trace_failAs _ .doesNotExist] at hk
  obtain ⟨⟨e, he, rfl⟩, _⟩ := hg.runFaulty_bind_error (f := f) hF hk
  exact he

theorem getFileIdx_run (fid : Fid) :
    ((flashFsMblockGetFileIdx cfg fid).failAs .doesNotExist).run cfg.eraseVal c fl =
      ⟨(findFile cfg (mountedImage cfg c fl).files (fun fileMeta => fileMeta.id == fid)
        cfg.maxNumFiles 0).mapError fun _ => .doesNotExist, c, fl⟩ :=
  ((h.getFileIdx_query (G := fun _ _ => True) (fun _ _ _ _ _ _ => trivial) fid).failAs).run_eq

theorem scanned_le_trace : (mountedImage cfg c fl).scanned cfg fid ≤
    (((flashFsMblockGetFileIdx cfg fid).failAs .doesNotExist >>= f).trace cfg.eraseVal c
      fl).length := by
  have hrun := congrArg Outcome.status (h.getFileIdx_run fid)
  rw [← h.getFileIdx_trace, ← trace_failAs _ .doesNotExist]
  cases hs : (((flashFsMblockGetFileIdx cfg fid).failAs .doesNotExist).run cfg.eraseVal c
    fl).status with
  | ok i =>
    rw [trace_bind_ok hs, List.length_append]
    exact Nat.le_add_right _ _
  | error e => rw [trace_bind_error hs]

/-- A lookup whose reads do not fail finds the file, or has read the whole table. -/
theorem lookup_of_cleanFor (hF : F.CleanFor ((mountedImage cfg c fl).scanned cfg fid)) :
    (∃ i < cfg.maxNumFiles, ((mountedImage cfg c fl).files i).id = fid ∧
      findFile cfg (mountedImage cfg c fl).files (fun fileMeta => fileMeta.id == fid)
        cfg.maxNumFiles 0 = .ok i ∧
      ((flashFsMblockGetFileIdx cfg fid).failAs .doesNotExist >>= f).runFaulty cfg.eraseVal F c fl =
        (f i).runFaulty cfg.eraseVal (F.drop ((mountedImage cfg c fl).scanned cfg fid)) c fl) ∨
    ((∀ i < cfg.maxNumFiles, ((mountedImage cfg c fl).files i).id ≠ fid) ∧
      (((flashFsMblockGetFileIdx cfg fid).failAs .doesNotExist >>= f).trace cfg.eraseVal c
        fl).length = (mountedImage cfg c fl).scanned cfg fid ∧
      (((flashFsMblockGetFileIdx cfg fid).failAs .doesNotExist >>= f).runFaulty cfg.eraseVal F c
        fl).status = .error .doesNotExist) := by
  have hw : (mountedImage cfg c fl).Wf cfg c.activeMetablock := h.wf
  have hrun := h.getFileIdx_run fid
  have htr : (((flashFsMblockGetFileIdx cfg fid).failAs .doesNotExist).trace cfg.eraseVal c
      fl).length = (mountedImage cfg c fl).scanned cfg fid := by
    rw [trace_failAs, h.getFileIdx_trace]
  rcases hw.findFile_id h.accepted fid with ⟨i, hi, hid, he⟩ | ⟨hn, he⟩
  · rw [he] at hrun
    refine .inl ⟨i, hi, hid, he, ?_⟩
    rw [runFaulty_bind_of_clean (a := i) (htr.symm ▸ hF) (by rw [hrun]; rfl), hrun, htr]
  · rw [he] at hrun
    have herr : (((flashFsMblockGetFileIdx cfg fid).failAs .doesNotExist).run cfg.eraseVal c
        fl).status = .error .doesNotExist := by
      rw [hrun]
      rfl
    refine .inr ⟨hn, by rw [trace_bind_error herr, htr], ?_⟩
    rw [runFaulty_bind_of_clean_error (htr.symm ▸ hF) herr]

/-- A lookup is sound when it does not lose a file that it has found, and no read of the search
fails. -/
theorem lookupSound_iff
    (hfound : ∀ i F', i < cfg.maxNumFiles → ((mountedImage cfg c fl).files i).id = fid →
      ((f i).runFaulty cfg.eraseVal F' c fl).status ≠ .error .doesNotExist) :
    LookupSound cfg c fl fid F ((flashFsMblockGetFileIdx cfg fid).failAs .doesNotExist >>= f) ↔
      F.CleanFor ((mountedImage cfg c fl).scanned cfg fid) := by
  refine ⟨fun hs => ?_, fun hF hst => ?_⟩
  · rcases F.cleanFor_or_firstAt ((mountedImage cfg c fl).scanned cfg fid) with hc | ⟨k, hk, hF⟩
    · exact hc
    · exact (hs (h.lookup_of_firstAt hF hk)).2.mono h.scanned_le_trace
  · rcases h.lookup_of_cleanFor (f := f) hF with ⟨i, hi, hid, _, hr⟩ | ⟨hn, ht, _⟩
    · rw [hr] at hst
      exact absurd hst (hfound i _ hi hid)
    · exact ⟨hn, ht.symm ▸ hF⟩

end Readable

theorem readFileMeta_givesUp (i : Nat) : (flashFsMblockReadFileMeta cfg i).GivesUp c
    (· = .storageFailure) (· = c) (· = c) := by
  have hlast : ∀ (r : Except Status Unit) (fileMeta : FileMeta),
      (ofExcept r >>= fun _ => pure fileMeta : FsM FileMeta).GivesUp c (· = .storageFailure)
        (· = c) (· = c) := fun r fileMeta => by
    cases r <;> exact .pure rfl
  exact .op (.pure ⟨⟨_, rfl, rfl⟩, rfl⟩) fun _ => hlast _ _

namespace Readable
variable (h : Readable cfg c fl)
include h

/-- The entry that a lookup has found is read once more. -/
theorem fileGetInfo_found (hi : i < cfg.maxNumFiles)
    (hid : ((mountedImage cfg c fl).files i).id = fid) :
    ((flashFsMblockReadFileMeta cfg i >>= fun tmpMetadata =>
      failIf (fid ≠ tmpMetadata.id) .doesNotExist >>= fun _ => pure (⟨tmpMetadata.curSize,
        tmpMetadata.maxSize, tmpMetadata.flags &&& userFlagsMask⟩ : FileInfo)).runFaulty
      cfg.eraseVal F c fl).status ∈
        [Image.infoOf (some ((mountedImage cfg c fl).view i)), .error .storageFailure] := by
  have hrun := (h.readFile (G := fun _ _ => True) (fun _ _ _ _ _ _ => trivial) hi).run_eq
  rcases F.cleanFor_or_firstAt 1 with hc | ⟨k, hk, hF⟩
  · rw [runFaulty_bind_of_clean (a := (mountedImage cfg c fl).files i)
      (by rwa [readFileMeta_trace]) (by rw [hrun]; rfl), failIf, if_neg (not_not_intro hid.symm)]
    exact List.mem_cons_self ..
  · rw [← readFileMeta_trace cfg c fl i] at hk
    obtain ⟨⟨e, he, rfl⟩, _⟩ := (readFileMeta_givesUp i).runFaulty_bind_error hF hk
    rw [he]
    exact List.mem_cons_of_mem _ (List.mem_singleton_self _)

/-- When the search reads the whole table or up to the file, its entry is still read with an
operation of its own. -/
theorem fileGetInfo_of_cleanFor (hf : fid ≠ 0)
    (hF : F.CleanFor ((mountedImage cfg c fl).scanned cfg fid)) :
    ((flashFsFileGetInfo cfg fid).runFaulty cfg.eraseVal F c fl).status ∈
      [Image.infoOf ((mountedImage cfg c fl).fileMap cfg fid), .error .storageFailure] := by
  have hw : (mountedImage cfg c fl).Wf cfg c.activeMetablock := h.wf
  unfold flashFsFileGetInfo
  rcases h.lookup_of_cleanFor hF with ⟨i, hi, hid, he, hr⟩ | ⟨hn, _, hr⟩
  · rcases hw.findFile_fid h.accepted hf with ⟨j, _, _, hm, he'⟩ | ⟨_, he'⟩
    · obtain rfl : i = j := Except.ok.inj (he.symm.trans he')
      rw [hr, hm]
      exact h.fileGetInfo_found hi hid
    · exact nomatch he.symm.trans he'
  · rw [hr, Image.fileMap_eq_none fun i hi hid => absurd hid (hn i hi)]
    exact List.mem_cons_self ..

theorem fileExist_sound_iff : LookupSound cfg c fl fid F (flashFsFileExist cfg fid) ↔
    F.CleanFor ((mountedImage cfg c fl).scanned cfg fid) :=
  h.lookupSound_iff fun _ _ _ _ => nofun

theorem fileGetInfo_sound_iff : LookupSound cfg c fl fid F (flashFsFileGetInfo cfg fid) ↔
    F.CleanFor ((mountedImage cfg c fl).scanned cfg fid) := by
  refine h.lookupSound_iff fun i F' hi hid he => ?_
  have hm := h.fileGetInfo_found (F := F') hi hid
  rw [he, List.mem_cons, List.mem_singleton] at hm
  rcases hm with hm | hm <;> exact nomatch hm

theorem lookupsSound_iff : LookupsSound cfg c fl fid F ↔
    F.CleanFor ((mountedImage cfg c fl).scanned cfg fid) :=
  (and_congr h.fileExist_sound_iff h.fileGetInfo_sound_iff).trans and_self_iff

end Readable

/-! ## Requests for a write-once asset -/

/-- The filesystem holds the file, and its creator has said that it is never to change. -/
def Image.WriteOnce (cfg : Config) (st : Image) (fid : Fid) : Prop :=
  ∃ v, st.fileMap cfg fid = some v ∧ v.flags &&& psaStorageFlagWriteOnce ≠ 0

/-- The file is as before in the mounted filesystem and in the newest one of the flash. -/
structure FileKept (cfg : Config) (fid : Fid) (old new : Ctx × Flash) : Prop where
  mounted : (mountedImage cfg new.1 new.2).fileMap cfg fid =
    (mountedImage cfg old.1 old.2).fileMap cfg fid
  newest : ∀ a, Newest cfg new.2 a → (image cfg new.2 a).fileMap cfg fid =
    (mountedImage cfg old.1 old.2).fileMap cfg fid

theorem FileKept.refl (h : Store cfg c fl) (fid : Fid) : FileKept cfg fid (c, fl) (c, fl) := by
  refine ⟨rfl, fun a ha => ?_⟩
  rw [ha.eq h.committed.toNewest]
  rfl

theorem Image.fid_ne_zero {v : Image.View} (hm : st.fileMap cfg fid = some v) : fid ≠ 0 := by
  rintro rfl
  unfold fileMap at hm
  rw [if_pos rfl] at hm
  exact nomatch hm

theorem Image.WriteOnce.info {v : Image.View} (h : st.WriteOnce cfg fid)
    (hm : st.fileMap cfg fid = some v) :
    v.flags &&& userFlagsMask &&& psaStorageFlagWriteOnce ≠ 0 := by
  obtain ⟨w, hw, h1⟩ := h
  obtain rfl := Option.some.inj (hm.symm.trans hw)
  rwa [Nat.land_assoc, show userFlagsMask &&& psaStorageFlagWriteOnce = psaStorageFlagWriteOnce from
    by decide]


section
variable {ι : Type} [DecidableEq ι] {b : Build ι} {i : ι} {msg : Msg} {uid : Nat}
  {s : Partition (FaultyStorage ι)} (h : Store (b.cfg i) (s.fs.fs i).1 (s.fs.fs i).2)
  (hb : b.area msg.clientId = some i)
  (hold : (mountedImage (b.cfg i) (s.fs.fs i).1 (s.fs.fs i).2).WriteOnce (b.cfg i)
    (etssGetFid msg.clientId uid))
  (hF : s.fs.faults.CleanFor ((mountedImage (b.cfg i) (s.fs.fs i).1 (s.fs.fs i).2).scanned
    (b.cfg i) (etssGetFid msg.clientId uid)))

include h hold hF in
/-- The lookup for a request finds the asset, with its flag, or reports that it cannot read. -/
theorem fileGetInfo_writeOnce :
    (s.fs.call (b.cfg i) i (flashFsFileGetInfo (b.cfg i) (etssGetFid msg.clientId uid))).2.fs =
      s.fs.fs ∧
    ((∃ info, (s.fs.call (b.cfg i) i (flashFsFileGetInfo (b.cfg i)
        (etssGetFid msg.clientId uid))).1 = .ok info ∧ info.flags &&& psaStorageFlagWriteOnce ≠ 0) ∨
      (s.fs.call (b.cfg i) i (flashFsFileGetInfo (b.cfg i)
        (etssGetFid msg.clientId uid))).1 = .error .storageFailure) := by
  obtain ⟨v, hm, h1⟩ := hold
  refine ⟨FaultyStorage.call_reads (fileGetInfo_reads _), ?_⟩
  have hst := Readable.fileGetInfo_of_cleanFor h.ready (Image.fid_ne_zero hm) hF
  rw [hm, List.mem_cons, List.mem_singleton] at hst
  exact hst.imp (fun he => ⟨_, he, Image.WriteOnce.info ⟨v, hm, h1⟩ hm⟩) id

include h hb hold hF

theorem etssSet_writeOnce (dataLength createFlags : Nat) (io : Io Reply) :
    (etssSet b.faultyPlatform msg uid dataLength createFlags s io).2.1.fs.fs = s.fs.fs := by
  obtain ⟨⟨look, write, read, delete⟩, hfs, hcall⟩ :=
    b.faultyPlatform_fileGetInfo hb (etssGetFid msg.clientId uid) s.fs
  dsimp only at hcall
  obtain ⟨hkeep, hst⟩ := fileGetInfo_writeOnce h hold hF
  unfold etssSet
  split_ifs
  · rfl
  · rfl
  · rw [hfs]
    dsimp only
    rw [hcall]
    generalize s.fs.call (b.cfg i) i (flashFsFileGetInfo (b.cfg i) (etssGetFid msg.clientId uid)) =
      out at hkeep hst
    obtain ⟨st, φ⟩ := out
    obtain ⟨info, rfl, hflag⟩ | rfl := hst
    · dsimp only
      rw [if_pos hflag]
      exact hkeep
    · exact hkeep
  · rfl

theorem etssRemove_writeOnce :
    (etssRemove b.faultyPlatform msg uid s).2.fs.fs = s.fs.fs := by
  obtain ⟨⟨look, write, read, delete⟩, hfs, hcall⟩ :=
    b.faultyPlatform_fileGetInfo hb (etssGetFid msg.clientId uid) s.fs
  dsimp only at hcall
  obtain ⟨hkeep, hst⟩ := fileGetInfo_writeOnce h hold hF
  unfold etssRemove
  split_ifs
  · rfl
  · rw [hfs]
    dsimp only
    rw [hcall]
    generalize s.fs.call (b.cfg i) i (flashFsFileGetInfo (b.cfg i) (etssGetFid msg.clientId uid)) =
      out at hkeep hst
    obtain ⟨st, φ⟩ := out
    obtain ⟨info, rfl, hflag⟩ | rfl := hst
    · dsimp only
      rw [if_pos hflag]
      exact hkeep
    · exact hkeep
  · rfl

end

/-! ## Which failures a write-once asset withstands -/

/-- What a request for the asset is to keep, while operations fail. -/
structure WriteOnceHolds {ι : Type} [DecidableEq ι] (b : Build ι) (i : ι) (msg : Msg)
    (uid dataLength createFlags : Nat) (s : Partition (FaultyStorage ι)) : Prop where
  set : FileKept (b.cfg i) (etssGetFid msg.clientId uid) (s.fs.fs i)
    ((etssSet b.faultyPlatform msg uid dataLength createFlags s .start).2.1.fs.fs i)
  remove : FileKept (b.cfg i) (etssGetFid msg.clientId uid) (s.fs.fs i)
    ((etssRemove b.faultyPlatform msg uid s).2.fs.fs i)
  lookups : LookupsSound (b.cfg i) (s.fs.fs i).1 (s.fs.fs i).2 (etssGetFid msg.clientId uid)
    s.fs.faults

/-- A lookup of any file is sound, and a write-once asset is kept, when none of the reads fails that
search the table up to the file. -/
theorem writeOnceHolds_iff {ι : Type} [DecidableEq ι] {b : Build ι} {i : ι} {msg : Msg}
    {uid : Nat} {s : Partition (FaultyStorage ι)}
    (h : Store (b.cfg i) (s.fs.fs i).1 (s.fs.fs i).2) (hb : b.area msg.clientId = some i)
    (hold : (mountedImage (b.cfg i) (s.fs.fs i).1 (s.fs.fs i).2).WriteOnce (b.cfg i)
      (etssGetFid msg.clientId uid)) (dataLength createFlags : Nat) :
    (∀ fid, LookupsSound (b.cfg i) (s.fs.fs i).1 (s.fs.fs i).2 fid s.fs.faults ↔
      s.fs.faults.CleanFor ((mountedImage (b.cfg i) (s.fs.fs i).1 (s.fs.fs i).2).scanned (b.cfg i)
        fid)) ∧
    (WriteOnceHolds b i msg uid dataLength createFlags s ↔
      s.fs.faults.CleanFor ((mountedImage (b.cfg i) (s.fs.fs i).1 (s.fs.fs i).2).scanned (b.cfg i)
        (etssGetFid msg.clientId uid))) := by
  have hl : ∀ fid, LookupsSound (b.cfg i) (s.fs.fs i).1 (s.fs.fs i).2 fid s.fs.faults ↔ _ :=
    fun fid => Readable.lookupsSound_iff h.ready
  refine ⟨hl, fun hw => (hl _).mp hw.lookups, fun hF => ⟨?_, ?_, (hl _).mpr hF⟩⟩
  · rw [etssSet_writeOnce h hb hold hF]
    exact .refl h _
  · rw [etssRemove_writeOnce h hb hold hF]
    exact .refl h _

/-! ## A write-once asset that is overwritten -/

/-- One area for all clients, with a buffer for three program units. -/
def oneArea : Build Unit where
  cfg _ := fiveBlocks
  area _ := some ()
  securityFeature := ⟨true, false, false, false⟩
  assetDataSize := 12
  accepted _ := fiveBlocks_accepted
  unit _ := fiveBlocks_unit
  storage := Eq.refl true
  assetDataSize_pos := by decide
  assetDataSize_lt := by decide
  assetDataSize_dvd _ := ⟨3, rfl⟩

/-- The asset of client 1 with uid 1, as it is first set. -/
def keyAsset : WriteReq :=
  ⟨etssGetFid 1 1, psaStorageFlagWriteOnce ||| flagCreate ||| flagTruncate, 4, 4, 0, UInt8.ofNat⟩

/-- Client 1 has other bytes for it. -/
def setAgain : Msg where
  type := psaIpcCall
  handle := 1
  clientId := 1
  inVec i := if i = 1 then [9, 9, 9, 9] else []
  outSize _ := 0

/-- The first operation of the request fails. -/
def keyStored : Partition (FaultyStorage Unit) :=
  ⟨⟨fun _ => filled fiveBlocks [.write keyAsset], onlyFails 0⟩, fun _ => 0⟩

theorem store_keyStored : Store fiveBlocks (keyStored.fs.fs ()).1 (keyStored.fs.fs ()).2 :=
  (reaches_filled (by decide)).store fiveBlocks_accepted

theorem writeOnce_keyStored :
    (mountedImage fiveBlocks (keyStored.fs.fs ()).1 (keyStored.fs.fs ()).2).WriteOnce fiveBlocks
      (etssGetFid 1 1) := by
  have hf : ((mountedImage fiveBlocks (keyStored.fs.fs ()).1 (keyStored.fs.fs ()).2).fileMap
      fiveBlocks (etssGetFid 1 1)).map Image.View.flags = some keyAsset.flags := by decide +kernel
  obtain ⟨v, hm, hv⟩ := Option.map_eq_some_iff.mp hf
  exact ⟨v, hm, hv.symm ▸ by decide⟩

theorem writeOnceHolds_iff_keyStored :
    WriteOnceHolds oneArea () setAgain 1 4 0 keyStored ↔ (onlyFails 0).CleanFor
      ((mountedImage fiveBlocks (keyStored.fs.fs ()).1 (keyStored.fs.fs ()).2).scanned fiveBlocks
        (etssGetFid 1 1)) :=
  (writeOnceHolds_iff (show Store (oneArea.cfg ()) _ _ from store_keyStored)
    (show oneArea.area setAgain.clientId = some () from rfl)
    (show Image.WriteOnce _ _ (etssGetFid setAgain.clientId 1) from writeOnce_keyStored) 4 0).2

/-- The lookup reports a missing file, and the asset gets the new bytes. -/
theorem not_writeOnceHolds : Store fiveBlocks (keyStored.fs.fs ()).1 (keyStored.fs.fs ()).2 ∧
    (mountedImage fiveBlocks (keyStored.fs.fs ()).1 (keyStored.fs.fs ()).2).WriteOnce fiveBlocks
      (etssGetFid 1 1) ∧ ¬ WriteOnceHolds oneArea () setAgain 1 4 0 keyStored := by
  refine ⟨store_keyStored, writeOnce_keyStored, fun h => ?_⟩
  have hm := h.set.mounted
  rw [etssSet_eq_loop (p := oneArea.faultyPlatform) rfl (by decide) (by decide)
    (show oneArea.faultyPlatform.fsCtx setAgain.clientId = some (oneArea.faultyFileSystem ()) from
      rfl) (.inl (by decide +kernel)), etssSetLoop_fs (by decide)] at hm
  exact absurd hm (by decide +kernel)

end Etss
