import TfmExtras.Etss.Store

/-! Reading a mounted filesystem: what the calls that look a file up return is computed from the
map of the files. -/

namespace Etss
open NorFlash NorFlash.Flash FlashM

variable {cfg : Config} {a : Nat} {st : Image} {c : Ctx} {fl : Flash} {fid : Fid}

/-! ## The map, as a search of the table -/

theorem Image.Wf.findFile_eq (h : st.Wf cfg a) (hacc : cfg.Accepted) (p : FileMeta → Bool)
    {n i : Nat} (hi : i + n ≤ cfg.maxNumFiles) : findFile cfg st.files p n i =
      match (List.range' i n).find? fun k => p (st.files k) with
      | some k => .ok k
      | none => .error .doesNotExist := by
  induction n generalizing i with
  | zero => rfl
  | succ n ih =>
    have hstep : findFile cfg st.files p (n + 1) i =
        if p (st.files i) = true then .ok i else findFile cfg st.files p n (i + 1) := by
      rw [findFile, h.checkFile_eq hacc (by omega)]
      rfl
    rw [hstep, List.range'_succ, List.find?_cons]
    cases hp : p (st.files i) with
    | true => simp
    | false =>
      simp only [Bool.false_eq_true, if_false]
      exact ih (by omega)

/-- The search for a file id finds the file that the map shows. -/
theorem Image.Wf.findFile_fid (h : st.Wf cfg a) (hacc : cfg.Accepted) (hf : fid ≠ 0) :
    (∃ i < cfg.maxNumFiles, (st.files i).id = fid ∧ st.fileMap cfg fid = some (st.view i) ∧
      findFile cfg st.files (fun fileMeta => fileMeta.id == fid) cfg.maxNumFiles 0 = .ok i) ∨
    (st.fileMap cfg fid = none ∧ findFile cfg st.files (fun fileMeta => fileMeta.id == fid)
      cfg.maxNumFiles 0 = .error .doesNotExist) := by
  rw [h.findFile_eq hacc _ (Nat.zero_add _).le, Image.fileMap, if_neg hf,
    List.range_eq_range']
  cases hs : (List.range' 0 cfg.maxNumFiles).find? fun k => (st.files k).id == fid with
  | none => exact .inr ⟨rfl, rfl⟩
  | some i =>
    have hi := List.mem_range'_1.mp (List.mem_of_find?_eq_some hs)
    have hid := List.find?_some hs
    exact .inl ⟨i, by omega, beq_iff_eq.mp hid, rfl, rfl⟩

/-! ## What the readers return -/

namespace Image

/-- The answer to `etss_flash_fs_file_get_info`. -/
def infoOf : Option View → Except Status FileInfo
  | none => .error .doesNotExist
  | some v => .ok ⟨v.curSize, v.maxSize, v.flags &&& userFlagsMask⟩

/-- The answer to `etss_flash_fs_file_read`. -/
def readOf (size offset : Nat) : Option View → Except Status (List UInt8)
  | none => .error .doesNotExist
  | some v => (utilsCheckContainedIn v.curSize offset size).map fun _ =>
      (v.content.drop offset).take size

theorem content_length (i : Nat) : (st.content i).length = (st.files i).curSize := by
  unfold content
  rw [List.length_map, List.length_range]

theorem content_getD {i k : Nat} (hk : k < (st.files i).curSize) :
    (st.content i).getD k 0 = st.data (st.files i).lblock ((st.files i).dataIdx + k) := by
  unfold content
  simp [List.getD_eq_getElem?_getD, hk]

/-- A part of the contents, as the bytes of the flash. -/
theorem content_part {i offset size : Nat} (h : offset + size ≤ (st.files i).curSize) :
    ((st.content i).drop offset).take size = (List.range size).map fun k =>
      st.data (st.files i).lblock ((st.files i).dataIdx + offset + k) := by
  unfold content
  refine List.ext_getElem (by simp; omega) fun k _ _ => ?_
  simp only [List.getElem_take, List.getElem_drop, List.getElem_map, List.getElem_range,
    Nat.add_assoc]

end Image

theorem read_eq_map (fl : Flash) (ev : UInt8) (b o n : Nat) :
    fl.read ev b o n = (List.range n).map fun k => fl.byte ev b (o + k) :=
  read_ext (by simp) fun i hi => by simp [List.getD_eq_getElem?_getD, hi]

/-- A well-formed filesystem is active. -/
abbrev Readable (cfg : Config) (c : Ctx) (fl : Flash) : Prop :=
  Ready cfg fl c.activeMetablock c.scratchMetablock c fl

namespace Readable
variable {G : Prog.Guard} (h : Readable cfg c fl) (hf : fid ≠ 0) (hG : AllowsReads cfg G)
include h hG

theorem getFileIdx_query (fid : Fid) : (flashFsMblockGetFileIdx cfg fid).Query cfg.eraseVal G c fl
    (findFile cfg (mountedImage cfg c fl).files (fun fileMeta => fileMeta.id == fid)
      cfg.maxNumFiles 0) :=
  h.findFileMeta_query hG _

include hf in
theorem fileExist_query : (flashFsFileExist cfg fid).Query cfg.eraseVal G c fl
    (match (mountedImage cfg c fl).fileMap cfg fid with
      | none => .error .doesNotExist
      | some _ => .ok ()) := by
  have hq := h.getFileIdx_query hG fid
  unfold flashFsFileExist
  have hwf : (mountedImage cfg c fl).Wf cfg c.activeMetablock := h.wf
  rcases hwf.findFile_fid h.accepted hf with ⟨i, hi, hid, hm, he⟩ | ⟨hm, he⟩
  · rw [he] at hq
    rw [hm]
    exact hq.failAs.seq (query_pure _)
  · rw [he] at hq
    rw [hm]
    exact hq.failAs.seq_error

include hf in
theorem fileGetInfo_query : (flashFsFileGetInfo cfg fid).Query cfg.eraseVal G c fl
    (Image.infoOf ((mountedImage cfg c fl).fileMap cfg fid)) := by
  have hq := h.getFileIdx_query hG fid
  unfold flashFsFileGetInfo
  have hwf : (mountedImage cfg c fl).Wf cfg c.activeMetablock := h.wf
  rcases hwf.findFile_fid h.accepted hf with ⟨i, hi, hid, hm, he⟩ | ⟨hm, he⟩
  · rw [he] at hq
    rw [hm]
    refine hq.failAs.seq ((h.readFile hG hi).seq ?_)
    exact (query_failIf_of_not (fun hne => hne hid.symm)).seq (query_pure _)
  · rw [he] at hq
    rw [hm]
    exact hq.failAs.seq_error

theorem dblockReadFile_query {i offset size : Nat} (hi : i < cfg.maxNumFiles)
    (hid : ((mountedImage cfg c fl).files i).id ≠ 0)
    (ho : offset + size ≤ ((mountedImage cfg c fl).files i).curSize) :
    (flashFsDblockReadFile cfg ((mountedImage cfg c fl).files i) offset size).Query cfg.eraseVal
      G c fl (.ok ((((mountedImage cfg c fl).content i).drop offset).take size)) := by
  have hwf : (mountedImage cfg c fl).Wf cfg c.activeMetablock := h.wf
  obtain ⟨hl, hcur, _⟩ := hwf.sizes i hi hid
  have hin := (hwf.inside hi hid).2
  have hphy := hwf.phyId_lt h.accepted h.a_le hl
  have hbs := cfg.blockSize_lt
  have hnb := cfg.numBlocks_lt
  unfold Image.dataEnd at hin
  have hblk : (dblockLoToPhy cfg ((mountedImage cfg c fl).files i).lblock).Query cfg.eraseVal G c fl
      (.ok ((mountedImage cfg c fl).blocks ((mountedImage cfg c fl).files i).lblock).phyId) :=
    (h.readBlock hG hl).attempt.seq (query_pure _)
  unfold flashFsDblockReadFile
  refine hblk.seq ((query_failIf_of_not fun he => ?_).seq ?_)
  · unfold blockInvalidId at he
    omega
  · have hpos : add32 ((mountedImage cfg c fl).files i).dataIdx offset =
        ((mountedImage cfg c fl).files i).dataIdx + offset := add32_eq (by omega)
    rw [hpos, Image.content_part ho]
    have hle : ((mountedImage cfg c fl).files i).dataIdx + offset + size ≤ cfg.blockSize := by omega
    have hr : Query cfg.eraseVal G _ c fl _ := opsRead_query hG hphy hle
    rw [read_eq_map] at hr
    exact hr

include hf in
/-- Reading returns a part of the contents. -/
theorem fileRead_query (size offset : Nat) :
    (flashFsFileRead cfg fid size offset).Query cfg.eraseVal G c fl
      (Image.readOf size offset ((mountedImage cfg c fl).fileMap cfg fid)) := by
  have hq := h.getFileIdx_query hG fid
  unfold flashFsFileRead
  have hwf : (mountedImage cfg c fl).Wf cfg c.activeMetablock := h.wf
  rcases hwf.findFile_fid h.accepted hf with ⟨i, hi, hid, hm, he⟩ | ⟨hm, he⟩
  · rw [he] at hq
    rw [hm]
    refine hq.failAs.seq ((h.readFile hG hi).failAs.seq ?_)
    refine (query_failIf_of_not (fun hne => hne hid.symm)).seq ?_
    unfold Image.readOf
    dsimp only
    have hv : ((mountedImage cfg c fl).view i).curSize = ((image cfg fl c.activeMetablock).files
      i).curSize := rfl
    rw [hv]
    cases hc : utilsCheckContainedIn ((image cfg fl c.activeMetablock).files i).curSize offset
        size with
    | error e => exact (query_ofExcept _).seq_error
    | ok u => exact (query_ofExcept _).seq (h.dblockReadFile_query hG hi (hid.symm ▸ hf)
        (utilsCheckContainedIn_eq_ok.mp hc)).failAs
  · rw [he] at hq
    rw [hm]
    exact hq.failAs.seq_error

end Readable

/-! ## Answers of a run -/

/-- What `etss_flash_fs_file_get_info` answers. -/
def infoAnswer (cfg : Config) (c : Ctx) (fl : Flash) (fid : Fid) : Except Status FileInfo :=
  ((flashFsFileGetInfo cfg fid).run cfg.eraseVal c fl).status

/-- What `etss_flash_fs_file_read` answers. -/
def readAnswer (cfg : Config) (c : Ctx) (fl : Flash) (fid : Fid) (size offset : Nat) :
    Except Status (List UInt8) :=
  ((flashFsFileRead cfg fid size offset).run cfg.eraseVal c fl).status

theorem Readable.infoAnswer_eq (h : Readable cfg c fl) (hf : fid ≠ 0) : infoAnswer cfg c fl fid =
    Image.infoOf ((mountedImage cfg c fl).fileMap cfg fid) :=
  (wp_iff.mp (h.fileGetInfo_query hf (G := fun _ _ => True) fun _ _ _ _ _ _ => trivial)).2.1

theorem Readable.readAnswer_eq (h : Readable cfg c fl) (hf : fid ≠ 0) (size offset : Nat) :
    readAnswer cfg c fl fid size offset =
      Image.readOf size offset ((mountedImage cfg c fl).fileMap cfg fid) :=
  (wp_iff.mp (h.fileRead_query hf (G := fun _ _ => True) (fun _ _ _ _ _ _ => trivial)
    size offset)).2.1

theorem Mounted.infoAnswer_eq (h : Mounted cfg c fl) (hf : fid ≠ 0) : infoAnswer cfg c fl fid =
    Image.infoOf ((mountedImage cfg c fl).fileMap cfg fid) :=
  Readable.infoAnswer_eq h.ready hf

theorem Mounted.readAnswer_eq (h : Mounted cfg c fl) (hf : fid ≠ 0) (size offset : Nat) :
    readAnswer cfg c fl fid size offset =
      Image.readOf size offset ((mountedImage cfg c fl).fileMap cfg fid) :=
  Readable.readAnswer_eq h.ready hf size offset

end Etss
