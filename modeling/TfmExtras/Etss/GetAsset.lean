import TfmExtras.Etss.SetAsset

/-! The requests that read an asset: what they answer is computed from the files. -/

namespace Etss
open NorFlash NorFlash.Flash FlashM Ipc

variable {ι : Type} [DecidableEq ι] {b : Build ι} {i : ι} {msg : Msg} {uid n o : Nat} {fid : Fid}
  {v : Image.View} {s : Partition (Storage ι)} {io : Io Reply}

/-- A lookup leaves the filesystems as they are. -/
theorem Storage.look_eq {α : Type} {cfg : Config} {i : ι} {m : FsM α} {s : Storage ι}
    {G : Prog.Guard} {r : Except Status α}
    (h : m.Query cfg.eraseVal G (s.fs i).1 (s.fs i).2 r) : s.look cfg i m = (r, s) := by
  unfold look
  rw [h.run_eq]
  dsimp only
  rw [Prod.mk.eta, Function.update_eq_self]

theorem written_append (evs : List (Event Reply)) (bs : List UInt8) :
    written (evs ++ [.write 0 bs]) = written evs ++ bs := by
  unfold written
  rw [List.flatMap_append]
  simp

section
variable (h : Store (b.cfg i) (s.fs.fs i).1 (s.fs.fs i).2) (hf : fid ≠ 0)
include h hf

/-- The lookup of an asset. -/
theorem fileGetInfo_look : (b.fileSystem i).fileGetInfo fid s.fs = (Image.infoOf
    ((mountedImage (b.cfg i) (s.fs.fs i).1 (s.fs.fs i).2).fileMap (b.cfg i) fid), s.fs) :=
  Storage.look_eq (Readable.fileGetInfo_query h.ready hf (G := fun _ _ => True)
    fun _ _ _ _ _ _ => trivial)

theorem fileRead_look (size offset : Nat) : (b.fileSystem i).fileRead fid size offset s.fs =
    (Image.readOf size offset
      ((mountedImage (b.cfg i) (s.fs.fs i).1 (s.fs.fs i).2).fileMap (b.cfg i) fid), s.fs) :=
  Storage.look_eq (Readable.fileRead_query h.ready hf (G := fun _ _ => True)
    (fun _ _ _ _ _ _ => trivial) size offset)

end

/-- A part of the bytes of a file. -/
theorem Image.readOf_part (h : o + n ≤ v.curSize) :
    readOf n o (some v) = .ok ((v.content.drop o).take n) := by
  unfold readOf
  dsimp only
  rw [utilsCheckContainedIn_eq_ok.mpr h]
  rfl

/-! ## The loop that reads -/

section
variable {φ : Type} {p : Platform φ} {fs : FileSystem φ} {dataSize dataOffset : Nat}
  {s : Partition φ} {bs : List UInt8} {x : φ}

theorem etssGetLoop_last
    (h : fs.fileRead fid (min dataSize p.assetDataSize) dataOffset s.fs = (.ok bs, x))
    (hd : dataSize ≤ p.assetDataSize) :
    etssGetLoop p fs fid dataSize dataOffset s io = (.ok (), ⟨x, fillBuf s.assetData bs⟩,
      io.psaWrite 0 (bytesOf (fillBuf s.assetData bs) (min dataSize p.assetDataSize))) := by
  rw [etssGetLoop]
  dsimp only
  rw [h]
  dsimp only
  rw [dif_neg (by omega)]

theorem etssGetLoop_next
    (h : fs.fileRead fid (min dataSize p.assetDataSize) dataOffset s.fs = (.ok bs, x))
    (hd : p.assetDataSize < dataSize) :
    etssGetLoop p fs fid dataSize dataOffset s io =
      etssGetLoop p fs fid (dataSize - p.assetDataSize) (dataOffset + p.assetDataSize)
        ⟨x, fillBuf s.assetData bs⟩
        (io.psaWrite 0 (bytesOf (fillBuf s.assetData bs) (min dataSize p.assetDataSize))) := by
  have hmin : min dataSize p.assetDataSize = p.assetDataSize := min_eq_right hd.le
  conv_lhs => rw [etssGetLoop]
  dsimp only
  rw [h]
  dsimp only
  rw [dif_pos (by omega)]
  simp only [hmin]

end

/-- The rounds read one part after the other. -/
theorem etssGetLoop_run (hf : fid ≠ 0) (n : Nat) : ∀ (o : Nat) (s : Partition (Storage ι))
    (io : Io Reply), Store (b.cfg i) (s.fs.fs i).1 (s.fs.fs i).2 →
    (mountedImage (b.cfg i) (s.fs.fs i).1 (s.fs.fs i).2).fileMap (b.cfg i) fid = some v →
    o + n ≤ v.curSize →
    (etssGetLoop b.platform (b.fileSystem i) fid n o s io).1 = .ok () ∧
    (etssGetLoop b.platform (b.fileSystem i) fid n o s io).2.1.fs = s.fs ∧
    written (etssGetLoop b.platform (b.fileSystem i) fid n o s io).2.2.events =
      written io.events ++ (v.content.drop o).take n := by
  induction n using Nat.strong_induction_on with
  | h n ih =>
    intro o s io hst hm hn
    have hB := b.assetDataSize_pos
    have hlen : v.content.length = v.curSize := Image.fileMap_content_length hm
    have hread := fileRead_look hst hf (min n b.assetDataSize) o
    rw [hm, Image.readOf_part (by omega)] at hread
    have hbytes : bytesOf (fillBuf s.assetData ((v.content.drop o).take (min n b.assetDataSize)))
        (min n b.assetDataSize) = (v.content.drop o).take (min n b.assetDataSize) := by
      have hb := fillBuf_bytes s.assetData ((v.content.drop o).take (min n b.assetDataSize))
      have hl : ((v.content.drop o).take (min n b.assetDataSize)).length =
          min n b.assetDataSize := by
        rw [List.length_take, List.length_drop]
        omega
      rw [hl] at hb
      exact hb
    rcases le_or_gt n b.assetDataSize with hle | hlt
    · rw [etssGetLoop_last hread hle]
      refine ⟨rfl, rfl, ?_⟩
      show written (io.events ++ [.write 0 (bytesOf _ (min n b.assetDataSize))]) = _
      rw [hbytes, written_append, min_eq_left hle]
    · rw [etssGetLoop_next hread hlt]
      obtain ⟨hok, hfs, hw⟩ := ih (n - b.assetDataSize) (by omega) (o + b.assetDataSize)
        ⟨s.fs, fillBuf s.assetData ((v.content.drop o).take (min n b.assetDataSize))⟩
        (io.psaWrite 0 (bytesOf (fillBuf s.assetData
          ((v.content.drop o).take (min n b.assetDataSize))) (min n b.assetDataSize))) hst hm
        (by omega)
      refine ⟨hok, hfs, hw.trans ?_⟩
      show written (io.events ++ [.write 0 (bytesOf _ (min n b.assetDataSize))]) ++ _ = _
      rw [hbytes, written_append, min_eq_right hlt.le, List.append_assoc, ← List.drop_drop,
        ← List.take_add, Nat.add_sub_cancel' hlt.le]

/-! ## The requests -/

/-- What a client gets of an asset with `etss_get_info` and `etss_get`. -/
def Build.fetch (b : Build ι) (msg : Msg) (uid : Nat) (s : Partition (Storage ι)) :
    Except Status Asset :=
  match (etssGetInfo b.platform msg uid s).1 with
  | .error e => .error e
  | .ok info =>
    let out := etssGet b.platform msg uid 0 info.size s .start
    out.1.map fun _ => ⟨written out.2.2.events, info.flags⟩

section
variable (h : Store (b.cfg i) (s.fs.fs i).1 (s.fs.fs i).2) (hb : b.area msg.clientId = some i)
  (hu : uid ≠ etssInvalidUid) (hf : etssGetFid msg.clientId uid ≠ 0)
include h hb hu hf

theorem etssGetInfo_run : etssGetInfo b.platform msg uid s =
    ((Image.infoOf ((mountedImage (b.cfg i) (s.fs.fs i).1 (s.fs.fs i).2).fileMap (b.cfg i)
      (etssGetFid msg.clientId uid))).map fun info => ⟨info.sizeCurrent, info.sizeCurrent,
        info.flags⟩, s) := by
  have hfs : b.platform.fsCtx msg.clientId = some (b.fileSystem i) := by
    show (b.area msg.clientId).map b.fileSystem = _
    rw [hb]
    rfl
  have hlook := fileGetInfo_look h hf
  generalize b.fileSystem i = fs at hfs hlook
  obtain ⟨look, write, read, delete⟩ := fs
  dsimp only at hlook
  unfold etssGetInfo
  rw [if_pos (show b.platform.securityFeature.securityStorage = true from b.storage), if_neg hu, hfs]
  dsimp only
  rw [hlook]
  cases Image.infoOf ((mountedImage (b.cfg i) (s.fs.fs i).1 (s.fs.fs i).2).fileMap (b.cfg i)
    (etssGetFid msg.clientId uid)) <;> rfl

/-- A bound asset is read from an offset up to its end. -/
theorem etssGet_run (hm : (mountedImage (b.cfg i) (s.fs.fs i).1 (s.fs.fs i).2).fileMap (b.cfg i)
      (etssGetFid msg.clientId uid) = some v) (ho : o ≤ v.curSize) (n : Nat) (io : Io Reply) :
    (etssGet b.platform msg uid o n s io).1 = .ok () ∧
    (etssGet b.platform msg uid o n s io).2.1.fs = s.fs ∧
    written (etssGet b.platform msg uid o n s io).2.2.events =
      written io.events ++ (v.content.drop o).take (min n (v.curSize - o)) := by
  have hfs : b.platform.fsCtx msg.clientId = some (b.fileSystem i) := by
    show (b.area msg.clientId).map b.fileSystem = _
    rw [hb]
    rfl
  have hlook := fileGetInfo_look h hf
  rw [hm] at hlook
  have hloop := etssGetLoop_run hf (min n (v.curSize - o)) o s io h hm (by omega)
  have hget : etssGet b.platform msg uid o n s io = etssGetLoop b.platform (b.fileSystem i)
      (etssGetFid msg.clientId uid) (min n (v.curSize - o)) o s io := by
    generalize b.fileSystem i = fs at hfs hlook
    obtain ⟨look, write, read, delete⟩ := fs
    dsimp only at hlook
    unfold etssGet
    rw [if_pos (show b.platform.securityFeature.securityStorage = true from b.storage), if_neg hu,
      hfs]
    dsimp only
    rw [hlook]
    dsimp only [Image.infoOf]
    rw [if_neg (by omega)]
  rw [hget]
  exact hloop

/-- What a client gets is what the filesystem shows. -/
theorem fetch_eq : b.fetch msg uid s =
    match (mountedImage (b.cfg i) (s.fs.fs i).1 (s.fs.fs i).2).asset (b.cfg i)
      (etssGetFid msg.clientId uid) with
    | none => .error .doesNotExist
    | some asset => .ok asset := by
  unfold Build.fetch Image.asset
  rw [etssGetInfo_run h hb hu hf]
  cases hm : (mountedImage (b.cfg i) (s.fs.fs i).1 (s.fs.fs i).2).fileMap (b.cfg i)
      (etssGetFid msg.clientId uid) with
  | none => rfl
  | some v =>
    obtain ⟨hok, _, hw⟩ := etssGet_run h hb hu hf hm (Nat.zero_le _) v.curSize .start
    have hlen := Image.fileMap_content_length hm
    rw [Nat.sub_zero, min_self, List.drop_zero, ← hlen, List.take_length] at hw
    show (etssGet b.platform msg uid 0 v.curSize s .start).1.map _ = _
    rw [hok, ← hlen]
    exact congrArg (fun bs => Except.ok (⟨bs, v.flags &&& userFlagsMask⟩ : Asset)) hw

end

end Etss
