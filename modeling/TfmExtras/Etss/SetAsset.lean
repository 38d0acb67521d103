import TfmExtras.Etss.Assets
import TfmExtras.Etss.RequestFault

/-! The loop that sets an asset: the writes it makes, and the files they leave. -/

namespace Etss
open NorFlash NorFlash.Flash FlashM Ipc

/-! ## One round -/

section
variable {φ : Type} {p : Platform φ} {fs : FileSystem φ} {fid : Fid} {msg : Msg}
  {flags dataLength offset : Nat} {s : Partition φ} {io : Io Reply} {x : φ} {e : Status}

/-- What a round has in the buffer. -/
def setBuffer (p : Platform φ) (msg : Msg) (dataLength : Nat) (s : Partition φ) (io : Io Reply) :
    Nat → UInt8 :=
  fillBuf s.assetData (io.psaRead msg 1 p.assetDataSize (min dataLength p.assetDataSize)).1

theorem etssSetLoop_error (h : fs.fileWrite fid flags dataLength (min dataLength p.assetDataSize)
    offset (setBuffer p msg dataLength s io) s.fs = (.error e, x)) :
    (etssSetLoop p fs fid msg flags dataLength offset s io).1 = .error e ∧
      (etssSetLoop p fs fid msg flags dataLength offset s io).2.1.fs = x := by
  unfold setBuffer at h
  rw [etssSetLoop]
  dsimp only
  rw [h]
  exact ⟨rfl, rfl⟩

theorem etssSetLoop_last (h : fs.fileWrite fid flags dataLength (min dataLength p.assetDataSize)
    offset (setBuffer p msg dataLength s io) s.fs = (.ok (), x))
    (hd : dataLength ≤ p.assetDataSize) :
    (etssSetLoop p fs fid msg flags dataLength offset s io).1 = .ok () ∧
      (etssSetLoop p fs fid msg flags dataLength offset s io).2.1.fs = x := by
  unfold setBuffer at h
  rw [etssSetLoop]
  dsimp only
  rw [h]
  dsimp only
  rw [dif_neg (by omega)]
  exact ⟨rfl, rfl⟩

theorem etssSetLoop_next (h : fs.fileWrite fid flags dataLength (min dataLength p.assetDataSize)
    offset (setBuffer p msg dataLength s io) s.fs = (.ok (), x))
    (hd : p.assetDataSize < dataLength) :
    etssSetLoop p fs fid msg flags dataLength offset s io =
      etssSetLoop p fs fid msg (flags &&& not32 (flagCreate ||| flagTruncate))
        (dataLength - p.assetDataSize) (offset + p.assetDataSize)
        ⟨x, setBuffer p msg dataLength s io⟩
        (io.psaRead msg 1 p.assetDataSize p.assetDataSize).2 := by
  have hmin : min dataLength p.assetDataSize = p.assetDataSize := min_eq_right hd.le
  unfold setBuffer at h ⊢
  conv_lhs => rw [etssSetLoop]
  dsimp only
  rw [h]
  dsimp only
  rw [dif_pos (by omega)]
  simp only [hmin]

end

/-! ## The bytes of a round -/

/-- The write that a round makes. -/
def setRequest {φ : Type} (p : Platform φ) (fid : Fid) (msg : Msg) (flags dataLength offset : Nat)
    (s : Partition φ) (io : Io Reply) : WriteReq :=
  ⟨fid, flags, dataLength, min dataLength p.assetDataSize, offset, setBuffer p msg dataLength s io⟩

theorem fillBuf_bytes (buf : Nat → UInt8) (bs : List UInt8) :
    (List.range bs.length).map (fillBuf buf bs) = bs := by
  refine List.ext_getElem (by simp) fun k h₁ h₂ => ?_
  simp [fillBuf, List.getD_eq_getElem?_getD, h₂]

/-- The bytes that follow those that are taken already. -/
theorem setRequest_data {φ : Type} {p : Platform φ} {fid : Fid} {msg : Msg} {flags n o : Nat}
    {s : Partition φ} {io : Io Reply} (ht : io.taken 1 = o) (hn : o + n = (msg.inVec 1).length) :
    (List.range (setRequest p fid msg flags n o s io).dataSize).map
        (setRequest p fid msg flags n o s io).data =
      ((msg.inVec 1).drop o).take (min n p.assetDataSize) := by
  have hlen : (((msg.inVec 1).drop o).take (min n p.assetDataSize)).length =
      min n p.assetDataSize := by
    rw [List.length_take, List.length_drop]
    omega
  have hbuf := fillBuf_bytes s.assetData (((msg.inVec 1).drop o).take (min n p.assetDataSize))
  rw [hlen] at hbuf
  show (List.range (min n p.assetDataSize)).map (fillBuf s.assetData
    (((msg.inVec 1).drop (io.taken 1)).take (min n p.assetDataSize))) = _
  rw [ht]
  exact hbuf

/-! ## Rounds that append -/

section
variable {cfg : Config} {M : Fid → Option Image.View} {fid : Fid} {v : Image.View} {o : Nat}
  {D : List UInt8} {r : WriteReq}

/-- The file has the first `o` bytes of `D`, and the other files are those of `M`. -/
structure HasPart (cfg : Config) (M : Fid → Option Image.View) (fid : Fid) (v : Image.View)
    (D : List UInt8) (o : Nat) (x : Ctx × Flash) : Prop where
  store : Store cfg x.1 x.2
  map : (mountedImage cfg x.1 x.2).fileMap cfg =
    Function.update M fid (some { v with curSize := o, content := D.take o })

theorem HasPart.append {x : Ctx × Flash} (h : HasPart cfg M fid v D o x) (hv : r.Valid cfg)
    (hfid : r.fid = fid) (htr : r.flags &&& flagTruncate = 0)
    (hflags : r.flags &&& internalFlagsMask = 0)
    (hal : utilsIsAligned r.offset cfg.programUnit = true) (ho : r.offset = o)
    (hsz : o + r.size cfg ≤ v.maxSize)
    (hdata : (List.range r.dataSize).map r.data = (D.drop o).take r.dataSize) :
    ((FsCall.write r).after cfg x.1 x.2).status = .ok () ∧
      HasPart cfg M fid v D (o + r.dataSize) (((FsCall.write r).after cfg x.1 x.2).ctx,
        ((FsCall.write r).after cfg x.1 x.2).flash) := by
  subst hfid ho
  have hm : (mountedImage cfg x.1 x.2).fileMap cfg r.fid =
      some { v with curSize := r.offset, content := D.take r.offset } := by
    rw [h.map, Function.update_self]
  obtain ⟨hok, hst, hmap⟩ := h.store.appendWrite hv htr hflags hm hal rfl hsz
  refine ⟨hok, hst, ?_⟩
  rw [hmap, h.map, Function.update_idem, hdata, ← List.take_add]

end

theorem utilsAlign_add {o n k : Nat} (h : AlignFits (o + n) (2 ^ k)) (hk : k < 32)
    (hd : 2 ^ k ∣ o) : utilsAlign (o + n) (2 ^ k) = o + utilsAlign n (2 ^ k) := by
  have hn : AlignFits n (2 ^ k) := lt_of_le_of_lt (Nat.add_le_add_right (Nat.le_add_left n o) _) h
  have hle := Nat.mod_le (n + (2 ^ k - 1)) (2 ^ k)
  have hmod : (o + n + (2 ^ k - 1)) % 2 ^ k = (n + (2 ^ k - 1)) % 2 ^ k := by
    rw [Nat.add_assoc, Nat.add_mod, Nat.mod_eq_zero_of_dvd hd, Nat.zero_add, Nat.mod_mod]
  rw [utilsAlign_two_pow h hk, utilsAlign_two_pow hn hk, hmod]
  omega

theorem utilsAlign_of_dvd {n k : Nat} (h : AlignFits n (2 ^ k)) (hk : k < 32) (hd : 2 ^ k ∣ n) :
    utilsAlign n (2 ^ k) = n :=
  le_antisymm (utilsAlign_le h hk hd le_rfl) (le_utilsAlign h)

/-- The flags of a write that appends. -/
structure AppendFlags (flags : Nat) : Prop where
  lt : flags < 2 ^ 32
  internal : flags &&& internalFlagsMask = 0
  truncate : flags &&& flagTruncate = 0

theorem AppendFlags.and {flags : Nat} (h : AppendFlags flags) (m : Nat) :
    AppendFlags (flags &&& m) := by
  refine ⟨lt_of_le_of_lt Nat.and_le_left h.lt, ?_, ?_⟩
  · rw [Nat.land_assoc, Nat.land_comm m, ← Nat.land_assoc, h.internal, Nat.zero_and]
  · rw [Nat.land_assoc, Nat.land_comm m, ← Nat.land_assoc, h.truncate, Nat.zero_and]

section
variable {ι : Type} {b : Build ι} {i : ι} {msg : Msg} {fid : Fid} {v : Image.View}
  {M : Fid → Option Image.View} {D : List UInt8} {n o flags : Nat} {x : Ctx × Flash}
  {φ : Type} {p : Platform φ} {s : Partition φ} {io : Io Reply}

/-- A round after the first one. -/
theorem HasPart.round (hx : HasPart (b.cfg i) M fid v D o x)
    (hp : p.assetDataSize = b.assetDataSize) (hf : fid ≠ 0)
    (hfits : AlignFits D.length (b.cfg i).programUnit)
    (hmax : utilsAlign D.length (b.cfg i).programUnit ≤ v.maxSize)
    (hD : D.drop o = (msg.inVec 1).drop o) (hlen : D.length = (msg.inVec 1).length)
    (hn : o + n = D.length) (hd : b.assetDataSize ∣ o) (ht : io.taken 1 = o)
    (hflags : AppendFlags flags) :
    (setRequest p fid msg flags n o s io).Valid (b.cfg i) ∧
    ((FsCall.write (setRequest p fid msg flags n o s io)).after (b.cfg i) x.1 x.2).status = .ok () ∧
    HasPart (b.cfg i) M fid v D (min (o + b.assetDataSize) D.length)
      (((FsCall.write (setRequest p fid msg flags n o s io)).after (b.cfg i) x.1 x.2).ctx,
        ((FsCall.write (setRequest p fid msg flags n o s io)).after (b.cfg i) x.1 x.2).flash) := by
  obtain ⟨k, hk⟩ := b.unit i
  have hk32 := programUnit_exp_lt hk
  have hunit : 2 ^ k ∣ b.assetDataSize := hk ▸ b.assetDataSize_dvd i
  have hlt := b.assetDataSize_lt
  rw [hk] at hfits hmax
  have hmono : ∀ {x}, x ≤ D.length → AlignFits x (2 ^ k) := fun hx =>
    lt_of_le_of_lt (Nat.add_le_add_right hx _) hfits
  have hlt32 : D.length < 2 ^ 32 :=
    lt_of_le_of_lt ((le_utilsAlign hfits)) (utilsAlign_lt _ _)
  have hsize : min n p.assetDataSize ≤ n := min_le_left _ _
  have hvalid : (setRequest p fid msg flags n o s io).Valid (b.cfg i) := by
    refine ⟨hf, hflags.lt, ?_, ?_, ?_⟩
    · show o < 2 ^ 32
      omega
    · rw [hk]
      exact hmono (show n ≤ _ by omega)
    · rw [hk]
      exact hmono (show min n p.assetDataSize ≤ _ by omega)
  have hal : utilsIsAligned o (b.cfg i).programUnit = true := by
    rw [hk, utilsIsAligned_iff hk32]
    exact hunit.trans hd
  -- the last part can be rounded up, the others end at a multiple of the buffer
  have hsz : o + utilsAlign (min n p.assetDataSize) (b.cfg i).programUnit ≤ v.maxSize := by
    rw [hk]
    refine le_trans ?_ hmax
    rw [hp]
    rcases le_total n b.assetDataSize with hle | hle
    · rw [min_eq_left hle, ← utilsAlign_add (hn.symm ▸ hfits) hk32 (hunit.trans hd), hn]
    · rw [min_eq_right hle, utilsAlign_of_dvd (hmono (by omega)) hk32 hunit]
      exact le_trans (by omega) (le_utilsAlign hfits)
  obtain ⟨hok, hpart⟩ := hx.append hvalid rfl hflags.truncate hflags.internal hal rfl hsz
    ((setRequest_data ht (hn.trans hlen)).trans (by rw [← hD]; rfl))
  refine ⟨hvalid, hok, ?_⟩
  have hmin : min (o + b.assetDataSize) D.length = o + min n p.assetDataSize := by
    rw [hp]
    omega
  rw [hmin]
  exact hpart

end

section
variable {ι : Type} [DecidableEq ι] {b : Build ι} {i : ι} {msg : Msg} {fid : Fid} {v : Image.View}
  {M : Fid → Option Image.View} {D : List UInt8}

/-- A write that takes the file from one part of `D` to the next. -/
structure PartCall (b : Build ι) (i : ι) (M : Fid → Option Image.View) (fid : Fid)
    (v : Image.View) (D : List UInt8) (x : Called ι) : Prop where
  area : x.area = i
  part : ∃ r o, x.call = .write r ∧ r.Valid (b.cfg i) ∧ 0 < o ∧ o < D.length ∧
    b.assetDataSize ∣ o ∧ HasPart (b.cfg i) M fid v D o (x.before i) ∧
    HasPart (b.cfg i) M fid v D (min (o + b.assetDataSize) D.length)
      ((x.call.after (b.cfg i) (x.before i).1 (x.before i).2).ctx,
        (x.call.after (b.cfg i) (x.before i).1 (x.before i).2).flash)

/-- The further rounds succeed, one part after the other. -/
theorem etssSetLoop_append (hf : fid ≠ 0)
    (hfits : AlignFits D.length (b.cfg i).programUnit)
    (hmax : utilsAlign D.length (b.cfg i).programUnit ≤ v.maxSize)
    (hlen : D.length = (msg.inVec 1).length) (n : Nat) :
    ∀ (o flags : Nat) (s : Partition (Storage ι)) (io : Io Reply),
      o + n = D.length → 0 < n → 0 < o → b.assetDataSize ∣ o → io.taken 1 = o →
      D.drop o = (msg.inVec 1).drop o → AppendFlags flags → HasPart (b.cfg i) M fid v D o (s.fs.fs i) →
      (etssSetLoop b.platform (b.fileSystem i) fid msg flags n o s io).1 = .ok () ∧
      HasPart (b.cfg i) M fid v D D.length
        ((etssSetLoop b.platform (b.fileSystem i) fid msg flags n o s io).2.1.fs.fs i) ∧
      (∀ j, j ≠ i → (etssSetLoop b.platform (b.fileSystem i) fid msg flags n o s io).2.1.fs.fs j =
        s.fs.fs j) ∧
      ∃ cs, (etssSetLoop b.platform (b.fileSystem i) fid msg flags n o s io).2.1.fs.calls =
        s.fs.calls ++ cs ∧ ∀ x ∈ cs, PartCall b i M fid v D x := by
  induction n using Nat.strong_induction_on with
  | h n ih =>
    intro o flags s io hn hpos ho hd ht hD hflags hpart
    have hB := b.assetDataSize_pos
    obtain ⟨hv, hok, hnext⟩ := hpart.round (p := b.platform) (s := s) rfl hf hfits hmax hD
      hlen hn hd ht hflags
    have hcall : (b.fileSystem i).fileWrite fid flags n (min n b.platform.assetDataSize) o
        (setBuffer b.platform msg n s io) s.fs = (.ok (), (s.fs.call (b.cfg i) i
          (.write (setRequest b.platform fid msg flags n o s io))).2) := Prod.ext hok rfl
    have hthis : PartCall b i M fid v D
        ⟨i, s.fs.fs, .write (setRequest b.platform fid msg flags n o s io)⟩ :=
      ⟨rfl, _, o, rfl, hv, ho, by omega, hd, hpart, hnext⟩
    have hself : (s.fs.call (b.cfg i) i
        (.write (setRequest b.platform fid msg flags n o s io))).2.fs i = _ :=
      Function.update_self _ _ _
    have hother : ∀ j, j ≠ i → (s.fs.call (b.cfg i) i
        (.write (setRequest b.platform fid msg flags n o s io))).2.fs j = s.fs.fs j :=
      fun j hj => Function.update_of_ne hj _ _
    rcases le_or_gt n b.assetDataSize with hle | hlt
    · obtain ⟨hst, hfs⟩ := etssSetLoop_last hcall hle
      rw [hfs]
      refine ⟨hst, ?_, hother,
        [⟨i, s.fs.fs, .write (setRequest b.platform fid msg flags n o s io)⟩], rfl, fun x hx => ?_⟩
      · rw [hself, ← show min (o + b.assetDataSize) D.length = D.length by
          omega]
        exact hnext
      · exact List.mem_singleton.mp hx ▸ hthis
    · rw [etssSetLoop_next hcall hlt]
      have hpart' : HasPart (b.cfg i) M fid v D (o + b.assetDataSize)
          ((s.fs.call (b.cfg i) i
            (.write (setRequest b.platform fid msg flags n o s io))).2.fs i) := by
        rw [hself, ← show min (o + b.assetDataSize) D.length = o + b.assetDataSize by
          omega]
        exact hnext
      have htaken : (io.psaRead msg 1 b.assetDataSize b.assetDataSize).2.taken 1 =
          o + b.assetDataSize := by
        rw [Io.psaRead_taken_self, ht, List.length_take, List.length_drop, ← hlen]
        omega
      obtain ⟨hst, hp, ho', cs, hcs, hall⟩ := ih (n - b.assetDataSize) (by omega)
        (o + b.assetDataSize) (flags &&& not32 (flagCreate ||| flagTruncate))
        ⟨(s.fs.call (b.cfg i) i (.write (setRequest b.platform fid msg flags n o s io))).2,
          setBuffer b.platform msg n s io⟩ _ (by omega) (by omega) (by omega)
        (Nat.dvd_add hd (Nat.dvd_refl _)) htaken
        (by rw [← List.drop_drop, hD, List.drop_drop]) (hflags.and _) hpart'
      refine ⟨hst, hp, fun j hj => (ho' j hj).trans (hother j hj),
        ⟨i, s.fs.fs, .write (setRequest b.platform fid msg flags n o s io)⟩ :: cs, ?_,
        fun x hx => ?_⟩
      · exact hcs.trans (List.append_assoc _ [_] cs)
      · rcases List.mem_cons.mp hx with rfl | hx
        · exact hthis
        · exact hall x hx

/-- What the first write leaves is a first part, if the bytes go on from there. -/
theorem FirstWrite.hasPart {cfg : Config} {c : Ctx} {fl : Flash} {r : WriteReq}
    {out : Outcome Ctx Status Unit} (h : FirstWrite cfg c fl r out)
    (hm : M = (mountedImage cfg out.ctx out.flash).fileMap cfg) (hvw : M r.fid = some v)
    (hD : v.content <+: D) : HasPart cfg M r.fid v D r.dataSize (out.ctx, out.flash) := by
  obtain ⟨w, hw, hof⟩ := h.file
  rw [← hm] at hw
  obtain rfl : v = w := Option.some.inj (hvw.symm.trans hw)
  have hlen : v.content.length = r.dataSize := by
    rw [hm] at hvw
    rw [Image.fileMap_content_length hvw, hof.curSize]
  have htake : D.take r.dataSize = v.content := by
    rw [← hlen]
    exact (List.prefix_iff_eq_take.mp hD).symm
  refine ⟨h.store, hm.symm.trans ?_⟩
  rw [htake, ← hof.curSize]
  exact ((congrArg (Function.update M r.fid) hvw.symm).trans
    (Function.update_eq_self r.fid M)).symm

/-- A request whose first write is made is completed. The bytes are those that the first write
leaves, and the rest of the caller's. -/
theorem etssSetLoop_made {n flags : Nat} {s : Partition (Storage ι)} {io : Io Reply}
    (hv : (setRequest b.platform fid msg flags n 0 s io).Valid (b.cfg i))
    (hn : n = (msg.inVec 1).length) (ht : io.taken 1 = 0)
    (hflags : AppendFlags (flags &&& not32 (flagCreate ||| flagTruncate)))
    (hfirst : FirstWrite (b.cfg i) (s.fs.fs i).1 (s.fs.fs i).2
      (setRequest b.platform fid msg flags n 0 s io)
      ((FsCall.write (setRequest b.platform fid msg flags n 0 s io)).after (b.cfg i) (s.fs.fs i).1
        (s.fs.fs i).2))
    (hm : M = (mountedImage (b.cfg i)
      ((FsCall.write (setRequest b.platform fid msg flags n 0 s io)).after (b.cfg i) (s.fs.fs i).1
        (s.fs.fs i).2).ctx
      ((FsCall.write (setRequest b.platform fid msg flags n 0 s io)).after (b.cfg i) (s.fs.fs i).1
        (s.fs.fs i).2).flash).fileMap (b.cfg i))
    (hvw : M fid = some v)
    (hD : D = v.content ++ (msg.inVec 1).drop b.assetDataSize) :
    (etssSetLoop b.platform (b.fileSystem i) fid msg flags n 0 s io).1 = .ok () ∧
    HasPart (b.cfg i) M fid v D n
      ((etssSetLoop b.platform (b.fileSystem i) fid msg flags n 0 s io).2.1.fs.fs i) ∧
    (∀ j, j ≠ i → (etssSetLoop b.platform (b.fileSystem i) fid msg flags n 0 s io).2.1.fs.fs j =
      s.fs.fs j) ∧
    ∃ cs, (etssSetLoop b.platform (b.fileSystem i) fid msg flags n 0 s io).2.1.fs.calls =
      s.fs.calls ++
        ⟨i, s.fs.fs, .write (setRequest b.platform fid msg flags n 0 s io)⟩ :: cs ∧
      ∀ x ∈ cs, PartCall b i M fid v D x := by
  have hB := b.assetDataSize_pos
  obtain ⟨w, hw, hof⟩ := hfirst.file
  rw [← hm] at hw
  obtain rfl : v = w := Option.some.inj (hvw.symm.trans hw)
  have hcur : v.curSize = min n b.assetDataSize := hof.curSize
  have hclen : v.content.length = min n b.assetDataSize := by
    rw [hm] at hvw
    rw [Image.fileMap_content_length hvw, hcur]
  have hlen : D.length = n := by
    rw [hD, List.length_append, hclen, List.length_drop]
    omega
  have hpart : HasPart (b.cfg i) M fid v D (min n b.assetDataSize)
      ((s.fs.call (b.cfg i) i
        (.write (setRequest b.platform fid msg flags n 0 s io))).2.fs i) := by
    rw [show (s.fs.call (b.cfg i) i (.write (setRequest b.platform fid msg flags n 0 s io))).2.fs i =
      _ from Function.update_self _ _ _]
    exact hfirst.hasPart hm hvw (hD ▸ List.prefix_append _ _)
  have hother : ∀ j, j ≠ i → (s.fs.call (b.cfg i) i
      (.write (setRequest b.platform fid msg flags n 0 s io))).2.fs j = s.fs.fs j :=
    fun j hj => Function.update_of_ne hj _ _
  have hcall : (b.fileSystem i).fileWrite fid flags n (min n b.platform.assetDataSize) 0
      (setBuffer b.platform msg n s io) s.fs = (.ok (), (s.fs.call (b.cfg i) i
        (.write (setRequest b.platform fid msg flags n 0 s io))).2) := Prod.ext hfirst.status rfl
  rcases le_or_gt n b.assetDataSize with hle | hlt
  · obtain ⟨hst, hfs⟩ := etssSetLoop_last hcall hle
    rw [hfs]
    refine ⟨hst, ?_, hother, [], rfl, fun x hx => absurd hx List.not_mem_nil⟩
    rwa [min_eq_left hle] at hpart
  · rw [etssSetLoop_next hcall hlt]
    rw [min_eq_right hlt.le] at hpart hclen
    have hfits : AlignFits D.length (b.cfg i).programUnit := hlen.symm ▸ hv.maxSize
    have hmax : utilsAlign D.length (b.cfg i).programUnit ≤ v.maxSize := by
      rw [hlen, hof.maxSize]
      exact le_rfl
    have htaken : (io.psaRead msg 1 b.assetDataSize b.assetDataSize).2.taken 1 =
        0 + b.assetDataSize := by
      rw [Io.psaRead_taken_self, ht, List.length_take, List.length_drop]
      omega
    have hdrop : D.drop b.assetDataSize = (msg.inVec 1).drop b.assetDataSize := by
      rw [hD, ← hclen]
      exact List.drop_left
    obtain ⟨hst, hp, ho, cs, hcs, hall⟩ := etssSetLoop_append hv.fid hfits hmax (hlen.trans hn)
      (n - b.assetDataSize) (0 + b.assetDataSize) (flags &&& not32 (flagCreate ||| flagTruncate))
      ⟨(s.fs.call (b.cfg i) i (.write (setRequest b.platform fid msg flags n 0 s io))).2,
        setBuffer b.platform msg n s io⟩ _ (by omega) (by omega) (by omega)
      (by rw [Nat.zero_add]) htaken (by rwa [Nat.zero_add]) hflags (by rwa [Nat.zero_add])
    rw [hlen] at hp
    exact ⟨hst, hp, fun j hj => (ho j hj).trans (hother j hj), cs,
      hcs.trans (List.append_assoc _ [_] cs), hall⟩

end

end Etss
