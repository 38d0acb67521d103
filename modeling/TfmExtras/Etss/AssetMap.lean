import TfmExtras.Etss.SetAtomic

/-! The requests on a flash that reports no errors, as operations of a map from client ids and uids
to assets. -/

namespace Etss
open NorFlash NorFlash.Flash FlashM Ipc

/-! ## The map -/

/-- The assets, by client id and uid. -/
abbrev AssetMap := Int × Nat → Option Asset

namespace Request

def key (req : Request) : Int × Nat := (req.msg.clientId, req.uid)

def createFlags : Request → Nat
  | set _ _ createFlags => createFlags
  | _ => 0

/-- The answer of a request that fails. -/
def refuse (e : Status) : Request → Answer
  | set .. | remove .. => .status (.error e)
  | get .. => .data (.error e)
  | getInfo .. => .info (.error e)

end Request

/-- The status with which a request for that asset is refused. -/
def Request.refusedFor : Request → Option Asset → Option Status
  | .set .., none => none
  | .set .., some asset | .remove .., some asset =>
    if asset.flags &&& psaStorageFlagWriteOnce ≠ 0 then some .notPermitted else none
  | .get _ _ dataOffset _, some asset =>
    if dataOffset > asset.data.length then some .invalidArgument else none
  | .getInfo .., some _ => none
  | _, none => some .doesNotExist

namespace AssetMap

/-- The status of a request that is refused, however much room there is. -/
def refusal (configured : Int → Bool) (M : AssetMap) (req : Request) : Option Status :=
  if req.uid = etssInvalidUid then some .invalidArgument
  else if req.createFlags &&& not32 supportedFlags ≠ 0 then some .notSupported
  else if configured req.msg.clientId then req.refusedFor (M req.key)
  else some .notPermitted

/-- One request on the map. Only a request that sets an asset can find too little room. -/
inductive Serves (configured : Int → Bool) (M : AssetMap) : Request → Answer → AssetMap → Prop
  | refused {req : Request} {e : Status} (h : M.refusal configured req = some e) :
    Serves configured M req (req.refuse e) M
  | noRoom {msg : Msg} {uid flags : Nat} {e : Status}
    (h : M.refusal configured (.set msg uid flags) = none) :
    Serves configured M (.set msg uid flags) (.status (.error e)) M
  | set {msg : Msg} {uid flags : Nat} (h : M.refusal configured (.set msg uid flags) = none) :
    Serves configured M (.set msg uid flags) (.status (.ok ()))
      (Function.update M (msg.clientId, uid) (some ⟨msg.inVec 1, flags⟩))
  | get {msg : Msg} {uid dataOffset dataSize : Nat} {asset : Asset}
    (h : M.refusal configured (.get msg uid dataOffset dataSize) = none)
    (bound : M (msg.clientId, uid) = some asset) :
    Serves configured M (.get msg uid dataOffset dataSize)
      (.data (.ok ((asset.data.drop dataOffset).take dataSize))) M
  | getInfo {msg : Msg} {uid : Nat} {asset : Asset}
    (h : M.refusal configured (.getInfo msg uid) = none)
    (bound : M (msg.clientId, uid) = some asset) :
    Serves configured M (.getInfo msg uid)
      (.info (.ok (asset.data.length, asset.data.length, asset.flags))) M
  | remove {msg : Msg} {uid : Nat} (h : M.refusal configured (.remove msg uid) = none) :
    Serves configured M (.remove msg uid) (.status (.ok ()))
      (Function.update M (msg.clientId, uid) none)

variable {configured : Int → Bool} {M M' : AssetMap} {req : Request} {ans : Answer}

theorem Serves.of_refusal {e : Status} (h : M.Serves configured req ans M')
    (he : M.refusal configured req = some e) : ans = req.refuse e := by
  cases h with
  | refused h => rw [Option.some.inj (h.symm.trans he)]
  | _ h => exact nomatch h.symm.trans he

/-- The other assets stay. -/
theorem Serves.of_ne {k : Int × Nat} (h : M.Serves configured req ans M') (hk : k ≠ req.key) :
    M' k = M k := by
  cases h with
  | set _ => exact Function.update_of_ne hk _ _
  | remove _ => exact Function.update_of_ne hk _ _
  | _ => rfl

theorem Serves.set_cases {msg : Msg} {uid flags : Nat}
    (h : M.Serves configured (.set msg uid flags) ans M') :
    M' = M ∨ M' = Function.update M (msg.clientId, uid) (some ⟨msg.inVec 1, flags⟩) := by
  cases h with
  | set _ => exact .inr rfl
  | _ => exact .inl rfl

/-- One request after the other. -/
inductive Answers (configured : Int → Bool) :
    AssetMap → List Request → List Answer → AssetMap → Prop
  | nil (M : AssetMap) : Answers configured M [] [] M
  | cons {M M₁ M₂ : AssetMap} {req : Request} {ans : Answer} {reqs : List Request}
    {answers : List Answer} (serves : Serves configured M req ans M₁)
    (rest : Answers configured M₁ reqs answers M₂) :
    Answers configured M (req :: reqs) (ans :: answers) M₂

end AssetMap

/-! ## The map that the filesystems make -/

/-- A client id and a uid that an asset can have. -/
def IsKey (k : Int × Nat) : Prop :=
  -2 ^ 31 ≤ k.1 ∧ k.1 < 2 ^ 31 ∧ k.2 < 2 ^ 64 ∧ k.2 ≠ etssInvalidUid

instance : DecidablePred IsKey := fun k =>
  inferInstanceAs (Decidable (-2 ^ 31 ≤ k.1 ∧ k.1 < 2 ^ 31 ∧ k.2 < 2 ^ 64 ∧ k.2 ≠ etssInvalidUid))

theorem etssGetFid_inj {k k' : Int × Nat} (h : IsKey k) (h' : IsKey k')
    (he : etssGetFid k.1 k.2 = etssGetFid k'.1 k'.2) : k = k' := by
  have hn := congrArg BitVec.toNat he
  rw [etssGetFid_toNat h.2.2.1, etssGetFid_toNat h'.2.2.1] at hn
  obtain ⟨h₁, h₂, -⟩ := h
  obtain ⟨h₁', h₂', -⟩ := h'
  exact Prod.ext (by omega) (by omega)

theorem IsKey.fid_ne_zero {k : Int × Nat} (h : IsKey k) : etssGetFid k.1 k.2 ≠ 0 :=
  etssGetFid_ne_zero h.2.2.1 h.2.2.2

theorem Request.InRange.isKey {req : Request} (h : req.InRange) (hu : req.uid ≠ etssInvalidUid) :
    IsKey req.key :=
  ⟨h.client.1, h.client.2, h.uid, hu⟩

section
variable {ι : Type} (b : Build ι)

def Build.configured (client : Int) : Bool := (b.area client).isSome

def Build.assets (x : ι → Ctx × Flash) : AssetMap := fun k =>
  if IsKey k then
    (b.area k.1).bind fun i =>
      (mountedImage (b.cfg i) (x i).1 (x i).2).asset (b.cfg i) (etssGetFid k.1 k.2)
  else none

variable {b} {i : ι} {k : Int × Nat} {x x' : ι → Ctx × Flash} {a : Option Asset}

theorem Build.assets_eq (hk : IsKey k) (hb : b.area k.1 = some i) : b.assets x k =
    (mountedImage (b.cfg i) (x i).1 (x i).2).asset (b.cfg i) (etssGetFid k.1 k.2) := by
  unfold Build.assets
  rw [if_pos hk, hb]
  rfl

/-- One area is changed at one file id: whatever is seen of the other assets stays. -/
theorem Build.assets_ne {α : Type} {k' : Int × Nat} (f : Option Asset → α) (hk : IsKey k)
    (hb : b.area k.1 = some i)
    (hfids : ∀ fid, fid ≠ etssGetFid k.1 k.2 →
      f ((mountedImage (b.cfg i) (x' i).1 (x' i).2).asset (b.cfg i) fid) =
        f ((mountedImage (b.cfg i) (x i).1 (x i).2).asset (b.cfg i) fid))
    (hother : ∀ j, j ≠ i → x' j = x j) (hne : k' ≠ k) : f (b.assets x' k') = f (b.assets x k') := by
  unfold Build.assets
  split_ifs with hk'
  · cases hj : b.area k'.1 with
    | none => rw [Option.bind_none, Option.bind_none]
    | some j =>
      rw [Option.bind_some, Option.bind_some]
      by_cases hji : j = i
      · subst hji
        exact hfids _ fun he => hne (etssGetFid_inj hk' hk he)
      · rw [hother j hji]
  · rfl

theorem Build.assets_update (hk : IsKey k) (hb : b.area k.1 = some i)
    (hself : (mountedImage (b.cfg i) (x' i).1 (x' i).2).asset (b.cfg i) (etssGetFid k.1 k.2) = a)
    (hfids : ∀ fid, fid ≠ etssGetFid k.1 k.2 →
      (mountedImage (b.cfg i) (x' i).1 (x' i).2).asset (b.cfg i) fid =
        (mountedImage (b.cfg i) (x i).1 (x i).2).asset (b.cfg i) fid)
    (hother : ∀ j, j ≠ i → x' j = x j) : b.assets x' = Function.update (b.assets x) k a := by
  funext k'
  by_cases hkk : k' = k
  · rw [hkk, Function.update_self, Build.assets_eq hk hb, hself]
  · rw [Function.update_of_ne hkk]
    exact Build.assets_ne id hk hb hfids hother hkk

/-- One area is changed. -/
theorem Build.store_update (hst : ∀ i, Store (b.cfg i) (x i).1 (x i).2)
    (hi : Store (b.cfg i) (x' i).1 (x' i).2) (hother : ∀ j, j ≠ i → x' j = x j) (j : ι) :
    Store (b.cfg j) (x' j).1 (x' j).2 := by
  by_cases hj : j = i
  · rw [hj]
    exact hi
  · rw [hother j hj]
    exact hst j

theorem Build.configured_eq {client : Int} (hb : b.area client = some i) :
    b.configured client = true := by
  unfold Build.configured
  rw [hb]
  rfl

theorem Build.configured_none {client : Int} (hb : b.area client = none) :
    b.configured client = false := by
  unfold Build.configured
  rw [hb]
  rfl

/-- The number of the bytes, and the flags. -/
def Asset.info (asset : Asset) : Nat × Nat := (asset.data.length, asset.flags)

theorem Image.assetInfo_congr {cfg : Config} {st st' : Image} {fid : Fid}
    (h : infoOf (st'.fileMap cfg fid) = infoOf (st.fileMap cfg fid)) :
    (st'.asset cfg fid).map Asset.info = (st.asset cfg fid).map Asset.info := by
  unfold Image.asset
  cases hm : st.fileMap cfg fid with
  | none =>
    rw [hm] at h
    cases hm' : st'.fileMap cfg fid with
    | none => rfl
    | some w =>
      rw [hm'] at h
      exact nomatch h
  | some v =>
    rw [hm] at h
    obtain ⟨w, hw, hcur, -, hflags⟩ := Image.infoOf_some_inj h
    have hv := Image.fileMap_content_length hm
    have hw' := Image.fileMap_content_length hw
    rw [hw]
    exact congrArg some (Prod.ext (hw'.trans (hcur.trans hv.symm)) hflags)

end

/-! ## Requests that are refused -/

section
variable {φ : Type} {p : Platform φ} {fs : FileSystem φ} {msg : Msg} {uid flags dataLength o n : Nat}
  {s : Partition φ} {io : Io Reply} {v : FileInfo}
  (hsec : p.securityFeature.securityStorage = true) (hu : uid ≠ etssInvalidUid)
  (hfs : p.fsCtx msg.clientId = some fs)
include hsec hu hfs

theorem etssSet_refused
    (hlook : fs.fileGetInfo (etssGetFid msg.clientId uid) s.fs = (.ok v, s.fs))
    (hflags : flags &&& not32 supportedFlags = 0) (hw : v.flags &&& psaStorageFlagWriteOnce ≠ 0) :
    etssSet p msg uid dataLength flags s io = (.error .notPermitted, s, io) := by
  obtain ⟨look, write, read, delete⟩ := fs
  unfold etssSet
  rw [if_pos hsec, if_neg hu, if_neg (not_not_intro hflags), hfs]
  dsimp only at hlook ⊢
  rw [hlook]
  dsimp only
  rw [if_pos hw]

theorem etssRemove_absent {e : Status}
    (hlook : fs.fileGetInfo (etssGetFid msg.clientId uid) s.fs = (.error e, s.fs)) :
    etssRemove p msg uid s = (.error e, s) := by
  obtain ⟨look, write, read, delete⟩ := fs
  unfold etssRemove
  rw [if_pos hsec, if_neg hu, hfs]
  dsimp only at hlook ⊢
  rw [hlook]

theorem etssGet_absent {e : Status}
    (hlook : fs.fileGetInfo (etssGetFid msg.clientId uid) s.fs = (.error e, s.fs)) :
    etssGet p msg uid o n s io = (.error e, s, io) := by
  obtain ⟨look, write, read, delete⟩ := fs
  unfold etssGet
  rw [if_pos hsec, if_neg hu, hfs]
  dsimp only at hlook ⊢
  rw [hlook]

variable (hlook : fs.fileGetInfo (etssGetFid msg.clientId uid) s.fs = (.ok v, s.fs))
include hlook

theorem etssGet_refused (ho : v.sizeCurrent < o) :
    etssGet p msg uid o n s io = (.error .invalidArgument, s, io) := by
  obtain ⟨look, write, read, delete⟩ := fs
  unfold etssGet
  rw [if_pos hsec, if_neg hu, hfs]
  dsimp only at hlook ⊢
  rw [hlook]
  dsimp only
  rw [if_pos ho]

theorem etssRemove_refused (hw : v.flags &&& psaStorageFlagWriteOnce ≠ 0) :
    etssRemove p msg uid s = (.error .notPermitted, s) := by
  obtain ⟨look, write, read, delete⟩ := fs
  unfold etssRemove
  rw [if_pos hsec, if_neg hu, hfs]
  dsimp only at hlook ⊢
  rw [hlook]
  dsimp only
  rw [if_pos hw]

theorem etssRemove_served (hw : v.flags &&& psaStorageFlagWriteOnce = 0) :
    etssRemove p msg uid s =
      ((fs.fileDelete (etssGetFid msg.clientId uid) s.fs).1,
        { s with fs := (fs.fileDelete (etssGetFid msg.clientId uid) s.fs).2 }) := by
  obtain ⟨look, write, read, delete⟩ := fs
  unfold etssRemove
  rw [if_pos hsec, if_neg hu, hfs]
  dsimp only at hlook ⊢
  rw [hlook]
  dsimp only
  rw [if_neg (not_not_intro hw)]

end

section
variable {ι : Type} [DecidableEq ι] {b : Build ι} {i : ι} {msg : Msg} {uid flags o n : Nat}
  {s : Partition (Storage ι)} {io : Io Reply}

/-- The lookup finds what the map has. -/
theorem Build.fileGetInfo_assets (hst : Store (b.cfg i) (s.fs.fs i).1 (s.fs.fs i).2)
    (hk : IsKey (msg.clientId, uid)) (hb : b.area msg.clientId = some i) :
    ∃ info, (b.fileSystem i).fileGetInfo (etssGetFid msg.clientId uid) s.fs = (info, s.fs) ∧
      ((info = .error .doesNotExist ∧ b.assets s.fs.fs (msg.clientId, uid) = none) ∨
        ∃ v asset, info = .ok v ∧ b.assets s.fs.fs (msg.clientId, uid) = some asset ∧
          v.flags = asset.flags ∧ v.sizeCurrent = asset.data.length) := by
  refine ⟨_, fileGetInfo_look hst hk.fid_ne_zero, ?_⟩
  rw [Build.assets_eq hk hb]
  unfold Image.asset
  dsimp only
  cases hm : (mountedImage (b.cfg i) (s.fs.fs i).1 (s.fs.fs i).2).fileMap (b.cfg i)
    (etssGetFid msg.clientId uid) with
  | none => exact .inl ⟨rfl, rfl⟩
  | some v => exact .inr ⟨_, _, rfl, rfl, rfl, (Image.fileMap_content_length hm).symm⟩

theorem Build.fsCtx_eq (hb : b.area msg.clientId = some i) :
    b.platform.fsCtx msg.clientId = some (b.fileSystem i) := by
  show (b.area msg.clientId).map b.fileSystem = _
  rw [hb]
  rfl

theorem Build.fsCtx_none (hb : b.area msg.clientId = none) :
    b.platform.fsCtx msg.clientId = none := by
  show (b.area msg.clientId).map b.fileSystem = _
  rw [hb]
  rfl

namespace AssetMap
variable {M : AssetMap} {configured : Int → Bool} {req : Request}

theorem refusal_uid (hu : req.uid = etssInvalidUid) :
    M.refusal configured req = some .invalidArgument := by
  unfold refusal
  rw [if_pos hu]

theorem refusal_flags (hu : req.uid ≠ etssInvalidUid)
    (hs : req.createFlags &&& not32 supportedFlags ≠ 0) :
    M.refusal configured req = some .notSupported := by
  unfold refusal
  rw [if_neg hu, if_pos hs]

theorem refusal_client (hu : req.uid ≠ etssInvalidUid)
    (hs : req.createFlags &&& not32 supportedFlags = 0)
    (hb : configured req.msg.clientId = false) :
    M.refusal configured req = some .notPermitted := by
  unfold refusal
  rw [if_neg hu, if_neg (not_not_intro hs), hb, if_neg Bool.false_ne_true]

theorem refusal_served (req : Request) (hu : req.uid ≠ etssInvalidUid)
    (hs : req.createFlags &&& not32 supportedFlags = 0)
    (hb : configured req.msg.clientId = true) {a : Option Asset} (hm : M req.key = a) :
    M.refusal configured req = req.refusedFor a := by
  unfold refusal
  rw [if_neg hu, if_neg (not_not_intro hs), hb, if_pos rfl, hm]

end AssetMap

section
variable (hst : ∀ i, Store (b.cfg i) (s.fs.fs i).1 (s.fs.fs i).2)
include hst

/-- Setting an asset is refused, or it gets to the loop. -/
theorem etssSet_cases (hreq : (Request.set msg uid flags).InRange) :
    (∃ e, (b.assets s.fs.fs).refusal b.configured (.set msg uid flags) = some e ∧
      etssSet b.platform msg uid (msg.inSize 1) flags s io = (.error e, s, io)) ∨
    ((b.assets s.fs.fs).refusal b.configured (.set msg uid flags) = none ∧ uid ≠ etssInvalidUid ∧
      flags &&& not32 supportedFlags = 0 ∧ ∃ i, b.area msg.clientId = some i ∧
      etssSet b.platform msg uid (msg.inSize 1) flags s io = etssSetLoop b.platform (b.fileSystem i)
        (etssGetFid msg.clientId uid) msg (flags ||| flagCreate ||| flagTruncate) (msg.inSize 1) 0
        s io) := by
  by_cases hu : uid = etssInvalidUid
  · refine .inl ⟨_, AssetMap.refusal_uid hu, ?_⟩
    unfold etssSet
    rw [if_pos (show b.platform.securityFeature.securityStorage = true from b.storage), if_pos hu]
  by_cases hs : flags &&& not32 supportedFlags = 0
  swap
  · refine .inl ⟨_, AssetMap.refusal_flags hu hs, ?_⟩
    unfold etssSet
    rw [if_pos (show b.platform.securityFeature.securityStorage = true from b.storage), if_neg hu,
      if_pos hs]
  cases hb : b.area msg.clientId with
  | none =>
    refine .inl ⟨_, AssetMap.refusal_client hu hs (Build.configured_none hb), ?_⟩
    unfold etssSet
    rw [if_pos (show b.platform.securityFeature.securityStorage = true from b.storage), if_neg hu,
      if_neg (not_not_intro hs), Build.fsCtx_none hb]
  | some i =>
    have hk : IsKey (msg.clientId, uid) := hreq.isKey hu
    obtain ⟨info, hlook, hcase⟩ := Build.fileGetInfo_assets (hst i) hk hb
    have hserved : ∀ {a}, b.assets s.fs.fs (msg.clientId, uid) = a → _ :=
      AssetMap.refusal_served (.set msg uid flags) hu hs (Build.configured_eq hb)
    have hloop : (∀ v, info = .ok v → v.flags &&& psaStorageFlagWriteOnce = 0) →
        etssSet b.platform msg uid (msg.inSize 1) flags s io = etssSetLoop b.platform
          (b.fileSystem i) (etssGetFid msg.clientId uid) msg (flags ||| flagCreate ||| flagTruncate)
          (msg.inSize 1) 0 s io := fun h => by
      refine (etssSet_eq_loop b.storage hu hs (Build.fsCtx_eq hb) ?_).trans ?_
      · rw [hlook]
        rcases hcase with ⟨hn, -⟩ | ⟨v, _, hv, -⟩
        · exact .inl hn
        · exact .inr ⟨v, hv, h v hv⟩
      · rw [hlook]
    rcases hcase with ⟨hn, hm⟩ | ⟨v, asset, hv, hm, hflags, -⟩
    · exact .inr ⟨hserved hm, hu, hs, i, rfl, hloop fun v hv => nomatch hn.symm.trans hv⟩
    · by_cases hw : asset.flags &&& psaStorageFlagWriteOnce = 0
      · refine .inr ⟨(hserved hm).trans (if_neg (not_not_intro hw)), hu, hs, i, rfl,
          hloop fun v' hv' => ?_⟩
        obtain rfl := Except.ok.inj (hv.symm.trans hv')
        rw [hflags, hw]
      · refine .inl ⟨_, (hserved hm).trans (if_pos hw), ?_⟩
        exact etssSet_refused b.storage hu (Build.fsCtx_eq hb) (hv ▸ hlook) hs (hflags ▸ hw)

/-- Removing an asset is refused, or it gets to the filesystem. -/
theorem etssRemove_cases (hreq : (Request.remove msg uid).InRange) :
    (∃ e, (b.assets s.fs.fs).refusal b.configured (.remove msg uid) = some e ∧
      etssRemove b.platform msg uid s = (.error e, s)) ∨
    ((b.assets s.fs.fs).refusal b.configured (.remove msg uid) = none ∧ uid ≠ etssInvalidUid ∧
      ∃ i asset, b.area msg.clientId = some i ∧
      b.assets s.fs.fs (msg.clientId, uid) = some asset ∧ etssRemove b.platform msg uid s =
        ((s.fs.call (b.cfg i) i (.delete (etssGetFid msg.clientId uid))).1,
          { s with fs := (s.fs.call (b.cfg i) i (.delete (etssGetFid msg.clientId uid))).2 })) := by
  have hs : (Request.remove msg uid).createFlags &&& not32 supportedFlags = 0 := Nat.zero_and _
  by_cases hu : uid = etssInvalidUid
  · refine .inl ⟨_, AssetMap.refusal_uid hu, ?_⟩
    unfold etssRemove
    rw [if_pos (show b.platform.securityFeature.securityStorage = true from b.storage), if_pos hu]
  cases hb : b.area msg.clientId with
  | none =>
    refine .inl ⟨_, AssetMap.refusal_client hu hs (Build.configured_none hb), ?_⟩
    unfold etssRemove
    rw [if_pos (show b.platform.securityFeature.securityStorage = true from b.storage), if_neg hu,
      Build.fsCtx_none hb]
  | some i =>
    have hk : IsKey (msg.clientId, uid) := hreq.isKey hu
    obtain ⟨info, hlook, hcase⟩ := Build.fileGetInfo_assets (hst i) hk hb
    have hserved : ∀ {a}, b.assets s.fs.fs (msg.clientId, uid) = a → _ :=
      AssetMap.refusal_served (.remove msg uid) hu hs (Build.configured_eq hb)
    rcases hcase with ⟨rfl, hm⟩ | ⟨v, asset, rfl, hm, hflags, -⟩
    · exact .inl ⟨_, hserved hm, etssRemove_absent b.storage hu (Build.fsCtx_eq hb) hlook⟩
    · by_cases hw : asset.flags &&& psaStorageFlagWriteOnce = 0
      · exact .inr ⟨(hserved hm).trans (if_neg (not_not_intro hw)), hu, i, asset, rfl, hm,
          etssRemove_served b.storage hu (Build.fsCtx_eq hb) hlook (hflags ▸ hw)⟩
      · exact .inl ⟨_, (hserved hm).trans (if_pos hw),
          etssRemove_refused b.storage hu (Build.fsCtx_eq hb) hlook (hflags ▸ hw)⟩

/-- Reading the size and the flags. -/
theorem etssGetInfo_serves (hreq : (Request.getInfo msg uid).InRange) :
    (etssGetInfo b.platform msg uid s).2 = s ∧
    (b.assets s.fs.fs).Serves b.configured (.getInfo msg uid) (.info
      ((etssGetInfo b.platform msg uid s).1.map fun info => (info.capacity, info.size, info.flags)))
      (b.assets s.fs.fs) := by
  have hs : (Request.getInfo msg uid).createFlags &&& not32 supportedFlags = 0 := Nat.zero_and _
  by_cases hu : uid = etssInvalidUid
  · have hout : etssGetInfo b.platform msg uid s = (.error .invalidArgument, s) := by
      unfold etssGetInfo
      rw [if_pos (show b.platform.securityFeature.securityStorage = true from b.storage), if_pos hu]
    rw [hout]
    exact ⟨rfl, .refused (AssetMap.refusal_uid hu)⟩
  cases hb : b.area msg.clientId with
  | none =>
    have hout : etssGetInfo b.platform msg uid s = (.error .notPermitted, s) := by
      unfold etssGetInfo
      rw [if_pos (show b.platform.securityFeature.securityStorage = true from b.storage), if_neg hu,
        Build.fsCtx_none hb]
    rw [hout]
    exact ⟨rfl, .refused (AssetMap.refusal_client hu hs (Build.configured_none hb))⟩
  | some i =>
    have hk : IsKey (msg.clientId, uid) := hreq.isKey hu
    have hserved : ∀ {a}, b.assets s.fs.fs (msg.clientId, uid) = a → _ :=
      AssetMap.refusal_served (.getInfo msg uid) hu hs (Build.configured_eq hb)
    have hmap := Build.assets_eq (x := s.fs.fs) hk hb
    unfold Image.asset at hmap
    rw [etssGetInfo_run (hst i) hb hu hk.fid_ne_zero]
    refine ⟨rfl, ?_⟩
    cases hm : (mountedImage (b.cfg i) (s.fs.fs i).1 (s.fs.fs i).2).fileMap (b.cfg i)
      (etssGetFid msg.clientId uid) with
    | none =>
      rw [hm] at hmap
      exact .refused (hserved hmap)
    | some v =>
      rw [hm] at hmap
      have hlen := Image.fileMap_content_length hm
      have h := AssetMap.Serves.getInfo (hserved hmap) hmap
      rw [show v.asset.data.length = v.curSize from hlen] at h
      exact h

/-- Reading the bytes. -/
theorem etssGet_serves (hreq : (Request.get msg uid o n).InRange) :
    (etssGet b.platform msg uid o n s .start).2.1.fs = s.fs ∧
    (b.assets s.fs.fs).Serves b.configured (.get msg uid o n) (.data
      ((etssGet b.platform msg uid o n s .start).1.map fun _ =>
        written (etssGet b.platform msg uid o n s .start).2.2.events)) (b.assets s.fs.fs) := by
  have hs : (Request.get msg uid o n).createFlags &&& not32 supportedFlags = 0 := Nat.zero_and _
  by_cases hu : uid = etssInvalidUid
  · have hout : etssGet b.platform msg uid o n s .start = (.error .invalidArgument, s, .start) := by
      unfold etssGet
      rw [if_pos (show b.platform.securityFeature.securityStorage = true from b.storage), if_pos hu]
    rw [hout]
    exact ⟨rfl, .refused (AssetMap.refusal_uid hu)⟩
  cases hb : b.area msg.clientId with
  | none =>
    have hout : etssGet b.platform msg uid o n s .start = (.error .notPermitted, s, .start) := by
      unfold etssGet
      rw [if_pos (show b.platform.securityFeature.securityStorage = true from b.storage), if_neg hu,
        Build.fsCtx_none hb]
    rw [hout]
    exact ⟨rfl, .refused (AssetMap.refusal_client hu hs (Build.configured_none hb))⟩
  | some i =>
    have hk : IsKey (msg.clientId, uid) := hreq.isKey hu
    have hserved : ∀ {a}, b.assets s.fs.fs (msg.clientId, uid) = a → _ :=
      AssetMap.refusal_served (.get msg uid o n) hu hs (Build.configured_eq hb)
    obtain ⟨info, hlook, hcase⟩ := Build.fileGetInfo_assets (hst i) hk hb
    rcases hcase with ⟨rfl, hm⟩ | ⟨v, asset, rfl, hm, -, hlen⟩
    · rw [etssGet_absent b.storage hu (Build.fsCtx_eq hb) hlook]
      exact ⟨rfl, .refused (hserved hm)⟩
    rcases le_or_gt o v.sizeCurrent with ho | ho
    swap
    · rw [etssGet_refused b.storage hu (Build.fsCtx_eq hb) hlook ho]
      exact ⟨rfl, .refused ((hserved hm).trans (if_pos (hlen ▸ ho)))⟩
    have hmap := (Build.assets_eq (x := s.fs.fs) hk hb).symm.trans hm
    obtain ⟨w, hw, rfl⟩ := Option.map_eq_some_iff.mp hmap
    have hcur : w.content.length = w.curSize := Image.fileMap_content_length hw
    have hcur' : v.sizeCurrent = w.curSize := hlen.trans hcur
    obtain ⟨hok, hfs, hbytes⟩ := etssGet_run (hst i) hb hu hk.fid_ne_zero hw (hcur' ▸ ho) n .start
    rw [hok, hbytes]
    refine ⟨hfs, ?_⟩
    have h : (b.assets s.fs.fs).Serves b.configured (.get msg uid o n) _ _ :=
      .get ((hserved hm).trans (if_neg (by omega))) hm
    have htake : ((w.content.drop o).take n) = (w.content.drop o).take (min n (w.curSize - o)) := by
      rw [List.take_eq_take_iff, List.length_drop, hcur]
      omega
    rw [show w.asset.data = w.content from rfl, htake] at h
    exact h

end

/-! ## One request -/

section
variable {x x' : ι → Ctx × Flash} {buf : Nat → UInt8} {req : Request} {ans : Answer}

/-- The request is served, and takes an empty file away that starts where a nonempty one starts. -/
def Request.Exposes (b : Build ι) (x : ι → Ctx × Flash) (buf : Nat → UInt8) (req : Request) : Prop :=
  (b.assets x).refusal b.configured req = none ∧ ∃ i, b.area req.msg.clientId = some i ∧
    match req with
    | .set msg uid createFlags => (mountedImage (b.cfg i) (x i).1 (x i).2).ReplaceShares (b.cfg i)
      (b.firstRound msg uid createFlags x buf)
    | .remove msg uid => (mountedImage (b.cfg i) (x i).1 (x i).2).RemoveShares (b.cfg i)
      (etssGetFid msg.clientId uid)
    | _ => False

/-- What a request leaves. The other assets keep their sizes and flags in any case. -/
structure Served (b : Build ι) (x : ι → Ctx × Flash) (buf : Nat → UInt8) (req : Request)
    (ans : Answer) (x' : ι → Ctx × Flash) : Prop where
  store : ∀ i, Store (b.cfg i) (x' i).1 (x' i).2
  refused : ∀ e, (b.assets x).refusal b.configured req = some e → ans = req.refuse e ∧ x' = x
  others : ∀ k, k ≠ req.key → (b.assets x' k).map Asset.info = (b.assets x k).map Asset.info
  serves : ¬ req.Exposes b x buf → (b.assets x).Serves b.configured req ans (b.assets x')

theorem Served.of_refused (hst : ∀ i, Store (b.cfg i) (x i).1 (x i).2) {e : Status}
    (he : (b.assets x).refusal b.configured req = some e) :
    Served b x buf req (req.refuse e) x := by
  refine ⟨hst, fun e' he' => ?_, fun _ _ => rfl, fun _ => .refused he⟩
  rw [he] at he'
  exact ⟨congrArg req.refuse (Option.some.inj he'), rfl⟩

/-- A request that only looks an asset up. -/
theorem Served.of_serves (hst : ∀ i, Store (b.cfg i) (x i).1 (x i).2)
    (h : (b.assets x).Serves b.configured req ans (b.assets x)) : Served b x buf req ans x :=
  ⟨hst, fun _ he => ⟨h.of_refusal he, rfl⟩, fun _ _ => rfl, fun _ => h⟩

section
variable (hst : ∀ i, Store (b.cfg i) (x i).1 (x i).2) (hb : b.area msg.clientId = some i)
include hst hb

theorem etssSetLoop_served (hreq : (Request.set msg uid flags).InRange) (hlt : flags < 2 ^ 32)
    (hu : uid ≠ etssInvalidUid) (hs : flags &&& not32 supportedFlags = 0)
    (hno : (b.assets x).refusal b.configured (.set msg uid flags) = none) {out : _}
    (hout : etssSetLoop b.platform (b.fileSystem i) (etssGetFid msg.clientId uid) msg
      (flags ||| flagCreate ||| flagTruncate) (msg.inSize 1) 0 ⟨⟨x, []⟩, buf⟩ .start = out) :
    Served b x buf (.set msg uid flags) (.status out.1) out.2.1.fs.fs ∧
      (out.1 = .ok () → (b.assets out.2.1.fs.fs (msg.clientId, uid)).map Asset.info =
        some (msg.inSize 1, flags)) := by
  subst hout
  have hk : IsKey (msg.clientId, uid) := hreq.isKey hu
  have hflags := setFlags_of_supported hlt hs
  rcases Build.firstRound_cases (hst i) hreq hu hflags buf with hr | ⟨hv, -, hfirst⟩
  · obtain ⟨e, he⟩ := hr.status
    have hcall : (b.fileSystem i).fileWrite (etssGetFid msg.clientId uid)
        (flags ||| flagCreate ||| flagTruncate) (msg.inSize 1)
        (min (msg.inSize 1) b.platform.assetDataSize) 0
        (setBuffer b.platform msg (msg.inSize 1) ⟨⟨x, []⟩, buf⟩ .start) ⟨x, []⟩ =
          (.error e, (Storage.call (b.cfg i) i ⟨x, []⟩
            (.write (b.firstRound msg uid flags x buf))).2) := Prod.ext he rfl
    obtain ⟨hstatus, hfs⟩ := etssSetLoop_error hcall
    rw [hstatus, hfs]
    have hself : (Storage.call (b.cfg i) i ⟨x, []⟩
        (.write (b.firstRound msg uid flags x buf))).2.fs i = _ := Function.update_self _ _ _
    have hother : ∀ j, j ≠ i → (Storage.call (b.cfg i) i ⟨x, []⟩
        (.write (b.firstRound msg uid flags x buf))).2.fs j = x j :=
      fun j hj => Function.update_of_ne hj _ _
    generalize (Storage.call (b.cfg i) i ⟨x, []⟩
      (.write (b.firstRound msg uid flags x buf))).2.fs = x' at hself hother ⊢
    have hfids : ∀ fid, (mountedImage (b.cfg i) (x' i).1 (x' i).2).asset (b.cfg i) fid =
        (mountedImage (b.cfg i) (x i).1 (x i).2).asset (b.cfg i) fid := fun fid => by
      unfold Image.asset
      rw [hself, hr.map]
    have hsame : b.assets x' = b.assets x := by
      rw [Build.assets_update hk hb (hfids _) (fun fid _ => hfids fid) hother,
        ← Build.assets_eq hk hb, Function.update_eq_self]
    refine ⟨⟨Build.store_update hst (hself ▸ hr.store) hother,
      fun e he => (nomatch hno.symm.trans he), fun k _ => by rw [hsame], fun _ => ?_⟩,
      fun h => (nomatch h)⟩
    rw [hsame]
    exact .noRoom hno
  · obtain ⟨v, hm, -⟩ := hfirst.file
    obtain ⟨hasset, hlen⟩ := firstImage_asset hflags hfirst hm
    have happ : AppendFlags ((flags ||| flagCreate ||| flagTruncate) &&&
        not32 (flagCreate ||| flagTruncate)) := by
      rw [hflags.further]
      exact ⟨hlt, hflags.internal, hflags.append⟩
    obtain ⟨hok, hpart, hother, -⟩ := etssSetLoop_made (s := ⟨⟨x, []⟩, buf⟩) hv rfl rfl happ hfirst
      rfl hm rfl
    rw [hok]
    generalize (etssSetLoop b.platform (b.fileSystem i) (etssGetFid msg.clientId uid) msg
      (flags ||| flagCreate ||| flagTruncate) (msg.inSize 1) 0 ⟨⟨x, []⟩, buf⟩ .start).2.1.fs.fs = x'
      at hpart hother ⊢
    have hD : (v.content ++ (msg.inVec 1).drop b.assetDataSize).length = msg.inSize 1 := by
      rw [List.length_append, hlen, List.length_drop]
      show _ + (msg.inSize 1 - _) = _
      omega
    have hown : b.assets x' (msg.clientId, uid) =
        some ⟨v.content ++ (msg.inVec 1).drop b.assetDataSize, flags⟩ := by
      rw [Build.assets_eq hk hb]
      unfold Image.asset
      rw [hpart.map, Function.update_self, ← hD, List.take_length]
      exact congrArg some (congrArg (Asset.mk _) (congrArg Asset.flags hasset))
    have hne : ∀ fid, fid ≠ etssGetFid msg.clientId uid →
        (mountedImage (b.cfg i) (x' i).1 (x' i).2).fileMap (b.cfg i) fid =
          (b.firstImage i msg uid flags x buf).fileMap (b.cfg i) fid := fun fid hf => by
      rw [hpart.map, Function.update_of_ne hf]
      rfl
    refine ⟨⟨Build.store_update hst hpart.store hother,
      fun e he => (nomatch hno.symm.trans he), fun k hkey => ?_, fun hexp => ?_⟩, fun _ => ?_⟩
    · refine Build.assets_ne (Option.map Asset.info) hk hb (fun fid hf => ?_) hother hkey
      refine Image.assetInfo_congr ?_
      rw [hne fid hf]
      exact hfirst.others fid hf
    · have hmap := hfirst.map fun hsh => hexp ⟨hno, i, hb, hsh⟩
      have hcontent : v.content = (msg.inVec 1).take (min (msg.inSize 1) b.assetDataSize) := by
        have hf := congrFun hmap (etssGetFid msg.clientId uid)
        rw [show (etssGetFid msg.clientId uid) = (b.firstRound msg uid flags x buf).fid from rfl,
          Function.update_self] at hf
        obtain rfl := Option.some.inj (hm.symm.trans hf)
        exact firstRound_data
      have hbytes : v.content ++ (msg.inVec 1).drop b.assetDataSize = msg.inVec 1 := by
        rw [hcontent]
        rcases le_total (msg.inSize 1) b.assetDataSize with hle | hle
        · rw [min_eq_left hle, List.drop_eq_nil_of_le hle, List.append_nil]
          exact List.take_length
        · rw [min_eq_right hle, List.take_append_drop]
      rw [hbytes] at hown
      have hset : b.assets x' = Function.update (b.assets x) (msg.clientId, uid)
          (some ⟨msg.inVec 1, flags⟩) := by
        refine Build.assets_update hk hb ((Build.assets_eq hk hb).symm.trans hown)
          (fun fid hf => ?_) hother
        unfold Image.asset
        rw [hne fid hf]
        exact congrArg (Option.map Image.View.asset)
          ((congrFun hmap fid).trans (Function.update_of_ne hf _ _))
      rw [hset]
      exact .set hno
    · rw [hown]
      exact congrArg some (Prod.ext hD rfl)

theorem fileDelete_served (hreq : (Request.remove msg uid).InRange) (hu : uid ≠ etssInvalidUid)
    {asset : Asset} (hm : b.assets x (msg.clientId, uid) = some asset)
    (hno : (b.assets x).refusal b.configured (.remove msg uid) = none) {out : _}
    (hout : Storage.call (b.cfg i) i ⟨x, []⟩ (.delete (etssGetFid msg.clientId uid)) = out) :
    Served b x buf (.remove msg uid) (.status out.1) out.2.fs := by
  have hk : IsKey (msg.clientId, uid) := hreq.isKey hu
  have hs : DeleteSpec (b.cfg i) (x i).1 (x i).2 (etssGetFid msg.clientId uid) _ _ _ :=
    (hst i).call_spec (f := .delete _) hk.fid_ne_zero
  have hstatus : out.1 = ((FsCall.delete (etssGetFid msg.clientId uid)).after (b.cfg i) (x i).1
    (x i).2).status := hout ▸ rfl
  have hself : out.2.fs i = (((FsCall.delete (etssGetFid msg.clientId uid)).after (b.cfg i) (x i).1
      (x i).2).ctx, ((FsCall.delete (etssGetFid msg.clientId uid)).after (b.cfg i) (x i).1
        (x i).2).flash) := by
    subst hout
    exact Function.update_self _ _ _
  have hother : ∀ j, j ≠ i → out.2.fs j = x j := fun j hj => by
    subst hout
    exact Function.update_of_ne hj _ _
  generalize (FsCall.delete (etssGetFid msg.clientId uid)).after (b.cfg i) (x i).1 (x i).2 = res
    at hs hstatus hself
  have hbound := (Build.assets_eq (x := x) hk hb).symm.trans hm
  rcases hs.effect.fileMap (hst i).wf (hst i).accepted (hst i).closed hk.fid_ne_zero with
    ⟨-, hn, -⟩ | ⟨hok, -, hgone, hinfo, hmap⟩
  · unfold Image.asset at hbound
    rw [hn] at hbound
    exact nomatch hbound
  rw [hstatus, hok]
  refine ⟨Build.store_update hst (hself ▸ hs.store) hother,
    fun e he => (nomatch hno.symm.trans he), fun k hkey => ?_, fun hexp => ?_⟩
  · refine Build.assets_ne (Option.map Asset.info) hk hb (fun fid hf => ?_) hother hkey
    rw [hself]
    exact Image.assetInfo_congr (hinfo fid hf)
  · have hset : b.assets out.2.fs = Function.update (b.assets x) (msg.clientId, uid) none := by
      refine Build.assets_update hk hb ?_ (fun fid hf => ?_) hother
      · rw [hself]
        exact congrArg (Option.map Image.View.asset) hgone
      · rw [hself]
        exact congrArg (Option.map Image.View.asset)
          ((congrFun (hmap fun hsh => hexp ⟨hno, i, hb, hsh⟩) fid).trans
            (Function.update_of_ne hf _ _))
    rw [hset]
    exact .remove hno

end

/-- One request, on any filesystems. -/
theorem serve_served (hst : ∀ i, Store (b.cfg i) (s.fs.fs i).1 (s.fs.fs i).2)
    (hreq : req.InRange) (hlt : req.createFlags < 2 ^ 32) :
    Served b s.fs.fs s.assetData req (b.serve req s).1 (b.serve req s).2.fs.fs := by
  obtain ⟨⟨x, cs⟩, buf⟩ := s
  cases req with
  | set msg uid flags =>
    show Served b x buf _ (.status (etssSet b.platform msg uid (msg.inSize 1) flags ⟨⟨x, []⟩, buf⟩
      .start).1) (etssSet b.platform msg uid (msg.inSize 1) flags ⟨⟨x, []⟩, buf⟩ .start).2.1.fs.fs
    rcases etssSet_cases (s := ⟨⟨x, []⟩, buf⟩) hst hreq with
      ⟨e, he, hout⟩ | ⟨hno, hu, hs, i, hb, hout⟩
    · rw [hout]
      exact .of_refused hst he
    · exact (etssSetLoop_served hst hb hreq hlt hu hs hno hout.symm).1
  | get msg uid o n =>
    obtain ⟨hfs, h⟩ := etssGet_serves (s := ⟨⟨x, []⟩, buf⟩) hst hreq
    show Served b x buf _ _ (etssGet b.platform msg uid o n ⟨⟨x, []⟩, buf⟩ .start).2.1.fs.fs
    rw [hfs]
    exact .of_serves hst h
  | getInfo msg uid =>
    obtain ⟨hs, h⟩ := etssGetInfo_serves (s := ⟨⟨x, []⟩, buf⟩) hst hreq
    show Served b x buf _ _ (etssGetInfo b.platform msg uid ⟨⟨x, []⟩, buf⟩).2.fs.fs
    rw [hs]
    exact .of_serves hst h
  | remove msg uid =>
    show Served b x buf _ (.status (etssRemove b.platform msg uid ⟨⟨x, []⟩, buf⟩).1)
      (etssRemove b.platform msg uid ⟨⟨x, []⟩, buf⟩).2.fs.fs
    rcases etssRemove_cases (s := ⟨⟨x, []⟩, buf⟩) hst hreq with
      ⟨e, he, hout⟩ | ⟨hno, hu, i, asset, hb, hm, hout⟩
    · rw [hout]
      exact .of_refused hst he
    · rw [hout]
      exact fileDelete_served hst hb hreq hu hm hno rfl

end

/-! ## A run -/

/-- One request after the other. -/
def Build.run (b : Build ι) : List Request → Partition (Storage ι) →
    List Answer × Partition (Storage ι)
  | [], s => ([], s)
  | req :: reqs, s =>
    let (ans, s) := b.serve req s
    let (answers, s) := b.run reqs s
    (ans :: answers, s)

/-- No request of the run takes an empty file away that starts where a nonempty one starts. -/
def Build.Unexposed (b : Build ι) : List Request → Partition (Storage ι) → Prop
  | [], _ => True
  | req :: reqs, s =>
    ¬ req.Exposes b s.fs.fs s.assetData ∧ b.Unexposed reqs (b.serve req s).2

/-- The requests are answered as by a map, and leave the filesystems as it is left. -/
theorem run_answers {reqs : List Request} (hreqs : ∀ req ∈ reqs, req.InRange ∧ req.createFlags < 2 ^ 32) :
    ∀ s : Partition (Storage ι), (∀ i, Store (b.cfg i) (s.fs.fs i).1 (s.fs.fs i).2) →
      b.Unexposed reqs s → (∀ i, Store (b.cfg i) ((b.run reqs s).2.fs.fs i).1
        ((b.run reqs s).2.fs.fs i).2) ∧
      AssetMap.Answers b.configured (b.assets s.fs.fs) reqs (b.run reqs s).1
        (b.assets (b.run reqs s).2.fs.fs) := by
  induction reqs with
  | nil => exact fun s hst _ => ⟨hst, .nil _⟩
  | cons req reqs ih =>
    intro s hst ⟨hexp, hrest⟩
    obtain ⟨hreq, hlt⟩ := hreqs req List.mem_cons_self
    have hserved := serve_served hst hreq hlt
    obtain ⟨hst', hans⟩ := ih (fun req' h => hreqs req' (List.mem_cons_of_mem _ h))
      (b.serve req s).2 hserved.store hrest
    exact ⟨hst', .cons (hserved.serves hexp) hans⟩

end

/-- One filesystem without files. -/
def emptyArea : Partition (Storage Unit) := ⟨⟨fun _ => filled fiveBlocks [], []⟩, fun _ => 0⟩

theorem store_emptyArea (i : Unit) :
    Store (oneArea.cfg i) (emptyArea.fs.fs i).1 (emptyArea.fs.fs i).2 :=
  (reaches_filled fun _ hf => absurd hf List.not_mem_nil).store (oneArea.accepted i)

/-- An asset is set, removed and looked for. -/
def setThenRemove : List Request := [.set setAgain 1 0, .remove setAgain 1, .getInfo setAgain 1]

theorem run_answers_setThenRemove : AssetMap.Answers oneArea.configured
    (oneArea.assets emptyArea.fs.fs) setThenRemove (oneArea.run setThenRemove emptyArea).1
    (oneArea.assets (oneArea.run setThenRemove emptyArea).2.fs.fs) := by
  have hreqs : ∀ req ∈ setThenRemove, (-2 ^ 31 ≤ req.msg.clientId ∧ req.msg.clientId < 2 ^ 31) ∧
      req.uid < 2 ^ 64 ∧ req.msg.inSize 1 < 2 ^ 32 ∧ req.createFlags < 2 ^ 32 := by decide
  refine (run_answers (fun req hreq => ?_) emptyArea store_emptyArea ?_).2
  · obtain ⟨h₁, h₂, h₃, h₄⟩ := hreqs req hreq
    exact ⟨⟨h₁, h₂, h₃⟩, h₄⟩
  refine And.intro ?_ (And.intro ?_ (And.intro ?_ trivial))
  · rintro ⟨-, i, -, p, -, hrep, -⟩
    have hfree : ∀ j < fiveBlocks.maxNumFiles, ((mountedImage fiveBlocks (filled fiveBlocks []).1
      (filled fiveBlocks []).2).files j).id ≠ etssGetFid 1 1 := by decide +kernel
    exact hfree _ hrep.oldIdx_lt hrep.id
  · rintro ⟨-, i, -, d, hd, hid, h0, -⟩
    have hsize : ∀ j < fiveBlocks.maxNumFiles,
        ((mountedImage fiveBlocks ((oneArea.serve (.set setAgain 1 0) emptyArea).2.fs.fs ()).1
          ((oneArea.serve (.set setAgain 1 0) emptyArea).2.fs.fs ()).2).files j).id =
            etssGetFid 1 1 →
        ((mountedImage fiveBlocks ((oneArea.serve (.set setAgain 1 0) emptyArea).2.fs.fs ()).1
          ((oneArea.serve (.set setAgain 1 0) emptyArea).2.fs.fs ()).2).files j).maxSize ≠ 0 := by
      decide +kernel
    exact hsize d hd hid h0
  · rintro ⟨-, i, -, h⟩
    exact h

/-- Client 1 has no bytes. -/
def setEmpty : Msg := { setAgain with inVec := fun _ => [] }

/-- An empty asset is set, then one of four bytes, and the empty one is removed. -/
def removeEmpty : List Request := [.set setEmpty 1 0, .set setAgain 2 0, .remove setAgain 1]

/-- The bytes of the other asset are gone. -/
theorem not_run_answers : (∀ req ∈ removeEmpty, req.InRange ∧ req.createFlags < 2 ^ 32) ∧
    (∀ i, Store (oneArea.cfg i) (emptyArea.fs.fs i).1 (emptyArea.fs.fs i).2) ∧
    ¬ AssetMap.Answers oneArea.configured (oneArea.assets emptyArea.fs.fs) removeEmpty
      (oneArea.run removeEmpty emptyArea).1
      (oneArea.assets (oneArea.run removeEmpty emptyArea).2.fs.fs) := by
  have hreqs : ∀ req ∈ removeEmpty, (-2 ^ 31 ≤ req.msg.clientId ∧ req.msg.clientId < 2 ^ 31) ∧
      req.uid < 2 ^ 64 ∧ req.msg.inSize 1 < 2 ^ 32 ∧ req.createFlags < 2 ^ 32 := by decide
  refine ⟨fun req hreq => ?_, store_emptyArea, fun h => ?_⟩
  · obtain ⟨h₁, h₂, h₃, h₄⟩ := hreqs req hreq
    exact ⟨⟨h₁, h₂, h₃⟩, h₄⟩
  have hnone : oneArea.assets emptyArea.fs.fs (1, 2) = none := by decide +kernel
  have hlost : oneArea.assets (oneArea.run removeEmpty emptyArea).2.fs.fs (1, 2) =
      some ⟨[0xFF, 0xFF, 0xFF, 0xFF], 0⟩ := by decide +kernel
  generalize oneArea.assets (oneArea.run removeEmpty emptyArea).2.fs.fs = M at h hlost
  generalize oneArea.assets emptyArea.fs.fs = M₀ at h hnone
  generalize (oneArea.run removeEmpty emptyArea).1 = answers at h
  unfold removeEmpty at h
  cases h with
  | cons h₁ h =>
    cases h with
    | cons h₂ h =>
      cases h with
      | cons h₃ h =>
        cases h
        rw [h₃.of_ne (by decide)] at hlost
        rcases h₂.set_cases with rfl | rfl
        · rw [h₁.of_ne (by decide), hnone] at hlost
          exact nomatch hlost
        · rw [show ((1 : Int), 2) = (setAgain.clientId, 2) from rfl, Function.update_self] at hlost
          exact absurd hlost (by decide)

end Etss
