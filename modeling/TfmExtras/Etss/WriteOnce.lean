import TfmExtras.Etss.AssetMap
import TfmExtras.Etss.Startup

/-! Assets that are written once, over requests, restarts and losses of power. -/

namespace Etss
open NorFlash NorFlash.Flash FlashM Ipc

/-! ## The calls of a request -/

/-- What the map of a filesystem tells of a file. -/
def infoIn (M : Fid → Option Image.View) (fid : Fid) : Option (Nat × Nat) :=
  ((M fid).map Image.View.asset).map Asset.info

section
variable {ι : Type} [DecidableEq ι] {b : Build ι} {i : ι} {fid : Fid} {msg : Msg}
  {uid flags : Nat} {x : ι → Ctx × Flash} {buf : Nat → UInt8} {req : Request} {y : Called ι}
  {fl : Flash}

omit [DecidableEq ι] in
theorem HasPart.infoIn_ne {cfg : Config} {M : Fid → Option Image.View} {v : Image.View}
    {D : List UInt8} {o : Nat} {z : Ctx × Flash} {fid' : Fid} (h : HasPart cfg M fid v D o z)
    (hf : fid' ≠ fid) : infoIn ((mountedImage cfg z.1 z.2).fileMap cfg) fid' = infoIn M fid' := by
  unfold infoIn
  rw [h.map, Function.update_of_ne hf]

/-- The request is not one that only looks an asset up. -/
def Request.Changes : Request → Prop
  | .set .. | .remove .. => True
  | _ => False

/-- A call of a request, and what a loss of power in it leaves of the other files. -/
structure Called.Of (b : Build ι) (x : ι → Ctx × Flash) (req : Request) (y : Called ι) : Prop where
  changes : req.Changes
  served : (b.assets x).refusal b.configured req = none
  area : b.area req.msg.clientId = some y.area
  others : ∀ j, j ≠ y.area → y.before j = x j
  crash : ∀ fl, (y.call.exec (b.cfg y.area)).CrashAt (b.cfg y.area).eraseVal (y.before y.area).1
    (y.before y.area).2 fl → ∃ M, Restores (b.cfg y.area) M fl ∧ ∀ fid, fid ≠ req.fid →
      infoIn M fid = infoIn ((mountedImage (b.cfg y.area) (x y.area).1 (x y.area).2).fileMap
        (b.cfg y.area)) fid

/-- A request changes one area. -/
theorem etssSetLoop_before (n : Nat) : ∀ (o flags : Nat) (x : ι → Ctx × Flash)
    (cs : List (Called ι)) (buf : Nat → UInt8) (io : Io Reply), ∀ y ∈ (etssSetLoop b.platform
      (b.fileSystem i) fid msg flags n o ⟨⟨x, cs⟩, buf⟩ io).2.1.fs.calls,
    y ∈ cs ∨ ∀ j, j ≠ i → y.before j = x j := by
  induction n using Nat.strong_induction_on with
  | h n ih =>
    intro o flags x cs buf io y hy
    have hB := b.assetDataSize_pos
    set r := b.round fid msg flags n o x buf io
    have hcall : ∀ {res}, ((FsCall.write r).after (b.cfg i) (x i).1 (x i).2).status = res →
        (b.fileSystem i).fileWrite fid flags n (min n b.platform.assetDataSize) o
          (setBuffer b.platform msg n ⟨⟨x, cs⟩, buf⟩ io) ⟨x, cs⟩ =
            (res, ⟨b.afterRound i x r, cs ++ [⟨i, x, .write r⟩]⟩) := fun h => Prod.ext h rfl
    have hone : y ∈ cs ++ [⟨i, x, .write r⟩] → y ∈ cs ∨ ∀ j, j ≠ i → y.before j = x j := fun hy => by
      rcases List.mem_append.mp hy with hy | hy
      · exact .inl hy
      · rw [List.mem_singleton.mp hy]
        exact .inr fun _ _ => rfl
    cases hst : ((FsCall.write r).after (b.cfg i) (x i).1 (x i).2).status with
    | error e =>
      rw [(etssSetLoop_error (hcall hst)).2] at hy
      exact hone hy
    | ok _ =>
      rcases le_or_gt n b.assetDataSize with hle | hlt
      · rw [(etssSetLoop_last (hcall hst) hle).2] at hy
        exact hone hy
      · rw [etssSetLoop_next (hcall hst) hlt] at hy
        rcases ih (n - b.assetDataSize) (by omega) _ _ _ _ _ _ y hy with hy | hy
        · exact hone hy
        · exact .inr fun j hj => (hy j hj).trans (Function.update_of_ne hj _ _)

section
variable (he : ∀ i, (b.cfg i).eraseVal = 0x00 ∨ (b.cfg i).eraseVal = 0xFF)
  (hst : ∀ i, Store (b.cfg i) (x i).1 (x i).2)
include he hst

theorem etssSetLoop_calls_of (hreq : (Request.set msg uid flags).InRange) (hlt : flags < 2 ^ 32)
    (hu : uid ≠ etssInvalidUid) (hs : flags &&& not32 supportedFlags = 0)
    (hno : (b.assets x).refusal b.configured (.set msg uid flags) = none)
    (hb : b.area msg.clientId = some i) (hy : y ∈ b.setCalls i msg uid flags x buf) :
    y.Of b x (.set msg uid flags) := by
  have hflags := setFlags_of_supported hlt hs
  have hothers : ∀ j, j ≠ i → y.before j = x j := by
    rcases etssSetLoop_before _ _ _ _ _ _ _ y hy with hy | hy
    · exact absurd hy List.not_mem_nil
    · exact hy
  rcases Build.firstRound_cases (hst i) hreq hu hflags buf with hr | ⟨hv, -, hfirst⟩
  · obtain ⟨e, hfail⟩ := hr.status
    rw [setCalls_refused hfail, List.mem_singleton] at hy
    subst hy
    exact ⟨trivial, hno, hb, hothers, fun fl hc => ⟨_, hr.crash (he i) fl hc, fun _ _ => rfl⟩⟩
  · obtain ⟨v, hm, -⟩ := hfirst.file
    have hinfo : ∀ fid, fid ≠ etssGetFid msg.clientId uid →
        infoIn ((b.firstImage i msg uid flags x buf).fileMap (b.cfg i)) fid =
          infoIn ((mountedImage (b.cfg i) (x i).1 (x i).2).fileMap (b.cfg i)) fid :=
      fun fid hf => Image.assetInfo_congr (hfirst.others fid hf)
    rcases setCalls_made hflags hv hfirst hm hlt y hy with rfl | hpart
    · refine ⟨trivial, hno, hb, hothers, fun fl hc => ?_⟩
      rcases (hst i).call_crash (f := .write _) (he i) hv hc with hr | hr
      · exact ⟨_, hr, fun _ _ => rfl⟩
      · exact ⟨_, hr, hinfo⟩
    · obtain ⟨area, before, call⟩ := y
      obtain ⟨rfl, r, o, rfl, hvr, -, -, -, hbefore, hafter⟩ := hpart
      refine ⟨trivial, hno, hb, hothers, fun fl hc => ?_⟩
      rcases hbefore.store.call_crash (f := .write r) (he _) hvr hc with hr | hr
      · exact ⟨_, hr, fun fid hf => (hbefore.infoIn_ne hf).trans (hinfo fid hf)⟩
      · exact ⟨_, hr, fun fid hf => (hafter.infoIn_ne hf).trans (hinfo fid hf)⟩

omit [DecidableEq ι] in
theorem fileDelete_calls_of (hu : etssGetFid msg.clientId uid ≠ 0)
    (hno : (b.assets x).refusal b.configured (.remove msg uid) = none)
    (hb : b.area msg.clientId = some i) :
    (⟨i, x, .delete (etssGetFid msg.clientId uid)⟩ : Called ι).Of b x (.remove msg uid) := by
  have hs : DeleteSpec (b.cfg i) (x i).1 (x i).2 (etssGetFid msg.clientId uid) _ _ _ :=
    (hst i).call_spec (f := .delete _) hu
  refine ⟨trivial, hno, hb, fun _ _ => rfl, fun fl hc => ?_⟩
  rcases (hst i).call_crash (f := .delete _) (he i) hu hc with hr | hr
  · exact ⟨_, hr, fun _ _ => rfl⟩
  · refine ⟨_, hr, fun fid hf => ?_⟩
    rcases hs.effect.fileMap (hst i).wf (hst i).accepted (hst i).closed hu with
      ⟨-, -, hm⟩ | ⟨-, -, -, hinfo, -⟩
    · rw [hm]
    · exact Image.assetInfo_congr (hinfo fid hf)

omit hst in
/-- Every call of a request. -/
theorem serve_calls {s : Partition (Storage ι)}
    (hst : ∀ i, Store (b.cfg i) (s.fs.fs i).1 (s.fs.fs i).2) (hreq : req.InRange)
    (hlt : req.createFlags < 2 ^ 32) (hy : y ∈ (b.serve req s).2.fs.calls) :
    y.Of b s.fs.fs req := by
  obtain ⟨⟨x, cs⟩, buf⟩ := s
  cases req with
  | set msg uid flags =>
    replace hy : y ∈ (etssSet b.platform msg uid (msg.inSize 1) flags ⟨⟨x, []⟩, buf⟩
      .start).2.1.fs.calls := hy
    rcases etssSet_cases (s := ⟨⟨x, []⟩, buf⟩) hst hreq with
      ⟨e, -, hout⟩ | ⟨hno, hu, hs, i, hb, hout⟩
    · rw [hout] at hy
      exact absurd hy List.not_mem_nil
    · rw [hout] at hy
      exact etssSetLoop_calls_of he hst hreq hlt hu hs hno hb hy
  | get msg uid o n =>
    obtain ⟨hfs, -⟩ := etssGet_serves (s := ⟨⟨x, []⟩, buf⟩) hst hreq
    replace hy : y ∈ (etssGet b.platform msg uid o n ⟨⟨x, []⟩, buf⟩ .start).2.1.fs.calls := hy
    rw [hfs] at hy
    exact absurd hy List.not_mem_nil
  | getInfo msg uid =>
    obtain ⟨hs, -⟩ := etssGetInfo_serves (s := ⟨⟨x, []⟩, buf⟩) hst hreq
    replace hy : y ∈ (etssGetInfo b.platform msg uid ⟨⟨x, []⟩, buf⟩).2.fs.calls := hy
    rw [hs] at hy
    exact absurd hy List.not_mem_nil
  | remove msg uid =>
    replace hy : y ∈ (etssRemove b.platform msg uid ⟨⟨x, []⟩, buf⟩).2.fs.calls := hy
    rcases etssRemove_cases (s := ⟨⟨x, []⟩, buf⟩) hst hreq with
      ⟨e, -, hout⟩ | ⟨hno, hu, i, asset, hb, -, hout⟩
    · rw [hout] at hy
      exact absurd hy List.not_mem_nil
    · rw [hout] at hy
      rw [List.mem_singleton.mp hy]
      exact fileDelete_calls_of he hst (hreq.isKey hu).fid_ne_zero hno hb

end

/-! ## The device -/

/-- The partition serves requests, or there is only what the flash holds. -/
inductive Device (ι : Type)
  | running (s : Partition (Storage ι))
  | off (fl : ι → Flash)

/-- A request, a reset between two requests, a loss of power in a request, a start of all
filesystems, or a loss of power in the start of one of them. -/
inductive Build.Step (b : Build ι) (createFlashLayout : Bool) : Device ι → Device ι → Prop
  | serve {s : Partition (Storage ι)} {req : Request} (range : req.InRange)
    (flags : req.createFlags < 2 ^ 32) : b.Step createFlashLayout (.running s)
      (.running (b.serve req s).2)
  | reset {s : Partition (Storage ι)} : b.Step createFlashLayout (.running s)
      (.off fun i => (s.fs.fs i).2)
  | cut {s : Partition (Storage ι)} {req : Request} {y : Called ι} {fl : Flash}
    (range : req.InRange) (flags : req.createFlags < 2 ^ 32)
    (call : y ∈ (b.serve req s).2.fs.calls) (crash : (y.call.exec (b.cfg y.area)).CrashAt
      (b.cfg y.area).eraseVal (y.before y.area).1 (y.before y.area).2 fl) :
    b.Step createFlashLayout (.running s)
      (.off (Function.update (fun i => (y.before i).2) y.area fl))
  | start {fl : ι → Flash} {c : ι → Ctx} {s : Partition (Storage ι)}
    (run : ∀ i, (etssFlashFsInitCtxAndPrepare (b.cfg i) createFlashLayout).run (b.cfg i).eraseVal
      (c i) (fl i) = ⟨.ok (), (s.fs.fs i).1, (s.fs.fs i).2⟩) :
    b.Step createFlashLayout (.off fl) (.running s)
  | startCut {fl : ι → Flash} {i : ι} {c : Ctx} {fl' : Flash}
    (crash : (etssFlashFsInitCtxAndPrepare (b.cfg i) createFlashLayout).CrashAt
      (b.cfg i).eraseVal c (fl i) fl') :
    b.Step createFlashLayout (.off fl) (.off (Function.update fl i fl'))

/-- Any number of steps. -/
inductive Build.Steps (b : Build ι) (createFlashLayout : Bool) : Device ι → Device ι → Prop
  | refl (d : Device ι) : b.Steps createFlashLayout d d
  | step {d d₁ d₂ : Device ι} (steps : b.Steps createFlashLayout d d₁)
    (last : b.Step createFlashLayout d₁ d₂) : b.Steps createFlashLayout d d₂

/-- All filesystems are well formed, or can be mounted, and asset `k` of area `i` has that size and
those flags. -/
def Device.Holds (b : Build ι) (i : ι) (k : Int × Nat) (info : Nat × Nat) : Device ι → Prop
  | .running s => (∀ j, Store (b.cfg j) (s.fs.fs j).1 (s.fs.fs j).2) ∧
    (b.assets s.fs.fs k).map Asset.info = some info
  | .off fl => ∀ j, ∃ M, Restores (b.cfg j) M (fl j) ∧
    (j = i → infoIn M (etssGetFid k.1 k.2) = some info)

end

/-! ## What stays -/

namespace AssetMap
variable {M M' : AssetMap} {configured : Int → Bool} {req : Request} {asset : Asset} {ans : Answer}

/-- Changing a write-once asset is refused. -/
theorem refusal_writeOnce (hm : M req.key = some asset)
    (hw : asset.flags &&& psaStorageFlagWriteOnce ≠ 0) (hc : req.Changes)
    (hb : configured req.msg.clientId = true) : M.refusal configured req =
      some (if req.uid = etssInvalidUid then .invalidArgument
        else if req.createFlags &&& not32 supportedFlags ≠ 0 then .notSupported
        else .notPermitted) := by
  have hfor : req.refusedFor (some asset) = some .notPermitted := by
    cases req with
    | set _ _ _ => exact if_pos hw
    | remove _ _ => exact if_pos hw
    | _ => exact hc.elim
  unfold refusal
  rw [hm, hfor, hb, if_pos rfl]
  split_ifs <;> rfl

/-- A request that only looks an asset up leaves the map. -/
theorem Serves.eq_of_reads (h : M.Serves configured req ans M') (hc : ¬ req.Changes) : M' = M := by
  cases h with
  | set _ => exact absurd trivial hc
  | remove _ => exact absurd trivial hc
  | _ => rfl

end AssetMap

section
variable {ι : Type} [DecidableEq ι] {b : Build ι} {i : ι} {k : Int × Nat} {info : Nat × Nat}
  {req : Request} {x x' : ι → Ctx × Flash} {buf : Nat → UInt8} {ans : Answer} {d d' : Device ι}
  {createFlashLayout : Bool}

theorem Request.Exposes.changes (h : req.Exposes b x buf) : req.Changes := by
  obtain ⟨-, i, -, h⟩ := h
  cases req with
  | set _ _ _ => trivial
  | remove _ _ => trivial
  | _ => exact h

section
variable (hb : b.area k.1 = some i) (hk : (b.assets x k).map Asset.info = some info)
  (hw : info.2 &&& psaStorageFlagWriteOnce ≠ 0)
include hb hk hw

omit [DecidableEq ι] in
theorem Build.refusal_writeOnce (hkey : k = req.key) (hc : req.Changes) :
    (b.assets x).refusal b.configured req =
      some (if req.uid = etssInvalidUid then .invalidArgument
        else if req.createFlags &&& not32 supportedFlags ≠ 0 then .notSupported
        else .notPermitted) := by
  subst hkey
  obtain ⟨asset, hm, rfl⟩ := Option.map_eq_some_iff.mp hk
  exact AssetMap.refusal_writeOnce hm hw hc (Build.configured_eq hb)

/-- A request leaves the size and the flags of a write-once asset. -/
theorem Served.info_eq (h : Served b x buf req ans x') :
    (b.assets x' k).map Asset.info = some info := by
  by_cases hkey : k = req.key
  · by_cases hc : req.Changes
    · rw [(h.refused _ (Build.refusal_writeOnce hb hk hw hkey hc)).2, hk]
    · rw [(h.serves fun hexp => hc hexp.changes).eq_of_reads hc, hk]
  · rw [h.others k hkey, hk]

omit [DecidableEq ι] in
/-- No call of a request is for a write-once asset. -/
theorem Called.Of.fid_ne {y : Called ι} (h : y.Of b x req) (hrange : req.InRange) (hkey : IsKey k) :
    etssGetFid k.1 k.2 ≠ req.fid := by
  intro hf
  have hu : req.uid ≠ etssInvalidUid := fun hu =>
    nomatch h.served.symm.trans (AssetMap.refusal_uid hu)
  have heq : k = req.key := etssGetFid_inj hkey (hrange.isKey hu) hf
  exact nomatch h.served.symm.trans (Build.refusal_writeOnce hb hk hw heq h.changes)

end

/-- What a step keeps. -/
theorem Device.Holds.step (he : ∀ i, (b.cfg i).eraseVal = 0x00 ∨ (b.cfg i).eraseVal = 0xFF)
    (hkey : IsKey k) (hb : b.area k.1 = some i) (hw : info.2 &&& psaStorageFlagWriteOnce ≠ 0)
    (h : d.Holds b i k info) (hs : b.Step createFlashLayout d d') : d'.Holds b i k info := by
  have hoff : ∀ {x : ι → Ctx × Flash}, (∀ j, Store (b.cfg j) (x j).1 (x j).2) →
      (b.assets x k).map Asset.info = some info → ∀ j, ∃ M, Restores (b.cfg j) M (x j).2 ∧
        (j = i → infoIn M (etssGetFid k.1 k.2) = some info) := fun {x} hst hk j => by
    refine ⟨_, ⟨_, (hst j).mountable, (hst j).settles⟩, fun hj => ?_⟩
    subst hj
    rw [Build.assets_eq hkey hb] at hk
    exact hk
  cases hs with
  | serve range flags =>
    obtain ⟨hst, hk⟩ := h
    have hserved := serve_served hst range flags
    exact ⟨hserved.store, hserved.info_eq hb hk hw⟩
  | reset =>
    obtain ⟨hst, hk⟩ := h
    exact hoff hst hk
  | @cut s req y fl range flags call crash =>
    obtain ⟨hst, hk⟩ := h
    have hof := serve_calls he hst range flags call
    intro j
    by_cases hj : j = y.area
    · subst hj
      rw [Function.update_self]
      obtain ⟨M, hr, hinfo⟩ := hof.crash fl crash
      refine ⟨M, hr, fun hi => ?_⟩
      subst hi
      rw [hinfo _ (hof.fid_ne hb hk hw range hkey)]
      rw [Build.assets_eq hkey hb] at hk
      exact hk
    · rw [Function.update_of_ne hj, hof.others j hj]
      exact hoff hst hk j
  | @start fl c s run =>
    have hrun : ∀ j M, Restores (b.cfg j) M (fl j) →
        Store (b.cfg j) (s.fs.fs j).1 (s.fs.fs j).2 ∧
          (mountedImage (b.cfg j) (s.fs.fs j).1 (s.fs.fs j).2).fileMap (b.cfg j) = M :=
      fun j M hr => by
        obtain ⟨_, c', fl', hrun, hst, hm⟩ := (hr.start_ok (c := c j)).exists_run
        rw [run j] at hrun
        injection hrun with _ hc hf
        subst hc hf
        exact ⟨hst, hm⟩
    refine ⟨fun j => ?_, ?_⟩
    · obtain ⟨M, hr, -⟩ := h j
      exact (hrun j M hr).1
    · obtain ⟨M, hr, hinfo⟩ := h i
      rw [Build.assets_eq hkey hb]
      unfold Image.asset
      rw [(hrun i M hr).2]
      exact hinfo rfl
  | @startCut fl j c fl' crash =>
    intro j'
    obtain ⟨M, hr, hinfo⟩ := h j'
    by_cases hj : j' = j
    · subst hj
      rw [Function.update_self]
      exact ⟨M, hr.start_crash (he _) crash, hinfo⟩
    · rw [Function.update_of_ne hj]
      exact ⟨M, hr, hinfo⟩

theorem Device.Holds.steps (he : ∀ i, (b.cfg i).eraseVal = 0x00 ∨ (b.cfg i).eraseVal = 0xFF)
    (hkey : IsKey k) (hb : b.area k.1 = some i) (hw : info.2 &&& psaStorageFlagWriteOnce ≠ 0)
    (h : d.Holds b i k info) (hs : b.Steps createFlashLayout d d') : d'.Holds b i k info := by
  induction hs with
  | refl => exact h
  | step _ last ih => exact ih.step he hkey hb hw last

/-- A write-once asset, at a time when requests are served: it cannot be set or removed, it has one
entry, and its size and flags are these. -/
structure WriteOnceKept (b : Build ι) (i : ι) (client : Int) (uid : Nat) (info : Nat × Nat)
    (s : Partition (Storage ι)) : Prop where
  refused : ∀ req : Request, req.Changes → req.key = (client, uid) → req.InRange →
    req.createFlags < 2 ^ 32 → (b.serve req s).1 = .status (.error
      (if req.createFlags &&& not32 supportedFlags ≠ 0 then .notSupported else .notPermitted))
  unchanged : ∀ req : Request, req.Changes → req.key = (client, uid) → req.InRange →
    req.createFlags < 2 ^ 32 → (b.serve req s).2.fs.fs = s.fs.fs
  entry : ∃! j, j < (b.cfg i).maxNumFiles ∧ ((mountedImage (b.cfg i) (s.fs.fs i).1
    (s.fs.fs i).2).files j).id = etssGetFid client uid
  info : ∀ msg : Msg, msg.clientId = client → msg.inSize 1 < 2 ^ 32 →
    (b.serve (.getInfo msg uid) s).1 = .info (.ok (info.1, info.1, info.2))

theorem Request.refuse_changes {e : Status} (hc : req.Changes) :
    req.refuse e = .status (.error e) := by
  cases req with
  | set _ _ _ => rfl
  | remove _ _ => rfl
  | _ => exact hc.elim

theorem Image.Closed.entry {cfg : Config} {st : Image} {fid : Fid} (h : st.Closed cfg) {v : View}
    (hm : st.fileMap cfg fid = some v) (hf : fid ≠ 0) :
    ∃! j, j < cfg.maxNumFiles ∧ (st.files j).id = fid := by
  rcases st.fileMap_cases cfg fid with ⟨hn, -⟩ | ⟨j, hj, hid, -⟩
  · exact nomatch hn.symm.trans hm
  · refine ⟨j, ⟨hj, hid⟩, fun j' ⟨hj', hid'⟩ => ?_⟩
    exact h.unique j' j hj' hj (hid'.trans_ne hf) (hid'.trans hid.symm)

theorem Device.Holds.kept {s : Partition (Storage ι)} (hkey : IsKey k) (hb : b.area k.1 = some i)
    (hw : info.2 &&& psaStorageFlagWriteOnce ≠ 0)
    (h : (Device.running s).Holds b i k info) : WriteOnceKept b i k.1 k.2 info s := by
  obtain ⟨hst, hk⟩ := h
  have hrefusal : ∀ req : Request, req.Changes → req.key = k →
      (b.assets s.fs.fs).refusal b.configured req = some
        (if req.createFlags &&& not32 supportedFlags ≠ 0 then .notSupported
          else .notPermitted) := fun req hc hreq => by
    have hu : req.uid ≠ etssInvalidUid := (congrArg Prod.snd hreq).trans_ne hkey.2.2.2
    rw [Build.refusal_writeOnce hb hk hw hreq.symm hc, if_neg hu]
  refine ⟨fun req hc hreq hrange hlt => ?_, fun req hc hreq hrange hlt => ?_, ?_,
    fun msg hmsg hsize => ?_⟩
  · rw [((serve_served hst hrange hlt).refused _ (hrefusal req hc hreq)).1,
      Request.refuse_changes hc]
  · exact ((serve_served hst hrange hlt).refused _ (hrefusal req hc hreq)).2
  · obtain ⟨asset, hm, -⟩ := Option.map_eq_some_iff.mp hk
    rw [Build.assets_eq hkey hb] at hm
    obtain ⟨v, hv, -⟩ := Option.map_eq_some_iff.mp hm
    exact (hst i).closed.entry hv hkey.fid_ne_zero
  · obtain ⟨client, uid⟩ := k
    obtain rfl : msg.clientId = client := hmsg
    obtain ⟨asset, hm, rfl⟩ := Option.map_eq_some_iff.mp hk
    have hrange : (Request.getInfo msg uid).InRange := ⟨⟨hkey.1, hkey.2.1⟩, hkey.2.2.1, hsize⟩
    have hans := (serve_served hst hrange (Nat.zero_lt_of_lt (by decide : 0 < 2 ^ 32))).serves
      fun hexp => hexp.changes
    have hserved : (b.assets s.fs.fs).refusal b.configured (.getInfo msg uid) = none :=
      AssetMap.refusal_served (.getInfo msg uid) hkey.2.2.2 (Nat.zero_and _)
        (Build.configured_eq hb) hm
    generalize (b.serve (.getInfo msg uid) s).1 = ans at hans ⊢
    generalize b.assets (b.serve (.getInfo msg uid) s).2.fs.fs = M' at hans
    cases hans with
    | refused h => exact nomatch hserved.symm.trans h
    | getInfo _ bound =>
      obtain rfl := Option.some.inj (hm.symm.trans bound)
      rfl

/-- Setting an asset. -/
theorem serve_set_info {msg : Msg} {uid flags : Nat} {s : Partition (Storage ι)}
    (hst : ∀ i, Store (b.cfg i) (s.fs.fs i).1 (s.fs.fs i).2)
    (hreq : (Request.set msg uid flags).InRange) (hlt : flags < 2 ^ 32)
    (hok : (b.serve (.set msg uid flags) s).1 = .status (.ok ())) :
    IsKey (msg.clientId, uid) ∧ ∃ i, b.area msg.clientId = some i ∧
      (b.assets (b.serve (.set msg uid flags) s).2.fs.fs (msg.clientId, uid)).map Asset.info =
        some (msg.inSize 1, flags) := by
  obtain ⟨⟨x, cs⟩, buf⟩ := s
  have hout : (etssSet b.platform msg uid (msg.inSize 1) flags ⟨⟨x, []⟩, buf⟩ .start).1 = .ok () :=
    Answer.status.inj hok
  show _ ∧ ∃ i, _ ∧ (b.assets (etssSet b.platform msg uid (msg.inSize 1) flags ⟨⟨x, []⟩, buf⟩
    .start).2.1.fs.fs _).map _ = _
  rcases etssSet_cases (s := ⟨⟨x, []⟩, buf⟩) hst hreq with
    ⟨e, -, heq⟩ | ⟨hno, hu, hs, i, hb, heq⟩
  · rw [heq] at hout
    exact nomatch hout
  · exact ⟨hreq.isKey hu, i, hb, (etssSetLoop_served hst hb hreq hlt hu hs hno heq.symm).2 hout⟩

omit [DecidableEq ι] in
/-- The device can be started again whenever it is off. -/
theorem Device.Holds.starts {fl : ι → Flash} (h : (Device.off fl).Holds b i k info) (c : ι → Ctx) :
    ∃ s : Partition (Storage ι), ∀ j, (etssFlashFsInitCtxAndPrepare (b.cfg j) createFlashLayout).run
      (b.cfg j).eraseVal (c j) (fl j) = ⟨.ok (), (s.fs.fs j).1, (s.fs.fs j).2⟩ := by
  have hrun : ∀ j, ∃ z : Ctx × Flash, (etssFlashFsInitCtxAndPrepare (b.cfg j) createFlashLayout).run
      (b.cfg j).eraseVal (c j) (fl j) = ⟨.ok (), z.1, z.2⟩ := fun j => by
    obtain ⟨M, hr, -⟩ := h j
    obtain ⟨_, c', fl', hrun, -⟩ := (hr.start_ok (c := c j)).exists_run
    exact ⟨(c', fl'), hrun⟩
  choose z hz using hrun
  exact ⟨⟨⟨z, []⟩, fun _ => 0⟩, hz⟩

/-- The asset is kept while requests are served, and every start of the device succeeds. -/
def Device.Keeps (b : Build ι) (createFlashLayout : Bool) (i : ι) (client : Int) (uid : Nat)
    (info : Nat × Nat) : Device ι → Prop
  | .running s => WriteOnceKept b i client uid info s
  | .off fl => ∀ c : ι → Ctx, ∃ s : Partition (Storage ι), ∀ j,
    (etssFlashFsInitCtxAndPrepare (b.cfg j) createFlashLayout).run (b.cfg j).eraseVal (c j) (fl j) =
      ⟨.ok (), (s.fs.fs j).1, (s.fs.fs j).2⟩

/-- Once a write-once asset is set, it stays, whatever the clients ask for and whenever the device is
reset or loses power. -/
theorem writeOnce_kept (he : ∀ i, (b.cfg i).eraseVal = 0x00 ∨ (b.cfg i).eraseVal = 0xFF)
    {msg : Msg} {uid flags : Nat} {s : Partition (Storage ι)}
    (hst : ∀ i, Store (b.cfg i) (s.fs.fs i).1 (s.fs.fs i).2)
    (hreq : (Request.set msg uid flags).InRange) (hlt : flags < 2 ^ 32)
    (hw : flags &&& psaStorageFlagWriteOnce ≠ 0)
    (hok : (b.serve (.set msg uid flags) s).1 = .status (.ok ()))
    (hs : b.Steps createFlashLayout (.running (b.serve (.set msg uid flags) s).2) d) :
    ∃ i, b.area msg.clientId = some i ∧
      d.Keeps b createFlashLayout i msg.clientId uid (msg.inSize 1, flags) := by
  obtain ⟨hkey, i, hb, hinfo⟩ := serve_set_info hst hreq hlt hok
  have hstart : (Device.running (b.serve (.set msg uid flags) s).2).Holds b i (msg.clientId, uid)
      (msg.inSize 1, flags) := ⟨(serve_served hst hreq hlt).store, hinfo⟩
  have hend := hstart.steps he hkey hb hw hs
  refine ⟨i, hb, ?_⟩
  cases d with
  | running s' => exact hend.kept hkey hb hw
  | off fl => exact hend.starts

end

/-- A write-once asset is set. -/
theorem serve_setAgain :
    (oneArea.serve (.set setAgain 1 psaStorageFlagWriteOnce) emptyArea).1 = .status (.ok ()) := by
  have h : (etssSet oneArea.platform setAgain 1 4 psaStorageFlagWriteOnce emptyArea .start).1 =
      .ok () := by decide +kernel
  exact congrArg Answer.status h

theorem inRange_setAgain (flags : Nat) : (Request.set setAgain 1 flags).InRange :=
  ⟨show -2 ^ 31 ≤ (1 : Int) ∧ (1 : Int) < 2 ^ 31 by decide, show 1 < 2 ^ 64 by decide,
    show 4 < 2 ^ 32 by decide⟩

/-- The device is reset after that. -/
theorem writeOnce_kept_setAgain : ∃ i, oneArea.area 1 = some i ∧
    (Device.off fun i => ((oneArea.serve (.set setAgain 1 psaStorageFlagWriteOnce)
      emptyArea).2.fs.fs i).2).Keeps oneArea true i 1 1 (4, psaStorageFlagWriteOnce) :=
  writeOnce_kept (fun _ => .inr rfl) store_emptyArea (inRange_setAgain _) (by decide)
    (by decide) serve_setAgain (.step (.refl _) .reset)

/-- Flags that are not supported are refused before the asset is looked up. -/
theorem not_writeOnce_kept :
    (∀ i, Store (oneArea.cfg i) (emptyArea.fs.fs i).1 (emptyArea.fs.fs i).2) ∧
    (oneArea.serve (.set setAgain 1 psaStorageFlagWriteOnce) emptyArea).1 = .status (.ok ()) ∧
    (Request.set setAgain 1 8).InRange ∧
    (oneArea.serve (.set setAgain 1 8)
      (oneArea.serve (.set setAgain 1 psaStorageFlagWriteOnce) emptyArea).2).1 ≠
        .status (.error .notPermitted) := by
  refine ⟨store_emptyArea, serve_setAgain, inRange_setAgain 8, fun h => ?_⟩
  have hst := (serve_served store_emptyArea (inRange_setAgain _)
    (show psaStorageFlagWriteOnce < 2 ^ 32 by decide)).store
  have hrefused := (serve_served hst (inRange_setAgain 8) (by decide)).refused .notSupported
    (AssetMap.refusal_flags (by decide) (by decide))
  exact nomatch h.symm.trans hrefused.1

end Etss
