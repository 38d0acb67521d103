import TfmExtras.Etss.AssetMap

/-! A request as calls on the filesystem of the client: which call comes next depends on what the calls
before have returned, and on nothing else of the filesystem. -/

namespace Etss
open Ipc

variable {φ ψ α β : Type} {size : Nat}

/-! ## Calls -/

/-- A call on a filesystem. -/
inductive FileSystem.Call
  | getInfo (fid : Fid)
  | write (r : WriteReq)
  | read (fid : Fid) (size offset : Nat)
  | delete (fid : Fid)

/-- What a call returns when it succeeds. -/
abbrev FileSystem.Call.Result : FileSystem.Call → Type
  | .getInfo _ => FileInfo
  | .write _ => Unit
  | .read _ _ _ => List UInt8
  | .delete _ => Unit

def FileSystem.call (fs : FileSystem φ) :
    (c : FileSystem.Call) → φ → Except Status c.Result × φ
  | .getInfo fid => fs.fileGetInfo fid
  | .write r => fs.fileWrite r.fid r.flags r.maxSize r.dataSize r.offset r.data
  | .read fid size offset => fs.fileRead fid size offset
  | .delete fid => fs.fileDelete fid

/-- The arguments that the partition writes with: the numbers are in the range of their types, and no
more data is written at a time than the buffer holds. -/
structure WriteReq.OfPartition (size : Nat) (r : WriteReq) : Prop extends r.InRange where
  dataSize_le : r.dataSize ≤ size

/-- The arguments that the partition calls a filesystem with. -/
def FileSystem.Call.InRange (size : Nat) : FileSystem.Call → Prop
  | .getInfo fid => fid ≠ 0
  | .write r => r.OfPartition size
  | .read fid _ _ => fid ≠ 0
  | .delete fid => fid ≠ 0

/-- Calls on a filesystem, and what each result is followed by. -/
inductive Calls (α : Type)
  | done (a : α)
  | call (c : FileSystem.Call) (k : Except Status c.Result → Calls α)

namespace Calls

def on (fs : FileSystem φ) : Calls α → φ → α × φ
  | .done a, x => (a, x)
  | .call c k, x => (k (fs.call c x).1).on fs (fs.call c x).2

/-- On the filesystem of a client, if there is one. -/
def onCtx (ctx : Option (FileSystem φ)) (a : α) (t : Calls α) (x : φ) : α × φ :=
  match ctx with
  | none => (a, x)
  | some fs => t.on fs x

def InRange (size : Nat) : Calls α → Prop
  | .done _ => True
  | .call c k => c.InRange size ∧ ∀ res, (k res).InRange size

def map (f : α → β) : Calls α → Calls β
  | .done a => .done (f a)
  | .call c k => .call c fun res => (k res).map f

theorem on_map (fs : FileSystem φ) (f : α → β) (t : Calls α) (x : φ) :
    (t.map f).on fs x = (f (t.on fs x).1, (t.on fs x).2) := by
  induction t generalizing x with
  | done a => rfl
  | call c k ih => exact ih _ _

theorem onCtx_map (ctx : Option (FileSystem φ)) (f : α → β) (a : α) (t : Calls α) (x : φ) :
    (t.map f).onCtx ctx (f a) x = (f (t.onCtx ctx a x).1, (t.onCtx ctx a x).2) := by
  cases ctx with
  | none => rfl
  | some fs => exact t.on_map fs f x

theorem InRange.map (f : α → β) {t : Calls α} (h : t.InRange size) : (t.map f).InRange size := by
  induction t with
  | done a => trivial
  | call c k ih => exact ⟨h.1, fun res => ih res (h.2 res)⟩

end Calls

/-! ## The requests -/

/-- The result and the buffer, beside the filesystem. -/
def Partition.split (r : α × Partition φ) : (α × (Nat → UInt8)) × φ :=
  ((r.1, r.2.assetData), r.2.fs)

/-- The reply, the buffer and the traffic. -/
abbrev Traffic := Reply × (Nat → UInt8) × Io Reply

def Traffic.split (r : Reply × Partition φ × Io Reply) : Traffic × φ :=
  ((r.1, r.2.1.assetData, r.2.2), r.2.1.fs)

section
variable {fid : Fid} (hpos : 0 < size) (hf : fid ≠ 0)
include hpos hf

theorem etssSetLoop_eq_on (msg : Msg) (n : Nat) : ∀ (o flags : Nat) (buf : Nat → UInt8) (io : Io Reply),
    o + n < 2 ^ 32 → flags < 2 ^ 32 → ∃ t : Calls Traffic, t.InRange size ∧
      ∀ {φ : Type} (p : Platform φ) (fs : FileSystem φ) (x : φ), p.assetDataSize = size →
        Traffic.split (etssSetLoop p fs fid msg flags n o ⟨x, buf⟩ io) = t.on fs x := by
  induction n using Nat.strong_induction_on with
  | h n ih =>
    intro o flags buf io hn hflags
    have hmin := min_le_left n size
    have hn' : n < 2 ^ 32 := by omega
    have ho' : o < 2 ^ 32 := by omega
    generalize hrd : io.psaRead msg 1 size (min n size) = rd
    have hr : (⟨fid, flags, n, min n size, o, fillBuf buf rd.1⟩ : WriteReq).OfPartition size :=
      ⟨⟨hf, hflags, hn', lt_of_le_of_lt hmin hn', ho'⟩, min_le_right _ _⟩
    choose t ht heq using fun _ : n - min n size > 0 => ih (n - min n size) (by omega)
      (o + min n size) (flags &&& not32 (flagCreate ||| flagTruncate)) (fillBuf buf rd.1) rd.2
      (by omega) (lt_of_le_of_lt Nat.and_le_left hflags)
    refine ⟨.call (.write _) fun
      | .error e => .done (.error e, fillBuf buf rd.1, rd.2)
      | .ok _ => if hrest : n - min n size > 0 then t hrest
        else .done (.ok (), fillBuf buf rd.1, rd.2), ⟨hr, fun res => ?_⟩, fun p fs x hsize => ?_⟩
    · cases res with
      | error e => trivial
      | ok _ =>
        dsimp only
        split_ifs with hrest
        · exact ht hrest
        · trivial
    · rw [etssSetLoop]
      dsimp only
      rw [hsize, hrd]
      unfold Calls.on FileSystem.call
      dsimp only
      generalize fs.fileWrite fid flags n (min n size) o (fillBuf buf rd.1) x = w
      obtain ⟨_ | _, y⟩ := w
      · rfl
      · dsimp only
        split_ifs with hrest
        · exact heq hrest p fs y hsize
        · rfl

theorem etssGetLoop_eq_on (n : Nat) : ∀ (o : Nat) (buf : Nat → UInt8) (io : Io Reply),
    ∃ t : Calls Traffic, t.InRange size ∧
      ∀ {φ : Type} (p : Platform φ) (fs : FileSystem φ) (x : φ), p.assetDataSize = size →
        Traffic.split (etssGetLoop p fs fid n o ⟨x, buf⟩ io) = t.on fs x := by
  induction n using Nat.strong_induction_on with
  | h n ih =>
    intro o buf io
    -- what comes after a read depends on the bytes that are read
    choose t ht heq using fun (_ : n - min n size > 0) (bs : List UInt8) => ih (n - min n size)
      (by omega) (o + min n size) (fillBuf buf bs)
      (io.psaWrite 0 (bytesOf (fillBuf buf bs) (min n size)))
    refine ⟨.call (.read fid (min n size) o) fun
      | .error e => .done (.error e, buf, io)
      | .ok bs => if hrest : n - min n size > 0 then t hrest bs
        else .done (.ok (), fillBuf buf bs, io.psaWrite 0 (bytesOf (fillBuf buf bs) (min n size))),
      ⟨hf, fun res => ?_⟩, fun p fs x hsize => ?_⟩
    · cases res with
      | error e => trivial
      | ok bs =>
        dsimp only
        split_ifs with hrest
        · exact ht hrest bs
        · trivial
    · rw [etssGetLoop]
      dsimp only
      rw [hsize]
      unfold Calls.on FileSystem.call
      dsimp only
      generalize fs.fileRead fid (min n size) o x = r
      obtain ⟨_ | bs, y⟩ := r
      · rfl
      · dsimp only
        split_ifs with hrest
        · exact heq hrest bs p fs y hsize
        · rfl

end

/-- One request on any platform, with the answer. -/
def Platform.serve (p : Platform φ) (req : Request) (s : Partition φ) : Answer × Partition φ :=
  match req with
  | .set msg uid createFlags =>
    let (res, s, _) := etssSet p msg uid (msg.inSize 1) createFlags s .start
    (.status res, s)
  | .get msg uid dataOffset dataSize =>
    let (res, s, io) := etssGet p msg uid dataOffset dataSize s .start
    (.data (res.map fun _ => written io.events), s)
  | .getInfo msg uid =>
    let (res, s) := etssGetInfo p msg uid s
    (.info (res.map fun info => (info.capacity, info.size, info.flags)), s)
  | .remove msg uid =>
    let (res, s) := etssRemove p msg uid s
    (.status res, s)

/-- The results come from calls on the filesystem of the client, the same ones on each platform with
these features and a buffer of this size. -/
def MakesCalls (feature : SecurityFeature) (size : Nat) (clientId : Int)
    (f : ∀ φ : Type, Platform φ → φ → α × φ) : Prop :=
  ∃ (a : α) (t : Calls α), t.InRange size ∧ ∀ {φ : Type} (p : Platform φ) (x : φ),
    p.securityFeature = feature → p.assetDataSize = size →
      f φ p x = t.onCtx (p.fsCtx clientId) a x

section
variable {feature : SecurityFeature} {clientId : Int}

/-- No call is made. -/
theorem MakesCalls.done {f : ∀ φ : Type, Platform φ → φ → α × φ} (a : α)
    (h : ∀ {φ : Type} (p : Platform φ) (x : φ), p.securityFeature = feature → f φ p x = (a, x)) :
    MakesCalls feature size clientId f := by
  refine ⟨a, .done a, trivial, fun p x hfeature _ => ?_⟩
  rw [h p x hfeature]
  cases p.fsCtx clientId <;> rfl

theorem MakesCalls.map {f : ∀ φ : Type, Platform φ → φ → α × φ}
    (h : MakesCalls feature size clientId f) (g : α → β) :
    MakesCalls feature size clientId fun φ p x => (g (f φ p x).1, (f φ p x).2) := by
  obtain ⟨a, t, ht, heq⟩ := h
  refine ⟨g a, t.map g, ht.map g, fun p x hfeature hsize => ?_⟩
  dsimp only
  rw [t.onCtx_map, heq p x hfeature hsize]

/-- The information of a file is the first call, and what comes after it depends on the result. -/
theorem MakesCalls.getInfo {f : ∀ φ : Type, Platform φ → φ → α × φ} {fid : Fid} (hf : fid ≠ 0) (a : α)
    (k : Except Status FileInfo → Calls α) (hk : ∀ res, (k res).InRange size)
    (h : ∀ {φ : Type} (p : Platform φ) (x : φ), p.securityFeature = feature → p.assetDataSize = size →
      (p.fsCtx clientId = none → f φ p x = (a, x)) ∧
        ∀ fs res y, p.fsCtx clientId = some fs → fs.fileGetInfo fid x = (res, y) →
          f φ p x = (k res).on fs y) :
    MakesCalls feature size clientId f := by
  refine ⟨a, .call (.getInfo fid) k, ⟨hf, hk⟩, fun p x hfeature hsize => ?_⟩
  obtain ⟨hnone, hsome⟩ := h p x hfeature hsize
  cases hctx : p.fsCtx clientId with
  | none => exact hnone hctx
  | some fs => exact hsome fs _ _ hctx rfl

variable {msg : Msg} {uid n flags o : Nat} (hpos : 0 < size) (hu : uid < 2 ^ 64)
include hu

include hpos in
theorem etssSet_makesCalls (hn : n < 2 ^ 32) (hflags : flags < 2 ^ 32) (buf : Nat → UInt8)
    (io : Io Reply) : MakesCalls feature size msg.clientId fun _ p x =>
      Traffic.split (etssSet p msg uid n flags ⟨x, buf⟩ io) := by
  by_cases hstorage : feature.securityStorage = true
  · by_cases huid : uid = etssInvalidUid
    · refine .done (.error .invalidArgument, buf, io) fun p x hfeature => ?_
      unfold etssSet
      rw [hfeature, if_pos hstorage, if_pos huid]
      rfl
    · by_cases hsup : flags &&& not32 supportedFlags ≠ 0
      · refine .done (.error .notSupported, buf, io) fun p x hfeature => ?_
        unfold etssSet
        rw [hfeature, if_pos hstorage, if_neg huid, if_pos hsup]
        rfl
      · have hf : etssGetFid msg.clientId uid ≠ 0 := etssGetFid_ne_zero hu huid
        have hlt : flags ||| flagCreate ||| flagTruncate < 2 ^ 32 :=
          Nat.or_lt_two_pow (Nat.or_lt_two_pow hflags (by decide)) (by decide)
        obtain ⟨t, ht, heq⟩ := etssSetLoop_eq_on hpos hf msg n 0
          (flags ||| flagCreate ||| flagTruncate) buf io (by omega) hlt
        refine .getInfo hf (.error .notPermitted, buf, io) (fun
          | .ok info => if info.flags &&& psaStorageFlagWriteOnce ≠ 0 then
              .done (.error .notPermitted, buf, io) else t
          | .error e => if e = .doesNotExist then t else .done (.error e, buf, io))
          (fun res => ?_) fun p x hfeature hsize => ?_
        · rcases res with e | info
          · dsimp only
            split_ifs
            · exact ht
            · trivial
          · dsimp only
            split_ifs
            · trivial
            · exact ht
        · unfold etssSet
          rw [hfeature, if_pos hstorage, if_neg huid, if_neg hsup]
          dsimp only
          refine ⟨fun hctx => ?_, fun fs res y hctx hinfo => ?_⟩
          · rw [hctx]
            rfl
          · simp only [hctx, hinfo]
            rcases res with e | info
            · cases e with
              | doesNotExist => exact heq p fs y hsize
              | _ => rfl
            · dsimp only
              split_ifs
              · rfl
              · exact heq p fs y hsize
  · refine .done (.error .notSupported, buf, io) fun p x hfeature => ?_
    unfold etssSet
    rw [hfeature, if_neg hstorage]
    rfl

include hpos in
theorem etssGet_makesCalls (buf : Nat → UInt8) (io : Io Reply) :
    MakesCalls feature size msg.clientId fun _ p x =>
      Traffic.split (etssGet p msg uid o n ⟨x, buf⟩ io) := by
  by_cases hstorage : feature.securityStorage = true
  · by_cases huid : uid = etssInvalidUid
    · refine .done (.error .invalidArgument, buf, io) fun p x hfeature => ?_
      unfold etssGet
      rw [hfeature, if_pos hstorage, if_pos huid]
      rfl
    · have hf : etssGetFid msg.clientId uid ≠ 0 := etssGetFid_ne_zero hu huid
      choose t ht heq using fun info : FileInfo => etssGetLoop_eq_on hpos hf
        (min n (info.sizeCurrent - o)) o buf io
      refine .getInfo hf (.error .notPermitted, buf, io) (fun
        | .ok info => if o > info.sizeCurrent then .done (.error .invalidArgument, buf, io) else t info
        | .error e => .done (.error e, buf, io)) (fun res => ?_) fun p x hfeature hsize => ?_
      · rcases res with e | info
        · trivial
        · dsimp only
          split_ifs
          · trivial
          · exact ht info
      · unfold etssGet
        rw [hfeature, if_pos hstorage, if_neg huid]
        dsimp only
        refine ⟨fun hctx => ?_, fun fs res y hctx hinfo => ?_⟩
        · rw [hctx]
          rfl
        · simp only [hctx, hinfo]
          rcases res with e | info
          · rfl
          · dsimp only
            split_ifs
            · rfl
            · exact heq info p fs y hsize
  · refine .done (.error .notSupported, buf, io) fun p x hfeature => ?_
    unfold etssGet
    rw [hfeature, if_neg hstorage]
    rfl

theorem etssGetInfo_makesCalls (buf : Nat → UInt8) :
    MakesCalls feature size msg.clientId fun _ p x =>
      Partition.split (etssGetInfo p msg uid ⟨x, buf⟩) := by
  by_cases hstorage : feature.securityStorage = true
  · by_cases huid : uid = etssInvalidUid
    · refine .done (.error .invalidArgument, buf) fun p x hfeature => ?_
      unfold etssGetInfo
      rw [hfeature, if_pos hstorage, if_pos huid]
      rfl
    · have hf : etssGetFid msg.clientId uid ≠ 0 := etssGetFid_ne_zero hu huid
      refine .getInfo hf (.error .notPermitted, buf) (fun
        | .ok info => .done (.ok ⟨info.sizeCurrent, info.sizeCurrent, info.flags⟩, buf)
        | .error e => .done (.error e, buf)) (fun res => ?_) fun p x hfeature _ => ?_
      · cases res <;> trivial
      · unfold etssGetInfo
        rw [hfeature, if_pos hstorage, if_neg huid]
        dsimp only
        refine ⟨fun hctx => ?_, fun fs res y hctx hinfo => ?_⟩
        · rw [hctx]
          rfl
        · simp only [hctx, hinfo]
          cases res <;> rfl
  · refine .done (.error .notSupported, buf) fun p x hfeature => ?_
    unfold etssGetInfo
    rw [hfeature, if_neg hstorage]
    rfl

theorem etssRemove_makesCalls (buf : Nat → UInt8) :
    MakesCalls feature size msg.clientId fun _ p x =>
      Partition.split (etssRemove p msg uid ⟨x, buf⟩) := by
  by_cases hstorage : feature.securityStorage = true
  · by_cases huid : uid = etssInvalidUid
    · refine .done (.error .invalidArgument, buf) fun p x hfeature => ?_
      unfold etssRemove
      rw [hfeature, if_pos hstorage, if_pos huid]
      rfl
    · have hf : etssGetFid msg.clientId uid ≠ 0 := etssGetFid_ne_zero hu huid
      refine .getInfo hf (.error .notPermitted, buf) (fun
        | .ok info => if info.flags &&& psaStorageFlagWriteOnce ≠ 0 then
            .done (.error .notPermitted, buf)
          else .call (.delete (etssGetFid msg.clientId uid)) fun status => .done (status, buf)
        | .error e => .done (.error e, buf)) (fun res => ?_) fun p x hfeature _ => ?_
      · rcases res with e | info
        · trivial
        · dsimp only
          split_ifs
          · trivial
          · exact ⟨hf, fun _ => trivial⟩
      · unfold etssRemove
        rw [hfeature, if_pos hstorage, if_neg huid]
        dsimp only
        refine ⟨fun hctx => ?_, fun fs res y hctx hinfo => ?_⟩
        · rw [hctx]
          rfl
        · simp only [hctx, hinfo]
          rcases res with e | info
          · rfl
          · dsimp only
            split_ifs <;> rfl
  · refine .done (.error .notSupported, buf) fun p x hfeature => ?_
    unfold etssRemove
    rw [hfeature, if_neg hstorage]
    rfl

end

/-- The answer to a request comes from calls on the filesystem of its client. -/
theorem serve_makesCalls {feature : SecurityFeature} {req : Request} (hpos : 0 < size)
    (hreq : req.InRange) (hlt : req.createFlags < 2 ^ 32) (buf : Nat → UInt8) :
    MakesCalls feature size req.msg.clientId fun _ p x =>
      Partition.split (p.serve req ⟨x, buf⟩) := by
  cases req with
  | set msg uid flags =>
    exact (etssSet_makesCalls hpos hreq.uid hreq.size hlt buf .start).map
      fun r : Traffic => (Answer.status r.1, r.2.1)
  | get msg uid o n =>
    exact (etssGet_makesCalls hpos hreq.uid buf .start).map
      fun r : Traffic => (Answer.data (r.1.map fun _ => written r.2.2.events), r.2.1)
  | getInfo msg uid =>
    exact (etssGetInfo_makesCalls hreq.uid buf).map
      fun r : Except Status StorageInfo × (Nat → UInt8) =>
        (Answer.info (r.1.map fun info => (info.capacity, info.size, info.flags)), r.2)
  | remove msg uid =>
    exact (etssRemove_makesCalls hreq.uid buf).map
      fun r : Reply × (Nat → UInt8) => (Answer.status r.1, r.2)

end Etss
