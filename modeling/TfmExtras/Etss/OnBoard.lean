import TfmExtras.Etss.Alike
import TfmExtras.Etss.CopyOnWrite
import TfmExtras.SecureFlash.BlockDriver

/-! The partition on the device: its filesystems on the block driver, the secure flash layer and the
HAL. Where each area is a NOR flash, the requests are answered as on filesystems in flash, and what
the HAL is asked for lies in the area of the client. -/

namespace Etss
open NorFlash NorFlash.Flash FlashM Ipc SecureFlash

/-! ## The operations of a call -/

section
variable {cfg : Config} {a s : Nat} {strict : Prop} {P : Image → Prop} {c : Ctx} {fl : Flash}
  {r : WriteReq} {o : Op} {fid : Fid}

theorem CowOp.inBlock (h : CowOp cfg fl o) : InBlock cfg o := by
  cases o with
  | init => trivial
  | read b off n => exact h
  | write b off data => exact ⟨h.2.1, h.2.2.1⟩
  | flush b => exact h
  | erase b => exact h.2

theorem UpdateOp.ne_init {fl₀ : Flash} (h : UpdateOp cfg fl₀ a s strict P fl o) : o ≠ .init := by
  rintro rfl
  cases h with
  | stage _ op => exact op
  | commit _ op => cases op

theorem WriteOp.ne_init {fl₀ : Flash} (h : WriteOp cfg fl₀ a s strict r fl o) : o ≠ .init := by
  cases h with
  | update op => exact op.ne_init
  | delete _ _ _ op => exact op.ne_init

/-- The call keeps to the blocks, and leaves a store. -/
def OnBlocks (cfg : Config) {α : Type} (m : FsM α) (c : Ctx) (fl : Flash) : Prop :=
  m.wp cfg.eraseVal (fun _ o => BlockOp cfg o) c fl fun _ c' fl' => Store cfg c' fl'

theorem allowsReads_blockOp : AllowsReads cfg fun _ o => BlockOp cfg o :=
  fun _ _ _ _ hb ho => ⟨⟨hb, ho⟩, fun h => by cases h⟩

namespace Store
variable (h : Store cfg c fl)
include h

theorem query_onBlocks {α : Type} {m : FsM α} {res : Except Status α}
    (hq : m.Query cfg.eraseVal (fun _ o => BlockOp cfg o) c fl res) : OnBlocks cfg m c fl :=
  hq.wp h

theorem write_onBlocks (hv : r.Valid cfg) : OnBlocks cfg ((FsCall.write r).exec cfg) c fl :=
  wp_mono (h.call_wp (.write r) hv (False.elim : False → _))
    (fun _ _ ho => ⟨(h.guarded_cow (f := .write r) hv ho).inBlock, WriteOp.ne_init ho⟩)
    fun _ _ _ hs => hs.store

/-- A write whose maximum size wraps around keeps to the blocks as well. -/
theorem fileWrite_onBlocks {k : Nat} (hu : cfg.programUnit = 2 ^ k) (hr : r.InRange)
    (hd : AlignFits r.dataSize cfg.programUnit) :
    OnBlocks cfg (flashFsFileWrite cfg r.fid r.flags r.maxSize r.dataSize r.offset r.data) c fl := by
  obtain ⟨n, hn, hv⟩ := hr.valid hu hd
  have hw := h.write_onBlocks hv
  rw [(exec_of_max hn).1] at hw
  exact hw

theorem fileDelete_onBlocks (hf : fid ≠ 0) : OnBlocks cfg (flashFsFileDelete cfg fid) c fl :=
  wp_mono (h.call_wp (.delete fid) hf (False.elim : False → _))
    (fun _ _ ho => ⟨(h.guarded_cow (f := .delete fid) hf ho).inBlock, UpdateOp.ne_init ho⟩)
    fun _ _ _ hs => hs.store

end Store
end

/-! ## The areas -/

/-- The contexts of the filesystems, and the board that they are on. -/
structure Stack (ι J : Type) where
  ctx : ι → Ctx
  board : Board J

variable {ι J : Type} {b : Build ι} {hw : Hardware J} {sf : Secureflash} {mem : J → Nat → UInt8}
  {i : ι} {client : Int} {s : Storage ι} {t : Stack ι J} {d d' d₀ : SecureFlash.Device J} {reqs : List Request}

/-- The HAL stores bytes without errors. The area of each client is a NOR flash for it, and the
areas lie apart. -/
structure Build.Placed (b : Build ι) (hw : Hardware J) (sf : Secureflash) (mem : J → Nat → UInt8) :
    Prop where
  stores : ∀ i, Stores hw.hal mem (b.cfg i).eraseVal
  neverFails : NeverFails hw.hal
  initialized : sf.isInitialized = true
  area : ∀ {client i}, b.area client = some i → Area hw sf (b.cfg i) client
  apart : ∀ {i j}, i ≠ j → areaEnd (b.cfg i) ≤ (b.cfg j).flashAreaAddr ∨
    areaEnd (b.cfg j) ≤ (b.cfg i).flashAreaAddr

/-- The board holds the filesystems. -/
structure Build.Holds (b : Build ι) (sf : Secureflash) (mem : J → Nat → UInt8) (s : Storage ι)
    (t : Stack ι J) : Prop where
  store : ∀ i, Store (b.cfg i) (s.fs i).1 (s.fs i).2
  ctx : ∀ i, t.ctx i = (s.fs i).1
  represents : ∀ i, Represents (b.cfg i) (mem t.board.device.jedec) (s.fs i).2
  device : t.board.context.device = some sf

/-- An address outside the area of the client. -/
def Build.Outside (b : Build ι) (client : Int) (x : Nat) : Prop :=
  ∀ i, b.area client = some i → x < (b.cfg i).flashAreaAddr ∨ areaEnd (b.cfg i) ≤ x

/-- What was passed to the HAL between two states lies in the area of the client, and outside it
every byte stays. -/
structure Build.Confined (b : Build ι) (hw : Hardware J) (sf : Secureflash) (mem : J → Nat → UInt8)
    (client : Int) (d d' : SecureFlash.Device J) : Prop where
  outside : ∀ x, b.Outside client x → mem d'.jedec x = mem d.jedec x
  events : ∃ evs, d'.events = d.events ++ evs ∧
    ∀ e ∈ evs, ∃ i, b.area client = some i ∧ e.InArea hw sf (b.cfg i) client

theorem Build.Confined.refl : b.Confined hw sf mem client d d :=
  ⟨fun _ _ => rfl, [], (List.append_nil _).symm, fun _ h => absurd h List.not_mem_nil⟩

theorem Build.Confined.trans (h : b.Confined hw sf mem client d₀ d)
    (h' : b.Confined hw sf mem client d d') : b.Confined hw sf mem client d₀ d' := by
  obtain ⟨hout, evs, he, hin⟩ := h
  obtain ⟨hout', evs', he', hin'⟩ := h'
  refine ⟨fun x hx => (hout' x hx).trans (hout x hx), evs ++ evs',
    by rw [he', he, List.append_assoc], fun e hm => ?_⟩
  exact (List.mem_append.mp hm).elim (hin e) (hin' e)

theorem Build.Confined.of_carried {board board' : Board J} {fl : Flash} (hi : b.area client = some i)
    (ha : board.appId = client) (h : Carried hw sf (b.cfg i) mem board board' fl) :
    b.Confined hw sf mem client board.device board'.device := by
  obtain ⟨evs, he, hin⟩ := h.events
  exact ⟨fun x hx => h.outside x (hx i hi), evs, he, fun e hm => ⟨i, hi, ha ▸ hin e hm⟩⟩

/-! ## The filesystems on the board -/

section
variable [DecidableEq ι] (b : Build ι) (hw : Hardware J)

/-- A call for a client, on the filesystem in area `i`. The id is passed on before: nothing else of
the request uses it. -/
def Build.onBoard {α : Type} (client : Int) (i : ι) (m : FsM α) (t : Stack ι J) :
    Except Status α × Stack ι J :=
  let (status, ctx, board) :=
    m.runOn (secureFlashFsOps hw (b.cfg i)) (t.ctx i) (etssClientIdPassOn client t.board)
  (status, ⟨Function.update t.ctx i ctx, board⟩)

def Build.boardFileSystem (client : Int) (i : ι) : FileSystem (Stack ι J) where
  fileGetInfo fid := b.onBoard hw client i (flashFsFileGetInfo (b.cfg i) fid)
  fileWrite fid flags maxSize dataSize offset data :=
    b.onBoard hw client i (flashFsFileWrite (b.cfg i) fid flags maxSize dataSize offset data)
  fileRead fid size offset := b.onBoard hw client i (flashFsFileRead (b.cfg i) fid size offset)
  fileDelete fid := b.onBoard hw client i (flashFsFileDelete (b.cfg i) fid)

/-- The platform of the build, with its filesystems on the board. -/
def Build.boardPlatform : Platform (Stack ι J) where
  securityFeature := b.securityFeature
  fsCtx client := (b.area client).map (b.boardFileSystem hw client)
  assetDataSize := b.assetDataSize
  provBlobLenMax := 0
  performAndVerify _ t := (false, t)
  assetDataSize_pos := b.assetDataSize_pos

end

/-- One request after the other, on any platform. -/
def Platform.run {φ : Type} (p : Platform φ) : List Request → Partition φ →
    List Answer × Partition φ
  | [], s => ([], s)
  | req :: reqs, s =>
    let (ans, s) := p.serve req s
    let (answers, s) := p.run reqs s
    (ans :: answers, s)

/-- The board holds what a call leaves when only its area has changed. -/
theorem Build.Holds.updated [DecidableEq ι] (h : b.Holds sf mem s t) {c c' : Ctx} {fl : Flash}
    {board : Board J} (hctx : c' = c) (hapart : ∀ j, j ≠ i → areaEnd (b.cfg j) ≤ (b.cfg i).flashAreaAddr ∨
      areaEnd (b.cfg i) ≤ (b.cfg j).flashAreaAddr)
    (hstore : Store (b.cfg i) c fl) (hrep : Represents (b.cfg i) (mem board.device.jedec) fl)
    (hout : ∀ x, x < (b.cfg i).flashAreaAddr ∨ areaEnd (b.cfg i) ≤ x →
      mem board.device.jedec x = mem t.board.device.jedec x)
    (hdevice : board.context.device = some sf) (calls : List (Called ι)) :
    b.Holds sf mem ⟨Function.update s.fs i (c, fl), calls⟩ ⟨Function.update t.ctx i c', board⟩ := by
  subst hctx
  refine ⟨fun j => ?_, fun j => ?_, fun j => ?_, hdevice⟩
  · by_cases hj : j = i
    · subst hj
      dsimp only
      rw [Function.update_self]
      exact hstore
    · dsimp only
      rw [Function.update_of_ne hj]
      exact h.store j
  · by_cases hj : j = i
    · subst hj
      dsimp only
      rw [Function.update_self, Function.update_self]
    · dsimp only
      rw [Function.update_of_ne hj, Function.update_of_ne hj]
      exact h.ctx j
  · by_cases hj : j = i
    · subst hj
      dsimp only
      rw [Function.update_self]
      exact hrep
    · dsimp only
      rw [Function.update_of_ne hj]
      exact (h.represents j).of_outside (hapart j hj) hout

/-- One call on the board is the call on the filesystem. -/
theorem Build.Holds.call [DecidableEq ι] (hp : b.Placed hw sf mem) (h : b.Holds sf mem s t)
    (hi : b.area client = some i) {α : Type} {m : FsM α}
    (hm : OnBlocks (b.cfg i) m (s.fs i).1 (s.fs i).2) (calls : List (Called ι)) :
    (b.onBoard hw client i m t).1 = (m.run (b.cfg i).eraseVal (s.fs i).1 (s.fs i).2).status ∧
      b.Holds sf mem ⟨Function.update s.fs i
        ((m.run (b.cfg i).eraseVal (s.fs i).1 (s.fs i).2).ctx,
          (m.run (b.cfg i).eraseVal (s.fs i).1 (s.fs i).2).flash), calls⟩
        (b.onBoard hw client i m t).2 ∧
      b.Confined hw sf mem client t.board.device (b.onBoard hw client i m t).2.board.device := by
  have hcarries := ops_carries (b := etssClientIdPassOn client t.board) (hp.area hi) (hp.stores i)
    hp.neverFails h.device hp.initialized
  obtain ⟨hstatus, hctx, hboard⟩ := runOn_carried hcarries hm (.refl (h.represents i))
  have hdevice : (etssClientIdPassOn client t.board).context.device = some sf := h.device
  have hconfined : b.Confined hw sf mem client (etssClientIdPassOn client t.board).device _ :=
    .of_carried hi rfl hboard
  have hholds := h.updated hctx (fun j hj => hp.apart hj) (wp_iff.mp hm).2 hboard.represents
    hboard.outside (hboard.context ▸ hdevice) calls
  rw [← h.ctx i] at hstatus hconfined hholds ⊢
  exact ⟨hstatus, hholds, hconfined⟩

/-- What the buffer holds is rounded up without a wrap-around. -/
theorem Build.alignFits_of_le (b : Build ι) {n : Nat} (hn : n ≤ b.assetDataSize) :
    AlignFits n (b.cfg i).programUnit := by
  obtain ⟨k, hk⟩ := b.unit i
  have hlt := b.assetDataSize_lt
  have hunit := Nat.le_of_dvd b.assetDataSize_pos (b.assetDataSize_dvd i)
  have hpos : 1 ≤ (b.cfg i).programUnit := hk ▸ Nat.one_le_two_pow
  unfold AlignFits
  rw [sub32_eq (by omega) hpos]
  omega

section
variable [DecidableEq ι] (hp : b.Placed hw sf mem) (hi : b.area client = some i)
include hp hi

/-- The filesystem of a client answers alike on the board. -/
theorem Build.fileSystem_alike : (b.fileSystem i).AlikeUntil b.assetDataSize
    (fun s (t : Stack ι J) => b.Holds sf mem s t ∧ b.Confined hw sf mem client d₀ t.board.device)
    (fun _ _ => False) (b.boardFileSystem hw client i) := by
  have hcall : ∀ {α : Type} {m : FsM α} {s : Storage ι} {t : Stack ι J} (calls : List (Called ι)),
      OnBlocks (b.cfg i) m (s.fs i).1 (s.fs i).2 →
      b.Holds sf mem s t ∧ b.Confined hw sf mem client d₀ t.board.device →
      AgreeUntil (fun s (t : Stack ι J) => b.Holds sf mem s t ∧
          b.Confined hw sf mem client d₀ t.board.device) (fun _ _ => False)
        ((m.run (b.cfg i).eraseVal (s.fs i).1 (s.fs i).2).status, (⟨Function.update s.fs i
          ((m.run (b.cfg i).eraseVal (s.fs i).1 (s.fs i).2).ctx,
            (m.run (b.cfg i).eraseVal (s.fs i).1 (s.fs i).2).flash), calls⟩ : Storage ι))
        (b.onBoard hw client i m t) := fun calls hm h => by
    obtain ⟨hstatus, hholds, hconfined⟩ := h.1.call hp hi hm calls
    exact .inl ⟨hstatus.symm, hholds, h.2.trans hconfined⟩
  refine ⟨fun {c x y} hc h => ?_, fun _ _ _ _ => id, fun _ _ _ _ => id⟩
  cases c with
  | getInfo fid =>
    exact hcall _ ((h.1.store i).query_onBlocks
      (Readable.fileGetInfo_query (h.1.store i).ready hc allowsReads_blockOp)) h
  | write r =>
    obtain ⟨k, hk⟩ := b.unit i
    exact hcall _ ((h.1.store i).fileWrite_onBlocks hk hc.toInRange
      (b.alignFits_of_le hc.dataSize_le)) h
  | read fid n o =>
    exact hcall _ ((h.1.store i).query_onBlocks
      (Readable.fileRead_query (h.1.store i).ready hc allowsReads_blockOp n o)) h
  | delete fid => exact hcall _ ((h.1.store i).fileDelete_onBlocks hc) h

end

/-- The platform answers each client alike on the board. -/
theorem Build.platform_alike [DecidableEq ι] (hp : b.Placed hw sf mem) (client : Int) :
    b.platform.AlikeUntil (b.boardPlatform hw) client (fun s (t : Stack ι J) =>
      b.Holds sf mem s t ∧ b.Confined hw sf mem client d₀ t.board.device) fun _ _ => False where
  feature := rfl
  size := rfl
  fsCtx := by
    show Option.Rel _ ((b.area client).map b.fileSystem)
      ((b.area client).map (b.boardFileSystem hw client))
    cases hi : b.area client with
    | none => exact .none
    | some i => exact .some (Build.fileSystem_alike hp hi)

/-! ## Requests -/

section
variable [DecidableEq ι] {req : Request} {P : Partition (Storage ι)} {P' : Partition (Stack ι J)}

omit [DecidableEq ι] in
theorem Build.Holds.of_calls (h : b.Holds sf mem s t) (calls : List (Called ι)) :
    b.Holds sf mem { s with calls := calls } t := ⟨h.store, h.ctx, h.represents, h.device⟩

/-- One request on the board is answered as on the filesystems. -/
theorem Build.serve_onBoard (hp : b.Placed hw sf mem) (hreq : req.InRange)
    (hlt : req.createFlags < 2 ^ 32) (hbuf : P'.assetData = P.assetData)
    (h : b.Holds sf mem P.fs P'.fs) :
    (b.serve req P).1 = ((b.boardPlatform hw).serve req P').1 ∧
      PartitionsAgree (fun s (t : Stack ι J) => b.Holds sf mem s t ∧
          b.Confined hw sf mem req.msg.clientId P'.fs.board.device t.board.device)
        (b.serve req P).2 ((b.boardPlatform hw).serve req P').2 := by
  rw [b.serve_eq]
  have hs : PartitionsAgree (fun s (t : Stack ι J) => b.Holds sf mem s t ∧
      b.Confined hw sf mem req.msg.clientId P'.fs.board.device t.board.device)
    { P with fs := { P.fs with calls := [] } } P' := ⟨hbuf, h.of_calls [], .refl⟩
  exact ((Build.platform_alike hp req.msg.clientId).serve hreq hlt hs).resolve_right id

/-- What the HAL is asked for in a run, request by request. -/
structure Build.RunConfined (b : Build ι) (hw : Hardware J) (sf : Secureflash)
    (mem : J → Nat → UInt8) (reqs : List Request) (d d' : SecureFlash.Device J) : Prop where
  outside : ∀ x, (∀ req ∈ reqs, b.Outside req.msg.clientId x) → mem d'.jedec x = mem d.jedec x
  events : ∃ evs : List (List SecureFlash.Event), d'.events = d.events ++ evs.flatten ∧
    List.Forall₂ (fun req evs => ∀ e ∈ evs, ∃ i, b.area req.msg.clientId = some i ∧
      e.InArea hw sf (b.cfg i) req.msg.clientId) reqs evs

omit [DecidableEq ι] in
theorem Build.Confined.cons (h : b.Confined hw sf mem req.msg.clientId d₀ d)
    (h' : b.RunConfined hw sf mem reqs d d') : b.RunConfined hw sf mem (req :: reqs) d₀ d' := by
  obtain ⟨hout, evs, he, hin⟩ := h
  obtain ⟨hout', segments, he', hin'⟩ := h'
  refine ⟨fun x hx => ?_, evs :: segments, ?_, .cons hin hin'⟩
  · obtain ⟨hreq, hreqs⟩ := List.forall_mem_cons.mp hx
    exact (hout' x hreqs).trans (hout x hreq)
  · rw [he', he, List.flatten_cons, List.append_assoc]

/-- A run on the board is a run on the filesystems. -/
theorem Build.run_onBoard (hp : b.Placed hw sf mem) {reqs : List Request}
    (hreqs : ∀ req ∈ reqs, req.InRange ∧ req.createFlags < 2 ^ 32) :
    ∀ (P : Partition (Storage ι)) (P' : Partition (Stack ι J)), P'.assetData = P.assetData →
      b.Holds sf mem P.fs P'.fs →
      ((b.boardPlatform hw).run reqs P').1 = (b.run reqs P).1 ∧
        b.Holds sf mem (b.run reqs P).2.fs ((b.boardPlatform hw).run reqs P').2.fs ∧
        b.RunConfined hw sf mem reqs P'.fs.board.device
          ((b.boardPlatform hw).run reqs P').2.fs.board.device := by
  induction reqs with
  | nil => exact fun P P' _ h => ⟨rfl, h, fun _ _ => rfl, [], (List.append_nil _).symm, .nil⟩
  | cons req reqs ih =>
    intro P P' hbuf h
    obtain ⟨hreq, hlt⟩ := hreqs req List.mem_cons_self
    obtain ⟨hans, hbuf', hholds, hconfined⟩ := Build.serve_onBoard hp hreq hlt hbuf h
    obtain ⟨hanswers, hholds', hrun⟩ := ih (fun req' hm => hreqs req' (List.mem_cons_of_mem _ hm))
      _ _ hbuf' hholds
    exact ⟨congrArg₂ List.cons hans.symm hanswers, hholds', hconfined.cons hrun⟩

end

/-! ## A small device -/

/-- The bytes of a flash as a memory. -/
def bytesOfFlash (cfg : Config) (fl : Flash) (x : Nat) : UInt8 :=
  fl.byte cfg.eraseVal ((x - cfg.flashAreaAddr) / cfg.blockSize)
    ((x - cfg.flashAreaAddr) % cfg.blockSize)

theorem represents_bytesOfFlash (cfg : Config) (fl : Flash) :
    Represents cfg (bytesOfFlash cfg fl) fl := by
  intro blk _ off ho
  unfold bytesOfFlash
  rw [Nat.add_assoc, Nat.add_sub_cancel_left, Nat.mul_comm, Nat.mul_add_div (by omega),
    Nat.div_eq_of_lt ho, Nat.add_zero, Nat.mul_add_mod, Nat.mod_eq_of_lt ho]

/-- Blocks of two sectors each. -/
def twoSectors : Config := { fiveBlocks with sectorSize := 80 }

/-- One area for all clients, in blocks of whole sectors. -/
def sectorArea : Build Unit where
  cfg _ := twoSectors
  area client := if client = 1 then some () else none
  securityFeature := ⟨true, false, false, false⟩
  assetDataSize := 20
  accepted _ := rfl
  unit _ := ⟨2, rfl⟩
  storage := Eq.refl true
  assetDataSize_pos := by decide
  assetDataSize_lt := by decide
  assetDataSize_dvd _ := ⟨5, rfl⟩

/-- A device of one zone, for application 1. -/
def oneZone : Secureflash where
  isInitialized := true
  appData := [⟨1, 3, 0⟩]
  architecture :=
    { secureZoneSize := 880
      secureZoneTotalSize := 880
      secureReadSize := 24
      secureProgramSize := 24
      minSecureEraseSize := 80 }

def memoryHardware : Hardware (Nat → UInt8) where
  hal := memoryHal
  chip := ⟨[0xc2], oneZone.appData, [⟨[0xc2], oneZone.architecture⟩]⟩
  answers := .good
  spEtss := 5
  rounds := 160

theorem sectorArea_placed : sectorArea.Placed memoryHardware oneZone id where
  stores _ := memoryHal_stores
  neverFails := ⟨fun _ _ => rfl, fun _ _ => rfl, fun _ _ _ _ => rfl, fun _ _ _ _ => rfl,
    fun _ _ _ _ => rfl⟩
  initialized := rfl
  area {client i} hi := by
    obtain rfl : client = 1 := by
      by_contra hne
      rw [show sectorArea.area client = none from if_neg hne] at hi
      cases hi
    have hend : areaEnd (sectorArea.cfg i) = 800 := show areaEnd twoSectors = 800 by decide
    refine ⟨⟨2, rfl⟩, ⟨1, rfl⟩, ⟨0, rfl⟩, hend ▸ (by decide), fun x _ hx => ?_, le_rfl⟩
    have hzone : x / 880 = 0 := Nat.div_eq_of_lt (by omega)
    unfold queryAppInfo
    rw [show x / oneZone.architecture.secureZoneSize = 0 from hzone]
    decide
  apart h := absurd rfl h

/-- A filesystem without files. -/
def emptySectors : Partition (Storage Unit) :=
  ⟨⟨fun _ => filled twoSectors [], []⟩, fun _ => 0⟩

/-- The filesystem without files, on the board. -/
def emptyBoard : Partition (Stack Unit (Nat → UInt8)) where
  fs :=
    { ctx := fun _ => (filled twoSectors []).1
      board := ⟨⟨bytesOfFlash twoSectors (filled twoSectors []).2, []⟩,
        ⟨1, true, oneZone.appData, some oneZone.architecture, []⟩, 0⟩ }
  assetData _ := 0

theorem holds_emptyBoard : sectorArea.Holds oneZone id emptySectors.fs emptyBoard.fs where
  store i := (reaches_filled fun _ hf => absurd hf List.not_mem_nil).store (sectorArea.accepted i)
  ctx _ := rfl
  represents _ := represents_bytesOfFlash _ _
  device := rfl

/-- Client 1 sets an asset and looks at it; client 2 has no area. -/
def setAndLook : List Request :=
  [.set setAgain 1 0, .getInfo setAgain 1, .getInfo { setAgain with clientId := 2 } 1]

theorem setAndLook_inRange : ∀ req ∈ setAndLook, req.InRange ∧ req.createFlags < 2 ^ 32 := by
  have h : ∀ req ∈ setAndLook, (-2 ^ 31 ≤ req.msg.clientId ∧ req.msg.clientId < 2 ^ 31) ∧
      req.uid < 2 ^ 64 ∧ req.msg.inSize 1 < 2 ^ 32 ∧ req.createFlags < 2 ^ 32 := by decide
  intro req hreq
  obtain ⟨h₁, h₂, h₃, h₄⟩ := h req hreq
  exact ⟨⟨h₁, h₂, h₃⟩, h₄⟩

theorem setAndLook_unexposed : sectorArea.Unexposed setAndLook emptySectors := by
  refine And.intro ?_ (And.intro ?_ (And.intro ?_ trivial))
  · rintro ⟨-, i, -, p, -, hrep, -⟩
    have hfree : ∀ j < twoSectors.maxNumFiles, ((mountedImage twoSectors (filled twoSectors []).1
      (filled twoSectors []).2).files j).id ≠ etssGetFid 1 1 := by decide +kernel
    exact hfree _ hrep.oldIdx_lt hrep.id
  · rintro ⟨-, i, -, h⟩
    exact h
  · rintro ⟨-, i, -, h⟩
    exact h

/-! ## The runs -/

section
variable [DecidableEq ι] {P : Partition (Storage ι)} {P' : Partition (Stack ι J)}
  (hp : b.Placed hw sf mem) (hbuf : P'.assetData = P.assetData) (h : b.Holds sf mem P.fs P'.fs)
  (hreqs : ∀ req ∈ reqs, req.InRange ∧ req.createFlags < 2 ^ 32)
include hp hbuf h hreqs

end

end Etss
