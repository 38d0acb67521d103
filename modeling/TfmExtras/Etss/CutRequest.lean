import TfmExtras.Etss.CutStates
import TfmExtras.Etss.OnBoard
import TfmExtras.Etss.StartFault
import TfmExtras.SecureFlash.PowerLoss

/-! Requests on a device that loses power in a call to the HAL. What is left of each area is mounted with
the files that it had before the request, or, in the area of the client, after one of its calls. -/

namespace Etss
open NorFlash NorFlash.Flash FlashM Ipc SecureFlash

/-! ## Calls that are cut -/

section
variable {cfg : Config} {c : Ctx} {fl fl' : Flash} {r : WriteReq}

/-- A call that only reads leaves the flash as it is. -/
theorem Store.query_cut {α : Type} {m : FsM α} {res : Except Status α}
    (hq : m.Query cfg.eraseVal (fun _ o => ∃ b off n, o = .read b off n) c fl res)
    (hc : m.CutAt cfg.eraseVal c fl fl') : fl' = fl := by
  refine wp_cut (C := (· = fl)) hq rfl (fun fl₁ o hfl ho => ?_) hc
  obtain ⟨b, off, n, rfl⟩ := ho
  refine ⟨hfl, fun fl₂ hcut => ?_⟩
  cases hcut
  exact hfl

/-- A write whose maximum size wraps around as well. -/
theorem Store.write_cut {k : Nat} (h : Store cfg c fl) (he : cfg.eraseVal = 0x00 ∨ cfg.eraseVal = 0xFF)
    (hu : cfg.programUnit = 2 ^ k) (hr : r.InRange) (hd : AlignFits r.dataSize cfg.programUnit)
    (hc : ((FsCall.write r).exec cfg).CutAt cfg.eraseVal c fl fl') :
    RestoresEither cfg (.write r) c fl fl' := by
  obtain ⟨n, hn, hv⟩ := hr.valid hu hd
  rw [← (exec_of_max hn).1] at hc
  have hcut := h.call_cut (f := .write { r with maxSize := n }) he hv hc
  unfold RestoresEither at hcut
  rwa [(after_of_max hn c fl).1] at hcut

end

/-! ## What is left of a request -/

variable {ι J : Type} {b : Build ι} {hw : Hardware J} {sf : Secureflash} {mem : J → Nat → UInt8}
  {on : J → Prop} {i : ι} {client : Int} {s : Storage ι} {t : Stack ι J} {x : ι → Ctx × Flash}
  {M : Fid → Option Image.View} {calls : List (Called ι)} {reqs : List Request} {req : Request}

def Build.files (b : Build ι) (x : ι → Ctx × Flash) (i : ι) : Fid → Option Image.View :=
  (mountedImage (b.cfg i) (x i).1 (x i).2).fileMap (b.cfg i)

/-- The files after the call. -/
def Called.files (y : Called ι) (b : Build ι) : Fid → Option Image.View :=
  let out := y.call.after (b.cfg y.area) (y.before y.area).1 (y.before y.area).2
  (mountedImage (b.cfg y.area) out.ctx out.flash).fileMap (b.cfg y.area)

/-- The files of area `i` are those before the request, or in the area of its client those after one
of its calls. -/
def Build.Between (b : Build ι) (client : Int) (x : ι → Ctx × Flash) (calls : List (Called ι)) (i : ι)
    (M : Fid → Option Image.View) : Prop :=
  M = b.files x i ∨ b.area client = some i ∧ ∃ y ∈ calls, y.area = i ∧ M = y.files b

theorem Build.Between.mono {calls' : List (Called ι)} (h : b.Between client x calls i M)
    (hsub : calls ⊆ calls') : b.Between client x calls' i M :=
  h.imp_right fun ⟨hi, y, hy, hM⟩ => ⟨hi, y, hsub hy, hM⟩

/-- A start finds in each area `i` files that satisfy `B i`. -/
def Build.Settled (b : Build ι) (B : ι → (Fid → Option Image.View) → Prop) (m : Nat → UInt8) : Prop :=
  ∀ i, ∃ fl M, Represents (b.cfg i) m fl ∧ Restores (b.cfg i) M fl ∧ B i M

/-- The HAL stores bytes until it loses power, which the build's device comes up with. The area of
each client is a NOR flash for it and for the partition, and the areas lie apart. -/
structure Build.PlacedUntilLost (b : Build ι) (hw : Hardware J) (sf : Secureflash)
    (mem : J → Nat → UInt8) (on : J → Prop) : Prop where
  losesPower : ∀ i, LosesPower hw.hal mem (b.cfg i).eraseVal on
  eraseVal : ∀ i, (b.cfg i).eraseVal = 0x00 ∨ (b.cfg i).eraseVal = 0xFF
  chip : hw.chip.device = some sf
  area : ∀ {client i}, b.area client = some i → Area hw sf (b.cfg i) client
  start : ∀ i, Area hw sf (b.cfg i) hw.spEtss
  apart : ∀ {i j}, i ≠ j → areaEnd (b.cfg i) ≤ (b.cfg j).flashAreaAddr ∨
    areaEnd (b.cfg j) ≤ (b.cfg i).flashAreaAddr

/-- With power, the board holds the filesystems, each between two calls of the request. -/
structure Build.HoldsOn (b : Build ι) (sf : Secureflash) (mem : J → Nat → UInt8) (on : J → Prop)
    (client : Int) (x : ι → Ctx × Flash) (s : Storage ι) (t : Stack ι J) : Prop where
  holds : b.Holds sf mem s t
  on : on t.board.device.jedec
  between : ∀ i, b.Between client x s.calls i (b.files s.fs i)

/-- Power was lost in a call for the client, and a start finds such files. -/
structure Build.Lost (b : Build ι) (mem : J → Nat → UInt8) (on : J → Prop) (client : Int)
    (x : ι → Ctx × Flash) (s : Storage ι) (t : Stack ι J) : Prop where
  area : ∃ i, b.area client = some i
  off : ¬ on t.board.device.jedec
  settled : b.Settled (b.Between client x s.calls) (mem t.board.device.jedec)

section
variable [DecidableEq ι] (hp : b.PlacedUntilLost hw sf mem on) (hi : b.area client = some i)
include hp hi

/-- One call on the board is the call on the filesystem, or it is cut. -/
theorem Build.Holds.callUntilLost (h : b.Holds sf mem s t) (hon : on t.board.device.jedec) {α : Type}
    {m : FsM α} (hm : OnBlocks (b.cfg i) m (s.fs i).1 (s.fs i).2) (calls : List (Called ι)) :
    ((b.onBoard hw client i m t).1 = (m.run (b.cfg i).eraseVal (s.fs i).1 (s.fs i).2).status ∧
        b.Holds sf mem ⟨Function.update s.fs i
          ((m.run (b.cfg i).eraseVal (s.fs i).1 (s.fs i).2).ctx,
            (m.run (b.cfg i).eraseVal (s.fs i).1 (s.fs i).2).flash), calls⟩
          (b.onBoard hw client i m t).2 ∧
        on (b.onBoard hw client i m t).2.board.device.jedec) ∨
      ∃ fl', m.CutAt (b.cfg i).eraseVal (s.fs i).1 (s.fs i).2 fl' ∧
        ¬ on (b.onBoard hw client i m t).2.board.device.jedec ∧
        Represents (b.cfg i) (mem (b.onBoard hw client i m t).2.board.device.jedec) fl' ∧
        ∀ j, j ≠ i → Represents (b.cfg j) (mem (b.onBoard hw client i m t).2.board.device.jedec)
          (s.fs j).2 := by
  have hinit := Chip.device_isInitialized hp.chip
  have hcarries := ops_carriesUntilLost (b := etssClientIdPassOn client t.board) (hp.area hi)
    (hp.losesPower i) hinit
  have hboard : Powered sf (b.cfg i) mem on (etssClientIdPassOn client t.board)
    (etssClientIdPassOn client t.board) (s.fs i).2 :=
      ⟨hon, h.device, rfl, h.represents i, fun _ _ => rfl⟩
  have hrun := runOn_cut hcarries hm hboard
  unfold Build.onBoard
  rw [h.ctx i]
  refine hrun.imp ?_ ?_
  · rintro ⟨hstatus, hctx, hboard⟩
    exact ⟨hstatus, h.updated hctx (fun j hj => hp.apart hj) (wp_iff.mp hm).2 hboard.represents
      hboard.outside hboard.device calls, hboard.on⟩
  · rintro ⟨fl', hcut, hboard⟩
    exact ⟨fl', hcut, hboard.off, hboard.represents,
      fun j hj => (h.represents j).of_outside (hp.apart hj) hboard.outside⟩

/-- What a call leaves is between two calls of the request if its area is. -/
theorem Build.HoldsOn.call (h : b.HoldsOn sf mem on client x s t) {α : Type} {m : FsM α}
    (hm : OnBlocks (b.cfg i) m (s.fs i).1 (s.fs i).2) (hsub : s.calls ⊆ calls)
    (hdone : b.Between client x calls i ((mountedImage (b.cfg i)
      (m.run (b.cfg i).eraseVal (s.fs i).1 (s.fs i).2).ctx
      (m.run (b.cfg i).eraseVal (s.fs i).1 (s.fs i).2).flash).fileMap (b.cfg i)))
    (hcut : ∀ fl', m.CutAt (b.cfg i).eraseVal (s.fs i).1 (s.fs i).2 fl' →
      ∃ M, Restores (b.cfg i) M fl' ∧ b.Between client x calls i M) :
    AgreeUntil (b.HoldsOn sf mem on client x) (b.Lost mem on client x)
      ((m.run (b.cfg i).eraseVal (s.fs i).1 (s.fs i).2).status, (⟨Function.update s.fs i
        ((m.run (b.cfg i).eraseVal (s.fs i).1 (s.fs i).2).ctx,
          (m.run (b.cfg i).eraseVal (s.fs i).1 (s.fs i).2).flash), calls⟩ : Storage ι))
      (b.onBoard hw client i m t) := by
  refine (h.holds.callUntilLost hp hi h.on hm calls).imp ?_ ?_
  · rintro ⟨hstatus, hholds, hon⟩
    refine ⟨hstatus.symm, hholds, hon, fun j => ?_⟩
    unfold Build.files
    by_cases hj : j = i
    · subst hj
      dsimp only
      rw [Function.update_self]
      exact hdone
    · dsimp only
      rw [Function.update_of_ne hj]
      exact (h.between j).mono hsub
  · rintro ⟨fl', hcutAt, hoff, hrep, hothers⟩
    refine ⟨⟨i, hi⟩, hoff, fun j => ?_⟩
    by_cases hj : j = i
    · subst hj
      obtain ⟨M, hM, hB⟩ := hcut fl' hcutAt
      exact ⟨fl', M, hrep, hM, hB⟩
    · exact ⟨_, _, hothers j hj, (h.holds.store j).restores, (h.between j).mono hsub⟩

/-- A call that only looks at a file. -/
theorem Build.HoldsOn.look (h : b.HoldsOn sf mem on client x s t) {α : Type} {m : FsM α}
    {res : Except Status α} (hq : ∀ {G}, AllowsReads (b.cfg i) G →
      m.Query (b.cfg i).eraseVal G (s.fs i).1 (s.fs i).2 res) :
    AgreeUntil (b.HoldsOn sf mem on client x) (b.Lost mem on client x) (s.look (b.cfg i) i m)
      (b.onBoard hw client i m t) := by
  have hrun := (hq allowsReads_blockOp).run_eq
  have hfiles : b.Between client x s.calls i _ := h.between i
  refine h.call hp hi ((h.holds.store i).query_onBlocks (hq allowsReads_blockOp))
    (List.Subset.refl _) ?_ fun fl' hc => ?_
  · rw [hrun]
    exact hfiles
  · have hflash : fl' = (s.fs i).2 := Store.query_cut (hq fun _ b' off n _ _ => ⟨b', off, n, rfl⟩) hc
    exact ⟨_, hflash ▸ (h.holds.store i).restores, hfiles⟩

/-- A call that changes a file. -/
theorem Build.HoldsOn.change (h : b.HoldsOn sf mem on client x s t) {f : FsCall}
    (hm : OnBlocks (b.cfg i) (f.exec (b.cfg i)) (s.fs i).1 (s.fs i).2)
    (hcut : ∀ fl', (f.exec (b.cfg i)).CutAt (b.cfg i).eraseVal (s.fs i).1 (s.fs i).2 fl' →
      RestoresEither (b.cfg i) f (s.fs i).1 (s.fs i).2 fl') :
    AgreeUntil (b.HoldsOn sf mem on client x) (b.Lost mem on client x) (s.call (b.cfg i) i f)
      (b.onBoard hw client i (f.exec (b.cfg i)) t) := by
  have hsub : s.calls ⊆ s.calls ++ [⟨i, s.fs, f⟩] := List.subset_append_left _ _
  have hafter : b.Between client x (s.calls ++ [⟨i, s.fs, f⟩]) i
      (Called.files ⟨i, s.fs, f⟩ b) := .inr ⟨hi, _, List.mem_append_right _ (List.mem_singleton_self _),
    rfl, rfl⟩
  refine h.call hp hi hm hsub hafter fun fl' hc => ?_
  rcases hcut fl' hc with hbefore | hdone
  · exact ⟨_, hbefore, (h.between i).mono hsub⟩
  · exact ⟨_, hdone, hafter⟩

end

/-! ## Requests that are cut -/

section
variable [DecidableEq ι] {I : J → Prop} {P : Partition (Storage ι)} {P' : Partition (Stack ι J)}

/-- What no call to the HAL changes, no call on a filesystem changes. -/
theorem Build.boardFileSystem_keeps (h : hw.hal.Keeps I) (size : Nat) :
    (b.boardFileSystem hw client i).Keeps size fun t => I t.board.device.jedec := by
  intro c t _ hI
  cases c <;> exact runOn_keeps (I := fun board : Board J => I board.device.jedec)
    (fun o _ hI => ops_keep h o hI) _ _ hI

theorem Build.run_keeps (h : hw.hal.Keeps I)
    (hreqs : ∀ req ∈ reqs, req.InRange ∧ req.createFlags < 2 ^ 32) :
    ∀ P' : Partition (Stack ι J), I P'.fs.board.device.jedec →
      I ((b.boardPlatform hw).run reqs P').2.fs.board.device.jedec := by
  induction reqs with
  | nil => exact fun _ hI => hI
  | cons req reqs ih =>
    intro P' hI
    obtain ⟨hreq, hlt⟩ := hreqs req List.mem_cons_self
    refine ih (fun req' hm => hreqs req' (List.mem_cons_of_mem _ hm)) _ ?_
    refine Platform.serve_keeps (I := fun t : Stack ι J => I t.board.device.jedec) hreq hlt
      (fun fs hfs => ?_) hI
    obtain ⟨i, -, rfl⟩ := Option.map_eq_some_iff.mp hfs
    exact Build.boardFileSystem_keeps h _

/-- The calls of a request are only added to. -/
theorem Build.fileSystem_calls (c : FileSystem.Call) (s : Storage ι) :
    s.calls ⊆ ((b.fileSystem i).call c s).2.calls := by
  cases c with
  | getInfo fid => exact List.Subset.refl _
  | write r => exact List.subset_append_left _ _
  | read fid n o => exact List.Subset.refl _
  | delete fid => exact List.subset_append_left _ _

variable (hp : b.PlacedUntilLost hw sf mem on)
include hp

/-- The filesystem of a client answers alike on the board until power is lost. -/
theorem Build.fileSystem_alikeUntil (hi : b.area client = some i) :
    (b.fileSystem i).AlikeUntil b.assetDataSize (b.HoldsOn sf mem on client x)
      (b.Lost mem on client x) (b.boardFileSystem hw client i) where
  call := fun {c s t} hc h => by
    have hstore := h.holds.store i
    cases c with
    | getInfo fid =>
      exact h.look hp hi fun hG => Readable.fileGetInfo_query hstore.ready hc hG
    | write r =>
      obtain ⟨k, hk⟩ := b.unit i
      have hfits := b.alignFits_of_le (i := i) hc.dataSize_le
      exact h.change (f := .write r) hp hi (hstore.fileWrite_onBlocks hk hc.toInRange hfits)
        fun fl' => hstore.write_cut (hp.eraseVal i) hk hc.toInRange hfits
    | read fid n o =>
      exact h.look hp hi fun hG => Readable.fileRead_query hstore.ready hc hG n o
    | delete fid =>
      exact h.change (f := .delete fid) hp hi (hstore.fileDelete_onBlocks hc)
        fun fl' => hstore.call_cut (f := .delete fid) (hp.eraseVal i) hc
  keeps := fun t c s _ h =>
    ⟨h.area, h.off, fun j => (h.settled j).imp fun _ => Exists.imp fun _ hM =>
      ⟨hM.1, hM.2.1, hM.2.2.mono (Build.fileSystem_calls c s)⟩⟩
  keeps' := fun s c t hc h => by
    obtain ⟨hoff, hmem⟩ := Build.boardFileSystem_keeps ((hp.losesPower i).off _) _ hc
      (show _ ∧ mem t.board.device.jedec = mem t.board.device.jedec from ⟨h.off, rfl⟩)
    exact ⟨h.area, hoff, hmem.symm ▸ h.settled⟩

theorem Build.platform_alikeUntil (client : Int) : b.platform.AlikeUntil (b.boardPlatform hw) client
    (b.HoldsOn sf mem on client x) (b.Lost mem on client x) where
  feature := rfl
  size := rfl
  fsCtx := by
    show Option.Rel _ ((b.area client).map b.fileSystem)
      ((b.area client).map (b.boardFileSystem hw client))
    cases hi : b.area client with
    | none => exact .none
    | some i => exact .some (Build.fileSystem_alikeUntil hp hi)

/-- One request on the board: it is answered as on the filesystems, or power is lost. -/
theorem Build.serve_untilLost (hreq : req.InRange) (hlt : req.createFlags < 2 ^ 32)
    (hbuf : P'.assetData = P.assetData) (h : b.Holds sf mem P.fs P'.fs)
    (hon : on P'.fs.board.device.jedec) :
    ((b.serve req P).1 = ((b.boardPlatform hw).serve req P').1 ∧
        PartitionsAgree (b.HoldsOn sf mem on req.msg.clientId P.fs.fs) (b.serve req P).2
          ((b.boardPlatform hw).serve req P').2) ∨
      b.Lost mem on req.msg.clientId P.fs.fs (b.serve req P).2.fs
        ((b.boardPlatform hw).serve req P').2.fs := by
  rw [b.serve_eq]
  have hs : PartitionsAgree (b.HoldsOn sf mem on req.msg.clientId P.fs.fs)
    { P with fs := { P.fs with calls := [] } } P' := ⟨hbuf, h.of_calls [], hon, fun _ => .inl rfl⟩
  exact (Build.platform_alikeUntil hp req.msg.clientId).serve hreq hlt hs

/-- Power does not come back in a run, and the requests that are left change nothing. -/
theorem Build.Lost.run (h : b.Lost mem on client x s P'.fs)
    (hreqs : ∀ req ∈ reqs, req.InRange ∧ req.createFlags < 2 ^ 32) :
    ¬ on ((b.boardPlatform hw).run reqs P').2.fs.board.device.jedec ∧
      mem ((b.boardPlatform hw).run reqs P').2.fs.board.device.jedec =
        mem P'.fs.board.device.jedec := by
  obtain ⟨i, -⟩ := h.area
  exact Build.run_keeps ((hp.losesPower i).off _) hreqs P' ⟨h.off, rfl⟩

/-- A run at whose end there is power is a run on the filesystems. -/
theorem Build.run_powered (hreqs : ∀ req ∈ reqs, req.InRange ∧ req.createFlags < 2 ^ 32) :
    ∀ (P : Partition (Storage ι)) (P' : Partition (Stack ι J)), P'.assetData = P.assetData →
      b.Holds sf mem P.fs P'.fs → on P'.fs.board.device.jedec →
      on ((b.boardPlatform hw).run reqs P').2.fs.board.device.jedec →
      ((b.boardPlatform hw).run reqs P').1 = (b.run reqs P).1 ∧
        PartitionsAgree (b.Holds sf mem) (b.run reqs P).2 ((b.boardPlatform hw).run reqs P').2 := by
  induction reqs with
  | nil => exact fun P P' hbuf h _ _ => ⟨rfl, hbuf, h⟩
  | cons req reqs ih =>
    intro P P' hbuf h hon hend
    obtain ⟨hreq, hlt⟩ := hreqs req List.mem_cons_self
    have hrest : ∀ req' ∈ reqs, _ := fun req' hm => hreqs req' (List.mem_cons_of_mem _ hm)
    rcases Build.serve_untilLost hp hreq hlt hbuf h hon with ⟨hans, hbuf', hholds⟩ | hlost
    · obtain ⟨hanswers, hagree⟩ := ih hrest _ _ hbuf' hholds.holds hholds.on hend
      exact ⟨congrArg₂ List.cons hans.symm hanswers, hagree⟩
    · exact absurd hend (hlost.run hp hrest).1

/-- A run in which power is lost: the requests before are answered as on the filesystems, and what is
left of each area is between two calls of the next one. -/
theorem Build.run_lost (hreqs : ∀ req ∈ reqs, req.InRange ∧ req.createFlags < 2 ^ 32) :
    ∀ (P : Partition (Storage ι)) (P' : Partition (Stack ι J)), P'.assetData = P.assetData →
      b.Holds sf mem P.fs P'.fs → on P'.fs.board.device.jedec →
      ¬ on ((b.boardPlatform hw).run reqs P').2.fs.board.device.jedec →
      ∃ before req after, reqs = before ++ req :: after ∧
        ((b.boardPlatform hw).run reqs P').1.take before.length = (b.run before P).1 ∧
        b.Settled (b.Between req.msg.clientId (b.run before P).2.fs.fs
          (b.serve req (b.run before P).2).2.fs.calls)
          (mem ((b.boardPlatform hw).run reqs P').2.fs.board.device.jedec) := by
  induction reqs with
  | nil => exact fun P P' _ _ hon hoff => absurd hon hoff
  | cons req reqs ih =>
    intro P P' hbuf h hon hoff
    obtain ⟨hreq, hlt⟩ := hreqs req List.mem_cons_self
    have hrest : ∀ req' ∈ reqs, _ := fun req' hm => hreqs req' (List.mem_cons_of_mem _ hm)
    rcases Build.serve_untilLost hp hreq hlt hbuf h hon with ⟨hans, hbuf', hholds⟩ | hlost
    · obtain ⟨before, req', after, rfl, hanswers, hsettled⟩ :=
        ih hrest _ _ hbuf' hholds.holds hholds.on hoff
      exact ⟨req :: before, req', after, rfl, congrArg₂ List.cons hans.symm hanswers, hsettled⟩
    · -- this request is cut
      obtain ⟨-, hmem⟩ := hlost.run hp hrest
      exact ⟨[], req, reqs, rfl, rfl, hmem.symm ▸ hlost.settled⟩

end
end Etss
