import TfmExtras.Etss.CutRequest

/-! The partition over losses of power: `etss_init` on the board, starts that are cut, and what the next
start finds. -/

namespace Etss
open NorFlash NorFlash.Flash FlashM Ipc SecureFlash

/-! ## The operations of a start -/

section
variable {cfg : Config} {c : Ctx} {a : Nat} {fl fl₀ : Flash} {o : Op} {M : Fid → Option Image.View}

theorem initCtxAndPrepare_init (createFlashLayout : Bool) (c : Ctx) (hacc : cfg.Accepted) :
    ∃ k, etssFlashFsInitCtxAndPrepare cfg createFlashLayout c = .op .init k := by
  unfold etssFlashFsInitCtxAndPrepare
  rw [flashFsInitCtx_ok hacc]
  exact ⟨_, rfl⟩

theorem Mountable.prepareOp_inBlock (h : Mountable cfg a fl₀) (ho : PrepareOp cfg a fl₀ fl o) :
    InBlock cfg o := by
  have h2 := h.accepted.two_le_numBlocks
  have hother := otherMetaBlock_le a
  cases ho with
  | init op =>
    cases op with
    | init => trivial
    | read hb hn => exact ⟨hb, hn⟩
    | eraseMeta => exact lt_of_le_of_lt hother h2
    | eraseData hmany => exact (h.wf.scratch (by omega)).2
  | delete pending op =>
    have hpend := (h.same_of_onlyIn (onlyIn_scratchErased cfg a fl₀)).pending pending
    have hb := h.mounted.before
    exact (hb.updateOp_cow (fun st' hst => hst.wf hb.wf hpend.lt hpend.valid hb.accepted) op).inBlock

/-- A start keeps to the blocks, and mounts the files. -/
theorem Restores.start_inBlock (h : Restores cfg M fl) (createFlashLayout : Bool) (c : Ctx) :
    (etssFlashFsInitCtxAndPrepare cfg createFlashLayout).wp cfg.eraseVal (fun _ o => InBlock cfg o) c
      fl fun r c' fl' => r = .ok () ∧ Store cfg c' fl' ∧ (mountedImage cfg c' fl').fileMap cfg = M := by
  have hstart : (etssFlashFsInitCtxAndPrepare cfg createFlashLayout).Ok cfg.eraseVal anyOp c fl _ :=
    h.start_ok
  obtain ⟨_, hres⟩ := (wp_iff.mp hstart).2
  obtain ⟨a, hm, hst⟩ := h
  have hok : (etssFlashFsInitCtxAndPrepare cfg createFlashLayout).Ok cfg.eraseVal
      (PrepareOp cfg a fl) c fl fun _ => MountSpec cfg a fl :=
    initCtxAndPrepare_wp hm.accepted (hm.prepare_spec hst.closed_or_pending)
  exact wp_iff.mpr ⟨fun x hx => hm.prepareOp_inBlock ((wp_iff.mp hok).1 x hx), hres⟩

end

/-! ## Starting the partition -/

variable {ι J : Type} [DecidableEq ι]

/-- The filesystem in area `i` is started, under the id that the driver sets. -/
def Build.startArea (b : Build ι) (hw : Hardware J) (createFlashLayout : Bool) (i : ι)
    (t : Stack ι J) : Except Status Unit × Stack ι J :=
  let (status, ctx, board) := (etssFlashFsInitCtxAndPrepare (b.cfg i) createFlashLayout).runOn
    (secureFlashFsOps hw (b.cfg i)) (t.ctx i) t.board
  (status, ⟨Function.update t.ctx i ctx, board⟩)

/-- The loop of `etss_init`. -/
def Build.startAreas (b : Build ι) (hw : Hardware J) (createFlashLayout : Bool) :
    List ι → Stack ι J → Except Status Unit × Stack ι J
  | [], t => (.ok (), t)
  | i :: areas, t =>
    match b.startArea hw createFlashLayout i t with
    | (.ok _, t) => b.startAreas hw createFlashLayout areas t
    | (.error _, t) => (.error .storageFailure, t)

def Build.etssInit (b : Build ι) (hw : Hardware J) (createFlashLayout : Bool) (areas : List ι)
    (t : Stack ι J) : Except Status Unit × Stack ι J :=
  let (err, context) := secureflashInit hw.chip hw.answers t.board.context
  let t := { t with board := { t.board with context } }
  match err with
  | .error .getProvisionInfo => (.error .sfUnprovisioned, t)
  | .error .secureInit => (.error .sfUnprovisioned, t)
  | .error _ => (.error .sfInit, t)
  | .ok _ =>
    if b.securityFeature.securityStorage then b.startAreas hw createFlashLayout areas t
    else (.ok (), t)

/-- A start from what the device holds, with the variables as the program defines them. -/
def Build.powerUp (b : Build ι) (hw : Hardware J) (createFlashLayout : Bool) (areas : List ι)
    (a : InitAnswers) (j : J) : Except Status Unit × Stack ι J :=
  b.etssInit (hw.answering a) createFlashLayout areas
    ⟨fun _ => Ctx.zero, ⟨⟨j, []⟩, .initial, 0⟩⟩

/-- Starts, each from the memory that the one before has left, whatever comes of them. -/
inductive Build.Restarts (b : Build ι) (hw : Hardware J) (createFlashLayout : Bool) (areas : List ι)
    (mem : J → Nat → UInt8) (on : J → Prop) : J → J → Prop
  | refl (j : J) : b.Restarts hw createFlashLayout areas mem on j j
  | start {j j₁ j₂ : J} (starts : b.Restarts hw createFlashLayout areas mem on j j₁)
    (memory : mem j₂ = mem j₁) (power : on j₂) (a : InitAnswers) :
    b.Restarts hw createFlashLayout areas mem on j
      (b.powerUp hw createFlashLayout areas a j₂).2.board.device.jedec

variable {b : Build ι} {hw : Hardware J} {sf : Secureflash} {mem : J → Nat → UInt8} {on : J → Prop}
  {createFlashLayout : Bool} {t : Stack ι J} {areas : List ι}
  {B : ι → (Fid → Option Image.View) → Prop} {started : List ι} {I : J → Prop} {j₀ j j' : J}

theorem Build.startAreas_keeps (b : Build ι) (createFlashLayout : Bool) (areas : List ι)
    (h : hw.hal.Keeps I) (hI : I t.board.device.jedec) :
    I (b.startAreas hw createFlashLayout areas t).2.board.device.jedec := by
  induction areas generalizing t with
  | nil => exact hI
  | cons i areas ih =>
    have hrun : I (b.startArea hw createFlashLayout i t).2.board.device.jedec :=
      runOn_keeps (I := fun board : Board J => I board.device.jedec)
        (fun o _ hI => ops_keep h o hI) _ _ hI
    unfold startAreas
    generalize b.startArea hw createFlashLayout i t = r at hrun ⊢
    obtain ⟨_ | _, t₁⟩ := r
    · exact hrun
    · exact ih hrun

theorem Build.powerUp_keeps (b : Build ι) (createFlashLayout : Bool) (areas : List ι) (a : InitAnswers)
    (h : hw.hal.Keeps I) (hI : I j) :
    I (b.powerUp hw createFlashLayout areas a j).2.board.device.jedec := by
  unfold powerUp etssInit
  dsimp only
  generalize secureflashInit (hw.answering a).chip (hw.answering a).answers .initial = r
  obtain ⟨e | _, context⟩ := r
  · cases e <;> exact hI
  · dsimp only
    rw [if_pos b.storage]
    exact b.startAreas_keeps createFlashLayout areas h hI

/-- Some areas are started with their files, and the others can be. -/
structure Build.Starting (b : Build ι) (sf : Secureflash) (mem : J → Nat → UInt8) (on : J → Prop)
    (B : ι → (Fid → Option Image.View) → Prop) (started : List ι) (t : Stack ι J) : Prop where
  on : on t.board.device.jedec
  device : t.board.context.device = some sf
  settled : b.Settled B (mem t.board.device.jedec)
  started : ∀ i ∈ started, ∃ fl, Store (b.cfg i) (t.ctx i) fl ∧
    Represents (b.cfg i) (mem t.board.device.jedec) fl ∧
      B i ((mountedImage (b.cfg i) (t.ctx i) fl).fileMap (b.cfg i))

omit [DecidableEq ι] in
theorem Build.PlacedUntilLost.answering (hp : b.PlacedUntilLost hw sf mem on) (a : InitAnswers) :
    b.PlacedUntilLost (hw.answering a) sf mem on :=
  ⟨hp.losesPower, hp.eraseVal, hp.chip, fun hi => (hp.area hi).answering a,
    fun i => (hp.start i).answering a, hp.apart⟩

section
variable (hp : b.PlacedUntilLost hw sf mem on)
include hp

/-- The next area is started, or power is lost. -/
theorem Build.Starting.startArea (h : b.Starting sf mem on B started t) (hans : hw.answers = .good)
    (createFlashLayout : Bool) (i : ι) :
    ((b.startArea hw createFlashLayout i t).1 = .ok () ∧
        b.Starting sf mem on B (i :: started) (b.startArea hw createFlashLayout i t).2) ∨
      ¬ on (b.startArea hw createFlashLayout i t).2.board.device.jedec ∧
        b.Settled B (mem (b.startArea hw createFlashLayout i t).2.board.device.jedec) := by
  obtain ⟨fl, M, hR, hM, hB⟩ := h.settled i
  -- the first operation sets the id under which the others are made
  obtain ⟨k, hk⟩ := initCtxAndPrepare_init createFlashLayout (t.ctx i) hM.accepted
  have hboard : Powered sf (b.cfg i) mem on { t.board with appId := hw.spEtss }
    { t.board with appId := hw.spEtss } fl := ⟨h.on, h.device, rfl, hR, fun _ _ => rfl⟩
  have hcarries := starts_carriesUntilLost (b := { t.board with appId := hw.spEtss }) (hp.start i)
    (hp.losesPower i) (Chip.device_isInitialized hp.chip) rfl hp.chip hans
  have hstart := hM.start_inBlock createFlashLayout (t.ctx i)
  have hrun := runOn_cut hcarries hstart hboard
  rw [runOn_congr hk (init_appId hw.spEtss)] at hrun
  obtain ⟨hok, hstore, hmap⟩ := (wp_iff.mp hstart).2
  rw [hok] at hrun
  unfold Build.startArea
  generalize (etssFlashFsInitCtxAndPrepare (b.cfg i) createFlashLayout).runOn
    (secureFlashFsOps hw (b.cfg i)) (t.ctx i) t.board = r at hrun ⊢
  obtain ⟨status, ctx, board⟩ := r
  refine hrun.imp ?_ ?_
  · rintro ⟨hstatus, rfl, hdone⟩
    have hothers : ∀ j, j ≠ i → ∀ fl, Represents (b.cfg j) (mem t.board.device.jedec) fl →
      Represents (b.cfg j) (mem board.device.jedec) fl := fun j hj fl hR =>
        hR.of_outside (hp.apart hj) hdone.outside
    refine ⟨hstatus, hdone.on, hdone.device, fun j => ?_, fun j hj => ?_⟩
    · by_cases hji : j = i
      · subst hji
        exact ⟨_, _, hdone.represents, hstore.restores, hmap.symm ▸ hB⟩
      · obtain ⟨fl₁, M₁, hR₁, hM₁⟩ := h.settled j
        exact ⟨fl₁, M₁, hothers j hji fl₁ hR₁, hM₁⟩
    · dsimp only
      by_cases hji : j = i
      · subst hji
        rw [Function.update_self]
        exact ⟨_, hstore, hdone.represents, hmap.symm ▸ hB⟩
      · rw [Function.update_of_ne hji]
        obtain ⟨fl₁, hs₁, hR₁, hB₁⟩ := h.started j ((List.mem_cons.mp hj).resolve_left hji)
        exact ⟨fl₁, hs₁, hothers j hji fl₁ hR₁, hB₁⟩
  · rintro ⟨fl', hcut, hlost⟩
    refine ⟨hlost.off, fun j => ?_⟩
    by_cases hji : j = i
    · subst hji
      exact ⟨fl', M, hlost.represents, hM.start_cut (hp.eraseVal j) hcut, hB⟩
    · obtain ⟨fl₁, M₁, hR₁, hM₁⟩ := h.settled j
      exact ⟨fl₁, M₁, hR₁.of_outside (hp.apart hji) hlost.outside, hM₁⟩

theorem Build.Starting.startAreas (hans : hw.answers = .good) (createFlashLayout : Bool)
    (areas : List ι) : ∀ {started : List ι} {t : Stack ι J}, b.Starting sf mem on B started t →
      ((b.startAreas hw createFlashLayout areas t).1 = .ok () ∧
          b.Starting sf mem on B (areas.reverse ++ started)
            (b.startAreas hw createFlashLayout areas t).2) ∨
        ¬ on (b.startAreas hw createFlashLayout areas t).2.board.device.jedec ∧
          b.Settled B (mem (b.startAreas hw createFlashLayout areas t).2.board.device.jedec) := by
  induction areas with
  | nil => exact fun h => .inl ⟨rfl, h⟩
  | cons i areas ih =>
    intro started t h
    have harea := h.startArea hp hans createFlashLayout i
    unfold Build.startAreas
    generalize b.startArea hw createFlashLayout i t = r at harea ⊢
    obtain ⟨status, t₁⟩ := r
    rcases harea with ⟨rfl, hstarted⟩ | ⟨hoff, hsettled⟩
    · rw [List.reverse_cons, List.append_assoc]
      exact ih hstarted
    · right
      cases status with
      | error e => exact ⟨hoff, hsettled⟩
      | ok _ =>
        -- without power, the other starts change nothing
        obtain ⟨hoff', hmem⟩ := b.startAreas_keeps createFlashLayout areas ((hp.losesPower i).off _)
          (show _ ∧ mem t₁.board.device.jedec = mem t₁.board.device.jedec from ⟨hoff, rfl⟩)
        exact ⟨hoff', hmem.symm ▸ hsettled⟩

namespace Build.Settled
variable (h : b.Settled B (mem j)) (hon : on j) (createFlashLayout : Bool) (areas : List ι)
include h hon

/-- A start whose init succeeds: all areas are started, or power is lost. -/
theorem powerUp_good : ((b.powerUp hw createFlashLayout areas .good j).1 = .ok () ∧
      b.Starting sf mem on B areas.reverse (b.powerUp hw createFlashLayout areas .good j).2) ∨
    ¬ on (b.powerUp hw createFlashLayout areas .good j).2.board.device.jedec ∧
      b.Settled B (mem (b.powerUp hw createFlashLayout areas .good j).2.board.device.jedec) := by
  obtain ⟨hok, hdevice⟩ := secureflashInit_good (c := .initial) hp.chip fun hup => by cases hup
  unfold Build.powerUp Build.etssInit
  have hchip : secureflashInit (hw.answering .good).chip (hw.answering .good).answers .initial =
      secureflashInit hw.chip .good .initial := rfl
  dsimp only
  rw [hchip]
  generalize secureflashInit hw.chip .good .initial = r at hok hdevice ⊢
  obtain ⟨err, context⟩ := r
  obtain rfl : err = .ok () := hok
  dsimp only
  rw [if_pos b.storage]
  have hinit : b.Starting sf mem on B [] ⟨fun _ => Ctx.zero, ⟨⟨j, []⟩, context, 0⟩⟩ :=
    ⟨hon, hdevice, h, fun _ hm => absurd hm List.not_mem_nil⟩
  have hstart := hinit.startAreas (hp.answering .good) rfl createFlashLayout areas
  rwa [List.append_nil] at hstart

/-- An init that fails leaves the memory as it is. -/
theorem powerUp (a : InitAnswers) :
    b.Settled B (mem (b.powerUp hw createFlashLayout areas a j).2.board.device.jedec) := by
  by_cases ha : a = .good
  · subst ha
    rcases h.powerUp_good hp hon createFlashLayout areas with
      ⟨-, hstarted⟩ | ⟨-, hsettled⟩
    · exact hstarted.settled
    · exact hsettled
  · obtain ⟨⟨e, he⟩, -⟩ := bringUp_fails (.inl ha) { Context.initial with initRefCount := 1 }
    have hinit : secureflashInit (hw.answering a).chip (hw.answering a).answers .initial = _ :=
      secureflashInit_down rfl a
    unfold Build.powerUp Build.etssInit
    dsimp only
    rw [hinit]
    generalize bringUp (hw.answering a).chip a { Context.initial with initRefCount := 1 } = r at he ⊢
    obtain ⟨err, context⟩ := r
    obtain rfl : err = .error e := he
    cases e <;> exact h

end Build.Settled

theorem Build.Restarts.settled (h : b.Restarts hw createFlashLayout areas mem on j j')
    (hj : b.Settled B (mem j)) : b.Settled B (mem j') := by
  induction h with
  | refl => exact hj
  | start _ memory power a ih => exact Build.Settled.powerUp hp (memory ▸ ih) power _ _ a

/-- After starts in which power is lost, the one in which it is not finds the files. -/
theorem Build.Restarts.holds (h : b.Restarts hw createFlashLayout areas mem on j₀ j)
    (hj : b.Settled B (mem j₀)) (hall : ∀ i, i ∈ areas) (hmem : mem j' = mem j) (hpower : on j')
    (hend : on (b.powerUp hw createFlashLayout areas .good j').2.board.device.jedec) :
    (b.powerUp hw createFlashLayout areas .good j').1 = .ok () ∧
      ∃ s, b.Holds sf mem s (b.powerUp hw createFlashLayout areas .good j').2 ∧
        ∀ i, B i (b.files s.fs i) := by
  have hsettled := hmem ▸ h.settled hp hj
  rcases hsettled.powerUp_good hp hpower createFlashLayout areas with ⟨hok, hstarted⟩ | ⟨hlost, -⟩
  · choose fl hstore hrep hB using fun i => hstarted.started i (List.mem_reverse.mpr (hall i))
    exact ⟨hok, ⟨fun i => ((b.powerUp hw createFlashLayout areas .good j').2.ctx i, fl i), []⟩,
      ⟨hstore, fun _ => rfl, hrep, hstarted.device⟩, hB⟩
  · exact absurd hend hlost

end

/-! ## Over any number of losses -/

section
variable {P : Partition (Storage ι)} {reqs : List Request} {i : ι}

/-- A request changes no area but that of its client. -/
theorem Build.serve_others {req : Request} (hreq : req.InRange) (hlt : req.createFlags < 2 ^ 32)
    (hi : b.area req.msg.clientId ≠ some i) : (b.serve req P).2.fs.fs i = P.fs.fs i := by
  rw [b.serve_eq]
  refine Platform.serve_keeps (p := b.platform) (I := fun s : Storage ι => s.fs i = P.fs.fs i) hreq hlt
    (fun fs hfs => ?_) rfl
  obtain ⟨j, hj, rfl⟩ := Option.map_eq_some_iff.mp hfs
  have hne : i ≠ j := fun h => hi (h ▸ hj)
  intro c s _ hs
  cases c <;> exact (Function.update_of_ne hne _ _).trans hs

theorem Build.run_others : ∀ {reqs : List Request} {P : Partition (Storage ι)},
    (∀ req ∈ reqs, req.InRange ∧ req.createFlags < 2 ^ 32) →
    (∀ req ∈ reqs, b.area req.msg.clientId ≠ some i) → (b.run reqs P).2.fs.fs i = P.fs.fs i
  | [], _, _, _ => rfl
  | req :: reqs, P, hreqs, hi => by
    obtain ⟨⟨hreq, hlt⟩, hreqs⟩ := List.forall_mem_cons.mp hreqs
    obtain ⟨hreq', hi⟩ := List.forall_mem_cons.mp hi
    exact (run_others hreqs hi).trans (b.serve_others hreq hlt hreq')

/-- The partition over any number of runs of requests and losses of power. After a loss, there are any
number of starts before the one that ends with power. -/
inductive Build.Lives (b : Build ι) (hw : Hardware J) (createFlashLayout : Bool) (areas : List ι)
    (mem : J → Nat → UInt8) (on : J → Prop) :
    List Request → Partition (Stack ι J) → Partition (Stack ι J) → Prop
  | refl (P : Partition (Stack ι J)) : b.Lives hw createFlashLayout areas mem on [] P P
  | run {reqs reqs' : List Request} {P P₁ : Partition (Stack ι J)}
    (lives : b.Lives hw createFlashLayout areas mem on reqs P P₁)
    (power : on ((b.boardPlatform hw).run reqs' P₁).2.fs.board.device.jedec) :
    b.Lives hw createFlashLayout areas mem on (reqs ++ reqs') P ((b.boardPlatform hw).run reqs' P₁).2
  | loss {reqs reqs' : List Request} {P P₁ : Partition (Stack ι J)} {j j' : J}
    (lives : b.Lives hw createFlashLayout areas mem on reqs P P₁)
    (off : ¬ on ((b.boardPlatform hw).run reqs' P₁).2.fs.board.device.jedec)
    (restarts : b.Restarts hw createFlashLayout areas mem on
      ((b.boardPlatform hw).run reqs' P₁).2.fs.board.device.jedec j)
    (memory : mem j' = mem j) (power : on j')
    (up : on (b.powerUp hw createFlashLayout areas .good j').2.board.device.jedec) :
    b.Lives hw createFlashLayout areas mem on (reqs ++ reqs') P
      ⟨(b.powerUp hw createFlashLayout areas .good j').2, fun _ => 0⟩

end

/-! ## A small device -/

/-- Two areas, one for each client. -/
def apartAreas : Build Bool where
  cfg i := { twoSectors with flashAreaAddr := if i then 880 else 0 }
  area client := if client = 1 then some false else if client = 2 then some true else none
  securityFeature := ⟨true, false, false, false⟩
  assetDataSize := 20
  accepted i := by cases i <;> rfl
  unit _ := ⟨2, rfl⟩
  storage := Eq.refl true
  assetDataSize_pos := sectorArea.assetDataSize_pos
  assetDataSize_lt := sectorArea.assetDataSize_lt
  assetDataSize_dvd _ := ⟨5, rfl⟩

/-- A device of two zones, one for each application. -/
def twoZones : Secureflash where
  isInitialized := true
  appData := [⟨1, 3, 0⟩, ⟨2, 4, 1⟩]
  architecture :=
    { oneZone.architecture with
      secureZoneTotalSize := 1760
      secureZoneTotalSize_lt := by decide }

def fadingHardware : Hardware Supply where
  hal := fadingHal
  chip := ⟨[0xc2], twoZones.appData, [⟨[0xc2], twoZones.architecture⟩]⟩
  answers := .good
  spEtss := 5
  rounds := 160

/-- Each area is in a zone of its own. -/
theorem apartAreas_area {client : Int} (i : Bool)
    (hq : queryAppInfo 5 twoZones (apartAreas.cfg i).flashAreaAddr client ≠ none) :
    Area fadingHardware twoZones (apartAreas.cfg i) client := by
  have hzone : ∀ x, (apartAreas.cfg i).flashAreaAddr ≤ x → x ≤ areaEnd (apartAreas.cfg i) →
      x / 880 = (apartAreas.cfg i).flashAreaAddr / 880 := fun x hx hx' => by
    have hend : areaEnd (apartAreas.cfg i) = (apartAreas.cfg i).flashAreaAddr + 5 * 160 := rfl
    have haddr : (apartAreas.cfg i).flashAreaAddr = 880 * ((apartAreas.cfg i).flashAreaAddr / 880) := by
      cases i <;> rfl
    omega
  have hbound : ∀ x, (apartAreas.cfg i).flashAreaAddr ≤ x → x ≤ areaEnd (apartAreas.cfg i) →
      queryAppInfo 5 twoZones x client ≠ none := fun x hx hx' => by
    have hsame : x / twoZones.architecture.secureZoneSize = _ := hzone x hx hx'
    unfold queryAppInfo
    rw [hsame]
    exact hq
  cases i
  · exact ⟨⟨2, rfl⟩, ⟨1, rfl⟩, ⟨0, rfl⟩, by decide, hbound, le_rfl⟩
  · exact ⟨⟨2, rfl⟩, ⟨1, rfl⟩, ⟨11, rfl⟩, by decide, hbound, le_rfl⟩

theorem apartAreas_placedUntilLost :
    apartAreas.PlacedUntilLost fadingHardware twoZones Supply.bytes Supply.On where
  losesPower _ := fadingHal_losesPower
  eraseVal _ := .inr rfl
  chip := rfl
  area {client i} hi := by
    refine apartAreas_area i ?_
    by_cases h₁ : client = 1
    · subst h₁
      obtain rfl : false = i := Option.some.inj hi
      decide
    · by_cases h₂ : client = 2
      · subst h₂
        obtain rfl : true = i := Option.some.inj hi
        decide
      · have hnone : apartAreas.area client = none := (if_neg h₁).trans (if_neg h₂)
        cases hnone.symm.trans hi
  start i := by
    refine apartAreas_area i ?_
    cases i <;> decide
  apart {i j} h := by
    cases i <;> cases j
    · exact absurd rfl h
    · exact .inl (by decide)
    · exact .inr (by decide)
    · exact absurd rfl h

/-- Filesystems without files. -/
def emptyAreas : Partition (Storage Bool) :=
  ⟨⟨fun i => filled (apartAreas.cfg i) [], []⟩, fun _ => 0⟩

/-- The filesystems on the board, which loses power in the call to the HAL after `n` more. -/
def fadingBoard (n : Nat) : Partition (Stack Bool Supply) where
  fs :=
    { ctx := fun i => (emptyAreas.fs.fs i).1
      board :=
        ⟨⟨⟨fun x => if x < 880 then bytesOfFlash (apartAreas.cfg false) (emptyAreas.fs.fs false).2 x
          else bytesOfFlash (apartAreas.cfg true) (emptyAreas.fs.fs true).2 x, some n⟩, []⟩,
        ⟨1, true, twoZones.appData, some twoZones.architecture, []⟩, 0⟩ }
  assetData _ := 0

theorem holds_fadingBoard (n : Nat) :
    apartAreas.Holds twoZones Supply.bytes emptyAreas.fs (fadingBoard n).fs where
  store i := (reaches_filled fun _ hf => absurd hf List.not_mem_nil).store (apartAreas.accepted i)
  ctx i := by dsimp only [fadingBoard]
  represents i blk hb off ho := by
    have haddr : (apartAreas.cfg i).flashAreaAddr = if i then 880 else 0 := rfl
    have hlt : blk * (apartAreas.cfg i).blockSize + off < 880 := by
      have hblk : blk < 5 := hb
      have hoff : off < 160 := ho
      show blk * 160 + off < 880
      omega
    have hrep := represents_bytesOfFlash (apartAreas.cfg i) (emptyAreas.fs.fs i).2 blk hb off ho
    generalize blk * (apartAreas.cfg i).blockSize = start at hlt hrep ⊢
    dsimp only [fadingBoard]
    cases i
    · rw [if_pos (by rw [haddr, if_neg Bool.false_ne_true]; omega)]
      exact hrep
    · rw [if_neg (by rw [haddr, if_pos rfl]; omega)]
      exact hrep
  device := rfl

/-! ## Losses of power -/

section
variable {P : Partition (Storage ι)} {P' P'' : Partition (Stack ι J)} {reqs : List Request}
  (hp : b.PlacedUntilLost hw sf mem on) (hall : ∀ i, i ∈ areas) (hbuf : P'.assetData = P.assetData)
  (h : b.Holds sf mem P.fs P'.fs) (hon : on P'.fs.board.device.jedec)
  (hreqs : ∀ req ∈ reqs, req.InRange ∧ req.createFlags < 2 ^ 32)
include hp hall hbuf h hon hreqs

end

/-- A start that loses power in the eighth call to the HAL. -/
def cutStart (s : Supply) : Supply :=
  (apartAreas.powerUp fadingHardware false [false, true] .good
    ⟨s.bytes, some 8⟩).2.board.device.jedec

theorem restarts_cutStart (s : Supply) : apartAreas.Restarts fadingHardware false [false, true]
    Supply.bytes Supply.On s (cutStart s) := by
  have hmem : Supply.bytes ⟨s.bytes, some 8⟩ = s.bytes := rfl
  have hpower : Supply.On ⟨s.bytes, some 8⟩ := show some 8 ≠ some 0 by decide
  exact .start (.refl s) hmem hpower .good

/-- With power for all calls, there is power at the end. -/
theorem on_powerUp (m : Nat → UInt8) : (apartAreas.powerUp fadingHardware false [false, true] .good
    ⟨m, none⟩).2.board.device.jedec.On := by
  have hkeeps : fadingHardware.hal.Keeps fun s => s.left = none := fadingHal_keeps
  have hnone : (⟨m, none⟩ : Supply).left = none := rfl
  have hleft := apartAreas.powerUp_keeps false [false, true] .good hkeeps hnone
  unfold Supply.On
  rw [hleft]
  exact fun h => by cases h

def setOnce : List Request := [.set setAgain 1 0]

theorem setOnce_inRange : ∀ req ∈ setOnce, req.InRange ∧ req.createFlags < 2 ^ 32 :=
  fun req hm => setAndLook_inRange req (List.mem_of_mem_take (i := 1) hm)

/-- Power is lost while the asset is written. -/
theorem setOnce_off : ¬ ((apartAreas.boardPlatform fadingHardware).run setOnce
    (fadingBoard 80)).2.fs.board.device.jedec.On := by decide +kernel

theorem fadingBoard_assetData (n : Nat) : (fadingBoard n).assetData = emptyAreas.assetData := by
  dsimp only [fadingBoard, emptyAreas]

theorem fadingBoard_on : Supply.On (fadingBoard 80).fs.board.device.jedec :=
  show some 80 ≠ some 0 by decide

theorem supply_none (m : Nat → UInt8) :
    Supply.bytes ⟨m, none⟩ = m ∧ Supply.On ⟨m, none⟩ := ⟨rfl, fun h => by cases h⟩

end Etss
