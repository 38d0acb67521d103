import TfmExtras.Etss.Inside
import TfmExtras.Lib.Driver
import TfmExtras.SecureFlash.Init
import TfmExtras.SecureFlash.Sessions
import TfmExtras.SecureFlash.Storage

/-! The block driver `etss_secureflash.c`: what carries out the operations of a filesystem. Over a HAL
that stores bytes the area of the filesystem is a NOR flash of its own. -/

namespace SecureFlash
open Etss NorFlash

/-! ## The operations -/

/-- What the driver stands on: the HAL and the device, what the steps of an init return, `SP_ETSS`,
and for how many rounds the loops of an erase are followed. -/
structure Hardware (J : Type) where
  hal : Jedec J
  chip : Chip
  answers : InitAnswers
  spEtss : Int
  rounds : Nat

/-- The device, `secureflash_t` and `secureflash_app_id`. -/
structure Board (J : Type) where
  device : Device J
  context : Context
  appId : Int

variable {J : Type} (hw : Hardware J) (cfg : Config)

/-- What a call to `secureflash.c` returns to the driver. Before the first init there is no profile
to look at, and a loop that is not followed to its end counts as an error. -/
def Board.access (b : Board J) (call : Secureflash → Device J → Result J) :
    Option (List UInt8) × Board J :=
  match b.context.device with
  | none => (none, b)
  | some sf =>
    let r := call sf b.device
    match r.1 with
    | some (.ok bs) => (some bs, { b with device := r.2 })
    | _ => (none, { b with device := r.2 })

def etssSecureflashInit (b : Board J) : Option (List UInt8) × Board J :=
  let r := secureflashInit hw.chip hw.answers b.context
  let b := { b with context := r.2, appId := hw.spEtss }
  match r.1 with
  | .ok _ => (some [], b)
  | .error _ => (none, b)

def etssSecureflashRead (blockId offset size : Nat) (b : Board J) :
    Option (List UInt8) × Board J :=
  b.access fun sf d =>
    secureflashSecureRead hw.hal hw.spEtss sf (getPhysAddress cfg blockId offset) size b.appId d

def etssSecureflashWrite (blockId offset : Nat) (buffer : List UInt8) (b : Board J) :
    Option (List UInt8) × Board J :=
  let r := b.access fun sf d =>
    secureflashSecureProgram hw.hal hw.spEtss sf (fun k => buffer.getD k 0)
      (getPhysAddress cfg blockId offset) buffer.length b.appId d
  (r.1.map fun _ => [], r.2)

def etssSecureflashFlush (b : Board J) : Option (List UInt8) × Board J := (some [], b)

/-- `etss_secure_flash_fs_ops`. -/
def secureFlashFsOps : Driver (Board J)
  | .init, b => etssSecureflashInit hw b
  | .read blockId offset size, b => etssSecureflashRead hw cfg blockId offset size b
  | .write blockId offset buffer, b => etssSecureflashWrite hw cfg blockId offset buffer b
  | .flush _, b => etssSecureflashFlush b
  | .erase blockId, b =>
    b.access fun sf d =>
      match etssSecureflashErase hw.hal hw.spEtss sf b.appId cfg hw.rounds hw.rounds blockId d with
      | (some (.ok _), d) => (some (.ok []), d)
      | (_, d) => (none, d)

def etssClientIdPassOn (clientId : Int) (b : Board J) : Board J := { b with appId := clientId }

/-! ## The area of a filesystem -/

variable {hw cfg} {sf : Secureflash} {appId : Int} {hal : Jedec J} {spEtss : Int}
  {mem : J → Nat → UInt8} {b b' : Board J} {fl : Flash} {o : Op} {d d' : Device J} {addr size : Nat}

/-- The first address behind the area. -/
def areaEnd (cfg : Config) : Nat := cfg.flashAreaAddr + cfg.numBlocks * cfg.blockSize

/-- The area is made of whole sectors, and those of whole erase units. The application may access
every address in it, and the one behind it: a file without bytes can start there. -/
structure Area (hw : Hardware J) (sf : Secureflash) (cfg : Config) (appId : Int) : Prop where
  sector : cfg.sectorSize ∣ cfg.blockSize
  unit : sf.architecture.minSecureEraseSize ∣ cfg.sectorSize
  start : sf.architecture.minSecureEraseSize ∣ cfg.flashAreaAddr
  total : areaEnd cfg ≤ sf.architecture.secureZoneTotalSize
  bound : ∀ x, cfg.flashAreaAddr ≤ x → x ≤ areaEnd cfg →
    queryAppInfo hw.spEtss sf x appId ≠ none
  rounds : cfg.blockSize ≤ hw.rounds

/-- The bytes of the area are those of the flash. -/
def Represents (cfg : Config) (m : Nat → UInt8) (fl : Flash) : Prop :=
  ∀ b < cfg.numBlocks, ∀ o < cfg.blockSize,
    m (cfg.flashAreaAddr + b * cfg.blockSize + o) = fl.byte cfg.eraseVal b o

/-- What may be passed to the HAL for the area: accesses inside it, and sessions under the key of an
entry of the application for one of its addresses. -/
def Event.InArea (hw : Hardware J) (sf : Secureflash) (cfg : Config) (appId : Int) : Event → Prop
  | .create keyId _ => ∃ x, cfg.flashAreaAddr ≤ x ∧ x ≤ areaEnd cfg ∧
      Bound hw.spEtss sf appId x keyId
  | .access addr len _ => cfg.flashAreaAddr ≤ addr ∧ addr + len ≤ areaEnd cfg
  | .terminate _ => True

/-- All that was passed to the HAL between two states. -/
def AddsInArea (hw : Hardware J) (sf : Secureflash) (cfg : Config) (appId : Int)
    (d d' : Device J) : Prop :=
  ∃ evs, d'.events = d.events ++ evs ∧ ∀ e ∈ evs, e.InArea hw sf cfg appId

theorem AddsInArea.refl : AddsInArea hw sf cfg appId d d :=
  ⟨[], (List.append_nil _).symm, fun _ h => absurd h List.not_mem_nil⟩

theorem AddsInArea.trans {d'' : Device J} (h : AddsInArea hw sf cfg appId d d')
    (h' : AddsInArea hw sf cfg appId d' d'') : AddsInArea hw sf cfg appId d d'' := by
  obtain ⟨evs, he, hin⟩ := h
  obtain ⟨evs', he', hin'⟩ := h'
  refine ⟨evs ++ evs', by rw [he', he, List.append_assoc], fun e hm => ?_⟩
  exact (List.mem_append.mp hm).elim (hin e) (hin' e)

/-! ## What an access adds to the events -/

theorem queryAppInfo_bound {first : AppData} (h : queryAppInfo spEtss sf addr appId = some first) :
    Bound spEtss sf appId addr first.keyId := by
  unfold queryAppInfo at h
  dsimp only at h
  split_ifs at h with happ
  · have hz := List.find?_some h
    exact ⟨first, List.mem_of_find?_eq_some h, by simpa using hz, .inl happ, rfl⟩
  · have hz := List.find?_some h
    obtain ⟨hid, hz⟩ : first.appId = appId ∧ first.zoneId = _ := by simpa using hz
    exact ⟨first, List.mem_of_find?_eq_some h, hz, .inr hid, rfl⟩

section
variable (h₁ : cfg.flashAreaAddr ≤ addr) (h₂ : addr + size ≤ areaEnd cfg)
include h₁ h₂

theorem AddsWithin.inArea {session : Nat} (h : AddsWithin addr size session d d') :
    AddsInArea hw sf cfg appId d d' := by
  obtain ⟨evs, he, hin⟩ := h
  refine ⟨evs, he, fun e hm => ?_⟩
  obtain ⟨a, l, rfl, h₃, h₄⟩ := hin e hm
  exact ⟨by omega, by omega⟩

theorem accessIn_inArea {loop : (session : Nat) → Device J → Result J}
    (hin : ∀ session d, AddsWithin addr size session d (loop session d).2) :
    AddsInArea hw sf cfg appId d (accessIn hw.hal hw.spEtss sf addr appId loop d).2 := by
  unfold accessIn
  cases hq : queryAppInfo hw.spEtss sf addr appId with
  | none => exact .refl
  | some first =>
    have hcreate : AddsInArea hw sf cfg appId d (jedecCreateSession hw.hal first.keyId d).2 :=
      ⟨[_], rfl, fun e hm => List.mem_singleton.mp hm ▸
        ⟨addr, h₁, by omega, queryAppInfo_bound hq⟩⟩
    dsimp only
    generalize jedecCreateSession hw.hal first.keyId d = r at hcreate ⊢
    obtain ⟨_ | session, d₁⟩ := r
    · exact hcreate
    have hloop : AddsInArea hw sf cfg appId d (loop session d₁).2 :=
      hcreate.trans ((hin session d₁).inArea h₁ h₂)
    dsimp only
    generalize loop session d₁ = r at hloop ⊢
    obtain ⟨_ | _ | buf, d₂⟩ := r
    · exact hloop
    · exact hloop
    have hterm : AddsInArea hw sf cfg appId d (jedecTerminateSession hw.hal session d₂).2 :=
      hloop.trans ⟨[_], rfl, fun e hm => List.mem_singleton.mp hm ▸ trivial⟩
    dsimp only
    generalize jedecTerminateSession hw.hal session d₂ = r at hterm ⊢
    obtain ⟨_ | _, d₃⟩ := r <;> exact hterm

theorem read_inArea (hlt : addr + size < 2 ^ 32) : AddsInArea hw sf cfg appId d
    (secureflashSecureRead hw.hal hw.spEtss sf addr size appId d).2 := by
  unfold secureflashSecureRead
  split_ifs
  · exact .refl
  · exact .refl
  · exact accessIn_inArea h₁ h₂ fun session _ => transferLoop_within (read_reports session)
      sf.architecture.secureReadSize_pos sf.architecture.secureReadSize_lt hlt

theorem program_inArea (hlt : addr + size < 2 ^ 32) (buffer : Nat → UInt8) :
    AddsInArea hw sf cfg appId d
      (secureflashSecureProgram hw.hal hw.spEtss sf buffer addr size appId d).2 := by
  unfold secureflashSecureProgram
  split_ifs
  · exact .refl
  · exact .refl
  · exact accessIn_inArea h₁ h₂ fun session _ => transferLoop_within
      (program_reports buffer session) sf.architecture.secureProgramSize_pos
      sf.architecture.secureProgramSize_lt hlt

theorem erase_inArea (hlt : addr + size < 2 ^ 32) (n : Nat) : AddsInArea hw sf cfg appId d
    (secureflashSecureErase hw.hal hw.spEtss sf n addr size appId d).2 := by
  unfold secureflashSecureErase
  dsimp only
  split_ifs with _ _ hal
  · exact .refl
  · exact .refl
  · exact .refl
  · rw [not_or, not_not, not_not, add32_eq hlt] at hal
    have hd := (Nat.dvd_add_iff_right (Nat.dvd_of_mod_eq_zero hal.1)).mpr
      (Nat.dvd_of_mod_eq_zero hal.2)
    exact accessIn_inArea h₁ h₂ fun _ _ => eraseLoop_within hlt hd

end

/-! ## Blocks and addresses -/

/-- A range of a block holds an address of the area exactly when the block is the same. -/
theorem inRange_iff {bs blk blk' off off' len : Nat} (h : off' < bs) (hle : off + len ≤ bs) :
    blk * bs + off ≤ blk' * bs + off' ∧ blk' * bs + off' < blk * bs + off + len ↔
      blk' = blk ∧ off ≤ off' ∧ off' < off + len := by
  constructor
  · rintro ⟨hlo, hhi⟩
    obtain hlt | rfl | hgt := Nat.lt_trichotomy blk' blk
    · have := Nat.mul_le_mul_right bs (Nat.succ_le_of_lt hlt)
      rw [Nat.succ_mul] at this
      omega
    · exact ⟨rfl, by omega, by omega⟩
    · have := Nat.mul_le_mul_right bs (Nat.succ_le_of_lt hgt)
      rw [Nat.succ_mul] at this
      omega
  · rintro ⟨rfl, hlo, hhi⟩
    omega

/-- A range of a block in the area. -/
structure InArea (cfg : Config) (blk off len : Nat) : Prop where
  fits : Fits cfg blk
  ge : cfg.flashAreaAddr ≤ cfg.flashAreaAddr + blk * cfg.blockSize + off
  le : cfg.flashAreaAddr + blk * cfg.blockSize + off + len ≤ areaEnd cfg
  lt : cfg.flashAreaAddr + blk * cfg.blockSize + off + len < 2 ^ 32

namespace Area
variable (ha : Area hw sf cfg appId)
include ha

theorem inArea {blk off len : Nat} (hb : blk < cfg.numBlocks) (hle : off + len ≤ cfg.blockSize) :
    InArea cfg blk off len := by
  have hmul := Nat.mul_le_mul_right cfg.blockSize (Nat.succ_le_of_lt hb)
  have htotal := ha.total
  have hlt := sf.architecture.secureZoneTotalSize_lt
  unfold areaEnd at htotal
  rw [Nat.succ_mul] at hmul
  refine ⟨?_, by omega, ?_, by omega⟩
  · unfold Fits
    rw [Nat.add_mul, Nat.one_mul]
    omega
  · unfold areaEnd
    omega

/-- No access to the area is refused. -/
theorem not_refused (hinit : sf.isInitialized = true) {blk off len : Nat}
    (h : InArea cfg blk off len) {a : Access} (haligned : a = .erase →
      sf.architecture.minSecureEraseSize ∣ off ∧ sf.architecture.minSecureEraseSize ∣ len) :
    ¬ Refused hw.spEtss sf (cfg.flashAreaAddr + blk * cfg.blockSize + off) len appId a := by
  have hadd : add32 (cfg.flashAreaAddr + blk * cfg.blockSize + off) len =
      cfg.flashAreaAddr + blk * cfg.blockSize + off + len := add32_eq h.lt
  rintro (hno | hbig | hnone | hrest)
  · rw [hinit] at hno
    cases hno
  · rw [hadd] at hbig
    exact absurd (h.le.trans ha.total) (Nat.not_le.mpr hbig)
  · exact ha.bound _ h.ge ((Nat.le_add_right _ _).trans h.le) hnone
  · cases a with
    | read | program => exact hrest
    | erase =>
      obtain ⟨hoff, hlen⟩ := haligned rfl
      have hblock : sf.architecture.minSecureEraseSize ∣
          cfg.flashAreaAddr + blk * cfg.blockSize + off :=
        Nat.dvd_add (Nat.dvd_add ha.start (((ha.unit.trans ha.sector)).mul_left blk)) hoff
      have hend := Nat.dvd_add hblock hlen
      rw [← hadd] at hend
      exact hrest.elim (fun h => h (Nat.mod_eq_zero_of_dvd hblock))
        fun h => h (Nat.mod_eq_zero_of_dvd hend)

end Area

/-! ## The driver over a HAL that stores bytes -/

theorem Stores.read_mem (h : Stores hal mem cfg.eraseVal) {out : List UInt8}
    (ha : addr + size < 2 ^ 32)
    (hr : secureflashSecureRead hal spEtss sf addr size appId d = (some (.ok out), d')) :
    mem d'.jedec = mem d.jedec := by
  obtain ⟨session, d₁, d₂, cs, hruns, hcons, h₁, h₂⟩ := h.transferred (read_transferred ha hr)
  rw [h₂, (h.read_runs hruns hcons).2, h₁]

theorem bytesAt_getD (m : Nat → UInt8) {addr len i : Nat} (hi : i < len) :
    (bytesAt m addr len).getD i 0 = m (addr + i) := by
  unfold bytesAt
  rw [List.getD_eq_getElem?_getD, List.getElem?_map, List.getElem?_range hi]
  rfl

theorem bytesAt_length (m : Nat → UInt8) (addr len : Nat) : (bytesAt m addr len).length = len := by
  unfold bytesAt
  rw [List.length_map, List.length_range]

section
variable (hR : Represents cfg (mem d.jedec) fl)
include hR

theorem Represents.read {blk off len : Nat} (hb : blk < cfg.numBlocks)
    (hle : off + len ≤ cfg.blockSize) :
    bytesAt (mem d.jedec) (cfg.flashAreaAddr + blk * cfg.blockSize + off) len =
      fl.read cfg.eraseVal blk off len := by
  refine (Flash.read_ext (bytesAt_length _ _ _) fun i hi => ?_).symm
  rw [bytesAt_getD _ hi, ← hR blk hb (off + i) (by omega), Nat.add_assoc _ off i]

/-- Bytes that replace a range of a block. -/
theorem Represents.overwritten {blk off len : Nat} (hle : off + len ≤ cfg.blockSize)
    {new : Nat → UInt8} {fl' : Flash} (hother : ∀ blk', ∀ off' < cfg.blockSize,
      ¬ (blk' = blk ∧ off ≤ off' ∧ off' < off + len) →
        fl'.byte cfg.eraseVal blk' off' = fl.byte cfg.eraseVal blk' off')
    (hnew : ∀ i < len, fl'.byte cfg.eraseVal blk (off + i) = new i) :
    Represents cfg (overwritten (mem d.jedec) (cfg.flashAreaAddr + blk * cfg.blockSize + off) len new)
      fl' := by
  intro blk' hb' off' ho'
  have hin := @inRange_iff _ blk blk' _ _ _ ho' hle
  unfold SecureFlash.overwritten
  by_cases h : blk' = blk ∧ off ≤ off' ∧ off' < off + len
  · obtain ⟨hlo, hhi⟩ := hin.mpr h
    obtain ⟨rfl, h₁, h₂⟩ := h
    have hoff := hnew (off' - off) (by omega)
    rw [Nat.add_sub_cancel' h₁] at hoff
    rw [if_pos (by omega), hoff]
    congr 1
    omega
  · have hout := mt hin.mp h
    rw [if_neg (by omega), hother blk' off' ho' h]
    exact hR blk' hb' off' ho'

end

/-- The first `k` bytes of a write. -/
theorem Represents.written (hR : Represents cfg (mem d.jedec) fl) {off k : Nat} (blk : Nat)
    {data : List UInt8} (hle : off + data.length ≤ cfg.blockSize) (hk : k ≤ data.length) :
    Represents cfg (SecureFlash.overwritten (mem d.jedec)
      (cfg.flashAreaAddr + blk * cfg.blockSize + off) k fun i => data.getD i 0)
        (fl.write blk off (data.take k)) := by
  have hlen : (data.take k).length = k := List.length_take_of_le hk
  refine hR.overwritten (by omega) (fun blk' off' _ hout => ?_) fun i hi => ?_
  · refine Flash.byte_congr ((Flash.cell_write _ _ _ _ _ _).trans (if_neg ?_))
    rwa [hlen]
  · have hcell := Flash.cell_write fl blk off (data.take k) blk (off + i)
    rw [if_pos ⟨rfl, by omega, by omega⟩, Nat.add_sub_cancel_left] at hcell
    refine (congrArg (fun c => Option.getD c cfg.eraseVal) hcell).trans ?_
    rw [List.getD_eq_getElem?_getD, List.getElem?_take_of_lt hi, ← List.getD_eq_getElem?_getD]
    rfl

/-- The first `k` bytes of an erase. -/
theorem Represents.erased (hR : Represents cfg (mem d.jedec) fl) {blk k : Nat}
    (hk : k ≤ cfg.blockSize) (hcell : ∀ blk', ∀ off < cfg.blockSize,
      fl'.cell blk' off = if blk' = blk ∧ off < k then none else fl.cell blk' off) :
    Represents cfg (SecureFlash.overwritten (mem d.jedec) (cfg.flashAreaAddr + blk * cfg.blockSize) k
      fun _ => cfg.eraseVal) fl' :=
  hR.overwritten ((Nat.zero_add k).trans_le hk)
    (fun blk' off' hlt hout => Flash.byte_congr ((hcell _ _ hlt).trans (if_neg fun h => hout
      ⟨h.1, Nat.zero_le _, by omega⟩)))
    fun i hi => congrArg (fun c => Option.getD c cfg.eraseVal)
      ((hcell blk (0 + i) (by omega)).trans (if_pos ⟨rfl, by omega⟩))

/-- Bytes that lie outside another area. -/
theorem Represents.of_outside {cfg' : Config} {m m' : Nat → UInt8} {fl : Flash}
    (h : Represents cfg m fl)
    (hapart : areaEnd cfg ≤ cfg'.flashAreaAddr ∨ areaEnd cfg' ≤ cfg.flashAreaAddr)
    (hout : ∀ x, x < cfg'.flashAreaAddr ∨ areaEnd cfg' ≤ x → m' x = m x) :
    Represents cfg m' fl := by
  intro blk hb off ho
  have hmul := Nat.mul_le_mul_right cfg.blockSize (Nat.succ_le_of_lt hb)
  rw [Nat.succ_mul] at hmul
  rw [hout, h blk hb off ho]
  unfold areaEnd at hapart ⊢
  omega

/-- The sectors of a block are erased one after the other. -/
theorem eraseSectors_inArea (ha : Area hw sf cfg appId) (hn : NeverFails hw.hal)
    (hinit : sf.isInitialized = true) {blk : Nat} (hb : blk < cfg.numBlocks) (n : Nat) :
    ∀ {off : Nat} {d : Device J}, cfg.sectorSize ∣ off → off ≤ cfg.blockSize →
      cfg.blockSize - off ≤ n → ∃ d',
        eraseSectors hw.hal hw.spEtss sf appId cfg hw.rounds blk n off d = (some (.ok ()), d') ∧
          AddsInArea hw sf cfg appId d d' := by
  have hlt := cfg.blockSize_lt
  induction n with
  | zero =>
    intro off d _ hle hrest
    refine ⟨d, ?_, .refl⟩
    unfold eraseSectors
    rw [if_neg (by omega)]
  | succ n ih =>
    intro off d hdvd hle hrest
    unfold eraseSectors
    split_ifs with hend
    · have hsub : cfg.sectorSize ∣ cfg.blockSize - off := Nat.dvd_sub ha.sector hdvd
      have hpos : 0 < cfg.sectorSize := Nat.pos_of_dvd_of_pos hsub (by omega)
      have hnext := Nat.le_of_dvd (by omega) hsub
      have hin := ha.inArea hb (show off + cfg.sectorSize ≤ cfg.blockSize by omega)
      have hrounds := ha.rounds
      obtain ⟨out, d₁, herase⟩ := erase_succeeds (d := d) (n := hw.rounds) hn hin.lt (by omega)
        (ha.not_refused hinit hin fun _ => ⟨ha.unit.trans hdvd, ha.unit⟩)
      have hev : AddsInArea hw sf cfg appId d (secureflashSecureErase hw.hal hw.spEtss sf hw.rounds
        (cfg.flashAreaAddr + blk * cfg.blockSize + off) cfg.sectorSize appId d).2 :=
          erase_inArea hin.ge hin.le hin.lt hw.rounds
      rw [herase] at hev
      obtain ⟨d', hrun, hevs⟩ := ih (d := d₁) (Nat.dvd_add hdvd dvd_rfl)
        (show off + cfg.sectorSize ≤ cfg.blockSize by omega) (by omega)
      rw [hin.fits.phys_eq hle, herase]
      dsimp only
      rw [add32_eq (by omega)]
      exact ⟨d', hrun, hev.trans hevs⟩
    · exact ⟨d, rfl, .refl⟩

/-- What an operation on the area leaves: the flash in it is changed, and nothing outside it. -/
structure Carried (hw : Hardware J) (sf : Secureflash) (cfg : Config) (mem : J → Nat → UInt8)
    (b b' : Board J) (fl' : Flash) : Prop where
  context : b'.context = b.context
  appId : b'.appId = b.appId
  represents : Represents cfg (mem b'.device.jedec) fl'
  outside : ∀ x, x < cfg.flashAreaAddr ∨ areaEnd cfg ≤ x →
    mem b'.device.jedec x = mem b.device.jedec x
  events : AddsInArea hw sf cfg b.appId b.device b'.device

namespace Carried
variable {b'' : Board J} {fl'' : Flash}

theorem refl (h : Represents cfg (mem b.device.jedec) fl) : Carried hw sf cfg mem b b fl :=
  ⟨rfl, rfl, h, fun _ _ => rfl, .refl⟩

theorem trans (h : Carried hw sf cfg mem b b' fl) (h' : Carried hw sf cfg mem b' b'' fl'') :
    Carried hw sf cfg mem b b'' fl'' where
  context := h'.context.trans h.context
  appId := h'.appId.trans h.appId
  represents := h'.represents
  outside x hx := (h'.outside x hx).trans (h.outside x hx)
  events := h.events.trans (h.appId ▸ h'.events)

end Carried

theorem overwritten_outside (m new : Nat → UInt8) {len x : Nat} (h₁ : cfg.flashAreaAddr ≤ addr)
    (h₂ : addr + len ≤ areaEnd cfg) (hx : x < cfg.flashAreaAddr ∨ areaEnd cfg ≤ x) :
    overwritten m addr len new x = m x := by
  unfold overwritten
  exact if_neg (by omega)

/-- An operation on a block of the area. -/
def BlockOp (cfg : Config) (o : Op) : Prop := InBlock cfg o ∧ o ≠ .init

section
variable (ha : Area hw sf cfg b.appId) (hs : Stores hw.hal mem cfg.eraseVal) (hn : NeverFails hw.hal)
  (hsf : b.context.device = some sf) (hinit : sf.isInitialized = true)
include ha hs hn hsf hinit

/-- Each operation on a block is carried out. -/
theorem ops_carried (hR : Represents cfg (mem b.device.jedec) fl) (h : BlockOp cfg o) :
    (secureFlashFsOps hw cfg o b).1 = some (fl.reply cfg.eraseVal o) ∧
      Carried hw sf cfg mem b (secureFlashFsOps hw cfg o b).2 (fl.apply o) := by
  obtain ⟨d, ctx, app⟩ := b
  obtain ⟨ho, hi⟩ := h
  dsimp only at ha hsf hR
  cases o with
  | init => exact absurd rfl hi
  | read blk off size =>
    obtain ⟨hb, hle⟩ := ho
    have hin := ha.inArea hb hle
    obtain ⟨out, d', hread⟩ := read_succeeds (d := d) hn hin.lt
      (ha.not_refused hinit hin fun h => by cases h)
    have hev : AddsInArea hw sf cfg app d (secureflashSecureRead hw.hal hw.spEtss sf
      (cfg.flashAreaAddr + blk * cfg.blockSize + off) size app d).2 :=
        read_inArea hin.ge hin.le hin.lt
    have hphys := hin.fits.phys_eq (show off ≤ cfg.blockSize by omega)
    have hout := (hs.read_eq hin.lt hread).trans (hR.read hb hle)
    have hmem := hs.read_mem hin.lt hread
    unfold secureFlashFsOps etssSecureflashRead Board.access
    rw [hread] at hev
    dsimp only
    rw [hsf]
    dsimp only
    rw [hphys, hread]
    refine ⟨congrArg some hout, rfl, rfl, ?_, fun x _ => congrFun hmem x, hev⟩
    exact hmem.symm ▸ hR
  | write blk off data =>
    obtain ⟨hb, hle⟩ := ho
    have hin := ha.inArea hb hle
    obtain ⟨out, d', hprog⟩ : ∃ out d', secureflashSecureProgram hw.hal hw.spEtss sf
        (fun k => data.getD k 0) (cfg.flashAreaAddr + blk * cfg.blockSize + off) data.length app d =
          (some (.ok out), d') :=
      program_succeeds hn hin.lt (ha.not_refused hinit hin fun h => by cases h)
    have hev : AddsInArea hw sf cfg app d (secureflashSecureProgram hw.hal hw.spEtss sf
      (fun k => data.getD k 0) (cfg.flashAreaAddr + blk * cfg.blockSize + off) data.length app d).2 :=
        program_inArea hin.ge hin.le hin.lt _
    have hphys := hin.fits.phys_eq (show off ≤ cfg.blockSize by omega)
    have hmem := hs.program_eq hin.lt hprog
    unfold secureFlashFsOps etssSecureflashWrite Board.access
    rw [hprog] at hev
    dsimp only
    rw [hsf]
    dsimp only
    rw [hphys, hprog]
    refine ⟨rfl, rfl, rfl, ?_, fun x hx => ?_, hev⟩
    · have hwritten := hR.written blk hle le_rfl
      rw [List.take_length] at hwritten
      dsimp only
      rw [hmem]
      exact hwritten
    · dsimp only
      rw [hmem]
      exact overwritten_outside _ _ hin.ge hin.le hx
  | flush blk => exact ⟨rfl, rfl, rfl, hR, fun _ _ => rfl, .refl⟩
  | erase blk =>
    have hin := ha.inArea ho (Nat.zero_add _).le
    obtain ⟨d', herase, hev⟩ := eraseSectors_inArea ha hn hinit ho hw.rounds (d := d)
      (Nat.dvd_zero _) (Nat.zero_le _) (by have := ha.rounds; omega)
    have hmem := hs.eraseSectors_eq hin.fits ha.sector (Nat.dvd_zero _) (Nat.zero_le _) herase
    rw [Nat.sub_zero] at hmem
    unfold secureFlashFsOps etssSecureflashErase Board.access
    dsimp only
    rw [hsf]
    dsimp only
    rw [herase]
    refine ⟨rfl, rfl, rfl, ?_, fun x hx => ?_, hev⟩
    · dsimp only
      rw [hmem]
      exact hR.erased le_rfl fun blk' off hlt =>
        (Flash.cell_erase _ _ _ _).trans (if_congr (iff_self_and.mpr fun _ => hlt) rfl rfl)
    · dsimp only
      rw [hmem]
      exact overwritten_outside _ _ hin.ge hin.le hx

/-- Programs on the blocks are carried out, one operation after the other. -/
theorem ops_carries : (secureFlashFsOps hw cfg).Carries cfg.eraseVal (BlockOp cfg)
    (Carried hw sf cfg mem b) := fun o b' fl ho h => by
  obtain ⟨hreply, h'⟩ := ops_carried (h.appId ▸ ha) hs hn (h.context ▸ hsf) hinit h.represents ho
  exact ⟨hreply, h.trans h'⟩

end

end SecureFlash
