import TfmExtras.Etss.Service

/-! The traffic of the ETSS handlers, and when the loops of the partition answer the messages
they take. -/

namespace Etss
open Ipc

variable {φ : Type} {p : Platform φ} {l : Locals} {msg : Msg} {s : Partition φ} {io : Io Reply}
  {room : Nat → Nat}

/-! ## Handlers -/

theorem bytesOf_length (buf : Nat → UInt8) (n : Nat) : (bytesOf buf n).length = n := by
  unfold bytesOf
  rw [List.length_map, List.length_range]

theorem etssSetLoop_within {fs : FileSystem φ} {fid : Fid} {flags dataLength offset : Nat}
    (h : Within msg room io) :
    Within msg room (etssSetLoop p fs fid msg flags dataLength offset s io).2.2 := by
  fun_induction etssSetLoop p fs fid msg flags dataLength offset s io with
  | case1 flags dataLength offset s io n buf io' hr =>
    have h' := h.psaRead (Nat.min_le_right dataLength p.assetDataSize) 1
    rwa [hr] at h'
  | case2 flags dataLength offset s io n buf io' hr _ _ _ _ _ _ ih =>
    have h' := h.psaRead (Nat.min_le_right dataLength p.assetDataSize) 1
    rw [hr] at h'
    exact ih h'
  | case3 flags dataLength offset s io n buf io' hr =>
    have h' := h.psaRead (Nat.min_le_right dataLength p.assetDataSize) 1
    rwa [hr] at h'

theorem etssGetLoop_within {fs : FileSystem φ} {fid : Fid} {dataSize dataOffset : Nat}
    (h : Within msg room io) (hd : dataSize ≤ room 0) :
    ∃ room, Within msg room (etssGetLoop p fs fid dataSize dataOffset s io).2.2 := by
  fun_induction etssGetLoop p fs fid dataSize dataOffset s io generalizing room with
  | case1 => exact ⟨room, h⟩
  | case2 dataSize dataOffset s io n bs =>
    rename_i ih
    have hle : n ≤ dataSize := Nat.min_le_left _ _
    have hl := (bytesOf_length (fillBuf s.assetData bs) n).symm
    refine ih (h.psaWrite (hl ▸ hle.trans hd)) ?_
    rw [Function.update_self, ← hl]
    omega
  | case3 dataSize dataOffset s io n bs =>
    have hle : n ≤ dataSize := Nat.min_le_left _ _
    have hl := (bytesOf_length (fillBuf s.assetData bs) n).symm
    exact ⟨_, h.psaWrite (hl ▸ hle.trans hd)⟩

theorem generateRandomLoop_within {n bufSize : Nat} {actualSize : UInt8} {r : Reply × Io Reply}
    (h : Within msg room io) (hb : bufSize ≤ room 0)
    (hr : generateRandomLoop l n bufSize actualSize io = some r) :
    ∃ room, Within msg room r.2 := by
  fun_induction generateRandomLoop l n bufSize actualSize io generalizing room with
  | case1 => exact Option.some_inj.mp hr ▸ ⟨room, h⟩
  | case2 => cases hr
  | case3 => exact Option.some_inj.mp hr ▸ ⟨room, h⟩
  | case4 n bufSize actualSize io a he a' =>
    rename_i ih
    have hle : a'.toNat ≤ bufSize + 1 := by
      have : a'.toNat = min (bufSize + 1) a.toNat % 2 ^ 8 := UInt8.toNat_ofNat'
      omega
    have hl := (bytesOf_length l.buf a'.toNat).symm
    refine ih (h.psaWrite (hl ▸ hle.trans hb)) ?_ hr
    rw [Function.update_self, ← hl]
    omega

theorem etssSet_within {uid dataLength createFlags : Nat} (h : Within msg room io) :
    Within msg room (etssSet p msg uid dataLength createFlags s io).2.2 := by
  unfold etssSet
  split_ifs
  · exact h
  · exact h
  · dsimp only
    split
    · exact h
    · split
      · split_ifs
        · exact h
        · exact etssSetLoop_within h
      · exact etssSetLoop_within h
      · exact h
  · exact h

theorem etssGet_within {uid dataOffset dataSize : Nat} (h : Within msg room io)
    (hd : dataSize ≤ room 0) :
    ∃ room, Within msg room (etssGet p msg uid dataOffset dataSize s io).2.2 := by
  unfold etssGet
  split_ifs
  · exact ⟨room, h⟩
  · dsimp only
    split
    · exact ⟨room, h⟩
    · split
      · exact ⟨room, h⟩
      · split_ifs
        · exact ⟨room, h⟩
        · exact etssGetLoop_within h ((Nat.min_le_left _ _).trans hd)
  · exact ⟨room, h⟩

/-- The traffic of a handler stays within the vectors of the message. -/
def Handles (pfn : Msg → Partition φ → Io Reply → Result φ) : Prop :=
  ∀ msg s r, pfn msg s .start = some r → ∃ room, Within msg room r.2.2

theorem etssSetIpc_handles : Handles (etssSetIpc p) := by
  intro msg s r hr
  have h0 := within_start (ρ := Reply) msg
  unfold etssSetIpc at hr
  dsimp only at hr
  split_ifs at hr <;> obtain rfl := Option.some_inj.mp hr
  · exact ⟨_, h0⟩
  · exact ⟨_, h0.psaRead le_rfl 0⟩
  · exact ⟨_, (h0.psaRead le_rfl 0).psaRead le_rfl 2⟩
  · exact ⟨_, etssSet_within ((h0.psaRead le_rfl 0).psaRead le_rfl 2)⟩

theorem etssGetIpc_handles : Handles (etssGetIpc p) := by
  intro msg s r hr
  have h0 := within_start (ρ := Reply) msg
  unfold etssGetIpc at hr
  dsimp only at hr
  split_ifs at hr <;> obtain rfl := Option.some_inj.mp hr
  · exact ⟨_, h0⟩
  · exact ⟨_, h0.psaRead le_rfl 0⟩
  · exact ⟨_, (h0.psaRead le_rfl 0).psaRead le_rfl 1⟩
  · exact etssGet_within ((h0.psaRead le_rfl 0).psaRead le_rfl 1) le_rfl

theorem StorageInfo.encode_length (i : StorageInfo) : i.encode.length = storageInfoSize := by
  unfold StorageInfo.encode
  rw [List.length_append, List.length_append, Bytes.leBytes_length, Bytes.leBytes_length,
    Bytes.leBytes_length]
  rfl

theorem etssGetInfoIpc_handles : Handles (etssGetInfoIpc p) := by
  intro msg s r hr
  have h0 := within_start (ρ := Reply) msg
  unfold etssGetInfoIpc at hr
  dsimp only at hr
  split_ifs at hr with hsize
  · obtain rfl := Option.some_inj.mp hr
    exact ⟨_, h0⟩
  · obtain rfl := Option.some_inj.mp hr
    exact ⟨_, h0.psaRead le_rfl 0⟩
  · have ho : msg.outSize 0 = storageInfoSize := not_not.mp fun hn => hsize (.inr hn)
    split at hr <;> obtain rfl := Option.some_inj.mp hr
    · exact ⟨_, h0.psaRead le_rfl 0⟩
    · exact ⟨_, (h0.psaRead le_rfl 0).psaWrite (by rw [StorageInfo.encode_length, ho])⟩

theorem etssRemoveIpc_handles : Handles (etssRemoveIpc p) := by
  intro msg s r hr
  have h0 := within_start (ρ := Reply) msg
  unfold etssRemoveIpc at hr
  dsimp only at hr
  split_ifs at hr <;> obtain rfl := Option.some_inj.mp hr
  · exact ⟨_, h0⟩
  · exact ⟨_, h0.psaRead le_rfl 0⟩
  · exact ⟨_, h0.psaRead le_rfl 0⟩

theorem etssGetPufIpc_handles : Handles (etssGetPufIpc p l) := by
  intro msg s r hr
  have h0 := within_start (ρ := Reply) msg
  obtain rfl := Option.some_inj.mp hr
  show ∃ room, Within msg room (etssGetPuf p l (msg.outSize 0) .start).2
  unfold etssGetPuf secureflashGetPuf
  split_ifs
  · exact ⟨_, h0.psaWrite ((bytesOf_length _ _).trans_le (Nat.min_le_left _ _))⟩
  · exact ⟨_, h0⟩

theorem etssGenerateRandomNumberIpc_handles : Handles (etssGenerateRandomNumberIpc p l) := by
  intro msg s r hr
  have h0 := within_start (ρ := Reply) msg
  unfold etssGenerateRandomNumberIpc at hr
  split at hr
  · cases hr
  · next status io he =>
    obtain rfl := Option.some_inj.mp hr
    unfold etssGenerateRandomNumber at he
    split_ifs at he
    · exact generateRandomLoop_within h0 le_rfl he
    · cases he
      exact ⟨_, h0⟩

theorem etssMcIncrementIpc_handles : Handles (etssMcIncrementIpc p) := by
  intro msg s r hr
  have h0 := within_start (ρ := Reply) msg
  unfold etssMcIncrementIpc at hr
  dsimp only at hr
  split_ifs at hr <;> obtain rfl := Option.some_inj.mp hr <;> exact ⟨_, h0.psaRead le_rfl 0⟩

theorem etssMcGetIpc_handles : Handles (etssMcGetIpc p l) := by
  intro msg s r hr
  have h0 := within_start (ρ := Reply) msg
  unfold etssMcGetIpc etssMcGet secureflashGetMc at hr
  dsimp only at hr
  split_ifs at hr <;> obtain rfl := Option.some_inj.mp hr
  · exact ⟨_, h0.psaRead le_rfl 0⟩
  · exact ⟨_, (h0.psaRead le_rfl 0).psaWrite
      ((bytesOf_length _ _).trans_le (Nat.min_le_left _ _))⟩
  · exact ⟨_, h0.psaRead le_rfl 0⟩

theorem etssSecureFlashProvisioningIpc_within (msg : Msg) (s : Partition φ) :
    Within msg msg.outSize (etssSecureFlashProvisioningIpc p msg s .start).2.2 := by
  have h0 := within_start (ρ := Reply) msg
  unfold etssSecureFlashProvisioningIpc
  dsimp only
  split_ifs with hl
  · exact h0
  · exact h0.psaRead (Nat.le_of_not_lt hl) 0
  · exact h0.psaRead (Nat.le_of_not_lt hl) 0

/-! ## Which message a round takes -/

/-- The handler of a service of the loop. -/
def handler (p : Platform φ) (l : Locals) : Signal → Msg → Partition φ → Io Reply → Result φ
  | .set => etssSetIpc p
  | .get => etssGetIpc p
  | .getInfo => etssGetInfoIpc p
  | .remove => etssRemoveIpc p
  | .getPuf => etssGetPufIpc p l
  | .generateRandomNumber => etssGenerateRandomNumberIpc p l
  | .mcIncrement => etssMcIncrementIpc p
  | .mcGet => etssMcGetIpc p l
  | .secureFlashProvisioning => fun msg s io => some (etssSecureFlashProvisioningIpc p msg s io)

/-- The services that the loop looks for, in its order. -/
def loopServices : List Signal :=
  [.set, .get, .getInfo, .remove, .getPuf, .generateRandomNumber, .mcIncrement, .mcGet]

/-- The service whose message the loop takes. -/
def taken (pending : Pending Signal) : Option Signal :=
  loopServices.find? fun sig => (pending.msg sig).isSome

theorem handler_handles (sig : Signal) : Handles (handler p l sig) := by
  cases sig with
  | set => exact etssSetIpc_handles
  | get => exact etssGetIpc_handles
  | getInfo => exact etssGetInfoIpc_handles
  | remove => exact etssRemoveIpc_handles
  | getPuf => exact etssGetPufIpc_handles
  | generateRandomNumber => exact etssGenerateRandomNumberIpc_handles
  | mcIncrement => exact etssMcIncrementIpc_handles
  | mcGet => exact etssMcGetIpc_handles
  | secureFlashProvisioning =>
    intro msg s r hr
    obtain rfl := Option.some_inj.mp hr
    exact ⟨_, etssSecureFlashProvisioningIpc_within msg s⟩

theorem etssRound_eq (pending : Pending Signal) (l : Locals) (s : Partition φ) :
    etssRound p (pending, l) s =
      match taken pending with
      | none => ([.panic], s)
      | some sig => etssSignalHandle (handler p l sig) (pending.msg sig) s := by
  unfold etssRound taken loopServices
  simp only [List.find?_cons, List.find?_nil]
  split_ifs <;> simp_all [handler]

theorem isSome_of_taken {pending : Pending Signal} {sig : Signal} (h : taken pending = some sig) :
    ∃ msg, pending.msg sig = some msg :=
  Option.isSome_iff_exists.mp
    (List.find?_some (p := fun sig => (pending.msg sig).isSome) h)

/-! ## When a message is answered -/

def IpcType (type : Int) : Prop :=
  type = psaIpcConnect ∨ type = psaIpcCall ∨ type = psaIpcDisconnect

/-- Rounds that take no byte go on for ever. -/
theorem generateRandomLoop_zero (n bufSize : Nat) (io : Io Reply) :
    generateRandomLoop l n (bufSize + 1) 0 io = none := by
  induction n generalizing io with
  | zero => rfl
  | succ n ih => exact ih _

/-- The random-number loop ends unless there are bytes to take and none come. -/
theorem generateRandomLoop_eq_none_iff {n bufSize : Nat} {actualSize : UInt8} (h : bufSize ≤ n) :
    generateRandomLoop l n bufSize actualSize io = none ↔ bufSize ≠ 0 ∧ actualSize = 0 := by
  induction n generalizing bufSize actualSize io with
  | zero =>
    obtain rfl : bufSize = 0 := Nat.le_zero.mp h
    exact iff_of_false nofun fun hn => hn.1 rfl
  | succ n ih =>
    cases bufSize with
    | zero => exact iff_of_false nofun fun hn => hn.1 rfl
    | succ bufSize =>
      by_cases ha : actualSize = 0
      · rw [ha]
        exact iff_of_true (generateRandomLoop_zero _ _ _) ⟨Nat.succ_ne_zero _, rfl⟩
      · have hpos : 0 < actualSize.toNat :=
          Nat.pos_of_ne_zero fun h0 => ha (UInt8.toNat_inj.mp h0)
        have hlt := actualSize.toNat_lt
        have he : (UInt8.ofNat (min (bufSize + 1) actualSize.toNat)).toNat =
            min (bufSize + 1) actualSize.toNat := UInt8.toNat_ofNat_of_lt'
            (Nat.lt_of_le_of_lt (Nat.min_le_right _ _) hlt)
        refine iff_of_false (fun hn => ?_) fun hn => ha hn.2
        have hr := (ih (by rw [he]; omega)).mp hn
        have h0 := congrArg UInt8.toNat hr.2
        rw [he] at h0
        have : (0 : UInt8).toNat = 0 := rfl
        omega

/-- A call for random numbers that does not return. -/
def Hangs (p : Platform φ) (l : Locals) (sig : Signal) (msg : Msg) : Prop :=
  sig = .generateRandomNumber ∧ p.securityFeature.rng = true ∧ msg.outSize 0 ≠ 0 ∧
    l.actualSize = 0

theorem handler_eq_none_iff {sig : Signal} :
    handler p l sig msg s io = none ↔ Hangs p l sig msg := by
  have hsome : ∀ {r : Option (Reply × Partition φ × Io Reply)}, r.isSome = true →
      sig ≠ .generateRandomNumber → (r = none ↔ Hangs p l sig msg) := fun hr hne =>
    iff_of_false (fun hn => by rw [hn] at hr; cases hr) fun hh => hne hh.1
  cases sig with
  | generateRandomNumber =>
    show etssGenerateRandomNumberIpc p l msg s io = none ↔ _
    unfold etssGenerateRandomNumberIpc etssGenerateRandomNumber Hangs
    split_ifs with hf
    · rw [and_iff_right rfl, and_iff_right hf,
        ← generateRandomLoop_eq_none_iff (l := l) (le_refl (msg.outSize 0))]
      split
      · next he => exact iff_of_true rfl he
      · next he => exact iff_of_false nofun (by rw [he]; nofun)
    · exact iff_of_false nofun fun hh => hf hh.2.1
  | secureFlashProvisioning => exact hsome rfl nofun
  | getPuf => exact hsome rfl nofun
  | _ =>
    refine hsome ?_ nofun
    simp only [handler, etssSetIpc, etssGetIpc, etssGetInfoIpc, etssRemoveIpc, etssMcIncrementIpc,
      etssMcGetIpc]
    split_ifs <;> first | rfl | (split <;> rfl)

theorem etssSignalHandle_answered_iff {sig : Signal} :
    Answered (etssSignalHandle (handler p l sig) (some msg) s).1 ↔
      IpcType msg.type ∧ (msg.type = psaIpcCall → ¬ Hangs p l sig msg) := by
  have hcc : psaIpcCall ≠ psaIpcConnect := by decide
  have hdc : psaIpcDisconnect ≠ psaIpcCall := by decide
  unfold etssSignalHandle IpcType
  dsimp only
  split_ifs with h1 h2 h3
  · exact iff_of_true (answered_at_once _ _) ⟨.inl h1, fun h => absurd (h1 ▸ h) hcc.symm⟩
  · rw [and_iff_right (.inr (.inl h2)), ← handler_eq_none_iff (s := s)]
    split
    · next he =>
      exact iff_of_false (not_answered_of_stops (e := .hang) (by simp) rfl)
        fun hn => hn h2 he
    · next status s' io he =>
      obtain ⟨room, hw⟩ := handler_handles _ _ _ _ he
      exact iff_of_true (hw.quiet.answered _ _) fun _ hn => by rw [he] at hn; cases hn
  · exact iff_of_true (answered_at_once _ _) ⟨.inr (.inr h3), fun h => absurd h h2⟩
  · exact iff_of_false (not_answered_of_stops (e := .panic) (by simp) rfl)
      fun hn => hn.1.elim h1 fun h => h.elim h2 h3

/-- What a round of the loop has to find. -/
def RoundOk (p : Platform φ) (i : Pending Signal × Locals) : Prop :=
  ∃ sig msg, taken i.1 = some sig ∧ i.1.msg sig = some msg ∧ IpcType msg.type ∧
    (msg.type = psaIpcCall → ¬ Hangs p i.2 sig msg)

theorem etssRound_answered_iff (i : Pending Signal × Locals) (s : Partition φ) :
    Answered (etssRound p i s).1 ↔ RoundOk p i := by
  obtain ⟨pending, l⟩ := i
  rw [etssRound_eq]
  unfold RoundOk
  dsimp only
  split
  · next ht =>
    refine iff_of_false (not_answered_of_stops (e := .panic) (by simp) rfl) ?_
    rintro ⟨sig, msg, hs, _⟩
    cases ht.symm.trans hs
  · next sig ht =>
    obtain ⟨msg, hm⟩ := isSome_of_taken ht
    rw [hm, etssSignalHandle_answered_iff]
    refine ⟨fun h => ⟨sig, msg, ht, hm, h⟩, ?_⟩
    rintro ⟨sig', msg', ht', hm', h⟩
    cases ht.symm.trans ht'
    cases hm.symm.trans hm'
    exact h

theorem etssProvisioningRound_answered_iff (msg : Msg) (s : Partition φ) :
    Answered (etssProvisioningRound p msg s).1 ↔ IpcType msg.type := by
  unfold etssProvisioningRound IpcType
  dsimp only
  split_ifs with h1 h2
  · exact iff_of_true (answered_at_once _ _) (h1.elim .inl fun h => .inr (.inr h))
  · exact iff_of_true ((etssSecureFlashProvisioningIpc_within msg s).quiet.answered _ _)
      (.inr (.inl h2))
  · exact iff_of_false (Quiet.nil.not_answered _)
      fun h => h.elim (fun h => h1 (.inl h)) fun h => h.elim h2 fun h => h1 (.inr h)

/-! ## Buffers -/

theorem etssSignalHandle_fits {sig : Signal} (msg : Msg) (s : Partition φ) :
    Fits msg (etssSignalHandle (handler p l sig) (some msg) s).1 := by
  have hidle : ∀ e : Event Reply, (e = .reply msg.handle (.ok ()) ∨ e = .hang ∨ e = .panic) →
      Fits msg [.get msg.handle, e] := by
    rintro e (rfl | rfl | rfl) <;>
      exact ⟨fun _ _ _ h => absurd h (by simp), fun _ => Nat.zero_le _⟩
  unfold etssSignalHandle
  dsimp only
  split_ifs
  · exact hidle _ (.inl rfl)
  · split
    · exact hidle _ (.inr (.inl rfl))
    · next he =>
      obtain ⟨room, hw⟩ := handler_handles _ _ _ _ he
      exact hw.fits _ _
  · exact hidle _ (.inl rfl)
  · exact hidle _ (.inr (.inr rfl))

theorem etssProvisioningRound_fits (msg : Msg) (s : Partition φ) :
    Fits msg (etssProvisioningRound p msg s).1 := by
  unfold etssProvisioningRound
  dsimp only
  split_ifs
  · exact ⟨fun _ _ _ h => absurd h (by simp), fun _ => Nat.zero_le _⟩
  · exact (etssSecureFlashProvisioningIpc_within msg s).fits _ _
  · exact ⟨fun _ _ _ h => absurd h (by simp), fun _ => Nat.zero_le _⟩

end Etss
