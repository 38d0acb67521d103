import TfmExtras.Etss.Reads

/-! What a write does, computed from the tables before anything is written: the entry it takes,
the space it reserves, and whether the data fits. -/

namespace Etss

variable {cfg : Config} {st : Image} {a : Nat}

/-! ## Searching well-formed tables -/

theorem Image.Wf.checkFile_eq (h : st.Wf cfg a) (hacc : cfg.Accepted) {i : Nat}
    (hi : i < cfg.maxNumFiles) : checkFile cfg (st.files i) = .ok (st.files i) := by
  have hv := h.validateFileMeta hacc hi
  rw [checkFile, hv]
  split_ifs <;> rfl

theorem Image.Wf.checkBlock_eq (h : st.Wf cfg a) (hacc : cfg.Accepted) (ha : a ≤ 1) {l : Nat}
    (hl : l < numActiveDblocks cfg) : checkBlock cfg (st.blocks l) = .ok (st.blocks l) := by
  have hv := h.validateBlockMeta hacc ha hl
  rw [checkBlock, hv]
  split_ifs <;> rfl

namespace Image.Wf
variable (h : st.Wf cfg a) (hacc : cfg.Accepted)
include h hacc

theorem findFile_cases (p : FileMeta → Bool) {n i : Nat} (hi : i + n ≤ cfg.maxNumFiles) :
    (∃ k, i ≤ k ∧ k < i + n ∧ p (st.files k) = true ∧ findFile cfg st.files p n i = .ok k) ∨
      ((∀ k, i ≤ k → k < i + n → p (st.files k) = false) ∧
        findFile cfg st.files p n i = .error .doesNotExist) := by
  induction n generalizing i with
  | zero => exact .inr ⟨fun k h₁ h₂ => by omega, rfl⟩
  | succ n ih =>
    have hstep : findFile cfg st.files p (n + 1) i =
        if p (st.files i) = true then .ok i else findFile cfg st.files p n (i + 1) := by
      rw [findFile, h.checkFile_eq hacc (by omega)]
      rfl
    rw [hstep]
    by_cases hp : p (st.files i) = true
    · exact .inl ⟨i, le_rfl, by omega, hp, if_pos hp⟩
    rw [if_neg hp]
    rcases ih (i := i + 1) (by omega) with ⟨k, h₁, h₂, hk, he⟩ | ⟨hall, he⟩
    · exact .inl ⟨k, by omega, by omega, hk, he⟩
    · refine .inr ⟨fun k h₁ h₂ => ?_, he⟩
      by_cases hki : k = i
      · exact hki ▸ Bool.not_eq_true _ ▸ hp
      · exact hall k (by omega) (by omega)

theorem freeIndex_spare {n i : Nat} (hi : i + n ≤ cfg.maxNumFiles) :
    freeIndex cfg st.files n i true = metadataInvalidIndex ∨
      ∃ k, i ≤ k ∧ k < i + n ∧ (st.files k).id = 0 ∧ freeIndex cfg st.files n i true = k := by
  induction n generalizing i with
  | zero => exact .inl rfl
  | succ n ih =>
    unfold freeIndex
    rw [h.checkFile_eq hacc (by omega)]
    unfold utilsValidateFid
    by_cases hid : (st.files i).id ≠ 0
    · simp only [if_pos hid]
      rcases ih (i := i + 1) (by omega) with he | ⟨k, h₁, h₂, hk, he⟩
      · exact .inl he
      · exact .inr ⟨k, by omega, by omega, hk, he⟩
    · simp only [if_neg hid]
      exact .inr ⟨i, le_rfl, by omega, not_not.mp hid, rfl⟩

/-- Without the spare, another free entry comes first. -/
theorem freeIndex_keep {n i : Nat} (hi : i + n ≤ cfg.maxNumFiles) :
    freeIndex cfg st.files n i false = metadataInvalidIndex ∨
      ∃ j k, i ≤ j ∧ j < k ∧ k < i + n ∧ (st.files j).id = 0 ∧ (st.files k).id = 0 ∧
        freeIndex cfg st.files n i false = k := by
  induction n generalizing i with
  | zero => exact .inl rfl
  | succ n ih =>
    unfold freeIndex
    rw [h.checkFile_eq hacc (by omega)]
    unfold utilsValidateFid
    by_cases hid : (st.files i).id ≠ 0
    · simp only [if_pos hid]
      rcases ih (i := i + 1) (by omega) with he | ⟨j, k, h₁, h₂, h₃, hj, hk, he⟩
      · exact .inl he
      · exact .inr ⟨j, k, by omega, h₂, by omega, hj, hk, he⟩
    · simp only [if_neg hid, Bool.false_eq_true, if_false]
      rcases h.freeIndex_spare hacc (i := i + 1) (n := n) (by omega) with he | ⟨k, h₁, h₂, hk, he⟩
      · exact .inl he
      · exact .inr ⟨i, k, le_rfl, by omega, by omega, not_not.mp hid, hk, he⟩

/-- The first block from `i` on with room for the file, if there is one. -/
theorem reserveIn_cases (ha : a ≤ 1) (fid : Fid) (size flags : Nat) {n i : Nat}
    (hi : i + n ≤ numActiveDblocks cfg) :
    ((∀ l, i ≤ l → l < i + n → (st.blocks l).freeSize < size) ∧
      reserveIn cfg st.blocks fid size flags n i = .error .insufficientStorage) ∨
    ∃ l, i ≤ l ∧ l < i + n ∧ size ≤ (st.blocks l).freeSize ∧
      (∀ k, i ≤ k → k < l → (st.blocks k).freeSize < size) ∧
      reserveIn cfg st.blocks fid size flags n i = .ok (⟨l, st.dataEnd cfg l, 0, size, flags, fid⟩,
        { st.blocks l with freeSize := (st.blocks l).freeSize - size }) := by
  induction n generalizing i with
  | zero => exact .inl ⟨fun l h₁ h₂ => by omega, rfl⟩
  | succ n ih =>
    have hil : i < numActiveDblocks cfg := by omega
    have hstep : reserveIn cfg st.blocks fid size flags (n + 1) i =
        if (st.blocks i).freeSize ≥ size then
          .ok (⟨i, sub32 cfg.blockSize (st.blocks i).freeSize, 0, size, flags, fid⟩,
            { st.blocks i with freeSize := (st.blocks i).freeSize - size })
        else reserveIn cfg st.blocks fid size flags n (i + 1) := by
      rw [reserveIn, h.checkBlock_eq hacc ha hil]
      rfl
    have hfree := h.freeSize_le i hil
    rw [hstep]
    by_cases hc : (st.blocks i).freeSize ≥ size
    · refine .inr ⟨i, le_rfl, by omega, hc, fun k h₁ h₂ => by omega, ?_⟩
      rw [if_pos hc, sub32_eq cfg.blockSize_lt (by omega)]
      rfl
    rw [if_neg hc]
    -- the blocks from the next one on, with block `i` put before them
    have hcons : ∀ m, (∀ k, i + 1 ≤ k → k < m → (st.blocks k).freeSize < size) →
        ∀ k, i ≤ k → k < m → (st.blocks k).freeSize < size := fun m hall k h₁ h₂ => by
      by_cases hk : k = i
      · exact hk ▸ Nat.not_le.mp hc
      · exact hall k (by omega) h₂
    rcases ih (i := i + 1) (by omega) with ⟨hall, he⟩ | ⟨l, h₁, h₂, hl, hall, he⟩
    · exact .inl ⟨hcons _ fun k h₁ h₂ => hall k h₁ (by omega), he⟩
    · exact .inr ⟨l, by omega, by omega, hl, hcons _ hall, he⟩

end Image.Wf

/-! ## The plan of a write -/

/-- The arguments of `etss_flash_fs_file_write`; `data` is the memory behind the pointer. -/
structure WriteReq where
  fid : Fid
  flags : Nat
  maxSize : Nat
  dataSize : Nat
  offset : Nat
  data : Nat → UInt8

/-- The file id is not zero, the numbers are in the range of their types, and rounding the sizes
up does not wrap. -/
structure WriteReq.Valid (cfg : Config) (r : WriteReq) : Prop where
  fid : r.fid ≠ 0
  flags_lt : r.flags < 2 ^ 32
  offset_lt : r.offset < 2 ^ 32
  maxSize : AlignFits r.maxSize cfg.programUnit
  dataSize : AlignFits r.dataSize cfg.programUnit

instance (r : WriteReq) : Decidable (r.Valid cfg) :=
  decidable_of_iff (r.fid ≠ 0 ∧ r.flags < 2 ^ 32 ∧ r.offset < 2 ^ 32 ∧
      AlignFits r.maxSize cfg.programUnit ∧ AlignFits r.dataSize cfg.programUnit)
    ⟨fun ⟨h₁, h₂, h₃, h₄, h₅⟩ => ⟨h₁, h₂, h₃, h₄, h₅⟩,
      fun h => ⟨h.fid, h.flags_lt, h.offset_lt, h.maxSize, h.dataSize⟩⟩

/-- The numbers of a request are in the range of their types, whatever rounding makes of them. -/
structure WriteReq.InRange (r : WriteReq) : Prop where
  fid : r.fid ≠ 0
  flags_lt : r.flags < 2 ^ 32
  maxSize_lt : r.maxSize < 2 ^ 32
  dataSize_lt : r.dataSize < 2 ^ 32
  offset_lt : r.offset < 2 ^ 32

theorem WriteReq.Valid.inRange {cfg : Config} {r : WriteReq} (h : r.Valid cfg) : r.InRange :=
  ⟨h.fid, h.flags_lt, h.maxSize.lt, h.dataSize.lt, h.offset_lt⟩

/-- The maximum size, rounded up. -/
def WriteReq.max (cfg : Config) (r : WriteReq) : Nat := utilsAlign r.maxSize cfg.programUnit

/-- The size of the data, rounded up. -/
def WriteReq.size (cfg : Config) (r : WriteReq) : Nat := utilsAlign r.dataSize cfg.programUnit

def FileMeta.mark (fileMeta : FileMeta) : FileMeta :=
  { fileMeta with flags := fileMeta.flags ||| flagDelete }

/-- What `fileWriteLookup` returns. -/
def Image.writeTarget (cfg : Config) (st : Image) (r : WriteReq) : Except Status WriteTarget :=
  match findFile cfg st.files (fun fileMeta => fileMeta.id == r.fid) cfg.maxNumFiles 0 with
  | .ok oldIdx =>
    if r.flags &&& flagTruncate ≠ 0 then
      if (st.files oldIdx).maxSize = r.max cfg then
        .ok ⟨oldIdx, oldIdx, { st.files oldIdx with curSize := 0, flags := r.flags }⟩
      else .ok ⟨oldIdx, metadataInvalidIndex, (st.files oldIdx).mark⟩
    else .ok ⟨oldIdx, oldIdx, st.files oldIdx⟩
  | .error .doesNotExist =>
    if r.flags &&& flagCreate = 0 then .error .doesNotExist
    else .ok ⟨metadataInvalidIndex, metadataInvalidIndex, FileMeta.zero⟩
  | .error e => .error e

/-- The old file is replaced by one of another size. -/
def WriteTarget.Replaces (t : WriteTarget) : Prop :=
  t.oldIdx ≠ metadataInvalidIndex ∧ t.newIdx = metadataInvalidIndex

instance (t : WriteTarget) : Decidable t.Replaces := instDecidableAnd

/-- What `fileWriteReserve` returns. -/
def Image.writeReserve (cfg : Config) (st : Image) (r : WriteReq) (t : WriteTarget) :
    Except Status (Nat × FileMeta × BlockMeta) :=
  if t.newIdx = metadataInvalidIndex then
    if r.max cfg > cfg.maxFileSize then .error .invalidArgument
    else
      match reserveIn cfg st.blocks r.fid (r.max cfg) r.flags (numActiveDblocks cfg) 0 with
      | .error _ => .error .insufficientStorage
      | .ok (fileMeta, blockMeta) =>
        let idx := freeIndex cfg st.files cfg.maxNumFiles 0 (t.oldIdx ≠ metadataInvalidIndex)
        if idx = metadataInvalidIndex then .error .insufficientStorage
        else .ok (idx, fileMeta, blockMeta)
  else .ok (t.newIdx, t.fileMeta, st.blocks t.fileMeta.lblock)

/-- The data can be written to the file. -/
def WriteReq.Fits (cfg : Config) (r : WriteReq) (fileMeta : FileMeta) : Prop :=
  r.dataSize = 0 ∨ (utilsIsAligned r.offset cfg.programUnit = true ∧ r.offset ≤ fileMeta.curSize ∧
    r.offset + r.size cfg ≤ fileMeta.maxSize)

instance (r : WriteReq) (fileMeta : FileMeta) : Decidable (r.Fits cfg fileMeta) :=
  instDecidableOr

structure WritePlan where
  oldIdx : Nat
  newIdx : Nat
  fileMeta : FileMeta
  blockMeta : BlockMeta

/-- The entry once the data is written. -/
def WritePlan.entry (p : WritePlan) (r : WriteReq) : FileMeta :=
  if r.dataSize ≠ 0 ∧ add32 r.offset r.dataSize > p.fileMeta.curSize then
    { p.fileMeta with curSize := add32 r.offset r.dataSize }
  else p.fileMeta

def Image.writePlan (cfg : Config) (st : Image) (r : WriteReq) : Except Status WritePlan :=
  if r.flags &&& internalFlagsMask ≠ 0 then .error .invalidArgument
  else do
    let t ← st.writeTarget cfg r
    let q ← st.writeReserve cfg r t
    if r.Fits cfg q.2.1 then pure ⟨t.oldIdx, q.1, q.2.1, q.2.2⟩ else .error .genericError

/-! ## What a plan has in common with the tables -/

/-- A plan that reuses the entry of the file. -/
structure WritePlan.Reuses (cfg : Config) (p : WritePlan) (st : Image) (r : WriteReq) : Prop where
  oldIdx : p.oldIdx = p.newIdx
  id : (st.files p.newIdx).id = r.fid
  fileMeta : p.fileMeta = if r.flags &&& flagTruncate ≠ 0 then
    { st.files p.newIdx with curSize := 0, flags := r.flags } else st.files p.newIdx
  maxSize : r.flags &&& flagTruncate ≠ 0 → (st.files p.newIdx).maxSize = r.max cfg
  blockMeta : p.blockMeta = st.blocks (st.files p.newIdx).lblock

/-- A plan that takes a free entry, and space behind the files of a block. -/
structure WritePlan.Takes (cfg : Config) (p : WritePlan) (st : Image) (r : WriteReq) : Prop where
  free : (st.files p.newIdx).id = 0
  lblock_lt : p.fileMeta.lblock < numActiveDblocks cfg
  fileMeta : p.fileMeta =
    ⟨p.fileMeta.lblock, st.dataEnd cfg p.fileMeta.lblock, 0, r.max cfg, r.flags, r.fid⟩
  max_le : r.max cfg ≤ cfg.maxFileSize
  room : r.max cfg ≤ (st.blocks p.fileMeta.lblock).freeSize
  blockMeta : p.blockMeta = { st.blocks p.fileMeta.lblock with
    freeSize := (st.blocks p.fileMeta.lblock).freeSize - r.max cfg }

/-- The plan of a new file. -/
structure WritePlan.Creates (cfg : Config) (p : WritePlan) (st : Image) (r : WriteReq) : Prop
    extends p.Takes cfg st r where
  oldIdx : p.oldIdx = metadataInvalidIndex
  absent : ∀ i, i < cfg.maxNumFiles → (st.files i).id ≠ r.fid
  spare : ∃ i < cfg.maxNumFiles, i ≠ p.newIdx ∧ (st.files i).id = 0

/-- The plan of a file that replaces the one in entry `oldIdx`. -/
structure WritePlan.Replaces (cfg : Config) (p : WritePlan) (st : Image) (r : WriteReq) : Prop
    extends p.Takes cfg st r where
  oldIdx_lt : p.oldIdx < cfg.maxNumFiles
  id : (st.files p.oldIdx).id = r.fid
  truncate : r.flags &&& flagTruncate ≠ 0
  maxSize : (st.files p.oldIdx).maxSize ≠ r.max cfg

structure WritePlan.Sound (cfg : Config) (p : WritePlan) (st : Image) (r : WriteReq) : Prop where
  flags : r.flags &&& internalFlagsMask = 0
  newIdx_lt : p.newIdx < cfg.maxNumFiles
  fits : r.Fits cfg p.fileMeta
  kind : p.Reuses cfg st r ∨ p.Creates cfg st r ∨ p.Replaces cfg st r

section
variable {r : WriteReq} {t : WriteTarget}

/-- The entry that a write starts from: the one of the file, or a new one. -/
theorem Image.Wf.writeTarget_cases (h : st.Wf cfg a) (hacc : cfg.Accepted) :
    (∃ i, i < cfg.maxNumFiles ∧ (st.files i).id = r.fid ∧ st.writeTarget cfg r =
      if r.flags &&& flagTruncate ≠ 0 then
        if (st.files i).maxSize = r.max cfg then
          .ok ⟨i, i, { st.files i with curSize := 0, flags := r.flags }⟩
        else .ok ⟨i, metadataInvalidIndex, (st.files i).mark⟩
      else .ok ⟨i, i, st.files i⟩) ∨
    ((∀ i, i < cfg.maxNumFiles → (st.files i).id ≠ r.fid) ∧ st.writeTarget cfg r =
      if r.flags &&& flagCreate = 0 then .error .doesNotExist
      else .ok ⟨metadataInvalidIndex, metadataInvalidIndex, FileMeta.zero⟩) := by
  unfold writeTarget
  rcases h.findFile_cases hacc (fun fileMeta => fileMeta.id == r.fid)
    (i := 0) (n := cfg.maxNumFiles) (by omega) with ⟨i, _, hi, hp, he⟩ | ⟨hall, he⟩
  · rw [he]
    exact .inl ⟨i, by omega, beq_iff_eq.mp hp, rfl⟩
  · rw [he]
    exact .inr ⟨fun i hi hid => Bool.false_ne_true ((hall i (by omega) (by omega)).symm.trans
      (beq_iff_eq.mpr hid)), rfl⟩

/-- What `writeReserve` takes when the target has no entry to reuse. -/
theorem Image.Wf.writeReserve_takes (h : st.Wf cfg a) (hacc : cfg.Accepted) (ha : a ≤ 1)
    (hn : t.newIdx = metadataInvalidIndex) {q : Nat × FileMeta × BlockMeta}
    (hq : st.writeReserve cfg r t = .ok q) :
    WritePlan.Takes cfg ⟨t.oldIdx, q.1, q.2.1, q.2.2⟩ st r ∧ q.1 < cfg.maxNumFiles ∧
      (t.oldIdx = metadataInvalidIndex →
        ∃ i < cfg.maxNumFiles, i ≠ q.1 ∧ (st.files i).id = 0) := by
  unfold writeReserve at hq
  rw [if_pos hn] at hq
  split_ifs at hq with hmax
  rcases h.reserveIn_cases hacc ha r.fid (r.max cfg) r.flags
    (i := 0) (n := numActiveDblocks cfg) (by omega) with ⟨_, he⟩ | ⟨l, _, hl, hroom, _, he⟩
  · rw [he] at hq
    cases hq
  rw [he] at hq
  dsimp only at hq
  split_ifs at hq with hidx
  injection hq with hq
  subst hq
  have htakes : ∀ idx, (st.files idx).id = 0 →
      WritePlan.Takes cfg ⟨t.oldIdx, idx, ⟨l, st.dataEnd cfg l, 0, r.max cfg, r.flags, r.fid⟩,
        { st.blocks l with freeSize := (st.blocks l).freeSize - r.max cfg }⟩ st r := fun idx hid =>
    ⟨hid, hl.trans_eq (Nat.zero_add _), rfl, Nat.not_lt.mp hmax, hroom, rfl⟩
  by_cases hold : t.oldIdx = metadataInvalidIndex
  · have hdec : decide (t.oldIdx ≠ metadataInvalidIndex) = false := decide_eq_false (not_not.mpr hold)
    rw [hdec] at hidx ⊢
    rcases h.freeIndex_keep hacc (i := 0) (n := cfg.maxNumFiles) (by omega) with
      hf | ⟨j, k, _, hjk, hk, hj, hkid, hf⟩
    · exact absurd hf hidx
    · rw [hf]
      exact ⟨hold ▸ htakes k hkid, by omega, fun _ => ⟨j, by omega, by omega, hj⟩⟩
  · have hdec : decide (t.oldIdx ≠ metadataInvalidIndex) = true := decide_eq_true hold
    rw [hdec] at hidx ⊢
    rcases h.freeIndex_spare hacc (i := 0) (n := cfg.maxNumFiles) (by omega) with
      hf | ⟨k, _, hk, hkid, hf⟩
    · exact absurd hf hidx
    · rw [hf]
      exact ⟨htakes k hkid, by omega, fun ho => absurd ho hold⟩

theorem Image.Wf.writePlan_sound (h : st.Wf cfg a) (hacc : cfg.Accepted) (ha : a ≤ 1)
    {p : WritePlan} (hp : st.writePlan cfg r = .ok p) : p.Sound cfg st r := by
  have hmax := cfg.maxNumFiles_lt
  unfold writePlan at hp
  split_ifs at hp with hflags
  cases ht : st.writeTarget cfg r with
  | error e =>
    rw [ht] at hp
    cases hp
  | ok t =>
  rw [ht] at hp
  cases hq : st.writeReserve cfg r t with
  | error e =>
    simp only [bind, Except.bind, hq] at hp
    cases hp
  | ok q =>
  simp only [bind, Except.bind, hq] at hp
  split_ifs at hp with hfits
  injection hp with hp
  subst hp
  have htakes := fun hn => h.writeReserve_takes (t := t) hacc ha hn hq
  rcases h.writeTarget_cases (r := r) hacc with ⟨i, hi, hid, he⟩ | ⟨habsent, he⟩
  · rw [he] at ht
    split_ifs at ht with htr hsz <;> injection ht with ht <;> subst ht
    · -- truncated in place
      have hn : ¬ i = metadataInvalidIndex := by unfold metadataInvalidIndex; omega
      unfold writeReserve at hq
      rw [if_neg hn] at hq
      injection hq with hq
      subst hq
      exact ⟨not_not.mp hflags, hi, hfits,
        .inl ⟨rfl, hid, (if_pos htr).symm, fun _ => hsz, rfl⟩⟩
    · -- replaced
      obtain ⟨hk, hlt, _⟩ := htakes rfl
      exact ⟨not_not.mp hflags, hlt, hfits, .inr (.inr ⟨hk, hi, hid, htr, hsz⟩)⟩
    · -- written to
      have hn : ¬ i = metadataInvalidIndex := by unfold metadataInvalidIndex; omega
      unfold writeReserve at hq
      rw [if_neg hn] at hq
      injection hq with hq
      subst hq
      exact ⟨not_not.mp hflags, hi, hfits,
        .inl ⟨rfl, hid, (if_neg htr).symm, fun hc => absurd hc htr, rfl⟩⟩
  · rw [he] at ht
    split_ifs at ht with hc
    injection ht with ht
    subst ht
    obtain ⟨hk, hlt, hspare⟩ := htakes rfl
    exact ⟨not_not.mp hflags, hlt, hfits, .inr (.inl ⟨hk, rfl, habsent, hspare rfl⟩)⟩

end

end Etss
