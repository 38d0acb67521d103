import TfmExtras.MeasuredBoot.SlotFold

/-! The measurements of the earlier boot stages, which the partition collects before it takes any
request: `collect_shared_measurements`. -/

namespace MeasuredBoot.Service
open Bytes

/-! ## Extends -/

/-- The arguments of `measured_boot_extend_measurement`. -/
structure ExtendCall where
  index : Nat
  signerId : List UInt8
  signerIdSize : Nat
  version : List UInt8
  versionSize : Nat
  measurementAlgo : Nat
  swType : List UInt8
  swTypeSize : Nat
  measurementValue : List UInt8
  measurementValueSize : Nat
  lockMeasurement : Nat
deriving DecidableEq, Repr

section
variable (alg : HashAlg) (hashCompute : List UInt8 → Except Error (List UInt8))

def ExtendCall.run (e : ExtendCall) (slots : Slots) : Reply × Slots :=
  let (status, slot) := measuredBootExtendMeasurement alg hashCompute (slots e.index) e.signerId
    e.signerIdSize e.version e.versionSize e.measurementAlgo e.swType e.swTypeSize
    e.measurementValue e.measurementValueSize e.lockMeasurement
  (status, Function.update slots e.index slot)

/-- The extends in order, up to one that fails. -/
def runExtends : List ExtendCall → Slots → Reply × Slots
  | [], slots => (.ok (), slots)
  | e :: es, slots =>
    match e.run alg hashCompute slots with
    | (.error err, slots) => (.error err, slots)
    | (.ok (), slots) => runExtends es slots

end

/-! ## Boot data -/

/-- `struct boot_measurement_metadata`. -/
structure BootMeasurementMetadata where
  measurementType : Nat
  signerId : List UInt8
  signerIdSize : Nat
  swVersion : List UInt8
  swType : List UInt8

/-- What the boot status header gives: the types of the entries, and the layout of the metadata. -/
structure BootStatus where
  tlvInfoMagic : Nat
  getMbsSlot : (tlvType : Nat) → Nat
  getMbsClaim : (tlvType : Nat) → Nat
  swMeasureMetadata : Nat
  swMeasureValue : Nat
  swMeasureValueNonExtendable : Nat
  metadataSize : Nat
  metadata : List UInt8 → BootMeasurementMetadata
  getMbsSlot_lt : ∀ tlvType, getMbsSlot tlvType < 2 ^ 6
  getMbsClaim_lt : ∀ tlvType, getMbsClaim tlvType < 2 ^ 6
  measurementType_lt : ∀ bs, (metadata bs).measurementType < 2 ^ 32
  signerId_length : ∀ bs, (metadata bs).signerId.length = signerIdMaxSize
  swVersion_le : ∀ bs, (metadata bs).swVersion.length ≤ versionMaxSize
  swType_le : ∀ bs, (metadata bs).swType.length ≤ swTypeMaxSize

/-- `tfm_strnlen` over a whole array. -/
def strnlen (bs : List UInt8) : Nat := (bs.takeWhile (· ≠ 0)).length

/-- The memory from the start of `boot_measurements` on, and beyond its end. -/
abbrev Memory := Nat → UInt8

def bytesAt (mem : Memory) (pos n : Nat) : List UInt8 := (List.range n).map fun k => mem (pos + k)

def sharedDataHeaderSize : Nat := 4
def sharedDataEntryHeaderSize : Nat := 4

def tlvMagic (mem : Memory) : Nat := leNat (bytesAt mem 0 2)
def tlvTotLen (mem : Memory) : Nat := leNat (bytesAt mem 2 2)

/-- The fields of the entry header at `pos`. -/
def tlvType (mem : Memory) (pos : Nat) : Nat := leNat (bytesAt mem pos 2)
def tlvLen (mem : Memory) (pos : Nat) : Nat := leNat (bytesAt mem (pos + 2) 2)

section
variable (b : BootStatus) (mem : Memory) (pos : Nat)

def metadataAt : BootMeasurementMetadata :=
  b.metadata (bytesAt mem (pos + sharedDataEntryHeaderSize) b.metadataSize)

/-- Where the value entry of a pair begins whose metadata entry is at `pos`. -/
def valueEntry : Nat := pos + (sharedDataEntryHeaderSize + b.metadataSize)

/-- Where the next pair begins. -/
def pairEnd : Nat := valueEntry b pos + (sharedDataEntryHeaderSize + tlvLen mem (valueEntry b pos))

/-- The extend of the pair at `pos`. -/
def extendAt : ExtendCall where
  index := b.getMbsSlot (tlvType mem (valueEntry b pos))
  signerId := (metadataAt b mem pos).signerId
  signerIdSize := (metadataAt b mem pos).signerIdSize
  version := (metadataAt b mem pos).swVersion
  versionSize := strnlen (metadataAt b mem pos).swVersion
  measurementAlgo := (metadataAt b mem pos).measurementType
  swType := (metadataAt b mem pos).swType
  swTypeSize := strnlen (metadataAt b mem pos).swType
  measurementValue := bytesAt mem (valueEntry b pos + sharedDataEntryHeaderSize)
    (tlvLen mem (valueEntry b pos))
  measurementValueSize := tlvLen mem (valueEntry b pos)
  lockMeasurement := if b.getMbsClaim (tlvType mem (valueEntry b pos)) =
    b.swMeasureValueNonExtendable then 1 else 0

/-- The header at `pos` is that of a metadata entry. -/
def MetadataEntry : Prop :=
  ¬ (b.getMbsClaim (tlvType mem pos) ≠ b.swMeasureMetadata ∨ tlvLen mem pos ≠ b.metadataSize)

instance : Decidable (MetadataEntry b mem pos) := instDecidableNot

/-- The entry after the metadata at `pos` has the claim of a value. -/
def ValueClaim : Prop :=
  ¬ (b.getMbsClaim (tlvType mem (valueEntry b pos)) ≠ b.swMeasureValue ∧
    b.getMbsClaim (tlvType mem (valueEntry b pos)) ≠ b.swMeasureValueNonExtendable)

instance : Decidable (ValueClaim b mem pos) := instDecidableNot

/-- The sizes of the signer id and of the value are in range. -/
def PairSizes : Prop :=
  ¬ ((metadataAt b mem pos).signerIdSize < signerIdMinSize ∨
    (metadataAt b mem pos).signerIdSize > signerIdMaxSize ∨
    tlvLen mem (valueEntry b pos) < measurementValueMinSize ∨
    tlvLen mem (valueEntry b pos) > measurementValueMaxSize)

instance : Decidable (PairSizes b mem pos) := instDecidableNot

end

/-- The slots, the ranges that were read in the section, and the extends that were asked for. -/
structure Collected where
  slots : Slots
  reads : List (Nat × Nat)
  calls : List ExtendCall

def Collected.read (pos n : Nat) (c : Collected) : Collected :=
  { c with reads := c.reads ++ [(pos, n)] }

section
variable (b : BootStatus) (alg : HashAlg) (hashCompute : List UInt8 → Except Error (List UInt8))
  (mem : Memory)

def Collected.extend (e : ExtendCall) (c : Collected) : Reply × Collected :=
  let (status, slots) := e.run alg hashCompute c.slots
  (status, { c with slots, calls := c.calls ++ [e] })

/-- One round of the loop, which returns where the next entry begins. The value is read by every
extend, since it is logged. -/
def collectRound (pos : Nat) (c : Collected) : Except Error Nat × Collected :=
  let c := c.read pos sharedDataEntryHeaderSize
  if ¬ MetadataEntry b mem pos then (.error .genericError, c)
  else
    let c := c.read (valueEntry b pos) sharedDataEntryHeaderSize
    if ¬ ValueClaim b mem pos then (.error .genericError, c)
    else
      let c := c.read (pos + sharedDataEntryHeaderSize) b.metadataSize
      if ¬ PairSizes b mem pos then (.error .genericError, c)
      else
        let c := c.read (valueEntry b pos + sharedDataEntryHeaderSize)
          (tlvLen mem (valueEntry b pos))
        match c.extend alg hashCompute (extendAt b mem pos) with
        | (.error e, c) => (.error e, c)
        | (.ok (), c) => (.ok (pairEnd b mem pos), c)

/-- The loop, for at most `n` rounds. -/
def collectLoop : Nat → (pos stop : Nat) → Reply → Collected → Option (Reply × Collected)
  | 0, pos, stop, status, c => if pos < stop then none else some (status, c)
  | n + 1, pos, stop, status, c =>
    if pos < stop then
      match collectRound b alg hashCompute mem pos c with
      | (.error e, c) => some (.error e, c)
      | (.ok pos, c) => collectLoop n pos stop (.ok ()) c
    else some (status, c)

/-- `collect_shared_measurements`, once the boot data is fetched. -/
def collectSharedMeasurements (n : Nat) (slots : Slots) : Option (Reply × Collected) :=
  if tlvMagic mem ≠ b.tlvInfoMagic then some (.error .genericError, ⟨slots, [], []⟩)
  else collectLoop b alg hashCompute mem n sharedDataHeaderSize (tlvTotLen mem)
    (.error .genericError) ⟨slots, [], []⟩

end

/-! ## Well-formed sections -/

section
variable (b : BootStatus) (mem : Memory) (stop : Nat)

/-- A complete pair of entries before `stop`: metadata and a value, for one slot that exists, with
their sizes in range. -/
structure IsPair (pos : Nat) : Prop where
  complete : pairEnd b mem pos ≤ stop
  metadata : MetadataEntry b mem pos
  value : ValueClaim b mem pos
  sizes : PairSizes b mem pos
  slot_eq : b.getMbsSlot (tlvType mem pos) = b.getMbsSlot (tlvType mem (valueEntry b pos))
  slot_lt : b.getMbsSlot (tlvType mem (valueEntry b pos)) < numOfMeasurementSlots

/-- From `pos` to the last position there are pairs, for these extends. -/
inductive Pairs : (pos : Nat) → List ExtendCall → Nat → Prop
  | nil (pos : Nat) : Pairs pos [] pos
  | cons {pos pos' : Nat} {es : List ExtendCall} (pair : IsPair b mem stop pos)
    (rest : Pairs (pairEnd b mem pos) es pos') : Pairs pos (extendAt b mem pos :: es) pos'

/-- An entry that is cut off, or a pair for two slots or for one that does not exist. -/
def Faulty (pos : Nat) : Prop :=
  stop < pos + sharedDataEntryHeaderSize ∨ MetadataEntry b mem pos ∧
    (stop < valueEntry b pos + sharedDataEntryHeaderSize ∨
      ValueClaim b mem pos ∧ PairSizes b mem pos ∧ (stop < pairEnd b mem pos ∨
        b.getMbsSlot (tlvType mem pos) ≠ b.getMbsSlot (tlvType mem (valueEntry b pos)) ∨
        numOfMeasurementSlots ≤ b.getMbsSlot (tlvType mem (valueEntry b pos))))

variable (alg : HashAlg) (hashCompute : List UInt8 → Except Error (List UInt8))

/-- After pairs whose extends succeed there is a faulty one. -/
inductive Trouble : (pos : Nat) → Slots → Prop
  | here {pos : Nat} {slots : Slots} (entry : pos < stop) (faulty : Faulty b mem stop pos) :
    Trouble pos slots
  | later {pos : Nat} {slots slots' : Slots} (pair : IsPair b mem stop pos)
    (succeeds : (extendAt b mem pos).run alg hashCompute slots = (.ok (), slots'))
    (rest : Trouble (pairEnd b mem pos) slots') : Trouble pos slots

/-- The header is right, and the section after it is made of pairs, whose extends succeed. -/
def SectionSucceeds (slots : Slots) : Prop :=
  tlvMagic mem = b.tlvInfoMagic ∧ ∃ es,
    Pairs b mem (tlvTotLen mem) sharedDataHeaderSize es (tlvTotLen mem) ∧
      (runExtends alg hashCompute es slots).1 = .ok ()

/-- What is promised of the parser. -/
structure Parses (slots : Slots) : Prop where
  returns : ∃ n, (collectSharedMeasurements b alg hashCompute mem n slots).isSome = true
  within : ∀ n status c, collectSharedMeasurements b alg hashCompute mem n slots = some (status, c) →
    ∀ pos len, (pos, len) ∈ c.reads → pos + len ≤ tlvTotLen mem
  index_lt : ∀ n status c, collectSharedMeasurements b alg hashCompute mem n slots = some (status, c) →
    ∀ e ∈ c.calls, e.index < numOfMeasurementSlots
  success_iff : ∀ n status c,
    collectSharedMeasurements b alg hashCompute mem n slots = some (status, c) →
      (status = .ok () ↔ SectionSucceeds b mem alg hashCompute slots)
  state : ∀ n c, collectSharedMeasurements b alg hashCompute mem n slots = some (.ok (), c) →
    ∀ es, Pairs b mem (tlvTotLen mem) sharedDataHeaderSize es (tlvTotLen mem) →
      c.slots = (runExtends alg hashCompute es slots).2
  malformed : ∀ n status c,
    collectSharedMeasurements b alg hashCompute mem n slots = some (status, c) →
      ∀ es pos, Pairs b mem (tlvTotLen mem) sharedDataHeaderSize es pos → pos < tlvTotLen mem →
        ¬ IsPair b mem (tlvTotLen mem) pos → c.calls <+: es

end

/-! ## One round -/

variable {b : BootStatus} {alg : HashAlg} {hashCompute : List UInt8 → Except Error (List UInt8)}
  {mem : Memory} {slots : Slots} {pos stop n : Nat} {status : Reply} {c : Collected}

/-- The reads that were added end at `stop`, and nothing else was done. -/
structure ReadsOnly (stop : Nat) (c c' : Collected) : Prop where
  slots : c'.slots = c.slots
  calls : c'.calls = c.calls
  within : ∀ pos len, (pos, len) ∈ c'.reads → (pos, len) ∈ c.reads ∨ pos + len ≤ stop

theorem ReadsOnly.refl (c : Collected) : ReadsOnly stop c c := ⟨rfl, rfl, fun _ _ => .inl⟩

theorem ReadsOnly.read {c' : Collected} {len : Nat} (h : ReadsOnly stop c c') (hle : pos + len ≤ stop) :
    ReadsOnly stop c (c'.read pos len) := by
  refine ⟨h.slots, h.calls, fun pos' len' hm => ?_⟩
  rcases List.mem_append.mp hm with hm | hm
  · exact h.within pos' len' hm
  · cases List.mem_singleton.mp hm
    exact .inr hle

/-- The reads of a round that comes to the extend. -/
def Collected.readPair (b : BootStatus) (mem : Memory) (pos : Nat) (c : Collected) : Collected :=
  (((c.read pos sharedDataEntryHeaderSize).read (valueEntry b pos) sharedDataEntryHeaderSize).read
    (pos + sharedDataEntryHeaderSize) b.metadataSize).read
      (valueEntry b pos + sharedDataEntryHeaderSize) (tlvLen mem (valueEntry b pos))

/-- A round fails at one of its checks, or comes to the extend. -/
theorem collectRound_cases (b : BootStatus) (alg : HashAlg)
    (hashCompute : List UInt8 → Except Error (List UInt8)) (mem : Memory) (pos : Nat) (c : Collected) :
    (¬ MetadataEntry b mem pos ∧ collectRound b alg hashCompute mem pos c =
      (.error .genericError, c.read pos sharedDataEntryHeaderSize)) ∨
    (MetadataEntry b mem pos ∧ ¬ ValueClaim b mem pos ∧ collectRound b alg hashCompute mem pos c =
      (.error .genericError, (c.read pos sharedDataEntryHeaderSize).read (valueEntry b pos)
        sharedDataEntryHeaderSize)) ∨
    (MetadataEntry b mem pos ∧ ValueClaim b mem pos ∧ ¬ PairSizes b mem pos ∧
      collectRound b alg hashCompute mem pos c =
        (.error .genericError, ((c.read pos sharedDataEntryHeaderSize).read (valueEntry b pos)
          sharedDataEntryHeaderSize).read (pos + sharedDataEntryHeaderSize) b.metadataSize)) ∨
    MetadataEntry b mem pos ∧ ValueClaim b mem pos ∧ PairSizes b mem pos ∧
      collectRound b alg hashCompute mem pos c =
        (((extendAt b mem pos).run alg hashCompute c.slots).1.map fun _ => pairEnd b mem pos,
          ((c.readPair b mem pos).extend alg hashCompute (extendAt b mem pos)).2) := by
  unfold collectRound
  by_cases hm : MetadataEntry b mem pos
  · rw [if_neg (not_not_intro hm)]
    by_cases hv : ValueClaim b mem pos
    · rw [if_neg (not_not_intro hv)]
      by_cases hs : PairSizes b mem pos
      · have hrun : ((c.readPair b mem pos).extend alg hashCompute (extendAt b mem pos)).1 =
            ((extendAt b mem pos).run alg hashCompute c.slots).1 := rfl
        refine .inr (.inr (.inr ⟨hm, hv, hs, ?_⟩))
        rw [if_neg (not_not_intro hs), ← hrun]
        show (match (c.readPair b mem pos).extend alg hashCompute (extendAt b mem pos) with
          | (.error e, c) => ((.error e, c) : Except Error Nat × Collected)
          | (.ok (), c) => (.ok (pairEnd b mem pos), c)) = _
        generalize (c.readPair b mem pos).extend alg hashCompute (extendAt b mem pos) = r
        obtain ⟨_ | _, c'⟩ := r <;> rfl
      · exact .inr (.inr (.inl ⟨hm, hv, hs, if_pos hs⟩))
    · exact .inr (.inl ⟨hm, hv, if_pos hv⟩)
  · exact .inl ⟨hm, if_pos hm⟩

/-- Where there is no fault, a round whose entries are no pair fails. -/
theorem collectRound_of_not_isPair (hf : ¬ Faulty b mem stop pos) (hp : ¬ IsPair b mem stop pos) :
    ∃ c', collectRound b alg hashCompute mem pos c = (.error .genericError, c') ∧
      ReadsOnly stop c c' := by
  have h₁ : pos + sharedDataEntryHeaderSize ≤ stop := not_lt.mp fun h => hf (.inl h)
  have h₂ : MetadataEntry b mem pos → valueEntry b pos + sharedDataEntryHeaderSize ≤ stop :=
    fun hm => not_lt.mp fun h => hf (.inr ⟨hm, .inl h⟩)
  have hread := (ReadsOnly.refl c).read h₁
  obtain ⟨_, hr⟩ | ⟨hm, _, hr⟩ | ⟨hm, _, _, hr⟩ | ⟨hm, hv, hs, _⟩ :=
    collectRound_cases b alg hashCompute mem pos c
  · exact ⟨_, hr, hread⟩
  · exact ⟨_, hr, hread.read (h₂ hm)⟩
  · have h₃ := h₂ hm
    unfold valueEntry at h₃
    exact ⟨_, hr, (hread.read (h₂ hm)).read (by omega)⟩
  · have hrest := fun h => hf (.inr ⟨hm, .inr ⟨hv, hs, h⟩⟩)
    simp only [imp_false, not_or, not_lt, not_not, not_le] at hrest
    exact absurd ⟨hrest.1, hm, hv, hs, hrest.2.1, hrest.2.2⟩ hp

theorem collectRound_of_isPair (hp : IsPair b mem stop pos) :
    collectRound b alg hashCompute mem pos c =
      (((extendAt b mem pos).run alg hashCompute c.slots).1.map fun _ => pairEnd b mem pos,
        { c.readPair b mem pos with
          slots := ((extendAt b mem pos).run alg hashCompute c.slots).2
          calls := c.calls ++ [extendAt b mem pos] }) := by
  obtain ⟨hm, _⟩ | ⟨_, hv, _⟩ | ⟨_, _, hs, _⟩ | ⟨_, _, _, hr⟩ :=
    collectRound_cases b alg hashCompute mem pos c
  · exact absurd hp.metadata hm
  · exact absurd hp.value hv
  · exact absurd hp.sizes hs
  · exact hr

theorem readPair_readsOnly (hp : IsPair b mem stop pos) : ReadsOnly stop c (c.readPair b mem pos) := by
  have hend := hp.complete
  unfold pairEnd at hend
  have h₁ : valueEntry b pos = pos + (sharedDataEntryHeaderSize + b.metadataSize) := rfl
  refine ((((ReadsOnly.refl c).read ?_).read ?_).read ?_).read ?_ <;> omega

theorem pos_lt_pairEnd (b : BootStatus) (mem : Memory) (pos : Nat) : pos < pairEnd b mem pos := by
  unfold pairEnd valueEntry sharedDataEntryHeaderSize
  omega

/-! ## The loop -/

/-- The reads and the extends are only added to. -/
structure Extends (c c' : Collected) : Prop where
  reads : c.reads <+: c'.reads
  calls : c.calls <+: c'.calls

theorem Extends.trans {c₁ c₂ c₃ : Collected} (h : Extends c₁ c₂) (h' : Extends c₂ c₃) :
    Extends c₁ c₃ := ⟨h.reads.trans h'.reads, h.calls.trans h'.calls⟩

theorem Collected.read_extends (pos len : Nat) (c : Collected) : Extends c (c.read pos len) :=
  ⟨List.prefix_append _ _, List.prefix_rfl⟩

theorem Collected.readPair_extends : Extends c (c.readPair b mem pos) :=
  (((c.read_extends _ _).trans (read_extends _ _ _)).trans (read_extends _ _ _)).trans
    (read_extends _ _ _)

theorem collectRound_extends : Extends c (collectRound b alg hashCompute mem pos c).2 := by
  have h₁ := c.read_extends pos sharedDataEntryHeaderSize
  have h₂ := h₁.trans (Collected.read_extends (valueEntry b pos) sharedDataEntryHeaderSize _)
  obtain ⟨_, hr⟩ | ⟨_, _, hr⟩ | ⟨_, _, _, hr⟩ | ⟨_, _, _, hr⟩ :=
    collectRound_cases b alg hashCompute mem pos c
  · exact hr ▸ h₁
  · exact hr ▸ h₂
  · exact hr ▸ h₂.trans (Collected.read_extends _ _ _)
  · have hpair : Extends c (c.readPair b mem pos) := Collected.readPair_extends
    rw [hr]
    exact ⟨hpair.reads, hpair.calls.trans (List.prefix_append _ _)⟩

/-- A round that does not fail takes a pair of entries. -/
theorem collectRound_ok {pos' : Nat} {c' : Collected}
    (h : collectRound b alg hashCompute mem pos c = (.ok pos', c')) : pos' = pairEnd b mem pos := by
  obtain ⟨_, hr⟩ | ⟨_, _, hr⟩ | ⟨_, _, _, hr⟩ | ⟨_, _, _, hr⟩ :=
    collectRound_cases b alg hashCompute mem pos c
  · cases hr.symm.trans h
  · cases hr.symm.trans h
  · cases hr.symm.trans h
  · obtain ⟨hr, _⟩ := Prod.mk.inj (hr.symm.trans h)
    generalize ((extendAt b mem pos).run alg hashCompute c.slots).1 = status at hr
    cases status with
    | error e => cases hr
    | ok =>
      injection hr with hr
      exact hr.symm

theorem collectLoop_extends {r : Reply × Collected}
    (h : collectLoop b alg hashCompute mem n pos stop status c = some r) : Extends c r.2 := by
  induction n generalizing pos status c with
  | zero =>
    unfold collectLoop at h
    split_ifs at h
    cases h
    exact ⟨List.prefix_rfl, List.prefix_rfl⟩
  | succ n ih =>
    unfold collectLoop at h
    split_ifs at h
    · have hround : Extends c (collectRound b alg hashCompute mem pos c).2 := collectRound_extends
      generalize collectRound b alg hashCompute mem pos c = r at h hround
      obtain ⟨_ | _, c'⟩ := r
      · cases h
        exact hround
      · exact hround.trans (ih h)
    · cases h
      exact ⟨List.prefix_rfl, List.prefix_rfl⟩

theorem collectLoop_returns (hn : stop - pos ≤ n) :
    (collectLoop b alg hashCompute mem n pos stop status c).isSome = true := by
  induction n generalizing pos status c with
  | zero =>
    unfold collectLoop
    rw [if_neg (by omega)]
    rfl
  | succ n ih =>
    unfold collectLoop
    split_ifs
    · cases hr : collectRound b alg hashCompute mem pos c with
      | mk r c' =>
        cases r with
        | error e => rfl
        | ok pos' =>
          have hpos' := collectRound_ok hr
          have hlt := pos_lt_pairEnd b mem pos
          exact ih (by omega)
    · rfl

/-! ## Sections without a fault -/

theorem Pairs.le {es : List ExtendCall} {pos' : Nat} (h : Pairs b mem stop pos es pos') : pos ≤ pos' := by
  induction h with
  | nil pos => exact le_rfl
  | @cons pos pos' es _ _ ih => exact (pos_lt_pairEnd b mem pos).le.trans ih

theorem runExtends_cons_ok {e : ExtendCall} {es : List ExtendCall} {slots' : Slots}
    (h : e.run alg hashCompute slots = (.ok (), slots')) :
    runExtends alg hashCompute (e :: es) slots = runExtends alg hashCompute es slots' := by
  conv_lhs => rw [runExtends, h]

theorem runExtends_cons_error {e : ExtendCall} {es : List ExtendCall} {slots' : Slots} {err : Error}
    (h : e.run alg hashCompute slots = (.error err, slots')) :
    runExtends alg hashCompute (e :: es) slots = (.error err, slots') := by
  rw [runExtends, h]

/-- What the loop does from `pos` on: the promises of the parser, for the rest of the section. -/
structure ParsesFrom (b : BootStatus) (alg : HashAlg)
    (hashCompute : List UInt8 → Except Error (List UInt8)) (mem : Memory) (pos stop : Nat)
    (c : Collected) (r : Reply × Collected) : Prop where
  within : ∀ pos' len, (pos', len) ∈ r.2.reads → (pos', len) ∈ c.reads ∨ pos' + len ≤ stop
  index_lt : ∀ e ∈ r.2.calls, e ∈ c.calls ∨ e.index < numOfMeasurementSlots
  success_iff : r.1 = .ok () ↔ ∃ es, Pairs b mem stop pos es stop ∧
    (runExtends alg hashCompute es c.slots).1 = .ok ()
  state : r.1 = .ok () → ∀ es, Pairs b mem stop pos es stop →
    r.2.slots = (runExtends alg hashCompute es c.slots).2
  malformed : ∀ es pos', Pairs b mem stop pos es pos' → pos' < stop → ¬ IsPair b mem stop pos' →
    ∃ es', es' <+: es ∧ r.2.calls = c.calls ++ es'

/-- At the end of the section. -/
theorem parsesFrom_stop : ParsesFrom b alg hashCompute mem stop stop c (.ok (), c) where
  within _ _ := .inl
  index_lt _ := .inl
  success_iff := iff_of_true rfl ⟨[], .nil stop, rfl⟩
  state _ es hes := by
    cases hes with
    | nil => rfl
    | cons pair rest => exact absurd rest.le (Nat.not_le_of_lt (pos_lt_pairEnd b mem stop))
  malformed es pos' hes hlt := absurd hes.le (Nat.not_le_of_lt hlt)

/-- Where no pair begins. -/
theorem parsesFrom_fails {e : Error} {c' : Collected} (hp : ¬ IsPair b mem stop pos) (hlt : pos < stop)
    (hc : ReadsOnly stop c c') : ParsesFrom b alg hashCompute mem pos stop c (.error e, c') where
  within := hc.within
  index_lt e he := .inl (hc.calls ▸ he)
  success_iff := by
    refine iff_of_false nofun fun ⟨es, hes, _⟩ => ?_
    cases hes with
    | nil => exact Nat.lt_irrefl _ hlt
    | cons pair rest => exact hp pair
  state h := nomatch h
  malformed es pos' hes _ _ := ⟨[], List.nil_prefix, hc.calls.trans (List.append_nil _).symm⟩

section
variable {c' : Collected} {slots' : Slots}

theorem mem_calls_of_pair (hp : IsPair b mem stop pos) {e : ExtendCall}
    (he : e ∈ c.calls ++ [extendAt b mem pos]) : e ∈ c.calls ∨ e.index < numOfMeasurementSlots := by
  rcases List.mem_append.mp he with he | he
  · exact .inl he
  · obtain rfl := List.mem_singleton.mp he
    exact .inr hp.slot_lt

/-- A pair whose extend fails. -/
theorem parsesFrom_error {e : Error} (hp : IsPair b mem stop pos) (hc : ReadsOnly stop c c')
    (hrun : (extendAt b mem pos).run alg hashCompute c.slots = (.error e, slots')) :
    ParsesFrom b alg hashCompute mem pos stop c
      (.error e, { c' with slots := slots', calls := c.calls ++ [extendAt b mem pos] }) where
  within := hc.within
  index_lt e he := mem_calls_of_pair hp he
  success_iff := by
    refine iff_of_false nofun fun ⟨es, hes, hok⟩ => ?_
    cases hes with
    | nil => exact absurd hp.complete (Nat.not_le_of_lt (pos_lt_pairEnd b mem _))
    | cons pair rest =>
      rw [runExtends_cons_error hrun] at hok
      cases hok
  state h := nomatch h
  malformed es pos' hes _ hno := by
    cases hes with
    | nil => exact absurd hp hno
    | cons pair rest => exact ⟨_, List.prefix_append [extendAt b mem pos] _, rfl⟩

/-- A pair whose extend succeeds, and what follows it. -/
theorem ParsesFrom.pair {r : Reply × Collected} (hp : IsPair b mem stop pos)
    (hc : ReadsOnly stop c c')
    (hrun : (extendAt b mem pos).run alg hashCompute c.slots = (.ok (), slots'))
    (h : ParsesFrom b alg hashCompute mem (pairEnd b mem pos) stop
      { c' with slots := slots', calls := c.calls ++ [extendAt b mem pos] } r) :
    ParsesFrom b alg hashCompute mem pos stop c r where
  within pos' len hm := by
    rcases h.within pos' len hm with hm | hle
    · exact hc.within pos' len hm
    · exact .inr hle
  index_lt e he := by
    rcases h.index_lt e he with he | hlt
    · exact mem_calls_of_pair hp he
    · exact .inr hlt
  success_iff := by
    rw [h.success_iff]
    constructor
    · rintro ⟨es, hes, hok⟩
      exact ⟨_, .cons hp hes, (congrArg Prod.fst (runExtends_cons_ok hrun)).trans hok⟩
    · rintro ⟨es, hes, hok⟩
      cases hes with
      | nil => exact absurd hp.complete (Nat.not_le_of_lt (pos_lt_pairEnd b mem _))
      | cons pair rest =>
        rw [runExtends_cons_ok hrun] at hok
        exact ⟨_, rest, hok⟩
  state hok es hes := by
    cases hes with
    | nil => exact absurd hp.complete (Nat.not_le_of_lt (pos_lt_pairEnd b mem _))
    | cons pair rest =>
      rw [runExtends_cons_ok hrun]
      exact h.state hok _ rest
  malformed es pos' hes hlt hno := by
    cases hes with
    | nil => exact absurd hp hno
    | cons pair rest =>
      obtain ⟨es', hpre, hcalls⟩ := h.malformed _ pos' rest hlt hno
      refine ⟨extendAt b mem pos :: es', (List.prefix_cons_inj _).mpr hpre, ?_⟩
      rw [hcalls, List.append_assoc]
      rfl

end

theorem collectLoop_parses {r : Reply × Collected}
    (ht : ¬ Trouble b mem stop alg hashCompute pos c.slots)
    (hpos : pos < stop ∨ pos = stop ∧ status = .ok ())
    (hr : collectLoop b alg hashCompute mem n pos stop status c = some r) :
    ParsesFrom b alg hashCompute mem pos stop c r := by
  induction n generalizing pos status c with
  | zero =>
    unfold collectLoop at hr
    split_ifs at hr with hlt
    obtain ⟨rfl, rfl⟩ := hpos.resolve_left hlt
    cases hr
    exact parsesFrom_stop
  | succ n ih =>
    unfold collectLoop at hr
    split_ifs at hr with hlt
    · have hf : ¬ Faulty b mem stop pos := fun hf => ht (.here hlt hf)
      by_cases hp : IsPair b mem stop pos
      · have hread : ReadsOnly stop c (c.readPair b mem pos) := readPair_readsOnly hp
        rw [collectRound_of_isPair hp] at hr
        generalize hrun : (extendAt b mem pos).run alg hashCompute c.slots = result at hr
        obtain ⟨_ | _, slots'⟩ := result
        · cases hr
          exact parsesFrom_error hp hread hrun
        · have ht' : ¬ Trouble b mem stop alg hashCompute (pairEnd b mem pos) slots' :=
            fun h => ht (.later hp hrun h)
          have hnext : pairEnd b mem pos < stop ∨ pairEnd b mem pos = stop ∧
              (.ok () : Reply) = .ok () := hp.complete.lt_or_eq.imp_right fun h => ⟨h, rfl⟩
          exact .pair hp hread hrun (ih ht' hnext hr)
      · obtain ⟨c', hround, hc⟩ : ∃ c', collectRound b alg hashCompute mem pos c = _ ∧ _ :=
          collectRound_of_not_isPair hf hp
        rw [hround] at hr
        cases hr
        exact parsesFrom_fails hp hlt hc
    · obtain ⟨rfl, rfl⟩ := hpos.resolve_left hlt
      cases hr
      exact parsesFrom_stop

/-! ## Sections with a fault -/

theorem mem_read (pos len : Nat) (c : Collected) : (pos, len) ∈ (c.read pos len).reads :=
  List.mem_append_right _ (List.mem_singleton_self _)

theorem mem_readPair (b : BootStatus) (mem : Memory) (pos : Nat) (c : Collected) :
    (pos, sharedDataEntryHeaderSize) ∈ (c.readPair b mem pos).reads ∧
      (valueEntry b pos, sharedDataEntryHeaderSize) ∈ (c.readPair b mem pos).reads := by
  have h₁ := mem_read pos sharedDataEntryHeaderSize c
  have h₂ := mem_read (valueEntry b pos) sharedDataEntryHeaderSize
    (c.read pos sharedDataEntryHeaderSize)
  exact ⟨List.mem_append_left _ (List.mem_append_left _ (List.mem_append_left _ h₁)),
    List.mem_append_left _ (List.mem_append_left _ h₂)⟩

/-- The first header is always read. -/
theorem mem_collectRound_first : (pos, sharedDataEntryHeaderSize) ∈
    (collectRound b alg hashCompute mem pos c).2.reads := by
  have h₁ := mem_read pos sharedDataEntryHeaderSize c
  obtain ⟨_, hr⟩ | ⟨_, _, hr⟩ | ⟨_, _, _, hr⟩ | ⟨_, _, _, hr⟩ :=
    collectRound_cases b alg hashCompute mem pos c
  · exact hr ▸ h₁
  · exact hr ▸ List.mem_append_left _ h₁
  · exact hr ▸ List.mem_append_left _ (List.mem_append_left _ h₁)
  · rw [hr]
    exact (mem_readPair b mem pos c).1

/-- After a metadata entry, the next header is read. -/
theorem mem_collectRound_second (hm : MetadataEntry b mem pos) :
    (valueEntry b pos, sharedDataEntryHeaderSize) ∈
      (collectRound b alg hashCompute mem pos c).2.reads := by
  have h₂ := mem_read (valueEntry b pos) sharedDataEntryHeaderSize
    (c.read pos sharedDataEntryHeaderSize)
  obtain ⟨hno, _⟩ | ⟨_, _, hr⟩ | ⟨_, _, _, hr⟩ | ⟨_, _, _, hr⟩ :=
    collectRound_cases b alg hashCompute mem pos c
  · exact absurd hm hno
  · exact hr ▸ h₂
  · exact hr ▸ List.mem_append_left _ h₂
  · rw [hr]
    exact (mem_readPair b mem pos c).2

/-- A read past the end of the section, or an extend for entries that are no pair. -/
def Misread (stop : Nat) (c r : Collected) (pos : Nat) (b : BootStatus) (mem : Memory) : Prop :=
  (∃ pos' len, (pos', len) ∈ r.reads ∧ stop < pos' + len) ∨
    ¬ IsPair b mem stop pos ∧ c.calls ++ [extendAt b mem pos] <+: r.calls

theorem collectRound_faulty (hf : Faulty b mem stop pos) :
    Misread stop c (collectRound b alg hashCompute mem pos c).2 pos b mem := by
  obtain h₁ | ⟨hm, h₂ | ⟨hv, hs, hrest⟩⟩ := hf
  · exact .inl ⟨_, _, mem_collectRound_first, h₁⟩
  · exact .inl ⟨_, _, mem_collectRound_second hm, h₂⟩
  obtain ⟨hno, _⟩ | ⟨_, hno, _⟩ | ⟨_, _, hno, _⟩ | ⟨_, _, _, hr⟩ :=
    collectRound_cases b alg hashCompute mem pos c
  · exact absurd hm hno
  · exact absurd hv hno
  · exact absurd hs hno
  rw [hr]
  obtain h₃ | hslot | hslot := hrest
  · refine .inl ⟨_, _, mem_read (valueEntry b pos + sharedDataEntryHeaderSize) _ _, ?_⟩
    unfold pairEnd at h₃
    rwa [Nat.add_assoc]
  · exact .inr ⟨fun hp => hslot hp.slot_eq, List.prefix_rfl⟩
  · exact .inr ⟨fun hp => Nat.not_lt_of_le hslot hp.slot_lt, List.prefix_rfl⟩

theorem Misread.mono {r r' : Collected} (h : Misread stop c r pos b mem) (hr : Extends r r') :
    Misread stop c r' pos b mem := by
  obtain ⟨pos', len, hm, hlt⟩ | ⟨hno, hcalls⟩ := h
  · exact .inl ⟨pos', len, hr.reads.subset hm, hlt⟩
  · exact .inr ⟨hno, hcalls.trans hr.calls⟩

/-- The trouble shows in what the loop did. -/
theorem collectLoop_trouble {r : Reply × Collected}
    (ht : Trouble b mem stop alg hashCompute pos slots) (hc : c.slots = slots)
    (hr : collectLoop b alg hashCompute mem n pos stop status c = some r) :
    (∃ pos' len, (pos', len) ∈ r.2.reads ∧ stop < pos' + len) ∨
    ∃ es pos' e, Pairs b mem stop pos es pos' ∧ pos' < stop ∧ ¬ IsPair b mem stop pos' ∧
      c.calls ++ es ++ [e] <+: r.2.calls := by
  induction ht generalizing n status c with
  | @here pos slots entry faulty =>
    cases n with
    | zero =>
      unfold collectLoop at hr
      rw [if_pos entry] at hr
      cases hr
    | succ n =>
      have hmis : Misread stop c r.2 pos b mem := by
        have hround := @collectRound_faulty b alg hashCompute mem pos stop c faulty
        unfold collectLoop at hr
        rw [if_pos entry] at hr
        generalize collectRound b alg hashCompute mem pos c = result at hr hround
        obtain ⟨_ | _, c'⟩ := result
        · cases hr
          exact hround
        · exact hround.mono (collectLoop_extends hr)
      obtain hbad | ⟨hno, hcalls⟩ := hmis
      · exact .inl hbad
      · refine .inr ⟨[], pos, extendAt b mem pos, .nil pos, entry, hno, ?_⟩
        rw [List.append_nil]
        exact hcalls
  | @later pos slots slots' pair succeeds rest ih =>
    cases n with
    | zero =>
      unfold collectLoop at hr
      rw [if_pos ((pos_lt_pairEnd b mem pos).trans_le pair.complete)] at hr
      cases hr
    | succ n =>
      unfold collectLoop at hr
      rw [if_pos ((pos_lt_pairEnd b mem pos).trans_le pair.complete), collectRound_of_isPair pair, hc,
        succeeds] at hr
      obtain hbad | ⟨es, pos', e, hes, hlt, hno, hcalls⟩ := ih rfl hr
      · exact .inl hbad
      · refine .inr ⟨_, pos', e, .cons pair hes, hlt, hno, ?_⟩
        rw [List.append_cons c.calls]
        exact hcalls

/-! ## Which sections are parsed as promised -/

/-- Nothing is done, and the section does not ask for anything. -/
theorem parses_of_nothing (h : ∀ n, collectSharedMeasurements b alg hashCompute mem n slots =
      some (.error .genericError, ⟨slots, [], []⟩))
    (hno : ¬ SectionSucceeds b mem alg hashCompute slots) : Parses b mem alg hashCompute slots where
  returns := ⟨0, by rw [h]; rfl⟩
  within n status c hr pos len hm := by
    cases (h n).symm.trans hr
    exact absurd hm List.not_mem_nil
  index_lt n status c hr e he := by
    cases (h n).symm.trans hr
    exact absurd he List.not_mem_nil
  success_iff n status c hr := by
    cases (h n).symm.trans hr
    exact iff_of_false nofun hno
  state n c hr := nomatch (h n).symm.trans hr
  malformed n status c hr es pos _ _ _ := by
    cases (h n).symm.trans hr
    exact List.nil_prefix

/-- The parser does what it promises exactly when the section has a byte, and the entries that it
comes to are complete, and each pair of them is for one slot that exists. -/
theorem collectSharedMeasurements_parses_iff (b : BootStatus) (alg : HashAlg)
    (hashCompute : List UInt8 → Except Error (List UInt8)) (mem : Memory) (slots : Slots) :
    Parses b mem alg hashCompute slots ↔ (tlvMagic mem = b.tlvInfoMagic →
      tlvTotLen mem ≠ sharedDataHeaderSize ∧
        ¬ Trouble b mem (tlvTotLen mem) alg hashCompute sharedDataHeaderSize slots) := by
  by_cases hmagic : tlvMagic mem = b.tlvInfoMagic
  swap
  · exact iff_of_true (parses_of_nothing (fun n => if_pos hmagic) fun h => hmagic h.1)
      fun h => absurd h hmagic
  have heq : ∀ n, collectSharedMeasurements b alg hashCompute mem n slots =
      collectLoop b alg hashCompute mem n sharedDataHeaderSize (tlvTotLen mem)
        (.error .genericError) ⟨slots, [], []⟩ := fun n => if_neg (not_not_intro hmagic)
  constructor
  · intro hp _
    obtain ⟨n, hn⟩ := hp.returns
    obtain ⟨⟨status, c⟩, hr⟩ := Option.isSome_iff_exists.mp hn
    refine ⟨fun h4 => ?_, fun ht => ?_⟩
    · -- an empty section is refused
      have hsucc := (hp.success_iff n status c hr).mpr
        ⟨hmagic, [], by rw [h4]; exact .nil _, rfl⟩
      have hstop : ¬ sharedDataHeaderSize < tlvTotLen mem := by omega
      rw [heq] at hr
      cases n <;>
      · unfold collectLoop at hr
        rw [if_neg hstop] at hr
        cases hr
        cases hsucc
    · rw [heq] at hr
      obtain ⟨pos, len, hm, hlt⟩ | ⟨es, pos, e, hes, hlt, hno, hcalls⟩ := collectLoop_trouble ht rfl hr
      · exact absurd (hp.within n status c ((heq n).trans hr) pos len hm) (Nat.not_le_of_lt hlt)
      · have hle := hp.malformed n status c ((heq n).trans hr) es pos hes hlt hno
        have hlen := (hcalls.trans hle).length_le
        rw [List.nil_append, List.length_append, List.length_singleton] at hlen
        omega
  · intro h
    obtain ⟨hne, ht⟩ := h hmagic
    by_cases hlt : sharedDataHeaderSize < tlvTotLen mem
    swap
    · -- the length leaves no room for the header
      refine parses_of_nothing (fun n => ?_) fun ⟨_, es, hes, _⟩ => ?_
      · rw [heq]
        cases n <;> exact if_neg hlt
      · have hle := hes.le
        omega
    have hfrom : ∀ n r, collectSharedMeasurements b alg hashCompute mem n slots = some r →
        ParsesFrom b alg hashCompute mem sharedDataHeaderSize (tlvTotLen mem) ⟨slots, [], []⟩ r :=
      fun n r hr => collectLoop_parses ht (.inl hlt) ((heq n).symm.trans hr)
    refine ⟨⟨tlvTotLen mem, ?_⟩, fun n status c hr pos len hm => ?_, fun n status c hr e he => ?_,
      fun n status c hr => ?_, fun n c hr es hes => ?_, fun n status c hr es pos hes hp hno => ?_⟩
    · rw [heq]
      exact collectLoop_returns (Nat.sub_le _ _)
    · exact ((hfrom n _ hr).within pos len hm).resolve_left List.not_mem_nil
    · exact ((hfrom n _ hr).index_lt e he).resolve_left List.not_mem_nil
    · rw [(hfrom n _ hr).success_iff]
      exact (and_iff_right hmagic).symm
    · exact (hfrom n _ hr).state rfl es hes
    · obtain ⟨es', hpre, hcalls⟩ := (hfrom n _ hr).malformed es pos hes hp hno
      exact hcalls ▸ hpre

/-- Metadata of 108 bytes with its fields one after the other. -/
def packedBootStatus : BootStatus where
  tlvInfoMagic := 0x2016
  getMbsSlot tlvType := tlvType / 2 ^ 6 % 2 ^ 6
  getMbsClaim tlvType := tlvType % 2 ^ 6
  swMeasureMetadata := 0x0a
  swMeasureValue := 0x08
  swMeasureValueNonExtendable := 0x0b
  metadataSize := 108
  metadata bs := ⟨field bs 0 4, memcpy (zeros signerIdMaxSize) ((bs.drop 4).take signerIdMaxSize),
    field bs 68 4, (bs.drop 92).take versionMaxSize, (bs.drop 72).take swTypeMaxSize⟩
  getMbsSlot_lt _ := Nat.mod_lt _ (by decide)
  getMbsClaim_lt _ := Nat.mod_lt _ (by decide)
  measurementType_lt bs := field_lt bs 0 4
  signerId_length bs := by
    have hzeros : (zeros signerIdMaxSize).length = signerIdMaxSize := List.length_replicate
    exact (memcpy_length ((List.length_take_le _ _).trans_eq hzeros.symm)).trans hzeros
  swVersion_le bs := List.length_take_le _ _
  swType_le bs := List.length_take_le _ _

/-- A section of one byte, after its header. -/
def oneByteSection : Memory := fun pos => [0x16, 0x20, 5, 0].getD pos 0

/-- The header of an entry is read where only one byte is left. -/
theorem not_collectSharedMeasurements_parses : ¬ ∀ b mem alg hashCompute slots,
    Parses b mem alg hashCompute slots := by
  intro h
  have hp := h packedBootStatus oneByteSection .sha256 (fun _ => .error .genericError)
    initialiseAllMeasurements
  have hr : collectSharedMeasurements packedBootStatus .sha256 (fun _ => .error .genericError)
      oneByteSection 1 initialiseAllMeasurements =
        some (.error .genericError, ⟨initialiseAllMeasurements, [(4, 4)], []⟩) := rfl
  exact absurd (hp.within 1 _ _ hr 4 4 List.mem_cons_self) (by decide)

end MeasuredBoot.Service
