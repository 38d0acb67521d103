import TfmExtras.Lib.I2c

/-! The I2C master of `i2c_sbcon_drv.c`, which sets and clears the two lines from software. The
delays between the edges are left out. -/

namespace Vad.I2cSbcon
open I2c

/-! ## The lines -/

/-- `SDA` and `SCL`, as bits of the registers. -/
def sda : Nat := 1 <<< 1
def scl : Nat := 1 <<< 0

variable {δ : Type} (D : Device δ)

/-- `I2C_HIGH`: a write to the set register. -/
def i2cHigh (pin : Nat) (b : Bus δ) : Bus δ :=
  b.drive D (b.sda || pin.testBit 1) (b.scl || pin.testBit 0)

/-- `I2C_LOW`: a write to the clear register. -/
def i2cLow (pin : Nat) (b : Bus δ) : Bus δ :=
  b.drive D (b.sda && !pin.testBit 1) (b.scl && !pin.testBit 0)

/-- The status register shows the levels of the lines. -/
def status (b : Bus δ) : Nat := (b.level D).toNat <<< 1 ||| b.scl.toNat

/-- `I2C_GET`. -/
def i2cGet (pin : Nat) (b : Bus δ) : UInt8 := UInt8.ofNat (status D b >>> (pin - 1) &&& 1)

/-! ## Bits and bytes -/

def i2cTxBit (bit : UInt8) (b : Bus δ) : Bus δ :=
  let b := if bit ≠ 0 then i2cHigh D sda b else i2cLow D sda b
  let b := i2cHigh D scl b
  i2cLow D scl b

def i2cRxBit (b : Bus δ) : UInt8 × Bus δ :=
  let b := i2cHigh D sda b
  let b := i2cHigh D scl b
  let bit := i2cGet D sda b
  (bit, i2cLow D scl b)

def i2cSbconTxStart (b : Bus δ) : Bus δ :=
  let b := i2cHigh D (scl ||| sda) b
  let b := i2cLow D sda b
  i2cLow D scl b

def i2cSbconTxStop (b : Bus δ) : Bus δ :=
  let b := i2cLow D sda b
  let b := i2cHigh D scl b
  i2cHigh D sda b

def i2cSbconTxAck (ack : UInt8) (b : Bus δ) : Bus δ := i2cTxBit D ack b

/-- The loop of `i2c_sbcon_tx_byte`. -/
def i2cSbconTxByteLoop : Nat → UInt8 → Bus δ → Bus δ
  | 0, _, b => b
  | n + 1, data, b => i2cSbconTxByteLoop n (data <<< 1) (i2cTxBit D (data &&& 0x80) b)

def i2cSbconTxByte (data : UInt8) (b : Bus δ) : Bus δ := i2cSbconTxByteLoop D 8 data b

def i2cSbconRxAck (b : Bus δ) : UInt8 × Bus δ := i2cRxBit D b

/-- The loop of `i2c_sbcon_rx_byte`. -/
def i2cSbconRxByteLoop : Nat → UInt8 → Bus δ → UInt8 × Bus δ
  | 0, data, b => (data, b)
  | n + 1, data, b =>
    let data := data <<< 1
    let r := i2cRxBit D b
    i2cSbconRxByteLoop n (data ||| r.1) r.2

def i2cSbconRxByte (b : Bus δ) : UInt8 × Bus δ := i2cSbconRxByteLoop D 8 0 b

/-! ## Transfers -/

/-- `enum i2c_sbcon_error_t`. -/
inductive Error
  | none | invalidArg | notInit
deriving DecidableEq, Repr

/-- `I2C_10BIT`. -/
def i2c10bit : UInt16 := 0x0400

/-- A byte, and the bit of its acknowledgement, which is not looked at. -/
def sendByte (data : UInt8) (b : Bus δ) : Bus δ := (i2cSbconRxAck D (i2cSbconTxByte D data b)).2

/-- The loop of `i2c_sbcon_master_transmit` over the data. -/
def masterTransmitLoop : List UInt8 → Nat → Bus δ → Nat × Bus δ
  | [], nbrBytesWrite, b => (nbrBytesWrite, b)
  | v :: vs, nbrBytesWrite, b => masterTransmitLoop vs (nbrBytesWrite + 1) (sendByte D v b)

/-- The result, the number of bytes written and the bus. -/
def i2cSbconMasterTransmit (addr : UInt16) (data : List UInt8) (xferPending : Bool) (b : Bus δ) :
    Error × Nat × Bus δ :=
  let b := i2cSbconTxStart D b
  let b := sendByte D addr.toUInt8 b
  let b := if addr &&& i2c10bit ≠ 0 then sendByte D (addr >>> 8).toUInt8 b else b
  let r := masterTransmitLoop D data 0 b
  let b := if xferPending then r.2 else i2cSbconTxStop D r.2
  (.none, r.1, b)

/-- The loop of `i2c_sbcon_master_receive` for the bytes behind the first one. -/
def masterReceiveLoop : Nat → Nat → (Nat → UInt8) → Bus δ → Nat × (Nat → UInt8) × Bus δ
  | 0, nbrBytesRead, data, b => (nbrBytesRead, data, b)
  | n + 1, nbrBytesRead, data, b =>
    let b := i2cSbconTxAck D 0 b
    let r := i2cSbconRxByte D b
    masterReceiveLoop n (nbrBytesRead + 1) (Function.update data nbrBytesRead r.1) r.2

/-- The result, the number of bytes read, the buffer `data` and the bus. -/
def i2cSbconMasterReceive (addr : UInt16) (data : Nat → UInt8) (len : Nat) (xferPending : Bool)
    (b : Bus δ) : Error × Nat × (Nat → UInt8) × Bus δ :=
  let b := i2cSbconTxStart D b
  let b := sendByte D (addr ||| 0x1).toUInt8 b
  let b := if addr &&& i2c10bit ≠ 0 then sendByte D (addr >>> 8).toUInt8 b else b
  let r := i2cSbconRxByte D b
  let r := masterReceiveLoop D (len - 1) 1 (Function.update data 0 r.1) r.2
  let b := i2cSbconTxAck D 1 r.2.2
  let b := if xferPending then b else i2cSbconTxStop D b
  (.none, r.1, r.2.1, b)

/-! ## The device -/

/-- `struct i2c_sbcon_dev_data_t`. -/
structure DevData where
  freqUs : UInt32
  sysClk : UInt32
  state : UInt32

/-- `I2C_SBCON_INITIALIZED`. -/
def initialized : UInt32 := (1 : UInt32) <<< 0

def i2cSbconInit (defaultFreqHz sysClk : UInt32) (data : DevData) : Error × DevData :=
  if sysClk = 0 then (.invalidArg, data)
  else (.none, { data with sysClk, freqUs := sysClk / defaultFreqHz, state := initialized })

def i2cSbconSetFreq (i2cHz : UInt32) (data : DevData) : Error × DevData :=
  if data.sysClk < i2cHz ∨ i2cHz = 0 then (.invalidArg, data)
  else if data.state &&& initialized = 0 then (.notInit, data)
  else (.none, { data with freqUs := data.sysClk / i2cHz })

def i2cSbconGetFreq (data : DevData) : UInt32 :=
  if data.state &&& initialized = 0 then 0 else data.freqUs * data.sysClk

/-- The loop of `i2c_sbcon_reset`. -/
def resetLoop : Nat → Bus δ → Bus δ
  | 0, b => b
  | n + 1, b => resetLoop n (i2cHigh D scl (i2cLow D scl b))

def i2cSbconReset (data : DevData) (b : Bus δ) : Error × Bus δ :=
  if data.state &&& initialized = 0 then (.notInit, b)
  else
    let b := i2cLow D sda b
    let b := resetLoop D 9 b
    (.none, i2cHigh D sda b)

/-! ## The driver as pulses -/

section
variable (b : Bus δ)

@[simp] theorem i2cHigh_sda : i2cHigh D sda b = b.drive D true b.scl :=
  congrArg₂ (b.drive D) (Bool.or_true _) (Bool.or_false _)

@[simp] theorem i2cHigh_scl : i2cHigh D scl b = b.drive D b.sda true :=
  congrArg₂ (b.drive D) (Bool.or_false _) (Bool.or_true _)

@[simp] theorem i2cHigh_both : i2cHigh D (scl ||| sda) b = b.drive D true true :=
  congrArg₂ (b.drive D) (Bool.or_true _) (Bool.or_true _)

@[simp] theorem i2cLow_sda : i2cLow D sda b = b.drive D false b.scl :=
  congrArg₂ (b.drive D) (Bool.and_false _) (Bool.and_true _)

@[simp] theorem i2cLow_scl : i2cLow D scl b = b.drive D b.sda false :=
  congrArg₂ (b.drive D) (Bool.and_true _) (Bool.and_false _)

theorem i2cGet_sda : i2cGet D sda b = if b.level D then 1 else 0 := by
  unfold i2cGet status
  cases b.level D <;> cases b.scl <;> rfl

end

variable {D} {d : δ} {line : Bool}

theorem i2cTxBit_eq (bit : UInt8) :
    i2cTxBit D bit ⟨line, false, d⟩ = ⟨bit != 0, false, pulse D (bit != 0) d⟩ := by
  unfold i2cTxBit
  by_cases h : bit = 0
  · subst h
    simp [pulse]
  · rw [if_pos h, bne_iff_ne.mpr h]
    simp [pulse]

theorem i2cRxBit_eq : i2cRxBit D ⟨line, false, d⟩ =
    (if sampled D true d then 1 else 0, ⟨true, false, pulse D true d⟩) := by
  unfold i2cRxBit
  simp only [i2cHigh_sda, i2cHigh_scl, i2cLow_scl, i2cGet_sda, Bus.drive_low, Bus.drive_rise,
    Bus.drive_fall, Bus.level_rise]
  rfl

theorem txByteLoop_eq (n : Nat) : ∀ {v : UInt8} {line : Bool} {d : δ},
    i2cSbconTxByteLoop D n v ⟨line, false, d⟩ =
      ⟨(bitsFrom n v).getLastD line, false, pulses D (bitsFrom n v) d⟩ := by
  induction n with
  | zero => exact rfl
  | succ n ih =>
    intro v line d
    unfold i2cSbconTxByteLoop
    rw [i2cTxBit_eq, ih, bitsFrom, List.getLastD_cons]
    rfl

theorem rxByteLoop_eq (n : Nat) : ∀ {v : UInt8} {line : Bool} {d : δ},
    i2cSbconRxByteLoop D n v ⟨line, false, d⟩ =
      (shiftIn v (levels D (List.replicate n true) d),
        ⟨(List.replicate n true).getLastD line, false, pulses D (List.replicate n true) d⟩) := by
  induction n with
  | zero => exact rfl
  | succ n ih =>
    intro v line d
    unfold i2cSbconRxByteLoop
    dsimp only
    rw [i2cRxBit_eq, ih, List.replicate_succ, List.getLastD_cons]
    rfl

/-- The levels of eight pulses in which the master releases the data line. -/
def byteRead (D : Device δ) (d : δ) : UInt8 := byteOf (levels D (List.replicate 8 true) d)

theorem rxByte_eq : i2cSbconRxByte D ⟨line, false, d⟩ =
    (byteRead D d, ⟨true, false, pulses D (List.replicate 8 true) d⟩) := rxByteLoop_eq 8

theorem sendByte_eq (v : UInt8) : sendByte D v ⟨line, false, d⟩ =
    ⟨true, false, pulses D (bitsOf v ++ [true]) d⟩ := by
  unfold sendByte i2cSbconRxAck i2cSbconTxByte
  rw [txByteLoop_eq, i2cRxBit_eq, pulses_append]
  rfl

theorem masterTransmitLoop_eq (vs : List UInt8) : ∀ {k : Nat} {d : δ},
    masterTransmitLoop D vs k ⟨true, false, d⟩ =
      (k + vs.length, ⟨true, false, pulses D (frames vs) d⟩) := by
  induction vs with
  | nil => exact rfl
  | cons v vs ih =>
    intro k d
    unfold masterTransmitLoop
    rw [sendByte_eq, ih, frames_cons, pulses_append, List.length_cons]
    exact congrArg₂ Prod.mk (by omega) rfl

/-- The bytes that a transfer begins with. -/
def addressBytes (first : UInt8) (addr : UInt16) : List UInt8 :=
  first :: if addr &&& i2c10bit ≠ 0 then [(addr >>> 8).toUInt8] else []

theorem sendAddress_eq (first : UInt8) (addr : UInt16) :
    (let b := sendByte D first ⟨line, false, d⟩
      if addr &&& i2c10bit ≠ 0 then sendByte D (addr >>> 8).toUInt8 b else b) =
      ⟨true, false, pulses D (frames (addressBytes first addr)) d⟩ := by
  unfold addressBytes
  dsimp only
  rw [sendByte_eq, frames_cons, pulses_append]
  split_ifs
  · rw [sendByte_eq, frames_cons, pulses_append]
    rfl
  · rfl

/-- The bus between two transfers: the data line is high. -/
structure Ready (D : Device δ) (b : Bus δ) : Prop where
  sda : b.sda = true
  released : D.releases b.dev = true

/-- The devices once a transfer is started. -/
def started (D : Device δ) (b : Bus δ) : δ :=
  D.react .fall (D.react .start (if b.scl then b.dev else D.react (.rise true) b.dev))

theorem Ready.txStart_eq {b : Bus δ} (h : Ready D b) :
    i2cSbconTxStart D b = ⟨false, false, started D b⟩ := by
  obtain ⟨s, k, d⟩ := b
  obtain ⟨rfl, hd⟩ := h
  have hd : D.releases d = true := hd
  unfold i2cSbconTxStart started
  cases k with
  | true => simp [Bus.drive_same, Bus.drive_start hd]
  | false =>
    have hs : sampled D true d = true := hd
    simp [hs, Bus.drive_start ((D.stable true d).trans hd)]

/-- The devices once a transfer is stopped. -/
def stopped (D : Device δ) (d : δ) : δ :=
  if D.releases d then D.react .stop (D.react (.rise false) d) else D.react (.rise false) d

theorem txStop_eq : i2cSbconTxStop D ⟨line, false, d⟩ = ⟨true, true, stopped D d⟩ := by
  unfold i2cSbconTxStop stopped
  have hs : sampled D false d = false := rfl
  simp [hs, Bus.drive_stop, D.stable]

/-- Bytes that are stored from index `k` on. -/
def store (data : Nat → UInt8) (k : Nat) (vs : List UInt8) : Nat → UInt8 := fun j =>
  if j < k then data j else vs.getD (j - k) (data j)

theorem store_cons (data : Nat → UInt8) (k : Nat) (v : UInt8) (vs : List UInt8) :
    store (Function.update data k v) (k + 1) vs = store data k (v :: vs) := by
  funext j
  unfold store
  obtain hlt | rfl | hgt := Nat.lt_trichotomy j k
  · rw [if_pos hlt, if_pos (Nat.lt_succ_of_lt hlt), Function.update_of_ne hlt.ne]
  · rw [if_pos (Nat.lt_succ_self j), if_neg (lt_irrefl j), Function.update_self, Nat.sub_self,
      List.getD_cons_zero]
  · rw [if_neg (by omega), if_neg (by omega), Function.update_of_ne hgt.ne',
      show j - k = j - (k + 1) + 1 by omega, List.getD_cons_succ]

/-- Bytes that the master reads, each behind an acknowledgement. -/
def readBytes (D : Device δ) : Nat → δ → List UInt8 × δ
  | 0, d => ([], d)
  | m + 1, d =>
    let d := pulse D false d
    let r := readBytes D m (pulses D (List.replicate 8 true) d)
    (byteRead D d :: r.1, r.2)

theorem masterReceiveLoop_eq (m : Nat) : ∀ {k : Nat} {data : Nat → UInt8} {d : δ},
    masterReceiveLoop D m k data ⟨true, false, d⟩ =
      (k + m, store data k (readBytes D m d).1, ⟨true, false, (readBytes D m d).2⟩) := by
  induction m with
  | zero =>
    intro k data d
    have hstore : store data k [] = data := by
      funext j
      exact (if_congr Iff.rfl rfl List.getD_nil).trans (ite_self _)
    show (k, data, _) = (k, store data k [], _)
    rw [hstore]
    rfl
  | succ m ih =>
    intro k data d
    unfold masterReceiveLoop i2cSbconTxAck
    dsimp only
    rw [i2cTxBit_eq, rxByte_eq, ih, store_cons, Nat.add_right_comm]
    rfl

/-- The bytes that the master reads behind an address. -/
def readAll (D : Device δ) (m : Nat) (d : δ) : List UInt8 × δ :=
  let r := readBytes D m (pulses D (List.replicate 8 true) d)
  (byteRead D d :: r.1, r.2)

/-- The end of a transfer. -/
def ended (D : Device δ) (xferPending : Bool) (d : δ) : Bus δ :=
  if xferPending then ⟨true, false, d⟩ else ⟨true, true, stopped D d⟩

theorem Ready.masterTransmit_eq {b : Bus δ} (h : Ready D b) (addr : UInt16) (data : List UInt8)
    (xferPending : Bool) : i2cSbconMasterTransmit D addr data xferPending b =
      (.none, data.length, ended D xferPending
        (pulses D (frames (addressBytes addr.toUInt8 addr ++ data)) (started D b))) := by
  have haddr := @sendAddress_eq δ D (started D b) false addr.toUInt8 addr
  dsimp only at haddr
  unfold i2cSbconMasterTransmit
  dsimp only
  rw [h.txStart_eq, haddr, masterTransmitLoop_eq, Nat.zero_add, txStop_eq]
  unfold ended frames
  rw [List.flatMap_append, pulses_append]

theorem Ready.masterReceive_eq {b : Bus δ} (h : Ready D b) (addr : UInt16) (data : Nat → UInt8)
    (len : Nat) (xferPending : Bool) {r : List UInt8 × δ}
    (hr : readAll D (len - 1) (pulses D (frames (addressBytes (addr ||| 1).toUInt8 addr))
      (started D b)) = r) : i2cSbconMasterReceive D addr data len xferPending b =
      (.none, max 1 len, store data 0 r.1, ended D xferPending (pulse D true r.2)) := by
  have haddr := @sendAddress_eq δ D (started D b) false (addr ||| 1).toUInt8 addr
  dsimp only at haddr
  unfold i2cSbconMasterReceive i2cSbconTxAck
  dsimp only
  rw [h.txStart_eq, haddr, rxByte_eq]
  dsimp only
  rw [masterReceiveLoop_eq, i2cTxBit_eq, store_cons, txStop_eq, ← hr,
    show 1 + (len - 1) = max 1 len by omega]
  rfl

/-! ## Transfers to slaves -/

section
variable {ρ : Type} {n : Nat} {P : Fin n → Peripheral ρ} {i : Fin n} {s : Fin n → ρ}

theorem started_bank (b : Bus (Fin n → Slave ρ)) :
    started (bank P) b = fun j => .taking true [] (b.dev j).state := by
  unfold started
  rw [react_start]
  funext j
  cases b.scl with
  | true => rfl
  | false => exact congrArg _ (Slave.state_rise (P j) true (b.dev j))

theorem ended_only {x : Slave ρ} (hx : x.releases = true) (xferPending : Bool) :
    Ready (bank P) (ended (bank P) xferPending (only i x s)) ∧
      (fun j => ((ended (bank P) xferPending (only i x s)).dev j).state) =
        Function.update s i x.state := by
  have hrel : (bank P).releases (only i x s) = true := releases_only.trans hx
  cases xferPending with
  | true => exact ⟨⟨rfl, hrel⟩, state_only⟩
  | false =>
    have hstop : stopped (bank P) (only i x s) = only i (.idle x.state) s := by
      unfold stopped
      rw [if_pos hrel, react_only (by simp), react_only (by simp)]
      exact congrArg (fun t => only i (.idle t) s) (Slave.state_rise (P i) false x)
    refine ⟨⟨rfl, ?_⟩, ?_⟩
    · show (bank P).releases (stopped (bank P) (only i x s)) = true
      rw [hstop]
      exact releases_only
    · show (fun j => (stopped (bank P) (only i x s) j).state) = _
      rw [hstop]
      exact state_only

/-- A transmission reaches the slave that answers to the address byte, with all the bytes in order,
and no other slave. -/
theorem i2cSbconMasterTransmit_spec {b : Bus (Fin n → Slave ρ)} (h : Ready (bank P) b)
    (addr : UInt16) (hw : addr.toUInt8 &&& 1 = 0) (data : List UInt8) (xferPending : Bool)
    (hi : ∀ j ≠ i, (P j).select addr.toUInt8 (b.dev j).state = none) :
    ∃ b', i2cSbconMasterTransmit (bank P) addr data xferPending b = (.none, data.length, b') ∧
      Ready (bank P) b' ∧
      (fun j => (b'.dev j).state) = Function.update (fun j => (b.dev j).state) i
        ((P i).sentTo addr.toUInt8 ((addressBytes addr.toUInt8 addr).tail ++ data)
          (b.dev i).state).state := by
  have hpulses : pulses (bank P) (frames (addressBytes addr.toUInt8 addr ++ data))
      (started (bank P) b) = only i ((P i).sentTo addr.toUInt8
        ((addressBytes addr.toUInt8 addr).tail ++ data) (b.dev i).state) fun j => (b.dev j).state := by
    rw [started_bank]
    unfold addressBytes
    rw [List.cons_append, frames_cons, pulses_append, pulses_address hi, pulses_only,
      List.tail_cons, Peripheral.pulses_addressed _ hw]
  refine ⟨_, h.masterTransmit_eq addr data xferPending, ?_⟩
  rw [hpulses]
  exact ended_only ((P i).sentTo_releases _ _ _) xferPending

/-- From a slave that gives bytes the master reads them. -/
theorem readBytes_giving (m : Nat) : ∀ t : ρ,
    readBytes (bank P) m (only i (.awaiting false t) s) =
      (((P i).gives m t).1, only i (.awaiting false ((P i).gives m t).2) s) := by
  induction m with
  | zero => exact fun _ => rfl
  | succ m ih =>
    intro t
    obtain ⟨hbyte, hafter⟩ := (P i).read_giveByte t
    unfold readBytes byteRead
    dsimp only
    rw [pulse_only, Peripheral.pulse_awaiting, if_neg Bool.false_ne_true, levels_only, pulses_only,
      hbyte, hafter, ih]
    rfl

/-- From a slave that waits for a start it reads ones. -/
theorem readBytes_idle (m : Nat) (t : ρ) : readBytes (bank P) m (only i (.idle t) s) =
    (List.replicate m 0xFF, only i (.idle t) s) := by
  induction m with
  | zero => rfl
  | succ m ih =>
    unfold readBytes byteRead
    dsimp only
    have hpulse : pulse (P i).slave false (.idle t) = .idle t := (P i).pulses_idle [false] t
    rw [pulse_only, hpulse, levels_only, pulses_only, (P i).pulses_idle, (P i).levels_idle, ih]
    rfl

/-- A slave that was sent an address byte for reading. -/
theorem readAll_addressed {a : UInt8} (ha : a &&& 1 ≠ 0) (m : Nat) (t : ρ) :
    ∃ x : Slave ρ, readAll (bank P) m (only i ((P i).addressed a t) s) =
        (((P i).readAt a (m + 1) t).1, only i x s) ∧
      (pulse (P i).slave true x).releases = true ∧
      (pulse (P i).slave true x).state = ((P i).readAt a (m + 1) t).2 := by
  unfold Peripheral.addressed Peripheral.readAt readAll byteRead
  cases (P i).select a t with
  | none =>
    refine ⟨.idle t, ?_, rfl, rfl⟩
    rw [pulses_only, levels_only, (P i).pulses_idle, (P i).levels_idle, readBytes_idle]
    rfl
  | some t =>
    obtain ⟨hbyte, hafter⟩ := (P i).read_giveByte t
    refine ⟨.awaiting false ((P i).gives (m + 1) t).2, ?_, rfl, rfl⟩
    dsimp only
    rw [if_pos (bne_iff_ne.mpr ha), pulses_only, levels_only, hbyte, hafter, readBytes_giving]
    rfl

theorem readAddress_odd (addr : UInt16) : (addr ||| 1).toUInt8 &&& 1 ≠ 0 := by
  have h : (addr ||| 1).toUInt8 &&& 1 = 1 := by
    refine UInt8.toBitVec_inj.mp ?_
    simp only [UInt8.toBitVec_and, UInt16.toUInt8_or, UInt8.toBitVec_or]
    ext k hk
    simp only [BitVec.getElem_and, BitVec.getElem_or]
    exact (Bool.and_or_distrib_right _ _ _).trans (by simp)
  rw [h]
  decide

/-- A reception brings the bytes that the slave gives which answers to the address byte, or ones
when there is none. One byte is read and stored even when none is asked for. -/
theorem i2cSbconMasterReceive_spec {b : Bus (Fin n → Slave ρ)} (h : Ready (bank P) b)
    (addr : UInt16) (h7 : addr &&& i2c10bit = 0) (data : Nat → UInt8) (len : Nat)
    (xferPending : Bool)
    (hi : ∀ j ≠ i, (P j).select (addr ||| 1).toUInt8 (b.dev j).state = none) :
    ∃ b', i2cSbconMasterReceive (bank P) addr data len xferPending b = (.none, max 1 len,
        store data 0 ((P i).readAt (addr ||| 1).toUInt8 (max 1 len) (b.dev i).state).1, b') ∧
      Ready (bank P) b' ∧
      (fun j => (b'.dev j).state) = Function.update (fun j => (b.dev j).state) i
        ((P i).readAt (addr ||| 1).toUInt8 (max 1 len) (b.dev i).state).2 := by
  have hread := readAddress_odd addr
  have hlen : len - 1 + 1 = max 1 len := by omega
  have haddr : addressBytes (addr ||| 1).toUInt8 addr = [(addr ||| 1).toUInt8] := by
    unfold addressBytes
    rw [if_neg (not_not.mpr h7)]
  have hpulses : pulses (bank P) (frames (addressBytes (addr ||| 1).toUInt8 addr))
      (started (bank P) b) = only i ((P i).addressed (addr ||| 1).toUInt8 (b.dev i).state)
        fun j => (b.dev j).state := by
    rw [haddr, started_bank, frames_cons, pulses_append, pulses_address hi]
    rfl
  obtain ⟨x, hall, hx, hstate⟩ := readAll_addressed (P := P) (i := i)
    (s := fun j => (b.dev j).state) hread (len - 1) (b.dev i).state
  rw [← hpulses] at hall
  refine ⟨_, (h.masterReceive_eq addr data len xferPending hall).trans (by rw [hlen]), ?_⟩
  rw [← hlen, ← hstate, pulse_only]
  exact ended_only hx xferPending

/-- Behind an address of ten bits only ones are read: the second address byte is sent while the
slave already gives its first byte, and its acknowledgement ends the transfer for the slave. -/
theorem i2cSbconMasterReceive_tenBit {b : Bus (Fin n → Slave ρ)} (h : Ready (bank P) b)
    (addr : UInt16) (h10 : addr &&& i2c10bit ≠ 0) (data : Nat → UInt8) (len : Nat)
    (xferPending : Bool)
    (hi : ∀ j ≠ i, (P j).select (addr ||| 1).toUInt8 (b.dev j).state = none) :
    ∃ b', i2cSbconMasterReceive (bank P) addr data len xferPending b = (.none, max 1 len,
        store data 0 (List.replicate (max 1 len) 0xFF), b') ∧
      Ready (bank P) b' ∧
      (fun j => (b'.dev j).state) = Function.update (fun j => (b.dev j).state) i
        ((P i).readAt (addr ||| 1).toUInt8 1 (b.dev i).state).2 := by
  have hlen : len - 1 + 1 = max 1 len := by omega
  have haddr : addressBytes (addr ||| 1).toUInt8 addr =
      [(addr ||| 1).toUInt8, (addr >>> 8).toUInt8] := by
    unfold addressBytes
    rw [if_pos h10]
  have hslave : pulses (P i).slave (frames [(addr >>> 8).toUInt8])
      ((P i).addressed (addr ||| 1).toUInt8 (b.dev i).state) =
        .idle ((P i).readAt (addr ||| 1).toUInt8 1 (b.dev i).state).2 := by
    unfold Peripheral.addressed Peripheral.readAt
    cases (P i).select (addr ||| 1).toUInt8 (b.dev i).state with
    | none => exact (P i).pulses_idle _ _
    | some t =>
      have hne : bitsOf ((P i).give t).1 ≠ [] :=
        List.ne_nil_of_length_pos (by rw [bitsOf_length]; decide)
      dsimp only
      rw [if_pos (bne_iff_ne.mpr (readAddress_odd addr)), frames_cons, List.append_assoc,
        pulses_append]
      unfold Peripheral.giveByte
      rw [(P i).pulses_giving _ ((bitsOf_length _).trans (bitsOf_length _).symm) hne]
      rfl
  have hpulses : pulses (bank P) (frames (addressBytes (addr ||| 1).toUInt8 addr))
      (started (bank P) b) = only i (.idle ((P i).readAt (addr ||| 1).toUInt8 1 (b.dev i).state).2)
        fun j => (b.dev j).state := by
    rw [haddr, started_bank, frames_cons, pulses_append, pulses_address hi, pulses_only, hslave]
  have hall (t : ρ) : readAll (bank P) (len - 1) (only i (.idle t) fun j => (b.dev j).state) =
      (List.replicate (len - 1 + 1) 0xFF, only i (.idle t) fun j => (b.dev j).state) := by
    unfold readAll byteRead
    rw [pulses_only, levels_only, (P i).pulses_idle, (P i).levels_idle, readBytes_idle]
    rfl
  refine ⟨_, (h.masterReceive_eq addr data len xferPending
    ((congrArg _ hpulses).trans (hall _))).trans (by rw [hlen]), ?_⟩
  rw [pulse_only]
  exact ended_only rfl xferPending

end

/-! ## Resets -/

theorem resetLoop_eq (m : Nat) : ∀ {d : δ},
    resetLoop D m ⟨false, true, D.react (.rise false) d⟩ =
      ⟨false, true, D.react (.rise false) (pulses D (List.replicate m false) d)⟩ := by
  induction m with
  | zero => exact rfl
  | succ m ih =>
    intro d
    unfold resetLoop
    rw [i2cLow_scl, Bus.drive_fall, i2cHigh_scl, Bus.drive_rise]
    exact ih

/-- A reset pulses the clock nine times with the data line low. The stop behind it reaches the
devices when they release the data line then. -/
theorem i2cSbconReset_eq {data : DevData} (hdata : data.state &&& initialized ≠ 0) :
    i2cSbconReset D data ⟨line, false, d⟩ =
      (.none, ⟨true, true, stopped D (pulses D (List.replicate 8 false) d)⟩) := by
  have hfirst : resetLoop D 9 ⟨false, false, d⟩ =
      ⟨false, true, D.react (.rise false) (pulses D (List.replicate 8 false) d)⟩ := by
    unfold resetLoop
    rw [i2cLow_scl, Bus.drive_low, i2cHigh_scl, Bus.drive_rise]
    exact resetLoop_eq 8
  unfold i2cSbconReset stopped
  rw [if_neg hdata]
  dsimp only
  rw [i2cLow_sda, Bus.drive_low, hfirst, i2cHigh_sda, Bus.drive_stop, D.stable]

/-- A reset in the middle of a transfer frees the bus, unless the slave holds the data line low after
the zeros that it was sent: it then takes them for an acknowledgement, or for a byte that it
acknowledges. -/
theorem i2cSbconReset_frees_iff {ρ : Type} {n : Nat} {P : Fin n → Peripheral ρ} {i : Fin n}
    {s : Fin n → ρ} {x : Slave ρ} {data : DevData} (hdata : data.state &&& initialized ≠ 0)
    (hx : Peripheral.Proper x) (line : Bool) :
    (∃ t : Fin n → ρ, (i2cSbconReset (bank P) data ⟨line, false, only i x s⟩).2 =
      ⟨true, true, fun j => .idle (t j)⟩) ↔ (P i).Frees x := by
  rw [i2cSbconReset_eq hdata, pulses_only, ← (P i).releases_zeros hx]
  unfold stopped
  rw [releases_only]
  generalize pulses (P i).slave (List.replicate 8 false) x = y
  cases hy : y.releases with
  | true =>
    refine iff_of_true ⟨Function.update s i y.state, ?_⟩ rfl
    rw [if_pos rfl, react_only (by simp), react_only (by simp), ← only_idle]
    exact congrArg (fun t => Bus.mk true true (only i (.idle t) s))
      (Slave.state_rise (P i) false y)
  | false =>
    refine iff_of_false ?_ Bool.false_ne_true
    rintro ⟨t, ht⟩
    rw [if_neg Bool.false_ne_true, react_only (by simp)] at ht
    have hi : only i ((P i).slave.react (.rise false) y) s i = .idle (t i) :=
      congrFun (congrArg Bus.dev ht) i
    unfold only at hi
    rw [Function.update_self] at hi
    have hrel : (P i).slave.releases (.idle (t i)) = y.releases := hi ▸ (P i).slave.stable false y
    exact Bool.false_ne_true (hy.symm.trans hrel.symm)

/-- A slave that is cut off behind five bits of the byte 0x81. -/
theorem i2cSbconReset_frees_iff_giving :
    let P : Fin 1 → Peripheral Unit := fun _ =>
      { select := fun _ s => some s, take := fun _ s => some s, give := fun s => (0x81, s) }
    let x : Slave Unit := .giving [false, false, true] ()
    (∃ t : Fin 1 → Unit, (i2cSbconReset (bank P) ⟨1, 1, initialized⟩
      ⟨true, false, only 0 x fun _ => ()⟩).2 = ⟨true, true, fun j => .idle (t j)⟩) ↔
        (P 0).Frees x := by
  intro P x
  have hx : Peripheral.Proper x := (by decide : 0 < 3 ∧ 3 ≤ 8)
  exact i2cSbconReset_frees_iff (by decide) hx true

end Vad.I2cSbcon
