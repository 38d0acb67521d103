import TfmExtras.Vad.I2cSbcon

/-! Runs of transfers over the bus of `i2c_sbcon_drv.c`, as the slaves see them. -/

namespace Vad.I2cSbcon
open I2c

/-- The transfers that a client asks for. -/
inductive Transfer
  | transmit (addr : UInt16) (data : List UInt8) (xferPending : Bool)
  | receive (addr : UInt16) (data : Nat → UInt8) (len : Nat) (xferPending : Bool)

namespace Transfer

/-- The byte that the slaves compare with their address. -/
def addressByte : Transfer → UInt8
  | .transmit addr _ _ => addr.toUInt8
  | .receive addr _ _ _ => (addr ||| 1).toUInt8

/-- A transmission leaves the lowest bit of its address zero. -/
def Directed : Transfer → Prop
  | .transmit addr _ _ => addr.toUInt8 &&& 1 = 0
  | .receive _ _ _ _ => True

/-- The bytes of the caller's buffer; a transmission has none to fill. -/
abbrev Outcome := Error × Nat × Option (Nat → UInt8)

def overBus {δ : Type} (D : Device δ) (b : Bus δ) : Transfer → Outcome × Bus δ
  | .transmit addr data xferPending =>
    let r := i2cSbconMasterTransmit D addr data xferPending b
    ((r.1, r.2.1, none), r.2.2)
  | .receive addr data len xferPending =>
    let r := i2cSbconMasterReceive D addr data len xferPending b
    ((r.1, r.2.1, some r.2.2.1), r.2.2.2)

/-- What a transfer means to the peripheral that its address byte names. A reception behind an
address of ten bits takes one byte from it, and brings ones. -/
def serve {ρ : Type} (P : Peripheral ρ) (s : ρ) (x : Transfer) : Outcome × ρ :=
  match x with
  | .transmit addr data _ =>
    ((.none, data.length, none), (P.sentTo x.addressByte
      ((addressBytes x.addressByte addr).tail ++ data) s).state)
  | .receive addr data len _ =>
    if addr &&& i2c10bit = 0 then
      let r := P.readAt x.addressByte (max 1 len) s
      ((.none, max 1 len, some (store data 0 r.1)), r.2)
    else
      ((.none, max 1 len, some (store data 0 (List.replicate (max 1 len) 0xFF))),
        (P.readAt x.addressByte 1 s).2)

end Transfer

section
variable {n : Nat} {ρ : Type}

/-- Every address byte is answered by one slave at most. -/
def Assigned (P : Fin n → Peripheral ρ) (slaveAt : UInt8 → Fin n) : Prop :=
  ∀ a, ∀ j ≠ slaveAt a, ∀ s, (P j).select a s = none

def states (b : Bus (Fin n → Slave ρ)) : Fin n → ρ := fun j => (b.dev j).state

variable {P : Fin n → Peripheral ρ} {slaveAt : UInt8 → Fin n} (h : Assigned P slaveAt)
include h

/-- A transfer over the bus is served by the slave that its address byte names. -/
theorem Transfer.overBus_spec {b : Bus (Fin n → Slave ρ)} (hb : Ready (bank P) b) {x : Transfer}
    (hx : x.Directed) :
    let i := slaveAt x.addressByte
    let r := x.serve (P i) (states b i)
    (x.overBus (bank P) b).1 = r.1 ∧ Ready (bank P) (x.overBus (bank P) b).2 ∧
      states (x.overBus (bank P) b).2 = Function.update (states b) i r.2 := by
  cases x with
  | transmit addr data xferPending =>
    obtain ⟨b', heq, hready, hstates⟩ := i2cSbconMasterTransmit_spec hb addr hx data xferPending
      fun j hj => h addr.toUInt8 j hj _
    unfold Transfer.overBus
    dsimp only
    rw [heq]
    exact ⟨rfl, hready, hstates⟩
  | receive addr data len xferPending =>
    have hi : ∀ j ≠ slaveAt (addr ||| 1).toUInt8,
        (P j).select (addr ||| 1).toUInt8 (b.dev j).state = none := fun j hj => h _ j hj _
    unfold Transfer.overBus Transfer.serve
    by_cases h7 : addr &&& i2c10bit = 0
    · obtain ⟨b', heq, hready, hstates⟩ :=
        i2cSbconMasterReceive_spec hb addr h7 data len xferPending hi
      dsimp only
      rw [heq, if_pos h7]
      exact ⟨rfl, hready, hstates⟩
    · obtain ⟨b', heq, hready, hstates⟩ :=
        i2cSbconMasterReceive_tenBit hb addr h7 data len xferPending hi
      dsimp only
      rw [heq, if_neg h7]
      exact ⟨rfl, hready, hstates⟩

end

/-! ## Runs -/

def transfers {δ : Type} (D : Device δ) : List Transfer → Bus δ → List Transfer.Outcome × Bus δ
  | [], b => ([], b)
  | x :: xs, b =>
    let r := x.overBus D b
    let r' := transfers D xs r.2
    (r.1 :: r'.1, r'.2)

/-- The same run as messages to the peripherals. -/
def served {n : Nat} {ρ : Type} (P : Fin n → Peripheral ρ) (slaveAt : UInt8 → Fin n) :
    List Transfer → (Fin n → ρ) → List Transfer.Outcome × (Fin n → ρ)
  | [], s => ([], s)
  | x :: xs, s =>
    let i := slaveAt x.addressByte
    let r := x.serve (P i) (s i)
    let r' := served P slaveAt xs (Function.update s i r.2)
    (r.1 :: r'.1, r'.2)

theorem served_state {n : Nat} {ρ : Type} {P : Fin n → Peripheral ρ} {slaveAt : UInt8 → Fin n}
    (j : Fin n) (xs : List Transfer) : ∀ s : Fin n → ρ, (served P slaveAt xs s).2 j =
      (xs.filter fun x => slaveAt x.addressByte = j).foldl (fun t x => (x.serve (P j) t).2) (s j) := by
  induction xs with
  | nil => exact fun _ => rfl
  | cons x xs ih =>
    intro s
    refine (ih _).trans ?_
    rw [List.filter_cons]
    by_cases hj : slaveAt x.addressByte = j
    · subst hj
      rw [if_pos (decide_eq_true rfl), List.foldl_cons, Function.update_self]
    · rw [if_neg (by simpa using hj), Function.update_of_ne (Ne.symm hj)]

/-- However transfers to the slaves are mixed, with stops or repeated starts between them, each one
is served as if its slave were alone on the bus, and no transfer reaches another slave. -/
theorem transfers_refine {n : Nat} {ρ : Type} {P : Fin n → Peripheral ρ}
    {slaveAt : UInt8 → Fin n} (h : Assigned P slaveAt) (xs : List Transfer)
    (hxs : ∀ x ∈ xs, x.Directed) {b : Bus (Fin n → Slave ρ)} (hb : Ready (bank P) b) :
    (transfers (bank P) xs b).1 = (served P slaveAt xs (states b)).1 ∧
      ∀ j, states (transfers (bank P) xs b).2 j =
        (xs.filter fun x => slaveAt x.addressByte = j).foldl (fun t x => (x.serve (P j) t).2)
          (states b j) := by
  suffices hrun : (transfers (bank P) xs b).1 = (served P slaveAt xs (states b)).1 ∧
      states (transfers (bank P) xs b).2 = (served P slaveAt xs (states b)).2 by
    exact ⟨hrun.1, fun j => (congrFun hrun.2 j).trans (served_state j xs (states b))⟩
  induction xs generalizing b with
  | nil => exact ⟨rfl, rfl⟩
  | cons x xs ih =>
    obtain ⟨hx, hxs⟩ := List.forall_mem_cons.mp hxs
    obtain ⟨hout, hready, hstates⟩ := Transfer.overBus_spec h hb hx
    obtain ⟨hrest, hlast⟩ := ih hxs hready
    rw [hstates] at hrest hlast
    exact ⟨congrArg₂ List.cons hout hrest, hlast⟩

/-- A queue of bytes that answers to one address. -/
def queueAt (addr : UInt8) : Peripheral (List UInt8) where
  select a s := if a &&& 0xFE = addr then some s else none
  take v s := some (s ++ [v])
  give s := (s.headD 0, s.tail)

/-- Two queues; a message to each, with a repeated start, and a byte read back. -/
theorem transfers_refine_queues :
    let P : Fin 2 → Peripheral (List UInt8) := fun j => queueAt (if j = 0 then 0x96 else 0x40)
    let slaveAt : UInt8 → Fin 2 := fun a => if a &&& 0xFE = 0x96 then 0 else 1
    let xs : List Transfer := [.transmit 0x96 [1, 2] true, .transmit 0x40 [3] false,
      .receive 0x96 (fun _ => 0) 1 false]
    let b : Bus (Fin 2 → Slave (List UInt8)) := ⟨true, true, fun _ => .idle []⟩
    (transfers (bank P) xs b).1 = (served P slaveAt xs (states b)).1 ∧
      ∀ j, states (transfers (bank P) xs b).2 j =
        (xs.filter fun x => slaveAt x.addressByte = j).foldl (fun t x => (x.serve (P j) t).2)
          (states b j) := by
  intro P slaveAt xs b
  refine transfers_refine ?_ xs ?_ ⟨rfl, rfl⟩
  · intro a j hj s
    refine if_neg fun ha => hj ?_
    by_cases h0 : j = 0
    · rw [if_pos h0] at ha
      exact h0.trans (if_pos ha).symm
    · rw [if_neg h0] at ha
      have h1 : j = 1 := by omega
      exact h1.trans (if_neg fun h96 => absurd (h96.symm.trans ha) (by decide)).symm
  · intro x hx
    simp only [xs, List.mem_cons, List.not_mem_nil, or_false] at hx
    obtain rfl | rfl | rfl := hx
    · exact (by decide : (0x96 : UInt16).toUInt8 &&& 1 = 0)
    · exact (by decide : (0x40 : UInt16).toUInt8 &&& 1 = 0)
    · exact trivial

end Vad.I2cSbcon
