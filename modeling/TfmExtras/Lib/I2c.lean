import Mathlib.Data.Fin.Basic
import Mathlib.Data.Fintype.Basic
import Mathlib.Data.List.GetD
import Mathlib.Logic.Function.Basic

/-! A two-wire bus with open drains: a line is high when nobody pulls it low. Devices see the edges
of the lines; the bytes of a transfer come to them bit by bit. -/

namespace I2c

/-! ## The lines -/

/-- What a device sees on the bus. The data line counts on the rising edge of the clock; it changes
while the clock is high at the start and the stop of a transfer only. -/
inductive Edge
  | start
  | stop
  | rise (level : Bool)
  | fall

/-- A device on the bus: whether it releases the data line, and how an edge moves it. It does not
change the line while the clock is high, and it does not hold the clock. -/
structure Device (δ : Type) where
  releases : δ → Bool
  react : Edge → δ → δ
  stable : ∀ level d, releases (react (.rise level) d) = releases d

/-- The bus: what the master releases, and the devices. -/
structure Bus (δ : Type) where
  sda : Bool
  scl : Bool
  dev : δ

variable {δ : Type} (D : Device δ)

/-- The level of the data line. -/
def Bus.level (b : Bus δ) : Bool := b.sda && D.releases b.dev

/-- The master sets what it releases. -/
def Bus.drive (b : Bus δ) (sda scl : Bool) : Bus δ :=
  let level := sda && D.releases b.dev
  let dev := match b.scl, scl with
    | false, true => D.react (.rise level) b.dev
    | true, false => D.react .fall b.dev
    | true, true =>
      if level = b.level D then b.dev else D.react (if level then .stop else .start) b.dev
    | false, false => b.dev
  ⟨sda, scl, dev⟩

/-- The level that is sampled while the master holds the data line at a bit. -/
def sampled (sda : Bool) (d : δ) : Bool := sda && D.releases d

/-- The devices after a pulse of the clock, while the master holds the data line at a bit. -/
def pulse (sda : Bool) (d : δ) : δ := D.react .fall (D.react (.rise (sampled D sda d)) d)

/-- Pulses for bits, one after the other. -/
def pulses (bs : List Bool) (d : δ) : δ := bs.foldl (fun d b => pulse D b d) d

/-- The levels that are sampled in them. -/
def levels : List Bool → δ → List Bool
  | [], _ => []
  | b :: bs, d => sampled D b d :: levels bs (pulse D b d)

theorem pulses_append (bs bs' : List Bool) (d : δ) :
    pulses D (bs ++ bs') d = pulses D bs' (pulses D bs d) := List.foldl_append ..

theorem levels_append (bs bs' : List Bool) (d : δ) :
    levels D (bs ++ bs') d = levels D bs d ++ levels D bs' (pulses D bs d) := by
  induction bs generalizing d with
  | nil => rfl
  | cons b bs ih => exact congrArg (sampled D b d :: ·) (ih _)

section
variable {D} {line sda : Bool} {d : δ}

@[simp] theorem Bus.drive_low : Bus.drive D ⟨line, false, d⟩ sda false = ⟨sda, false, d⟩ := rfl

@[simp] theorem Bus.drive_rise : Bus.drive D ⟨line, false, d⟩ sda true =
    ⟨sda, true, D.react (.rise (sampled D sda d)) d⟩ := rfl

@[simp] theorem Bus.drive_fall : Bus.drive D ⟨line, true, d⟩ sda false =
    ⟨sda, false, D.react .fall d⟩ := rfl

theorem Bus.drive_same : Bus.drive D ⟨line, true, d⟩ line true = ⟨line, true, d⟩ :=
  congrArg (Bus.mk line true) (if_pos rfl)

theorem Bus.drive_start (h : D.releases d = true) :
    Bus.drive D ⟨true, true, d⟩ false true = ⟨false, true, D.react .start d⟩ := by
  unfold Bus.drive Bus.level
  simp [h]

/-- The master releases the data line: a stop, unless a device holds it low. -/
theorem Bus.drive_stop : Bus.drive D ⟨false, true, d⟩ true true =
    ⟨true, true, if D.releases d then D.react .stop d else d⟩ := by
  unfold Bus.drive Bus.level
  cases h : D.releases d <;> simp

theorem Bus.level_rise {l : Bool} : Bus.level D ⟨sda, true, D.react (.rise l) d⟩ = sampled D sda d :=
  congrArg (sda && ·) (D.stable l d)

end

/-! ## Bytes -/

/-- The first `n` bits of a byte, the highest one first. -/
def bitsFrom : Nat → UInt8 → List Bool
  | 0, _ => []
  | n + 1, v => (v &&& 0x80 != 0) :: bitsFrom n (v <<< 1)

def bitsOf (v : UInt8) : List Bool := bitsFrom 8 v

/-- A byte with further bits shifted in from below. -/
def shiftIn (v : UInt8) (bits : List Bool) : UInt8 :=
  bits.foldl (fun v b => v <<< 1 ||| (if b then 1 else 0)) v

def byteOf (bits : List Bool) : UInt8 := shiftIn 0 bits

theorem byteOf_even (bits : List Bool) : byteOf (bits ++ [false]) &&& 1 = 0 := by
  have h : ∀ v : UInt8, (v <<< 1 ||| 0) &&& 1 = 0 := fun v => by
    refine UInt8.toBitVec_inj.mp ?_
    simp only [UInt8.toBitVec_and, UInt8.toBitVec_or, UInt8.toBitVec_shiftLeft]
    ext k hk
    simp +contextual
  unfold byteOf shiftIn
  rw [List.foldl_append]
  exact h _

theorem bitsFrom_length (n : Nat) (v : UInt8) : (bitsFrom n v).length = n := by
  induction n generalizing v with
  | zero => rfl
  | succ n ih => exact congrArg (· + 1) (ih _)

theorem bitsOf_length (v : UInt8) : (bitsOf v).length = 8 := bitsFrom_length 8 v

theorem byteOf_bitsOf (v : UInt8) : byteOf (bitsOf v) = v := by
  have h : ∀ n : Fin 256, byteOf (bitsOf (UInt8.ofNat n.val)) = UInt8.ofNat n.val := by decide +kernel
  have hv := h ⟨v.toNat, v.toNat_lt⟩
  rwa [UInt8.ofNat_toNat] at hv

/-- Bytes on the bus, each with the pulse of its acknowledgement. -/
def frames (vs : List UInt8) : List Bool := vs.flatMap fun v => bitsOf v ++ [true]

theorem frames_cons (v : UInt8) (vs : List UInt8) :
    frames (v :: vs) = bitsOf v ++ [true] ++ frames vs := List.flatMap_cons

/-! ## Slaves -/

/-- A device as the bytes of a transfer show it. -/
structure Peripheral (ρ : Type) where
  /-- The state in which it takes part in a transfer, if it answers to the address byte. -/
  select : UInt8 → ρ → Option ρ
  /-- The state once it has taken a byte, if it acknowledges the byte. -/
  take : UInt8 → ρ → Option ρ
  /-- The byte that it gives, and the state after that. -/
  give : ρ → UInt8 × ρ

/-- Where a slave is in a transfer. -/
inductive Slave (ρ : Type)
  /-- It waits for a start. -/
  | idle (s : ρ)
  /-- It has taken some bits of a byte, of the address byte in the beginning. -/
  | taking (address : Bool) (bits : List Bool) (s : ρ)
  /-- It acknowledges a byte, after which it gives or takes bytes. -/
  | acking (reading : Bool) (s : ρ)
  /-- It still has some bits of a byte to give. -/
  | giving (bits : List Bool) (s : ρ)
  /-- It has given a byte, and samples whether it is acknowledged. -/
  | awaiting (acked : Bool) (s : ρ)

namespace Slave
variable {ρ : Type}

def state : Slave ρ → ρ
  | .idle s | .taking _ _ s | .acking _ s | .giving _ s | .awaiting _ s => s

/-- It pulls the data line low for an acknowledgement and for the zero bits that it gives. -/
def releases : Slave ρ → Bool
  | .acking _ _ => false
  | .giving (b :: _) _ => b
  | _ => true

end Slave

namespace Peripheral
variable {ρ : Type} (P : Peripheral ρ)

def giveByte (s : ρ) : Slave ρ := .giving (bitsOf (P.give s).1) (P.give s).2

/-- A byte is complete. -/
def takeByte (address : Bool) (v : UInt8) (s : ρ) : Slave ρ :=
  match if address then P.select v s else P.take v s with
  | some s => .acking (address && v &&& 1 != 0) s
  | none => .idle s

def onFall : Slave ρ → Slave ρ
  | .taking address bits s =>
    if bits.length = 8 then P.takeByte address (byteOf bits) s else .taking address bits s
  | .acking true s => P.giveByte s
  | .acking false s => .taking false [] s
  | .giving (_ :: b :: bits) s => .giving (b :: bits) s
  | .giving _ s => .awaiting false s
  | .awaiting true s => P.giveByte s
  | .awaiting false s => .idle s
  | .idle s => .idle s

def onRise (level : Bool) : Slave ρ → Slave ρ
  | .taking address bits s => .taking address (bits ++ [level]) s
  | .awaiting _ s => .awaiting (!level) s
  | x => x

/-- The peripheral on the lines of the bus. -/
def slave : Device (Slave ρ) where
  releases := Slave.releases
  react
    | .start, x => .taking true [] x.state
    | .stop, x => .idle x.state
    | .rise level, x => onRise level x
    | .fall, x => P.onFall x
  stable level x := by cases x <;> rfl

end Peripheral

/-! ## Whole bytes -/

namespace Peripheral
variable {ρ : Type} (P : Peripheral ρ) {address : Bool} {s : ρ}

theorem pulses_idle (bs : List Bool) (s : ρ) : pulses P.slave bs (.idle s) = .idle s := by
  induction bs with
  | nil => rfl
  | cons b bs ih => exact ih

theorem levels_idle (bs : List Bool) (s : ρ) : levels P.slave bs (.idle s) = bs := by
  induction bs with
  | nil => rfl
  | cons b bs ih => exact congrArg₂ List.cons (Bool.and_true b) ih

theorem pulse_taking {bits : List Bool} (b : Bool) : pulse P.slave b (.taking address bits s) =
    if bits.length = 7 then P.takeByte address (byteOf (bits ++ [b])) s
    else .taking address (bits ++ [b]) s := by
  have hlevel : sampled P.slave b (.taking address bits s) = b := Bool.and_true b
  have hlen : (bits ++ [b]).length = bits.length + 1 := List.length_append
  unfold pulse
  rw [hlevel]
  show (if (bits ++ [b]).length = 8 then P.takeByte address (byteOf (bits ++ [b])) s
    else .taking address (bits ++ [b]) s) = _
  rw [hlen]
  exact if_congr (by omega) rfl rfl

/-- A slave that listens takes a byte with its eighth pulse. -/
theorem pulses_taking (bs : List Bool) : ∀ {bits : List Bool}, bits.length + bs.length = 8 →
    bs ≠ [] → pulses P.slave bs (.taking address bits s) =
      P.takeByte address (byteOf (bits ++ bs)) s := by
  induction bs with
  | nil => exact fun _ h => absurd rfl h
  | cons b bs ih =>
    intro bits hlen _
    rw [List.length_cons] at hlen
    show pulses P.slave bs (pulse P.slave b _) = _
    rw [P.pulse_taking]
    by_cases hbs : bs = []
    · subst hbs
      exact if_pos (by simpa using hlen)
    · have hpos := List.length_pos_of_ne_nil hbs
      rw [if_neg (by omega), ih (by rw [List.length_append, List.length_singleton]; omega) hbs,
        List.append_assoc, List.singleton_append]

/-- A slave that listens takes the byte, and shows in the pulse behind whether it does so. -/
theorem pulses_byte (v : UInt8) : pulses P.slave (bitsOf v ++ [true]) (.taking address [] s) =
    match if address then P.select v s else P.take v s with
    | some s => if address && v &&& 1 != 0 then P.giveByte s else .taking false [] s
    | none => .idle s := by
  have hne : bitsOf v ≠ [] := List.ne_nil_of_length_pos (by rw [bitsOf_length]; decide)
  rw [pulses_append, P.pulses_taking (bitsOf v) (by rw [bitsOf_length]; rfl) hne, List.nil_append,
    byteOf_bitsOf]
  unfold takeByte
  cases if address then P.select v s else P.take v s with
  | none => rfl
  | some s => cases hr : address && v &&& 1 != 0 <;> rfl

/-- Where a slave is once it was sent bytes. -/
def taken : List UInt8 → ρ → Slave ρ
  | [], s => .taking false [] s
  | v :: vs, s =>
    match P.take v s with
    | some s => taken vs s
    | none => .idle s

theorem pulses_frames (vs : List UInt8) :
    ∀ s, pulses P.slave (frames vs) (.taking false [] s) = P.taken vs s := by
  induction vs with
  | nil => exact fun _ => rfl
  | cons v vs ih =>
    intro s
    rw [frames_cons, pulses_append, P.pulses_byte]
    show pulses _ (frames vs) (match P.take v s with | some s => _ | none => _) = _
    unfold taken
    cases P.take v s with
    | none => exact P.pulses_idle _ s
    | some s => exact ih s

theorem taken_releases (vs : List UInt8) : ∀ s, (P.taken vs s).releases = true := by
  induction vs with
  | nil => exact fun _ => rfl
  | cons v vs ih =>
    intro s
    unfold taken
    cases P.take v s with
    | none => rfl
    | some s => exact ih s

/-- While a slave gives a byte, the bits of the master do not reach it. -/
theorem pulses_giving (bits : List Bool) : ∀ {ms : List Bool}, ms.length = bits.length →
    bits ≠ [] → pulses P.slave ms (.giving bits s) = .awaiting false s := by
  induction bits with
  | nil => exact fun _ h => absurd rfl h
  | cons b bits ih =>
    intro ms hlen _
    obtain ⟨m, ms, rfl⟩ := List.exists_cons_of_length_eq_add_one hlen
    cases bits with
    | nil =>
      obtain rfl := List.length_eq_zero_iff.mp (Nat.succ.inj hlen)
      rfl
    | cons b' bits => exact ih (Nat.succ.inj hlen) (List.cons_ne_nil _ _)

theorem levels_giving (bits : List Bool) :
    levels P.slave (List.replicate bits.length true) (.giving bits s) = bits := by
  induction bits with
  | nil => rfl
  | cons b bits ih =>
    refine congrArg₂ List.cons (Bool.true_and b) ?_
    cases bits with
    | nil => rfl
    | cons b' bits => exact ih

/-- The bytes that a slave gives one after the other. -/
def gives : Nat → ρ → List UInt8 × ρ
  | 0, s => ([], s)
  | n + 1, s => ((P.give s).1 :: (gives n (P.give s).2).1, (gives n (P.give s).2).2)

theorem gives_length (n : Nat) : ∀ s, (P.gives n s).1.length = n := by
  induction n with
  | zero => exact fun _ => rfl
  | succ n ih => exact fun s => congrArg (· + 1) (ih _)

/-- A byte that the master samples while a slave gives it. -/
theorem read_giveByte (s : ρ) :
    byteOf (levels P.slave (List.replicate 8 true) (P.giveByte s)) = (P.give s).1 ∧
      pulses P.slave (List.replicate 8 true) (P.giveByte s) = .awaiting false (P.give s).2 := by
  have hlen := bitsOf_length (P.give s).1
  have hne : bitsOf (P.give s).1 ≠ [] := List.ne_nil_of_length_pos (by rw [hlen]; decide)
  constructor
  · have h := P.levels_giving (s := (P.give s).2) (bitsOf (P.give s).1)
    rw [hlen] at h
    exact (congrArg byteOf h).trans (byteOf_bitsOf _)
  · exact P.pulses_giving _ (List.length_replicate.trans hlen.symm) hne

theorem pulse_awaiting (b : Bool) :
    pulse P.slave b (.awaiting false s) = if b then .idle s else P.giveByte s := by
  cases b <;> rfl

/-- Where a slave is once it was sent an address byte. -/
def addressed (a : UInt8) (s : ρ) : Slave ρ :=
  match P.select a s with
  | some s => if a &&& 1 != 0 then P.giveByte s else .taking false [] s
  | none => .idle s

/-- Where it is once bytes have followed, if the address byte lets the master write. -/
def sentTo (a : UInt8) (vs : List UInt8) (s : ρ) : Slave ρ :=
  match P.select a s with
  | some s => P.taken vs s
  | none => .idle s

theorem pulses_addressed {a : UInt8} (ha : a &&& 1 = 0) (vs : List UInt8) (s : ρ) :
    pulses P.slave (frames vs) (P.addressed a s) = P.sentTo a vs s := by
  have hread : ¬ (a &&& 1 != 0) = true := by
    rw [ha]
    decide
  unfold addressed sentTo
  cases P.select a s with
  | none => exact P.pulses_idle _ s
  | some s =>
    dsimp only
    rw [if_neg hread, P.pulses_frames]

theorem sentTo_releases (a : UInt8) (vs : List UInt8) (s : ρ) :
    (P.sentTo a vs s).releases = true := by
  unfold sentTo
  cases P.select a s with
  | none => rfl
  | some s => exact P.taken_releases vs s

/-- What the master reads from a peripheral at an address byte, and what is left of it. Nobody
pulls the data line when it does not answer. -/
def readAt (a : UInt8) (n : Nat) (s : ρ) : List UInt8 × ρ :=
  match P.select a s with
  | some s => P.gives n s
  | none => (List.replicate n 0xFF, s)

/-! ## Zero bits in the middle of a transfer -/

/-- The states of a slave while the clock is low. -/
def Proper : Slave ρ → Prop
  | .taking _ bits _ => bits.length < 8
  | .giving bits _ => 0 < bits.length ∧ bits.length ≤ 8
  | _ => True

/-- After eight zero bits the slave releases the data line. -/
def Frees : Slave ρ → Prop
  | .idle _ => True
  | .taking address bits s => bits ≠ [] ∨ (if address then P.select 0 s else P.take 0 s) = none
  | .acking reading s => reading = true → (bitsOf (P.give s).1).getD 7 false = true
  | .giving bits s => bits.length = 8 ∨ (bitsOf (P.give s).1).getD (7 - bits.length) false = true
  | .awaiting _ s => (bitsOf (P.give s).1).getD 7 false = true

theorem pulses_giving_drop (ms : List Bool) : ∀ {bits : List Bool}, ms.length < bits.length →
    pulses P.slave ms (.giving bits s) = .giving (bits.drop ms.length) s := by
  induction ms with
  | nil => exact fun _ => rfl
  | cons m ms ih =>
    intro bits hlt
    match bits, hlt with
    | b :: b' :: bits, hlt => exact ih (Nat.lt_of_succ_lt_succ hlt)
    | [_], hlt => exact absurd hlt (by simp)
    | [], hlt => exact absurd hlt (Nat.not_lt_zero _)

theorem pulses_taking_lt (ms : List Bool) : ∀ {bits : List Bool}, bits.length + ms.length < 8 →
    pulses P.slave ms (.taking address bits s) = .taking address (bits ++ ms) s := by
  induction ms with
  | nil => exact fun _ => by rw [List.append_nil]; rfl
  | cons m ms ih =>
    intro bits hlt
    rw [List.length_cons] at hlt
    show pulses P.slave ms (pulse P.slave m _) = _
    rw [P.pulse_taking, if_neg (by omega), ih (by rw [List.length_append, List.length_singleton]; omega),
      List.append_assoc, List.singleton_append]

/-- A slave that begins to give a byte, after some pulses. -/
theorem releases_giveByte {k : Nat} (hk : k < 8) (s : ρ) :
    (pulses P.slave (List.replicate k false) (P.giveByte s)).releases =
      (bitsOf (P.give s).1).getD k false := by
  have hlen := bitsOf_length (P.give s).1
  unfold giveByte
  rw [P.pulses_giving_drop _ (by rw [List.length_replicate, hlen]; exact hk), List.length_replicate,
    List.drop_eq_getElem_cons (by rw [hlen]; exact hk), List.getD_eq_getElem _ _ (by rw [hlen]; exact hk)]
  rfl

theorem releases_taking_zeros {k : Nat} (hk : k < 8) (s : ρ) :
    (pulses P.slave (List.replicate k false) (.taking false [] s)).releases = true := by
  rw [P.pulses_taking_lt _ (by rw [List.length_replicate]; simpa using hk)]
  rfl

theorem releases_zeros {x : Slave ρ} (hx : Proper x) :
    (pulses P.slave (List.replicate 8 false) x).releases = true ↔ P.Frees x := by
  have hsplit (m k : Nat) : List.replicate (m + k) false =
      List.replicate m false ++ List.replicate k false := List.replicate_append_replicate.symm
  cases x with
  | idle s =>
    rw [P.pulses_idle]
    exact iff_of_true rfl trivial
  | awaiting acked s =>
    have hfirst : pulses P.slave (List.replicate 1 false) (.awaiting acked s) = P.giveByte s := rfl
    rw [hsplit 1 7, pulses_append, hfirst, P.releases_giveByte (by decide)]
    exact Iff.rfl
  | acking reading s =>
    rw [hsplit 1 7, pulses_append]
    cases reading with
    | true =>
      have hfirst : pulses P.slave (List.replicate 1 false) (.acking true s) = P.giveByte s := rfl
      rw [hfirst, P.releases_giveByte (by decide)]
      exact ⟨fun h _ => h, fun h => h rfl⟩
    | false =>
      have hfirst : pulses P.slave (List.replicate 1 false) (.acking false s) = .taking false [] s :=
        rfl
      rw [hfirst]
      exact iff_of_true (P.releases_taking_zeros (by decide) s) fun h => absurd h Bool.false_ne_true
  | giving bits s =>
    obtain ⟨hpos, hle⟩ := hx
    have hne : bits ≠ [] := List.ne_nil_of_length_pos hpos
    rw [show 8 = bits.length + (8 - bits.length) by omega, hsplit, pulses_append,
      P.pulses_giving _ List.length_replicate hne]
    by_cases h8 : bits.length = 8
    · rw [h8]
      exact iff_of_true rfl (.inl h8)
    · rw [show 8 - bits.length = 1 + (7 - bits.length) by omega, hsplit, pulses_append]
      refine (iff_of_eq (congrArg (· = true) (P.releases_giveByte (by omega) s))).trans ?_
      exact (or_iff_right h8).symm
  | taking address bits s =>
    have hlt : bits.length < 8 := hx
    have hlen : bits.length + (List.replicate (8 - bits.length) false).length = 8 := by
      rw [List.length_replicate]
      omega
    have hne : List.replicate (8 - bits.length) false ≠ [] :=
      List.ne_nil_of_length_pos (by rw [List.length_replicate]; omega)
    rw [show 8 = 8 - bits.length + bits.length by omega, hsplit, pulses_append,
      P.pulses_taking _ hlen hne]
    cases bits with
    | nil =>
      have htake : (P.takeByte address 0 s).releases = true ↔
          (if address then P.select 0 s else P.take 0 s) = none := by
        unfold takeByte
        generalize (if address then P.select 0 s else P.take 0 s) = r
        cases r with
        | none => exact iff_of_true rfl rfl
        | some s => exact iff_of_false Bool.false_ne_true (Option.some_ne_none s)
      exact htake.trans (or_iff_right (not_not.mpr rfl)).symm
    | cons b bits =>
      refine iff_of_true ?_ (.inl (List.cons_ne_nil _ _))
      -- the byte ends with a zero, so that it does not ask the slave to give
      have heven : byteOf (b :: bits ++ List.replicate (8 - (b :: bits).length) false) &&& 1 = 0 := by
        rw [show 8 - (b :: bits).length = 7 - (b :: bits).length + 1 by omega,
          List.replicate_succ', ← List.append_assoc]
        exact byteOf_even _
      unfold takeByte
      rw [heven]
      cases if address then P.select _ s else P.take _ s with
      | none => rw [P.pulses_idle]; rfl
      | some s =>
        have hreading : (address && (0 : UInt8) != 0) = false := Bool.and_false _
        rw [hreading, List.length_cons, Nat.add_comm, hsplit, pulses_append]
        exact P.releases_taking_zeros (Nat.lt_of_succ_lt hlt) s

/-- A peripheral that behaves like another one, on the states that stand for the other's states. -/
structure Embeds {σ : Type} (f : ρ → σ) (P : Peripheral ρ) (Q : Peripheral σ) : Prop where
  select : ∀ a s, Q.select a (f s) = (P.select a s).map f
  take : ∀ v s, Q.take v (f s) = (P.take v s).map f
  give : ∀ s, Q.give (f s) = ((P.give s).1, f (P.give s).2)

section
variable {σ : Type} {f : ρ → σ} {P : Peripheral ρ} {Q : Peripheral σ} (h : P.Embeds f Q)
include h

theorem Embeds.taken_state (vs : List UInt8) :
    ∀ s, (Q.taken vs (f s)).state = f (P.taken vs s).state := by
  induction vs with
  | nil => exact fun _ => rfl
  | cons v vs ih =>
    intro s
    unfold taken
    rw [h.take]
    cases P.take v s with
    | none => rfl
    | some s => exact ih s

theorem Embeds.sentTo_state (a : UInt8) (vs : List UInt8) (s : ρ) :
    (Q.sentTo a vs (f s)).state = f (P.sentTo a vs s).state := by
  unfold sentTo
  rw [h.select]
  cases P.select a s with
  | none => rfl
  | some s => exact h.taken_state vs s

theorem Embeds.gives_eq (n : Nat) :
    ∀ s, Q.gives n (f s) = ((P.gives n s).1, f (P.gives n s).2) := by
  induction n with
  | zero => exact fun _ => rfl
  | succ n ih =>
    intro s
    unfold gives
    rw [h.give, ih]

theorem Embeds.readAt_eq (a : UInt8) (n : Nat) (s : ρ) :
    Q.readAt a n (f s) = ((P.readAt a n s).1, f (P.readAt a n s).2) := by
  unfold readAt
  rw [h.select]
  cases P.select a s with
  | none => rfl
  | some s => exact h.gives_eq n s

end

end Peripheral

/-! ## Several slaves on the bus -/

section
variable {ρ : Type} {n : Nat} (P : Fin n → Peripheral ρ)

def bank : Device (Fin n → Slave ρ) where
  releases d := decide (∀ i, (d i).releases = true)
  react e d i := (P i).slave.react e (d i)
  stable level d := by
    refine decide_eq_decide.mpr (forall_congr' fun i => ?_)
    rw [show ((P i).slave.react (.rise level) (d i)).releases = (d i).releases from
      (P i).slave.stable level (d i)]

/-- One slave takes part in the transfer, the others wait for a start. -/
def only (i : Fin n) (x : Slave ρ) (s : Fin n → ρ) : Fin n → Slave ρ :=
  Function.update (fun j => .idle (s j)) i x

variable {P} {i : Fin n} {x : Slave ρ} {s : Fin n → ρ}

theorem releases_only : (bank P).releases (only i x s) = x.releases := by
  have h : (∀ j, (only i x s j).releases = true) ↔ x.releases = true := by
    unfold only
    rw [Function.forall_update_iff _ fun _ (y : Slave ρ) => y.releases = true]
    exact and_iff_left fun _ _ => rfl
  exact Bool.eq_iff_iff.mpr (decide_eq_true_iff.trans h)

theorem react_only {e : Edge} (he : e ≠ .start) :
    (bank P).react e (only i x s) = only i ((P i).slave.react e x) s := by
  funext j
  show (P j).slave.react e (only i x s j) = _
  unfold only
  by_cases hj : j = i
  · subst hj
    rw [Function.update_self, Function.update_self]
  · rw [Function.update_of_ne hj, Function.update_of_ne hj]
    cases e with
    | start => exact absurd rfl he
    | _ => rfl

theorem sampled_only (b : Bool) : sampled (bank P) b (only i x s) = sampled (P i).slave b x :=
  congrArg (b && ·) releases_only

theorem pulse_only (b : Bool) :
    pulse (bank P) b (only i x s) = only i (pulse (P i).slave b x) s := by
  unfold pulse
  rw [sampled_only, react_only (by simp), react_only (by simp)]

theorem pulses_only (bs : List Bool) : ∀ {x : Slave ρ},
    pulses (bank P) bs (only i x s) = only i (pulses (P i).slave bs x) s := by
  induction bs with
  | nil => exact rfl
  | cons b bs ih =>
    intro x
    show pulses (bank P) bs (pulse (bank P) b (only i x s)) = _
    rw [pulse_only, ih]
    rfl

theorem levels_only (bs : List Bool) : ∀ {x : Slave ρ},
    levels (bank P) bs (only i x s) = levels (P i).slave bs x := by
  induction bs with
  | nil => exact rfl
  | cons b bs ih =>
    intro x
    show sampled (bank P) b _ :: levels (bank P) bs (pulse (bank P) b (only i x s)) = _
    rw [sampled_only, pulse_only, ih]
    rfl

theorem state_only : (fun j => (only i x s j).state) = Function.update s i x.state := by
  funext j
  unfold only
  by_cases hj : j = i
  · subst hj
    rw [Function.update_self, Function.update_self]
  · rw [Function.update_of_ne hj, Function.update_of_ne hj]
    rfl

theorem only_idle (t : ρ) : only i (.idle t) s = fun j => .idle (Function.update s i t j) := by
  funext j
  unfold only
  by_cases hj : j = i
  · subst hj
    rw [Function.update_self, Function.update_self]
  · rw [Function.update_of_ne hj, Function.update_of_ne hj]

variable (s) in
/-- All slaves listen, and have taken the same bits. -/
theorem pulses_listening (bs : List Bool) : ∀ {bits : List Bool}, bits.length + bs.length = 8 →
    bs ≠ [] → pulses (bank P) bs (fun j => .taking true bits (s j)) =
      fun j => pulses (P j).slave bs (.taking true bits (s j)) := by
  have hlisten (bits : List Bool) :
      (bank P).releases (fun j => .taking true bits (s j)) = true :=
    decide_eq_true fun _ => rfl
  induction bs with
  | nil => exact fun _ h => absurd rfl h
  | cons b bs ih =>
    intro bits hlen _
    rw [List.length_cons] at hlen
    have hpulse : pulse (bank P) b (fun j => .taking true bits (s j)) =
        fun j => pulse (P j).slave b (.taking true bits (s j)) := by
      unfold pulse sampled
      rw [hlisten]
      rfl
    show pulses (bank P) bs (pulse (bank P) b _) = fun j => pulses (P j).slave bs (pulse _ b _)
    rw [hpulse]
    simp only [Peripheral.pulse_taking]
    by_cases hbs : bs = []
    · subst hbs
      rfl
    · have hpos := List.length_pos_of_ne_nil hbs
      have h7 : bits.length ≠ 7 := by omega
      simp only [if_neg h7]
      exact ih (by rw [List.length_append, List.length_singleton]; omega) hbs

/-- An address byte that one slave answers to at most. -/
theorem pulses_address {a : UInt8} (h : ∀ j ≠ i, (P j).select a (s j) = none) :
    pulses (bank P) (bitsOf a ++ [true]) (fun j => .taking true [] (s j)) =
      only i ((P i).addressed a (s i)) s := by
  have hne : bitsOf a ≠ [] := List.ne_nil_of_length_pos (by rw [bitsOf_length]; decide)
  have hlen : ([] : List Bool).length + (bitsOf a).length = 8 := by rw [bitsOf_length]; rfl
  have hbyte : (fun j => pulses (P j).slave (bitsOf a) (.taking true [] (s j))) =
      only i (pulses (P i).slave (bitsOf a) (.taking true [] (s i))) s := by
    funext j
    unfold only
    by_cases hj : j = i
    · subst hj
      rw [Function.update_self]
    · rw [Function.update_of_ne hj, Peripheral.pulses_taking _ _ hlen hne, List.nil_append,
        byteOf_bitsOf]
      unfold Peripheral.takeByte
      rw [if_pos rfl, h j hj]
  rw [pulses_append, pulses_listening s _ hlen hne, hbyte, pulses_only, ← pulses_append,
    Peripheral.pulses_byte]
  rfl

/-- A start reaches all slaves. -/
theorem react_start (d : Fin n → Slave ρ) : (bank P).react .fall ((bank P).react .start d) =
    fun j => .taking true [] (d j).state := rfl

theorem Slave.state_rise (P : Peripheral ρ) (level : Bool) (x : Slave ρ) :
    (P.slave.react (.rise level) x).state = x.state := by
  cases x <;> rfl

end

end I2c
