import Mathlib.Algebra.BigOperators.Group.List.Basic
import Mathlib.Algebra.GroupWithZero.Nat
import Mathlib.Data.List.Basic
import Mathlib.Logic.Function.Basic

/-! A service that answers messages: what it reads of a message, what it writes to its sender,
and when it has answered every message once. -/

namespace Ipc

/-- A message with the input vectors of its sender and the sizes of the output vectors. -/
structure Msg where
  type : Int
  handle : Nat
  clientId : Int
  inVec : Nat → List UInt8
  outSize : Nat → Nat

def Msg.inSize (msg : Msg) (i : Nat) : Nat := (msg.inVec i).length

/-- What is pending when a wait returns: the next message of each service `S`, if there is one. -/
structure Pending (S : Type) where
  msg : S → Option Msg
  any : ∃ s, (msg s).isSome = true

/-- What a service does to the outside. A read comes with the size of the object it goes to;
`hang` is a loop that does not end. -/
inductive Event (ρ : Type)
  | get (handle : Nat)
  | read (invec capacity size : Nat)
  | write (outvec : Nat) (data : List UInt8)
  | reply (handle : Nat) (status : ρ)
  | panic
  | hang
deriving DecidableEq, Repr

/-- The state of a service while it works on a message. -/
structure Io (ρ : Type) where
  taken : Nat → Nat
  events : List (Event ρ)

variable {ρ : Type}

def Event.got : Event ρ → Option Nat
  | .get handle => some handle
  | _ => none

def Event.replied : Event ρ → Option Nat
  | .reply handle _ => some handle
  | _ => none

/-- The service does not go on after the event. -/
def Event.stops : Event ρ → Bool
  | .panic | .hang => true
  | _ => false

/-- The bytes that an event writes to an output vector. -/
def Event.bytesTo (outvec : Nat) : Event ρ → Nat
  | .write o data => if o = outvec then data.length else 0
  | _ => 0

namespace Io

/-- Nothing is read or written yet. -/
def start : Io ρ := ⟨fun _ => 0, []⟩

def add (io : Io ρ) (e : Event ρ) : Io ρ := { io with events := io.events ++ [e] }

/-- Reads up to `size` further bytes of an input vector. -/
def psaRead (io : Io ρ) (msg : Msg) (invec capacity size : Nat) : List UInt8 × Io ρ :=
  let data := ((msg.inVec invec).drop (io.taken invec)).take size
  (data, { taken := Function.update io.taken invec (io.taken invec + data.length),
           events := io.events ++ [.read invec capacity size] })

def psaWrite (io : Io ρ) (outvec : Nat) (data : List UInt8) : Io ρ := io.add (.write outvec data)

def psaReply (io : Io ρ) (handle : Nat) (status : ρ) : Io ρ := io.add (.reply handle status)

def psaPanic (io : Io ρ) : Io ρ := io.add .panic

/-- The first read of a vector returns it from the start. -/
theorem psaRead_first {io : Io ρ} {msg : Msg} {i cap n : Nat} (h : io.taken i = 0)
    (hn : msg.inSize i = n) : (io.psaRead msg i cap n).1 = msg.inVec i := by
  show ((msg.inVec i).drop (io.taken i)).take n = _
  rw [h, List.drop_zero, ← hn]
  exact List.take_length

theorem psaRead_whole {io : Io ρ} {msg : Msg} {i cap n : Nat} (h : io.taken i = 0)
    (hn : msg.inSize i = n) :
    io.psaRead msg i cap n = (msg.inVec i, (io.psaRead msg i cap n).2) :=
  Prod.ext (psaRead_first h hn) rfl

theorem psaRead_taken {io : Io ρ} {msg : Msg} {i j cap n : Nat} (h : j ≠ i) :
    (io.psaRead msg i cap n).2.taken j = io.taken j := Function.update_of_ne h _ _

theorem psaRead_taken_self (io : Io ρ) (msg : Msg) (i cap n : Nat) :
    (io.psaRead msg i cap n).2.taken i =
      io.taken i + (((msg.inVec i).drop (io.taken i)).take n).length := Function.update_self _ _ _

theorem psaRead_events (io : Io ρ) (msg : Msg) (i cap n : Nat) :
    (io.psaRead msg i cap n).2.events = io.events ++ [.read i cap n] := rfl

end Io

/-! ## Answers -/

variable {σ ι : Type}

def gets (evs : List (Event ρ)) : List Nat := evs.filterMap Event.got

def replies (evs : List (Event ρ)) : List Nat := evs.filterMap Event.replied

/-- Every message that was taken is answered, once and in order, and the service goes on. -/
structure Answered (evs : List (Event ρ)) : Prop where
  once : replies evs = gets evs
  alive : ∀ e ∈ evs, e.stops = false

/-- Reads and writes, with no message taken or answered. -/
def Quiet (evs : List (Event ρ)) : Prop :=
  ∀ e ∈ evs, e.got = none ∧ e.replied = none ∧ e.stops = false

theorem Quiet.nil : Quiet ([] : List (Event ρ)) := fun _ h => absurd h List.not_mem_nil

theorem Quiet.append {evs evs' : List (Event ρ)} (h : Quiet evs) (h' : Quiet evs') :
    Quiet (evs ++ evs') := fun e he => (List.mem_append.mp he).elim (h e) (h' e)

theorem Quiet.read {evs : List (Event ρ)} (h : Quiet evs) (i cap n : Nat) :
    Quiet (evs ++ [.read i cap n]) :=
  h.append fun _ he => List.mem_singleton.mp he ▸ ⟨rfl, rfl, rfl⟩

theorem Quiet.write {evs : List (Event ρ)} (h : Quiet evs) (o : Nat) (data : List UInt8) :
    Quiet (evs ++ [.write o data]) :=
  h.append fun _ he => List.mem_singleton.mp he ▸ ⟨rfl, rfl, rfl⟩

theorem Quiet.gets_eq {evs : List (Event ρ)} (h : Quiet evs) : gets evs = [] :=
  List.filterMap_eq_nil_iff.mpr fun e he => (h e he).1

theorem Quiet.replies_eq {evs : List (Event ρ)} (h : Quiet evs) : replies evs = [] :=
  List.filterMap_eq_nil_iff.mpr fun e he => (h e he).2.1

/-- Taking a message, working on it and replying to it. -/
theorem Quiet.answered {evs : List (Event ρ)} (h : Quiet evs) (handle : Nat) (status : ρ) :
    Answered (.get handle :: (evs ++ [.reply handle status])) where
  once := by
    show replies (evs ++ [.reply handle status]) = handle :: gets (evs ++ [.reply handle status])
    unfold gets replies
    rw [List.filterMap_append, List.filterMap_append, ← gets, ← replies, h.gets_eq, h.replies_eq]
    rfl
  alive e he := by
    rcases List.mem_cons.mp he with rfl | he
    · rfl
    · rcases List.mem_append.mp he with he | he
      · exact (h e he).2.2
      · exact List.mem_singleton.mp he ▸ rfl

/-- A message that is answered at once. -/
theorem answered_at_once (handle : Nat) (status : ρ) :
    Answered [.get handle, .reply handle status] := Quiet.nil.answered handle status

/-- Taking a message without a reply. -/
theorem Quiet.not_answered {evs : List (Event ρ)} (h : Quiet evs) (handle : Nat) :
    ¬ Answered (.get handle :: evs) := by
  intro ha
  have ho : replies evs = handle :: gets evs := ha.once
  rw [h.replies_eq] at ho
  cases ho

theorem not_answered_of_stops {evs : List (Event ρ)} {e : Event ρ} (h : e ∈ evs)
    (hs : e.stops = true) : ¬ Answered evs :=
  fun ha => Bool.noConfusion ((ha.alive e h).symm.trans hs)

/-! ## Runs -/

/-- The rounds of a service loop, up to one that does not go on. -/
def rounds (step : ι → σ → List (Event ρ) × σ) : List ι → σ → List (List (Event ρ))
  | [], _ => []
  | i :: is, s =>
    let (evs, s') := step i s
    if evs.any Event.stops then [evs] else evs :: rounds step is s'

/-- If a round is answered exactly when its input is good, a run is answered in every round
exactly when all its inputs are good. -/
theorem rounds_answered_iff {step : ι → σ → List (Event ρ) × σ} {Good : ι → Prop}
    (h : ∀ i s, Answered (step i s).1 ↔ Good i) (is : List ι) (s : σ) :
    (∀ evs ∈ rounds step is s, Answered evs) ↔ ∀ i ∈ is, Good i := by
  induction is generalizing s with
  | nil =>
    exact iff_of_true (fun _ he => absurd he List.not_mem_nil)
      fun _ he => absurd he List.not_mem_nil
  | cons i is ih =>
    rw [List.forall_mem_cons, ← h i s, ← ih (step i s).2]
    show (∀ evs ∈ (if (step i s).1.any Event.stops then [(step i s).1]
      else (step i s).1 :: rounds step is (step i s).2), Answered evs) ↔ _
    split_ifs with hp
    · obtain ⟨e, he, hpanic⟩ := List.any_eq_true.mp hp
      have hn : ¬ Answered (step i s).1 := fun ha => by
        rw [ha.alive e he] at hpanic
        exact Bool.noConfusion hpanic
      exact iff_of_false (fun ha => hn (ha _ (List.mem_singleton_self _))) fun ha => hn ha.1
    · exact List.forall_mem_cons

/-! ## Buffers -/

/-- The bytes written to an output vector. -/
def written (evs : List (Event ρ)) (outvec : Nat) : Nat := (evs.map (Event.bytesTo outvec)).sum

/-- Every read fits the object it goes to, and the writes fit the output vectors. -/
structure Fits (msg : Msg) (evs : List (Event ρ)) : Prop where
  reads : ∀ i cap n, Event.read i cap n ∈ evs → n ≤ cap
  writes : ∀ o, written evs o ≤ msg.outSize o

theorem written_append (evs evs' : List (Event ρ)) (o : Nat) :
    written (evs ++ evs') o = written evs o + written evs' o := by
  unfold written
  rw [List.map_append, List.sum_append]

/-- The reads so far fit, and `room` bytes can still be written to each output vector. -/
structure Within (msg : Msg) (room : Nat → Nat) (io : Io ρ) : Prop where
  quiet : Quiet io.events
  reads : ∀ i cap n, Event.read i cap n ∈ io.events → n ≤ cap
  writes : ∀ o, written io.events o + room o ≤ msg.outSize o

variable {msg : Msg} {room : Nat → Nat} {io : Io ρ}

theorem within_start (msg : Msg) : Within msg msg.outSize (Io.start : Io ρ) :=
  ⟨Quiet.nil, fun _ _ _ h => absurd h List.not_mem_nil, fun _ => Nat.le_of_eq (Nat.zero_add _)⟩

theorem Within.psaRead (h : Within msg room io) {cap n : Nat} (hn : n ≤ cap) (i : Nat) :
    Within msg room (io.psaRead msg i cap n).2 where
  quiet := h.quiet.read i cap n
  reads j c m hm := by
    rcases List.mem_append.mp hm with hm | hm
    · exact h.reads j c m hm
    · cases List.mem_singleton.mp hm
      exact hn
  writes o := by
    have hw := written_append io.events [.read i cap n] o
    have hr : written [(.read i cap n : Event ρ)] o = 0 := rfl
    show written (io.events ++ [.read i cap n]) o + room o ≤ msg.outSize o
    rw [hw, hr]
    exact h.writes o

theorem Within.psaWrite (h : Within msg room io) {o : Nat} {data : List UInt8}
    (hd : data.length ≤ room o) :
    Within msg (Function.update room o (room o - data.length)) (io.psaWrite o data) where
  quiet := h.quiet.write o data
  reads j c m hm := by
    rcases List.mem_append.mp hm with hm | hm
    · exact h.reads j c m hm
    · cases List.mem_singleton.mp hm
  writes o' := by
    have hw := written_append io.events [.write o data] o'
    have ho := h.writes o'
    show written (io.events ++ [.write o data]) o' + _ ≤ _
    rw [hw]
    by_cases he : o' = o
    · subst he
      have hb : written [(.write o' data : Event ρ)] o' = data.length := by
        simp [written, Event.bytesTo]
      rw [Function.update_self, hb]
      omega
    · have hb : written [(.write o data : Event ρ)] o' = 0 := by
        simp [written, Event.bytesTo, Ne.symm he]
      rw [Function.update_of_ne he, hb]
      exact ho

/-- The traffic of a message that is answered. -/
theorem Within.fits (h : Within msg room io) (handle : Nat) (status : ρ) :
    Fits msg (.get handle :: (io.psaReply handle status).events) where
  reads i cap n hm := by
    rcases List.mem_cons.mp hm with hm | hm
    · cases hm
    · rcases List.mem_append.mp hm with hm | hm
      · exact h.reads i cap n hm
      · cases List.mem_singleton.mp hm
  writes o := by
    have hw : written (.get handle :: (io.psaReply handle status).events) o =
        0 + (written io.events o + 0) :=
      congrArg (0 + ·) (written_append io.events [.reply handle status] o)
    rw [hw]
    have := h.writes o
    omega

end Ipc
