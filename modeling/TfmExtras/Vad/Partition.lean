import Mathlib.Algebra.Group.Nat.Defs
import Mathlib.Data.List.Infix
import Mathlib.Logic.Function.Basic

/-! The voice activity detection partition of `vad_an552_sp_main.c`. Its thread goes from statement
to statement, and the interrupt of the I2S device comes between two of them. -/

namespace Vad

/-- `int16_t` and `q15_t`. -/
abbrev Q15 := BitVec 16

/-- `INIT_VAD` and `PROC_VAD`. -/
def initVad : Int := 1
def procVad : Int := 2

def fs : Nat := 48000
def recordingSize : Nat := 4096

inductive VadStatus
  | stopped | noVoiceDetected | recording | voiceRecorded
deriving DecidableEq, Repr

/-- The value of `vad_status`. -/
def VadStatus.code : VadStatus → Nat
  | .stopped => 0
  | .noVoiceDetected => 1
  | .recording => 2
  | .voiceRecorded => 3

/-- The message types; `other` is any that is not known. -/
inductive Request
  | start | query | getFreq | stop | other
deriving DecidableEq, Repr

inductive PsaStatus
  | success | badState | programmerError
deriving DecidableEq, Repr

/-- What can be told of the partition from the outside, and its stores into the recording. A sample
comes with the answer whether it was detected as voice. -/
inductive Event
  | setStatus (status : VadStatus)
  | sample (s : Q15) (voice : Bool)
  | store (index : Nat)
  | recorded
  | checked (status : VadStatus)
  | write (data : Nat)
  | reply (r : Request) (status : PsaStatus)
deriving DecidableEq, Repr

/-- The statements of the thread, with the calls to the driver written out. -/
inductive Stmt
  | vadInit
  | setStatus (status : VadStatus)
  | setFifoReset | clearFifoReset | waitMs
  | enableRxbuf | enableRxinterrupt | disableRxbuf | disableRxinterrupt
  | irqEnable | irqDisable
  | writeStatus
  | checkRecorded
  | rfftInit | rfft | cmplxMag | max | setFreq | writeFreq
  | reply (status : PsaStatus)
deriving DecidableEq, Repr

/-- The libraries of the partition. The voice detection gets the command, the answer before and the
samples, and has a state of its own. -/
structure Libs (ω : Type) where
  vadEstimation : Int → Int → List Q15 → ω → (Int × Int) × ω
  armRfftInitQ15 : Nat → Nat → Nat → Nat
  armRfftQ15 : Nat → (Nat → Q15) → (Nat → Q15) × (Nat → Q15)
  armCmplxMagQ15 : (Nat → Q15) → Nat → Nat → Q15
  armMaxQ15 : (Nat → Q15) → Nat → Q15 × Nat

/-- The enable bits of the receive side. -/
structure I2s where
  fifoReset : Bool
  rxbuf : Bool
  rxinterrupt : Bool
  irq : Bool

/-- The static variables, the variables of `get_freq`, what the thread has still to do, and what has
happened so far. -/
structure State (ω : Type) where
  sampleBuffer : Nat → Q15
  sampleBufferEndIdx : Nat
  fftResult : Nat → Q15
  fftMagnitude : Nat → Q15
  vadStatus : VadStatus
  command : Int
  i2s : I2s
  vad : ω
  fftInstance : Nat
  maxValue : Q15
  maxIndex : Nat
  freq : Nat
  msg : Request
  todo : List Stmt
  trace : List Event

variable {ω : Type}

def State.init (vad : ω) : State ω where
  sampleBuffer _ := 0
  sampleBufferEndIdx := 0
  fftResult _ := 0
  fftMagnitude _ := 0
  vadStatus := .stopped
  command := procVad
  i2s := ⟨false, false, false, false⟩
  vad := vad
  fftInstance := 0
  maxValue := 0
  maxIndex := 0
  freq := 0
  msg := .other
  todo := []
  trace := []

def State.emit (s : State ω) (e : Event) : State ω := { s with trace := s.trace ++ [e] }

/-! ## The interrupt handler -/

def stopListening (s : State ω) : State ω :=
  { s with i2s := { s.i2s with rxbuf := false, rxinterrupt := false } }

/-- One round of the loop of `i2s_flih`. The cast keeps the right channel. -/
def i2sFlihRound (l : Libs ω) (voiceActivity : Int) (word : BitVec 32) (s : State ω) :
    Int × State ω :=
  let currentSample : Q15 := word.setWidth 16
  match s.vadStatus with
  | .noVoiceDetected =>
    let ((command, voiceActivity), vad) :=
      l.vadEstimation s.command voiceActivity [currentSample] s.vad
    let s := { s with command := command, vad := vad }
    if voiceActivity = 1 then
      (voiceActivity, { s with vadStatus := .recording, sampleBufferEndIdx := 0 }.emit
        (.sample currentSample true))
    else (voiceActivity, s.emit (.sample currentSample false))
  | .recording =>
    let s := { s with
      sampleBuffer := Function.update s.sampleBuffer s.sampleBufferEndIdx currentSample
      sampleBufferEndIdx := (s.sampleBufferEndIdx + 1) % 2 ^ 32
      trace := s.trace ++ [.sample currentSample false, .store s.sampleBufferEndIdx] }
    if s.sampleBufferEndIdx = recordingSize then
      (voiceActivity, { stopListening s with vadStatus := .voiceRecorded }.emit .recorded)
    else (voiceActivity, s)
  | _ => (voiceActivity, (stopListening s).emit (.sample currentSample false))

def i2sFlihLoop (l : Libs ω) : List (BitVec 32) → Int → State ω → State ω
  | [], _, s => s
  | word :: words, voiceActivity, s =>
    let (voiceActivity, s) := i2sFlihRound l voiceActivity word s
    i2sFlihLoop l words voiceActivity s

/-- The handler, with what the receive buffer delivers until it is empty. -/
def i2sFlih (l : Libs ω) (words : List (BitVec 32)) (s : State ω) : State ω :=
  i2sFlihLoop l words 0 s

/-! ## The thread -/

def startListening : List Stmt :=
  [.setFifoReset, .waitMs, .clearFifoReset, .enableRxbuf, .enableRxinterrupt]

/-- The statements for a message, with the reply. -/
def vadSignalHandle : Request → List Stmt
  | .start => [.vadInit, .setStatus .noVoiceDetected] ++ startListening ++
      [.irqEnable, .reply .success]
  | .query => [.writeStatus, .reply .success]
  | .getFreq => [.checkRecorded]
  | .stop => [.irqDisable, .disableRxbuf, .disableRxinterrupt, .waitMs, .setStatus .stopped,
      .reply .success]
  | .other => [.reply .programmerError]

/-- The branch of `get_freq` for a recording. -/
def computeFreq : List Stmt :=
  [.rfftInit, .rfft, .cmplxMag, .max, .setFreq, .writeFreq, .setStatus .stopped, .reply .success]

def exec (l : Libs ω) (c : Stmt) (s : State ω) : State ω :=
  match c with
  | .vadInit => { s with vad := (l.vadEstimation initVad 0 [] s.vad).2 }
  | .setStatus status => { s with vadStatus := status }.emit (.setStatus status)
  | .setFifoReset => { s with i2s := { s.i2s with fifoReset := true } }
  | .clearFifoReset => { s with i2s := { s.i2s with fifoReset := false } }
  | .waitMs => s
  | .enableRxbuf => { s with i2s := { s.i2s with rxbuf := true } }
  | .enableRxinterrupt => { s with i2s := { s.i2s with rxinterrupt := true } }
  | .disableRxbuf => { s with i2s := { s.i2s with rxbuf := false } }
  | .disableRxinterrupt => { s with i2s := { s.i2s with rxinterrupt := false } }
  | .irqEnable => { s with i2s := { s.i2s with irq := true } }
  | .irqDisable => { s with i2s := { s.i2s with irq := false } }
  | .writeStatus => s.emit (.write s.vadStatus.code)
  | .checkRecorded =>
    let todo := if s.vadStatus = .voiceRecorded then computeFreq else [.reply .badState]
    { s with todo := todo }.emit (.checked s.vadStatus)
  | .rfftInit => { s with fftInstance := l.armRfftInitQ15 recordingSize 0 1 }
  | .rfft => { s with
      sampleBuffer := (l.armRfftQ15 s.fftInstance s.sampleBuffer).1
      fftResult := (l.armRfftQ15 s.fftInstance s.sampleBuffer).2 }
  | .cmplxMag => { s with fftMagnitude := l.armCmplxMagQ15 s.fftResult recordingSize }
  | .max => { s with
      maxValue := (l.armMaxQ15 s.fftMagnitude (recordingSize / 2)).1
      maxIndex := (l.armMaxQ15 s.fftMagnitude (recordingSize / 2)).2 }
  | .setFreq =>
    { s with freq := if s.maxValue ≠ 0 then fs / recordingSize * s.maxIndex % 2 ^ 32 else 0 }
  | .writeFreq => s.emit (.write s.freq)
  | .reply status => s.emit (.reply s.msg status)

/-! ## Runs -/

/-- The thread takes a message or goes on by a statement, or the device interrupts. -/
inductive Step
  | message (r : Request)
  | thread
  | interrupt (words : List (BitVec 32))

/-- A message waits for the end of the one before. -/
def State.step (l : Libs ω) (s : State ω) : Step → State ω
  | .message r => match s.todo with
    | [] => { s with msg := r, todo := vadSignalHandle r }
    | _ :: _ => s
  | .thread => match s.todo with
    | [] => s
    | c :: todo => exec l c { s with todo := todo }
  | .interrupt words => i2sFlih l words s

def run (l : Libs ω) (vad : ω) (steps : List Step) : State ω :=
  steps.foldl (State.step l) (.init vad)

end Vad
