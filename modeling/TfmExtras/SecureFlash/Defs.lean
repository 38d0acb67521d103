import TfmExtras.Etss.Layout

/-! The secure flash layer: `secureflash.c`. The JEDEC security HAL below it is a parameter, and
so is `SP_ETSS`, the number that the build gives the ETSS partition. -/

namespace SecureFlash
open Etss

inductive Error
  | device | createSession | closeSession | secureRead | secureProgram | secureErase
  | invalidArgument | illegalAccess
deriving DecidableEq, Repr

/-- `app_data_t`; the zone id has eight bits. -/
structure AppData where
  appId : Int
  keyId : Nat
  zoneId : Nat
deriving DecidableEq, Repr

/-- The sizes of a device, in the ranges of their types. -/
structure Architecture where
  secureZoneSize : Nat
  secureZoneTotalSize : Nat
  secureReadSize : Nat
  secureProgramSize : Nat
  minSecureEraseSize : Nat
  secureZoneSize_pos : 0 < secureZoneSize := by decide
  secureZoneTotalSize_lt : secureZoneTotalSize < 2 ^ 32 := by decide
  secureReadSize_pos : 0 < secureReadSize := by decide
  secureReadSize_lt : secureReadSize < 2 ^ 32 := by decide
  secureProgramSize_pos : 0 < secureProgramSize := by decide
  secureProgramSize_lt : secureProgramSize < 2 ^ 32 := by decide
  minSecureEraseSize_pos : 0 < minSecureEraseSize := by decide
  minSecureEraseSize_lt : minSecureEraseSize < 2 ^ 32 := by decide

/-- `secureflash_t`, as far as an access reads it: `appData` are the entries that are in use. -/
structure Secureflash where
  isInitialized : Bool
  appData : List AppData
  architecture : Architecture

/-! ## The HAL -/

/-- What is passed to the HAL. -/
inductive Event
  | create (keyId : Nat) (session : Option Nat)
  | access (addr len session : Nat)
  | terminate (session : Nat)
deriving DecidableEq, Repr

/-- The JEDEC security HAL, over a state of its own. A read may fail or return bytes; the other calls
succeed or fail. -/
structure Jedec (J : Type) where
  createSession : (keyId : Nat) → J → Option Nat × J
  terminateSession : (session : Nat) → J → Bool × J
  secureRead : (addr len session : Nat) → J → Option (List UInt8) × J
  secureProgram : (addr : Nat) → List UInt8 → (session : Nat) → J → Bool × J
  secureErase : (addr len session : Nat) → J → Bool × J

/-- The state of the HAL, and what was passed to it. -/
structure Device (J : Type) where
  jedec : J
  events : List Event

variable {J : Type} (hal : Jedec J)

def Device.add (d : Device J) (j : J) (e : Event) : Device J := ⟨j, d.events ++ [e]⟩

def jedecCreateSession (keyId : Nat) (d : Device J) : Option Nat × Device J :=
  let (session, j) := hal.createSession keyId d.jedec
  (session, d.add j (.create keyId session))

def jedecTerminateSession (session : Nat) (d : Device J) : Bool × Device J :=
  let (ok, j) := hal.terminateSession session d.jedec
  (ok, d.add j (.terminate session))

def jedecSecureRead (addr len session : Nat) (d : Device J) :
    Option (List UInt8) × Device J :=
  let (bs, j) := hal.secureRead addr len session d.jedec
  (bs, d.add j (.access addr len session))

def jedecSecureProgram (addr : Nat) (data : List UInt8) (session : Nat) (d : Device J) :
    Bool × Device J :=
  let (ok, j) := hal.secureProgram addr data session d.jedec
  (ok, d.add j (.access addr data.length session))

def jedecSecureErase (addr len session : Nat) (d : Device J) : Bool × Device J :=
  let (ok, j) := hal.secureErase addr len session d.jedec
  (ok, d.add j (.access addr len session))

/-! ## The loops -/

/-- What a call returns, and the device; nothing is returned while its loop still runs. -/
abbrev Result (J : Type) := Option (Except Error (List UInt8)) × Device J

/-- The size of the next chunk. -/
def nextChunk (len addr size : Nat) : Nat :=
  let offset := addr % len
  if add32 offset size < len then size else sub32 len offset

/-- The loops of `secureflash_secure_read` and `secureflash_secure_program`, which differ in the
operation and its error, for at most `n` rounds; `pos` is how far `buffer_ptr` has come. -/
def transferLoop (len : Nat)
    (op : (addr pos chunk : Nat) → Device J → Option (List UInt8) × Device J) (e : Error) :
    Nat → (addr size pos : Nat) → List UInt8 → Device J → Result J
  | _, _, 0, _, buf, d => (some (.ok buf), d)
  | 0, _, _ + 1, _, _, d => (none, d)
  | n + 1, addr, size + 1, pos, buf, d =>
    let chunk := nextChunk len addr (size + 1)
    match op addr pos chunk d with
    | (none, d) => (some (.error e), d)
    | (some bs, d) =>
      transferLoop len op e n (add32 addr chunk) (sub32 (size + 1) chunk) (pos + chunk)
        (buf ++ bs) d

/-- The loop of `secureflash_secure_erase`, for at most `n` rounds. -/
def eraseLoop (eraseSize session : Nat) : Nat → (addr size : Nat) → Device J → Result J
  | _, _, 0, d => (some (.ok []), d)
  | 0, _, _ + 1, d => (none, d)
  | n + 1, addr, size + 1, d =>
    match jedecSecureErase hal addr eraseSize session d with
    | (false, d) => (some (.error .secureErase), d)
    | (true, d) =>
      eraseLoop eraseSize session n (add32 addr eraseSize) (sub32 (size + 1) eraseSize) d

/-! ## Accesses -/

variable (spEtss : Int) (sf : Secureflash)

def queryAppInfo (addr : Nat) (appId : Int) : Option AppData :=
  let zoneId := addr / sf.architecture.secureZoneSize
  if appId = spEtss then sf.appData.find? fun appData => appData.zoneId = zoneId
  else sf.appData.find? fun appData => appData.appId = appId ∧ appData.zoneId = zoneId

/-- The rest of an access, once its arguments are checked: the lookup, and the session around
the loop. A session is left open when the loop fails. -/
def accessIn (addr : Nat) (appId : Int) (loop : (session : Nat) → Device J → Result J)
    (d : Device J) : Result J :=
  match queryAppInfo spEtss sf addr appId with
  | none => (some (.error .illegalAccess), d)
  | some appData =>
    match jedecCreateSession hal appData.keyId d with
    | (none, d) => (some (.error .createSession), d)
    | (some session, d) =>
      match loop session d with
      | (some (.ok buf), d) =>
        match jedecTerminateSession hal session d with
        | (false, d) => (some (.error .closeSession), d)
        | (true, d) => (some (.ok buf), d)
      | r => r

/-- A round takes a byte at least, so that `size` rounds are enough. -/
def secureflashSecureRead (addr size : Nat) (appId : Int) (d : Device J) : Result J :=
  if sf.isInitialized = false then (some (.error .device), d)
  else if add32 addr size > sf.architecture.secureZoneTotalSize then
    (some (.error .invalidArgument), d)
  else
    accessIn hal spEtss sf addr appId (fun session =>
      transferLoop sf.architecture.secureReadSize
        (fun addr _ chunk => jedecSecureRead hal addr chunk session) .secureRead size addr size 0 [])
      d

/-- Programs a chunk of `buffer`, the memory behind the pointer. -/
def programChunk (buffer : Nat → UInt8) (session addr pos chunk : Nat) (d : Device J) :
    Option (List UInt8) × Device J :=
  match jedecSecureProgram hal addr ((List.range chunk).map fun k => buffer (pos + k)) session d with
  | (false, d) => (none, d)
  | (true, d) => (some [], d)

def secureflashSecureProgram (buffer : Nat → UInt8) (addr size : Nat) (appId : Int)
    (d : Device J) : Result J :=
  if sf.isInitialized = false then (some (.error .device), d)
  else if add32 addr size > sf.architecture.secureZoneTotalSize then
    (some (.error .invalidArgument), d)
  else
    accessIn hal spEtss sf addr appId (fun session =>
      transferLoop sf.architecture.secureProgramSize
        (programChunk hal buffer session) .secureProgram size addr size 0 []) d

/-- At most `n` rounds of the loop: where the address wraps around, it need not end. -/
def secureflashSecureErase (n addr size : Nat) (appId : Int) (d : Device J) : Result J :=
  if sf.isInitialized = false then (some (.error .device), d)
  else if add32 addr size > sf.architecture.secureZoneTotalSize then
    (some (.error .invalidArgument), d)
  else
    let eraseSize := sf.architecture.minSecureEraseSize
    if addr % eraseSize ≠ 0 ∨ add32 addr size % eraseSize ≠ 0 then
      (some (.error .invalidArgument), d)
    else
      accessIn hal spEtss sf addr appId (fun session => eraseLoop hal eraseSize session n addr size) d

end SecureFlash
