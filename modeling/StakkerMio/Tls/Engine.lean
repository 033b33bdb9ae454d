import StakkerMio.Lib.Loop
import StakkerMio.Tcp.StreamBuf
import StakkerMio.Tls.Connection

/-! # `TlsServerEngine`

`process` of `tls_rustls.rs`, over any `ServerConnection`. Its two nested loops are
one `loop` here, with the point that a turn starts from (`Phase`). What happens on
the way is recorded as events. -/
namespace StakkerMio
open Lib ServerConnection

inductive TlsEof where
  | close
  | abort
  deriving DecidableEq

/-- By what failed; `message` is the text. -/
inductive TlsError where
  | writeTls (e : Error)
  | flush (e : Error)
  | writer (e : Error)
  | readTls (e : Error)
  | stream (e : RustlsError)
  | read (e : Error)
  deriving DecidableEq

/-- `display` and `displayTls` are those of the errors' own types. -/
def TlsError.message (display : Error → String) (displayTls : RustlsError → String) :
    TlsError → String
  | .writeTls e => "Unexpected error from ServerConnection::write_tls: " ++ display e
  | .flush e => "Failed to flush TCP: " ++ display e
  | .writer e => "Unexpected error from ServerConnection::writer.write: " ++ display e
  | .readTls e => "Unexpected failure from ServerConnection::read_tls: " ++ display e
  | .stream e => "TLS stream error: " ++ displayTls e
  | .read e => "TLS read error: " ++ display e

structure TlsServerEngine (SC : Type) where
  sc : Option SC
  sentOutEof : Bool := false
  inpEof : Option TlsEof := none

/-- The outcomes for a `process`: one for each flush of `ext`, and one for each time
that space is made in `int`, the capacity beyond what was asked for. -/
structure TlsOutcomes where
  flushes : List FlushOutcomes := []
  spares : List Nat := []

/-- What `process` does to the buffers, and how it ends. -/
inductive TlsEvent (SC : Type) where
  /-- From `int.out`. -/
  | taken (bytes : List UInt8)
  /-- To `ext.out`. -/
  | appended (bytes : List UInt8)
  /-- `ext.out_eof` was set, with the connection in this state. -/
  | outEof (sc : SC)
  /-- From `ext.inp`. -/
  | fed (bytes : List UInt8)
  /-- To `int.inp`. -/
  | decoded (bytes : List UInt8)
  | call (c : StreamCall)
  | returned (rv : Except TlsError (Option TlsEof))

/-- Where a turn starts: at the top of the outer loop, at `inp_makespace`, or at the
top of the inner loop. -/
inductive Phase where
  | main
  | makespace (readLen : Nat)
  | readOut
  deriving DecidableEq

/-- The arms of the outer loop. -/
inductive Arm where
  | writeTls
  | writer
  | closeNotify
  | readTls
  | leave
  deriving DecidableEq

/-- The locals of the loop. -/
structure TlsPump (SC : Type) where
  sc : SC
  sentOutEof : Bool
  inpEof : Option TlsEof
  ext : TcpStreamBuf
  int : TcpStreamBuf
  outcomes : TlsOutcomes
  phase : Phase := .main
  events : List (TlsEvent SC) := []

namespace TlsPump
variable {SC : Type}

abbrev Answer := Except TlsError (Option TlsEof)

/-- A turn goes on, or the call returns. -/
abbrev Turn (SC : Type) := TlsPump SC ⊕ TlsPump SC × Answer

def goOn (p : TlsPump SC) : Exec (Turn SC) := .ret (.inl p)

def fail (p : TlsPump SC) (e : TlsError) : Exec (Turn SC) := .ret (.inr (p, .error e))

def log (p : TlsPump SC) (event : TlsEvent SC) : TlsPump SC :=
  { p with events := p.events ++ [event] }

/-- `ext.flush()`, with the next of the given outcomes. -/
def flushExt (p : TlsPump SC) : Exec (Turn SC) :=
  match p.outcomes.flushes with
  | [] => .wait
  | o :: flushes => do
    let (ext, rv, calls) ← p.ext.flush o
    let p := { p with
      ext := ext
      outcomes := { p.outcomes with flushes := flushes }
      events := p.events ++ calls.map TlsEvent.call }
    match rv with
    | .error e => p.fail (.flush e)
    | .ok () => p.goOn

variable [ServerConnection SC]

def arm (p : TlsPump SC) : Arm :=
  if wantsWrite p.sc then .writeTls
  else if !p.int.out.isEmpty then .writer
  else if p.int.outEof && p.int.out.isEmpty && !p.sentOutEof then .closeNotify
  else if wantsRead p.sc && p.ext.rd != p.ext.wr then .readTls
  else .leave

/-- `write_tls(ext)`. -/
def writeTls (p : TlsPump SC) : TlsPump SC × Result Nat :=
  let (chunk, next) := ServerConnection.writeTls p.sc
  let (ext, rv) := p.ext.ioWrite chunk
  let (sc, rv) := next rv
  ({ p with sc := sc, ext := ext }.log (.appended chunk), rv)

def passOutEof (p : TlsPump SC) : TlsPump SC :=
  if p.sentOutEof && !wantsWrite p.sc then
    { p with ext := { p.ext with outEof := true } }.log (.outEof p.sc)
  else p

def writeTlsArm (p : TlsPump SC) : Exec (Turn SC) :=
  match p.writeTls with
  | (p, .error e) => p.fail (.writeTls e)
  | (p, .ok _) => p.passOutEof.flushExt

/-- `drain(..len)` panics on more than there is. -/
def writerArm (p : TlsPump SC) : Exec (Turn SC) :=
  match writerWrite p.sc p.int.out with
  | (sc, .error e) => fail { p with sc := sc } (.writer e)
  | (sc, .ok len) =>
    if len ≤ p.int.out.length then
      let int := { p.int with out := p.int.out.drop len }
      ({ p with sc := sc, int := int }.log (.taken (p.int.out.take len))).goOn
    else .panic

def closeNotifyArm (p : TlsPump SC) : Exec (Turn SC) :=
  { p with sc := sendCloseNotify p.sc, sentOutEof := true }.goOn

/-- `read_tls(ext)`. -/
def readTls (p : TlsPump SC) : Exec (TlsPump SC × Result Nat) :=
  match ServerConnection.readTls p.sc with
  | .error e => .ret (p, .error e)
  | .ok (room, next) => do
    let (ext, read) ← p.ext.ioRead room
    let (sc, rv) := next read
    .ret ({ p with sc := sc, ext := ext }.log (.fed (read.toOption.getD [])), rv)

def readTlsArm (p : TlsPump SC) : Exec (Turn SC) := do
  match ← p.readTls with
  | (p, .error e) => p.fail (.readTls e)
  | (p, .ok _) =>
    match processNewPackets p.sc with
    | (sc, .error e) => fail { p with sc := sc } (.stream e)
    | (sc, .ok readLen) =>
      let p := { p with
        sc := sc
        phase := if 0 < readLen then .makespace readLen else .main }
      p.goOn

def makespace (usizeMax : Nat) (p : TlsPump SC) (readLen : Nat) : Exec (Turn SC) := do
  let int ← p.int.inpMakespace usizeMax (p.outcomes.spares.headD 0) readLen
  let p := { p with
    int := int
    outcomes := { p.outcomes with spares := p.outcomes.spares.tail }
    phase := .readOut }
  p.goOn

/-- A turn of the inner loop, which reads into `int.inp[int.wr..]`. -/
def readOut (usizeMax : Nat) (p : TlsPump SC) : Exec (Turn SC) :=
  if p.int.inp.length < p.int.wr then .panic else
  match readerRead p.sc (p.int.inp.length - p.int.wr) with
  | (sc, .error e) =>
    let p := { p with sc := sc }
    if e.kind = .wouldBlock then { p with phase := .main }.goOn
    else if e.kind = .unexpectedEof then { p with inpEof := some .abort }.goOn
    else p.fail (.read e)
  | (sc, .ok []) => { p with sc := sc, inpEof := some .close }.goOn
  | (sc, .ok bytes) => do
    let wr ← addUsize usizeMax p.int.wr bytes.length
    let int := { p.int with inp := Window.overwrite p.int.inp p.int.wr bytes, wr := wr }
    ({ p with sc := sc, int := int }.log (.decoded bytes)).goOn

def turn (usizeMax : Nat) (p : TlsPump SC) : Exec (Turn SC) :=
  match p.phase with
  | .main =>
    match p.arm with
    | .writeTls => p.writeTlsArm
    | .writer => p.writerArm
    | .closeNotify => p.closeNotifyArm
    | .readTls => p.readTlsArm
    | .leave => .ret (.inr (p, .ok p.inpEof))
  | .makespace readLen => p.makespace usizeMax readLen
  | .readOut => p.readOut usizeMax

/-- What the choice of an arm says. -/
theorem arm_spec (p : TlsPump SC) :
    match p.arm with
    | .writeTls => wantsWrite p.sc = true
    | .writer => wantsWrite p.sc = false ∧ p.int.out ≠ []
    | .closeNotify => wantsWrite p.sc = false ∧ p.int.out = [] ∧ p.int.outEof = true ∧
        p.sentOutEof = false
    | .readTls => wantsWrite p.sc = false ∧ p.int.out = [] ∧ wantsRead p.sc = true ∧
        p.ext.rd ≠ p.ext.wr
    | .leave => wantsWrite p.sc = false ∧ p.int.out = [] := by
  unfold arm
  by_cases hw : wantsWrite p.sc = true
  · rw [if_pos hw]
    exact hw
  rw [if_neg hw]
  have hw : wantsWrite p.sc = false := by simpa using hw
  by_cases ho : (!p.int.out.isEmpty) = true
  · rw [if_pos ho]
    exact ⟨hw, by simpa using ho⟩
  rw [if_neg ho]
  have ho : p.int.out = [] := by simpa using ho
  by_cases hc : (p.int.outEof && p.int.out.isEmpty && !p.sentOutEof) = true
  · rw [if_pos hc]
    exact ⟨hw, ho, by simpa [ho] using hc⟩
  rw [if_neg hc]
  by_cases hr : (wantsRead p.sc && p.ext.rd != p.ext.wr) = true
  · rw [if_pos hr]
    exact ⟨hw, ho, by simpa using hr⟩
  rw [if_neg hr]
  exact ⟨hw, ho⟩

end TlsPump

namespace TlsServerEngine
variable {SC : Type}

/-- With the connection that is made from the configuration, if there is one. -/
def new (sc : Option SC) : TlsServerEngine SC := { sc := sc }

/-- What a call of `process` leaves and returns. -/
structure Processed (SC : Type) where
  engine : TlsServerEngine SC
  ext : TcpStreamBuf
  int : TcpStreamBuf
  events : List (TlsEvent SC)
  rv : TlsPump.Answer

/-- The locals at the start of the loop. -/
def pump (e : TlsServerEngine SC) (sc : SC) (ext int : TcpStreamBuf) (outcomes : TlsOutcomes) :
    TlsPump SC :=
  { sc := sc, sentOutEof := e.sentOutEof, inpEof := e.inpEof, ext := ext, int := int,
    outcomes := outcomes }

def processed (r : TlsPump SC × TlsPump.Answer) : Processed SC :=
  { engine := ⟨some r.1.sc, r.1.sentOutEof, r.1.inpEof⟩
    ext := r.1.ext
    int := r.1.int
    events := r.1.events
    rv := r.2 }

/-- The branch without TLS. -/
def passThrough (usizeMax : Nat) (e : TlsServerEngine SC) (ext int : TcpStreamBuf)
    (outcomes : TlsOutcomes) : Exec (Processed SC) := do
  let out := int.out
  let bytes := Window.slice ext.inp ext.rd ext.wr
  let (int, ext) ← int.exchange usizeMax (outcomes.spares.headD 0) ext
  let e := if int.inpEof then { e with inpEof := some .close } else e
  match outcomes.flushes with
  | [] => .wait
  | o :: _ => do
    let (ext, rv, calls) ← ext.flush o
    .ret
      { engine := e
        ext := ext
        int := int
        events := [.taken out, .appended out, .fed bytes, .decoded bytes] ++ calls.map .call
        rv := match rv with
          | .error err => .error (.flush err)
          | .ok () => .ok e.inpEof }

def process [ServerConnection SC] (usizeMax fuel : Nat) (e : TlsServerEngine SC)
    (ext int : TcpStreamBuf) (outcomes : TlsOutcomes) : Exec (Processed SC) :=
  match e.sc with
  | some sc => processed <$> loop (TlsPump.turn usizeMax) fuel (e.pump sc ext int outcomes)
  | none => e.passThrough usizeMax ext int outcomes

end TlsServerEngine
end StakkerMio
