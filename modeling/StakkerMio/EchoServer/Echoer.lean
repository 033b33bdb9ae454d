import StakkerMio.Flush
import StakkerMio.Tcp.Input
import StakkerMio.MioPoll.Control

/-! # The `Echoer` actor

The actor of the example server that sends back what it receives, a second later, with
its `TcpStreamBuf` and the calls it has put off. Methods take the outcomes of the calls
they make on the stream. -/
namespace StakkerMio
open Lib

/-- A call put off with `after!`. -/
inductive Delayed where
  | sendData (data : List UInt8)
  | sendEof
  deriving DecidableEq

/-- What the actor passes to `stop!` and `fail!`. -/
inductive Cause where
  | stopped
  | setupFailure (e : Error)
  | readFailure (e : Error)
  | writeFailure (e : Error)
  | abortError
  deriving DecidableEq

/-- The `tcp` field comes with the trace of its calls. `timers` are the calls put off and
not made yet, `fired` those made, both from the oldest on; `causes` are the `stop!` and
`fail!` calls, which end the actor when the method that makes them returns. -/
structure Echoer where
  tcp : TcpSession
  timers : List Delayed := []
  fired : List Delayed := []
  causes : List Cause := []

namespace Echoer

/-- The outcomes for a turn of the loop in `ready`: those of its read, and those of the
flush that a `!` asks for. -/
structure Turn where
  spare : Nat := 0
  read : List (Result (List UInt8))
  flush : FlushOutcomes := {}

/-- What is passed to `read`. -/
def READ_MAX : Nat := 8192

/-- The end of `setup`, once the stream has been added as source number `id`. -/
def setup (id : Nat) : Echoer where
  tcp := ⟨TcpStreamBuf.new.init id, [.init id]⟩

def writeCauses : Result Unit → List Cause
  | .error err => [.writeFailure err]
  | .ok () => []

/-- `fail!` if the flush failed, and `stop!` once the output is complete. -/
def flushCauses (buf : TcpStreamBuf) (rv : Result Unit) : List Cause :=
  writeCauses rv ++ if buf.outEof && buf.out.isEmpty then [.stopped] else []

def flush (e : Echoer) (o : FlushOutcomes) : Exec Echoer := do
  let (buf, rv, calls) ← e.tcp.buf.flush o
  .ret { e with
    tcp := ⟨buf, e.tcp.trace ++ calls.map .call⟩
    causes := e.causes ++ flushCauses buf rv }

/-- `self.tcp.out_eof = true`, and the flush after it. -/
def setOutEof (e : Echoer) (o : FlushOutcomes) : Exec Echoer :=
  flush { e with
    tcp := ⟨{ e.tcp.buf with outEof := true }, e.tcp.trace ++ [.outEof true]⟩ } o

def sendData (e : Echoer) (data : List UInt8) (o : FlushOutcomes) : Exec Echoer :=
  flush { e with
    tcp := ⟨{ e.tcp.buf with out := e.tcp.buf.out ++ data }, e.tcp.trace ++ [.appended data]⟩ } o

def sendEof (e : Echoer) (o : FlushOutcomes) : Exec Echoer := e.setOutEof o

def checkSpecialChars (e : Echoer) (data : List UInt8) (o : FlushOutcomes) : Exec Echoer := do
  let e ← (if data.contains '!'.toUInt8 then e.setOutEof o else .ret e)
  if data.contains '%'.toUInt8 then .ret { e with causes := e.causes ++ [.abortError] } else .ret e

/-- `self.tcp.inp[self.tcp.rd..self.tcp.wr].to_vec()`, and `rd = wr`. -/
def takeInput (e : Echoer) : Exec (List UInt8 × Echoer) :=
  let b := e.tcp.buf
  if b.rd ≤ b.wr ∧ b.wr ≤ b.inp.length then
    .ret (b.unread, { e with
      tcp := ⟨{ b with rd := b.wr }, e.tcp.trace ++ [.consumed b.unread]⟩ })
  else .panic

/-- The `loop` in `ready`. -/
def readLoop (usizeMax : Nat) (e : Echoer) : List Turn → Exec Echoer
  | [] => .wait
  | turn :: turns => do
    let (buf, status, calls) ← e.tcp.buf.read usizeMax turn.spare READ_MAX turn.read
    let e := { e with tcp := ⟨buf, e.tcp.trace ++ calls.map .call⟩ }
    match status with
    | .newData => do
      let (data, e) ← e.takeInput
      let e ← e.checkSpecialChars data turn.flush
      readLoop usizeMax { e with timers := e.timers ++ [.sendData data] } turns
    | .wouldBlock => .ret e
    | .endOfStream => .ret { e with timers := e.timers ++ [.sendEof] }
    | .error err => .ret { e with causes := e.causes ++ [.readFailure err] }

def ready (usizeMax : Nat) (e : Echoer) (ready : Ready) (turns : List Turn) (o : FlushOutcomes) :
    Exec Echoer := do
  let e ← (if ready.isReadable then e.readLoop usizeMax turns else .ret e)
  if ready.isWritable then e.flush o else .ret e

/-- The runtime makes the `i`-th of the calls put off. -/
def fire (e : Echoer) (i : Nat) (o : FlushOutcomes) : Exec Echoer :=
  match e.timers[i]? with
  | none => .ret e
  | some delayed =>
    let e := { e with timers := e.timers.eraseIdx i, fired := e.fired ++ [delayed] }
    match delayed with
    | .sendData data => e.sendData data o
    | .sendEof => e.sendEof o

/-- A call of the actor's methods by the runtime. -/
inductive Invocation where
  | ready (ready : Ready) (turns : List Turn) (flush : FlushOutcomes)
  | timer (i : Nat) (flush : FlushOutcomes)

/-- Calls to an actor that has ended are dropped. -/
def invoke (usizeMax : Nat) (e : Echoer) (inv : Invocation) : Exec Echoer :=
  if e.causes.isEmpty then
    match inv with
    | .ready ready turns flush => e.ready usizeMax ready turns flush
    | .timer i flush => e.fire i flush
  else .ret e

abbrev runs (usizeMax : Nat) (e : Echoer) (calls : List Invocation) : Exec Echoer :=
  Lib.run (invoke usizeMax) e calls

/-! ## What the methods do -/

variable {usizeMax : Nat} {e e' : Echoer}

theorem flush_ret {o : FlushOutcomes} (h : e.flush o = .ret e') :
    ∃ buf rv calls, e.tcp.buf.flush o = .ret (buf, rv, calls) ∧
      e' = { e with
        tcp := ⟨buf, e.tcp.trace ++ calls.map .call⟩
        causes := e.causes ++ flushCauses buf rv } := by
  obtain ⟨⟨buf, rv, calls⟩, hf, h⟩ := Exec.bind_eq_ret.mp h
  cases h
  exact ⟨buf, rv, calls, hf, rfl⟩

theorem takeInput_ret {data : List UInt8} (h : e.takeInput = .ret (data, e')) :
    data = e.tcp.buf.unread ∧ e' = { e with
      tcp := ⟨{ e.tcp.buf with rd := e.tcp.buf.wr },
        e.tcp.trace ++ [.consumed e.tcp.buf.unread]⟩ } := by
  unfold takeInput at h
  dsimp only at h
  split at h
  · cases h
    exact ⟨rfl, rfl⟩
  · cases h

end Echoer
end StakkerMio
