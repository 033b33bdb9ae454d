import StakkerMio.Tcp.Session
import StakkerMio.Tls.Engine

/-! # Runs over a `TlsServerEngine`

`process` in any order with operations on the two buffers: `ext`, which the network
side reads and flushes, and `int`, which the application reads and appends to. -/
namespace StakkerMio
open Lib ServerConnection

inductive TlsOp where
  | process (fuel : Nat) (outcomes : TlsOutcomes)
  | ext (op : TcpOp)
  | int (op : TcpOp)

/-- What a trace records: events of `process`, and those of other operations on
either buffer. -/
inductive TlsSessionEvent (SC : Type) where
  | engine (e : TlsEvent SC)
  | ext (e : TcpEvent)
  | int (e : TcpEvent)

/-- An operation of the network side. -/
def TcpOp.network : TcpOp → Bool
  | .append _ | .ioWrite _ | .setOutEof _ | .ioRead _ | .consume _ => false
  | _ => true

/-- An operation of the application, which does not append after setting EOF. -/
def TcpOp.application (b : TcpStreamBuf) : TcpOp → Bool
  | .append _ | .ioWrite _ => !b.outEof
  | .setOutEof eof => eof
  | .inpMakespace _ _ | .ioRead _ | .consume _ => true
  | _ => false

structure TlsSession (SC : Type) where
  engine : TlsServerEngine SC
  ext : TcpStreamBuf := TcpStreamBuf.new
  int : TcpStreamBuf := TcpStreamBuf.new
  trace : List (TlsSessionEvent SC) := []

namespace TlsSession
variable {SC : Type}

/-- With a TLS configuration: the connection is `sc`. -/
def start (sc : SC) : TlsSession SC := { engine := TlsServerEngine.new (some sc) }

def step [ServerConnection SC] (usizeMax : Nat) (s : TlsSession SC) :
    TlsOp → Exec (TlsSession SC)
  | .process fuel outcomes => do
    let r ← s.engine.process usizeMax fuel s.ext s.int outcomes
    .ret ⟨r.engine, r.ext, r.int, s.trace ++ (r.events ++ [TlsEvent.returned r.rv]).map .engine⟩
  | .ext op => do
    let t ← TcpSession.step usizeMax ⟨s.ext, []⟩ op
    .ret { s with ext := t.buf, trace := s.trace ++ t.trace.map .ext }
  | .int op => do
    let t ← TcpSession.step usizeMax ⟨s.int, []⟩ op
    .ret { s with int := t.buf, trace := s.trace ++ t.trace.map .int }

abbrev runs [ServerConnection SC] (usizeMax : Nat) (s : TlsSession SC) (ops : List TlsOp) :
    Exec (TlsSession SC) :=
  Lib.run (step usizeMax) s ops

/-- Each buffer is left to its own side. -/
def allowed (s : TlsSession SC) : TlsOp → Bool
  | .process _ _ => true
  | .ext op => op.network
  | .int op => op.application s.int

end TlsSession
end StakkerMio
