import StakkerMio.Lib.Trace
import StakkerMio.Tcp.StreamBuf

/-! # Runs over a `TcpStreamBuf`

The application and the crate's operations in any order, with a trace of what
happened: what the application did to the buffer, and every call made on a
stream with its outcome. -/
namespace StakkerMio
open Lib

inductive TcpOp where
  /-- Appends to `out`, directly or by `Write::write`. -/
  | append (bytes : List UInt8)
  | ioWrite (buf : List UInt8)
  | setOutEof (eof : Bool)
  | init (stream : Nat)
  | deinit
  | setNodelay (nodelay : Bool)
  | pauseWrites (pause : Bool)
  | flush (outcomes : FlushOutcomes)
  | inpMakespace (max spare : Nat)
  | read (max spare : Nat) (outcomes : List (Result (List UInt8)))
  | ioRead (len : Nat)
  /-- The application takes `n` bytes from `inp` and moves `rd` on. -/
  | consume (n : Nat)

/-- What a trace records. -/
inductive TcpEvent where
  | appended (bytes : List UInt8)
  | outEof (eof : Bool)
  | init (stream : Nat)
  | deinit
  | setNodelay (nodelay : Bool)
  | pauseWrites (pause : Bool)
  | consumed (bytes : List UInt8)
  | call (c : StreamCall)

structure TcpSession where
  buf : TcpStreamBuf := TcpStreamBuf.new
  trace : List TcpEvent := []

namespace TcpSession

def step (usizeMax : Nat) (s : TcpSession) : TcpOp → Exec TcpSession
  | .append bytes =>
    .ret ⟨{ s.buf with out := s.buf.out ++ bytes }, s.trace ++ [.appended bytes]⟩
  | .ioWrite buf => .ret ⟨(s.buf.ioWrite buf).1, s.trace ++ [.appended buf]⟩
  | .setOutEof eof => .ret ⟨{ s.buf with outEof := eof }, s.trace ++ [.outEof eof]⟩
  | .init stream => .ret ⟨s.buf.init stream, s.trace ++ [.init stream]⟩
  | .deinit => .ret ⟨s.buf.deinit, s.trace ++ [.deinit]⟩
  | .setNodelay nodelay => .ret ⟨s.buf.setNodelay nodelay, s.trace ++ [.setNodelay nodelay]⟩
  | .pauseWrites pause => .ret ⟨s.buf.pauseWrites pause, s.trace ++ [.pauseWrites pause]⟩
  | .flush outcomes => do
    let (buf, _, calls) ← s.buf.flush outcomes
    .ret ⟨buf, s.trace ++ calls.map .call⟩
  | .inpMakespace max spare => do
    let buf ← s.buf.inpMakespace usizeMax spare max
    .ret ⟨buf, s.trace⟩
  | .read max spare outcomes => do
    let (buf, _, calls) ← s.buf.read usizeMax spare max outcomes
    .ret ⟨buf, s.trace ++ calls.map .call⟩
  | .ioRead len => do
    let (buf, rv) ← s.buf.ioRead len
    .ret ⟨buf, s.trace ++ match rv with
      | .ok bytes => [.consumed bytes]
      | .error _ => []⟩
  | .consume n =>
    .ret ⟨{ s.buf with rd := s.buf.rd + n },
      s.trace ++ [.consumed (Window.slice s.buf.inp s.buf.rd (s.buf.rd + n))]⟩

/-- What a step records does not depend on the trace before it. -/
theorem step_trace (usizeMax : Nat) (b : TcpStreamBuf) (tr : List TcpEvent) (op : TcpOp) :
    step usizeMax ⟨b, tr⟩ op =
      (fun t => ⟨t.buf, tr ++ t.trace⟩) <$> step usizeMax ⟨b, []⟩ op := by
  cases op with
  | append | ioWrite | setOutEof | init | deinit | setNodelay | pauseWrites | consume => rfl
  | flush outcomes =>
    simp only [step]
    cases b.flush outcomes <;> rfl
  | inpMakespace max spare =>
    simp only [step]
    cases b.inpMakespace usizeMax spare max with
    | ret b' => simp only [Exec.ret_bind, Exec.map_ret, List.append_nil]
    | _ => rfl
  | read max spare outcomes =>
    simp only [step]
    cases b.read usizeMax spare max outcomes <;> rfl
  | ioRead len =>
    simp only [step]
    cases b.ioRead len <;> rfl

abbrev runs (usizeMax : Nat) (s : TcpSession) (ops : List TcpOp) : Exec TcpSession :=
  Lib.run (step usizeMax) s ops

end TcpSession
end StakkerMio
