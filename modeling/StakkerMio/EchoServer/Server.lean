import StakkerMio.EchoServer.Echoer
import StakkerMio.MioPoll.Pending

/-! # The echo server

`main` of the example server: a `MioPoll`, the `Listener`, its `Echoer`s, and the calls
that wait in the queue of the runtime. The steps are a poll, the next call in the queue,
and the timers; each is given the outcomes of the system calls it makes. The priorities
are parameters (the source has 10 for each). -/
namespace StakkerMio
open Lib

/-- The handlers: `fwd_nop!()`, the default wake handler, and those of the actors. -/
inductive Handler where
  | nop
  | wake
  | connect
  | ready (id : Nat)
  deriving DecidableEq

/-- A call in the queue: `Listener::init`, `Echoer::init` for a stream accepted, a
handler's, or the notice to the listener that a child has ended. -/
inductive Message where
  | listen
  | accepted
  | event (fwd : Handler) (ready : Ready)
  | terminated (causes : List Cause)

/-- `stopCause` is what the runtime reports of an actor that has called `stop!` and
`fail!` in this order. -/
structure ServerConfig where
  usizeMax : Nat
  wakerPri : Nat := 10
  listenerPri : Nat := 10
  echoerPri : Nat := 10
  stopCause : List Cause → Cause

/-- An `Echoer` and what the system owes its stream under edge triggering. A stream just
registered is owed an event for what it is ready for; a call that would block is owed one
when it no longer would; a report of the event settles the debt. -/
structure Conn where
  echoer : Echoer
  owesRead : Bool := true
  owesWrite : Bool := true

/-- The actors go by the number of the `add` that registered their source. With
`shutdown` the loop of `main` is left, and nothing more happens. -/
structure Server (S : Type) where
  sys : System (Control S Handler Ready) Handler Ready
  listener : Option Nat := none
  listenerOwes : Bool := true
  conns : Nat → Option Conn := fun _ => none
  inbox : List Message := [.listen]
  shutdown : Bool := false

/-- The outcomes for the next call in the queue, whichever it is. -/
structure Script where
  bind : Result Unit := .ok ()
  register : List (Result Unit) := []
  accepts : List (Result Unit) := []
  turns : List Echoer.Turn := []
  flush : FlushOutcomes := {}
  deregister : List (Result Unit) := []

/-- What the runtime does: the next call in its queue, the `i`-th call put off by an
`Echoer`, or the inactivity timer of the listener. -/
inductive RuntimeOp where
  | call (script : Script)
  | timer (id i : Nat) (flush : FlushOutcomes) (deregister : List (Result Unit))
  | inactive

inductive ServerOp where
  | poll (outcomes : List (Result (List (Event Ready))))
  | runtime (op : RuntimeOp)

namespace TcpEvent

/-- A read that would block. -/
def blockedRead : TcpEvent → Bool
  | .call (.read _ (.error e)) => e.kind == .wouldBlock
  | _ => false

/-- A call of the output side that would block. -/
def blockedWrite : TcpEvent → Bool
  | .call (.write _ (.error e)) | .call (.flush (.error e)) | .call (.shutdown (.error e)) =>
    e.kind == .wouldBlock
  | _ => false

end TcpEvent

/-- The events of a poll. -/
def eventsOf {ρ : Type} (outcomes : List (Result (List (Event ρ)))) : List (Event ρ) :=
  match retry outcomes with
  | .ret (.ok events) => events
  | _ => []

/-- The calls of handlers made on the way from `s` to `t`. -/
def System.newCalls {K F ρ : Type} (s t : System K F ρ) : List (Call F ρ) :=
  (t.polled.drop s.polled.length).flatMap Prod.snd

namespace Server
variable {S : Type} [Slab S (Entry Handler)]

/-- The poll reports an event with the flag for the source. -/
def reports (s : Server S) (events : List (Event Ready)) (id : Nat) (flag : Ready → Bool) : Bool :=
  match s.sys.source id with
  | none => false
  | some src => events.any fun ev => ev.token == src.token && flag ev.ready

/-- What a report leaves owed. -/
def Conn.report (conn : Conn) (readable writable : Bool) : Conn :=
  { conn with
    owesRead := conn.owesRead && !readable
    owesWrite := conn.owesWrite && !writable }

def poll (s : Server S) (outcomes : List (Result (List (Event Ready)))) : Exec (Server S) := do
  let sys ← s.sys.next (.poll outcomes)
  let events := eventsOf outcomes
  .ret { s with
    sys := sys
    listenerOwes := s.listenerOwes &&
      !(s.listener.any fun id => s.reports events id fun _ => true)
    conns := fun id => (s.conns id).map fun conn =>
      Conn.report conn (s.reports events id Ready.isReadable)
        (s.reports events id Ready.isWritable)
    inbox := s.inbox ++ (s.sys.newCalls sys).map fun call => .event call.fwd call.ready }

/-- `Listener::init`. -/
def listen (cfg : ServerConfig) (s : Server S) (script : Script) : Exec (Server S) :=
  match script.bind with
  | .error _ => .ret { s with shutdown := true }
  | .ok () => do
    let sys ← s.sys.next (.add cfg.listenerPri .connect script.register)
    match retry script.register with
    | .ret (.ok ()) =>
      .ret { s with sys := sys, listener := some sys.adds, listenerOwes := true }
    | _ => .ret { s with sys := sys, shutdown := true }

/-- `Echoer::init`. -/
def initEchoer (cfg : ServerConfig) (s : Server S) (script : Script) : Exec (Server S) := do
  let id := s.sys.adds + 1
  let sys ← s.sys.next (.add cfg.echoerPri (.ready id) script.register)
  match retry script.register with
  | .ret (.error e) =>
    .ret { s with sys := sys, inbox := s.inbox ++ [.terminated [.setupFailure e]] }
  | _ =>
    let conn : Conn := { echoer := .setup id }
    .ret { s with sys := sys, conns := Function.update s.conns id (some conn) }

/-- `Listener::connect`. -/
def connect (s : Server S) : List (Result Unit) → Exec (Server S)
  | [] => .wait
  | .ok () :: accepts => connect { s with inbox := s.inbox ++ [.accepted] } accepts
  | .error e :: accepts =>
    if e.kind = .wouldBlock then .ret { s with listenerOwes := true }
    else if e.kind = .interrupted then connect s accepts
    else .ret { s with shutdown := true }

/-- A call of an `Echoer`'s method. If it ends the actor, its source is dropped with it,
and the listener is told. -/
def invoke (cfg : ServerConfig) (s : Server S) (id : Nat) (inv : Echoer.Invocation)
    (deregister : List (Result Unit)) : Exec (Server S) :=
  match s.conns id with
  | none => .ret s
  | some conn => do
    let e ← conn.echoer.invoke cfg.usizeMax inv
    if e.causes.isEmpty then
      let es := e.tcp.trace.drop conn.echoer.tcp.trace.length
      let conn : Conn :=
        { echoer := e
          owesRead := conn.owesRead || es.any TcpEvent.blockedRead
          owesWrite := conn.owesWrite || es.any TcpEvent.blockedWrite }
      .ret { s with conns := Function.update s.conns id (some conn) }
    else do
      let sys ← s.sys.next (.drop id deregister)
      .ret { s with
        sys := sys
        conns := Function.update s.conns id none
        inbox := s.inbox ++ [.terminated e.causes] }

/-- The runtime makes the first call in its queue. -/
def call (cfg : ServerConfig) (s : Server S) (script : Script) : Exec (Server S) :=
  match s.inbox with
  | [] => .ret s
  | message :: inbox =>
    let s := { s with inbox := inbox }
    match message with
    | .listen => s.listen cfg script
    | .accepted => s.initEchoer cfg script
    | .event .connect _ => if s.listener.isSome then s.connect script.accepts else .ret s
    | .event (.ready id) ready =>
      s.invoke cfg id (.ready ready script.turns script.flush) script.deregister
    | .event .nop _ | .event .wake _ => .ret s
    | .terminated causes =>
      if cfg.stopCause causes = .abortError then .ret { s with shutdown := true } else .ret s

def runtime (cfg : ServerConfig) (s : Server S) : RuntimeOp → Exec (Server S)
  | .call script => s.call cfg script
  | .timer id i flush deregister => s.invoke cfg id (.timer i flush) deregister
  | .inactive => .ret { s with shutdown := s.listener.isSome }

def step (cfg : ServerConfig) (s : Server S) (op : ServerOp) : Exec (Server S) :=
  if s.shutdown then .ret s else
  match op with
  | .poll outcomes => s.poll outcomes
  | .runtime op => s.runtime cfg op

abbrev runs (cfg : ServerConfig) (s : Server S) (ops : List ServerOp) : Exec (Server S) :=
  Lib.run (step cfg) s ops

/-- At first the call of `Listener::init` waits in the queue. -/
def start (c : Control S Handler Ready) : Server S where
  sys := { ctrl := c }

end Server
end StakkerMio
