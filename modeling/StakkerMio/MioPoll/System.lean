import StakkerMio.MioPoll.Control

/-! # `MioPoll`, its sources, and runs over them

The handles of `miopoll.rs` over a controller type `K`: a run adds sources,
drops them, sets the wake handler and polls, in any order. Everything a run
does is a function of its operations, which carry the outcomes of the mio calls
they make. The same runs are used for `Control` and for the reference
scheduler it is compared with. -/
namespace StakkerMio
open Lib

/-- What a controller does for `MioPoll::add`, `MioSource::drop`,
`MioPoll::set_wake_fwd` and `MioPoll::poll`. -/
structure Controller (K F ρ : Type) where
  add : K → List (Result Unit) → Nat → F → Exec (Result Nat × K)
  drop : K → Nat → List (Result Unit) → Exec K
  setWakeFwd : K → F → Exec K
  poll : K → List (Result (List (Event ρ))) →
    Exec (K × Result (Bool × Bool) × List (Call F ρ))

/-- A live `MioSource`: its token, and on record which `add` of the run made it
and with what priority and handler. The mio source itself is not modelled. -/
structure MioSource (F : Type) where
  token : Nat
  id : Nat
  pri : Nat
  fwd : F
  deriving Repr, DecidableEq

/-- `adds` counts the calls of `add`, failed ones included; `polled` is what
each poll returned and which handlers it called. -/
structure System (K F ρ : Type) where
  ctrl : K
  sources : List (MioSource F) := []
  adds : Nat := 0
  polled : List (Result (Bool × Bool) × List (Call F ρ)) := []

inductive Op (F ρ : Type) where
  | add (pri : Nat) (fwd : F) (register : List (Result Unit))
  | drop (id : Nat) (deregister : List (Result Unit))
  | setWakeFwd (fwd : F)
  | poll (outcomes : List (Result (List (Event ρ))))

namespace System
variable {K F ρ : Type}

/-- The live source that the `id`-th `add` made. -/
def source (s : System K F ρ) (id : Nat) : Option (MioSource F) :=
  s.sources.find? fun src => src.id == id

def step (m : Controller K F ρ) (s : System K F ρ) : Op F ρ → Exec (System K F ρ)
  | .add pri fwd register => do
    let (rv, ctrl) ← m.add s.ctrl register pri fwd
    let s := { s with ctrl := ctrl, adds := s.adds + 1 }
    match rv with
    | .error _ => .ret s
    | .ok token => .ret { s with sources := s.sources ++ [⟨token, s.adds, pri, fwd⟩] }
  | .drop id deregister =>
    match s.source id with
    | none => .ret s
    | some src => do
      let ctrl ← m.drop s.ctrl src.token deregister
      .ret { s with ctrl := ctrl, sources := s.sources.filter fun src => src.id != id }
  | .setWakeFwd fwd => do
    let ctrl ← m.setWakeFwd s.ctrl fwd
    .ret { s with ctrl := ctrl }
  | .poll outcomes => do
    let (ctrl, rv, calls) ← m.poll s.ctrl outcomes
    .ret { s with ctrl := ctrl, polled := s.polled ++ [(rv, calls)] }

end System

namespace Control
variable {S F ρ : Type} [Slab S (Entry F)]

/-- `MioSource::drop`: an error of `del` is kept in `errors`. -/
def drop (c : Control S F ρ) (token : Nat) (deregister : List (Result Unit)) :
    Exec (Control S F ρ) := do
  match ← c.del token deregister with
  | (.error e, c) => .ret { c with errors := c.errors ++ [e] }
  | (.ok (), c) => .ret c

/-- The controller of the crate. -/
def controller : Controller (Control S F ρ) F ρ := ⟨add, drop, setWakeFwd, poll⟩

end Control

namespace MioPoll
variable {S F ρ : Type} [Slab S (Entry F)]

/-- `MioPoll::new`: `nop` is `fwd_nop!()`, `wake` the default wake handler, and
the outcomes are those of `Waker::new`. A first key other than `WAKER_TOKEN`
fails the assertion. -/
def new (nop wake : F) (wakerPri : Nat) (waker : List (Result Unit)) :
    Exec (Result (Control S F ρ)) := do
  let wakerPri := min wakerPri MAX_PRI
  let (wakerToken, tokenMap) := Slab.insert (Slab.empty : S) ⟨wakerPri, nop⟩
  if wakerToken ≠ WAKER_TOKEN then .panic else
  match ← retry waker with
  | .error e => .ret (.error e)
  | .ok () =>
    let ctrl : Control S F ρ :=
      { tokenMap := tokenMap
        queues := Vector.replicate MAX_PRI []
        nQueued := 0
        maxPri := wakerPri
        priorities := bit wakerPri
        errors := [] }
    let ctrl ← ctrl.setWakeFwd wake
    .ret (.ok ctrl)

end MioPoll

end StakkerMio
