import StakkerMio.Lib.Levels
import StakkerMio.MioPoll.System

/-! # The reference scheduler

What `MioPoll` is for, stated on its own: one FIFO list per priority `0..=10`,
served from the highest down. There is no bound on the priorities in use, no
bitmap, no counter and no fast path. -/
namespace StakkerMio
open Lib

structure Scheduler (S ρ : Type) where
  tokenMap : S
  lists : Levels (QueueEvent ρ)

namespace Scheduler
variable {S F ρ : Type} [Slab S (Entry F)]

/-- The level an event is filed under: the priority its entry has now. -/
def place (tokenMap : S) (ev : Event ρ) : Option (Nat × QueueEvent ρ) :=
  (Slab.get tokenMap ev.token).map fun entry => (entry.pri, ⟨ev.token, ev.ready⟩)

/-- The call an event leads to, if its token is still occupied. -/
def deliver (tokenMap : S) (qev : QueueEvent ρ) : Option (Call F ρ) :=
  (Slab.get tokenMap qev.token).map fun entry => ⟨qev.token, entry.fwd, qev.ready⟩

def levels : Nat := MAX_PRI + 1

def pollEvents (s : Scheduler S ρ) (events : List (Event ρ)) :
    Scheduler S ρ × (Bool × Bool) × List (Call F ρ) :=
  let lists := Levels.file (place s.tokenMap) s.lists events
  let (calls, lists) := Levels.serve (deliver s.tokenMap) levels lists
  ({ s with lists := lists }, (!calls.isEmpty, Levels.pending levels lists), calls)

def poll (s : Scheduler S ρ) (outcomes : List (Result (List (Event ρ)))) :
    Exec (Scheduler S ρ × Result (Bool × Bool) × List (Call F ρ)) := do
  match ← retry outcomes with
  | .error e => .ret (s, .error e, [])
  | .ok events =>
    let (s, rv, calls) := s.pollEvents events
    .ret (s, .ok rv, calls)

/-- The token map is that of the code: a source is entered before it is
registered with mio. -/
def add (s : Scheduler S ρ) (register : List (Result Unit)) (pri : Nat) (fwd : F) :
    Exec (Result Nat × Scheduler S ρ) := do
  let (token, tokenMap) := Slab.insert s.tokenMap ⟨min pri MAX_PRI, fwd⟩
  let rv ← retry register
  .ret (rv.map fun _ => token, { s with tokenMap := tokenMap })

def drop (s : Scheduler S ρ) (token : Nat) (deregister : List (Result Unit)) :
    Exec (Scheduler S ρ) := do
  let _ ← retry deregister
  .ret (if Slab.contains s.tokenMap token then
    { s with tokenMap := Slab.remove s.tokenMap token } else s)

def setWakeFwd (s : Scheduler S ρ) (fwd : F) : Exec (Scheduler S ρ) :=
  match Slab.get s.tokenMap WAKER_TOKEN with
  | none => .panic
  | some entry =>
    .ret { s with tokenMap := Slab.set s.tokenMap WAKER_TOKEN { entry with fwd := fwd } }

def controller : Controller (Scheduler S ρ) F ρ := ⟨add, drop, setWakeFwd, poll⟩

/-- The scheduler with nothing filed and only the waker entered. -/
def new (nop wake : F) (wakerPri : Nat) : Exec (Scheduler S ρ) :=
  setWakeFwd ⟨(Slab.insert (Slab.empty : S) ⟨min wakerPri MAX_PRI, nop⟩).2, fun _ => []⟩ wake

end Scheduler
end StakkerMio
