import StakkerMio.Io
import StakkerMio.Lib.Slab
import Mathlib.Data.BitVec

/-! # The poll controller

`Control` of `miopoll.rs` with its operations. The slab `S` is a parameter
(`Lib.Slab`), as are the type `F` of `Fwd` handlers and the type `ρ` of the
values they are called with: `poll` stores and passes on these values without
looking at them. The crate's own value type is `Ready`. -/
namespace StakkerMio
open Lib

/-! ## Readiness values -/

/-- What mio reports for one event. -/
structure MioEvent where
  token : Nat
  isReadable : Bool
  isWritable : Bool
  isError : Bool
  isReadClosed : Bool
  isWriteClosed : Bool
  isPriority : Bool
  isAio : Bool
  isLio : Bool
  deriving Repr, DecidableEq

/-- The flags of an event, packed into a `u16`. -/
structure Ready where
  bits : BitVec 16
  deriving Repr, DecidableEq

namespace Ready

def READY_RD : BitVec 16 := 1
def READY_WR : BitVec 16 := 2
def READY_ERROR : BitVec 16 := 4
def READY_RD_CLOSED : BitVec 16 := 8
def READY_WR_CLOSED : BitVec 16 := 16
def READY_PRIORITY : BitVec 16 := 32
def READY_AIO : BitVec 16 := 64
def READY_LIO : BitVec 16 := 128

/-- The `test!` macro of `Ready::new`. -/
def test (t : Bool) (val : BitVec 16) : BitVec 16 := if t then val else 0

def new (ev : MioEvent) : Ready :=
  ⟨test ev.isReadable READY_RD + test ev.isWritable READY_WR + test ev.isError READY_ERROR
    + test ev.isReadClosed READY_RD_CLOSED + test ev.isWriteClosed READY_WR_CLOSED
    + test ev.isPriority READY_PRIORITY + test ev.isAio READY_AIO + test ev.isLio READY_LIO⟩

def isReadable (r : Ready) : Bool := 0 != READY_RD &&& r.bits
def isWritable (r : Ready) : Bool := 0 != READY_WR &&& r.bits
def isError (r : Ready) : Bool := 0 != READY_ERROR &&& r.bits
def isReadClosed (r : Ready) : Bool := 0 != READY_RD_CLOSED &&& r.bits
def isWriteClosed (r : Ready) : Bool := 0 != READY_WR_CLOSED &&& r.bits
def isPriority (r : Ready) : Bool := 0 != READY_PRIORITY &&& r.bits
def isAio (r : Ready) : Bool := 0 != READY_AIO &&& r.bits
def isLio (r : Ready) : Bool := 0 != READY_LIO &&& r.bits

/-- The accessors give back the event's flags. -/
theorem new_flags (ev : MioEvent) :
    [(new ev).isReadable, (new ev).isWritable, (new ev).isError, (new ev).isReadClosed,
      (new ev).isWriteClosed, (new ev).isPriority, (new ev).isAio, (new ev).isLio] =
    [ev.isReadable, ev.isWritable, ev.isError, ev.isReadClosed, ev.isWriteClosed,
      ev.isPriority, ev.isAio, ev.isLio] := by
  obtain ⟨token, rd, wr, err, rdc, wrc, pri, aio, lio⟩ := ev
  simp only [new, isReadable, isWritable, isError, isReadClosed, isWriteClosed, isPriority,
    isAio, isLio]
  revert rd wr err rdc wrc pri aio lio
  decide +kernel

end Ready

/-! ## The controller -/

def WAKER_TOKEN : Nat := 0
def MAX_PRI : Nat := 10

/-- An event as `poll` uses it: its token and the value made from its flags. -/
structure Event (ρ : Type) where
  token : Nat
  ready : ρ
  deriving Repr, DecidableEq

/-- What `poll` takes from an event of mio. -/
def MioEvent.toEvent (ev : MioEvent) : Event Ready := ⟨ev.token, Ready.new ev⟩

structure QueueEvent (ρ : Type) where
  token : Nat
  ready : ρ
  deriving Repr, DecidableEq

structure Entry (F : Type) where
  pri : Nat
  fwd : F
  deriving Repr, DecidableEq

abbrev Queues (ρ : Type) := Vector (List (QueueEvent ρ)) MAX_PRI

/-- The mio `Poll`, its event buffer (empty between calls) and the waker are
the environment here. The capacity limits on memory keep `nQueued` far below
the range of `usize`. -/
structure Control (S F ρ : Type) where
  tokenMap : S
  queues : Queues ρ
  nQueued : Nat
  maxPri : Nat
  priorities : BitVec 16
  errors : List Error

/-- A call of a handler: the token its entry was found under, the handler, and
the value it is called with. -/
structure Call (F ρ : Type) where
  token : Nat
  fwd : F
  ready : ρ
  deriving Repr, DecidableEq

variable {S F ρ : Type}

/-- `self.queues[i].push(q)`. -/
def Queues.push (queues : Queues ρ) (i : Nat) (q : QueueEvent ρ) : Exec (Queues ρ) :=
  if h : i < MAX_PRI then .ret (queues.set i (queues[i] ++ [q])) else .panic

/-- `1 << i`, as a `u16`. -/
def bit (i : Nat) : BitVec 16 := (1 : BitVec 16) <<< i

/-- `0 != (priorities & (1 << i))`. -/
def inUse (priorities : BitVec 16) (i : Nat) : Bool := 0 != (priorities &&& bit i)

theorem bit_getLsbD {i j : Nat} (hj : j < 16) : (bit i).getLsbD j = decide (j = i) := by
  by_cases h : j = i
  · subst h
    simp [bit, hj]
  · by_cases hlt : j < i
    · simp [bit, h, hlt]
    · simp [bit, BitVec.getLsbD_one, h, show j - i ≠ 0 by omega]

theorem inUse_eq (priorities : BitVec 16) {i : Nat} (hi : i < 16) :
    inUse priorities i = priorities.getLsbD i := by
  cases hb : priorities.getLsbD i with
  | true =>
    have hne : (0 : BitVec 16) ≠ priorities &&& bit i := by
      intro he
      have hz := congrArg (fun x => BitVec.getLsbD x i) he
      simp [hb, bit_getLsbD hi] at hz
    exact bne_iff_ne.mpr hne
  | false =>
    have he : priorities &&& bit i = 0 := by
      apply BitVec.eq_of_getLsbD_eq
      intro j hj
      by_cases hji : j = i
      · subst hji
        simp [hb]
      · simp [bit_getLsbD hj, hji]
    simp [inUse, he]

/-- `priorities |= 1 << pri` sets that bit and keeps the others. -/
theorem inUse_or (priorities : BitVec 16) (pri : Nat) {i : Nat} (hi : i < 16) :
    inUse (priorities ||| bit pri) i = (inUse priorities i || decide (i = pri)) := by
  rw [inUse_eq _ hi, inUse_eq _ hi, BitVec.getLsbD_or, bit_getLsbD hi]

namespace Control
variable [Slab S (Entry F)]

/-- The entry stays in the token map, and the priority in use, whatever the
registration gives. -/
def add (c : Control S F ρ) (register : List (Result Unit)) (pri : Nat) (fwd : F) :
    Exec (Result Nat × Control S F ρ) := do
  let pri := min pri MAX_PRI
  let (token, tokenMap) := Slab.insert c.tokenMap ⟨pri, fwd⟩
  let c := { c with
    maxPri := max c.maxPri pri
    priorities := c.priorities ||| bit pri
    tokenMap := tokenMap }
  match ← retry register with
  | .error e => .ret (.error e, c)
  | .ok () => .ret (.ok token, c)

/-- `rv.and(Err(NotFound))` if the token is not in the map. -/
def del (c : Control S F ρ) (token : Nat) (deregister : List (Result Unit)) :
    Exec (Result Unit × Control S F ρ) := do
  let rv ← retry deregister
  if Slab.contains c.tokenMap token then
    .ret (rv, { c with tokenMap := Slab.remove c.tokenMap token })
  else
    .ret (rv.bind fun _ => .error { kind := .notFound }, c)

/-- `self.token_map[WAKER_TOKEN.0].fwd = fwd`, which panics on a vacant slot. -/
def setWakeFwd (c : Control S F ρ) (fwd : F) : Exec (Control S F ρ) :=
  match Slab.get c.tokenMap WAKER_TOKEN with
  | none => .panic
  | some entry =>
    .ret { c with tokenMap := Slab.set c.tokenMap WAKER_TOKEN { entry with fwd := fwd } }

/-- The locals of `poll` next to the controller. -/
structure Polling (S F ρ : Type) where
  ctrl : Control S F ρ
  done : Bool
  calls : List (Call F ρ)

/-- The body of `for ev in &self.events`. -/
def pollEvent (p : Polling S F ρ) (ev : Event ρ) : Exec (Polling S F ρ) :=
  match Slab.get p.ctrl.tokenMap ev.token with
  | none => .ret p
  | some entry =>
    if entry.pri = p.ctrl.maxPri then
      .ret { p with done := true, calls := p.calls ++ [⟨ev.token, entry.fwd, ev.ready⟩] }
    else do
      let queues ← p.ctrl.queues.push entry.pri ⟨ev.token, ev.ready⟩
      .ret { p with ctrl := { p.ctrl with queues := queues, nQueued := p.ctrl.nQueued + 1 } }

/-- The body of `for qev in qu.drain(..)`. -/
def drainEvent (p : Polling S F ρ) (qev : QueueEvent ρ) : Polling S F ρ :=
  match Slab.get p.ctrl.tokenMap qev.token with
  | none => p
  | some entry =>
    { p with done := true, calls := p.calls ++ [⟨qev.token, entry.fwd, qev.ready⟩] }

/-- The body of `for i in (0..self.max_pri as usize).rev()`. -/
def drainLevel (p : Polling S F ρ) (i : Nat) : Exec (Polling S F ρ) :=
  if h : i < MAX_PRI then
    let qu := p.ctrl.queues[i]
    if inUse p.ctrl.priorities i && !qu.isEmpty then
      if !p.done then
        let p := qu.foldl drainEvent p
        .ret { p with ctrl := { p.ctrl with queues := p.ctrl.queues.set i [] } }
      else
        .ret { p with ctrl := { p.ctrl with nQueued := p.ctrl.nQueued + qu.length } }
    else
      .ret p
  else
    .panic

/-- Levels `n - 1` down to `0`. -/
def drainLevels : Nat → Polling S F ρ → Exec (Polling S F ρ)
  | 0, p => .ret p
  | i + 1, p => do
    let p ← drainLevel p i
    drainLevels i p

/-- The block `if !done && self.n_queued > 0`. -/
def drainQueues (p : Polling S F ρ) : Exec (Polling S F ρ) :=
  if !p.done && decide (p.ctrl.nQueued > 0) then
    drainLevels p.ctrl.maxPri { p with ctrl := { p.ctrl with nQueued := 0 } }
  else
    .ret p

/-- `poll` once mio has reported `events`. -/
def pollEvents (c : Control S F ρ) (events : List (Event ρ)) :
    Exec (Control S F ρ × (Bool × Bool) × List (Call F ρ)) := do
  let p ← events.foldlM pollEvent ⟨c, false, []⟩
  let p ← drainQueues p
  let pending := decide (p.ctrl.nQueued > 0)
  .ret (p.ctrl, (p.done, pending), p.calls)

/-- The outcomes are those of `self.poll.poll`, with the events it reports; the
last component is the calls of handlers made. -/
def poll (c : Control S F ρ) (outcomes : List (Result (List (Event ρ)))) :
    Exec (Control S F ρ × Result (Bool × Bool) × List (Call F ρ)) := do
  match ← retry outcomes with
  | .error e => .ret (c, .error e, [])
  | .ok events =>
    let (c, rv, calls) ← c.pollEvents events
    .ret (c, .ok rv, calls)

end Control
end StakkerMio
