import StakkerMio.Io
import StakkerMio.Lib.Window

/-! # `TcpStreamBuf`

The buffer of `tcpstrbuf.rs` with its operations, against given outcomes of the
calls it makes on its stream. Each operation also returns these calls, in order.
`usizeMax` is the largest `usize`; arithmetic that goes beyond it and slices out
of range panic. -/
namespace StakkerMio
open Lib

/-- Streams are told apart by numbers. -/
structure TcpStreamBuf where
  out : List UInt8 := []
  outEof : Bool := false
  inp : List UInt8 := []
  inpEof : Bool := false
  rd : Nat := 0
  wr : Nat := 0
  nodelay : Bool := false
  pendingSetNodelay : Bool := false
  sentOutEof : Bool := false
  pause : Bool := false
  stream : Option Nat := none
  deriving DecidableEq

/-- A call on the stream: what was passed and what came back. For `read`, the
length of the slice, and the bytes the stream wrote into it. -/
inductive StreamCall where
  | setNodelay (nodelay : Bool) (r : Result Unit)
  | write (buf : List UInt8) (r : Result Nat)
  | flush (r : Result Unit)
  | shutdown (r : Result Unit)
  | read (room : Nat) (r : Result (List UInt8))

/-- The outcomes for a `flush`, by the call they are for. -/
structure FlushOutcomes where
  setNodelay : List (Result Unit) := []
  write : List (Result Nat) := []
  flush : List (Result Unit) := []
  shutdown : List (Result Unit) := []

inductive ReadStatus where
  | newData
  | wouldBlock
  | endOfStream
  | error (e : Error)
  deriving DecidableEq

def addUsize (usizeMax a b : Nat) : Exec Nat :=
  if a + b ≤ usizeMax then .ret (a + b) else .panic

namespace TcpStreamBuf

def new : TcpStreamBuf := {}

def init (b : TcpStreamBuf) (stream : Nat) : TcpStreamBuf :=
  { b with stream := some stream, sentOutEof := false, pendingSetNodelay := true }

def deinit (b : TcpStreamBuf) : TcpStreamBuf := { b with stream := none }

def setNodelay (b : TcpStreamBuf) (nodelay : Bool) : TcpStreamBuf :=
  if b.nodelay ≠ nodelay then { b with nodelay := nodelay, pendingSetNodelay := true } else b

def pauseWrites (b : TcpStreamBuf) (pause : Bool) : TcpStreamBuf := { b with pause := pause }

/-! ## `flush` -/

/-- The locals of `flush`: the buffer, the calls made so far, and the value that
was returned, if an early `return` was taken. -/
structure Flushing where
  buf : TcpStreamBuf
  calls : List StreamCall
  rv : Option (Result Unit) := none

/-- The block `if self.pending_set_nodelay`. -/
def applyNodelay (b : TcpStreamBuf) (outcomes : List (Result Unit)) : Exec Flushing :=
  if b.pendingSetNodelay then do
    let (rv, tried) ← attempts outcomes
    let f : Flushing :=
      { buf := { b with pendingSetNodelay := false }
        calls := tried.map (StreamCall.setNodelay b.nodelay) }
    match rv with
    | .error e => .ret { f with rv := some (.error e) }
    | .ok () => .ret f
  else .ret { buf := b, calls := [] }

/-- `while !self.out.is_empty()`. The `drain` panics on more than was passed. -/
def writeLoop (b : TcpStreamBuf) : List (Result Nat) → Exec Flushing
  | [] => if b.out.isEmpty then .ret { buf := b, calls := [] } else .wait
  | r :: outcomes =>
    if b.out.isEmpty then .ret { buf := b, calls := [] } else
    let call := StreamCall.write b.out r
    match r with
    | .error e =>
      if e.kind = .interrupted then do
        let f ← writeLoop b outcomes
        .ret { f with calls := call :: f.calls }
      else if e.kind = .wouldBlock then .ret { buf := b, calls := [call], rv := some (.ok ()) }
      else .ret { buf := b, calls := [call], rv := some (.error e) }
    | .ok len =>
      if len = 0 then .ret { buf := b, calls := [call] }
      else if len ≤ b.out.length then do
        let f ← writeLoop { b with out := b.out.drop len } outcomes
        .ret { f with calls := call :: f.calls }
      else .panic

/-- The arms shared by the last two loops. -/
def finish (f : Flushing) : Result Unit → Flushing
  | .error e =>
    if e.kind = .wouldBlock then { f with rv := some (.ok ()) }
    else { f with rv := some (.error e) }
  | .ok () => f

/-- The loop around `stream.flush()`. -/
def flushStream (b : TcpStreamBuf) (outcomes : List (Result Unit)) : Exec Flushing := do
  let (rv, tried) ← attempts outcomes
  .ret (finish { buf := b, calls := tried.map StreamCall.flush } rv)

/-- The block around `stream.shutdown(Shutdown::Write)`. -/
def shutdownStream (b : TcpStreamBuf) (outcomes : List (Result Unit)) : Exec Flushing :=
  if b.outEof && !b.sentOutEof && b.out.isEmpty then do
    let (rv, tried) ← attempts outcomes
    let f := finish { buf := b, calls := tried.map StreamCall.shutdown } rv
    match f.rv with
    | some _ => .ret f
    | none => .ret { f with buf := { f.buf with sentOutEof := true } }
  else .ret { buf := b, calls := [] }

/-- The next block runs only if no value was returned before it. -/
def Flushing.andThen (f : Flushing) (k : TcpStreamBuf → Exec Flushing) : Exec Flushing :=
  match f.rv with
  | some _ => .ret f
  | none => do
    let g ← k f.buf
    .ret { g with calls := f.calls ++ g.calls }

def flush (b : TcpStreamBuf) (o : FlushOutcomes) :
    Exec (TcpStreamBuf × Result Unit × List StreamCall) :=
  if b.pause then .ret (b, .ok (), []) else
  match b.stream with
  | none => .ret (b, .ok (), [])
  | some _ => do
    let f ← applyNodelay b o.setNodelay
    let f ← f.andThen fun b => writeLoop b o.write
    let f ← f.andThen fun b => flushStream b o.flush
    let f ← f.andThen fun b => shutdownStream b o.shutdown
    .ret (f.buf, f.rv.getD (.ok ()), f.calls)

/-! ## Input -/

/-- The end of `inp_makespace`: `reserve` makes the capacity what it was asked for
and `spare` more. -/
def growInp (usizeMax spare : Nat) (b : TcpStreamBuf) (max' : Nat) : Exec TcpStreamBuf := do
  let stop ← addUsize usizeMax b.wr max'
  let double ← addUsize usizeMax max' max'
  let stop := max stop double
  if b.inp.length < stop then
    let capacity := stop + spare
    .ret { b with inp := b.inp ++ List.replicate (capacity - b.inp.length) 0 }
  else .ret b

/-- `if self.rd == self.wr`. -/
def rewind (b : TcpStreamBuf) : TcpStreamBuf :=
  if b.rd = b.wr then { b with rd := 0, wr := 0 } else b

/-- The block with `copy_within`, which panics unless the range is one of the buffer. -/
def compact (b : TcpStreamBuf) : Exec TcpStreamBuf :=
  if b.rd ≤ b.wr ∧ b.wr ≤ b.inp.length then
    .ret { b with
      inp := Window.copyWithin b.inp b.rd b.wr
      wr := b.wr - b.rd
      rd := 0 }
  else .panic

def inpMakespace (usizeMax spare : Nat) (b : TcpStreamBuf) (max : Nat) : Exec TcpStreamBuf := do
  let b := b.rewind
  let stop ← addUsize usizeMax b.wr max
  if stop ≤ b.inp.length then .ret b
  else if b.rd ≠ 0 then do
    let b ← b.compact
    let stop ← addUsize usizeMax b.wr max
    if stop ≤ b.inp.length then .ret b else growInp usizeMax spare b max
  else growInp usizeMax spare b max

/-- The `loop` of `read`, reading into `self.inp[self.wr..end]`. -/
def readLoop (usizeMax : Nat) (b : TcpStreamBuf) (stop : Nat) :
    List (Result (List UInt8)) → Exec (TcpStreamBuf × ReadStatus × List StreamCall)
  | [] => if b.wr ≤ stop ∧ stop ≤ b.inp.length then .wait else .panic
  | r :: outcomes =>
    if b.wr ≤ stop ∧ stop ≤ b.inp.length then
      let call := StreamCall.read (stop - b.wr) r
      match r with
      | .ok [] => .ret ({ b with inpEof := true }, .endOfStream, [call])
      | .ok bytes => do
        let wr ← addUsize usizeMax b.wr bytes.length
        let inp := Window.overwrite b.inp b.wr (bytes.take (stop - b.wr))
        .ret ({ b with inp := inp, wr := wr }, .newData, [call])
      | .error e =>
        if e.kind = .wouldBlock then .ret (b, .wouldBlock, [call])
        else if e.kind = .interrupted then do
          let (b, status, calls) ← readLoop usizeMax b stop outcomes
          .ret (b, status, call :: calls)
        else .ret (b, .error e, [call])
    else .panic

def read (usizeMax spare : Nat) (b : TcpStreamBuf) (max : Nat)
    (outcomes : List (Result (List UInt8))) :
    Exec (TcpStreamBuf × ReadStatus × List StreamCall) := do
  let b ← inpMakespace usizeMax spare b max
  match b.stream with
  | none => .ret (b, .wouldBlock, [])
  | some _ => do
    let stop ← addUsize usizeMax b.wr max
    readLoop usizeMax b stop outcomes

/-- The output half of `exchange`. -/
def exchangeOut (b upstream : TcpStreamBuf) : TcpStreamBuf × TcpStreamBuf :=
  let upstream := { upstream with out := upstream.out ++ b.out }
  let upstream := if b.outEof then { upstream with outEof := true } else upstream
  ({ b with out := [] }, upstream)

/-- The input half of `exchange`. -/
def exchangeInp (usizeMax spare : Nat) (b upstream : TcpStreamBuf) :
    Exec (TcpStreamBuf × TcpStreamBuf) :=
  if upstream.wr < upstream.rd then .panic else
  let readLen := upstream.wr - upstream.rd
  if readLen = 0 then .ret (b, upstream) else do
    let b ← inpMakespace usizeMax spare b readLen
    let stop ← addUsize usizeMax b.wr readLen
    if stop ≤ b.inp.length ∧ upstream.wr ≤ upstream.inp.length then
      let bytes := Window.slice upstream.inp upstream.rd upstream.wr
      .ret ({ b with inp := Window.overwrite b.inp b.wr bytes, wr := stop },
        { upstream with rd := 0, wr := 0 })
    else .panic

def exchange (usizeMax spare : Nat) (b upstream : TcpStreamBuf) :
    Exec (TcpStreamBuf × TcpStreamBuf) := do
  let (b, upstream) := exchangeOut b upstream
  let (b, upstream) ← exchangeInp usizeMax spare b upstream
  .ret (if upstream.inpEof then { b with inpEof := true } else b, upstream)

/-- `Read::read` into a slice of length `len`; the sum does not exceed `wr`. -/
def ioRead (b : TcpStreamBuf) (len : Nat) : Exec (TcpStreamBuf × Result (List UInt8)) :=
  if b.wr = b.rd then
    if b.inpEof then .ret (b, .ok []) else .ret (b, .error { kind := .wouldBlock })
  else if b.wr < b.rd then .panic
  else
    let len := min len (b.wr - b.rd)
    if b.rd + len ≤ b.inp.length then
      .ret ({ b with rd := b.rd + len }, .ok (Window.slice b.inp b.rd (b.rd + len)))
    else .panic

/-- `Write::write`. -/
def ioWrite (b : TcpStreamBuf) (buf : List UInt8) : TcpStreamBuf × Result Nat :=
  ({ b with out := b.out ++ buf }, .ok buf.length)

/-! ## What the input operations leave alone -/

variable {usizeMax spare max : Nat} {b b' : TcpStreamBuf}

theorem addUsize_ret {a c n : Nat} (h : addUsize usizeMax a c = .ret n) : n = a + c := by
  unfold addUsize at h
  split at h
  · cases h
    rfl
  · cases h

theorem growInp_frame (h : growInp usizeMax spare b max = .ret b') :
    b' = { b with inp := b'.inp } := by
  obtain ⟨_, -, h⟩ := Exec.bind_eq_ret.mp h
  obtain ⟨_, -, h⟩ := Exec.bind_eq_ret.mp h
  dsimp only at h
  split at h <;> cases h <;> rfl

theorem rewind_frame (b : TcpStreamBuf) :
    b.rewind = { b with rd := b.rewind.rd, wr := b.rewind.wr } := by
  unfold rewind
  split <;> rfl

theorem compact_frame (h : b.compact = .ret b') :
    b' = { b with inp := b'.inp, rd := b'.rd, wr := b'.wr } := by
  unfold compact at h
  split at h <;> cases h
  rfl

theorem inpMakespace_frame (h : inpMakespace usizeMax spare b max = .ret b') :
    b' = { b with inp := b'.inp, rd := b'.rd, wr := b'.wr } := by
  obtain ⟨_, -, h⟩ := Exec.bind_eq_ret.mp h
  split at h
  · cases h
    rw [rewind_frame]
  · split at h
    · obtain ⟨b₁, hb₁, h⟩ := Exec.bind_eq_ret.mp h
      obtain ⟨_, -, h⟩ := Exec.bind_eq_ret.mp h
      have hc := compact_frame hb₁
      rw [rewind_frame] at hc
      split at h
      · cases h
        rw [hc]
      · rw [growInp_frame h, hc]
    · rw [growInp_frame h, rewind_frame]

theorem readLoop_frame {stop : Nat} {outcomes : List (Result (List UInt8))}
    {status : ReadStatus} {calls : List StreamCall}
    (h : readLoop usizeMax b stop outcomes = .ret (b', status, calls)) :
    b' = { b with inp := b'.inp, inpEof := b'.inpEof, rd := b'.rd, wr := b'.wr } ∧
      ∀ c ∈ calls, ∃ room r, c = .read room r := by
  induction outcomes generalizing calls with
  | nil =>
    unfold readLoop at h
    split at h <;> cases h
  | cons r outcomes ih =>
    unfold readLoop at h
    split at h
    · dsimp only at h
      split at h
      · cases h
        exact ⟨rfl, by simp⟩
      · obtain ⟨_, -, h⟩ := Exec.bind_eq_ret.mp h
        cases h
        exact ⟨rfl, by simp⟩
      · split at h
        · cases h
          exact ⟨rfl, by simp⟩
        · split at h
          · obtain ⟨⟨b'', status', calls'⟩, hloop, h⟩ := Exec.bind_eq_ret.mp h
            cases h
            obtain ⟨hb, hcalls⟩ := ih hloop
            exact ⟨hb, by simpa using hcalls⟩
          · cases h
            exact ⟨rfl, by simp⟩
    · cases h

theorem read_frame {outcomes : List (Result (List UInt8))} {status : ReadStatus}
    {calls : List StreamCall} (h : read usizeMax spare b max outcomes = .ret (b', status, calls)) :
    b' = { b with inp := b'.inp, inpEof := b'.inpEof, rd := b'.rd, wr := b'.wr } ∧
      ∀ c ∈ calls, ∃ room r, c = .read room r := by
  obtain ⟨b₁, hb₁, h⟩ := Exec.bind_eq_ret.mp h
  have hframe := inpMakespace_frame hb₁
  split at h
  · cases h
    exact ⟨by rw [hframe], by simp⟩
  · obtain ⟨_, -, h⟩ := Exec.bind_eq_ret.mp h
    obtain ⟨hb, hcalls⟩ := readLoop_frame h
    rw [hframe] at hb
    exact ⟨hb, hcalls⟩

theorem ioRead_frame {len : Nat} {rv : Result (List UInt8)} (h : b.ioRead len = .ret (b', rv)) :
    b' = { b with rd := b'.rd } := by
  unfold ioRead at h
  split at h
  · split at h <;> cases h <;> rfl
  · split at h
    · cases h
    · dsimp only at h
      split at h
      · cases h
        rfl
      · cases h

end TcpStreamBuf
end StakkerMio
