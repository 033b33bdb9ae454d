import StakkerMio.Tcp.FlushSteps
import StakkerMio.Tcp.Session

/-! # The output stream

What the streams accepted followed by `out` is what was appended, and EOF goes
out after all of it, once for each stream installed. The statements are about
every point of the trace, so also about points within a flush. -/
namespace StakkerMio
open Lib

namespace TcpEvent

/-- The bytes the application appended. -/
def appendedBy : TcpEvent → List UInt8
  | .appended bytes => bytes
  | _ => []

/-- The bytes a stream accepted. -/
def acceptedBy : TcpEvent → List UInt8
  | .call (.write buf (.ok len)) => buf.take len
  | _ => []

def appendedIn (tr : List TcpEvent) : List UInt8 := tr.flatMap appendedBy

def acceptedIn (tr : List TcpEvent) : List UInt8 := tr.flatMap acceptedBy

/-- The value of `out_eof` after the event. -/
def outEofAfter (eof : Bool) : TcpEvent → Bool
  | .outEof eof' => eof'
  | _ => eof

def outEofIn (tr : List TcpEvent) : Bool := tr.foldl outEofAfter false

/-- Whether a shutdown has succeeded since the last stream was installed. -/
def shutAfter (shut : Bool) : TcpEvent → Bool
  | .init _ => false
  | .call (.shutdown (.ok ())) => true
  | _ => shut

def shutIn (tr : List TcpEvent) : Bool := tr.foldl shutAfter false

/-- What holds whenever a stream is written to or shut down: a write is passed
exactly what was appended and not yet accepted; at a shutdown EOF is asked for,
all was accepted, and the stream was not shut down before. -/
def OutputOk (past : List TcpEvent) : TcpEvent → Prop
  | .call (.write buf _) => acceptedIn past ++ buf = appendedIn past
  | .call (.shutdown _) =>
    outEofIn past = true ∧ acceptedIn past = appendedIn past ∧ shutIn past = false
  | _ => True

variable {tr : List TcpEvent} {e : TcpEvent}

@[simp] theorem appendedIn_concat : appendedIn (tr ++ [e]) = appendedIn tr ++ appendedBy e := by
  simp [appendedIn]

@[simp] theorem acceptedIn_concat : acceptedIn (tr ++ [e]) = acceptedIn tr ++ acceptedBy e := by
  simp [acceptedIn]

@[simp] theorem outEofIn_concat : outEofIn (tr ++ [e]) = outEofAfter (outEofIn tr) e := by
  simp [outEofIn]

@[simp] theorem shutIn_concat : shutIn (tr ++ [e]) = shutAfter (shutIn tr) e := by
  simp [shutIn]

end TcpEvent

open TcpEvent

/-- The buffer is what the trace makes it. -/
structure OutputInv (tr : List TcpEvent) (b : TcpStreamBuf) : Prop where
  bytes : acceptedIn tr ++ b.out = appendedIn tr
  eof : outEofIn tr = b.outEof
  shut : shutIn tr = b.sentOutEof
  always : Always OutputOk tr

namespace OutputInv
variable {tr : List TcpEvent} {b b' : TcpStreamBuf}

/-- An event that has nothing to do with the output. -/
theorem idle (h : OutputInv tr b) {e : TcpEvent} (happ : appendedBy e = [])
    (hacc : acceptedBy e = []) (heof : outEofAfter b.outEof e = b'.outEof)
    (hshut : shutAfter b.sentOutEof e = b'.sentOutEof) (hout : b'.out = b.out)
    (hok : OutputOk tr e) : OutputInv (tr ++ [e]) b' where
  bytes := by rw [acceptedIn_concat, appendedIn_concat, happ, hacc, hout]; simpa using h.bytes
  eof := by rw [outEofIn_concat, h.eof, heof]
  shut := by rw [shutIn_concat, h.shut, hshut]
  always := h.always.concat hok

/-- A buffer that differs in none of the fields that matter. -/
theorem frame (h : OutputInv tr b) (hout : b'.out = b.out) (heof : b'.outEof = b.outEof)
    (hshut : b'.sentOutEof = b.sentOutEof) : OutputInv tr b' :=
  ⟨hout ▸ h.bytes, heof ▸ h.eof, hshut ▸ h.shut, h.always⟩

theorem append (h : OutputInv tr b) (bytes : List UInt8) :
    OutputInv (tr ++ [.appended bytes]) { b with out := b.out ++ bytes } where
  bytes := by simp [acceptedBy, appendedBy, ← h.bytes]
  eof := by rw [outEofIn_concat]; exact h.eof
  shut := by rw [shutIn_concat]; exact h.shut
  always := h.always.concat trivial

theorem write (h : OutputInv tr b) (len : Nat) :
    OutputInv (tr ++ [.call (.write b.out (.ok len))]) { b with out := b.out.drop len } where
  bytes := by
    rw [acceptedIn_concat, appendedIn_concat, ← h.bytes]
    simp [acceptedBy, appendedBy]
  eof := by rw [outEofIn_concat]; exact h.eof
  shut := by rw [shutIn_concat]; exact h.shut
  always := h.always.concat h.bytes

theorem shutdownOk (h : OutputInv tr b) (heof : b.outEof = true) (hsent : b.sentOutEof = false)
    (hout : b.out = []) {r : Result Unit} : OutputOk tr (.call (.shutdown r)) := by
  refine ⟨h.eof.trans heof, ?_, h.shut.trans hsent⟩
  rw [← h.bytes, hout, List.append_nil]

/-- A call within a flush. -/
theorem flushStep (h : OutputInv tr b) {c : StreamCall} (hc : FlushStep b c b') :
    OutputInv (tr ++ [.call c]) b' := by
  cases hc with
  | setNodelay r => exact h.idle rfl rfl rfl rfl rfl trivial
  | writeError e hout => exact h.idle rfl rfl rfl rfl rfl h.bytes
  | write len hout hlen => exact h.write len
  | flush r => exact h.idle rfl rfl rfl rfl rfl trivial
  | shutdownError e heof hsent hout =>
    exact h.idle rfl rfl rfl rfl rfl (h.shutdownOk heof hsent hout)
  | shutdown heof hsent hout => exact h.idle rfl rfl rfl rfl rfl (h.shutdownOk heof hsent hout)

theorem flush (h : OutputInv tr b) {o : FlushOutcomes} {rv : Result Unit}
    {calls : List StreamCall} (hf : b.flush o = .ret (b', rv, calls)) :
    OutputInv (tr ++ calls.map .call) b' := by
  have hstart : OutputInv (tr ++ ([] : List StreamCall).map .call) b := by simpa using h
  exact Steps.invariant (J := fun calls b => OutputInv (tr ++ calls.map .call) b)
    (fun past s c t hs hc => by simpa using hs.flushStep hc) hstart (TcpStreamBuf.flush_steps hf)

/-- Calls that read. -/
theorem reads (h : OutputInv tr b) {calls : List StreamCall}
    (hc : ∀ c ∈ calls, ∃ room r, c = .read room r) : OutputInv (tr ++ calls.map .call) b := by
  induction calls generalizing tr with
  | nil => simpa using h
  | cons c calls ih =>
    obtain ⟨room, r, rfl⟩ := hc c List.mem_cons_self
    have hcall : OutputInv (tr ++ [.call (.read room r)]) b := h.idle rfl rfl rfl rfl rfl trivial
    simpa using ih hcall fun c' hc' => hc c' (List.mem_cons_of_mem _ hc')

end OutputInv

/-- Whatever touches only the input side and records no output event. -/
theorem OutputInv.input {tr : List TcpEvent} {b b' : TcpStreamBuf} (h : OutputInv tr b)
    (hb : b' = { b with inp := b'.inp, inpEof := b'.inpEof, rd := b'.rd, wr := b'.wr }) :
    OutputInv tr b' := by
  rw [hb]
  exact h.frame rfl rfl rfl

/-- Every operation keeps the invariant. -/
theorem OutputInv.step {usizeMax : Nat} {s t : TcpSession} {op : TcpOp}
    (h : OutputInv s.trace s.buf) (hstep : s.step usizeMax op = .ret t) :
    OutputInv t.trace t.buf := by
  cases op with
  | append bytes =>
    cases hstep
    exact h.append bytes
  | ioWrite buf =>
    cases hstep
    exact h.append buf
  | setOutEof eof =>
    cases hstep
    exact h.idle rfl rfl rfl rfl rfl trivial
  | init stream =>
    cases hstep
    exact h.idle rfl rfl rfl rfl rfl trivial
  | deinit =>
    cases hstep
    exact h.idle rfl rfl rfl rfl rfl trivial
  | setNodelay nodelay =>
    cases hstep
    unfold TcpStreamBuf.setNodelay
    split <;> exact h.idle rfl rfl rfl rfl rfl trivial
  | pauseWrites pause =>
    cases hstep
    exact h.idle rfl rfl rfl rfl rfl trivial
  | flush outcomes =>
    obtain ⟨⟨buf, rv, calls⟩, hf, hstep⟩ := Exec.bind_eq_ret.mp hstep
    cases hstep
    exact h.flush hf
  | inpMakespace max spare =>
    obtain ⟨buf, hb, hstep⟩ := Exec.bind_eq_ret.mp hstep
    cases hstep
    exact h.input (by rw [TcpStreamBuf.inpMakespace_frame hb])
  | read max spare outcomes =>
    obtain ⟨⟨buf, status, calls⟩, hr, hstep⟩ := Exec.bind_eq_ret.mp hstep
    cases hstep
    obtain ⟨hb, hcalls⟩ := TcpStreamBuf.read_frame hr
    exact (h.reads hcalls).input hb
  | ioRead len =>
    obtain ⟨⟨buf, rv⟩, hr, hstep⟩ := Exec.bind_eq_ret.mp hstep
    cases hstep
    have hb : OutputInv s.trace buf := h.input (by rw [TcpStreamBuf.ioRead_frame hr])
    cases rv with
    | error e => simpa using hb
    | ok bytes => exact hb.idle rfl rfl rfl rfl rfl trivial
  | consume n =>
    cases hstep
    exact h.idle rfl rfl rfl rfl rfl trivial

theorem OutputInv.start : OutputInv [] TcpStreamBuf.new :=
  ⟨rfl, rfl, rfl, trivial⟩

/-- **Output integrity.** After any run the bytes accepted by the streams followed
by `out` are the bytes appended. Within a flush too: each write is passed what was
appended and not yet accepted, and at each shutdown EOF was asked for, everything
appended was accepted, and no shutdown had succeeded since `init`. -/
theorem TcpSession.output_integrity (usizeMax : Nat) (ops : List TcpOp) (s : TcpSession)
    (hrun : ({} : TcpSession).runs usizeMax ops = .ret s) :
    acceptedIn s.trace ++ s.buf.out = appendedIn s.trace ∧
    (∀ past buf r rest, s.trace = past ++ .call (.write buf r) :: rest →
      acceptedIn past ++ buf = appendedIn past) ∧
    ∀ past r rest, s.trace = past ++ .call (.shutdown r) :: rest →
      outEofIn past = true ∧ acceptedIn past = appendedIn past ∧ shutIn past = false := by
  have h : OutputInv s.trace s.buf :=
    run_invariant (I := fun s => OutputInv s.trace s.buf) (fun _ _ _ h hstep => h.step hstep)
      OutputInv.start hrun
  refine ⟨h.bytes, fun past buf r rest htr => ?_, fun past r rest htr => ?_⟩
  · have hal := h.always
    rw [htr] at hal
    exact hal.split
  · have hal := h.always
    rw [htr] at hal
    exact hal.split

/-- Five bytes, two of them accepted before the stream blocks; then a second flush
with the rest and a shutdown that is interrupted once. -/
theorem TcpSession.output_integrity_sample :
    ∃ s, ({} : TcpSession).runs 1000
        [.init 0, .append [1, 2, 3], .ioWrite [4, 5], .setOutEof true,
          .flush { setNodelay := [.ok ()], write := [.ok 2, .error ⟨.wouldBlock, none⟩] },
          .flush
            { write := [.ok 3]
              flush := [.ok ()]
              shutdown := [.error ⟨.interrupted, none⟩, .ok ()] }] = .ret s ∧
      acceptedIn s.trace ++ s.buf.out = appendedIn s.trace := by
  obtain ⟨s, hs⟩ := Exec.exists_ret (x := ({} : TcpSession).runs 1000
    [.init 0, .append [1, 2, 3], .ioWrite [4, 5], .setOutEof true,
      .flush { setNodelay := [.ok ()], write := [.ok 2, .error ⟨.wouldBlock, none⟩] },
      .flush
        { write := [.ok 3]
          flush := [.ok ()]
          shutdown := [.error ⟨.interrupted, none⟩, .ok ()] }]) rfl
  exact ⟨s, hs, (output_integrity 1000 _ s hs).1⟩

end StakkerMio
