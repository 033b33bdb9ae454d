import StakkerMio.Tcp.Output

/-! # The EOF flags and the stream they belong to

`sentOutEof` is about the stream that is installed. `inpEof` is only so long as no
stream is installed after one that has ended: `init` leaves it set. -/
namespace StakkerMio
open Lib

namespace TcpEvent

/-- Whether the stream installed last has reported the end of its input. -/
def endAfter (ended : Bool) : TcpEvent → Bool
  | .init _ => false
  | .call (.read _ (.ok [])) => true
  | _ => ended

def endIn (tr : List TcpEvent) : Bool := tr.foldl endAfter false

variable {tr : List TcpEvent} {e : TcpEvent}

@[simp] theorem endIn_concat : endIn (tr ++ [e]) = endAfter (endIn tr) e := by
  simp [endIn]

end TcpEvent

open TcpEvent TcpStreamBuf

/-- The flags of a buffer with a stream say what happened on that stream, and
`Read::read` reports no other end. -/
def EofOwn (s : TcpSession) : Prop :=
  s.buf.stream.isSome →
    (s.buf.sentOutEof = true ↔ shutIn s.trace = true) ∧
    (s.buf.inpEof = true → endIn s.trace = true) ∧
    ∀ len b, 0 < len → s.buf.ioRead len = .ret (b, .ok []) → endIn s.trace = true

/-- A stream is installed when no end of input is recorded. -/
def TcpOp.FreshEof (s : TcpSession) : TcpOp → Prop
  | .init _ => s.buf.inpEof = false
  | _ => True

instance (s : TcpSession) : (op : TcpOp) → Decidable (op.FreshEof s)
  | .init _ => inferInstanceAs (Decidable (_ = _))
  | .append _ | .ioWrite _ | .setOutEof _ | .deinit | .setNodelay _ | .pauseWrites _ | .flush _
  | .inpMakespace _ _ | .read _ _ _ | .ioRead _ | .consume _ => isTrue trivial

/-! ## What sets the flag -/

namespace TcpStreamBuf
variable {usizeMax spare max : Nat} {b b' : TcpStreamBuf}

/-- The flag is set when the stream has reported its end, and not otherwise. -/
theorem readLoop_end {stop : Nat} {outcomes : List (Result (List UInt8))}
    {status : ReadStatus} {calls : List StreamCall} (tr : List TcpEvent)
    (h : readLoop usizeMax b stop outcomes = .ret (b', status, calls))
    (htr : b.inpEof = true → endIn tr = true) (heof : b'.inpEof = true) :
    endIn (tr ++ calls.map .call) = true := by
  induction outcomes generalizing calls tr with
  | nil =>
    unfold readLoop at h
    split at h <;> cases h
  | cons r outcomes ih =>
    unfold readLoop at h
    split at h
    · dsimp only at h
      split at h
      · cases h
        exact endIn_concat
      · rename_i bytes hbytes
        obtain ⟨wr, -, h⟩ := Exec.bind_eq_ret.mp h
        cases h
        refine endIn_concat.trans ?_
        cases bytes with
        | nil => rfl
        | cons byte bytes => exact htr heof
      · split at h
        · cases h
          exact endIn_concat.trans (htr heof)
        · split at h
          · rename_i e _ _
            obtain ⟨⟨b₁, status', calls'⟩, hloop, h⟩ := Exec.bind_eq_ret.mp h
            cases h
            have hmore := ih (tr ++ [.call (.read (stop - b.wr) (.error e))]) hloop
              fun hb => by simpa [endAfter] using htr hb
            rw [List.append_assoc] at hmore
            exact hmore
          · cases h
            exact endIn_concat.trans (htr heof)
    · cases h

theorem read_end {outcomes : List (Result (List UInt8))} {status : ReadStatus}
    {calls : List StreamCall} (tr : List TcpEvent)
    (h : read usizeMax spare b max outcomes = .ret (b', status, calls))
    (htr : b.inpEof = true → endIn tr = true) (heof : b'.inpEof = true) :
    endIn (tr ++ calls.map .call) = true := by
  obtain ⟨b₁, hb₁, h⟩ := Exec.bind_eq_ret.mp h
  have hflag : b₁.inpEof = b.inpEof := by rw [inpMakespace_frame hb₁]
  split at h
  · cases h
    rw [List.map_nil, List.append_nil]
    exact htr (hflag ▸ heof)
  · obtain ⟨_, -, h⟩ := Exec.bind_eq_ret.mp h
    exact readLoop_end tr h (fun hb => htr (hflag ▸ hb)) heof

/-- `Read::read` into a slice that is not empty returns no bytes only at the end. -/
theorem ioRead_end {len : Nat} (hlen : 0 < len) (h : b.ioRead len = .ret (b', .ok [])) :
    b.inpEof = true := by
  unfold ioRead at h
  split at h
  · split at h
    · assumption
    · cases h
  · rename_i hne
    split at h
    · cases h
    · rename_i hle
      dsimp only at h
      split at h
      · rename_i hroom
        have hslice : Window.slice b.inp b.rd (b.rd + min len (b.wr - b.rd)) = [] := by
          injection h with h
          injection h with _ h
          injection h
        have hcount := Window.slice_length (i := b.rd) hroom
        rw [hslice] at hcount
        simp only [List.length_nil] at hcount
        omega
      · cases h

end TcpStreamBuf

/-! ## Runs -/

/-- A flush does not touch the input side. -/
theorem flush_eof {b b' : TcpStreamBuf} {o : FlushOutcomes} {rv : Result Unit}
    {calls : List StreamCall} (tr : List TcpEvent) (hf : b.flush o = .ret (b', rv, calls)) :
    b'.stream = b.stream ∧ b'.inpEof = b.inpEof ∧
      endIn (tr ++ calls.map .call) = endIn tr := by
  have hstart : b.stream = b.stream ∧ b.inpEof = b.inpEof ∧
      endIn (tr ++ ([] : List StreamCall).map .call) = endIn tr := by
    refine ⟨rfl, rfl, ?_⟩
    rw [List.map_nil, List.append_nil]
  refine Steps.invariant (J := fun calls c => c.stream = b.stream ∧ c.inpEof = b.inpEof ∧
    endIn (tr ++ calls.map .call) = endIn tr) (fun past c call c' hpast hc => ?_) hstart
    (flush_steps hf)
  obtain ⟨hstream, heof, hend⟩ := hpast
  rw [List.map_append, ← List.append_assoc]
  cases hc <;> exact ⟨hstream, heof, endIn_concat.trans hend⟩

/-- Any operation but `init` keeps the flag about the stream it is about. -/
theorem eof_kept {usizeMax : Nat} {s t : TcpSession} {op : TcpOp}
    (hinit : ∀ stream, op ≠ .init stream) (hstep : s.step usizeMax op = .ret t) :
    (t.buf.stream.isSome → s.buf.stream.isSome) ∧
      ((s.buf.inpEof = true → endIn s.trace = true) →
        t.buf.inpEof = true → endIn t.trace = true) := by
  have hevent {e : TcpEvent} (he : ∀ ended, endAfter ended e = ended) :
      endIn (s.trace ++ [e]) = endIn s.trace := endIn_concat.trans (he _)
  cases op with
  | init stream => exact absurd rfl (hinit stream)
  | append _ | ioWrite _ | setOutEof _ | pauseWrites _ | consume _ =>
    cases hstep
    exact ⟨id, fun h ht => (hevent fun _ => rfl).trans (h ht)⟩
  | deinit =>
    cases hstep
    exact ⟨by simp [TcpStreamBuf.deinit], fun h ht => (hevent fun _ => rfl).trans (h ht)⟩
  | setNodelay nodelay =>
    cases hstep
    unfold TcpStreamBuf.setNodelay
    split <;> exact ⟨id, fun h ht => (hevent fun _ => rfl).trans (h ht)⟩
  | flush o =>
    obtain ⟨⟨buf, rv, calls⟩, hf, hstep⟩ := Exec.bind_eq_ret.mp hstep
    cases hstep
    obtain ⟨hstream, heof, hend⟩ := flush_eof s.trace hf
    refine ⟨fun hsome => hstream ▸ hsome, fun h ht => ?_⟩
    exact hend.trans (h (heof ▸ ht))
  | inpMakespace max spare =>
    obtain ⟨buf, hb, hstep⟩ := Exec.bind_eq_ret.mp hstep
    cases hstep
    rw [inpMakespace_frame hb]
    exact ⟨id, id⟩
  | read max spare outcomes =>
    obtain ⟨⟨buf, status, calls⟩, hr, hstep⟩ := Exec.bind_eq_ret.mp hstep
    cases hstep
    have hframe := (read_frame hr).1
    refine ⟨fun hsome => ?_, fun h ht => read_end s.trace hr h ht⟩
    rw [hframe] at hsome
    exact hsome
  | ioRead len =>
    obtain ⟨⟨buf, rv⟩, hr, hstep⟩ := Exec.bind_eq_ret.mp hstep
    cases hstep
    rw [ioRead_frame hr]
    cases rv with
    | error e => exact ⟨id, fun h ht => by simpa using h ht⟩
    | ok bytes => exact ⟨id, fun h ht => (hevent fun _ => rfl).trans (h ht)⟩

theorem eofOwn_init {s : TcpSession} (stream : Nat) :
    EofOwn ⟨s.buf.init stream, s.trace ++ [.init stream]⟩ ↔ s.buf.inpEof = false := by
  have hend : endIn (s.trace ++ [.init stream]) = false := endIn_concat
  have hshut : shutIn (s.trace ++ [.init stream]) = false := shutIn_concat
  have hflag : (s.buf.init stream).inpEof = s.buf.inpEof := rfl
  constructor
  · intro hgood
    obtain ⟨-, hown, -⟩ := hgood rfl
    rw [hend, hflag] at hown
    simpa using hown
  · intro hfresh _
    rw [hend, hshut, hflag, hfresh]
    refine ⟨Iff.rfl, nofun, fun len b hlen hread => ?_⟩
    have heof := ioRead_end hlen hread
    rw [hflag, hfresh] at heof
    exact heof

/-- From a good state an operation leads to a good one, unless it installs a stream
while an end of input is recorded. -/
theorem eofOwn_step {usizeMax : Nat} {s t : TcpSession} {op : TcpOp}
    (hout : OutputInv s.trace s.buf) (hok : EofOwn s) (hstep : s.step usizeMax op = .ret t) :
    EofOwn t ↔ op.FreshEof s := by
  by_cases hinit : ∃ stream, op = .init stream
  · obtain ⟨stream, rfl⟩ := hinit
    cases hstep
    exact eofOwn_init stream
  · obtain ⟨hstream, hflag⟩ := eof_kept (fun stream hop => hinit ⟨stream, hop⟩) hstep
    refine ⟨fun _ => ?_, fun _ hsome => ?_⟩
    · cases op with
      | init stream => exact absurd ⟨stream, rfl⟩ hinit
      | _ => trivial
    · have hkept := hflag (hok (hstream hsome)).2.1
      refine ⟨?_, hkept, fun len b hlen hread => hkept (ioRead_end hlen hread)⟩
      rw [(hout.step hstep).shut]

/-- **EOF per stream.** In all states of a run the EOF flags are about the stream that
is installed exactly if none is installed while an end of input is recorded. -/
theorem TcpSession.eof_own_iff (usizeMax : Nat) (ops : List TcpOp) (s : TcpSession)
    (hrun : ({} : TcpSession).runs usizeMax ops = .ret s) :
    (Meets (step usizeMax) (fun s _ => EofOwn s) {} ops ∧ EofOwn s) ↔
      Meets (step usizeMax) (fun s op => op.FreshEof s) {} ops :=
  Meets.states_iff (I := fun s => OutputInv s.trace s.buf)
    (fun _ _ _ hout _ hstep => hout.step hstep)
    (fun _ _ _ hout hok hstep => eofOwn_step hout hok hstep) OutputInv.start nofun hrun

/-- Two streams, each shut down; only the second one ends. -/
theorem TcpSession.eof_own_iff_sample :
    ∃ s, ({} : TcpSession).runs 1000
        [.init 0, .setOutEof true,
          .flush { setNodelay := [.ok ()], flush := [.ok ()], shutdown := [.ok ()] },
          .read 4 0 [.ok [1, 2]], .ioRead 8, .deinit, .init 1, .read 4 0 [.ok []]] = .ret s ∧
      EofOwn s := by
  obtain ⟨s, hs⟩ := Exec.exists_ret (x := ({} : TcpSession).runs 1000
    [.init 0, .setOutEof true,
      .flush { setNodelay := [.ok ()], flush := [.ok ()], shutdown := [.ok ()] },
      .read 4 0 [.ok [1, 2]], .ioRead 8, .deinit, .init 1, .read 4 0 [.ok []]]) rfl
  exact ⟨s, hs, ((eof_own_iff 1000 _ s hs).mpr (by decide)).2⟩

/-- The first stream ends. The second one has not been read from, but `Read::read`
reports the end of the input. -/
theorem TcpSession.eof_inherited :
    ∃ s, ({} : TcpSession).runs 1000 [.init 0, .read 4 0 [.ok []], .init 1] = .ret s ∧
      s.buf.stream = some 1 ∧ s.buf.inpEof = true ∧ endIn s.trace = false ∧
      s.buf.ioRead 8 = .ret (s.buf, .ok []) :=
  ⟨_, rfl, rfl, rfl, rfl, rfl⟩

end StakkerMio
