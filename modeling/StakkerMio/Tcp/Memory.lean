import StakkerMio.Tcp.ReadEof

/-! # How long the input buffer gets

`inp` gets longer only when the unread bytes and those asked for do not fit into it, and
then by what they need. However much goes through it, its length is bounded by the most
that was needed at one time; once it is that long it stays as it is, and nothing more is
allocated. -/
namespace StakkerMio
open Lib

namespace TcpStreamBuf
variable {usizeMax spare max : Nat} {b b' : TcpStreamBuf}

/-- The length that the buffer is to have for `max` bytes more. -/
def need (b : TcpStreamBuf) (max : Nat) : Nat := Nat.max (b.wr - b.rd + max) (max + max)

/-- What an operation that makes space does to the length. -/
def Resized (b : TcpStreamBuf) (max spare : Nat) (b' : TcpStreamBuf) : Prop :=
  b'.inp.length = b.inp.length ∨
    (b.inp.length < b.need max ∧ b'.inp.length = b.need max + spare)

theorem growInp_length (hrd : b.rd = 0) (hshort : b.inp.length < b.wr + max)
    (h : growInp usizeMax spare b max = .ret b') : Resized b max spare b' := by
  obtain ⟨stop, hstop, h⟩ := Exec.bind_eq_ret.mp h
  obtain ⟨double, hdouble, h⟩ := Exec.bind_eq_ret.mp h
  have hstop := addUsize_ret hstop
  have hdouble := addUsize_ret hdouble
  have hneed : b.need max = Nat.max stop double := by
    rw [need, hrd, Nat.sub_zero, hstop, hdouble]
  have hle : stop ≤ Nat.max stop double := Nat.le_max_left _ _
  dsimp only at h
  rw [if_pos (show b.inp.length < Nat.max stop double by omega)] at h
  cases h
  refine .inr ⟨by omega, ?_⟩
  simp only [List.length_append, List.length_replicate]
  change b.inp.length + (Nat.max stop double + spare - b.inp.length) = b.need max + spare
  omega

/-- Bytes are moved rather than the buffer made longer. -/
theorem inpMakespace_length (hrd : b.rd ≤ b.wr) (hwr : b.wr ≤ b.inp.length)
    (h : inpMakespace usizeMax spare b max = .ret b') : Resized b max spare b' := by
  have hrewind : b.rewind.inp = b.inp ∧ b.rewind.wr - b.rewind.rd = b.wr - b.rd ∧
      b.rewind.rd ≤ b.rewind.wr ∧ b.rewind.wr ≤ b.rewind.inp.length := by
    unfold rewind
    split
    · rename_i heq
      exact ⟨rfl, by rw [heq, Nat.sub_self, Nat.sub_self], Nat.le_refl 0, Nat.zero_le _⟩
    · exact ⟨rfl, rfl, hrd, hwr⟩
  obtain ⟨hinp, hsize, hrd', hwr'⟩ := hrewind
  have hneed : b.need max = b.rewind.need max := by rw [need, need, hsize]
  obtain ⟨stop, hstop, h⟩ := Exec.bind_eq_ret.mp h
  have hstop := addUsize_ret hstop
  split at h
  · cases h
    exact .inl (congrArg List.length hinp)
  rename_i hshort
  split at h
  · -- The unread bytes go to the front.
    obtain ⟨c, hc, h⟩ := Exec.bind_eq_ret.mp h
    obtain ⟨stop', hstop', h⟩ := Exec.bind_eq_ret.mp h
    have hstop' := addUsize_ret hstop'
    rw [compact, if_pos ⟨hrd', hwr'⟩] at hc
    cases hc
    have hlength := Window.copyWithin_length hrd' hwr'
    split at h
    · cases h
      exact .inl (hlength.trans (congrArg List.length hinp))
    · rename_i hshort'
      rw [hstop'] at hshort'
      have hgrown := growInp_length rfl (Nat.lt_of_not_le hshort') h
      unfold Resized at hgrown ⊢
      rw [hneed]
      dsimp only at hgrown
      rwa [hlength, hinp] at hgrown
  · rename_i hzero
    have hgrown := growInp_length (not_not.mp hzero) (by omega) h
    unfold Resized at hgrown ⊢
    rwa [hneed, ← hinp]

/-- Reading writes into the space there is. -/
theorem readLoop_length {stop : Nat} {outcomes : List (Result (List UInt8))}
    {status : ReadStatus} {calls : List StreamCall}
    (h : readLoop usizeMax b stop outcomes = .ret (b', status, calls)) :
    b'.inp.length = b.inp.length := by
  induction outcomes generalizing calls with
  | nil =>
    unfold readLoop at h
    split at h <;> cases h
  | cons r outcomes ih =>
    unfold readLoop at h
    split at h
    · rename_i hroom
      cases r with
      | ok bytes =>
        cases bytes with
        | nil =>
          cases h
          rfl
        | cons byte bytes =>
          obtain ⟨wr, -, h⟩ := Exec.bind_eq_ret.mp h
          cases h
          refine Window.overwrite_length ?_
          have htake := List.length_take_le (stop - b.wr) (byte :: bytes)
          omega
      | error e =>
        dsimp only at h
        split at h
        · cases h
          rfl
        · split at h
          · obtain ⟨⟨b₂, status₂, calls₂⟩, hloop, h⟩ := Exec.bind_eq_ret.mp h
            cases h
            exact ih hloop
          · cases h
            rfl
    · cases h

theorem read_length {outcomes : List (Result (List UInt8))} {status : ReadStatus}
    {calls : List StreamCall} (hrd : b.rd ≤ b.wr) (hwr : b.wr ≤ b.inp.length)
    (h : read usizeMax spare b max outcomes = .ret (b', status, calls)) :
    Resized b max spare b' := by
  obtain ⟨c, hc, h⟩ := Exec.bind_eq_ret.mp h
  have hmade := inpMakespace_length hrd hwr hc
  split at h
  · cases h
    exact hmade
  · obtain ⟨stop, -, h⟩ := Exec.bind_eq_ret.mp h
    unfold Resized at hmade ⊢
    rwa [readLoop_length h]

end TcpStreamBuf

/-! ## Whole runs -/

/-- What the operation needs at one time is at most `most`, and the allocator gives at
most `slack` more than it was asked for. -/
def TcpOp.within (most slack : Nat) (s : TcpSession) : TcpOp → Bool
  | .inpMakespace max spare | .read max spare _ =>
    decide (s.buf.need max ≤ most ∧ spare ≤ slack)
  | _ => true

namespace TcpSession
variable {usizeMax most slack : Nat} {s t : TcpSession} {op : TcpOp}

/-- An operation either leaves the length as it is or makes it what is needed. -/
theorem step_length {u : List UInt8} (h : InputInv s u) (hop : op.within most slack s = true)
    (ht : s.step usizeMax op = .ret t) : t.buf.inp.length = s.buf.inp.length ∨
      (s.buf.inp.length < most ∧ t.buf.inp.length ≤ most + slack) := by
  have hresized {max spare : Nat} (hwithin : s.buf.need max ≤ most ∧ spare ≤ slack)
      (hr : s.buf.Resized max spare t.buf) : t.buf.inp.length = s.buf.inp.length ∨
        (s.buf.inp.length < most ∧ t.buf.inp.length ≤ most + slack) := by
    rcases hr with hsame | ⟨hshort, hlength⟩
    · exact .inl hsame
    · exact .inr ⟨by omega, by omega⟩
  cases op with
  | append _ | ioWrite _ | setOutEof _ | init _ | deinit | pauseWrites _ | consume _ =>
    cases ht
    exact .inl rfl
  | setNodelay nodelay =>
    cases ht
    dsimp only
    unfold TcpStreamBuf.setNodelay
    split <;> exact .inl rfl
  | flush outcomes =>
    obtain ⟨⟨b, rv, calls⟩, hf, ht⟩ := Exec.bind_eq_ret.mp ht
    cases ht
    have hsame : b.inp.length = s.buf.inp.length :=
      (TcpStreamBuf.flush_steps hf).keeps (I := fun b => b.inp.length = s.buf.inp.length)
        (fun b c b' hb hc => by
          rw [(TcpStreamBuf.flushStep_input hc).1]
          exact hb) rfl
    exact .inl hsame
  | ioRead len =>
    obtain ⟨⟨b, rv⟩, hr, ht⟩ := Exec.bind_eq_ret.mp ht
    cases ht
    rw [TcpStreamBuf.ioRead_frame hr]
    exact .inl rfl
  | inpMakespace max spare =>
    obtain ⟨b, hb, ht⟩ := Exec.bind_eq_ret.mp ht
    cases ht
    exact hresized (of_decide_eq_true hop)
      (TcpStreamBuf.inpMakespace_length h.unread.rd_le h.unread.wr_le hb)
  | read max spare outcomes =>
    obtain ⟨⟨b, status, calls⟩, hr, ht⟩ := Exec.bind_eq_ret.mp ht
    cases ht
    exact hresized (of_decide_eq_true hop)
      (TcpStreamBuf.read_length h.unread.rd_le h.unread.wr_le hr)

/-- **The input buffer stays small.** If what is unread and what is asked for never
needs more than `most` bytes at one time, `inp` is never longer than that and what the
allocator adds; and once it has `most` bytes its length does not change any more. -/
theorem inp_bounded (usizeMax most slack : Nat) (ops more : List TcpOp)
    (hops : Meets (step usizeMax)
      (fun s op => op.fits usizeMax s = true ∧ op.within most slack s = true) {} (ops ++ more))
    (s t : TcpSession) (hs : ({} : TcpSession).runs usizeMax ops = .ret s)
    (ht : s.runs usizeMax more = .ret t) : t.buf.inp.length ≤ most + slack ∧
      (most ≤ s.buf.inp.length → t.buf.inp.length = s.buf.inp.length) := by
  obtain ⟨hops, hmore⟩ := hops.append
  have hbounded : (∃ u, InputInv s u) ∧ s.buf.inp.length ≤ most + slack :=
    hops.invariant (I := fun s => (∃ u, InputInv s u) ∧ s.buf.inp.length ≤ most + slack)
      (fun s op t hs hop ht => by
        obtain ⟨⟨u, hu⟩, hle⟩ := hs
        refine ⟨(hu.step hop.1).2 t ht, ?_⟩
        rcases step_length hu hop.2 ht with hsame | ⟨-, hle⟩ <;> omega)
      ⟨⟨[], InputInv.start⟩, Nat.zero_le _⟩ hs
  obtain ⟨-, hle, hsame⟩ := (hmore s hs).invariant
    (I := fun t => (∃ u, InputInv t u) ∧ t.buf.inp.length ≤ most + slack ∧
      (most ≤ s.buf.inp.length → t.buf.inp.length = s.buf.inp.length))
    (fun t op t' hinv hop ht' => by
      obtain ⟨⟨u, hu⟩, hle, hsame⟩ := hinv
      refine ⟨(hu.step hop.1).2 t' ht', ?_, fun hlong => ?_⟩
      · rcases step_length hu hop.2 ht' with hkept | ⟨-, hle⟩ <;> omega
      · rcases step_length hu hop.2 ht' with hkept | ⟨hshort, -⟩
        · exact hkept.trans (hsame hlong)
        · have hkept := hsame hlong
          omega)
    ⟨hbounded.1, hbounded.2, fun _ => rfl⟩ ht
  exact ⟨hle, hsame⟩

/-- Reads of two bytes at most, with some left unread: four bytes are enough, and the
allocator adds four. -/
theorem inp_bounded_sample : ∃ s t,
    ({} : TcpSession).runs 1000 [.init 0, .read 2 4 [.ok [1, 2]], .consume 1] = .ret s ∧
      s.runs 1000 [.read 2 4 [.ok [3, 4]], .consume 2, .read 2 4 [.ok [5]]] = .ret t ∧
      t.buf.inp.length ≤ 4 + 4 ∧
      (4 ≤ s.buf.inp.length → t.buf.inp.length = s.buf.inp.length) :=
  ⟨_, _, rfl, rfl, inp_bounded 1000 4 4
    [.init 0, .read 2 4 [.ok [1, 2]], .consume 1]
    [.read 2 4 [.ok [3, 4]], .consume 2, .read 2 4 [.ok [5]]] (by decide) _ _ rfl rfl⟩

end TcpSession
end StakkerMio
