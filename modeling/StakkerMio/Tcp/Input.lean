import StakkerMio.Tcp.FlushSteps
import StakkerMio.Tcp.Session

/-! # The input stream

What the application consumed followed by the unread part of `inp` is what the
streams delivered, whatever is moved or grown in between; and the offsets stay
in range, so the slices are never out of bounds. -/
namespace StakkerMio
open Lib

namespace TcpStreamBuf
variable {usizeMax max : Nat} {b b' : TcpStreamBuf} {u : List UInt8}

/-- The offsets are in range, and the bytes between them are `u`. -/
structure Unread (b : TcpStreamBuf) (u : List UInt8) : Prop where
  rd_le : b.rd ≤ b.wr
  wr_le : b.wr ≤ b.inp.length
  bytes : Window.slice b.inp b.rd b.wr = u

theorem addUsize_fits {a c : Nat} (h : a + c ≤ usizeMax) : addUsize usizeMax a c = .ret (a + c) :=
  if_pos h

theorem Unread.rewind (h : b.Unread u) : b.rewind.Unread u ∧ b.rewind.wr ≤ b.wr := by
  unfold TcpStreamBuf.rewind
  split
  · rename_i heq
    refine ⟨⟨Nat.le_refl _, Nat.zero_le _, ?_⟩, Nat.zero_le _⟩
    rw [← h.bytes, heq, Window.slice_self, Window.slice_self]
  · exact ⟨h, Nat.le_refl _⟩

theorem Unread.compact (h : b.Unread u) :
    ∃ b', b.compact = .ret b' ∧ b'.Unread u ∧ b'.wr ≤ b.wr := by
  have hlen := Window.copyWithin_length h.rd_le h.wr_le
  have hwr := h.wr_le
  refine ⟨_, if_pos ⟨h.rd_le, h.wr_le⟩, ⟨Nat.zero_le _, ?_, ?_⟩, Nat.sub_le _ _⟩
  · change b.wr - b.rd ≤ (Window.copyWithin b.inp b.rd b.wr).length
    omega
  · rw [← h.bytes]
    exact Window.slice_copyWithin h.wr_le

theorem Unread.growInp (h : b.Unread u) (spare : Nat) (hmax : b.wr + max ≤ usizeMax)
    (hdouble : max * 2 ≤ usizeMax) :
    ∃ b', growInp usizeMax spare b max = .ret b' ∧ b'.Unread u ∧ b'.wr = b.wr ∧
      b'.wr + max ≤ b'.inp.length := by
  have hwr := h.wr_le
  unfold TcpStreamBuf.growInp
  rw [addUsize_fits hmax, addUsize_fits (show max + max ≤ usizeMax by omega)]
  simp only [Exec.ret_bind]
  split
  · rename_i hlt
    refine ⟨_, rfl, ⟨h.rd_le, ?_, ?_⟩, rfl, ?_⟩
    · simp only [List.length_append]
      omega
    · rw [← h.bytes]
      exact Window.slice_pad h.wr_le _
    · simp only [List.length_append, List.length_replicate]
      omega
  · exact ⟨b, rfl, h, rfl, by omega⟩

/-- Space for `max` bytes is made, and the unread bytes are kept. -/
theorem Unread.inpMakespace (h : b.Unread u) (spare : Nat) (hmax : b.wr + max ≤ usizeMax)
    (hdouble : max * 2 ≤ usizeMax) :
    ∃ b', inpMakespace usizeMax spare b max = .ret b' ∧ b'.Unread u ∧ b'.wr ≤ b.wr ∧
      b'.wr + max ≤ b'.inp.length := by
  obtain ⟨h₁, hle₁⟩ := h.rewind
  unfold TcpStreamBuf.inpMakespace
  dsimp only
  rw [addUsize_fits (show b.rewind.wr + max ≤ usizeMax by omega), Exec.ret_bind]
  split
  · exact ⟨_, rfl, h₁, hle₁, ‹_›⟩
  · split
    · obtain ⟨b₂, hb₂, h₂, hle₂⟩ := h₁.compact
      rw [hb₂, Exec.ret_bind, addUsize_fits (show b₂.wr + max ≤ usizeMax by omega), Exec.ret_bind]
      split
      · exact ⟨b₂, rfl, h₂, by omega, ‹_›⟩
      · obtain ⟨b₃, hb₃, h₃, heq, hroom⟩ := h₂.growInp spare
          (show b₂.wr + max ≤ usizeMax by omega) hdouble
        exact ⟨b₃, hb₃, h₃, by omega, hroom⟩
    · obtain ⟨b₃, hb₃, h₃, heq, hroom⟩ := h₁.growInp spare
        (show b.rewind.wr + max ≤ usizeMax by omega) hdouble
      exact ⟨b₃, hb₃, h₃, by omega, hroom⟩

end TcpStreamBuf

/-- The bytes a call on the stream delivered. -/
def StreamCall.delivered : StreamCall → List UInt8
  | .read _ (.ok bytes) => bytes
  | _ => []

namespace TcpStreamBuf
variable {usizeMax max : Nat} {b b' : TcpStreamBuf} {u : List UInt8}

/-- The bytes of an outcome of `read`. -/
def received : Result (List UInt8) → List UInt8
  | .ok bytes => bytes
  | .error _ => []

/-- How a read goes on: it waits for the stream, or has returned with what the
stream delivered behind the unread bytes, `max` bytes at most. -/
def Appends (u : List UInt8) (max : Nat)
    (x : Exec (TcpStreamBuf × ReadStatus × List StreamCall)) : Prop :=
  x = .wait ∨ ∃ b' status calls new, x = .ret (b', status, calls) ∧ b'.Unread (u ++ new) ∧
    new.length ≤ max ∧ calls.flatMap StreamCall.delivered = new

/-- Bytes written behind the unread ones. -/
theorem Unread.extend (h : b.Unread u) {bytes : List UInt8}
    (hroom : b.wr + bytes.length ≤ b.inp.length) :
    Unread { b with inp := Window.overwrite b.inp b.wr bytes, wr := b.wr + bytes.length }
      (u ++ bytes) := by
  refine ⟨Nat.le_trans h.rd_le (Nat.le_add_right _ _), ?_, ?_⟩
  · change b.wr + bytes.length ≤ (Window.overwrite b.inp b.wr bytes).length
    rwa [Window.overwrite_length hroom]
  · change Window.slice (Window.overwrite b.inp b.wr bytes) b.rd (b.wr + bytes.length) = _
    rw [Window.slice_overwrite h.rd_le hroom, h.bytes]

theorem Unread.readLoop (h : b.Unread u) (hmax : b.wr + max ≤ usizeMax)
    (hroom : b.wr + max ≤ b.inp.length) {outcomes : List (Result (List UInt8))}
    (hsound : ∀ r ∈ outcomes, (received r).length ≤ max) :
    Appends u max (readLoop usizeMax b (b.wr + max) outcomes) := by
  have hcond : b.wr ≤ b.wr + max ∧ b.wr + max ≤ b.inp.length := ⟨Nat.le_add_right _ _, hroom⟩
  have hkeep : ∀ b' : TcpStreamBuf, b'.inp = b.inp → b'.rd = b.rd → b'.wr = b.wr →
      b'.Unread (u ++ []) := by
    intro b' hi hr hw
    rw [List.append_nil]
    exact ⟨hr ▸ hw ▸ h.rd_le, hw ▸ hi ▸ h.wr_le, by rw [hi, hr, hw, h.bytes]⟩
  induction outcomes with
  | nil =>
    left
    exact if_pos hcond
  | cons r outcomes ih =>
    have hr := hsound r List.mem_cons_self
    unfold TcpStreamBuf.readLoop
    rw [if_pos hcond]
    dsimp only
    split
    · exact .inr ⟨_, _, _, [], rfl, hkeep _ rfl rfl rfl, Nat.zero_le _, rfl⟩
    · rename_i bytes hne
      change bytes.length ≤ max at hr
      have htake : bytes.take (b.wr + max - b.wr) = bytes := List.take_of_length_le (by omega)
      rw [addUsize_fits (show b.wr + bytes.length ≤ usizeMax by omega), htake]
      exact .inr ⟨_, _, _, bytes, rfl, h.extend (by omega), hr, by simp [StreamCall.delivered]⟩
    · split
      · exact .inr ⟨_, _, _, [], rfl, hkeep _ rfl rfl rfl, Nat.zero_le _, rfl⟩
      · split
        · rcases ih fun r hr => hsound r (List.mem_cons_of_mem _ hr) with hw | ⟨b', status, calls,
            new, hret, hu, hlen, hcalls⟩
          · left
            rw [hw]
            rfl
          · right
            rw [hret]
            exact ⟨b', status, _, new, rfl, hu, hlen, hcalls⟩
        · exact .inr ⟨_, _, _, [], rfl, hkeep _ rfl rfl rfl, Nat.zero_le _, rfl⟩

theorem Unread.read (h : b.Unread u) (spare : Nat) (hmax : b.wr + max ≤ usizeMax)
    (hdouble : max * 2 ≤ usizeMax) {outcomes : List (Result (List UInt8))}
    (hsound : ∀ r ∈ outcomes, (received r).length ≤ max) :
    Appends u max (read usizeMax spare b max outcomes) := by
  obtain ⟨b₁, hb₁, h₁, hle, hroom⟩ := h.inpMakespace spare hmax hdouble
  have hmax₁ : b₁.wr + max ≤ usizeMax := by omega
  unfold TcpStreamBuf.read
  rw [hb₁, Exec.ret_bind]
  split
  · exact .inr ⟨_, _, _, [], rfl, by rwa [List.append_nil], Nat.zero_le _, rfl⟩
  · rw [addUsize_fits hmax₁, Exec.ret_bind]
    exact h₁.readLoop hmax₁ hroom hsound

/-- `n` bytes taken from the front of the unread ones. -/
theorem Unread.consume (h : b.Unread u) {n : Nat} (hn : b.rd + n ≤ b.wr) :
    ∃ u', Unread { b with rd := b.rd + n } u' ∧
      Window.slice b.inp b.rd (b.rd + n) ++ u' = u := by
  refine ⟨Window.slice b.inp (b.rd + n) b.wr, ⟨hn, h.wr_le, rfl⟩, ?_⟩
  rw [← h.bytes]
  exact (Window.slice_append (Nat.le_add_right _ _) hn).symm

theorem Unread.ioRead (h : b.Unread u) (len : Nat) :
    ∃ b' rv u', b.ioRead len = .ret (b', rv) ∧ b'.Unread u' ∧ received rv ++ u' = u := by
  have hrd := h.rd_le
  have hwr := h.wr_le
  unfold TcpStreamBuf.ioRead
  split
  · split
    · exact ⟨b, _, u, rfl, h, rfl⟩
    · exact ⟨b, _, u, rfl, h, rfl⟩
  · rw [if_neg (by omega)]
    dsimp only
    rw [if_pos (by omega)]
    obtain ⟨u', hu', heq⟩ := h.consume (n := min len (b.wr - b.rd)) (by omega)
    exact ⟨_, _, u', rfl, hu', heq⟩

/-- No call of a flush touches the input side. -/
theorem flushStep_input {c : StreamCall} (hc : FlushStep b c b') :
    b' = { b' with inp := b.inp, rd := b.rd, wr := b.wr } ∧ c.delivered = [] := by
  cases hc <;> exact ⟨rfl, rfl⟩

theorem Unread.frame (h : b.Unread u)
    (hb : b' = { b' with inp := b.inp, rd := b.rd, wr := b.wr }) : b'.Unread u := by
  rw [hb]
  exact ⟨h.rd_le, h.wr_le, h.bytes⟩

theorem Unread.flush (h : b.Unread u) {o : FlushOutcomes} {rv : Result Unit}
    {calls : List StreamCall} (hf : b.flush o = .ret (b', rv, calls)) :
    b'.Unread u ∧ calls.flatMap StreamCall.delivered = [] := by
  have hstart : b.Unread u ∧ ([] : List StreamCall).flatMap StreamCall.delivered = [] := ⟨h, rfl⟩
  exact Steps.invariant
    (J := fun calls b => Unread b u ∧ calls.flatMap StreamCall.delivered = [])
    (fun past s c t hs hc => by
      obtain ⟨hb, hd⟩ := flushStep_input hc
      exact ⟨hs.1.frame hb, by simp [hs.2, hd]⟩) hstart (flush_steps hf)

end TcpStreamBuf

/-! ## Whole runs -/

namespace TcpEvent

/-- The bytes the streams delivered. -/
def deliveredBy : TcpEvent → List UInt8
  | .call c => c.delivered
  | _ => []

/-- The bytes the application took, in either way. -/
def consumedBy : TcpEvent → List UInt8
  | .consumed bytes => bytes
  | _ => []

def deliveredIn (tr : List TcpEvent) : List UInt8 := tr.flatMap deliveredBy

def consumedIn (tr : List TcpEvent) : List UInt8 := tr.flatMap consumedBy

variable {tr : List TcpEvent} {calls : List StreamCall}

theorem deliveredIn_concat (e : TcpEvent) :
    deliveredIn (tr ++ [e]) = deliveredIn tr ++ deliveredBy e := by
  simp [deliveredIn]

theorem consumedIn_concat (e : TcpEvent) :
    consumedIn (tr ++ [e]) = consumedIn tr ++ consumedBy e := by
  simp [consumedIn]

theorem deliveredIn_calls : deliveredIn (tr ++ calls.map .call) =
    deliveredIn tr ++ calls.flatMap StreamCall.delivered := by
  simp [deliveredIn, List.flatMap_map, deliveredBy]

theorem consumedIn_calls : consumedIn (tr ++ calls.map .call) = consumedIn tr := by
  simp [consumedIn, List.flatMap_map, consumedBy]

end TcpEvent

open TcpEvent TcpStreamBuf

/-- What is promised of an operation: sums that fit into `usize`, a stream that
delivers no more than there is room for, and an application that takes no more
than there is. -/
def TcpOp.fits (usizeMax : Nat) (s : TcpSession) : TcpOp → Bool
  | .inpMakespace max _ => decide (s.buf.wr + max ≤ usizeMax ∧ max * 2 ≤ usizeMax)
  | .read max _ outcomes => decide (s.buf.wr + max ≤ usizeMax ∧ max * 2 ≤ usizeMax ∧
      ∀ r ∈ outcomes, (received r).length ≤ max)
  | .consume n => decide (s.buf.rd + n ≤ s.buf.wr)
  | _ => true

/-- The operations on the input side. -/
def TcpOp.onInput : TcpOp → Bool
  | .inpMakespace _ _ | .read _ _ _ | .ioRead _ | .consume _ => true
  | _ => false

/-- The unread bytes are what was delivered and not yet consumed. -/
structure InputInv (s : TcpSession) (u : List UInt8) : Prop where
  unread : s.buf.Unread u
  bytes : consumedIn s.trace ++ u = deliveredIn s.trace

namespace InputInv
variable {usizeMax : Nat} {s t : TcpSession} {u : List UInt8}

/-- An event that has nothing to do with the input. -/
theorem idle (h : InputInv s u) {b : TcpStreamBuf} {e : TcpEvent}
    (hb : b = { b with inp := s.buf.inp, rd := s.buf.rd, wr := s.buf.wr })
    (hd : deliveredBy e = []) (hc : consumedBy e = []) :
    InputInv ⟨b, s.trace ++ [e]⟩ u where
  unread := h.unread.frame hb
  bytes := by rw [consumedIn_concat, deliveredIn_concat, hd, hc]; simpa using h.bytes

/-- A read returns with at most `max` bytes more, or waits. -/
theorem read (h : InputInv s u) {max spare : Nat} {outcomes : List (Result (List UInt8))}
    (hfits : TcpOp.fits usizeMax s (.read max spare outcomes) = true) :
    s.step usizeMax (.read max spare outcomes) = .wait ∨
    ∃ t new, s.step usizeMax (.read max spare outcomes) = .ret t ∧ InputInv t (u ++ new) ∧
      new.length ≤ max := by
  obtain ⟨hmax, hdouble, hsound⟩ := of_decide_eq_true hfits
  rcases h.unread.read spare hmax hdouble hsound with hw | ⟨b, status, calls, new, hret,
    hu, hlen, hcalls⟩
  · left
    simp only [TcpSession.step, hw, Exec.wait_bind]
  · right
    refine ⟨⟨b, s.trace ++ calls.map .call⟩, new, ?_, ⟨hu, ?_⟩, hlen⟩
    · simp only [TcpSession.step, hret, Exec.ret_bind]
    · rw [consumedIn_calls, deliveredIn_calls, hcalls, ← h.bytes, List.append_assoc]

/-- The other operations keep the invariant. -/
theorem other (h : InputInv s u) {op : TcpOp} (hop : op.onInput = false)
    (ht : s.step usizeMax op = .ret t) : InputInv t u := by
  cases op with
  | append _ | ioWrite _ | setOutEof _ | init _ | deinit | pauseWrites _ =>
    cases ht
    exact h.idle rfl rfl rfl
  | setNodelay nodelay =>
    cases ht
    refine h.idle ?_ rfl rfl
    unfold TcpStreamBuf.setNodelay
    split <;> rfl
  | flush outcomes =>
    obtain ⟨⟨b, rv, calls⟩, hf, ht⟩ := Exec.bind_eq_ret.mp ht
    cases ht
    obtain ⟨hu, hcalls⟩ := h.unread.flush hf
    exact ⟨hu, by rw [consumedIn_calls, deliveredIn_calls, hcalls, h.bytes, List.append_nil]⟩
  | inpMakespace _ _ | read _ _ _ | ioRead _ | consume _ => cases hop

/-- The operations on the input side do not panic, and keep the invariant. -/
theorem input (h : InputInv s u) {op : TcpOp} (hop : op.onInput = true)
    (hfits : op.fits usizeMax s = true) : s.step usizeMax op ≠ .panic ∧
      ∀ t, s.step usizeMax op = .ret t → ∃ u', InputInv t u' := by
  cases op with
  | append _ | ioWrite _ | setOutEof _ | init _ | deinit | setNodelay _ | pauseWrites _
  | flush _ => cases hop
  | inpMakespace max spare =>
    obtain ⟨hmax, hdouble⟩ := of_decide_eq_true hfits
    obtain ⟨b, hb, hu, -, -⟩ := h.unread.inpMakespace spare hmax hdouble
    have hstep : s.step usizeMax (.inpMakespace max spare) = .ret ⟨b, s.trace⟩ := by
      simp only [TcpSession.step, hb, Exec.ret_bind]
    rw [hstep]
    refine ⟨by simp, fun t ht => ?_⟩
    cases ht
    exact ⟨u, hu, h.bytes⟩
  | read max spare outcomes =>
    rcases h.read hfits with hw | ⟨t', new, hret, hinv, -⟩
    · rw [hw]
      exact ⟨by simp, by simp⟩
    · rw [hret]
      refine ⟨by simp, fun t ht => ?_⟩
      cases ht
      exact ⟨_, hinv⟩
  | ioRead len =>
    obtain ⟨b, rv, u', hret, hu, hcons⟩ := h.unread.ioRead len
    refine ⟨by simp [TcpSession.step, hret], fun t ht => ?_⟩
    simp only [TcpSession.step, hret, Exec.ret_bind] at ht
    cases ht
    refine ⟨u', hu, ?_⟩
    cases rv with
    | error e =>
      have hcons : u' = u := hcons
      simp only [List.append_nil]
      rw [hcons]
      exact h.bytes
    | ok bytes =>
      have hcons : bytes ++ u' = u := hcons
      rw [consumedIn_concat, deliveredIn_concat, ← h.bytes, ← hcons]
      simp [consumedBy, deliveredBy]
  | consume n =>
    refine ⟨by simp [TcpSession.step], fun t ht => ?_⟩
    cases ht
    obtain ⟨u', hu, hcons⟩ := h.unread.consume (of_decide_eq_true hfits)
    refine ⟨u', hu, ?_⟩
    rw [consumedIn_concat, deliveredIn_concat, ← h.bytes, ← hcons]
    simp [consumedBy, deliveredBy]

/-- No operation on the input side panics, and every operation keeps the invariant. -/
theorem step (h : InputInv s u) {op : TcpOp} (hfits : op.fits usizeMax s = true) :
    (op.onInput = true → s.step usizeMax op ≠ .panic) ∧
      ∀ t, s.step usizeMax op = .ret t → ∃ u', InputInv t u' := by
  cases hop : op.onInput with
  | false => exact ⟨by simp, fun t ht => ⟨u, h.other hop ht⟩⟩
  | true =>
    obtain ⟨hpanic, hkeeps⟩ := h.input hop hfits
    exact ⟨fun _ => hpanic, hkeeps⟩

end InputInv

theorem InputInv.start : InputInv {} [] :=
  ⟨⟨Nat.le_refl _, Nat.le_refl _, rfl⟩, rfl⟩

/-- The unread part of the buffer. -/
def TcpStreamBuf.unread (b : TcpStreamBuf) : List UInt8 := Window.slice b.inp b.rd b.wr

/-- An operation on the input side does not panic, and a read appends at most
`max` bytes to the unread ones. -/
def TcpOp.Safe (usizeMax : Nat) (s : TcpSession) (op : TcpOp) : Prop :=
  (op.onInput = true → s.step usizeMax op ≠ .panic) ∧
  ∀ max spare outcomes t, op = .read max spare outcomes → s.step usizeMax op = .ret t →
    ∃ new, t.buf.unread = s.buf.unread ++ new ∧ new.length ≤ max

theorem InputInv.safe {usizeMax : Nat} {s : TcpSession} {u : List UInt8} (h : InputInv s u)
    {op : TcpOp} (hfits : op.fits usizeMax s = true) : op.Safe usizeMax s := by
  refine ⟨(h.step hfits).1, fun max spare outcomes t hop ht => ?_⟩
  subst hop
  rcases h.read hfits with hw | ⟨t', new, hret, hinv, hlen⟩
  · rw [hw] at ht
    cases ht
  · rw [hret] at ht
    cases ht
    refine ⟨new, ?_, hlen⟩
    rw [TcpStreamBuf.unread, hinv.unread.bytes, TcpStreamBuf.unread, h.unread.bytes]

/-- **Input integrity.** In a run whose operations fit, nothing on the input side
panics and each read appends at most `max` bytes; the offsets are in range in the
end, and the bytes consumed followed by the unread ones are the bytes delivered. -/
theorem TcpSession.input_integrity (usizeMax : Nat) (ops : List TcpOp)
    (hfits : Meets (step usizeMax) (fun s op => op.fits usizeMax s = true) {} ops) :
    Meets (step usizeMax) (fun s op => op.Safe usizeMax s) {} ops ∧
    ∀ s, ({} : TcpSession).runs usizeMax ops = .ret s →
      s.buf.rd ≤ s.buf.wr ∧ s.buf.wr ≤ s.buf.inp.length ∧
      consumedIn s.trace ++ s.buf.unread = deliveredIn s.trace := by
  have hstep : ∀ s (op : TcpOp) t, (∃ u, InputInv s u) → op.fits usizeMax s = true →
      step usizeMax s op = .ret t → ∃ u, InputInv t u :=
    fun s op t hs hop ht => (hs.choose_spec.step hop).2 t ht
  refine ⟨?_, fun s hrun => ?_⟩
  · exact hfits.imp hstep (fun s op hs hop => hs.choose_spec.safe hop) ⟨[], InputInv.start⟩
  · obtain ⟨u, hu⟩ := hfits.invariant hstep ⟨[], InputInv.start⟩ hrun
    refine ⟨hu.unread.rd_le, hu.unread.wr_le, ?_⟩
    rw [TcpStreamBuf.unread, hu.unread.bytes, hu.bytes]

/-- Four bytes are read; two are taken; the next read moves the rest to the front
and makes the buffer longer. -/
theorem TcpSession.input_integrity_sample :
    Meets (step 1000) (fun s op => op.Safe 1000 s) {}
      [.init 0, .read 4 0 [.error ⟨.interrupted, none⟩, .ok [1, 2, 3, 4]], .consume 2,
        .read 8 0 [.ok [5, 6]], .ioRead 10, .inpMakespace 3 0] :=
  (input_integrity 1000 _ (by decide)).1

end StakkerMio
