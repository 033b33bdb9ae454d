import StakkerMio.Tcp.FlushSteps
import StakkerMio.Tls.Session

/-! # What a turn does

For each call that a turn of `process` makes, what comes of it with connections that
are as documented; and the rule that takes an invariant from a turn to a call. -/
namespace StakkerMio
open Lib ServerConnection Observed

/-- The buffer is not empty, so a read returns bytes. -/
theorem TcpStreamBuf.ioRead_ok {b b' : TcpStreamBuf} (hne : b.rd ≠ b.wr) {len : Nat}
    {rv : Result (List UInt8)} (h : b.ioRead len = .ret (b', rv)) : ∃ bytes, rv = .ok bytes := by
  unfold ioRead at h
  rw [if_neg (Ne.symm hne)] at h
  split at h
  · cases h
  · dsimp only at h
    split at h <;> cases h
    exact ⟨_, rfl⟩

/-- The locals after a turn. -/
def TlsPump.Turn.state {SC : Type} : TlsPump.Turn SC → TlsPump SC
  | .inl p => p
  | .inr (p, _) => p

namespace TlsPump
variable {SC : Type} {past : List (TlsSessionEvent SC)} {p q : TlsPump SC} {x : Turn SC}

/-- The trace up to now, if it was `past` before the call. -/
def trace (p : TlsPump SC) (past : List (TlsSessionEvent SC)) : List (TlsSessionEvent SC) :=
  past ++ p.events.map .engine

theorem log_trace (e : TlsEvent SC) : (p.log e).trace past = p.trace past ++ [.engine e] := by
  simp [trace, log]

/-- A flush of `ext` is a sequence of steps, and their calls are recorded. -/
theorem flushExt_steps (hx : p.flushExt = .ret x) : ∃ ext calls flushes,
    Steps FlushStep p.ext calls ext ∧
    x.state = { p with
      ext := ext
      outcomes := { p.outcomes with flushes := flushes }
      events := p.events ++ calls.map .call } := by
  unfold flushExt at hx
  split at hx
  · cases hx
  · rename_i o flushes _
    obtain ⟨⟨ext, rv, calls⟩, hf, hx⟩ := Exec.bind_eq_ret.mp hx
    refine ⟨ext, calls, flushes, TcpStreamBuf.flush_steps hf, ?_⟩
    cases rv <;> cases hx <;> rfl

/-- Only the input side of `int` changes. -/
theorem makespace_state {usizeMax n : Nat} (hx : p.makespace usizeMax n = .ret x) :
    x.state.sc = p.sc ∧ x.state.sentOutEof = p.sentOutEof ∧ x.state.ext = p.ext ∧
      x.state.int.out = p.int.out ∧ x.state.int.outEof = p.int.outEof ∧
      x.state.events = p.events := by
  obtain ⟨int, hint, hx⟩ := Exec.bind_eq_ret.mp hx
  cases hx
  rw [show int = _ from TcpStreamBuf.inpMakespace_frame hint]
  exact ⟨rfl, rfl, rfl, rfl, rfl, rfl⟩

/-- A flush that does not panic waits for the stream, succeeds or fails. -/
theorem flushExt_cases (hpanic : p.flushExt ≠ .panic) : p.flushExt = .wait ∨
    ∃ q, (p.flushExt = .ret (.inl q) ∨ ∃ e, p.flushExt = .ret (.inr (q, .error e))) := by
  have hover : p.flushExt.Over := by
    refine Exec.over_of_ne hpanic ?_
    unfold flushExt
    split
    · exact nofun
    · refine Exec.bind_ne_fuel (TcpStreamBuf.flush_ne_fuel _ _) fun a => ?_
      dsimp only
      split <;> exact nofun
  rcases hover with hw | ⟨x, hx⟩
  · exact .inl hw
  · right
    rw [hx]
    unfold flushExt at hx
    split at hx
    · cases hx
    · obtain ⟨⟨ext, rv, calls⟩, -, hx⟩ := Exec.bind_eq_ret.mp hx
      cases rv with
      | error e =>
        cases hx
        exact ⟨_, .inr ⟨_, rfl⟩⟩
      | ok _ =>
        cases hx
        exact ⟨_, .inl rfl⟩

variable [ServerConnection SC]

/-- EOF is passed on, or not; nothing else changes. -/
theorem passOutEof_cases (p : TlsPump SC) : p.passOutEof = p ∨
    p.passOutEof = { p with ext := { p.ext with outEof := true } }.log (.outEof p.sc) := by
  unfold passOutEof
  split
  · exact .inr rfl
  · exact .inl rfl

/-- Plaintext is read, or nothing; only the input side of `int` changes. -/
theorem readOut_state {usizeMax : Nat} (hx : p.readOut usizeMax = .ret x) :
    x.state.sc = (readerRead p.sc (p.int.inp.length - p.int.wr)).1 ∧
      x.state.sentOutEof = p.sentOutEof ∧ x.state.ext = p.ext ∧
      x.state.int.out = p.int.out ∧ x.state.int.outEof = p.int.outEof ∧
      (x.state.events = p.events ∨ ∃ bytes, x.state.events = p.events ++ [.decoded bytes]) := by
  unfold TlsPump.readOut at hx
  split at hx
  · cases hx
  · split at hx
    · rename_i sc' e hread
      dsimp only at hx
      rw [hread]
      split at hx
      · cases hx
        exact ⟨rfl, rfl, rfl, rfl, rfl, .inl rfl⟩
      · split at hx <;> cases hx <;> exact ⟨rfl, rfl, rfl, rfl, rfl, .inl rfl⟩
    · rename_i sc' hread
      rw [hread]
      cases hx
      exact ⟨rfl, rfl, rfl, rfl, rfl, .inl rfl⟩
    · rename_i sc' bytes _ hread
      rw [hread]
      obtain ⟨wr, -, hx⟩ := Exec.bind_eq_ret.mp hx
      cases hx
      exact ⟨rfl, rfl, rfl, rfl, rfl, .inr ⟨bytes, rfl⟩⟩

variable [Observed SC]

/-- After `write_tls` has appended `chunk`. -/
def wrote (p : TlsPump SC) (chunk : List UInt8) (sc : SC) : TlsPump SC :=
  { p with sc := sc, ext := (p.ext.ioWrite chunk).1 }.log (.appended chunk)

/-- Writing succeeds and takes a part of what is pending, which is flushed. -/
theorem writeTlsArm_eq (hdoc : Documented SC) (hw : wantsWrite p.sc = true) :
    ∃ chunk sc rest, p.writeTlsArm = (p.wrote chunk sc).passOutEof.flushExt ∧ chunk ≠ [] ∧
      (sending p.sc).pending = chunk ++ rest ∧
      sending sc = { sending p.sc with pending := rest } ∧ receiving sc = receiving p.sc ∧
      ∃ rv, sc = ((ServerConnection.writeTls p.sc).2 rv).1 := by
  obtain ⟨chunk, k, sc, rest, hwt, hk, hchunk, hp, hsend, hrecv⟩ := hdoc.writeTls p.sc hw
  refine ⟨chunk, sc, rest, ?_, hchunk, hp, hsend, hrecv, .ok chunk.length, ?_⟩
  · unfold writeTlsArm TlsPump.writeTls
    rw [hwt]
    dsimp only [TcpStreamBuf.ioWrite]
    rw [hk]
    rfl
  · rw [hwt]
    exact (congrArg Prod.fst hk).symm

/-- The connection is fed what it reads from `ext`. -/
structure Feeds (p : TlsPump SC) (q : TlsPump SC) (bytes : List UInt8) : Prop where
  sentOutEof : q.sentOutEof = p.sentOutEof
  inpEof : q.inpEof = p.inpEof
  int : q.int = p.int
  outcomes : q.outcomes = p.outcomes
  events : q.events = p.events ++ [.fed bytes]
  ext : ∃ room, p.ext.ioRead room = .ret (q.ext, .ok bytes) ∧ (wantsRead p.sc = true → 0 < room)
  sending : sending q.sc = sending p.sc
  receiving : receiving q.sc = (receiving p.sc).feed bytes

/-- Either `read_tls` fails at once, or the connection is fed. -/
theorem readTls_cases (hdoc : Documented SC) (hne : p.ext.rd ≠ p.ext.wr) {rv : Result Nat}
    (hr : p.readTls = .ret (q, rv)) :
    (q = p ∧ ∃ e, rv = .error e) ∨ ∃ bytes, Feeds p q bytes := by
  unfold TlsPump.readTls at hr
  split at hr
  · rename_i e _
    cases hr
    exact .inl ⟨rfl, e, rfl⟩
  · rename_i room k hread
    obtain ⟨⟨ext, rv'⟩, hio, hr⟩ := Exec.bind_eq_ret.mp hr
    obtain ⟨hroom, hk⟩ := hdoc.readTls p.sc room k hread
    cases rv' with
    | error e =>
      obtain ⟨bytes, hok⟩ := TcpStreamBuf.ioRead_ok hne hio
      cases hok
    | ok bytes =>
      cases hr
      exact .inr ⟨bytes, rfl, rfl, rfl, rfl, rfl, ⟨room, hio, hroom⟩, (hk bytes).1, (hk bytes).2⟩

/-- The arm fails in reading or processing, or goes on with a batch of plaintext. -/
theorem readTlsArm_cases (hdoc : Documented SC) (hne : p.ext.rd ≠ p.ext.wr)
    (hx : p.readTlsArm = .ret x) : (∃ e, x = .inr (p, .error (.readTls e))) ∨
    ∃ q rv bytes, p.readTls = .ret (q, rv) ∧ Feeds p q bytes ∧
      ((∃ e, x = .inr (q, .error (.readTls e))) ∨
        (∃ e, (processNewPackets q.sc).2 = .error e ∧
          x = .inr ({ q with sc := (processNewPackets q.sc).1 }, .error (.stream e))) ∨
        ∃ n, (processNewPackets q.sc).2 = .ok n ∧
          x = .inl { q with
            sc := (processNewPackets q.sc).1
            phase := if 0 < n then .makespace n else .main }) := by
  obtain ⟨⟨q, rv⟩, hread, hx⟩ := Exec.bind_eq_ret.mp hx
  rcases readTls_cases hdoc hne hread with ⟨rfl, e, rfl⟩ | ⟨bytes, hfeeds⟩
  · cases hx
    exact .inl ⟨e, rfl⟩
  · refine .inr ⟨q, rv, bytes, hread, hfeeds, ?_⟩
    cases rv with
    | error e =>
      cases hx
      exact .inl ⟨e, rfl⟩
    | ok _ =>
      dsimp only at hx
      split at hx
      · rename_i sc' e hproc
        cases hx
        exact .inr (.inl ⟨e, by rw [hproc], by rw [hproc]⟩)
      · rename_i sc' n hproc
        cases hx
        exact .inr (.inr ⟨n, by rw [hproc], by rw [hproc]⟩)

end TlsPump

/-! ## From turns to calls -/

namespace TlsServerEngine
variable {SC : Type} [ServerConnection SC]

/-- What every turn keeps, if it meets the condition, holds when `process` returns. -/
theorem process_invariant {usizeMax fuel : Nat} {e : TlsServerEngine SC} {sc : SC}
    (hsc : e.sc = some sc) {ext int : TcpStreamBuf} {outcomes : TlsOutcomes} {r : Processed SC}
    {I : TlsPump.Turn SC → Prop} {P : TlsPump SC → Prop}
    (hturn : ∀ p x, I (.inl p) → P p → p.turn usizeMax = .ret x → I x)
    (hP : ∀ p, Visits (TlsPump.turn usizeMax) (e.pump sc ext int outcomes) p → P p)
    (hstart : I (.inl (e.pump sc ext int outcomes)))
    (hr : e.process usizeMax fuel ext int outcomes = .ret r) :
    ∃ x, I (.inr x) ∧ r = processed x := by
  unfold process at hr
  rw [hsc] at hr
  dsimp only at hr
  cases hloop : loop (TlsPump.turn usizeMax) fuel (e.pump sc ext int outcomes) with
  | ret x =>
    rw [hloop] at hr
    cases hr
    obtain ⟨p, hp, hlast⟩ := loop_last hloop
    have hI : I (.inl p) := hp.invariant (I := fun p => I (.inl p))
      (fun p q hi hc hq => hturn p (.inl q) hi hc hq) hP hstart
    exact ⟨x, hturn p (.inr x) hI (hP p hp) hlast, rfl⟩
  | _ =>
    rw [hloop] at hr
    cases hr

end TlsServerEngine

namespace TlsSession
variable {SC : Type} [ServerConnection SC]

/-- All turns of a call meet the condition. -/
def Turns (usizeMax : Nat) (P : TlsPump SC → Prop) (s : TlsSession SC) : TlsOp → Prop
  | .process _ outcomes => ∀ sc p, s.engine.sc = some sc →
      Visits (TlsPump.turn usizeMax) (s.engine.pump sc s.ext s.int outcomes) p → P p
  | _ => True

/-- The same, by trying it with `n` turns at most. -/
def checkTurns (usizeMax n : Nat) (p : TlsPump SC → Bool) (s : TlsSession SC) : TlsOp → Bool
  | .process _ outcomes =>
    match s.engine.sc with
    | some sc => Visits.check (TlsPump.turn usizeMax) p n (s.engine.pump sc s.ext s.int outcomes)
    | none => true
  | _ => true

theorem turns_of_check {usizeMax n : Nat} {p : TlsPump SC → Bool} {P : TlsPump SC → Prop}
    (hp : ∀ q, p q = true → P q) {s : TlsSession SC} {op : TlsOp}
    (h : s.checkTurns usizeMax n p op = true) : s.Turns usizeMax P op := by
  cases op with
  | process fuel outcomes =>
    intro sc q hsc hq
    unfold checkTurns at h
    rw [hsc] at h
    exact hp q (Visits.of_check h hq)
  | ext op => trivial
  | int op => trivial

/-- A loop that is over is a call that is. -/
theorem step_over {usizeMax fuel : Nat} {s : TlsSession SC} {sc : SC}
    (hsc : s.engine.sc = some sc) {outcomes : TlsOutcomes}
    (hloop : (loop (TlsPump.turn usizeMax) fuel (s.engine.pump sc s.ext s.int outcomes)).Over) :
    (s.step usizeMax (.process fuel outcomes)).Over := by
  have hprocess : (s.engine.process usizeMax fuel s.ext s.int outcomes).Over := by
    unfold TlsServerEngine.process
    rw [hsc]
    exact hloop.map _
  exact hprocess.bind fun _ => .inr ⟨_, rfl⟩

/-- A loop that is never left is a call that does not return. -/
theorem step_fuel {usizeMax fuel : Nat} {s : TlsSession SC} {sc : SC}
    (hsc : s.engine.sc = some sc) {outcomes : TlsOutcomes}
    (hloop : loop (TlsPump.turn usizeMax) fuel (s.engine.pump sc s.ext s.int outcomes) = .fuel) :
    s.step usizeMax (.process fuel outcomes) = .fuel := by
  unfold step TlsServerEngine.process
  rw [hsc]
  dsimp only
  rw [hloop]
  rfl

/-- The invariant of a call, from turn to turn, holds when the call has returned. -/
theorem step_process {usizeMax fuel : Nat} {s t : TlsSession SC} {outcomes : TlsOutcomes} {sc : SC}
    (hsc : s.engine.sc = some sc) {I : TlsPump.Turn SC → Prop} {P : TlsPump SC → Prop}
    (hturn : ∀ p x, I (.inl p) → P p → p.turn usizeMax = .ret x → I x)
    (hP : s.Turns usizeMax P (.process fuel outcomes))
    (hstart : I (.inl (s.engine.pump sc s.ext s.int outcomes)))
    (ht : s.step usizeMax (.process fuel outcomes) = .ret t) :
    ∃ p rv, I (.inr (p, rv)) ∧ t = ⟨⟨some p.sc, p.sentOutEof, p.inpEof⟩, p.ext, p.int,
      p.trace s.trace ++ [.engine (.returned rv)]⟩ := by
  obtain ⟨r, hr, ht⟩ := Exec.bind_eq_ret.mp ht
  obtain ⟨⟨p, rv⟩, hp, rfl⟩ :=
    TlsServerEngine.process_invariant hsc hturn (fun p => hP sc p hsc) hstart hr
  refine ⟨p, rv, hp, ?_⟩
  cases ht
  simp [TlsServerEngine.processed, TlsPump.trace]

end TlsSession
end StakkerMio
