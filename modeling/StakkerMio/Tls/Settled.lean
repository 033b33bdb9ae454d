import StakkerMio.Tls.Eof

/-! # A call that has done all it can

When `process` returns `Ok` there is nothing left for it to do: a second call finds the
outer loop at its end and changes nothing, until something is read, written or closed. -/
namespace StakkerMio
open Lib ServerConnection Observed TlsSessionEvent

namespace TlsPump
variable {SC : Type} {p q : TlsPump SC} {x : Turn SC} {eof : Option TlsEof}

/-- A flush does not make the call return `Ok`. -/
theorem flushExt_ne_ok (hx : p.flushExt = .ret (.inr (q, .ok eof))) : False := by
  unfold flushExt at hx
  split at hx
  · cases hx
  · obtain ⟨⟨ext, rv, calls⟩, -, hx⟩ := Exec.bind_eq_ret.mp hx
    cases rv <;> cases hx

variable [ServerConnection SC]

theorem writeTlsArm_ne_ok : p.writeTlsArm ≠ .ret (.inr (q, .ok eof)) := by
  intro hx
  unfold TlsPump.writeTlsArm at hx
  split at hx
  · cases hx
  · exact flushExt_ne_ok hx

theorem writerArm_ne_ok : p.writerArm ≠ .ret (.inr (q, .ok eof)) := by
  intro hx
  unfold TlsPump.writerArm at hx
  split at hx
  · cases hx
  · split at hx <;> cases hx

theorem readTlsArm_ne_ok : p.readTlsArm ≠ .ret (.inr (q, .ok eof)) := by
  intro hx
  obtain ⟨⟨r, rv⟩, -, hx⟩ := Exec.bind_eq_ret.mp hx
  cases rv with
  | error e => cases hx
  | ok n =>
    dsimp only at hx
    split at hx <;> cases hx

theorem readOut_ne_ok {usizeMax : Nat} : p.readOut usizeMax ≠ .ret (.inr (q, .ok eof)) := by
  intro hx
  unfold TlsPump.readOut at hx
  split at hx
  · cases hx
  · split at hx
    · dsimp only at hx
      split at hx
      · cases hx
      · split at hx <;> cases hx
    · cases hx
    · obtain ⟨wr, -, hx⟩ := Exec.bind_eq_ret.mp hx
      cases hx

/-- What is left when the outer loop is left. -/
structure Settled (p : TlsPump SC) : Prop where
  phase : p.phase = .main
  arm : p.arm = .leave

/-- Only the last arm returns `Ok`. -/
theorem turn_ok {usizeMax : Nat} (hx : p.turn usizeMax = .ret (.inr (q, .ok eof))) :
    p.Settled ∧ q = p ∧ eof = p.inpEof := by
  unfold TlsPump.turn at hx
  split at hx
  · rename_i hphase
    cases harm : p.arm with
    | writeTls =>
      rw [harm] at hx
      exact (writeTlsArm_ne_ok hx).elim
    | writer =>
      rw [harm] at hx
      exact (writerArm_ne_ok hx).elim
    | closeNotify =>
      rw [harm] at hx
      cases hx
    | readTls =>
      rw [harm] at hx
      exact (readTlsArm_ne_ok hx).elim
    | leave =>
      rw [harm] at hx
      cases hx
      exact ⟨⟨hphase, harm⟩, rfl, rfl⟩
  · obtain ⟨int, -, hx⟩ := Exec.bind_eq_ret.mp hx
    cases hx
  · exact (readOut_ne_ok hx).elim

/-- What holds when the call returns `Ok`. -/
def Last : Turn SC → Prop
  | .inr (p, .ok eof) => p.Settled ∧ eof = p.inpEof
  | _ => True

theorem Last.turn {usizeMax : Nat} (hx : p.turn usizeMax = .ret x) : Last x := by
  match x with
  | .inl q => trivial
  | .inr (q, .error e) => trivial
  | .inr (q, .ok eof) =>
    obtain ⟨hp, rfl, rfl⟩ := turn_ok hx
    exact ⟨hp, rfl⟩

/-- What the choice of the last arm says of the two buffers. -/
theorem Settled.done (h : p.Settled) : wantsWrite p.sc = false ∧ p.int.out = [] ∧
    (p.int.outEof = true → p.sentOutEof = true) ∧
    (wantsRead p.sc = true → p.ext.rd = p.ext.wr) := by
  have hspec := p.arm_spec
  rw [h.arm] at hspec
  obtain ⟨hw, hout⟩ := hspec
  have harm := h.arm
  unfold TlsPump.arm at harm
  rw [hw, hout] at harm
  refine ⟨hw, hout, fun heof => ?_, fun hread => ?_⟩
  · by_contra hsent
    have hsent : p.sentOutEof = false := by simpa using hsent
    simp [heof, hsent] at harm
  · by_contra hne
    split at harm
    · cases harm
    · split at harm
      · cases harm
      · split at harm
        · cases harm
        · simp [hread, hne] at harm

end TlsPump

namespace TlsSession
variable {SC : Type} [ServerConnection SC]

/-- **Nothing is left undone.** When a call of `process` returns `Ok`, the connection has
nothing to write, `int.out` is empty and its EOF passed to the connection, and what is unread
in `ext` the connection does not want. Another call returns the same at once, without a call
of the stream. -/
theorem process_settles (usizeMax fuel : Nat) (s t : TlsSession SC) (outcomes : TlsOutcomes)
    (past : List (TlsSessionEvent SC)) (eof : Option TlsEof) (hsc : s.engine.sc.isSome)
    (ht : s.step usizeMax (.process fuel outcomes) = .ret t)
    (htrace : t.trace = past ++ [.engine (.returned (.ok eof))]) :
    (∃ sc, t.engine.sc = some sc ∧ wantsWrite sc = false ∧ t.int.out = [] ∧
      (t.int.outEof = true → t.engine.sentOutEof = true) ∧
      (wantsRead sc = true → t.ext.rd = t.ext.wr)) ∧
    ∀ fuel' outcomes', t.step usizeMax (.process (fuel' + 1) outcomes') =
      .ret { t with trace := t.trace ++ [.engine (.returned (.ok eof))] } := by
  obtain ⟨sc, hsc⟩ := Option.isSome_iff_exists.mp hsc
  obtain ⟨p, rv, hlast, rfl⟩ := step_process hsc (I := TlsPump.Last) (P := fun _ => True)
    (fun p x _ _ hx => TlsPump.Last.turn hx) (fun _ _ _ _ => trivial) trivial ht
  have hrv : rv = .ok eof := by simpa using congrArg List.getLast? htrace
  subst hrv
  obtain ⟨hp, rfl⟩ := hlast
  refine ⟨⟨p.sc, rfl, hp.done⟩, fun fuel' outcomes' => ?_⟩
  -- The loop is left in its first turn.
  have hturn : (TlsServerEngine.pump ⟨some p.sc, p.sentOutEof, p.inpEof⟩ p.sc p.ext p.int
      outcomes').turn usizeMax = .ret (.inr (TlsServerEngine.pump
        ⟨some p.sc, p.sentOutEof, p.inpEof⟩ p.sc p.ext p.int outcomes', .ok p.inpEof)) := by
    have harm : (TlsServerEngine.pump ⟨some p.sc, p.sentOutEof, p.inpEof⟩ p.sc p.ext p.int
      outcomes').arm = .leave := hp.arm
    unfold TlsPump.turn
    rw [harm]
    rfl
  unfold step TlsServerEngine.process
  dsimp only
  rw [loop, hturn]
  rfl

/-- The call that answers the ClientHello. -/
theorem process_settles_sample : ∃ s t : TlsSession NullConnection,
    (start ({} : NullConnection)).runs 1000 [.ext (.init 0), .ext (.pauseWrites true),
      .ext (.read 64 0 [.ok (NullConnection.frame 22 [1])])] = .ret s ∧
    s.step 1000 (.process 8 { flushes := [{}] }) = .ret t ∧
    ∀ fuel' outcomes', t.step 1000 (.process (fuel' + 1) outcomes') =
      .ret { t with trace := t.trace ++ [.engine (.returned (.ok none))] } := by
  obtain ⟨s, hs, hprocess⟩ := Exec.exists_ret_of (x := (start ({} : NullConnection)).runs 1000
      [.ext (.init 0), .ext (.pauseWrites true),
        .ext (.read 64 0 [.ok (NullConnection.frame 22 [1])])])
    (p := fun s => s.engine.sc.isSome && (s.step 1000 (.process 8 { flushes := [{}] })).returns
      fun t => t.answered none) (by decide +kernel)
  obtain ⟨hsc, hprocess⟩ := Bool.and_eq_true_iff.mp hprocess
  obtain ⟨t, ht, hanswered⟩ := Exec.exists_ret_of hprocess
  obtain ⟨past, htrace⟩ := trace_of_answered hanswered
  exact ⟨s, t, hs, ht, (process_settles 1000 8 s t _ past none hsc ht htrace).2⟩

end TlsSession
end StakkerMio
