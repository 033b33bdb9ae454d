import StakkerMio.Tcp.ReadEof
import StakkerMio.Tls.Eof

/-! # The inner loop

It reads a batch of plaintext into the space made in `int`, until `Reader::read` would
block. `Ok(0)` does not leave it, and is also the answer for an empty slice: so it is
left only if the batch does not fill the space and the peer has not closed. -/
namespace StakkerMio
open Lib ServerConnection Observed TcpStreamBuf

namespace TcpStreamBuf
variable {usizeMax spare n : Nat} {b b' : TcpStreamBuf} {u : List UInt8}

/-- Whether the space that is made for `n` bytes is more than that: the buffer as it is,
with the unread bytes moved to the front, or made longer. -/
def leavesRoom (b : TcpStreamBuf) (spare n : Nat) : Bool :=
  let unread := b.wr - b.rd
  let wr := if b.rd = b.wr then 0 else b.wr
  if wr + n ≤ b.inp.length then wr + n != b.inp.length
  else if unread + n ≤ b.inp.length then unread + n != b.inp.length
  else decide (unread < n ∨ 0 < spare)

/-- The buffer is made longer. -/
theorem growInp_room (hgrow : b.inp.length < b.wr + n)
    (hb : growInp usizeMax spare b n = .ret b') :
    b'.wr + n < b'.inp.length ↔ b.wr < n ∨ 0 < spare := by
  obtain ⟨stop, hstop, hb⟩ := Exec.bind_eq_ret.mp hb
  obtain ⟨double, hdouble, hb⟩ := Exec.bind_eq_ret.mp hb
  have hstop := addUsize_ret hstop
  have hdouble := addUsize_ret hdouble
  dsimp only at hb
  rw [if_pos (by omega)] at hb
  cases hb
  simp only [List.length_append, List.length_replicate]
  omega

/-- The space that is made. -/
theorem inpMakespace_room (hrd : b.rd ≤ b.wr) (hwr : b.wr ≤ b.inp.length)
    (hb : inpMakespace usizeMax spare b n = .ret b') :
    b'.wr + n < b'.inp.length ↔ b.leavesRoom spare n = true := by
  unfold leavesRoom
  dsimp only
  obtain ⟨stop, hstop, hb⟩ := Exec.bind_eq_ret.mp hb
  have hstop := addUsize_ret hstop
  subst hstop
  by_cases heq : b.rd = b.wr
  · -- Nothing is unread: the offsets go back to the start.
    have hrewind : b.rewind = { b with rd := 0, wr := 0 } := if_pos heq
    rw [hrewind] at hb
    rw [if_pos heq, heq, Nat.sub_self]
    dsimp only at hb
    split at hb
    · rename_i hle
      cases hb
      rw [if_pos hle, bne_iff_ne]
      dsimp only
      omega
    · rename_i hgrow
      rw [if_neg (fun hne => hne rfl)] at hb
      rw [if_neg hgrow, if_neg hgrow, decide_eq_true_iff]
      have hroom := growInp_room (by simpa using hgrow) hb
      exact hroom
  · have hrewind : b.rewind = b := if_neg heq
    rw [hrewind] at hb
    rw [if_neg heq]
    split at hb
    · rename_i hle
      cases hb
      rw [if_pos hle, bne_iff_ne]
      omega
    · rename_i hgrow
      rw [if_neg hgrow]
      split at hb
      · -- The unread bytes are moved to the front.
        obtain ⟨b₂, hb₂, hb⟩ := Exec.bind_eq_ret.mp hb
        obtain ⟨stop₂, hstop₂, hb⟩ := Exec.bind_eq_ret.mp hb
        have hstop₂ := addUsize_ret hstop₂
        subst hstop₂
        rw [compact, if_pos ⟨hrd, hwr⟩] at hb₂
        cases hb₂
        have hlength : (Window.copyWithin b.inp b.rd b.wr).length = b.inp.length :=
          Window.copyWithin_length hrd hwr
        dsimp only at hb
        rw [hlength] at hb
        split at hb
        · rename_i hle
          cases hb
          rw [if_pos hle, bne_iff_ne]
          dsimp only
          omega
        · rename_i hgrow₂
          rw [if_neg hgrow₂, decide_eq_true_iff]
          exact growInp_room (by dsimp only; omega) hb
      · rename_i hrd₀
        have hrd₀ : b.rd = 0 := not_not.mp hrd₀
        rw [hrd₀, Nat.sub_zero, if_neg hgrow, decide_eq_true_iff]
        exact growInp_room (Nat.not_le.mp hgrow) hb

end TcpStreamBuf

namespace TlsPump
variable {SC : Type} {p q r : TlsPump SC} {usizeMax slack : Nat}

/-- The inner loop is left where the outer one goes on, or the call returns. -/
def stays (x : Turn SC) : TlsPump SC ⊕ Turn SC :=
  match x with
  | .inl q => if q.phase = .main then .inr (.inl q) else .inl q
  | .inr r => .inr (.inr r)

theorem stays_inl {x : Turn SC} (h : stays x = .inl q) : x = .inl q ∧ q.phase ≠ .main := by
  cases x with
  | inr r => cases h
  | inl p =>
    unfold stays at h
    dsimp only at h
    split at h
    · cases h
    · cases h
      exact ⟨rfl, ‹_›⟩

theorem stays_inr {x y : Turn SC} (h : stays x = .inr y) :
    x = y ∧ ∀ q, x = .inl q → q.phase = .main := by
  cases x with
  | inr r =>
    cases h
    refine ⟨rfl, fun q hq => ?_⟩
    cases hq
  | inl p =>
    unfold stays at h
    dsimp only at h
    split at h
    · rename_i hphase
      cases h
      refine ⟨rfl, fun q hq => ?_⟩
      cases hq
      exact hphase
    · cases h

/-- After a read of `bytes` into `int`. -/
def tookIn (p : TlsPump SC) (bytes : List UInt8) (sc : SC) : TlsPump SC :=
  let int := { p.int with
    inp := Window.overwrite p.int.inp p.int.wr bytes
    wr := p.int.wr + bytes.length }
  { p with sc := sc, int := int }.log (.decoded bytes)

variable [ServerConnection SC]

/-- From `inp_makespace` to the end of the inner loop. -/
def readOutLoop (usizeMax fuel : Nat) (p : TlsPump SC) : Exec (Turn SC) :=
  loop (fun p => stays <$> p.turn usizeMax) fuel p

variable [Observed SC]

/-- The batch is read out: the loop ends, the batch is behind what was unread, and an
end of the input is reported only if the peer has closed. -/
def ReadsOut (usizeMax : Nat) (p : TlsPump SC) : Prop :=
  ∃ n q, (∀ fuel, n ≤ fuel → p.readOutLoop usizeMax fuel = .ret (.inl q)) ∧
    q.int.unread = p.int.unread ++ (receiving p.sc).incoming ∧
    (q.inpEof ≠ p.inpEof → (receiving p.sc).closed = true)

/-- The inner loop has read a part of the batch of `p`, and there will be `slack` bytes
of space left in the end. -/
structure Draining (usizeMax slack : Nat) (p q : TlsPump SC) : Prop where
  phase : q.phase = .readOut
  unread : q.int.Unread q.int.unread
  bytes : q.int.unread ++ (receiving q.sc).incoming = p.int.unread ++ (receiving p.sc).incoming
  closed : (receiving q.sc).closed = (receiving p.sc).closed
  sawEof : (receiving q.sc).sawEof = (receiving p.sc).sawEof
  inpEof : q.inpEof = p.inpEof
  space : q.int.wr + (receiving q.sc).incoming.length + slack = q.int.inp.length
  fits : q.int.wr + (receiving q.sc).incoming.length ≤ usizeMax

/-- A turn of the inner loop that reads something. -/
theorem Draining.read (hdoc : Documented SC) (h : Draining usizeMax slack p q)
    (hsome : (receiving q.sc).incoming ≠ []) : ∃ r, q.turn usizeMax = .ret (.inl r) ∧
      Draining usizeMax slack p r ∧
      (receiving r.sc).incoming.length < (receiving q.sc).incoming.length := by
  have hspace := h.space
  have hfits := h.fits
  have hlen : 0 < (receiving q.sc).incoming.length := List.length_pos_iff.mpr hsome
  obtain ⟨bytes, rest, sc', hread, hbytes, hshort, hsplit, hrecv⟩ :=
    hdoc.readerRead_some q.sc (q.int.inp.length - q.int.wr) hsome (by omega)
  obtain ⟨byte, bytes, rfl⟩ := List.exists_cons_of_ne_nil hbytes
  have hlength : (receiving q.sc).incoming.length = (byte :: bytes).length + rest.length := by
    rw [hsplit, List.length_append]
  have hrest : (receiving sc').incoming = rest := by rw [hrecv]
  have hroom : q.int.wr + (byte :: bytes).length ≤ q.int.inp.length := by omega
  have hextend : (q.tookIn (byte :: bytes) sc').int.Unread (q.int.unread ++ byte :: bytes) :=
    h.unread.extend hroom
  have hunread := hextend.eq_unread
  refine ⟨q.tookIn (byte :: bytes) sc', ?_, ⟨h.phase, ?_, ?_, ?_, ?_, h.inpEof, ?_, ?_⟩, ?_⟩
  · unfold TlsPump.turn
    rw [h.phase]
    dsimp only
    unfold TlsPump.readOut
    rw [if_neg (by omega), hread]
    dsimp only
    rw [addUsize_fits (by omega), Exec.ret_bind]
    rfl
  · exact hunread ▸ hextend
  · change _ ++ (receiving sc').incoming = _
    rw [hunread, hrest, List.append_assoc, ← hsplit, h.bytes]
  · change (receiving sc').closed = _
    rw [hrecv]
    exact h.closed
  · change (receiving sc').sawEof = _
    rw [hrecv]
    exact h.sawEof
  · change q.int.wr + (byte :: bytes).length + (receiving sc').incoming.length + slack =
      (Window.overwrite q.int.inp q.int.wr (byte :: bytes)).length
    rw [Window.overwrite_length hroom, hrest]
    omega
  · change q.int.wr + (byte :: bytes).length + (receiving sc').incoming.length ≤ usizeMax
    rw [hrest]
    omega
  · change (receiving sc').incoming.length < _
    rw [hrest, hlength]
    exact Nat.lt_add_of_pos_left (Nat.succ_pos _)

/-- All of the batch is read in the end. -/
theorem Draining.drained (hdoc : Documented SC) (h : Draining usizeMax slack p q) :
    ∃ r, Visits (fun p : TlsPump SC => stays <$> p.turn usizeMax) q r ∧
      Draining usizeMax slack p r ∧ (receiving r.sc).incoming = [] := by
  induction hn : (receiving q.sc).incoming.length using Nat.strong_induction_on generalizing q with
  | _ n ih =>
    by_cases hnone : (receiving q.sc).incoming = []
    · exact ⟨q, .here q, h, hnone⟩
    · obtain ⟨m, hturn, hm, hlt⟩ := h.read hdoc hnone
      obtain ⟨r, hvisits, hr, hdone⟩ := ih _ (hn ▸ hlt) hm rfl
      refine ⟨r, .next (m := m) ?_ hvisits, hr, hdone⟩
      rw [hturn, Exec.map_ret, stays, hm.phase]
      rfl

/-- With nothing left to read, and room, the loop is left. -/
theorem Draining.left (hdoc : Documented SC) (h : Draining usizeMax slack p q)
    (hnone : (receiving q.sc).incoming = []) (hslack : 0 < slack)
    (hclosed : (receiving p.sc).closed = false) (hsaw : (receiving p.sc).sawEof = false) :
    ∃ r, q.turn usizeMax = .ret (.inl r) ∧ r.phase = .main ∧ r.int = q.int ∧
      r.inpEof = q.inpEof := by
  have hspace := h.space
  obtain ⟨sc', rv, hread, hrecv, hrv⟩ :=
    hdoc.readerRead_none q.sc (q.int.inp.length - q.int.wr) hnone (by omega)
  rw [h.closed, hclosed, h.sawEof, hsaw] at hrv
  obtain ⟨e, rfl, hkind⟩ : ∃ e, rv = .error e ∧ e.kind = .wouldBlock := by simpa using hrv
  refine ⟨{ q with sc := sc', phase := .main }, ?_, rfl, rfl, rfl⟩
  unfold TlsPump.turn
  rw [h.phase]
  dsimp only
  unfold TlsPump.readOut
  rw [if_neg (by omega), hread]
  dsimp only
  rw [if_pos hkind]
  rfl

omit [ServerConnection SC] in
/-- With nothing left to read, and no room or the end of the input, it never is. -/
theorem Draining.stuck (h : Draining usizeMax slack p q)
    (hnone : (receiving q.sc).incoming = [])
    (hends : slack = 0 ∨ (receiving p.sc).closed = true ∨ (receiving p.sc).sawEof = true) :
    q.Stuck := by
  have hspace := h.space
  refine ⟨h.phase, by omega, ?_⟩
  rcases hends with hslack | hends
  · left
    rw [hnone, hslack] at hspace
    simp only [List.length_nil] at hspace
    omega
  · rw [h.closed, h.sawEof]
    exact .inr ⟨hnone, hends⟩

theorem Stuck.readOutLoop (hdoc : Documented SC) (h : p.Stuck) (fuel : Nat) :
    p.readOutLoop usizeMax fuel = .fuel := by
  refine loop_fuel (fun q hq => ?_) h fuel
  obtain ⟨r, hr, hstuck⟩ := hq.turn usizeMax hdoc
  refine ⟨r, ?_, hstuck⟩
  rw [hr, Exec.map_ret, stays, hstuck.phase]
  rfl

/-- The turn that makes space. -/
theorem draining_makespace {n : Nat} (hphase : p.phase = .makespace n)
    (hbatch : (receiving p.sc).incoming.length = n) (hrd : p.int.rd ≤ p.int.wr)
    (hwr : p.int.wr ≤ p.int.inp.length) (hfits : p.int.wr + n ≤ usizeMax ∧ n * 2 ≤ usizeMax) :
    ∃ q slack, p.turn usizeMax = .ret (.inl q) ∧ Draining usizeMax slack p q ∧
      (0 < slack ↔ p.int.leavesRoom (p.outcomes.spares.headD 0) n = true) := by
  have hu : p.int.Unread p.int.unread := ⟨hrd, hwr, rfl⟩
  obtain ⟨int, hint, hunread, hle, hroom⟩ :=
    hu.inpMakespace (p.outcomes.spares.headD 0) hfits.1 hfits.2
  have hiff := inpMakespace_room hrd hwr hint
  refine ⟨{ p with
    int := int
    outcomes := { p.outcomes with spares := p.outcomes.spares.tail }
    phase := .readOut }, int.inp.length - (int.wr + n), ?_,
    ⟨rfl, ?_, ?_, rfl, rfl, rfl, ?_, ?_⟩, ?_⟩
  · unfold TlsPump.turn
    rw [hphase]
    dsimp only
    unfold TlsPump.makespace
    rw [hint, Exec.ret_bind]
    rfl
  · exact hunread.eq_unread ▸ hunread
  · change int.unread ++ _ = _
    rw [hunread.eq_unread]
  · change int.wr + (receiving p.sc).incoming.length + _ = int.inp.length
    omega
  · change int.wr + (receiving p.sc).incoming.length ≤ usizeMax
    omega
  · rw [← hiff]
    omega

omit [Observed SC] in
theorem turn_of_stays {s t : TlsPump SC} (h : stays <$> s.turn usizeMax = .ret (.inl t)) :
    s.turn usizeMax = .ret (.inl t) ∧ t.phase ≠ .main := by
  obtain ⟨x, hx, hstays⟩ := Exec.map_eq_ret.mp h
  obtain ⟨rfl, hphase⟩ := stays_inl hstays
  exact ⟨hx, hphase⟩

/-- The loop comes to where all of the batch is read. -/
theorem drains (hdoc : Documented SC) {n : Nat} (hphase : p.phase = .makespace n)
    (hbatch : (receiving p.sc).incoming.length = n) (hrd : p.int.rd ≤ p.int.wr)
    (hwr : p.int.wr ≤ p.int.inp.length) (hfits : p.int.wr + n ≤ usizeMax ∧ n * 2 ≤ usizeMax) :
    ∃ r slack, Visits (fun p : TlsPump SC => stays <$> p.turn usizeMax) p r ∧
      Draining usizeMax slack p r ∧ (receiving r.sc).incoming = [] ∧
      (0 < slack ↔ p.int.leavesRoom (p.outcomes.spares.headD 0) n = true) := by
  obtain ⟨q, slack, hturn, hq, hslack⟩ := draining_makespace hphase hbatch hrd hwr hfits
  obtain ⟨r, hvisits, hr, hnone⟩ := hq.drained hdoc
  refine ⟨r, slack, .next (m := q) ?_ hvisits, hr, hnone, hslack⟩
  rw [hturn, Exec.map_ret, stays, hq.phase]
  rfl

/-- Where the condition is not met, the loop gets stuck. -/
theorem stuck_of_not (hdoc : Documented SC) {n : Nat} (hphase : p.phase = .makespace n)
    (hbatch : (receiving p.sc).incoming.length = n) (hrd : p.int.rd ≤ p.int.wr)
    (hwr : p.int.wr ≤ p.int.inp.length) (hfits : p.int.wr + n ≤ usizeMax ∧ n * 2 ≤ usizeMax)
    (hnot : ¬((receiving p.sc).closed = false ∧ (receiving p.sc).sawEof = false ∧
      p.int.leavesRoom (p.outcomes.spares.headD 0) n = true)) :
    ∃ r, Visits (fun p : TlsPump SC => stays <$> p.turn usizeMax) p r ∧ r.Stuck := by
  obtain ⟨r, slack, hvisits, hr, hnone, hslack⟩ := drains hdoc hphase hbatch hrd hwr hfits
  refine ⟨r, hvisits, hr.stuck hnone ?_⟩
  by_contra hopen
  simp only [not_or, Bool.not_eq_true] at hopen
  exact hnot ⟨hopen.2.1, hopen.2.2, hslack.mp (Nat.pos_of_ne_zero hopen.1)⟩

theorem not_readsOut (hdoc : Documented SC) {r : TlsPump SC}
    (hvisits : Visits (fun p : TlsPump SC => stays <$> p.turn usizeMax) p r) (hstuck : r.Stuck) :
    ¬p.ReadsOut usizeMax := by
  rintro ⟨n, q, hend, -⟩
  have hnever := hvisits.loop_fuel (fun k => hstuck.readOutLoop hdoc k) n
  have hret := hend n (Nat.le_refl n)
  rw [readOutLoop, hnever] at hret
  cases hret

/-- **Read-out.** Whatever the offsets of `int` and the batch, it is read out exactly if
the peer has neither closed nor ended the stream and the batch leaves room in the space
that is made for it. -/
theorem reads_out_iff (hdoc : Documented SC) (usizeMax n : Nat) (p : TlsPump SC)
    (hphase : p.phase = .makespace n) (hbatch : (receiving p.sc).incoming.length = n)
    (hrd : p.int.rd ≤ p.int.wr) (hwr : p.int.wr ≤ p.int.inp.length)
    (hfits : p.int.wr + n ≤ usizeMax ∧ n * 2 ≤ usizeMax) :
    p.ReadsOut usizeMax ↔ (receiving p.sc).closed = false ∧ (receiving p.sc).sawEof = false ∧
      p.int.leavesRoom (p.outcomes.spares.headD 0) n = true := by
  constructor
  · intro hout
    by_contra hnot
    obtain ⟨r, hvisits, hstuck⟩ := stuck_of_not hdoc hphase hbatch hrd hwr hfits hnot
    exact not_readsOut hdoc hvisits hstuck hout
  · rintro ⟨hclosed, hsaw, hleaves⟩
    obtain ⟨r, slack, hvisits, hr, hnone, hslack⟩ := drains hdoc hphase hbatch hrd hwr hfits
    obtain ⟨t, ht, hmain, hint, heof⟩ := hr.left hdoc hnone (hslack.mpr hleaves) hclosed hsaw
    obtain ⟨m, hm⟩ := hvisits.loop_ret (r := .inl t)
      (by rw [ht, Exec.map_ret, stays, if_pos hmain])
    refine ⟨m, t, hm, ?_, fun hne => absurd (heof.trans hr.inpEof) hne⟩
    have hbytes := hr.bytes
    rw [hnone, List.append_nil] at hbytes
    rw [hint, hbytes]

/-- Eight bytes, behind seven that are unread: the buffer becomes sixteen bytes long. -/
theorem reads_out_iff_sample : ReadsOut 1000
    { sc := ({ handshaking := false, incoming := [8, 9, 10, 11, 12, 13, 14, 15] } : NullConnection),
      sentOutEof := false, inpEof := none, ext := .new,
      int := { inp := [1, 2, 3, 4, 5, 6, 7, 0], wr := 7 }, outcomes := {},
      phase := .makespace 8 } :=
  (reads_out_iff NullConnection.documented 1000 8 _ rfl rfl (by decide) (by decide)
    (by decide)).mpr ⟨rfl, rfl, by decide⟩

end TlsPump

namespace TlsSession

/-- For the first record the buffer of `int` becomes eight bytes long, of which four are
left. Then `ext` reads a record of four bytes. -/
def fullOps : List TlsOp :=
  handshakeOps ++ [.ext (.read 64 0 [.ok (NullConnection.frame 23 [1, 2, 3, 4])]), .process 8 {},
    .ext (.read 64 0 [.ok (NullConnection.frame 23 [5, 6, 7, 8])])]

/-- The batch fills the space that is there: it is not read out, though nothing was
closed, and the call does not return. -/
theorem read_out_full : Documented NullConnection ∧
    ∃ (s : TlsSession NullConnection) (sc : NullConnection) (p : TlsPump NullConnection),
      (start ({} : NullConnection)).runs 1000 fullOps = .ret s ∧ s.engine.sc = some sc ∧
      Visits (TlsPump.turn 1000) (s.engine.pump sc s.ext s.int {}) p ∧
      p.phase = .makespace 4 ∧ (receiving p.sc).incoming.length = 4 ∧
      p.int.unread = [1, 2, 3, 4] ∧ p.int.rd = 0 ∧ p.int.wr = 4 ∧ p.int.inp.length = 8 ∧
      (receiving p.sc).closed = false ∧ (receiving p.sc).sawEof = false ∧ ¬p.ReadsOut 1000 ∧
      ∀ fuel, s.step 1000 (.process fuel {}) = .fuel := by
  refine ⟨NullConnection.documented, ?_⟩
  obtain ⟨s, hs, htest⟩ := Exec.exists_ret_of (x := (start ({} : NullConnection)).runs 1000 fullOps)
    (p := fun s => s.engine.sc.elim false fun sc =>
      (TlsPump.turn 1000 (s.engine.pump sc s.ext s.int {})).returns fun x =>
        x.elim (fun p => decide (p.phase = .makespace 4 ∧ (receiving p.sc).incoming.length = 4 ∧
          p.int.unread = [1, 2, 3, 4] ∧ p.int.rd = 0 ∧ p.int.wr = 4 ∧ p.int.inp.length = 8 ∧
          (receiving p.sc).closed = false ∧ (receiving p.sc).sawEof = false ∧
          p.int.leavesRoom (p.outcomes.spares.headD 0) 4 = false)) fun _ => false)
    (by decide +kernel)
  cases hsc : s.engine.sc with
  | none =>
    rw [hsc] at htest
    cases htest
  | some sc =>
    rw [hsc] at htest
    obtain ⟨x, hx, htest⟩ := Exec.exists_ret_of htest
    cases x with
    | inr r => cases htest
    | inl p =>
      obtain ⟨hphase, hbatch, hunread, hrd, hwr, hlen, hopen, hsaw, hfull⟩ :=
        of_decide_eq_true htest
      have hfits : p.int.wr + 4 ≤ 1000 ∧ 4 * 2 ≤ 1000 := ⟨by omega, by decide⟩
      obtain ⟨r, hvisits, hstuck⟩ := TlsPump.stuck_of_not NullConnection.documented hphase hbatch
        (by omega) (by omega) hfits (fun hcond => by rw [hfull] at hcond; cases hcond.2.2)
      have hturns : Visits (TlsPump.turn 1000) (s.engine.pump sc s.ext s.int {}) r :=
        .next hx (hvisits.mono fun _ _ h => (TlsPump.turn_of_stays h).1)
      refine ⟨s, sc, p, hs, hsc, .next hx (.here p), hphase, hbatch, hunread, hrd, hwr,
        hlen, hopen, hsaw, TlsPump.not_readsOut NullConnection.documented hvisits hstuck, ?_⟩
      exact fun fuel => step_fuel hsc
        (hturns.loop_fuel (fun n => hstuck.loop 1000 NullConnection.documented n) fuel)

end TlsSession
end StakkerMio
