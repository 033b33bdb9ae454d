import StakkerMio.Flush
import StakkerMio.Tls.ReadOut

/-! # The outer loop

Until the handshake is done `Writer::write` accepts plaintext up to a limit, and then
nothing. The arm for `int.out` is tried before the one that reads what the handshake
waits for: so the loop ends only if all of `int.out` is accepted. -/
namespace StakkerMio
open Lib ServerConnection Observed TcpStreamBuf

/-- What is said of `Writer::write`: while the connection waits for the handshake it
holds what is written up to the limit, and later it accepts something if it has nothing
to send. -/
structure Buffering (SC : Type) [ServerConnection SC] [Observed SC] (waiting : SC → Bool)
    (limit : Nat) : Prop where
  writeTls (sc : SC) (rv : Result Nat) :
    waiting ((ServerConnection.writeTls sc).2 rv).1 = waiting sc
  holds (sc : SC) (buf : List UInt8) : waiting sc = true → ∃ sc',
    writerWrite sc buf =
      (sc', .ok (min buf.length (limit - (sending sc).held.length))) ∧
    waiting sc' = true ∧
    sending sc' = { sending sc with
      held := (sending sc).held ++ buf.take (limit - (sending sc).held.length) }
  passes (sc : SC) (buf : List UInt8) : waiting sc = false →
    waiting (writerWrite sc buf).1 = false ∧
      (wantsWrite sc = false → buf ≠ [] → (writerWrite sc buf).2 ≠ .ok 0)

theorem NullConnection.buffering :
    Buffering NullConnection NullConnection.handshaking 65536 where
  writeTls c rv := by cases rv <;> rfl
  holds c buf hwaits := by
    have haccept : c.accept buf = buf.take (65536 - c.held.length) := if_pos hwaits
    have hput : c.putPlain (c.accept buf) = { c with held := c.held ++ c.accept buf } :=
      if_pos hwaits
    refine ⟨c.putPlain (c.accept buf), ?_, ?_, ?_⟩
    · change (c.putPlain (c.accept buf), Except.ok (c.accept buf).length) = _
      rw [haccept, List.length_take, Nat.min_comm]
      rfl
    · rw [hput]
      exact hwaits
    · rw [hput, haccept]
      rfl
  passes c buf hopen := by
    have haccept : c.accept buf = buf := if_neg (by simp [hopen])
    refine ⟨?_, fun _ hbuf hnone => ?_⟩
    · change (c.putPlain (c.accept buf)).handshaking = false
      rw [NullConnection.putPlain_frame]
      exact hopen
    · have hlength : (c.accept buf).length = 0 := Except.ok.inj hnone
      rw [haccept] at hlength
      exact hbuf (List.length_eq_zero_iff.mp hlength)

namespace TlsPump
variable {SC : Type} [ServerConnection SC] {p q : TlsPump SC} {usizeMax : Nat}

/-- What is promised at the start of a turn: that the stream accepts no more than it is
passed, and that the inner loop ends. -/
def Promised (usizeMax : Nat) (p : TlsPump SC) : Prop :=
  match p.phase with
  | .main => p.arm = .writeTls → ∀ o ∈ p.outcomes.flushes.head?,
      accepts 0 (p.ext.out ++ (ServerConnection.writeTls p.sc).1).length o.write = true
  | .makespace _ => ∃ fuel x, p.readOutLoop usizeMax fuel = .ret x
  | .readOut => True

omit [ServerConnection SC] in
theorem flushExt_ne_panic (haccepts : ∀ o ∈ p.outcomes.flushes.head?,
    accepts 0 p.ext.out.length o.write = true) : p.flushExt ≠ .panic := by
  unfold flushExt
  split
  · intro h
    cases h
  · rename_i o flushes hflushes
    rw [hflushes] at haccepts
    refine Exec.bind_ne_panic (flush_ne_panic (haccepts o rfl)) fun r _ => ?_
    obtain ⟨ext, rv, calls⟩ := r
    cases rv <;> intro h <;> cases h

theorem writeTlsArm_ne_panic (haccepts : ∀ o ∈ p.outcomes.flushes.head?,
    accepts 0 (p.ext.out ++ (ServerConnection.writeTls p.sc).1).length o.write = true) :
    p.writeTlsArm ≠ .panic := by
  unfold writeTlsArm
  split
  · intro h
    cases h
  · rename_i r len hwrite
    have hr : r = p.writeTls.1 := (congrArg Prod.fst hwrite).symm
    have hout : r.passOutEof.ext.out = p.ext.out ++ (ServerConnection.writeTls p.sc).1 ∧
        r.passOutEof.outcomes = p.outcomes := by
      rcases passOutEof_cases r with h | h <;> rw [h, hr] <;> exact ⟨rfl, rfl⟩
    refine flushExt_ne_panic ?_
    rw [hout.1, hout.2]
    exact haccepts

/-- How a turn of the outer loop goes: it waits for the stream, the call returns, or the
loop goes on below, at once or with a batch to read out. -/
inductive Outer [Observed SC] (G : TlsPump SC → Prop) (p : TlsPump SC) : Exec (Turn SC) → Prop
  | wait : Outer G p .wait
  | stop (r : TlsPump SC × Answer) : Outer G p (.ret (.inr r))
  | goOn (q : TlsPump SC) : q.phase = .main → G q → Less q p → Outer G p (.ret (.inl q))
  | batch (q : TlsPump SC) (n : Nat) : q.phase = .makespace n → G q → q.int.out = [] →
      q.measure.1 < p.measure.1 → Outer G p (.ret (.inl q))

variable [Observed SC] {waiting : SC → Bool} {limit : Nat}

/-- All of `int.out` will be accepted. -/
structure Going (waiting : SC → Bool) (limit : Nat) (p : TlsPump SC) : Prop where
  unread : p.ext.Unread p.ext.unread
  accepted : p.int.out = [] ∨ waiting p.sc = false ∨
    (sending p.sc).held.length + p.int.out.length ≤ limit

omit [Observed SC] in
/-- What a flush of `ext` leaves of the pump. -/
theorem wrote_flushed {chunk : List UInt8} {sc : SC} {x : Turn SC}
    (hx : (p.wrote chunk sc).passOutEof.flushExt = .ret x) :
    x.state.sc = sc ∧ x.state.int = p.int ∧ x.state.phase = p.phase ∧
      SameInput p.ext x.state.ext := by
  obtain ⟨ext, calls, flushes, hsteps, hstate⟩ := flushExt_steps hx
  have hsame : SameInput (p.wrote chunk sc).passOutEof.ext ext := .flushSteps hsteps
  rw [hstate]
  rcases passOutEof_cases (p.wrote chunk sc) with h | h
  · rw [h] at hsame ⊢
    exact ⟨rfl, rfl, rfl, hsame.inp, hsame.inpEof, hsame.rd, hsame.wr⟩
  · rw [h] at hsame ⊢
    exact ⟨rfl, rfl, rfl, hsame.inp, hsame.inpEof, hsame.rd, hsame.wr⟩

theorem Going.writeTls (hdoc : Documented SC) (hbuf : Buffering SC waiting limit)
    (h : Going waiting limit p) (hp : p.phase = .main) (hw : wantsWrite p.sc = true)
    (hpanic : p.writeTlsArm ≠ .panic) : Outer (Going waiting limit) p p.writeTlsArm := by
  obtain ⟨chunk, sc', rest, heq, -, -, hsend, -, rv, hsc⟩ := writeTlsArm_eq hdoc hw
  rw [heq] at hpanic
  rcases flushExt_cases hpanic with hwait | ⟨q, hq | ⟨e, hq⟩⟩
  · rw [heq, hwait]
    exact .wait
  · have hq' := heq.trans hq
    obtain ⟨hqsc, hqint, hqphase, hqext⟩ := wrote_flushed hq
    have hwaiting : waiting q.sc = waiting p.sc := by
      rw [show q.sc = sc' from hqsc, hsc]
      exact hbuf.writeTls p.sc rv
    have hheld : (sending q.sc).held = (sending p.sc).held := by
      rw [show q.sc = sc' from hqsc, hsend]
    rw [hq']
    refine .goOn q (hqphase.trans hp) ⟨hqext.keeps h.unread, ?_⟩ (less_writeTls hdoc hw hq')
    rw [show q.int = p.int from hqint, hwaiting, hheld]
    exact h.accepted
  · rw [heq, hq]
    exact .stop _

theorem Going.writer (hdoc : Documented SC) (hbuf : Buffering SC waiting limit)
    (h : Going waiting limit p) (hp : p.phase = .main) (hw : wantsWrite p.sc = false)
    (hout : p.int.out ≠ []) : Outer (Going waiting limit) p p.writerArm := by
  cases hwaiting : waiting p.sc with
  | true =>
    obtain ⟨sc', hwrite, -, -⟩ := hbuf.holds p.sc p.int.out hwaiting
    have hfits : (sending p.sc).held.length + p.int.out.length ≤ limit := by
      rcases h.accepted with hnone | hopen | hfits
      · exact absurd hnone hout
      · rw [hwaiting] at hopen
        cases hopen
      · exact hfits
    rw [Nat.min_eq_left (by omega)] at hwrite
    have hsome : (writerWrite p.sc p.int.out).2 ≠ .ok 0 := by
      rw [hwrite]
      intro hzero
      exact hout (List.length_eq_zero_iff.mp (Except.ok.inj hzero))
    have hless := fun q => less_writer (q := q) hsome
    unfold writerArm at hless ⊢
    rw [hwrite] at hless ⊢
    dsimp only at hless ⊢
    rw [if_pos (Nat.le_refl _)] at hless ⊢
    exact .goOn _ hp ⟨h.unread, .inl List.drop_length⟩ (hless _ rfl)
  | false =>
    obtain ⟨hopen, hsome⟩ := hbuf.passes p.sc p.int.out hwaiting
    have hless := fun q => less_writer (q := q) (hsome hw hout)
    unfold writerArm at hless ⊢
    split
    · exact .stop _
    · rename_i sc' len hwrite
      obtain ⟨hle, -⟩ := hdoc.writerWrite_ok p.sc p.int.out len (by rw [hwrite])
      rw [hwrite] at hopen hless
      dsimp only at hless
      rw [if_pos hle] at hless ⊢
      exact .goOn _ hp ⟨h.unread, .inr (.inl hopen)⟩ (hless _ rfl)

theorem Going.readTls (hdoc : Documented SC)
    (h : Going waiting limit p) (hout : p.int.out = [])
    (hwants : wantsRead p.sc = true) (hne : p.ext.rd ≠ p.ext.wr) :
    Outer (Going waiting limit) p p.readTlsArm := by
  obtain ⟨x, hx⟩ := readTlsArm_ret h.unread
  rw [hx]
  cases x with
  | inr r => exact .stop r
  | inl q =>
    obtain ⟨hunread, hless⟩ := less_readTls hdoc h.unread hwants hne hx
    rcases readTlsArm_cases hdoc hne hx with ⟨e, hq⟩ |
      ⟨r, rv, bytes, -, hfeeds, ⟨e, hq⟩ | ⟨e, -, hq⟩ | ⟨n, -, hq⟩⟩
    · cases hq
    · cases hq
    · cases hq
    · cases hq
      have hnone : r.int.out = [] := by rw [hfeeds.int, hout]
      by_cases hn : 0 < n
      · exact .batch _ n (if_pos hn) ⟨hunread, .inl hnone⟩ hnone hless
      · exact .goOn _ (if_neg hn) ⟨hunread, .inl hnone⟩ (less_iff.mpr (.inl hless))

/-- **One turn** of the outer loop. -/
theorem Going.turn (hdoc : Documented SC) (hbuf : Buffering SC waiting limit)
    (h : Going waiting limit p) (hp : p.phase = .main) (hpromised : p.Promised usizeMax) :
    Outer (Going waiting limit) p (p.turn usizeMax) := by
  unfold Promised at hpromised
  rw [hp] at hpromised
  unfold TlsPump.turn
  rw [hp]
  dsimp only
  have hspec := p.arm_spec
  cases harm : p.arm with
  | writeTls =>
    rw [harm] at hspec
    exact h.writeTls hdoc hbuf hp hspec (writeTlsArm_ne_panic (hpromised harm))
  | writer =>
    rw [harm] at hspec
    exact h.writer hdoc hbuf hp hspec.1 hspec.2
  | closeNotify =>
    rw [harm] at hspec
    have hless : Less { p with sc := sendCloseNotify p.sc, sentOutEof := true } p :=
      less_closeNotify hspec.2.2.2 rfl
    exact .goOn _ hp ⟨h.unread, .inl hspec.2.1⟩ hless
  | readTls =>
    rw [harm] at hspec
    exact h.readTls hdoc hspec.2.1 hspec.2.2.1 hspec.2.2.2
  | leave => exact .stop _

omit [Observed SC] in
/-- What a turn of the inner loop leaves alone. -/
theorem inner_state {x : Turn SC} (hp : p.phase ≠ .main) (hx : p.turn usizeMax = .ret x) :
    x.state.ext = p.ext ∧ x.state.int.out = p.int.out := by
  unfold TlsPump.turn at hx
  cases hphase : p.phase with
  | main => exact absurd hphase hp
  | makespace n =>
    rw [hphase] at hx
    obtain ⟨-, -, hext, hout, -⟩ := makespace_state hx
    exact ⟨hext, hout⟩
  | readOut =>
    rw [hphase] at hx
    obtain ⟨-, -, hext, hout, -⟩ := readOut_state hx
    exact ⟨hext, hout⟩

omit [Observed SC] in
/-- Where the inner loop ends. -/
theorem readOutLoop_last {fuel : Nat} {x : Turn SC} (hp : p.phase ≠ .main)
    (hx : p.readOutLoop usizeMax fuel = .ret x) : ∃ t, Visits (TlsPump.turn usizeMax) p t ∧
      t.turn usizeMax = .ret x ∧ x.state.ext = p.ext ∧ x.state.int.out = p.int.out ∧
      ∀ q, x = .inl q → q.phase = .main := by
  obtain ⟨t, ht, hlast⟩ := loop_last hx
  have hkeeps : t.phase ≠ .main ∧ t.ext = p.ext ∧ t.int.out = p.int.out := by
    refine Visits.invariant (P := fun _ => True)
      (I := fun t => t.phase ≠ .main ∧ t.ext = p.ext ∧ t.int.out = p.int.out)
      (fun s t hs _ ht => ?_) (fun _ _ => trivial) ⟨hp, rfl, rfl⟩ ht
    obtain ⟨hphase, hext, hout⟩ := hs
    obtain ⟨hturn, hphase'⟩ := turn_of_stays ht
    obtain ⟨hext', hout'⟩ := inner_state hphase hturn
    exact ⟨hphase', hext'.trans hext, hout'.trans hout⟩
  obtain ⟨y, hy, hstays⟩ := Exec.map_eq_ret.mp hlast
  obtain ⟨rfl, hmain⟩ := stays_inr hstays
  obtain ⟨hphase, hext, hout⟩ := hkeeps
  obtain ⟨hext', hout'⟩ := inner_state hphase hy
  exact ⟨t, ht.mono fun _ _ h => (turn_of_stays h).1, hy, hext'.trans hext, hout'.trans hout,
    hmain⟩

/-- **The loop ends.** The induction is on the measure of the outer turns; a batch is read
out at one go. -/
theorem Going.over (hdoc : Documented SC) (hbuf : Buffering SC waiting limit)
    (h : Going waiting limit p) (hp : p.phase = .main)
    (hturns : ∀ q, Visits (TlsPump.turn usizeMax) p q → q.Promised usizeMax) :
    ∃ n, ∀ k, n ≤ k → (loop (TlsPump.turn usizeMax) k p).Over := by
  have hwf : @WellFounded (TlsPump SC) Less := less_wf
  induction p using hwf.induction with
  | _ p ih =>
    have houter := h.turn hdoc hbuf hp (hturns p (.here p))
    generalize hturn : p.turn usizeMax = y at houter
    cases houter with
    | wait =>
      refine ⟨1, fun k hk => .inl ?_⟩
      obtain ⟨k, rfl⟩ := Nat.exists_eq_add_of_le' hk
      rw [loop, hturn]
      rfl
    | stop r =>
      obtain ⟨n, hn⟩ := (Visits.here p).loop_ret hturn
      exact ⟨n, fun k hk => .inr ⟨r, hn k hk⟩⟩
    | goOn q hmain hq hless =>
      have hnext : Visits (TlsPump.turn usizeMax) p q := .next hturn (.here q)
      exact hnext.loop_over (ih q hless hq hmain fun r hr => hturns r (hnext.trans hr))
    | batch q n hphase hq hnone hless =>
      have hnext : Visits (TlsPump.turn usizeMax) p q := .next hturn (.here q)
      have hends := hturns q hnext
      unfold Promised at hends
      rw [hphase] at hends
      obtain ⟨fuel, x, hx⟩ := hends
      obtain ⟨t, ht, hlast, hext, hout, hmain⟩ :=
        readOutLoop_last (by rw [hphase]; simp) hx
      cases x with
      | inr r =>
        obtain ⟨n, hn⟩ := (hnext.trans ht).loop_ret hlast
        exact ⟨n, fun k hk => .inr ⟨r, hn k hk⟩⟩
      | inl r =>
        have hext : r.ext = q.ext := hext
        have hout : r.int.out = q.int.out := hout
        have hback : Visits (TlsPump.turn usizeMax) p r := (hnext.trans ht).concat hlast
        have hlower : Less r p := by
          refine less_iff.mpr (.inl ?_)
          change r.ext.wr - r.ext.rd < _
          rw [hext]
          exact hless
        have hr : Going waiting limit r :=
          ⟨by rw [hext]; exact hq.unread, .inl (hout.trans hnone)⟩
        exact hback.loop_over (ih r hlower hr (hmain r rfl)
          fun u hu => hturns u (hback.trans hu))

/-! ## Output that is not accepted -/

/-- A flush into a stream that accepts nothing for now. -/
def blocked : FlushOutcomes :=
  { setNodelay := [.ok ()], write := [.error ⟨.wouldBlock, none⟩] }

theorem applyNodelay_ok (b : TcpStreamBuf) : ∃ f, b.applyNodelay [.ok ()] = .ret f ∧
    f.rv = none ∧ f.buf.out = b.out := by
  unfold applyNodelay
  split
  · exact ⟨_, rfl, rfl, rfl⟩
  · exact ⟨_, rfl, rfl, rfl⟩

theorem writeLoop_blocked {b : TcpStreamBuf} (hout : b.out ≠ []) :
    ∃ f, b.writeLoop [.error ⟨.wouldBlock, none⟩] = .ret f ∧ f.rv = some (.ok ()) := by
  unfold writeLoop
  rw [if_neg (by simpa using hout)]
  exact ⟨_, rfl, rfl⟩

theorem flush_blocked {b : TcpStreamBuf} (hout : b.out ≠ []) :
    ∃ b' calls, b.flush blocked = .ret (b', .ok (), calls) := by
  unfold TcpStreamBuf.flush
  split
  · exact ⟨_, _, rfl⟩
  · split
    · exact ⟨_, _, rfl⟩
    · obtain ⟨f, hf, hrv, hbuf⟩ := applyNodelay_ok b
      obtain ⟨g, hg, hgrv⟩ := writeLoop_blocked (b := f.buf) (by rwa [hbuf])
      simp only [blocked, hf, hg, Exec.ret_bind, Flushing.andThen, hrv, hgrv]
      exact ⟨_, _, rfl⟩

omit [ServerConnection SC] [Observed SC] in
/-- The flush succeeds. -/
theorem flushExt_blocked {flushes : List FlushOutcomes}
    (hflushes : p.outcomes.flushes = blocked :: flushes) (hout : p.ext.out ≠ []) :
    ∃ q, p.flushExt = .ret (.inl q) ∧ q.outcomes.flushes = flushes := by
  obtain ⟨ext, calls, hflush⟩ := flush_blocked hout
  unfold flushExt
  rw [hflushes]
  dsimp only
  rw [hflush]
  exact ⟨_, rfl, rfl⟩

/-- More is left in `int.out` than the limit leaves, and each flush succeeds. -/
structure Full (waiting : SC → Bool) (limit : Nat) (p : TlsPump SC) : Prop where
  phase : p.phase = .main
  waits : waiting p.sc = true
  out : p.int.out ≠ []
  exceeds : limit < (sending p.sc).held.length + p.int.out.length
  flushes : ∃ m, p.outcomes.flushes = List.replicate m blocked ∧
    (sending p.sc).pending.length ≤ m

theorem Full.writeTls (hdoc : Documented SC) (hbuf : Buffering SC waiting limit)
    (h : Full waiting limit p) (hw : wantsWrite p.sc = true) :
    ∃ q, p.writeTlsArm = .ret (.inl q) ∧ Full waiting limit q := by
  obtain ⟨m, hflushes, hm⟩ := h.flushes
  obtain ⟨chunk, sc', rest, heq, hchunk, hpend, hsend, -, rv, hsc⟩ := writeTlsArm_eq hdoc hw
  have hpos := List.length_pos_of_ne_nil hchunk
  rw [hpend, List.length_append] at hm
  obtain ⟨m, rfl⟩ := Nat.exists_eq_add_of_le' (show 1 ≤ m by omega)
  have hpass : (p.wrote chunk sc').passOutEof.ext.out = p.ext.out ++ chunk ∧
      (p.wrote chunk sc').passOutEof.outcomes = p.outcomes := by
    rcases passOutEof_cases (p.wrote chunk sc') with h | h <;> rw [h] <;> exact ⟨rfl, rfl⟩
  have hnext : (p.wrote chunk sc').passOutEof.outcomes.flushes =
      blocked :: List.replicate m blocked := by
    rw [hpass.2, hflushes, List.replicate_succ]
  have hsome : (p.wrote chunk sc').passOutEof.ext.out ≠ [] := by
    rw [hpass.1]
    intro hnone
    exact hchunk (List.append_eq_nil_iff.mp hnone).2
  obtain ⟨q, hq, hrest⟩ := flushExt_blocked hnext hsome
  obtain ⟨hqsc, hqint, hqphase, -⟩ := wrote_flushed hq
  have hqsc : q.sc = sc' := hqsc
  have hqint : q.int = p.int := hqint
  refine ⟨q, heq.trans hq, hqphase.trans h.phase, ?_, ?_, ?_, m, hrest, ?_⟩
  · rw [hqsc, hsc, hbuf.writeTls]
    exact h.waits
  · rw [hqint]
    exact h.out
  · rw [hqint, hqsc, hsend]
    exact h.exceeds
  · rw [hqsc, hsend]
    dsimp only
    omega

theorem Full.writer (hbuf : Buffering SC waiting limit) (h : Full waiting limit p) :
    ∃ q, p.writerArm = .ret (.inl q) ∧ Full waiting limit q := by
  obtain ⟨sc', hwrite, hwaits, hsend⟩ := hbuf.holds p.sc p.int.out h.waits
  have hover := h.exceeds
  have hpos := List.length_pos_of_ne_nil h.out
  generalize hk : limit - (sending p.sc).held.length = k at hwrite hsend
  have hlt : k < p.int.out.length := by omega
  rw [Nat.min_eq_right (Nat.le_of_lt hlt)] at hwrite
  unfold writerArm
  rw [hwrite]
  dsimp only
  rw [if_pos (Nat.le_of_lt hlt)]
  refine ⟨_, rfl, h.phase, hwaits, ?_, ?_, ?_⟩
  · change p.int.out.drop k ≠ []
    intro hnone
    have hlength := congrArg List.length hnone
    rw [List.length_drop, List.length_nil] at hlength
    omega
  · change limit < (sending sc').held.length + (p.int.out.drop k).length
    rw [hsend]
    simp only [List.length_append, List.length_take, List.length_drop]
    omega
  · obtain ⟨m, hflushes, hm⟩ := h.flushes
    refine ⟨m, hflushes, ?_⟩
    change (sending sc').pending.length ≤ m
    rw [hsend]
    exact hm

theorem Full.turn (hdoc : Documented SC) (hbuf : Buffering SC waiting limit)
    (h : Full waiting limit p) : ∃ q, p.turn usizeMax = .ret (.inl q) ∧ Full waiting limit q := by
  unfold TlsPump.turn
  rw [h.phase]
  dsimp only
  have hspec := p.arm_spec
  cases harm : p.arm with
  | writeTls =>
    rw [harm] at hspec
    exact h.writeTls hdoc hbuf hspec
  | writer => exact h.writer hbuf
  | closeNotify | readTls =>
    rw [harm] at hspec
    exact absurd hspec.2.1 h.out
  | leave =>
    rw [harm] at hspec
    exact absurd hspec.2 h.out

theorem Full.promised (h : Full waiting limit p) : p.Promised usizeMax := by
  obtain ⟨m, hflushes, -⟩ := h.flushes
  unfold Promised
  rw [h.phase, hflushes]
  intro _ o ho
  have hblocked : o = blocked := by
    cases m with
    | zero => cases ho
    | succ m =>
      cases ho
      rfl
  rw [hblocked]
  cases (p.ext.out ++ (ServerConnection.writeTls p.sc).1).length with
  | zero => rfl
  | succ n => rfl

end TlsPump

namespace TlsSession
variable {SC : Type} [ServerConnection SC] [Observed SC] {waiting : SC → Bool} {limit : Nat}

/-- Whatever the stream does, so long as the inner loop ends, the call is over after a
number of turns. -/
def Ends (usizeMax : Nat) (s : TlsSession SC) : Prop :=
  ∀ outcomes, s.Turns usizeMax (TlsPump.Promised usizeMax) (.process 0 outcomes) →
    ∃ n, ∀ fuel, n ≤ fuel → (s.step usizeMax (.process fuel outcomes)).Over

variable {usizeMax : Nat} {s : TlsSession SC} {sc : SC} {outcomes : TlsOutcomes}

/-- Where the connection is full, the call never returns. -/
theorem not_ends (hdoc : Documented SC) (hbuf : Buffering SC waiting limit)
    (hsc : s.engine.sc = some sc)
    (hfull : TlsPump.Full waiting limit (s.engine.pump sc s.ext s.int outcomes)) :
    (∀ fuel, s.step usizeMax (.process fuel outcomes) = .fuel) ∧ ¬s.Ends usizeMax := by
  have hgoesOn : ∀ p : TlsPump SC, TlsPump.Full waiting limit p →
      ∃ q, p.turn usizeMax = .ret (.inl q) ∧ TlsPump.Full waiting limit q :=
    fun p hp => hp.turn hdoc hbuf
  have hnever : ∀ fuel, s.step usizeMax (.process fuel outcomes) = .fuel :=
    fun fuel => step_fuel hsc (loop_fuel hgoesOn hfull fuel)
  have hturns : s.Turns usizeMax (TlsPump.Promised usizeMax) (.process 0 outcomes) := by
    intro sc' p hsc' hp
    rw [hsc] at hsc'
    cases hsc'
    have hkeeps : ∀ p q : TlsPump SC, TlsPump.Full waiting limit p → True →
        p.turn usizeMax = .ret (.inl q) → TlsPump.Full waiting limit q := by
      intro p q hp _ hq
      obtain ⟨r, hr, hi⟩ := hgoesOn p hp
      rw [hq] at hr
      cases hr
      exact hi
    exact (hp.invariant hkeeps (fun _ _ => trivial) hfull).promised
  refine ⟨hnever, fun hends => ?_⟩
  obtain ⟨n, hn⟩ := hends outcomes hturns
  have hover := hn n (Nat.le_refl n)
  rw [hnever] at hover
  rcases hover with hover | ⟨t, hover⟩
  · cases hover
  · cases hover

/-- **The outer loop.** For any buffers, any stage of the handshake and any flags, a call
always ends exactly if `int.out` is empty, the connection waits for nothing more of the
handshake, or the limit leaves space for all of `int.out`. -/
theorem process_ends_iff (hdoc : Documented SC) (hbuf : Buffering SC waiting limit)
    (usizeMax : Nat) (s : TlsSession SC) (sc : SC) (hsc : s.engine.sc = some sc)
    (hrd : s.ext.rd ≤ s.ext.wr) (hwr : s.ext.wr ≤ s.ext.inp.length) :
    s.Ends usizeMax ↔ s.int.out = [] ∨ waiting sc = false ∨
      (sending sc).held.length + s.int.out.length ≤ limit := by
  constructor
  · intro hends
    by_contra hnot
    simp only [not_or, Bool.not_eq_false, Nat.not_le] at hnot
    obtain ⟨hsome, hwaits, hover⟩ := hnot
    -- Each write of what is pending is followed by a flush.
    have hfull : TlsPump.Full waiting limit (s.engine.pump sc s.ext s.int
        { flushes := List.replicate (sending sc).pending.length TlsPump.blocked }) :=
      ⟨rfl, hwaits, hsome, hover, _, rfl, Nat.le_refl _⟩
    exact (not_ends hdoc hbuf hsc hfull).2 hends
  · intro hcond outcomes hturns
    have hgoing : TlsPump.Going waiting limit (s.engine.pump sc s.ext s.int outcomes) :=
      ⟨⟨hrd, hwr, rfl⟩, hcond⟩
    obtain ⟨n, hn⟩ := hgoing.over hdoc hbuf rfl fun q hq => hturns sc q hsc hq
    exact ⟨n, fun fuel hfuel => step_over hsc (hn fuel hfuel)⟩

/-- Three bytes, written before the handshake. -/
theorem process_ends_iff_sample :
    Ends 1000 { engine := .new (some ({} : NullConnection)), int := { out := [1, 2, 3] } } :=
  (process_ends_iff NullConnection.documented NullConnection.buffering 1000 _ {} rfl
    (Nat.le_refl 0) (Nat.le_refl 0)).mpr (.inr (.inr (by decide)))

/-- Nothing is held by a connection that has not begun. -/
theorem full_of_lt {bytes : List UInt8} {limit : Nat} (hlimit : limit < bytes.length) :
    TlsPump.Full NullConnection.handshaking limit
      ((start ({} : NullConnection)).engine.pump {} .new { out := bytes } {}) := by
  refine ⟨rfl, rfl, ?_, ?_, 0, rfl, Nat.le_refl 0⟩
  · intro hnone
    rw [show bytes = [] from hnone] at hlimit
    exact absurd hlimit (Nat.not_lt_zero _)
  · have hheld : (sending ({} : NullConnection)).held.length + bytes.length = bytes.length :=
      Nat.zero_add _
    exact Nat.lt_of_lt_of_eq hlimit hheld.symm

/-- One byte more than the limit, written before the handshake: the call never returns. -/
theorem process_never_ends : Documented NullConnection ∧
    Buffering NullConnection NullConnection.handshaking 65536 ∧
    ∃ s, (start ({} : NullConnection)).runs 18446744073709551615
        [.int (.append (List.replicate 65537 0))] = .ret s ∧
      (∀ fuel, s.step 18446744073709551615 (.process fuel {}) = .fuel) ∧
      ¬s.Ends 18446744073709551615 := by
  have hlimit : 65536 < (List.replicate 65537 (0 : UInt8)).length := by
    rw [List.length_replicate]
    omega
  generalize List.replicate 65537 (0 : UInt8) = bytes at hlimit ⊢
  exact ⟨NullConnection.documented, NullConnection.buffering, _, rfl,
    not_ends NullConnection.documented NullConnection.buffering rfl (full_of_lt hlimit)⟩

end TlsSession
end StakkerMio
