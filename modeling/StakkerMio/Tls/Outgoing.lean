import StakkerMio.Tls.Output
import StakkerMio.Tls.PassThrough

/-! # What goes out under TLS

No byte is lost, doubled or moved on its way out: what the application wrote is in the
records of the connection, held by it or still in `int.out`, and the records are what the
stream accepted, what is in `ext.out` and what the connection has still to write. -/
namespace StakkerMio
open Lib ServerConnection Observed TlsSessionEvent TcpStreamBuf

/-! ## The operations on `ext` -/

namespace TcpSession
variable {usizeMax : Nat} {b b' : TcpStreamBuf} {op : TcpOp} {t : TcpSession}

theorem flushStep_accepted {c : StreamCall} (h : FlushStep b c b') :
    TcpEvent.acceptedBy (.call c) ++ b'.out = b.out := by
  cases h with
  | write len hout hlen => exact List.take_append_drop len b.out
  | _ => rfl

theorem flushSteps_accepted {calls : List StreamCall} (h : Steps FlushStep b calls b') :
    TcpEvent.acceptedIn (calls.map .call) ++ b'.out = b.out := by
  induction h with
  | nil => rfl
  | cons hc _ ih =>
    rw [← flushStep_accepted hc, ← ih]
    simp [TcpEvent.acceptedIn]

/-- The network side takes bytes from `out` only as the stream accepts them. -/
theorem network_accepted (hop : op.network = true) (ht : step usizeMax ⟨b, []⟩ op = .ret t) :
    TcpEvent.acceptedIn t.trace ++ t.buf.out = b.out := by
  cases op with
  | append _ | ioWrite _ | setOutEof _ | ioRead _ | consume _ => cases hop
  | init _ | deinit | pauseWrites _ =>
    cases ht
    rfl
  | setNodelay nodelay =>
    cases ht
    dsimp only
    unfold TcpStreamBuf.setNodelay
    split <;> rfl
  | flush outcomes =>
    obtain ⟨⟨b', rv, calls⟩, hf, ht⟩ := Exec.bind_eq_ret.mp ht
    cases ht
    exact flushSteps_accepted (flush_steps hf)
  | inpMakespace max spare =>
    obtain ⟨b', hb, ht⟩ := Exec.bind_eq_ret.mp ht
    cases ht
    rw [inpMakespace_frame hb]
    rfl
  | read max spare outcomes =>
    obtain ⟨⟨b', status, calls⟩, hr, ht⟩ := Exec.bind_eq_ret.mp ht
    cases ht
    obtain ⟨hframe, hcalls⟩ := read_frame hr
    have hnone : TcpEvent.acceptedIn (calls.map .call) = [] := by
      rw [TcpEvent.acceptedIn, List.flatMap_map, List.flatMap_eq_nil_iff]
      intro c hc
      obtain ⟨room, r, rfl⟩ := hcalls c hc
      rfl
    rw [hframe, List.nil_append, hnone]
    rfl

end TcpSession

/-! ## The invariant -/

/-- Where the plaintext is, and where the bytes of the records are. -/
structure OutData {SC : Type} [Observed SC] (tr : List (TlsSessionEvent SC)) (sc : SC)
    (ext int : TcpStreamBuf) : Prop where
  plain : plainOf (sending sc).records ++ (sending sc).held ++ int.out = writtenIn tr
  wire : acceptedIn tr ++ ext.out ++ (sending sc).pending = wireOf (sending sc).records

namespace OutData
variable {SC : Type} [Observed SC] {tr es : List (TlsSessionEvent SC)} {sc sc' : SC}
  {ext ext' int int' : TcpStreamBuf}

/-- What has nothing to do with the output. -/
theorem idle (h : OutData tr sc ext int) (hwritten : writtenIn es = []) (hacc : acceptedIn es = [])
    (hsc : sending sc' = sending sc) (hext : ext'.out = ext.out) (hint : int'.out = int.out) :
    OutData (tr ++ es) sc' ext' int' where
  plain := by
    rw [hsc, hint, writtenIn_append, hwritten, List.append_nil]
    exact h.plain
  wire := by
    rw [hsc, hext, acceptedIn_append, hacc, List.append_nil]
    exact h.wire

/-- The connection makes records of what it takes from `int.out`. -/
theorem adds (h : OutData tr sc ext int) {plain : List UInt8}
    (hadds : (sending sc).Adds (sending sc') plain) (hint : int.out = plain ++ int'.out)
    (hwritten : writtenIn es = []) (hacc : acceptedIn es = []) :
    OutData (tr ++ es) sc' ext int' where
  plain := by
    obtain ⟨rs, -, hr, -, hh⟩ := hadds
    rw [writtenIn_append, hwritten, List.append_nil, ← h.plain, hr, hint, plainOf_append,
      List.append_assoc (plainOf _) (plainOf rs), ← hh]
    simp only [List.append_assoc]
  wire := by
    obtain ⟨rs, -, hr, hp, -⟩ := hadds
    rw [acceptedIn_append, hacc, List.append_nil, hr, hp, wireOf_append, ← h.wire]
    simp only [List.append_assoc]

/-- It adds the record of a close_notify. -/
theorem closeNotify (h : OutData tr sc ext int) {r : Record} (hr : r.content = .closeNotify)
    (hsc : sending sc' =
      { sending sc with
        records := (sending sc).records ++ [r]
        pending := (sending sc).pending ++ r.wire }) : OutData tr sc' ext int where
  plain := by
    have hplain : r.plain = [] := by rw [Record.plain, hr]
    have hnone : plainOf [r] = [] := by simp [plainOf, hplain]
    rw [hsc, plainOf_append, hnone, List.append_nil]
    exact h.plain
  wire := by
    have hwire : wireOf [r] = r.wire := by simp [wireOf]
    rw [hsc, wireOf_append, hwire, ← h.wire]
    simp only [List.append_assoc]

/-- It writes to `ext.out`. -/
theorem write (h : OutData tr sc ext int) {chunk rest : List UInt8}
    (hp : (sending sc).pending = chunk ++ rest)
    (hsc : sending sc' = { sending sc with pending := rest }) (hext : ext'.out = ext.out ++ chunk)
    (hwritten : writtenIn es = []) (hacc : acceptedIn es = []) :
    OutData (tr ++ es) sc' ext' int where
  plain := by
    rw [hsc, writtenIn_append, hwritten, List.append_nil]
    exact h.plain
  wire := by
    rw [hsc, hext, acceptedIn_append, hacc, List.append_nil, ← h.wire, hp]
    simp only [List.append_assoc]

/-- The stream accepts some of `ext.out`. -/
theorem accept (h : OutData tr sc ext int) {accepted : List UInt8} (hwritten : writtenIn es = [])
    (hacc : acceptedIn es = accepted) (hext : accepted ++ ext'.out = ext.out) :
    OutData (tr ++ es) sc ext' int where
  plain := by
    rw [writtenIn_append, hwritten, List.append_nil]
    exact h.plain
  wire := by
    rw [acceptedIn_append, hacc, List.append_assoc (acceptedIn tr), hext]
    exact h.wire

end OutData

/-! ## A turn -/

namespace TlsPump
variable {SC : Type} [Observed SC] {past : List (TlsSessionEvent SC)} {p : TlsPump SC} {x : Turn SC}

def OutData (past : List (TlsSessionEvent SC)) (p : TlsPump SC) : Prop :=
  StakkerMio.OutData (p.trace past) p.sc p.ext p.int

theorem OutData.flushExt (h : p.OutData past) (hx : p.flushExt = .ret x) :
    x.state.OutData past := by
  obtain ⟨ext, calls, flushes, hsteps, hstate⟩ := flushExt_steps hx
  have hacc : acceptedIn ((calls.map TlsEvent.call).map .engine : List (TlsSessionEvent SC)) =
      TcpEvent.acceptedIn (calls.map .call) := by
    simp [acceptedIn, acceptedBy, TcpEvent.acceptedIn, List.flatMap_map]
  have hwritten : writtenIn ((calls.map TlsEvent.call).map .engine : List (TlsSessionEvent SC)) =
      [] := by
    simp [writtenIn, writtenBy, List.flatMap_map]
  have hflushed := h.accept hwritten hacc (TcpSession.flushSteps_accepted hsteps)
  rw [hstate]
  simpa [OutData, trace] using hflushed

variable [ServerConnection SC]

theorem OutData.writeTlsArm (hdoc : Documented SC) (h : p.OutData past)
    (hw : wantsWrite p.sc = true) (hx : p.writeTlsArm = .ret x) : x.state.OutData past := by
  obtain ⟨chunk, sc, rest, heq, -, hp, hsend, -⟩ := writeTlsArm_eq hdoc hw
  rw [heq] at hx
  refine OutData.flushExt ?_ hx
  have hwrote : (p.wrote chunk sc).OutData past := by
    have hwrite : StakkerMio.OutData (p.trace past ++ [.engine (.appended chunk)]) sc
        (p.ext.ioWrite chunk).1 p.int := h.write hp hsend rfl rfl rfl
    simpa [OutData, trace, wrote, log] using hwrite
  rcases passOutEof_cases (p.wrote chunk sc) with heof | heof
  · rw [heof]
    exact hwrote
  · rw [heof]
    have hidle : StakkerMio.OutData ((p.wrote chunk sc).trace past ++ [.engine (.outEof sc)]) sc
        { (p.wrote chunk sc).ext with outEof := true } (p.wrote chunk sc).int :=
      hwrote.idle rfl rfl rfl rfl rfl
    simpa [OutData, trace, wrote, log] using hidle

theorem OutData.writerArm (hdoc : Documented SC) (h : p.OutData past)
    (hx : p.writerArm = .ret x) : x.state.OutData past := by
  unfold TlsPump.writerArm at hx
  split at hx
  · rename_i sc e hwrite
    cases hx
    have hsend := hdoc.writerWrite_error p.sc p.int.out e (by rw [hwrite])
    rw [hwrite] at hsend
    have hidle : StakkerMio.OutData (p.trace past ++ []) sc p.ext p.int :=
      h.idle rfl rfl hsend rfl rfl
    rwa [List.append_nil] at hidle
  · rename_i sc len hwrite
    obtain ⟨hle, hadds⟩ := hdoc.writerWrite_ok p.sc p.int.out len (by rw [hwrite])
    rw [hwrite] at hadds
    rw [if_pos hle] at hx
    cases hx
    have hnew : StakkerMio.OutData (p.trace past ++ [.engine (.taken (p.int.out.take len))]) sc
        p.ext { p.int with out := p.int.out.drop len } :=
      h.adds hadds (List.take_append_drop len p.int.out).symm rfl rfl
    simpa [OutData, trace, log, Turn.state, goOn] using hnew

theorem OutData.readTlsArm (hdoc : Documented SC) (h : p.OutData past)
    (hne : p.ext.rd ≠ p.ext.wr) (hx : p.readTlsArm = .ret x) : x.state.OutData past := by
  rcases readTlsArm_cases hdoc hne hx with ⟨e, rfl⟩ | ⟨q, rv, bytes, -, hfeeds, hx⟩
  · exact h
  · obtain ⟨room, hio, -⟩ := hfeeds.ext
    have hext : q.ext.out = p.ext.out := by rw [TcpStreamBuf.ioRead_frame hio]
    have hint : q.int.out = p.int.out := by rw [hfeeds.int]
    have hfed : StakkerMio.OutData (q.trace past) q.sc q.ext q.int := by
      have hidle : StakkerMio.OutData (p.trace past ++ [.engine (.fed bytes)]) q.sc q.ext q.int :=
        h.idle rfl rfl hfeeds.sending hext hint
      simpa [trace, hfeeds.events] using hidle
    have hadds := hdoc.processNewPackets_sending q.sc
    have hnew : StakkerMio.OutData (q.trace past) (processNewPackets q.sc).1 q.ext q.int := by
      have hadded : StakkerMio.OutData (q.trace past ++ []) (processNewPackets q.sc).1 q.ext
          q.int := hfed.adds hadds (List.nil_append _).symm rfl rfl
      rwa [List.append_nil] at hadded
    rcases hx with ⟨e, rfl⟩ | ⟨e, -, rfl⟩ | ⟨n, -, rfl⟩
    · exact hfed
    · exact hnew
    · exact hnew

theorem OutData.turn (hdoc : Documented SC) {usizeMax : Nat} (h : p.OutData past)
    (hx : p.turn usizeMax = .ret x) : x.state.OutData past := by
  unfold TlsPump.turn at hx
  split at hx
  · have hspec := p.arm_spec
    cases harm : p.arm with
    | writeTls =>
      rw [harm] at hx hspec
      exact h.writeTlsArm hdoc hspec hx
    | writer =>
      rw [harm] at hx
      exact h.writerArm hdoc hx
    | closeNotify =>
      rw [harm] at hx
      cases hx
      obtain ⟨-, r, hr, hsend⟩ := hdoc.sendCloseNotify p.sc
      exact h.closeNotify hr hsend
    | readTls =>
      rw [harm] at hx hspec
      exact h.readTlsArm hdoc hspec.2.2.2 hx
    | leave =>
      rw [harm] at hx
      cases hx
      exact h
  · obtain ⟨hsc, -, he, hout, -, hev⟩ := makespace_state hx
    unfold OutData trace
    rw [hsc, he, hev]
    have hidle : StakkerMio.OutData (p.trace past ++ []) p.sc p.ext x.state.int :=
      h.idle rfl rfl rfl rfl hout
    rwa [List.append_nil] at hidle
  · obtain ⟨hsc, -, he, hout, -, hev⟩ := readOut_state hx
    have hsend : sending x.state.sc = sending p.sc := by
      rw [hsc]
      exact hdoc.readerRead_sending p.sc _
    unfold OutData trace
    rw [he]
    rcases hev with hev | ⟨bytes, hev⟩
    · rw [hev]
      have hidle : StakkerMio.OutData (p.trace past ++ []) x.state.sc p.ext x.state.int :=
        h.idle rfl rfl hsend rfl hout
      rwa [List.append_nil] at hidle
    · rw [hev]
      have hidle : StakkerMio.OutData (p.trace past ++ [.engine (.decoded bytes)]) x.state.sc p.ext
          x.state.int := h.idle rfl rfl hsend rfl hout
      simpa [trace] using hidle

end TlsPump

/-! ## Whole runs -/

/-- Each side has its own buffer. -/
def TlsOp.apart : TlsOp → Bool
  | .process _ _ => true
  | .ext op => op.network
  | .int op => op.uses

namespace TlsSession
variable {SC : Type} [ServerConnection SC] [Observed SC] {usizeMax : Nat} {s t : TlsSession SC}
  {op : TlsOp}

def OutData (s : TlsSession SC) : Prop :=
  ∃ sc, s.engine.sc = some sc ∧ StakkerMio.OutData s.trace sc s.ext s.int

theorem OutData.step (hdoc : Documented SC) (h : s.OutData) (hop : op.apart = true)
    (ht : s.step usizeMax op = .ret t) : t.OutData := by
  obtain ⟨sc, hsc, hdata⟩ := h
  cases op with
  | process fuel outcomes =>
    have hstart : (s.engine.pump sc s.ext s.int outcomes).OutData s.trace := by
      unfold TlsPump.OutData TlsPump.trace
      rw [show (s.engine.pump sc s.ext s.int outcomes).events = [] from rfl, List.map_nil,
        List.append_nil]
      exact hdata
    obtain ⟨p, rv, hp, rfl⟩ := step_process hsc (I := fun x => x.state.OutData s.trace)
      (P := fun _ => True) (fun p x hi _ hx => hi.turn hdoc hx) (fun _ _ _ _ => trivial) hstart ht
    exact ⟨p.sc, rfl, hp.idle rfl rfl rfl rfl rfl⟩
  | ext op =>
    obtain ⟨u, hu, ht⟩ := Exec.bind_eq_ret.mp ht
    cases ht
    refine ⟨sc, hsc, hdata.accept (writtenIn_ext _) ?_ (TcpSession.network_accepted hop hu)⟩
    simp [acceptedIn, acceptedBy, TcpEvent.acceptedIn, List.flatMap_map]
  | int op =>
    obtain ⟨u, hu, ht⟩ := Exec.bind_eq_ret.mp ht
    cases ht
    obtain ⟨hout, -⟩ := TcpSession.uses_step hop hu
    refine ⟨sc, hsc, ?_, ?_⟩
    · rw [writtenIn_append, writtenIn_int, ← hdata.plain, hout, ← List.append_assoc]
    · rw [acceptedIn_append, acceptedIn_int, List.append_nil]
      exact hdata.wire

/-- **No byte is lost on its way out.** After every run, whatever the stream accepts and
however often `process` fails, the bytes the application wrote are in the records, held by
the connection or in `int.out`, and the bytes of the records are with the stream, in
`ext.out` or still to be written by the connection. -/
theorem output_in_records (hdoc : Documented SC) (usizeMax : Nat) (sc : SC) (hfresh : Fresh sc)
    (ops : List TlsOp) (hops : ∀ op ∈ ops, op.apart = true) (s : TlsSession SC)
    (hrun : (start sc).runs usizeMax ops = .ret s) : ∃ sc', s.engine.sc = some sc' ∧
      plainOf (sending sc').records ++ (sending sc').held ++ s.int.out = writtenIn s.trace ∧
      acceptedIn s.trace ++ s.ext.out ++ (sending sc').pending =
        wireOf (sending sc').records := by
  have hstart : (start sc).OutData := by
    refine ⟨sc, rfl, ?_, ?_⟩ <;> rw [hfresh.sending] <;> rfl
  obtain ⟨sc', hsc', hdata⟩ :=
    run_invariant_of (fun s op t hs hop ht => hs.step hdoc hop ht) hops hstart hrun
  exact ⟨sc', hsc', hdata.plain, hdata.wire⟩

/-- A run whose stream takes the record of three bytes in two writes, the second after an
error. -/
def sendOps : List TlsOp :=
  handshakeOps ++ [.ext (.pauseWrites false), .int (.append [1, 2, 3]),
    .process 8 { flushes := [
      { setNodelay := [.ok ()], write := [.ok 5, .error ⟨.other, none⟩] }] },
    .ext (.flush { write := [.ok 3, .error ⟨.wouldBlock, none⟩] })]

theorem output_in_records_sample : ∃ s sc',
    (start ({} : NullConnection)).runs 1000 sendOps = .ret s ∧ s.engine.sc = some sc' ∧
      plainOf (sending sc').records ++ (sending sc').held ++ s.int.out = writtenIn s.trace ∧
      acceptedIn s.trace ++ s.ext.out ++ (sending sc').pending =
        wireOf (sending sc').records := by
  obtain ⟨s, hs⟩ := Exec.exists_ret (x := (start ({} : NullConnection)).runs 1000 sendOps)
    (by decide +kernel)
  obtain ⟨sc', h⟩ := output_in_records NullConnection.documented 1000 {} NullConnection.fresh
    sendOps (by decide +kernel) s hs
  exact ⟨s, sc', hs, h⟩

end TlsSession
end StakkerMio
