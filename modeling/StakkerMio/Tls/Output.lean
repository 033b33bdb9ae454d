import StakkerMio.Tls.NullConnection
import StakkerMio.Tls.Turns

/-! # The end of the output under TLS

When `process` sets `ext.out_eof`, all plaintext it took from `int.out` is in records
appended to `ext.out`, and the last of these is the close_notify; after that it
appends nothing. This holds of runs in which the connection holds no plaintext when
it is told to send close_notify, and makes no more records after that. -/
namespace StakkerMio
open Lib ServerConnection Observed

namespace TlsSessionEvent
variable {SC : Type}

/-- The plaintext taken from `int.out`. -/
def takenBy : TlsSessionEvent SC → List UInt8
  | .engine (.taken bytes) => bytes
  | _ => []

/-- The bytes appended to `ext.out`. -/
def appendedBy : TlsSessionEvent SC → List UInt8
  | .engine (.appended bytes) => bytes
  | _ => []

/-- Whether the event is that `ext.out_eof` was set. -/
def isOutEof : TlsSessionEvent SC → Bool
  | .engine (.outEof _) => true
  | _ => false

def takenIn (tr : List (TlsSessionEvent SC)) : List UInt8 := tr.flatMap takenBy

def appendedIn (tr : List (TlsSessionEvent SC)) : List UInt8 := tr.flatMap appendedBy

def outEofIn (tr : List (TlsSessionEvent SC)) : Bool := tr.any isOutEof

/-- All plaintext taken is in the records, which end in the only close_notify, and
are what was appended. -/
def Closed [Observed SC] (tr : List (TlsSessionEvent SC)) (sc : SC) : Prop :=
  ∃ before last, (sending sc).records = before ++ [last] ∧ last.content = .closeNotify ∧
    NoCloseNotify before ∧ plainOf before = takenIn tr ∧
    wireOf (sending sc).records = appendedIn tr

/-- What holds whenever `ext.out_eof` is set and whenever `ext.out` is appended to. -/
def OutputOk [Observed SC] (past : List (TlsSessionEvent SC)) : TlsSessionEvent SC → Prop
  | .engine (.outEof sc) => Closed past sc
  | .engine (.appended _) => outEofIn past = false
  | _ => True

variable {tr : List (TlsSessionEvent SC)} {e : TlsSessionEvent SC}

/-- So all plaintext taken is in the records. -/
theorem Closed.taken [Observed SC] {sc : SC} (h : Closed tr sc) :
    takenIn tr = plainOf (sending sc).records := by
  obtain ⟨before, last, hrecords, hlast, -, htaken, -⟩ := h
  have hplain : last.plain = [] := by rw [Record.plain, hlast]
  rw [hrecords, plainOf_append, htaken]
  simp [plainOf, hplain]

/-- This much of it can be checked. -/
def AllInRecords [Observed SC] (past : List (TlsSessionEvent SC)) : TlsSessionEvent SC → Prop
  | .engine (.outEof sc) => takenIn past = plainOf (sending sc).records
  | _ => True

instance [Observed SC] (past : List (TlsSessionEvent SC)) :
    ∀ e, Decidable (AllInRecords past e)
  | .engine (.outEof sc) =>
    inferInstanceAs (Decidable (takenIn past = plainOf (sending sc).records))
  | .engine (.taken _) | .engine (.appended _) | .engine (.fed _) | .engine (.decoded _)
  | .engine (.call _) | .engine (.returned _) | .ext _ | .int _ => isTrue trivial

theorem OutputOk.allInRecords [Observed SC] (past : List (TlsSessionEvent SC))
    (e : TlsSessionEvent SC) (h : OutputOk past e) : AllInRecords past e := by
  unfold AllInRecords
  split
  · exact Closed.taken h
  · trivial

@[simp] theorem takenIn_concat : takenIn (tr ++ [e]) = takenIn tr ++ takenBy e := by
  simp [takenIn]

@[simp] theorem appendedIn_concat : appendedIn (tr ++ [e]) = appendedIn tr ++ appendedBy e := by
  simp [appendedIn]

@[simp] theorem outEofIn_concat : outEofIn (tr ++ [e]) = (outEofIn tr || isOutEof e) := by
  simp [outEofIn]

end TlsSessionEvent

open TlsSessionEvent

section Cond
variable {SC : Type} [ServerConnection SC] [Observed SC]

/-- Reading what there is makes the connection add no record. -/
def TlsPump.quiet (p : TlsPump SC) : Bool :=
  match p.readTls with
  | .ret (q, _) =>
    decide ((sending (processNewPackets q.sc).1).records = (sending p.sc).records)
  | _ => true

/-- At the start of a turn: the connection holds no plaintext if close_notify is to
be sent, and is quiet if `ext.out_eof` is set. -/
def TlsPump.ClosesLast (p : TlsPump SC) : Prop :=
  p.phase = .main → (p.arm = .closeNotify → (sending p.sc).held = []) ∧
    (p.arm = .readTls → p.ext.outEof = true → p.quiet = true)

instance (p : TlsPump SC) : Decidable p.ClosesLast := inferInstanceAs (Decidable (_ → _ ∧ _))

end Cond

/-- An invariant of the engine with the buffers, for the trace that led there. -/
structure TlsOutputInv {SC : Type} [Observed SC] (tr : List (TlsSessionEvent SC)) (sc : SC)
    (sent : Bool) (ext int : TcpStreamBuf) : Prop where
  taken : plainOf (sending sc).records ++ (sending sc).held = takenIn tr
  appended : appendedIn tr ++ (sending sc).pending = wireOf (sending sc).records
  unsent : sent = false → NoCloseNotify (sending sc).records
  last : sent = true → int.out = [] ∧ int.outEof = true ∧ (sending sc).held = [] ∧
    ∃ before last, (sending sc).records = before ++ [last] ∧ last.content = .closeNotify ∧
      NoCloseNotify before
  owed : sent = true → ext.outEof = false → (sending sc).pending ≠ []
  passed : ext.outEof = true → sent = true ∧ (sending sc).pending = []
  outEof : ext.outEof = outEofIn tr
  always : Always OutputOk tr

namespace TlsOutputInv
variable {SC : Type} [Observed SC] {tr tr' : List (TlsSessionEvent SC)} {sc sc' : SC} {sent : Bool}
  {ext ext' int int' : TcpStreamBuf}

/-- Nothing that matters changes. -/
theorem frame (h : TlsOutputInv tr sc sent ext int) (hsc : sending sc' = sending sc)
    (hext : ext'.outEof = ext.outEof)
    (hint : int.outEof = true → int'.out = int.out ∧ int'.outEof = int.outEof) :
    TlsOutputInv tr sc' sent ext' int' where
  taken := hsc ▸ h.taken
  appended := hsc ▸ h.appended
  unsent := hsc ▸ h.unsent
  last hs := by
    obtain ⟨hout, heof, hrest⟩ := h.last hs
    rw [(hint heof).1, (hint heof).2, hsc]
    exact ⟨hout, heof, hrest⟩
  owed := hext ▸ hsc ▸ h.owed
  passed := hext ▸ hsc ▸ h.passed
  outEof := hext ▸ h.outEof
  always := h.always

/-- An event that has nothing to do with the output. -/
theorem idle (h : TlsOutputInv tr sc sent ext int) {e : TlsSessionEvent SC}
    (ht : takenBy e = []) (ha : appendedBy e = []) (ho : isOutEof e = false)
    (hok : OutputOk tr e) : TlsOutputInv (tr ++ [e]) sc sent ext int where
  taken := by rw [takenIn_concat, ht, List.append_nil]; exact h.taken
  appended := by rw [appendedIn_concat, ha, List.append_nil]; exact h.appended
  unsent := h.unsent
  last := h.last
  owed := h.owed
  passed := h.passed
  outEof := by rw [outEofIn_concat, ho, Bool.or_false]; exact h.outEof
  always := h.always.concat hok

theorem idles {α : Type} (h : TlsOutputInv tr sc sent ext int) {f : α → TlsSessionEvent SC}
    (hf : ∀ tr a, takenBy (f a) = [] ∧ appendedBy (f a) = [] ∧ isOutEof (f a) = false ∧
      OutputOk tr (f a)) (as : List α) : TlsOutputInv (tr ++ as.map f) sc sent ext int := by
  induction as generalizing tr with
  | nil => simpa using h
  | cons a as ih =>
    obtain ⟨ht, ha, ho, hok⟩ := hf tr a
    simpa using ih (h.idle ht ha ho hok)

/-- Plaintext is put into records or held, before close_notify. -/
theorem adds (h : TlsOutputInv tr sc false ext int) {plain : List UInt8}
    (hadds : (sending sc).Adds (sending sc') plain) (ht : takenIn tr' = takenIn tr ++ plain)
    (ha : appendedIn tr' = appendedIn tr) (ho : outEofIn tr' = outEofIn tr)
    (hal : Always OutputOk tr') : TlsOutputInv tr' sc' false ext int' := by
  obtain ⟨rs, hrs, hr, hp, hh⟩ := hadds
  refine ⟨?_, ?_, fun _ r hm => ?_, nofun, nofun, fun he => ?_, ho ▸ h.outEof, hal⟩
  · rw [hr, plainOf_append, List.append_assoc, ← hh, ht, ← h.taken, List.append_assoc]
  · rw [hr, hp, wireOf_append, ha, ← h.appended, List.append_assoc]
  · rw [hr] at hm
    rcases List.mem_append.mp hm with hm | hm
    · exact h.unsent rfl r hm
    · exact hrs r hm
  · cases (h.passed he).1

/-- A connection that adds no record sends nothing new at all. -/
theorem adds_none (hadds : (sending sc).Adds (sending sc') [])
    (hr : (sending sc').records = (sending sc).records) : sending sc' = sending sc := by
  obtain ⟨rs, -, hrs, hp, hh⟩ := hadds
  have hnil : rs = [] := by simpa [hr] using hrs
  subst hnil
  simp only [wireOf, List.flatMap_nil, List.append_nil, plainOf, List.nil_append] at hp hh
  exact Sending.ext hr hp hh.symm

/-- close_notify is made when no plaintext is held. -/
theorem closeNotify (h : TlsOutputInv tr sc false ext int) (hout : int.out = [])
    (heof : int.outEof = true) (hheld : (sending sc).held = []) {r : Record}
    (hr : r.content = .closeNotify)
    (hsc : sending sc' =
      { sending sc with
        records := (sending sc).records ++ [r]
        pending := (sending sc).pending ++ r.wire }) :
    TlsOutputInv tr sc' true ext int := by
  have hext : ext.outEof = false := by
    cases he : ext.outEof with
    | false => rfl
    | true => cases (h.passed he).1
  have hplain : r.plain = [] := by rw [Record.plain, hr]
  have htaken := h.taken
  have happ := h.appended
  refine ⟨?_, ?_, by simp, fun _ => ⟨hout, heof, ?_, (sending sc).records, r, ?_, hr, h.unsent rfl⟩,
    fun _ _ => ?_, fun he => ?_, h.outEof, h.always⟩
  · rw [hsc, ← htaken, hheld]
    simp [plainOf, hplain]
  · rw [hsc, wireOf_append, ← happ]
    simp [wireOf]
  · rw [hsc]
    exact hheld
  · rw [hsc]
  · rw [hsc]
    simp [r.wire_ne]
  · rw [hext] at he
    cases he

/-- While something is pending, `ext.out_eof` is not set. -/
theorem open_of_pending (h : TlsOutputInv tr sc sent ext int) (hp : (sending sc).pending ≠ []) :
    ext.outEof = false := by
  cases he : ext.outEof with
  | false => rfl
  | true => exact absurd (h.passed he).2 hp

/-- Part of what is pending is appended to `ext.out`. -/
theorem write (h : TlsOutputInv tr sc sent ext int) {chunk rest : List UInt8}
    (hchunk : chunk ≠ []) (hp : (sending sc).pending = chunk ++ rest)
    (hsc : sending sc' = { sending sc with pending := rest }) (hext : ext'.outEof = ext.outEof)
    (hrest : sent = true → rest ≠ []) :
    TlsOutputInv (tr ++ [.engine (.appended chunk)]) sc' sent ext' int := by
  have hopen := h.open_of_pending (by simp [hp, hchunk])
  have happ := h.appended
  rw [hp] at happ
  refine ⟨?_, ?_, ?_, ?_, fun hs _ => ?_, fun he => ?_, ?_,
    h.always.concat (h.outEof.symm.trans hopen)⟩
  · rw [hsc, takenIn_concat, ← h.taken]
    exact (List.append_nil _).symm
  · rw [hsc, appendedIn_concat, List.append_assoc]
    exact happ
  · rw [hsc]
    exact h.unsent
  · rw [hsc]
    exact h.last
  · rw [hsc]
    exact hrest hs
  · rw [hext, hopen] at he
    cases he
  · rw [hext, outEofIn_concat, h.outEof]
    exact (Bool.or_false _).symm

/-- With the last of what is pending after close_notify, EOF is passed on. -/
theorem writeLast (h : TlsOutputInv tr sc sent ext int) (hs : sent = true) {chunk : List UInt8}
    (hchunk : chunk ≠ []) (hp : (sending sc).pending = chunk)
    (hsc : sending sc' = { sending sc with pending := [] }) (hext : ext'.outEof = true) :
    TlsOutputInv (tr ++ [.engine (.appended chunk), .engine (.outEof sc')]) sc' sent ext' int := by
  subst hs
  have hopen := h.open_of_pending (hp ▸ hchunk)
  obtain ⟨hout, heof, hheld, before, last, hrecords, hlast, hbefore⟩ := h.last rfl
  have happ : wireOf (sending sc).records = appendedIn tr ++ chunk := by rw [← h.appended, hp]
  have htaken : plainOf before = takenIn tr := by
    have hplain : last.plain = [] := by rw [Record.plain, hlast]
    rw [← h.taken, hheld, hrecords, plainOf_append]
    simp [plainOf, hplain]
  have hclosed : Closed (tr ++ [.engine (.appended chunk)]) sc' := by
    refine ⟨before, last, by rw [hsc]; exact hrecords, hlast, hbefore, ?_, ?_⟩
    · rw [takenIn_concat, htaken]
      exact (List.append_nil _).symm
    · rw [hsc, appendedIn_concat]
      exact happ
  have hfirst : Always OutputOk (tr ++ [.engine (.appended chunk)]) :=
    h.always.concat (h.outEof.symm.trans hopen)
  have hlastOk : OutputOk (tr ++ [.engine (.appended chunk)]) (.engine (.outEof sc')) := hclosed
  have hal := hfirst.concat hlastOk
  rw [List.append_assoc] at hal
  refine ⟨?_, ?_, by simp,
    fun _ => ⟨hout, heof, ?_, before, last, ?_, hlast, hbefore⟩, fun _ he => ?_,
    fun _ => ⟨rfl, by rw [hsc]⟩, ?_, hal⟩
  · rw [hsc, h.taken]
    simp [takenIn, takenBy]
  · rw [hsc, List.append_nil, happ]
    simp [appendedIn, appendedBy]
  · rw [hsc]
    exact hheld
  · rw [hsc]
    exact hrecords
  · rw [hext] at he
    cases he
  · rw [hext]
    simp [outEofIn, isOutEof]

end TlsOutputInv

/-! ## A turn -/

namespace TlsPump
variable {SC : Type} [Observed SC] {past : List (TlsSessionEvent SC)} {p q : TlsPump SC}
  {x : Turn SC}

def OutputInv (past : List (TlsSessionEvent SC)) (p : TlsPump SC) : Prop :=
  TlsOutputInv (p.trace past) p.sc p.sentOutEof p.ext p.int

theorem flushStep_outEof {b b' : TcpStreamBuf} {c : StreamCall} (h : FlushStep b c b') :
    b'.outEof = b.outEof := by
  cases h <;> rfl

theorem OutputInv.flushExt (h : p.OutputInv past) (hx : p.flushExt = .ret x) :
    x.state.OutputInv past := by
  obtain ⟨ext, calls, flushes, hsteps, hstate⟩ := flushExt_steps hx
  have hcalls := h.idles (f := fun c : StreamCall => .engine (.call c))
    (fun _ _ => ⟨rfl, rfl, rfl, trivial⟩) calls
  have hext : ext.outEof = p.ext.outEof :=
    hsteps.keeps (I := fun b => b.outEof = p.ext.outEof)
      (fun _ _ _ hs hc => (flushStep_outEof hc).trans hs) rfl
  rw [hstate]
  have hinv := hcalls.frame rfl hext fun _ => ⟨rfl, rfl⟩
  simpa [OutputInv, trace, Function.comp_def] using hinv

variable [ServerConnection SC]

theorem OutputInv.writeTlsArm (hdoc : Documented SC) (h : p.OutputInv past)
    (hw : wantsWrite p.sc = true) (hx : p.writeTlsArm = .ret x) : x.state.OutputInv past := by
  obtain ⟨chunk, sc', rest, heq, hchunk, hp, hsend, -⟩ := writeTlsArm_eq hdoc hw
  rw [heq] at hx
  refine OutputInv.flushExt ?_ hx
  have hwants : wantsWrite sc' = true ↔ rest ≠ [] := by rw [hdoc.wantsWrite_iff, hsend]
  unfold TlsPump.passOutEof
  split
  · rename_i hlast
    change (p.sentOutEof && !wantsWrite sc') = true at hlast
    obtain ⟨hs, hw'⟩ : p.sentOutEof = true ∧ wantsWrite sc' = false := by simpa using hlast
    have hnil : rest = [] := by
      by_contra hne
      rw [hwants.mpr hne] at hw'
      cases hw'
    subst hnil
    rw [List.append_nil] at hp
    have hlast : TlsOutputInv _ sc' _ { (p.ext.ioWrite chunk).1 with outEof := true } p.int :=
      h.writeLast hs hchunk hp hsend rfl
    simpa [OutputInv, trace, wrote, log] using hlast
  · rename_i hmore
    change ¬(p.sentOutEof && !wantsWrite sc') = true at hmore
    have hmore : p.sentOutEof = true → rest ≠ [] := fun hs => by
      rw [← hwants]
      simpa [hs] using hmore
    have hinv : TlsOutputInv _ sc' _ (p.ext.ioWrite chunk).1 p.int :=
      h.write hchunk hp hsend rfl hmore
    simpa [OutputInv, trace, wrote, log] using hinv

theorem OutputInv.writerArm (hdoc : Documented SC) (h : p.OutputInv past)
    (hout : p.int.out ≠ []) (hx : p.writerArm = .ret x) : x.state.OutputInv past := by
  have hsent : p.sentOutEof = false := by
    cases hs : p.sentOutEof with
    | false => rfl
    | true => exact absurd (h.last hs).1 hout
  unfold TlsPump.writerArm at hx
  split at hx
  · rename_i sc' e hwrite
    cases hx
    have hsend := hdoc.writerWrite_error p.sc p.int.out e (by rw [hwrite])
    rw [hwrite] at hsend
    exact h.frame hsend rfl fun _ => ⟨rfl, rfl⟩
  · rename_i sc' len hwrite
    obtain ⟨hle, hadds⟩ := hdoc.writerWrite_ok p.sc p.int.out len (by rw [hwrite])
    rw [hwrite] at hadds
    rw [if_pos hle] at hx
    cases hx
    have hfirst : TlsOutputInv (p.trace past) p.sc false p.ext p.int := hsent ▸ h
    have hal : Always OutputOk (p.trace past ++ [.engine (.taken (p.int.out.take len))]) :=
      h.always.concat trivial
    have hinv : TlsOutputInv _ sc' false p.ext { p.int with out := p.int.out.drop len } :=
      hfirst.adds hadds (by simp [takenBy]) (by simp [appendedBy]) (by simp [isOutEof]) hal
    rw [← hsent] at hinv
    simpa [OutputInv, trace, log, Turn.state, goOn] using hinv

theorem OutputInv.closeNotifyArm (hdoc : Documented SC) (h : p.OutputInv past)
    (harm : p.arm = .closeNotify) (hheld : (sending p.sc).held = [])
    (hx : p.closeNotifyArm = .ret x) : x.state.OutputInv past := by
  have hspec := p.arm_spec
  rw [harm] at hspec
  obtain ⟨-, hout, heof, hsent⟩ := hspec
  obtain ⟨-, r, hr, hsend⟩ := hdoc.sendCloseNotify p.sc
  have hfirst : TlsOutputInv (p.trace past) p.sc false p.ext p.int := hsent ▸ h
  cases hx
  exact hfirst.closeNotify hout heof hheld hr hsend

theorem OutputInv.readTlsArm (hdoc : Documented SC) (h : p.OutputInv past)
    (harm : p.arm = .readTls) (hquiet : p.ext.outEof = true → p.quiet = true)
    (hx : p.readTlsArm = .ret x) : x.state.OutputInv past := by
  have hspec := p.arm_spec
  rw [harm] at hspec
  obtain ⟨hw, -, -, hne⟩ := hspec
  rcases readTlsArm_cases hdoc hne hx with ⟨e, rfl⟩ | ⟨q, rv, bytes, hread, hfeeds, hx⟩
  · exact h
  · obtain ⟨room, hio, -⟩ := hfeeds.ext
    have hext : q.ext.outEof = p.ext.outEof := by rw [TcpStreamBuf.ioRead_frame hio]
    have hfed : TlsOutputInv (q.trace past) q.sc q.sentOutEof q.ext q.int := by
      have hidle := h.idle (e := .engine (.fed bytes)) rfl rfl rfl trivial
      have hinv := hidle.frame hfeeds.sending hext fun _ => ⟨rfl, rfl⟩
      rw [hfeeds.sentOutEof, hfeeds.int]
      simpa [trace, hfeeds.events] using hinv
    have hadds := hdoc.processNewPackets_sending q.sc
    have hnew : TlsOutputInv (q.trace past) (processNewPackets q.sc).1 q.sentOutEof
        q.ext q.int := by
      have hs := hfeeds.sentOutEof
      cases hsent : p.sentOutEof with
      | false =>
        rw [hs, hsent] at hfed ⊢
        exact hfed.adds hadds (List.append_nil _).symm rfl rfl hfed.always
      | true =>
        -- Nothing is pending, so EOF was passed on and the connection is quiet.
        have hpending : (sending p.sc).pending = [] := by
          by_contra hne
          rw [(hdoc.wantsWrite_iff p.sc).mpr hne] at hw
          cases hw
        have heof : p.ext.outEof = true := by
          cases he : p.ext.outEof with
          | true => rfl
          | false => exact absurd hpending (h.owed hsent he)
        have hquiet := hquiet heof
        unfold quiet at hquiet
        rw [hread] at hquiet
        have hrecords : (sending (processNewPackets q.sc).1).records = (sending q.sc).records :=
          (of_decide_eq_true hquiet).trans (congrArg Sending.records hfeeds.sending.symm)
        have hnone := TlsOutputInv.adds_none hadds hrecords
        exact hfed.frame hnone rfl fun _ => ⟨rfl, rfl⟩
    rcases hx with ⟨e, rfl⟩ | ⟨e, -, rfl⟩ | ⟨n, -, rfl⟩
    · exact hfed
    · exact hnew
    · exact hnew

/-- No turn breaks the invariant if it meets the condition. -/
theorem OutputInv.turn (hdoc : Documented SC) {usizeMax : Nat} (h : p.OutputInv past)
    (hp : p.ClosesLast) (hx : p.turn usizeMax = .ret x) : x.state.OutputInv past := by
  unfold TlsPump.turn at hx
  split at hx
  · rename_i hphase
    obtain ⟨hclose, hread⟩ := hp hphase
    have hspec := p.arm_spec
    cases harm : p.arm with
    | writeTls =>
      rw [harm] at hx hspec
      exact h.writeTlsArm hdoc hspec hx
    | writer =>
      rw [harm] at hx hspec
      exact h.writerArm hdoc hspec.2 hx
    | closeNotify =>
      rw [harm] at hx
      exact h.closeNotifyArm hdoc harm (hclose harm) hx
    | readTls =>
      rw [harm] at hx
      exact h.readTlsArm hdoc harm (hread harm) hx
    | leave =>
      rw [harm] at hx
      cases hx
      exact h
  · obtain ⟨hsc, hs, he, hout, heof, hev⟩ := makespace_state hx
    unfold OutputInv trace
    rw [hsc, hs, he, hev]
    exact h.frame rfl rfl fun _ => ⟨hout, heof⟩
  · obtain ⟨hsc, hs, he, hout, heof, hev⟩ := readOut_state hx
    have hsend := hdoc.readerRead_sending p.sc (p.int.inp.length - p.int.wr)
    have hinv : TlsOutputInv (p.trace past) x.state.sc p.sentOutEof p.ext x.state.int :=
      h.frame (hsc ▸ hsend) rfl fun _ => ⟨hout, heof⟩
    unfold OutputInv trace
    rw [hs, he]
    rcases hev with hev | ⟨bytes, hev⟩
    · rw [hev]
      exact hinv
    · rw [hev]
      simpa [trace] using hinv.idle (e := .engine (.decoded bytes)) rfl rfl rfl trivial

end TlsPump

/-! ## Whole runs -/

namespace TcpSession
variable {usizeMax : Nat} {s t : TcpSession} {op : TcpOp}

/-- The network side does not set `out_eof`. -/
theorem network_outEof (hop : op.network = true) (ht : s.step usizeMax op = .ret t) :
    t.buf.outEof = s.buf.outEof := by
  cases op with
  | append _ | ioWrite _ | setOutEof _ | ioRead _ | consume _ => cases hop
  | init _ | deinit | pauseWrites _ =>
    cases ht
    rfl
  | setNodelay nodelay =>
    cases ht
    dsimp only
    unfold TcpStreamBuf.setNodelay
    split <;> rfl
  | flush outcomes =>
    obtain ⟨⟨b, rv, calls⟩, hf, ht⟩ := Exec.bind_eq_ret.mp ht
    cases ht
    exact (TcpStreamBuf.flush_steps hf).keeps (I := fun b => b.outEof = s.buf.outEof)
      (fun _ _ _ hs hc => (TlsPump.flushStep_outEof hc).trans hs) rfl
  | inpMakespace max spare =>
    obtain ⟨b, hb, ht⟩ := Exec.bind_eq_ret.mp ht
    cases ht
    dsimp only
    rw [TcpStreamBuf.inpMakespace_frame hb]
  | read max spare outcomes =>
    obtain ⟨⟨b, status, calls⟩, hr, ht⟩ := Exec.bind_eq_ret.mp ht
    cases ht
    dsimp only
    rw [(TcpStreamBuf.read_frame hr).1]

/-- Once the application has set EOF it leaves the output as it is. -/
theorem application_output (hop : op.application s.buf = true) (ht : s.step usizeMax op = .ret t)
    (heof : s.buf.outEof = true) : t.buf.out = s.buf.out ∧ t.buf.outEof = s.buf.outEof := by
  cases op with
  | append _ | ioWrite _ => simp [TcpOp.application, heof] at hop
  | init _ | deinit | setNodelay _ | pauseWrites _ | flush _ | read _ _ _ => cases hop
  | setOutEof eof =>
    cases ht
    exact ⟨rfl, Eq.trans hop heof.symm⟩
  | inpMakespace max spare =>
    obtain ⟨b, hb, ht⟩ := Exec.bind_eq_ret.mp ht
    cases ht
    dsimp only
    rw [TcpStreamBuf.inpMakespace_frame hb]
    exact ⟨rfl, rfl⟩
  | ioRead len =>
    obtain ⟨⟨b, rv⟩, hr, ht⟩ := Exec.bind_eq_ret.mp ht
    cases ht
    dsimp only
    rw [TcpStreamBuf.ioRead_frame hr]
    exact ⟨rfl, rfl⟩
  | consume n =>
    cases ht
    exact ⟨rfl, rfl⟩

end TcpSession

namespace TlsSession
variable {SC : Type} [ServerConnection SC] [Observed SC] {usizeMax : Nat} {s t : TlsSession SC}
  {op : TlsOp}

def OutputInv (s : TlsSession SC) : Prop :=
  ∃ sc, s.engine.sc = some sc ∧ TlsOutputInv s.trace sc s.engine.sentOutEof s.ext s.int

/-- The buffers are used as they should be, and all turns of `process` meet the
condition. -/
def ClosesLast (usizeMax : Nat) (s : TlsSession SC) (op : TlsOp) : Prop :=
  s.allowed op = true ∧ s.Turns usizeMax TlsPump.ClosesLast op

theorem OutputInv.step (hdoc : Documented SC) (h : s.OutputInv)
    (hop : s.ClosesLast usizeMax op) (ht : s.step usizeMax op = .ret t) : t.OutputInv := by
  obtain ⟨sc, hsc, hinv⟩ := h
  obtain ⟨hallowed, hturns⟩ := hop
  cases op with
  | process fuel outcomes =>
    have hstart : (s.engine.pump sc s.ext s.int outcomes).OutputInv s.trace := by
      unfold TlsPump.OutputInv TlsPump.trace
      rw [show (s.engine.pump sc s.ext s.int outcomes).events = [] from rfl, List.map_nil,
        List.append_nil]
      exact hinv
    obtain ⟨p, rv, hp, rfl⟩ := step_process hsc (I := fun x => x.state.OutputInv s.trace)
      (fun p x hi hc hx => hi.turn hdoc hc hx) hturns hstart ht
    exact ⟨p.sc, rfl, hp.idle rfl rfl rfl trivial⟩
  | ext op =>
    obtain ⟨u, hu, ht⟩ := Exec.bind_eq_ret.mp ht
    cases ht
    have hidles := hinv.idles (f := TlsSessionEvent.ext)
      (fun _ _ => ⟨rfl, rfl, rfl, trivial⟩) u.trace
    exact ⟨sc, hsc, hidles.frame rfl (TcpSession.network_outEof hallowed hu) fun _ => ⟨rfl, rfl⟩⟩
  | int op =>
    obtain ⟨u, hu, ht⟩ := Exec.bind_eq_ret.mp ht
    cases ht
    have hallowed : op.application s.int = true := hallowed
    have hout := TcpSession.application_output (s := ⟨s.int, []⟩) hallowed hu
    have hidles := hinv.idles (f := TlsSessionEvent.int)
      (fun _ _ => ⟨rfl, rfl, rfl, trivial⟩) u.trace
    exact ⟨sc, hsc, hidles.frame rfl rfl hout⟩

omit [ServerConnection SC] in
theorem OutputInv.start {sc : SC} (hfresh : Fresh sc) : (start sc).OutputInv := by
  refine ⟨sc, rfl, ?_⟩
  have hs := hfresh.sending
  refine ⟨?_, ?_, fun _ => ?_, nofun, nofun, nofun, rfl, trivial⟩
  · rw [hs]
    rfl
  · rw [hs]
    rfl
  · rw [hs]
    exact nofun

/-- **Output EOF comes last.** In a run whose calls all close last, whenever `process`
sets `ext.out_eof` all plaintext it took is in records appended to `ext.out`, the last
of which is the close_notify, and it appends nothing to `ext.out` afterwards. -/
theorem output_eof_last (hdoc : Documented SC) (usizeMax : Nat) (sc : SC) (hfresh : Fresh sc)
    (ops : List TlsOp) (hops : Meets (step usizeMax) (ClosesLast usizeMax) (start sc) ops)
    (s : TlsSession SC) (hrun : (start sc).runs usizeMax ops = .ret s) :
    Always OutputOk s.trace ∧ s.ext.outEof = outEofIn s.trace := by
  obtain ⟨sc', -, hinv⟩ := hops.invariant (fun s op t hs hop ht => hs.step hdoc hop ht)
    (OutputInv.start hfresh) hrun
  exact ⟨hinv.always, hinv.outEof⟩

/-- Three bytes are written and the output is closed once the handshake is done. -/
theorem output_eof_last_sample : ∃ s,
    (start ({} : NullConnection)).runs 1000
      [.ext (.init 0), .ext (.pauseWrites true),
        .ext (.read 64 0 [.ok (NullConnection.frame 22 [1])]), .process 8 { flushes := [{}] },
        .ext (.read 64 0 [.ok (NullConnection.frame 22 [20])]), .process 8 {},
        .int (.append [1, 2, 3]), .int (.setOutEof true),
        .process 8 { flushes := [{}, {}] }] = .ret s ∧
      Always OutputOk s.trace ∧ s.ext.outEof = outEofIn s.trace := by
  obtain ⟨s, hs⟩ := Exec.exists_ret (x := (start ({} : NullConnection)).runs 1000
    [.ext (.init 0), .ext (.pauseWrites true),
      .ext (.read 64 0 [.ok (NullConnection.frame 22 [1])]), .process 8 { flushes := [{}] },
      .ext (.read 64 0 [.ok (NullConnection.frame 22 [20])]), .process 8 {},
      .int (.append [1, 2, 3]), .int (.setOutEof true),
      .process 8 { flushes := [{}, {}] }]) (by decide +kernel)
  refine ⟨s, hs, output_eof_last NullConnection.documented 1000 {} NullConnection.fresh _ ?_ s hs⟩
  exact Meets.mono (P := fun s op => s.allowed op = true ∧
      s.checkTurns 1000 8 (fun p => decide p.ClosesLast) op = true)
    (fun _ _ h => ⟨h.1, turns_of_check (fun _ => of_decide_eq_true) h.2⟩) (by decide +kernel)

/-- Two bytes are written and the output is closed before the handshake has begun:
the close_notify goes out and EOF is passed on, with the bytes still held. -/
theorem output_eof_not_last : Documented NullConnection ∧ Fresh ({} : NullConnection) ∧ ∃ s,
    (start ({} : NullConnection)).runs 1000
      [.int (.append [1, 2]), .int (.setOutEof true), .process 8 { flushes := [{}] }] = .ret s ∧
      ¬ Always OutputOk s.trace := by
  refine ⟨NullConnection.documented, NullConnection.fresh, ?_⟩
  obtain ⟨s, hs, hnot⟩ := Exec.exists_ret_of (x := (start ({} : NullConnection)).runs 1000
    [.int (.append [1, 2]), .int (.setOutEof true), .process 8 { flushes := [{}] }])
    (p := fun s => !decide (Always AllInRecords s.trace)) (by decide +kernel)
  refine ⟨s, hs, fun h => ?_⟩
  rw [decide_eq_true (h.imp OutputOk.allInRecords)] at hnot
  cases hnot

end TlsSession
end StakkerMio
