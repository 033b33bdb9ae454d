import StakkerMio.Tls.PassThrough

/-! # What comes in under TLS

The bytes the peer sends are fed to the connection in order, and what becomes of them is
passed on to the application in order: together, what it has read and what waits for it in
`int.inp` is a part of the plaintext in the bytes fed, and all of it while no call has
failed on the input. It does not matter into how many reads, or calls, they were cut up. -/
namespace StakkerMio
open Lib ServerConnection Observed TlsSessionEvent TcpStreamBuf

/-- What is said of the plaintext: `clear sc bytes` is what there will be to read if the
connection is fed these bytes. It comes in the order of the bytes, and reading takes it
from the front. -/
structure Deciphers (SC : Type) [ServerConnection SC] [Observed SC]
    (clear : SC → List UInt8 → List UInt8) : Prop where
  writeTls (sc : SC) (rv : Result Nat) : clear ((writeTls sc).2 rv).1 = clear sc
  writerWrite (sc : SC) (buf : List UInt8) : clear (writerWrite sc buf).1 = clear sc
  sendCloseNotify (sc : SC) : clear (sendCloseNotify sc) = clear sc
  readTls (sc : SC) (room : Nat) (k : Result (List UInt8) → SC × Result Nat) :
    readTls sc = .ok (room, k) →
    ∀ bytes more, clear (k (.ok bytes)).1 more = clear sc (bytes ++ more)
  processNewPackets_keeps (sc : SC) : clear (processNewPackets sc).1 = clear sc
  processNewPackets_ok (sc : SC) (n : Nat) : (processNewPackets sc).2 = .ok n →
    (receiving (processNewPackets sc).1).incoming = clear (processNewPackets sc).1 []
  readerRead_ok (sc sc' : SC) (len : Nat) (bytes : List UInt8) :
    readerRead sc len = (sc', .ok bytes) → ∀ more, clear sc more = bytes ++ clear sc' more
  readerRead_error (sc sc' : SC) (len : Nat) (e : Error) :
    readerRead sc len = (sc', .error e) → clear sc' = clear sc

namespace TlsSessionEvent
variable {SC : Type} {tr es : List (TlsSessionEvent SC)}

/-- Whether a call has failed in reading from `ext` or in processing what was read. -/
def isInputError : TlsSessionEvent SC → Bool
  | .engine (.returned (.error (.readTls _))) | .engine (.returned (.error (.stream _))) => true
  | _ => false

def inputFailedIn (tr : List (TlsSessionEvent SC)) : Bool := tr.any isInputError

@[simp] theorem inputFailedIn_append :
    inputFailedIn (tr ++ es) = (inputFailedIn tr || inputFailedIn es) := List.any_append

@[simp] theorem inputFailedIn_ext (es : List TcpEvent) :
    inputFailedIn (es.map (.ext : TcpEvent → TlsSessionEvent SC)) = false := by
  simp [inputFailedIn, isInputError]

@[simp] theorem inputFailedIn_int (es : List TcpEvent) :
    inputFailedIn (es.map (.int : TcpEvent → TlsSessionEvent SC)) = false := by
  simp [inputFailedIn, isInputError]

end TlsSessionEvent

/-! ## The reader -/

namespace Documented
variable {SC : Type} [ServerConnection SC] [Observed SC] {sc sc' : SC} {len : Nat}

/-- What is read is taken from the front of what there is. -/
theorem reader_ok (hdoc : Documented SC) {bytes : List UInt8}
    (hread : readerRead sc len = (sc', .ok bytes)) :
    bytes.length ≤ len ∧ (receiving sc).incoming = bytes ++ (receiving sc').incoming := by
  rcases Nat.eq_zero_or_pos len with rfl | hlen
  · obtain ⟨sc'', hzero, hrecv⟩ := hdoc.readerRead_zero sc
    rw [hzero] at hread
    cases hread
    exact ⟨Nat.le_refl 0, by rw [hrecv]; rfl⟩
  by_cases hnone : (receiving sc).incoming = []
  · obtain ⟨sc'', rv, hempty, hrecv, hrv⟩ := hdoc.readerRead_none sc len hnone hlen
    rw [hempty] at hread
    cases hread
    split at hrv
    · cases hrv
      exact ⟨Nat.zero_le _, by rw [hrecv]; rfl⟩
    · obtain ⟨e, he, -⟩ := hrv
      cases he
  · obtain ⟨bytes', rest, sc'', hsome, -, hle, hsplit, hrecv⟩ :=
      hdoc.readerRead_some sc len hnone hlen
    rw [hsome] at hread
    cases hread
    exact ⟨hle, by rw [hrecv]; exact hsplit⟩

/-- An error means that there is nothing to read. -/
theorem reader_error (hdoc : Documented SC) {e : Error}
    (hread : readerRead sc len = (sc', .error e)) :
    (receiving sc).incoming = [] ∧ receiving sc' = receiving sc := by
  rcases Nat.eq_zero_or_pos len with rfl | hlen
  · obtain ⟨sc'', hzero, -⟩ := hdoc.readerRead_zero sc
    rw [hzero] at hread
    cases hread
  by_cases hnone : (receiving sc).incoming = []
  · obtain ⟨sc'', rv, hempty, hrecv, -⟩ := hdoc.readerRead_none sc len hnone hlen
    rw [hempty] at hread
    cases hread
    exact ⟨hnone, hrecv⟩
  · obtain ⟨bytes, rest, sc'', hsome, -⟩ := hdoc.readerRead_some sc len hnone hlen
    rw [hsome] at hread
    cases hread

end Documented

/-! ## The invariant -/

section Invariant
variable {SC : Type} [Observed SC] (clear : SC → List UInt8 → List UInt8) (sc₀ : SC)

/-- Where the bytes of the peer are, and where the plaintext is: read, in `int.inp` or
still with the connection. -/
structure InData (tr : List (TlsSessionEvent SC)) (sc : SC) (ext int : TcpStreamBuf) : Prop where
  extUnread : ext.Unread ext.unread
  intUnread : int.Unread int.unread
  fed : fedIn tr ++ ext.unread = deliveredIn tr
  plain : ∀ more,
    consumedIn tr ++ int.unread ++ clear sc more = clear sc₀ (fedIn tr ++ more)

/-- All that was fed was processed. -/
def AllProcessed (sc : SC) : Prop := clear sc [] = (receiving sc).incoming

variable {clear} in
theorem AllProcessed.read {sc sc' : SC} {bytes : List UInt8} (h : AllProcessed clear sc)
    (hclear : clear sc [] = bytes ++ clear sc' [])
    (hread : (receiving sc).incoming = bytes ++ (receiving sc').incoming) :
    AllProcessed clear sc' := by
  have hboth : bytes ++ clear sc' [] = bytes ++ (receiving sc').incoming := by
    rw [← hclear, ← hread]
    exact h
  exact List.append_cancel_left hboth

end Invariant

namespace InData
variable {SC : Type} {clear : SC → List UInt8 → List UInt8} {sc₀ sc sc' : SC}
  {tr es : List (TlsSessionEvent SC)} {ext ext' int int' : TcpStreamBuf}

/-- What has nothing to do with the input. -/
theorem idle (h : InData clear sc₀ tr sc ext int) (hfed : fedIn es = [])
    (hdel : deliveredIn es = []) (hcons : consumedIn es = []) (hclear : clear sc' = clear sc)
    (hext : SameInput ext ext') (hint : SameInput int int') :
    InData clear sc₀ (tr ++ es) sc' ext' int' where
  extUnread := hext.keeps h.extUnread
  intUnread := hint.keeps h.intUnread
  fed := by
    rw [fedIn_append, deliveredIn_append, hfed, hdel, hext.unread, List.append_nil, List.append_nil]
    exact h.fed
  plain more := by
    rw [fedIn_append, consumedIn_append, hfed, hcons, hint.unread, hclear, List.append_nil,
      List.append_nil]
    exact h.plain more

/-- The connection is fed from `ext`. -/
theorem feed (h : InData clear sc₀ tr sc ext int) {bytes : List UInt8}
    (hclear : ∀ more, clear sc' more = clear sc (bytes ++ more)) (hext : ext'.Unread ext'.unread)
    (hbytes : bytes ++ ext'.unread = ext.unread) :
    InData clear sc₀ (tr ++ [.engine (.fed bytes)]) sc' ext' int where
  extUnread := hext
  intUnread := h.intUnread
  fed := by
    rw [fedIn_append, deliveredIn_append, ← h.fed, ← hbytes]
    simp [fedIn, fedBy, deliveredIn, deliveredBy]
  plain more := by
    have hmore := h.plain (bytes ++ more)
    rw [fedIn_append, consumedIn_append, hclear]
    simpa [fedIn, fedBy, consumedIn, consumedBy] using hmore

/-- Plaintext is read into `int.inp`. -/
theorem decode (h : InData clear sc₀ tr sc ext int) {bytes : List UInt8}
    (hclear : ∀ more, clear sc more = bytes ++ clear sc' more)
    (hint : int'.Unread (int.unread ++ bytes)) :
    InData clear sc₀ (tr ++ [.engine (.decoded bytes)]) sc' ext int' where
  extUnread := h.extUnread
  intUnread := hint.eq_unread ▸ hint
  fed := by
    rw [fedIn_append, deliveredIn_append, ← h.fed]
    simp [fedIn, fedBy, deliveredIn, deliveredBy]
  plain more := by
    rw [fedIn_append, consumedIn_append, hint.eq_unread]
    have hmore := h.plain more
    rw [hclear more] at hmore
    simpa [fedIn, fedBy, consumedIn, consumedBy] using hmore

/-- The network side adds to what is delivered. -/
theorem deliver (h : InData clear sc₀ tr sc ext int) {es : List TcpEvent}
    (hext : ext'.Unread ext'.unread)
    (hbytes : ext'.unread = ext.unread ++ TcpEvent.deliveredIn es) :
    InData clear sc₀ (tr ++ es.map .ext) sc ext' int where
  extUnread := hext
  intUnread := h.intUnread
  fed := by
    rw [fedIn_append, fedIn_ext, deliveredIn_append, deliveredIn_ext, List.append_nil, hbytes,
      ← List.append_assoc, h.fed]
  plain more := by
    rw [fedIn_append, fedIn_ext, consumedIn_append, consumedIn_ext, List.append_nil,
      List.append_nil]
    exact h.plain more

/-- The application takes what there is. -/
theorem consume (h : InData clear sc₀ tr sc ext int) {es : List TcpEvent}
    (hint : int'.Unread int'.unread)
    (hbytes : TcpEvent.consumedIn es ++ int'.unread = int.unread) :
    InData clear sc₀ (tr ++ es.map .int) sc ext int' where
  extUnread := h.extUnread
  intUnread := hint
  fed := by
    rw [fedIn_append, fedIn_int, deliveredIn_append, deliveredIn_int, List.append_nil,
      List.append_nil]
    exact h.fed
  plain more := by
    rw [fedIn_append, fedIn_int, consumedIn_append, consumedIn_int, List.append_nil,
      ← h.plain more, ← hbytes]
    simp only [List.append_assoc]

end InData

/-! ## A turn -/

namespace TlsPump
variable {SC : Type} [Observed SC] {clear : SC → List UInt8 → List UInt8} {sc₀ : SC}
  {past : List (TlsSessionEvent SC)} {p q : TlsPump SC} {x : Turn SC}

/-- Without an error before, all is processed, and all is read outside of the inner loop. -/
def ReadsAll (clear : SC → List UInt8 → List UInt8) (past : List (TlsSessionEvent SC)) :
    Turn SC → Prop
  | .inl p => inputFailedIn past = false →
      AllProcessed clear p.sc ∧ (p.phase = .main → (receiving p.sc).incoming = [])
  | .inr (p, rv) => inputFailedIn (past ++ [.engine (.returned rv)]) = false →
      AllProcessed clear p.sc ∧ (receiving p.sc).incoming = []

def Incoming (clear : SC → List UInt8 → List UInt8) (sc₀ : SC) (past : List (TlsSessionEvent SC))
    (x : Turn SC) : Prop :=
  InData clear sc₀ (x.state.trace past) x.state.sc x.state.ext x.state.int ∧
    ReadsAll clear past x

/-- A flush changes nothing of it. -/
theorem Incoming.flushExt (hp : p.phase = .main) (h : Incoming clear sc₀ past (.inl p))
    (hx : p.flushExt = .ret x) : Incoming clear sc₀ past x := by
  obtain ⟨hdata, hreads⟩ := h
  have hreads (hfailed : inputFailedIn past = false) :
      AllProcessed clear p.sc ∧ (receiving p.sc).incoming = [] :=
    ⟨(hreads hfailed).1, (hreads hfailed).2 hp⟩
  obtain ⟨ext, calls, flushes, hsteps, hstate⟩ := flushExt_steps hx
  have hfed : fedIn ((calls.map TlsEvent.call).map .engine : List (TlsSessionEvent SC)) = [] := by
    simp [fedIn, fedBy, List.flatMap_map]
  have hflushed := hdata.idle hfed (deliveredIn_engine _) (consumedIn_engine _) rfl
    (.flushSteps hsteps) (.refl _)
  refine ⟨?_, ?_⟩
  · rw [hstate]
    simpa [trace, Turn.state] using hflushed
  · have hsc : x.state.sc = p.sc := by rw [hstate]
    rcases x with q | ⟨q, rv⟩
    · intro hfailed
      have hsc : q.sc = p.sc := hsc
      rw [hsc]
      exact ⟨(hreads hfailed).1, fun _ => (hreads hfailed).2⟩
    · intro hfailed
      rw [inputFailedIn_append] at hfailed
      have hsc : q.sc = p.sc := hsc
      rw [hsc]
      exact hreads (Bool.or_eq_false_iff.mp hfailed).1

/-- A step of the outer loop that leaves the input alone. -/
theorem Incoming.aside (h : Incoming clear sc₀ past (.inl p)) (es : List (TlsEvent SC))
    (hevents : q.events = p.events ++ es) (hfed : fedIn (es.map .engine) = [])
    (hclear : clear q.sc = clear p.sc) (hrecv : receiving q.sc = receiving p.sc)
    (hphase : q.phase = p.phase) (hext : SameInput p.ext q.ext) (hint : SameInput p.int q.int) :
    Incoming clear sc₀ past (.inl q) := by
  obtain ⟨hdata, hreads⟩ := h
  refine ⟨?_, fun hfailed => ?_⟩
  · have hidle := hdata.idle hfed (deliveredIn_engine _) (consumedIn_engine _) hclear hext hint
    simpa [trace, Turn.state, hevents] using hidle
  · obtain ⟨hall, hmain⟩ := hreads hfailed
    rw [AllProcessed, hclear, hrecv, hphase]
    exact ⟨hall, hmain⟩

/-- The call returns. -/
theorem Incoming.returns (hp : p.phase = .main) (h : Incoming clear sc₀ past (.inl p))
    (rv : Answer) : Incoming clear sc₀ past (.inr (p, rv)) := by
  refine ⟨h.1, fun hfailed => ?_⟩
  rw [inputFailedIn_append] at hfailed
  obtain ⟨hall, hmain⟩ := h.2 (Bool.or_eq_false_iff.mp hfailed).1
  exact ⟨hall, hmain hp⟩

/-- Making space does not touch the bytes. -/
theorem Incoming.makespace {usizeMax n : Nat} (h : Incoming clear sc₀ past (.inl p))
    (hx : p.makespace usizeMax n = .ret x) : Incoming clear sc₀ past x := by
  obtain ⟨hdata, hreads⟩ := h
  obtain ⟨int, hint, hx⟩ := Exec.bind_eq_ret.mp hx
  cases hx
  obtain ⟨hunread, -⟩ := hdata.intUnread.inpMakespace_ret hint
  refine ⟨⟨hdata.extUnread, hunread.eq_unread ▸ hunread, hdata.fed, fun more => ?_⟩,
    fun hfailed => ⟨(hreads hfailed).1, Phase.noConfusion⟩⟩
  have hplain := hdata.plain more
  rw [← hunread.eq_unread] at hplain
  exact hplain

variable [ServerConnection SC]

/-- What the connection reads decides what there will be to read. -/
theorem readTls_clear (hclear : Deciphers SC clear) (hne : p.ext.rd ≠ p.ext.wr) {rv : Result Nat}
    {bytes : List UInt8} (hread : p.readTls = .ret (q, rv)) (hfeeds : Feeds p q bytes) :
    ∀ more, clear q.sc more = clear p.sc (bytes ++ more) := by
  have hevents := hfeeds.events
  unfold TlsPump.readTls at hread
  split at hread
  · cases hread
    simp at hevents
  · rename_i room k hk
    obtain ⟨⟨ext, read⟩, hio, hread⟩ := Exec.bind_eq_ret.mp hread
    obtain ⟨bytes', rfl⟩ := TcpStreamBuf.ioRead_ok hne hio
    cases hread
    have hbytes : bytes' = bytes := by simpa [log, Except.toOption] using hevents
    rw [← hbytes]
    exact hclear.readTls p.sc room k hk bytes'

theorem Incoming.writeTlsArm (hdoc : Documented SC) (hclear : Deciphers SC clear)
    (hp : p.phase = .main) (hw : wantsWrite p.sc = true) (h : Incoming clear sc₀ past (.inl p))
    (hx : p.writeTlsArm = .ret x) : Incoming clear sc₀ past x := by
  obtain ⟨chunk, sc, rest, heq, -, -, -, hrecv, rv, hsc⟩ := writeTlsArm_eq hdoc hw
  rw [heq] at hx
  have hwrote : Incoming clear sc₀ past (.inl (p.wrote chunk sc)) := by
    have hkept : clear sc = clear p.sc := hsc ▸ hclear.writeTls p.sc rv
    exact h.aside [.appended chunk] rfl rfl hkept hrecv rfl ⟨rfl, rfl, rfl, rfl⟩ (.refl _)
  refine Incoming.flushExt ?_ ?_ hx
  · rcases passOutEof_cases (p.wrote chunk sc) with heof | heof <;> rw [heof] <;> exact hp
  · rcases passOutEof_cases (p.wrote chunk sc) with heof | heof
    · rw [heof]
      exact hwrote
    · rw [heof]
      exact hwrote.aside [.outEof (p.wrote chunk sc).sc] rfl rfl rfl rfl rfl
        ⟨rfl, rfl, rfl, rfl⟩ (.refl _)

theorem Incoming.writerArm (hdoc : Documented SC) (hclear : Deciphers SC clear)
    (hp : p.phase = .main) (h : Incoming clear sc₀ past (.inl p)) (hx : p.writerArm = .ret x) :
    Incoming clear sc₀ past x := by
  have hkept := hclear.writerWrite p.sc p.int.out
  have hrecv := hdoc.writerWrite_receiving p.sc p.int.out
  unfold TlsPump.writerArm at hx
  split at hx
  · rename_i sc e hwrite
    rw [hwrite] at hkept hrecv
    cases hx
    have hnew : Incoming clear sc₀ past (.inl { p with sc := sc }) :=
      h.aside [] (List.append_nil _).symm rfl hkept hrecv rfl (.refl _) (.refl _)
    exact hnew.returns (p := { p with sc := sc }) hp _
  · rename_i sc len hwrite
    rw [hwrite] at hkept hrecv
    split at hx
    · cases hx
      exact h.aside [.taken (p.int.out.take len)] rfl rfl hkept hrecv rfl (.refl _)
        ⟨rfl, rfl, rfl, rfl⟩
    · cases hx

/-- A record read is a step further in the bytes of the peer. -/
theorem Incoming.readTlsArm (hdoc : Documented SC) (hclear : Deciphers SC clear)
    (hwants : wantsRead p.sc = true) (hne : p.ext.rd ≠ p.ext.wr)
    (h : Incoming clear sc₀ past (.inl p)) (hx : p.readTlsArm = .ret x) :
    Incoming clear sc₀ past x := by
  obtain ⟨hdata, -⟩ := h
  rcases readTlsArm_cases hdoc hne hx with ⟨e, rfl⟩ | ⟨q, rv, bytes, hread, hfeeds, hx⟩
  · refine ⟨hdata, fun hfailed => ?_⟩
    simp [inputFailedIn, isInputError] at hfailed
  obtain ⟨room, hio, hroom⟩ := hfeeds.ext
  obtain ⟨bytes', hbytes, -, hext, hsplit, -⟩ :=
    hdata.extUnread.ioRead_some hne (hroom hwants) hio
  cases hbytes
  have hfed : InData clear sc₀ (q.trace past) q.sc q.ext q.int := by
    have hfed := hdata.feed (readTls_clear hclear hne hread hfeeds) hext hsplit
    rw [hfeeds.int]
    simpa [trace, Turn.state, hfeeds.events] using hfed
  have hkept := hclear.processNewPackets_keeps q.sc
  have hnew : InData clear sc₀ (q.trace past) (processNewPackets q.sc).1 q.ext q.int := by
    have hidle : InData clear sc₀ (q.trace past ++ []) (processNewPackets q.sc).1 q.ext q.int :=
      hfed.idle rfl rfl rfl hkept (.refl _) (.refl _)
    rwa [List.append_nil] at hidle
  rcases hx with ⟨e, rfl⟩ | ⟨e, -, rfl⟩ | ⟨n, hn, rfl⟩
  · refine ⟨hfed, fun hfailed => ?_⟩
    simp [inputFailedIn, isInputError] at hfailed
  · refine ⟨hnew, fun hfailed => ?_⟩
    simp [inputFailedIn, isInputError] at hfailed
  · refine ⟨hnew, fun _ => ⟨(hclear.processNewPackets_ok q.sc n hn).symm, fun hmain => ?_⟩⟩
    obtain ⟨hlength, -⟩ := hdoc.processNewPackets_ok q.sc n hn
    have hnone : n = 0 := by
      by_contra hsome
      have hmain : (if 0 < n then Phase.makespace n else .main) = .main := hmain
      rw [if_pos (by omega)] at hmain
      cases hmain
    exact List.length_eq_zero_iff.mp (hlength.trans hnone)

/-- A turn of the inner loop moves plaintext from the connection to `int.inp`. -/
theorem Incoming.readOut {usizeMax : Nat} (hdoc : Documented SC) (hclear : Deciphers SC clear)
    (hp : p.phase = .readOut) (h : Incoming clear sc₀ past (.inl p))
    (hx : p.readOut usizeMax = .ret x) : Incoming clear sc₀ past x := by
  unfold TlsPump.readOut at hx
  split at hx
  · cases hx
  rename_i hwr
  split at hx
  · -- There is nothing to read, and the connection stays as it is.
    rename_i sc e hread
    obtain ⟨hnone, hrecv⟩ := hdoc.reader_error hread
    have hkept := hclear.readerRead_error _ _ _ e hread
    obtain ⟨hdata, hreads⟩ := h.aside (q := { p with sc := sc }) [] (List.append_nil _).symm rfl
      hkept hrecv rfl (.refl _) (.refl _)
    have hnone : (receiving sc).incoming = [] := by rw [hrecv, hnone]
    dsimp only at hx
    split at hx
    · cases hx
      exact ⟨hdata, fun hfailed => ⟨(hreads hfailed).1, fun _ => hnone⟩⟩
    · split at hx
      · cases hx
        exact ⟨hdata, hreads⟩
      · cases hx
        refine ⟨hdata, fun hfailed => ?_⟩
        rw [inputFailedIn_append] at hfailed
        exact ⟨(hreads (Bool.or_eq_false_iff.mp hfailed).1).1, hnone⟩
  · -- Nothing is read.
    rename_i sc hread
    obtain ⟨-, hsplit⟩ := hdoc.reader_ok hread
    have hkept := hclear.readerRead_ok _ _ _ [] hread
    obtain ⟨hdata, hreads⟩ := h
    cases hx
    refine ⟨?_, fun hfailed => ⟨(hreads hfailed).1.read (hkept []) hsplit, fun hmain => ?_⟩⟩
    · have hidle : InData clear sc₀ (p.trace past ++ []) sc p.ext p.int :=
        hdata.idle rfl rfl rfl (funext fun more => (hkept more).symm) (.refl _) (.refl _)
      rwa [List.append_nil] at hidle
    · cases hp.symm.trans hmain
  · rename_i sc bytes _ hread
    obtain ⟨hle, hsplit⟩ := hdoc.reader_ok hread
    have hkept := hclear.readerRead_ok _ _ _ bytes hread
    obtain ⟨hdata, hreads⟩ := h
    obtain ⟨wr, hadd, hx⟩ := Exec.bind_eq_ret.mp hx
    have hwr' := addUsize_ret hadd
    subst hwr'
    cases hx
    have hroom : p.int.wr + bytes.length ≤ p.int.inp.length := by
      have hroom : p.int.wr ≤ p.int.inp.length := Nat.le_of_not_lt hwr
      have hle : bytes.length ≤ p.int.inp.length - p.int.wr := hle
      omega
    have hint := hdata.intUnread.extend hroom
    refine ⟨?_, fun hfailed => ⟨(hreads hfailed).1.read (hkept []) hsplit, fun hmain => ?_⟩⟩
    · simpa [trace, log, Turn.state] using hdata.decode hkept hint
    · cases hp.symm.trans hmain

/-- **One turn.** -/
theorem Incoming.turn (hdoc : Documented SC) (hclear : Deciphers SC clear) {usizeMax : Nat}
    (h : Incoming clear sc₀ past (.inl p)) (hx : p.turn usizeMax = .ret x) :
    Incoming clear sc₀ past x := by
  unfold TlsPump.turn at hx
  split at hx
  · rename_i hphase
    have hspec := p.arm_spec
    cases harm : p.arm with
    | writeTls =>
      rw [harm] at hx hspec
      exact h.writeTlsArm hdoc hclear hphase hspec hx
    | writer =>
      rw [harm] at hx
      exact h.writerArm hdoc hclear hphase hx
    | closeNotify =>
      rw [harm] at hx
      cases hx
      exact h.aside [] (List.append_nil _).symm rfl (hclear.sendCloseNotify p.sc)
        (hdoc.sendCloseNotify p.sc).1 rfl (.refl _) (.refl _)
    | readTls =>
      rw [harm] at hx hspec
      exact h.readTlsArm hdoc hclear hspec.2.2.1 hspec.2.2.2 hx
    | leave =>
      rw [harm] at hx
      cases hx
      exact h.returns hphase _
  · exact h.makespace hx
  · rename_i hphase
    exact h.readOut hdoc hclear hphase hx

end TlsPump

/-! ## The connection without encryption -/

namespace NullConnection
variable {c d : NullConnection}

/-- What is added to `incoming` depends on the same fields. -/
theorem Alike.handle_incoming (h : Alike c d) (kind : UInt8) (payload : List UInt8) :
    ∃ plain, (c.handle kind payload).incoming = c.incoming ++ plain ∧
      (d.handle kind payload).incoming = d.incoming ++ plain := by
  have hsame : ∀ e : NullConnection, ∀ message, (e.handshake message).incoming = e.incoming := by
    intro e message
    unfold NullConnection.handshake
    split
    · rfl
    · rw [putPlain_frame]
    · rfl
    · rfl
  unfold NullConnection.handle
  rw [h.failed]
  split
  · exact ⟨[], (List.append_nil _).symm, (List.append_nil _).symm⟩
  · split
    · exact ⟨[], (hsame c _).trans (List.append_nil _).symm,
        (hsame d _).trans (List.append_nil _).symm⟩
    · split
      · exact ⟨payload, rfl, rfl⟩
      · split <;> exact ⟨[], (List.append_nil _).symm, (List.append_nil _).symm⟩

theorem Alike.receive_incoming (h : Alike c d) (byte : UInt8) :
    ∃ plain, (c.receive byte).incoming = c.incoming ++ plain ∧
      (d.receive byte).incoming = d.incoming ++ plain := by
  unfold NullConnection.receive
  rw [h.begun]
  dsimp only
  split
  · split
    · have halike : Alike { c with begun := [] } { d with begun := [] } := ⟨rfl, h.closed, h.failed⟩
      exact halike.handle_incoming _ _
    · exact ⟨[], (List.append_nil _).symm, (List.append_nil _).symm⟩
  · exact ⟨[], (List.append_nil _).symm, (List.append_nil _).symm⟩

theorem Alike.received_incoming (h : Alike c d) (bytes : List UInt8) :
    ∃ plain, (c.received bytes).incoming = c.incoming ++ plain ∧
      (d.received bytes).incoming = d.incoming ++ plain := by
  induction bytes generalizing c d with
  | nil => exact ⟨[], (List.append_nil _).symm, (List.append_nil _).symm⟩
  | cons byte bytes ih =>
    obtain ⟨first, hc, hd⟩ := h.receive_incoming byte
    obtain ⟨rest, hc', hd'⟩ := ih (h.receive byte)
    refine ⟨first ++ rest, ?_, ?_⟩
    · exact hc'.trans (by rw [hc, List.append_assoc])
    · exact hd'.trans (by rw [hd, List.append_assoc])

/-- What there will be to read after these bytes. -/
def clear (c : NullConnection) (bytes : List UInt8) : List UInt8 :=
  (c.received (c.fed ++ bytes)).incoming

theorem clear_eq (h : Alike c d) (hfed : c.fed = d.fed) (hinc : c.incoming = d.incoming) :
    clear c = clear d := by
  funext bytes
  obtain ⟨plain, hc, hd⟩ := h.received_incoming (c.fed ++ bytes)
  unfold clear
  rw [← hfed, hc, hd, hinc]

theorem deciphers : Deciphers NullConnection clear where
  writeTls c rv := by
    change clear (c.written rv).1 = clear c
    unfold written
    split
    · exact clear_eq ⟨rfl, rfl, rfl⟩ rfl rfl
    · rfl
  writerWrite c buf := by
    change clear (c.putPlain (c.accept buf)) = clear c
    rw [putPlain_frame]
    exact clear_eq ⟨rfl, rfl, rfl⟩ rfl rfl
  sendCloseNotify c := clear_eq ⟨rfl, rfl, rfl⟩ rfl rfl
  readTls c room k h bytes more := by
    cases h
    change ((c.read bytes).received (c.fed ++ bytes ++ more)).incoming =
      (c.received (c.fed ++ (bytes ++ more))).incoming
    have halike : Alike (c.read bytes) c := ⟨rfl, rfl, rfl⟩
    obtain ⟨plain, hread, hc⟩ := halike.received_incoming (c.fed ++ (bytes ++ more))
    rw [List.append_assoc, hread, hc]
    rfl
  processNewPackets_keeps c := by
    change clear c.processed = clear c
    funext more
    have halike : Alike c.processed (c.received c.fed) := ⟨rfl, rfl, rfl⟩
    obtain ⟨plain, hp, hc⟩ := halike.received_incoming more
    change (c.processed.received ([] ++ more)).incoming = (c.received (c.fed ++ more)).incoming
    rw [received_append c, List.nil_append, hp, hc]
    rfl
  processNewPackets_ok c n h := rfl
  readerRead_ok c c' len bytes h more := by
    unfold readerRead instServerConnection at h
    dsimp only at h
    split at h
    · cases h
      rfl
    · split at h
      · unfold emptyRead at h
        split at h <;> cases h
        rfl
      · cases h
        have halike : Alike { c with incoming := c.incoming.drop len } c := ⟨rfl, rfl, rfl⟩
        obtain ⟨plain, hrest, hall⟩ := halike.received_incoming (c.fed ++ more)
        change (c.received (c.fed ++ more)).incoming = c.incoming.take len ++
          ({ c with incoming := c.incoming.drop len }.received (c.fed ++ more)).incoming
        rw [hall, hrest, ← List.append_assoc, List.take_append_drop]
  readerRead_error c c' len e h := by
    unfold readerRead instServerConnection at h
    dsimp only at h
    split at h
    · cases h
    · split at h
      · unfold emptyRead at h
        split at h <;> cases h
        rfl
      · cases h

end NullConnection

/-! ## Whole runs -/

/-- Each side has its own buffer, and keeps what is promised of it. -/
def TlsOp.sound (usizeMax : Nat) {SC : Type} (s : TlsSession SC) : TlsOp → Bool
  | .process _ _ => true
  | .ext op => op.network && op.fits usizeMax ⟨s.ext, []⟩
  | .int op => op.uses && op.fits usizeMax ⟨s.int, []⟩

namespace TcpSession

/-- The application gets nothing from the stream. -/
theorem uses_unread {usizeMax : Nat} {b : TcpStreamBuf} {op : TcpOp} {t : TcpSession}
    (h : b.Unread b.unread) (hop : op.uses = true) (hfits : op.fits usizeMax ⟨b, []⟩ = true)
    (ht : step usizeMax ⟨b, []⟩ op = .ret t) :
    t.buf.Unread t.buf.unread ∧ TcpEvent.consumedIn t.trace ++ t.buf.unread = b.unread := by
  obtain ⟨hunread, hbytes⟩ := step_unread h hfits ht
  obtain ⟨-, hdelivered, -⟩ := uses_step hop ht
  rw [hdelivered, List.append_nil] at hbytes
  exact ⟨hunread, hbytes⟩

end TcpSession

namespace TlsSession
variable {SC : Type} [ServerConnection SC] [Observed SC] {clear : SC → List UInt8 → List UInt8}
  {sc₀ : SC} {usizeMax : Nat} {s t : TlsSession SC} {op : TlsOp}

structure Incoming (clear : SC → List UInt8 → List UInt8) (sc₀ : SC) (s : TlsSession SC)
    (sc : SC) : Prop where
  engine : s.engine.sc = some sc
  data : InData clear sc₀ s.trace sc s.ext s.int
  reads : inputFailedIn s.trace = false →
    AllProcessed clear sc ∧ (receiving sc).incoming = []

theorem Incoming.step (hdoc : Documented SC) (hclear : Deciphers SC clear) {sc : SC}
    (h : s.Incoming clear sc₀ sc) (hop : op.sound usizeMax s = true)
    (ht : s.step usizeMax op = .ret t) : ∃ sc', t.Incoming clear sc₀ sc' := by
  obtain ⟨hsc, hdata, hreads⟩ := h
  cases op with
  | process fuel outcomes =>
    have hstart : TlsPump.Incoming clear sc₀ s.trace
        (.inl (s.engine.pump sc s.ext s.int outcomes)) := by
      have htrace : (s.engine.pump sc s.ext s.int outcomes).trace s.trace = s.trace :=
        List.append_nil _
      refine ⟨?_, fun hfailed => ⟨(hreads hfailed).1, fun _ => (hreads hfailed).2⟩⟩
      dsimp only [TlsPump.Turn.state]
      rw [htrace]
      exact hdata
    obtain ⟨p, rv, ⟨hp, hall⟩, rfl⟩ := step_process hsc
      (I := TlsPump.Incoming clear sc₀ s.trace) (P := fun _ => True)
      (fun p x hi _ hx => hi.turn hdoc hclear hx) (fun _ _ _ _ => trivial) hstart ht
    refine ⟨p.sc, rfl, hp.idle rfl rfl rfl rfl (.refl _) (.refl _), fun hfailed => ?_⟩
    refine hall ?_
    simp only [TlsPump.trace, inputFailedIn_append, Bool.or_eq_false_iff] at hfailed ⊢
    exact ⟨hfailed.1.1, hfailed.2⟩
  | ext op =>
    obtain ⟨hnetwork, hfits⟩ := Bool.and_eq_true_iff.mp hop
    obtain ⟨u, hu, ht⟩ := Exec.bind_eq_ret.mp ht
    cases ht
    obtain ⟨hunread, hbytes⟩ := TcpSession.step_unread hdata.extUnread hfits hu
    rw [TcpSession.network_consumed hnetwork hu, List.nil_append] at hbytes
    refine ⟨sc, hsc, hdata.deliver hunread hbytes, fun hfailed => hreads ?_⟩
    simpa using hfailed
  | int op =>
    obtain ⟨huses, hfits⟩ := Bool.and_eq_true_iff.mp hop
    obtain ⟨u, hu, ht⟩ := Exec.bind_eq_ret.mp ht
    cases ht
    obtain ⟨hunread, hbytes⟩ := TcpSession.uses_unread hdata.intUnread huses hfits hu
    refine ⟨sc, hsc, hdata.consume hunread hbytes, fun hfailed => hreads ?_⟩
    simpa using hfailed

/-- **What comes in is what was sent.** After every run the connection has been fed what the
stream delivered, in order, but for what is unread in `ext`; and what the application has
read, with what waits for it in `int`, is the beginning of the plaintext in that. While no
call has failed on the input, it is all of it. -/
theorem input_in_order (hdoc : Documented SC) (clear : SC → List UInt8 → List UInt8)
    (hclear : Deciphers SC clear) (usizeMax : Nat) (sc₀ : SC) (hfresh : Fresh sc₀)
    (hnone : clear sc₀ [] = []) (ops : List TlsOp)
    (hops : Meets (step usizeMax) (fun s op => op.sound usizeMax s = true) (start sc₀) ops)
    (s : TlsSession SC) (hrun : (start sc₀).runs usizeMax ops = .ret s) :
    fedIn s.trace ++ s.ext.unread = deliveredIn s.trace ∧
      consumedIn s.trace ++ s.int.unread <+: clear sc₀ (fedIn s.trace) ∧
      (inputFailedIn s.trace = false →
        consumedIn s.trace ++ s.int.unread = clear sc₀ (fedIn s.trace)) := by
  have hstart : ∃ sc, (start sc₀).Incoming clear sc₀ sc := by
    have hnil : Unread TcpStreamBuf.new [] := ⟨Nat.le_refl _, Nat.le_refl _, rfl⟩
    refine ⟨sc₀, rfl, ⟨hnil, hnil, rfl, fun _ => rfl⟩, fun _ => ⟨?_, hfresh.incoming⟩⟩
    exact hnone.trans hfresh.incoming.symm
  obtain ⟨sc, h⟩ := hops.invariant (I := fun s => ∃ sc, s.Incoming clear sc₀ sc)
    (fun s op t ⟨sc, hs⟩ hop ht => hs.step hdoc hclear hop ht) hstart hrun
  have hplain := h.data.plain []
  rw [List.append_nil] at hplain
  refine ⟨h.data.fed, ⟨clear sc [], hplain⟩, fun hfailed => ?_⟩
  obtain ⟨hall, hincoming⟩ := h.reads hfailed
  rw [← hplain, hall.trans hincoming, List.append_nil]

/-- A run in which two records come in three pieces, and the application reads in between. -/
def receiveOps : List TlsOp :=
  handshakeOps ++ [.ext (.read 64 0 [.ok [23, 3, 3, 0]]), .process 8 {},
    .ext (.read 64 0 [.ok [2, 7, 8, 23, 3]]), .process 8 { spares := [4] }, .int (.ioRead 1),
    .ext (.read 64 0 [.ok [3, 0, 1, 9]]), .process 8 {}]

theorem input_in_order_sample : ∃ s,
    (start ({} : NullConnection)).runs 1000 receiveOps = .ret s ∧
      fedIn s.trace ++ s.ext.unread = deliveredIn s.trace ∧
      consumedIn s.trace ++ s.int.unread <+: NullConnection.clear {} (fedIn s.trace) ∧
      (inputFailedIn s.trace = false →
        consumedIn s.trace ++ s.int.unread = NullConnection.clear {} (fedIn s.trace)) := by
  obtain ⟨s, hs⟩ := Exec.exists_ret
    (x := (start ({} : NullConnection)).runs 1000 receiveOps) (by decide +kernel)
  exact ⟨s, hs, input_in_order NullConnection.documented NullConnection.clear
    NullConnection.deciphers 1000 {} NullConnection.fresh rfl receiveOps (by decide +kernel) s hs⟩

end TlsSession
end StakkerMio
