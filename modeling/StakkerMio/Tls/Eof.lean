import Mathlib.Data.Prod.Lex
import StakkerMio.Tcp.Input
import StakkerMio.Tls.NullConnection
import StakkerMio.Tls.Turns

/-! # The end of the input under TLS

As long as the peer has sent no close_notify and `ext.inp_eof` is not set, and no
batch of plaintext fills the space made for it to the last byte, `process` comes to
an end and answers that the input goes on, however the peer's bytes are cut up. -/
namespace StakkerMio
open Lib ServerConnection Observed TcpStreamBuf

namespace TlsSessionEvent
variable {SC : Type}

/-- The bytes the connection read. -/
def fedBy : TlsSessionEvent SC → List UInt8
  | .engine (.fed bytes) => bytes
  | _ => []

/-- The bytes the stream of `ext` delivered; `process` does not read from it. -/
def deliveredBy : TlsSessionEvent SC → List UInt8
  | .ext e => e.deliveredBy
  | _ => []

def fedIn (tr : List (TlsSessionEvent SC)) : List UInt8 := tr.flatMap fedBy

def deliveredIn (tr : List (TlsSessionEvent SC)) : List UInt8 := tr.flatMap deliveredBy

/-- No call has failed with an error of the TLS stream. -/
def Unfailed (tr : List (TlsSessionEvent SC)) : Prop :=
  ∀ e, .engine (.returned (.error (.stream e))) ∉ tr

variable {tr es : List (TlsSessionEvent SC)}

@[simp] theorem fedIn_append : fedIn (tr ++ es) = fedIn tr ++ fedIn es := List.flatMap_append

@[simp] theorem deliveredIn_append :
    deliveredIn (tr ++ es) = deliveredIn tr ++ deliveredIn es := List.flatMap_append

@[simp] theorem fedIn_ext (es : List TcpEvent) :
    fedIn (es.map (.ext : TcpEvent → TlsSessionEvent SC)) = [] := by
  simp [fedIn, List.flatMap_map, fedBy]

@[simp] theorem fedIn_int (es : List TcpEvent) :
    fedIn (es.map (.int : TcpEvent → TlsSessionEvent SC)) = [] := by
  simp [fedIn, List.flatMap_map, fedBy]

@[simp] theorem deliveredIn_ext (es : List TcpEvent) :
    deliveredIn (es.map (.ext : TcpEvent → TlsSessionEvent SC)) = TcpEvent.deliveredIn es := by
  simp [deliveredIn, List.flatMap_map, deliveredBy, TcpEvent.deliveredIn]

@[simp] theorem deliveredIn_int (es : List TcpEvent) :
    deliveredIn (es.map (.int : TcpEvent → TlsSessionEvent SC)) = [] := by
  simp [deliveredIn, List.flatMap_map, deliveredBy]

@[simp] theorem deliveredIn_engine (es : List (TlsEvent SC)) :
    deliveredIn (es.map .engine) = [] := by
  simp [deliveredIn, List.flatMap_map, deliveredBy]

theorem Unfailed.left (h : Unfailed (tr ++ es)) : Unfailed tr :=
  fun e he => h e (List.mem_append_left _ he)

end TlsSessionEvent

open TlsSessionEvent

/-- The end of input as it should be reported. -/
def eofOf (closed inpEof : Bool) : Option TlsEof :=
  if closed then some .close else if inpEof then some .abort else none

/-! ## What a turn needs and what it keeps -/

namespace TcpStreamBuf
variable {b b' : TcpStreamBuf} {u : List UInt8}

theorem Unread.eq_unread (h : b.Unread u) : b.unread = u := h.bytes

/-- A read from a buffer that is not empty takes bytes from the front. -/
theorem Unread.ioRead_some (h : b.Unread b.unread) (hne : b.rd ≠ b.wr) {len : Nat}
    (hlen : 0 < len) {rv : Result (List UInt8)} (hr : b.ioRead len = .ret (b', rv)) :
    ∃ bytes, rv = .ok bytes ∧ bytes ≠ [] ∧ b'.Unread b'.unread ∧ bytes ++ b'.unread = b.unread ∧
      b'.inpEof = b.inpEof := by
  have hrd := h.rd_le
  have hwr := h.wr_le
  unfold TcpStreamBuf.ioRead at hr
  rw [if_neg (Ne.symm hne), if_neg (by omega)] at hr
  dsimp only at hr
  rw [if_pos (by omega)] at hr
  cases hr
  obtain ⟨u', hu', heq⟩ := h.consume (n := min len (b.wr - b.rd)) (by omega)
  have hunread : TcpStreamBuf.unread { b with rd := b.rd + min len (b.wr - b.rd) } = u' := hu'.bytes
  refine ⟨_, rfl, List.ne_nil_of_length_pos ?_, hunread ▸ hu', hunread ▸ heq, rfl⟩
  rw [Window.slice_length (by omega)]
  omega

/-- The input side is the same. -/
structure SameInput (b b' : TcpStreamBuf) : Prop where
  inp : b'.inp = b.inp
  inpEof : b'.inpEof = b.inpEof
  rd : b'.rd = b.rd
  wr : b'.wr = b.wr

theorem SameInput.refl (b : TcpStreamBuf) : SameInput b b := ⟨rfl, rfl, rfl, rfl⟩

theorem SameInput.trans {b'' : TcpStreamBuf} (h : SameInput b b') (h' : SameInput b' b'') :
    SameInput b b'' :=
  ⟨h'.inp.trans h.inp, h'.inpEof.trans h.inpEof, h'.rd.trans h.rd, h'.wr.trans h.wr⟩

theorem SameInput.unread (h : SameInput b b') : b'.unread = b.unread := by
  unfold TcpStreamBuf.unread
  rw [h.inp, h.rd, h.wr]

theorem SameInput.keeps (h : SameInput b b') (hb : b.Unread b.unread) : b'.Unread b'.unread := by
  refine ⟨?_, ?_, rfl⟩
  · rw [h.rd, h.wr]
    exact hb.rd_le
  · rw [h.wr, h.inp]
    exact hb.wr_le

theorem SameInput.flushSteps {calls : List StreamCall} (h : Steps FlushStep b calls b') :
    SameInput b b' :=
  h.keeps (I := SameInput b) (fun _ _ _ hs hc => by
    obtain ⟨hi, he, hr, hw⟩ := hs
    cases hc <;> exact ⟨hi, he, hr, hw⟩) (.refl b)

end TcpStreamBuf

variable {SC : Type} [Observed SC]

/-- What is in the buffers and what the connection has seen, for the trace that led
there. Without a failure, a close_notify is to come where the bytes contain it. -/
structure TlsInputInv (sc₀ : SC) (tr : List (TlsSessionEvent SC)) (sc : SC)
    (inpEof : Option TlsEof) (ext int : TcpStreamBuf) : Prop where
  extUnread : ext.Unread ext.unread
  intUnread : int.Unread int.unread
  bytes : fedIn tr ++ ext.unread = deliveredIn tr
  sawEof : (receiving sc).sawEof = false
  inpEof : inpEof = none
  closes : Unfailed tr → ∀ more,
    (receiving sc).closes more = (receiving sc₀).closes (fedIn tr ++ more)

namespace TlsInputInv
variable {sc₀ sc sc' : SC} {tr : List (TlsSessionEvent SC)} {inpEof : Option TlsEof}
  {ext ext' int int' : TcpStreamBuf}

/-- Nothing that matters changes. -/
theorem frame (h : TlsInputInv sc₀ tr sc inpEof ext int) (es : List (TlsSessionEvent SC))
    (hfed : fedIn es = []) (hdel : deliveredIn es = []) (hrecv : receiving sc' = receiving sc)
    (hext : SameInput ext ext') (hint : int'.Unread int'.unread) :
    TlsInputInv sc₀ (tr ++ es) sc' inpEof ext' int' where
  extUnread := hext.keeps h.extUnread
  intUnread := hint
  bytes := by
    rw [fedIn_append, deliveredIn_append, hfed, hdel, hext.unread, List.append_nil, List.append_nil]
    exact h.bytes
  sawEof := hrecv ▸ h.sawEof
  inpEof := h.inpEof
  closes hun more := by
    rw [hrecv, fedIn_append, hfed, List.append_nil]
    exact h.closes hun.left more

/-- The connection reads from `ext`. -/
theorem feed (h : TlsInputInv sc₀ tr sc inpEof ext int) {bytes : List UInt8} (hbytes : bytes ≠ [])
    (hrecv : receiving sc' = (receiving sc).feed bytes) (hext : ext'.Unread ext'.unread)
    (happend : bytes ++ ext'.unread = ext.unread) :
    TlsInputInv sc₀ (tr ++ [.engine (.fed bytes)]) sc' inpEof ext' int where
  extUnread := hext
  intUnread := h.intUnread
  bytes := by
    have hdel : deliveredIn ([.engine (.fed bytes)] : List (TlsSessionEvent SC)) = [] := rfl
    rw [fedIn_append, deliveredIn_append, hdel, ← h.bytes, ← happend]
    simp [fedIn, fedBy]
  sawEof := by
    rw [hrecv, Receiving.feed, h.sawEof]
    simpa using hbytes
  inpEof := h.inpEof
  closes hun more := by
    rw [hrecv, fedIn_append]
    have hmore := h.closes hun.left (bytes ++ more)
    simpa [Receiving.feed, fedIn, fedBy] using hmore

/-- The connection looks at what it has read. -/
theorem process (h : TlsInputInv sc₀ tr sc inpEof ext int) (es : List (TlsSessionEvent SC))
    (hsaw : (receiving sc').sawEof = (receiving sc).sawEof)
    (hcloses : Unfailed (tr ++ es) → (receiving sc').closes = (receiving sc).closes)
    (hfed : fedIn es = []) (hdel : deliveredIn es = []) :
    TlsInputInv sc₀ (tr ++ es) sc' inpEof ext int where
  extUnread := h.extUnread
  intUnread := h.intUnread
  bytes := by
    rw [fedIn_append, deliveredIn_append, hfed, hdel, List.append_nil, List.append_nil]
    exact h.bytes
  sawEof := hsaw.trans h.sawEof
  inpEof := h.inpEof
  closes hun more := by
    rw [hcloses hun, fedIn_append, hfed, List.append_nil]
    exact h.closes hun.left more

end TlsInputInv

namespace TlsPump
variable {sc₀ : SC} {past : List (TlsSessionEvent SC)} {p q : TlsPump SC}

/-- Nothing that is there to be read ends the input. -/
structure GoesOn (p : TlsPump SC) : Prop where
  inpEof : p.ext.inpEof = false
  closes : (receiving p.sc).closes p.ext.unread = false

/-- The batch of plaintext that is being read out. -/
def Batch (usizeMax : Nat) (p : TlsPump SC) : Prop :=
  match p.phase with
  | .main => True
  | .makespace n => (receiving p.sc).incoming.length = n
  | .readOut => p.int.wr + (receiving p.sc).incoming.length ≤ usizeMax ∧
      p.int.wr + (receiving p.sc).incoming.length ≤ p.int.inp.length

/-- The invariant at the start of a turn and when the call has returned. -/
def InputInv (usizeMax : Nat) (sc₀ : SC) (past : List (TlsSessionEvent SC)) : Turn SC → Prop
  | .inl p => TlsInputInv sc₀ (p.trace past) p.sc p.inpEof p.ext p.int ∧ p.GoesOn ∧
      p.Batch usizeMax
  | .inr (p, rv) => TlsInputInv sc₀ (p.trace past ++ [.engine (.returned rv)]) p.sc p.inpEof
      p.ext p.int ∧ p.GoesOn ∧ ∀ eof, rv = .ok eof → eof = none

/-- A measure: unread bytes of `ext`; then output that the application left and its
EOF; then output of the connection; then plaintext to be read out. -/
def measure (p : TlsPump SC) : Nat × Nat × Nat × Nat :=
  (p.ext.wr - p.ext.rd, p.int.out.length + (!p.sentOutEof).toNat,
    (sending p.sc).pending.length,
    match p.phase with
    | .main => 0
    | .makespace n => n + 2
    | .readOut => (receiving p.sc).incoming.length + 1)

def Less (q p : TlsPump SC) : Prop :=
  Prod.Lex (· < ·) (Prod.Lex (· < ·) (Prod.Lex (· < ·) (· < ·))) q.measure p.measure

theorem less_wf : @WellFounded (TlsPump SC) Less :=
  InvImage.wf measure (WellFounded.prod_lex Nat.lt_wfRel.wf
    (WellFounded.prod_lex Nat.lt_wfRel.wf (WellFounded.prod_lex Nat.lt_wfRel.wf Nat.lt_wfRel.wf)))

/-- How a turn fares: it waits for the stream, goes on below, or the call returns. -/
inductive Fares (usizeMax : Nat) (sc₀ : SC) (past : List (TlsSessionEvent SC)) (p : TlsPump SC) :
    Exec (Turn SC) → Prop
  | wait : Fares usizeMax sc₀ past p .wait
  | goOn (q : TlsPump SC) : InputInv usizeMax sc₀ past (.inl q) → Less q p →
      Fares usizeMax sc₀ past p (.ret (.inl q))
  | stop (q : TlsPump SC) (rv : Answer) : InputInv usizeMax sc₀ past (.inr (q, rv)) →
      Fares usizeMax sc₀ past p (.ret (.inr (q, rv)))

theorem Fares.over {usizeMax : Nat} {y : Exec (Turn SC)} (h : Fares usizeMax sc₀ past p y) :
    y.Over := by
  cases h with
  | wait => exact .inl rfl
  | goOn => exact .inr ⟨_, rfl⟩
  | stop => exact .inr ⟨_, rfl⟩

theorem Fares.inv {usizeMax : Nat} {x : Turn SC} (h : Fares usizeMax sc₀ past p (.ret x)) :
    InputInv usizeMax sc₀ past x := by
  cases h with
  | goOn q hq _ => exact hq
  | stop q rv hq => exact hq

theorem Fares.less {usizeMax : Nat} (h : Fares usizeMax sc₀ past p (.ret (.inl q))) : Less q p := by
  cases h with
  | goOn _ _ hless => exact hless

/-- Nothing was read, neither from `ext` nor into `int`. -/
structure KeepsInput (p q : TlsPump SC) : Prop where
  receiving : receiving q.sc = receiving p.sc
  ext : SameInput p.ext q.ext
  int : SameInput p.int q.int
  inpEof : q.inpEof = p.inpEof
  phase : q.phase = p.phase
  events : ∃ es, q.events = p.events ++ es ∧ fedIn (es.map .engine) = []

theorem KeepsInput.trans {r : TlsPump SC} (h : KeepsInput p q) (h' : KeepsInput q r) :
    KeepsInput p r := by
  obtain ⟨es, hes, hfed⟩ := h.events
  obtain ⟨es', hes', hfed'⟩ := h'.events
  refine ⟨h'.receiving.trans h.receiving, h.ext.trans h'.ext, h.int.trans h'.int,
    h'.inpEof.trans h.inpEof, h'.phase.trans h.phase, es ++ es', ?_, ?_⟩
  · rw [hes', hes, List.append_assoc]
  · rw [List.map_append, fedIn_append, hfed, hfed', List.append_nil]

theorem KeepsInput.flushExt {x : Turn SC} (hx : p.flushExt = .ret x) : KeepsInput p x.state := by
  obtain ⟨ext, calls, flushes, hsteps, hstate⟩ := flushExt_steps hx
  rw [hstate]
  refine ⟨rfl, .flushSteps hsteps, .refl _, rfl, rfl, calls.map .call, rfl, ?_⟩
  simp [fedIn, List.flatMap_map, fedBy]

variable [ServerConnection SC]

theorem KeepsInput.passOutEof (p : TlsPump SC) : KeepsInput p p.passOutEof := by
  rcases passOutEof_cases p with h | h <;> rw [h]
  · exact ⟨rfl, .refl _, .refl _, rfl, rfl, [], (List.append_nil _).symm, rfl⟩
  · exact ⟨rfl, ⟨rfl, rfl, rfl, rfl⟩, .refl _, rfl, rfl, [.outEof p.sc], rfl, rfl⟩

/-- At the start of a turn: `Writer::write` accepts something, a batch of plaintext
does not fill the space that is left, the sums fit, and the stream accepts no more
than it is passed. -/
def ReadsOn (usizeMax : Nat) (p : TlsPump SC) : Prop :=
  match p.phase with
  | .main => (p.arm = .writer → (writerWrite p.sc p.int.out).2 ≠ .ok 0) ∧
      (p.arm = .writeTls → p.writeTlsArm ≠ .panic)
  | .makespace n => p.int.wr + n ≤ usizeMax ∧ n * 2 ≤ usizeMax
  | .readOut => p.int.wr + (receiving p.sc).incoming.length ≠ p.int.inp.length

instance (usizeMax : Nat) (p : TlsPump SC) : Decidable (p.ReadsOn usizeMax) := by
  unfold ReadsOn
  split <;> infer_instance

omit [ServerConnection SC] in
theorem less_iff : Less q p ↔ q.measure.1 < p.measure.1 ∨ q.measure.1 = p.measure.1 ∧
    (q.measure.2.1 < p.measure.2.1 ∨ q.measure.2.1 = p.measure.2.1 ∧
      (q.measure.2.2.1 < p.measure.2.2.1 ∨ q.measure.2.2.1 = p.measure.2.2.1 ∧
        q.measure.2.2.2 < p.measure.2.2.2)) := by
  simp only [Less, Prod.lex_def]

omit [ServerConnection SC] in
/-- The call goes on or fails in the outer loop, with nothing read. -/
theorem KeepsInput.inv {usizeMax : Nat} (hk : KeepsInput p q)
    (h : InputInv usizeMax sc₀ past (.inl p)) (hp : p.phase = .main) :
    InputInv usizeMax sc₀ past (.inl q) ∧ ∀ e, InputInv usizeMax sc₀ past (.inr (q, .error e)) := by
  obtain ⟨hinv, hgoes, hbatch⟩ := h
  obtain ⟨es, hes, hfed⟩ := hk.events
  have hint := hk.int.keeps hinv.intUnread
  have htrace : q.trace past = p.trace past ++ es.map .engine := by
    rw [trace, hes, List.map_append, ← List.append_assoc]
    rfl
  have hframe := hinv.frame (es.map .engine) hfed (deliveredIn_engine es) hk.receiving hk.ext hint
  rw [← htrace, ← hk.inpEof] at hframe
  have hon : q.GoesOn :=
    ⟨hk.ext.inpEof.trans hgoes.inpEof, by rw [hk.receiving, hk.ext.unread]; exact hgoes.closes⟩
  refine ⟨⟨hframe, hon, ?_⟩, fun e => ⟨?_, hon, by simp⟩⟩
  · unfold Batch
    rw [hk.phase, hp]
    trivial
  · exact hframe.frame [.engine (.returned (.error e))] rfl rfl rfl (.refl _) hint

omit [ServerConnection SC] in
theorem measure_flushExt {x : Turn SC} (hx : p.flushExt = .ret x) :
    x.state.measure = p.measure := by
  obtain ⟨ext, calls, flushes, hsteps, hstate⟩ := flushExt_steps hx
  have hext := SameInput.flushSteps hsteps
  rw [hstate]
  simp only [measure, hext.rd, hext.wr]

theorem measure_passOutEof (p : TlsPump SC) : p.passOutEof.measure = p.measure := by
  rcases passOutEof_cases p with h | h <;> rw [h]
  rfl

omit [Observed SC] [ServerConnection SC] in
theorem unread_length {b : TcpStreamBuf} (h : b.Unread b.unread) :
    b.unread.length = b.wr - b.rd :=
  Window.slice_length h.wr_le

/-! ### A turn of the outer loop that goes on descends -/

theorem less_writeTls (hdoc : Documented SC) (hw : wantsWrite p.sc = true)
    (hq : p.writeTlsArm = .ret (.inl q)) : Less q p := by
  obtain ⟨chunk, sc', rest, heq, hchunk, hpend, hsend, -⟩ := writeTlsArm_eq hdoc hw
  rw [heq] at hq
  have hmeasure : q.measure = (p.wrote chunk sc').measure :=
    (measure_flushExt hq).trans (measure_passOutEof _)
  have hless : (p.wrote chunk sc').Less p := by
    refine less_iff.mpr (.inr ⟨rfl, .inr ⟨rfl, .inl ?_⟩⟩)
    change (sending sc').pending.length < (sending p.sc).pending.length
    have hpos := List.length_pos_of_ne_nil hchunk
    rw [hsend, hpend, List.length_append]
    dsimp only
    omega
  unfold Less at hless ⊢
  rwa [hmeasure]

theorem less_writer (hsome : (writerWrite p.sc p.int.out).2 ≠ .ok 0)
    (hq : p.writerArm = .ret (.inl q)) : Less q p := by
  unfold TlsPump.writerArm at hq
  split at hq
  · cases hq
  · rename_i sc' len hwrite
    rw [hwrite] at hsome
    have hlen : len ≠ 0 := fun hz => hsome (by rw [hz])
    split at hq
    · cases hq
      refine less_iff.mpr (.inr ⟨rfl, .inl ?_⟩)
      change (p.int.out.drop len).length + (!p.sentOutEof).toNat <
        p.int.out.length + (!p.sentOutEof).toNat
      rw [List.length_drop]
      omega
    · cases hq

theorem less_closeNotify (hsent : p.sentOutEof = false)
    (hq : p.closeNotifyArm = .ret (.inl q)) : Less q p := by
  cases hq
  refine less_iff.mpr (.inr ⟨rfl, .inl ?_⟩)
  simp [measure, hsent]

theorem less_readTls (hdoc : Documented SC) (hu : p.ext.Unread p.ext.unread)
    (hwants : wantsRead p.sc = true) (hne : p.ext.rd ≠ p.ext.wr)
    (hq : p.readTlsArm = .ret (.inl q)) :
    q.ext.Unread q.ext.unread ∧ q.measure.1 < p.measure.1 := by
  rcases readTlsArm_cases hdoc hne hq with ⟨e, hx⟩ |
    ⟨r, rv, bytes, -, hfeeds, ⟨e, hx⟩ | ⟨e, -, hx⟩ | ⟨n, -, hx⟩⟩
  · cases hx
  · cases hx
  · cases hx
  · cases hx
    obtain ⟨room, hio, hroom⟩ := hfeeds.ext
    obtain ⟨_, hok, hbytes, hunread, happend, -⟩ := hu.ioRead_some hne (hroom hwants) hio
    cases hok
    refine ⟨hunread, ?_⟩
    change r.ext.wr - r.ext.rd < p.ext.wr - p.ext.rd
    rw [← unread_length hunread, ← unread_length hu, ← happend, List.length_append]
    have hpos := List.length_pos_of_ne_nil hbytes
    omega

/-! ### How a turn fares -/

theorem fares_writeTls (hdoc : Documented SC) {usizeMax : Nat}
    (h : InputInv usizeMax sc₀ past (.inl p)) (hp : p.phase = .main) (hw : wantsWrite p.sc = true)
    (hpanic : p.writeTlsArm ≠ .panic) : Fares usizeMax sc₀ past p p.writeTlsArm := by
  obtain ⟨chunk, sc', rest, heq, -, -, -, hrecv, -⟩ := writeTlsArm_eq hdoc hw
  have hwrote : KeepsInput p (p.wrote chunk sc') :=
    ⟨hrecv, ⟨rfl, rfl, rfl, rfl⟩, .refl _, rfl, rfl, [.appended chunk], rfl, rfl⟩
  have hpass := hwrote.trans (.passOutEof _)
  rw [heq] at hpanic ⊢
  rcases flushExt_cases hpanic with hwait | ⟨q, hq | ⟨e, hq⟩⟩
  · rw [hwait]
    exact .wait
  · have hless := less_writeTls hdoc hw (heq.trans hq)
    rw [hq]
    exact .goOn q ((hpass.trans (.flushExt hq)).inv h hp).1 hless
  · rw [hq]
    exact .stop q _ (((hpass.trans (.flushExt hq)).inv h hp).2 _)

theorem fares_writer (hdoc : Documented SC) {usizeMax : Nat}
    (h : InputInv usizeMax sc₀ past (.inl p)) (hp : p.phase = .main)
    (hsome : (writerWrite p.sc p.int.out).2 ≠ .ok 0) : Fares usizeMax sc₀ past p p.writerArm := by
  have hless := fun q => less_writer (q := q) hsome
  unfold TlsPump.writerArm at hless ⊢
  split
  · rename_i sc' e hwrite
    have hrecv : receiving sc' = receiving p.sc := by
      rw [← hdoc.writerWrite_receiving p.sc p.int.out, hwrite]
    have hk : KeepsInput p { p with sc := sc' } :=
      ⟨hrecv, .refl _, .refl _, rfl, rfl, [], (List.append_nil _).symm, rfl⟩
    exact .stop _ _ ((hk.inv h hp).2 _)
  · rename_i sc' len hwrite
    obtain ⟨hle, -⟩ := hdoc.writerWrite_ok p.sc p.int.out len (by rw [hwrite])
    have hrecv : receiving sc' = receiving p.sc := by
      rw [← hdoc.writerWrite_receiving p.sc p.int.out, hwrite]
    rw [hwrite] at hless
    dsimp only at hless
    rw [if_pos hle] at hless ⊢
    have hk : KeepsInput p ({ p with
        sc := sc'
        int := { p.int with out := p.int.out.drop len } }.log (.taken (p.int.out.take len))) :=
      ⟨hrecv, .refl _, ⟨rfl, rfl, rfl, rfl⟩, rfl, rfl, [.taken (p.int.out.take len)], rfl, rfl⟩
    exact .goOn _ (hk.inv h hp).1 (hless _ rfl)

theorem fares_closeNotify (hdoc : Documented SC) {usizeMax : Nat}
    (h : InputInv usizeMax sc₀ past (.inl p)) (hp : p.phase = .main)
    (hsent : p.sentOutEof = false) : Fares usizeMax sc₀ past p p.closeNotifyArm := by
  have hk : KeepsInput p { p with sc := sendCloseNotify p.sc, sentOutEof := true } :=
    ⟨(hdoc.sendCloseNotify p.sc).1, .refl _, .refl _, rfl, rfl, [], (List.append_nil _).symm, rfl⟩
  exact .goOn _ (hk.inv h hp).1 (less_closeNotify hsent rfl)

omit [Observed SC] in
/-- Reading from a buffer never panics. -/
theorem readTlsArm_ret {u : List UInt8} (hu : p.ext.Unread u) : ∃ x, p.readTlsArm = .ret x := by
  have hread : ∃ r, p.readTls = .ret r := by
    unfold TlsPump.readTls
    split
    · exact ⟨_, rfl⟩
    · rename_i room next _
      obtain ⟨ext, rv, -, hret, -⟩ := hu.ioRead room
      rw [hret]
      exact ⟨_, rfl⟩
  obtain ⟨⟨q, rv⟩, hread⟩ := hread
  unfold TlsPump.readTlsArm
  rw [hread]
  cases rv with
  | error e => exact ⟨_, rfl⟩
  | ok _ =>
    dsimp only [Exec.ret_bind]
    split <;> exact ⟨_, rfl⟩

theorem fares_readTls (hdoc : Documented SC) {usizeMax : Nat}
    (h : InputInv usizeMax sc₀ past (.inl p)) (hp : p.phase = .main)
    (hwants : wantsRead p.sc = true) (hne : p.ext.rd ≠ p.ext.wr) :
    Fares usizeMax sc₀ past p p.readTlsArm := by
  obtain ⟨hinv, hgoes, -⟩ := id h
  obtain ⟨x, hx⟩ := readTlsArm_ret hinv.extUnread
  have hread := hx
  rw [hx]
  rcases readTlsArm_cases hdoc hne hx with ⟨e, rfl⟩ | ⟨q, rv, bytes, -, hfeeds, hx⟩
  · have hk : KeepsInput p p :=
      ⟨rfl, .refl _, .refl _, rfl, rfl, [], (List.append_nil _).symm, rfl⟩
    exact .stop _ _ ((hk.inv h hp).2 _)
  · obtain ⟨room, hio, hroom⟩ := hfeeds.ext
    obtain ⟨_, hok, hbytes, hunread, happend, hinpEof⟩ :=
      hinv.extUnread.ioRead_some hne (hroom hwants) hio
    cases hok
    have hfed : TlsInputInv sc₀ (q.trace past) q.sc q.inpEof q.ext q.int := by
      have htrace : q.trace past = p.trace past ++ [.engine (.fed bytes)] := by
        simp [trace, hfeeds.events]
      rw [htrace, hfeeds.inpEof, hfeeds.int]
      exact hinv.feed hbytes hfeeds.receiving hunread happend
    have hcloses : (receiving q.sc).closes q.ext.unread = false := by
      rw [hfeeds.receiving]
      change (receiving p.sc).closes (bytes ++ q.ext.unread) = false
      rw [happend]
      exact hgoes.closes
    have heof : q.ext.inpEof = false := hinpEof.trans hgoes.inpEof
    rcases hx with ⟨e, rfl⟩ | ⟨e, hproc, rfl⟩ | ⟨n, hproc, rfl⟩
    · exact .stop q _ ⟨hfed.process _ rfl (fun _ => rfl) rfl rfl, ⟨heof, hcloses⟩, by simp⟩
    · obtain ⟨hsaw, hfewer⟩ := hdoc.processNewPackets_error q.sc e hproc
      refine .stop _ _ ⟨hfed.process _ hsaw (fun hun => ?_) rfl rfl, ⟨heof, ?_⟩, by simp⟩
      · exact absurd (List.mem_append_right _ List.mem_cons_self) (hun e)
      · by_contra hyes
        have hyes := hfewer q.ext.unread (by simpa using hyes)
        rw [hcloses] at hyes
        cases hyes
    · obtain ⟨hlen, -, hsaw, hsame⟩ := hdoc.processNewPackets_ok q.sc n hproc
      have hproc := hfed.process [] hsaw (fun _ => hsame) rfl rfl
      rw [List.append_nil] at hproc
      have hless := (less_readTls hdoc hinv.extUnread hwants hne hread).2
      refine .goOn _ ⟨hproc, ⟨heof, ?_⟩, ?_⟩ (less_iff.mpr (.inl hless))
      · exact (congrFun hsame _).trans hcloses
      · unfold Batch
        split
        · trivial
        · rename_i m hm
          split at hm <;> cases hm
          exact hlen
        · rename_i hm
          split at hm <;> cases hm

omit [ServerConnection SC] in
theorem fares_makespace {usizeMax n : Nat} (h : InputInv usizeMax sc₀ past (.inl p))
    (hp : p.phase = .makespace n) (hfits : p.int.wr + n ≤ usizeMax ∧ n * 2 ≤ usizeMax) :
    Fares usizeMax sc₀ past p (p.makespace usizeMax n) := by
  obtain ⟨hinv, hgoes, hbatch⟩ := h
  have hbatch : (receiving p.sc).incoming.length = n := by
    unfold Batch at hbatch
    rwa [hp] at hbatch
  obtain ⟨int, hint, hunread, hle, hroom⟩ :=
    hinv.intUnread.inpMakespace (p.outcomes.spares.headD 0) hfits.1 hfits.2
  have hframe := hunread.eq_unread ▸ hunread
  unfold TlsPump.makespace
  rw [hint, Exec.ret_bind]
  have hsame := inpMakespace_frame hint
  refine .goOn _ ⟨⟨hinv.extUnread, hframe, hinv.bytes, hinv.sawEof, hinv.inpEof, hinv.closes⟩,
    ⟨hgoes.inpEof, hgoes.closes⟩, ?_⟩ (less_iff.mpr (.inr ⟨rfl, .inr ⟨?_, .inr ⟨rfl, ?_⟩⟩⟩))
  · unfold Batch
    dsimp only
    omega
  · change int.out.length + (!p.sentOutEof).toNat = p.int.out.length + (!p.sentOutEof).toNat
    rw [hsame]
  · simp only [measure, hp]
    omega

theorem fares_readOut (hdoc : Documented SC) {usizeMax : Nat}
    (h : InputInv usizeMax sc₀ past (.inl p)) (hp : p.phase = .readOut)
    (hroom : p.int.wr + (receiving p.sc).incoming.length ≠ p.int.inp.length) :
    Fares usizeMax sc₀ past p (p.readOut usizeMax) := by
  obtain ⟨hinv, hgoes, hbatch⟩ := h
  obtain ⟨hfits, hle⟩ : p.int.wr + (receiving p.sc).incoming.length ≤ usizeMax ∧
      p.int.wr + (receiving p.sc).incoming.length ≤ p.int.inp.length := by
    unfold Batch at hbatch
    rwa [hp] at hbatch
  have hlen : 0 < p.int.inp.length - p.int.wr := by omega
  unfold TlsPump.readOut
  rw [if_neg (by omega)]
  by_cases hnone : (receiving p.sc).incoming = []
  · -- All is read, and the input goes on, so there is nothing to read for now.
    obtain ⟨sc', rv, hread, hrecv, hrv⟩ := hdoc.readerRead_none p.sc _ hnone hlen
    have hopen : (receiving p.sc).closed = false := by
      by_contra hclosed
      have hcloses := hdoc.closes_append p.sc [] p.ext.unread
        (hdoc.closed_closes p.sc (by simpa using hclosed))
      rw [List.nil_append, hgoes.closes] at hcloses
      cases hcloses
    rw [hopen, hinv.sawEof] at hrv
    obtain ⟨e, rfl, hkind⟩ : ∃ e, rv = .error e ∧ e.kind = .wouldBlock := by simpa using hrv
    rw [hread]
    dsimp only
    rw [if_pos hkind]
    have hnew := hinv.process [] (congrArg Receiving.sawEof hrecv)
      (fun _ => congrArg Receiving.closes hrecv) rfl rfl
    rw [List.append_nil] at hnew
    have hgoes' : (receiving sc').closes p.ext.unread = false := by
      rw [hrecv]
      exact hgoes.closes
    refine .goOn _ ⟨hnew, ⟨hgoes.inpEof, hgoes'⟩, trivial⟩
      (less_iff.mpr (.inr ⟨rfl, .inr ⟨rfl, .inr ⟨?_, ?_⟩⟩⟩))
    · have hsend := hdoc.readerRead_sending p.sc (p.int.inp.length - p.int.wr)
      rw [hread] at hsend
      exact congrArg (fun s => s.pending.length) hsend
    · simp only [measure, hp]
      omega
  · obtain ⟨bytes, rest, sc', hread, hbytes, hshort, hsplit, hrecv⟩ :=
      hdoc.readerRead_some p.sc _ hnone hlen
    obtain ⟨byte, bytes, rfl⟩ := List.exists_cons_of_ne_nil hbytes
    have hincoming : (byte :: bytes).length + rest.length =
        (receiving p.sc).incoming.length := by
      rw [hsplit, List.length_append]
    have hroom' : p.int.wr + (byte :: bytes).length ≤ p.int.inp.length := by omega
    have hint := hinv.intUnread.extend hroom'
    rw [hread]
    dsimp only
    rw [addUsize_fits (by omega), Exec.ret_bind]
    have hnew := hinv.process [.engine (.decoded (byte :: bytes))]
      (by rw [hrecv]) (fun _ => by rw [hrecv]) rfl rfl
    have hgoes' : (receiving sc').closes p.ext.unread = false := by
      rw [hrecv]
      exact hgoes.closes
    have hrest : (receiving sc').incoming = rest := by rw [hrecv]
    have htrace : (p.log (.decoded (byte :: bytes))).trace past = _ := log_trace _
    rw [← htrace] at hnew
    refine .goOn _ ⟨⟨hnew.extUnread, hint.eq_unread ▸ hint, hnew.bytes, hnew.sawEof, hnew.inpEof,
      hnew.closes⟩, ⟨hgoes.inpEof, hgoes'⟩, ?_⟩
      (less_iff.mpr (.inr ⟨rfl, .inr ⟨rfl, .inr ⟨?_, ?_⟩⟩⟩))
    · unfold Batch
      simp only [log, hp, hrest, Window.overwrite_length hroom']
      omega
    · have hsend := hdoc.readerRead_sending p.sc (p.int.inp.length - p.int.wr)
      rw [hread] at hsend
      exact congrArg (fun s => s.pending.length) hsend
    · simp only [measure, log, hp, hrest]
      simp only [List.length_cons] at hincoming
      omega

/-- **One turn.** It waits, goes on below, or the call returns. -/
theorem InputInv.turn (hdoc : Documented SC) {usizeMax : Nat}
    (h : InputInv usizeMax sc₀ past (.inl p)) (hp : p.ReadsOn usizeMax) :
    Fares usizeMax sc₀ past p (p.turn usizeMax) := by
  unfold ReadsOn at hp
  unfold TlsPump.turn
  split
  · rename_i hphase
    rw [hphase] at hp
    obtain ⟨hwriter, hpanic⟩ := hp
    have hspec := p.arm_spec
    cases harm : p.arm with
    | writeTls =>
      rw [harm] at hspec
      exact fares_writeTls hdoc h hphase hspec (hpanic harm)
    | writer => exact fares_writer hdoc h hphase (hwriter harm)
    | closeNotify =>
      rw [harm] at hspec
      exact fares_closeNotify hdoc h hphase hspec.2.2.2
    | readTls =>
      rw [harm] at hspec
      exact fares_readTls hdoc h hphase hspec.2.2.1 hspec.2.2.2
    | leave =>
      obtain ⟨hinv, hgoes, -⟩ := h
      refine .stop p _ ⟨hinv.process _ rfl (fun _ => rfl) rfl rfl, hgoes, fun eof heof => ?_⟩
      cases heof
      exact hinv.inpEof
  · rename_i n hphase
    rw [hphase] at hp
    exact fares_makespace h hphase hp
  · rename_i hphase
    rw [hphase] at hp
    exact fares_readOut hdoc h hphase hp

end TlsPump

/-! ## No answer but one -/

namespace TlsPump
variable [ServerConnection SC] {p q : TlsPump SC} {x : Turn SC} {usizeMax : Nat}

/-- In the inner loop, with no room to read into, or at the end of the input. -/
structure Stuck (p : TlsPump SC) : Prop where
  phase : p.phase = .readOut
  wr_le : p.int.wr ≤ p.int.inp.length
  ends : p.int.inp.length - p.int.wr = 0 ∨ (receiving p.sc).incoming = [] ∧
    ((receiving p.sc).closed = true ∨ (receiving p.sc).sawEof = true)

/-- What `Reader::read` returns when the inner loop has read everything it can. -/
theorem Stuck.read (hdoc : Documented SC) (h : p.Stuck) : ∃ sc' rv,
    readerRead p.sc (p.int.inp.length - p.int.wr) = (sc', rv) ∧ receiving sc' = receiving p.sc ∧
      (rv = .ok [] ∨ ∃ e, rv = .error e ∧ e.kind = .unexpectedEof) := by
  rcases h.ends with hroom | ⟨hnone, hends⟩
  · obtain ⟨sc', hread, hrecv⟩ := hdoc.readerRead_zero p.sc
    exact ⟨sc', .ok [], by rw [hroom, hread], hrecv, .inl rfl⟩
  · by_cases hroom : p.int.inp.length - p.int.wr = 0
    · obtain ⟨sc', hread, hrecv⟩ := hdoc.readerRead_zero p.sc
      exact ⟨sc', .ok [], by rw [hroom, hread], hrecv, .inl rfl⟩
    · obtain ⟨sc', rv, hread, hrecv, hrv⟩ := hdoc.readerRead_none p.sc
        (p.int.inp.length - p.int.wr) hnone (by omega)
      refine ⟨sc', rv, hread, hrecv, ?_⟩
      cases hclosed : (receiving p.sc).closed with
      | true => exact .inl (by simpa [hclosed] using hrv)
      | false =>
        have hsaw : (receiving p.sc).sawEof = true := by simpa [hclosed] using hends
        exact .inr (by simpa [hclosed, hsaw] using hrv)

/-- The next turn is one of the same kind, so the inner loop is never left. -/
theorem Stuck.turn (usizeMax : Nat) (hdoc : Documented SC) (h : p.Stuck) :
    ∃ q, p.turn usizeMax = .ret (.inl q) ∧ q.Stuck := by
  obtain ⟨sc', rv, hread, hrecv, hrv⟩ := h.read hdoc
  have hstuck (eof : TlsEof) : Stuck { p with sc := sc', inpEof := some eof } :=
    ⟨h.phase, h.wr_le, by rw [hrecv]; exact h.ends⟩
  unfold TlsPump.turn
  rw [h.phase]
  dsimp only
  unfold TlsPump.readOut
  rw [if_neg (Nat.not_lt.mpr h.wr_le), hread]
  rcases hrv with rfl | ⟨e, rfl, hkind⟩
  · exact ⟨_, rfl, hstuck .close⟩
  · dsimp only
    rw [if_neg (by rw [hkind]; decide), if_pos hkind]
    exact ⟨_, rfl, hstuck .abort⟩

theorem Stuck.loop (usizeMax : Nat) (hdoc : Documented SC) (n : Nat) (h : p.Stuck) :
    loop (TlsPump.turn usizeMax) n p = .fuel :=
  loop_fuel (fun _ hq => hq.turn usizeMax hdoc) h n

/-- `Reader::read` reports an end of the input only if it is stuck. -/
theorem ends_of_read (hdoc : Documented SC) {sc sc' : SC} {len : Nat}
    {rv : Result (List UInt8)} (hread : readerRead sc len = (sc', rv))
    (hrv : rv = .ok [] ∨ ∃ e, rv = .error e ∧ e.kind = .unexpectedEof) :
    receiving sc' = receiving sc ∧ (len = 0 ∨ (receiving sc).incoming = [] ∧
      ((receiving sc).closed = true ∨ (receiving sc).sawEof = true)) := by
  by_cases hlen : len = 0
  · obtain ⟨sc₁, hzero, hrecv⟩ := hdoc.readerRead_zero sc
    rw [hlen, hzero] at hread
    obtain ⟨rfl, -⟩ := Prod.mk.inj hread
    exact ⟨hrecv, .inl hlen⟩
  · by_cases hnone : (receiving sc).incoming = []
    · obtain ⟨sc₁, rv₁, hread₁, hrecv, hends⟩ := hdoc.readerRead_none sc len hnone (by omega)
      rw [hread₁] at hread
      obtain ⟨rfl, rfl⟩ := Prod.mk.inj hread
      refine ⟨hrecv, .inr ⟨hnone, ?_⟩⟩
      by_contra hopen
      rw [not_or] at hopen
      rw [if_neg hopen.1, if_neg hopen.2] at hends
      obtain ⟨e, rfl, hkind⟩ := hends
      rcases hrv with hrv | ⟨e', hrv, hkind'⟩
      · exact Except.noConfusion rfl rfl (heq_of_eq hrv)
      · rw [Except.error.inj hrv] at hkind
        rw [hkind] at hkind'
        exact absurd hkind' (by decide)
    · obtain ⟨bytes, rest, sc₁, hread₁, hbytes, -⟩ := hdoc.readerRead_some sc len hnone (by omega)
      rw [hread₁] at hread
      obtain ⟨-, rfl⟩ := Prod.mk.inj hread
      rcases hrv with hrv | ⟨e, hrv, -⟩
      · exact absurd (Except.ok.inj hrv) hbytes
      · exact nomatch hrv

/-- The end of the input is still `eof`, or the call does not return. -/
def Unchanged (eof : Option TlsEof) : Turn SC → Prop
  | .inl p => p.inpEof = eof ∨ p.Stuck
  | .inr (p, rv) => p.inpEof = eof ∧ ∀ eof', rv = .ok eof' → eof' = eof

/-- The inner loop reports an end of the input only to get stuck. -/
theorem unchanged_readOut (hdoc : Documented SC) (hp : p.phase = .readOut)
    (hx : p.readOut usizeMax = .ret x) : Unchanged p.inpEof x := by
  unfold TlsPump.readOut at hx
  split at hx
  · cases hx
  · rename_i hwr
    have hstuck {sc' : SC} {rv : Result (List UInt8)} (eof : TlsEof)
        (hread : readerRead p.sc (p.int.inp.length - p.int.wr) = (sc', rv))
        (hrv : rv = .ok [] ∨ ∃ e, rv = .error e ∧ e.kind = .unexpectedEof) :
        Stuck { p with sc := sc', inpEof := some eof } := by
      obtain ⟨hrecv, hends⟩ := ends_of_read hdoc hread hrv
      exact ⟨hp, Nat.le_of_not_lt hwr, by rw [hrecv]; exact hends⟩
    split at hx
    · rename_i sc' e hread
      dsimp only at hx
      split at hx
      · cases hx
        exact .inl rfl
      · split at hx
        · rename_i hkind
          cases hx
          exact .inr (hstuck .abort hread (.inr ⟨e, rfl, hkind⟩))
        · cases hx
          exact ⟨rfl, nofun⟩
    · rename_i sc' hread
      cases hx
      exact .inr (hstuck .close hread (.inl rfl))
    · obtain ⟨wr, -, hx⟩ := Exec.bind_eq_ret.mp hx
      cases hx
      exact .inl rfl

omit [ServerConnection SC] in
theorem unchanged_flushExt (hx : p.flushExt = .ret x) : Unchanged p.inpEof x := by
  have hkeeps := KeepsInput.flushExt hx
  rcases flushExt_cases (p := p) (by rw [hx]; exact nofun) with hw | ⟨q, hq | ⟨e, hq⟩⟩
  · rw [hx] at hw
    cases hw
  · rw [hx] at hq
    cases hq
    exact .inl hkeeps.inpEof
  · rw [hx] at hq
    cases hq
    exact ⟨hkeeps.inpEof, nofun⟩

theorem unchanged_main (hdoc : Documented SC) (hp : p.phase = .main)
    (hx : p.turn usizeMax = .ret x) : Unchanged p.inpEof x := by
  unfold TlsPump.turn at hx
  rw [hp] at hx
  dsimp only at hx
  have hspec := p.arm_spec
  cases harm : p.arm with
  | writeTls =>
    rw [harm] at hx hspec
    obtain ⟨chunk, sc', rest, heq, -⟩ := writeTlsArm_eq hdoc hspec
    rw [heq] at hx
    have hflush := unchanged_flushExt hx
    rw [(KeepsInput.passOutEof _).inpEof] at hflush
    exact hflush
  | writer =>
    rw [harm] at hx
    dsimp only at hx
    unfold TlsPump.writerArm at hx
    split at hx
    · cases hx
      exact ⟨rfl, nofun⟩
    · split at hx
      · cases hx
        exact .inl rfl
      · cases hx
  | closeNotify =>
    rw [harm] at hx
    cases hx
    exact .inl rfl
  | readTls =>
    rw [harm] at hx hspec
    rcases readTlsArm_cases hdoc hspec.2.2.2 hx with ⟨e, rfl⟩ |
      ⟨q, rv, bytes, -, hfeeds, ⟨e, rfl⟩ | ⟨e, -, rfl⟩ | ⟨n, -, rfl⟩⟩
    · exact ⟨rfl, nofun⟩
    · exact ⟨hfeeds.inpEof, nofun⟩
    · exact ⟨hfeeds.inpEof, nofun⟩
    · exact .inl hfeeds.inpEof
  | leave =>
    rw [harm] at hx
    cases hx
    exact ⟨rfl, fun eof' heof => (Except.ok.inj heof).symm⟩

theorem Unchanged.turn (hdoc : Documented SC) {eof : Option TlsEof}
    (h : Unchanged eof (.inl p)) (hx : p.turn usizeMax = .ret x) : Unchanged eof x := by
  rcases h with rfl | hstuck
  · cases hphase : p.phase with
    | main => exact unchanged_main hdoc hphase hx
    | makespace n =>
      unfold TlsPump.turn at hx
      rw [hphase] at hx
      obtain ⟨int, -, hx⟩ := Exec.bind_eq_ret.mp hx
      cases hx
      exact .inl rfl
    | readOut =>
      unfold TlsPump.turn at hx
      rw [hphase] at hx
      exact unchanged_readOut hdoc hphase hx
  · obtain ⟨q, hq, hstuck⟩ := hstuck.turn usizeMax hdoc
    rw [hq] at hx
    cases hx
    exact .inr hstuck

end TlsPump

/-! ## Whole runs -/

namespace TcpSession
variable {usizeMax : Nat} {b : TcpStreamBuf} {op : TcpOp} {t : TcpSession}

/-- The unread bytes before and after an operation. -/
theorem step_unread (h : b.Unread b.unread) (hfits : op.fits usizeMax ⟨b, []⟩ = true)
    (ht : step usizeMax ⟨b, []⟩ op = .ret t) : t.buf.Unread t.buf.unread ∧
      TcpEvent.consumedIn t.trace ++ t.buf.unread = b.unread ++ TcpEvent.deliveredIn t.trace := by
  -- The invariant of a single buffer, as if the unread bytes had just come in.
  have hinv : InputInv ⟨b, [.call (.read 0 (.ok b.unread))]⟩ b.unread :=
    ⟨h, by simp [TcpEvent.consumedIn, TcpEvent.deliveredIn, TcpEvent.consumedBy,
      TcpEvent.deliveredBy, StreamCall.delivered]⟩
  have hstep := step_trace usizeMax b [.call (.read 0 (.ok b.unread))] op
  rw [ht] at hstep
  obtain ⟨u', hu', hbytes⟩ := (hinv.step hfits).2 _ hstep
  have hu : t.buf.unread = u' := hu'.bytes
  subst hu
  refine ⟨hu', ?_⟩
  simpa [TcpEvent.consumedIn, TcpEvent.deliveredIn, TcpEvent.consumedBy, TcpEvent.deliveredBy,
    StreamCall.delivered] using hbytes

/-- The network side consumes nothing. -/
theorem network_consumed (hop : op.network = true) (ht : step usizeMax ⟨b, []⟩ op = .ret t) :
    TcpEvent.consumedIn t.trace = [] := by
  cases op with
  | append _ | ioWrite _ | setOutEof _ | ioRead _ | consume _ => cases hop
  | init _ | deinit | pauseWrites _ | setNodelay _ =>
    cases ht
    rfl
  | flush outcomes =>
    obtain ⟨⟨b', rv, calls⟩, -, ht⟩ := Exec.bind_eq_ret.mp ht
    cases ht
    exact TcpEvent.consumedIn_calls
  | inpMakespace max spare =>
    obtain ⟨b', -, ht⟩ := Exec.bind_eq_ret.mp ht
    cases ht
    rfl
  | read max spare outcomes =>
    obtain ⟨⟨b', status, calls⟩, -, ht⟩ := Exec.bind_eq_ret.mp ht
    cases ht
    exact TcpEvent.consumedIn_calls

end TcpSession

namespace TlsSession
variable [ServerConnection SC] {usizeMax : Nat} {sc₀ : SC} {s t : TlsSession SC} {op : TlsOp}

def InputInv (sc₀ : SC) (s : TlsSession SC) : Prop :=
  ∃ sc, s.engine.sc = some sc ∧ TlsInputInv sc₀ s.trace sc s.engine.inpEof s.ext s.int

/-- When `process` is called the peer has closed neither the TLS nor the TCP stream,
and its turns meet the condition; `ext` is left to the network side, and sums fit. -/
def StaysOpen (usizeMax : Nat) (s : TlsSession SC) : TlsOp → Prop
  | .process fuel outcomes => s.ext.inpEof = false ∧
      (∀ sc, s.engine.sc = some sc → (receiving sc).closes s.ext.unread = false) ∧
      s.Turns usizeMax (TlsPump.ReadsOn usizeMax) (.process fuel outcomes)
  | .ext op => op.network = true ∧ op.fits usizeMax ⟨s.ext, []⟩ = true
  | .int op => op.fits usizeMax ⟨s.int, []⟩ = true

/-- A call ends, and once all bytes of `ext` are consumed it answers whether the
close_notify was processed and otherwise whether the stream has ended. While no call
has failed this is the same for all ways to cut up what was delivered. -/
def EofReported (usizeMax : Nat) (sc₀ : SC) (s : TlsSession SC) : TlsOp → Prop
  | .process _ outcomes =>
    (∃ n, ∀ fuel, n ≤ fuel → (s.step usizeMax (.process fuel outcomes)).Over) ∧
    ∀ fuel t past eof, s.step usizeMax (.process fuel outcomes) = .ret t →
      t.trace = past ++ [.engine (.returned (.ok eof))] → t.ext.rd = t.ext.wr →
      ∃ sc, t.engine.sc = some sc ∧ eof = eofOf (receiving sc).closed t.ext.inpEof ∧
        (Unfailed t.trace →
          eof = eofOf ((receiving sc₀).closes (deliveredIn t.trace)) t.ext.inpEof)
  | _ => True

omit [ServerConnection SC] in
/-- The invariant at the start of a call. -/
theorem InputInv.pump (h : s.InputInv sc₀) {sc : SC} (hsc : s.engine.sc = some sc)
    {outcomes : TlsOutcomes} (heof : s.ext.inpEof = false)
    (hcloses : ∀ sc, s.engine.sc = some sc → (receiving sc).closes s.ext.unread = false) :
    TlsPump.InputInv usizeMax sc₀ s.trace
      (.inl (s.engine.pump sc s.ext s.int outcomes)) := by
  obtain ⟨sc', hsc', hinv⟩ := h
  rw [hsc] at hsc'
  cases hsc'
  have htrace : (s.engine.pump sc s.ext s.int outcomes).trace s.trace = s.trace :=
    List.append_nil _
  refine ⟨?_, ⟨heof, hcloses sc hsc⟩, trivial⟩
  rw [htrace]
  exact hinv

/-- How a call of `process` leaves things. -/
theorem InputInv.process (hdoc : Documented SC) (h : s.InputInv sc₀) {fuel : Nat}
    {outcomes : TlsOutcomes} (hop : s.StaysOpen usizeMax (.process fuel outcomes))
    (ht : s.step usizeMax (.process fuel outcomes) = .ret t) : ∃ p rv,
      TlsPump.InputInv usizeMax sc₀ s.trace (.inr (p, rv)) ∧
      t = ⟨⟨some p.sc, p.sentOutEof, p.inpEof⟩, p.ext, p.int,
        p.trace s.trace ++ [.engine (.returned rv)]⟩ := by
  obtain ⟨heof, hcloses, hturns⟩ := hop
  obtain ⟨sc, hsc, -⟩ := id h
  refine step_process hsc (fun p x hi hc hx => ?_) hturns (h.pump hsc heof hcloses) ht
  have hfares := hi.turn hdoc hc
  rw [hx] at hfares
  exact hfares.inv

theorem InputInv.step (hdoc : Documented SC) (h : s.InputInv sc₀)
    (hop : s.StaysOpen usizeMax op) (ht : s.step usizeMax op = .ret t) : t.InputInv sc₀ := by
  cases op with
  | process fuel outcomes =>
    obtain ⟨p, rv, ⟨hinv, -, -⟩, rfl⟩ := h.process hdoc hop ht
    exact ⟨p.sc, rfl, hinv⟩
  | ext op =>
    obtain ⟨sc, hsc, hinv⟩ := h
    obtain ⟨hnetwork, hfits⟩ := hop
    obtain ⟨u, hu, ht⟩ := Exec.bind_eq_ret.mp ht
    cases ht
    obtain ⟨hunread, hbytes⟩ := TcpSession.step_unread hinv.extUnread hfits hu
    rw [TcpSession.network_consumed hnetwork hu, List.nil_append] at hbytes
    refine ⟨sc, hsc, hunread, hinv.intUnread, ?_, hinv.sawEof, hinv.inpEof, fun hun more => ?_⟩
    · rw [fedIn_append, deliveredIn_append, fedIn_ext, deliveredIn_ext, List.append_nil,
        ← hinv.bytes, List.append_assoc, ← hbytes]
    · rw [fedIn_append, fedIn_ext, List.append_nil]
      exact hinv.closes hun.left more
  | int op =>
    obtain ⟨sc, hsc, hinv⟩ := h
    obtain ⟨u, hu, ht⟩ := Exec.bind_eq_ret.mp ht
    cases ht
    obtain ⟨hunread, -⟩ := TcpSession.step_unread hinv.intUnread hop hu
    exact ⟨sc, hsc, hinv.frame _ (fedIn_int _) (deliveredIn_int _) rfl (.refl _) hunread⟩

/-- The call ends. -/
theorem InputInv.over (hdoc : Documented SC) (h : s.InputInv sc₀) {fuel₀ : Nat}
    {outcomes : TlsOutcomes} (hop : s.StaysOpen usizeMax (.process fuel₀ outcomes)) :
    ∃ n, ∀ fuel, n ≤ fuel → (s.step usizeMax (.process fuel outcomes)).Over := by
  obtain ⟨heof, hcloses, hturns⟩ := hop
  obtain ⟨sc, hsc, -⟩ := id h
  obtain ⟨n, hn⟩ := loop_over TlsPump.less_wf
    (I := fun p => TlsPump.InputInv usizeMax sc₀ s.trace (.inl p))
    (fun p hi hp => (hi.turn hdoc hp).over)
    (fun p q hi hp hq => by
      have hfares := hi.turn hdoc hp
      rw [hq] at hfares
      exact ⟨hfares.inv, hfares.less⟩)
    (fun p => hturns sc p hsc) (h.pump hsc heof hcloses)
  exact ⟨n, fun fuel hfuel => step_over hsc (hn fuel hfuel)⟩

theorem InputInv.reports (hdoc : Documented SC) (h : s.InputInv sc₀)
    (hop : s.StaysOpen usizeMax op) : s.EofReported usizeMax sc₀ op := by
  cases op with
  | ext op => trivial
  | int op => trivial
  | process fuel₀ outcomes =>
    refine ⟨h.over hdoc hop, fun fuel t past eof ht htrace hall => ?_⟩
    -- The condition is the same for any fuel.
    have hop : s.StaysOpen usizeMax (.process fuel outcomes) := hop
    obtain ⟨p, rv, ⟨hinv, hgoes, hanswer⟩, rfl⟩ := h.process hdoc hop ht
    have hrv : rv = .ok eof := by
      have hlast := congrArg List.getLast? htrace
      simpa using hlast
    have hnone : eof = none := hanswer eof hrv
    have hunread : p.ext.unread = [] := by
      have hall : p.ext.rd = p.ext.wr := hall
      rw [TcpStreamBuf.unread, hall, Window.slice_self]
    have hcloses : (receiving p.sc).closes [] = false := hunread ▸ hgoes.closes
    have hclosed : (receiving p.sc).closed = false := by
      by_contra hyes
      rw [hdoc.closed_closes p.sc (by simpa using hyes)] at hcloses
      cases hcloses
    refine ⟨p.sc, rfl, ?_, fun hun => ?_⟩
    · rw [hclosed, hgoes.inpEof, hnone]
      rfl
    · have hall := hinv.closes hun []
      have hbytes := hinv.bytes
      rw [hunread, List.append_nil] at hbytes
      rw [hcloses, List.append_nil, hbytes] at hall
      rw [← hall, hgoes.inpEof, hnone]
      rfl

omit [ServerConnection SC] in
theorem InputInv.start (hfresh : Fresh sc₀) : (start sc₀).InputInv sc₀ := by
  have hnil : Unread TcpStreamBuf.new [] := ⟨Nat.le_refl _, Nat.le_refl _, rfl⟩
  exact ⟨sc₀, rfl, hnil, hnil, rfl, hfresh.sawEof, rfl, fun _ _ => rfl⟩

/-- **Input EOF.** In a run in which the input stays open, each call of `process` ends
and reports the end of input as it should. -/
theorem input_eof_reported (hdoc : Documented SC) (usizeMax : Nat) (sc₀ : SC)
    (hfresh : Fresh sc₀) (ops : List TlsOp)
    (hops : Meets (step usizeMax) (StaysOpen usizeMax) (start sc₀) ops) :
    Meets (step usizeMax) (EofReported usizeMax sc₀) (start sc₀) ops :=
  hops.imp (fun _ _ _ hs hop ht => hs.step hdoc hop ht) (fun _ _ hs hop => hs.reports hdoc hop)
    (InputInv.start hfresh)

/-- The condition, with `n` turns of a call at most. -/
def checkOpen (usizeMax n : Nat) (s : TlsSession SC) : TlsOp → Bool
  | .process fuel outcomes => !s.ext.inpEof &&
      s.engine.sc.all (fun sc => !(receiving sc).closes s.ext.unread) &&
      s.checkTurns usizeMax n (fun p => decide (p.ReadsOn usizeMax)) (.process fuel outcomes)
  | .ext op => op.network && op.fits usizeMax ⟨s.ext, []⟩
  | .int op => op.fits usizeMax ⟨s.int, []⟩

theorem staysOpen_of_check {n : Nat} (h : s.checkOpen usizeMax n op = true) :
    s.StaysOpen usizeMax op := by
  cases op with
  | process fuel outcomes =>
    obtain ⟨hopen, hturns⟩ := Bool.and_eq_true_iff.mp h
    obtain ⟨heof, hcloses⟩ := Bool.and_eq_true_iff.mp hopen
    refine ⟨by simpa using heof, fun sc hsc => ?_,
      turns_of_check (fun _ => of_decide_eq_true) hturns⟩
    rw [hsc] at hcloses
    simpa using hcloses
  | ext op => exact Bool.and_eq_true_iff.mp h
  | int op => exact h

/-- The last thing that happened is that `process` gave this answer. -/
def answered (s : TlsSession SC) (eof : Option TlsEof) : Bool :=
  match s.trace.getLast? with
  | some (.engine (.returned (.ok eof'))) => eof' == eof
  | _ => false

omit [ServerConnection SC] [Observed SC] in
theorem trace_of_answered {eof : Option TlsEof} (h : s.answered eof = true) :
    ∃ past, s.trace = past ++ [.engine (.returned (.ok eof))] := by
  unfold answered at h
  split at h
  · rename_i eof' hlast
    rw [eq_of_beq h] at hlast
    exact ⟨_, (List.dropLast_append_getLast? _ hlast).symm⟩
  · cases h

/-- The handshake of a connection without encryption. -/
def handshakeOps : List TlsOp :=
  [.ext (.init 0), .ext (.pauseWrites true),
    .ext (.read 64 0 [.ok (NullConnection.frame 22 [1])]), .process 8 { flushes := [{}] },
    .ext (.read 64 0 [.ok (NullConnection.frame 22 [20])]), .process 8 {}]

/-- After the handshake, a record of two bytes in two reads. -/
theorem input_eof_reported_sample :
    ((start ({} : NullConnection)).runs 1000 (handshakeOps ++
      [.ext (.read 64 0 [.ok [23, 3, 3, 0]]), .process 8 {},
        .ext (.read 64 0 [.ok [2, 7, 8]]), .process 8 { spares := [4] },
        .int (.consume 2)])).isRet = true ∧
    Meets (step 1000) (EofReported 1000 {}) (start ({} : NullConnection)) (handshakeOps ++
      [.ext (.read 64 0 [.ok [23, 3, 3, 0]]), .process 8 {},
        .ext (.read 64 0 [.ok [2, 7, 8]]), .process 8 { spares := [4] },
        .int (.consume 2)]) := by
  refine ⟨by decide +kernel,
    input_eof_reported NullConnection.documented 1000 {} NullConnection.fresh _ ?_⟩
  exact Meets.mono (P := fun s op => s.checkOpen 1000 8 op = true)
    (fun _ _ h => staysOpen_of_check h) (by decide +kernel)

/-- After the handshake the peer closes, with nothing more to read: the call consumes
all bytes and processes the close_notify, but answers `None`. -/
theorem input_eof_not_reported : Documented NullConnection ∧ Fresh ({} : NullConnection) ∧
    ¬ Meets (step 1000) (EofReported 1000 {}) (start ({} : NullConnection))
      ((handshakeOps ++ [.ext (.read 64 0 [.ok (NullConnection.frame 21 [1, 0])])]) ++
        [.process 8 {}]) := by
  refine ⟨NullConnection.documented, NullConnection.fresh, fun h => ?_⟩
  obtain ⟨-, h⟩ := h.append
  obtain ⟨s, hs, hprocess⟩ := Exec.exists_ret_of (x := (start ({} : NullConnection)).runs 1000
      (handshakeOps ++ [.ext (.read 64 0 [.ok (NullConnection.frame 21 [1, 0])])]))
    (p := fun s => (s.step 1000 (.process 8 {})).returns fun t => t.ext.rd == t.ext.wr &&
      t.engine.sc.all (fun sc => (receiving sc).closed) && t.answered none) (by decide +kernel)
  obtain ⟨t, ht, htest⟩ := Exec.exists_ret_of hprocess
  obtain ⟨htest, hanswered⟩ := Bool.and_eq_true_iff.mp htest
  obtain ⟨hall, hclosed⟩ := Bool.and_eq_true_iff.mp htest
  obtain ⟨past, hpast⟩ := trace_of_answered hanswered
  obtain ⟨-, hreports⟩ := (h s hs).1
  obtain ⟨sc, hsc, heof, -⟩ := hreports 8 t past none ht hpast (by simpa using hall)
  rw [hsc] at hclosed
  rw [show (receiving sc).closed = true from hclosed] at heof
  cases heof

/-! ## No answer but one -/

/-- If `process` answers at all, it answers `None`. -/
def AnswersNone (usizeMax : Nat) (s : TlsSession SC) : TlsOp → Prop
  | .process fuel outcomes => ∀ t past eof, s.step usizeMax (.process fuel outcomes) = .ret t →
      t.trace = past ++ [.engine (.returned (.ok eof))] → eof = none
  | _ => True

/-- The connection is there, and no end of input was ever left behind. -/
def NoEof (s : TlsSession SC) : Prop := ∃ sc, s.engine = ⟨some sc, s.engine.sentOutEof, none⟩

theorem NoEof.process (hdoc : Documented SC) (h : s.NoEof) {fuel : Nat} {outcomes : TlsOutcomes}
    (ht : s.step usizeMax (.process fuel outcomes) = .ret t) : t.NoEof ∧
      ∀ past eof, t.trace = past ++ [.engine (.returned (.ok eof))] → eof = none := by
  obtain ⟨sc, hengine⟩ := h
  have hsc : s.engine.sc = some sc := by rw [hengine]
  have hstart : TlsPump.Unchanged none (.inl (s.engine.pump sc s.ext s.int outcomes)) :=
    .inl (by rw [hengine]; rfl)
  obtain ⟨p, rv, ⟨heof, hanswer⟩, rfl⟩ := step_process hsc (P := fun _ => True)
    (fun p x hi _ hx => hi.turn hdoc hx) (fun _ _ _ _ => trivial) hstart ht
  refine ⟨⟨p.sc, by rw [heof]⟩, fun past eof htrace => hanswer eof ?_⟩
  have hlast := congrArg List.getLast? htrace
  simpa using hlast

theorem NoEof.step (hdoc : Documented SC) (h : s.NoEof) (ht : s.step usizeMax op = .ret t) :
    t.NoEof := by
  cases op with
  | process fuel outcomes => exact (h.process hdoc ht).1
  | ext op | int op =>
    obtain ⟨u, -, ht⟩ := Exec.bind_eq_ret.mp ht
    cases ht
    exact h

/-- **No answer but one.** In any run at all: where the condition is not met, a call of
`process` that returns without an error misses the end of the input. -/
theorem process_answers_none (hdoc : Documented SC) (usizeMax : Nat) (sc₀ : SC)
    (ops : List TlsOp) :
    Meets (step usizeMax) (AnswersNone usizeMax) (start sc₀) ops := by
  refine Meets.of_invariant (Q := fun _ => True) (I := NoEof)
    (fun s op t hs _ ht => hs.step hdoc ht) (fun s op hs _ => ?_) (fun _ _ => trivial) ⟨sc₀, rfl⟩
  cases op with
  | process fuel outcomes => exact fun t past eof ht => (hs.process hdoc ht).2 past eof
  | ext op | int op => trivial

end TlsSession
end StakkerMio
