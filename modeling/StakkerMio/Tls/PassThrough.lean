import StakkerMio.Flush
import StakkerMio.Tcp.ReadEof
import StakkerMio.Tcp.StreamEof
import StakkerMio.Tls.Eof
import StakkerMio.Tls.NullConnection

/-! # Without TLS

Without a configuration `process` passes bytes and EOF flags between the two buffers:
together they are one pipe in each direction. -/
namespace StakkerMio
open Lib TcpStreamBuf

namespace TlsSessionEvent
variable {SC : Type}

/-- The bytes the application took from `int.inp`. -/
def consumedBy : TlsSessionEvent SC → List UInt8
  | .int e => e.consumedBy
  | _ => []

/-- The bytes the application appended to `int.out`. -/
def writtenBy : TlsSessionEvent SC → List UInt8
  | .int e => e.appendedBy
  | _ => []

/-- The bytes the stream of `ext` accepted. -/
def acceptedBy : TlsSessionEvent SC → List UInt8
  | .engine (.call c) => TcpEvent.acceptedBy (.call c)
  | .ext e => e.acceptedBy
  | _ => []

/-- Whether the application has asked for EOF. -/
def isEofAsked : TlsSessionEvent SC → Bool
  | .int (.outEof eof) => eof
  | _ => false

/-- Whether the stream of `ext` has reported its end. -/
def isEnd : TlsSessionEvent SC → Bool
  | .ext (.call (.read _ (.ok []))) => true
  | _ => false

def consumedIn (tr : List (TlsSessionEvent SC)) : List UInt8 := tr.flatMap consumedBy

def writtenIn (tr : List (TlsSessionEvent SC)) : List UInt8 := tr.flatMap writtenBy

def acceptedIn (tr : List (TlsSessionEvent SC)) : List UInt8 := tr.flatMap acceptedBy

def eofAskedIn (tr : List (TlsSessionEvent SC)) : Bool := tr.any isEofAsked

def endedIn (tr : List (TlsSessionEvent SC)) : Bool := tr.any isEnd

/-- The stream is shut down when EOF was asked for and all bytes written were accepted. -/
def ShutOk (past : List (TlsSessionEvent SC)) : TlsSessionEvent SC → Prop
  | .engine (.call (.shutdown _)) =>
    eofAskedIn past = true ∧ acceptedIn past = writtenIn past
  | _ => True

/-- The stream delivers nothing after it has reported its end. -/
def NothingAfterEnd (tr : List (TlsSessionEvent SC)) : Prop :=
  Always (fun past e => endedIn past = true → deliveredBy e = []) tr

variable {tr es : List (TlsSessionEvent SC)}

@[simp] theorem consumedIn_append : consumedIn (tr ++ es) = consumedIn tr ++ consumedIn es :=
  List.flatMap_append

@[simp] theorem writtenIn_append : writtenIn (tr ++ es) = writtenIn tr ++ writtenIn es :=
  List.flatMap_append

@[simp] theorem acceptedIn_append : acceptedIn (tr ++ es) = acceptedIn tr ++ acceptedIn es :=
  List.flatMap_append

@[simp] theorem eofAskedIn_append :
    eofAskedIn (tr ++ es) = (eofAskedIn tr || eofAskedIn es) := List.any_append

@[simp] theorem endedIn_append : endedIn (tr ++ es) = (endedIn tr || endedIn es) :=
  List.any_append

@[simp] theorem consumedIn_ext (es : List TcpEvent) :
    consumedIn (es.map (.ext : TcpEvent → TlsSessionEvent SC)) = [] := by
  simp [consumedIn, List.flatMap_map, consumedBy]

@[simp] theorem consumedIn_int (es : List TcpEvent) :
    consumedIn (es.map (.int : TcpEvent → TlsSessionEvent SC)) = TcpEvent.consumedIn es := by
  simp [consumedIn, List.flatMap_map, consumedBy, TcpEvent.consumedIn]

@[simp] theorem consumedIn_engine (es : List (TlsEvent SC)) :
    consumedIn (es.map .engine) = [] := by
  simp [consumedIn, List.flatMap_map, consumedBy]

@[simp] theorem writtenIn_ext (es : List TcpEvent) :
    writtenIn (es.map (.ext : TcpEvent → TlsSessionEvent SC)) = [] := by
  simp [writtenIn, List.flatMap_map, writtenBy]

@[simp] theorem writtenIn_int (es : List TcpEvent) :
    writtenIn (es.map (.int : TcpEvent → TlsSessionEvent SC)) = TcpEvent.appendedIn es := by
  simp [writtenIn, List.flatMap_map, writtenBy, TcpEvent.appendedIn]

@[simp] theorem acceptedIn_int (es : List TcpEvent) :
    acceptedIn (es.map (.int : TcpEvent → TlsSessionEvent SC)) = [] := by
  simp [acceptedIn, List.flatMap_map, acceptedBy]

theorem shutOk_ext {es : List TcpEvent} :
    ∀ e ∈ es.map (.ext : TcpEvent → TlsSessionEvent SC), ∀ past, ShutOk past e := by
  intro e he past
  obtain ⟨e', -, rfl⟩ := List.mem_map.mp he
  trivial

theorem shutOk_int {es : List TcpEvent} :
    ∀ e ∈ es.map (.int : TcpEvent → TlsSessionEvent SC), ∀ past, ShutOk past e := by
  intro e he past
  obtain ⟨e', -, rfl⟩ := List.mem_map.mp he
  trivial

theorem NothingAfterEnd.left (h : NothingAfterEnd (tr ++ es)) : NothingAfterEnd tr :=
  (AlwaysFrom.append.mp h).1

end TlsSessionEvent

open TlsSessionEvent

/-! ## `exchange` -/

namespace TcpStreamBuf
variable {usizeMax spare : Nat} {b b' up up' : TcpStreamBuf} {u v : List UInt8}

/-- What an exchange does with the two buffers. -/
structure Exchanged (b up b' up' : TcpStreamBuf) (u v : List UInt8) : Prop where
  unread : b'.Unread (u ++ v)
  upUnread : up'.Unread []
  out : b'.out = [] ∧ up'.out = up.out ++ b.out
  outEof : b'.outEof = b.outEof ∧ up'.outEof = (up.outEof || b.outEof)
  inpEof : b'.inpEof = (b.inpEof || up.inpEof) ∧ up'.inpEof = up.inpEof

/-- The sums that an exchange makes. -/
def ExchangeFits (usizeMax : Nat) (b up : TcpStreamBuf) : Prop :=
  b.wr + (up.wr - up.rd) ≤ usizeMax ∧ (up.wr - up.rd) * 2 ≤ usizeMax

instance : Decidable (ExchangeFits usizeMax b up) := inferInstanceAs (Decidable (_ ∧ _))

theorem exchangeInp_ret (hb : b.Unread u) (hup : up.Unread v)
    (hfits : ExchangeFits usizeMax b up) (spare : Nat) : ∃ b' up',
      exchangeInp usizeMax spare b up = .ret (b', up') ∧ b'.Unread (u ++ v) ∧ up'.Unread [] ∧
      b' = { b with inp := b'.inp, rd := b'.rd, wr := b'.wr } ∧
      up' = { up with rd := up'.rd, wr := up'.wr } := by
  have hlength : v.length = up.wr - up.rd := by rw [← hup.bytes, Window.slice_length hup.wr_le]
  unfold exchangeInp
  rw [if_neg (Nat.not_lt.mpr hup.rd_le)]
  dsimp only
  split
  · rename_i hnone
    have hnil : v = [] := List.length_eq_zero_iff.mp (hlength.trans hnone)
    subst hnil
    exact ⟨b, up, rfl, by rwa [List.append_nil], hup, rfl, rfl⟩
  · obtain ⟨b₁, hb₁, hu₁, hle, hroom⟩ := hb.inpMakespace spare hfits.1 hfits.2
    have hfits₁ : b₁.wr + (up.wr - up.rd) ≤ usizeMax := Nat.le_trans
      (Nat.add_le_add_right hle _) hfits.1
    rw [hb₁, Exec.ret_bind, addUsize_fits hfits₁, Exec.ret_bind, if_pos ⟨hroom, hup.wr_le⟩]
    have hextend : Unread { b₁ with
        inp := Window.overwrite b₁.inp b₁.wr v
        wr := b₁.wr + (up.wr - up.rd) } (u ++ v) := by
      have h : Unread { b₁ with
          inp := Window.overwrite b₁.inp b₁.wr v
          wr := b₁.wr + v.length } (u ++ v) := hu₁.extend (by omega)
      rwa [hlength] at h
    rw [hup.bytes]
    refine ⟨_, _, rfl, hextend, ⟨Nat.le_refl _, Nat.zero_le _, Window.slice_self _ _⟩, ?_, rfl⟩
    rw [inpMakespace_frame hb₁]

theorem exchangeOut_spec (b up : TcpStreamBuf) :
    (exchangeOut b up).1 = { b with out := [] } ∧
      (exchangeOut b up).2 =
        { up with out := up.out ++ b.out, outEof := up.outEof || b.outEof } := by
  unfold exchangeOut
  cases b.outEof
  · simp
  · simp

theorem exchange_ret (hb : b.Unread u) (hup : up.Unread v) (hfits : ExchangeFits usizeMax b up)
    (spare : Nat) : ∃ b' up', exchange usizeMax spare b up = .ret (b', up') ∧
      Exchanged b up b' up' u v := by
  obtain ⟨hout, hup'⟩ := exchangeOut_spec b up
  have hb₁ : Unread (exchangeOut b up).1 u := by
    rw [hout]
    exact ⟨hb.rd_le, hb.wr_le, hb.bytes⟩
  have hup₁ : Unread (exchangeOut b up).2 v := by
    rw [hup']
    exact ⟨hup.rd_le, hup.wr_le, hup.bytes⟩
  have hfits₁ : ExchangeFits usizeMax (exchangeOut b up).1 (exchangeOut b up).2 := by
    rw [hout, hup']
    exact hfits
  obtain ⟨b₂, up₂, hinp, hu, hv, hb₂, hup₂⟩ := exchangeInp_ret hb₁ hup₁ hfits₁ spare
  rw [hout] at hb₂
  rw [hup'] at hup₂
  refine ⟨if up₂.inpEof then { b₂ with inpEof := true } else b₂, up₂, ?_, ?_⟩
  · unfold exchange
    dsimp only
    rw [hinp]
    rfl
  · have hinpEof : up₂.inpEof = up.inpEof := by rw [hup₂]
    have hframe : (if up₂.inpEof then { b₂ with inpEof := true } else b₂) =
        { b₂ with inpEof := b.inpEof || up.inpEof } := by
      rw [hinpEof]
      cases up.inpEof with
      | true => simp
      | false =>
        rw [Bool.or_false]
        conv_lhs => rw [hb₂]
        rw [hb₂]
        rfl
    rw [hframe]
    refine ⟨⟨hu.rd_le, hu.wr_le, hu.bytes⟩, hv, ⟨?_, ?_⟩, ⟨?_, ?_⟩, ⟨rfl, hinpEof⟩⟩
    · rw [hb₂]
    · rw [hup₂]
    · rw [hb₂]
    · rw [hup₂]

end TcpStreamBuf
/-! ## The two pipes -/

/-- The output: what was written and is not yet accepted is in the two buffers. -/
structure OutPipe {SC : Type} (tr : List (TlsSessionEvent SC)) (ext int : TcpStreamBuf) :
    Prop where
  bytes : acceptedIn tr ++ ext.out ++ int.out = writtenIn tr
  extEof : ext.outEof = true → eofAskedIn tr = true
  intEof : int.outEof = true → eofAskedIn tr = true
  shut : Always ShutOk tr

/-- The input: what was delivered and is not yet consumed is in the two buffers. -/
structure InPipe {SC : Type} (tr : List (TlsSessionEvent SC)) (eof : Option TlsEof)
    (ext int : TcpStreamBuf) : Prop where
  extUnread : ext.Unread ext.unread
  intUnread : int.Unread int.unread
  bytes : consumedIn tr ++ int.unread ++ ext.unread = deliveredIn tr
  passed : int.inpEof = true → ext.inpEof = true
  ended : ext.inpEof = true → endedIn tr = true
  reported : ∀ e, eof = some e → e = .close ∧ int.inpEof = true
  last : NothingAfterEnd tr → int.inpEof = true → ext.unread = []

namespace OutPipe
variable {SC : Type} {tr es : List (TlsSessionEvent SC)} {ext ext' int int' : TcpStreamBuf}

/-- Events that have nothing to do with the output. -/
theorem idle (h : OutPipe tr ext int) (hacc : acceptedIn es = []) (hwritten : writtenIn es = [])
    (hshut : Always ShutOk (tr ++ es)) (hext : ext'.out = ext.out ∧ ext'.outEof = ext.outEof)
    (hint : int'.out = int.out ∧ int'.outEof = int.outEof) : OutPipe (tr ++ es) ext' int' where
  bytes := by
    rw [acceptedIn_append, writtenIn_append, hacc, hwritten, hext.1, hint.1, List.append_nil,
      List.append_nil]
    exact h.bytes
  extEof heof := by
    rw [eofAskedIn_append, h.extEof (hext.2 ▸ heof), Bool.true_or]
  intEof heof := by
    rw [eofAskedIn_append, h.intEof (hint.2 ▸ heof), Bool.true_or]
  shut := hshut

/-- A call of the flush, with `int.out` moved over. -/
theorem flushStep (h : OutPipe tr ext int) (hint : int.out = []) {c : StreamCall}
    (hc : FlushStep ext c ext') : OutPipe (tr ++ [.engine (.call c)]) ext' int := by
  have hall (heof : ext.outEof = true) (hout : ext.out = []) (r : Result Unit) :
      ShutOk tr (.engine (.call (.shutdown r))) := by
    have hbytes := h.bytes
    rw [hout, hint, List.append_nil, List.append_nil] at hbytes
    exact ⟨h.extEof heof, hbytes⟩
  cases hc with
  | setNodelay r => exact h.idle rfl rfl (h.shut.concat trivial) ⟨rfl, rfl⟩ ⟨rfl, rfl⟩
  | writeError e hout => exact h.idle rfl rfl (h.shut.concat trivial) ⟨rfl, rfl⟩ ⟨rfl, rfl⟩
  | write len hout hlen =>
    refine ⟨?_, ?_, ?_, h.shut.concat trivial⟩
    · have hacc : acceptedIn ([.engine (.call (.write ext.out (.ok len)))] :
          List (TlsSessionEvent SC)) = ext.out.take len := List.append_nil _
      have hwritten : writtenIn ([.engine (.call (.write ext.out (.ok len)))] :
          List (TlsSessionEvent SC)) = [] := rfl
      rw [acceptedIn_append, writtenIn_append, hacc, hwritten, List.append_nil, ← h.bytes,
        List.append_assoc (acceptedIn tr) (ext.out.take len), List.take_append_drop]
    · intro heof
      rw [eofAskedIn_append, h.extEof heof, Bool.true_or]
    · intro heof
      rw [eofAskedIn_append, h.intEof heof, Bool.true_or]
  | flush r => exact h.idle rfl rfl (h.shut.concat trivial) ⟨rfl, rfl⟩ ⟨rfl, rfl⟩
  | shutdownError e heof hsent hout =>
    exact h.idle rfl rfl (h.shut.concat (hall heof hout _)) ⟨rfl, rfl⟩ ⟨rfl, rfl⟩
  | shutdown heof hsent hout =>
    exact h.idle rfl rfl (h.shut.concat (hall heof hout _)) ⟨rfl, rfl⟩ ⟨rfl, rfl⟩

theorem flush (h : OutPipe tr ext int) (hint : int.out = []) {o : FlushOutcomes}
    {rv : Result Unit} {calls : List StreamCall} (hf : ext.flush o = .ret (ext', rv, calls)) :
    OutPipe (tr ++ calls.map fun c => .engine (.call c)) ext' int := by
  have hstart : OutPipe (tr ++ ([] : List StreamCall).map fun c => .engine (.call c)) ext int := by
    rwa [List.map_nil, List.append_nil]
  exact Steps.invariant
    (J := fun calls ext => OutPipe (tr ++ calls.map fun c => .engine (.call c)) ext int)
    (fun past ext c ext' hpast hc => by simpa using hpast.flushStep hint hc) hstart
    (flush_steps hf)

/-- `exchange` moves what was written on. -/
theorem exchange (h : OutPipe tr ext int) {u v : List UInt8}
    (hx : Exchanged int ext int' ext' u v) (hacc : acceptedIn es = [])
    (hwritten : writtenIn es = []) (hshut : Always ShutOk (tr ++ es)) :
    OutPipe (tr ++ es) ext' int' where
  bytes := by
    rw [acceptedIn_append, writtenIn_append, hacc, hwritten, hx.out.1, hx.out.2, List.append_nil,
      List.append_nil, List.append_nil, ← List.append_assoc]
    exact h.bytes
  extEof heof := by
    rw [hx.outEof.2] at heof
    have hasked : eofAskedIn tr = true := by
      rcases (Bool.or_eq_true _ _).mp heof with heof | heof
      · exact h.extEof heof
      · exact h.intEof heof
    rw [eofAskedIn_append, hasked, Bool.true_or]
  intEof heof := by
    rw [eofAskedIn_append, h.intEof (hx.outEof.1 ▸ heof), Bool.true_or]
  shut := hshut

end OutPipe

namespace InPipe
variable {SC : Type} {tr es : List (TlsSessionEvent SC)} {eof : Option TlsEof}
  {ext ext' int int' : TcpStreamBuf}

/-- Events and changes that have nothing to do with the input. -/
theorem idle (h : InPipe tr eof ext int) (hcons : consumedIn es = []) (hdel : deliveredIn es = [])
    (hext : SameInput ext ext') (hint : SameInput int int') :
    InPipe (tr ++ es) eof ext' int' where
  extUnread := hext.keeps h.extUnread
  intUnread := hint.keeps h.intUnread
  bytes := by
    rw [consumedIn_append, deliveredIn_append, hcons, hdel, hext.unread, hint.unread,
      List.append_nil, List.append_nil]
    exact h.bytes
  passed heof := by
    rw [hext.inpEof]
    exact h.passed (hint.inpEof ▸ heof)
  ended heof := by
    rw [endedIn_append, h.ended (hext.inpEof ▸ heof), Bool.true_or]
  reported e he := by
    rw [hint.inpEof]
    exact h.reported e he
  last hnothing heof := by
    rw [hext.unread]
    exact h.last hnothing.left (hint.inpEof ▸ heof)

/-- `exchange` moves what was delivered on, and the flag after it. -/
theorem exchange (h : InPipe tr eof ext int)
    (hx : Exchanged int ext int' ext' int.unread ext.unread) (hcons : consumedIn es = [])
    (hdel : deliveredIn es = []) :
    InPipe (tr ++ es) (if int'.inpEof then some .close else eof) ext' int' where
  extUnread := hx.upUnread.eq_unread ▸ hx.upUnread
  intUnread := hx.unread.eq_unread ▸ hx.unread
  bytes := by
    rw [consumedIn_append, deliveredIn_append, hcons, hdel, hx.unread.eq_unread,
      hx.upUnread.eq_unread, List.append_nil, List.append_nil, List.append_nil,
      ← List.append_assoc]
    exact h.bytes
  passed heof := by
    rw [hx.inpEof.1] at heof
    rw [hx.inpEof.2]
    rcases (Bool.or_eq_true _ _).mp heof with heof | heof
    · exact h.passed heof
    · exact heof
  ended heof := by
    rw [endedIn_append, h.ended (hx.inpEof.2 ▸ heof), Bool.true_or]
  reported e he := by
    split at he
    · rename_i heof
      cases he
      exact ⟨rfl, heof⟩
    · obtain ⟨hclose, heof⟩ := h.reported e he
      refine ⟨hclose, ?_⟩
      rw [hx.inpEof.1, heof, Bool.true_or]
  last _ _ := hx.upUnread.eq_unread

end InPipe

/-! ## The operations -/

/-- An operation on `ext` besides those of `process`. -/
def TcpOp.reads : TcpOp → Bool
  | .read _ _ _ | .pauseWrites _ | .setNodelay _ => true
  | _ => false

/-- An operation of the application on `int`. -/
def TcpOp.uses : TcpOp → Bool
  | .append _ | .ioWrite _ | .setOutEof _ | .inpMakespace _ _ | .ioRead _ | .consume _ => true
  | _ => false

theorem TcpOp.network_of_reads {op : TcpOp} (h : op.reads = true) : op.network = true := by
  cases op with
  | read _ _ _ | pauseWrites _ | setNodelay _ => rfl
  | append _ | ioWrite _ | setOutEof _ | init _ | deinit | flush _ | inpMakespace _ _ | ioRead _
  | consume _ => cases h

namespace TlsSessionEvent
variable {SC : Type} {tr es : List (TlsSessionEvent SC)}

theorem NothingAfterEnd.deliveredIn (h : NothingAfterEnd (tr ++ es)) (hend : endedIn tr = true) :
    deliveredIn es = [] := by
  induction es generalizing tr with
  | nil => rfl
  | cons e es ih =>
    have he : deliveredBy e = [] := Always.split h hend
    have hmore : NothingAfterEnd ((tr ++ [e]) ++ es) := by rwa [List.append_assoc]
    have hrest := ih hmore (by rw [endedIn_append, hend, Bool.true_or])
    show deliveredBy e ++ TlsSessionEvent.deliveredIn es = []
    rw [he, hrest, List.append_nil]

/-- A flag set by reads is set by one that met the end. -/
theorem endedIn_calls {calls : List StreamCall} {ended : Bool}
    (h : (calls.map TcpEvent.call).foldl TcpEvent.endAfter ended = true) :
    ended = true ∨
      endedIn ((calls.map .call).map (.ext : TcpEvent → TlsSessionEvent SC)) = true := by
  induction calls generalizing ended with
  | nil => exact .inl h
  | cons c calls ih =>
    have hhead : TcpEvent.endAfter ended (.call c) = true →
        ended = true ∨ isEnd (.ext (.call c) : TlsSessionEvent SC) = true := by
      intro hended
      match c with
      | .read _ (.ok []) => exact .inr rfl
      | .read _ (.ok (_ :: _)) | .read _ (.error _) | .setNodelay _ _ | .write _ _ | .flush _
      | .shutdown _ => exact .inl hended
    show ended = true ∨ (isEnd _ || endedIn _) = true
    rcases ih h with hended | hended
    · rcases hhead hended with hended | hend
      · exact .inl hended
      · exact .inr (by rw [hend, Bool.true_or])
    · exact .inr (by rw [hended, Bool.or_true])

end TlsSessionEvent

namespace TcpSession
variable {usizeMax : Nat} {b : TcpStreamBuf} {op : TcpOp} {t : TcpSession}

/-- What the application does. -/
theorem uses_step (hop : op.uses = true) (ht : step usizeMax ⟨b, []⟩ op = .ret t) :
    t.buf.out = b.out ++ TcpEvent.appendedIn t.trace ∧ TcpEvent.deliveredIn t.trace = [] ∧
      t.buf.inpEof = b.inpEof ∧
      (t.buf.outEof = true → b.outEof = true ∨ .outEof true ∈ t.trace) := by
  cases op with
  | init _ | deinit | setNodelay _ | pauseWrites _ | flush _ | read _ _ _ => cases hop
  | append bytes =>
    cases ht
    exact ⟨by simp [TcpEvent.appendedIn, TcpEvent.appendedBy], rfl, rfl, .inl⟩
  | ioWrite buf =>
    cases ht
    exact ⟨by simp [TcpEvent.appendedIn, TcpEvent.appendedBy, ioWrite], rfl, rfl, .inl⟩
  | setOutEof eof =>
    cases ht
    refine ⟨(List.append_nil _).symm, rfl, rfl, fun heof => .inr ?_⟩
    rw [show eof = true from heof]
    exact List.mem_singleton.mpr rfl
  | inpMakespace max spare =>
    obtain ⟨b', hb, ht⟩ := Exec.bind_eq_ret.mp ht
    cases ht
    rw [inpMakespace_frame hb]
    exact ⟨(List.append_nil _).symm, rfl, rfl, .inl⟩
  | ioRead len =>
    obtain ⟨⟨b', rv⟩, hr, ht⟩ := Exec.bind_eq_ret.mp ht
    cases ht
    rw [ioRead_frame hr]
    cases rv with
    | error e => exact ⟨(List.append_nil _).symm, rfl, rfl, .inl⟩
    | ok bytes => exact ⟨(List.append_nil _).symm, rfl, rfl, .inl⟩
  | consume n =>
    cases ht
    exact ⟨(List.append_nil _).symm, rfl, rfl, .inl⟩

/-- A read does not clear the flag. -/
theorem read_inpEof {max spare : Nat} {outcomes : List (Result (List UInt8))}
    {b' : TcpStreamBuf} {status : ReadStatus} {calls : List StreamCall}
    (h : b.Unread b.unread)
    (hfits : (TcpOp.read max spare outcomes).fits usizeMax ⟨b, []⟩ = true)
    (hread : b.read usizeMax spare max outcomes = .ret (b', status, calls))
    (heof : b.inpEof = true) : b'.inpEof = true := by
  obtain ⟨-, -, hsound⟩ := of_decide_eq_true hfits
  obtain ⟨b₁, hb₁, hread⟩ := Exec.bind_eq_ret.mp hread
  obtain ⟨hu₁, hroom⟩ := h.inpMakespace_ret hb₁
  have heof₁ : b₁.inpEof = true := by rw [inpMakespace_frame hb₁, heof]
  split at hread
  · cases hread
    exact heof₁
  · obtain ⟨stop, hstop, hread⟩ := Exec.bind_eq_ret.mp hread
    have hstop := addUsize_ret hstop
    subst hstop
    obtain ⟨r, -, -, hresult⟩ := readLoop_result hu₁ hroom (fun bytes hb => hsound _ hb) hread
    match r, hresult with
    | .ok [], ⟨_, hb'⟩ => rw [hb']
    | .ok (_ :: _), ⟨_, hkept, _⟩ => rw [hkept, heof₁]
    | .error _, ⟨_, _, hb'⟩ => rw [hb', heof₁]

/-- What is done with `ext` besides. -/
theorem reads_step (SC : Type) (h : b.Unread b.unread)
    (hfits : op.fits usizeMax ⟨b, []⟩ = true) (hop : op.reads = true)
    (ht : step usizeMax ⟨b, []⟩ op = .ret t) :
    t.buf.out = b.out ∧ t.buf.outEof = b.outEof ∧
      acceptedIn (t.trace.map (.ext : TcpEvent → TlsSessionEvent SC)) = [] ∧
      (b.inpEof = true → t.buf.inpEof = true) ∧
      (t.buf.inpEof = true → b.inpEof = true ∨
        endedIn (t.trace.map (.ext : TcpEvent → TlsSessionEvent SC)) = true) := by
  cases op with
  | append _ | ioWrite _ | setOutEof _ | init _ | deinit | flush _ | inpMakespace _ _ | ioRead _
  | consume _ => cases hop
  | setNodelay nodelay =>
    cases ht
    unfold TcpStreamBuf.setNodelay
    split <;> exact ⟨rfl, rfl, rfl, id, .inl⟩
  | pauseWrites pause =>
    cases ht
    exact ⟨rfl, rfl, rfl, id, .inl⟩
  | read max spare outcomes =>
    obtain ⟨⟨b', status, calls⟩, hr, ht⟩ := Exec.bind_eq_ret.mp ht
    cases ht
    obtain ⟨hframe, hcalls⟩ := read_frame hr
    refine ⟨by rw [hframe], by rw [hframe], ?_, read_inpEof h hfits hr, fun heof => ?_⟩
    · simp only [List.nil_append, acceptedIn, List.flatMap_map, List.flatMap_eq_nil_iff]
      intro c hc
      obtain ⟨room, r, rfl⟩ := hcalls c hc
      rfl
    · by_cases hb : b.inpEof = true
      · exact .inl hb
      · have hend := read_end [] hr (fun h => absurd h hb) heof
        exact .inr ((endedIn_calls hend).resolve_left nofun)

theorem step_ne_panic (h : b.Unread b.unread) (hfits : op.fits usizeMax ⟨b, []⟩ = true)
    (hop : op.reads = true ∨ op.uses = true) : step usizeMax ⟨b, []⟩ op ≠ .panic := by
  have hinv : InputInv ⟨b, [.call (.read 0 (.ok b.unread))]⟩ b.unread :=
    ⟨h, by simp [TcpEvent.consumedIn, TcpEvent.deliveredIn, TcpEvent.consumedBy,
      TcpEvent.deliveredBy, StreamCall.delivered]⟩
  cases hon : op.onInput with
  | true =>
    intro hpanic
    have hstep := step_trace usizeMax b [.call (.read 0 (.ok b.unread))] op
    rw [hpanic] at hstep
    exact (hinv.step hfits).1 hon hstep
  | false =>
    cases op with
    | append _ | ioWrite _ | setOutEof _ | setNodelay _ | pauseWrites _ => simp [step]
    | init _ | deinit | flush _ => simp [TcpOp.reads, TcpOp.uses] at hop
    | inpMakespace _ _ | read _ _ _ | ioRead _ | consume _ => cases hon

end TcpSession

/-! ## Whole runs -/

namespace TlsSession
variable {SC : Type}

/-- Without a configuration, and with a stream in `ext`. -/
def startPlain (SC : Type) (stream : Nat) : TlsSession SC :=
  { engine := TlsServerEngine.new none, ext := TcpStreamBuf.new.init stream }

structure PassInv (s : TlsSession SC) : Prop where
  sc : s.engine.sc = none
  out : OutPipe s.trace s.ext s.int
  inp : InPipe s.trace s.engine.inpEof s.ext s.int

/-- The operations of the two sides, with what is promised of each: sums that fit into
`usize`, and a stream that accepts no more than it is passed. -/
def passes (usizeMax : Nat) (s : TlsSession SC) : TlsOp → Bool
  | .process _ outcomes => decide (ExchangeFits usizeMax s.int s.ext) &&
      outcomes.flushes.head?.all fun o => accepts 0 (s.ext.out ++ s.int.out).length o.write
  | .ext op => op.reads && op.fits usizeMax ⟨s.ext, []⟩
  | .int op => op.uses && op.fits usizeMax ⟨s.int, []⟩

/-- What is asked of an operation: it does not panic, `int.inp_eof` is set only when
all that was delivered is in `int`, and `process` leaves nothing behind and answers
with the end of the input of `ext`. -/
structure Transparent [ServerConnection SC] (usizeMax : Nat) (s : TlsSession SC) (op : TlsOp) :
    Prop where
  safe : s.step usizeMax op ≠ .panic
  eof : ∀ t, s.step usizeMax op = .ret t → s.int.inpEof = false → t.int.inpEof = true →
    consumedIn t.trace ++ t.int.unread = deliveredIn t.trace
  process : ∀ fuel outcomes t, op = .process fuel outcomes → s.step usizeMax op = .ret t →
    t.ext.unread = [] ∧ t.int.out = [] ∧
    ∀ past eof, t.trace = past ++ [.engine (.returned (.ok eof))] →
      (eof = some .close ↔ t.ext.inpEof = true)

variable [ServerConnection SC] {usizeMax : Nat} {s t : TlsSession SC}

/-- What `process` records of an exchange. -/
def moved (out bytes : List UInt8) : List (TlsSessionEvent SC) :=
  [.engine (.taken out), .engine (.appended out), .engine (.fed bytes), .engine (.decoded bytes)]

/-- The end of the input after an exchange has left `int`. -/
def plainEof (s : TlsSession SC) (int : TcpStreamBuf) : Option TlsEof :=
  if int.inpEof then some .close else s.engine.inpEof

/-- What `process` answers after the flush. -/
def plainAnswer (rv : Result Unit) (eof : Option TlsEof) : TlsPump.Answer :=
  match rv with
  | .error e => .error (.flush e)
  | .ok () => .ok eof

/-- After an exchange has left `int`, and a flush `ext`. -/
def processedPlain (s : TlsSession SC) (int ext : TcpStreamBuf) (rv : Result Unit)
    (calls : List StreamCall) : TlsSession SC where
  engine := ⟨none, s.engine.sentOutEof, s.plainEof int⟩
  ext := ext
  int := int
  trace := (s.trace ++ moved s.int.out s.ext.unread ++ calls.map fun c => .engine (.call c)) ++
    [.engine (.returned (plainAnswer rv (s.plainEof int)))]

/-- `process` is an exchange and a flush. -/
theorem PassInv.process_eq (h : s.PassInv) (hfits : ExchangeFits usizeMax s.int s.ext)
    (fuel : Nat) (outcomes : TlsOutcomes) : ∃ int' ext',
      Exchanged s.int s.ext int' ext' s.int.unread s.ext.unread ∧
      s.step usizeMax (.process fuel outcomes) = match outcomes.flushes with
        | [] => .wait
        | o :: _ => (fun r => s.processedPlain int' r.1 r.2.1 r.2.2) <$> ext'.flush o := by
  obtain ⟨int', ext', hex, hx⟩ := exchange_ret h.inp.intUnread h.inp.extUnread hfits
    (outcomes.spares.headD 0)
  refine ⟨int', ext', hx, ?_⟩
  have hengine : (if int'.inpEof then { s.engine with inpEof := some .close } else s.engine) =
      ⟨none, s.engine.sentOutEof, s.plainEof int'⟩ := by
    rw [← h.sc]
    unfold plainEof
    split <;> rfl
  unfold step TlsServerEngine.process
  rw [h.sc]
  dsimp only
  unfold TlsServerEngine.passThrough
  rw [hex]
  dsimp only [Exec.ret_bind]
  rw [hengine]
  cases outcomes.flushes with
  | nil => rfl
  | cons o flushes =>
    dsimp only
    cases ext'.flush o with
    | ret r =>
      obtain ⟨ext, rv, calls⟩ := r
      simp only [Exec.ret_bind, Exec.map_ret, processedPlain, moved, TcpStreamBuf.unread,
        List.map_append, List.map_cons, List.map_nil, List.map_map, List.append_assoc,
        List.cons_append, List.nil_append]
      cases rv <;> rfl
    | _ => rfl

omit [ServerConnection SC] in
/-- What holds after `process`. -/
theorem PassInv.processed (h : s.PassInv) {int' ext' ext : TcpStreamBuf}
    (hx : Exchanged s.int s.ext int' ext' s.int.unread s.ext.unread) {o : FlushOutcomes}
    {rv : Result Unit} {calls : List StreamCall} (hf : ext'.flush o = .ret (ext, rv, calls)) :
    (s.processedPlain int' ext rv calls).PassInv ∧ ext.unread = [] ∧
      (s.plainEof int' = some .close ↔ ext.inpEof = true) := by
  have hmoved : ∀ e ∈ (moved s.int.out s.ext.unread : List (TlsSessionEvent SC)),
      ∀ past, ShutOk past e := by
    intro e he past
    simp only [moved, List.mem_cons, List.not_mem_nil, or_false] at he
    rcases he with rfl | rfl | rfl | rfl <;> trivial
  have hcalls : ∀ calls : List StreamCall,
      consumedIn (calls.map fun c => (.engine (.call c) : TlsSessionEvent SC)) = [] ∧
        deliveredIn (calls.map fun c => (.engine (.call c) : TlsSessionEvent SC)) = [] := by
    intro calls
    have hmap : (calls.map fun c => (.engine (.call c) : TlsSessionEvent SC)) =
        (calls.map .call).map .engine := by simp
    rw [hmap]
    exact ⟨consumedIn_engine _, deliveredIn_engine _⟩
  have hsame := SameInput.flushSteps (flush_steps hf)
  have hout : OutPipe (s.processedPlain int' ext rv calls).trace ext int' := by
    have hout := (h.out.exchange hx rfl rfl (h.out.shut.append hmoved)).flush hx.out.1 hf
    exact hout.idle rfl rfl (hout.shut.concat trivial) ⟨rfl, rfl⟩ ⟨rfl, rfl⟩
  have hinp : InPipe (s.processedPlain int' ext rv calls).trace (s.plainEof int') ext int' := by
    have hinp : InPipe (s.trace ++ moved s.int.out s.ext.unread) (s.plainEof int') ext' int' :=
      h.inp.exchange hx rfl rfl
    have hflushed := hinp.idle (hcalls calls).1 (hcalls calls).2 hsame (.refl _)
    exact hflushed.idle rfl rfl (.refl _) (.refl _)
  refine ⟨⟨rfl, hout, hinp⟩, hsame.unread.trans hx.upUnread.eq_unread, fun heof => ?_,
    fun heof => ?_⟩
  · exact hinp.passed (hinp.reported _ heof).2
  · have hboth : int'.inpEof = true := by
      rw [hx.inpEof.1, ← hx.inpEof.2, ← hsame.inpEof, heof, Bool.or_true]
    unfold plainEof
    rw [if_pos hboth]

theorem PassInv.process (h : s.PassInv) {fuel : Nat} {outcomes : TlsOutcomes}
    (hop : s.passes usizeMax (.process fuel outcomes) = true) :
    Transparent usizeMax s (.process fuel outcomes) ∧
      ∀ t, s.step usizeMax (.process fuel outcomes) = .ret t → t.PassInv := by
  obtain ⟨hfits, haccepts⟩ := Bool.and_eq_true_iff.mp hop
  obtain ⟨int', ext', hx, heq⟩ := h.process_eq (of_decide_eq_true hfits) fuel outcomes
  have hret : ∀ t, s.step usizeMax (.process fuel outcomes) = .ret t →
      ∃ o ext rv calls, ext'.flush o = .ret (ext, rv, calls) ∧
        t = s.processedPlain int' ext rv calls := by
    intro t ht
    rw [heq] at ht
    split at ht
    · cases ht
    · rename_i o _ _
      cases hf : ext'.flush o with
      | ret r =>
        rw [hf] at ht
        obtain ⟨ext, rv, calls⟩ := r
        cases ht
        exact ⟨o, ext, rv, calls, hf, rfl⟩
      | _ =>
        rw [hf] at ht
        cases ht
  refine ⟨⟨?_, fun t ht _ _ => ?_, fun fuel' outcomes' t hop' ht => ?_⟩, fun t ht => ?_⟩
  · rw [heq]
    cases hflushes : outcomes.flushes with
    | nil => exact nofun
    | cons o flushes =>
      rw [hflushes] at haccepts
      have hpanic : ext'.flush o ≠ .panic := flush_ne_panic (by rw [hx.out.2]; exact haccepts)
      dsimp only
      cases hf : ext'.flush o with
      | panic => exact absurd hf hpanic
      | _ => exact nofun
  · obtain ⟨o, ext, rv, calls, hf, rfl⟩ := hret t ht
    obtain ⟨hinv, hunread, -⟩ := h.processed hx hf
    have hbytes := hinv.inp.bytes
    rwa [show (s.processedPlain int' ext rv calls).ext.unread = [] from hunread,
      List.append_nil] at hbytes
  · cases hop'
    obtain ⟨o, ext, rv, calls, hf, rfl⟩ := hret t ht
    obtain ⟨-, hunread, heof⟩ := h.processed hx hf
    refine ⟨hunread, hx.out.1, fun past eof htrace => ?_⟩
    have hreturned : (s.processedPlain int' ext rv calls).trace.getLast? =
        some (.engine (.returned (plainAnswer rv (s.plainEof int')))) := List.getLast?_concat
    have hlast := congrArg List.getLast? htrace
    rw [hreturned, List.getLast?_concat] at hlast
    cases rv with
    | error e => cases hlast
    | ok u =>
      cases hlast
      exact heof
  · obtain ⟨o, ext, rv, calls, hf, rfl⟩ := hret t ht
    exact (h.processed hx hf).1

/-- An operation on one buffer that does not touch the flag of `int`. -/
theorem Transparent.of_kept {op : TlsOp} (hop : ∀ fuel outcomes, op ≠ .process fuel outcomes)
    (hsafe : s.step usizeMax op ≠ .panic)
    (hkept : ∀ t, s.step usizeMax op = .ret t → t.int.inpEof = s.int.inpEof) :
    Transparent usizeMax s op where
  safe := hsafe
  eof t ht hopen heof := by
    rw [hkept t ht, hopen] at heof
    cases heof
  process fuel outcomes t hprocess _ := absurd hprocess (hop fuel outcomes)

/-- What the network side does with `ext` besides. -/
theorem PassInv.ext (h : s.PassInv) {op : TcpOp} (hop : s.passes usizeMax (.ext op) = true) :
    Transparent usizeMax s (.ext op) ∧
      ∀ t, s.step usizeMax (.ext op) = .ret t → t.PassInv := by
  obtain ⟨hreads, hfits⟩ := Bool.and_eq_true_iff.mp hop
  refine ⟨Transparent.of_kept (fun _ _ => TlsOp.noConfusion) ?_ fun t ht => ?_, fun t ht => ?_⟩
  · have hpanic := TcpSession.step_ne_panic h.inp.extUnread hfits (.inl hreads)
    refine Exec.bind_ne_panic hpanic fun u _ hret => ?_
    cases hret
  · obtain ⟨u, -, ht⟩ := Exec.bind_eq_ret.mp ht
    cases ht
    rfl
  · obtain ⟨u, hu, ht⟩ := Exec.bind_eq_ret.mp ht
    cases ht
    obtain ⟨hunread, hbytes⟩ := TcpSession.step_unread h.inp.extUnread hfits hu
    rw [TcpSession.network_consumed (TcpOp.network_of_reads hreads) hu, List.nil_append]
      at hbytes
    obtain ⟨hout, houtEof, hacc, hkept, hended⟩ :=
      TcpSession.reads_step SC h.inp.extUnread hfits hreads hu
    have hidle := h.out.idle hacc (writtenIn_ext u.trace) (h.out.shut.append shutOk_ext)
      ⟨hout, houtEof⟩ ⟨rfl, rfl⟩
    refine ⟨h.sc, hidle, hunread, h.inp.intUnread, ?_, fun heof => hkept (h.inp.passed heof),
      fun heof => ?_, h.inp.reported, fun hnothing heof => ?_⟩
    · rw [consumedIn_append, deliveredIn_append, consumedIn_ext, deliveredIn_ext, hbytes,
        List.append_nil, ← List.append_assoc, h.inp.bytes]
    · rw [endedIn_append]
      rcases hended heof with hext | hext
      · rw [h.inp.ended hext, Bool.true_or]
      · rw [hext, Bool.or_true]
    · have hnone := NothingAfterEnd.deliveredIn hnothing (h.inp.ended (h.inp.passed heof))
      rw [deliveredIn_ext] at hnone
      rw [hbytes, hnone, h.inp.last hnothing.left heof, List.append_nil]

/-- What the application does. -/
theorem PassInv.int (h : s.PassInv) {op : TcpOp} (hop : s.passes usizeMax (.int op) = true) :
    Transparent usizeMax s (.int op) ∧
      ∀ t, s.step usizeMax (.int op) = .ret t → t.PassInv := by
  obtain ⟨huses, hfits⟩ := Bool.and_eq_true_iff.mp hop
  refine ⟨Transparent.of_kept (fun _ _ => TlsOp.noConfusion) ?_ fun t ht => ?_, fun t ht => ?_⟩
  · have hpanic := TcpSession.step_ne_panic h.inp.intUnread hfits (.inr huses)
    refine Exec.bind_ne_panic hpanic fun u _ hret => ?_
    cases hret
  · obtain ⟨u, hu, ht⟩ := Exec.bind_eq_ret.mp ht
    cases ht
    exact (TcpSession.uses_step huses hu).2.2.1
  · obtain ⟨u, hu, ht⟩ := Exec.bind_eq_ret.mp ht
    cases ht
    obtain ⟨hunread, hbytes⟩ := TcpSession.step_unread h.inp.intUnread hfits hu
    obtain ⟨hout, hnone, hinpEof, houtEof⟩ := TcpSession.uses_step huses hu
    rw [hnone, List.append_nil] at hbytes
    refine ⟨h.sc, ⟨?_, fun heof => ?_, fun heof => ?_, h.out.shut.append shutOk_int⟩,
      h.inp.extUnread, hunread, ?_, fun heof => h.inp.passed (hinpEof ▸ heof), fun heof => ?_,
      fun e he => ?_, fun hnothing heof => h.inp.last hnothing.left (hinpEof ▸ heof)⟩
    · rw [acceptedIn_append, writtenIn_append, acceptedIn_int, writtenIn_int, hout,
        List.append_nil, ← List.append_assoc, h.out.bytes]
    · rw [eofAskedIn_append, h.out.extEof heof, Bool.true_or]
    · rw [eofAskedIn_append]
      rcases houtEof heof with hkept | hset
      · rw [h.out.intEof hkept, Bool.true_or]
      · have hasked : eofAskedIn (u.trace.map (.int : TcpEvent → TlsSessionEvent SC)) = true :=
          List.any_eq_true.mpr ⟨_, List.mem_map_of_mem hset, rfl⟩
        rw [hasked, Bool.or_true]
    · rw [consumedIn_append, deliveredIn_append, consumedIn_int, deliveredIn_int,
        List.append_nil, ← h.inp.bytes, List.append_assoc (consumedIn s.trace), hbytes]
    · rw [endedIn_append, h.inp.ended heof, Bool.true_or]
    · rw [hinpEof]
      exact h.inp.reported e he

omit [ServerConnection SC] in
theorem PassInv.start (stream : Nat) : (startPlain SC stream).PassInv where
  sc := rfl
  out := ⟨rfl, nofun, nofun, trivial⟩
  inp := {
    extUnread := ⟨Nat.le_refl _, Nat.le_refl _, rfl⟩
    intUnread := ⟨Nat.le_refl _, Nat.le_refl _, rfl⟩
    bytes := rfl
    passed := nofun
    ended := nofun
    reported := nofun
    last := fun _ _ => rfl }

theorem PassInv.step (h : s.PassInv) {op : TlsOp} (hop : s.passes usizeMax op = true) :
    Transparent usizeMax s op ∧ ∀ t, s.step usizeMax op = .ret t → t.PassInv := by
  cases op with
  | process fuel outcomes => exact h.process hop
  | ext op => exact h.ext hop
  | int op => exact h.int hop

/-- Input until the end of the stream, output in two writes with a failed one between
them, and the end of the output. -/
def samplePass : List TlsOp :=
  [.ext (.pauseWrites false), .ext (.read 4 0 [.ok [1, 2]]), .int (.append [7, 8, 9]),
    .process 0
      { flushes := [{ setNodelay := [.ok ()], write := [.ok 1, .error ⟨.other, none⟩] }]
        spares := [4] },
    .int (.ioRead 1), .int (.setOutEof true), .ext (.read 4 0 [.ok []]),
    .process 0 { flushes := [{ write := [.ok 2], flush := [.ok ()], shutdown := [.ok ()] }] },
    .int (.consume 1)]

/-- **Pass-through.** Without TLS, in any order of the operations and for any outcomes:
the two buffers are one pipe in each direction, and the stream is shut down only when
all that was written has been accepted. -/
theorem pass_through_transparent (usizeMax stream : Nat) (ops : List TlsOp)
    (hops : Meets (step usizeMax) (fun s op => s.passes usizeMax op = true)
      (startPlain SC stream) ops) :
    Meets (step usizeMax) (Transparent usizeMax) (startPlain SC stream) ops ∧
    ∀ s, (startPlain SC stream).runs usizeMax ops = .ret s →
      deliveredIn s.trace = consumedIn s.trace ++ s.int.unread ++ s.ext.unread ∧
      writtenIn s.trace = acceptedIn s.trace ++ s.ext.out ++ s.int.out ∧
      (NothingAfterEnd s.trace → s.int.inpEof = true → s.ext.unread = []) ∧
      ∀ past r rest, s.trace = past ++ .engine (.call (.shutdown r)) :: rest →
        eofAskedIn past = true ∧ acceptedIn past = writtenIn past := by
  have hstep : ∀ (s : TlsSession SC) (op : TlsOp) t, s.PassInv → s.passes usizeMax op = true →
      s.step usizeMax op = .ret t → t.PassInv := fun s op t hs hop ht => (hs.step hop).2 t ht
  refine ⟨?_, fun s hrun => ?_⟩
  · exact hops.imp hstep (fun s op hs hop => (hs.step hop).1) (PassInv.start stream)
  · have hs := hops.invariant hstep (PassInv.start stream) hrun
    refine ⟨hs.inp.bytes.symm, hs.out.bytes.symm, hs.inp.last, fun past r rest htrace => ?_⟩
    have hshut := hs.out.shut
    rw [htrace] at hshut
    exact Always.split hshut

/-- Two bytes arrive and one is taken before the stream ends; three bytes go out in two
writes, the first flush failing, and the stream is shut down after the second. -/
theorem pass_through_transparent_sample :
    ((startPlain NullConnection 0).runs 1000 samplePass).isRet = true ∧
    Meets (step 1000) (Transparent 1000) (startPlain NullConnection 0) samplePass :=
  ⟨by decide +kernel, (pass_through_transparent 1000 0 samplePass (by decide +kernel)).1⟩

end TlsSession
end StakkerMio
