import StakkerMio.Tls.Session

/-! # Interrupted calls

A call that is interrupted is made again at once. So a run goes as it would if no call had
been interrupted: `settle` takes the interrupted attempts out of what the system answers,
and out of what is recorded. -/
namespace StakkerMio
open Lib

/-- The outcomes that were not interruptions. -/
def settle {α : Type} (outcomes : List (Result α)) : List (Result α) :=
  outcomes.filter fun r => !isInterrupted r

section Outcomes
variable {α : Type} {r : Result α} {outcomes : List (Result α)}

@[simp] theorem settle_nil : settle ([] : List (Result α)) = [] := rfl

theorem settle_interrupted (hr : isInterrupted r = true) :
    settle (r :: outcomes) = settle outcomes :=
  List.filter_cons_of_neg (by simp [hr])

theorem settle_decided (hr : isInterrupted r = false) :
    settle (r :: outcomes) = r :: settle outcomes :=
  List.filter_cons_of_pos (by simp [hr])

theorem retry_settle (outcomes : List (Result α)) : retry (settle outcomes) = retry outcomes := by
  induction outcomes with
  | nil => rfl
  | cons r outcomes ih =>
    cases hr : isInterrupted r with
    | true => rw [settle_interrupted hr, ih, retry, if_pos hr]
    | false => simp [settle_decided hr, retry, hr]

theorem attempts_settle (outcomes : List (Result α)) :
    attempts (settle outcomes) = (fun x => (x.1, settle x.2)) <$> attempts outcomes := by
  induction outcomes with
  | nil => rfl
  | cons r outcomes ih =>
    cases hr : isInterrupted r with
    | true =>
      rw [settle_interrupted hr, ih, attempts, if_pos hr]
      cases attempts outcomes with
      | ret x => simp [settle_interrupted hr]
      | _ => rfl
    | false => simp [settle_decided hr, attempts, hr]

end Outcomes

/-! ## The calls on a stream -/

def StreamCall.interrupted : StreamCall → Bool
  | .setNodelay _ r | .flush r | .shutdown r => isInterrupted r
  | .write _ r => isInterrupted r
  | .read _ r => isInterrupted r

def FlushOutcomes.settle (o : FlushOutcomes) : FlushOutcomes :=
  ⟨StakkerMio.settle o.setNodelay, StakkerMio.settle o.write, StakkerMio.settle o.flush,
    StakkerMio.settle o.shutdown⟩

/-- The calls that had an effect. -/
def settleCalls (calls : List StreamCall) : List StreamCall :=
  calls.filter fun c => !c.interrupted

theorem settleCalls_map {α : Type} {f : Result α → StreamCall}
    (hf : ∀ r, (f r).interrupted = isInterrupted r) (tried : List (Result α)) :
    settleCalls (tried.map f) = (settle tried).map f := by
  simp only [settleCalls, settle, List.filter_map, Function.comp_def, hf]

theorem settleCalls_append (calls calls' : List StreamCall) :
    settleCalls (calls ++ calls') = settleCalls calls ++ settleCalls calls' :=
  List.filter_append ..

namespace TcpStreamBuf
variable {usizeMax : Nat}

def Flushing.settle (f : Flushing) : Flushing := { f with calls := settleCalls f.calls }

theorem applyNodelay_settle (b : TcpStreamBuf) (outcomes : List (Result Unit)) :
    b.applyNodelay (settle outcomes) = Flushing.settle <$> b.applyNodelay outcomes := by
  unfold applyNodelay
  split
  · rw [attempts_settle]
    cases attempts outcomes with
    | ret x =>
      obtain ⟨rv, tried⟩ := x
      have hcalls := settleCalls_map (fun _ => rfl) tried (f := StreamCall.setNodelay b.nodelay)
      cases rv <;> simp [Flushing.settle, hcalls]
    | _ => rfl
  · rfl

theorem writeLoop_settle (b : TcpStreamBuf) (outcomes : List (Result Nat)) :
    b.writeLoop (settle outcomes) = Flushing.settle <$> b.writeLoop outcomes := by
  induction outcomes generalizing b with
  | nil =>
    simp only [settle_nil, writeLoop]
    split <;> rfl
  | cons r outcomes ih =>
    cases hempty : b.out.isEmpty with
    | true =>
      have hnone : ∀ outcomes, b.writeLoop outcomes = .ret { buf := b, calls := [] } := by
        intro outcomes
        cases outcomes <;> simp [writeLoop, hempty]
      rw [hnone, hnone]
      rfl
    | false =>
      cases r with
      | error e =>
        by_cases hi : e.kind = .interrupted
        · have hr : isInterrupted (.error e : Result Nat) = true := by simp [isInterrupted, hi]
          rw [settle_interrupted hr, ih]
          simp only [writeLoop, hempty, hi, Bool.false_eq_true, if_false, if_true]
          cases b.writeLoop outcomes with
          | ret f => simp [Flushing.settle, settleCalls, StreamCall.interrupted, hr]
          | _ => rfl
        · have hr : isInterrupted (.error e : Result Nat) = false := by simp [isInterrupted, hi]
          rw [settle_decided hr]
          simp only [writeLoop, hempty, hi, Bool.false_eq_true, if_false]
          split <;> simp [Flushing.settle, settleCalls, StreamCall.interrupted, hr]
      | ok len =>
        rw [settle_decided rfl]
        simp only [writeLoop, hempty, Bool.false_eq_true, if_false]
        split
        · rfl
        · split
          · rw [ih]
            cases writeLoop { b with out := b.out.drop len } outcomes <;> rfl
          · rfl

theorem flushStream_settle (b : TcpStreamBuf) (outcomes : List (Result Unit)) :
    b.flushStream (settle outcomes) = Flushing.settle <$> b.flushStream outcomes := by
  rw [flushStream, flushStream, attempts_settle]
  cases attempts outcomes with
  | ret x =>
    obtain ⟨rv, tried⟩ := x
    have hcalls := settleCalls_map (fun _ => rfl) tried (f := StreamCall.flush)
    cases rv with
    | ok _ => simp [finish, Flushing.settle, hcalls]
    | error e =>
      by_cases he : e.kind = .wouldBlock <;> simp [finish, he, Flushing.settle, hcalls]
  | _ => rfl

theorem shutdownStream_settle (b : TcpStreamBuf) (outcomes : List (Result Unit)) :
    b.shutdownStream (settle outcomes) = Flushing.settle <$> b.shutdownStream outcomes := by
  unfold shutdownStream
  split
  · rw [attempts_settle]
    cases attempts outcomes with
    | ret x =>
      obtain ⟨rv, tried⟩ := x
      have hcalls := settleCalls_map (fun _ => rfl) tried (f := StreamCall.shutdown)
      cases rv with
      | ok _ => simp [finish, Flushing.settle, hcalls]
      | error e =>
        by_cases he : e.kind = .wouldBlock <;> simp [finish, he, Flushing.settle, hcalls]
    | _ => rfl
  · rfl

theorem andThen_settle {k k' : TcpStreamBuf → Exec Flushing}
    (hk : ∀ b, k' b = Flushing.settle <$> k b) (f : Flushing) :
    f.settle.andThen k' = Flushing.settle <$> f.andThen k := by
  unfold Flushing.andThen
  cases hrv : f.rv with
  | some rv => simp [Flushing.settle, hrv]
  | none =>
    simp only [Flushing.settle, hrv, hk]
    cases k f.buf with
    | ret g => simp [Flushing.settle, settleCalls_append]
    | _ => rfl

/-- A flush does and returns what it would if no call had been interrupted. -/
theorem flush_settle (b : TcpStreamBuf) (o : FlushOutcomes) :
    b.flush o.settle = (fun x => (x.1, x.2.1, settleCalls x.2.2)) <$> b.flush o := by
  unfold flush
  split
  · rfl
  · split
    · rfl
    · refine Exec.bind_map (applyNodelay_settle b o.setNodelay) fun f _ => ?_
      refine Exec.bind_map (andThen_settle (fun b => writeLoop_settle b o.write) f) fun f _ => ?_
      refine Exec.bind_map (andThen_settle (fun b => flushStream_settle b o.flush) f) fun f _ => ?_
      exact Exec.bind_map (andThen_settle (fun b => shutdownStream_settle b o.shutdown) f)
        fun f _ => rfl

theorem readLoop_settle (b : TcpStreamBuf) (stop : Nat) (outcomes : List (Result (List UInt8))) :
    readLoop usizeMax b stop (settle outcomes) =
      (fun x => (x.1, x.2.1, settleCalls x.2.2)) <$> readLoop usizeMax b stop outcomes := by
  induction outcomes with
  | nil =>
    simp only [settle_nil, readLoop]
    split <;> rfl
  | cons r outcomes ih =>
    by_cases hrange : b.wr ≤ stop ∧ stop ≤ b.inp.length
    · cases hr : isInterrupted r with
      | true =>
        cases r with
        | ok bytes => cases hr
        | error e =>
          have he : e.kind = .interrupted := by simpa [isInterrupted] using hr
          rw [settle_interrupted hr, ih]
          simp only [readLoop, hrange, he, and_self, if_true]
          cases readLoop usizeMax b stop outcomes with
          | ret x => simp [settleCalls, StreamCall.interrupted, hr]
          | _ => rfl
      | false =>
        rw [settle_decided hr]
        cases r with
        | ok bytes =>
          simp only [readLoop, hrange, and_self, if_true]
          cases bytes with
          | nil => rfl
          | cons a bytes =>
            dsimp only
            cases addUsize usizeMax b.wr (a :: bytes).length <;> rfl
        | error e =>
          have he : e.kind ≠ .interrupted := by simpa [isInterrupted] using hr
          simp only [readLoop, hrange, he, and_self, if_true, if_false]
          split <;> simp [settleCalls, StreamCall.interrupted, hr]
    · have hpanic : ∀ outcomes, readLoop usizeMax b stop outcomes = .panic := by
        intro outcomes
        cases outcomes <;> simp [readLoop, hrange]
      rw [hpanic, hpanic]
      rfl

/-- So does a read. -/
theorem read_settle (spare max : Nat) (b : TcpStreamBuf) (outcomes : List (Result (List UInt8))) :
    b.read usizeMax spare max (settle outcomes) =
      (fun x => (x.1, x.2.1, settleCalls x.2.2)) <$> b.read usizeMax spare max outcomes := by
  unfold read
  cases inpMakespace usizeMax spare b max with
  | ret b' =>
    simp only [Exec.ret_bind]
    split
    · rfl
    · cases addUsize usizeMax b'.wr max with
      | ret stop => exact readLoop_settle b' stop outcomes
      | _ => rfl
  | _ => rfl

end TcpStreamBuf

/-! ## Runs over a `TcpStreamBuf` -/

def TcpOp.settle : TcpOp → TcpOp
  | .flush outcomes => .flush outcomes.settle
  | .read max spare outcomes => .read max spare (StakkerMio.settle outcomes)
  | op => op

def TcpEvent.interrupted : TcpEvent → Bool
  | .call c => c.interrupted
  | _ => false

/-- What happened, but for the attempts that came to nothing. -/
def settleTrace (tr : List TcpEvent) : List TcpEvent := tr.filter fun e => !e.interrupted

theorem settleTrace_calls (tr : List TcpEvent) (calls : List StreamCall) :
    settleTrace (tr ++ calls.map .call) = settleTrace tr ++ (settleCalls calls).map .call := by
  simp only [settleTrace, settleCalls, List.filter_append, List.filter_map, Function.comp_def,
    TcpEvent.interrupted]

theorem settleTrace_append (tr es : List TcpEvent) :
    settleTrace (tr ++ es) = settleTrace tr ++ settleTrace es :=
  List.filter_append ..

theorem settleTrace_keep (tr : List TcpEvent) {es : List TcpEvent}
    (hes : ∀ e ∈ es, e.interrupted = false) : settleTrace (tr ++ es) = settleTrace tr ++ es := by
  have hall : settleTrace es = es := List.filter_eq_self.mpr fun e he => by simp [hes e he]
  rw [settleTrace_append, hall]

namespace TcpSession
variable {usizeMax : Nat}

def settle (s : TcpSession) : TcpSession := ⟨s.buf, settleTrace s.trace⟩

theorem step_settle (s : TcpSession) (op : TcpOp) :
    step usizeMax s.settle op.settle = settle <$> step usizeMax s op := by
  have hone : ∀ (b : TcpStreamBuf) (e : TcpEvent), e.interrupted = false →
      Exec.ret (TcpSession.mk b (settleTrace s.trace ++ [e])) =
        settle <$> Exec.ret (TcpSession.mk b (s.trace ++ [e])) := by
    intro b e he
    rw [Exec.map_ret, settle, settleTrace_keep s.trace (by simpa using he)]
  have hcalls : ∀ (b : TcpStreamBuf) (calls : List StreamCall),
      Exec.ret (TcpSession.mk b (settleTrace s.trace ++ (settleCalls calls).map .call)) =
        settle <$> Exec.ret (TcpSession.mk b (s.trace ++ calls.map .call)) := by
    intro b calls
    rw [Exec.map_ret, settle, settleTrace_calls]
  cases op with
  | append | ioWrite | setOutEof | init | deinit | setNodelay | pauseWrites | consume =>
    exact hone _ _ rfl
  | flush outcomes =>
    exact Exec.bind_map (TcpStreamBuf.flush_settle s.buf outcomes) fun x _ => hcalls x.1 x.2.2
  | inpMakespace max spare =>
    change (TcpStreamBuf.inpMakespace usizeMax spare s.buf max >>= _) = _
    cases h : TcpStreamBuf.inpMakespace usizeMax spare s.buf max with
    | ret b => simp only [step, h, Exec.ret_bind, Exec.map_ret]; rfl
    | _ => simp only [step, h]; rfl
  | read max spare outcomes =>
    exact Exec.bind_map (TcpStreamBuf.read_settle spare max s.buf outcomes)
      fun x _ => hcalls x.1 x.2.2
  | ioRead len =>
    change (s.buf.ioRead len >>= _) = settle <$> (s.buf.ioRead len >>= _)
    cases s.buf.ioRead len with
    | ret x =>
      obtain ⟨b, rv⟩ := x
      simp only [Exec.ret_bind, Exec.map_ret, settle]
      rw [settleTrace_keep]
      cases rv <;> simp [TcpEvent.interrupted]
    | _ => rfl

end TcpSession

/-! ## Runs over a `TlsServerEngine` -/

def TlsOutcomes.settle (o : TlsOutcomes) : TlsOutcomes :=
  { o with flushes := o.flushes.map FlushOutcomes.settle }

def TlsEvent.interrupted {SC : Type} : TlsEvent SC → Bool
  | .call c => c.interrupted
  | _ => false

def settleEvents {SC : Type} (es : List (TlsEvent SC)) : List (TlsEvent SC) :=
  es.filter fun e => !e.interrupted

theorem settleEvents_calls {SC : Type} (es : List (TlsEvent SC)) (calls : List StreamCall) :
    settleEvents (es ++ calls.map .call) = settleEvents es ++ (settleCalls calls).map .call := by
  simp only [settleEvents, settleCalls, List.filter_append, List.filter_map, Function.comp_def,
    TlsEvent.interrupted]

namespace TlsPump
variable {SC : Type}

def settle (p : TlsPump SC) : TlsPump SC :=
  { p with outcomes := p.outcomes.settle, events := settleEvents p.events }

/-- What a turn leaves, or returns. -/
def settleTurn : Turn SC → Turn SC := Sum.map settle (Prod.map settle id)

theorem log_settle (p : TlsPump SC) {event : TlsEvent SC} (he : event.interrupted = false) :
    p.settle.log event = (p.log event).settle := by
  simp [log, settle, settleEvents, List.filter_append, he]

theorem flushExt_settle (p : TlsPump SC) : p.settle.flushExt = settleTurn <$> p.flushExt := by
  unfold flushExt
  cases hflushes : p.outcomes.flushes with
  | nil => simp [settle, TlsOutcomes.settle, hflushes]
  | cons o flushes =>
    simp only [settle, TlsOutcomes.settle, hflushes, List.map_cons]
    refine Exec.bind_map (TcpStreamBuf.flush_settle p.ext o) fun x _ => ?_
    obtain ⟨ext, rv, calls⟩ := x
    cases rv <;> simp [fail, goOn, settleTurn, settle, TlsOutcomes.settle, settleEvents_calls]

variable [ServerConnection SC] {usizeMax : Nat}

theorem writeTlsArm_settle (p : TlsPump SC) :
    p.settle.writeTlsArm = settleTurn <$> p.writeTlsArm := by
  have hwrite : p.settle.writeTls = (p.writeTls.1.settle, p.writeTls.2) := by
    simp only [writeTls]
    rw [← log_settle _ rfl]
    rfl
  have hpass : ∀ q : TlsPump SC, q.settle.passOutEof = q.passOutEof.settle := by
    intro q
    cases hpass : q.sentOutEof && !ServerConnection.wantsWrite q.sc with
    | true => simp [passOutEof, settle, hpass, log, settleEvents, TlsEvent.interrupted]
    | false => simp [passOutEof, settle, hpass]
  unfold writeTlsArm
  rw [hwrite]
  obtain ⟨q, rv⟩ := p.writeTls
  cases rv with
  | error e => rfl
  | ok n =>
    dsimp only
    rw [hpass, flushExt_settle]

theorem writerArm_settle (p : TlsPump SC) : p.settle.writerArm = settleTurn <$> p.writerArm := by
  have hsc : p.settle.sc = p.sc := rfl
  have hint : p.settle.int = p.int := rfl
  unfold writerArm
  rw [hsc, hint]
  rcases ServerConnection.writerWrite p.sc p.int.out with ⟨sc, e | len⟩
  · rfl
  · by_cases hlen : len ≤ p.int.out.length
    · simp [hlen, goOn, settleTurn, settle, log, settleEvents, TlsEvent.interrupted]
    · simp [hlen]

theorem readTlsArm_settle (p : TlsPump SC) :
    p.settle.readTlsArm = settleTurn <$> p.readTlsArm := by
  have hread : p.settle.readTls = Prod.map settle id <$> p.readTls := by
    have hsc : p.settle.sc = p.sc := rfl
    have hext : p.settle.ext = p.ext := rfl
    unfold readTls
    rw [hsc, hext]
    cases ServerConnection.readTls p.sc with
    | error e => rfl
    | ok x =>
      obtain ⟨room, next⟩ := x
      dsimp only
      cases p.ext.ioRead room with
      | ret x =>
        simp [settle, log, settleEvents, TlsEvent.interrupted]
      | _ => rfl
  refine Exec.bind_map hread fun x _ => ?_
  obtain ⟨q, e | n⟩ := x
  · rfl
  · have hsc : q.settle.sc = q.sc := rfl
    simp only [Prod.map, id_eq, hsc]
    rcases ServerConnection.processNewPackets q.sc with ⟨sc, e | readLen⟩ <;> rfl

omit [ServerConnection SC] in
theorem makespace_settle (p : TlsPump SC) (readLen : Nat) :
    p.settle.makespace usizeMax readLen = settleTurn <$> p.makespace usizeMax readLen := by
  have hint : p.settle.int = p.int := rfl
  have hspares : p.settle.outcomes.spares = p.outcomes.spares := rfl
  unfold makespace
  rw [hint, hspares]
  cases TcpStreamBuf.inpMakespace usizeMax (p.outcomes.spares.headD 0) p.int readLen <;> rfl

theorem readOut_settle (p : TlsPump SC) :
    p.settle.readOut usizeMax = settleTurn <$> p.readOut usizeMax := by
  have hsc : p.settle.sc = p.sc := rfl
  have hint : p.settle.int = p.int := rfl
  unfold readOut
  rw [hsc, hint]
  by_cases hrange : p.int.inp.length < p.int.wr
  · rw [if_pos hrange, if_pos hrange]
    rfl
  · rw [if_neg hrange, if_neg hrange]
    rcases ServerConnection.readerRead p.sc (p.int.inp.length - p.int.wr) with ⟨sc, e | bytes⟩
    · by_cases hblock : e.kind = .wouldBlock
      · simp [hblock, goOn, settleTurn, settle]
      · by_cases heof : e.kind = .unexpectedEof
        · simp [heof, goOn, settleTurn, settle]
        · simp [hblock, heof, fail, settleTurn, settle]
    · cases bytes with
      | nil => rfl
      | cons a bytes =>
        dsimp only
        cases addUsize usizeMax p.int.wr (a :: bytes).length with
        | ret wr => simp [goOn, settleTurn, settle, log, settleEvents, TlsEvent.interrupted]
        | _ => rfl

theorem turn_settle (p : TlsPump SC) : turn usizeMax p.settle = settleTurn <$> turn usizeMax p := by
  have hphase : p.settle.phase = p.phase := rfl
  have harm : p.settle.arm = p.arm := rfl
  unfold turn
  rw [hphase, harm]
  cases p.phase with
  | main =>
    cases p.arm with
    | writeTls => exact writeTlsArm_settle p
    | writer => exact writerArm_settle p
    | closeNotify => rfl
    | readTls => exact readTlsArm_settle p
    | leave => rfl
  | makespace readLen => exact makespace_settle p readLen
  | readOut => exact readOut_settle p

end TlsPump

namespace TlsServerEngine
variable {SC : Type} [ServerConnection SC] {usizeMax : Nat}

def Processed.settle (r : Processed SC) : Processed SC := { r with events := settleEvents r.events }

theorem process_settle (fuel : Nat) (e : TlsServerEngine SC) (ext int : TcpStreamBuf)
    (outcomes : TlsOutcomes) : e.process usizeMax fuel ext int outcomes.settle =
      Processed.settle <$> e.process usizeMax fuel ext int outcomes := by
  unfold process
  cases e.sc with
  | some sc =>
    have hpump : e.pump sc ext int outcomes.settle = (e.pump sc ext int outcomes).settle := rfl
    have hturn : ∀ p : TlsPump SC,
        p.settle.turn usizeMax = TlsPump.settleTurn <$> p.turn usizeMax :=
      TlsPump.turn_settle
    have hloop := loop_map hturn fuel (e.pump sc ext int outcomes)
    dsimp only
    rw [hpump, hloop]
    cases loop (TlsPump.turn usizeMax) fuel (e.pump sc ext int outcomes) <;> rfl
  | none =>
    dsimp only
    unfold passThrough
    have hspares : outcomes.settle.spares = outcomes.spares := rfl
    rw [hspares]
    cases int.exchange usizeMax (outcomes.spares.headD 0) ext with
    | ret x =>
      simp only [Exec.ret_bind]
      cases hflushes : outcomes.flushes with
      | nil => simp [TlsOutcomes.settle, hflushes]
      | cons o flushes =>
        simp only [TlsOutcomes.settle, hflushes, List.map_cons]
        refine Exec.bind_map (TcpStreamBuf.flush_settle x.2 o) fun y _ => ?_
        obtain ⟨ext', rv, calls⟩ := y
        simp only [Exec.map_ret, Processed.settle, settleEvents_calls]
        rfl
    | _ => rfl

end TlsServerEngine

def TlsOp.settle : TlsOp → TlsOp
  | .process fuel outcomes => .process fuel outcomes.settle
  | .ext op => .ext op.settle
  | .int op => .int op.settle

def TlsSessionEvent.interrupted {SC : Type} : TlsSessionEvent SC → Bool
  | .engine e => e.interrupted
  | .ext e | .int e => e.interrupted

namespace TlsSession
variable {SC : Type}

def settle (s : TlsSession SC) : TlsSession SC :=
  { s with trace := s.trace.filter fun e => !e.interrupted }

variable [ServerConnection SC] {usizeMax : Nat}

theorem step_settle (s : TlsSession SC) (op : TlsOp) :
    step usizeMax s.settle op.settle = settle <$> step usizeMax s op := by
  cases op with
  | process fuel outcomes =>
    refine Exec.bind_map (s.engine.process_settle fuel s.ext s.int outcomes) fun r _ => ?_
    simp [settle, TlsServerEngine.Processed.settle, settleEvents, List.filter_map,
      Function.comp_def, TlsSessionEvent.interrupted, TlsEvent.interrupted]
  | ext op =>
    refine Exec.bind_map (TcpSession.step_settle ⟨s.ext, []⟩ op) fun t _ => ?_
    simp [settle, TcpSession.settle, settleTrace, List.filter_map, Function.comp_def,
      TlsSessionEvent.interrupted]
  | int op =>
    refine Exec.bind_map (TcpSession.step_settle ⟨s.int, []⟩ op) fun t _ => ?_
    simp [settle, TcpSession.settle, settleTrace, List.filter_map, Function.comp_def,
      TlsSessionEvent.interrupted]

/-- **Interruptions leave no mark.** Any run over a `TlsServerEngine` and its two buffers,
with or without TLS, goes as the run in which no call on the stream is interrupted: it
returns, panics or waits when that one does, it leaves the same engine and buffers, and
what is recorded (what each `process` returned, what was taken, fed, decoded, and every call
on the stream) is the same but for the interrupted attempts. -/
theorem interrupts_leave_no_mark (usizeMax : Nat) (s : TlsSession SC) (ops : List TlsOp) :
    runs usizeMax s.settle (ops.map TlsOp.settle) = settle <$> runs usizeMax s ops :=
  run_map (I := fun _ => True) (fun _ _ _ _ _ => trivial) (fun s op _ => step_settle s op) ops
    trivial

end TlsSession
end StakkerMio
