import StakkerMio.EchoServer.Server
import StakkerMio.Interrupts

/-! # The server when its calls are interrupted

What `settle` takes out makes no difference to the server: neither where the crate retries
a call, nor where `connect` goes on with its loop. -/
namespace StakkerMio
open Lib

/-! ## The controller -/

section Control
variable {S F ρ : Type} [Slab S (Entry F)]

def Op.settle : Op F ρ → Op F ρ
  | .add pri fwd register => .add pri fwd (StakkerMio.settle register)
  | .drop id deregister => .drop id (StakkerMio.settle deregister)
  | .setWakeFwd fwd => .setWakeFwd fwd
  | .poll outcomes => .poll (StakkerMio.settle outcomes)

theorem System.next_settle (s : System (Control S F ρ) F ρ) (op : Op F ρ) :
    s.next op.settle = s.next op := by
  cases op with
  | add pri fwd register =>
    simp only [System.next, System.step, Op.settle, Control.controller, Control.add, retry_settle]
  | drop id deregister =>
    simp only [System.next, System.step, Op.settle, Control.controller, Control.drop, Control.del,
      retry_settle]
  | setWakeFwd fwd => rfl
  | poll outcomes =>
    simp only [System.next, System.step, Op.settle, Control.controller, Control.poll, retry_settle]

end Control

/-! ## An `Echoer` -/

namespace Echoer
variable {usizeMax : Nat}

def settle (e : Echoer) : Echoer := { e with tcp := e.tcp.settle }

def Turn.settle (turn : Turn) : Turn :=
  { turn with read := StakkerMio.settle turn.read, flush := turn.flush.settle }

def Invocation.settle : Invocation → Invocation
  | .ready r turns flush => .ready r (turns.map Turn.settle) flush.settle
  | .timer i flush => .timer i flush.settle

theorem flush_settle (e : Echoer) (o : FlushOutcomes) :
    e.settle.flush o.settle = settle <$> e.flush o := by
  refine Exec.bind_map (TcpStreamBuf.flush_settle e.tcp.buf o) fun x _ => ?_
  simp [settle, TcpSession.settle, settleTrace_calls]

theorem setOutEof_settle (e : Echoer) (o : FlushOutcomes) :
    e.settle.setOutEof o.settle = settle <$> e.setOutEof o := by
  rw [setOutEof, setOutEof, ← flush_settle, settle, settle, TcpSession.settle, TcpSession.settle,
    settleTrace_keep _ (by simp [TcpEvent.interrupted])]

theorem sendData_settle (e : Echoer) (data : List UInt8) (o : FlushOutcomes) :
    e.settle.sendData data o.settle = settle <$> e.sendData data o := by
  rw [sendData, sendData, ← flush_settle, settle, settle, TcpSession.settle, TcpSession.settle,
    settleTrace_keep _ (by simp [TcpEvent.interrupted])]

theorem checkSpecialChars_settle (e : Echoer) (data : List UInt8) (o : FlushOutcomes) :
    e.settle.checkSpecialChars data o.settle = settle <$> e.checkSpecialChars data o := by
  have hbang : (if data.contains '!'.toUInt8 then e.settle.setOutEof o.settle else .ret e.settle) =
      settle <$> if data.contains '!'.toUInt8 then e.setOutEof o else .ret e := by
    split
    · exact setOutEof_settle e o
    · rfl
  refine Exec.bind_map hbang fun e _ => ?_
  split <;> rfl

theorem takeInput_settle (e : Echoer) :
    e.settle.takeInput = Prod.map id settle <$> e.takeInput := by
  have hbuf : e.settle.tcp.buf = e.tcp.buf := rfl
  unfold takeInput
  rw [hbuf]
  dsimp only
  split
  · rw [Exec.map_ret, Prod.map, settle, settle, TcpSession.settle, TcpSession.settle,
      settleTrace_keep _ (by simp [TcpEvent.interrupted])]
    rfl
  · rfl

theorem readLoop_settle (e : Echoer) (turns : List Turn) :
    e.settle.readLoop usizeMax (turns.map Turn.settle) = settle <$> e.readLoop usizeMax turns := by
  induction turns generalizing e with
  | nil => rfl
  | cons turn turns ih =>
    refine Exec.bind_map
      (TcpStreamBuf.read_settle turn.spare READ_MAX e.tcp.buf turn.read) fun x _ => ?_
    obtain ⟨buf, status, calls⟩ := x
    have hread :
        { e.settle with tcp := ⟨buf, e.settle.tcp.trace ++ (settleCalls calls).map .call⟩ } =
        settle { e with tcp := ⟨buf, e.tcp.trace ++ calls.map .call⟩ } := by
      simp [settle, TcpSession.settle, settleTrace_calls]
    dsimp only
    rw [hread]
    cases status with
    | newData =>
      refine Exec.bind_map (takeInput_settle _) fun x _ => ?_
      refine Exec.bind_map (checkSpecialChars_settle x.2 x.1 turn.flush) fun e _ => ?_
      exact ih { e with timers := e.timers ++ [.sendData x.1] }
    | wouldBlock => rfl
    | endOfStream | error => simp [settle, TcpSession.settle, settleTrace_calls]

theorem invoke_settle (e : Echoer) (inv : Invocation) :
    e.settle.invoke usizeMax inv.settle = settle <$> e.invoke usizeMax inv := by
  have hcauses : e.settle.causes = e.causes := rfl
  unfold invoke
  rw [hcauses]
  split
  · cases inv with
    | ready ready turns o =>
      have hreads : (if ready.isReadable then e.settle.readLoop usizeMax (turns.map Turn.settle)
          else .ret e.settle) =
          settle <$> if ready.isReadable then e.readLoop usizeMax turns else .ret e := by
        split
        · exact readLoop_settle e turns
        · rfl
      refine Exec.bind_map hreads fun e _ => ?_
      split
      · exact flush_settle e o
      · rfl
    | timer i o =>
      have htimers : e.settle.timers = e.timers := rfl
      change e.settle.fire i o.settle = settle <$> e.fire i o
      unfold fire
      rw [htimers]
      cases e.timers[i]? with
      | none => rfl
      | some delayed =>
        let e' := { e with timers := e.timers.eraseIdx i, fired := e.fired ++ [delayed] }
        cases delayed with
        | sendData data => exact sendData_settle e' data o
        | sendEof => exact setOutEof_settle e' o
  · rfl

/-! What was recorded stays so. -/

variable {e e' : Echoer}

theorem flush_extends {o : FlushOutcomes} (h : e.flush o = .ret e') :
    e.tcp.trace <+: e'.tcp.trace := by
  obtain ⟨_, _, calls, -, rfl⟩ := flush_ret h
  exact List.prefix_append _ _

theorem setOutEof_extends {o : FlushOutcomes} (h : e.setOutEof o = .ret e') :
    e.tcp.trace <+: e'.tcp.trace :=
  (List.prefix_append _ _).trans (flush_extends h)

theorem readLoop_extends {turns : List Turn} (h : e.readLoop usizeMax turns = .ret e') :
    e.tcp.trace <+: e'.tcp.trace := by
  induction turns generalizing e with
  | nil => cases h
  | cons turn turns ih =>
    obtain ⟨⟨buf, status, calls⟩, -, h⟩ := Exec.bind_eq_ret.mp h
    have hread : e.tcp.trace <+: e.tcp.trace ++ calls.map .call := List.prefix_append _ _
    refine hread.trans ?_
    cases status with
    | newData =>
      obtain ⟨⟨data, e₁⟩, htake, h⟩ := Exec.bind_eq_ret.mp h
      obtain ⟨e₂, hcheck, h⟩ := Exec.bind_eq_ret.mp h
      obtain ⟨e₃, hbang, hcheck⟩ := Exec.bind_eq_ret.mp hcheck
      have htaken : e.tcp.trace ++ calls.map .call <+: e₁.tcp.trace := by
        rw [(takeInput_ret htake).2]
        exact List.prefix_append _ _
      have hsent : e₁.tcp.trace <+: e₃.tcp.trace := by
        split at hbang
        · exact setOutEof_extends hbang
        · cases hbang
          exact List.prefix_rfl
      have hchecked : e₃.tcp.trace = e₂.tcp.trace := by
        split at hcheck <;> cases hcheck <;> rfl
      have hrest := ih h
      exact (htaken.trans hsent).trans (hchecked ▸ hrest)
    | wouldBlock | endOfStream | error =>
      cases h
      exact List.prefix_rfl

theorem invoke_extends {inv : Invocation} (h : e.invoke usizeMax inv = .ret e') :
    e.tcp.trace <+: e'.tcp.trace := by
  unfold invoke at h
  split at h
  · cases inv with
    | ready ready turns o =>
      obtain ⟨e₁, hread, h⟩ := Exec.bind_eq_ret.mp h
      have hread : e.tcp.trace <+: e₁.tcp.trace := by
        split at hread
        · exact readLoop_extends hread
        · cases hread
          exact List.prefix_rfl
      refine hread.trans ?_
      split at h
      · exact flush_extends h
      · cases h
        exact List.prefix_rfl
    | timer i o =>
      change e.fire i o = .ret e' at h
      unfold fire at h
      split at h
      · cases h
        exact List.prefix_rfl
      · split at h
        · exact (List.prefix_append _ _).trans (flush_extends h)
        · have hsent := setOutEof_extends h
          exact hsent
  · cases h
    exact List.prefix_rfl

end Echoer

/-! ## The server -/

def Conn.settle (conn : Conn) : Conn := { conn with echoer := conn.echoer.settle }

def Script.settle (script : Script) : Script :=
  { script with
    register := StakkerMio.settle script.register
    accepts := StakkerMio.settle script.accepts
    turns := script.turns.map Echoer.Turn.settle
    flush := script.flush.settle
    deregister := StakkerMio.settle script.deregister }

def RuntimeOp.settle : RuntimeOp → RuntimeOp
  | .call script => .call script.settle
  | .timer id i flush deregister => .timer id i flush.settle (StakkerMio.settle deregister)
  | .inactive => .inactive

def ServerOp.settle : ServerOp → ServerOp
  | .poll outcomes => .poll (StakkerMio.settle outcomes)
  | .runtime op => .runtime op.settle

/-- An interrupted call is none that would block. -/
theorem any_settleTrace {p : TcpEvent → Bool} (hp : ∀ e, e.interrupted = true → p e = false)
    (es : List TcpEvent) : (settleTrace es).any p = es.any p := by
  induction es with
  | nil => rfl
  | cons e es ih =>
    rw [settleTrace] at ih ⊢
    cases he : e.interrupted with
    | true => rw [List.filter_cons_of_neg (by simp [he]), ih, List.any_cons, hp e he, Bool.false_or]
    | false => rw [List.filter_cons_of_pos (by simp [he]), List.any_cons, ih, List.any_cons]

theorem TcpEvent.not_blocked {e : TcpEvent} (he : e.interrupted = true) :
    e.blockedRead = false ∧ e.blockedWrite = false := by
  have hkind : ∀ {err : Error}, (err.kind == .interrupted) = true →
      (err.kind == .wouldBlock) = false := by
    intro err h
    rw [beq_iff_eq] at h
    rw [h]
    rfl
  cases e with
  | call c =>
    cases c with
    | setNodelay nodelay r => exact ⟨rfl, rfl⟩
    | write buf r =>
      cases r with
      | ok len => cases he
      | error err => exact ⟨rfl, hkind he⟩
    | flush r | shutdown r =>
      cases r with
      | ok _ => cases he
      | error err => exact ⟨rfl, hkind he⟩
    | read room r =>
      cases r with
      | ok bytes => cases he
      | error err => exact ⟨hkind he, rfl⟩
  | _ => cases he

namespace Server
variable {S : Type} [Slab S (Entry Handler)] {cfg : ServerConfig}

def settle (s : Server S) : Server S :=
  { s with conns := fun id => (s.conns id).map Conn.settle }

omit [Slab S (Entry Handler)] in
theorem settle_update (s : Server S) (id : Nat) (conn : Option Conn) :
    (fun i => (Function.update s.conns id conn i).map Conn.settle) =
      Function.update s.settle.conns id (conn.map Conn.settle) := by
  funext i
  by_cases hi : i = id
  · subst hi
    simp
  · simp [Function.update_of_ne hi, settle]

theorem poll_settle (s : Server S) (outcomes : List (Result (List (Event Ready)))) :
    s.settle.poll (StakkerMio.settle outcomes) = settle <$> s.poll outcomes := by
  have hevents : eventsOf (StakkerMio.settle outcomes) = eventsOf outcomes := by
    rw [eventsOf, eventsOf, retry_settle]
  have hsys : s.settle.sys.next (.poll (StakkerMio.settle outcomes)) =
      s.sys.next (.poll outcomes) := s.sys.next_settle (.poll outcomes)
  unfold poll
  rw [hsys, hevents]
  cases s.sys.next (.poll outcomes) with
  | ret sys => simp [settle, reports, Conn.report, Conn.settle, Function.comp_def]
  | _ => rfl

omit [Slab S (Entry Handler)] in
theorem connect_settle (s : Server S) (accepts : List (Result Unit)) :
    s.settle.connect (StakkerMio.settle accepts) = settle <$> s.connect accepts := by
  induction accepts generalizing s with
  | nil => rfl
  | cons r accepts ih =>
    cases r with
    | ok _ =>
      rw [settle_decided rfl]
      exact ih { s with inbox := s.inbox ++ [.accepted] }
    | error e =>
      by_cases hi : e.kind = .interrupted
      · rw [settle_interrupted (by simp [isInterrupted, hi]), ih]
        simp [connect, hi]
      · rw [settle_decided (by simp [isInterrupted, hi])]
        simp only [connect, hi, if_false]
        split <;> rfl

theorem invoke_settle (s : Server S) (id : Nat) (inv : Echoer.Invocation)
    (deregister : List (Result Unit)) :
    s.settle.invoke cfg id inv.settle (StakkerMio.settle deregister) =
      settle <$> s.invoke cfg id inv deregister := by
  unfold invoke
  cases hconn : s.conns id with
  | none => simp [settle, hconn]
  | some conn =>
    have hself : s.settle.conns id = some conn.settle := by simp [settle, hconn]
    rw [hself]
    refine Exec.bind_map (conn.echoer.invoke_settle inv) fun e he => ?_
    obtain ⟨es, hes⟩ := Echoer.invoke_extends he
    have hcauses : e.settle.causes = e.causes := rfl
    rw [hcauses]
    split
    · have hdrop : e.tcp.trace.drop conn.echoer.tcp.trace.length = es := by
        rw [← hes, List.drop_left]
      have hdrop' : e.settle.tcp.trace.drop conn.settle.echoer.tcp.trace.length =
          settleTrace es := by
        change (settleTrace e.tcp.trace).drop (settleTrace conn.echoer.tcp.trace).length = _
        rw [← hes, settleTrace_append, List.drop_left]
      dsimp only
      rw [hdrop, hdrop', any_settleTrace fun e he => (TcpEvent.not_blocked he).1,
        any_settleTrace fun e he => (TcpEvent.not_blocked he).2, Exec.map_ret]
      simp only [settle, settle_update]
      rfl
    · have hsys : s.settle.sys.next (.drop id (StakkerMio.settle deregister)) =
          s.sys.next (.drop id deregister) := s.sys.next_settle (.drop id deregister)
      rw [hsys]
      cases s.sys.next (.drop id deregister) with
      | ret sys =>
        simp only [Exec.ret_bind, Exec.map_ret, settle, settle_update]
        rfl
      | _ => rfl

theorem listen_settle (s : Server S) (script : Script) :
    s.settle.listen cfg script.settle = settle <$> s.listen cfg script := by
  have hsys : s.settle.sys.next (.add cfg.listenerPri .connect script.settle.register) =
      s.sys.next (.add cfg.listenerPri .connect script.register) :=
    s.sys.next_settle (.add cfg.listenerPri .connect script.register)
  have hretry : retry script.settle.register = retry script.register := retry_settle _
  have hbind : script.settle.bind = script.bind := rfl
  unfold listen
  rw [hsys, hretry, hbind]
  cases script.bind with
  | error e => rfl
  | ok _ =>
    cases s.sys.next (.add cfg.listenerPri .connect script.register) with
    | ret sys =>
      simp only [Exec.ret_bind]
      split <;> rfl
    | _ => rfl

theorem initEchoer_settle (s : Server S) (script : Script) :
    s.settle.initEchoer cfg script.settle = settle <$> s.initEchoer cfg script := by
  let op : Op Handler Ready := .add cfg.echoerPri (.ready (s.sys.adds + 1)) script.register
  have hsys : s.settle.sys.next op.settle = s.sys.next op := s.sys.next_settle op
  have hretry : retry script.settle.register = retry script.register := retry_settle _
  change (s.settle.sys.next op.settle >>= _) = settle <$> (s.sys.next op >>= _)
  rw [hsys, hretry]
  cases s.sys.next op with
  | ret sys =>
    simp only [Exec.ret_bind]
    split
    · rfl
    · simp only [Exec.map_ret, settle, settle_update]
      rfl
  | _ => rfl

theorem call_settle (s : Server S) (script : Script) :
    s.settle.call cfg script.settle = settle <$> s.call cfg script := by
  have hinbox : s.settle.inbox = s.inbox := rfl
  unfold call
  rw [hinbox]
  cases s.inbox with
  | nil => rfl
  | cons message inbox =>
    let s' := { s with inbox := inbox }
    cases message with
    | listen => exact s'.listen_settle script
    | accepted => exact s'.initEchoer_settle script
    | event fwd ready =>
      cases fwd with
      | nop | wake => rfl
      | connect =>
        have hlistener : s.settle.listener = s.listener := rfl
        dsimp only
        rw [hlistener]
        split
        · exact s'.connect_settle script.accepts
        · rfl
      | ready id => exact s'.invoke_settle id (.ready ready script.turns script.flush) _
    | terminated causes =>
      dsimp only
      split <;> rfl

theorem step_settle (s : Server S) (op : ServerOp) :
    s.settle.step cfg op.settle = settle <$> s.step cfg op := by
  have hshutdown : s.settle.shutdown = s.shutdown := rfl
  unfold step
  rw [hshutdown]
  split
  · rfl
  · cases op with
    | poll outcomes => exact s.poll_settle outcomes
    | runtime op =>
      cases op with
      | call script => exact s.call_settle script
      | timer id i flush deregister => exact s.invoke_settle id (.timer i flush) deregister
      | inactive => rfl

/-- **Retries go unnoticed.** Every run of the server goes as the run in which no system
call is interrupted: no accept, registration or poll, and no call on a stream. The two end
with the same controller, the same queues of events and calls, the same actors and the same
calls put off; what is recorded for the streams differs by the interrupted attempts only. -/
theorem retries_go_unnoticed (cfg : ServerConfig) (s : Server S) (ops : List ServerOp) :
    runs cfg s.settle (ops.map ServerOp.settle) = settle <$> runs cfg s ops :=
  run_map (I := fun _ => True) (fun _ _ _ _ _ => trivial) (fun s op _ => step_settle s op) ops
    trivial

end Server
end StakkerMio
