import StakkerMio.EchoServer.Wakeups

/-! # The loop of `main`

Each turn polls and lets the runtime work until its queue is empty. The first flag that
`poll` returns says whether idle calls may be made, the second keeps the next poll from
sleeping. -/
namespace StakkerMio
open Lib

/-- What becomes of a call of `Stakker::run`: what the runtime does until its queue is
empty, and whether idle calls are left then. -/
structure RunScript where
  ops : List RuntimeOp := []
  idlePending : Bool := false

/-- A turn of the loop. -/
structure MainTurn where
  poll : List (Result (List (Event Ready)))
  run : RunScript := {}

/-- The variables of `main`. `idle` is what the runtime was told last. -/
structure MainLoop (S : Type) where
  server : Server S
  idlePending : Bool
  ioPending : Bool := false
  idle : Bool := false

variable {S : Type} [Slab S (Entry Handler)]

/-- `Stakker::run`. -/
def Server.work (cfg : ServerConfig) (s : Server S) (ops : List RuntimeOp) : Exec (Server S) := do
  let s ← Lib.run (fun s op => Server.step cfg s (.runtime op)) s ops
  if s.shutdown || s.inbox.isEmpty then .ret s else .wait

namespace MainLoop

def start (cfg : ServerConfig) (c : Control S Handler Ready) (run : RunScript) :
    Exec (MainLoop S) := do
  let server ← (Server.start c).work cfg run.ops
  .ret { server := server, idlePending := run.idlePending }

def turn (cfg : ServerConfig) (m : MainLoop S) (o : MainTurn) : Exec (MainLoop S) :=
  if m.server.shutdown then .ret m else do
    let server ← m.server.poll o.poll
    match server.sys.polled.getLast? with
    | some (.ok (activity, ioPending), _) => do
      let server ← server.work cfg o.run.ops
      .ret ⟨server, o.run.idlePending, ioPending, !activity⟩
    | _ => .ret { m with server := { server with shutdown := true } }

/-- `main`, as far as it has come after the turns. -/
def main (cfg : ServerConfig) (c : Control S Handler Ready) (run : RunScript)
    (turns : List MainTurn) : Exec (MainLoop S) := do
  let m ← start cfg c run
  Lib.run (turn cfg) m turns

end MainLoop

def RunScript.acceptsSome (run : RunScript) : Bool := run.ops.all RuntimeOp.acceptsSome

namespace Server
variable {s t : Server S} {cfg : ServerConfig}

omit [Slab S (Entry Handler)] in
theorem connect_frame {accepts : List (Result Unit)} (ht : s.connect accepts = .ret t) :
    t.sys = s.sys ∧ t.conns = s.conns := by
  induction accepts generalizing s with
  | nil => cases ht
  | cons r accepts ih =>
    cases r with
    | ok _ =>
      have hframe := ih ht
      exact hframe
    | error e =>
      unfold Server.connect at ht
      split at ht
      · cases ht
        exact ⟨rfl, rfl⟩
      · split at ht
        · exact ih ht
        · cases ht
          exact ⟨rfl, rfl⟩

theorem invoke_queue (hs : s.sys.Owned) {id : Nat} {inv : Echoer.Invocation}
    {deregister : List (Result Unit)} (ht : s.invoke cfg id inv deregister = .ret t) :
    t.sys.Owned ∧ t.sys.ctrl.queue = s.sys.ctrl.queue := by
  unfold Server.invoke at ht
  split at ht
  · cases ht
    exact ⟨hs, rfl⟩
  · obtain ⟨e, -, ht⟩ := Exec.bind_eq_ret.mp ht
    dsimp only at ht
    split at ht
    · cases ht
      exact ⟨hs, rfl⟩
    · obtain ⟨sys, hsys, ht⟩ := Exec.bind_eq_ret.mp ht
      cases ht
      exact ⟨hs.next hsys, (hs.drop_frame hsys).1⟩

theorem call_queue (hs : s.sys.Owned) {script : Script} (ht : s.call cfg script = .ret t) :
    t.sys.Owned ∧ t.sys.ctrl.queue = s.sys.ctrl.queue := by
  unfold Server.call at ht
  split at ht
  · cases ht
    exact ⟨hs, rfl⟩
  · rename_i inbox _
    dsimp only at ht
    split at ht
    · unfold Server.listen at ht
      split at ht
      · cases ht
        exact ⟨hs, rfl⟩
      · obtain ⟨sys, hsys, ht⟩ := Exec.bind_eq_ret.mp ht
        have hadd : sys.Owned ∧ sys.ctrl.queue = s.sys.ctrl.queue :=
          ⟨hs.next hsys, (System.add_frame hsys).1⟩
        split at ht <;> cases ht <;> exact hadd
    · obtain ⟨sys, hsys, ht⟩ := Exec.bind_eq_ret.mp ht
      have hadd : sys.Owned ∧ sys.ctrl.queue = s.sys.ctrl.queue :=
        ⟨hs.next hsys, (System.add_frame hsys).1⟩
      split at ht <;> cases ht <;> exact hadd
    · split at ht
      · rw [(connect_frame ht).1]
        exact ⟨hs, rfl⟩
      · cases ht
        exact ⟨hs, rfl⟩
    · have hkept := @invoke_queue S _ { s with inbox := inbox } t cfg hs _ _ _ ht
      exact hkept
    · cases ht
      exact ⟨hs, rfl⟩
    · cases ht
      exact ⟨hs, rfl⟩
    · split at ht <;> cases ht <;> exact ⟨hs, rfl⟩

/-- Only a poll changes the queues of the controller. -/
theorem runtime_queue (hs : s.sys.Owned) {op : RuntimeOp}
    (ht : s.step cfg (.runtime op) = .ret t) :
    t.sys.Owned ∧ t.sys.ctrl.queue = s.sys.ctrl.queue := by
  unfold Server.step at ht
  split at ht
  · cases ht
    exact ⟨hs, rfl⟩
  · cases op with
    | call script => exact call_queue hs ht
    | timer id i flush deregister => exact invoke_queue hs ht
    | inactive =>
      cases ht
      exact ⟨hs, rfl⟩

theorem Lively.work (h : s.Lively) (hs : s.sys.Owned) {run : RunScript}
    (hsome : run.acceptsSome = true) (ht : s.work cfg run.ops = .ret t) :
    t.Lively ∧ t.sys.Owned ∧ t.sys.ctrl.queue = s.sys.ctrl.queue ∧
      (t.shutdown = false → t.inbox = []) := by
  obtain ⟨t', hrun, ht⟩ := Exec.bind_eq_ret.mp ht
  have hkept : t'.Lively ∧ t'.sys.Owned ∧ t'.sys.ctrl.queue = s.sys.ctrl.queue :=
    run_invariant_of (Q := fun op => RuntimeOp.acceptsSome op = true)
      (I := fun m => Lively m ∧ m.sys.Owned ∧ m.sys.ctrl.queue = s.sys.ctrl.queue)
      (fun _ op _ hm hop hf => by
        have hop : ServerOp.acceptsSome (.runtime op) = true := hop
        exact ⟨hm.1.step hop hf, (runtime_queue hm.2.1 hf).1,
          (runtime_queue hm.2.1 hf).2.trans hm.2.2⟩)
      (List.all_eq_true.mp hsome) ⟨h, hs, rfl⟩ hrun
  split at ht
  · rename_i hdone
    cases ht
    refine ⟨hkept.1, hkept.2.1, hkept.2.2, fun hgoes => ?_⟩
    simpa [hgoes] using hdone
  · cases ht

end Server

/-- What holds before a poll: the queue of the runtime is empty, and the flags tell of the
queues of the controller. -/
structure MainLoop.Rests (m : MainLoop S) : Prop where
  awake : m.server.Awake
  inbox : m.server.inbox = []
  pending : m.ioPending = true ↔ ∃ i, m.server.sys.ctrl.queue i ≠ []
  idle : m.idle = true → m.ioPending = false

namespace MainLoop
variable {m n : MainLoop S} {cfg : ServerConfig}

theorem Rests.turn (h : m.server.shutdown = false → m.Rests) {o : MainTurn}
    (hsome : o.run.acceptsSome = true) (hn : m.turn cfg o = .ret n)
    (hgoes : n.server.shutdown = false) : n.Rests := by
  unfold MainLoop.turn at hn
  split at hn
  · cases hn
    exact h hgoes
  · rename_i hon
    have h := h (by simpa using hon)
    obtain ⟨server, hpoll, hn⟩ := Exec.bind_eq_ret.mp hn
    split at hn
    · rename_i activity ioPending calls hlast
      obtain ⟨server', hwork, hn⟩ := Exec.bind_eq_ret.mp hn
      have hawake := h.awake.poll hpoll
      obtain ⟨hlively, -, hqueue, hinbox⟩ :=
        Server.Lively.work (fun _ => hawake) hawake.owned hsome hwork
      have hanswers : server.sys.ctrl.Answers (activity, ioPending) calls := by
        obtain ⟨sys, hsys, hpoll⟩ := Exec.bind_eq_ret.mp hpoll
        cases hpoll
        rcases System.next_poll hsys with
          ⟨e, -, rfl⟩ | ⟨events, ctrl, rv, calls', -, hev, rfl⟩
        · simp at hlast
        · simp only [List.getLast?_concat, Option.some.injEq, Prod.mk.injEq, Except.ok.injEq]
            at hlast
          obtain ⟨rfl, rfl⟩ := hlast
          exact h.awake.owned.inv.answers hev
      cases hn
      refine ⟨hlively hgoes, hinbox hgoes, ?_, fun hidle => ?_⟩
      · rw [hqueue]
        exact hanswers.pending
      · by_contra hpending
        have hactive : activity = true :=
          hanswers.activity_of_pending (by simpa using hpending)
        rw [hactive] at hidle
        cases hidle
    · cases hn
      cases hgoes

theorem Rests.start {waker : List (Result Unit)} {c : Control S Handler Ready}
    (hnew : MioPoll.new .nop .wake cfg.wakerPri waker = .ret (.ok c)) {run : RunScript}
    (hsome : run.acceptsSome = true) (hn : start cfg c run = .ret n)
    (hgoes : n.server.shutdown = false) : n.Rests := by
  obtain ⟨server, hwork, hn⟩ := Exec.bind_eq_ret.mp hn
  have hawake := Server.Awake.start hnew
  obtain ⟨hlively, -, hqueue, hinbox⟩ :=
    Server.Lively.work (fun _ => hawake) hawake.owned hsome hwork
  cases hn
  refine ⟨hlively hgoes, hinbox hgoes, ⟨fun hpending => (by cases hpending), ?_⟩,
    fun hidle => by cases hidle⟩
  rintro ⟨i, hi⟩
  rw [hqueue] at hi
  have hnone : c.queue i = [] := by
    rw [MioPoll.new_returns hnew]
    exact MioPoll.view_replicate i
  exact absurd hnone hi

theorem Rests.main {waker : List (Result Unit)} {c : Control S Handler Ready}
    (hnew : MioPoll.new .nop .wake cfg.wakerPri waker = .ret (.ok c)) {run : RunScript}
    (hsome : run.acceptsSome = true) {turns : List MainTurn}
    (hturns : ∀ o ∈ turns, o.run.acceptsSome = true) (hn : main cfg c run turns = .ret n)
    (hgoes : n.server.shutdown = false) : n.Rests := by
  obtain ⟨m, hm, hn⟩ := Exec.bind_eq_ret.mp hn
  exact run_invariant_of (Q := fun o => RunScript.acceptsSome (MainTurn.run o) = true)
    (I := fun m : MainLoop S => m.server.shutdown = false → m.Rests)
    (fun _ _ _ h ho hf => Rests.turn h ho hf) hturns (Rests.start hnew hsome hm) hn hgoes

theorem Rests.empty (h : m.Rests) (hio : m.ioPending = false) (i : Nat) :
    m.server.sys.ctrl.queue i = [] := by
  by_contra hi
  rw [h.pending.mpr ⟨i, hi⟩] at hio
  cases hio

/-- With nothing on its way, what each actor waits for is owed to it. -/
theorem Rests.quiet (h : m.Rests) (hio : m.ioPending = false) :
    (∀ i, m.server.sys.ctrl.queue i = []) ∧
    (m.server.listener.isSome → m.server.listenerOwes = true) ∧
    ∀ id conn, m.server.conns id = some conn → conn.echoer.causes = [] ∧
      (conn.owesRead = true ∨ conn.echoer.tcp.buf.inpEof = true) ∧
      (conn.echoer.tcp.buf.Unsent → conn.owesWrite = true) := by
  have hqueue := h.empty hio
  have hnone : ∀ id fwd flag, ¬ m.server.Due id fwd flag := by
    rintro id fwd flag (⟨ready, hmem, -⟩ | ⟨src, -, -, i, q, hq, -⟩)
    · rw [h.inbox] at hmem
      cases hmem
    · rw [hqueue i] at hq
      cases hq
  refine ⟨hqueue, fun hlistener => ?_, fun id conn hconn => ?_⟩
  · obtain ⟨id, hid⟩ := Option.isSome_iff_exists.mp hlistener
    exact (h.awake.accept id hid).resolve_right (hnone _ _ _)
  · have halert := h.awake.conns id conn hconn
    refine ⟨halert.alive, ?_, fun hunsent => ?_⟩
    · rcases halert.read with howes | heof | hreads | hdue
      · exact .inl howes
      · exact .inr heof
      · cases hreads
      · exact absurd hdue (hnone _ _ _)
    · rcases halert.write hunsent with howes | hwrites | hdue
      · exact howes
      · cases hwrites
      · exact absurd hdue (hnone _ _ _)

omit [Slab S (Entry Handler)] in
/-- A poll that may sleep comes after one that left nothing queued. -/
theorem ioPending_of_sleep {nextWaitMax : Nat → Bool → Nat}
    (hpending : ∀ now, nextWaitMax now true = 0) {now : Nat}
    (hsleep : nextWaitMax now (m.idlePending || m.ioPending) ≠ 0) : m.ioPending = false := by
  by_contra hio
  rw [Bool.not_eq_false] at hio
  rw [hio, Bool.or_true] at hsleep
  exact hsleep (hpending now)

/-- **A poll sleeps only if nobody is kept waiting.** `next_wait_max` is the runtime's: told
that something is pending it allows no wait. The streams may answer anything but that a write
of something accepted 0 bytes. If the next poll of `main` may sleep, no event is in any queue
of the controller and no call in that of the runtime; each source of the server will be
reported again when there is something to do: the listener's, a stream's that has not ended
when it can be read, one's with something left to send when it can be written. Idle calls are
made only if no event is queued. -/
theorem sleeps_at_rest (cfg : ServerConfig) {waker : List (Result Unit)}
    {c : Control S Handler Ready}
    (hnew : MioPoll.new .nop .wake cfg.wakerPri waker = .ret (.ok c)) (run : RunScript)
    (hsome : run.acceptsSome = true) (turns : List MainTurn)
    (hturns : ∀ o ∈ turns, o.run.acceptsSome = true) (m : MainLoop S)
    (hrun : main cfg c run turns = .ret m) (hgoes : m.server.shutdown = false)
    (nextWaitMax : Nat → Bool → Nat) (hpending : ∀ now, nextWaitMax now true = 0) :
    (∀ now, nextWaitMax now (m.idlePending || m.ioPending) ≠ 0 →
      (∀ i, m.server.sys.ctrl.queue i = []) ∧ m.server.inbox = [] ∧
      (m.server.listener.isSome → m.server.listenerOwes = true) ∧
      ∀ id conn, m.server.conns id = some conn →
        (conn.owesRead = true ∨ conn.echoer.tcp.buf.inpEof = true) ∧
        (conn.echoer.tcp.buf.Unsent → conn.owesWrite = true)) ∧
    (m.idle = true → ∀ i, m.server.sys.ctrl.queue i = []) := by
  have hrests := Rests.main hnew hsome hturns hrun hgoes
  refine ⟨fun now hsleep => ?_, fun hidle => hrests.empty (hrests.idle hidle)⟩
  obtain ⟨hqueue, hlistener, hconns⟩ := hrests.quiet (ioPending_of_sleep hpending hsleep)
  exact ⟨hqueue, hrests.inbox, hlistener, fun id conn hconn => (hconns id conn hconn).2⟩

/-- The sample of a connection, in turns of the loop. -/
def sampleTurns : List MainTurn :=
  let ready (token : Nat) :=
    MioEvent.toEvent ⟨token, true, true, false, false, false, false, false, false⟩
  [{ poll := [.ok [ready 1]]
     run := { ops := [.call { accepts := [.ok (), .error ⟨.wouldBlock, none⟩] },
       .call { register := [.ok ()] }] } },
    { poll := [.ok [ready 2]]
      run := { ops := [.call
        { turns := [{ read := [.ok [104]] }, { read := [.error ⟨.wouldBlock, none⟩] }]
          flush := { setNodelay := [.ok ()], flush := [.ok ()] } }] } },
    { poll := [.ok []]
      run := { ops := [.timer 2 0 { write := [.error ⟨.wouldBlock, none⟩] } []] } }]

theorem sleeps_at_rest_sample : ∃ m conn,
    main Server.sampleConfig Server.sampleControl { ops := [.call { register := [.ok ()] }] }
      sampleTurns = .ret m ∧
    m.server.listenerOwes = true ∧ m.server.conns 2 = some conn ∧ conn.owesWrite = true ∧
    ∀ i, m.server.sys.ctrl.queue i = [] := by
  obtain ⟨m, hm, hp⟩ := Exec.exists_ret_of
    (x := main Server.sampleConfig Server.sampleControl
      { ops := [.call { register := [.ok ()] }] } sampleTurns)
    (p := fun m => decide (m.server.shutdown = false ∧ (m.idlePending || m.ioPending) = false ∧
        m.server.listener = some 1) &&
      (m.server.conns 2).any fun conn : Conn => decide (conn.echoer.tcp.buf.out = [104]))
    (by decide +kernel)
  obtain ⟨hm', hconn⟩ := Bool.and_eq_true_iff.mp hp
  obtain ⟨hgoes, hflags, hlistener⟩ := of_decide_eq_true hm'
  obtain ⟨conn, hconn, hout⟩ := (Option.any_eq_true _ _).mp hconn
  have hunsent : conn.echoer.tcp.buf.Unsent := by
    left
    rw [of_decide_eq_true hout]
    simp
  obtain ⟨hsleep, -⟩ := sleeps_at_rest Server.sampleConfig Server.sampleControl_new
    { ops := [.call { register := [.ok ()] }] } (by decide) sampleTurns (by decide) m hm hgoes
    (fun now pending => if pending then 0 else 60 - now) (fun _ => rfl)
  obtain ⟨hqueue, -, howes, hconns⟩ := hsleep 0 (by rw [hflags]; decide)
  have hread := howes (by rw [hlistener]; rfl)
  exact ⟨m, conn, hm, hread, hconn, (hconns 2 conn hconn).2 hunsent, hqueue⟩

end MainLoop
end StakkerMio
