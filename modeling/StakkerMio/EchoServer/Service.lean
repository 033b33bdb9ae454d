import StakkerMio.EchoServer.Main

/-! # What the server waits for

What the calls of an `Echoer` keep, the server keeps for all of them. With what is owed to
them it follows what the loop of `main` sleeps for: an actor waits for its timers, for its
peer to read what is left to send, or, when everything is echoed, for more to come. -/
namespace StakkerMio
open Lib TcpEvent

/-! ## The end of an actor -/

namespace Echoer
variable {usizeMax : Nat} {e e' : Echoer}

/-- How far the end of the stream has come: it is put off when it is seen; `out_eof` is set
when its turn comes; and the actor stops once its output is complete. -/
structure Winding (e : Echoer) : Prop where
  stream : e.tcp.buf.stream.isSome
  seen : e.tcp.buf.inpEof = true → .sendEof ∈ e.fired ++ e.timers
  asked : .sendEof ∈ e.fired → e.tcp.buf.outEof = true
  done : e.tcp.buf.outEof = true → e.tcp.buf.out = [] → .stopped ∈ e.causes

namespace Winding

/-- A flush stops the actor if the output is complete. -/
theorem flush (hstream : e.tcp.buf.stream.isSome)
    (hseen : e.tcp.buf.inpEof = true → .sendEof ∈ e.fired ++ e.timers)
    (hasked : .sendEof ∈ e.fired → e.tcp.buf.outEof = true) {o : FlushOutcomes}
    (hf : e.flush o = .ret e') : e'.Winding := by
  obtain ⟨buf, rv, calls, hflush, rfl⟩ := flush_ret hf
  obtain ⟨hinp, hopen, -⟩ := flush_buf hflush
  have heof := TcpStreamBuf.flush_outEof hflush
  refine ⟨?_, fun hi => ?_, fun hfired => ?_, fun hasked' hout => ?_⟩
  · rw [hopen]
    exact hstream
  · exact hseen (hinp ▸ hi)
  · exact heof.trans (hasked hfired)
  · dsimp only at hasked' hout
    refine List.mem_append_right _ (List.mem_append_right _ ?_)
    rw [hasked', hout]
    exact List.mem_singleton_self _

theorem setOutEof (hstream : e.tcp.buf.stream.isSome)
    (hseen : e.tcp.buf.inpEof = true → .sendEof ∈ e.fired ++ e.timers) {o : FlushOutcomes}
    (hf : e.setOutEof o = .ret e') : e'.Winding :=
  flush (e := { e with
    tcp := ⟨{ e.tcp.buf with outEof := true }, e.tcp.trace ++ [.outEof true]⟩ })
    hstream hseen (fun _ => rfl) hf

theorem checkSpecialChars (h : e.Winding) {data : List UInt8} {o : FlushOutcomes}
    (hf : e.checkSpecialChars data o = .ret e') : e'.Winding := by
  obtain ⟨e₁, he₁, hf⟩ := Exec.bind_eq_ret.mp hf
  have h₁ : e₁.Winding := by
    split at he₁
    · exact setOutEof h.stream h.seen he₁
    · cases he₁
      exact h
  split at hf
  · cases hf
    exact ⟨h₁.stream, h₁.seen, h₁.asked, fun heof hout =>
      List.mem_append_left _ (h₁.done heof hout)⟩
  · cases hf
    exact h₁

theorem readLoop {turns : List Turn} (h : e.Winding)
    (hloop : e.readLoop usizeMax turns = .ret e') : e'.Winding := by
  induction turns generalizing e with
  | nil => cases hloop
  | cons turn turns ih =>
    obtain ⟨⟨buf, status, calls⟩, hread, hloop⟩ := Exec.bind_eq_ret.mp hloop
    obtain ⟨room, hreads⟩ := TcpStreamBuf.read_reads h.stream hread
    obtain ⟨hframe, -⟩ := TcpStreamBuf.read_frame hread
    have hstream : buf.stream.isSome := by
      rw [hframe]
      exact h.stream
    have hasked : .sendEof ∈ e.fired → buf.outEof = true := by
      rw [hframe]
      exact h.asked
    have hdone : buf.outEof = true → buf.out = [] → .stopped ∈ e.causes := by
      rw [hframe]
      exact h.done
    -- Only the end of the stream sets the flag.
    have hseen : status ≠ .endOfStream → buf.inpEof = true → .sendEof ∈ e.fired ++ e.timers := by
      intro hnot hi
      rw [hreads.inpEof, decide_eq_false hnot, Bool.or_false] at hi
      exact h.seen hi
    cases status with
    | newData =>
      obtain ⟨⟨data, e₁⟩, htake, hloop⟩ := Exec.bind_eq_ret.mp hloop
      obtain ⟨-, rfl⟩ := takeInput_ret htake
      obtain ⟨e₂, hcheck, hloop⟩ := Exec.bind_eq_ret.mp hloop
      dsimp only at hcheck hloop
      have h₂ : e₂.Winding :=
        checkSpecialChars ⟨hstream, hseen (fun heq => by cases heq), hasked, hdone⟩ hcheck
      have hput : Winding { e₂ with timers := e₂.timers ++ [.sendData data] } := by
        refine ⟨h₂.stream, fun hi => ?_, h₂.asked, h₂.done⟩
        rw [← List.append_assoc]
        exact List.mem_append_left _ (h₂.seen hi)
      exact ih hput hloop
    | wouldBlock =>
      cases hloop
      exact ⟨hstream, hseen (fun heq => by cases heq), hasked, hdone⟩
    | endOfStream =>
      cases hloop
      refine ⟨hstream, fun _ => ?_, hasked, hdone⟩
      rw [← List.append_assoc]
      exact List.mem_append_right _ (List.mem_singleton_self _)
    | error err =>
      cases hloop
      exact ⟨hstream, hseen (fun heq => by cases heq), hasked, fun heof hout =>
        List.mem_append_left _ (hdone heof hout)⟩

theorem ready (h : e.Winding) {ready : Ready} {turns : List Turn} {o : FlushOutcomes}
    (hf : e.ready usizeMax ready turns o = .ret e') : e'.Winding := by
  obtain ⟨e₁, he₁, hf⟩ := Exec.bind_eq_ret.mp hf
  have h₁ : e₁.Winding := by
    split at he₁
    · exact h.readLoop he₁
    · cases he₁
      exact h
  split at hf
  · exact flush h₁.stream h₁.seen h₁.asked hf
  · cases hf
    exact h₁

theorem fire (h : e.Winding) {i : Nat} {o : FlushOutcomes} (hf : e.fire i o = .ret e') :
    e'.Winding := by
  unfold Echoer.fire at hf
  split at hf
  · cases hf
    exact h
  · rename_i d hd
    have hperm : (e.fired ++ [d] ++ e.timers.eraseIdx i).Perm (e.fired ++ e.timers) :=
      Timely.any.fire trivial hd (.refl _)
    have hseen : e.tcp.buf.inpEof = true → .sendEof ∈ e.fired ++ [d] ++ e.timers.eraseIdx i :=
      fun hi => hperm.mem_iff.mpr (h.seen hi)
    cases d with
    | sendData data =>
      have hasked : .sendEof ∈ e.fired ++ [.sendData data] → e.tcp.buf.outEof = true := by
        intro hfired
        rcases List.mem_append.mp hfired with hfired | hfired
        · exact h.asked hfired
        · cases List.mem_singleton.mp hfired
      exact flush (e := { e with
        tcp := ⟨{ e.tcp.buf with out := e.tcp.buf.out ++ data }, e.tcp.trace ++ [.appended data]⟩
        timers := e.timers.eraseIdx i
        fired := e.fired ++ [.sendData data] }) h.stream hseen hasked hf
    | sendEof =>
      exact setOutEof (e := { e with
        timers := e.timers.eraseIdx i
        fired := e.fired ++ [.sendEof] }) h.stream hseen hf

theorem invoke (h : e.Winding) {inv : Invocation} (hf : e.invoke usizeMax inv = .ret e') :
    e'.Winding := by
  unfold Echoer.invoke at hf
  split at hf
  · cases inv with
    | ready ready turns flush => exact h.ready hf
    | timer i flush => exact h.fire hf
  · cases hf
    exact h

theorem setup (id : Nat) : (Echoer.setup id).Winding where
  stream := rfl
  seen h := by cases h
  asked h := by cases h
  done h := by cases h

end Winding
end Echoer

/-! ## All actors of the server -/

/-- The invocations that an operation can make. -/
def RuntimeOp.Makes : RuntimeOp → Echoer.Invocation → Prop
  | .call script, inv => ∃ ready, inv = .ready ready script.turns script.flush
  | .timer _ i flush _, inv => inv = .timer i flush
  | .inactive, _ => False

/-- The reads deliver no more than there is room for, and the calls put off are made in
order. -/
def RuntimeOp.orderly : RuntimeOp → Bool
  | .call script => script.turns.all Echoer.Turn.sound
  | .timer _ i _ _ => i == 0
  | .inactive => true

theorem RuntimeOp.Makes.orderly {op : RuntimeOp} {inv : Echoer.Invocation} (h : op.Makes inv)
    (hop : op.orderly = true) : inv.sound = true ∧ inv.Allowed (· = 0) := by
  cases op with
  | call script =>
    obtain ⟨ready, rfl⟩ := h
    exact ⟨hop, trivial⟩
  | timer id i flush deregister =>
    cases h
    exact ⟨rfl, beq_iff_eq.mp hop⟩
  | inactive => exact h.elim

namespace Server
variable {S : Type} [Slab S (Entry Handler)] {s t : Server S} {cfg : ServerConfig}
  {P : Echoer → Prop}

/-- It holds of each `Echoer`. -/
def Each (P : Echoer → Prop) (s : Server S) : Prop :=
  ∀ id conn, s.conns id = some conn → P conn.echoer

theorem Each.poll (h : s.Each P) {outcomes : List (Result (List (Event Ready)))}
    (ht : s.poll outcomes = .ret t) : t.Each P := by
  obtain ⟨sys, -, ht⟩ := Exec.bind_eq_ret.mp ht
  cases ht
  intro id conn hconn
  obtain ⟨conn₀, hconn₀, rfl⟩ := Option.map_eq_some_iff.mp hconn
  exact h id conn₀ hconn₀

omit [Slab S (Entry Handler)] in
theorem Each.update (h : s.Each P) {id : Nat} {conn : Conn} (hconn : P conn.echoer) :
    ∀ id' conn', Function.update s.conns id (some conn) id' = some conn' → P conn'.echoer := by
  intro id' conn' hconn'
  by_cases hid : id' = id
  · subst hid
    rw [Function.update_self] at hconn'
    cases hconn'
    exact hconn
  · rw [Function.update_of_ne hid] at hconn'
    exact h id' conn' hconn'

theorem Each.invoke {id : Nat} {inv : Echoer.Invocation} (h : s.Each P)
    (hinv : ∀ e e', P e → e.invoke cfg.usizeMax inv = .ret e' → P e')
    {deregister : List (Result Unit)} (ht : s.invoke cfg id inv deregister = .ret t) :
    t.Each P := by
  unfold Server.invoke at ht
  split at ht
  · cases ht
    exact h
  · rename_i conn hconn
    obtain ⟨e, he, ht⟩ := Exec.bind_eq_ret.mp ht
    dsimp only at ht
    split at ht
    · cases ht
      exact h.update (hinv _ _ (h id conn hconn) he)
    · obtain ⟨sys, -, ht⟩ := Exec.bind_eq_ret.mp ht
      cases ht
      intro id' conn' hconn'
      dsimp only at hconn'
      have hid : id' ≠ id := by
        rintro rfl
        rw [Function.update_self] at hconn'
        cases hconn'
      rw [Function.update_of_ne hid] at hconn'
      exact h id' conn' hconn'

theorem Each.call (h : s.Each P) (hsetup : ∀ id, P (.setup id)) {script : Script}
    (hinv : ∀ ready e e', P e →
      e.invoke cfg.usizeMax (.ready ready script.turns script.flush) = .ret e' → P e')
    (ht : s.call cfg script = .ret t) : t.Each P := by
  unfold Server.call at ht
  split at ht
  · cases ht
    exact h
  · rename_i inbox _
    have h : Each P { s with inbox := inbox } := h
    dsimp only at ht
    split at ht
    · unfold Server.listen at ht
      split at ht
      · cases ht
        exact h
      · obtain ⟨sys, -, ht⟩ := Exec.bind_eq_ret.mp ht
        split at ht <;> cases ht <;> exact h
    · obtain ⟨sys, -, ht⟩ := Exec.bind_eq_ret.mp ht
      split at ht
      · cases ht
        exact h
      · cases ht
        exact h.update (hsetup _)
    · split at ht
      · rw [Each, (connect_frame ht).2]
        exact h
      · cases ht
        exact h
    · exact h.invoke (hinv _) ht
    · cases ht
      exact h
    · cases ht
      exact h
    · split at ht <;> cases ht <;> exact h

/-- What holds of a new actor and is kept by its calls holds of all of them. -/
theorem Each.runtime (h : s.Each P) (hsetup : ∀ id, P (.setup id)) {op : RuntimeOp}
    (hinv : ∀ inv, op.Makes inv → ∀ e e', P e → e.invoke cfg.usizeMax inv = .ret e' → P e')
    (ht : s.step cfg (.runtime op) = .ret t) : t.Each P := by
  unfold Server.step at ht
  split at ht
  · cases ht
    exact h
  · cases op with
    | call script => exact h.call hsetup (fun ready => hinv _ ⟨ready, rfl⟩) ht
    | timer id i flush deregister => exact h.invoke (hinv _ rfl) ht
    | inactive =>
      cases ht
      exact h

end Server

/-! ## The loop of `main` -/

/-- What holds of an `Echoer` whose calls put off are made in order. -/
def Echoer.Serves (e : Echoer) : Prop := Echoing Eq [] (deliveredIn e.tcp.trace) e ∧ e.Winding

theorem Echoer.Serves.invoke {usizeMax : Nat} {e e' : Echoer} (h : e.Serves)
    (husize : READ_MAX * 2 ≤ usizeMax) {inv : Invocation} (hsound : inv.sound = true)
    (hallowed : inv.Allowed (· = 0)) (hf : e.invoke usizeMax inv = .ret e') : e'.Serves :=
  ⟨h.1.invoke .inOrder husize hsound hallowed hf, h.2.invoke hf⟩

def RunScript.orderly (run : RunScript) : Bool := run.ops.all RuntimeOp.orderly

variable {S : Type} [Slab S (Entry Handler)] {cfg : ServerConfig}

theorem Server.Each.work {s t : Server S} (h : s.Each Echoer.Serves)
    (husize : Echoer.READ_MAX * 2 ≤ cfg.usizeMax) {run : RunScript}
    (horderly : run.orderly = true) (ht : s.work cfg run.ops = .ret t) :
    t.Each Echoer.Serves := by
  obtain ⟨t', hrun, ht⟩ := Exec.bind_eq_ret.mp ht
  have hserves : t'.Each Echoer.Serves :=
    run_invariant_of (Q := fun op => RuntimeOp.orderly op = true)
      (I := fun m => Each Echoer.Serves m)
      (fun m op _ hm hop hf => hm.runtime (fun id => ⟨.setup .inOrder id, .setup id⟩)
        (fun inv hmakes e e' he hf => by
          obtain ⟨hsound, hallowed⟩ := hmakes.orderly hop
          exact he.invoke husize hsound hallowed hf) hf)
      (List.all_eq_true.mp horderly) h hrun
  split at ht
  · cases ht
    exact hserves
  · cases ht

namespace MainLoop
variable {m n : MainLoop S}

theorem serves_turn (husize : Echoer.READ_MAX * 2 ≤ cfg.usizeMax)
    (h : m.server.Each Echoer.Serves) {o : MainTurn} (horderly : o.run.orderly = true)
    (hn : m.turn cfg o = .ret n) : n.server.Each Echoer.Serves := by
  unfold MainLoop.turn at hn
  split at hn
  · cases hn
    exact h
  · obtain ⟨server, hpoll, hn⟩ := Exec.bind_eq_ret.mp hn
    have hserver := h.poll hpoll
    split at hn
    · obtain ⟨server', hwork, hn⟩ := Exec.bind_eq_ret.mp hn
      cases hn
      exact hserver.work husize horderly hwork
    · cases hn
      exact hserver

theorem serves_main (husize : Echoer.READ_MAX * 2 ≤ cfg.usizeMax)
    {c : Control S Handler Ready} {run : RunScript} (horderly : run.orderly = true)
    {turns : List MainTurn} (hturns : ∀ o ∈ turns, o.run.orderly = true)
    (hn : main cfg c run turns = .ret n) : n.server.Each Echoer.Serves := by
  obtain ⟨m, hm, hn⟩ := Exec.bind_eq_ret.mp hn
  have hstart : m.server.Each Echoer.Serves := by
    obtain ⟨server, hwork, hm⟩ := Exec.bind_eq_ret.mp hm
    cases hm
    refine Server.Each.work (fun id conn hconn => ?_) husize horderly hwork
    cases hconn
  exact run_invariant_of (Q := fun o => RunScript.orderly (MainTurn.run o) = true)
    (I := fun m : MainLoop S => m.server.Each Echoer.Serves)
    (fun _ _ _ h ho hf => serves_turn husize h ho hf) hturns hstart hn

/-- **The server waits for its peers.** In every run of `main` in which timers go off in
order, no read delivers more than there is room for and no write of something accepts 0 bytes,
with any number of connections: what a stream accepted, what is left to send to it and what
is put off for it are, byte by byte, what that stream delivered. If the next poll may sleep,
each `Echoer` has a call put off; or it has something left to send and is owed a writable
event; or its stream has accepted all that it delivered, has not ended, and is owed a readable
event. -/
theorem sleeps_for_peers (cfg : ServerConfig) (husize : Echoer.READ_MAX * 2 ≤ cfg.usizeMax)
    {waker : List (Result Unit)} {c : Control S Handler Ready}
    (hnew : MioPoll.new .nop .wake cfg.wakerPri waker = .ret (.ok c)) (run : RunScript)
    (hsome : run.acceptsSome = true) (horderly : run.orderly = true) (turns : List MainTurn)
    (hturns : ∀ o ∈ turns, o.run.acceptsSome = true ∧ o.run.orderly = true) (m : MainLoop S)
    (hrun : main cfg c run turns = .ret m) (hgoes : m.server.shutdown = false)
    (nextWaitMax : Nat → Bool → Nat) (hpending : ∀ now, nextWaitMax now true = 0) :
    ∀ id conn, m.server.conns id = some conn →
      acceptedIn conn.echoer.tcp.trace ++ conn.echoer.tcp.buf.out ++
        dataIn conn.echoer.timers = deliveredIn conn.echoer.tcp.trace ∧
      ∀ now, nextWaitMax now (m.idlePending || m.ioPending) ≠ 0 →
        conn.echoer.timers ≠ [] ∨
        (conn.echoer.tcp.buf.Unsent ∧ conn.owesWrite = true) ∨
        (acceptedIn conn.echoer.tcp.trace = deliveredIn conn.echoer.tcp.trace ∧
          conn.echoer.tcp.buf.inpEof = false ∧ conn.owesRead = true) := by
  have hrests := Rests.main hnew hsome (fun o ho => (hturns o ho).1) hrun hgoes
  have hserves := serves_main husize horderly (fun o ho => (hturns o ho).2) hrun
  intro id conn hconn
  obtain ⟨hecho, hwinding⟩ := hserves id conn hconn
  have hbytes := hecho.echoed
  refine ⟨hbytes, fun now hsleep => ?_⟩
  obtain ⟨-, -, hquiet⟩ := hrests.quiet (ioPending_of_sleep hpending hsleep)
  obtain ⟨halive, hread, hwrite⟩ := hquiet id conn hconn
  by_cases htimers : conn.echoer.timers = []
  · by_cases hunsent : conn.echoer.tcp.buf.Unsent
    · exact .inr (.inl ⟨hunsent, hwrite hunsent⟩)
    · have hout : conn.echoer.tcp.buf.out = [] := by
        by_contra hne
        exact hunsent (.inl hne)
      rw [hout, htimers, List.append_nil] at hbytes
      -- An actor that has seen the end of its stream would have stopped.
      have hopen : conn.echoer.tcp.buf.inpEof = false := by
        by_contra hi
        have hfired := hwinding.seen (by simpa using hi)
        rw [htimers, List.append_nil] at hfired
        have hstopped := hwinding.done (hwinding.asked hfired) hout
        rw [halive] at hstopped
        cases hstopped
      refine .inr (.inr ⟨(List.append_nil _).symm.trans hbytes, hopen, hread.resolve_right ?_⟩)
      rw [hopen]
      exact Bool.false_ne_true
  · exact .inl htimers

/-- A byte comes in a turn of its own, and the timer sends it back. -/
def echoTurns : List MainTurn :=
  let ready (token : Nat) :=
    MioEvent.toEvent ⟨token, true, true, false, false, false, false, false, false⟩
  [{ poll := [.ok [ready 1]]
     run := { ops := [.call { accepts := [.ok (), .error ⟨.wouldBlock, none⟩] },
       .call { register := [.ok ()] }] } },
    { poll := [.ok [ready 2]]
      run := { ops := [.call
        { turns := [{ read := [.ok [104]] }, { read := [.error ⟨.wouldBlock, none⟩] }]
          flush := { setNodelay := [.ok ()], flush := [.ok ()] } }] } },
    { poll := [.ok []]
      run := { ops := [.timer 2 0 { write := [.ok 1], flush := [.ok ()] } []] } }]

theorem sleeps_for_peers_sample : ∃ m conn,
    main Server.sampleConfig Server.sampleControl { ops := [.call { register := [.ok ()] }] }
      echoTurns = .ret m ∧ m.server.conns 2 = some conn ∧
    acceptedIn conn.echoer.tcp.trace = deliveredIn conn.echoer.tcp.trace ∧
    conn.echoer.tcp.buf.inpEof = false ∧ conn.owesRead = true := by
  obtain ⟨m, hm, hp⟩ := Exec.exists_ret_of
    (x := main Server.sampleConfig Server.sampleControl
      { ops := [.call { register := [.ok ()] }] } echoTurns)
    (p := fun m => decide (m.server.shutdown = false ∧ (m.idlePending || m.ioPending) = false) &&
      (m.server.conns 2).any fun conn : Conn => decide (conn.echoer.timers = [] ∧
        conn.echoer.tcp.buf.out = [] ∧ conn.echoer.tcp.buf.outEof = false))
    (by decide +kernel)
  obtain ⟨hm', hconn⟩ := Bool.and_eq_true_iff.mp hp
  obtain ⟨hgoes, hflags⟩ := of_decide_eq_true hm'
  obtain ⟨conn, hconn, hdone⟩ := (Option.any_eq_true _ _).mp hconn
  obtain ⟨htimers, hout, heof⟩ := of_decide_eq_true hdone
  obtain ⟨-, hsleep⟩ := sleeps_for_peers Server.sampleConfig (by decide) Server.sampleControl_new
    { ops := [.call { register := [.ok ()] }] } (by decide) (by decide) echoTurns (by decide) m hm
    hgoes (fun now pending => if pending then 0 else 60 - now) (fun _ => rfl) 2 conn hconn
  rcases hsleep 0 (by rw [hflags]; decide) with hput | ⟨hunsent, -⟩ | hwaits
  · exact absurd htimers hput
  · rcases hunsent with hne | ⟨hasked, -⟩
    · exact absurd hout hne
    · rw [heof] at hasked
      cases hasked
  · exact ⟨m, conn, hm, hconn, hwaits⟩

end MainLoop
end StakkerMio
