import StakkerMio.EchoServer.Edge
import StakkerMio.MioPoll.Priority

/-! # No wakeup is lost

Every actor of the server with something left to do will be called: the system owes its
source an event, or one is on its way to it through the queues of the controller and of
the runtime. -/
namespace StakkerMio
open Lib

variable {S : Type}

/-! ## Events on their way -/

namespace System
variable {F ρ : Type} [Slab S (Entry F)] {s t : System (Control S F ρ) F ρ} {src : MioSource F}

theorem Owned.source_eq (hs : s.Owned) (hsrc : src ∈ s.sources) : s.source src.id = some src := by
  cases hfind : s.source src.id with
  | none =>
    have hne := List.find?_eq_none.mp hfind src hsrc
    simp at hne
  | some src' =>
    obtain ⟨hmem, hid⟩ := source_mem hfind
    rw [hs.eq_of_id hmem hsrc hid]

/-- An event for a live source, queued or just reported, is delivered by a poll to the
source's handler or is queued after it. -/
theorem Owned.poll_due (hs : s.Owned) (hsrc : src ∈ s.sources)
    {outcomes : List (Result (List (Event ρ)))} (ht : s.next (.poll outcomes) = .ret t) {ready : ρ}
    (h : (∃ i, ⟨src.token, ready⟩ ∈ s.ctrl.queue i) ∨ ⟨src.token, ready⟩ ∈ eventsOf outcomes) :
    (∃ i, ⟨src.token, ready⟩ ∈ t.ctrl.queue i) ∨
      ⟨src.token, src.fwd, ready⟩ ∈ newCalls s t := by
  rcases next_poll ht with ⟨e, he, rfl⟩ | ⟨events, ctrl, rv, calls, hevents, hev, rfl⟩
  · rcases h with h | h
    · exact .inl h
    · rw [eventsOf, he] at h
      cases h
  · have hnew : newCalls s { s with ctrl := ctrl, polled := s.polled ++ [(.ok rv, calls)] } =
        calls := by
      simp [newCalls]
    have hserved := hs.inv.poll_served hev
    have hdeliver : Scheduler.deliver s.ctrl.tokenMap ⟨src.token, ready⟩ =
        some ⟨src.token, src.fwd, ready⟩ := by
      rw [Scheduler.deliver, hs.entry src hsrc]
      rfl
    have hwaiting : ∃ i, i < Scheduler.levels ∧ ⟨src.token, ready⟩ ∈ s.ctrl.waiting events i := by
      rcases h with ⟨i, hq⟩ | hmem
      · refine ⟨i, ?_, List.mem_append_left _ hq⟩
        by_contra hge
        have hle : MAX_PRI ≤ i := by
          unfold Scheduler.levels at hge
          omega
        rw [s.ctrl.queue_nil_of_ge hle] at hq
        cases hq
      · rw [eventsOf, hevents] at hmem
        refine ⟨min src.pri MAX_PRI, Nat.lt_succ_of_le (min_le_right _ _),
          List.mem_append_right _ (Levels.mem_arrivals.mpr ⟨_, hmem, ?_⟩)⟩
        rw [Scheduler.place, hs.entry src hsrc]
        rfl
    obtain ⟨i, hi, hq⟩ := hwaiting
    rw [hnew]
    rcases Levels.serve_kept hi hq hdeliver with hcall | hkept
    · rw [hserved] at hcall
      exact .inr hcall
    · rw [hserved] at hkept
      exact .inl ⟨i, hkept⟩

/-- Adding a source leaves the queues and the other sources alone. -/
theorem add_frame {pri : Nat} {fwd : F} {register : List (Result Unit)}
    (ht : s.next (.add pri fwd register) = .ret t) :
    t.ctrl.queue = s.ctrl.queue ∧ (∀ a ∈ s.sources, a ∈ t.sources) ∧ t.adds = s.adds + 1 ∧
      (retry register = .ret (.ok ()) → ∃ a ∈ t.sources, a.id = s.adds + 1 ∧ a.fwd = fwd) := by
  rcases next_add ht with ⟨e, he, rfl⟩ | ⟨hok, rfl⟩
  · refine ⟨rfl, fun a ha => ha, rfl, fun hok => ?_⟩
    rw [he] at hok
    cases hok
  · exact ⟨rfl, fun a ha => List.mem_append_left _ ha, rfl,
      fun _ => ⟨_, List.mem_append_right _ (List.mem_singleton_self _), rfl, rfl⟩⟩

/-- Dropping one too. -/
theorem Owned.drop_frame (hs : s.Owned) {id : Nat} {deregister : List (Result Unit)}
    (ht : s.next (.drop id deregister) = .ret t) :
    t.ctrl.queue = s.ctrl.queue ∧ (∀ a ∈ s.sources, a.id ≠ id → a ∈ t.sources) := by
  rcases next_drop (fun src => hs.occupied) ht with ⟨-, rfl⟩ | ⟨src, errors, -, rfl⟩
  · exact ⟨rfl, fun a ha _ => ha⟩
  · exact ⟨rfl, fun a ha hne => List.mem_filter.mpr ⟨ha, by simpa using hne⟩⟩

theorem poll_sources {outcomes : List (Result (List (Event ρ)))}
    (ht : s.next (.poll outcomes) = .ret t) : t.sources = s.sources := by
  rcases next_poll ht with ⟨e, -, rfl⟩ | ⟨events, ctrl, rv, calls, -, -, rfl⟩ <;> rfl

end System

/-! ## The invariant -/

namespace Echoer

/-- The method called reads until a read would block. -/
def Invocation.reads : Invocation → Bool
  | .ready r _ _ => r.isReadable
  | .timer _ _ => false

/-- The method called flushes. -/
def Invocation.writes : Invocation → Bool
  | .ready r _ _ => r.isWritable
  | .timer _ _ => false

/-- No write of its flushes accepts zero bytes. -/
def Invocation.acceptsSome : Invocation → Bool
  | .ready _ turns flush => flush.acceptsSome && turns.all fun turn => turn.flush.acceptsSome
  | .timer _ flush => flush.acceptsSome

theorem invoke_spec {usizeMax : Nat} {e e' : Echoer} {inv : Invocation}
    (hopen : e.tcp.buf.stream.isSome) (hwrites : e.tcp.buf.pause = false)
    (halive : e.causes = []) (hsome : inv.acceptsSome = true)
    (hf : e.invoke usizeMax inv = .ret e') : ∃ es, Advances e es e' ∧
      (inv.reads = true → es.any TcpEvent.blockedRead = true ∨ e'.tcp.buf.inpEof = true ∨
        e'.causes ≠ []) ∧
      (inv.writes = true → Pushes es e') := by
  unfold invoke at hf
  rw [if_pos (by rw [halive]; rfl)] at hf
  cases inv with
  | ready ready turns flush =>
    obtain ⟨hflush, hturns⟩ := Bool.and_eq_true_iff.mp hsome
    exact ready_spec hopen hwrites hflush (List.all_eq_true.mp hturns) hf
  | timer i flush =>
    obtain ⟨es, hadv⟩ := fire_spec hopen hwrites hsome hf
    exact ⟨es, hadv, fun h => (by cases h), fun h => by cases h⟩

end Echoer

/-- No write that a step of the runtime makes accepts zero bytes. -/
def RuntimeOp.acceptsSome : RuntimeOp → Bool
  | .call script =>
    script.flush.acceptsSome && script.turns.all fun turn => turn.flush.acceptsSome
  | .timer _ _ flush _ => flush.acceptsSome
  | .inactive => true

def ServerOp.acceptsSome : ServerOp → Bool
  | .poll _ => true
  | .runtime op => op.acceptsSome

namespace Server
variable [Slab S (Entry Handler)] {s t : Server S} {id : Nat} {conn : Conn} {fwd : Handler}
  {flag : Ready → Bool}

/-- An event with the flag is on its way to the handler of the source. -/
def Due (s : Server S) (id : Nat) (fwd : Handler) (flag : Ready → Bool) : Prop :=
  (∃ ready, .event fwd ready ∈ s.inbox ∧ flag ready = true) ∨
  ∃ src ∈ s.sys.sources, src.id = id ∧
    ∃ i, ∃ q ∈ s.sys.ctrl.queue i, q.token = src.token ∧ flag q.ready = true

/-- What has to hold of an `Echoer` while `reads` and `writes` say what is being done. -/
structure Alert (s : Server S) (id : Nat) (conn : Conn) (reads writes : Bool) : Prop where
  source : ∃ src ∈ s.sys.sources, src.id = id ∧ src.fwd = .ready id
  alive : conn.echoer.causes = []
  stream : conn.echoer.tcp.buf.stream.isSome
  pause : conn.echoer.tcp.buf.pause = false
  read : conn.owesRead = true ∨ conn.echoer.tcp.buf.inpEof = true ∨ reads = true ∨
    s.Due id (.ready id) Ready.isReadable
  write : conn.echoer.tcp.buf.Unsent → conn.owesWrite = true ∨ writes = true ∨
    s.Due id (.ready id) Ready.isWritable

/-- Who is called is among the sources, and is owed an event or will be called. -/
structure Awake (s : Server S) : Prop where
  owned : s.sys.Owned
  listening : ∀ id, s.listener = some id → ∃ src ∈ s.sys.sources, src.id = id ∧ src.fwd = .connect
  accept : ∀ id, s.listener = some id → s.listenerOwes = true ∨ s.Due id .connect fun _ => true
  conns : ∀ id conn, s.conns id = some conn → s.Alert id conn false false

omit [Slab S (Entry Handler)] in
/-- The events on their way stay so, unless they are handled. -/
theorem Due.mono (h : s.Due id fwd flag)
    (hinbox : ∀ ready, flag ready = true → .event fwd ready ∈ s.inbox → .event fwd ready ∈ t.inbox)
    (hqueue : t.sys.ctrl.queue = s.sys.ctrl.queue)
    (hsrc : ∀ src ∈ s.sys.sources, src.id = id → src ∈ t.sys.sources) : t.Due id fwd flag := by
  rcases h with ⟨ready, hmem, hflag⟩ | ⟨src, hmem, hid, i, q, hq, htoken, hflag⟩
  · exact .inl ⟨ready, hinbox ready hflag hmem, hflag⟩
  · exact .inr ⟨src, hsrc src hmem hid, hid, i, q, hqueue ▸ hq, htoken, hflag⟩

omit [Slab S (Entry Handler)] in
theorem Alert.mono {reads writes : Bool} (h : s.Alert id conn reads writes)
    (hinbox : ∀ ready, .event (.ready id) ready ∈ s.inbox → .event (.ready id) ready ∈ t.inbox)
    (hqueue : t.sys.ctrl.queue = s.sys.ctrl.queue)
    (hsrc : ∀ src ∈ s.sys.sources, src.id = id → src ∈ t.sys.sources) :
    t.Alert id conn reads writes where
  source := by
    obtain ⟨src, hmem, hid, hfwd⟩ := h.source
    exact ⟨src, hsrc src hmem hid, hid, hfwd⟩
  alive := h.alive
  stream := h.stream
  pause := h.pause
  read := h.read.imp_right fun h' => h'.imp_right fun h' => h'.imp_right fun hdue =>
    hdue.mono (fun ready _ => hinbox ready) hqueue hsrc
  write hu := (h.write hu).imp_right fun h' => h'.imp_right fun hdue =>
    hdue.mono (fun ready _ => hinbox ready) hqueue hsrc

/-! ## A poll -/

/-- An event that is on its way, or that the poll reports, is on its way after it. -/
theorem Awake.poll_due (h : s.Awake) {outcomes : List (Result (List (Event Ready)))}
    (ht : s.poll outcomes = .ret t) {src : MioSource Handler} (hsrc : src ∈ s.sys.sources)
    (hdue : s.Due src.id src.fwd flag ∨ s.reports (eventsOf outcomes) src.id flag = true) :
    t.Due src.id src.fwd flag := by
  obtain ⟨sys, hsys, ht⟩ := Exec.bind_eq_ret.mp ht
  have hsources := System.poll_sources hsys
  have hon : ∀ ready, flag ready = true →
      ((∃ i, ⟨src.token, ready⟩ ∈ s.sys.ctrl.queue i) ∨
        ⟨src.token, ready⟩ ∈ eventsOf outcomes) → t.Due src.id src.fwd flag := by
    intro ready hflag hwhere
    cases ht
    rcases h.owned.poll_due hsrc hsys hwhere with ⟨i, hq⟩ | hcall
    · exact .inr ⟨src, hsources ▸ hsrc, rfl, i, _, hq, rfl, hflag⟩
    · refine .inl ⟨ready, List.mem_append_right _ (List.mem_map.mpr ⟨_, hcall, rfl⟩), hflag⟩
  rcases hdue with (⟨ready, hmem, hflag⟩ | ⟨src', hmem, hid, i, q, hq, htoken, hflag⟩) | hrep
  · cases ht
    exact .inl ⟨ready, List.mem_append_left _ hmem, hflag⟩
  · have heq := h.owned.eq_of_id hmem hsrc hid
    subst heq
    exact hon q.ready hflag (.inl ⟨i, by rw [← htoken]; exact hq⟩)
  · rw [reports, h.owned.source_eq hsrc] at hrep
    obtain ⟨ev, hev, hmatch⟩ := List.any_eq_true.mp hrep
    obtain ⟨htoken, hflag⟩ := Bool.and_eq_true_iff.mp hmatch
    rw [beq_iff_eq] at htoken
    exact hon ev.ready hflag (.inr (by rw [← htoken]; exact hev))

theorem Awake.poll (h : s.Awake) {outcomes : List (Result (List (Event Ready)))}
    (ht : s.poll outcomes = .ret t) : t.Awake := by
  have hdue := fun (src : MioSource Handler) flag hsrc =>
    @Awake.poll_due S _ s t flag h outcomes ht src hsrc
  obtain ⟨sys, hsys, ht⟩ := Exec.bind_eq_ret.mp ht
  have hsources := System.poll_sources hsys
  cases ht
  refine ⟨h.owned.next hsys, fun id hid => ?_, fun id hid => ?_, fun id conn hconn => ?_⟩
  · obtain ⟨src, hsrc, hsid⟩ := h.listening id hid
    exact ⟨src, hsources ▸ hsrc, hsid⟩
  · obtain ⟨src, hsrc, rfl, hfwd⟩ := h.listening id hid
    cases hrep : s.reports (eventsOf outcomes) src.id fun _ => true with
    | true => exact .inr (hfwd ▸ hdue src _ hsrc (.inr hrep))
    | false =>
      refine (h.accept _ hid).imp (fun howes => ?_) fun hdue₀ => ?_
      · have hid : s.listener = some src.id := hid
        simp [howes, hid, hrep]
      · exact hfwd ▸ hdue src _ hsrc (.inl (by rwa [hfwd]))
  · obtain ⟨conn₀, hconn₀, rfl⟩ := Option.map_eq_some_iff.mp hconn
    have halert := h.conns id conn₀ hconn₀
    obtain ⟨src, hsrc, rfl, hfwd⟩ := halert.source
    refine ⟨⟨src, hsources ▸ hsrc, rfl, hfwd⟩, halert.alive, halert.stream, halert.pause, ?_,
      fun hunsent => ?_⟩
    · cases hrep : s.reports (eventsOf outcomes) src.id Ready.isReadable with
      | true => exact .inr (.inr (.inr (hfwd ▸ hdue src _ hsrc (.inr hrep))))
      | false =>
        refine halert.read.imp (fun howes => ?_) fun h' => h'.imp_right fun h'' => h''.imp_right
          fun hdue₀ => hfwd ▸ hdue src _ hsrc (.inl (by rwa [hfwd]))
        simp [Conn.report, howes]
    · cases hrep : s.reports (eventsOf outcomes) src.id Ready.isWritable with
      | true => exact .inr (.inr (hfwd ▸ hdue src _ hsrc (.inr hrep)))
      | false =>
        refine (halert.write hunsent).imp (fun howes => ?_) fun h' => h'.imp_right
          fun hdue₀ => hfwd ▸ hdue src _ hsrc (.inl (by rwa [hfwd]))
        simp [Conn.report, howes]

/-! ## The runtime -/

/-- All is well with the actors but the one with the number `id`, which is being called. -/
structure Calling (s : Server S) (id : Nat) (reads writes : Bool) : Prop where
  owned : s.sys.Owned
  listening : ∀ id, s.listener = some id → ∃ src ∈ s.sys.sources, src.id = id ∧ src.fwd = .connect
  accept : ∀ id, s.listener = some id → s.listenerOwes = true ∨ s.Due id .connect fun _ => true
  self : ∀ conn, s.conns id = some conn → s.Alert id conn reads writes
  others : ∀ id' conn, id' ≠ id → s.conns id' = some conn → s.Alert id' conn false false

/-- The actor goes on: what it was called for is done, or it is owed an event again. -/
theorem Calling.goesOn {reads writes : Bool} (h : s.Calling id reads writes)
    (hself : s.conns id = some conn) {e : Echoer} {es : List TcpEvent}
    (hadv : conn.echoer.Advances es e) (halive : e.causes = [])
    (hread : reads = true →
      es.any TcpEvent.blockedRead = true ∨ e.tcp.buf.inpEof = true ∨ e.causes ≠ [])
    (hwrite : writes = true → Echoer.Pushes es e) :
    Awake { s with conns := Function.update s.conns id (some
      { echoer := e
        owesRead := conn.owesRead || es.any TcpEvent.blockedRead
        owesWrite := conn.owesWrite || es.any TcpEvent.blockedWrite }) } := by
  have halert := h.self conn hself
  refine ⟨h.owned, h.listening, h.accept, fun id' conn' hconn => ?_⟩
  dsimp only at hconn
  by_cases hid : id' = id
  · subst hid
    rw [Function.update_self] at hconn
    cases hconn
    refine ⟨halert.source, halive, ?_, ?_, ?_, fun hunsent => ?_⟩
    · exact hadv.stream ▸ halert.stream
    · exact hadv.pause.trans halert.pause
    · rw [Bool.or_eq_true]
      rcases halert.read with howes | hi | hr | hdue
      · exact .inl (.inl howes)
      · exact .inr (.inl (hadv.inpEof hi))
      · rcases hread hr with hb | hi | hc
        · exact .inl (.inr hb)
        · exact .inr (.inl hi)
        · exact absurd halive hc
      · exact .inr (.inr (.inr hdue))
    · rw [Bool.or_eq_true]
      rcases hadv.unsent halive hunsent with hold | hb
      · rcases halert.write hold with howes | hw | hdue
        · exact .inl (.inl howes)
        · exact .inl (.inr (hwrite hw halive hunsent))
        · exact .inr (.inr hdue)
      · exact .inl (.inr hb)
  · rw [Function.update_of_ne hid] at hconn
    exact (h.others id' conn' hid hconn).mono (fun _ hm => hm) rfl fun _ hs _ => hs

/-- The actor ends: its source goes with it, and nobody else's. -/
theorem Calling.ends {reads writes : Bool} (h : s.Calling id reads writes)
    (hself : s.conns id = some conn) {deregister : List (Result Unit)}
    {sys : System (Control S Handler Ready) Handler Ready}
    (hsys : s.sys.next (.drop id deregister) = .ret sys) (causes : List Cause) :
    Awake { s with
      sys := sys
      conns := Function.update s.conns id none
      inbox := s.inbox ++ [.terminated causes] } := by
  obtain ⟨hqueue, hkept⟩ := h.owned.drop_frame hsys
  obtain ⟨own, hown, hownid, hownfwd⟩ := (h.self conn hself).source
  have hlistener : ∀ id', s.listener = some id' → id' ≠ id := by
    rintro id' hl rfl
    obtain ⟨src, hsrc, hsid, hfwd⟩ := h.listening _ hl
    rw [h.owned.eq_of_id hsrc hown (hsid.trans hownid.symm), hownfwd] at hfwd
    cases hfwd
  refine ⟨h.owned.next hsys, fun id' hl => ?_, fun id' hl => ?_, fun id' conn' hconn => ?_⟩
  · obtain ⟨src, hsrc, hsid, hfwd⟩ := h.listening id' hl
    exact ⟨src, hkept src hsrc (hsid ▸ hlistener id' hl), hsid, hfwd⟩
  · exact (h.accept id' hl).imp_right fun hdue => hdue.mono
      (fun _ _ hm => List.mem_append_left _ hm) hqueue
      fun src hsrc hsid => hkept src hsrc (hsid ▸ hlistener id' hl)
  · dsimp only at hconn
    have hid : id' ≠ id := by
      rintro rfl
      rw [Function.update_self] at hconn
      cases hconn
    rw [Function.update_of_ne hid] at hconn
    exact (h.others id' conn' hid hconn).mono (fun _ hm => List.mem_append_left _ hm) hqueue
      fun src hsrc hsid => hkept src hsrc (hsid ▸ hid)

theorem Calling.invoke {reads writes : Bool} (h : s.Calling id reads writes) {cfg : ServerConfig}
    (inv : Echoer.Invocation) (hreads : reads = true → inv.reads = true)
    (hwrites : writes = true → inv.writes = true) (hsome : inv.acceptsSome = true)
    {deregister : List (Result Unit)} (ht : s.invoke cfg id inv deregister = .ret t) :
    t.Awake := by
  unfold Server.invoke at ht
  cases hself : s.conns id with
  | none =>
    rw [hself] at ht
    cases ht
    refine ⟨h.owned, h.listening, h.accept, fun id' conn hconn => h.others id' conn ?_ hconn⟩
    rintro rfl
    rw [hself] at hconn
    cases hconn
  | some conn =>
    rw [hself] at ht
    obtain ⟨e, he, ht⟩ := Exec.bind_eq_ret.mp ht
    have halert := h.self conn hself
    obtain ⟨es, hadv, hread, hwrite⟩ :=
      Echoer.invoke_spec halert.stream halert.pause halert.alive hsome he
    dsimp only at ht
    split at ht
    · rename_i halive
      cases ht
      have hes : e.tcp.trace.drop conn.echoer.tcp.trace.length = es := by
        rw [hadv.trace, List.drop_left]
      rw [hes]
      exact h.goesOn hself hadv (List.isEmpty_iff.mp halive) (fun hr => hread (hreads hr))
        fun hw => hwrite (hwrites hw)
    · obtain ⟨sys, hsys, ht⟩ := Exec.bind_eq_ret.mp ht
      cases ht
      exact h.ends hself hsys e.causes

/-- Nothing is lost if the sources and the queues are as before and no event is taken
away. -/
theorem Awake.mono (h : s.Awake) (hsys : t.sys.Owned)
    (hqueue : t.sys.ctrl.queue = s.sys.ctrl.queue)
    (hsrc : ∀ src ∈ s.sys.sources, src ∈ t.sys.sources)
    (hinbox : ∀ fwd ready, .event fwd ready ∈ s.inbox → .event fwd ready ∈ t.inbox)
    (hlistener : t.listener = s.listener) (howes : t.listenerOwes = s.listenerOwes)
    (hconns : t.conns = s.conns) : t.Awake where
  owned := hsys
  listening id hid := by
    obtain ⟨src, hmem, h'⟩ := h.listening id (hlistener ▸ hid)
    exact ⟨src, hsrc src hmem, h'⟩
  accept id hid := by
    refine (h.accept id (hlistener ▸ hid)).imp (fun h' => howes ▸ h') fun hdue => ?_
    exact hdue.mono (fun ready _ => hinbox _ ready) hqueue fun src hmem _ => hsrc src hmem
  conns id conn hconn :=
    (h.conns id conn (hconns ▸ hconn)).mono (fun ready => hinbox _ ready) hqueue
      fun src hmem _ => hsrc src hmem

theorem Awake.listen (h : s.Awake) {cfg : ServerConfig} {script : Script}
    (ht : s.listen cfg script = .ret t) (hgoes : t.shutdown = false) : t.Awake := by
  unfold Server.listen at ht
  split at ht
  · cases ht
    cases hgoes
  · obtain ⟨sys, hsys, ht⟩ := Exec.bind_eq_ret.mp ht
    obtain ⟨hqueue, hkept, hadds, hnew⟩ := System.add_frame hsys
    split at ht
    · rename_i hok
      cases ht
      obtain ⟨src, hsrc, hid, hfwd⟩ := hnew hok
      refine ⟨h.owned.next hsys, fun id hl => ?_, fun id _ => .inl rfl, fun id conn hconn => ?_⟩
      · cases hl
        exact ⟨src, hsrc, hid.trans hadds.symm, hfwd⟩
      · exact (h.conns id conn hconn).mono (fun _ hm => hm) hqueue fun src hmem _ => hkept src hmem
    · cases ht
      cases hgoes

theorem Awake.initEchoer (h : s.Awake) {cfg : ServerConfig} {script : Script}
    (ht : s.initEchoer cfg script = .ret t) : t.Awake := by
  obtain ⟨sys, hsys, ht⟩ := Exec.bind_eq_ret.mp ht
  obtain ⟨hqueue, hkept, -, hnew⟩ := System.add_frame hsys
  split at ht
  · cases ht
    exact h.mono (h.owned.next hsys) hqueue hkept (fun _ _ hm => List.mem_append_left _ hm)
      rfl rfl rfl
  · rename_i hnoerr
    have hok : retry script.register = .ret (.ok ()) := by
      rcases System.next_add hsys with ⟨e, he, -⟩ | ⟨hok, -⟩
      · exact absurd he (hnoerr e)
      · exact hok
    obtain ⟨src, hsrc, hid, hfwd⟩ := hnew hok
    cases ht
    refine ⟨h.owned.next hsys, fun id hl => ?_, fun id hl => ?_, fun id conn hconn => ?_⟩
    · obtain ⟨src, hmem, h'⟩ := h.listening id hl
      exact ⟨src, hkept src hmem, h'⟩
    · exact (h.accept id hl).imp_right fun hdue =>
        hdue.mono (fun _ _ hm => hm) hqueue fun src hmem _ => hkept src hmem
    · dsimp only at hconn
      by_cases hself : id = s.sys.adds + 1
      · subst hself
        rw [Function.update_self] at hconn
        cases hconn
        exact ⟨⟨src, hsrc, hid, hfwd⟩, rfl, rfl, rfl, .inl rfl, fun _ => .inl rfl⟩
      · rw [Function.update_of_ne hself] at hconn
        exact (h.conns id conn hconn).mono (fun _ hm => hm) hqueue fun src hmem _ => hkept src hmem

omit [Slab S (Entry Handler)] in
/-- `Listener::connect` accepts until that would block, and so is owed an event again. -/
theorem connect_spec {accepts : List (Result Unit)} (ht : s.connect accepts = .ret t)
    (hgoes : t.shutdown = false) :
    t.sys = s.sys ∧ t.listener = s.listener ∧ t.conns = s.conns ∧ t.listenerOwes = true ∧
      ∀ m ∈ s.inbox, m ∈ t.inbox := by
  induction accepts generalizing s with
  | nil => cases ht
  | cons r accepts ih =>
    cases r with
    | ok _ =>
      obtain ⟨hsys, hl, hconns, howes, hinbox⟩ := ih ht
      exact ⟨hsys, hl, hconns, howes, fun m hm => hinbox m (List.mem_append_left _ hm)⟩
    | error e =>
      unfold Server.connect at ht
      split at ht
      · cases ht
        exact ⟨rfl, rfl, rfl, rfl, fun m hm => hm⟩
      · split at ht
        · exact ih ht
        · cases ht
          cases hgoes

/-- Who is not called by it is called for all the events that it was. -/
theorem Awake.pop (h : s.Awake) {message : Message} {inbox : List Message}
    (hinbox : s.inbox = message :: inbox) (hnone : ∀ fwd ready, message = .event fwd ready →
      fwd = .nop ∨ fwd = .wake) : Awake { s with inbox := inbox } := by
  have hkept : ∀ fwd ready, fwd ≠ .nop → fwd ≠ .wake → .event fwd ready ∈ s.inbox →
      .event fwd ready ∈ inbox := by
    intro fwd ready hnop hwake hm
    rw [hinbox] at hm
    rcases List.mem_cons.mp hm with heq | hm
    · rcases hnone fwd ready heq.symm with h' | h'
      · exact absurd h' hnop
      · exact absurd h' hwake
    · exact hm
  refine ⟨h.owned, h.listening, fun id hl => (h.accept id hl).imp_right fun hdue => ?_,
    fun id conn hconn => ?_⟩
  · exact hdue.mono (fun ready _ => hkept _ ready (by simp) (by simp)) rfl fun _ hm _ => hm
  · exact (h.conns id conn hconn).mono (fun ready => hkept _ ready (by simp) (by simp)) rfl
      fun _ hm _ => hm

/-- The `Echoer` that an event calls. -/
theorem Awake.calling (h : s.Awake) {ready : Ready} {inbox : List Message}
    (hinbox : s.inbox = .event (.ready id) ready :: inbox) :
    Calling { s with inbox := inbox } id ready.isReadable ready.isWritable := by
  have hother : ∀ fwd r, fwd ≠ .ready id → .event fwd r ∈ s.inbox → .event fwd r ∈ inbox := by
    intro fwd r hne hm
    rw [hinbox] at hm
    rcases List.mem_cons.mp hm with heq | hm
    · cases heq
      exact absurd rfl hne
    · exact hm
  -- the event taken out is the one that the call is for
  have hself : ∀ flag : Ready → Bool, s.Due id (.ready id) flag →
      flag ready = true ∨ Due { s with inbox := inbox } id (.ready id) flag := by
    intro flag hdue
    cases hflag : flag ready with
    | true => exact .inl rfl
    | false =>
      refine .inr (hdue.mono (fun r hr hm => ?_) rfl fun _ hm _ => hm)
      rw [hinbox] at hm
      rcases List.mem_cons.mp hm with heq | hm
      · cases heq
        rw [hflag] at hr
        cases hr
      · exact hm
  refine ⟨h.owned, h.listening, fun id' hl => (h.accept id' hl).imp_right fun hdue => ?_,
    fun conn hconn => ?_, fun id' conn hne hconn => ?_⟩
  · exact hdue.mono (fun r _ => hother _ r (by simp)) rfl fun _ hm _ => hm
  · have halert := h.conns id conn hconn
    refine ⟨halert.source, halert.alive, halert.stream, halert.pause, ?_, fun hunsent => ?_⟩
    · rcases halert.read with howes | hi | hr | hdue
      · exact .inl howes
      · exact .inr (.inl hi)
      · cases hr
      · exact .inr (.inr (hself _ hdue))
    · rcases halert.write hunsent with howes | hw | hdue
      · exact .inl howes
      · cases hw
      · exact .inr (hself _ hdue)
  · exact (h.conns id' conn hconn).mono (fun r => hother _ r (by simpa using hne)) rfl
      fun _ hm _ => hm

theorem Awake.call (h : s.Awake) {cfg : ServerConfig} {script : Script}
    (hsome : (RuntimeOp.call script).acceptsSome = true) (ht : s.call cfg script = .ret t)
    (hgoes : t.shutdown = false) : t.Awake := by
  unfold Server.call at ht
  split at ht
  · cases ht
    exact h
  · rename_i message inbox hinbox
    dsimp only at ht
    split at ht
    · exact (h.pop hinbox (by simp)).listen ht hgoes
    · exact (h.pop hinbox (by simp)).initEchoer ht
    · split at ht
      · obtain ⟨hsys, hl, hconns, howes, hkept⟩ := connect_spec ht hgoes
        have hother : ∀ id ready, .event (.ready id) ready ∈ s.inbox →
            .event (.ready id) ready ∈ t.inbox := by
          intro id ready hm
          rw [hinbox] at hm
          rcases List.mem_cons.mp hm with heq | hm
          · cases heq
          · exact hkept _ hm
        refine ⟨hsys ▸ h.owned, fun id hid => ?_, fun id _ => .inl howes, fun id conn hconn => ?_⟩
        · rw [hsys]
          exact h.listening id (by rw [hl] at hid; exact hid)
        · rw [hconns] at hconn
          refine (h.conns id conn hconn).mono (hother id) (by rw [hsys]) fun src hm _ => ?_
          rw [hsys]
          exact hm
      · rename_i hnone
        cases ht
        refine ⟨h.owned, h.listening, fun id hl => ?_, fun id conn hconn => ?_⟩
        · dsimp only at hl hnone
          rw [hl] at hnone
          exact absurd rfl hnone
        · refine (h.conns id conn hconn).mono (fun ready hm => ?_) rfl fun _ hm _ => hm
          rw [hinbox] at hm
          rcases List.mem_cons.mp hm with heq | hm
          · cases heq
          · exact hm
    · rename_i id ready
      exact (h.calling hinbox).invoke (.ready ready script.turns script.flush) (fun hr => hr)
        (fun hw => hw) hsome ht
    · cases ht
      exact h.pop hinbox (by simp)
    · cases ht
      exact h.pop hinbox (by simp)
    · split at ht
      · cases ht
        cases hgoes
      · cases ht
        exact h.pop hinbox (by simp)

theorem Awake.runtime (h : s.Awake) {cfg : ServerConfig} {op : RuntimeOp}
    (hsome : op.acceptsSome = true) (ht : s.runtime cfg op = .ret t)
    (hgoes : t.shutdown = false) : t.Awake := by
  cases op with
  | call script => exact h.call hsome ht hgoes
  | timer id i flush deregister =>
    have hcalling : s.Calling id false false :=
      ⟨h.owned, h.listening, h.accept, h.conns id, fun id' conn _ => h.conns id' conn⟩
    exact hcalling.invoke (.timer i flush) (fun h' => by cases h') (fun h' => by cases h') hsome ht
  | inactive =>
    cases ht
    exact h.mono h.owned rfl (fun _ hm => hm) (fun _ _ hm => hm) rfl rfl rfl

/-! ## Whole runs -/

theorem Awake.start {cfg : ServerConfig} {waker : List (Result Unit)}
    {c : Control S Handler Ready}
    (hnew : MioPoll.new .nop .wake cfg.wakerPri waker = .ret (.ok c)) :
    (Server.start c).Awake where
  owned := .start hnew
  listening id hid := by cases hid
  accept id hid := by cases hid
  conns id conn hconn := by cases hconn

/-- While the loop of `main` goes on, all are awake. -/
def Lively (s : Server S) : Prop := s.shutdown = false → s.Awake

theorem Lively.step (h : s.Lively) {cfg : ServerConfig} {op : ServerOp}
    (hsome : op.acceptsSome = true) (ht : s.step cfg op = .ret t) : t.Lively := by
  intro hgoes
  unfold Server.step at ht
  split at ht
  · cases ht
    exact h hgoes
  · rename_i hon
    have hawake := h (by simpa using hon)
    cases op with
    | poll outcomes => exact hawake.poll ht
    | runtime op => exact hawake.runtime hsome ht hgoes

/-- **Nobody waits in vain.** Polls, calls and timers may come in any order, and the streams
may answer anything but that a write of something accepted 0 bytes. While the loop of `main`
goes on, the listener is owed an event for its socket, or one is on its way to `connect`.
Each `Echoer` that has not seen the end of its stream is owed a readable event or will be
called with one, and each with something left to send is owed a writable event or will be
called with one. -/
theorem nobody_waits_in_vain (cfg : ServerConfig) {waker : List (Result Unit)}
    {c : Control S Handler Ready}
    (hnew : MioPoll.new .nop .wake cfg.wakerPri waker = .ret (.ok c)) (ops : List ServerOp)
    (hsome : ∀ op ∈ ops, op.acceptsSome = true) (s : Server S)
    (hrun : (start c).runs cfg ops = .ret s) (hgoes : s.shutdown = false) :
    (∀ id, s.listener = some id → s.listenerOwes = true ∨ s.Due id .connect fun _ => true) ∧
    ∀ id conn, s.conns id = some conn →
      (conn.owesRead = true ∨ conn.echoer.tcp.buf.inpEof = true ∨
        s.Due id (.ready id) Ready.isReadable) ∧
      (conn.echoer.tcp.buf.Unsent →
        conn.owesWrite = true ∨ s.Due id (.ready id) Ready.isWritable) := by
  have hlively : s.Lively :=
    run_invariant_of (I := Lively) (fun _ _ _ h hop hf => h.step hop hf) hsome
      (fun _ => Awake.start hnew) hrun
  have h := hlively hgoes
  refine ⟨h.accept, fun id conn hconn => ?_⟩
  have halert := h.conns id conn hconn
  refine ⟨halert.read.imp_right fun h' => h'.imp_right fun h'' => h''.resolve_left (by simp),
    fun hunsent => (halert.write hunsent).imp_right fun h' => h'.resolve_left (by simp)⟩

/-- A controller for the server, over the usual slab. -/
def sampleControl : Control (FreeSlab (Entry Handler)) Handler Ready where
  tokenMap := Slab.set (MioPoll.wakerMap .nop 10) WAKER_TOKEN ⟨10, .wake⟩
  queues := Vector.replicate MAX_PRI []
  nQueued := 0
  maxPri := 10
  priorities := bit 10
  errors := []

theorem sampleControl_new :
    MioPoll.new Handler.nop .wake 10 [.ok ()] = .ret (.ok sampleControl) := rfl

def sampleConfig : ServerConfig where
  usizeMax := 16384
  stopCause causes := causes.headD .stopped

/-- A connection is accepted and sends a byte, for which there is no room at once when it
comes to be echoed. -/
def sample : List ServerOp :=
  let ready (token : Nat) :=
    MioEvent.toEvent ⟨token, true, true, false, false, false, false, false, false⟩
  [.runtime (.call { register := [.ok ()] }), .poll [.ok [ready 1]],
    .runtime (.call { accepts := [.ok (), .error ⟨.wouldBlock, none⟩] }),
    .runtime (.call { register := [.ok ()] }), .poll [.ok [ready 2]],
    .runtime (.call
      { turns := [{ read := [.ok [104]] }, { read := [.error ⟨.wouldBlock, none⟩] }]
        flush := { setNodelay := [.ok ()], flush := [.ok ()] } }),
    .runtime (.timer 2 0 { write := [.error ⟨.wouldBlock, none⟩] } [])]

theorem sample_returns : ∃ s conn, (start sampleControl).runs sampleConfig sample = .ret s ∧
    s.shutdown = false ∧ s.listener = some 1 ∧ s.conns 2 = some conn ∧
    conn.echoer.tcp.buf.out = [104] ∧ conn.owesWrite = true := by
  obtain ⟨s, hs, hp⟩ := Exec.exists_ret_of
    (x := (start sampleControl).runs sampleConfig sample)
    (p := fun s => decide (s.shutdown = false ∧ s.listener = some 1) &&
      (s.conns 2).any fun conn : Conn =>
        decide (conn.echoer.tcp.buf.out = [104] ∧ conn.owesWrite = true)) (by decide +kernel)
  obtain ⟨hs', hconn⟩ := Bool.and_eq_true_iff.mp hp
  obtain ⟨conn, hc, hconn⟩ := (Option.any_eq_true _ _).mp hconn
  exact ⟨s, conn, hs, (of_decide_eq_true hs').1, (of_decide_eq_true hs').2, hc,
    of_decide_eq_true hconn⟩

theorem nobody_waits_in_vain_sample : ∃ s conn,
    (start sampleControl).runs sampleConfig sample = .ret s ∧
    (s.listenerOwes = true ∨ s.Due 1 .connect fun _ => true) ∧ s.conns 2 = some conn ∧
    (conn.owesWrite = true ∨ s.Due 2 (.ready 2) Ready.isWritable) := by
  obtain ⟨s, conn, hs, hgoes, hlistener, hconn, hout, -⟩ := sample_returns
  have hunsent : conn.echoer.tcp.buf.Unsent := by
    left
    rw [hout]
    simp
  obtain ⟨haccept, hconns⟩ := nobody_waits_in_vain sampleConfig sampleControl_new sample
    (by decide) s hs hgoes
  exact ⟨s, conn, hs, haccept 1 hlistener, hconn, (hconns 2 conn hconn).2 hunsent⟩

end Server
end StakkerMio
