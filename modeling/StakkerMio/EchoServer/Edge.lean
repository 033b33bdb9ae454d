import StakkerMio.EchoServer.Echo
import StakkerMio.EchoServer.Server

/-! # What the `Echoer` leaves to the next event

Under edge triggering a method may only return with something left to do if a call has
reported that it would block: a read loop goes on until then, and so does a flush. -/
namespace StakkerMio
open Lib TcpEvent

/-- No write accepts zero bytes of those it is passed. -/
def FlushOutcomes.acceptsSome (o : FlushOutcomes) : Bool := decide (.ok 0 ∉ o.write)

namespace TcpStreamBuf
variable {b b' : TcpStreamBuf} {f : Flushing}

/-- The lengths were checked by the `drain`s of a loop that returned. -/
theorem writeLoop_accepts {outcomes : List (Result Nat)} (hsome : .ok 0 ∉ outcomes)
    (h : b.writeLoop outcomes = .ret f) : accepts 1 b.out.length outcomes = true := by
  induction outcomes generalizing b f with
  | nil => rfl
  | cons r outcomes ih =>
    have hsome₁ : .ok 0 ∉ outcomes := fun hm => hsome (List.mem_cons_of_mem _ hm)
    unfold writeLoop at h
    split at h
    · rename_i hempty
      rw [List.isEmpty_iff.mp hempty]
      rfl
    · rename_i hne
      have hne : b.out.length ≠ 0 := by simpa using hne
      cases r with
      | error e =>
        by_cases hi : e.kind = .interrupted
        · rw [accepts_interrupted hne hi]
          dsimp only at h
          rw [if_pos hi] at h
          obtain ⟨g, hg, -⟩ := Exec.bind_eq_ret.mp h
          exact ih hsome₁ hg
        · obtain ⟨n, hn⟩ := Nat.exists_eq_succ_of_ne_zero hne
          rw [hn]
          simp [accepts, hi]
      | ok len =>
        have hpos : len ≠ 0 := by
          rintro rfl
          exact hsome List.mem_cons_self
        dsimp only at h
        rw [if_neg hpos] at h
        split at h
        · rename_i hle
          obtain ⟨g, hg, -⟩ := Exec.bind_eq_ret.mp h
          have hrest := ih hsome₁ hg
          rw [List.length_drop] at hrest
          exact (accepts_ok hne).mpr ⟨⟨by omega, hle⟩, .inr hrest⟩
        · cases h

/-- The option block fails, or none of its calls has failed but for interruptions. -/
theorem applyNodelay_decides {outcomes : List (Result Unit)}
    (hf : b.applyNodelay outcomes = .ret f) : (∀ rv, f.rv = some rv → rv ≠ .ok ()) ∧
      (f.rv = none → ∀ c ∈ f.calls, ∀ e, c.failure = some e → e.kind = .interrupted) := by
  unfold applyNodelay at hf
  split at hf
  · obtain ⟨⟨rv, tried⟩, htried, hf⟩ := Exec.bind_eq_ret.mp hf
    obtain ⟨interrupts, rfl, hi, -⟩ := attempts_ret htried
    cases rv with
    | error e =>
      cases hf
      refine ⟨fun rv hrv => ?_, fun hnone => by cases hnone⟩
      cases hrv
      simp
    | ok u =>
      cases hf
      refine ⟨fun rv hrv => (by cases hrv), fun _ c hc e he => ?_⟩
      obtain ⟨r, hr, rfl⟩ := List.mem_map.mp hc
      rcases List.mem_append.mp hr with hr | hr
      · cases r with
        | ok u => cases he
        | error e' =>
          cases he
          simpa [isInterrupted] using hi _ hr
      · rw [List.mem_singleton.mp hr] at he
        cases he
  · cases hf
    exact ⟨fun rv hrv => (by cases hrv), fun _ c hc => by cases hc⟩

section Blocks
variable {o : FlushOutcomes} {f₁ f₂ f₃ f₄ : Flushing} (h : Blocks b o f₁ f₂ f₃ f₄)

include h

/-- A flush that returns `Ok` has come through the option block. -/
theorem Blocks.nodelay_passed (hok : f₄.rv.getD (.ok ()) = .ok ()) : f₁.rv = none := by
  by_contra hne
  obtain ⟨rv, hrv⟩ := Option.ne_none_iff_exists'.mp hne
  have hskip : ∀ {f g : Flushing} {k}, f.rv = some rv → f.andThen k = .ret g → g = f := by
    intro f g k hrv hg
    rcases andThen_cases hg with ⟨_, -, rfl⟩ | ⟨hnone, -⟩
    · rfl
    · rw [hrv] at hnone
      cases hnone
  have h₂ := hskip hrv h.write
  have h₃ := hskip (h₂ ▸ hrv) h.flush
  have h₄ := hskip (h₃ ▸ h₂ ▸ hrv) h.shutdown
  rw [h₄, h₃, h₂, hrv] at hok
  exact (applyNodelay_decides h.nodelay).1 rv hrv hok

/-- The calls after it are others, and its own fail with interruptions only. -/
theorem Blocks.not_setNodelay (hnone : f₁.rv = none) {c : StreamCall} (hc : c ∈ f₄.calls)
    {e : Error} (hfailure : c.failure = some e) (hkind : e.kind ≠ .interrupted) :
    c.isSetNodelay = false := by
  obtain ⟨rest, hrest, hsteps⟩ := h.afterNodelay
  have hall : ∀ c ∈ rest, c.isSetNodelay = false :=
    Steps.invariant (J := fun cs _ => ∀ c ∈ cs, StreamCall.isSetNodelay c = false)
      (fun past _ c _ hpast hc d hd => by
        rcases List.mem_append.mp hd with hd | hd
        · exact hpast d hd
        · exact List.mem_singleton.mp hd ▸ hc.2) (List.forall_mem_nil _) hsteps
  rw [hrest] at hc
  rcases List.mem_append.mp hc with hc | hc
  · exact absurd ((applyNodelay_decides h.nodelay).2 hnone c hc e hfailure) hkind
  · exact hall c hc

end Blocks

/-- A flush that returns `Ok` with something unsent has been told that it would block. -/
theorem flush_owed (hpause : b.pause = false) (hstream : b.stream.isSome) {o : FlushOutcomes}
    (hsome : o.acceptsSome = true) {calls : List StreamCall}
    (hf : b.flush o = .ret (b', .ok (), calls)) (hunsent : b'.Unsent) :
    (calls.map .call).any blockedWrite = true := by
  have hsome : .ok 0 ∉ o.write := of_decide_eq_true hsome
  rcases flush_cases hf with ⟨hoff | hoff, -⟩ | ⟨f₁, f₂, f₃, f₄, h, hb', hrv, hcalls⟩
  · rw [hpause] at hoff
    cases hoff
  · rw [hoff] at hstream
    cases hstream
  · have hnone := h.nodelay_passed hrv.symm
    have haccepts : accepts 1 b.out.length o.write = true := by
      rcases andThen_cases h.write with ⟨rv, hrv₁, -⟩ | ⟨-, g, hg, -⟩
      · rw [hnone] at hrv₁
        cases hrv₁
      · rw [← (applyNodelay_ends h.nodelay).through hnone]
        exact writeLoop_accepts hsome hg
    obtain ⟨c, e, hlast, hfailure, hkind⟩ :=
      (flushesAll hpause hstream haccepts).blocked hf hunsent
    have hmem := List.mem_of_getLast? hlast
    have hread := flush_isRead hf c hmem
    have hset := h.not_setNodelay hnone (hcalls ▸ hmem) hfailure (by rw [hkind]; decide)
    refine List.any_eq_true.mpr ⟨.call c, List.mem_map_of_mem hmem, ?_⟩
    cases c with
    | setNodelay nodelay r => cases hset
    | read room r => cases hread
    | write buf r | flush r | shutdown r =>
      cases r with
      | ok u => cases hfailure
      | error e' =>
        cases hfailure
        simp [blockedWrite, hkind]

end TcpStreamBuf

namespace Echoer
variable {usizeMax : Nat} {e m e' : Echoer} {es fs : List TcpEvent}

/-- A method has added `es` to the trace. Whatever it leaves unsent was so before, would
have blocked, or no longer matters. -/
structure Advances (e : Echoer) (es : List TcpEvent) (e' : Echoer) : Prop where
  trace : e'.tcp.trace = e.tcp.trace ++ es
  causes : e'.causes = [] → e.causes = []
  inpEof : e.tcp.buf.inpEof = true → e'.tcp.buf.inpEof = true
  stream : e'.tcp.buf.stream = e.tcp.buf.stream
  pause : e'.tcp.buf.pause = e.tcp.buf.pause
  unsent : e'.causes = [] → e'.tcp.buf.Unsent →
    e.tcp.buf.Unsent ∨ es.any blockedWrite = true

/-- Whatever is left unsent would have blocked. -/
def Pushes (es : List TcpEvent) (e' : Echoer) : Prop :=
  e'.causes = [] → e'.tcp.buf.Unsent → es.any blockedWrite = true

namespace Advances

theorem refl (e : Echoer) : Advances e [] e :=
  ⟨(List.append_nil _).symm, id, id, rfl, rfl, fun _ h => .inl h⟩

theorem trans (h : Advances e es m) (h' : Advances m fs e') : Advances e (es ++ fs) e' where
  trace := by rw [h'.trace, h.trace, List.append_assoc]
  causes hc := h.causes (h'.causes hc)
  inpEof hi := h'.inpEof (h.inpEof hi)
  stream := h'.stream.trans h.stream
  pause := h'.pause.trans h.pause
  unsent hc hu := by
    rw [List.any_append, Bool.or_eq_true]
    rcases h'.unsent hc hu with hu | hb
    · exact (h.unsent (h'.causes hc) hu).imp_right .inl
    · exact .inr (.inr hb)

/-- Changes of the other fields. -/
theorem idle (htcp : e'.tcp = e.tcp) (hcauses : e'.causes = [] → e.causes = []) :
    Advances e [] e' := by
  refine ⟨?_, hcauses, ?_, ?_, ?_, fun _ hu => .inl ?_⟩
  · rw [htcp, List.append_nil]
  · rw [htcp]
    exact id
  · rw [htcp]
  · rw [htcp]
  · rwa [htcp] at hu

end Advances

theorem flush_buf {b b' : TcpStreamBuf} {o : FlushOutcomes} {rv : Result Unit}
    {calls : List StreamCall} (hf : b.flush o = .ret (b', rv, calls)) :
    b'.inpEof = b.inpEof ∧ b'.stream = b.stream ∧ b'.pause = b.pause := by
  refine Steps.keeps (I := fun c => c.inpEof = b.inpEof ∧ c.stream = b.stream ∧ c.pause = b.pause)
    (fun s c t hs hc => ?_) ⟨rfl, rfl, rfl⟩ (TcpStreamBuf.flush_steps hf)
  cases hc <;> exact hs

/-- A flush, after the buffer has been given more to send. -/
theorem flush_advances (es : List TcpEvent) (b : TcpStreamBuf) {timers fired : List Delayed}
    (hinp : b.inpEof = e.tcp.buf.inpEof) (hstream : b.stream = e.tcp.buf.stream)
    (hpause : b.pause = e.tcp.buf.pause) (hopen : e.tcp.buf.stream.isSome)
    (hwrites : e.tcp.buf.pause = false) {o : FlushOutcomes} (hsome : o.acceptsSome = true)
    (hf : flush ⟨⟨b, e.tcp.trace ++ es⟩, timers, fired, e.causes⟩ o = .ret e') :
    ∃ fs, Advances e (es ++ fs) e' ∧ Pushes (es ++ fs) e' := by
  obtain ⟨buf, rv, calls, hflush, rfl⟩ := flush_ret hf
  obtain ⟨hinp', hstream', hpause'⟩ := flush_buf hflush
  have hpushes : Pushes (es ++ calls.map .call) ⟨⟨buf, e.tcp.trace ++ es ++ calls.map .call⟩,
      timers, fired, e.causes ++ flushCauses buf rv⟩ := by
    intro hc hunsent
    have hok : rv = .ok () := by
      cases rv with
      | ok u => rfl
      | error err =>
        have hnil := (List.append_eq_nil_iff.mp hc).2
        simp [flushCauses, writeCauses] at hnil
    subst hok
    rw [List.any_append, TcpStreamBuf.flush_owed (hpause.trans hwrites) (hstream ▸ hopen) hsome
      hflush hunsent, Bool.or_true]
  refine ⟨calls.map .call, ⟨List.append_assoc _ _ _, fun hc => (List.append_eq_nil_iff.mp hc).1,
    fun hi => ?_, ?_, ?_, fun hc hu => .inr (hpushes hc hu)⟩, hpushes⟩
  · dsimp only
    rw [hinp', hinp]
    exact hi
  · exact hstream'.trans hstream
  · exact hpause'.trans hpause

variable (hopen : e.tcp.buf.stream.isSome) (hwrites : e.tcp.buf.pause = false)

include hopen hwrites

theorem flush_spec {o : FlushOutcomes} (hsome : o.acceptsSome = true)
    (hf : e.flush o = .ret e') : ∃ es, Advances e es e' ∧ Pushes es e' := by
  have hf' : flush ⟨⟨e.tcp.buf, e.tcp.trace ++ []⟩, e.timers, e.fired, e.causes⟩ o = .ret e' := by
    rwa [List.append_nil]
  exact flush_advances [] e.tcp.buf rfl rfl rfl hopen hwrites hsome hf'

theorem setOutEof_spec {o : FlushOutcomes} (hsome : o.acceptsSome = true)
    (hf : e.setOutEof o = .ret e') : ∃ es, Advances e es e' ∧ Pushes es e' := by
  obtain ⟨fs, h⟩ := flush_advances [.outEof true] { e.tcp.buf with outEof := true } rfl rfl rfl
    hopen hwrites hsome hf
  exact ⟨_, h⟩

theorem checkSpecialChars_spec {data : List UInt8} {o : FlushOutcomes}
    (hsome : o.acceptsSome = true) (hf : e.checkSpecialChars data o = .ret e') :
    ∃ es, Advances e es e' := by
  obtain ⟨e₁, he₁, hf⟩ := Exec.bind_eq_ret.mp hf
  have h₁ : ∃ es, Advances e es e₁ := by
    split at he₁
    · obtain ⟨es, hadv, -⟩ := setOutEof_spec hopen hwrites hsome he₁
      exact ⟨es, hadv⟩
    · cases he₁
      exact ⟨[], .refl e⟩
  obtain ⟨es, hadv⟩ := h₁
  split at hf
  · cases hf
    exact ⟨_, hadv.trans (.idle rfl fun hc => (List.append_eq_nil_iff.mp hc).1)⟩
  · cases hf
    exact ⟨es, hadv⟩

omit hwrites in
/-- What a read adds to the trace; it leaves the output alone. -/
theorem read_advances {turn : Turn} {buf : TcpStreamBuf} {status : ReadStatus}
    {calls : List StreamCall}
    (hread : e.tcp.buf.read usizeMax turn.spare READ_MAX turn.read = .ret (buf, status, calls)) :
    Advances e (calls.map .call) { e with tcp := ⟨buf, e.tcp.trace ++ calls.map .call⟩ } ∧
      (status = .wouldBlock → (calls.map .call).any blockedRead = true) ∧
      (status = .endOfStream → buf.inpEof = true) := by
  obtain ⟨room, hreads⟩ := TcpStreamBuf.read_reads hopen hread
  obtain ⟨hframe, -⟩ := TcpStreamBuf.read_frame hread
  refine ⟨⟨rfl, id, fun hi => ?_, ?_, ?_, fun _ hu => .inl ?_⟩, fun hblock => ?_, fun hend => ?_⟩
  · dsimp only
    rw [hreads.inpEof, hi]
    rfl
  · rw [hframe]
  · rw [hframe]
  · rw [hframe] at hu
    exact hu
  · obtain ⟨tried, r, rfl, -, hend⟩ := hreads.calls
    subst hblock
    cases hend with
    | wouldBlock err hkind => simp [blockedRead, hkind]
  · rw [hreads.inpEof, hend]
    simp

/-- The loop goes on until a read would block, the stream ends, or the actor does. -/
theorem readLoop_spec {turns : List Turn}
    (hsome : ∀ turn ∈ turns, turn.flush.acceptsSome = true)
    (hloop : e.readLoop usizeMax turns = .ret e') : ∃ es, Advances e es e' ∧
      (es.any blockedRead = true ∨ e'.tcp.buf.inpEof = true ∨ e'.causes ≠ []) := by
  induction turns generalizing e with
  | nil => cases hloop
  | cons turn turns ih =>
    obtain ⟨⟨buf, status, calls⟩, hread, hloop⟩ := Exec.bind_eq_ret.mp hloop
    obtain ⟨hadv, hblock, hend⟩ := read_advances hopen hread
    cases status with
    | newData =>
      obtain ⟨⟨data, e₁⟩, htake, hloop⟩ := Exec.bind_eq_ret.mp hloop
      obtain ⟨-, rfl⟩ := takeInput_ret htake
      obtain ⟨e₂, hcheck, hloop⟩ := Exec.bind_eq_ret.mp hloop
      dsimp only at hcheck hloop
      have htaken : Advances e (calls.map .call ++ [.consumed buf.unread]) { e with
          tcp := ⟨{ buf with rd := buf.wr },
            e.tcp.trace ++ calls.map .call ++ [.consumed buf.unread]⟩ } :=
        hadv.trans ⟨rfl, id, id, rfl, rfl, fun _ hu => .inl hu⟩
      obtain ⟨fs, hchecked⟩ := checkSpecialChars_spec
        (by rw [htaken.stream]; exact hopen) (by rw [htaken.pause]; exact hwrites)
        (hsome turn List.mem_cons_self) hcheck
      have hput : Advances e₂ [] { e₂ with timers := e₂.timers ++ [.sendData data] } :=
        .idle rfl id
      have hturn := (htaken.trans hchecked).trans hput
      obtain ⟨gs, hrest, hstops⟩ := ih (by rw [hturn.stream]; exact hopen)
        (by rw [hturn.pause]; exact hwrites) (fun t ht => hsome t (List.mem_cons_of_mem _ ht)) hloop
      refine ⟨_, hturn.trans hrest, ?_⟩
      rw [List.any_append, Bool.or_eq_true]
      exact hstops.imp_left .inr
    | wouldBlock =>
      cases hloop
      exact ⟨_, hadv, .inl (hblock rfl)⟩
    | endOfStream =>
      cases hloop
      exact ⟨_, hadv.trans (.idle rfl id), .inr (.inl (hend rfl))⟩
    | error err =>
      cases hloop
      exact ⟨_, hadv.trans (.idle rfl fun hc => (List.append_eq_nil_iff.mp hc).1),
        .inr (.inr (by simp))⟩

theorem ready_spec {ready : Ready} {turns : List Turn} {o : FlushOutcomes}
    (hsome : o.acceptsSome = true) (hturns : ∀ turn ∈ turns, turn.flush.acceptsSome = true)
    (hf : e.ready usizeMax ready turns o = .ret e') : ∃ es, Advances e es e' ∧
      (ready.isReadable = true →
        es.any blockedRead = true ∨ e'.tcp.buf.inpEof = true ∨ e'.causes ≠ []) ∧
      (ready.isWritable = true → Pushes es e') := by
  obtain ⟨m, hm, hf⟩ := Exec.bind_eq_ret.mp hf
  have hread : ∃ es, Advances e es m ∧ (ready.isReadable = true →
      es.any blockedRead = true ∨ m.tcp.buf.inpEof = true ∨ m.causes ≠ []) := by
    split at hm
    · obtain ⟨es, hadv, hstops⟩ := readLoop_spec hopen hwrites hturns hm
      exact ⟨es, hadv, fun _ => hstops⟩
    · rename_i hnot
      cases hm
      exact ⟨[], .refl e, fun h => absurd h hnot⟩
  obtain ⟨es, hadv, hstops⟩ := hread
  split at hf
  · obtain ⟨fs, hadv', hpushes⟩ := flush_spec (by rw [hadv.stream]; exact hopen)
      (by rw [hadv.pause]; exact hwrites) hsome hf
    refine ⟨_, hadv.trans hadv', fun hr => ?_, fun _ hc hu => ?_⟩
    · rw [List.any_append, Bool.or_eq_true]
      rcases hstops hr with hb | hi | hc
      · exact .inl (.inl hb)
      · exact .inr (.inl (hadv'.inpEof hi))
      · exact .inr (.inr fun hc' => hc (hadv'.causes hc'))
    · rw [List.any_append, hpushes hc hu, Bool.or_true]
  · rename_i hnot
    cases hf
    exact ⟨es, hadv, hstops, fun hw => absurd hw hnot⟩

theorem fire_spec {i : Nat} {o : FlushOutcomes} (hsome : o.acceptsSome = true)
    (hf : e.fire i o = .ret e') : ∃ es, Advances e es e' := by
  unfold fire at hf
  split at hf
  · cases hf
    exact ⟨[], .refl e⟩
  · rename_i d hd
    cases d with
    | sendData data =>
      obtain ⟨fs, hadv, -⟩ := flush_advances [.appended data]
        { e.tcp.buf with out := e.tcp.buf.out ++ data } rfl rfl rfl hopen hwrites hsome hf
      exact ⟨_, hadv⟩
    | sendEof =>
      obtain ⟨fs, hadv, -⟩ := flush_advances [.outEof true] { e.tcp.buf with outEof := true }
        rfl rfl rfl hopen hwrites hsome hf
      exact ⟨_, hadv⟩

end Echoer
end StakkerMio
