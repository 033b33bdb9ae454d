import StakkerMio.Tcp.FlushSteps
import StakkerMio.Tcp.Session

/-! # TCP_NODELAY

The option of the stream that is installed is what was last requested, or the change
is pending. A flush takes the change off before it is applied; if the stream refuses
it, it stays unapplied. -/
namespace StakkerMio
open Lib

namespace TcpEvent

/-- The option of the installed stream after the event; `fresh` gives the option that
a stream comes with. A call that fails leaves it as it is. -/
def optionAfter (fresh : Nat → Bool) (option : Bool) : TcpEvent → Bool
  | .init stream => fresh stream
  | .call (.setNodelay nodelay (.ok ())) => nodelay
  | _ => option

def optionIn (fresh : Nat → Bool) (tr : List TcpEvent) : Bool :=
  tr.foldl (optionAfter fresh) false

/-- The value last requested after the event. -/
def requestedAfter (requested : Bool) : TcpEvent → Bool
  | .setNodelay nodelay => nodelay
  | _ => requested

def requestedIn (tr : List TcpEvent) : Bool := tr.foldl requestedAfter false

variable {fresh : Nat → Bool} {tr : List TcpEvent} {e : TcpEvent}

@[simp] theorem optionIn_concat :
    optionIn fresh (tr ++ [e]) = optionAfter fresh (optionIn fresh tr) e := by
  simp [optionIn]

@[simp] theorem requestedIn_concat :
    requestedIn (tr ++ [e]) = requestedAfter (requestedIn tr) e := by
  simp [requestedIn]

end TcpEvent

open TcpEvent TcpStreamBuf

/-! ## What a flush does -/

/-- Attempts that were interrupted leave the option as it is. -/
theorem optionIn_interrupts {fresh : Nat → Bool} {nodelay : Bool} (tr : List TcpEvent)
    {interrupts : List (Result Unit)} (hi : ∀ r ∈ interrupts, isInterrupted r = true) :
    optionIn fresh (tr ++ interrupts.map fun r => .call (.setNodelay nodelay r)) =
      optionIn fresh tr := by
  induction interrupts generalizing tr with
  | nil => simp
  | cons r rs ih =>
    have hrs : ∀ x ∈ rs, isInterrupted x = true := fun x hx => hi x (List.mem_cons_of_mem _ hx)
    cases r with
    | ok u => cases hi _ List.mem_cons_self
    | error e =>
      have hone : optionIn fresh (tr ++ [.call (.setNodelay nodelay (.error e))]) =
          optionIn fresh tr := by
        rw [optionIn_concat]
        rfl
      have hmore := ih (tr ++ [.call (.setNodelay nodelay (.error e))]) hrs
      rw [List.append_assoc] at hmore
      exact hmore.trans hone

/-- The last attempt decides. -/
theorem optionIn_attempts (fresh : Nat → Bool) (tr : List TcpEvent) (nodelay : Bool)
    {outcomes tried : List (Result Unit)} {rv : Result Unit}
    (h : attempts outcomes = .ret (rv, tried)) :
    optionIn fresh (tr ++ (tried.map (StreamCall.setNodelay nodelay)).map .call) =
      match rv with
      | .ok () => nodelay
      | .error _ => optionIn fresh tr := by
  obtain ⟨interrupts, rfl, hi, -⟩ := attempts_ret h
  rw [List.map_map, List.map_append, ← List.append_assoc]
  change optionIn fresh (_ ++ [.call (.setNodelay nodelay rv)]) = _
  rw [optionIn_concat]
  change optionAfter fresh
    (optionIn fresh (tr ++ interrupts.map fun r => .call (.setNodelay nodelay r))) _ = _
  rw [optionIn_interrupts tr hi]
  cases rv <;> rfl

/-- The stream refuses to change the option. -/
def refused (outcomes : List (Result Unit)) : Bool :=
  match decisive outcomes with
  | some (.error _) => true
  | _ => false

namespace TcpStreamBuf
variable {b b' : TcpStreamBuf} {f : Flushing} {fresh : Nat → Bool} {tr : List TcpEvent}

/-- The change is taken off, and made unless the stream refuses it. -/
theorem applyNodelay_option (fresh : Nat → Bool) (tr : List TcpEvent)
    {outcomes : List (Result Unit)} (hf : b.applyNodelay outcomes = .ret f) :
    f.buf = { b with pendingSetNodelay := false } ∧
      optionIn fresh (tr ++ f.calls.map .call) =
        if b.pendingSetNodelay = true ∧ refused outcomes = false then b.nodelay
        else optionIn fresh tr := by
  unfold applyNodelay at hf
  split at hf
  · rename_i hpending
    obtain ⟨⟨rv, tried⟩, htried, hf⟩ := Exec.bind_eq_ret.mp hf
    have hoption := optionIn_attempts fresh tr b.nodelay htried
    have hdecisive := attempts_decisive htried
    cases rv with
    | error e =>
      have hrefused : refused outcomes = true := by rw [refused, hdecisive]
      cases hf
      refine ⟨rfl, hoption.trans ?_⟩
      rw [if_neg (by simp [hrefused])]
    | ok u =>
      have hrefused : refused outcomes = false := by rw [refused, hdecisive]
      cases hf
      refine ⟨rfl, hoption.trans ?_⟩
      rw [if_pos ⟨hpending, hrefused⟩]
  · rename_i hpending
    cases hf
    have hoff : b.pendingSetNodelay = false := by simpa using hpending
    refine ⟨by rw [← hoff], ?_⟩
    rw [if_neg (by simp [hoff])]
    simp

/-- The other calls of a flush leave alone what the option depends on. -/
theorem flushStep_option (fresh : Nat → Bool) {c : StreamCall}
    (hc : FlushStep b c b' ∧ c.isSetNodelay = false) :
    b'.nodelay = b.nodelay ∧ b'.pendingSetNodelay = b.pendingSetNodelay ∧
      b'.stream = b.stream ∧ ∀ option, optionAfter fresh option (.call c) = option := by
  obtain ⟨hc, hset⟩ := hc
  cases hc with
  | setNodelay r => cases hset
  | _ => exact ⟨rfl, rfl, rfl, fun _ => rfl⟩

theorem requestedIn_calls (tr : List TcpEvent) (calls : List StreamCall) :
    requestedIn (tr ++ calls.map .call) = requestedIn tr := by
  induction calls generalizing tr with
  | nil => simp
  | cons c calls ih =>
    have hmore := ih (tr ++ [.call c])
    rw [List.append_assoc, requestedIn_concat] at hmore
    exact hmore

/-- The change was taken off, and the option is `option`. -/
structure Settled (fresh : Nat → Bool) (b : TcpStreamBuf) (option : Bool)
    (tr : List TcpEvent) (b' : TcpStreamBuf) : Prop where
  nodelay : b'.nodelay = b.nodelay
  pending : b'.pendingSetNodelay = false
  stream : b'.stream = b.stream
  option : optionIn fresh tr = option

theorem Settled.calls {option : Bool} {f : Flushing} {calls : List StreamCall}
    (h : Settled fresh b option tr b')
    (hsteps : Steps (fun b c b' => FlushStep b c b' ∧ c.isSetNodelay = false) b' calls f.buf) :
    Settled fresh b option (tr ++ calls.map .call) f.buf := by
  have hstart : Settled fresh b option (tr ++ ([] : List StreamCall).map .call) b' := by
    rwa [List.map_nil, List.append_nil]
  refine Steps.invariant (J := fun calls c => Settled fresh b option (tr ++ calls.map .call) c)
    (fun past c call c' hpast hc => ?_) hstart hsteps
  obtain ⟨hnodelay, hpending, hstream, hsame⟩ := flushStep_option fresh hc
  refine ⟨hnodelay.trans hpast.nodelay, hpending.trans hpast.pending,
    hstream.trans hpast.stream, ?_⟩
  rw [List.map_append, ← List.append_assoc]
  exact optionIn_concat.trans ((hsame _).trans hpast.option)

/-- What an unpaused flush does to the option. -/
theorem flush_settles (fresh : Nat → Bool) (tr : List TcpEvent) {o : FlushOutcomes}
    {rv : Result Unit} {calls : List StreamCall} (hf : b.flush o = .ret (b', rv, calls))
    (hpause : b.pause = false) (hstream : b.stream.isSome) :
    Settled fresh b
      (if b.pendingSetNodelay = true ∧ refused o.setNodelay = false then b.nodelay
        else optionIn fresh tr) (tr ++ calls.map .call) b' := by
  rcases flush_cases hf with ⟨hoff, -⟩ | ⟨f₁, f₂, f₃, f₄, hblocks, rfl, -, rfl⟩
  · rcases hoff with hoff | hoff
    · rw [hpause] at hoff
      cases hoff
    · rw [hoff] at hstream
      cases hstream
  · obtain ⟨hbuf, hoption⟩ := applyNodelay_option fresh tr hblocks.nodelay
    obtain ⟨after, hcalls, hsteps⟩ := hblocks.afterNodelay
    have hfirst : Settled fresh b
        (if b.pendingSetNodelay = true ∧ refused o.setNodelay = false then b.nodelay
          else optionIn fresh tr) (tr ++ f₁.calls.map .call) f₁.buf := by
      refine ⟨?_, ?_, ?_, hoption⟩ <;> rw [hbuf]
    rw [hcalls, List.map_append, ← List.append_assoc]
    exact hfirst.calls hsteps

end TcpStreamBuf

/-! ## Runs -/

/-- A stream that is installed has the option that was requested, or the change is
pending. -/
def NodelayOk (fresh : Nat → Bool) (s : TcpSession) : Prop :=
  s.buf.stream.isSome →
    optionIn fresh s.trace = requestedIn s.trace ∨ s.buf.pendingSetNodelay = true

instance (fresh : Nat → Bool) (s : TcpSession) : Decidable (NodelayOk fresh s) :=
  inferInstanceAs (Decidable (_ → _))

/-- A flush that has a change to make is not refused it. -/
def TcpOp.AppliesNodelay (fresh : Nat → Bool) (s : TcpSession) : TcpOp → Prop
  | .flush o => s.buf.pause = false → s.buf.stream.isSome → s.buf.pendingSetNodelay = true →
      optionIn fresh s.trace ≠ requestedIn s.trace → refused o.setNodelay = false
  | _ => True

instance (fresh : Nat → Bool) (s : TcpSession) :
    (op : TcpOp) → Decidable (op.AppliesNodelay fresh s)
  | .flush _ => inferInstanceAs (Decidable (_ → _))
  | .append _ | .ioWrite _ | .setOutEof _ | .init _ | .deinit | .setNodelay _ | .pauseWrites _
  | .inpMakespace _ _ | .read _ _ _ | .ioRead _ | .consume _ => isTrue trivial

/-- Nothing was done that the option depends on. -/
structure Untouched (fresh : Nat → Bool) (s t : TcpSession) : Prop where
  nodelay : t.buf.nodelay = s.buf.nodelay
  pending : t.buf.pendingSetNodelay = s.buf.pendingSetNodelay
  stream : t.buf.stream.isSome → s.buf.stream.isSome
  requested : requestedIn t.trace = requestedIn s.trace
  option : optionIn fresh t.trace = optionIn fresh s.trace

namespace Untouched
variable {fresh : Nat → Bool} {b b' : TcpStreamBuf} {tr tr' : List TcpEvent}

theorem event {e : TcpEvent} (hreq : requestedAfter (requestedIn tr) e = requestedIn tr)
    (hopt : optionAfter fresh (optionIn fresh tr) e = optionIn fresh tr) :
    Untouched fresh ⟨b, tr⟩ ⟨b, tr ++ [e]⟩ :=
  ⟨rfl, rfl, id, requestedIn_concat.trans hreq, optionIn_concat.trans hopt⟩

theorem reads (tr : List TcpEvent) {calls : List StreamCall}
    (hcalls : ∀ c ∈ calls, ∃ room r, c = .read room r) :
    optionIn fresh (tr ++ calls.map .call) = optionIn fresh tr := by
  induction calls generalizing tr with
  | nil => simp
  | cons c calls ih =>
    obtain ⟨room, r, rfl⟩ := hcalls c List.mem_cons_self
    have hmore := ih (tr ++ [.call (.read room r)])
      fun c' hc' => hcalls c' (List.mem_cons_of_mem _ hc')
    rw [List.append_assoc, optionIn_concat] at hmore
    exact hmore

/-- The buffer may change elsewhere. -/
theorem buf (h : Untouched fresh ⟨b, tr⟩ ⟨b, tr'⟩)
    (hnodelay : b'.nodelay = b.nodelay) (hpending : b'.pendingSetNodelay = b.pendingSetNodelay)
    (hstream : b'.stream.isSome → b.stream.isSome) : Untouched fresh ⟨b, tr⟩ ⟨b', tr'⟩ :=
  ⟨hnodelay, hpending, hstream, h.requested, h.option⟩

end Untouched

/-- Most operations leave the option alone. -/
theorem Untouched.of_step (fresh : Nat → Bool) {usizeMax : Nat} {s t : TcpSession} {op : TcpOp}
    (hinit : ∀ stream, op ≠ .init stream) (hset : ∀ nodelay, op ≠ .setNodelay nodelay)
    (hflush : ∀ o, op ≠ .flush o) (hstep : s.step usizeMax op = .ret t) :
    Untouched fresh s t := by
  obtain ⟨b, tr⟩ := s
  cases op with
  | init stream => exact absurd rfl (hinit stream)
  | setNodelay nodelay => exact absurd rfl (hset nodelay)
  | flush o => exact absurd rfl (hflush o)
  | append _ | ioWrite _ | setOutEof _ | pauseWrites _ | consume _ =>
    cases hstep
    exact (Untouched.event rfl rfl).buf rfl rfl id
  | deinit =>
    cases hstep
    exact (Untouched.event rfl rfl).buf rfl rfl (by simp [TcpStreamBuf.deinit])
  | inpMakespace max spare =>
    obtain ⟨b', hb, hstep⟩ := Exec.bind_eq_ret.mp hstep
    cases hstep
    rw [inpMakespace_frame hb]
    exact ⟨rfl, rfl, id, rfl, rfl⟩
  | read max spare outcomes =>
    obtain ⟨⟨b', status, calls⟩, hr, hstep⟩ := Exec.bind_eq_ret.mp hstep
    cases hstep
    obtain ⟨hb, hcalls⟩ := read_frame hr
    rw [hb]
    exact ⟨rfl, rfl, id, requestedIn_calls tr calls, Untouched.reads tr hcalls⟩
  | ioRead len =>
    obtain ⟨⟨b', rv⟩, hr, hstep⟩ := Exec.bind_eq_ret.mp hstep
    cases hstep
    rw [ioRead_frame hr]
    cases rv with
    | error e => exact ⟨rfl, rfl, id, by simp, by simp⟩
    | ok bytes => exact (Untouched.event rfl rfl).buf rfl rfl id

/-- The operations that the option depends on. -/
theorem nodelay_cases (fresh : Nat → Bool) {usizeMax : Nat} {s t : TcpSession} {op : TcpOp}
    (hstep : s.step usizeMax op = .ret t) :
    (∃ stream, op = .init stream) ∨ (∃ nodelay, op = .setNodelay nodelay) ∨
      (∃ o, op = .flush o) ∨ Untouched fresh s t := by
  by_contra hnone
  simp only [not_or, not_exists] at hnone
  obtain ⟨hinit, hset, hflush, htouched⟩ := hnone
  exact htouched (.of_step fresh hinit hset hflush hstep)

/-- A flush leaves the option in step exactly if it makes the change it has to make. -/
theorem nodelay_flush {fresh : Nat → Bool} {usizeMax : Nat} {s t : TcpSession}
    {o : FlushOutcomes} (hreq : requestedIn s.trace = s.buf.nodelay) (hok : NodelayOk fresh s)
    (hstep : s.step usizeMax (.flush o) = .ret t) :
    NodelayOk fresh t ↔ (TcpOp.flush o).AppliesNodelay fresh s := by
  obtain ⟨⟨buf, rv, calls⟩, hf, hstep⟩ := Exec.bind_eq_ret.mp hstep
  cases hstep
  by_cases hrun : s.buf.pause = false ∧ s.buf.stream.isSome
  · obtain ⟨hpause, hstream⟩ := hrun
    have hsettled := flush_settles fresh s.trace hf hpause hstream
    have hgood : NodelayOk fresh ⟨buf, s.trace ++ calls.map .call⟩ ↔
        optionIn fresh (s.trace ++ calls.map .call) = s.buf.nodelay := by
      unfold NodelayOk
      rw [hsettled.stream, hsettled.pending, requestedIn_calls, hreq]
      simp [hstream]
    rw [hgood, hsettled.option]
    simp only [TcpOp.AppliesNodelay, hreq, hpause, hstream, true_imp_iff]
    have hinStep := hok hstream
    rw [hreq] at hinStep
    by_cases hpending : s.buf.pendingSetNodelay = true
    · by_cases hrefused : refused o.setNodelay = false
      · simp [hpending, hrefused]
      · simp [hpending, hrefused]
    · have hoption := hinStep.resolve_right hpending
      simp [hpending, hoption]
  · rcases flush_cases hf with ⟨-, rfl, -, rfl⟩ | ⟨f₁, f₂, f₃, f₄, hblocks, -⟩
    · rw [List.map_nil, List.append_nil]
      constructor
      · intro _ hpause hstream
        exact absurd ⟨hpause, hstream⟩ hrun
      · intro _
        exact hok
    · exact absurd ⟨hblocks.pause, hblocks.stream⟩ hrun

/-- The buffer knows what was requested. -/
theorem requested_step {usizeMax : Nat} {s t : TcpSession} {op : TcpOp}
    (hreq : requestedIn s.trace = s.buf.nodelay) (hstep : s.step usizeMax op = .ret t) :
    requestedIn t.trace = t.buf.nodelay := by
  rcases nodelay_cases (fun _ => false) hstep with ⟨stream, rfl⟩ | ⟨nodelay, rfl⟩ |
    ⟨o, rfl⟩ | huntouched
  · cases hstep
    exact requestedIn_concat.trans hreq
  · cases hstep
    have hnodelay : (s.buf.setNodelay nodelay).nodelay = nodelay := by
      unfold TcpStreamBuf.setNodelay
      split
      · rfl
      · rename_i hsame
        simpa using hsame
    exact requestedIn_concat.trans hnodelay.symm
  · obtain ⟨⟨buf, rv, calls⟩, hf, hstep⟩ := Exec.bind_eq_ret.mp hstep
    cases hstep
    have hnodelay : buf.nodelay = s.buf.nodelay := by
      refine Steps.keeps (I := fun b => b.nodelay = s.buf.nodelay) (fun b c b' hb hc => ?_) rfl
        (flush_steps hf)
      cases hc <;> exact hb
    rw [requestedIn_calls, hreq, hnodelay]
  · rw [huntouched.requested, huntouched.nodelay, hreq]

/-- From a state in step, an operation leads to one in step exactly if it makes the
change it has to make. -/
theorem nodelay_step {fresh : Nat → Bool} {usizeMax : Nat} {s t : TcpSession} {op : TcpOp}
    (hreq : requestedIn s.trace = s.buf.nodelay) (hok : NodelayOk fresh s)
    (hstep : s.step usizeMax op = .ret t) : NodelayOk fresh t ↔ op.AppliesNodelay fresh s := by
  rcases nodelay_cases fresh hstep with ⟨stream, rfl⟩ | ⟨nodelay, rfl⟩ | ⟨o, rfl⟩ |
    huntouched
  · cases hstep
    exact ⟨fun _ => trivial, fun _ _ => .inr rfl⟩
  · cases hstep
    refine ⟨fun _ => trivial, fun _ => ?_⟩
    unfold TcpStreamBuf.setNodelay
    split
    · intro _
      exact .inr rfl
    · rename_i hsame
      have hsame : s.buf.nodelay = nodelay := by simpa using hsame
      intro hstream
      rw [optionIn_concat, requestedIn_concat]
      change optionIn fresh s.trace = nodelay ∨ _
      rw [← hsame, ← hreq]
      exact hok hstream
  · exact nodelay_flush hreq hok hstep
  · refine ⟨fun hgood => ?_, fun _ hstream => ?_⟩
    · cases op with
      | flush o => exact (nodelay_flush hreq hok hstep).mp hgood
      | _ => trivial
    · rw [huntouched.option, huntouched.requested, huntouched.pending]
      exact hok (huntouched.stream hstream)

/-- **TCP_NODELAY.** The stream is in step in all states of a run exactly if no flush
is refused a change that it has to make; and while a change is pending, an unpaused
flush that is not refused makes it. -/
theorem TcpSession.nodelay_in_step_iff (fresh : Nat → Bool) (usizeMax : Nat) (ops : List TcpOp)
    (s : TcpSession) (hrun : ({} : TcpSession).runs usizeMax ops = .ret s) :
    ((Meets (step usizeMax) (fun s _ => NodelayOk fresh s) {} ops ∧ NodelayOk fresh s) ↔
      Meets (step usizeMax) (fun s op => op.AppliesNodelay fresh s) {} ops) ∧
    ∀ o t, s.buf.stream.isSome → s.buf.pendingSetNodelay = true → s.buf.pause = false →
      refused o.setNodelay = false → s.step usizeMax (.flush o) = .ret t →
      optionIn fresh t.trace = requestedIn t.trace := by
  refine ⟨?_, fun o t hstream hpending hpause hrefused hstep => ?_⟩
  · exact Meets.states_iff (I := fun s => requestedIn s.trace = s.buf.nodelay)
      (fun s op t hreq _ hstep => requested_step hreq hstep)
      (fun s op t hreq hok hstep => nodelay_step hreq hok hstep) rfl nofun hrun
  · have hreq : requestedIn s.trace = s.buf.nodelay :=
      run_invariant (I := fun s => requestedIn s.trace = s.buf.nodelay)
        (fun _ _ _ hreq hstep => requested_step hreq hstep) rfl hrun
    obtain ⟨⟨buf, rv, calls⟩, hf, hstep⟩ := Exec.bind_eq_ret.mp hstep
    cases hstep
    have hsettled := flush_settles fresh s.trace hf hpause hstream
    rw [hsettled.option, if_pos ⟨hpending, hrefused⟩, requestedIn_calls, hreq]

/-- A change that is applied on the second flush, and again to a second stream. -/
theorem TcpSession.nodelay_in_step_iff_sample :
    ∃ s, ({} : TcpSession).runs 1000
        [.init 0, .pauseWrites true, .setNodelay true, .flush {}, .pauseWrites false,
          .flush { setNodelay := [.error ⟨.interrupted, none⟩, .ok ()], flush := [.ok ()] },
          .init 1] = .ret s ∧ NodelayOk (fun _ => false) s := by
  obtain ⟨s, hs⟩ := Exec.exists_ret (x := ({} : TcpSession).runs 1000
    [.init 0, .pauseWrites true, .setNodelay true, .flush {}, .pauseWrites false,
      .flush { setNodelay := [.error ⟨.interrupted, none⟩, .ok ()], flush := [.ok ()] },
      .init 1]) rfl
  exact ⟨s, hs, ((nodelay_in_step_iff (fun _ => false) 1000 _ s hs).1.mpr (by decide)).2⟩

/-- The stream refuses the change before it is writable: the flush has taken the
change off, and the option stays what it was. -/
theorem TcpSession.nodelay_refused :
    ∃ s, ({} : TcpSession).runs 1000
        [.init 0, .setNodelay true, .flush { setNodelay := [.error ⟨.other, none⟩] }] = .ret s ∧
      s.buf.stream = some 0 ∧ optionIn (fun _ => false) s.trace = false ∧
      requestedIn s.trace = true ∧ s.buf.pendingSetNodelay = false :=
  ⟨_, rfl, rfl, rfl, rfl, rfl⟩

end StakkerMio
