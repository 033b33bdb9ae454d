import StakkerMio.Lib.Trace
import StakkerMio.Tcp.StreamBuf

/-! # What a flush does

Each call that `flush` makes is one step of the buffer (`FlushStep`), and a flush
is a sequence of such steps (`flush_steps`). Invariants need the steps only. -/
namespace StakkerMio
open Lib

/-- A call on the stream within a flush, and what it does to the buffer. -/
inductive FlushStep : TcpStreamBuf → StreamCall → TcpStreamBuf → Prop
  | setNodelay (b : TcpStreamBuf) (r : Result Unit) :
      FlushStep b (.setNodelay b.nodelay r) { b with pendingSetNodelay := false }
  | writeError (b : TcpStreamBuf) (e : Error) : b.out ≠ [] →
      FlushStep b (.write b.out (.error e)) b
  | write (b : TcpStreamBuf) (len : Nat) : b.out ≠ [] → len ≤ b.out.length →
      FlushStep b (.write b.out (.ok len)) { b with out := b.out.drop len }
  | flush (b : TcpStreamBuf) (r : Result Unit) : FlushStep b (.flush r) b
  | shutdownError (b : TcpStreamBuf) (e : Error) : b.outEof = true → b.sentOutEof = false →
      b.out = [] → FlushStep b (.shutdown (.error e)) b
  | shutdown (b : TcpStreamBuf) : b.outEof = true → b.sentOutEof = false → b.out = [] →
      FlushStep b (.shutdown (.ok ())) { b with sentOutEof := true }

def StreamCall.isSetNodelay : StreamCall → Bool
  | .setNodelay _ _ => true
  | _ => false

namespace TcpStreamBuf
variable {b b' : TcpStreamBuf} {f g : Flushing}

theorem applyNodelay_steps {outcomes : List (Result Unit)}
    (hf : b.applyNodelay outcomes = .ret f) : Steps FlushStep b f.calls f.buf := by
  unfold applyNodelay at hf
  split at hf
  · obtain ⟨⟨rv, tried⟩, htried, hf⟩ := Exec.bind_eq_ret.mp hf
    obtain ⟨interrupts, htried, -, -⟩ := attempts_ret htried
    have hsteps : Steps FlushStep b (tried.map (StreamCall.setNodelay b.nodelay))
        { b with pendingSetNodelay := false } := by
      cases tried with
      | nil => simp at htried
      | cons r tried =>
        refine .cons (.setNodelay b r) (.loop fun c hc => ?_)
        obtain ⟨r', -, rfl⟩ := List.mem_map.mp hc
        exact .setNodelay { b with pendingSetNodelay := false } r'
    cases rv <;> cases hf <;> exact hsteps
  · cases hf
    exact .nil b

theorem writeLoop_steps {outcomes : List (Result Nat)} (hf : b.writeLoop outcomes = .ret f) :
    Steps FlushStep b f.calls f.buf := by
  induction outcomes generalizing b f with
  | nil =>
    unfold writeLoop at hf
    split at hf
    · cases hf
      exact .nil b
    · cases hf
  | cons r outcomes ih =>
    unfold writeLoop at hf
    split at hf
    · cases hf
      exact .nil b
    · rename_i hout
      have hout : b.out ≠ [] := by simpa using hout
      cases r with
      | error e =>
        dsimp only at hf
        split at hf
        · obtain ⟨g, hg, hf⟩ := Exec.bind_eq_ret.mp hf
          cases hf
          exact .cons (.writeError b e hout) (ih hg)
        · split at hf <;> cases hf <;> exact .single (.writeError b e hout)
      | ok len =>
        dsimp only at hf
        split at hf
        · rename_i hlen
          cases hf
          subst hlen
          exact .single (.write b 0 hout (Nat.zero_le _))
        · split at hf
          · rename_i hlen
            obtain ⟨g, hg, hf⟩ := Exec.bind_eq_ret.mp hf
            cases hf
            exact .cons (.write b len hout hlen) (ih hg)
          · cases hf

theorem finish_buf (f : Flushing) (r : Result Unit) :
    (finish f r).buf = f.buf ∧ (finish f r).calls = f.calls := by
  cases r with
  | ok u => exact ⟨rfl, rfl⟩
  | error e =>
    unfold finish
    dsimp only
    split <;> exact ⟨rfl, rfl⟩

theorem finish_error (f : Flushing) (e : Error) : ∃ rv, (finish f (.error e)).rv = some rv := by
  unfold finish
  dsimp only
  split <;> exact ⟨_, rfl⟩

theorem flushStream_steps {outcomes : List (Result Unit)}
    (hf : b.flushStream outcomes = .ret f) : Steps FlushStep b f.calls f.buf := by
  obtain ⟨⟨rv, tried⟩, -, hf⟩ := Exec.bind_eq_ret.mp hf
  cases hf
  rw [(finish_buf _ rv).1, (finish_buf _ rv).2]
  refine .loop fun c hc => ?_
  obtain ⟨r, -, rfl⟩ := List.mem_map.mp hc
  exact .flush b r

theorem shutdownStream_steps {outcomes : List (Result Unit)}
    (hf : b.shutdownStream outcomes = .ret f) : Steps FlushStep b f.calls f.buf := by
  unfold shutdownStream at hf
  split at hf
  · rename_i hcond
    simp only [Bool.and_eq_true, Bool.not_eq_true', List.isEmpty_iff] at hcond
    obtain ⟨⟨heof, hsent⟩, hout⟩ := hcond
    obtain ⟨⟨rv, tried⟩, htried, hf⟩ := Exec.bind_eq_ret.mp hf
    obtain ⟨interrupts, rfl, hi, -⟩ := attempts_ret htried
    have hint : Steps FlushStep b (interrupts.map StreamCall.shutdown) b := by
      refine .loop fun c hc => ?_
      obtain ⟨r, hr, rfl⟩ := List.mem_map.mp hc
      cases r with
      | ok u => cases hi _ hr
      | error e => exact .shutdownError b e heof hsent hout
    dsimp only at hf
    cases rv with
    | error e =>
      obtain ⟨rv', hrv⟩ := finish_error
        { buf := b, calls := (interrupts ++ [Except.error e]).map StreamCall.shutdown } e
      rw [hrv] at hf
      cases hf
      rw [(finish_buf _ _).1, (finish_buf _ _).2, List.map_append]
      exact hint.append (.single (.shutdownError b e heof hsent hout))
    | ok u =>
      cases hf
      change Steps FlushStep b ((interrupts ++ [Except.ok ()]).map StreamCall.shutdown) _
      rw [List.map_append]
      exact hint.append (.single (.shutdown b heof hsent hout))
  · cases hf
    exact .nil b

/-- Either a value was returned before, or the block ran. -/
theorem andThen_cases {k : TcpStreamBuf → Exec Flushing} (hg : f.andThen k = .ret g) :
    (∃ rv, f.rv = some rv ∧ g = f) ∨
    (f.rv = none ∧ ∃ h, k f.buf = .ret h ∧ g = { h with calls := f.calls ++ h.calls }) := by
  unfold Flushing.andThen at hg
  split at hg
  · rename_i rv hrv
    cases hg
    exact .inl ⟨rv, hrv, rfl⟩
  · rename_i hrv
    obtain ⟨h, hh, hg⟩ := Exec.bind_eq_ret.mp hg
    cases hg
    exact .inr ⟨hrv, h, hh, rfl⟩

theorem andThen_steps {k : TcpStreamBuf → Exec Flushing}
    (h : Steps FlushStep b f.calls f.buf)
    (hk : ∀ {b g}, k b = .ret g → Steps FlushStep b g.calls g.buf)
    (hg : f.andThen k = .ret g) : Steps FlushStep b g.calls g.buf := by
  rcases andThen_cases hg with ⟨rv, -, rfl⟩ | ⟨-, g', hg', rfl⟩
  · exact h
  · exact h.append (hk hg')

/-- The blocks of a flush, each with what it returned. -/
structure Blocks (b : TcpStreamBuf) (o : FlushOutcomes) (f₁ f₂ f₃ f₄ : Flushing) : Prop where
  pause : b.pause = false
  stream : b.stream.isSome
  nodelay : b.applyNodelay o.setNodelay = .ret f₁
  write : f₁.andThen (fun b => b.writeLoop o.write) = .ret f₂
  flush : f₂.andThen (fun b => b.flushStream o.flush) = .ret f₃
  shutdown : f₃.andThen (fun b => b.shutdownStream o.shutdown) = .ret f₄

/-- A flush does nothing, or goes through its blocks. -/
theorem flush_cases {o : FlushOutcomes} {rv : Result Unit} {calls : List StreamCall}
    (hf : b.flush o = .ret (b', rv, calls)) :
    ((b.pause = true ∨ b.stream = none) ∧ b' = b ∧ rv = .ok () ∧ calls = []) ∨
    ∃ f₁ f₂ f₃ f₄, Blocks b o f₁ f₂ f₃ f₄ ∧ b' = f₄.buf ∧ rv = f₄.rv.getD (.ok ()) ∧
      calls = f₄.calls := by
  unfold TcpStreamBuf.flush at hf
  split at hf
  · rename_i hpause
    cases hf
    exact .inl ⟨.inl hpause, rfl, rfl, rfl⟩
  · rename_i hpause
    split at hf
    · rename_i hstream
      cases hf
      exact .inl ⟨.inr hstream, rfl, rfl, rfl⟩
    · rename_i stream hstream
      obtain ⟨f₁, h₁, hf⟩ := Exec.bind_eq_ret.mp hf
      obtain ⟨f₂, h₂, hf⟩ := Exec.bind_eq_ret.mp hf
      obtain ⟨f₃, h₃, hf⟩ := Exec.bind_eq_ret.mp hf
      obtain ⟨f₄, h₄, hf⟩ := Exec.bind_eq_ret.mp hf
      cases hf
      exact .inr ⟨f₁, f₂, f₃, f₄,
        ⟨by simpa using hpause, by rw [hstream]; rfl, h₁, h₂, h₃, h₄⟩, rfl, rfl, rfl⟩

/-- A flush is a sequence of steps, one for each call. -/
theorem flush_steps {o : FlushOutcomes} {rv : Result Unit} {calls : List StreamCall}
    (hf : b.flush o = .ret (b', rv, calls)) : Steps FlushStep b calls b' := by
  rcases flush_cases hf with ⟨-, rfl, -, rfl⟩ | ⟨f₁, f₂, f₃, f₄, h, rfl, -, rfl⟩
  · exact .nil _
  · have s₁ := applyNodelay_steps h.nodelay
    have s₂ := andThen_steps s₁ (fun h => writeLoop_steps h) h.write
    have s₃ := andThen_steps s₂ (fun h => flushStream_steps h) h.flush
    exact andThen_steps s₃ (fun h => shutdownStream_steps h) h.shutdown

/-! ## The calls of each block -/

theorem writeLoop_calls {outcomes : List (Result Nat)} (hf : b.writeLoop outcomes = .ret f) :
    ∀ c ∈ f.calls, ∃ buf r, c = .write buf r := by
  induction outcomes generalizing b f with
  | nil =>
    unfold writeLoop at hf
    split at hf
    · cases hf
      exact nofun
    · cases hf
  | cons r outcomes ih =>
    have hone : ∀ c ∈ [StreamCall.write b.out r], ∃ buf r, c = .write buf r := by
      intro c hc
      exact ⟨_, _, List.mem_singleton.mp hc⟩
    have hmore {g : Flushing} (hg : ∀ c ∈ g.calls, ∃ buf r, c = .write buf r) :
        ∀ c ∈ StreamCall.write b.out r :: g.calls, ∃ buf r, c = .write buf r := by
      intro c hc
      rcases List.mem_cons.mp hc with rfl | hc
      · exact ⟨_, _, rfl⟩
      · exact hg c hc
    unfold writeLoop at hf
    split at hf
    · cases hf
      exact nofun
    · cases r with
      | error e =>
        dsimp only at hf
        split at hf
        · obtain ⟨g, hg, hf⟩ := Exec.bind_eq_ret.mp hf
          cases hf
          exact hmore (ih hg)
        · split at hf <;> cases hf <;> exact hone
      | ok len =>
        dsimp only at hf
        split at hf
        · cases hf
          exact hone
        · split at hf
          · obtain ⟨g, hg, hf⟩ := Exec.bind_eq_ret.mp hf
            cases hf
            exact hmore (ih hg)
          · cases hf

theorem flushStream_calls {outcomes : List (Result Unit)}
    (hf : b.flushStream outcomes = .ret f) : ∀ c ∈ f.calls, ∃ r, c = .flush r := by
  obtain ⟨⟨rv, tried⟩, -, hf⟩ := Exec.bind_eq_ret.mp hf
  cases hf
  rw [(finish_buf _ rv).2]
  intro c hc
  obtain ⟨r, -, rfl⟩ := List.mem_map.mp hc
  exact ⟨r, rfl⟩

theorem shutdownStream_calls {outcomes : List (Result Unit)}
    (hf : b.shutdownStream outcomes = .ret f) : ∀ c ∈ f.calls, ∃ r, c = .shutdown r := by
  unfold shutdownStream at hf
  split at hf
  · obtain ⟨⟨rv, tried⟩, -, hf⟩ := Exec.bind_eq_ret.mp hf
    have hcalls : f.calls = tried.map StreamCall.shutdown := by
      dsimp only at hf
      split at hf <;> cases hf <;> exact (finish_buf _ rv).2
    rw [hcalls]
    intro c hc
    obtain ⟨r, -, rfl⟩ := List.mem_map.mp hc
    exact ⟨r, rfl⟩
  · cases hf
    exact nofun

/-- What a block does comes after what was done since `f₁`. -/
theorem andThen_after {R : TcpStreamBuf → StreamCall → TcpStreamBuf → Prop} {f₁ : Flushing}
    {k : TcpStreamBuf → Exec Flushing}
    (h : ∃ calls, f.calls = f₁.calls ++ calls ∧ Steps R f₁.buf calls f.buf)
    (hk : ∀ {b g}, k b = .ret g → Steps R b g.calls g.buf) (hg : f.andThen k = .ret g) :
    ∃ calls, g.calls = f₁.calls ++ calls ∧ Steps R f₁.buf calls g.buf := by
  rcases andThen_cases hg with ⟨rv, -, rfl⟩ | ⟨-, g', hg', rfl⟩
  · exact h
  · obtain ⟨calls, hcalls, hsteps⟩ := h
    exact ⟨calls ++ g'.calls, by rw [hcalls, List.append_assoc], hsteps.append (hk hg')⟩

/-- After the option was dealt with, no other step of the flush touches it. -/
theorem Blocks.afterNodelay {o : FlushOutcomes} {f₁ f₂ f₃ f₄ : Flushing}
    (h : Blocks b o f₁ f₂ f₃ f₄) : ∃ calls, f₄.calls = f₁.calls ++ calls ∧
      Steps (fun b c b' => FlushStep b c b' ∧ c.isSetNodelay = false) f₁.buf calls f₄.buf := by
  have hstart : ∃ calls, f₁.calls = f₁.calls ++ calls ∧
      Steps (fun b c b' => FlushStep b c b' ∧ c.isSetNodelay = false) f₁.buf calls f₁.buf :=
    ⟨[], (List.append_nil _).symm, .nil _⟩
  have hwrite := andThen_after hstart (fun hg => (writeLoop_steps hg).restrict fun c hc => by
    obtain ⟨buf, r, rfl⟩ := writeLoop_calls hg c hc
    rfl) h.write
  have hflush := andThen_after hwrite (fun hg => (flushStream_steps hg).restrict fun c hc => by
    obtain ⟨r, rfl⟩ := flushStream_calls hg c hc
    rfl) h.flush
  exact andThen_after hflush (fun hg => (shutdownStream_steps hg).restrict fun c hc => by
    obtain ⟨r, rfl⟩ := shutdownStream_calls hg c hc
    rfl) h.shutdown

/-! ## A flush ends -/

theorem writeLoop_ne_fuel (b : TcpStreamBuf) (outcomes : List (Result Nat)) :
    b.writeLoop outcomes ≠ .fuel := by
  induction outcomes generalizing b with
  | nil =>
    unfold writeLoop
    split <;> exact nofun
  | cons r outcomes ih =>
    unfold writeLoop
    split
    · exact nofun
    · cases r with
      | error e =>
        dsimp only
        split
        · exact Exec.bind_ne_fuel (ih b) fun _ => nofun
        · split <;> exact nofun
      | ok len =>
        dsimp only
        split
        · exact nofun
        · split
          · exact Exec.bind_ne_fuel (ih _) fun _ => nofun
          · exact nofun

theorem andThen_ne_fuel {k : TcpStreamBuf → Exec Flushing} (hk : ∀ b, k b ≠ .fuel)
    (f : Flushing) : f.andThen k ≠ .fuel := by
  unfold Flushing.andThen
  split
  · exact nofun
  · exact Exec.bind_ne_fuel (hk _) fun _ => nofun

/-- A flush panics, waits for the stream, or returns. -/
theorem flush_ne_fuel (b : TcpStreamBuf) (o : FlushOutcomes) : b.flush o ≠ .fuel := by
  have hnodelay : b.applyNodelay o.setNodelay ≠ .fuel := by
    unfold applyNodelay
    split
    · refine Exec.bind_ne_fuel (attempts_ne_fuel _) fun a => ?_
      dsimp only
      split <;> exact nofun
    · exact nofun
  have hflush (b : TcpStreamBuf) : b.flushStream o.flush ≠ .fuel :=
    Exec.bind_ne_fuel (attempts_ne_fuel _) fun _ => nofun
  have hshutdown (b : TcpStreamBuf) : b.shutdownStream o.shutdown ≠ .fuel := by
    unfold shutdownStream
    split
    · refine Exec.bind_ne_fuel (attempts_ne_fuel _) fun a => ?_
      dsimp only
      split <;> exact nofun
    · exact nofun
  unfold flush
  split
  · exact nofun
  · split
    · exact nofun
    · exact Exec.bind_ne_fuel hnodelay fun f => Exec.bind_ne_fuel
        (andThen_ne_fuel (fun b => writeLoop_ne_fuel b _) f) fun f => Exec.bind_ne_fuel
        (andThen_ne_fuel hflush f) fun f => Exec.bind_ne_fuel
        (andThen_ne_fuel hshutdown f) fun _ => nofun

end TcpStreamBuf
end StakkerMio
