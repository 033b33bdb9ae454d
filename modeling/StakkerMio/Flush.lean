import StakkerMio.Tcp.FlushSteps
import StakkerMio.Udp.Queue

/-! # What a flush leaves behind

Under edge triggering a flush must not stop with something left to send unless a
call has reported `WouldBlock`: no other event would start the next one. -/
namespace StakkerMio
open Lib

/-- The outcomes that are not interruptions. -/
def decided {α : Type} (outcomes : List (Result α)) : Nat :=
  outcomes.countP fun r => !isInterrupted r

section
variable {α : Type} {r : Result α} {outcomes : List (Result α)}

theorem decided_interrupted (hr : isInterrupted r = true) :
    decided (r :: outcomes) = decided outcomes :=
  List.countP_cons_of_neg (by simp [hr])

theorem decided_cons (hr : isInterrupted r = false) :
    decided (r :: outcomes) = decided outcomes + 1 :=
  List.countP_cons_of_pos (by simp [hr])

/-- One such outcome ends a retry loop. -/
theorem attempts_returns (h : 1 ≤ decided outcomes) : ∃ a, attempts outcomes = .ret a := by
  induction outcomes with
  | nil => cases h
  | cons r outcomes ih =>
    unfold attempts
    split
    · rename_i hr
      obtain ⟨⟨rv, tried⟩, hret⟩ := ih (decided_interrupted hr ▸ h)
      rw [hret]
      exact ⟨_, rfl⟩
    · exact ⟨_, rfl⟩

end

/-- The error of a call that failed. -/
def StreamCall.failure : StreamCall → Option Error
  | .setNodelay _ (.error e) | .write _ (.error e) | .flush (.error e) | .shutdown (.error e)
  | .read _ (.error e) => some e
  | _ => none

/-- A write into a buffer of `n` bytes accepts at least `least` bytes, and no more than it
is passed. Nothing is said of outcomes after the one that ends the loop. -/
def accepts (least : Nat) : Nat → List (Result Nat) → Bool
  | _, [] => true
  | 0, _ => true
  | n + 1, .error e :: outcomes => e.kind ≠ .interrupted || accepts least (n + 1) outcomes
  | n + 1, .ok len :: outcomes =>
    decide (least ≤ len ∧ len ≤ n + 1) && (len = 0 || accepts least (n + 1 - len) outcomes)

namespace TcpStreamBuf
variable {b b' : TcpStreamBuf} {f g : Flushing}

/-- If the flush is to return early, the last call has failed, and was not merely
interrupted; if it is to return `Ok`, the call would have blocked. -/
def Early (f : Flushing) : Prop :=
  ∀ rv, f.rv = some rv → ∃ c e, f.calls.getLast? = some c ∧ c.failure = some e ∧
    e.kind ≠ .interrupted ∧ (rv = .ok () → e.kind = .wouldBlock)

/-- A block that returns early as it may, or was gone through and leaves a buffer
with `P`. -/
structure Ends (P : TcpStreamBuf → Prop) (f : Flushing) : Prop where
  early : Early f
  through : f.rv = none → P f.buf

/-- No value was returned. -/
theorem Early.of_none (hrv : f.rv = none) : Early f := by
  intro rv h
  rw [hrv] at h
  cases h

theorem Ends.of_none {P : TcpStreamBuf → Prop} (hrv : f.rv = none) (hP : P f.buf) : Ends P f :=
  ⟨.of_none hrv, fun _ => hP⟩

theorem Ends.of_early {P : TcpStreamBuf → Prop} {rv : Result Unit} (hrv : f.rv = some rv)
    (h : Early f) : Ends P f := by
  refine ⟨h, fun hnone => ?_⟩
  rw [hrv] at hnone
  cases hnone

theorem Ends.andThen {P Q : TcpStreamBuf → Prop} {k : TcpStreamBuf → Exec Flushing}
    (h : Ends P f) (hk : ∀ {g}, P f.buf → k f.buf = .ret g → Ends Q g)
    (hg : f.andThen k = .ret g) : Ends Q g := by
  rcases andThen_cases hg with ⟨rv, hrv, rfl⟩ | ⟨hrv, g', hg', rfl⟩
  · exact .of_early hrv h.early
  · have hend := hk (h.through hrv) hg'
    refine ⟨fun rv hrv => ?_, hend.through⟩
    obtain ⟨c, e, hlast, hfailure⟩ := hend.early rv hrv
    refine ⟨c, e, ?_, hfailure⟩
    show (f.calls ++ g'.calls).getLast? = some c
    rw [List.getLast?_append, hlast]
    rfl

theorem andThen_returns {k : TcpStreamBuf → Exec Flushing}
    (hk : f.rv = none → ∃ g, k f.buf = .ret g) : ∃ g, f.andThen k = .ret g := by
  unfold Flushing.andThen
  split
  · exact ⟨_, rfl⟩
  · obtain ⟨g, hg⟩ := hk ‹_›
    rw [hg]
    exact ⟨_, rfl⟩

/-- The last attempt of a retry loop, as a call. -/
theorem attempts_last (call : Result Unit → StreamCall) {outcomes tried : List (Result Unit)}
    {rv : Result Unit} (h : attempts outcomes = .ret (rv, tried)) :
    (tried.map call).getLast? = some (call rv) ∧ isInterrupted rv = false := by
  obtain ⟨interrupts, rfl, -, hrv⟩ := attempts_ret h
  refine ⟨?_, hrv⟩
  rw [List.map_append]
  exact List.getLast?_concat

theorem applyNodelay_ends {outcomes : List (Result Unit)}
    (hf : b.applyNodelay outcomes = .ret f) : Ends (fun c => c.out = b.out) f := by
  unfold applyNodelay at hf
  split at hf
  · obtain ⟨⟨rv, tried⟩, htried, hf⟩ := Exec.bind_eq_ret.mp hf
    obtain ⟨hlast, hdecided⟩ := attempts_last (StreamCall.setNodelay b.nodelay) htried
    cases rv with
    | error e =>
      cases hf
      refine .of_early rfl fun rv hrv => ?_
      cases hrv
      exact ⟨_, e, hlast, rfl, by simpa [isInterrupted] using hdecided, by simp⟩
    | ok u =>
      cases hf
      exact .of_none rfl rfl
  · cases hf
    exact .of_none rfl rfl

/-- The arms shared by the last two loops. -/
theorem finish_early {call : Result Unit → StreamCall} {tried : List (Result Unit)}
    {rv : Result Unit} (hcall : ∀ e, (call (.error e)).failure = some e)
    (hlast : (tried.map call).getLast? = some (call rv)) (hrv : isInterrupted rv = false) :
    Early (finish { buf := b, calls := tried.map call } rv) := by
  cases rv with
  | ok u => exact .of_none rfl
  | error e =>
    have hne : e.kind ≠ .interrupted := by simpa [isInterrupted] using hrv
    unfold finish
    dsimp only
    split
    · rename_i hblock
      exact fun rv _ => ⟨_, e, hlast, hcall e, hne, fun _ => hblock⟩
    · intro rv hrv
      cases hrv
      exact ⟨_, e, hlast, hcall e, hne, by simp⟩

theorem flushStream_ends {outcomes : List (Result Unit)}
    (hf : b.flushStream outcomes = .ret f) : Ends (fun c => c.out = b.out) f := by
  obtain ⟨⟨rv, tried⟩, htried, hf⟩ := Exec.bind_eq_ret.mp hf
  obtain ⟨hlast, hrv⟩ := attempts_last StreamCall.flush htried
  cases hf
  refine ⟨finish_early (fun _ => rfl) hlast hrv, fun _ => ?_⟩
  rw [(finish_buf _ rv).1]

/-- Once the block has been gone through, EOF has been sent if it was asked for. -/
theorem shutdownStream_ends {outcomes : List (Result Unit)} (hout : b.out = [])
    (hf : b.shutdownStream outcomes = .ret f) :
    Ends (fun c => c.out = [] ∧ (c.outEof = true → c.sentOutEof = true)) f := by
  unfold shutdownStream at hf
  split at hf
  · obtain ⟨⟨rv, tried⟩, htried, hf⟩ := Exec.bind_eq_ret.mp hf
    obtain ⟨hlast, hrv⟩ := attempts_last StreamCall.shutdown htried
    have hearly := finish_early (b := b) (fun _ => rfl) hlast hrv
    have hbuf : (finish { buf := b, calls := tried.map StreamCall.shutdown } rv).buf = b :=
      (finish_buf _ rv).1
    dsimp only at hf
    split at hf
    · rename_i rv' hrv'
      cases hf
      refine ⟨hearly, fun hnone => ?_⟩
      rw [hrv'] at hnone
      cases hnone
    · rename_i hnone
      cases hf
      refine ⟨fun rv' hrv' => ?_, fun _ => ⟨by rw [hbuf, hout], fun _ => rfl⟩⟩
      have hrv' : (finish { buf := b, calls := tried.map StreamCall.shutdown } rv).rv =
          some rv' := hrv'
      rw [hnone] at hrv'
      cases hrv'
  · rename_i hcond
    cases hf
    refine .of_none rfl ⟨hout, ?_⟩
    simpa [hout] using hcond

/-! ## The loop that writes -/

section
variable {least n len : Nat} {e : Error} {outcomes : List (Result Nat)}

theorem accepts_interrupted (hn : n ≠ 0) (he : e.kind = .interrupted) :
    accepts least n (.error e :: outcomes) = accepts least n outcomes := by
  obtain ⟨n, rfl⟩ := Nat.exists_eq_succ_of_ne_zero hn
  simp [accepts, he]

theorem accepts_ok (hn : n ≠ 0) : accepts least n (.ok len :: outcomes) = true ↔
    (least ≤ len ∧ len ≤ n) ∧ (len = 0 ∨ accepts least (n - len) outcomes = true) := by
  obtain ⟨n, rfl⟩ := Nat.exists_eq_succ_of_ne_zero hn
  rw [accepts, Bool.and_eq_true_iff, Bool.or_eq_true_iff, decide_eq_true_eq, decide_eq_true_eq]

end

/-- The loop returns early for a failed write only, and else has emptied `out`. -/
theorem writeLoop_ends {outcomes : List (Result Nat)}
    (haccepts : accepts 1 b.out.length outcomes = true) (hf : b.writeLoop outcomes = .ret f) :
    Ends (fun c => c.out = []) f := by
  induction outcomes generalizing b f with
  | nil =>
    unfold writeLoop at hf
    split at hf
    · rename_i hempty
      cases hf
      exact .of_none rfl (List.isEmpty_iff.mp hempty)
    · cases hf
  | cons r outcomes ih =>
    unfold writeLoop at hf
    split at hf
    · rename_i hempty
      cases hf
      exact .of_none rfl (List.isEmpty_iff.mp hempty)
    · rename_i hne
      have hne : b.out.length ≠ 0 := by simpa using hne
      have hlater {g : Flushing} (hg : Ends (fun c => c.out = []) g) :
          Ends (fun c => c.out = []) { g with calls := .write b.out r :: g.calls } := by
        refine ⟨fun rv hrv => ?_, hg.through⟩
        obtain ⟨c, e, hlast, hfailure⟩ := hg.early rv hrv
        refine ⟨c, e, ?_, hfailure⟩
        show (.write b.out r :: g.calls).getLast? = some c
        rw [List.getLast?_cons, hlast]
        rfl
      cases r with
      | error e =>
        dsimp only at hf
        split at hf
        · rename_i he
          obtain ⟨g, hg, hf⟩ := Exec.bind_eq_ret.mp hf
          cases hf
          rw [accepts_interrupted hne he] at haccepts
          exact hlater (ih haccepts hg)
        · rename_i he
          split at hf
          · rename_i hblock
            cases hf
            exact .of_early rfl fun rv _ => ⟨_, e, rfl, rfl, he, fun _ => hblock⟩
          · cases hf
            refine .of_early rfl fun rv hrv => ?_
            cases hrv
            exact ⟨_, e, rfl, rfl, he, by simp⟩
      | ok len =>
        obtain ⟨⟨hpos, hlen⟩, haccepts⟩ := (accepts_ok hne).mp haccepts
        have haccepts := haccepts.resolve_left (by omega)
        dsimp only at hf
        rw [if_neg (by omega), if_pos hlen] at hf
        obtain ⟨g, hg, hf⟩ := Exec.bind_eq_ret.mp hf
        cases hf
        rw [← List.length_drop] at haccepts
        exact hlater (ih haccepts hg)

/-- As many outcomes as there are bytes are enough. -/
theorem writeLoop_returns {outcomes : List (Result Nat)}
    (haccepts : accepts 1 b.out.length outcomes = true)
    (henough : b.out.length ≤ decided outcomes) : ∃ f, b.writeLoop outcomes = .ret f := by
  induction outcomes generalizing b with
  | nil =>
    have hempty : b.out.isEmpty = true := by
      rw [List.isEmpty_iff, ← List.length_eq_zero_iff]
      exact Nat.le_zero.mp henough
    unfold writeLoop
    rw [if_pos hempty]
    exact ⟨_, rfl⟩
  | cons r outcomes ih =>
    unfold writeLoop
    split
    · exact ⟨_, rfl⟩
    · rename_i hne
      have hne : b.out.length ≠ 0 := by simpa using hne
      cases r with
      | error e =>
        dsimp only
        split
        · rename_i he
          rw [accepts_interrupted hne he] at haccepts
          rw [decided_interrupted (by simp [isInterrupted, he])] at henough
          obtain ⟨g, hg⟩ := ih haccepts henough
          rw [hg]
          exact ⟨_, rfl⟩
        · split <;> exact ⟨_, rfl⟩
      | ok len =>
        obtain ⟨⟨hpos, hlen⟩, haccepts⟩ := (accepts_ok hne).mp haccepts
        have haccepts := haccepts.resolve_left (by omega)
        rw [decided_cons rfl] at henough
        rw [← List.length_drop] at haccepts
        have hdrop : (b.out.drop len).length ≤ decided outcomes := by
          rw [List.length_drop]
          omega
        obtain ⟨g, hg⟩ := ih (b := { b with out := b.out.drop len }) haccepts hdrop
        dsimp only
        rw [if_neg (by omega), if_pos hlen, hg]
        exact ⟨_, rfl⟩

/-- The `drain` stays within the buffer. -/
theorem writeLoop_ne_panic {outcomes : List (Result Nat)}
    (haccepts : accepts 0 b.out.length outcomes = true) : b.writeLoop outcomes ≠ .panic := by
  induction outcomes generalizing b with
  | nil =>
    unfold writeLoop
    split <;> simp
  | cons r outcomes ih =>
    unfold writeLoop
    split
    · simp
    · rename_i hne
      have hne : b.out.length ≠ 0 := by simpa using hne
      cases r with
      | error e =>
        dsimp only
        split
        · rename_i he
          rw [accepts_interrupted hne he] at haccepts
          exact Exec.bind_ne_panic (ih haccepts) fun _ _ => by simp
        · split <;> simp
      | ok len =>
        obtain ⟨⟨-, hlen⟩, haccepts⟩ := (accepts_ok hne).mp haccepts
        dsimp only
        split
        · simp
        · rename_i hpos
          have haccepts := haccepts.resolve_left hpos
          rw [← List.length_drop] at haccepts
          have hmore := ih (b := { b with out := b.out.drop len }) haccepts
          exact Exec.bind_ne_panic hmore fun _ _ => by simp

/-! ## `flush` -/

/-- Something is left to send. -/
def Unsent (b : TcpStreamBuf) : Prop :=
  b.out ≠ [] ∨ b.outEof = true ∧ b.sentOutEof = false

/-- What is asked of a flush with the outcomes `o`. -/
structure FlushesAll (b : TcpStreamBuf) (o : FlushOutcomes) : Prop where
  /-- It returns if no call is interrupted for ever. -/
  returns : 1 ≤ decided o.setNodelay → b.out.length ≤ decided o.write → 1 ≤ decided o.flush →
    1 ≤ decided o.shutdown → ∃ r, b.flush o = .ret r
  blocked : ∀ {b' calls}, b.flush o = .ret (b', .ok (), calls) → b'.Unsent →
    ∃ c e, calls.getLast? = some c ∧ c.failure = some e ∧ e.kind = .wouldBlock
  emptied : ∀ {b' rv calls}, b.flush o = .ret (b', rv, calls) →
    (∀ c ∈ calls, ∀ e, c.failure = some e → e.kind = .interrupted) →
    b'.out = [] ∧ (b'.outEof = true → b'.sentOutEof = true)

theorem Blocks.ends {o : FlushOutcomes} {f₁ f₂ f₃ f₄ : Flushing} (h : Blocks b o f₁ f₂ f₃ f₄)
    (haccepts : accepts 1 b.out.length o.write = true) :
    Ends (fun c => c.out = [] ∧ (c.outEof = true → c.sentOutEof = true)) f₄ := by
  have h₂ := (applyNodelay_ends h.nodelay).andThen
    (fun hout hg => writeLoop_ends (by rwa [hout]) hg) h.write
  have h₃ : Ends (fun c => c.out = []) f₃ := h₂.andThen
    (fun hout hg => hout ▸ flushStream_ends hg) h.flush
  exact h₃.andThen (fun hout hg => shutdownStream_ends hout hg) h.shutdown

theorem applyNodelay_returns {outcomes : List (Result Unit)} (h : 1 ≤ decided outcomes) :
    ∃ f, b.applyNodelay outcomes = .ret f := by
  unfold applyNodelay
  split
  · obtain ⟨⟨rv, tried⟩, hret⟩ := attempts_returns h
    rw [hret]
    cases rv <;> exact ⟨_, rfl⟩
  · exact ⟨_, rfl⟩

theorem shutdownStream_returns {outcomes : List (Result Unit)} (h : 1 ≤ decided outcomes) :
    ∃ f, b.shutdownStream outcomes = .ret f := by
  unfold shutdownStream
  split
  · obtain ⟨⟨rv, tried⟩, hret⟩ := attempts_returns h
    rw [hret, Exec.ret_bind]
    dsimp only
    split <;> exact ⟨_, rfl⟩
  · exact ⟨_, rfl⟩

theorem andThen_ne_panic {k : TcpStreamBuf → Exec Flushing} (hk : f.rv = none → k f.buf ≠ .panic) :
    f.andThen k ≠ .panic := by
  unfold Flushing.andThen
  split
  · simp
  · exact Exec.bind_ne_panic (hk ‹_›) fun _ _ => by simp

theorem flush_returns {o : FlushOutcomes} (haccepts : accepts 1 b.out.length o.write = true)
    (hnodelay : 1 ≤ decided o.setNodelay) (hwrite : b.out.length ≤ decided o.write)
    (hflush : 1 ≤ decided o.flush) (hshutdown : 1 ≤ decided o.shutdown) :
    ∃ r, b.flush o = .ret r := by
  unfold TcpStreamBuf.flush
  split
  · exact ⟨_, rfl⟩
  · split
    · exact ⟨_, rfl⟩
    · obtain ⟨f₁, h₁⟩ := applyNodelay_returns (b := b) hnodelay
      have hends := applyNodelay_ends h₁
      obtain ⟨f₂, h₂⟩ := andThen_returns (f := f₁) (k := fun b => b.writeLoop o.write)
        fun hnone => writeLoop_returns (by rwa [hends.through hnone])
          (by rwa [hends.through hnone])
      obtain ⟨f₃, h₃⟩ := andThen_returns (f := f₂) (k := fun b => b.flushStream o.flush)
        fun _ => by
          obtain ⟨⟨rv, tried⟩, hret⟩ := attempts_returns hflush
          exact ⟨_, by rw [flushStream, hret]; rfl⟩
      obtain ⟨f₄, h₄⟩ := andThen_returns (f := f₃) (k := fun b => b.shutdownStream o.shutdown)
        fun _ => shutdownStream_returns hshutdown
      rw [h₁, Exec.ret_bind, h₂, Exec.ret_bind, h₃, Exec.ret_bind, h₄]
      exact ⟨_, rfl⟩

/-- A flush panics only where the stream accepts more than it was passed. -/
theorem flush_ne_panic {o : FlushOutcomes} (haccepts : accepts 0 b.out.length o.write = true) :
    b.flush o ≠ .panic := by
  have hnodelay : b.applyNodelay o.setNodelay ≠ .panic := by
    unfold applyNodelay
    split
    · refine Exec.bind_ne_panic (attempts_ne_panic _) fun a _ => ?_
      dsimp only
      split <;> simp
    · simp
  have hflush (b : TcpStreamBuf) : b.flushStream o.flush ≠ .panic :=
    Exec.bind_ne_panic (attempts_ne_panic _) fun _ _ => by simp
  have hshutdown (b : TcpStreamBuf) : b.shutdownStream o.shutdown ≠ .panic := by
    unfold shutdownStream
    split
    · refine Exec.bind_ne_panic (attempts_ne_panic _) fun a _ => ?_
      dsimp only
      split <;> simp
    · simp
  unfold TcpStreamBuf.flush
  split
  · simp
  · split
    · simp
    · refine Exec.bind_ne_panic hnodelay fun f₁ h₁ => ?_
      have hwrite : f₁.rv = none → f₁.buf.writeLoop o.write ≠ .panic := fun hnone =>
        writeLoop_ne_panic (by rwa [(applyNodelay_ends h₁).through hnone])
      exact Exec.bind_ne_panic (andThen_ne_panic hwrite) fun f₂ _ =>
        Exec.bind_ne_panic (andThen_ne_panic fun _ => hflush f₂.buf) fun f₃ _ =>
        Exec.bind_ne_panic (andThen_ne_panic fun _ => hshutdown f₃.buf) fun _ _ => by simp

theorem flushesAll {o : FlushOutcomes} (hpause : b.pause = false) (hstream : b.stream.isSome)
    (haccepts : accepts 1 b.out.length o.write = true) : FlushesAll b o := by
  have hblocks {b' rv calls} (hf : b.flush o = .ret (b', rv, calls)) : ∃ f,
      Ends (fun c => c.out = [] ∧ (c.outEof = true → c.sentOutEof = true)) f ∧ b' = f.buf ∧
        rv = f.rv.getD (.ok ()) ∧ calls = f.calls := by
    rcases flush_cases hf with ⟨hoff, -⟩ | ⟨f₁, f₂, f₃, f₄, h, rfl, rfl, rfl⟩
    · rcases hoff with hoff | hoff
      · rw [hpause] at hoff
        cases hoff
      · rw [hoff] at hstream
        cases hstream
    · exact ⟨f₄, h.ends haccepts, rfl, rfl, rfl⟩
  refine ⟨flush_returns haccepts, fun {b' calls} hf hunsent => ?_,
    fun {b' rv calls} hf hcalls => ?_⟩
  · obtain ⟨f, hends, rfl, hrv, rfl⟩ := hblocks hf
    cases hnone : f.rv with
    | some rv =>
      rw [hnone] at hrv
      obtain ⟨c, e, hlast, hfailure, -, hblock⟩ := hends.early rv hnone
      exact ⟨c, e, hlast, hfailure, hblock hrv.symm⟩
    | none =>
      obtain ⟨hout, hsent⟩ := hends.through hnone
      rcases hunsent with hne | ⟨heof, hunsent⟩
      · exact absurd hout hne
      · rw [hsent heof] at hunsent
        cases hunsent
  · obtain ⟨f, hends, rfl, -, rfl⟩ := hblocks hf
    cases hnone : f.rv with
    | some rv =>
      obtain ⟨c, e, hlast, hfailure, hne, -⟩ := hends.early rv hnone
      exact absurd (hcalls c (List.mem_of_getLast? hlast) e hfailure) hne
    | none => exact hends.through hnone

end TcpStreamBuf
/-! ## The UDP queues -/

namespace PacketQueue
variable {P : Type} {size : P → Nat}

/-- The send went out in full or was interrupted. -/
def SentOrInterrupted (size : P → Nat) (s : P × Result Nat) : Prop :=
  isInterrupted s.2 = true ∨ s.2 = .ok (size s.1)

/-- What is asked of the flush `x` of a queue. -/
structure FlushesAll (size : P → Nat) (q : PacketQueue P) (outcomes : List (Result Nat))
    (x : Exec (Flushed P)) : Prop where
  /-- It returns if no send is interrupted for ever. -/
  returns : q.out.length ≤ decided outcomes → ∃ f, x = .ret f
  blocked : ∀ {f}, x = .ret f → f.rv = .ok () → f.out ≠ [] →
    ∃ pk r, f.sends.getLast? = some (pk, r) ∧ isWouldBlock r = true
  emptied : ∀ {f}, x = .ret f → (∀ s ∈ f.sends, SentOrInterrupted size s) → f.out = []

theorem sendLoop_returns (size : P → Nat) (pk : P) {outcomes : List (Result Nat)}
    (h : 1 ≤ decided outcomes) :
    ∃ rv sends rest, sendLoop size pk outcomes = .ret (rv, sends, rest) ∧
      decided outcomes = decided rest + 1 := by
  induction outcomes with
  | nil => cases h
  | cons r outcomes ih =>
    unfold sendLoop
    split
    · rename_i hr
      rw [decided_interrupted hr] at h ⊢
      obtain ⟨rv, sends, rest, hret, hrest⟩ := ih h
      rw [hret]
      exact ⟨rv, _, rest, rfl, hrest⟩
    · rename_i hr
      exact ⟨_, _, _, rfl, decided_cons (by simpa using hr)⟩

theorem flushLoop_returns {out : List P} {outcomes : List (Result Nat)}
    (h : out.length ≤ decided outcomes) : ∃ f, flushLoop size out outcomes = .ret f := by
  induction out generalizing outcomes with
  | nil => exact ⟨_, rfl⟩
  | cons pk out ih =>
    rw [List.length_cons] at h
    obtain ⟨rv, sends, rest, hret, hrest⟩ :=
      sendLoop_returns size pk (show 1 ≤ decided outcomes by omega)
    unfold flushLoop
    rw [hret, Exec.ret_bind]
    cases rv with
    | some rv => exact ⟨_, rfl⟩
    | none =>
      obtain ⟨f, hf⟩ := ih (show out.length ≤ decided rest by omega)
      exact ⟨_, by dsimp only; rw [hf]; rfl⟩

/-- The loop stops for a send that blocks, fails or is short, and for no other. -/
theorem flushLoop_emptied {out : List P} {outcomes : List (Result Nat)} {f : Flushed P}
    (h : flushLoop size out outcomes = .ret f) (hsent : ∀ s ∈ f.sends, SentOrInterrupted size s) :
    f.out = [] := by
  induction out generalizing outcomes f with
  | nil =>
    cases h
    rfl
  | cons pk out ih =>
    obtain ⟨⟨rv, sends, rest⟩, hloop, h⟩ := Exec.bind_eq_ret.mp h
    obtain ⟨interrupts, r, rfl, -, hr, rfl, rfl⟩ := sendLoop_ret hloop
    cases harm : sendArm size pk r with
    | none =>
      rw [harm] at h
      obtain ⟨f', hf', h⟩ := Exec.bind_eq_ret.mp h
      cases h
      show f'.out = []
      exact ih hf' fun s hs => hsent s (List.mem_append_right _ hs)
    | some rv =>
      rw [harm] at h
      cases h
      have hlast : (pk, r) ∈ (interrupts ++ [r]).map fun r => (pk, r) := by simp
      rcases hsent _ hlast with hi | hok
      · rw [hr] at hi
        cases hi
      · change r = .ok (size pk) at hok
        rw [hok, sendArm, if_neg (not_not.mpr rfl)] at harm
        cases harm

theorem flush_all {q : PacketQueue P} {outcomes : List (Result Nat)} (hsocket : q.socket.isSome) :
    FlushesAll size q outcomes (flush size q outcomes) := by
  obtain ⟨socket, hs⟩ := Option.isSome_iff_exists.mp hsocket
  have hflush : flush size q outcomes = flushLoop size q.out outcomes := by rw [flush, hs]
  rw [hflush]
  refine ⟨flushLoop_returns, fun {f} hf hrv hout => ?_, flushLoop_emptied⟩
  cases (flushLoop_ended hf).2 with
  | emptied _ hnil _ _ => exact absurd hnil hout
  | failed pk _ hfailed _ =>
    rw [failedOf, hrv] at hfailed
    cases hfailed
  | blocked pk r _ _ hlast hblock => exact ⟨pk, r, hlast, hblock⟩

end PacketQueue

/-- **Nothing is stranded.** A flush with a stream or socket installed, and not paused,
returns `Ok` with something left to send only if its last call reported `WouldBlock`;
with no such report and no failure it sends all there is. Each returns unless it is
interrupted for ever. -/
theorem flush_strands_nothing (Addr : Type) :
    (∀ (b : TcpStreamBuf) (o : FlushOutcomes), b.pause = false → b.stream.isSome →
      accepts 1 b.out.length o.write = true → b.FlushesAll o) ∧
    (∀ (q : UdpQueue) (outcomes : List (Result Nat)), q.socket.isSome →
      PacketQueue.FlushesAll List.length q outcomes (q.flush outcomes)) ∧
    ∀ (q : UdpServerQueue Addr) (outcomes : List (Result Nat)), q.socket.isSome →
      PacketQueue.FlushesAll (fun pk => pk.2.length) q outcomes (q.flush outcomes) :=
  ⟨fun _ _ hpause hstream haccepts => TcpStreamBuf.flushesAll hpause hstream haccepts,
    fun _ _ hsocket => PacketQueue.flush_all hsocket,
    fun _ _ hsocket => PacketQueue.flush_all hsocket⟩

/-- Five bytes with EOF to follow, sent in two parts; then two packets. -/
theorem flush_strands_nothing_sample :
    TcpStreamBuf.FlushesAll { out := [1, 2, 3, 4, 5], outEof := true, stream := some 0 }
      { write := [.ok 2, .error ⟨.interrupted, none⟩, .ok 3]
        flush := [.ok ()]
        shutdown := [.ok ()] } ∧
    PacketQueue.FlushesAll (P := List UInt8) List.length
      { out := [[1], [2, 3]], socket := some 0 } [.ok 1, .error ⟨.wouldBlock, none⟩]
      (UdpQueue.flush { out := [[1], [2, 3]], socket := some 0 }
        [.ok 1, .error ⟨.wouldBlock, none⟩]) :=
  ⟨(flush_strands_nothing Nat).1 _ _ rfl rfl (by decide),
    (flush_strands_nothing Nat).2.1 _ _ rfl⟩

end StakkerMio
