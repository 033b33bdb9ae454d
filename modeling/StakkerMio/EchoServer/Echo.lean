import StakkerMio.EchoServer.Echoer
import StakkerMio.Tcp.StreamEof

/-! # What the `Echoer` sends

Every chunk received is put off once and sent once. As long as the calls put off are made
in the order they were put off, the stream is sent what it delivered, byte by byte, and an
actor that has stopped at the end of the stream has sent all of it. -/
namespace StakkerMio
open Lib TcpEvent

/-! ## How a read ends -/

def StreamCall.isRead : StreamCall → Bool
  | .read _ _ => true
  | _ => false

/-- The status a read returns, by the outcome of the last of its calls. -/
inductive ReadEnd : ReadStatus → Result (List UInt8) → Prop
  | newData (byte : UInt8) (bytes : List UInt8) : ReadEnd .newData (.ok (byte :: bytes))
  | endOfStream : ReadEnd .endOfStream (.ok [])
  | wouldBlock (e : Error) : e.kind = .wouldBlock → ReadEnd .wouldBlock (.error e)
  | error (e : Error) : e.kind ≠ .interrupted → ReadEnd (.error e) (.error e)

/-- The calls of a read into a slice of `room` bytes: all but the last are interrupted. -/
structure Reads (room : Nat) (b b' : TcpStreamBuf) (status : ReadStatus)
    (calls : List StreamCall) : Prop where
  calls : ∃ tried r, calls = (tried ++ [r]).map (StreamCall.read room) ∧
    (∀ i ∈ tried, isInterrupted i = true) ∧ ReadEnd status r
  inpEof : b'.inpEof = (b.inpEof || decide (status = .endOfStream))

namespace TcpStreamBuf
variable {usizeMax spare max : Nat} {b b' : TcpStreamBuf} {status : ReadStatus}
  {calls : List StreamCall}

theorem readLoop_reads {stop : Nat} {outcomes : List (Result (List UInt8))}
    (h : readLoop usizeMax b stop outcomes = .ret (b', status, calls)) :
    Reads (stop - b.wr) b b' status calls := by
  have hlast {b' status r} (hend : ReadEnd status r)
      (heof : b'.inpEof = (b.inpEof || decide (status = .endOfStream))) :
      Reads (stop - b.wr) b b' status [.read (stop - b.wr) r] :=
    ⟨⟨[], r, rfl, by simp, hend⟩, heof⟩
  induction outcomes generalizing calls with
  | nil =>
    unfold readLoop at h
    split at h <;> cases h
  | cons r outcomes ih =>
    unfold readLoop at h
    split at h
    · cases r with
      | ok bytes =>
        cases bytes with
        | nil =>
          cases h
          exact hlast .endOfStream (by simp)
        | cons byte bytes =>
          obtain ⟨wr, -, h⟩ := Exec.bind_eq_ret.mp h
          cases h
          exact hlast (.newData byte bytes) (by simp)
      | error e =>
        dsimp only at h
        split at h
        · cases h
          exact hlast (.wouldBlock e ‹_›) (by simp)
        · split at h
          · rename_i hi
            obtain ⟨⟨b₁, status', calls'⟩, hloop, h⟩ := Exec.bind_eq_ret.mp h
            cases h
            obtain ⟨⟨tried, r, rfl, htried, hend⟩, heof⟩ := ih hloop
            refine ⟨⟨.error e :: tried, r, rfl, fun i hmem => ?_, hend⟩, heof⟩
            rcases List.mem_cons.mp hmem with rfl | hmem
            · simp [isInterrupted, hi]
            · exact htried i hmem
          · cases h
            exact hlast (.error e ‹_›) (by simp)
    · cases h

theorem read_reads {outcomes : List (Result (List UInt8))} (hstream : b.stream.isSome)
    (h : read usizeMax spare b max outcomes = .ret (b', status, calls)) :
    ∃ room, Reads room b b' status calls := by
  obtain ⟨b₁, hb₁, h⟩ := Exec.bind_eq_ret.mp h
  have hframe := inpMakespace_frame hb₁
  have hkeep : b₁.inpEof = b.inpEof ∧ b₁.stream = b.stream := by
    rw [hframe]
    exact ⟨rfl, rfl⟩
  split at h
  · rename_i hnone
    rw [← hkeep.2, hnone] at hstream
    cases hstream
  · obtain ⟨stop, -, h⟩ := Exec.bind_eq_ret.mp h
    have hreads := readLoop_reads h
    exact ⟨_, hreads.calls, hkeep.1 ▸ hreads.inpEof⟩

theorem rewind_rewind (b : TcpStreamBuf) : b.rewind.rewind = b.rewind := by
  by_cases h : b.rd = b.wr
  · simp [rewind, h]
  · simp [rewind, h]

theorem read_rewind (outcomes : List (Result (List UInt8))) :
    read usizeMax spare b.rewind max outcomes = read usizeMax spare b max outcomes := by
  unfold read inpMakespace
  dsimp only
  rw [rewind_rewind]

/-- A read of a buffer with nothing unread makes what the stream delivered unread. -/
theorem Unread.read_empty (h : b.Unread []) {outcomes : List (Result (List UInt8))}
    (hmax : max * 2 ≤ usizeMax) (hsound : ∀ r ∈ outcomes, (received r).length ≤ max)
    (hread : TcpStreamBuf.read usizeMax spare b max outcomes = .ret (b', status, calls)) :
    b'.Unread (calls.flatMap StreamCall.delivered) := by
  have hlen := Window.slice_length (i := b.rd) h.wr_le
  rw [h.bytes] at hlen
  have hrd : b.rd = b.wr := Nat.le_antisymm h.rd_le (Nat.sub_eq_zero_iff_le.mp hlen.symm)
  have hwr : b.rewind.wr = 0 := by
    unfold TcpStreamBuf.rewind
    rw [if_pos hrd]
  rw [← read_rewind] at hread
  rcases h.rewind.1.read spare (by omega) hmax hsound with
    hw | ⟨b'', status', calls', new, hret, hu, -, hcalls⟩
  · rw [hw] at hread
    cases hread
  · rw [hret] at hread
    cases hread
    rw [hcalls]
    exact hu

end TcpStreamBuf

/-! ## The trace of an actor -/

/-- The bytes of the calls put off. -/
def Delayed.data : Delayed → List UInt8
  | .sendData data => data
  | .sendEof => []

def dataIn (delayed : List Delayed) : List UInt8 := delayed.flatMap Delayed.data

namespace TcpEvent

/-- What is put off for an event: a chunk taken, or the end of the stream. -/
def putsOff : TcpEvent → List Delayed
  | .consumed data => [.sendData data]
  | .call (.read _ (.ok [])) => [.sendEof]
  | _ => []

def putOff (tr : List TcpEvent) : List Delayed := tr.flatMap putsOff

/-- The bytes delivered before the stream reported its end. -/
def deliveredFirst : List TcpEvent → List UInt8
  | [] => []
  | .call (.read _ (.ok [])) :: _ => []
  | e :: tr => deliveredBy e ++ deliveredFirst tr

variable {tr es : List TcpEvent}

theorem putOff_append : putOff (tr ++ es) = putOff tr ++ putOff es := List.flatMap_append

theorem deliveredIn_append : deliveredIn (tr ++ es) = deliveredIn tr ++ deliveredIn es :=
  List.flatMap_append

theorem appendedIn_append : appendedIn (tr ++ es) = appendedIn tr ++ appendedIn es :=
  List.flatMap_append

theorem putsOff_sendEof {e : TcpEvent} :
    .sendEof ∈ putsOff e ↔ ∃ room, e = .call (.read room (.ok [])) := by
  constructor
  · intro h
    unfold putsOff at h
    split at h
    · cases List.mem_singleton.mp h
    · exact ⟨_, rfl⟩
    · cases h
  · rintro ⟨room, rfl⟩
    exact List.mem_singleton_self _

theorem deliveredFirst_append : deliveredFirst (tr ++ es) =
    if .sendEof ∈ putOff tr then deliveredFirst tr else deliveredIn tr ++ deliveredFirst es := by
  induction tr with
  | nil => simp [putOff, deliveredIn]
  | cons e tr ih =>
    by_cases he : Delayed.sendEof ∈ putsOff e
    · obtain ⟨room, rfl⟩ := putsOff_sendEof.mp he
      simp [deliveredFirst, putOff, putsOff]
    · have hcons : ∀ tr', deliveredFirst (e :: tr') = deliveredBy e ++ deliveredFirst tr' := by
        intro tr'
        rw [deliveredFirst]
        intro room heq
        exact he (putsOff_sendEof.mpr ⟨room, heq⟩)
      have hmem : Delayed.sendEof ∈ putOff (e :: tr) ↔ Delayed.sendEof ∈ putOff tr := by
        simp [putOff, he]
      rw [List.cons_append, hcons, hcons, ih]
      simp only [hmem]
      split
      · rfl
      · simp [deliveredIn]

/-- The bytes of the calls put off before the one for the end of the stream. -/
def dataFirst (delayed : List Delayed) : List UInt8 :=
  dataIn (delayed.takeWhile (· ≠ .sendEof))

theorem dataFirst_append (l m : List Delayed) :
    dataFirst (l ++ m) = if .sendEof ∈ l then dataFirst l else dataIn l ++ dataFirst m := by
  induction l with
  | nil => simp [dataIn]
  | cons d l ih =>
    cases d with
    | sendEof => simp [dataFirst]
    | sendData data =>
      have hcons : ∀ l, dataFirst (.sendData data :: l) = data ++ dataFirst l := by
        intro l
        simp [dataFirst, dataIn, Delayed.data]
      rw [List.cons_append, hcons, hcons, ih]
      have hmem : Delayed.sendEof ∈ .sendData data :: l ↔ Delayed.sendEof ∈ l := by simp
      simp only [hmem]
      split
      · rfl
      · simp [dataIn, Delayed.data]

/-- What the stream delivered is put off, all of it and up to its end. -/
structure Booked (tr : List TcpEvent) : Prop where
  all : dataIn (putOff tr) = deliveredIn tr
  first : dataFirst (putOff tr) = deliveredFirst tr

theorem Booked.append (h : Booked tr) (h' : Booked es) : Booked (tr ++ es) where
  all := by
    rw [putOff_append, deliveredIn_append, ← h.all, ← h'.all]
    exact List.flatMap_append
  first := by
    rw [putOff_append, dataFirst_append, deliveredFirst_append, h.all, h.first, h'.first]

theorem Booked.nil : Booked [] := ⟨rfl, rfl⟩

end TcpEvent

namespace TcpStreamBuf
variable {b b' : TcpStreamBuf} {o : FlushOutcomes} {rv : Result Unit} {calls : List StreamCall}

theorem flush_isRead (hf : b.flush o = .ret (b', rv, calls)) :
    ∀ c ∈ calls, c.isRead = false := by
  refine Steps.invariant (J := fun calls _ => ∀ c ∈ calls, StreamCall.isRead c = false)
    (fun past c call c' hpast hc => ?_) (List.forall_mem_nil _) (flush_steps hf)
  intro d hd
  rcases List.mem_append.mp hd with hd | hd
  · exact hpast d hd
  · rw [List.mem_singleton.mp hd]
    cases hc <;> rfl

/-- Calls that do not read put nothing off. -/
theorem quiet_calls {calls : List StreamCall} (h : ∀ c ∈ calls, c.isRead = false) :
    putOff (calls.map .call) = [] ∧ Booked (calls.map .call) := by
  have hnone : putOff (calls.map .call) = [] ∧ deliveredIn (calls.map .call) = [] ∧
      deliveredFirst (calls.map .call) = [] := by
    induction calls with
    | nil => exact ⟨rfl, rfl, rfl⟩
    | cons c calls ih =>
      obtain ⟨hput, hdel, hfirst⟩ := ih fun c' hc' => h c' (List.mem_cons_of_mem _ hc')
      cases c with
      | read room r => exact absurd (h _ List.mem_cons_self) (by simp [StreamCall.isRead])
      | _ => exact ⟨hput, hdel, hfirst⟩
  obtain ⟨hput, hdel, hfirst⟩ := hnone
  refine ⟨hput, ?_, ?_⟩
  · rw [hput, hdel]
    rfl
  · rw [hput, hfirst]
    rfl

theorem appendedIn_calls (calls : List StreamCall) : appendedIn (calls.map .call) = [] := by
  simp [appendedIn, List.flatMap_map, appendedBy]

/-- A buffer whose output is complete stays so. -/
theorem flush_complete (hf : b.flush o = .ret (b', rv, calls)) (heof : b.outEof = true)
    (hout : b.out = []) : b'.outEof = true ∧ b'.out = [] := by
  refine Steps.keeps (I := fun b => b.outEof = true ∧ b.out = [])
    (fun s c t hs hc => ?_) ⟨heof, hout⟩ (flush_steps hf)
  cases hc with
  | write len hne hlen => exact absurd hs.2 hne
  | _ => exact hs

theorem flush_outEof (hf : b.flush o = .ret (b', rv, calls)) : b'.outEof = b.outEof := by
  refine Steps.keeps (I := fun c => c.outEof = b.outEof) (fun s c t hs hc => ?_) rfl
    (flush_steps hf)
  cases hc <;> exact hs

end TcpStreamBuf

/-! ## The invariant -/

/-- Calls put off, and how those made are taken from them: `R` relates what was made and
what is left to all that was put off. -/
structure Timely (R : List Delayed → List Delayed → Prop) (allowed : Nat → Prop) : Prop where
  refl : R [] []
  concat : ∀ {l m} d, R l m → R (l ++ [d]) (m ++ [d])
  fire : ∀ {fired timers m} {i d}, allowed i → timers[i]? = some d → R (fired ++ timers) m →
    R (fired ++ [d] ++ timers.eraseIdx i) m

theorem Timely.any : Timely List.Perm fun _ => True where
  refl := .refl _
  concat d h := h.append_right [d]
  fire {fired timers m i d} _ hd h := by
    obtain ⟨hi, rfl⟩ := List.getElem?_eq_some_iff.mp hd
    refine .trans ?_ h
    rw [List.append_assoc]
    exact ((List.getElem_cons_eraseIdx_perm hi)).append_left fired

theorem Timely.inOrder : Timely Eq (· = 0) where
  refl := rfl
  concat d h := by rw [h]
  fire {fired timers m i d} hi hd h := by
    subst hi
    cases timers with
    | nil => cases hd
    | cons t timers =>
      cases hd
      rw [← h, List.append_assoc]
      rfl

namespace Echoer

/-- What holds of an actor once the bytes `seen` have been looked at; `late` is put off
next. -/
structure Echoing (R : List Delayed → List Delayed → Prop) (late : List Delayed)
    (seen : List UInt8) (e : Echoer) : Prop where
  output : OutputInv e.tcp.trace e.tcp.buf
  unread : e.tcp.buf.Unread []
  stream : e.tcp.buf.stream.isSome
  appended : appendedIn e.tcp.trace = dataIn e.fired
  booked : Booked e.tcp.trace
  order : R (e.fired ++ e.timers ++ late) (putOff e.tcp.trace)
  eof : e.tcp.buf.outEof = true →
    .sendEof ∈ e.fired ∨ '!'.toUInt8 ∈ deliveredIn e.tcp.trace
  stopped : .stopped ∈ e.causes → e.tcp.buf.outEof = true ∧ e.tcp.buf.out = []
  aborted : .abortError ∈ e.causes ↔ '%'.toUInt8 ∈ seen

namespace Echoing
variable {R : List Delayed → List Delayed → Prop} {allowed : Nat → Prop} {late : List Delayed}
  {seen : List UInt8} {usizeMax : Nat} {e e' : Echoer}

/-- Events that put nothing off. -/
theorem quiet (h : Echoing R late seen e) {b : TcpStreamBuf} {es : List TcpEvent}
    {causes : List Cause} {timers fired : List Delayed}
    (houtput : OutputInv (e.tcp.trace ++ es) b) (hunread : b.Unread [])
    (hstream : b.stream = e.tcp.buf.stream) (hput : putOff es = []) (hbooked : Booked es)
    (happ : appendedIn (e.tcp.trace ++ es) = dataIn fired)
    (horder : R (fired ++ timers ++ late) (putOff e.tcp.trace))
    (heof : b.outEof = true → .sendEof ∈ fired ∨ '!'.toUInt8 ∈ deliveredIn e.tcp.trace)
    (hstopped : .stopped ∈ causes → b.outEof = true ∧ b.out = [])
    (haborted : .abortError ∈ causes ↔ '%'.toUInt8 ∈ seen) :
    Echoing R late seen ⟨⟨b, e.tcp.trace ++ es⟩, timers, fired, causes⟩ where
  output := houtput
  unread := hunread
  stream := by
    rw [hstream]
    exact h.stream
  appended := happ
  booked := h.booked.append hbooked
  order := by
    rw [putOff_append, hput, List.append_nil]
    exact horder
  eof := by
    rw [deliveredIn_append, ← hbooked.all, hput]
    simpa [dataIn] using heof
  stopped := hstopped
  aborted := haborted

theorem mem_flushCauses {buf : TcpStreamBuf} {rv : Result Unit} :
    (.stopped ∈ flushCauses buf rv → buf.outEof = true ∧ buf.out = []) ∧
      .abortError ∉ flushCauses buf rv := by
  have hfailed : .stopped ∉ writeCauses rv ∧ .abortError ∉ writeCauses rv := by
    cases rv <;> simp [writeCauses]
  unfold flushCauses
  split
  · rename_i hcond
    rw [Bool.and_eq_true, List.isEmpty_iff] at hcond
    exact ⟨fun _ => hcond, by simp [hfailed.2]⟩
  · rw [List.append_nil]
    exact ⟨fun hs => absurd hs hfailed.1, hfailed.2⟩

theorem flush (h : Echoing R late seen e) {o : FlushOutcomes} (hf : e.flush o = .ret e') :
    Echoing R late seen e' := by
  obtain ⟨buf, rv, calls, hflush, rfl⟩ := flush_ret hf
  obtain ⟨hput, hbooked⟩ := TcpStreamBuf.quiet_calls (TcpStreamBuf.flush_isRead hflush)
  have heof := TcpStreamBuf.flush_outEof hflush
  have hstream := (flush_eof [] hflush).1
  refine h.quiet (h.output.flush hflush) (h.unread.flush hflush).1 hstream hput hbooked ?_ h.order
    ?_ ?_ ?_
  · rw [appendedIn_append, TcpStreamBuf.appendedIn_calls, List.append_nil]
    exact h.appended
  · rw [heof]
    exact h.eof
  · intro hs
    rcases List.mem_append.mp hs with hs | hs
    · obtain ⟨heof, hout⟩ := h.stopped hs
      exact TcpStreamBuf.flush_complete hflush heof hout
    · exact mem_flushCauses.1 hs
  · rw [List.mem_append, h.aborted]
    exact or_iff_left (@mem_flushCauses _ rv).2

theorem setOutEof (h : Echoing R late seen e)
    (heof : .sendEof ∈ e.fired ∨ '!'.toUInt8 ∈ deliveredIn e.tcp.trace) {o : FlushOutcomes}
    (hf : e.setOutEof o = .ret e') : Echoing R late seen e' := by
  have happ : appendedIn (e.tcp.trace ++ [.outEof true]) = dataIn e.fired := by
    rw [appendedIn_concat]
    exact (List.append_nil _).trans h.appended
  have hset : Echoing R late seen { e with
      tcp := ⟨{ e.tcp.buf with outEof := true }, e.tcp.trace ++ [.outEof true]⟩ } :=
    h.quiet (h.output.idle rfl rfl rfl rfl rfl trivial) (h.unread.frame rfl) rfl rfl ⟨rfl, rfl⟩
      happ h.order (fun _ => heof) (fun hs => ⟨rfl, (h.stopped hs).2⟩) h.aborted
  exact hset.flush hf

theorem checkSpecialChars {data : List UInt8} (h : Echoing R late seen e)
    (hdata : ∀ byte ∈ data, byte ∈ deliveredIn e.tcp.trace) {o : FlushOutcomes}
    (hf : e.checkSpecialChars data o = .ret e') : Echoing R late (seen ++ data) e' := by
  obtain ⟨e₁, he₁, hf⟩ := Exec.bind_eq_ret.mp hf
  have h₁ : Echoing R late seen e₁ := by
    split at he₁
    · rename_i hbang
      exact h.setOutEof (.inr (hdata _ (List.contains_iff_mem.mp hbang))) he₁
    · cases he₁
      exact h
  split at hf
  · rename_i habort
    cases hf
    refine ⟨h₁.output, h₁.unread, h₁.stream, h₁.appended, h₁.booked, h₁.order, h₁.eof,
      fun hs => h₁.stopped (by simpa using hs), ?_⟩
    have hmem : '%'.toUInt8 ∈ data := List.contains_iff_mem.mp habort
    exact iff_of_true (by simp) (List.mem_append_right _ hmem)
  · rename_i habort
    cases hf
    refine ⟨h₁.output, h₁.unread, h₁.stream, h₁.appended, h₁.booked, h₁.order, h₁.eof,
      h₁.stopped, ?_⟩
    have hmem : '%'.toUInt8 ∉ data := fun hm => habort (List.contains_iff_mem.mpr hm)
    rw [h₁.aborted, List.mem_append]
    exact (or_iff_left hmem).symm

end Echoing

/-! ## The loop -/

/-- The reads of the turn deliver no more than there is room for. -/
def Turn.sound (turn : Turn) : Bool :=
  turn.read.all fun r => (TcpStreamBuf.received r).length ≤ READ_MAX

variable {usizeMax : Nat} {e e' : Echoer}

theorem flush_delivered {o : FlushOutcomes} (hf : e.flush o = .ret e') :
    deliveredIn e'.tcp.trace = deliveredIn e.tcp.trace := by
  obtain ⟨buf, rv, calls, hflush, rfl⟩ := flush_ret hf
  obtain ⟨hput, hbooked⟩ := TcpStreamBuf.quiet_calls (TcpStreamBuf.flush_isRead hflush)
  rw [deliveredIn_append, ← hbooked.all, hput]
  exact List.append_nil _

theorem checkSpecialChars_delivered {data : List UInt8} {o : FlushOutcomes}
    (hf : e.checkSpecialChars data o = .ret e') :
    deliveredIn e'.tcp.trace = deliveredIn e.tcp.trace := by
  obtain ⟨e₁, he₁, hf⟩ := Exec.bind_eq_ret.mp hf
  have h₁ : deliveredIn e₁.tcp.trace = deliveredIn e.tcp.trace := by
    split at he₁
    · rw [flush_delivered he₁, deliveredIn_concat]
      exact List.append_nil _
    · cases he₁
      rfl
  split at hf <;> cases hf <;> exact h₁

/-- What the calls of a read deliver and put off. -/
theorem reads_booked {room : Nat} {tried : List (Result (List UInt8))} {r : Result (List UInt8)}
    (htried : ∀ i ∈ tried, isInterrupted i = true) :
    ((tried ++ [r]).map (StreamCall.read room)).flatMap StreamCall.delivered =
      TcpStreamBuf.received r ∧
    putOff (((tried ++ [r]).map (StreamCall.read room)).map .call) =
      putsOff (.call (.read room r)) ∧
    deliveredFirst (((tried ++ [r]).map (StreamCall.read room)).map .call) =
      TcpStreamBuf.received r := by
  induction tried with
  | nil =>
    refine ⟨?_, by simp [putOff], ?_⟩
    · cases r <;> simp [StreamCall.delivered, TcpStreamBuf.received]
    · rcases r with err | (_ | ⟨byte, bytes⟩) <;>
        simp [deliveredFirst, deliveredBy, StreamCall.delivered, TcpStreamBuf.received]
  | cons i tried ih =>
    obtain ⟨hdel, hput, hfirst⟩ := ih fun j hj => htried j (List.mem_cons_of_mem _ hj)
    cases i with
    | ok bytes => cases htried _ List.mem_cons_self
    | error err => exact ⟨hdel, hput, hfirst⟩

/-- What a read that ended with `r` leaves of the actor's state. -/
structure Took (e : Echoer) (buf : TcpStreamBuf) (es : List TcpEvent)
    (r : Result (List UInt8)) : Prop where
  output : OutputInv (e.tcp.trace ++ es) buf
  unread : buf.Unread (TcpStreamBuf.received r)
  stream : buf.stream = e.tcp.buf.stream
  outEof : buf.outEof = e.tcp.buf.outEof
  out : buf.out = e.tcp.buf.out
  appended : appendedIn es = []
  put : putOff es = putsOff (.call (.read 0 r))
  delivered : deliveredIn es = TcpStreamBuf.received r
  first : deliveredFirst es = TcpStreamBuf.received r

variable {R : List Delayed → List Delayed → Prop} {allowed : Nat → Prop} {buf : TcpStreamBuf}
  {es : List TcpEvent} {data : List UInt8} {r : Result (List UInt8)}

theorem Echoing.took {late : List Delayed} {seen : List UInt8} (h : Echoing R late seen e)
    (husize : READ_MAX * 2 ≤ usizeMax) {turn : Turn} (hsound : turn.sound = true)
    {status : ReadStatus} {calls : List StreamCall}
    (hread : e.tcp.buf.read usizeMax turn.spare READ_MAX turn.read = .ret (buf, status, calls)) :
    ∃ r, ReadEnd status r ∧ Took e buf (calls.map .call) r := by
  have hsound : ∀ r ∈ turn.read, (TcpStreamBuf.received r).length ≤ READ_MAX := by
    simpa [Turn.sound] using hsound
  obtain ⟨room, hreads⟩ := TcpStreamBuf.read_reads h.stream hread
  obtain ⟨tried, r, rfl, htried, hend⟩ := hreads.calls
  obtain ⟨hdel, hput, hfirst⟩ := @reads_booked room tried r htried
  have hunread := h.unread.read_empty husize hsound hread
  obtain ⟨hframe, hcalls⟩ := TcpStreamBuf.read_frame hread
  have hdelivered := @deliveredIn_calls [] ((tried ++ [r]).map (.read room))
  rw [hdel] at hunread hdelivered
  refine ⟨r, hend, (h.output.reads hcalls).input hframe, hunread, ?_, ?_, ?_,
    TcpStreamBuf.appendedIn_calls _, ?_, hdelivered, hfirst⟩
  · rw [hframe]
  · rw [hframe]
  · rw [hframe]
  · rw [hput]
    rcases r with err | (_ | ⟨byte, bytes⟩) <;> rfl

/-- A chunk has been taken, and is to be looked at and put off. -/
theorem Took.newData (ht : Took e buf es (.ok data)) (hne : data ≠ []) (hR : Timely R allowed)
    (h : Echoing R [] (deliveredIn e.tcp.trace) e) :
    Echoing R [.sendData data] (deliveredIn e.tcp.trace) { e with
      tcp := ⟨{ buf with rd := buf.wr }, e.tcp.trace ++ es ++ [.consumed data]⟩ } := by
  have hnone : putOff es = [] := by
    rw [ht.put]
    cases data with
    | nil => exact absurd rfl hne
    | cons byte bytes => rfl
  have hputs : putOff (es ++ [.consumed data]) = [.sendData data] := by
    rw [putOff_append, hnone]
    rfl
  have hdelivered : deliveredIn (es ++ [.consumed data]) = data := by
    rw [deliveredIn_concat, ht.delivered]
    exact List.append_nil _
  have hbooked : Booked (es ++ [.consumed data]) := by
    refine ⟨?_, ?_⟩
    · rw [hputs, hdelivered]
      exact List.append_nil _
    · rw [hputs, deliveredFirst_append, hnone, ht.delivered]
      rfl
  refine ⟨ht.output.idle rfl rfl rfl rfl rfl trivial,
    ⟨Nat.le_refl _, ht.unread.wr_le, Window.slice_self _ _⟩, ?_, ?_, ?_, ?_, ?_, ?_, h.aborted⟩
  · exact ht.stream ▸ h.stream
  · rw [List.append_assoc, appendedIn_append, appendedIn_append, ht.appended]
    exact (List.append_nil _).trans h.appended
  · rw [List.append_assoc]
    exact h.booked.append hbooked
  · have horder := h.order
    rw [List.append_nil] at horder
    have hall : putOff (e.tcp.trace ++ es ++ [.consumed data]) =
        putOff e.tcp.trace ++ [.sendData data] := by
      rw [List.append_assoc, putOff_append, hputs]
    rw [hall]
    exact hR.concat _ horder
  · intro heof
    rw [List.append_assoc, deliveredIn_append]
    exact (h.eof (ht.outEof ▸ heof)).imp_right (List.mem_append_left _)
  · intro hs
    obtain ⟨heof, hout⟩ := h.stopped hs
    exact ⟨ht.outEof.trans heof, ht.out.trans hout⟩

/-- The read has ended without a chunk: at the end of the stream one more call is put off. -/
theorem Took.noData (ht : Took e buf es r) (hnone : TcpStreamBuf.received r = [])
    (hR : Timely R allowed) (h : Echoing R [] (deliveredIn e.tcp.trace) e) {causes : List Cause}
    (hcauses : ∀ c, c = .stopped ∨ c = .abortError → (c ∈ causes ↔ c ∈ e.causes)) :
    Echoing R [] (deliveredIn (e.tcp.trace ++ es)) { e with
      tcp := ⟨buf, e.tcp.trace ++ es⟩
      timers := e.timers ++ putsOff (.call (.read 0 r))
      causes := causes } := by
  have hdelivered : deliveredIn (e.tcp.trace ++ es) = deliveredIn e.tcp.trace := by
    rw [deliveredIn_append, ht.delivered, hnone, List.append_nil]
  have hput : putOff es = [] ∨ putOff es = [.sendEof] := by
    rw [ht.put]
    rcases r with err | (_ | ⟨byte, bytes⟩)
    · exact .inl rfl
    · exact .inr rfl
    · exact .inl rfl
  have hdata : dataIn (putOff es) = [] ∧ dataFirst (putOff es) = [] := by
    rcases hput with hput | hput <;> rw [hput] <;> exact ⟨rfl, rfl⟩
  refine ⟨ht.output, hnone ▸ ht.unread, ?_, ?_, ?_, ?_, ?_, ?_, ?_⟩
  · exact ht.stream ▸ h.stream
  · rw [appendedIn_append, ht.appended, List.append_nil]
    exact h.appended
  · refine h.booked.append ⟨?_, ?_⟩
    · rw [hdata.1, ht.delivered, hnone]
    · rw [hdata.2, ht.first, hnone]
  · have horder := h.order
    rw [List.append_nil] at horder ⊢
    rw [← ht.put, ← List.append_assoc, putOff_append]
    rcases hput with hput | hput
    · simpa [hput] using horder
    · rw [hput]
      exact hR.concat _ horder
  · dsimp only
    rw [ht.outEof, hdelivered]
    exact h.eof
  · dsimp only
    rw [ht.outEof, ht.out, hcauses _ (.inl rfl)]
    exact h.stopped
  · rw [hdelivered]
    exact (hcauses _ (.inr rfl)).trans h.aborted

theorem Echoing.readLoop (hR : Timely R allowed) (husize : READ_MAX * 2 ≤ usizeMax)
    {turns : List Turn} (hsound : ∀ turn ∈ turns, turn.sound = true)
    (h : Echoing R [] (deliveredIn e.tcp.trace) e) (hloop : e.readLoop usizeMax turns = .ret e') :
    Echoing R [] (deliveredIn e'.tcp.trace) e' := by
  induction turns generalizing e with
  | nil => cases hloop
  | cons turn turns ih =>
    obtain ⟨⟨buf, status, calls⟩, hread, hloop⟩ := Exec.bind_eq_ret.mp hloop
    obtain ⟨r, hend, ht⟩ := h.took husize (hsound turn List.mem_cons_self) hread
    cases hend with
    | newData byte bytes =>
      obtain ⟨⟨data, e₁⟩, htake, hloop⟩ := Exec.bind_eq_ret.mp hloop
      obtain ⟨hdata, rfl⟩ := takeInput_ret htake
      have hunread : buf.unread = byte :: bytes := ht.unread.bytes
      obtain rfl : data = byte :: bytes := hdata.trans hunread
      obtain ⟨e₂, hcheck, hloop⟩ := Exec.bind_eq_ret.mp hloop
      dsimp only at hcheck hloop
      rw [hunread] at hcheck
      have h₁ := ht.newData (List.cons_ne_nil _ _) hR h
      have hall : deliveredIn (e.tcp.trace ++ calls.map .call ++ [.consumed (byte :: bytes)]) =
          deliveredIn e.tcp.trace ++ byte :: bytes := by
        rw [deliveredIn_concat, deliveredIn_append, ht.delivered]
        exact List.append_nil _
      have h₂ := h₁.checkSpecialChars (fun b hb => hall ▸ List.mem_append_right _ hb) hcheck
      have hdel₂ := (checkSpecialChars_delivered hcheck).trans hall
      refine ih (fun t ht => hsound t (List.mem_cons_of_mem _ ht)) ?_ hloop
      refine ⟨h₂.output, h₂.unread, h₂.stream, h₂.appended, h₂.booked, ?_, h₂.eof, h₂.stopped, ?_⟩
      · rw [List.append_nil, ← List.append_assoc]
        exact h₂.order
      · rw [hdel₂]
        exact h₂.aborted
    | endOfStream =>
      cases hloop
      exact ht.noData rfl hR h fun _ _ => Iff.rfl
    | wouldBlock err hkind =>
      cases hloop
      simpa [putsOff] using ht.noData rfl hR h fun _ _ => Iff.rfl
    | error err hkind =>
      cases hloop
      have hcauses : ∀ c, c = .stopped ∨ c = .abortError →
          (c ∈ e.causes ++ [.readFailure err] ↔ c ∈ e.causes) := by
        rintro c (rfl | rfl) <;> simp
      simpa [putsOff] using ht.noData rfl hR h hcauses

theorem Echoing.ready (hR : Timely R allowed) (husize : READ_MAX * 2 ≤ usizeMax) {ready : Ready}
    {turns : List Turn} (hsound : ∀ turn ∈ turns, turn.sound = true) {o : FlushOutcomes}
    (h : Echoing R [] (deliveredIn e.tcp.trace) e) (hf : e.ready usizeMax ready turns o = .ret e') :
    Echoing R [] (deliveredIn e'.tcp.trace) e' := by
  obtain ⟨e₁, he₁, hf⟩ := Exec.bind_eq_ret.mp hf
  have h₁ : Echoing R [] (deliveredIn e₁.tcp.trace) e₁ := by
    split at he₁
    · exact h.readLoop hR husize hsound he₁
    · cases he₁
      exact h
  split at hf
  · rw [flush_delivered hf]
    exact h₁.flush hf
  · cases hf
    exact h₁

/-! ## Whole runs -/

/-- The call is made: it is no longer among those put off. -/
theorem Echoing.fired (hR : Timely R allowed) (h : Echoing R [] (deliveredIn e.tcp.trace) e)
    {i : Nat} (hi : allowed i) {d : Delayed} (hd : e.timers[i]? = some d) :
    R (e.fired ++ [d] ++ e.timers.eraseIdx i ++ []) (putOff e.tcp.trace) := by
  have horder := h.order
  rw [List.append_nil] at horder ⊢
  exact hR.fire hi hd horder

theorem Echoing.fire (hR : Timely R allowed) (h : Echoing R [] (deliveredIn e.tcp.trace) e)
    (hcauses : e.causes = []) {i : Nat} (hi : allowed i) {o : FlushOutcomes}
    (hf : e.fire i o = .ret e') : Echoing R [] (deliveredIn e'.tcp.trace) e' := by
  unfold Echoer.fire at hf
  split at hf
  · cases hf
    exact h
  · rename_i d hd
    have horder := h.fired hR hi hd
    have hstopped : .stopped ∉ e.causes := by simp [hcauses]
    cases d with
    | sendData data =>
      have happ : appendedIn (e.tcp.trace ++ [.appended data]) =
          dataIn (e.fired ++ [.sendData data]) := by
        rw [appendedIn_concat, h.appended]
        simp [dataIn, Delayed.data, appendedBy]
      have hsent : Echoing R [] (deliveredIn e.tcp.trace) { e with
          tcp := ⟨{ e.tcp.buf with out := e.tcp.buf.out ++ data }, e.tcp.trace ++ [.appended data]⟩
          timers := e.timers.eraseIdx i
          fired := e.fired ++ [.sendData data] } :=
        h.quiet (h.output.append data) (h.unread.frame rfl) rfl rfl ⟨rfl, rfl⟩ happ horder
          (fun heof => (h.eof heof).imp_left (List.mem_append_left _))
          (fun hs => absurd hs hstopped) h.aborted
      have hdel : deliveredIn e'.tcp.trace = deliveredIn e.tcp.trace := by
        rw [flush_delivered hf, deliveredIn_concat]
        exact List.append_nil _
      rw [hdel]
      exact hsent.flush hf
    | sendEof =>
      have happ : appendedIn (e.tcp.trace ++ []) = dataIn (e.fired ++ [.sendEof]) := by
        rw [List.append_nil, h.appended]
        simp [dataIn, Delayed.data]
      have hsent : Echoing R [] (deliveredIn e.tcp.trace) { e with
          timers := e.timers.eraseIdx i
          fired := e.fired ++ [.sendEof] } := by
        have houtput : OutputInv (e.tcp.trace ++ []) e.tcp.buf := by simpa using h.output
        have hquiet := h.quiet houtput h.unread rfl rfl .nil happ horder
          (fun _ => .inl (List.mem_append_right _ (List.mem_singleton_self _)))
          (fun hs => absurd hs hstopped) h.aborted
        rwa [List.append_nil] at hquiet
      have hdel : deliveredIn e'.tcp.trace = deliveredIn e.tcp.trace := by
        rw [flush_delivered hf, deliveredIn_concat]
        exact List.append_nil _
      rw [hdel]
      exact hsent.setOutEof (.inl (List.mem_append_right _ (List.mem_singleton_self _))) hf

/-- The stream delivers no more than there is room for. -/
def Invocation.sound : Invocation → Bool
  | .ready _ turns _ => turns.all Turn.sound
  | .timer _ _ => true

/-- The calls put off are made in an allowed order. -/
def Invocation.Allowed (allowed : Nat → Prop) : Invocation → Prop
  | .ready _ _ _ => True
  | .timer i _ => allowed i

theorem Echoing.invoke (hR : Timely R allowed) (husize : READ_MAX * 2 ≤ usizeMax)
    {inv : Invocation} (hsound : inv.sound = true) (hallowed : inv.Allowed allowed)
    (h : Echoing R [] (deliveredIn e.tcp.trace) e) (hf : e.invoke usizeMax inv = .ret e') :
    Echoing R [] (deliveredIn e'.tcp.trace) e' := by
  unfold Echoer.invoke at hf
  split at hf
  · rename_i hcauses
    cases inv with
    | ready ready turns flush => exact h.ready hR husize (List.all_eq_true.mp hsound) hf
    | timer i flush => exact h.fire hR (List.isEmpty_iff.mp hcauses) hallowed hf
  · cases hf
    exact h

theorem Echoing.setup (hR : Timely R allowed) (id : Nat) :
    Echoing R [] (deliveredIn (setup id).tcp.trace) (setup id) where
  output := OutputInv.start.idle rfl rfl rfl rfl rfl trivial
  unread := ⟨Nat.le_refl _, Nat.le_refl _, rfl⟩
  stream := rfl
  appended := rfl
  booked := ⟨rfl, rfl⟩
  order := hR.refl
  eof h := by cases h
  stopped h := by cases h
  aborted := by simp [Echoer.setup, deliveredIn, deliveredBy]

theorem Echoing.runs (hR : Timely R allowed) (husize : READ_MAX * 2 ≤ usizeMax) {id : Nat}
    {calls : List Invocation} (hsound : ∀ c ∈ calls, c.sound = true)
    (hallowed : ∀ c ∈ calls, c.Allowed allowed)
    (hrun : (Echoer.setup id).runs usizeMax calls = .ret e) :
    Echoing R [] (deliveredIn e.tcp.trace) e := by
  exact run_invariant_of (Q := fun c => c.sound = true ∧ c.Allowed allowed)
    (I := fun e => Echoing R [] (deliveredIn e.tcp.trace) e)
    (fun _ _ _ h hc hf => h.invoke hR husize hc.1 hc.2 hf)
    (fun c hc => ⟨hsound c hc, hallowed c hc⟩) (.setup hR id) hrun

/-- In order, what is not yet sent on is left to send or put off. -/
theorem Echoing.echoed {seen : List UInt8} (h : Echoing Eq [] seen e) :
    acceptedIn e.tcp.trace ++ e.tcp.buf.out ++ dataIn e.timers = deliveredIn e.tcp.trace := by
  have hput : e.fired ++ e.timers = putOff e.tcp.trace := by
    have hput := h.order
    rwa [List.append_nil] at hput
  rw [h.output.bytes, h.appended, ← h.booked.all, ← hput]
  exact List.flatMap_append.symm

/-- **Every chunk once.** Whatever the order in which the calls put off are made, after any
run of an `Echoer` in which no read delivers more than there is room for, those made and those
still put off are, together, one for each chunk the stream delivered and one for each report
of its end. What the stream accepted and what is left in `out` are the chunks of those made,
in that order, and `fail!` has been called with `AbortError` exactly if a `%` was received.
Which of the calls of `stop!` and `fail!` ends the actor is the runtime's. -/
theorem echo_chunks (usizeMax id : Nat) (husize : READ_MAX * 2 ≤ usizeMax)
    (calls : List Invocation) (hsound : ∀ c ∈ calls, c.sound = true) (e : Echoer)
    (hrun : (setup id).runs usizeMax calls = .ret e) :
    (e.fired ++ e.timers).Perm (putOff e.tcp.trace) ∧
    dataIn (putOff e.tcp.trace) = deliveredIn e.tcp.trace ∧ e.tcp.buf.unread = [] ∧
    acceptedIn e.tcp.trace ++ e.tcp.buf.out = dataIn e.fired ∧
    (.abortError ∈ e.causes ↔ '%'.toUInt8 ∈ deliveredIn e.tcp.trace) := by
  have h := Echoing.runs Timely.any husize hsound (fun c _ => by cases c <;> trivial) hrun
  have horder := h.order
  rw [List.append_nil] at horder
  exact ⟨horder, h.booked.all, h.unread.bytes, h.output.bytes.trans h.appended, h.aborted⟩

/-- Two bytes and then the end of the stream, each sent on before the next is received. -/
def sample : List Invocation :=
  let readable := Ready.new ⟨0, true, false, false, false, false, false, false, false⟩
  [.ready readable [{ read := [.ok [104, 105]] }, { read := [.error ⟨.wouldBlock, none⟩] }] {},
    .timer 0 { setNodelay := [.ok ()], write := [.ok 2], flush := [.ok ()] },
    .ready readable [{ read := [.ok []] }] {},
    .timer 0 { flush := [.ok ()], shutdown := [.ok ()] }]

theorem sample_returns : ∃ e, (setup 3).runs 16384 sample = .ret e ∧ .stopped ∈ e.causes ∧
    deliveredIn e.tcp.trace = [104, 105] ∧ deliveredFirst e.tcp.trace = [104, 105] := by
  obtain ⟨e, he, hp⟩ := Exec.exists_ret_of (x := (setup 3).runs 16384 sample)
    (p := fun e => decide (.stopped ∈ e.causes ∧ deliveredIn e.tcp.trace = [104, 105] ∧
      deliveredFirst e.tcp.trace = [104, 105])) (by decide +kernel)
  exact ⟨e, he, of_decide_eq_true hp⟩

theorem echo_chunks_sample : ∃ e, (setup 3).runs 16384 sample = .ret e ∧
    acceptedIn e.tcp.trace ++ e.tcp.buf.out = dataIn e.fired ∧ .abortError ∉ e.causes := by
  obtain ⟨e, he, -, hdelivered, -⟩ := sample_returns
  obtain ⟨-, -, -, hbytes, haborted⟩ := echo_chunks 16384 3 (by decide) sample (by decide) e he
  rw [hdelivered] at haborted
  exact ⟨e, he, hbytes, fun h => absurd (haborted.mp h) (by decide)⟩

/-- **The echo.** If the calls put off are made in the order they were put off, and no read
delivers more than there is room for, what the stream accepted, what is left in `out` and
what is put off are, byte by byte, what it delivered. If `stop!` has been called without a `!`
received, everything delivered before the end of the stream has been sent. -/
theorem echo_in_order (usizeMax id : Nat) (husize : READ_MAX * 2 ≤ usizeMax)
    (calls : List Invocation) (hsound : ∀ c ∈ calls, c.sound = true)
    (horder : ∀ i flush, .timer i flush ∈ calls → i = 0) (e : Echoer)
    (hrun : (setup id).runs usizeMax calls = .ret e) :
    acceptedIn e.tcp.trace ++ e.tcp.buf.out ++ dataIn e.timers = deliveredIn e.tcp.trace ∧
    (.stopped ∈ e.causes → '!'.toUInt8 ∉ deliveredIn e.tcp.trace →
      deliveredFirst e.tcp.trace <+: acceptedIn e.tcp.trace) := by
  have hallowed : ∀ c ∈ calls, c.Allowed (· = 0) := by
    intro c hc
    cases c with
    | ready => trivial
    | timer i flush => exact horder i flush hc
  have h := Echoing.runs Timely.inOrder husize hsound hallowed hrun
  refine ⟨h.echoed, fun hstopped hbang => ?_⟩
  obtain ⟨heof, hout⟩ := h.stopped hstopped
  have hfired := (h.eof heof).resolve_right hbang
  have hput := h.order
  have hbytes := h.output.bytes.trans h.appended
  rw [List.append_nil] at hput
  rw [hout, List.append_nil] at hbytes
  rw [← h.booked.first, hbytes, ← hput, dataFirst_append, if_pos hfired]
  obtain ⟨rest, hrest⟩ := List.takeWhile_prefix (l := e.fired) (· ≠ Delayed.sendEof)
  exact ⟨dataIn rest, List.flatMap_append.symm.trans (congrArg dataIn hrest)⟩

theorem echo_in_order_sample : ∃ e, (setup 3).runs 16384 sample = .ret e ∧
    acceptedIn e.tcp.trace ++ e.tcp.buf.out ++ dataIn e.timers = [104, 105] ∧
    [104, 105] <+: acceptedIn e.tcp.trace := by
  obtain ⟨e, he, hstopped, hdelivered, hfirst⟩ := sample_returns
  have horder : ∀ i flush, .timer i flush ∈ sample → i = 0 := by
    intro i flush h
    simp [sample] at h
    omega
  obtain ⟨hbytes, hsent⟩ := echo_in_order 16384 3 (by decide) sample (by decide) horder e he
  rw [hdelivered, hfirst] at hsent
  exact ⟨e, he, hdelivered ▸ hbytes, hsent hstopped (by decide)⟩

end Echoer
end StakkerMio
