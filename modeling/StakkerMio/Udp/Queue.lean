import StakkerMio.Io

/-! # The UDP output queues

`UdpQueue` and `UdpServerQueue` queue different packets and hand them to
different socket calls; the rest is `PacketQueue`, over any type of packets with
the length of the data that is sent for each. -/
namespace StakkerMio
open Lib

/-- Sockets are told apart by numbers. -/
structure PacketQueue (P : Type) where
  out : List P := []
  socket : Option Nat := none
  deriving DecidableEq

/-- What a `flush` leaves, what it returned, the sends it made with what each one
returned, and the outcomes it had no use for. -/
structure Flushed (P : Type) where
  out : List P
  rv : Result Unit
  sends : List (P × Result Nat)
  rest : List (Result Nat)

namespace PacketQueue
variable {P : Type}

def new : PacketQueue P := {}

def init (q : PacketQueue P) (socket : Nat) : PacketQueue P := { q with socket := some socket }

def deinit (q : PacketQueue P) : PacketQueue P := { q with socket := none }

def push (q : PacketQueue P) (packet : P) : PacketQueue P := { q with out := q.out ++ [packet] }

/-- The value the `match` in `flush` returns for an outcome that is not
interrupted; `none` is `break`. -/
def sendArm (size : P → Nat) (pk : P) : Result Nat → Option (Result Unit)
  | .error e => if e.kind = .wouldBlock then some (.ok ()) else some (.error e)
  | .ok len => if len ≠ size pk then some (.error { kind := .writeZero }) else none

/-- The inner `loop` of `flush`, for the packet popped. -/
def sendLoop (size : P → Nat) (pk : P) :
    List (Result Nat) → Exec (Option (Result Unit) × List (P × Result Nat) × List (Result Nat))
  | [] => .wait
  | r :: outcomes =>
    if isInterrupted r then do
      let (rv, sends, rest) ← sendLoop size pk outcomes
      .ret (rv, (pk, r) :: sends, rest)
    else .ret (sendArm size pk r, [(pk, r)], outcomes)

/-- `while let Some(pk) = self.out.pop_front()`. -/
def flushLoop (size : P → Nat) : List P → List (Result Nat) → Exec (Flushed P)
  | [], outcomes => .ret ⟨[], .ok (), [], outcomes⟩
  | pk :: out, outcomes => do
    let (rv, sends, rest) ← sendLoop size pk outcomes
    match rv with
    | some rv => .ret ⟨out, rv, sends, rest⟩
    | none =>
      let f ← flushLoop size out rest
      .ret { f with sends := sends ++ f.sends }

/-- The outcomes are those of the sends, in order. -/
def flush (size : P → Nat) (q : PacketQueue P) (outcomes : List (Result Nat)) :
    Exec (Flushed P) :=
  match q.socket with
  | none => .ret ⟨q.out, .ok (), [], outcomes⟩
  | some _ => flushLoop size q.out outcomes

end PacketQueue

abbrev UdpQueue := PacketQueue (List UInt8)

namespace UdpQueue

/-- Each packet goes to `socket.send`. -/
def flush (q : UdpQueue) (outcomes : List (Result Nat)) : Exec (Flushed (List UInt8)) :=
  PacketQueue.flush List.length q outcomes

end UdpQueue

/-- `Addr` stands for `SocketAddr`. -/
abbrev UdpServerQueue (Addr : Type) := PacketQueue (Addr × List UInt8)

namespace UdpServerQueue
variable {Addr : Type}

/-- Each packet goes to `socket.send_to` with its address. -/
def flush (q : UdpServerQueue Addr) (outcomes : List (Result Nat)) :
    Exec (Flushed (Addr × List UInt8)) :=
  PacketQueue.flush (fun pk => pk.2.length) q outcomes

end UdpServerQueue

/-! ## What a flush does -/

namespace PacketQueue
variable {P : Type} {size : P → Nat}

/-- The packets that were accepted in full. -/
def accepted (size : P → Nat) (sends : List (P × Result Nat)) : List P :=
  sends.filterMap fun s => match s.2 with
    | .ok len => if len = size s.1 then some s.1 else none
    | .error _ => none

/-- The packet for which the flush returned an error. -/
def failedOf (f : Flushed P) : List P :=
  match f.rv with
  | .error _ => (f.sends.getLast?.map Prod.fst).toList
  | .ok _ => []

theorem accepted_append (l l' : List (P × Result Nat)) :
    accepted size (l ++ l') = accepted size l ++ accepted size l' := List.filterMap_append

/-- Some interrupted attempts, then one with the outcome the loop acts on. -/
theorem sendLoop_ret {pk : P} {outcomes rest : List (Result Nat)} {rv : Option (Result Unit)}
    {sends : List (P × Result Nat)} (h : sendLoop size pk outcomes = .ret (rv, sends, rest)) :
    ∃ interrupts r, outcomes = interrupts ++ r :: rest ∧
      (∀ i ∈ interrupts, isInterrupted i = true) ∧ isInterrupted r = false ∧
      sends = (interrupts ++ [r]).map (fun r => (pk, r)) ∧ rv = sendArm size pk r := by
  induction outcomes generalizing rv sends with
  | nil => cases h
  | cons r outcomes ih =>
    unfold sendLoop at h
    split at h
    · rename_i hr
      obtain ⟨⟨rv', sends', rest'⟩, hloop, h⟩ := Exec.bind_eq_ret.mp h
      cases h
      obtain ⟨interrupts, r', rfl, hi, hr', rfl, rfl⟩ := ih hloop
      exact ⟨r :: interrupts, r', rfl, by simpa [hr] using hi, hr', rfl, rfl⟩
    · rename_i hr
      cases h
      exact ⟨[], r, rfl, by simp, by simpa using hr, rfl, rfl⟩

theorem isWouldBlock_of_isInterrupted {α : Type} {r : Result α} (h : isInterrupted r = true) :
    isWouldBlock r = false := by
  cases r with
  | ok a => rfl
  | error e =>
    rw [isInterrupted, beq_iff_eq] at h
    simp [isWouldBlock, h]

theorem accepted_interrupts {pk : P} {interrupts : List (Result Nat)}
    (hi : ∀ i ∈ interrupts, isInterrupted i = true) :
    accepted size (interrupts.map fun r => (pk, r)) = [] := by
  rw [accepted, List.filterMap_map, List.filterMap_eq_nil_iff]
  intro r hr
  cases r with
  | ok len => cases hi _ hr
  | error e => rfl

theorem sendArm_none {pk : P} {r : Result Nat} (h : sendArm size pk r = none) :
    ∃ len, r = .ok len ∧ len = size pk := by
  cases r with
  | error e =>
    rw [sendArm] at h
    split at h <;> cases h
  | ok len =>
    by_cases hlen : len = size pk
    · exact ⟨len, rfl, hlen⟩
    · rw [sendArm, if_pos hlen] at h
      cases h

theorem sendArm_some {pk : P} {r : Result Nat} {rv : Result Unit}
    (h : sendArm size pk r = some rv) :
    isWouldBlock r = true ∧ rv = .ok () ∨ isWouldBlock r = false ∧ ∃ e, rv = .error e := by
  cases r with
  | error e =>
    by_cases he : e.kind = .wouldBlock
    · rw [sendArm, if_pos he] at h
      cases h
      exact .inl ⟨by simp [isWouldBlock, he], rfl⟩
    · rw [sendArm, if_neg he] at h
      cases h
      exact .inr ⟨by simp [isWouldBlock, he], e, rfl⟩
  | ok len =>
    rw [sendArm] at h
    split at h
    · cases h
      exact .inr ⟨rfl, _, rfl⟩
    · cases h

/-- What ends the loop was not accepted in full. -/
theorem accepted_sendArm {pk : P} {r : Result Nat} {rv : Result Unit}
    (h : sendArm size pk r = some rv) : accepted size [(pk, r)] = [] := by
  cases r with
  | error e => rfl
  | ok len =>
    by_cases hlen : len = size pk
    · rw [sendArm, if_neg (not_not.mpr hlen)] at h
      cases h
    · simp [accepted, hlen]

/-- How a flush of the packets `out` came to its end: with the queue empty, with an
error for one packet, or blocked on one packet. In the last two cases that packet
is gone from the queue. -/
inductive Ended (size : P → Nat) (out : List P) (f : Flushed P) : Prop
  | emptied : out = accepted size f.sends → f.out = [] → f.rv = .ok () →
      (∀ s ∈ f.sends, isWouldBlock s.2 = false) → Ended size out f
  | failed (pk : P) : out = accepted size f.sends ++ pk :: f.out → failedOf f = [pk] →
      (∀ s ∈ f.sends, isWouldBlock s.2 = false) → Ended size out f
  | blocked (pk : P) (r : Result Nat) : out = accepted size f.sends ++ pk :: f.out →
      f.rv = .ok () → f.sends.getLast? = some (pk, r) → isWouldBlock r = true → Ended size out f

theorem failedOf_later {f : Flushed P} {pk : P} (h : failedOf f = [pk])
    (sends : List (P × Result Nat)) : failedOf { f with sends := sends ++ f.sends } = [pk] := by
  cases hrv : f.rv with
  | ok u => simp [failedOf, hrv] at h
  | error e =>
    simp only [failedOf, hrv] at h ⊢
    cases hs : f.sends.getLast? with
    | none => simp [hs] at h
    | some s =>
      rw [List.getLast?_append, hs]
      rwa [hs] at h

/-- A packet that went out in full ahead of the rest. -/
theorem Ended.cons {out : List P} {f : Flushed P} (h : Ended size out f) {pk : P}
    {sends : List (P × Result Nat)} (hsent : accepted size sends = [pk])
    (hb : ∀ s ∈ sends, isWouldBlock s.2 = false) :
    Ended size (pk :: out) { f with sends := sends ++ f.sends } := by
  have hacc : accepted size (sends ++ f.sends) = pk :: accepted size f.sends := by
    rw [accepted_append, hsent]
    rfl
  have hall : (∀ s ∈ f.sends, isWouldBlock s.2 = false) →
      ∀ s ∈ sends ++ f.sends, isWouldBlock s.2 = false := by
    intro hf s hmem
    rcases List.mem_append.mp hmem with hmem | hmem
    · exact hb s hmem
    · exact hf s hmem
  cases h with
  | emptied hout hnil hrv hf => exact .emptied (by rw [hacc, hout]) hnil hrv (hall hf)
  | failed pk' hout hfailed hf =>
    exact .failed pk' (by rw [hacc, hout]; rfl) (failedOf_later hfailed sends) (hall hf)
  | blocked pk' r hout hrv hlast hr =>
    refine .blocked pk' r (by rw [hacc, hout]; rfl) hrv ?_ hr
    change (sends ++ f.sends).getLast? = _
    rw [List.getLast?_append, hlast]
    rfl

theorem flushLoop_ended {out : List P} {outcomes : List (Result Nat)} {f : Flushed P}
    (h : flushLoop size out outcomes = .ret f) :
    outcomes = f.sends.map Prod.snd ++ f.rest ∧ Ended size out f := by
  induction out generalizing outcomes f with
  | nil =>
    cases h
    exact ⟨rfl, .emptied rfl rfl rfl (by simp)⟩
  | cons pk out ih =>
    obtain ⟨⟨rv, sends, rest⟩, hloop, h⟩ := Exec.bind_eq_ret.mp h
    obtain ⟨interrupts, r, rfl, hi, hr, hsends, rfl⟩ := sendLoop_ret hloop
    have hsnd : sends.map Prod.snd = interrupts ++ [r] := by
      rw [hsends, List.map_map]
      exact List.map_id _
    have hlast : sends.getLast? = some (pk, r) := by
      rw [hsends, List.map_append]
      exact List.getLast?_concat
    have hacc : accepted size sends = accepted size [(pk, r)] := by
      rw [hsends, List.map_append, accepted_append, accepted_interrupts hi]
      rfl
    have hblock : isWouldBlock r = false → ∀ s ∈ sends, isWouldBlock s.2 = false := by
      intro hb s hmem
      rw [hsends] at hmem
      obtain ⟨i, hi', rfl⟩ := List.mem_map.mp hmem
      rcases List.mem_append.mp hi' with hmem | hmem
      · exact isWouldBlock_of_isInterrupted (hi i hmem)
      · exact List.mem_singleton.mp hmem ▸ hb
    cases harm : sendArm size pk r with
    | none =>
      -- the packet went out in full and the loop goes on
      rw [harm] at h
      obtain ⟨f', hf', h⟩ := Exec.bind_eq_ret.mp h
      cases h
      obtain ⟨hrest, hended⟩ := ih hf'
      obtain ⟨len, rfl, hlen⟩ := sendArm_none harm
      refine ⟨?_, hended.cons ?_ (hblock rfl)⟩
      · rw [List.map_append, hsnd, hrest]
        simp
      · rw [hacc]
        simp [accepted, hlen]
    | some rv =>
      rw [harm] at h
      cases h
      refine ⟨by rw [hsnd]; simp, ?_⟩
      have hout : pk :: out = accepted size sends ++ pk :: out := by
        rw [hacc, accepted_sendArm harm]
        rfl
      rcases sendArm_some harm with ⟨hb, rfl⟩ | ⟨hb, e, rfl⟩
      · exact .blocked pk r hout rfl hlast hb
      · exact .failed pk hout (by simp only [failedOf, hlast]; rfl) (hblock hb)

theorem flush_ended {q : PacketQueue P} {outcomes : List (Result Nat)} {f : Flushed P}
    (h : flush size q outcomes = .ret f) (hsocket : q.socket.isSome) :
    outcomes = f.sends.map Prod.snd ++ f.rest ∧ Ended size q.out f := by
  obtain ⟨socket, hs⟩ := Option.isSome_iff_exists.mp hsocket
  rw [flush, hs] at h
  exact flushLoop_ended h

end PacketQueue
end StakkerMio
