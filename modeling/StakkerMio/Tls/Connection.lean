import StakkerMio.Io

/-! # The TLS library

`ServerConnection` has the calls of the type of that name that the engine makes;
they are parameters. `Documented` says what is relied on of them, in terms of what
a connection has yet to send and of what it has received (`Observed`). -/
namespace StakkerMio

/-- An error of the library that is not an I/O error. -/
structure RustlsError where
  code : Nat
  deriving DecidableEq

class ServerConnection (SC : Type) where
  wantsWrite : SC → Bool
  wantsRead : SC → Bool
  /-- The slice passed to the writer, and what follows from the answer. -/
  writeTls : SC → List UInt8 × (Result Nat → SC × Result Nat)
  /-- The length of the slice passed to the reader, and what follows from the
  answer; or an error before the reader is called. -/
  readTls : SC → Result (Nat × (Result (List UInt8) → SC × Result Nat))
  /-- With the `plaintext_bytes_to_read` of the state returned. -/
  processNewPackets : SC → SC × Except RustlsError Nat
  readerRead : SC → Nat → SC × Result (List UInt8)
  writerWrite : SC → List UInt8 → SC × Result Nat
  sendCloseNotify : SC → SC

inductive Content where
  | data (plain : List UInt8)
  | closeNotify
  | other
  deriving DecidableEq

/-- A record made for sending, with its bytes on the wire. -/
structure Record where
  content : Content
  wire : List UInt8
  wire_ne : wire ≠ []
  deriving DecidableEq

def Record.plain (r : Record) : List UInt8 :=
  match r.content with
  | .data plain => plain
  | _ => []

def plainOf (rs : List Record) : List UInt8 := rs.flatMap Record.plain

def wireOf (rs : List Record) : List UInt8 := rs.flatMap Record.wire

def NoCloseNotify (rs : List Record) : Prop := ∀ r ∈ rs, r.content ≠ .closeNotify

theorem wireOf_ne {rs : List Record} (h : rs ≠ []) : wireOf rs ≠ [] := by
  obtain ⟨r, rs, rfl⟩ := List.exists_cons_of_ne_nil h
  simp [wireOf, r.wire_ne]

@[simp] theorem plainOf_append (rs rs' : List Record) :
    plainOf (rs ++ rs') = plainOf rs ++ plainOf rs' := List.flatMap_append

@[simp] theorem wireOf_append (rs rs' : List Record) :
    wireOf (rs ++ rs') = wireOf rs ++ wireOf rs' := List.flatMap_append

/-- `records` are all that were made so far, `pending` their bytes that are not yet
written, and `held` is plaintext that was accepted and is in no record yet. -/
@[ext] structure Sending where
  records : List Record := []
  pending : List UInt8 := []
  held : List UInt8 := []

/-- The plaintext not yet read, whether a close_notify was processed and the end of
the stream was seen, and whether a close_notify will have come with these bytes. -/
structure Receiving where
  incoming : List UInt8 := []
  closed : Bool := false
  sawEof : Bool := false
  closes : List UInt8 → Bool

class Observed (SC : Type) where
  sending : SC → Sending
  receiving : SC → Receiving

/-- Records are added, which take the plaintext in order; what is left is held. -/
def Sending.Adds (s t : Sending) (plain : List UInt8) : Prop :=
  ∃ rs, NoCloseNotify rs ∧ t.records = s.records ++ rs ∧ t.pending = s.pending ++ wireOf rs ∧
    s.held ++ plain = plainOf rs ++ t.held

theorem Sending.Adds.refl (s : Sending) : s.Adds s [] :=
  ⟨[], nofun, by simp, by simp [wireOf], by simp [plainOf]⟩

theorem Sending.Adds.trans {s m t : Sending} {plain plain' : List UInt8} (h : s.Adds m plain)
    (h' : m.Adds t plain') : s.Adds t (plain ++ plain') := by
  obtain ⟨rs, hrs, hr, hp, hh⟩ := h
  obtain ⟨rs', hrs', hr', hp', hh'⟩ := h'
  refine ⟨rs ++ rs', fun r hm => ?_, by simp [hr', hr], by simp [hp', hp], ?_⟩
  · rcases List.mem_append.mp hm with hm | hm
    · exact hrs r hm
    · exact hrs' r hm
  · rw [plainOf_append, ← List.append_assoc, hh, List.append_assoc, hh', List.append_assoc]

/-- More bytes were read from the stream. -/
def Receiving.feed (r : Receiving) (bytes : List UInt8) : Receiving :=
  { r with
    sawEof := r.sawEof || bytes.isEmpty
    closes := fun more => r.closes (bytes ++ more) }

open ServerConnection Observed

/-- What the documentation says of the calls. -/
structure Documented (SC : Type) [ServerConnection SC] [Observed SC] : Prop where
  wantsWrite_iff (sc : SC) : wantsWrite sc = true ↔ (sending sc).pending ≠ []
  writeTls (sc : SC) : wantsWrite sc = true → ∃ chunk k sc' rest,
    writeTls sc = (chunk, k) ∧ k (.ok chunk.length) = (sc', .ok chunk.length) ∧ chunk ≠ [] ∧
    (sending sc).pending = chunk ++ rest ∧ sending sc' = { sending sc with pending := rest } ∧
    receiving sc' = receiving sc
  readTls (sc : SC) (room : Nat) (k : Result (List UInt8) → SC × Result Nat) :
    readTls sc = .ok (room, k) → (wantsRead sc = true → 0 < room) ∧
    ∀ bytes, sending (k (.ok bytes)).1 = sending sc ∧
      receiving (k (.ok bytes)).1 = (receiving sc).feed bytes
  /-- An error, too, may leave an alert to send. -/
  processNewPackets_sending (sc : SC) :
    (sending sc).Adds (sending (processNewPackets sc).1) []
  processNewPackets_ok (sc : SC) (n : Nat) : (processNewPackets sc).2 = .ok n →
    (receiving (processNewPackets sc).1).incoming.length = n ∧
    (receiving (processNewPackets sc).1).closed = (receiving sc).closes [] ∧
    (receiving (processNewPackets sc).1).sawEof = (receiving sc).sawEof ∧
    (receiving (processNewPackets sc).1).closes = (receiving sc).closes
  /-- After an error no close_notify is processed that was not there before. -/
  processNewPackets_error (sc : SC) (e : RustlsError) : (processNewPackets sc).2 = .error e →
    (receiving (processNewPackets sc).1).sawEof = (receiving sc).sawEof ∧
    ∀ more, (receiving (processNewPackets sc).1).closes more = true →
      (receiving sc).closes more = true
  closed_closes (sc : SC) : (receiving sc).closed = true → (receiving sc).closes [] = true
  closes_append (sc : SC) (bytes more : List UInt8) :
    (receiving sc).closes bytes = true → (receiving sc).closes (bytes ++ more) = true
  readerRead_sending (sc : SC) (len : Nat) : sending (readerRead sc len).1 = sending sc
  readerRead_some (sc : SC) (len : Nat) : (receiving sc).incoming ≠ [] → 0 < len →
    ∃ bytes rest sc', readerRead sc len = (sc', .ok bytes) ∧ bytes ≠ [] ∧ bytes.length ≤ len ∧
      (receiving sc).incoming = bytes ++ rest ∧
      receiving sc' = { receiving sc with incoming := rest }
  readerRead_none (sc : SC) (len : Nat) : (receiving sc).incoming = [] → 0 < len →
    ∃ sc' rv, readerRead sc len = (sc', rv) ∧ receiving sc' = receiving sc ∧
      if (receiving sc).closed then rv = .ok []
      else ∃ e, rv = .error e ∧
        e.kind = if (receiving sc).sawEof then .unexpectedEof else .wouldBlock
  readerRead_zero (sc : SC) : ∃ sc', readerRead sc 0 = (sc', .ok []) ∧ receiving sc' = receiving sc
  writerWrite_receiving (sc : SC) (buf : List UInt8) :
    receiving (writerWrite sc buf).1 = receiving sc
  writerWrite_ok (sc : SC) (buf : List UInt8) (n : Nat) : (writerWrite sc buf).2 = .ok n →
    n ≤ buf.length ∧ (sending sc).Adds (sending (writerWrite sc buf).1) (buf.take n)
  writerWrite_error (sc : SC) (buf : List UInt8) (e : Error) : (writerWrite sc buf).2 = .error e →
    sending (writerWrite sc buf).1 = sending sc
  sendCloseNotify (sc : SC) : receiving (sendCloseNotify sc) = receiving sc ∧
    ∃ r : Record, r.content = .closeNotify ∧ sending (sendCloseNotify sc) =
      { sending sc with
        records := (sending sc).records ++ [r]
        pending := (sending sc).pending ++ r.wire }

/-- A connection that has sent and received nothing. -/
structure Fresh {SC : Type} [Observed SC] (sc : SC) : Prop where
  sending : sending sc = {}
  incoming : (receiving sc).incoming = []
  closed : (receiving sc).closed = false
  sawEof : (receiving sc).sawEof = false

end StakkerMio
