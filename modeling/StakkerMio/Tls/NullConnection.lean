import StakkerMio.Tls.Connection

/-! # A connection without encryption

A small `ServerConnection`: records have their five-byte headers, and the handshake
is a ClientHello, an answer and a Finished. It shows that what is relied on of
connections can be met, and takes their place in samples. -/
namespace StakkerMio
open ServerConnection Observed

structure NullConnection where
  handshaking : Bool := true
  records : List Record := []
  /-- Not yet written. -/
  queue : List Record := []
  held : List UInt8 := []
  /-- Read, but not yet looked at. -/
  fed : List UInt8 := []
  /-- Of a record that is not complete yet. -/
  begun : List UInt8 := []
  incoming : List UInt8 := []
  closed : Bool := false
  sawEof : Bool := false
  failed : Bool := false

namespace NullConnection

def frame (kind : UInt8) (payload : List UInt8) : List UInt8 :=
  kind :: 3 :: 3 :: UInt8.ofNat (payload.length / 256) :: UInt8.ofNat payload.length :: payload

def record (content : Content) (kind : UInt8) (payload : List UInt8) : Record where
  content := content
  wire := frame kind payload
  wire_ne := List.cons_ne_nil _ _

def put (c : NullConnection) (content : Content) (kind : UInt8) (payload : List UInt8) :
    NullConnection :=
  let r := record content kind payload
  { c with records := c.records ++ [r], queue := c.queue ++ [r] }

/-- Plaintext goes out at once, with what was held, or is held. -/
def putPlain (c : NullConnection) (plain : List UInt8) : NullConnection :=
  let plain := c.held ++ plain
  if c.handshaking then { c with held := plain }
  else if plain.isEmpty then { c with held := [] }
  else { c with held := [] }.put (.data plain) 23 plain

def handshake (c : NullConnection) : UInt8 → NullConnection
  | 1 => c.put .other 22 [2]
  | 20 => putPlain { c with handshaking := false } []
  | 24 => c.put .other 22 [24]
  | _ => { c.put .other 21 [2, 10] with failed := true }

def handle (c : NullConnection) (kind : UInt8) (payload : List UInt8) : NullConnection :=
  if c.failed then c
  else if kind = 22 then c.handshake (payload.headD 0)
  else if kind = 23 then { c with incoming := c.incoming ++ payload }
  else if kind = 21 ∧ payload = [1, 0] then { c with closed := true }
  else { c.put .other 21 [2, 10] with failed := true }

def receive (c : NullConnection) (byte : UInt8) : NullConnection :=
  let begun := c.begun ++ [byte]
  match begun with
  | kind :: _ :: _ :: high :: low :: payload =>
    if payload.length = high.toNat * 256 + low.toNat then
      { c with begun := [] }.handle kind payload
    else { c with begun := begun }
  | _ => { c with begun := begun }

def received (c : NullConnection) (bytes : List UInt8) : NullConnection := bytes.foldl receive c

def processed (c : NullConnection) : NullConnection := { c.received c.fed with fed := [] }

def read (c : NullConnection) (bytes : List UInt8) : NullConnection :=
  { c with fed := c.fed ++ bytes, sawEof := c.sawEof || bytes.isEmpty }

/-- While the handshake goes on, 64 KiB of plaintext are held at most. -/
def accept (c : NullConnection) (buf : List UInt8) : List UInt8 :=
  if c.handshaking then buf.take (65536 - c.held.length) else buf

/-- A record at a time goes to the writer. -/
def written (c : NullConnection) : Result Nat → NullConnection × Result Nat
  | .ok len => ({ c with queue := c.queue.tail }, .ok len)
  | .error e => (c, .error e)

def emptyRead (c : NullConnection) : Result (List UInt8) :=
  if c.closed then .ok []
  else .error ⟨if c.sawEof then .unexpectedEof else .wouldBlock, none⟩

instance : ServerConnection NullConnection where
  wantsWrite c := !c.queue.isEmpty
  wantsRead c := c.incoming.isEmpty && !c.closed && (!c.handshaking || c.queue.isEmpty)
  writeTls c := ((c.queue.head?.map Record.wire).getD [], c.written)
  readTls c := .ok (4096, fun
    | .ok bytes => (c.read bytes, .ok bytes.length)
    | .error e => (c, .error e))
  processNewPackets c :=
    (c.processed, if c.processed.failed then .error ⟨0⟩ else .ok c.processed.incoming.length)
  readerRead c len :=
    if len = 0 then (c, .ok [])
    else if c.incoming.isEmpty then (c, c.emptyRead)
    else ({ c with incoming := c.incoming.drop len }, .ok (c.incoming.take len))
  writerWrite c buf := (c.putPlain (c.accept buf), .ok (c.accept buf).length)
  sendCloseNotify c := c.put .closeNotify 21 [1, 0]

instance : Observed NullConnection where
  sending c := { records := c.records, pending := wireOf c.queue, held := c.held }
  receiving c :=
    { incoming := c.incoming
      closed := c.closed
      sawEof := c.sawEof
      closes := fun bytes => (c.received (c.fed ++ bytes)).closed }

/-! ## What is received depends on the bytes alone -/

/-- The fields that decide what comes of further bytes. -/
structure Alike (c d : NullConnection) : Prop where
  begun : c.begun = d.begun
  closed : c.closed = d.closed
  failed : c.failed = d.failed

variable {c d : NullConnection}

theorem putPlain_frame (c : NullConnection) (plain : List UInt8) :
    c.putPlain plain = { c with
      records := (c.putPlain plain).records
      queue := (c.putPlain plain).queue
      held := (c.putPlain plain).held } := by
  unfold putPlain
  dsimp only
  split
  · rfl
  · split <;> rfl

theorem Alike.handshake (h : Alike c d) (message : UInt8) :
    Alike (c.handshake message) (d.handshake message) := by
  unfold NullConnection.handshake
  split
  · exact ⟨h.begun, h.closed, h.failed⟩
  · rw [putPlain_frame { c with handshaking := false },
      putPlain_frame { d with handshaking := false }]
    exact ⟨h.begun, h.closed, h.failed⟩
  · exact ⟨h.begun, h.closed, h.failed⟩
  · exact ⟨h.begun, h.closed, rfl⟩

theorem Alike.handle (h : Alike c d) (kind : UInt8) (payload : List UInt8) :
    Alike (c.handle kind payload) (d.handle kind payload) := by
  unfold NullConnection.handle
  rw [h.failed]
  split
  · exact h
  · split
    · exact h.handshake _
    · split
      · exact ⟨h.begun, h.closed, rfl⟩
      · split
        · exact ⟨h.begun, rfl, rfl⟩
        · exact ⟨h.begun, h.closed, rfl⟩

theorem Alike.receive (h : Alike c d) (byte : UInt8) : Alike (c.receive byte) (d.receive byte) := by
  unfold NullConnection.receive
  rw [h.begun]
  dsimp only
  split
  · split
    · apply Alike.handle
      exact ⟨rfl, h.closed, h.failed⟩
    · exact ⟨rfl, h.closed, h.failed⟩
  · exact ⟨rfl, h.closed, h.failed⟩

theorem Alike.received (h : Alike c d) (bytes : List UInt8) :
    Alike (c.received bytes) (d.received bytes) := by
  induction bytes generalizing c d with
  | nil => exact h
  | cons byte bytes ih => exact ih (h.receive byte)

theorem received_append (c : NullConnection) (bytes more : List UInt8) :
    c.received (bytes ++ more) = (c.received bytes).received more := List.foldl_append

/-! ## What a byte adds and keeps -/

/-- A step that sends no close_notify, and keeps what was seen of the peer. -/
structure Grows (c d : NullConnection) : Prop where
  adds : (sending c).Adds (sending d) []
  closed : c.closed = true → d.closed = true
  sawEof : d.sawEof = c.sawEof

theorem Grows.refl (c : NullConnection) : Grows c c := ⟨.refl _, id, rfl⟩

theorem Grows.trans {e : NullConnection} (h : Grows c d) (h' : Grows d e) : Grows c e :=
  ⟨h.adds.trans h'.adds, h'.closed ∘ h.closed, h'.sawEof.trans h.sawEof⟩

theorem put_other_adds (c : NullConnection) (kind : UInt8) (payload : List UInt8) :
    (sending c).Adds (sending (c.put .other kind payload)) [] :=
  ⟨[record .other kind payload], by simp [NoCloseNotify, record], rfl,
    by simp [sending, put, wireOf], by simp [sending, put, plainOf, Record.plain, record]⟩

theorem putPlain_adds (c : NullConnection) (plain : List UInt8) :
    (sending c).Adds (sending (c.putPlain plain)) plain := by
  unfold putPlain
  dsimp only
  split
  · exact ⟨[], nofun, by simp [sending], by simp [sending, wireOf], rfl⟩
  · split
    · rename_i hempty
      refine ⟨[], nofun, by simp [sending], by simp [sending, wireOf], ?_⟩
      exact List.isEmpty_iff.mp hempty
    · exact ⟨[record (.data (c.held ++ plain)) 23 (c.held ++ plain)],
        by simp [NoCloseNotify, record], rfl, by simp [sending, put, wireOf],
        by simp [sending, put, plainOf, Record.plain, record]⟩

theorem handshake_grows (c : NullConnection) (message : UInt8) : Grows c (c.handshake message) := by
  unfold handshake
  split
  · exact ⟨put_other_adds c 22 [2], id, rfl⟩
  · have hadds := putPlain_adds { c with handshaking := false } []
    rw [putPlain_frame] at hadds ⊢
    exact ⟨hadds, id, rfl⟩
  · exact ⟨put_other_adds c 22 [24], id, rfl⟩
  · exact ⟨put_other_adds c 21 [2, 10], id, rfl⟩

theorem handle_grows (c : NullConnection) (kind : UInt8) (payload : List UInt8) :
    Grows c (c.handle kind payload) := by
  unfold handle
  split
  · exact .refl c
  · split
    · exact handshake_grows c _
    · split
      · exact ⟨.refl _, id, rfl⟩
      · split
        · exact ⟨.refl _, fun _ => rfl, rfl⟩
        · exact ⟨put_other_adds c 21 [2, 10], id, rfl⟩

theorem receive_grows (c : NullConnection) (byte : UInt8) : Grows c (c.receive byte) := by
  have hbegun (begun : List UInt8) : Grows c { c with begun := begun } := ⟨.refl _, id, rfl⟩
  unfold receive
  dsimp only
  split
  · split
    · exact (hbegun []).trans (handle_grows _ _ _)
    · exact hbegun _
  · exact hbegun _

theorem received_grows (c : NullConnection) (bytes : List UInt8) : Grows c (c.received bytes) := by
  induction bytes generalizing c with
  | nil => exact .refl c
  | cons byte bytes ih => exact (receive_grows c byte).trans (ih _)

/-! ## It is as documented -/

theorem closes_eq (h : Alike c d) (hfed : c.fed = d.fed) :
    (receiving c).closes = (receiving d).closes := by
  funext bytes
  change (c.received (c.fed ++ bytes)).closed = (d.received (d.fed ++ bytes)).closed
  rw [hfed]
  exact (h.received _).closed

theorem processed_closes (c : NullConnection) :
    (receiving c.processed).closes = (receiving c).closes := by
  funext bytes
  have halike : Alike c.processed (c.received c.fed) := ⟨rfl, rfl, rfl⟩
  change (c.processed.received ([] ++ bytes)).closed = (c.received (c.fed ++ bytes)).closed
  rw [received_append c, List.nil_append]
  exact (halike.received bytes).closed

theorem receiving_eq (h : Alike c d) (hfed : c.fed = d.fed) (hinc : c.incoming = d.incoming)
    (hsaw : c.sawEof = d.sawEof) : receiving c = receiving d := by
  have hcloses := closes_eq h hfed
  simp only [receiving] at hcloses ⊢
  rw [hcloses, hinc, h.closed, hsaw]

theorem documented : Documented NullConnection where
  wantsWrite_iff c := by
    change (!c.queue.isEmpty) = true ↔ wireOf c.queue ≠ []
    cases hq : c.queue with
    | nil => simp [wireOf]
    | cons r queue => simpa using wireOf_ne (List.cons_ne_nil r queue)
  writeTls c hw := by
    change (!c.queue.isEmpty) = true at hw
    obtain ⟨r, queue, hq⟩ := List.exists_cons_of_ne_nil (l := c.queue) (by simpa using hw)
    have hpending : (sending c).pending = r.wire ++ wireOf queue := by
      change wireOf c.queue = _
      rw [hq]
      rfl
    refine ⟨r.wire, c.written, { c with queue := queue }, wireOf queue, ?_, ?_, r.wire_ne,
      hpending, rfl, ?_⟩
    · change ((c.queue.head?.map Record.wire).getD [], c.written) = _
      rw [hq]
      rfl
    · rw [written, hq]
      rfl
    · exact receiving_eq ⟨rfl, rfl, rfl⟩ rfl rfl rfl
  readTls c room k h := by
    cases h
    refine ⟨fun _ => by decide, fun bytes => ⟨rfl, ?_⟩⟩
    have halike : Alike (c.read bytes) c := ⟨rfl, rfl, rfl⟩
    have hcloses : (receiving (c.read bytes)).closes =
        ((receiving c).feed bytes).closes := by
      funext more
      change ((c.read bytes).received (c.fed ++ bytes ++ more)).closed =
        (c.received (c.fed ++ (bytes ++ more))).closed
      rw [List.append_assoc]
      exact (halike.received _).closed
    change receiving (c.read bytes) = _
    simp only [receiving, Receiving.feed] at hcloses ⊢
    rw [hcloses]
    rfl
  processNewPackets_sending c := (received_grows c c.fed).adds
  processNewPackets_ok c n h := by
    change (if c.processed.failed then Except.error (RustlsError.mk 0)
      else .ok c.processed.incoming.length) =
      Except.ok n at h
    split at h
    · cases h
    · cases h
      refine ⟨rfl, ?_, (received_grows c c.fed).sawEof, processed_closes c⟩
      change (c.received c.fed).closed = (c.received (c.fed ++ [])).closed
      rw [List.append_nil]
  processNewPackets_error c e h := by
    refine ⟨(received_grows c c.fed).sawEof, fun more hm => ?_⟩
    rwa [← processed_closes]
  closed_closes c h := (received_grows c _).closed h
  closes_append c bytes more h := by
    change (c.received (c.fed ++ bytes)).closed = true at h
    change (c.received (c.fed ++ (bytes ++ more))).closed = true
    rw [← List.append_assoc, received_append]
    exact (received_grows _ more).closed h
  readerRead_sending c len := by
    unfold readerRead instServerConnection
    dsimp only
    split
    · rfl
    · split <;> rfl
  readerRead_some c len hne hlen := by
    have hne : c.incoming ≠ [] := hne
    refine ⟨c.incoming.take len, c.incoming.drop len, { c with incoming := c.incoming.drop len },
      ?_, ?_, List.length_take_le _ _, (List.take_append_drop _ _).symm, ?_⟩
    · unfold readerRead instServerConnection
      dsimp only
      rw [if_neg (by omega), if_neg (by simpa using hne)]
    · simp only [ne_eq, List.take_eq_nil_iff, not_or]
      exact ⟨by omega, hne⟩
    · have hcloses := closes_eq (c := { c with incoming := c.incoming.drop len }) (d := c)
        ⟨rfl, rfl, rfl⟩ rfl
      simp only [receiving] at hcloses ⊢
      rw [hcloses]
  readerRead_none c len hempty hlen := by
    have hempty : c.incoming = [] := hempty
    refine ⟨c, c.emptyRead, ?_, rfl, ?_⟩
    · unfold readerRead instServerConnection
      dsimp only
      rw [if_neg (by omega), if_pos (by simpa using hempty)]
    · change if c.closed = true then c.emptyRead = .ok [] else _
      unfold emptyRead
      split
      · rfl
      · exact ⟨_, rfl, rfl⟩
  readerRead_zero c := ⟨c, rfl, rfl⟩
  writerWrite_receiving c buf := by
    change receiving (c.putPlain (c.accept buf)) = receiving c
    rw [putPlain_frame]
    exact receiving_eq ⟨rfl, rfl, rfl⟩ rfl rfl rfl
  writerWrite_ok c buf n h := by
    cases h
    have haccept : c.accept buf <+: buf := by
      unfold accept
      split
      · exact List.take_prefix _ _
      · exact List.prefix_rfl
    refine ⟨haccept.length_le, ?_⟩
    rw [← List.prefix_iff_eq_take.mp haccept]
    exact putPlain_adds c _
  writerWrite_error c buf e h := by cases h
  sendCloseNotify c := by
    refine ⟨receiving_eq ⟨rfl, rfl, rfl⟩ rfl rfl rfl, record .closeNotify 21 [1, 0], rfl, ?_⟩
    change sending (c.put .closeNotify 21 [1, 0]) = _
    simp [sending, put, wireOf]

theorem fresh : Fresh ({} : NullConnection) := ⟨rfl, rfl, rfl, rfl⟩

end NullConnection
end StakkerMio
