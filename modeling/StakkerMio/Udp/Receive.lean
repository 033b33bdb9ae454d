import StakkerMio.Lib.Loop
import StakkerMio.Udp.Queue

/-! # Receiving datagrams

`read` of the two queues, called until there is no more. A datagram longer than the
scratch buffer is cut short by UNIX; Windows reports an error, which the guard of
`read` does not match unless its kind is `Other`. -/
namespace StakkerMio
open Lib

/-- What a receive wrote to the front of the buffer, and what it returned; `A` is what
comes with the length. -/
structure Received (A : Type) where
  data : List UInt8
  rv : Result (Nat × A)

/-- What `read` leaves: its result, the scratch buffer, and the outcomes it had no use
for. -/
abbrev ReadPacket (A R : Type) := Result (Option R) × List UInt8 × List (Received A)

namespace PacketQueue
variable {A R : Type}

/-- The `loop` of `read`. The result of a receive is made by `found`, that for the
error 10040 by `truncated`; `none` there is `continue`. -/
def recvLoop (found : A → List UInt8 → R) (truncated : List UInt8 → Option R) :
    List UInt8 → List (Received A) → Exec (ReadPacket A R)
  | _, [] => .wait
  | tmp, r :: outcomes =>
    let tmp := r.data ++ tmp.drop r.data.length
    match r.rv with
    | .error e =>
      if e.kind = .interrupted then recvLoop found truncated tmp outcomes
      else if e.kind = .wouldBlock then .ret (.ok none, tmp, outcomes)
      else if e.kind = .other ∧ e.rawOsError = some 10040 then
        match truncated tmp with
        | some x => .ret (.ok (some x), tmp, outcomes)
        | none => recvLoop found truncated tmp outcomes
      else .ret (.error e, tmp, outcomes)
    | .ok (len, a) =>
      if len ≤ tmp.length then .ret (.ok (some (found a (tmp.take len))), tmp, outcomes)
      else .panic

/-- `read_to_vec`, after `read`; the slice is copied. -/
def toVec (x : Exec (ReadPacket A R)) : Exec (ReadPacket A R) := do
  let (rv, tmp, outcomes) ← x
  match rv with
  | .ok (some slice) => .ret (.ok (some slice), tmp, outcomes)
  | .ok none => .ret (.ok none, tmp, outcomes)
  | .error e => .ret (.error e, tmp, outcomes)

end PacketQueue

open PacketQueue

namespace UdpQueue

/-- By `socket.recv`; a datagram that was cut short fills the buffer. -/
def read (q : UdpQueue) (tmp : List UInt8) (outcomes : List (Received Unit)) :
    Exec (ReadPacket Unit (List UInt8)) :=
  match q.socket with
  | none => .ret (.ok none, tmp, outcomes)
  | some _ => recvLoop (fun _ slice => slice) some tmp outcomes

def readToVec (q : UdpQueue) (tmp : List UInt8) (outcomes : List (Received Unit)) :
    Exec (ReadPacket Unit (List UInt8)) :=
  toVec (q.read tmp outcomes)

end UdpQueue

namespace UdpServerQueue
variable {Addr : Type}

/-- By `socket.recv_from`; a datagram that was cut short has no address, and is
skipped. -/
def read (q : UdpServerQueue Addr) (tmp : List UInt8) (outcomes : List (Received Addr)) :
    Exec (ReadPacket Addr (Addr × List UInt8)) :=
  match q.socket with
  | none => .ret (.ok none, tmp, outcomes)
  | some _ => recvLoop (fun addr slice => (addr, slice)) (fun _ => none) tmp outcomes

def readToVec (q : UdpServerQueue Addr) (tmp : List UInt8) (outcomes : List (Received Addr)) :
    Exec (ReadPacket Addr (Addr × List UInt8)) :=
  toVec (q.read tmp outcomes)

end UdpServerQueue

/-! ## Sockets -/

inductive Platform where
  | unix
  | windows
  deriving DecidableEq

/-- What comes next on a socket. -/
inductive Arrival (A : Type) where
  | interrupted
  | datagram (source : A) (bytes : List UInt8)

namespace Arrival
variable {A R : Type}

def size : Arrival A → Nat
  | .interrupted => 0
  | .datagram _ bytes => bytes.length

/-- A receive into `room` bytes; `kind` is the kind of the error 10040. -/
def recv (platform : Platform) (kind : ErrorKind) (room : Nat) : Arrival A → Received A
  | .interrupted => ⟨[], .error { kind := .interrupted }⟩
  | .datagram source bytes =>
    if bytes.length ≤ room then ⟨bytes, .ok (bytes.length, source)⟩
    else match platform with
      | .unix => ⟨bytes.take room, .ok (room, source)⟩
      | .windows => ⟨bytes.take room, .error { kind := kind, rawOsError := some 10040 }⟩

/-- What is left when the arrivals have been received. -/
def blocked : Received A := ⟨[], .error { kind := .wouldBlock }⟩

/-- The outcomes of the receives. -/
def outcomes (platform : Platform) (kind : ErrorKind) (room : Nat) (arrivals : List (Arrival A)) :
    List (Received A) :=
  arrivals.map (recv platform kind room) ++ [blocked]

/-- What `UdpQueue` is to yield: every datagram, cut to the buffer. -/
def cut (room : Nat) : Arrival A → Option (List UInt8)
  | .interrupted => none
  | .datagram _ bytes => some (bytes.take room)

/-- What `UdpServerQueue` is to yield: each with its source; Windows skips those that
are too long. -/
def cutOrSkipped (platform : Platform) (room : Nat) : Arrival A → Option (A × List UInt8)
  | .interrupted => none
  | .datagram source bytes =>
    match platform with
    | .unix => some (source, bytes.take room)
    | .windows => if bytes.length ≤ room then some (source, bytes) else none

end Arrival

/-- A turn of a caller that reads until there is nothing more; `got` is what it has
had so far. -/
def drainTurn {A R : Type} (read : List UInt8 → List (Received A) → Exec (ReadPacket A R)) :
    List R × List UInt8 × List (Received A) →
      Exec ((List R × List UInt8 × List (Received A)) ⊕ (Result (List R) × List (Received A)))
  | (got, tmp, outcomes) => do
    let (rv, tmp, outcomes) ← read tmp outcomes
    match rv with
    | .ok (some x) => .ret (.inl (got ++ [x], tmp, outcomes))
    | .ok none => .ret (.inr (.ok got, outcomes))
    | .error e => .ret (.inr (.error e, outcomes))

/-- Reading until there is nothing more ends, without an error, and yields `expected`. -/
def Yields {A R : Type} (read : List UInt8 → List (Received A) → Exec (ReadPacket A R))
    (tmp : List UInt8) (outcomes : List (Received A)) (expected : List R) : Prop :=
  ∃ n, ∀ k, n ≤ k → loop (drainTurn read) k ([], tmp, outcomes) = .ret (.ok expected, [])

theorem PacketQueue.toVec_eq {A R : Type} (x : Exec (ReadPacket A R)) : toVec x = x := by
  cases x with
  | ret r =>
    obtain ⟨rv, tmp, outcomes⟩ := r
    match rv with
    | .ok (some slice) | .ok none | .error e => rfl
  | _ => rfl

/-! ## One receive -/

namespace PacketQueue
variable {A R : Type} (found : A → List UInt8 → R) (truncated : List UInt8 → Option R)
  {platform : Platform} (kind : ErrorKind) {room : Nat} {tmp : List UInt8}

/-- A datagram that fits or is cut short is found, up to the length of the buffer. -/
theorem recvLoop_datagram (hroom : tmp.length = room) (source : A) {bytes : List UInt8}
    (h : platform = .unix ∨ bytes.length ≤ room) (rest : List (Received A)) :
    ∃ tmp', tmp'.length = room ∧ recvLoop found truncated tmp
        ((Arrival.datagram source bytes).recv platform kind room :: rest) =
      .ret (.ok (some (found source (bytes.take room))), tmp', rest) := by
  have hfill {data : List UInt8} (hdata : data.length ≤ room) :
      (data ++ tmp.drop data.length).length = room ∧
        (data ++ tmp.drop data.length).take data.length = data := by
    refine ⟨?_, List.take_left⟩
    rw [List.length_append, List.length_drop]
    omega
  by_cases hlen : bytes.length ≤ room
  · obtain ⟨hlength, htake⟩ := hfill hlen
    refine ⟨bytes ++ tmp.drop bytes.length, hlength, ?_⟩
    unfold recvLoop
    simp only [Arrival.recv, if_pos hlen]
    rw [if_pos (by omega), htake, List.take_of_length_le hlen]
  · have hunix := h.resolve_right hlen
    subst hunix
    have hcut : (bytes.take room).length = room := List.length_take_of_le (by omega)
    obtain ⟨hlength, htake⟩ := hfill (Nat.le_of_eq hcut)
    refine ⟨bytes.take room ++ tmp.drop (bytes.take room).length, hlength, ?_⟩
    unfold recvLoop
    simp only [Arrival.recv, if_neg hlen]
    rw [if_pos (by omega)]
    rw [hcut] at htake ⊢
    rw [htake]

/-- The error 10040 goes through to the caller. -/
theorem recvLoop_overlong (tmp : List UInt8) {kind : ErrorKind}
    (hkind : kind ≠ .other ∧ kind ≠ .wouldBlock ∧ kind ≠ .interrupted) (source : A)
    {bytes : List UInt8} (hlen : ¬ bytes.length ≤ room) (rest : List (Received A)) :
    ∃ e tmp', recvLoop found truncated tmp
        ((Arrival.datagram source bytes).recv .windows kind room :: rest) =
      .ret (.error e, tmp', rest) := by
  obtain ⟨hother, hblock, hinterrupted⟩ := hkind
  refine ⟨{ kind := kind, rawOsError := some 10040 },
    bytes.take room ++ tmp.drop (bytes.take room).length, ?_⟩
  unfold recvLoop
  simp only [Arrival.recv, if_neg hlen]
  rw [if_neg hinterrupted, if_neg hblock, if_neg (fun h => hother h.1)]

/-! ## Reading until there is no more -/

/-- What a caller that reads until there is no more has in the end, with `got` so far. -/
def drain (k : Nat) (got : List R) (tmp : List UInt8) (outcomes : List (Received A)) :
    Exec (Result (List R) × List (Received A)) :=
  loop (drainTurn (recvLoop found truncated)) k (got, tmp, outcomes)

/-- An interrupted receive takes no turn of its own. -/
theorem drain_interrupted (k : Nat) (got : List R) (rest : List (Received A)) :
    drain found truncated k got tmp (Arrival.interrupted.recv platform kind room :: rest) =
      drain found truncated k got tmp rest := by
  cases k <;> rfl

theorem drain_datagram (k : Nat) (got : List R) (hroom : tmp.length = room) (source : A)
    {bytes : List UInt8} (h : platform = .unix ∨ bytes.length ≤ room)
    (rest : List (Received A)) : ∃ tmp', tmp'.length = room ∧
      drain found truncated (k + 1) got tmp
          ((Arrival.datagram source bytes).recv platform kind room :: rest) =
        drain found truncated k (got ++ [found source (bytes.take room)]) tmp' rest := by
  obtain ⟨tmp', hlength, hread⟩ := recvLoop_datagram found truncated kind hroom source h rest
  refine ⟨tmp', hlength, ?_⟩
  rw [drain, loop, drainTurn, hread]
  rfl

/-- What is wanted of the arrivals, where none of them is skipped. -/
def Wants (platform : Platform) (room : Nat) (want : Arrival A → Option R) : Prop :=
  want .interrupted = none ∧ ∀ source bytes, platform = .unix ∨ bytes.length ≤ room →
    want (.datagram source bytes) = some (found source (bytes.take room))

/-- Where no datagram is lost to the error 10040, all of them are had. -/
theorem drain_all {want : Arrival A → Option R} (hwant : Wants found platform room want)
    {arrivals : List (Arrival A)}
    (h : platform = .unix ∨ ∀ a ∈ arrivals, a.size ≤ room) (hroom : tmp.length = room)
    {k : Nat} (hk : arrivals.length < k) (got : List R) :
    drain found truncated k got tmp (Arrival.outcomes platform kind room arrivals) =
      .ret (.ok (got ++ arrivals.filterMap want), []) := by
  induction arrivals generalizing tmp k got with
  | nil =>
    obtain ⟨k, rfl⟩ := Nat.exists_eq_succ_of_ne_zero (show k ≠ 0 by omega)
    rw [List.filterMap_nil, List.append_nil]
    rfl
  | cons a arrivals ih =>
    have hrest : platform = .unix ∨ ∀ a ∈ arrivals, a.size ≤ room :=
      h.imp_right fun hall a ha => hall a (List.mem_cons_of_mem _ ha)
    rw [List.length_cons] at hk
    cases a with
    | interrupted =>
      rw [List.filterMap_cons_none hwant.1]
      exact (drain_interrupted found truncated kind k got _).trans
        (ih hrest hroom (by omega) got)
    | datagram source bytes =>
      have hfits : platform = .unix ∨ bytes.length ≤ room :=
        h.imp_right fun hall => hall _ List.mem_cons_self
      obtain ⟨k, rfl⟩ := Nat.exists_eq_succ_of_ne_zero (show k ≠ 0 by omega)
      obtain ⟨tmp', hlength, hdrain⟩ := drain_datagram found truncated kind k got hroom source
        hfits (Arrival.outcomes platform kind room arrivals)
      rw [List.filterMap_cons_some (hwant.2 source bytes hfits)]
      refine hdrain.trans ((ih hrest hlength (by omega) _).trans ?_)
      rw [List.append_assoc]
      rfl

/-- One datagram that is too long for Windows ends the reading with an error. -/
theorem drain_error {kind : ErrorKind}
    (hkind : kind ≠ .other ∧ kind ≠ .wouldBlock ∧ kind ≠ .interrupted)
    {arrivals : List (Arrival A)} (h : ¬ ∀ a ∈ arrivals, a.size ≤ room)
    (hroom : tmp.length = room) {k : Nat} (hk : arrivals.length < k) (got : List R) :
    ∃ e rest, drain found truncated k got tmp
      (Arrival.outcomes .windows kind room arrivals) = .ret (.error e, rest) := by
  induction arrivals generalizing tmp k got with
  | nil => exact absurd (fun a ha => nomatch ha) h
  | cons a arrivals ih =>
    rw [List.length_cons] at hk
    have hrest (ha : a.size ≤ room) : ¬ ∀ a ∈ arrivals, a.size ≤ room := by
      intro hall
      refine h fun a' ha' => ?_
      rcases List.mem_cons.mp ha' with rfl | ha'
      · exact ha
      · exact hall a' ha'
    cases a with
    | interrupted =>
      obtain ⟨e, rest, hdrain⟩ := ih (hrest (Nat.zero_le _)) hroom (show _ < k by omega) got
      exact ⟨e, rest, (drain_interrupted found truncated kind k got _).trans hdrain⟩
    | datagram source bytes =>
      obtain ⟨k, rfl⟩ := Nat.exists_eq_succ_of_ne_zero (show k ≠ 0 by omega)
      by_cases hlen : bytes.length ≤ room
      · have hfits : Platform.windows = .unix ∨ bytes.length ≤ room := .inr hlen
        obtain ⟨tmp', hlength, hdrain⟩ := drain_datagram found truncated kind k got hroom source
          hfits (Arrival.outcomes .windows kind room arrivals)
        obtain ⟨e, rest, hmore⟩ := ih (hrest hlen) hlength (show _ < k by omega)
          (got ++ [found source (bytes.take room)])
        exact ⟨e, rest, hdrain.trans hmore⟩
      · obtain ⟨e, tmp', hread⟩ := recvLoop_overlong found truncated tmp hkind source hlen
          (Arrival.outcomes .windows kind room arrivals)
        refine ⟨e, Arrival.outcomes .windows kind room arrivals, ?_⟩
        have hread : recvLoop found truncated tmp
            (Arrival.outcomes .windows kind room (.datagram source bytes :: arrivals)) =
          .ret (.error e, tmp', Arrival.outcomes .windows kind room arrivals) := hread
        rw [drain, loop, drainTurn, hread]
        rfl

/-- Reading yields what is wanted exactly if no datagram is lost to the error 10040. -/
theorem yields_iff {want : Arrival A → Option R} (hwant : Wants found platform tmp.length want)
    {kind : ErrorKind} (hkind : kind ≠ .other ∧ kind ≠ .wouldBlock ∧ kind ≠ .interrupted)
    (arrivals : List (Arrival A)) :
    Yields (recvLoop found truncated) tmp (Arrival.outcomes platform kind tmp.length arrivals)
        (arrivals.filterMap want) ↔
      platform = .unix ∨ ∀ a ∈ arrivals, a.size ≤ tmp.length := by
  constructor
  · rintro ⟨n, hn⟩
    by_contra hlost
    obtain ⟨hplatform, hlong⟩ := not_or.mp hlost
    have hwindows : platform = .windows := by
      cases platform with
      | unix => exact absurd rfl hplatform
      | windows => rfl
    subst hwindows
    obtain ⟨e, rest, herror⟩ := drain_error found truncated hkind hlong rfl
      (show arrivals.length < n + arrivals.length + 1 by omega) []
    have hret := hn (n + arrivals.length + 1) (by omega)
    change drain found truncated _ _ _ _ = _ at hret
    rw [herror] at hret
    cases hret
  · intro h
    exact ⟨arrivals.length + 1, fun k hk => drain_all found truncated kind hwant h rfl hk []⟩

theorem wants_cut (platform : Platform) (room : Nat) :
    Wants (fun (_ : A) slice => slice) platform room (Arrival.cut room) :=
  ⟨rfl, fun _ _ _ => rfl⟩

theorem wants_cutOrSkipped (platform : Platform) (room : Nat) :
    Wants (fun (addr : A) slice => (addr, slice)) platform room
      (Arrival.cutOrSkipped platform room) := by
  refine ⟨rfl, fun source bytes h => ?_⟩
  cases platform with
  | unix => rfl
  | windows =>
    have hlen : bytes.length ≤ room := h.resolve_left nofun
    simp only [Arrival.cutOrSkipped, if_pos hlen, List.take_of_length_le hlen]

end PacketQueue

/-- **Receiving.** On a socket with any datagrams waiting and any interruptions between
them, `read` and `read_to_vec` of both queues, called until there is no more, yield what
they are to yield exactly if the platform is UNIX or no datagram is longer than the
scratch buffer. -/
theorem udp_receive_iff (Addr : Type) (platform : Platform) (kind : ErrorKind)
    (tmp : List UInt8) (hkind : kind ≠ .other ∧ kind ≠ .wouldBlock ∧ kind ≠ .interrupted) :
    (∀ (q : UdpQueue) (arrivals : List (Arrival Unit)), q.socket.isSome →
      (Yields q.read tmp (Arrival.outcomes platform kind tmp.length arrivals)
          (arrivals.filterMap (Arrival.cut tmp.length)) ↔
        platform = .unix ∨ ∀ a ∈ arrivals, a.size ≤ tmp.length) ∧
      (Yields q.readToVec tmp (Arrival.outcomes platform kind tmp.length arrivals)
          (arrivals.filterMap (Arrival.cut tmp.length)) ↔
        platform = .unix ∨ ∀ a ∈ arrivals, a.size ≤ tmp.length)) ∧
    ∀ (q : UdpServerQueue Addr) (arrivals : List (Arrival Addr)), q.socket.isSome →
      (Yields q.read tmp (Arrival.outcomes platform kind tmp.length arrivals)
          (arrivals.filterMap (Arrival.cutOrSkipped platform tmp.length)) ↔
        platform = .unix ∨ ∀ a ∈ arrivals, a.size ≤ tmp.length) ∧
      (Yields q.readToVec tmp (Arrival.outcomes platform kind tmp.length arrivals)
          (arrivals.filterMap (Arrival.cutOrSkipped platform tmp.length)) ↔
        platform = .unix ∨ ∀ a ∈ arrivals, a.size ≤ tmp.length) := by
  constructor
  · intro q arrivals hsocket
    obtain ⟨socket, hs⟩ := Option.isSome_iff_exists.mp hsocket
    have hread : q.read = recvLoop (fun _ slice => slice) some := by
      funext tmp outcomes
      rw [UdpQueue.read, hs]
    have hvec : q.readToVec = q.read := by
      funext tmp outcomes
      exact toVec_eq _
    rw [hvec, hread]
    have h := yields_iff _ some (wants_cut platform tmp.length) hkind arrivals
    exact ⟨h, h⟩
  · intro q arrivals hsocket
    obtain ⟨socket, hs⟩ := Option.isSome_iff_exists.mp hsocket
    have hread : q.read = recvLoop (fun addr slice => (addr, slice)) fun _ => none := by
      funext tmp outcomes
      rw [UdpServerQueue.read, hs]
    have hvec : q.readToVec = q.read := by
      funext tmp outcomes
      exact toVec_eq _
    rw [hvec, hread]
    have h := yields_iff _ (fun _ => none) (wants_cutOrSkipped platform tmp.length) hkind arrivals
    exact ⟨h, h⟩

/-- Three datagrams of which one is cut short, with an interruption between them. -/
theorem udp_receive_iff_sample :
    Yields (UdpQueue.read { socket := some 0 }) [0, 0]
      (Arrival.outcomes .unix (.unlisted 0) 2
        [.datagram () [1], .interrupted, .datagram () [1, 2, 3], .datagram () [4, 5]])
      [[1], [1, 2], [4, 5]] :=
  (((udp_receive_iff Nat .unix (.unlisted 0) [0, 0] (by decide)).1 { socket := some 0 }
    [.datagram () [1], .interrupted, .datagram () [1, 2, 3], .datagram () [4, 5]] rfl).1).mpr
    (.inl rfl)

/-- On Windows three bytes into a buffer of two: the read fails, for either queue. -/
theorem udp_overlong_error :
    UdpQueue.read { socket := some 0 } [0, 0]
        (Arrival.outcomes .windows (.unlisted 0) 2
          [.datagram () [1, 2, 3], .datagram () [4]]) =
      .ret (.error ⟨.unlisted 0, some 10040⟩, [1, 2],
        Arrival.outcomes .windows (.unlisted 0) 2 [.datagram () [4]]) ∧
    UdpServerQueue.read ({ socket := some 0 } : UdpServerQueue Nat) [0, 0]
        (Arrival.outcomes .windows (.unlisted 0) 2
          [.datagram 7 [1, 2, 3], .datagram 8 [4]]) =
      .ret (.error ⟨.unlisted 0, some 10040⟩, [1, 2],
        Arrival.outcomes .windows (.unlisted 0) 2 [.datagram 8 [4]]) :=
  ⟨rfl, rfl⟩

end StakkerMio
