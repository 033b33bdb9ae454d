import Mathlib.Algebra.Order.Group.Multiset
import Mathlib.Data.List.Perm.Subperm
import Mathlib.Data.Nat.Prime.Basic
import Mathlib.Tactic.Abel
import Mathlib.Tactic.NormNum.Prime
import StakkerMio.Udp.Queue
import StakkerMio.Udp.Receive

/-! # The transfer of the two UDP tests

One actor sends a packet, another waits for it and checks it before it asks for the next.
Calls between the actors are deferred, events come at any time, and the network may delay
or lose packets; a socket that is not connected also gets datagrams from elsewhere. In
every interleaving there is at most one packet on its way, so the checks never fail; and
only a packet that is lost stops the transfer before its end. -/
namespace StakkerMio
open Lib

/-! ## The data -/

/-- The loop of `testdata`; subtracting 1 from 0 panics. -/
def testdataLoop : Nat → Nat → Exec (List UInt8)
  | 0, _ => .ret []
  | n + 1, seed =>
    let next := (seed + 1) * 75 % 65537
    if next = 0 then .panic
    else do
      let out ← testdataLoop n (next - 1)
      .ret (UInt8.ofNat seed :: out)

/-- The cast of `len * 19` to `u32` makes no difference to the lower 16 bits. -/
def testdata (len seed : Nat) : Exec (List UInt8) :=
  testdataLoop len ((seed ^^^ (len * 19)) &&& 0xFFFF)

/-- The generator never comes to zero, because its modulus is prime. -/
theorem testdataLoop_ret (n : Nat) {seed : Nat} (h : seed < 65536) :
    ∃ out, testdataLoop n seed = .ret out ∧ out.length = n := by
  induction n generalizing seed with
  | zero => exact ⟨[], rfl, rfl⟩
  | succ n ih =>
    have hprime : Nat.Prime 65537 := by norm_num
    have hnext : (seed + 1) * 75 % 65537 ≠ 0 := by
      intro hzero
      rcases hprime.dvd_mul.mp (Nat.dvd_of_mod_eq_zero hzero) with hdvd | hdvd
      · have hle := Nat.le_of_dvd (Nat.succ_pos seed) hdvd
        omega
      · have hle := Nat.le_of_dvd (by omega) hdvd
        omega
    have hlt := Nat.mod_lt ((seed + 1) * 75) (show 65537 > 0 by omega)
    obtain ⟨out, hout, hlength⟩ := ih (show (seed + 1) * 75 % 65537 - 1 < 65536 by omega)
    refine ⟨UInt8.ofNat seed :: out, ?_, congrArg Nat.succ hlength⟩
    simp only [testdataLoop, if_neg hnext, hout, Exec.ret_bind]

theorem testdata_ret (len seed : Nat) : ∃ out, testdata len seed = .ret out ∧ out.length = len :=
  testdataLoop_ret len (Nat.lt_succ_of_le Nat.and_le_right)

/-! ## The actors -/

/-- Why an actor has ended; the test ends with it. -/
inductive StopCause where
  | stopped
  | failed (text : String) (e : Error)
  deriving DecidableEq

/-- A deferred call. -/
inductive TestCall where
  | nextPacket
  | sendData (data : List UInt8)
  deriving DecidableEq

/-- What the tests differ in. `P` is what the sender queues and `R` what the receiver
reads; `A` comes with a datagram. -/
structure UdpTest (P A R : Type) where
  /-- `TEST_SIZES` -/
  sizes : List Nat
  /-- What `send_data` pushes. -/
  packet : List UInt8 → P
  size : P → Nat
  flush : PacketQueue P → List (Result Nat) → Exec (Flushed P)
  read : List UInt8 → List (Received A) → Exec (ReadPacket A R)
  /-- The checks on what was read, given what is expected, and whether it was the packet
  expected. -/
  check : Option (List UInt8) → R → Exec Bool
  /-- What arrives of a packet. -/
  arrival : P → Arrival A
  /-- What else may come to the receiver. -/
  elsewhere : Arrival A → Bool

/-- `Receiver` and `Sender`, with what is between them. `matched` are the packets that were
as expected. -/
structure Transfer (P A : Type) where
  nextIndex : Nat := 0
  expecting : Option (List UInt8) := none
  calls : List TestCall := [.nextPacket]
  queue : PacketQueue P := PacketQueue.new.init 0
  network : List P := []
  /-- At the receiver's socket: packets, and what else has come. -/
  arrived : List (P ⊕ Arrival A) := []
  ended : Option StopCause := none
  matched : List (List UInt8) := []

/-- What may happen next; the outcomes are those of the sends. -/
inductive TestOp (A : Type) where
  /-- The first of the deferred calls is made. -/
  | call (outcomes : List (Result Nat))
  /-- `Sender::ready` -/
  | writable (outcomes : List (Result Nat))
  /-- `Receiver::ready` -/
  | readable
  | arrive
  | lose
  | other (a : Arrival A)

namespace UdpTest
variable {P A R : Type} (T : UdpTest P A R) (platform : Platform) (kind : ErrorKind)

/-- `Receiver::next_packet` -/
def nextPacket (s : Transfer P A) : Exec (Transfer P A) :=
  match T.sizes[s.nextIndex]? with
  | none => .ret { s with ended := some .stopped }
  | some size => do
    let data ← testdata size s.nextIndex
    .ret { s with
      nextIndex := s.nextIndex + 1
      calls := s.calls ++ [.sendData data]
      expecting := some data }

/-- `Sender::flush`; what the socket accepts is on the network. -/
def senderFlush (s : Transfer P A) (outcomes : List (Result Nat)) : Exec (Transfer P A) := do
  let f ← T.flush s.queue outcomes
  .ret { s with
    queue := { s.queue with out := f.out }
    network := s.network ++ PacketQueue.accepted T.size f.sends
    ended := match f.rv with
      | .error e => some (.failed "Failed to flush queue: " e)
      | .ok () => s.ended }

/-- `Sender::send_data` -/
def sendData (s : Transfer P A) (data : List UInt8) (outcomes : List (Result Nat)) :
    Exec (Transfer P A) :=
  T.senderFlush { s with queue := s.queue.push (T.packet data) } outcomes

/-- `Receiver::ready_aux`, with what becomes of an error in `ready`. -/
def readyAux : Nat → List UInt8 → List (Received A) → Transfer P A → Exec (Transfer P A)
  | 0, _, _, _ => .fuel
  | fuel + 1, buf, outcomes, s => do
    let (rv, buf, outcomes) ← T.read buf outcomes
    match rv with
    | .error e => .ret { s with ended := some (.failed "Read packet failed: " e) }
    | .ok none => .ret s
    | .ok (some slice) =>
      if ← T.check s.expecting slice then do
        let s ← T.nextPacket { s with
          expecting := none
          matched := s.matched ++ s.expecting.toList }
        readyAux fuel buf outcomes s
      else readyAux fuel buf outcomes s

/-- What the socket has for the receiver. -/
def arrivals (arrived : List (P ⊕ Arrival A)) : List (Arrival A) :=
  arrived.map (Sum.elim T.arrival id)

def step (s : Transfer P A) (op : TestOp A) : Exec (Transfer P A) :=
  if s.ended.isSome then .ret s else
  match op with
  | .call outcomes =>
    match s.calls with
    | [] => .ret s
    | .nextPacket :: calls => T.nextPacket { s with calls := calls }
    | .sendData data :: calls => T.sendData { s with calls := calls } data outcomes
  | .writable outcomes => T.senderFlush s outcomes
  | .readable => T.readyAux (s.arrived.length + 1) (List.replicate 1024 0)
      (Arrival.outcomes platform kind 1024 (T.arrivals s.arrived)) { s with arrived := [] }
  | .arrive =>
    match s.network with
    | [] => .ret s
    | pk :: network => .ret { s with network := network, arrived := s.arrived ++ [.inl pk] }
  | .lose => .ret { s with network := s.network.tail }
  | .other a => if T.elsewhere a then .ret { s with arrived := s.arrived ++ [.inr a] } else .ret s

abbrev runs (s : Transfer P A) (ops : List (TestOp A)) : Exec (Transfer P A) :=
  Lib.run (T.step platform kind) s ops

end UdpTest

/-! ## The two tests -/

namespace UdpTest

/-- `test_udp`: the sockets are connected, and some packets are longer than the receive
buffer. -/
def udp : UdpTest (List UInt8) Unit (List UInt8) where
  sizes := [999, 100, 1234, 410, 600, 2000, 751]
  packet data := data
  size := List.length
  flush := UdpQueue.flush
  read := UdpQueue.read (PacketQueue.new.init 1)
  check expecting slice :=
    match expecting with
    | some exp => if exp.take (min exp.length 1024) = slice then .ret true else .panic
    | none => .panic
  arrival data := .datagram () data
  elsewhere
    | .interrupted => true
    | .datagram _ _ => false

variable {Addr : Type} [DecidableEq Addr]

/-- `test_udpserver`: the sockets are not connected, and datagrams of other sources are
passed over. -/
def udpserver (sendAddr recvAddr : Addr) :
    UdpTest (Addr × List UInt8) Addr (Addr × List UInt8) where
  sizes := [999, 100, 1023, 410, 600, 200, 751]
  packet data := (recvAddr, data)
  size pk := pk.2.length
  flush := UdpServerQueue.flush
  read := UdpServerQueue.read (PacketQueue.new.init 1)
  check
    | expecting, (addr, slice) =>
      if addr ≠ sendAddr then .ret false
      else match expecting with
        | some exp =>
          if slice.length = 1024 then .panic
          else if exp = slice then .ret true else .panic
        | none => .panic
  arrival pk := .datagram sendAddr pk.2
  elsewhere
    | .interrupted => true
    | .datagram source _ => source ≠ sendAddr

/-! ## Receiving -/

/-- What comes of the reads and the checks. -/
structure Checks {P A R : Type} (T : UdpTest P A R) (platform : Platform) (kind : ErrorKind) :
    Prop where
  flush : T.flush = PacketQueue.flush T.size
  blocked (buf : List UInt8) :
    T.read buf [Arrival.blocked] = .ret (.ok none, buf, [])
  /-- A packet that is expected is read and passes, or the read fails. -/
  expected {data buf : List UInt8} (hdata : data.length ∈ T.sizes) (hbuf : buf.length = 1024)
    (rest : List (Received A)) :
    (∃ slice buf', buf'.length = 1024 ∧ T.check (some data) slice = .ret true ∧
      T.read buf ((T.arrival (T.packet data)).recv platform kind 1024 :: rest) =
        .ret (.ok (some slice), buf', rest)) ∨
    ∃ e buf', T.read buf ((T.arrival (T.packet data)).recv platform kind 1024 :: rest) =
      .ret (.error e, buf', rest)
  /-- What comes from elsewhere is passed over, or the read fails. -/
  other {a : Arrival A} {buf : List UInt8} (ha : T.elsewhere a = true) (hbuf : buf.length = 1024)
    (rest : List (Received A)) :
    T.read buf (a.recv platform kind 1024 :: rest) = T.read buf rest ∨
    (∃ slice buf', buf'.length = 1024 ∧ (∀ expecting, T.check expecting slice = .ret false) ∧
      T.read buf (a.recv platform kind 1024 :: rest) = .ret (.ok (some slice), buf', rest)) ∨
    ∃ e buf', T.read buf (a.recv platform kind 1024 :: rest) = .ret (.error e, buf', rest)

section Receive
variable {A R : Type} (found : A → List UInt8 → R) (truncated : List UInt8 → Option R)
  {platform : Platform} {kind : ErrorKind}

/-- A datagram is found, up to the length of the buffer, or the read fails. -/
theorem recvLoop_either (hkind : kind ≠ .other ∧ kind ≠ .wouldBlock ∧ kind ≠ .interrupted)
    {buf : List UInt8} (hbuf : buf.length = 1024) (source : A) (bytes : List UInt8)
    (rest : List (Received A)) :
    (∃ buf', buf'.length = 1024 ∧ PacketQueue.recvLoop found truncated buf
        ((Arrival.datagram source bytes).recv platform kind 1024 :: rest) =
      .ret (.ok (some (found source (bytes.take 1024))), buf', rest)) ∨
    ∃ e buf', PacketQueue.recvLoop found truncated buf
        ((Arrival.datagram source bytes).recv platform kind 1024 :: rest) =
      .ret (.error e, buf', rest) := by
  by_cases hfits : platform = .unix ∨ bytes.length ≤ 1024
  · exact .inl (PacketQueue.recvLoop_datagram found truncated kind hbuf source hfits rest)
  · obtain ⟨hplatform, hlong⟩ := not_or.mp hfits
    cases platform with
    | unix => exact absurd rfl hplatform
    | windows =>
      exact .inr (PacketQueue.recvLoop_overlong found truncated buf hkind source hlong rest)

end Receive

theorem udp_checks (platform : Platform) {kind : ErrorKind}
    (hkind : kind ≠ .other ∧ kind ≠ .wouldBlock ∧ kind ≠ .interrupted) :
    udp.Checks platform kind where
  flush := rfl
  blocked buf := rfl
  expected {data buf} hdata hbuf rest := by
    rcases recvLoop_either (fun (_ : Unit) slice => slice) some hkind hbuf () data rest with
      ⟨buf', hbuf', hread⟩ | hfailed
    · refine .inl ⟨data.take 1024, buf', hbuf', ?_, hread⟩
      have htake : data.take (min data.length 1024) = data.take 1024 := by
        rw [Nat.min_comm, ← List.take_take, List.take_length]
      exact if_pos htake
    · exact .inr hfailed
  other {a buf} ha hbuf rest := by
    cases a with
    | interrupted => exact .inl rfl
    | datagram source bytes => cases ha

theorem udpserver_checks (sendAddr recvAddr : Addr) (platform : Platform) {kind : ErrorKind}
    (hkind : kind ≠ .other ∧ kind ≠ .wouldBlock ∧ kind ≠ .interrupted) :
    (udpserver sendAddr recvAddr).Checks platform kind where
  flush := rfl
  blocked buf := rfl
  expected {data buf} hdata hbuf rest := by
    have hshort : data.length < 1024 := by
      have hall : ∀ n ∈ [999, 100, 1023, 410, 600, 200, 751], n < 1024 := by decide
      exact hall _ hdata
    rcases recvLoop_either (fun (addr : Addr) slice => (addr, slice)) (fun _ => none) hkind hbuf
      sendAddr data rest with ⟨buf', hbuf', hread⟩ | hfailed
    · rw [List.take_of_length_le (Nat.le_of_lt hshort)] at hread
      refine .inl ⟨(sendAddr, data), buf', hbuf', ?_, hread⟩
      simp only [udpserver, ne_eq, not_true_eq_false, if_false]
      rw [if_neg (Nat.ne_of_lt hshort), if_pos trivial]
    · exact .inr hfailed
  other {a buf} ha hbuf rest := by
    cases a with
    | interrupted => exact .inl rfl
    | datagram source bytes =>
      have hne : source ≠ sendAddr := of_decide_eq_true ha
      rcases recvLoop_either (fun (addr : Addr) slice => (addr, slice)) (fun _ => none) hkind hbuf
        source bytes rest with ⟨buf', hbuf', hread⟩ | hfailed
      · exact .inr (.inl ⟨(source, bytes.take 1024), buf', hbuf', fun _ => if_pos hne, hread⟩)
      · exact .inr (.inr hfailed)

/-! ## At most one packet on its way -/

section Invariant
variable {P A R : Type} (T : UdpTest P A R)

/-- The packets of the test, in order. -/
def packets : List (Exec (List UInt8)) := T.sizes.zipIdx.map fun (size, i) => testdata size i

/-- What the call sends. -/
def called : TestCall → Option P
  | .nextPacket => none
  | .sendData data => some (T.packet data)

/-- The packets on their way: in a call, in the queue, on the network or at the socket. -/
def underway (s : Transfer P A) : List P :=
  s.calls.filterMap T.called ++ s.queue.out ++ s.network ++ s.arrived.filterMap Sum.getLeft?

/-- The packet that is expected. -/
def due (s : Transfer P A) : List P := s.expecting.toList.map T.packet

/-- `kept` says that nothing was lost. -/
structure Inv (kept : Prop) (s : Transfer P A) : Prop where
  socket : s.queue.socket.isSome
  sent : (s.matched ++ s.expecting.toList).map .ret = T.packets.take s.nextIndex
  size : ∀ data, s.expecting = some data → data.length ∈ T.sizes
  underway : (T.underway s).Subperm (T.due s)
  kept : kept → s.ended = none → (T.underway s).Perm (T.due s)
  first : (s.calls = [.nextPacket] ∧ s.expecting = none) ∨ .nextPacket ∉ s.calls
  live : s.ended = none → s.calls = [.nextPacket] ∨ s.expecting.isSome
  stopped : s.ended = some .stopped → s.expecting = none ∧ T.sizes.length ≤ s.nextIndex
  other : ∀ a, .inr a ∈ s.arrived → T.elsewhere a = true

end Invariant

variable {P A R : Type} {T : UdpTest P A R} {platform : Platform} {kind : ErrorKind} {kept : Prop}
  {s t : Transfer P A}

theorem Inv.start : T.Inv kept {} where
  socket := rfl
  sent := rfl
  size data hdata := by cases hdata
  underway := List.Subperm.refl _
  kept _ _ := List.Perm.refl _
  first := .inl ⟨rfl, rfl⟩
  live _ := .inl rfl
  stopped hended := by cases hended
  other a ha := by cases ha

/-- No packet is expected, and the next one is about to be asked for. -/
structure Idle (T : UdpTest P A R) (s : Transfer P A) : Prop where
  socket : s.queue.socket.isSome
  sent : s.matched.map .ret = T.packets.take s.nextIndex
  expecting : s.expecting = none
  underway : T.underway s = []
  calls : .nextPacket ∉ s.calls
  ended : s.ended ≠ some .stopped
  other : ∀ a, .inr a ∈ s.arrived → T.elsewhere a = true

theorem Idle.nextPacket (h : T.Idle s) : ∃ t, T.nextPacket s = .ret t ∧ T.Inv kept t := by
  have hnone := h.expecting
  unfold UdpTest.nextPacket
  cases hsize : T.sizes[s.nextIndex]? with
  | none =>
    -- All packets have been checked.
    refine ⟨_, rfl, h.socket, ?_, fun data hdata => ?_, ?_, fun _ hended => ?_, .inr h.calls,
      fun hended => ?_, fun _ => ⟨hnone, List.getElem?_eq_none_iff.mp hsize⟩, h.other⟩
    · simpa [hnone] using h.sent
    · cases hnone.symm.trans hdata
    · exact (congrArg (List.Subperm · _) h.underway).mpr (List.nil_subperm)
    · cases hended
    · cases hended
  | some size =>
    obtain ⟨data, hdata, hlength⟩ := testdata_ret size s.nextIndex
    obtain ⟨hlt, hget⟩ := List.getElem?_eq_some_iff.mp hsize
    dsimp only
    rw [hdata, Exec.ret_bind]
    have hnow : T.underway { s with
        nextIndex := s.nextIndex + 1
        calls := s.calls ++ [.sendData data]
        expecting := some data } = [T.packet data] := by
      have hunderway := h.underway
      simp only [UdpTest.underway, List.append_eq_nil_iff] at hunderway ⊢
      obtain ⟨⟨⟨hc, hq⟩, hn⟩, ha⟩ := hunderway
      rw [List.filterMap_append, hc, hq, hn, ha]
      rfl
    refine ⟨_, rfl, h.socket, ?_, fun data' hdata' => ?_, ?_, fun _ _ => ?_, ?_, fun _ => .inr rfl,
      fun hended => absurd hended h.ended, h.other⟩
    · have hpacket : T.packets[s.nextIndex]? = some (.ret data) := by
        rw [packets, List.getElem?_map, List.getElem?_zipIdx, hsize]
        simp [hdata]
      rw [List.take_add_one, hpacket, ← h.sent]
      simp
    · cases hdata'
      rw [hlength, ← hget]
      exact List.getElem_mem hlt
    · rw [hnow]
      exact List.Subperm.refl _
    · rw [hnow]
      exact List.Perm.refl _
    · exact .inr (by simpa using h.calls)

/-- Packets move on or are lost; what is expected stays as it is. -/
structure Moves (T : UdpTest P A R) (s t : Transfer P A) : Prop where
  nextIndex : t.nextIndex = s.nextIndex
  expecting : t.expecting = s.expecting
  matched : t.matched = s.matched
  socket : t.queue.socket = s.queue.socket
  underway : (T.underway t).Subperm (T.underway s)
  calls : t.calls = s.calls ∨ ∃ data, s.calls = .sendData data :: t.calls
  ended : t.ended = s.ended ∨ ∃ text e, t.ended = some (.failed text e)
  other : ∀ a, .inr a ∈ t.arrived → T.elsewhere a = true

theorem Inv.moves (h : T.Inv kept s) (hm : T.Moves s t)
    (hkept : kept → t.ended = none → (T.underway t).Perm (T.underway s)) : T.Inv kept t := by
  have hdue : T.due t = T.due s := by rw [due, due, hm.expecting]
  have hopen (hended : t.ended = none) : s.ended = none := by
    rcases hm.ended with hsame | ⟨text, e, hfailed⟩
    · rw [← hsame, hended]
    · rw [hfailed] at hended
      cases hended
  refine ⟨?_, ?_, ?_, ?_, fun hk hended => ?_, ?_, fun hended => ?_, fun hended => ?_, hm.other⟩
  · rw [hm.socket]
    exact h.socket
  · rw [hm.matched, hm.expecting, hm.nextIndex]
    exact h.sent
  · rw [hm.expecting]
    exact h.size
  · rw [hdue]
    exact hm.underway.trans h.underway
  · rw [hdue]
    exact (hkept hk hended).trans (h.kept hk (hopen hended))
  · rw [hm.expecting]
    rcases hm.calls with hsame | ⟨data, hcalls⟩
    · rw [hsame]
      exact h.first
    · refine .inr fun hmem => ?_
      rcases h.first with ⟨hfirst, -⟩ | hnone
      · rw [hfirst] at hcalls
        cases hcalls
      · rw [hcalls] at hnone
        exact hnone (List.mem_cons_of_mem _ hmem)
  · rw [hm.expecting]
    rcases h.live (hopen hended) with hfirst | hsome
    · rcases hm.calls with hsame | ⟨data, hcalls⟩
      · exact .inl (hsame.trans hfirst)
      · rw [hfirst] at hcalls
        cases hcalls
    · exact .inr hsome
  · rw [hm.expecting, hm.nextIndex]
    rcases hm.ended with hsame | ⟨text, e, hfailed⟩
    · exact h.stopped (hsame.symm.trans hended)
    · rw [hfailed] at hended
      cases hended

end UdpTest

/-! ## Sending -/

namespace PacketQueue
variable {P : Type} {size : P → Nat}

theorem sendLoop_over (pk : P) (outcomes : List (Result Nat)) :
    (sendLoop size pk outcomes).Over := by
  induction outcomes with
  | nil => exact .inl rfl
  | cons r outcomes ih =>
    unfold sendLoop
    split
    · exact ih.bind fun _ => .inr ⟨_, rfl⟩
    · exact .inr ⟨_, rfl⟩

theorem flushLoop_over (out : List P) (outcomes : List (Result Nat)) :
    (flushLoop size out outcomes).Over := by
  induction out generalizing outcomes with
  | nil => exact .inr ⟨_, rfl⟩
  | cons pk out ih =>
    refine (sendLoop_over pk outcomes).bind fun a => ?_
    obtain ⟨rv, sends, rest⟩ := a
    cases rv with
    | some rv => exact .inr ⟨_, rfl⟩
    | none => exact (ih rest).bind fun _ => .inr ⟨_, rfl⟩

theorem flush_over (q : PacketQueue P) (outcomes : List (Result Nat)) :
    (flush size q outcomes).Over := by
  unfold flush
  split
  · exact .inr ⟨_, rfl⟩
  · exact flushLoop_over q.out outcomes

/-- A packet that is gone was not accepted: the flush failed, or a send would have blocked. -/
theorem flush_lost {q : PacketQueue P} {outcomes : List (Result Nat)} {f : Flushed P}
    (h : flush size q outcomes = .ret f) (hsocket : q.socket.isSome) :
    ∃ lost, q.out = accepted size f.sends ++ lost ++ f.out ∧
      (lost = [] ∨ (∃ e, f.rv = .error e) ∨ outcomes.any isWouldBlock = true) := by
  obtain ⟨houtcomes, hended⟩ := flush_ended h hsocket
  cases hended with
  | emptied hout hnil hrv hf => exact ⟨[], by simp [← hout, hnil], .inl rfl⟩
  | failed pk hout hfailed hf =>
    refine ⟨[pk], by simpa using hout, .inr (.inl ?_)⟩
    cases hrv : f.rv with
    | ok u => simp [failedOf, hrv] at hfailed
    | error e => exact ⟨e, rfl⟩
  | blocked pk r hout hrv hlast hr =>
    refine ⟨[pk], by simpa using hout, .inr (.inr ?_)⟩
    rw [houtcomes, List.any_append, List.any_map, Bool.or_eq_true]
    exact .inl (List.any_eq_true.mpr ⟨(pk, r), List.mem_of_getLast? hlast, hr⟩)

end PacketQueue

/-- Whether a packet is lost: on the network, or by a send that would block. -/
def TestOp.loses {A : Type} : TestOp A → Bool
  | .call outcomes | .writable outcomes => outcomes.any isWouldBlock
  | .lose => true
  | _ => false

namespace UdpTest
variable {P A R : Type} {T : UdpTest P A R} {platform : Platform} {kind : ErrorKind} {kept : Prop}
  {s t : Transfer P A}

/-- The sender gives packets to the network, from a state in which they are in the queue. -/
theorem Inv.senderFlush (hT : T.Checks platform kind) (h : T.Inv kept s)
    {outcomes : List (Result Nat)} (hop : kept → outcomes.any isWouldBlock = false) :
    T.senderFlush s outcomes = .wait ∨ ∃ t, T.senderFlush s outcomes = .ret t ∧ T.Inv kept t := by
  unfold UdpTest.senderFlush
  rw [hT.flush]
  rcases PacketQueue.flush_over s.queue outcomes with hw | ⟨f, hf⟩
  · rw [hw]
    exact .inl rfl
  rw [hf, Exec.ret_bind]
  obtain ⟨lost, hout, hlost⟩ := PacketQueue.flush_lost hf h.socket
  refine .inr ⟨_, rfl, ?_⟩
  have hperm : (T.underway { s with
      queue := { s.queue with out := f.out }
      network := s.network ++ PacketQueue.accepted T.size f.sends } ++ lost).Perm
        (T.underway s) := by
    simp only [UdpTest.underway, hout]
    rw [← Multiset.coe_eq_coe]
    simp only [← Multiset.coe_add]
    abel
  have hsub := (List.sublist_append_left _ lost).subperm.trans hperm.subperm
  refine h.moves ⟨rfl, rfl, rfl, rfl, hsub, .inl rfl, ?_, h.other⟩ fun hk hended => ?_
  · cases hrv : f.rv with
    | ok u => exact .inl rfl
    | error e => exact .inr ⟨_, e, rfl⟩
  · rcases hlost with rfl | ⟨e, he⟩ | hblocked
    · rwa [List.append_nil] at hperm
    · dsimp only at hended
      rw [he] at hended
      cases hended
    · rw [hop hk] at hblocked
      cases hblocked

/-! ## The loop of the receiver -/

/-- `next_packet` does not look at the socket. -/
theorem nextPacket_arrived (s : Transfer P A) (rest : List (P ⊕ Arrival A)) :
    T.nextPacket { s with arrived := rest } =
      (fun t => { t with arrived := rest }) <$> T.nextPacket s := by
  unfold UdpTest.nextPacket
  dsimp only
  split
  · rfl
  · cases testdata _ s.nextIndex <;> rfl

theorem Idle.nextPacket_at {rest : List (P ⊕ Arrival A)}
    (h : T.Idle { s with arrived := rest }) : ∃ t, T.nextPacket s = .ret t ∧
      t.arrived = s.arrived ∧ T.Inv kept { t with arrived := rest } := by
  obtain ⟨t', ht', hinv⟩ : ∃ t', T.nextPacket { s with arrived := rest } = .ret t' ∧
      T.Inv kept t' := h.nextPacket
  rw [nextPacket_arrived] at ht'
  obtain ⟨t, ht, rfl⟩ := Exec.map_eq_ret.mp ht'
  have harrived : t.arrived = s.arrived := by
    obtain ⟨t', ht', hsame⟩ :=
      Exec.map_eq_ret.mp ((nextPacket_arrived s s.arrived).symm.trans ht)
    cases ht'.symm.trans ht
    rw [← hsame]
  exact ⟨t, ht, harrived, hinv⟩

/-- What is at the socket is the only packet on its way, and the one that is expected. -/
theorem Inv.head {pk : P} {rest : List (P ⊕ Arrival A)} (h : T.Inv kept s)
    (hs : s.arrived = .inl pk :: rest) : (∃ data, s.expecting = some data ∧ pk = T.packet data) ∧
      T.underway { s with arrived := rest } = [] := by
  have hsub := h.underway
  have hmem : pk ∈ T.underway s := by
    rw [UdpTest.underway, hs]
    exact List.mem_append_right _ List.mem_cons_self
  cases hexp : s.expecting with
  | none =>
    rw [due, hexp] at hsub
    cases hsub.subset hmem
  | some data =>
    rw [due, hexp] at hsub
    have hpk : pk = T.packet data := List.mem_singleton.mp (hsub.subset hmem)
    refine ⟨⟨data, rfl, hpk⟩, List.length_eq_zero_iff.mp ?_⟩
    have hle : (T.underway s).length ≤ 1 := hsub.length_le
    simp only [UdpTest.underway, hs, List.filterMap_cons, Sum.getLeft?_inl,
      List.length_append, List.length_cons] at hle ⊢
    omega

/-- After it is taken from the socket the receiver expects nothing. -/
theorem Inv.take {pk : P} {rest : List (P ⊕ Arrival A)} (h : T.Inv kept s)
    (hs : s.arrived = .inl pk :: rest) :
    T.Idle { s with
      expecting := none
      matched := s.matched ++ s.expecting.toList
      arrived := rest } := by
  obtain ⟨⟨data, hexp, -⟩, hunderway⟩ := h.head hs
  refine ⟨h.socket, ?_, rfl, hunderway, ?_, fun hended => ?_, fun a ha => h.other a ?_⟩
  · exact h.sent
  · rcases h.first with ⟨-, hnone⟩ | hcalls
    · cases hnone.symm.trans hexp
    · exact hcalls
  · cases (h.stopped hended).1.symm.trans hexp
  · rw [hs]
    exact List.mem_cons_of_mem _ ha

/-- A read that fails ends the test. -/
theorem Inv.fails (h : T.Inv kept s) (e : Error) :
    T.Inv kept { s with
      arrived := []
      ended := some (.failed "Read packet failed: " e) } := by
  refine h.moves ⟨rfl, rfl, rfl, rfl, ?_, .inl rfl, .inr ⟨_, e, rfl⟩, fun a ha => ?_⟩
    fun _ hended => ?_
  · simp only [UdpTest.underway, List.filterMap_nil, List.append_nil]
    exact (List.sublist_append_left _ _).subperm
  · cases ha
  · cases hended

/-- What comes from elsewhere is dropped. -/
theorem Inv.drop {a : Arrival A} {rest : List (P ⊕ Arrival A)} (h : T.Inv kept s)
    (hs : s.arrived = .inr a :: rest) : T.Inv kept { s with arrived := rest } := by
  have hsame : T.underway { s with arrived := rest } = T.underway s := by
    simp [UdpTest.underway, hs, List.filterMap_cons]
  refine h.moves ⟨rfl, rfl, rfl, rfl, ?_, .inl rfl, .inl rfl, fun a' ha => h.other a' ?_⟩
    fun _ _ => ?_
  · rw [hsame]
  · rw [hs]
    exact List.mem_cons_of_mem _ ha
  · rw [hsame]

section Turns
variable {buf buf' : List UInt8} {outcomes rest : List (Received A)} {slice : R}

/-- The turns of the loop, by what was read. -/
theorem readyAux_failed {e : Error} (h : T.read buf outcomes = .ret (.error e, buf', rest))
    (fuel : Nat) : T.readyAux (fuel + 1) buf outcomes s =
      .ret { s with ended := some (.failed "Read packet failed: " e) } := by
  rw [UdpTest.readyAux, h]
  rfl

theorem readyAux_none (h : T.read buf outcomes = .ret (.ok none, buf', rest)) (fuel : Nat) :
    T.readyAux (fuel + 1) buf outcomes s = .ret s := by
  rw [UdpTest.readyAux, h]
  rfl

theorem readyAux_other (h : T.read buf outcomes = .ret (.ok (some slice), buf', rest))
    (hcheck : T.check s.expecting slice = .ret false) (fuel : Nat) :
    T.readyAux (fuel + 1) buf outcomes s = T.readyAux fuel buf' rest s := by
  rw [UdpTest.readyAux, h, Exec.ret_bind]
  dsimp only
  rw [hcheck, Exec.ret_bind]
  rfl

theorem readyAux_packet (h : T.read buf outcomes = .ret (.ok (some slice), buf', rest))
    (hcheck : T.check s.expecting slice = .ret true) {m : Transfer P A}
    (hm : T.nextPacket { s with
      expecting := none
      matched := s.matched ++ s.expecting.toList } = .ret m) (fuel : Nat) :
    T.readyAux (fuel + 1) buf outcomes s = T.readyAux fuel buf' rest m := by
  rw [UdpTest.readyAux, h, Exec.ret_bind]
  dsimp only
  rw [hcheck, Exec.ret_bind, if_pos rfl, hm]
  rfl

end Turns

/-- The loop ends, and no check fails. -/
theorem Inv.readyAux (hT : T.Checks platform kind) {rest : List (P ⊕ Arrival A)}
    (h : T.Inv kept { s with arrived := rest }) (hs : s.arrived = []) {buf : List UInt8}
    (hbuf : buf.length = 1024) {fuel : Nat} (hfuel : rest.length < fuel) :
    ∃ t, T.readyAux fuel buf (Arrival.outcomes platform kind 1024 (T.arrivals rest)) s = .ret t ∧
      T.Inv kept t := by
  obtain ⟨fuel, rfl⟩ := Nat.exists_eq_succ_of_ne_zero (show fuel ≠ 0 by omega)
  induction rest generalizing s buf fuel with
  | nil =>
    have hread : T.read buf (Arrival.outcomes platform kind 1024 (T.arrivals [])) = _ :=
      hT.blocked buf
    refine ⟨s, readyAux_none hread fuel, ?_⟩
    rwa [← hs] at h
  | cons a rest ih =>
    have hrest : rest.length < fuel := Nat.lt_of_succ_lt_succ hfuel
    have hfails (e : Error) :
        T.Inv kept { s with ended := some (.failed "Read packet failed: " e) } := by
      have hfails := h.fails e
      rwa [← hs] at hfails
    cases a with
    | inl pk =>
      obtain ⟨⟨data, hexp, rfl⟩, -⟩ := h.head rfl
      have hexp : s.expecting = some data := hexp
      rcases hT.expected (h.size data hexp) hbuf
        (Arrival.outcomes platform kind 1024 (T.arrivals rest)) with
        ⟨slice, buf', hbuf', hcheck, hread⟩ | ⟨e, buf', hread⟩
      · -- The packet expected: the next one is asked for.
        obtain ⟨fuel, rfl⟩ := Nat.exists_eq_succ_of_ne_zero (show fuel ≠ 0 by omega)
        have htake : T.Idle { s with
            expecting := none
            matched := s.matched ++ s.expecting.toList
            arrived := rest } := h.take rfl
        obtain ⟨m, hm, harrived, hinv⟩ : ∃ m, T.nextPacket { s with
            expecting := none
            matched := s.matched ++ s.expecting.toList } = .ret m ∧ m.arrived = s.arrived ∧
              T.Inv kept { m with arrived := rest } := htake.nextPacket_at
        obtain ⟨t, ht, hinv⟩ := ih hinv (harrived.trans hs) hbuf' fuel hrest
        exact ⟨t, (readyAux_packet hread (hexp ▸ hcheck) hm _).trans ht, hinv⟩
      · exact ⟨_, readyAux_failed hread fuel, hfails e⟩
    | inr a =>
      have ha := h.other a List.mem_cons_self
      have hdrop : T.Inv kept { s with arrived := rest } := h.drop rfl
      rcases hT.other ha hbuf (Arrival.outcomes platform kind 1024 (T.arrivals rest)) with
        hread | ⟨slice, buf', hbuf', hcheck, hread⟩ | ⟨e, buf', hread⟩
      · obtain ⟨t, ht, hinv⟩ := ih hdrop hs hbuf fuel (by omega)
        refine ⟨t, ?_, hinv⟩
        have hread : T.read buf (Arrival.outcomes platform kind 1024
            (T.arrivals (.inr a :: rest))) = _ := hread
        rw [← ht, UdpTest.readyAux, UdpTest.readyAux, hread]
      · obtain ⟨fuel, rfl⟩ := Nat.exists_eq_succ_of_ne_zero (show fuel ≠ 0 by omega)
        obtain ⟨t, ht, hinv⟩ := ih hdrop hs hbuf' fuel hrest
        exact ⟨t, (readyAux_other hread (hcheck _) _).trans ht, hinv⟩
      · exact ⟨_, readyAux_failed hread fuel, hfails e⟩

/-! ## Whole runs -/

/-- The first call is made: nothing was sent before it. -/
theorem Inv.begin (h : T.Inv kept s) {calls : List TestCall}
    (hcalls : s.calls = .nextPacket :: calls) (hopen : s.ended = none) :
    T.Idle { s with calls := calls } := by
  obtain ⟨honly, hnone⟩ : s.calls = [.nextPacket] ∧ s.expecting = none := by
    rcases h.first with hfirst | hfirst
    · exact hfirst
    · rw [hcalls] at hfirst
      exact absurd List.mem_cons_self hfirst
  have hnil : calls = [] := by
    rw [honly] at hcalls
    injection hcalls with _ hnil
    exact hnil.symm
  have hsent := h.sent
  have hunderway := h.underway
  rw [hnone, Option.toList_none, List.append_nil] at hsent
  rw [due, hnone] at hunderway
  have hunderway := List.subperm_nil.mp hunderway
  refine ⟨h.socket, hsent, hnone, ?_, ?_, ?_, h.other⟩
  · simpa [UdpTest.underway, honly, hnil, called] using hunderway
  · rw [hnil]
    exact List.not_mem_nil
  · intro hended
    cases hopen.symm.trans hended

/-- A packet goes from the call to the queue. -/
theorem Inv.push (h : T.Inv kept s) {data : List UInt8} {calls : List TestCall}
    (hcalls : s.calls = .sendData data :: calls) : T.Inv kept { s with
      calls := calls
      queue := s.queue.push (T.packet data) } := by
  have hsame : (T.underway { s with
      calls := calls
      queue := s.queue.push (T.packet data) }).Perm (T.underway s) := by
    have hcalled : s.calls.filterMap T.called = [T.packet data] ++ calls.filterMap T.called := by
      rw [hcalls]
      rfl
    simp only [UdpTest.underway, hcalled, PacketQueue.push]
    rw [← Multiset.coe_eq_coe]
    simp only [← Multiset.coe_add]
    abel
  exact h.moves ⟨rfl, rfl, rfl, rfl, hsame.subperm, .inr ⟨data, hcalls⟩, .inl rfl, h.other⟩
    fun _ _ => hsame

/-- A packet goes from the network to the socket. -/
theorem Inv.arrive (h : T.Inv kept s) {pk : P} {network : List P}
    (hnetwork : s.network = [pk] ++ network) : T.Inv kept { s with
      network := network
      arrived := s.arrived ++ [.inl pk] } := by
  have hsame : (T.underway { s with
      network := network
      arrived := s.arrived ++ [.inl pk] }).Perm (T.underway s) := by
    have hnow : (s.arrived ++ [Sum.inl pk]).filterMap Sum.getLeft? =
        s.arrived.filterMap Sum.getLeft? ++ [pk] := by
      rw [List.filterMap_append]
      rfl
    simp only [UdpTest.underway, hnow, hnetwork]
    rw [← Multiset.coe_eq_coe]
    simp only [← Multiset.coe_add]
    abel
  refine h.moves ⟨rfl, rfl, rfl, rfl, hsame.subperm, .inl rfl, .inl rfl, fun a ha => h.other a ?_⟩
    fun _ _ => hsame
  simpa using ha

/-- The network loses a packet. -/
theorem Inv.lose (h : T.Inv kept s) (hlost : ¬ kept) :
    T.Inv kept { s with network := s.network.tail } := by
  have hsub : (T.underway { s with network := s.network.tail }).Subperm (T.underway s) :=
    (((List.Sublist.refl _).append (List.tail_sublist s.network)).append (.refl _)).subperm
  exact h.moves ⟨rfl, rfl, rfl, rfl, hsub, .inl rfl, .inl rfl, h.other⟩ fun hk _ => absurd hk hlost

/-- Something comes from elsewhere. -/
theorem Inv.elsewhere (h : T.Inv kept s) {a : Arrival A} (ha : T.elsewhere a = true) :
    T.Inv kept { s with arrived := s.arrived ++ [.inr a] } := by
  have hsame : T.underway { s with arrived := s.arrived ++ [.inr a] } = T.underway s := by
    simp [UdpTest.underway, List.filterMap_append, List.filterMap_cons]
  refine h.moves ⟨rfl, rfl, rfl, rfl, ?_, .inl rfl, .inl rfl, fun a' ha' => ?_⟩ fun _ _ => ?_
  · rw [hsame]
  · rcases List.mem_append.mp ha' with hmem | hmem
    · exact h.other a' hmem
    · cases List.mem_singleton.mp hmem
      exact ha
  · rw [hsame]

theorem Inv.step (hT : T.Checks platform kind) (h : T.Inv kept s) {op : TestOp A}
    (hop : kept → op.loses = false) : T.step platform kind s op = .wait ∨
      ∃ t, T.step platform kind s op = .ret t ∧ T.Inv kept t := by
  unfold UdpTest.step
  split
  · exact .inr ⟨s, rfl, h⟩
  rename_i hopen
  have hopen : s.ended = none := by simpa using hopen
  cases op with
  | call outcomes =>
    dsimp only
    split
    · exact .inr ⟨s, rfl, h⟩
    · rename_i calls hcalls
      exact .inr (h.begin hcalls hopen).nextPacket
    · rename_i data calls hcalls
      exact (h.push hcalls).senderFlush hT hop
  | writable outcomes => exact h.senderFlush hT hop
  | readable =>
    refine .inr (Inv.readyAux hT ?_ rfl List.length_replicate (Nat.lt_succ_self _))
    exact h
  | arrive =>
    dsimp only
    split
    · exact .inr ⟨s, rfl, h⟩
    · rename_i pk network hnetwork
      exact .inr ⟨_, rfl, h.arrive hnetwork⟩
  | lose =>
    refine .inr ⟨_, rfl, h.lose fun hk => ?_⟩
    cases hop hk
  | other a =>
    dsimp only
    split
    · rename_i ha
      exact .inr ⟨_, rfl, h.elsewhere ha⟩
    · exact .inr ⟨s, rfl, h⟩

/-- What is asked of the transfer after these operations: it has not panicked, and its
loops have ended; the packets checked are the first of the test, all of them when it has
stopped; there is at most one packet on its way; and if none was lost the transfer has not
come to rest before its end. -/
def Transfers (T : UdpTest P A R) (platform : Platform) (kind : ErrorKind)
    (ops : List (TestOp A)) : Prop :=
  (T.runs platform kind {} ops).Over ∧ ∀ t, T.runs platform kind {} ops = .ret t →
    t.matched.map .ret <+: T.packets ∧
    (t.ended = some .stopped → t.matched.map .ret = T.packets) ∧
    (T.underway t).length ≤ 1 ∧
    ((∀ op ∈ ops, op.loses = false) → t.calls = [] → T.underway t = [] → t.ended.isSome)

theorem Inv.checked (h : T.Inv kept s) : s.matched.map .ret <+: T.packets := by
  have hprefix : s.matched.map Exec.ret <+: (s.matched ++ s.expecting.toList).map Exec.ret :=
    (List.prefix_append _ _).map _
  rw [h.sent] at hprefix
  exact hprefix.trans (List.take_prefix _ _)

theorem Checks.transfers (hT : T.Checks platform kind) (ops : List (TestOp A)) :
    T.Transfers platform kind ops := by
  have hrun : T.runs platform kind {} ops = .wait ∨
      ∃ t, T.runs platform kind {} ops = .ret t ∧ T.Inv False t :=
    run_over (Q := fun _ => True) (fun s op h _ => h.step hT fun hk => hk.elim)
      (fun _ _ => trivial) Inv.start
  refine ⟨hrun.imp_right (fun ⟨t, ht, _⟩ => ⟨t, ht⟩), fun t ht => ?_⟩
  obtain ⟨t', ht', h⟩ : ∃ t', T.runs platform kind {} ops = .ret t' ∧ T.Inv False t' := by
    rcases hrun with hw | hrun
    · cases ht.symm.trans hw
    · exact hrun
  cases ht.symm.trans ht'
  refine ⟨h.checked, fun hended => ?_, ?_, fun hops hcalls hnone => ?_⟩
  · obtain ⟨hexp, hover⟩ := h.stopped hended
    have hsent := h.sent
    have hlength : T.packets.length ≤ t.nextIndex := by
      rwa [packets, List.length_map, List.length_zipIdx]
    rwa [hexp, Option.toList_none, List.append_nil, List.take_of_length_le hlength] at hsent
  · refine h.underway.length_le.trans ?_
    rw [due, List.length_map]
    cases t.expecting with
    | none => exact Nat.zero_le 1
    | some data => exact Nat.le_refl 1
  · -- Nothing was lost, so what is expected is on its way.
    have hkept : T.Inv True t := by
      have hrun : T.runs platform kind {} ops = .wait ∨
          ∃ t, T.runs platform kind {} ops = .ret t ∧ T.Inv True t :=
        run_over (Q := fun op => op.loses = false) (fun s op h hop => h.step hT fun _ => hop) hops
          Inv.start
      rcases hrun with hw | ⟨t', ht', hkept⟩
      · cases ht.symm.trans hw
      · cases ht.symm.trans ht'
        exact hkept
    by_contra hopen
    have hopen : t.ended = none := by simpa using hopen
    have hdue := hkept.kept trivial hopen
    rw [hnone] at hdue
    rcases hkept.live hopen with hfirst | hsome
    · cases hcalls.symm.trans hfirst
    · have hnil := List.nil_perm.mp hdue
      obtain ⟨data, hdata⟩ := Option.isSome_iff_exists.mp hsome
      rw [due, hdata] at hnil
      cases hnil

/-- **The UDP tests do what they should.** In every interleaving of the deferred calls, the
events, the network and what comes from elsewhere, and for all outcomes of the sends, on
either platform. -/
theorem udp_transfers (Addr : Type) [DecidableEq Addr] (sendAddr recvAddr : Addr)
    (platform : Platform) (kind : ErrorKind)
    (hkind : kind ≠ .other ∧ kind ≠ .wouldBlock ∧ kind ≠ .interrupted) :
    (∀ ops, udp.Transfers platform kind ops) ∧
    ∀ ops, (udpserver sendAddr recvAddr).Transfers platform kind ops :=
  ⟨(udp_checks platform hkind).transfers,
    (udpserver_checks sendAddr recvAddr platform hkind).transfers⟩

/-- On UNIX, with the addresses 1 and 2. -/
theorem udp_transfers_sample : (∀ ops, udp.Transfers .unix (.unlisted 0) ops) ∧
    ∀ ops, (udpserver 1 2).Transfers .unix (.unlisted 0) ops :=
  udp_transfers Nat 1 2 .unix (.unlisted 0) (by decide)

end UdpTest
end StakkerMio
