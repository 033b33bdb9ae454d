import StakkerMio.Lib.Interleave
import StakkerMio.Udp.Queue

/-! # Where the queued packets go

Over a run of pushes and flushes: the packets that were accepted, followed by
those still queued, are the ones pushed, less those for which a flush returned
an error. This is so as long as no send would block: `flush` drops the packet of
a send that does. -/
namespace StakkerMio
open Lib

namespace PacketQueue
variable {P : Type}

inductive Op (P : Type) where
  | push (packet : P)
  | flush (outcomes : List (Result Nat))
  | init (socket : Nat)
  | deinit

/-- The queue, and on record what was pushed, every send with its outcome, and
the packets for which a flush returned an error. -/
structure History (P : Type) where
  queue : PacketQueue P
  pushed : List P := []
  sends : List (P × Result Nat) := []
  failed : List P := []

/-- The outcomes of a `flush` are exactly those of the sends it makes. -/
def step (flush : PacketQueue P → List (Result Nat) → Exec (Flushed P)) (h : History P) :
    Op P → Exec (History P)
  | .push packet => .ret { h with queue := h.queue.push packet, pushed := h.pushed ++ [packet] }
  | .init socket => .ret { h with queue := h.queue.init socket }
  | .deinit => .ret { h with queue := h.queue.deinit }
  | .flush outcomes => do
    let f ← flush h.queue outcomes
    if f.rest.isEmpty then
      .ret { h with
        queue := { h.queue with out := f.out }
        sends := h.sends ++ f.sends
        failed := h.failed ++ failedOf f }
    else .wait

/-- Some send of the flush would have blocked. -/
def Op.blocks : Op P → Bool
  | .flush outcomes => outcomes.any isWouldBlock
  | _ => false

/-- What was accepted and what is queued is what was pushed, without the packets
that a flush gave up with an error. -/
def Conserved (size : P → Nat) (h : History P) : Prop :=
  Interleave (accepted size h.sends ++ h.queue.out) h.failed h.pushed

/-- A packet whose send would block is still in front after the flush. -/
def Keeps (size : P → Nat) (h : History P) : Op P → Prop
  | .flush outcomes => ∀ f pk r, h.queue.flush size outcomes = .ret f →
      f.sends.getLast? = some (pk, r) → isWouldBlock r = true → f.out.head? = some pk
  | _ => True

variable {size : P → Nat} {h t : History P}

/-- A flush with no send that blocks did not end blocked. -/
theorem any_isWouldBlock {outcomes : List (Result Nat)} {f : Flushed P}
    (h : outcomes = f.sends.map Prod.snd) :
    outcomes.any isWouldBlock = false ↔ ∀ s ∈ f.sends, isWouldBlock s.2 = false := by
  rw [h, List.any_eq_false, List.forall_mem_map]
  simp

theorem step_flush {outcomes : List (Result Nat)}
    (hstep : step (flush size) h (.flush outcomes) = .ret t) :
    (outcomes = [] ∧ t = h) ∨
    ∃ f, outcomes = f.sends.map Prod.snd ∧ Ended size h.queue.out f ∧
      t = { h with
        queue := { h.queue with out := f.out }
        sends := h.sends ++ f.sends
        failed := h.failed ++ failedOf f } := by
  obtain ⟨f, hf, hstep⟩ := Exec.bind_eq_ret.mp hstep
  by_cases hrest : f.rest = []
  · rw [if_pos (by rw [hrest]; rfl)] at hstep
    cases hstep
    cases hs : h.queue.socket with
    | none =>
      left
      rw [flush, hs] at hf
      cases hf
      refine ⟨hrest, ?_⟩
      obtain ⟨⟨out, socket⟩, pushed, sends, failed⟩ := h
      simp [failedOf]
    | some socket =>
      right
      obtain ⟨houtcomes, hended⟩ := flush_ended hf (by rw [hs]; rfl)
      rw [hrest, List.append_nil] at houtcomes
      exact ⟨f, houtcomes, hended, rfl⟩
  · rw [if_neg (by simpa using hrest)] at hstep
    cases hstep

/-- How often a send blocked, each time for good. -/
def lost (ops : List (Op P)) : Nat := (ops.filter Op.blocks).length

/-- Each packet pushed is accepted, queued, failed or lost. -/
theorem counted {ops : List (Op P)} {h₀ : History P} (h₀' : h₀ = { queue := h₀.queue })
    (hempty : h₀.queue.out = []) (hrun : Lib.run (step (flush size)) h₀ ops = .ret t) :
    t.pushed.length =
      (accepted size t.sends).length + t.queue.out.length + t.failed.length + lost ops := by
  refine run_history (J := fun ops t => t.pushed.length =
    (accepted size t.sends).length + t.queue.out.length + t.failed.length + lost ops) ?_ ?_ hrun
  · rw [h₀']
    simp [hempty, accepted, lost]
  · intro ops u op v hu hstep
    have hlost : lost (ops ++ [op]) = lost ops + if op.blocks then 1 else 0 := by
      cases hb : op.blocks <;> simp [lost, hb]
    rw [hlost]
    cases op with
    | push packet =>
      cases hstep
      simp only [push, List.length_append, List.length_singleton, Op.blocks, hu]
      simp
      omega
    | init socket =>
      cases hstep
      exact hu
    | deinit =>
      cases hstep
      exact hu
    | flush outcomes =>
      rcases step_flush hstep with ⟨rfl, rfl⟩ | ⟨f, houtcomes, hended, rfl⟩
      · exact hu
      · have hany := any_isWouldBlock houtcomes
        simp only [accepted_append, List.length_append, Op.blocks, hu]
        cases hended with
        | emptied hout hnil hrv hb =>
          have hf : failedOf f = [] := by simp [failedOf, hrv]
          simp [hout, hnil, hany.mpr hb, hf]
        | failed pk hout hfailed hb =>
          simp [hout, hany.mpr hb, hfailed]
          omega
        | blocked pk r hout hrv hlast hb =>
          have hf : failedOf f = [] := by simp [failedOf, hrv]
          have hblocks : outcomes.any isWouldBlock = true := by
            by_contra hne
            have hs := hany.mp (by simpa using hne) _ (List.mem_of_getLast? hlast)
            rw [hb] at hs
            cases hs
          simp [hout, hblocks, hf]
          omega

/-- What left the queue is what was accepted and what failed, in push order. -/
def Sorted (size : P → Nat) (h : History P) : Prop :=
  ∃ left, h.pushed = left ++ h.queue.out ∧ Interleave (accepted size h.sends) h.failed left

theorem Sorted.conserved (hs : Sorted size h) : Conserved size h := by
  obtain ⟨left, hpushed, hleft⟩ := hs
  rw [Conserved, hpushed]
  exact hleft.append_left _

theorem Sorted.step {op : Op P} (hs : Sorted size h) (hop : op.blocks = false)
    (hstep : step (flush size) h op = .ret t) : Sorted size t := by
  obtain ⟨left, hpushed, hleft⟩ := hs
  cases op with
  | push packet =>
    cases hstep
    exact ⟨left, by rw [hpushed, List.append_assoc]; rfl, hleft⟩
  | init socket =>
    cases hstep
    exact ⟨left, hpushed, hleft⟩
  | deinit =>
    cases hstep
    exact ⟨left, hpushed, hleft⟩
  | flush outcomes =>
    rcases step_flush hstep with ⟨rfl, rfl⟩ | ⟨f, houtcomes, hended, rfl⟩
    · exact ⟨left, hpushed, hleft⟩
    · have hadd : ∀ l, Interleave (accepted size h.sends ++ l) h.failed (left ++ l) :=
        hleft.append_left
      cases hended with
      | emptied hout hnil hrv hb =>
        have hfailed : failedOf f = [] := by simp [failedOf, hrv]
        refine ⟨left ++ accepted size f.sends, ?_, ?_⟩
        · simp [hpushed, hout, hnil]
        · rw [accepted_append, hfailed, List.append_nil]
          exact hadd _
      | failed pk hout hfailed hb =>
        refine ⟨left ++ accepted size f.sends ++ [pk], ?_, ?_⟩
        · simp [hpushed, hout]
        · rw [accepted_append, hfailed]
          exact (hadd _).concat_right pk
      | blocked pk r hout hrv hlast hb =>
        have hs := (any_isWouldBlock houtcomes).mp hop _ (List.mem_of_getLast? hlast)
        rw [hb] at hs
        cases hs

/-- Without blocking there is no packet to keep. -/
theorem keeps_of_not_blocks {op : Op P} (hop : op.blocks = false) : Keeps size h op := by
  cases op with
  | flush outcomes =>
    intro f pk r hf hlast hr
    cases hs : h.queue.socket with
    | none =>
      rw [flush, hs] at hf
      cases hf
      cases hlast
    | some socket =>
      obtain ⟨houtcomes, -⟩ := flush_ended hf (by rw [hs]; rfl)
      have hmem : r ∈ outcomes := by
        rw [houtcomes]
        exact List.mem_append_left _ (List.mem_map_of_mem (List.mem_of_getLast? hlast))
      exact absurd hr (List.any_eq_false.mp hop r hmem)
  | _ => trivial

/-- **Conservation.** The packets of a run are conserved, and those whose sends
block are kept in front, exactly if no send of the run blocks. -/
theorem conserved_iff {ops : List (Op P)} {h₀ : History P} (h₀' : h₀ = { queue := h₀.queue })
    (hempty : h₀.queue.out = []) (hrun : Lib.run (step (flush size)) h₀ ops = .ret t) :
    (Meets (step (flush size)) (fun u op => Conserved size u ∧ Keeps size u op) h₀ ops ∧
      Conserved size t) ↔ ∀ op ∈ ops, op.blocks = false := by
  constructor
  · rintro ⟨-, ht⟩ op hop
    have hcount := counted h₀' hempty hrun
    have hlen := ht.length_eq
    rw [List.length_append] at hlen
    have hlost : lost ops = 0 := by omega
    have hnil : ops.filter Op.blocks = [] := List.length_eq_zero_iff.mp hlost
    simpa using List.filter_eq_nil_iff.mp hnil op hop
  · intro hops
    have hsorted : Sorted size h₀ := by
      rw [h₀']
      exact ⟨[], by rw [hempty]; rfl, .nil⟩
    have hmeets : Meets (step (flush size))
        (fun u op => (Conserved size u ∧ Keeps size u op) ∧ op.blocks = false) h₀ ops :=
      Meets.of_invariant (fun u op v hu hop hv => Sorted.step hu hop hv)
        (fun u op hu hop => ⟨⟨hu.conserved, keeps_of_not_blocks hop⟩, hop⟩) hops hsorted
    exact ⟨hmeets.mono fun u op h => h.1,
      (hmeets.invariant (fun u op v hu h hv => Sorted.step hu h.2 hv) hsorted hrun).conserved⟩

end PacketQueue

namespace UdpQueue

def step : PacketQueue.History (List UInt8) → PacketQueue.Op (List UInt8) →
    Exec (PacketQueue.History (List UInt8)) :=
  PacketQueue.step flush

/-- Nothing queued, with a socket installed. -/
def start : PacketQueue.History (List UInt8) := { queue := PacketQueue.new.init 0 }

end UdpQueue

namespace UdpServerQueue
variable (Addr : Type)

def step : PacketQueue.History (Addr × List UInt8) → PacketQueue.Op (Addr × List UInt8) →
    Exec (PacketQueue.History (Addr × List UInt8)) :=
  PacketQueue.step flush

def start : PacketQueue.History (Addr × List UInt8) := { queue := PacketQueue.new.init 0 }

end UdpServerQueue

open PacketQueue in
/-- **Conservation for both queues.** -/
theorem udp_conserved_iff (Addr : Type) :
    (∀ (ops : List (PacketQueue.Op (List UInt8))) t,
      Lib.run UdpQueue.step UdpQueue.start ops = .ret t →
      ((Meets UdpQueue.step (fun h op => Conserved List.length h ∧ Keeps List.length h op)
          UdpQueue.start ops ∧ Conserved List.length t) ↔
        ∀ op ∈ ops, op.blocks = false)) ∧
    ∀ (ops : List (PacketQueue.Op (Addr × List UInt8))) t,
      Lib.run (UdpServerQueue.step Addr) (UdpServerQueue.start Addr) ops = .ret t →
      ((Meets (UdpServerQueue.step Addr)
          (fun h op => Conserved (fun pk => pk.2.length) h ∧ Keeps (fun pk => pk.2.length) h op)
          (UdpServerQueue.start Addr) ops ∧ Conserved (fun pk => pk.2.length) t) ↔
        ∀ op ∈ ops, op.blocks = false) :=
  ⟨fun _ _ hrun => conserved_iff rfl rfl hrun, fun _ _ hrun => conserved_iff rfl rfl hrun⟩

open PacketQueue in
/-- A packet pushed, interrupted once, short of one byte; and one sent in full. -/
theorem udp_conserved_iff_sample :
    ∃ t, Lib.run UdpQueue.step UdpQueue.start
        [.push [1, 2], .flush [.error ⟨.interrupted, none⟩, .ok 1], .push [3], .flush [.ok 1]] =
          .ret t ∧ Conserved List.length t := by
  obtain ⟨t, ht⟩ := Exec.exists_ret (x := Lib.run UdpQueue.step UdpQueue.start
    [.push [1, 2], .flush [.error ⟨.interrupted, none⟩, .ok 1], .push [3], .flush [.ok 1]]) rfl
  exact ⟨t, ht, (((udp_conserved_iff Nat).1 _ t ht).mpr (by decide)).2⟩

open PacketQueue in
/-- One packet and one flush that blocks: the packet is neither accepted nor
queued any more, and no error was returned for it. -/
theorem udp_blocked_lost :
    ∃ t, Lib.run UdpQueue.step UdpQueue.start
        [.push [1, 2, 3], .flush [.error ⟨.wouldBlock, none⟩]] = .ret t ∧
      t.pushed = [[1, 2, 3]] ∧ accepted List.length t.sends = [] ∧ t.queue.out = [] ∧
      t.failed = [] ∧ ¬ Conserved List.length t := by
  refine ⟨_, rfl, rfl, rfl, rfl, rfl, fun h => ?_⟩
  cases h

end StakkerMio
