import StakkerMio.Interrupts
import StakkerMio.Udp.Conservation

/-! # One send for each packet

A packet is handed to the socket when it comes to the front, again as long as the send is
interrupted, and then never more, whatever became of it. -/
namespace StakkerMio
open Lib

namespace PacketQueue
variable {P : Type} {size : P → Nat} {h t : History P}

/-- The sends that were not interrupted. -/
def settled (sends : List (P × Result Nat)) : List (P × Result Nat) :=
  sends.filter fun s => !isInterrupted s.2

def Op.settle : Op P → Op P
  | .flush outcomes => .flush (StakkerMio.settle outcomes)
  | op => op

def History.settle (h : History P) : History P := { h with sends := settled h.sends }

theorem settled_append (sends sends' : List (P × Result Nat)) :
    settled (sends ++ sends') = settled sends ++ settled sends' :=
  List.filter_append ..

theorem settled_sends {pk : P} {interrupts : List (Result Nat)} {r : Result Nat}
    (hi : ∀ i ∈ interrupts, isInterrupted i = true) (hr : isInterrupted r = false) :
    settled ((interrupts ++ [r]).map fun r => (pk, r)) = [(pk, r)] := by
  have hnone : settled (interrupts.map fun r => (pk, r)) = [] := by
    rw [settled, List.filter_eq_nil_iff]
    intro s hs
    obtain ⟨i, hmem, rfl⟩ := List.mem_map.mp hs
    simp [hi i hmem]
  rw [List.map_append, settled_append, hnone]
  simp [settled, hr]

theorem settle_interrupts {interrupts rest : List (Result Nat)} {r : Result Nat}
    (hi : ∀ i ∈ interrupts, isInterrupted i = true) (hr : isInterrupted r = false) :
    StakkerMio.settle (interrupts ++ r :: rest) = r :: StakkerMio.settle rest := by
  have hnone : interrupts.filter (fun r => !isInterrupted r) = [] := by
    rw [List.filter_eq_nil_iff]
    intro i hmem
    simp [hi i hmem]
  rw [StakkerMio.settle, List.filter_append, hnone]
  exact settle_decided hr

/-- What a flush makes of its outcomes, with those that are no use to it. -/
theorem flushLoop_once {out : List P} {outcomes : List (Result Nat)} {f : Flushed P}
    (hf : flushLoop size out outcomes = .ret f) :
    (settled f.sends).map Prod.fst ++ f.out = out ∧
      (settled f.sends).getLast? = f.sends.getLast? ∧
      flushLoop size out (StakkerMio.settle outcomes) =
        .ret { f with sends := settled f.sends, rest := StakkerMio.settle f.rest } := by
  induction out generalizing outcomes f with
  | nil =>
    cases hf
    exact ⟨rfl, rfl, rfl⟩
  | cons pk out ih =>
    obtain ⟨⟨rv, sends, rest⟩, hloop, hf⟩ := Exec.bind_eq_ret.mp hf
    obtain ⟨interrupts, r, rfl, hi, hr, rfl, rfl⟩ := sendLoop_ret hloop
    have hsends := @settled_sends P pk interrupts r hi hr
    have hlast : ((interrupts ++ [r]).map fun r => (pk, r)).getLast? = some (pk, r) := by
      rw [List.map_append]
      exact List.getLast?_concat
    have hloop' : sendLoop size pk (StakkerMio.settle (interrupts ++ r :: rest)) =
        .ret (sendArm size pk r, [(pk, r)], StakkerMio.settle rest) := by
      rw [settle_interrupts hi hr]
      simp [sendLoop, hr]
    rw [flushLoop, hloop']
    cases harm : sendArm size pk r with
    | none =>
      rw [harm] at hf
      obtain ⟨f', hf', hf⟩ := Exec.bind_eq_ret.mp hf
      cases hf
      obtain ⟨hout, hend, hsettle⟩ := ih hf'
      rw [settled_append, hsends]
      refine ⟨by simpa using hout, ?_, by simp [hsettle]⟩
      rw [List.getLast?_append, List.getLast?_append, hend, hlast]
      rfl
    | some rv =>
      rw [harm] at hf
      cases hf
      rw [hsends, hlast]
      exact ⟨rfl, rfl, rfl⟩

theorem flush_once {q : PacketQueue P} {outcomes : List (Result Nat)} {f : Flushed P}
    (hf : flush size q outcomes = .ret f) (hrest : f.rest = []) :
    (settled f.sends).map Prod.fst ++ f.out = q.out ∧
      (settled f.sends).getLast? = f.sends.getLast? ∧
      flush size q (StakkerMio.settle outcomes) =
        .ret { f with sends := settled f.sends, rest := [] } := by
  unfold flush at hf ⊢
  cases hsocket : q.socket with
  | none =>
    rw [hsocket] at hf
    cases hf
    have hrest : outcomes = [] := hrest
    subst hrest
    exact ⟨rfl, rfl, rfl⟩
  | some socket =>
    rw [hsocket] at hf
    obtain ⟨hout, hend, hloop⟩ := flushLoop_once hf
    refine ⟨hout, hend, hloop.trans ?_⟩
    rw [hrest]
    rfl

/-- The packets sent and those queued are the ones pushed. -/
theorem step_once {op : Op P} (hh : (settled h.sends).map Prod.fst ++ h.queue.out = h.pushed)
    (hstep : step (flush size) h op = .ret t) :
    ((settled t.sends).map Prod.fst ++ t.queue.out = t.pushed) ∧
      step (flush size) h.settle op.settle = .ret t.settle := by
  cases op with
  | push packet =>
    cases hstep
    refine ⟨?_, rfl⟩
    change (settled h.sends).map Prod.fst ++ (h.queue.out ++ [packet]) = h.pushed ++ [packet]
    rw [← List.append_assoc, hh]
  | init socket =>
    cases hstep
    exact ⟨hh, rfl⟩
  | deinit =>
    cases hstep
    exact ⟨hh, rfl⟩
  | flush outcomes =>
    obtain ⟨f, hf, hstep⟩ := Exec.bind_eq_ret.mp hstep
    split at hstep
    · rename_i hrest
      cases hstep
      obtain ⟨hout, hend, hflush⟩ := flush_once hf (List.isEmpty_iff.mp hrest)
      have hfailed : failedOf { f with sends := settled f.sends, rest := [] } = failedOf f := by
        unfold failedOf
        rw [hend]
      refine ⟨?_, ?_⟩
      · change (settled (h.sends ++ f.sends)).map Prod.fst ++ f.out = h.pushed
        rw [settled_append, List.map_append, List.append_assoc, hout, hh]
      · have hflush : flush size h.settle.queue (StakkerMio.settle outcomes) = _ := hflush
        rw [Op.settle, step, hflush, Exec.ret_bind, hfailed]
        simp [History.settle, settled_append]
    · cases hstep

/-- The same for a run. -/
theorem runs_once {h₀ : History P} (h₀' : h₀ = { queue := h₀.queue }) (hempty : h₀.queue.out = [])
    {ops : List (Op P)} (hrun : Lib.run (step (flush size)) h₀ ops = .ret t) :
    ((settled t.sends).map Prod.fst ++ t.queue.out = t.pushed) ∧
      Lib.run (step (flush size)) h₀ (ops.map Op.settle) = .ret t.settle := by
  refine run_history (J := fun ops t => ((settled t.sends).map Prod.fst ++ t.queue.out = t.pushed) ∧
    Lib.run (step (flush size)) h₀ (ops.map Op.settle) = .ret t.settle) ?_ ?_ hrun
  · rw [h₀']
    exact ⟨hempty, rfl⟩
  · intro ops u op v hu hstep
    obtain ⟨honce, hsettle⟩ := step_once hu.1 hstep
    refine ⟨honce, ?_⟩
    rw [List.map_append, run_append, hu.2]
    simp [hsettle]

end PacketQueue

open PacketQueue in
/-- **One send for each packet.** In every run of pushes and flushes, whatever the sockets
answer, the sends that were not interrupted are one for each packet that has left the queue,
in the order in which they were pushed, each with its own address and content; the packets
still queued come after them. The run goes as it does without the interrupted attempts. -/
theorem udp_one_send (Addr : Type) :
    (∀ (ops : List (PacketQueue.Op (List UInt8))) t,
      Lib.run UdpQueue.step UdpQueue.start ops = .ret t →
      (settled t.sends).map Prod.fst ++ t.queue.out = t.pushed ∧
      Lib.run UdpQueue.step UdpQueue.start (ops.map PacketQueue.Op.settle) = .ret t.settle) ∧
    ∀ (ops : List (PacketQueue.Op (Addr × List UInt8))) t,
      Lib.run (UdpServerQueue.step Addr) (UdpServerQueue.start Addr) ops = .ret t →
      (settled t.sends).map Prod.fst ++ t.queue.out = t.pushed ∧
      Lib.run (UdpServerQueue.step Addr) (UdpServerQueue.start Addr)
        (ops.map PacketQueue.Op.settle) = .ret t.settle :=
  ⟨fun _ _ hrun => runs_once rfl rfl hrun, fun _ _ hrun => runs_once rfl rfl hrun⟩

open PacketQueue in
/-- The first packet is interrupted once and then would block; the second goes out. -/
theorem udp_one_send_sample : ∃ t,
    Lib.run UdpQueue.step UdpQueue.start
      [.push [1, 2], .push [3], .flush [.error ⟨.interrupted, none⟩, .error ⟨.wouldBlock, none⟩],
        .flush [.ok 1]] = .ret t ∧
    (settled t.sends).map Prod.fst ++ t.queue.out = [[1, 2], [3]] := by
  obtain ⟨t, ht⟩ := Exec.exists_ret (x := Lib.run UdpQueue.step UdpQueue.start
    [.push [1, 2], .push [3], .flush [.error ⟨.interrupted, none⟩, .error ⟨.wouldBlock, none⟩],
      .flush [.ok 1]]) rfl
  have honce := ((udp_one_send Nat).1 _ t ht).1
  cases ht
  exact ⟨_, rfl, honce⟩

end StakkerMio
