import StakkerMio.MioPoll.Ownership

/-! # The representation in every reachable state

Runs of the controller's own operations, in which any token may be passed to
`del`. The invariant holds throughout; so a poll stays inside the queues, misses no
queued event by the bitmap or the maximum, and is never cut short by the counter. -/
namespace StakkerMio
open Lib

/-- The methods of `Control`. -/
inductive ControlOp (F ρ : Type) where
  | add (pri : Nat) (fwd : F) (register : List (Result Unit))
  | del (token : Nat) (deregister : List (Result Unit))
  | setWakeFwd (fwd : F)
  | poll (outcomes : List (Result (List (Event ρ))))

namespace Control
variable {S F ρ : Type} [Slab S (Entry F)] {c d : Control S F ρ}

def step (c : Control S F ρ) : ControlOp F ρ → Exec (Control S F ρ)
  | .add pri fwd register => Prod.snd <$> c.add register pri fwd
  | .del token deregister => Prod.snd <$> c.del token deregister
  | .setWakeFwd fwd => c.setWakeFwd fwd
  | .poll outcomes => Prod.fst <$> c.poll outcomes

theorem Inv.del (hc : c.Inv) {token : Nat} {deregister : List (Result Unit)} {rv : Result Unit}
    (hd : c.del token deregister = .ret (rv, d)) : d.Inv := by
  obtain ⟨r, -, hd⟩ := Exec.bind_eq_ret.mp hd
  split at hd
  · rename_i hocc
    cases hd
    exact hc.leave hocc
  · cases hd
    exact hc

theorem Inv.poll (hc : c.Inv) {outcomes : List (Result (List (Event ρ)))}
    {rv : Result (Bool × Bool)} {calls : List (Call F ρ)}
    (hd : c.poll outcomes = .ret (d, rv, calls)) : d.Inv := by
  obtain ⟨r, -, hd⟩ := Exec.bind_eq_ret.mp hd
  cases r with
  | error e =>
    cases hd
    exact hc
  | ok events =>
    obtain ⟨c', hev, -, hinv, -⟩ := pollEvents_refines hc events
    dsimp only at hd
    rw [hev] at hd
    cases hd
    exact hinv

/-- Every operation keeps the invariant. -/
theorem Inv.step (hc : c.Inv) {op : ControlOp F ρ} (hd : c.step op = .ret d) : d.Inv := by
  cases op with
  | add pri fwd register =>
    rw [Control.step, add_eq] at hd
    cases hr : retry register with
    | ret rv =>
      rw [hr] at hd
      cases hd
      exact hc.enter pri fwd
    | _ =>
      rw [hr] at hd
      cases hd
  | del token deregister =>
    obtain ⟨⟨rv, d'⟩, hdel, hd⟩ := Exec.bind_eq_ret.mp hd
    cases hd
    exact hc.del hdel
  | setWakeFwd fwd =>
    change c.setWakeFwd fwd = .ret d at hd
    cases he : Slab.get c.tokenMap WAKER_TOKEN with
    | none =>
      rw [setWakeFwd, he] at hd
      cases hd
    | some entry =>
      rw [setWakeFwd_occupied he] at hd
      cases hd
      exact hc.setWake he fwd
  | poll outcomes =>
    obtain ⟨⟨d', rv, calls⟩, hpoll, hd⟩ := Exec.bind_eq_ret.mp hd
    cases hd
    exact hc.poll hpoll

/-- No event in the queues is out of the drain loop's sight. -/
structure Seen (c : Control S F ρ) : Prop where
  below : ∀ i, c.queue i ≠ [] → i < c.maxPri
  inUse : ∀ i, c.queue i ≠ [] → StakkerMio.inUse c.priorities i = true
  early : c.nQueued = 0 → ∀ i, c.queue i = []

theorem Inv.seen (hc : c.Inv) : c.Seen where
  below i hi := by
    by_contra hge
    exact hi (hc.queue_top i (Nat.le_of_not_lt hge))
  inUse := hc.queue_inUse
  early hzero i := by
    by_contra hi
    have hlt : i < MAX_PRI := by
      by_contra hge
      exact hi (Queues.view_of_ge _ (Nat.le_of_not_lt hge))
    have htotal := hc.count
    rw [hzero] at htotal
    exact hi (Levels.total_eq_zero_iff.mp htotal.symm i hlt)

/-- **Representation invariant.** It holds in every reachable state. There `poll`
files the events within the queues and comes to the drain block in a state with the
invariant, in which every queued event is seen; and what it does is what the
reference does, which has neither bitmap nor maximum nor counter. -/
theorem representation {nop wake : F} {wakerPri : Nat} {waker : List (Result Unit)}
    {c₀ : Control S F ρ} (hnew : MioPoll.new nop wake wakerPri waker = .ret (.ok c₀))
    (ops : List (ControlOp F ρ)) (c : Control S F ρ) (hrun : Lib.run step c₀ ops = .ret c) :
    c.Inv ∧ ∀ events : List (Event ρ), ∃ p d,
      events.foldlM pollEvent ⟨c, false, []⟩ = .ret p ∧ p.ctrl.Inv ∧ p.ctrl.Seen ∧
      c.pollEvents events = .ret (d, (c.abs.pollEvents (F := F) events).2) ∧
      d.abs = (c.abs.pollEvents (F := F) events).1 ∧ d.Inv := by
  have hc : c.Inv := run_invariant (fun _ _ _ h hstep => Inv.step h hstep)
    (MioPoll.new_inv hnew) hrun
  refine ⟨hc, fun events => ?_⟩
  obtain ⟨p, hloop, hfiled⟩ := pollEvent_filed hc events (Filed.start hc)
  obtain ⟨d, hpoll, habs, hinv, -⟩ := pollEvents_refines hc events
  exact ⟨p, d, hloop, hfiled.inv, hfiled.inv.seen, hpoll, habs, hinv⟩

/-- Three priorities, one of them too high; an event stays queued while its entry is
taken out, and another one at the top priority is served. -/
theorem representation_sample : ∃ c : Control (FreeSlab (Entry Nat)) Nat Nat,
    Lib.run step MioPoll.sample
      [.add 40 7 [.ok ()], .add 3 8 [.error ⟨.other, none⟩],
        .poll [.ok [⟨2, 40⟩, ⟨1, 41⟩]], .del 2 [.ok ()], .setWakeFwd 9] = .ret c ∧
      c.nQueued = 1 ∧ c.Inv := by
  obtain ⟨c, hc, hcount⟩ := Exec.exists_ret_of (x := Lib.run step MioPoll.sample
    [.add 40 7 [.ok ()], .add 3 8 [.error ⟨.other, none⟩],
      .poll [.ok [⟨2, 40⟩, ⟨1, 41⟩]], .del 2 [.ok ()], .setWakeFwd 9])
    (p := fun c => c.nQueued == 1) rfl
  exact ⟨c, hc, eq_of_beq hcount, (representation MioPoll.sample_new _ c hc).1⟩

end Control
end StakkerMio
