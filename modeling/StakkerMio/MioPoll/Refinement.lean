import StakkerMio.MioPoll.Ownership

/-! # The controller refines the reference scheduler

`Control.abs` forgets the maximum, the bitmap and the counter. Seen through it a
step of the code's controller is a step of the reference's, so the polls of a
run return the same and call the same handlers. -/
namespace StakkerMio
open Lib

variable {S F ρ : Type} [Slab S (Entry F)]

namespace Control
variable {c : Control S F ρ}

theorem abs_add (c : Control S F ρ) (register : List (Result Unit)) (pri : Nat) (fwd : F) :
    c.abs.add register pri fwd = Prod.map id abs <$> c.add register pri fwd := by
  rw [add_eq, Scheduler.add]
  cases retry register with
  | ret rv => rfl
  | _ => rfl

theorem abs_drop {token : Nat} (h : (Slab.get c.tokenMap token).isSome)
    (deregister : List (Result Unit)) :
    c.abs.drop (F := F) token deregister = abs <$> c.drop token deregister := by
  have hc : Slab.contains c.abs.tokenMap token = true := h
  rw [drop, del_occupied h, Scheduler.drop]
  cases retry deregister with
  | ret rv => cases rv <;> simp [hc] <;> rfl
  | _ => rfl

theorem abs_setWakeFwd (h : (Slab.get c.tokenMap WAKER_TOKEN).isSome) (fwd : F) :
    c.abs.setWakeFwd fwd = abs <$> c.setWakeFwd fwd := by
  obtain ⟨entry, hw⟩ := Option.isSome_iff_exists.mp h
  have hw' : Slab.get c.abs.tokenMap WAKER_TOKEN = some entry := hw
  rw [setWakeFwd_occupied hw, Scheduler.setWakeFwd, hw']
  rfl

theorem abs_poll (hc : c.Inv) (outcomes : List (Result (List (Event ρ)))) :
    c.abs.poll (F := F) outcomes = Prod.map abs id <$> c.poll outcomes := by
  rw [poll, Scheduler.poll]
  cases retry outcomes with
  | ret rv =>
    cases rv with
    | error e => rfl
    | ok events =>
      obtain ⟨c', hev, habs, -⟩ := pollEvents_refines hc events
      simp [hev, ← habs]
  | _ => rfl

end Control

namespace System

/-- A system with the reference's controller in place of the code's. -/
def abs (s : System (Control S F ρ) F ρ) : System (Scheduler S ρ) F ρ :=
  { ctrl := s.ctrl.abs, sources := s.sources, adds := s.adds, polled := s.polled }

/-- One step of the code is one step of the reference. -/
theorem abs_next {s : System (Control S F ρ) F ρ} (hs : s.Owned) (op : Op F ρ) :
    step Scheduler.controller s.abs op = abs <$> s.next op := by
  cases op with
  | add pri fwd register =>
    change (s.ctrl.abs.add register pri fwd >>= _) = abs <$> (s.ctrl.add register pri fwd >>= _)
    rw [Control.abs_add, map_bind]
    cases s.ctrl.add register pri fwd with
    | ret r =>
      obtain ⟨rv, ctrl⟩ := r
      cases rv <;> rfl
    | _ => rfl
  | drop id deregister =>
    have hsrc : s.abs.source id = s.source id := rfl
    simp only [next, step, hsrc]
    cases h : s.source id with
    | none => rfl
    | some src =>
      have hdrop := Control.abs_drop (hs.occupied (source_mem h).1) deregister
      change (s.ctrl.abs.drop (F := F) src.token deregister >>= _) =
        abs <$> (s.ctrl.drop src.token deregister >>= _)
      rw [hdrop, map_bind]
      cases s.ctrl.drop src.token deregister <;> rfl
  | setWakeFwd fwd =>
    change (s.ctrl.abs.setWakeFwd fwd >>= _) = abs <$> (s.ctrl.setWakeFwd fwd >>= _)
    rw [Control.abs_setWakeFwd hs.waker, map_bind]
    cases s.ctrl.setWakeFwd fwd <;> rfl
  | poll outcomes =>
    change (s.ctrl.abs.poll outcomes >>= _) = abs <$> (s.ctrl.poll outcomes >>= _)
    rw [Control.abs_poll hs.inv, map_bind]
    cases s.ctrl.poll outcomes <;> rfl

theorem abs_runs {s : System (Control S F ρ) F ρ} (hs : s.Owned) (ops : List (Op F ρ)) :
    Lib.run (step Scheduler.controller) s.abs ops = abs <$> s.runs ops :=
  run_map_id (f := abs) (fun _ _ _ hu h => Owned.next hu h) (fun _ op hu => abs_next hu op) ops hs

end System

/-- The reference scheduler starts where a new `MioPoll` does. -/
theorem MioPoll.new_abs {nop wake : F} {wakerPri : Nat} {waker : List (Result Unit)}
    {c : Control S F ρ} (h : MioPoll.new nop wake wakerPri waker = .ret (.ok c)) :
    Scheduler.new nop wake wakerPri = .ret c.abs := by
  have hw := (get_wakerMap nop wakerPri WAKER_TOKEN : Slab.get (wakerMap nop wakerPri : S) _ = _)
  rw [if_pos rfl] at hw
  have hqueue : c.queue = fun _ => [] := by
    rw [new_returns h]
    exact funext view_replicate
  have hnew : (Scheduler.new nop wake wakerPri : Exec (Scheduler S ρ)) =
      Scheduler.setWakeFwd ⟨wakerMap nop wakerPri, fun _ => []⟩ wake := rfl
  rw [hnew, Scheduler.setWakeFwd, hw, Control.abs, hqueue, new_returns h]

/-- **The controller refines the reference scheduler.** Over any run the polls of
the code return what the reference's polls return and call the same handlers
with the same values in the same order; and the code's run never panics. -/
theorem System.poll_refines_scheduler {nop wake : F} {wakerPri : Nat}
    {waker : List (Result Unit)} {c : Control S F ρ}
    (hnew : MioPoll.new nop wake wakerPri waker = .ret (.ok c)) (ops : List (Op F ρ)) :
    ∃ r : Scheduler S ρ, Scheduler.new nop wake wakerPri = .ret r ∧
      System.polled <$> ({ ctrl := c } : System (Control S F ρ) F ρ).runs ops =
        System.polled <$> Lib.run (step Scheduler.controller) { ctrl := r } ops ∧
      ({ ctrl := c } : System (Control S F ρ) F ρ).runs ops ≠ .panic := by
  have hs := Owned.start hnew
  refine ⟨c.abs, MioPoll.new_abs hnew, ?_, hs.runs_safe ops⟩
  have habs := abs_runs hs ops
  change Lib.run _ ({ ctrl := c.abs } : System (Scheduler S ρ) F ρ) ops = _ at habs
  rw [habs]
  cases ({ ctrl := c } : System (Control S F ρ) F ρ).runs ops <;> rfl

/-- Two sources of different priority with an event each, polled twice. -/
theorem System.poll_refines_scheduler_sample :
    ∃ r : Scheduler (FreeSlab (Entry Nat)) Nat, Scheduler.new 0 1 5 = .ret r ∧
      System.polled <$> ({ ctrl := MioPoll.sample } : System _ Nat Nat).runs
          [.add 9 7 [.ok ()], .add 3 8 [.ok ()], .poll [.ok [⟨2, 40⟩, ⟨1, 41⟩]], .poll [.ok []]] =
        System.polled <$> Lib.run (step Scheduler.controller) { ctrl := r }
          [.add 9 7 [.ok ()], .add 3 8 [.ok ()], .poll [.ok [⟨2, 40⟩, ⟨1, 41⟩]],
            .poll [.ok []]] := by
  obtain ⟨r, hr, h, -⟩ := poll_refines_scheduler MioPoll.sample_new
    [.add 9 7 [.ok ()], .add 3 8 [.ok ()], .poll [.ok [⟨2, 40⟩, ⟨1, 41⟩]], .poll [.ok []]]
  exact ⟨r, hr, h⟩

end StakkerMio
