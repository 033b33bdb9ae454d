import StakkerMio.MioPoll.Ownership

/-! # What `poll` returns

`activity` says whether a handler was called, `io_pending` whether anything is still
queued. A queued event whose source was dropped in the meantime counts until a later
poll comes to its level. -/
namespace StakkerMio
open Lib

variable {S F ρ : Type} [Slab S (Entry F)]

namespace Control
variable {c d : Control S F ρ}

/-- Some queued event would be delivered: its token is occupied. -/
def Deliverable (c : Control S F ρ) : Prop :=
  ∃ i, ∃ q ∈ c.queue i, (Slab.get c.tokenMap q.token).isSome

omit [Slab S (Entry F)] in
theorem queue_nil_of_ge (c : Control S F ρ) {i : Nat} (hi : MAX_PRI ≤ i) : c.queue i = [] :=
  Queues.view_of_ge _ hi

instance (c : Control S F ρ) : Decidable c.Deliverable :=
  decidable_of_iff
    (∃ i, i < MAX_PRI ∧ ∃ q ∈ c.queue i, (Slab.get c.tokenMap q.token).isSome = true) <| by
    constructor
    · rintro ⟨i, -, hq⟩
      exact ⟨i, hq⟩
    · rintro ⟨i, q, hq, hsome⟩
      refine ⟨i, ?_, q, hq, hsome⟩
      by_contra hge
      rw [c.queue_nil_of_ge (Nat.le_of_not_lt hge)] at hq
      cases hq

theorem deliver_isSome {tokenMap : S} {q : QueueEvent ρ} :
    (Scheduler.deliver tokenMap q).isSome = (Slab.get tokenMap q.token).isSome :=
  Option.isSome_map

/-- What a poll returns, in terms of the queues it leaves. -/
structure Answers (d : Control S F ρ) (rv : Bool × Bool) (calls : List (Call F ρ)) : Prop where
  activity : rv.1 = true ↔ calls ≠ []
  pending : rv.2 = true ↔ ∃ i, d.queue i ≠ []
  emptied : calls = [] → ∀ i, d.queue i = []

omit [Slab S (Entry F)] in
/-- Pending events imply activity. -/
theorem Answers.activity_of_pending {rv : Bool × Bool} {calls : List (Call F ρ)}
    (h : d.Answers rv calls) (hp : rv.2 = true) : rv.1 = true := by
  obtain ⟨i, hi⟩ := h.pending.mp hp
  rw [h.activity]
  intro hcalls
  exact hi (h.emptied hcalls i)

theorem Inv.answers (hc : c.Inv) {events : List (Event ρ)} {rv : Bool × Bool}
    {calls : List (Call F ρ)} (hpoll : c.pollEvents events = .ret (d, rv, calls)) :
    d.Answers rv calls := by
  obtain ⟨d', hpoll', habs, hinv, -⟩ := pollEvents_refines hc events
  rw [hpoll] at hpoll'
  cases hpoll'
  have hqueue : d.queue = (c.abs.pollEvents (F := F) events).1.lists :=
    congrArg Scheduler.lists habs
  have hge : ∀ i, Scheduler.levels ≤ i → d.queue i = [] := by
    intro i hi
    exact d.queue_nil_of_ge (by unfold Scheduler.levels at hi; omega)
  refine ⟨?_, ?_, fun hcalls i => ?_⟩
  · simp
  · change Levels.pending Scheduler.levels (c.abs.pollEvents (F := F) events).1.lists = true ↔ _
    rw [← hqueue, Levels.pending_iff]
    constructor
    · rintro ⟨i, -, hi⟩
      exact ⟨i, hi⟩
    · rintro ⟨i, hi⟩
      refine ⟨i, ?_, hi⟩
      by_contra hlt
      exact hi (hge i (Nat.le_of_not_lt hlt))
  · by_cases hi : i < Scheduler.levels
    · rw [hqueue]
      have hserve : (Levels.serve (Scheduler.deliver (F := F) c.tokenMap) Scheduler.levels
          (Levels.file (Scheduler.place c.tokenMap) c.queue events)).1 = [] := hcalls
      exact Levels.serve_emptied hserve hi
    · exact hge i (Nat.le_of_not_lt hi)

/-- With no new events a handler is called exactly if some queued event can be
delivered. -/
theorem Inv.calls_nil_iff (hc : c.Inv) {rv : Bool × Bool} {calls : List (Call F ρ)}
    (hpoll : c.pollEvents [] = .ret (d, rv, calls)) : calls ≠ [] ↔ c.Deliverable := by
  obtain ⟨d', hpoll', -⟩ := pollEvents_refines hc []
  rw [hpoll] at hpoll'
  cases hpoll'
  change (Levels.serve (Scheduler.deliver c.tokenMap) Scheduler.levels c.queue).1 ≠ [] ↔ _
  rw [Ne, Levels.serve_eq_nil_iff]
  constructor
  · intro hlive
    by_contra hnone
    refine hlive fun i _ => List.filterMap_eq_nil_iff.mpr fun q hq => ?_
    rw [← Option.isNone_iff_eq_none, ← Option.not_isSome, deliver_isSome]
    simpa using fun hsome => hnone ⟨i, q, hq, hsome⟩
  · rintro ⟨i, q, hq, hsome⟩ hdead
    have hi : i < Scheduler.levels := by
      by_contra hge
      rw [c.queue_nil_of_ge (by unfold Scheduler.levels at hge; omega)] at hq
      cases hq
    have hnone := List.filterMap_eq_nil_iff.mp (hdead i hi) q hq
    rw [← deliver_isSome (F := F), hnone] at hsome
    cases hsome

end Control

namespace System
variable {s t u : System (Control S F ρ) F ρ}

/-- Setting the wake handler leaves the queues and the occupied tokens as they are. -/
theorem Owned.wakes (ht : t.Owned) {ops : List (Op F ρ)}
    (hops : ∀ op ∈ ops, ∃ fwd, op = .setWakeFwd fwd) (hrun : t.runs ops = .ret u) :
    u.Owned ∧ u.polled = t.polled ∧ u.ctrl.queue = t.ctrl.queue ∧
      (u.ctrl.Deliverable ↔ t.ctrl.Deliverable) := by
  induction ops generalizing t with
  | nil =>
    cases hrun
    exact ⟨ht, rfl, rfl, Iff.rfl⟩
  | cons op ops ih =>
    obtain ⟨m, hm, hrest⟩ := run_cons_eq_ret.mp hrun
    obtain ⟨fwd, rfl⟩ := hops op List.mem_cons_self
    obtain ⟨hu, hpolled, hqueue, hdel⟩ :=
      ih (ht.next hm) (fun op hop => hops op (List.mem_cons_of_mem _ hop)) hrest
    obtain ⟨entry, hw, rfl⟩ := next_setWakeFwd hm
    refine ⟨hu, hpolled, hqueue, hdel.trans ?_⟩
    have hsome : ∀ k, (Slab.get (Slab.set t.ctrl.tokenMap WAKER_TOKEN
        { entry with fwd := fwd }) k).isSome = (Slab.get t.ctrl.tokenMap k).isSome := by
      intro k
      rw [Slab.get_set _ _ _ _ ht.waker]
      split
      · rename_i hk
        rw [hk, hw]
        rfl
      · rfl
    unfold Control.Deliverable
    simp only [hsome]
    rfl

/-- **`io_pending`.** A successful poll of any run returns it as true exactly if some
event is still queued, and then there was activity. If it is called again with no new
events, and no source was added or dropped in between, it calls a handler exactly if
one of the queued events can be delivered; if none can, it empties the queues. -/
theorem io_pending_queued {nop wake : F} {wakerPri : Nat} {waker : List (Result Unit)}
    {c : Control S F ρ} (hnew : MioPoll.new nop wake wakerPri waker = .ret (.ok c))
    (ops : List (Op F ρ)) (s t : System (Control S F ρ) F ρ)
    (hrun : ({ ctrl := c } : System (Control S F ρ) F ρ).runs ops = .ret s)
    (outcomes : List (Result (List (Event ρ)))) (rv : Bool × Bool) (calls : List (Call F ρ))
    (hpoll : s.next (.poll outcomes) = .ret t)
    (hok : t.polled = s.polled ++ [(.ok rv, calls)]) :
    (rv.1 = true ↔ calls ≠ []) ∧ (rv.2 = true ↔ ∃ i, t.ctrl.queue i ≠ []) ∧
    (rv.2 = true → rv.1 = true) ∧
    ∀ wakes u, (∀ op ∈ wakes, ∃ fwd, op = .setWakeFwd fwd) → t.runs wakes = .ret u →
    ∀ again, retry again = .ret (.ok []) → ∃ v rv' calls',
      u.next (.poll again) = .ret v ∧ v.polled = t.polled ++ [(.ok rv', calls')] ∧
      (rv'.1 = true ↔ t.ctrl.Deliverable) ∧
      (rv'.1 = false → rv'.2 = false ∧ ∀ i, v.ctrl.queue i = []) := by
  have hs : s.Owned := (Owned.start hnew).runs hrun
  have ht : t.Owned := hs.next hpoll
  have hanswers : t.ctrl.Answers rv calls := by
    rcases next_poll hpoll with ⟨e, -, rfl⟩ | ⟨events, ctrl, rv', calls', -, hev, rfl⟩
    · have hlast := List.append_cancel_left hok
      cases hlast
    · have hlast := List.append_cancel_left hok
      cases hlast
      exact hs.inv.answers hev
  refine ⟨hanswers.activity, hanswers.pending, hanswers.activity_of_pending, ?_⟩
  intro wakes u hwakes hu again hagain
  obtain ⟨hu, hpolled, -, hdel⟩ := ht.wakes hwakes hu
  obtain ⟨d, hev, -⟩ := Control.pollEvents_refines hu.inv ([] : List (Event ρ))
  generalize (u.ctrl.abs.pollEvents (F := F) []).2 = r at hev
  obtain ⟨rv', calls'⟩ := r
  have hv : u.next (.poll again) =
      .ret { u with ctrl := d, polled := u.polled ++ [(.ok rv', calls')] } := by
    simp only [next, step, Control.controller, Control.poll, hagain, Exec.ret_bind, hev]
  have hanswers' : d.Answers rv' calls' := hu.inv.answers hev
  refine ⟨_, rv', calls', hv, by rw [hpolled], ?_, fun hidle => ?_⟩
  · rw [hanswers'.activity, hu.inv.calls_nil_iff hev]
    exact hdel
  · have hnil : ∀ i, d.queue i = [] := by
      refine hanswers'.emptied ?_
      by_contra hcalls
      rw [hanswers'.activity.mpr hcalls] at hidle
      cases hidle
    refine ⟨?_, hnil⟩
    by_contra hp
    obtain ⟨i, hi⟩ := hanswers'.pending.mp (by simpa using hp)
    exact hi (hnil i)

/-- The systems of the samples. -/
abbrev Sample : Type := System (Control (FreeSlab (Entry Nat)) Nat Nat) Nat Nat

abbrev Sample.start : Sample := { ctrl := MioPoll.sample }

/-- Of two events the one of lower priority stays queued; polled again, with the wake
handler set in between, it is delivered. -/
theorem io_pending_queued_sample : ∃ s t u : Sample,
    Sample.start.runs [.add 9 7 [.ok ()], .add 3 8 [.ok ()]] = .ret s ∧
    s.next (.poll [.ok [⟨2, 40⟩, ⟨1, 41⟩]]) = .ret t ∧ t.runs [.setWakeFwd 5] = .ret u ∧
    ∃ v rv' calls', u.next (.poll [.ok []]) = .ret v ∧
      v.polled = t.polled ++ [(.ok rv', calls')] ∧ (rv'.1 = true ↔ t.ctrl.Deliverable) := by
  obtain ⟨s, hs, hpoll⟩ := Exec.exists_ret_of
    (x := Sample.start.runs [.add 9 7 [.ok ()], .add 3 8 [.ok ()]])
    (p := fun s => (s.next (.poll [.ok [⟨2, 40⟩, ⟨1, 41⟩]])).returns fun t : Sample =>
      decide (t.polled = s.polled ++ [(.ok (true, true), [⟨1, 7, 41⟩])]) &&
        (t.runs [.setWakeFwd 5]).isRet) (by decide +kernel)
  obtain ⟨t, ht, htest⟩ := Exec.exists_ret_of hpoll
  obtain ⟨hok, hwake⟩ := Bool.and_eq_true_iff.mp htest
  obtain ⟨u, hu⟩ := Exec.exists_ret hwake
  obtain ⟨-, -, -, hagain⟩ := io_pending_queued MioPoll.sample_new _ s t hs _ _ _ ht
    (of_decide_eq_true hok)
  obtain ⟨v, rv', calls', hv, hpolled, hact, -⟩ := hagain [.setWakeFwd 5] u
    (fun op hop => ⟨5, List.mem_singleton.mp hop⟩) hu [.ok []] rfl
  exact ⟨s, t, u, hs, ht, hu, v, rv', calls', hv, hpolled, hact⟩

/-- An event stays queued behind one of a higher priority, and its source is dropped.
The next poll serves a new event of the higher priority and still returns `io_pending`
as true, with no event queued for a source that is alive; the one after it, with no new
events, calls no handler. -/
theorem io_pending_stale : ∃ s t : Sample, Sample.start.runs
      [.add 9 7 [.ok ()], .add 3 8 [.ok ()], .poll [.ok [⟨2, 40⟩, ⟨1, 41⟩]],
        .drop 2 [.ok ()], .poll [.ok [⟨1, 42⟩]]] = .ret s ∧
    s.polled.getLast? = some (.ok (true, true), [⟨1, 7, 42⟩]) ∧ ¬ s.ctrl.Deliverable ∧
    s.next (.poll [.ok []]) = .ret t ∧ t.polled.getLast? = some (.ok (false, false), []) :=
  ⟨_, _, rfl, rfl, by decide +kernel, rfl, rfl⟩

end System
end StakkerMio
