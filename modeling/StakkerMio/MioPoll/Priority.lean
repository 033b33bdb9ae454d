import StakkerMio.MioPoll.Footprint
import StakkerMio.MioPoll.Pending

/-! # Which handlers a poll calls

A poll serves one level: the highest that has an event to deliver, with all its events in
the order they came. What waits below it is untouched, and polls without new events serve
one level after the other. Where all priorities are the same nothing ever waits. -/
namespace StakkerMio
open Lib

variable {S F ρ : Type} [Slab S (Entry F)]

namespace Control
variable {c d : Control S F ρ}

/-- The events that wait at each level once new ones are filed: those queued, then the new
ones of the level in the order reported. -/
def waiting (c : Control S F ρ) (events : List (Event ρ)) : Levels (QueueEvent ρ) :=
  fun i => c.queue i ++ Levels.arrivals (Scheduler.place c.tokenMap) i events

/-- The calls that the events waiting at a level lead to. -/
def due (c : Control S F ρ) (events : List (Event ρ)) (i : Nat) : List (Call F ρ) :=
  (c.waiting events i).filterMap (Scheduler.deliver c.tokenMap)

/-- What a poll does: it calls no handler, or those of one level. -/
inductive ServesLevel (c : Control S F ρ) (events : List (Event ρ)) (d : Control S F ρ) :
    List (Call F ρ) → Prop
  | nothing : (∀ i, c.due events i = []) → (∀ i, d.queue i = []) → ServesLevel c events d []
  | level (l : Nat) : l ≤ MAX_PRI → c.due events l ≠ [] → (∀ i, l < i → c.due events i = []) →
      (∀ i, d.queue i = if l ≤ i then [] else c.waiting events i) →
      ServesLevel c events d (c.due events l)

/-- Nothing waits above the levels. -/
theorem Inv.waiting_ge (hc : c.Inv) (events : List (Event ρ)) {i : Nat}
    (hi : Scheduler.levels ≤ i) : c.waiting events i = [] := by
  have hlt : MAX_PRI < i := hi
  have harrivals : Levels.arrivals (Scheduler.place c.tokenMap) i events = [] := by
    rw [List.eq_nil_iff_forall_not_mem]
    intro q hq
    obtain ⟨ev, -, hplace⟩ := Levels.mem_arrivals.mp hq
    obtain ⟨entry, he, heq⟩ := Option.map_eq_some_iff.mp hplace
    have hle := le_trans (hc.entry_le _ entry he) hc.maxPri_le
    have hpri : entry.pri = i := congrArg Prod.fst heq
    omega
  rw [waiting, harrivals, c.queue_nil_of_ge hlt.le, List.append_nil]

/-- The calls and the queues left are those of the reference. -/
theorem Inv.poll_served (hc : c.Inv) {events : List (Event ρ)} {rv : Bool × Bool}
    {calls : List (Call F ρ)} (hpoll : c.pollEvents events = .ret (d, rv, calls)) :
    Levels.serve (Scheduler.deliver c.tokenMap) Scheduler.levels (c.waiting events) =
      (calls, d.queue) := by
  obtain ⟨d', hpoll', habs, -⟩ := pollEvents_refines hc events
  have heq := Exec.ret.inj (hpoll.symm.trans hpoll')
  have hd : d = d' := congrArg Prod.fst heq
  have hcalls : calls = (c.abs.pollEvents (F := F) events).2.2 := congrArg (fun x => x.2.2) heq
  have hfile : Levels.file (Scheduler.place c.tokenMap) c.queue events = c.waiting events :=
    funext fun i => Levels.file_apply _ _ _ i
  rw [← hfile, hd]
  exact Prod.ext hcalls.symm (congrArg Scheduler.lists habs).symm

theorem Inv.servesLevel (hc : c.Inv) {events : List (Event ρ)} {rv : Bool × Bool}
    {calls : List (Call F ρ)} (hpoll : c.pollEvents events = .ret (d, rv, calls)) :
    c.ServesLevel events d calls := by
  have hserved := hc.poll_served hpoll
  have hge : ∀ i, Scheduler.levels ≤ i → c.due events i = [] := by
    intro i hi
    rw [due, hc.waiting_ge events hi]
    rfl
  rcases Levels.live_cases (Scheduler.deliver (F := F) c.tokenMap) Scheduler.levels
      (c.waiting events) with hdead | ⟨l, hl, hlive, hdead⟩
  · rw [Levels.serve_dead hdead] at hserved
    obtain ⟨hcalls, hqueue⟩ := Prod.mk.inj hserved
    rw [← hcalls]
    refine .nothing (fun i => ?_) fun i => ?_
    · by_cases hi : i < Scheduler.levels
      · exact hdead i hi
      · exact hge i (Nat.le_of_not_lt hi)
    · rw [← hqueue]
      dsimp only
      split
      · rfl
      · exact hc.waiting_ge events (Nat.le_of_not_lt ‹_›)
  · rw [Levels.serve_level hl hlive hdead] at hserved
    obtain ⟨hcalls, hqueue⟩ := Prod.mk.inj hserved
    rw [← hcalls]
    refine .level l (Nat.lt_succ_iff.mp hl) hlive (fun i hi => ?_) fun i => ?_
    · by_cases hin : i < Scheduler.levels
      · exact hdead i hi hin
      · exact hge i (Nat.le_of_not_lt hin)
    · rw [← hqueue]
      dsimp only
      by_cases hin : i < Scheduler.levels
      · by_cases hli : l ≤ i
        · rw [if_pos ⟨hli, hin⟩, if_pos hli]
        · rw [if_neg fun h => hli h.1, if_neg hli]
      · rw [if_neg fun h => hin h.2, hc.waiting_ge events (Nat.le_of_not_lt hin), ite_self]

/-! ## Polls without new events -/

/-- What is left to deliver, one list for each level that has something. -/
def batches (c : Control S F ρ) : List (List (Call F ρ)) :=
  Levels.batches (Scheduler.deliver c.tokenMap) MAX_PRI c.queue

theorem batches_levels (c : Control S F ρ) :
    Levels.batches (Scheduler.deliver (F := F) c.tokenMap) Scheduler.levels c.queue =
      c.batches := by
  refine Levels.batches_succ_nil ?_
  rw [c.queue_nil_of_ge (le_refl _)]
  rfl

theorem Inv.poll_tokenMap (hc : c.Inv) {events : List (Event ρ)} {rv : Bool × Bool}
    {calls : List (Call F ρ)} (hpoll : c.pollEvents events = .ret (d, rv, calls)) :
    d.tokenMap = c.tokenMap := by
  obtain ⟨d', hpoll', -, -, hframe⟩ := pollEvents_refines hc events
  have hd : d = d' := congrArg Prod.fst (Exec.ret.inj (hpoll.symm.trans hpoll'))
  rw [hd, hframe]

theorem Inv.poll_batches (hc : c.Inv) {rv : Bool × Bool} {calls : List (Call F ρ)}
    (hpoll : c.pollEvents [] = .ret (d, rv, calls)) :
    calls = c.batches.headD [] ∧ rv.1 = !c.batches.isEmpty ∧ d.batches = c.batches.tail ∧
      (c.batches = [] → ∀ i, d.queue i = []) := by
  have hanswers := hc.answers hpoll
  have hserved := hc.poll_served hpoll
  have hwaiting : c.waiting [] = c.queue := funext fun i => List.append_nil _
  obtain ⟨hfirst, hrest⟩ := @Levels.serve_batches _ _ (Scheduler.deliver (F := F) c.tokenMap)
    Scheduler.levels (c.waiting [])
  rw [hserved, hwaiting, batches_levels] at hfirst hrest
  have hcalls : calls = c.batches.headD [] := hfirst
  have hrest : d.batches = c.batches.tail := by
    rw [← batches_levels, ← hrest, hc.poll_tokenMap hpoll]
  have hempty : (c.batches.headD [] = [] ↔ c.batches = []) := by
    constructor
    · intro hnil
      by_contra hne
      obtain ⟨out, rest, hcons⟩ := List.exists_cons_of_ne_nil hne
      rw [hcons] at hnil
      have hmem : out ∈ c.batches := by
        rw [hcons]
        exact List.mem_cons_self
      exact Levels.ne_nil_of_mem_batches hmem hnil
    · intro hnil
      rw [hnil]
      rfl
  refine ⟨hcalls, ?_, hrest, fun hnil => hanswers.emptied (hcalls.trans (hempty.mpr hnil))⟩
  rw [Bool.eq_iff_iff, hanswers.activity, hcalls, Ne, hempty, Bool.not_eq_true',
    List.isEmpty_eq_false_iff]

/-! ## The fast path -/

/-- The calls that new events lead to where none of them is queued. -/
def immediate (c : Control S F ρ) (events : List (Event ρ)) : List (Call F ρ) :=
  events.filterMap fun ev => Scheduler.deliver c.tokenMap ⟨ev.token, ev.ready⟩

/-- If every entry has the highest priority, all events take the fast path. -/
theorem pollEvent_fast {events : List (Event ρ)} {p : Polling S F ρ}
    (hpri : ∀ k e, Slab.get p.ctrl.tokenMap k = some e → e.pri = p.ctrl.maxPri) :
    events.foldlM pollEvent p = .ret { p with
      done := p.done || !(p.ctrl.immediate events).isEmpty
      calls := p.calls ++ p.ctrl.immediate events } := by
  induction events generalizing p with
  | nil => simp [immediate]
  | cons ev events ih =>
    rw [List.foldlM_cons, pollEvent]
    cases he : Slab.get p.ctrl.tokenMap ev.token with
    | none =>
      have hdead : p.ctrl.immediate (ev :: events) = p.ctrl.immediate events := by
        simp [immediate, Scheduler.deliver, he]
      rw [hdead]
      exact ih hpri
    | some entry =>
      have hlive : p.ctrl.immediate (ev :: events) =
          ⟨ev.token, entry.fwd, ev.ready⟩ :: p.ctrl.immediate events := by
        simp [immediate, Scheduler.deliver, he]
      dsimp only
      rw [if_pos (hpri _ _ he), Exec.ret_bind, hlive]
      have hrest := ih (p := { p with
        done := true, calls := p.calls ++ [⟨ev.token, entry.fwd, ev.ready⟩] }) hpri
      rw [hrest]
      simp

end Control

namespace System
variable {s t : System (Control S F ρ) F ρ}

/-- **Priorities.** In every reachable state a successful poll calls no handler, if none of
the events that wait can be delivered, or the handlers of a single level: the highest one
that has an event to deliver, with all its events in the order they were reported. What
waits below that level stays as it is. -/
theorem poll_serves_level {nop wake : F} {wakerPri : Nat} {waker : List (Result Unit)}
    {c : Control S F ρ} (hnew : MioPoll.new nop wake wakerPri waker = .ret (.ok c))
    (ops : List (Op F ρ)) (s t : System (Control S F ρ) F ρ)
    (hrun : ({ ctrl := c } : System (Control S F ρ) F ρ).runs ops = .ret s)
    (outcomes : List (Result (List (Event ρ)))) (events : List (Event ρ))
    (hevents : retry outcomes = .ret (.ok events)) (hpoll : s.next (.poll outcomes) = .ret t) :
    ∃ rv calls, t.polled = s.polled ++ [(.ok rv, calls)] ∧
      s.ctrl.ServesLevel events t.ctrl calls := by
  have hs : s.Owned := (Owned.start hnew).runs hrun
  rcases next_poll hpoll with ⟨e, he, rfl⟩ | ⟨events', ctrl, rv, calls, hevents', hev, rfl⟩
  · rw [hevents] at he
    cases he
  · rw [hevents] at hevents'
    cases hevents'
    exact ⟨rv, calls, rfl, hs.inv.servesLevel hev⟩

/-- Of three events the one with the highest priority is delivered. -/
theorem poll_serves_level_sample : ∃ s t : Sample,
    Sample.start.runs [.add 9 7 [.ok ()], .add 3 8 [.ok ()]] = .ret s ∧
    s.next (.poll [.ok [⟨2, 40⟩, ⟨1, 41⟩, ⟨2, 42⟩]]) = .ret t ∧
    ∃ rv calls, t.polled = s.polled ++ [(.ok rv, calls)] ∧
      s.ctrl.ServesLevel [⟨2, 40⟩, ⟨1, 41⟩, ⟨2, 42⟩] t.ctrl calls := by
  obtain ⟨s, hs, hpoll⟩ := Exec.exists_ret_of
    (x := Sample.start.runs [.add 9 7 [.ok ()], .add 3 8 [.ok ()]])
    (p := fun s => (s.next (.poll [.ok [⟨2, 40⟩, ⟨1, 41⟩, ⟨2, 42⟩]])).isRet) rfl
  obtain ⟨t, ht⟩ := Exec.exists_ret hpoll
  exact ⟨s, t, hs, ht, poll_serves_level MioPoll.sample_new _ s t hs _ _ rfl ht⟩

theorem Owned.poll_idle (hs : s.Owned) {outcomes : List (Result (List (Event ρ)))}
    (hidle : retry outcomes = .ret (.ok [])) : ∃ t rv,
      s.next (.poll outcomes) = .ret t ∧
      t.polled = s.polled ++ [(.ok rv, s.ctrl.batches.headD [])] ∧
      rv.1 = !s.ctrl.batches.isEmpty ∧ t.ctrl.batches = s.ctrl.batches.tail ∧
      (s.ctrl.batches = [] → ∀ i, t.ctrl.queue i = []) := by
  obtain ⟨d, hev, -⟩ := Control.pollEvents_refines hs.inv ([] : List (Event ρ))
  generalize (s.ctrl.abs.pollEvents (F := F) []).2 = r at hev
  obtain ⟨rv, calls⟩ := r
  obtain ⟨rfl, hact, hrest, hnil⟩ := hs.inv.poll_batches hev
  refine ⟨{ s with ctrl := d, polled := s.polled ++ [(.ok rv, s.ctrl.batches.headD [])] }, rv,
    ?_, rfl, hact, hrest, hnil⟩
  simp only [step, Control.controller, Control.poll, hidle, Exec.ret_bind, hev]

/-- The flags and calls of polls that find `bs` left to deliver. -/
def drained (bs : List (List (Call F ρ))) (n : Nat) : List (Result Bool × List (Call F ρ)) :=
  (List.range n).map fun k => (.ok (decide (k < bs.length)), bs.getD k [])

omit [Slab S (Entry F)] in
theorem drained_succ (bs : List (List (Call F ρ))) (n : Nat) :
    drained bs (n + 1) = (.ok (!bs.isEmpty), bs.headD []) :: drained bs.tail n := by
  rw [drained, drained, List.range_succ_eq_map, List.map_cons, List.map_map]
  cases bs with
  | nil => simp [Function.comp_def]
  | cons out bs =>
    refine congrArg _ (List.map_congr_left fun k _ => ?_)
    have hlt : decide (k + 1 < (out :: bs).length) = decide (k < bs.length) :=
      decide_eq_decide.mpr Nat.succ_lt_succ_iff
    exact Prod.ext (congrArg Except.ok hlt) rfl

theorem Owned.polls_idle (hs : s.Owned) {polls : List (List (Result (List (Event ρ))))}
    (hidle : ∀ outcomes ∈ polls, retry outcomes = .ret (.ok [])) : ∃ t results,
      s.runs (polls.map Op.poll) = .ret t ∧ t.polled = s.polled ++ results ∧
      results.map (Prod.map (Except.map Prod.fst) id) = drained s.ctrl.batches polls.length ∧
      (s.ctrl.batches.length < polls.length → ∀ i, t.ctrl.queue i = []) := by
  induction polls generalizing s with
  | nil => exact ⟨s, [], rfl, (List.append_nil _).symm, rfl, fun h => absurd h (Nat.not_lt_zero _)⟩
  | cons outcomes polls ih =>
    obtain ⟨m, rv, hm, hpolled, hact, hrest, hnil⟩ := hs.poll_idle (hidle _ List.mem_cons_self)
    obtain ⟨t, results, ht, hpolled', hresults, hempty⟩ :=
      ih (hs.next hm) fun o ho => hidle o (List.mem_cons_of_mem _ ho)
    refine ⟨t, (.ok rv, s.ctrl.batches.headD []) :: results, ?_, ?_, ?_, fun hlt => ?_⟩
    · exact run_cons_eq_ret.mpr ⟨m, hm, ht⟩
    · rw [hpolled', hpolled, List.append_assoc]
      rfl
    · rw [List.map_cons, hresults, hrest, List.length_cons, drained_succ, ← hact]
      rfl
    · rw [List.length_cons] at hlt
      rw [hrest, List.length_tail] at hempty
      cases polls with
      | nil =>
        cases ht
        exact hnil (List.length_eq_zero_iff.mp (by simpa using hlt))
      | cons o polls =>
        rw [List.length_cons] at hlt hempty
        exact hempty (by omega)

/-- **Draining.** From any reachable state, polls that report nothing new deliver what is
queued one level after the other, from the highest down and in order within a level, and
say they were active as long as there was something to deliver: after as many polls as
there are such levels, ten at most, all of it is delivered, and with one more every queue
is empty. -/
theorem polls_drain_levels {nop wake : F} {wakerPri : Nat} {waker : List (Result Unit)}
    {c : Control S F ρ} (hnew : MioPoll.new nop wake wakerPri waker = .ret (.ok c))
    (ops : List (Op F ρ)) (s : System (Control S F ρ) F ρ)
    (hrun : ({ ctrl := c } : System (Control S F ρ) F ρ).runs ops = .ret s)
    (polls : List (List (Result (List (Event ρ)))))
    (hidle : ∀ outcomes ∈ polls, retry outcomes = .ret (.ok [])) :
    s.ctrl.batches.length ≤ MAX_PRI ∧
    s.ctrl.batches.flatten = (List.range MAX_PRI).reverse.flatMap (s.ctrl.due []) ∧
    ∃ t results, s.runs (polls.map Op.poll) = .ret t ∧ t.polled = s.polled ++ results ∧
      results.map (Prod.map (Except.map Prod.fst) id) = drained s.ctrl.batches polls.length ∧
      (s.ctrl.batches.length < polls.length → ∀ i, t.ctrl.queue i = []) := by
  refine ⟨Levels.batches_length_le _ _, ?_, ((Owned.start hnew).runs hrun).polls_idle hidle⟩
  have hdue : s.ctrl.due [] = fun i =>
      (s.ctrl.queue i).filterMap (Scheduler.deliver s.ctrl.tokenMap) := by
    funext i
    rw [Control.due, Control.waiting, Levels.arrivals_nil, List.append_nil]
  rw [hdue]
  exact Levels.batches_flatten _ _

/-- Two levels with an event each wait behind a third; two polls deliver them. -/
theorem polls_drain_levels_sample : ∃ s t : Sample, ∃ results,
    Sample.start.runs [.add 9 7 [.ok ()], .add 3 8 [.ok ()], .add 6 9 [.ok ()],
      .poll [.ok [⟨2, 40⟩, ⟨1, 41⟩, ⟨3, 42⟩]]] = .ret s ∧
    s.runs [.poll [.ok []], .poll [.ok []]] = .ret t ∧ t.polled = s.polled ++ results ∧
    results.map (Prod.map (Except.map Prod.fst) id) =
      [(.ok true, [⟨3, 9, 42⟩]), (.ok true, [⟨2, 8, 40⟩])] := by
  obtain ⟨s, hs, hbatches⟩ := Exec.exists_ret_of
    (x := Sample.start.runs [.add 9 7 [.ok ()], .add 3 8 [.ok ()], .add 6 9 [.ok ()],
      .poll [.ok [⟨2, 40⟩, ⟨1, 41⟩, ⟨3, 42⟩]]])
    (p := fun s => decide (drained s.ctrl.batches 2 =
      [(.ok true, [⟨3, 9, 42⟩]), (.ok true, [⟨2, 8, 40⟩])])) (by decide +kernel)
  obtain ⟨-, -, t, results, ht, hpolled, hresults, -⟩ :=
    polls_drain_levels MioPoll.sample_new _ s hs [[.ok []], [.ok []]] (by
      intro outcomes ho
      rcases List.mem_cons.mp ho with rfl | ho
      · rfl
      · cases List.mem_singleton.mp ho
        rfl)
  exact ⟨s, t, results, hs, ht, hpolled, hresults.trans (of_decide_eq_true hbatches)⟩

/-! ## One priority for all -/

/-- **One priority.** As long as all sources are added with the waker's priority, nothing is
ever queued: each poll calls the handlers of the events it reports at once, in that order,
and leaves the controller as it was. -/
theorem one_priority_immediate {nop wake : F} {wakerPri : Nat} {waker : List (Result Unit)}
    {c : Control S F ρ} (hnew : MioPoll.new nop wake wakerPri waker = .ret (.ok c))
    (ops : List (Op F ρ)) (hops : ∀ a ∈ added ops, min a.1 MAX_PRI = min wakerPri MAX_PRI)
    (s : System (Control S F ρ) F ρ)
    (hrun : ({ ctrl := c } : System (Control S F ρ) F ρ).runs ops = .ret s)
    (events : List (Event ρ)) : (∀ i, s.ctrl.queue i = []) ∧
      s.ctrl.pollEvents events =
        .ret (s.ctrl, (!(s.ctrl.immediate events).isEmpty, false), s.ctrl.immediate events) := by
  have hs : s.Owned := (Owned.start hnew).runs hrun
  obtain ⟨leaked, hfoot⟩ := Footprint.of_runs hnew hrun
  have hasked : ∀ p ∈ asked wakerPri ops, p = min wakerPri MAX_PRI := by
    intro p hp
    rcases List.mem_cons.mp hp with rfl | hp
    · rfl
    · obtain ⟨a, ha, rfl⟩ := List.mem_map.mp hp
      exact hops a ha
  have hmax := hasked _ hfoot.maxPri_mem
  have hpri : ∀ k e, Slab.get s.ctrl.tokenMap k = some e → e.pri = s.ctrl.maxPri := by
    intro k e he
    have hle := le_trans (hs.inv.entry_le k e he) hs.inv.maxPri_le
    rw [hmax]
    exact hasked _ ((hfoot.inUse _ hle).mp (hs.inv.entry_inUse k e he))
  have hqueue : ∀ i, s.ctrl.queue i = [] := by
    intro i
    by_contra hi
    have hlt : i < s.ctrl.maxPri := by
      by_contra hge
      exact hi (hs.inv.queue_top i (Nat.le_of_not_lt hge))
    have hle : i ≤ MAX_PRI := le_trans hlt.le hs.inv.maxPri_le
    have heq := hasked i ((hfoot.inUse i hle).mp (hs.inv.queue_inUse i hi))
    omega
  have hcount : s.ctrl.nQueued = 0 := by
    rw [hs.inv.count]
    exact Levels.total_eq_zero_iff.mpr fun i _ => hqueue i
  refine ⟨hqueue, ?_⟩
  rw [Control.pollEvents, Control.pollEvent_fast hpri]
  simp [Control.drainQueues, hcount]

/-- Two sources with the waker's priority, one of them dropped. -/
theorem one_priority_immediate_sample : ∃ s : Sample,
    Sample.start.runs [.add 5 7 [.ok ()], .add 5 8 [.ok ()], .drop 1 [.ok ()]] = .ret s ∧
    s.ctrl.pollEvents [⟨2, 40⟩, ⟨1, 41⟩, ⟨0, 42⟩] =
      .ret (s.ctrl, (!(s.ctrl.immediate [⟨2, 40⟩, ⟨1, 41⟩, ⟨0, 42⟩]).isEmpty, false),
        s.ctrl.immediate [⟨2, 40⟩, ⟨1, 41⟩, ⟨0, 42⟩]) := by
  obtain ⟨s, hs⟩ := Exec.exists_ret (x := Sample.start.runs
    [.add 5 7 [.ok ()], .add 5 8 [.ok ()], .drop 1 [.ok ()]]) rfl
  exact ⟨s, hs, (one_priority_immediate MioPoll.sample_new _ (by decide) s hs _).2⟩

end System
end StakkerMio
