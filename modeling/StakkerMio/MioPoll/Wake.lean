import StakkerMio.MioPoll.Priority
import Mathlib.Data.List.Forall2

/-! # The waker

The waker has an entry of its own, made by `MioPoll::new` and never removed, so its
token always stands for it: no wake event is lost or given to a source, and the handler
called is the one that was set last. -/
namespace StakkerMio
open Lib

variable {S F ρ : Type} [Slab S (Entry F)]

namespace System
variable {s t : System (Control S F ρ) F ρ} {wake : F} {wakerPri : Nat} {ops : List (Op F ρ)}

/-- The wake handler after the operations. -/
def lastWake (wake : F) : List (Op F ρ) → F
  | [] => wake
  | .setWakeFwd fwd :: ops => lastWake fwd ops
  | _ :: ops => lastWake wake ops

/-- The wake handler at each of the polls. -/
def wakeAt (wake : F) : List (Op F ρ) → List F
  | [] => []
  | .setWakeFwd fwd :: ops => wakeAt fwd ops
  | .poll _ :: ops => wake :: wakeAt wake ops
  | _ :: ops => wakeAt wake ops

/-- The value, if the token it comes with is the waker's. -/
def ofWaker (token : Nat) (ready : ρ) : Option ρ :=
  if token = WAKER_TOKEN then some ready else none

/-- The wake events among those reported. -/
def wakesIn (events : List (Event ρ)) : List ρ :=
  events.filterMap fun ev => ofWaker ev.token ev.ready

/-- The wake events that the polls reported. -/
def wakes (ops : List (Op F ρ)) : List ρ :=
  ops.flatMap fun op => match op with
    | .poll outcomes => match retry outcomes with
      | .ret (.ok events) => wakesIn events
      | _ => []
    | _ => []

/-- The values that calls for the waker's token were made with. -/
def woken (calls : List (Call F ρ)) : List ρ :=
  calls.filterMap fun call => ofWaker call.token call.ready

/-- The wake events that wait at a level. -/
def wakesAt (c : Control S F ρ) (i : Nat) : List ρ :=
  (c.queue i).filterMap fun q => ofWaker q.token q.ready

/-- The wake events that wait, from the highest level down. -/
def wakesQueued (c : Control S F ρ) : List ρ :=
  (List.range Scheduler.levels).reverse.flatMap (wakesAt c)

omit [Slab S (Entry F)] in
theorem lastWake_concat (op : Op F ρ) : lastWake wake (ops ++ [op]) = match op with
    | .setWakeFwd fwd => fwd
    | _ => lastWake wake ops := by
  induction ops generalizing wake with
  | nil => cases op <;> rfl
  | cons o ops ih =>
    cases o with
    | setWakeFwd fwd => exact ih
    | _ => exact ih

omit [Slab S (Entry F)] in
theorem wakeAt_concat (op : Op F ρ) : wakeAt wake (ops ++ [op]) = wakeAt wake ops ++ match op with
    | .poll _ => [lastWake wake ops]
    | _ => [] := by
  induction ops generalizing wake with
  | nil => cases op <;> rfl
  | cons o ops ih =>
    cases o with
    | poll outcomes => exact congrArg (wake :: ·) ih
    | _ => exact ih

omit [Slab S (Entry F)] in
theorem wakes_concat (op : Op F ρ) : wakes (ops ++ [op]) = wakes ops ++ wakes [op] := by
  simp [wakes]

/-- What a run keeps of the waker. -/
structure Wakes (wake : F) (wakerPri : Nat) (ops : List (Op F ρ))
    (s : System (Control S F ρ) F ρ) : Prop where
  entry : Slab.get s.ctrl.tokenMap WAKER_TOKEN = some ⟨min wakerPri MAX_PRI, lastWake wake ops⟩
  home : ∀ i, ∀ q ∈ s.ctrl.queue i, q.token = WAKER_TOKEN → i = min wakerPri MAX_PRI
  exact : wakes ops =
    woken (s.polled.flatMap Prod.snd) ++ wakesAt s.ctrl (min wakerPri MAX_PRI)
  handlers : List.Forall₂ (fun fwd p => ∀ call ∈ p.2, call.token = WAKER_TOKEN → call.fwd = fwd)
    (wakeAt wake ops) s.polled

/-- An operation that reports no event and calls no handler. -/
theorem Wakes.quiet (h : s.Wakes wake wakerPri ops) {op : Op F ρ} (hwakes : wakes [op] = [])
    (hentry : Slab.get t.ctrl.tokenMap WAKER_TOKEN =
      some ⟨min wakerPri MAX_PRI, lastWake wake (ops ++ [op])⟩)
    (hqueue : t.ctrl.queue = s.ctrl.queue)
    (hcalls : t.polled.flatMap Prod.snd = s.polled.flatMap Prod.snd)
    (hhandlers : List.Forall₂
      (fun fwd p => ∀ call ∈ p.2, call.token = WAKER_TOKEN → call.fwd = fwd)
      (wakeAt wake (ops ++ [op])) t.polled) : t.Wakes wake wakerPri (ops ++ [op]) where
  entry := hentry
  home := by
    rw [hqueue]
    exact h.home
  exact := by
    rw [wakes_concat, hwakes, List.append_nil, h.exact, hcalls, wakesAt, wakesAt, hqueue]
  handlers := hhandlers

/-- The waker's events wait at its level, also those just reported. -/
theorem Wakes.waiting_home (h : s.Wakes wake wakerPri ops) {events : List (Event ρ)} {i : Nat}
    {q : QueueEvent ρ} (hq : q ∈ s.ctrl.waiting events i) (hw : q.token = WAKER_TOKEN) :
    i = min wakerPri MAX_PRI := by
  rcases List.mem_append.mp hq with hq | hq
  · exact h.home i q hq hw
  · obtain ⟨ev, -, hplace⟩ := Levels.mem_arrivals.mp hq
    obtain ⟨entry, he, hpair⟩ := Option.map_eq_some_iff.mp hplace
    cases hpair
    change ev.token = WAKER_TOKEN at hw
    rw [hw, h.entry] at he
    cases he
    rfl

/-- Those reported arrive at that level. -/
theorem Wakes.arrivals (h : s.Wakes wake wakerPri ops) (events : List (Event ρ)) :
    (Levels.arrivals (Scheduler.place s.ctrl.tokenMap) (min wakerPri MAX_PRI) events).filterMap
      (fun q => ofWaker q.token q.ready) = wakesIn events := by
  rw [Levels.arrivals, List.filterMap_filterMap, wakesIn]
  refine List.filterMap_congr fun ev _ => ?_
  by_cases hw : ev.token = WAKER_TOKEN
  · simp [Scheduler.place, ofWaker, hw, h.entry]
  · cases he : Slab.get s.ctrl.tokenMap ev.token with
    | none => simp [Scheduler.place, ofWaker, he, hw]
    | some e =>
      by_cases hp : e.pri = min wakerPri MAX_PRI <;>
        simp [Scheduler.place, ofWaker, he, hp, hw]

/-- What a poll finds at the waker's level is delivered to it or left there. -/
theorem Wakes.served (h : s.Wakes wake wakerPri ops) (hs : s.Owned) {events : List (Event ρ)}
    {ctrl : Control S F ρ} {rv : Bool × Bool} {calls : List (Call F ρ)}
    (hev : s.ctrl.pollEvents events = .ret (ctrl, rv, calls)) :
    wakesAt s.ctrl (min wakerPri MAX_PRI) ++ wakesIn events =
      woken calls ++ wakesAt ctrl (min wakerPri MAX_PRI) := by
  have hlevel : min wakerPri MAX_PRI < Scheduler.levels :=
    Nat.lt_succ_of_le (min_le_right _ _)
  have hserve := Levels.serve_own (Scheduler.deliver s.ctrl.tokenMap)
    (fun q : QueueEvent ρ => ofWaker q.token q.ready)
    (fun call : Call F ρ => ofWaker call.token call.ready)
    (s.ctrl.waiting events) hlevel (fun i q hq hown => ?_) (fun q call hcall => ?_)
  · rwa [hs.inv.poll_served hev, Control.waiting, List.filterMap_append, h.arrivals] at hserve
  · by_cases hw : q.token = WAKER_TOKEN
    · refine ⟨h.waiting_home hq hw, ?_⟩
      rw [Control.deliver_isSome, hw, h.entry]
      rfl
    · simp [ofWaker, hw] at hown
  · obtain ⟨entry, -, rfl⟩ := Option.map_eq_some_iff.mp hcall
    rfl

/-- The events of one poll: those of the waker go to its level, and leave it for its
handler. -/
theorem Wakes.polled (h : s.Wakes wake wakerPri ops) (hs : s.Owned)
    {outcomes : List (Result (List (Event ρ)))} {events : List (Event ρ)} {ctrl : Control S F ρ}
    {rv : Bool × Bool} {calls : List (Call F ρ)} (hevents : retry outcomes = .ret (.ok events))
    (hev : s.ctrl.pollEvents events = .ret (ctrl, rv, calls)) :
    Wakes wake wakerPri (ops ++ [.poll outcomes])
      { s with ctrl := ctrl, polled := s.polled ++ [(.ok rv, calls)] } := by
  have hserved := hs.inv.poll_served hev
  refine ⟨?_, fun i q hq hw => ?_, ?_, ?_⟩
  · rw [lastWake_concat]
    change Slab.get ctrl.tokenMap WAKER_TOKEN = _
    rw [hs.inv.poll_tokenMap hev]
    exact h.entry
  · change q ∈ ctrl.queue i at hq
    have hor := @Levels.serve_or _ _ (Scheduler.deliver (F := F) s.ctrl.tokenMap)
      Scheduler.levels i (s.ctrl.waiting events)
    rw [hserved] at hor
    rcases hor with hor | hor
    · change ctrl.queue i = _ at hor
      rw [hor] at hq
      exact h.waiting_home hq hw
    · change ctrl.queue i = [] at hor
      rw [hor] at hq
      cases hq
  · have hwakes : wakes [(.poll outcomes : Op F ρ)] = wakesIn events := by
      simp [wakes, hevents]
    have hwoken : woken ((s.polled ++ [(Except.ok rv, calls)]).flatMap Prod.snd) =
        woken (s.polled.flatMap Prod.snd) ++ woken calls := by
      simp [woken]
    rw [wakes_concat, hwakes, h.exact, List.append_assoc, h.served hs hev, ← List.append_assoc,
      hwoken]
  · rw [wakeAt_concat]
    refine List.rel_append h.handlers (.cons (fun call hcall hw => ?_) .nil)
    have hmem : call ∈ (Levels.serve (Scheduler.deliver s.ctrl.tokenMap) Scheduler.levels
        (s.ctrl.waiting events)).1 := by
      rw [hserved]
      exact hcall
    obtain ⟨i, q, -, hq⟩ := Levels.mem_serve hmem
    obtain ⟨entry, he, rfl⟩ := Option.map_eq_some_iff.mp hq
    change q.token = WAKER_TOKEN at hw
    rw [hw, h.entry] at he
    cases he
    rfl

theorem Wakes.next (h : s.Wakes wake wakerPri ops) (hs : s.Owned) {op : Op F ρ}
    (ht : s.next op = .ret t) : t.Wakes wake wakerPri (ops ++ [op]) := by
  cases op with
  | add pri fwd register =>
    have hentry : Slab.get (s.ctrl.enter pri fwd).tokenMap WAKER_TOKEN =
        some ⟨min wakerPri MAX_PRI, lastWake wake (ops ++ [.add pri fwd register])⟩ := by
      rw [lastWake_concat, ← h.entry, Control.enter,
        Slab.get_insert_ne _ (Slab.ne_insert _ h.entry)]
    have hhandlers : wakeAt wake (ops ++ [.add pri fwd register]) = wakeAt wake ops := by
      rw [wakeAt_concat, List.append_nil]
    rcases next_add ht with ⟨e, -, rfl⟩ | ⟨-, rfl⟩
    · exact h.quiet rfl hentry rfl rfl (hhandlers ▸ h.handlers)
    · exact h.quiet rfl hentry rfl rfl (hhandlers ▸ h.handlers)
  | drop id deregister =>
    have hhandlers : wakeAt wake (ops ++ [.drop id deregister]) = wakeAt wake ops := by
      rw [wakeAt_concat, List.append_nil]
    rcases next_drop (fun src => hs.occupied) ht with ⟨-, rfl⟩ | ⟨src, errors, hsrc, rfl⟩
    · refine h.quiet rfl ?_ rfl rfl (hhandlers ▸ h.handlers)
      rw [lastWake_concat]
      exact h.entry
    · have hmem := (source_mem hsrc).1
      refine h.quiet rfl ?_ rfl rfl (hhandlers ▸ h.handlers)
      rw [lastWake_concat, ← h.entry]
      change Slab.get (Slab.remove s.ctrl.tokenMap src.token) WAKER_TOKEN = _
      rw [Slab.get_remove _ _ _ (hs.occupied hmem), if_neg (hs.ne_waker src hmem).symm]
  | setWakeFwd fwd =>
    obtain ⟨entry, hw, rfl⟩ := next_setWakeFwd ht
    refine h.quiet rfl ?_ rfl rfl ?_
    · rw [lastWake_concat]
      change Slab.get (Slab.set s.ctrl.tokenMap WAKER_TOKEN _) WAKER_TOKEN = _
      rw [Slab.get_set _ _ _ _ hs.waker, if_pos rfl]
      rw [h.entry] at hw
      cases hw
      rfl
    · rw [wakeAt_concat, List.append_nil]
      exact h.handlers
  | poll outcomes =>
    rcases next_poll ht with ⟨e, he, rfl⟩ | ⟨events, ctrl, rv, calls, hevents, hev, rfl⟩
    · refine h.quiet ?_ ?_ rfl ?_ ?_
      · simp [wakes, he]
      · rw [lastWake_concat]
        exact h.entry
      · simp
      · rw [wakeAt_concat]
        exact List.rel_append h.handlers (.cons (fun call hcall => by cases hcall) .nil)
    · exact h.polled hs hevents hev

theorem Wakes.start {nop : F} {waker : List (Result Unit)} {c : Control S F ρ}
    (hnew : MioPoll.new nop wake wakerPri waker = .ret (.ok c)) :
    Wakes wake wakerPri [] ({ ctrl := c } : System (Control S F ρ) F ρ) := by
  have hqueue : ∀ i, c.queue i = [] := by
    intro i
    rw [MioPoll.new_returns hnew]
    exact MioPoll.view_replicate i
  refine ⟨?_, fun i q hq => ?_, ?_, .nil⟩
  · change Slab.get c.tokenMap WAKER_TOKEN = _
    rw [MioPoll.new_get hnew, if_pos rfl]
    rfl
  · change q ∈ c.queue i at hq
    rw [hqueue] at hq
    cases hq
  · rw [wakesAt]
    change _ = _ ++ (c.queue _).filterMap _
    rw [hqueue]
    rfl

theorem Wakes.of_runs {nop : F} {waker : List (Result Unit)} {c : Control S F ρ}
    (hnew : MioPoll.new nop wake wakerPri waker = .ret (.ok c))
    (hrun : ({ ctrl := c } : System (Control S F ρ) F ρ).runs ops = .ret s) :
    s.Wakes wake wakerPri ops :=
  (run_history (J := fun ops s => s.Owned ∧ s.Wakes wake wakerPri ops)
    ⟨Owned.start hnew, Wakes.start hnew⟩
    (fun _ _ _ _ hu hv => ⟨hu.1.next hv, hu.2.next hu.1 hv⟩) hrun).2

theorem Wakes.queued (h : s.Wakes wake wakerPri ops) :
    wakesQueued s.ctrl = wakesAt s.ctrl (min wakerPri MAX_PRI) := by
  refine @Levels.flatMap_level _ (wakesAt s.ctrl) _ (fun j hj => ?_) _
    (List.nodup_reverse.mpr List.nodup_range) ?_
  · rw [wakesAt, List.filterMap_eq_nil_iff]
    intro q hq
    exact if_neg fun hw => hj (h.home j q hq hw)
  · rw [List.mem_reverse, List.mem_range]
    exact Nat.lt_succ_of_le (min_le_right _ _)

/-- **The waker.** After any run the wake events reported are, one by one, those the wake
handler was called with and then those still queued; whatever sources were added and
dropped, each of the calls was made to the handler that had been set last when the poll
was made. Its entry keeps the priority it was given. -/
theorem wake_exact {nop : F} {waker : List (Result Unit)} {c : Control S F ρ}
    (hnew : MioPoll.new nop wake wakerPri waker = .ret (.ok c)) (ops : List (Op F ρ))
    (s : System (Control S F ρ) F ρ)
    (hrun : ({ ctrl := c } : System (Control S F ρ) F ρ).runs ops = .ret s) :
    wakes ops = woken (s.polled.flatMap Prod.snd) ++ wakesQueued s.ctrl ∧
    List.Forall₂ (fun fwd p => ∀ call ∈ p.2, call.token = WAKER_TOKEN → call.fwd = fwd)
      (wakeAt wake ops) s.polled ∧
    Slab.get s.ctrl.tokenMap WAKER_TOKEN = some ⟨min wakerPri MAX_PRI, lastWake wake ops⟩ := by
  have h := Wakes.of_runs hnew hrun
  rw [h.queued]
  exact ⟨h.exact, h.handlers, h.entry⟩

/-- A wake event waits behind a source's, and the handler is replaced before it is called. -/
theorem wake_exact_sample : ∃ s : Sample, Sample.start.runs
      [.add 9 7 [.ok ()], .poll [.ok [⟨0, 40⟩, ⟨1, 41⟩]], .setWakeFwd 6, .poll [.ok []]] = .ret s ∧
    [40] = woken (s.polled.flatMap Prod.snd) ++ wakesQueued s.ctrl ∧
    List.Forall₂ (fun fwd p => ∀ call ∈ p.2, call.token = WAKER_TOKEN → call.fwd = fwd)
      [1, 6] s.polled := by
  obtain ⟨s, hs⟩ := Exec.exists_ret (x := Sample.start.runs
    [.add 9 7 [.ok ()], .poll [.ok [⟨0, 40⟩, ⟨1, 41⟩]], .setWakeFwd 6, .poll [.ok []]]) rfl
  obtain ⟨hwakes, hhandlers, -⟩ := wake_exact MioPoll.sample_new _ s hs
  exact ⟨s, hs, hwakes, hhandlers⟩

end System
end StakkerMio
