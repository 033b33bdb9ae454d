import StakkerMio.MioPoll.Priority

/-! # How long an event waits

An event waits for as long as there is something to deliver above its level. Each poll that
passes it over empties a level above, so it can be passed over once for every such level
that holds events, and once more for each event that is reported for one of them while it
waits. That is all the fairness there is: sources that have events at every poll are served
before those below them, however long that goes on. -/
namespace StakkerMio
open Lib

variable {S F ρ : Type} [Slab S (Entry F)]

namespace Control
variable {c d : Control S F ρ}

/-- How many levels above `i` hold events. -/
def above (c : Control S F ρ) (i : Nat) : Nat := Levels.above i Scheduler.levels c.queue

/-- How many of the events are for tokens with a priority above `i`. -/
def arrivalsAbove (c : Control S F ρ) (i : Nat) (events : List (Event ρ)) : Nat :=
  Levels.arrivalsAbove (Scheduler.place c.tokenMap) i events

omit [Slab S (Entry F)] in
/-- Level `10` holds nothing between polls. -/
theorem above_le (c : Control S F ρ) (i : Nat) : c.above i ≤ MAX_PRI - i - 1 := by
  rw [above, Scheduler.levels, Levels.above_succ_nil (c.queue_nil_of_ge (le_refl _))]
  exact Levels.above_le i MAX_PRI c.queue

/-- A queued event with an entry is delivered, or it stays and a level above is emptied. -/
theorem Inv.passes (hc : c.Inv) {events : List (Event ρ)} {rv : Bool × Bool}
    {calls : List (Call F ρ)} (hpoll : c.pollEvents events = .ret (d, rv, calls)) {i : Nat}
    {q : QueueEvent ρ} (hq : q ∈ c.queue i) {entry : Entry F}
    (he : Slab.get c.tokenMap q.token = some entry) :
    ⟨q.token, entry.fwd, q.ready⟩ ∈ calls ∨
      q ∈ d.queue i ∧ 1 + d.above i ≤ c.above i + c.arrivalsAbove i events := by
  have hi : i < Scheduler.levels := by
    by_contra hge
    rw [c.queue_nil_of_ge (le_trans (Nat.le_succ _) (Nat.le_of_not_lt hge))] at hq
    cases hq
  have hdeliver : Scheduler.deliver c.tokenMap q =
      some (⟨q.token, entry.fwd, q.ready⟩ : Call F ρ) := by
    rw [Scheduler.deliver, he]
    rfl
  have hfile : Levels.file (Scheduler.place c.tokenMap) c.queue events = c.waiting events :=
    funext fun j => Levels.file_apply _ _ _ j
  have hfiled := Levels.above_file (Scheduler.place c.tokenMap) i Scheduler.levels c.queue events
  have hmem : q ∈ c.waiting events i := List.mem_append_left _ hq
  have hserve := Levels.serve_waits hi hmem hdeliver
  rw [hc.poll_served hpoll] at hserve
  rw [hfile] at hfiled
  rcases hserve with hcall | ⟨hstays, hlt⟩
  · exact .inl hcall
  · refine .inr ⟨hstays, ?_⟩
    change Levels.above i Scheduler.levels d.queue < _ at hlt
    rw [above, above, arrivalsAbove]
    omega

/-- While an event above its level can be delivered, a queued event stays. -/
theorem Inv.holds (hc : c.Inv) {events : List (Event ρ)} {rv : Bool × Bool}
    {calls : List (Call F ρ)} (hpoll : c.pollEvents events = .ret (d, rv, calls)) {i : Nat}
    (habove : 0 < c.arrivalsAbove i events) {q : QueueEvent ρ} (hq : q ∈ c.queue i) :
    q ∈ d.queue i := by
  obtain ⟨ev, hev, hpri⟩ := List.countP_pos_iff.mp habove
  obtain ⟨p, hplace, hlt⟩ := (Option.any_eq_true _ _).mp hpri
  obtain ⟨entry, he, rfl⟩ := Option.map_eq_some_iff.mp hplace
  have hdue : c.due (F := F) events entry.pri ≠ [] := by
    refine List.ne_nil_of_mem (a := ⟨ev.token, entry.fwd, ev.ready⟩) (List.mem_filterMap.mpr
      ⟨⟨ev.token, ev.ready⟩, List.mem_append_right _ (Levels.mem_arrivals.mpr ⟨ev, hev, ?_⟩), ?_⟩)
    · exact hplace
    · rw [Scheduler.deliver, he]
      rfl
  cases hc.servesLevel hpoll with
  | nothing hdead _ => exact absurd (hdead entry.pri) hdue
  | level l _ _ hdead hqueue =>
    have hle : entry.pri ≤ l := by
      by_contra hgt
      exact hdue (hdead entry.pri (Nat.lt_of_not_le hgt))
    have hil : i < l := lt_of_lt_of_le (of_decide_eq_true hlt) hle
    rw [hqueue, if_neg (Nat.not_le.mpr hil)]
    exact List.mem_append_left _ hq

end Control

namespace System
variable {s t : System (Control S F ρ) F ρ} {i : Nat} {q : QueueEvent ρ}

/-- A poll that succeeds. -/
def answered : Op F ρ → Bool
  | .poll outcomes => (retry outcomes).returns Except.isOk
  | _ => false

/-- How many events the operation reports for tokens with a priority above `i`. -/
def overtaking (i : Nat) (s : System (Control S F ρ) F ρ) : Op F ρ → Nat
  | .poll outcomes => match retry outcomes with
    | .ret (.ok events) => s.ctrl.arrivalsAbove i events
    | _ => 0
  | _ => 0

/-- The operation is a poll, and it calls the handler that the token has with the value. -/
def Delivers (q : QueueEvent ρ) (s : System (Control S F ρ) F ρ) (op : Op F ρ)
    (t : System (Control S F ρ) F ρ) : Prop :=
  ∃ outcomes entry rv calls, op = .poll outcomes ∧
    Slab.get s.ctrl.tokenMap q.token = some entry ∧
    t.polled = s.polled ++ [(.ok rv, calls)] ∧ ⟨q.token, entry.fwd, q.ready⟩ ∈ calls

/-- The event is queued at level `i`. -/
structure Waits (q : QueueEvent ρ) (i : Nat) (s : System (Control S F ρ) F ρ) : Prop where
  owned : s.Owned
  queued : q ∈ s.ctrl.queue i

/-- A step leaves the queues alone, or it is a poll that succeeds. -/
theorem Owned.next_queue (hs : s.Owned) {op : Op F ρ} (ht : s.next op = .ret t) :
    (answered op = false ∧ t.ctrl.queue = s.ctrl.queue) ∨
    ∃ outcomes events rv calls, op = .poll outcomes ∧ retry outcomes = .ret (.ok events) ∧
      s.ctrl.pollEvents events = .ret (t.ctrl, rv, calls) ∧
      t.polled = s.polled ++ [(.ok rv, calls)] := by
  cases op with
  | add pri fwd register =>
    rcases next_add ht with ⟨e, -, rfl⟩ | ⟨-, rfl⟩
    · exact .inl ⟨rfl, rfl⟩
    · exact .inl ⟨rfl, rfl⟩
  | drop id deregister =>
    rcases next_drop (fun src => hs.occupied) ht with ⟨-, rfl⟩ | ⟨src, errors, -, rfl⟩
    · exact .inl ⟨rfl, rfl⟩
    · exact .inl ⟨rfl, rfl⟩
  | setWakeFwd fwd =>
    obtain ⟨entry, -, rfl⟩ := next_setWakeFwd ht
    exact .inl ⟨rfl, rfl⟩
  | poll outcomes =>
    rcases next_poll ht with ⟨e, he, rfl⟩ | ⟨events, ctrl, rv, calls, hevents, hev, rfl⟩
    · refine .inl ⟨?_, rfl⟩
      rw [answered, he]
      rfl
    · exact .inr ⟨outcomes, events, rv, calls, rfl, hevents, hev, rfl⟩

/-- A step delivers the event, or it stays queued; a poll that passes it over uses up a level
above or a new event. -/
theorem Waits.next (h : Waits q i s) {op : Op F ρ}
    (hlive : (Slab.get s.ctrl.tokenMap q.token).isSome) (ht : s.next op = .ret t) :
    (q ∈ s.ctrl.queue i ∧ Delivers q s op t) ∨ Waits q i t ∧
      (answered op).toNat + t.ctrl.above i ≤ s.ctrl.above i + overtaking i s op := by
  have howned := h.owned.next ht
  rcases h.owned.next_queue ht with ⟨hop, hqueue⟩ |
    ⟨outcomes, events, rv, calls, rfl, hevents, hev, hpolled⟩
  · refine .inr ⟨⟨howned, hqueue ▸ h.queued⟩, ?_⟩
    rw [hop, Control.above, Control.above, hqueue, Bool.toNat_false, Nat.zero_add]
    exact Nat.le_add_right _ _
  · obtain ⟨entry, hentry⟩ := Option.isSome_iff_exists.mp hlive
    rcases h.owned.inv.passes hev h.queued hentry with hcall | ⟨hstays, hle⟩
    · exact .inl ⟨h.queued, outcomes, entry, rv, calls, rfl, hentry, hpolled, hcall⟩
    · refine .inr ⟨⟨howned, hstays⟩, ?_⟩
      rw [answered, overtaking, hevents]
      exact hle

/-- The waker's token, and that of a source that is not dropped, keep their entries. -/
theorem Owned.stays (hs : s.Owned) {more : List (Op F ρ)}
    (hlive : q.token = WAKER_TOKEN ∨ ∃ src ∈ s.sources, src.token = q.token ∧
      ∀ deregister, Op.drop src.id deregister ∉ more) :
    Meets System.next (fun u _ => (Slab.get u.ctrl.tokenMap q.token).isSome) s more := by
  rcases hlive with hw | ⟨src, hsrc, htoken, hkept⟩
  · refine Meets.of_invariant (Q := fun _ => True) (fun u op v hu _ hv => Owned.next hu hv)
      (fun u op hu _ => ?_) (fun _ _ => trivial) hs
    rw [hw]
    exact hu.waker
  · refine Meets.of_invariant (Q := fun op => ∀ deregister, op ≠ .drop src.id deregister)
      (I := fun u => u.Owned ∧ src ∈ u.sources) (fun u op v hu hop hv => ?_)
      (fun u op hu _ => ?_) (fun op hop deregister heq => hkept deregister (heq ▸ hop)) ⟨hs, hsrc⟩
    · refine ⟨hu.1.next hv, ?_⟩
      cases op with
      | add pri fwd register =>
        rcases next_add hv with ⟨e, -, rfl⟩ | ⟨-, rfl⟩
        · exact hu.2
        · exact List.mem_append_left _ hu.2
      | drop id deregister =>
        rcases next_drop (fun src => hu.1.occupied) hv with ⟨-, rfl⟩ | ⟨src', errors, -, rfl⟩
        · exact hu.2
        · refine List.mem_filter.mpr ⟨hu.2, ?_⟩
          rw [bne_iff_ne]
          rintro rfl
          exact hop deregister rfl
      | setWakeFwd fwd =>
        obtain ⟨entry, -, rfl⟩ := next_setWakeFwd hv
        exact hu.2
      | poll outcomes =>
        rcases next_poll hv with ⟨e, -, rfl⟩ | ⟨events, ctrl, rv, calls, -, -, rfl⟩
        · exact hu.2
        · exact hu.2
    · rw [← htoken]
      exact hu.1.occupied hu.2

/-- **Bounded waiting.** From any reachable state, whatever sources are added and dropped
meanwhile, an event queued for the waker or for a source that is kept is delivered to the
handler of its token, or it is still queued at its level. As long as it is, the polls that
succeeded are no more than the levels above that held events, nine at most, and the events
that were reported for higher priorities since. -/
theorem bounded_wait {nop wake : F} {wakerPri : Nat} {waker : List (Result Unit)}
    {c : Control S F ρ} (hnew : MioPoll.new nop wake wakerPri waker = .ret (.ok c))
    (ops : List (Op F ρ)) (s : System (Control S F ρ) F ρ)
    (hrun : ({ ctrl := c } : System (Control S F ρ) F ρ).runs ops = .ret s)
    (i : Nat) (q : QueueEvent ρ) (hq : q ∈ s.ctrl.queue i)
    (more : List (Op F ρ)) (t : System (Control S F ρ) F ρ) (hmore : s.runs more = .ret t)
    (hlive : q.token = WAKER_TOKEN ∨ ∃ src ∈ s.sources, src.token = q.token ∧
      ∀ deregister, Op.drop src.id deregister ∉ more) :
    s.ctrl.above i ≤ MAX_PRI - i - 1 ∧
    ((∃ pre op post u v, more = pre ++ op :: post ∧ s.runs pre = .ret u ∧ u.next op = .ret v ∧
        q ∈ u.ctrl.queue i ∧ Delivers q u op v) ∨
      q ∈ t.ctrl.queue i ∧
        more.countP answered + t.ctrl.above i ≤
          s.ctrl.above i + tally System.next (overtaking i) s more) := by
  have hs : s.Owned := (Owned.start hnew).runs hrun
  refine ⟨s.ctrl.above_le i, ?_⟩
  have hwaits : Waits q i s := ⟨hs, hq⟩
  rcases Meets.until (fun _ _ _ hu hop hv => Waits.next hu hop hv) (hs.stays hlive) hwaits
    hmore with hdone | ⟨hwaits, hle⟩
  · exact .inl hdone
  · exact .inr ⟨hwaits.queued, hle⟩

/-- An event waits behind one level that holds another: one poll may pass it over. -/
theorem bounded_wait_sample : ∃ s t : Sample,
    Sample.start.runs [.add 9 7 [.ok ()], .add 3 8 [.ok ()], .add 6 9 [.ok ()],
      .poll [.ok [⟨2, 40⟩, ⟨1, 41⟩, ⟨3, 42⟩]]] = .ret s ∧
    s.runs [.poll [.ok [⟨2, 43⟩]], .drop 3 [.ok ()]] = .ret t ∧
    ((∃ pre op post u v, [.poll [.ok [⟨2, 43⟩]], .drop 3 [.ok ()]] = pre ++ op :: post ∧
        s.runs pre = .ret u ∧ u.next op = .ret v ∧ ⟨2, 40⟩ ∈ u.ctrl.queue 3 ∧
        Delivers ⟨2, 40⟩ u op v) ∨
      ⟨2, 40⟩ ∈ t.ctrl.queue 3 ∧ 1 + t.ctrl.above 3 ≤ 1) := by
  obtain ⟨s, hs, htest⟩ := Exec.exists_ret_of
    (x := Sample.start.runs [.add 9 7 [.ok ()], .add 3 8 [.ok ()], .add 6 9 [.ok ()],
      .poll [.ok [⟨2, 40⟩, ⟨1, 41⟩, ⟨3, 42⟩]]])
    (p := fun s => decide (⟨2, 40⟩ ∈ s.ctrl.queue 3 ∧ (∃ src ∈ s.sources, src.token = 2 ∧
      src.id = 2) ∧ s.ctrl.above 3 = 1 ∧
      tally System.next (overtaking 3) s [.poll [.ok [⟨2, 43⟩]], .drop 3 [.ok ()]] = 0 ∧
      (s.runs [.poll [.ok [⟨2, 43⟩]], .drop 3 [.ok ()]]).isRet = true)) (by decide +kernel)
  obtain ⟨hq, ⟨src, hsrc, htoken, hid⟩, habove, htally, hret⟩ := of_decide_eq_true htest
  obtain ⟨t, ht⟩ := Exec.exists_ret hret
  have hwait := (bounded_wait MioPoll.sample_new _ s hs 3 ⟨2, 40⟩ hq _ t ht
    (.inr ⟨src, hsrc, htoken, by simp [hid]⟩)).2
  rw [habove, htally] at hwait
  exact ⟨s, t, hs, ht, hwait⟩

/-! ## Strict priority -/

theorem Waits.held (h : Waits q i s) {op : Op F ρ}
    (hop : answered op = true → 0 < overtaking i s op) (ht : s.next op = .ret t) :
    Waits q i t := by
  refine ⟨h.owned.next ht, ?_⟩
  rcases h.owned.next_queue ht with ⟨-, hqueue⟩ |
    ⟨outcomes, events, rv, calls, rfl, hevents, hev, -⟩
  · exact hqueue ▸ h.queued
  · have hanswered : answered (.poll outcomes : Op F ρ) = true := by
      rw [answered, hevents]
      rfl
    have habove := hop hanswered
    rw [overtaking, hevents] at habove
    exact h.owned.inv.holds hev habove h.queued

/-- **Strict priority.** As long as each poll that succeeds reports an event for a token with
a higher priority, a queued event stays queued, whatever else is done and however long. -/
theorem held_back {nop wake : F} {wakerPri : Nat} {waker : List (Result Unit)}
    {c : Control S F ρ} (hnew : MioPoll.new nop wake wakerPri waker = .ret (.ok c))
    (ops : List (Op F ρ)) (s : System (Control S F ρ) F ρ)
    (hrun : ({ ctrl := c } : System (Control S F ρ) F ρ).runs ops = .ret s)
    (i : Nat) (q : QueueEvent ρ) (hq : q ∈ s.ctrl.queue i)
    (more : List (Op F ρ)) (t : System (Control S F ρ) F ρ) (hmore : s.runs more = .ret t)
    (hbusy : Meets System.next (fun u op => answered op = true → 0 < overtaking i u op) s more) :
    q ∈ t.ctrl.queue i := by
  have hwaits : Waits q i s := ⟨(Owned.start hnew).runs hrun, hq⟩
  exact (hbusy.invariant (fun _ _ _ hu hop hv => Waits.held hu hop hv) hwaits hmore).queued

/-- Two polls that report the first source, with a source added above both in between. -/
theorem held_back_sample : ∃ s t : Sample,
    Sample.start.runs [.add 9 7 [.ok ()], .add 3 8 [.ok ()],
      .poll [.ok [⟨2, 40⟩, ⟨1, 41⟩]]] = .ret s ∧
    s.runs [.poll [.ok [⟨1, 42⟩]], .add 10 9 [.ok ()], .poll [.ok [⟨1, 43⟩]]] = .ret t ∧
    ⟨2, 40⟩ ∈ t.ctrl.queue 3 := by
  obtain ⟨s, hs, htest⟩ := Exec.exists_ret_of
    (x := Sample.start.runs [.add 9 7 [.ok ()], .add 3 8 [.ok ()],
      .poll [.ok [⟨2, 40⟩, ⟨1, 41⟩]]])
    (p := fun s => decide (⟨2, 40⟩ ∈ s.ctrl.queue 3 ∧ Meets System.next
      (fun u op => answered op = true → 0 < overtaking 3 u op) s
        [.poll [.ok [⟨1, 42⟩]], .add 10 9 [.ok ()], .poll [.ok [⟨1, 43⟩]]] ∧
      (s.runs [.poll [.ok [⟨1, 42⟩]], .add 10 9 [.ok ()],
        .poll [.ok [⟨1, 43⟩]]]).isRet = true)) (by decide +kernel)
  obtain ⟨hq, hbusy, hret⟩ := of_decide_eq_true htest
  obtain ⟨t, ht⟩ := Exec.exists_ret hret
  exact ⟨s, t, hs, ht, held_back MioPoll.sample_new _ s hs 3 ⟨2, 40⟩ hq _ t ht hbusy⟩

end System
end StakkerMio
