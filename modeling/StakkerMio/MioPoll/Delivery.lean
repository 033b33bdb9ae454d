import StakkerMio.MioPoll.History

/-! # Exactly-once delivery, and events that cross registrations

For a registration that is still alive, what was reported is what was delivered
followed by what is queued, event by event (`delivery_exact`). A handler may
also be called with events that were queued under its token before it was
added, and with no others (`delivery_origin`). -/
namespace StakkerMio
open Lib

variable {S F ρ : Type} [Slab S (Entry F)]

namespace History
variable {h h' : History S F ρ}

/-- The events reported for a registration. -/
def reportedTo (h : History S F ρ) (id : Nat) : List (Stamped ρ) :=
  h.reported.filterMap (Stamped.own id)

/-- Those of them that were delivered, in the order of the calls. -/
def deliveredOf (h : History S F ρ) (id : Nat) : List (Stamped ρ) :=
  h.delivered.filterMap fun d => d.call.ready.own id

/-- Those of them that still sit in a level's queue. -/
def queuedAt (h : History S F ρ) (id i : Nat) : List (Stamped ρ) :=
  (h.sys.ctrl.queue i).filterMap fun q => q.ready.own id

/-- The same over all levels, from the highest down. -/
def queuedOf (h : History S F ρ) (id : Nat) : List (Stamped ρ) :=
  (List.range (MAX_PRI + 1)).reverse.flatMap (h.queuedAt id)

omit [Slab S (Entry F)] in
theorem own_isSome {id : Nat} {ev : Stamped ρ} : (ev.own id).isSome ↔ ev.owner = some id := by
  unfold Stamped.own
  split <;> simp_all

/-! ## The lists a poll makes -/

omit [Slab S (Entry F)] in
theorem mem_stampEvents {events : List (Event ρ)} {ev : Event (Stamped ρ)}
    (hev : ev ∈ h.stampEvents events) : ev.ready.owner = h.holder ev.token := by
  obtain ⟨⟨e, n⟩, -, rfl⟩ := List.mem_map.mp hev
  rfl

/-- The lists before serving hold what was queued and what was reported now. -/
theorem mem_file {events : List (Event ρ)} {i : Nat} {q : QueueEvent (Stamped ρ)}
    (hq : q ∈ h.filed events i) :
    q ∈ h.sys.ctrl.queue i ∨
      q.ready ∈ (h.stampEvents events).map Event.ready ∧ q.ready.owner = h.holder q.token ∧
        h.level q.token = some i := by
  rw [filed, Levels.file_apply, List.mem_append] at hq
  rcases hq with hq | hq
  · exact .inl hq
  · obtain ⟨ev, hev, hplace⟩ := Levels.mem_arrivals.mp hq
    obtain ⟨entry, he, hpair⟩ := Option.map_eq_some_iff.mp hplace
    cases hpair
    refine .inr ⟨List.mem_map_of_mem hev, mem_stampEvents hev, ?_⟩
    rw [level, he]
    rfl

/-- What arrives at its level for a registration is what was reported for it. -/
theorem Held.arrivals_own (hh : h.Held) {k id i : Nat} (hk : h.holder k = some id)
    (hi : h.level k = some i) (events : List (Event ρ)) :
    (Levels.arrivals (Scheduler.place h.sys.ctrl.tokenMap) i (h.stampEvents events)).filterMap
        (fun q => q.ready.own id) =
      ((h.stampEvents events).map Event.ready).filterMap (Stamped.own id) := by
  obtain ⟨entry, he, hpri⟩ := Option.map_eq_some_iff.mp hi
  rw [Levels.arrivals, List.filterMap_filterMap, List.filterMap_map]
  refine List.filterMap_congr fun ev hev => ?_
  have howner := mem_stampEvents hev
  by_cases hid : ev.ready.owner = some id
  · have hkt : ev.token = k := hh.inj _ _ id (howner.symm.trans hid) hk
    simp [Scheduler.place, hkt, he, hpri]
  · have hnone : ev.ready.own id = none := by simp [Stamped.own, hid]
    cases hget : Slab.get h.sys.ctrl.tokenMap ev.token with
    | none => simp [Scheduler.place, hget, hnone]
    | some e =>
      by_cases hp : e.pri = i <;> simp [Scheduler.place, hget, hp, hnone]

omit [Slab S (Entry F)] in
theorem start_queue (c : Control S F ρ) (hc : c.queues = Vector.replicate MAX_PRI []) (i : Nat) :
    (start c).sys.ctrl.queue i = [] := by
  have hq : (start c).sys.ctrl.queues = Vector.replicate MAX_PRI [] := by
    simp [start, Control.map, Queues.map, hc]
  rw [Control.queue, hq]
  exact MioPoll.view_replicate i

/-! ## Exactly once -/

/-- Where the events of the registrations are. -/
structure Conserved (h : History S F ρ) : Prop where
  serials : h.reported.map Stamped.serial = List.range h.reported.length
  owner_le : ∀ ev ∈ h.reported, ∀ id, ev.owner = some id → id ≤ h.sys.adds
  queued : ∀ i, ∀ q ∈ h.sys.ctrl.queue i, q.ready ∈ h.reported
  home : ∀ i, ∀ q ∈ h.sys.ctrl.queue i, ∀ k id, h.holder k = some id →
    q.ready.owner = some id → q.token = k ∧ h.level k = some i
  delivered : ∀ d ∈ h.delivered, d.call.ready ∈ h.reported
  target : ∀ d ∈ h.delivered, ∀ k id, h.holder k = some id →
    d.call.ready.owner = some id → d.target = some id
  target_le : ∀ d ∈ h.delivered, ∀ id, d.target = some id → id ≤ h.sys.adds
  handler : ∀ d ∈ h.delivered, ∀ src ∈ h.sys.sources,
    d.target = some src.id → d.call.fwd = src.fwd
  exact : ∀ k id i, h.holder k = some id → h.level k = some i →
    h.reportedTo id = h.deliveredOf id ++ h.queuedAt id i
  calls : h.delivered.map Delivery.call = h.sys.polled.flatMap Prod.snd
  settled : ∀ act calls, h.sys.polled.getLast? = some (.ok (act, false), calls) →
    ∀ i, h.sys.ctrl.queue i = []

theorem Conserved.quiet (hc : h.Conserved) (hq : Quiet h h') : h'.Conserved := by
  have hle : ∀ ev ∈ h'.reported, ∀ id, ev.owner = some id → id ≤ h.sys.adds := by
    rw [hq.reported]
    exact hc.owner_le
  have hqueued : ∀ i, ∀ q ∈ h'.sys.ctrl.queue i, q.ready ∈ h'.reported := by
    rw [hq.queue, hq.reported]
    exact hc.queued
  have hdelivered : ∀ d ∈ h'.delivered, d.call.ready ∈ h'.reported := by
    rw [hq.delivered, hq.reported]
    exact hc.delivered
  refine ⟨?_, ?_, hqueued, ?_, hdelivered, ?_, ?_, ?_, ?_, ?_, ?_⟩
  · rw [hq.reported]
    exact hc.serials
  · intro ev hev id hid
    exact le_trans (hle ev hev id hid) hq.adds_le
  · intro i q hmem k id hk hid
    obtain ⟨hk', hlevel⟩ := hq.kept k id hk (hle _ (hqueued i q hmem) id hid)
    rw [hlevel]
    exact hc.home i q (hq.queue ▸ hmem) k id hk' hid
  · intro d hd k id hk hid
    exact hc.target d (hq.delivered ▸ hd) k id
      (hq.kept k id hk (hle _ (hdelivered d hd) id hid)).1 hid
  · intro d hd id hid
    exact le_trans (hc.target_le d (hq.delivered ▸ hd) id hid) hq.adds_le
  · intro d hd src hsrc hid
    have hle := hc.target_le d (hq.delivered ▸ hd) _ hid
    rcases hq.sources src hsrc with hsrc | hlt
    · exact hc.handler d (hq.delivered ▸ hd) src hsrc hid
    · omega
  · intro k id i hk hi
    by_cases hid : id ≤ h.sys.adds
    · obtain ⟨hk', hlevel⟩ := hq.kept k id hk hid
      have hex := hc.exact k id i hk' (hlevel ▸ hi)
      rwa [reportedTo, deliveredOf, queuedAt, hq.reported, hq.delivered, hq.queue]
    · -- a new registration has no events yet
      have hnone : ∀ ev ∈ h'.reported, ev.own id = none := by
        intro ev hev
        have hne : ev.owner ≠ some id := fun ho => hid (hle ev hev id ho)
        simp [Stamped.own, hne]
      have hr : h'.reportedTo id = [] := List.filterMap_eq_nil_iff.mpr hnone
      have hd : h'.deliveredOf id = [] :=
        List.filterMap_eq_nil_iff.mpr fun d hd => hnone _ (hdelivered d hd)
      have hw : h'.queuedAt id i = [] :=
        List.filterMap_eq_nil_iff.mpr fun q hmem => hnone _ (hqueued i q hmem)
      rw [hr, hd, hw]
      rfl
  · rw [hq.delivered, hq.calls]
    exact hc.calls
  · intro act calls hlast
    rw [hq.queue]
    exact hc.settled act calls (hq.last _ _ hlast)

variable {events : List (Event ρ)} {calls : List (Call F (Stamped ρ))}

theorem Polled.level_eq (hp : Polled h events calls h') : h'.level = h.level := by
  funext k
  rw [level, level, hp.tokenMap]

/-- What is queued after a poll was in the lists it served. -/
theorem Polled.queue_sub (hp : Polled h events calls h') {i : Nat} {q : QueueEvent (Stamped ρ)}
    (hq : q ∈ h'.sys.ctrl.queue i) :
    q ∈ h.filed events i := by
  have hor := @Levels.serve_or _ _ (Scheduler.deliver (F := F) h.sys.ctrl.tokenMap)
    Scheduler.levels i (h.filed events)
  rw [hp.served] at hor
  rcases hor with hor | hor
  · exact hor ▸ hq
  · change h'.sys.ctrl.queue i = [] at hor
    rw [hor] at hq
    cases hq

/-- Each call is that of an item of the lists, by the entry its token has. -/
theorem Polled.mem_calls (hp : Polled h events calls h') {call : Call F (Stamped ρ)}
    (hcall : call ∈ calls) :
    ∃ i, ∃ q ∈ h.filed events i, q.token = call.token ∧ q.ready = call.ready ∧
      ∃ entry, Slab.get h.sys.ctrl.tokenMap call.token = some entry ∧ call.fwd = entry.fwd := by
  have hmem : call ∈ (Levels.serve (Scheduler.deliver h.sys.ctrl.tokenMap) Scheduler.levels
      (h.filed events)).1 := by
    rw [hp.served]
    exact hcall
  obtain ⟨i, q, hq, hdeliver⟩ := Levels.mem_serve hmem
  obtain ⟨entry, he, hcall⟩ := Option.map_eq_some_iff.mp hdeliver
  cases hcall
  exact ⟨i, q, hq, rfl, rfl, entry, he, rfl⟩

/-- An event of an alive registration is under its token and at its level. -/
theorem Conserved.file_home (hc : h.Conserved) (hh : h.Held) {i k id : Nat}
    {q : QueueEvent (Stamped ρ)} (hq : q ∈ h.filed events i) (hk : h.holder k = some id)
    (hid : q.ready.owner = some id) : q.token = k ∧ h.level k = some i := by
  rcases mem_file hq with hq | ⟨-, howner, hlevel⟩
  · exact hc.home i q hq k id hk hid
  · have hkt : q.token = k := hh.inj _ _ id (howner.symm.trans hid) hk
    exact ⟨hkt, hkt ▸ hlevel⟩

theorem Conserved.polled (hc : h.Conserved) (hh : h.Held) (hp : Polled h events calls h') :
    h'.Conserved := by
  have hreported : ∀ ev ∈ h.reported, ev ∈ h'.reported := by
    intro ev hev
    rw [hp.reported]
    exact List.mem_append_left _ hev
  have hfile : ∀ i, ∀ q ∈ h.filed events i, q.ready ∈ h'.reported := by
    intro i q hq
    rcases mem_file hq with hq | ⟨hmem, -, -⟩
    · exact hreported _ (hc.queued i q hq)
    · rw [hp.reported]
      exact List.mem_append_right _ hmem
  refine ⟨?_, ?_, ?_, ?_, ?_, ?_, ?_, ?_, ?_, ?_, ?_⟩
  · have hnew : ((h.stampEvents events).map Event.ready).map Stamped.serial =
        List.range' h.reported.length events.length := by
      rw [stampEvents, List.map_map, List.map_map]
      exact List.zipIdx_map_snd _ _
    have hlen : (h.stampEvents events).length = events.length := by simp [stampEvents]
    have happ := List.range'_append_1 (s := 0) (m := h.reported.length) (n := events.length)
    rw [Nat.zero_add] at happ
    rw [hp.reported, List.map_append, hc.serials, hnew, List.length_append, List.length_map, hlen,
      List.range_eq_range', List.range_eq_range', happ]
  · intro ev hev id hid
    rw [hp.adds]
    rw [hp.reported] at hev
    rcases List.mem_append.mp hev with hev | hev
    · exact hc.owner_le ev hev id hid
    · obtain ⟨e, he, rfl⟩ := List.mem_map.mp hev
      exact hh.le _ id ((mem_stampEvents he).symm.trans hid)
  · exact fun i q hq => hfile i q (hp.queue_sub hq)
  · intro i q hq k id hk hid
    rw [hp.level_eq]
    exact hc.file_home hh (hp.queue_sub hq) (hp.holder ▸ hk) hid
  · intro d hd
    rw [hp.delivered] at hd
    rcases List.mem_append.mp hd with hd | hd
    · exact hreported _ (hc.delivered d hd)
    · obtain ⟨call, hcall, rfl⟩ := List.mem_map.mp hd
      obtain ⟨i, q, hq, -, hready, -⟩ := hp.mem_calls hcall
      exact hready ▸ hfile i q hq
  · intro d hd k id hk hid
    rw [hp.holder] at hk
    rw [hp.delivered] at hd
    rcases List.mem_append.mp hd with hd | hd
    · exact hc.target d hd k id hk hid
    · obtain ⟨call, hcall, rfl⟩ := List.mem_map.mp hd
      obtain ⟨i, q, hq, htoken, hready, -⟩ := hp.mem_calls hcall
      have hkt := (hc.file_home hh hq hk (hready ▸ hid)).1
      change h.holder call.token = _
      rw [← htoken, hkt, hk]
  · intro d hd id hid
    rw [hp.adds]
    rw [hp.delivered] at hd
    rcases List.mem_append.mp hd with hd | hd
    · exact hc.target_le d hd id hid
    · obtain ⟨call, -, rfl⟩ := List.mem_map.mp hd
      exact hh.le _ id hid
  · intro d hd src hsrc hid
    rw [hp.sources] at hsrc
    rw [hp.delivered] at hd
    rcases List.mem_append.mp hd with hd | hd
    · exact hc.handler d hd src hsrc hid
    · obtain ⟨call, hcall, rfl⟩ := List.mem_map.mp hd
      obtain ⟨i, q, hq, -, -, entry, he, hfwd⟩ := hp.mem_calls hcall
      have hkt := hh.inj _ _ _ hid (hh.source src hsrc)
      rw [hkt, hh.owned.entry src hsrc] at he
      cases he
      exact hfwd
  · intro k id i hk hi
    rw [hp.holder] at hk
    rw [hp.level_eq] at hi
    obtain ⟨entry, he, hpri⟩ := Option.map_eq_some_iff.mp hi
    have hlt : i < Scheduler.levels := by
      have hle := le_trans (hh.owned.inv.entry_le k entry he) hh.owned.inv.maxPri_le
      rw [← hpri]
      exact Nat.lt_succ_of_le hle
    have hserve := Levels.serve_own (Scheduler.deliver h.sys.ctrl.tokenMap)
      (fun q => q.ready.own id) (fun call : Call F (Stamped ρ) => call.ready.own id)
      (h.filed events) hlt (fun j q hq hown => ?_) (fun q call hdeliver => ?_)
    · rw [hp.served, filed, Levels.file_apply, List.filterMap_append,
        hh.arrivals_own hk hi] at hserve
      have hex := hc.exact k id i hk hi
      rw [reportedTo, hp.reported, List.filterMap_append, ← reportedTo, hex, List.append_assoc,
        queuedAt, hserve, deliveredOf, deliveredOf, hp.delivered, List.filterMap_append,
        List.filterMap_map, List.append_assoc]
      rfl
    · obtain ⟨hkt, hlevel⟩ := hc.file_home hh hq hk (own_isSome.mp hown)
      rw [hi] at hlevel
      cases hlevel
      refine ⟨rfl, ?_⟩
      rw [Scheduler.deliver, hkt, he]
      rfl
    · obtain ⟨e, -, rfl⟩ := Option.map_eq_some_iff.mp hdeliver
      rfl
  · rw [hp.delivered, hp.polled, List.map_append, hc.calls, List.map_map]
    simp [Function.comp_def]
  · intro act cs hlast i
    rw [hp.polled, List.getLast?_concat] at hlast
    have hpending : Levels.pending Scheduler.levels h'.sys.ctrl.queue = false := by
      injection hlast with hlast
      injection (Prod.mk.inj hlast).1 with hflags
      exact (Prod.mk.inj hflags).2
    by_cases hi : i < Scheduler.levels
    · by_contra hne
      rw [Levels.pending_iff.mpr ⟨i, hi, hne⟩] at hpending
      cases hpending
    · unfold Scheduler.levels at hi
      exact hp.owned.inv.queue_top i (le_trans hp.owned.inv.maxPri_le (by omega))

theorem Conserved.start (c : Control S F ρ) (hc : c.queues = Vector.replicate MAX_PRI []) :
    (start c).Conserved where
  serials := rfl
  owner_le ev hev := by cases hev
  queued i q hq := by rw [start_queue c hc] at hq; cases hq
  home i q hq := by rw [start_queue c hc] at hq; cases hq
  delivered d hd := by cases hd
  target d hd := by cases hd
  target_le d hd := by cases hd
  handler d hd := by cases hd
  exact k id i _ _ := by
    rw [queuedAt, start_queue c hc]
    rfl
  calls := rfl
  settled _ _ _ i := start_queue c hc i

/-! ## Where a delivered event comes from -/

/-- Events under a registration's token are its own or were there before it. -/
structure Crossing (h : History S F ρ) : Prop where
  owner : ∀ i, ∀ q ∈ h.sys.ctrl.queue i, q.ready.owner.isSome
  queued : ∀ i, ∀ q ∈ h.sys.ctrl.queue i, ∀ id, h.holder q.token = some id →
    q.ready.owner = some id ∨ q.ready ∈ h.leftover id
  leftover : ∀ id, id ≤ h.sys.adds → ∀ ev ∈ h.leftover id, ∃ id', id' < id ∧ ev.owner = some id'
  delivered : ∀ d ∈ h.delivered, ∃ id, d.target = some id ∧ id ≤ h.sys.adds ∧
    (d.call.ready.owner = some id ∨ d.call.ready ∈ h.leftover id)

omit [Slab S (Entry F)] in
theorem mem_waiting {c : Control S F (Stamped ρ)} {token : Nat} {ev : Stamped ρ} :
    ev ∈ waiting c token ↔
      ∃ i, i < MAX_PRI ∧ ∃ q ∈ c.queue i, q.token = token ∧ q.ready = ev := by
  simp [waiting, and_assoc]

theorem Crossing.quiet (hx : h.Crossing) (hc : h.Conserved) (hh' : h'.Held) (hq : Quiet h h') :
    h'.Crossing := by
  refine ⟨?_, ?_, ?_, ?_⟩
  · rw [hq.queue]
    exact hx.owner
  · intro i q hmem id hk
    rw [hq.queue] at hmem
    by_cases hid : id ≤ h.sys.adds
    · rw [hq.leftover id hid]
      exact hx.queued i q hmem id (hq.kept _ id hk hid).1
    · -- the token was given to a new registration while the event was queued
      right
      obtain ⟨k, hk', hleft⟩ := hq.fresh id (by omega) (hh'.le _ id hk)
      rw [hleft, hh'.inj _ _ id hk' hk, mem_waiting]
      refine ⟨i, ?_, q, hmem, rfl, rfl⟩
      by_contra hge
      rw [Control.queue, Queues.view_of_ge _ (Nat.le_of_not_lt hge)] at hmem
      cases hmem
  · intro id hid ev hev
    by_cases hle : id ≤ h.sys.adds
    · rw [hq.leftover id hle] at hev
      exact hx.leftover id hle ev hev
    · obtain ⟨k, -, hleft⟩ := hq.fresh id (by omega) hid
      rw [hleft] at hev
      obtain ⟨i, -, q, hmem, -, rfl⟩ := mem_waiting.mp hev
      obtain ⟨id', hid'⟩ := Option.isSome_iff_exists.mp (hx.owner i q hmem)
      have hle' := hc.owner_le _ (hc.queued i q hmem) id' hid'
      exact ⟨id', by omega, hid'⟩
  · intro d hd
    obtain ⟨id, htarget, hle, hor⟩ := hx.delivered d (hq.delivered ▸ hd)
    exact ⟨id, htarget, le_trans hle hq.adds_le, by rwa [hq.leftover id hle]⟩

theorem Crossing.polled (hx : h.Crossing) (hh : h.Held) (hp : Polled h events calls h') :
    h'.Crossing := by
  have hfiled : ∀ i, ∀ q ∈ h.filed events i, ∀ id, h.holder q.token = some id →
      q.ready.owner = some id ∨ q.ready ∈ h.leftover id := by
    intro i q hq id hk
    rcases mem_file hq with hq | ⟨-, howner, -⟩
    · exact hx.queued i q hq id hk
    · exact .inl (howner.trans hk)
  refine ⟨?_, ?_, ?_, ?_⟩
  · intro i q hq
    rcases mem_file (hp.queue_sub hq) with hq | ⟨-, howner, hlevel⟩
    · exact hx.owner i q hq
    · obtain ⟨entry, he, -⟩ := Option.map_eq_some_iff.mp hlevel
      rw [howner, hh.isSome, he]
      rfl
  · intro i q hq id hk
    rw [hp.leftover]
    exact hfiled i q (hp.queue_sub hq) id (hp.holder ▸ hk)
  · rw [hp.adds, hp.leftover]
    exact hx.leftover
  · intro d hd
    rw [hp.adds, hp.leftover]
    rw [hp.delivered] at hd
    rcases List.mem_append.mp hd with hd | hd
    · exact hx.delivered d hd
    · obtain ⟨call, hcall, rfl⟩ := List.mem_map.mp hd
      obtain ⟨i, q, hq, htoken, hready, entry, he, -⟩ := hp.mem_calls hcall
      have hsome := hh.isSome call.token
      rw [he] at hsome
      obtain ⟨id, hid⟩ := Option.isSome_iff_exists.mp hsome
      refine ⟨id, hid, hh.le _ id hid, ?_⟩
      rw [← hready]
      exact hfiled i q hq id (htoken ▸ hid)

omit [Slab S (Entry F)] in
theorem Crossing.start (c : Control S F ρ) (hc : c.queues = Vector.replicate MAX_PRI []) :
    (start c).Crossing where
  owner i q hq := by rw [start_queue c hc] at hq; cases hq
  queued i q hq := by rw [start_queue c hc] at hq; cases hq
  leftover _ _ ev hev := by cases hev
  delivered d hd := by cases hd

/-! ## Whole runs -/

/-- What holds of every history of a run. -/
structure Inv (h : History S F ρ) : Prop where
  held : h.Held
  conserved : h.Conserved
  crossing : h.Crossing

theorem Inv.next (hi : h.Inv) {op : Op F ρ} (hn : h.next op = .ret h') : h'.Inv := by
  rcases hi.held.next_cases hn with ⟨hh', hq⟩ | ⟨events, calls, hp⟩
  · exact ⟨hh', hi.conserved.quiet hq, hi.crossing.quiet hi.conserved hh' hq⟩
  · exact ⟨hp.held hi.held, hi.conserved.polled hi.held hp, hi.crossing.polled hi.held hp⟩

theorem Inv.start {nop wake : F} {wakerPri : Nat} {waker : List (Result Unit)}
    {c : Control S F ρ} (hnew : MioPoll.new nop wake wakerPri waker = .ret (.ok c)) :
    (start c).Inv := by
  have hc : c.queues = Vector.replicate MAX_PRI [] := by rw [MioPoll.new_returns hnew]
  exact ⟨Held.start hnew, Conserved.start c hc, Crossing.start c hc⟩

/-- Every run of a new `MioPoll` has a history. -/
theorem Inv.of_runs {nop wake : F} {wakerPri : Nat} {waker : List (Result Unit)}
    {c : Control S F ρ} (hnew : MioPoll.new nop wake wakerPri waker = .ret (.ok c))
    {ops : List (Op F ρ)} {s : System (Control S F ρ) F ρ}
    (hrun : ({ ctrl := c } : System (Control S F ρ) F ρ).runs ops = .ret s) :
    ∃ h : History S F ρ, (History.start c).runs ops = .ret h ∧ h.erase = s ∧ h.Inv := by
  have herase := erase_runs (History.start c) ops
  rw [erase_start, hrun] at herase
  cases hh : (History.start c).runs ops with
  | ret h =>
    rw [hh] at herase
    cases herase
    exact ⟨h, rfl, rfl, run_invariant (fun _ _ _ hi hn => Inv.next hi hn) (Inv.start hnew) hh⟩
  | _ =>
    rw [hh] at herase
    cases herase

/-- The deliveries are the calls of the plain run's polls, in order. -/
theorem Conserved.calls_erase (hc : h.Conserved) :
    h.delivered.map (fun d => d.call.map Stamped.ready) = h.erase.polled.flatMap Prod.snd := by
  have hmap : h.delivered.map (fun d => d.call.map Stamped.ready) =
      (h.delivered.map Delivery.call).map (Call.map Stamped.ready) := by
    rw [List.map_map]
    rfl
  rw [hmap, hc.calls, erase, System.map, List.map_flatMap, List.flatMap_map]
  rfl

/-- All of a registration's queued events are at its level. -/
theorem Inv.queuedOf_eq (hi : h.Inv) {k id i : Nat} (hk : h.holder k = some id)
    (hl : h.level k = some i) : h.queuedOf id = h.queuedAt id i := by
  have hle : i ≤ MAX_PRI := by
    obtain ⟨entry, he, rfl⟩ := Option.map_eq_some_iff.mp hl
    exact le_trans (hi.held.owned.inv.entry_le k entry he) hi.held.owned.inv.maxPri_le
  have hnil : ∀ j, j ≠ i → h.queuedAt id j = [] := by
    intro j hj
    refine List.filterMap_eq_nil_iff.mpr fun q hq => ?_
    by_contra hne
    have hown := own_isSome.mp (Option.isSome_iff_ne_none.mpr hne)
    have hj' := (hi.conserved.home j q hq k id hk hown).2
    rw [hl] at hj'
    cases hj'
    exact hj rfl
  rw [queuedOf]
  exact Levels.flatMap_level hnil (List.nodup_reverse.mpr List.nodup_range)
    (by simpa using Nat.lt_succ_of_le hle)

end History

/-- **Exactly-once delivery.** After any run, what was reported for a source that
is alive is, event by event, what was delivered to its handler followed by what
is queued for it; nothing is queued if the last poll said so. -/
theorem System.delivery_exact {nop wake : F} {wakerPri : Nat} {waker : List (Result Unit)}
    {c : Control S F ρ} (hnew : MioPoll.new nop wake wakerPri waker = .ret (.ok c))
    (ops : List (Op F ρ)) (s : System (Control S F ρ) F ρ)
    (hrun : ({ ctrl := c } : System (Control S F ρ) F ρ).runs ops = .ret s) :
    ∃ h : History S F ρ, (History.start c).runs ops = .ret h ∧ h.erase = s ∧
      h.delivered.map (fun d => d.call.map Stamped.ready) = s.polled.flatMap Prod.snd ∧
      h.reported.map Stamped.serial = List.range h.reported.length ∧
      ∀ src ∈ s.sources,
        h.reportedTo src.id = h.deliveredOf src.id ++ h.queuedOf src.id ∧
        (∀ d ∈ h.delivered, d.call.ready.owner = some src.id →
          d.target = some src.id ∧ d.call.fwd = src.fwd) ∧
        ∀ act calls, s.polled.getLast? = some (.ok (act, false), calls) →
          h.reportedTo src.id = h.deliveredOf src.id := by
  obtain ⟨h, hh, rfl, hi⟩ := History.Inv.of_runs hnew hrun
  refine ⟨h, hh, rfl, hi.conserved.calls_erase, hi.conserved.serials, fun src hsrc => ?_⟩
  have hk := hi.held.source src hsrc
  have hl : h.level src.token = some (min src.pri MAX_PRI) := by
    rw [History.level, hi.held.owned.entry src hsrc]
    rfl
  have hexact := hi.conserved.exact _ _ _ hk hl
  refine ⟨by rw [hi.queuedOf_eq hk hl, hexact], fun d hd hid => ?_, fun act calls hlast => ?_⟩
  · have htarget := hi.conserved.target d hd _ _ hk hid
    exact ⟨htarget, hi.conserved.handler d hd src hsrc htarget⟩
  · have hsettled : ∃ calls', h.sys.polled.getLast? = some (.ok (act, false), calls') := by
      change (h.sys.polled.map _).getLast? = _ at hlast
      rw [List.getLast?_map] at hlast
      obtain ⟨⟨rv, calls'⟩, hlast', heq⟩ := Option.map_eq_some_iff.mp hlast
      cases heq
      exact ⟨calls', hlast'⟩
    obtain ⟨calls', hlast'⟩ := hsettled
    rw [hexact, History.queuedAt, hi.conserved.settled act calls' hlast']
    simp

/-- A low-priority source, and a second one that raises the maximum. -/
def System.sampleOps : List (Op Nat Nat) :=
  [.add 3 8 [.ok ()], .poll [.ok [⟨1, 40⟩, ⟨0, 41⟩]], .add 9 7 [.ok ()], .poll [.ok [⟨1, 42⟩]],
    .poll [.ok [⟨1, 43⟩, ⟨2, 44⟩]]]

/-- Of the first source's three events the last one waits, behind that of the second. -/
theorem System.delivery_exact_sample :
    ∃ s, ({ ctrl := MioPoll.sample } : System _ Nat Nat).runs sampleOps = .ret s ∧
      s.sources = [⟨1, 1, 3, 8⟩, ⟨2, 2, 9, 7⟩] ∧
      ∃ h, (History.start MioPoll.sample).runs sampleOps = .ret h ∧ h.erase = s ∧
        h.reportedTo 1 = [⟨40, 0, some 1⟩, ⟨42, 2, some 1⟩] ++ [⟨43, 3, some 1⟩] ∧
        h.deliveredOf 1 = [⟨40, 0, some 1⟩, ⟨42, 2, some 1⟩] ∧
        h.queuedOf 1 = [⟨43, 3, some 1⟩] ∧
        h.reportedTo 2 = h.deliveredOf 2 ∧ h.deliveredOf 2 = [⟨44, 4, some 2⟩] := by
  obtain ⟨s, hs, hp⟩ := Exec.exists_ret_of
    (x := ({ ctrl := MioPoll.sample } : System _ Nat Nat).runs sampleOps)
    (p := fun s => decide (s.sources = [⟨1, 1, 3, 8⟩, ⟨2, 2, 9, 7⟩])) (by decide +kernel)
  obtain ⟨h', hh', hp'⟩ := Exec.exists_ret_of (x := (History.start MioPoll.sample).runs sampleOps)
    (p := fun h => decide (h.deliveredOf 1 = [⟨40, 0, some 1⟩, ⟨42, 2, some 1⟩] ∧
      h.queuedOf 1 = [⟨43, 3, some 1⟩] ∧ h.deliveredOf 2 = [⟨44, 4, some 2⟩] ∧
      h.queuedOf 2 = [])) (by decide +kernel)
  have hsources := of_decide_eq_true hp
  obtain ⟨hdelivered, hqueued, hdelivered', hqueued'⟩ := of_decide_eq_true hp'
  obtain ⟨h, hh, he, -, -, hexact⟩ := delivery_exact MioPoll.sample_new _ s hs
  cases hh'.symm.trans hh
  rw [hsources] at hexact
  obtain ⟨hfirst, -, -⟩ := hexact ⟨1, 1, 3, 8⟩ (by decide)
  obtain ⟨hsecond, -, -⟩ := hexact ⟨2, 2, 9, 7⟩ (by decide)
  rw [hdelivered, hqueued] at hfirst
  rw [hqueued', List.append_nil] at hsecond
  exact ⟨s, hs, hsources, h', hh', he, hfirst, hdelivered, hqueued, hsecond, hdelivered'⟩

/-- **Where deliveries come from.** After any run, each event delivered to a
registration was reported for it, or was still queued under its token when the
registration was added: reported for an earlier one that had the same token. -/
theorem System.delivery_origin {nop wake : F} {wakerPri : Nat} {waker : List (Result Unit)}
    {c : Control S F ρ} (hnew : MioPoll.new nop wake wakerPri waker = .ret (.ok c))
    (ops : List (Op F ρ)) (s : System (Control S F ρ) F ρ)
    (hrun : ({ ctrl := c } : System (Control S F ρ) F ρ).runs ops = .ret s) :
    ∃ h : History S F ρ, (History.start c).runs ops = .ret h ∧ h.erase = s ∧
      h.delivered.map (fun d => d.call.map Stamped.ready) = s.polled.flatMap Prod.snd ∧
      ∀ d ∈ h.delivered, d.call.ready ∈ h.reported ∧
        ∃ id, d.target = some id ∧
          (d.call.ready.owner = some id ∨
            d.call.ready ∈ h.leftover id ∧ ∃ id', id' < id ∧ d.call.ready.owner = some id') := by
  obtain ⟨h, hh, rfl, hi⟩ := History.Inv.of_runs hnew hrun
  refine ⟨h, hh, rfl, hi.conserved.calls_erase, fun d hd => ⟨hi.conserved.delivered d hd, ?_⟩⟩
  obtain ⟨id, htarget, hle, hown | hleft⟩ := hi.crossing.delivered d hd
  · exact ⟨id, htarget, .inl hown⟩
  · exact ⟨id, htarget, .inr ⟨hleft, hi.crossing.leftover id hle _ hleft⟩⟩

/-- Source 2 is dropped with an event queued, and source 3 gets its token. -/
def System.crossingOps : List (Op Nat Nat) :=
  [.add 9 7 [.ok ()], .add 3 8 [.ok ()], .poll [.ok [⟨2, 40⟩, ⟨1, 41⟩]],
    .drop 2 [.ok ()], .add 3 9 [.ok ()], .poll [.ok []]]

/-- Of the two deliveries one is of an event of its own registration, and the other of what
was queued under the token before. -/
theorem System.delivery_origin_sample :
    ∃ s, ({ ctrl := MioPoll.sample } : System _ Nat Nat).runs crossingOps = .ret s ∧
      ∃ h, (History.start MioPoll.sample).runs crossingOps = .ret h ∧ h.erase = s ∧
        h.delivered = [⟨some 1, 1, 7, ⟨41, 1, some 1⟩⟩, ⟨some 3, 2, 9, ⟨40, 0, some 2⟩⟩] ∧
        (∀ d ∈ h.delivered, d.call.ready ∈ h.reported) ∧ ⟨40, 0, some 2⟩ ∈ h.leftover 3 := by
  obtain ⟨s, hs⟩ := Exec.exists_ret
    (x := ({ ctrl := MioPoll.sample } : System _ Nat Nat).runs crossingOps) rfl
  obtain ⟨h', hh', hp⟩ := Exec.exists_ret_of
    (x := (History.start MioPoll.sample).runs crossingOps)
    (p := fun h => decide (h.delivered =
      [⟨some 1, 1, 7, ⟨41, 1, some 1⟩⟩, ⟨some 3, 2, 9, ⟨40, 0, some 2⟩⟩])) (by decide +kernel)
  have hdelivered := of_decide_eq_true hp
  obtain ⟨h, hh, he, -, horigin⟩ := delivery_origin MioPoll.sample_new _ s hs
  cases hh'.symm.trans hh
  refine ⟨s, hs, h', hh', he, hdelivered, fun d hd => (horigin d hd).1, ?_⟩
  have hmem : (⟨some 3, 2, 9, ⟨40, 0, some 2⟩⟩ : Delivery Nat Nat) ∈ h'.delivered := by
    rw [hdelivered]
    decide
  obtain ⟨-, id, htarget, hown | ⟨hleft, -⟩⟩ := horigin _ hmem
  · cases htarget
    cases hown
  · cases htarget
    exact hleft

/-- The last poll calls the handler of source 3, for which nothing was reported, with the
event of source 2. -/
theorem System.delivery_crosses :
    ∃ h, (History.start MioPoll.sample).runs crossingOps = .ret h ∧
      h.reportedTo 3 = [] ∧ ⟨some 3, 2, 9, ⟨40, 0, some 2⟩⟩ ∈ h.delivered := by
  obtain ⟨h, hrun, hp⟩ := Exec.exists_ret_of
    (x := (History.start MioPoll.sample).runs crossingOps)
    (p := fun h => decide (h.reportedTo 3 = [] ∧ ⟨some 3, 2, 9, ⟨40, 0, some 2⟩⟩ ∈ h.delivered))
    (by decide +kernel)
  exact ⟨h, hrun, of_decide_eq_true hp⟩

end StakkerMio
