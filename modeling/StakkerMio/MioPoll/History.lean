import StakkerMio.MioPoll.Ownership
import StakkerMio.MioPoll.Payload

/-! # The events of each registration

The crate's own steps are run with stamped values: each reported event carries a
number of its own and the `add` whose entry was under its token at the time.
A history records what was reported, what was delivered and to whom. Forgetting
the stamps gives back the plain run (`History.erase_runs`), so what histories
show holds of plain runs. The waker counts as registration `0`. -/
namespace StakkerMio
open Lib

variable {S F ρ : Type} [Slab S (Entry F)]

/-- A value with the number of its event and the registration it was reported for. -/
structure Stamped (ρ : Type) where
  ready : ρ
  serial : Nat
  owner : Option Nat
  deriving Repr, DecidableEq

/-- The event, if it is one of registration `id`. -/
def Stamped.own (id : Nat) (ev : Stamped ρ) : Option (Stamped ρ) :=
  if ev.owner = some id then some ev else none

/-- A call of a handler, and the registration whose handler it was. -/
structure Delivery (F ρ : Type) where
  target : Option Nat
  call : Call F (Stamped ρ)
  deriving DecidableEq

/-- `holder` maps a token to the `add` that made its entry; `leftover` maps an
`add` to what was queued under its token when it was made. -/
structure History (S F ρ : Type) where
  sys : System (Control S F (Stamped ρ)) F (Stamped ρ)
  holder : Nat → Option Nat
  reported : List (Stamped ρ) := []
  delivered : List (Delivery F ρ) := []
  leftover : Nat → List (Stamped ρ) := fun _ => []

namespace History

def stampEvents (h : History S F ρ) (events : List (Event ρ)) : List (Event (Stamped ρ)) :=
  (events.zipIdx h.reported.length).map fun (ev, n) =>
    ⟨ev.token, ⟨ev.ready, n, h.holder ev.token⟩⟩

def stamp (h : History S F ρ) : Op F ρ → Op F (Stamped ρ)
  | .add pri fwd register => .add pri fwd register
  | .drop id deregister => .drop id deregister
  | .setWakeFwd fwd => .setWakeFwd fwd
  | .poll outcomes => .poll (outcomes.map (Except.map h.stampEvents))

/-- The values queued under a token, at any level. -/
def waiting (c : Control S F (Stamped ρ)) (token : Nat) : List (Stamped ρ) :=
  (List.range MAX_PRI).flatMap fun i =>
    ((c.queue i).filter fun q => q.token == token).map QueueEvent.ready

/-- What is recorded of an operation that led to `sys`. -/
def record (h : History S F ρ) (sys : System (Control S F (Stamped ρ)) F (Stamped ρ)) :
    Op F ρ → History S F ρ
  | .add pri fwd _ =>
    let token := h.sys.ctrl.nextToken pri fwd
    { h with
      sys := sys
      holder := Function.update h.holder token (some sys.adds)
      leftover := Function.update h.leftover sys.adds (waiting h.sys.ctrl token) }
  | .drop id _ =>
    match h.sys.source id with
    | none => { h with sys := sys }
    | some src => { h with sys := sys, holder := Function.update h.holder src.token none }
  | .setWakeFwd _ => { h with sys := sys }
  | .poll outcomes =>
    match retry outcomes with
    | .ret (.ok events) =>
      { h with
        sys := sys
        reported := h.reported ++ (h.stampEvents events).map Event.ready
        delivered := h.delivered ++
          (sys.polled.drop h.sys.polled.length).flatMap fun r =>
            r.2.map fun call => ⟨h.holder call.token, call⟩ }
    | _ => { h with sys := sys }

/-- A step of the crate's controller on stamped values. -/
def next (h : History S F ρ) (op : Op F ρ) : Exec (History S F ρ) := do
  let sys ← h.sys.next (h.stamp op)
  .ret (h.record sys op)

abbrev runs (h : History S F ρ) (ops : List (Op F ρ)) : Exec (History S F ρ) :=
  Lib.run next h ops

/-- A new `MioPoll`: its queues are empty, so there are no values to stamp yet. -/
def start (c : Control S F ρ) : History S F ρ where
  sys := { ctrl := c.map fun ready => ⟨ready, 0, none⟩ }
  holder := Function.update (fun _ => none) WAKER_TOKEN (some 0)

/-! ## Forgetting the stamps -/

def erase (h : History S F ρ) : System (Control S F ρ) F ρ := h.sys.map Stamped.ready

omit [Slab S (Entry F)] in
theorem map_stampEvents (h : History S F ρ) (events : List (Event ρ)) :
    (h.stampEvents events).map (Event.map Stamped.ready) = events := by
  rw [stampEvents, List.map_map]
  exact List.zipIdx_map_fst _ events

omit [Slab S (Entry F)] in
theorem map_stamp (h : History S F ρ) (op : Op F ρ) : (h.stamp op).map Stamped.ready = op := by
  cases op with
  | poll outcomes =>
    have hid : ∀ rv : Result (List (Event ρ)),
        Except.map (List.map (Event.map Stamped.ready)) (Except.map h.stampEvents rv) = rv := by
      intro rv
      cases rv with
      | error e => rfl
      | ok events => exact congrArg Except.ok (h.map_stampEvents events)
    have hmap : Except.map (List.map (Event.map Stamped.ready)) ∘ Except.map h.stampEvents =
        (id : Result (List (Event ρ)) → _) := funext hid
    simp only [stamp, Op.map, List.map_map, hmap, List.map_id]
  | _ => rfl

theorem erase_next (h : History S F ρ) (op : Op F ρ) : h.erase.next op = erase <$> h.next op := by
  have hstep := System.map_step Stamped.ready h.sys (h.stamp op)
  rw [map_stamp] at hstep
  rw [next, map_bind]
  refine hstep.trans ?_
  have herase : ∀ sys, (h.record sys op).erase = sys.map Stamped.ready := by
    intro sys
    have hsys : (h.record sys op).sys = sys := by
      cases op with
      | drop id deregister =>
        simp only [record]
        split <;> rfl
      | poll outcomes =>
        simp only [record]
        split <;> rfl
      | _ => rfl
    rw [erase, hsys]
  change System.map _ <$> h.sys.next (h.stamp op) = _
  cases h.sys.next (h.stamp op) with
  | ret sys => simp [herase]
  | _ => rfl

/-- The plain run of a history is its run with the stamps forgotten. -/
theorem erase_runs (h : History S F ρ) (ops : List (Op F ρ)) :
    h.erase.runs ops = erase <$> h.runs ops :=
  run_map_id (f := erase) (I := fun _ => True) (fun _ _ _ _ _ => trivial)
    (fun u op _ => u.erase_next op) ops trivial

omit [Slab S (Entry F)] in
theorem erase_start (c : Control S F ρ) : (start c).erase = { ctrl := c } := by
  have hq : QueueEvent.map Stamped.ready ∘
      QueueEvent.map (fun ready : ρ => (⟨ready, 0, none⟩ : Stamped ρ)) = id := rfl
  simp [start, erase, System.map, Control.map, Queues.map, Vector.map_map, hq,
    Function.comp_def]

/-! ## What a step does to a history -/

variable {h h' : History S F ρ}

theorem next_record {op : Op F ρ} (hn : h.next op = .ret h') :
    ∃ sys, h.sys.next (h.stamp op) = .ret sys ∧ h' = h.record sys op := by
  obtain ⟨sys, hsys, hn⟩ := Exec.bind_eq_ret.mp hn
  cases hn
  exact ⟨sys, hsys, rfl⟩

/-- The level the events of a token go to. -/
def level (h : History S F ρ) (k : Nat) : Option Nat :=
  (Slab.get h.sys.ctrl.tokenMap k).map Entry.pri

/-- The reference scheduler's lists once a poll's events are filed. -/
def filed (h : History S F ρ) (events : List (Event ρ)) : Levels (QueueEvent (Stamped ρ)) :=
  Levels.file (Scheduler.place h.sys.ctrl.tokenMap) h.sys.ctrl.queue (h.stampEvents events)

/-- `holder` names the occupied tokens apart, the live sources' by their `add`s. -/
structure Held (h : History S F ρ) : Prop where
  owned : h.sys.Owned
  isSome : ∀ k, (h.holder k).isSome = (Slab.get h.sys.ctrl.tokenMap k).isSome
  le : ∀ k id, h.holder k = some id → id ≤ h.sys.adds
  inj : ∀ j k id, h.holder j = some id → h.holder k = some id → j = k
  source : ∀ src ∈ h.sys.sources, h.holder src.token = some src.id

/-- What every operation but a successful poll leaves alone: a registration keeps
its token and level, or is new. -/
structure Quiet (h h' : History S F ρ) : Prop where
  queue : h'.sys.ctrl.queue = h.sys.ctrl.queue
  reported : h'.reported = h.reported
  delivered : h'.delivered = h.delivered
  adds_le : h.sys.adds ≤ h'.sys.adds
  kept : ∀ k id, h'.holder k = some id → id ≤ h.sys.adds →
    h.holder k = some id ∧ h'.level k = h.level k
  fresh : ∀ id, h.sys.adds < id → id ≤ h'.sys.adds →
    ∃ k, h'.holder k = some id ∧ h'.leftover id = waiting h.sys.ctrl k
  leftover : ∀ id, id ≤ h.sys.adds → h'.leftover id = h.leftover id
  sources : ∀ src ∈ h'.sys.sources, src ∈ h.sys.sources ∨ h.sys.adds < src.id
  calls : h'.sys.polled.flatMap Prod.snd = h.sys.polled.flatMap Prod.snd
  last : ∀ rv calls, h'.sys.polled.getLast? = some (.ok rv, calls) →
    h.sys.polled.getLast? = some (.ok rv, calls)

/-- A successful poll, in terms of the reference scheduler's lists. -/
structure Polled (h : History S F ρ) (events : List (Event ρ))
    (calls : List (Call F (Stamped ρ))) (h' : History S F ρ) : Prop where
  owned : h'.sys.Owned
  tokenMap : h'.sys.ctrl.tokenMap = h.sys.ctrl.tokenMap
  adds : h'.sys.adds = h.sys.adds
  sources : h'.sys.sources = h.sys.sources
  holder : h'.holder = h.holder
  leftover : h'.leftover = h.leftover
  reported : h'.reported = h.reported ++ (h.stampEvents events).map Event.ready
  delivered : h'.delivered = h.delivered ++ calls.map fun call => ⟨h.holder call.token, call⟩
  served : Levels.serve (Scheduler.deliver h.sys.ctrl.tokenMap) Scheduler.levels
    (h.filed events) = (calls, h'.sys.ctrl.queue)
  polled : h'.sys.polled = h.sys.polled ++
    [(.ok (!calls.isEmpty, Levels.pending Scheduler.levels h'.sys.ctrl.queue), calls)]

theorem Held.quiet_add (hh : h.Held) {pri : Nat} {fwd : F} {register : List (Result Unit)}
    {sys : System (Control S F (Stamped ρ)) F (Stamped ρ)}
    (hsys : h.sys.next (.add pri fwd register) = .ret sys) :
    Held (h.record sys (.add pri fwd register)) ∧
      Quiet h (h.record sys (.add pri fwd register)) := by
  have howned := hh.owned.next hsys
  obtain ⟨hadds, hctrl, hpolled, hsrc⟩ : sys.adds = h.sys.adds + 1 ∧
      sys.ctrl = h.sys.ctrl.enter pri fwd ∧ sys.polled = h.sys.polled ∧
      (sys.sources = h.sys.sources ∨ sys.sources =
        h.sys.sources ++ [⟨h.sys.ctrl.nextToken pri fwd, h.sys.adds + 1, pri, fwd⟩]) := by
    rcases System.next_add hsys with ⟨e, -, rfl⟩ | ⟨-, rfl⟩
    · exact ⟨rfl, rfl, rfl, .inl rfl⟩
    · exact ⟨rfl, rfl, rfl, .inr rfl⟩
  obtain ⟨hne, hfresh⟩ := hh.owned.nextToken_fresh pri fwd
  have hholder : ∀ k, (h.record sys (.add pri fwd register)).holder k =
      if k = h.sys.ctrl.nextToken pri fwd then some (h.sys.adds + 1) else h.holder k := by
    intro k
    simp only [record, hadds, Function.update_apply]
  have hget : ∀ k, Slab.get sys.ctrl.tokenMap k =
      if k = h.sys.ctrl.nextToken pri fwd then some ⟨min pri MAX_PRI, fwd⟩
      else Slab.get h.sys.ctrl.tokenMap k := by
    intro k
    rw [hctrl]
    exact Slab.get_insert _ _ _
  refine ⟨⟨howned, ?_, ?_, ?_, ?_⟩, ⟨?_, rfl, rfl, ?_, ?_, ?_, ?_, ?_, ?_, ?_⟩⟩
  · intro k
    change _ = (Slab.get sys.ctrl.tokenMap k).isSome
    rw [hholder, hget]
    split
    · rfl
    · exact hh.isSome k
  · intro k id hk
    change id ≤ sys.adds
    rw [hholder] at hk
    split at hk
    · cases hk
      omega
    · have hle := hh.le k id hk
      omega
  · intro j k id hj hk
    rw [hholder] at hj hk
    split at hj <;> split at hk
    · omega
    · cases hj
      have hle := hh.le k _ hk
      omega
    · cases hk
      have hle := hh.le j _ hj
      omega
    · exact hh.inj j k id hj hk
  · intro src hmem
    rw [hholder]
    change src ∈ sys.sources at hmem
    have hold : src ∈ h.sys.sources → (if src.token = h.sys.ctrl.nextToken pri fwd
        then some (h.sys.adds + 1) else h.holder src.token) = some src.id := by
      intro hmem
      rw [if_neg (hfresh src hmem)]
      exact hh.source src hmem
    rcases hsrc with hsrc | hsrc
    · exact hold (hsrc ▸ hmem)
    · rw [hsrc] at hmem
      rcases List.mem_append.mp hmem with hmem | hmem
      · exact hold hmem
      · cases List.mem_singleton.mp hmem
        exact if_pos rfl
  · change sys.ctrl.queue = _
    rw [hctrl]
    rfl
  · change _ ≤ sys.adds
    omega
  · intro k id hk hle
    rw [hholder] at hk
    split at hk
    · cases hk
      omega
    · rename_i hkt
      refine ⟨hk, ?_⟩
      change (Slab.get sys.ctrl.tokenMap k).map Entry.pri = _
      rw [hget, if_neg hkt]
      rfl
  · intro id hlt hle
    change id ≤ sys.adds at hle
    have hid : id = h.sys.adds + 1 := by omega
    subst hid
    exact ⟨h.sys.ctrl.nextToken pri fwd, by rw [hholder, if_pos rfl], by simp [record, hadds]⟩
  · intro id hle
    simp only [record, hadds]
    exact Function.update_of_ne (by omega) _ _
  · intro src hmem
    change src ∈ sys.sources at hmem
    rcases hsrc with hsrc | hsrc
    · exact .inl (hsrc ▸ hmem)
    · rw [hsrc] at hmem
      rcases List.mem_append.mp hmem with hmem | hmem
      · exact .inl hmem
      · cases List.mem_singleton.mp hmem
        exact .inr (Nat.lt_succ_self _)
  · change sys.polled.flatMap _ = _
    rw [hpolled]
  · intro rv calls hlast
    change sys.polled.getLast? = _ at hlast
    rwa [hpolled] at hlast

/-- Entries and holders that stay as they were, with fewer tokens at most. -/
theorem Held.quiet_fewer (hh : h.Held)
    {sys : System (Control S F (Stamped ρ)) F (Stamped ρ)} {holder : Nat → Option Nat}
    (howned : sys.Owned) (hqueue : sys.ctrl.queue = h.sys.ctrl.queue)
    (hadds : sys.adds = h.sys.adds) (hsrc : ∀ src ∈ sys.sources, src ∈ h.sys.sources)
    (hsome : ∀ k, (holder k).isSome = (Slab.get sys.ctrl.tokenMap k).isSome)
    (hkept : ∀ k id, holder k = some id → h.holder k = some id ∧
      (Slab.get sys.ctrl.tokenMap k).map Entry.pri = h.level k)
    (hcalls : sys.polled.flatMap Prod.snd = h.sys.polled.flatMap Prod.snd)
    (hlast : ∀ rv calls, sys.polled.getLast? = some (.ok rv, calls) →
      h.sys.polled.getLast? = some (.ok rv, calls)) :
    Held { h with sys := sys, holder := holder } ∧
      Quiet h { h with sys := sys, holder := holder } := by
  refine ⟨⟨howned, hsome, ?_, ?_, ?_⟩,
    ⟨hqueue, rfl, rfl, hadds.ge, fun k id hk _ => hkept k id hk, ?_, fun _ _ => rfl,
      fun src hmem => .inl (hsrc src hmem), hcalls, hlast⟩⟩
  · intro k id hk
    change id ≤ sys.adds
    rw [hadds]
    exact hh.le k id (hkept k id hk).1
  · intro j k id hj hk
    exact hh.inj j k id (hkept j id hj).1 (hkept k id hk).1
  · intro src hmem
    have hold := hh.source src (hsrc src hmem)
    have hocc := howned.occupied hmem
    change holder src.token = _
    rw [← hsome src.token] at hocc
    obtain ⟨id, hid⟩ := Option.isSome_iff_exists.mp hocc
    rw [hid, ← (hkept _ _ hid).1, hold]
  · intro id hlt hle
    change id ≤ sys.adds at hle
    omega

theorem Held.quiet_drop (hh : h.Held) {id : Nat} {deregister : List (Result Unit)}
    {sys : System (Control S F (Stamped ρ)) F (Stamped ρ)}
    (hsys : h.sys.next (.drop id deregister) = .ret sys) :
    Held (h.record sys (.drop id deregister)) ∧
      Quiet h (h.record sys (.drop id deregister)) := by
  have howned := hh.owned.next hsys
  rcases System.next_drop (fun src => hh.owned.occupied) hsys with
    ⟨hnone, rfl⟩ | ⟨src, errors, hsrc, rfl⟩
  · simp only [record, hnone]
    exact hh.quiet_fewer howned rfl rfl (fun _ h => h) hh.isSome (fun k id hk => ⟨hk, rfl⟩) rfl
      fun _ _ h => h
  · simp only [record, hsrc]
    have hmem := (System.source_mem hsrc).1
    have hget : ∀ k, Slab.get (Slab.remove h.sys.ctrl.tokenMap src.token) k =
        if k = src.token then none else Slab.get h.sys.ctrl.tokenMap k :=
      fun k => Slab.get_remove _ _ _ (hh.owned.occupied hmem)
    refine hh.quiet_fewer howned rfl rfl (fun a ha => (List.mem_filter.mp ha).1)
      (fun k => ?_) (fun k id hk => ?_) rfl fun _ _ h => h
    · change _ = (Slab.get (Slab.remove h.sys.ctrl.tokenMap src.token) k).isSome
      rw [hget, Function.update_apply]
      split
      · rfl
      · exact hh.isSome k
    · change _ ∧ (Slab.get (Slab.remove h.sys.ctrl.tokenMap src.token) k).map Entry.pri = _
      rw [Function.update_apply] at hk
      split at hk
      · cases hk
      · rename_i hkt
        rw [hget, if_neg hkt]
        exact ⟨hk, rfl⟩

theorem Held.quiet_setWakeFwd (hh : h.Held) {fwd : F}
    {sys : System (Control S F (Stamped ρ)) F (Stamped ρ)}
    (hsys : h.sys.next (.setWakeFwd fwd) = .ret sys) :
    Held (h.record sys (.setWakeFwd fwd)) ∧ Quiet h (h.record sys (.setWakeFwd fwd)) := by
  have howned := hh.owned.next hsys
  obtain ⟨entry, hw, rfl⟩ := System.next_setWakeFwd hsys
  have hget : ∀ k, Slab.get (Slab.set h.sys.ctrl.tokenMap WAKER_TOKEN { entry with fwd := fwd }) k =
      if k = WAKER_TOKEN then some { entry with fwd := fwd }
      else Slab.get h.sys.ctrl.tokenMap k := fun k => Slab.get_set _ _ _ _ hh.owned.waker
  have hpri : ∀ k, (Slab.get (Slab.set h.sys.ctrl.tokenMap WAKER_TOKEN
      { entry with fwd := fwd }) k).map Entry.pri = h.level k := by
    intro k
    rw [hget, level]
    split
    · rename_i hk
      rw [hk, hw]
      rfl
    · rfl
  refine hh.quiet_fewer howned rfl rfl (fun _ h => h) (fun k => ?_)
    (fun k id hk => ⟨hk, hpri k⟩) rfl fun _ _ h => h
  have hsome := congrArg Option.isSome (hpri k)
  rw [level, Option.isSome_map, Option.isSome_map] at hsome
  rw [hh.isSome k]
  exact hsome.symm

theorem Held.polled (hh : h.Held) {outcomes : List (Result (List (Event ρ)))}
    {sys : System (Control S F (Stamped ρ)) F (Stamped ρ)}
    (hsys : h.sys.next (h.stamp (.poll outcomes)) = .ret sys) :
    (Held (h.record sys (.poll outcomes)) ∧ Quiet h (h.record sys (.poll outcomes))) ∨
      ∃ events calls, Polled h events calls (h.record sys (.poll outcomes)) := by
  have howned := hh.owned.next hsys
  rcases System.next_poll hsys with ⟨e, hr, rfl⟩ | ⟨stamped, ctrl, rv, calls, hr, hev, rfl⟩
  · left
    have hr' : ∃ e', retry outcomes = .ret (.error e') := by
      rw [retry_map] at hr
      cases hro : retry outcomes with
      | ret rv =>
        rw [hro] at hr
        cases rv with
        | error e' => exact ⟨e', rfl⟩
        | ok events => cases hr
      | _ =>
        rw [hro] at hr
        cases hr
    obtain ⟨e', hr'⟩ := hr'
    simp only [record, hr']
    refine hh.quiet_fewer howned rfl rfl (fun _ h => h) hh.isSome (fun k id hk => ⟨hk, rfl⟩) ?_ ?_
    · simp
    · intro rv calls hlast
      simp at hlast
  · right
    obtain ⟨events, hro, rfl⟩ : ∃ events, retry outcomes = .ret (.ok events) ∧
        stamped = h.stampEvents events := by
      rw [retry_map] at hr
      cases hro : retry outcomes with
      | ret rv =>
        rw [hro] at hr
        cases rv with
        | error e' => cases hr
        | ok events =>
          cases hr
          exact ⟨events, rfl, rfl⟩
      | _ =>
        rw [hro] at hr
        cases hr
    refine ⟨events, calls, ?_⟩
    simp only [record, hro]
    obtain ⟨ctrl', hev', habs, -, hframe⟩ :=
      Control.pollEvents_refines hh.owned.inv (h.stampEvents events)
    rw [hev] at hev'
    cases hev'
    have hqueue : ctrl.queue = (Levels.serve (Scheduler.deliver (F := F) h.sys.ctrl.tokenMap)
        Scheduler.levels (h.filed events)).2 := congrArg Scheduler.lists habs
    refine ⟨howned, by rw [hframe], rfl, rfl, rfl, rfl, rfl, ?_, ?_, ?_⟩
    · simp
    · exact Prod.ext rfl hqueue.symm
    · rw [hqueue]
      rfl

/-- An operation is quiet or a successful poll. -/
theorem Held.next_cases (hh : h.Held) {op : Op F ρ} (hn : h.next op = .ret h') :
    (h'.Held ∧ Quiet h h') ∨ ∃ events calls, Polled h events calls h' := by
  obtain ⟨sys, hsys, rfl⟩ := next_record hn
  cases op with
  | add pri fwd register => exact .inl (hh.quiet_add hsys)
  | drop id deregister => exact .inl (hh.quiet_drop hsys)
  | setWakeFwd fwd => exact .inl (hh.quiet_setWakeFwd hsys)
  | poll outcomes => exact hh.polled hsys

theorem Polled.held {events : List (Event ρ)} {calls : List (Call F (Stamped ρ))}
    (hp : Polled h events calls h') (hh : h.Held) : h'.Held where
  owned := hp.owned
  isSome k := by rw [hp.holder, hp.tokenMap]; exact hh.isSome k
  le k id hk := by rw [hp.adds]; exact hh.le k id (hp.holder ▸ hk)
  inj j k id hj hk := hh.inj j k id (hp.holder ▸ hj) (hp.holder ▸ hk)
  source src hsrc := by rw [hp.holder]; exact hh.source src (hp.sources ▸ hsrc)

theorem Held.start {nop wake : F} {wakerPri : Nat} {waker : List (Result Unit)}
    {c : Control S F ρ} (hnew : MioPoll.new nop wake wakerPri waker = .ret (.ok c)) :
    (start c).Held := by
  have hget := MioPoll.new_get hnew
  have hnew' := MioPoll.map_new (fun ready : ρ => (⟨ready, 0, none⟩ : Stamped ρ)) (S := S)
    nop wake wakerPri waker
  rw [hnew] at hnew'
  have hholder : ∀ k, (History.start c).holder k = if k = WAKER_TOKEN then some 0 else none :=
    Function.update_apply (fun _ => none) WAKER_TOKEN (some 0)
  refine ⟨System.Owned.start hnew', fun k => ?_, ?_, ?_, fun src hsrc => by cases hsrc⟩
  · change _ = (Slab.get c.tokenMap k).isSome
    rw [hget, hholder]
    by_cases hk : k = WAKER_TOKEN <;> simp [hk]
  · intro k id hk
    rw [hholder] at hk
    split at hk
    · cases hk
      exact Nat.zero_le _
    · cases hk
  · intro j k id hj hk
    rw [hholder] at hj hk
    split at hj <;> split at hk
    · omega
    · cases hk
    · cases hj
    · cases hj

end History
end StakkerMio
