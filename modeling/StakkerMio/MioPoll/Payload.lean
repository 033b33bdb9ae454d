import StakkerMio.MioPoll.System

/-! # The values are only passed on

`poll` neither looks at the values of its events nor makes any of its own: every
operation commutes with a change `f` of the values. So a run may be observed
with more informative values than its own. -/
namespace StakkerMio
open Lib

variable {S F ρ σ : Type}

def Event.map (f : ρ → σ) (ev : Event ρ) : Event σ := ⟨ev.token, f ev.ready⟩

def QueueEvent.map (f : ρ → σ) (qev : QueueEvent ρ) : QueueEvent σ := ⟨qev.token, f qev.ready⟩

def Call.map (f : ρ → σ) (call : Call F ρ) : Call F σ := ⟨call.token, call.fwd, f call.ready⟩

def Queues.map (f : ρ → σ) (queues : Queues ρ) : Queues σ :=
  Vector.map (List.map (QueueEvent.map f)) queues

def Control.map (f : ρ → σ) (c : Control S F ρ) : Control S F σ where
  tokenMap := c.tokenMap
  queues := c.queues.map f
  nQueued := c.nQueued
  maxPri := c.maxPri
  priorities := c.priorities
  errors := c.errors

def Op.map (f : ρ → σ) : Op F ρ → Op F σ
  | .add pri fwd register => .add pri fwd register
  | .drop id deregister => .drop id deregister
  | .setWakeFwd fwd => .setWakeFwd fwd
  | .poll outcomes => .poll (outcomes.map (Except.map (List.map (Event.map f))))

def System.map (f : ρ → σ) (s : System (Control S F ρ) F ρ) :
    System (Control S F σ) F σ where
  ctrl := s.ctrl.map f
  sources := s.sources
  adds := s.adds
  polled := s.polled.map (Prod.map id (List.map (Call.map f)))

theorem Queues.map_getElem (f : ρ → σ) (queues : Queues ρ) {i : Nat} (h : i < MAX_PRI) :
    (queues.map f)[i] = queues[i].map (QueueEvent.map f) := Vector.getElem_map _ h

theorem Queues.map_set (f : ρ → σ) (queues : Queues ρ) {i : Nat} (h : i < MAX_PRI)
    (l : List (QueueEvent ρ)) :
    Queues.map f (queues.set i l) = (queues.map f).set i (l.map (QueueEvent.map f)) :=
  Vector.map_set

theorem Queues.map_push (f : ρ → σ) (queues : Queues ρ) (i : Nat) (q : QueueEvent ρ) :
    (queues.map f).push i (q.map f) = Queues.map f <$> queues.push i q := by
  by_cases h : i < MAX_PRI
  · simp [Queues.push, h, Queues.map_set, Queues.map_getElem]
  · simp [Queues.push, h]

theorem retry_map {α β : Type} (g : α → β) (outcomes : List (Result α)) :
    retry (outcomes.map (Except.map g)) = Except.map g <$> retry outcomes := by
  induction outcomes with
  | nil => rfl
  | cons r rest ih =>
    have hr : isInterrupted (Except.map g r) = isInterrupted r := by cases r <;> rfl
    rw [List.map_cons, retry, retry, hr, ih]
    split <;> rfl

namespace Control
variable [Slab S (Entry F)] (f : ρ → σ)

def Polling.map (p : Polling S F ρ) : Polling S F σ :=
  ⟨p.ctrl.map f, p.done, p.calls.map (Call.map f)⟩

theorem map_pollEvent (p : Polling S F ρ) (ev : Event ρ) :
    pollEvent (p.map f) (ev.map f) = Polling.map f <$> pollEvent p ev := by
  have hmap : (p.map f).ctrl.tokenMap = p.ctrl.tokenMap := rfl
  have htok : (ev.map f).token = ev.token := rfl
  rw [pollEvent, pollEvent, hmap, htok]
  cases Slab.get p.ctrl.tokenMap ev.token with
  | none => rfl
  | some entry =>
    have hmax : (p.map f).ctrl.maxPri = p.ctrl.maxPri := rfl
    dsimp only
    rw [hmax]
    by_cases hpri : entry.pri = p.ctrl.maxPri
    · rw [if_pos hpri, if_pos hpri]
      simp [Polling.map, Call.map, Event.map]
    · rw [if_neg hpri, if_neg hpri]
      have hpush := Queues.map_push f p.ctrl.queues entry.pri ⟨ev.token, ev.ready⟩
      change (p.map f).ctrl.queues.push entry.pri ⟨ev.token, f ev.ready⟩ = _ at hpush
      change (p.map f).ctrl.queues.push entry.pri ⟨ev.token, f ev.ready⟩ >>= _ = _
      rw [hpush]
      cases p.ctrl.queues.push entry.pri ⟨ev.token, ev.ready⟩ <;> rfl

theorem map_drainEvent (p : Polling S F ρ) (qev : QueueEvent ρ) :
    drainEvent (p.map f) (qev.map f) = (drainEvent p qev).map f := by
  have hmap : (p.map f).ctrl.tokenMap = p.ctrl.tokenMap := rfl
  have htok : (qev.map f).token = qev.token := rfl
  rw [drainEvent, drainEvent, hmap, htok]
  cases Slab.get p.ctrl.tokenMap qev.token with
  | none => rfl
  | some entry => simp [Polling.map, Call.map, QueueEvent.map]

theorem map_drain (qu : List (QueueEvent ρ)) (p : Polling S F ρ) :
    (qu.map (QueueEvent.map f)).foldl drainEvent (p.map f) = (qu.foldl drainEvent p).map f := by
  induction qu generalizing p with
  | nil => rfl
  | cons q qu ih => rw [List.map_cons, List.foldl_cons, List.foldl_cons, map_drainEvent, ih]

theorem map_drainLevel (p : Polling S F ρ) (i : Nat) :
    drainLevel (p.map f) i = Polling.map f <$> drainLevel p i := by
  unfold drainLevel
  by_cases hi : i < MAX_PRI
  · have hqu : (p.map f).ctrl.queues[i] = p.ctrl.queues[i].map (QueueEvent.map f) :=
      Queues.map_getElem f p.ctrl.queues hi
    have hprio : (p.map f).ctrl.priorities = p.ctrl.priorities := rfl
    have hdone : (p.map f).done = p.done := rfl
    rw [dif_pos hi, dif_pos hi, hqu, hprio, hdone]
    dsimp only
    rw [List.isEmpty_map, map_drain]
    split
    · split
      · have hset := Queues.map_set f (p.ctrl.queues[i].foldl drainEvent p).ctrl.queues hi []
        simp only [Exec.map_ret, Polling.map, map, hset]
        rfl
      · simp only [Exec.map_ret, Polling.map, map, List.length_map]
    · rfl
  · rw [dif_neg hi, dif_neg hi]
    rfl

theorem map_drainLevels (n : Nat) (p : Polling S F ρ) :
    drainLevels n (p.map f) = Polling.map f <$> drainLevels n p := by
  induction n generalizing p with
  | zero => rfl
  | succ n ih =>
    rw [drainLevels, drainLevels, map_drainLevel]
    cases drainLevel p n with
    | ret q => exact ih q
    | _ => rfl

theorem map_drainQueues (p : Polling S F ρ) :
    drainQueues (p.map f) = Polling.map f <$> drainQueues p := by
  have hcond : (!(p.map f).done && decide ((p.map f).ctrl.nQueued > 0)) =
      (!p.done && decide (p.ctrl.nQueued > 0)) := rfl
  rw [drainQueues, drainQueues, hcond]
  split
  · exact map_drainLevels f _ { p with ctrl := { p.ctrl with nQueued := 0 } }
  · rfl

theorem map_pollEvents (c : Control S F ρ) (events : List (Event ρ)) :
    (c.map f).pollEvents (events.map (Event.map f)) =
      Prod.map (Control.map f) (Prod.map id (List.map (Call.map f))) <$> c.pollEvents events := by
  have hloop : (events.map (Event.map f)).foldlM pollEvent (Polling.map f ⟨c, false, []⟩) =
      Polling.map f <$> events.foldlM pollEvent (⟨c, false, []⟩ : Polling S F ρ) :=
    run_map (I := fun _ => True) (fun _ _ _ _ _ => trivial) (fun p ev _ => map_pollEvent f p ev)
      events trivial
  rw [pollEvents, pollEvents]
  change ((events.map (Event.map f)).foldlM pollEvent (Polling.map f ⟨c, false, []⟩) >>= _) = _
  rw [hloop]
  cases events.foldlM pollEvent (⟨c, false, []⟩ : Polling S F ρ) with
  | ret p =>
    simp only [Exec.map_ret, Exec.ret_bind, map_drainQueues]
    cases drainQueues p <;> rfl
  | _ => rfl

theorem map_poll (c : Control S F ρ) (outcomes : List (Result (List (Event ρ)))) :
    (c.map f).poll (outcomes.map (Except.map (List.map (Event.map f)))) =
      Prod.map (Control.map f) (Prod.map id (List.map (Call.map f))) <$> c.poll outcomes := by
  rw [poll, poll, retry_map]
  cases retry outcomes with
  | ret rv =>
    cases rv with
    | error e => rfl
    | ok events =>
      simp only [Exec.map_ret, Exec.ret_bind, Except.map, map_pollEvents]
      cases c.pollEvents events <;> rfl
  | _ => rfl

theorem map_add (c : Control S F ρ) (register : List (Result Unit)) (pri : Nat) (fwd : F) :
    (c.map f).add register pri fwd = Prod.map id (Control.map f) <$> c.add register pri fwd := by
  unfold add
  cases retry register with
  | ret rv => cases rv <;> rfl
  | _ => rfl

theorem map_drop (c : Control S F ρ) (token : Nat) (deregister : List (Result Unit)) :
    (c.map f).drop token deregister = Control.map f <$> c.drop token deregister := by
  have hmap : (c.map f).tokenMap = c.tokenMap := rfl
  unfold drop del
  rw [hmap]
  cases retry deregister with
  | ret rv => cases rv <;> cases Slab.contains c.tokenMap token <;> rfl
  | _ => rfl

theorem map_setWakeFwd (c : Control S F ρ) (fwd : F) :
    (c.map f).setWakeFwd fwd = Control.map f <$> c.setWakeFwd fwd := by
  have hmap : (c.map f).tokenMap = c.tokenMap := rfl
  rw [setWakeFwd, setWakeFwd, hmap]
  cases Slab.get c.tokenMap WAKER_TOKEN <;> rfl

end Control

theorem MioPoll.map_new [Slab S (Entry F)] (f : ρ → σ) (nop wake : F) (wakerPri : Nat)
    (waker : List (Result Unit)) :
    (MioPoll.new nop wake wakerPri waker : Exec (Result (Control S F σ))) =
      Except.map (Control.map f) <$> MioPoll.new nop wake wakerPri waker := by
  have hset : ∀ c : Control S F ρ,
      (do let ctrl ← (c.map f).setWakeFwd wake
          .ret (.ok ctrl) : Exec (Result (Control S F σ))) =
        Except.map (Control.map f) <$> (do let ctrl ← c.setWakeFwd wake
                                           .ret (.ok ctrl)) := by
    intro c
    rw [Control.map_setWakeFwd]
    cases c.setWakeFwd wake <;> rfl
  have hqueues : (Vector.replicate MAX_PRI [] : Queues σ) =
      Queues.map f (Vector.replicate MAX_PRI []) := by simp [Queues.map]
  unfold MioPoll.new
  dsimp only
  split
  · rfl
  · cases retry waker with
    | ret rv =>
      cases rv with
      | error e => rfl
      | ok u =>
        rw [hqueues]
        exact hset ⟨_, Vector.replicate MAX_PRI [], 0, _, _, []⟩
    | _ => rfl

/-- A step commutes with a change of the values. -/
theorem System.map_step [Slab S (Entry F)] (f : ρ → σ) (s : System (Control S F ρ) F ρ)
    (op : Op F ρ) :
    step Control.controller (s.map f) (op.map f) = map f <$> step Control.controller s op := by
  cases op with
  | add pri fwd register =>
    change ((s.ctrl.map f).add register pri fwd >>= _) = map f <$> (s.ctrl.add _ _ _ >>= _)
    rw [Control.map_add, map_bind]
    cases s.ctrl.add register pri fwd with
    | ret r =>
      obtain ⟨rv, ctrl⟩ := r
      cases rv <;> rfl
    | _ => rfl
  | drop id deregister =>
    have hsrc : (s.map f).source id = s.source id := rfl
    simp only [step, Op.map, hsrc]
    cases s.source id with
    | none => rfl
    | some src =>
      change ((s.ctrl.map f).drop src.token deregister >>= _) =
        map f <$> (s.ctrl.drop src.token deregister >>= _)
      rw [Control.map_drop, map_bind]
      cases s.ctrl.drop src.token deregister <;> rfl
  | setWakeFwd fwd =>
    change ((s.ctrl.map f).setWakeFwd fwd >>= _) = map f <$> (s.ctrl.setWakeFwd fwd >>= _)
    rw [Control.map_setWakeFwd, map_bind]
    cases s.ctrl.setWakeFwd fwd <;> rfl
  | poll outcomes =>
    change ((s.ctrl.map f).poll _ >>= _) = map f <$> (s.ctrl.poll outcomes >>= _)
    rw [Control.map_poll, map_bind]
    cases s.ctrl.poll outcomes with
    | ret r => simp [System.map]
    | _ => rfl

end StakkerMio
