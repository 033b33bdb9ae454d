import StakkerMio.MioPoll.Scheduler

/-! # The controller's invariant, and what each operation does

The five redundant pieces of `Control` agree (`Control.Inv`), and every
operation keeps it. Under it `poll` is the reference scheduler's poll on the
lists that the queues stand for (`pollEvents_refines`); later proofs use that
statement and never unfold the loops. -/
namespace StakkerMio
open Lib

variable {S F ρ : Type}

/-! ## The queues as levels -/

/-- The array as a family of lists, empty outside the array. -/
def Queues.view (queues : Queues ρ) : Levels (QueueEvent ρ) :=
  fun i => if h : i < MAX_PRI then queues[i] else []

theorem Queues.view_of_lt (queues : Queues ρ) {i : Nat} (h : i < MAX_PRI) :
    queues.view i = queues[i] := dif_pos h

theorem Queues.view_of_ge (queues : Queues ρ) {i : Nat} (h : MAX_PRI ≤ i) :
    queues.view i = [] := dif_neg (Nat.not_lt.mpr h)

theorem Queues.view_set (queues : Queues ρ) {i : Nat} (h : i < MAX_PRI)
    (l : List (QueueEvent ρ)) :
    Queues.view (queues.set i l) = Function.update queues.view i l := by
  funext j
  by_cases hj : j < MAX_PRI
  · rw [Queues.view_of_lt _ hj, Vector.getElem_set]
    by_cases hij : i = j
    · subst hij
      simp
    · rw [if_neg hij, Function.update_of_ne (Ne.symm hij), Queues.view_of_lt _ hj]
  · have hne : j ≠ i := by omega
    rw [Queues.view_of_ge _ (by omega), Function.update_of_ne hne,
      Queues.view_of_ge _ (by omega)]

theorem Queues.push_ret (queues : Queues ρ) {i : Nat} (h : i < MAX_PRI) (q : QueueEvent ρ) :
    ∃ queues', queues.push i q = .ret queues' ∧ queues'.view = queues.view.push i q := by
  refine ⟨_, dif_pos h, ?_⟩
  rw [Queues.view_set _ h, Levels.push, Queues.view_of_lt _ h]

namespace Control

def queue (c : Control S F ρ) : Levels (QueueEvent ρ) := c.queues.view

@[simp] theorem queue_mk (tokenMap : S) (queues : Queues ρ) (nQueued maxPri : Nat)
    (priorities : BitVec 16) (errors : List Error) :
    queue (⟨tokenMap, queues, nQueued, maxPri, priorities, errors⟩ : Control S F ρ) =
      queues.view := rfl

/-- The reference scheduler a controller stands for. -/
def abs (c : Control S F ρ) : Scheduler S ρ := ⟨c.tokenMap, c.queue⟩

variable [Slab S (Entry F)]

/-- The representation invariant. -/
structure Inv (c : Control S F ρ) : Prop where
  maxPri_le : c.maxPri ≤ MAX_PRI
  entry_le : ∀ k e, Slab.get c.tokenMap k = some e → e.pri ≤ c.maxPri
  entry_inUse : ∀ k e, Slab.get c.tokenMap k = some e → inUse c.priorities e.pri = true
  queue_top : ∀ i, c.maxPri ≤ i → c.queue i = []
  queue_inUse : ∀ i, c.queue i ≠ [] → inUse c.priorities i = true
  count : c.nQueued = Levels.total MAX_PRI c.queue

/-! ## `add`, `del`, `set_wake_fwd` -/

/-- The state `add` leaves behind, however the registration ends. -/
def enter (c : Control S F ρ) (pri : Nat) (fwd : F) : Control S F ρ :=
  { c with
    maxPri := max c.maxPri (min pri MAX_PRI)
    priorities := c.priorities ||| bit (min pri MAX_PRI)
    tokenMap := (Slab.insert c.tokenMap ⟨min pri MAX_PRI, fwd⟩).2 }

/-- The key the next `add` gets. -/
def nextToken (c : Control S F ρ) (pri : Nat) (fwd : F) : Nat :=
  (Slab.insert c.tokenMap (⟨min pri MAX_PRI, fwd⟩ : Entry F)).1

theorem add_eq (c : Control S F ρ) (register : List (Result Unit)) (pri : Nat) (fwd : F) :
    c.add register pri fwd =
      retry register >>= fun rv => .ret (rv.map fun _ => c.nextToken pri fwd, c.enter pri fwd) := by
  unfold add
  cases h : retry register with
  | ret rv => cases rv <;> simp [enter, nextToken, Except.map]
  | _ => simp

/-- `del` with its token taken out. -/
def leave (c : Control S F ρ) (token : Nat) : Control S F ρ :=
  { c with tokenMap := Slab.remove c.tokenMap token }

theorem del_occupied {c : Control S F ρ} {token : Nat}
    (h : Slab.contains c.tokenMap token = true) (deregister : List (Result Unit)) :
    c.del token deregister = retry deregister >>= fun rv => .ret (rv, c.leave token) := by
  unfold del
  simp only [h, if_true]
  rfl

theorem setWakeFwd_occupied {c : Control S F ρ} {entry : Entry F}
    (h : Slab.get c.tokenMap WAKER_TOKEN = some entry) (fwd : F) :
    c.setWakeFwd fwd =
      .ret { c with tokenMap := Slab.set c.tokenMap WAKER_TOKEN { entry with fwd := fwd } } := by
  simp only [setWakeFwd, h]

/-- A map whose entries keep their priorities from the old one. -/
theorem Inv.of_entries {c : Control S F ρ} (hc : c.Inv) {tokenMap : S}
    (h : ∀ k e, Slab.get tokenMap k = some e →
      ∃ k' e', Slab.get c.tokenMap k' = some e' ∧ e.pri = e'.pri) :
    Inv { c with tokenMap := tokenMap } where
  maxPri_le := hc.maxPri_le
  entry_le k e he := by
    obtain ⟨k', e', he', hp⟩ := h k e he
    rw [hp]
    exact hc.entry_le k' e' he'
  entry_inUse k e he := by
    obtain ⟨k', e', he', hp⟩ := h k e he
    rw [hp]
    exact hc.entry_inUse k' e' he'
  queue_top := hc.queue_top
  queue_inUse := hc.queue_inUse
  count := hc.count

theorem Inv.leave {c : Control S F ρ} (hc : c.Inv) {token : Nat}
    (h : (Slab.get c.tokenMap token).isSome) : (c.leave token).Inv := by
  refine hc.of_entries fun k e he => ?_
  rw [Slab.get_remove _ _ _ h] at he
  split at he
  · cases he
  · exact ⟨k, e, he, rfl⟩

theorem Inv.setWake {c : Control S F ρ} (hc : c.Inv) {entry : Entry F}
    (h : Slab.get c.tokenMap WAKER_TOKEN = some entry) (fwd : F) :
    Inv { c with tokenMap := Slab.set c.tokenMap WAKER_TOKEN { entry with fwd := fwd } } := by
  refine hc.of_entries fun k e he => ?_
  rw [Slab.get_set _ _ _ _ (by rw [h]; rfl)] at he
  split at he
  · cases he
    exact ⟨WAKER_TOKEN, entry, h, rfl⟩
  · exact ⟨k, e, he, rfl⟩

theorem inUse_mono {priorities : BitVec 16} {i : Nat} (hi : i ≤ MAX_PRI)
    (h : inUse priorities i = true) (pri : Nat) :
    inUse (priorities ||| bit pri) i = true := by
  rw [inUse_or _ _ (by unfold MAX_PRI at hi; omega), h, Bool.true_or]

/-- A bit and a bound are set before the entry that needs them is made. -/
theorem Inv.enter {c : Control S F ρ} (hc : c.Inv) (pri : Nat) (fwd : F) :
    (c.enter pri fwd).Inv where
  maxPri_le := max_le hc.maxPri_le (min_le_right _ _)
  entry_le k e he := by
    rw [Control.enter, Slab.get_insert] at he
    split at he
    · cases he
      exact le_max_right _ _
    · exact le_trans (hc.entry_le k e he) (le_max_left _ _)
  entry_inUse k e he := by
    rw [Control.enter, Slab.get_insert] at he
    split at he
    · cases he
      have hm : min pri MAX_PRI < 16 := by unfold MAX_PRI; omega
      simp [Control.enter, inUse_or _ _ hm]
    · exact inUse_mono (le_trans (hc.entry_le k e he) hc.maxPri_le) (hc.entry_inUse k e he) _
  queue_top i hi := hc.queue_top i (le_trans (le_max_left _ _) hi)
  queue_inUse i hi := by
    have hlt : i < MAX_PRI := by
      by_contra hge
      exact hi (Queues.view_of_ge _ (Nat.le_of_not_lt hge))
    exact inUse_mono hlt.le (hc.queue_inUse i hi) _
  count := hc.count

/-! ## `poll`: the events mio reported -/

/-- Where `poll` stands when the events filed so far make the lists `ls`: the
lists below the highest priority are in the queues, and what came at that
priority has been delivered. -/
structure Filed (c : Control S F ρ) (p : Polling S F ρ) (ls : Levels (QueueEvent ρ)) : Prop where
  frame : p.ctrl = { c with queues := p.ctrl.queues, nQueued := p.ctrl.nQueued }
  below : ∀ i, i < c.maxPri → p.ctrl.queue i = ls i
  above : ∀ i, c.maxPri < i → ls i = []
  live : ∀ q ∈ ls c.maxPri, (Slab.get c.tokenMap q.token).isSome
  calls : p.calls = (ls c.maxPri).filterMap (Scheduler.deliver c.tokenMap)
  done : p.done = !p.calls.isEmpty
  inv : p.ctrl.Inv

theorem Filed.start {c : Control S F ρ} (hc : c.Inv) : Filed c ⟨c, false, []⟩ c.queue where
  frame := rfl
  below _ _ := rfl
  above i hi := hc.queue_top i hi.le
  live q hq := by rw [hc.queue_top _ (le_refl _)] at hq; cases hq
  calls := by rw [hc.queue_top _ (le_refl _)]; rfl
  done := rfl
  inv := hc

theorem Filed.push_top {c : Control S F ρ} {p : Polling S F ρ} {ls : Levels (QueueEvent ρ)}
    (h : Filed c p ls) {ev : Event ρ} {entry : Entry F}
    (he : Slab.get c.tokenMap ev.token = some entry) :
    Filed c { p with done := true, calls := p.calls ++ [⟨ev.token, entry.fwd, ev.ready⟩] }
      (ls.push c.maxPri ⟨ev.token, ev.ready⟩) where
  frame := h.frame
  below i hi := by rw [Levels.push_ne _ _ hi.ne]; exact h.below i hi
  above i hi := by rw [Levels.push_ne _ _ hi.ne']; exact h.above i hi
  live q hq := by
    rw [Levels.push_self, List.mem_append, List.mem_singleton] at hq
    rcases hq with hq | rfl
    · exact h.live q hq
    · rw [he]; rfl
  calls := by simp [h.calls, Scheduler.deliver, he]
  done := by simp
  inv := h.inv

theorem Inv.pushQueue {c : Control S F ρ} (hc : c.Inv) {i : Nat} (hi : i < c.maxPri)
    (hu : inUse c.priorities i = true) {q : QueueEvent ρ} {queues : Queues ρ}
    (hq : queues.view = c.queue.push i q) :
    Inv { c with queues := queues, nQueued := c.nQueued + 1 } where
  maxPri_le := hc.maxPri_le
  entry_le := hc.entry_le
  entry_inUse := hc.entry_inUse
  queue_top j hj := by
    change queues.view j = []
    have hj : c.maxPri ≤ j := hj
    rw [hq, Levels.push_ne _ _ (by omega)]
    exact hc.queue_top j hj
  queue_inUse j hj := by
    change queues.view j ≠ [] at hj
    by_cases hji : j = i
    · exact hji ▸ hu
    · rw [hq, Levels.push_ne _ _ hji] at hj
      exact hc.queue_inUse j hj
  count := by
    change c.nQueued + 1 = Levels.total MAX_PRI queues.view
    rw [hq, Levels.total_push _ _ (lt_of_lt_of_le hi hc.maxPri_le), ← hc.count]

theorem Filed.push_below {c : Control S F ρ} {p : Polling S F ρ} {ls : Levels (QueueEvent ρ)}
    (h : Filed c p ls) {i : Nat} (hi : i < c.maxPri) (hu : inUse c.priorities i = true)
    {q : QueueEvent ρ} {queues : Queues ρ} (hq : queues.view = p.ctrl.queue.push i q) :
    Filed c { p with ctrl := { p.ctrl with queues := queues, nQueued := p.ctrl.nQueued + 1 } }
      (ls.push i q) where
  frame := by rw [h.frame]
  below j hj := by
    change queues.view j = _
    rw [hq]
    by_cases hji : j = i
    · subst hji
      rw [Levels.push_self, Levels.push_self, h.below j hj]
    · rw [Levels.push_ne _ _ hji, Levels.push_ne _ _ hji, h.below j hj]
  above j hj := by
    rw [Levels.push_ne _ _ (by omega)]
    exact h.above j hj
  live := by
    rw [Levels.push_ne _ _ hi.ne']
    exact h.live
  calls := by
    rw [Levels.push_ne _ _ hi.ne']
    exact h.calls
  done := h.done
  inv := by
    refine h.inv.pushQueue ?_ ?_ hq
    · rw [h.frame]
      exact hi
    · rw [h.frame]
      exact hu

/-- The loop over the reported events files them, delivering what comes at the
highest priority in use. -/
theorem pollEvent_filed {c : Control S F ρ} (hc : c.Inv) (events : List (Event ρ)) :
    ∀ {p : Polling S F ρ} {ls : Levels (QueueEvent ρ)}, Filed c p ls →
      ∃ p', events.foldlM pollEvent p = .ret p' ∧
        Filed c p' (Levels.file (Scheduler.place c.tokenMap) ls events) := by
  induction events with
  | nil => exact fun {p ls} h => ⟨p, rfl, h⟩
  | cons ev events ih =>
    intro p ls h
    have hmap : p.ctrl.tokenMap = c.tokenMap := by rw [h.frame]
    have hmax : p.ctrl.maxPri = c.maxPri := by rw [h.frame]
    rw [List.foldlM_cons, Levels.file]
    cases he : Slab.get c.tokenMap ev.token with
    | none =>
      have hstep : pollEvent p ev = .ret p := by simp only [pollEvent, hmap, he]
      have hplace : Scheduler.place c.tokenMap ev = none := by simp [Scheduler.place, he]
      rw [hstep, hplace]
      exact ih h
    | some entry =>
      have hplace : Scheduler.place c.tokenMap ev = some (entry.pri, ⟨ev.token, ev.ready⟩) := by
        simp [Scheduler.place, he]
      rw [hplace]
      by_cases hpri : entry.pri = c.maxPri
      · have hstep : pollEvent p ev = .ret { p with
            done := true, calls := p.calls ++ [⟨ev.token, entry.fwd, ev.ready⟩] } := by
          simp only [pollEvent, hmap, he, hmax, hpri, if_true]
        rw [hstep, hpri]
        exact ih (h.push_top he)
      · have hlt : entry.pri < c.maxPri := lt_of_le_of_ne (hc.entry_le _ _ he) hpri
        obtain ⟨queues, hpush, hview⟩ := p.ctrl.queues.push_ret
          (lt_of_lt_of_le hlt hc.maxPri_le) (⟨ev.token, ev.ready⟩ : QueueEvent ρ)
        have hstep : pollEvent p ev = .ret { p with ctrl :=
            { p.ctrl with queues := queues, nQueued := p.ctrl.nQueued + 1 } } := by
          simp only [pollEvent, hmap, he, hmax, hpri, if_false, hpush, Exec.ret_bind]
        rw [hstep]
        exact ih (h.push_below hlt (hc.entry_inUse _ _ he) hview)

/-! ## `poll`: the queues -/

/-- Draining a list makes the calls of its live events, in order. -/
theorem foldl_drainEvent (qu : List (QueueEvent ρ)) (p : Polling S F ρ) :
    qu.foldl drainEvent p =
      { p with
        done := p.done || !(qu.filterMap (Scheduler.deliver p.ctrl.tokenMap)).isEmpty
        calls := p.calls ++ qu.filterMap (Scheduler.deliver p.ctrl.tokenMap) } := by
  induction qu generalizing p with
  | nil => simp
  | cons q qu ih =>
    rw [List.foldl_cons, ih]
    cases hq : Slab.get p.ctrl.tokenMap q.token with
    | none => simp [drainEvent, Scheduler.deliver, hq]
    | some entry => simp [drainEvent, Scheduler.deliver, hq]

variable {p : Polling S F ρ} {i n : Nat}

/-- Once something was delivered, a level is only counted. -/
theorem drainLevel_done (hd : p.done = true) (hi : i < MAX_PRI)
    (hu : p.ctrl.queue i ≠ [] → inUse p.ctrl.priorities i = true) :
    drainLevel p i = .ret { p with
      ctrl := { p.ctrl with nQueued := p.ctrl.nQueued + (p.ctrl.queue i).length } } := by
  have hview : p.ctrl.queue i = p.ctrl.queues[i] := Queues.view_of_lt _ hi
  unfold drainLevel
  rw [dif_pos hi, hview]
  by_cases he : p.ctrl.queues[i] = []
  · simp [he]
  · simp [he, hd, hu (hview ▸ he)]

/-- Until then it is emptied, with the calls of its live events. -/
theorem drainLevel_first (hd : p.done = false) (hi : i < MAX_PRI)
    (hu : p.ctrl.queue i ≠ [] → inUse p.ctrl.priorities i = true) :
    ∃ queues : Queues ρ, queues.view = p.ctrl.queue.clear i ∧
      drainLevel p i = .ret
        { ctrl := { p.ctrl with queues := queues }
          done := !((p.ctrl.queue i).filterMap (Scheduler.deliver p.ctrl.tokenMap)).isEmpty
          calls := p.calls ++ (p.ctrl.queue i).filterMap
            (Scheduler.deliver p.ctrl.tokenMap) } := by
  have hview : p.ctrl.queue i = p.ctrl.queues[i] := Queues.view_of_lt _ hi
  by_cases he : p.ctrl.queues[i] = []
  · refine ⟨p.ctrl.queues, (Levels.clear_of_nil (hview.trans he)).symm, ?_⟩
    unfold drainLevel
    rw [dif_pos hi, hview]
    obtain ⟨ctrl, done, calls⟩ := p
    cases hd
    simp only at he
    simp [he]
  · refine ⟨p.ctrl.queues.set i [], Queues.view_set _ hi _, ?_⟩
    unfold drainLevel
    rw [dif_pos hi, hview]
    simp [he, hd, hu (hview ▸ he), foldl_drainEvent]

theorem drainLevels_done (hd : p.done = true) (hn : n ≤ MAX_PRI)
    (hu : ∀ i, p.ctrl.queue i ≠ [] → inUse p.ctrl.priorities i = true) :
    drainLevels n p = .ret { p with
      ctrl := { p.ctrl with nQueued := p.ctrl.nQueued + Levels.total n p.ctrl.queue } } := by
  induction n generalizing p with
  | zero => rfl
  | succ n ih =>
    have ih := ih (p := { p with
      ctrl := { p.ctrl with nQueued := p.ctrl.nQueued + (p.ctrl.queue n).length } })
      hd (by omega) hu
    rw [drainLevels, drainLevel_done hd (by omega) (hu n), Exec.ret_bind, ih,
      Levels.total_succ, Nat.add_right_comm, Nat.add_assoc]
    rfl

/-- The drain loop serves the queues as the reference serves its lists, and
counts what it leaves below level `n`. -/
theorem drainLevels_serve (hd : p.done = false) (hn : n ≤ MAX_PRI)
    (hu : ∀ i, p.ctrl.queue i ≠ [] → inUse p.ctrl.priorities i = true) :
    ∃ queues : Queues ρ,
      Levels.serve (Scheduler.deliver p.ctrl.tokenMap) n p.ctrl.queue =
        ((Levels.serve (Scheduler.deliver p.ctrl.tokenMap) n p.ctrl.queue).1, queues.view) ∧
      drainLevels n p = .ret
        { ctrl := { p.ctrl with
            queues := queues
            nQueued := p.ctrl.nQueued + Levels.total n queues.view }
          done := !(Levels.serve (Scheduler.deliver p.ctrl.tokenMap) n p.ctrl.queue).1.isEmpty
          calls := p.calls ++
            (Levels.serve (Scheduler.deliver p.ctrl.tokenMap) n p.ctrl.queue).1 } := by
  induction n generalizing p with
  | zero =>
    refine ⟨p.ctrl.queues, rfl, ?_⟩
    obtain ⟨ctrl, done, calls⟩ := p
    cases hd
    simp [drainLevels, Levels.serve, Levels.total]
  | succ n ih =>
    obtain ⟨queues, hview, hlevel⟩ := drainLevel_first hd (show n < MAX_PRI by omega) (hu n)
    have hu' : ∀ i, queues.view i ≠ [] → inUse p.ctrl.priorities i = true := by
      intro i hi
      by_cases hin : i = n
      · rw [hin, hview, Levels.clear_self] at hi
        contradiction
      · rw [hview, Levels.clear_ne _ hin] at hi
        exact hu i hi
    rw [drainLevels, hlevel, Exec.ret_bind]
    by_cases hlive : (p.ctrl.queue n).filterMap (Scheduler.deliver p.ctrl.tokenMap) = []
    · obtain ⟨queues', hserve, hdrain⟩ := ih (p := { p with
        ctrl := { p.ctrl with queues := queues }, done := false }) rfl (by omega) hu'
      change Levels.serve _ n queues.view = (_, queues'.view) at hserve
      have hn0 : queues'.view n = [] := by
        have hge := congrArg (fun r : _ × Levels _ => r.2 n) hserve
        simp only [Levels.serve_ge (le_refl n)] at hge
        rw [← hge, hview, Levels.clear_self]
      refine ⟨queues', ?_, ?_⟩
      · rw [Levels.serve_succ_nil hlive, ← hview]
        exact hserve
      · rw [Levels.serve_succ_nil hlive, ← hview, Levels.total_succ, hn0, hlive]
        simpa using hdrain
    · refine ⟨queues, ?_, ?_⟩
      · rw [Levels.serve_succ_cons hlive, hview]
      · have hn0 : queues.view n = [] := by rw [hview, Levels.clear_self]
        have hdrain := drainLevels_done (n := n) (p :=
          { ctrl := { p.ctrl with queues := queues }
            done := !((p.ctrl.queue n).filterMap (Scheduler.deliver p.ctrl.tokenMap)).isEmpty
            calls := p.calls ++ (p.ctrl.queue n).filterMap
              (Scheduler.deliver p.ctrl.tokenMap) }) (by simpa using hlive) (by omega) hu'
        rw [hdrain, Levels.serve_succ_cons hlive, Levels.total_succ, hn0]
        rfl

/-! ## `poll` is the reference's poll -/

/-- With something delivered at the highest priority in use, the reference stops
there too. -/
theorem Filed.serve_done {c : Control S F ρ} {ls : Levels (QueueEvent ρ)}
    (hc : c.Inv) (h : Filed c p ls) (hd : p.done = true) :
    Levels.serve (Scheduler.deliver c.tokenMap) Scheduler.levels ls = (p.calls, p.ctrl.queue) := by
  have hmax : p.ctrl.maxPri = c.maxPri := by rw [h.frame]
  have hlive : (ls c.maxPri).filterMap (Scheduler.deliver c.tokenMap) ≠ [] := by
    rw [← h.calls]
    intro hnil
    rw [h.done, hnil] at hd
    cases hd
  have hdead : ∀ i, c.maxPri < i → i < Scheduler.levels →
      (ls i).filterMap (Scheduler.deliver c.tokenMap) = [] :=
    fun i hi _ => by rw [h.above i hi]; rfl
  have hlt : c.maxPri < Scheduler.levels := Nat.lt_succ_of_le hc.maxPri_le
  rw [Levels.serve_level hlt hlive hdead, ← h.calls]
  refine Prod.ext rfl (funext fun i => ?_)
  dsimp only
  by_cases hi : i < c.maxPri
  · rw [h.below i hi]
    exact if_neg (by omega)
  · rw [h.inv.queue_top i (by omega)]
    by_cases hlt : i < Scheduler.levels
    · exact if_pos ⟨by omega, hlt⟩
    · unfold Scheduler.levels at hlt
      exact (if_neg (by unfold Scheduler.levels; omega)).trans
        (h.above i (lt_of_le_of_lt hc.maxPri_le (by omega)))

/-- With nothing delivered so far the queues hold all there is. -/
theorem Filed.lists_eq {c : Control S F ρ} {ls : Levels (QueueEvent ρ)}
    (h : Filed c p ls) (hd : p.done = false) : ls = p.ctrl.queue := by
  have hmax : p.ctrl.maxPri = c.maxPri := by rw [h.frame]
  have hcalls : p.calls = [] := by
    rw [h.done] at hd
    simpa using hd
  funext i
  rcases lt_trichotomy i c.maxPri with hi | hi | hi
  · rw [h.below i hi]
  · -- an item filed at the top level would have been delivered
    rw [h.inv.queue_top i (by omega), hi, List.eq_nil_iff_forall_not_mem]
    intro q hq
    obtain ⟨entry, he⟩ := Option.isSome_iff_exists.mp (h.live q hq)
    have hmem : (⟨q.token, entry.fwd, q.ready⟩ : Call F ρ) ∈ p.calls := by
      rw [h.calls, List.mem_filterMap]
      exact ⟨q, hq, by simp [Scheduler.deliver, he]⟩
    rw [hcalls] at hmem
    cases hmem
  · rw [h.above i hi, h.inv.queue_top i (by omega)]

/-- Queues emptied by serving, recounted. -/
theorem Inv.served {c : Control S F ρ} (hc : c.Inv) {queues : Queues ρ}
    (hsub : ∀ i, queues.view i = c.queue i ∨ queues.view i = []) :
    Inv { c with queues := queues, nQueued := Levels.total c.maxPri queues.view } := by
  have htop : ∀ i, c.maxPri ≤ i → queues.view i = [] := by
    intro i hi
    rcases hsub i with h | h
    · rw [h, hc.queue_top i hi]
    · exact h
  refine ⟨hc.maxPri_le, hc.entry_le, hc.entry_inUse, htop, fun i hi => ?_, ?_⟩
  · rcases hsub i with h | h
    · exact hc.queue_inUse i (h ▸ hi)
    · exact absurd h hi
  · exact (Levels.total_mono_of_nil hc.maxPri_le fun i hi _ => htop i hi).symm

/-- The drain block ends where the reference's serving does. -/
theorem drainQueues_serve {c : Control S F ρ} {ls : Levels (QueueEvent ρ)} (hc : c.Inv)
    (h : Filed c p ls) : ∃ p', drainQueues p = .ret p' ∧
      Levels.serve (Scheduler.deliver c.tokenMap) Scheduler.levels ls =
        (p'.calls, p'.ctrl.queue) ∧
      p'.done = !p'.calls.isEmpty ∧ p'.ctrl.Inv ∧
      p'.ctrl = { c with queues := p'.ctrl.queues, nQueued := p'.ctrl.nQueued } := by
  have hmap : p.ctrl.tokenMap = c.tokenMap := by rw [h.frame]
  cases hd : p.done with
  | true => exact ⟨p, by simp [drainQueues, hd], h.serve_done hc hd, h.done, h.inv, h.frame⟩
  | false =>
    have hcalls : p.calls = [] := by
      rw [h.done] at hd
      simpa using hd
    have htop : Levels.serve (Scheduler.deliver (F := F) c.tokenMap) Scheduler.levels ls =
        Levels.serve (Scheduler.deliver c.tokenMap) p.ctrl.maxPri p.ctrl.queue := by
      rw [h.lists_eq hd]
      exact Levels.serve_of_nil_above (le_trans h.inv.maxPri_le (Nat.le_succ _))
        fun i hi _ => h.inv.queue_top i hi
    rw [htop]
    by_cases hq : p.ctrl.nQueued > 0
    · obtain ⟨queues, hserve, hdrain⟩ := drainLevels_serve (n := p.ctrl.maxPri)
        (p := { p with ctrl := { p.ctrl with nQueued := 0 } }) hd h.inv.maxPri_le
        h.inv.queue_inUse
      rw [hmap] at hserve hdrain
      change Levels.serve _ p.ctrl.maxPri p.ctrl.queue = (_, queues.view) at hserve
      have hsub : ∀ i, queues.view i = p.ctrl.queue i ∨ queues.view i = [] := by
        intro i
        have hor := @Levels.serve_or _ _ (Scheduler.deliver (F := F) c.tokenMap)
          p.ctrl.maxPri i p.ctrl.queue
        rwa [hserve] at hor
      refine ⟨_, (if_pos (by simp [hd, hq])).trans hdrain, ?_, ?_, ?_, ?_⟩
      · rw [hserve, hcalls]
        rfl
      · rw [hcalls]
        rfl
      · simpa using h.inv.served hsub
      · rw [h.frame]
    · have hnil : ∀ i, i < p.ctrl.maxPri → p.ctrl.queue i = [] := by
        intro i hi
        have htotal : Levels.total MAX_PRI p.ctrl.queue = 0 := by
          rw [← h.inv.count]
          omega
        exact Levels.total_eq_zero_iff.mp htotal i (lt_of_lt_of_le hi h.inv.maxPri_le)
      refine ⟨p, if_neg (by simp [hq]), ?_, h.done, h.inv, h.frame⟩
      rw [Levels.serve_dead fun i hi => by rw [hnil i hi]; rfl, hcalls]
      refine Prod.ext rfl (funext fun i => ?_)
      dsimp only
      split
      · rename_i hi
        rw [hnil i hi]
      · rfl

/-- **`poll` refines the reference.** It never panics, makes the reference's
calls, returns the reference's flags, and leaves queues that stand for the
reference's lists. -/
theorem pollEvents_refines {c : Control S F ρ} (hc : c.Inv) (events : List (Event ρ)) :
    ∃ c' : Control S F ρ,
      c.pollEvents events = .ret (c', (c.abs.pollEvents (F := F) events).2) ∧
      c'.abs = (c.abs.pollEvents (F := F) events).1 ∧ c'.Inv ∧
      c' = { c with queues := c'.queues, nQueued := c'.nQueued } := by
  obtain ⟨q, hloop, h⟩ := pollEvent_filed hc events (Filed.start hc)
  obtain ⟨p, hdrain, hserve, hdone, hinv, hframe⟩ := drainQueues_serve hc h
  have hmap : p.ctrl.tokenMap = c.tokenMap := by rw [hframe]
  have hcount : decide (p.ctrl.nQueued > 0) = Levels.pending Scheduler.levels p.ctrl.queue := by
    rw [hinv.count, Levels.pending_eq_total, Scheduler.levels, Levels.total_succ,
      hinv.queue_top _ hinv.maxPri_le]
    rfl
  refine ⟨p.ctrl, ?_, ?_, hinv, hframe⟩
  · simp only [pollEvents, hloop, Exec.ret_bind, hdrain, hcount, hdone, Scheduler.pollEvents,
      abs, hserve]
  · simp only [Scheduler.pollEvents, abs, hserve, hmap]

end Control

/-! ## `MioPoll::new` -/

namespace MioPoll
variable [Slab S (Entry F)]

/-- The token map of a new `MioPoll`, before the wake handler is set. -/
def wakerMap (nop : F) (wakerPri : Nat) : S :=
  (Slab.insert (Slab.empty : S) (⟨min wakerPri MAX_PRI, nop⟩ : Entry F)).2

theorem get_wakerMap (nop : F) (wakerPri k : Nat) :
    Slab.get (wakerMap nop wakerPri : S) k =
      if k = WAKER_TOKEN then some ⟨min wakerPri MAX_PRI, nop⟩ else none := by
  rw [wakerMap, Slab.get_insert, Slab.insert_empty, Slab.get_empty]
  rfl

/-- A new `MioPoll` has the waker's entry and nothing else. -/
theorem new_returns {nop wake : F} {wakerPri : Nat} {waker : List (Result Unit)}
    {c : Control S F ρ} (h : new nop wake wakerPri waker = .ret (.ok c)) :
    c = { tokenMap := Slab.set (wakerMap nop wakerPri) WAKER_TOKEN
            ⟨min wakerPri MAX_PRI, wake⟩
          queues := Vector.replicate MAX_PRI []
          nQueued := 0
          maxPri := min wakerPri MAX_PRI
          priorities := bit (min wakerPri MAX_PRI)
          errors := [] } := by
  have h0 : (Slab.insert (Slab.empty : S) (⟨min wakerPri MAX_PRI, nop⟩ : Entry F)).1 =
      WAKER_TOKEN := Slab.insert_empty _
  simp only [new, h0, ne_eq, not_true_eq_false, if_false] at h
  obtain ⟨rv, -, h⟩ := Exec.bind_eq_ret.mp h
  cases rv with
  | error e => cases h
  | ok u =>
    rw [Control.setWakeFwd_occupied ((get_wakerMap nop wakerPri WAKER_TOKEN).trans
      (if_pos rfl)), Exec.ret_bind] at h
    cases h
    rfl

theorem new_get {nop wake : F} {wakerPri : Nat} {waker : List (Result Unit)}
    {c : Control S F ρ} (h : new nop wake wakerPri waker = .ret (.ok c)) (k : Nat) :
    Slab.get c.tokenMap k =
      if k = WAKER_TOKEN then some ⟨min wakerPri MAX_PRI, wake⟩ else none := by
  rw [new_returns h, Slab.get_set _ _ _ _ (by rw [get_wakerMap]; rfl), get_wakerMap]
  split <;> rfl

theorem view_replicate (i : Nat) : Queues.view (Vector.replicate MAX_PRI [] : Queues ρ) i = [] := by
  by_cases hi : i < MAX_PRI
  · rw [Queues.view_of_lt _ hi, Vector.getElem_replicate]
  · exact Queues.view_of_ge _ (Nat.le_of_not_lt hi)

theorem new_inv {nop wake : F} {wakerPri : Nat} {waker : List (Result Unit)}
    {c : Control S F ρ} (h : new nop wake wakerPri waker = .ret (.ok c)) : c.Inv := by
  have hget := new_get h
  have hpri : ∀ k e, Slab.get c.tokenMap k = some e → e.pri = min wakerPri MAX_PRI := by
    intro k e he
    rw [hget] at he
    split at he
    · cases he
      rfl
    · cases he
  rw [new_returns h] at hpri ⊢
  refine ⟨min_le_right _ _, fun k e he => (hpri k e he).le, fun k e he => ?_,
    fun i _ => view_replicate i, fun i hi => absurd (view_replicate i) hi, ?_⟩
  · have hlt : min wakerPri MAX_PRI < 16 := by unfold MAX_PRI; omega
    rw [hpri k e he, inUse_eq _ hlt, bit_getLsbD hlt]
    simp
  · exact (Levels.total_eq_zero_iff.mpr fun i _ => view_replicate i).symm

end MioPoll
end StakkerMio
