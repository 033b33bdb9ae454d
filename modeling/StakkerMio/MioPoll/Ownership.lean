import StakkerMio.MioPoll.Invariant

/-! # Who owns which token

Runs of `MioPoll` operations keep the live sources and the token map in step
(`System.Owned`): each live source holds a token of its own, occupied by its own
entry, and `WAKER_TOKEN` stays occupied. A failed registration is the one way
an entry gets into the map that no source will ever take out again. -/
namespace StakkerMio
open Lib

variable {S F ρ : Type} [Slab S (Entry F)]

/-- A new `MioPoll` over the usual slab, with handlers named by numbers and the
waker at priority 5. -/
def MioPoll.sample : Control (FreeSlab (Entry Nat)) Nat Nat where
  tokenMap := Slab.set (MioPoll.wakerMap 0 5) WAKER_TOKEN ⟨5, 1⟩
  queues := Vector.replicate MAX_PRI []
  nQueued := 0
  maxPri := 5
  priorities := bit 5
  errors := []

theorem MioPoll.sample_new : MioPoll.new 0 1 5 [.ok ()] = .ret (.ok MioPoll.sample) := rfl

namespace System
variable {s t : System (Control S F ρ) F ρ}

/-! ## What a step does -/

/-- A step of the crate's controller. -/
abbrev next (s : System (Control S F ρ) F ρ) (op : Op F ρ) :
    Exec (System (Control S F ρ) F ρ) := step Control.controller s op

theorem next_add {pri : Nat} {fwd : F} {register : List (Result Unit)}
    (h : s.next (.add pri fwd register) = .ret t) :
    (∃ e, retry register = .ret (.error e) ∧
      t = { s with ctrl := s.ctrl.enter pri fwd, adds := s.adds + 1 }) ∨
    (retry register = .ret (.ok ()) ∧
      t = { s with
        ctrl := s.ctrl.enter pri fwd
        adds := s.adds + 1
        sources := s.sources ++ [⟨s.ctrl.nextToken pri fwd, s.adds + 1, pri, fwd⟩] }) := by
  simp only [next, step, Control.controller, Control.add_eq] at h
  obtain ⟨⟨rv, ctrl⟩, hadd, h⟩ := Exec.bind_eq_ret.mp h
  obtain ⟨r, hr, hadd⟩ := Exec.bind_eq_ret.mp hadd
  cases r with
  | error e =>
    cases hadd
    cases h
    exact .inl ⟨e, hr, rfl⟩
  | ok u =>
    cases hadd
    cases h
    exact .inr ⟨hr, rfl⟩

theorem next_drop {id : Nat} {deregister : List (Result Unit)}
    (hocc : ∀ src ∈ s.sources, (Slab.get s.ctrl.tokenMap src.token).isSome)
    (h : s.next (.drop id deregister) = .ret t) :
    (s.source id = none ∧ t = s) ∨
    ∃ src errors, s.source id = some src ∧
      t = { s with
        ctrl := { s.ctrl.leave src.token with errors := errors }
        sources := s.sources.filter fun src => src.id != id } := by
  simp only [next, step] at h
  cases hsrc : s.source id with
  | none =>
    simp only [hsrc] at h
    cases h
    exact .inl ⟨rfl, rfl⟩
  | some src =>
    simp only [hsrc] at h
    obtain ⟨ctrl, hdrop, h⟩ := Exec.bind_eq_ret.mp h
    cases h
    refine .inr ⟨src, ctrl.errors, rfl, ?_⟩
    have hmem : src ∈ s.sources := List.mem_of_find?_eq_some hsrc
    change s.ctrl.drop src.token deregister = .ret ctrl at hdrop
    simp only [Control.drop, Control.del_occupied (hocc src hmem)] at hdrop
    obtain ⟨⟨rv, c⟩, hdel, hdrop⟩ := Exec.bind_eq_ret.mp hdrop
    obtain ⟨r, -, hdel⟩ := Exec.bind_eq_ret.mp hdel
    cases hdel
    cases rv with
    | error e =>
      cases hdrop
      rfl
    | ok u =>
      cases hdrop
      rfl

theorem next_setWakeFwd {fwd : F} (h : s.next (.setWakeFwd fwd) = .ret t) :
    ∃ entry, Slab.get s.ctrl.tokenMap WAKER_TOKEN = some entry ∧
      t = { s with ctrl := { s.ctrl with
        tokenMap := Slab.set s.ctrl.tokenMap WAKER_TOKEN { entry with fwd := fwd } } } := by
  simp only [next, step, Control.controller] at h
  obtain ⟨ctrl, hset, h⟩ := Exec.bind_eq_ret.mp h
  cases h
  cases he : Slab.get s.ctrl.tokenMap WAKER_TOKEN with
  | none =>
    simp only [Control.setWakeFwd, he] at hset
    cases hset
  | some entry =>
    rw [Control.setWakeFwd_occupied he] at hset
    cases hset
    exact ⟨entry, rfl, rfl⟩

theorem next_poll {outcomes : List (Result (List (Event ρ)))}
    (h : s.next (.poll outcomes) = .ret t) :
    (∃ e, retry outcomes = .ret (.error e) ∧
      t = { s with polled := s.polled ++ [(.error e, [])] }) ∨
    ∃ events ctrl rv calls, retry outcomes = .ret (.ok events) ∧
      s.ctrl.pollEvents events = .ret (ctrl, rv, calls) ∧
      t = { s with ctrl := ctrl, polled := s.polled ++ [(.ok rv, calls)] } := by
  simp only [next, step, Control.controller, Control.poll] at h
  obtain ⟨⟨ctrl, rv, calls⟩, hpoll, h⟩ := Exec.bind_eq_ret.mp h
  obtain ⟨r, hr, hpoll⟩ := Exec.bind_eq_ret.mp hpoll
  cases r with
  | error e =>
    cases hpoll
    cases h
    exact .inl ⟨e, hr, rfl⟩
  | ok events =>
    obtain ⟨⟨ctrl', rv', calls'⟩, hev, hpoll⟩ := Exec.bind_eq_ret.mp hpoll
    cases hpoll
    cases h
    exact .inr ⟨events, _, rv', _, hr, hev, rfl⟩

/-! ## The invariant of runs -/

/-- The live sources own their tokens. -/
structure Owned (s : System (Control S F ρ) F ρ) : Prop where
  inv : s.ctrl.Inv
  waker : (Slab.get s.ctrl.tokenMap WAKER_TOKEN).isSome
  entry : ∀ src ∈ s.sources,
    Slab.get s.ctrl.tokenMap src.token = some ⟨min src.pri MAX_PRI, src.fwd⟩
  ne_waker : ∀ src ∈ s.sources, src.token ≠ WAKER_TOKEN
  tokens : (s.sources.map MioSource.token).Nodup
  id_le : ∀ src ∈ s.sources, src.id ≤ s.adds
  ids : (s.sources.map MioSource.id).Nodup

theorem Owned.occupied (hs : s.Owned) {src : MioSource F} (h : src ∈ s.sources) :
    (Slab.get s.ctrl.tokenMap src.token).isSome := by
  rw [hs.entry src h]
  rfl

/-- Two live sources with one token, or one number, are one. -/
theorem Owned.eq_of_token (hs : s.Owned) {a b : MioSource F} (ha : a ∈ s.sources)
    (hb : b ∈ s.sources) (h : a.token = b.token) : a = b :=
  List.inj_on_of_nodup_map hs.tokens ha hb h

theorem Owned.eq_of_id (hs : s.Owned) {a b : MioSource F} (ha : a ∈ s.sources)
    (hb : b ∈ s.sources) (h : a.id = b.id) : a = b :=
  List.inj_on_of_nodup_map hs.ids ha hb h

omit [Slab S (Entry F)] in
theorem source_mem {id : Nat} {src : MioSource F} (h : s.source id = some src) :
    src ∈ s.sources ∧ src.id = id :=
  ⟨List.mem_of_find?_eq_some h, by simpa using List.find?_some h⟩

/-- The key an `add` gets is nobody's. -/
theorem Owned.nextToken_fresh (hs : s.Owned) (pri : Nat) (fwd : F) :
    s.ctrl.nextToken pri fwd ≠ WAKER_TOKEN ∧
      ∀ src ∈ s.sources, src.token ≠ s.ctrl.nextToken pri fwd := by
  obtain ⟨entry, hw⟩ := Option.isSome_iff_exists.mp hs.waker
  exact ⟨fun he => Slab.ne_insert _ hw he.symm,
    fun src hsrc => Slab.ne_insert _ (hs.entry src hsrc)⟩

/-- A failed `add` keeps the sources and their entries as they were. -/
theorem Owned.enter (hs : s.Owned) (pri : Nat) (fwd : F) :
    Owned { s with ctrl := s.ctrl.enter pri fwd, adds := s.adds + 1 } where
  inv := hs.inv.enter pri fwd
  waker := by
    obtain ⟨entry, hw⟩ := Option.isSome_iff_exists.mp hs.waker
    rw [Control.enter, Slab.get_insert_ne _ (Slab.ne_insert _ hw)]
    exact hs.waker
  entry src hsrc := by
    have he := hs.entry src hsrc
    rw [Control.enter, Slab.get_insert_ne _ (Slab.ne_insert _ he)]
    exact he
  ne_waker := hs.ne_waker
  tokens := hs.tokens
  id_le src hsrc := Nat.le_succ_of_le (hs.id_le src hsrc)
  ids := hs.ids

theorem Owned.register (hs : s.Owned) (pri : Nat) (fwd : F) :
    Owned { s with
      ctrl := s.ctrl.enter pri fwd
      adds := s.adds + 1
      sources := s.sources ++ [⟨s.ctrl.nextToken pri fwd, s.adds + 1, pri, fwd⟩] } := by
  have he := hs.enter pri fwd
  obtain ⟨hne, hfresh⟩ := hs.nextToken_fresh pri fwd
  refine ⟨he.inv, he.waker, ?_, ?_, ?_, ?_, ?_⟩
  · intro src hsrc
    rcases List.mem_append.mp hsrc with hsrc | hsrc
    · exact he.entry src hsrc
    · cases List.mem_singleton.mp hsrc
      exact Slab.get_insert_self _ _
  · intro src hsrc
    rcases List.mem_append.mp hsrc with hsrc | hsrc
    · exact hs.ne_waker src hsrc
    · cases List.mem_singleton.mp hsrc
      exact hne
  · rw [List.map_append, List.nodup_append]
    refine ⟨hs.tokens, List.nodup_singleton _, fun a ha b hb hab => ?_⟩
    obtain ⟨src, hsrc, rfl⟩ := List.mem_map.mp ha
    cases List.mem_singleton.mp hb
    exact hfresh src hsrc hab
  · intro src hsrc
    rcases List.mem_append.mp hsrc with hsrc | hsrc
    · exact he.id_le src hsrc
    · cases List.mem_singleton.mp hsrc
      exact le_refl _
  · rw [List.map_append, List.nodup_append]
    refine ⟨hs.ids, List.nodup_singleton _, fun a ha b hb hab => ?_⟩
    obtain ⟨src, hsrc, rfl⟩ := List.mem_map.mp ha
    cases List.mem_singleton.mp hb
    have hle := hs.id_le src hsrc
    change src.id = s.adds + 1 at hab
    omega

/-- A drop takes out the source's own entry and no other. -/
theorem Owned.leave (hs : s.Owned) {id : Nat} {src : MioSource F}
    (hsrc : s.source id = some src) (errors : List Error) :
    Owned { s with
      ctrl := { s.ctrl.leave src.token with errors := errors }
      sources := s.sources.filter fun src => src.id != id } := by
  obtain ⟨hmem, hid⟩ := source_mem hsrc
  have hocc := hs.occupied hmem
  have hkept : ∀ a ∈ s.sources.filter fun src => src.id != id,
      a ∈ s.sources ∧ a.token ≠ src.token := by
    intro a ha
    obtain ⟨ha, hne⟩ := List.mem_filter.mp ha
    refine ⟨ha, fun heq => ?_⟩
    rw [hs.eq_of_token ha hmem heq, hid] at hne
    simp at hne
  have hsub : (s.sources.filter fun src => src.id != id).Sublist s.sources :=
    List.filter_sublist
  refine ⟨?_, ?_, ?_, fun a ha => hs.ne_waker a (hkept a ha).1,
    hs.tokens.sublist (hsub.map _), fun a ha => hs.id_le a (hkept a ha).1,
    hs.ids.sublist (hsub.map _)⟩
  · have hinv := hs.inv.leave hocc
    exact ⟨hinv.maxPri_le, hinv.entry_le, hinv.entry_inUse, hinv.queue_top, hinv.queue_inUse,
      hinv.count⟩
  · change (Slab.get (Slab.remove s.ctrl.tokenMap src.token) WAKER_TOKEN).isSome
    rw [Slab.get_remove _ _ _ hocc, if_neg (Ne.symm (hs.ne_waker src hmem))]
    exact hs.waker
  · intro a ha
    obtain ⟨ha, hne⟩ := hkept a ha
    change Slab.get (Slab.remove s.ctrl.tokenMap src.token) a.token = _
    rw [Slab.get_remove _ _ _ hocc, if_neg hne]
    exact hs.entry a ha

theorem Owned.setWake (hs : s.Owned) {entry : Entry F}
    (hw : Slab.get s.ctrl.tokenMap WAKER_TOKEN = some entry) (fwd : F) :
    Owned { s with ctrl := { s.ctrl with
      tokenMap := Slab.set s.ctrl.tokenMap WAKER_TOKEN { entry with fwd := fwd } } } where
  inv := hs.inv.setWake hw fwd
  waker := by
    rw [Slab.get_set _ _ _ _ hs.waker, if_pos rfl]
    rfl
  entry src hsrc := by
    rw [Slab.get_set _ _ _ _ hs.waker, if_neg (hs.ne_waker src hsrc)]
    exact hs.entry src hsrc
  ne_waker := hs.ne_waker
  tokens := hs.tokens
  id_le := hs.id_le
  ids := hs.ids

/-- Nothing but the queues and their count is changed by a poll. -/
theorem Owned.poll (hs : s.Owned) {ctrl : Control S F ρ} (hinv : ctrl.Inv)
    (hmap : ctrl.tokenMap = s.ctrl.tokenMap)
    (polled : List (Result (Bool × Bool) × List (Call F ρ))) :
    Owned { s with ctrl := ctrl, polled := polled } where
  inv := hinv
  waker := by rw [hmap]; exact hs.waker
  entry src hsrc := by rw [hmap]; exact hs.entry src hsrc
  ne_waker := hs.ne_waker
  tokens := hs.tokens
  id_le := hs.id_le
  ids := hs.ids

theorem Owned.next (hs : s.Owned) {op : Op F ρ} (h : s.next op = .ret t) : t.Owned := by
  cases op with
  | add pri fwd register =>
    rcases next_add h with ⟨e, -, rfl⟩ | ⟨-, rfl⟩
    · exact hs.enter pri fwd
    · exact hs.register pri fwd
  | drop id deregister =>
    rcases next_drop (fun src => hs.occupied) h with ⟨-, rfl⟩ | ⟨src, errors, hsrc, rfl⟩
    · exact hs
    · exact hs.leave hsrc errors
  | setWakeFwd fwd =>
    obtain ⟨entry, hw, rfl⟩ := next_setWakeFwd h
    exact hs.setWake hw fwd
  | poll outcomes =>
    rcases next_poll h with ⟨e, -, rfl⟩ | ⟨events, ctrl, rv, calls, -, hev, rfl⟩
    · exact hs.poll hs.inv rfl _
    · obtain ⟨ctrl', hev', -, hinv, hframe⟩ := Control.pollEvents_refines hs.inv events
      rw [hev] at hev'
      cases hev'
      exact hs.poll hinv (by rw [hframe]) _

theorem Owned.start {nop wake : F} {wakerPri : Nat} {waker : List (Result Unit)}
    {c : Control S F ρ} (h : MioPoll.new nop wake wakerPri waker = .ret (.ok c)) :
    Owned ({ ctrl := c } : System (Control S F ρ) F ρ) where
  inv := MioPoll.new_inv h
  waker := by
    rw [MioPoll.new_get h, if_pos rfl]
    rfl
  entry src hsrc := by cases hsrc
  ne_waker src hsrc := by cases hsrc
  tokens := List.nodup_nil
  id_le src hsrc := by cases hsrc
  ids := List.nodup_nil

/-- The state after a run of operations. -/
abbrev runs (s : System (Control S F ρ) F ρ) (ops : List (Op F ρ)) :
    Exec (System (Control S F ρ) F ρ) := Lib.run next s ops

theorem Owned.runs {ops : List (Op F ρ)} (hs : s.Owned) (h : s.runs ops = .ret t) : t.Owned :=
  run_invariant (fun _ _ _ hs h => Owned.next hs h) hs h

theorem Owned.safe (hs : s.Owned) (op : Op F ρ) : s.next op ≠ .panic := by
  intro h
  cases op with
  | add pri fwd register =>
    simp only [System.next, step, Control.controller, Control.add_eq] at h
    rcases retry_cases register with hr | ⟨rv, hr⟩
    · simp [hr] at h
    · cases rv <;> simp [hr, Except.map] at h
  | drop id deregister =>
    simp only [System.next, step] at h
    cases hsrc : s.source id with
    | none => simp [hsrc] at h
    | some src =>
      have hocc := hs.occupied (source_mem hsrc).1
      simp only [hsrc, Control.controller, Control.drop, Control.del_occupied hocc] at h
      rcases retry_cases deregister with hr | ⟨rv, hr⟩
      · simp [hr] at h
      · cases rv <;> simp [hr] at h
  | setWakeFwd fwd =>
    obtain ⟨entry, hw⟩ := Option.isSome_iff_exists.mp hs.waker
    simp [System.next, step, Control.controller, Control.setWakeFwd_occupied hw] at h
  | poll outcomes =>
    simp only [System.next, step, Control.controller, Control.poll] at h
    rcases retry_cases outcomes with hr | ⟨rv, hr⟩
    · simp [hr] at h
    · cases rv with
      | error e => simp [hr] at h
      | ok events =>
        obtain ⟨ctrl, hev, -⟩ := Control.pollEvents_refines hs.inv events
        simp [hr, hev] at h

theorem Owned.runs_safe (hs : s.Owned) (ops : List (Op F ρ)) : s.runs ops ≠ .panic :=
  run_ne_panic (fun _ _ _ hs h => Owned.next hs h) (fun _ op hs => hs.safe op) hs

/-- The priority and handler given to each `add` among the operations. -/
def added (ops : List (Op F ρ)) : List (Nat × F) :=
  ops.filterMap fun op => match op with
    | .add pri fwd _ => some (pri, fwd)
    | _ => none

/-- The sources record the arguments of their own `add`s. -/
def Recorded (ops : List (Op F ρ)) (s : System (Control S F ρ) F ρ) : Prop :=
  s.adds = (added ops).length ∧
    ∀ src ∈ s.sources, ∃ n, src.id = n + 1 ∧ (added ops)[n]? = some (src.pri, src.fwd)

theorem Recorded.next {ops : List (Op F ρ)} {op : Op F ρ} (hs : s.Owned) (hr : s.Recorded ops)
    (h : s.next op = .ret t) : t.Recorded (ops ++ [op]) := by
  obtain ⟨hadds, hsrcs⟩ := hr
  have hkeep : ∀ src ∈ s.sources, ∃ n, src.id = n + 1 ∧
      (added (ops ++ [op]))[n]? = some (src.pri, src.fwd) := by
    intro src hsrc
    obtain ⟨n, hid, hn⟩ := hsrcs src hsrc
    refine ⟨n, hid, ?_⟩
    rw [added, List.filterMap_append]
    exact List.getElem?_append_left (List.getElem?_eq_some_iff.mp hn).1 ▸ hn
  cases op with
  | add pri fwd register =>
    have hlen : added (ops ++ [.add pri fwd register]) = added ops ++ [(pri, fwd)] := by
      simp [added]
    rcases next_add h with ⟨e, -, rfl⟩ | ⟨-, rfl⟩
    · exact ⟨by simp [hlen, hadds], hkeep⟩
    · refine ⟨by simp [hlen, hadds], fun src hsrc => ?_⟩
      rcases List.mem_append.mp hsrc with hsrc | hsrc
      · exact hkeep src hsrc
      · cases List.mem_singleton.mp hsrc
        exact ⟨s.adds, rfl, by simp [hlen, hadds]⟩
  | drop id deregister =>
    have hlen : added (ops ++ [.drop id deregister]) = added ops := by simp [added]
    rcases next_drop (fun src => hs.occupied) h with ⟨-, rfl⟩ | ⟨src, errors, hsrc, rfl⟩
    · exact ⟨hlen ▸ hadds, hkeep⟩
    · exact ⟨hlen ▸ hadds, fun a ha => hkeep a (List.mem_filter.mp ha).1⟩
  | setWakeFwd fwd =>
    have hlen : added (ops ++ [.setWakeFwd fwd]) = added ops := by simp [added]
    obtain ⟨entry, hw, rfl⟩ := next_setWakeFwd h
    exact ⟨hlen ▸ hadds, hkeep⟩
  | poll outcomes =>
    have hlen : added (ops ++ [.poll outcomes]) = added ops := by simp [added]
    rcases next_poll h with ⟨e, -, rfl⟩ | ⟨events, ctrl, rv, calls, -, hev, rfl⟩
    · exact ⟨hlen ▸ hadds, hkeep⟩
    · exact ⟨hlen ▸ hadds, hkeep⟩

theorem Recorded.runs {c : Control S F ρ} {ops : List (Op F ρ)}
    (hc : Owned ({ ctrl := c } : System (Control S F ρ) F ρ))
    (h : ({ ctrl := c } : System (Control S F ρ) F ρ).runs ops = .ret s) : s.Recorded ops := by
  have hstart : Recorded [] ({ ctrl := c } : System (Control S F ρ) F ρ) :=
    ⟨rfl, fun src hsrc => by cases hsrc⟩
  exact (run_history (J := fun ops s => s.Owned ∧ s.Recorded ops) ⟨hc, hstart⟩
    (fun as u a v hu hv => ⟨hu.1.next hv, hu.2.next hu.1 hv⟩) h).2

/-- **Token ownership.** After any run, `WAKER_TOKEN` is occupied and the live
sources hold distinct other tokens, each occupied by what that source's own
`add` was given. So a drop returns what `deregister` returns and takes out its
own entry only, and the wake handler can always be set. -/
theorem token_ownership {nop wake : F} {wakerPri : Nat} {waker : List (Result Unit)}
    {c : Control S F ρ} (hnew : MioPoll.new nop wake wakerPri waker = .ret (.ok c))
    (ops : List (Op F ρ)) (s : System (Control S F ρ) F ρ)
    (hrun : ({ ctrl := c } : System (Control S F ρ) F ρ).runs ops = .ret s) :
    (Slab.get s.ctrl.tokenMap WAKER_TOKEN).isSome ∧
    (s.sources.map MioSource.token).Nodup ∧
    (∀ src ∈ s.sources, src.token ≠ WAKER_TOKEN ∧
      Slab.get s.ctrl.tokenMap src.token = some ⟨min src.pri MAX_PRI, src.fwd⟩ ∧
      ∃ n, src.id = n + 1 ∧ (added ops)[n]? = some (src.pri, src.fwd)) ∧
    (∀ src ∈ s.sources, ∀ deregister rv, retry deregister = .ret rv →
      s.ctrl.del src.token deregister = .ret (rv, s.ctrl.leave src.token) ∧
      ∀ k, Slab.get (s.ctrl.leave src.token).tokenMap k =
        if k = src.token then none else Slab.get s.ctrl.tokenMap k) ∧
    ∀ fwd, ∃ ctrl, s.ctrl.setWakeFwd fwd = .ret ctrl := by
  have hs := (Owned.start hnew).runs hrun
  have hr := Recorded.runs (Owned.start hnew) hrun
  refine ⟨hs.waker, hs.tokens, fun src hsrc =>
    ⟨hs.ne_waker src hsrc, hs.entry src hsrc, hr.2 src hsrc⟩, ?_, ?_⟩
  · intro src hsrc deregister rv hrv
    have hocc := hs.occupied hsrc
    refine ⟨?_, fun k => Slab.get_remove _ _ _ hocc⟩
    rw [Control.del_occupied hocc, hrv, Exec.ret_bind]
  · intro fwd
    obtain ⟨entry, hw⟩ := Option.isSome_iff_exists.mp hs.waker
    exact ⟨_, Control.setWakeFwd_occupied hw fwd⟩

/-- Three sources, of which the first is dropped before the third is added: the two left
have entries of their own, the third under the first one's token. -/
theorem token_ownership_sample :
    ∃ s, ({ ctrl := MioPoll.sample } : System _ Nat Nat).runs
        [.add 12 7 [.ok ()], .add 3 8 [.ok ()], .drop 1 [.ok ()], .add 6 9 [.ok ()]] = .ret s ∧
      s.sources = [⟨2, 2, 3, 8⟩, ⟨1, 3, 6, 9⟩] ∧ (s.sources.map MioSource.token).Nodup ∧
      Slab.get s.ctrl.tokenMap 2 = some ⟨3, 8⟩ ∧ Slab.get s.ctrl.tokenMap 1 = some ⟨6, 9⟩ ∧
      s.ctrl.del 2 [.error ⟨.other, none⟩] =
        .ret (.error ⟨.other, none⟩, s.ctrl.leave 2) ∧
      Slab.get (s.ctrl.leave 2).tokenMap 1 = Slab.get s.ctrl.tokenMap 1 := by
  obtain ⟨s, hs, hp⟩ := Exec.exists_ret_of
    (x := ({ ctrl := MioPoll.sample } : System _ Nat Nat).runs
      [.add 12 7 [.ok ()], .add 3 8 [.ok ()], .drop 1 [.ok ()], .add 6 9 [.ok ()]])
    (p := fun s => decide (s.sources = [⟨2, 2, 3, 8⟩, ⟨1, 3, 6, 9⟩])) (by decide +kernel)
  have hsources := of_decide_eq_true hp
  obtain ⟨-, htokens, hentries, hdel, -⟩ := token_ownership MioPoll.sample_new _ s hs
  have hsecond : (⟨2, 2, 3, 8⟩ : MioSource Nat) ∈ s.sources := by
    rw [hsources]
    decide
  have hthird : (⟨1, 3, 6, 9⟩ : MioSource Nat) ∈ s.sources := by
    rw [hsources]
    decide
  obtain ⟨-, hentry, -⟩ := hentries _ hsecond
  obtain ⟨-, hentry', -⟩ := hentries _ hthird
  obtain ⟨hgone, hothers⟩ := hdel _ hsecond [.error ⟨.other, none⟩] _ rfl
  exact ⟨s, hs, hsources, htokens, hentry, hentry', hgone, hothers 1⟩

/-! ## Failed registrations -/

/-- A failed `add` returns the error and leaves the controller as it was. -/
def Atomic (s : System (Control S F ρ) F ρ) : Op F ρ → Prop
  | .add pri fwd register => ∀ e, retry register = .ret (.error e) →
      s.ctrl.add register pri fwd = .ret (.error e, s.ctrl)
  | _ => True

/-- The occupied tokens are the waker's and those of the live sources. -/
def Clean (s : System (Control S F ρ) F ρ) : Prop :=
  ∀ k, (Slab.get s.ctrl.tokenMap k).isSome ↔
    k = WAKER_TOKEN ∨ ∃ src ∈ s.sources, src.token = k

/-- The operation is no `add` whose registration fails. -/
def Registers : Op F ρ → Prop
  | .add _ _ register => ∀ e, retry register ≠ .ret (.error e)
  | _ => True

/-- A failed `add` is never atomic: its entry stays under a token that was vacant. -/
theorem Atomic.registers {op : Op F ρ} (h : s.Atomic op) : Registers op := by
  cases op with
  | add pri fwd register =>
    intro e he
    have hadd := h e he
    rw [Control.add_eq, he, Exec.ret_bind] at hadd
    have hctrl : s.ctrl.enter pri fwd = s.ctrl := by
      injection hadd with hadd
      exact (Prod.mk.inj hadd).2
    have hself := Slab.get_insert_self s.ctrl.tokenMap (⟨min pri MAX_PRI, fwd⟩ : Entry F)
    have hvac := Slab.insert_vacant s.ctrl.tokenMap (⟨min pri MAX_PRI, fwd⟩ : Entry F)
    have hmap : (Slab.insert s.ctrl.tokenMap (⟨min pri MAX_PRI, fwd⟩ : Entry F)).2 =
        s.ctrl.tokenMap := congrArg Control.tokenMap hctrl
    rw [hmap, hvac] at hself
    cases hself
  | _ => trivial

theorem Clean.register (hc : s.Clean) (pri : Nat) (fwd : F) :
    Clean { s with
      ctrl := s.ctrl.enter pri fwd
      adds := s.adds + 1
      sources := s.sources ++ [⟨s.ctrl.nextToken pri fwd, s.adds + 1, pri, fwd⟩] } := by
  intro k
  have hget : Slab.get (s.ctrl.enter pri fwd).tokenMap k =
      if k = s.ctrl.nextToken pri fwd then some ⟨min pri MAX_PRI, fwd⟩
      else Slab.get s.ctrl.tokenMap k := Slab.get_insert _ _ _
  change (Slab.get (s.ctrl.enter pri fwd).tokenMap k).isSome ↔ _
  rw [hget]
  by_cases hk : k = s.ctrl.nextToken pri fwd
  · simp [hk]
  · rw [if_neg hk, hc k]
    simp [Ne.symm hk]

theorem Clean.leave (hs : s.Owned) (hc : s.Clean) {id : Nat} {src : MioSource F}
    (hsrc : s.source id = some src) (errors : List Error) :
    Clean { s with
      ctrl := { s.ctrl.leave src.token with errors := errors }
      sources := s.sources.filter fun src => src.id != id } := by
  obtain ⟨hmem, hid⟩ := source_mem hsrc
  intro k
  change (Slab.get (Slab.remove s.ctrl.tokenMap src.token) k).isSome ↔ _
  rw [Slab.get_remove _ _ _ (hs.occupied hmem)]
  have hkept : ∀ a, a ∈ (s.sources.filter fun src => src.id != id) ↔
      a ∈ s.sources ∧ a.token ≠ src.token := by
    intro a
    rw [List.mem_filter, bne_iff_ne]
    refine and_congr_right fun ha => not_congr ⟨fun h => ?_, fun h => ?_⟩
    · rw [hs.eq_of_id ha hmem (h.trans hid.symm)]
    · rw [hs.eq_of_token ha hmem h, hid]
  by_cases hk : k = src.token
  · subst hk
    simp only [if_true, Option.isSome_none, Bool.false_eq_true, false_iff, not_or]
    refine ⟨hs.ne_waker src hmem, ?_⟩
    rintro ⟨a, ha, hak⟩
    exact ((hkept a).mp ha).2 hak
  · rw [if_neg hk, hc k]
    refine or_congr_right ⟨?_, ?_⟩
    · rintro ⟨a, ha, rfl⟩
      exact ⟨a, (hkept a).mpr ⟨ha, hk⟩, rfl⟩
    · rintro ⟨a, ha, rfl⟩
      exact ⟨a, ((hkept a).mp ha).1, rfl⟩

/-- Only a failed registration leaves an entry behind. -/
theorem Clean.next {op : Op F ρ} (hs : s.Owned) (hc : s.Clean) (hop : Registers op)
    (h : s.next op = .ret t) : t.Clean := by
  cases op with
  | add pri fwd register =>
    rcases next_add h with ⟨e, he, -⟩ | ⟨-, rfl⟩
    · exact absurd he (hop e)
    · exact hc.register pri fwd
  | drop id deregister =>
    rcases next_drop (fun src => hs.occupied) h with ⟨-, rfl⟩ | ⟨src, errors, hsrc, rfl⟩
    · exact hc
    · exact hc.leave hs hsrc errors
  | setWakeFwd fwd =>
    obtain ⟨entry, hw, rfl⟩ := next_setWakeFwd h
    intro k
    change (Slab.get (Slab.set s.ctrl.tokenMap _ _) k).isSome ↔ _
    rw [← hc k, Slab.get_set _ _ _ _ hs.waker]
    by_cases hk : k = WAKER_TOKEN
    · simp [hk, hw]
    · rw [if_neg hk]
  | poll outcomes =>
    rcases next_poll h with ⟨e, -, rfl⟩ | ⟨events, ctrl, rv, calls, -, hev, rfl⟩
    · exact hc
    · obtain ⟨ctrl', hev', -, -, hframe⟩ := Control.pollEvents_refines hs.inv events
      rw [hev] at hev'
      cases hev'
      have hmap : ctrl.tokenMap = s.ctrl.tokenMap := by rw [hframe]
      intro k
      change (Slab.get ctrl.tokenMap k).isSome ↔ _
      rw [hmap]
      exact hc k

theorem Clean.start {nop wake : F} {wakerPri : Nat} {waker : List (Result Unit)}
    {c : Control S F ρ} (h : MioPoll.new nop wake wakerPri waker = .ret (.ok c)) :
    Clean ({ ctrl := c } : System (Control S F ρ) F ρ) := by
  intro k
  change (Slab.get c.tokenMap k).isSome ↔ _
  rw [MioPoll.new_get h]
  by_cases hk : k = WAKER_TOKEN <;> simp [hk]

/-- **Failed registrations.** The failed `add`s of a run are atomic and its states
are all clean exactly if no registration fails: a failed one leaves its entry,
its priority bit and the raised maximum behind. -/
theorem add_atomic_iff {nop wake : F} {wakerPri : Nat} {waker : List (Result Unit)}
    {c : Control S F ρ} (hnew : MioPoll.new nop wake wakerPri waker = .ret (.ok c))
    (ops : List (Op F ρ)) (s : System (Control S F ρ) F ρ)
    (hrun : ({ ctrl := c } : System (Control S F ρ) F ρ).runs ops = .ret s) :
    (Meets System.next (fun u op => u.Clean ∧ u.Atomic op) { ctrl := c } ops ∧ s.Clean) ↔
      ∀ op ∈ ops, Registers op := by
  constructor
  · rintro ⟨hmeets, -⟩
    exact hmeets.all (fun u op h => h.2.registers) hrun
  · intro hreg
    have hstart := And.intro (Owned.start hnew) (Clean.start hnew)
    have hstep : ∀ (u : System (Control S F ρ) F ρ) (op : Op F ρ) v, u.Owned ∧ u.Clean →
        Registers op → u.next op = .ret v → v.Owned ∧ v.Clean :=
      fun u op v hu hop h => ⟨Owned.next hu.1 h, Clean.next hu.1 hu.2 hop h⟩
    have hmeets : Meets System.next (fun u op => (u.Clean ∧ u.Atomic op) ∧ Registers op)
        { ctrl := c } ops := by
      refine Meets.of_invariant hstep (fun u op hu hop => ⟨⟨hu.2, ?_⟩, hop⟩) hreg hstart
      cases op with
      | add pri fwd register => exact fun e he => absurd he (hop e)
      | _ => trivial
    exact ⟨hmeets.mono fun u op h => h.1,
      (hmeets.invariant (fun u op v hu h hv => hstep u op v hu h.2 hv) hstart hrun).2⟩

/-- The condition holds of a run with a retried registration. -/
theorem add_atomic_iff_sample :
    ∃ s, ({ ctrl := MioPoll.sample } : System _ Nat Nat).runs
        [.add 7 3 [.error ⟨.interrupted, none⟩, .ok ()]] = .ret s ∧ s.Clean := by
  obtain ⟨s, hs⟩ := Exec.exists_ret (x := ({ ctrl := MioPoll.sample } : System _ Nat Nat).runs
    [.add 7 3 [.error ⟨.interrupted, none⟩, .ok ()]]) rfl
  refine ⟨s, hs, ((add_atomic_iff MioPoll.sample_new _ s hs).mpr ?_).2⟩
  intro op hop
  cases List.mem_singleton.mp hop
  intro e he
  cases he

/-- One failed registration: token 1 stays occupied with no source alive, and the
maximum stays raised from 5 to 7. -/
theorem add_not_atomic :
    ∃ s, ({ ctrl := MioPoll.sample } : System _ Nat Nat).runs
        [.add 7 3 [.error ⟨.interrupted, none⟩, .error ⟨.other, none⟩]] = .ret s ∧
      s.sources = [] ∧ Slab.get s.ctrl.tokenMap 1 = some ⟨7, 3⟩ ∧
      MioPoll.sample.maxPri = 5 ∧ s.ctrl.maxPri = 7 ∧ ¬ s.Clean ∧
      ¬ Atomic { ctrl := MioPoll.sample }
        (.add 7 3 [.error ⟨.interrupted, none⟩, .error ⟨.other, none⟩]) := by
  refine ⟨_, rfl, rfl, rfl, rfl, rfl, fun hc => ?_, fun ha => ?_⟩
  · rcases (hc 1).mp rfl with h | ⟨src, hsrc, -⟩
    · cases h
    · cases hsrc
  · exact ha.registers ⟨.other, none⟩ rfl

end System
end StakkerMio
