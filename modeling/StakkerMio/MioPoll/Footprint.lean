import StakkerMio.MioPoll.Ownership

/-! # What a run leaves in the controller

The token map, the maximum and the bitmap are a summary of the run: which sources are
alive, how many registrations failed, and which priorities were ever asked for. Tokens
of failed registrations are never free again. -/
namespace StakkerMio
open Lib

variable {S F ρ : Type} [Slab S (Entry F)]

namespace System
variable {s t : System (Control S F ρ) F ρ} {wakerPri : Nat} {ops more : List (Op F ρ)}
  {leaked : List Nat}

/-- Whether the operation is an `add` whose registration fails. -/
def failedAdd : Op F ρ → Bool
  | .add _ _ register => (retry register).returns fun rv => !rv.isOk
  | _ => false

/-- The priorities asked for: the waker's, and that of each `add`. -/
def asked (wakerPri : Nat) (ops : List (Op F ρ)) : List Nat :=
  min wakerPri MAX_PRI :: (added ops).map fun a => min a.1 MAX_PRI

omit [Slab S (Entry F)] in
theorem asked_concat (op : Op F ρ) : asked wakerPri (ops ++ [op]) =
    asked wakerPri ops ++ (added [op]).map fun a => min a.1 MAX_PRI := by
  simp [asked, added]

/-- `leaked` are the tokens of the failed registrations, oldest first. -/
structure Footprint (wakerPri : Nat) (ops : List (Op F ρ)) (leaked : List Nat)
    (s : System (Control S F ρ) F ρ) : Prop where
  occupied : ∀ k, (Slab.get s.ctrl.tokenMap k).isSome ↔
    k = WAKER_TOKEN ∨ (∃ src ∈ s.sources, src.token = k) ∨ k ∈ leaked
  distinct : (WAKER_TOKEN :: (s.sources.map MioSource.token ++ leaked)).Nodup
  count : leaked.length = ops.countP failedAdd
  maxPri_mem : s.ctrl.maxPri ∈ asked wakerPri ops
  le_maxPri : ∀ p ∈ asked wakerPri ops, p ≤ s.ctrl.maxPri
  inUse : ∀ p, p ≤ MAX_PRI → (inUse s.ctrl.priorities p = true ↔ p ∈ asked wakerPri ops)

theorem Footprint.nodup (h : s.Footprint wakerPri ops leaked) : leaked.Nodup :=
  (List.nodup_append.mp (List.nodup_cons.mp h.distinct).2).2.1

theorem Footprint.apart (h : s.Footprint wakerPri ops leaked) :
    ∀ k ∈ leaked, k ≠ WAKER_TOKEN ∧ ∀ src ∈ s.sources, src.token ≠ k := by
  obtain ⟨hwaker, htokens⟩ := List.nodup_cons.mp h.distinct
  intro k hk
  refine ⟨?_, fun src hsrc => ?_⟩
  · rintro rfl
    exact hwaker (List.mem_append_right _ hk)
  · exact (List.nodup_append.mp htokens).2.2 _ (List.mem_map_of_mem hsrc) k hk

/-- The sources' tokens are distinct as it is; others must only keep apart from them. -/
theorem Owned.distinct (hs : s.Owned) (hnodup : leaked.Nodup)
    (hapart : ∀ k ∈ leaked, k ≠ WAKER_TOKEN ∧ ∀ src ∈ s.sources, src.token ≠ k) :
    (WAKER_TOKEN :: (s.sources.map MioSource.token ++ leaked)).Nodup := by
  refine List.nodup_cons.mpr ⟨fun hw => ?_, List.nodup_append.mpr ⟨hs.tokens, hnodup, ?_⟩⟩
  · rcases List.mem_append.mp hw with hw | hw
    · obtain ⟨src, hsrc, htoken⟩ := List.mem_map.mp hw
      exact hs.ne_waker src hsrc htoken
    · exact (hapart _ hw).1 rfl
  · intro a ha k hk
    obtain ⟨src, hsrc, rfl⟩ := List.mem_map.mp ha
    exact (hapart k hk).2 src hsrc

/-- An operation that asks for no priority and fails no registration. -/
theorem Footprint.quiet (h : s.Footprint wakerPri ops leaked) (ht : t.Owned) {op : Op F ρ}
    (hadded : added [op] = []) (hfailed : failedAdd op = false)
    (hmax : t.ctrl.maxPri = s.ctrl.maxPri) (hbits : t.ctrl.priorities = s.ctrl.priorities)
    (hsrc : ∀ src ∈ t.sources, src ∈ s.sources)
    (hocc : ∀ k, (Slab.get t.ctrl.tokenMap k).isSome ↔
      k = WAKER_TOKEN ∨ (∃ src ∈ t.sources, src.token = k) ∨ k ∈ leaked) :
    t.Footprint wakerPri (ops ++ [op]) leaked := by
  have hasked : asked wakerPri (ops ++ [op]) = asked wakerPri ops := by
    rw [asked_concat, hadded]
    simp
  refine ⟨hocc, ht.distinct h.nodup fun k hk => ⟨(h.apart k hk).1,
    fun src hm => (h.apart k hk).2 src (hsrc src hm)⟩, ?_, ?_, ?_, ?_⟩
  · rw [h.count, List.countP_append, List.countP_singleton, hfailed]
    rfl
  · rw [hmax, hasked]
    exact h.maxPri_mem
  · rw [hmax, hasked]
    exact h.le_maxPri
  · rw [hbits, hasked]
    exact h.inUse

/-- The entry of an `add`, whether or not its registration succeeds. -/
theorem Footprint.enter (h : s.Footprint wakerPri ops leaked) (ht : t.Owned) {pri : Nat} {fwd : F}
    {register : List (Result Unit)} (hctrl : t.ctrl = s.ctrl.enter pri fwd) {leaked' : List Nat}
    (hcount : leaked'.length = (ops ++ [Op.add pri fwd register]).countP failedAdd)
    (hnodup : leaked'.Nodup)
    (hmem : ∀ k, ((∃ src ∈ t.sources, src.token = k) ∨ k ∈ leaked') ↔
      ((∃ src ∈ s.sources, src.token = k) ∨ k ∈ leaked) ∨ k = s.ctrl.nextToken pri fwd)
    (hapart : ∀ k ∈ leaked', k ≠ WAKER_TOKEN ∧ ∀ src ∈ t.sources, src.token ≠ k) :
    t.Footprint wakerPri (ops ++ [.add pri fwd register]) leaked' := by
  have hasked : asked wakerPri (ops ++ [.add pri fwd register]) =
      asked wakerPri ops ++ [min pri MAX_PRI] := by
    rw [asked_concat]
    rfl
  have hmax : t.ctrl.maxPri = max s.ctrl.maxPri (min pri MAX_PRI) := by
    rw [hctrl]
    rfl
  refine ⟨fun k => ?_, ht.distinct hnodup hapart, hcount, ?_, fun p hp => ?_, fun p hp => ?_⟩
  · rw [hmem, hctrl, ← or_assoc, ← h.occupied, Control.enter, Slab.get_insert]
    by_cases hk : k = s.ctrl.nextToken pri fwd
    · have hnext : k = (Slab.insert s.ctrl.tokenMap (⟨min pri MAX_PRI, fwd⟩ : Entry F)).1 := hk
      rw [if_pos hnext]
      simp [hk]
    · have hnext : ¬ k = (Slab.insert s.ctrl.tokenMap (⟨min pri MAX_PRI, fwd⟩ : Entry F)).1 := hk
      rw [if_neg hnext]
      simp [hk]
  · rw [hmax, hasked]
    rcases max_choice s.ctrl.maxPri (min pri MAX_PRI) with hm | hm
    · rw [hm]
      exact List.mem_append_left _ h.maxPri_mem
    · rw [hm]
      exact List.mem_append_right _ (List.mem_singleton_self _)
  · rw [hmax]
    rw [hasked] at hp
    rcases List.mem_append.mp hp with hp | hp
    · exact le_trans (h.le_maxPri p hp) (le_max_left _ _)
    · rw [List.mem_singleton.mp hp]
      exact le_max_right _ _
  · have hlt : p < 16 := by
      unfold MAX_PRI at hp
      omega
    rw [hctrl, Control.enter, inUse_or _ _ hlt, hasked, Bool.or_eq_true, h.inUse p hp,
      decide_eq_true_eq, List.mem_append, List.mem_singleton]

/-- A token that is given out was not leaked before. -/
theorem Footprint.nextToken_fresh (h : s.Footprint wakerPri ops leaked) (pri : Nat) (fwd : F) :
    s.ctrl.nextToken pri fwd ∉ leaked := by
  intro hm
  have hvacant : (Slab.get s.ctrl.tokenMap (s.ctrl.nextToken pri fwd)).isSome = false := by
    rw [Control.nextToken, Slab.insert_vacant]
    rfl
  rw [(h.occupied _).mpr (.inr (.inr hm))] at hvacant
  cases hvacant

/-- The registration fails: the token is leaked. -/
theorem Footprint.leak (h : s.Footprint wakerPri ops leaked) (hs : s.Owned) {pri : Nat} {fwd : F}
    {register : List (Result Unit)} {e : Error} (hr : retry register = .ret (.error e)) :
    Footprint wakerPri (ops ++ [.add pri fwd register]) (leaked ++ [s.ctrl.nextToken pri fwd])
      { s with ctrl := s.ctrl.enter pri fwd, adds := s.adds + 1 } := by
  obtain ⟨hne, hfresh⟩ := hs.nextToken_fresh pri fwd
  have hnew := h.nextToken_fresh pri fwd
  have hfailed : failedAdd (.add pri fwd register : Op F ρ) = true := by
    rw [failedAdd, hr]
    rfl
  refine h.enter (hs.enter pri fwd) rfl ?_ ?_ (fun k => ?_) fun k hk => ?_
  · rw [List.countP_append, List.countP_singleton, if_pos hfailed, List.length_append, h.count]
    rfl
  · exact h.nodup.append (List.nodup_singleton _) (by simpa using hnew)
  · rw [List.mem_append, List.mem_singleton, ← or_assoc]
  · rcases List.mem_append.mp hk with hk | hk
    · exact h.apart k hk
    · rw [List.mem_singleton.mp hk]
      exact ⟨hne, hfresh⟩

/-- The registration succeeds: the token is that of a source. -/
theorem Footprint.register (h : s.Footprint wakerPri ops leaked) (hs : s.Owned) {pri : Nat}
    {fwd : F} {register : List (Result Unit)} (hr : retry register = .ret (.ok ())) :
    Footprint wakerPri (ops ++ [.add pri fwd register]) leaked
      { s with
        ctrl := s.ctrl.enter pri fwd
        adds := s.adds + 1
        sources := s.sources ++ [⟨s.ctrl.nextToken pri fwd, s.adds + 1, pri, fwd⟩] } := by
  have hnew := h.nextToken_fresh pri fwd
  have hok : failedAdd (.add pri fwd register : Op F ρ) = false := by
    rw [failedAdd, hr]
    rfl
  refine h.enter (hs.register pri fwd) rfl ?_ h.nodup (fun k => ?_)
    fun k hk => ⟨(h.apart k hk).1, ?_⟩
  · rw [List.countP_append, List.countP_singleton, hok, h.count]
    rfl
  · simp only [List.mem_append, List.mem_singleton, or_and_right, exists_or, exists_eq_left]
    rw [or_right_comm, @eq_comm _ k]
  · intro src' hm
    rcases List.mem_append.mp hm with hm | hm
    · exact (h.apart k hk).2 src' hm
    · rw [List.mem_singleton.mp hm]
      rintro rfl
      exact hnew hk

/-- A source goes, and its token with it. -/
theorem Footprint.leave (h : s.Footprint wakerPri ops leaked) (hs : s.Owned) {id : Nat}
    {deregister : List (Result Unit)} {src : MioSource F} (hsrc : s.source id = some src)
    (errors : List Error) :
    Footprint wakerPri (ops ++ [.drop id deregister]) leaked
      { s with
        ctrl := { s.ctrl.leave src.token with errors := errors }
        sources := s.sources.filter fun src => src.id != id } := by
  obtain ⟨hmem, hid⟩ := source_mem hsrc
  refine h.quiet (hs.leave hsrc errors) rfl rfl rfl rfl (fun _ hm => (List.mem_filter.mp hm).1)
    fun k => ?_
  change (Slab.get (Slab.remove s.ctrl.tokenMap src.token) k).isSome ↔ _
  rw [Slab.get_remove _ _ _ (hs.occupied hmem)]
  split
  · rename_i hk
    subst hk
    have hgone : ¬ ∃ a ∈ s.sources.filter fun src => src.id != id, a.token = src.token := by
      rintro ⟨a, ha, htok⟩
      obtain ⟨ha, hne⟩ := List.mem_filter.mp ha
      rw [hs.eq_of_token ha hmem htok, hid] at hne
      simp at hne
    simp only [Option.isSome_none, Bool.false_eq_true, false_iff, not_or]
    exact ⟨hs.ne_waker src hmem, hgone, fun hm => (h.apart _ hm).2 src hmem rfl⟩
  · rename_i hk
    rw [h.occupied]
    refine or_congr_right (or_congr_left ⟨?_, ?_⟩)
    · rintro ⟨a, ha, rfl⟩
      refine ⟨a, List.mem_filter.mpr ⟨ha, ?_⟩, rfl⟩
      rw [bne_iff_ne]
      intro heq
      exact hk (congrArg MioSource.token (hs.eq_of_id ha hmem (heq.trans hid.symm)))
    · rintro ⟨a, ha, rfl⟩
      exact ⟨a, (List.mem_filter.mp ha).1, rfl⟩

/-- A step frees no leaked token, and leaks at most the one it was given. -/
theorem Footprint.next (h : s.Footprint wakerPri ops leaked) (hs : s.Owned) {op : Op F ρ}
    (ht : s.next op = .ret t) :
    ∃ leaked', t.Footprint wakerPri (ops ++ [op]) (leaked ++ leaked') := by
  have howned := hs.next ht
  have hnone : t.Footprint wakerPri (ops ++ [op]) leaked →
      ∃ leaked', t.Footprint wakerPri (ops ++ [op]) (leaked ++ leaked') := by
    intro hfoot
    refine ⟨[], ?_⟩
    rwa [List.append_nil]
  cases op with
  | add pri fwd register =>
    rcases next_add ht with ⟨e, hr, rfl⟩ | ⟨hr, rfl⟩
    · exact ⟨_, h.leak hs hr⟩
    · exact hnone (h.register hs hr)
  | drop id deregister =>
    rcases next_drop (fun src => hs.occupied) ht with ⟨-, rfl⟩ | ⟨src, errors, hsrc, rfl⟩
    · exact hnone (h.quiet howned rfl rfl rfl rfl (fun _ hm => hm) h.occupied)
    · exact hnone (h.leave hs hsrc _)
  | setWakeFwd fwd =>
    obtain ⟨entry, hw, rfl⟩ := next_setWakeFwd ht
    refine hnone (h.quiet howned rfl rfl rfl rfl (fun _ hm => hm) fun k => ?_)
    rw [← h.occupied]
    change (Slab.get (Slab.set s.ctrl.tokenMap WAKER_TOKEN _) k).isSome ↔ _
    rw [Slab.get_set _ _ _ _ hs.waker]
    split
    · rename_i hk
      rw [hk, hw]
      rfl
    · rfl
  | poll outcomes =>
    rcases next_poll ht with ⟨e, -, rfl⟩ | ⟨events, ctrl, rv, calls, -, hev, rfl⟩
    · exact hnone (h.quiet howned rfl rfl rfl rfl (fun _ hm => hm) h.occupied)
    · obtain ⟨ctrl', hev', -, -, hframe⟩ := Control.pollEvents_refines hs.inv events
      rw [hev] at hev'
      cases hev'
      refine hnone (h.quiet howned rfl rfl (by rw [hframe]) (by rw [hframe]) (fun _ hm => hm)
        fun k => ?_)
      rw [hframe]
      exact h.occupied k

theorem Footprint.start {nop wake : F} {waker : List (Result Unit)} {c : Control S F ρ}
    (hnew : MioPoll.new nop wake wakerPri waker = .ret (.ok c)) :
    Footprint wakerPri [] [] ({ ctrl := c } : System (Control S F ρ) F ρ) where
  occupied k := by
    rw [MioPoll.new_get hnew]
    by_cases hk : k = WAKER_TOKEN <;> simp [hk]
  distinct := List.nodup_singleton _
  count := rfl
  maxPri_mem := by
    rw [MioPoll.new_returns hnew]
    exact List.mem_cons_self
  le_maxPri p hp := by
    rw [MioPoll.new_returns hnew]
    exact (List.mem_singleton.mp hp).le
  inUse p hp := by
    have hlt : p < 16 := by
      unfold MAX_PRI at hp
      omega
    rw [MioPoll.new_returns hnew, inUse_eq _ hlt, bit_getLsbD hlt, decide_eq_true_eq]
    exact List.mem_singleton.symm

theorem Footprint.runs (h : s.Footprint wakerPri ops leaked) (hs : s.Owned)
    (ht : s.runs more = .ret t) :
    ∃ leaked', t.Footprint wakerPri (ops ++ more) (leaked ++ leaked') := by
  have hall := run_history (J := fun more t => t.Owned ∧ ∃ leaked',
      t.Footprint wakerPri (ops ++ more) (leaked ++ leaked'))
    ⟨hs, [], by simpa using h⟩ (fun more u op v hu hv => ?_) ht
  · exact hall.2
  · obtain ⟨hu, leaked', hfoot⟩ := hu
    obtain ⟨leaked'', hfoot⟩ := hfoot.next hu hv
    refine ⟨hu.next hv, leaked' ++ leaked'', ?_⟩
    rwa [← List.append_assoc, ← List.append_assoc]

theorem Footprint.of_runs {nop wake : F} {waker : List (Result Unit)} {c : Control S F ρ}
    (hnew : MioPoll.new nop wake wakerPri waker = .ret (.ok c))
    (hrun : ({ ctrl := c } : System (Control S F ρ) F ρ).runs ops = .ret s) :
    ∃ leaked, s.Footprint wakerPri ops leaked :=
  let ⟨leaked, hfoot⟩ := (Footprint.start hnew).runs (Owned.start hnew) hrun
  ⟨leaked, hfoot⟩

/-- **What a run leaves behind.** After any run the occupied tokens are the waker's, those
of the live sources and one for each registration that failed, all distinct; the maximum
and the bitmap are those of all priorities ever asked for, also by `add`s that failed and
by sources long dropped. However the run goes on, the leaked tokens stay occupied. -/
theorem footprint {nop wake : F} {waker : List (Result Unit)} {c : Control S F ρ}
    (hnew : MioPoll.new nop wake wakerPri waker = .ret (.ok c)) (ops : List (Op F ρ))
    (s : System (Control S F ρ) F ρ)
    (hrun : ({ ctrl := c } : System (Control S F ρ) F ρ).runs ops = .ret s) :
    ∃ leaked, s.Footprint wakerPri ops leaked ∧ ∀ more t, s.runs more = .ret t →
      ∃ leaked', t.Footprint wakerPri (ops ++ more) (leaked ++ leaked') := by
  obtain ⟨leaked, hfoot⟩ := Footprint.of_runs hnew hrun
  exact ⟨leaked, hfoot, fun more t ht => hfoot.runs ((Owned.start hnew).runs hrun) ht⟩

/-- A registration fails and two succeed, and one of the two sources is dropped again: the
other keeps its token, apart from the leaked one, and the maximum is that of the failed
`add`. -/
theorem footprint_sample : ∃ s, ∃ leaked : List Nat,
    ({ ctrl := MioPoll.sample } : System _ Nat Nat).runs
      [.add 7 3 [.error ⟨.other, none⟩], .add 6 8 [.ok ()], .add 4 9 [.ok ()],
        .drop 2 [.ok ()]] = .ret s ∧
    s.sources = [⟨3, 3, 4, 9⟩] ∧ leaked.length = 1 ∧ (WAKER_TOKEN :: ([3] ++ leaked)).Nodup ∧
    (∀ k, (Slab.get s.ctrl.tokenMap k).isSome ↔ k = WAKER_TOKEN ∨ k = 3 ∨ k ∈ leaked) ∧
    s.ctrl.maxPri = 7 ∧ (inUse s.ctrl.priorities 6 = true ↔ 6 ∈ [5, 7, 6, 4]) := by
  obtain ⟨s, hs, hp⟩ := Exec.exists_ret_of
    (x := ({ ctrl := MioPoll.sample } : System _ Nat Nat).runs
      [.add 7 3 [.error ⟨.other, none⟩], .add 6 8 [.ok ()], .add 4 9 [.ok ()], .drop 2 [.ok ()]])
    (p := fun s => decide (s.sources = [⟨3, 3, 4, 9⟩] ∧ s.ctrl.maxPri = 7)) (by decide +kernel)
  obtain ⟨hsources, hmax⟩ := of_decide_eq_true hp
  obtain ⟨leaked, hfoot, -⟩ := footprint MioPoll.sample_new _ s hs
  have hdistinct := hfoot.distinct
  rw [hsources] at hdistinct
  refine ⟨s, leaked, hs, hsources, hfoot.count, hdistinct, fun k => ?_, hmax,
    hfoot.inUse 6 (by decide)⟩
  rw [hfoot.occupied, hsources]
  simp [eq_comm]

end System
end StakkerMio
