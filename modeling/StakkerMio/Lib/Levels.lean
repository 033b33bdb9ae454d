import Mathlib.Algebra.BigOperators.Group.Finset.Basic
import Mathlib.Algebra.Order.BigOperators.Group.Finset
import Mathlib.Order.Interval.Finset.Nat
import Mathlib.Tactic.Common

/-! # Priority levels of FIFO lists

Items wait in one FIFO list per level. `file` appends each new item to the list
of its level; `serve` empties the lists from the highest level down, passing on
the items that are still live, and stops after the first level that passed one
on. -/
namespace Lib

abbrev Levels (α : Type) := Nat → List α

namespace Levels
variable {ε α β : Type}

def push (ls : Levels α) (i : Nat) (a : α) : Levels α :=
  Function.update ls i (ls i ++ [a])

def clear (ls : Levels α) (i : Nat) : Levels α := Function.update ls i []

/-- The items among `es` that belong to level `i`, in order. -/
def arrivals (place : ε → Option (Nat × α)) (i : Nat) (es : List ε) : List α :=
  es.filterMap fun e => (place e).bind fun p => if p.1 = i then some p.2 else none

def file (place : ε → Option (Nat × α)) (ls : Levels α) : List ε → Levels α
  | [] => ls
  | e :: es => file place (match place e with
      | none => ls
      | some p => ls.push p.1 p.2) es

/-- Levels `n - 1` down to `0`. -/
def serve (live : α → Option β) : Nat → Levels α → List β × Levels α
  | 0, ls => ([], ls)
  | n + 1, ls => match (ls n).filterMap live with
    | [] => serve live n (ls.clear n)
    | out => (out, ls.clear n)

/-- Some list below level `n` still holds an item. -/
def pending (n : Nat) (ls : Levels α) : Bool := (List.range n).any fun i => !(ls i).isEmpty

def total (n : Nat) (ls : Levels α) : Nat := ∑ i ∈ Finset.range n, (ls i).length

@[simp] theorem push_self (ls : Levels α) (i : Nat) (a : α) : ls.push i a i = ls i ++ [a] := by
  simp [push]

theorem push_ne (ls : Levels α) {i j : Nat} (a : α) (h : j ≠ i) : ls.push i a j = ls j := by
  simp [push, h]

@[simp] theorem clear_self (ls : Levels α) (i : Nat) : ls.clear i i = [] := by
  simp [clear]

theorem clear_ne (ls : Levels α) {i j : Nat} (h : j ≠ i) : ls.clear i j = ls j := by
  simp [clear, h]

theorem clear_of_nil {ls : Levels α} {i : Nat} (h : ls i = []) : ls.clear i = ls := by
  rw [clear, ← h, Function.update_eq_self]

@[simp] theorem arrivals_nil (place : ε → Option (Nat × α)) (i : Nat) :
    arrivals place i [] = [] := rfl

theorem arrivals_cons_none {place : ε → Option (Nat × α)} {e : ε} (h : place e = none)
    (i : Nat) (es : List ε) : arrivals place i (e :: es) = arrivals place i es := by
  simp [arrivals, h]

theorem arrivals_cons_self {place : ε → Option (Nat × α)} {e : ε} {i : Nat} {a : α}
    (h : place e = some (i, a)) (es : List ε) :
    arrivals place i (e :: es) = a :: arrivals place i es := by
  simp [arrivals, h]

theorem arrivals_cons_ne {place : ε → Option (Nat × α)} {e : ε} {i j : Nat} {a : α}
    (h : place e = some (j, a)) (hij : j ≠ i) (es : List ε) :
    arrivals place i (e :: es) = arrivals place i es := by
  simp [arrivals, h, hij]

/-- Filing appends to each list what arrived at its level. -/
theorem file_apply (place : ε → Option (Nat × α)) (ls : Levels α) (es : List ε) (i : Nat) :
    file place ls es i = ls i ++ arrivals place i es := by
  induction es generalizing ls with
  | nil => simp [file]
  | cons e es ih =>
    rw [file, ih]
    cases h : place e with
    | none => rw [arrivals_cons_none h]
    | some p =>
      obtain ⟨j, a⟩ := p
      change ls.push j a i ++ arrivals place i es = _
      by_cases hij : i = j
      · subst hij
        rw [arrivals_cons_self h, push_self, List.append_assoc]
        rfl
      · rw [arrivals_cons_ne h (Ne.symm hij), push_ne ls a hij]

theorem mem_arrivals {place : ε → Option (Nat × α)} {i : Nat} {es : List ε} {a : α} :
    a ∈ arrivals place i es ↔ ∃ e ∈ es, place e = some (i, a) := by
  simp only [arrivals, List.mem_filterMap, Option.bind_eq_some_iff]
  constructor
  · rintro ⟨e, he, ⟨j, b⟩, hp, hb⟩
    by_cases hji : j = i
    · rw [if_pos hji] at hb
      cases hb
      exact ⟨e, he, hji ▸ hp⟩
    · rw [if_neg hji] at hb
      cases hb
  · rintro ⟨e, he, hp⟩
    exact ⟨e, he, (i, a), hp, by simp⟩

section Serve
variable {live : α → Option β}

theorem serve_succ_nil {n : Nat} {ls : Levels α} (h : (ls n).filterMap live = []) :
    serve live (n + 1) ls = serve live n (ls.clear n) := by
  rw [serve, h]

theorem serve_succ_cons {n : Nat} {ls : Levels α} (h : (ls n).filterMap live ≠ []) :
    serve live (n + 1) ls = ((ls n).filterMap live, ls.clear n) := by
  rw [serve]
  split
  · contradiction
  · rfl

/-- Level `n` and those above it are out of reach. -/
theorem serve_ge {n i : Nat} {ls : Levels α} (h : n ≤ i) : (serve live n ls).2 i = ls i := by
  induction n generalizing ls with
  | zero => rfl
  | succ n ih =>
    have hne : i ≠ n := by omega
    by_cases hl : (ls n).filterMap live = []
    · rw [serve_succ_nil hl, ih (by omega), clear_ne ls hne]
    · rw [serve_succ_cons hl]
      exact clear_ne ls hne

/-- Serving leaves each list as it is or empties it. -/
theorem serve_or (n i : Nat) (ls : Levels α) :
    (serve live n ls).2 i = ls i ∨ (serve live n ls).2 i = [] := by
  induction n generalizing ls with
  | zero => exact .inl rfl
  | succ n ih =>
    have hclear : (ls.clear n) i = ls i ∨ (ls.clear n) i = [] := by
      by_cases hi : i = n
      · exact .inr (hi ▸ clear_self ls n)
      · exact .inl (clear_ne ls hi)
    by_cases hl : (ls n).filterMap live = []
    · rw [serve_succ_nil hl]
      rcases ih (ls.clear n) with h | h
      · rwa [h]
      · exact .inr h
    · rw [serve_succ_cons hl]
      exact hclear

/-- Nothing live below level `n`: every list is emptied and nothing passed on. -/
theorem serve_dead {n : Nat} {ls : Levels α} (h : ∀ i, i < n → (ls i).filterMap live = []) :
    serve live n ls = ([], fun i => if i < n then [] else ls i) := by
  induction n generalizing ls with
  | zero => simp [serve]
  | succ n ih =>
    rw [serve_succ_nil (h n (by omega)), ih fun i hi => by
      rw [clear_ne ls (by omega)]; exact h i (by omega)]
    refine Prod.ext rfl (funext fun i => ?_)
    by_cases hi : i = n
    · subst hi
      simp
    · by_cases hlt : i < n
      · simp [hlt, show i < n + 1 by omega]
      · simp [hlt, show ¬ i < n + 1 by omega, clear_ne ls hi]

/-- The highest level below `n` with a live item is passed on; it and the levels
above it are emptied, the levels below it are untouched. -/
theorem serve_level {n j : Nat} {ls : Levels α} (hj : j < n)
    (hlive : (ls j).filterMap live ≠ [])
    (hdead : ∀ i, j < i → i < n → (ls i).filterMap live = []) :
    serve live n ls =
      ((ls j).filterMap live, fun i => if j ≤ i ∧ i < n then [] else ls i) := by
  induction n generalizing ls with
  | zero => omega
  | succ n ih =>
    by_cases hjn : j = n
    · subst hjn
      rw [serve_succ_cons hlive]
      refine Prod.ext rfl (funext fun i => ?_)
      by_cases hi : i = j
      · subst hi
        simp
      · dsimp only
        rw [if_neg (by omega), clear_ne ls hi]
    · have hcj : (ls.clear n) j = ls j := clear_ne ls hjn
      rw [serve_succ_nil (hdead n (by omega) (by omega)),
        ih (by omega) (by rw [hcj]; exact hlive) fun i hi hin => by
          rw [clear_ne ls (by omega)]; exact hdead i hi (by omega)]
      refine Prod.ext (by rw [hcj]) (funext fun i => ?_)
      by_cases hi : i = n
      · subst hi
        simp [show j ≤ i by omega]
      · dsimp only
        by_cases hr : j ≤ i ∧ i < n
        · rw [if_pos hr, if_pos (by omega)]
        · rw [if_neg hr, if_neg (by omega), clear_ne ls hi]

/-- One of the two cases above always applies. -/
theorem live_cases (live : α → Option β) (n : Nat) (ls : Levels α) :
    (∀ i, i < n → (ls i).filterMap live = []) ∨
      ∃ j, j < n ∧ (ls j).filterMap live ≠ [] ∧
        ∀ i, j < i → i < n → (ls i).filterMap live = [] := by
  induction n with
  | zero => exact .inl fun i hi => by omega
  | succ n ih =>
    by_cases hn : (ls n).filterMap live = []
    · rcases ih with h | ⟨j, hj, hl, hd⟩
      · refine .inl fun i hi => ?_
        by_cases hin : i = n
        · exact hin ▸ hn
        · exact h i (by omega)
      · refine .inr ⟨j, by omega, hl, fun i hji hi => ?_⟩
        by_cases hin : i = n
        · exact hin ▸ hn
        · exact hd i hji (by omega)
    · exact .inr ⟨n, by omega, hn, fun i hji hi => by omega⟩

/-- Empty levels at the top change nothing. -/
theorem serve_of_nil_above {m n : Nat} {ls : Levels α} (hmn : m ≤ n)
    (h : ∀ i, m ≤ i → i < n → ls i = []) : serve live n ls = serve live m ls := by
  induction n with
  | zero => rw [Nat.le_zero.mp hmn]
  | succ n ih =>
    by_cases he : m = n + 1
    · rw [he]
    · have hn : ls n = [] := h n (by omega) (by omega)
      rw [serve_succ_nil (by rw [hn]; rfl), clear_of_nil hn]
      exact ih (by omega) fun i hi hin => h i hi (by omega)

/-- Nothing is passed on exactly if nothing is live; then every list is emptied. -/
theorem serve_eq_nil_iff {n : Nat} {ls : Levels α} :
    (serve live n ls).1 = [] ↔ ∀ i, i < n → (ls i).filterMap live = [] := by
  constructor
  · intro hnil
    rcases live_cases live n ls with hdead | ⟨j, hj, hlive, hdead⟩
    · exact hdead
    · rw [serve_level hj hlive hdead] at hnil
      exact absurd hnil hlive
  · intro hdead
    rw [serve_dead hdead]

theorem serve_emptied {n : Nat} {ls : Levels α} (h : (serve live n ls).1 = []) {i : Nat}
    (hi : i < n) : (serve live n ls).2 i = [] := by
  rw [serve_dead (serve_eq_nil_iff.mp h)]
  exact if_pos hi

/-- What is passed on was live in some list. -/
theorem mem_serve {n : Nat} {ls : Levels α} {b : β} (h : b ∈ (serve live n ls).1) :
    ∃ i, ∃ a ∈ ls i, live a = some b := by
  rcases live_cases live n ls with hdead | ⟨j, hj, hlive, hdead⟩
  · rw [serve_dead hdead] at h
    cases h
  · rw [serve_level hj hlive hdead] at h
    obtain ⟨a, ha, hab⟩ := List.mem_filterMap.mp h
    exact ⟨j, a, ha, hab⟩

/-- A live item is passed on or stays where it is. -/
theorem serve_kept {n i : Nat} {ls : Levels α} {a : α} {b : β} (hi : i < n) (ha : a ∈ ls i)
    (hb : live a = some b) : b ∈ (serve live n ls).1 ∨ a ∈ (serve live n ls).2 i := by
  have hmem : b ∈ (ls i).filterMap live := List.mem_filterMap.mpr ⟨a, ha, hb⟩
  rcases live_cases live n ls with hdead | ⟨j, hj, hlive, hdead⟩
  · rw [hdead i hi] at hmem
    cases hmem
  · rw [serve_level hj hlive hdead]
    rcases Nat.lt_trichotomy i j with hij | rfl | hij
    · right
      dsimp only
      rwa [if_neg (by omega)]
    · exact .inl hmem
    · rw [hdead i hij hi] at hmem
      cases hmem

variable {γ : Type} {own : α → Option γ} {own' : β → Option γ}

/-- Passing on keeps the items of one kind, if all of them are live. -/
theorem filterMap_live {l : List α} (hlive : ∀ a ∈ l, (own a).isSome → (live a).isSome)
    (hown : ∀ a b, live a = some b → own' b = own a) :
    (l.filterMap live).filterMap own' = l.filterMap own := by
  rw [List.filterMap_filterMap]
  refine List.filterMap_congr fun a ha => ?_
  cases hb : live a with
  | some b => exact hown a b hb
  | none =>
    cases ho : own a with
    | none => rfl
    | some c =>
      have hsome := hlive a ha (by rw [ho]; rfl)
      rw [hb] at hsome
      cases hsome

/-- Items of one kind that are live and all wait in one level: serving passes all
of them on, in order, or none. -/
theorem serve_own (live : α → Option β) (own : α → Option γ) (own' : β → Option γ)
    {n p : Nat} (ls : Levels α) (hp : p < n)
    (hhome : ∀ i, ∀ a ∈ ls i, (own a).isSome → i = p ∧ (live a).isSome)
    (hown : ∀ a b, live a = some b → own' b = own a) :
    (ls p).filterMap own =
      (serve live n ls).1.filterMap own' ++ ((serve live n ls).2 p).filterMap own := by
  have hlive : ∀ i, ∀ a ∈ ls i, (own a).isSome → (live a).isSome :=
    fun i a ha h => (hhome i a ha h).2
  have hnil : ∀ i, i ≠ p → (ls i).filterMap own = [] := by
    intro i hi
    rw [List.filterMap_eq_nil_iff]
    intro a ha
    by_contra hne
    exact hi (hhome i a ha (Option.isSome_iff_ne_none.mpr hne)).1
  have hdeadp : (ls p).filterMap live = [] → (ls p).filterMap own = [] := by
    intro h
    rw [← filterMap_live (hlive p) hown, h]
    rfl
  rcases live_cases live n ls with hdead | ⟨j, hj, hlevel, hdead⟩
  · rw [serve_dead hdead, hdeadp (hdead p hp)]
    simp [hp]
  · rw [serve_level hj hlevel hdead, filterMap_live (hlive j) hown]
    dsimp only
    rcases lt_trichotomy p j with hpj | hpj | hpj
    · rw [hnil j (by omega), if_neg (by omega)]
      rfl
    · rw [hpj, if_pos ⟨le_refl _, hj⟩]
      simp
    · rw [hnil j (by omega), if_pos ⟨by omega, hp⟩, hdeadp (hdead p hpj hp)]
      rfl

end Serve

/-! ## Serving again and again -/

/-- What there is to pass on below level `n`, level by level from the highest down; levels
with nothing live are left out. -/
def batches (live : α → Option β) : Nat → Levels α → List (List β)
  | 0, _ => []
  | n + 1, ls => match (ls n).filterMap live with
    | [] => batches live n ls
    | out => out :: batches live n ls

section Batches
variable {live : α → Option β}

theorem batches_succ_nil {n : Nat} {ls : Levels α} (h : (ls n).filterMap live = []) :
    batches live (n + 1) ls = batches live n ls := by
  rw [batches, h]

theorem batches_succ_cons {n : Nat} {ls : Levels α} (h : (ls n).filterMap live ≠ []) :
    batches live (n + 1) ls = (ls n).filterMap live :: batches live n ls := by
  rw [batches]
  split
  · contradiction
  · rfl

theorem batches_congr {n : Nat} {ls ls' : Levels α} (h : ∀ i, i < n → ls i = ls' i) :
    batches live n ls = batches live n ls' := by
  induction n with
  | zero => rfl
  | succ n ih =>
    rw [batches, batches, h n (Nat.lt_succ_self n), ih fun i hi => h i (by omega)]

theorem batches_clear (n : Nat) (ls : Levels α) :
    batches live n (ls.clear n) = batches live n ls :=
  batches_congr fun i hi => clear_ne ls (by omega)

/-- Serving passes on the first batch and leaves the others. -/
theorem serve_batches (n : Nat) (ls : Levels α) :
    (serve live n ls).1 = (batches live n ls).headD [] ∧
      batches live n (serve live n ls).2 = (batches live n ls).tail := by
  induction n generalizing ls with
  | zero => exact ⟨rfl, rfl⟩
  | succ n ih =>
    have hself : ((serve live n (ls.clear n)).2 n).filterMap live = [] := by
      rw [serve_ge (le_refl n), clear_self]
      rfl
    by_cases h : (ls n).filterMap live = []
    · obtain ⟨hfirst, hrest⟩ := ih (ls.clear n)
      rw [serve_succ_nil h, batches_succ_nil h, batches_succ_nil hself, hfirst, hrest,
        batches_clear]
      exact ⟨rfl, rfl⟩
    · have hcleared : ((ls.clear n) n).filterMap live = [] := by
        rw [clear_self]
        rfl
      rw [serve_succ_cons h, batches_succ_cons h, batches_succ_nil hcleared, batches_clear]
      exact ⟨rfl, rfl⟩

theorem batches_length_le (n : Nat) (ls : Levels α) : (batches live n ls).length ≤ n := by
  induction n with
  | zero => exact le_refl 0
  | succ n ih =>
    by_cases h : (ls n).filterMap live = []
    · rw [batches_succ_nil h]
      omega
    · rw [batches_succ_cons h, List.length_cons]
      omega

theorem ne_nil_of_mem_batches {n : Nat} {ls : Levels α} {out : List β}
    (h : out ∈ batches live n ls) : out ≠ [] := by
  induction n with
  | zero => cases h
  | succ n ih =>
    by_cases hn : (ls n).filterMap live = []
    · exact ih (batches_succ_nil hn ▸ h)
    · rw [batches_succ_cons hn] at h
      rcases List.mem_cons.mp h with rfl | h
      · exact hn
      · exact ih h

/-- Together they are all that is live, by falling level and in order within a level. -/
theorem batches_flatten (n : Nat) (ls : Levels α) :
    (batches live n ls).flatten =
      (List.range n).reverse.flatMap fun i => (ls i).filterMap live := by
  induction n with
  | zero => rfl
  | succ n ih =>
    rw [List.range_succ, List.reverse_append, List.flatMap_append, ← ih]
    by_cases h : (ls n).filterMap live = []
    · rw [batches_succ_nil h]
      simp [h]
    · rw [batches_succ_cons h]
      simp

end Batches

/-! ## How long an item waits -/

/-- How many levels above `i` and below `n` hold an item. -/
def above (i n : Nat) (ls : Levels α) : Nat :=
  ((Finset.Ioo i n).filter fun j => (ls j).isEmpty = false).card

/-- How many of the items belong above level `i`. -/
def arrivalsAbove (place : ε → Option (Nat × α)) (i : Nat) (es : List ε) : Nat :=
  es.countP fun e => (place e).any fun p => decide (i < p.1)

theorem above_le (i n : Nat) (ls : Levels α) : above i n ls ≤ n - i - 1 := by
  rw [← Nat.card_Ioo]
  exact Finset.card_filter_le _ _

theorem above_congr {i n : Nat} {ls ls' : Levels α} (h : ∀ j, i < j → j < n → ls j = ls' j) :
    above i n ls = above i n ls' := by
  refine congrArg Finset.card (Finset.filter_congr fun j hj => ?_)
  obtain ⟨hij, hjn⟩ := Finset.mem_Ioo.mp hj
  rw [h j hij hjn]

theorem above_succ_nil {i n : Nat} {ls : Levels α} (h : ls n = []) :
    above i (n + 1) ls = above i n ls := by
  refine congrArg Finset.card (Finset.ext fun j => ?_)
  simp only [Finset.mem_filter, Finset.mem_Ioo]
  constructor
  · rintro ⟨⟨hij, hlt⟩, hj⟩
    refine ⟨⟨hij, lt_of_le_of_ne (Nat.le_of_lt_succ hlt) ?_⟩, hj⟩
    rintro rfl
    rw [h] at hj
    cases hj
  · rintro ⟨⟨hij, hlt⟩, hj⟩
    exact ⟨⟨hij, Nat.lt_succ_of_lt hlt⟩, hj⟩

/-- An item more fills at most one level more. -/
theorem above_push (i n j : Nat) (ls : Levels α) (a : α) :
    above i n (ls.push j a) ≤ above i n ls + if i < j then 1 else 0 := by
  by_cases hij : i < j
  · rw [if_pos hij]
    refine le_trans (Finset.card_le_card fun k hk => ?_) (Finset.card_insert_le j _)
    obtain ⟨hmem, hk⟩ := Finset.mem_filter.mp hk
    by_cases hkj : k = j
    · rw [hkj]
      exact Finset.mem_insert_self j _
    · rw [push_ne ls a hkj] at hk
      exact Finset.mem_insert_of_mem (Finset.mem_filter.mpr ⟨hmem, hk⟩)
  · rw [if_neg hij, Nat.add_zero]
    exact (above_congr fun k hk _ => push_ne ls a (by omega)).le

theorem above_file (place : ε → Option (Nat × α)) (i n : Nat) (ls : Levels α) (es : List ε) :
    above i n (file place ls es) ≤ above i n ls + arrivalsAbove place i es := by
  induction es generalizing ls with
  | nil => exact le_refl _
  | cons e es ih =>
    rw [file, arrivalsAbove, List.countP_cons, ← arrivalsAbove]
    cases h : place e with
    | none => simpa using ih ls
    | some p =>
      have hpush := above_push i n p.1 ls p.2
      have hrest := ih (ls.push p.1 p.2)
      simp only [Option.any_some, decide_eq_true_eq]
      omega

/-- Emptying lists lowers it, if one of them held an item. -/
theorem above_lt {i n k : Nat} {ls ls' : Levels α} (h : ∀ j, ls' j = ls j ∨ ls' j = [])
    (hik : i < k) (hkn : k < n) (hk : ls k ≠ []) (hk' : ls' k = []) :
    above i n ls' < above i n ls := by
  refine Finset.card_lt_card ⟨fun j hj => ?_, fun hsub => ?_⟩
  · obtain ⟨hmem, hj⟩ := Finset.mem_filter.mp hj
    refine Finset.mem_filter.mpr ⟨hmem, ?_⟩
    rcases h j with heq | hnil
    · rwa [heq] at hj
    · rw [hnil] at hj
      cases hj
  · have hin := hsub (Finset.mem_filter.mpr
      ⟨Finset.mem_Ioo.mpr ⟨hik, hkn⟩, List.isEmpty_eq_false_iff.mpr hk⟩)
    have hfilled := (Finset.mem_filter.mp hin).2
    rw [hk'] at hfilled
    cases hfilled

/-- A live item is passed on, or it stays and a level above its own is emptied. -/
theorem serve_waits {live : α → Option β} {i n : Nat} {ls : Levels α} {a : α} {b : β} (hi : i < n)
    (ha : a ∈ ls i) (hb : live a = some b) : b ∈ (serve live n ls).1 ∨
      a ∈ (serve live n ls).2 i ∧ above i n (serve live n ls).2 < above i n ls := by
  have hmem : b ∈ (ls i).filterMap live := List.mem_filterMap.mpr ⟨a, ha, hb⟩
  rcases live_cases live n ls with hdead | ⟨j, hj, hlive, hdead⟩
  · rw [hdead i hi] at hmem
    cases hmem
  · have hserve := serve_level hj hlive hdead
    rcases Nat.lt_trichotomy i j with hij | rfl | hij
    · right
      constructor
      · rw [hserve]
        dsimp only
        rwa [if_neg (by omega)]
      · refine above_lt (fun k => serve_or n k ls) hij hj (fun hnil => ?_) ?_
        · rw [hnil] at hlive
          exact hlive rfl
        · rw [hserve]
          exact if_pos ⟨le_refl j, hj⟩
    · rw [hserve]
      exact .inl hmem
    · rw [hdead i hij hi] at hmem
      cases hmem

/-! ## One level, and all of them -/

/-- Items that are all in one level, collected over distinct levels. -/
theorem flatMap_level {ls : Levels α} {i : Nat} (h : ∀ j, j ≠ i → ls j = []) {js : List Nat}
    (hjs : js.Nodup) (hi : i ∈ js) : js.flatMap ls = ls i := by
  induction js with
  | nil => cases hi
  | cons j js ih =>
    obtain ⟨hj, hjs⟩ := List.nodup_cons.mp hjs
    rw [List.flatMap_cons]
    by_cases hji : j = i
    · have hnil : js.flatMap ls = [] := by
        rw [List.flatMap_eq_nil_iff]
        exact fun k hk => h k fun hki => hj (hji ▸ hki ▸ hk)
      rw [hnil, hji, List.append_nil]
    · rw [h j hji, ih hjs ((List.mem_cons.mp hi).resolve_left (Ne.symm hji))]
      rfl

theorem pending_iff {n : Nat} {ls : Levels α} :
    pending n ls = true ↔ ∃ i, i < n ∧ ls i ≠ [] := by
  simp [pending]

theorem total_pos_iff {n : Nat} {ls : Levels α} : 0 < total n ls ↔ ∃ i, i < n ∧ ls i ≠ [] := by
  rw [total, Finset.sum_pos_iff]
  simp [List.length_pos_iff]

theorem pending_eq_total {n : Nat} {ls : Levels α} :
    pending n ls = decide (0 < total n ls) := by
  rw [Bool.eq_iff_iff, pending_iff, decide_eq_true_iff, total_pos_iff]

theorem total_eq_zero_iff {n : Nat} {ls : Levels α} :
    total n ls = 0 ↔ ∀ i, i < n → ls i = [] := by
  simp [total]

theorem total_push {n i : Nat} (ls : Levels α) (a : α) (hi : i < n) :
    total n (ls.push i a) = total n ls + 1 := by
  have hm : i ∈ Finset.range n := Finset.mem_range.mpr hi
  unfold total
  rw [← Finset.add_sum_erase _ _ hm, ← Finset.add_sum_erase _ (fun k => (ls k).length) hm,
    Finset.sum_congr rfl fun k hk => by rw [push_ne ls a (Finset.ne_of_mem_erase hk)]]
  simp only [push_self, List.length_append, List.length_singleton]
  omega

theorem total_succ (n : Nat) (ls : Levels α) :
    total (n + 1) ls = total n ls + (ls n).length := Finset.sum_range_succ _ _

theorem total_mono_of_nil {m n : Nat} {ls : Levels α} (hmn : m ≤ n)
    (h : ∀ i, m ≤ i → i < n → ls i = []) : total n ls = total m ls := by
  induction n with
  | zero => rw [Nat.le_zero.mp hmn]
  | succ n ih =>
    by_cases he : m = n + 1
    · rw [he]
    · rw [total_succ, h n (by omega) (by omega),
        ih (by omega) fun i hi hin => h i hi (by omega)]
      rfl

end Levels
end Lib
