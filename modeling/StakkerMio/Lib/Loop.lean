import Mathlib.Order.WellFounded
import StakkerMio.Lib.Machine

/-! # Loops

`loop body` takes turns until one of them leaves the loop. `Visits body s t`: some
turn of the loop that starts in `s` starts in `t`. What holds at every turn, and
that the loop ends, is shown from a single turn. -/
namespace Lib
variable {S R : Type} {body : S → Exec (S ⊕ R)}

/-- A turn goes on from another state or leaves with a result. -/
def loop (body : S → Exec (S ⊕ R)) : Nat → S → Exec R
  | 0, _ => .fuel
  | n + 1, s => do
    match ← body s with
    | .inl t => loop body n t
    | .inr r => .ret r

inductive Visits (body : S → Exec (S ⊕ R)) : S → S → Prop
  | here (s : S) : Visits body s s
  | next {s m t : S} : body s = .ret (.inl m) → Visits body m t → Visits body s t

namespace Visits

theorem concat {s m t : S} (h : Visits body s m) (ht : body m = .ret (.inl t)) :
    Visits body s t := by
  induction h with
  | here => exact .next ht (.here t)
  | next hm _ ih => exact .next hm (ih ht)

/-- What a turn keeps, if it meets the condition, holds wherever the loop comes. -/
theorem invariant {P I : S → Prop} (hturn : ∀ s t, I s → P s → body s = .ret (.inl t) → I t)
    {s t : S} (hP : ∀ t, Visits body s t → P t) (hs : I s) (h : Visits body s t) : I t := by
  induction h with
  | here => exact hs
  | next hm _ ih => exact ih (fun t ht => hP t (.next hm ht)) (hturn _ _ hs (hP _ (.here _)) hm)

/-- Whether the loop ends within `n` turns and each of them passes the test. -/
def check (body : S → Exec (S ⊕ R)) (p : S → Bool) : Nat → S → Bool
  | 0, _ => false
  | n + 1, s => p s &&
    match body s with
    | .ret (.inl t) => check body p n t
    | _ => true

theorem of_check {p : S → Bool} {n : Nat} {s t : S} (hc : check body p n s = true)
    (h : Visits body s t) : p t = true := by
  induction h generalizing n with
  | here =>
    cases n with
    | zero => cases hc
    | succ n => exact (Bool.and_eq_true_iff.mp hc).1
  | next hm _ ih =>
    cases n with
    | zero => cases hc
    | succ n =>
      have hrest := (Bool.and_eq_true_iff.mp hc).2
      rw [hm] at hrest
      exact ih hrest

end Visits

/-- A loop in which every turn goes on is never left. -/
theorem loop_fuel {I : S → Prop} (hturn : ∀ s, I s → ∃ t, body s = .ret (.inl t) ∧ I t)
    {s : S} (hs : I s) (n : Nat) : loop body n s = .fuel := by
  induction n generalizing s with
  | zero => rfl
  | succ n ih =>
    obtain ⟨t, ht, hi⟩ := hturn s hs
    rw [loop, ht]
    exact ih hi

namespace Visits
variable {s t : S}

theorem trans {m : S} (h : Visits body s m) (h' : Visits body m t) : Visits body s t := by
  induction h with
  | here => exact h'
  | next hm _ ih => exact .next hm (ih h')

/-- Another body that goes on in the same way. -/
theorem mono {Q : Type} {body' : S → Exec (S ⊕ Q)}
    (hbody : ∀ s t, body s = .ret (.inl t) → body' s = .ret (.inl t)) (h : Visits body s t) :
    Visits body' s t := by
  induction h with
  | here => exact .here _
  | next hm _ ih => exact .next (hbody _ _ hm) ih

/-- A loop that comes to where it is never left is never left. -/
theorem loop_fuel (h : Visits body s t) (ht : ∀ n, loop body n t = .fuel) (n : Nat) :
    loop body n s = .fuel := by
  induction h generalizing n with
  | here => exact ht n
  | next hm _ ih =>
    cases n with
    | zero => rfl
    | succ n =>
      rw [loop, hm]
      exact ih ht n

/-- A loop that comes to where it ends does. -/
theorem loop_over (h : Visits body s t) (ht : ∃ n, ∀ k, n ≤ k → (loop body k t).Over) :
    ∃ n, ∀ k, n ≤ k → (loop body k s).Over := by
  induction h with
  | here => exact ht
  | next hm _ ih =>
    obtain ⟨n, hn⟩ := ih ht
    refine ⟨n + 1, fun k hk => ?_⟩
    obtain ⟨k, rfl⟩ := Nat.exists_eq_add_of_le' (show 1 ≤ k by omega)
    rw [loop, hm]
    exact hn k (by omega)

/-- A loop that comes to a last turn has its result. -/
theorem loop_ret (h : Visits body s t) {r : R} (ht : body t = .ret (.inr r)) :
    ∃ n, ∀ k, n ≤ k → loop body k s = .ret r := by
  induction h with
  | here =>
    refine ⟨1, fun k hk => ?_⟩
    obtain ⟨k, rfl⟩ := Nat.exists_eq_add_of_le' hk
    rw [loop, ht]
    rfl
  | next hm _ ih =>
    obtain ⟨n, hn⟩ := ih ht
    refine ⟨n + 1, fun k hk => ?_⟩
    obtain ⟨k, rfl⟩ := Nat.exists_eq_add_of_le' (show 1 ≤ k by omega)
    rw [loop, hm]
    exact hn k (by omega)

end Visits

/-- Functional simulation of a loop, from that of a turn. -/
theorem loop_map {S' R' : Type} {body' : S' → Exec (S' ⊕ R')} {f : S → S'} {g : R → R'}
    (hbody : ∀ s, body' (f s) = Sum.map f g <$> body s) (n : Nat) (s : S) :
    loop body' n (f s) = g <$> loop body n s := by
  induction n generalizing s with
  | zero => rfl
  | succ n ih =>
    refine Exec.bind_map (hbody s) fun x _ => ?_
    cases x with
    | inl t => exact ih t
    | inr r => rfl

/-- The result of a loop is that of its last turn. -/
theorem loop_last {n : Nat} {s : S} {r : R} (h : loop body n s = .ret r) :
    ∃ t, Visits body s t ∧ body t = .ret (.inr r) := by
  induction n generalizing s with
  | zero => cases h
  | succ n ih =>
    obtain ⟨x, hx, h⟩ := Exec.bind_eq_ret.mp h
    cases x with
    | inl m =>
      obtain ⟨t, ht, hr⟩ := ih h
      exact ⟨t, .next hx ht, hr⟩
    | inr r' =>
      cases h
      exact ⟨s, .here s, hx⟩

/-- A loop ends if each turn does and those that go on descend. -/
theorem loop_over {rel : S → S → Prop} (hwf : WellFounded rel) {P I : S → Prop}
    (hover : ∀ s, I s → P s → (body s).Over)
    (hturn : ∀ s t, I s → P s → body s = .ret (.inl t) → I t ∧ rel t s) {s : S}
    (hP : ∀ t, Visits body s t → P t) (hs : I s) : ∃ n, ∀ k, n ≤ k → (loop body k s).Over := by
  induction s using hwf.induction with
  | _ s ih =>
    have hPs := hP s (.here s)
    rcases hover s hs hPs with hw | ⟨x, hx⟩
    · refine ⟨1, fun k hk => .inl ?_⟩
      obtain ⟨k, rfl⟩ := Nat.exists_eq_add_of_le' hk
      rw [loop, hw]
      rfl
    · cases x with
      | inr r =>
        refine ⟨1, fun k hk => .inr ⟨r, ?_⟩⟩
        obtain ⟨k, rfl⟩ := Nat.exists_eq_add_of_le' hk
        rw [loop, hx]
        rfl
      | inl t =>
        obtain ⟨hi, hlt⟩ := hturn s t hs hPs hx
        obtain ⟨n, hn⟩ := ih t hlt (fun u hu => hP u (.next hx hu)) hi
        refine ⟨n + 1, fun k hk => ?_⟩
        obtain ⟨k, rfl⟩ := Nat.exists_eq_add_of_le' (show 1 ≤ k by omega)
        rw [loop, hx]
        exact hn k (by omega)

end Lib
