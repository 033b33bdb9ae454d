import Mathlib.Tactic.Common

/-! # Interleavings

`Interleave a b c`: the list `c` is made of `a` and `b`, each in its own order.
A stream some of whose items were taken out is described by what is left and
what was taken. -/
namespace Lib

inductive Interleave {α : Type} : List α → List α → List α → Prop
  | nil : Interleave [] [] []
  | left {x : α} {a b c : List α} : Interleave a b c → Interleave (x :: a) b (x :: c)
  | right {x : α} {a b c : List α} : Interleave a b c → Interleave a (x :: b) (x :: c)

namespace Interleave
variable {α : Type} {a b c : List α}

theorem left_only (l : List α) : Interleave l [] l := by
  induction l with
  | nil => exact .nil
  | cons x l ih => exact .left ih

/-- More items at the end of the first list. -/
theorem append_left (h : Interleave a b c) (l : List α) : Interleave (a ++ l) b (c ++ l) := by
  induction h with
  | nil => exact left_only l
  | left _ ih => exact .left ih
  | right _ ih => exact .right ih

theorem concat_right (h : Interleave a b c) (x : α) :
    Interleave a (b ++ [x]) (c ++ [x]) := by
  induction h with
  | nil => exact .right .nil
  | left _ ih => exact .left ih
  | right _ ih => exact .right ih

theorem length_eq (h : Interleave a b c) : c.length = a.length + b.length := by
  induction h with
  | nil => rfl
  | left _ ih =>
    rw [List.length_cons, List.length_cons, ih]
    omega
  | right _ ih =>
    rw [List.length_cons, List.length_cons, ih]
    omega

end Interleave
end Lib
