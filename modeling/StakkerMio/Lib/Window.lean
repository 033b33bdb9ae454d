import Mathlib.Data.List.Basic
import Mathlib.Tactic.Common

/-! # Windows of a buffer

A buffer with two offsets holds the items between them. The operations here are
those that a buffer is filled and compacted with; the lemmas say what each one
does to the window. -/
namespace Lib.Window
variable {α : Type}

/-- The items from offset `i` up to offset `j`. -/
def slice (l : List α) (i j : Nat) : List α := (l.drop i).take (j - i)

/-- The items from `i` up to `j` moved to the front, the rest as it was. -/
def copyWithin (l : List α) (i j : Nat) : List α := slice l i j ++ l.drop (j - i)

/-- The items `a` written over those at offset `i`. -/
def overwrite (l : List α) (i : Nat) (a : List α) : List α :=
  l.take i ++ a ++ l.drop (i + a.length)

theorem slice_self (l : List α) (i : Nat) : slice l i i = [] := by simp [slice]

theorem slice_length {l : List α} {i j : Nat} (hj : j ≤ l.length) :
    (slice l i j).length = j - i := by
  simp only [slice, List.length_take, List.length_drop]
  omega

/-- Two adjacent windows. -/
theorem slice_append {l : List α} {i j k : Nat} (hij : i ≤ j) (hjk : j ≤ k) :
    slice l i k = slice l i j ++ slice l j k := by
  have hk : k - i = (j - i) + (k - j) := by omega
  have hj : l.drop j = (l.drop i).drop (j - i) := by
    rw [List.drop_drop]
    congr 1
    omega
  rw [slice, slice, slice, hk, List.take_add, hj]

theorem copyWithin_length {l : List α} {i j : Nat} (hij : i ≤ j) (hj : j ≤ l.length) :
    (copyWithin l i j).length = l.length := by
  rw [copyWithin, List.length_append, slice_length hj, List.length_drop]
  omega

/-- The window has moved to the front. -/
theorem slice_copyWithin {l : List α} {i j : Nat} (hj : j ≤ l.length) :
    slice (copyWithin l i j) 0 (j - i) = slice l i j := by
  have hlen : (slice l i j).length = j - i := slice_length hj
  rw [slice, copyWithin, List.drop_zero, Nat.sub_zero, ← hlen]
  exact List.take_left

theorem overwrite_length {l a : List α} {i : Nat} (h : i + a.length ≤ l.length) :
    (overwrite l i a).length = l.length := by
  simp only [overwrite, List.length_append, List.length_take, List.length_drop]
  omega

/-- Writing at the end of the window makes it longer. -/
theorem slice_overwrite {l a : List α} {i j : Nat} (hij : i ≤ j) (h : j + a.length ≤ l.length) :
    slice (overwrite l j a) i (j + a.length) = slice l i j ++ a := by
  have htake : (l.take j).length = j := by
    rw [List.length_take]
    omega
  have hlen : (slice l i j ++ a).length = j + a.length - i := by
    rw [List.length_append, slice_length (by omega)]
    omega
  have hdrop : (overwrite l j a).drop i = (slice l i j ++ a) ++ l.drop (j + a.length) := by
    rw [overwrite, List.append_assoc, List.drop_append_of_le_length (by omega), List.drop_take,
      ← List.append_assoc]
    rfl
  rw [slice, hdrop, ← hlen]
  exact List.take_left

/-- Making the buffer longer leaves the window as it is. -/
theorem slice_pad {l : List α} {i j : Nat} (hj : j ≤ l.length) (a : List α) :
    slice (l ++ a) i j = slice l i j := by
  by_cases hi : i ≤ l.length
  · rw [slice, slice, List.drop_append_of_le_length hi, List.take_append_of_le_length]
    rw [List.length_drop]
    omega
  · have hz : j - i = 0 := by omega
    rw [slice, slice, hz]
    rfl

end Lib.Window
