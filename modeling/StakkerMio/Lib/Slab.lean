import Mathlib.Data.List.Basic
import Mathlib.Tactic.Common

/-! # Slabs

A slab stores values under keys of its own choosing and may hand out a freed
key again. `Slab` is the interface with its laws; `FreeSlab` is the usual
implementation, a vector of slots with a stack of freed keys. -/
namespace Lib

/-- A store `S` of values `α`: which key an insertion gets is left open, except
that it was vacant and that the first one is `0`. -/
class Slab (S : Type) (α : outParam Type) where
  empty : S
  get : S → Nat → Option α
  insert : S → α → Nat × S
  remove : S → Nat → S
  set : S → Nat → α → S
  get_empty (k : Nat) : get empty k = none
  insert_empty (a : α) : (insert empty a).1 = 0
  insert_vacant (s : S) (a : α) : get s (insert s a).1 = none
  get_insert (s : S) (a : α) (k : Nat) :
    get (insert s a).2 k = if k = (insert s a).1 then some a else get s k
  get_remove (s : S) (k j : Nat) : (get s k).isSome →
    get (remove s k) j = if j = k then none else get s j
  get_set (s : S) (k j : Nat) (a : α) : (get s k).isSome →
    get (set s k a) j = if j = k then some a else get s j

namespace Slab
variable {S α : Type} [Slab S α]

def contains (s : S) (k : Nat) : Bool := (get s k).isSome

theorem get_insert_self (s : S) (a : α) : get (insert s a).2 (insert s a).1 = some a := by
  rw [get_insert, if_pos rfl]

theorem get_insert_ne {s : S} {k : Nat} (a : α) (h : k ≠ (insert s a).1) :
    get (insert s a).2 k = get s k := by
  rw [get_insert, if_neg h]

/-- An occupied key is never the one an insertion gets. -/
theorem ne_insert {s : S} {k : Nat} {b : α} (a : α) (h : get s k = some b) :
    k ≠ (insert s a).1 := by
  intro he
  rw [he, insert_vacant] at h
  cases h

end Slab

/-- Slots and the stack of freed keys, the last freed on top. Exactly the
vacant slots are on the stack, each once. -/
structure FreeSlab (α : Type) where
  slots : List (Option α)
  free : List Nat
  nodup : free.Nodup
  vacant : ∀ k, k ∈ free → slots[k]? = some none

namespace FreeSlab
variable {α : Type}

def get (s : FreeSlab α) (k : Nat) : Option α := (s.slots[k]?).join

/-- The key last freed, or a new slot at the end. -/
def insert (s : FreeSlab α) (a : α) : Nat × FreeSlab α :=
  match hf : s.free with
  | [] => (s.slots.length, ⟨s.slots ++ [some a], [], List.nodup_nil, by simp⟩)
  | k :: rest => (k, ⟨s.slots.set k (some a), rest, (hf ▸ s.nodup).of_cons, by
      intro j hj
      have hne : k ≠ j := by
        rintro rfl
        exact (List.nodup_cons.mp (hf ▸ s.nodup)).1 hj
      rw [List.getElem?_set_ne hne]
      exact s.vacant j (by rw [hf]; exact List.mem_cons_of_mem _ hj)⟩)

def remove (s : FreeSlab α) (k : Nat) : FreeSlab α :=
  if h : (s.get k).isSome then
    { slots := s.slots.set k none
      free := k :: s.free
      nodup := by
        refine List.nodup_cons.mpr ⟨fun hk => ?_, s.nodup⟩
        simp [get, s.vacant k hk] at h
      vacant := by
        intro j hj
        by_cases hjk : j = k
        · subst hjk
          have hlt : j < s.slots.length := by
            by_contra hge
            simp [get, List.getElem?_eq_none (Nat.le_of_not_lt hge)] at h
          simp [hlt]
        · rw [List.getElem?_set_ne (Ne.symm hjk)]
          exact s.vacant j ((List.mem_cons.mp hj).resolve_left hjk) }
  else s

def set (s : FreeSlab α) (k : Nat) (a : α) : FreeSlab α :=
  if h : (s.get k).isSome then
    { s with
      slots := s.slots.set k (some a)
      vacant := by
        intro j hj
        have hjk : k ≠ j := by
          rintro rfl
          simp [get, s.vacant k hj] at h
        rw [List.getElem?_set_ne hjk]
        exact s.vacant j hj }
  else s

theorem lt_of_get {s : FreeSlab α} {k : Nat} (h : (s.get k).isSome) : k < s.slots.length := by
  by_contra hge
  simp [get, List.getElem?_eq_none (Nat.le_of_not_lt hge)] at h

theorem get_slots_set {slots : List (Option α)} {k : Nat} (hk : k < slots.length)
    (v : Option α) (j : Nat) :
    ((slots.set k v)[j]?).join = if j = k then v else (slots[j]?).join := by
  by_cases hjk : j = k
  · subst hjk
    simp [hk]
  · rw [List.getElem?_set_ne (Ne.symm hjk), if_neg hjk]

theorem insert_vacant (s : FreeSlab α) (a : α) : s.get (s.insert a).1 = none := by
  unfold insert
  split
  · simp [get]
  · rename_i k rest hf
    simp [get, s.vacant k (by rw [hf]; exact List.mem_cons_self)]

theorem get_insert (s : FreeSlab α) (a : α) (j : Nat) :
    (s.insert a).2.get j = if j = (s.insert a).1 then some a else s.get j := by
  unfold insert
  split
  · by_cases hj : j = s.slots.length
    · subst hj
      simp [get]
    · by_cases hlt : j < s.slots.length
      · simp [get, hj, List.getElem?_append_left hlt]
      · have hge : s.slots.length + 1 ≤ j := by omega
        simp [get, hj, List.getElem?_eq_none (show s.slots.length ≤ j by omega),
          List.getElem?_eq_none (show (s.slots ++ [some a]).length ≤ j by simpa using hge)]
  · rename_i k rest hf
    have hk : s.slots[k]? = some none := s.vacant k (by rw [hf]; exact List.mem_cons_self)
    exact get_slots_set (List.getElem?_eq_some_iff.mp hk).1 _ j

theorem get_remove (s : FreeSlab α) (k j : Nat) (h : (s.get k).isSome) :
    (s.remove k).get j = if j = k then none else s.get j := by
  unfold remove
  rw [dif_pos h]
  exact get_slots_set (lt_of_get h) none j

theorem get_set (s : FreeSlab α) (k j : Nat) (a : α) (h : (s.get k).isSome) :
    (s.set k a).get j = if j = k then some a else s.get j := by
  unfold set
  rw [dif_pos h]
  exact get_slots_set (lt_of_get h) (some a) j

instance : Slab (FreeSlab α) α where
  empty := ⟨[], [], List.nodup_nil, by simp⟩
  get := get
  insert := insert
  remove := remove
  set := set
  get_empty _ := rfl
  insert_empty _ := rfl
  insert_vacant := insert_vacant
  get_insert := get_insert
  get_remove := get_remove
  get_set := get_set

end FreeSlab
end Lib
