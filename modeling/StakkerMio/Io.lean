import StakkerMio.Lib.Machine

/-! # I/O results and the retry loop

`std::io::Result` as far as the crate inspects it: the kind of an error and its
raw OS code. A call is modelled against the list of outcomes that the system
gives to the attempts it makes. -/
namespace StakkerMio
open Lib

/-- The error kinds the crate tests for, and any other. -/
inductive ErrorKind where
  | interrupted
  | wouldBlock
  | unexpectedEof
  | writeZero
  | notFound
  | other
  | unlisted (n : Nat)
  deriving Repr, DecidableEq

structure Error where
  kind : ErrorKind
  rawOsError : Option Nat := none
  deriving Repr, DecidableEq

abbrev Result (α : Type) := Except Error α

instance {α : Type} [DecidableEq α] : DecidableEq (Result α)
  | .ok a, .ok b => decidable_of_iff (a = b) (by simp)
  | .error a, .error b => decidable_of_iff (a = b) (by simp)
  | .ok _, .error _ => isFalse (by simp)
  | .error _, .ok _ => isFalse (by simp)

/-- The outcome asks for another attempt. -/
def isInterrupted {α : Type} : Result α → Bool
  | .error e => e.kind == .interrupted
  | .ok _ => false

/-- The call could not go on without blocking. -/
def isWouldBlock {α : Type} : Result α → Bool
  | .error e => e.kind == .wouldBlock
  | .ok _ => false

/-- `miopoll::retry`: attempts are made until one is not interrupted. -/
def retry {α : Type} : List (Result α) → Exec (Result α)
  | [] => .wait
  | rv :: outcomes => if isInterrupted rv then retry outcomes else .ret rv

/-- The same loop where it is written out in place, with the attempts it made. -/
def attempts {α : Type} : List (Result α) → Exec (Result α × List (Result α))
  | [] => .wait
  | r :: outcomes =>
    if isInterrupted r then do
      let (rv, tried) ← attempts outcomes
      .ret (rv, r :: tried)
    else .ret (r, [r])

theorem attempts_ne_fuel {α : Type} (outcomes : List (Result α)) : attempts outcomes ≠ .fuel := by
  induction outcomes with
  | nil => exact nofun
  | cons r outcomes ih =>
    unfold attempts
    split
    · exact Exec.bind_ne_fuel ih fun _ => nofun
    · exact nofun

theorem attempts_ne_panic {α : Type} (outcomes : List (Result α)) :
    attempts outcomes ≠ .panic := by
  induction outcomes with
  | nil => exact nofun
  | cons r outcomes ih =>
    unfold attempts
    split
    · exact Exec.bind_ne_panic ih fun _ _ => nofun
    · exact nofun

/-- All attempts but the last one were interrupted. -/
theorem attempts_ret {α : Type} {outcomes : List (Result α)} {rv : Result α}
    {tried : List (Result α)} (h : attempts outcomes = .ret (rv, tried)) :
    ∃ interrupts, tried = interrupts ++ [rv] ∧ (∀ r ∈ interrupts, isInterrupted r = true) ∧
      isInterrupted rv = false := by
  induction outcomes generalizing rv tried with
  | nil => cases h
  | cons r outcomes ih =>
    unfold attempts at h
    split at h
    · rename_i hr
      obtain ⟨⟨rv', tried'⟩, hloop, h⟩ := Exec.bind_eq_ret.mp h
      cases h
      obtain ⟨interrupts, rfl, hi, hrv⟩ := ih hloop
      exact ⟨r :: interrupts, rfl, by simpa [hr] using hi, hrv⟩
    · rename_i hr
      cases h
      exact ⟨[], rfl, by simp, by simpa using hr⟩

/-- The outcome that ends the attempts, if there is one. -/
def decisive {α : Type} (outcomes : List (Result α)) : Option (Result α) :=
  outcomes.find? fun r => !isInterrupted r

theorem attempts_decisive {α : Type} {outcomes : List (Result α)} {rv : Result α}
    {tried : List (Result α)} (h : attempts outcomes = .ret (rv, tried)) :
    decisive outcomes = some rv := by
  induction outcomes generalizing rv tried with
  | nil => cases h
  | cons r outcomes ih =>
    unfold attempts at h
    split at h
    · rename_i hr
      obtain ⟨⟨rv', tried'⟩, hloop, h⟩ := Exec.bind_eq_ret.mp h
      cases h
      rw [decisive, List.find?_cons_of_neg (by simpa using hr)]
      exact ih hloop
    · rename_i hr
      cases h
      rw [decisive, List.find?_cons_of_pos (by simpa using hr)]

/-- A retry loop returns, or is still waiting for an outcome. -/
theorem retry_cases {α : Type} (outcomes : List (Result α)) :
    retry outcomes = .wait ∨ ∃ rv, retry outcomes = .ret rv := by
  induction outcomes with
  | nil => exact .inl rfl
  | cons r rest ih =>
    unfold retry
    split
    · exact ih
    · exact .inr ⟨r, rfl⟩

end StakkerMio
