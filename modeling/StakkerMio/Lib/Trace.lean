import Mathlib.Tactic.Common

/-! # Traces

`Always P es`: each event of the trace meets `P` together with the events before
it. A trace that grows keeps what held of it. `Steps R s es t`: the events `es`
lead from `s` to `t` by the steps of a labelled relation. -/
namespace Lib
variable {E : Type}

/-- Every event after the trace `past` meets `P` with what came before it. -/
def AlwaysFrom (P : List E → E → Prop) : List E → List E → Prop
  | _, [] => True
  | past, e :: es => P past e ∧ AlwaysFrom P (past ++ [e]) es

abbrev Always (P : List E → E → Prop) (es : List E) : Prop := AlwaysFrom P [] es

theorem AlwaysFrom.append {P : List E → E → Prop} {past es fs : List E} :
    AlwaysFrom P past (es ++ fs) ↔ AlwaysFrom P past es ∧ AlwaysFrom P (past ++ es) fs := by
  induction es generalizing past with
  | nil => simp [AlwaysFrom]
  | cons e es ih =>
    rw [List.cons_append, AlwaysFrom, AlwaysFrom, ih, and_assoc]
    simp

theorem Always.concat {P : List E → E → Prop} {es : List E} {e : E} (h : Always P es)
    (he : P es e) : Always P (es ++ [e]) :=
  AlwaysFrom.append.mpr ⟨h, he, trivial⟩

/-- Events that meet `P` whatever came before them. -/
theorem Always.append {P : List E → E → Prop} {es fs : List E} (h : Always P es)
    (hfs : ∀ e ∈ fs, ∀ past, P past e) : Always P (es ++ fs) := by
  refine AlwaysFrom.append.mpr ⟨h, ?_⟩
  generalize [] ++ es = past
  induction fs generalizing past with
  | nil => trivial
  | cons e fs ih =>
    exact ⟨hfs e List.mem_cons_self past,
      ih (fun e' he' => hfs e' (List.mem_cons_of_mem _ he')) _⟩

/-- At any point of the trace. -/
theorem Always.split {P : List E → E → Prop} {es fs : List E} {e : E}
    (h : Always P (es ++ e :: fs)) : P es e :=
  (AlwaysFrom.append.mp h).2.1

theorem AlwaysFrom.imp {P Q : List E → E → Prop} (h : ∀ past e, P past e → Q past e) :
    ∀ {past es : List E}, AlwaysFrom P past es → AlwaysFrom Q past es
  | _, [], _ => trivial
  | _, _ :: _, hP => ⟨h _ _ hP.1, imp h hP.2⟩

instance AlwaysFrom.decidable {P : List E → E → Prop} [hP : ∀ past e, Decidable (P past e)] :
    ∀ past es, Decidable (AlwaysFrom P past es)
  | _, [] => isTrue trivial
  | past, e :: es =>
    have : Decidable (AlwaysFrom P (past ++ [e]) es) := AlwaysFrom.decidable (past ++ [e]) es
    inferInstanceAs (Decidable (P past e ∧ AlwaysFrom P (past ++ [e]) es))

/-! ## Labelled steps -/

variable {S : Type}

inductive Steps (R : S → E → S → Prop) : S → List E → S → Prop
  | nil (s : S) : Steps R s [] s
  | cons {s m t : S} {e : E} {es : List E} : R s e m → Steps R m es t → Steps R s (e :: es) t

namespace Steps
variable {R : S → E → S → Prop} {s m t : S} {es fs : List E}

theorem single {e : E} (h : R s e t) : Steps R s [e] t := .cons h (.nil t)

theorem append (h : Steps R s es m) (h' : Steps R m fs t) : Steps R s (es ++ fs) t := by
  induction h with
  | nil => exact h'
  | cons hr _ ih => exact .cons hr (ih h')

/-- The same label-indexed step, any number of times, from a state it stays in. -/
theorem loop (h : ∀ e ∈ es, R s e s) : Steps R s es s := by
  induction es with
  | nil => exact .nil s
  | cons e es ih =>
    exact .cons (h e List.mem_cons_self) (ih fun e' he' => h e' (List.mem_cons_of_mem _ he'))

/-- What each step keeps, of the trace so far and the state, the steps keep. -/
theorem invariant {J : List E → S → Prop}
    (hstep : ∀ past s e t, J past s → R s e t → J (past ++ [e]) t) {past : List E}
    (hs : J past s) (h : Steps R s es t) : J (past ++ es) t := by
  induction h generalizing past with
  | nil => simpa using hs
  | cons hr _ ih => simpa using ih (hstep _ _ _ _ hs hr)

/-- The same for a property of the state alone. -/
theorem keeps {I : S → Prop} (hstep : ∀ s e t, I s → R s e t → I t) (hs : I s)
    (h : Steps R s es t) : I t := by
  induction h with
  | nil => exact hs
  | cons hr _ ih => exact ih (hstep _ _ _ hs hr)

/-- What is known of the events may be used in each step. -/
theorem restrict {P : E → Prop} (h : Steps R s es t) (hes : ∀ e ∈ es, P e) :
    Steps (fun s e t => R s e t ∧ P e) s es t := by
  induction h with
  | nil s => exact .nil s
  | cons hr _ ih =>
    exact .cons ⟨hr, hes _ List.mem_cons_self⟩
      (ih fun e he => hes e (List.mem_cons_of_mem _ he))

end Steps
end Lib
