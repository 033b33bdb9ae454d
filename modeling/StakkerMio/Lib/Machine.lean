import Mathlib.Data.List.Induction
import Mathlib.Tactic.Common

/-! # Calls, and runs of calls

`Exec` is what becomes of a call of an imperative program whose I/O outcomes
are given from outside as a finite script. `run` folds a step function over a
list of operations; the rules below carry an invariant, a condition met by
every step, or a simulation from one step to whole runs. -/
namespace Lib

/-- What becomes of a call: it returns, it panics, its script of I/O outcomes
ends before it has returned, or its loop fuel does. -/
inductive Exec (α : Type) where
  | ret (a : α)
  | panic
  | wait
  | fuel
  deriving Repr, DecidableEq

namespace Exec
variable {α β γ : Type}

def bind : Exec α → (α → Exec β) → Exec β
  | ret a, k => k a
  | panic, _ => panic
  | wait, _ => wait
  | fuel, _ => fuel

instance : Monad Exec where
  pure := ret
  bind := bind

@[simp] theorem pure_eq (a : α) : (pure a : Exec α) = ret a := rfl
@[simp] theorem ret_bind (a : α) (k : α → Exec β) : (ret a >>= k) = k a := rfl
@[simp] theorem panic_bind (k : α → Exec β) : (panic >>= k) = panic := rfl
@[simp] theorem wait_bind (k : α → Exec β) : (wait >>= k) = wait := rfl
@[simp] theorem fuel_bind (k : α → Exec β) : (fuel >>= k) = fuel := rfl

theorem bind_assoc' (x : Exec α) (f : α → Exec β) (g : β → Exec γ) :
    (x >>= f) >>= g = x >>= fun a => f a >>= g := by
  cases x <;> rfl

instance : LawfulMonad Exec :=
  LawfulMonad.mk' _ (fun x => by cases x <;> rfl) (fun _ _ => rfl) bind_assoc'

/-- A computation that returned went through every stage. -/
theorem bind_eq_ret {x : Exec α} {k : α → Exec β} {b : β} :
    (x >>= k) = ret b ↔ ∃ a, x = ret a ∧ k a = ret b := by
  cases x <;> simp

theorem map_eq_ret {x : Exec α} {f : α → β} {b : β} :
    f <$> x = ret b ↔ ∃ a, x = ret a ∧ f a = b := by
  cases x with
  | ret a =>
    constructor
    · intro h
      cases h
      exact ⟨a, rfl, rfl⟩
    · rintro ⟨a', ha, rfl⟩
      cases ha
      rfl
  | panic | wait | fuel =>
    constructor
    · intro h
      cases h
    · rintro ⟨a', ha, -⟩
      cases ha

theorem bind_ne_fuel {x : Exec α} {k : α → Exec β} (hx : x ≠ fuel) (hk : ∀ a, k a ≠ fuel) :
    (x >>= k) ≠ fuel := by
  cases x with
  | ret a => exact hk a
  | panic | wait => exact nofun
  | fuel => exact absurd rfl hx

theorem bind_ne_panic {x : Exec α} {k : α → Exec β} (hx : x ≠ panic)
    (hk : ∀ a, x = ret a → k a ≠ panic) : (x >>= k) ≠ panic := by
  cases x with
  | ret a => exact hk a rfl
  | fuel | wait => exact nofun
  | panic => exact absurd rfl hx

/-- The call has returned, or waits for an outcome. -/
def Over (x : Exec α) : Prop := x = wait ∨ ∃ a, x = ret a

instance (x : Exec α) : Decidable (x = panic) :=
  match x with
  | panic => isTrue rfl
  | ret _ | wait | fuel => isFalse nofun

theorem over_of_ne {x : Exec α} (hp : x ≠ panic) (hf : x ≠ fuel) : x.Over := by
  cases x with
  | ret a => exact .inr ⟨a, rfl⟩
  | wait => exact .inl rfl
  | panic => exact absurd rfl hp
  | fuel => exact absurd rfl hf

theorem Over.bind {x : Exec α} {k : α → Exec β} (hx : x.Over) (hk : ∀ a, (k a).Over) :
    (x >>= k).Over := by
  rcases hx with rfl | ⟨a, rfl⟩
  · exact .inl rfl
  · exact hk a

theorem Over.map {x : Exec α} (hx : x.Over) (f : α → β) : (f <$> x).Over := by
  rcases hx with rfl | ⟨a, rfl⟩
  · exact .inl rfl
  · exact .inr ⟨f a, rfl⟩

def isRet : Exec α → Bool
  | ret _ => true
  | _ => false

theorem exists_ret {x : Exec α} (h : x.isRet = true) : ∃ a, x = ret a := by
  cases x with
  | ret a => exact ⟨a, rfl⟩
  | _ => cases h

/-- It returned, and the result passes the test. -/
def returns (p : α → Bool) : Exec α → Bool
  | ret a => p a
  | _ => false

theorem exists_ret_of {x : Exec α} {p : α → Bool} (h : x.returns p = true) :
    ∃ a, x = ret a ∧ p a = true := by
  cases x with
  | ret a => exact ⟨a, rfl, h⟩
  | _ => cases h

end Exec

section Run
variable {S A : Type} {step : S → A → Exec S}

/-- The state after a list of operations, each of which returned. -/
def run (step : S → A → Exec S) (s : S) (as : List A) : Exec S := as.foldlM step s

@[simp] theorem run_nil (s : S) : run step s [] = .ret s := rfl

@[simp] theorem run_cons (s : S) (a : A) (as : List A) :
    run step s (a :: as) = step s a >>= fun m => run step m as := rfl

theorem run_append (s : S) (as bs : List A) :
    run step s (as ++ bs) = run step s as >>= fun m => run step m bs :=
  List.foldlM_append

theorem run_cons_eq_ret {s t : S} {a : A} {as : List A} :
    run step s (a :: as) = .ret t ↔ ∃ m, step s a = .ret m ∧ run step m as = .ret t := by
  rw [run_cons, Exec.bind_eq_ret]

/-- What every step keeps, every run keeps. -/
theorem run_invariant {I : S → Prop} (hstep : ∀ s a t, I s → step s a = .ret t → I t) :
    ∀ {as : List A} {s t : S}, I s → run step s as = .ret t → I t
  | [], s, t, hs, h => by
    rw [run_nil] at h
    cases h
    exact hs
  | a :: as, s, t, hs, h => by
    obtain ⟨m, hm, h⟩ := run_cons_eq_ret.mp h
    exact run_invariant hstep (hstep s a m hs hm) h

/-- The same for a property of the state and the operations that led to it. -/
theorem run_history {J : List A → S → Prop} {s₀ : S} (h₀ : J [] s₀)
    (hstep : ∀ as s a t, J as s → step s a = .ret t → J (as ++ [a]) t) {as : List A} {t : S}
    (h : run step s₀ as = .ret t) : J as t := by
  induction as using List.reverseRecOn generalizing t with
  | nil =>
    cases h
    exact h₀
  | append_singleton as a ih =>
    rw [run_append] at h
    obtain ⟨m, hm, h⟩ := Exec.bind_eq_ret.mp h
    obtain ⟨t', ht, h⟩ := run_cons_eq_ret.mp h
    cases h
    exact hstep as m a t (ih hm) ht

/-- If no step panics in a state with the invariant, no run does. -/
theorem run_ne_panic {I : S → Prop} (hstep : ∀ s a t, I s → step s a = .ret t → I t)
    (hsafe : ∀ s a, I s → step s a ≠ .panic) :
    ∀ {as : List A} {s : S}, I s → run step s as ≠ .panic
  | [], s, _, h => by cases h
  | a :: as, s, hs, h => by
    rw [run_cons] at h
    cases ha : step s a with
    | ret m =>
      rw [ha, Exec.ret_bind] at h
      exact run_ne_panic hstep hsafe (hstep s a m hs ha) h
    | panic => exact hsafe s a hs ha
    | wait =>
      rw [ha] at h
      cases h
    | fuel =>
      rw [ha] at h
      cases h

/-- Every operation of the run meets the condition in the state it starts from. -/
def Meets (step : S → A → Exec S) (P : S → A → Prop) : S → List A → Prop
  | _, [] => True
  | s, a :: as => P s a ∧ ∀ m, step s a = .ret m → Meets step P m as

instance Meets.decidable {P : S → A → Prop} [hP : ∀ s a, Decidable (P s a)] :
    ∀ (s : S) (as : List A), Decidable (Meets step P s as)
  | _, [] => isTrue trivial
  | s, a :: as =>
    have : Decidable (∀ m, step s a = .ret m → Meets step P m as) :=
      match step s a with
      | .ret m => @decidable_of_iff _ _
          ⟨fun h _ hm => Exec.ret.inj hm ▸ h, fun h => h m rfl⟩ (Meets.decidable m as)
      | .panic => isTrue fun _ hm => nomatch hm
      | .wait => isTrue fun _ hm => nomatch hm
      | .fuel => isTrue fun _ hm => nomatch hm
    inferInstanceAs (Decidable (_ ∧ _))

theorem Meets.append {P : S → A → Prop} {as bs : List A} {s : S}
    (h : Meets step P s (as ++ bs)) :
    Meets step P s as ∧ ∀ m, run step s as = .ret m → Meets step P m bs := by
  induction as generalizing s with
  | nil =>
    refine ⟨trivial, fun m hm => ?_⟩
    cases hm
    exact h
  | cons a as ih =>
    refine ⟨⟨h.1, fun m hm => (ih (h.2 m hm)).1⟩, fun t ht => ?_⟩
    obtain ⟨m, hm, ht⟩ := run_cons_eq_ret.mp ht
    exact (ih (h.2 m hm)).2 t ht

theorem Meets.mono {P Q : S → A → Prop} (h : ∀ s a, P s a → Q s a) :
    ∀ {as : List A} {s : S}, Meets step P s as → Meets step Q s as
  | [], _, _ => trivial
  | a :: _, s, hm => ⟨h s a hm.1, fun m ha => Meets.mono h (hm.2 m ha)⟩

/-- An invariant that a step keeps under its condition holds after every run
whose steps meet the condition. -/
theorem Meets.invariant {P : S → A → Prop} {I : S → Prop}
    (hstep : ∀ s a t, I s → P s a → step s a = .ret t → I t) :
    ∀ {as : List A} {s t : S}, Meets step P s as → I s → run step s as = .ret t → I t
  | [], s, t, _, hs, h => by
    rw [run_nil] at h
    cases h
    exact hs
  | a :: as, s, t, hm, hs, h => by
    obtain ⟨m, ha, h⟩ := run_cons_eq_ret.mp h
    exact Meets.invariant hstep (hm.2 m ha) (hstep s a m hs hm.1 ha) h

/-- A condition that follows from an invariant and a property of the operation
alone is met by every run of such operations. -/
theorem Meets.of_invariant {P : S → A → Prop} {Q : A → Prop} {I : S → Prop}
    (hstep : ∀ s a t, I s → Q a → step s a = .ret t → I t) (hP : ∀ s a, I s → Q a → P s a) :
    ∀ {as : List A} {s : S}, (∀ a ∈ as, Q a) → I s → Meets step P s as
  | [], _, _, _ => trivial
  | a :: _, s, hq, hs =>
    have ha := hq a List.mem_cons_self
    ⟨hP s a hs ha, fun m hm => Meets.of_invariant hstep hP
      (fun b hb => hq b (List.mem_cons_of_mem _ hb)) (hstep s a m hs ha hm)⟩

/-- An invariant that the operations of one kind keep holds after every run of them. -/
theorem run_invariant_of {Q : A → Prop} {I : S → Prop}
    (hstep : ∀ s a t, I s → Q a → step s a = .ret t → I t) {as : List A} {s t : S}
    (hq : ∀ a ∈ as, Q a) (hs : I s) (h : run step s as = .ret t) : I t :=
  (Meets.of_invariant hstep (fun _ _ _ ha => ha) hq hs).invariant hstep hs h

/-- If every step waits or returns with the invariant, so does every run. -/
theorem run_over {Q : A → Prop} {I : S → Prop}
    (hstep : ∀ s a, I s → Q a → step s a = .wait ∨ ∃ t, step s a = .ret t ∧ I t) :
    ∀ {as : List A} {s : S}, (∀ a ∈ as, Q a) → I s →
      run step s as = .wait ∨ ∃ t, run step s as = .ret t ∧ I t
  | [], s, _, hs => .inr ⟨s, rfl, hs⟩
  | a :: as, s, hq, hs => by
    rw [run_cons]
    rcases hstep s a hs (hq a List.mem_cons_self) with hw | ⟨m, hm, hi⟩
    · rw [hw]
      exact .inl rfl
    · rw [hm, Exec.ret_bind]
      exact run_over hstep (fun b hb => hq b (List.mem_cons_of_mem _ hb)) hi

/-- A condition that follows from another one and an invariant kept under it. -/
theorem Meets.imp {P Q : S → A → Prop} {I : S → Prop}
    (hstep : ∀ s a t, I s → P s a → step s a = .ret t → I t) (hQ : ∀ s a, I s → P s a → Q s a) :
    ∀ {as : List A} {s : S}, Meets step P s as → I s → Meets step Q s as
  | [], _, _, _ => trivial
  | a :: _, s, hm, hs =>
    ⟨hQ s a hs hm.1, fun m ha => Meets.imp hstep hQ (hm.2 m ha) (hstep s a m hs hm.1 ha)⟩

/-- What the condition says of an operation alone holds of each operation of a
run that returned. -/
theorem Meets.all {P : S → A → Prop} {Q : A → Prop} (hQ : ∀ s a, P s a → Q a) :
    ∀ {as : List A} {s t : S}, Meets step P s as → run step s as = .ret t → ∀ a ∈ as, Q a
  | [], _, _, _, _, a, ha => by cases ha
  | a :: as, s, t, hm, h, b, hb => by
    obtain ⟨m, ha, h⟩ := run_cons_eq_ret.mp h
    rcases List.mem_cons.mp hb with rfl | hb
    · exact hQ s b hm.1
    · exact Meets.all hQ (hm.2 m ha) h b hb

/-- If a step from a good state leads to a good one exactly under the condition, all
states of a run are good exactly if each of its steps meets the condition. -/
theorem Meets.states_iff {G I : S → Prop} {P : S → A → Prop}
    (hI : ∀ s a t, I s → G s → step s a = .ret t → I t)
    (hstep : ∀ s a t, I s → G s → step s a = .ret t → (G t ↔ P s a)) :
    ∀ {as : List A} {s t : S}, I s → G s → run step s as = .ret t →
      ((Meets step (fun s _ => G s) s as ∧ G t) ↔ Meets step P s as)
  | [], s, t, _, hs, h => by
    cases h
    exact ⟨fun _ => trivial, fun _ => ⟨trivial, hs⟩⟩
  | a :: as, s, t, hi, hs, h => by
    obtain ⟨m, ha, h⟩ := run_cons_eq_ret.mp h
    have hm := hI s a m hi hs ha
    constructor
    · rintro ⟨⟨-, hmeets⟩, ht⟩
      have hgood : G m := by
        cases as with
        | nil =>
          cases h
          exact ht
        | cons b bs => exact (hmeets m ha).1
      have hrest := (Meets.states_iff hI hstep hm hgood h).mp ⟨hmeets m ha, ht⟩
      refine ⟨(hstep s a m hi hs ha).mp hgood, fun m' ha' => ?_⟩
      rw [ha] at ha'
      cases ha'
      exact hrest
    · rintro ⟨hp, hmeets⟩
      have hgood := (hstep s a m hi hs ha).mpr hp
      obtain ⟨hrest, ht⟩ := (Meets.states_iff hI hstep hm hgood h).mpr (hmeets m ha)
      refine ⟨⟨hs, fun m' ha' => ?_⟩, ht⟩
      rw [ha] at ha'
      cases ha'
      exact hrest

/-- What the operations of a run add up to. -/
def tally (step : S → A → Exec S) (f : S → A → Nat) : S → List A → Nat
  | _, [] => 0
  | s, a :: as => f s a + match step s a with
    | .ret m => tally step f m as
    | _ => 0

/-- If each step does what is waited for, or keeps the invariant and lowers the rank, by one
if it counts, but for what it adds itself, then it is done in some step of the run, or no
more steps count than the rank and the additions allow. -/
theorem Meets.until {P : S → A → Prop} {I : S → Prop} {D : S → A → S → Prop} {rank : S → Nat}
    {counts : A → Bool} {added : S → A → Nat}
    (hstep : ∀ s a t, I s → P s a → step s a = .ret t →
      D s a t ∨ I t ∧ (counts a).toNat + rank t ≤ rank s + added s a) :
    ∀ {as : List A} {s t : S}, Meets step P s as → I s → run step s as = .ret t →
      (∃ pre a post u v, as = pre ++ a :: post ∧ run step s pre = .ret u ∧ step u a = .ret v ∧
        D u a v) ∨ I t ∧ as.countP counts + rank t ≤ rank s + tally step added s as
  | [], s, t, _, hs, h => by
    cases h
    exact .inr ⟨hs, by simp [tally]⟩
  | a :: as, s, t, hm, hs, h => by
    obtain ⟨m, ha, h⟩ := run_cons_eq_ret.mp h
    rcases hstep s a m hs hm.1 ha with hdone | ⟨hi, hle⟩
    · exact .inl ⟨[], a, as, s, m, rfl, rfl, ha, hdone⟩
    · rcases Meets.until hstep (hm.2 m ha) hi h with ⟨pre, b, post, u, v, rfl, hu, hv, hdone⟩ |
        ⟨hlast, hrest⟩
      · exact .inl ⟨a :: pre, b, post, u, v, rfl, run_cons_eq_ret.mpr ⟨m, ha, hu⟩, hv, hdone⟩
      · refine .inr ⟨hlast, ?_⟩
        have hcount : (a :: as).countP counts = as.countP counts + (counts a).toNat := by
          rw [List.countP_cons]
          cases counts a <;> rfl
        rw [hcount, tally, ha]
        dsimp only
        omega

end Run

section Map
variable {S T A B : Type} {step : S → A → Exec S} {step' : T → B → Exec T}

@[simp] theorem Exec.map_ret {α β : Type} (f : α → β) (a : α) : f <$> Exec.ret a = .ret (f a) := rfl
@[simp] theorem Exec.map_panic {α β : Type} (f : α → β) : f <$> Exec.panic = .panic := rfl
@[simp] theorem Exec.map_wait {α β : Type} (f : α → β) : f <$> Exec.wait = .wait := rfl
@[simp] theorem Exec.map_fuel {α β : Type} (f : α → β) : f <$> Exec.fuel = .fuel := rfl

/-- Functional simulation of one computation after another. -/
theorem Exec.bind_map {α α' β β' : Type} {x : Exec α} {x' : Exec α'} {k : α → Exec β}
    {k' : α' → Exec β'} {f : α → α'} {g : β → β'} (hx : x' = f <$> x)
    (hk : ∀ a, x = .ret a → k' (f a) = g <$> k a) : (x' >>= k') = g <$> (x >>= k) := by
  rw [hx]
  cases x with
  | ret a => exact hk a rfl
  | _ => rfl

/-- Functional simulation: if each step of one machine is, seen through `f`, a step
of the other, each run is a run. -/
theorem run_map {f : S → T} {g : A → B} {I : S → Prop}
    (hI : ∀ s a t, I s → step s a = .ret t → I t)
    (hstep : ∀ s a, I s → step' (f s) (g a) = f <$> step s a) :
    ∀ (as : List A) {s : S}, I s → run step' (f s) (as.map g) = f <$> run step s as
  | [], _, _ => rfl
  | a :: as, s, hs => by
    rw [List.map_cons, run_cons, run_cons, hstep s a hs]
    cases ha : step s a with
    | ret m => exact run_map hI hstep as (hI s a m hs ha)
    | _ => rfl

/-- The same operations on both sides. -/
theorem run_map_id {step' : T → A → Exec T} {f : S → T} {I : S → Prop}
    (hI : ∀ s a t, I s → step s a = .ret t → I t)
    (hstep : ∀ s a, I s → step' (f s) a = f <$> step s a) (as : List A) {s : S} (hs : I s) :
    run step' (f s) as = f <$> run step s as := by
  have h := run_map (g := id) hI hstep as hs
  rwa [List.map_id] at h

end Map
end Lib
