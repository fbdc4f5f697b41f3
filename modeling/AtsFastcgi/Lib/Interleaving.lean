/-
Threads that run one program on shared state, each with data of its own.  A
step of the interleaving is a step of one thread; which thread is next is up
to the events.
-/
import AtsFastcgi.Lib.Transition
import Mathlib.Algebra.BigOperators.Group.Finset.Piecewise
import Mathlib.Algebra.Group.Action.Defs
import Mathlib.Algebra.Order.BigOperators.Group.Finset

namespace Transition

universe u v w x

/-- What all threads read and write, and what each has for itself. -/
structure Threads (T : Type u) (G : Type v) (L : Type w) where
  shared : G
  own : T → L

/-- A step of the program, seen from one thread. -/
abbrev Program (G : Type v) (L : Type w) (E : Type x) :=
  G → L → E → Option (G × L)

variable {T : Type u} {G : Type v} {L : Type w} {E : Type x}

/-! ### Measures of all threads together -/

section Total

variable [Fintype T]

/-- The sum of a measure of the threads' own data. -/
def Threads.total (p : Threads T G L) (measure : L → Nat) : Nat :=
  Finset.univ.sum fun t => measure (p.own t)

theorem Threads.total_le (p : Threads T G L) {measure : L → Nat} {bound : Nat}
    (hle : ∀ t, measure (p.own t) ≤ bound) :
    p.total measure ≤ Fintype.card T * bound := by
  have hsum := Finset.sum_le_card_nsmul Finset.univ
    (fun t => measure (p.own t)) bound fun t _ => hle t
  rw [Finset.card_univ, smul_eq_mul] at hsum
  exact hsum

/-- Below the sum of the bounds, some thread is below its bound. -/
theorem Threads.exists_lt_of_total_lt (p : Threads T G L) {measure : L → Nat}
    {bound : Nat} (hlt : p.total measure < Fintype.card T * bound) :
    ∃ t, measure (p.own t) < bound := by
  have hsum : (Finset.univ.sum fun t => measure (p.own t)) <
      Finset.univ.sum fun _ : T => bound := by
    rw [Finset.sum_const, Finset.card_univ, smul_eq_mul]
    exact hlt
  obtain ⟨t, -, ht⟩ := Finset.exists_lt_of_sum_lt hsum
  exact ⟨t, ht⟩

end Total

/-! ### Runs -/

variable [DecidableEq T]

/-- One thread takes a step. -/
def Threads.step (program : Program G L E) (p : Threads T G L) (e : T × E) :
    Option (Threads T G L) :=
  (program p.shared (p.own e.1) e.2).map fun r =>
    { shared := r.1, own := Function.update p.own e.1 r.2 }

/-- The threads of `T`, which all start with the same data. -/
def interleaving (T : Type u) [DecidableEq T] (program : Program G L E)
    (shared : G) (own : L) : System (Threads T G L) (T × E) where
  init p := p = { shared, own := fun _ => own }
  step p e := p.step program e

variable {program : Program G L E} {p p' : Threads T G L} {t : T} {e : E}

/-- What a step leaves. -/
theorem Threads.step_eq_some :
    p.step program (t, e) = some p' ↔
      ∃ l, program p.shared (p.own t) e = some (p'.shared, l) ∧
        p'.own = Function.update p.own t l := by
  simp only [step, Option.map_eq_some_iff, Prod.exists]
  constructor
  · rintro ⟨g, l, hstep, rfl⟩
    exact ⟨l, hstep, rfl⟩
  · rintro ⟨l, hstep, hown⟩
    exact ⟨p'.shared, l, hstep, congrArg (Threads.mk p'.shared) hown.symm⟩

variable {guard : Threads T G L → T × E → Prop} {shared : G} {own : L}

/-- What the program keeps of the data of the thread it runs on holds of every
thread, in any interleaving and whatever the others do to the shared state. -/
theorem Reach.own_invariant {P : L → Prop} (hinit : P own)
    (hstep : ∀ g l e g' l', program g l e = some (g', l') → P l → P l')
    (hreach : Reach (interleaving T program shared own) guard p) (t : T) :
    P (p.own t) := by
  have hall : ∀ t, P (p.own t) := by
    apply @Reach.invariant _ _ _ _ (fun p => ∀ t, P (p.own t)) _ _ p hreach
    · rintro p rfl t
      exact hinit
    · rintro p ⟨t, e⟩ p' - hp - hnext t'
      obtain ⟨l, hrun, hown⟩ := Threads.step_eq_some.mp hnext
      rw [hown]
      by_cases ht : t' = t
      · rw [ht, Function.update_self]
        exact hstep _ _ _ _ _ hrun (hp t)
      · rw [Function.update_of_ne ht]
        exact hp t'
  exact hall t

/-- A thread that adds one to its measure adds one to the sum. -/
theorem Threads.total_update [Fintype T] {l : L} {measure : L → Nat}
    (hown : p'.own = Function.update p.own t l)
    (hmore : measure l = measure (p.own t) + 1) :
    p'.total measure = p.total measure + 1 := by
  have hcomp : (fun t' => measure (p'.own t')) =
      Function.update (fun t' => measure (p.own t')) t (measure l) := by
    rw [hown]
    exact Function.comp_update measure p.own t l
  rw [total, total, hcomp, Finset.sum_update_of_mem (Finset.mem_univ t), hmore,
    Finset.sum_eq_add_sum_sdiff_singleton_of_mem (Finset.mem_univ t)]
  exact Nat.add_right_comm _ _ _

end Transition
