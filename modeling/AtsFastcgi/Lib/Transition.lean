/-
Runs of a reactive system under a guard on its events.  A step is a partial
function: `none` means that the program has no defined behaviour on the event.
The guard is what the environment promises, so one system carries several
notions of run and an invariant of the weaker guard serves the stronger one.
-/
import Mathlib.Logic.Basic

namespace Transition

universe u v

/-- An initial state and a partial step function. -/
structure System (S : Type u) (E : Type v) where
  init : S → Prop
  step : S → E → Option S

variable {S : Type u} {E : Type v}

/-- The runs that go on from a state. -/
def System.startingAt (M : System S E) (s : S) : System S E :=
  { M with init := (· = s) }

/-- The states reached from an initial one by events that pass `guard`. -/
inductive Reach (M : System S E) (guard : S → E → Prop) : S → Prop
  | init {s : S} (hinit : M.init s) : Reach M guard s
  | step {s s' : S} {e : E} (hreach : Reach M guard s) (hguard : guard s e)
      (hstep : M.step s e = some s') : Reach M guard s'

variable {M : System S E} {guard guard' : S → E → Prop}

/-- Fewer promises of the environment mean more runs. -/
theorem Reach.mono (hle : ∀ s e, guard s e → guard' s e) {s : S}
    (hreach : Reach M guard s) : Reach M guard' s := by
  induction hreach with
  | init hinit => exact .init hinit
  | step _ hguard hstep ih => exact .step ih (hle _ _ hguard) hstep

/-- A property of the initial states that each step from a reached state
preserves holds of every reached state. -/
theorem Reach.invariant {P : S → Prop} (hinit : ∀ s, M.init s → P s)
    (hstep : ∀ s e s', Reach M guard s → P s → guard s e →
      M.step s e = some s' → P s')
    {s : S} (hreach : Reach M guard s) : P s := by
  induction hreach with
  | init hs => exact hinit _ hs
  | step hprev hguard hnext ih => exact hstep _ _ _ hprev ih hguard hnext

/-- The invariant rule while a bound lasts: `bound` never comes back once a
step has left it, and the step is only checked where it still holds after. -/
theorem Reach.invariant_while {P bound : S → Prop}
    (hback : ∀ s e s', M.step s e = some s' → bound s' → bound s)
    (hinit : ∀ s, M.init s → P s)
    (hstep : ∀ s e s', Reach M guard s → P s → guard s e → bound s' →
      M.step s e = some s' → P s')
    {s : S} (hreach : Reach M guard s) (hbound : bound s) : P s := by
  induction hreach with
  | init hs => exact hinit _ hs
  | step hprev hguard hnext ih =>
      have hs := ih (hback _ _ _ hnext hbound)
      exact hstep _ _ _ hprev hs hguard hbound hnext

/-- Run a list of events, stopping at the first one the guard refuses. -/
def replay (M : System S E) (guard : S → E → Prop)
    [∀ s e, Decidable (guard s e)] : S → List E → Option S
  | s, [] => some s
  | s, e :: rest =>
      if guard s e then
        match M.step s e with
        | some s' => replay M guard s' rest
        | none => none
      else none

/-- A replayed list of events is a run. -/
theorem Reach.of_replay [∀ s e, Decidable (guard s e)] {s s' : S}
    (hreach : Reach M guard s) {events : List E}
    (hreplay : replay M guard s events = some s') : Reach M guard s' := by
  induction events generalizing s with
  | nil =>
      simp only [replay, Option.some.injEq] at hreplay
      exact hreplay ▸ hreach
  | cons e rest ih =>
      simp only [replay] at hreplay
      split at hreplay
      · next hguard =>
          split at hreplay
          · next s₁ hnext => exact ih (.step hreach hguard hnext) hreplay
          · contradiction
      · contradiction

/-- The state after a replay that goes through. -/
def after (M : System S E) (guard : S → E → Prop)
    [∀ s e, Decidable (guard s e)] (s : S) (events : List E) : S :=
  (replay M guard s events).getD s

theorem Reach.after [∀ s e, Decidable (guard s e)] {s : S}
    (hreach : Reach M guard s) {events : List E}
    (hthrough : (replay M guard s events).isSome = true) :
    Reach M guard (Transition.after M guard s events) := by
  obtain ⟨s', hreplay⟩ := Option.isSome_iff_exists.mp hthrough
  rw [Transition.after, hreplay]
  exact .of_replay hreach hreplay

/-- A replay that goes through, with what is checked of its last state. -/
theorem Reach.after_and [∀ s e, Decidable (guard s e)] {s : S}
    (hreach : Reach M guard s) {events : List E} {p : Prop}
    (hrun : (replay M guard s events).isSome = true ∧ p) :
    Reach M guard (Transition.after M guard s events) ∧ p :=
  ⟨hreach.after hrun.1, hrun.2⟩

end Transition
