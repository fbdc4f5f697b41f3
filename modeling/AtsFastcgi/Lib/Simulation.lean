/-
Runs with their events, and forward simulations of a reactive system by another
one.  The abstraction is a function of the state, and the action that an event
stands for is one of the state and the event, so a run of the program determines
the run of its abstraction.
-/
import AtsFastcgi.Lib.Transition
import Mathlib.Data.List.Basic

namespace Transition

universe u v w x

variable {S : Type u} {E : Type v} {T : Type w} {F : Type x}

/-- The events lead from one state to another. -/
inductive Run (M : System S E) (guard : S → E → Prop) : S → List E → S → Prop
  | nil (s : S) : Run M guard s [] s
  | cons {s s₁ s' : S} {e : E} {events : List E} (hguard : guard s e)
      (hstep : M.step s e = some s₁) (hrun : Run M guard s₁ events s') :
      Run M guard s (e :: events) s'

section Runs

variable {M : System S E} {guard : S → E → Prop} {s s' : S} {events : List E}

theorem Reach.run (hreach : Reach M guard s) (hrun : Run M guard s events s') :
    Reach M guard s' := by
  induction hrun with
  | nil => exact hreach
  | cons hguard hstep _ ih => exact ih (.step hreach hguard hstep)

theorem Run.append {s₁ : S} {later : List E} (hrun : Run M guard s events s₁)
    (hlater : Run M guard s₁ later s') :
    Run M guard s (events ++ later) s' := by
  induction hrun with
  | nil => exact hlater
  | cons hguard hstep _ ih => exact .cons hguard hstep (ih hlater)

/-- Fewer promises of the environment mean more runs. -/
theorem Run.mono {guard' : S → E → Prop}
    (hle : ∀ s e, guard s e → guard' s e) (hrun : Run M guard s events s') :
    Run M guard' s events s' := by
  induction hrun with
  | nil s => exact .nil s
  | cons hguard hstep _ ih => exact .cons (hle _ _ hguard) hstep ih

/-- A run through a list of events goes through any front of it. -/
theorem Run.split {later : List E} (hrun : Run M guard s (events ++ later) s') :
    ∃ s₁, Run M guard s events s₁ ∧ Run M guard s₁ later s' := by
  induction events generalizing s with
  | nil => exact ⟨s, .nil s, hrun⟩
  | cons e rest ih =>
      cases hrun with
      | cons hguard hstep hrest =>
          obtain ⟨s₁, hfront, hback⟩ := ih hrest
          exact ⟨s₁, .cons hguard hstep hfront, hback⟩

/-- Every reached state is the end of a run. -/
theorem Reach.exists_run (hreach : Reach M guard s) :
    ∃ s₀ events, M.init s₀ ∧ Run M guard s₀ events s := by
  induction hreach with
  | init hinit => exact ⟨_, [], hinit, .nil _⟩
  | step _ hguard hstep ih =>
      obtain ⟨s₀, events, hinit, hrun⟩ := ih
      exact ⟨s₀, events ++ [_], hinit,
        hrun.append (.cons hguard hstep (.nil _))⟩

/-- A replayed list of events is a run with these events. -/
theorem Run.of_replay [∀ s e, Decidable (guard s e)]
    (hreplay : replay M guard s events = some s') :
    Run M guard s events s' := by
  induction events generalizing s with
  | nil =>
      simp only [replay, Option.some.injEq] at hreplay
      exact hreplay ▸ .nil s
  | cons e rest ih =>
      simp only [replay] at hreplay
      split at hreplay
      · next hguard =>
          split at hreplay
          · next hnext => exact .cons hguard hnext (ih hreplay)
          · contradiction
      · contradiction

theorem Run.after [∀ s e, Decidable (guard s e)]
    (hthrough : (replay M guard s events).isSome = true) :
    Run M guard s events (Transition.after M guard s events) := by
  obtain ⟨s', hreplay⟩ := Option.isSome_iff_exists.mp hthrough
  rw [Transition.after, hreplay]
  exact .of_replay hreplay

/-- What is kept backwards by every step holds all along a run at whose end it
holds. -/
theorem Run.bound_start {bound : S → Prop}
    (hback : ∀ s e s', M.step s e = some s' → bound s' → bound s)
    (hrun : Run M guard s events s') (hbound : bound s') : bound s := by
  induction hrun with
  | nil => exact hbound
  | cons _ hstep _ ih => exact hback _ _ _ hstep (ih hbound)

end Runs

/-- What the events of a run stand for. -/
def actions (M : System S E) (act : S → E → F) : S → List E → List F
  | _, [] => []
  | s, e :: rest =>
      act s e :: match M.step s e with
        | some s' => actions M act s' rest
        | none => []

theorem actions_cons {M : System S E} {act : S → E → F} {s s' : S} {e : E}
    (hstep : M.step s e = some s') (rest : List E) :
    actions M act s (e :: rest) = act s e :: actions M act s' rest := by
  rw [actions, hstep]

/-- The actions of a run through two lists of events. -/
theorem actions_append {M : System S E} {guard : S → E → Prop}
    (act : S → E → F) {s s₁ : S} {events : List E}
    (hrun : Run M guard s events s₁) (later : List E) :
    actions M act s (events ++ later) =
      actions M act s events ++ actions M act s₁ later := by
  induction hrun with
  | nil => rfl
  | cons _ hstep _ ih =>
      rw [List.cons_append, actions_cons hstep, ih, actions_cons hstep,
        List.cons_append]

/-- An action of a run is that of one of its events. -/
theorem Run.split_actions {M : System S E} {guard : S → E → Prop}
    {act : S → E → F} {s s' : S} {events : List E} {front back : List F}
    {f : F} (hrun : Run M guard s events s')
    (hactions : actions M act s events = front ++ f :: back) :
    ∃ before e after s₁ s₂, events = before ++ e :: after ∧
      Run M guard s before s₁ ∧ actions M act s before = front ∧
      guard s₁ e ∧ M.step s₁ e = some s₂ ∧ act s₁ e = f ∧
      Run M guard s₂ after s' := by
  induction hrun generalizing front with
  | nil s => exact absurd hactions.symm (List.append_ne_nil_of_right_ne_nil _
      (List.cons_ne_nil f back))
  | @cons s s₁ s' e rest hguard hstep hrest ih =>
      rw [actions_cons hstep] at hactions
      cases front with
      | nil =>
          rw [List.nil_append, List.cons.injEq] at hactions
          exact ⟨[], e, rest, s, s₁, rfl, .nil s, rfl, hguard, hstep,
            hactions.1, hrest⟩
      | cons g front =>
          rw [List.cons_append, List.cons.injEq] at hactions
          obtain ⟨hfirst, hlater⟩ := hactions
          obtain ⟨before, e', after, s₂, s₃, hevents, hbefore, hfront, hpass,
            hnext, hact, hafter⟩ := ih hlater
          refine ⟨e :: before, e', after, s₂, s₃, ?_, ?_, ?_, hpass, hnext,
            hact, hafter⟩
          · rw [hevents, List.cons_append]
          · exact .cons hguard hstep hbefore
          · rw [actions_cons hstep, hfirst, hfront]

/-- Runs, built from their end. -/
theorem Run.induction_end {M : System S E} {guard : S → E → Prop} {s₀ : S}
    {P : List E → S → Prop} (hnil : P [] s₀)
    (hsnoc : ∀ {events s e s'}, Run M guard s₀ events s → P events s →
      guard s e → M.step s e = some s' → P (events ++ [e]) s')
    {events : List E} {s : S} (hrun : Run M guard s₀ events s) :
    P events s := by
  have hall : ∀ (rest front : List E) (s₁ s : S), Run M guard s₀ front s₁ →
      P front s₁ → Run M guard s₁ rest s → P (front ++ rest) s := by
    intro rest
    induction rest with
    | nil =>
        intro front s₁ s hfront hP hrest
        cases hrest
        rw [List.append_nil]
        exact hP
    | cons e rest ih =>
        intro front s₁ s hfront hP hrest
        cases hrest with
        | cons hguard hstep hlater =>
            have hnext := ih (front ++ [e]) _ s
              (hfront.append (.cons hguard hstep (.nil _)))
              (hsnoc hfront hP hguard hstep) hlater
            rwa [List.append_assoc, List.singleton_append] at hnext
  exact hall events [] s₀ s (.nil s₀) hnil hrun

/-- The actions of a run and one more step. -/
theorem actions_concat {M : System S E} {guard : S → E → Prop}
    (act : S → E → F) {s s₁ s' : S} {events : List E} {e : E}
    (hrun : Run M guard s events s₁) (hstep : M.step s₁ e = some s') :
    actions M act s (events ++ [e]) =
      actions M act s events ++ [act s₁ e] := by
  rw [actions_append act hrun, actions_cons hstep]
  rfl

/-- What the guard says of the action of an event holds of every action of a
run. -/
theorem Run.forall_actions {M : System S E} {guard : S → E → Prop}
    {act : S → E → F} {P : F → Prop} {s s' : S} {events : List E}
    (hact : ∀ s e, guard s e → P (act s e))
    (hrun : Run M guard s events s') :
    ∀ f ∈ actions M act s events, P f := by
  induction hrun with
  | nil => exact fun f hf => absurd hf List.not_mem_nil
  | cons hguard hstep _ ih =>
      rw [actions_cons hstep]
      intro f hf
      rcases List.mem_cons.mp hf with rfl | hlater
      · exact hact _ _ hguard
      · exact ih f hlater

/-- Each step of `M` is one of `A`, as long as `bound` lasts.  `inv` is what
the steps of `M` keep, and all that is known of a state. -/
structure Simulation (M : System S E) (guard : S → E → Prop) (A : System T F)
    (allowed : T → F → Prop) (inv bound : S → Prop) (abs : S → T)
    (act : S → E → F) : Prop where
  back : ∀ s e s', M.step s e = some s' → bound s' → bound s
  keeps : ∀ {s e s'}, inv s → guard s e → bound s' → M.step s e = some s' →
    inv s'
  allowed : ∀ {s e s'}, inv s → guard s e → bound s' → M.step s e = some s' →
    allowed (abs s) (act s e)
  step : ∀ {s e s'}, inv s → guard s e → bound s' → M.step s e = some s' →
    A.step (abs s) (act s e) = some (abs s')

/-- A run of the program is a run of its abstraction. -/
theorem Simulation.run {M : System S E} {guard : S → E → Prop}
    {A : System T F} {allowed : T → F → Prop} {inv bound : S → Prop}
    {abs : S → T} {act : S → E → F}
    (h : Simulation M guard A allowed inv bound abs act) {s s' : S}
    {events : List E} (hinv : inv s) (hrun : Run M guard s events s')
    (hbound : bound s') :
    inv s' ∧ Run A allowed (abs s) (actions M act s events) (abs s') := by
  induction hrun with
  | nil => exact ⟨hinv, .nil _⟩
  | cons hguard hstep hrest ih =>
      have hnext := hrest.bound_start h.back hbound
      obtain ⟨hend, habs⟩ := ih (h.keeps hinv hguard hnext hstep) hbound
      refine ⟨hend, ?_⟩
      rw [actions_cons hstep]
      exact .cons (h.allowed hinv hguard hnext hstep)
        (h.step hinv hguard hnext hstep) habs

end Transition
