/-
The order in which requests are dispatched.  The rules of the dispatcher carry
over to the runs of a worker thread: who waits moves up with each request that
is completed, no request disappears, and the request ids number the requests in
the order in which they got a connection.
-/
import AtsFastcgi.Scheduling

namespace AtsFastcgi

open ServerState (ConnEvent Event)

section Runs

variable {parse : MimeHdrParse} {config : FcgiPluginConfig}
  {s s' : ServerState} {events : List Event}

theorem scheduled_of_run (h : Scheduled config s)
    (hrun : Transition.Run (workerThread parse config) Exists s events s')
    (hids : s'.issued < 2 ^ 32 - 1) : Scheduled config s' :=
  ((dispatcher_simulation parse config).run h hrun hids).1

theorem issued_of_run
    (hrun : Transition.Run (workerThread parse config) Exists s events s')
    (hids : s'.issued < 2 ^ 32 - 1) : s.issued < 2 ^ 32 - 1 :=
  @Transition.Run.bound_start _ _ _ _ _ _ _ (fun s => s.issued < 2 ^ 32 - 1)
    (dispatcher_simulation parse config).back hrun hids

/-- The ids that a run issues go to the requests that it starts. -/
theorem numbers_of_run (h : Scheduled config s)
    (hrun : Transition.Run (workerThread parse config) Exists s events s')
    (hids : s'.issued < 2 ^ 32 - 1) :
    s.Numbers s' (Dispatcher.started s.dispatcher
      (schedule parse config s events)) := by
  induction hrun with
  | nil => exact .of_old rfl fun _ _ _ hr => hr
  | @cons s s₁ s' e rest hexists hstep hrest ih =>
      have hlt := issued_of_run hrest hids
      have hone := ServerState.performs_step h.consistent h.covered hexists
        hstep
      have hnext :=
        (dispatcher_simulation parse config).keeps h hexists hlt hstep
      rw [schedule, Transition.actions_cons hstep, Dispatcher.started,
        ← hone.dispatcher]
      exact hone.numbers.trans (ih hnext hids)

/-- An event that completes a request. -/
theorem completed_of_action {e : Event} {j : InterceptId}
    (haction : s.action parse e = .finish j) : s.completed parse e = some j := by
  cases e with
  | connect => contradiction
  | connection | destroy | input | respond =>
      simp only [ServerState.action] at haction
      split at haction <;> simp_all

end Runs

/-- A request that waits moves up by one with each request that is completed,
and is served at the completion for which it is the first in the queue. -/
theorem dispatched_in_turn (parse : MimeHdrParse) (config : FcgiPluginConfig)
    (s s' : ServerState) (events : List Event)
    (hreach : Transition.Reach (workerThread parse config) Exists s)
    (hrun : Transition.Run (workerThread parse config) Exists s events s')
    (hids : s'.issued < 2 ^ 32 - 1) (ahead behind : List InterceptId)
    (i : InterceptId) (hqueue : s.queue.pendingList = ahead ++ i :: behind) :
    (∀ n, Dispatcher.completions (schedule parse config s events) = n →
      n ≤ ahead.length → ∃ more, s'.queue.pendingList =
        ahead.drop n ++ i :: (behind ++ more)) ∧
    (ahead.length <
        Dispatcher.completions (schedule parse config s events) →
      ∃ before e after s₁ s₂, events = before ++ e :: after ∧
        Transition.Run (workerThread parse config) Exists s before s₁ ∧
        Dispatcher.completions (schedule parse config s before) =
          ahead.length ∧
        (s₁.completed parse e).isSome = true ∧ s₁.step parse e = some s₂ ∧
        s₁.queue.pendingList.head? = some i ∧
        ∃ id c, s₂.Registered id i c) := by
  have h := scheduled_of_reach hreach (issued_of_run hrun hids)
  constructor
  · rintro n rfl hle
    exact (runs_of_run h hrun hids).waits hqueue hle
  · intro hlt
    obtain ⟨front, j, back, hschedule, hcount⟩ :=
      Dispatcher.exists_completion hlt
    obtain ⟨before, e, after, s₁, s₂, rfl, hbefore, hactions, hexists, hstep,
      haction, hafter⟩ := hrun.split_actions hschedule
    have hids₂ := issued_of_run hafter hids
    have hids₁ : s₁.issued < 2 ^ 32 - 1 :=
      Nat.lt_of_le_of_lt (ServerState.step_issued hstep) hids₂
    have hfront : Dispatcher.completions (schedule parse config s before) =
        ahead.length := by
      rw [schedule, hactions, hcount]
    obtain ⟨more, hhead⟩ := (runs_of_run h hbefore hids₁).waits hqueue
      (Nat.le_of_eq hfront)
    rw [hfront, List.drop_length, List.nil_append] at hhead
    have h₁ := scheduled_of_run h hbefore hids₁
    have hperforms := ServerState.performs_step h₁.consistent h₁.covered
      hexists hstep
    rw [haction] at hperforms
    have hserved := (Dispatcher.perform_finish s₁.dispatcher j hhead).2
    rw [← hperforms.dispatcher] at hserved
    refine ⟨before, e, after, s₁, s₂, rfl, hbefore, hfront, ?_, hstep, ?_,
      ServerState.mem_serving.mp hserved⟩
    · rw [completed_of_action haction]
      rfl
    · rw [show s₁.queue.pendingList = i :: (behind ++ more) from hhead]
      rfl

/-- Every request is served, waits, has come to an end or was dropped. -/
theorem requests_accounted (parse : MimeHdrParse) (config : FcgiPluginConfig)
    (events : List Event) (s : ServerState)
    (hrun : Transition.Run (workerThread parse config) Exists
      (ServerState.new config) events s)
    (hids : s.issued < 2 ^ 32 - 1) :
    s.serving.card + s.queue.pendingList.length +
        (schedule parse config (ServerState.new config) events).countP
          Dispatcher.Action.ends +
        Dispatcher.drops (ServerState.new config).dispatcher
          (schedule parse config (ServerState.new config) events) =
      (requests events).length := by
  have h := Scheduled.init config
  have hcount := (runs_of_run h hrun hids).accounted h.valid
  rw [arrivals_schedule hrun] at hcount
  have hnone : (ServerState.new config).dispatcher.load = 0 := by
    rw [dispatcher_new]
    rfl
  rw [hnone, Nat.zero_add] at hcount
  exact hcount

/-- Events for objects that exist, none of which takes the connection from a
request that is not complete. -/
def KeepsConnections (s : ServerState) (e : Event) : Prop :=
  Exists s e ∧ s.redispatched e = none ∧ s.failed e = none

instance (s : ServerState) (e : Event) : Decidable (KeepsConnections s e) :=
  inferInstanceAs (Decidable (_ ∧ _ ∧ _))

theorem action_keeps {parse : MimeHdrParse} {s : ServerState} {e : Event}
    (hkeeps : KeepsConnections s e) : (s.action parse e).givesUp = false := by
  cases e with
  | connect => rfl
  | connection | destroy | input | respond =>
      simp only [ServerState.action, hkeeps.2.1, hkeeps.2.2]
      split <;> first | rfl | contradiction

/-- The requests that found a place or room in the queue when they came. -/
def letIn (parse : MimeHdrParse) (config : FcgiPluginConfig)
    (events : List Event) : List InterceptId :=
  Dispatcher.admitted (ServerState.new config).dispatcher
    (schedule parse config (ServerState.new config) events)

/-- As long as no request loses its connection, the request with the id `n` is
the `n`-th of those that were let in, and those without an id wait in this
order. -/
theorem ids_in_arrival_order (parse : MimeHdrParse) (config : FcgiPluginConfig)
    (events : List Event) (s : ServerState)
    (hrun : Transition.Run (workerThread parse config) KeepsConnections
      (ServerState.new config) events s)
    (hids : s.issued < 2 ^ 32 - 1) :
    s.queue.pendingList = (letIn parse config events).drop s.issued ∧
      ∀ id i c, s.Registered id i c →
        (letIn parse config events)[id - 1]? = some i := by
  have h := Scheduled.init config
  have hexists := hrun.mono fun _ _ hkeeps => hkeeps.1
  have hfirst : letIn parse config events = _ :=
    (runs_of_run h hexists hids).firstComeFirstServed h.valid
      (fun hqueue => absurd rfl hqueue)
      (hrun.forall_actions fun _ _ hkeeps => action_keeps hkeeps)
  obtain ⟨hissued, hregistered⟩ := numbers_of_run h hexists hids
  have hzero : (ServerState.new config).issued = 0 := rfl
  rw [hzero, Nat.zero_add] at hissued
  rw [hfirst]
  constructor
  · rw [hissued, List.drop_left]
    rfl
  · intro id i c hr
    rcases hregistered hr with hold | ⟨k, rfl, hk⟩
    · exact absurd hold (by simp [ServerState.Registered, ServerState.new])
    · rw [hzero, Nat.zero_add, Nat.add_sub_cancel_left,
        List.getElem?_append_left (List.getElem?_eq_some_iff.mp hk).1]
      exact hk

namespace DispatchOrderWitness

open SchedulingWitness (parse config crowd crowded run_crowded)

/-- The transactions of the first two requests of the crowd end. -/
def ends : List Event := [.destroy 0, .destroy 1]

def served : ServerState :=
  Transition.after (workerThread parse config) Exists crowded ends

/-- The request behind one other is served at the second completion. -/
theorem dispatched_in_turn_served :
    ∃ before e after s₁ s₂, ends = before ++ e :: after ∧
      Transition.Run (workerThread parse config) Exists crowded before s₁ ∧
      Dispatcher.completions (schedule parse config crowded before) = 1 ∧
      (s₁.completed parse e).isSome = true ∧ s₁.step parse e = some s₂ ∧
      s₁.queue.pendingList.head? = some 2 ∧
      ∃ id c, s₂.Registered id 2 c :=
  (dispatched_in_turn parse config crowded served ends
    (.after (.init rfl) (by decide)) (.after (by decide)) (by decide) [1] [] 2
    (by decide)).2 (by decide)

/-- One request is served, two wait and one was dropped. -/
theorem requests_accounted_crowded : 1 + 2 + 0 + 1 = (requests crowd).length :=
  requests_accounted parse config crowd crowded run_crowded (by decide)

theorem ids_in_arrival_order_crowded :
    crowded.queue.pendingList = (letIn parse config crowd).drop 1 ∧
      ∀ id i c, crowded.Registered id i c →
        (letIn parse config crowd)[id - 1]? = some i :=
  ids_in_arrival_order parse config crowd crowded
    (@Transition.Run.after _ _ (workerThread parse config) KeepsConnections
      (ServerState.new config) crowd _ (by decide)) (by decide)

end DispatchOrderWitness

end AtsFastcgi
