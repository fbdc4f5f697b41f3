/-
The end of a request.  Completion and failure both take the request out of the
registry, and nothing else leads back to its intercept: the call that ends the
request is made once, and it is the last one.
-/
import AtsFastcgi.Lifetimes

namespace AtsFastcgi

open ServerState (ConnEvent Event)

/-- The calls of `InterceptPlugin::setOutputComplete` and of
`transaction.error`. -/
def InterceptCall.ends : InterceptCall → Bool
  | .setOutputComplete | .error _ => true
  | .createFCGIClient | .writeResponseChunkToATS _ => false

namespace ServerIntercept

/-- The calls that end the request. -/
def outcomes (x : ServerIntercept) : Nat := x.calls.countP InterceptCall.ends

/-- No call follows one that ends the request. -/
def EndsLast (x : ServerIntercept) : Prop :=
  ∀ front call back, x.calls = front ++ call :: back →
    call.ends = true → back = []

/-- Nothing was given to the client and nothing asked of the transaction in
between. -/
structure SameAnswer (old new : ServerIntercept) : Prop where
  calls : new.calls = old.calls
  deliveries : new.deliveries = old.deliveries
  addPlugins : new.addPlugins = old.addPlugins
  resumes : new.resumes = old.resumes
  outputCompletes : new.outputCompletes = old.outputCompletes
  errors : new.errors = old.errors

theorem SameAnswer.refl (x : ServerIntercept) : x.SameAnswer x := by
  constructor <;> rfl

theorem SameAnswer.trans {x y z : ServerIntercept} (hxy : x.SameAnswer y)
    (hyz : y.SameAnswer z) : x.SameAnswer z :=
  ⟨hyz.calls.trans hxy.calls, hyz.deliveries.trans hxy.deliveries,
    hyz.addPlugins.trans hxy.addPlugins, hyz.resumes.trans hxy.resumes,
    hyz.outputCompletes.trans hxy.outputCompletes, hyz.errors.trans hxy.errors⟩

theorem sameAnswer_destroyedObject (x : ServerIntercept) :
    x.SameAnswer x.destroyedObject := by
  unfold destroyedObject
  split <;> constructor <;> rfl

theorem sameAnswer_sent (input : ClientInput) (x : ServerIntercept) :
    x.SameAnswer (input.sent (input.log x)) := by
  cases input <;> constructor <;> rfl

theorem sameAnswer_kept (input : ClientInput) (x : ServerIntercept) :
    x.SameAnswer (input.kept (input.log x)) := by
  cases input <;> constructor <;> rfl

/-- The request is not ended; its next call may be any. -/
def Unended (x : ServerIntercept) : Prop :=
  ∀ call ∈ x.calls, call.ends = false

theorem unended_iff {x : ServerIntercept} : x.Unended ↔ x.outcomes = 0 := by
  simp [Unended, outcomes]

theorem Unended.of_calls_eq {x y : ServerIntercept} (h : x.Unended)
    (hcalls : y.calls = x.calls) : y.Unended := by
  unfold Unended
  rw [hcalls]
  exact h

theorem Unended.append {x y : ServerIntercept} (h : x.Unended)
    {more : List InterceptCall} (hcalls : y.calls = x.calls ++ more)
    (hmore : ∀ call ∈ more, call.ends = false) : y.Unended := by
  intro call hcall
  rw [hcalls] at hcall
  rcases List.mem_append.mp hcall with hold | hnew
  · exact h call hold
  · exact hmore call hnew

theorem EndsLast.of_calls_eq {x y : ServerIntercept} (h : x.EndsLast)
    (hcalls : y.calls = x.calls) : y.EndsLast := by
  intro front call back hsplit
  exact h front call back (hcalls ▸ hsplit)

theorem Unended.endsLast {x : ServerIntercept} (h : x.Unended) :
    x.EndsLast := by
  intro front call back hsplit hends
  have hmem : call ∈ x.calls := by
    rw [hsplit]
    exact List.mem_append_right _ List.mem_cons_self
  exact absurd hends (by rw [h call hmem]; exact Bool.false_ne_true)

/-- The call that ends the request comes after calls that do not. -/
theorem Unended.endsLast_append {x y : ServerIntercept} (h : x.Unended)
    {last : InterceptCall} (hcalls : y.calls = x.calls ++ [last]) :
    y.EndsLast := by
  intro front call back hsplit hends
  rw [hcalls] at hsplit
  rcases List.eq_nil_or_concat back with rfl | ⟨rest, call', rfl⟩
  · rfl
  · have hinit : x.calls = front ++ call :: rest := by
      rw [List.concat_eq_append, ← List.cons_append, ← List.append_assoc]
        at hsplit
      exact List.append_inj_left' hsplit rfl
    have hmem : call ∈ x.calls := by
      rw [hinit]
      exact List.mem_append_right _ List.mem_cons_self
    exact absurd hends (by rw [h call hmem]; exact Bool.false_ne_true)

/-- A request is ended once. -/
theorem EndsLast.outcomes_le {x : ServerIntercept} (h : x.EndsLast) :
    x.outcomes ≤ 1 := by
  by_cases hany : ∃ call ∈ x.calls, call.ends = true
  · obtain ⟨call, hmem, hends⟩ := hany
    obtain ⟨front, back, hsplit, hfirst⟩ :
        ∃ front back, x.calls = front ++ call :: back ∧
          ∀ earlier ∈ front, earlier.ends = false := by
      obtain ⟨front, back, hsplit⟩ := List.append_of_mem hmem
      refine ⟨front, back, hsplit, fun earlier hearlier => ?_⟩
      obtain ⟨f, b, rfl⟩ := List.append_of_mem hearlier
      rw [List.append_assoc, List.cons_append] at hsplit
      by_contra htrue
      have hnil := h f earlier _ hsplit (Bool.eq_true_of_not_eq_false htrue)
      simp at hnil
    rw [outcomes, hsplit, h front call back hsplit hends,
      List.countP_append, List.countP_eq_zero.mpr (by simpa using hfirst)]
    simp [hends]
  · have hnone : x.Unended := fun call hmem => by
      by_contra htrue
      exact hany ⟨call, hmem, Bool.eq_true_of_not_eq_false htrue⟩
    rw [unended_iff.mp hnone]
    exact Nat.zero_le 1

theorem Unended.createFCGIClient {x : ServerIntercept} (h : x.Unended)
    (conn : ServerConnection) (config : FcgiPluginConfig) :
    (conn.createFCGIClient config x).2.Unended := by
  simp only [ServerConnection.createFCGIClient]
  split
  · exact h.append rfl (by simp [InterceptCall.ends])
  · exact h

theorem Unended.interceptTransferData {parse : MimeHdrParse}
    {c new : ServerConnection} {i x : ServerIntercept} {responseStatus : Bool}
    (h : i.Unended)
    (hrun : interceptTransferData parse c i = some (responseStatus, new, x)) :
    x.Unended := by
  rcases ServerConnection.interceptTransferData_eq_some hrun with
    ⟨-, -, -, -, rfl⟩ | ⟨client, t, -, -, -, -, rfl⟩
  · exact h
  · refine h.append rfl fun call hcall => ?_
    split at hcall
    · contradiction
    · rw [List.mem_singleton.mp hcall]
      rfl

end ServerIntercept

/-- What is registered or waits has not been ended. -/
def oneOutcome : LocalPredicates where
  ever x := x.EndsLast
  waiting x := x.Unended
  idle _ := True
  bound _ _ x := x.Unended

theorem oneOutcome_preserved (parse : MimeHdrParse)
    (config : FcgiPluginConfig) :
    oneOutcome.Preserved parse config Exists where
  new txn requestId := by
    have hnew : (ServerIntercept.new txn requestId).Unended :=
      fun _ hcall => absurd hcall List.not_mem_nil
    exact ⟨hnew.endsLast, hnew⟩
  bind_new {id x} hever hwaiting _ :=
    ⟨hever.of_calls_eq rfl, hwaiting.of_calls_eq rfl⟩
  bind_idle {id conn x} _ _ _ hwaiting := by
    have hbound := (hwaiting.of_calls_eq (y := { x with requestId := id })
      rfl).createFCGIClient
        { conn with state := .ready, requestId := id } config
    exact ⟨hbound.endsLast, hbound⟩
  net_connect {s c _ _} _ _ _ _ hbound := by
    have hnext := ServerIntercept.Unended.createFCGIClient hbound
      (s.conns c).netConnect config
    exact ⟨hnext.endsLast, hnext⟩
  net_connect_idle _ _ := trivial
  retry _ _ _ _ hbound := hbound
  fail _ hbound :=
    ⟨ServerIntercept.Unended.endsLast_append hbound rfl,
      ServerIntercept.Unended.endsLast_append hbound rfl⟩
  read {_ _ _ _ _ responseStatus _ _} _ _ _ _ hbound hrun := by
    have hnext := ServerIntercept.Unended.interceptTransferData hbound hrun
    refine ⟨hnext.endsLast, ?_⟩
    cases responseStatus with
    | false => exact hnext
    | true => exact ⟨hnext.endsLast_append rfl, fun _ => trivial⟩
  read_idle _ _ := trivial
  read_complete _ _ _ hbound :=
    ⟨ServerIntercept.Unended.endsLast_append hbound rfl, fun _ => trivial⟩
  open_read _ := ⟨fun hbound => hbound, fun _ => trivial⟩
  input {s _ _ i input _} _ _ _ hever hbound _ := by
    have hcalls :=
      (ServerIntercept.sameAnswer_sent input (s.intercepts i)).calls
    exact ⟨hever.of_calls_eq hcalls,
      ServerIntercept.Unended.of_calls_eq hbound hcalls⟩
  input_kept {s i input} _ hever := by
    have hcalls :=
      (ServerIntercept.sameAnswer_kept input (s.intercepts i)).calls
    exact ⟨hever.of_calls_eq hcalls,
      fun _ hwaiting => hwaiting.of_calls_eq hcalls⟩
  destroy {s i} _ hever := by
    have hcalls :=
      (ServerIntercept.sameAnswer_destroyedObject (s.intercepts i)).calls
    exact ⟨hever.of_calls_eq hcalls,
      fun _ hwaiting => hwaiting.of_calls_eq hcalls⟩
  abort {s i _ _} _ _ _ hbound := by
    have hcalls :=
      (ServerIntercept.sameAnswer_destroyedObject (s.intercepts i)).calls
    split
    · exact ServerIntercept.Unended.of_calls_eq hbound hcalls
    · exact fun _ => trivial
  respond _ := ⟨fun _ hbound => hbound, fun _ => trivial⟩

theorem oneOutcome_strays : oneOutcome.Strays Exists where
  input _ _ _ hbound := hbound
  input_sent {s i input} _ hever := by
    have hcalls :=
      (ServerIntercept.sameAnswer_sent input (s.intercepts i)).calls
    exact ⟨hever.of_calls_eq hcalls,
      fun hwaiting => hwaiting.of_calls_eq hcalls⟩
  abort _ _ _ _ := trivial

/-! ### After the outcome -/

/-- A request with an outcome is in the reach of no connection. -/
theorem free_of_outcome {s : ServerState} (hL : oneOutcome.Holds s)
    {i : InterceptId} (hdone : (s.intercepts i).outcomes = 1) :
    s.FreeIntercept i := by
  have hended : ¬ (s.intercepts i).Unended := by
    rw [ServerIntercept.unended_iff, hdone]
    exact Nat.one_ne_zero
  exact ⟨fun hin => hended (hL.waiting i hin),
    fun _ _ hr => hended (hL.bound hr)⟩

theorem sameAnswer_step {parse : MimeHdrParse} {s s' : ServerState} {e : Event}
    {j : InterceptId} {x : ServerIntercept} (ha : s.Aside j x)
    (hconnected : x.connected = true) (hexists : Exists s e)
    (hstep : s.step parse e = some s') :
    ∃ y, s'.Aside j y ∧ y.connected = true ∧ x.SameAnswer y := by
  rcases ha.step hconnected hexists hstep with hsame | ⟨-, hdead⟩ |
    ⟨input, -, hsent | hkept⟩
  · exact ⟨x, hsame, hconnected, .refl _⟩
  · refine ⟨_, hdead, ?_, x.sameAnswer_destroyedObject⟩
    unfold ServerIntercept.destroyedObject
    split <;> exact hconnected
  · refine ⟨_, hsent, ?_, ServerIntercept.sameAnswer_sent input x⟩
    cases input <;> exact hconnected
  · refine ⟨_, hkept, ?_, ServerIntercept.sameAnswer_kept input x⟩
    cases input <;> exact hconnected

/-- A free intercept stays free, and its answer as it is, however the run goes
on. -/
theorem sameAnswer_of_run {parse : MimeHdrParse} {config : FcgiPluginConfig}
    {s s' : ServerState} {j : InterceptId} (hfree : s.FreeIntercept j)
    (hconnected : (s.intercepts j).connected = true)
    (hrun : Transition.Reach ((workerThread parse config).startingAt s) Exists
      s') :
    s'.FreeIntercept j ∧ (s.intercepts j).SameAnswer (s'.intercepts j) := by
  have hinv : ∃ y, s'.Aside j y ∧ y.connected = true ∧
      (s.intercepts j).SameAnswer y := by
    refine @Transition.Reach.invariant _ _ _ _ (fun s' => ∃ y, s'.Aside j y ∧
      y.connected = true ∧ (s.intercepts j).SameAnswer y) ?_ ?_ s' hrun
    · rintro s₀ rfl
      exact ⟨_, ⟨hfree, rfl⟩, hconnected, .refl _⟩
    · rintro s₁ e s₂ - ⟨y, ha, hy, hsame⟩ hexists hstep
      obtain ⟨z, hz, hconn, hnext⟩ := sameAnswer_step ha hy hexists hstep
      exact ⟨z, hz, hconn, hsame.trans hnext⟩
  obtain ⟨y, ha, -, hsame⟩ := hinv
  exact ⟨ha.free, ha.intercept ▸ hsame⟩

theorem ServerState.not_redispatched_of_free {s : ServerState}
    {i : InterceptId} (hfree : s.FreeIntercept i) (e : Event) :
    s.redispatched e ≠ some i := by
  intro hagain
  cases e with
  | connection c event =>
      obtain ⟨d, hr⟩ := registered_of_redispatched hagain
      exact hfree.2 _ d hr
  | connect | destroy | input | respond => contradiction

theorem ServerState.unended_connect {s : ServerState} {i : InterceptId}
    (h : (s.intercepts i).Unended) : ((s.connect i).intercepts i).Unended := by
  rcases s.connect_cases i with ⟨-, heq⟩ | ⟨c, rest, -, -, heq⟩ | ⟨-, -, heq⟩
  · rw [heq, connectNew_intercepts_self]
    exact h.of_calls_eq rfl
  · rw [heq, connectPooled_intercepts_self]
    exact (h.of_calls_eq (y := { s.intercepts i with requestId := s.nextId })
      rfl).createFCGIClient _ _
  · rw [heq]
    exact h

/-- A request that `reConnect` dispatches again is not ended in this event. -/
theorem unended_of_redispatched {parse : MimeHdrParse} {s s' : ServerState}
    {e : Event} {i : InterceptId} (hL : oneOutcome.Holds s)
    (hagain : s.redispatched e = some i) (hstep : s.step parse e = some s') :
    (s'.intercepts i).Unended := by
  cases e with
  | connection c event =>
      obtain ⟨d, hr⟩ := ServerState.registered_of_redispatched hagain
      have hhandle := ServerState.handle_of_step hstep
      rw [ServerState.handle_redispatched parse hagain] at hhandle
      rw [← Option.some.inj hhandle]
      exact ServerState.unended_connect
        (s := s.unregister (s.conns c).requestId) (hL.bound hr)
  | connect | destroy | input | respond => contradiction

/-- Each request is ended at most once, by the last call that is made for it,
and by no event that dispatches it again.  After it nothing is asked of the
transaction or given to the client, and no event dispatches the intercept
again, for the rest of the run. -/
theorem oneOutcome_of_reach (parse : MimeHdrParse) (config : FcgiPluginConfig)
    (s : ServerState)
    (hreach : Transition.Reach (workerThread parse config) Exists s)
    (hids : s.issued < 2 ^ 32 - 1) (i : InterceptId)
    (hconnected : (s.intercepts i).connected = true) :
    (s.intercepts i).outcomes ≤ 1 ∧ (s.intercepts i).EndsLast ∧
      (∀ e s', s.redispatched e = some i → s.step parse e = some s' →
        (s'.intercepts i).outcomes = 0) ∧
      ((s.intercepts i).outcomes = 1 → ∀ s',
        Transition.Reach ((workerThread parse config).startingAt s) Exists s' →
        (s.intercepts i).SameAnswer (s'.intercepts i) ∧
          ∀ e, s'.redispatched e ≠ some i) := by
  have hL := LocalPredicates.holds_of_reach_strays (fun _ _ he => he)
    (oneOutcome_preserved parse config) oneOutcome_strays hreach hids
  have hlast : (s.intercepts i).EndsLast := hL.ever i hconnected
  refine ⟨hlast.outcomes_le, hlast, ?_, ?_⟩
  · intro e s' hagain hstep
    exact ServerIntercept.unended_iff.mp
      (unended_of_redispatched hL hagain hstep)
  · intro hdone s' hrun
    obtain ⟨hfree, hsame⟩ :=
      sameAnswer_of_run (free_of_outcome hL hdone) hconnected hrun
    exact ⟨hsame, ServerState.not_redispatched_of_free hfree⟩

namespace OutcomeWitness

/-- The first request is answered, the second one fails with its connection. -/
def events : List Event :=
  [.connect 0 RetryWitness.txn 7, .connection 0 .netConnect,
    .input 0 (.header (ascii "GET")), .input 0 .complete,
    .connection 0 .writeReady, .connection 0 (.readReady [RetryWitness.endBlock]),
    .connect 1 RetryWitness.txn 7, .connection 0 .error]

def final : ServerState :=
  Transition.after
    (workerThread DecoderSafetyWitness.parse RegistryWitness.config) Exists
    (ServerState.new RegistryWitness.config) events

example :
    (final.intercepts 0).calls.map InterceptCall.ends = [false, false, true] ∧
    (final.intercepts 1).calls =
      [.createFCGIClient, .error (ascii "Internal server error")] := by
  decide +kernel

theorem oneOutcome_final :
    (final.intercepts 0).outcomes ≤ 1 ∧ (final.intercepts 0).EndsLast ∧
      (∀ e s', final.redispatched e = some 0 →
        final.step DecoderSafetyWitness.parse e = some s' →
        (s'.intercepts 0).outcomes = 0) ∧
      ((final.intercepts 0).outcomes = 1 → ∀ s',
        Transition.Reach ((workerThread DecoderSafetyWitness.parse
          RegistryWitness.config).startingAt final) Exists s' →
        (final.intercepts 0).SameAnswer (s'.intercepts 0) ∧
          ∀ e, s'.redispatched e ≠ some 0) := by
  obtain ⟨hreach, hids, hconnected⟩ :
      Transition.Reach
        (workerThread DecoderSafetyWitness.parse RegistryWitness.config) Exists
        final ∧ final.issued < 2 ^ 32 - 1 ∧
      (final.intercepts 0).connected = true :=
    Transition.Reach.after_and (.init rfl) (by decide +kernel)
  exact oneOutcome_of_reach _ _ final hreach hids 0 hconnected

end OutcomeWitness

end AtsFastcgi
