/-
Lifetimes of intercepts.  An intercept that is neither registered nor queued is
out of the reach of every event that does not name it.  The destructor takes an
intercept out of the registry and not out of the queue, so what is registered
or waits is alive as long as nothing is destroyed while it waits.
-/
import AtsFastcgi.Dispatch

namespace AtsFastcgi

open ServerState (ConnEvent Event)

/-! ### Free intercepts -/

/-- The intercept is free, and the object is `x`. -/
structure ServerState.Aside (s : ServerState) (j : InterceptId)
    (x : ServerIntercept) : Prop where
  free : s.FreeIntercept j
  intercept : s.intercepts j = x

namespace ServerState.Aside

variable {config : FcgiPluginConfig} {s : ServerState} {j : InterceptId}
  {x : ServerIntercept}

theorem unqueued (ha : s.Aside j x) : j ∉ s.queue.pendingList := ha.free.1

theorem ne_of_registered (ha : s.Aside j x) {id : Nat} {i : InterceptId}
    {c : ConnId} (hr : s.Registered id i c) : j ≠ i := by
  rintro rfl
  exact ha.free.2 id c hr

theorem setConn (ha : s.Aside j x) (c : ConnId) (conn : ServerConnection) :
    (s.setConn c conn).Aside j x :=
  ⟨ha.free, ha.intercept⟩

theorem setIntercept (ha : s.Aside j x) {i : InterceptId} (hne : j ≠ i)
    (y : ServerIntercept) : (s.setIntercept i y).Aside j x := by
  refine ⟨ha.free, ?_⟩
  rw [setIntercept_intercepts_of_ne s y hne]
  exact ha.intercept

theorem setIntercept_self (ha : s.Aside j x) (y : ServerIntercept) :
    (s.setIntercept j y).Aside j y :=
  ⟨ha.free, setIntercept_intercepts_self s j y⟩

theorem unregister (ha : s.Aside j x) (id : Nat) :
    (s.unregister id).Aside j x := by
  refine ⟨⟨ha.unqueued, ?_⟩, ha.intercept⟩
  intro id' c hr
  exact ha.free.2 id' c (registered_unregister.mp hr).2

theorem connectionClosed (ha : s.Aside j x) (c : ConnId) :
    (s.connectionClosed c).Aside j x :=
  ⟨(ha.unregister (s.conns c).requestId).free, ha.intercept⟩

theorem closeConnection (ha : s.Aside j x) (c : ConnId) :
    (s.closeConnection c).Aside j x :=
  (ha.setConn c _).connectionClosed c

theorem releaseConnection (ha : s.Aside j x) (c : ConnId) :
    (s.releaseConnection c).Aside j x := by
  unfold ServerState.releaseConnection
  simp only
  split
  · exact ⟨ha.free, ha.intercept⟩
  · exact (ha.setConn c _).connectionClosed c

/-- Another intercept is connected. -/
theorem connect (ha : s.Aside j x) {i : InterceptId} (hne : j ≠ i) :
    (s.connect i).Aside j x := by
  rcases s.connect_cases i with ⟨-, heq⟩ | ⟨d, rest, -, -, heq⟩ |
    ⟨-, -, heq⟩
  · rw [heq]
    refine ⟨⟨ha.unqueued, ?_⟩, ?_⟩
    · intro id c hr
      rw [registered_connectNew] at hr
      split at hr
      · exact hne hr.1.symm
      · exact ha.free.2 id c hr
    · rw [connectNew_intercepts_of_ne s hne]
      exact ha.intercept
  · rw [heq]
    refine ⟨⟨ha.unqueued, ?_⟩, ?_⟩
    · intro id c hr
      rw [registered_connectPooled] at hr
      split at hr
      · exact hne hr.1.symm
      · exact ha.free.2 id c hr
    · rw [connectPooled_intercepts_of_ne s d rest hne]
      exact ha.intercept
  · rw [heq]
    refine ⟨⟨?_, ha.free.2⟩, ha.intercept⟩
    intro hin
    unfold enqueue RequestQueue.addToQueue at hin
    split at hin
    · exact ha.unqueued hin
    · rcases List.mem_append.mp hin with hold | hnew
      · exact ha.unqueued hold
      · exact hne (List.mem_singleton.mp hnew)

theorem connectNext (ha : s.Aside j x) : s.connectNext.Aside j x := by
  unfold ServerState.connectNext RequestQueue.popFromQueue
  cases hqueue : s.queue.pendingList with
  | nil => exact ha
  | cons i rest =>
      have hin := ha.unqueued
      rw [hqueue] at hin
      have hpop : ServerState.Aside
          { s with queue := { s.queue with pendingList := rest } } j x :=
        ⟨⟨fun hrest => hin (List.mem_cons_of_mem i hrest), ha.free.2⟩,
          ha.intercept⟩
      apply hpop.connect
      rintro rfl
      exact hin List.mem_cons_self

theorem removeIntercept (ha : s.Aside j x) (id : Nat) :
    (s.removeIntercept id).Aside j x := by
  unfold ServerState.removeIntercept
  split
  · exact ((ha.unregister id).releaseConnection _).connectNext
  · exact ha

theorem retry (ha : s.Aside j x) (c : ConnId) : (s.retry c).Aside j x := by
  apply ServerState.Aside.closeConnection
  cases hget : s.getIntercept (s.conns c).requestId with
  | none =>
      rw [reConnect_none (getIntercept_eq_none.mp hget)]
      exact ha
  | some i =>
      obtain ⟨d, hr⟩ := getIntercept_eq_some.mp hget
      rw [reConnect_registered hr]
      exact (ha.unregister _).connect (ha.ne_of_registered hr)

theorem complete (ha : s.Aside j x) {i : InterceptId} (hne : j ≠ i)
    (c : ConnId) : (s.complete i c).Aside j x :=
  ((ha.setConn c _).setIntercept hne _).removeIntercept _

theorem handlePHPConnectionEvents (ha : s.Aside j x) {parse : MimeHdrParse}
    {c : ConnId} {event : ConnEvent} {s' : ServerState}
    (hstep : s.handlePHPConnectionEvents parse c event = some s') :
    s'.Aside j x := by
  have hne : ∀ {i}, s.getIntercept (s.conns c).requestId = some i → j ≠ i := by
    intro i hget
    obtain ⟨d, hr⟩ := getIntercept_eq_some.mp hget
    exact ha.ne_of_registered hr
  cases event with
  | netConnect =>
      rw [← Option.some.inj hstep]
      cases hget : s.getIntercept (s.conns c).requestId with
      | none =>
          rw [onNetConnect_idle hget]
          exact ha.setConn c _
      | some i =>
          rw [onNetConnect_registered hget]
          exact (ha.setConn c _).setIntercept (hne hget) _
  | netConnectFailed =>
      rw [← Option.some.inj hstep]
      exact ha.retry c
  | readReady blocks =>
      rcases onReadReady_cases hstep with ⟨-, rfl⟩ |
        ⟨i, responseStatus, conn, y, hget, -, rfl⟩
      · exact ha.setConn c _
      · have hpair := (ha.setConn c conn).setIntercept (hne hget) y
        cases responseStatus with
        | false => exact hpair
        | true => exact hpair.complete (hne hget) c
  | readComplete =>
      simp only [ServerState.handlePHPConnectionEvents] at hstep
      split at hstep
      · next i hget =>
          rw [← Option.some.inj hstep]
          exact ha.complete (hne hget) c
      · contradiction
  | writeReady =>
      simp only [ServerState.handlePHPConnectionEvents] at hstep
      split at hstep
      · obtain ⟨conn, -, rfl⟩ := Option.map_eq_some_iff.mp hstep
        exact ha.setConn c conn
      · rw [← Option.some.inj hstep]
        exact ha
  | writeComplete =>
      obtain ⟨conn, -, rfl⟩ := Option.map_eq_some_iff.mp hstep
      exact ha.setConn c conn
  | eos =>
      rw [← Option.some.inj hstep]
      split
      · unfold ServerState.onLateEos
        split
        · next i hget =>
            split
            · exact (ha.setIntercept (hne hget) _).closeConnection c
            · exact ha.closeConnection c
        · exact ha.closeConnection c
      · exact ha.retry c
  | error =>
      simp only [ServerState.handlePHPConnectionEvents] at hstep
      split at hstep
      · rw [← Option.some.inj hstep]
        unfold ServerState.onError
        split
        · next i hget => exact (ha.setIntercept (hne hget) _).closeConnection c
        · exact ha.connectionClosed c
      · contradiction

theorem destroy (ha : s.Aside j x) {i : InterceptId} (hne : j ≠ i) :
    (s.destroy i).Aside j x := by
  unfold ServerState.destroy
  simp only
  split
  · exact ha.setIntercept hne _
  · exact (ha.setIntercept hne _).removeIntercept _

theorem destroy_self (ha : s.Aside j x) :
    (s.destroy j).Aside j x.destroyedObject := by
  unfold ServerState.destroy ServerIntercept.destroyedObject
  simp only [ha.intercept]
  split
  · exact ha.setIntercept_self _
  · exact (ha.setIntercept_self _).removeIntercept _

/-- A free intercept is only reached by events that name it. -/
theorem step (ha : s.Aside j x) {parse : MimeHdrParse} {e : Event}
    {s' : ServerState} (hconnected : x.connected = true)
    (hexists : Exists s e) (hstep : s.step parse e = some s') :
    s'.Aside j x ∨ e = .destroy j ∧ s'.Aside j x.destroyedObject ∨
      ∃ input, e = .input j input ∧
        (s'.Aside j (input.sent (input.log x)) ∨
          s'.Aside j (input.kept (input.log x))) := by
  replace hstep := ServerState.handle_of_step hstep
  cases e with
  | connect i txn requestId =>
      have hne : j ≠ i := by
        rintro rfl
        have hnew : (s.intercepts j).connected = false := hexists
        rw [ha.intercept, hconnected] at hnew
        contradiction
      rw [← Option.some.inj hstep]
      exact .inl ((ha.setIntercept hne _).connect hne)
  | connection c event => exact .inl (ha.handlePHPConnectionEvents hstep)
  | destroy i =>
      rw [← Option.some.inj hstep]
      by_cases hne : j = i
      · subst hne
        exact .inr (.inl ⟨rfl, ha.destroy_self⟩)
      · exact .inl (ha.destroy hne)
  | input i input =>
      by_cases hne : j = i
      · subst hne
        refine .inr (.inr ⟨input, rfl, ?_⟩)
        rcases consume_cases hstep with ⟨i', c, conn, -, -, rfl⟩ | ⟨-, rfl⟩
        · rw [ha.intercept]
          exact .inl ((ha.setConn c conn).setIntercept_self _)
        · rw [ha.intercept]
          exact .inr (ha.setIntercept_self _)
      · left
        rcases consume_cases hstep with ⟨i', c, conn, -, -, rfl⟩ | ⟨-, rfl⟩
        · exact (ha.setConn c conn).setIntercept hne _
        · exact ha.setIntercept hne _
  | respond c r =>
      rw [← Option.some.inj hstep]
      exact .inl (ha.setConn c _)

end ServerState.Aside

/-! ### Nothing dead is reached -/

/-- Nothing that the server can reach has been destroyed. -/
structure ServerState.NoneDead (s : ServerState) : Prop where
  registered : ∀ id i c, s.Registered id i c →
    (s.intercepts i).destroyed = false
  waiting : ∀ i ∈ s.queue.pendingList, (s.intercepts i).destroyed = false

/-- No intercept is destroyed while it waits. -/
def ServerState.KillsNoWaiting (s : ServerState) : Event → Prop
  | .destroy i => i ∉ s.queue.pendingList
  | _ => True

def KeepsAlive (s : ServerState) (e : Event) : Prop :=
  Exists s e ∧ Owns s e ∧ s.KillsNoWaiting e

instance (s : ServerState) : (e : Event) → Decidable (s.KillsNoWaiting e)
  | .destroy _ => inferInstanceAs (Decidable (¬ _))
  | .connect .. | .connection .. | .input .. | .respond .. =>
      inferInstanceAs (Decidable True)

instance (s : ServerState) (e : Event) : Decidable (KeepsAlive s e) :=
  inferInstanceAs (Decidable (_ ∧ _ ∧ _))

theorem createFCGIClient_lifetime (conn : ServerConnection)
    (config : FcgiPluginConfig) (x : ServerIntercept) :
    (conn.createFCGIClient config x).2.destroyed = x.destroyed ∧
      (conn.createFCGIClient config x).2.outputCompleteState =
        x.outputCompleteState := by
  simp only [ServerConnection.createFCGIClient]
  split <;> exact ⟨rfl, rfl⟩

theorem input_lifetime (input : ClientInput) (x : ServerIntercept) :
    ((input.sent (input.log x)).destroyed = x.destroyed ∧
        (input.sent (input.log x)).outputCompleteState =
          x.outputCompleteState) ∧
      (input.kept (input.log x)).destroyed = x.destroyed ∧
        (input.kept (input.log x)).outputCompleteState =
          x.outputCompleteState := by
  cases input <;> exact ⟨⟨rfl, rfl⟩, rfl, rfl⟩

/-- The request goes on: its intercept is neither destroyed nor complete. -/
structure ServerIntercept.Live (x : ServerIntercept) : Prop where
  destroyed : x.destroyed = false
  incomplete : x.outputCompleteState = false

theorem ServerIntercept.Live.of_lifetime {x y : ServerIntercept} (h : x.Live)
    (hsame : y.destroyed = x.destroyed ∧
      y.outputCompleteState = x.outputCompleteState) : y.Live :=
  ⟨hsame.1.trans h.destroyed, hsame.2.trans h.incomplete⟩

theorem ServerIntercept.Live.createFCGIClient {x : ServerIntercept}
    (h : x.Live) (conn : ServerConnection) (config : FcgiPluginConfig) :
    (conn.createFCGIClient config x).2.Live :=
  h.of_lifetime (createFCGIClient_lifetime conn config x)

theorem ServerIntercept.Live.input {x : ServerIntercept} (h : x.Live)
    (input : ClientInput) :
    (input.sent (input.log x)).Live ∧ (input.kept (input.log x)).Live :=
  ⟨h.of_lifetime (input_lifetime input x).1,
    h.of_lifetime (input_lifetime input x).2⟩

/-- What is registered or waits is live. -/
def alive : LocalPredicates where
  ever _ := True
  waiting := ServerIntercept.Live
  idle _ := True
  bound _ _ x := x.Live

theorem alive_preserved (parse : MimeHdrParse) (config : FcgiPluginConfig) :
    alive.Preserved parse config KeepsAlive where
  new txn requestId := ⟨trivial, rfl, rfl⟩
  bind_new _ hlive _ := ⟨trivial, hlive.destroyed, hlive.incomplete⟩
  bind_idle {id conn x} _ _ _ hlive := by
    have hx : ServerIntercept.Live { x with requestId := id } :=
      ⟨hlive.destroyed, hlive.incomplete⟩
    exact ⟨trivial, hx.createFCGIClient
      { conn with state := .ready, requestId := id } config⟩
  net_connect _ _ _ _ hlive := ⟨trivial, hlive.createFCGIClient _ config⟩
  net_connect_idle _ _ := trivial
  retry _ _ _ _ hlive := hlive
  fail _ _ := ⟨trivial, trivial⟩
  read {s c blocks id i responseStatus conn x} _ _ _ _ hlive hrun := by
    refine ⟨trivial, ?_⟩
    cases responseStatus with
    | true => exact ⟨trivial, fun _ => trivial⟩
    | false =>
        rcases ServerConnection.interceptTransferData_eq_some hrun with
          ⟨-, -, -, rfl, rfl⟩ | ⟨client, t, -, -, -, rfl, rfl⟩
        · exact hlive
        · exact ⟨hlive.destroyed, hlive.incomplete⟩
  read_idle _ _ := trivial
  read_complete _ _ _ _ := ⟨trivial, fun _ => trivial⟩
  open_read _ := ⟨fun hlive => hlive, fun _ => trivial⟩
  input _ _ _ _ hlive _ := ⟨trivial, (hlive.input _).1⟩
  input_kept _ _ := ⟨trivial, fun _ hlive => (hlive.input _).2⟩
  destroy hguard _ := ⟨trivial, fun hin => absurd hin hguard.2.2⟩
  abort {s i id c} _ _ _ hlive := by
    rw [if_neg (by rw [hlive.incomplete]; exact Bool.false_ne_true)]
    exact fun _ => trivial
  respond _ := ⟨fun _ hlive => hlive, fun _ => trivial⟩

theorem alive_of_reach {parse : MimeHdrParse} {config : FcgiPluginConfig}
    {s : ServerState}
    (hreach : Transition.Reach (workerThread parse config) KeepsAlive s)
    (hids : s.issued < 2 ^ 32 - 1) : s.NoneDead := by
  have hL := LocalPredicates.holds_of_reach (fun _ _ hg => ⟨hg.1, hg.2.1⟩)
    (alive_preserved parse config) hreach hids
  exact ⟨fun _ _ _ hr => (hL.bound hr).destroyed,
    fun i hi => (hL.waiting i hi).destroyed⟩

/-- As long as no intercept is destroyed while it waits, no destroyed intercept
is registered or waits, and no event touches one. -/
theorem noneDead_of_reach (parse : MimeHdrParse) (config : FcgiPluginConfig)
    (s : ServerState)
    (hreach : Transition.Reach (workerThread parse config) KeepsAlive s)
    (hids : s.issued < 2 ^ 32 - 1) :
    s.NoneDead ∧ ∀ e s' j, KeepsAlive s e → s.step parse e = some s' →
      (s.intercepts j).connected = true →
      (s.intercepts j).destroyed = true →
      s'.intercepts j = s.intercepts j := by
  have hnone := alive_of_reach hreach hids
  refine ⟨hnone, ?_⟩
  intro e s' j hguard hstep hconnected hdead
  have hfree : s.FreeIntercept j := by
    constructor
    · intro hin
      exact Bool.noConfusion (hdead.symm.trans (hnone.waiting j hin))
    · intro id c hr
      exact Bool.noConfusion (hdead.symm.trans (hnone.registered id j c hr))
  have ha : s.Aside j (s.intercepts j) := ⟨hfree, rfl⟩
  rcases ha.step hconnected hguard.1 hstep with hsame | ⟨rfl, -⟩ |
    ⟨input, rfl, -⟩
  · exact hsame.intercept
  · exact Bool.noConfusion (hdead.symm.trans hguard.1.2)
  · exact Bool.noConfusion (hdead.symm.trans hguard.1.2)

namespace LifetimeWitness

/-- The connection is lost before the input has ended, and the client goes away
while its request waits for another one. -/
def lostEvents : List Event :=
  [.connect 0 (RegistryWitness.txn (ascii "GET")) 7, .connection 0 .netConnect,
    .input 0 (.header (ascii "GET")), .connection 0 .eos, .destroy 0]

def dead : ServerState :=
  Transition.after
    (workerThread DecoderSafetyWitness.parse RegistryWitness.config) Ats
    (ServerState.new RegistryWitness.config) lostEvents

theorem not_always_noneDead :
    ¬ ∀ parse config s,
      Transition.Reach (workerThread parse config) Ats s →
      s.issued < 2 ^ 32 - 1 → s.NoneDead := by
  intro h
  obtain ⟨hreach, hids, hwaits, hdead⟩ :
      Transition.Reach
        (workerThread DecoderSafetyWitness.parse RegistryWitness.config) Ats
        dead ∧ dead.issued < 2 ^ 32 - 1 ∧ 0 ∈ dead.queue.pendingList ∧
      (dead.intercepts 0).destroyed = true :=
    Transition.Reach.after_and (.init rfl) (by decide +kernel)
  have hlive := (h _ _ dead hreach hids).waiting 0 hwaits
  exact Bool.noConfusion (hdead.symm.trans hlive)

/-- A second request waits while the client of the first one goes away. -/
def abortEvents : List Event :=
  [.connect 0 (RegistryWitness.txn (ascii "GET")) 7, .connection 0 .netConnect,
    .connect 1 (RegistryWitness.txn (ascii "GET")) 7, .destroy 0]

def final : ServerState :=
  Transition.after
    (workerThread DecoderSafetyWitness.parse RegistryWitness.config) KeepsAlive
    (ServerState.new RegistryWitness.config) abortEvents

theorem noneDead_final :
    final.NoneDead ∧ ∀ e s' j, KeepsAlive final e →
      final.step DecoderSafetyWitness.parse e = some s' →
      (final.intercepts j).connected = true →
      (final.intercepts j).destroyed = true →
      s'.intercepts j = final.intercepts j := by
  obtain ⟨hreach, hids⟩ :
      Transition.Reach
        (workerThread DecoderSafetyWitness.parse RegistryWitness.config)
        KeepsAlive final ∧ final.issued < 2 ^ 32 - 1 :=
    Transition.Reach.after_and (.init rfl) (by decide +kernel)
  exact noneDead_of_reach _ _ final hreach hids

end LifetimeWitness

end AtsFastcgi
