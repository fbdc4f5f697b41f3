/-
Attempts of a request.  An intercept that is connected again gets another
FCGI client: what the transaction was asked for and what the client has been
given by then decide whether that is harmless.
-/
import AtsFastcgi.LocalInvariant
import AtsFastcgi.ResponseTransfer

namespace AtsFastcgi

open ServerState (ConnEvent Event)

/-! ### The events that start a request over -/

/-- The intercept that an event makes `reConnect` dispatch again. -/
def ServerState.redispatched (s : ServerState) : Event → Option InterceptId
  | .connection c .netConnectFailed =>
      s.getIntercept (s.conns c).requestId
  | .connection c .eos =>
      if (s.conns c).writeio.readEnable then none
      else s.getIntercept (s.conns c).requestId
  | _ => none

theorem ServerState.handle_redispatched (parse : MimeHdrParse) {s : ServerState}
    {c : ConnId} {event : ConnEvent} {i : InterceptId}
    (hagain : s.redispatched (.connection c event) = some i) :
    s.handle parse (.connection c event) =
      some (((s.unregister (s.conns c).requestId).connect i).closeConnection
        c) := by
  cases event with
  | netConnectFailed =>
      obtain ⟨d, hr⟩ := getIntercept_eq_some.mp hagain
      simp only [handle, handlePHPConnectionEvents, retry,
        reConnect_registered hr]
  | eos =>
      simp only [redispatched] at hagain
      split at hagain
      · contradiction
      · next hearly =>
          obtain ⟨d, hr⟩ := getIntercept_eq_some.mp hagain
          simp only [handle, handlePHPConnectionEvents, if_neg hearly, retry,
            reConnect_registered hr]
  | netConnect | readReady | readComplete | writeReady | writeComplete
  | error => contradiction

/-- The registered connections whose request an event starts over: by a new
FCGI client at once, or by `reConnect`. -/
def ServerState.restarted (s : ServerState) : Event → Option ConnId
  | .connection c .netConnect | .connection c .netConnectFailed =>
      (s.getIntercept (s.conns c).requestId).map fun _ => c
  | .connection c .eos =>
      if (s.conns c).writeio.readEnable then none
      else (s.getIntercept (s.conns c).requestId).map fun _ => c
  | _ => none

theorem ServerState.restarted_netConnect {config : FcgiPluginConfig}
    {s : ServerState} (h : Consistent config s) {id : Nat} {i : InterceptId}
    {c : ConnId} (hr : s.Registered id i c) :
    s.restarted (.connection c .netConnect) = some c := by
  obtain rfl := h.entry_conn hr
  simp only [restarted, getIntercept_eq_some.mpr ⟨c, hr⟩, Option.map_some]

theorem ServerState.restarted_retry {config : FcgiPluginConfig}
    {s : ServerState} (h : Consistent config s) {id : Nat} {i : InterceptId}
    {c : ConnId} (hr : s.Registered id i c) {event : ConnEvent}
    (hevent : event = .netConnectFailed ∨
      event = .eos ∧ (s.conns c).writeio.readEnable = false) :
    s.restarted (.connection c event) = some c := by
  obtain rfl := h.entry_conn hr
  have hget := getIntercept_eq_some.mpr ⟨c, hr⟩
  rcases hevent with rfl | ⟨rfl, hearly⟩
  · simp only [restarted, hget, Option.map_some]
  · simp only [restarted, hearly, hget, Option.map_some, Bool.false_eq_true,
      if_false]

/-- The events that re-dispatch an intercept start its request over. -/
theorem ServerState.restarted_of_redispatched {s : ServerState} {c : ConnId}
    {event : ConnEvent} {i : InterceptId}
    (hagain : s.redispatched (.connection c event) = some i) :
    s.restarted (.connection c event) = some c := by
  cases event with
  | netConnectFailed =>
      have hget : s.getIntercept (s.conns c).requestId = some i := hagain
      simp only [restarted, hget, Option.map_some]
  | eos =>
      simp only [redispatched] at hagain
      split at hagain
      · contradiction
      · next hearly =>
          simp only [restarted, if_neg hearly, hagain, Option.map_some]
  | netConnect | readReady | readComplete | writeReady | writeComplete
  | error => contradiction

theorem ServerState.registered_of_redispatched {s : ServerState} {c : ConnId}
    {event : ConnEvent} {i : InterceptId}
    (hagain : s.redispatched (.connection c event) = some i) :
    ∃ d, s.Registered (s.conns c).requestId i d := by
  cases event with
  | netConnectFailed => exact getIntercept_eq_some.mp hagain
  | eos =>
      simp only [redispatched] at hagain
      split at hagain
      · contradiction
      · exact getIntercept_eq_some.mp hagain
  | netConnect | readReady | readComplete | writeReady | writeComplete
  | error => contradiction

/-! ### Each transaction is resumed once -/

/-- The object has not been given to its transaction. -/
def ServerIntercept.Unresumed (x : ServerIntercept) : Prop :=
  x.addPlugins = 0 ∧ x.resumes = 0

/-- `addPlugin` and `resume` were each called at most once. -/
def ServerIntercept.ResumedOnce (x : ServerIntercept) : Prop :=
  x.addPlugins ≤ 1 ∧ x.resumes ≤ 1

instance (x : ServerIntercept) : Decidable x.ResumedOnce :=
  inferInstanceAs (Decidable (_ ∧ _))

theorem ServerIntercept.Unresumed.resumedOnce {x : ServerIntercept}
    (h : x.Unresumed) : x.ResumedOnce := by
  rw [ResumedOnce, h.1, h.2]
  exact ⟨Nat.zero_le 1, Nat.zero_le 1⟩

/-- One attempt resumes a transaction once. -/
theorem ServerIntercept.Unresumed.createFCGIClient {x : ServerIntercept}
    (h : x.Unresumed) (config : FcgiPluginConfig) (conn : ServerConnection) :
    (conn.createFCGIClient config x).2.ResumedOnce := by
  simp only [ServerConnection.createFCGIClient]
  split
  · rw [ResumedOnce, h.1, h.2]
    exact ⟨Nat.le_refl 1, Nat.le_refl 1⟩
  · exact h.resumedOnce

theorem ServerConnection.createFCGIClient_ready {conn : ServerConnection}
    (config : FcgiPluginConfig) (x : ServerIntercept)
    (hready : conn.state = .ready) :
    (conn.createFCGIClient config x).1.state = .inuse := by
  simp only [createFCGIClient, hready, true_or, if_true]

/-- A request starts over only on a connection that has not been attached. -/
def RestartsUnattached (s : ServerState) (e : Event) : Prop :=
  Exists s e ∧ Owns s e ∧
    ∀ c ∈ s.restarted e, (s.conns c).state = .initiated

instance (s : ServerState) (e : Event) : Decidable (RestartsUnattached s e) :=
  inferInstanceAs (Decidable (_ ∧ _ ∧ _))

/-- A waiting intercept has not been resumed, and neither has one whose
connection is being established. -/
def resumedOnce : LocalPredicates where
  ever := ServerIntercept.ResumedOnce
  waiting := ServerIntercept.Unresumed
  idle _ := True
  bound _ conn x := conn.state = .initiated → x.Unresumed

theorem resumedOnce_preserved (parse : MimeHdrParse)
    (config : FcgiPluginConfig) :
    resumedOnce.Preserved parse config RestartsUnattached where
  new txn requestId := ⟨⟨Nat.zero_le 1, Nat.zero_le 1⟩, rfl, rfl⟩
  bind_new hever hwaiting _ := ⟨hever, fun _ => hwaiting⟩
  bind_idle {id _ x} _ _ _ hwaiting := by
    have hnew : ({ x with requestId := id }).Unresumed := hwaiting
    refine ⟨hnew.createFCGIClient config _, ?_⟩
    intro hinit
    rw [ServerConnection.createFCGIClient_ready config _ rfl] at hinit
    contradiction
  net_connect h hguard hr _ hbound := by
    have hinit := hguard.2.2 _ (ServerState.restarted_netConnect h hr)
    refine ⟨(hbound hinit).createFCGIClient config _, ?_⟩
    intro hnext
    rw [ServerConnection.createFCGIClient_ready config _ rfl] at hnext
    contradiction
  net_connect_idle _ _ := trivial
  retry h hguard hevent hr hbound :=
    hbound (hguard.2.2 _ (ServerState.restarted_retry h hr hevent))
  fail hever _ := ⟨hever, hever⟩
  read {_ _ _ _ _ responseStatus _ _} _ _ _ hever hbound hrun := by
    rcases ServerConnection.interceptTransferData_eq_some hrun with
      ⟨-, -, -, rfl, rfl⟩ | ⟨client, t, -, -, -, rfl, rfl⟩
    · refine ⟨hever, ?_⟩
      cases responseStatus with
      | false => exact hbound
      | true => exact ⟨hever, fun _ => trivial⟩
    · refine ⟨hever, ?_⟩
      cases responseStatus with
      | false => exact hbound
      | true => exact ⟨hever, fun _ => trivial⟩
  read_idle _ _ := trivial
  read_complete _ _ hever _ := ⟨hever, fun _ => trivial⟩
  open_read hread := by
    obtain ⟨-, rfl⟩ := ServerConnection.read_eq_some.mp hread
    exact ⟨fun hbound => hbound, fun _ => trivial⟩
  input {_ _ _ _ input _} _ _ _ hever hbound hwrite := by
    obtain ⟨client, client', buf, -, -, -, -, rfl⟩ :=
      ServerConnection.write_eq_some.mp hwrite
    cases input <;> exact ⟨hever, hbound⟩
  input_kept {_ _ input} _ hever := by
    cases input <;> exact ⟨hever, fun _ hwaiting => hwaiting⟩
  destroy _ hever := by
    simp only [ServerIntercept.destroyedObject]
    split <;> exact ⟨hever, fun _ hwaiting => hwaiting⟩
  abort _ _ _ hbound := by
    simp only [ServerIntercept.destroyedObject]
    split
    · exact hbound
    · exact fun _ => trivial
  respond _ := ⟨fun _ hbound => hbound, fun _ => trivial⟩

/-- Where a request starts over only before it was attached, each transaction
gets its plugin and is resumed at most once. -/
theorem resumedOnce_of_reach (parse : MimeHdrParse) (config : FcgiPluginConfig)
    (s : ServerState)
    (hreach : Transition.Reach (workerThread parse config) RestartsUnattached s)
    (hids : s.issued < 2 ^ 32 - 1) (i : InterceptId)
    (hconnected : (s.intercepts i).connected = true) :
    (s.intercepts i).ResumedOnce :=
  (LocalPredicates.holds_of_reach (fun _ _ he => ⟨he.1, he.2.1⟩)
    (resumedOnce_preserved parse config) hreach hids).ever i hconnected

namespace ResumeWitness

/-- A pool of two connections. -/
def config : FcgiPluginConfig :=
  { RegistryWitness.config with maxConnLength := 12 }

def txn : ClientRequest := RegistryWitness.txn (ascii "GET")

/-- The backend closes the connection before the input has ended. -/
def eosEvents : List Event :=
  [.connect 0 txn 7, .connection 0 .netConnect, .input 0 (.header (ascii "GET")),
    .connection 0 .eos, .connection 1 .netConnect]

def resumedTwice : ServerState :=
  Transition.after (workerThread DecoderSafetyWitness.parse config) Ats
    (ServerState.new config) eosEvents

theorem not_always_resumedOnce :
    ¬ ∀ parse config s,
      Transition.Reach (workerThread parse config) Ats s →
      s.issued < 2 ^ 32 - 1 → ∀ i, (s.intercepts i).connected = true →
      (s.intercepts i).ResumedOnce := by
  intro h
  obtain ⟨hreach, hids, hconnected, htwice⟩ :
      Transition.Reach (workerThread DecoderSafetyWitness.parse config) Ats
        resumedTwice ∧ resumedTwice.issued < 2 ^ 32 - 1 ∧
      (resumedTwice.intercepts 0).connected = true ∧
      ¬ (resumedTwice.intercepts 0).ResumedOnce :=
    Transition.Reach.after_and (.init rfl) (by decide +kernel)
  exact htwice (h _ _ resumedTwice hreach hids 0 hconnected)

/-- The first connect fails, the second one succeeds. -/
def failedEvents : List Event :=
  [.connect 0 txn 7, .connection 0 .netConnectFailed, .connection 1 .netConnect]

def final : ServerState :=
  Transition.after (workerThread DecoderSafetyWitness.parse config)
    RestartsUnattached (ServerState.new config) failedEvents

theorem resumedOnce_final : (final.intercepts 0).ResumedOnce :=
  resumedOnce_of_reach DecoderSafetyWitness.parse config final
    (Transition.Reach.after (.init rfl) (by decide)) (by decide) 0 (by decide)

end ResumeWitness

/-! ### Retry is safe -/

/-- No record has been dispatched for the attempt. -/
def ServerConnection.Unanswered (c : ServerConnection) : Prop :=
  ∀ client ∈ c.fcgiRequest, client.decoder.firstChunk = true

instance (c : ServerConnection) : Decidable c.Unanswered :=
  inferInstanceAs (Decidable (∀ client ∈ c.fcgiRequest, _))

/-- Nothing has been passed to the client. -/
def ServerIntercept.Silent (x : ServerIntercept) : Prop :=
  ∀ d ∈ x.deliveries, d.text = []

instance (x : ServerIntercept) : Decidable x.Silent :=
  inferInstanceAs (Decidable (∀ d ∈ x.deliveries, _))

/-- What was passed to the client comes from the attempt `id`. -/
def ServerIntercept.HeardOnly (id : Nat) (x : ServerIntercept) : Prop :=
  ∀ d ∈ x.deliveries, d.text ≠ [] → d.requestId = id

/-- The output of the response comes from one attempt. -/
def ServerIntercept.OneAttempt (x : ServerIntercept) : Prop :=
  ∃ id, x.HeardOnly id

theorem ServerIntercept.Silent.heardOnly {x : ServerIntercept}
    (h : x.Silent) (id : Nat) : x.HeardOnly id :=
  fun d hd htext => absurd (h d hd) htext

/-- A request starts over only on an attempt without an answer. -/
def RestartsUnanswered (s : ServerState) (e : Event) : Prop :=
  Exists s e ∧ Owns s e ∧ ∀ c ∈ s.restarted e, (s.conns c).Unanswered

instance (s : ServerState) (e : Event) : Decidable (RestartsUnanswered s e) :=
  inferInstanceAs (Decidable (_ ∧ _ ∧ ∀ c ∈ s.restarted e, _))

/-- A registered intercept has heard only the attempt under its own id, and
nothing before the decoder of this attempt has dispatched a record. -/
def heardOnce : LocalPredicates where
  ever := ServerIntercept.OneAttempt
  waiting := ServerIntercept.Silent
  idle _ := True
  bound id conn x := x.HeardOnly id ∧ (conn.Unanswered → x.Silent)

theorem silent_createFCGIClient (config : FcgiPluginConfig)
    (conn : ServerConnection) {x : ServerIntercept} (h : x.Silent) :
    (conn.createFCGIClient config x).2.Silent := by
  simp only [ServerConnection.createFCGIClient]
  split <;> exact h

/-- One transfer adds text of the attempt only. -/
theorem heardOnce_transfer {parse : MimeHdrParse} {id : Nat}
    {c conn : ServerConnection} {x x' : ServerIntercept} {responseStatus : Bool}
    (hid : c.requestId = id) (hheard : x.HeardOnly id)
    (hsilent : c.Unanswered → x.Silent)
    (hrun : interceptTransferData parse c x =
      some (responseStatus, conn, x')) :
    x'.HeardOnly id ∧ (conn.Unanswered → x'.Silent) := by
  rcases ServerConnection.interceptTransferData_eq_some hrun with
    ⟨-, -, -, rfl, rfl⟩ | ⟨client, t, hclient, ht, -, rfl, rfl⟩
  · exact ⟨hheard, hsilent⟩
  · constructor
    · intro d hd htext
      rcases List.mem_append.mp hd with hold | hnew
      · exact hheard d hold htext
      · rw [List.mem_singleton.mp hnew]
        exact hid
    · intro hunanswered
      have hfirst : t.decoder.firstChunk = true := hunanswered _ rfl
      -- had the attempt dispatched a record, the flag would be down
      have hclosed := mt (transferBlocks_firstChunk parse ht)
        (by rw [hfirst]; exact Bool.true_eq_false_eq_False)
      have hbefore : c.Unanswered := by
        intro client' hclient'
        have heq : client = client' := Option.some.inj (hclient.symm.trans hclient')
        rw [← heq]
        exact Bool.not_eq_false _ ▸ fun hdown => hclosed (.inr hdown)
      intro d hd
      rcases List.mem_append.mp hd with hold | hnew
      · exact hsilent hbefore d hold
      · rw [List.mem_singleton.mp hnew]
        exact not_not.mp fun htext => hclosed (.inl htext)

theorem heardOnce_preserved (parse : MimeHdrParse)
    (config : FcgiPluginConfig) :
    heardOnce.Preserved parse config RestartsUnanswered where
  new txn requestId := by
    have hsilent : (ServerIntercept.new txn requestId).Silent :=
      fun d hd => absurd hd List.not_mem_nil
    exact ⟨⟨0, hsilent.heardOnly 0⟩, hsilent⟩
  bind_new {id x} hever hwaiting _ := by
    have hsilent : ({ x with requestId := id }).Silent := hwaiting
    exact ⟨hever, hsilent.heardOnly id, fun _ => hsilent⟩
  bind_idle {id conn x} _ _ _ hwaiting := by
    have hsilent : ({ x with requestId := id }).Silent := hwaiting
    have hnew := silent_createFCGIClient config
      { conn with state := .ready, requestId := id } hsilent
    exact ⟨⟨id, hnew.heardOnly id⟩, hnew.heardOnly id, fun _ => hnew⟩
  net_connect {s c id _} h hguard hr _ hbound := by
    have hopen := hguard.2.2 _ (ServerState.restarted_netConnect h hr)
    have hnew := silent_createFCGIClient config (s.conns c).netConnect
      (hbound.2 hopen)
    exact ⟨⟨id, hnew.heardOnly id⟩, hnew.heardOnly id, fun _ => hnew⟩
  net_connect_idle _ _ := trivial
  retry h hguard hevent hr hbound :=
    hbound.2 (hguard.2.2 _ (ServerState.restarted_retry h hr hevent))
  fail hever _ := ⟨hever, hever⟩
  read {s c blocks id _ responseStatus _ _} h _ hr _ hbound hrun := by
    have hid : ((s.conns c).receive blocks).requestId = id := h.entry_conn hr
    have hnext := heardOnce_transfer hid hbound.1 hbound.2 hrun
    refine ⟨⟨id, hnext.1⟩, ?_⟩
    cases responseStatus with
    | false => exact hnext
    | true => exact ⟨⟨id, hnext.1⟩, fun _ => trivial⟩
  read_idle _ _ := trivial
  read_complete _ _ hever _ := ⟨hever, fun _ => trivial⟩
  open_read hread := by
    obtain ⟨-, rfl⟩ := ServerConnection.read_eq_some.mp hread
    exact ⟨fun hbound => hbound, fun _ => trivial⟩
  input {s c _ _ input _} _ _ _ hever hbound hwrite := by
    obtain ⟨client, client', buf, hclient, hprepare, -, -, rfl⟩ :=
      ServerConnection.write_eq_some.mp hwrite
    obtain ⟨postData, buff, rfl⟩ := ServerConnection.prepare_eq_some hprepare
    have hopen : ∀ {conn : ServerConnection}, conn.fcgiRequest =
        some { client with postData := postData, buff := buff } →
        conn.Unanswered → (s.conns c).Unanswered := by
      intro conn hconn hunanswered client' hclient'
      have hup := hunanswered _ hconn
      rwa [Option.some.inj (hclient.symm.trans hclient')] at hup
    cases input <;> exact ⟨hever, hbound.1, fun h => hbound.2 (hopen rfl h)⟩
  input_kept {_ _ input} _ hever := by
    cases input <;> exact ⟨hever, fun _ hwaiting => hwaiting⟩
  destroy _ hever := by
    simp only [ServerIntercept.destroyedObject]
    split <;> exact ⟨hever, fun _ hwaiting => hwaiting⟩
  abort _ _ _ hbound := by
    simp only [ServerIntercept.destroyedObject]
    split
    · exact hbound
    · exact fun _ => trivial
  respond _ := ⟨fun _ hbound => hbound, fun _ => trivial⟩

/-- Whatever event of the guard comes next, `reConnect` dispatches an intercept
again only if nothing was passed to its client, and what was passed to a client
so far comes from one attempt. -/
structure RetrySafe (guard : ServerState → Event → Prop) (s : ServerState) :
    Prop where
  silent : ∀ e i, guard s e → s.redispatched e = some i →
    (s.intercepts i).Silent
  oneAttempt : ∀ i, (s.intercepts i).connected = true →
    (s.intercepts i).OneAttempt

/-- Where a request starts over only before its attempt is answered, retry is
safe. -/
theorem retrySafe_of_reach (parse : MimeHdrParse) (config : FcgiPluginConfig)
    (s : ServerState)
    (hreach : Transition.Reach (workerThread parse config) RestartsUnanswered s)
    (hids : s.issued < 2 ^ 32 - 1) : RetrySafe RestartsUnanswered s := by
  have h := consistent_of_reach (fun _ _ he => he.1) hreach hids
  have hL := LocalPredicates.holds_of_reach (fun _ _ he => ⟨he.1, he.2.1⟩)
    (heardOnce_preserved parse config) hreach hids
  refine ⟨?_, hL.ever⟩
  intro e i hguard hagain
  cases e with
  | connection c event =>
      have hrestarted := ServerState.restarted_of_redispatched hagain
      obtain ⟨d, hr⟩ := ServerState.registered_of_redispatched hagain
      obtain rfl := h.owner c ((h.alive_iff c).mp hguard.1) hr
      exact (hL.bound hr).2 (hguard.2.2 _ hrestarted)
  | connect | destroy | input | respond => contradiction

namespace RetryWitness

def txn : ClientRequest := RegistryWitness.txn (ascii "GET")

/-- `FCGI_END_REQUEST` for the first request. -/
def endBlock : Bytes := [1, 3, 0, 1, 0, 8, 0, 0, 0, 0, 0, 0, 0, 0, 0, 0]

/-- `FCGI_STDOUT` for the second request. -/
def outBlock : Bytes := [1, 6, 0, 2, 0, 2, 0, 0, 65, 66]

/-- The second request on a connection is answered before its input ends. -/
def answeredEvents : List Event :=
  [.connect 0 txn 7, .connection 0 .netConnect, .input 0 (.header (ascii "GET")),
    .input 0 .complete, .connection 0 .writeReady,
    .connection 0 (.readReady [endBlock]), .connect 1 txn 7,
    .input 1 (.header (ascii "GET")), .connection 0 (.readReady [outBlock])]

def answered : ServerState :=
  Transition.after
    (workerThread DecoderSafetyWitness.parse RegistryWitness.config) Ats
    (ServerState.new RegistryWitness.config) answeredEvents

theorem not_always_retrySafe :
    ¬ ∀ parse config s,
      Transition.Reach (workerThread parse config) Ats s →
      s.issued < 2 ^ 32 - 1 → RetrySafe Ats s := by
  intro h
  obtain ⟨hreach, hids, hguard, hagain, hheard⟩ :
      Transition.Reach
        (workerThread DecoderSafetyWitness.parse RegistryWitness.config) Ats
        answered ∧ answered.issued < 2 ^ 32 - 1 ∧
      Ats answered (.connection 0 .eos) ∧
      answered.redispatched (.connection 0 .eos) = some 1 ∧
      ¬ (answered.intercepts 1).Silent :=
    Transition.Reach.after_and (.init rfl) (by decide +kernel)
  have hsafe := h _ _ answered hreach hids
  exact hheard (hsafe.silent (.connection 0 .eos) 1 hguard hagain)

/-- The backend closes the connection before it answers. -/
def closedEvents : List Event :=
  [.connect 0 txn 7, .connection 0 .netConnect, .input 0 (.header (ascii "GET")),
    .connection 0 .eos, .connection 1 .netConnect]

def final : ServerState :=
  Transition.after
    (workerThread DecoderSafetyWitness.parse ResumeWitness.config)
    RestartsUnanswered (ServerState.new ResumeWitness.config) closedEvents

theorem retrySafe_final : RetrySafe RestartsUnanswered final := by
  obtain ⟨hreach, hids⟩ :
      Transition.Reach
        (workerThread DecoderSafetyWitness.parse ResumeWitness.config)
        RestartsUnanswered final ∧ final.issued < 2 ^ 32 - 1 :=
    Transition.Reach.after_and (.init rfl) (by decide +kernel)
  exact retrySafe_of_reach _ _ final hreach hids

end RetryWitness

end AtsFastcgi
