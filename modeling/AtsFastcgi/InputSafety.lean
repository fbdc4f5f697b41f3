/-
Client input and half-made connections.  A request is registered when its
connection is chosen, and gets its FCGI client only when the connection is
established; a transaction is resumed in between only where it is connected a
second time.
-/
import AtsFastcgi.Retry

namespace AtsFastcgi

open ServerState (ConnEvent Event)

/-- The input of a live, resumed intercept finds no connection, or one that has
an FCGI client and is established. -/
def ServerState.InputSafe (s : ServerState) : Prop :=
  ∀ i, (s.intercepts i).connected = true →
    (s.intercepts i).destroyed = false → 0 < (s.intercepts i).resumes →
    (∀ input, s.writeRequest (s.intercepts i).requestId input =
      some (false, s)) ∨
    ∃ c, s.getServerConnection (s.intercepts i).requestId = some c ∧
      (s.conns c).fcgiRequest.isSome = true ∧ (s.conns c).vc = true

/-- The transaction has the object and may give it input. -/
def ServerIntercept.Receives (x : ServerIntercept) : Prop :=
  x.owned = true ∧ x.destroyed = false

instance (x : ServerIntercept) : Decidable x.Receives :=
  inferInstanceAs (Decidable (_ ∧ _))

/-- No new connection can be made. -/
def ServerState.PoolFull (s : ServerState) : Prop :=
  s.pool.maxConn ≤ s.pool.connections.length

instance (s : ServerState) : Decidable s.PoolFull :=
  inferInstanceAs (Decidable (_ ≤ _))

/-- No event connects an intercept that may receive input to a new connection:
neither by `reConnect`, nor out of the queue when a request ends. -/
structure ServerState.SparesResumed (parse : MimeHdrParse) (s : ServerState)
    (e : Event) : Prop where
  again : ∀ i ∈ s.redispatched e, (s.intercepts i).Receives → s.PoolFull
  next : ∀ c ∈ s.finished parse e, ∀ j ∈ s.queue.pendingList.head?,
    (s.intercepts j).Receives →
      (s.conns c).reqCount < (s.conns c).maxRequests ∧ s.PoolFull

/-- `READ_COMPLETE` comes on an established connection. -/
def ServerState.CompletesEstablished (s : ServerState) : Event → Prop
  | .connection c .readComplete =>
      (s.conns c).reqCount < (s.conns c).maxRequests → (s.conns c).vc = true
  | _ => True

def KeepsInputSafe (parse : MimeHdrParse) (s : ServerState) (e : Event) :
    Prop :=
  Exists s e ∧ Owns s e ∧ s.SparesResumed parse e ∧ s.CompletesEstablished e

instance (parse : MimeHdrParse) (s : ServerState) (e : Event) :
    Decidable (s.SparesResumed parse e) :=
  decidable_of_iff
    ((∀ i ∈ s.redispatched e, (s.intercepts i).Receives → s.PoolFull) ∧
      ∀ c ∈ s.finished parse e, ∀ j ∈ s.queue.pendingList.head?,
        (s.intercepts j).Receives →
          (s.conns c).reqCount < (s.conns c).maxRequests ∧ s.PoolFull)
    ⟨fun h => ⟨h.1, h.2⟩, fun h => ⟨h.again, h.next⟩⟩

instance (s : ServerState) : (e : Event) → Decidable (s.CompletesEstablished e)
  | .connection _ .readComplete => inferInstanceAs (Decidable (_ → _ = true))
  | .connection _ .netConnect | .connection _ .netConnectFailed
  | .connection _ (.readReady _) | .connection _ .writeReady
  | .connection _ .writeComplete | .connection _ .eos | .connection _ .error
  | .connect .. | .destroy .. | .input .. | .respond .. =>
      inferInstanceAs (Decidable True)

instance (parse : MimeHdrParse) (s : ServerState) (e : Event) :
    Decidable (KeepsInputSafe parse s e) :=
  inferInstanceAs (Decidable (_ ∧ _ ∧ _ ∧ _))

theorem ServerState.redispatched_retry {s : ServerState} {c : ConnId}
    {i : InterceptId} {event : ConnEvent}
    (hr : s.Registered (s.conns c).requestId i c)
    (hevent : event = .netConnectFailed ∨
      event = .eos ∧ (s.conns c).writeio.readEnable = false) :
    s.redispatched (.connection c event) = some i := by
  have hget := getIntercept_eq_some.mpr ⟨c, hr⟩
  rcases hevent with rfl | ⟨rfl, hearly⟩
  · exact hget
  · rw [redispatched, hearly, if_neg Bool.false_ne_true]
    exact hget

/-- A connection with an FCGI client is established. -/
def ServerConnection.ClientEstablished (c : ServerConnection) : Prop :=
  c.fcgiRequest.isSome = true → c.vc = true

theorem ServerConnection.createFCGIClient_established {c : ServerConnection}
    (hready : c.state = .ready) (hvc : c.vc = true)
    (config : FcgiPluginConfig) (x : ServerIntercept) :
    (c.createFCGIClient config x).1.fcgiRequest.isSome = true ∧
      (c.createFCGIClient config x).1.vc = true := by
  simp only [createFCGIClient, hready, true_or, if_true]
  exact ⟨rfl, hvc⟩

theorem ServerConnection.interceptTransferData_established
    {parse : MimeHdrParse} {c new : ServerConnection} {i x : ServerIntercept}
    {responseStatus : Bool}
    (hrun : interceptTransferData parse c i = some (responseStatus, new, x)) :
    new.fcgiRequest.isSome = c.fcgiRequest.isSome ∧ new.vc = c.vc ∧
      (responseStatus = true → c.fcgiRequest.isSome = true) ∧
      (x.Receives ↔ i.Receives) ∧
      (x.resumes = i.resumes ∧ x.addPlugins = i.addPlugins) := by
  rcases interceptTransferData_eq_some hrun with
    ⟨-, -, rfl, rfl, rfl⟩ | ⟨client, t, hclient, -, -, rfl, rfl⟩
  · exact ⟨rfl, rfl, fun hfalse => absurd hfalse Bool.false_ne_true, Iff.rfl,
      rfl, rfl⟩
  · rw [hclient]
    exact ⟨rfl, rfl, fun _ => rfl, Iff.rfl, rfl, rfl⟩

/-- A registered intercept that may receive input has an FCGI client. -/
def inputSafe : LocalPredicates where
  ever x := x.resumes = x.addPlugins
  waiting _ := True
  idle conn := conn.vc = true
  bound _ conn x := conn.ClientEstablished ∧
    (x.Receives → conn.fcgiRequest.isSome = true)
  fresh x := ¬ x.Receives

theorem createFCGIClient_resumes (conn : ServerConnection)
    (config : FcgiPluginConfig) {x : ServerIntercept}
    (h : x.resumes = x.addPlugins) :
    (conn.createFCGIClient config x).2.resumes =
      (conn.createFCGIClient config x).2.addPlugins := by
  simp only [ServerConnection.createFCGIClient]
  split
  · exact congrArg (· + 1) h
  · exact h

theorem inputSafe_preserved (parse : MimeHdrParse)
    (config : FcgiPluginConfig) :
    inputSafe.Preserved parse config (KeepsInputSafe parse) where
  new _ _ := ⟨rfl, trivial⟩
  new_fresh _ _ hreceives := absurd hreceives.1 Bool.false_ne_true
  bind_new hever _ hfresh :=
    ⟨hever, fun hsome => absurd hsome Bool.false_ne_true,
      fun hreceives => absurd hreceives hfresh⟩
  bind_idle {id conn x} _ hidle hever _ := by
    have hid : ({ x with requestId := id }).resumes =
        ({ x with requestId := id }).addPlugins := hever
    obtain ⟨hclient, hvc⟩ := ServerConnection.createFCGIClient_established
      (c := { conn with state := .ready, requestId := id }) rfl hidle config
      { x with requestId := id }
    exact ⟨createFCGIClient_resumes _ config hid, fun _ => hvc, fun _ => hclient⟩
  net_connect {s c _ i} _ _ _ hever _ := by
    obtain ⟨hclient, hvc⟩ := ServerConnection.createFCGIClient_established
      (c := (s.conns c).netConnect) rfl rfl config (s.intercepts i)
    exact ⟨createFCGIClient_resumes _ config hever, fun _ => hvc,
      fun _ => hclient⟩
  net_connect_idle _ _ := rfl
  retry _ _ _ _ _ := trivial
  retry_fresh {s c _ i event} hguard hevent hid hr hroom hreceives := by
    have hagain := ServerState.redispatched_retry (hid ▸ hr) hevent
    have hfull := hguard.2.2.1.again i hagain hreceives
    exact absurd hroom (Nat.not_lt.mpr hfull)
  next_fresh hguard hfinished j hj hroom hreceives := by
    obtain ⟨hreuse, hfull⟩ := hguard.2.2.1.next _ hfinished j hj hreceives
    exact absurd (hroom hreuse) (Nat.not_lt.mpr hfull)
  fail hever _ := ⟨hever, hever⟩
  read {_ _ _ _ _ responseStatus _ _} _ _ _ hever hbound hrun := by
    obtain ⟨hclient, hvc, hdone, hreceives, hresumes, hplugins⟩ :=
      ServerConnection.interceptTransferData_established hrun
    refine ⟨hresumes.trans (hever.trans hplugins.symm), ?_⟩
    cases responseStatus with
    | false =>
        refine ⟨fun hsome => ?_, fun hnext => ?_⟩
        · exact hvc.trans (hbound.1 (hclient ▸ hsome))
        · exact hclient.trans (hbound.2 (hreceives.mp hnext))
    | true =>
        exact ⟨hresumes.trans (hever.trans hplugins.symm),
          fun _ => hvc.trans (hbound.1 (hdone rfl))⟩
  read_idle _ hidle := hidle
  read_complete hguard _ hever _ :=
    ⟨hever, fun hroom => hguard.2.2.2 hroom⟩
  open_read hread := by
    obtain ⟨-, rfl⟩ := ServerConnection.read_eq_some.mp hread
    exact ⟨fun hbound => hbound, fun hidle => hidle⟩
  input {_ _ _ _ input _} _ _ _ hever _ hwrite := by
    obtain ⟨client, client', buf, -, -, -, hvc, rfl⟩ :=
      ServerConnection.write_eq_some.mp hwrite
    cases input <;> exact ⟨hever, fun _ => hvc, fun _ => rfl⟩
  input_kept {_ _ input} _ hever := by
    cases input <;> exact ⟨hever, fun _ _ => trivial⟩
  destroy _ hever := by
    simp only [ServerIntercept.destroyedObject]
    split <;> exact ⟨hever, fun _ _ => trivial⟩
  abort {s i id c} _ hguard _ hbound := by
    have hvc : (s.conns c).vc = true :=
      hbound.1 (hbound.2 ⟨hguard.2.1, hguard.1.2⟩)
    split
    · exact ⟨hbound.1, fun _ => hbound.2 ⟨hguard.2.1, hguard.1.2⟩⟩
    · intro _
      obtain ⟨client, state, heq⟩ := (s.conns c).detach_eq
      rw [ServerConnection.released, heq]
      exact hvc
  respond _ := ⟨fun _ hbound => hbound, fun hidle => hidle⟩

/-- As long as no resumed intercept is connected to a new connection, client
input never meets a connection without FCGI client or `vc_`. -/
theorem inputSafe_of_reach (parse : MimeHdrParse) (config : FcgiPluginConfig)
    (s : ServerState)
    (hreach : Transition.Reach (workerThread parse config)
      (KeepsInputSafe parse) s)
    (hids : s.issued < 2 ^ 32 - 1) : s.InputSafe := by
  have h := consistent_of_reach (fun _ _ hg => hg.1) hreach hids
  have hL := LocalPredicates.holds_of_reach (fun _ _ hg => ⟨hg.1, hg.2.1⟩)
    (inputSafe_preserved parse config) hreach hids
  intro i hconnected hlive hresumed
  have howned : (s.intercepts i).owned = true := by
    have hever : (s.intercepts i).resumes = (s.intercepts i).addPlugins :=
      hL.ever i hconnected
    simpa [ServerIntercept.owned, ← hever] using hresumed
  cases hget : s.getServerConnection (s.intercepts i).requestId with
  | none =>
      left
      intro input
      rw [ServerState.writeRequest, hget]
  | some c =>
      obtain ⟨i', hr⟩ := ServerState.getServerConnection_eq_some.mp hget
      obtain rfl := h.owned_entry i howned hr
      have hclient := (hL.bound hr).2 ⟨howned, hlive⟩
      exact .inr ⟨c, rfl, hclient, (hL.bound hr).1 hclient⟩

namespace InputSafetyWitness

/-- The backend closes the connection before the input has ended; the request
is registered again on a connection that is being established. -/
def lostEvents : List Event :=
  [.connect 0 ResumeWitness.txn 7, .connection 0 .netConnect,
    .input 0 (.header (ascii "GET")), .connection 0 .eos]

def halfMade : ServerState :=
  Transition.after
    (workerThread DecoderSafetyWitness.parse ResumeWitness.config) Ats
    (ServerState.new ResumeWitness.config) lostEvents

theorem not_always_inputSafe :
    ¬ ∀ parse config s,
      Transition.Reach (workerThread parse config) Ats s →
      s.issued < 2 ^ 32 - 1 → s.InputSafe := by
  intro h
  obtain ⟨hreach, hids, hconnected, halive, hresumed, hget, hclient⟩ :
      Transition.Reach
        (workerThread DecoderSafetyWitness.parse ResumeWitness.config) Ats
        halfMade ∧ halfMade.issued < 2 ^ 32 - 1 ∧
      (halfMade.intercepts 0).connected = true ∧
      (halfMade.intercepts 0).destroyed = false ∧
      0 < (halfMade.intercepts 0).resumes ∧
      halfMade.getServerConnection (halfMade.intercepts 0).requestId =
        some 1 ∧
      (halfMade.conns 1).fcgiRequest.isSome = false :=
    Transition.Reach.after_and (.init rfl) (by decide +kernel)
  rcases h _ _ halfMade hreach hids 0 hconnected halive hresumed with
    hkept | ⟨c, hc, hsome, -⟩
  · have hwrite := hkept .complete
    rw [ServerState.writeRequest, hget] at hwrite
    obtain ⟨conn, -, hconn⟩ := Option.map_eq_some_iff.mp hwrite
    exact Bool.noConfusion (congrArg Prod.fst hconn)
  · obtain rfl := Option.some.inj (hget.symm.trans hc)
    exact Bool.noConfusion (hclient.symm.trans hsome)

/-- A pool of one connection: the request waits for it. -/
def waitEvents : List Event :=
  [.connect 0 ResumeWitness.txn 7, .connection 0 .netConnect,
    .input 0 (.header (ascii "GET")), .connection 0 .eos]

def final : ServerState :=
  Transition.after
    (workerThread DecoderSafetyWitness.parse RegistryWitness.config)
    (KeepsInputSafe DecoderSafetyWitness.parse)
    (ServerState.new RegistryWitness.config) waitEvents

theorem inputSafe_final : final.InputSafe := by
  obtain ⟨hreach, hids⟩ :
      Transition.Reach
        (workerThread DecoderSafetyWitness.parse RegistryWitness.config)
        (KeepsInputSafe DecoderSafetyWitness.parse) final ∧
      final.issued < 2 ^ 32 - 1 :=
    Transition.Reach.after_and (.init rfl) (by decide +kernel)
  exact inputSafe_of_reach _ _ final hreach hids

end InputSafetyWitness

end AtsFastcgi
