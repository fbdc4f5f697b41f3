/-
Where requests and connections are.  `Effect` says what an event does to the
registry, the pool and the queue; from it follow that no connection is idle
outside the pool and that no request is forgotten, as long as the events keep
clear of two gaps of the dispatcher.
-/
import AtsFastcgi.LocalInvariant
import AtsFastcgi.Retry

namespace AtsFastcgi

open ServerState (ConnEvent Event)

namespace ServerState

/-! ### Connecting -/

/-- There is a connection for the next request. -/
def CanDispatch (s : ServerState) : Prop :=
  s.pool.connections.length < s.pool.maxConn ∨
    s.pool.availableConnections ≠ []

instance (s : ServerState) : Decidable s.CanDispatch :=
  inferInstanceAs (Decidable (_ ∨ _))

/-- There is a connection for the next request, or it can wait for one. -/
def HasPlace (s : ServerState) : Prop :=
  s.CanDispatch ∨ s.queue.isQueueFull = false

instance (s : ServerState) : Decidable s.HasPlace :=
  inferInstanceAs (Decidable (_ ∨ _))

theorem connect_dispatched {s : ServerState} (i : InterceptId)
    (hcan : s.CanDispatch) :
    (∃ c, (s.connect i).Registered s.nextId i c) ∧
      (s.connect i).queue = s.queue := by
  rcases s.connect_cases i with ⟨-, heq⟩ | ⟨c, rest, -, -, heq⟩ |
    ⟨hfull, hnone, -⟩
  · rw [heq]
    refine ⟨⟨s.nextConn, registered_connectNew.mpr ?_⟩, rfl⟩
    rw [if_pos rfl]
    exact ⟨rfl, rfl⟩
  · rw [heq]
    refine ⟨⟨c, registered_connectPooled.mpr ?_⟩, rfl⟩
    rw [if_pos rfl]
    exact ⟨rfl, rfl⟩
  · rcases hcan with hroom | havail
    · exact absurd hroom hfull
    · exact absurd hnone havail

theorem connect_waits {s : ServerState} (i : InterceptId)
    (hcan : ¬ s.CanDispatch) : s.connect i = s.enqueue i := by
  obtain ⟨hroom, havail⟩ := not_or.mp hcan
  exact connect_queued i hroom (not_not.mp havail)

/-- `connect` removes no entry. -/
theorem registered_connect {config : FcgiPluginConfig} {s : ServerState}
    (h : Consistent config s) (i : InterceptId) {id : Nat} {j : InterceptId}
    {c : ConnId} (hr : s.Registered id j c) :
    (s.connect i).Registered id j c := by
  have hne : s.nextId ≠ id := Nat.ne_of_gt (h.entry_id hr).2
  rcases s.connect_cases i with ⟨-, heq⟩ | ⟨d, rest, -, -, heq⟩ |
    ⟨-, -, heq⟩
  · rw [heq, registered_connectNew, if_neg hne]
    exact hr
  · rw [heq, registered_connectPooled, if_neg hne]
    exact hr
  · rw [heq]
    exact hr

/-- `connect` adds at most the entry under the next id. -/
theorem registered_of_connect {s : ServerState} (i : InterceptId) {id : Nat}
    {j : InterceptId} {c : ConnId} (hr : (s.connect i).Registered id j c) :
    s.nextId = id ∨ s.Registered id j c := by
  rcases s.connect_cases i with ⟨-, heq⟩ | ⟨d, rest, -, -, heq⟩ |
    ⟨-, -, heq⟩
  · rw [heq, registered_connectNew] at hr
    split at hr
    · next hid => exact .inl hid
    · exact .inr hr
  · rw [heq, registered_connectPooled] at hr
    split at hr
    · next hid => exact .inl hid
    · exact .inr hr
  · rw [heq] at hr
    exact .inr hr

theorem createFCGIClient_ended (conn : ServerConnection)
    (config : FcgiPluginConfig) (x : ServerIntercept) :
    (conn.createFCGIClient config x).2.ended = x.ended := by
  simp only [ServerConnection.createFCGIClient]
  split <;> rfl

/-- `connect` neither adds nor ends an intercept. -/
theorem connect_intercepts (s : ServerState) (i j : InterceptId) :
    ((s.connect i).intercepts j).connected = (s.intercepts j).connected ∧
      ((s.connect i).intercepts j).ended = (s.intercepts j).ended := by
  rcases s.connect_cases i with ⟨-, heq⟩ | ⟨c, rest, -, -, heq⟩ |
    ⟨-, -, heq⟩
  · rw [heq]
    by_cases hji : j = i
    · rw [hji, connectNew_intercepts_self]
      exact ⟨rfl, rfl⟩
    · rw [connectNew_intercepts_of_ne s hji]
      exact ⟨rfl, rfl⟩
  · rw [heq]
    by_cases hji : j = i
    · rw [hji, connectPooled_intercepts_self]
      exact ⟨(ServerConnection.createFCGIClient_intercept _ _ _).1,
        createFCGIClient_ended _ _ _⟩
    · rw [connectPooled_intercepts_of_ne s c rest hji]
      exact ⟨rfl, rfl⟩
  · rw [heq]
    exact ⟨rfl, rfl⟩

/-- `connect` leaves the connections in use as they are. -/
theorem connect_conns {config : FcgiPluginConfig} {s : ServerState}
    (h : Consistent config s) (i : InterceptId) {c : ConnId}
    (hmem : c ∈ s.pool.connections)
    (hbusy : c ∉ s.pool.availableConnections) :
    (s.connect i).conns c = s.conns c := by
  rcases s.connect_cases i with ⟨-, heq⟩ | ⟨d, rest, -, htake, heq⟩ |
    ⟨-, -, heq⟩
  · rw [heq]
    exact connectNew_conns_of_ne s i (Nat.ne_of_lt (h.conn_lt c hmem))
  · rw [heq]
    apply connectPooled_conns_of_ne s i rest
    rintro rfl
    apply hbusy
    rw [htake]
    exact List.mem_cons_self
  · rw [heq]
    rfl

/-! ### What an event does -/

/-- The registry, the pool and the queue are the same, and no request has come
back to life. -/
structure Alike (s s' : ServerState) : Prop where
  pool : s'.pool = s.pool
  queue : s'.queue = s.queue
  interceptList : s'.interceptList = s.interceptList
  connected : ∀ i, (s'.intercepts i).connected = (s.intercepts i).connected
  ended : ∀ i, (s.intercepts i).ended = true → (s'.intercepts i).ended = true

theorem Alike.registered {s s' : ServerState} (halike : s.Alike s') {id : Nat}
    {i : InterceptId} {c : ConnId} :
    s'.Registered id i c ↔ s.Registered id i c := by
  simp only [Registered, halike.interceptList]

theorem Alike.setConn {s s' : ServerState} (halike : s.Alike s') (c : ConnId)
    (conn : ServerConnection) : s.Alike (s'.setConn c conn) :=
  ⟨halike.pool, halike.queue, halike.interceptList, halike.connected,
    halike.ended⟩

theorem Alike.refl (s : ServerState) : s.Alike s :=
  ⟨rfl, rfl, rfl, fun _ => rfl, fun _ h => h⟩

theorem Alike.setIntercept {s s' : ServerState} (halike : s.Alike s')
    {i : InterceptId} {x : ServerIntercept}
    (hconnected : x.connected = (s.intercepts i).connected)
    (hended : (s.intercepts i).ended = true → x.ended = true) :
    s.Alike (s'.setIntercept i x) := by
  refine ⟨halike.pool, halike.queue, halike.interceptList, ?_, ?_⟩
  · intro j
    by_cases hji : j = i
    · rw [hji, setIntercept_intercepts_self]
      exact hconnected
    · rw [setIntercept_intercepts_of_ne s' x hji]
      exact halike.connected j
  · intro j hj
    by_cases hji : j = i
    · rw [hji, setIntercept_intercepts_self]
      exact hended (hji ▸ hj)
    · rw [setIntercept_intercepts_of_ne s' x hji]
      exact halike.ended j hj

/-- The cases in which a connection is closed without `reConnect`. -/
def ConnEvent.Fails (s : ServerState) (c : ConnId) (event : ConnEvent) : Prop :=
  event = .error ∨ event = .eos ∧ (s.conns c).writeio.readEnable = true

/-- Everything an event does to the registry, the pool and the queue. -/
inductive Effect (config : FcgiPluginConfig) (s : ServerState) :
    Event → ServerState → Prop
  | quiet {e s'} (halike : s.Alike s') : Effect config s e s'
  | connect {i txn requestId} : Effect config s (.connect i txn requestId)
      ((s.setIntercept i (ServerIntercept.new txn requestId)).connect i)
  | again {c event i} (hr : s.Registered (s.conns c).requestId i c)
      (hagain : s.redispatched (.connection c event) = some i)
      (hcons : Consistent config
        ((s.unregister (s.conns c).requestId).connect i)) :
      Effect config s (.connection c event)
        (((s.unregister (s.conns c).requestId).connect i).closeConnection c)
  | lost {c event s₁} (halike : s.Alike s₁) (hcons : Consistent config s₁)
      (hid : (s₁.conns c).requestId = (s.conns c).requestId)
      (hnone : ∀ i d, ¬ s.Registered (s.conns c).requestId i d) :
      Effect config s (.connection c event) (s₁.connectionClosed c)
  | fail {c event i s₁} (halike : s.Alike s₁) (hcons : Consistent config s₁)
      (hid : (s₁.conns c).requestId = (s.conns c).requestId)
      (hr : s.Registered (s.conns c).requestId i c) (hfails : event.Fails s c)
      (hended : (s.conns c).state ≠ .complete →
        (s.intercepts i).outputCompleteState = false →
        (s₁.intercepts i).ended = true) :
      Effect config s (.connection c event) (s₁.connectionClosed c)
  | finish {e id i c s₁} (halike : s.Alike s₁) (hcons : Consistent config s₁)
      (hr : s.Registered id i c)
      (hended : Owns s e → (s₁.intercepts i).ended = true) :
      Effect config s e (((s₁.unregister id).releaseConnection c).connectNext)

namespace Effect

variable {config : FcgiPluginConfig} {s : ServerState}

theorem closeConnection_of_lost {c : ConnId} {event : ConnEvent}
    (h : Consistent config s)
    (hget : s.getIntercept (s.conns c).requestId = none) :
    Effect config s (.connection c event) (s.closeConnection c) := by
  refine .lost (.setConn (.refl s) c _) (h.setConn (.of_eq rfl rfl rfl)) ?_
    (getIntercept_eq_none.mp hget)
  rw [setConn_conns_self]

theorem retry {c : ConnId} {event : ConnEvent} (h : Consistent config s)
    (halive : (s.conns c).alive = true)
    (hagain : s.redispatched (.connection c event) =
      s.getIntercept (s.conns c).requestId)
    (hbound : (s.retry c).issued < 2 ^ 32 - 1) :
    Effect config s (.connection c event) (s.retry c) := by
  have hcons := h.reConnect (s.conns c).requestId hbound
  cases hget : s.getIntercept (s.conns c).requestId with
  | none =>
      rw [ServerState.retry, reConnect_none (getIntercept_eq_none.mp hget)]
      exact closeConnection_of_lost h hget
  | some i =>
      obtain ⟨d, hr⟩ := getIntercept_eq_some.mp hget
      obtain rfl := h.owner c ((h.alive_iff c).mp halive) hr
      rw [reConnect_registered hr] at hcons
      rw [ServerState.retry, reConnect_registered hr]
      exact .again hr (hagain.trans hget) hcons

/-- A registered request is failed and its connection closed. -/
theorem failed {c : ConnId} {event : ConnEvent} {i : InterceptId}
    {x : ServerIntercept} (h : Consistent config s)
    (hr : s.Registered (s.conns c).requestId i c) (hfails : event.Fails s c)
    (hx : (s.intercepts i).Evolves x) (hended : x.ended = true) :
    Effect config s (.connection c event)
      ((s.setIntercept i x).closeConnection c) := by
  have halike : s.Alike (s.setIntercept i x) :=
    .setIntercept (.refl s) hx.connected fun _ => hended
  have hcons : Consistent config (s.setIntercept i x) := h.setIntercept hx
  refine .fail (halike.setConn c _) (hcons.setConn (.of_eq rfl rfl rfl)) ?_ hr
    hfails ?_
  · rw [setConn_conns_self]
    rfl
  · intro _ _
    show ((s.setIntercept i x).intercepts i).ended = true
    rw [setIntercept_intercepts_self]
    exact hended

theorem complete {e : Event} {c : ConnId} {id : Nat} {i : InterceptId}
    {s₁ : ServerState} (halike : s.Alike s₁) (hcons : Consistent config s₁)
    (hr : s.Registered id i c) : Effect config s e (s₁.complete i c) := by
  have hr₁ := halike.registered.mpr hr
  rw [complete_registered (hcons.entry_intercept hr₁) hr₁]
  have hset : Consistent config (s₁.setConn c
      { s₁.conns c with state := .complete }) :=
    hcons.setConn (.of_eq rfl rfl rfl)
  have hended : (s₁.intercepts i).outputComplete.ended = true := by
    simp [ServerIntercept.ended, ServerIntercept.outputComplete]
  refine @Effect.finish config s e id i c ((s₁.setConn c { s₁.conns c with
    state := .complete }).setIntercept i (s₁.intercepts i).outputComplete)
    ?_ ?_ hr ?_
  · exact (halike.setConn c _).setIntercept (halike.connected i)
      fun _ => hended
  · exact hset.setIntercept ⟨rfl, rfl, rfl⟩
  · intro _
    rw [setIntercept_intercepts_self]
    exact hended

theorem onNetConnect (e : Event) (c : ConnId) :
    Effect config s e (s.onNetConnect c) := by
  cases hget : s.getIntercept (s.conns c).requestId with
  | none =>
      rw [onNetConnect_idle hget]
      exact .quiet (.setConn (.refl s) c _)
  | some i =>
      rw [onNetConnect_registered hget]
      refine .quiet (.setIntercept (.setConn (.refl s) c _) ?_ ?_)
      · exact (ServerConnection.createFCGIClient_intercept _ _ _).1
      · rw [createFCGIClient_ended]
        exact fun hended => hended

theorem onReadReady {parse : MimeHdrParse} {e : Event} {c : ConnId}
    {blocks : List Bytes} {s' : ServerState} (h : Consistent config s)
    (halive : (s.conns c).alive = true)
    (hstep : s.onReadReady parse c blocks = some s') :
    Effect config s e s' := by
  rcases onReadReady_cases hstep with ⟨-, rfl⟩ |
    ⟨i, responseStatus, conn, x, hget, hrun, rfl⟩
  · exact .quiet (.setConn (.refl s) c _)
  · obtain ⟨d, hr⟩ := getIntercept_eq_some.mp hget
    obtain rfl := h.owner c ((h.alive_iff c).mp halive) hr
    obtain ⟨hconn, hx⟩ := ServerConnection.evolves_interceptTransferData hrun
    have halike : s.Alike ((s.setConn d conn).setIntercept i x) := by
      refine .setIntercept (.setConn (.refl s) d conn) hx.connected ?_
      rw [ServerConnection.interceptTransferData_ended hrun]
      exact fun hended => hended
    have hset : Consistent config (s.setConn d conn) := by
      refine h.setConn (.trans ?_ hconn)
      exact .of_eq rfl rfl rfl
    cases responseStatus with
    | false => exact .quiet halike
    | true => exact complete halike (hset.setIntercept hx) hr

theorem onLateEos {c : ConnId} (h : Consistent config s)
    (halive : (s.conns c).alive = true)
    (hlate : (s.conns c).writeio.readEnable = true) :
    Effect config s (.connection c .eos) (s.onLateEos c) := by
  cases hget : s.getIntercept (s.conns c).requestId with
  | none =>
      simp only [ServerState.onLateEos, hget]
      exact closeConnection_of_lost h hget
  | some i =>
      obtain ⟨d, hr⟩ := getIntercept_eq_some.mp hget
      obtain rfl := h.owner c ((h.alive_iff c).mp halive) hr
      simp only [ServerState.onLateEos, hget]
      split
      · refine failed h hr (.inr ⟨rfl, hlate⟩) ⟨rfl, rfl, rfl⟩ ?_
        simp [ServerIntercept.ended, ServerIntercept.error]
      · next hdone =>
          refine .fail (.setConn (.refl s) d _)
            (h.setConn (.of_eq rfl rfl rfl)) ?_ hr (.inr ⟨rfl, hlate⟩) ?_
          · rw [setConn_conns_self]
          · intro hstate hopen
            exact absurd ⟨hstate, hopen⟩ hdone

theorem handlePHPConnectionEvents {parse : MimeHdrParse} {c : ConnId}
    {event : ConnEvent} {s' : ServerState} (h : Consistent config s)
    (halive : (s.conns c).alive = true)
    (hstep : s.handlePHPConnectionEvents parse c event = some s')
    (hbound : s'.issued < 2 ^ 32 - 1) :
    Effect config s (.connection c event) s' := by
  have hown : ∀ {i d}, s.Registered (s.conns c).requestId i d → d = c :=
    fun hr => h.owner c ((h.alive_iff c).mp halive) hr
  cases event with
  | netConnect =>
      rw [← Option.some.inj hstep]
      exact onNetConnect _ c
  | netConnectFailed =>
      simp only [ServerState.handlePHPConnectionEvents,
        Option.some.injEq] at hstep
      rw [← hstep] at hbound ⊢
      exact retry h halive rfl hbound
  | readReady blocks => exact onReadReady h halive hstep
  | readComplete =>
      simp only [ServerState.handlePHPConnectionEvents] at hstep
      split at hstep
      · next i hget =>
          obtain ⟨d, hr⟩ := getIntercept_eq_some.mp hget
          obtain rfl := hown hr
          rw [← Option.some.inj hstep]
          exact complete (.refl s) h hr
      · contradiction
  | writeReady =>
      simp only [ServerState.handlePHPConnectionEvents] at hstep
      split at hstep
      · obtain ⟨conn, -, rfl⟩ := Option.map_eq_some_iff.mp hstep
        exact .quiet (.setConn (.refl s) c conn)
      · rw [← Option.some.inj hstep]
        exact .quiet (.refl s)
  | writeComplete =>
      obtain ⟨conn, -, rfl⟩ := Option.map_eq_some_iff.mp hstep
      exact .quiet (.setConn (.refl s) c conn)
  | eos =>
      simp only [ServerState.handlePHPConnectionEvents,
        Option.some.injEq] at hstep
      rw [← hstep] at hbound ⊢
      split
      · next hlate => exact onLateEos h halive hlate
      · next hearly =>
          rw [if_neg hearly] at hbound
          refine retry h halive ?_ hbound
          simp only [redispatched, if_neg hearly]
  | error =>
      simp only [ServerState.handlePHPConnectionEvents] at hstep
      split at hstep
      · rw [← Option.some.inj hstep]
        cases hget : s.getIntercept (s.conns c).requestId with
        | none =>
            simp only [onError, hget]
            exact .lost (.refl s) h rfl (getIntercept_eq_none.mp hget)
        | some i =>
            obtain ⟨d, hr⟩ := getIntercept_eq_some.mp hget
            obtain rfl := hown hr
            simp only [onError, hget]
            refine failed h hr (.inl rfl) ⟨rfl, rfl, rfl⟩ ?_
            simp [ServerIntercept.ended, ServerIntercept.badGateway,
              ServerIntercept.error]
      · contradiction

theorem destroy (h : Consistent config s) (i : InterceptId) :
    Effect config s (.destroy i) (s.destroy i) := by
  have hended : ∀ x : ServerIntercept, x.destroyed = true →
      x.ended = true := by
    intro x hx
    simp [ServerIntercept.ended, hx]
  unfold ServerState.destroy
  simp only
  split
  · exact .quiet (.setIntercept (.refl s) rfl fun _ => hended _ rfl)
  · have halike : s.Alike (s.setIntercept i { s.intercepts i with
        destroyed := true, clientAborted := true }) :=
      .setIntercept (.refl s) rfl fun _ => hended _ rfl
    cases hlookup : s.interceptList[(s.intercepts i).requestId]? with
    | none =>
        have hnone := lookup_eq_none.mp hlookup
        rw [removeIntercept_none (by exact hnone)]
        exact .quiet halike
    | some entry =>
        obtain ⟨j, c⟩ := entry
        have hr : s.Registered (s.intercepts i).requestId j c := hlookup
        rw [removeIntercept_registered (by exact hr)]
        refine .finish halike (h.setIntercept ⟨rfl, rfl, rfl⟩) hr ?_
        intro howns
        obtain rfl := h.owned_entry i howns hr
        rw [setIntercept_intercepts_self]
        exact hended _ rfl

/-- Every event has one of the effects. -/
theorem of_step {parse : MimeHdrParse} {e : Event} {s' : ServerState}
    (h : Consistent config s) (hexists : Exists s e)
    (hstep : s.step parse e = some s') (hbound : s'.issued < 2 ^ 32 - 1) :
    Effect config s e s' := by
  replace hstep := ServerState.handle_of_step hstep
  cases e with
  | connect i txn requestId =>
      rw [← Option.some.inj hstep]
      exact .connect
  | connection c event => exact handlePHPConnectionEvents h hexists hstep hbound
  | destroy i =>
      rw [← Option.some.inj hstep]
      exact destroy h i
  | input i input =>
      rcases consume_cases hstep with ⟨i', c, conn, -, -, rfl⟩ | ⟨-, rfl⟩
      · refine .quiet (.setIntercept (.setConn (.refl s) c conn) ?_ ?_)
        · cases input <;> rfl
        · cases input <;> exact fun hended => hended
      · refine .quiet (.setIntercept (.refl s) ?_ ?_)
        · cases input <;> rfl
        · cases input <;> exact fun hended => hended
  | respond c r =>
      rw [← Option.some.inj hstep]
      exact .quiet (.setConn (.refl s) c _)

end Effect

/-! ### Giving a connection back -/

section Release

variable {config : FcgiPluginConfig} {s : ServerState}

/-- The id of a detached connection is that of no entry. -/
theorem registered_releaseConnection (h : Consistent config s) (c : ConnId)
    {id : Nat} {i : InterceptId} {d : ConnId} :
    (s.releaseConnection c).Registered id i d ↔ s.Registered id i d := by
  unfold releaseConnection
  simp only
  split
  · exact Iff.rfl
  · rw [registered_connectionClosed, setConn_conns_self, registered_setConn]
    constructor
    · exact fun hr => hr.2
    · exact fun hr => ⟨Nat.ne_of_lt (h.entry_id hr).1, hr⟩

theorem mem_connections_connectionClosed {c d : ConnId} :
    d ∈ (s.connectionClosed c).pool.connections ↔
      d ∈ s.pool.connections ∧ d ≠ c := by
  simp [connectionClosed, deleteConnection, setConn, unregister]

theorem mem_available_connectionClosed {c d : ConnId} :
    d ∈ (s.connectionClosed c).pool.availableConnections ↔
      d ∈ s.pool.availableConnections ∧ d ≠ c := by
  simp [connectionClosed, deleteConnection, setConn, unregister]

/-- A connection that is given back makes room for the next request. -/
theorem canDispatch_releaseConnection (h : Consistent config s) {c : ConnId}
    (hmem : c ∈ s.pool.connections) : (s.releaseConnection c).CanDispatch := by
  unfold releaseConnection
  simp only
  split
  · exact .inr (List.append_ne_nil_of_right_ne_nil _ (List.cons_ne_nil c []))
  · left
    refine Nat.lt_of_lt_of_le ?_ h.connections_le
    have hlt : (s.pool.connections.filter (· ≠ c)).length <
        s.pool.connections.length :=
      List.length_filter_lt_length_iff_exists.mpr ⟨c, hmem, by simp⟩
    exact hlt

end Release

/-! ### No connection is idle outside the pool -/

/-- Every connection is available or registered, or one of `out`. -/
def Covered (out : ConnId → Prop) (s : ServerState) : Prop :=
  ∀ c ∈ s.pool.connections, out c ∨ c ∈ s.pool.availableConnections ∨
    ∃ id i, s.Registered id i c

/-- Some connection is in use. -/
def Busy (s : ServerState) : Prop :=
  ∃ id i c, s.Registered id i c

/-- Nobody waits while no connection is in use. -/
def Served (s : ServerState) : Prop :=
  s.queue.pendingList ≠ [] → s.Busy

namespace Covered

variable {config : FcgiPluginConfig} {s : ServerState} {out : ConnId → Prop}

theorem connect (h : Consistent config s) (hcov : s.Covered out)
    (i : InterceptId) : (s.connect i).Covered out := by
  have hkeep : ∀ {c}, (∃ id j, s.Registered id j c) →
      ∃ id j, (s.connect i).Registered id j c := by
    rintro c ⟨id, j, hr⟩
    exact ⟨id, j, registered_connect h i hr⟩
  intro c hc
  rcases s.connect_cases i with ⟨hroom, heq⟩ |
    ⟨d, rest, hfull, htake, heq⟩ | ⟨-, -, heq⟩
  · have hpool : c ∈ s.pool.connections ++ [s.nextConn] := by
      rw [heq] at hc
      exact hc
    rcases List.mem_append.mp hpool with hold | hnew
    · rcases hcov c hold with hout | havail | hr
      · exact .inl hout
      · right
        left
        rw [heq]
        exact havail
      · exact .inr (.inr (hkeep hr))
    · refine .inr (.inr ⟨s.nextId, i, ?_⟩)
      rw [heq, registered_connectNew, if_pos rfl]
      exact ⟨rfl, (List.mem_singleton.mp hnew).symm⟩
  · have hpool : c ∈ s.pool.connections := by
      rw [heq] at hc
      exact hc
    rcases hcov c hpool with hout | havail | hr
    · exact .inl hout
    · rw [htake] at havail
      rcases List.mem_cons.mp havail with rfl | hrest
      · refine .inr (.inr ⟨s.nextId, i, ?_⟩)
        rw [heq, registered_connectPooled, if_pos rfl]
        exact ⟨rfl, rfl⟩
      · right
        left
        rw [heq]
        exact hrest
    · exact .inr (.inr (hkeep hr))
  · rw [heq] at hc ⊢
    exact hcov c hc

theorem connectNext (h : Consistent config s) (hcov : s.Covered out) :
    s.connectNext.Covered out := by
  unfold ServerState.connectNext RequestQueue.popFromQueue
  cases hqueue : s.queue.pendingList with
  | nil => exact hcov
  | cons i rest =>
      obtain ⟨hpop, -, -⟩ := h.pop hqueue
      have hcov' : Covered out
          { s with queue := { s.queue with pendingList := rest } } := hcov
      exact hcov'.connect hpop i

theorem unregister {c : ConnId} {id : Nat} {i : InterceptId}
    (hr : s.Registered id i c) (hcov : s.Covered fun _ => False) :
    (s.unregister id).Covered (· = c) := by
  intro d hd
  rcases hcov d hd with hfalse | havail | ⟨id', j, hr'⟩
  · exact hfalse.elim
  · exact .inr (.inl havail)
  · by_cases hid : id = id'
    · rw [← hid] at hr'
      have heq := hr.symm.trans hr'
      simp only [Option.some.injEq, Prod.mk.injEq] at heq
      exact .inl heq.2.symm
    · exact .inr (.inr ⟨id', j, registered_unregister.mpr ⟨hid, hr'⟩⟩)

theorem connectionClosed {c : ConnId}
    (hown : ∀ {i d}, s.Registered (s.conns c).requestId i d → d = c)
    (hcov : s.Covered (· = c)) :
    (s.connectionClosed c).Covered fun _ => False := by
  intro d hd
  obtain ⟨hmem, hne⟩ := mem_connections_connectionClosed.mp hd
  rcases hcov d hmem with heq | havail | ⟨id, i, hr⟩
  · exact absurd heq hne
  · exact .inr (.inl (mem_available_connectionClosed.mpr ⟨havail, hne⟩))
  · refine .inr (.inr ⟨id, i, registered_connectionClosed.mpr ⟨?_, hr⟩⟩)
    rintro rfl
    exact hne (hown hr)

theorem releaseConnection (h : Consistent config s) {c : ConnId}
    (hcov : s.Covered (· = c)) :
    (s.releaseConnection c).Covered fun _ => False := by
  unfold ServerState.releaseConnection
  simp only
  split
  · intro d hd
    rcases hcov d hd with rfl | havail | hr
    · exact .inr (.inl (List.mem_append_right _ (List.mem_singleton_self d)))
    · exact .inr (.inl (List.mem_append_left _ havail))
    · exact .inr (.inr hr)
  · refine connectionClosed ?_ (s := s.setConn c _) hcov
    intro i d hr
    rw [setConn_conns_self] at hr
    exact absurd (h.entry_id hr).1 (Nat.lt_irrefl 0)

theorem mono {out' : ConnId → Prop} (hle : ∀ c, out c → out' c)
    (hcov : s.Covered out) : s.Covered out' := by
  intro c hc
  rcases hcov c hc with hout | hrest
  · exact .inl (hle c hout)
  · exact .inr hrest

theorem alike {s₁ : ServerState} (halike : s.Alike s₁)
    (hcov : s.Covered out) : s₁.Covered out := by
  intro c hc
  rw [halike.pool] at hc ⊢
  rcases hcov c hc with hout | havail | ⟨id, i, hr⟩
  · exact .inl hout
  · exact .inr (.inl havail)
  · exact .inr (.inr ⟨id, i, halike.registered.mpr hr⟩)

end Covered

end ServerState

end AtsFastcgi
