/-
Invariants of one connection and one intercept.  Predicates on a waiting
intercept, on an idle connection and on a registered pair hold along every run
once each method that touches such an object keeps them; the registry, the
pool and the queue are dealt with here, once for all such predicates.
-/
import AtsFastcgi.Registry

namespace AtsFastcgi

open ServerState (ConnEvent Event)

/-- A connection after `removeIntercept` has given it back to the pool. -/
def ServerConnection.released (c : ServerConnection) : ServerConnection :=
  c.detach.reuse

/-- A connection after completion has marked it. -/
def ServerConnection.completed (c : ServerConnection) : ServerConnection :=
  ServerConnection.released { c with state := .complete }

/-- An intercept after `~ServerIntercept`. -/
def ServerIntercept.destroyedObject (x : ServerIntercept) : ServerIntercept :=
  if x.outputCompleteState then { x with destroyed := true }
  else { x with destroyed := true, clientAborted := true }

theorem ServerIntercept.evolves_destroyedObject (x : ServerIntercept) :
    x.Evolves x.destroyedObject := by
  unfold destroyedObject
  split <;> exact ⟨rfl, rfl, rfl⟩

theorem ServerState.destroy_eq (s : ServerState) (i : InterceptId) :
    s.destroy i =
      if (s.intercepts i).outputCompleteState then
        s.setIntercept i (s.intercepts i).destroyedObject
      else
        (s.setIntercept i (s.intercepts i).destroyedObject).removeIntercept
          (s.intercepts i).requestId := by
  by_cases hcomplete : (s.intercepts i).outputCompleteState = true <;>
    simp [destroy, ServerIntercept.destroyedObject, hcomplete]

/-- The connection whose request an event ends. -/
def ServerState.finished (parse : MimeHdrParse) (s : ServerState) :
    Event → Option ConnId
  | .connection c (.readReady blocks) =>
      match s.getIntercept (s.conns c).requestId with
      | some i =>
          match interceptTransferData parse ((s.conns c).receive blocks)
            (s.intercepts i) with
          | some (true, _, _) => some c
          | _ => none
      | none => none
  | .connection c .readComplete =>
      (s.getIntercept (s.conns c).requestId).map fun _ => c
  | .destroy i =>
      if (s.intercepts i).outputCompleteState then none
      else s.getServerConnection (s.intercepts i).requestId
  | _ => none

/-- Predicates on the objects of a worker thread: on every intercept, on one
that waits, on an available connection, on a registered pair under the request
id it has, and on an intercept for which a new connection is made. -/
structure LocalPredicates where
  ever : ServerIntercept → Prop
  waiting : ServerIntercept → Prop
  idle : ServerConnection → Prop
  bound : Nat → ServerConnection → ServerIntercept → Prop
  fresh : ServerIntercept → Prop := fun _ => True

namespace LocalPredicates

variable (L : LocalPredicates)

structure Holds (s : ServerState) : Prop where
  ever : ∀ i, (s.intercepts i).connected = true → L.ever (s.intercepts i)
  waiting : ∀ i ∈ s.queue.pendingList, L.waiting (s.intercepts i)
  idle : ∀ c ∈ s.pool.availableConnections, L.idle (s.conns c)
  bound : ∀ {id i c}, s.Registered id i c →
    L.bound id (s.conns c) (s.intercepts i)

/-- When the connection is given back, the next intercept may be connected,
also to a new connection. -/
def NextFresh (s : ServerState) (c : ConnId) : Prop :=
  ∀ j ∈ s.queue.pendingList.head?,
    ((s.conns c).reqCount < (s.conns c).maxRequests →
      s.pool.connections.length < s.pool.maxConn) →
    L.fresh (s.intercepts j)

/-- What the methods have to keep, under a guard on the events. -/
structure Preserved (parse : MimeHdrParse) (config : FcgiPluginConfig)
    (guard : ServerState → Event → Prop) : Prop where
  new : ∀ txn requestId, L.ever (ServerIntercept.new txn requestId) ∧
    L.waiting (ServerIntercept.new txn requestId)
  new_fresh : ∀ txn requestId, L.fresh (ServerIntercept.new txn requestId) := by
    intros
    trivial
  bind_new : ∀ {id x}, L.ever x → L.waiting x → L.fresh x →
    L.ever { x with requestId := id } ∧
      L.bound id ({ ServerConnection.new config with
        requestId := id }.createConnection) { x with requestId := id }
  bind_idle : ∀ {id conn x}, (∀ w ∈ conn.written, w.1 < id) → L.idle conn →
    L.ever x → L.waiting x →
    L.ever ({ conn with state := .ready, requestId := id }.createFCGIClient
        config { x with requestId := id }).2 ∧
      L.bound id
        ({ conn with state := .ready, requestId := id }.createFCGIClient
          config { x with requestId := id }).1
        ({ conn with state := .ready, requestId := id }.createFCGIClient
          config { x with requestId := id }).2
  net_connect : ∀ {s c id i}, Consistent config s →
    guard s (.connection c .netConnect) → s.Registered id i c →
    L.ever (s.intercepts i) → L.bound id (s.conns c) (s.intercepts i) →
    L.ever ((s.conns c).netConnect.createFCGIClient config
        (s.intercepts i)).2 ∧
      L.bound id
        ((s.conns c).netConnect.createFCGIClient config (s.intercepts i)).1
        ((s.conns c).netConnect.createFCGIClient config (s.intercepts i)).2
  net_connect_idle : ∀ {s c}, guard s (.connection c .netConnect) →
    L.idle (s.conns c) → L.idle (s.conns c).netConnect
  retry : ∀ {s c id i event}, Consistent config s →
    guard s (.connection c event) →
    event = .netConnectFailed ∨
      event = .eos ∧ (s.conns c).writeio.readEnable = false →
    s.Registered id i c → L.bound id (s.conns c) (s.intercepts i) →
    L.waiting (s.intercepts i)
  retry_fresh : ∀ {s c id i event}, guard s (.connection c event) →
    event = .netConnectFailed ∨
      event = .eos ∧ (s.conns c).writeio.readEnable = false →
    (s.conns c).requestId = id → s.Registered id i c →
    s.pool.connections.length < s.pool.maxConn →
    L.fresh (s.intercepts i) := by
    intros
    trivial
  next_fresh : ∀ {s e c}, guard s e → s.finished parse e = some c →
    L.NextFresh s c := by
    intros
    intro j _ _
    trivial
  fail : ∀ {id conn x}, L.ever x → L.bound id conn x →
    L.ever x.error ∧ L.ever x.badGateway
  read : ∀ {s c blocks id i responseStatus conn x}, Consistent config s →
    guard s (.connection c (.readReady blocks)) → s.Registered id i c →
    L.ever (s.intercepts i) → L.bound id (s.conns c) (s.intercepts i) →
    interceptTransferData parse ((s.conns c).receive blocks)
      (s.intercepts i) = some (responseStatus, conn, x) →
    L.ever x ∧ if responseStatus then
        L.ever x.outputComplete ∧
          (conn.reqCount < conn.maxRequests → L.idle conn.completed)
      else L.bound id conn x
  read_idle : ∀ {s c blocks}, guard s (.connection c (.readReady blocks)) →
    L.idle (s.conns c) → L.idle ((s.conns c).receive blocks)
  read_complete : ∀ {s c id i}, guard s (.connection c .readComplete) →
    s.Registered id i c → L.ever (s.intercepts i) →
    L.bound id (s.conns c) (s.intercepts i) →
    L.ever (s.intercepts i).outputComplete ∧
      ((s.conns c).reqCount < (s.conns c).maxRequests →
        L.idle (s.conns c).completed)
  open_read : ∀ {id conn conn' x}, conn.read = some conn' →
    (L.bound id conn x → L.bound id conn' x) ∧ (L.idle conn → L.idle conn')
  input : ∀ {s c id i input conn}, Consistent config s →
    guard s (.input i input) → s.Registered id i c →
    L.ever (s.intercepts i) → L.bound id (s.conns c) (s.intercepts i) →
    input.write (s.conns c) = some conn →
    L.ever (input.sent (input.log (s.intercepts i))) ∧
      L.bound id conn (input.sent (input.log (s.intercepts i)))
  input_kept : ∀ {s i input}, guard s (.input i input) →
    L.ever (s.intercepts i) →
    L.ever (input.kept (input.log (s.intercepts i))) ∧
      (i ∈ s.queue.pendingList → L.waiting (s.intercepts i) →
        L.waiting (input.kept (input.log (s.intercepts i))))
  destroy : ∀ {s i}, guard s (.destroy i) → L.ever (s.intercepts i) →
    L.ever (s.intercepts i).destroyedObject ∧
      (i ∈ s.queue.pendingList → L.waiting (s.intercepts i) →
        L.waiting (s.intercepts i).destroyedObject)
  abort : ∀ {s i id c}, Consistent config s → guard s (.destroy i) →
    s.Registered id i c → L.bound id (s.conns c) (s.intercepts i) →
    if (s.intercepts i).outputCompleteState then
      L.bound id (s.conns c) (s.intercepts i).destroyedObject
    else
      (s.conns c).reqCount < (s.conns c).maxRequests →
        L.idle (s.conns c).released
  respond : ∀ {s c r}, guard s (.respond c r) →
    (∀ {id i}, s.Registered id i c →
      L.bound id (s.conns c) (s.intercepts i) →
      L.bound id { s.conns c with backend := (s.conns c).backend.send r }
        (s.intercepts i)) ∧
      (L.idle (s.conns c) →
        L.idle { s.conns c with backend := (s.conns c).backend.send r })

/-- What has to be kept besides when an intercept is fed or destroyed that its
transaction was not given: the id it happens to have may be that of another
request. -/
structure Strays (guard : ServerState → Event → Prop) : Prop where
  input : ∀ {s i input id i' c conn}, guard s (.input i input) →
    s.Registered id i' c → input.write (s.conns c) = some conn →
    L.bound id (s.conns c) (s.intercepts i') →
    L.bound id conn (s.intercepts i')
  input_sent : ∀ {s i input}, guard s (.input i input) →
    L.ever (s.intercepts i) →
    L.ever (input.sent (input.log (s.intercepts i))) ∧
      (L.waiting (s.intercepts i) →
        L.waiting (input.sent (input.log (s.intercepts i))))
  abort : ∀ {s i id i' c}, guard s (.destroy i) → s.Registered id i' c →
    L.bound id (s.conns c) (s.intercepts i') →
    (s.conns c).reqCount < (s.conns c).maxRequests →
    L.idle (s.conns c).released
  abort_fresh : ∀ {x}, L.fresh x → L.fresh x.destroyedObject := by
    intros
    trivial

theorem NextFresh.of_eq {L : LocalPredicates} {s s' : ServerState}
    {c : ConnId} (hnext : L.NextFresh s c) (hqueue : s'.queue = s.queue)
    (hpool : s'.pool = s.pool)
    (hcount : (s'.conns c).reqCount = (s.conns c).reqCount)
    (hmax : (s'.conns c).maxRequests = (s.conns c).maxRequests)
    (hsame : ∀ j ∈ s.queue.pendingList, s'.intercepts j = s.intercepts j) :
    L.NextFresh s' c := by
  intro j hj hroom
  rw [hqueue] at hj
  rw [hpool, hcount, hmax] at hroom
  rw [hsame j (List.mem_of_head? hj)]
  exact hnext j hj hroom

namespace Holds

variable {L : LocalPredicates} {parse : MimeHdrParse}
  {config : FcgiPluginConfig} {guard : ServerState → Event → Prop}
  {s : ServerState}

/-! ### Objects -/

theorem unregister (hL : L.Holds s) (id : Nat) : L.Holds (s.unregister id) :=
  ⟨hL.ever, hL.waiting, hL.idle, fun hr =>
    hL.bound (ServerState.registered_unregister.mp hr).2⟩

/-- A connection that nothing refers to may change freely. -/
theorem setConn_free (hL : L.Holds s) {c : ConnId} (hfree : s.FreeConn c)
    (conn : ServerConnection) : L.Holds (s.setConn c conn) := by
  refine ⟨hL.ever, hL.waiting, ?_, ?_⟩
  · intro d hd
    rw [ServerState.setConn_conns_of_ne s conn
      (by rintro rfl; exact hfree.1 hd)]
    exact hL.idle d hd
  · intro id i d hr
    rw [ServerState.setConn_conns_of_ne s conn
      (by rintro rfl; exact hfree.2 id i hr)]
    exact hL.bound hr

/-- A connection changes in a way that keeps what is known of it. -/
theorem setConn (hL : L.Holds s) {c : ConnId} {conn : ServerConnection}
    (hbound : ∀ {id i}, s.Registered id i c →
      L.bound id (s.conns c) (s.intercepts i) →
      L.bound id conn (s.intercepts i))
    (hidle : c ∈ s.pool.availableConnections → L.idle (s.conns c) →
      L.idle conn) : L.Holds (s.setConn c conn) := by
  refine ⟨hL.ever, hL.waiting, ?_, ?_⟩
  · intro d hd
    by_cases hdc : d = c
    · subst hdc
      rw [ServerState.setConn_conns_self]
      exact hidle hd (hL.idle d hd)
    · rw [ServerState.setConn_conns_of_ne s conn hdc]
      exact hL.idle d hd
  · intro id i d hr
    by_cases hdc : d = c
    · subst hdc
      rw [ServerState.setConn_conns_self]
      exact hbound hr (hL.bound hr)
    · rw [ServerState.setConn_conns_of_ne s conn hdc]
      exact hL.bound hr

/-- An intercept that is not registered changes. -/
theorem setIntercept_free (hL : L.Holds s) {i : InterceptId}
    {x : ServerIntercept} (hfree : ∀ id c, ¬ s.Registered id i c)
    (hever : L.ever x) (hwaiting : i ∈ s.queue.pendingList → L.waiting x) :
    L.Holds (s.setIntercept i x) := by
  refine ⟨?_, ?_, hL.idle, ?_⟩
  · intro j hj
    by_cases hji : j = i
    · subst hji
      rw [ServerState.setIntercept_intercepts_self]
      exact hever
    · rw [ServerState.setIntercept_intercepts_of_ne s x hji] at hj ⊢
      exact hL.ever j hj
  · intro j hj
    by_cases hji : j = i
    · subst hji
      rw [ServerState.setIntercept_intercepts_self]
      exact hwaiting hj
    · rw [ServerState.setIntercept_intercepts_of_ne s x hji]
      exact hL.waiting j hj
  · intro id j c hr
    rw [ServerState.setIntercept_intercepts_of_ne s x
      (by rintro rfl; exact hfree id c hr)]
    exact hL.bound hr

/-- A registered pair changes together. -/
theorem setPair (h : Consistent config s) (hL : L.Holds s) {id : Nat}
    {i : InterceptId} {c : ConnId} (hr : s.Registered id i c)
    {conn : ServerConnection} {x : ServerIntercept} (hever : L.ever x)
    (hbound : L.bound id conn x) :
    L.Holds ((s.setConn c conn).setIntercept i x) := by
  refine ⟨?_, ?_, ?_, ?_⟩
  · intro j hj
    by_cases hji : j = i
    · subst hji
      rw [ServerState.setIntercept_intercepts_self]
      exact hever
    · rw [ServerState.setIntercept_intercepts_of_ne _ x hji] at hj ⊢
      exact hL.ever j hj
  · intro j hj
    rw [ServerState.setIntercept_intercepts_of_ne _ x
      (by rintro rfl; exact h.queue_free j hj hr)]
    exact hL.waiting j hj
  · intro d hd
    have hdc : d ≠ c := by
      rintro rfl
      exact h.entry_busy hr hd
    show L.idle ((s.setConn c conn).conns d)
    rw [ServerState.setConn_conns_of_ne s conn hdc]
    exact hL.idle d hd
  · intro id' j d hr'
    have hr' : s.Registered id' j d := hr'
    show L.bound id' ((s.setConn c conn).conns d)
      (((s.setConn c conn).setIntercept i x).intercepts j)
    by_cases hji : j = i
    · subst hji
      obtain ⟨rfl, rfl⟩ := h.intercept_unique hr hr'
      rw [ServerState.setConn_conns_self,
        ServerState.setIntercept_intercepts_self]
      exact hbound
    · have hdc : d ≠ c := by
        rintro rfl
        exact hji (h.conn_unique hr' hr).2
      rw [ServerState.setConn_conns_of_ne s conn hdc,
        ServerState.setIntercept_intercepts_of_ne _ x hji]
      exact hL.bound hr'

/-- A free intercept and a connection without an entry are bound under the next
id; the others are as before. -/
theorem bindPair (hL : L.Holds s) {s' : ServerState} {i : InterceptId}
    {c : ConnId} (hi : s.FreeIntercept i) (hc : ∀ id j, ¬ s.Registered id j c)
    (hqueue : s'.queue = s.queue)
    (havailable : ∀ d ∈ s'.pool.availableConnections,
      d ∈ s.pool.availableConnections ∧ d ≠ c)
    (hintercepts : ∀ j, j ≠ i → s'.intercepts j = s.intercepts j)
    (hconns : ∀ d, d ≠ c → s'.conns d = s.conns d)
    (hregistered : ∀ {id j d}, s'.Registered id j d →
      if s.nextId = id then i = j ∧ c = d else s.Registered id j d)
    (hever : L.ever (s'.intercepts i))
    (hbound : L.bound s.nextId (s'.conns c) (s'.intercepts i)) :
    L.Holds s' := by
  constructor
  · intro j hj
    by_cases hji : j = i
    · rw [hji]
      exact hever
    · rw [hintercepts j hji] at hj ⊢
      exact hL.ever j hj
  · intro j hj
    rw [hqueue] at hj
    rw [hintercepts j (by rintro rfl; exact hi.1 hj)]
    exact hL.waiting j hj
  · intro d hd
    obtain ⟨hold, hdc⟩ := havailable d hd
    rw [hconns d hdc]
    exact hL.idle d hold
  · intro id j d hr
    have hentry := hregistered hr
    split at hentry
    · next hid =>
        obtain ⟨rfl, rfl⟩ := hentry
        rw [← hid]
        exact hbound
    · rw [hconns d (by rintro rfl; exact hc id j hentry),
        hintercepts j (by rintro rfl; exact hi.2 id d hentry)]
      exact hL.bound hentry

/-! ### Operations -/

/-- A free intercept that may wait is connected. -/
theorem connect (hpre : L.Preserved parse config guard)
    (h : Consistent config s) (hL : L.Holds s) {i : InterceptId}
    (hi : s.FreeIntercept i) (hever : L.ever (s.intercepts i))
    (hwaiting : L.waiting (s.intercepts i))
    (hfresh : s.pool.connections.length < s.pool.maxConn →
      L.fresh (s.intercepts i)) : L.Holds (s.connect i) := by
  rcases s.connect_cases i with ⟨hroom, heq⟩ | ⟨c, rest, -, htake, heq⟩ |
    ⟨-, -, heq⟩
  · rw [heq]
    have hnew := @hpre.bind_new s.nextId (s.intercepts i) hever hwaiting
      (hfresh hroom)
    obtain ⟨hever', hbound⟩ := hnew
    rw [← h.config_eq] at hbound
    have hold : ∀ {c}, c ∈ s.pool.connections → c ≠ s.nextConn := by
      rintro c hc rfl
      exact Nat.lt_irrefl _ (h.conn_lt _ hc)
    apply hL.bindPair hi
    · exact fun id j hr => hold (h.entry_mem hr) rfl
    · rfl
    · exact fun d hd => ⟨hd, hold (h.available_mem d hd)⟩
    · exact fun j hji => ServerState.connectNew_intercepts_of_ne s hji
    · exact fun d hdc => ServerState.connectNew_conns_of_ne s i hdc
    · exact ServerState.registered_connectNew.mp
    · rw [ServerState.connectNew_intercepts_self]
      exact hever'
    · rw [ServerState.connectNew_conns_self,
        ServerState.connectNew_intercepts_self]
      exact hbound
  · rw [heq]
    have hc : c ∈ s.pool.availableConnections := by
      rw [htake]
      exact List.mem_cons_self
    have hnodup := h.available_nodup
    rw [htake] at hnodup
    obtain ⟨hever', hbound⟩ := hpre.bind_idle (h.written_lt c) (hL.idle c hc)
      hever hwaiting
    rw [← h.config_eq] at hever' hbound
    apply hL.bindPair hi
    · exact fun id j hr => h.entry_busy hr hc
    · rfl
    · intro d hd
      have hdrest : d ∈ rest := hd
      constructor
      · rw [htake]
        exact List.mem_cons_of_mem c hdrest
      · rintro rfl
        exact (List.nodup_cons.mp hnodup).1 hdrest
    · exact fun j hji => ServerState.connectPooled_intercepts_of_ne s c rest hji
    · exact fun d hdc => ServerState.connectPooled_conns_of_ne s i rest hdc
    · exact ServerState.registered_connectPooled.mp
    · rw [ServerState.connectPooled_intercepts_self]
      exact hever'
    · rw [ServerState.connectPooled_conns_self,
        ServerState.connectPooled_intercepts_self]
      exact hbound
  · rw [heq]
    refine ⟨hL.ever, ?_, hL.idle, hL.bound⟩
    intro j hj
    unfold ServerState.enqueue RequestQueue.addToQueue at hj
    split at hj
    · exact hL.waiting j hj
    · rcases List.mem_append.mp hj with hold | hnew
      · exact hL.waiting j hold
      · rw [List.mem_singleton.mp hnew]
        exact hwaiting

theorem connectNext (hpre : L.Preserved parse config guard)
    (h : Consistent config s) (hL : L.Holds s)
    (hfresh : ∀ j ∈ s.queue.pendingList.head?,
      s.pool.connections.length < s.pool.maxConn →
      L.fresh (s.intercepts j)) : L.Holds s.connectNext := by
  unfold ServerState.connectNext RequestQueue.popFromQueue
  cases hqueue : s.queue.pendingList with
  | nil => exact hL
  | cons i rest =>
      obtain ⟨hpop, hfree, hconnected⟩ := h.pop hqueue
      have hmem : i ∈ s.queue.pendingList := by
        rw [hqueue]
        exact List.mem_cons_self
      have hsub : ∀ j ∈ rest, j ∈ s.queue.pendingList := by
        intro j hj
        rw [hqueue]
        exact List.mem_cons_of_mem i hj
      have hLpop : L.Holds
          { s with queue := { s.queue with pendingList := rest } } :=
        ⟨hL.ever, fun j hj => hL.waiting j (hsub j hj), hL.idle, hL.bound⟩
      refine hLpop.connect hpre hpop hfree (hL.ever i hconnected)
        (hL.waiting i hmem) (hfresh i ?_)
      rw [hqueue]
      rfl

/-- The connection loses its entry before it is deleted. -/
theorem connectionClosed (h : Consistent config s) (hL : L.Holds s)
    (c : ConnId) : L.Holds (s.connectionClosed c) := by
  have hL' := hL.unregister (s.conns c).requestId
  have hne : ∀ {id i d},
      (s.unregister (s.conns c).requestId).Registered id i d → d ≠ c := by
    rintro id i d hr rfl
    obtain ⟨hid, hold⟩ := ServerState.registered_unregister.mp hr
    exact hid (h.entry_conn hold)
  refine ⟨hL.ever, hL.waiting, ?_, ?_⟩
  · intro d hd
    have hd' : d ∈ s.pool.availableConnections ∧ d ≠ c := by
      simpa [ServerState.connectionClosed, ServerState.deleteConnection,
        ServerState.setConn, ServerState.unregister] using hd
    show L.idle (((s.unregister (s.conns c).requestId).deleteConnection
      c).conns d)
    rw [ServerState.deleteConnection,
      ServerState.setConn_conns_of_ne _ _ hd'.2]
    exact hL.idle d hd'.1
  · intro id i d hr
    have hr' : (s.unregister (s.conns c).requestId).Registered id i d := hr
    show L.bound id (((s.unregister (s.conns c).requestId).deleteConnection
      c).conns d) (s.intercepts i)
    rw [ServerState.deleteConnection,
      ServerState.setConn_conns_of_ne _ _ (hne hr')]
    exact hL'.bound hr'

/-- The state of a connection is set before it is closed; what is known of the
others is not touched. -/
theorem closeConnection (h : Consistent config s) (hL : L.Holds s)
    (c : ConnId) : L.Holds (s.closeConnection c) := by
  have hclosed := hL.connectionClosed h c
  have havail : ∀ {d}, d ∈ (s.connectionClosed c).pool.availableConnections →
      d ≠ c := by
    rintro d hd rfl
    simp [ServerState.connectionClosed, ServerState.deleteConnection,
      ServerState.setConn] at hd
  have hentry : ∀ {id i d}, (s.connectionClosed c).Registered id i d →
      d ≠ c := by
    rintro id i d hr rfl
    obtain ⟨hid, hold⟩ := ServerState.registered_unregister.mp hr
    exact hid (h.entry_conn hold)
  have hconns : ∀ {d}, d ≠ c → (s.closeConnection c).conns d =
      (s.connectionClosed c).conns d := by
    intro d hne
    simp [ServerState.closeConnection, ServerState.connectionClosed,
      ServerState.deleteConnection, ServerState.setConn,
      ServerState.unregister, hne]
  have hreg : ∀ {id i d}, (s.closeConnection c).Registered id i d →
      (s.connectionClosed c).Registered id i d := fun hr =>
    ServerState.registered_connectionClosed.mpr
      (ServerState.registered_closeConnection.mp hr)
  refine ⟨hclosed.ever, hclosed.waiting, ?_, ?_⟩
  · intro d hd
    rw [hconns (havail hd)]
    exact hclosed.idle d hd
  · intro id i d hr
    rw [hconns (hentry (hreg hr))]
    exact hclosed.bound (hreg hr)

/-- A free connection goes back to the pool when it may serve again. -/
theorem releaseConnection (h : Consistent config s) (hL : L.Holds s)
    {c : ConnId} (hc : s.FreeConn c)
    (hidle : (s.conns c).reqCount < (s.conns c).maxRequests →
      L.idle (s.conns c).released) : L.Holds (s.releaseConnection c) := by
  unfold ServerState.releaseConnection
  simp only
  split
  · next hroom =>
      have hself : ((s.setConn c (s.conns c).detach).reuseConnection
          c).conns c = (s.conns c).released := by
        simp [ServerState.reuseConnection, ServerState.setConn,
          ServerConnection.released]
      have hother : ∀ {d}, d ≠ c → ((s.setConn c
          (s.conns c).detach).reuseConnection c).conns d = s.conns d := by
        intro d hne
        simp [ServerState.reuseConnection, ServerState.setConn, hne]
      refine ⟨hL.ever, hL.waiting, ?_, ?_⟩
      · intro d hd
        rcases List.mem_append.mp hd with hold | hnew
        · rw [hother (by rintro rfl; exact hc.1 hold)]
          exact hL.idle d hold
        · rw [List.mem_singleton.mp hnew, hself]
          exact hidle (by simpa using hroom)
      · intro id i d hr
        rw [hother (by rintro rfl; exact hc.2 id i hr)]
        exact hL.bound hr
  · have hset : Consistent config (s.setConn c
        { (s.conns c).detach with state := .closed }) :=
      h.setConn_free hc (by simp) (by simp) (by simp)
    exact (hL.setConn_free hc _).connectionClosed hset c

/-- The request of a free connection is over: the next one may begin. -/
theorem release (hpre : L.Preserved parse config guard)
    (h : Consistent config s) (hL : L.Holds s) {c : ConnId}
    (hc : s.FreeConn c) (hmem : c ∈ s.pool.connections)
    (hidle : (s.conns c).reqCount < (s.conns c).maxRequests →
      L.idle (s.conns c).released) (hnext : L.NextFresh s c) :
    L.Holds (s.releaseConnection c).connectNext := by
  refine (hL.releaseConnection h hc hidle).connectNext hpre
    (h.releaseConnection hc hmem) ?_
  rw [s.releaseConnection_queue c, s.releaseConnection_intercepts c]
  intro j hj hroom
  apply hnext j hj
  intro hreuse
  -- a connection that is reused stays among the connections
  simp only [ServerState.releaseConnection,
    ServerConnection.detach_reqCount, ServerConnection.detach_maxRequests,
    if_pos hreuse] at hroom
  exact hroom

/-! ### Events -/

theorem complete (hpre : L.Preserved parse config guard)
    (h : Consistent config s) {id : Nat} {i : InterceptId} {c : ConnId}
    (hr : s.Registered id i c) (hL : L.Holds (s.unregister id))
    (hever : L.ever (s.intercepts i).outputComplete)
    (hidle : (s.conns c).reqCount < (s.conns c).maxRequests →
      L.idle (s.conns c).completed) (hnext : L.NextFresh s c) :
    L.Holds (s.complete i c) := by
  have hc := h.freeConn_unregister hr
  have hi := h.freeIntercept_unregister hr
  have hset : Consistent config ((s.unregister id).setConn c
      { s.conns c with state := .complete }) :=
    (h.unregister id).setConn (.of_eq rfl rfl rfl)
  have hpair : Consistent config (((s.unregister id).setConn c
      { s.conns c with state := .complete }).setIntercept i
        (s.intercepts i).outputComplete) := hset.setIntercept ⟨rfl, rfl, rfl⟩
  have hLpair : L.Holds (((s.unregister id).setConn c
      { s.conns c with state := .complete }).setIntercept i
        (s.intercepts i).outputComplete) :=
    (hL.setConn_free hc _).setIntercept_free hi.2 hever
      fun hin => absurd hin hi.1
  have hconn : (((s.unregister id).setConn c
      { s.conns c with state := .complete }).setIntercept i
        (s.intercepts i).outputComplete).conns c =
      { s.conns c with state := .complete } :=
    ServerState.setConn_conns_self _ c _
  rw [ServerState.complete_registered (h.entry_intercept hr) hr]
  refine hLpair.release hpre hpair hc (h.entry_mem hr) ?_ ?_
  · rw [hconn]
    exact hidle
  · refine hnext.of_eq rfl rfl (by rw [hconn]) (by rw [hconn]) ?_
    intro j hj
    exact ServerState.setIntercept_intercepts_of_ne _ _
      (by rintro rfl; exact h.queue_free j hj hr)

theorem retry (hpre : L.Preserved parse config guard)
    (h : Consistent config s) (hL : L.Holds s) {c : ConnId}
    {event : ConnEvent} (hexists : (s.conns c).alive = true)
    (hguard : guard s (.connection c event))
    (hevent : event = .netConnectFailed ∨
      event = .eos ∧ (s.conns c).writeio.readEnable = false)
    (hbound : (s.retry c).issued < 2 ^ 32 - 1) : L.Holds (s.retry c) := by
  have hcons := h.reConnect (s.conns c).requestId hbound
  have hLcons : L.Holds (s.reConnect (s.conns c).requestId) := by
    cases hget : s.getIntercept (s.conns c).requestId with
    | none =>
        rw [ServerState.reConnect_none
          (ServerState.getIntercept_eq_none.mp hget)]
        exact hL
    | some i =>
        obtain ⟨d, hr⟩ := ServerState.getIntercept_eq_some.mp hget
        obtain rfl := h.owner c ((h.alive_iff c).mp hexists) hr
        have hwaiting := hpre.retry h hguard hevent hr (hL.bound hr)
        have hfresh := hpre.retry_fresh hguard hevent rfl hr
        rw [ServerState.reConnect_registered hr]
        exact (hL.unregister _).connect hpre (h.unregister _)
          (h.freeIntercept_unregister hr) (hL.ever i (h.entry_connected hr))
          hwaiting hfresh
  exact hLcons.closeConnection hcons c

theorem onNetConnect (hpre : L.Preserved parse config guard)
    (h : Consistent config s) (hL : L.Holds s) {c : ConnId}
    (hexists : (s.conns c).alive = true)
    (hguard : guard s (.connection c .netConnect)) :
    L.Holds (s.onNetConnect c) := by
  cases hget : s.getIntercept (s.conns c).requestId with
  | none =>
      rw [ServerState.onNetConnect_idle hget]
      have hnone := ServerState.getIntercept_eq_none.mp hget
      refine hL.setConn ?_ fun _ => hpre.net_connect_idle hguard
      intro id i hr
      rw [← h.entry_conn hr] at hr
      exact absurd hr (hnone i c)
  | some i =>
      obtain ⟨d, hr⟩ := ServerState.getIntercept_eq_some.mp hget
      obtain rfl := h.owner c ((h.alive_iff c).mp hexists) hr
      rw [ServerState.onNetConnect_registered hget, h.config_eq]
      obtain ⟨hever, hbound⟩ := hpre.net_connect h hguard hr
        (hL.ever i (h.entry_connected hr)) (hL.bound hr)
      exact hL.setPair h hr hever hbound

theorem onReadReady (hpre : L.Preserved parse config guard)
    (h : Consistent config s) (hL : L.Holds s) {c : ConnId}
    {blocks : List Bytes} {s' : ServerState}
    (hexists : (s.conns c).alive = true)
    (hguard : guard s (.connection c (.readReady blocks)))
    (hstep : s.onReadReady parse c blocks = some s') : L.Holds s' := by
  rcases ServerState.onReadReady_cases hstep with ⟨hget, rfl⟩ |
    ⟨i, responseStatus, conn, x, hget, hrun, rfl⟩
  · have hnone := ServerState.getIntercept_eq_none.mp hget
    refine hL.setConn ?_ fun _ => hpre.read_idle hguard
    intro id i hr
    rw [← h.entry_conn hr] at hr
    exact absurd hr (hnone i c)
  · obtain ⟨d, hr⟩ := ServerState.getIntercept_eq_some.mp hget
    obtain rfl := h.owner c ((h.alive_iff c).mp hexists) hr
    obtain ⟨hever, hafter⟩ := hpre.read h hguard hr
      (hL.ever i (h.entry_connected hr)) (hL.bound hr) hrun
    cases responseStatus with
    | false => exact hL.setPair h hr hever hafter
    | true =>
        obtain ⟨hconn, hx⟩ :=
          ServerConnection.evolves_interceptTransferData hrun
        have hset : Consistent config (s.setConn d conn) := by
          refine h.setConn (.trans ?_ hconn)
          exact .of_eq rfl rfl rfl
        have hpair : Consistent config ((s.setConn d conn).setIntercept i x) :=
          hset.setIntercept hx
        have hc := h.freeConn_unregister hr
        have hi := h.freeIntercept_unregister hr
        have hLpair : L.Holds (((s.setConn d conn).setIntercept i x).unregister
            (s.conns d).requestId) :=
          ((hL.unregister _).setConn_free hc conn).setIntercept_free hi.2 hever
            fun hin => absurd hin hi.1
        have hself : ((s.setConn d conn).setIntercept i x).conns d = conn :=
          ServerState.setConn_conns_self s d conn
        have hfinished : s.finished parse (.connection d (.readReady blocks)) =
            some d := by
          simp only [ServerState.finished, hget, hrun]
        obtain ⟨hcount, hmax⟩ :=
          ServerConnection.interceptTransferData_reqCount hrun
        refine LocalPredicates.Holds.complete hpre hpair hr hLpair ?_ ?_ ?_
        · rw [ServerState.setIntercept_intercepts_self]
          exact hafter.1
        · rw [hself]
          exact hafter.2
        · refine (hpre.next_fresh hguard hfinished).of_eq rfl rfl
            (by rw [hself]; exact hcount) (by rw [hself]; exact hmax) ?_
          intro j hj
          exact ServerState.setIntercept_intercepts_of_ne _ _
            (by rintro rfl; exact h.queue_free j hj hr)

/-- The end of a registered request by `transaction.error`. -/
theorem failed (h : Consistent config s) (hL : L.Holds s) {id : Nat}
    {i : InterceptId} {c : ConnId} (hr : s.Registered id i c)
    {x : ServerIntercept} (hx : (s.intercepts i).Evolves x)
    (hever : L.ever x) : L.Holds ((s.setIntercept i x).closeConnection c) := by
  have hset : Consistent config (s.setIntercept i x) := h.setIntercept hx
  have hi := h.freeIntercept_unregister hr
  -- erasing the entry early changes nothing: closing erases it anyway
  have hLset : L.Holds ((s.unregister id).setIntercept i x) :=
    (hL.unregister id).setIntercept_free hi.2 hever fun hin => absurd hin hi.1
  have hcons : Consistent config ((s.unregister id).setIntercept i x) :=
    (h.unregister id).setIntercept hx
  have hclose := hLset.closeConnection hcons c
  refine ⟨hclose.ever, hclose.waiting, hclose.idle, ?_⟩
  intro id' j d hr'
  obtain ⟨hne, hold⟩ := ServerState.registered_closeConnection.mp hr'
  have hneq : id ≠ id' := h.entry_conn hr ▸ hne
  exact hclose.bound (ServerState.registered_closeConnection.mpr
    ⟨hne, ServerState.registered_unregister.mpr ⟨hneq, hold⟩⟩)

theorem onLateEos (hpre : L.Preserved parse config guard)
    (h : Consistent config s) (hL : L.Holds s) {c : ConnId}
    (hexists : (s.conns c).alive = true) : L.Holds (s.onLateEos c) := by
  unfold ServerState.onLateEos
  split
  · next i hget =>
      split
      · obtain ⟨d, hr⟩ := ServerState.getIntercept_eq_some.mp hget
        obtain rfl := h.owner c ((h.alive_iff c).mp hexists) hr
        exact hL.failed h hr ⟨rfl, rfl, rfl⟩
          (hpre.fail (hL.ever i (h.entry_connected hr)) (hL.bound hr)).1
      · exact hL.closeConnection h c
  · exact hL.closeConnection h c

theorem onError (hpre : L.Preserved parse config guard)
    (h : Consistent config s) (hL : L.Holds s) {c : ConnId}
    (hexists : (s.conns c).alive = true) : L.Holds (s.onError c) := by
  unfold ServerState.onError
  split
  · next i hget =>
      obtain ⟨d, hr⟩ := ServerState.getIntercept_eq_some.mp hget
      obtain rfl := h.owner c ((h.alive_iff c).mp hexists) hr
      exact hL.failed h hr ⟨rfl, rfl, rfl⟩
        (hpre.fail (hL.ever i (h.entry_connected hr)) (hL.bound hr)).2
  · exact hL.connectionClosed h c

theorem read (hpre : L.Preserved parse config guard) (hL : L.Holds s)
    {c : ConnId} {s' : ServerState}
    (hstep : (s.conns c).read.map (s.setConn c) = some s') : L.Holds s' := by
  obtain ⟨conn, hread, rfl⟩ := Option.map_eq_some_iff.mp hstep
  exact hL.setConn (fun _ => (hpre.open_read hread).1)
    fun _ => (@hpre.open_read 0 _ _ {} hread).2

theorem handlePHPConnectionEvents (hpre : L.Preserved parse config guard)
    (h : Consistent config s) (hL : L.Holds s) {c : ConnId}
    {event : ConnEvent} {s' : ServerState}
    (hexists : (s.conns c).alive = true)
    (hguard : guard s (.connection c event))
    (hstep : s.handlePHPConnectionEvents parse c event = some s')
    (hbound : s'.issued < 2 ^ 32 - 1) : L.Holds s' := by
  cases event with
  | netConnect =>
      simp only [ServerState.handlePHPConnectionEvents,
        Option.some.injEq] at hstep
      rw [← hstep]
      exact hL.onNetConnect hpre h hexists hguard
  | netConnectFailed =>
      simp only [ServerState.handlePHPConnectionEvents,
        Option.some.injEq] at hstep
      rw [← hstep] at hbound ⊢
      exact hL.retry hpre h hexists hguard (.inl rfl) hbound
  | readReady blocks => exact hL.onReadReady hpre h hexists hguard hstep
  | readComplete =>
      simp only [ServerState.handlePHPConnectionEvents] at hstep
      split at hstep
      · next i hget =>
          obtain ⟨d, hr⟩ := ServerState.getIntercept_eq_some.mp hget
          obtain rfl := h.owner c ((h.alive_iff c).mp hexists) hr
          obtain ⟨hever, hidle⟩ := hpre.read_complete hguard hr
            (hL.ever i (h.entry_connected hr)) (hL.bound hr)
          have hfinished : s.finished parse (.connection d .readComplete) =
              some d := by
            simp only [ServerState.finished, hget, Option.map_some]
          rw [← Option.some.inj hstep]
          exact LocalPredicates.Holds.complete hpre h hr (hL.unregister _)
            hever hidle (hpre.next_fresh hguard hfinished)
      · contradiction
  | writeReady =>
      simp only [ServerState.handlePHPConnectionEvents] at hstep
      split at hstep
      · exact hL.read hpre hstep
      · rw [← Option.some.inj hstep]
        exact hL
  | writeComplete => exact hL.read hpre hstep
  | eos =>
      simp only [ServerState.handlePHPConnectionEvents,
        Option.some.injEq] at hstep
      rw [← hstep] at hbound ⊢
      split
      · exact hL.onLateEos hpre h hexists
      · next hearly =>
          rw [if_neg hearly] at hbound
          exact hL.retry hpre h hexists hguard
            (.inr ⟨rfl, Bool.not_eq_true _ ▸ hearly⟩) hbound
  | error =>
      simp only [ServerState.handlePHPConnectionEvents] at hstep
      split at hstep
      · rw [← Option.some.inj hstep]
        exact hL.onError hpre h hexists
      · contradiction

theorem consume (hpre : L.Preserved parse config guard)
    (h : Consistent config s) (hL : L.Holds s) {i : InterceptId}
    {input : ClientInput} {s' : ServerState}
    (hconnected : (s.intercepts i).connected = true)
    (howned : (s.intercepts i).owned = true ∨ L.Strays guard)
    (hguard : guard s (.input i input))
    (hstep : s.consume i input = some s') : L.Holds s' := by
  have hever := hL.ever i hconnected
  rcases ServerState.consume_cases hstep with ⟨i', c, conn, hr, hwrite, rfl⟩ |
    ⟨hnone, rfl⟩
  · by_cases hii : i' = i
    · subst hii
      obtain ⟨hever', hbound⟩ :=
        hpre.input h hguard hr hever (hL.bound hr) hwrite
      exact hL.setPair h hr hever' hbound
    · have hstray := howned.resolve_left fun ho => hii (h.owned_entry i ho hr)
      obtain ⟨hever', hwaiting⟩ := hstray.input_sent hguard hever
      have hLconn : L.Holds (s.setConn c conn) := by
        refine hL.setConn ?_ fun hin => absurd hin (h.entry_busy hr)
        intro id j hr'
        exact hstray.input hguard hr' hwrite
      exact hLconn.setIntercept_free (h.unregistered_of_stray hr hii) hever'
        fun hin => hwaiting (hL.waiting i hin)
  · obtain ⟨hever', hwaiting⟩ := hpre.input_kept hguard hever
    refine hL.setIntercept_free ?_ hever' fun hin =>
      hwaiting hin (hL.waiting i hin)
    intro id c hr
    exact hnone i c ((h.entry_intercept hr).symm ▸ hr)

theorem destroy (hpre : L.Preserved parse config guard)
    (h : Consistent config s) (hL : L.Holds s) {i : InterceptId}
    (hconnected : (s.intercepts i).connected = true)
    (howned : (s.intercepts i).owned = true ∨ L.Strays guard)
    (hguard : guard s (.destroy i)) : L.Holds (s.destroy i) := by
  obtain ⟨hever, hwaiting⟩ := hpre.destroy hguard (hL.ever i hconnected)
  have hev := (s.intercepts i).evolves_destroyedObject
  rw [s.destroy_eq i]
  cases hlookup : s.interceptList[(s.intercepts i).requestId]? with
  | none =>
      have hnone := ServerState.lookup_eq_none.mp hlookup
      have hfree : ∀ id c, ¬ s.Registered id i c := by
        intro id c hr
        exact hnone i c ((h.entry_intercept hr).symm ▸ hr)
      have hset : L.Holds
          (s.setIntercept i (s.intercepts i).destroyedObject) :=
        hL.setIntercept_free hfree hever fun hin =>
          hwaiting hin (hL.waiting i hin)
      split
      · exact hset
      · rw [ServerState.removeIntercept_none (by exact hnone)]
        exact hset
  | some entry =>
      obtain ⟨i', c⟩ := entry
      have hr : s.Registered (s.intercepts i).requestId i' c := hlookup
      have hnext : ¬ (s.intercepts i).outputCompleteState = true →
          L.NextFresh s c := by
        intro hopen
        apply hpre.next_fresh hguard
        rw [ServerState.finished, if_neg hopen]
        exact ServerState.getServerConnection_eq_some.mpr ⟨i', hr⟩
      by_cases hii : i' = i
      · subst hii
        have habort := hpre.abort h hguard hr (hL.bound hr)
        split
        · next hcomplete =>
            rw [if_pos hcomplete] at habort
            have hpair := hL.setPair h hr hever habort
            rwa [ServerState.setConn_eq_self] at hpair
        · next hopen =>
            rw [if_neg hopen] at habort
            have hi := h.freeIntercept_unregister hr
            have hL' : L.Holds ((s.unregister (s.intercepts i').requestId)
                |>.setIntercept i' (s.intercepts i').destroyedObject) :=
              (hL.unregister _).setIntercept_free hi.2 hever
                fun hin => absurd hin hi.1
            rw [ServerState.removeIntercept_registered (by exact hr)]
            refine hL'.release hpre ((h.unregister _).setIntercept hev)
              (h.freeConn_unregister hr) (h.entry_mem hr) habort ?_
            refine (hnext hopen).of_eq rfl rfl rfl rfl ?_
            intro j hj
            exact ServerState.setIntercept_intercepts_of_ne _ _
              (by rintro rfl; exact h.queue_free j hj hr)
      · have hstray := howned.resolve_left fun ho =>
          hii (h.owned_entry i ho hr)
        have hset : L.Holds
            (s.setIntercept i (s.intercepts i).destroyedObject) :=
          hL.setIntercept_free (h.unregistered_of_stray hr hii) hever
            fun hin => hwaiting hin (hL.waiting i hin)
        have hidle := hstray.abort hguard hr (hL.bound hr)
        split
        · exact hset
        · next hopen =>
            rw [ServerState.removeIntercept_registered (by exact hr)]
            refine (hset.unregister _).release hpre
              ((h.setIntercept hev).unregister _) (h.freeConn_unregister hr)
              (h.entry_mem hr) hidle ?_
            intro j hj hroom
            have hfresh := hnext hopen j hj hroom
            have hkeep : ∀ {k}, L.fresh (s.intercepts k) → L.fresh
                ((s.setIntercept i (s.intercepts i).destroyedObject).intercepts
                  k) := by
              intro k hk
              by_cases hki : k = i
              · rw [hki] at hk ⊢
                rw [ServerState.setIntercept_intercepts_self]
                exact hstray.abort_fresh hk
              · rw [ServerState.setIntercept_intercepts_of_ne s _ hki]
                exact hk
            exact hkeep hfresh

/-- Every event keeps local predicates whose methods keep them. -/
theorem step (hpre : L.Preserved parse config guard)
    (h : Consistent config s) (hL : L.Holds s) {e : Event} {s' : ServerState}
    (hexists : Exists s e) (howns : Owns s e ∨ L.Strays guard)
    (hguard : guard s e) (hstep : s.step parse e = some s')
    (hbound : s'.issued < 2 ^ 32 - 1) : L.Holds s' := by
  replace hstep := ServerState.handle_of_step hstep
  cases e with
  | connect i txn requestId =>
      obtain ⟨hever, hwaiting⟩ := hpre.new txn requestId
      have hfree := h.freeIntercept_new hexists
      have hset : Consistent config
          (s.setIntercept i (ServerIntercept.new txn requestId)) :=
        h.setIntercept_free hfree rfl
      have hLset : L.Holds
          (s.setIntercept i (ServerIntercept.new txn requestId)) :=
        hL.setIntercept_free hfree.2 hever fun hin => absurd hin hfree.1
      rw [← Option.some.inj hstep]
      refine hLset.connect hpre hset hfree ?_ ?_ fun _ => ?_
      · rw [ServerState.setIntercept_intercepts_self]
        exact hever
      · rw [ServerState.setIntercept_intercepts_self]
        exact hwaiting
      · rw [ServerState.setIntercept_intercepts_self]
        exact hpre.new_fresh txn requestId
  | connection c event =>
      exact hL.handlePHPConnectionEvents hpre h hexists hguard hstep hbound
  | destroy i =>
      rw [← Option.some.inj hstep]
      exact hL.destroy hpre h hexists.1 howns hguard
  | input i input =>
      exact hL.consume hpre h hexists.1 howns hguard hstep
  | respond c r =>
      obtain ⟨hbound', hidle⟩ := hpre.respond hguard
      rw [← Option.some.inj hstep]
      exact hL.setConn hbound' fun _ => hidle

end Holds

section Runs

variable {L : LocalPredicates} {parse : MimeHdrParse}
  {config : FcgiPluginConfig} {guard : ServerState → Event → Prop}
  {s : ServerState}

theorem holds_of_reach_of (hexists : ∀ s e, guard s e → Exists s e)
    (howns : ∀ s e, guard s e → Owns s e ∨ L.Strays guard)
    (hpre : L.Preserved parse config guard)
    (hreach : Transition.Reach (workerThread parse config) guard s)
    (hids : s.issued < 2 ^ 32 - 1) : L.Holds s := by
  refine @Transition.Reach.invariant_while _ _ (workerThread parse config)
    guard L.Holds (fun s => s.issued < 2 ^ 32 - 1) ?_ ?_ ?_ s hreach hids
  · intro s e s' hstep hlt
    exact Nat.lt_of_le_of_lt (ServerState.step_issued hstep) hlt
  · rintro s rfl
    refine ⟨?_, ?_, ?_, ?_⟩ <;>
      simp [ServerState.new, ServerState.Registered]
  · intro s e s' hs hL hg hlt hstep
    have hle : s.issued < 2 ^ 32 - 1 :=
      Nat.lt_of_le_of_lt (ServerState.step_issued hstep) hlt
    have h := consistent_of_reach hexists hs hle
    exact hL.step hpre h (hexists s e hg) (howns s e hg) hg hstep hlt

/-- Local predicates whose methods keep them hold along every run, as long as
request ids do not wrap. -/
theorem holds_of_reach
    (hguard : ∀ s e, guard s e → Exists s e ∧ Owns s e)
    (hpre : L.Preserved parse config guard)
    (hreach : Transition.Reach (workerThread parse config) guard s)
    (hids : s.issued < 2 ^ 32 - 1) : L.Holds s :=
  holds_of_reach_of (fun s e hg => (hguard s e hg).1)
    (fun s e hg => .inl (hguard s e hg).2) hpre hreach hids

/-- Where strays are kept too, it does not matter who feeds and destroys. -/
theorem holds_of_reach_strays (hguard : ∀ s e, guard s e → Exists s e)
    (hpre : L.Preserved parse config guard) (hstray : L.Strays guard)
    (hreach : Transition.Reach (workerThread parse config) guard s)
    (hids : s.issued < 2 ^ 32 - 1) : L.Holds s :=
  holds_of_reach_of hguard (fun _ _ _ => .inr hstray) hpre hreach hids

end Runs

end LocalPredicates

end AtsFastcgi
