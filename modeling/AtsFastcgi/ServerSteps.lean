/-
What each operation of the server can do.  `Registered` reads the registry;
the `_cases` lemmas name every outcome of an operation once, and `Evolves` is
what the methods of a connection and of an intercept have in common.
-/
import AtsFastcgi.Server

namespace AtsFastcgi

open ServerState (ConnEvent Event)

namespace ServerState

/-- An entry of `_intercept_list`. -/
def Registered (s : ServerState) (id : Nat) (i : InterceptId) (c : ConnId) :
    Prop :=
  s.interceptList[id]? = some (i, c)

instance (s : ServerState) (id : Nat) (i : InterceptId) (c : ConnId) :
    Decidable (s.Registered id i c) :=
  inferInstanceAs (Decidable (_ = _))

/-- The intercept is neither registered nor queued. -/
def FreeIntercept (s : ServerState) (i : InterceptId) : Prop :=
  i ∉ s.queue.pendingList ∧ ∀ id c, ¬ s.Registered id i c

/-- The connection is neither registered nor available. -/
def FreeConn (s : ServerState) (c : ConnId) : Prop :=
  c ∉ s.pool.availableConnections ∧ ∀ id i, ¬ s.Registered id i c

theorem getIntercept_eq_some {s : ServerState} {id : Nat} {i : InterceptId} :
    s.getIntercept id = some i ↔ ∃ c, s.Registered id i c := by
  simp [getIntercept, Registered]

theorem getServerConnection_eq_some {s : ServerState} {id : Nat} {c : ConnId} :
    s.getServerConnection id = some c ↔ ∃ i, s.Registered id i c := by
  simp [getServerConnection, Registered]

theorem lookup_eq_none {s : ServerState} {id : Nat} :
    s.interceptList[id]? = none ↔ ∀ i c, ¬ s.Registered id i c := by
  simp [Registered, Option.eq_none_iff_forall_ne_some]

theorem getIntercept_eq_none {s : ServerState} {id : Nat} :
    s.getIntercept id = none ↔ ∀ i c, ¬ s.Registered id i c := by
  rw [getIntercept, Option.map_eq_none_iff, lookup_eq_none]

theorem getServerConnection_eq_none {s : ServerState} {id : Nat} :
    s.getServerConnection id = none ↔ ∀ i c, ¬ s.Registered id i c := by
  rw [getServerConnection, Option.map_eq_none_iff, lookup_eq_none]

@[simp] theorem registered_setConn {s : ServerState} {k : ConnId}
    {conn : ServerConnection} {id : Nat} {i : InterceptId} {c : ConnId} :
    (s.setConn k conn).Registered id i c ↔ s.Registered id i c := Iff.rfl

@[simp] theorem registered_setIntercept {s : ServerState} {k : InterceptId}
    {x : ServerIntercept} {id : Nat} {i : InterceptId} {c : ConnId} :
    (s.setIntercept k x).Registered id i c ↔ s.Registered id i c := Iff.rfl

@[simp] theorem registered_unregister {s : ServerState} {k id : Nat}
    {i : InterceptId} {c : ConnId} :
    (s.unregister k).Registered id i c ↔ k ≠ id ∧ s.Registered id i c := by
  simp [Registered, unregister, Std.TreeMap.getElem?_erase]

theorem registered_register {s : ServerState} {k : InterceptId} {d : ConnId}
    {id : Nat} {i : InterceptId} {c : ConnId} :
    (s.register k d).Registered id i c ↔
      if s.nextId = id then k = i ∧ d = c else s.Registered id i c := by
  simp only [Registered, register, setConn, setIntercept,
    Std.TreeMap.getElem?_insert, Std.compare_eq_iff_eq]
  split <;> simp

theorem registered_register_self (s : ServerState) (i : InterceptId)
    (c : ConnId) : (s.register i c).Registered s.nextId i c := by
  rw [registered_register, if_pos rfl]
  exact ⟨rfl, rfl⟩

/-- An entry after `register` is the new one, or an old one under another
id. -/
theorem registered_register_cases {s : ServerState} {k : InterceptId}
    {d : ConnId} {id : Nat} {i : InterceptId} {c : ConnId}
    (hr : (s.register k d).Registered id i c) :
    (id = s.nextId ∧ i = k ∧ c = d) ∨
      (id ≠ s.nextId ∧ s.Registered id i c) := by
  rw [registered_register] at hr
  split at hr
  · next hid =>
      obtain ⟨hi, hc⟩ := hr
      exact .inl ⟨hid.symm, hi.symm, hc.symm⟩
  · next hid => exact .inr ⟨fun heq => hid heq.symm, hr⟩

/-! ### The three outcomes of `connect` -/

/-- A new connection is made; its answer is awaited. -/
def connectNew (s : ServerState) (i : InterceptId) : ServerState :=
  let s' := s.addConnection.register i s.nextConn
  s'.setConn s.nextConn (s'.conns s.nextConn).createConnection

/-- A pooled connection is taken and attached at once. -/
def connectPooled (s : ServerState) (i : InterceptId) (c : ConnId)
    (rest : List ConnId) : ServerState :=
  ((s.takeAvailable c rest).register i c).createFCGIClient i c

/-- The intercept waits, or is dropped when the queue is full. -/
def enqueue (s : ServerState) (i : InterceptId) : ServerState :=
  { s with queue := s.queue.addToQueue i }

theorem connect_new {s : ServerState} (i : InterceptId)
    (hroom : s.pool.connections.length < s.pool.maxConn) :
    s.connect i = s.connectNew i := by
  simp [connect, getAvailableConnection, hroom, initiateBackendConnection,
    connectNew, addConnection, register, setConn, setIntercept,
    ServerConnection.new]

theorem connect_pooled {s : ServerState} (i : InterceptId) {c : ConnId}
    {rest : List ConnId}
    (hfull : ¬ s.pool.connections.length < s.pool.maxConn)
    (htake : s.pool.availableConnections = c :: rest) :
    s.connect i = s.connectPooled i c rest := by
  simp [connect, getAvailableConnection, hfull, htake, connectPooled,
    initiateBackendConnection, takeAvailable, register, setConn, setIntercept]

theorem connect_queued {s : ServerState} (i : InterceptId)
    (hfull : ¬ s.pool.connections.length < s.pool.maxConn)
    (htake : s.pool.availableConnections = []) :
    s.connect i = s.enqueue i := by
  simp [connect, getAvailableConnection, hfull, htake, enqueue]

/-- Everything `connect` can do. -/
theorem connect_cases (s : ServerState) (i : InterceptId) :
    (s.pool.connections.length < s.pool.maxConn ∧
        s.connect i = s.connectNew i) ∨
      (∃ c rest, ¬ s.pool.connections.length < s.pool.maxConn ∧
        s.pool.availableConnections = c :: rest ∧
        s.connect i = s.connectPooled i c rest) ∨
      (¬ s.pool.connections.length < s.pool.maxConn ∧
        s.pool.availableConnections = [] ∧ s.connect i = s.enqueue i) := by
  by_cases hroom : s.pool.connections.length < s.pool.maxConn
  · exact .inl ⟨hroom, connect_new i hroom⟩
  · cases htake : s.pool.availableConnections with
    | nil => exact .inr (.inr ⟨hroom, rfl, connect_queued i hroom htake⟩)
    | cons c rest =>
        exact .inr (.inl ⟨c, rest, hroom, rfl,
          connect_pooled i hroom htake⟩)

/-! ### Single objects after an operation -/

theorem setConn_setConn (s : ServerState) (c : ConnId)
    (conn conn' : ServerConnection) :
    (s.setConn c conn).setConn c conn' = s.setConn c conn' := by
  simp [setConn]

@[simp] theorem setConn_conns_self (s : ServerState) (c : ConnId)
    (conn : ServerConnection) : (s.setConn c conn).conns c = conn := by
  simp [setConn]

theorem setConn_conns_of_ne (s : ServerState) {c d : ConnId}
    (conn : ServerConnection) (hne : d ≠ c) :
    (s.setConn c conn).conns d = s.conns d := by
  simp [setConn, hne]

@[simp] theorem setIntercept_intercepts_self (s : ServerState)
    (i : InterceptId) (x : ServerIntercept) :
    (s.setIntercept i x).intercepts i = x := by
  simp [setIntercept]

theorem setIntercept_intercepts_of_ne (s : ServerState) {i j : InterceptId}
    (x : ServerIntercept) (hne : j ≠ i) :
    (s.setIntercept i x).intercepts j = s.intercepts j := by
  simp [setIntercept, hne]

theorem addConnection_conns_self (s : ServerState) :
    s.addConnection.conns s.nextConn = ServerConnection.new s.config :=
  setConn_conns_self _ _ _

theorem addConnection_conns_of_ne (s : ServerState) {c : ConnId}
    (hne : c ≠ s.nextConn) : s.addConnection.conns c = s.conns c :=
  setConn_conns_of_ne _ _ hne

theorem register_conns_self (s : ServerState) (i : InterceptId) (c : ConnId) :
    (s.register i c).conns c = { s.conns c with requestId := s.nextId } :=
  setConn_conns_self _ _ _

theorem register_conns_of_ne (s : ServerState) (i : InterceptId) {c d : ConnId}
    (hne : d ≠ c) : (s.register i c).conns d = s.conns d :=
  setConn_conns_of_ne _ _ hne

theorem register_intercepts_self (s : ServerState) (i : InterceptId)
    (c : ConnId) :
    (s.register i c).intercepts i =
      { s.intercepts i with requestId := s.nextId } :=
  setIntercept_intercepts_self _ _ _

theorem register_intercepts_of_ne (s : ServerState) {i j : InterceptId}
    (c : ConnId) (hne : j ≠ i) :
    (s.register i c).intercepts j = s.intercepts j :=
  setIntercept_intercepts_of_ne _ _ hne

@[simp] theorem connectNew_conns_self (s : ServerState) (i : InterceptId) :
    (s.connectNew i).conns s.nextConn =
      ({ ServerConnection.new s.config with
        requestId := s.nextId }).createConnection := by
  simp [connectNew, addConnection, register, setConn, setIntercept]

theorem connectNew_conns_of_ne (s : ServerState) (i : InterceptId) {c : ConnId}
    (hne : c ≠ s.nextConn) : (s.connectNew i).conns c = s.conns c := by
  simp [connectNew, addConnection, register, setConn, setIntercept, hne]

@[simp] theorem connectNew_intercepts_self (s : ServerState)
    (i : InterceptId) :
    (s.connectNew i).intercepts i =
      { s.intercepts i with requestId := s.nextId } := by
  simp [connectNew, addConnection, register, setConn, setIntercept]

theorem connectNew_intercepts_of_ne (s : ServerState) {i j : InterceptId}
    (hne : j ≠ i) : (s.connectNew i).intercepts j = s.intercepts j := by
  simp [connectNew, addConnection, register, setConn, setIntercept, hne]

theorem registered_connectNew {s : ServerState} {k : InterceptId} {id : Nat}
    {i : InterceptId} {c : ConnId} :
    (s.connectNew k).Registered id i c ↔
      if s.nextId = id then k = i ∧ s.nextConn = c
      else s.Registered id i c :=
  registered_register (s := s.addConnection)

/-- The pair that `connectPooled` leaves. -/
def attached (s : ServerState) (i : InterceptId) (c : ConnId) :
    ServerConnection × ServerIntercept :=
  { s.conns c with state := .ready, requestId := s.nextId }.createFCGIClient
    s.config { s.intercepts i with requestId := s.nextId }

@[simp] theorem connectPooled_conns_self (s : ServerState) (i : InterceptId)
    (c : ConnId) (rest : List ConnId) :
    (s.connectPooled i c rest).conns c = (s.attached i c).1 := by
  simp [connectPooled, takeAvailable, register, setConn, setIntercept,
    createFCGIClient, attached]

theorem connectPooled_conns_of_ne (s : ServerState) (i : InterceptId)
    {c d : ConnId} (rest : List ConnId) (hne : d ≠ c) :
    (s.connectPooled i c rest).conns d = s.conns d := by
  simp [connectPooled, takeAvailable, register, setConn, setIntercept,
    createFCGIClient, hne]

@[simp] theorem connectPooled_intercepts_self (s : ServerState)
    (i : InterceptId) (c : ConnId) (rest : List ConnId) :
    (s.connectPooled i c rest).intercepts i = (s.attached i c).2 := by
  simp [connectPooled, takeAvailable, register, setConn, setIntercept,
    createFCGIClient, attached]

theorem connectPooled_intercepts_of_ne (s : ServerState) {i j : InterceptId}
    (c : ConnId) (rest : List ConnId) (hne : j ≠ i) :
    (s.connectPooled i c rest).intercepts j = s.intercepts j := by
  simp [connectPooled, takeAvailable, register, setConn, setIntercept,
    createFCGIClient, hne]

theorem registered_connectPooled {s : ServerState} {k : InterceptId}
    {d : ConnId} {rest : List ConnId} {id : Nat} {i : InterceptId}
    {c : ConnId} :
    (s.connectPooled k d rest).Registered id i c ↔
      if s.nextId = id then k = i ∧ d = c else s.Registered id i c :=
  registered_register (s := s.takeAvailable d rest)

theorem connectNew_fault (s : ServerState) (i : InterceptId) :
    (s.connectNew i).fault = (s.fault || (s.intercepts i).destroyed) := rfl

theorem connectPooled_fault (s : ServerState) (i : InterceptId) (c : ConnId)
    (rest : List ConnId) :
    (s.connectPooled i c rest).fault =
      (s.fault || (s.intercepts i).destroyed) := rfl

/-! ### What the events do -/

theorem onNetConnect_idle {s : ServerState} {c : ConnId}
    (hget : s.getIntercept (s.conns c).requestId = none) :
    s.onNetConnect c = s.setConn c (s.conns c).netConnect := by
  have hget' : (s.setConn c (s.conns c).netConnect).getIntercept
      (s.conns c).requestId = none := hget
  simp [onNetConnect, ServerConnection.netConnect] at hget' ⊢
  simp [hget']

theorem onNetConnect_registered {s : ServerState} {c : ConnId}
    {i : InterceptId}
    (hget : s.getIntercept (s.conns c).requestId = some i) :
    s.onNetConnect c =
      (s.setConn c ((s.conns c).netConnect.createFCGIClient s.config
        (s.intercepts i)).1).setIntercept i
        ((s.conns c).netConnect.createFCGIClient s.config
          (s.intercepts i)).2 := by
  have hget' : (s.setConn c (s.conns c).netConnect).getIntercept
      (s.conns c).netConnect.requestId = some i := hget
  simp only [onNetConnect, setConn_conns_self, hget', createFCGIClient,
    setConn_setConn]
  rfl

/-- A read event that is handled: the bytes stay unread without an intercept,
and go through the decoder of the connection otherwise. -/
theorem onReadReady_cases {parse : MimeHdrParse} {s s' : ServerState}
    {c : ConnId} {blocks : List Bytes}
    (hstep : s.onReadReady parse c blocks = some s') :
    (s.getIntercept (s.conns c).requestId = none ∧
        s' = s.setConn c ((s.conns c).receive blocks)) ∨
      ∃ i responseStatus conn x,
        s.getIntercept (s.conns c).requestId = some i ∧
        interceptTransferData parse ((s.conns c).receive blocks)
          (s.intercepts i) = some (responseStatus, conn, x) ∧
        s' = if responseStatus then
            ((s.setConn c conn).setIntercept i x).complete i c
          else (s.setConn c conn).setIntercept i x := by
  simp only [onReadReady, setConn_conns_self, setConn_setConn] at hstep
  have hid : ((s.conns c).receive blocks).requestId =
      (s.conns c).requestId := rfl
  rw [hid] at hstep
  cases hget : s.getIntercept (s.conns c).requestId with
  | none =>
      have hget' : (s.setConn c ((s.conns c).receive blocks)).getIntercept
          (s.conns c).requestId = none := hget
      rw [hget'] at hstep
      exact .inl ⟨rfl, (Option.some.inj hstep).symm⟩
  | some i =>
      have hget' : (s.setConn c ((s.conns c).receive blocks)).getIntercept
          (s.conns c).requestId = some i := hget
      rw [hget'] at hstep
      cases hrun : interceptTransferData parse ((s.conns c).receive blocks)
          (s.intercepts i) with
      | none =>
          have hrun' : interceptTransferData parse
              ((s.conns c).receive blocks)
              ((s.setConn c ((s.conns c).receive blocks)).intercepts i) =
                none := hrun
          simp only [hrun'] at hstep
          contradiction
      | some result =>
          obtain ⟨responseStatus, conn, x⟩ := result
          have hrun' : interceptTransferData parse
              ((s.conns c).receive blocks)
              ((s.setConn c ((s.conns c).receive blocks)).intercepts i) =
                some (responseStatus, conn, x) := hrun
          simp only [hrun'] at hstep
          exact .inr ⟨i, responseStatus, conn, x, rfl, hrun,
            (Option.some.inj hstep).symm⟩

theorem setIntercept_setConn (s : ServerState) (i : InterceptId)
    (x : ServerIntercept) (c : ConnId) (conn : ServerConnection) :
    (s.setIntercept i x).setConn c conn = (s.setConn c conn).setIntercept i x :=
  rfl

theorem setIntercept_setIntercept (s : ServerState) (i : InterceptId)
    (x x' : ServerIntercept) :
    (s.setIntercept i x).setIntercept i x' = s.setIntercept i x' := by
  simp [setIntercept]

/-- Client input is written to the connection that is registered under the id
of the intercept, and kept when there is none. -/
theorem consume_cases {s s' : ServerState} {i : InterceptId}
    {input : ClientInput} (hstep : s.consume i input = some s') :
    (∃ i' c conn, s.Registered (s.intercepts i).requestId i' c ∧
        input.write (s.conns c) = some conn ∧
        s' = (s.setConn c conn).setIntercept i
          (input.sent (input.log (s.intercepts i)))) ∨
      ((∀ i' c, ¬ s.Registered (s.intercepts i).requestId i' c) ∧
        s' = s.setIntercept i (input.kept (input.log (s.intercepts i)))) := by
  have hconsume : s.consume i input =
      (s.setIntercept i (input.log (s.intercepts i))).stream i input := by
    cases input <;> rfl
  have hid : (input.log (s.intercepts i)).requestId =
      (s.intercepts i).requestId := by
    cases input <;> rfl
  rw [hconsume] at hstep
  simp only [stream, writeRequest, setIntercept_intercepts_self, hid] at hstep
  cases hget : s.getServerConnection (s.intercepts i).requestId with
  | none =>
      have hget' : ServerState.getServerConnection
          (s.setIntercept i (input.log (s.intercepts i)))
          (s.intercepts i).requestId = none := hget
      simp only [hget', setIntercept_intercepts_self,
        setIntercept_setIntercept] at hstep
      exact .inr ⟨getServerConnection_eq_none.mp hget,
        (Option.some.inj hstep).symm⟩
  | some c =>
      have hget' : ServerState.getServerConnection
          (s.setIntercept i (input.log (s.intercepts i)))
          (s.intercepts i).requestId = some c := hget
      have hconn : (s.setIntercept i (input.log (s.intercepts i))).conns c =
          s.conns c := rfl
      simp only [hget', hconn] at hstep
      obtain ⟨i', hr⟩ := getServerConnection_eq_some.mp hget
      cases hwrite : input.write (s.conns c) with
      | none =>
          simp only [hwrite, Option.map_none] at hstep
          contradiction
      | some conn =>
          simp only [hwrite, Option.map_some, setIntercept_setConn,
            setIntercept_intercepts_self, setIntercept_setIntercept] at hstep
          exact .inl ⟨i', c, conn, hr, hwrite, (Option.some.inj hstep).symm⟩

/-- `removeIntercept` on an entry. -/
theorem removeIntercept_registered {s : ServerState} {id : Nat}
    {i : InterceptId} {c : ConnId} (hr : s.Registered id i c) :
    s.removeIntercept id =
      ((s.unregister id).releaseConnection c).connectNext := by
  unfold removeIntercept
  rw [hr]

theorem removeIntercept_none {s : ServerState} {id : Nat}
    (hnone : ∀ i c, ¬ s.Registered id i c) : s.removeIntercept id = s := by
  unfold removeIntercept
  rw [lookup_eq_none.mpr hnone]

theorem reConnect_registered {s : ServerState} {id : Nat} {i : InterceptId}
    {c : ConnId} (hr : s.Registered id i c) :
    s.reConnect id = (s.unregister id).connect i := by
  unfold reConnect
  rw [getIntercept_eq_some.mpr ⟨c, hr⟩]

theorem reConnect_none {s : ServerState} {id : Nat}
    (hnone : ∀ i c, ¬ s.Registered id i c) : s.reConnect id = s := by
  unfold reConnect
  rw [getIntercept_eq_none.mpr hnone]

/-- Completion of a registered request. -/
theorem complete_registered {s : ServerState} {id : Nat} {i : InterceptId}
    {c d : ConnId} (hid : (s.intercepts i).requestId = id)
    (hr : s.Registered id i d) :
    s.complete i c = (((((s.unregister id).setConn c
      { s.conns c with state := .complete }).setIntercept i
        (s.intercepts i).outputComplete).releaseConnection d).connectNext) := by
  have hr' : ((s.setConn c { s.conns c with state := .complete }).setIntercept
      i (s.intercepts i).outputComplete).Registered id i d := hr
  have heq := removeIntercept_registered hr'
  rw [← hid] at heq ⊢
  exact heq

theorem registered_connectionClosed {s : ServerState} {c : ConnId} {id : Nat}
    {i : InterceptId} {d : ConnId} :
    (s.connectionClosed c).Registered id i d ↔
      (s.conns c).requestId ≠ id ∧ s.Registered id i d :=
  registered_unregister

theorem registered_closeConnection {s : ServerState} {c : ConnId} {id : Nat}
    {i : InterceptId} {d : ConnId} :
    (s.closeConnection c).Registered id i d ↔
      (s.conns c).requestId ≠ id ∧ s.Registered id i d := by
  rw [closeConnection, registered_connectionClosed, setConn_conns_self]
  rfl

theorem setConn_eq_self (s : ServerState) (c : ConnId) :
    s.setConn c (s.conns c) = s := by
  simp [setConn]

theorem releaseConnection_queue (s : ServerState) (c : ConnId) :
    (s.releaseConnection c).queue = s.queue := by
  unfold releaseConnection
  simp only
  split <;> rfl

theorem releaseConnection_intercepts (s : ServerState) (c : ConnId) :
    (s.releaseConnection c).intercepts = s.intercepts := by
  unfold releaseConnection
  simp only
  split <;> rfl

/-! ### Request ids are only issued -/

theorem connect_issued (s : ServerState) (i : InterceptId) :
    s.issued ≤ (s.connect i).issued := by
  rcases s.connect_cases i with ⟨-, heq⟩ | ⟨c, rest, -, -, heq⟩ | ⟨-, -, heq⟩
  · rw [heq]
    exact Nat.le_succ _
  · rw [heq]
    exact Nat.le_succ _
  · rw [heq]
    exact Nat.le_refl _

theorem releaseConnection_issued (s : ServerState) (c : ConnId) :
    (s.releaseConnection c).issued = s.issued := by
  unfold releaseConnection
  simp only
  split <;> rfl

theorem removeIntercept_issued (s : ServerState) (id : Nat) :
    s.issued ≤ (s.removeIntercept id).issued := by
  unfold removeIntercept
  split
  · next c _ =>
      have hrelease : ((s.unregister id).releaseConnection c).issued =
          s.issued := releaseConnection_issued _ c
      unfold connectNext
      split
      · next i queue _ =>
          rw [← hrelease]
          exact connect_issued { (s.unregister id).releaseConnection c with
            queue := queue } i
      · exact Nat.le_of_eq hrelease.symm
  · exact Nat.le_refl _

theorem retry_issued (s : ServerState) (c : ConnId) :
    s.issued ≤ (s.retry c).issued := by
  show s.issued ≤ (s.reConnect (s.conns c).requestId).issued
  unfold reConnect
  split
  · exact connect_issued (s.unregister (s.conns c).requestId) _
  · exact Nat.le_refl _

theorem complete_issued (s : ServerState) (i : InterceptId) (c : ConnId) :
    s.issued ≤ (s.complete i c).issued :=
  removeIntercept_issued ((s.setConn c
    { s.conns c with state := .complete }).setIntercept i
      (s.intercepts i).outputComplete) _

theorem onNetConnect_issued (s : ServerState) (c : ConnId) :
    (s.onNetConnect c).issued = s.issued := by
  unfold onNetConnect
  simp only
  split <;> rfl

theorem onNetConnect_fault (s : ServerState) (c : ConnId) :
    (s.onNetConnect c).fault = s.fault := by
  unfold onNetConnect
  simp only
  split <;> rfl

theorem onLateEos_issued (s : ServerState) (c : ConnId) :
    (s.onLateEos c).issued = s.issued := by
  unfold onLateEos
  split
  · split <;> rfl
  · rfl

theorem onError_issued (s : ServerState) (c : ConnId) :
    (s.onError c).issued = s.issued := by
  unfold onError
  split <;> rfl

theorem destroy_issued (s : ServerState) (i : InterceptId) :
    s.issued ≤ (s.destroy i).issued := by
  unfold destroy
  simp only
  split
  · exact Nat.le_refl _
  · exact removeIntercept_issued (s.setIntercept i _) _

theorem handlePHPConnectionEvents_issued {parse : MimeHdrParse}
    {s s' : ServerState} {c : ConnId} {event : ConnEvent}
    (hstep : s.handlePHPConnectionEvents parse c event = some s') :
    s.issued ≤ s'.issued := by
  cases event with
  | netConnect =>
      rw [← Option.some.inj hstep]
      exact Nat.le_of_eq (onNetConnect_issued s c).symm
  | netConnectFailed =>
      rw [← Option.some.inj hstep]
      exact retry_issued s c
  | readReady blocks =>
      rcases onReadReady_cases hstep with ⟨-, rfl⟩ |
        ⟨i, responseStatus, conn, x, -, -, rfl⟩
      · exact Nat.le_refl _
      · cases responseStatus with
        | true =>
            exact complete_issued ((s.setConn c conn).setIntercept i x) i c
        | false => exact Nat.le_refl _
  | readComplete =>
      simp only [handlePHPConnectionEvents] at hstep
      split at hstep
      · rw [← Option.some.inj hstep]
        exact complete_issued s _ c
      · contradiction
  | writeReady =>
      simp only [handlePHPConnectionEvents] at hstep
      split at hstep
      · obtain ⟨conn, -, rfl⟩ := Option.map_eq_some_iff.mp hstep
        exact Nat.le_refl _
      · exact Nat.le_of_eq (congrArg issued (Option.some.inj hstep))
  | writeComplete =>
      obtain ⟨conn, -, rfl⟩ := Option.map_eq_some_iff.mp hstep
      exact Nat.le_refl _
  | eos =>
      rw [← Option.some.inj hstep]
      split
      · exact Nat.le_of_eq (onLateEos_issued s c).symm
      · exact retry_issued s c
  | error =>
      simp only [handlePHPConnectionEvents] at hstep
      split at hstep
      · rw [← Option.some.inj hstep]
        exact Nat.le_of_eq (onError_issued s c).symm
      · contradiction

theorem step_eq_some {parse : MimeHdrParse} {s s' : ServerState} {e : Event} :
    s.step parse e = some s' ↔
      s.handle parse e = some s' ∧ s'.fault = false := by
  rw [step, Option.bind_eq_some_iff]
  constructor
  · rintro ⟨s₁, hhandle, hdefined⟩
    unfold defined at hdefined
    split at hdefined
    · contradiction
    · next hfault =>
        obtain rfl := Option.some.inj hdefined
        exact ⟨hhandle, Bool.eq_false_iff.mpr hfault⟩
  · rintro ⟨hhandle, hfault⟩
    exact ⟨s', hhandle, if_neg (Bool.eq_false_iff.mp hfault)⟩

theorem handle_of_step {parse : MimeHdrParse} {s s' : ServerState} {e : Event}
    (hstep : s.step parse e = some s') : s.handle parse e = some s' :=
  (step_eq_some.mp hstep).1

/-- A callback that uses no deleted intercept is a step of the thread. -/
theorem step_of_handle {parse : MimeHdrParse} {config : FcgiPluginConfig}
    {s s' : ServerState} {e : Event} (hhandle : s.handle parse e = some s')
    (hfault : s'.fault = false) :
    (workerThread parse config).step s e = some s' :=
  step_eq_some.mpr ⟨hhandle, hfault⟩

theorem fault_of_reach {parse : MimeHdrParse} {config : FcgiPluginConfig}
    {guard : ServerState → Event → Prop} {s : ServerState}
    (hreach : Transition.Reach (workerThread parse config) guard s) :
    s.fault = false := by
  refine hreach.invariant (P := fun s => s.fault = false) ?_ ?_
  · rintro s rfl
    rfl
  · rintro s e s' - - - hstep
    exact (step_eq_some.mp hstep).2

/-- No event takes an id back. -/
theorem step_issued {parse : MimeHdrParse} {s s' : ServerState} {e : Event}
    (hstep : s.step parse e = some s') : s.issued ≤ s'.issued := by
  replace hstep := handle_of_step hstep
  cases e with
  | connect i txn requestId =>
      rw [← Option.some.inj hstep]
      exact connect_issued (s.setIntercept i (ServerIntercept.new txn requestId))
        i
  | connection c event => exact handlePHPConnectionEvents_issued hstep
  | destroy i =>
      rw [← Option.some.inj hstep]
      exact destroy_issued s i
  | input i input =>
      rcases consume_cases hstep with ⟨i', c, conn, -, -, rfl⟩ | ⟨-, rfl⟩
      · exact Nat.le_refl _
      · exact Nat.le_refl _
  | respond c r =>
      rw [← Option.some.inj hstep]
      exact Nat.le_refl _

end ServerState

/-! ### What methods keep -/

/-- A connection goes on as the same object for the same request, and only
its own request writes on it. -/
structure ServerConnection.Evolves (old new : ServerConnection) : Prop where
  alive : new.alive = old.alive
  requestId : new.requestId = old.requestId
  written : ∀ w ∈ new.written, w ∈ old.written ∨ w.1 = old.requestId

/-- An intercept goes on as the same object for the same request. -/
structure ServerIntercept.Evolves (old new : ServerIntercept) : Prop where
  connected : new.connected = old.connected
  requestId : new.requestId = old.requestId
  addPlugins : new.addPlugins = old.addPlugins

namespace ServerConnection

theorem Evolves.refl (c : ServerConnection) : c.Evolves c :=
  ⟨rfl, rfl, fun _ hw => .inl hw⟩

theorem Evolves.trans {a b c : ServerConnection} (hab : a.Evolves b)
    (hbc : b.Evolves c) : a.Evolves c := by
  refine ⟨hbc.alive.trans hab.alive, hbc.requestId.trans hab.requestId, ?_⟩
  intro w hw
  rcases hbc.written w hw with hold | hown
  · exact hab.written w hold
  · exact .inr (hown.trans hab.requestId)

/-- Fields other than these three do not matter. -/
theorem Evolves.of_eq {old new : ServerConnection}
    (halive : new.alive = old.alive) (hid : new.requestId = old.requestId)
    (hwritten : new.written = old.written) : old.Evolves new :=
  ⟨halive, hid, fun _ hw => .inl (hwritten ▸ hw)⟩

/-- Opening the read VIO changes nothing else. -/
theorem read_eq_some {c new : ServerConnection} :
    c.read = some new ↔ c.vc = true ∧
      { c with readio := { c.readio with opened := true } } = new := by
  simp only [read, Option.ite_none_right_eq_some, Option.some.injEq]

theorem evolves_read {c new : ServerConnection} (hread : c.read = some new) :
    c.Evolves new := by
  obtain ⟨-, rfl⟩ := read_eq_some.mp hread
  exact .of_eq rfl rfl rfl

/-- A write that is made: by the FCGI client, on an established connection. -/
theorem write_eq_some {input : ClientInput} {c new : ServerConnection} :
    input.write c = some new ↔
      ∃ client client' buf, c.fcgiRequest = some client ∧
        input.prepare client = some client' ∧
        client'.addClientRequest = some buf ∧ c.vc = true ∧
        new = { c with
          fcgiRequest := some client'
          writeio := ⟨true, c.writeio.readEnable || input.endflag⟩
          written := c.written ++ [(c.requestId, buf)]
          backend := c.backend.receive buf } := by
  simp only [ClientInput.write, phpWrite, Option.bind_eq_bind,
    Option.bind_eq_some_iff]
  constructor
  · rintro ⟨client, hclient, client', hprepare, buf, hbuf, hphp⟩
    split at hphp
    · next hvc =>
        exact ⟨client, client', buf, hclient, hprepare, hbuf, hvc,
          (Option.some.inj hphp).symm⟩
    · contradiction
  · rintro ⟨client, client', buf, hclient, hprepare, hbuf, hvc, rfl⟩
    refine ⟨client, hclient, client', hprepare, buf, hbuf, ?_⟩
    rw [if_pos hvc]

/-- Preparing input fills the write buffer and leaves the rest. -/
theorem prepare_eq_some {input : ClientInput} {client client' : FcgiClientRequest}
    (hprepare : input.prepare client = some client') :
    ∃ postData buff, client' =
      { client with postData := postData, buff := buff } := by
  cases input with
  | header data =>
      rw [← Option.some.inj hprepare]
      exact ⟨client.postData, client.buff ++ client.preamble, rfl⟩
  | body data =>
      simp only [ClientInput.prepare, FcgiClientRequest.postBodyChunk,
        Option.ite_none_right_eq_some, Option.some.injEq] at hprepare
      rw [← hprepare.2]
      exact ⟨data, _, rfl⟩
  | complete =>
      rw [← Option.some.inj hprepare]
      unfold FcgiClientRequest.emptyParam
      split
      · exact ⟨client.postData, [], rfl⟩
      · exact ⟨client.postData, (client.lengthHeader FCGI_STDIN 0).bytes, rfl⟩

theorem evolves_write {input : ClientInput} {c new : ServerConnection}
    (hwrite : input.write c = some new) : c.Evolves new := by
  obtain ⟨client, client', buf, -, -, -, -, rfl⟩ := write_eq_some.mp hwrite
  refine ⟨rfl, rfl, ?_⟩
  intro w hw
  rcases List.mem_append.mp hw with hold | hnew
  · exact .inl hold
  · exact .inr (by rw [List.mem_singleton.mp hnew])

theorem evolves_createFCGIClient (c : ServerConnection)
    (config : FcgiPluginConfig) (i : ServerIntercept) :
    c.Evolves (c.createFCGIClient config i).1 := by
  simp only [createFCGIClient]
  split
  · exact .of_eq rfl rfl rfl
  · exact .refl c

theorem createFCGIClient_intercept (c : ServerConnection)
    (config : FcgiPluginConfig) (i : ServerIntercept) :
    (c.createFCGIClient config i).2.connected = i.connected ∧
      (c.createFCGIClient config i).2.requestId = i.requestId := by
  simp only [createFCGIClient]
  split <;> exact ⟨rfl, rfl⟩

/-- A transfer that is made: nothing without an FCGI client and without bytes,
or the blocks of the reader through the decoder of the client. -/
theorem interceptTransferData_eq_some {parse : MimeHdrParse}
    {c new : ServerConnection} {i x : ServerIntercept} {responseStatus : Bool}
    (hrun : interceptTransferData parse c i = some (responseStatus, new, x)) :
    (c.fcgiRequest = none ∧ c.reader.flatten = [] ∧ responseStatus = false ∧
        new = { c with reader := [] } ∧ x = i) ∨
      ∃ client t, c.fcgiRequest = some client ∧
        transferBlocks parse { decoder := client.decoder } c.reader = some t ∧
        responseStatus = t.responseStatus ∧
        new = { c with
          fcgiRequest := some { client with decoder := t.decoder }
          reader := [] } ∧
        x = i.deliver
          ⟨c.requestId, t.output, t.dispatched, t.responseStatus⟩ := by
  simp only [interceptTransferData] at hrun
  split at hrun
  · next client hclient =>
      split at hrun
      · next t ht =>
          simp only [Option.some.injEq, Prod.mk.injEq] at hrun
          obtain ⟨hstatus, hnew, hx⟩ := hrun
          exact .inr ⟨client, t, hclient, ht, hstatus.symm, hnew.symm, hx.symm⟩
      · contradiction
  · next hclient =>
      split at hrun
      · next hempty =>
          simp only [Option.some.injEq, Prod.mk.injEq] at hrun
          obtain ⟨hstatus, hnew, hx⟩ := hrun
          exact .inl ⟨hclient, hempty, hstatus.symm, hnew.symm, hx.symm⟩
      · contradiction

theorem evolves_interceptTransferData {parse : MimeHdrParse}
    {c new : ServerConnection} {i x : ServerIntercept} {responseStatus : Bool}
    (hrun : interceptTransferData parse c i = some (responseStatus, new, x)) :
    c.Evolves new ∧ i.Evolves x := by
  rcases interceptTransferData_eq_some hrun with ⟨-, -, -, rfl, rfl⟩ |
    ⟨client, t, -, -, -, rfl, rfl⟩
  · exact ⟨.of_eq rfl rfl rfl, ⟨rfl, rfl, rfl⟩⟩
  · exact ⟨.of_eq rfl rfl rfl, ⟨rfl, rfl, rfl⟩⟩

theorem interceptTransferData_ended {parse : MimeHdrParse}
    {c new : ServerConnection} {i x : ServerIntercept} {responseStatus : Bool}
    (hrun : interceptTransferData parse c i = some (responseStatus, new, x)) :
    x.ended = i.ended := by
  rcases interceptTransferData_eq_some hrun with ⟨-, -, -, -, rfl⟩ |
    ⟨client, t, -, -, -, -, rfl⟩
  · rfl
  · rfl

theorem interceptTransferData_reqCount {parse : MimeHdrParse}
    {c new : ServerConnection} {i x : ServerIntercept} {responseStatus : Bool}
    (hrun : interceptTransferData parse c i = some (responseStatus, new, x)) :
    new.reqCount = c.reqCount ∧ new.maxRequests = c.maxRequests := by
  rcases interceptTransferData_eq_some hrun with ⟨-, -, -, rfl, -⟩ |
    ⟨client, t, -, -, -, rfl, -⟩
  · exact ⟨rfl, rfl⟩
  · exact ⟨rfl, rfl⟩

/-- Detaching leaves everything but the FCGI client, the state and the id. -/
theorem detach_eq (c : ServerConnection) :
    ∃ client state, c.detach =
      { c with fcgiRequest := client, state := state, requestId := 0 } := by
  unfold detach releaseFCGIClient
  split
  · exact ⟨none, .ready, rfl⟩
  · exact ⟨c.fcgiRequest, c.state, rfl⟩

@[simp] theorem detach_alive (c : ServerConnection) :
    c.detach.alive = c.alive := by
  obtain ⟨client, state, heq⟩ := c.detach_eq
  rw [heq]

@[simp] theorem detach_written (c : ServerConnection) :
    c.detach.written = c.written := by
  obtain ⟨client, state, heq⟩ := c.detach_eq
  rw [heq]

@[simp] theorem detach_requestId (c : ServerConnection) :
    c.detach.requestId = 0 := rfl

@[simp] theorem detach_reqCount (c : ServerConnection) :
    c.detach.reqCount = c.reqCount := by
  obtain ⟨client, state, heq⟩ := c.detach_eq
  rw [heq]

@[simp] theorem detach_maxRequests (c : ServerConnection) :
    c.detach.maxRequests = c.maxRequests := by
  obtain ⟨client, state, heq⟩ := c.detach_eq
  rw [heq]

end ServerConnection

end AtsFastcgi
