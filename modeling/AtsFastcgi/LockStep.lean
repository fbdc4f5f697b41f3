/-
A worker thread in two states that agree on what belongs to it.  The operations
of `Server` go the same way in both, and leave what belongs to other threads
alone.
-/
import AtsFastcgi.Scheduling

namespace AtsFastcgi

open ServerState (ConnEvent Event)

variable {mine : InterceptId → Prop} {s₀ s r : ServerState}

/-! ### Three relations -/

/-- The states agree on the pool, the queue and the counters, on the connections
of the pool and on the intercepts that are `mine`, and `r` has the entries of
these only. -/
structure Mirrors (mine : InterceptId → Prop) (s r : ServerState) : Prop where
  config : r.config = s.config
  pool : r.pool = s.pool
  queue : r.queue = s.queue
  nextId : r.nextId = s.nextId
  issued : r.issued = s.issued
  nextConn : r.nextConn = s.nextConn
  conns : ∀ c ∈ s.pool.connections, r.conns c = s.conns c
  intercepts : ∀ i, mine i → r.intercepts i = s.intercepts i
  registered : ∀ {id i c}, r.Registered id i c ↔ mine i ∧ s.Registered id i c
  fault : r.fault = s.fault

/-- From `s₀` to `s`, only connections of the pool and new ones, intercepts that
are `mine` and their entries have changed. -/
structure Spares (mine : InterceptId → Prop) (s₀ s : ServerState) : Prop where
  config : s.config = s₀.config
  conns : ∀ c, c ∉ s₀.pool.connections → c < s₀.nextConn →
    s.conns c = s₀.conns c
  intercepts : ∀ i, ¬ mine i → s.intercepts i = s₀.intercepts i
  registered : ∀ {id i c}, ¬ mine i →
    (s.Registered id i c ↔ s₀.Registered id i c)
  connections : ∀ c ∈ s.pool.connections,
    c ∈ s₀.pool.connections ∨ s₀.nextConn ≤ c
  nextConn : s₀.nextConn ≤ s.nextConn

/-- What the pool, the queue and the intercepts of the thread refer to is its
own. -/
structure Closed (mine : InterceptId → Prop) (s : ServerState) : Prop where
  available : ∀ c ∈ s.pool.availableConnections, c ∈ s.pool.connections
  queue : ∀ i ∈ s.queue.pendingList, mine i
  conn_id : ∀ c ∈ s.pool.connections, ∀ {i d},
    s.Registered (s.conns c).requestId i d → mine i
  owned_id : ∀ i, mine i → (s.intercepts i).owned = true → ∀ {j d},
    s.Registered (s.intercepts i).requestId j d → mine j
  zero : ∀ {i d}, ¬ s.Registered 0 i d

/-- The next request id is not 0 and has no entry. -/
def ServerState.IdFree (s : ServerState) : Prop :=
  0 < s.nextId ∧ ∀ i c, ¬ s.Registered s.nextId i c

/-- `s` and `r` have gone the same way since `s₀`. -/
structure LockStep (mine : InterceptId → Prop) (s₀ s r : ServerState) :
    Prop where
  mirrors : Mirrors mine s r
  spares : Spares mine s₀ s
  closed : Closed mine s

theorem Spares.refl (mine : InterceptId → Prop) (s : ServerState) :
    Spares mine s s where
  config := rfl
  conns _ _ _ := rfl
  intercepts _ _ := rfl
  registered _ := Iff.rfl
  connections _ hc := .inl hc
  nextConn := Nat.le_refl _

/-! ### Lookups -/

theorem Mirrors.lookup (h : Mirrors mine s r) {id : Nat}
    (hown : ∀ {i c}, s.Registered id i c → mine i) :
    r.interceptList[id]? = s.interceptList[id]? := by
  cases hs : s.interceptList[id]? with
  | none =>
      rw [ServerState.lookup_eq_none] at hs ⊢
      exact fun i c hr => hs i c (h.registered.mp hr).2
  | some entry =>
      obtain ⟨i, c⟩ := entry
      exact h.registered.mpr ⟨hown hs, hs⟩

theorem Mirrors.getIntercept (h : Mirrors mine s r) {id : Nat}
    (hown : ∀ {i c}, s.Registered id i c → mine i) :
    r.getIntercept id = s.getIntercept id := by
  rw [ServerState.getIntercept, h.lookup hown]
  rfl

theorem Mirrors.getServerConnection (h : Mirrors mine s r) {id : Nat}
    (hown : ∀ {i c}, s.Registered id i c → mine i) :
    r.getServerConnection id = s.getServerConnection id := by
  rw [ServerState.getServerConnection, h.lookup hown]
  rfl

/-! ### Single objects -/

section Objects

variable {c : ConnId} {conn : ServerConnection} {i : InterceptId}
  {x : ServerIntercept}

theorem Mirrors.setConn (h : Mirrors mine s r) (c : ConnId)
    (conn : ServerConnection) :
    Mirrors mine (s.setConn c conn) (r.setConn c conn) :=
  { h with
    conns := fun d hd => by
      by_cases hdc : d = c
      · rw [hdc, ServerState.setConn_conns_self,
          ServerState.setConn_conns_self]
      · rw [ServerState.setConn_conns_of_ne r conn hdc,
          ServerState.setConn_conns_of_ne s conn hdc]
        exact h.conns d hd }

theorem Spares.setConn (h : Spares mine s₀ s) (hc : c ∈ s.pool.connections)
    (conn : ServerConnection) : Spares mine s₀ (s.setConn c conn) :=
  { h with
    conns := fun d hd hlt => by
      have hdc : d ≠ c := by
        rintro rfl
        rcases h.connections d hc with hin | hle
        · exact hd hin
        · exact Nat.not_lt.mpr hle hlt
      rw [ServerState.setConn_conns_of_ne s conn hdc]
      exact h.conns d hd hlt }

theorem Closed.setConn (h : Closed mine s)
    (hid : conn.requestId = (s.conns c).requestId ∨ conn.requestId = 0) :
    Closed mine (s.setConn c conn) :=
  { h with
    conn_id := fun d hd {i e} hr => by
      by_cases hdc : d = c
      · rw [hdc, ServerState.setConn_conns_self] at hr
        rcases hid with hsame | hzero
        · rw [hsame] at hr
          exact h.conn_id c (hdc ▸ hd) hr
        · rw [hzero] at hr
          exact absurd hr h.zero
      · rw [ServerState.setConn_conns_of_ne s conn hdc] at hr
        exact h.conn_id d hd hr }

theorem LockStep.setConn (h : LockStep mine s₀ s r)
    (hc : c ∈ s.pool.connections) (conn : ServerConnection)
    (hid : conn.requestId = (s.conns c).requestId ∨ conn.requestId = 0) :
    LockStep mine s₀ (s.setConn c conn) (r.setConn c conn) where
  mirrors := h.mirrors.setConn c conn
  spares := h.spares.setConn hc conn
  closed := h.closed.setConn hid

theorem Mirrors.setIntercept (h : Mirrors mine s r) (i : InterceptId)
    (x : ServerIntercept) :
    Mirrors mine (s.setIntercept i x) (r.setIntercept i x) :=
  { h with
    intercepts := fun j hj => by
      by_cases hji : j = i
      · rw [hji, ServerState.setIntercept_intercepts_self,
          ServerState.setIntercept_intercepts_self]
      · rw [ServerState.setIntercept_intercepts_of_ne r x hji,
          ServerState.setIntercept_intercepts_of_ne s x hji]
        exact h.intercepts j hj }

theorem Spares.setIntercept (h : Spares mine s₀ s) (hi : mine i)
    (x : ServerIntercept) : Spares mine s₀ (s.setIntercept i x) :=
  { h with
    intercepts := fun j hj => by
      rw [ServerState.setIntercept_intercepts_of_ne s x
        (by rintro rfl; exact hj hi)]
      exact h.intercepts j hj }

theorem Closed.setIntercept (h : Closed mine s)
    (hx : x.owned = true → ∀ {j d}, s.Registered x.requestId j d → mine j) :
    Closed mine (s.setIntercept i x) :=
  { h with
    owned_id := fun j hj howned {k d} hr => by
      by_cases hji : j = i
      · rw [hji, ServerState.setIntercept_intercepts_self] at howned hr
        exact hx howned hr
      · rw [ServerState.setIntercept_intercepts_of_ne s x hji] at howned hr
        exact h.owned_id j hj howned hr }

theorem LockStep.setIntercept (h : LockStep mine s₀ s r) (hi : mine i)
    (hx : x.owned = true → ∀ {j d}, s.Registered x.requestId j d → mine j) :
    LockStep mine s₀ (s.setIntercept i x) (r.setIntercept i x) where
  mirrors := h.mirrors.setIntercept i x
  spares := h.spares.setIntercept hi x
  closed := h.closed.setIntercept hx

/-- The intercept goes on as the same object. -/
theorem LockStep.evolve (h : LockStep mine s₀ s r) (hi : mine i)
    (hev : (s.intercepts i).Evolves x) :
    LockStep mine s₀ (s.setIntercept i x) (r.setIntercept i x) := by
  refine h.setIntercept hi fun howned => ?_
  rw [hev.requestId]
  apply h.closed.owned_id i hi
  simpa [ServerIntercept.owned, hev.addPlugins] using howned

end Objects

/-! ### The registry -/

section Registry

variable {id : Nat} {i : InterceptId} {c : ConnId}

theorem ServerState.IdFree.unregister (h : s.IdFree) (id : Nat) :
    (s.unregister id).IdFree :=
  ⟨h.1, fun i c hr =>
    h.2 i c (ServerState.registered_unregister.mp hr).2⟩

theorem Mirrors.unregister (h : Mirrors mine s r) (id : Nat) :
    Mirrors mine (s.unregister id) (r.unregister id) :=
  { h with
    registered := by
      intro id' i c
      rw [ServerState.registered_unregister,
        ServerState.registered_unregister, h.registered]
      exact and_left_comm }

theorem Spares.unregister (h : Spares mine s₀ s)
    (hown : ∀ {i c}, s.Registered id i c → mine i) :
    Spares mine s₀ (s.unregister id) :=
  { h with
    registered := fun {id' i c} hi => by
      rw [ServerState.registered_unregister, ← h.registered hi]
      refine and_iff_right_of_imp fun hr => ?_
      rintro rfl
      exact hi (hown hr) }

theorem Closed.unregister (h : Closed mine s) (id : Nat) :
    Closed mine (s.unregister id) where
  available := h.available
  queue := h.queue
  conn_id c hc _ _ hr :=
    h.conn_id c hc (ServerState.registered_unregister.mp hr).2
  owned_id i hi howned _ _ hr :=
    h.owned_id i hi howned (ServerState.registered_unregister.mp hr).2
  zero hr := h.zero (ServerState.registered_unregister.mp hr).2

theorem LockStep.unregister (h : LockStep mine s₀ s r)
    (hown : ∀ {i c}, s.Registered id i c → mine i) :
    LockStep mine s₀ (s.unregister id) (r.unregister id) where
  mirrors := h.mirrors.unregister id
  spares := h.spares.unregister hown
  closed := h.closed.unregister id

theorem Mirrors.register (h : Mirrors mine s r) (hi : mine i)
    (hc : c ∈ s.pool.connections) :
    Mirrors mine (s.register i c) (r.register i c) where
  config := h.config
  pool := h.pool
  queue := h.queue
  nextId := congrArg (fun id => (id + 1) % 2 ^ 32) h.nextId
  issued := congrArg (· + 1) h.issued
  nextConn := h.nextConn
  conns d hd := by
    by_cases hdc : d = c
    · rw [hdc, ServerState.register_conns_self,
        ServerState.register_conns_self, h.conns c hc, h.nextId]
    · rw [ServerState.register_conns_of_ne r i hdc,
        ServerState.register_conns_of_ne s i hdc]
      exact h.conns d hd
  intercepts j hj := by
    by_cases hji : j = i
    · rw [hji, ServerState.register_intercepts_self,
        ServerState.register_intercepts_self, h.intercepts i hi, h.nextId]
    · rw [ServerState.register_intercepts_of_ne r c hji,
        ServerState.register_intercepts_of_ne s c hji]
      exact h.intercepts j hj
  registered := by
    intro id j d
    rw [ServerState.registered_register, ServerState.registered_register,
      h.nextId]
    split
    · constructor
      · rintro ⟨rfl, rfl⟩
        exact ⟨hi, rfl, rfl⟩
      · exact fun hr => hr.2
    · exact h.registered
  fault := by
    show (r.fault || (r.intercepts i).destroyed) =
      (s.fault || (s.intercepts i).destroyed)
    rw [h.fault, h.intercepts i hi]

theorem Spares.register (h : Spares mine s₀ s) (hi : mine i)
    (hc : c ∈ s.pool.connections) (hfree : s.IdFree) :
    Spares mine s₀ (s.register i c) :=
  { h with
    conns := fun d hd hlt => by
      have hdc : d ≠ c := by
        rintro rfl
        rcases h.connections d hc with hin | hle
        · exact hd hin
        · exact Nat.not_lt.mpr hle hlt
      rw [ServerState.register_conns_of_ne s i hdc]
      exact h.conns d hd hlt
    intercepts := fun j hj => by
      rw [ServerState.register_intercepts_of_ne s c
        (by rintro rfl; exact hj hi)]
      exact h.intercepts j hj
    registered := fun {id j d} hj => by
      rw [ServerState.registered_register, ← h.registered hj]
      split
      · next hid =>
          constructor
          · rintro ⟨rfl, -⟩
            exact absurd hi hj
          · intro hr
            exact absurd (hid ▸ hr) (hfree.2 j d)
      · exact Iff.rfl }

theorem Closed.register (h : Closed mine s) (hi : mine i)
    (hfree : s.IdFree) : Closed mine (s.register i c) where
  available := h.available
  queue := h.queue
  conn_id d hd j e hr := by
    rcases ServerState.registered_register_cases hr with
      ⟨-, rfl, -⟩ | ⟨hne, hold⟩
    · exact hi
    · by_cases hdc : d = c
      · rw [hdc, ServerState.register_conns_self] at hne
        exact absurd rfl hne
      · rw [ServerState.register_conns_of_ne s i hdc] at hold
        exact h.conn_id d hd hold
  owned_id j hj howned k d hr := by
    rcases ServerState.registered_register_cases hr with
      ⟨-, rfl, -⟩ | ⟨hne, hold⟩
    · exact hi
    · by_cases hji : j = i
      · rw [hji, ServerState.register_intercepts_self] at hne
        exact absurd rfl hne
      · rw [ServerState.register_intercepts_of_ne s c hji] at howned hold
        exact h.owned_id j hj howned hold
  zero hr := by
    rcases ServerState.registered_register_cases hr with
      ⟨hid, -, -⟩ | ⟨-, hold⟩
    · exact Nat.ne_of_lt hfree.1 hid
    · exact h.zero hold

theorem LockStep.register (h : LockStep mine s₀ s r) (hi : mine i)
    (hc : c ∈ s.pool.connections) (hfree : s.IdFree) :
    LockStep mine s₀ (s.register i c) (r.register i c) where
  mirrors := h.mirrors.register hi hc
  spares := h.spares.register hi hc hfree
  closed := h.closed.register hi hfree

end Registry

/-! ### The pool and the queue -/

section Pool

variable {c : ConnId} {i : InterceptId}

/-- Other connections are available. -/
theorem LockStep.setAvailable (h : LockStep mine s₀ s r) {l : List ConnId}
    (hl : ∀ c ∈ l, c ∈ s.pool.connections) :
    LockStep mine s₀
      { s with pool := { s.pool with availableConnections := l } }
      { r with pool := { r.pool with availableConnections := l } } where
  mirrors := { h.mirrors with pool := by rw [h.mirrors.pool] }
  spares := { h.spares with }
  closed := { h.closed with available := hl }

/-- Other intercepts wait. -/
theorem LockStep.setQueue (h : LockStep mine s₀ s r) (queue : RequestQueue)
    (hqueue : ∀ i ∈ queue.pendingList, mine i) :
    LockStep mine s₀ { s with queue } { r with queue } where
  mirrors := { h.mirrors with queue := rfl }
  spares := { h.spares with }
  closed := { h.closed with queue := hqueue }

theorem LockStep.takeAvailable (h : LockStep mine s₀ s r) {rest : List ConnId}
    (htake : s.pool.availableConnections = c :: rest) :
    LockStep mine s₀ (s.takeAvailable c rest) (r.takeAvailable c rest) := by
  have hmem : ∀ d ∈ c :: rest, d ∈ s.pool.connections := by
    rw [← htake]
    exact h.closed.available
  have hc := hmem c List.mem_cons_self
  have havail := h.setAvailable (l := rest)
    fun d hd => hmem d (List.mem_cons_of_mem c hd)
  rw [ServerState.takeAvailable, ServerState.takeAvailable,
    h.mirrors.conns c hc]
  exact havail.setConn hc _ (.inl rfl)

theorem LockStep.reuseConnection (h : LockStep mine s₀ s r)
    (hc : c ∈ s.pool.connections) :
    LockStep mine s₀ (s.reuseConnection c) (r.reuseConnection c) := by
  have havail := h.setAvailable (l := s.pool.availableConnections ++ [c]) (by
    intro d hd
    rcases List.mem_append.mp hd with hold | hnew
    · exact h.closed.available d hold
    · rw [List.mem_singleton.mp hnew]
      exact hc)
  rw [h.mirrors.pool] at havail
  rw [ServerState.reuseConnection, ServerState.reuseConnection,
    h.mirrors.conns c hc, h.mirrors.pool]
  exact havail.setConn hc _ (.inl rfl)

/-- Both states make the same new connection. -/
theorem LockStep.addConnection (h : LockStep mine s₀ s r) :
    LockStep mine s₀ s.addConnection r.addConnection := by
  have hself := s.addConnection_conns_self
  have hother : ∀ d, d ≠ s.nextConn → s.addConnection.conns d = s.conns d :=
    fun d hd => s.addConnection_conns_of_ne hd
  have hmem : ∀ {d}, d ∈ s.addConnection.pool.connections ↔
      d ∈ s.pool.connections ∨ d = s.nextConn := by
    simp [ServerState.addConnection, ServerState.setConn]
  constructor
  · exact { h.mirrors with
      pool := by
        show { r.pool with connections := r.pool.connections ++ [r.nextConn] } =
          { s.pool with connections := s.pool.connections ++ [s.nextConn] }
        rw [h.mirrors.pool, h.mirrors.nextConn]
      nextConn := congrArg (· + 1) h.mirrors.nextConn
      conns := fun d hd => by
        by_cases hdn : d = s.nextConn
        · have hrself := r.addConnection_conns_self
          rw [h.mirrors.nextConn, h.mirrors.config] at hrself
          rw [hdn, hself, hrself]
        · rw [hother d hdn, r.addConnection_conns_of_ne
            (h.mirrors.nextConn ▸ hdn)]
          exact h.mirrors.conns d ((hmem.mp hd).resolve_right hdn) }
  · exact { h.spares with
      conns := fun d hd hlt => by
        have hne := Nat.ne_of_lt (Nat.lt_of_lt_of_le hlt h.spares.nextConn)
        rw [hother d hne]
        exact h.spares.conns d hd hlt
      connections := fun d hd => by
        rcases hmem.mp hd with hold | rfl
        · exact h.spares.connections d hold
        · exact .inr h.spares.nextConn
      nextConn := Nat.le_succ_of_le h.spares.nextConn }
  · exact { h.closed with
      available := fun d hd => hmem.mpr (.inl (h.closed.available d hd))
      conn_id := fun d hd {i e} hr => by
        by_cases hdn : d = s.nextConn
        · rw [hdn, hself] at hr
          exact absurd hr h.closed.zero
        · rw [hother d hdn] at hr
          exact h.closed.conn_id d ((hmem.mp hd).resolve_right hdn) hr }

theorem LockStep.deleteConnection (h : LockStep mine s₀ s r)
    (hc : c ∈ s.pool.connections) :
    LockStep mine s₀ (s.deleteConnection c) (r.deleteConnection c) := by
  have hset := h.setConn hc { s.conns c with alive := false } (.inl rfl)
  have hmem : ∀ {d}, d ∈ (s.deleteConnection c).pool.connections →
      d ∈ s.pool.connections ∧ d ≠ c := by
    intro d hd
    simpa [ServerState.deleteConnection, ServerState.setConn] using hd
  have hr : r.deleteConnection c =
      { r.setConn c { s.conns c with alive := false } with
        pool := (s.deleteConnection c).pool } := by
    rw [ServerState.deleteConnection, h.mirrors.conns c hc, h.mirrors.pool]
    rfl
  rw [hr]
  constructor
  · exact { hset.mirrors with
      pool := rfl
      conns := fun d hd => hset.mirrors.conns d (hmem hd).1 }
  · exact { hset.spares with
      connections := fun d hd => hset.spares.connections d (hmem hd).1 }
  · exact { hset.closed with
      available := fun d hd => by
        obtain ⟨hin, hne⟩ : d ∈ s.pool.availableConnections ∧ d ≠ c := by
          simpa [ServerState.deleteConnection, ServerState.setConn] using hd
        simpa [ServerState.deleteConnection, ServerState.setConn] using
          (⟨h.closed.available d hin, hne⟩ : d ∈ s.pool.connections ∧ d ≠ c)
      conn_id := fun d hd {i e} => hset.closed.conn_id d (hmem hd).1 }

end Pool

/-! ### The operations of the server -/

namespace LockStep

variable {c : ConnId} {i : InterceptId} {id : Nat}

theorem attach (h : LockStep mine s₀ s r) (hi : mine i)
    (hc : c ∈ s.pool.connections)
    (hid : ∀ {j d}, s.Registered (s.intercepts i).requestId j d → mine j) :
    LockStep mine s₀ (s.createFCGIClient i c) (r.createFCGIClient i c) := by
  have hconn := ServerConnection.evolves_createFCGIClient (s.conns c) s.config
    (s.intercepts i)
  obtain ⟨-, hreq⟩ := ServerConnection.createFCGIClient_intercept (s.conns c)
    s.config (s.intercepts i)
  have hset := h.setConn hc
    ((s.conns c).createFCGIClient s.config (s.intercepts i)).1
    (.inl hconn.requestId)
  rw [ServerState.createFCGIClient, ServerState.createFCGIClient,
    h.mirrors.conns c hc, h.mirrors.intercepts i hi, h.mirrors.config]
  refine hset.setIntercept hi fun _ j d hr => ?_
  rw [hreq] at hr
  exact hid hr

theorem connectNew (h : LockStep mine s₀ s r) (hi : mine i)
    (hfree : s.IdFree) :
    LockStep mine s₀ (s.connectNew i) (r.connectNew i) := by
  have hmem : s.nextConn ∈ s.addConnection.pool.connections :=
    List.mem_append_right _ (List.mem_singleton_self _)
  have hreg := h.addConnection.register hi hmem hfree
  rw [ServerState.connectNew, ServerState.connectNew, h.mirrors.nextConn,
    hreg.mirrors.conns _ hmem]
  exact hreg.setConn hmem _ (.inl rfl)

theorem connectPooled (h : LockStep mine s₀ s r) (hi : mine i)
    (hfree : s.IdFree) {rest : List ConnId}
    (htake : s.pool.availableConnections = c :: rest) :
    LockStep mine s₀ (s.connectPooled i c rest) (r.connectPooled i c rest) := by
  have hmem : c ∈ s.pool.connections := by
    apply h.closed.available
    rw [htake]
    exact List.mem_cons_self
  refine ((h.takeAvailable htake).register hi hmem hfree).attach hi hmem ?_
  intro j d hr
  rw [ServerState.register_intercepts_self] at hr
  rcases ServerState.registered_register_cases hr with
    ⟨-, rfl, -⟩ | ⟨hne, -⟩
  · exact hi
  · exact absurd rfl hne

theorem enqueue (h : LockStep mine s₀ s r) (hi : mine i) :
    LockStep mine s₀ (s.enqueue i) (r.enqueue i) := by
  rw [ServerState.enqueue, ServerState.enqueue, h.mirrors.queue]
  refine h.setQueue _ fun j hj => ?_
  unfold RequestQueue.addToQueue at hj
  split at hj
  · exact h.closed.queue j hj
  · rcases List.mem_append.mp hj with hold | hnew
    · exact h.closed.queue j hold
    · rw [List.mem_singleton.mp hnew]
      exact hi

/-- The outcome of `connect` depends on the pool only. -/
theorem connect (h : LockStep mine s₀ s r) (hi : mine i)
    (hfree : s.IdFree) : LockStep mine s₀ (s.connect i) (r.connect i) := by
  have hpool := h.mirrors.pool
  rcases s.connect_cases i with ⟨hroom, heq⟩ | ⟨c, rest, hfull, htake, heq⟩ |
    ⟨hfull, htake, heq⟩
  · rw [heq, ServerState.connect_new i (hpool ▸ hroom)]
    exact h.connectNew hi hfree
  · rw [heq, ServerState.connect_pooled i (hpool ▸ hfull) (hpool ▸ htake)]
    exact h.connectPooled hi hfree htake
  · rw [heq, ServerState.connect_queued i (hpool ▸ hfull) (hpool ▸ htake)]
    exact h.enqueue hi

theorem connectNext (h : LockStep mine s₀ s r) (hfree : s.IdFree) :
    LockStep mine s₀ s.connectNext r.connectNext := by
  unfold ServerState.connectNext RequestQueue.popFromQueue
  rw [h.mirrors.queue]
  cases hqueue : s.queue.pendingList with
  | nil => exact h
  | cons i rest =>
      have hmem : ∀ j ∈ i :: rest, mine j := by
        rw [← hqueue]
        exact h.closed.queue
      have hpop := h.setQueue { s.queue with pendingList := rest }
        fun j hj => hmem j (List.mem_cons_of_mem i hj)
      exact hpop.connect (hmem i List.mem_cons_self) hfree

theorem connectionClosed (h : LockStep mine s₀ s r)
    (hc : c ∈ s.pool.connections) :
    LockStep mine s₀ (s.connectionClosed c) (r.connectionClosed c) := by
  rw [ServerState.connectionClosed, ServerState.connectionClosed,
    h.mirrors.conns c hc]
  exact (h.unregister (h.closed.conn_id c hc)).deleteConnection hc

theorem closeConnection (h : LockStep mine s₀ s r)
    (hc : c ∈ s.pool.connections) :
    LockStep mine s₀ (s.closeConnection c) (r.closeConnection c) := by
  rw [ServerState.closeConnection, ServerState.closeConnection,
    h.mirrors.conns c hc]
  have hset := h.setConn hc { s.conns c with state := .closed } (.inl rfl)
  exact hset.connectionClosed hc

theorem releaseConnection (h : LockStep mine s₀ s r)
    (hc : c ∈ s.pool.connections) :
    LockStep mine s₀ (s.releaseConnection c) (r.releaseConnection c) := by
  unfold ServerState.releaseConnection
  rw [h.mirrors.conns c hc]
  simp only
  split
  · exact (h.setConn hc _ (.inr (by simp))).reuseConnection hc
  · exact (h.setConn hc _ (.inr (by simp))).connectionClosed hc

end LockStep

/-- The entry of a connection that is given back does not use the next id. -/
theorem ServerState.IdFree.releaseConnection (h : s.IdFree) (c : ConnId) :
    (s.releaseConnection c).IdFree := by
  unfold ServerState.releaseConnection
  simp only
  split
  · exact h
  · exact ⟨h.1, fun i d hr => h.2 i d
      (ServerState.registered_connectionClosed.mp hr).2⟩

namespace LockStep

variable {c : ConnId} {i : InterceptId} {id : Nat}

theorem removeIntercept (h : LockStep mine s₀ s r)
    (hown : ∀ {i d}, s.Registered id i d → mine i ∧ d ∈ s.pool.connections)
    (hfree : s.IdFree) :
    LockStep mine s₀ (s.removeIntercept id) (r.removeIntercept id) := by
  have hmine : ∀ {i d}, s.Registered id i d → mine i := fun hr => (hown hr).1
  unfold ServerState.removeIntercept
  rw [h.mirrors.lookup hmine]
  cases hlookup : s.interceptList[id]? with
  | none => exact h
  | some entry =>
      obtain ⟨i, d⟩ := entry
      exact ((h.unregister hmine).releaseConnection
        (hown hlookup).2).connectNext
          ((hfree.unregister id).releaseConnection d)

theorem reConnect (h : LockStep mine s₀ s r)
    (hown : ∀ {i d}, s.Registered id i d → mine i) (hfree : s.IdFree) :
    LockStep mine s₀ (s.reConnect id) (r.reConnect id) := by
  unfold ServerState.reConnect
  rw [h.mirrors.getIntercept hown]
  cases hget : s.getIntercept id with
  | none => exact h
  | some i =>
      obtain ⟨d, hr⟩ := ServerState.getIntercept_eq_some.mp hget
      exact (h.unregister hown).connect (hown hr) (hfree.unregister id)

end LockStep

/-- `connect` takes no connection out of the pool. -/
theorem ServerState.mem_connections_connect (s : ServerState) (i : InterceptId)
    {c : ConnId} (hc : c ∈ s.pool.connections) :
    c ∈ (s.connect i).pool.connections := by
  rcases s.connect_cases i with ⟨-, heq⟩ | ⟨d, rest, -, -, heq⟩ |
    ⟨-, -, heq⟩
  · rw [heq]
    exact List.mem_append_left _ hc
  · rw [heq]
    exact hc
  · rw [heq]
    exact hc

theorem ServerState.mem_connections_reConnect (s : ServerState) (id : Nat)
    {c : ConnId} (hc : c ∈ s.pool.connections) :
    c ∈ (s.reConnect id).pool.connections := by
  unfold ServerState.reConnect
  split
  · exact (s.unregister id).mem_connections_connect _ hc
  · exact hc

namespace LockStep

variable {c : ConnId} {i : InterceptId}

theorem retry (h : LockStep mine s₀ s r) (hc : c ∈ s.pool.connections)
    (hfree : s.IdFree) : LockStep mine s₀ (s.retry c) (r.retry c) := by
  rw [ServerState.retry, ServerState.retry, h.mirrors.conns c hc]
  exact (h.reConnect (h.closed.conn_id c hc) hfree).closeConnection
    (s.mem_connections_reConnect _ hc)

theorem complete (h : LockStep mine s₀ s r) (hi : mine i)
    (hc : c ∈ s.pool.connections)
    (hown : ∀ {j d}, s.Registered (s.intercepts i).requestId j d →
      mine j ∧ d ∈ s.pool.connections)
    (hfree : s.IdFree) :
    LockStep mine s₀ (s.complete i c) (r.complete i c) := by
  have hset := h.setConn hc { s.conns c with state := .complete } (.inl rfl)
  have hev := hset.evolve hi
    (x := (s.intercepts i).outputComplete) ⟨rfl, rfl, rfl⟩
  have hx := hset.mirrors.intercepts i hi
  rw [ServerState.complete, ServerState.complete, h.mirrors.conns c hc,
    ServerState.setResponseOutputComplete,
    ServerState.setResponseOutputComplete, hx]
  exact hev.removeIntercept hown hfree

end LockStep

/-! ### The events -/

namespace ServerState

theorem onReadReady_idle {parse : MimeHdrParse} {c : ConnId}
    (hget : s.getIntercept (s.conns c).requestId = none)
    (blocks : List Bytes) :
    s.onReadReady parse c blocks =
      some (s.setConn c ((s.conns c).receive blocks)) := by
  have hget' : (s.setConn c ((s.conns c).receive blocks)).getIntercept
      ((s.conns c).receive blocks).requestId = none := hget
  simp only [onReadReady, setConn_conns_self, hget']

theorem onReadReady_registered {parse : MimeHdrParse} {c : ConnId}
    {blocks : List Bytes} {i : InterceptId} {responseStatus : Bool}
    {conn : ServerConnection} {x : ServerIntercept}
    (hget : s.getIntercept (s.conns c).requestId = some i)
    (hrun : interceptTransferData parse ((s.conns c).receive blocks)
      (s.intercepts i) = some (responseStatus, conn, x)) :
    s.onReadReady parse c blocks = some (if responseStatus then
        ((s.setConn c conn).setIntercept i x).complete i c
      else (s.setConn c conn).setIntercept i x) := by
  have hget' : (s.setConn c ((s.conns c).receive blocks)).getIntercept
      ((s.conns c).receive blocks).requestId = some i := hget
  have hrun' : interceptTransferData parse ((s.conns c).receive blocks)
      ((s.setConn c ((s.conns c).receive blocks)).intercepts i) =
        some (responseStatus, conn, x) := hrun
  simp only [onReadReady, setConn_conns_self, hget', hrun', setConn_setConn]

theorem consume_kept {i : InterceptId} {input : ClientInput}
    (hget : s.getServerConnection (s.intercepts i).requestId = none) :
    s.consume i input =
      some (s.setIntercept i (input.kept (input.log (s.intercepts i)))) := by
  have hget' : getServerConnection
      (s.setIntercept i (input.log (s.intercepts i)))
      (input.log (s.intercepts i)).requestId = none := by
    cases input <;> exact hget
  have hconsume : s.consume i input =
      (s.setIntercept i (input.log (s.intercepts i))).stream i input := by
    cases input <;> rfl
  simp only [hconsume, stream, writeRequest, setIntercept_intercepts_self,
    hget', setIntercept_setIntercept]

theorem consume_sent {i : InterceptId} {input : ClientInput} {c : ConnId}
    {conn : ServerConnection}
    (hget : s.getServerConnection (s.intercepts i).requestId = some c)
    (hwrite : input.write (s.conns c) = some conn) :
    s.consume i input = some ((s.setConn c conn).setIntercept i
      (input.sent (input.log (s.intercepts i)))) := by
  have hget' : getServerConnection
      (s.setIntercept i (input.log (s.intercepts i)))
      (input.log (s.intercepts i)).requestId = some c := by
    cases input <;> exact hget
  have hconsume : s.consume i input =
      (s.setIntercept i (input.log (s.intercepts i))).stream i input := by
    cases input <;> rfl
  have hwrite' : input.write
      ((s.setIntercept i (input.log (s.intercepts i))).conns c) =
        some conn := hwrite
  simp only [hconsume, stream, writeRequest, setIntercept_intercepts_self,
    hget', hwrite', Option.map_some, setIntercept_setConn,
    setIntercept_setIntercept]

end ServerState

/-- The event is for an object of the thread. -/
def OfThread (mine : InterceptId → Prop) (s : ServerState) : Event → Prop
  | .connect i _ _ | .destroy i | .input i _ => mine i
  | .connection c _ | .respond c _ => c ∈ s.pool.connections

namespace LockStep

variable {config : FcgiPluginConfig} {parse : MimeHdrParse} {s' : ServerState}
  {c : ConnId} {i : InterceptId}

/-- What an entry of the thread leads to. -/
theorem entry (h : LockStep mine s₀ s r) (hcons : Consistent config r)
    {id : Nat} (hi : mine i) (hr : s.Registered id i c) :
    c ∈ s.pool.connections ∧ (s.intercepts i).requestId = id := by
  have hr' := h.mirrors.registered.mpr ⟨hi, hr⟩
  have hmem := hcons.entry_mem hr'
  have hid := hcons.entry_intercept hr'
  rw [h.mirrors.pool] at hmem
  rw [h.mirrors.intercepts i hi] at hid
  exact ⟨hmem, hid⟩

/-- The id of a registered intercept leads to it. -/
theorem own_entry (h : LockStep mine s₀ s r) (hcons : Consistent config r)
    {id : Nat} (hi : mine i) (hr : s.Registered id i c) {j : InterceptId}
    {d : ConnId} (hr' : s.Registered (s.intercepts i).requestId j d) :
    mine j ∧ d ∈ s.pool.connections := by
  obtain ⟨hmem, hid⟩ := h.entry hcons hi hr
  rw [hid] at hr'
  have heq := hr.symm.trans hr'
  simp only [Option.some.injEq, Prod.mk.injEq] at heq
  exact ⟨heq.1 ▸ hi, heq.2 ▸ hmem⟩

/-- The entry that the id of a connection leads to. -/
theorem conn_entry (h : LockStep mine s₀ s r) (hc : c ∈ s.pool.connections)
    (hget : s.getIntercept (s.conns c).requestId = some i) :
    mine i ∧ r.getIntercept (r.conns c).requestId = some i ∧
      ∃ d, s.Registered (s.conns c).requestId i d := by
  obtain ⟨d, hr⟩ := ServerState.getIntercept_eq_some.mp hget
  refine ⟨h.closed.conn_id c hc hr, ?_, d, hr⟩
  rw [h.mirrors.conns c hc, h.mirrors.getIntercept (h.closed.conn_id c hc)]
  exact hget

theorem conn_none (h : LockStep mine s₀ s r) (hc : c ∈ s.pool.connections)
    (hget : s.getIntercept (s.conns c).requestId = none) :
    r.getIntercept (r.conns c).requestId = none := by
  rw [h.mirrors.conns c hc, h.mirrors.getIntercept (h.closed.conn_id c hc)]
  exact hget

theorem onNetConnect (h : LockStep mine s₀ s r) (hcons : Consistent config r)
    (hc : c ∈ s.pool.connections) :
    LockStep mine s₀ (s.onNetConnect c) (r.onNetConnect c) := by
  cases hget : s.getIntercept (s.conns c).requestId with
  | none =>
      rw [ServerState.onNetConnect_idle hget,
        ServerState.onNetConnect_idle (h.conn_none hc hget),
        h.mirrors.conns c hc]
      exact h.setConn hc _ (.inl rfl)
  | some i =>
      obtain ⟨hi, hget', d, hr⟩ := h.conn_entry hc hget
      have hev := ServerConnection.evolves_createFCGIClient
        (s.conns c).netConnect s.config (s.intercepts i)
      obtain ⟨-, hreq⟩ := ServerConnection.createFCGIClient_intercept
        (s.conns c).netConnect s.config (s.intercepts i)
      rw [ServerState.onNetConnect_registered hget,
        ServerState.onNetConnect_registered hget', h.mirrors.conns c hc,
        h.mirrors.intercepts i hi, h.mirrors.config]
      have hset := h.setConn hc ((s.conns c).netConnect.createFCGIClient
        s.config (s.intercepts i)).1 (.inl hev.requestId)
      refine hset.setIntercept hi fun _ j e hr' => ?_
      rw [hreq] at hr'
      exact (h.own_entry hcons hi hr hr').1

theorem onReadReady (h : LockStep mine s₀ s r) (hcons : Consistent config r)
    (hfree : s.IdFree) (hc : c ∈ s.pool.connections) {blocks : List Bytes}
    (hstep : s.onReadReady parse c blocks = some s') :
    ∃ r', r.onReadReady parse c blocks = some r' ∧
      LockStep mine s₀ s' r' := by
  rcases ServerState.onReadReady_cases hstep with ⟨hget, rfl⟩ |
    ⟨i, responseStatus, conn, x, hget, hrun, rfl⟩
  · refine ⟨_, ServerState.onReadReady_idle (h.conn_none hc hget) blocks, ?_⟩
    rw [h.mirrors.conns c hc]
    exact h.setConn hc _ (.inl rfl)
  · obtain ⟨hi, hget', d, hr⟩ := h.conn_entry hc hget
    obtain ⟨hconn, hx⟩ := ServerConnection.evolves_interceptTransferData hrun
    have hrun' : interceptTransferData parse ((r.conns c).receive blocks)
        (r.intercepts i) = some (responseStatus, conn, x) := by
      rw [h.mirrors.conns c hc, h.mirrors.intercepts i hi]
      exact hrun
    refine ⟨_, ServerState.onReadReady_registered hget' hrun', ?_⟩
    have hset := h.setConn hc conn (.inl hconn.requestId)
    have hpair := hset.evolve hi hx
    cases responseStatus with
    | false => exact hpair
    | true =>
        refine hpair.complete hi hc (fun {j e} hr' => ?_) hfree
        rw [ServerState.setIntercept_intercepts_self, hx.requestId] at hr'
        exact h.own_entry hcons hi hr hr'

theorem onLateEos (h : LockStep mine s₀ s r) (hc : c ∈ s.pool.connections) :
    LockStep mine s₀ (s.onLateEos c) (r.onLateEos c) := by
  unfold ServerState.onLateEos
  cases hget : s.getIntercept (s.conns c).requestId with
  | none =>
      rw [h.conn_none hc hget]
      exact h.closeConnection hc
  | some i =>
      obtain ⟨hi, hget', -⟩ := h.conn_entry hc hget
      rw [hget']
      simp only
      rw [h.mirrors.conns c hc, h.mirrors.intercepts i hi]
      split
      · exact (h.evolve hi (x := (s.intercepts i).error)
          ⟨rfl, rfl, rfl⟩).closeConnection hc
      · exact h.closeConnection hc

theorem onError (h : LockStep mine s₀ s r) (hc : c ∈ s.pool.connections) :
    LockStep mine s₀ (s.onError c) (r.onError c) := by
  unfold ServerState.onError
  cases hget : s.getIntercept (s.conns c).requestId with
  | none =>
      rw [h.conn_none hc hget]
      exact h.connectionClosed hc
  | some i =>
      obtain ⟨hi, hget', -⟩ := h.conn_entry hc hget
      rw [hget']
      simp only
      rw [h.mirrors.intercepts i hi]
      exact (h.evolve hi (x := (s.intercepts i).badGateway)
        ⟨rfl, rfl, rfl⟩).closeConnection hc

theorem read (h : LockStep mine s₀ s r) (hc : c ∈ s.pool.connections)
    (hstep : (s.conns c).read.map (s.setConn c) = some s') :
    ∃ r', (r.conns c).read.map (r.setConn c) = some r' ∧
      LockStep mine s₀ s' r' := by
  obtain ⟨conn, hread, rfl⟩ := Option.map_eq_some_iff.mp hstep
  refine ⟨r.setConn c conn, ?_, ?_⟩
  · rw [h.mirrors.conns c hc, hread]
    rfl
  · exact h.setConn hc _ (.inl (ServerConnection.evolves_read hread).requestId)

theorem handlePHPConnectionEvents (h : LockStep mine s₀ s r)
    (hcons : Consistent config r) (hfree : s.IdFree)
    (hc : c ∈ s.pool.connections) {event : ConnEvent}
    (hstep : s.handlePHPConnectionEvents parse c event = some s') :
    ∃ r', r.handlePHPConnectionEvents parse c event = some r' ∧
      LockStep mine s₀ s' r' := by
  have hconn := h.mirrors.conns c hc
  cases event with
  | netConnect =>
      obtain rfl := Option.some.inj hstep
      exact ⟨_, rfl, h.onNetConnect hcons hc⟩
  | netConnectFailed =>
      obtain rfl := Option.some.inj hstep
      exact ⟨_, rfl, h.retry hc hfree⟩
  | readReady blocks => exact h.onReadReady hcons hfree hc hstep
  | readComplete =>
      simp only [ServerState.handlePHPConnectionEvents] at hstep ⊢
      cases hget : s.getIntercept (s.conns c).requestId with
      | none =>
          rw [hget] at hstep
          contradiction
      | some i =>
          rw [hget] at hstep
          obtain ⟨hi, hget', d, hr⟩ := h.conn_entry hc hget
          rw [hget']
          obtain rfl := Option.some.inj hstep
          exact ⟨_, rfl, h.complete hi hc (h.own_entry hcons hi hr) hfree⟩
  | writeReady =>
      simp only [ServerState.handlePHPConnectionEvents] at hstep ⊢
      split at hstep
      · next hopen =>
          rw [hconn, if_pos hopen, ← hconn]
          exact h.read hc hstep
      · next hshut =>
          rw [hconn, if_neg hshut]
          obtain rfl := Option.some.inj hstep
          exact ⟨r, rfl, h⟩
  | writeComplete => exact h.read hc hstep
  | eos =>
      obtain rfl := Option.some.inj hstep
      refine ⟨_, rfl, ?_⟩
      rw [hconn]
      split
      · exact h.onLateEos hc
      · exact h.retry hc hfree
  | error =>
      simp only [ServerState.handlePHPConnectionEvents] at hstep ⊢
      split at hstep
      · next hvc =>
          rw [hconn, if_pos hvc]
          obtain rfl := Option.some.inj hstep
          exact ⟨_, rfl, h.onError hc⟩
      · contradiction

theorem consume (h : LockStep mine s₀ s r) (hcons : Consistent config r)
    (hi : mine i) (howned : (s.intercepts i).owned = true)
    {input : ClientInput} (hstep : s.consume i input = some s') :
    ∃ r', r.consume i input = some r' ∧ LockStep mine s₀ s' r' := by
  have hx := h.mirrors.intercepts i hi
  have hget := h.mirrors.getServerConnection (h.closed.owned_id i hi howned)
  have hsent : (s.intercepts i).Evolves
      (input.sent (input.log (s.intercepts i))) := by
    cases input <;> exact ⟨rfl, rfl, rfl⟩
  have hkept : (s.intercepts i).Evolves
      (input.kept (input.log (s.intercepts i))) := by
    cases input <;> exact ⟨rfl, rfl, rfl⟩
  rw [← hx] at hget
  rcases ServerState.consume_cases hstep with ⟨j, c, conn, hr, hwrite, rfl⟩ |
    ⟨hnone, rfl⟩
  · have hc := (h.entry hcons (h.closed.owned_id i hi howned hr) hr).1
    have hsome := ServerState.getServerConnection_eq_some.mpr ⟨j, hr⟩
    rw [← hx] at hsome
    refine ⟨_, ServerState.consume_sent (hget.trans hsome)
      ((h.mirrors.conns c hc).symm ▸ hwrite), ?_⟩
    rw [hx]
    have hev := ServerConnection.evolves_write hwrite
    exact (h.setConn hc _ (.inl hev.requestId)).evolve hi hsent
  · have hempty := ServerState.getServerConnection_eq_none.mpr hnone
    rw [← hx] at hempty
    refine ⟨_, ServerState.consume_kept (hget.trans hempty), ?_⟩
    rw [hx]
    exact h.evolve hi hkept

theorem destroy (h : LockStep mine s₀ s r) (hcons : Consistent config r)
    (hfree : s.IdFree) (hi : mine i)
    (howned : (s.intercepts i).owned = true) :
    LockStep mine s₀ (s.destroy i) (r.destroy i) := by
  have hev := h.evolve hi (s.intercepts i).evolves_destroyedObject
  rw [s.destroy_eq, r.destroy_eq, h.mirrors.intercepts i hi]
  split
  · exact hev
  · refine hev.removeIntercept (fun {j d} hr => ?_) hfree
    have hj := h.closed.owned_id i hi howned hr
    exact ⟨hj, (h.entry hcons hj hr).1⟩

/-- A callback on the thread does the same in both states. -/
theorem handle (h : LockStep mine s₀ s r) (hcons : Consistent config r)
    (hfree : s.IdFree) {e : Event} (hown : OfThread mine s e)
    (howns : Owns s e) (hhandle : s.handle parse e = some s') :
    ∃ r', r.handle parse e = some r' ∧ LockStep mine s₀ s' r' := by
  cases e with
  | connect i txn requestId =>
      obtain rfl := Option.some.inj hhandle
      have hset := h.setIntercept (x := ServerIntercept.new txn requestId) hown
        fun howned => absurd howned (by simp [ServerIntercept.owned,
          ServerIntercept.new])
      exact ⟨_, rfl, hset.connect hown hfree⟩
  | connection c event =>
      exact h.handlePHPConnectionEvents hcons hfree hown hhandle
  | destroy i =>
      obtain rfl := Option.some.inj hhandle
      exact ⟨_, rfl, h.destroy hcons hfree hown howns⟩
  | input i input => exact h.consume hcons hown howns hhandle
  | respond c rec =>
      obtain rfl := Option.some.inj hhandle
      refine ⟨_, rfl, ?_⟩
      rw [h.mirrors.conns c hown]
      exact h.setConn hown _ (.inl rfl)

/-- An event of the thread does the same in both states. -/
theorem step (h : LockStep mine s₀ s r) (hcons : Consistent config r)
    (hfree : s.IdFree) {e : Event} (hown : OfThread mine s e)
    (howns : Owns s e) (hstep : s.step parse e = some s') :
    ∃ r', r.step parse e = some r' ∧ LockStep mine s₀ s' r' := by
  obtain ⟨hhandle, hfault⟩ := ServerState.step_eq_some.mp hstep
  obtain ⟨r', hr', hlock⟩ := h.handle hcons hfree hown howns hhandle
  exact ⟨r', ServerState.step_eq_some.mpr
    ⟨hr', hlock.mirrors.fault.trans hfault⟩, hlock⟩

end LockStep

end AtsFastcgi
