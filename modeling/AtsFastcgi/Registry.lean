/-
The registry, the pool and the queue agree.  `Consistent` is the inductive
invariant: each operation of `Server` keeps it while request ids do not wrap,
and what the registry promises its readers follows from it.
-/
import AtsFastcgi.DecoderSafety
import AtsFastcgi.ServerSteps
import Mathlib.Data.List.Nodup

namespace AtsFastcgi

open ServerState (ConnEvent Event)

/-! ### The invariant -/

/-- The three structures and the id fields agree.  `owner` says that the id of
a connection never leads to an entry of another one, also while the connection
is between two requests, and `owned_entry` says so of the id that an intercept
keeps after its request has left the registry. -/
structure Consistent (config : FcgiPluginConfig) (s : ServerState) : Prop where
  config_eq : s.config = config
  maxConn_eq : s.pool.maxConn = (ServerState.new config).pool.maxConn
  maxQueue_eq : s.queue.maxQueueSize = (ServerState.new config).queue.maxQueueSize
  nextId_eq : s.nextId = s.issued + 1
  connections_nodup : s.pool.connections.Nodup
  connections_le : s.pool.connections.length ≤ s.pool.maxConn
  available_nodup : s.pool.availableConnections.Nodup
  available_mem : ∀ c ∈ s.pool.availableConnections, c ∈ s.pool.connections
  alive_iff : ∀ c, (s.conns c).alive = true ↔ c ∈ s.pool.connections
  conn_lt : ∀ c ∈ s.pool.connections, c < s.nextConn
  id_lt : ∀ c, (s.conns c).requestId < s.nextId
  idle_id : ∀ c ∈ s.pool.availableConnections, (s.conns c).requestId = 0
  entry_id : ∀ {id i c}, s.Registered id i c → 0 < id ∧ id < s.nextId
  entry_mem : ∀ {id i c}, s.Registered id i c → c ∈ s.pool.connections
  entry_busy : ∀ {id i c}, s.Registered id i c →
    c ∉ s.pool.availableConnections
  entry_conn : ∀ {id i c}, s.Registered id i c → (s.conns c).requestId = id
  entry_intercept : ∀ {id i c}, s.Registered id i c →
    (s.intercepts i).requestId = id
  entry_connected : ∀ {id i c}, s.Registered id i c →
    (s.intercepts i).connected = true
  owner : ∀ c ∈ s.pool.connections, ∀ {i c'},
    s.Registered (s.conns c).requestId i c' → c' = c
  owned_lt : ∀ i, (s.intercepts i).owned = true →
    (s.intercepts i).requestId < s.nextId
  owned_entry : ∀ i, (s.intercepts i).owned = true → ∀ {i' c},
    s.Registered (s.intercepts i).requestId i' c → i' = i
  queue_nodup : s.queue.pendingList.Nodup
  queue_le : s.queue.pendingList.length ≤ s.queue.maxQueueSize
  queue_connected : ∀ i ∈ s.queue.pendingList,
    (s.intercepts i).connected = true
  queue_free : ∀ i ∈ s.queue.pendingList, ∀ {id c}, ¬ s.Registered id i c
  written_lt : ∀ c, ∀ w ∈ (s.conns c).written, w.1 < s.nextId

namespace Consistent

variable {config : FcgiPluginConfig} {s : ServerState}

theorem init : Consistent config (ServerState.new config) := by
  constructor <;>
    simp [ServerState.new, ServerState.Registered, ServerIntercept.owned]

/-- Two entries for one intercept are one entry. -/
theorem intercept_unique (h : Consistent config s) {id id' : Nat}
    {i : InterceptId} {c c' : ConnId} (h₁ : s.Registered id i c)
    (h₂ : s.Registered id' i c') : id = id' ∧ c = c' := by
  obtain rfl : id = id' :=
    (h.entry_intercept h₁).symm.trans (h.entry_intercept h₂)
  have heq := h₁.symm.trans h₂
  exact ⟨rfl, by simpa using heq⟩

/-- An intercept whose id leads to the entry of another one has no entry. -/
theorem unregistered_of_stray (h : Consistent config s) {i i' : InterceptId}
    {c : ConnId} (hr : s.Registered (s.intercepts i).requestId i' c)
    (hne : i' ≠ i) (id : Nat) (d : ConnId) : ¬ s.Registered id i d := by
  intro hr'
  rw [h.entry_intercept hr'] at hr
  have heq := hr.symm.trans hr'
  simp only [Option.some.injEq, Prod.mk.injEq] at heq
  exact hne heq.1

/-- Two entries for one connection are one entry. -/
theorem conn_unique (h : Consistent config s) {id id' : Nat}
    {i i' : InterceptId} {c : ConnId} (h₁ : s.Registered id i c)
    (h₂ : s.Registered id' i' c) : id = id' ∧ i = i' := by
  obtain rfl : id = id' := (h.entry_conn h₁).symm.trans (h.entry_conn h₂)
  have heq := h₁.symm.trans h₂
  exact ⟨rfl, by simpa using heq⟩

theorem setConn (h : Consistent config s) {c : ConnId}
    {conn : ServerConnection} (hev : (s.conns c).Evolves conn) :
    Consistent config (s.setConn c conn) := by
  have hid : ∀ d, ((s.setConn c conn).conns d).requestId =
      (s.conns d).requestId := by
    intro d
    by_cases hd : d = c
    · subst hd
      rw [ServerState.setConn_conns_self]
      exact hev.requestId
    · rw [ServerState.setConn_conns_of_ne s conn hd]
  have halive : ∀ d, ((s.setConn c conn).conns d).alive =
      (s.conns d).alive := by
    intro d
    by_cases hd : d = c
    · subst hd
      rw [ServerState.setConn_conns_self]
      exact hev.alive
    · rw [ServerState.setConn_conns_of_ne s conn hd]
  exact { h with
    alive_iff := fun d => by rw [halive]; exact h.alive_iff d
    id_lt := fun d => by rw [hid]; exact h.id_lt d
    idle_id := fun d hd => by rw [hid]; exact h.idle_id d hd
    entry_conn := fun hr => by rw [hid]; exact h.entry_conn hr
    owner := fun d hd {i c'} hr => by
      rw [hid] at hr
      exact h.owner d hd hr
    written_lt := fun d w hw => by
      by_cases hd : d = c
      · subst hd
        rw [ServerState.setConn_conns_self] at hw
        rcases hev.written w hw with hold | hown
        · exact h.written_lt d w hold
        · rw [hown]
          exact h.id_lt d
      · rw [ServerState.setConn_conns_of_ne s conn hd] at hw
        exact h.written_lt d w hw }

/-- An object keeps its request; it may come to be owned while registered. -/
theorem setIntercept_of_owned (h : Consistent config s) {i : InterceptId}
    {x : ServerIntercept} (hconnected : x.connected = (s.intercepts i).connected)
    (hreq : x.requestId = (s.intercepts i).requestId)
    (howned : x.owned = true →
      (s.intercepts i).owned = true ∨ ∃ id c, s.Registered id i c) :
    Consistent config (s.setIntercept i x) := by
  have hid : ∀ j, ((s.setIntercept i x).intercepts j).requestId =
      (s.intercepts j).requestId := by
    intro j
    by_cases hj : j = i
    · subst hj
      simpa using hreq
    · rw [ServerState.setIntercept_intercepts_of_ne s x hj]
  have hconn : ∀ j, ((s.setIntercept i x).intercepts j).connected =
      (s.intercepts j).connected := by
    intro j
    by_cases hj : j = i
    · subst hj
      simpa using hconnected
    · rw [ServerState.setIntercept_intercepts_of_ne s x hj]
  have hown : ∀ j, ((s.setIntercept i x).intercepts j).owned = true →
      (s.intercepts j).owned = true ∨ ∃ id c, s.Registered id j c := by
    intro j hj
    by_cases hji : j = i
    · subst hji
      rw [ServerState.setIntercept_intercepts_self] at hj
      exact howned hj
    · rw [ServerState.setIntercept_intercepts_of_ne s x hji] at hj
      exact .inl hj
  exact { h with
    entry_intercept := fun hr => by rw [hid]; exact h.entry_intercept hr
    entry_connected := fun hr => by rw [hconn]; exact h.entry_connected hr
    owned_lt := fun j hj => by
      rw [hid]
      rcases hown j hj with hold | ⟨id, c, hr⟩
      · exact h.owned_lt j hold
      · rw [h.entry_intercept hr]
        exact (h.entry_id hr).2
    owned_entry := fun j hj {i' c'} hr' => by
      rw [hid] at hr'
      rcases hown j hj with hold | ⟨id, c, hr⟩
      · exact h.owned_entry j hold hr'
      · rw [h.entry_intercept hr] at hr'
        have heq := hr'.symm.trans hr
        simp only [Option.some.injEq, Prod.mk.injEq] at heq
        exact heq.1
    queue_connected := fun j hj => by rw [hconn]; exact h.queue_connected j hj }

theorem setIntercept (h : Consistent config s) {i : InterceptId}
    {x : ServerIntercept} (hev : (s.intercepts i).Evolves x) :
    Consistent config (s.setIntercept i x) := by
  apply h.setIntercept_of_owned hev.connected hev.requestId
  intro howned
  left
  simpa [ServerIntercept.owned, hev.addPlugins] using howned

/-- A free intercept may become another object that nobody owns. -/
theorem setIntercept_free (h : Consistent config s) {i : InterceptId}
    {x : ServerIntercept} (hfree : s.FreeIntercept i)
    (howned : x.owned = false) : Consistent config (s.setIntercept i x) := by
  have hother : ∀ j, j ≠ i →
      (s.setIntercept i x).intercepts j = s.intercepts j := fun j hj =>
    ServerState.setIntercept_intercepts_of_ne s x hj
  have hreg : ∀ {id j c}, s.Registered id j c → j ≠ i := by
    rintro id j c hr rfl
    exact hfree.2 id c hr
  have hown : ∀ j, ((s.setIntercept i x).intercepts j).owned = true →
      j ≠ i := by
    rintro j hj rfl
    rw [ServerState.setIntercept_intercepts_self, howned] at hj
    contradiction
  exact { h with
    entry_intercept := fun hr => by
      rw [hother _ (hreg hr)]
      exact h.entry_intercept hr
    entry_connected := fun hr => by
      rw [hother _ (hreg hr)]
      exact h.entry_connected hr
    owned_lt := fun j hj => by
      have hne := hown j hj
      rw [hother j hne] at hj ⊢
      exact h.owned_lt j hj
    owned_entry := fun j hj {_ _} hr => by
      have hne := hown j hj
      rw [hother j hne] at hj hr
      exact h.owned_entry j hj hr
    queue_connected := fun j hj => by
      rw [hother j (by rintro rfl; exact hfree.1 hj)]
      exact h.queue_connected j hj }

theorem unregister (h : Consistent config s) (id : Nat) :
    Consistent config (s.unregister id) :=
  { h with
    entry_id := fun hr => h.entry_id (ServerState.registered_unregister.mp hr).2
    entry_mem := fun hr =>
      h.entry_mem (ServerState.registered_unregister.mp hr).2
    entry_busy := fun hr =>
      h.entry_busy (ServerState.registered_unregister.mp hr).2
    entry_conn := fun hr =>
      h.entry_conn (ServerState.registered_unregister.mp hr).2
    entry_intercept := fun hr =>
      h.entry_intercept (ServerState.registered_unregister.mp hr).2
    entry_connected := fun hr =>
      h.entry_connected (ServerState.registered_unregister.mp hr).2
    owner := fun c hc {_ _} hr =>
      h.owner c hc (ServerState.registered_unregister.mp hr).2
    owned_entry := fun i hi {_ _} hr =>
      h.owned_entry i hi (ServerState.registered_unregister.mp hr).2
    queue_free := fun i hi {_ _} hr =>
      h.queue_free i hi (ServerState.registered_unregister.mp hr).2 }

/-- A connection that no one refers to may be put back to id 0. -/
theorem setConn_free (h : Consistent config s) {c : ConnId}
    {conn : ServerConnection} (hfree : s.FreeConn c)
    (halive : conn.alive = (s.conns c).alive) (hid : conn.requestId = 0)
    (hwritten : conn.written = (s.conns c).written) :
    Consistent config (s.setConn c conn) := by
  have hother : ∀ d, d ≠ c → (s.setConn c conn).conns d = s.conns d :=
    fun d hd => ServerState.setConn_conns_of_ne s conn hd
  have hself : (s.setConn c conn).conns c = conn :=
    ServerState.setConn_conns_self s c conn
  have hpos : 0 < s.nextId := by
    rw [h.nextId_eq]
    omega
  exact { h with
    alive_iff := fun d => by
      by_cases hd : d = c
      · rw [hd, hself, halive]
        exact h.alive_iff c
      · rw [hother d hd]
        exact h.alive_iff d
    id_lt := fun d => by
      by_cases hd : d = c
      · rw [hd, hself, hid]
        exact hpos
      · rw [hother d hd]
        exact h.id_lt d
    idle_id := fun d hd => by
      rw [hother d (by rintro rfl; exact hfree.1 hd)]
      exact h.idle_id d hd
    entry_conn := fun {id i d} hr => by
      rw [hother d (by rintro rfl; exact hfree.2 id i hr)]
      exact h.entry_conn hr
    owner := fun d hd {i c'} hr => by
      by_cases hdc : d = c
      · rw [hdc, hself, hid] at hr
        exact absurd (h.entry_id hr).1 (Nat.lt_irrefl 0)
      · rw [hother d hdc] at hr
        exact h.owner d hd hr
    written_lt := fun d w hw => by
      by_cases hd : d = c
      · rw [hd, hself, hwritten] at hw
        exact h.written_lt c w hw
      · rw [hother d hd] at hw
        exact h.written_lt d w hw }

theorem addConnection (h : Consistent config s)
    (hroom : s.pool.connections.length < s.pool.maxConn) :
    Consistent config s.addConnection := by
  have hself := s.addConnection_conns_self
  have hother : ∀ d, d ≠ s.nextConn → s.addConnection.conns d = s.conns d :=
    fun d hd => s.addConnection_conns_of_ne hd
  have hmem : ∀ {d}, d ∈ s.addConnection.pool.connections ↔
      d ∈ s.pool.connections ∨ d = s.nextConn := by
    simp [ServerState.addConnection, ServerState.setConn]
  have hnew : s.nextConn ∉ s.pool.connections := fun hin =>
    Nat.lt_irrefl _ (h.conn_lt _ hin)
  have hold : ∀ {d}, d ∈ s.pool.connections → d ≠ s.nextConn := by
    rintro d hd rfl
    exact hnew hd
  exact { h with
    connections_nodup := by
      show (s.pool.connections ++ [s.nextConn]).Nodup
      rw [← List.concat_eq_append]
      exact List.Nodup.concat hnew h.connections_nodup
    connections_le := by
      show (s.pool.connections ++ [s.nextConn]).length ≤ s.pool.maxConn
      rw [List.length_append, List.length_singleton]
      exact hroom
    available_mem := fun d hd => hmem.mpr (.inl (h.available_mem d hd))
    alive_iff := fun d => by
      by_cases hd : d = s.nextConn
      · rw [hd, hself]
        exact ⟨fun _ => hmem.mpr (.inr rfl), fun _ => rfl⟩
      · rw [hother d hd, h.alive_iff, hmem]
        simp [hd]
    conn_lt := fun d hd => by
      show d < s.nextConn + 1
      rcases hmem.mp hd with hin | rfl
      · exact Nat.lt_succ_of_lt (h.conn_lt d hin)
      · exact Nat.lt_succ_self _
    id_lt := fun d => by
      by_cases hd : d = s.nextConn
      · rw [hd, hself]
        show 0 < s.nextId
        rw [h.nextId_eq]
        exact Nat.succ_pos _
      · rw [hother d hd]
        exact h.id_lt d
    idle_id := fun d hd => by
      rw [hother d (hold (h.available_mem d hd))]
      exact h.idle_id d hd
    entry_mem := fun hr => hmem.mpr (.inl (h.entry_mem hr))
    entry_conn := fun hr => by
      rw [hother _ (hold (h.entry_mem hr))]
      exact h.entry_conn hr
    owner := fun d hd {i c'} hr => by
      rcases hmem.mp hd with hin | rfl
      · rw [hother d (hold hin)] at hr
        exact h.owner d hin hr
      · rw [hself] at hr
        exact absurd (h.entry_id hr).1 (Nat.lt_irrefl 0)
    written_lt := fun d w hw => by
      by_cases hd : d = s.nextConn
      · rw [hd, hself] at hw
        exact absurd hw List.not_mem_nil
      · rw [hother d hd] at hw
        exact h.written_lt d w hw }

theorem takeAvailable (h : Consistent config s) {c : ConnId}
    {rest : List ConnId} (htake : s.pool.availableConnections = c :: rest) :
    Consistent config (s.takeAvailable c rest) := by
  have hsub : ∀ {d}, d ∈ rest → d ∈ s.pool.availableConnections := by
    intro d hd
    rw [htake]
    exact List.mem_cons_of_mem c hd
  have hnodup := h.available_nodup
  rw [htake] at hnodup
  have hrest : Consistent config { s with pool := { s.pool with
      availableConnections := rest } } :=
    { h with
      available_nodup := (List.nodup_cons.mp hnodup).2
      available_mem := fun d hd => h.available_mem d (hsub hd)
      idle_id := fun d hd => h.idle_id d (hsub hd)
      entry_busy := fun hr hd => h.entry_busy hr (hsub hd) }
  exact hrest.setConn (.of_eq rfl rfl rfl)

/-- Registration under a new id, on a connection and for an intercept that
are both free. -/
theorem register (h : Consistent config s) {i : InterceptId} {c : ConnId}
    (hi : s.FreeIntercept i) (hconnected : (s.intercepts i).connected = true)
    (hc : s.FreeConn c) (hmem : c ∈ s.pool.connections)
    (hbound : s.issued + 1 < 2 ^ 32 - 1) :
    Consistent config (s.register i c) := by
  have hnext : (s.register i c).nextId = s.nextId + 1 := by
    show (s.nextId + 1) % 2 ^ 32 = s.nextId + 1
    apply Nat.mod_eq_of_lt
    rw [h.nextId_eq]
    omega
  have hself := s.register_conns_self i c
  have hother : ∀ d, d ≠ c → (s.register i c).conns d = s.conns d :=
    fun d hd => s.register_conns_of_ne i hd
  have hselfI := s.register_intercepts_self i c
  have hotherI : ∀ j, j ≠ i →
      (s.register i c).intercepts j = s.intercepts j :=
    fun j hj => s.register_intercepts_of_ne c hj
  -- an entry of the new registry is the new one or an old one of others
  have hcases : ∀ {id j d}, (s.register i c).Registered id j d →
      (id = s.nextId ∧ j = i ∧ d = c) ∨
        (s.Registered id j d ∧ j ≠ i ∧ d ≠ c) := by
    intro id j d hr
    rcases ServerState.registered_register_cases hr with hnew | ⟨-, hold⟩
    · exact .inl hnew
    · refine .inr ⟨hold, ?_, ?_⟩
      · rintro rfl
        exact hi.2 id d hold
      · rintro rfl
        exact hc.2 id j hold
  have hpos : 0 < s.nextId := by
    rw [h.nextId_eq]
    exact Nat.succ_pos _
  exact {
    config_eq := h.config_eq
    maxConn_eq := h.maxConn_eq
    maxQueue_eq := h.maxQueue_eq
    nextId_eq := by
      rw [hnext, h.nextId_eq]
      rfl
    connections_nodup := h.connections_nodup
    connections_le := h.connections_le
    available_nodup := h.available_nodup
    available_mem := h.available_mem
    alive_iff := fun d => by
      by_cases hd : d = c
      · rw [hd, hself]
        exact h.alive_iff c
      · rw [hother d hd]
        exact h.alive_iff d
    conn_lt := h.conn_lt
    id_lt := fun d => by
      rw [hnext]
      by_cases hd : d = c
      · rw [hd, hself]
        exact Nat.lt_succ_self _
      · rw [hother d hd]
        exact Nat.lt_succ_of_lt (h.id_lt d)
    idle_id := fun d hd => by
      rw [hother d (by rintro rfl; exact hc.1 hd)]
      exact h.idle_id d hd
    entry_id := fun hr => by
      rw [hnext]
      rcases hcases hr with ⟨rfl, -, -⟩ | ⟨hold, -, -⟩
      · exact ⟨hpos, Nat.lt_succ_self _⟩
      · exact ⟨(h.entry_id hold).1, Nat.lt_succ_of_lt (h.entry_id hold).2⟩
    entry_mem := fun hr => by
      rcases hcases hr with ⟨-, -, rfl⟩ | ⟨hold, -, -⟩
      · exact hmem
      · exact h.entry_mem hold
    entry_busy := fun hr => by
      rcases hcases hr with ⟨-, -, rfl⟩ | ⟨hold, -, -⟩
      · exact hc.1
      · exact h.entry_busy hold
    entry_conn := fun hr => by
      rcases hcases hr with ⟨rfl, -, rfl⟩ | ⟨hold, -, hd⟩
      · rw [hself]
      · rw [hother _ hd]
        exact h.entry_conn hold
    entry_intercept := fun hr => by
      rcases hcases hr with ⟨rfl, rfl, -⟩ | ⟨hold, hj, -⟩
      · rw [hselfI]
      · rw [hotherI _ hj]
        exact h.entry_intercept hold
    entry_connected := fun hr => by
      rcases hcases hr with ⟨-, rfl, -⟩ | ⟨hold, hj, -⟩
      · rw [hselfI]
        exact hconnected
      · rw [hotherI _ hj]
        exact h.entry_connected hold
    owner := fun d hd {j c'} hr => by
      rcases hcases hr with ⟨heq, -, rfl⟩ | ⟨hold, -, hc'⟩
      · by_contra hne
        rw [hother d (Ne.symm hne)] at heq
        exact Nat.lt_irrefl _ (heq ▸ h.id_lt d)
      · by_cases hdc : d = c
        · rw [hdc, hself] at hold
          exact absurd (h.entry_id hold).2 (Nat.lt_irrefl _)
        · rw [hother d hdc] at hold
          exact h.owner d hd hold
    owned_lt := fun j hj => by
      rw [hnext]
      by_cases hji : j = i
      · rw [hji, hselfI]
        exact Nat.lt_succ_self _
      · rw [hotherI j hji] at hj ⊢
        exact Nat.lt_succ_of_lt (h.owned_lt j hj)
    owned_entry := fun j hj {i' c'} hr => by
      by_cases hji : j = i
      · rw [hji, hselfI] at hr
        rcases hcases hr with ⟨-, hi', -⟩ | ⟨hold, -, -⟩
        · exact hi'.trans hji.symm
        · exact absurd (h.entry_id hold).2 (Nat.lt_irrefl _)
      · rw [hotherI j hji] at hj hr
        rcases hcases hr with ⟨heq, -, -⟩ | ⟨hold, -, -⟩
        · exact absurd (heq ▸ h.owned_lt j hj) (Nat.lt_irrefl _)
        · exact h.owned_entry j hj hold
    queue_nodup := h.queue_nodup
    queue_le := h.queue_le
    queue_connected := fun j hj => by
      rw [hotherI j (by rintro rfl; exact hi.1 hj)]
      exact h.queue_connected j hj
    queue_free := fun j hj {id d} hr => by
      rcases hcases hr with ⟨-, rfl, -⟩ | ⟨hold, -, -⟩
      · exact hi.1 hj
      · exact h.queue_free j hj hold
    written_lt := fun d w hw => by
      rw [hnext]
      by_cases hd : d = c
      · rw [hd, hself] at hw
        exact Nat.lt_succ_of_lt (h.written_lt c w hw)
      · rw [hother d hd] at hw
        exact Nat.lt_succ_of_lt (h.written_lt d w hw) }

/-- A registered intercept is attached to a connection. -/
theorem attach (h : Consistent config s) {id : Nat} {i : InterceptId}
    {c d : ConnId} (hr : s.Registered id i d) {conn : ServerConnection}
    (hev : (s.conns c).Evolves conn) :
    Consistent config
      ((s.setConn c (conn.createFCGIClient s.config (s.intercepts i)).1)
        |>.setIntercept i
          (conn.createFCGIClient s.config (s.intercepts i)).2) := by
  have hconn := ServerConnection.evolves_createFCGIClient conn s.config
    (s.intercepts i)
  obtain ⟨hconnected, hreq⟩ := ServerConnection.createFCGIClient_intercept conn
    s.config (s.intercepts i)
  exact (h.setConn (hev.trans hconn)).setIntercept_of_owned hconnected hreq
    fun _ => .inr ⟨id, d, hr⟩

theorem freeConn_addConnection (h : Consistent config s) :
    s.addConnection.FreeConn s.nextConn := by
  constructor
  · intro hin
    exact Nat.lt_irrefl _ (h.conn_lt _ (h.available_mem _ hin))
  · intro id i hr
    exact Nat.lt_irrefl _ (h.conn_lt _ (h.entry_mem hr))

theorem freeConn_takeAvailable (h : Consistent config s) {c : ConnId}
    {rest : List ConnId} (htake : s.pool.availableConnections = c :: rest) :
    (s.takeAvailable c rest).FreeConn c := by
  have hnodup := h.available_nodup
  rw [htake] at hnodup
  constructor
  · exact (List.nodup_cons.mp hnodup).1
  · intro id i hr
    apply h.entry_busy hr
    rw [htake]
    exact List.mem_cons_self

/-- A free intercept is connected: registered, queued or dropped. -/
theorem connect (h : Consistent config s) {i : InterceptId}
    (hi : s.FreeIntercept i) (hconnected : (s.intercepts i).connected = true)
    (hbound : (s.connect i).issued < 2 ^ 32 - 1) :
    Consistent config (s.connect i) := by
  rcases s.connect_cases i with ⟨hroom, heq⟩ | ⟨c, rest, -, htake, heq⟩ |
    ⟨-, -, heq⟩
  · rw [heq] at hbound ⊢
    have hadd := h.addConnection hroom
    have hmem : s.nextConn ∈ s.addConnection.pool.connections :=
      List.mem_append_right _ (List.mem_singleton_self _)
    have hreg := hadd.register hi hconnected h.freeConn_addConnection hmem hbound
    exact hreg.setConn (.of_eq rfl rfl rfl)
  · rw [heq] at hbound ⊢
    have hmem : c ∈ s.pool.connections := by
      apply h.available_mem
      rw [htake]
      exact List.mem_cons_self
    have hreg := (h.takeAvailable htake).register hi hconnected
      (h.freeConn_takeAvailable htake) hmem hbound
    exact hreg.attach (ServerState.registered_register_self _ i c) (.refl _)
  · rw [heq]
    by_cases hfull : s.queue.isQueueFull = true
    · rw [ServerState.enqueue, RequestQueue.addToQueue, if_pos hfull]
      exact h
    · have hlt : s.queue.pendingList.length < s.queue.maxQueueSize := by
        simpa [RequestQueue.isQueueFull] using hfull
      rw [ServerState.enqueue, RequestQueue.addToQueue, if_neg hfull]
      exact { h with
        queue_nodup := by
          show (s.queue.pendingList ++ [i]).Nodup
          rw [← List.concat_eq_append]
          exact List.Nodup.concat hi.1 h.queue_nodup
        queue_le := by
          show (s.queue.pendingList ++ [i]).length ≤ s.queue.maxQueueSize
          rw [List.length_append, List.length_singleton]
          exact hlt
        queue_connected := fun j hj => by
          rcases List.mem_append.mp hj with hold | hnew
          · exact h.queue_connected j hold
          · rw [List.mem_singleton.mp hnew]
            exact hconnected
        queue_free := fun j hj {id c} hr => by
          rcases List.mem_append.mp hj with hold | hnew
          · exact h.queue_free j hold hr
          · rw [List.mem_singleton.mp hnew] at hr
            exact hi.2 id c hr }

/-- The head of the queue leaves it free. -/
theorem pop (h : Consistent config s) {i : InterceptId}
    {rest : List InterceptId} (hqueue : s.queue.pendingList = i :: rest) :
    Consistent config
        { s with queue := { s.queue with pendingList := rest } } ∧
      ServerState.FreeIntercept
        { s with queue := { s.queue with pendingList := rest } } i ∧
      (s.intercepts i).connected = true := by
  have hhead : i ∈ s.queue.pendingList := by
    rw [hqueue]
    exact List.mem_cons_self
  have hsub : ∀ {j}, j ∈ rest → j ∈ s.queue.pendingList := by
    intro j hj
    rw [hqueue]
    exact List.mem_cons_of_mem i hj
  have hnodup := h.queue_nodup
  have hle := h.queue_le
  rw [hqueue] at hnodup hle
  refine ⟨?_, ⟨(List.nodup_cons.mp hnodup).1, ?_⟩, h.queue_connected i hhead⟩
  · exact { h with
      queue_nodup := (List.nodup_cons.mp hnodup).2
      queue_le := Nat.le_of_succ_le hle
      queue_connected := fun j hj => h.queue_connected j (hsub hj)
      queue_free := fun j hj {_ _} hr => h.queue_free j (hsub hj) hr }
  · intro id c hr
    exact h.queue_free i hhead hr

theorem connectNext (h : Consistent config s)
    (hbound : s.connectNext.issued < 2 ^ 32 - 1) :
    Consistent config s.connectNext := by
  unfold ServerState.connectNext RequestQueue.popFromQueue at hbound ⊢
  cases hqueue : s.queue.pendingList with
  | nil =>
      simp only
      exact h
  | cons i rest =>
      simp only [hqueue] at hbound
      obtain ⟨hpop, hfree, hconnected⟩ := h.pop hqueue
      exact hpop.connect hfree hconnected hbound

/-! ### Connections that leave the registry -/

/-- A connection that no entry refers to is deleted. -/
theorem deleteConnection (h : Consistent config s) {c : ConnId}
    (hfree : ∀ id i, ¬ s.Registered id i c) :
    Consistent config (s.deleteConnection c) := by
  have hid : ∀ d, ((s.deleteConnection c).conns d).requestId =
      (s.conns d).requestId := by
    intro d
    by_cases hd : d = c
    · subst hd
      simp [ServerState.deleteConnection, ServerState.setConn]
    · simp [ServerState.deleteConnection, ServerState.setConn, hd]
  have hwritten : ∀ d, ((s.deleteConnection c).conns d).written =
      (s.conns d).written := by
    intro d
    by_cases hd : d = c
    · subst hd
      simp [ServerState.deleteConnection, ServerState.setConn]
    · simp [ServerState.deleteConnection, ServerState.setConn, hd]
  have hmem : ∀ {d}, d ∈ (s.deleteConnection c).pool.connections ↔
      d ∈ s.pool.connections ∧ d ≠ c := by
    simp [ServerState.deleteConnection, ServerState.setConn]
  have havail : ∀ {d}, d ∈ (s.deleteConnection c).pool.availableConnections ↔
      d ∈ s.pool.availableConnections ∧ d ≠ c := by
    simp [ServerState.deleteConnection, ServerState.setConn]
  have hne : ∀ {id i d}, s.Registered id i d → d ≠ c := by
    rintro id i d hr rfl
    exact hfree id i hr
  exact { h with
    connections_nodup := h.connections_nodup.filter _
    connections_le :=
      Nat.le_trans (List.length_filter_le _ _) h.connections_le
    available_nodup := h.available_nodup.filter _
    available_mem := fun d hd =>
      hmem.mpr ⟨h.available_mem d (havail.mp hd).1, (havail.mp hd).2⟩
    alive_iff := fun d => by
      by_cases hd : d = c
      · subst hd
        simp [ServerState.deleteConnection, ServerState.setConn]
      · rw [hmem, ← h.alive_iff]
        simp [ServerState.deleteConnection, ServerState.setConn, hd]
    conn_lt := fun d hd => h.conn_lt d (hmem.mp hd).1
    id_lt := fun d => by rw [hid]; exact h.id_lt d
    idle_id := fun d hd => by rw [hid]; exact h.idle_id d (havail.mp hd).1
    entry_mem := fun hr => hmem.mpr ⟨h.entry_mem hr, hne hr⟩
    entry_busy := fun hr hd => h.entry_busy hr (havail.mp hd).1
    entry_conn := fun hr => by rw [hid]; exact h.entry_conn hr
    owner := fun d hd {i c'} hr => by
      rw [hid] at hr
      exact h.owner d (hmem.mp hd).1 hr
    written_lt := fun d w hw => by
      rw [hwritten] at hw
      exact h.written_lt d w hw }

/-- The entry of a connection is erased before the connection is deleted. -/
theorem connectionClosed (h : Consistent config s) (c : ConnId) :
    Consistent config (s.connectionClosed c) := by
  apply (h.unregister _).deleteConnection
  intro id i hr
  obtain ⟨hne, hold⟩ := ServerState.registered_unregister.mp hr
  exact hne (h.entry_conn hold)

theorem closeConnection (h : Consistent config s) (c : ConnId) :
    Consistent config (s.closeConnection c) := by
  refine Consistent.connectionClosed ?_ c
  exact h.setConn (.of_eq rfl rfl rfl)

theorem reuseConnection (h : Consistent config s) {c : ConnId}
    (hfree : s.FreeConn c) (hmem : c ∈ s.pool.connections)
    (hid : (s.conns c).requestId = 0) :
    Consistent config (s.reuseConnection c) := by
  have havail : Consistent config { s with pool := { s.pool with
      availableConnections := s.pool.availableConnections ++ [c] } } :=
    { h with
      available_nodup := by
        show (s.pool.availableConnections ++ [c]).Nodup
        rw [← List.concat_eq_append]
        exact List.Nodup.concat hfree.1 h.available_nodup
      available_mem := fun d hd => by
        rcases List.mem_append.mp hd with hold | hnew
        · exact h.available_mem d hold
        · rw [List.mem_singleton.mp hnew]
          exact hmem
      idle_id := fun d hd => by
        rcases List.mem_append.mp hd with hold | hnew
        · exact h.idle_id d hold
        · rw [List.mem_singleton.mp hnew]
          exact hid
      entry_busy := fun {id i d} hr hd => by
        rcases List.mem_append.mp hd with hold | hnew
        · exact h.entry_busy hr hold
        · rw [List.mem_singleton.mp hnew] at hr
          exact hfree.2 id i hr }
  exact havail.setConn (.of_eq rfl rfl rfl)

/-- A free connection goes back to the pool or is closed. -/
theorem releaseConnection (h : Consistent config s) {c : ConnId}
    (hfree : s.FreeConn c) (hmem : c ∈ s.pool.connections) :
    Consistent config (s.releaseConnection c) := by
  unfold ServerState.releaseConnection
  simp only
  split
  · refine Consistent.reuseConnection ?_ hfree hmem ?_
    · exact h.setConn_free hfree (by simp) (by simp) (by simp)
    · simp
  · refine Consistent.connectionClosed ?_ c
    exact h.setConn_free hfree (by simp) (by simp) (by simp)

/-- An entry's connection is free once the entry is erased. -/
theorem freeConn_unregister (h : Consistent config s) {id : Nat}
    {i : InterceptId} {c : ConnId} (hr : s.Registered id i c) :
    (s.unregister id).FreeConn c := by
  constructor
  · exact h.entry_busy hr
  · intro id' i' hr'
    obtain ⟨hne, hold⟩ := ServerState.registered_unregister.mp hr'
    exact hne (h.conn_unique hr hold).1

/-- An entry's intercept is free once the entry is erased. -/
theorem freeIntercept_unregister (h : Consistent config s) {id : Nat}
    {i : InterceptId} {c : ConnId} (hr : s.Registered id i c) :
    (s.unregister id).FreeIntercept i := by
  constructor
  · intro hin
    exact h.queue_free i hin hr
  · intro id' c' hr'
    obtain ⟨hne, hold⟩ := ServerState.registered_unregister.mp hr'
    exact hne (h.intercept_unique hr hold).1

theorem removeIntercept (h : Consistent config s) (id : Nat)
    (hbound : (s.removeIntercept id).issued < 2 ^ 32 - 1) :
    Consistent config (s.removeIntercept id) := by
  unfold ServerState.removeIntercept at hbound ⊢
  cases hlookup : s.interceptList[id]? with
  | none => exact h
  | some entry =>
      obtain ⟨i, c⟩ := entry
      simp only [hlookup] at hbound
      refine Consistent.connectNext ?_ hbound
      exact (h.unregister id).releaseConnection (h.freeConn_unregister hlookup)
        (h.entry_mem hlookup)

theorem reConnect (h : Consistent config s) (id : Nat)
    (hbound : (s.reConnect id).issued < 2 ^ 32 - 1) :
    Consistent config (s.reConnect id) := by
  unfold ServerState.reConnect at hbound ⊢
  cases hget : s.getIntercept id with
  | none => exact h
  | some i =>
      simp only [hget] at hbound
      obtain ⟨c, hr⟩ := ServerState.getIntercept_eq_some.mp hget
      exact (h.unregister id).connect (h.freeIntercept_unregister hr)
        (h.entry_connected hr) hbound

/-! ### Events -/

theorem retry (h : Consistent config s) (c : ConnId)
    (hbound : (s.retry c).issued < 2 ^ 32 - 1) :
    Consistent config (s.retry c) :=
  (h.reConnect _ hbound).closeConnection c

theorem complete (h : Consistent config s) (i : InterceptId) (c : ConnId)
    (hbound : (s.complete i c).issued < 2 ^ 32 - 1) :
    Consistent config (s.complete i c) := by
  refine Consistent.removeIntercept ?_ _ hbound
  refine Consistent.setIntercept ?_ ⟨rfl, rfl, rfl⟩
  exact h.setConn (.of_eq rfl rfl rfl)

theorem onNetConnect (h : Consistent config s) (c : ConnId) :
    Consistent config (s.onNetConnect c) := by
  have hev : (s.conns c).Evolves (s.conns c).netConnect := .of_eq rfl rfl rfl
  cases hget : s.getIntercept (s.conns c).requestId with
  | none =>
      rw [ServerState.onNetConnect_idle hget]
      exact h.setConn hev
  | some i =>
      obtain ⟨d, hr⟩ := ServerState.getIntercept_eq_some.mp hget
      rw [ServerState.onNetConnect_registered hget]
      exact h.attach hr hev

theorem onReadReady (h : Consistent config s) {parse : MimeHdrParse}
    {c : ConnId} {blocks : List Bytes} {s' : ServerState}
    (hstep : s.onReadReady parse c blocks = some s')
    (hbound : s'.issued < 2 ^ 32 - 1) : Consistent config s' := by
  rcases ServerState.onReadReady_cases hstep with ⟨-, rfl⟩ |
    ⟨i, responseStatus, conn, x, -, hrun, rfl⟩
  · exact h.setConn (.of_eq rfl rfl rfl)
  · obtain ⟨hconn, hx⟩ := ServerConnection.evolves_interceptTransferData hrun
    have hpair : Consistent config ((s.setConn c conn).setIntercept i x) := by
      refine Consistent.setIntercept ?_ hx
      refine h.setConn (.trans ?_ hconn)
      exact .of_eq rfl rfl rfl
    cases responseStatus with
    | true => exact hpair.complete i c hbound
    | false => exact hpair

theorem onLateEos (h : Consistent config s) (c : ConnId) :
    Consistent config (s.onLateEos c) := by
  unfold ServerState.onLateEos
  split
  · split
    · refine Consistent.closeConnection ?_ c
      exact h.setIntercept ⟨rfl, rfl, rfl⟩
    · exact h.closeConnection c
  · exact h.closeConnection c

theorem onError (h : Consistent config s) (c : ConnId) :
    Consistent config (s.onError c) := by
  unfold ServerState.onError
  split
  · refine Consistent.closeConnection ?_ c
    exact h.setIntercept ⟨rfl, rfl, rfl⟩
  · exact h.connectionClosed c

theorem read (h : Consistent config s) {c : ConnId} {s' : ServerState}
    (hstep : (s.conns c).read.map (s.setConn c) = some s') :
    Consistent config s' := by
  obtain ⟨conn, hread, rfl⟩ := Option.map_eq_some_iff.mp hstep
  exact h.setConn (ServerConnection.evolves_read hread)

theorem handlePHPConnectionEvents (h : Consistent config s)
    {parse : MimeHdrParse} {c : ConnId} {event : ConnEvent} {s' : ServerState}
    (hstep : s.handlePHPConnectionEvents parse c event = some s')
    (hbound : s'.issued < 2 ^ 32 - 1) : Consistent config s' := by
  cases event with
  | netConnect =>
      simp only [ServerState.handlePHPConnectionEvents,
        Option.some.injEq] at hstep
      rw [← hstep]
      exact h.onNetConnect c
  | netConnectFailed =>
      simp only [ServerState.handlePHPConnectionEvents,
        Option.some.injEq] at hstep
      rw [← hstep] at hbound ⊢
      exact h.retry c hbound
  | readReady blocks => exact h.onReadReady hstep hbound
  | readComplete =>
      simp only [ServerState.handlePHPConnectionEvents] at hstep
      split at hstep
      · rw [← Option.some.inj hstep] at hbound ⊢
        exact h.complete _ c hbound
      · contradiction
  | writeReady =>
      simp only [ServerState.handlePHPConnectionEvents] at hstep
      split at hstep
      · exact h.read hstep
      · rw [← Option.some.inj hstep]
        exact h
  | writeComplete => exact h.read hstep
  | eos =>
      simp only [ServerState.handlePHPConnectionEvents,
        Option.some.injEq] at hstep
      rw [← hstep] at hbound ⊢
      split
      · exact h.onLateEos c
      · next hearly =>
          rw [if_neg hearly] at hbound
          exact h.retry c hbound
  | error =>
      simp only [ServerState.handlePHPConnectionEvents] at hstep
      split at hstep
      · rw [← Option.some.inj hstep]
        exact h.onError c
      · contradiction

theorem consume (h : Consistent config s) {i : InterceptId}
    {input : ClientInput} {s' : ServerState}
    (hstep : s.consume i input = some s') : Consistent config s' := by
  have hsent : (s.intercepts i).Evolves
      (input.sent (input.log (s.intercepts i))) := by
    cases input <;> exact ⟨rfl, rfl, rfl⟩
  have hkept : (s.intercepts i).Evolves
      (input.kept (input.log (s.intercepts i))) := by
    cases input <;> exact ⟨rfl, rfl, rfl⟩
  rcases ServerState.consume_cases hstep with ⟨i', c, conn, -, hwrite, rfl⟩ |
    ⟨-, rfl⟩
  · have hconn := h.setConn (ServerConnection.evolves_write hwrite)
    exact hconn.setIntercept hsent
  · exact h.setIntercept hkept

theorem destroy (h : Consistent config s) (i : InterceptId)
    (hbound : (s.destroy i).issued < 2 ^ 32 - 1) :
    Consistent config (s.destroy i) := by
  unfold ServerState.destroy at hbound ⊢
  simp only at hbound ⊢
  split
  · exact h.setIntercept ⟨rfl, rfl, rfl⟩
  · next hopen =>
      rw [if_neg hopen] at hbound
      refine Consistent.removeIntercept ?_ _ hbound
      exact h.setIntercept ⟨rfl, rfl, rfl⟩

/-- An intercept that has not been passed to `connect` is known to no one. -/
theorem freeIntercept_new (h : Consistent config s) {i : InterceptId}
    (hnew : (s.intercepts i).connected = false) : s.FreeIntercept i := by
  constructor
  · intro hin
    rw [h.queue_connected i hin] at hnew
    contradiction
  · intro id c hr
    rw [h.entry_connected hr] at hnew
    contradiction

/-- Every event keeps the invariant while ids do not wrap. -/
theorem step (h : Consistent config s) {parse : MimeHdrParse} {e : Event}
    {s' : ServerState} (hexists : Exists s e)
    (hstep : s.step parse e = some s') (hbound : s'.issued < 2 ^ 32 - 1) :
    Consistent config s' := by
  replace hstep := ServerState.handle_of_step hstep
  cases e with
  | connect i txn requestId =>
      have hfree := h.freeIntercept_new hexists
      have hset : Consistent config
          (s.setIntercept i (ServerIntercept.new txn requestId)) :=
        h.setIntercept_free hfree rfl
      have hconnected : ((s.setIntercept i
          (ServerIntercept.new txn requestId)).intercepts i).connected =
            true := by
        rw [ServerState.setIntercept_intercepts_self]
        rfl
      rw [← Option.some.inj hstep] at hbound ⊢
      exact hset.connect hfree hconnected hbound
  | connection c event => exact h.handlePHPConnectionEvents hstep hbound
  | destroy i =>
      rw [← Option.some.inj hstep] at hbound ⊢
      exact h.destroy i hbound
  | input i input => exact h.consume hstep
  | respond c r =>
      rw [← Option.some.inj hstep]
      exact h.setConn (.of_eq rfl rfl rfl)

end Consistent

/-! ### Runs -/

/-- Consistency along every run in which the objects exist. -/
theorem consistent_of_reach {parse : MimeHdrParse} {config : FcgiPluginConfig}
    {s : ServerState} {guard : ServerState → Event → Prop}
    (hguard : ∀ s e, guard s e → Exists s e)
    (hreach : Transition.Reach (workerThread parse config) guard s)
    (hids : s.issued < 2 ^ 32 - 1) : Consistent config s := by
  refine @Transition.Reach.invariant_while _ _ (workerThread parse config)
    guard (Consistent config) (fun s => s.issued < 2 ^ 32 - 1) ?_ ?_ ?_ s hreach
    hids
  · intro s e s' hstep hlt
    exact Nat.lt_of_le_of_lt (ServerState.step_issued hstep) hlt
  · rintro s rfl
    exact .init
  · intro s e s' _ hs hg hlt hstep
    exact hs.step (hguard s e hg) hstep hlt

/-- What the registry, the pool and the queue promise to their readers. -/
structure RegistryConsistent (s : ServerState) : Prop where
  connections_nodup : s.pool.connections.Nodup
  connections_le : s.pool.connections.length ≤ s.pool.maxConn
  available_nodup : s.pool.availableConnections.Nodup
  available_mem : ∀ c ∈ s.pool.availableConnections, c ∈ s.pool.connections
  entry : ∀ id i c, s.Registered id i c →
    c ∈ s.pool.connections ∧ c ∉ s.pool.availableConnections ∧
      (s.conns c).requestId = id ∧ (s.intercepts i).requestId = id
  unshared : ∀ id i c id' i' c', s.Registered id i c →
    s.Registered id' i' c' → id ≠ id' → i ≠ i' ∧ c ≠ c'
  queued_once : s.queue.pendingList.Nodup
  queued_only : ∀ i ∈ s.queue.pendingList, ∀ id c, ¬ s.Registered id i c
  queue_le : s.queue.pendingList.length ≤ s.queue.maxQueueSize
  alive : ∀ c, (c ∈ s.pool.connections ∨ c ∈ s.pool.availableConnections ∨
    ∃ id i, s.Registered id i c) → (s.conns c).alive = true

/-- The registry, the pool and the queue agree in every state of every run. -/
theorem registryConsistent_of_reach (parse : MimeHdrParse)
    (config : FcgiPluginConfig) (s : ServerState)
    (hreach : Transition.Reach (workerThread parse config) Exists s)
    (hids : s.issued < 2 ^ 32 - 1) : RegistryConsistent s := by
  have h := consistent_of_reach (fun _ _ he => he) hreach hids
  exact {
    connections_nodup := h.connections_nodup
    connections_le := h.connections_le
    available_nodup := h.available_nodup
    available_mem := h.available_mem
    entry := fun id i c hr =>
      ⟨h.entry_mem hr, h.entry_busy hr, h.entry_conn hr, h.entry_intercept hr⟩
    unshared := fun id i c id' i' c' hr hr' hne => by
      constructor
      · rintro rfl
        exact hne (h.intercept_unique hr hr').1
      · rintro rfl
        exact hne (h.conn_unique hr hr').1
    queued_once := h.queue_nodup
    queued_only := fun i hi id c => h.queue_free i hi
    queue_le := h.queue_le
    alive := fun c hc => by
      rw [h.alive_iff]
      rcases hc with hin | hin | ⟨id, i, hr⟩
      · exact hin
      · exact h.available_mem c hin
      · exact h.entry_mem hr }

namespace RegistryWitness

def config : FcgiPluginConfig where
  documentRootDir := ascii "/var/www/html/"
  html := ascii "index.php"
  maxConnLength := 6
  maxReqLength := 1000
  requestQueueSize := 250

/-- A client request without header fields. -/
def txn (method : Bytes) : ClientRequest where
  headersInitialized := true
  fields := []
  path := ascii "/"
  query := []
  method := method

/-- With one connection, a second request waits until the first one ends by
the loss of its connection. -/
def events : List Event :=
  [.connect 0 (txn (ascii "GET")) 7, .connect 1 (txn (ascii "GET")) 7,
    .connection 0 .netConnect, .connection 0 .eos]

def final : ServerState :=
  Transition.after (workerThread DecoderSafetyWitness.parse config) Exists
    (ServerState.new config) events

theorem registryConsistent_final : RegistryConsistent final :=
  registryConsistent_of_reach DecoderSafetyWitness.parse config final
    (Transition.Reach.after (.init rfl) (by decide)) (by decide)

end RegistryWitness

end AtsFastcgi
