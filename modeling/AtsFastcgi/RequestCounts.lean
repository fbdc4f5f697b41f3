/-
How many requests a connection serves.  The count is compared with
`max_requests` when a request ends, so an attachment that comes from the pool
stays within it.  The attachment that an answer of `TSNetConnect` makes is not
compared with anything; `WithinRequests` says when it is harmless.
-/
import AtsFastcgi.PooledConnections
import AtsFastcgi.ServerSteps

namespace AtsFastcgi

open ServerState (ConnEvent Event)

/-! ### The count of one connection -/

namespace ServerConnection

/-- The connection is the same for whoever counts its requests. -/
structure SameCount (old new : ServerConnection) : Prop where
  requestId : new.requestId = old.requestId
  reqCount : new.reqCount = old.reqCount
  maxRequests : new.maxRequests = old.maxRequests

theorem SameCount.refl (c : ServerConnection) : c.SameCount c :=
  ⟨rfl, rfl, rfl⟩

theorem SameCount.trans {a b c : ServerConnection} (hab : a.SameCount b)
    (hbc : b.SameCount c) : a.SameCount c :=
  ⟨hbc.requestId.trans hab.requestId, hbc.reqCount.trans hab.reqCount,
    hbc.maxRequests.trans hab.maxRequests⟩

theorem sameCount_read {c new : ServerConnection} (hread : c.read = some new) :
    c.SameCount new := by
  obtain ⟨-, rfl⟩ := read_eq_some.mp hread
  exact ⟨rfl, rfl, rfl⟩

theorem sameCount_write {input : ClientInput} {c new : ServerConnection}
    (hwrite : input.write c = some new) : c.SameCount new := by
  obtain ⟨client, client', buf, -, -, -, -, rfl⟩ := write_eq_some.mp hwrite
  exact ⟨rfl, rfl, rfl⟩

theorem sameCount_interceptTransferData {parse : MimeHdrParse}
    {c new : ServerConnection} {i x : ServerIntercept} {responseStatus : Bool}
    (hrun : interceptTransferData parse c i = some (responseStatus, new, x)) :
    c.SameCount new := by
  obtain ⟨hcount, hmax⟩ := interceptTransferData_reqCount hrun
  exact ⟨(evolves_interceptTransferData hrun).1.requestId, hcount, hmax⟩

/-- An attachment is counted once. -/
theorem createFCGIClient_reqCount_le (c : ServerConnection)
    (config : FcgiPluginConfig) (i : ServerIntercept) :
    (c.createFCGIClient config i).1.reqCount ≤ c.reqCount + 1 := by
  simp only [createFCGIClient]
  split
  · exact Nat.mod_le _ _
  · exact Nat.le_succ _

theorem createFCGIClient_fields (c : ServerConnection)
    (config : FcgiPluginConfig) (i : ServerIntercept) :
    (c.createFCGIClient config i).1.requestId = c.requestId ∧
      (c.createFCGIClient config i).1.maxRequests = c.maxRequests := by
  simp only [createFCGIClient]
  split <;> exact ⟨rfl, rfl⟩

end ServerConnection

/-! ### The invariant -/

/-- Every count is within the limit, and below it in the pool.  What else is
said holds of every run, also of one in which the request ids wrap: a
connection is available at most once, and not while an entry refers to it. -/
structure RequestsCounted (config : FcgiPluginConfig) (s : ServerState) :
    Prop where
  config_eq : s.config = config
  maxRequests_le : ∀ c, (s.conns c).maxRequests ≤ uint config.maxReqLength
  made_maxRequests : ∀ c < s.nextConn,
    (s.conns c).maxRequests = uint config.maxReqLength
  reqCount_le : ∀ c, (s.conns c).reqCount ≤ uint config.maxReqLength
  available_lt : ∀ c ∈ s.pool.availableConnections,
    (s.conns c).reqCount < uint config.maxReqLength
  available_nodup : s.pool.availableConnections.Nodup
  available_made : ∀ c ∈ s.pool.availableConnections, c < s.nextConn
  entry_made : ∀ {id i c}, s.Registered id i c → c < s.nextConn
  entry_conn : ∀ {id i c}, s.Registered id i c → (s.conns c).requestId = id
  entry_busy : ∀ {id i c}, s.Registered id i c →
    c ∉ s.pool.availableConnections

namespace RequestsCounted

variable {config : FcgiPluginConfig} {s : ServerState}

theorem init : RequestsCounted config (ServerState.new config) := by
  constructor <;> simp [ServerState.new, ServerState.Registered]

/-- Another count within the limit, with the id of the entry if there is
one. -/
theorem setCount (h : RequestsCounted config s) {c : ConnId}
    {conn : ServerConnection}
    (hid : ∀ {id i}, s.Registered id i c → conn.requestId = id)
    (hmax : conn.maxRequests = (s.conns c).maxRequests)
    (hle : conn.reqCount ≤ uint config.maxReqLength)
    (hlt : c ∈ s.pool.availableConnections →
      conn.reqCount < uint config.maxReqLength) :
    RequestsCounted config (s.setConn c conn) := by
  have hother : ∀ d, d ≠ c → (s.setConn c conn).conns d = s.conns d :=
    fun d hne => ServerState.setConn_conns_of_ne s conn hne
  exact { h with
    maxRequests_le := fun d => by
      by_cases hd : d = c
      · rw [hd, ServerState.setConn_conns_self, hmax]
        exact h.maxRequests_le c
      · rw [hother d hd]
        exact h.maxRequests_le d
    made_maxRequests := fun d hlt => by
      by_cases hd : d = c
      · rw [hd] at hlt ⊢
        rw [ServerState.setConn_conns_self, hmax]
        exact h.made_maxRequests c hlt
      · rw [hother d hd]
        exact h.made_maxRequests d hlt
    reqCount_le := fun d => by
      by_cases hd : d = c
      · rw [hd, ServerState.setConn_conns_self]
        exact hle
      · rw [hother d hd]
        exact h.reqCount_le d
    available_lt := fun d hmem => by
      by_cases hd : d = c
      · rw [hd] at hmem ⊢
        rw [ServerState.setConn_conns_self]
        exact hlt hmem
      · rw [hother d hd]
        exact h.available_lt d hmem
    entry_conn := fun {id i d} hr => by
      by_cases hd : d = c
      · rw [hd] at hr ⊢
        rw [ServerState.setConn_conns_self]
        exact hid hr
      · rw [hother d hd]
        exact h.entry_conn hr }

theorem setConn (h : RequestsCounted config s) {c : ConnId}
    {conn : ServerConnection} (hsame : (s.conns c).SameCount conn) :
    RequestsCounted config (s.setConn c conn) := by
  refine h.setCount ?_ hsame.maxRequests ?_ ?_
  · intro id i hr
    rw [hsame.requestId]
    exact h.entry_conn hr
  · rw [hsame.reqCount]
    exact h.reqCount_le c
  · intro hmem
    rw [hsame.reqCount]
    exact h.available_lt c hmem

theorem setIntercept (h : RequestsCounted config s) (i : InterceptId)
    (x : ServerIntercept) : RequestsCounted config (s.setIntercept i x) :=
  ⟨h.config_eq, h.maxRequests_le, h.made_maxRequests, h.reqCount_le,
    h.available_lt, h.available_nodup, h.available_made, h.entry_made,
    h.entry_conn, h.entry_busy⟩

theorem setQueue (h : RequestsCounted config s) (queue : RequestQueue) :
    RequestsCounted config { s with queue } :=
  ⟨h.config_eq, h.maxRequests_le, h.made_maxRequests, h.reqCount_le,
    h.available_lt, h.available_nodup, h.available_made, h.entry_made,
    h.entry_conn, h.entry_busy⟩

theorem unregister (h : RequestsCounted config s) (id : Nat) :
    RequestsCounted config (s.unregister id) :=
  { h with
    entry_made := fun hr =>
      h.entry_made (ServerState.registered_unregister.mp hr).2
    entry_conn := fun hr =>
      h.entry_conn (ServerState.registered_unregister.mp hr).2
    entry_busy := fun hr =>
      h.entry_busy (ServerState.registered_unregister.mp hr).2 }

/-! ### Connecting -/

/-- A free connection is registered under the next id, whatever entry that
replaces. -/
theorem register (h : RequestsCounted config s) (i : InterceptId) {c : ConnId}
    (hfree : s.FreeConn c) (hmade : c < s.nextConn) :
    RequestsCounted config (s.register i c) := by
  have hconn : ∀ d, ((s.register i c).conns d).reqCount =
        (s.conns d).reqCount ∧
      ((s.register i c).conns d).maxRequests = (s.conns d).maxRequests := by
    intro d
    by_cases hd : d = c
    · rw [hd, s.register_conns_self i c]
      exact ⟨rfl, rfl⟩
    · rw [s.register_conns_of_ne i hd]
      exact ⟨rfl, rfl⟩
  exact { h with
    maxRequests_le := fun d => by
      rw [(hconn d).2]
      exact h.maxRequests_le d
    made_maxRequests := fun d hlt => by
      rw [(hconn d).2]
      exact h.made_maxRequests d hlt
    reqCount_le := fun d => by
      rw [(hconn d).1]
      exact h.reqCount_le d
    available_lt := fun d hmem => by
      rw [(hconn d).1]
      exact h.available_lt d hmem
    entry_made := fun {id j d} hr => by
      rcases ServerState.registered_register_cases hr with
        ⟨-, -, rfl⟩ | ⟨-, hold⟩
      · exact hmade
      · exact h.entry_made hold
    entry_conn := fun {id j d} hr => by
      rcases ServerState.registered_register_cases hr with
        ⟨rfl, -, rfl⟩ | ⟨-, hold⟩
      · rw [s.register_conns_self i d]
      · have hd : d ≠ c := by
          rintro rfl
          exact hfree.2 id j hold
        rw [s.register_conns_of_ne i hd]
        exact h.entry_conn hold
    entry_busy := fun {id j d} hr => by
      rcases ServerState.registered_register_cases hr with
        ⟨-, -, rfl⟩ | ⟨-, hold⟩
      · exact hfree.1
      · exact h.entry_busy hold }

theorem addConnection (h : RequestsCounted config s) :
    RequestsCounted config s.addConnection ∧
      s.addConnection.FreeConn s.nextConn := by
  have hnew : s.addConnection.conns s.nextConn =
      ServerConnection.new config := by
    rw [← h.config_eq]
    exact s.addConnection_conns_self
  have hold : ∀ d, d ≠ s.nextConn → s.addConnection.conns d = s.conns d :=
    fun d hd => s.addConnection_conns_of_ne hd
  have hfree : s.FreeConn s.nextConn := by
    constructor
    · exact fun hmem => Nat.lt_irrefl _ (h.available_made _ hmem)
    · exact fun id i hr => Nat.lt_irrefl _ (h.entry_made hr)
  refine ⟨?_, hfree⟩
  exact { h with
    maxRequests_le := fun d => by
      by_cases hd : d = s.nextConn
      · rw [hd, hnew]
        exact Nat.le_refl _
      · rw [hold d hd]
        exact h.maxRequests_le d
    made_maxRequests := fun d hlt => by
      rcases Nat.lt_succ_iff_lt_or_eq.mp hlt with hmade | heq
      · rw [hold d (Nat.ne_of_lt hmade)]
        exact h.made_maxRequests d hmade
      · rw [heq, hnew]
        rfl
    reqCount_le := fun d => by
      by_cases hd : d = s.nextConn
      · rw [hd, hnew]
        exact Nat.zero_le _
      · rw [hold d hd]
        exact h.reqCount_le d
    available_lt := fun d hmem => by
      rw [hold d (Nat.ne_of_lt (h.available_made d hmem))]
      exact h.available_lt d hmem
    available_made := fun d hmem =>
      Nat.lt_succ_of_lt (h.available_made d hmem)
    entry_made := fun hr => Nat.lt_succ_of_lt (h.entry_made hr)
    entry_conn := fun {id i d} hr => by
      rw [hold d (Nat.ne_of_lt (h.entry_made hr))]
      exact h.entry_conn hr }

/-- The front of the available connections is taken and is free. -/
theorem takeAvailable (h : RequestsCounted config s) {c : ConnId}
    {rest : List ConnId}
    (htake : s.pool.availableConnections = c :: rest) :
    RequestsCounted config (s.takeAvailable c rest) ∧
      (s.takeAvailable c rest).FreeConn c := by
  have hmem : ∀ {d}, d ∈ rest → d ∈ s.pool.availableConnections := by
    intro d hd
    rw [htake]
    exact List.mem_cons_of_mem c hd
  have hnodup := h.available_nodup
  rw [htake, List.nodup_cons] at hnodup
  have hpool : RequestsCounted config
      { s with pool := { s.pool with availableConnections := rest } } :=
    { h with
      available_lt := fun d hd => h.available_lt d (hmem hd)
      available_nodup := hnodup.2
      available_made := fun d hd => h.available_made d (hmem hd)
      entry_busy := fun hr hd => h.entry_busy hr (hmem hd) }
  refine ⟨hpool.setConn ⟨rfl, rfl, rfl⟩, hnodup.1, ?_⟩
  intro id i hr
  apply h.entry_busy hr
  rw [htake]
  exact List.mem_cons_self

/-- `connect` attaches a request to an available connection only, whose count
is below the limit. -/
theorem connect (h : RequestsCounted config s) (i : InterceptId) :
    RequestsCounted config (s.connect i) := by
  rcases s.connect_cases i with ⟨-, heq⟩ | ⟨c, rest, -, htake, heq⟩ |
    ⟨-, -, heq⟩
  · rw [heq]
    obtain ⟨hadd, hfree⟩ := h.addConnection
    exact (hadd.register i hfree (Nat.lt_succ_self _)).setConn ⟨rfl, rfl, rfl⟩
  · rw [heq]
    have hmem : c ∈ s.pool.availableConnections := by
      rw [htake]
      exact List.mem_cons_self
    obtain ⟨htaken, hfree⟩ := h.takeAvailable htake
    have hreg := htaken.register i hfree (h.available_made c hmem)
    have hcount : (((s.takeAvailable c rest).register i c).conns c).reqCount =
        (s.conns c).reqCount := by
      simp [ServerState.register, ServerState.takeAvailable,
        ServerState.setConn]
    obtain ⟨hid, hmax⟩ := ServerConnection.createFCGIClient_fields
      (((s.takeAvailable c rest).register i c).conns c)
      ((s.takeAvailable c rest).register i c).config
      (((s.takeAvailable c rest).register i c).intercepts i)
    refine (hreg.setCount ?_ hmax ?_ ?_).setIntercept i _
    · intro id j hr
      rw [hid]
      exact hreg.entry_conn hr
    · refine Nat.le_trans
        (ServerConnection.createFCGIClient_reqCount_le _ _ _) ?_
      rw [hcount]
      exact h.available_lt c hmem
    · exact fun hin => absurd hin hfree.1
  · rw [heq]
    exact h.setQueue _

theorem connectNext (h : RequestsCounted config s) :
    RequestsCounted config s.connectNext := by
  unfold ServerState.connectNext RequestQueue.popFromQueue
  cases s.queue.pendingList with
  | nil => exact h
  | cons i rest =>
      exact (h.setQueue { s.queue with pendingList := rest }).connect i

/-! ### Releasing -/

theorem connectionClosed (h : RequestsCounted config s) (c : ConnId) :
    RequestsCounted config (s.connectionClosed c) := by
  have hmem : ∀ {d}, d ∈ s.pool.availableConnections.filter (· ≠ c) →
      d ∈ s.pool.availableConnections := fun hd => (List.mem_filter.mp hd).1
  have hun := h.unregister (s.conns c).requestId
  have hpool : RequestsCounted config
      { s.unregister (s.conns c).requestId with
        pool := { s.pool with
          availableConnections :=
            s.pool.availableConnections.filter (· ≠ c)
          connections := s.pool.connections.filter (· ≠ c) } } :=
    { hun with
      available_lt := fun d hd => h.available_lt d (hmem hd)
      available_nodup := h.available_nodup.filter _
      available_made := fun d hd => h.available_made d (hmem hd)
      entry_busy := fun hr hd => hun.entry_busy hr (hmem hd) }
  exact hpool.setConn ⟨rfl, rfl, rfl⟩

theorem closeConnection (h : RequestsCounted config s) (c : ConnId) :
    RequestsCounted config (s.closeConnection c) := by
  apply RequestsCounted.connectionClosed
  exact h.setConn ⟨rfl, rfl, rfl⟩

/-- The connection of an erased entry goes back to the pool with a count below
the limit, or is closed. -/
theorem releaseConnection (h : RequestsCounted config s) {c : ConnId}
    (hfree : s.FreeConn c) (hmade : c < s.nextConn) :
    RequestsCounted config (s.releaseConnection c) := by
  have hdetach : RequestsCounted config (s.setConn c (s.conns c).detach) := by
    refine h.setCount ?_ ?_ ?_ ?_
    · exact fun hr => absurd hr (hfree.2 _ _)
    · exact (s.conns c).detach_maxRequests
    · rw [ServerConnection.detach_reqCount]
      exact h.reqCount_le c
    · exact fun hmem => absurd hmem hfree.1
  unfold ServerState.releaseConnection
  simp only
  split
  · next hlt =>
      have hshare : (s.conns c).detach.reqCount <
          uint config.maxReqLength := by
        apply Nat.lt_of_lt_of_le hlt
        rw [ServerConnection.detach_maxRequests]
        exact h.maxRequests_le c
      have hpool : RequestsCounted config
          { s.setConn c (s.conns c).detach with
            pool := { s.pool with
              availableConnections := s.pool.availableConnections ++ [c] } } :=
        { hdetach with
          available_lt := fun d hd => by
            rcases List.mem_append.mp hd with hold | hnew
            · exact hdetach.available_lt d hold
            · rw [List.mem_singleton.mp hnew]
              show ((s.setConn c (s.conns c).detach).conns c).reqCount < _
              rw [ServerState.setConn_conns_self]
              exact hshare
          available_nodup := by
            show (s.pool.availableConnections ++ [c]).Nodup
            rw [← List.concat_eq_append]
            exact List.Nodup.concat hfree.1 h.available_nodup
          available_made := fun d hd => by
            rcases List.mem_append.mp hd with hold | hnew
            · exact h.available_made d hold
            · rw [List.mem_singleton.mp hnew]
              exact hmade
          entry_busy := fun {id i d} hr hd => by
            rcases List.mem_append.mp hd with hold | hnew
            · exact h.entry_busy hr hold
            · rw [List.mem_singleton.mp hnew] at hr
              exact hfree.2 id i hr }
      exact hpool.setConn ⟨rfl, rfl, rfl⟩
  · have hsame : ((s.setConn c (s.conns c).detach).conns c).SameCount
        { (s.conns c).detach with state := .closed } := by
      rw [ServerState.setConn_conns_self]
      exact ⟨rfl, rfl, rfl⟩
    have hclosed := hdetach.setConn hsame
    rw [ServerState.setConn_setConn] at hclosed
    exact hclosed.connectionClosed c

theorem removeIntercept (h : RequestsCounted config s) (id : Nat) :
    RequestsCounted config (s.removeIntercept id) := by
  cases hlookup : s.interceptList[id]? with
  | none =>
      rw [ServerState.removeIntercept_none
        (ServerState.lookup_eq_none.mp hlookup)]
      exact h
  | some entry =>
      obtain ⟨i, c⟩ := entry
      have hr : s.Registered id i c := hlookup
      rw [ServerState.removeIntercept_registered hr]
      have hfree : (s.unregister id).FreeConn c := by
        constructor
        · exact h.entry_busy hr
        · intro id' i' hr'
          obtain ⟨hne, hold⟩ := ServerState.registered_unregister.mp hr'
          exact hne ((h.entry_conn hr).symm.trans (h.entry_conn hold))
      exact ((h.unregister id).releaseConnection hfree
        (h.entry_made hr)).connectNext

theorem reConnect (h : RequestsCounted config s) (id : Nat) :
    RequestsCounted config (s.reConnect id) := by
  unfold ServerState.reConnect
  cases s.getIntercept id with
  | none => exact h
  | some i => exact (h.unregister id).connect i

/-! ### Events -/

theorem retry (h : RequestsCounted config s) (c : ConnId) :
    RequestsCounted config (s.retry c) :=
  (h.reConnect _).closeConnection c

theorem complete (h : RequestsCounted config s) (i : InterceptId)
    (c : ConnId) : RequestsCounted config (s.complete i c) := by
  apply RequestsCounted.removeIntercept
  apply RequestsCounted.setIntercept
  exact h.setConn ⟨rfl, rfl, rfl⟩

theorem onReadReady (h : RequestsCounted config s) {parse : MimeHdrParse}
    {c : ConnId} {blocks : List Bytes} {s' : ServerState}
    (hstep : s.onReadReady parse c blocks = some s') :
    RequestsCounted config s' := by
  rcases ServerState.onReadReady_cases hstep with ⟨-, rfl⟩ |
    ⟨i, responseStatus, conn, x, -, hrun, rfl⟩
  · exact h.setConn ⟨rfl, rfl, rfl⟩
  · have hreceive : (s.conns c).SameCount ((s.conns c).receive blocks) :=
      ⟨rfl, rfl, rfl⟩
    have hset := (h.setConn (hreceive.trans
      (ServerConnection.sameCount_interceptTransferData hrun))).setIntercept
        i x
    cases responseStatus with
    | true => exact hset.complete i c
    | false => exact hset

theorem onLateEos (h : RequestsCounted config s) (c : ConnId) :
    RequestsCounted config (s.onLateEos c) := by
  unfold ServerState.onLateEos
  split
  · split
    · exact (h.setIntercept _ _).closeConnection c
    · exact h.closeConnection c
  · exact h.closeConnection c

theorem onError (h : RequestsCounted config s) (c : ConnId) :
    RequestsCounted config (s.onError c) := by
  unfold ServerState.onError
  split
  · exact (h.setIntercept _ _).closeConnection c
  · exact h.connectionClosed c

theorem read (h : RequestsCounted config s) {c : ConnId} {s' : ServerState}
    (hread : (s.conns c).read.map (s.setConn c) = some s') :
    RequestsCounted config s' := by
  obtain ⟨conn, hconn, rfl⟩ := Option.map_eq_some_iff.mp hread
  exact h.setConn (ServerConnection.sameCount_read hconn)

theorem consume (h : RequestsCounted config s) {i : InterceptId}
    {input : ClientInput} {s' : ServerState}
    (hstep : s.consume i input = some s') : RequestsCounted config s' := by
  rcases ServerState.consume_cases hstep with
    ⟨i', c, conn, -, hwrite, rfl⟩ | ⟨-, rfl⟩
  · exact (h.setConn (ServerConnection.sameCount_write hwrite)).setIntercept
      i _
  · exact h.setIntercept i _

theorem destroy (h : RequestsCounted config s) (i : InterceptId) :
    RequestsCounted config (s.destroy i) := by
  unfold ServerState.destroy
  simp only
  split
  · exact h.setIntercept i _
  · exact (h.setIntercept i _).removeIntercept _

end RequestsCounted

/-! ### Runs -/

/-- A `NET_CONNECT` that leads to a request comes to a connection that has
requests left.  The connection is not an available one unless the ids have
wrapped. -/
def WithinRequests (s : ServerState) : Event → Prop
  | .connection c .netConnect =>
      s.getIntercept (s.conns c).requestId ≠ none →
        if c ∈ s.pool.availableConnections then
          (s.conns c).reqCount + 1 < (s.conns c).maxRequests
        else (s.conns c).reqCount < (s.conns c).maxRequests
  | _ => True

instance (s : ServerState) : (e : Event) → Decidable (WithinRequests s e)
  | .connection _ .netConnect => inferInstanceAs (Decidable (_ → _))
  | .connection _ .netConnectFailed | .connection _ (.readReady _)
  | .connection _ .readComplete | .connection _ .writeReady
  | .connection _ .writeComplete | .connection _ .eos
  | .connection _ .error => inferInstanceAs (Decidable True)
  | .connect .. | .destroy .. | .input .. | .respond .. =>
      inferInstanceAs (Decidable True)

namespace RequestsCounted

variable {config : FcgiPluginConfig} {s : ServerState}

theorem onNetConnect (h : RequestsCounted config s) {c : ConnId}
    (hwithin : WithinRequests s (.connection c .netConnect)) :
    RequestsCounted config (s.onNetConnect c) := by
  cases hget : s.getIntercept (s.conns c).requestId with
  | none =>
      rw [ServerState.onNetConnect_idle hget]
      exact h.setConn ⟨rfl, rfl, rfl⟩
  | some i =>
      rw [ServerState.onNetConnect_registered hget]
      have hleft : if c ∈ s.pool.availableConnections then
          (s.conns c).reqCount + 1 < (s.conns c).maxRequests
        else (s.conns c).reqCount < (s.conns c).maxRequests := by
        apply hwithin
        rw [hget]
        exact Option.some_ne_none i
      have hmax := h.maxRequests_le c
      have hcount : ((s.conns c).netConnect.createFCGIClient s.config
          (s.intercepts i)).1.reqCount ≤ (s.conns c).reqCount + 1 :=
        ServerConnection.createFCGIClient_reqCount_le _ _ _
      obtain ⟨hid, hkept⟩ := ServerConnection.createFCGIClient_fields
        (s.conns c).netConnect s.config (s.intercepts i)
      refine (h.setCount ?_ hkept ?_ ?_).setIntercept i _
      · intro id j hr
        rw [hid]
        exact h.entry_conn hr
      · apply Nat.le_trans hcount
        split at hleft
        · exact Nat.le_trans (Nat.le_of_lt hleft) hmax
        · exact Nat.le_trans hleft hmax
      · intro hmem
        rw [if_pos hmem] at hleft
        exact Nat.lt_of_le_of_lt hcount (Nat.lt_of_lt_of_le hleft hmax)

theorem handlePHPConnectionEvents (h : RequestsCounted config s)
    {parse : MimeHdrParse} {c : ConnId} {event : ConnEvent} {s' : ServerState}
    (hwithin : WithinRequests s (.connection c event))
    (hstep : s.handlePHPConnectionEvents parse c event = some s') :
    RequestsCounted config s' := by
  cases event with
  | netConnect =>
      rw [← Option.some.inj hstep]
      exact h.onNetConnect hwithin
  | netConnectFailed =>
      rw [← Option.some.inj hstep]
      exact h.retry c
  | readReady blocks => exact h.onReadReady hstep
  | readComplete =>
      simp only [ServerState.handlePHPConnectionEvents] at hstep
      split at hstep
      · rw [← Option.some.inj hstep]
        exact h.complete _ c
      · contradiction
  | writeReady =>
      simp only [ServerState.handlePHPConnectionEvents] at hstep
      split at hstep
      · exact h.read hstep
      · rw [← Option.some.inj hstep]
        exact h
  | writeComplete => exact h.read hstep
  | eos =>
      rw [← Option.some.inj hstep]
      split
      · exact h.onLateEos c
      · exact h.retry c
  | error =>
      simp only [ServerState.handlePHPConnectionEvents] at hstep
      split at hstep
      · rw [← Option.some.inj hstep]
        exact h.onError c
      · contradiction

theorem step (h : RequestsCounted config s) {parse : MimeHdrParse} {e : Event}
    {s' : ServerState} (hwithin : WithinRequests s e)
    (hstep : s.step parse e = some s') : RequestsCounted config s' := by
  replace hstep := ServerState.handle_of_step hstep
  cases e with
  | connect i txn requestId =>
      rw [← Option.some.inj hstep]
      exact (h.setIntercept i _).connect i
  | connection c event => exact h.handlePHPConnectionEvents hwithin hstep
  | destroy i =>
      rw [← Option.some.inj hstep]
      exact h.destroy i
  | input i input => exact h.consume hstep
  | respond c r =>
      rw [← Option.some.inj hstep]
      exact h.setConn ⟨rfl, rfl, rfl⟩

end RequestsCounted

theorem requestsCounted_of_reach {parse : MimeHdrParse}
    {config : FcgiPluginConfig} {s : ServerState}
    (hreach : Transition.Reach (workerThread parse config) WithinRequests s) :
    RequestsCounted config s := by
  apply hreach.invariant
  · rintro s rfl
    exact .init
  · intro s e s' _ hs hwithin hstep
    exact hs.step hwithin hstep

theorem uint_le {z : Int} (hz : 0 ≤ z) : (uint z : Int) ≤ z := by
  unfold uint
  omega

/-- No connection serves more than `max_requests` requests, and the available
ones can serve another. -/
structure ServerState.RequestLimit (config : FcgiPluginConfig)
    (s : ServerState) : Prop where
  served : ∀ c, ((s.conns c).reqCount : Int) ≤ config.maxReqLength
  available : ∀ c ∈ s.pool.availableConnections,
    ((s.conns c).reqCount : Int) < config.maxReqLength

/-- The limit holds in every state of every run in which no answer of
`TSNetConnect` starts a request on a connection that has served its share. -/
theorem requestLimit_of_reach (parse : MimeHdrParse)
    (config : FcgiPluginConfig) (hmax : 1 ≤ config.maxReqLength)
    (s : ServerState)
    (hreach : Transition.Reach (workerThread parse config) WithinRequests s) :
    s.RequestLimit config := by
  have h := requestsCounted_of_reach hreach
  have hle := uint_le (Int.le_trans (by decide) hmax)
  constructor
  · intro c
    exact Int.le_trans (Int.ofNat_le.mpr (h.reqCount_le c)) hle
  · intro c hc
    exact Int.lt_of_lt_of_le (Int.ofNat_lt.mpr (h.available_lt c hc)) hle

/-- Any other answer of `TSNetConnect` breaks it. -/
theorem not_requestLimit_onNetConnect {parse : MimeHdrParse}
    {config : FcgiPluginConfig} (hmax : 1 ≤ config.maxReqLength)
    (hsmall : config.maxReqLength < 2 ^ 32 - 1) {s : ServerState}
    (hreach : Transition.Reach (workerThread parse config) WithinRequests s)
    {c : ConnId} (hmade : c < s.nextConn)
    (hout : ¬ WithinRequests s (.connection c .netConnect)) :
    ¬ (s.onNetConnect c).RequestLimit config := by
  intro hlimit
  have h := requestsCounted_of_reach hreach
  have huint : (uint config.maxReqLength : Int) = config.maxReqLength := by
    unfold uint
    omega
  have hcount := h.reqCount_le c
  simp only [WithinRequests, Classical.not_imp] at hout
  obtain ⟨hget, hout⟩ := hout
  obtain ⟨i, hget⟩ := Option.ne_none_iff_exists'.mp hget
  have hcons : (s.onNetConnect c).conns c =
      ((s.conns c).netConnect.createFCGIClient s.config
        (s.intercepts i)).1 := by
    rw [ServerState.onNetConnect_registered hget]
    exact ServerState.setConn_conns_self s c _
  have hserved : ((s.onNetConnect c).conns c).reqCount =
      (s.conns c).reqCount + 1 := by
    rw [hcons]
    simp only [ServerConnection.createFCGIClient,
      ServerConnection.netConnect, true_or, if_true]
    apply Nat.mod_eq_of_lt
    omega
  have hle := hlimit.served c
  rw [hserved] at hle
  rw [h.made_maxRequests c hmade] at hout
  split at hout
  · next hmem =>
      have hlt := hlimit.available c (by
        rw [ServerState.onNetConnect_registered hget]
        exact hmem)
      rw [hserved] at hlt
      omega
  · omega

namespace RequestCountWitness

/-- Two connections, each for one request. -/
def config : FcgiPluginConfig :=
  { RegistryWitness.config with maxConnLength := 12, maxReqLength := 1 }

/-- A request whose connection is lost is connected again and goes away before
`TSNetConnect` has answered.  Its connection is available all the same, and
the answer comes when it serves another request. -/
def lateEvents : List Event :=
  [.connect 0 (RegistryWitness.txn (ascii "GET")) 7, .connection 0 .netConnect,
    .input 0 (.header (ascii "GET / HTTP/1.1")), .connection 0 .eos,
    .destroy 0, .connect 1 (RegistryWitness.txn (ascii "GET")) 7,
    .connect 2 (RegistryWitness.txn (ascii "GET")) 7,
    .connection 1 .netConnect]

def late : ServerState :=
  Transition.after (workerThread DecoderSafetyWitness.parse config) Ats
    (ServerState.new config) lateEvents

theorem not_always_requestLimit :
    ¬ ∀ (parse : MimeHdrParse) (config : FcgiPluginConfig),
      1 ≤ config.maxReqLength → ∀ s,
      Transition.Reach (workerThread parse config) Ats s →
      s.RequestLimit config := by
  intro h
  obtain ⟨hreach, hcount⟩ :
      Transition.Reach (workerThread DecoderSafetyWitness.parse config) Ats
        late ∧ (late.conns 1).reqCount = 2 :=
    Transition.Reach.after_and (.init rfl) (by decide +kernel)
  have hle := (h _ config (by decide) late hreach).served 1
  rw [hcount] at hle
  exact absurd hle (by decide)

/-- The same run up to the late answer. -/
def served : ServerState :=
  Transition.after (workerThread DecoderSafetyWitness.parse config)
    WithinRequests (ServerState.new config) lateEvents.dropLast

theorem requestLimit_served : served.RequestLimit config := by
  obtain ⟨hreach, -⟩ :
      Transition.Reach (workerThread DecoderSafetyWitness.parse config)
        WithinRequests served ∧ (served.conns 1).reqCount = 1 :=
    Transition.Reach.after_and (.init rfl) (by decide +kernel)
  exact requestLimit_of_reach _ config (by decide) served hreach

end RequestCountWitness

end AtsFastcgi
