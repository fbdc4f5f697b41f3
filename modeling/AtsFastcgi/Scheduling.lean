/-
A worker thread as a dispatcher.  The requests in the registry are served, the
places are the connections the pool may have, and every event is one action of
the dispatcher: the registry, the pool and the queue together do what one set
and one list do.
-/
import AtsFastcgi.Lib.Dispatcher
import AtsFastcgi.SlotHandover
import AtsFastcgi.AcceptedRequests
import AtsFastcgi.WorkerThreads
import Mathlib.Data.Finset.Dedup

namespace AtsFastcgi

open ServerState (ConnEvent Event Effect)

namespace ServerState

/-! ### The abstraction -/

/-- The requests that have a connection. -/
def serving (s : ServerState) : Finset InterceptId :=
  (s.interceptList.toList.map fun entry => entry.2.1).toFinset

/-- The connections that have a request. -/
def inUse (s : ServerState) : List ConnId :=
  s.interceptList.toList.map fun entry => entry.2.2

def dispatcher (s : ServerState) : Dispatcher InterceptId where
  places := s.pool.maxConn
  room := s.queue.maxQueueSize
  serving := s.serving
  waiting := s.queue.pendingList

/-- The request that an event completes: the end of its answer, or a client
that goes away. -/
def completed (parse : MimeHdrParse) (s : ServerState) :
    Event → Option InterceptId
  | .connection c (.readReady blocks) =>
      match s.getIntercept (s.conns c).requestId with
      | some i =>
          match interceptTransferData parse ((s.conns c).receive blocks)
            (s.intercepts i) with
          | some (true, _, _) => some i
          | _ => none
      | none => none
  | .connection c .readComplete => s.getIntercept (s.conns c).requestId
  | .destroy i =>
      if (s.intercepts i).outputCompleteState then none
      else s.getIntercept (s.intercepts i).requestId
  | _ => none

/-- The request whose connection an event closes. -/
def failed (s : ServerState) : Event → Option InterceptId
  | .connection c .eos =>
      if (s.conns c).writeio.readEnable then
        s.getIntercept (s.conns c).requestId
      else none
  | .connection c .error => s.getIntercept (s.conns c).requestId
  | _ => none

/-- What an event is for the dispatcher. -/
def action (parse : MimeHdrParse) (s : ServerState) :
    Event → Dispatcher.Action InterceptId
  | .connect i _ _ => .submit i
  | e =>
      match s.completed parse e, s.redispatched e, s.failed e with
      | some i, _, _ => .finish i
      | none, some i, _ => .retry i
      | none, none, some i => .lose i
      | none, none, none => .idle

theorem mem_serving {s : ServerState} {i : InterceptId} :
    i ∈ s.serving ↔ ∃ id c, s.Registered id i c := by
  simp only [serving, List.mem_toFinset, List.mem_map, Prod.exists,
    Std.TreeMap.mem_toList_iff_getElem?_eq_some, Registered]
  constructor
  · rintro ⟨id, j, c, hr, rfl⟩
    exact ⟨id, c, hr⟩
  · rintro ⟨id, c, hr⟩
    exact ⟨id, i, c, hr, rfl⟩

theorem mem_inUse {s : ServerState} {c : ConnId} :
    c ∈ s.inUse ↔ ∃ id i, s.Registered id i c := by
  simp only [inUse, List.mem_map, Prod.exists,
    Std.TreeMap.mem_toList_iff_getElem?_eq_some, Registered]
  constructor
  · rintro ⟨id, i, d, hr, rfl⟩
    exact ⟨id, i, hr⟩
  · rintro ⟨id, i, hr⟩
    exact ⟨id, i, c, hr, rfl⟩

theorem mem_toList {s : ServerState} {entry : Nat × InterceptId × ConnId} :
    entry ∈ s.interceptList.toList ↔
      s.Registered entry.1 entry.2.1 entry.2.2 :=
  Std.TreeMap.mem_toList_iff_getElem?_eq_some

theorem nodup_toList (s : ServerState) : s.interceptList.toList.Nodup := by
  have hkeys := s.interceptList.nodup_keys
  rw [← Std.TreeMap.map_fst_toList_eq_keys] at hkeys
  exact hkeys.of_map

section Counts

variable {config : FcgiPluginConfig} {s : ServerState}

/-- No request has two connections. -/
theorem card_serving (h : Consistent config s) :
    s.serving.card = s.interceptList.toList.length := by
  rw [serving, List.toFinset_card_of_nodup, List.length_map]
  refine List.Nodup.map_on ?_ s.nodup_toList
  intro a ha b hb hsame
  have hr := mem_toList.mp ha
  rw [hsame] at hr
  obtain ⟨hid, hconn⟩ := h.intercept_unique hr (mem_toList.mp hb)
  exact Prod.ext hid (Prod.ext hsame hconn)

/-- No connection has two requests. -/
theorem nodup_inUse (h : Consistent config s) : s.inUse.Nodup := by
  refine List.Nodup.map_on ?_ s.nodup_toList
  intro a ha b hb hsame
  have hr := mem_toList.mp ha
  rw [hsame] at hr
  obtain ⟨hid, hintercept⟩ := h.conn_unique hr (mem_toList.mp hb)
  exact Prod.ext hid (Prod.ext hintercept hsame)

/-- The connections of the pool are those that are available and those in
use. -/
theorem perm_connections (h : Consistent config s)
    (hcov : s.Covered fun _ => False) :
    (s.inUse ++ s.pool.availableConnections).Perm s.pool.connections := by
  have hapart : s.inUse.Disjoint s.pool.availableConnections := by
    intro c hused havail
    obtain ⟨id, i, hr⟩ := mem_inUse.mp hused
    exact h.entry_busy hr havail
  refine (List.perm_ext_iff_of_nodup ?_ h.connections_nodup).mpr fun c => ?_
  · exact (nodup_inUse h).append h.available_nodup hapart
  · rw [List.mem_append, mem_inUse]
    constructor
    · rintro (⟨id, i, hr⟩ | havail)
      · exact h.entry_mem hr
      · exact h.available_mem c havail
    · intro hmem
      rcases hcov c hmem with hout | havail | hr
      · exact hout.elim
      · exact .inr havail
      · exact .inl hr

theorem card_serving_add_available (h : Consistent config s)
    (hcov : s.Covered fun _ => False) :
    s.serving.card + s.pool.availableConnections.length =
      s.pool.connections.length := by
  have hlength := (perm_connections h hcov).length_eq
  rw [List.length_append, inUse, List.length_map] at hlength
  rw [card_serving h, hlength]

/-- There is a connection for the next request as long as a place is free. -/
theorem canDispatch_iff (h : Consistent config s)
    (hcov : s.Covered fun _ => False) :
    s.CanDispatch ↔ s.serving.card < s.pool.maxConn := by
  have hcount := card_serving_add_available h hcov
  have hle := h.connections_le
  constructor
  · rintro (hroom | havail)
    · omega
    · have hpos := List.length_pos_iff.mpr havail
      omega
  · intro hplace
    by_cases hroom : s.pool.connections.length < s.pool.maxConn
    · exact .inl hroom
    · refine .inr (List.length_pos_iff.mp ?_)
      omega

end Counts

/-! ### The operations -/

theorem dispatcher_congr {s s' : ServerState}
    (hplaces : s'.pool.maxConn = s.pool.maxConn) (hqueue : s'.queue = s.queue)
    (hserving : ∀ i, i ∈ s'.serving ↔ i ∈ s.serving) :
    s'.dispatcher = s.dispatcher := by
  have hsame : s'.serving = s.serving := Finset.ext hserving
  simp only [dispatcher, hplaces, hqueue, hsame]

@[simp] theorem dispatcher_setConn (s : ServerState) (c : ConnId)
    (conn : ServerConnection) :
    (s.setConn c conn).dispatcher = s.dispatcher := rfl

@[simp] theorem dispatcher_setIntercept (s : ServerState) (i : InterceptId)
    (x : ServerIntercept) :
    (s.setIntercept i x).dispatcher = s.dispatcher := rfl

/-- The requests of `starts` have got the next ids, in their order, and no
other entry is new. -/
structure Numbers (s s' : ServerState) (starts : List InterceptId) : Prop where
  issued : s'.issued = s.issued + starts.length
  registered : ∀ {id i c}, s'.Registered id i c → s.Registered id i c ∨
    ∃ k, id = s.issued + 1 + k ∧ starts[k]? = some i

theorem Numbers.of_old {s s' : ServerState} (hissued : s'.issued = s.issued)
    (hold : ∀ id i c, s'.Registered id i c → s.Registered id i c) :
    s.Numbers s' [] where
  issued := hissued
  registered hr := .inl (hold _ _ _ hr)

theorem Numbers.trans {s s₁ s' : ServerState} {starts more : List InterceptId}
    (h : s.Numbers s₁ starts) (hmore : s₁.Numbers s' more) :
    s.Numbers s' (starts ++ more) where
  issued := by
    rw [hmore.issued, h.issued, List.length_append, Nat.add_assoc]
  registered hr := by
    rcases hmore.registered hr with hold | ⟨k, hid, hk⟩
    · rcases h.registered hold with hold | ⟨k, hid, hk⟩
      · exact .inl hold
      · exact .inr ⟨k, hid, by
          rw [List.getElem?_append_left (List.getElem?_eq_some_iff.mp hk).1]
          exact hk⟩
    · refine .inr ⟨starts.length + k, ?_, ?_⟩
      · rw [hid, h.issued]
        omega
      · rw [List.getElem?_append_right (Nat.le_add_right _ _),
          Nat.add_sub_cancel_left]
        exact hk

/-- What an action does to the bookkeeping and to the request ids. -/
structure Performs (s : ServerState) (a : Dispatcher.Action InterceptId)
    (s' : ServerState) : Prop where
  dispatcher : s'.dispatcher = s.dispatcher.perform a
  numbers : s.Numbers s' (s.dispatcher.starts a)

/-- The intercept waits, or is dropped when the queue is full. -/
theorem dispatcher_enqueue (s : ServerState) (i : InterceptId) :
    (s.enqueue i).dispatcher = s.dispatcher.enqueue i := by
  by_cases hfull : s.queue.maxQueueSize ≤ s.queue.pendingList.length
  · have hroom : ¬ s.dispatcher.waiting.length < s.dispatcher.room :=
      Nat.not_lt_of_le hfull
    have hqueue : s.queue.addToQueue i = s.queue := by
      simp [RequestQueue.addToQueue, RequestQueue.isQueueFull, hfull]
    rw [enqueue, hqueue, Dispatcher.enqueue, if_neg hroom]
  · have hroom : s.dispatcher.waiting.length < s.dispatcher.room :=
      Nat.lt_of_not_le hfull
    have hqueue : s.queue.addToQueue i = { s.queue with
        pendingList := s.queue.pendingList ++ [i] } := by
      simp [RequestQueue.addToQueue, RequestQueue.isQueueFull, hfull]
    rw [enqueue, hqueue, Dispatcher.enqueue, if_pos hroom]
    rfl

section Operations

variable {config : FcgiPluginConfig} {s : ServerState}

theorem dispatcher_unregister (h : Consistent config s) {id : Nat}
    {i : InterceptId} {c : ConnId} (hr : s.Registered id i c) :
    (s.unregister id).dispatcher = s.dispatcher.leave i := by
  refine Dispatcher.ext rfl rfl (Finset.ext fun j => ?_) rfl
  show j ∈ (s.unregister id).serving ↔ j ∈ s.serving.erase i
  simp only [mem_serving, Finset.mem_erase, registered_unregister]
  constructor
  · rintro ⟨id', d, hne, hr'⟩
    refine ⟨?_, id', d, hr'⟩
    rintro rfl
    exact hne (h.intercept_unique hr hr').1
  · rintro ⟨hne, id', d, hr'⟩
    refine ⟨id', d, ?_, hr'⟩
    rintro rfl
    have heq := hr.symm.trans hr'
    simp only [Option.some.injEq, Prod.mk.injEq] at heq
    exact hne heq.1.symm

theorem dispatcher_releaseConnection (h : Consistent config s) (c : ConnId) :
    (s.releaseConnection c).dispatcher = s.dispatcher := by
  refine dispatcher_congr (s.releaseConnection_keepsLimit c).maxConn
    (s.releaseConnection_queue c) fun i => ?_
  simp only [mem_serving, registered_releaseConnection h c]

theorem dispatcher_connectionClosed (h : Consistent config s) {c d : ConnId}
    {i : InterceptId} (hr : s.Registered (s.conns c).requestId i d) :
    (s.connectionClosed c).dispatcher = s.dispatcher.leave i :=
  dispatcher_unregister h hr

theorem dispatcher_connectionClosed_none {c : ConnId}
    (hnone : ∀ i d, ¬ s.Registered (s.conns c).requestId i d) :
    (s.connectionClosed c).dispatcher = s.dispatcher := by
  refine dispatcher_congr rfl rfl fun i => ?_
  simp only [mem_serving, registered_connectionClosed]
  constructor
  · rintro ⟨id, d, -, hr⟩
    exact ⟨id, d, hr⟩
  · rintro ⟨id, d, hr⟩
    refine ⟨id, d, ?_, hr⟩
    rintro rfl
    exact hnone i d hr

theorem dispatcher_closeConnection (h : Consistent config s) {c d : ConnId}
    {i : InterceptId} (hr : s.Registered (s.conns c).requestId i d) :
    (s.closeConnection c).dispatcher = s.dispatcher.leave i := by
  have hset : Consistent config (s.setConn c
      { s.conns c with state := .closed }) := h.setConn (.of_eq rfl rfl rfl)
  refine dispatcher_connectionClosed (d := d) hset ?_
  rw [setConn_conns_self]
  exact hr

theorem dispatcher_closeConnection_none {c : ConnId}
    (hnone : ∀ i d, ¬ s.Registered (s.conns c).requestId i d) :
    (s.closeConnection c).dispatcher = s.dispatcher := by
  refine dispatcher_connectionClosed_none ?_
  rw [setConn_conns_self]
  exact hnone

/-- `connect` with a connection starts the request. -/
theorem dispatcher_connect_start (h : Consistent config s) (i : InterceptId)
    (hcan : s.CanDispatch) :
    (s.connect i).dispatcher = s.dispatcher.start i := by
  obtain ⟨d, -, hregistered⟩ := connect_registers h i hcan
  refine Dispatcher.ext (s.connect_keepsLimit i).maxConn ?_
    (Finset.ext fun j => ?_) ?_
  · exact congrArg RequestQueue.maxQueueSize (connect_dispatched i hcan).2
  · show j ∈ (s.connect i).serving ↔ j ∈ insert i s.serving
    simp only [mem_serving, Finset.mem_insert, hregistered]
    constructor
    · rintro ⟨id, c, hentry⟩
      split at hentry
      · exact .inl hentry.1.symm
      · exact .inr ⟨id, c, hentry⟩
    · rintro (rfl | ⟨id, c, hr⟩)
      · exact ⟨s.nextId, d, by rw [if_pos rfl]; exact ⟨rfl, rfl⟩⟩
      · have hne : s.nextId ≠ id := Nat.ne_of_gt (h.entry_id hr).2
        exact ⟨id, c, by rw [if_neg hne]; exact hr⟩
  · exact congrArg RequestQueue.pendingList (connect_dispatched i hcan).2

theorem numbers_connect_start (h : Consistent config s) (i : InterceptId)
    (hcan : s.CanDispatch) : s.Numbers (s.connect i) [i] := by
  obtain ⟨d, -, hregistered⟩ := connect_registers h i hcan
  constructor
  · rcases s.connect_cases i with ⟨-, heq⟩ | ⟨c, rest, -, -, heq⟩ |
      ⟨hfull, hnone, -⟩
    · rw [heq]
      rfl
    · rw [heq]
      rfl
    · rcases hcan with hroom | havail
      · exact absurd hroom hfull
      · exact absurd hnone havail
  · intro id j c hr
    rw [hregistered, h.nextId_eq] at hr
    split at hr
    · next hid => exact .inr ⟨0, hid.symm, congrArg some hr.1⟩
    · exact .inl hr

theorem performs_connect (h : Consistent config s)
    (hcov : s.Covered fun _ => False) (i : InterceptId) :
    s.Performs (.submit i) (s.connect i) := by
  have hcan := canDispatch_iff h hcov
  by_cases hplace : s.CanDispatch
  · have hlt : s.dispatcher.serving.card < s.dispatcher.places :=
      hcan.mp hplace
    constructor
    · rw [dispatcher_connect_start h i hplace, Dispatcher.perform,
        Dispatcher.submit, if_pos hlt]
    · rw [Dispatcher.starts, if_pos hlt]
      exact numbers_connect_start h i hplace
  · have hfull : ¬ s.dispatcher.serving.card < s.dispatcher.places :=
      fun hlt => hplace (hcan.mpr hlt)
    rw [connect_waits i hplace]
    constructor
    · rw [dispatcher_enqueue, Dispatcher.perform, Dispatcher.submit,
        if_neg hfull]
    · rw [Dispatcher.starts, if_neg hfull]
      exact .of_old rfl fun _ _ _ hr => hr

theorem dispatcher_connectNext (h : Consistent config s)
    (hcan : s.CanDispatch) :
    s.connectNext.dispatcher = s.dispatcher.next := by
  cases hqueue : s.queue.pendingList with
  | nil =>
      have hidle : s.connectNext = s := by
        simp [connectNext, RequestQueue.popFromQueue, hqueue]
      rw [hidle, Dispatcher.next, show s.dispatcher.waiting = [] from hqueue]
  | cons i rest =>
      have hnext : s.connectNext = ({ s with queue := { s.queue with
          pendingList := rest } } : ServerState).connect i := by
        simp [connectNext, RequestQueue.popFromQueue, hqueue]
      rw [hnext, dispatcher_connect_start (h.pop hqueue).1 i hcan,
        Dispatcher.next, show s.dispatcher.waiting = i :: rest from hqueue]
      rfl

theorem numbers_connectNext (h : Consistent config s) (hcan : s.CanDispatch) :
    s.Numbers s.connectNext (s.queue.pendingList.take 1) := by
  cases hqueue : s.queue.pendingList with
  | nil =>
      have hidle : s.connectNext = s := by
        simp [connectNext, RequestQueue.popFromQueue, hqueue]
      rw [hidle]
      exact .of_old rfl fun _ _ _ hr => hr
  | cons i rest =>
      have hnext : s.connectNext = ({ s with queue := { s.queue with
          pendingList := rest } } : ServerState).connect i := by
        simp [connectNext, RequestQueue.popFromQueue, hqueue]
      rw [hnext]
      obtain ⟨hissued, hregistered⟩ :=
        numbers_connect_start (h.pop hqueue).1 i hcan
      exact ⟨hissued, hregistered⟩

/-- A request that has ended hands its place to the head of the queue. -/
theorem performs_removeIntercept (h : Consistent config s) {id : Nat}
    {i : InterceptId} {c : ConnId} (hr : s.Registered id i c) :
    s.Performs (.finish i) (s.removeIntercept id) := by
  have hfreed := slotFreed_releaseConnection h hr
  rw [removeIntercept_registered hr]
  constructor
  · rw [dispatcher_connectNext hfreed.consistent hfreed.canDispatch,
      dispatcher_releaseConnection (h.unregister id),
      dispatcher_unregister h hr]
    rfl
  · have hback : s.Numbers ((s.unregister id).releaseConnection c) [] :=
      .of_old (releaseConnection_issued _ c) fun id' j d hr' =>
        ((hfreed.registered id' j d).mp hr').2
    have hnext := hback.trans
      (numbers_connectNext hfreed.consistent hfreed.canDispatch)
    rw [hfreed.queue] at hnext
    exact hnext

theorem performs_complete (h : Consistent config s) {id : Nat}
    {i : InterceptId} {c d : ConnId} (hr : s.Registered id i d) :
    s.Performs (.finish i) (s.complete i c) := by
  have hset : Consistent config ((s.setConn c { s.conns c with
      state := .complete }).setIntercept i (s.intercepts i).outputComplete) := by
    refine Consistent.setIntercept ?_ ⟨rfl, rfl, rfl⟩
    exact h.setConn (.of_eq rfl rfl rfl)
  have hr' : s.Registered (s.intercepts i).requestId i d := by
    rw [h.entry_intercept hr]
    exact hr
  obtain ⟨hdispatcher, hnumbers⟩ := performs_removeIntercept hset hr'
  exact ⟨hdispatcher, hnumbers.issued, hnumbers.registered⟩

theorem performs_closeConnection (h : Consistent config s) {c d : ConnId}
    {i : InterceptId} (hr : s.Registered (s.conns c).requestId i d) :
    s.Performs (.lose i) (s.closeConnection c) where
  dispatcher := dispatcher_closeConnection h hr
  numbers := .of_old rfl fun _ _ _ hr' =>
    (registered_closeConnection.mp hr').2

theorem performs_connectionClosed_none {c : ConnId}
    (hnone : ∀ i d, ¬ s.Registered (s.conns c).requestId i d) :
    s.Performs .idle (s.connectionClosed c) where
  dispatcher := dispatcher_connectionClosed_none hnone
  numbers := .of_old rfl fun _ _ _ hr' =>
    (registered_connectionClosed.mp hr').2

theorem performs_closeConnection_none {c : ConnId}
    (hnone : ∀ i d, ¬ s.Registered (s.conns c).requestId i d) :
    s.Performs .idle (s.closeConnection c) where
  dispatcher := dispatcher_closeConnection_none hnone
  numbers := .of_old rfl fun _ _ _ hr' =>
    (registered_closeConnection.mp hr').2

/-- `reConnect` and the loss of the old connection: the new place is asked for
first. -/
theorem performs_retry (h : Consistent config s)
    (hcov : s.Covered fun _ => False) {i : InterceptId} {c : ConnId}
    (hr : s.Registered (s.conns c).requestId i c) :
    s.Performs (.retry i) (s.retry c) := by
  have hcan := canDispatch_iff h hcov
  have hafter : ∀ j d, ¬ ((s.unregister (s.conns c).requestId).connect
      i).Registered (((s.unregister (s.conns c).requestId).connect i).conns
        c).requestId j d := by
    intro j d hr'
    rw [connect_again h hr] at hr'
    rcases registered_of_connect i hr' with hid | hold
    · exact absurd hid (Nat.ne_of_gt (h.entry_id hr).2)
    · exact (registered_unregister.mp hold).1 rfl
  have hold : s.Numbers (s.unregister (s.conns c).requestId) [] :=
    .of_old rfl fun _ _ _ hr' => (registered_unregister.mp hr').2
  obtain ⟨hdispatcher, hclosed⟩ := performs_closeConnection_none hafter
  rw [retry, reConnect_registered hr]
  by_cases hplace : s.CanDispatch
  · have hstarts : s.dispatcher.starts (.retry i) = [i] :=
      if_pos (hcan.mp hplace)
    constructor
    · rw [hdispatcher]
      show ((s.unregister (s.conns c).requestId).connect i).dispatcher =
        s.dispatcher.again i
      rw [Dispatcher.again, dispatcher_connect_start (h.unregister _) i hplace,
        dispatcher_unregister h hr]
      refine Eq.trans ?_ (if_pos (hcan.mp hplace)).symm
      refine Dispatcher.ext rfl rfl ?_ rfl
      exact Finset.insert_erase (mem_serving.mpr ⟨_, c, hr⟩)
    · rw [hstarts]
      exact (hold.trans (numbers_connect_start (h.unregister _) i
        hplace)).trans hclosed
  · have hfull : ¬ s.serving.card < s.pool.maxConn :=
      fun hlt => hplace (hcan.mpr hlt)
    have hstarts : s.dispatcher.starts (.retry i) = [] := if_neg hfull
    have hwaits : (s.unregister (s.conns c).requestId).connect i =
        (s.unregister (s.conns c).requestId).enqueue i :=
      connect_waits i hplace
    constructor
    · rw [hdispatcher]
      show ((s.unregister (s.conns c).requestId).connect i).dispatcher =
        s.dispatcher.again i
      rw [Dispatcher.again, hwaits, dispatcher_enqueue,
        dispatcher_unregister h hr]
      exact (if_neg hfull).symm
    · have hwaiting : (s.unregister (s.conns c).requestId).Numbers
          ((s.unregister (s.conns c).requestId).connect i) [] := by
        rw [hwaits]
        exact .of_old rfl fun _ _ _ hr' => hr'
      rw [hstarts]
      exact (hold.trans hwaiting).trans hclosed

end Operations

/-! ### The events -/

section Events

variable {config : FcgiPluginConfig} {s s' : ServerState}
  {parse : MimeHdrParse}

theorem Performs.setConn (s : ServerState) (c : ConnId)
    (conn : ServerConnection) : s.Performs .idle (s.setConn c conn) where
  dispatcher := rfl
  numbers := .of_old rfl fun _ _ _ hr => hr

theorem Performs.setIntercept {a : Dispatcher.Action InterceptId}
    (hperforms : s.Performs a s') (i : InterceptId) (x : ServerIntercept) :
    s.Performs a (s'.setIntercept i x) :=
  ⟨hperforms.dispatcher, hperforms.numbers.issued,
    hperforms.numbers.registered⟩

/-- Only the bookkeeping and the ids of a state matter. -/
theorem Performs.after_setIntercept {a : Dispatcher.Action InterceptId}
    {i : InterceptId} {x : ServerIntercept}
    (hperforms : (s.setIntercept i x).Performs a s') : s.Performs a s' :=
  ⟨hperforms.dispatcher, hperforms.numbers.issued,
    hperforms.numbers.registered⟩

theorem performs_onRetry {c : ConnId} {event : ConnEvent}
    (h : Consistent config s) (hcov : s.Covered fun _ => False)
    (halive : (s.conns c).alive = true)
    (hcompleted : s.completed parse (.connection c event) = none)
    (hagain : s.redispatched (.connection c event) =
      s.getIntercept (s.conns c).requestId)
    (hfailed : s.failed (.connection c event) = none) :
    s.Performs (s.action parse (.connection c event)) (s.retry c) := by
  simp only [action, hcompleted, hagain, hfailed]
  cases hget : s.getIntercept (s.conns c).requestId with
  | none =>
      have hnone := getIntercept_eq_none.mp hget
      rw [retry, reConnect_none hnone]
      exact performs_closeConnection_none hnone
  | some i =>
      obtain ⟨d, hr⟩ := getIntercept_eq_some.mp hget
      obtain rfl := h.owner c ((h.alive_iff c).mp halive) hr
      exact performs_retry h hcov hr

theorem performs_onReadReady {c : ConnId} {blocks : List Bytes}
    (h : Consistent config s) (hstep : s.onReadReady parse c blocks = some s') :
    s.Performs (s.action parse (.connection c (.readReady blocks))) s' := by
  rcases onReadReady_cases hstep with ⟨hget, rfl⟩ |
    ⟨i, responseStatus, conn, x, hget, hrun, rfl⟩
  · simp only [action, completed, redispatched, failed, hget]
    exact .setConn s c _
  · obtain ⟨d, hr⟩ := getIntercept_eq_some.mp hget
    obtain ⟨hconn, hx⟩ := ServerConnection.evolves_interceptTransferData hrun
    simp only [action, completed, redispatched, failed, hget, hrun]
    cases responseStatus with
    | false => exact (Performs.setConn s c conn).setIntercept i x
    | true =>
        have hpair : Consistent config ((s.setConn c conn).setIntercept i x) := by
          refine Consistent.setIntercept ?_ hx
          refine h.setConn (.trans ?_ hconn)
          exact .of_eq rfl rfl rfl
        obtain ⟨hdispatcher, hnumbers⟩ := @performs_complete config
          ((s.setConn c conn).setIntercept i x) hpair _ i c d hr
        exact ⟨hdispatcher, hnumbers.issued, hnumbers.registered⟩

theorem performs_onLateEos {c : ConnId} (h : Consistent config s)
    (hlate : (s.conns c).writeio.readEnable = true) :
    s.Performs (s.action parse (.connection c .eos)) (s.onLateEos c) := by
  simp only [action, completed, redispatched, failed, if_pos hlate, onLateEos]
  cases hget : s.getIntercept (s.conns c).requestId with
  | none => exact performs_closeConnection_none (getIntercept_eq_none.mp hget)
  | some i =>
      obtain ⟨d, hr⟩ := getIntercept_eq_some.mp hget
      simp only
      split
      · have hset : Consistent config
            (s.setIntercept i (s.intercepts i).error) :=
          h.setIntercept ⟨rfl, rfl, rfl⟩
        exact (@performs_closeConnection config _ hset c d i
          hr).after_setIntercept
      · exact performs_closeConnection h hr

theorem performs_onError {c : ConnId} (h : Consistent config s) :
    s.Performs (s.action parse (.connection c .error)) (s.onError c) := by
  simp only [action, completed, redispatched, failed, onError]
  cases hget : s.getIntercept (s.conns c).requestId with
  | none =>
      exact performs_connectionClosed_none (getIntercept_eq_none.mp hget)
  | some i =>
      obtain ⟨d, hr⟩ := getIntercept_eq_some.mp hget
      have hset : Consistent config
          (s.setIntercept i (s.intercepts i).badGateway) :=
        h.setIntercept ⟨rfl, rfl, rfl⟩
      exact (@performs_closeConnection config _ hset c d i
        hr).after_setIntercept

theorem performs_connection {c : ConnId} {event : ConnEvent}
    (h : Consistent config s) (hcov : s.Covered fun _ => False)
    (halive : (s.conns c).alive = true)
    (hstep : s.handlePHPConnectionEvents parse c event = some s') :
    s.Performs (s.action parse (.connection c event)) s' := by
  cases event with
  | netConnect =>
      rw [← Option.some.inj hstep]
      cases hget : s.getIntercept (s.conns c).requestId with
      | none =>
          rw [onNetConnect_idle hget]
          exact .setConn s c _
      | some i =>
          rw [onNetConnect_registered hget]
          exact (Performs.setConn s c _).setIntercept i _
  | netConnectFailed =>
      rw [← Option.some.inj hstep]
      exact performs_onRetry h hcov halive rfl rfl rfl
  | readReady blocks => exact performs_onReadReady h hstep
  | readComplete =>
      simp only [handlePHPConnectionEvents] at hstep
      split at hstep
      · next i hget =>
          obtain ⟨d, hr⟩ := getIntercept_eq_some.mp hget
          rw [← Option.some.inj hstep]
          simp only [action, completed, hget]
          exact performs_complete h hr
      · contradiction
  | writeReady =>
      simp only [handlePHPConnectionEvents] at hstep
      split at hstep
      · obtain ⟨conn, -, rfl⟩ := Option.map_eq_some_iff.mp hstep
        exact .setConn s c conn
      · rw [← Option.some.inj hstep]
        exact ⟨rfl, .of_old rfl fun _ _ _ hr => hr⟩
  | writeComplete =>
      obtain ⟨conn, -, rfl⟩ := Option.map_eq_some_iff.mp hstep
      exact .setConn s c conn
  | eos =>
      rw [← Option.some.inj hstep]
      split
      · next hlate => exact performs_onLateEos h hlate
      · next hearly =>
          refine performs_onRetry h hcov halive rfl ?_ ?_
          · simp only [redispatched, if_neg hearly]
          · simp only [failed, if_neg hearly]
  | error =>
      simp only [handlePHPConnectionEvents] at hstep
      split at hstep
      · rw [← Option.some.inj hstep]
        exact performs_onError h
      · contradiction

theorem performs_destroy (h : Consistent config s) (i : InterceptId) :
    s.Performs (s.action parse (.destroy i)) (s.destroy i) := by
  by_cases hdone : (s.intercepts i).outputCompleteState = true
  · simp only [action, completed, redispatched, failed, destroy, if_pos hdone]
    exact ⟨rfl, .of_old rfl fun _ _ _ hr => hr⟩
  · simp only [action, completed, redispatched, failed, destroy, if_neg hdone]
    have hset : Consistent config (s.setIntercept i { s.intercepts i with
        destroyed := true, clientAborted := true }) :=
      h.setIntercept ⟨rfl, rfl, rfl⟩
    cases hget : s.getIntercept (s.intercepts i).requestId with
    | none =>
        have hnone := getIntercept_eq_none.mp hget
        rw [removeIntercept_none (by exact hnone)]
        exact ⟨rfl, .of_old rfl fun _ _ _ hr => hr⟩
    | some j =>
        obtain ⟨d, hr⟩ := getIntercept_eq_some.mp hget
        exact (@performs_removeIntercept config _ hset _ j d
          hr).after_setIntercept

/-- Every event does to the registry, the pool, the queue and the request ids
what its action does to the dispatcher. -/
theorem performs_step {e : Event} (h : Consistent config s)
    (hcov : s.Covered fun _ => False) (hexists : Exists s e)
    (hstep : s.step parse e = some s') :
    s.Performs (s.action parse e) s' := by
  replace hstep := ServerState.handle_of_step hstep
  cases e with
  | connect i txn requestId =>
      rw [← Option.some.inj hstep]
      have hset : Consistent config
          (s.setIntercept i (ServerIntercept.new txn requestId)) :=
        h.setIntercept_free (h.freeIntercept_new hexists) rfl
      exact (performs_connect hset hcov i).after_setIntercept
  | connection c event => exact performs_connection h hcov hexists hstep
  | destroy i =>
      rw [← Option.some.inj hstep]
      exact performs_destroy h i
  | input i input =>
      rcases consume_cases hstep with ⟨i', c, conn, -, -, rfl⟩ | ⟨-, rfl⟩
      · exact (Performs.setConn s c conn).setIntercept i _
      · exact ⟨rfl, .of_old rfl fun _ _ _ hr => hr⟩
  | respond c r =>
      rw [← Option.some.inj hstep]
      exact .setConn s c _

theorem mem_serving_of_getIntercept {id : Nat} {i : InterceptId}
    (hget : s.getIntercept id = some i) : i ∈ s.serving := by
  obtain ⟨c, hr⟩ := getIntercept_eq_some.mp hget
  exact mem_serving.mpr ⟨id, c, hr⟩

/-- An event completes, starts over or fails only a request that is served. -/
theorem mem_serving_of_acts {e : Event} {i : InterceptId}
    (hacts : s.completed parse e = some i ∨ s.redispatched e = some i ∨
      s.failed e = some i) : i ∈ s.serving := by
  cases e with
  | connection c event =>
      cases event <;>
        simp only [completed, redispatched, failed] at hacts <;>
        grind [mem_serving_of_getIntercept]
  | destroy j =>
      simp only [completed, redispatched, failed] at hacts
      grind [mem_serving_of_getIntercept]
  | connect | input | respond =>
      simp only [completed, redispatched, failed] at hacts
      grind

theorem allowed_action {e : Event} (h : Consistent config s)
    (hexists : Exists s e) : s.dispatcher.Allowed (s.action parse e) := by
  have hold : ∀ e, (∀ i txn id, e ≠ .connect i txn id) →
      s.dispatcher.Allowed (s.action parse e) := by
    intro e hne
    have hacts : ∀ i, _ → i ∈ s.serving := fun i =>
      @mem_serving_of_acts s parse e i
    unfold action
    split
    · exact absurd rfl (hne _ _ _)
    · split
      · next hcompleted => exact hacts _ (.inl hcompleted)
      · next hagain => exact hacts _ (.inr (.inl hagain))
      · next hfailed => exact hacts _ (.inr (.inr hfailed))
      · trivial
  cases e with
  | connect i txn requestId =>
      have hfree := h.freeIntercept_new hexists
      refine ⟨fun hin => ?_, hfree.1⟩
      obtain ⟨id, c, hr⟩ := mem_serving.mp hin
      exact hfree.2 id c hr
  | connection | destroy | input | respond =>
      exact hold _ (by intro i txn id; exact Event.noConfusion)

/-- No event leaves a connection that is neither available nor in use. -/
theorem Covered.step {e : Event} (h : Consistent config s)
    (hcov : s.Covered fun _ => False) (hexists : Exists s e)
    (heffect : Effect config s e s') : s'.Covered fun _ => False := by
  cases heffect with
  | quiet halike => exact hcov.alike halike
  | @connect i txn requestId =>
      have hset : Consistent config
          (s.setIntercept i (ServerIntercept.new txn requestId)) :=
        h.setIntercept_free (h.freeIntercept_new hexists) rfl
      exact Covered.connect hset hcov i
  | @again c event i hr hagain hcons =>
      have hconn := connect_again h hr
      have hmem : c ∈ ((s.unregister (s.conns c).requestId).connect
          i).pool.connections := by
        rw [← hcons.alive_iff, hconn, h.alive_iff]
        exact h.entry_mem hr
      have hafter := (hcov.unregister hr).connect (h.unregister _) i
      refine Covered.connectionClosed ?_ (s := setConn _ c _) hafter
      intro j d hr'
      rw [setConn_conns_self] at hr'
      exact hcons.owner c hmem hr'
  | @lost c event s₁ halike hcons hid hnone =>
      refine connectionClosed ?_ ((hcov.alike halike).mono fun _ => False.elim)
      intro i d hr
      rw [hid] at hr
      exact absurd (halike.registered.mp hr) (hnone i d)
  | @fail c event i s₁ halike hcons hid hr hfails hended =>
      refine connectionClosed ?_ ((hcov.alike halike).mono fun _ => False.elim)
      intro j d hr'
      rw [hid] at hr'
      have heq := hr.symm.trans (halike.registered.mp hr')
      simp only [Option.some.injEq, Prod.mk.injEq] at heq
      exact heq.2.symm
  | @finish e id i c s₁ halike hcons hr hended =>
      have hr₁ := halike.registered.mpr hr
      have hun := hcons.unregister id
      have hback :=
        ((hcov.alike halike).unregister hr₁).releaseConnection hun
      exact hback.connectNext (hun.releaseConnection
        (hcons.freeConn_unregister hr₁) (hcons.entry_mem hr₁))

end Events

end ServerState

/-! ### Runs -/

/-- What is known of a state of a run. -/
structure Scheduled (config : FcgiPluginConfig) (s : ServerState) : Prop where
  consistent : Consistent config s
  covered : s.Covered fun _ => False

theorem Scheduled.init (config : FcgiPluginConfig) :
    Scheduled config (ServerState.new config) where
  consistent := .init
  covered _ hc := absurd hc List.not_mem_nil

/-- The bookkeeping of a worker thread is a dispatcher. -/
theorem dispatcher_simulation (parse : MimeHdrParse)
    (config : FcgiPluginConfig) :
    Transition.Simulation (workerThread parse config) Exists
      (Dispatcher.system InterceptId) Dispatcher.Allowed (Scheduled config)
      (fun s => s.issued < 2 ^ 32 - 1) ServerState.dispatcher
      (ServerState.action parse) where
  back _ _ _ hstep hlt :=
    Nat.lt_of_le_of_lt (ServerState.step_issued hstep) hlt
  keeps h hexists hlt hstep :=
    ⟨h.consistent.step hexists hstep hlt, h.covered.step h.consistent hexists
      (.of_step h.consistent hexists hstep hlt)⟩
  allowed h hexists _ _ := ServerState.allowed_action h.consistent hexists
  step h hexists _ hstep := congrArg some
    (ServerState.performs_step h.consistent h.covered hexists
      hstep).dispatcher.symm

section Runs

variable {parse : MimeHdrParse} {config : FcgiPluginConfig}
  {s s' : ServerState} {events : List Event}

theorem scheduled_of_reach
    (hreach : Transition.Reach (workerThread parse config) Exists s)
    (hids : s.issued < 2 ^ 32 - 1) : Scheduled config s := by
  obtain ⟨s₀, events, rfl, hrun⟩ := hreach.exists_run
  exact ((dispatcher_simulation parse config).run (.init config) hrun hids).1

/-- The actions of the dispatcher that the events of a run stand for. -/
def schedule (parse : MimeHdrParse) (config : FcgiPluginConfig)
    (s : ServerState) (events : List Event) :
    List (Dispatcher.Action InterceptId) :=
  Transition.actions (workerThread parse config) (ServerState.action parse) s
    events

theorem runs_of_run (h : Scheduled config s)
    (hrun : Transition.Run (workerThread parse config) Exists s events s')
    (hids : s'.issued < 2 ^ 32 - 1) :
    s.dispatcher.Runs (schedule parse config s events) s'.dispatcher :=
  ((dispatcher_simulation parse config).run h hrun hids).2

theorem Scheduled.valid (h : Scheduled config s) : s.dispatcher.Valid where
  serving_le := by
    have hcount := ServerState.card_serving_add_available h.consistent h.covered
    have hle := h.consistent.connections_le
    show s.serving.card ≤ s.pool.maxConn
    omega
  waiting_le := h.consistent.queue_le
  waiting_nodup := h.consistent.queue_nodup
  apart i hi hin := by
    obtain ⟨id, c, hr⟩ := ServerState.mem_serving.mp hin
    exact h.consistent.queue_free i hi hr

theorem dispatcher_new (config : FcgiPluginConfig) :
    (ServerState.new config).dispatcher =
      { places := config.poolShare, room := uint config.requestQueueSize } := by
  refine Dispatcher.ext rfl rfl ?_ rfl
  rfl

/-- The requests among the events of a run. -/
def requests (events : List Event) : List InterceptId :=
  events.filterMap fun
    | .connect i _ _ => some i
    | _ => none

theorem arrival_action (parse : MimeHdrParse) (s : ServerState) (e : Event) :
    (s.action parse e).arrival = match e with
      | .connect i _ _ => some i
      | _ => none := by
  cases e with
  | connect => rfl
  | connection | destroy | input | respond =>
      simp only [ServerState.action]
      split <;> rfl

theorem arrivals_schedule
    (hrun : Transition.Run (workerThread parse config) Exists s events s') :
    Dispatcher.arrivals (schedule parse config s events) = requests events := by
  induction hrun with
  | nil => rfl
  | @cons s s₁ s' e rest hexists hstep _ ih =>
      rw [schedule, Transition.actions_cons hstep, Dispatcher.arrivals_cons,
        arrival_action]
      have htail : requests (e :: rest) = (match e with
          | .connect i _ _ => some i
          | _ => none).toList ++ requests rest := by
        cases e <;> rfl
      rw [htail, ← ih]
      rfl

end Runs

/-- Every run of a worker thread is, event for event, a run of a dispatcher:
the share of the pool gives its places and the queue its waiting room. -/
theorem dispatcher_of_run (parse : MimeHdrParse) (config : FcgiPluginConfig)
    (events : List Event) (s : ServerState)
    (hrun : Transition.Run (workerThread parse config) Exists
      (ServerState.new config) events s)
    (hids : s.issued < 2 ^ 32 - 1) :
    Dispatcher.Runs
      { places := config.poolShare, room := uint config.requestQueueSize }
      (schedule parse config (ServerState.new config) events) s.dispatcher := by
  rw [← dispatcher_new]
  exact runs_of_run (.init config) hrun hids

/-- No connection is lost to the pool: each one is available or in use by one
request, so a request finds none only when all places are taken. -/
theorem connections_accounted (parse : MimeHdrParse)
    (config : FcgiPluginConfig) (s : ServerState)
    (hreach : Transition.Reach (workerThread parse config) Exists s)
    (hids : s.issued < 2 ^ 32 - 1) :
    (s.inUse ++ s.pool.availableConnections).Perm s.pool.connections ∧
      s.inUse.length = s.serving.card ∧
      (s.getAvailableConnection.1 = none ↔
        s.serving.card = config.poolShare) := by
  have h := scheduled_of_reach hreach hids
  have hcard : s.inUse.length = s.serving.card := by
    rw [ServerState.inUse, List.length_map,
      ServerState.card_serving h.consistent]
  refine ⟨ServerState.perm_connections h.consistent h.covered, hcard, ?_⟩
  have hcan := ServerState.canDispatch_iff h.consistent h.covered
  have hmax : s.pool.maxConn = config.poolShare := h.consistent.maxConn_eq
  have hle : s.serving.card ≤ config.poolShare := by
    rw [← hmax]
    exact h.valid.serving_le
  have hnone : s.getAvailableConnection.1 = none ↔ ¬ s.CanDispatch := by
    unfold ServerState.getAvailableConnection ServerState.CanDispatch
    split
    · next hroom => simp [hroom]
    · next hfull =>
        split
        · next hempty => simp [hfull, hempty]
        · next c rest hempty => simp [hempty]
  rw [hnone, hcan, hmax]
  omega

/-- A thread with a share of the connections serves its first request. -/
theorem serves_first (parse : MimeHdrParse) {config : FcgiPluginConfig}
    (hshare : 0 < config.poolShare) (i : InterceptId) (txn : ClientRequest)
    (requestId : Nat) :
    ∃ s, Transition.Run (workerThread parse config) Exists
        (ServerState.new config) [.connect i txn requestId] s ∧
      s.issued = 1 ∧ i ∈ s.serving := by
  let s := (ServerState.new config).setIntercept i
    (ServerIntercept.new txn requestId)
  have hroom : s.pool.connections.length < s.pool.maxConn := hshare
  have hconnect : s.connect i = s.connectNew i :=
    ServerState.connect_new i hroom
  have hfault : (s.connectNew i).fault = false := by
    rw [ServerState.connectNew_fault, ServerState.setIntercept_intercepts_self]
    rfl
  obtain ⟨⟨c, hr⟩, -⟩ := ServerState.connect_dispatched i (.inl hroom)
  rw [hconnect] at hr
  exact ⟨s.connectNew i,
    .cons rfl (ServerState.step_of_handle (congrArg some hconnect) hfault)
      (.nil _),
    rfl, ServerState.mem_serving.mpr ⟨_, c, hr⟩⟩

/-- A worker thread never serves a request if and only if its share of the
connections is none; then the first requests fill its queue for good. -/
theorem never_served_iff (parse : MimeHdrParse) (config : FcgiPluginConfig) :
    ((∀ events s, Transition.Run (workerThread parse config) Exists
          (ServerState.new config) events s → s.issued < 2 ^ 32 - 1 →
          s.serving = ∅) ↔
        config.poolShare = 0) ∧
      (config.poolShare = 0 → ∀ events s,
        Transition.Run (workerThread parse config) Exists
          (ServerState.new config) events s → s.issued < 2 ^ 32 - 1 →
        s.queue.pendingList =
          (requests events).take (uint config.requestQueueSize)) := by
  have hstarved : config.poolShare = 0 → ∀ events s,
      Transition.Run (workerThread parse config) Exists
        (ServerState.new config) events s → s.issued < 2 ^ 32 - 1 →
      s.serving = ∅ ∧ s.queue.pendingList =
        (requests events).take (uint config.requestQueueSize) := by
    intro hplaces events s hrun hids
    have hruns := dispatcher_of_run parse config events s hrun hids
    have hvalid := (Scheduled.init config).valid
    rw [dispatcher_new] at hvalid
    have hwaits := hruns.starved hvalid hplaces
    rw [arrivals_schedule hrun] at hwaits
    exact hwaits
  refine ⟨⟨fun hnever => ?_, fun hplaces events s hrun hids => ?_⟩,
    fun hplaces events s hrun hids => ?_⟩
  · by_contra hpos
    obtain ⟨s, hrun, hissued, hin⟩ := serves_first parse
      (Nat.pos_of_ne_zero hpos) 0 ⟨false, [], [], [], []⟩ 0
    have hids : s.issued < 2 ^ 32 - 1 := by omega
    rw [hnever _ s hrun hids] at hin
    exact Finset.notMem_empty 0 hin
  · exact (hstarved hplaces events s hrun hids).1
  · exact (hstarved hplaces events s hrun hids).2

namespace SchedulingWitness

def parse : MimeHdrParse := DecoderSafetyWitness.parse

/-- One connection, for which two requests wait. -/
def config : FcgiPluginConfig where
  documentRootDir := []
  html := []
  maxConnLength := 6
  maxReqLength := 2
  requestQueueSize := 2

def request (i : InterceptId) : Event := .connect i ⟨true, [], [], [], []⟩ 0

/-- Of four requests the last one is dropped. -/
def crowd : List Event := [request 0, request 1, request 2, request 3]

def crowded : ServerState :=
  Transition.after (workerThread parse config) Exists (ServerState.new config)
    crowd

theorem run_crowded :
    Transition.Run (workerThread parse config) Exists (ServerState.new config)
      crowd crowded :=
  .after (by decide)

theorem dispatcher_of_run_crowded :
    Dispatcher.Runs { places := 1, room := 2 }
      [.submit 0, .submit 1, .submit 2, .submit 3] crowded.dispatcher :=
  dispatcher_of_run parse config crowd crowded run_crowded (by decide)

theorem connections_accounted_crowded :
    (crowded.inUse ++ crowded.pool.availableConnections).Perm
        crowded.pool.connections ∧
      crowded.inUse.length = crowded.serving.card ∧
      (crowded.getAvailableConnection.1 = none ↔
        crowded.serving.card = config.poolShare) :=
  connections_accounted parse config crowded
    (.after (.init rfl) (by decide)) (by decide)

end SchedulingWitness

end AtsFastcgi
