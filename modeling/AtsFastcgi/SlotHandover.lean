/-
Ending a request.  The connection that it frees leaves room for one more, so
the `connect` at the end of `removeIntercept` finds a connection and never
sends the oldest waiter to the back of the queue.  It uses that waiter, which
must not have been deleted.
-/
import AtsFastcgi.Lifetimes

namespace AtsFastcgi

open ServerState (ConnEvent Event)

namespace ServerState

/-! ### What stays -/

/-- The requests that go on are served as before: the entry, the connection
and the intercept are the same. -/
structure Undisturbed (s s' : ServerState) (id : Nat) (i : InterceptId)
    (c : ConnId) : Prop where
  registered : s'.Registered id i c
  conn : s'.conns c = s.conns c
  intercept : s'.intercepts i = s.intercepts i

/-- What `removeIntercept` on a registered id leaves.  The id `s.issued + 1`
is the next one. -/
structure SlotHandedOver (s s' : ServerState) (id : Nat) : Prop where
  removed : ∀ i c, ¬ s'.Registered id i c
  others : ∀ id' i c, id' ≠ id → s.Registered id' i c →
    s.Undisturbed s' id' i c
  handed : ∀ head tail, s.queue.pendingList = head :: tail →
    s'.queue = { s.queue with pendingList := tail } ∧
      (∀ i c, ¬ s.Registered (s.issued + 1) i c) ∧
      ∃ d ∈ s'.pool.connections, ∀ id' i c,
        s'.Registered id' i c ↔
          if s.issued + 1 = id' then head = i ∧ d = c
          else id ≠ id' ∧ s.Registered id' i c
  idle : s.queue.pendingList = [] →
    s'.queue = s.queue ∧
      ∀ id' i c, s'.Registered id' i c ↔ id ≠ id' ∧ s.Registered id' i c

theorem releaseConnection_nextId (s : ServerState) (c : ConnId) :
    (s.releaseConnection c).nextId = s.nextId := by
  unfold releaseConnection
  simp only
  split <;> rfl

theorem releaseConnection_conns_of_ne (s : ServerState) {c d : ConnId}
    (hne : d ≠ c) : (s.releaseConnection c).conns d = s.conns d := by
  unfold releaseConnection
  simp only
  split
  · rw [reuseConnection, setConn_conns_of_ne _ _ hne]
    exact setConn_conns_of_ne s _ hne
  · rw [connectionClosed, deleteConnection, setConn_conns_of_ne _ _ hne]
    exact setConn_conns_of_ne s _ hne

/-- `connect` leaves the other intercepts as they are. -/
theorem connect_intercepts_of_ne (s : ServerState) {i j : InterceptId}
    (hne : j ≠ i) : (s.connect i).intercepts j = s.intercepts j := by
  rcases s.connect_cases i with ⟨-, heq⟩ | ⟨c, rest, -, -, heq⟩ |
    ⟨-, -, heq⟩
  · rw [heq]
    exact connectNew_intercepts_of_ne s hne
  · rw [heq]
    exact connectPooled_intercepts_of_ne s c rest hne
  · rw [heq]
    rfl

section Handover

variable {config : FcgiPluginConfig} {s : ServerState}

/-- A `connect` that finds a connection registers its intercept on it, under
the next id, and changes no other entry. -/
theorem connect_registers (h : Consistent config s) (i : InterceptId)
    (hcan : s.CanDispatch) :
    ∃ d ∈ (s.connect i).pool.connections, ∀ id j c,
      (s.connect i).Registered id j c ↔
        if s.nextId = id then i = j ∧ d = c else s.Registered id j c := by
  rcases s.connect_cases i with ⟨-, heq⟩ | ⟨d, rest, -, htake, heq⟩ |
    ⟨hfull, hnone, -⟩
  · rw [heq]
    refine ⟨s.nextConn, ?_, fun id j c => registered_connectNew⟩
    exact List.mem_append_right _ (List.mem_singleton_self s.nextConn)
  · rw [heq]
    refine ⟨d, ?_, fun id j c => registered_connectPooled⟩
    apply h.available_mem
    rw [htake]
    exact List.mem_cons_self
  · rcases hcan with hroom | havail
    · exact absurd hroom hfull
    · exact absurd hnone havail

/-- Connecting a free intercept disturbs no request. -/
theorem undisturbed_connect (h : Consistent config s) {i : InterceptId}
    (hfree : s.FreeIntercept i) {id : Nat} {j : InterceptId} {c : ConnId}
    (hr : s.Registered id j c) : s.Undisturbed (s.connect i) id j c := by
  constructor
  · exact registered_connect h i hr
  · exact connect_conns h i (h.entry_mem hr) (h.entry_busy hr)
  · apply connect_intercepts_of_ne
    rintro rfl
    exact hfree.2 id c hr

theorem undisturbed_releaseConnection (h : Consistent config s) {id : Nat}
    {i : InterceptId} {c d : ConnId} (hr : s.Registered id i d)
    (hne : d ≠ c) : s.Undisturbed (s.releaseConnection c) id i d := by
  constructor
  · exact (registered_releaseConnection h c).mpr hr
  · exact releaseConnection_conns_of_ne s hne
  · rw [releaseConnection_intercepts]

theorem Undisturbed.trans {s₁ s₂ : ServerState} {id : Nat} {i : InterceptId}
    {c : ConnId} (h₁ : s.Undisturbed s₁ id i c)
    (h₂ : s₁.Undisturbed s₂ id i c) : s.Undisturbed s₂ id i c :=
  ⟨h₂.registered, h₂.conn.trans h₁.conn, h₂.intercept.trans h₁.intercept⟩

/-- The request `id` of `s` has left the registry, and its connection is back
in the pool or closed. -/
structure SlotFreed (config : FcgiPluginConfig) (s s₁ : ServerState)
    (id : Nat) : Prop where
  consistent : Consistent config s₁
  canDispatch : s₁.CanDispatch
  queue : s₁.queue = s.queue
  nextId : s₁.nextId = s.issued + 1
  unused : ∀ i c, ¬ s.Registered (s.issued + 1) i c
  was_issued : s.issued + 1 ≠ id
  registered : ∀ id' i c,
    s₁.Registered id' i c ↔ id ≠ id' ∧ s.Registered id' i c
  others : ∀ id' i c, id' ≠ id → s.Registered id' i c →
    s.Undisturbed s₁ id' i c

theorem slotFreed_releaseConnection (h : Consistent config s) {id : Nat}
    {i : InterceptId} {c : ConnId} (hr : s.Registered id i c) :
    SlotFreed config s ((s.unregister id).releaseConnection c) id := by
  have hun := h.unregister id
  have hfresh : ∀ j d, ¬ s.Registered (s.issued + 1) j d := by
    intro j d hr'
    have hlt := (h.entry_id hr').2
    rw [h.nextId_eq] at hlt
    exact Nat.lt_irrefl _ hlt
  constructor
  · exact hun.releaseConnection (h.freeConn_unregister hr) (h.entry_mem hr)
  · exact canDispatch_releaseConnection hun (h.entry_mem hr)
  · exact releaseConnection_queue (s.unregister id) c
  · exact (releaseConnection_nextId (s.unregister id) c).trans h.nextId_eq
  · exact hfresh
  · rintro rfl
    exact hfresh i c hr
  · intro id' j d
    rw [registered_releaseConnection hun, registered_unregister]
  · intro id' j d hne hr'
    have hdc : d ≠ c := by
      rintro rfl
      exact hne (h.conn_unique hr hr').1.symm
    have hun' : s.Undisturbed (s.unregister id) id' j d :=
      ⟨registered_unregister.mpr ⟨hne.symm, hr'⟩, rfl, rfl⟩
    exact hun'.trans (undisturbed_releaseConnection hun hun'.registered hdc)

/-- The head of the queue takes the slot. -/
theorem slotHandedOver_connectNext {s₁ : ServerState} {id : Nat}
    (hfreed : SlotFreed config s s₁ id) :
    s.SlotHandedOver s₁.connectNext id := by
  cases hpending : s₁.queue.pendingList with
  | nil =>
      have hstay : s₁.connectNext = s₁ := by
        simp only [connectNext, RequestQueue.popFromQueue, hpending]
      rw [hstay]
      constructor
      · intro j d hr
        exact ((hfreed.registered id j d).mp hr).1 rfl
      · exact hfreed.others
      · intro head tail hcons
        rw [← hfreed.queue, hpending] at hcons
        contradiction
      · exact fun _ => ⟨hfreed.queue, hfreed.registered⟩
  | cons head tail =>
      obtain ⟨hpop, hfree, -⟩ := hfreed.consistent.pop hpending
      have hnext : s₁.connectNext =
          ({ s₁ with
            queue := { s₁.queue with pendingList := tail } }).connect head := by
        simp only [connectNext, RequestQueue.popFromQueue, hpending]
      have hcan : CanDispatch
          { s₁ with queue := { s₁.queue with pendingList := tail } } :=
        hfreed.canDispatch
      obtain ⟨d, hd, hentries⟩ := connect_registers hpop head hcan
      obtain ⟨-, hqueue⟩ := connect_dispatched head hcan
      have hafter : ∀ id' j e, s₁.connectNext.Registered id' j e ↔
          if s.issued + 1 = id' then head = j ∧ d = e
          else id ≠ id' ∧ s.Registered id' j e := by
        intro id' j e
        rw [hnext, hentries id' j e, ← hfreed.registered id' j e,
          ← hfreed.nextId]
        rfl
      constructor
      · intro j e hr
        rw [hafter, if_neg hfreed.was_issued] at hr
        exact hr.1 rfl
      · intro id' j e hne hr
        have hold := hfreed.others id' j e hne hr
        have hpopped : s₁.Undisturbed
            { s₁ with queue := { s₁.queue with pendingList := tail } } id' j
            e := ⟨hold.registered, rfl, rfl⟩
        rw [hnext]
        exact (hold.trans hpopped).trans
          (undisturbed_connect hpop hfree hpopped.registered)
      · intro head' tail' hcons
        rw [← hfreed.queue, hpending] at hcons
        obtain ⟨rfl, rfl⟩ := List.cons.inj hcons
        rw [← hnext] at hd hqueue
        rw [← hfreed.queue]
        exact ⟨hqueue, hfreed.unused, d, hd, hafter⟩
      · intro hnil
        rw [← hfreed.queue, hpending] at hnil
        contradiction

/-- The slot of a registered request goes to the head of the queue. -/
theorem slotHandedOver_removeIntercept (h : Consistent config s) {id : Nat}
    {i : InterceptId} {c : ConnId} (hr : s.Registered id i c) :
    s.SlotHandedOver (s.removeIntercept id) id := by
  rw [removeIntercept_registered hr]
  exact slotHandedOver_connectNext (slotFreed_releaseConnection h hr)

/-! ### The waiter is used -/

theorem connect_fault (i : InterceptId) (hcan : s.CanDispatch) :
    (s.connect i).fault = (s.fault || (s.intercepts i).destroyed) := by
  rcases s.connect_cases i with ⟨-, heq⟩ | ⟨c, rest, -, -, heq⟩ |
    ⟨hfull, hnone, -⟩
  · rw [heq, connectNew_fault]
  · rw [heq, connectPooled_fault]
  · rcases hcan with hroom | havail
    · exact absurd hroom hfull
    · exact absurd hnone havail

theorem releaseConnection_fault (s : ServerState) (c : ConnId) :
    (s.releaseConnection c).fault = s.fault := by
  unfold releaseConnection
  simp only
  split <;> rfl

/-- The head of the queue, if there is one, has not been deleted. -/
def HeadAlive (s : ServerState) : Prop :=
  ∀ j ∈ s.queue.pendingList.head?, (s.intercepts j).destroyed = false

instance (s : ServerState) : Decidable s.HeadAlive :=
  inferInstanceAs (Decidable (∀ j ∈ s.queue.pendingList.head?, _))

theorem connectNext_fault (hcan : s.CanDispatch) :
    s.connectNext.fault = false ↔ s.fault = false ∧ s.HeadAlive := by
  unfold HeadAlive
  cases hpending : s.queue.pendingList with
  | nil =>
      have hstay : s.connectNext = s := by
        simp only [connectNext, RequestQueue.popFromQueue, hpending]
      simp [hstay]
  | cons head tail =>
      have hnext : s.connectNext =
          ({ s with
            queue := { s.queue with pendingList := tail } }).connect head := by
        simp only [connectNext, RequestQueue.popFromQueue, hpending]
      have hcan' : CanDispatch
          { s with queue := { s.queue with pendingList := tail } } := hcan
      rw [hnext, connect_fault head hcan']
      simp

theorem defined_eq_some {s s' : ServerState} :
    s.defined = some s' ↔ s.fault = false ∧ s = s' := by
  unfold defined
  split <;> simp_all

/-- `removeIntercept` has a defined behaviour and hands the slot over. -/
def HandsOver (s : ServerState) (id : Nat) : Prop :=
  ∃ s', (s.removeIntercept id).defined = some s' ∧ s.SlotHandedOver s' id

theorem handsOver_iff (h : Consistent config s) (hfault : s.fault = false)
    {id : Nat} {i : InterceptId} {c : ConnId} (hr : s.Registered id i c) :
    s.HandsOver id ↔ s.HeadAlive := by
  have hfreed := slotFreed_releaseConnection h hr
  have hsame : ((s.unregister id).releaseConnection c).fault = s.fault :=
    releaseConnection_fault (s.unregister id) c
  have hhead : ((s.unregister id).releaseConnection c).HeadAlive ↔
      s.HeadAlive := by
    unfold HeadAlive
    rw [hfreed.queue, releaseConnection_intercepts]
    rfl
  have hdefined := connectNext_fault hfreed.canDispatch
  rw [← removeIntercept_registered hr, hsame, hhead] at hdefined
  constructor
  · rintro ⟨s', hs', -⟩
    exact (hdefined.mp (defined_eq_some.mp hs').1).2
  · intro halive
    exact ⟨_, defined_eq_some.mpr ⟨hdefined.mpr ⟨hfault, halive⟩, rfl⟩,
      slotHandedOver_removeIntercept h hr⟩

end Handover

end ServerState

/-- Ending a registered request of a run hands its slot to the oldest waiter,
and to nobody else, exactly if that waiter has not been deleted; that is so in
every run in which no intercept is destroyed while it waits. -/
theorem slotHandedOver_of_reach (parse : MimeHdrParse)
    (config : FcgiPluginConfig) (s : ServerState)
    (hreach : Transition.Reach (workerThread parse config) Exists s)
    (hids : s.issued < 2 ^ 32 - 1) (id : Nat) (i : InterceptId) (c : ConnId)
    (hr : s.Registered id i c) :
    (s.HandsOver id ↔ s.HeadAlive) ∧
      (Transition.Reach (workerThread parse config) KeepsAlive s →
        s.HandsOver id) := by
  have hiff : s.HandsOver id ↔ s.HeadAlive :=
    ServerState.handsOver_iff (consistent_of_reach (fun _ _ he => he) hreach
      hids) (ServerState.fault_of_reach hreach) hr
  refine ⟨hiff, fun hkeeps => hiff.mpr fun j hj => ?_⟩
  exact (alive_of_reach hkeeps hids).waiting j (List.mem_of_mem_head? hj)

namespace SlotWitness

/-- A connection that serves `maxReqLength` requests. -/
def config (maxReqLength : Int) : FcgiPluginConfig :=
  { RegistryWitness.config with maxReqLength }

/-- The one connection is in use and the second request waits. -/
def waiting (maxReqLength : Int) : ServerState :=
  Transition.after
    (workerThread DecoderSafetyWitness.parse (config maxReqLength)) Exists
    (ServerState.new (config maxReqLength))
    [.connect 0 (RegistryWitness.txn (ascii "GET")) 7,
      .connect 1 (RegistryWitness.txn (ascii "GET")) 7,
      .connection 0 .netConnect]

/-- The waiting request gets the connection that is reused, or a new one in
the place of the connection that is closed. -/
theorem slotHandedOver_waiting :
    ((waiting 2).HandsOver 1 ∧
        ((waiting 2).removeIntercept 1).Registered 2 1 0) ∧
      (waiting 1).HandsOver 1 ∧
        ((waiting 1).removeIntercept 1).Registered 2 1 1 := by
  obtain ⟨hreach, hids, hr, halive, hnext⟩ :
      Transition.Reach
        (workerThread DecoderSafetyWitness.parse (config 2)) Exists
        (waiting 2) ∧ (waiting 2).issued < 2 ^ 32 - 1 ∧
      (waiting 2).Registered 1 0 0 ∧ (waiting 2).HeadAlive ∧
      ((waiting 2).removeIntercept 1).Registered 2 1 0 :=
    Transition.Reach.after_and (.init rfl) (by decide +kernel)
  obtain ⟨hreach', hids', hr', halive', hnext'⟩ :
      Transition.Reach
        (workerThread DecoderSafetyWitness.parse (config 1)) Exists
        (waiting 1) ∧ (waiting 1).issued < 2 ^ 32 - 1 ∧
      (waiting 1).Registered 1 0 0 ∧ (waiting 1).HeadAlive ∧
      ((waiting 1).removeIntercept 1).Registered 2 1 1 :=
    Transition.Reach.after_and (.init rfl) (by decide +kernel)
  have h := slotHandedOver_of_reach _ _ _ hreach hids 1 0 0 hr
  have h' := slotHandedOver_of_reach _ _ _ hreach' hids' 1 0 0 hr'
  exact ⟨⟨h.1.mpr halive, hnext⟩, h'.1.mpr halive', hnext'⟩

/-- The client of the first request goes away while its request waits for
another connection, and a second request is served. -/
def haunted : ServerState :=
  Transition.after
    (workerThread DecoderSafetyWitness.parse RegistryWitness.config) Ats
    (ServerState.new RegistryWitness.config)
    (LifetimeWitness.lostEvents ++
      [.connect 1 (RegistryWitness.txn (ascii "GET")) 7])

/-- When the second request ends, the deleted intercept is used. -/
theorem not_always_handsOver :
    ¬ ∀ parse config s,
      Transition.Reach (workerThread parse config) Ats s →
      s.issued < 2 ^ 32 - 1 →
      ∀ id i c, s.Registered id i c → s.HandsOver id := by
  intro h
  obtain ⟨hreach, hids, hr, hfault⟩ :
      Transition.Reach
        (workerThread DecoderSafetyWitness.parse RegistryWitness.config) Ats
        haunted ∧ haunted.issued < 2 ^ 32 - 1 ∧ haunted.Registered 2 1 1 ∧
      (haunted.removeIntercept 2).fault = true :=
    Transition.Reach.after_and (.init rfl) (by decide +kernel)
  obtain ⟨s', hs', -⟩ := h _ _ haunted hreach hids 2 1 1 hr
  have hdefined := (ServerState.defined_eq_some.mp hs').1
  exact Bool.noConfusion (hfault.symm.trans hdefined)

end SlotWitness

end AtsFastcgi
