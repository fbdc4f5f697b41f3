/-
What becomes of the requests that `connect` has accepted: none waits while no
connection is in use, and none is forgotten, as long as no connection is lost
with nothing to take its place and no request meets a full queue.
-/
import AtsFastcgi.Dispatch

namespace AtsFastcgi

open ServerState (ConnEvent Event Effect)

/-! ### Nobody waits for nothing -/

namespace ServerState

/-- Without the connection `c` there is still one in use. -/
def KeepsBusy (s : ServerState) (c : ConnId) : Prop :=
  (s.interceptList.erase (s.conns c).requestId).isEmpty = false

/-- `reConnect` for the connection `c` finds another connection, or nobody is
left waiting after it. -/
def RetryServes (s : ServerState) (c : ConnId) : Prop :=
  s.CanDispatch ∨ s.queue.pendingList = [] ∧
    (s.queue.isQueueFull = true ∨ s.getIntercept (s.conns c).requestId = none)

/-- The event leaves a connection in use or nobody waiting. -/
def StrandsNone (s : ServerState) : Event → Prop
  | .connection c .netConnectFailed => s.KeepsBusy c ∨ s.RetryServes c
  | .connection c .eos =>
      s.KeepsBusy c ∨
        if (s.conns c).writeio.readEnable then s.queue.pendingList = []
        else s.RetryServes c
  | .connection c .error => s.KeepsBusy c ∨ s.queue.pendingList = []
  | _ => True

theorem KeepsBusy.registered {s : ServerState} {c : ConnId}
    (hkeeps : s.KeepsBusy c) :
    ∃ id i d, (s.conns c).requestId ≠ id ∧ s.Registered id i d := by
  obtain ⟨id, hmem⟩ :=
    Std.TreeMap.isEmpty_eq_false_iff_exists_mem.mp hkeeps
  obtain ⟨⟨i, d⟩, hr⟩ := Option.isSome_iff_exists.mp
    (Std.TreeMap.mem_iff_isSome_getElem?.mp hmem)
  have hr' : (s.unregister (s.conns c).requestId).Registered id i d := hr
  obtain ⟨hne, hold⟩ := registered_unregister.mp hr'
  exact ⟨id, i, d, hne, hold⟩

theorem connectNext_served {s : ServerState} (hcan : s.CanDispatch) :
    s.connectNext.Served := by
  unfold connectNext RequestQueue.popFromQueue
  cases hqueue : s.queue.pendingList with
  | nil => exact fun hne => absurd hqueue hne
  | cons i rest =>
      have hcan' : CanDispatch
          { s with queue := { s.queue with pendingList := rest } } := hcan
      obtain ⟨⟨c, hr⟩, -⟩ := connect_dispatched i hcan'
      exact fun _ => ⟨_, _, _, hr⟩

/-- With a pool, `connect` always leaves a connection in use. -/
theorem connect_busy {config : FcgiPluginConfig} {s : ServerState}
    (h : Consistent config s) (hpool : 1 ≤ s.pool.maxConn)
    (hcov : s.Covered fun _ => False) (i : InterceptId) :
    (s.connect i).Busy := by
  by_cases hcan : s.CanDispatch
  · obtain ⟨⟨c, hr⟩, -⟩ := connect_dispatched i hcan
    exact ⟨_, _, _, hr⟩
  · obtain ⟨hroom, havail⟩ := not_or.mp hcan
    have hsome : s.pool.connections ≠ [] := by
      intro hnil
      rw [hnil] at hroom
      exact hroom hpool
    obtain ⟨c, hc⟩ := List.exists_mem_of_ne_nil _ hsome
    rcases hcov c hc with hfalse | hin | ⟨id, j, hr⟩
    · exact hfalse.elim
    · rw [not_not.mp havail] at hin
      exact absurd hin List.not_mem_nil
    · exact ⟨id, j, c, registered_connect h i hr⟩

/-- The connection of an entry is in the pool's books and not available. -/
theorem connect_again {config : FcgiPluginConfig} {s : ServerState}
    (h : Consistent config s) {i : InterceptId} {c : ConnId}
    (hr : s.Registered (s.conns c).requestId i c) :
    ((s.unregister (s.conns c).requestId).connect i).conns c = s.conns c :=
  connect_conns (h.unregister _) i (h.entry_mem hr) (h.entry_busy hr)

end ServerState

/-- Both halves of the invariant. -/
structure Dispatching (s : ServerState) : Prop where
  covered : s.Covered fun _ => False
  served : s.Served

namespace Dispatching

variable {config : FcgiPluginConfig} {s : ServerState}

theorem connect (h : Consistent config s) (hd : Dispatching s)
    (hpool : 1 ≤ s.pool.maxConn) (i : InterceptId) :
    Dispatching (s.connect i) :=
  ⟨hd.covered.connect h i, fun _ => ServerState.connect_busy h hpool hd.covered i⟩

/-- `reConnect` and the loss of the old connection. -/
theorem again (h : Consistent config s) (hd : Dispatching s) {c : ConnId}
    {i : InterceptId} (hr : s.Registered (s.conns c).requestId i c)
    (hserves : s.KeepsBusy c ∨ s.RetryServes c)
    (hcons : Consistent config
      ((s.unregister (s.conns c).requestId).connect i)) :
    Dispatching (((s.unregister (s.conns c).requestId).connect
      i).closeConnection c) := by
  have hconn := ServerState.connect_again h hr
  have hmem : c ∈ ((s.unregister (s.conns c).requestId).connect
      i).pool.connections := by
    rw [← hcons.alive_iff, hconn, h.alive_iff]
    exact h.entry_mem hr
  constructor
  · have hcov := (hd.covered.unregister hr).connect (h.unregister _) i
    refine ServerState.Covered.connectionClosed ?_
      (s := ServerState.setConn _ c _) hcov
    intro j d hr'
    rw [ServerState.setConn_conns_self] at hr'
    exact hcons.owner c hmem hr'
  · intro hqueue
    rcases hserves with hkeeps | hcan | ⟨hnil, hfull⟩
    · obtain ⟨id, j, d, hne, hr'⟩ := hkeeps.registered
      refine ⟨id, j, d, ServerState.registered_closeConnection.mpr ⟨?_, ?_⟩⟩
      · rwa [hconn]
      · exact ServerState.registered_connect (h.unregister _) i
          (ServerState.registered_unregister.mpr ⟨hne, hr'⟩)
    · have hcan' : (s.unregister (s.conns c).requestId).CanDispatch := hcan
      obtain ⟨⟨d, hr'⟩, -⟩ := ServerState.connect_dispatched i hcan'
      refine ⟨_, i, d, ServerState.registered_closeConnection.mpr ⟨?_, hr'⟩⟩
      rw [hconn]
      exact Nat.ne_of_lt (h.id_lt c)
    · have hfull : s.queue.isQueueFull = true := by
        rcases hfull with hfull | hget
        · exact hfull
        · exact absurd hr (ServerState.getIntercept_eq_none.mp hget i c)
      by_cases hcan : s.CanDispatch
      · have hcan' : (s.unregister (s.conns c).requestId).CanDispatch := hcan
        have hkept := (ServerState.connect_dispatched i hcan').2
        have hqueue' : ((s.unregister (s.conns c).requestId).connect
            i).queue.pendingList ≠ [] := hqueue
        rw [hkept] at hqueue'
        exact absurd hnil hqueue'
      · have hcan' : ¬ (s.unregister (s.conns c).requestId).CanDispatch := hcan
        have hqueue' : ((s.unregister (s.conns c).requestId).connect
            i).queue.pendingList ≠ [] := hqueue
        rw [ServerState.connect_waits i hcan'] at hqueue'
        have hdrop : (s.queue.addToQueue i).pendingList ≠ [] := hqueue'
        rw [RequestQueue.addToQueue, if_pos hfull] at hdrop
        exact absurd hnil hdrop

theorem finish (hd : Dispatching s) {s₁ : ServerState} (halike : s.Alike s₁)
    (hcons : Consistent config s₁) {id : Nat} {i : InterceptId} {c : ConnId}
    (hr : s.Registered id i c) :
    Dispatching (((s₁.unregister id).releaseConnection c).connectNext) := by
  have hr₁ := halike.registered.mpr hr
  have hmem := hcons.entry_mem hr₁
  have hfree := hcons.freeConn_unregister hr₁
  have hun := hcons.unregister id
  have hcov := ((hd.covered.alike halike).unregister hr₁).releaseConnection hun
  exact ⟨hcov.connectNext (hun.releaseConnection hfree hmem),
    ServerState.connectNext_served
      (ServerState.canDispatch_releaseConnection hun hmem)⟩

/-- Every event that strands nobody keeps the invariant. -/
theorem step {e : Event} {s' : ServerState} (h : Consistent config s)
    (hd : Dispatching s) (hpool : 1 ≤ s.pool.maxConn) (hexists : Exists s e)
    (hnone : s.StrandsNone e) (heffect : Effect config s e s') : Dispatching s' := by
  cases heffect with
  | quiet halike =>
      refine ⟨hd.covered.alike halike, ?_⟩
      intro hqueue
      rw [halike.queue] at hqueue
      obtain ⟨id, i, c, hr⟩ := hd.served hqueue
      exact ⟨id, i, c, halike.registered.mpr hr⟩
  | @connect i txn requestId =>
      have hset : Consistent config
          (s.setIntercept i (ServerIntercept.new txn requestId)) :=
        h.setIntercept_free (h.freeIntercept_new hexists) rfl
      have hd' : Dispatching
          (s.setIntercept i (ServerIntercept.new txn requestId)) :=
        ⟨hd.covered, hd.served⟩
      exact hd'.connect hset hpool i
  | @again c event i hr hagain hcons =>
      refine hd.again h hr ?_ hcons
      cases event with
      | netConnectFailed => exact hnone
      | eos =>
          simp only [ServerState.redispatched] at hagain
          split at hagain
          · contradiction
          · next hearly =>
              simp only [ServerState.StrandsNone, if_neg hearly] at hnone
              exact hnone
      | netConnect | readReady | readComplete | writeReady | writeComplete
      | error => contradiction
  | @lost c event s₁ halike hcons hid hnoentry =>
      have hrest : ∀ {id i d}, s.Registered id i d →
          (s₁.connectionClosed c).Registered id i d := by
        intro id i d hr
        refine ServerState.registered_connectionClosed.mpr
          ⟨?_, halike.registered.mpr hr⟩
        rw [hid]
        rintro rfl
        exact hnoentry i d hr
      constructor
      · refine ServerState.Covered.connectionClosed ?_
          ((hd.covered.alike halike).mono fun _ hfalse => hfalse.elim)
        intro i d hr
        rw [hid] at hr
        exact absurd (halike.registered.mp hr) (hnoentry i d)
      · intro hqueue
        have hqueue' : s₁.queue.pendingList ≠ [] := hqueue
        rw [halike.queue] at hqueue'
        obtain ⟨id, i, d, hr⟩ := hd.served hqueue'
        exact ⟨id, i, d, hrest hr⟩
  | @fail c event i s₁ halike hcons hid hr hfails hended =>
      have hkeeps : s.KeepsBusy c ∨ s.queue.pendingList = [] := by
        rcases hfails with rfl | ⟨rfl, hlate⟩
        · exact hnone
        · simp only [ServerState.StrandsNone, if_pos hlate] at hnone
          exact hnone
      constructor
      · refine ServerState.Covered.connectionClosed ?_
          ((hd.covered.alike halike).mono fun _ hfalse => hfalse.elim)
        intro j d hr'
        rw [hid] at hr'
        have heq := hr.symm.trans (halike.registered.mp hr')
        simp only [Option.some.injEq, Prod.mk.injEq] at heq
        exact heq.2.symm
      · intro hqueue
        have hqueue' : s₁.queue.pendingList ≠ [] := hqueue
        rw [halike.queue] at hqueue'
        rcases hkeeps with hkeeps | hnil
        · obtain ⟨id, j, d, hne, hr'⟩ := hkeeps.registered
          refine ⟨id, j, d, ServerState.registered_connectionClosed.mpr
            ⟨?_, halike.registered.mpr hr'⟩⟩
          rwa [hid]
        · exact absurd hnil hqueue'
  | finish halike hcons hr _ => exact hd.finish halike hcons hr

end Dispatching

/-- Events for objects that exist, none of which strands a request. -/
def KeepsServing (s : ServerState) (e : Event) : Prop :=
  Exists s e ∧ s.StrandsNone e

instance (s : ServerState) : (e : Event) → Decidable (s.StrandsNone e)
  | .connection _ .netConnectFailed =>
      inferInstanceAs (Decidable (_ = false ∨ (_ ∨ _) ∨ _ ∧ _))
  | .connection c .eos =>
      inferInstanceAs (Decidable (_ = false ∨
        if (s.conns c).writeio.readEnable then _ = [] else (_ ∨ _) ∨ _ ∧ _))
  | .connection _ .error => inferInstanceAs (Decidable (_ = false ∨ _ = []))
  | .connection _ .netConnect | .connection _ (.readReady _)
  | .connection _ .readComplete | .connection _ .writeReady
  | .connection _ .writeComplete | .connect .. | .destroy .. | .input ..
  | .respond .. => inferInstanceAs (Decidable True)

instance (s : ServerState) (e : Event) : Decidable (KeepsServing s e) :=
  inferInstanceAs (Decidable (_ ∧ _))

theorem dispatching_of_reach {parse : MimeHdrParse} {config : FcgiPluginConfig}
    {s : ServerState} (hpool : 1 ≤ (ServerState.new config).pool.maxConn)
    (hreach : Transition.Reach (workerThread parse config) KeepsServing s)
    (hids : s.issued < 2 ^ 32 - 1) : Dispatching s := by
  refine @Transition.Reach.invariant_while _ _ (workerThread parse config)
    KeepsServing Dispatching (fun s => s.issued < 2 ^ 32 - 1) ?_ ?_ ?_ s hreach
    hids
  · intro s e s' hstep hlt
    exact Nat.lt_of_le_of_lt (ServerState.step_issued hstep) hlt
  · rintro s rfl
    constructor
    · intro c hc
      exact absurd hc List.not_mem_nil
    · intro hqueue
      exact absurd rfl hqueue
  · intro s e s' hs hd hg hlt hstep
    have hle : s.issued < 2 ^ 32 - 1 :=
      Nat.lt_of_le_of_lt (ServerState.step_issued hstep) hlt
    have h := consistent_of_reach (fun _ _ hg => hg.1) hs hle
    rw [← h.maxConn_eq] at hpool
    exact hd.step h hpool hg.1 hg.2 (.of_step h hg.1 hstep hlt)

/-- As long as no event takes the last connection in use from those who wait,
a request in the queue means that a connection of the pool is in use. -/
theorem registered_of_queued (parse : MimeHdrParse) (config : FcgiPluginConfig)
    (hpool : 1 ≤ (ServerState.new config).pool.maxConn) (s : ServerState)
    (hreach : Transition.Reach (workerThread parse config) KeepsServing s)
    (hids : s.issued < 2 ^ 32 - 1) (hqueue : s.queue.pendingList ≠ []) :
    ∃ id i c, s.Registered id i c ∧ c ∈ s.pool.connections := by
  have h := consistent_of_reach (fun _ _ hg => hg.1) hreach hids
  obtain ⟨id, i, c, hr⟩ :=
    (dispatching_of_reach hpool hreach hids).served hqueue
  exact ⟨id, i, c, hr, h.entry_mem hr⟩

namespace StrandedWitness

def txn : ClientRequest := RegistryWitness.txn (ascii "GET")

/-- The only connection fails while a second request waits for it. -/
def failedEvents : List Event :=
  [.connect 0 txn 7, .connect 1 txn 7, .connection 0 .netConnectFailed]

def stranded : ServerState :=
  Transition.after
    (workerThread DecoderSafetyWitness.parse RegistryWitness.config) Ats
    (ServerState.new RegistryWitness.config) failedEvents

theorem not_always_registered :
    ¬ ∀ parse config s, 1 ≤ (ServerState.new config).pool.maxConn →
      Transition.Reach (workerThread parse config) Ats s →
      s.issued < 2 ^ 32 - 1 → s.queue.pendingList ≠ [] →
      ∃ id i c, s.Registered id i c ∧ c ∈ s.pool.connections := by
  intro h
  have hreach : Transition.Reach
      (workerThread DecoderSafetyWitness.parse RegistryWitness.config) Ats
      stranded :=
    Transition.Reach.after (.init rfl) (by decide)
  obtain ⟨id, i, c, -, hmem⟩ := h _ _ stranded (by decide) hreach (by decide)
    (by decide)
  have hnone : stranded.pool.connections = [] := by decide
  rw [hnone] at hmem
  exact absurd hmem List.not_mem_nil

/-- A second request waits for the connection of the first one. -/
def waitingEvents : List Event :=
  [.connect 0 txn 7, .connect 1 txn 7, .connection 0 .netConnect]

def waiting : ServerState :=
  Transition.after
    (workerThread DecoderSafetyWitness.parse RegistryWitness.config)
    KeepsServing (ServerState.new RegistryWitness.config) waitingEvents

theorem registered_waiting :
    ∃ id i c, waiting.Registered id i c ∧ c ∈ waiting.pool.connections :=
  registered_of_queued DecoderSafetyWitness.parse RegistryWitness.config
    (by decide) waiting (Transition.Reach.after (.init rfl) (by decide))
    (by decide) (by decide)

end StrandedWitness

/-! ### Nobody is forgotten -/

namespace ServerState

/-- Every intercept that was connected waits, is registered or has an end, or
is one of `out`. -/
def Kept (out : InterceptId → Prop) (s : ServerState) : Prop :=
  ∀ i, (s.intercepts i).connected = true → out i ∨ i ∈ s.queue.pendingList ∨
    (s.intercepts i).ended = true ∨ ∃ id c, s.Registered id i c

namespace Kept

variable {config : FcgiPluginConfig} {s : ServerState}

/-- An intercept that finds a place is kept. -/
theorem connect (h : Consistent config s) {i : InterceptId}
    (hkept : s.Kept (· = i)) (hplace : s.HasPlace) :
    (s.connect i).Kept fun _ => False := by
  have hqueue : ∀ {j}, j ∈ s.queue.pendingList →
      j ∈ (s.connect i).queue.pendingList := by
    intro j hj
    by_cases hcan : s.CanDispatch
    · rw [(connect_dispatched i hcan).2]
      exact hj
    · rw [connect_waits i hcan]
      show j ∈ (s.queue.addToQueue i).pendingList
      unfold RequestQueue.addToQueue
      split
      · exact hj
      · exact List.mem_append_left _ hj
  have hself : i ∈ (s.connect i).queue.pendingList ∨
      ∃ id c, (s.connect i).Registered id i c := by
    by_cases hcan : s.CanDispatch
    · obtain ⟨⟨c, hr⟩, -⟩ := connect_dispatched i hcan
      exact .inr ⟨_, c, hr⟩
    · left
      have hopen : s.queue.isQueueFull = false := hplace.resolve_left hcan
      rw [connect_waits i hcan]
      show i ∈ (s.queue.addToQueue i).pendingList
      rw [RequestQueue.addToQueue, if_neg (by rw [hopen]; exact Bool.false_ne_true)]
      exact List.mem_append_right _ (List.mem_singleton_self i)
  intro j hj
  obtain ⟨hconnected, hended⟩ := connect_intercepts s i j
  rw [hconnected] at hj
  rw [hended]
  right
  rcases hkept j hj with rfl | hin | hend | ⟨id, c, hr⟩
  · rcases hself with hin | hr
    · exact .inl hin
    · exact .inr (.inr hr)
  · exact .inl (hqueue hin)
  · exact .inr (.inl hend)
  · exact .inr (.inr ⟨id, c, registered_connect h i hr⟩)

theorem connectNext (h : Consistent config s) (hcan : s.CanDispatch)
    (hkept : s.Kept fun _ => False) : s.connectNext.Kept fun _ => False := by
  unfold ServerState.connectNext RequestQueue.popFromQueue
  cases hqueue : s.queue.pendingList with
  | nil => exact hkept
  | cons i rest =>
      obtain ⟨hpop, -, -⟩ := h.pop hqueue
      refine Kept.connect hpop ?_ (.inl hcan)
      intro j hj
      rcases hkept j hj with hfalse | hin | hend | hr
      · exact hfalse.elim
      · rw [hqueue] at hin
        rcases List.mem_cons.mp hin with heq | hrest
        · exact .inl heq
        · exact .inr (.inl hrest)
      · exact .inr (.inr (.inl hend))
      · exact .inr (.inr (.inr hr))

theorem alike {out : InterceptId → Prop} {s₁ : ServerState}
    (halike : s.Alike s₁) (hkept : s.Kept out) : s₁.Kept out := by
  intro i hi
  rw [halike.connected] at hi
  rw [halike.queue]
  rcases hkept i hi with hout | hin | hend | ⟨id, c, hr⟩
  · exact .inl hout
  · exact .inr (.inl hin)
  · exact .inr (.inr (.inl (halike.ended i hend)))
  · exact .inr (.inr (.inr ⟨id, c, halike.registered.mpr hr⟩))

/-- The intercept of an erased entry is out. -/
theorem unregister {id : Nat} {i : InterceptId} {c : ConnId}
    (hr : s.Registered id i c) (hkept : s.Kept fun _ => False) :
    (s.unregister id).Kept (· = i) := by
  intro j hj
  rcases hkept j hj with hfalse | hin | hend | ⟨id', d, hr'⟩
  · exact hfalse.elim
  · exact .inr (.inl hin)
  · exact .inr (.inr (.inl hend))
  · by_cases hid : id = id'
    · rw [← hid] at hr'
      have heq := hr.symm.trans hr'
      simp only [Option.some.injEq, Prod.mk.injEq] at heq
      exact .inl heq.1.symm
    · exact .inr (.inr (.inr
        ⟨id', d, registered_unregister.mpr ⟨hid, hr'⟩⟩))

/-- An intercept with an end needs no place. -/
theorem of_ended {i : InterceptId} (hkept : s.Kept (· = i))
    (hended : (s.intercepts i).ended = true) : s.Kept fun _ => False := by
  intro j hj
  rcases hkept j hj with rfl | hrest
  · exact .inr (.inr (.inl hended))
  · exact .inr hrest

theorem releaseConnection (h : Consistent config s) (c : ConnId)
    (hkept : s.Kept fun _ => False) :
    (s.releaseConnection c).Kept fun _ => False := by
  intro i hi
  rw [releaseConnection_intercepts] at hi ⊢
  rw [releaseConnection_queue]
  rcases hkept i hi with hfalse | hin | hend | ⟨id, d, hr⟩
  · exact hfalse.elim
  · exact .inr (.inl hin)
  · exact .inr (.inr (.inl hend))
  · exact .inr (.inr (.inr
      ⟨id, d, (registered_releaseConnection h c).mpr hr⟩))

/-- Closing a connection whose id leads to no entry, or to one whose request
has an end. -/
theorem connectionClosed {c : ConnId}
    (hended : ∀ i d, s.Registered (s.conns c).requestId i d →
      (s.intercepts i).ended = true)
    (hkept : s.Kept fun _ => False) :
    (s.connectionClosed c).Kept fun _ => False := by
  intro i hi
  rcases hkept i hi with hfalse | hin | hend | ⟨id, d, hr⟩
  · exact hfalse.elim
  · exact .inr (.inl hin)
  · exact .inr (.inr (.inl hend))
  · by_cases hid : (s.conns c).requestId = id
    · rw [← hid] at hr
      exact .inr (.inr (.inl (hended i d hr)))
    · exact .inr (.inr (.inr
        ⟨id, d, registered_connectionClosed.mpr ⟨hid, hr⟩⟩))

end Kept

/-- The event finds a place for the request it dispatches, and does not
destroy an intercept that waits. -/
def FindsPlace (s : ServerState) : Event → Prop
  | .connect .. => s.HasPlace
  | .connection c event =>
      (s.redispatched (.connection c event)).isSome = true → s.HasPlace
  | .destroy i => i ∉ s.queue.pendingList
  | _ => True

instance (s : ServerState) : (e : Event) → Decidable (s.FindsPlace e)
  | .connect .. => inferInstanceAs (Decidable (_ ∨ _))
  | .connection .. => inferInstanceAs (Decidable (_ → _ ∨ _))
  | .destroy .. => inferInstanceAs (Decidable (¬ _))
  | .input .. | .respond .. => inferInstanceAs (Decidable True)

end ServerState

/-- A transaction's own events, each of which finds a place. -/
def KeepsAll (s : ServerState) (e : Event) : Prop :=
  Exists s e ∧ Owns s e ∧ s.FindsPlace e

instance (s : ServerState) (e : Event) : Decidable (KeepsAll s e) :=
  inferInstanceAs (Decidable (_ ∧ _ ∧ _))

/-- The response is still open. -/
def ServerIntercept.Open (x : ServerIntercept) : Prop :=
  x.ended = false ∧ x.outputCompleteState = false

/-- A request that waits or is registered is open, and its connection is not
complete. -/
def openRequests : LocalPredicates where
  ever _ := True
  waiting := ServerIntercept.Open
  idle _ := True
  bound _ conn x := x.Open ∧ conn.state ≠ .complete

theorem ServerIntercept.Open.createFCGIClient {x : ServerIntercept}
    (h : x.Open) (config : FcgiPluginConfig) {conn : ServerConnection}
    (hready : conn.state = .ready) :
    (conn.createFCGIClient config x).2.Open ∧
      (conn.createFCGIClient config x).1.state ≠ .complete := by
  constructor
  · simp only [ServerConnection.createFCGIClient]
    split <;> exact h
  · rw [ServerConnection.createFCGIClient_ready config x hready]
    intro heq
    contradiction

theorem openRequests_preserved (parse : MimeHdrParse)
    (config : FcgiPluginConfig) :
    openRequests.Preserved parse config KeepsAll where
  new txn requestId := ⟨trivial, rfl, rfl⟩
  bind_new _ hwaiting _ := ⟨trivial, hwaiting, ConnState.noConfusion⟩
  bind_idle {id _ x} _ _ _ hwaiting := by
    have hnew : ({ x with requestId := id }).Open := hwaiting
    exact ⟨trivial, hnew.createFCGIClient config rfl⟩
  net_connect _ _ _ _ hbound :=
    ⟨trivial, hbound.1.createFCGIClient config rfl⟩
  net_connect_idle _ _ := trivial
  retry _ _ _ _ hbound := hbound.1
  fail _ _ := ⟨trivial, trivial⟩
  read {_ _ _ _ _ responseStatus _ _} _ _ _ _ hbound hrun := by
    refine ⟨trivial, ?_⟩
    cases responseStatus with
    | true => exact ⟨trivial, fun _ => trivial⟩
    | false =>
        rcases ServerConnection.interceptTransferData_eq_some hrun with
          ⟨-, -, -, rfl, rfl⟩ | ⟨client, t, -, -, -, rfl, rfl⟩
        · exact hbound
        · exact hbound
  read_idle _ _ := trivial
  read_complete _ _ _ _ := ⟨trivial, fun _ => trivial⟩
  open_read hread := by
    obtain ⟨-, rfl⟩ := ServerConnection.read_eq_some.mp hread
    exact ⟨fun hbound => hbound, fun _ => trivial⟩
  input {_ _ _ _ input _} _ _ _ _ hbound hwrite := by
    obtain ⟨client, client', buf, -, -, -, -, rfl⟩ :=
      ServerConnection.write_eq_some.mp hwrite
    cases input <;> exact ⟨trivial, hbound⟩
  input_kept {_ _ input} _ _ := by
    cases input <;> exact ⟨trivial, fun _ hwaiting => hwaiting⟩
  destroy hguard _ := ⟨trivial, fun hin => absurd hin hguard.2.2⟩
  abort _ _ _ hbound := by
    rw [if_neg (by rw [hbound.1.2]; exact Bool.false_ne_true)]
    exact fun _ => trivial
  respond _ := ⟨fun _ hbound => hbound, fun _ => trivial⟩

/-- Every event that finds a place keeps every request. -/
theorem ServerState.Kept.step {config : FcgiPluginConfig} {s s' : ServerState}
    {e : Event} (h : Consistent config s) (hL : openRequests.Holds s)
    (hkept : s.Kept fun _ => False) (hguard : KeepsAll s e)
    (heffect : Effect config s e s') : s'.Kept fun _ => False := by
  cases heffect with
  | quiet halike => exact hkept.alike halike
  | @connect i txn requestId =>
      have hset : Consistent config
          (s.setIntercept i (ServerIntercept.new txn requestId)) :=
        h.setIntercept_free (h.freeIntercept_new hguard.1) rfl
      refine Kept.connect hset ?_ hguard.2.2
      intro j hj
      by_cases hji : j = i
      · exact .inl hji
      · rw [setIntercept_intercepts_of_ne s _ hji] at hj ⊢
        exact .inr ((hkept j hj).resolve_left id)
  | @again c event i hr hagain hcons =>
      have hplace : s.HasPlace := hguard.2.2 (by rw [hagain]; rfl)
      have hnext := Kept.connect (h.unregister (s.conns c).requestId)
        (hkept.unregister hr) hplace
      refine Kept.connectionClosed (s := setConn _ c _) ?_ hnext
      intro j d hr'
      rw [setConn_conns_self] at hr'
      -- the new entry is not under the id of the old connection
      have hid : ((s.unregister (s.conns c).requestId).connect i).Registered
          (((s.unregister (s.conns c).requestId).connect i).conns
            c).requestId j d := hr'
      rw [connect_again h hr] at hid
      rcases registered_of_connect i hid with hnew | hold
      · exact absurd (h.id_lt c) (by rw [← hnew]; exact Nat.lt_irrefl _)
      · exact absurd rfl (registered_unregister.mp hold).1
  | @lost c event s₁ halike hcons hid hnone =>
      refine Kept.connectionClosed ?_ (hkept.alike halike)
      intro i d hr
      rw [hid] at hr
      exact absurd (halike.registered.mp hr) (hnone i d)
  | @fail c event i s₁ halike hcons hid hr hfails hended =>
      refine Kept.connectionClosed ?_ (hkept.alike halike)
      intro j d hr'
      rw [hid] at hr'
      have heq := hr.symm.trans (halike.registered.mp hr')
      simp only [Option.some.injEq, Prod.mk.injEq] at heq
      obtain ⟨⟨-, hopen⟩, hstate⟩ := hL.bound hr
      rw [← heq.1]
      exact hended hstate hopen
  | @finish _ id i c s₁ halike hcons hr hended =>
      have hr₁ := halike.registered.mpr hr
      have hun := hcons.unregister id
      have hmem := hcons.entry_mem hr₁
      have hgone := ((hkept.alike halike).unregister hr₁).of_ended
        (hended hguard.2.1)
      exact (hgone.releaseConnection hun c).connectNext
        (hun.releaseConnection (hcons.freeConn_unregister hr₁) hmem)
        (canDispatch_releaseConnection hun hmem)

/-- The situations of an accepted request: exactly one is the case. -/
def ServerState.Accounted (s : ServerState) (i : InterceptId) : Prop :=
  (∃ id c, s.Registered id i c) ∧ i ∉ s.queue.pendingList ∧
      (s.intercepts i).ended = false ∨
    (∀ id c, ¬ s.Registered id i c) ∧ i ∈ s.queue.pendingList ∧
      (s.intercepts i).ended = false ∨
    (∀ id c, ¬ s.Registered id i c) ∧ i ∉ s.queue.pendingList ∧
      (s.intercepts i).ended = true

/-- As long as every dispatch finds a place and no waiting intercept is
destroyed, each accepted request is registered, waits or has an end, and only
one of these. -/
theorem accounted_of_reach (parse : MimeHdrParse) (config : FcgiPluginConfig)
    (s : ServerState)
    (hreach : Transition.Reach (workerThread parse config) KeepsAll s)
    (hids : s.issued < 2 ^ 32 - 1) (i : InterceptId)
    (hconnected : (s.intercepts i).connected = true) : s.Accounted i := by
  have h := consistent_of_reach (fun _ _ hg => hg.1) hreach hids
  have hL := LocalPredicates.holds_of_reach (fun _ _ hg => ⟨hg.1, hg.2.1⟩)
    (openRequests_preserved parse config) hreach hids
  have hkept : s.Kept fun _ => False := by
    refine @Transition.Reach.invariant_while _ _ (workerThread parse config)
      KeepsAll (ServerState.Kept fun _ => False)
      (fun s => s.issued < 2 ^ 32 - 1) ?_ ?_ ?_ s hreach hids
    · intro s e s' hstep hlt
      exact Nat.lt_of_le_of_lt (ServerState.step_issued hstep) hlt
    · rintro s rfl j hj
      exact absurd hj Bool.false_ne_true
    · intro s e s' hs hk hg hlt hstep
      have hle : s.issued < 2 ^ 32 - 1 :=
        Nat.lt_of_le_of_lt (ServerState.step_issued hstep) hlt
      have hc := consistent_of_reach (fun _ _ hg => hg.1) hs hle
      have hopen := LocalPredicates.holds_of_reach
        (fun _ _ hg => ⟨hg.1, hg.2.1⟩) (openRequests_preserved parse config)
        hs hle
      exact hk.step hc hopen hg (.of_step hc hg.1 hstep hlt)
  rcases hkept i hconnected with hfalse | hin | hended | ⟨id, c, hr⟩
  · exact hfalse.elim
  · exact .inr (.inl ⟨fun id c hr => h.queue_free i hin hr, hin,
      (hL.waiting i hin).1⟩)
  · refine .inr (.inr ⟨?_, ?_, hended⟩)
    · intro id c hr
      rw [(hL.bound hr).1.1] at hended
      contradiction
    · intro hin
      rw [(hL.waiting i hin).1] at hended
      contradiction
  · exact .inl ⟨⟨id, c, hr⟩, fun hin => h.queue_free i hin hr,
      (hL.bound hr).1.1⟩

namespace LostWitness

/-- One connection, and one request may wait for it. -/
def config : FcgiPluginConfig :=
  { RegistryWitness.config with requestQueueSize := 1 }

def txn : ClientRequest := RegistryWitness.txn (ascii "GET")

/-- The third request meets a full queue. -/
def fullEvents : List Event :=
  [.connect 0 txn 7, .connect 1 txn 7, .connect 2 txn 7]

def lost : ServerState :=
  Transition.after (workerThread DecoderSafetyWitness.parse config) Ats
    (ServerState.new config) fullEvents

theorem not_always_accounted :
    ¬ ∀ parse config s,
      Transition.Reach (workerThread parse config) Ats s →
      s.issued < 2 ^ 32 - 1 → ∀ i, (s.intercepts i).connected = true →
      s.Accounted i := by
  intro h
  have hreach : Transition.Reach
      (workerThread DecoderSafetyWitness.parse config) Ats lost :=
    Transition.Reach.after (.init rfl) (by decide)
  have haccounted := h _ _ lost hreach (by decide) 2 (by decide)
  have hqueue : 2 ∉ lost.queue.pendingList := by decide
  have hopen : (lost.intercepts 2).ended = false := by decide
  have hnone : ∀ id c, ¬ lost.Registered id 2 c := by
    intro id c hr
    have hcons : Consistent config lost :=
      consistent_of_reach (fun _ _ he => he.1) hreach (by decide)
    have hid := hcons.entry_intercept hr
    have hlate : ¬ (lost.intercepts 2).requestId < lost.nextId := by decide
    rw [hid] at hlate
    exact hlate (hcons.entry_id hr).2
  rcases haccounted with ⟨⟨id, c, hr⟩, -⟩ | ⟨-, hin, -⟩ | ⟨-, -, hended⟩
  · exact hnone id c hr
  · exact hqueue hin
  · rw [hopen] at hended
    contradiction

/-- The second request waits until the first one is abandoned. -/
def abandonedEvents : List Event :=
  [.connect 0 txn 7, .connect 1 txn 7, .connection 0 .netConnect, .destroy 0]

def final : ServerState :=
  Transition.after (workerThread DecoderSafetyWitness.parse config) KeepsAll
    (ServerState.new config) abandonedEvents

theorem accounted_final : final.Accounted 1 :=
  accounted_of_reach DecoderSafetyWitness.parse config final
    (Transition.Reach.after (.init rfl) (by decide)) (by decide) 1 (by decide)

end LostWitness

end AtsFastcgi
