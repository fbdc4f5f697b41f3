/-
The plugin on several worker threads, thread by thread.  As long as what happens
to an object happens on its thread, a thread sees of its own objects what it
would see if it were alone and others only took ids and connections.
-/
import AtsFastcgi.LockStep
import AtsFastcgi.WorkerThreads

namespace AtsFastcgi

open ServerState (ConnEvent Event)

/-! ### A thread among others -/

/-- Other threads have taken request ids and made connections. -/
def ServerState.skip (s : ServerState) (ids conns : Nat) : ServerState :=
  { s with
    nextId := (s.nextId + ids) % 2 ^ 32
    issued := s.issued + ids
    nextConn := s.nextConn + conns }

/-- What happens to a thread: its own events, and what others take. -/
inductive LoneEvent where
  | own (e : Event)
  | others (ids conns : Nat)

/-- A worker thread of which the others are seen only by what they take. -/
def loneThread (parse : MimeHdrParse) (config : FcgiPluginConfig) :
    Transition.System ServerState LoneEvent where
  init s := s = ServerState.new config
  step s
    | .own e => s.step parse e
    | .others ids conns => some (s.skip ids conns)

/-- The guard on the events of the thread. -/
def Alone (guard : ServerState → Event → Prop) (s : ServerState) :
    LoneEvent → Prop
  | .own e => guard s e
  | .others _ _ => True

section Skip

variable {config : FcgiPluginConfig} {s : ServerState} {ids conns : Nat}

theorem Consistent.skip (h : Consistent config s)
    (hids : s.issued + ids < 2 ^ 32 - 1) :
    Consistent config (s.skip ids conns) := by
  have hnext : (s.skip ids conns).nextId = s.nextId + ids := by
    show (s.nextId + ids) % 2 ^ 32 = s.nextId + ids
    apply Nat.mod_eq_of_lt
    rw [h.nextId_eq]
    omega
  have hle : s.nextId ≤ (s.skip ids conns).nextId := by
    rw [hnext]
    exact Nat.le_add_right _ _
  exact { h with
    nextId_eq := by
      rw [hnext, h.nextId_eq]
      exact Nat.add_right_comm _ _ _
    conn_lt := fun c hc =>
      Nat.lt_of_lt_of_le (h.conn_lt c hc) (Nat.le_add_right _ _)
    id_lt := fun c => Nat.lt_of_lt_of_le (h.id_lt c) hle
    entry_id := fun hr =>
      ⟨(h.entry_id hr).1, Nat.lt_of_lt_of_le (h.entry_id hr).2 hle⟩
    owned_lt := fun i hi => Nat.lt_of_lt_of_le (h.owned_lt i hi) hle
    written_lt := fun c w hw => Nat.lt_of_lt_of_le (h.written_lt c w hw) hle }

theorem Scheduled.skip (h : Scheduled config s)
    (hids : s.issued + ids < 2 ^ 32 - 1) :
    Scheduled config (s.skip ids conns) :=
  ⟨h.consistent.skip hids, h.covered⟩

end Skip

/-! ### The events of a thread -/

/-- Events come to objects that exist, and a transaction destroys and feeds the
intercepts it was given. -/
def Addressed (s : ServerState) (e : Event) : Prop := Exists s e ∧ Owns s e

instance (s : ServerState) (e : Event) : Decidable (Addressed s e) :=
  inferInstanceAs (Decidable (_ ∧ _))

instance (mine : InterceptId → Prop) [DecidablePred mine] (s : ServerState) :
    (e : Event) → Decidable (OfThread mine s e)
  | .connect i _ _ | .destroy i | .input i _ =>
      inferInstanceAs (Decidable (mine i))
  | .connection .. | .respond .. => inferInstanceAs (Decidable (_ ∈ _))

/-- A guard that looks at the objects of the event only. -/
def LooksLocally (guard : ServerState → Event → Prop) : Prop :=
  ∀ {mine : InterceptId → Prop} {s r : ServerState} {e : Event},
    Mirrors mine s r → OfThread mine s e → guard s e → guard r e

theorem exists_looksLocally : LooksLocally Exists := by
  intro mine s r e h hown hexists
  cases e with
  | connect i txn requestId =>
      rw [Exists, h.intercepts i hown]
      exact hexists
  | connection c event =>
      rw [Exists, h.conns c hown]
      exact hexists
  | destroy i =>
      rw [Exists, h.intercepts i hown]
      exact hexists
  | input i input =>
      rw [Exists, h.intercepts i hown]
      exact hexists
  | respond c rec =>
      rw [Exists, h.conns c hown]
      exact hexists

theorem addressed_looksLocally : LooksLocally Addressed := by
  intro mine s r e h hown haddressed
  refine ⟨exists_looksLocally h hown haddressed.1, ?_⟩
  have howns := haddressed.2
  cases e with
  | destroy i =>
      rw [Owns, h.intercepts i hown]
      exact howns
  | input i input =>
      rw [Owns, h.intercepts i hown]
      exact howns
  | connect | connection | respond => trivial

/-- An event comes on the thread of its object, and passes the guard there. -/
def OnOwnThread {n : Nat} (home : InterceptId → Fin n)
    (guard : ServerState → Event → Prop) (p : PluginState n)
    (e : Fin n × Event) : Prop :=
  OfThread (home · = e.1) (p.seenBy e.1) e.2 ∧ guard (p.seenBy e.1) e.2

instance {n : Nat} (home : InterceptId → Fin n)
    (guard : ServerState → Event → Prop) [∀ s e, Decidable (guard s e)]
    (p : PluginState n) (e : Fin n × Event) :
    Decidable (OnOwnThread home guard p e) :=
  inferInstanceAs (Decidable (_ ∧ _))

/-! ### All threads together -/

section Views

variable {n : Nat} {home : InterceptId → Fin n} {config : FcgiPluginConfig}
  {p : PluginState n} {r : Fin n → ServerState}

/-- Each thread sees of its own objects what is in a state of its own, and no
connection is in two pools. -/
structure Views (home : InterceptId → Fin n) (config : FcgiPluginConfig)
    (p : PluginState n) (r : Fin n → ServerState) : Prop where
  lockStep : ∀ t, LockStep (home · = t) (p.seenBy t) (p.seenBy t) (r t)
  scheduled : ∀ t, Scheduled config (r t)
  apart : ∀ {t u c}, c ∈ (p.own t).connectionPool.connections →
    c ∈ (p.own u).connectionPool.connections → t = u
  fault : p.shared.fault = false

namespace Views

theorem init (home : InterceptId → Fin n) (config : FcgiPluginConfig) :
    Views home config ⟨{ config }, fun _ => ThreadData.new config⟩
      fun _ => ServerState.new config where
  lockStep t := by
    refine ⟨?_, .refl _ _, ?_⟩
    · constructor <;>
        simp [PluginState.seenBy, SharedState.on, ThreadData.new,
          ServerState.new, ServerState.Registered]
    · constructor <;>
        simp [PluginState.seenBy, SharedState.on, ThreadData.new,
          ServerState.new, ServerState.Registered]
  scheduled _ := .init config
  apart hc := absurd hc List.not_mem_nil
  fault := rfl

/-- An entry belongs to the thread of its intercept. -/
theorem registered (h : Views home config p r) {id : Nat} {i : InterceptId}
    {c : ConnId} {t : Fin n} (hr : (p.seenBy t).Registered id i c) :
    (r (home i)).Registered id i c :=
  (h.lockStep (home i)).mirrors.registered.mpr ⟨rfl, hr⟩

theorem nextId (h : Views home config p r) (t : Fin n) :
    p.shared.nextId = p.shared.issued + 1 := by
  have hnext := (h.scheduled t).consistent.nextId_eq
  rw [(h.lockStep t).mirrors.nextId, (h.lockStep t).mirrors.issued] at hnext
  exact hnext

theorem idFree (h : Views home config p r) (t : Fin n) :
    (p.seenBy t).IdFree := by
  constructor
  · show 0 < p.shared.nextId
    rw [h.nextId t]
    exact Nat.succ_pos _
  · intro i c hr
    have hlt := ((h.scheduled (home i)).consistent.entry_id
      (h.registered hr)).2
    rw [(h.lockStep (home i)).mirrors.nextId] at hlt
    exact Nat.lt_irrefl _ hlt

variable {parse : MimeHdrParse} {t : Fin n} {e : Event} {s' : ServerState}

/-- The event does in the state of the thread what it does in the plugin. -/
theorem own_step (h : Views home config p r)
    (hown : OfThread (home · = t) (p.seenBy t) e)
    (haddressed : Addressed (p.seenBy t) e)
    (hstep : (p.seenBy t).step parse e = some s')
    (hids : s'.issued < 2 ^ 32 - 1) :
    ∃ r', (r t).step parse e = some r' ∧ Scheduled config r' ∧
      LockStep (home · = t) (p.seenBy t) s' r' ∧
      ∃ starts, (r t).Numbers r' starts := by
  have hsched := h.scheduled t
  obtain ⟨r', hr', hlock⟩ := (h.lockStep t).step hsched.consistent (h.idFree t)
    hown haddressed.2 hstep
  have hexists := exists_looksLocally (h.lockStep t).mirrors hown haddressed.1
  have hids' : r'.issued < 2 ^ 32 - 1 := by
    rw [hlock.mirrors.issued]
    exact hids
  have hsched' := (dispatcher_simulation parse config).keeps hsched hexists
    hids' hr'
  have hperforms := ServerState.performs_step hsched.consistent hsched.covered
    hexists hr'
  exact ⟨r', hr', hsched', hlock, _, hperforms.numbers⟩

/-- What is registered anew has a new id. -/
theorem numbers (h : Views home config p r) {r' : ServerState}
    {starts : List InterceptId}
    (hlock : LockStep (home · = t) (p.seenBy t) s' r')
    (hnumbers : (r t).Numbers r' starts) :
    (p.seenBy t).Numbers s' starts where
  issued := by
    have hissued := hnumbers.issued
    rw [hlock.mirrors.issued, (h.lockStep t).mirrors.issued] at hissued
    exact hissued
  registered {id i c} hr := by
    by_cases hi : home i = t
    · rcases hnumbers.registered (hlock.mirrors.registered.mpr ⟨hi, hr⟩) with
        hold | ⟨k, hid, hk⟩
      · exact .inl ((h.lockStep t).mirrors.registered.mp hold).2
      · rw [(h.lockStep t).mirrors.issued] at hid
        exact .inr ⟨k, hid, hk⟩
    · exact .inl ((hlock.spares.registered hi).mp hr)

/-- What was registered before the event is all that is registered under the
ids of then. -/
theorem old_entry (h : Views home config p r) {r' : ServerState}
    {starts : List InterceptId}
    (hlock : LockStep (home · = t) (p.seenBy t) s' r')
    (hnumbers : (r t).Numbers r' starts) {id : Nat} {i : InterceptId}
    {c : ConnId} (hlt : id < p.shared.nextId) (hr : s'.Registered id i c) :
    (p.seenBy t).Registered id i c := by
  rcases (h.numbers hlock hnumbers).registered hr with hold | ⟨k, hid, -⟩
  · exact hold
  · have hissued : (p.seenBy t).issued = p.shared.issued := rfl
    rw [h.nextId t] at hlt
    omega

/-- The event leaves the connections of another thread alone. -/
theorem other_conns (h : Views home config p r) {r' : ServerState}
    (hlock : LockStep (home · = t) (p.seenBy t) s' r') {u : Fin n}
    (hu : u ≠ t) {c : ConnId}
    (hc : c ∈ (p.own u).connectionPool.connections) :
    s'.conns c = p.shared.conns c := by
  have hlt := (h.scheduled u).consistent.conn_lt c (by
    rw [(h.lockStep u).mirrors.pool]
    exact hc)
  rw [(h.lockStep u).mirrors.nextConn] at hlt
  exact hlock.spares.conns c (fun hin => hu (h.apart hc hin)) hlt

theorem other_mirrors (h : Views home config p r) {r' : ServerState}
    (hsched' : Scheduled config r')
    (hlock : LockStep (home · = t) (p.seenBy t) s' r')
    (hissued : p.shared.issued ≤ s'.issued) (hids : s'.issued < 2 ^ 32 - 1)
    (hfault : s'.fault = false) {u : Fin n} (hu : u ≠ t) :
    Mirrors (home · = u) (s'.shared.on (p.own u))
      ((r u).skip (s'.issued - p.shared.issued)
        (s'.nextConn - p.shared.nextConn)) := by
  have hview := (h.lockStep u).mirrors
  have hother : ∀ {i}, home i = u → home i ≠ t := by
    rintro i rfl
    exact hu
  exact {
    config := hview.config.trans hlock.spares.config.symm
    pool := hview.pool
    queue := hview.queue
    nextId := by
      show ((r u).nextId + (s'.issued - p.shared.issued)) % 2 ^ 32 = s'.nextId
      have hnext := hsched'.consistent.nextId_eq
      have hold : (r u).nextId = p.shared.nextId := hview.nextId
      rw [hlock.mirrors.nextId, hlock.mirrors.issued] at hnext
      rw [hold, h.nextId u, hnext]
      omega
    issued := by
      show (r u).issued + (s'.issued - p.shared.issued) = s'.issued
      have hold : (r u).issued = p.shared.issued := hview.issued
      rw [hold]
      exact Nat.add_sub_of_le hissued
    nextConn := by
      show (r u).nextConn + (s'.nextConn - p.shared.nextConn) = s'.nextConn
      have hold : (r u).nextConn = p.shared.nextConn := hview.nextConn
      rw [hold]
      exact Nat.add_sub_of_le hlock.spares.nextConn
    conns := fun c hc =>
      (hview.conns c hc).trans (h.other_conns hlock hu hc).symm
    intercepts := fun i hi => (hview.intercepts i hi).trans
      (hlock.spares.intercepts i (hother hi)).symm
    registered := by
      intro id i c
      refine hview.registered.trans (and_congr_right fun hi => ?_)
      exact (hlock.spares.registered (hother hi)).symm
    fault := (hview.fault.trans h.fault).trans hfault.symm }

theorem other_closed (h : Views home config p r) {r' : ServerState}
    {starts : List InterceptId}
    (hlock : LockStep (home · = t) (p.seenBy t) s' r')
    (hnumbers : (r t).Numbers r' starts) {u : Fin n} (hu : u ≠ t) :
    Closed (home · = u) (s'.shared.on (p.own u)) := by
  have hview := h.lockStep u
  have hcons := (h.scheduled u).consistent
  have hnext : (r u).nextId = p.shared.nextId := hview.mirrors.nextId
  exact {
    available := hview.closed.available
    queue := hview.closed.queue
    conn_id := fun c hc {i d} hr => by
      have hr' : s'.Registered (s'.conns c).requestId i d := hr
      have hlt := hcons.id_lt c
      rw [h.other_conns hlock hu hc] at hr'
      rw [hnext, hview.mirrors.conns c hc] at hlt
      exact hview.closed.conn_id c hc (h.old_entry hlock hnumbers hlt hr')
    owned_id := fun i hi howned {j d} hr => by
      have howned' : (s'.intercepts i).owned = true := howned
      have hr' : s'.Registered (s'.intercepts i).requestId j d := hr
      rw [hlock.spares.intercepts i fun ht => hu (hi.symm.trans ht)]
        at howned' hr'
      have hlt := hcons.owned_lt i (by
        rw [hview.mirrors.intercepts i hi]
        exact howned')
      rw [hnext, hview.mirrors.intercepts i hi] at hlt
      exact hview.closed.owned_id i hi howned'
        (h.old_entry hlock hnumbers hlt hr')
    zero := fun {i d} hr =>
      hview.closed.zero (h.old_entry hlock hnumbers (h.idFree t).1 hr) }

/-- What another thread sees after the event. -/
theorem other_step (h : Views home config p r) {r' : ServerState}
    {starts : List InterceptId} (hsched' : Scheduled config r')
    (hlock : LockStep (home · = t) (p.seenBy t) s' r')
    (hnumbers : (r t).Numbers r' starts) (hids : s'.issued < 2 ^ 32 - 1)
    (hfault : s'.fault = false) {u : Fin n} (hu : u ≠ t) :
    LockStep (home · = u) ((p.store t s').seenBy u) ((p.store t s').seenBy u)
        ((r u).skip (s'.issued - p.shared.issued)
          (s'.nextConn - p.shared.nextConn)) ∧
      Scheduled config ((r u).skip (s'.issued - p.shared.issued)
        (s'.nextConn - p.shared.nextConn)) := by
  have hissued' : p.shared.issued ≤ s'.issued := by
    rw [(h.numbers hlock hnumbers).issued]
    exact Nat.le_add_right _ _
  have hseen : (p.store t s').seenBy u = s'.shared.on (p.own u) := by
    rw [PluginState.seenBy, PluginState.store]
    simp only
    rw [Function.update_of_ne hu]
  rw [hseen]
  refine ⟨⟨?_, .refl _ _, ?_⟩, (h.scheduled u).skip ?_⟩
  · exact h.other_mirrors hsched' hlock hissued' hids hfault hu
  · exact h.other_closed hlock hnumbers hu
  · have hissued : (r u).issued = p.shared.issued :=
      (h.lockStep u).mirrors.issued
    rw [hissued, Nat.add_sub_of_le hissued']
    exact hids

/-- The states of the threads after an event of thread `t`. -/
theorem step (h : Views home config p r)
    (hown : OfThread (home · = t) (p.seenBy t) e)
    (haddressed : Addressed (p.seenBy t) e)
    (hstep : (p.seenBy t).step parse e = some s')
    (hids : s'.issued < 2 ^ 32 - 1) :
    ∃ r', (r t).step parse e = some r' ∧
      Views home config (p.store t s') (Function.update (fun u =>
        (r u).skip (s'.issued - p.shared.issued)
          (s'.nextConn - p.shared.nextConn)) t r') := by
  obtain ⟨r', hr', hsched', hlock, starts, hnumbers⟩ :=
    h.own_step hown haddressed hstep hids
  have hfault := (ServerState.step_eq_some.mp hstep).2
  have hself : (p.store t s').own t = s'.threadData :=
    PluginState.own_store_self p t s'
  have hother : ∀ {u}, u ≠ t → (p.store t s').own u = p.own u := fun hu =>
    Function.update_of_ne hu _ _
  -- a connection of the pool after the event is an old one of it or new
  have hmem : ∀ {u c}, u ≠ t → c ∈ s'.pool.connections →
      c ∉ (p.own u).connectionPool.connections := by
    intro u c hu hc hin
    rcases hlock.spares.connections c hc with hold | hnew
    · exact hu (h.apart hin hold)
    · have hlt := (h.scheduled u).consistent.conn_lt c (by
        rw [(h.lockStep u).mirrors.pool]
        exact hin)
      rw [(h.lockStep u).mirrors.nextConn] at hlt
      exact Nat.not_lt.mpr hnew hlt
  refine ⟨r', hr', ?_, ?_, ?_, hfault⟩
  · intro u
    by_cases hu : u = t
    · rw [hu, Function.update_self, PluginState.seenBy_store_self]
      exact ⟨hlock.mirrors, .refl _ _, hlock.closed⟩
    · rw [Function.update_of_ne hu]
      exact (h.other_step hsched' hlock hnumbers hids hfault hu).1
  · intro u
    by_cases hu : u = t
    · rw [hu, Function.update_self]
      exact hsched'
    · rw [Function.update_of_ne hu]
      exact (h.other_step hsched' hlock hnumbers hids hfault hu).2
  · intro u v c hcu hcv
    by_cases hu : u = t
    · by_cases hv : v = t
      · exact hu.trans hv.symm
      · rw [hu, hself] at hcu
        rw [hother hv] at hcv
        exact absurd hcv (hmem hv hcu)
    · rw [hother hu] at hcu
      by_cases hv : v = t
      · rw [hv, hself] at hcv
        exact absurd hcu (hmem hu hcv)
      · rw [hother hv] at hcv
        exact h.apart hcu hcv

end Views

end Views

/-! ### Runs -/

section Runs

variable {n : Nat} {home : InterceptId → Fin n} {parse : MimeHdrParse}
  {config : FcgiPluginConfig} {p : PluginState n}
  {guard : ServerState → Event → Prop}

theorem views_of_reach (hguard : ∀ s e, guard s e → Addressed s e)
    (hlocal : LooksLocally guard)
    (hreach : Transition.Reach (workerThreads parse config n)
      (OnOwnThread home guard) p)
    (hids : p.shared.issued < 2 ^ 32 - 1) :
    ∃ r, Views home config p r ∧
      ∀ t, Transition.Reach (loneThread parse config) (Alone guard) (r t) := by
  refine @Transition.Reach.invariant_while _ _ (workerThreads parse config n)
    (OnOwnThread home guard)
    (fun p => ∃ r, Views home config p r ∧
      ∀ t, Transition.Reach (loneThread parse config) (Alone guard) (r t))
    (fun p => p.shared.issued < 2 ^ 32 - 1) ?_ ?_ ?_ p hreach hids
  · rintro p ⟨t, e⟩ p' hstep hlt
    rw [workerThreads_step] at hstep
    obtain ⟨s', hs', rfl⟩ := Option.map_eq_some_iff.mp hstep
    exact Nat.lt_of_le_of_lt (ServerState.step_issued hs') hlt
  · rintro p rfl
    exact ⟨_, .init home config, fun _ => .init rfl⟩
  · rintro p ⟨t, e⟩ p' - ⟨r, h, hr⟩ ⟨hown, hpass⟩ hlt hstep
    rw [workerThreads_step] at hstep
    obtain ⟨s', hs', rfl⟩ := Option.map_eq_some_iff.mp hstep
    obtain ⟨r', hr', h'⟩ := h.step hown (hguard _ _ hpass) hs' hlt
    refine ⟨_, h', fun u => ?_⟩
    by_cases hu : u = t
    · rw [hu, Function.update_self]
      exact .step (hr t) (e := .own e)
        (hlocal (h.lockStep t).mirrors hown hpass) hr'
    · rw [Function.update_of_ne hu]
      exact .step (hr u) (e := .others _ _) trivial rfl

end Runs

/-- On any number of threads, each thread sees of its own objects what a worker
thread of its own would see. -/
theorem threads_as_alone (parse : MimeHdrParse) (config : FcgiPluginConfig)
    (n : Nat) (home : InterceptId → Fin n) (p : PluginState n)
    (hreach : Transition.Reach (workerThreads parse config n)
      (OnOwnThread home Addressed) p)
    (hids : p.shared.issued < 2 ^ 32 - 1) (t : Fin n) :
    ∃ r, Transition.Reach (loneThread parse config) (Alone Addressed) r ∧
      Mirrors (home · = t) (p.seenBy t) r := by
  obtain ⟨r, h, hr⟩ := views_of_reach (fun _ _ h => h)
    addressed_looksLocally hreach hids
  exact ⟨r t, hr t, (h.lockStep t).mirrors⟩

/-! ### The threads keep apart -/

/-- An entry of `_intercept_list`. -/
def PluginState.Registered {n : Nat} (p : PluginState n) (id : Nat)
    (i : InterceptId) (c : ConnId) : Prop :=
  p.shared.interceptList[id]? = some (i, c)

/-- The registry, the pools and the queues agree, and each request is served
and queued by its own thread only. -/
structure ThreadsApart {n : Nat} (home : InterceptId → Fin n)
    (p : PluginState n) : Prop where
  pools : ∀ t u c, c ∈ (p.own t).connectionPool.connections →
    c ∈ (p.own u).connectionPool.connections → t = u
  available : ∀ t, ∀ c ∈ (p.own t).connectionPool.availableConnections,
    c ∈ (p.own t).connectionPool.connections
  alive : ∀ t, ∀ c ∈ (p.own t).connectionPool.connections,
    (p.shared.conns c).alive = true
  entry : ∀ id i c, p.Registered id i c →
    c ∈ (p.own (home i)).connectionPool.connections ∧
      c ∉ (p.own (home i)).connectionPool.availableConnections ∧
      (p.shared.conns c).requestId = id ∧
      (p.shared.intercepts i).requestId = id
  unshared : ∀ id i c id' i' c', p.Registered id i c →
    p.Registered id' i' c' → id ≠ id' → i ≠ i' ∧ c ≠ c'
  covered : ∀ t, ∀ c ∈ (p.own t).connectionPool.connections,
    c ∈ (p.own t).connectionPool.availableConnections ∨
      ∃ id i, home i = t ∧ p.Registered id i c
  queued : ∀ t, ∀ i ∈ (p.own t).pendingReqQueue.pendingList,
    home i = t ∧ ∀ id c, ¬ p.Registered id i c
  queued_once : ∀ t, (p.own t).pendingReqQueue.pendingList.Nodup

theorem Views.threadsApart {n : Nat} {home : InterceptId → Fin n}
    {config : FcgiPluginConfig} {p : PluginState n} {r : Fin n → ServerState}
    (h : Views home config p r) : ThreadsApart home p := by
  have hpool : ∀ t, (r t).pool = (p.own t).connectionPool := fun t =>
    (h.lockStep t).mirrors.pool
  have hqueue : ∀ t, (r t).queue = (p.own t).pendingReqQueue := fun t =>
    (h.lockStep t).mirrors.queue
  have hconn : ∀ t, ∀ c ∈ (p.own t).connectionPool.connections,
      (r t).conns c = p.shared.conns c := fun t =>
    (h.lockStep t).mirrors.conns
  have hreg : ∀ {id i c}, p.Registered id i c →
      (r (home i)).Registered id i c := fun {id i c} hr =>
    h.registered (t := home i) hr
  have hmem : ∀ {id i c}, p.Registered id i c →
      c ∈ (p.own (home i)).connectionPool.connections := by
    intro id i c hr
    rw [← hpool]
    exact (h.scheduled (home i)).consistent.entry_mem (hreg hr)
  exact {
    pools := fun _ _ _ => h.apart
    available := fun t => (h.lockStep t).closed.available
    alive := fun t c hc => by
      rw [← hconn t c hc, (h.scheduled t).consistent.alive_iff, hpool]
      exact hc
    entry := fun id i c hr => by
      have hcons := (h.scheduled (home i)).consistent
      refine ⟨hmem hr, ?_, ?_, ?_⟩
      · rw [← hpool]
        exact hcons.entry_busy (hreg hr)
      · rw [← hconn (home i) c (hmem hr)]
        exact hcons.entry_conn (hreg hr)
      · have hid := hcons.entry_intercept (hreg hr)
        rw [(h.lockStep (home i)).mirrors.intercepts i rfl] at hid
        exact hid
    unshared := fun id i c id' i' c' hr hr' hne => by
      constructor
      · rintro rfl
        exact hne ((h.scheduled (home i)).consistent.intercept_unique
          (hreg hr) (hreg hr')).1
      · rintro rfl
        have hhome := h.apart (hmem hr) (hmem hr')
        have hr'' := hreg hr'
        rw [← hhome] at hr''
        exact hne ((h.scheduled (home i)).consistent.conn_unique
          (hreg hr) hr'').1
    covered := fun t c hc => by
      rw [← hpool] at hc ⊢
      rcases (h.scheduled t).covered c hc with hfalse | havail | ⟨id, i, hr⟩
      · exact hfalse.elim
      · exact .inl havail
      · exact .inr ⟨id, i, (h.lockStep t).mirrors.registered.mp hr⟩
    queued := fun t i hi => by
      have hhome : home i = t := (h.lockStep t).closed.queue i hi
      refine ⟨hhome, fun id c hr => ?_⟩
      rw [← hqueue] at hi
      have hr' := hreg hr
      rw [hhome] at hr'
      exact (h.scheduled t).consistent.queue_free i hi hr'
    queued_once := fun t => by
      rw [← hqueue]
      exact (h.scheduled t).consistent.queue_nodup }

/-- In every interleaving of the threads, each connection, each registered
request and each waiting one belongs to one thread. -/
theorem threads_keep_apart (parse : MimeHdrParse) (config : FcgiPluginConfig)
    (n : Nat) (home : InterceptId → Fin n) (p : PluginState n)
    (hreach : Transition.Reach (workerThreads parse config n)
      (OnOwnThread home Addressed) p)
    (hids : p.shared.issued < 2 ^ 32 - 1) : ThreadsApart home p := by
  obtain ⟨r, h, -⟩ := views_of_reach (fun _ _ h => h)
    addressed_looksLocally hreach hids
  exact h.threadsApart

namespace ThreadViewsWitness

/-- Transactions take turns on two threads. -/
def home (i : InterceptId) : Fin 2 := if i % 2 = 0 then 0 else 1

def request (i : InterceptId) : Fin 2 × Event :=
  (home i, .connect i (RegistryWitness.txn (ascii "GET")) 7)

/-- With one connection a thread, the third request waits on the first
thread. -/
def events : List (Fin 2 × Event) :=
  [request 0, request 1, request 2, (0, .connection 0 .netConnect),
    (1, .connection 1 .netConnect)]

def final : PluginState 2 :=
  Transition.after
    (workerThreads DecoderSafetyWitness.parse RegistryWitness.config 2)
    (OnOwnThread home Addressed)
    ⟨{ config := RegistryWitness.config }, fun _ =>
      ThreadData.new RegistryWitness.config⟩ events

theorem threads_as_alone_final :
    ∃ r, Transition.Reach
        (loneThread DecoderSafetyWitness.parse RegistryWitness.config)
        (Alone Addressed) r ∧
      Mirrors (home · = 1) (final.seenBy 1) r :=
  threads_as_alone DecoderSafetyWitness.parse RegistryWitness.config 2 home
    final (.after (.init rfl) (by decide +kernel)) (by decide +kernel) 1

theorem threads_keep_apart_final : ThreadsApart home final :=
  threads_keep_apart DecoderSafetyWitness.parse RegistryWitness.config 2 home
    final (.after (.init rfl) (by decide +kernel)) (by decide +kernel)

end ThreadViewsWitness

end AtsFastcgi
