/-
The plugin on several worker threads.  The registry, the ids and the objects
are shared; every thread has its `ThreadData`, and its pool keeps to a share of
`max_connections` that does not depend on how many threads there are.
-/
import AtsFastcgi.Lib.Interleaving
import AtsFastcgi.Registry

namespace AtsFastcgi

open ServerState (ConnEvent Event)

/-! ### The threads -/

/-- `ThreadData`, as `setupThreadLocalStorage` makes it on the first request of
a thread; before that the thread does not use it. -/
structure ThreadData where
  connectionPool : ConnectionPool
  pendingReqQueue : RequestQueue

def ThreadData.new (config : FcgiPluginConfig) : ThreadData where
  connectionPool := (ServerState.new config).pool
  pendingReqQueue := (ServerState.new config).queue

/-- What the threads share: the fields of a `ServerState` that are not in
`ThreadData`. -/
structure SharedState where
  config : FcgiPluginConfig
  nextId : Nat := 1
  issued : Nat := 0
  interceptList : Std.TreeMap Nat (InterceptId × ConnId) := ∅
  nextConn : ConnId := 0
  conns : ConnId → ServerConnection := fun _ => {}
  intercepts : InterceptId → ServerIntercept := fun _ => {}
  fault : Bool := false

/-- The state of the plugin as the thread with `tdata` sees it. -/
def SharedState.on (g : SharedState) (tdata : ThreadData) : ServerState where
  config := g.config
  pool := tdata.connectionPool
  queue := tdata.pendingReqQueue
  nextId := g.nextId
  issued := g.issued
  interceptList := g.interceptList
  nextConn := g.nextConn
  conns := g.conns
  intercepts := g.intercepts
  fault := g.fault

namespace ServerState

variable (s : ServerState)

def shared : SharedState where
  config := s.config
  nextId := s.nextId
  issued := s.issued
  interceptList := s.interceptList
  nextConn := s.nextConn
  conns := s.conns
  intercepts := s.intercepts
  fault := s.fault

def threadData : ThreadData := ⟨s.pool, s.queue⟩

@[simp] theorem shared_on_threadData : s.shared.on s.threadData = s := rfl

end ServerState

/-- A thread runs an event of `workerThread`. -/
def threadStep (parse : MimeHdrParse) :
    Transition.Program SharedState ThreadData Event :=
  fun g tdata e =>
    ((g.on tdata).step parse e).map fun s => (s.shared, s.threadData)

/-- The state of the plugin on `n` worker threads. -/
abbrev PluginState (n : Nat) :=
  Transition.Threads (Fin n) SharedState ThreadData

/-- The plugin on `n` worker threads. -/
def workerThreads (parse : MimeHdrParse) (config : FcgiPluginConfig)
    (n : Nat) : Transition.System (PluginState n) (Fin n × Event) :=
  Transition.interleaving (Fin n) (threadStep parse) { config }
    (ThreadData.new config)

namespace PluginState

variable {n : Nat}

/-- The plugin as thread `t` sees it. -/
def seenBy (p : PluginState n) (t : Fin n) : ServerState :=
  p.shared.on (p.own t)

/-- Thread `t` leaves the plugin as it saw it. -/
def store (p : PluginState n) (t : Fin n) (s : ServerState) : PluginState n where
  shared := s.shared
  own := Function.update p.own t s.threadData

theorem own_store_self (p : PluginState n) (t : Fin n) (s : ServerState) :
    (p.store t s).own t = s.threadData := by
  simp [store]

@[simp] theorem seenBy_store_self (p : PluginState n) (t : Fin n)
    (s : ServerState) : (p.store t s).seenBy t = s := by
  rw [seenBy, own_store_self]
  rfl

/-- The number of connections in all pools. -/
def connectionCount (p : PluginState n) : Nat :=
  p.total fun tdata => tdata.connectionPool.connections.length

end PluginState

/-- Events come only to objects that exist, on whatever thread. -/
def ExistsOn {n : Nat} (p : PluginState n) (e : Fin n × Event) : Prop :=
  Exists (p.seenBy e.1) e.2

/-- The events of ATS, on whatever thread. -/
def AtsOn {n : Nat} (p : PluginState n) (e : Fin n × Event) : Prop :=
  Ats (p.seenBy e.1) e.2

/-- A step of the plugin is a step of the worker thread it is on. -/
theorem workerThreads_step (parse : MimeHdrParse) (config : FcgiPluginConfig)
    {n : Nat} (p : PluginState n) (t : Fin n) (e : Event) :
    (workerThreads parse config n).step p (t, e) =
      ((p.seenBy t).step parse e).map (p.store t) := by
  show (((p.seenBy t).step parse e).map _).map _ = _
  rw [Option.map_map]
  rfl

/-- The plugin with one worker thread is that thread. -/
theorem reach_seenBy_one {parse : MimeHdrParse} {config : FcgiPluginConfig}
    {p : PluginState 1}
    (hreach : Transition.Reach (workerThreads parse config 1) ExistsOn p) :
    Transition.Reach (workerThread parse config) Exists (p.seenBy 0) := by
  induction hreach with
  | init hinit =>
      obtain rfl := hinit
      exact .init rfl
  | @step p p' e hreach hexists hstep ih =>
      obtain ⟨t, e⟩ := e
      obtain rfl : t = 0 := Subsingleton.elim t 0
      rw [workerThreads_step] at hstep
      obtain ⟨s, hs, rfl⟩ := Option.map_eq_some_iff.mp hstep
      rw [PluginState.seenBy_store_self]
      exact .step ih hexists hs

/-! ### What an event does to a pool -/

/-- The limit of the pool stays, and a pool that keeps to it goes on doing
so. -/
structure ConnectionPool.KeepsLimit (old new : ConnectionPool) : Prop where
  maxConn : new.maxConn = old.maxConn
  connections_le : old.connections.length ≤ old.maxConn →
    new.connections.length ≤ old.maxConn

namespace ConnectionPool.KeepsLimit

theorem refl (pool : ConnectionPool) : pool.KeepsLimit pool :=
  ⟨rfl, fun hle => hle⟩

theorem trans {a b c : ConnectionPool} (hab : a.KeepsLimit b)
    (hbc : b.KeepsLimit c) : a.KeepsLimit c := by
  refine ⟨hbc.maxConn.trans hab.maxConn, ?_⟩
  intro hle
  rw [← hab.maxConn]
  apply hbc.connections_le
  rw [hab.maxConn]
  exact hab.connections_le hle

end ConnectionPool.KeepsLimit

namespace ServerState

variable (s : ServerState)

/-- A connection is only added below the limit. -/
theorem connect_keepsLimit (i : InterceptId) :
    s.pool.KeepsLimit (s.connect i).pool := by
  rcases s.connect_cases i with ⟨hroom, heq⟩ | ⟨c, rest, -, -, heq⟩ |
    ⟨-, -, heq⟩
  · rw [heq]
    refine ⟨rfl, fun _ => ?_⟩
    show (s.pool.connections ++ [s.nextConn]).length ≤ s.pool.maxConn
    rw [List.length_append]
    exact hroom
  · rw [heq]
    exact ⟨rfl, fun hle => hle⟩
  · rw [heq]
    exact .refl _

theorem connectionClosed_keepsLimit (c : ConnId) :
    s.pool.KeepsLimit (s.connectionClosed c).pool :=
  ⟨rfl, fun hle => Nat.le_trans (List.length_filter_le _ _) hle⟩

theorem releaseConnection_keepsLimit (c : ConnId) :
    s.pool.KeepsLimit (s.releaseConnection c).pool := by
  unfold releaseConnection
  simp only
  split
  · exact ⟨rfl, fun hle => hle⟩
  · exact connectionClosed_keepsLimit (s.setConn c _) c

theorem connectNext_keepsLimit : s.pool.KeepsLimit s.connectNext.pool := by
  unfold connectNext
  split
  · next i queue _ => exact connect_keepsLimit { s with queue } i
  · exact .refl _

theorem removeIntercept_keepsLimit (id : Nat) :
    s.pool.KeepsLimit (s.removeIntercept id).pool := by
  unfold removeIntercept
  split
  · exact (releaseConnection_keepsLimit (s.unregister id) _).trans
      (connectNext_keepsLimit _)
  · exact .refl _

theorem retry_keepsLimit (c : ConnId) :
    s.pool.KeepsLimit (s.retry c).pool := by
  have hreconnect : s.pool.KeepsLimit
      (s.reConnect (s.conns c).requestId).pool := by
    unfold reConnect
    split
    · exact connect_keepsLimit (s.unregister _) _
    · exact .refl _
  exact hreconnect.trans (connectionClosed_keepsLimit (setConn _ c _) c)

theorem complete_keepsLimit (i : InterceptId) (c : ConnId) :
    s.pool.KeepsLimit (s.complete i c).pool :=
  removeIntercept_keepsLimit (setIntercept (s.setConn c _) i _) _

theorem onNetConnect_keepsLimit (c : ConnId) :
    s.pool.KeepsLimit (s.onNetConnect c).pool := by
  unfold onNetConnect
  simp only
  split <;> exact .refl _

theorem onLateEos_keepsLimit (c : ConnId) :
    s.pool.KeepsLimit (s.onLateEos c).pool := by
  unfold onLateEos
  split
  · split
    · exact connectionClosed_keepsLimit (setConn (s.setIntercept _ _) c _) c
    · exact connectionClosed_keepsLimit (s.setConn c _) c
  · exact connectionClosed_keepsLimit (s.setConn c _) c

theorem onError_keepsLimit (c : ConnId) :
    s.pool.KeepsLimit (s.onError c).pool := by
  unfold onError
  split
  · exact connectionClosed_keepsLimit (setConn (s.setIntercept _ _) c _) c
  · exact connectionClosed_keepsLimit s c

variable {s} {s' : ServerState}

theorem handlePHPConnectionEvents_keepsLimit {parse : MimeHdrParse}
    {c : ConnId} {event : ConnEvent}
    (hstep : s.handlePHPConnectionEvents parse c event = some s') :
    s.pool.KeepsLimit s'.pool := by
  cases event with
  | netConnect =>
      rw [← Option.some.inj hstep]
      exact onNetConnect_keepsLimit s c
  | netConnectFailed =>
      rw [← Option.some.inj hstep]
      exact retry_keepsLimit s c
  | readReady blocks =>
      rcases onReadReady_cases hstep with ⟨-, rfl⟩ |
        ⟨i, responseStatus, conn, x, -, -, rfl⟩
      · exact .refl _
      · cases responseStatus with
        | true =>
            exact complete_keepsLimit ((s.setConn c conn).setIntercept i x) i c
        | false => exact .refl _
  | readComplete =>
      simp only [handlePHPConnectionEvents] at hstep
      split at hstep
      · rw [← Option.some.inj hstep]
        exact complete_keepsLimit s _ c
      · contradiction
  | writeReady =>
      simp only [handlePHPConnectionEvents] at hstep
      split at hstep
      · obtain ⟨conn, -, rfl⟩ := Option.map_eq_some_iff.mp hstep
        exact .refl _
      · rw [← Option.some.inj hstep]
        exact .refl _
  | writeComplete =>
      obtain ⟨conn, -, rfl⟩ := Option.map_eq_some_iff.mp hstep
      exact .refl _
  | eos =>
      rw [← Option.some.inj hstep]
      split
      · exact onLateEos_keepsLimit s c
      · exact retry_keepsLimit s c
  | error =>
      simp only [handlePHPConnectionEvents] at hstep
      split at hstep
      · rw [← Option.some.inj hstep]
        exact onError_keepsLimit s c
      · contradiction

/-- Every event keeps the pool of its thread within its share. -/
theorem step_keepsLimit {parse : MimeHdrParse} {e : Event}
    (hstep : s.step parse e = some s') : s.pool.KeepsLimit s'.pool := by
  replace hstep := ServerState.handle_of_step hstep
  cases e with
  | connect i txn requestId =>
      rw [← Option.some.inj hstep]
      exact connect_keepsLimit (s.setIntercept i _) i
  | connection c event => exact handlePHPConnectionEvents_keepsLimit hstep
  | destroy i =>
      rw [← Option.some.inj hstep]
      unfold destroy
      simp only
      split
      · exact .refl _
      · exact removeIntercept_keepsLimit (s.setIntercept i _) _
  | input i input =>
      rcases consume_cases hstep with ⟨i', c, conn, -, -, rfl⟩ | ⟨-, rfl⟩
      · exact .refl _
      · exact .refl _
  | respond c r =>
      rw [← Option.some.inj hstep]
      exact .refl _

end ServerState

/-! ### All pools together -/

/-- The share of `max_connections` that a pool has. -/
def FcgiPluginConfig.poolShare (config : FcgiPluginConfig) : Nat :=
  (ThreadData.new config).connectionPool.maxConn

section Runs

variable {parse : MimeHdrParse} {config : FcgiPluginConfig} {n : Nat}
  {p : PluginState n} {guard : PluginState n → Fin n × Event → Prop}

/-- Every pool keeps to its share, whatever the other threads do. -/
theorem pool_within_share
    (hreach : Transition.Reach (workerThreads parse config n) guard p)
    (t : Fin n) :
    (p.own t).connectionPool.maxConn = config.poolShare ∧
      (p.own t).connectionPool.connections.length ≤ config.poolShare := by
  refine Transition.Reach.own_invariant (T := Fin n) (P := fun tdata =>
    tdata.connectionPool.maxConn = config.poolShare ∧
      tdata.connectionPool.connections.length ≤ config.poolShare) ?_ ?_
    hreach t
  · exact ⟨rfl, Nat.zero_le _⟩
  · rintro g tdata e g' tdata' hrun ⟨hmax, hle⟩
    obtain ⟨s, hs, hpair⟩ := Option.map_eq_some_iff.mp hrun
    obtain ⟨-, rfl⟩ := Prod.mk.inj hpair
    have hkeep := ServerState.step_keepsLimit hs
    have hmax' : (g.on tdata).pool.maxConn = config.poolShare := hmax
    refine ⟨hkeep.maxConn.trans hmax', ?_⟩
    rw [← hmax'] at hle ⊢
    exact hkeep.connections_le hle

theorem connectionCount_le
    (hreach : Transition.Reach (workerThreads parse config n) guard p) :
    p.connectionCount ≤ n * config.poolShare := by
  have hle : ∀ t, (p.own t).connectionPool.connections.length ≤
      config.poolShare := fun t => (pool_within_share hreach t).2
  have hsum := @Transition.Threads.total_le _ _ _ _ p
    (fun tdata => tdata.connectionPool.connections.length) _ hle
  rw [Fintype.card_fin] at hsum
  exact hsum

/-- No deleted intercept has been used. -/
theorem shared_fault_of_reach
    (hreach : Transition.Reach (workerThreads parse config n) guard p) :
    p.shared.fault = false := by
  refine hreach.invariant (P := fun p => p.shared.fault = false) ?_ ?_
  · rintro p rfl
    rfl
  · rintro p ⟨t, e⟩ p' - - - hstep
    rw [workerThreads_step] at hstep
    obtain ⟨s', hs', rfl⟩ := Option.map_eq_some_iff.mp hstep
    exact (ServerState.step_eq_some.mp hs').2

/-- A request for which a thread has room adds a connection. -/
theorem connect_adds (hreach : Transition.Reach
      (workerThreads parse config n) AtsOn p) {t : Fin n}
    (hroom : (p.own t).connectionPool.connections.length < config.poolShare)
    {i : InterceptId} (txn : ClientRequest)
    (hunused : ∀ j, i ≤ j → (p.shared.intercepts j).connected = false) :
    ∃ p', Transition.Reach (workerThreads parse config n) AtsOn p' ∧
      p'.connectionCount = p.connectionCount + 1 ∧
      ∀ j, i + 1 ≤ j → (p'.shared.intercepts j).connected = false := by
  let s := (p.seenBy t).setIntercept i (ServerIntercept.new txn 0)
  have hconnect : s.connect i = s.connectNew i := by
    apply ServerState.connect_new
    show (p.own t).connectionPool.connections.length <
      (p.own t).connectionPool.maxConn
    rw [(pool_within_share hreach t).1]
    exact hroom
  have hstep : (workerThreads parse config n).step p
      (t, .connect i txn 0) = some (p.store t (s.connectNew i)) := by
    have hs : (p.seenBy t).step parse (.connect i txn 0) =
        some (s.connectNew i) := by
      refine ServerState.step_eq_some.mpr ⟨congrArg some hconnect, ?_⟩
      rw [ServerState.connectNew_fault,
        ServerState.setIntercept_intercepts_self]
      exact Bool.or_eq_false_iff.mpr ⟨shared_fault_of_reach hreach, rfl⟩
    rw [workerThreads_step, hs]
    rfl
  refine ⟨p.store t (s.connectNew i), .step hreach ?_ hstep, ?_, ?_⟩
  · exact ⟨hunused i (Nat.le_refl i), trivial, trivial⟩
  · refine Transition.Threads.total_update (t := t)
      (l := (s.connectNew i).threadData) rfl ?_
    show ((p.own t).connectionPool.connections ++ [_]).length = _
    rw [List.length_append]
    rfl
  · intro j hj
    have hne : j ≠ i := Nat.ne_of_gt hj
    have hold : (s.connectNew i).intercepts j =
        (p.seenBy t).intercepts j := by
      rw [ServerState.connectNew_intercepts_of_ne s hne]
      exact ServerState.setIntercept_intercepts_of_ne (p.seenBy t) _ hne
    show ((s.connectNew i).intercepts j).connected = false
    rw [hold]
    exact hunused j (Nat.le_of_succ_le hj)

/-- Requests alone fill every pool, in whatever order the threads get them. -/
theorem exists_crowd (parse : MimeHdrParse) (config : FcgiPluginConfig)
    (n : Nat) {k : Nat} (hk : k ≤ n * config.poolShare) :
    ∃ p : PluginState n,
      Transition.Reach (workerThreads parse config n) AtsOn p ∧
      p.connectionCount = k ∧
      ∀ i, k ≤ i → (p.shared.intercepts i).connected = false := by
  induction k with
  | zero =>
      refine ⟨_, .init rfl, ?_, fun i _ => rfl⟩
      show (Finset.univ.sum fun _ : Fin n => 0) = 0
      exact Finset.sum_const_zero
  | succ k ih =>
      obtain ⟨p, hreach, hcount, hunused⟩ := ih (Nat.le_of_succ_le hk)
      have hlt : p.connectionCount <
          Fintype.card (Fin n) * config.poolShare := by
        rw [hcount, Fintype.card_fin]
        exact hk
      obtain ⟨t, hroom⟩ := p.exists_lt_of_total_lt hlt
      obtain ⟨p', hreach', hcount', hunused'⟩ := connect_adds hreach hroom
        (RegistryWitness.txn (ascii "GET")) hunused
      exact ⟨p', hreach', hcount'.trans (congrArg (· + 1) hcount), hunused'⟩

end Runs

/-- The plugin keeps to `max_connections` in every run if and only if the
shares of its threads do not add up to more. -/
theorem connectionCount_le_iff (parse : MimeHdrParse)
    (config : FcgiPluginConfig) (n : Nat) :
    (∀ p, Transition.Reach (workerThreads parse config n) ExistsOn p →
        (p.connectionCount : Int) ≤ config.maxConnLength) ↔
      (n : Int) * uint (config.maxConnLength.tdiv 6) ≤
        config.maxConnLength := by
  have hshare : ((n * config.poolShare : Nat) : Int) =
      (n : Int) * uint (config.maxConnLength.tdiv 6) :=
    Int.natCast_mul n config.poolShare
  rw [← hshare]
  constructor
  · intro hall
    obtain ⟨p, hreach, hcount, -⟩ := exists_crowd parse config n (Nat.le_refl _)
    rw [← hcount]
    exact hall p (hreach.mono fun _ _ hats => hats.1)
  · intro hle p hreach
    exact Int.le_trans (Int.ofNat_le.mpr (connectionCount_le hreach)) hle

namespace WorkerThreadsWitness

def config : FcgiPluginConfig :=
  { RegistryWitness.config with maxConnLength := 6 }

/-- Each of seven threads makes the one connection of its share. -/
theorem not_always_connectionCount_le :
    ¬ ∀ (parse : MimeHdrParse) (config : FcgiPluginConfig) (n : Nat),
      1 ≤ config.maxConnLength →
      ∀ p, Transition.Reach (workerThreads parse config n) AtsOn p →
        (p.connectionCount : Int) ≤ config.maxConnLength := by
  intro h
  obtain ⟨p, hreach, hcount, -⟩ := exists_crowd DecoderSafetyWitness.parse
    config 7 (k := 7) (by decide)
  have hle := h DecoderSafetyWitness.parse config 7 (by decide) p hreach
  rw [hcount] at hle
  exact absurd hle (by decide)

end WorkerThreadsWitness

end AtsFastcgi
