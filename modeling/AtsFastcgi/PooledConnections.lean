/-
Pooled connections.  A registered connection is being established or has an
FCGI client, and one that is given back should have neither: completion takes
the client away first, the abort of a request does not.
-/
import AtsFastcgi.LocalInvariant

namespace AtsFastcgi

open ServerState (ConnEvent Event)

/-- An established connection without a request. -/
structure ServerConnection.Usable (c : ServerConnection) : Prop where
  vc : c.vc = true
  state : c.state = .ready
  requestId : c.requestId = 0
  fcgiRequest : c.fcgiRequest = none
  readEnable : c.writeio.readEnable = false

/-- The available connections are usable, and no FCGI client of a connection
in use was put in the place of another one. -/
structure ServerState.PooledIdle (s : ServerState) : Prop where
  usable : ∀ c ∈ s.pool.availableConnections, (s.conns c).Usable
  replaced : ∀ c, c ∈ s.pool.availableConnections ∨
    (∃ id i, s.Registered id i c) → (s.conns c).replaced = 0

/-- What is given back has been established and completed: no request is
aborted on a connection that will be reused, and the two events that ATS does
not deliver to just any connection keep to theirs. -/
def ServerState.GivesBackIdle (s : ServerState) : Event → Prop
  | .connection c .netConnect =>
      s.getIntercept (s.conns c).requestId ≠ none →
        (s.conns c).connecting = true
  | .connection c .readComplete =>
      (s.conns c).reqCount < (s.conns c).maxRequests → (s.conns c).vc = true
  | .destroy i =>
      (s.intercepts i).outputCompleteState = false →
        ∀ c ∈ s.getServerConnection (s.intercepts i).requestId,
          (s.conns c).maxRequests ≤ (s.conns c).reqCount
  | _ => True

def KeepsIdle (s : ServerState) (e : Event) : Prop :=
  Exists s e ∧ Owns s e ∧ s.GivesBackIdle e

instance (s : ServerState) : (e : Event) → Decidable (s.GivesBackIdle e)
  | .connection _ .netConnect | .connection _ .readComplete =>
      inferInstanceAs (Decidable (_ → _ = true))
  | .destroy i =>
      inferInstanceAs (Decidable (_ → ∀ c ∈
        s.getServerConnection (s.intercepts i).requestId, _ ≤ _))
  | .connection _ .netConnectFailed | .connection _ (.readReady _)
  | .connection _ .writeReady | .connection _ .writeComplete
  | .connection _ .eos | .connection _ .error
  | .connect .. | .input .. | .respond .. => inferInstanceAs (Decidable True)

instance (s : ServerState) (e : Event) : Decidable (KeepsIdle s e) :=
  inferInstanceAs (Decidable (_ ∧ _ ∧ _))

/-! ### A registered connection -/

/-- The answer of `TSNetConnect` is awaited, or it has come and the connection
has an FCGI client. -/
structure ServerConnection.Attached (c : ServerConnection) : Prop where
  connecting : c.connecting = !c.vc
  fcgiRequest : c.fcgiRequest.isSome = c.vc
  replaced : c.replaced = 0

/-- An available connection. -/
structure ServerConnection.Rests (c : ServerConnection) : Prop where
  connecting : c.connecting = false
  vc : c.vc = true
  state : c.state = .ready
  fcgiRequest : c.fcgiRequest = none
  readEnable : c.writeio.readEnable = false
  replaced : c.replaced = 0

namespace ServerConnection

theorem attached_createFCGIClient {c : ServerConnection}
    (hstate : c.state = .ready) (hconnecting : c.connecting = false)
    (hvc : c.vc = true) (hclient : c.fcgiRequest = none)
    (hreplaced : c.replaced = 0) (config : FcgiPluginConfig)
    (x : ServerIntercept) : (c.createFCGIClient config x).1.Attached := by
  simp only [createFCGIClient, hstate, true_or, if_true]
  refine ⟨?_, hvc.symm, ?_⟩
  · simp only [hconnecting, hvc, Bool.not_true]
  · simp only [hreplaced, hclient, Option.toList_none, List.length_nil]

theorem Attached.interceptTransferData {parse : MimeHdrParse}
    {c new : ServerConnection} {i x : ServerIntercept} {responseStatus : Bool}
    (h : c.Attached)
    (hrun : interceptTransferData parse c i = some (responseStatus, new, x)) :
    new.Attached ∧ (responseStatus = true → new.vc = true) := by
  rcases interceptTransferData_eq_some hrun with
    ⟨-, -, rfl, rfl, -⟩ | ⟨client, t, hclient, -, -, rfl, -⟩
  · exact ⟨⟨h.connecting, h.fcgiRequest, h.replaced⟩,
      fun hfalse => absurd hfalse Bool.false_ne_true⟩
  · have hvc : c.vc = true := by
      rw [← h.fcgiRequest, hclient]
      rfl
    exact ⟨⟨h.connecting, hvc.symm, h.replaced⟩, fun _ => hvc⟩

/-- A completed request leaves an idle connection. -/
theorem Attached.completed {c : ServerConnection} (h : c.Attached)
    (hvc : c.vc = true) : c.completed.Rests := by
  refine ⟨?_, hvc, rfl, rfl, rfl, h.replaced⟩
  exact h.connecting.trans (by rw [hvc, Bool.not_true])

end ServerConnection

/-- The available connections rest, the registered ones are attached. -/
def pooledIdle : LocalPredicates where
  ever _ := True
  waiting _ := True
  idle := ServerConnection.Rests
  bound _ conn _ := conn.Attached

theorem pooledIdle_preserved (parse : MimeHdrParse)
    (config : FcgiPluginConfig) :
    pooledIdle.Preserved parse config KeepsIdle where
  new _ _ := ⟨trivial, trivial⟩
  bind_new _ _ _ := ⟨trivial, rfl, rfl, rfl⟩
  bind_idle {id conn _} _ hidle _ _ :=
    ⟨trivial, ServerConnection.attached_createFCGIClient
      (c := { conn with state := .ready, requestId := id }) rfl
      hidle.connecting hidle.vc hidle.fcgiRequest hidle.replaced config _⟩
  net_connect {s c id i} h hguard hr _ hbound := by
    have hconnecting : (s.conns c).connecting = true := by
      apply hguard.2.2
      rw [h.entry_conn hr, ServerState.getIntercept_eq_some.mpr ⟨c, hr⟩]
      exact Option.some_ne_none i
    have hvc : (s.conns c).vc = false := by
      have hnot := hbound.connecting
      rw [hconnecting] at hnot
      exact Bool.not_eq_true' _ ▸ hnot.symm
    have hclient : (s.conns c).fcgiRequest = none := by
      have hsome := hbound.fcgiRequest
      rw [hvc] at hsome
      exact Option.isSome_eq_false_iff.mp hsome |> Option.isNone_iff_eq_none.mp
    exact ⟨trivial, ServerConnection.attached_createFCGIClient
      (c := (s.conns c).netConnect) rfl rfl rfl hclient hbound.replaced
      config _⟩
  net_connect_idle _ hidle :=
    ⟨rfl, rfl, rfl, hidle.fcgiRequest, hidle.readEnable, hidle.replaced⟩
  retry _ _ _ _ _ := trivial
  fail _ _ := ⟨trivial, trivial⟩
  read {_ _ blocks _ _ responseStatus _ _} _ _ _ _ hbound hrun := by
    have hreceived : ServerConnection.Attached
        (ServerConnection.receive _ blocks) :=
      ⟨hbound.connecting, hbound.fcgiRequest, hbound.replaced⟩
    obtain ⟨hnext, hvc⟩ := hreceived.interceptTransferData hrun
    refine ⟨trivial, ?_⟩
    cases responseStatus with
    | false => exact hnext
    | true => exact ⟨trivial, fun _ => hnext.completed (hvc rfl)⟩
  read_idle _ hidle :=
    ⟨hidle.connecting, hidle.vc, hidle.state, hidle.fcgiRequest,
      hidle.readEnable, hidle.replaced⟩
  read_complete hguard _ _ hbound :=
    ⟨trivial, fun hroom => hbound.completed (hguard.2.2 hroom)⟩
  open_read hread := by
    obtain ⟨-, rfl⟩ := ServerConnection.read_eq_some.mp hread
    exact ⟨fun hbound => ⟨hbound.connecting, hbound.fcgiRequest,
        hbound.replaced⟩,
      fun hidle => ⟨hidle.connecting, hidle.vc, hidle.state,
        hidle.fcgiRequest, hidle.readEnable, hidle.replaced⟩⟩
  input _ _ _ _ hbound hwrite := by
    obtain ⟨client, client', buf, -, -, -, hvc, rfl⟩ :=
      ServerConnection.write_eq_some.mp hwrite
    exact ⟨trivial, hbound.connecting, hvc.symm, hbound.replaced⟩
  input_kept _ _ := ⟨trivial, fun _ _ => trivial⟩
  destroy _ _ := ⟨trivial, fun _ _ => trivial⟩
  abort {s i id c} h hguard hr hbound := by
    split
    · exact hbound
    · next hopen =>
        intro hroom
        have hget : s.getServerConnection (s.intercepts i).requestId = some c := by
          rw [h.entry_intercept hr]
          exact ServerState.getServerConnection_eq_some.mpr ⟨i, hr⟩
        have hfull := hguard.2.2 (Bool.not_eq_true _ ▸ hopen) c hget
        exact absurd hroom (Nat.not_lt.mpr hfull)
  respond _ :=
    ⟨fun _ hbound => ⟨hbound.connecting, hbound.fcgiRequest, hbound.replaced⟩,
      fun hidle => ⟨hidle.connecting, hidle.vc, hidle.state,
        hidle.fcgiRequest, hidle.readEnable, hidle.replaced⟩⟩

/-- As long as what is given back has been completed, the available connections
are usable and no FCGI client is overwritten. -/
theorem pooledIdle_of_reach (parse : MimeHdrParse) (config : FcgiPluginConfig)
    (s : ServerState)
    (hreach : Transition.Reach (workerThread parse config) KeepsIdle s)
    (hids : s.issued < 2 ^ 32 - 1) : s.PooledIdle := by
  have h := consistent_of_reach (fun _ _ hg => hg.1) hreach hids
  have hL := LocalPredicates.holds_of_reach (fun _ _ hg => ⟨hg.1, hg.2.1⟩)
    (pooledIdle_preserved parse config) hreach hids
  constructor
  · intro c hc
    have hrests := hL.idle c hc
    exact ⟨hrests.vc, hrests.state, h.idle_id c hc, hrests.fcgiRequest,
      hrests.readEnable⟩
  · rintro c (hc | ⟨id, i, hr⟩)
    · exact (hL.idle c hc).replaced
    · exact (hL.bound hr).replaced

namespace PoolWitness

/-- The client goes away before its request is answered. -/
def abortEvents : List Event :=
  [.connect 0 (RegistryWitness.txn (ascii "GET")) 7, .connection 0 .netConnect,
    .destroy 0]

def aborted : ServerState :=
  Transition.after
    (workerThread DecoderSafetyWitness.parse RegistryWitness.config) Ats
    (ServerState.new RegistryWitness.config) abortEvents

theorem not_always_pooledIdle :
    ¬ ∀ parse config s,
      Transition.Reach (workerThread parse config) Ats s →
      s.issued < 2 ^ 32 - 1 → s.PooledIdle := by
  intro h
  obtain ⟨hreach, hids, havailable, hclient⟩ :
      Transition.Reach
        (workerThread DecoderSafetyWitness.parse RegistryWitness.config) Ats
        aborted ∧ aborted.issued < 2 ^ 32 - 1 ∧
      0 ∈ aborted.pool.availableConnections ∧
      (aborted.conns 0).fcgiRequest.isSome = true :=
    Transition.Reach.after_and (.init rfl) (by decide +kernel)
  have husable := (h _ _ aborted hreach hids).usable 0 havailable
  rw [husable.fcgiRequest] at hclient
  exact Bool.noConfusion hclient

/-- A request that is answered. -/
def answeredEvents : List Event :=
  [.connect 0 (RegistryWitness.txn (ascii "GET")) 7, .connection 0 .netConnect,
    .connection 0 (.readReady
      [[1, 3, 0, 1, 0, 8, 0, 0, 0, 0, 0, 0, 0, 0, 0, 0]])]

def final : ServerState :=
  Transition.after
    (workerThread DecoderSafetyWitness.parse RegistryWitness.config) KeepsIdle
    (ServerState.new RegistryWitness.config) answeredEvents

theorem pooledIdle_final : final.PooledIdle := by
  obtain ⟨hreach, hids⟩ :
      Transition.Reach
        (workerThread DecoderSafetyWitness.parse RegistryWitness.config)
        KeepsIdle final ∧ final.issued < 2 ^ 32 - 1 :=
    Transition.Reach.after_and (.init rfl) (by decide +kernel)
  exact pooledIdle_of_reach _ _ final hreach hids

end PoolWitness

end AtsFastcgi
