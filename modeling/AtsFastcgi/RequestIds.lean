/-
Request ids.  `UniqueRequesID` counts in 32 bits, the header of a record holds
16: a request is known on the wire by the id it is registered under as long as
that id fits.
-/
import AtsFastcgi.LocalInvariant

namespace AtsFastcgi

open ServerState (ConnEvent Event)

/-- No entry is under the id 0 of an idle connection, the next registration
takes no entry's place, and every record header of a registered request names
it by the id it is registered under. -/
structure ServerState.IdsValid (s : ServerState) : Prop where
  nonzero : ∀ id i c, s.Registered id i c → id ≠ 0
  unused : ∀ i c, ¬ s.Registered s.nextId i c
  header : ∀ id i c, s.Registered id i c →
    ∀ client ∈ (s.conns c).fcgiRequest, ∀ type,
      (client.createHeader type).requestId ≠ 0 ∧
        (client.createHeader type).requestId = id

theorem FcgiClientRequest.createHeader_requestId (client : FcgiClientRequest)
    (type : UInt8) :
    (client.createHeader type).requestId = client.requestId % 65536 := by
  rw [FcgiHeader.requestId, createHeader]
  exact byte1_byte0_toNat client.requestId

/-- The FCGI client of a registered connection has the id of the entry. -/
def ownId : LocalPredicates where
  ever _ := True
  waiting _ := True
  idle _ := True
  bound id conn _ := ∀ client ∈ conn.fcgiRequest, client.requestId = id

theorem createFCGIClient_ownId {conn : ServerConnection} {id : Nat}
    (hready : conn.state = .ready) (hid : conn.requestId = id)
    (config : FcgiPluginConfig) (x : ServerIntercept) :
    ∀ client ∈ (conn.createFCGIClient config x).1.fcgiRequest,
      client.requestId = id := by
  simp only [ServerConnection.createFCGIClient, hready, true_or, if_true]
  rintro client hclient
  rw [← Option.some.inj hclient, ← hid]
  exact (FcgiClientRequest.new_fresh config conn.requestId x.txn).2.2

theorem ownId_write {input : ClientInput} {conn new : ServerConnection}
    {id : Nat} (hown : ∀ client ∈ conn.fcgiRequest, client.requestId = id)
    (hwrite : input.write conn = some new) :
    ∀ client ∈ new.fcgiRequest, client.requestId = id := by
  obtain ⟨client, client', buf, hclient, hprepare, -, -, rfl⟩ :=
    ServerConnection.write_eq_some.mp hwrite
  obtain ⟨postData, buff, rfl⟩ := ServerConnection.prepare_eq_some hprepare
  intro other hother
  rw [← Option.some.inj hother]
  exact hown client hclient

theorem ownId_interceptTransferData {parse : MimeHdrParse}
    {c new : ServerConnection} {i x : ServerIntercept} {responseStatus : Bool}
    {id : Nat} (hown : ∀ client ∈ c.fcgiRequest, client.requestId = id)
    (hrun : interceptTransferData parse c i = some (responseStatus, new, x)) :
    ∀ client ∈ new.fcgiRequest, client.requestId = id := by
  rcases ServerConnection.interceptTransferData_eq_some hrun with
    ⟨-, -, -, rfl, -⟩ | ⟨client, t, hclient, -, -, rfl, -⟩
  · exact hown
  · intro other hother
    rw [← Option.some.inj hother]
    exact hown client hclient

theorem ownId_preserved (parse : MimeHdrParse) (config : FcgiPluginConfig) :
    ownId.Preserved parse config Exists where
  new _ _ := ⟨trivial, trivial⟩
  bind_new _ _ _ :=
    ⟨trivial, fun _ hclient => absurd hclient.symm (Option.some_ne_none _)⟩
  bind_idle {id conn x} _ _ _ _ :=
    ⟨trivial, @createFCGIClient_ownId
      { conn with state := .ready, requestId := id } id rfl rfl config
      { x with requestId := id }⟩
  net_connect {s c id i} h _ hr _ _ :=
    ⟨trivial, @createFCGIClient_ownId (s.conns c).netConnect id rfl
      (h.entry_conn hr) config (s.intercepts i)⟩
  net_connect_idle _ _ := trivial
  retry _ _ _ _ _ := trivial
  fail _ _ := ⟨trivial, trivial⟩
  read {s c blocks id _ responseStatus _ _} _ _ _ _ hbound hrun := by
    have hreceived : ∀ client ∈ ((s.conns c).receive blocks).fcgiRequest,
        client.requestId = id := hbound
    have hnext := ownId_interceptTransferData hreceived hrun
    refine ⟨trivial, ?_⟩
    cases responseStatus with
    | false => exact hnext
    | true => exact ⟨trivial, fun _ => trivial⟩
  read_idle _ _ := trivial
  read_complete _ _ _ _ := ⟨trivial, fun _ => trivial⟩
  open_read hread := by
    obtain ⟨-, rfl⟩ := ServerConnection.read_eq_some.mp hread
    exact ⟨fun hbound => hbound, fun _ => trivial⟩
  input _ _ _ _ hbound hwrite := ⟨trivial, ownId_write hbound hwrite⟩
  input_kept _ _ := ⟨trivial, fun _ _ => trivial⟩
  destroy _ _ := ⟨trivial, fun _ _ => trivial⟩
  abort _ _ _ hbound := by
    split
    · exact hbound
    · exact fun _ => trivial
  respond _ := ⟨fun _ hbound => hbound, fun _ => trivial⟩

theorem ownId_strays : ownId.Strays Exists where
  input _ _ hwrite hbound := ownId_write hbound hwrite
  input_sent _ _ := ⟨trivial, fun _ => trivial⟩
  abort _ _ _ _ := trivial

/-- While ids do not wrap they are valid exactly if none above 65535 has come
to an FCGI client; fewer than 65536 requests are too few for that. -/
theorem idsValid_of_reach (parse : MimeHdrParse) (config : FcgiPluginConfig)
    (s : ServerState)
    (hreach : Transition.Reach (workerThread parse config) Exists s) :
    (s.issued < 65536 → s.IdsValid) ∧
      (s.issued < 2 ^ 32 - 1 →
        (s.IdsValid ↔ ∀ id i c, s.Registered id i c →
          (s.conns c).fcgiRequest.isSome = true → id < 65536)) := by
  have hiff : s.issued < 2 ^ 32 - 1 →
      (s.IdsValid ↔ ∀ id i c, s.Registered id i c →
        (s.conns c).fcgiRequest.isSome = true → id < 65536) := by
    intro hids
    have h := consistent_of_reach (fun _ _ he => he) hreach hids
    have hL := LocalPredicates.holds_of_reach_strays (fun _ _ he => he)
      (ownId_preserved parse config) ownId_strays hreach hids
    constructor
    · intro hvalid id i c hr hsome
      obtain ⟨client, hclient⟩ := Option.isSome_iff_exists.mp hsome
      have heq := (hvalid.header id i c hr client hclient 0).2
      rw [FcgiClientRequest.createHeader_requestId] at heq
      rw [← heq]
      exact Nat.mod_lt _ (by decide)
    · intro hsmall
      refine ⟨?_, ?_, ?_⟩
      · intro id i c hr
        exact Nat.ne_of_gt (h.entry_id hr).1
      · intro i c hr
        exact Nat.lt_irrefl _ (h.entry_id hr).2
      · intro id i c hr client hclient type
        have hid : client.requestId = id := hL.bound hr client hclient
        have hlt := hsmall id i c hr (Option.isSome_iff_exists.mpr ⟨_, hclient⟩)
        rw [client.createHeader_requestId, hid, Nat.mod_eq_of_lt hlt]
        exact ⟨Nat.ne_of_gt (h.entry_id hr).1, rfl⟩
  refine ⟨?_, hiff⟩
  intro hfew
  have hids : s.issued < 2 ^ 32 - 1 := Nat.lt_trans hfew (by decide)
  have h := consistent_of_reach (fun _ _ he => he) hreach hids
  apply (hiff hids).mpr
  intro id i c hr _
  have hlt := (h.entry_id hr).2
  rw [h.nextId_eq] at hlt
  exact Nat.lt_of_lt_of_le hlt hfew

namespace RequestIdWitness

theorem idsValid_final : RegistryWitness.final.IdsValid :=
  (idsValid_of_reach DecoderSafetyWitness.parse RegistryWitness.config
    RegistryWitness.final
    (Transition.Reach.after (.init rfl) (by decide +kernel))).1
    (by decide +kernel)

/-- A thread that may have 65536 connections. -/
def config : FcgiPluginConfig :=
  { RegistryWitness.config with maxConnLength := 393216 }

def txn : ClientRequest := RegistryWitness.txn (ascii "GET")

/-- After `n` requests, all on connections that are being established. -/
def crowded : Nat → ServerState
  | 0 => ServerState.new config
  | n + 1 => ((crowded n).setIntercept n (ServerIntercept.new txn 0)).connectNew
      n

/-- What is known of the crowd: request `n` is under id `n + 1` and on
connection `n`. -/
structure Crowd (n : Nat) (s : ServerState) : Prop where
  maxConn : s.pool.maxConn = 65536
  connections : s.pool.connections.length = n
  nextConn : s.nextConn = n
  nextId : s.nextId = n + 1
  issued : s.issued = n
  config_eq : s.config = config
  fault : s.fault = false
  unused : ∀ i, n ≤ i → (s.intercepts i).connected = false

theorem crowd_crowded {n : Nat} (hn : n ≤ 65536) : Crowd n (crowded n) := by
  induction n with
  | zero => exact ⟨by decide, rfl, rfl, rfl, rfl, rfl, rfl, fun _ _ => rfl⟩
  | succ n ih =>
      have h := ih (Nat.le_of_succ_le hn)
      have hid : ((crowded n).nextId + 1) % 2 ^ 32 = n + 1 + 1 := by
        rw [h.nextId, Nat.mod_eq_of_lt]
        omega
      refine ⟨h.maxConn, ?_, congrArg (· + 1) h.nextConn, hid,
        congrArg (· + 1) h.issued, h.config_eq, ?_, ?_⟩
      · show ((crowded n).pool.connections ++ [(crowded n).nextConn]).length =
          n + 1
        rw [List.length_append, h.connections]
        rfl
      · rw [crowded, ServerState.connectNew_fault,
          ServerState.setIntercept_intercepts_self]
        exact Bool.or_eq_false_iff.mpr ⟨h.fault, rfl⟩
      · intro i hi
        have hne : i ≠ n := Nat.ne_of_gt hi
        rw [crowded, ServerState.connectNew_intercepts_of_ne _ hne,
          ServerState.setIntercept_intercepts_of_ne _ _ hne]
        exact h.unused i (Nat.le_of_succ_le hi)

theorem crowded_reach (parse : MimeHdrParse) {n : Nat} (hn : n ≤ 65536) :
    Transition.Reach (workerThread parse config) Ats (crowded n) := by
  induction n with
  | zero => exact .init rfl
  | succ n ih =>
      have hle := Nat.le_of_succ_le hn
      have h := crowd_crowded hle
      refine .step (ih hle) ⟨h.unused n (Nat.le_refl n), trivial, trivial⟩
        (e := .connect n txn 0) ?_
      have hroom : ((crowded n).setIntercept n
          (ServerIntercept.new txn 0)).pool.connections.length <
          ((crowded n).setIntercept n
            (ServerIntercept.new txn 0)).pool.maxConn := by
        show (crowded n).pool.connections.length < (crowded n).pool.maxConn
        rw [h.connections, h.maxConn]
        exact hn
      exact ServerState.step_of_handle
        (congrArg some (ServerState.connect_new n hroom))
        (crowd_crowded hn).fault

theorem crowded_last {n : Nat} (hn : n < 65536) :
    (crowded (n + 1)).Registered (n + 1) n n ∧
      (crowded (n + 1)).conns n =
        { ServerConnection.new config with
          requestId := n + 1 }.createConnection := by
  have h := crowd_crowded (Nat.le_of_lt hn)
  have hnextConn : ((crowded n).setIntercept n
      (ServerIntercept.new txn 0)).nextConn = n := h.nextConn
  have hnextId : ((crowded n).setIntercept n
      (ServerIntercept.new txn 0)).nextId = n + 1 := h.nextId
  have hconfig : ((crowded n).setIntercept n
      (ServerIntercept.new txn 0)).config = config := h.config_eq
  constructor
  · rw [crowded, ServerState.registered_connectNew, if_pos hnextId]
    exact ⟨rfl, hnextConn⟩
  · have hself := ServerState.connectNew_conns_self
      ((crowded n).setIntercept n (ServerIntercept.new txn 0)) n
    rw [hnextConn, hnextId, hconfig] at hself
    exact hself

/-- The connection of the last request is established. -/
def attached (n : Nat) : ServerState := (crowded (n + 1)).onNetConnect n

theorem attached_reach (parse : MimeHdrParse) {n : Nat} (hn : n < 65536) :
    Transition.Reach (workerThread parse config) Ats (attached n) := by
  have hconn := (crowded_last hn).2
  refine .step (crowded_reach parse hn) ⟨?_, trivial, ?_⟩
    (e := .connection n .netConnect) (ServerState.step_of_handle rfl ?_)
  · show ((crowded (n + 1)).conns n).alive = true
    rw [hconn]
    rfl
  · show ((crowded (n + 1)).conns n).connecting = true
    rw [hconn]
    rfl
  · rw [attached, ServerState.onNetConnect_fault]
    exact (crowd_crowded hn).fault

theorem attached_client {n : Nat} (hn : n < 65536) :
    (attached n).Registered (n + 1) n n ∧
      ∃ client, ((attached n).conns n).fcgiRequest = some client := by
  obtain ⟨hr, hconn⟩ := crowded_last hn
  have hid : ((crowded (n + 1)).conns n).requestId = n + 1 := by
    rw [hconn]
    rfl
  have hget : (crowded (n + 1)).getIntercept
      ((crowded (n + 1)).conns n).requestId = some n := by
    rw [hid]
    exact ServerState.getIntercept_eq_some.mpr ⟨n, hr⟩
  have heq : attached n = _ := ServerState.onNetConnect_registered hget
  rw [heq]
  refine ⟨hr, ?_⟩
  have hself := ServerState.setConn_conns_self (crowded (n + 1)) n
    (((crowded (n + 1)).conns n).netConnect.createFCGIClient
      (crowded (n + 1)).config ((crowded (n + 1)).intercepts n)).1
  exact ⟨_, congrArg ServerConnection.fcgiRequest hself⟩

/-- Request 65536 goes by the id 0 on the wire. -/
theorem not_always_idsValid :
    ¬ ∀ parse config s,
      Transition.Reach (workerThread parse config) Ats s → s.IdsValid := by
  intro h
  have hlt : 65535 < 65536 := Nat.lt_succ_self 65535
  have hreach := attached_reach DecoderSafetyWitness.parse hlt
  obtain ⟨hr, client, hclient⟩ := attached_client hlt
  have hid := ((h _ _ _ hreach).header _ _ _ hr client hclient 0).2
  rw [FcgiClientRequest.createHeader_requestId] at hid
  have hsmall : client.requestId % 65536 < 65536 :=
    Nat.mod_lt _ (Nat.succ_pos 65535)
  rw [hid] at hsmall
  exact Nat.lt_irrefl _ hsmall

end RequestIdWitness

end AtsFastcgi
