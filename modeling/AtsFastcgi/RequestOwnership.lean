/-
Who wrote what.  Request ids number the requests in the order of their dispatch,
so the id under which something is written on a connection names one intercept:
everything under that id is made of what this intercept consumed, all of it is on
one connection, and two requests never write on a connection in turns.
-/
import AtsFastcgi.DispatchOrder
import AtsFastcgi.Isolation
import AtsFastcgi.RequestDelivery

namespace AtsFastcgi

open ServerState (ConnEvent Event)

/-! ### What other events leave of the input and of the writes -/

/-- The same request with the same input. -/
structure ServerIntercept.SameInput (x x' : ServerIntercept) : Prop where
  connected : x'.connected = x.connected
  txn : x'.txn = x.txn
  headers : x'.headers = x.headers
  bodies : x'.bodies = x.bodies
  inputCompletes : x'.inputCompletes = x.inputCompletes

theorem ServerIntercept.SameInput.refl (x : ServerIntercept) :
    x.SameInput x := ⟨rfl, rfl, rfl, rfl, rfl⟩

theorem ServerIntercept.SameInput.trans {x y z : ServerIntercept}
    (hxy : x.SameInput y) (hyz : y.SameInput z) : x.SameInput z where
  connected := hyz.connected.trans hxy.connected
  txn := hyz.txn.trans hxy.txn
  headers := hyz.headers.trans hxy.headers
  bodies := hyz.bodies.trans hxy.bodies
  inputCompletes := hyz.inputCompletes.trans hxy.inputCompletes

theorem ServerConnection.createFCGIClient_input (conn : ServerConnection)
    (config : FcgiPluginConfig) (x : ServerIntercept) :
    (conn.createFCGIClient config x).1.written = conn.written ∧
      x.SameInput (conn.createFCGIClient config x).2 := by
  unfold createFCGIClient
  split
  · exact ⟨rfl, rfl, rfl, rfl, rfl, rfl⟩
  · exact ⟨rfl, .refl x⟩

theorem interceptTransferData_input {parse : MimeHdrParse}
    {c new : ServerConnection} {i x : ServerIntercept} {responseStatus : Bool}
    (hrun : interceptTransferData parse c i = some (responseStatus, new, x)) :
    new.written = c.written ∧ i.SameInput x := by
  rcases ServerConnection.interceptTransferData_eq_some hrun with
    ⟨-, -, -, rfl, rfl⟩ | ⟨client, t, -, -, -, rfl, rfl⟩
  · exact ⟨rfl, .refl _⟩
  · exact ⟨rfl, rfl, rfl, rfl, rfl, rfl⟩

namespace ServerState

/-- Nothing is consumed and nothing is written; a connection may be a new
one. -/
structure Unfed (s s' : ServerState) : Prop where
  written : ∀ c, (s'.conns c).written = (s.conns c).written ∨
    (s'.conns c).written = []
  input : ∀ i, (s.intercepts i).SameInput (s'.intercepts i)

namespace Unfed

variable {s s₁ s' : ServerState}

theorem refl (s : ServerState) : s.Unfed s :=
  ⟨fun _ => .inl rfl, fun i => .refl (s.intercepts i)⟩

theorem trans (h : s.Unfed s₁) (h' : s₁.Unfed s') : s.Unfed s' where
  written c := by
    rcases h'.written c with hsame | hnew
    · rw [hsame]
      exact h.written c
    · exact .inr hnew
  input i := (h.input i).trans (h'.input i)

theorem setConn (h : s.Unfed s') (c : ConnId) (conn : ServerConnection)
    (hwritten : conn.written = (s'.conns c).written ∨ conn.written = []) :
    s.Unfed (s'.setConn c conn) := by
  refine h.trans ⟨fun d => ?_, fun i => .refl (s'.intercepts i)⟩
  by_cases hdc : d = c
  · subst hdc
    rw [setConn_conns_self]
    exact hwritten
  · rw [setConn_conns_of_ne s' conn hdc]
    exact .inl rfl

theorem setIntercept (h : s.Unfed s') (i : InterceptId) (x : ServerIntercept)
    (hx : (s'.intercepts i).SameInput x) : s.Unfed (s'.setIntercept i x) := by
  refine h.trans ⟨fun c => .inl rfl, fun j => ?_⟩
  by_cases hji : j = i
  · subst hji
    rw [setIntercept_intercepts_self]
    exact hx
  · rw [setIntercept_intercepts_of_ne s' x hji]
    exact .refl _

/-- The books do not matter. -/
theorem of_objects (h : s.Unfed s₁) (hconns : s'.conns = s₁.conns)
    (hintercepts : s'.intercepts = s₁.intercepts) : s.Unfed s' where
  written c := by
    rw [hconns]
    exact h.written c
  input i := by
    rw [hintercepts]
    exact h.input i

theorem createFCGIClient (h : s.Unfed s') (i : InterceptId) (c : ConnId) :
    s.Unfed (s'.createFCGIClient i c) := by
  obtain ⟨hwritten, hinput⟩ := (s'.conns c).createFCGIClient_input s'.config
    (s'.intercepts i)
  exact (h.setConn c _ (.inl hwritten)).setIntercept i _ hinput

theorem register (h : s.Unfed s') (i : InterceptId) (c : ConnId) :
    s.Unfed (s'.register i c) := by
  have hset := (h.setIntercept i { s'.intercepts i with
    requestId := s'.nextId } ⟨rfl, rfl, rfl, rfl, rfl⟩).setConn c
    { s'.conns c with requestId := s'.nextId } (.inl rfl)
  exact hset.of_objects rfl rfl

theorem addConnection (h : s.Unfed s') : s.Unfed s'.addConnection :=
  (h.setConn s'.nextConn (ServerConnection.new s'.config) (.inr rfl)).of_objects
    rfl rfl

theorem takeAvailable (h : s.Unfed s') (c : ConnId) (rest : List ConnId) :
    s.Unfed (s'.takeAvailable c rest) :=
  (h.setConn c { s'.conns c with state := .ready } (.inl rfl)).of_objects
    rfl rfl

theorem connect (h : s.Unfed s') (i : InterceptId) :
    s.Unfed (s'.connect i) := by
  rcases s'.connect_cases i with ⟨-, heq⟩ | ⟨c, rest, -, -, heq⟩ |
    ⟨-, -, heq⟩
  · rw [heq]
    exact (h.addConnection.register i s'.nextConn).setConn _ _ (.inl rfl)
  · rw [heq]
    exact ((h.takeAvailable c rest).register i c).createFCGIClient i c
  · rw [heq]
    exact h.of_objects rfl rfl

theorem connectNext (h : s.Unfed s') : s.Unfed s'.connectNext := by
  unfold ServerState.connectNext
  split
  · refine connect ?_ _
    exact h.of_objects rfl rfl
  · exact h

theorem connectionClosed (h : s.Unfed s') (c : ConnId) :
    s.Unfed (s'.connectionClosed c) :=
  (h.setConn c { s'.conns c with alive := false } (.inl rfl)).of_objects rfl rfl

theorem closeConnection (h : s.Unfed s') (c : ConnId) :
    s.Unfed (s'.closeConnection c) := by
  refine connectionClosed ?_ c
  exact h.setConn c _ (.inl rfl)

theorem reuseConnection (h : s.Unfed s') (c : ConnId) :
    s.Unfed (s'.reuseConnection c) :=
  (h.setConn c (s'.conns c).reuse (.inl rfl)).of_objects rfl rfl

theorem releaseConnection (h : s.Unfed s') (c : ConnId) :
    s.Unfed (s'.releaseConnection c) := by
  have hdetach := (s'.conns c).detach_written
  unfold ServerState.releaseConnection
  simp only
  split
  · exact (h.setConn c _ (.inl hdetach)).reuseConnection c
  · exact (h.setConn c { (s'.conns c).detach with state := .closed }
      (.inl hdetach)).connectionClosed c

theorem removeIntercept (h : s.Unfed s') (id : Nat) :
    s.Unfed (s'.removeIntercept id) := by
  unfold ServerState.removeIntercept
  split
  · have herased : s.Unfed (s'.unregister id) := h.of_objects rfl rfl
    exact (herased.releaseConnection _).connectNext
  · exact h

theorem complete (h : s.Unfed s') (i : InterceptId) (c : ConnId) :
    s.Unfed (s'.complete i c) := by
  have hset := h.setConn c { s'.conns c with state := .complete } (.inl rfl)
  have hpair := hset.setIntercept i (s'.intercepts i).outputComplete
    ⟨rfl, rfl, rfl, rfl, rfl⟩
  exact hpair.removeIntercept _

theorem retry (h : s.Unfed s') (c : ConnId) : s.Unfed (s'.retry c) := by
  refine closeConnection ?_ c
  unfold ServerState.reConnect
  split
  · refine connect ?_ _
    exact h.of_objects rfl rfl
  · exact h

theorem onReadReady {parse : MimeHdrParse} {c : ConnId} {blocks : List Bytes}
    (hstep : s.onReadReady parse c blocks = some s') : s.Unfed s' := by
  rcases onReadReady_cases hstep with ⟨-, rfl⟩ |
    ⟨i, responseStatus, conn, x, -, hrun, rfl⟩
  · exact (refl s).setConn c _ (.inl rfl)
  · obtain ⟨hwritten, hinput⟩ := interceptTransferData_input hrun
    have hpair : s.Unfed ((s.setConn c conn).setIntercept i x) :=
      ((refl s).setConn c conn (.inl hwritten)).setIntercept i x hinput
    cases responseStatus with
    | true => exact hpair.complete i c
    | false => exact hpair

/-- Closing a connection whose request has failed. -/
theorem fail (s : ServerState) (i : InterceptId) (c : ConnId) :
    s.Unfed ((s.setIntercept i (s.intercepts i).error).closeConnection c) ∧
      s.Unfed
        ((s.setIntercept i (s.intercepts i).badGateway).closeConnection c) :=
  ⟨((refl s).setIntercept i (s.intercepts i).error
      ⟨rfl, rfl, rfl, rfl, rfl⟩).closeConnection c,
    ((refl s).setIntercept i (s.intercepts i).badGateway
      ⟨rfl, rfl, rfl, rfl, rfl⟩).closeConnection c⟩

theorem connection {parse : MimeHdrParse} {c : ConnId} {event : ConnEvent}
    (hstep : s.handlePHPConnectionEvents parse c event = some s') :
    s.Unfed s' := by
  have hread : ∀ {s'}, (s.conns c).read.map (s.setConn c) = some s' →
      s.Unfed s' := by
    intro s' hmap
    obtain ⟨conn, hopen, rfl⟩ := Option.map_eq_some_iff.mp hmap
    obtain ⟨-, rfl⟩ := ServerConnection.read_eq_some.mp hopen
    exact (refl s).setConn c _ (.inl rfl)
  cases event with
  | netConnect =>
      have hset : s.Unfed (s.setConn c (s.conns c).netConnect) :=
        (refl s).setConn c _ (.inl rfl)
      rw [← Option.some.inj hstep]
      unfold onNetConnect
      simp only
      split
      · exact hset.createFCGIClient _ c
      · exact hset
  | netConnectFailed =>
      rw [← Option.some.inj hstep]
      exact (refl s).retry c
  | readReady blocks => exact onReadReady hstep
  | readComplete =>
      simp only [handlePHPConnectionEvents] at hstep
      split at hstep
      · rw [← Option.some.inj hstep]
        exact (refl s).complete _ c
      · contradiction
  | writeReady =>
      simp only [handlePHPConnectionEvents] at hstep
      split at hstep
      · exact hread hstep
      · rw [← Option.some.inj hstep]
        exact refl s
  | writeComplete => exact hread hstep
  | eos =>
      rw [← Option.some.inj hstep]
      split
      · unfold onLateEos
        split
        · split
          · exact (fail s _ c).1
          · exact (refl s).closeConnection c
        · exact (refl s).closeConnection c
      · exact (refl s).retry c
  | error =>
      simp only [handlePHPConnectionEvents] at hstep
      split at hstep
      · rw [← Option.some.inj hstep]
        unfold onError
        split
        · exact (fail s _ c).2
        · exact (refl s).connectionClosed c
      · contradiction

theorem destroy (s : ServerState) (i : InterceptId) : s.Unfed (s.destroy i) := by
  unfold ServerState.destroy
  simp only
  split
  · exact (refl s).setIntercept i _ ⟨rfl, rfl, rfl, rfl, rfl⟩
  · have hset := (refl s).setIntercept i { s.intercepts i with
      destroyed := true, clientAborted := true } ⟨rfl, rfl, rfl, rfl, rfl⟩
    exact hset.removeIntercept _

end Unfed

end ServerState

/-! ### What an intercept may write -/

/-- A transaction feeds its own intercepts, in order; the connections may do
what they like. -/
def FedInOrder (s : ServerState) (e : Event) : Prop :=
  Exists s e ∧ Owns s e ∧ match e with
    | .input i input => (s.intercepts i).Feeds input
    | _ => True

instance (s : ServerState) : (e : Event) → Decidable (FedInOrder s e)
  | .input .. => inferInstanceAs (Decidable (_ ∧ _ ∧ _))
  | .connect .. | .connection .. | .destroy .. | .respond .. =>
      inferInstanceAs (Decidable (_ ∧ _ ∧ True))

/-- The buffer is made of what the intercept has consumed, for the id `id`. -/
inductive ServerIntercept.Wrote (config : FcgiPluginConfig)
    (x : ServerIntercept) (id : Nat) : Bytes → Prop
  | header (hheaders : x.headers ≠ []) :
      Wrote config x id (x.request config id).preamble
  | body {data : Bytes} (hdata : data ∈ x.bodies) :
      Wrote config x id ((x.request config id).bodyBuffer data)
  | complete (hcompletes : 0 < x.inputCompletes) :
      Wrote config x id (x.request config id).endBuffer

/-- The request goes on, and nothing that was consumed is forgotten. -/
structure ServerIntercept.Grows (x x' : ServerIntercept) : Prop where
  connected : x'.connected = x.connected
  txn : x'.txn = x.txn
  headers : x.headers ≠ [] → x'.headers ≠ []
  bodies : ∀ data ∈ x.bodies, data ∈ x'.bodies
  inputCompletes : x.inputCompletes ≤ x'.inputCompletes

theorem ServerIntercept.SameInput.grows {x x' : ServerIntercept}
    (h : x.SameInput x') : x.Grows x' where
  connected := h.connected
  txn := h.txn
  headers hne := by rwa [h.headers]
  bodies data hdata := by rwa [h.bodies]
  inputCompletes := Nat.le_of_eq h.inputCompletes.symm

theorem ServerIntercept.Wrote.grows {config : FcgiPluginConfig}
    {x x' : ServerIntercept} {id : Nat} {buf : Bytes}
    (h : x.Wrote config id buf) (hgrows : x.Grows x') :
    x'.Wrote config id buf := by
  have hrequest : x.request config id = x'.request config id := by
    rw [request, request, hgrows.txn]
  cases h with
  | header hheaders =>
      rw [hrequest]
      exact .header (hgrows.headers hheaders)
  | body hdata =>
      rw [hrequest]
      exact .body (hgrows.bodies _ hdata)
  | complete hcompletes =>
      rw [hrequest]
      exact .complete (Nat.lt_of_lt_of_le hcompletes hgrows.inputCompletes)

theorem ClientInput.grows (input : ClientInput) (x : ServerIntercept) :
    x.Grows (input.sent (input.log x)) ∧ x.Grows (input.kept (input.log x)) := by
  cases input with
  | header data =>
      have hne : x.headers ++ [data] ≠ [] :=
        List.append_ne_nil_of_right_ne_nil _ (List.cons_ne_nil data [])
      exact ⟨⟨rfl, rfl, fun _ => hne, fun _ h => h, Nat.le_refl _⟩,
        rfl, rfl, fun _ => hne, fun _ h => h, Nat.le_refl _⟩
  | body data =>
      have hold : ∀ d ∈ x.bodies, d ∈ x.bodies ++ [data] :=
        fun d hd => List.mem_append_left _ hd
      exact ⟨⟨rfl, rfl, fun h => h, hold, Nat.le_refl _⟩,
        rfl, rfl, fun h => h, hold, Nat.le_refl _⟩
  | complete =>
      exact ⟨⟨rfl, rfl, fun h => h, fun _ h => h, Nat.le_succ _⟩,
        rfl, rfl, fun h => h, fun _ h => h, Nat.le_succ _⟩

/-- The FCGI client of a registered connection is that of its intercept, and
its buffer is empty as long as nothing is written. -/
def ownClient (config : FcgiPluginConfig) : LocalPredicates where
  ever _ := True
  waiting _ := True
  idle _ := True
  bound id conn x := ∀ client ∈ conn.fcgiRequest,
    client.SameRequest (x.request config id) ∧
      (x.headers = [] → client.buff = [])

theorem ownClient_attached {config : FcgiPluginConfig} {id : Nat}
    {conn : ServerConnection} {x : ServerIntercept} (hid : conn.requestId = id)
    (hready : conn.state = .ready) :
    (ownClient config).bound id (conn.createFCGIClient config x).1
      (conn.createFCGIClient config x).2 := by
  simp only [ServerConnection.createFCGIClient, hready, true_or, if_true]
  intro client hclient
  obtain rfl := Option.some.inj hclient
  rw [hid]
  exact ⟨.refl _, fun _ => (FcgiClientRequest.new_fresh config id x.txn).1⟩

/-- A write on the connection of an intercept is made of its input, and leaves
the FCGI client the one of the intercept. -/
theorem ownClient_write {config : FcgiPluginConfig} {id : Nat}
    {conn conn' : ServerConnection} {x : ServerIntercept} {input : ClientInput}
    (hid : conn.requestId = id) (hfeeds : x.Feeds input)
    (hbound : (ownClient config).bound id conn x)
    (hwrite : input.write conn = some conn') :
    (ownClient config).bound id conn' (input.sent (input.log x)) ∧
      ∃ buf, conn'.written = conn.written ++ [(id, buf)] ∧
        (input.sent (input.log x)).Wrote config id buf := by
  obtain ⟨client, client', buf, hclient, hprepare, hbuf, -, rfl⟩ :=
    ServerConnection.write_eq_some.mp hwrite
  obtain ⟨-, rfl⟩ := FcgiClientRequest.addClientRequest_eq_some.mp hbuf
  obtain ⟨hsame, hbuff⟩ := hbound client hclient
  obtain ⟨postData, buff, hclient'⟩ :=
    ServerConnection.prepare_eq_some hprepare
  have hsame' : client'.SameRequest (x.request config id) := by
    rw [hclient']
    exact hsame
  have hgrows := (input.grows x).1
  have hrequest : (input.sent (input.log x)).request config id =
      x.request config id := by
    rw [ServerIntercept.request, hgrows.txn]
    rfl
  constructor
  · intro c hc
    obtain rfl := Option.some.inj hc
    rw [hrequest]
    refine ⟨hsame', fun hheaders => ?_⟩
    cases input with
    | header data =>
        exact absurd hheaders (List.append_ne_nil_of_right_ne_nil _
          (List.cons_ne_nil data []))
    | body data => exact absurd hheaders hfeeds.1
    | complete => exact absurd hheaders hfeeds.1
  · refine ⟨client'.buff, by rw [← hid], ?_⟩
    cases input with
    | header data =>
        obtain rfl := Option.some.inj hprepare
        have hpreamble : client.createBeginRequest.buff =
            (((ClientInput.header data).sent
              ((ClientInput.header data).log x)).request config id).preamble :=
            by
          rw [hrequest, ← hsame.preamble, FcgiClientRequest.createBeginRequest,
            hbuff hfeeds, List.nil_append]
        rw [hpreamble]
        exact .header (List.append_ne_nil_of_right_ne_nil _
          (List.cons_ne_nil data []))
    | body data =>
        obtain ⟨-, rfl⟩ := ClientInput.prepare_body.mp hprepare
        have hbuffer : client.bodyBuffer data =
            (((ClientInput.body data).sent
              ((ClientInput.body data).log x)).request config id).bodyBuffer
              data := by
          rw [hrequest, hsame.bodyBuffer]
        show ServerIntercept.Wrote config _ id (client.bodyBuffer data)
        rw [hbuffer]
        exact .body (List.mem_append_right _ (List.mem_singleton_self data))
    | complete =>
        rw [ClientInput.prepare_complete] at hprepare
        obtain rfl := Option.some.inj hprepare
        have hbuffer : client.endBuffer =
            ((ClientInput.complete.sent
              (ClientInput.complete.log x)).request config id).endBuffer := by
          rw [hrequest, hsame.endBuffer]
        show ServerIntercept.Wrote config _ id client.endBuffer
        rw [hbuffer]
        exact .complete (Nat.succ_pos _)

theorem ownClient_preserved (parse : MimeHdrParse)
    (config : FcgiPluginConfig) :
    (ownClient config).Preserved parse config FedInOrder where
  new _ _ := ⟨trivial, trivial⟩
  bind_new _ _ _ :=
    ⟨trivial, fun _ hclient => absurd hclient.symm (Option.some_ne_none _)⟩
  bind_idle _ _ _ _ := ⟨trivial, ownClient_attached rfl rfl⟩
  net_connect h _ hr _ _ :=
    ⟨trivial, ownClient_attached (h.entry_conn hr) rfl⟩
  net_connect_idle _ _ := trivial
  retry _ _ _ _ _ := trivial
  fail _ _ := ⟨trivial, trivial⟩
  read {s c blocks id i responseStatus conn x} _ _ _ _ hbound hrun := by
    refine ⟨trivial, ?_⟩
    cases responseStatus with
    | true => exact ⟨trivial, fun _ => trivial⟩
    | false =>
        rcases ServerConnection.interceptTransferData_eq_some hrun with
          ⟨-, -, -, rfl, rfl⟩ | ⟨client, t, hclient, -, -, rfl, rfl⟩
        · exact hbound
        · intro client' hin
          obtain rfl := Option.some.inj hin
          exact hbound client hclient
  read_idle _ _ := trivial
  read_complete _ _ _ _ := ⟨trivial, fun _ => trivial⟩
  open_read hread := by
    obtain ⟨-, rfl⟩ := ServerConnection.read_eq_some.mp hread
    exact ⟨fun hbound => hbound, fun _ => trivial⟩
  input {s c id i input conn} h hguard hr _ hbound hwrite := by
    obtain rfl := h.entry_conn hr
    have hfeeds : (s.intercepts i).Feeds input := hguard.2.2
    exact ⟨trivial, (ownClient_write rfl hfeeds hbound hwrite).1⟩
  input_kept _ _ := ⟨trivial, fun _ _ => trivial⟩
  destroy _ _ := ⟨trivial, fun _ _ => trivial⟩
  abort {s i id c} _ _ _ hbound := by
    split
    · simp only [ServerIntercept.destroyedObject]
      split <;> exact hbound
    · exact fun _ => trivial
  respond _ := ⟨fun _ hbound => hbound, fun _ => trivial⟩

/-! ### Runs -/

section Step

variable {parse : MimeHdrParse} {config : FcgiPluginConfig}
  {s s' : ServerState} {e : Event}

/-- What an event does to the write log of a connection. -/
inductive WriteStep (config : FcgiPluginConfig) (s s' : ServerState)
    (c : ConnId) : Prop
  | same (hsame : (s'.conns c).written = (s.conns c).written)
  | new (hnew : (s'.conns c).written = [])
  | write {id : Nat} {i : InterceptId} {buf : Bytes}
      (hr : s.Registered id i c)
      (hwritten : (s'.conns c).written = (s.conns c).written ++ [(id, buf)])
      (hwrote : (s'.intercepts i).Wrote config id buf)

theorem ServerState.Unfed.writeStep (h : s.Unfed s') (c : ConnId) :
    WriteStep config s s' c := by
  rcases h.written c with hsame | hnew
  · exact .same hsame
  · exact .new hnew

/-- Without input nothing is written. -/
theorem writeStep_of_no_input (hinput : ∀ i input, e ≠ .input i input)
    (hstep : s.step parse e = some s') (c : ConnId) :
    WriteStep config s s' c := by
  replace hstep := ServerState.handle_of_step hstep
  cases e with
  | connect i txn requestId =>
      rw [← Option.some.inj hstep]
      have hrun := (ServerState.Unfed.refl
        (s.setIntercept i (ServerIntercept.new txn requestId))).connect i
      rcases hrun.written c with hsame | hnew
      · exact .same hsame
      · exact .new hnew
  | connection d event =>
      exact (ServerState.Unfed.connection hstep).writeStep c
  | destroy i =>
      rw [← Option.some.inj hstep]
      exact (ServerState.Unfed.destroy s i).writeStep c
  | input i input => exact absurd rfl (hinput i input)
  | respond d r =>
      rw [← Option.some.inj hstep]
      refine ServerState.Unfed.writeStep ?_ c
      exact (ServerState.Unfed.refl s).setConn d _ (.inl rfl)

/-- A connection is written on by the input of the intercept that is registered
on it. -/
theorem writeStep_of_step (h : Consistent config s)
    (hL : (ownClient config).Holds s) (hguard : FedInOrder s e)
    (hstep : s.step parse e = some s') (c : ConnId) :
    WriteStep config s s' c := by
  cases e with
  | input i input =>
      rcases ServerState.consume_cases (ServerState.handle_of_step hstep) with
        ⟨i', d, conn, hr, hwrite, rfl⟩ | ⟨-, rfl⟩
      · by_cases hcd : c = d
        · subst hcd
          obtain rfl := h.owned_entry i hguard.2.1 hr
          have hid := h.entry_conn hr
          have hfeeds : (s.intercepts i').Feeds input := hguard.2.2
          obtain ⟨-, buf, hwritten, hwrote⟩ :=
            ownClient_write hid hfeeds (hL.bound hr) hwrite
          refine @WriteStep.write config s _ c _ _ buf hr ?_ ?_
          · show ((s.setConn c conn).conns c).written = _
            rw [ServerState.setConn_conns_self]
            exact hwritten
          · rw [ServerState.setIntercept_intercepts_self]
            exact hwrote
        · refine .same ?_
          show ((s.setConn d conn).conns c).written = _
          rw [ServerState.setConn_conns_of_ne s conn hcd]
      · exact .same rfl
  | connect | connection | destroy | respond =>
      exact writeStep_of_no_input (fun _ _ => Event.noConfusion) hstep c

/-- A request goes on with what it has consumed. -/
theorem grows_of_step (hguard : FedInOrder s e) (hstep : s.step parse e = some s')
    {i : InterceptId} (hconnected : (s.intercepts i).connected = true) :
    (s.intercepts i).Grows (s'.intercepts i) := by
  replace hstep := ServerState.handle_of_step hstep
  cases e with
  | connect j txn requestId =>
      have hexists : (s.intercepts j).connected = false := hguard.1
      have hne : i ≠ j := by
        rintro rfl
        rw [hconnected] at hexists
        contradiction
      rw [← Option.some.inj hstep]
      have hrun := (ServerState.Unfed.refl
        (s.setIntercept j (ServerIntercept.new txn requestId))).connect j
      have hsame := hrun.input i
      rw [ServerState.setIntercept_intercepts_of_ne s _ hne] at hsame
      exact hsame.grows
  | connection d event =>
      exact ((ServerState.Unfed.connection hstep).input i).grows
  | destroy j =>
      rw [← Option.some.inj hstep]
      exact ((ServerState.Unfed.destroy s j).input i).grows
  | input j input =>
      have hinput : ∀ x, (x = input.sent (input.log (s.intercepts j)) ∨
          x = input.kept (input.log (s.intercepts j))) →
          (s.intercepts i).Grows ((s.setIntercept j x).intercepts i) := by
        intro x hx
        by_cases hij : i = j
        · subst hij
          rw [ServerState.setIntercept_intercepts_self]
          rcases hx with rfl | rfl
          · exact (input.grows _).1
          · exact (input.grows _).2
        · rw [ServerState.setIntercept_intercepts_of_ne s x hij]
          exact (ServerIntercept.SameInput.refl _).grows
      rcases ServerState.consume_cases hstep with
        ⟨i', d, conn, -, -, rfl⟩ | ⟨-, rfl⟩
      · exact hinput _ (.inl rfl)
      · exact hinput _ (.inr rfl)
  | respond d r =>
      rw [← Option.some.inj hstep]
      exact (ServerIntercept.SameInput.refl _).grows

end Step

/-- Every request has its own part of one write log. -/
structure WritesApart (s : ServerState) : Prop where
  sorted : ∀ c, (s.conns c).written.Pairwise fun w w' => w.1 ≤ w'.1
  latest : ∀ {id i c}, s.Registered id i c →
    ∀ w ∈ (s.conns c).written, w.1 ≤ id
  place : ∀ {c w}, w ∈ (s.conns c).written → ∀ {i d}, s.Registered w.1 i d →
    d = c
  apart : ∀ {c w}, w ∈ (s.conns c).written →
    ∀ {c' w'}, w' ∈ (s.conns c').written → w.1 = w'.1 → c = c'

theorem WriteStep.mem {config : FcgiPluginConfig} {s s' : ServerState}
    {c : ConnId} (h : WriteStep config s s' c) {w : Nat × Bytes}
    (hw : w ∈ (s'.conns c).written) :
    w ∈ (s.conns c).written ∨
      ∃ i, s.Registered w.1 i c ∧ (s'.intercepts i).Wrote config w.1 w.2 := by
  cases h with
  | same hsame =>
      rw [hsame] at hw
      exact .inl hw
  | new hnew =>
      rw [hnew] at hw
      exact absurd hw List.not_mem_nil
  | @write id i buf hr hwritten hwrote =>
      rw [hwritten] at hw
      rcases List.mem_append.mp hw with hold | hnew
      · exact .inl hold
      · rw [List.mem_singleton.mp hnew]
        exact .inr ⟨i, hr, hwrote⟩

/-- What has to be known of the ids of writes and entries. -/
structure IdsInUse (s : ServerState) : Prop where
  nextId_eq : s.nextId = s.issued + 1
  written_lt : ∀ c, ∀ w ∈ (s.conns c).written, w.1 < s.nextId
  entry_lt : ∀ {id i c}, s.Registered id i c → id < s.nextId
  conn_unique : ∀ {id id' i i' c}, s.Registered id i c →
    s.Registered id' i' c → id = id'

theorem Consistent.idsInUse {config : FcgiPluginConfig} {s : ServerState}
    (h : Consistent config s) : IdsInUse s where
  nextId_eq := h.nextId_eq
  written_lt := h.written_lt
  entry_lt hr := (h.entry_id hr).2
  conn_unique hr hr' := (h.conn_unique hr hr').1

/-- An event writes under ids in use only. -/
theorem WriteStep.lt {config : FcgiPluginConfig} {s s' : ServerState}
    (h : IdsInUse s) {c : ConnId} (hwrites : WriteStep config s s' c)
    {w : Nat × Bytes} (hw : w ∈ (s'.conns c).written) : w.1 < s.nextId := by
  rcases hwrites.mem hw with hold | ⟨j, hr, -⟩
  · exact h.written_lt c w hold
  · exact h.entry_lt hr

theorem WritesApart.step {config : FcgiPluginConfig} {s s' : ServerState}
    {starts : List InterceptId} (h : IdsInUse s)
    (hapart : WritesApart s) (hnumbers : s.Numbers s' starts)
    (hwrites : ∀ c, WriteStep config s s' c) : WritesApart s' := by
  -- what is written on a connection later than before is of its own request
  have hplace : ∀ {c w}, w ∈ (s'.conns c).written → ∀ {i d},
      s.Registered w.1 i d → d = c := by
    intro c w hw i d hr
    rcases (hwrites c).mem hw with hold | ⟨j, hr', -⟩
    · exact hapart.place hold hr
    · have heq := hr.symm.trans hr'
      simp only [Option.some.injEq, Prod.mk.injEq] at heq
      exact heq.2
  constructor
  · intro c
    cases hwrites c with
    | same hsame =>
        rw [hsame]
        exact hapart.sorted c
    | new hnew =>
        rw [hnew]
        exact .nil
    | write hr hwritten hwrote =>
        rw [hwritten, List.pairwise_append]
        refine ⟨hapart.sorted c, List.pairwise_singleton _ _, ?_⟩
        intro w hw w' hw'
        rw [List.mem_singleton.mp hw']
        exact hapart.latest hr w hw
  · intro id i c hr w hw
    rcases hnumbers.registered hr with hold | ⟨k, hid, -⟩
    · rcases (hwrites c).mem hw with hold' | ⟨j, hr', -⟩
      · exact hapart.latest hold w hold'
      · exact Nat.le_of_eq (h.conn_unique hr' hold)
    · have hnew := (hwrites c).lt h hw
      rw [h.nextId_eq] at hnew
      omega
  · intro c w hw i d hr
    rcases hnumbers.registered hr with hold | ⟨k, hid, -⟩
    · exact hplace hw hold
    · have hnew := (hwrites c).lt h hw
      rw [h.nextId_eq] at hnew
      omega
  · intro c w hw c' w' hw' hsame
    rcases (hwrites c).mem hw with hold | ⟨j, hr, -⟩
    · rcases (hwrites c').mem hw' with hold' | ⟨j', hr', -⟩
      · exact hapart.apart hold hold' hsame
      · rw [← hsame] at hr'
        exact (hplace hw hr').symm
    · rw [hsame] at hr
      exact hplace hw' hr

/-- The requests in the order of their ids. -/
def dispatched (parse : MimeHdrParse) (config : FcgiPluginConfig)
    (events : List Event) : List InterceptId :=
  Dispatcher.started (ServerState.new config).dispatcher
    (schedule parse config (ServerState.new config) events)

section Runs

variable {parse : MimeHdrParse} {config : FcgiPluginConfig}
  {s s' : ServerState} {events : List Event} {e : Event}

/-- The id of a registered request is its number. -/
theorem dispatched_of_registered
    (hrun : Transition.Run (workerThread parse config) Exists
      (ServerState.new config) events s)
    (hids : s.issued < 2 ^ 32 - 1) {id : Nat} {i : InterceptId} {c : ConnId}
    (hr : s.Registered id i c) :
    (dispatched parse config events)[id - 1]? = some i := by
  obtain ⟨-, hregistered⟩ := numbers_of_run (.init config) hrun hids
  rcases hregistered hr with hold | ⟨k, rfl, hk⟩
  · exact absurd hold (by simp [ServerState.Registered, ServerState.new])
  · rw [show (ServerState.new config).issued = 0 from rfl, Nat.zero_add,
      Nat.add_sub_cancel_left]
    exact hk

theorem dispatched_concat
    (hrun : Transition.Run (workerThread parse config) Exists
      (ServerState.new config) events s)
    (hids : s.issued < 2 ^ 32 - 1) (hstep : s.step parse e = some s') :
    ∃ more, dispatched parse config (events ++ [e]) =
      dispatched parse config events ++ more := by
  rw [dispatched, schedule,
    @Transition.actions_concat _ _ _ (workerThread parse config) _
      (ServerState.action parse) _ _ _ _ _ hrun hstep]
  exact ⟨_, (runs_of_run (.init config) hrun hids).started_append _⟩

/-- Every part of a write log is made of the input of the intercept whose
number is the id it was written under. -/
def WritesAttributed (parse : MimeHdrParse) (config : FcgiPluginConfig)
    (events : List Event) (s : ServerState) : Prop :=
  ∀ c, ∀ w ∈ (s.conns c).written, ∃ i,
    (dispatched parse config events)[w.1 - 1]? = some i ∧
      (s.intercepts i).connected = true ∧
      (s.intercepts i).Wrote config w.1 w.2

theorem WritesAttributed.step
    (hrun : Transition.Run (workerThread parse config) FedInOrder
      (ServerState.new config) events s)
    (hids : s'.issued < 2 ^ 32 - 1)
    (hwrites : WritesAttributed parse config events s) (hguard : FedInOrder s e)
    (hstep : s.step parse e = some s') :
    WritesAttributed parse config (events ++ [e]) s' := by
  have hexists := hrun.mono fun _ _ h => h.1
  have hlt := Nat.lt_of_le_of_lt (ServerState.step_issued hstep) hids
  have h := (scheduled_of_run (.init config) hexists hlt).consistent
  have hL := LocalPredicates.holds_of_reach (fun _ _ h => ⟨h.1, h.2.1⟩)
    (ownClient_preserved parse config)
    ((Transition.Reach.init rfl).run hrun) hlt
  obtain ⟨more, hmore⟩ := dispatched_concat hexists hlt hstep
  have hnumber : ∀ {n : Nat} {i : InterceptId},
      (dispatched parse config events)[n]? = some i →
      (dispatched parse config (events ++ [e]))[n]? = some i := by
    intro n i hn
    rw [hmore, List.getElem?_append_left (List.getElem?_eq_some_iff.mp hn).1]
    exact hn
  intro c w hw
  rcases (writeStep_of_step h hL hguard hstep c).mem hw with
    hold | ⟨i, hr, hwrote⟩
  · obtain ⟨i, hi, hconnected, hwrote⟩ := hwrites c w hold
    have hgrows := grows_of_step hguard hstep hconnected
    exact ⟨i, hnumber hi, hgrows.connected.trans hconnected,
      hwrote.grows hgrows⟩
  · have hconnected := h.entry_connected hr
    have hgrows := grows_of_step hguard hstep hconnected
    exact ⟨i, hnumber (dispatched_of_registered hexists hlt hr),
      hgrows.connected.trans hconnected, hwrote⟩

end Runs

theorem writesAttributed_of_run {parse : MimeHdrParse}
    {config : FcgiPluginConfig} {events : List Event} {s : ServerState}
    (hrun : Transition.Run (workerThread parse config) FedInOrder
      (ServerState.new config) events s)
    (hids : s.issued < 2 ^ 32 - 1) :
    WritesAttributed parse config events s := by
  refine hrun.induction_end (P := fun events s =>
    s.issued < 2 ^ 32 - 1 → WritesAttributed parse config events s) ?_ ?_ hids
  · intro _ c w hw
    exact absurd hw List.not_mem_nil
  · intro events s e s' hfront hP hguard hstep hids
    exact (hP (Nat.lt_of_le_of_lt (ServerState.step_issued hstep)
      hids)).step hfront hids hguard hstep

/-- Whatever is written on any connection under an id is made of the input of
one intercept, the one that was dispatched with this number. -/
theorem writes_attributed (parse : MimeHdrParse) (config : FcgiPluginConfig)
    (events : List Event) (s : ServerState)
    (hrun : Transition.Run (workerThread parse config) FedInOrder
      (ServerState.new config) events s)
    (hids : s.issued < 2 ^ 32 - 1) (c : ConnId) (w : Nat × Bytes)
    (hw : w ∈ (s.conns c).written) :
    ∃ i, (dispatched parse config events)[w.1 - 1]? = some i ∧
      (s.intercepts i).Wrote config w.1 w.2 := by
  obtain ⟨i, hi, -, hwrote⟩ := writesAttributed_of_run hrun hids c w hw
  exact ⟨i, hi, hwrote⟩

/-- The writes of different requests are never mixed: on a connection they
follow one another in the order of their ids, and no id is used on two
connections. -/
theorem writes_apart (parse : MimeHdrParse) (config : FcgiPluginConfig)
    (s : ServerState)
    (hreach : Transition.Reach (workerThread parse config) FedInOrder s)
    (hids : s.issued < 2 ^ 32 - 1) (c : ConnId) :
    ((s.conns c).written.Pairwise fun w w' => w.1 ≤ w'.1) ∧
      ∀ w ∈ (s.conns c).written, ∀ c', ∀ w' ∈ (s.conns c').written,
        w.1 = w'.1 → c = c' := by
  have hall : WritesApart s := by
    refine @Transition.Reach.invariant_while _ _ (workerThread parse config)
      FedInOrder WritesApart (fun s => s.issued < 2 ^ 32 - 1) ?_ ?_ ?_ s hreach hids
    · intro s e s' hstep hlt
      exact Nat.lt_of_le_of_lt (ServerState.step_issued hstep) hlt
    · rintro s rfl
      refine ⟨fun _ => .nil, fun hr => ?_, ?_, ?_⟩
      · exact absurd hr (by simp [ServerState.Registered, ServerState.new])
      · intro c w hw
        exact absurd hw List.not_mem_nil
      · intro c w hw
        exact absurd hw List.not_mem_nil
    · intro s e s' hs hapart hguard hlt hstep
      have hids : s.issued < 2 ^ 32 - 1 :=
        Nat.lt_of_le_of_lt (ServerState.step_issued hstep) hlt
      have h := scheduled_of_reach (hs.mono fun _ _ h => h.1) hids
      have hL := LocalPredicates.holds_of_reach (fun _ _ h => ⟨h.1, h.2.1⟩)
        (ownClient_preserved parse config) hs hids
      have hperforms := ServerState.performs_step h.consistent h.covered
        hguard.1 hstep
      exact hapart.step h.consistent.idsInUse hperforms.numbers
        fun c => writeStep_of_step h.consistent hL hguard hstep c
  exact ⟨hall.sorted c, fun w hw c' w' hw' hsame => hall.apart hw hw' hsame⟩

namespace OwnershipWitness

open IsolationWitness (parse config events)

/-- Two requests, one after the other, on one connection. -/
def final : ServerState :=
  Transition.after (workerThread parse config) FedInOrder (ServerState.new config)
    events

def last : Nat × Bytes := (final.conns 0).written.getLastD (0, [])

theorem writes_attributed_last :
    ∃ i, (dispatched parse config events)[last.1 - 1]? = some i ∧
      (final.intercepts i).Wrote config last.1 last.2 :=
  writes_attributed parse config events final
    (.after (by decide +kernel)) (by decide +kernel) 0 last
    (by decide +kernel)

theorem writes_apart_final :
    ((final.conns 0).written.Pairwise fun w w' => w.1 ≤ w'.1) ∧
      ∀ w ∈ (final.conns 0).written, ∀ c', ∀ w' ∈ (final.conns c').written,
        w.1 = w'.1 → 0 = c' :=
  writes_apart parse config final
    (.after (.init rfl) (by decide +kernel)) (by decide +kernel) 0

end OwnershipWitness

end AtsFastcgi
