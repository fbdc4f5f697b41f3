/-
What is on a connection for the request it serves.  A connection holds the
preamble, the body and the terminator of its request in the order in which the
client sent them, as long as nothing is consumed while the request is without
a connection and no request starts over after something was consumed.
-/
import AtsFastcgi.RequestBody
import AtsFastcgi.Retry

namespace AtsFastcgi

open ServerState (ConnEvent Event)

/-! ### The writes of one request -/

/-- The write buffer of a connection, as far as it was written under `id`. -/
def ServerConnection.writesOf (c : ServerConnection) (id : Nat) : List Bytes :=
  (c.written.filter fun w => w.1 = id).map Prod.snd

theorem ServerConnection.writesOf_of_lt {c : ServerConnection} {id : Nat}
    (hlt : ∀ w ∈ c.written, w.1 < id) : c.writesOf id = [] := by
  rw [writesOf, List.map_eq_nil_iff, List.filter_eq_nil_iff]
  intro w hw heq
  exact absurd (of_decide_eq_true heq) (Nat.ne_of_lt (hlt w hw))

/-- A write under `id` comes last. -/
theorem ServerConnection.writesOf_append {c new : ServerConnection} {id : Nat}
    {buf : Bytes} (hwritten : new.written = c.written ++ [(id, buf)]) :
    new.writesOf id = c.writesOf id ++ [buf] := by
  simp [writesOf, hwritten]

/-- Two states of the FCGI client of one request. -/
def FcgiClientRequest.SameRequest (client other : FcgiClientRequest) : Prop :=
  client.requestId = other.requestId ∧
    client.requestHeaders = other.requestHeaders

namespace FcgiClientRequest.SameRequest

variable {client other : FcgiClientRequest}

theorem refl (client : FcgiClientRequest) : client.SameRequest client :=
  ⟨rfl, rfl⟩

theorem trans {third : FcgiClientRequest} (h : client.SameRequest other)
    (h' : other.SameRequest third) : client.SameRequest third :=
  ⟨h.1.trans h'.1, h.2.trans h'.2⟩

theorem lengthHeader (h : client.SameRequest other) (type : UInt8)
    (len : Nat) : client.lengthHeader type len = other.lengthHeader type len := by
  simp only [FcgiClientRequest.lengthHeader, createHeader, h.1]

theorem preamble (h : client.SameRequest other) :
    client.preamble = other.preamble := by
  simp only [FcgiClientRequest.preamble, nameValues, h.lengthHeader, h.2]

theorem bodyBuffer (h : client.SameRequest other) (data : Bytes) :
    client.bodyBuffer data = other.bodyBuffer data := by
  simp only [FcgiClientRequest.bodyBuffer, h.lengthHeader]

theorem isPost (h : client.SameRequest other) :
    client.isPost = other.isPost := by
  simp only [FcgiClientRequest.isPost, h.2]

theorem endBuffer (h : client.SameRequest other) :
    client.endBuffer = other.endBuffer := by
  rw [FcgiClientRequest.endBuffer, FcgiClientRequest.endBuffer, h.isPost,
    h.lengthHeader]

end FcgiClientRequest.SameRequest

/-- Nothing has been consumed, and nothing is on the connection. -/
structure Unsent (request : FcgiClientRequest) (id : Nat)
    (conn : ServerConnection) (x : ServerIntercept) : Prop where
  headers : x.headers = []
  writes : conn.writesOf id = []
  client : ∀ client ∈ conn.fcgiRequest,
    client.SameRequest request ∧ client.buff = []

/-- Everything that was consumed is on the connection. -/
structure Sent (request : FcgiClientRequest) (id : Nat)
    (conn : ServerConnection) (x : ServerIntercept) : Prop where
  headers : x.headers ≠ []
  client : ∀ client ∈ conn.fcgiRequest, client.SameRequest request
  writes : conn.writesOf id = request.preamble ::
    (x.bodies.map request.bodyBuffer ++
      if x.inputCompletes = 0 then [] else [request.endBuffer])
  lengths : ∀ data ∈ x.bodies, 0 ≤ cInt data.length
  fits : x.inputCompletes ≠ 0 → request.BodyFits x.bodies

/-- What was consumed is on the connection, and nothing else. -/
def SentSoFar (request : FcgiClientRequest) (id : Nat)
    (conn : ServerConnection) (x : ServerIntercept) : Prop :=
  Unsent request id conn x ∨ Sent request id conn x

/-- Only the writes, the FCGI client's request and what was consumed count. -/
theorem SentSoFar.congr {request request' : FcgiClientRequest} {id : Nat}
    {conn conn' : ServerConnection} {x x' : ServerIntercept}
    (h : SentSoFar request id conn x) (hrequest : request' = request)
    (hwritten : conn'.written = conn.written)
    (hclient : ∀ client' ∈ conn'.fcgiRequest, ∃ client ∈ conn.fcgiRequest,
      client'.SameRequest client ∧ client'.buff = client.buff)
    (hheaders : x'.headers = x.headers) (hbodies : x'.bodies = x.bodies)
    (hcompletes : x'.inputCompletes = x.inputCompletes) :
    SentSoFar request' id conn' x' := by
  have hwrites : conn'.writesOf id = conn.writesOf id := by
    rw [ServerConnection.writesOf, ServerConnection.writesOf, hwritten]
  subst hrequest
  rcases h with hunsent | hsent
  · refine .inl ⟨hheaders.trans hunsent.headers,
      hwrites.trans hunsent.writes, ?_⟩
    intro client' hin
    obtain ⟨client, hold, hsame, hbuff⟩ := hclient client' hin
    obtain ⟨hsame', hempty⟩ := hunsent.client client hold
    exact ⟨hsame.trans hsame', hbuff.trans hempty⟩
  · refine .inr ⟨hheaders ▸ hsent.headers, ?_, ?_, ?_, ?_⟩
    · intro client' hin
      obtain ⟨client, hold, hsame, -⟩ := hclient client' hin
      exact hsame.trans (hsent.client client hold)
    · rw [hwrites, hsent.writes, hbodies, hcompletes]
    · rw [hbodies]
      exact hsent.lengths
    · rw [hbodies, hcompletes]
      exact hsent.fits

section Write

variable {request client : FcgiClientRequest} {id : Nat}
  {conn conn' : ServerConnection} {x : ServerIntercept}

/-- The header is written first. -/
theorem Unsent.header (h : Unsent request id conn x)
    (hbodies : x.bodies = []) (hcompletes : x.inputCompletes = 0)
    (hclient : conn.fcgiRequest = some client)
    (hclient' : conn'.fcgiRequest = some client.createBeginRequest)
    (hwrites : conn'.writesOf id =
      conn.writesOf id ++ [client.createBeginRequest.buff]) (data : Bytes) :
    Sent request id conn' { x with headers := x.headers ++ [data] } := by
  obtain ⟨hsame, hbuff⟩ := h.client client hclient
  have hbuf : client.createBeginRequest.buff = request.preamble := by
    rw [FcgiClientRequest.createBeginRequest, hbuff, List.nil_append,
      hsame.preamble]
  refine ⟨?_, ?_, ?_, ?_, fun hne => absurd hcompletes hne⟩
  · exact List.append_ne_nil_of_right_ne_nil _ (List.cons_ne_nil data [])
  · intro client'' hin
    rw [hclient'] at hin
    obtain rfl := Option.some.inj hin
    exact hsame
  · rw [hwrites, h.writes, hbuf, hbodies, if_pos hcompletes]
    rfl
  · rw [hbodies]
    exact fun _ hin => absurd hin List.not_mem_nil

/-- A body chunk comes after the chunks before it. -/
theorem Sent.body (h : Sent request id conn x)
    (hcompletes : x.inputCompletes = 0) {data : Bytes}
    (hint : 0 ≤ cInt data.length) {client' : FcgiClientRequest}
    (hclient : conn.fcgiRequest = some client)
    (hclient' : conn'.fcgiRequest = some client')
    (hsame' : client'.SameRequest client)
    (hwrites : conn'.writesOf id =
      conn.writesOf id ++ [client.bodyBuffer data]) :
    Sent request id conn' { x with bodies := x.bodies ++ [data] } := by
  have hsame := h.client client hclient
  refine ⟨h.headers, ?_, ?_, ?_, fun hne => absurd hcompletes hne⟩
  · intro client'' hin
    rw [hclient'] at hin
    obtain rfl := Option.some.inj hin
    exact hsame'.trans hsame
  · rw [hwrites, h.writes, hsame.bodyBuffer, if_pos hcompletes, List.map_append]
    simp
  · intro d hd
    rcases List.mem_append.mp hd with hold | hnew
    · exact h.lengths d hold
    · rw [List.mem_singleton.mp hnew]
      exact hint

/-- The terminator comes last. -/
theorem Sent.complete (h : Sent request id conn x)
    (hcompletes : x.inputCompletes = 0) (hfits : request.BodyFits x.bodies)
    {client' : FcgiClientRequest} (hclient : conn.fcgiRequest = some client)
    (hclient' : conn'.fcgiRequest = some client')
    (hsame' : client'.SameRequest client)
    (hwrites : conn'.writesOf id = conn.writesOf id ++ [client.endBuffer]) :
    Sent request id conn' { x with
      inputCompletes := x.inputCompletes + 1, inputCompleteState := true } := by
  have hsame := h.client client hclient
  refine ⟨h.headers, ?_, ?_, h.lengths, fun _ => hfits⟩
  · intro client'' hin
    rw [hclient'] at hin
    obtain rfl := Option.some.inj hin
    exact hsame'.trans hsame
  · rw [hwrites, h.writes, hsame.endBuffer, if_pos hcompletes,
      if_neg (Nat.succ_ne_zero _)]
    simp

end Write

/-- The FCGI client of the intercept's request under `id`, as it is made. -/
def ServerIntercept.request (x : ServerIntercept) (config : FcgiPluginConfig)
    (id : Nat) : FcgiClientRequest :=
  FcgiClientRequest.new config id x.txn

/-! ### Runs -/

/-- No request of which something was consumed starts over. -/
def ServerState.RestartsUnsent (s : ServerState) (e : Event) : Prop :=
  ∀ c ∈ s.restarted e, ∀ i ∈ s.getIntercept (s.conns c).requestId,
    (s.intercepts i).headers = []

/-- The events that keep a request whole: no input while the intercept waits,
an end of the input only for a body that fits, and no restart of a request of
which something was consumed. -/
def ServerState.SendsWhole (s : ServerState) : Event → Prop
  | .input i input =>
      (s.intercepts i).Feeds input ∧ i ∉ s.queue.pendingList ∧
        (input = .complete →
          (s.getServerConnection (s.intercepts i).requestId).isSome = true →
          ((s.intercepts i).request s.config
            (s.intercepts i).requestId).BodyFits (s.intercepts i).bodies)
  | e => s.RestartsUnsent e

theorem ServerState.SendsWhole.feeds {s : ServerState} {i : InterceptId}
    {input : ClientInput} (h : s.SendsWhole (.input i input)) :
    (s.intercepts i).Feeds input := h.1

theorem ServerState.SendsWhole.not_queued {s : ServerState} {i : InterceptId}
    {input : ClientInput} (h : s.SendsWhole (.input i input)) :
    i ∉ s.queue.pendingList := h.2.1

theorem ServerState.SendsWhole.fits {s : ServerState} {i : InterceptId}
    (h : s.SendsWhole (.input i .complete)) {c : ConnId}
    (hr : s.Registered (s.intercepts i).requestId i c) :
    ((s.intercepts i).request s.config
      (s.intercepts i).requestId).BodyFits (s.intercepts i).bodies :=
  h.2.2 rfl (by
    rw [getServerConnection_eq_some.mpr ⟨i, hr⟩]
    rfl)

def KeepsWhole (s : ServerState) (e : Event) : Prop :=
  Exists s e ∧ Owns s e ∧ s.SendsWhole e

instance (s : ServerState) (e : Event) : Decidable (s.RestartsUnsent e) :=
  inferInstanceAs (Decidable (∀ c ∈ s.restarted e,
    ∀ i ∈ s.getIntercept (s.conns c).requestId, (s.intercepts i).headers = []))

instance (s : ServerState) : (e : Event) → Decidable (s.SendsWhole e)
  | .input .. => inferInstanceAs (Decidable (_ ∧ ¬ _ ∧ (_ → _ → _)))
  | .connect i txn requestId =>
      inferInstanceAs (Decidable (s.RestartsUnsent (.connect i txn requestId)))
  | .connection c event =>
      inferInstanceAs (Decidable (s.RestartsUnsent (.connection c event)))
  | .destroy i => inferInstanceAs (Decidable (s.RestartsUnsent (.destroy i)))
  | .respond c r =>
      inferInstanceAs (Decidable (s.RestartsUnsent (.respond c r)))

instance (s : ServerState) (e : Event) : Decidable (KeepsWhole s e) :=
  inferInstanceAs (Decidable (_ ∧ _ ∧ _))

/-- A registered request is unsent or sent as far as it was consumed; of a
waiting one nothing was consumed. -/
def sentSoFar (config : FcgiPluginConfig) : LocalPredicates where
  ever x := x.headers = [] → x.bodies = [] ∧ x.inputCompletes = 0
  waiting x := x.headers = []
  idle _ := True
  bound id conn x := SentSoFar (x.request config id) id conn x

/-- Writing input moves it to the connection. -/
theorem sent_write {request : FcgiClientRequest} {id : Nat}
    {conn conn' : ServerConnection} {x : ServerIntercept} {input : ClientInput}
    (hid : conn.requestId = id) (hfeeds : x.Feeds input)
    (horder : x.headers = [] → x.bodies = [] ∧ x.inputCompletes = 0)
    (hfits : input = .complete → request.BodyFits x.bodies)
    (hbound : SentSoFar request id conn x)
    (hwrite : input.write conn = some conn') :
    Sent request id conn' (input.sent (input.log x)) := by
  obtain ⟨client, client', buf, hclient, hprepare, hbuf, -, hconn⟩ :=
    ServerConnection.write_eq_some.mp hwrite
  obtain ⟨-, rfl⟩ := FcgiClientRequest.addClientRequest_eq_some.mp hbuf
  have hclient' : conn'.fcgiRequest = some client' := by rw [hconn]
  have hwrites : conn'.writesOf id = conn.writesOf id ++ [client'.buff] :=
    ServerConnection.writesOf_append (by rw [hconn, ← hid])
  cases input with
  | header data =>
      obtain rfl := Option.some.inj hprepare
      obtain ⟨hbodies, hcompletes⟩ := horder hfeeds
      have hunsent := hbound.resolve_right fun h => h.headers hfeeds
      exact hunsent.header hbodies hcompletes hclient hclient' hwrites data
  | body data =>
      obtain ⟨hint, rfl⟩ := ClientInput.prepare_body.mp hprepare
      have hsent := hbound.resolve_left fun h => hfeeds.1 h.headers
      exact hsent.body hfeeds.2 hint hclient hclient' ⟨rfl, rfl⟩ hwrites
  | complete =>
      rw [ClientInput.prepare_complete] at hprepare
      obtain rfl := Option.some.inj hprepare
      have hsent := hbound.resolve_left fun h => hfeeds.1 h.headers
      exact hsent.complete hfeeds.2 (hfits rfl) hclient hclient' ⟨rfl, rfl⟩
        hwrites

/-- A request is attached before anything of it is consumed. -/
theorem attached_unsent {config : FcgiPluginConfig} {id : Nat}
    {conn : ServerConnection} {x : ServerIntercept}
    (horder : (sentSoFar config).ever x) (hheaders : x.headers = [])
    (hid : conn.requestId = id) (hready : conn.state = .ready)
    (hwrites : conn.writesOf id = []) :
    (sentSoFar config).ever (conn.createFCGIClient config x).2 ∧
      (sentSoFar config).bound id (conn.createFCGIClient config x).1
        (conn.createFCGIClient config x).2 := by
  simp only [ServerConnection.createFCGIClient, hready, true_or, if_true]
  refine ⟨horder, .inl ⟨hheaders, hwrites, ?_⟩⟩
  intro client hclient
  obtain rfl := Option.some.inj hclient
  rw [hid]
  exact ⟨.refl _, (FcgiClientRequest.new_fresh config id x.txn).1⟩

theorem headers_of_restarted {config : FcgiPluginConfig} {s : ServerState}
    (h : Consistent config s) {c : ConnId} {event : ConnEvent} {id : Nat}
    {i : InterceptId} (hguard : KeepsWhole s (.connection c event))
    (hr : s.Registered id i c)
    (hrestarted : s.restarted (.connection c event) = some c) :
    (s.intercepts i).headers = [] := by
  obtain rfl := h.entry_conn hr
  exact hguard.2.2 c hrestarted i
    (ServerState.getIntercept_eq_some.mpr ⟨c, hr⟩)

theorem sentSoFar_input {config : FcgiPluginConfig} {s : ServerState}
    (h : Consistent config s) {id : Nat} {i : InterceptId} {c : ConnId}
    {input : ClientInput} {conn : ServerConnection}
    (hguard : KeepsWhole s (.input i input)) (hr : s.Registered id i c)
    (hever : (sentSoFar config).ever (s.intercepts i))
    (hbound : (sentSoFar config).bound id (s.conns c) (s.intercepts i))
    (hwrite : input.write (s.conns c) = some conn) :
    (sentSoFar config).ever (input.sent (input.log (s.intercepts i))) ∧
      (sentSoFar config).bound id conn
        (input.sent (input.log (s.intercepts i))) := by
  have hrequest : (input.sent (input.log (s.intercepts i))).request config
      id = (s.intercepts i).request config id := by
    cases input <;> rfl
  have hfits : input = .complete →
      ((s.intercepts i).request config id).BodyFits
        (s.intercepts i).bodies := by
    rintro rfl
    have hid := h.entry_intercept hr
    have hfits := hguard.2.2.fits (hid ▸ hr)
    rwa [hid, h.config_eq] at hfits
  have hsent := sent_write (h.entry_conn hr) hguard.2.2.feeds hever hfits hbound
    hwrite
  refine ⟨fun hnone => absurd hnone hsent.headers, ?_⟩
  rw [← hrequest] at hsent
  exact .inr hsent

theorem sentSoFar_kept {config : FcgiPluginConfig} {s : ServerState}
    {i : InterceptId} {input : ClientInput}
    (hguard : KeepsWhole s (.input i input)) :
    (sentSoFar config).ever (input.kept (input.log (s.intercepts i))) ∧
      (i ∈ s.queue.pendingList → (sentSoFar config).waiting (s.intercepts i) →
        (sentSoFar config).waiting
          (input.kept (input.log (s.intercepts i)))) := by
  have hfeeds := hguard.2.2.feeds
  refine ⟨?_, fun hin => absurd hin hguard.2.2.not_queued⟩
  cases input with
  | header data =>
      exact fun hnone => absurd (List.append_eq_nil_iff.mp hnone).2
        (List.cons_ne_nil data [])
  | body data => exact fun hnone => absurd hnone hfeeds.1
  | complete => exact fun hnone => absurd hnone hfeeds.1

theorem sentSoFar_preserved (parse : MimeHdrParse)
    (config : FcgiPluginConfig) :
    (sentSoFar config).Preserved parse config KeepsWhole where
  new txn requestId := ⟨fun _ => ⟨rfl, rfl⟩, rfl⟩
  bind_new hever hwaiting _ :=
    ⟨hever, .inl ⟨hwaiting, rfl,
      fun _ hclient => absurd hclient.symm (Option.some_ne_none _)⟩⟩
  bind_idle {id conn x} hlt _ hever hwaiting :=
    attached_unsent hever hwaiting rfl rfl
      (ServerConnection.writesOf_of_lt hlt)
  net_connect {s c id i} h hguard hr hever hbound := by
    have hheaders := headers_of_restarted h hguard hr
      (ServerState.restarted_netConnect h hr)
    have hunsent := Or.resolve_right hbound fun hsent => hsent.headers hheaders
    exact attached_unsent hever hheaders (h.entry_conn hr) rfl hunsent.writes
  net_connect_idle _ _ := trivial
  retry h hguard hevent hr _ :=
    headers_of_restarted h hguard hr
      (ServerState.restarted_retry h hr hevent)
  fail hever _ := ⟨hever, hever⟩
  read {s c blocks id i responseStatus conn x} h _ hr hever hbound hrun := by
    rcases ServerConnection.interceptTransferData_eq_some hrun with
      ⟨-, -, -, rfl, rfl⟩ | ⟨client, t, hclient, -, -, rfl, rfl⟩
    · refine ⟨hever, ?_⟩
      cases responseStatus with
      | true => exact ⟨hever, fun _ => trivial⟩
      | false =>
          exact SentSoFar.congr hbound rfl rfl
            (fun client hin => ⟨client, hin, .refl client, rfl⟩) rfl rfl rfl
    · refine ⟨hever, ?_⟩
      cases responseStatus with
      | true => exact ⟨hever, fun _ => trivial⟩
      | false =>
          refine SentSoFar.congr hbound rfl rfl ?_ rfl rfl rfl
          intro client' hin
          obtain rfl := Option.some.inj hin
          exact ⟨client, hclient, ⟨rfl, rfl⟩, rfl⟩
  read_idle _ _ := trivial
  read_complete _ _ hever _ := ⟨hever, fun _ => trivial⟩
  open_read hread := by
    obtain ⟨-, rfl⟩ := ServerConnection.read_eq_some.mp hread
    refine ⟨fun hbound => ?_, fun _ => trivial⟩
    exact SentSoFar.congr hbound rfl rfl
      (fun client hin => ⟨client, hin, .refl client, rfl⟩) rfl rfl rfl
  input h hguard hr hever hbound hwrite :=
    sentSoFar_input h hguard hr hever hbound hwrite
  input_kept hguard _ := sentSoFar_kept hguard
  destroy _ hever := by
    simp only [ServerIntercept.destroyedObject]
    split <;> exact ⟨hever, fun _ hwaiting => hwaiting⟩
  abort {s i id c} _ _ _ hbound := by
    simp only [ServerIntercept.destroyedObject]
    split
    · exact SentSoFar.congr hbound rfl rfl
        (fun client hin => ⟨client, hin, .refl client, rfl⟩) rfl rfl rfl
    · exact fun _ => trivial
  respond _ := by
    refine ⟨fun _ hbound => ?_, fun _ => trivial⟩
    exact SentSoFar.congr hbound rfl rfl
      (fun client hin => ⟨client, hin, .refl client, rfl⟩) rfl rfl rfl

namespace DeliveryWitness

def txn : ClientRequest := RegistryWitness.txn (ascii "POST")

/-- The first connection is lost after the header was written on it. -/
def lostEvents : List Event :=
  [.connect 0 txn 7, .connection 0 .netConnect, .input 0 (.header (ascii "POST")),
    .connection 0 .eos, .connection 1 .netConnect, .input 0 (.body (ascii "a=1")),
    .input 0 .complete]

/-- The first connect fails before anything is consumed. -/
def failedEvents : List Event :=
  [.connect 0 txn 7, .connection 0 .netConnectFailed, .connection 1 .netConnect,
    .input 0 (.header (ascii "POST")), .input 0 (.body (ascii "a=1")),
    .input 0 .complete]

def final : ServerState :=
  Transition.after
    (workerThread DecoderSafetyWitness.parse ResumeWitness.config) KeepsWhole
    (ServerState.new ResumeWitness.config) failedEvents

end DeliveryWitness

end AtsFastcgi
