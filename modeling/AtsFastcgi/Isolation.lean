/-
Isolation of the responses on pooled connections.  A connection is reused with
its stream as it is, so the answer to one request reaches the next one unless
a request is given up or completed only when nothing of its answer is left.
-/
import AtsFastcgi.AnswerStream
import AtsFastcgi.LocalInvariant
import AtsFastcgi.Preamble

namespace AtsFastcgi

open ServerState (ConnEvent Event)

/-! ### What isolation means -/

/-- The record that an insertion into the output stream was made for. -/
def OutputPiece.source : OutputPiece → Option FcgiHeader
  | .stdout header _ | .stderr header _ => some header
  | .statusLine _ | .serverError => none

/-- What one transfer handed over came from records of its own request. -/
structure Delivery.Isolated (d : Delivery) : Prop where
  output : ∀ piece ∈ d.output, ∀ header ∈ piece.source,
    header.requestId = d.requestId
  dispatched : ∀ record ∈ d.dispatched, record.header.requestId = d.requestId

def ServerIntercept.Isolated (x : ServerIntercept) : Prop :=
  ∀ d ∈ x.deliveries, d.Isolated

/-- The source of everything written is a dispatched record. -/
theorem source_dispatchOutput (parse : MimeHdrParse) {firstChunk : Bool}
    {dispatched : List FcgiRecordList} {piece : OutputPiece}
    (hpiece : piece ∈ dispatchOutput parse firstChunk dispatched)
    {header : FcgiHeader} (hsource : header ∈ piece.source) :
    ∃ record ∈ dispatched, record.header = header := by
  induction dispatched generalizing firstChunk with
  | nil => exact absurd hpiece List.not_mem_nil
  | cons record rest ih =>
      rcases List.mem_append.mp hpiece with hhere | hlater
      · refine ⟨record, List.mem_cons_self, ?_⟩
        simp only [recordOutput, statusOutput, List.mem_append] at hhere
        rcases hhere with (hstatus | hout) | herr
        · split at hstatus
          · split at hstatus
            · obtain rfl := List.mem_singleton.mp hstatus
              contradiction
            · exact absurd hstatus List.not_mem_nil
          · exact absurd hstatus List.not_mem_nil
        · split at hout
          · obtain rfl := List.mem_singleton.mp hout
            exact Option.some.inj hsource
          · exact absurd hout List.not_mem_nil
        · split at herr
          · rcases List.mem_pair.mp herr with rfl | rfl
            · contradiction
            · exact Option.some.inj hsource
          · exact absurd herr List.not_mem_nil
      · obtain ⟨record', hmem, hheader⟩ := ih hlater
        exact ⟨record', List.mem_cons_of_mem record hmem, hheader⟩

/-! ### The events of a run -/

/-- The backend answers requests it has begun, and its bytes arrive in
order. -/
def Honest (s : ServerState) : Event → Prop
  | .respond c r => r.requestId ∈ (s.conns c).backend.answering
  | .connection c (.readReady blocks) =>
      blocks.flatten <+: (s.conns c).reader.flatten ++ (s.conns c).backend.wire
  | _ => True

/-- The events of ATS with an honest backend. -/
def AtsHonest (s : ServerState) (e : Event) : Prop := Ats s e ∧ Honest s e

/-- The byte of the stream at which the reader stands. -/
def ServerConnection.position (c : ServerConnection) : Nat :=
  c.backend.delivered - c.reader.flatten.length

/-- The events that leave nothing of an answer on a connection that is reused:
a request is given up when nothing of it is under way, and blocks are cut
cleanly, for a request whose id a record can carry. -/
def ServerState.LeavesNothing (s : ServerState) : Event → Prop
  | .destroy i =>
      (s.intercepts i).outputCompleteState = false →
        ∀ c ∈ s.getServerConnection (s.intercepts i).requestId,
          (s.conns c).reqCount < (s.conns c).maxRequests →
            (s.conns c).backend.Quiet
  | .connection c (.readReady blocks) =>
      (blocks.flatten ≠ [] → (s.conns c).requestId < 65536) ∧
        (s.conns c).ReadsCleanly (s.conns c).position blocks
  | _ => True

def KeepsApart (s : ServerState) (e : Event) : Prop :=
  AtsHonest s e ∧ s.LeavesNothing e

instance (s : ServerState) : (e : Event) → Decidable (Honest s e)
  | .respond .. => inferInstanceAs (Decidable (_ ∈ _))
  | .connection _ (.readReady _) => inferInstanceAs (Decidable (_ <+: _))
  | .connection _ .netConnect | .connection _ .netConnectFailed
  | .connection _ .readComplete | .connection _ .writeReady
  | .connection _ .writeComplete | .connection _ .eos | .connection _ .error
  | .connect .. | .destroy .. | .input .. => inferInstanceAs (Decidable True)

instance (s : ServerState) : (e : Event) → Decidable (s.LeavesNothing e)
  | .destroy i => inferInstanceAs (Decidable (_ → ∀ c ∈
      s.getServerConnection (s.intercepts i).requestId, _ → _))
  | .connection _ (.readReady _) => inferInstanceAs (Decidable ((_ → _) ∧ _))
  | .connection _ .netConnect | .connection _ .netConnectFailed
  | .connection _ .readComplete | .connection _ .writeReady
  | .connection _ .writeComplete | .connection _ .eos | .connection _ .error
  | .connect .. | .respond .. | .input .. => inferInstanceAs (Decidable True)

instance (s : ServerState) (e : Event) : Decidable (AtsHonest s e) :=
  inferInstanceAs (Decidable (_ ∧ _))

instance (s : ServerState) (e : Event) : Decidable (KeepsApart s e) :=
  inferInstanceAs (Decidable (_ ∧ _))

/-! ### What the backend makes of a write -/

theorem Record.type_of_decode {bytes rest rest' : Bytes} {r : Record}
    {h : FcgiHeader} (hbytes : bytes = h.bytes ++ rest)
    (hread : Record.decode bytes = some (r, rest')) : r.type = h.type := by
  have heq := Record.encode_of_decode hread
  rw [hbytes, Record.encode, List.append_assoc] at heq
  rw [(FcgiHeader.bytes_append_inj heq).1, Record.header_type]

/-- A write that starts with a header of another type begins no request. -/
theorem Backend.receive_other (b : Backend) {bytes rest : Bytes}
    {h : FcgiHeader} (hbytes : bytes = h.bytes ++ rest)
    (htype : h.type ≠ FCGI_BEGIN_REQUEST) : b.receive bytes = b := by
  unfold Backend.receive
  split
  · next r rest' hread =>
      rw [if_neg]
      rw [Record.type_of_decode hbytes hread]
      exact htype
  · rfl

namespace FcgiClientRequest

variable (client : FcgiClientRequest)

theorem receive_preamble (b : Backend) :
    b.receive client.preamble =
      { b with answering := b.answering ++ [client.requestId % 65536] } := by
  have hread : Record.decode client.preamble = some (client.beginRecord,
      (client.lengthHeader FCGI_PARAMS client.nameValues.length).bytes ++
        client.nameValues ++ (client.lengthHeader FCGI_PARAMS 0).bytes) := by
    have hsplit : client.preamble = client.beginRecord.encode ++
        ((client.lengthHeader FCGI_PARAMS client.nameValues.length).bytes ++
          client.nameValues ++ (client.lengthHeader FCGI_PARAMS 0).bytes) := by
      simp only [preamble, List.append_assoc]
      rfl
    rw [hsplit, Record.decode_encode]
  simp only [Backend.receive, hread]
  rw [if_pos (show client.beginRecord.type = FCGI_BEGIN_REQUEST from rfl),
    beginRecord_requestId]

theorem lengthHeader_stdin (len : Nat) :
    (client.lengthHeader FCGI_STDIN len).type ≠ FCGI_BEGIN_REQUEST :=
  show FCGI_STDIN ≠ FCGI_BEGIN_REQUEST by decide

theorem receive_bodyBuffer (b : Backend) (data : Bytes) :
    b.receive (client.bodyBuffer data) = b :=
  b.receive_other (List.append_assoc _ _ _) (client.lengthHeader_stdin _)

theorem receive_endBuffer (b : Backend) :
    b.receive client.endBuffer = b := by
  unfold endBuffer
  split
  · rfl
  · exact b.receive_other (List.append_nil _).symm (client.lengthHeader_stdin 0)

end FcgiClientRequest

/-! ### Where the decoder of a request stands -/

/-- A registered request: its decoder stands in the answer to it, and before
its header is written nothing is under way on the connection. -/
structure InAnswer (id : Nat) (conn : ServerConnection) (x : ServerIntercept) :
    Prop where
  reader : conn.reader.flatten = []
  connecting : conn.connecting = true → conn.vc = false ∧ conn.backend.Quiet
  client : ∀ client ∈ conn.fcgiRequest, client.requestId = id ∧
    conn.backend.StandsIn (id % 65536) client.decoder conn.backend.delivered
  answering : conn.backend.answering = [] ∨
    conn.backend.answering = [id % 65536]
  unbegun : x.headers = [] → conn.backend.Quiet ∧
    ∀ client ∈ conn.fcgiRequest, client.buff = [] ∧
      renewRecord (client.decoder.headerRecord.getD {}) = {}

/-- A connection with nothing under way. -/
structure Idle (conn : ServerConnection) : Prop where
  reader : conn.reader.flatten = []
  connecting : conn.connecting = true → conn.vc = false
  quiet : conn.backend.Quiet

/-- Deliveries are isolated, and connections are clean. -/
def isolated : LocalPredicates where
  ever := ServerIntercept.Isolated
  waiting _ := True
  idle := Idle
  bound := InAnswer

/-- A decoder that begins on a quiet connection stands in its answer. -/
theorem attached_inAnswer {config : FcgiPluginConfig} {id : Nat}
    {conn : ServerConnection} {x : ServerIntercept} (hid : conn.requestId = id)
    (hready : conn.state = .ready) (hidle : Idle conn)
    (hever : x.Isolated) :
    (conn.createFCGIClient config x).2.Isolated ∧
      InAnswer id (conn.createFCGIClient config x).1
        (conn.createFCGIClient config x).2 := by
  have hquiet := hidle.quiet
  obtain ⟨hbuff, hdecoder, hrequest⟩ :=
    FcgiClientRequest.new_fresh config conn.requestId x.txn
  simp only [ServerConnection.createFCGIClient, hready, true_or, if_true]
  refine ⟨hever, hidle.reader, fun hconn => ⟨hidle.connecting hconn, hquiet⟩,
    ?_, .inl hquiet.1, fun _ => ⟨hquiet, ?_⟩⟩
  · intro client hclient
    obtain rfl := Option.some.inj hclient
    refine ⟨hrequest.trans hid, ?_⟩
    rw [hdecoder]
    exact .start hquiet.2 rfl (id % 65536)
  · intro client hclient
    obtain rfl := Option.some.inj hclient
    rw [hdecoder]
    exact ⟨hbuff, rfl⟩

/-- What is not read or written does not matter. -/
theorem InAnswer.congr {id : Nat} {conn conn' : ServerConnection}
    {x x' : ServerIntercept} (h : InAnswer id conn x)
    (hreader : conn'.reader.flatten = conn.reader.flatten)
    (hconnecting : conn'.connecting = conn.connecting)
    (hvc : conn'.vc = conn.vc) (hbackend : conn'.backend = conn.backend)
    (hclient : conn'.fcgiRequest = conn.fcgiRequest)
    (hheaders : x'.headers = x.headers) : InAnswer id conn' x' := by
  refine ⟨hreader.trans h.reader, ?_, ?_, ?_, ?_⟩
  · rw [hconnecting, hvc, hbackend]
    exact h.connecting
  · rw [hclient, hbackend]
    exact h.client
  · rw [hbackend]
    exact h.answering
  · rw [hheaders, hclient, hbackend]
    exact h.unbegun

/-- The backend of a request that has nothing to answer sends nothing; else it
sends a record of the answer. -/
theorem InAnswer.respond {id : Nat} {conn : ServerConnection}
    {x : ServerIntercept} (h : InAnswer id conn x) {r : Record}
    (hr : r.requestId ∈ conn.backend.answering) :
    InAnswer id { conn with backend := conn.backend.send r } x := by
  have hbusy : ∀ {P : Prop}, conn.backend.Quiet → P := by
    intro P hquiet
    rw [hquiet.1] at hr
    exact absurd hr List.not_mem_nil
  have hanswering := h.answering.resolve_left fun hnone => by
    rw [hnone] at hr
    exact absurd hr List.not_mem_nil
  have hid : r.requestId = id % 65536 := by
    rw [hanswering] at hr
    exact List.mem_singleton.mp hr
  refine ⟨h.reader, fun hconn => hbusy (h.connecting hconn).2, ?_, ?_,
    fun hnone => hbusy (h.unbegun hnone).1⟩
  · intro client hclient
    obtain ⟨hrequest, hstands⟩ := h.client client hclient
    exact ⟨hrequest, hstands.send hanswering hid⟩
  · rw [Backend.send, hanswering, hid]
    split
    · exact .inl (List.erase_cons_head _ [])
    · exact .inr rfl

/-- A write that begins no request changes nothing for the backend. -/
theorem InAnswer.goesOn {id : Nat} {conn conn' : ServerConnection}
    {x x' : ServerIntercept} {client client' : FcgiClientRequest}
    (h : InAnswer id conn x) (hclient : conn.fcgiRequest = some client)
    (hreader : conn'.reader = conn.reader) (hsettled : conn'.connecting = false)
    (hbackend : conn'.backend = conn.backend)
    (hclient' : conn'.fcgiRequest = some client')
    (hrequest : client'.requestId = client.requestId)
    (hdecoder : client'.decoder = client.decoder) (hheaders : x'.headers ≠ []) :
    InAnswer id conn' x' := by
  refine ⟨hreader ▸ h.reader, fun hconn => ?_, ?_, ?_,
    fun hnone => absurd hnone hheaders⟩
  · rw [hsettled] at hconn
    contradiction
  · intro client'' hin
    rw [hclient'] at hin
    obtain rfl := Option.some.inj hin
    rw [hrequest, hdecoder, hbackend]
    exact h.client client hclient
  · rw [hbackend]
    exact h.answering

/-- Writing the header begins the request; the other writes go on with it. -/
theorem InAnswer.write {id : Nat} {conn conn' : ServerConnection}
    {x : ServerIntercept} (h : InAnswer id conn x) {input : ClientInput}
    (hfeeds : x.Feeds input) (hwrite : input.write conn = some conn') :
    InAnswer id conn' (input.sent (input.log x)) := by
  obtain ⟨client, client', buf, hclient, hprepare, hbuf, hvc, rfl⟩ :=
    ServerConnection.write_eq_some.mp hwrite
  obtain ⟨-, rfl⟩ := FcgiClientRequest.addClientRequest_eq_some.mp hbuf
  have hsettled : conn.connecting = false := by
    by_contra hconn
    rw [(h.connecting (Bool.not_eq_false _ ▸ hconn)).1] at hvc
    contradiction
  obtain ⟨hrequest, hstands⟩ := h.client client hclient
  cases input with
  | header data =>
      obtain rfl := Option.some.inj hprepare
      obtain ⟨hquiet, hfresh⟩ := h.unbegun hfeeds
      obtain ⟨hbuff, hrenew⟩ := hfresh client hclient
      have hpreamble : client.createBeginRequest.buff = client.preamble := by
        rw [FcgiClientRequest.createBeginRequest, hbuff, List.nil_append]
      have hbegun : conn.backend.receive client.createBeginRequest.buff =
          { conn.backend with answering := [id % 65536] } := by
        rw [hpreamble, client.receive_preamble, hquiet.1, hrequest,
          List.nil_append]
      refine ⟨h.reader, fun hconn => ?_, ?_, ?_, fun hnone => ?_⟩
      · rw [hsettled] at hconn
        contradiction
      · intro client' hclient'
        obtain rfl := Option.some.inj hclient'
        refine ⟨hrequest, ?_⟩
        rw [hbegun]
        exact .start (b := { conn.backend with answering := [id % 65536] })
          hquiet.2 hrenew (id % 65536)
      · rw [hbegun]
        exact .inr rfl
      · exact absurd (List.append_eq_nil_iff.mp hnone).2 (List.cons_ne_nil _ _)
  | body data =>
      obtain ⟨-, rfl⟩ := ClientInput.prepare_body.mp hprepare
      exact h.goesOn hclient rfl hsettled
        (client.receive_bodyBuffer conn.backend data) rfl rfl rfl hfeeds.1
  | complete =>
      rw [ClientInput.prepare_complete] at hprepare
      obtain rfl := Option.some.inj hprepare
      exact h.goesOn hclient rfl hsettled
        (client.receive_endBuffer conn.backend) rfl rfl rfl hfeeds.1

/-! ### Reading -/

/-- Nothing arrives from a quiet backend. -/
theorem Backend.Quiet.nothing {b : Backend} (h : b.Quiet) {bytes more : Bytes}
    (hmore : bytes ++ more = b.wire) : bytes = [] := by
  rw [Backend.wire, h.2, List.drop_length] at hmore
  exact (List.append_eq_nil_iff.mp hmore).1

/-- A connection whose response is completed is idle when its stream is at its
end. -/
theorem idle_completed {conn : ServerConnection}
    (hreader : conn.reader.flatten = [])
    (hconnecting : conn.connecting = true → conn.vc = false)
    (hquiet : conn.backend.Quiet) : Idle conn.completed := by
  simp only [ServerConnection.completed, ServerConnection.released,
    ServerConnection.detach, ServerConnection.releaseFCGIClient, if_true,
    ServerConnection.reuse]
  exact ⟨hreader, hconnecting, hquiet⟩

/-- What a transfer hands over comes from the records it dispatched. -/
theorem isolated_transfer {parse : MimeHdrParse} {client : FcgiClientRequest}
    {blocks : List Bytes} {t : Transfer} {id : Nat}
    (ht : transferBlocks parse { decoder := client.decoder } blocks = some t)
    (hids : ∀ record ∈ t.dispatched, record.header.requestId = id)
    (completed : Bool) :
    Delivery.Isolated ⟨id, t.output, t.dispatched, completed⟩ := by
  obtain ⟨finished, hdispatched, houtput, -⟩ := transferBlocks_output parse ht
  refine ⟨?_, hids⟩
  intro piece hpiece header hsource
  rw [houtput, List.nil_append] at hpiece
  obtain ⟨record, hmem, rfl⟩ := source_dispatchOutput parse hpiece hsource
  apply hids
  rw [hdispatched]
  exact hmem

/-- One read of clean blocks hands over records of the request only, and leaves
the decoder in the answer or the connection idle. -/
theorem InAnswer.read {parse : MimeHdrParse} {id : Nat}
    {c conn : ServerConnection} {x x' : ServerIntercept} {blocks : List Bytes}
    {responseStatus : Bool} (h : InAnswer id c x) (hid : c.requestId = id)
    (hlow : blocks.flatten ≠ [] → id < 65536)
    (harrived : blocks.flatten <+: c.reader.flatten ++ c.backend.wire)
    (hclean : c.ReadsCleanly c.position blocks) (hever : x.Isolated)
    (hrun : interceptTransferData parse (c.receive blocks) x =
      some (responseStatus, conn, x')) :
    x'.Isolated ∧ if responseStatus then
        conn.reqCount < conn.maxRequests → Idle conn.completed
      else InAnswer id conn x' := by
  have hposition : c.position = c.backend.delivered := by
    rw [ServerConnection.position, h.reader, List.length_nil, Nat.sub_zero]
  obtain ⟨more, hmore⟩ := harrived
  rw [h.reader, List.nil_append] at hmore
  rw [hposition] at hclean
  have hdelivered : (c.receive blocks).backend.delivered =
      c.backend.delivered + blocks.flatten.length := by
    rw [ServerConnection.receive, h.reader, List.length_nil, Nat.sub_zero]
  rcases ServerConnection.interceptTransferData_eq_some hrun with
    ⟨hnone, hempty, rfl, rfl, rfl⟩ | ⟨client, t, hclient, ht, rfl, rfl, rfl⟩
  · -- no FCGI client and no bytes
    have hbackend : (c.receive blocks).backend = c.backend := by
      have hempty' : blocks.flatten = [] := hempty
      rw [hempty', List.length_nil, Nat.add_zero] at hdelivered
      simp only [ServerConnection.receive] at hdelivered ⊢
      rw [hdelivered]
    refine ⟨hever, ?_⟩
    exact h.congr (by rw [h.reader]; rfl) rfl rfl hbackend rfl rfl
  · obtain ⟨hrequest, hstands⟩ := h.client client hclient
    have hread := transferBlocks_clean parse hstands hmore hclean ht
    have hstill : blocks.flatten = [] → t = { decoder := client.decoder } := by
      intro hempty
      have hrun' := transferBlocks_of_empty parse { decoder := client.decoder }
        hempty
      exact Option.some.inj (ht.symm.trans hrun')
    have hids : ∀ record ∈ t.dispatched,
        record.header.requestId = c.requestId := by
      intro record hmem
      have hne : blocks.flatten ≠ [] := by
        intro hempty
        rw [hstill hempty] at hmem
        exact absurd hmem List.not_mem_nil
      have hrecord := (hread.dispatched record hmem).resolve_left
        List.not_mem_nil
      rwa [Nat.mod_eq_of_lt (hlow hne), ← hid] at hrecord
    constructor
    · intro d hd
      rcases List.mem_append.mp hd with hold | hnew
      · exact hever d hold
      · rw [List.mem_singleton.mp hnew]
        exact isolated_transfer ht hids t.responseStatus
    · cases hstatus : t.responseStatus with
      | true =>
          intro hroom
          have hne : blocks.flatten ≠ [] := by
            intro hempty
            rw [hstill hempty] at hstatus
            contradiction
          refine idle_completed rfl (fun hconn => (h.connecting hconn).1) ?_
          have hquiet := hread.completed hstatus hne hroom
          rw [← hdelivered] at hquiet
          exact hquiet
      | false =>
          have hquiet : c.backend.Quiet → blocks.flatten = [] ∧
              (c.receive blocks).backend.Quiet := by
            intro hquiet
            have hempty := hquiet.nothing hmore
            rw [hempty, List.length_nil, Nat.add_zero] at hdelivered
            refine ⟨hempty, hquiet.1, ?_⟩
            exact hdelivered.trans hquiet.2
          refine ⟨rfl, ?_, ?_, h.answering, ?_⟩
          · intro hconn
            obtain ⟨hvc, hbefore⟩ := h.connecting hconn
            exact ⟨hvc, (hquiet hbefore).2⟩
          · intro client' hclient'
            obtain rfl := Option.some.inj hclient'
            refine ⟨hrequest, ?_⟩
            have hgoes := hread.goesOn hstatus
            rw [← hdelivered] at hgoes
            exact hgoes.congr rfl rfl
          · intro hnone
            obtain ⟨hbefore, hfresh⟩ := h.unbegun hnone
            obtain ⟨hempty, hafter⟩ := hquiet hbefore
            refine ⟨hafter, ?_⟩
            intro client' hclient'
            obtain rfl := Option.some.inj hclient'
            rw [hstill hempty]
            exact hfresh client hclient

/-! ### Runs -/

theorem isolated_preserved (parse : MimeHdrParse)
    (config : FcgiPluginConfig) :
    isolated.Preserved parse config KeepsApart where
  new txn requestId :=
    ⟨fun _ hd => absurd hd List.not_mem_nil, trivial⟩
  bind_new hever _ _ := by
    refine ⟨hever, rfl, fun _ => ⟨rfl, rfl, rfl⟩, ?_, .inl rfl,
      fun _ => ⟨⟨rfl, rfl⟩, ?_⟩⟩
    · exact fun _ hclient => absurd hclient.symm (Option.some_ne_none _)
    · exact fun _ hclient => absurd hclient.symm (Option.some_ne_none _)
  bind_idle _ hidle hever _ :=
    attached_inAnswer rfl rfl ⟨hidle.reader, hidle.connecting, hidle.quiet⟩
      hever
  net_connect {s c id i} h hguard hr hever hbound := by
    have hconn : (s.conns c).connecting = true := hguard.1.1.2.2
    refine attached_inAnswer (h.entry_conn hr) rfl ⟨hbound.reader, ?_, ?_⟩ hever
    · intro hconn
      contradiction
    · exact (hbound.connecting hconn).2
  net_connect_idle _ hidle :=
    ⟨hidle.reader, fun hconn => absurd hconn Bool.false_ne_true, hidle.quiet⟩
  retry _ _ _ _ _ := trivial
  fail hever _ := ⟨hever, hever⟩
  read {s c blocks id i responseStatus conn x} h hguard hr hever hbound
      hrun := by
    have hid := h.entry_conn hr
    obtain ⟨⟨-, harrived⟩, hlow, hclean⟩ := hguard
    rw [hid] at hlow
    obtain ⟨hafter, hnext⟩ :=
      hbound.read hid hlow harrived hclean hever hrun
    refine ⟨hafter, ?_⟩
    cases responseStatus with
    | true => exact ⟨hafter, hnext⟩
    | false => exact hnext
  read_idle {s c blocks} hguard hidle := by
    obtain ⟨more, hmore⟩ := hguard.1.2
    rw [hidle.reader, List.nil_append] at hmore
    have hempty := hidle.quiet.nothing hmore
    refine ⟨hempty, hidle.connecting, hidle.quiet.1, ?_⟩
    show (s.conns c).backend.delivered + (blocks.flatten.length -
      (s.conns c).reader.flatten.length) = _
    rw [hempty, List.length_nil, Nat.zero_sub, Nat.add_zero]
    exact hidle.quiet.2
  read_complete hguard _ _ _ := absurd hguard.1.1.2.2 id
  open_read hread := by
    obtain ⟨-, rfl⟩ := ServerConnection.read_eq_some.mp hread
    refine ⟨fun hbound => ?_, fun hidle => ?_⟩
    · exact hbound.congr rfl rfl rfl rfl rfl rfl
    · exact ⟨hidle.reader, hidle.connecting, hidle.quiet⟩
  input {s c id i input conn} _ hguard _ hever hbound hwrite := by
    refine ⟨?_, hbound.write hguard.1.1.2.2 hwrite⟩
    cases input <;> exact hever
  input_kept {s i input} _ hever := by
    cases input <;> exact ⟨hever, fun _ _ => trivial⟩
  destroy _ hever := by
    simp only [ServerIntercept.destroyedObject]
    split <;> exact ⟨hever, fun _ _ => trivial⟩
  abort {s i id c} h hguard hr hbound := by
    simp only [ServerIntercept.destroyedObject]
    split
    · exact hbound.congr rfl rfl rfl rfl rfl rfl
    · next hopen =>
        intro hroom
        have hid := h.entry_intercept hr
        have hquiet := hguard.2 (Bool.not_eq_true _ ▸ hopen) c
          (ServerState.getServerConnection_eq_some.mpr ⟨i, hid ▸ hr⟩) hroom
        obtain ⟨client, state, heq⟩ := (s.conns c).detach_eq
        rw [ServerConnection.released, heq]
        exact ⟨hbound.reader, fun hconn => (hbound.connecting hconn).1, hquiet⟩
  respond {s c r} hguard := by
    refine ⟨fun _ hbound => hbound.respond hguard.1.2, fun hidle => ?_⟩
    have hr : r.requestId ∈ (s.conns c).backend.answering := hguard.1.2
    rw [hidle.quiet.1] at hr
    exact absurd hr List.not_mem_nil

/-- As long as nothing of an answer is left where a connection is reused, what
is handed to an intercept comes from records of the request under which the
intercept is registered at that time. -/
theorem isolated_of_reach (parse : MimeHdrParse) (config : FcgiPluginConfig)
    (s : ServerState)
    (hreach : Transition.Reach (workerThread parse config) KeepsApart s)
    (hids : s.issued < 2 ^ 32 - 1) (i : InterceptId)
    (hconnected : (s.intercepts i).connected = true) :
    (s.intercepts i).Isolated :=
  (LocalPredicates.holds_of_reach (fun _ _ hg => ⟨hg.1.1.1, hg.1.1.2.1⟩)
    (isolated_preserved parse config) hreach hids).ever i hconnected

namespace IsolationWitness

def parse : MimeHdrParse := DecoderSafetyWitness.parse

def config : FcgiPluginConfig := RegistryWitness.config

/-- The answer to the first request. -/
def stdout : Record := DecoderRefinementWitness.stdout

def endRequest : Record := DecoderRefinementWitness.endRequest

/-- A request from its header to the opened read VIO. -/
def request (i : InterceptId) : List Event :=
  [.input i (.header (ascii "GET")), .input i .complete,
    .connection 0 .writeReady]

/-- The client of the first request goes away before the answer, which then
arrives on the same connection for the second one. -/
def abortEvents : List Event :=
  [.connect 0 (RegistryWitness.txn (ascii "GET")) 7, .connection 0 .netConnect] ++
    request 0 ++
    [.respond 0 stdout, .destroy 0,
      .connect 1 (RegistryWitness.txn (ascii "GET")) 7,
      .connection 0 (.readReady [stdout.encode])]

def leaked : ServerState :=
  Transition.after (workerThread parse config) AtsHonest
    (ServerState.new config) abortEvents

theorem not_always_isolated :
    ¬ ∀ parse config s,
      Transition.Reach (workerThread parse config) AtsHonest s →
      s.issued < 2 ^ 32 - 1 → ∀ i, (s.intercepts i).connected = true →
      (s.intercepts i).Isolated := by
  intro h
  obtain ⟨hreach, hids, hconnected, d, hd, record, hmem, hne⟩ :
      Transition.Reach (workerThread parse config) AtsHonest leaked ∧
      leaked.issued < 2 ^ 32 - 1 ∧ (leaked.intercepts 1).connected = true ∧
      ∃ d ∈ (leaked.intercepts 1).deliveries,
        ∃ record ∈ d.dispatched, record.header.requestId ≠ d.requestId :=
    Transition.Reach.after_and (.init rfl) (by decide +kernel)
  have hisolated := h parse config leaked hreach hids 1 hconnected
  exact hne ((hisolated d hd).dispatched record hmem)

/-- Two requests, one after the other, on one connection. -/
def events : List Event :=
  [.connect 0 (RegistryWitness.txn (ascii "GET")) 7, .connection 0 .netConnect] ++
    request 0 ++
    [.respond 0 stdout, .respond 0 endRequest,
      .connection 0 (.readReady [stdout.encode, endRequest.encode]),
      .connect 1 (RegistryWitness.txn (ascii "GET")) 7] ++
    request 1 ++
    [.respond 0 { stdout with requestIdB0 := 2 },
      .connection 0 (.readReady [{ stdout with requestIdB0 := 2 }.encode])]

def final : ServerState :=
  Transition.after (workerThread parse config) KeepsApart
    (ServerState.new config) events

theorem isolated_second : (final.intercepts 1).Isolated := by
  obtain ⟨hreach, hids, hconnected⟩ :
      Transition.Reach (workerThread parse config) KeepsApart final ∧
      final.issued < 2 ^ 32 - 1 ∧ (final.intercepts 1).connected = true :=
    Transition.Reach.after_and (.init rfl) (by decide +kernel)
  exact isolated_of_reach parse config final hreach hids 1 hconnected

end IsolationWitness

end AtsFastcgi
