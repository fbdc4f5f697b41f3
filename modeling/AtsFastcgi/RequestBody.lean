/-
The request body on its way to the backend.  Each write of a body chunk and
the write at the end of the input are compared with one `FCGI_STDIN` stream:
records whose contents are the body and of which only the last one is empty.
-/
import AtsFastcgi.Registry

namespace AtsFastcgi

open ServerState (Event)

/-! ### A stream of records -/

/-- One `FCGI_STDIN` stream with the content `body`. -/
structure StdinStream (recs : List Record) (body : Bytes) : Prop where
  type : ∀ r ∈ recs, r.type = FCGI_STDIN
  content : recs.flatMap Record.content = body
  terminator : ∃ front last, recs = front ++ [last] ∧ last.content = [] ∧
    ∀ r ∈ front, r.content ≠ []

/-- The buffers hold whole records, which make up one stream. -/
def CarriesBody (buffers : List Bytes) (body : Bytes) : Prop :=
  ∃ recss : List (List Record),
    buffers = recss.map Record.code.encodeAll ∧ StdinStream recss.flatten body

theorem Record.encodeAll_flatten (recss : List (List Record)) :
    Record.code.encodeAll recss.flatten =
      (recss.map Record.code.encodeAll).flatten := by
  induction recss with
  | nil => rfl
  | cons recs rest ih =>
      rw [List.flatten_cons, PrefixCode.encodeAll_append, ih, List.map_cons,
        List.flatten_cons]

/-- Read as one byte stream, the buffers are the records of the stream. -/
theorem CarriesBody.stream {buffers : List Bytes} {body : Bytes}
    (h : CarriesBody buffers body) :
    ∃ recs, Record.code.decodeAll buffers.flatten = some recs ∧
      StdinStream recs body := by
  obtain ⟨recss, hbuffers, hstream⟩ := h
  refine ⟨recss.flatten, ?_, hstream⟩
  rw [PrefixCode.decodeAll_eq_some_iff, hbuffers]
  exact (Record.encodeAll_flatten recss).symm

/-- A record with others after it is not empty, and nothing comes after an
empty one. -/
theorem StdinStream.head {a z : Record} {tail : List Record} {body : Bytes}
    (h : StdinStream (a :: z :: tail) body) :
    a.content ≠ [] ∧ (z.content = [] → tail = []) := by
  obtain ⟨front, last, heq, -, hfront⟩ := h.terminator
  cases front with
  | nil => simp at heq
  | cons b front =>
      simp only [List.cons_append, List.cons.injEq] at heq
      obtain ⟨rfl, heq⟩ := heq
      refine ⟨hfront a List.mem_cons_self, fun hz => ?_⟩
      cases front with
      | nil =>
          simp only [List.nil_append, List.cons.injEq] at heq
          exact heq.2
      | cons c front =>
          simp only [List.cons_append, List.cons.injEq] at heq
          obtain ⟨rfl, -⟩ := heq
          exact absurd hz
            (hfront z (List.mem_cons_of_mem a List.mem_cons_self))

theorem Record.encodeAll_length (recs : List Record) :
    (Record.code.encodeAll recs).length =
      8 * recs.length + (recs.flatMap Record.content).length +
        (recs.flatMap Record.padding).length := by
  induction recs with
  | nil => rfl
  | cons r rest ih =>
      simp only [PrefixCode.encodeAll_cons, Record.code_encode,
        List.length_append, Record.encode_length, ih, List.length_cons,
        List.flatMap_cons]
      omega

theorem FcgiHeader.bytes_append_inj {h h' : FcgiHeader} {x y : Bytes}
    (heq : h.bytes ++ x = h'.bytes ++ y) : h = h' ∧ x = y := by
  obtain ⟨hbytes, hrest⟩ := List.append_inj heq rfl
  refine ⟨?_, hrest⟩
  cases h
  cases h'
  simpa [bytes] using hbytes

/-! ### What a chunk is made into -/

theorem cInt_toNat {n : Nat} (hn : 0 ≤ cInt n) :
    (cInt n).toNat = n % 2 ^ 32 := by
  unfold cInt at hn ⊢
  rw [Int.bmod_def] at hn ⊢
  split at hn
  · next hsmall =>
      rw [if_pos hsmall]
      omega
  · omega

namespace FcgiClientRequest

variable (client : FcgiClientRequest)

/-- The write buffer of `postBodyChunk`. -/
def bodyBuffer (data : Bytes) : Bytes :=
  (client.lengthHeader FCGI_STDIN data.length).bytes ++
    data.take (cInt data.length).toNat ++
    (client.lengthHeader FCGI_STDIN 0).bytes

/-- The write buffer of `emptyParam`. -/
def endBuffer : Bytes :=
  if client.isPost then [] else (client.lengthHeader FCGI_STDIN 0).bytes

/-- The record that carries `data`. -/
def stdinRecord (data : Bytes) (hdata : data.length < 65536) : Record where
  version := FCGI_VERSION_1
  type := FCGI_STDIN
  requestIdB1 := byte1 client.requestId
  requestIdB0 := byte0 client.requestId
  reserved := 0
  content := data
  padding := []
  content_lt := hdata
  padding_lt := Record.nil_padding_lt

theorem stdinRecord_encode (data : Bytes) (hdata : data.length < 65536) :
    (client.stdinRecord data hdata).encode =
      (client.lengthHeader FCGI_STDIN data.length).bytes ++ data := by
  rw [Record.encode]
  show _ ++ (data ++ []) = _
  rw [List.append_nil]
  rfl

theorem bodyBuffer_length {data : Bytes} (hint : 0 ≤ cInt data.length) :
    (client.bodyBuffer data).length = 16 + data.length % 2 ^ 32 := by
  have hle := Nat.mod_le data.length (2 ^ 32)
  simp only [bodyBuffer, cInt_toNat hint, List.length_append,
    FcgiHeader.bytes_length, List.length_take, Nat.min_eq_left hle]
  omega

/-- The records of a body buffer: their contents are no longer than the chunk,
and as long only for the chunk in one record with an empty one after it. -/
theorem bodyBuffer_records {data : Bytes} {recs : List Record}
    (hint : 0 ≤ cInt data.length)
    (henc : client.bodyBuffer data = Record.code.encodeAll recs) :
    (recs.flatMap Record.content).length ≤ data.length ∧
      ((recs.flatMap Record.content).length = data.length →
        ∃ a z, recs = [a, z] ∧ a.content.length = data.length ∧
          z.content = []) := by
  have hlen := client.bodyBuffer_length hint
  rw [henc, Record.encodeAll_length] at hlen
  -- the first record is the one the header announces
  obtain ⟨a, rest, rfl, hcontent, hpadding⟩ : ∃ a rest, recs = a :: rest ∧
      a.content.length = data.length % 65536 ∧ a.padding.length = 0 := by
    cases recs with
    | nil =>
        simp only [List.length_nil, List.flatMap_nil] at hlen
        omega
    | cons a rest =>
        refine ⟨a, rest, rfl, ?_⟩
        rw [bodyBuffer, PrefixCode.encodeAll_cons, Record.code_encode,
          Record.encode] at henc
        simp only [List.append_assoc] at henc
        obtain ⟨hheader, -⟩ := FcgiHeader.bytes_append_inj henc
        constructor
        · rw [← Record.header_contentLen, ← hheader, FcgiHeader.contentLen_eq]
          exact byte1_byte0_toNat data.length
        · rw [← Record.header_paddingLength, ← hheader]
          rfl
  have hmod := Nat.mod_le data.length (2 ^ 32)
  cases rest with
  | nil =>
      simp only [List.length_cons, List.length_nil, List.flatMap_cons,
        List.flatMap_nil, List.append_nil] at hlen
      omega
  | cons z tail =>
      simp only [List.length_cons, List.flatMap_cons,
        List.length_append] at hlen ⊢
      refine ⟨by omega, fun hfull => ?_⟩
      -- no byte is left for a third record, and too many for a second chunk
      obtain rfl : tail = [] := List.eq_nil_of_length_eq_zero (by omega)
      rw [List.flatMap_nil, List.length_nil] at hfull
      have hz := z.content_lt
      have hempty : z.content.length = 0 := by omega
      refine ⟨a, z, rfl, ?_, List.eq_nil_of_length_eq_zero hempty⟩
      omega

/-- The same for several chunks. -/
theorem bodyBuffers_records {chunks : List Bytes}
    {recss : List (List Record)}
    (hint : ∀ data ∈ chunks, 0 ≤ cInt data.length)
    (henc : chunks.map client.bodyBuffer = recss.map Record.code.encodeAll) :
    (recss.flatten.flatMap Record.content).length ≤ chunks.flatten.length ∧
      ((recss.flatten.flatMap Record.content).length = chunks.flatten.length →
        List.Forall₂ (fun data recs => ∃ a z, recs = [a, z] ∧
          a.content.length = data.length ∧ z.content = []) chunks recss) := by
  induction chunks generalizing recss with
  | nil =>
      obtain rfl := List.map_eq_nil_iff.mp henc.symm
      exact ⟨Nat.le_refl _, fun _ => .nil⟩
  | cons data rest ih =>
      cases recss with
      | nil => simp at henc
      | cons recs recss =>
          simp only [List.map_cons, List.cons.injEq] at henc
          have hhead := client.bodyBuffer_records
            (hint data List.mem_cons_self) henc.1
          have htail := ih (fun d hd => hint d (List.mem_cons_of_mem data hd))
            henc.2
          simp only [List.flatten_cons, List.flatMap_append,
            List.length_append]
          refine ⟨Nat.add_le_add hhead.1 htail.1, fun hfull => ?_⟩
          have hle := hhead.1
          have hle' := htail.1
          exact .cons (hhead.2 (by omega)) (htail.2 (by omega))

/-- A chunk that fits a record is made into that record and an empty one. -/
theorem bodyBuffer_eq {data : Bytes} (hdata : data.length < 65536) :
    client.bodyBuffer data = Record.code.encodeAll
      [client.stdinRecord data hdata, client.stdinRecord [] (by decide)] := by
  have hint : cInt data.length = data.length := cInt_of_lt (by omega)
  rw [PrefixCode.encodeAll_cons, PrefixCode.encodeAll_cons,
    PrefixCode.encodeAll_nil, Record.code_encode, Record.code_encode,
    stdinRecord_encode, stdinRecord_encode, bodyBuffer, hint, Int.toNat_natCast,
    List.take_length, List.append_nil, List.append_nil]
  rfl

theorem endBuffer_eq (hpost : client.isPost = false) :
    client.endBuffer =
      Record.code.encodeAll [client.stdinRecord [] (by decide)] := by
  rw [endBuffer, if_neg (by rw [hpost]; exact Bool.false_ne_true),
    PrefixCode.encodeAll_cons, Record.code_encode, stdinRecord_encode,
    List.append_nil, PrefixCode.encodeAll_nil, List.append_nil]
  rfl

theorem endBuffer_records {recs : List Record}
    (henc : client.endBuffer = Record.code.encodeAll recs) :
    recs.flatMap Record.content = [] ∧ (client.isPost = true ↔ recs = []) := by
  cases hpost : client.isPost with
  | true =>
      rw [endBuffer, if_pos hpost] at henc
      obtain rfl := PrefixCode.encodeAll_eq_nil _ henc.symm
      exact ⟨rfl, fun _ => rfl, fun _ => rfl⟩
  | false =>
      rw [client.endBuffer_eq hpost] at henc
      obtain rfl := PrefixCode.encodeAll_injective _ henc
      exact ⟨rfl, fun h => absurd h Bool.false_ne_true,
        fun h => absurd h (List.cons_ne_nil _ _)⟩

/-- A request of this method whose body comes in these chunks is framed
right: a POST in one non-empty chunk that fits a record, any other method
without a body. -/
def BodyFits (chunks : List Bytes) : Prop :=
  (client.isPost = true ∧
      ∃ data, chunks = [data] ∧ data ≠ [] ∧ data.length < 65536) ∨
    client.isPost = false ∧ chunks = []

instance : (chunks : List Bytes) → Decidable (client.BodyFits chunks)
  | [] => decidable_of_iff (client.isPost = false)
      ⟨fun h => .inr ⟨h, rfl⟩, fun h => h.elim
        (fun ⟨_, _, hdata, _⟩ => nomatch hdata) fun h => h.1⟩
  | [data] => decidable_of_iff
      (client.isPost = true ∧ data ≠ [] ∧ data.length < 65536)
      ⟨fun h => .inl ⟨h.1, data, rfl, h.2⟩, fun h => h.elim
        (fun ⟨hpost, _, hdata, h⟩ =>
          ⟨hpost, (List.cons.inj hdata).1 ▸ h⟩) fun h => nomatch h.2⟩
  | _ :: _ :: _ => isFalse fun h => h.elim
      (fun ⟨_, _, hdata, _⟩ => nomatch hdata) fun h => nomatch h.2

/-- The writes of a request's body are one stream exactly when the body
fits. -/
theorem carriesBody_iff {chunks : List Bytes}
    (hint : ∀ data ∈ chunks, 0 ≤ cInt data.length) :
    CarriesBody (chunks.map client.bodyBuffer ++ [client.endBuffer])
        chunks.flatten ↔ client.BodyFits chunks := by
  constructor
  · rintro ⟨recss, hbuffers, hstream⟩
    obtain ⟨front, back, rfl, hfront, hback⟩ :=
      List.append_eq_map_iff.mp hbuffers
    obtain ⟨last, rfl, hlast⟩ : ∃ last, back = [last] ∧
        client.endBuffer = Record.code.encodeAll last := by
      obtain ⟨last, hlast⟩ := List.map_eq_singleton_iff.mp hback
      exact ⟨last, hlast.1, hlast.2.symm⟩
    obtain ⟨hempty, hnonempty⟩ := client.endBuffer_records hlast
    have hlen := congrArg List.length hstream.content
    simp only [List.flatten_append, List.flatMap_append, List.flatten_cons,
      List.flatten_nil, List.append_nil, hempty] at hlen
    have hshape := (client.bodyBuffers_records hint hfront.symm).2 hlen
    cases hshape with
    | nil =>
        refine .inr ⟨Bool.not_eq_true _ ▸ fun hpost => ?_, rfl⟩
        obtain rfl := hnonempty.mp hpost
        obtain ⟨front, final, heq, -⟩ := hstream.terminator
        simp at heq
    | @cons data _ rest rss hhead htail =>
        obtain ⟨a, z, rfl, hdata, hz⟩ := hhead
        have hstream' : StdinStream (a :: z :: (rss.flatten ++ last))
            (data :: rest).flatten := by
          simpa using hstream
        obtain ⟨ha, hend⟩ := hstream'.head
        obtain ⟨hrss, rfl⟩ := List.append_eq_nil_iff.mp (hend hz)
        refine .inl ⟨hnonempty.mpr rfl, data, ?_, ?_, ?_⟩
        · cases htail with
          | nil => rfl
          | cons hnext _ =>
              obtain ⟨a', z', rfl, -⟩ := hnext
              simp at hrss
        · rintro rfl
          exact ha (List.eq_nil_of_length_eq_zero hdata)
        · rw [← hdata]
          exact a.content_lt
  · rintro (⟨hpost, data, rfl, hne, hlt⟩ | ⟨hpost, rfl⟩)
    · refine ⟨[[client.stdinRecord data hlt,
        client.stdinRecord [] (by decide)], []], ?_, ?_, ?_, ?_⟩
      · have hend : client.endBuffer = [] := if_pos hpost
        rw [List.map_singleton, client.bodyBuffer_eq hlt, hend]
        rfl
      · intro r hr
        rcases List.mem_pair.mp hr with rfl | rfl <;> rfl
      · simp [stdinRecord]
      · refine ⟨[client.stdinRecord data hlt],
          client.stdinRecord [] (by decide), rfl, rfl, ?_⟩
        intro r hr
        rw [List.mem_singleton.mp hr]
        exact hne
    · refine ⟨[[client.stdinRecord [] (by decide)]], ?_, ?_, ?_, ?_⟩
      · rw [client.endBuffer_eq hpost]
        rfl
      · intro r hr
        rw [List.mem_singleton.mp hr]
        rfl
      · rfl
      · exact ⟨[], _, rfl, rfl, fun r hr => absurd hr List.not_mem_nil⟩

end FcgiClientRequest

/-! ### The writes of a registered request -/

theorem ClientInput.prepare_body {client client' : FcgiClientRequest}
    {data : Bytes} :
    (ClientInput.body data).prepare client = some client' ↔
      0 ≤ cInt data.length ∧
        { client with postData := data, buff := client.bodyBuffer data } =
          client' := by
  simp only [prepare, FcgiClientRequest.postBodyChunk,
    Option.ite_none_right_eq_some, Option.some.injEq]
  rfl

theorem ClientInput.prepare_complete (client : FcgiClientRequest) :
    ClientInput.complete.prepare client =
      some { client with buff := client.endBuffer } := by
  simp only [prepare, FcgiClientRequest.emptyParam,
    FcgiClientRequest.endBuffer]
  split <;> rfl

theorem FcgiClientRequest.addClientRequest_eq_some {client : FcgiClientRequest}
    {buf : Bytes} :
    client.addClientRequest = some buf ↔
      client.buff.length < 2 ^ 31 ∧ client.buff = buf := by
  simp only [addClientRequest, Option.ite_none_right_eq_some,
    Option.some.injEq]

namespace ServerState

/-- The intercept is registered on an established connection, whose FCGI
client is `client`. -/
structure Attached (s : ServerState) (i : InterceptId) (c : ConnId)
    (client : FcgiClientRequest) : Prop where
  registered : s.Registered (s.intercepts i).requestId i c
  vc : (s.conns c).vc = true
  client : (s.conns c).fcgiRequest = some client

/-- `streamReqBody` for each chunk in order. -/
def streamBody (s : ServerState) (i : InterceptId) :
    List Bytes → Option ServerState
  | [] => some s
  | data :: rest => (s.streamReqBody i data).bind (·.streamBody i rest)

/-- The body and the end of the input. -/
def sendBody (s : ServerState) (i : InterceptId) (chunks : List Bytes) :
    Option ServerState :=
  (s.streamBody i chunks).bind (·.handleInputComplete i)

variable {s : ServerState} {i : InterceptId} {c : ConnId}
  {client : FcgiClientRequest}

theorem stream_attached (hattached : s.Attached i c client)
    (input : ClientInput) :
    s.stream i input = (input.write (s.conns c)).map fun conn =>
      (s.setConn c conn).setIntercept i (input.sent (s.intercepts i)) := by
  have hget : s.getServerConnection (s.intercepts i).requestId = some c :=
    getServerConnection_eq_some.mpr ⟨i, hattached.registered⟩
  simp only [stream, writeRequest, hget]
  cases input.write (s.conns c) <;> rfl

/-- One write of the attached request. -/
theorem stream_written (hattached : s.Attached i c client)
    {input : ClientInput} {s' : ServerState}
    (hstep : s.stream i input = some s') :
    ∃ client', input.prepare client = some client' ∧ s'.Attached i c client' ∧
      (s'.conns c).requestId = (s.conns c).requestId ∧
      (s'.conns c).written =
        (s.conns c).written ++ [((s.conns c).requestId, client'.buff)] := by
  rw [stream_attached hattached] at hstep
  obtain ⟨conn, hwrite, rfl⟩ := Option.map_eq_some_iff.mp hstep
  obtain ⟨client₁, client', buf, hclient, hprepare, hbuf, hvc, rfl⟩ :=
    ServerConnection.write_eq_some.mp hwrite
  obtain rfl : client₁ = client :=
    Option.some.inj (hclient.symm.trans hattached.client)
  obtain ⟨-, rfl⟩ := FcgiClientRequest.addClientRequest_eq_some.mp hbuf
  have hid : (input.sent (s.intercepts i)).requestId =
      (s.intercepts i).requestId := by
    cases input <;> rfl
  refine ⟨client', hprepare, ⟨?_, ?_, ?_⟩, ?_, ?_⟩
  · rw [setIntercept_intercepts_self, hid]
    exact hattached.registered
  · show ((s.setConn c _).conns c).vc = true
    rw [setConn_conns_self]
    exact hvc
  · show ((s.setConn c _).conns c).fcgiRequest = some client'
    rw [setConn_conns_self]
  · show ((s.setConn c _).conns c).requestId = _
    rw [setConn_conns_self]
  · show ((s.setConn c _).conns c).written = _
    rw [setConn_conns_self]

/-- A write that fits its buffer is made. -/
theorem stream_isSome (hattached : s.Attached i c client)
    {input : ClientInput} {client' : FcgiClientRequest}
    (hprepare : input.prepare client = some client')
    (hfits : client'.buff.length < 2 ^ 31) :
    ∃ s', s.stream i input = some s' := by
  have hbuf : client'.addClientRequest = some client'.buff :=
    FcgiClientRequest.addClientRequest_eq_some.mpr ⟨hfits, rfl⟩
  have hwrite := ServerConnection.write_eq_some.mpr
    ⟨client, client', client'.buff, hattached.client, hprepare, hbuf,
      hattached.vc, rfl⟩
  rw [stream_attached hattached, hwrite]
  exact ⟨_, rfl⟩

theorem streamBody_written (hattached : s.Attached i c client)
    {chunks : List Bytes} {s' : ServerState}
    (hrun : s.streamBody i chunks = some s') :
    (∀ data ∈ chunks, 0 ≤ cInt data.length) ∧
      (∃ postData buff, s'.Attached i c
        { client with postData := postData, buff := buff }) ∧
      (s'.conns c).requestId = (s.conns c).requestId ∧
      (s'.conns c).written = (s.conns c).written ++
        (chunks.map client.bodyBuffer).map ((s.conns c).requestId, ·) := by
  induction chunks generalizing s client with
  | nil =>
      obtain rfl := Option.some.inj hrun
      refine ⟨fun _ hin => absurd hin List.not_mem_nil,
        ⟨client.postData, client.buff, hattached⟩, rfl, ?_⟩
      exact (List.append_nil _).symm
  | cons data rest ih =>
      obtain ⟨s₁, hstep, hrest⟩ := Option.bind_eq_some_iff.mp hrun
      obtain ⟨client', hprepare, hattached', hid, hwritten⟩ :=
        stream_written hattached hstep
      obtain ⟨hint, rfl⟩ := ClientInput.prepare_body.mp hprepare
      obtain ⟨hints, hlater, hid', hwritten'⟩ := ih hattached' hrest
      refine ⟨?_, hlater, hid'.trans hid, ?_⟩
      · intro d hd
        rcases List.mem_cons.mp hd with rfl | hin
        · exact hint
        · exact hints d hin
      · rw [hwritten', hwritten, hid, List.append_assoc]
        rfl

/-- What the body and the end of the input write. -/
theorem sendBody_written (hattached : s.Attached i c client)
    {chunks : List Bytes} {s' : ServerState}
    (hrun : s.sendBody i chunks = some s') :
    (∀ data ∈ chunks, 0 ≤ cInt data.length) ∧
      (s'.conns c).written = (s.conns c).written ++
        (chunks.map client.bodyBuffer ++ [client.endBuffer]).map
          ((s.conns c).requestId, ·) := by
  obtain ⟨s₁, hbody, hlast⟩ := Option.bind_eq_some_iff.mp hrun
  obtain ⟨hint, ⟨postData, buff, hattached'⟩, hid, hwritten⟩ :=
    streamBody_written hattached hbody
  obtain ⟨client', hprepare, -, -, hwritten'⟩ :=
    stream_written hattached' hlast
  rw [ClientInput.prepare_complete] at hprepare
  obtain rfl := Option.some.inj hprepare
  refine ⟨hint, ?_⟩
  rw [hwritten', hwritten, hid, List.map_append, List.append_assoc]
  rfl

/-- The buffers that were written are those of the body. -/
theorem buffers_of_sendBody (hattached : s.Attached i c client)
    {chunks buffers : List Bytes} {s' : ServerState}
    (hrun : s.sendBody i chunks = some s')
    (hwritten : (s'.conns c).written = (s.conns c).written ++
      buffers.map ((s.conns c).requestId, ·)) :
    (∀ data ∈ chunks, 0 ≤ cInt data.length) ∧
      buffers = chunks.map client.bodyBuffer ++ [client.endBuffer] := by
  obtain ⟨hint, hwritten'⟩ := sendBody_written hattached hrun
  refine ⟨hint, ?_⟩
  rw [hwritten'] at hwritten
  have hmap := List.append_cancel_left hwritten
  have hinj : Function.Injective
      (fun buf : Bytes => ((s.conns c).requestId, buf)) :=
    fun _ _ heq => (Prod.mk.inj heq).2
  exact (List.map_injective_iff.mpr hinj hmap).symm

/-- A body that fits is written. -/
theorem sendBody_isSome (hattached : s.Attached i c client)
    {chunks : List Bytes} (hfits : client.BodyFits chunks) :
    ∃ s', s.sendBody i chunks = some s' := by
  have hend : ∀ {s₁ : ServerState} {client₁ : FcgiClientRequest},
      s₁.Attached i c client₁ → ∃ s', s₁.handleInputComplete i = some s' := by
    intro s₁ client₁ hattached₁
    refine stream_isSome hattached₁ (ClientInput.prepare_complete client₁) ?_
    show client₁.endBuffer.length < 2 ^ 31
    unfold FcgiClientRequest.endBuffer
    split
    · decide
    · rw [FcgiHeader.bytes_length]
      decide
  rcases hfits with ⟨-, data, rfl, -, hlt⟩ | ⟨-, rfl⟩
  · have hint : 0 ≤ cInt data.length := by
      rw [cInt_of_lt (by omega)]
      exact Int.natCast_nonneg _
    have hprepare : (ClientInput.body data).prepare client = some
        { client with postData := data, buff := client.bodyBuffer data } :=
      ClientInput.prepare_body.mpr ⟨hint, rfl⟩
    have hbuf : (client.bodyBuffer data).length < 2 ^ 31 := by
      rw [client.bodyBuffer_length hint]
      omega
    obtain ⟨s₁, hstep⟩ := stream_isSome hattached hprepare hbuf
    obtain ⟨client', -, hattached', -⟩ := stream_written hattached hstep
    obtain ⟨s', hlast⟩ := hend hattached'
    refine ⟨s', ?_⟩
    have hbody : s.streamBody i [data] = some s₁ := by
      rw [streamBody, show s.streamReqBody i data = some s₁ from hstep]
      rfl
    rw [sendBody, hbody]
    exact hlast
  · exact hend hattached

end ServerState

/-- The request body reaches the backend as one stream exactly when it is the
body of a POST that comes in one non-empty chunk of less than 64 KiB, or no
body with another method. -/
theorem body_delivered_iff {s : ServerState} {i : InterceptId} {c : ConnId}
    {client : FcgiClientRequest} (hattached : s.Attached i c client)
    (chunks : List Bytes) :
    (∃ s' buffers, s.sendBody i chunks = some s' ∧
        (s'.conns c).written = (s.conns c).written ++
          buffers.map ((s.conns c).requestId, ·) ∧
        CarriesBody buffers chunks.flatten) ↔ client.BodyFits chunks := by
  constructor
  · rintro ⟨s', buffers, hrun, hwritten, hcarries⟩
    obtain ⟨hint, rfl⟩ := ServerState.buffers_of_sendBody hattached hrun hwritten
    exact (client.carriesBody_iff hint).mp hcarries
  · intro hfits
    obtain ⟨s', hrun⟩ := ServerState.sendBody_isSome hattached hfits
    obtain ⟨hint, hwritten⟩ := ServerState.sendBody_written hattached hrun
    exact ⟨s', _, hrun, hwritten, (client.carriesBody_iff hint).mpr hfits⟩

namespace BodyWitness

def request (method : Bytes) : ServerState :=
  Transition.after
    (workerThread DecoderSafetyWitness.parse RegistryWitness.config) Ats
    (ServerState.new RegistryWitness.config)
    [.connect 0 (RegistryWitness.txn method) 7, .connection 0 .netConnect]

def client (method : Bytes) : FcgiClientRequest :=
  FcgiClientRequest.new RegistryWitness.config 1 (RegistryWitness.txn method)

theorem request_attached (method : Bytes) :
    (request method).Attached 0 0 (client method) :=
  ⟨rfl, rfl, rfl⟩

/-- A POST whose body is empty: its stream has no end. -/
theorem not_always_delivered :
    ¬ ∀ parse config s,
      Transition.Reach (workerThread parse config) Ats s →
      s.issued < 2 ^ 32 - 1 → ∀ i c client, s.Attached i c client →
      ∀ chunks, ∃ s' buffers, s.sendBody i chunks = some s' ∧
        (s'.conns c).written = (s.conns c).written ++
          buffers.map ((s.conns c).requestId, ·) ∧
        CarriesBody buffers chunks.flatten := by
  intro h
  have hattached := request_attached (ascii "POST")
  obtain ⟨s', buffers, hrun, hwritten, hcarries⟩ := h _ _
    (request (ascii "POST")) (Transition.Reach.after (.init rfl) (by decide))
    (by decide) 0 0 (client (ascii "POST")) hattached []
  obtain ⟨hint, rfl⟩ := ServerState.buffers_of_sendBody hattached hrun hwritten
  have hfits := ((client (ascii "POST")).carriesBody_iff hint).mp hcarries
  have hpost : (client (ascii "POST")).isPost = true := by
    simp [client, RegistryWitness.txn]
  rcases hfits with ⟨-, data, hdata, -⟩ | ⟨hget, -⟩
  · exact absurd hdata.symm (List.cons_ne_nil data [])
  · rw [hpost] at hget
    contradiction

/-- A small POST in one chunk. -/
theorem delivered_post :
    ∃ s' buffers, (request (ascii "POST")).sendBody 0 [ascii "a=1"] =
        some s' ∧
      (s'.conns 0).written = ((request (ascii "POST")).conns 0).written ++
        buffers.map (((request (ascii "POST")).conns 0).requestId, ·) ∧
      CarriesBody buffers [ascii "a=1"].flatten := by
  refine (body_delivered_iff (request_attached (ascii "POST"))
    [ascii "a=1"]).mpr (.inl ⟨?_, ascii "a=1", rfl, by decide, by decide⟩)
  simp [client, RegistryWitness.txn]

end BodyWitness

end AtsFastcgi
