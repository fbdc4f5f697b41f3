/-
The memory of the request buffer.  The serialization of a request is followed
write by write, with the first pass over the parameters that only sums up their
lengths, and compared with what the constructor has allocated.
-/
import AtsFastcgi.Lib.WriteBuffer
import AtsFastcgi.Preamble

namespace AtsFastcgi

namespace FcgiClientRequest

variable (client : FcgiClientRequest)

/-- The writes of `createBeginRequest`.  The first loop over the parameters
writes each of them to where the header of the parameter stream will be. -/
def serializeBeginRequest (w : WriteBuffer UInt8) : WriteBuffer UInt8 :=
  let w := w.append (client.lengthHeader FCGI_BEGIN_REQUEST 8).bytes
  let w := w.append beginRequestBody
  let w := client.requestHeaders.toList.foldl
    (fun w pair => w.put (serializeNameValue pair.1 pair.2)) w
  let w := w.append
    (client.lengthHeader FCGI_PARAMS client.nameValues.length).bytes
  let w := client.requestHeaders.toList.foldl
    (fun w pair => w.append (serializeNameValue pair.1 pair.2)) w
  w.append (client.lengthHeader FCGI_PARAMS 0).bytes

/-- The writes of `postBodyChunk`. -/
def serializeBodyChunk (w : WriteBuffer UInt8) : Option (WriteBuffer UInt8) :=
  let dataLen := cInt client.postData.length
  if 0 ≤ dataLen then
    let w := w.rewind.append
      (client.lengthHeader FCGI_STDIN client.postData.length).bytes
    let w := w.append (client.postData.take dataLen.toNat)
    some (w.append (client.lengthHeader FCGI_STDIN 0).bytes)
  else none

/-- The writes of `emptyParam`. -/
def serializeEmptyParam (w : WriteBuffer UInt8) : WriteBuffer UInt8 :=
  if client.isPost then w.rewind
  else w.rewind.append (client.lengthHeader FCGI_STDIN 0).bytes

/-! ### What is in front of the cursor -/

/-- The buffer of `createBeginRequest` is what its writes leave. -/
theorem serializeBeginRequest_written {w : WriteBuffer UInt8}
    (hbuff : w.written = client.buff) :
    (client.serializeBeginRequest w).written =
      client.createBeginRequest.buff := by
  simp only [serializeBeginRequest, WriteBuffer.written_append,
    (WriteBuffer.foldl_append _ _ _).1, (WriteBuffer.foldl_put _ _ _).1, hbuff,
    createBeginRequest, preamble, List.append_assoc]
  rfl

theorem serializeBodyChunk_written (w : WriteBuffer UInt8) :
    (client.serializeBodyChunk w).map WriteBuffer.written =
      client.postBodyChunk.map buff := by
  simp only [serializeBodyChunk, postBodyChunk]
  split
  · simp only [Option.map_some, WriteBuffer.written_append,
      WriteBuffer.written_rewind, List.nil_append]
  · rfl

theorem serializeEmptyParam_written (w : WriteBuffer UInt8) :
    (client.serializeEmptyParam w).written = client.emptyParam.buff := by
  unfold serializeEmptyParam emptyParam
  split
  · exact w.written_rewind
  · rw [WriteBuffer.written_append, WriteBuffer.written_rewind,
      List.nil_append]

/-! ### How far the writes reach -/

/-- The first loop reaches no further than the second one. -/
theorem serializeBeginRequest_extent (w : WriteBuffer UInt8) :
    (client.serializeBeginRequest w).extent =
      max w.extent (w.pos + (32 + writtenSize client.requestHeaders)) := by
  have hbody : beginRequestBody.length = 8 := rfl
  have hsize : (client.requestHeaders.toList.flatMap fun pair =>
      serializeNameValue pair.1 pair.2).length =
      writtenSize client.requestHeaders := client.nameValues_length
  let w₁ := (w.append (client.lengthHeader FCGI_BEGIN_REQUEST 8).bytes).append
    beginRequestBody
  have hscratch := w₁.extent_foldl_put_le
    (fun pair : Bytes × Bytes => serializeNameValue pair.1 pair.2)
    client.requestHeaders.toList
  have hpos := (w₁.foldl_put
    (fun pair : Bytes × Bytes => serializeNameValue pair.1 pair.2)
    client.requestHeaders.toList).2
  simp only [w₁, WriteBuffer.extent_append, WriteBuffer.pos_append,
    FcgiHeader.bytes_length, hbody, hsize] at hscratch hpos
  simp only [serializeBeginRequest, WriteBuffer.extent_append,
    ← (WriteBuffer.foldl_append _ _ _).2.2,
    (WriteBuffer.foldl_append _ _ _).2.1, WriteBuffer.pos_append,
    FcgiHeader.bytes_length, hsize, hpos]
  omega

theorem serializeBodyChunk_extent {w w' : WriteBuffer UInt8}
    (hwrites : client.serializeBodyChunk w = some w') :
    0 ≤ cInt client.postData.length ∧
      w'.extent =
        max w.extent (16 + (cInt client.postData.length).toNat) := by
  simp only [serializeBodyChunk, Option.ite_none_right_eq_some,
    Option.some.injEq] at hwrites
  obtain ⟨hint, rfl⟩ := hwrites
  have hle : (cInt client.postData.length).toNat ≤ client.postData.length := by
    rw [cInt_toNat hint]
    exact Nat.mod_le _ _
  refine ⟨hint, ?_⟩
  simp only [WriteBuffer.extent_append, WriteBuffer.extent_rewind,
    WriteBuffer.pos_append, WriteBuffer.pos_rewind, FcgiHeader.bytes_length,
    List.length_take, Nat.min_eq_left hle]
  omega

theorem exists_serializeBodyChunk (w : WriteBuffer UInt8)
    (hint : 0 ≤ cInt client.postData.length) :
    ∃ w', client.serializeBodyChunk w = some w' := by
  cases hwrites : client.serializeBodyChunk w with
  | some w' => exact ⟨w', rfl⟩
  | none =>
      simp only [serializeBodyChunk, ite_eq_right_iff, reduceCtorEq,
        imp_false] at hwrites
      exact absurd hint hwrites

theorem serializeEmptyParam_extent_le (w : WriteBuffer UInt8) :
    (client.serializeEmptyParam w).extent ≤ max w.extent 8 := by
  unfold serializeEmptyParam
  split
  · exact Nat.le_max_left _ _
  · rw [WriteBuffer.extent_append, WriteBuffer.pos_rewind,
      FcgiHeader.bytes_length, WriteBuffer.extent_rewind, Nat.zero_add]

end FcgiClientRequest

/-! ### The capacity -/

/-- The text that `CONTENT_LENGTH` is read from. -/
def contentLengthText (api : HeadersApi) (txn : ClientRequest) : Bytes :=
  if txn.headersInitialized then
    match api.find txn.fields (ascii "Content-Length") with
    | some texts => cString (api.values (ascii ",") texts)
    | none => []
  else []

/-- The length by which the buffer is enlarged. -/
def parsedLength (api : HeadersApi) (txn : ClientRequest) : Int :=
  if txn.method = ascii "POST" then streamInt (contentLengthText api txn) else 0

theorem httpName_ne (name : Bytes) :
    httpName name ≠ ascii "CONTENT_LENGTH" := by
  intro heq
  have hhead := congrArg List.head? heq
  exact absurd hhead (by simp [httpName, ascii])

/-- No header field of the client is taken for the length. -/
theorem clientHeaders_contentLength (api : HeadersApi) (txn : ClientRequest) :
    StringMap.get (clientHeaders api txn) (ascii "CONTENT_LENGTH") = [] := by
  have hfold : ∀ (fields : List (Bytes × List Bytes)) (m : StringMap),
      m.get (ascii "CONTENT_LENGTH") = [] →
      StringMap.get (fields.foldl (fun m field =>
        m.insert (httpName field.1) (api.values (ascii ", ") field.2)) m)
        (ascii "CONTENT_LENGTH") = [] := by
    intro fields
    induction fields with
    | nil => exact fun m hm => hm
    | cons field rest ih =>
        intro m hm
        apply ih
        rw [StringMap.get_insert, if_neg (httpName_ne field.1)]
        exact hm
  have hempty : StringMap.get ∅ (ascii "CONTENT_LENGTH") = [] := by
    simp [StringMap.get]
  unfold clientHeaders
  split
  · exact hfold txn.fields ∅ hempty
  · exact hempty

theorem generateFcgiRequestHeaders_contentLength (config : FcgiPluginConfig)
    (txn : ClientRequest) :
    StringMap.get (generateFcgiRequestHeaders config txn)
      (ascii "CONTENT_LENGTH") = [] := by
  unfold generateFcgiRequestHeaders
  iterate 15 rw [StringMap.get_insert, if_neg (by decide)]
  exact clientHeaders_contentLength config.headersApi txn

theorem postHeaders_contentLength {api : HeadersApi} {txn : ClientRequest}
    {m : StringMap} (hm : m.get (ascii "CONTENT_LENGTH") = []) :
    StringMap.get (postHeaders api txn m) (ascii "CONTENT_LENGTH") =
      contentLengthText api txn := by
  have hlast : ∀ m : StringMap,
      StringMap.get (m.insertIfNew (ascii "CONTENT_LENGTH") [])
        (ascii "CONTENT_LENGTH") = m.get (ascii "CONTENT_LENGTH") := by
    intro m
    simp only [StringMap.get, Std.TreeMap.getD_insertIfNew]
    split
    · next habsent =>
        exact (Std.TreeMap.getD_eq_fallback habsent.2).symm
    · rfl
  unfold postHeaders contentLengthText
  rw [hlast]
  split
  · rw [StringMap.get_copyField api txn _ (by decide), copyField]
    cases api.find txn.fields (ascii "Content-Length") with
    | none => exact hm
    | some texts => exact (StringMap.get_insert m _ _ _).trans (if_pos rfl)
  · exact hm

/-- The parameters of a request. -/
def requestParams (config : FcgiPluginConfig) (txn : ClientRequest) :
    StringMap :=
  let m := generateFcgiRequestHeaders config txn
  if txn.method = ascii "POST" then postHeaders config.headersApi txn m
  else m

theorem requestParams_of_not_post {config : FcgiPluginConfig}
    {txn : ClientRequest} (hother : ¬ txn.method = ascii "POST") :
    requestParams config txn = generateFcgiRequestHeaders config txn := by
  rw [requestParams, if_neg hother]

theorem FcgiClientRequest.new_requestHeaders (config : FcgiPluginConfig)
    (requestId : Nat) (txn : ClientRequest) :
    (FcgiClientRequest.new config requestId txn).requestHeaders =
      requestParams config txn := by
  simp only [FcgiClientRequest.new, generateFcgiRequestHeaders_method,
    requestParams]
  split
  · rfl
  · rfl

theorem FcgiClientRequest.new_capacity (config : FcgiPluginConfig)
    (requestId : Nat) (txn : ClientRequest) :
    (FcgiClientRequest.new config requestId txn).capacity =
      BUF_SIZE + parsedLength config.headersApi txn := by
  simp only [FcgiClientRequest.new, generateFcgiRequestHeaders_method,
    parsedLength]
  split
  · rw [postHeaders_contentLength
      (generateFcgiRequestHeaders_contentLength config txn)]
  · exact (Int.add_zero _).symm

/-! ### The writes fit -/

/-- What is written for a request and for a chunk of its body stays within the
memory that the constructor has allocated. -/
structure BufferFits (client : FcgiClientRequest) (data : Bytes) : Prop where
  positive : 0 < client.capacity
  noOverflow : client.capacity < 2 ^ 31
  begins : ((client.serializeBeginRequest {}).extent : Int) ≤ client.capacity
  body : ∃ w : WriteBuffer UInt8,
    { client with postData := data }.serializeBodyChunk {} = some w ∧
      (w.extent : Int) ≤ client.capacity
  completes : ((client.serializeEmptyParam {}).extent : Int) ≤ client.capacity

/-- The room that a client needs is what its capacity has to cover. -/
theorem FcgiClientRequest.bufferFits_iff_capacity (client : FcgiClientRequest)
    (data : Bytes) :
    BufferFits client data ↔
      client.capacity < 2 ^ 31 ∧
      32 + (writtenSize client.requestHeaders : Int) ≤ client.capacity ∧
      0 ≤ cInt data.length ∧ 16 + cInt data.length ≤ client.capacity := by
  have hextent : ({} : WriteBuffer UInt8).extent = 0 := rfl
  have hpos : ({} : WriteBuffer UInt8).pos = 0 := rfl
  have hbegin := client.serializeBeginRequest_extent {}
  have hcomplete := client.serializeEmptyParam_extent_le {}
  rw [hextent, hpos, Nat.zero_max, Nat.zero_add] at hbegin
  rw [hextent, Nat.zero_max] at hcomplete
  constructor
  · rintro ⟨-, hover, hfirst, ⟨w, hwrites, hbody⟩, -⟩
    obtain ⟨hint, hreach⟩ := serializeBodyChunk_extent _ hwrites
    rw [hextent, Nat.zero_max] at hreach
    rw [hbegin] at hfirst
    rw [hreach] at hbody
    refine ⟨hover, ?_, hint, ?_⟩
    · exact_mod_cast hfirst
    · simp only at hbody hint
      omega
  · rintro ⟨hover, hfirst, hint, hbody⟩
    constructor
    · omega
    · exact hover
    · rw [hbegin]
      exact_mod_cast hfirst
    · obtain ⟨w, hwrites⟩ :=
        { client with postData := data }.exists_serializeBodyChunk {} hint
      have hreach := (serializeBodyChunk_extent _ hwrites).2
      rw [hextent, Nat.zero_max] at hreach
      refine ⟨w, hwrites, ?_⟩
      rw [hreach]
      simp only
      omega
    · omega

/-- The writes for a request fit exactly if the capacity that is parsed from
its length field covers its parameters and the chunk. -/
theorem bufferFits_iff (config : FcgiPluginConfig) (requestId : Nat)
    (txn : ClientRequest) (data : Bytes) :
    BufferFits (FcgiClientRequest.new config requestId txn) data ↔
      BUF_SIZE + parsedLength config.headersApi txn < 2 ^ 31 ∧
      32 + (writtenSize (requestParams config txn) : Int) ≤
        BUF_SIZE + parsedLength config.headersApi txn ∧
      0 ≤ cInt data.length ∧
      16 + cInt data.length ≤ BUF_SIZE + parsedLength config.headersApi txn := by
  rw [FcgiClientRequest.bufferFits_iff_capacity,
    FcgiClientRequest.new_capacity, FcgiClientRequest.new_requestHeaders]

/-- What is written holds every parameter of a length that can be kept. -/
theorem StringMap.length_get_le_writtenSize (m : StringMap) {key : Bytes}
    (hshort : (m.get key).length < 2 ^ 32) :
    (m.get key).length ≤ writtenSize m := by
  rw [StringMap.get, Std.TreeMap.getD_eq_getD_getElem?] at hshort ⊢
  cases hget : m[key]? with
  | none => exact Nat.zero_le _
  | some value =>
      rw [hget] at hshort
      have hin := Std.TreeMap.mem_toList_iff_getElem?_eq_some.mpr hget
      have hle : paramSize (key.length % 2 ^ 32) (value.length % 2 ^ 32) ≤
          writtenSize m :=
        List.le_sum_of_mem (List.mem_map_of_mem
          (f := fun p : Bytes × Bytes =>
            paramSize (p.1.length % 2 ^ 32) (p.2.length % 2 ^ 32)) hin)
      have hvalue : value.length % 2 ^ 32 = value.length :=
        Nat.mod_eq_of_lt hshort
      rw [hvalue] at hle
      exact Nat.le_trans (Nat.le_add_left _ _) hle

namespace RequestBufferWitness

/-- A `GET` with a query string of 5000 bytes. -/
def txn : ClientRequest :=
  { RegistryWitness.txn (ascii "GET") with query := List.replicate 5000 65 }

/-- The parameters of the request do not fit into the buffer. -/
theorem not_always_bufferFits :
    ¬ ∀ (config : FcgiPluginConfig) (requestId : Nat) (txn : ClientRequest)
      (data : Bytes),
      BufferFits (FcgiClientRequest.new config requestId txn) data := by
  intro h
  have hget : ¬ txn.method = ascii "POST" := by decide
  have hfits := h RegistryWitness.config 1 txn []
  rw [FcgiClientRequest.bufferFits_iff_capacity,
    FcgiClientRequest.new_capacity, FcgiClientRequest.new_requestHeaders,
    parsedLength, if_neg hget, requestParams_of_not_post hget] at hfits
  have hquery : (StringMap.get (generateFcgiRequestHeaders
      RegistryWitness.config txn) (ascii "QUERY_STRING")).length = 5000 := by
    rw [generateFcgiRequestHeaders_query, txn, List.length_replicate]
  have hle := StringMap.length_get_le_writtenSize _
    (hquery ▸ (by decide : 5000 < 2 ^ 32))
  rw [hquery] at hle
  have hcap : BUF_SIZE = 5000 := rfl
  have hfirst := hfits.2.1
  omega

end RequestBufferWitness

end AtsFastcgi
