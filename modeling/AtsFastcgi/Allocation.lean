/-
The blocks of a `FCGIClientRequest`: what its constructor, the request records,
the decoder and the destructors of `ats_fcgi_client.cc` allocate, use and free.
The functions follow the source beside the definitions without a heap, whose
values they compute.  We assume that every `TSmalloc` succeeds and that what is
written stays in its block, which the lengths of a request decide.
-/
import AtsFastcgi.DecoderSafety
import AtsFastcgi.ServerConnection
import AtsFastcgi.Lib.Ownership

namespace AtsFastcgi

open Ownership

/-! ### Records -/

/-- The blocks of a `FCGIRecordList`. -/
structure RecordMemory where
  object : Block
  header : Block
  endBody : Block
  content : Option Block
deriving DecidableEq, Repr

/-- `FCGIRecordList()`. -/
def newRecordList : HeapM RecordMemory := do
  let object ← malloc
  let header ← malloc
  let endBody ← malloc
  pure { object, header, endBody, content := none }

/-- `delete` of a record: its destructor leaves `endBody` alone. -/
def deleteRecordList (m : RecordMemory) : HeapM Unit := do
  deref (some m.object)
  free (some m.header)
  free m.content
  free (some m.object)

/-- The allocation of the content in `fcgiProcessRecord`. -/
def beginContentMemory (record : FcgiRecordList) (m : RecordMemory) :
    HeapM RecordMemory :=
  if record.state = .contentBegin then do
    deref (some m.header)
    let content ← malloc
    pure { m with content := some content }
  else pure m

/-- The record and its content as `fcgiProcessContent` uses them: a padding is
skipped without a look at the content. -/
def useContent (record : FcgiRecordList) (m : RecordMemory) : HeapM Unit := do
  deref (some m.object)
  deref (some m.header)
  if record.state = .padding then pure () else deref m.content

/-- `fcgiProcessRecord`, as above. -/
def fcgiProcessRecordMemory :
    Bytes → FcgiRecordList → RecordMemory →
      HeapM (Option Advance × RecordMemory)
  | [], record, m => do
      deref (some m.object)
      if record.state.beforeContent then pure (none, m)
      else do
        let m ← beginContentMemory record m
        useContent (beginContent record) m
        pure (some (fcgiProcessContent [] (beginContent record)), m)
  | ch :: rest, record, m => do
      deref (some m.object)
      if record.state.beforeContent then do
        deref (some m.header)
        let (rv, record) := fcgiProcessHeader ch record
        if rv = .err then pure (some ⟨.err, record, 0⟩, m)
        else if rest = [] then pure (some ⟨.again, record, 1⟩, m)
        else do
          let (a, m) ← fcgiProcessRecordMemory rest record m
          pure (a.map fun a => { a with moved := a.moved + 1 }, m)
      else do
        let m ← beginContentMemory record m
        useContent (beginContent record) m
        pure (some (fcgiProcessContent (ch :: rest) (beginContent record)), m)

/-- A finished record is replaced by a new one and deleted. -/
def renewMemory (record : FcgiRecordList) (m : RecordMemory) :
    HeapM RecordMemory := do
  deref (some m.object)
  if record.state = .done then do
    let new ← newRecordList
    deleteRecordList m
    pure new
  else pure m

/-- What the output of a finished record reads. -/
def readRecord (firstChunk : Bool) (record : FcgiRecordList)
    (m : RecordMemory) : HeapM Unit := do
  deref (some m.header)
  if firstChunk || record.header.type = FCGI_STDOUT ||
      record.header.type = FCGI_STDERR then
    deref m.content
  else pure ()

/-- `fcgiProcessLoop`, as above. -/
def fcgiProcessLoopMemory (parse : MimeHdrParse) :
    Nat → Bool → FcgiRecordList → RecordMemory → Bytes →
      HeapM (BufferRun × RecordMemory)
  | 0, _, _, m, _ => pure (.running, m)
  | fuel + 1, firstChunk, record, m, buf => do
      let m ← renewMemory record m
      let (a, m) ← fcgiProcessRecordMemory buf (renewRecord record) m
      match a with
      | none => pure (.readOutside, m)
      | some a =>
          if a.rv = .done then do
            readRecord firstChunk a.record m
            let output := recordOutput parse firstChunk a.record
            if endsResponse a.record.header.type then
              pure (.returned
                { completed := true, decoder := ⟨false, some a.record⟩
                  output, dispatched := [a.record], moved := a.moved }, m)
            else if a.moved = buf.length then
              pure (.returned
                { completed := false, decoder := ⟨false, some a.record⟩
                  output, dispatched := [a.record], moved := a.moved }, m)
            else do
              let (run, m) ← fcgiProcessLoopMemory parse fuel false a.record m
                (buf.drop a.moved)
              pure (run.after output [a.record] a.moved, m)
          else if a.moved = buf.length then
            pure (.returned
              { completed := false, decoder := ⟨firstChunk, some a.record⟩
                output := [], dispatched := [], moved := a.moved }, m)
          else do
            let (run, m) ← fcgiProcessLoopMemory parse fuel firstChunk a.record
              m (buf.drop a.moved)
            pure (run.after [] [] a.moved, m)

/-! ### Requests -/

/-- The blocks of a `FCGI_BeginRequest`. -/
structure BeginRequestMemory where
  object : Block
  header : Block
  body : Block
deriving DecidableEq, Repr

/-- The blocks of a `FCGIClientRequest` and its `FCGIClientState`.  The pointer
`records` is null for the whole life of the state. -/
structure ClientMemory where
  object : Block
  state : Block
  buff : Block
  request : Option BeginRequestMemory := none
  header : Option Block := none
  postHeader : Option Block := none
  headerRecord : Option RecordMemory := none
deriving DecidableEq, Repr

/-- `new FCGIClientRequest`. -/
def newClientRequest : HeapM ClientMemory := do
  let object ← malloc
  let state ← malloc
  let buff ← malloc
  pure { object, state, buff }

/-- `createBeginRequest`: the pointers `request` and `header` are overwritten. -/
def createBeginRequestMemory (m : ClientMemory) : HeapM ClientMemory := do
  deref (some m.state)
  let object ← malloc
  let requestHeader ← malloc
  let body ← malloc
  deref (some m.buff)
  let header ← malloc
  pure { m with
    request := some { object, header := requestHeader, body }
    header := some header }

/-- `postBodyChunk`, and `emptyParam` without a POST: the pointer `postHeader`
is overwritten. -/
def createPostHeader (m : ClientMemory) : HeapM ClientMemory := do
  deref (some m.state)
  let postHeader ← malloc
  deref (some m.buff)
  pure { m with postHeader := some postHeader }

def emptyParamMemory (client : FcgiClientRequest) (m : ClientMemory) :
    HeapM ClientMemory := do
  deref (some m.state)
  if client.isPost then pure m else createPostHeader m

/-- The first lines of `fcgiProcessBuffer`, on the member `_headerRecord`. -/
def headerRecordMemory (m : ClientMemory) : HeapM RecordMemory := do
  deref (some m.object)
  match m.headerRecord with
  | some record => pure record
  | none => newRecordList

/-- `fcgiDecodeRecordChunk`. -/
def fcgiDecodeRecordChunkMemory (parse : MimeHdrParse) (d : ResponseDecoder)
    (m : ClientMemory) (chunk : Bytes) : HeapM (BufferRun × ClientMemory) := do
  let record ← headerRecordMemory m
  let (run, record) ← fcgiProcessLoopMemory parse (chunk.length + 2)
    d.firstChunk (d.headerRecord.getD {}) record chunk
  pure (run, { m with headerRecord := some record })

/-- `~FCGIClientState`: the blocks behind `request` are left alone. -/
def deleteClientState (m : ClientMemory) : HeapM Unit := do
  deref (some m.state)
  free (m.request.map BeginRequestMemory.object)
  free m.header
  free m.postHeader
  free (some m.buff)
  free none
  free (some m.state)

/-- `delete` of a request. -/
def deleteClientRequest (m : ClientMemory) : HeapM Unit := do
  deref (some m.object)
  match m.headerRecord with
  | some record => do
      deleteRecordList record
      deleteClientState m
      free (some m.object)
  | none => do
      deleteClientState m
      free (some m.object)

/-! ### The life of a request -/

/-- A use of a request between its construction and its destruction. -/
inductive ClientCall where
  | feed (input : ClientInput)
  | decode (chunk : Bytes)
deriving DecidableEq

/-- What a call does without a look at the heap, and the records it dispatches;
`none` if it leaves its buffers. -/
def ClientCall.apply (parse : MimeHdrParse) :
    ClientCall → FcgiClientRequest →
      Option (FcgiClientRequest × List FcgiRecordList)
  | .feed input, client => (input.prepare client).map fun client => (client, [])
  | .decode chunk, client =>
      match fcgiDecodeRecordChunk parse client.decoder chunk with
      | .returned ret =>
          some ({ client with decoder := ret.decoder }, ret.dispatched)
      | _ => none

/-- What an input does to the blocks. -/
def inputMemory (client : FcgiClientRequest) (m : ClientMemory) :
    ClientInput → HeapM ClientMemory
  | .header _ => createBeginRequestMemory m
  | .body _ => createPostHeader m
  | .complete => emptyParamMemory client m

def ClientCall.perform (parse : MimeHdrParse) :
    ClientCall → FcgiClientRequest → ClientMemory →
      HeapM (Option (FcgiClientRequest × List FcgiRecordList) × ClientMemory)
  | .feed input, client, m => do
      let m ← inputMemory client m input
      pure ((input.prepare client).map fun client => (client, []), m)
  | .decode chunk, client, m => do
      let (run, m) ← fcgiDecodeRecordChunkMemory parse client.decoder m chunk
      match run with
      | .returned ret =>
          pure (some ({ client with decoder := ret.decoder }, ret.dispatched), m)
      | _ => pure (none, m)

/-- All calls in order, with the records they dispatch. -/
def applyCalls (parse : MimeHdrParse) :
    List ClientCall → FcgiClientRequest →
      Option (FcgiClientRequest × List FcgiRecordList)
  | [], client => some (client, [])
  | call :: rest, client =>
      match call.apply parse client with
      | some (client, dispatched) =>
          (applyCalls parse rest client).map fun later =>
            (later.1, dispatched ++ later.2)
      | none => none

def performCalls (parse : MimeHdrParse) :
    List ClientCall → FcgiClientRequest → ClientMemory →
      HeapM (Option (FcgiClientRequest × List FcgiRecordList) × ClientMemory)
  | [], client, m => pure (some (client, []), m)
  | call :: rest, client, m => do
      let (result, m) ← call.perform parse client m
      match result with
      | some (client, dispatched) => do
          let (later, m) ← performCalls parse rest client m
          pure (later.map fun later => (later.1, dispatched ++ later.2), m)
      | none => pure (none, m)

/-- A request is constructed, used and deleted.  A call that leaves its buffers
is the end of what is known about it. -/
def requestLife (parse : MimeHdrParse) (client : FcgiClientRequest)
    (calls : List ClientCall) :
    HeapM (Option (FcgiClientRequest × List FcgiRecordList)) := do
  let m ← newClientRequest
  let (result, m) ← performCalls parse calls client m
  match result with
  | some last => do
      deleteClientRequest m
      pure (some last)
  | none => pure none

end AtsFastcgi
