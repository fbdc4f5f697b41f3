/-
A pooled connection and an intercept, with the methods that touch nothing
else.  `ConnId` and `InterceptId` are addresses, and `alive` and `destroyed` say
what has been deleted.  We assume of `operator new` that it never gives an
address twice, and of ATS that the vc of a connection is open as long as the
plugin uses it, that `TSVConnRead` and `TSVConnWrite` return a VIO, and that
`TSIOBufferWrite` takes all bytes it is given.
-/
import AtsFastcgi.ClientRequest

namespace AtsFastcgi

abbrev InterceptId := Nat
abbrev ConnId := Nat

/-- Conversion of an integer to `uint`. -/
def uint (z : Int) : Nat := (z % 2 ^ 32).toNat

/-! ### The far end -/

/-- The FastCGI server on a connection: the requests it has begun and not
ended, the records it has sent, and how many of their bytes ATS has delivered.
It is not part of the plugin; only runs with an honest backend read it. -/
structure Backend where
  answering : List Nat := []
  sent : List Record := []
  delivered : Nat := 0

namespace Backend

/-- A write that starts with an `FCGI_BEGIN_REQUEST` record begins a request. -/
def receive (b : Backend) (bytes : Bytes) : Backend :=
  match Record.decode bytes with
  | some (r, _) =>
      if r.type = FCGI_BEGIN_REQUEST then
        { b with answering := b.answering ++ [r.requestId] }
      else b
  | none => b

/-- `FCGI_END_REQUEST` ends the request it names. -/
def send (b : Backend) (r : Record) : Backend :=
  { b with
    answering :=
      if r.type = FCGI_END_REQUEST then b.answering.erase r.requestId
      else b.answering
    sent := b.sent ++ [r] }

/-- The bytes that are still to be delivered. -/
def wire (b : Backend) : Bytes :=
  (Record.code.encodeAll b.sent).drop b.delivered

end Backend

/-! ### Objects -/

/-- `InterceptIOChannel`: whether its buffer and VIO exist, and its flag. -/
structure InterceptIOChannel where
  opened : Bool := false
  readEnable : Bool := false
deriving DecidableEq

/-- `ServerConnection::State`. -/
inductive ConnState where
  | initiated | ready | inuse | complete | closed
deriving DecidableEq, Repr

/-- `ServerConnection`.  `vc` says that `vc_` is set, `connecting` that the
answer to `TSNetConnect` is still to come; `reader` holds the blocks of the
read buffer, and `written` logs the write buffer with the request id each part
was written under; `replaced` counts the FCGI clients that `createFCGIClient`
found in place. -/
structure ServerConnection where
  alive : Bool := false
  connecting : Bool := false
  vc : Bool := false
  state : ConnState := .initiated
  requestId : Nat := 0
  maxRequests : Nat := 0
  reqCount : Nat := 0
  fcgiRequest : Option FcgiClientRequest := none
  readio : InterceptIOChannel := {}
  writeio : InterceptIOChannel := {}
  reader : List Bytes := []
  written : List (Nat × Bytes) := []
  replaced : Nat := 0
  backend : Backend := {}

/-- What one call of `interceptTransferData` handed to an intercept, with the
id the connection had. -/
structure Delivery where
  requestId : Nat
  output : List OutputPiece
  dispatched : List FcgiRecordList
  completed : Bool
deriving DecidableEq

/-- The bytes given to `writeResponseChunkToATS`, which is not called without
any. -/
def Delivery.text (d : Delivery) : Bytes := outputText d.output

/-- The calls by which the plugin serves a request, and the two by which it ends
one. -/
inductive InterceptCall where
  | createFCGIClient
  | writeResponseChunkToATS (data : Bytes)
  | setOutputComplete
  | error (message : Bytes)
deriving DecidableEq

/-- `ServerIntercept`.  The fields after `outputCompleteState` log what the
transaction was asked for, what the client sent and what it was given; `calls`
has the calls for the intercept in the order in which they are made. -/
structure ServerIntercept where
  txn : ClientRequest := ⟨false, [], [], [], []⟩
  connected : Bool := false
  destroyed : Bool := false
  requestId : Nat := 0
  dataBuffered : Bool := false
  clientAborted : Bool := false
  clientHeader : Bytes := []
  clientBody : Bytes := []
  inputCompleteState : Bool := false
  outputCompleteState : Bool := false
  addPlugins : Nat := 0
  resumes : Nat := 0
  errors : List Bytes := []
  statusCode : Option Nat := none
  outputCompletes : Nat := 0
  headers : List Bytes := []
  bodies : List Bytes := []
  inputCompletes : Nat := 0
  deliveries : List Delivery := []
  calls : List InterceptCall := []

/-! ### Methods of a connection -/

namespace ServerConnection

variable (c : ServerConnection)

/-- `new ServerConnection`. -/
def new (config : FcgiPluginConfig) : ServerConnection :=
  { alive := true, maxRequests := uint config.maxReqLength }

/-- `createConnection`: `TSNetConnect` is under way. -/
def createConnection : ServerConnection := { c with connecting := true }

/-- The start of the `TS_EVENT_NET_CONNECT` case. -/
def netConnect : ServerConnection :=
  { c with connecting := false, vc := true, state := .ready }

/-- `InterceptIOChannel::read` on `readio`; `vc_` must not be null. -/
def read : Option ServerConnection :=
  if c.vc then some { c with readio := { c.readio with opened := true } }
  else none

/-- `InterceptIOChannel::phpWrite` on `writeio`; `vc_` must not be null. -/
def phpWrite (buf : Bytes) (endflag : Bool) : Option ServerConnection :=
  if c.vc then
    some { c with
      writeio := ⟨true, c.writeio.readEnable || endflag⟩
      written := c.written ++ [(c.requestId, buf)]
      backend := c.backend.receive buf }
  else none

/-- `createFCGIClient`. -/
def createFCGIClient (config : FcgiPluginConfig) (i : ServerIntercept) :
    ServerConnection × ServerIntercept :=
  if c.state = .ready ∨ c.state = .complete then
    ({ c with
        fcgiRequest := some (FcgiClientRequest.new config c.requestId i.txn)
        replaced := c.replaced + c.fcgiRequest.toList.length
        state := .inuse
        reqCount := (c.reqCount + 1) % 2 ^ 32 },
      { i with
        addPlugins := i.addPlugins + 1
        resumes := i.resumes + 1
        calls := i.calls ++ [.createFCGIClient] })
  else (c, i)

/-- `releaseFCGIClient`. -/
def releaseFCGIClient : ServerConnection :=
  if c.state = .complete then { c with fcgiRequest := none, state := .ready }
  else c

/-- What `removeIntercept` does to the connection of an erased entry. -/
def detach : ServerConnection := { c.releaseFCGIClient with requestId := 0 }

/-- What `ConnectionPool::reuseConnection` sets. -/
def reuse : ServerConnection :=
  { c with
    readio := { c.readio with readEnable := false }
    writeio := { c.writeio with readEnable := false }
    state := .ready }

/-- The reader of the read VIO shows the blocks `blocks`: what was left unread
and what has arrived since. -/
def receive (blocks : List Bytes) : ServerConnection :=
  { c with
    reader := blocks
    backend := { c.backend with
      delivered := c.backend.delivered +
        (blocks.flatten.length - c.reader.flatten.length) } }

end ServerConnection

/-! ### The read side -/

/-- What the block loop of `interceptTransferData` carries. -/
structure Transfer where
  responseStatus : Bool := false
  decoder : ResponseDecoder
  output : List OutputPiece := []
  dispatched : List FcgiRecordList := []

/-- The block loop: the status is that of the last block with bytes. -/
def transferBlocks (parse : MimeHdrParse) :
    Transfer → List Bytes → Option Transfer
  | t, [] => some t
  | t, block :: rest =>
      if block = [] then transferBlocks parse t rest
      else
        match fcgiDecodeRecordChunk parse t.decoder block with
        | .returned ret =>
            transferBlocks parse
              { responseStatus := ret.completed
                decoder := ret.decoder
                output := t.output ++ ret.output
                dispatched := t.dispatched ++ ret.dispatched } rest
        | _ => none

/-- The intercept is given its text with one call of `writeResponseChunkToATS`,
or with none if there is no text. -/
def ServerIntercept.deliver (i : ServerIntercept) (d : Delivery) :
    ServerIntercept :=
  { i with
    deliveries := i.deliveries ++ [d]
    calls := i.calls ++
      if d.text = [] then [] else [.writeResponseChunkToATS d.text] }

/-- `interceptTransferData`.  The FCGI client is only used on a block with
bytes, and must not be null then. -/
def interceptTransferData (parse : MimeHdrParse) (c : ServerConnection)
    (i : ServerIntercept) :
    Option (Bool × ServerConnection × ServerIntercept) :=
  match c.fcgiRequest with
  | some client =>
      match transferBlocks parse { decoder := client.decoder } c.reader with
      | some t =>
          some (t.responseStatus,
            { c with
              fcgiRequest := some { client with decoder := t.decoder }
              reader := [] },
            i.deliver
              ⟨c.requestId, t.output, t.dispatched, t.responseStatus⟩)
      | none => none
  | none =>
      if c.reader.flatten = [] then some (false, { c with reader := [] }, i)
      else none

/-! ### Client input -/

/-- What a client sends: `consume` with a header or a part of the body, and
the end of the input. -/
inductive ClientInput where
  | header (data : Bytes)
  | body (data : Bytes)
  | complete
deriving DecidableEq

namespace ClientInput

/-- The records that the input is made into, in the write buffer. -/
def prepare : ClientInput → FcgiClientRequest → Option FcgiClientRequest
  | .header _, client => some client.createBeginRequest
  | .body data, client => { client with postData := data }.postBodyChunk
  | .complete, client => some client.emptyParam

def endflag : ClientInput → Bool
  | .header _ | .body _ => false
  | .complete => true

/-- The body of `writeRequestHeader`, `writeRequestBody` and
`writeRequestBodyComplete` on the registered connection, whose FCGI client and
`vc_` must not be null. -/
def write (input : ClientInput) (c : ServerConnection) :
    Option ServerConnection := do
  let client ← c.fcgiRequest
  let client ← input.prepare client
  let buf ← client.addClientRequest
  { c with fcgiRequest := some client }.phpWrite buf input.endflag

/-- The log of the input. -/
def log : ClientInput → ServerIntercept → ServerIntercept
  | .header data, i => { i with headers := i.headers ++ [data] }
  | .body data, i => { i with bodies := i.bodies ++ [data] }
  | .complete, i => { i with inputCompletes := i.inputCompletes + 1 }

/-- What `streamReqHeader`, `streamReqBody` and `handleInputComplete` set when
the write has found a connection. -/
def sent : ClientInput → ServerIntercept → ServerIntercept
  | .header _, i | .body _, i => i
  | .complete, i => { i with inputCompleteState := true }

/-- What they set when it has not. -/
def kept : ClientInput → ServerIntercept → ServerIntercept
  | .header data, i =>
      { i with dataBuffered := true, clientHeader := i.clientHeader ++ data }
  | .body data, i =>
      { i with dataBuffered := true, clientBody := i.clientBody ++ data }
  | .complete, i => i

end ClientInput

/-! ### Methods of an intercept -/

namespace ServerIntercept

variable (i : ServerIntercept)

/-- `new ServerIntercept(transaction)`.  The constructor leaves `_request_id`
as it finds it. -/
def new (txn : ClientRequest) (requestId : Nat) : ServerIntercept :=
  { txn, requestId, connected := true }

/-- `transaction.error("Internal server error")`. -/
def error : ServerIntercept :=
  { i with
    errors := i.errors ++ [ascii "Internal server error"]
    calls := i.calls ++ [.error (ascii "Internal server error")] }

/-- `transaction.setStatusCode(HTTP_STATUS_BAD_GATEWAY)` and the error. -/
def badGateway : ServerIntercept := { i.error with statusCode := some 502 }

/-- `InterceptPlugin::setOutputComplete` and the flag. -/
def outputComplete : ServerIntercept :=
  { i with
    outputCompletes := i.outputCompletes + 1
    outputCompleteState := true
    calls := i.calls ++ [.setOutputComplete] }

/-- `transaction.addPlugin` has handed the object to the transaction. -/
def owned : Bool := 0 < i.addPlugins

/-- The request has an end: completed, failed or abandoned by its client. -/
def ended : Bool :=
  0 < i.outputCompletes || 0 < i.errors.length || i.destroyed

end ServerIntercept

end AtsFastcgi
