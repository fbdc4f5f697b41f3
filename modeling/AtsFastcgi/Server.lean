/-
`Server`, `ConnectionPool` and `RequestQueue` on one worker thread: the state
they share, their operations, the event handler and the events of a run.
-/
import AtsFastcgi.Lib.Transition
import AtsFastcgi.ServerConnection

namespace AtsFastcgi

/-- `ConnectionPool`. -/
structure ConnectionPool where
  maxConn : Nat
  availableConnections : List ConnId := []
  connections : List ConnId := []
deriving DecidableEq

/-- `RequestQueue`. -/
structure RequestQueue where
  maxQueueSize : Nat
  pendingList : List InterceptId := []
deriving DecidableEq

namespace RequestQueue

def isQueueFull (q : RequestQueue) : Bool :=
  q.maxQueueSize ≤ q.pendingList.length

/-- A full queue drops the intercept. -/
def addToQueue (q : RequestQueue) (i : InterceptId) : RequestQueue :=
  if q.isQueueFull then q else { q with pendingList := q.pendingList ++ [i] }

def popFromQueue (q : RequestQueue) : Option InterceptId × RequestQueue :=
  match q.pendingList with
  | [] => (none, q)
  | i :: rest => (some i, { q with pendingList := rest })

end RequestQueue

/-- The state of the plugin as one worker thread sees it, with the objects on
the heap.  `issued` counts the calls of `UniqueRequesID::getNext`; `fault` says
that a deleted intercept has been used. -/
structure ServerState where
  config : FcgiPluginConfig
  pool : ConnectionPool
  queue : RequestQueue
  nextId : Nat := 1
  issued : Nat := 0
  interceptList : Std.TreeMap Nat (InterceptId × ConnId) := ∅
  nextConn : ConnId := 0
  conns : ConnId → ServerConnection := fun _ => {}
  intercepts : InterceptId → ServerIntercept := fun _ => {}
  fault : Bool := false

/-- A worker thread before its first request. -/
def ServerState.new (config : FcgiPluginConfig) : ServerState where
  config := config
  pool := { maxConn := uint (config.maxConnLength.tdiv 6) }
  queue := { maxQueueSize := uint config.requestQueueSize }

namespace ServerState

variable (s : ServerState)

/-! ### Access -/

def getIntercept (requestId : Nat) : Option InterceptId :=
  s.interceptList[requestId]?.map Prod.fst

def getServerConnection (requestId : Nat) : Option ConnId :=
  s.interceptList[requestId]?.map Prod.snd

def setConn (c : ConnId) (conn : ServerConnection) : ServerState :=
  { s with conns := Function.update s.conns c conn }

def setIntercept (i : InterceptId) (x : ServerIntercept) : ServerState :=
  { s with intercepts := Function.update s.intercepts i x }

/-- `_intercept_list.erase`. -/
def unregister (requestId : Nat) : ServerState :=
  { s with interceptList := s.interceptList.erase requestId }

/-! ### The pool -/

/-- `_available_connections` gives its front. -/
def takeAvailable (c : ConnId) (rest : List ConnId) : ServerState :=
  { s with pool := { s.pool with availableConnections := rest } }.setConn c
    { s.conns c with state := .ready }

/-- `new ServerConnection` and `addConnection`. -/
def addConnection : ServerState :=
  { s with
    pool := { s.pool with connections := s.pool.connections ++ [s.nextConn] }
    nextConn := s.nextConn + 1 }.setConn s.nextConn
      (ServerConnection.new s.config)

/-- `getAvailableConnection`: below the cap a new connection is made, even
when others are available. -/
def getAvailableConnection : Option ConnId × ServerState :=
  if s.pool.connections.length < s.pool.maxConn then
    (some s.nextConn, s.addConnection)
  else
    match s.pool.availableConnections with
    | [] => (none, s)
    | c :: rest => (some c, s.takeAvailable c rest)

def reuseConnection (c : ConnId) : ServerState :=
  { s with pool := { s.pool with
    availableConnections := s.pool.availableConnections ++ [c] } }.setConn c
      (s.conns c).reuse

/-- `ConnectionPool::connectionClosed`. -/
def deleteConnection (c : ConnId) : ServerState :=
  { s with pool := { s.pool with
    availableConnections := s.pool.availableConnections.filter (· ≠ c)
    connections := s.pool.connections.filter (· ≠ c) } }.setConn c
      { s.conns c with alive := false }

/-! ### The server -/

def createFCGIClient (i : InterceptId) (c : ConnId) : ServerState :=
  let r := (s.conns c).createFCGIClient s.config (s.intercepts i)
  (s.setConn c r.1).setIntercept i r.2

/-- The registration of `initiateBackendConnection` under a new request id,
which is written through the pointer to the intercept. -/
def register (i : InterceptId) (c : ConnId) : ServerState :=
  let requestId := s.nextId
  ({ s with
    nextId := (s.nextId + 1) % 2 ^ 32
    issued := s.issued + 1
    interceptList := s.interceptList.insert requestId (i, c)
    fault := s.fault || (s.intercepts i).destroyed }.setIntercept i
      { s.intercepts i with requestId }).setConn c
        { s.conns c with requestId }

def initiateBackendConnection (i : InterceptId) (c : ConnId) : ServerState :=
  let s := s.register i c
  if (s.conns c).state ≠ .ready then
    s.setConn c (s.conns c).createConnection
  else s.createFCGIClient i c

/-- `Server::connect`, on a thread whose storage is set up; it returns 0. -/
def connect (i : InterceptId) : ServerState :=
  match s.getAvailableConnection with
  | (some c, s) => s.initiateBackendConnection i c
  | (none, s) => { s with queue := s.queue.addToQueue i }

def reConnect (requestId : Nat) : ServerState :=
  match s.getIntercept requestId with
  | some i => (s.unregister requestId).connect i
  | none => s

/-- `Server::connectionClosed`. -/
def connectionClosed (c : ConnId) : ServerState :=
  (s.unregister (s.conns c).requestId).deleteConnection c

/-- The end of `removeIntercept`: the oldest waiting intercept is connected. -/
def connectNext : ServerState :=
  match s.queue.popFromQueue with
  | (some i, queue) => { s with queue := queue }.connect i
  | (none, _) => s

/-- `removeIntercept` after the erasure, up to the queue. -/
def releaseConnection (c : ConnId) : ServerState :=
  let conn := (s.conns c).detach
  if conn.reqCount < conn.maxRequests then
    (s.setConn c conn).reuseConnection c
  else
    (s.setConn c { conn with state := .closed }).connectionClosed c

def removeIntercept (requestId : Nat) : ServerState :=
  match s.interceptList[requestId]? with
  | some (_, c) => ((s.unregister requestId).releaseConnection c).connectNext
  | none => s

/-- `ServerIntercept::setResponseOutputComplete`. -/
def setResponseOutputComplete (i : InterceptId) : ServerState :=
  (s.setIntercept i (s.intercepts i).outputComplete).removeIntercept
    (s.intercepts i).requestId

/-! ### Connection events -/

/-- The events ATS delivers to `handlePHPConnectionEvents`.  `readReady` comes
with the blocks that the reader of the read VIO then has. -/
inductive ConnEvent where
  | netConnect
  | netConnectFailed
  | readReady (blocks : List Bytes)
  | readComplete
  | writeReady
  | writeComplete
  | eos
  | error
deriving DecidableEq

/-- The end of the cases in which the connection is closed. -/
def closeConnection (c : ConnId) : ServerState :=
  (s.setConn c { s.conns c with state := .closed }).connectionClosed c

/-- `NET_CONNECT_FAILED`, and `EOS` before the request was written. -/
def retry (c : ConnId) : ServerState :=
  (s.reConnect (s.conns c).requestId).closeConnection c

def onNetConnect (c : ConnId) : ServerState :=
  let s := s.setConn c (s.conns c).netConnect
  match s.getIntercept (s.conns c).requestId with
  | some i => s.createFCGIClient i c
  | none => s

/-- Completion on the event path: the connection is marked first. -/
def complete (i : InterceptId) (c : ConnId) : ServerState :=
  (s.setConn c { s.conns c with state := .complete }).setResponseOutputComplete
    i

def onReadReady (parse : MimeHdrParse) (c : ConnId) (blocks : List Bytes) :
    Option ServerState :=
  let s := s.setConn c ((s.conns c).receive blocks)
  match s.getIntercept (s.conns c).requestId with
  | some i =>
      match interceptTransferData parse (s.conns c) (s.intercepts i) with
      | some (responseStatus, conn, x) =>
          let s := (s.setConn c conn).setIntercept i x
          some (if responseStatus then s.complete i c else s)
      | none => none
  | none => some s

/-- `EOS` after the request was written. -/
def onLateEos (c : ConnId) : ServerState :=
  match s.getIntercept (s.conns c).requestId with
  | some i =>
      if (s.conns c).state ≠ .complete ∧
          (s.intercepts i).outputCompleteState = false then
        (s.setIntercept i (s.intercepts i).error).closeConnection c
      else s.closeConnection c
  | none => s.closeConnection c

/-- `ERROR`; without an intercept the state of the connection is not set. -/
def onError (c : ConnId) : ServerState :=
  match s.getIntercept (s.conns c).requestId with
  | some i => (s.setIntercept i (s.intercepts i).badGateway).closeConnection c
  | none => s.connectionClosed c

/-- `none` is the use of a null pointer or of an aborted `vc_`. -/
def handlePHPConnectionEvents (parse : MimeHdrParse) (c : ConnId) :
    ConnEvent → Option ServerState
  | .netConnect => some (s.onNetConnect c)
  | .netConnectFailed => some (s.retry c)
  | .readReady blocks => s.onReadReady parse c blocks
  | .readComplete =>
      match s.getIntercept (s.conns c).requestId with
      | some i => some (s.complete i c)
      | none => none
  | .writeReady =>
      if (s.conns c).writeio.readEnable then
        (s.conns c).read.map (s.setConn c)
      else some s
  | .writeComplete => (s.conns c).read.map (s.setConn c)
  | .eos =>
      some (if (s.conns c).writeio.readEnable then s.onLateEos c
        else s.retry c)
  | .error => if (s.conns c).vc then some (s.onError c) else none

/-! ### Client input -/

/-- `writeRequestHeader`, `writeRequestBody` and `writeRequestBodyComplete`:
false without a registered connection. -/
def writeRequest (requestId : Nat) (input : ClientInput) :
    Option (Bool × ServerState) :=
  match s.getServerConnection requestId with
  | some c =>
      (input.write (s.conns c)).map fun conn => (true, s.setConn c conn)
  | none => some (false, s)

/-- What the three functions on client input have in common. -/
def stream (i : InterceptId) (input : ClientInput) : Option ServerState :=
  match s.writeRequest (s.intercepts i).requestId input with
  | some (true, s) => some (s.setIntercept i (input.sent (s.intercepts i)))
  | some (false, s) => some (s.setIntercept i (input.kept (s.intercepts i)))
  | none => none

def streamReqHeader (i : InterceptId) (data : Bytes) : Option ServerState :=
  s.stream i (.header data)

def streamReqBody (i : InterceptId) (data : Bytes) : Option ServerState :=
  s.stream i (.body data)

def handleInputComplete (i : InterceptId) : Option ServerState :=
  s.stream i .complete

/-- `consume` and `handleInputComplete`, with the log of the input. -/
def consume (i : InterceptId) (input : ClientInput) : Option ServerState :=
  let s := s.setIntercept i (input.log (s.intercepts i))
  match input with
  | .header data => s.streamReqHeader i data
  | .body data => s.streamReqBody i data
  | .complete => s.handleInputComplete i

/-- `~ServerIntercept`. -/
def destroy (i : InterceptId) : ServerState :=
  let x := { s.intercepts i with destroyed := true }
  if x.outputCompleteState then s.setIntercept i x
  else
    (s.setIntercept i { x with clientAborted := true }).removeIntercept
      x.requestId

/-! ### Runs -/

/-- The events of a run.  `connect` is the cache lookup hook with a new
intercept, whose `_request_id` starts as `requestId`; `respond` is a record
sent by the backend. -/
inductive Event where
  | connect (i : InterceptId) (txn : ClientRequest) (requestId : Nat)
  | connection (c : ConnId) (event : ConnEvent)
  | destroy (i : InterceptId)
  | input (i : InterceptId) (input : ClientInput)
  | respond (c : ConnId) (r : Record)
deriving DecidableEq

/-- One callback, run to its end. -/
def handle (parse : MimeHdrParse) : Event → Option ServerState
  | .connect i txn requestId =>
      some ((s.setIntercept i (ServerIntercept.new txn requestId)).connect i)
  | .connection c event => s.handlePHPConnectionEvents parse c event
  | .destroy i => some (s.destroy i)
  | .input i input => s.consume i input
  | .respond c r =>
      some (s.setConn c
        { s.conns c with backend := (s.conns c).backend.send r })

/-- What is left of a call has a meaning only if no deleted intercept was used
in it. -/
def defined : Option ServerState := if s.fault then none else some s

/-- A step of the thread; `none` is the use of a null pointer, of an aborted
`vc_` or of a deleted intercept. -/
def step (parse : MimeHdrParse) (e : Event) : Option ServerState :=
  (s.handle parse e).bind defined

end ServerState

open ServerState (ConnEvent Event)

/-- The worker thread as a reactive system. -/
def workerThread (parse : MimeHdrParse) (config : FcgiPluginConfig) :
    Transition.System ServerState Event where
  init s := s = ServerState.new config
  step s e := s.step parse e

/-! ### What the environment promises -/

/-- Events come only to objects that exist, and an intercept is passed to
`connect` once. -/
def Exists (s : ServerState) : Event → Prop
  | .connect i _ _ => (s.intercepts i).connected = false
  | .connection c _ | .respond c _ => (s.conns c).alive = true
  | .destroy i | .input i _ =>
      (s.intercepts i).connected = true ∧ (s.intercepts i).destroyed = false

/-- A transaction destroys and feeds the intercepts it has been given by
`addPlugin`. -/
def Owns (s : ServerState) : Event → Prop
  | .destroy i | .input i _ => (s.intercepts i).owned = true
  | _ => True

/-- When ATS delivers an event to a connection: the answer of `TSNetConnect`
once, `READ_READY` on an open read VIO with what was left unread in front, and
no `…_COMPLETE`, since the VIOs ask for `INT64_MAX` bytes. -/
def ServerConnection.Delivers (c : ServerConnection) : ConnEvent → Prop
  | .netConnect | .netConnectFailed => c.connecting = true
  | .readReady blocks =>
      c.readio.opened = true ∧ c.reader.flatten <+: blocks.flatten
  | .readComplete | .writeComplete => False
  | .writeReady => c.writeio.opened = true
  | .eos | .error => c.readio.opened = true ∨ c.writeio.opened = true

/-- When ATS feeds an intercept: the header first and once, then the body,
then the end of the input. -/
def ServerIntercept.Feeds (i : ServerIntercept) : ClientInput → Prop
  | .header _ => i.headers = []
  | .body _ | .complete => i.headers ≠ [] ∧ i.inputCompletes = 0

/-- The order in which ATS delivers events. -/
def Ordered (s : ServerState) : Event → Prop
  | .connection c event => (s.conns c).Delivers event
  | .input i input => (s.intercepts i).Feeds input
  | _ => True

/-- The events of ATS. -/
def Ats (s : ServerState) (e : Event) : Prop :=
  Exists s e ∧ Owns s e ∧ Ordered s e

instance (s : ServerState) : (e : Event) → Decidable (Exists s e)
  | .connect .. | .connection .. | .respond .. =>
      inferInstanceAs (Decidable (_ = _))
  | .destroy .. | .input .. => inferInstanceAs (Decidable (_ ∧ _))

instance (s : ServerState) : (e : Event) → Decidable (Owns s e)
  | .connect .. | .connection .. | .respond .. =>
      inferInstanceAs (Decidable True)
  | .destroy .. | .input .. => inferInstanceAs (Decidable (_ = _))

instance (c : ServerConnection) : (event : ConnEvent) →
    Decidable (c.Delivers event)
  | .netConnect | .netConnectFailed | .writeReady =>
      inferInstanceAs (Decidable (_ = _))
  | .readReady .. => inferInstanceAs (Decidable (_ ∧ _))
  | .readComplete | .writeComplete => inferInstanceAs (Decidable False)
  | .eos | .error => inferInstanceAs (Decidable (_ ∨ _))

instance (i : ServerIntercept) : (input : ClientInput) →
    Decidable (i.Feeds input)
  | .header .. => inferInstanceAs (Decidable (_ = _))
  | .body .. | .complete => inferInstanceAs (Decidable (_ ∧ _))

instance (s : ServerState) : (e : Event) → Decidable (Ordered s e)
  | .connect .. | .destroy .. | .respond .. => inferInstanceAs (Decidable True)
  | .connection c event =>
      inferInstanceAs (Decidable ((s.conns c).Delivers event))
  | .input i input =>
      inferInstanceAs (Decidable ((s.intercepts i).Feeds input))

instance (s : ServerState) (e : Event) : Decidable (Ats s e) :=
  inferInstanceAs (Decidable (_ ∧ _))

end AtsFastcgi
