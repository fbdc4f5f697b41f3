/-
The request side of `FCGIClientRequest`: the CGI parameters made from a client
request, and the records written for it.  A write buffer is the list of bytes
in `[buff, pBuffInc)`; what `TSmalloc` was asked for is kept as `capacity`.
-/
import AtsFastcgi.RecordDecoder
import Mathlib.Data.List.TakeWhile
import Mathlib.Logic.Function.Basic

namespace AtsFastcgi

/-- `std::map<std::string, std::string>`. -/
abbrev StringMap := Std.TreeMap Bytes Bytes

/-- `operator[]` where the key is known to be present. -/
def StringMap.get (m : StringMap) (key : Bytes) : Bytes := m.getD key []

/-- What the plugin reads of a transaction's client request: the header fields
in the order of the iterator, each with its own values. -/
structure ClientRequest where
  headersInitialized : Bool
  fields : List (Bytes × List Bytes)
  path : Bytes
  query : Bytes
  method : Bytes
deriving DecidableEq

/-! ### The header fields of atscppapi -/

/-- `std::toupper` in the classic locale. -/
def toUpper (ch : UInt8) : UInt8 :=
  if 97 ≤ ch ∧ ch ≤ 122 then ch - 32 else ch

/-- Header names are compared without regard to case. -/
def sameName (a b : Bytes) : Bool := a.map toUpper = b.map toUpper

/-- `HeaderField::values(join)` and `Headers::find`, which are not part of the
plugin.  The functions that are given here act as these are documented: all
values in order, with the separator between them, and the first field of the
name. -/
structure HeadersApi where
  values : Bytes → List Bytes → Bytes := fun join texts =>
    join.intercalate texts
  find : List (Bytes × List Bytes) → Bytes → Option (List Bytes) :=
    fun fields key =>
      (fields.find? fun field => sameName field.1 key).map Prod.snd

/-- What is documented of `HeaderField::values(join)`; an empty value counts as
one. -/
def HeadersApi.JoinsValues (api : HeadersApi) : Prop :=
  ∀ join texts, api.values join texts = join.intercalate texts

/-- What the plugin reads of its configuration, and the header functions that it
is linked with. -/
structure FcgiPluginConfig where
  documentRootDir : Bytes
  html : Bytes
  maxConnLength : Int
  maxReqLength : Int
  requestQueueSize : Int
  headersApi : HeadersApi := {}

/-! ### CGI parameters -/

def httpName (name : Bytes) : Bytes :=
  ascii "HTTP_" ++ (cString name).map toUpper

/-- The loop over the client's header fields; a later field replaces the entry
of an earlier one of the same name. -/
def clientHeaders (api : HeadersApi) (txn : ClientRequest) : StringMap :=
  if txn.headersInitialized then
    txn.fields.foldl
      (fun m field =>
        m.insert (httpName field.1) (api.values (ascii ", ") field.2))
      ∅
  else ∅

/-- The script path: a path that ends with `/` asks for the index page. -/
def requestScript (config : FcgiPluginConfig) (txn : ClientRequest) : Bytes :=
  if (ascii "/").isSuffixOf txn.path then txn.path ++ config.html else txn.path

def generateFcgiRequestHeaders (config : FcgiPluginConfig)
    (txn : ClientRequest) : StringMap :=
  let script := requestScript config txn
  (clientHeaders config.headersApi txn
    |>.insert (ascii "DOCUMENT_ROOT") config.documentRootDir
    |>.insert (ascii "SCRIPT_FILENAME") (config.documentRootDir ++ script)
    |>.insert (ascii "GATEWAY_INTERFACE") (ascii "FastCGI/1.1")
    |>.insert (ascii "REQUEST_METHOD") txn.method
    |>.insert (ascii "SCRIPT_NAME") (ascii "/" ++ script)
    |>.insert (ascii "QUERY_STRING") txn.query
    |>.insert (ascii "REQUEST_URI") (ascii "/" ++ script)
    |>.insert (ascii "SERVER_SOFTWARE") (ascii "ATS 7.1.1")
    |>.insert (ascii "REMOTE_ADDR") (ascii "127.0.0.1")
    |>.insert (ascii "REMOTE_PORT") (ascii "8090")
    |>.insert (ascii "SERVER_ADDR") (ascii "127.0.0.1")
    |>.insert (ascii "SERVER_PORT") (ascii "60000")
    |>.insert (ascii "SERVER_NAME") (ascii "ATS 7.1.1")
    |>.insert (ascii "SERVER_PROTOCOL") (ascii "HTTP/1.1")
    |>.insert (ascii "FCGI_ROLE") (ascii "RESPONDER"))

/-- One of the two fields that the constructor copies for a POST. -/
def copyField (api : HeadersApi) (txn : ClientRequest) (field key : Bytes)
    (m : StringMap) : StringMap :=
  match api.find txn.fields field with
  | some texts => m.insert key (cString (api.values (ascii ",") texts))
  | none => m

/-- The parameters of a POST.  Reading `requestHeaders["CONTENT_LENGTH"]`
leaves an empty entry where the client sent no length. -/
def postHeaders (api : HeadersApi) (txn : ClientRequest) (m : StringMap) :
    StringMap :=
  let m :=
    if txn.headersInitialized then
      copyField api txn (ascii "Content-type") (ascii "CONTENT_TYPE")
        (copyField api txn (ascii "Content-Length") (ascii "CONTENT_LENGTH") m)
    else m
  m.insertIfNew (ascii "CONTENT_LENGTH") []

def isSpace (ch : UInt8) : Bool := ch = 32 || (9 ≤ ch && ch ≤ 13)

def isDigit (ch : UInt8) : Bool := 48 ≤ ch && ch ≤ 57

/-- `stringstream >> int`: zero without digits, clamped on overflow. -/
def streamInt (text : Bytes) : Int :=
  let text := text.dropWhile isSpace
  let digits (t : Bytes) : Nat :=
    (t.takeWhile isDigit).foldl (fun n ch => 10 * n + (ch.toNat - 48)) 0
  match text with
  | [] => 0
  | ch :: rest =>
      if ch = 45 then max (-2 ^ 31) (-(digits rest : Int))
      else if ch = 43 then min (2 ^ 31 - 1) (digits rest)
      else min (2 ^ 31 - 1) (digits text)

def BUF_SIZE : Int := 5000

/-- `FCGIClientRequest` with its `FCGIClientState`. -/
structure FcgiClientRequest where
  requestId : Nat
  requestHeaders : StringMap
  capacity : Int
  postData : Bytes := []
  buff : Bytes := []
  decoder : ResponseDecoder := {}

/-- The constructor. -/
def FcgiClientRequest.new (config : FcgiPluginConfig) (requestId : Nat)
    (txn : ClientRequest) : FcgiClientRequest :=
  let m := generateFcgiRequestHeaders config txn
  if m.get (ascii "REQUEST_METHOD") = ascii "POST" then
    let m := postHeaders config.headersApi txn m
    { requestId, requestHeaders := m
      capacity := BUF_SIZE + streamInt (m.get (ascii "CONTENT_LENGTH")) }
  else
    { requestId, requestHeaders := m, capacity := BUF_SIZE }

/-! ### Records -/

/-- The length bytes of `serializeNameValue`. -/
def lengthBytes (n : Nat) : Bytes :=
  if n < 128 then [byte0 n] else [byte3 n, byte2 n, byte1 n, byte0 n]

/-- The two lengths are kept in 32 bits. -/
def serializeNameValue (name value : Bytes) : Bytes :=
  let nl := name.length % 2 ^ 32
  let vl := value.length % 2 ^ 32
  lengthBytes nl ++ lengthBytes vl ++ name.take nl ++ value.take vl

namespace FcgiClientRequest

variable (client : FcgiClientRequest)

def createHeader (type : UInt8) : FcgiHeader where
  version := FCGI_VERSION_1
  type := type
  requestIdB1 := byte1 client.requestId
  requestIdB0 := byte0 client.requestId

/-- The header with a content length. -/
def lengthHeader (type : UInt8) (len : Nat) : FcgiHeader :=
  { client.createHeader type with
    contentLengthB0 := byte0 len, contentLengthB1 := byte1 len }

/-- `FCGI_BeginRequestBody`. -/
def beginRequestBody : Bytes :=
  [0, FCGI_RESPONDER, FCGI_KEEP_CONN, 0, 0, 0, 0, 0]

/-- The name-value pairs in the order of the map. -/
def nameValues : Bytes :=
  client.requestHeaders.toList.flatMap fun pair =>
    serializeNameValue pair.1 pair.2

/-- The bytes that `createBeginRequest` appends. -/
def preamble : Bytes :=
  (client.lengthHeader FCGI_BEGIN_REQUEST 8).bytes ++ beginRequestBody ++
    (client.lengthHeader FCGI_PARAMS client.nameValues.length).bytes ++
    client.nameValues ++ (client.lengthHeader FCGI_PARAMS 0).bytes

/-- `pBuffInc` is not reset here: the records follow what is in the buffer. -/
def createBeginRequest : FcgiClientRequest :=
  { client with buff := client.buff ++ client.preamble }

/-- `postBodyChunk`.  A length that is negative as an `int` makes the copy run
through the whole address space. -/
def postBodyChunk : Option FcgiClientRequest :=
  let dataLen := cInt client.postData.length
  if 0 ≤ dataLen then
    some { client with
      buff :=
        (client.lengthHeader FCGI_STDIN client.postData.length).bytes ++
          client.postData.take dataLen.toNat ++
          (client.lengthHeader FCGI_STDIN 0).bytes }
  else none

def isPost : Bool :=
  client.requestHeaders.get (ascii "REQUEST_METHOD") = ascii "POST"

def emptyParam : FcgiClientRequest :=
  if client.isPost then { client with buff := [] }
  else { client with buff := (client.lengthHeader FCGI_STDIN 0).bytes }

/-- The buffer and its length.  No allocation holds as many bytes as make the
length overflow its `int`. -/
def addClientRequest : Option Bytes :=
  if client.buff.length < 2 ^ 31 then some client.buff else none

end FcgiClientRequest

/-- A text without NUL is a C string. -/
theorem cString_eq_self {text : Bytes} (hnul : (0 : UInt8) ∉ text) :
    cString text = text := by
  rw [cString, List.takeWhile_eq_self_iff]
  intro ch hch
  simp only [ne_eq, decide_not, Bool.not_eq_eq_eq_not, Bool.not_true,
    decide_eq_false_iff_not]
  rintro rfl
  exact hnul hch

/-! ### The request method -/

theorem StringMap.get_insert (m : StringMap) (key other value : Bytes) :
    StringMap.get (m.insert key value) other =
      if key = other then value else m.get other := by
  simp [StringMap.get, Std.TreeMap.getD_insert]

theorem StringMap.get_copyField (api : HeadersApi) (txn : ClientRequest)
    {field key other : Bytes} (m : StringMap) (hne : key ≠ other) :
    StringMap.get (copyField api txn field key m) other = m.get other := by
  unfold copyField
  split
  · rw [StringMap.get_insert, if_neg hne]
  · rfl

theorem generateFcgiRequestHeaders_method (config : FcgiPluginConfig)
    (txn : ClientRequest) :
    StringMap.get (generateFcgiRequestHeaders config txn)
      (ascii "REQUEST_METHOD") = txn.method := by
  unfold generateFcgiRequestHeaders
  iterate 11 rw [StringMap.get_insert, if_neg (by decide)]
  rw [StringMap.get_insert, if_pos rfl]

theorem postHeaders_method (api : HeadersApi) (txn : ClientRequest)
    (m : StringMap) :
    StringMap.get (postHeaders api txn m) (ascii "REQUEST_METHOD") =
      m.get (ascii "REQUEST_METHOD") := by
  have hlength : ascii "CONTENT_LENGTH" ≠ ascii "REQUEST_METHOD" := by decide
  have htype : ascii "CONTENT_TYPE" ≠ ascii "REQUEST_METHOD" := by decide
  have hlast : ∀ m : StringMap,
      StringMap.get (m.insertIfNew (ascii "CONTENT_LENGTH") [])
        (ascii "REQUEST_METHOD") = m.get (ascii "REQUEST_METHOD") := by
    intro m
    simp [StringMap.get, Std.TreeMap.getD_insertIfNew, hlength]
  unfold postHeaders
  rw [hlast]
  split
  · rw [StringMap.get_copyField api txn _ htype,
      StringMap.get_copyField api txn _ hlength]
  · rfl

/-- The client sees the method of its transaction. -/
theorem FcgiClientRequest.new_method (config : FcgiPluginConfig)
    (requestId : Nat) (txn : ClientRequest) :
    (FcgiClientRequest.new config requestId txn).requestHeaders.get
      (ascii "REQUEST_METHOD") = txn.method := by
  have hmethod := generateFcgiRequestHeaders_method config txn
  simp only [FcgiClientRequest.new]
  split
  · exact (postHeaders_method _ txn _).trans hmethod
  · exact hmethod

/-- A new FCGI client has written and decoded nothing. -/
theorem FcgiClientRequest.new_fresh (config : FcgiPluginConfig)
    (requestId : Nat) (txn : ClientRequest) :
    (FcgiClientRequest.new config requestId txn).buff = [] ∧
      (FcgiClientRequest.new config requestId txn).decoder = {} ∧
      (FcgiClientRequest.new config requestId txn).requestId = requestId := by
  simp only [FcgiClientRequest.new]
  split <;> exact ⟨rfl, rfl, rfl⟩

@[simp] theorem FcgiClientRequest.new_isPost (config : FcgiPluginConfig)
    (requestId : Nat) (txn : ClientRequest) :
    (FcgiClientRequest.new config requestId txn).isPost =
      decide (txn.method = ascii "POST") := by
  simp only [isPost, new_method]

end AtsFastcgi
