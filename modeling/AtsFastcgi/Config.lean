/-
`fcgi_config.cc`: the two key tables, the loop over the lines of a file, which
`initFcgiParam` and `initConfig` have in common, and what each of them stores.
-/
import AtsFastcgi.Lib.LineReader
import AtsFastcgi.ClientRequest
import Std.Data.ExtTreeMap

namespace AtsFastcgi

/-! ### Keys -/

/-- `FcgiConfigKey`. -/
inductive FcgiConfigKey where
  | enabled | hostname | serverIp | serverPort | include_ | documentRoot | html
  | minConnections | maxConnections | maxRequests | requestQueueSize
deriving DecidableEq, Repr

/-- `FcgiParamKey`. -/
inductive FcgiParamKey where
  | gatewayInterface | serverSoftware | queryString | requestMethod
  | contentType | contentLength | scriptFilename | scriptName | requestUri
  | documentUri | documentRoot | serverProtocol | remoteAddr | remotePort
  | serverAddr | serverPort | serverName
deriving DecidableEq, Repr

/-- `TSRecordDataType`. -/
inductive TSRecordDataType where
  | null | int | string
deriving DecidableEq, Repr

/-- The names that `fcgiHttpTxnConfigFind` compares with, in its order. -/
def configNames : List (Bytes × FcgiConfigKey × TSRecordDataType) :=
  [(ascii "proxy.config.http.fcgi.enabled", .enabled, .int),
    (ascii "proxy.config.http.fcgi.host.hostname", .hostname, .string),
    (ascii "proxy.config.http.fcgi.host.server_ip", .serverIp, .string),
    (ascii "proxy.config.http.fcgi.host.server_port", .serverPort, .string),
    (ascii "proxy.config.http.fcgi.host.include", .include_, .string),
    (ascii "proxy.config.http.fcgi.host.document_root", .documentRoot, .string),
    (ascii "proxy.config.http.fcgi.host.html", .html, .string),
    (ascii "proxy.config.http.fcgi.host.min_connections", .minConnections,
      .int),
    (ascii "proxy.config.http.fcgi.host.max_connections", .maxConnections,
      .int),
    (ascii "proxy.config.http.fcgi.host.max_requests", .maxRequests, .int),
    (ascii "proxy.config.http.fcgi.host.request_queue_size", .requestQueueSize,
      .int)]

/-- The names that `fcgiParamConfigFind` compares with, in its order. -/
def paramNames : List (Bytes × FcgiParamKey × TSRecordDataType) :=
  [(ascii "GATEWAY_INTERFACE", .gatewayInterface, .string),
    (ascii "SERVER_SOFTWARE", .serverSoftware, .string),
    (ascii "QUERY_STRING", .queryString, .string),
    (ascii "REQUEST_METHOD", .requestMethod, .string),
    (ascii "CONTENT_TYPE", .contentType, .string),
    (ascii "CONTENT_LENGTH", .contentLength, .string),
    (ascii "SCRIPT_FILENAME", .scriptFilename, .string),
    (ascii "SCRIPT_NAME", .scriptName, .string),
    (ascii "REQUEST_URI", .requestUri, .string),
    (ascii "DOCUMENT_URI", .documentUri, .string),
    (ascii "DOCUMENT_ROOT", .documentRoot, .string),
    (ascii "SERVER_PROTOCOL", .serverProtocol, .string),
    (ascii "REMOTE_ADDR", .remoteAddr, .string),
    (ascii "REMOTE_PORT", .remotePort, .string),
    (ascii "SERVER_ADDR", .serverAddr, .string),
    (ascii "SERVER_PORT", .serverPort, .string),
    (ascii "SERVER_NAME", .serverName, .string)]

/-- `strncmp(a, b, n) == 0`. -/
def strncmpEq (a b : Bytes) (n : Nat) : Bool :=
  (a ++ [0]).take n = (b ++ [0]).take n

/-- The common body of the two lookups: the first name that agrees with the
argument on the first `length` bytes. -/
def findName {K : Type} (names : List (Bytes × K × TSRecordDataType))
    (name : Bytes) (length : Int) : Option (K × TSRecordDataType) :=
  let length := if length = -1 then cInt name.length else length
  (names.find? fun entry => strncmpEq name entry.1 (sizeT length)).map Prod.snd

def fcgiHttpTxnConfigFind (name : Bytes) (length : Int) :
    Option (FcgiConfigKey × TSRecordDataType) :=
  findName configNames name length

def fcgiParamConfigFind (name : Bytes) (length : Int) :
    Option (FcgiParamKey × TSRecordDataType) :=
  findName paramNames name length

/-- `str_to_datatype`; the argument may be a null pointer. -/
def strToDatatype : Option Bytes → TSRecordDataType
  | none => .null
  | some str =>
      if str = ascii "INT" then .int
      else if str = ascii "STRING" then .string
      else .null

/-! ### Lines -/

/-- What the two loops differ in: the word that starts a setting, the lookup
of its key, and the message where that fails. -/
structure LineFormat (K : Type) where
  word : Bytes
  find : Bytes → Int → Option (K × TSRecordDataType)
  unknownKey : Bytes

/-- What a loop does with one buffer.  `nullToken` is a key that is not there:
the lookup starts with the `strlen` of a null pointer. -/
inductive LineOutcome (K : Type) where
  | ignored
  | reported (message : Bytes)
  | nullToken
  | setting (key : K) (value : Bytes)
deriving DecidableEq, Repr

def isBlank (ch : UInt8) : Bool := ch = 32 || ch = 9

/-- `strtok_r` with the delimiters of both loops. -/
def strtok (s : Bytes) : Option Bytes × Bytes := Words.next isBlank s

namespace LineFormat

variable {K : Type} (format : LineFormat K)

/-- The value step: what is left of the line, without the space around it. -/
def lineValue (key : K) (ln : Bytes) : LineOutcome K :=
  let value := Words.trim isSpace ln
  if value = [] then
    .reported (ascii "the configuration must provide a value")
  else .setting key value

/-- The type step. -/
def lineType (key : K) (expected : TSRecordDataType) (ln : Bytes) :
    LineOutcome K :=
  let (tok, ln) := strtok ln
  let type := strToDatatype tok
  if type = .null then
    .reported (ascii "only INT and STRING types supported")
  else if type ≠ expected then
    .reported
      (ascii "mismatch between provide data type, and expected type")
  else lineValue key ln

/-- The key step. -/
def lineKey (ln : Bytes) : LineOutcome K :=
  match strtok ln with
  | (none, _) => .nullToken
  | (some name, ln) =>
      match format.find name (-1) with
      | none => .reported format.unknownKey
      | some (key, expected) => lineType key expected ln

/-- The body of the loops up to the `switch`. -/
def parseLine (buf : Bytes) : LineOutcome K :=
  match strtok ((cString buf).dropWhile isSpace) with
  | (none, _) => .ignored
  | (some tok, ln) =>
      if tok.head? = some 35 then .ignored
      else if strncmpEq tok format.word format.word.length then
        format.lineKey ln
      else .reported (ascii "non-CONFIG line encountered")

/-- One turn of the loops: `store` is the `switch`, and `none` the use of a
null token. -/
def line {C : Type} (store : C → K → Bytes → Option C) (config : C)
    (buf : Bytes) : Option C :=
  match format.parseLine buf with
  | .nullToken => none
  | .setting key tok => store config key tok
  | .ignored | .reported _ => some config

end LineFormat

/-- `TSfgets` with `char buf[8192]`. -/
def fileReader : LineReader UInt8 where
  eol := 10
  capacity := 8191

/-! ### `initFcgiParam` -/

def paramFormat : LineFormat FcgiParamKey where
  word := ascii "fastcgi_param"
  find := fcgiParamConfigFind
  unknownKey := ascii "no ats_fastcgi.config name given"

/-- The key under which the `switch` inserts. -/
def FcgiParamKey.name : FcgiParamKey → Bytes
  | .gatewayInterface => ascii "GATEWAY_INTERFACE"
  | .serverSoftware => ascii "SERVER_SOFTWARE"
  | .queryString => ascii "QUERY_STRING"
  | .requestMethod => ascii "REQUEST_METHOD"
  | .contentType => ascii "CONTENT_TYPE"
  | .contentLength => ascii "CONTENT_LENGTH"
  | .scriptFilename => ascii "SCRIPT_FILENAME"
  | .scriptName => ascii "SCRIPT_NAME"
  | .requestUri => ascii "REQUEST_URI"
  | .documentUri => ascii "DOCUMENT_URI"
  | .documentRoot => ascii "DOCUMENT_ROOT"
  | .serverProtocol => ascii "SERVER_PROTOCOL"
  | .remoteAddr => ascii "REMOTE_ADDR"
  | .remotePort => ascii "REMOTE_PORT"
  | .serverAddr => ascii "SERVER_ADDR"
  | .serverPort => ascii "SERVER_PORT"
  | .serverName => ascii "SERVER_NAME"

/-- `FCGIParams`. -/
abbrev FcgiParams := Std.ExtTreeMap Bytes Bytes

/-- The text `NULL` stands for no text. -/
def paramText (tok : Bytes) : Bytes := if tok = ascii "NULL" then [] else tok

/-- The `switch`; `insert` keeps an entry that is there already. -/
def insertParam (params : FcgiParams) (key : FcgiParamKey) (tok : Bytes) :
    Option FcgiParams :=
  some (params.insertIfNew key.name (paramText tok))

/-- What `TSfopen` finds under a name. -/
abbrev Files := Bytes → Option Bytes

def initFcgiParam (files : Files) (fn : Bytes) (fcgiParams : FcgiParams) :
    Option FcgiParams :=
  match files fn with
  | none => some fcgiParams
  | some text =>
      (fileReader.reads text).foldlM (paramFormat.line insertParam) fcgiParams

/-! ### `initConfig` -/

def configFormat : LineFormat FcgiConfigKey where
  word := ascii "CONFIG"
  find := fcgiHttpTxnConfigFind
  unknownKey := ascii "no records.config name given"

/-- `FcgiPluginConfig` with all its fields.  A string is a pointer, which may
be null; the initial values are the defaults of `initConfig`. -/
structure LoadedConfig where
  enabled : Bool := true
  hostname : Option Bytes := some (ascii "localhost")
  serverIp : Option Bytes := some (ascii "127.0.0.1")
  serverPort : Option Bytes := some (ascii "60000")
  includeFilePath : Option Bytes := some (ascii "fastcgi.config")
  fcgiParams : FcgiParams := ∅
  documentRootDir : Option Bytes := some (ascii "/var/www/html/")
  html : Option Bytes := some (ascii "index.php")
  minConnLength : Int := 4
  maxConnLength : Int := 10
  maxReqLength : Int := 1000
  requestQueueSize : Int := 250
deriving DecidableEq

/-- A string setting: the text `NULL` stands for a null pointer. -/
def stringSetting (tok : Bytes) : Option Bytes :=
  if tok = ascii "NULL" then none else some tok

/-- The number that the digits at the start of a text write. -/
def readDigits (text : Bytes) : Nat :=
  (text.takeWhile isDigit).foldl (fun n ch => 10 * n + (ch.toNat - 48)) 0

/-- `strtoll(text, nullptr, 10)`, which is clamped on overflow. -/
def strtoll (text : Bytes) : Int :=
  match text.dropWhile isSpace with
  | [] => 0
  | ch :: rest =>
      if ch = 45 then max (-2 ^ 63) (-(readDigits rest : Int))
      else if ch = 43 then min (2 ^ 63 - 1) (readDigits rest)
      else min (2 ^ 63 - 1) (readDigits (ch :: rest))

namespace LoadedConfig

/-- The `switch`.  `config->enabled = tok` takes the pointer, which is not
null, as a truth value. -/
def store (files : Files) (config : LoadedConfig) (key : FcgiConfigKey)
    (tok : Bytes) : Option LoadedConfig :=
  match key with
  | .enabled => some { config with enabled := true }
  | .hostname => some { config with hostname := stringSetting tok }
  | .serverIp => some { config with serverIp := stringSetting tok }
  | .serverPort => some { config with serverPort := stringSetting tok }
  | .include_ =>
      if tok = ascii "NULL" then some { config with includeFilePath := none }
      else
        (initFcgiParam files tok config.fcgiParams).map fun fcgiParams =>
          { config with includeFilePath := some tok, fcgiParams := fcgiParams }
  | .documentRoot => some { config with documentRootDir := stringSetting tok }
  | .html => some { config with html := stringSetting tok }
  | .minConnections => some { config with minConnLength := strtoll tok }
  | .maxConnections => some { config with maxConnLength := strtoll tok }
  | .maxRequests => some { config with maxReqLength := strtoll tok }
  | .requestQueueSize => some { config with requestQueueSize := strtoll tok }

/-- The loop over a file. -/
def load (files : Files) (text : Bytes) : Option LoadedConfig :=
  (fileReader.reads text).foldlM (configFormat.line (store files)) {}

/-- `initConfig`.  A name of one letter is not a file: it sets `enabled`. -/
def initConfig (files : Files) : Option Bytes → Option LoadedConfig
  | none => some {}
  | some fn =>
      if fn.length = 1 then
        if fn = ascii "0" then some { enabled := false }
        else if fn = ascii "1" then some { enabled := true }
        else some {}
      else
        match files fn with
        | none => some {}
        | some text => load files text

end LoadedConfig

end AtsFastcgi
