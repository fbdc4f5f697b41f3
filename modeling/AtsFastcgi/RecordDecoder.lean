/-
The response decoder of `ats_fcgi_client.cc`: the record under construction,
the header automaton, the content copier and the dispatch of finished records.

A chunk is the list of bytes in `[beg_buf, end_buf)`; a function that moves
`beg_buf` returns by how much, so that an overshoot is visible as a move past
the end of the list, and a read at or after `end_buf` is `none`.
-/
import AtsFastcgi.Protocol

namespace AtsFastcgi

/-- `FCGI_State`. -/
inductive FcgiState where
  | version | type | requestIdHi | requestIdLo | contentLenHi | contentLenLo
  | paddingLen | reserved | contentBegin | contentProc | padding | done
deriving DecidableEq, Repr

/-- `rec->state < fcgi_state_content_begin`. -/
def FcgiState.beforeContent : FcgiState → Bool
  | .contentBegin | .contentProc | .padding | .done => false
  | _ => true

/-- `FCGI_PROCESS_AGAIN`, `FCGI_PROCESS_DONE`, `FCGI_PROCESS_ERR`. -/
inductive ProcessResult where
  | again | done | err
deriving DecidableEq, Repr

/-- `FCGIRecordList`: the record under construction. -/
structure FcgiRecordList where
  header : FcgiHeader := {}
  content : Bytes := []
  state : FcgiState := .version
  length : Nat := 0
  offset : Nat := 0
deriving DecidableEq, Repr

/-- Conversion of an integer to `size_t`. -/
def sizeT (z : Int) : Nat := (z % 2 ^ 64).toNat

/-- Conversion of a `size_t` to `int`. -/
def cInt (n : Nat) : Int := Int.bmod n (2 ^ 32)

/-- `memcpy(dst + offset, src, src.length)`. -/
def memcpy (dst : Bytes) (offset : Nat) (src : Bytes) : Bytes :=
  dst.take offset ++ src ++ dst.drop (offset + src.length)

/-- What one call did: its result, the record it left and how far it moved
`beg_buf`. -/
structure Advance where
  rv : ProcessResult
  record : FcgiRecordList
  moved : Nat
deriving DecidableEq, Repr

def fcgiProcessHeader (ch : UInt8) (record : FcgiRecordList) :
    ProcessResult × FcgiRecordList :=
  let h := record.header
  match record.state with
  | .version =>
      (.again, { record with
        header := { h with version := ch }, state := .type })
  | .type =>
      (.again, { record with
        header := { h with type := ch }, state := .requestIdHi })
  | .requestIdHi =>
      (.again, { record with
        header := { h with requestIdB1 := ch }, state := .requestIdLo })
  | .requestIdLo =>
      (.again, { record with
        header := { h with requestIdB0 := ch }, state := .contentLenHi })
  | .contentLenHi =>
      (.again, { record with
        header := { h with contentLengthB1 := ch }, state := .contentLenLo })
  | .contentLenLo =>
      (.again, { record with
        header := { h with contentLengthB0 := ch }, state := .paddingLen })
  | .paddingLen =>
      (.again, { record with
        header := { h with paddingLength := ch }, state := .reserved })
  | .reserved =>
      (.again, { record with
        header := { h with reserved := ch }, state := .contentBegin })
  | .contentBegin | .contentProc | .padding | .done => (.done, record)

def fcgiProcessContent (buf : Bytes) (record : FcgiRecordList) : Advance :=
  let nb := buf.length
  let h := record.header
  let offset := record.offset
  if record.state = .padding then
    -- the skip is not compared with `end_buf`
    { rv := .done
      record := { record with state := .done }
      moved := sizeT
        (cInt record.length - cInt offset + h.paddingLength.toNat) }
  else
    let conLen := sizeT ((record.length : Int) - offset)
    let totLen := sizeT ((conLen : Int) + h.paddingLength.toNat)
    let cpyLen := if conLen ≤ nb then conLen else nb
    let content := memcpy record.content offset (buf.take cpyLen)
    if totLen ≤ nb then
      { rv := .done
        record := { record with
          content := content, offset := record.offset + totLen, state := .done }
        moved := totLen }
    else if conLen ≤ nb then
      { rv := .again
        record := { record with
          content := content, state := .padding, offset := record.offset + nb }
        moved := nb }
    else
      { rv := .again
        record := { record with
          content := content, offset := record.offset + nb }
        moved := nb }

/-- The step of `fcgiProcessRecord` from `content_begin` to `content_proc`.
`TSmalloc` leaves the content bytes unspecified; here they are zero. -/
def beginContent (record : FcgiRecordList) : FcgiRecordList :=
  if record.state = .contentBegin then
    { record with
      length := record.header.contentLen
      content := List.replicate record.header.contentLen 0
      state := .contentProc }
  else record

/-- `fcgiProcessRecord`, its `while` loop as a recursion on the bytes left.
`none` is the read of `**beg_buf` when none is left. -/
def fcgiProcessRecord : Bytes → FcgiRecordList → Option Advance
  | [], record =>
      if record.state.beforeContent then none
      else some (fcgiProcessContent [] (beginContent record))
  | ch :: rest, record =>
      if record.state.beforeContent then
        let (rv, record) := fcgiProcessHeader ch record
        if rv = .err then some ⟨.err, record, 0⟩
        else if rest = [] then some ⟨.again, record, 1⟩
        else (fcgiProcessRecord rest record).map fun a =>
          { a with moved := a.moved + 1 }
      else some (fcgiProcessContent (ch :: rest) (beginContent record))

/-! ### The status line -/

/-- `TSParseResult`. -/
inductive ParseResult where
  | error | done | ok | cont
deriving DecidableEq, Repr

/-- What the plugin asks of a parsed MIME header: its printed text, whether
the `Headers` wrapper is initialized and the joined values of `Status`. -/
structure MimeHdr where
  printed : Bytes
  isInitialized : Bool
  status : Option Bytes
deriving DecidableEq, Repr

/-- `TSMimeHdrParse` and the header object it fills, as a parameter. -/
abbrev MimeHdrParse := Bytes → ParseResult × MimeHdr

/-- The bytes of a `char *` up to its terminator. -/
def cString (bytes : Bytes) : Bytes := bytes.takeWhile (· ≠ 0)

/-- `std::string::find`. -/
def findBytes (needle haystack : Bytes) : Option Nat :=
  haystack.tails.findIdx? (needle.isPrefixOf ·)

/-- The part of the content that is given to the MIME parser. -/
def headerString (content : Bytes) : Bytes :=
  match findBytes (ascii "\r\n\r\n") content with
  | some foundPos => content.take (foundPos + 4)
  | none => []

/-- The status line written for the content of the first record, if any. -/
def statusLine (parse : MimeHdrParse) (content : Bytes) : Option Bytes :=
  let buff := cString (headerString content)
  let (retval, h) := parse buff
  if retval = .done then
    if buff = cString h.printed then
      if h.isInitialized then
        match h.status with
        | some value =>
            some (ascii "HTTP/1.1" ++ ascii " " ++ cString value ++
              ascii "\r\n")
        | none => some (ascii "HTTP/1.0 200 OK\r\n")
      else none
    else some (ascii "HTTP/1.0 200 OK\r\n")
  else none

/-! ### Dispatch -/

/-- One insertion into the output stream, with the record it was made for. -/
inductive OutputPiece where
  | statusLine (text : Bytes)
  | stdout (header : FcgiHeader) (content : Bytes)
  | serverError
  | stderr (header : FcgiHeader) (content : Bytes)
deriving DecidableEq, Repr

def serverErrorText : Bytes := ascii "HTTP/1.0 500 Server Error\r\n\r\n"

def OutputPiece.text : OutputPiece → Bytes
  | .statusLine text => text
  | .stdout _ content => content
  | .serverError => serverErrorText
  | .stderr _ content => content

/-- The bytes of the output stream. -/
def outputText (output : List OutputPiece) : Bytes :=
  output.flatMap OutputPiece.text

/-- `std::string((char *)rec->content, rec->length)`. -/
def FcgiRecordList.text (record : FcgiRecordList) : Bytes :=
  record.content.take record.length

/-- A record of this type ends the response. -/
def endsResponse (type : UInt8) : Bool :=
  type = FCGI_STDERR || type = FCGI_END_REQUEST

/-- The `if (first_chunk)` block. -/
def statusOutput (parse : MimeHdrParse) (firstChunk : Bool) (content : Bytes) :
    List OutputPiece :=
  if firstChunk then
    match statusLine parse content with
    | some text => [.statusLine text]
    | none => []
  else []

/-- What `fcgiProcessBuffer` inserts for a finished record. -/
def recordOutput (parse : MimeHdrParse) (firstChunk : Bool)
    (record : FcgiRecordList) : List OutputPiece :=
  let out :=
    if record.header.type = FCGI_STDOUT then
      [.stdout record.header record.text]
    else []
  let err :=
    if record.header.type = FCGI_STDERR then
      [.serverError, .stderr record.header record.text]
    else []
  statusOutput parse firstChunk record.text ++ out ++ err

/-- The decoder's part of `FCGIClientRequest`. -/
structure ResponseDecoder where
  firstChunk : Bool := true
  headerRecord : Option FcgiRecordList := none
deriving DecidableEq, Repr

/-- A return of `fcgiProcessBuffer`: its value, what it wrote, the records it
finished in order, and how far it moved `beg_buf`. -/
structure BufferReturn where
  completed : Bool
  decoder : ResponseDecoder
  output : List OutputPiece
  dispatched : List FcgiRecordList
  moved : Nat
deriving DecidableEq, Repr

/-- `fcgiProcessBuffer` returns, reads outside the chunk, or is still in its
`while (1)` when the fuel ends. -/
inductive BufferRun where
  | returned (ret : BufferReturn)
  | readOutside
  | running
deriving DecidableEq, Repr

/-- What came before the rest of the loop. -/
def BufferRun.after (output : List OutputPiece)
    (dispatched : List FcgiRecordList) (moved : Nat) : BufferRun → BufferRun
  | .returned ret =>
      .returned { ret with
        output := output ++ ret.output
        dispatched := dispatched ++ ret.dispatched
        moved := moved + ret.moved }
  | .readOutside => .readOutside
  | .running => .running

/-- A finished record is replaced by a new one at the head of the loop. -/
def renewRecord (record : FcgiRecordList) : FcgiRecordList :=
  if record.state = .done then {} else record

/-- The `while (1)` of `fcgiProcessBuffer`. -/
def fcgiProcessLoop (parse : MimeHdrParse) :
    Nat → Bool → FcgiRecordList → Bytes → BufferRun
  | 0, _, _, _ => .running
  | fuel + 1, firstChunk, record, buf =>
      match fcgiProcessRecord buf (renewRecord record) with
      | none => .readOutside
      | some a =>
          if a.rv = .done then
            let output := recordOutput parse firstChunk a.record
            if endsResponse a.record.header.type then
              .returned
                { completed := true, decoder := ⟨false, some a.record⟩
                  output, dispatched := [a.record], moved := a.moved }
            else if a.moved = buf.length then
              .returned
                { completed := false, decoder := ⟨false, some a.record⟩
                  output, dispatched := [a.record], moved := a.moved }
            else
              (fcgiProcessLoop parse fuel false a.record
                (buf.drop a.moved)).after output [a.record] a.moved
          else if a.moved = buf.length then
            .returned
              { completed := false, decoder := ⟨firstChunk, some a.record⟩
                output := [], dispatched := [], moved := a.moved }
          else
            (fcgiProcessLoop parse fuel firstChunk a.record
              (buf.drop a.moved)).after [] [] a.moved

/-- The loop makes at most one turn that consumes nothing, so this fuel is
never used up (`fcgiProcessLoop_inside`). -/
def fcgiProcessBuffer (parse : MimeHdrParse) (d : ResponseDecoder)
    (buf : Bytes) : BufferRun :=
  fcgiProcessLoop parse (buf.length + 2) d.firstChunk
    (d.headerRecord.getD {}) buf

def fcgiDecodeRecordChunk (parse : MimeHdrParse) (d : ResponseDecoder)
    (chunk : Bytes) : BufferRun :=
  fcgiProcessBuffer parse d chunk

end AtsFastcgi
