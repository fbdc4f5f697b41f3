/-
The content buffer of the record under construction.  A call of
`fcgiProcessRecord` makes at most one call of `fcgiProcessContent`, its last
step; the arguments of that call say where `memcpy` writes and reads, and the
content bytes of the record say what the buffer must hold.
-/
import AtsFastcgi.DecoderRefinement

namespace AtsFastcgi

/-! ### The content among the first bytes of a record -/

/-- The content length that the header at the front announces. -/
def announcedLen (bytes : Bytes) : Nat :=
  (bytes.getD 4 0).toNat * 256 + (bytes.getD 5 0).toNat

/-- The content bytes among the first bytes of a record. -/
def contentReceived (bytes : Bytes) : Bytes :=
  (bytes.drop 8).take (announcedLen bytes)

theorem contentReceived_of_le {bytes : Bytes} (hle : bytes.length ≤ 8) :
    contentReceived bytes = [] := by
  rw [contentReceived, List.drop_eq_nil_of_le hle, List.take_nil]

theorem take_append_take (front more : Bytes) (n : Nat) :
    (front.take n ++ more).take n = (front ++ more).take n := by
  have hcount : n - min n front.length = n - front.length := by omega
  rw [List.take_append, List.take_append, List.take_take, Nat.min_self,
    List.length_take, hcount]

theorem contentReceived_header (h : FcgiHeader) (body : Bytes) :
    contentReceived (h.bytes ++ body) = body.take h.contentLen := by
  rw [FcgiHeader.contentLen_eq]
  rfl

/-- The content bytes of a whole record are its content. -/
theorem contentReceived_encode (r : Record) (rest : Bytes) :
    contentReceived (r.encode ++ rest) = r.content := by
  rw [Record.encode, List.append_assoc, contentReceived_header,
    Record.header_contentLen, List.append_assoc, List.take_left]

/-! ### Good records -/

namespace FcgiRecordList

/-- All content bytes that the header announces are in the buffer. -/
structure HoldsAll (record : FcgiRecordList) (received : Bytes) : Prop where
  content : record.content = received
  length : record.content.length = record.length
  all : record.length = record.header.contentLen

theorem HoldsAll.received_length {record : FcgiRecordList} {received : Bytes}
    (h : record.HoldsAll received) :
    received.length = record.header.contentLen := by
  rw [← h.content, h.length, h.all]

/-- What holds of the record under construction, when `received` are its
content bytes so far. -/
def Good (record : FcgiRecordList) (received : Bytes) : Prop :=
  match record.state with
  | .contentProc =>
      record.content.length = record.length ∧
        record.length = record.header.contentLen ∧
        record.offset ≤ record.length ∧
        record.content.take record.offset = received
  | .padding =>
      record.HoldsAll received ∧
        record.length ≤ record.offset ∧
        record.offset < record.length + record.header.paddingLength.toNat
  | .done => record.HoldsAll received
  | _ => record.length = 0 ∧ record.offset = 0 ∧ received = []

/-- What has been read of a record: its header, as far as it goes, and its
content. -/
def bytesRead (record : FcgiRecordList) (received : Bytes) : Bytes :=
  record.header.bytes.take (8 - headerLeft record.state) ++ received

theorem bytesRead_nil_length (record : FcgiRecordList) :
    (record.bytesRead []).length ≤ 8 := by
  rw [bytesRead, List.append_nil, List.length_take]
  exact Nat.min_le_right _ _

theorem good_new : ({} : FcgiRecordList).Good [] := ⟨rfl, rfl, rfl⟩

theorem Good.wellFormed {record : FcgiRecordList} {received : Bytes}
    (hgood : record.Good received) : record.WellFormed := by
  obtain ⟨header, content, state, length, offset⟩ := record
  cases state with
  | contentProc => exact ⟨hgood.1, hgood.2.1, hgood.2.2.1⟩
  | padding => exact ⟨hgood.1.length, hgood.1.all, hgood.2⟩
  | done => exact ⟨hgood.length, hgood.all⟩
  | _ => exact ⟨hgood.1, hgood.2.1⟩

theorem WellFormed.exists_good {record : FcgiRecordList}
    (hwf : record.WellFormed) : ∃ received, record.Good received := by
  obtain ⟨header, content, state, length, offset⟩ := record
  cases state with
  | contentProc =>
      exact ⟨content.take offset, hwf.1, hwf.2.1, hwf.2.2, rfl⟩
  | padding => exact ⟨content, ⟨rfl, hwf.1, hwf.2.1⟩, hwf.2.2⟩
  | done => exact ⟨content, ⟨rfl, hwf.1, hwf.2⟩⟩
  | _ => exact ⟨[], hwf.1, hwf.2, rfl⟩

/-- No content is received before the header is complete. -/
theorem Good.eq_nil {record : FcgiRecordList} {received : Bytes}
    (hgood : record.Good received)
    (hheader : record.state.beforeContent = true) : received = [] := by
  obtain ⟨header, content, state, length, offset⟩ := record
  cases state with
  | contentBegin => contradiction
  | contentProc => contradiction
  | padding => contradiction
  | done => contradiction
  | _ => exact hgood.2.2

/-- Behind the header, what has been read begins with all of it. -/
theorem bytesRead_of_left {record : FcgiRecordList}
    (hleft : headerLeft record.state = 0) (received : Bytes) :
    record.bytesRead received = record.header.bytes ++ received := by
  rw [bytesRead, hleft]
  rfl

/-- One header byte is added to what has been read. -/
theorem fcgiProcessHeader_good {record : FcgiRecordList} {received : Bytes}
    (ch : UInt8) (hgood : record.Good received)
    (hheader : record.state.beforeContent = true) :
    ∃ next, fcgiProcessHeader ch record = (.again, next) ∧
      next.Good received ∧ next.state ≠ .done ∧
      next.bytesRead received = record.bytesRead received ++ [ch] := by
  obtain ⟨header, content, state, length, offset⟩ := record
  cases state with
  | contentBegin => contradiction
  | contentProc => contradiction
  | padding => contradiction
  | done => contradiction
  | _ =>
      obtain ⟨hlength, hoffset, rfl⟩ := hgood
      exact ⟨_, rfl, ⟨hlength, hoffset, rfl⟩, by simp, rfl⟩

/-- The buffer is allocated with nothing in it. -/
theorem beginContent_good {record : FcgiRecordList} {received : Bytes}
    (hgood : record.Good received) (hstate : record.state = .contentBegin) :
    (beginContent record).Good received ∧
      (beginContent record).state = .contentProc ∧
      (beginContent record).bytesRead received = record.bytesRead received := by
  obtain ⟨header, content, state, length, offset⟩ := record
  subst hstate
  obtain ⟨-, rfl, rfl⟩ := hgood
  refine ⟨⟨?_, rfl, ?_, ?_⟩, rfl, rfl⟩
  · exact List.length_replicate
  · exact Nat.zero_le _
  · exact List.take_zero

end FcgiRecordList

/-! ### The call of `fcgiProcessContent` -/

/-- The arguments of `fcgiProcessContent`: where `*beg_buf` is in the chunk, the
bytes from there to `end_buf`, and the record. -/
structure ContentCall where
  start : Nat
  buf : Bytes
  record : FcgiRecordList
deriving DecidableEq, Repr

/-- The call at the end of `fcgiProcessRecord`, if the chunk does not end in the
header. -/
def contentCall : Bytes → FcgiRecordList → Option ContentCall
  | [], record =>
      if record.state.beforeContent then none
      else some ⟨0, [], beginContent record⟩
  | ch :: rest, record =>
      if record.state.beforeContent then
        let (rv, record) := fcgiProcessHeader ch record
        if rv = .err then none
        else if rest = [] then none
        else (contentCall rest record).map fun call =>
          { call with start := call.start + 1 }
      else some ⟨0, ch :: rest, beginContent record⟩

namespace ContentCall

variable (call : ContentCall)

/-- `con_len`. -/
def conLen : Nat := sizeT ((call.record.length : Int) - call.record.offset)

/-- `cpy_len`. -/
def cpyLen : Nat :=
  if call.conLen ≤ call.buf.length then call.conLen else call.buf.length

/-- What is added to `*beg_buf` in the padding state. -/
def skip : Nat :=
  sizeT (cInt call.record.length - cInt call.record.offset +
    call.record.header.paddingLength.toNat)

/-- What the call makes `fcgiProcessRecord` return. -/
def result : Advance :=
  let a := fcgiProcessContent call.buf call.record
  { a with moved := a.moved + call.start }

/-- Outside the padding state `cpy_len` bytes at `*beg_buf` are copied to
`content + offset`. -/
theorem fcgiProcessContent_copies (hstate : call.record.state ≠ .padding) :
    (fcgiProcessContent call.buf call.record).record.content =
      memcpy call.record.content call.record.offset
        (call.buf.take call.cpyLen) := by
  have hcpy : (if sizeT ((call.record.length : Int) - call.record.offset) ≤
        call.buf.length then
      sizeT ((call.record.length : Int) - call.record.offset)
      else call.buf.length) = call.cpyLen := rfl
  simp only [fcgiProcessContent, if_neg hstate, hcpy]
  split
  · rfl
  · split <;> rfl

/-- In the padding state `*beg_buf` is moved by the skip. -/
theorem fcgiProcessContent_moves (hstate : call.record.state = .padding) :
    (fcgiProcessContent call.buf call.record).moved = call.skip := by
  simp only [fcgiProcessContent, if_pos hstate]
  rfl

/-- The call stays inside the content buffer and the chunk, its unsigned
difference does not wrap around, and its skip fits into a byte. -/
structure Safe (chunk : Bytes) : Prop where
  content : call.record.state ≠ .padding →
    call.record.offset + call.cpyLen ≤ call.record.length ∧
      call.record.length ≤ call.record.content.length
  chunk : call.record.state ≠ .padding →
    call.start + call.cpyLen ≤ chunk.length
  conLen : call.record.state = .contentProc →
    call.record.offset ≤ call.record.length
  skip : call.record.state = .padding → 1 ≤ call.skip ∧ call.skip ≤ 255

/-- How `fcgiProcessContent` is reached from a record with the bytes `front`
read and a chunk. -/
structure Reached (received front chunk : Bytes) : Prop where
  good : call.record.Good received
  state : call.record.state = .contentProc ∨ call.record.state = .padding
  buf : call.buf.length + call.start = chunk.length
  bytes : call.record.header.bytes ++ received ++ call.buf = front ++ chunk

end ContentCall

theorem headerLeft_of_behind {state : FcgiState}
    (hstate : state = .contentProc ∨ state = .padding) :
    headerLeft state = 0 := by
  rcases hstate with rfl | rfl
  · rfl
  · rfl

/-- A record that is behind its header goes to `fcgiProcessContent` at once. -/
theorem reached_of_behind {record : FcgiRecordList} {received : Bytes}
    (chunk : Bytes) (hgood : record.Good received)
    (hheader : record.state.beforeContent = false)
    (hstate : record.state ≠ .done) :
    (ContentCall.mk 0 chunk (beginContent record)).Reached received
      (record.bytesRead received) chunk := by
  by_cases hbegin : record.state = .contentBegin
  · obtain ⟨hnext, hproc, hbytes⟩ :=
      FcgiRecordList.beginContent_good hgood hbegin
    have hleft := headerLeft_of_behind (.inl hproc)
    rw [FcgiRecordList.bytesRead_of_left hleft] at hbytes
    exact ⟨hnext, .inl hproc, rfl, congrArg (· ++ chunk) hbytes⟩
  · have hbehind : record.state = .contentProc ∨ record.state = .padding := by
      revert hheader hstate hbegin
      cases record.state <;> simp [FcgiState.beforeContent]
    have hleft := headerLeft_of_behind hbehind
    rw [beginContent_of_ne hbegin]
    constructor
    · exact hgood
    · exact hbehind
    · rfl
    · rw [FcgiRecordList.bytesRead_of_left hleft]

/-- What a call of `fcgiProcessRecord` does: its chunk ends in the header, or it
reaches `fcgiProcessContent`. -/
theorem contentCall_spec {chunk received : Bytes} {record : FcgiRecordList}
    (hchunk : chunk ≠ []) (hgood : record.Good received)
    (hstate : record.state ≠ .done) :
    (contentCall chunk record = none ∧ received = [] ∧
        ∃ next, fcgiProcessRecord chunk record =
            some ⟨.again, next, chunk.length⟩ ∧
          next.Good received ∧
          next.bytesRead received = record.bytesRead received ++ chunk) ∨
      ∃ call, contentCall chunk record = some call ∧
        fcgiProcessRecord chunk record = some call.result ∧
        call.Reached received (record.bytesRead received) chunk := by
  induction chunk generalizing record with
  | nil => contradiction
  | cons ch rest ih =>
      cases hheader : record.state.beforeContent with
      | true =>
          have hempty := hgood.eq_nil hheader
          obtain ⟨next, hnext, hnextGood, hnextState, hbytes⟩ :=
            FcgiRecordList.fcgiProcessHeader_good ch hgood hheader
          by_cases hrest : rest = []
          · subst hrest
            refine .inl ⟨?_, hempty, next, ?_, hnextGood, hbytes⟩
            · simp [contentCall, hheader, hnext]
            · simp [fcgiProcessRecord, hheader, hnext]
          · have hsplit : next.bytesRead received ++ rest =
                record.bytesRead received ++ ch :: rest := by
              rw [hbytes, List.append_assoc]
              rfl
            rcases ih hrest hnextGood hnextState with
              ⟨hcall, -, last, hrun, hlast, hlastBytes⟩ |
              ⟨call, hcall, hrun, hreached⟩
            · refine .inl ⟨?_, hempty, last, ?_, hlast, ?_⟩
              · simp [contentCall, hheader, hnext, hrest, hcall]
              · simp [fcgiProcessRecord, hheader, hnext, hrest, hrun]
              · exact hlastBytes.trans hsplit
            · refine .inr ⟨{ call with start := call.start + 1 }, ?_, ?_, ?_⟩
              · simp [contentCall, hheader, hnext, hrest, hcall]
              · simp only [fcgiProcessRecord, hheader, if_true, hnext,
                  reduceCtorEq, if_false, hrest, hrun, Option.map_some]
                rfl
              · constructor
                · exact hreached.good
                · exact hreached.state
                · exact congrArg (· + 1) hreached.buf
                · exact hreached.bytes.trans hsplit
      | false =>
          refine .inr ⟨⟨0, ch :: rest, beginContent record⟩, ?_, ?_, ?_⟩
          · simp [contentCall, hheader]
          · simp [fcgiProcessRecord, hheader, ContentCall.result]
          · exact reached_of_behind (ch :: rest) hgood hheader hstate

/-! ### What the call leaves -/

/-- What is copied stands behind the front that was there. -/
theorem memcpy_take {dst front : Bytes} {offset : Nat} (src : Bytes)
    (hoffset : offset ≤ dst.length) (hfront : dst.take offset = front) :
    (memcpy dst offset src).take (offset + src.length) = front ++ src := by
  have hlen : (dst.take offset ++ src).length = offset + src.length := by
    rw [List.length_append, List.length_take_of_le hoffset]
  rw [memcpy, List.take_left' hlen, hfront]

/-- The copier puts the content bytes of the chunk behind those received. -/
theorem fcgiProcessContent_good_proc (buf : Bytes) {record : FcgiRecordList}
    {received : Bytes} (hstate : record.state = .contentProc)
    (hgood : record.Good received) :
    (fcgiProcessContent buf record).record.Good
      ((received ++ buf).take record.header.contentLen) := by
  have hrun := fcgiProcessContent_proc buf hstate hgood.wellFormed
  simp only [FcgiRecordList.Good, hstate] at hgood
  obtain ⟨hcontent, hlength, hle, htake⟩ := hgood
  simp only at hrun
  generalize hn : min (record.length - record.offset) buf.length = n at hrun
  have hsource : (buf.take n).length = n := by
    rw [List.length_take]
    omega
  have hreceived : received.length = record.offset := by
    rw [← htake, List.length_take]
    omega
  have harrived : (received ++ buf).take record.header.contentLen =
      received ++ buf.take n := by
    rw [List.take_append, List.take_of_length_le (by omega), ← hlength,
      hreceived, ← hn, ← List.take_eq_take_min]
  have hcopied := memcpy_take (buf.take n) (by omega) htake
  have hsize := memcpy_length record.content (buf.take n) record.offset
    (by omega)
  rw [hsource] at hcopied
  rw [harrived, hrun]
  -- the whole buffer is filled once `con_len` bytes have been copied
  have hfull : record.offset + n = record.length →
      memcpy record.content record.offset (buf.take n) =
        received ++ buf.take n := by
    intro hall
    rw [← hcopied, hall, ← hcontent, ← hsize, List.take_length]
  split
  · exact ⟨hfull (by omega), hsize.trans hcontent, hlength⟩
  · split
    · exact ⟨⟨hfull (by omega), hsize.trans hcontent, hlength⟩,
        by dsimp only; omega, by dsimp only; omega⟩
    · have hall : n = buf.length := by omega
      simp only [FcgiRecordList.Good, hstate]
      rw [← hall]
      exact ⟨hsize.trans hcontent, hlength, by omega, hcopied⟩

/-- The padding leaves the content as it is. -/
theorem fcgiProcessContent_good_padding (buf : Bytes) {record : FcgiRecordList}
    {received : Bytes} (hstate : record.state = .padding)
    (hgood : record.Good received) :
    (fcgiProcessContent buf record).record.Good
      ((received ++ buf).take record.header.contentLen) := by
  rw [fcgiProcessContent_padding buf hstate hgood.wellFormed]
  simp only [FcgiRecordList.Good, hstate] at hgood
  obtain ⟨hholds, -⟩ := hgood
  rw [List.take_left' hholds.received_length]
  exact ⟨hholds.content, hholds.length, hholds.all⟩

theorem fcgiProcessContent_header (buf : Bytes) (record : FcgiRecordList) :
    (fcgiProcessContent buf record).record.header = record.header := by
  unfold fcgiProcessContent
  simp only
  split
  · rfl
  · split
    · rfl
    · split <;> rfl

theorem fcgiProcessContent_left (buf : Bytes) {record : FcgiRecordList}
    (hleft : headerLeft record.state = 0) :
    headerLeft (fcgiProcessContent buf record).record.state = 0 := by
  unfold fcgiProcessContent
  simp only
  split
  · rfl
  · split
    · rfl
    · split
      · rfl
      · exact hleft

namespace ContentCall

variable {call : ContentCall} {received front chunk : Bytes}

theorem cpyLen_eq (call : ContentCall) :
    call.cpyLen = min call.conLen call.buf.length := by
  unfold cpyLen
  split <;> omega

theorem Reached.conLen_eq (h : call.Reached received front chunk)
    (hproc : call.record.state = .contentProc) :
    call.conLen = call.record.length - call.record.offset := by
  have hwf := h.good.wellFormed
  simp only [FcgiRecordList.WellFormed, hproc] at hwf
  obtain ⟨-, hlength, hle⟩ := hwf
  have hlen := call.record.header.contentLen_lt
  exact sizeT_sub hle (by omega)

theorem Reached.skip_eq (h : call.Reached received front chunk)
    (hpad : call.record.state = .padding) :
    call.skip = call.record.paddingLeft := by
  rw [← call.fcgiProcessContent_moves hpad,
    fcgiProcessContent_padding call.buf hpad h.good.wellFormed]

/-- A call that is reached from a good record is safe. -/
theorem Reached.safe (h : call.Reached received front chunk) :
    call.Safe chunk := by
  have hwf := h.good.wellFormed
  rcases h.state with hproc | hpad
  · have hcon := h.conLen_eq hproc
    have hcpy := call.cpyLen_eq
    have hbuf := h.buf
    simp only [FcgiRecordList.WellFormed, hproc] at hwf
    obtain ⟨hcontent, -, hle⟩ := hwf
    constructor
    · intro _
      exact ⟨by omega, Nat.le_of_eq hcontent.symm⟩
    · intro _
      omega
    · exact fun _ => hle
    · intro hpad
      rw [hproc] at hpad
      contradiction
  · have hbyte := call.record.header.paddingLength.toNat_lt
    simp only [FcgiRecordList.WellFormed, hpad] at hwf
    constructor
    · exact fun hne => absurd hpad hne
    · exact fun hne => absurd hpad hne
    · intro hproc
      rw [hpad] at hproc
      contradiction
    · intro _
      rw [h.skip_eq hpad, FcgiRecordList.paddingLeft]
      omega

/-- The buffer holds the content bytes that the chunk has brought. -/
theorem Reached.good_result (h : call.Reached received front chunk) :
    call.result.record.Good (contentReceived (front ++ chunk)) := by
  rw [← h.bytes, List.append_assoc, contentReceived_header]
  rcases h.state with hproc | hpad
  · exact fcgiProcessContent_good_proc call.buf hproc h.good
  · exact fcgiProcessContent_good_padding call.buf hpad h.good

/-- What comes later brings the same content as behind all bytes so far. -/
theorem Reached.later (h : call.Reached received front chunk) (more : Bytes) :
    contentReceived (call.result.record.bytesRead
        (contentReceived (front ++ chunk)) ++ more) =
      contentReceived (front ++ chunk ++ more) := by
  have hheader : call.result.record.header = call.record.header :=
    fcgiProcessContent_header call.buf call.record
  have hleft : headerLeft call.result.record.state = 0 :=
    fcgiProcessContent_left call.buf (headerLeft_of_behind h.state)
  rw [FcgiRecordList.bytesRead_of_left hleft, hheader, ← h.bytes]
  simp only [List.append_assoc, contentReceived_header]
  rw [take_append_take, List.append_assoc]

end ContentCall

/-! ### Calls in a row -/

/-- The record stands behind the bytes: it is good for their content, and what
comes later means the same to it as behind all of them. -/
structure FcgiRecordList.StandsBehind (record : FcgiRecordList)
    (bytes : Bytes) : Prop where
  good : record.Good (contentReceived bytes)
  later : ∀ more, contentReceived
      (record.bytesRead (contentReceived bytes) ++ more) =
    contentReceived (bytes ++ more)

/-- One call on a good record, from what the record has read to what it has
read with the chunk. -/
theorem fcgiProcessRecord_standsBehind {chunk received : Bytes}
    {record : FcgiRecordList} (hchunk : chunk ≠ [])
    (hgood : record.Good received) (hstate : record.state ≠ .done) :
    ∃ a, fcgiProcessRecord chunk record = some a ∧
      a.record.StandsBehind (record.bytesRead received ++ chunk) ∧
      ∀ call ∈ contentCall chunk record, call.Safe chunk := by
  rcases contentCall_spec hchunk hgood hstate with
    ⟨hcall, rfl, next, hrun, hnext, hbytes⟩ | ⟨call, hcall, hrun, hreached⟩
  · have hnone : contentReceived (record.bytesRead [] ++ chunk) = [] := by
      rw [← hbytes]
      exact contentReceived_of_le next.bytesRead_nil_length
    refine ⟨_, hrun, ⟨?_, ?_⟩, ?_⟩
    · rw [hnone]
      exact hnext
    · intro more
      rw [hnone, ← hbytes]
    · intro call hmem
      rw [hcall] at hmem
      contradiction
  · refine ⟨_, hrun, ⟨hreached.good_result, hreached.later⟩, ?_⟩
    intro other hmem
    obtain rfl := Option.some.inj (hcall.symm.trans hmem)
    exact hreached.safe

/-- A good record that is not finished is good after any chunk, for the content
bytes that have been received with it; the copy stays inside the content buffer
and the chunk. -/
theorem fcgiProcessRecord_good {chunk received : Bytes}
    {record : FcgiRecordList} (hgood : record.Good received)
    (hstate : record.state ≠ .done) (hchunk : chunk ≠ []) :
    ∃ a, fcgiProcessRecord chunk record = some a ∧
      a.record.Good
        (contentReceived (record.bytesRead received ++ chunk)) ∧
      ∀ call, contentCall chunk record = some call → call.Safe chunk := by
  obtain ⟨a, hrun, hbehind, hsafe⟩ :=
    fcgiProcessRecord_standsBehind hchunk hgood hstate
  exact ⟨a, hrun, hbehind.good, hsafe⟩

namespace ContentBufferWitness

/-- A record of three content and two padding bytes, with one content byte in
the buffer. -/
def reading : FcgiRecordList where
  header := { version := 1, type := FCGI_STDOUT, requestIdB0 := 1
              contentLengthB0 := 3, paddingLength := 2 }
  content := [65, 0, 0]
  state := .contentProc
  length := 3
  offset := 1

theorem good_reading : reading.Good [65] := ⟨rfl, rfl, by decide, rfl⟩

/-- The rest of the content and a byte of the padding. -/
theorem good_lastContent :
    ∃ a, fcgiProcessRecord [66, 67, 0] reading = some a ∧
      a.record.Good [65, 66, 67] ∧
      ∀ call, contentCall [66, 67, 0] reading = some call →
        call.Safe [66, 67, 0] :=
  @fcgiProcessRecord_good [66, 67, 0] [65] reading good_reading (by decide)
    (by decide)

end ContentBufferWitness

namespace FcgiRecordList

theorem standsBehind_new : ({} : FcgiRecordList).StandsBehind [] :=
  ⟨good_new, fun _ => rfl⟩

/-- The next call, of a record that is not finished. -/
theorem StandsBehind.step {record : FcgiRecordList} {bytes chunk : Bytes}
    (h : record.StandsBehind bytes) (hchunk : chunk ≠ [])
    (hstate : record.state ≠ .done) :
    ∃ a, fcgiProcessRecord chunk record = some a ∧
      a.record.StandsBehind (bytes ++ chunk) := by
  obtain ⟨a, hrun, hnext, -⟩ :=
    fcgiProcessRecord_standsBehind hchunk h.good hstate
  refine ⟨a, hrun, ?_, ?_⟩
  · rw [← h.later chunk]
    exact hnext.good
  · intro more
    have hlater := hnext.later more
    rw [h.later chunk, List.append_assoc, h.later] at hlater
    rw [hlater, List.append_assoc]

/-- To a finished record more bytes bring no content. -/
theorem StandsBehind.append_of_done {record : FcgiRecordList} {bytes : Bytes}
    (h : record.StandsBehind bytes) (hstate : record.state = .done)
    (more : Bytes) : record.StandsBehind (bytes ++ more) := by
  have hleft : headerLeft record.state = 0 := by
    rw [hstate]
    rfl
  have hholds := h.good
  simp only [Good, hstate] at hholds
  have hall := hholds.received_length
  have hsame : contentReceived (bytes ++ more) = contentReceived bytes := by
    rw [← h.later more, bytesRead_of_left hleft, List.append_assoc,
      contentReceived_header, List.take_left' hall]
  constructor
  · rw [hsame]
    exact h.good
  · intro later
    rw [hsame, h.later later, List.append_assoc, ← h.later, ← h.later,
      bytesRead_of_left hleft]
    simp only [List.append_assoc, contentReceived_header,
      List.take_left' hall]

end FcgiRecordList

/-- The calls on a record, one for each chunk until it is finished. -/
def feedRecord : FcgiRecordList → List Bytes → Option FcgiRecordList
  | record, [] => some record
  | record, chunk :: rest =>
      if record.state = .done then some record
      else (fcgiProcessRecord chunk record).bind fun a =>
        feedRecord a.record rest

theorem feedRecord_standsBehind {record : FcgiRecordList} {bytes : Bytes}
    {chunks : List Bytes} (h : record.StandsBehind bytes)
    (hchunks : ∀ chunk ∈ chunks, chunk ≠ []) :
    ∃ last, feedRecord record chunks = some last ∧
      last.StandsBehind (bytes ++ chunks.flatten) := by
  induction chunks generalizing record bytes with
  | nil => exact ⟨record, rfl, by rwa [List.flatten_nil, List.append_nil]⟩
  | cons chunk rest ih =>
      by_cases hdone : record.state = .done
      · refine ⟨record, ?_, h.append_of_done hdone _⟩
        rw [feedRecord, if_pos hdone]
      · obtain ⟨a, hrun, hnext⟩ :=
          h.step (hchunks chunk List.mem_cons_self) hdone
        obtain ⟨last, hlast, hbehind⟩ := ih hnext fun other hother =>
          hchunks other (List.mem_cons_of_mem chunk hother)
        refine ⟨last, ?_, ?_⟩
        · rw [feedRecord, if_neg hdone, hrun]
          exact hlast
        · rw [List.flatten_cons, ← List.append_assoc]
          exact hbehind

/-- However a record arrives, the buffer holds the content bytes that have been
received since the record was made. -/
theorem feedRecord_good {chunks : List Bytes}
    (hchunks : ∀ chunk ∈ chunks, chunk ≠ []) :
    ∃ record, feedRecord {} chunks = some record ∧
      record.Good (contentReceived chunks.flatten) := by
  obtain ⟨record, hrun, hbehind⟩ :=
    feedRecord_standsBehind FcgiRecordList.standsBehind_new hchunks
  exact ⟨record, hrun, hbehind.good⟩

/-- A record that arrives in any chunks has its content in the buffer. -/
theorem feedRecord_encode (r : Record) {chunks : List Bytes} {rest : Bytes}
    (hchunks : ∀ chunk ∈ chunks, chunk ≠ [])
    (hbytes : chunks.flatten = r.encode ++ rest) :
    ∃ record, feedRecord {} chunks = some record ∧
      record.Good r.content := by
  obtain ⟨record, hrun, hgood⟩ := feedRecord_good hchunks
  rw [hbytes, contentReceived_encode] at hgood
  exact ⟨record, hrun, hgood⟩

/-! ### The loop -/

/-- The calls of `fcgiProcessContent` that the `while (1)` loop makes, each with
the bytes that were left of the chunk. -/
def contentCalls : Nat → FcgiRecordList → Bytes → List (Bytes × ContentCall)
  | 0, _, _ => []
  | fuel + 1, record, buf =>
      let calls := ((contentCall buf (renewRecord record)).map (buf, ·)).toList
      match fcgiProcessRecord buf (renewRecord record) with
      | none => calls
      | some a =>
          if (a.rv = .done ∧ endsResponse a.record.header.type) ∨
              a.moved = buf.length then calls
          else calls ++ contentCalls fuel a.record (buf.drop a.moved)

/-- Every call of the loop is safe, also when padding is skipped past the end of
the chunk. -/
theorem contentCalls_safe {fuel : Nat} {record : FcgiRecordList} {buf : Bytes}
    (hwf : record.WellFormed) (hbuf : buf ≠ [] ∨ record.state = .done) :
    ∀ p ∈ contentCalls fuel record buf, p.2.Safe p.1 := by
  induction fuel generalizing record buf with
  | zero =>
      intro p hp
      contradiction
  | succ fuel ih =>
      obtain ⟨hrenewWf, hrenewState⟩ := renewRecord_spec hwf
      by_cases hempty : buf = []
      · have hdone := hbuf.resolve_left fun hne => hne hempty
        have hnew : renewRecord record = {} := by
          rw [renewRecord, if_pos hdone]
        intro p hp
        rw [contentCalls, hempty, hnew] at hp
        contradiction
      · obtain ⟨received, hgood⟩ := hrenewWf.exists_good
        obtain ⟨a, hrun, hnext, hsafe⟩ :=
          fcgiProcessRecord_standsBehind hempty hgood hrenewState
        have hcalls : ∀ p ∈ ((contentCall buf (renewRecord record)).map
            (buf, ·)).toList, p.2.Safe p.1 := by
          intro p hp
          obtain ⟨call, hcall, rfl⟩ :=
            Option.map_eq_some_iff.mp (Option.mem_toList.mp hp)
          exact hsafe call hcall
        intro p hp
        simp only [contentCalls, hrun] at hp
        split at hp
        · exact hcalls p hp
        · next hgoesOn =>
            rcases List.mem_append.mp hp with hfirst | hlater
            · exact hcalls p hfirst
            · apply ih hnext.good.wellFormed ?_ p hlater
              obtain ⟨a', hrun', hstep⟩ :=
                fcgiProcessRecord_step hempty hrenewWf hrenewState
              obtain rfl := Option.some.inj (hrun.symm.trans hrun')
              rcases hstep.outcome with ⟨-, hdone⟩ | ⟨-, -, hall⟩
              · exact .inr hdone
              · exact absurd (.inr hall) hgoesOn

/-- A decoder that has been fed any chunks copies nothing outside its content
buffer or the next chunk. -/
theorem Fed.contentCalls_safe {parse : MimeHdrParse} {d : ResponseDecoder}
    {chunk : Bytes} (hfed : Fed parse d) (hchunk : chunk ≠ []) (fuel : Nat) :
    ∀ p ∈ contentCalls fuel (d.headerRecord.getD {}) chunk, p.2.Safe p.1 :=
  AtsFastcgi.contentCalls_safe hfed.wellFormed (.inl hchunk)

end AtsFastcgi
