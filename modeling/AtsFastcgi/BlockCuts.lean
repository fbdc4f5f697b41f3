/-
One read of `interceptTransferData` and the blocks its bytes come in.  The
block loop keeps the status of its last block and goes on after a block that
completed the response; what it returns and writes is that of the bytes, for
every cut into blocks, when no record is completed before the last byte and no
block can begin inside padding.
-/
import AtsFastcgi.AnswerStream
import AtsFastcgi.StatusLines

namespace AtsFastcgi

/-! ### The calls of one read -/

/-- The calls of the decoder on the blocks of a read. -/
def decodeCalls (parse : MimeHdrParse) :
    ResponseDecoder → List Bytes → Option (List BufferReturn)
  | _, [] => some []
  | d, block :: rest =>
      match fcgiDecodeRecordChunk parse d block with
      | .returned ret => (decodeCalls parse ret.decoder rest).map (ret :: ·)
      | _ => none

/-- The calls up to the one that completed the response. -/
def untilCompleted : List BufferReturn → List BufferReturn
  | [] => []
  | ret :: rest =>
      if ret.completed then [ret] else ret :: untilCompleted rest

/-- The status of the last call. -/
def lastStatus (calls : List BufferReturn) : Bool :=
  (calls.getLast?.map BufferReturn.completed).getD false

/-- What the calls wrote. -/
def writtenText (calls : List BufferReturn) : Bytes :=
  outputText (calls.flatMap BufferReturn.output)

@[simp] theorem writtenText_cons (ret : BufferReturn)
    (calls : List BufferReturn) :
    writtenText (ret :: calls) =
      outputText ret.output ++ writtenText calls := by
  rw [writtenText, List.flatMap_cons, outputText_append]
  rfl

theorem lastStatus_cons (ret : BufferReturn) {calls : List BufferReturn}
    (hcalls : calls ≠ []) : lastStatus (ret :: calls) = lastStatus calls := by
  obtain ⟨next, later, rfl⟩ := List.exists_cons_of_ne_nil hcalls
  rw [lastStatus, List.getLast?_cons_cons]
  rfl

theorem decodeCalls_cons {parse : MimeHdrParse} {d : ResponseDecoder}
    {block : Bytes} {ret : BufferReturn} (rest : List Bytes)
    (hret : fcgiDecodeRecordChunk parse d block = .returned ret) :
    decodeCalls parse d (block :: rest) =
      (decodeCalls parse ret.decoder rest).map (ret :: ·) := by
  rw [decodeCalls, hret]

theorem decodeCalls_ne_nil {parse : MimeHdrParse} {d : ResponseDecoder}
    {blocks : List Bytes} {calls : List BufferReturn} (hblocks : blocks ≠ [])
    (hrun : decodeCalls parse d blocks = some calls) : calls ≠ [] := by
  obtain ⟨block, rest, rfl⟩ := List.exists_cons_of_ne_nil hblocks
  rw [decodeCalls] at hrun
  split at hrun
  · obtain ⟨later, -, rfl⟩ := Option.map_eq_some_iff.mp hrun
    exact List.cons_ne_nil _ later
  · contradiction

/-- The block loop makes these calls. -/
theorem transferBlocks_calls (parse : MimeHdrParse) (t : Transfer)
    {blocks : List Bytes} (hne : ∀ block ∈ blocks, block ≠ []) :
    (transferBlocks parse t blocks).map
        (fun t' => (t'.responseStatus, t'.output)) =
      (decodeCalls parse t.decoder blocks).map fun calls =>
        ((calls.getLast?.map BufferReturn.completed).getD t.responseStatus,
          t.output ++ calls.flatMap BufferReturn.output) := by
  induction blocks generalizing t with
  | nil => simp [transferBlocks, decodeCalls]
  | cons block rest ih =>
      have hblock : block ≠ [] := hne block List.mem_cons_self
      rw [transferBlocks, if_neg hblock, decodeCalls]
      cases hret : fcgiDecodeRecordChunk parse t.decoder block with
      | readOutside => rfl
      | running => rfl
      | returned ret =>
          simp only
          rw [ih _ fun b hb => hne b (List.mem_cons_of_mem block hb),
            Option.map_map]
          apply congrArg (fun f => (decodeCalls parse ret.decoder rest).map f)
          funext calls
          cases calls with
          | nil => simp
          | cons next later =>
              simp [List.getLast?_cons]

/-- What a read returns and writes to the intercept. -/
def readResult (parse : MimeHdrParse) (c : ServerConnection)
    (i : ServerIntercept) : Option (Bool × Bytes) :=
  (interceptTransferData parse c i).map fun r =>
    (r.1, (r.2.2.deliveries.getLast?.map Delivery.text).getD [])

theorem readResult_eq (parse : MimeHdrParse) {c : ServerConnection}
    {client : FcgiClientRequest} (i : ServerIntercept)
    (hclient : c.fcgiRequest = some client)
    (hne : ∀ block ∈ c.reader, block ≠ []) :
    readResult parse c i = (decodeCalls parse client.decoder c.reader).map
      fun calls => (lastStatus calls, writtenText calls) := by
  have hcalls := transferBlocks_calls parse { decoder := client.decoder } hne
  have hresult : readResult parse c i =
      ((transferBlocks parse { decoder := client.decoder } c.reader).map
        (fun t => (t.responseStatus, t.output))).map
          fun r => (r.1, outputText r.2) := by
    simp only [readResult, interceptTransferData, hclient]
    cases transferBlocks parse { decoder := client.decoder } c.reader with
    | none => rfl
    | some t => simp [ServerIntercept.deliver, Delivery.text]
  rw [hresult, hcalls, Option.map_map]
  rfl

/-- Completion is kept over the blocks of a read: the loop returns true exactly
when a call did, nothing is written after that call, and the bytes have this
result however they are cut. -/
structure CompletionKept (parse : MimeHdrParse) (c : ServerConnection)
    (i : ServerIntercept) (d : ResponseDecoder) : Prop where
  kept : ∃ responseStatus text calls,
    readResult parse c i = some (responseStatus, text) ∧
    decodeCalls parse d c.reader = some calls ∧
    (responseStatus = true ↔ ∃ ret ∈ calls, ret.completed = true) ∧
    text = writtenText (untilCompleted calls)
  uncut : ∀ blocks : List Bytes, (∀ block ∈ blocks, block ≠ []) →
    blocks.flatten = c.reader.flatten →
    readResult parse { c with reader := blocks } i = readResult parse c i

/-! ### Every decoder stands in a stream of records -/

/-- A call that returns true leaves a finished record behind. -/
theorem renew_completed {parse : MimeHdrParse} {d : ResponseDecoder}
    {recs : List Record} {buf : Bytes} {ret : BufferReturn}
    (hrun : fcgiDecodeRecordChunk parse d buf = .returned ret)
    (hcompleted : ret.completed = true)
    (hdispatched : List.Forall₂ IsRecord ret.dispatched (untilEnd recs)) :
    renewRecord (ret.decoder.headerRecord.getD {}) = {} := by
  obtain ⟨last, hmem, hlast⟩ := fcgiProcessLoop_completed parse hrun hcompleted
  obtain ⟨r, -, hrecord⟩ := isRecord_of_mem hdispatched hmem
  rw [hlast]
  simp [renewRecord, hrecord.state]

/-- A long stream has a record at its front: the length fields announce at
most 65535 and 255 bytes. -/
theorem Record.exists_decode {stream : Bytes} (hlong : 65798 ≤ stream.length) :
    ∃ r rest, Record.decode stream = some (r, rest) := by
  match stream, hlong with
  | version :: type :: id1 :: id0 :: len1 :: len0 :: pad :: reserved :: rest,
      hlong =>
    have hhi := len1.toNat_lt
    have hlo := len0.toNat_lt
    have hpad := pad.toNat_lt
    have hfits : len1.toNat * 256 + len0.toNat + pad.toNat ≤ rest.length := by
      simp only [List.length_cons] at hlong
      omega
    simp only [Record.decode, hfits, if_true]
    exact ⟨_, _, rfl⟩

/-- Any bytes begin a stream of records. -/
theorem exists_stream (bytes : Bytes) :
    ∃ recs more, bytes ++ more = Record.code.encodeAll recs := by
  induction hn : bytes.length using Nat.strong_induction_on generalizing bytes
    with
  | _ n ih =>
      obtain ⟨zeros, hzeros⟩ : ∃ zeros : Bytes, zeros.length = 65798 :=
        ⟨List.replicate 65798 0, List.length_replicate⟩
      -- more bytes finish the record that the bytes begin
      have hlong : 65798 ≤ (bytes ++ zeros).length := by
        rw [List.length_append]
        omega
      obtain ⟨r, rest, hread⟩ := Record.exists_decode hlong
      rcases List.append_eq_append_iff.mp (Record.encode_of_decode hread) with
        ⟨more, hword, -⟩ | ⟨later, hbytes, -⟩
      · refine ⟨[r], more, ?_⟩
        rw [PrefixCode.encodeAll_cons, PrefixCode.encodeAll_nil,
          List.append_nil, Record.code_encode, hword]
      · have hge := r.encode_length_ge
        have hshorter : later.length < n := by
          rw [← hn, hbytes, List.length_append]
          omega
        obtain ⟨recs, more, hcut⟩ := ih later.length hshorter later rfl
        refine ⟨r :: recs, more, ?_⟩
        rw [PrefixCode.encodeAll_cons, Record.code_encode, ← hcut, hbytes,
          List.append_assoc]

/-- Whatever bytes come next, a decoder that has been fed is inside a record of
a stream that goes on with them. -/
theorem Fed.exists_aligned {parse : MimeHdrParse} {d : ResponseDecoder}
    (hfed : Fed parse d) (bytes : Bytes) :
    ∃ recs k more, AlignedAt (d.headerRecord.getD {}) recs k ∧
      bytes ++ more = (Record.code.encodeAll recs).drop k := by
  induction hfed generalizing bytes with
  | fresh =>
      obtain ⟨recs, more, hcut⟩ := exists_stream bytes
      exact ⟨recs, 0, more, alignedAt_zero recs rfl, hcut⟩
  | @chunk d chunk ret hfed hchunk hrun ih =>
      obtain ⟨recs, k, more, haligned, hcut⟩ := ih (chunk ++ bytes)
      rw [List.append_assoc] at hcut
      have hfinished :=
        CallFinished.of_returned parse haligned hchunk hcut hrun
      cases hcompleted : ret.completed with
      | true =>
          obtain ⟨recs', more', hcut'⟩ := exists_stream bytes
          refine ⟨recs', 0, more', alignedAt_zero recs' ?_, hcut'⟩
          exact renew_completed hrun hcompleted (hfinished.completed hcompleted)
      | false =>
          obtain ⟨fin, left, last, hsplit, -, -, hle, hlast, hal⟩ :=
            hfinished.continues hcompleted
          refine ⟨left, _, more, ?_, drop_after_chunk hcut hsplit hle⟩
          rw [hlast]
          exact hal

/-! ### Where a cut is harmless -/

/-- A block that begins with one of the next `n` bytes can begin inside padding
of which more than one byte is left. -/
def PaddingCut (recs : List Record) (k n : Nat) : Prop :=
  ∃ front r back j, recs = front ++ r :: back ∧
    k ≤ (Record.code.encodeAll front).length + j ∧
    (Record.code.encodeAll front).length + j < k + n ∧
    r.SkipsAt j ∧ j + 1 < r.encode.length

/-- The next `n` bytes of the stream complete no response before the last of
them, and they can be cut anywhere outside padding.  Inside the padding of a
record that ends the response there may be a single byte. -/
structure HarmlessAt (recs : List Record) (k n : Nat) : Prop where
  lastByte : (finishedBy recs (k + (n - 1))).any Record.ends = false
  padding : PaddingCut recs k n → n = 1 ∧ ∀ r ∈ recs.head?, r.ends = true

/-- However the bytes are cut into blocks, the decoder gets the same from them:
it stands in a stream of records which goes on with bytes that are harmless. -/
def ResponseDecoder.CutsHarmless (d : ResponseDecoder) (bytes : Bytes) : Prop :=
  ∃ recs k more, AlignedAt (d.headerRecord.getD {}) recs k ∧
    bytes ++ more = (Record.code.encodeAll recs).drop k ∧
    HarmlessAt recs k bytes.length

/-- Only the padding can make a call leave its block. -/
theorem outcomeNext_of_held {record : FcgiRecordList} {recs : List Record}
    {k : Nat} {buf more : Bytes} (haligned : AlignedAt record recs k)
    (hbuf : buf ≠ [])
    (hcut : buf ++ more = (Record.code.encodeAll recs).drop k)
    (hheld : ∀ r ∈ recs.head?, r.SkipsAt k →
      r.encode.length ≤ k + buf.length) : OutcomeNext recs k buf := by
  intro r hr
  cases recs with
  | nil => contradiction
  | cons head rest =>
      obtain rfl := Option.some.inj hr
      obtain ⟨hk, hle, -⟩ := haligned
      rw [PrefixCode.encodeAll_cons, Record.code_encode,
        List.drop_append_of_le_length hle] at hcut
      by_cases hempty : k = 8 ∧ head.content = []
      · -- the header has ended the last block and there is no content
        obtain ⟨rfl, hcontent⟩ := hempty
        have hcut' : buf ++ more = head.content.drop 0 ++
            (head.padding ++ (Record.code.encodeAll rest)) := by
          rw [hcut]
          have hdrop := head.encode_drop_content (Nat.zero_le _)
          rw [Nat.add_zero] at hdrop
          rw [hdrop, List.append_assoc]
        exact ⟨_, fcgiProcessRecord_content head (.inr rfl) hbuf,
          recordOutcome_copied head (Nat.zero_le _) hbuf hcut'⟩
      · obtain ⟨a, hrun, hout | hover⟩ :=
          fcgiProcessRecord_outcome head hk hle hbuf hcut
        · exact ⟨a, hrun, hout⟩
        · have hpadding := hover.padding
          have houtside := hover.outside
          rw [hover.moved] at houtside
          have hheader : 8 < k := by
            by_contra hle8
            apply hempty
            exact ⟨by omega, List.length_eq_zero_iff.mp (by omega)⟩
          have hends := hheld head rfl ⟨hheader, hpadding, by omega⟩
          omega

/-- A first block that stops inside padding cuts it. -/
theorem held_of_not_paddingCut {recs : List Record} {k m n : Nat}
    (hpadding : ¬ PaddingCut recs k n) (hm : 0 < m) (hle : m ≤ n) :
    ∀ r ∈ recs.head?, r.SkipsAt k → r.encode.length ≤ k + m := by
  intro r hr hskip
  by_contra hover
  cases recs with
  | nil => contradiction
  | cons head tail =>
      obtain rfl := Option.some.inj hr
      apply hpadding
      refine ⟨[], head, tail, k, rfl, ?_, ?_, hskip, ?_⟩
      · simp
      · simp only [PrefixCode.encodeAll_nil, List.length_nil]
        omega
      · omega

/-- More bytes finish more records. -/
theorem any_ends_finishedBy_of_le {recs : List Record} {m n : Nat}
    (hle : m ≤ n) (hnone : (finishedBy recs n).any Record.ends = false) :
    (finishedBy recs m).any Record.ends = false := by
  obtain ⟨rest, hsplit, -⟩ := finishedBy_prefix recs m
  obtain ⟨more, rfl⟩ := Nat.exists_eq_add_of_le hle
  rw [finishedBy_add recs rest m more hsplit, List.any_append,
    Bool.or_eq_false_iff] at hnone
  exact hnone.1

/-- The bytes after a block that completes nothing are as harmless. -/
theorem HarmlessAt.tail {recs left : List Record} {k m n : Nat} (hn : 0 < n)
    (hm : 0 < m) (h : HarmlessAt recs k (m + n))
    (hsplit : recs = finishedBy recs (k + m) ++ left) :
    HarmlessAt left (k + m -
      (Record.code.encodeAll (finishedBy recs (k + m))).length) n ∧
      ¬ PaddingCut left (k + m -
        (Record.code.encodeAll (finishedBy recs (k + m))).length) n := by
  obtain ⟨rest, hrest, hle⟩ := finishedBy_prefix recs (k + m)
  obtain rfl : left = rest :=
    List.append_cancel_left (hsplit.symm.trans hrest)
  have hcut : ¬ PaddingCut left (k + m -
      (Record.code.encodeAll (finishedBy recs (k + m))).length) n := by
    rintro ⟨front, r, back, j, hleft, hfrom, hto, hskip, hmore⟩
    have hone := h.padding ⟨finishedBy recs (k + m) ++ front, r, back, j, by
      rw [List.append_assoc, ← hleft]
      exact hsplit, by
      rw [PrefixCode.encodeAll_append, List.length_append]
      omega, by
      rw [PrefixCode.encodeAll_append, List.length_append]
      omega, hskip, hmore⟩
    omega
  refine ⟨⟨?_, fun hpad => absurd hpad hcut⟩, hcut⟩
  have hlast := h.lastByte
  have hcount : k + (m + n - 1) = k + m + (n - 1) := by omega
  rw [hcount, finishedBy_add recs left (k + m) (n - 1) hsplit, List.any_append,
    Bool.or_eq_false_iff] at hlast
  exact hlast.2

/-- The calls on harmless bytes: only the last can complete the response, and
what they say and write is that of the records the bytes finish. -/
structure RegularCalls (parse : MimeHdrParse) (d : ResponseDecoder)
    (fin : List Record) (calls : List BufferReturn) : Prop where
  goesOn : ∀ ret ∈ calls.dropLast, ret.completed = false
  completed : lastStatus calls = fin.any Record.ends
  text : writtenText calls =
    remainingText (statusText parse) d.firstChunk fin

/-- A block that completes nothing, and the calls after it. -/
theorem RegularCalls.cons {parse : MimeHdrParse} {d : ResponseDecoder}
    {recs left : List Record} {k n : Nat} {block : Bytes} {ret : BufferReturn}
    {calls : List BufferReturn}
    (hcall : RegularCall parse d recs k block ret)
    (hnone : (finishedBy recs (k + block.length)).any Record.ends = false)
    (hleft : recs = finishedBy recs (k + block.length) ++ left)
    (hne : calls ≠ [])
    (hcalls : RegularCalls parse ret.decoder (finishedBy left
      (k + block.length - (Record.code.encodeAll
        (finishedBy recs (k + block.length))).length + n)) calls) :
    RegularCalls parse d (finishedBy recs (k + (block.length + n)))
      (ret :: calls) := by
  have hadd := finishedBy_add recs left (k + block.length) n hleft
  rw [Nat.add_assoc] at hadd
  constructor
  · intro ret' hret'
    rw [List.dropLast_cons_of_ne_nil hne] at hret'
    rcases List.mem_cons.mp hret' with rfl | hlater
    · exact hcall.completed.trans hnone
    · exact hcalls.goesOn ret' hlater
  · rw [lastStatus_cons ret hne, hcalls.completed, hadd, List.any_append,
      hnone, Bool.false_or]
  · rw [writtenText_cons, hcall.text, hcalls.text, hcall.firstChunk, hadd,
      remainingText_append_of_not_ends _ _ _ hnone]

theorem decodeCalls_harmless (parse : MimeHdrParse) {d : ResponseDecoder}
    {recs : List Record} {k : Nat} {blocks : List Bytes} {more : Bytes}
    (haligned : AlignedAt (d.headerRecord.getD {}) recs k)
    (hne : ∀ block ∈ blocks, block ≠ [])
    (hcut : blocks.flatten ++ more = (Record.code.encodeAll recs).drop k)
    (hharmless : HarmlessAt recs k blocks.flatten.length)
    (hpadding : ¬ PaddingCut recs k blocks.flatten.length) :
    ∃ calls, decodeCalls parse d blocks = some calls ∧
      RegularCalls parse d (finishedBy recs (k + blocks.flatten.length))
        calls := by
  induction blocks generalizing d recs k with
  | nil =>
      refine ⟨[], rfl, fun ret hret => absurd hret List.not_mem_nil, ?_, ?_⟩
      · rw [List.flatten_nil, List.length_nil, Nat.add_zero,
          finishedBy_aligned haligned]
        rfl
      · rw [List.flatten_nil, List.length_nil, Nat.add_zero,
          finishedBy_aligned haligned]
        cases d.firstChunk <;> rfl
  | cons block rest ih =>
      have hblock : block ≠ [] := hne block List.mem_cons_self
      have hpos : 0 < block.length := List.length_pos_iff.mpr hblock
      rw [List.flatten_cons, List.append_assoc] at hcut
      rw [List.flatten_cons, List.length_append] at hharmless hpadding ⊢
      have hfirst : OutcomeNext recs k block :=
        outcomeNext_of_held haligned hblock hcut
          (held_of_not_paddingCut hpadding hpos (Nat.le_add_right _ _))
      obtain ⟨ret, hret, hcall⟩ :=
        regularCall_of_outcome parse haligned hblock hcut hfirst
      rw [decodeCalls_cons rest hret]
      by_cases hrest : rest = []
      · subst hrest
        refine ⟨[ret], rfl, ?_, ?_, ?_⟩
        · exact fun ret hret => absurd hret List.not_mem_nil
        · exact hcall.completed
        · rw [writtenText_cons, hcall.text]
          exact List.append_nil _
      · have hnext : 0 < rest.flatten.length := by
          obtain ⟨next, later, rfl⟩ := List.exists_cons_of_ne_nil hrest
          have hnext := hne next (by simp)
          rw [List.flatten_cons, List.length_append]
          have := List.length_pos_iff.mpr hnext
          omega
        have hnone : (finishedBy recs (k + block.length)).any Record.ends =
            false := any_ends_finishedBy_of_le (by omega) hharmless.lastByte
        have hgoesOn := hcall.completed.trans hnone
        obtain ⟨left, hleft, hal⟩ := hcall.aligned hgoesOn
        obtain ⟨hharmless', hpadding'⟩ := hharmless.tail hnext hpos hleft
        obtain ⟨rest', hrest', hle⟩ := finishedBy_prefix recs (k + block.length)
        obtain ⟨calls, hrun, hcalls⟩ := ih hal
          (fun b hb => hne b (List.mem_cons_of_mem block hb))
          (drop_after_chunk hcut hleft hle) hharmless' hpadding'
        refine ⟨ret :: calls, by rw [hrun]; rfl, ?_⟩
        exact .cons hcall hnone hleft (decodeCalls_ne_nil hrest hrun) hcalls

/-! ### Where a cut is not -/

/-- The status of a read that is made. -/
def finalStatus (parse : MimeHdrParse) (d : ResponseDecoder)
    (blocks : List Bytes) : Option Bool :=
  (decodeCalls parse d blocks).map lastStatus

/-- The status does not depend on how the bytes are cut into blocks. -/
def CutsAgree (parse : MimeHdrParse) (d : ResponseDecoder) (bytes : Bytes) :
    Prop :=
  ∃ status, ∀ blocks : List Bytes, (∀ block ∈ blocks, block ≠ []) →
    blocks.flatten = bytes → finalStatus parse d blocks = some status

theorem finalStatus_single {parse : MimeHdrParse} {d : ResponseDecoder}
    {block : Bytes} {ret : BufferReturn}
    (hret : fcgiDecodeRecordChunk parse d block = .returned ret) :
    finalStatus parse d [block] = some ret.completed := by
  rw [finalStatus, decodeCalls_cons [] hret]
  rfl

theorem finalStatus_cons {parse : MimeHdrParse} {d : ResponseDecoder}
    {block : Bytes} {ret : BufferReturn} {rest : List Bytes}
    (hret : fcgiDecodeRecordChunk parse d block = .returned ret)
    (hrest : rest ≠ []) :
    finalStatus parse d (block :: rest) =
      finalStatus parse ret.decoder rest := by
  rw [finalStatus, finalStatus, decodeCalls_cons rest hret, Option.map_map]
  cases hrun : decodeCalls parse ret.decoder rest with
  | none => rfl
  | some calls =>
      exact congrArg some (lastStatus_cons ret (decodeCalls_ne_nil hrest hrun))

/-- Agreement on the bytes is agreement on what is left after a block. -/
theorem CutsAgree.tail {parse : MimeHdrParse} {d : ResponseDecoder}
    {front back : Bytes} {ret : BufferReturn}
    (hagree : CutsAgree parse d (front ++ back)) (hfront : front ≠ [])
    (hback : back ≠ [])
    (hret : fcgiDecodeRecordChunk parse d front = .returned ret) :
    CutsAgree parse ret.decoder back := by
  obtain ⟨status, hstatus⟩ := hagree
  refine ⟨status, ?_⟩
  rintro blocks hne rfl
  have hblocks : blocks ≠ [] := by
    rintro rfl
    exact hback rfl
  rw [← finalStatus_cons hret hblocks]
  apply hstatus
  · intro block hblock
    rcases List.mem_cons.mp hblock with rfl | hlater
    · exact hfront
    · exact hne block hlater
  · rfl

/-- Two blocks have the status of the one they make up. -/
theorem CutsAgree.finalStatus_pair {parse : MimeHdrParse} {d : ResponseDecoder}
    {front back : Bytes} {ret whole : BufferReturn}
    (hagree : CutsAgree parse d (front ++ back)) (hfront : front ≠ [])
    (hback : back ≠ [])
    (hret : fcgiDecodeRecordChunk parse d front = .returned ret)
    (hwhole : fcgiDecodeRecordChunk parse d (front ++ back) =
      .returned whole) :
    finalStatus parse ret.decoder [back] = some whole.completed := by
  obtain ⟨status, hstatus⟩ := hagree
  have hsingle := hstatus [front ++ back] (by simp [hfront]) (by simp)
  have hdouble := hstatus [front, back] (by simp [hfront, hback]) (by simp)
  rw [finalStatus_single hwhole] at hsingle
  rw [finalStatus_cons hret (List.cons_ne_nil _ _)] at hdouble
  exact hdouble.trans hsingle.symm

theorem finishedBy_of_le_eight (recs : List Record) {n : Nat} (hn : n ≤ 8) :
    finishedBy recs n = [] := by
  cases recs with
  | nil => rfl
  | cons r rest =>
      rw [finishedBy, if_neg]
      exact fun hfin => absurd hfin.2 (Nat.not_lt.mpr hn)

/-- A single byte begins a record and completes nothing. -/
theorem finalStatus_byte (parse : MimeHdrParse) {d : ResponseDecoder}
    (hrenew : renewRecord (d.headerRecord.getD {}) = {}) (b : UInt8) :
    finalStatus parse d [[b]] = some false := by
  obtain ⟨recs, more, hcut⟩ := exists_stream [b]
  have haligned := alignedAt_zero recs hrenew
  have hbyte : [b] ≠ [] := List.cons_ne_nil b []
  have hfirst := outcomeNext_of_held haligned hbyte hcut
    fun r _ hskip => absurd hskip.1 (Nat.not_lt_zero 8)
  obtain ⟨ret, hret, hcall⟩ :=
    regularCall_of_outcome parse haligned hbyte hcut hfirst
  rw [finalStatus_single hret, hcall.completed,
    finishedBy_of_le_eight recs (by simp)]
  rfl

/-- A response that a block completes, with one byte behind it, is not
completed when that byte is a block of its own. -/
theorem not_cutsAgree_of_early {parse : MimeHdrParse} {d : ResponseDecoder}
    {front : Bytes} {b : UInt8} {ret whole : BufferReturn}
    (hfront : front ≠ [])
    (hret : fcgiDecodeRecordChunk parse d front = .returned ret)
    (hrenew : renewRecord (ret.decoder.headerRecord.getD {}) = {})
    (hwhole : fcgiDecodeRecordChunk parse d (front ++ [b]) = .returned whole)
    (hcompleted : whole.completed = true) :
    ¬ CutsAgree parse d (front ++ [b]) := by
  intro hagree
  have hpair := hagree.finalStatus_pair hfront (List.cons_ne_nil b []) hret
    hwhole
  rw [finalStatus_byte parse hrenew, hcompleted] at hpair
  contradiction

/-- In the padding of a record that ends the response, any block completes
it. -/
theorem skipCall_ends (parse : MimeHdrParse) {d : ResponseDecoder}
    {r : Record} {back : List Record} {k : Nat} {buf : Bytes}
    (haligned : AlignedAt (d.headerRecord.getD {}) (r :: back) k)
    (hskip : r.SkipsAt k) (hends : r.ends = true) (hbuf : buf ≠ []) :
    ∃ ret, fcgiDecodeRecordChunk parse d buf = .returned ret ∧
      ret.completed = true ∧
      renewRecord (ret.decoder.headerRecord.getD {}) = {} := by
  obtain ⟨a, hrun, hrv, hrecord, -⟩ := fcgiProcessRecord_skips r hskip hbuf
  have hlast : endsResponse a.record.header.type = true := by
    rw [hrecord.header]
    exact hends
  rw [fcgiDecodeRecordChunk, fcgiProcessBuffer, fcgiProcessLoop,
    haligned.2.2, hrun]
  simp only [hrv, hlast, if_true]
  refine ⟨_, rfl, rfl, ?_⟩
  simp [renewRecord, hrecord.state]

/-- In the padding of another record, a block that ends before the padding is
left. -/
theorem skipCall_outside (parse : MimeHdrParse) {d : ResponseDecoder}
    {r : Record} {back : List Record} {k : Nat} {buf : Bytes}
    (haligned : AlignedAt (d.headerRecord.getD {}) (r :: back) k)
    (hskip : r.SkipsAt k) (hends : r.ends = false) (hbuf : buf ≠ [])
    (hshort : k + buf.length < r.encode.length) :
    fcgiDecodeRecordChunk parse d buf = .readOutside := by
  obtain ⟨a, hrun, hrv, hrecord, hmoved⟩ :=
    fcgiProcessRecord_skips r hskip hbuf
  have hlast : endsResponse a.record.header.type = false := by
    rw [hrecord.header]
    exact hends
  have hnil : buf.drop a.moved = [] := List.drop_eq_nil_of_le (by omega)
  have hoff : a.moved ≠ buf.length := by omega
  rw [fcgiDecodeRecordChunk, fcgiProcessBuffer, fcgiProcessLoop,
    haligned.2.2, hrun]
  simp only [hrv, hlast, if_true, Bool.false_eq_true, if_false, hoff, hnil]
  simp [fcgiProcessLoop, renewRecord, hrecord.state, fcgiProcessRecord,
    FcgiState.beforeContent, BufferRun.after]

/-- The cuts of bytes that begin inside padding only agree on a single byte,
where the padding is that of a record that ends the response. -/
theorem CutsAgree.of_skips {parse : MimeHdrParse} {d : ResponseDecoder}
    {r : Record} {back : List Record} {k : Nat} {bytes : Bytes}
    (hagree : CutsAgree parse d bytes) (hbytes : bytes ≠ [])
    (haligned : AlignedAt (d.headerRecord.getD {}) (r :: back) k)
    (hskip : r.SkipsAt k) (hmore : k + 1 < r.encode.length) :
    r.ends = true ∧ bytes.length = 1 := by
  have hends : r.ends = true := by
    by_contra hnot
    rw [Bool.not_eq_true] at hnot
    obtain ⟨b, rest, rfl⟩ := List.exists_cons_of_ne_nil hbytes
    obtain ⟨status, hstatus⟩ := hagree
    have houtside := skipCall_outside parse haligned hskip hnot
      (List.cons_ne_nil b []) (by simpa using hmore)
    -- the byte is a block of its own, and the rest is one if there is any
    have hnone : ∀ later, finalStatus parse d ([b] :: later) = none := by
      intro later
      rw [finalStatus, decodeCalls, houtside]
      rfl
    by_cases hrest : rest = []
    · have hone := hstatus [[b]] (by simp) (by simp [hrest])
      rw [hnone] at hone
      contradiction
    · have htwo := hstatus [[b], rest] (by simp [hrest]) (by simp)
      rw [hnone] at htwo
      contradiction
  refine ⟨hends, ?_⟩
  obtain ⟨front, b, hfront⟩ := (List.eq_nil_or_concat bytes).resolve_left hbytes
  rw [List.concat_eq_append] at hfront
  subst hfront
  by_cases hempty : front = []
  · rw [hempty]
    rfl
  · obtain ⟨ret, hret, -, hrenew⟩ :=
      skipCall_ends parse haligned hskip hends hempty
    obtain ⟨whole, hwhole, hcompleted, -⟩ :=
      skipCall_ends parse haligned hskip hends hbytes
    exact absurd hagree
      (not_cutsAgree_of_early hempty hret hrenew hwhole hcompleted)

/-- Cuts that agree complete nothing before the last byte. -/
theorem CutsAgree.lastByte {parse : MimeHdrParse} {d : ResponseDecoder}
    {recs : List Record} {k : Nat} {bytes more : Bytes}
    (hagree : CutsAgree parse d bytes)
    (haligned : AlignedAt (d.headerRecord.getD {}) recs k)
    (hcut : bytes ++ more = (Record.code.encodeAll recs).drop k) :
    (finishedBy recs (k + (bytes.length - 1))).any Record.ends = false := by
  by_contra hends
  rw [Bool.not_eq_false] at hends
  have hbytes : bytes ≠ [] := by
    rintro rfl
    rw [List.length_nil, Nat.add_zero, finishedBy_aligned haligned] at hends
    contradiction
  obtain ⟨front, b, hfront⟩ := (List.eq_nil_or_concat bytes).resolve_left hbytes
  rw [List.concat_eq_append] at hfront
  subst hfront
  have hlen : (front ++ [b]).length = front.length + 1 := by simp
  rw [hlen, Nat.add_sub_cancel] at hends
  have hempty : front ≠ [] := by
    rintro rfl
    rw [List.length_nil, Nat.add_zero, finishedBy_aligned haligned] at hends
    contradiction
  -- the first record is finished by the front, so no call overshoots
  have hheld : ∀ r ∈ recs.head?, r.SkipsAt k →
      r.encode.length ≤ k + front.length := by
    intro r hr _
    cases recs with
    | nil => contradiction
    | cons head tail =>
        obtain rfl := Option.some.inj hr
        by_contra hover
        rw [finishedBy, if_neg fun hfin => hover hfin.1] at hends
        contradiction
  have hcut' : front ++ ([b] ++ more) =
      (Record.code.encodeAll recs).drop k := by
    rw [← List.append_assoc]
    exact hcut
  obtain ⟨ret, hret, hcall⟩ := regularCall_of_outcome parse haligned hempty
    hcut' (outcomeNext_of_held haligned hempty hcut' hheld)
  obtain ⟨whole, hwhole, hwholeCall⟩ := regularCall_of_outcome parse haligned
    hbytes hcut (outcomeNext_of_held haligned hbytes hcut
      fun r hr hskip => by
        have hle := hheld r hr hskip
        omega)
  have hcompleted : whole.completed = true := by
    rw [hwholeCall.completed]
    by_contra hnone
    rw [Bool.not_eq_true] at hnone
    have hearlier := any_ends_finishedBy_of_le (m := k + front.length)
      (by omega) hnone
    rw [hends] at hearlier
    contradiction
  have hrenew := renew_completed hret (hcall.completed.trans hends)
    hcall.dispatched
  exact not_cutsAgree_of_early hempty hret hrenew hwhole hcompleted hagree

/-- The records in front of one that the decoder is inside of are finished. -/
theorem finishedBy_front (front : List Record) {r : Record}
    {back : List Record} {j : Nat} (hheader : 8 < j)
    (hinside : j < r.encode.length) :
    finishedBy (front ++ r :: back)
      ((Record.code.encodeAll front).length + j) = front := by
  induction front with
  | nil =>
      rw [List.nil_append, PrefixCode.encodeAll_nil, List.length_nil,
        Nat.zero_add, finishedBy, if_neg]
      exact fun hfin => absurd hfin.1 (Nat.not_le.mpr hinside)
  | cons head tail ih =>
      have hlen : (Record.code.encodeAll (head :: tail)).length + j =
          head.encode.length + ((Record.code.encodeAll tail).length + j) := by
        rw [PrefixCode.encodeAll_cons, Record.code_encode, List.length_append,
          Nat.add_assoc]
      have hfinished : head.FinishedAt (head.encode.length +
          ((Record.code.encodeAll tail).length + j)) :=
        ⟨Nat.le_add_right _ _, by omega⟩
      rw [hlen, List.cons_append, finishedBy, if_pos hfinished,
        Nat.add_sub_cancel_left, ih]

/-- A regular call on bytes that end inside of a record leaves the decoder
there. -/
theorem RegularCall.inside {parse : MimeHdrParse} {d : ResponseDecoder}
    {front back : List Record} {r : Record} {k j : Nat} {buf : Bytes}
    {ret : BufferReturn}
    (hcall : RegularCall parse d (front ++ r :: back) k buf ret)
    (hlen : k + buf.length = (Record.code.encodeAll front).length + j)
    (hheader : 8 < j) (hinside : j < r.encode.length)
    (hnone : front.any Record.ends = false) :
    ret.completed = false ∧
      AlignedAt (ret.decoder.headerRecord.getD {}) (r :: back) j := by
  have hfinished : finishedBy (front ++ r :: back) (k + buf.length) =
      front := by
    rw [hlen]
    exact finishedBy_front front hheader hinside
  have hgoesOn : ret.completed = false := by
    rw [hcall.completed, hfinished]
    exact hnone
  refine ⟨hgoesOn, ?_⟩
  obtain ⟨left, hleft, haligned⟩ := hcall.aligned hgoesOn
  rw [hfinished] at hleft haligned
  obtain rfl : r :: back = left := List.append_cancel_left hleft
  rw [hlen, Nat.add_sub_cancel_left] at haligned
  exact haligned

/-- A padding the decoder stands in is that of its first record. -/
theorem AlignedAt.eq_of_skipsAt {record : FcgiRecordList}
    {front back : List Record} {r : Record} {j k : Nat}
    (haligned : AlignedAt record (front ++ r :: back) k) (hskip : r.SkipsAt j)
    (heq : k = (Record.code.encodeAll front).length + j) :
    front = [] ∧ j = k := by
  cases front with
  | nil => exact ⟨rfl, by simp [heq]⟩
  | cons first rest =>
      have hle : k ≤ first.encode.length := haligned.2.1
      have hheader := hskip.1
      rw [PrefixCode.encodeAll_cons, Record.code_encode,
        List.length_append] at heq
      omega

/-- Bytes whose cuts agree are harmless. -/
theorem CutsAgree.harmlessAt {parse : MimeHdrParse} {d : ResponseDecoder}
    {recs : List Record} {k : Nat} {bytes more : Bytes}
    (hagree : CutsAgree parse d bytes)
    (haligned : AlignedAt (d.headerRecord.getD {}) recs k)
    (hcut : bytes ++ more = (Record.code.encodeAll recs).drop k) :
    HarmlessAt recs k bytes.length := by
  have hlast := hagree.lastByte haligned hcut
  refine ⟨hlast, ?_⟩
  rintro ⟨front, r, back, j, hsplit, hfrom, hto, hskip, hmore⟩
  have hbytes : bytes ≠ [] := List.ne_nil_of_length_pos (by omega)
  by_cases hhead : ∃ head ∈ recs.head?,
      head.SkipsAt k ∧ k + 1 < head.encode.length
  · obtain ⟨head, hmem, hskip', hmore'⟩ := hhead
    cases recs with
    | nil => contradiction
    | cons first rest =>
        obtain rfl := Option.some.inj hmem
        obtain ⟨hends, hone⟩ :=
          hagree.of_skips hbytes haligned hskip' hmore'
        refine ⟨hone, ?_⟩
        rintro r' hr'
        obtain rfl := Option.some.inj hr'
        exact hends
  · -- the block that ends where the padding is cut is a regular one
    exfalso
    have hheld : ∀ buf : Bytes, buf ≠ [] → ∀ head ∈ recs.head?,
        head.SkipsAt k → head.encode.length ≤ k + buf.length := by
      intro buf hbuf head hmem hskip'
      have hpos := List.length_pos_iff.mpr hbuf
      by_contra hover
      exact hhead ⟨head, hmem, hskip', by omega⟩
    have hinside : k < (Record.code.encodeAll front).length + j := by
      apply Nat.lt_of_le_of_ne hfrom
      intro heq
      subst hsplit
      obtain ⟨rfl, rfl⟩ := haligned.eq_of_skipsAt hskip heq
      exact hhead ⟨r, rfl, hskip, hmore⟩
    obtain ⟨pre, post, rfl, hpre⟩ : ∃ pre post, bytes = pre ++ post ∧
        k + pre.length = (Record.code.encodeAll front).length + j := by
      let n := (Record.code.encodeAll front).length + j - k
      refine ⟨bytes.take n, bytes.drop n,
        (List.take_append_drop n bytes).symm, ?_⟩
      rw [List.length_take]
      omega
    rw [List.length_append] at hto hlast
    have hpreNe : pre ≠ [] := List.ne_nil_of_length_pos (by omega)
    have hpostNe : post ≠ [] := List.ne_nil_of_length_pos (by omega)
    have hcut' : pre ++ (post ++ more) =
        (Record.code.encodeAll recs).drop k := by
      rw [← List.append_assoc]
      exact hcut
    obtain ⟨ret, hret, hcall⟩ := regularCall_of_outcome parse haligned hpreNe
      hcut' (outcomeNext_of_held haligned hpreNe hcut' (hheld pre hpreNe))
    subst hsplit
    have hnone : front.any Record.ends = false := by
      have hearlier := any_ends_finishedBy_of_le (m := k + pre.length)
        (by omega) hlast
      rw [hpre, finishedBy_front front hskip.1 hskip.2.2] at hearlier
      exact hearlier
    obtain ⟨-, haligned'⟩ := hcall.inside hpre hskip.1 hskip.2.2 hnone
    obtain ⟨hends, hone⟩ := (hagree.tail hpreNe hpostNe hret).of_skips hpostNe
      haligned' hskip hmore
    -- one block leaves the record unfinished, two complete the response
    obtain ⟨whole, hwhole, hwholeCall⟩ := regularCall_of_outcome parse
      haligned hbytes hcut
        (outcomeNext_of_held haligned hbytes hcut (hheld _ hbytes))
    have hcount : k + (pre ++ post).length =
        (Record.code.encodeAll front).length + (j + 1) := by
      rw [List.length_append]
      omega
    obtain ⟨hunfinished, -⟩ := hwholeCall.inside hcount
      (Nat.lt_succ_of_lt hskip.1) hmore hnone
    obtain ⟨last, hlastCall, hcompleted, -⟩ :=
      skipCall_ends parse haligned' hskip hends hpostNe
    have hpair := hagree.finalStatus_pair hpreNe hpostNe hret hwhole
    rw [finalStatus_single hlastCall, hcompleted, hunfinished] at hpair
    contradiction

/-! ### The read of a connection -/

theorem untilCompleted_of_goesOn {calls : List BufferReturn}
    (hgoesOn : ∀ ret ∈ calls.dropLast, ret.completed = false) :
    untilCompleted calls = calls := by
  induction calls with
  | nil => rfl
  | cons ret rest ih =>
      rw [untilCompleted]
      cases rest with
      | nil => split <;> rfl
      | cons next later =>
          rw [List.dropLast_cons_of_ne_nil (List.cons_ne_nil _ _)] at hgoesOn
          rw [hgoesOn ret List.mem_cons_self, ih fun ret' hret' =>
            hgoesOn ret' (List.mem_cons_of_mem ret hret')]
          rfl

theorem lastStatus_eq_true_iff {calls : List BufferReturn}
    (hgoesOn : ∀ ret ∈ calls.dropLast, ret.completed = false) :
    lastStatus calls = true ↔ ∃ ret ∈ calls, ret.completed = true := by
  induction calls with
  | nil => simp [lastStatus]
  | cons ret rest ih =>
      cases rest with
      | nil => simp [lastStatus]
      | cons next later =>
          rw [List.dropLast_cons_of_ne_nil (List.cons_ne_nil _ _)] at hgoesOn
          rw [lastStatus_cons ret (List.cons_ne_nil _ _), ih fun ret' hret' =>
            hgoesOn ret' (List.mem_cons_of_mem ret hret')]
          have hfirst := hgoesOn ret List.mem_cons_self
          simp [hfirst]

/-- A single byte comes in one block. -/
theorem eq_singleton_of_flatten {blocks : List Bytes} {b : UInt8}
    (hne : ∀ block ∈ blocks, block ≠ []) (hbyte : blocks.flatten = [b]) :
    blocks = [[b]] := by
  cases blocks with
  | nil => contradiction
  | cons block rest =>
      have hblock : block ≠ [] := hne block List.mem_cons_self
      rw [List.flatten_cons] at hbyte
      rcases List.append_eq_singleton_iff.mp hbyte with ⟨hnil, -⟩ |
        ⟨rfl, hrest⟩
      · exact absurd hnil hblock
      · cases rest with
        | nil => rfl
        | cons next later =>
            rw [List.flatten_cons, List.append_eq_nil_iff] at hrest
            exact absurd hrest.1
              (hne next (List.mem_cons_of_mem _ List.mem_cons_self))

section Read

variable {parse : MimeHdrParse} {c : ServerConnection}
  {client : FcgiClientRequest} {i : ServerIntercept}

theorem CompletionKept.cutsAgree
    (h : CompletionKept parse c i client.decoder)
    (hclient : c.fcgiRequest = some client) :
    CutsAgree parse client.decoder c.reader.flatten := by
  obtain ⟨responseStatus, text, calls, hresult, -, -, -⟩ := h.kept
  refine ⟨responseStatus, ?_⟩
  intro blocks hne hflatten
  have hsame := (h.uncut blocks hne hflatten).trans hresult
  rw [readResult_eq parse (c := { c with reader := blocks }) i hclient hne,
    Option.map_eq_some_iff] at hsame
  obtain ⟨calls', hcalls', hpair⟩ := hsame
  have hstatus : lastStatus calls' = responseStatus := congrArg Prod.fst hpair
  have hrun : decodeCalls parse client.decoder blocks = some calls' := hcalls'
  rw [finalStatus, hrun, ← hstatus]
  rfl

theorem completionKept_of_cutsHarmless
    (hclient : c.fcgiRequest = some client)
    (hne : ∀ block ∈ c.reader, block ≠ [])
    (h : client.decoder.CutsHarmless c.reader.flatten) :
    CompletionKept parse c i client.decoder := by
  obtain ⟨recs, k, more, haligned, hcut, hharmless⟩ := h
  by_cases hpadding : PaddingCut recs k c.reader.flatten.length
  · -- one byte of the padding of a record that ends the response
    obtain ⟨hone, hends⟩ := hharmless.padding hpadding
    obtain ⟨front, r, back, j, hsplit, hfrom, hto, hskip, -⟩ := hpadding
    obtain ⟨b, hb⟩ := List.length_eq_one_iff.mp hone
    have hreader := eq_singleton_of_flatten hne hb
    subst hsplit
    obtain ⟨rfl, rfl⟩ := haligned.eq_of_skipsAt hskip (by omega)
    obtain ⟨ret, hret, hcompleted, -⟩ := skipCall_ends parse haligned hskip
      (hends r rfl) (List.cons_ne_nil b [])
    have hrun : decodeCalls parse client.decoder c.reader = some [ret] := by
      rw [hreader, decodeCalls_cons [] hret]
      rfl
    have hresult := readResult_eq parse i hclient hne
    rw [hrun, Option.map_some] at hresult
    refine ⟨⟨_, _, [ret], hresult, hrun, ?_, ?_⟩, ?_⟩
    · simp [lastStatus]
    · rw [untilCompleted, if_pos hcompleted]
    · intro blocks hne' hflatten
      rw [eq_singleton_of_flatten hne' (hflatten.trans hb), ← hreader]
  · obtain ⟨calls, hrun, hcalls⟩ :=
      decodeCalls_harmless parse haligned hne hcut hharmless hpadding
    have hresult := readResult_eq parse i hclient hne
    rw [hrun, Option.map_some] at hresult
    refine ⟨⟨_, _, calls, hresult, hrun, ?_, ?_⟩, ?_⟩
    · exact lastStatus_eq_true_iff hcalls.goesOn
    · rw [untilCompleted_of_goesOn hcalls.goesOn]
    · intro blocks hne' hflatten
      rw [← hflatten] at hcut hharmless hpadding
      obtain ⟨calls', hrun', hcalls'⟩ :=
        decodeCalls_harmless parse haligned hne' hcut hharmless hpadding
      have hresult' := readResult_eq parse (c := { c with reader := blocks }) i
        hclient hne'
      have hrun'' : decodeCalls parse client.decoder
          { c with reader := blocks }.reader = some calls' := hrun'
      rw [hrun'', Option.map_some] at hresult'
      rw [hresult', hresult, hcalls'.completed, hcalls'.text, hflatten,
        hcalls.completed, hcalls.text]

end Read

/-- Completion is kept over the blocks of a read exactly when its bytes are
harmless wherever they are cut. -/
theorem completionKept_iff_cutsHarmless (parse : MimeHdrParse)
    (c : ServerConnection) (i : ServerIntercept) (client : FcgiClientRequest)
    (hclient : c.fcgiRequest = some client) (hfed : Fed parse client.decoder)
    (hne : ∀ block ∈ c.reader, block ≠ []) :
    CompletionKept parse c i client.decoder ↔
      client.decoder.CutsHarmless c.reader.flatten := by
  constructor
  · intro h
    obtain ⟨recs, k, more, haligned, hcut⟩ :=
      hfed.exists_aligned c.reader.flatten
    exact ⟨recs, k, more, haligned, hcut,
      (h.cutsAgree hclient).harmlessAt haligned hcut⟩
  · exact completionKept_of_cutsHarmless hclient hne

/-- Records without padding can be cut anywhere. -/
theorem not_paddingCut_of_no_padding {recs : List Record}
    (hnone : ∀ r ∈ recs, r.padding = []) (k n : Nat) :
    ¬ PaddingCut recs k n := by
  rintro ⟨front, r, back, j, rfl, -, -, ⟨-, hcontent, hinside⟩, -⟩
  have hr := hnone r (by simp)
  rw [r.encode_length, hr, List.length_nil] at hinside
  omega

namespace BlockCutsWitness

open DecoderRefinementWitness (stdout endRequest chunks)
open DecoderSafetyWitness (parse)
open StatusLinesWitness (stderr)

def client : FcgiClientRequest where
  requestId := 1
  requestHeaders := ∅
  capacity := BUF_SIZE

/-- A connection whose request has read nothing of its response yet. -/
def reading (blocks : List Bytes) : ServerConnection :=
  { alive := true, vc := true, state := .inuse, requestId := 1
    fcgiRequest := some client, reader := blocks }

/-- An error in one block and content in the next one. -/
def errorBlocks : List Bytes := [stderr.encode, stdout.encode]

theorem not_always_completionKept :
    ¬ ∀ (parse : MimeHdrParse) (c : ServerConnection) (i : ServerIntercept)
      (client : FcgiClientRequest), c.fcgiRequest = some client →
      Fed parse client.decoder → (∀ block ∈ c.reader, block ≠ []) →
      CompletionKept parse c i client.decoder := by
  intro h
  obtain ⟨responseStatus, text, calls, hresult, hcalls, hstatus, -⟩ :=
    (h parse (reading errorBlocks) {} client rfl .fresh (by decide)).kept
  have hfalse : (readResult parse (reading errorBlocks) {}).map Prod.fst =
      some false := by decide +kernel
  have hany : (decodeCalls parse client.decoder errorBlocks).map
      (fun calls => calls.any BufferReturn.completed) = some true := by
    decide +kernel
  rw [hresult] at hfalse
  obtain rfl : responseStatus = false := Option.some.inj hfalse
  have hcalls' : decodeCalls parse client.decoder errorBlocks = some calls :=
    hcalls
  rw [hcalls', Option.map_some, Option.some.injEq, List.any_eq_true] at hany
  exact Bool.noConfusion (hstatus.mpr hany)

/-- A response in three blocks, with the end of the request at their end. -/
theorem completionKept_chunks :
    CompletionKept parse (reading chunks) {} client.decoder := by
  apply (completionKept_iff_cutsHarmless parse (reading chunks) {} client rfl
    .fresh (by decide)).mpr
  refine ⟨[stdout, endRequest], 0, [], alignedAt_zero _ rfl, by decide,
    by decide, fun hpadding => ?_⟩
  exact absurd hpadding (not_paddingCut_of_no_padding (by decide) _ _)

end BlockCutsWitness

end AtsFastcgi
