/-
The status lines of a response.  What the calls of the decoder insert into the
output is determined by the records up to the end of the response: the status
line of the first record, then what each record adds.
-/
import AtsFastcgi.DecoderRefinement

namespace AtsFastcgi

/-! ### The first record -/

/-- The parser reads the header block of the content to its end, and what it
prints back differs or can be asked for the status. -/
def ParsesHeader (parse : MimeHdrParse) (content : Bytes) : Prop :=
  (parse (cString (headerString content))).1 = .done ∧
    (cString (headerString content) =
        cString (parse (cString (headerString content))).2.printed →
      (parse (cString (headerString content))).2.isInitialized = true)

instance (parse : MimeHdrParse) (content : Bytes) :
    Decidable (ParsesHeader parse content) :=
  inferInstanceAs (Decidable (_ ∧ (_ → _)))

theorem statusLine_eq_none_iff (parse : MimeHdrParse) (content : Bytes) :
    statusLine parse content = none ↔ ¬ ParsesHeader parse content := by
  simp only [statusLine, ParsesHeader]
  split
  · next hdone =>
      split
      · next hprinted =>
          split
          · next hinit =>
              cases (parse (cString (headerString content))).2.status <;>
                simp [hdone, hinit]
          · next hinit => simp [hprinted.symm, hinit]
      · next hprinted => simp [hdone, hprinted]
  · next hdone => simp [hdone]

theorem statusOutput_eq_nil_iff (parse : MimeHdrParse) (content : Bytes) :
    statusOutput parse true content = [] ↔ ¬ ParsesHeader parse content := by
  rw [← statusLine_eq_none_iff, statusOutput, if_pos rfl]
  cases statusLine parse content <;> simp

/-! ### Any run of the decoder -/

/-- What a call that returned has done to an aligned stream: it finished the
records up to the end of the response, or some records that do not end it. -/
structure CallFinished (recs : List Record) (k : Nat) (buf : Bytes)
    (ret : BufferReturn) : Prop where
  completed : ret.completed = true →
    List.Forall₂ IsRecord ret.dispatched (untilEnd recs)
  continues : ret.completed = false → ∃ fin left last,
    recs = fin ++ left ∧ fin.any Record.ends = false ∧
    List.Forall₂ IsRecord ret.dispatched fin ∧
    (Record.code.encodeAll fin).length ≤ k + buf.length ∧
    ret.decoder.headerRecord = some last ∧
    AlignedAt last left
      (k + buf.length - (Record.code.encodeAll fin).length)

/-- A chunk that holds only a part of the padding: the record is finished, and
only the end of the response keeps the call from reading outside. -/
theorem CallFinished.of_overshoots (parse : MimeHdrParse) {fuel : Nat}
    {firstChunk : Bool} {record : FcgiRecordList} {r : Record}
    {rest : List Record} {k : Nat} {buf : Bytes} {a : Advance}
    {ret : BufferReturn} (hrenew : renewRecord record = r.after k)
    (hcall : fcgiProcessRecord buf (r.after k) = some a)
    (hover : Overshoots r k buf a)
    (hrun : fcgiProcessLoop parse fuel firstChunk record buf = .returned ret) :
    CallFinished (r :: rest) k buf ret := by
  cases fuel with
  | zero => contradiction
  | succ fuel =>
      have hends : endsResponse a.record.header.type = r.ends := by
        rw [hover.record.header]
        rfl
      have hoff : ¬ a.moved = buf.length := Nat.ne_of_gt hover.outside
      rw [fcgiProcessLoop, hrenew, hcall] at hrun
      simp only [hover.rv, if_true, hends, hoff, if_false] at hrun
      split at hrun
      · next hlast =>
          rw [← BufferRun.returned.inj hrun]
          refine ⟨fun _ => ?_, fun hfalse => Bool.noConfusion hfalse⟩
          rw [untilEnd, if_pos hlast]
          exact .cons hover.record .nil
      · -- the next turn reads behind the end of the chunk
        have hnil : buf.drop a.moved = [] :=
          List.drop_eq_nil_of_le (Nat.le_of_lt hover.outside)
        have hrenewed : renewRecord a.record = {} := by
          simp [renewRecord, hover.record.state]
        cases fuel <;>
          simp [hnil, fcgiProcessLoop, hrenewed, fcgiProcessRecord,
            FcgiState.beforeContent, BufferRun.after] at hrun

theorem CallFinished.of_returned (parse : MimeHdrParse)
    {d : ResponseDecoder} {recs : List Record} {k : Nat} {buf more : Bytes}
    {ret : BufferReturn}
    (haligned : AlignedAt (d.headerRecord.getD {}) recs k) (hbuf : buf ≠ [])
    (hcut : buf ++ more = (Record.code.encodeAll recs).drop k)
    (hrun : fcgiDecodeRecordChunk parse d buf = .returned ret) :
    CallFinished recs k buf ret := by
  have hregular : OutcomeNext recs k buf → CallFinished recs k buf ret := by
    intro hfirst
    obtain ⟨ret', hret', hdispatched, hnext⟩ :=
      @fcgiProcessLoop_aligned parse (buf.length + 2) d.firstChunk _ _ _ _ _
        haligned hbuf hcut hfirst (by split <;> omega)
    obtain rfl : ret' = ret := BufferRun.returned.inj (hret'.symm.trans hrun)
    obtain ⟨-, hcompleted, -⟩ := fcgiProcessLoop_output parse hrun
    obtain ⟨left, hleft, hle⟩ := finishedBy_prefix recs (k + buf.length)
    rw [any_ends_dispatched hdispatched, any_ends_untilEnd] at hcompleted
    constructor
    · intro htrue
      have huntil := untilEnd_append_of_ends left (hcompleted.symm.trans htrue)
      rw [← hleft] at huntil
      rw [huntil]
      exact hdispatched
    · intro hfalse
      have hnone := hcompleted.symm.trans hfalse
      have huntil := untilEnd_append_of_not_ends [] hnone
      simp only [List.append_nil, untilEnd] at huntil
      obtain ⟨last, left', hlast, hleft', hal⟩ := hnext hfalse
      rw [huntil] at hdispatched
      exact ⟨_, left', last, hleft', hnone, hdispatched, hle, hlast, hal⟩
  cases recs with
  | nil => exact hregular fun r hr => absurd hr.symm (Option.some_ne_none r)
  | cons r rest =>
      obtain ⟨hk, hle, hrenew⟩ := haligned
      have hcut' := hcut
      rw [PrefixCode.encodeAll_cons, Record.code_encode,
        List.drop_append_of_le_length hle] at hcut'
      obtain ⟨a, hcall, hout | hover⟩ :=
        fcgiProcessRecord_outcome r hk hle hbuf hcut'
      · apply hregular
        rintro other hother
        obtain rfl := Option.some.inj hother
        exact ⟨a, hcall, hout⟩
      · exact CallFinished.of_overshoots parse hrenew hcall hover hrun

/-- The output of any run of the decoder is that of the records it finished:
those up to the end of the response if a call returned true, and none that
ends it if not. -/
theorem decodeChunks_output (parse : MimeHdrParse) {d : ResponseDecoder}
    {recs : List Record} {k : Nat} {chunks : List Bytes} {more : Bytes}
    {output : List OutputPiece} {completed : Bool}
    (haligned : AlignedAt (d.headerRecord.getD {}) recs k)
    (hne : ∀ chunk ∈ chunks, chunk ≠ [])
    (hcut : chunks.flatten ++ more = (Record.code.encodeAll recs).drop k)
    (hrun : decodeChunks parse d chunks = some (output, completed)) :
    ∃ fin, output = responseOutput parse d.firstChunk fin ∧
      (completed = true → fin = untilEnd recs) ∧
      (completed = false → fin.any Record.ends = false) := by
  induction chunks generalizing d recs k output with
  | nil =>
      simp only [decodeChunks, Option.some.injEq, Prod.mk.injEq] at hrun
      obtain ⟨rfl, rfl⟩ := hrun
      exact ⟨[], rfl, fun h => Bool.noConfusion h, fun _ => rfl⟩
  | cons chunk rest ih =>
      have hchunk : chunk ≠ [] := hne chunk List.mem_cons_self
      rw [List.flatten_cons, List.append_assoc] at hcut
      cases hret : fcgiDecodeRecordChunk parse d chunk with
      | readOutside => simp [decodeChunks, hret] at hrun
      | running => simp [decodeChunks, hret] at hrun
      | returned ret =>
          have hfinished :=
            CallFinished.of_returned parse haligned hchunk hcut hret
          obtain ⟨hout, -, hfirst⟩ := fcgiProcessLoop_output parse hret
          simp only [decodeChunks, hret] at hrun
          split at hrun
          · next htrue =>
              simp only [Option.some.injEq, Prod.mk.injEq] at hrun
              obtain ⟨rfl, rfl⟩ := hrun
              refine ⟨_, ?_, fun _ => rfl, fun h => Bool.noConfusion h⟩
              rw [hout]
              exact dispatchOutput_eq parse _ (hfinished.completed htrue)
          · next hfalse =>
              obtain ⟨⟨later, completed'⟩, hlater, heq⟩ :=
                Option.map_eq_some_iff.mp hrun
              obtain ⟨rfl, rfl⟩ := Prod.mk.inj heq
              obtain ⟨fin, left, last, hsplit, hnone, hdispatched, hle, hlast,
                hal⟩ := hfinished.continues (Bool.not_eq_true _ ▸ hfalse)
              have hal' : AlignedAt (ret.decoder.headerRecord.getD {}) left
                  (k + chunk.length -
                    (Record.code.encodeAll fin).length) := by
                rw [hlast]
                exact hal
              obtain ⟨fin', hout', htrue', hfalse'⟩ := ih hal'
                (fun c hc => hne c (List.mem_cons_of_mem chunk hc))
                (drop_after_chunk hcut hsplit hle) hlater
              refine ⟨fin ++ fin', ?_, ?_, ?_⟩
              · have hempty : ret.dispatched.isEmpty = fin.isEmpty := by
                  generalize ret.dispatched = dispatched at hdispatched
                  cases hdispatched <;> rfl
                rw [hout, dispatchOutput_eq parse _ hdispatched,
                  responseOutput_append, hout', hfirst, hempty]
              · intro htrue
                rw [htrue' htrue, hsplit,
                  untilEnd_append_of_not_ends left hnone]
              · intro hfalse
                rw [List.any_append, hnone, hfalse' hfalse]
                rfl

/-! ### One status line -/

/-- The insertion is an HTTP status line. -/
def OutputPiece.isStatus : OutputPiece → Bool
  | .statusLine _ | .serverError => true
  | .stdout _ _ | .stderr _ _ => false

/-- The content of an `FCGI_STDOUT` record that is inserted. -/
def OutputPiece.stdoutContent : OutputPiece → Bytes
  | .stdout _ content => content
  | .statusLine _ | .serverError | .stderr _ _ => []

/-- At most one status line, and none after `FCGI_STDOUT` content. -/
structure OneStatus (output : List OutputPiece) : Prop where
  once : output.countP OutputPiece.isStatus ≤ 1
  before : output.Pairwise fun p q => q.isStatus = true → p.stdoutContent = []

/-- The records announce one status: if one of them is an error, nothing has
been announced for the first record and no content has been written. -/
def AnnouncesOnce (parse : MimeHdrParse) (recs : List Record) : Prop :=
  (∃ r ∈ recs, r.type = FCGI_STDERR) →
    (∀ first ∈ recs.head?, ¬ ParsesHeader parse first.content) ∧
      ∀ r ∈ recs, r.type = FCGI_STDOUT → r.content = []

/-- An error can only be the last record of a response. -/
theorem untilEnd_error (recs : List Record) :
    (∀ r ∈ untilEnd recs, r.type ≠ FCGI_STDERR) ∨
      ∃ front last, untilEnd recs = front ++ [last] ∧
        last.type = FCGI_STDERR ∧ ∀ r ∈ front, r.type ≠ FCGI_STDERR := by
  induction recs with
  | nil => exact .inl fun r hr => absurd hr List.not_mem_nil
  | cons r rest ih =>
      rw [untilEnd]
      split
      · by_cases herror : r.type = FCGI_STDERR
        · exact .inr ⟨[], r, rfl, herror,
            fun r hr => absurd hr List.not_mem_nil⟩
        · exact .inl (List.forall_mem_singleton.mpr herror)
      · next hends =>
          have herror : r.type ≠ FCGI_STDERR := by
            intro htype
            simp [Record.ends, endsResponse, htype] at hends
          rcases ih with hnone | ⟨front, last, hsplit, hlast, hfront⟩
          · exact .inl (List.forall_mem_cons.mpr ⟨herror, hnone⟩)
          · refine .inr ⟨r :: front, last, ?_, hlast, ?_⟩
            · rw [hsplit, List.cons_append]
            · exact List.forall_mem_cons.mpr ⟨herror, hfront⟩

theorem Record.isStatus_pieces {r : Record} (htype : r.type ≠ FCGI_STDERR) :
    ∀ p ∈ r.pieces, p.isStatus = false := by
  intro p hp
  rw [Record.pieces, if_neg htype] at hp
  split at hp
  · rw [List.mem_singleton.mp hp]
    rfl
  · contradiction

theorem Record.stdoutContent_pieces (r : Record) :
    (∀ p ∈ r.pieces, p.stdoutContent = []) ↔
      (r.type = FCGI_STDOUT → r.content = []) := by
  rw [Record.pieces]
  split
  · next hout => simp [hout, OutputPiece.stdoutContent]
  · next hout =>
      split <;> simp [hout, OutputPiece.stdoutContent]

/-- What comes before the records is at most one status line. -/
theorem statusOutput_cases (parse : MimeHdrParse) (firstChunk : Bool)
    (content : Bytes) :
    statusOutput parse firstChunk content = [] ∨
      ∃ text, statusOutput parse firstChunk content = [.statusLine text] := by
  unfold statusOutput
  split
  · split
    · next text _ => exact .inr ⟨text, rfl⟩
    · exact .inl rfl
  · exact .inl rfl

/-- Pieces without a status line. -/
theorem oneStatus_of_quiet {body : List OutputPiece}
    (hquiet : ∀ p ∈ body, p.isStatus = false) :
    body.countP OutputPiece.isStatus = 0 ∧
      body.Pairwise fun p q => q.isStatus = true → p.stdoutContent = [] := by
  constructor
  · rw [List.countP_eq_zero]
    intro p hp hstatus
    exact Bool.noConfusion (hstatus.symm.trans (hquiet p hp))
  · apply List.pairwise_of_forall_mem_list
    intro p _ q hq hstatus
    exact Bool.noConfusion (hstatus.symm.trans (hquiet q hq))

/-- Without an error there is at most the first status line. -/
theorem OneStatus.append_quiet {status body : List OutputPiece}
    (hstatus : status = [] ∨ ∃ text, status = [.statusLine text])
    (hquiet : ∀ p ∈ body, p.isStatus = false) : OneStatus (status ++ body) := by
  obtain ⟨hcount, hpairs⟩ := oneStatus_of_quiet hquiet
  rcases hstatus with rfl | ⟨text, rfl⟩
  · rw [List.nil_append]
    exact ⟨hcount ▸ Nat.zero_le 1, hpairs⟩
  · rw [List.singleton_append]
    constructor
    · rw [List.countP_cons, hcount]
      exact Nat.le_refl 1
    · exact hpairs.cons fun p _ _ => rfl

/-- With an error the error text is a status line of its own. -/
theorem oneStatus_append_error_iff {status body : List OutputPiece}
    {header : FcgiHeader} {content : Bytes}
    (hstatus : status = [] ∨ ∃ text, status = [.statusLine text])
    (hquiet : ∀ p ∈ body, p.isStatus = false) :
    OneStatus (status ++ (body ++ [.serverError, .stderr header content])) ↔
      status = [] ∧ ∀ p ∈ body, p.stdoutContent = [] := by
  obtain ⟨hcount, hpairs⟩ := oneStatus_of_quiet hquiet
  constructor
  · rintro ⟨honce, hbefore⟩
    constructor
    · rcases hstatus with hnil | ⟨text, rfl⟩
      · exact hnil
      · rw [List.countP_append, List.countP_append, hcount] at honce
        exact absurd honce (Nat.not_succ_le_self 1)
    · intro p hp
      obtain ⟨-, hrest, -⟩ := List.pairwise_append.mp hbefore
      obtain ⟨-, -, hcross⟩ := List.pairwise_append.mp hrest
      exact hcross p hp .serverError List.mem_cons_self rfl
  · rintro ⟨rfl, hempty⟩
    rw [List.nil_append]
    constructor
    · rw [List.countP_append, hcount]
      exact Nat.le_refl 1
    · refine List.pairwise_append.mpr ⟨hpairs, ?_, ?_⟩
      · exact List.pairwise_pair.mpr fun hfalse => Bool.noConfusion hfalse
      · exact fun p hp _ _ _ => hempty p hp

theorem isStatus_flatMap_pieces {recs : List Record}
    (hnone : ∀ r ∈ recs, r.type ≠ FCGI_STDERR) :
    ∀ p ∈ recs.flatMap Record.pieces, p.isStatus = false := by
  intro p hp
  obtain ⟨r, hr, hin⟩ := List.mem_flatMap.mp hp
  exact Record.isStatus_pieces (hnone r hr) p hin

theorem stdoutContent_flatMap_pieces (recs : List Record) :
    (∀ p ∈ recs.flatMap Record.pieces, p.stdoutContent = []) ↔
      ∀ r ∈ recs, r.type = FCGI_STDOUT → r.content = [] := by
  constructor
  · intro h r hr
    exact r.stdoutContent_pieces.mp fun p hp =>
      h p (List.mem_flatMap.mpr ⟨r, hr, hp⟩)
  · intro h p hp
    obtain ⟨r, hr, hin⟩ := List.mem_flatMap.mp hp
    exact r.stdoutContent_pieces.mpr (h r hr) p hin

/-- The records of a response give one status exactly if they announce one. -/
theorem oneStatus_responseOutput_iff (parse : MimeHdrParse)
    (recs : List Record) :
    OneStatus (responseOutput parse true (untilEnd recs)) ↔
      AnnouncesOnce parse (untilEnd recs) := by
  have hhead : ∀ recs : List Record,
      ((recs.take 1).flatMap fun r => statusOutput parse true r.content) = [] ∨
        ∃ text, ((recs.take 1).flatMap fun r =>
          statusOutput parse true r.content) = [.statusLine text] := by
    intro recs
    cases recs with
    | nil => exact .inl rfl
    | cons first rest =>
        rw [List.take_succ_cons, List.take_zero, List.flatMap_singleton]
        exact statusOutput_cases parse true first.content
  rcases untilEnd_error recs with hnone | ⟨front, last, hsplit, hlast, hnone⟩
  · constructor
    · rintro - ⟨r, hr, herror⟩
      exact absurd herror (hnone r hr)
    · intro _
      exact OneStatus.append_quiet (hhead _) (isStatus_flatMap_pieces hnone)
  · have hpieces : last.pieces =
        [.serverError, .stderr last.header last.content] := by
      rw [Record.pieces, hlast]
      rfl
    have hfirst : ((front ++ [last]).take 1).flatMap (fun r =>
        statusOutput parse true r.content) = [] ↔
        ∀ first ∈ (front ++ [last]).head?,
          ¬ ParsesHeader parse first.content := by
      cases front with
      | nil => simp [statusOutput_eq_nil_iff]
      | cons r rest => simp [statusOutput_eq_nil_iff]
    have hlastOut : last.type ≠ FCGI_STDOUT := by
      rw [hlast]
      decide
    have hcontent : (∀ r ∈ front ++ [last],
        r.type = FCGI_STDOUT → r.content = []) ↔
        ∀ r ∈ front, r.type = FCGI_STDOUT → r.content = [] := by
      rw [List.forall_mem_append, List.forall_mem_singleton]
      exact and_iff_left fun hout => absurd hout hlastOut
    have herror : ∃ r ∈ front ++ [last], r.type = FCGI_STDERR :=
      ⟨last, List.mem_append_right _ List.mem_cons_self, hlast⟩
    rw [hsplit, responseOutput, List.flatMap_append, List.flatMap_singleton,
      hpieces, oneStatus_append_error_iff (hhead _)
        (isStatus_flatMap_pieces hnone), hfirst,
      stdoutContent_flatMap_pieces, AnnouncesOnce, hcontent]
    exact ⟨fun h _ => h, fun h => h herror⟩

/-- A response gives one status, before its content, exactly if its records
announce one; as long as no call has returned true it does in any case. -/
theorem decodeChunks_oneStatus_iff (parse : MimeHdrParse) (recs : List Record)
    (chunks : List Bytes) (more : Bytes)
    (hne : ∀ chunk ∈ chunks, chunk ≠ [])
    (hcut : chunks.flatten ++ more = Record.code.encodeAll recs) :
    (∀ output, decodeChunks parse {} chunks = some (output, true) →
      (OneStatus output ↔ AnnouncesOnce parse (untilEnd recs))) ∧
    (∀ output, decodeChunks parse {} chunks = some (output, false) →
      OneStatus output) := by
  have haligned : AlignedAt ({} : FcgiRecordList) recs 0 :=
    alignedAt_zero recs rfl
  constructor
  · intro output hrun
    obtain ⟨fin, rfl, hfin, -⟩ :=
      @decodeChunks_output parse {} recs 0 chunks more output true haligned hne
        hcut hrun
    rw [hfin rfl]
    exact oneStatus_responseOutput_iff parse recs
  · intro output hrun
    obtain ⟨fin, rfl, -, hfin⟩ :=
      @decodeChunks_output parse {} recs 0 chunks more output false haligned
        hne hcut hrun
    have hnone := hfin rfl
    have huntil := untilEnd_append_of_not_ends [] hnone
    simp only [List.append_nil, untilEnd] at huntil
    rw [← huntil]
    apply (oneStatus_responseOutput_iff parse fin).mpr
    rintro ⟨r, hr, herror⟩
    rw [huntil] at hr
    have hends : r.ends = true := by
      simp [Record.ends, endsResponse, herror]
    have hany := List.any_eq_true.mpr ⟨r, hr, hends⟩
    exact Bool.noConfusion (hany.symm.trans hnone)

namespace StatusLinesWitness

open DecoderRefinementWitness (stdout endRequest)
open DecoderSafetyWitness (parse)

def stderr : Record where
  version := FCGI_VERSION_1
  type := FCGI_STDERR
  requestIdB1 := 0
  requestIdB0 := 1
  reserved := 0
  content := [33]
  padding := []
  content_lt := by decide
  padding_lt := Record.nil_padding_lt

/-- Content that is followed by an error, in one chunk. -/
def failed : List OutputPiece :=
  [.statusLine (ascii "HTTP/1.0 200 OK\r\n"), .stdout stdout.header [65, 66],
    .serverError, .stderr stderr.header [33]]

theorem decodeChunks_failed :
    decodeChunks parse {} [Record.code.encodeAll [stdout, stderr]] =
      some (failed, true) := by
  decide +kernel

theorem not_always_oneStatus :
    ¬ ∀ (parse : MimeHdrParse) (recs : List Record) (chunks : List Bytes)
      (more : Bytes), (∀ chunk ∈ chunks, chunk ≠ []) →
      chunks.flatten ++ more = Record.code.encodeAll recs →
      ∀ output, decodeChunks parse {} chunks = some (output, true) →
        OneStatus output := by
  intro h
  have hone := h parse [stdout, stderr]
    [Record.code.encodeAll [stdout, stderr]] [] (by decide) (by decide) failed
    decodeChunks_failed
  exact absurd hone.once (by decide)

/-- An error of which the parser makes nothing, cut inside its header. -/
theorem oneStatus_error :
    (∀ output, decodeChunks (fun text => (.cont, ⟨text, true, none⟩)) {}
        [[1, 7, 0], [1, 0, 1, 0, 0, 33]] = some (output, true) →
      (OneStatus output ↔ AnnouncesOnce
        (fun text => (.cont, ⟨text, true, none⟩)) (untilEnd [stderr]))) ∧
    (∀ output, decodeChunks (fun text => (.cont, ⟨text, true, none⟩)) {}
        [[1, 7, 0], [1, 0, 1, 0, 0, 33]] = some (output, false) →
      OneStatus output) :=
  decodeChunks_oneStatus_iff (fun text => (.cont, ⟨text, true, none⟩))
    [stderr] [[1, 7, 0], [1, 0, 1, 0, 0, 33]] [] (by decide) (by decide)

end StatusLinesWitness

end AtsFastcgi
