/-
Record boundaries.  A response that is split into `FCGI_STDOUT` records is
written as it is, behind a status line that is chosen from the content of the
first record alone.
-/
import AtsFastcgi.StatusLines
import Mathlib.Data.List.Infix
import Mathlib.Data.List.TakeWhile

namespace AtsFastcgi

/-! ### Searching -/

theorem findBytes_eq_some_iff {needle hay : Bytes} {i : Nat} :
    findBytes needle hay = some i ↔
      i ≤ hay.length ∧ needle <+: hay.drop i ∧
        ∀ j < i, ¬ needle <+: hay.drop j := by
  simp only [findBytes, List.findIdx?_eq_some_iff_getElem, List.getElem_tails,
    List.length_tails, List.isPrefixOf_iff_prefix]
  constructor
  · rintro ⟨hlt, hfound, hfirst⟩
    exact ⟨Nat.le_of_lt_succ hlt, hfound, hfirst⟩
  · rintro ⟨hle, hfound, hfirst⟩
    exact ⟨Nat.lt_succ_of_le hle, hfound, hfirst⟩

theorem findBytes_eq_none_of_forall {needle hay : Bytes}
    (hnone : ∀ j, ¬ needle <+: hay.drop j) : findBytes needle hay = none := by
  cases hfind : findBytes needle hay with
  | none => rfl
  | some i => exact absurd (findBytes_eq_some_iff.mp hfind).2.1 (hnone i)

/-- An occurrence inside a prefix is one in the whole. -/
theorem prefix_drop_iff {needle front whole : Bytes} (hfront : front <+: whole)
    {j : Nat} (hinside : j + needle.length ≤ front.length) :
    needle <+: front.drop j ↔ needle <+: whole.drop j := by
  have hdrop : front.drop j <+: whole.drop j := hfront.drop j
  constructor
  · exact fun h => h.trans hdrop
  · intro h
    apply List.prefix_of_prefix_length_le h hdrop
    rw [List.length_drop]
    omega

theorem le_of_prefix_drop {needle hay : Bytes} {j : Nat} (hne : needle ≠ [])
    (hfound : needle <+: hay.drop j) : j + needle.length ≤ hay.length := by
  have hpos := List.length_pos_iff.mpr hne
  have hle := hfound.length_le
  rw [List.length_drop] at hle
  omega

/-! ### Responses -/

/-- A CGI response: a header block up to its first blank line, and a body. -/
structure CgiResponse where
  header : Bytes
  body : Bytes
  blankLine : findBytes (ascii "\r\n\r\n") header = some (header.length - 4)
  noNul : 0 ∉ header

namespace CgiResponse

variable (response : CgiResponse)

def text : Bytes := response.header ++ response.body

theorem four_le : 4 ≤ response.header.length := by
  obtain ⟨-, hfound, -⟩ := findBytes_eq_some_iff.mp response.blankLine
  have hle := le_of_prefix_drop (by decide) hfound
  have hfour : (ascii "\r\n\r\n").length = 4 := rfl
  omega

theorem cString_header : cString response.header = response.header := by
  rw [cString, List.takeWhile_eq_self_iff]
  intro ch hch
  exact decide_eq_true fun hzero => response.noNul (hzero ▸ hch)

/-- The header block is found in what comes first of a response exactly if all
of it is there. -/
theorem headerString_of_prefix {front : Bytes} (hfront : front <+: response.text) :
    headerString front =
      if response.header.length ≤ front.length then response.header else [] := by
  obtain ⟨-, hfound, hfirst⟩ := findBytes_eq_some_iff.mp response.blankLine
  have hfour : (ascii "\r\n\r\n").length = 4 := rfl
  have hge := response.four_le
  have hheader : response.header <+: response.text := List.prefix_append _ _
  split
  · next hwhole =>
      have hinside : response.header <+: front :=
        List.prefix_of_prefix_length_le hheader hfront hwhole
      have hfind : findBytes (ascii "\r\n\r\n") front =
          some (response.header.length - 4) := by
        refine findBytes_eq_some_iff.mpr ⟨by omega, ?_, ?_⟩
        · exact (prefix_drop_iff hinside (by omega)).mp hfound
        · intro j hj hearlier
          exact hfirst j hj
            ((prefix_drop_iff hinside (by omega)).mpr hearlier)
      simp only [headerString, hfind]
      rw [Nat.sub_add_cancel hge]
      exact (List.prefix_iff_eq_take.mp hinside).symm
  · next hpart =>
      have hinside : front <+: response.header :=
        List.prefix_of_prefix_length_le hfront hheader (by omega)
      have hnone : findBytes (ascii "\r\n\r\n") front = none := by
        apply findBytes_eq_none_of_forall
        intro j hearlier
        have hle := le_of_prefix_drop (by decide) hearlier
        exact hfirst j (by omega) ((prefix_drop_iff hinside hle).mp hearlier)
      simp only [headerString, hnone]

/-- The status line that the `Status` field of the header block asks for. -/
def statusText (parse : MimeHdrParse) : Bytes :=
  match (parse response.header).2.status with
  | some value =>
      ascii "HTTP/1.1" ++ ascii " " ++ cString value ++ ascii "\r\n"
  | none => ascii "HTTP/1.0 200 OK\r\n"

end CgiResponse

/-- A complete header block is parsed to its end, and printed as it was. -/
structure ParsesBlock (parse : MimeHdrParse) (block : Bytes) : Prop where
  done : (parse block).1 = .done
  printed : (parse block).2.printed = block
  initialized : (parse block).2.isInitialized = true

/-- Only the header block of the content is looked at. -/
theorem statusLine_congr (parse : MimeHdrParse) {content other : Bytes}
    (hsame : headerString content = headerString other) :
    statusLine parse content = statusLine parse other := by
  rw [statusLine, statusLine, hsame]

theorem statusText_header {parse : MimeHdrParse} (response : CgiResponse)
    (hblock : ParsesBlock parse response.header) :
    statusText parse response.header = response.statusText parse := by
  have hwhole := response.headerString_of_prefix (List.prefix_append _ _)
  rw [if_pos (Nat.le_refl _)] at hwhole
  simp only [statusText, statusLine, hwhole, response.cString_header,
    hblock.done, hblock.printed, hblock.initialized, if_true,
    CgiResponse.statusText]
  cases (parse response.header).2.status <;> rfl

/-- Content without a header block, for which the parser finds no `Status`. -/
theorem statusText_of_no_status {parse : MimeHdrParse} {content : Bytes}
    (hstatus : (parse (cString (headerString content))).2.status = none) :
    statusText parse content =
      if ParsesHeader parse content then ascii "HTTP/1.0 200 OK\r\n"
      else [] := by
  split
  · next hparses =>
      obtain ⟨hdone, hprinted⟩ := hparses
      simp only [statusText, statusLine, hdone, if_true, hstatus]
      split
      · next hsame => rw [if_pos (hprinted hsame), Option.getD_some]
      · rw [Option.getD_some]
  · next hparses =>
      rw [statusText, (statusLine_eq_none_iff parse content).mpr hparses]
      rfl

/-! ### Splits -/

/-- A way to split a response into `FCGI_STDOUT` records, with the record that
ends it. -/
structure StdoutSplit (response : CgiResponse) where
  stdout : List Record
  closing : Record
  types : ∀ r ∈ stdout, r.type = FCGI_STDOUT
  closes : closing.type = FCGI_END_REQUEST
  contents : stdout.flatMap Record.content = response.text

/-- What a fresh FCGI client writes for the records in one chunk. -/
def decodedOutput (parse : MimeHdrParse) (recs : List Record) : Option Bytes :=
  match fcgiDecodeRecordChunk parse {} (Record.code.encodeAll recs) with
  | .returned ret => some (outputText ret.output)
  | .readOutside | .running => none

/-- One chunk with all the records is written as the text of those that are
finished in it. -/
theorem decodedOutput_eq (parse : MimeHdrParse) {recs : List Record}
    (hrecs : recs ≠ []) :
    decodedOutput parse recs = some (responseText (statusText parse)
      (finishedBy recs (Record.code.encodeAll recs).length)) := by
  have hbuf : Record.code.encodeAll recs ≠ [] := by
    obtain ⟨r, rest, rfl⟩ := List.exists_cons_of_ne_nil hrecs
    have hlen := r.encode_length_ge
    rw [PrefixCode.encodeAll_cons, Record.code_encode]
    exact List.append_ne_nil_of_left_ne_nil
      (List.ne_nil_of_length_pos (by omega)) _
  have haligned := @alignedAt_zero {} recs rfl
  have hcut : Record.code.encodeAll recs ++ [] =
      (Record.code.encodeAll recs).drop 0 := List.append_nil _
  have hheld : PaddingHeldNext recs 0 (Record.code.encodeAll recs) := by
    intro r _ hbefore
    omega
  obtain ⟨ret, hret, hdispatched, -⟩ :=
    @fcgiProcessLoop_aligned parse
      ((Record.code.encodeAll recs).length + 2) true _ _ _ _ _ haligned hbuf
      hcut (hheld.outcomeNext haligned hbuf hcut) (by simp)
  obtain ⟨hout, -, -⟩ := fcgiProcessLoop_output parse hret
  have hchunk : fcgiDecodeRecordChunk parse {} (Record.code.encodeAll recs) =
      .returned ret := hret
  rw [Nat.zero_add] at hdispatched
  simp only [decodedOutput, hchunk, hout]
  rw [outputText_dispatchOutput parse true hdispatched]
  rfl

/-- With more bytes behind them all the records are finished. -/
theorem finishedBy_append (front : List Record) {back : List Record}
    (hback : back ≠ []) :
    finishedBy (front ++ back) (Record.code.encodeAll (front ++ back)).length =
      front ++ finishedBy back (Record.code.encodeAll back).length := by
  induction front with
  | nil => rfl
  | cons r rest ih =>
      have hr := r.encode_length_ge
      obtain ⟨next, later, hnext⟩ : ∃ next later, rest ++ back = next :: later :=
        List.exists_cons_of_ne_nil (List.append_ne_nil_of_right_ne_nil _ hback)
      have hmore : 8 ≤ (Record.code.encodeAll (rest ++ back)).length := by
        have hge := next.encode_length_ge
        rw [hnext, PrefixCode.encodeAll_cons, Record.code_encode,
          List.length_append]
        omega
      have hfinished : r.FinishedAt
          (r.encode.length + (Record.code.encodeAll (rest ++ back)).length) :=
        ⟨Nat.le_add_right _ _, by omega⟩
      rw [List.cons_append, PrefixCode.encodeAll_cons, Record.code_encode,
        List.length_append, finishedBy, if_pos hfinished,
        Nat.add_sub_cancel_left, ih, List.cons_append]

theorem responseBody_stdout {recs : List Record}
    (htypes : ∀ r ∈ recs, r.type = FCGI_STDOUT) :
    responseBody recs = recs.flatMap Record.content := by
  induction recs with
  | nil => rfl
  | cons r rest ih =>
      obtain ⟨hr, hrest⟩ := List.forall_mem_cons.mp htypes
      rw [responseBody, if_pos hr, ih hrest, List.flatMap_cons]

namespace StdoutSplit

variable {response : CgiResponse} (split : StdoutSplit response)

def records : List Record := split.stdout ++ [split.closing]

/-- The header block is in the first record, or nothing is lost without it: it
has no `Status`, and the parser takes the empty text for a complete block. -/
def SeesStatus (parse : MimeHdrParse) : Prop :=
  (∀ first ∈ split.stdout.head?,
    response.header.length ≤ first.content.length) ∨
  (parse response.header).2.status = none ∧ ParsesHeader parse []

/-- The response is written as it is, behind the status text of the first
record. -/
theorem decodedOutput_records (parse : MimeHdrParse) :
    ∃ first rest, split.stdout = first :: rest ∧
      decodedOutput parse split.records =
        some (statusText parse first.content ++ response.text) := by
  have hge := response.four_le
  have hcontents := split.contents
  cases hstdout : split.stdout with
  | nil =>
      rw [hstdout, List.flatMap_nil, CgiResponse.text] at hcontents
      have hempty := congrArg List.length hcontents
      simp only [List.length_nil, List.length_append] at hempty
      omega
  | cons first rest =>
      refine ⟨first, rest, rfl, ?_⟩
      have hends : (first :: rest).any Record.ends = false := by
        rw [← hstdout, List.any_eq_false]
        intro r hr hends
        simp [Record.ends, endsResponse, split.types r hr, FCGI_STDOUT,
          FCGI_STDERR, FCGI_END_REQUEST] at hends
      have hclosing : ∀ n, responseBody (finishedBy [split.closing] n) = [] := by
        intro n
        rw [finishedBy]
        split
        · simp [responseBody, split.closes, FCGI_STDOUT, FCGI_STDERR,
            FCGI_END_REQUEST]
        · rfl
      rw [decodedOutput_eq parse (by simp [records]), records,
        finishedBy_append _ (List.cons_ne_nil _ _), hstdout, List.cons_append,
        responseText, ← List.cons_append,
        responseBody_append_of_not_ends _ hends, hclosing, List.append_nil,
        ← hstdout, responseBody_stdout split.types, hcontents]

/-- The response is written behind its status line exactly if the header block
is seen, or not missed. -/
theorem decodedOutput_eq_iff {parse : MimeHdrParse}
    (hblock : ParsesBlock parse response.header)
    (hempty : (parse []).2.status = none) :
    decodedOutput parse split.records =
        some (response.statusText parse ++ response.text) ↔
      split.SeesStatus parse := by
  obtain ⟨first, rest, hstdout, hdecoded⟩ := split.decodedOutput_records parse
  have hfront : first.content <+: response.text := by
    rw [← split.contents, hstdout, List.flatMap_cons]
    exact List.prefix_append _ _
  have hfound := response.headerString_of_prefix hfront
  rw [hdecoded, Option.some.injEq, List.append_cancel_right_eq, SeesStatus,
    hstdout, List.head?_cons]
  by_cases hwhole : response.header.length ≤ first.content.length
  · have hheader := response.headerString_of_prefix (List.prefix_append _ _)
    rw [if_pos (Nat.le_refl _)] at hheader
    rw [if_pos hwhole] at hfound
    have hsame : statusText parse first.content =
        response.statusText parse := by
      rw [← statusText_header response hblock, statusText, statusText,
        statusLine_congr parse (hfound.trans hheader.symm)]
    exact iff_of_true hsame (.inl fun _ h => Option.some.inj h ▸ hwhole)
  · -- the parser sees the empty text
    rw [if_neg hwhole] at hfound
    have hsame : statusText parse first.content = statusText parse [] := by
      have hnil : headerString [] = [] := rfl
      rw [statusText, statusText,
        statusLine_congr parse (hfound.trans hnil.symm)]
    have hmissed : ¬ ∀ r ∈ some first,
        response.header.length ≤ r.content.length :=
      fun h => hwhole (h first rfl)
    rw [hsame, statusText_of_no_status hempty, CgiResponse.statusText]
    cases (parse response.header).2.status with
    | some value =>
        have hother : ascii "HTTP/1.1" ++ ascii " " ++ cString value ++
            ascii "\r\n" ≠ [] := by
          simp [ascii]
        have hversion : ascii "HTTP/1.1" ++ ascii " " ++ cString value ++
            ascii "\r\n" ≠ ascii "HTTP/1.0 200 OK\r\n" := by
          intro heq
          have heighth := congrArg (fun text : Bytes => text[7]?) heq
          simp [ascii] at heighth
        constructor
        · intro heq
          split at heq
          · exact absurd heq.symm hversion
          · exact absurd heq.symm hother
        · rintro (hall | ⟨hstatus, -⟩)
          · exact absurd hall hmissed
          · contradiction
    | none =>
        constructor
        · intro heq
          split at heq
          · next hparses => exact .inr ⟨rfl, hparses⟩
          · contradiction
        · rintro (hall | ⟨-, hparses⟩)
          · exact absurd hall hmissed
          · exact if_pos hparses

end StdoutSplit

/-- Two ways to split a response give the same output, behind the status line
that its `Status` field asks for, exactly if neither of them hides the header
block. -/
theorem recordBoundaries_iff {parse : MimeHdrParse} {response : CgiResponse}
    (hblock : ParsesBlock parse response.header)
    (hempty : (parse []).2.status = none) (a b : StdoutSplit response) :
    (∃ output, decodedOutput parse a.records = some output ∧
      decodedOutput parse b.records = some output ∧
      output = response.statusText parse ++ response.text) ↔
      a.SeesStatus parse ∧ b.SeesStatus parse := by
  rw [← a.decodedOutput_eq_iff hblock hempty,
    ← b.decodedOutput_eq_iff hblock hempty]
  constructor
  · rintro ⟨output, ha, hb, rfl⟩
    exact ⟨ha, hb⟩
  · rintro ⟨ha, hb⟩
    exact ⟨_, ha, hb, rfl⟩

namespace RecordBoundariesWitness

/-- A parser for the block of `response`. -/
def parse : MimeHdrParse
  | [] => (.cont, ⟨[], true, none⟩)
  | text => (.done, ⟨text, true, some (ascii "404")⟩)

def response : CgiResponse where
  header := ascii "Status: 404\r\n\r\n"
  body := ascii "none"
  blankLine := by decide
  noNul := by decide

def stdout (content : Bytes) (hcontent : content.length < 65536) : Record :=
  { DecoderRefinementWitness.stdout with content, content_lt := hcontent }

def whole : StdoutSplit response where
  stdout := [stdout response.text (by decide)]
  closing := DecoderRefinementWitness.endRequest
  types := by decide
  closes := rfl
  contents := by decide

/-- The header block ends in the second record. -/
def parts : StdoutSplit response where
  stdout := [stdout (ascii "Status: 404\r\n") (by decide),
    stdout (ascii "\r\nnone") (by decide)]
  closing := DecoderRefinementWitness.endRequest
  types := by decide
  closes := rfl
  contents := by decide

theorem parses_header : ParsesBlock parse response.header :=
  ⟨rfl, rfl, rfl⟩

theorem not_always_same :
    ¬ ∀ (parse : MimeHdrParse) (response : CgiResponse),
      ParsesBlock parse response.header → (parse []).2.status = none →
      ∀ a b : StdoutSplit response, ∃ output,
        decodedOutput parse a.records = some output ∧
        decodedOutput parse b.records = some output ∧
        output = response.statusText parse ++ response.text := by
  intro h
  obtain ⟨output, hwhole, hparts, -⟩ :=
    h parse response parses_header rfl whole parts
  have hne : decodedOutput parse whole.records ≠
      decodedOutput parse parts.records := by
    decide +kernel
  exact hne (hwhole.trans hparts.symm)

/-- The header block and the body in records of their own. -/
def separate : StdoutSplit response where
  stdout := [stdout response.header (by decide),
    stdout response.body (by decide)]
  closing := DecoderRefinementWitness.endRequest
  types := by decide
  closes := rfl
  contents := by decide

theorem same_separate :
    ∃ output, decodedOutput parse whole.records = some output ∧
      decodedOutput parse separate.records = some output ∧
      output = response.statusText parse ++ response.text :=
  (recordBoundaries_iff parses_header rfl whole separate).mpr
    ⟨.inl (by decide), .inl (by decide)⟩

end RecordBoundariesWitness

end AtsFastcgi
