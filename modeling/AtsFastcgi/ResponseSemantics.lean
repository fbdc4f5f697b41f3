/-
What a FastCGI response means at the level of whole records, and which records
of a stream have been finished after a number of its bytes.  Nothing here runs
the decoder; `DecoderRefinement` compares it with this meaning.
-/
import AtsFastcgi.RecordDecoder

namespace AtsFastcgi

/-- The text of the records in order: the content of `FCGI_STDOUT` records, up
to the first record that ends the response. -/
def responseBody : List Record → Bytes
  | [] => []
  | r :: rest =>
      if r.type = FCGI_STDOUT then r.content ++ responseBody rest
      else if r.type = FCGI_STDERR then serverErrorText ++ r.content
      else if r.type = FCGI_END_REQUEST then []
      else responseBody rest

/-- The response text: the status text of the first content, then the body. -/
def responseText (S : Bytes → Bytes) : List Record → Bytes
  | [] => []
  | r :: rest => S r.content ++ responseBody (r :: rest)

def Record.ends (r : Record) : Bool := endsResponse r.type

/-- The records up to and including the first one that ends the response. -/
def untilEnd : List Record → List Record
  | [] => []
  | r :: rest => if r.ends then [r] else r :: untilEnd rest

theorem untilEnd_append_of_ends {front : List Record} (back : List Record)
    (hends : front.any Record.ends = true) :
    untilEnd (front ++ back) = untilEnd front := by
  induction front with
  | nil => exact Bool.noConfusion hends
  | cons r rest ih =>
      simp only [List.cons_append, untilEnd]
      split
      · rfl
      · next hr =>
          have hrest : rest.any Record.ends = true := by
            simpa [hr] using hends
          rw [ih hrest]

theorem untilEnd_append_of_not_ends {front : List Record}
    (back : List Record) (hends : front.any Record.ends = false) :
    untilEnd (front ++ back) = front ++ untilEnd back := by
  induction front with
  | nil => rfl
  | cons r rest ih =>
      simp only [List.any_cons, Bool.or_eq_false_iff] at hends
      simp [untilEnd, hends.1, ih hends.2]

/-- Nothing is read after the end of the response. -/
theorem responseBody_append_of_ends {front : List Record} (back : List Record)
    (hends : front.any Record.ends = true) :
    responseBody (front ++ back) = responseBody front := by
  induction front with
  | nil => simp at hends
  | cons r rest ih =>
      simp only [List.cons_append, responseBody]
      by_cases hr : r.ends = true
      · have htype : r.type = FCGI_STDERR ∨ r.type = FCGI_END_REQUEST := by
          simpa [Record.ends, endsResponse] using hr
        rcases htype with htype | htype <;>
          simp [htype, FCGI_STDERR, FCGI_STDOUT, FCGI_END_REQUEST]
      · have hrest : rest.any Record.ends = true := by
          simpa [hr] using hends
        rw [ih hrest]

theorem responseBody_append_of_not_ends {front : List Record}
    (back : List Record) (hends : front.any Record.ends = false) :
    responseBody (front ++ back) = responseBody front ++ responseBody back := by
  induction front with
  | nil => simp [responseBody]
  | cons r rest ih =>
      simp only [List.any_cons, Bool.or_eq_false_iff] at hends
      have hne : r.type ≠ FCGI_STDERR ∧ r.type ≠ FCGI_END_REQUEST := by
        simpa [Record.ends, endsResponse] using hends.1
      simp only [List.cons_append, responseBody, hne, if_false, ih hends.2]
      split <;> simp

/-- The text that is still to be written for `recs`. -/
def remainingText (S : Bytes → Bytes) (firstChunk : Bool)
    (recs : List Record) : Bytes :=
  if firstChunk then responseText S recs else responseBody recs

theorem remainingText_append_of_ends (S : Bytes → Bytes) (firstChunk : Bool)
    {front : List Record} (back : List Record)
    (hends : front.any Record.ends = true) :
    remainingText S firstChunk (front ++ back) =
      remainingText S firstChunk front := by
  cases front with
  | nil => simp at hends
  | cons r rest =>
      have hbody := responseBody_append_of_ends back hends
      rw [List.cons_append] at hbody
      cases firstChunk <;> simp [remainingText, responseText, hbody]

theorem remainingText_append_of_not_ends (S : Bytes → Bytes)
    (firstChunk : Bool) {front : List Record} (back : List Record)
    (hends : front.any Record.ends = false) :
    remainingText S firstChunk (front ++ back) =
      remainingText S firstChunk front ++
        remainingText S (firstChunk && front.isEmpty) back := by
  cases front with
  | nil => cases firstChunk <;> simp [remainingText, responseText, responseBody]
  | cons r rest =>
      have hbody := responseBody_append_of_not_ends back hends
      rw [List.cons_append] at hbody
      cases firstChunk <;> simp [remainingText, responseText, hbody]

/-! ### The output as the records determine it -/

/-- What a record adds to the output, apart from the status line. -/
def Record.pieces (r : Record) : List OutputPiece :=
  if r.type = FCGI_STDOUT then [.stdout r.header r.content]
  else if r.type = FCGI_STDERR then [.serverError, .stderr r.header r.content]
  else []

/-- The output for the records: the status line of the first one, then what
each of them adds. -/
def responseOutput (parse : MimeHdrParse) (firstChunk : Bool)
    (recs : List Record) : List OutputPiece :=
  ((recs.take 1).flatMap fun r => statusOutput parse firstChunk r.content) ++
    recs.flatMap Record.pieces

theorem responseOutput_false (parse : MimeHdrParse) (recs : List Record) :
    responseOutput parse false recs = recs.flatMap Record.pieces := by
  cases recs <;> simp [responseOutput, statusOutput]

theorem responseOutput_append (parse : MimeHdrParse) (firstChunk : Bool)
    (front back : List Record) :
    responseOutput parse firstChunk (front ++ back) =
      responseOutput parse firstChunk front ++
        responseOutput parse (firstChunk && front.isEmpty) back := by
  cases front with
  | nil => simp [responseOutput]
  | cons r rest => simp [responseOutput, statusOutput]

/-- The text written for the first content; empty if the parser gives none. -/
def statusText (parse : MimeHdrParse) (content : Bytes) : Bytes :=
  (statusLine parse content).getD []

theorem outputText_append (front back : List OutputPiece) :
    outputText (front ++ back) = outputText front ++ outputText back := by
  simp [outputText]

theorem outputText_statusOutput (parse : MimeHdrParse) (firstChunk : Bool)
    (content : Bytes) :
    outputText (statusOutput parse firstChunk content) =
      if firstChunk then statusText parse content else [] := by
  cases firstChunk with
  | false => rfl
  | true =>
      cases hline : statusLine parse content <;>
        simp [statusOutput, statusText, hline, outputText, OutputPiece.text]

theorem outputText_pieces (r : Record) :
    outputText r.pieces =
      if r.type = FCGI_STDOUT then r.content
      else if r.type = FCGI_STDERR then serverErrorText ++ r.content
      else [] := by
  unfold Record.pieces
  split
  · simp [outputText, OutputPiece.text]
  · split <;> simp [outputText, OutputPiece.text]

/-- The pieces up to the end of the response are its body. -/
theorem outputText_untilEnd (recs : List Record) :
    outputText ((untilEnd recs).flatMap Record.pieces) = responseBody recs := by
  induction recs with
  | nil => rfl
  | cons r rest ih =>
      rw [untilEnd]
      split
      · next hends =>
          have htype : r.type = FCGI_STDERR ∨ r.type = FCGI_END_REQUEST := by
            simpa [Record.ends, endsResponse] using hends
          rw [List.flatMap_singleton, outputText_pieces]
          rcases htype with htype | htype <;>
            simp [responseBody, htype, FCGI_STDERR, FCGI_STDOUT,
              FCGI_END_REQUEST]
      · next hends =>
          have hne : r.type ≠ FCGI_STDERR ∧ r.type ≠ FCGI_END_REQUEST := by
            simpa [Record.ends, endsResponse] using hends
          rw [List.flatMap_cons, outputText_append, ih, outputText_pieces]
          simp only [responseBody, hne, if_false]
          split <;> simp

theorem outputText_responseOutput (parse : MimeHdrParse) (firstChunk : Bool)
    (recs : List Record) :
    outputText (responseOutput parse firstChunk (untilEnd recs)) =
      remainingText (statusText parse) firstChunk recs := by
  cases recs with
  | nil => cases firstChunk <;> rfl
  | cons r rest =>
      have hfirst : (untilEnd (r :: rest)).take 1 = [r] := by
        rw [untilEnd]
        split <;> rfl
      rw [responseOutput, hfirst, List.flatMap_singleton, outputText_append,
        outputText_statusOutput, outputText_untilEnd]
      cases firstChunk <;> simp [remainingText, responseText]

/-! ### Finished records -/

/-- The record has been dispatched once `n` bytes from its first one on have
been fed.  A record that is a bare header is not dispatched by its own bytes:
it waits for the next byte of the stream. -/
def Record.FinishedAt (r : Record) (n : Nat) : Prop :=
  r.encode.length ≤ n ∧ 8 < n

instance (r : Record) (n : Nat) : Decidable (r.FinishedAt n) :=
  inferInstanceAs (Decidable (_ ∧ _))

/-- The records of the stream that are finished after its first `n` bytes. -/
def finishedBy : List Record → Nat → List Record
  | [], _ => []
  | r :: rest, n =>
      if r.FinishedAt n then r :: finishedBy rest (n - r.encode.length) else []

theorem Record.encode_length_ge (r : Record) : 8 ≤ r.encode.length := by
  rw [Record.encode_length]
  omega

theorem finishedBy_zero (recs : List Record) : finishedBy recs 0 = [] := by
  cases recs <;> simp [finishedBy, Record.FinishedAt]

/-- The finished records are a prefix of the stream, and it is fed past them. -/
theorem finishedBy_prefix (recs : List Record) (n : Nat) :
    ∃ rest, recs = finishedBy recs n ++ rest ∧
      (Record.code.encodeAll (finishedBy recs n)).length ≤ n := by
  induction recs generalizing n with
  | nil => exact ⟨[], by simp [finishedBy]⟩
  | cons r rest ih =>
      by_cases hr : r.FinishedAt n
      · obtain ⟨tail, htail, hlen⟩ := ih (n - r.encode.length)
        refine ⟨tail, ?_, ?_⟩
        · simp only [finishedBy, hr, if_true, List.cons_append, ← htail]
        · simp only [finishedBy, hr, if_true, PrefixCode.encodeAll_cons,
            List.length_append, Record.code_encode]
          have := hr.1
          omega
      · exact ⟨r :: rest, by simp [finishedBy, hr]⟩

/-- Feeding on from a point, the records finished there stay finished and the
others are counted from where they begin. -/
theorem finishedBy_add (recs rest : List Record) (n m : Nat)
    (heq : recs = finishedBy recs n ++ rest) :
    finishedBy recs (n + m) = finishedBy recs n ++
      finishedBy rest
        (n - (Record.code.encodeAll (finishedBy recs n)).length + m) := by
  induction recs generalizing n with
  | nil =>
      have hrest : rest = [] := by simpa [finishedBy] using heq
      simp [finishedBy, hrest]
  | cons head tail ih =>
      by_cases hhead : head.FinishedAt n
      · have hlater : head.FinishedAt (n + m) :=
          ⟨by have := hhead.1; omega, by have := hhead.2; omega⟩
        simp only [finishedBy, hhead, if_true, List.cons_append,
          List.cons.injEq, true_and] at heq
        have hsub : n + m - head.encode.length =
            n - head.encode.length + m := by
          have := hhead.1
          omega
        simp only [finishedBy, hhead, hlater, if_true, List.cons_append, hsub,
          ih _ heq, PrefixCode.encodeAll_cons, List.length_append,
          Record.code_encode, Nat.sub_sub]
      · simp only [finishedBy, hhead, if_false, List.nil_append] at heq
        subst heq
        simp [finishedBy, hhead]

end AtsFastcgi
