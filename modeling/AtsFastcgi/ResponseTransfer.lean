/-
What one read event does to the response: the calls of the decoder on the
blocks of the reader, as records.  Everything written to the client is
determined by the records that the calls finished.
-/
import AtsFastcgi.DecoderRefinement
import AtsFastcgi.ServerSteps

namespace AtsFastcgi

theorem dispatchOutput_append (parse : MimeHdrParse) (firstChunk : Bool)
    (front back : List FcgiRecordList) :
    dispatchOutput parse firstChunk (front ++ back) =
      dispatchOutput parse firstChunk front ++
        dispatchOutput parse (firstChunk && front.isEmpty) back := by
  induction front generalizing firstChunk with
  | nil => simp [dispatchOutput]
  | cons record rest ih => simp [dispatchOutput, ih]

/-- A block with bytes is given to the decoder. -/
theorem transferBlocks_cons {parse : MimeHdrParse} {t t' : Transfer}
    {block : Bytes} {rest : List Bytes} (hblock : block ≠ [])
    (hrun : transferBlocks parse t (block :: rest) = some t') :
    ∃ ret, fcgiDecodeRecordChunk parse t.decoder block = .returned ret ∧
      transferBlocks parse
        { responseStatus := ret.completed
          decoder := ret.decoder
          output := t.output ++ ret.output
          dispatched := t.dispatched ++ ret.dispatched } rest = some t' := by
  rw [transferBlocks, if_neg hblock] at hrun
  split at hrun
  · next ret hret => exact ⟨ret, hret, hrun⟩
  · contradiction

theorem transferBlocks_output (parse : MimeHdrParse) {blocks : List Bytes}
    {t t' : Transfer} (hrun : transferBlocks parse t blocks = some t') :
    ∃ finished, t'.dispatched = t.dispatched ++ finished ∧
      t'.output = t.output ++
        dispatchOutput parse t.decoder.firstChunk finished ∧
      t'.decoder.firstChunk =
        (t.decoder.firstChunk && finished.isEmpty) := by
  induction blocks generalizing t with
  | nil =>
      rw [← Option.some.inj hrun]
      exact ⟨[], by simp [dispatchOutput]⟩
  | cons block rest ih =>
      by_cases hblock : block = []
      · rw [transferBlocks, if_pos hblock] at hrun
        exact ih hrun
      · obtain ⟨ret, hret, hrest⟩ := transferBlocks_cons hblock hrun
        obtain ⟨hout, -, hfirst⟩ := fcgiProcessLoop_output parse hret
        obtain ⟨finished, hdispatched, houtput, hlast⟩ := ih hrest
        refine ⟨ret.dispatched ++ finished, ?_, ?_, ?_⟩
        · rw [hdispatched, List.append_assoc]
        · rw [houtput, hout, hfirst, dispatchOutput_append, List.append_assoc]
        · rw [hlast, hfirst]
          cases ret.dispatched <;> simp

/-- Text comes from a finished record, and that ends the first chunk. -/
theorem transferBlocks_firstChunk (parse : MimeHdrParse) {blocks : List Bytes}
    {d : ResponseDecoder} {t : Transfer}
    (hrun : transferBlocks parse { decoder := d } blocks = some t)
    (hopen : outputText t.output ≠ [] ∨ d.firstChunk = false) :
    t.decoder.firstChunk = false := by
  obtain ⟨finished, -, houtput, hfirst⟩ := transferBlocks_output parse hrun
  rw [hfirst]
  rcases hopen with htext | hdone
  · cases finished with
    | nil => simp [houtput, dispatchOutput, outputText] at htext
    | cons record rest => simp
  · simp [hdone]

end AtsFastcgi
