/-
Bounds of the response decoder.  The invariant of the record under
construction relates its state, length, offset and padding; from it follow
where one call can move `beg_buf`, the termination of the `while (1)` loop,
and the one situation in which the decoder leaves its chunk.
-/
import AtsFastcgi.RecordDecoder

namespace AtsFastcgi

theorem sizeT_natCast {n : Nat} (hn : n < 2 ^ 64) : sizeT n = n := by
  rw [sizeT]
  omega

theorem sizeT_sub {m n : Nat} (hle : n ≤ m) (hm : m < 2 ^ 64) :
    sizeT ((m : Int) - n) = m - n := by
  rw [← Int.ofNat_sub hle]
  exact sizeT_natCast (by omega)

theorem cInt_of_lt {n : Nat} (hn : n < 2 ^ 31) : cInt n = n := by
  unfold cInt
  exact Int.bmod_eq_of_le (by omega) (by omega)

theorem memcpy_length (dst src : Bytes) (offset : Nat)
    (hfits : offset + src.length ≤ dst.length) :
    (memcpy dst offset src).length = dst.length := by
  simp only [memcpy, List.length_append, List.length_take, List.length_drop]
  omega

/-- What holds of the record under construction between two calls. -/
def FcgiRecordList.WellFormed (record : FcgiRecordList) : Prop :=
  match record.state with
  | .contentProc =>
      record.content.length = record.length ∧
        record.length = record.header.contentLen ∧
        record.offset ≤ record.length
  | .padding =>
      record.content.length = record.length ∧
        record.length = record.header.contentLen ∧
        record.length ≤ record.offset ∧
        record.offset < record.length + record.header.paddingLength.toNat
  | .done =>
      record.content.length = record.length ∧
        record.length = record.header.contentLen
  | _ => record.length = 0 ∧ record.offset = 0

/-- A freshly constructed record. -/
theorem wellFormed_new : ({} : FcgiRecordList).WellFormed := by
  simp [FcgiRecordList.WellFormed]

/-- How much of the padding has not been skipped yet. -/
def FcgiRecordList.paddingLeft (record : FcgiRecordList) : Nat :=
  record.length + record.header.paddingLength.toNat - record.offset

/-- One header byte takes a header state to the next one. -/
theorem fcgiProcessHeader_again {record : FcgiRecordList} (ch : UInt8)
    (hstate : record.state.beforeContent = true) (hwf : record.WellFormed) :
    ∃ next, fcgiProcessHeader ch record = (.again, next) ∧
      next.WellFormed ∧
      (next.state.beforeContent = true ∨ next.state = .contentBegin) := by
  obtain ⟨header, content, state, length, offset⟩ := record
  cases state <;>
    simp_all [fcgiProcessHeader, FcgiState.beforeContent,
      FcgiRecordList.WellFormed]

theorem beginContent_of_begin {record : FcgiRecordList}
    (hstate : record.state = .contentBegin) (hwf : record.WellFormed) :
    (beginContent record).state = .contentProc ∧
      (beginContent record).WellFormed ∧
      (beginContent record).offset = 0 ∧
      (beginContent record).header = record.header := by
  simp only [FcgiRecordList.WellFormed, hstate] at hwf
  simp [beginContent, hstate, FcgiRecordList.WellFormed, hwf]

theorem beginContent_of_ne {record : FcgiRecordList}
    (hstate : record.state ≠ .contentBegin) : beginContent record = record := by
  simp [beginContent, hstate]

/-- The copier skips exactly the padding that is left, whatever the chunk. -/
theorem fcgiProcessContent_padding (buf : Bytes) {record : FcgiRecordList}
    (hstate : record.state = .padding) (hwf : record.WellFormed) :
    fcgiProcessContent buf record =
      { rv := .done
        record := { record with state := .done }
        moved := record.paddingLeft } := by
  simp only [FcgiRecordList.WellFormed, hstate] at hwf
  obtain ⟨-, hlength, hle, hlt⟩ := hwf
  have hlen := record.header.contentLen_lt
  have hpad := record.header.paddingLength.toNat_lt
  have hskip : sizeT (cInt record.length - cInt record.offset +
      record.header.paddingLength.toNat) = record.paddingLeft := by
    rw [cInt_of_lt (by omega), cInt_of_lt (by omega)]
    have hcast : (record.length : Int) - record.offset +
        record.header.paddingLength.toNat = (record.paddingLeft : Nat) := by
      rw [FcgiRecordList.paddingLeft]
      omega
    rw [hcast]
    exact sizeT_natCast (by rw [FcgiRecordList.paddingLeft]; omega)
  simp [fcgiProcessContent, hstate, hskip]

/-- The three ways the copier leaves a record whose content it was copying. -/
theorem fcgiProcessContent_proc (buf : Bytes) {record : FcgiRecordList}
    (hstate : record.state = .contentProc) (hwf : record.WellFormed) :
    let conLen := record.length - record.offset
    let totLen := conLen + record.header.paddingLength.toNat
    let content := memcpy record.content record.offset
      (buf.take (min conLen buf.length))
    fcgiProcessContent buf record =
      if totLen ≤ buf.length then
        { rv := .done
          record := { record with
            content := content, offset := record.offset + totLen
            state := .done }
          moved := totLen }
      else if conLen ≤ buf.length then
        { rv := .again
          record := { record with
            content := content, offset := record.offset + buf.length
            state := .padding }
          moved := buf.length }
      else
        { rv := .again
          record := { record with
            content := content, offset := record.offset + buf.length }
          moved := buf.length } := by
  simp only [FcgiRecordList.WellFormed, hstate] at hwf
  obtain ⟨-, hlength, hle⟩ := hwf
  have hlen := record.header.contentLen_lt
  have hpad := record.header.paddingLength.toNat_lt
  have hcon : sizeT ((record.length : Int) - record.offset) =
      record.length - record.offset := sizeT_sub hle (by omega)
  have htot : sizeT (((record.length - record.offset : Nat) : Int) +
      record.header.paddingLength.toNat) =
      record.length - record.offset + record.header.paddingLength.toNat := by
    rw [← Int.natCast_add]
    exact sizeT_natCast (by omega)
  have hmin : (if record.length - record.offset ≤ buf.length then
      record.length - record.offset else buf.length) =
      min (record.length - record.offset) buf.length := by
    split <;> omega
  simp only [fcgiProcessContent, hstate, reduceCtorEq, if_false, hcon, htot,
    hmin]

/-- What one call of `fcgiProcessRecord` can do to an unfinished record: it
finishes it, or it uses up the chunk.  Only a padding skip can move `beg_buf`
past the end, and only an empty record whose header ended the last chunk is
finished without moving it. -/
structure RecordStep (buf : Bytes) (record : FcgiRecordList) (a : Advance) :
    Prop where
  wellFormed : a.record.WellFormed
  outcome :
    (a.rv = .done ∧ a.record.state = .done) ∨
      (a.rv = .again ∧ a.record.state ≠ .done ∧ a.moved = buf.length)
  moved : record.state ≠ .padding → a.moved ≤ buf.length
  skipped : record.state = .padding →
    a.rv = .done ∧ a.moved = record.paddingLeft
  progress : record.state.beforeContent = true → 0 < a.moved

theorem recordStep_content {buf : Bytes} {record : FcgiRecordList}
    (hwf : record.WellFormed)
    (hstate : record.state = .contentProc ∨ record.state = .padding) :
    RecordStep buf record (fcgiProcessContent buf record) := by
  rcases hstate with hstate | hstate
  · have hrun := fcgiProcessContent_proc buf hstate hwf
    simp only [FcgiRecordList.WellFormed, hstate] at hwf
    obtain ⟨hcontent, hlength, hle⟩ := hwf
    have hcopy : (memcpy record.content record.offset
        (buf.take (min (record.length - record.offset) buf.length))).length =
        record.length := by
      rw [memcpy_length, hcontent]
      rw [List.length_take]
      omega
    simp only at hrun
    rw [hrun]
    split
    · exact {
        wellFormed := ⟨hcopy, hlength⟩
        outcome := .inl ⟨rfl, rfl⟩
        moved := fun _ => by assumption
        skipped := fun h => by simp [hstate] at h
        progress := fun h => by simp [hstate, FcgiState.beforeContent] at h }
    · split
      · exact {
          wellFormed := ⟨hcopy, hlength, by dsimp only; omega,
            by dsimp only; omega⟩
          outcome := .inr ⟨rfl, by simp, rfl⟩
          moved := fun _ => Nat.le_refl _
          skipped := fun h => by simp [hstate] at h
          progress := fun h => by simp [hstate, FcgiState.beforeContent] at h }
      · exact {
          wellFormed := by
            simp only [FcgiRecordList.WellFormed, hstate]
            exact ⟨hcopy, hlength, by omega⟩
          outcome := .inr ⟨rfl, by simp [hstate], rfl⟩
          moved := fun _ => Nat.le_refl _
          skipped := fun h => by simp [hstate] at h
          progress := fun h => by simp [hstate, FcgiState.beforeContent] at h }
  · rw [fcgiProcessContent_padding buf hstate hwf]
    simp only [FcgiRecordList.WellFormed, hstate] at hwf
    obtain ⟨hcontent, hlength, hle, hlt⟩ := hwf
    exact {
      wellFormed := ⟨hcontent, hlength⟩
      outcome := .inl ⟨rfl, rfl⟩
      moved := fun h => absurd hstate h
      skipped := fun _ => ⟨rfl, rfl⟩
      progress := fun h => by simp [hstate, FcgiState.beforeContent] at h }

theorem fcgiProcessRecord_step {buf : Bytes} {record : FcgiRecordList}
    (hbuf : buf ≠ []) (hwf : record.WellFormed)
    (hstate : record.state ≠ .done) :
    ∃ a, fcgiProcessRecord buf record = some a ∧ RecordStep buf record a := by
  induction buf generalizing record with
  | nil => exact absurd rfl hbuf
  | cons ch rest ih =>
      cases hheader : record.state.beforeContent with
      | true =>
          have hpad : record.state ≠ .padding := by
            intro h
            simp [h, FcgiState.beforeContent] at hheader
          obtain ⟨next, hnext, hnextWf, hnextState⟩ :=
            fcgiProcessHeader_again ch hheader hwf
          have hnextDone : next.state ≠ .done := by
            intro h
            simp [h, FcgiState.beforeContent] at hnextState
          by_cases hrest : rest = []
          · refine ⟨⟨.again, next, 1⟩, ?_, ?_⟩
            · simp [fcgiProcessRecord, hheader, hnext, hrest]
            · exact {
                wellFormed := hnextWf
                outcome := .inr ⟨rfl, hnextDone, by simp [hrest]⟩
                moved := fun _ => by simp
                skipped := fun h => absurd h hpad
                progress := fun _ => by simp }
          · obtain ⟨a, hrun, hstep⟩ := ih hrest hnextWf hnextDone
            refine ⟨{ a with moved := a.moved + 1 }, ?_, ?_⟩
            · simp [fcgiProcessRecord, hheader, hnext, hrest, hrun]
            · have hnextPad : next.state ≠ .padding := by
                intro h
                simp [h, FcgiState.beforeContent] at hnextState
              have hmoved := hstep.moved hnextPad
              exact {
                wellFormed := hstep.wellFormed
                outcome := by
                  rcases hstep.outcome with hdone | ⟨hrv, hst, hall⟩
                  · exact .inl hdone
                  · exact .inr ⟨hrv, hst, by simp [hall]⟩
                moved := fun _ => by
                  simp only [List.length_cons]
                  omega
                skipped := fun h => absurd h hpad
                progress := fun _ => by simp }
      | false =>
          have hrun : fcgiProcessRecord (ch :: rest) record =
              some (fcgiProcessContent (ch :: rest) (beginContent record)) := by
            simp [fcgiProcessRecord, hheader]
          refine ⟨_, hrun, ?_⟩
          by_cases hbegin : record.state = .contentBegin
          · obtain ⟨hproc, hbeginWf, -, -⟩ := beginContent_of_begin hbegin hwf
            have hstep : RecordStep (ch :: rest) (beginContent record)
                (fcgiProcessContent (ch :: rest) (beginContent record)) :=
              recordStep_content hbeginWf (.inl hproc)
            exact {
              wellFormed := hstep.wellFormed
              outcome := hstep.outcome
              moved := fun _ => hstep.moved (by simp [hproc])
              skipped := fun h => by simp [hbegin] at h
              progress := fun h => by simp [hheader] at h }
          · rw [beginContent_of_ne hbegin]
            apply recordStep_content hwf
            revert hheader hstate hbegin
            cases record.state <;> simp [FcgiState.beforeContent]

/-! ### The loop -/

/-- The chunk holds the rest of the padding the record is in. -/
def FcgiRecordList.PaddingFits (record : FcgiRecordList) (chunk : Bytes) :
    Prop :=
  record.state = .padding → record.paddingLeft ≤ chunk.length

instance (record : FcgiRecordList) (chunk : Bytes) :
    Decidable (record.PaddingFits chunk) :=
  inferInstanceAs (Decidable (_ → _))

theorem renewRecord_spec {record : FcgiRecordList} (hwf : record.WellFormed) :
    (renewRecord record).WellFormed ∧ (renewRecord record).state ≠ .done := by
  by_cases hdone : record.state = .done
  · simp [renewRecord, hdone, wellFormed_new]
  · simp [renewRecord, hdone, hwf]

theorem renewRecord_padding {record : FcgiRecordList} {chunk : Bytes}
    (hfits : record.PaddingFits chunk) :
    (renewRecord record).PaddingFits chunk := by
  by_cases hdone : record.state = .done
  · simp [renewRecord, hdone, FcgiRecordList.PaddingFits]
  · simpa [renewRecord, hdone] using hfits

/-- How many turns of the loop may still be needed: one per byte, and one
more when the first turn may leave `beg_buf` where it is. -/
def turns (record : FcgiRecordList) (buf : Bytes) : Nat :=
  if (renewRecord record).state.beforeContent then buf.length
  else buf.length + 1

/-- While the padding fits, the loop returns, and inside the chunk. -/
theorem fcgiProcessLoop_inside (parse : MimeHdrParse) {fuel : Nat}
    {firstChunk : Bool} {record : FcgiRecordList} {buf : Bytes}
    (hbuf : buf ≠ []) (hwf : record.WellFormed) (hfits : record.PaddingFits buf)
    (hfuel : turns record buf ≤ fuel) :
    ∃ ret, fcgiProcessLoop parse fuel firstChunk record buf = .returned ret ∧
      ret.moved ≤ buf.length := by
  induction fuel generalizing firstChunk record buf with
  | zero =>
      have hpos := List.length_pos_iff.mpr hbuf
      simp only [turns] at hfuel
      split at hfuel <;> omega
  | succ fuel ih =>
      obtain ⟨hrenewWf, hrenewState⟩ := renewRecord_spec hwf
      obtain ⟨a, hrun, hstep⟩ :=
        fcgiProcessRecord_step hbuf hrenewWf hrenewState
      have hle : a.moved ≤ buf.length := by
        by_cases hpad : (renewRecord record).state = .padding
        · rw [(hstep.skipped hpad).2]
          exact renewRecord_padding hfits hpad
        · exact hstep.moved hpad
      simp only [fcgiProcessLoop, hrun]
      rcases hstep.outcome with ⟨hrv, hdone⟩ | ⟨hrv, -, hall⟩
      · simp only [hrv, if_true]
        split
        · exact ⟨_, rfl, hle⟩
        · split
          · exact ⟨_, rfl, hle⟩
          · next hmore =>
              have hlen : (buf.drop a.moved).length = buf.length - a.moved :=
                List.length_drop
              have hrest : buf.drop a.moved ≠ [] :=
                List.ne_nil_of_length_pos (by omega)
              have hturns : turns a.record (buf.drop a.moved) ≤ fuel := by
                have hrenew : renewRecord a.record = {} := by
                  simp [renewRecord, hdone]
                have hfresh : turns a.record (buf.drop a.moved) =
                    buf.length - a.moved := by
                  simp [turns, hrenew, FcgiState.beforeContent]
                rw [hfresh]
                simp only [turns] at hfuel
                split at hfuel
                · next hheader =>
                    have := hstep.progress hheader
                    omega
                · omega
              have hnotPad : a.record.PaddingFits (buf.drop a.moved) := by
                simp [FcgiRecordList.PaddingFits, hdone]
              obtain ⟨ret, hret, hmoved⟩ :=
                @ih false _ _ hrest hstep.wellFormed hnotPad hturns
              rw [hret]
              refine ⟨_, rfl, ?_⟩
              dsimp only
              omega
      · simp only [hrv, reduceCtorEq, if_false, hall, if_true]
        exact ⟨_, rfl, Nat.le_refl _⟩

/-- When the padding does not fit, the skip passes `end_buf`: the call returns
from there or the next turn reads a header byte outside the chunk. -/
theorem fcgiProcessLoop_overshoot (parse : MimeHdrParse) (fuel : Nat)
    (firstChunk : Bool) {record : FcgiRecordList} {buf : Bytes}
    (hbuf : buf ≠ []) (hwf : record.WellFormed)
    (hover : ¬ record.PaddingFits buf) :
    fcgiProcessLoop parse (fuel + 2) firstChunk record buf = .readOutside ∨
      ∃ ret, fcgiProcessLoop parse (fuel + 2) firstChunk record buf =
        .returned ret ∧ buf.length < ret.moved := by
  have hpad : record.state = .padding := by
    by_contra h
    exact hover fun hp => absurd hp h
  have hleft : buf.length < record.paddingLeft := by
    by_contra h
    exact hover fun _ => by omega
  have hrenew : renewRecord record = record := by simp [renewRecord, hpad]
  obtain ⟨a, hrun, hstep⟩ :=
    fcgiProcessRecord_step hbuf hwf (by simp [hpad])
  obtain ⟨hrv, hmoved⟩ := hstep.skipped hpad
  have hdone : a.record.state = .done := by
    rcases hstep.outcome with h | h
    · exact h.2
    · simp [hrv] at h
  rw [fcgiProcessLoop]
  simp only [hrenew, hrun, hrv, if_true]
  split
  · exact .inr ⟨_, rfl, by dsimp only; omega⟩
  · rw [if_neg (by omega), List.drop_eq_nil_of_le (by omega)]
    left
    simp [fcgiProcessLoop, renewRecord, hdone, fcgiProcessRecord,
      FcgiState.beforeContent, BufferRun.after]

/-- Every return of the loop leaves a well-formed record. -/
theorem fcgiProcessLoop_wellFormed (parse : MimeHdrParse) {fuel : Nat}
    {firstChunk : Bool} {record : FcgiRecordList} {buf : Bytes}
    {ret : BufferReturn} (hbuf : buf ≠ []) (hwf : record.WellFormed)
    (hrun : fcgiProcessLoop parse fuel firstChunk record buf = .returned ret) :
    ∃ last, ret.decoder.headerRecord = some last ∧ last.WellFormed := by
  induction fuel generalizing firstChunk record buf ret with
  | zero => simp [fcgiProcessLoop] at hrun
  | succ fuel ih =>
      obtain ⟨hrenewWf, hrenewState⟩ := renewRecord_spec hwf
      obtain ⟨a, hstepRun, hstep⟩ :=
        fcgiProcessRecord_step hbuf hrenewWf hrenewState
      -- what the rest of the loop returns, when the chunk is not used up
      have hrest : ∀ {first : Bool} {output dispatched},
          a.moved ≠ buf.length →
          (fcgiProcessLoop parse fuel first a.record (buf.drop a.moved)).after
            output dispatched a.moved = .returned ret →
          ∃ last, ret.decoder.headerRecord = some last ∧ last.WellFormed := by
        intro first output dispatched hne hafter
        cases hloop : fcgiProcessLoop parse fuel first a.record
            (buf.drop a.moved) with
        | returned inner =>
            rw [hloop] at hafter
            simp only [BufferRun.after, BufferRun.returned.injEq] at hafter
            subst hafter
            by_cases hempty : buf.drop a.moved = []
            · rw [hempty] at hloop
              rcases hstep.outcome with ⟨-, hdone⟩ | ⟨-, -, hall⟩
              · cases fuel with
                | zero => simp [fcgiProcessLoop] at hloop
                | succ fuel =>
                    simp [fcgiProcessLoop, renewRecord, hdone,
                      fcgiProcessRecord, FcgiState.beforeContent] at hloop
              · exact absurd hall hne
            · obtain ⟨last, hlast, hwf⟩ := ih hempty hstep.wellFormed hloop
              exact ⟨last, hlast, hwf⟩
        | readOutside => simp [hloop, BufferRun.after] at hafter
        | running => simp [hloop, BufferRun.after] at hafter
      simp only [fcgiProcessLoop, hstepRun] at hrun
      split at hrun
      · split at hrun
        · cases hrun
          exact ⟨a.record, rfl, hstep.wellFormed⟩
        · split at hrun
          · cases hrun
            exact ⟨a.record, rfl, hstep.wellFormed⟩
          · next hne => exact hrest hne hrun
      · split at hrun
        · cases hrun
          exact ⟨a.record, rfl, hstep.wellFormed⟩
        · next hne => exact hrest hne hrun

/-! ### Decoders that have been fed -/

/-- The decoders reached from a fresh `FCGIClientRequest` by feeding it
non-empty chunks of any bytes. -/
inductive Fed (parse : MimeHdrParse) : ResponseDecoder → Prop
  | fresh : Fed parse {}
  | chunk {d : ResponseDecoder} {chunk : Bytes} {ret : BufferReturn}
      (hfed : Fed parse d) (hchunk : chunk ≠ [])
      (hrun : fcgiDecodeRecordChunk parse d chunk = .returned ret) :
      Fed parse ret.decoder

theorem Fed.wellFormed {parse : MimeHdrParse} {d : ResponseDecoder}
    (hfed : Fed parse d) : (d.headerRecord.getD {}).WellFormed := by
  induction hfed with
  | fresh => exact wellFormed_new
  | chunk _ hchunk hrun ih =>
      obtain ⟨last, hlast, hwf⟩ :=
        fcgiProcessLoop_wellFormed parse hchunk ih hrun
      simpa [hlast] using hwf

/-- A call stays inside its chunk: it returns, having read only bytes of the
chunk, and `beg_buf` is not past `end_buf`. -/
def StaysInside (parse : MimeHdrParse) (d : ResponseDecoder) (chunk : Bytes) :
    Prop :=
  ∃ ret, fcgiDecodeRecordChunk parse d chunk = .returned ret ∧
    ret.moved ≤ chunk.length

/-- The chunk holds the rest of the padding the decoder is in, if it is in
one. -/
def ResponseDecoder.PaddingFits (d : ResponseDecoder) (chunk : Bytes) : Prop :=
  (d.headerRecord.getD {}).PaddingFits chunk

instance (d : ResponseDecoder) (chunk : Bytes) :
    Decidable (d.PaddingFits chunk) :=
  inferInstanceAs (Decidable (FcgiRecordList.PaddingFits _ _))

/-- A decoder that has been fed any chunks handles the next one inside its
bounds exactly when that chunk holds the rest of the padding it begins in. -/
theorem staysInside_iff_paddingFits (parse : MimeHdrParse) (d : ResponseDecoder)
    (hfed : Fed parse d) (chunk : Bytes) (hchunk : chunk ≠ []) :
    StaysInside parse d chunk ↔ d.PaddingFits chunk := by
  constructor
  · rintro ⟨ret, hrun, hmoved⟩
    by_contra hover
    rcases fcgiProcessLoop_overshoot parse chunk.length d.firstChunk hchunk
      hfed.wellFormed hover with hout | ⟨past, hpast, hlt⟩
    · rw [fcgiDecodeRecordChunk, fcgiProcessBuffer, hout] at hrun
      contradiction
    · rw [fcgiDecodeRecordChunk, fcgiProcessBuffer, hpast,
        BufferRun.returned.injEq] at hrun
      subst hrun
      omega
  · intro hfits
    apply fcgiProcessLoop_inside parse hchunk hfed.wellFormed hfits
    rw [turns]
    split <;> omega

namespace DecoderSafetyWitness

/-- A parser that finds every header block complete and without fields. -/
def parse : MimeHdrParse := fun text => (.done, ⟨text, true, none⟩)

/-- An `FCGI_STDOUT` record of one content byte up to the end of its content:
two padding bytes are still to come. -/
def chunk : Bytes := [1, 6, 0, 1, 0, 1, 2, 0, 65]

def decoder : ResponseDecoder :=
  match fcgiDecodeRecordChunk parse {} chunk with
  | .returned ret => ret.decoder
  | _ => {}

theorem decoder_fed : Fed parse decoder := by
  have hrun : fcgiDecodeRecordChunk parse {} chunk =
      .returned ⟨false, decoder, [], [], 9⟩ := by decide
  exact .chunk .fresh (by decide) hrun

/-- One padding byte alone: the skip of two leaves the chunk. -/
theorem not_always_staysInside :
    ¬ ∀ (parse : MimeHdrParse) (d : ResponseDecoder), Fed parse d →
      ∀ chunk : Bytes, chunk ≠ [] → StaysInside parse d chunk := by
  intro h
  obtain ⟨ret, hrun, -⟩ := h parse decoder decoder_fed [0] (by decide)
  have hout : fcgiDecodeRecordChunk parse decoder [0] = .readOutside := by
    decide
  rw [hout] at hrun
  contradiction

/-- Both padding bytes in one chunk are skipped inside it. -/
theorem staysInside_twoBytes : StaysInside parse decoder [0, 0] :=
  (staysInside_iff_paddingFits parse decoder decoder_fed [0, 0]
    (by decide)).mpr (by decide)

end DecoderSafetyWitness

end AtsFastcgi
