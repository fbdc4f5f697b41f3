/-
The streaming decoder refines the record-level meaning of the response.  The
state between two calls is computed from the stream alone (`Record.after`):
one call takes the state after `k` bytes of a record to the state after the
bytes of its chunk, finishing the records that end inside it.
-/
import AtsFastcgi.DecoderSafety
import AtsFastcgi.ResponseSemantics
import Mathlib.Tactic.IntervalCases

namespace AtsFastcgi

/-! ### The header automaton on several bytes -/

/-- How many header bytes the state is still waiting for. -/
def headerLeft : FcgiState → Nat
  | .version => 8
  | .type => 7
  | .requestIdHi => 6
  | .requestIdLo => 5
  | .contentLenHi => 4
  | .contentLenLo => 3
  | .paddingLen => 2
  | .reserved => 1
  | .contentBegin | .contentProc | .padding | .done => 0

theorem beforeContent_iff_headerLeft (state : FcgiState) :
    state.beforeContent = true ↔ 0 < headerLeft state := by
  cases state <;> simp [FcgiState.beforeContent, headerLeft]

def headerRun (bytes : Bytes) (record : FcgiRecordList) : FcgiRecordList :=
  bytes.foldl (fun record ch => (fcgiProcessHeader ch record).2) record

theorem fcgiProcessHeader_left (ch : UInt8) {record : FcgiRecordList}
    (hleft : 0 < headerLeft record.state) :
    (fcgiProcessHeader ch record).1 = .again ∧
      headerLeft (fcgiProcessHeader ch record).2.state + 1 =
        headerLeft record.state := by
  obtain ⟨header, content, state, length, offset⟩ := record
  cases state <;> simp_all [fcgiProcessHeader, headerLeft]

/-- Header bytes that end the chunk. -/
theorem fcgiProcessRecord_header_last {bytes : Bytes}
    {record : FcgiRecordList} (hbytes : bytes ≠ [])
    (hleft : bytes.length ≤ headerLeft record.state) :
    fcgiProcessRecord bytes record =
      some ⟨.again, headerRun bytes record, bytes.length⟩ := by
  induction bytes generalizing record with
  | nil => exact absurd rfl hbytes
  | cons ch rest ih =>
      simp only [List.length_cons] at hleft
      have hpos : 0 < headerLeft record.state := by omega
      obtain ⟨hagain, hnext⟩ := fcgiProcessHeader_left ch hpos
      have hbefore := (beforeContent_iff_headerLeft _).mpr hpos
      by_cases hrest : rest = []
      · simp [fcgiProcessRecord, hbefore, hagain, hrest, headerRun]
      · have hrun := @ih (fcgiProcessHeader ch record).2 hrest (by omega)
        simp [fcgiProcessRecord, hbefore, hagain, hrest, hrun, headerRun]

/-- Header bytes with more of the chunk after them. -/
theorem fcgiProcessRecord_header_append {bytes rest : Bytes}
    {record : FcgiRecordList} (hrest : rest ≠ [])
    (hleft : bytes.length ≤ headerLeft record.state) :
    fcgiProcessRecord (bytes ++ rest) record =
      (fcgiProcessRecord rest (headerRun bytes record)).map fun a =>
        { a with moved := a.moved + bytes.length } := by
  induction bytes generalizing record with
  | nil => simp [headerRun]
  | cons ch tail ih =>
      simp only [List.length_cons] at hleft
      have hpos : 0 < headerLeft record.state := by omega
      obtain ⟨hagain, hnext⟩ := fcgiProcessHeader_left ch hpos
      have hbefore := (beforeContent_iff_headerLeft _).mpr hpos
      have hrun := @ih (fcgiProcessHeader ch record).2 (by omega)
      simp only [List.cons_append, fcgiProcessRecord, hbefore, if_true, hagain,
        reduceCtorEq, if_false, List.append_eq_nil_iff, hrest, and_false, hrun,
        Option.map_map]
      rfl

/-! ### The state inside a record -/

/-- The record under construction with `o` content bytes copied. -/
def Record.copied (r : Record) (o : Nat) : FcgiRecordList where
  header := r.header
  content := r.content.take o ++ List.replicate (r.content.length - o) 0
  state := .contentProc
  length := r.content.length
  offset := o

/-- The record under construction after the first `k` bytes of `r`, while `r`
is not finished. -/
def Record.after (r : Record) (k : Nat) : FcgiRecordList :=
  if k ≤ 8 then headerRun (r.header.bytes.take k) {}
  else if k < 8 + r.content.length then r.copied (k - 8)
  else
    { header := r.header, content := r.content, state := .padding
      length := r.content.length, offset := k - 8 }

theorem Record.after_header (r : Record) :
    r.after 8 = { header := r.header, state := .contentBegin } := rfl

theorem Record.headerLeft_after (r : Record) {k : Nat} (hk : k ≤ 8) :
    headerLeft (r.after k).state = 8 - k := by
  interval_cases k <;> rfl

theorem Record.headerRun_after (r : Record) {k j : Nat} (hkj : k + j ≤ 8) :
    headerRun ((r.header.bytes.drop k).take j) (r.after k) = r.after (k + j) := by
  simp only [Record.after, show k ≤ 8 by omega, hkj, if_true, List.take_add,
    headerRun, List.foldl_append]

/-- The decoder's copy of a record: what dispatch reads of it. -/
structure IsRecord (record : FcgiRecordList) (r : Record) : Prop where
  state : record.state = .done
  header : record.header = r.header
  text : record.text = r.content

theorem memcpy_copied (content : Bytes) {o m : Nat}
    (hfits : o + m ≤ content.length) :
    memcpy (content.take o ++ List.replicate (content.length - o) 0) o
      ((content.drop o).take m) =
      content.take (o + m) ++ List.replicate (content.length - (o + m)) 0 := by
  have hlen : (content.take o).length = o := by
    rw [List.length_take]
    omega
  have hsrc : ((content.drop o).take m).length = m := by
    rw [List.length_take, List.length_drop]
    omega
  have hrest : (content.take o ++
      List.replicate (content.length - o) (0 : UInt8)).drop (o + m) =
      List.replicate (content.length - (o + m)) 0 := by
    rw [List.drop_append, List.drop_eq_nil_of_le (by omega), hlen,
      List.nil_append, List.drop_replicate]
    congr 1
    omega
  rw [memcpy, hsrc, hrest, List.take_left' hlen, List.take_add]

theorem Record.copied_wellFormed (r : Record) {o : Nat}
    (ho : o ≤ r.content.length) : (r.copied o).WellFormed := by
  simp only [FcgiRecordList.WellFormed, Record.copied, header_contentLen,
    List.length_append, List.length_take, List.length_replicate, true_and]
  omega

/-- The bytes the copier takes are those of the record. -/
theorem take_of_cut {buf more source tail : Bytes} {n : Nat}
    (hcut : buf ++ more = source ++ tail) (hbuf : n ≤ buf.length)
    (hsource : n ≤ source.length) : buf.take n = source.take n := by
  have htake := congrArg (List.take n) hcut
  rwa [List.take_append_of_le_length hbuf,
    List.take_append_of_le_length hsource] at htake

theorem drop_of_cut {buf more front back : Bytes}
    (hcut : buf ++ more = front ++ back) (hle : front.length ≤ buf.length) :
    buf.drop front.length ++ more = back := by
  have hdrop := congrArg (List.drop front.length) hcut
  rwa [List.drop_append_of_le_length hle, List.drop_left] at hdrop

/-- The copier on a chunk that continues the content of `r` at `o`. -/
theorem fcgiProcessContent_copied (r : Record) {o : Nat}
    {buf more tail : Bytes} (ho : o ≤ r.content.length) (hbuf : buf ≠ [])
    (hcut : buf ++ more = r.content.drop o ++ tail) :
    if r.encode.length ≤ 8 + o + buf.length then
      (fcgiProcessContent buf (r.copied o)).rv = .done ∧
        IsRecord (fcgiProcessContent buf (r.copied o)).record r ∧
        (fcgiProcessContent buf (r.copied o)).moved =
          r.encode.length - (8 + o)
    else
      fcgiProcessContent buf (r.copied o) =
        ⟨.again, r.after (8 + o + buf.length), buf.length⟩ := by
  have hpos : 0 < buf.length := List.length_pos_iff.mpr hbuf
  have hlen := r.encode_length
  have hrun := fcgiProcessContent_proc buf rfl (r.copied_wellFormed ho)
  have hsource : ∀ n, n ≤ buf.length → n ≤ r.content.length - o →
      memcpy (r.copied o).content o (buf.take n) = (r.copied (o + n)).content := by
    intro n hn hno
    have hdrop : n ≤ (r.content.drop o).length := by
      rw [List.length_drop]
      exact hno
    rw [take_of_cut hcut hn hdrop]
    exact memcpy_copied r.content (by omega)
  simp only [show (r.copied o).length = r.content.length from rfl,
    show (r.copied o).offset = o from rfl,
    show (r.copied o).header = r.header from rfl,
    Record.header_paddingLength] at hrun
  rw [hsource _ (Nat.min_le_right _ _) (Nat.min_le_left _ _)] at hrun
  have hfull : (r.copied (o + (r.content.length - o))).content = r.content := by
    rw [show o + (r.content.length - o) = r.content.length by omega]
    simp [Record.copied]
  split
  · next hdone =>
      rw [if_pos (by omega), Nat.min_eq_left (by omega), hfull] at hrun
      rw [hrun]
      refine ⟨rfl, ⟨rfl, rfl, ?_⟩, by dsimp only; omega⟩
      simp [FcgiRecordList.text]
  · next hmore =>
      rw [if_neg (by omega)] at hrun
      rw [hrun]
      by_cases hcopy : r.content.length - o ≤ buf.length
      · rw [if_pos hcopy, Nat.min_eq_left hcopy, hfull]
        have hafter : r.after (8 + o + buf.length) =
            { header := r.header, content := r.content, state := .padding
              length := r.content.length, offset := o + buf.length } := by
          rw [Record.after, if_neg (by omega), if_neg (by omega),
            show 8 + o + buf.length - 8 = o + buf.length by omega]
        rw [hafter]
      · rw [if_neg hcopy, Nat.min_eq_right (by omega)]
        have hafter : r.after (8 + o + buf.length) =
            r.copied (o + buf.length) := by
          rw [Record.after, if_neg (by omega), if_pos (by omega),
            show 8 + o + buf.length - 8 = o + buf.length by omega]
        rw [hafter]
        rfl

theorem Record.encode_drop_header (r : Record) {k : Nat} (hk : k ≤ 8) :
    r.encode.drop k = r.header.bytes.drop k ++ (r.content ++ r.padding) := by
  rw [Record.encode, List.drop_append_of_le_length (by simpa using hk)]

theorem Record.encode_drop_content (r : Record) {o : Nat}
    (ho : o ≤ r.content.length) :
    r.encode.drop (8 + o) = r.content.drop o ++ r.padding := by
  have hheader : r.header.bytes.drop 8 = [] := rfl
  rw [← List.drop_drop, r.encode_drop_header (Nat.le_refl 8), hheader,
    List.nil_append, List.drop_append_of_le_length ho]

/-- After the header the call goes straight to the copier. -/
theorem fcgiProcessRecord_content (r : Record) {o : Nat} {buf : Bytes}
    (ho : o < r.content.length ∨ o = 0) (hbuf : buf ≠ []) :
    fcgiProcessRecord buf (r.after (8 + o)) =
      some (fcgiProcessContent buf (r.copied o)) := by
  obtain ⟨ch, rest, rfl⟩ := List.exists_cons_of_ne_nil hbuf
  by_cases hzero : o = 0
  · subst hzero
    have hbegin : beginContent (r.after 8) = r.copied 0 := by
      simp [Record.after_header, beginContent, Record.copied]
    rw [Nat.add_zero, ← hbegin]
    simp [fcgiProcessRecord, Record.after_header, FcgiState.beforeContent]
  · have hafter : r.after (8 + o) = r.copied o := by
      rw [Record.after, if_neg (by omega), if_pos (by omega),
        Nat.add_sub_cancel_left]
    simp [hafter, fcgiProcessRecord, Record.copied, FcgiState.beforeContent,
      beginContent]

/-- A chunk that begins at or inside the padding of the record holds the rest
of it. -/
def Record.PaddingHeldAt (r : Record) (k : Nat) (chunk : Bytes) : Prop :=
  8 + r.content.length ≤ k → k < r.encode.length →
    r.encode.length - k ≤ chunk.length

/-- After `k` bytes of the record the decoder is in its padding. -/
def Record.SkipsAt (r : Record) (k : Nat) : Prop :=
  8 < k ∧ 8 + r.content.length ≤ k ∧ k < r.encode.length

instance (r : Record) (k : Nat) : Decidable (r.SkipsAt k) :=
  inferInstanceAs (Decidable (_ ∧ _))

/-- A call in the padding skips to its end, whatever the chunk holds. -/
theorem fcgiProcessRecord_skips (r : Record) {k : Nat} {buf : Bytes}
    (hskip : r.SkipsAt k) (hbuf : buf ≠ []) :
    ∃ a, fcgiProcessRecord buf (r.after k) = some a ∧ a.rv = .done ∧
      IsRecord a.record r ∧ a.moved = r.encode.length - k := by
  obtain ⟨hheader, hcontent, hinside⟩ := hskip
  have hlen := r.encode_length
  have hafter : r.after k =
      { header := r.header, content := r.content, state := .padding
        length := r.content.length, offset := k - 8 } := by
    rw [Record.after, if_neg (by omega), if_neg (by omega)]
  have hwf : (r.after k).WellFormed := by
    rw [hafter]
    simp only [FcgiRecordList.WellFormed, Record.header_contentLen,
      Record.header_paddingLength, true_and]
    omega
  obtain ⟨ch, rest, rfl⟩ := List.exists_cons_of_ne_nil hbuf
  have hrun : fcgiProcessRecord (ch :: rest) (r.after k) =
      some (fcgiProcessContent (ch :: rest) (r.after k)) := by
    simp [fcgiProcessRecord, hafter, FcgiState.beforeContent, beginContent]
  have hrecord : IsRecord { r.after k with state := .done } r := by
    refine ⟨rfl, by rw [hafter], ?_⟩
    simp [hafter, FcgiRecordList.text]
  have hmoved : (r.after k).paddingLeft = r.encode.length - k := by
    rw [hafter]
    simp only [FcgiRecordList.paddingLeft, Record.header_paddingLength]
    omega
  rw [fcgiProcessContent_padding _ (by rw [hafter]) hwf, hmoved] at hrun
  exact ⟨_, hrun, rfl, hrecord, rfl⟩

/-- What one call does to a record it is inside of. -/
def RecordOutcome (r : Record) (k : Nat) (buf : Bytes) (a : Advance) : Prop :=
  if r.FinishedAt (k + buf.length) then
    a.rv = .done ∧ IsRecord a.record r ∧ a.moved = r.encode.length - k
  else
    a = ⟨.again, r.after (k + buf.length), buf.length⟩

theorem recordOutcome_copied (r : Record) {o : Nat} {buf more tail : Bytes}
    (ho : o ≤ r.content.length) (hbuf : buf ≠ [])
    (hcut : buf ++ more = r.content.drop o ++ tail) :
    RecordOutcome r (8 + o) buf (fcgiProcessContent buf (r.copied o)) := by
  have hpos : 0 < buf.length := List.length_pos_iff.mpr hbuf
  have hcopy := fcgiProcessContent_copied r ho hbuf hcut
  by_cases hdone : r.encode.length ≤ 8 + o + buf.length
  · rw [if_pos hdone] at hcopy
    rw [RecordOutcome, if_pos ⟨hdone, by omega⟩]
    exact hcopy
  · rw [if_neg hdone] at hcopy
    rw [RecordOutcome, if_neg (fun h => hdone h.1)]
    exact hcopy

/-- A call that begins inside the padding skips to its end, past the end of
the chunk if that comes first. -/
structure Overshoots (r : Record) (k : Nat) (buf : Bytes) (a : Advance) :
    Prop where
  padding : 8 + r.content.length ≤ k
  rv : a.rv = .done
  record : IsRecord a.record r
  moved : a.moved = r.encode.length - k
  outside : buf.length < a.moved

/-- One call of `fcgiProcessRecord`, `k` bytes into the record `r`. -/
theorem fcgiProcessRecord_outcome (r : Record) {k : Nat}
    {buf more tail : Bytes} (hk : ¬ r.FinishedAt k)
    (hle : k ≤ r.encode.length) (hbuf : buf ≠ [])
    (hcut : buf ++ more = r.encode.drop k ++ tail) :
    ∃ a, fcgiProcessRecord buf (r.after k) = some a ∧
      (RecordOutcome r k buf a ∨ Overshoots r k buf a) := by
  have hpos : 0 < buf.length := List.length_pos_iff.mpr hbuf
  have hlen := r.encode_length
  by_cases hheader : k < 8
  · rw [r.encode_drop_header (by omega), List.append_assoc] at hcut
    have hhead : (r.header.bytes.drop k).length = 8 - k := by simp
    by_cases hinside : k + buf.length ≤ 8
    · -- the chunk ends inside the header or with it
      have hbytes : buf = (r.header.bytes.drop k).take buf.length := by
        have htake := take_of_cut hcut (Nat.le_refl _) (by omega)
        rwa [List.take_length] at htake
      refine ⟨_, fcgiProcessRecord_header_last hbuf ?_, .inl ?_⟩
      · rw [r.headerLeft_after (by omega)]
        omega
      · rw [RecordOutcome, if_neg (fun h => by have := h.2; omega)]
        rw [← r.headerRun_after (by omega), ← hbytes]
    · -- the rest of the header, then the copier
      have hfront : buf.take (8 - k) = r.header.bytes.drop k := by
        rw [take_of_cut hcut (by omega) (by omega)]
        exact List.take_of_length_le (by omega)
      have hsplit : buf = r.header.bytes.drop k ++ buf.drop (8 - k) := by
        rw [← hfront, List.take_append_drop]
      have hback : (buf.drop (8 - k)).length = buf.length - (8 - k) :=
        List.length_drop
      have hbackNe : buf.drop (8 - k) ≠ [] :=
        List.ne_nil_of_length_pos (by omega)
      have hrest : buf.drop (8 - k) ++ more =
          r.content.drop 0 ++ (r.padding ++ tail) := by
        rw [hsplit, List.append_assoc, List.append_cancel_left_eq] at hcut
        simpa using hcut
      have hrun := fcgiProcessRecord_header_append hbackNe
        (show (r.header.bytes.drop k).length ≤ headerLeft (r.after k).state by
          rw [r.headerLeft_after (by omega)]
          omega)
      have hheaderRun : headerRun (r.header.bytes.drop k) (r.after k) =
          r.after (8 + 0) := by
        have htake : (r.header.bytes.drop k).take (8 - k) =
            r.header.bytes.drop k := List.take_of_length_le (by omega)
        rw [← htake, r.headerRun_after (by omega),
          show k + (8 - k) = 8 + 0 by omega]
      rw [← hsplit, hheaderRun,
        fcgiProcessRecord_content r (.inr rfl) hbackNe] at hrun
      have hout := recordOutcome_copied r (Nat.zero_le _) hbackNe hrest
      refine ⟨_, hrun, .inl ?_⟩
      have hcount : 8 + 0 + (buf.drop (8 - k)).length = k + buf.length := by
        omega
      rw [RecordOutcome, hcount] at hout
      rw [RecordOutcome]
      split at hout
      · next hdone =>
          rw [if_pos hdone]
          obtain ⟨hrv, hrecord, hmoved⟩ := hout
          exact ⟨hrv, hrecord, by dsimp only; omega⟩
      · next hmore =>
          rw [if_neg hmore, hout]
          simp only [Advance.mk.injEq, true_and]
          omega
  · obtain ⟨o, rfl⟩ : ∃ o, k = 8 + o := ⟨k - 8, by omega⟩
    by_cases hcontent : o < r.content.length ∨ o = 0
    · have ho : o ≤ r.content.length := by omega
      rw [r.encode_drop_content ho, List.append_assoc] at hcut
      exact ⟨_, fcgiProcessRecord_content r hcontent hbuf,
        .inl (recordOutcome_copied r ho hbuf hcut)⟩
    · -- the padding
      have hinside : 8 + o < r.encode.length := by
        by_contra h
        exact hk ⟨by omega, by omega⟩
      obtain ⟨a, hrun, hrv, hrecord, hmoved⟩ := fcgiProcessRecord_skips r
        ⟨by omega, by omega, hinside⟩ hbuf
      refine ⟨a, hrun, ?_⟩
      by_cases hheld : r.encode.length - (8 + o) ≤ buf.length
      · left
        rw [RecordOutcome, if_pos ⟨by omega, by omega⟩]
        exact ⟨hrv, hrecord, hmoved⟩
      · right
        exact ⟨by omega, hrv, hrecord, hmoved, by omega⟩

/-- A chunk that holds the padding is not left. -/
theorem fcgiProcessRecord_after (r : Record) {k : Nat} {buf more tail : Bytes}
    (hk : ¬ r.FinishedAt k) (hle : k ≤ r.encode.length) (hbuf : buf ≠ [])
    (hcut : buf ++ more = r.encode.drop k ++ tail)
    (hpad : r.PaddingHeldAt k buf) :
    ∃ a, fcgiProcessRecord buf (r.after k) = some a ∧
      RecordOutcome r k buf a := by
  obtain ⟨a, hrun, hout | hover⟩ :=
    fcgiProcessRecord_outcome r hk hle hbuf hcut
  · exact ⟨a, hrun, hout⟩
  · have houtside := hover.outside
    rw [hover.moved] at houtside
    have hheld := hpad hover.padding (by omega)
    exact absurd houtside (Nat.not_lt.mpr hheld)

theorem Record.after_state_ne_done (r : Record) (k : Nat) :
    (r.after k).state ≠ .done := by
  by_cases hk : k ≤ 8
  · interval_cases k <;> exact FcgiState.noConfusion
  · rw [Record.after, if_neg hk]
    split <;> simp [Record.copied]

theorem Record.renew_after (r : Record) (k : Nat) :
    renewRecord (r.after k) = r.after k := by
  simp [renewRecord, r.after_state_ne_done k]

/-! ### One chunk -/

/-- The output of records dispatched in order. -/
def dispatchOutput (parse : MimeHdrParse) :
    Bool → List FcgiRecordList → List OutputPiece
  | _, [] => []
  | firstChunk, record :: rest =>
      recordOutput parse firstChunk record ++ dispatchOutput parse false rest

def FcgiRecordList.ends (record : FcgiRecordList) : Bool :=
  endsResponse record.header.type

/-- What a call wrote and returned is determined by the records it finished. -/
theorem fcgiProcessLoop_output (parse : MimeHdrParse) {fuel : Nat}
    {firstChunk : Bool} {record : FcgiRecordList} {buf : Bytes}
    {ret : BufferReturn}
    (hrun : fcgiProcessLoop parse fuel firstChunk record buf = .returned ret) :
    ret.output = dispatchOutput parse firstChunk ret.dispatched ∧
      ret.completed = ret.dispatched.any FcgiRecordList.ends ∧
      ret.decoder.firstChunk = (firstChunk && ret.dispatched.isEmpty) := by
  induction fuel generalizing firstChunk record buf ret with
  | zero => simp [fcgiProcessLoop] at hrun
  | succ fuel ih =>
      simp only [fcgiProcessLoop] at hrun
      split at hrun
      · contradiction
      · next a _ =>
          split at hrun
          · split at hrun
            · next hends =>
                cases hrun
                simp [dispatchOutput, FcgiRecordList.ends, hends]
            · next hends =>
                split at hrun
                · cases hrun
                  simp [dispatchOutput, FcgiRecordList.ends, hends]
                · cases hloop : fcgiProcessLoop parse fuel false a.record
                    (buf.drop a.moved) <;>
                    simp only [hloop, BufferRun.after, reduceCtorEq,
                      BufferRun.returned.injEq] at hrun
                  obtain ⟨hout, hcompleted, hfirst⟩ := ih hloop
                  subst hrun
                  simp [dispatchOutput, FcgiRecordList.ends, hends, hout,
                    hcompleted, hfirst]
          · split at hrun
            · cases hrun
              simp [dispatchOutput]
            · cases hloop : fcgiProcessLoop parse fuel firstChunk a.record
                (buf.drop a.moved) <;>
                simp only [hloop, BufferRun.after, reduceCtorEq,
                  BufferRun.returned.injEq] at hrun
              obtain ⟨hout, hcompleted, hfirst⟩ := ih hloop
              subst hrun
              simp [hout, hcompleted, hfirst]

/-- The decoder's record stands `k` bytes into the unfinished records. -/
def AlignedAt (record : FcgiRecordList) : List Record → Nat → Prop
  | [], k => k = 0 ∧ renewRecord record = {}
  | r :: _, k =>
      ¬ r.FinishedAt k ∧ k ≤ r.encode.length ∧
        renewRecord record = r.after k

theorem alignedAt_zero {record : FcgiRecordList} (recs : List Record)
    (hrenew : renewRecord record = {}) : AlignedAt record recs 0 := by
  cases recs with
  | nil => exact ⟨rfl, hrenew⟩
  | cons r rest => exact ⟨fun h => by simpa using h.2, Nat.zero_le _, hrenew⟩

/-- The first unfinished record has its padding in one piece from here on. -/
def PaddingHeldNext (recs : List Record) (k : Nat) (chunk : Bytes) : Prop :=
  ∀ r ∈ recs.head?, r.PaddingHeldAt k chunk

/-- The first unfinished record does not make the call leave the chunk. -/
def OutcomeNext (recs : List Record) (k : Nat) (buf : Bytes) : Prop :=
  ∀ r ∈ recs.head?, ∃ a, fcgiProcessRecord buf (r.after k) = some a ∧
    RecordOutcome r k buf a

theorem PaddingHeldNext.outcomeNext {record : FcgiRecordList}
    {recs : List Record} {k : Nat} {buf more : Bytes}
    (hpad : PaddingHeldNext recs k buf) (haligned : AlignedAt record recs k)
    (hbuf : buf ≠ [])
    (hcut : buf ++ more = (Record.code.encodeAll recs).drop k) :
    OutcomeNext recs k buf := by
  intro r hr
  cases recs with
  | nil => contradiction
  | cons head rest =>
      obtain rfl := Option.some.inj hr
      obtain ⟨hk, hle, -⟩ := haligned
      rw [PrefixCode.encodeAll_cons, Record.code_encode,
        List.drop_append_of_le_length hle] at hcut
      exact fcgiProcessRecord_after _ hk hle hbuf hcut (hpad _ rfl)

/-- One chunk of an aligned stream: the call finishes the records that end in
it, up to the end of the response, and stays aligned. -/
theorem fcgiProcessLoop_aligned (parse : MimeHdrParse) {fuel : Nat}
    {firstChunk : Bool} {record : FcgiRecordList} {recs : List Record}
    {k : Nat} {buf more : Bytes} (haligned : AlignedAt record recs k)
    (hbuf : buf ≠ [])
    (hcut : buf ++ more = (Record.code.encodeAll recs).drop k)
    (hfirst : OutcomeNext recs k buf)
    (hfuel : buf.length + (if k = 0 then 1 else 2) ≤ fuel) :
    ∃ ret, fcgiProcessLoop parse fuel firstChunk record buf = .returned ret ∧
      List.Forall₂ IsRecord ret.dispatched
        (untilEnd (finishedBy recs (k + buf.length))) ∧
      (ret.completed = false → ∃ last rest,
        ret.decoder.headerRecord = some last ∧
        recs = finishedBy recs (k + buf.length) ++ rest ∧
        AlignedAt last rest (k + buf.length -
          (Record.code.encodeAll (finishedBy recs (k + buf.length))).length)) := by
  induction recs generalizing fuel firstChunk record k buf with
  | nil =>
      have hempty : buf = [] := by
        have hnil : buf ++ more = [] := by simpa using hcut
        exact (List.append_eq_nil_iff.mp hnil).1
      exact absurd hempty hbuf
  | cons r rest ih =>
      obtain ⟨hk, hle, hrenew⟩ := haligned
      have hpos : 0 < buf.length := List.length_pos_iff.mpr hbuf
      obtain ⟨fuel, rfl⟩ : ∃ n, fuel = n + 1 := ⟨fuel - 1, by
        split at hfuel <;> omega⟩
      rw [PrefixCode.encodeAll_cons, Record.code_encode,
        List.drop_append_of_le_length hle] at hcut
      obtain ⟨a, hrun, hout⟩ := hfirst r rfl
      rw [fcgiProcessLoop, hrenew, hrun]
      simp only [RecordOutcome] at hout
      by_cases hdone : r.FinishedAt (k + buf.length)
      · rw [if_pos hdone] at hout
        obtain ⟨hrv, hrecord, hmoved⟩ := hout
        have hfin : finishedBy (r :: rest) (k + buf.length) =
            r :: finishedBy rest (k + buf.length - r.encode.length) := by
          simp [finishedBy, hdone]
        have hends : endsResponse a.record.header.type = r.ends := by
          rw [hrecord.header]
          rfl
        have hrenewed : renewRecord a.record = {} := by
          simp [renewRecord, hrecord.state]
        have htotal := hdone.1
        simp only [hrv, if_true, hends]
        by_cases hlast : r.ends = true
        · rw [if_pos hlast]
          refine ⟨_, rfl, ?_, by simp⟩
          rw [hfin]
          simpa [untilEnd, hlast] using hrecord
        · rw [if_neg hlast]
          by_cases hall : a.moved = buf.length
          · rw [if_pos hall]
            have hzero : k + buf.length - r.encode.length = 0 := by omega
            rw [hzero, finishedBy_zero] at hfin
            refine ⟨_, rfl, ?_, fun _ => ⟨a.record, rest, rfl, ?_, ?_⟩⟩
            · rw [hfin]
              simpa [untilEnd, hlast] using hrecord
            · rw [hfin]
              rfl
            · rw [hfin]
              have hstart : k + buf.length -
                  (Record.code.encodeAll [r]).length = 0 := by simpa using hzero
              rw [hstart]
              exact alignedAt_zero rest hrenewed
          · rw [if_neg hall]
            have hlen : (buf.drop a.moved).length = buf.length - a.moved :=
              List.length_drop
            have hcut' : buf.drop a.moved ++ more =
                (Record.code.encodeAll rest).drop 0 := by
              have hfront : a.moved = (r.encode.drop k).length := by
                rw [List.length_drop]
                exact hmoved
              rw [hfront]
              exact drop_of_cut hcut (by rw [List.length_drop]; omega)
            have hrestNe : buf.drop a.moved ≠ [] :=
              List.ne_nil_of_length_pos (by omega)
            have halignedRest := alignedAt_zero rest hrenewed
            have hheld : PaddingHeldNext rest 0 (buf.drop a.moved) := by
              intro r' _ hbefore
              omega
            have houtcome := hheld.outcomeNext halignedRest hrestNe hcut'
            have hfuel' : (buf.drop a.moved).length + (if 0 = 0 then 1 else 2) ≤
                fuel := by
              have hge := r.encode_length_ge
              simp only [if_true]
              split at hfuel <;> omega
            obtain ⟨ret, hret, hdispatched, hnext⟩ := @ih fuel false a.record 0
              (buf.drop a.moved) halignedRest hrestNe hcut' houtcome hfuel'
            have hcount : 0 + (buf.drop a.moved).length =
                k + buf.length - r.encode.length := by omega
            rw [hcount] at hdispatched hnext
            rw [hret]
            refine ⟨_, rfl, ?_, ?_⟩
            · rw [hfin, untilEnd, if_neg hlast]
              exact .cons hrecord hdispatched
            · intro hcompleted
              obtain ⟨last, left, hlastRec, hsplit, hal⟩ := hnext hcompleted
              refine ⟨last, left, hlastRec, ?_, ?_⟩
              · rw [hfin, List.cons_append, ← hsplit]
              · rw [hfin]
                simpa [Nat.sub_sub] using hal
      · rw [if_neg hdone] at hout
        have hfin : finishedBy (r :: rest) (k + buf.length) = [] := by
          simp [finishedBy, hdone]
        have hinside : k + buf.length ≤ r.encode.length := by
          have hge := r.encode_length_ge
          by_contra h
          exact hdone ⟨by omega, by omega⟩
        subst hout
        simp only [reduceCtorEq, if_false, if_true, hfin]
        refine ⟨_, rfl, .nil, fun _ => ⟨_, r :: rest, rfl, rfl, ?_⟩⟩
        simpa using ⟨hdone, hinside, r.renew_after _⟩

/-! ### Any cut into chunks -/

/-- Feed chunks in order until a call returns true.  The result is what the
calls wrote and whether one of them returned true; `none` if a call leaves its
chunk. -/
def decodeChunks (parse : MimeHdrParse) :
    ResponseDecoder → List Bytes → Option (List OutputPiece × Bool)
  | _, [] => some ([], false)
  | d, chunk :: rest =>
      match fcgiDecodeRecordChunk parse d chunk with
      | .returned ret =>
          if ret.completed then some (ret.output, true)
          else (decodeChunks parse ret.decoder rest).map fun later =>
            (ret.output ++ later.1, later.2)
      | _ => none

/-- What a call inserts for its copy of a record. -/
theorem recordOutput_eq (parse : MimeHdrParse) (firstChunk : Bool)
    {record : FcgiRecordList} {r : Record} (hrecord : IsRecord record r) :
    recordOutput parse firstChunk record =
      statusOutput parse firstChunk r.content ++ r.pieces := by
  rw [recordOutput, hrecord.header, hrecord.text, List.append_assoc,
    Record.pieces]
  by_cases hout : r.type = FCGI_STDOUT
  · simp [hout, FCGI_STDOUT, FCGI_STDERR]
  · by_cases herr : r.type = FCGI_STDERR
    · simp [herr, FCGI_STDOUT, FCGI_STDERR]
    · simp [hout, herr]

theorem dispatchOutput_eq (parse : MimeHdrParse) (firstChunk : Bool)
    {dispatched : List FcgiRecordList} {recs : List Record}
    (hrecords : List.Forall₂ IsRecord dispatched recs) :
    dispatchOutput parse firstChunk dispatched =
      responseOutput parse firstChunk recs := by
  induction hrecords generalizing firstChunk with
  | nil => rfl
  | cons hrecord _ ih =>
      rw [dispatchOutput, ih, responseOutput_false, recordOutput_eq parse _
        hrecord, List.append_assoc]
      simp [responseOutput]

/-- The records dispatched by the calls have the text of the response. -/
theorem outputText_dispatchOutput (parse : MimeHdrParse) (firstChunk : Bool)
    {recs : List Record} {dispatched : List FcgiRecordList}
    (hdispatched : List.Forall₂ IsRecord dispatched (untilEnd recs)) :
    outputText (dispatchOutput parse firstChunk dispatched) =
      remainingText (statusText parse) firstChunk recs := by
  rw [dispatchOutput_eq parse firstChunk hdispatched,
    outputText_responseOutput]

theorem any_ends_untilEnd (recs : List Record) :
    (untilEnd recs).any Record.ends = recs.any Record.ends := by
  induction recs with
  | nil => rfl
  | cons r rest ih =>
      by_cases hends : r.ends = true <;> simp [untilEnd, hends, ih]

theorem any_ends_dispatched {dispatched : List FcgiRecordList}
    {recs : List Record} (hrecords : List.Forall₂ IsRecord dispatched recs) :
    dispatched.any FcgiRecordList.ends = recs.any Record.ends := by
  induction hrecords with
  | nil => rfl
  | cons hrecord _ ih =>
      simp only [List.any_cons, ih, FcgiRecordList.ends, hrecord.header]
      rfl

theorem isEmpty_dispatched {dispatched : List FcgiRecordList}
    {recs : List Record}
    (hrecords : List.Forall₂ IsRecord dispatched (untilEnd recs)) :
    dispatched.isEmpty = recs.isEmpty := by
  cases recs with
  | nil =>
      cases hrecords
      rfl
  | cons r rest =>
      rw [untilEnd] at hrecords
      split at hrecords <;> cases hrecords <;> rfl

/-- Every chunk that begins at or inside the padding of a record, with `k`
bytes fed before the first chunk, holds at least the rest of that padding. -/
def PaddingHeld (recs : List Record) (k : Nat) (chunks : List Bytes) : Prop :=
  ∀ fed chunk later, chunks = fed ++ chunk :: later →
    ∀ front r back, recs = front ++ r :: back →
      ∀ j, k + fed.flatten.length =
          (Record.code.encodeAll front).length + j →
        r.PaddingHeldAt j chunk

/-- The padding rule for the records that are left after the first chunk. -/
theorem PaddingHeld.tail {recs fin left : List Record} {k : Nat}
    {chunk : Bytes} {rest : List Bytes}
    (hheld : PaddingHeld recs k (chunk :: rest)) (hsplit : recs = fin ++ left)
    (hle : (Record.code.encodeAll fin).length ≤ k + chunk.length) :
    PaddingHeld left
      (k + chunk.length - (Record.code.encodeAll fin).length) rest := by
  intro fed next later hrest front r back hleft j hj
  apply hheld (chunk :: fed) next later (by rw [hrest, List.cons_append])
    (fin ++ front) r back (by rw [hsplit, hleft, List.append_assoc])
  simp only [List.flatten_cons, List.length_append, PrefixCode.encodeAll_append]
  omega

/-- Records without padding can be cut anywhere. -/
theorem paddingHeld_of_no_padding {recs : List Record}
    (hnone : ∀ r ∈ recs, r.padding = []) (k : Nat) (chunks : List Bytes) :
    PaddingHeld recs k chunks := by
  intro fed chunk later _ front r back hsplit j _ hinside hbefore
  have hr := hnone r (by simp [hsplit])
  rw [r.encode_length, hr, List.length_nil] at hbefore
  omega

theorem finishedBy_aligned {record : FcgiRecordList} {recs : List Record}
    {k : Nat} (haligned : AlignedAt record recs k) :
    finishedBy recs k = [] := by
  cases recs with
  | nil => rfl
  | cons r rest => simp [finishedBy, haligned.1]

/-- What is left of the stream after a chunk, from the first unfinished record
on. -/
theorem drop_after_chunk {recs fin left : List Record} {k : Nat}
    {chunk rest : Bytes}
    (hcut : chunk ++ rest = (Record.code.encodeAll recs).drop k)
    (hsplit : recs = fin ++ left)
    (hle : (Record.code.encodeAll fin).length ≤ k + chunk.length) :
    rest = (Record.code.encodeAll left).drop
      (k + chunk.length - (Record.code.encodeAll fin).length) := by
  have hdrop := congrArg (List.drop chunk.length) hcut
  rw [List.drop_left, List.drop_drop, hsplit, PrefixCode.encodeAll_append,
    List.drop_append, List.drop_eq_nil_of_le hle, List.nil_append] at hdrop
  exact hdrop

/-- What a call does to an aligned stream while it stays in the chunk. -/
structure RegularCall (parse : MimeHdrParse) (d : ResponseDecoder)
    (recs : List Record) (k : Nat) (buf : Bytes) (ret : BufferReturn) :
    Prop where
  dispatched : List.Forall₂ IsRecord ret.dispatched
    (untilEnd (finishedBy recs (k + buf.length)))
  completed : ret.completed =
    (finishedBy recs (k + buf.length)).any Record.ends
  text : outputText ret.output = remainingText (statusText parse)
    d.firstChunk (finishedBy recs (k + buf.length))
  firstChunk : ret.decoder.firstChunk =
    (d.firstChunk && (finishedBy recs (k + buf.length)).isEmpty)
  aligned : ret.completed = false → ∃ left,
    recs = finishedBy recs (k + buf.length) ++ left ∧
    AlignedAt (ret.decoder.headerRecord.getD {}) left (k + buf.length -
      (Record.code.encodeAll (finishedBy recs (k + buf.length))).length)

theorem regularCall_of_outcome (parse : MimeHdrParse) {d : ResponseDecoder}
    {recs : List Record} {k : Nat} {buf more : Bytes}
    (haligned : AlignedAt (d.headerRecord.getD {}) recs k) (hbuf : buf ≠ [])
    (hcut : buf ++ more = (Record.code.encodeAll recs).drop k)
    (hfirst : OutcomeNext recs k buf) :
    ∃ ret, fcgiDecodeRecordChunk parse d buf = .returned ret ∧
      RegularCall parse d recs k buf ret := by
  obtain ⟨ret, hret, hdispatched, hlater⟩ :=
    @fcgiProcessLoop_aligned parse (buf.length + 2) d.firstChunk _ _ _ _ _
      haligned hbuf hcut hfirst (by split <;> omega)
  obtain ⟨hout, hcompleted, hstill⟩ := fcgiProcessLoop_output parse hret
  refine ⟨ret, hret, hdispatched, ?_, ?_, ?_, ?_⟩
  · rw [hcompleted, any_ends_dispatched hdispatched, any_ends_untilEnd]
  · rw [hout]
    exact outputText_dispatchOutput parse d.firstChunk hdispatched
  · rw [hstill, isEmpty_dispatched hdispatched]
  · intro hfalse
    obtain ⟨last, left, hlast, hleft, hal⟩ := hlater hfalse
    refine ⟨left, hleft, ?_⟩
    rw [hlast]
    exact hal

theorem decodeChunks_aligned (parse : MimeHdrParse) {d : ResponseDecoder}
    {recs : List Record} {k : Nat} {chunks : List Bytes} {more : Bytes}
    (haligned : AlignedAt (d.headerRecord.getD {}) recs k)
    (hne : ∀ chunk ∈ chunks, chunk ≠ [])
    (hcut : chunks.flatten ++ more = (Record.code.encodeAll recs).drop k)
    (hheld : PaddingHeld recs k chunks) :
    ∃ output, decodeChunks parse d chunks = some (output,
        (finishedBy recs (k + chunks.flatten.length)).any Record.ends) ∧
      outputText output = remainingText (statusText parse) d.firstChunk
        (finishedBy recs (k + chunks.flatten.length)) := by
  induction chunks generalizing d recs k with
  | nil =>
      refine ⟨[], ?_, ?_⟩
      · simp [decodeChunks, finishedBy_aligned haligned]
      · simp only [List.flatten_nil, List.length_nil, Nat.add_zero,
          finishedBy_aligned haligned]
        cases d.firstChunk <;> rfl
  | cons chunk rest ih =>
      have hchunk : chunk ≠ [] := hne chunk List.mem_cons_self
      have hnext : PaddingHeldNext recs k chunk := by
        intro r hr
        cases recs with
        | nil => simp at hr
        | cons head tail =>
            obtain rfl : head = r := by simpa using hr
            exact hheld [] chunk rest rfl [] head tail rfl k (by simp)
      rw [List.flatten_cons, List.append_assoc] at hcut
      obtain ⟨ret, hret, hcall⟩ := regularCall_of_outcome parse haligned hchunk
        hcut (hnext.outcomeNext haligned hchunk hcut)
      obtain ⟨left, hleft, hle⟩ := finishedBy_prefix recs (k + chunk.length)
      have hadd := finishedBy_add recs left (k + chunk.length)
        rest.flatten.length hleft
      have hcompleted := hcall.completed
      rw [List.flatten_cons, List.length_append, ← Nat.add_assoc, hadd]
      simp only [decodeChunks, hret]
      cases hends : ret.completed with
      | true =>
          rw [hends] at hcompleted
          refine ⟨ret.output, ?_, ?_⟩
          · simp [List.any_append, ← hcompleted]
          · rw [hcall.text, remainingText_append_of_ends _ _ _ hcompleted.symm]
      | false =>
          rw [hends] at hcompleted
          obtain ⟨left', hleft', hal⟩ := hcall.aligned hends
          obtain rfl : left' = left := by
            have hboth := hleft.symm.trans hleft'
            exact (List.append_cancel_left hboth).symm
          obtain ⟨output, hrun, hrest⟩ := ih hal
            (fun c hc => hne c (List.mem_cons_of_mem chunk hc))
            (drop_after_chunk hcut hleft hle) (hheld.tail hleft hle)
          refine ⟨ret.output ++ output, ?_, ?_⟩
          · simp [hrun, List.any_append, ← hcompleted]
          · rw [outputText_append, hcall.text, hrest, hcall.firstChunk,
              remainingText_append_of_not_ends _ _ _ hcompleted.symm]

/-- Streaming decode is record-level meaning.  Whatever the cut of the stream
into chunks that keep each padding rest in one piece, after the chunks `fed`
the calls have written the text of the records finished so far, and one of
them has returned true exactly when a record that ends the response is among
these. -/
theorem decodeChunks_eq_responseText (parse : MimeHdrParse)
    (recs : List Record) (chunks : List Bytes)
    (hne : ∀ chunk ∈ chunks, chunk ≠ [])
    (hcut : chunks.flatten = Record.code.encodeAll recs)
    (hheld : PaddingHeld recs 0 chunks)
    (fed later : List Bytes) (hfed : chunks = fed ++ later) :
    ∃ output, decodeChunks parse {} fed = some (output,
        (finishedBy recs fed.flatten.length).any Record.ends) ∧
      outputText output = responseText (statusText parse)
        (finishedBy recs fed.flatten.length) := by
  have hnew : AlignedAt ({} : FcgiRecordList) recs 0 :=
    alignedAt_zero recs rfl
  have hcut' : fed.flatten ++ later.flatten =
      (Record.code.encodeAll recs).drop 0 := by
    rw [← List.flatten_append, ← hfed, hcut, List.drop_zero]
  have hheld' : PaddingHeld recs 0 fed := by
    intro front chunk rest hsplit
    apply hheld front chunk (rest ++ later)
    rw [hfed, hsplit, List.append_assoc, List.cons_append]
  have hrun := @decodeChunks_aligned parse {} recs 0 fed later.flatten hnew
    (fun c hc => hne c (by rw [hfed]; exact List.mem_append_left later hc))
    hcut' hheld'
  simpa [remainingText] using hrun

namespace DecoderRefinementWitness

def stdout : Record where
  version := FCGI_VERSION_1
  type := FCGI_STDOUT
  requestIdB1 := 0
  requestIdB0 := 1
  reserved := 0
  content := [65, 66]
  padding := []
  content_lt := by decide
  padding_lt := Record.nil_padding_lt

def endRequest : Record where
  version := FCGI_VERSION_1
  type := FCGI_END_REQUEST
  requestIdB1 := 0
  requestIdB0 := 1
  reserved := 0
  content := [0, 0, 0, 0, 0, 0, 0, 0]
  padding := []
  content_lt := by decide
  padding_lt := Record.nil_padding_lt

/-- The first chunk ends inside the header, the second inside the content. -/
def chunks : List Bytes :=
  [[1, 6, 0], [1, 0, 2, 0, 0, 65],
    [66, 1, 3, 0, 1, 0, 8, 0, 0, 0, 0, 0, 0, 0, 0, 0, 0]]

theorem decodeChunks_three :
    ∃ output, decodeChunks DecoderSafetyWitness.parse {} chunks =
        some (output, true) ∧
      outputText output = responseText
        (statusText DecoderSafetyWitness.parse) [stdout, endRequest] :=
  decodeChunks_eq_responseText DecoderSafetyWitness.parse
    [stdout, endRequest] chunks (by decide) (by decide)
    (paddingHeld_of_no_padding (by decide) 0 chunks) chunks [] (by decide)

end DecoderRefinementWitness

end AtsFastcgi
