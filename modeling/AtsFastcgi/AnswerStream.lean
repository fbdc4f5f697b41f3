/-
The answer to one request as a part of what its connection delivers.  The
decoder of a request stands inside the records the backend has sent for it;
blocks that are cut cleanly keep it there, so that every record it dispatches
is one of them and a completed response has nothing left to deliver.
-/
import AtsFastcgi.ResponseTransfer

namespace AtsFastcgi

/-! ### Records by position -/

/-- The records of a stream, each with the byte it starts at. -/
def Record.located : Nat → List Record → List (Nat × Record)
  | _, [] => []
  | start, r :: rest => (start, r) :: located (start + r.encode.length) rest

theorem Record.mem_located (start : Nat) (front : List Record) (r : Record)
    (back : List Record) :
    (start + (Record.code.encodeAll front).length, r) ∈
      Record.located start (front ++ r :: back) := by
  induction front generalizing start with
  | nil => exact List.mem_cons_self
  | cons head tail ih =>
      have hrest := ih (start + head.encode.length)
      rw [Nat.add_assoc] at hrest
      rw [PrefixCode.encodeAll_cons, Record.code_encode, List.length_append]
      exact List.mem_cons_of_mem _ hrest

/-- The bytes from `p` up to `q` finish the record that starts at `start`. -/
def Record.FinishedIn (r : Record) (start p q : Nat) : Prop :=
  ¬ r.FinishedAt (p - start) ∧ r.FinishedAt (q - start)

instance (r : Record) (start p q : Nat) : Decidable (r.FinishedIn start p q) :=
  inferInstanceAs (Decidable (¬ _ ∧ _))

instance (r : Record) (k : Nat) (chunk : Bytes) :
    Decidable (r.PaddingHeldAt k chunk) :=
  inferInstanceAs (Decidable (_ → _ → _))

theorem mem_finishedBy {recs : List Record} {n : Nat} {r : Record}
    (hr : r ∈ finishedBy recs n) :
    ∃ front back, recs = front ++ r :: back ∧
      r.FinishedAt (n - (Record.code.encodeAll front).length) := by
  induction recs generalizing n with
  | nil => exact absurd hr List.not_mem_nil
  | cons head tail ih =>
      by_cases hhead : head.FinishedAt n
      · simp only [finishedBy, hhead, if_true, List.mem_cons] at hr
        rcases hr with rfl | hr
        · exact ⟨[], tail, rfl, hhead⟩
        · obtain ⟨front, back, rfl, hfin⟩ := ih hr
          refine ⟨head :: front, back, rfl, ?_⟩
          rw [Nat.sub_sub] at hfin
          simpa using hfin
      · simp [finishedBy, hhead] at hr

/-- No record from the decoder's own on is finished yet. -/
theorem AlignedAt.not_finishedAt {record : FcgiRecordList}
    {front back : List Record} {r : Record} {k : Nat}
    (haligned : AlignedAt record (front ++ r :: back) k) :
    ¬ r.FinishedAt (k - (Record.code.encodeAll front).length) := by
  cases front with
  | nil => exact haligned.1
  | cons head tail =>
      have hinside : k ≤ head.encode.length := haligned.2.1
      intro hfin
      have hpos := hfin.2
      rw [PrefixCode.encodeAll_cons, Record.code_encode,
        List.length_append] at hpos
      omega

/-- More records behind those that are there do not matter. -/
theorem AlignedAt.append {record : FcgiRecordList} {recs : List Record}
    {k : Nat} (haligned : AlignedAt record recs k) (more : List Record) :
    AlignedAt record (recs ++ more) k := by
  cases recs with
  | nil =>
      obtain ⟨rfl, hrenew⟩ := haligned
      exact alignedAt_zero more hrenew
  | cons r rest => exact haligned

/-! ### The part of the stream that answers a request -/

namespace Backend

variable {b : Backend} {id : Nat}

/-- Nothing is to be answered, and the stream ends at byte `p`. -/
def QuietAt (b : Backend) (p : Nat) : Prop :=
  b.answering = [] ∧ p = (Record.code.encodeAll b.sent).length

instance (b : Backend) (p : Nat) : Decidable (b.QuietAt p) :=
  inferInstanceAs (Decidable (_ ∧ _))

/-- Nothing is to be answered or delivered. -/
def Quiet (b : Backend) : Prop := b.QuietAt b.delivered

instance (b : Backend) : Decidable b.Quiet :=
  inferInstanceAs (Decidable (b.QuietAt _))

/-- The records `rest` answer the request `id`; when it has ended, nothing
follows. -/
structure Answers (b : Backend) (id : Nat) (old rest : List Record) : Prop where
  sent : b.sent = old ++ rest
  requestId : ∀ r ∈ rest, r.requestId = id
  ended : ∀ {front r back}, rest = front ++ r :: back →
    r.type = FCGI_END_REQUEST → back = [] ∧ b.answering = []

theorem Answers.drop {old fin left : List Record}
    (h : b.Answers id old (fin ++ left)) : b.Answers id (old ++ fin) left := by
  refine ⟨?_, ?_, ?_⟩
  · rw [h.sent, List.append_assoc]
  · intro r hr
    exact h.requestId r (List.mem_append_right fin hr)
  · rintro front r back rfl hend
    exact h.ended (List.append_assoc fin front (r :: back)).symm hend

/-- The decoder stands at byte `p`, in the answer to the request `id`. -/
def StandsIn (b : Backend) (id : Nat) (d : ResponseDecoder) (p : Nat) : Prop :=
  ∃ old rest k, b.Answers id old rest ∧
    p = (Record.code.encodeAll old).length + k ∧
    AlignedAt (d.headerRecord.getD {}) rest k

/-- At the end of the stream a decoder between two records stands in the
answer to come. -/
theorem StandsIn.start {d : ResponseDecoder} {p : Nat}
    (hend : p = (Record.code.encodeAll b.sent).length)
    (hrenew : renewRecord (d.headerRecord.getD {}) = {}) (id : Nat) :
    b.StandsIn id d p := by
  refine ⟨b.sent, [], 0, ⟨?_, ?_, ?_⟩, hend, alignedAt_zero [] hrenew⟩
  · exact (List.append_nil b.sent).symm
  · exact fun _ hr => absurd hr List.not_mem_nil
  · intro front r back heq
    simp at heq

theorem StandsIn.congr {b' : Backend} {d : ResponseDecoder} {p : Nat}
    (h : b.StandsIn id d p) (hsent : b'.sent = b.sent)
    (hanswering : b'.answering = b.answering) : b'.StandsIn id d p := by
  obtain ⟨old, rest, k, hanswers, hp, haligned⟩ := h
  refine ⟨old, rest, k, ⟨?_, hanswers.requestId, ?_⟩, hp, haligned⟩
  · rw [hsent, hanswers.sent]
  · rw [hanswering]
    exact hanswers.ended

/-- One more record of the answer. -/
theorem StandsIn.send {d : ResponseDecoder} {p : Nat} (h : b.StandsIn id d p)
    (hanswering : b.answering = [id]) {r : Record} (hr : r.requestId = id) :
    (b.send r).StandsIn id d p := by
  obtain ⟨old, rest, k, hanswers, hp, haligned⟩ := h
  refine ⟨old, rest ++ [r], k, ⟨?_, ?_, ?_⟩, hp, haligned.append [r]⟩
  · rw [Backend.send, hanswers.sent, List.append_assoc]
  · intro r' hr'
    rcases List.mem_append.mp hr' with hold | hnew
    · exact hanswers.requestId r' hold
    · rw [List.mem_singleton.mp hnew]
      exact hr
  · intro front last back heq hend
    rcases back.eq_nil_or_concat with rfl | ⟨init, z, rfl⟩
    · obtain ⟨-, hlast⟩ := List.append_inj' heq rfl
      obtain rfl : r = last := List.singleton_inj.mp hlast
      refine ⟨rfl, ?_⟩
      rw [Backend.send, if_pos hend, hanswering, hr]
      exact List.erase_cons_head id []
    · rw [List.concat_eq_append, ← List.cons_append,
        ← List.append_assoc] at heq
      obtain ⟨hfront, -⟩ := List.append_inj' heq rfl
      have hempty := (hanswers.ended hfront hend).2
      rw [hanswering] at hempty
      contradiction

end Backend

/-! ### Blocks -/

/-- A block that starts at byte `p` of the stream is cut cleanly: it holds the
rest of a padding it starts in, and after an `FCGI_STDERR` record it finishes,
the decoder drops nothing: neither a part of the block that other blocks
continue, nor an answer that is still to come on a connection to be reused. -/
def ServerConnection.BlockClean (c : ServerConnection) (p : Nat)
    (block : Bytes) (later : List Bytes) : Prop :=
  ∀ placed ∈ Record.located 0 c.backend.sent,
    placed.2.PaddingHeldAt (p - placed.1) block ∧
    (placed.2.type = FCGI_STDERR →
      placed.2.FinishedIn placed.1 p (p + block.length) →
      (later.flatten ≠ [] →
        p + block.length = placed.1 + placed.2.encode.length) ∧
      (later.flatten = [] → c.reqCount < c.maxRequests →
        c.backend.QuietAt (p + block.length)))

instance (c : ServerConnection) (p : Nat) (block : Bytes)
    (later : List Bytes) : Decidable (c.BlockClean p block later) :=
  inferInstanceAs (Decidable (∀ placed ∈ Record.located 0 c.backend.sent,
    _ ∧ (_ → _ → (_ → _) ∧ (_ → _ → _))))

/-- The blocks of a read that starts at byte `p` are cut cleanly. -/
def ServerConnection.ReadsCleanly (c : ServerConnection) :
    Nat → List Bytes → Prop
  | _, [] => True
  | p, block :: later =>
      (block ≠ [] → c.BlockClean p block later) ∧
        c.ReadsCleanly (p + block.length) later

instance (c : ServerConnection) :
    (p : Nat) → (blocks : List Bytes) → Decidable (c.ReadsCleanly p blocks)
  | _, [] => inferInstanceAs (Decidable True)
  | p, block :: later =>
      have := instDecidableReadsCleanly c (p + block.length) later
      inferInstanceAs (Decidable (_ ∧ _))

/-- A call that returns true leaves the record that ended the response. -/
theorem fcgiProcessLoop_completed (parse : MimeHdrParse) {fuel : Nat}
    {firstChunk : Bool} {record : FcgiRecordList} {buf : Bytes}
    {ret : BufferReturn}
    (hrun : fcgiProcessLoop parse fuel firstChunk record buf = .returned ret)
    (hcompleted : ret.completed = true) :
    ∃ last ∈ ret.dispatched, ret.decoder.headerRecord = some last := by
  induction fuel generalizing firstChunk record buf ret with
  | zero => simp [fcgiProcessLoop] at hrun
  | succ fuel ih =>
      -- the rest of the loop, when the chunk is not used up
      have hrest : ∀ {first record' buf' output dispatched moved},
          (fcgiProcessLoop parse fuel first record' buf').after output
            dispatched moved = .returned ret →
          ∃ last ∈ ret.dispatched, ret.decoder.headerRecord = some last := by
        intro first record' buf' output dispatched moved hafter
        cases hloop : fcgiProcessLoop parse fuel first record' buf' with
        | returned inner =>
            rw [hloop] at hafter
            simp only [BufferRun.after, BufferRun.returned.injEq] at hafter
            subst hafter
            obtain ⟨last, hmem, hlast⟩ := ih hloop hcompleted
            exact ⟨last, List.mem_append_right dispatched hmem, hlast⟩
        | readOutside => simp [hloop, BufferRun.after] at hafter
        | running => simp [hloop, BufferRun.after] at hafter
      simp only [fcgiProcessLoop] at hrun
      split at hrun
      · contradiction
      · next a _ =>
          split at hrun
          · split at hrun
            · cases hrun
              exact ⟨a.record, List.mem_cons_self, rfl⟩
            · split at hrun
              · cases hrun
                contradiction
              · exact hrest hrun
          · split at hrun
            · cases hrun
              contradiction
            · exact hrest hrun

/-- A dispatched record is one of the stream. -/
theorem isRecord_of_mem {dispatched : List FcgiRecordList}
    {recs : List Record}
    (hrecords : List.Forall₂ IsRecord dispatched (untilEnd recs))
    {record : FcgiRecordList} (hmem : record ∈ dispatched) :
    ∃ r ∈ recs, IsRecord record r := by
  induction recs generalizing dispatched with
  | nil =>
      cases hrecords
      exact absurd hmem List.not_mem_nil
  | cons r rest ih =>
      rw [untilEnd] at hrecords
      split at hrecords
      · cases hrecords with
        | cons hrecord hnil =>
            cases hnil
            rw [List.mem_singleton.mp hmem]
            exact ⟨r, List.mem_cons_self, hrecord⟩
      · cases hrecords with
        | cons hrecord htail =>
            rcases List.mem_cons.mp hmem with rfl | hmem
            · exact ⟨r, List.mem_cons_self, hrecord⟩
            · obtain ⟨r', hr', hrecord'⟩ := ih htail hmem
              exact ⟨r', List.mem_cons_of_mem r hr', hrecord'⟩

/-- Where the record that ends the response is finished by a clean block: the
next block goes on behind it, and if there is none, the answer is complete. -/
theorem ServerConnection.BlockClean.ends {c : ServerConnection} {id p k : Nat}
    {block more : Bytes} {later : List Bytes} {old front back : List Record}
    {r : Record} (hclean : c.BlockClean p block later)
    (hanswers : c.backend.Answers id old (front ++ r :: back))
    (hp : p = (Record.code.encodeAll old).length + k) (hblock : block ≠ [])
    (hcut : block ++ more =
      (Record.code.encodeAll (front ++ r :: back)).drop k)
    (hends : r.ends = true)
    (hbefore : ¬ r.FinishedAt (k - (Record.code.encodeAll front).length))
    (hfin : r.FinishedAt
      (k + block.length - (Record.code.encodeAll front).length)) :
    (later.flatten ≠ [] → k + block.length =
        (Record.code.encodeAll (front ++ [r])).length) ∧
      (later.flatten = [] → c.reqCount < c.maxRequests →
        c.backend.QuietAt (p + block.length)) := by
  have hlength : (Record.code.encodeAll (front ++ [r])).length =
      (Record.code.encodeAll front).length + r.encode.length := by simp
  have htype : r.type = FCGI_STDERR ∨ r.type = FCGI_END_REQUEST := by
    simpa [Record.ends, endsResponse] using hends
  rcases htype with htype | htype
  · have hplaced := Record.mem_located 0 (old ++ front) r back
    rw [List.append_assoc, ← hanswers.sent, Nat.zero_add,
      PrefixCode.encodeAll_append, List.length_append] at hplaced
    have hstart : ∀ n, (Record.code.encodeAll old).length + n -
        ((Record.code.encodeAll old).length +
          (Record.code.encodeAll front).length) =
        n - (Record.code.encodeAll front).length := fun n => by omega
    have hclean' := (hclean _ hplaced).2 htype
    simp only [Record.FinishedIn, hp, Nat.add_assoc, hstart] at hclean'
    obtain ⟨hexact, hquiet⟩ := hclean' ⟨hbefore, hfin⟩
    rw [hlength, hp, Nat.add_assoc]
    refine ⟨fun hlater => ?_, hquiet⟩
    exact Nat.add_left_cancel (hexact hlater)
  · -- nothing follows the end of the request
    obtain ⟨rfl, hanswering⟩ := hanswers.ended rfl htype
    have hlen := congrArg List.length hcut
    rw [List.length_append, List.length_drop, hlength] at hlen
    have hpos := List.length_pos_iff.mpr hblock
    have hrecord := r.encode_length_ge
    have hwhole := hfin.1
    have hall : k + block.length =
        (Record.code.encodeAll front).length + r.encode.length := by omega
    rw [hlength, hp, Nat.add_assoc, hall]
    refine ⟨fun _ => rfl, fun _ _ => ⟨hanswering, ?_⟩⟩
    rw [hanswers.sent, PrefixCode.encodeAll_append, List.length_append,
      hlength]

/-- What one call does to a clean block of the answer. -/
structure BlockRead (c : ServerConnection) (id p : Nat) (block : Bytes)
    (later : List Bytes) (ret : BufferReturn) : Prop where
  dispatched : ∀ record ∈ ret.dispatched, record.header.requestId = id
  goesOn : ret.completed = false ∨ later.flatten ≠ [] →
    c.backend.StandsIn id ret.decoder (p + block.length)
  completed : ret.completed = true → later.flatten = [] →
    c.reqCount < c.maxRequests → c.backend.QuietAt (p + block.length)

theorem fcgiDecodeRecordChunk_clean (parse : MimeHdrParse)
    {c : ServerConnection} {d : ResponseDecoder} {id p : Nat}
    {block more : Bytes} {later : List Bytes}
    (hstands : c.backend.StandsIn id d p) (hblock : block ≠ [])
    (hcut : block ++ more = (Record.code.encodeAll c.backend.sent).drop p)
    (hclean : c.BlockClean p block later) :
    ∃ ret, fcgiDecodeRecordChunk parse d block = .returned ret ∧
      BlockRead c id p block later ret := by
  obtain ⟨old, rest, k, hanswers, hp, haligned⟩ := hstands
  have hcut' : block ++ more = (Record.code.encodeAll rest).drop k := by
    rw [hcut, hanswers.sent, hp, PrefixCode.encodeAll_append, List.drop_append,
      List.drop_eq_nil_of_le (by omega), List.nil_append]
    congr 1
    omega
  have hnext : PaddingHeldNext rest k block := by
    intro r hr
    cases rest with
    | nil => simp at hr
    | cons head tail =>
        obtain rfl : head = r := by simpa using hr
        have hplaced := Record.mem_located 0 old head tail
        rw [← hanswers.sent, Nat.zero_add] at hplaced
        have hheld := (hclean _ hplaced).1
        rwa [hp, Nat.add_sub_cancel_left] at hheld
  obtain ⟨ret, hret, hdispatched, haway⟩ :=
    @fcgiProcessLoop_aligned parse (block.length + 2) d.firstChunk _ _ _ _ _
      haligned hblock hcut' (hnext.outcomeNext haligned hblock hcut')
      (by split <;> omega)
  obtain ⟨-, hcompleted, -⟩ := fcgiProcessLoop_output parse hret
  rw [any_ends_dispatched hdispatched, any_ends_untilEnd] at hcompleted
  obtain ⟨left, hleft, hle⟩ := finishedBy_prefix rest (k + block.length)
  -- the record that made the call return true
  have hends : ret.completed = true → ∃ front r back,
      rest = front ++ r :: back ∧
      (later.flatten ≠ [] → k + block.length =
        (Record.code.encodeAll (front ++ [r])).length) ∧
      (later.flatten = [] → c.reqCount < c.maxRequests →
        c.backend.QuietAt (p + block.length)) := by
    intro htrue
    rw [hcompleted] at htrue
    obtain ⟨r, hr, hlast⟩ := List.any_eq_true.mp htrue
    obtain ⟨front, back, rfl, hfin⟩ := mem_finishedBy hr
    exact ⟨front, r, back, rfl, hclean.ends hanswers hp hblock hcut' hlast
      haligned.not_finishedAt hfin⟩
  refine ⟨ret, hret, ?_, ?_, ?_⟩
  · intro record hmem
    obtain ⟨r, hr, hrecord⟩ := isRecord_of_mem hdispatched hmem
    rw [hrecord.header]
    apply hanswers.requestId r
    rw [hleft]
    exact List.mem_append_left left hr
  · intro hgoes
    cases hstatus : ret.completed with
    | false =>
        obtain ⟨last, rest', hlast, hsplit, hnextAligned⟩ := haway hstatus
        obtain rfl : rest' = left :=
          (List.append_cancel_left (hleft.symm.trans hsplit)).symm
        rw [hleft] at hanswers
        rw [← Option.getD_some (a := last) (b := {}), ← hlast] at hnextAligned
        refine ⟨_, rest', _, hanswers.drop, ?_, hnextAligned⟩
        rw [PrefixCode.encodeAll_append, List.length_append, hp]
        omega
    | true =>
        obtain ⟨front, r, back, rfl, hexact, -⟩ := hends hstatus
        have hcutAt := hexact (hgoes.resolve_left (by
          rw [hstatus]
          exact Bool.noConfusion))
        obtain ⟨last, hmem, hlast⟩ := fcgiProcessLoop_completed parse hret
          hstatus
        obtain ⟨r', -, hrecord⟩ := isRecord_of_mem hdispatched hmem
        have hanswers' : c.backend.Answers id old ((front ++ [r]) ++ back) := by
          rwa [List.append_assoc, List.singleton_append]
        refine ⟨_, back, 0, hanswers'.drop, ?_, ?_⟩
        · rw [PrefixCode.encodeAll_append, List.length_append, ← hcutAt, hp]
          omega
        · rw [hlast]
          apply alignedAt_zero
          simp [renewRecord, hrecord.state]
  · intro hstatus
    obtain ⟨front, r, back, -, -, hquiet⟩ := hends hstatus
    exact hquiet

theorem transferBlocks_of_empty (parse : MimeHdrParse) (t : Transfer)
    {blocks : List Bytes} (hempty : blocks.flatten = []) :
    transferBlocks parse t blocks = some t := by
  induction blocks with
  | nil => rfl
  | cons block later ih =>
      obtain ⟨rfl, hlater⟩ := List.append_eq_nil_iff.mp hempty
      rw [transferBlocks, if_pos rfl]
      exact ih hlater

/-- What a read of clean blocks, which hold `bytes`, does to the decoder of a
request. -/
structure CleanRead (c : ServerConnection) (id p : Nat) (bytes : Bytes)
    (t t' : Transfer) : Prop where
  dispatched : ∀ record ∈ t'.dispatched,
    record ∈ t.dispatched ∨ record.header.requestId = id
  goesOn : t'.responseStatus = false →
    c.backend.StandsIn id t'.decoder (p + bytes.length)
  completed : t'.responseStatus = true → bytes ≠ [] →
    c.reqCount < c.maxRequests → c.backend.QuietAt (p + bytes.length)

/-- Clean blocks keep the decoder inside the answer to its request, and a
completed response has nothing left on a connection to be reused. -/
theorem transferBlocks_clean (parse : MimeHdrParse) {c : ServerConnection}
    {id p : Nat} {blocks : List Bytes} {more : Bytes} {t t' : Transfer}
    (hstands : c.backend.StandsIn id t.decoder p)
    (hcut : blocks.flatten ++ more =
      (Record.code.encodeAll c.backend.sent).drop p)
    (hclean : c.ReadsCleanly p blocks)
    (hrun : transferBlocks parse t blocks = some t') :
    CleanRead c id p blocks.flatten t t' := by
  induction blocks generalizing p t with
  | nil =>
      obtain rfl := Option.some.inj hrun
      exact ⟨fun _ hmem => .inl hmem, fun _ => hstands,
        fun _ hne => absurd rfl hne⟩
  | cons block later ih =>
      by_cases hblock : block = []
      · subst hblock
        rw [transferBlocks, if_pos rfl] at hrun
        exact ih hstands hcut hclean.2 hrun
      · rw [List.flatten_cons, List.append_assoc] at hcut
        obtain ⟨ret, hret, hread⟩ := fcgiDecodeRecordChunk_clean parse hstands
          hblock hcut (hclean.1 hblock)
        obtain ⟨ret', hret', hrest⟩ := transferBlocks_cons hblock hrun
        obtain rfl : ret = ret' := by simpa [hret] using hret'
        have hfirst : ∀ record ∈ t.dispatched ++ ret.dispatched,
            record ∈ t.dispatched ∨ record.header.requestId = id :=
          fun record hmem => (List.mem_append.mp hmem).imp_right
            (hread.dispatched record)
        by_cases hlater : later.flatten = []
        · -- the block is the last one with bytes
          rw [transferBlocks_of_empty parse _ hlater] at hrest
          obtain rfl := Option.some.inj hrest
          rw [List.flatten_cons, hlater, List.append_nil]
          exact ⟨hfirst, fun hstatus => hread.goesOn (.inl hstatus),
            fun hstatus _ => hread.completed hstatus hlater⟩
        · have hcut' : later.flatten ++ more =
              (Record.code.encodeAll c.backend.sent).drop
                (p + block.length) := by
            rw [← List.drop_drop, ← hcut, List.drop_left]
          have hnext := ih (hread.goesOn (.inr hlater)) hcut' hclean.2 hrest
          have hend : p + (block ++ later.flatten).length =
              p + block.length + later.flatten.length := by
            rw [List.length_append, Nat.add_assoc]
          rw [List.flatten_cons]
          refine ⟨?_, ?_, ?_⟩
          · intro record hmem
            rcases hnext.dispatched record hmem with hbefore | hid
            · exact hfirst record hbefore
            · exact .inr hid
          · rw [hend]
            exact hnext.goesOn
          · rw [hend]
            exact fun hstatus _ => hnext.completed hstatus hlater

end AtsFastcgi
