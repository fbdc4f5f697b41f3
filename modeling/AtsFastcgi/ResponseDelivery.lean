/-
What the client is given.  In a run in which nothing of an answer is left on a
connection, the text that an intercept has been given is at any time the response
text of the finished part of the answer to its request, and when the response is
completed it is that of the whole answer.
-/
import AtsFastcgi.InputSafety
import AtsFastcgi.Isolation
import AtsFastcgi.Outcomes
import AtsFastcgi.RequestStream

namespace AtsFastcgi

open ServerState (ConnEvent Event)

/-! ### The decoder inside an answer -/

/-- Records behind those that are there are finished after them. -/
theorem finishedBy_more (recs rest more : List Record) (n : Nat)
    (heq : recs = finishedBy recs n ++ rest) :
    finishedBy (recs ++ more) n = finishedBy recs n ++
      finishedBy (rest ++ more)
        (n - (Record.code.encodeAll (finishedBy recs n)).length) := by
  induction recs generalizing n with
  | nil =>
      have hrest : rest = [] := by simpa [finishedBy] using heq
      simp [finishedBy, hrest]
  | cons head tail ih =>
      by_cases hhead : head.FinishedAt n
      · simp only [finishedBy, hhead, if_true, List.cons_append,
          List.cons.injEq, true_and] at heq
        simp only [finishedBy, hhead, if_true, List.cons_append, ih _ heq,
          PrefixCode.encodeAll_cons, List.length_append, Record.code_encode,
          Nat.sub_sub]
      · simp only [finishedBy, hhead, if_false, List.nil_append] at heq
        subst heq
        simp [finishedBy, hhead]

theorem Backend.Answers.none (b : Backend) (id : Nat) :
    b.Answers id b.sent [] where
  sent := (List.append_nil _).symm
  requestId _ hr := absurd hr List.not_mem_nil
  ended hrest := absurd hrest.symm
    (List.append_ne_nil_of_right_ne_nil _ (List.cons_ne_nil _ _))

/-- One more record of the answer. -/
theorem Backend.Answers.send {b : Backend} {id : Nat} {old rest : List Record}
    (h : b.Answers id old rest) (hanswering : b.answering = [id]) {r : Record}
    (hr : r.requestId = id) : (b.send r).Answers id old (rest ++ [r]) := by
  refine ⟨?_, ?_, ?_⟩
  · rw [Backend.send, h.sent, List.append_assoc]
  · intro r' hr'
    rcases List.mem_append.mp hr' with hold | hnew
    · exact h.requestId r' hold
    · rw [List.mem_singleton.mp hnew]
      exact hr
  · intro front last back heq hend
    rcases back.eq_nil_or_concat with rfl | ⟨init, z, rfl⟩
    · obtain ⟨-, hlast⟩ := List.append_inj' heq rfl
      obtain rfl : r = last := List.singleton_inj.mp hlast
      refine ⟨rfl, ?_⟩
      rw [Backend.send, if_pos hend, hanswering, hr]
      exact List.erase_cons_head id []
    · rw [List.concat_eq_append, ← List.cons_append,
        ← List.append_assoc] at heq
      obtain ⟨hfront, -⟩ := List.append_inj' heq rfl
      have hempty := (h.ended hfront hend).2
      rw [hanswering] at hempty
      contradiction

/-- A record of an earlier request. -/
def Record.Earlier (r : Record) (id : Nat) : Prop :=
  ∃ m < id, r.requestId = m % 65536

/-- The decoder stands at byte `p`: `n` bytes of the answer to the request `id`
have been decoded, `text` is the text of the records they finish, and the answer
goes on. -/
structure AnswerAt (S : Bytes → Bytes) (b : Backend) (id : Nat)
    (d : ResponseDecoder) (text : Bytes) (p : Nat) (old answer : List Record)
    (n : Nat) : Prop where
  answers : b.Answers (id % 65536) old answer
  earlier : ∀ r ∈ old, r.Earlier id
  position : p = (Record.code.encodeAll old).length + n
  aligned : ∃ left, answer = finishedBy answer n ++ left ∧
    AlignedAt (d.headerRecord.getD {}) left
      (n - (Record.code.encodeAll (finishedBy answer n)).length)
  goesOn : (finishedBy answer n).any Record.ends = false
  firstChunk : d.firstChunk = (finishedBy answer n).isEmpty
  text_eq : text = responseText S (finishedBy answer n)

namespace AnswerAt

variable {S : Bytes → Bytes} {b b' : Backend} {id p n : Nat}
  {d : ResponseDecoder} {text : Bytes} {old answer : List Record}

/-- At the end of the stream a fresh decoder stands in the answer to come. -/
theorem start (hend : p = (Record.code.encodeAll b.sent).length)
    (hearlier : ∀ r ∈ b.sent, r.Earlier id)
    (hrenew : renewRecord (d.headerRecord.getD {}) = {})
    (hfirst : d.firstChunk = true) :
    AnswerAt S b id d [] p b.sent [] 0 where
  answers := .none b (id % 65536)
  earlier := hearlier
  position := hend
  aligned := ⟨[], rfl, rfl, hrenew⟩
  goesOn := rfl
  firstChunk := hfirst
  text_eq := rfl

theorem congr (h : AnswerAt S b id d text p old answer n)
    (hsent : b'.sent = b.sent) (hanswering : b'.answering = b.answering) :
    AnswerAt S b' id d text p old answer n where
  answers :=
    { sent := hsent.trans h.answers.sent
      requestId := h.answers.requestId
      ended := fun hrest hr => by
        rw [hanswering]
        exact h.answers.ended hrest hr }
  earlier := h.earlier
  position := h.position
  aligned := h.aligned
  goesOn := h.goesOn
  firstChunk := h.firstChunk
  text_eq := h.text_eq

/-- One more record of the answer is not finished yet. -/
theorem send (h : AnswerAt S b id d text p old answer n)
    (hanswering : b.answering = [id % 65536]) {r : Record}
    (hr : r.requestId = id % 65536) :
    AnswerAt S (b.send r) id d text p old (answer ++ [r]) n := by
  obtain ⟨left, hleft, haligned⟩ := h.aligned
  have hmore := haligned.append [r]
  have hfinished : finishedBy (answer ++ [r]) n = finishedBy answer n := by
    rw [finishedBy_more answer left [r] n hleft, finishedBy_aligned hmore,
      List.append_nil]
  constructor
  · exact h.answers.send hanswering hr
  · exact h.earlier
  · exact h.position
  · rw [hfinished]
    refine ⟨left ++ [r], ?_, hmore⟩
    rw [← List.append_assoc, ← hleft]
  · rw [hfinished]
    exact h.goesOn
  · rw [hfinished]
    exact h.firstChunk
  · rw [hfinished]
    exact h.text_eq

/-- The rest of the stream from the first unfinished record on, `k` bytes into
it. -/
structure Rest (b : Backend) (d : ResponseDecoder) (p : Nat)
    (old answer : List Record) (n : Nat) (back : List Record) (k : Nat) :
    Prop where
  answer_eq : answer = finishedBy answer n ++ back
  sent : b.sent = (old ++ finishedBy answer n) ++ back
  fed : n = (Record.code.encodeAll (finishedBy answer n)).length + k
  position : p =
    (Record.code.encodeAll (old ++ finishedBy answer n)).length + k
  aligned : AlignedAt (d.headerRecord.getD {}) back k
  later : ∀ m, finishedBy answer (n + m) =
    finishedBy answer n ++ finishedBy back (k + m)

theorem exists_rest (h : AnswerAt S b id d text p old answer n) :
    ∃ back k, Rest b d p old answer n back k := by
  obtain ⟨left, hleft, haligned⟩ := h.aligned
  obtain ⟨back, hback, hle⟩ := finishedBy_prefix answer n
  obtain rfl : back = left :=
    List.append_cancel_left (hback.symm.trans hleft)
  refine ⟨back, _, hleft, ?_, ?_, ?_, haligned, fun m => ?_⟩
  · rw [h.answers.sent, List.append_assoc, ← hleft]
  · omega
  · rw [PrefixCode.encodeAll_append, List.length_append, h.position]
    omega
  · exact finishedBy_add answer back n m hleft

theorem Rest.cut {back : List Record} {k : Nat} {bytes : Bytes}
    (h : Rest b d p old answer n back k)
    (hcut : bytes = (Record.code.encodeAll b.sent).drop p) :
    bytes = (Record.code.encodeAll back).drop k := by
  rw [hcut, h.sent, h.position,
    Record.code.encodeAll_append (old ++ finishedBy answer n) back,
    List.drop_length_add_append]

/-- What a call on the next block does. -/
structure Call (parse : MimeHdrParse) (b : Backend) (id : Nat) (text : Bytes)
    (p : Nat) (old answer : List Record) (n : Nat) (ret : BufferReturn) :
    Prop where
  completed : ret.completed = (finishedBy answer n).any Record.ends
  text_eq : text ++ outputText ret.output =
    responseText (statusText parse) (finishedBy answer n)
  standsIn : ret.completed = false →
    AnswerAt (statusText parse) b id ret.decoder
      (text ++ outputText ret.output) p old answer n

theorem call {parse : MimeHdrParse} {block more : Bytes}
    (h : AnswerAt (statusText parse) b id d text p old answer n)
    (hblock : block ≠ [])
    (hcut : block ++ more = (Record.code.encodeAll b.sent).drop p)
    (hheld : ∀ placed ∈ Record.located 0 b.sent,
      placed.2.PaddingHeldAt (p - placed.1) block) :
    ∃ ret, fcgiDecodeRecordChunk parse d block = .returned ret ∧
      Call parse b id text (p + block.length) old answer (n + block.length)
        ret := by
  obtain ⟨back, k, hrest⟩ := h.exists_rest
  have hcut' := hrest.cut hcut
  have hnext : PaddingHeldNext back k block := by
    intro r hr
    cases back with
    | nil => simp at hr
    | cons head tail =>
        obtain rfl : head = r := by simpa using hr
        have hplaced := Record.mem_located 0 (old ++ finishedBy answer n) head
          tail
        rw [← hrest.sent, Nat.zero_add] at hplaced
        have hpad := hheld _ hplaced
        rwa [hrest.position, Nat.add_sub_cancel_left] at hpad
  obtain ⟨ret, hret, hcall⟩ := regularCall_of_outcome parse hrest.aligned
    hblock hcut' (hnext.outcomeNext hrest.aligned hblock hcut')
  have hadd := hrest.later block.length
  have htext : text ++ outputText ret.output =
      responseText (statusText parse)
        (finishedBy answer (n + block.length)) := by
    have happend := remainingText_append_of_not_ends (statusText parse) true
      (finishedBy back (k + block.length)) h.goesOn
    rw [hadd, hcall.text, h.text_eq, h.firstChunk]
    exact happend.symm
  have hcompleted : ret.completed =
      (finishedBy answer (n + block.length)).any Record.ends := by
    rw [hadd, List.any_append, h.goesOn, Bool.false_or, hcall.completed]
  refine ⟨ret, hret, hcompleted, htext, fun hfalse => ?_⟩
  obtain ⟨left, hleft, haligned⟩ := hcall.aligned hfalse
  refine ⟨h.answers, h.earlier, ?_, ⟨left, ?_, ?_⟩, ?_, ?_, htext⟩
  · rw [h.position, Nat.add_assoc]
  · rw [hadd, List.append_assoc, ← hleft]
    exact hrest.answer_eq
  · have hposition : n + block.length -
        (Record.code.encodeAll (finishedBy answer n ++
          finishedBy back (k + block.length))).length =
        k + block.length - (Record.code.encodeAll
          (finishedBy back (k + block.length))).length := by
      have hfed := hrest.fed
      rw [PrefixCode.encodeAll_append, List.length_append]
      omega
    rw [hadd, hposition]
    exact haligned
  · rw [← hcompleted]
    exact hfalse
  · rw [hcall.firstChunk, h.firstChunk, hadd]
    cases finishedBy answer n <;> rfl

end AnswerAt

/-! ### Reads -/

/-- No block but the last one with bytes finishes an `FCGI_STDERR` record. -/
def ServerConnection.EndsLast (c : ServerConnection) :
    Nat → List Bytes → Prop
  | _, [] => True
  | p, block :: later =>
      (later.flatten ≠ [] → ∀ placed ∈ Record.located 0 c.backend.sent,
        placed.2.type = FCGI_STDERR →
          ¬ placed.2.FinishedIn placed.1 p (p + block.length)) ∧
        c.EndsLast (p + block.length) later

instance (c : ServerConnection) :
    (p : Nat) → (blocks : List Bytes) → Decidable (c.EndsLast p blocks)
  | _, [] => inferInstanceAs (Decidable True)
  | p, block :: later =>
      have := instDecidableEndsLast c (p + block.length) later
      inferInstanceAs (Decidable ((_ → ∀ placed ∈
        Record.located 0 c.backend.sent, _ → ¬ _) ∧ _))

namespace AnswerAt

variable {parse : MimeHdrParse} {c : ServerConnection} {id p n : Nat}
  {old answer : List Record}

/-- A block with others after it does not end the response. -/
theorem not_completed {d : ResponseDecoder} {text block more : Bytes}
    {later : List Bytes}
    (h : AnswerAt (statusText parse) c.backend id d text p old answer n)
    (hcut : block ++ (later.flatten ++ more) =
      (Record.code.encodeAll c.backend.sent).drop p)
    (hlater : later.flatten ≠ [])
    (hlast : ∀ placed ∈ Record.located 0 c.backend.sent,
      placed.2.type = FCGI_STDERR →
        ¬ placed.2.FinishedIn placed.1 p (p + block.length)) :
    (finishedBy answer (n + block.length)).any Record.ends = false := by
  by_contra hends
  obtain ⟨back, k, hrest⟩ := h.exists_rest
  have hcut' := hrest.cut hcut
  rw [hrest.later, List.any_append, h.goesOn, Bool.false_or,
    Bool.not_eq_false] at hends
  obtain ⟨r, hr, hlastRecord⟩ := List.any_eq_true.mp hends
  obtain ⟨front, tail, rfl, hfin⟩ := mem_finishedBy hr
  have htype : r.type = FCGI_STDERR ∨ r.type = FCGI_END_REQUEST := by
    simpa [Record.ends, endsResponse] using hlastRecord
  rcases htype with htype | htype
  · have hplaced := Record.mem_located 0
      (old ++ finishedBy answer n ++ front) r tail
    rw [List.append_assoc _ front, ← hrest.sent, Nat.zero_add,
      Record.code.encodeAll_append _ front, List.length_append] at hplaced
    refine hlast _ hplaced htype ⟨?_, ?_⟩
    · rw [hrest.position, Nat.add_sub_add_left]
      exact hrest.aligned.not_finishedAt
    · rw [hrest.position, Nat.add_assoc, Nat.add_sub_add_left]
      exact hfin
  · -- nothing follows the end of the request
    have hanswer := hrest.answer_eq
    rw [← List.append_assoc] at hanswer
    obtain ⟨rfl, -⟩ := h.answers.ended hanswer htype
    have hlen := congrArg List.length hcut'
    have hpos := List.length_pos_iff.mpr hlater
    have hwhole := hfin.1
    have hrecord := r.encode_length_ge
    simp only [List.length_append, List.length_drop,
      PrefixCode.encodeAll_append, PrefixCode.encodeAll_cons,
      PrefixCode.encodeAll_nil, List.length_nil, Record.code_encode] at hlen
    omega

/-- What a read does that holds `bytes`. -/
structure Read (parse : MimeHdrParse) (b : Backend) (id : Nat) (text : Bytes)
    (p : Nat) (old answer : List Record) (n : Nat) (t : Transfer) : Prop where
  completed : t.responseStatus = (finishedBy answer n).any Record.ends
  text_eq : text ++ outputText t.output =
    responseText (statusText parse) (finishedBy answer n)
  standsIn : t.responseStatus = false →
    AnswerAt (statusText parse) b id t.decoder (text ++ outputText t.output) p
      old answer n

theorem transfer {blocks : List Bytes} {more text : Bytes} {t t' : Transfer}
    (h : AnswerAt (statusText parse) c.backend id t.decoder
      (text ++ outputText t.output) p old answer n)
    (hcut : blocks.flatten ++ more =
      (Record.code.encodeAll c.backend.sent).drop p)
    (hclean : c.ReadsCleanly p blocks) (hlast : c.EndsLast p blocks)
    (hstatus : t.responseStatus = false)
    (hrun : transferBlocks parse t blocks = some t') :
    Read parse c.backend id text (p + blocks.flatten.length) old answer
      (n + blocks.flatten.length) t' := by
  induction blocks generalizing p n t with
  | nil =>
      obtain rfl := Option.some.inj hrun
      exact ⟨hstatus.trans h.goesOn.symm, h.text_eq, fun _ => h⟩
  | cons block later ih =>
      by_cases hblock : block = []
      · subst hblock
        rw [transferBlocks, if_pos rfl] at hrun
        exact ih h hcut hclean.2 hlast.2 hstatus hrun
      · rw [List.flatten_cons, List.append_assoc] at hcut
        obtain ⟨ret, hret, hcall⟩ := h.call hblock hcut fun placed hplaced =>
          ((hclean.1 hblock) placed hplaced).1
        obtain ⟨ret', hret', hrest⟩ := transferBlocks_cons hblock hrun
        obtain rfl : ret = ret' := by simpa [hret] using hret'
        have htext : ∀ out, text ++ outputText (t.output ++ out) =
            text ++ outputText t.output ++ outputText out := by
          intro out
          rw [outputText_append, List.append_assoc]
        by_cases hlater : later.flatten = []
        · -- the block is the last one with bytes
          rw [transferBlocks_of_empty parse _ hlater] at hrest
          obtain rfl := Option.some.inj hrest
          rw [List.flatten_cons, hlater, List.append_nil]
          refine ⟨hcall.completed, ?_, fun hfalse => ?_⟩
          · rw [htext]
            exact hcall.text_eq
          · rw [htext]
            exact hcall.standsIn hfalse
        · have hopen : ret.completed = false :=
            hcall.completed.trans
              (h.not_completed hcut hlater (hlast.1 hlater))
          have hcut' : later.flatten ++ more =
              (Record.code.encodeAll c.backend.sent).drop
                (p + block.length) := by
            rw [← List.drop_drop, ← hcut, List.drop_left]
          have hnext := hcall.standsIn hopen
          rw [← htext] at hnext
          have hread := ih hnext hcut' hclean.2 hlast.2 hopen hrest
          rw [List.flatten_cons, List.length_append, ← Nat.add_assoc,
            ← Nat.add_assoc]
          exact hread

end AnswerAt

/-! ### What an intercept has been given -/

/-- Everything that was written to the client. -/
def ServerIntercept.given (x : ServerIntercept) : Bytes :=
  (x.deliveries.map Delivery.text).flatten

/-- The ids on a connection are those of requests written on it. -/
structure ServerConnection.Tagged (c : ServerConnection) : Prop where
  sent : ∀ r ∈ c.backend.sent, ∃ w ∈ c.written, r.requestId = w.1 % 65536
  answering : ∀ n ∈ c.backend.answering, ∃ w ∈ c.written, n = w.1 % 65536

theorem ServerConnection.Tagged.earlier {c : ServerConnection}
    (h : c.Tagged) {id : Nat} (hlt : ∀ w ∈ c.written, w.1 < id) :
    ∀ r ∈ c.backend.sent, r.Earlier id := by
  intro r hr
  obtain ⟨w, hw, hid⟩ := h.sent r hr
  exact ⟨w.1, hlt w hw, hid⟩

theorem ServerConnection.Tagged.respond {c : ServerConnection} (h : c.Tagged)
    {r : Record} (hr : r.requestId ∈ c.backend.answering) :
    ServerConnection.Tagged { c with backend := c.backend.send r } := by
  constructor
  · intro r' hr'
    rcases List.mem_append.mp hr' with hold | hnew
    · exact h.sent r' hold
    · rw [List.mem_singleton.mp hnew]
      exact h.answering _ hr
  · intro n hn
    simp only [Backend.send] at hn
    split at hn
    · exact h.answering n (List.mem_of_mem_erase hn)
    · exact h.answering n hn

theorem ServerConnection.Tagged.released {c : ServerConnection}
    (h : c.Tagged) : c.released.Tagged := by
  obtain ⟨client, state, heq⟩ := c.detach_eq
  rw [ServerConnection.released, heq]
  exact ⟨h.sent, h.answering⟩

/-- A registered request whose answer is given to the client record by
record. -/
structure AnsweredSoFar (S : Bytes → Bytes) (id : Nat)
    (conn : ServerConnection) (x : ServerIntercept) : Prop where
  tagged : conn.Tagged
  attached : conn.fcgiRequest = none → conn.connecting = true
  unstarted : conn.connecting = true ∨ x.headers = [] →
    x.given = [] ∧ (∀ r ∈ conn.backend.sent, r.Earlier id) ∧
      ∀ client ∈ conn.fcgiRequest, client.decoder.firstChunk = true
  client : ∀ client ∈ conn.fcgiRequest, ∃ old answer n,
    AnswerAt S conn.backend id client.decoder x.given conn.backend.delivered
      old answer n

/-- What is not read or written does not matter. -/
theorem AnsweredSoFar.congr {S : Bytes → Bytes} {id : Nat}
    {conn conn' : ServerConnection} {x x' : ServerIntercept}
    (h : AnsweredSoFar S id conn x) (hwritten : conn'.written = conn.written)
    (hconnecting : conn'.connecting = conn.connecting)
    (hbackend : conn'.backend = conn.backend)
    (hclient : conn'.fcgiRequest = conn.fcgiRequest)
    (hheaders : x'.headers = x.headers)
    (hdeliveries : x'.deliveries = x.deliveries) :
    AnsweredSoFar S id conn' x' := by
  have hgiven : x'.given = x.given := by
    rw [ServerIntercept.given, hdeliveries]
    rfl
  constructor
  · constructor
    · rw [hbackend, hwritten]
      exact h.tagged.sent
    · rw [hbackend, hwritten]
      exact h.tagged.answering
  · rw [hconnecting, hclient]
    exact h.attached
  · rw [hconnecting, hheaders, hgiven, hbackend, hclient]
    exact h.unstarted
  · rw [hgiven, hbackend, hclient]
    exact h.client

/-- Connections are clean, and the answers are given as they arrive. -/
def answered (S : Bytes → Bytes) : LocalPredicates where
  ever := ServerIntercept.Isolated
  waiting x := x.given = []
  idle conn := Idle conn ∧ conn.Tagged
  bound id conn x := InAnswer id conn x ∧ AnsweredSoFar S id conn x

/-- The events with which answers are given whole: a request starts over only
before its client was given anything, and a read does not go on after an
`FCGI_STDERR` record. -/
def ServerState.GivesWhole (s : ServerState) (e : Event) : Prop :=
  (∀ i ∈ s.redispatched e, (s.intercepts i).given = []) ∧ match e with
    | .connection c (.readReady blocks) =>
        (s.conns c).EndsLast (s.conns c).position blocks
    | _ => True

def AnswersWhole (s : ServerState) (e : Event) : Prop :=
  KeepsApart s e ∧ s.GivesWhole e

instance (s : ServerState) : (e : Event) → Decidable (s.GivesWhole e)
  | .connection _ (.readReady _) => inferInstanceAs (Decidable (_ ∧ _))
  | .connection _ .netConnect | .connection _ .netConnectFailed
  | .connection _ .readComplete | .connection _ .writeReady
  | .connection _ .writeComplete | .connection _ .eos | .connection _ .error
  | .connect .. | .destroy .. | .input .. | .respond .. =>
      inferInstanceAs (Decidable (_ ∧ True))

instance (s : ServerState) (e : Event) : Decidable (AnswersWhole s e) :=
  inferInstanceAs (Decidable (_ ∧ _))

section Preserved

variable {S : Bytes → Bytes} {id : Nat} {conn conn' : ServerConnection}
  {x : ServerIntercept}

/-- A decoder that begins on a quiet connection stands in its answer. -/
theorem answered_attached {config : FcgiPluginConfig}
    (hready : conn.state = .ready) (hidle : Idle conn) (htagged : conn.Tagged)
    (hearlier : ∀ r ∈ conn.backend.sent, r.Earlier id)
    (hgiven : x.given = []) :
    AnsweredSoFar S id (conn.createFCGIClient config x).1
      (conn.createFCGIClient config x).2 := by
  obtain ⟨-, hdecoder, -⟩ :=
    FcgiClientRequest.new_fresh config conn.requestId x.txn
  simp only [ServerConnection.createFCGIClient, hready, true_or, if_true]
  refine ⟨⟨htagged.sent, htagged.answering⟩,
    fun hnone => absurd hnone (Option.some_ne_none _),
    fun _ => ⟨hgiven, hearlier, ?_⟩, ?_⟩
  · intro client hclient
    obtain rfl := Option.some.inj hclient
    rw [hdecoder]
  · intro client hclient
    obtain rfl := Option.some.inj hclient
    refine ⟨conn.backend.sent, [], 0, ?_⟩
    rw [hdecoder]
    show AnswerAt S conn.backend id {} x.given _ _ [] 0
    rw [hgiven]
    exact .start hidle.quiet.2 hearlier rfl rfl

/-- The backend sends a record of the answer. -/
theorem AnsweredSoFar.respond (h : AnsweredSoFar S id conn x)
    (hin : InAnswer id conn x) {r : Record}
    (hr : r.requestId ∈ conn.backend.answering) :
    AnsweredSoFar S id { conn with backend := conn.backend.send r } x := by
  have hbusy : ¬ conn.backend.Quiet := by
    intro hquiet
    rw [hquiet.1] at hr
    exact absurd hr List.not_mem_nil
  have hanswering := hin.answering.resolve_left fun hnone => by
    rw [hnone] at hr
    exact absurd hr List.not_mem_nil
  have hid : r.requestId = id % 65536 := by
    rw [hanswering] at hr
    exact List.mem_singleton.mp hr
  refine ⟨h.tagged.respond hr, h.attached, ?_, ?_⟩
  · rintro (hconn | hheaders)
    · exact absurd (hin.connecting hconn).2 hbusy
    · exact absurd (hin.unbegun hheaders).1 hbusy
  · intro client hclient
    obtain ⟨old, answer, n, hat⟩ := h.client client hclient
    exact ⟨old, answer ++ [r], n, hat.send hanswering hid⟩

/-- A write that begins no request changes nothing of the answer. -/
theorem AnsweredSoFar.goesOn {x' : ServerIntercept}
    {client client' : FcgiClientRequest} (h : AnsweredSoFar S id conn x)
    (hclient : conn.fcgiRequest = some client)
    (hwritten : ∀ w ∈ conn.written, w ∈ conn'.written)
    (hsettled : conn'.connecting = false)
    (hbackend : conn'.backend = conn.backend)
    (hclient' : conn'.fcgiRequest = some client')
    (hdecoder : client'.decoder = client.decoder) (hheaders : x'.headers ≠ [])
    (hdeliveries : x'.deliveries = x.deliveries) :
    AnsweredSoFar S id conn' x' := by
  refine ⟨⟨?_, ?_⟩, fun hnone => ?_, ?_, ?_⟩
  · rw [hbackend]
    intro r hr
    obtain ⟨w, hw, hid⟩ := h.tagged.sent r hr
    exact ⟨w, hwritten w hw, hid⟩
  · rw [hbackend]
    intro n hn
    obtain ⟨w, hw, hid⟩ := h.tagged.answering n hn
    exact ⟨w, hwritten w hw, hid⟩
  · rw [hclient'] at hnone
    contradiction
  · rintro (hconn | hnone)
    · rw [hsettled] at hconn
      contradiction
    · exact absurd hnone hheaders
  · intro client'' hin
    rw [hclient'] at hin
    obtain rfl := Option.some.inj hin
    rw [hdecoder, hbackend, ServerIntercept.given, hdeliveries]
    exact h.client client hclient

/-- Writing the header begins the answer; the other writes go on with it. -/
theorem AnsweredSoFar.write (h : AnsweredSoFar S id conn x)
    (hin : InAnswer id conn x) (hid : conn.requestId = id)
    {input : ClientInput} (hfeeds : x.Feeds input)
    (hwrite : input.write conn = some conn') :
    AnsweredSoFar S id conn' (input.sent (input.log x)) := by
  obtain ⟨client, client', buf, hclient, hprepare, hbuf, hvc, rfl⟩ :=
    ServerConnection.write_eq_some.mp hwrite
  obtain ⟨-, rfl⟩ := FcgiClientRequest.addClientRequest_eq_some.mp hbuf
  have hsettled : conn.connecting = false := by
    by_contra hconn
    rw [(hin.connecting (Bool.not_eq_false _ ▸ hconn)).1] at hvc
    contradiction
  have hlogged : ∀ {buf}, ∀ w ∈ conn.written,
      w ∈ conn.written ++ [(conn.requestId, buf)] :=
    fun w hw => List.mem_append_left _ hw
  cases input with
  | header data =>
      obtain rfl := Option.some.inj hprepare
      obtain ⟨hquiet, hfresh⟩ := hin.unbegun hfeeds
      obtain ⟨hbuff, hrenew⟩ := hfresh client hclient
      obtain ⟨hgiven, hearlier, hfirst⟩ := h.unstarted (.inr hfeeds)
      have hbegun : conn.backend.receive client.createBeginRequest.buff =
          { conn.backend with answering := [id % 65536] } := by
        have hpreamble : client.createBeginRequest.buff = client.preamble := by
          rw [FcgiClientRequest.createBeginRequest, hbuff, List.nil_append]
        rw [hpreamble, client.receive_preamble, hquiet.1,
          (hin.client client hclient).1, List.nil_append]
      refine ⟨⟨?_, ?_⟩, fun hnone => absurd hnone (Option.some_ne_none _),
        ?_, ?_⟩
      · rw [hbegun]
        intro r hr
        obtain ⟨w, hw, hr⟩ := h.tagged.sent r hr
        exact ⟨w, hlogged w hw, hr⟩
      · rw [hbegun]
        intro n hn
        refine ⟨_, List.mem_append_right _ (List.mem_singleton_self _), ?_⟩
        rw [List.mem_singleton.mp hn, hid]
      · rintro (hconn | hnone)
        · rw [hsettled] at hconn
          contradiction
        · exact absurd (List.append_eq_nil_iff.mp hnone).2
            (List.cons_ne_nil _ _)
      · intro client' hclient'
        obtain rfl := Option.some.inj hclient'
        have hgiven' : ((ClientInput.header data).sent
            ((ClientInput.header data).log x)).given = [] := hgiven
        refine ⟨conn.backend.sent, [], 0, ?_⟩
        rw [hbegun, hgiven']
        exact .start (b := { conn.backend with answering := [id % 65536] })
          hquiet.2 hearlier hrenew (hfirst client hclient)
  | body data =>
      obtain ⟨-, rfl⟩ := ClientInput.prepare_body.mp hprepare
      exact h.goesOn hclient hlogged hsettled
        (client.receive_bodyBuffer conn.backend data) rfl rfl hfeeds.1 rfl
  | complete =>
      rw [ClientInput.prepare_complete] at hprepare
      obtain rfl := Option.some.inj hprepare
      exact h.goesOn hclient hlogged hsettled
        (client.receive_endBuffer conn.backend) rfl rfl hfeeds.1 rfl

end Preserved

/-! ### What a read gives -/

/-- The records with the id `id` that the first `n` bytes of the stream finish. -/
def Backend.finished (b : Backend) (id n : Nat) : List Record :=
  recordsOf id (finishedBy b.sent n)

/-- Of the first `n` bytes of the stream the client was given `text`, the text
of the records of its own request, and the response has `ended`. -/
structure Backend.Gives (b : Backend) (S : Bytes → Bytes) (id n : Nat)
    (text : Bytes) (ended : Bool) : Prop where
  text_eq : text = responseText S (b.finished id n)
  ended_eq : ended = (b.finished id n).any Record.ends
  whole : ended = true → text = responseText S (recordsOf id b.sent)

/-- Behind the records of other requests the answer is finished as it would be
by itself. -/
theorem recordsOf_finishedBy {id n : Nat} {old answer : List Record}
    (hold : ∀ r ∈ old, r.requestId ≠ id)
    (hids : ∀ r ∈ answer, r.requestId = id) :
    recordsOf id (finishedBy (old ++ answer)
      ((Record.code.encodeAll old).length + n)) = finishedBy answer n := by
  induction old with
  | nil =>
      rw [List.nil_append, PrefixCode.encodeAll_nil, List.length_nil,
        Nat.zero_add]
      refine recordsOf_self fun r hr => hids r ?_
      obtain ⟨front, back, rfl, -⟩ := mem_finishedBy hr
      exact List.mem_append_right _ List.mem_cons_self
  | cons r rest ih =>
      have hlen : (Record.code.encodeAll (r :: rest)).length + n =
          r.encode.length + ((Record.code.encodeAll rest).length + n) := by
        rw [PrefixCode.encodeAll_cons, Record.code_encode, List.length_append,
          Nat.add_assoc]
      rw [hlen, List.cons_append, finishedBy]
      split
      · rw [Nat.add_sub_cancel_left, recordsOf, List.filter_cons_of_neg
          (by simpa using hold r List.mem_cons_self)]
        exact ih fun r' hr' => hold r' (List.mem_cons_of_mem r hr')
      · next hunfinished =>
          -- a bare header, with nothing behind it
          have hrecord := r.encode_length_ge
          have hzero : n = 0 := by
            by_contra hpos
            exact hunfinished ⟨Nat.le_add_right _ _, by omega⟩
          rw [hzero, finishedBy_zero]
          rfl

theorem Backend.Answers.gives {S : Bytes → Bytes} {b : Backend}
    {id n : Nat} {old answer : List Record} {text : Bytes} {ended : Bool}
    (h : b.Answers (id % 65536) old answer)
    (hearlier : ∀ r ∈ old, r.Earlier id) (hid : id < 65536)
    (htext : text = responseText S (finishedBy answer n))
    (hended : ended = (finishedBy answer n).any Record.ends) :
    b.Gives S id ((Record.code.encodeAll old).length + n) text ended := by
  have hold : ∀ r ∈ old, r.requestId ≠ id := by
    intro r hr
    obtain ⟨m, hm, hmod⟩ := hearlier r hr
    omega
  have hids : ∀ r ∈ answer, r.requestId = id := by
    intro r hr
    rw [h.requestId r hr, Nat.mod_eq_of_lt hid]
  have hof : b.finished id ((Record.code.encodeAll old).length + n) =
      finishedBy answer n := by
    rw [Backend.finished, h.sent, recordsOf_finishedBy hold hids]
  constructor
  · rw [hof]
    exact htext
  · rw [hof]
    exact hended
  · intro htrue
    have hall : recordsOf id b.sent = answer := by
      rw [h.sent, recordsOf_append, recordsOf_self hids, recordsOf,
        List.filter_eq_nil_iff.mpr (by simpa using hold), List.nil_append]
    obtain ⟨left, hleft, -⟩ := finishedBy_prefix answer n
    rw [hended] at htrue
    have hwhole := remainingText_append_of_ends S true left htrue
    rw [← hleft] at hwhole
    rw [hall, htext]
    exact hwhole.symm

section Reading

variable {parse : MimeHdrParse} {id : Nat} {c conn : ServerConnection}
  {x x' : ServerIntercept}

/-- What a request whose header is not written was given: nothing. -/
theorem AnsweredSoFar.nothing {S : Bytes → Bytes}
    (h : AnsweredSoFar S id c x) (hquiet : c.backend.Quiet)
    (hstart : c.connecting = true ∨ x.headers = []) (hid : id < 65536) :
    c.backend.Gives S id c.backend.delivered x.given false := by
  obtain ⟨hgiven, hearlier, -⟩ := h.unstarted hstart
  rw [hgiven, hquiet.2]
  exact (Backend.Answers.none c.backend _).gives hearlier hid (n := 0) rfl rfl

theorem AnsweredSoFar.gives {S : Bytes → Bytes} (h : AnsweredSoFar S id c x)
    (hin : InAnswer id c x) (hid : id < 65536) :
    c.backend.Gives S id c.backend.delivered x.given false := by
  cases hclient : c.fcgiRequest with
  | none =>
      have hconn := h.attached hclient
      exact h.nothing (hin.connecting hconn).2 (.inl hconn) hid
  | some client =>
      obtain ⟨old, answer, n, hat⟩ := h.client client hclient
      rw [hat.position]
      exact hat.answers.gives hat.earlier hid hat.text_eq hat.goesOn.symm

theorem ServerIntercept.given_deliver (x : ServerIntercept) (d : Delivery) :
    (x.deliver d).given = x.given ++ d.text := by
  simp [ServerIntercept.given, ServerIntercept.deliver]

/-- What a read makes of a registered request. -/
structure ReadAnswer (S : Bytes → Bytes) (id : Nat) (b : Backend) (n : Nat)
    (conn : ServerConnection) (x : ServerIntercept) (responseStatus : Bool) :
    Prop where
  tagged : conn.Tagged
  goesOn : responseStatus = false → AnsweredSoFar S id conn x
  gives : id < 65536 → b.Gives S id n x.given responseStatus

theorem AnsweredSoFar.read {blocks : List Bytes} {responseStatus : Bool}
    (h : AnsweredSoFar (statusText parse) id c x) (hin : InAnswer id c x)
    (harrived : blocks.flatten <+: c.reader.flatten ++ c.backend.wire)
    (hclean : c.ReadsCleanly c.position blocks)
    (hlast : c.EndsLast c.position blocks)
    (hrun : interceptTransferData parse (c.receive blocks) x =
      some (responseStatus, conn, x')) :
    ReadAnswer (statusText parse) id c.backend
      (c.backend.delivered + blocks.flatten.length) conn x' responseStatus := by
  have hposition : c.position = c.backend.delivered := by
    rw [ServerConnection.position, hin.reader, List.length_nil, Nat.sub_zero]
  obtain ⟨more, hmore⟩ := harrived
  rw [hin.reader, List.nil_append] at hmore
  rw [hposition] at hclean hlast
  have hdelivered : (c.receive blocks).backend.delivered =
      c.backend.delivered + blocks.flatten.length := by
    rw [ServerConnection.receive, hin.reader, List.length_nil, Nat.sub_zero]
  have htagged : (c.receive blocks).Tagged := ⟨h.tagged.sent, h.tagged.answering⟩
  -- on a quiet connection nothing is read
  have hnothing : blocks.flatten = [] → (c.receive blocks).backend = c.backend := by
    intro hempty
    rw [hempty, List.length_nil, Nat.add_zero] at hdelivered
    simp only [ServerConnection.receive] at hdelivered ⊢
    rw [hdelivered]
  rcases ServerConnection.interceptTransferData_eq_some hrun with
    ⟨hnone, hempty, rfl, rfl, rfl⟩ | ⟨client, t, hclient, ht, rfl, rfl, rfl⟩
  · have hbackend := hnothing hempty
    refine ⟨⟨htagged.sent, htagged.answering⟩, fun _ => ?_, fun hid => ?_⟩
    · exact h.congr rfl rfl hbackend rfl rfl rfl
    · have hzero : blocks.flatten.length = 0 := List.length_eq_zero_iff.mpr hempty
      rw [hzero, Nat.add_zero]
      exact h.gives hin hid
  · obtain ⟨old, answer, n, hat⟩ := h.client client hclient
    have hread := AnswerAt.transfer (c := c) (t := { decoder := client.decoder })
      (by
        show AnswerAt _ _ _ _ (x.given ++ outputText []) _ _ _ _
        rw [outputText, List.flatMap_nil, List.append_nil]
        exact hat)
      hmore hclean hlast rfl ht
    have hgiven := x.given_deliver
      ⟨(c.receive blocks).requestId, t.output, t.dispatched, t.responseStatus⟩
    have hstill : blocks.flatten = [] → t = { decoder := client.decoder } := by
      intro hempty
      exact Option.some.inj (ht.symm.trans (transferBlocks_of_empty parse
        { decoder := client.decoder } hempty))
    refine ⟨⟨htagged.sent, htagged.answering⟩, fun hfalse => ?_, fun hid => ?_⟩
    · refine ⟨⟨htagged.sent, htagged.answering⟩,
        fun hnone => absurd hnone (Option.some_ne_none _), fun hstart => ?_, ?_⟩
      · obtain ⟨hnone, hearlier, hfirst⟩ := h.unstarted hstart
        have hquiet : c.backend.Quiet := by
          rcases hstart with hconn | hheaders
          · exact (hin.connecting hconn).2
          · exact (hin.unbegun hheaders).1
        have hsame := hstill (hquiet.nothing hmore)
        refine ⟨?_, hearlier, ?_⟩
        · rw [hgiven, hnone, hsame]
          rfl
        · intro client' hclient'
          obtain rfl := Option.some.inj hclient'
          rw [hsame]
          exact hfirst client hclient
      · intro client' hclient'
        obtain rfl := Option.some.inj hclient'
        refine ⟨old, answer, n + blocks.flatten.length, ?_⟩
        rw [hgiven]
        show AnswerAt _ (c.receive blocks).backend _ _ _
          (c.receive blocks).backend.delivered _ _ _
        rw [hdelivered]
        exact (hread.standsIn hfalse).congr rfl rfl
    · rw [hgiven, hat.position, Nat.add_assoc]
      exact hat.answers.gives hat.earlier hid hread.text_eq hread.completed

end Reading

/-! ### Runs -/

theorem answered_preserved (parse : MimeHdrParse)
    (config : FcgiPluginConfig) :
    (answered (statusText parse)).Preserved parse config AnswersWhole where
  new txn requestId :=
    ⟨((isolated_preserved parse config).new txn requestId).1, rfl⟩
  bind_new hever hgiven _ := by
    obtain ⟨hever', hin⟩ :=
      (isolated_preserved parse config).bind_new hever trivial trivial
    refine ⟨hever', hin, ⟨?_, ?_⟩, fun _ => rfl, fun _ => ⟨hgiven, ?_, ?_⟩, ?_⟩
    · exact fun _ hr => absurd hr List.not_mem_nil
    · exact fun _ hn => absurd hn List.not_mem_nil
    · exact fun _ hr => absurd hr List.not_mem_nil
    · exact fun _ hclient => absurd hclient.symm (Option.some_ne_none _)
    · exact fun _ hclient => absurd hclient.symm (Option.some_ne_none _)
  bind_idle hlt hidle hever hgiven := by
    obtain ⟨hever', hin⟩ :=
      (isolated_preserved parse config).bind_idle hlt hidle.1 hever trivial
    refine ⟨hever', hin, answered_attached rfl ⟨hidle.1.reader,
      hidle.1.connecting, hidle.1.quiet⟩ ⟨hidle.2.sent, hidle.2.answering⟩
      (hidle.2.earlier hlt) hgiven⟩
  net_connect {s c id i} h hguard hr hever hbound := by
    obtain ⟨hin, hanswered⟩ := hbound
    have hconn : (s.conns c).connecting = true := hguard.1.1.1.2.2
    obtain ⟨hever', hin'⟩ :=
      (isolated_preserved parse config).net_connect h hguard.1 hr hever hin
    obtain ⟨hgiven, hearlier, -⟩ := hanswered.unstarted (.inl hconn)
    refine ⟨hever', hin', answered_attached rfl ⟨hin.reader, ?_, ?_⟩
      ⟨hanswered.tagged.sent, hanswered.tagged.answering⟩ hearlier hgiven⟩
    · exact fun hfalse => absurd hfalse Bool.false_ne_true
    · exact (hin.connecting hconn).2
  net_connect_idle hguard hidle :=
    ⟨(isolated_preserved parse config).net_connect_idle hguard.1 hidle.1,
      hidle.2.sent, hidle.2.answering⟩
  retry {s c id i event} h hguard hevent hr _ := by
    have hid := h.entry_conn hr
    exact hguard.2.1 i (ServerState.redispatched_retry (hid ▸ hr) hevent)
  fail hever hbound :=
    (isolated_preserved parse config).fail hever hbound.1
  read {s c blocks id i responseStatus conn x} h hguard hr hever hbound
      hrun := by
    obtain ⟨hin, hanswered⟩ := hbound
    obtain ⟨hever', hnext⟩ := (isolated_preserved parse config).read h hguard.1
      hr hever hin hrun
    obtain ⟨⟨⟨-, harrived⟩, -, hclean⟩, -, hlast⟩ := hguard
    have hread := hanswered.read hin harrived hclean hlast hrun
    refine ⟨hever', ?_⟩
    cases responseStatus with
    | true =>
        refine ⟨hnext.1, fun hroom => ⟨hnext.2 hroom, ?_⟩⟩
        refine ServerConnection.Tagged.released ?_
        exact ⟨hread.tagged.sent, hread.tagged.answering⟩
    | false => exact ⟨hnext, hread.goesOn rfl⟩
  read_idle hguard hidle :=
    ⟨(isolated_preserved parse config).read_idle hguard.1 hidle.1,
      hidle.2.sent, hidle.2.answering⟩
  read_complete hguard _ _ _ := absurd hguard.1.1.1.2.2 id
  open_read hread := by
    obtain ⟨-, rfl⟩ := ServerConnection.read_eq_some.mp hread
    refine ⟨fun hbound => ⟨?_, ?_⟩, fun hidle => ⟨?_, ?_⟩⟩
    · exact hbound.1.congr rfl rfl rfl rfl rfl rfl
    · exact hbound.2.congr rfl rfl rfl rfl rfl rfl
    · exact ⟨hidle.1.reader, hidle.1.connecting, hidle.1.quiet⟩
    · exact ⟨hidle.2.sent, hidle.2.answering⟩
  input {s c id i input conn} h hguard hr hever hbound hwrite := by
    obtain ⟨hever', hin⟩ := (isolated_preserved parse config).input h hguard.1
      hr hever hbound.1 hwrite
    exact ⟨hever', hin, hbound.2.write hbound.1 (h.entry_conn hr)
      hguard.1.1.1.2.2 hwrite⟩
  input_kept {s i input} hguard hever := by
    obtain ⟨hever', -⟩ :=
      (isolated_preserved parse config).input_kept hguard.1 hever
    refine ⟨hever', fun _ hgiven => ?_⟩
    cases input <;> exact hgiven
  destroy {s i} hguard hever := by
    obtain ⟨hever', -⟩ := (isolated_preserved parse config).destroy hguard.1 hever
    refine ⟨hever', fun _ hgiven => ?_⟩
    simp only [ServerIntercept.destroyedObject]
    split <;> exact hgiven
  abort {s i id c} h hguard hr hbound := by
    have hiso := (isolated_preserved parse config).abort h hguard.1 hr hbound.1
    split at hiso
    · next hdone =>
        rw [if_pos hdone]
        refine ⟨hiso, hbound.2.congr rfl rfl rfl rfl ?_ ?_⟩
        · rw [ServerIntercept.destroyedObject, if_pos hdone]
        · rw [ServerIntercept.destroyedObject, if_pos hdone]
    · next hopen =>
        rw [if_neg hopen]
        exact fun hroom => ⟨hiso hroom, hbound.2.tagged.released⟩
  respond {s c r} hguard := by
    have hiso := (isolated_preserved parse config).respond hguard.1
    refine ⟨fun hr hbound => ⟨hiso.1 hr hbound.1,
      hbound.2.respond hbound.1 hguard.1.1.2⟩, fun hidle => ⟨hiso.2 hidle.1, ?_⟩⟩
    exact hidle.2.respond hguard.1.1.2

/-- A registered request, with what is known of its answer. -/
theorem answered_of_reach {parse : MimeHdrParse} {config : FcgiPluginConfig}
    {s : ServerState}
    (hreach : Transition.Reach (workerThread parse config) AnswersWhole s)
    (hids : s.issued < 65536) {id : Nat} {i : InterceptId} {c : ConnId}
    (hr : s.Registered id i c) :
    Consistent config s ∧ id < 65536 ∧ InAnswer id (s.conns c) (s.intercepts i) ∧
      AnsweredSoFar (statusText parse) id (s.conns c) (s.intercepts i) := by
  have hlt : s.issued < 2 ^ 32 - 1 := Nat.lt_trans hids (by decide)
  have h := consistent_of_reach (fun _ _ hg => hg.1.1.1.1) hreach hlt
  have hL := LocalPredicates.holds_of_reach
    (fun _ _ hg => ⟨hg.1.1.1.1, hg.1.1.1.2.1⟩) (answered_preserved parse config)
    hreach hlt
  obtain ⟨hin, hanswered⟩ := hL.bound hr
  have hnext := (h.entry_id hr).2
  rw [h.nextId_eq] at hnext
  exact ⟨h, by omega, hin, hanswered⟩

/-- At any time the client of a registered request has been given the response
text of the records with its id that the delivered bytes finish. -/
theorem given_so_far (parse : MimeHdrParse) (config : FcgiPluginConfig)
    (s : ServerState)
    (hreach : Transition.Reach (workerThread parse config) AnswersWhole s)
    (hids : s.issued < 65536) (id : Nat) (i : InterceptId) (c : ConnId)
    (hr : s.Registered id i c) :
    (s.intercepts i).given = responseText (statusText parse)
      ((s.conns c).backend.finished id (s.conns c).backend.delivered) := by
  obtain ⟨-, hid, hin, hanswered⟩ := answered_of_reach hreach hids hr
  exact (hanswered.gives hin hid).text_eq

/-- Completion sets the intercept of a registered pair aside. -/
theorem Consistent.aside_completed {config : FcgiPluginConfig}
    {s : ServerState} (h : Consistent config s) {id : Nat} {i : InterceptId}
    {c : ConnId} (hr : s.Registered id i c) (conn : ServerConnection)
    {x : ServerIntercept} (hid : x.requestId = id) :
    (((s.setConn c conn).setIntercept i x).complete i c).Aside i
      x.outputComplete := by
  have hid' : (((s.setConn c conn).setIntercept i x).intercepts i).requestId =
      id := by
    rw [ServerState.setIntercept_intercepts_self]
    exact hid
  have hr' : ((s.setConn c conn).setIntercept i x).Registered id i c := hr
  have herased : (((s.setConn c conn).setIntercept i x).unregister id).Aside i x :=
    ServerState.Aside.setIntercept_self (s := (s.unregister id).setConn c conn)
      (x := s.intercepts i) ⟨h.freeIntercept_unregister hr, rfl⟩ x
  rw [ServerState.complete_registered hid' hr',
    ServerState.setIntercept_intercepts_self]
  exact (((herased.setConn c _).setIntercept_self _).releaseConnection
    c).connectNext

/-- What a read does to a registered request, as far as its client can see. -/
theorem read_outcome {parse : MimeHdrParse} {config : FcgiPluginConfig}
    {s s' : ServerState}
    (hreach : Transition.Reach (workerThread parse config) AnswersWhole s)
    (hids : s.issued < 65536) {id : Nat} {i : InterceptId} {c : ConnId}
    {blocks : List Bytes} (hr : s.Registered id i c)
    (hguard : AnswersWhole s (.connection c (.readReady blocks)))
    (hstep : s.step parse (.connection c (.readReady blocks)) = some s') :
    let finished := (s.conns c).backend.finished id
      ((s.conns c).backend.delivered + blocks.flatten.length)
    (finished.any Record.ends = false → s'.Registered id i c) ∧
      (finished.any Record.ends = true → ∃ x : ServerIntercept,
        s'.Aside i x ∧ x.connected = true ∧
        x.outputCompletes = (s.intercepts i).outputCompletes + 1 ∧
        x.given = responseText (statusText parse)
          (recordsOf id (s.conns c).backend.sent)) := by
  obtain ⟨h, hid, hin, hanswered⟩ := answered_of_reach hreach hids hr
  obtain ⟨⟨⟨-, harrived⟩, -, hclean⟩, -, hlast⟩ := hguard
  have hconn := h.entry_conn hr
  have hget : s.getIntercept (s.conns c).requestId = some i :=
    ServerState.getIntercept_eq_some.mpr ⟨c, hconn ▸ hr⟩
  rcases ServerState.onReadReady_cases
      (ServerState.handle_of_step hstep) with ⟨hnone, -⟩ |
    ⟨i', responseStatus, conn, x, hget', hrun, rfl⟩
  · rw [hget] at hnone
    contradiction
  · obtain rfl := Option.some.inj (hget.symm.trans hget')
    have hgives := (hanswered.read hin harrived hclean hlast hrun).gives hid
    simp only [← hgives.ended_eq]
    cases responseStatus with
    | false => exact ⟨fun _ => hr, fun htrue => absurd htrue Bool.false_ne_true⟩
    | true =>
        refine ⟨fun hfalse => absurd hfalse.symm Bool.false_ne_true, fun _ => ?_⟩
        have hx : x.requestId = id ∧ x.connected = true ∧
            x.outputCompletes = (s.intercepts i).outputCompletes := by
          have hid' := h.entry_intercept hr
          have hconnected := h.entry_connected hr
          rcases ServerConnection.interceptTransferData_eq_some hrun with
            ⟨-, -, -, -, rfl⟩ | ⟨client, t, -, -, -, -, rfl⟩
          · exact ⟨hid', hconnected, rfl⟩
          · exact ⟨hid', hconnected, rfl⟩
        refine ⟨x.outputComplete, h.aside_completed hr conn hx.1, hx.2.1, ?_,
          hgives.whole rfl⟩
        exact congrArg (· + 1) hx.2.2

/-- A read completes the response exactly if it finishes a record of the request
that ends the response.  The client has then been given the text of the whole
answer, and is given nothing more for the rest of the run. -/
theorem given_whole (parse : MimeHdrParse) (config : FcgiPluginConfig)
    (s s' : ServerState)
    (hreach : Transition.Reach (workerThread parse config) AnswersWhole s)
    (hids : s.issued < 65536) (id : Nat) (i : InterceptId) (c : ConnId)
    (blocks : List Bytes) (hr : s.Registered id i c)
    (hguard : AnswersWhole s (.connection c (.readReady blocks)))
    (hstep : s.step parse (.connection c (.readReady blocks)) = some s') :
    let finished := (s.conns c).backend.finished id
      ((s.conns c).backend.delivered + blocks.flatten.length)
    (finished.any Record.ends = false → s'.Registered id i c) ∧
      (finished.any Record.ends = true →
        (s'.intercepts i).outputCompletes =
          (s.intercepts i).outputCompletes + 1 ∧
        ∀ s'', Transition.Reach ((workerThread parse config).startingAt s')
          Exists s'' →
          (s''.intercepts i).given = responseText (statusText parse)
            (recordsOf id (s.conns c).backend.sent)) := by
  obtain ⟨hopen, hdone⟩ := read_outcome hreach hids hr hguard hstep
  refine ⟨hopen, fun hends => ?_⟩
  obtain ⟨x, haside, hconnected, hcompletes, hgiven⟩ := hdone hends
  refine ⟨haside.intercept ▸ hcompletes, fun s'' hrun => ?_⟩
  obtain ⟨-, hsame⟩ := sameAnswer_of_run haside.free
    (haside.intercept ▸ hconnected) hrun
  rw [ServerIntercept.given, hsame.deliveries, haside.intercept]
  exact hgiven

namespace AnswerWitness

open IsolationWitness (parse config)

/-- The second request on a connection, with a part of its answer. -/
def second : ServerState :=
  Transition.after (workerThread parse config) AnswersWhole
    (ServerState.new config) IsolationWitness.events

theorem given_so_far_second :
    (second.intercepts 1).given ≠ [] ∧
      (second.intercepts 1).given = responseText (statusText parse)
        ((second.conns 0).backend.finished 2
          (second.conns 0).backend.delivered) := by
  obtain ⟨hreach, hids, hr, hgiven⟩ :
      Transition.Reach (workerThread parse config) AnswersWhole second ∧
      second.issued < 65536 ∧ second.Registered 2 1 0 ∧
      (second.intercepts 1).given ≠ [] :=
    Transition.Reach.after_and (.init rfl) (by decide +kernel)
  exact ⟨hgiven, given_so_far parse config second hreach hids 2 1 0 hr⟩

/-- The first request, its answer sent and not read. -/
def sent : ServerState :=
  Transition.after (workerThread parse config) AnswersWhole
    (ServerState.new config) (IsolationWitness.events.take 7)

def blocks : List Bytes :=
  [IsolationWitness.stdout.encode, IsolationWitness.endRequest.encode]

def read : ServerState :=
  (sent.step parse (.connection 0 (.readReady blocks))).getD sent

theorem given_whole_read :
    let finished := (sent.conns 0).backend.finished 1
      ((sent.conns 0).backend.delivered + blocks.flatten.length)
    (finished.any Record.ends = false → read.Registered 1 0 0) ∧
      (finished.any Record.ends = true →
        (read.intercepts 0).outputCompletes =
          (sent.intercepts 0).outputCompletes + 1 ∧
        ∀ s'', Transition.Reach ((workerThread parse config).startingAt read)
          Exists s'' →
          (s''.intercepts 0).given = responseText (statusText parse)
            (recordsOf 1 (sent.conns 0).backend.sent)) := by
  obtain ⟨hreach, hids, hr, hguard, hsome⟩ :
      Transition.Reach (workerThread parse config) AnswersWhole sent ∧
      sent.issued < 65536 ∧ sent.Registered 1 0 0 ∧
      AnswersWhole sent (.connection 0 (.readReady blocks)) ∧
      (sent.step parse (.connection 0 (.readReady blocks))).isSome = true :=
    Transition.Reach.after_and (.init rfl) (by decide +kernel)
  exact given_whole parse config sent read hreach hids 1 0 0 blocks hr hguard
    (Option.getD_of_ne_none (Option.isSome_iff_ne_none.mp hsome) sent).symm

example : (read.intercepts 0).outputCompletes = 1 ∧
    (read.intercepts 0).given ≠ [] := by decide +kernel

end AnswerWitness

end AtsFastcgi
