/-
A `FCGIClientRequest` never uses or frees a block that is not live, and it is
known exactly how many blocks its life leaves behind.  The decoder's loop loses
the end body of each record it replaces; what else is lost is counted call by
call against the pointers that the destructor still finds.
-/
import AtsFastcgi.Allocation
import Mathlib.Algebra.GroupWithZero.Nat

namespace AtsFastcgi

open Ownership

/-! ### Records and their blocks -/

/-- The content of a record in this state has been allocated. -/
def FcgiState.hasContent : FcgiState → Bool
  | .contentProc | .padding | .done => true
  | _ => false

namespace RecordMemory

def blocks (m : RecordMemory) : List Block :=
  m.object :: m.header :: m.endBody :: m.content.toList

/-- The content is there exactly when the record has come to it. -/
def Fits (m : RecordMemory) (record : FcgiRecordList) : Prop :=
  m.content.isSome = record.state.hasContent

end RecordMemory

theorem fcgiProcessHeader_hasContent {record : FcgiRecordList} (ch : UInt8)
    (hstate : record.state.beforeContent = true) :
    (fcgiProcessHeader ch record).2.state.hasContent = false ∧
      (fcgiProcessHeader ch record).2.state ≠ .done := by
  unfold fcgiProcessHeader
  cases h : record.state <;>
    simp_all [FcgiState.beforeContent, FcgiState.hasContent]

theorem hasContent_of_beforeContent {state : FcgiState}
    (hstate : state.beforeContent = true) : state.hasContent = false := by
  cases state <;> simp_all [FcgiState.beforeContent, FcgiState.hasContent]

theorem beginContent_hasContent {record : FcgiRecordList}
    (hstate : record.state.beforeContent = false) :
    (beginContent record).state.hasContent = true := by
  unfold beginContent
  cases h : record.state <;>
    simp_all [FcgiState.beforeContent, FcgiState.hasContent]

/-- The copier keeps a content, and finishes a record exactly when it says so. -/
theorem fcgiProcessContent_hasContent (buf : Bytes) {record : FcgiRecordList}
    (hstate : record.state.hasContent = true) :
    (fcgiProcessContent buf record).record.state.hasContent = true := by
  unfold fcgiProcessContent
  dsimp only
  split
  · rfl
  · split
    · rfl
    · split
      · rfl
      · exact hstate

theorem fcgiProcessContent_done_iff (buf : Bytes) {record : FcgiRecordList}
    (hstate : record.state ≠ .done) :
    (fcgiProcessContent buf record).rv = .done ↔
      (fcgiProcessContent buf record).record.state = .done := by
  unfold fcgiProcessContent
  dsimp only
  split
  · simp
  · split
    · simp
    · split
      · simp
      · simp [hstate]

theorem fcgiProcessRecord_done_iff {buf : Bytes} {record : FcgiRecordList}
    {a : Advance} (hstate : record.state ≠ .done)
    (hrun : fcgiProcessRecord buf record = some a) :
    a.rv = .done ↔ a.record.state = .done := by
  have hbegin : (beginContent record).state ≠ .done := by
    unfold beginContent
    split
    · simp
    · exact hstate
  induction buf generalizing record a with
  | nil =>
      rw [fcgiProcessRecord] at hrun
      split at hrun
      · contradiction
      · cases hrun
        exact fcgiProcessContent_done_iff [] hbegin
  | cons ch rest ih =>
      rw [fcgiProcessRecord] at hrun
      split at hrun
      · next hbefore =>
          have hnext := (fcgiProcessHeader_hasContent ch hbefore).2
          dsimp only at hrun
          split at hrun
          · cases hrun
            simp [hnext]
          · split at hrun
            · cases hrun
              simp [hnext]
            · obtain ⟨a', hrest, rfl⟩ := Option.map_eq_some_iff.mp hrun
              refine ih (a := a') hnext hrest ?_
              unfold beginContent
              split
              · simp
              · exact hnext
      · cases hrun
        exact fcgiProcessContent_done_iff (ch :: rest) hbegin

/-! ### Programs on records -/

theorem newRecordList_triple (own : List Block) :
    Triple own newRecordList fun m keep lost =>
      keep.Perm (m.blocks ++ own) ∧ lost = 0 ∧ m.content = none := by
  unfold newRecordList
  refine .malloc_bind fun object => .malloc_bind fun header =>
    .malloc_bind fun endBody => .pure ⟨?_, rfl, rfl⟩
  exact (List.reverse_perm [object, header, endBody]).append_right own

/-- Deleting a record loses its end body. -/
theorem deleteRecordList_triple (m : RecordMemory) :
    Triple m.blocks (deleteRecordList m) fun _ keep lost =>
      keep = [] ∧ lost = 1 := by
  unfold deleteRecordList
  have hcontent : (m.object :: m.endBody :: m.content.toList).Perm
      (m.content.toList ++ [m.object, m.endBody]) :=
    @List.perm_append_comm _ [m.object, m.endBody] m.content.toList
  have hend : [m.object, m.endBody].Perm ([m.endBody] ++ [m.object]) :=
    List.Perm.swap ..
  refine .deref_bind List.mem_cons_self ?_
  refine .free_bind (List.Perm.swap m.header m.object _) ?_
  refine .free_bind hcontent (.lose hend ?_)
  exact .free (List.Perm.refl ([m.object] ++ [])) ⟨rfl, rfl⟩

theorem beginContentMemory_triple {m : RecordMemory} {record : FcgiRecordList}
    (hfits : m.Fits record) (hstate : record.state.beforeContent = false) :
    Triple m.blocks (beginContentMemory record m) fun m' keep lost =>
      keep.Perm m'.blocks ∧ lost = 0 ∧ m'.content.isSome = true := by
  unfold beginContentMemory
  split
  · next hbegin =>
      have hnone : m.content = none := by
        rw [RecordMemory.Fits, hbegin] at hfits
        exact Option.isSome_eq_false_iff.mp hfits |> Option.isNone_iff_eq_none.mp
      refine .deref_bind (List.mem_cons_of_mem _ List.mem_cons_self) ?_
      refine .malloc_bind fun content => .pure ⟨?_, rfl, rfl⟩
      rw [RecordMemory.blocks, hnone]
      exact @List.perm_append_comm _ [content] [m.object, m.header, m.endBody]
  · next hbegin =>
      refine .pure ⟨List.Perm.refl _, rfl, ?_⟩
      rw [hfits]
      cases h : record.state <;>
        simp_all [FcgiState.beforeContent, FcgiState.hasContent]

theorem deref_content {m : RecordMemory} {post : Unit → List Block → Nat → Prop}
    (hcontent : m.content.isSome = true) (hpost : post () m.blocks 0) :
    Triple m.blocks (deref m.content) post := by
  obtain ⟨content, hsome⟩ := Option.isSome_iff_exists.mp hcontent
  rw [hsome]
  refine .deref ?_ hpost
  simp [RecordMemory.blocks, hsome]

theorem useContent_triple {m : RecordMemory} (record : FcgiRecordList)
    (hcontent : m.content.isSome = true) :
    Triple m.blocks (useContent record m) fun _ keep lost =>
      keep.Perm m.blocks ∧ lost = 0 ∧ True := by
  unfold useContent
  refine .deref_bind List.mem_cons_self ?_
  refine .deref_bind (List.mem_cons_of_mem _ List.mem_cons_self) ?_
  split
  · exact .pure ⟨List.Perm.refl _, rfl, trivial⟩
  · exact deref_content hcontent ⟨List.Perm.refl _, rfl, trivial⟩

/-- The record's blocks follow its state through a call, which computes what
`fcgiProcessRecord` does. -/
theorem fcgiProcessRecordMemory_triple (buf : Bytes) {m : RecordMemory}
    {record : FcgiRecordList} (hfits : m.Fits record) :
    Triple m.blocks (fcgiProcessRecordMemory buf record m) fun r keep lost =>
      keep.Perm r.2.blocks ∧ lost = 0 ∧ r.1 = fcgiProcessRecord buf record ∧
        ∀ a, r.1 = some a → r.2.Fits a.record := by
  have hcontent : ∀ buf (record : FcgiRecordList) (m : RecordMemory),
      m.Fits record → record.state.beforeContent = false →
      Triple m.blocks
        (do
          let m ← beginContentMemory record m
          useContent (beginContent record) m
          pure (some (fcgiProcessContent buf (beginContent record)), m))
        fun r keep lost => keep.Perm r.2.blocks ∧ lost = 0 ∧
          r.1 = some (fcgiProcessContent buf (beginContent record)) ∧
          ∀ a, r.1 = some a → r.2.Fits a.record := by
    intro buf record m hfits hstate
    refine .seq (beginContentMemory_triple hfits hstate)
      (by rw [List.append_nil]) fun m' hsome => ?_
    refine .seq (useContent_triple (beginContent record) hsome)
      (List.Perm.refl _) fun _ _ => .pure ⟨?_, rfl, rfl, ?_⟩
    · rw [List.append_nil]
    · rintro a ha
      cases ha
      rw [RecordMemory.Fits, hsome]
      exact (fcgiProcessContent_hasContent buf
        (beginContent_hasContent hstate)).symm
  induction buf generalizing record m with
  | nil =>
      rw [fcgiProcessRecordMemory, fcgiProcessRecord]
      refine .deref_bind List.mem_cons_self ?_
      split
      · refine .pure ⟨List.Perm.refl _, rfl, rfl, ?_⟩
        intro a ha
        contradiction
      · next hstate =>
          exact hcontent [] record m hfits ((Bool.not_eq_true _).mp hstate)
  | cons ch rest ih =>
      rw [fcgiProcessRecordMemory, fcgiProcessRecord]
      refine .deref_bind List.mem_cons_self ?_
      split
      · next hstate =>
          have hnext : m.Fits (fcgiProcessHeader ch record).2 := by
            rw [RecordMemory.Fits, (fcgiProcessHeader_hasContent ch hstate).1,
              hfits, hasContent_of_beforeContent hstate]
          refine .deref_bind (List.mem_cons_of_mem _ List.mem_cons_self) ?_
          dsimp only
          split
          · refine .pure ⟨List.Perm.refl _, rfl, rfl, ?_⟩
            rintro a ha
            cases ha
            exact hnext
          · split
            · refine .pure ⟨List.Perm.refl _, rfl, rfl, ?_⟩
              rintro a ha
              cases ha
              exact hnext
            · refine .seq (ih hnext) (by rw [List.append_nil]) ?_
              rintro ⟨a, m'⟩ ⟨ha, hfits'⟩
              refine .pure ⟨by rw [List.append_nil], rfl, ?_, ?_⟩
              · exact congrArg (Option.map _) ha
              · intro a' ha'
                obtain ⟨a'', hsome, rfl⟩ := Option.map_eq_some_iff.mp ha'
                exact hfits' a'' hsome
      · next hstate =>
          exact hcontent (ch :: rest) record m hfits
            ((Bool.not_eq_true _).mp hstate)

/-! ### The loop -/

/-- A record is replaced at the head of the loop when it is finished. -/
def FcgiRecordList.finished (record : FcgiRecordList) : Nat :=
  if record.state = .done then 1 else 0

theorem renewMemory_triple {m : RecordMemory} {record : FcgiRecordList}
    (hfits : m.Fits record) :
    Triple m.blocks (renewMemory record m) fun m' keep lost =>
      keep.Perm m'.blocks ∧ lost = record.finished ∧
        m'.Fits (renewRecord record) := by
  unfold renewMemory renewRecord FcgiRecordList.finished
  refine .deref_bind List.mem_cons_self ?_
  split
  · refine .seq (newRecordList_triple m.blocks) (by rw [List.append_nil]) ?_
    intro new hnone
    rw [List.append_nil]
    have hdelete := (deleteRecordList_triple m).frame new.blocks
    refine .perm List.perm_append_comm (hdelete.bind ?_)
    rintro - keep lost ⟨mine, rfl, rfl, rfl⟩
    exact .pure ⟨List.Perm.refl _, rfl, by rw [RecordMemory.Fits, hnone]; rfl⟩
  · exact .pure ⟨List.Perm.refl _, rfl, hfits⟩

theorem readRecord_triple (firstChunk : Bool) {record : FcgiRecordList}
    {m : RecordMemory} (hfits : m.Fits record) (hdone : record.state = .done) :
    Triple m.blocks (readRecord firstChunk record m) fun _ keep lost =>
      keep.Perm m.blocks ∧ lost = 0 ∧ True := by
  unfold readRecord
  refine .deref_bind (List.mem_cons_of_mem _ List.mem_cons_self) ?_
  split
  · refine deref_content ?_ ⟨List.Perm.refl _, rfl, trivial⟩
    rw [hfits, hdone]
    rfl
  · exact .pure ⟨List.Perm.refl _, rfl, trivial⟩

/-- What a run of the loop leaves that started with `record`: each record it
dispatched was replaced, at a loss of one block, except a last one that stays
finished. -/
def LoopLeaves (run : BufferRun) (record : FcgiRecordList)
    (r : BufferRun × RecordMemory) (keep : List Block) (lost : Nat) : Prop :=
  keep.Perm r.2.blocks ∧ r.1 = run ∧
    ∀ ret, run = .returned ret → ∃ last,
      ret.decoder.headerRecord = some last ∧ r.2.Fits last ∧
        lost + last.finished = record.finished + ret.dispatched.length

/-- The rest of the loop after a turn that dispatched `dispatched`. -/
theorem LoopLeaves.after {run : BufferRun} {record next : FcgiRecordList}
    {r : BufferRun × RecordMemory} {keep : List Block} {lost before : Nat}
    (h : LoopLeaves run next r keep lost) (output : List OutputPiece)
    (dispatched : List FcgiRecordList) (moved : Nat)
    (hbefore : before + next.finished = record.finished + dispatched.length) :
    LoopLeaves (run.after output dispatched moved) record
      (r.1.after output dispatched moved, r.2) keep (before + lost) := by
  obtain ⟨hkeep, rfl, hreturned⟩ := h
  refine ⟨hkeep, rfl, fun ret hret => ?_⟩
  cases hrun : r.1 with
  | returned ret' =>
      rw [hrun] at hret
      cases hret
      obtain ⟨last, hlast, hfits, hlost⟩ := hreturned ret' hrun
      refine ⟨last, hlast, hfits, ?_⟩
      rw [List.length_append]
      omega
  | readOutside =>
      rw [hrun] at hret
      cases hret
  | running =>
      rw [hrun] at hret
      cases hret

theorem fcgiProcessLoopMemory_triple (parse : MimeHdrParse) (fuel : Nat)
    (firstChunk : Bool) {m : RecordMemory} {record : FcgiRecordList}
    (buf : Bytes) (hfits : m.Fits record) :
    Triple m.blocks (fcgiProcessLoopMemory parse fuel firstChunk record m buf)
      (LoopLeaves (fcgiProcessLoop parse fuel firstChunk record buf)
        record) := by
  induction fuel generalizing firstChunk m record buf with
  | zero =>
      refine .pure ⟨List.Perm.refl _, rfl, fun ret hret => ?_⟩
      cases hret
  | succ fuel ih =>
      rw [fcgiProcessLoopMemory, fcgiProcessLoop]
      refine (renewMemory_triple hfits).bind ?_
      rintro m₁ keep lost ⟨hkeep, rfl, hfits₁⟩
      refine .perm hkeep ?_
      refine .seq (fcgiProcessRecordMemory_triple buf hfits₁)
        (by rw [List.append_nil]) ?_
      rintro ⟨a, m₂⟩ ⟨hrun, hfits₂⟩
      dsimp only at hrun hfits₂ ⊢
      rw [List.append_nil, ← hrun]
      have hrenew : (renewRecord record).state ≠ .done := by
        unfold renewRecord
        split
        · simp
        · next hne => exact hne
      cases a with
      | none =>
          refine .pure ⟨List.Perm.refl _, rfl, fun ret hret => ?_⟩
          cases hret
      | some a =>
          have hdone := fcgiProcessRecord_done_iff hrenew hrun.symm
          have hfits₃ := hfits₂ a rfl
          dsimp only
          split
          · next hrv =>
              have hstate := hdone.mp hrv
              have hfinished : a.record.finished = 1 := if_pos hstate
              refine .seq (readRecord_triple firstChunk hfits₃ hstate)
                (by rw [List.append_nil]) fun _ _ => ?_
              rw [List.append_nil]
              split
              · refine .pure ⟨List.Perm.refl _, rfl, ?_⟩
                rintro ret hret
                cases hret
                exact ⟨a.record, rfl, hfits₃, by rw [hfinished]; rfl⟩
              · split
                · refine .pure ⟨List.Perm.refl _, rfl, ?_⟩
                  rintro ret hret
                  cases hret
                  exact ⟨a.record, rfl, hfits₃, by rw [hfinished]; rfl⟩
                · refine (ih false (buf.drop a.moved) hfits₃).bind ?_
                  rintro ⟨run, m₃⟩ keep lost hleaves
                  exact .pure (hleaves.after _ [a.record] _
                    (by rw [hfinished]; rfl))
          · next hrv =>
              have hopen : a.record.finished = 0 :=
                if_neg fun hstate => hrv (hdone.mpr hstate)
              split
              · refine .pure ⟨List.Perm.refl _, rfl, ?_⟩
                rintro ret hret
                cases hret
                exact ⟨a.record, rfl, hfits₃, by rw [hopen]; rfl⟩
              · refine (ih firstChunk (buf.drop a.moved) hfits₃).bind ?_
                rintro ⟨run, m₃⟩ keep lost hleaves
                exact .pure (hleaves.after _ [] _ (by rw [hopen]; rfl))

/-! ### Requests and their blocks -/

namespace BeginRequestMemory

/-- The blocks that the destructor does not free. -/
def inner (m : BeginRequestMemory) : List Block := [m.header, m.body]

def blocks (m : BeginRequestMemory) : List Block := m.object :: m.inner

end BeginRequestMemory

def ResponseDecoder.finished (d : ResponseDecoder) : Nat :=
  match d.headerRecord with
  | some record => record.finished
  | none => 0

namespace ClientMemory

/-- The blocks behind the pointers that `createBeginRequest` sets. -/
def opening (m : ClientMemory) : List Block :=
  m.request.toList.flatMap BeginRequestMemory.blocks ++ m.header.toList

/-- The blocks that the destructor of the state does not free. -/
def inner (m : ClientMemory) : List Block :=
  m.request.toList.flatMap BeginRequestMemory.inner

/-- The blocks without those of the record under construction. -/
def rest (m : ClientMemory) : List Block :=
  m.object :: m.state :: m.buff :: (m.opening ++ m.postHeader.toList)

def blocks (m : ClientMemory) : List Block :=
  m.rest ++ m.headerRecord.toList.flatMap RecordMemory.blocks

/-- The pointers are null together with what they stand for. -/
structure Fits (m : ClientMemory) (client : FcgiClientRequest) : Prop where
  request : m.header.isSome = m.request.isSome
  record : Option.Rel RecordMemory.Fits m.headerRecord
    client.decoder.headerRecord

/-- How many of the blocks counted as lost are still held. -/
def held (m : ClientMemory) (client : FcgiClientRequest) : Nat :=
  4 * m.request.isSome.toNat + m.postHeader.isSome.toNat +
    client.decoder.finished

theorem Fits.opening_length {m : ClientMemory} {client : FcgiClientRequest}
    (h : m.Fits client) : m.opening.length = 4 * m.request.isSome.toNat := by
  have hheader := h.request
  unfold opening
  cases hr : m.request <;> cases hh : m.header <;>
    simp_all [BeginRequestMemory.blocks, BeginRequestMemory.inner]

theorem mem_blocks (m : ClientMemory) :
    m.object ∈ m.blocks ∧ m.state ∈ m.blocks ∧ m.buff ∈ m.blocks := by
  simp [blocks, rest]

end ClientMemory

/-- What calls with `begins` begin requests and `posts` post headers do to the
blocks of a request. -/
structure Spent (begins posts : Nat) (m : ClientMemory)
    (client : FcgiClientRequest) (m' : ClientMemory)
    (client' : FcgiClientRequest) (dispatched : List FcgiRecordList)
    (lost : Nat) : Prop where
  fits : m'.Fits client'
  isPost : client'.isPost = client.isPost
  request : m'.request.isSome = (m.request.isSome || decide (0 < begins))
  postHeader :
    m'.postHeader.isSome = (m.postHeader.isSome || decide (0 < posts))
  balance : lost + m'.held client' =
    m.held client + 4 * begins + posts + dispatched.length

theorem Spent.trans {b p b' p' : Nat} {m m' m'' : ClientMemory}
    {client client' client'' : FcgiClientRequest}
    {dispatched later : List FcgiRecordList} {lost more : Nat}
    (h : Spent b p m client m' client' dispatched lost)
    (h' : Spent b' p' m' client' m'' client'' later more) :
    Spent (b + b') (p + p') m client m'' client'' (dispatched ++ later)
      (lost + more) := by
  refine ⟨h'.fits, h'.isPost.trans h.isPost, ?_, ?_, ?_⟩
  · rw [h'.request, h.request, Bool.or_assoc, ← Bool.decide_or]
    congr 2
    exact propext (by omega)
  · rw [h'.postHeader, h.postHeader, Bool.or_assoc, ← Bool.decide_or]
    congr 2
    exact propext (by omega)
  · have hfirst := h.balance
    have hsecond := h'.balance
    rw [List.length_append]
    omega

/-! ### Programs on requests -/

theorem newClientRequest_triple :
    Triple [] newClientRequest fun m keep lost =>
      keep.Perm m.blocks ∧ lost = 0 ∧ m.request = none ∧ m.header = none ∧
        m.postHeader = none ∧ m.headerRecord = none := by
  unfold newClientRequest
  refine .malloc_bind fun object => .malloc_bind fun state =>
    .malloc_bind fun buff => .pure ⟨?_, rfl, rfl, rfl, rfl, rfl⟩
  exact List.reverse_perm [object, state, buff]

/-- The old values of the two pointers are lost. -/
theorem createBeginRequestMemory_triple (m : ClientMemory) :
    Triple m.blocks (createBeginRequestMemory m) fun m' keep lost =>
      keep.Perm m'.blocks ∧ lost = m.opening.length ∧
        m'.request.isSome = true ∧ m'.header.isSome = true ∧
        m'.postHeader = m.postHeader ∧ m'.headerRecord = m.headerRecord := by
  obtain ⟨-, hstate, hbuff⟩ := m.mem_blocks
  unfold createBeginRequestMemory
  refine .deref_bind hstate ?_
  refine .malloc_bind fun object => .malloc_bind fun requestHeader =>
    .malloc_bind fun body => ?_
  refine .deref_bind (by simp [hbuff]) (.malloc_bind fun header => ?_)
  have hperm : (header :: body :: requestHeader :: object :: m.blocks).Perm
      (m.opening ++ { m with
        request := some { object, header := requestHeader, body }
        header := some header : ClientMemory }.blocks) := by
    rw [List.perm_iff_count]
    intro b
    simp only [ClientMemory.blocks, ClientMemory.rest, ClientMemory.opening,
      BeginRequestMemory.blocks, BeginRequestMemory.inner, List.count_cons,
      List.count_append, Option.toList_some, List.flatMap_cons,
      List.flatMap_nil, List.count_nil]
    omega
  exact .lose hperm (.pure ⟨List.Perm.refl _, rfl, rfl, rfl, rfl, rfl⟩)

theorem createPostHeader_triple (m : ClientMemory) :
    Triple m.blocks (createPostHeader m) fun m' keep lost =>
      keep.Perm m'.blocks ∧ lost = m.postHeader.isSome.toNat ∧
        m'.request = m.request ∧ m'.header = m.header ∧
        m'.postHeader.isSome = true ∧ m'.headerRecord = m.headerRecord := by
  obtain ⟨-, hstate, hbuff⟩ := m.mem_blocks
  unfold createPostHeader
  refine .deref_bind hstate (.malloc_bind fun postHeader => ?_)
  refine .deref_bind (List.mem_cons_of_mem _ hbuff) ?_
  have hlength : m.postHeader.toList.length = m.postHeader.isSome.toNat := by
    cases m.postHeader <;> rfl
  have hperm : (postHeader :: m.blocks).Perm (m.postHeader.toList ++
      { m with postHeader := some postHeader : ClientMemory }.blocks) := by
    rw [List.perm_iff_count]
    intro b
    simp only [ClientMemory.blocks, ClientMemory.rest, ClientMemory.opening,
      List.count_cons, List.count_append, Option.toList_some, List.count_nil]
    omega
  exact .lose hperm (.pure ⟨List.Perm.refl _, hlength, rfl, rfl, rfl, rfl⟩)

theorem headerRecordMemory_triple {m : ClientMemory} {d : ResponseDecoder}
    (hfits : Option.Rel RecordMemory.Fits m.headerRecord d.headerRecord) :
    Triple m.blocks (headerRecordMemory m) fun record keep lost =>
      keep.Perm (record.blocks ++ m.rest) ∧ lost = 0 ∧
        record.Fits (d.headerRecord.getD {}) := by
  unfold headerRecordMemory
  refine .deref_bind m.mem_blocks.1 ?_
  split
  · next record hsome =>
      rw [hsome] at hfits
      generalize d.headerRecord = current at hfits ⊢
      cases hfits with
      | some hrecord =>
          refine .pure ⟨?_, rfl, hrecord⟩
          rw [ClientMemory.blocks, hsome, Option.toList_some,
            List.flatMap_singleton]
          exact List.perm_append_comm
  · next hnone =>
      rw [hnone] at hfits
      generalize d.headerRecord = current at hfits ⊢
      cases hfits with
      | none =>
          refine (newRecordList_triple m.blocks).mono ?_
          rintro record keep lost ⟨hkeep, rfl, hcontent⟩
          refine ⟨?_, rfl, by rw [RecordMemory.Fits, hcontent]; rfl⟩
          rw [ClientMemory.blocks, hnone, Option.toList_none,
            List.flatMap_nil, List.append_nil] at hkeep
          exact hkeep

/-- A chunk costs one block for each record it dispatches, apart from the last
one as long as it stays. -/
theorem fcgiDecodeRecordChunkMemory_triple (parse : MimeHdrParse)
    {m : ClientMemory} {d : ResponseDecoder} (chunk : Bytes)
    (hfits : Option.Rel RecordMemory.Fits m.headerRecord d.headerRecord) :
    Triple m.blocks (fcgiDecodeRecordChunkMemory parse d m chunk)
      fun r keep lost => keep.Perm r.2.blocks ∧
        r.1 = fcgiDecodeRecordChunk parse d chunk ∧
        r.2.request = m.request ∧ r.2.header = m.header ∧
        r.2.postHeader = m.postHeader ∧
        ∀ ret, r.1 = .returned ret →
          Option.Rel RecordMemory.Fits r.2.headerRecord
            ret.decoder.headerRecord ∧
          lost + ret.decoder.finished = d.finished + ret.dispatched.length := by
  have hstart : (d.headerRecord.getD {}).finished = d.finished := by
    unfold ResponseDecoder.finished
    cases d.headerRecord <;> rfl
  unfold fcgiDecodeRecordChunkMemory
  refine .seq (headerRecordMemory_triple hfits) (by rw [List.append_nil]) ?_
  intro record hrecord
  rw [List.append_nil]
  refine (fcgiProcessLoopMemory_triple parse (chunk.length + 2) d.firstChunk
    chunk hrecord).frame m.rest |>.bind ?_
  rintro ⟨run, record'⟩ keep lost ⟨mine, rfl, hkeep, hrun, hreturned⟩
  refine .pure ⟨?_, hrun, rfl, rfl, rfl, ?_⟩
  · rw [ClientMemory.blocks, Option.toList_some, List.flatMap_singleton]
    exact (hkeep.append_right m.rest).trans List.perm_append_comm
  · intro ret hret
    obtain ⟨last, hlast, hfits', hlost⟩ := hreturned ret (hrun ▸ hret)
    constructor
    · rw [hlast]
      exact .some hfits'
    · rw [ResponseDecoder.finished, hlast, ← hstart, ← hlost]
      rfl

/-- The destructor of the state loses what is behind `request`. -/
theorem deleteClientState_triple (m : ClientMemory) :
    Triple m.rest (deleteClientState m) fun _ keep lost =>
      keep = [m.object] ∧ lost = 2 * m.request.isSome.toNat := by
  have hinner : m.inner.length = 2 * m.request.isSome.toNat := by
    cases hr : m.request <;>
      simp [ClientMemory.inner, hr, BeginRequestMemory.inner]
  have hrequest : m.rest.Perm
      ((m.request.map BeginRequestMemory.object).toList ++
        (m.header.toList ++ (m.postHeader.toList ++
          (m.buff :: (m.inner ++ [m.state, m.object]))))) := by
    rw [List.perm_iff_count]
    intro b
    cases hr : m.request <;>
      simp only [hr, ClientMemory.inner, ClientMemory.rest,
        ClientMemory.opening,
        BeginRequestMemory.blocks, BeginRequestMemory.inner, List.count_cons,
        List.count_append, Option.toList_some, Option.toList_none,
        Option.map_some, Option.map_none, List.flatMap_cons, List.flatMap_nil,
        List.count_nil] <;>
      omega
  unfold deleteClientState
  refine .deref_bind (by simp [ClientMemory.rest]) ?_
  refine .free_bind hrequest ?_
  refine .free_bind (List.Perm.refl _) ?_
  refine .free_bind (List.Perm.refl _) ?_
  refine .free_bind (List.Perm.refl ([m.buff] ++ _)) ?_
  refine .free_bind (List.Perm.refl ([] ++ _)) ?_
  refine .lose (List.Perm.refl _) ?_
  exact .free (List.Perm.refl ([m.state] ++ [m.object])) ⟨rfl, hinner⟩

/-- Deleting a request loses what is behind `request` and one end body. -/
theorem deleteClientRequest_triple (m : ClientMemory) :
    Triple m.blocks (deleteClientRequest m) fun _ keep lost =>
      keep = [] ∧ lost = 2 * m.request.isSome.toNat +
        m.headerRecord.isSome.toNat := by
  unfold deleteClientRequest
  refine .deref_bind m.mem_blocks.1 ?_
  have hlast : Triple [m.object] (free (some m.object)) fun _ keep lost =>
      keep = [] ∧ lost = 0 :=
    .free (List.Perm.refl ([m.object] ++ [])) ⟨rfl, rfl⟩
  cases hrecord : m.headerRecord with
  | some record =>
      rw [ClientMemory.blocks, hrecord, Option.toList_some,
        List.flatMap_singleton]
      refine .perm List.perm_append_comm ?_
      refine ((deleteRecordList_triple record).frame m.rest).bind ?_
      rintro - keep lost ⟨mine, rfl, rfl, rfl⟩
      refine (deleteClientState_triple m).bind ?_
      rintro - keep lost ⟨rfl, rfl⟩
      refine hlast.mono ?_
      rintro - keep lost ⟨rfl, rfl⟩
      exact ⟨rfl, by rw [Option.isSome_some, Bool.toNat_true]; omega⟩
  | none =>
      rw [ClientMemory.blocks, hrecord, Option.toList_none, List.flatMap_nil,
        List.append_nil]
      refine (deleteClientState_triple m).bind ?_
      rintro - keep lost ⟨rfl, rfl⟩
      refine hlast.mono ?_
      rintro - keep lost ⟨rfl, rfl⟩
      exact ⟨rfl, rfl⟩

/-! ### Calls -/

/-- The begin requests that a call makes. -/
def ClientCall.begins : ClientCall → Nat
  | .feed (.header _) => 1
  | _ => 0

/-- The post headers that a call makes: at the end of the input of a POST there
is none. -/
def ClientCall.posts (isPost : Bool) : ClientCall → Nat
  | .feed (.body _) => 1
  | .feed .complete => if isPost then 0 else 1
  | _ => 0

theorem ClientInput.prepare_same {input : ClientInput}
    {client client' : FcgiClientRequest}
    (hprepare : input.prepare client = some client') :
    client'.decoder = client.decoder ∧ client'.isPost = client.isPost := by
  cases input with
  | header data =>
      cases hprepare
      exact ⟨rfl, rfl⟩
  | body data =>
      rw [prepare, FcgiClientRequest.postBodyChunk] at hprepare
      dsimp only at hprepare
      split at hprepare
      · cases hprepare
        exact ⟨rfl, rfl⟩
      · contradiction
  | complete =>
      cases hprepare
      unfold FcgiClientRequest.emptyParam
      split <;> exact ⟨rfl, rfl⟩

theorem Spent.congr {b p : Nat} {m m' : ClientMemory}
    {client client₁ client₂ : FcgiClientRequest}
    {dispatched : List FcgiRecordList} {lost : Nat}
    (h : Spent b p m client m' client₁ dispatched lost)
    (hdecoder : client₂.decoder = client₁.decoder)
    (hpost : client₂.isPost = client₁.isPost) :
    Spent b p m client m' client₂ dispatched lost := by
  refine ⟨⟨h.fits.request, ?_⟩, hpost.trans h.isPost, h.request, h.postHeader,
    ?_⟩
  · rw [hdecoder]
    exact h.fits.record
  · rw [ClientMemory.held, hdecoder]
    exact h.balance

/-- What an input does to the blocks. -/
theorem inputMemory_triple {m : ClientMemory} {client : FcgiClientRequest}
    (hfits : m.Fits client) (input : ClientInput) :
    Triple m.blocks (inputMemory client m input) fun m' keep lost =>
      keep.Perm m'.blocks ∧
        Spent (ClientCall.begins (.feed input))
          (ClientCall.posts client.isPost (.feed input)) m client m' client []
          lost := by
  have hpost : Triple m.blocks (createPostHeader m) fun m' keep lost =>
      keep.Perm m'.blocks ∧ Spent 0 1 m client m' client [] lost := by
    refine (createPostHeader_triple m).mono ?_
    rintro m' keep lost ⟨hkeep, rfl, hrequest, hheader, hsome, hrecord⟩
    refine ⟨hkeep, ⟨?_, ?_⟩, rfl, ?_, ?_, ?_⟩
    · rw [hheader, hrequest, hfits.request]
    · rw [hrecord]
      exact hfits.record
    · simp [hrequest]
    · simp [hsome]
    · rw [ClientMemory.held, ClientMemory.held, hrequest, hsome,
        Bool.toNat_true, List.length_nil]
      omega
  cases input with
  | header data =>
      refine (createBeginRequestMemory_triple m).mono ?_
      rintro m' keep lost ⟨hkeep, rfl, hrequest, hheader, hsame, hrecord⟩
      refine ⟨hkeep, ⟨?_, ?_⟩, rfl, ?_, ?_, ?_⟩
      · rw [hheader, hrequest]
      · rw [hrecord]
        exact hfits.record
      · simp [hrequest, ClientCall.begins]
      · simp [hsame, ClientCall.posts]
      · have hbegins : ClientCall.begins (.feed (.header data)) = 1 := rfl
        have hposts : ClientCall.posts client.isPost (.feed (.header data)) = 0 :=
          rfl
        rw [hfits.opening_length, ClientMemory.held, ClientMemory.held,
          hrequest, hsame, hbegins, hposts, Bool.toNat_true, List.length_nil]
        omega
  | body data => exact hpost
  | complete =>
      rw [inputMemory, emptyParamMemory]
      refine .deref_bind m.mem_blocks.2.1 ?_
      split
      · next hisPost =>
          refine .pure ⟨List.Perm.refl _, hfits, rfl, ?_, ?_, ?_⟩ <;>
            simp [ClientCall.begins, ClientCall.posts, hisPost]
      · next hisPost =>
          simpa only [ClientCall.begins, ClientCall.posts, if_neg hisPost]
            using hpost

/-- What calls leave that have the outcome `result`. -/
def CallLeaves (result : Option (FcgiClientRequest × List FcgiRecordList))
    (begins posts : Nat) (m : ClientMemory) (client : FcgiClientRequest)
    (r : Option (FcgiClientRequest × List FcgiRecordList) × ClientMemory)
    (keep : List Block) (lost : Nat) : Prop :=
  keep.Perm r.2.blocks ∧ r.1 = result ∧
    ∀ last, result = some last →
      Spent begins posts m client r.2 last.1 last.2 lost

theorem perform_triple (parse : MimeHdrParse) {m : ClientMemory}
    {client : FcgiClientRequest} (hfits : m.Fits client) (call : ClientCall) :
    Triple m.blocks (call.perform parse client m)
      (CallLeaves (call.apply parse client) call.begins
        (call.posts client.isPost) m client) := by
  cases call with
  | feed input =>
      rw [ClientCall.perform, ClientCall.apply]
      refine (inputMemory_triple hfits input).bind ?_
      rintro m' keep lost ⟨hkeep, hspent⟩
      refine .pure ⟨hkeep, rfl, ?_⟩
      intro last hlast
      obtain ⟨client', hprepare, rfl⟩ := Option.map_eq_some_iff.mp hlast
      obtain ⟨hdecoder, hpost⟩ := ClientInput.prepare_same hprepare
      exact hspent.congr hdecoder hpost
  | decode chunk =>
      rw [ClientCall.perform, ClientCall.apply]
      refine (fcgiDecodeRecordChunkMemory_triple parse chunk
        hfits.record).bind ?_
      rintro ⟨run, m'⟩ keep lost
        ⟨hkeep, hrun, hrequest, hheader, hpost, hreturned⟩
      dsimp only at hkeep hrun hrequest hheader hpost hreturned ⊢
      rw [← hrun]
      cases run with
      | returned ret =>
          obtain ⟨hrecord, hlost⟩ := hreturned ret rfl
          refine .pure ⟨hkeep, rfl, ?_⟩
          rintro last hlast
          cases hlast
          refine ⟨⟨?_, hrecord⟩, rfl, ?_, ?_, ?_⟩
          · rw [hheader, hrequest, hfits.request]
          · simp [hrequest, ClientCall.begins]
          · simp [hpost, ClientCall.posts]
          · have hbegins : ClientCall.begins (.decode chunk) = 0 := rfl
            have hposts : ClientCall.posts client.isPost (.decode chunk) = 0 :=
              rfl
            rw [ClientMemory.held, ClientMemory.held, hrequest, hpost, hbegins,
              hposts]
            dsimp only
            omega
      | readOutside =>
          refine .pure ⟨hkeep, rfl, ?_⟩
          intro last hlast
          contradiction
      | running =>
          refine .pure ⟨hkeep, rfl, ?_⟩
          intro last hlast
          contradiction

/-- What a call does to the blocks, call by call. -/
theorem performCalls_triple (parse : MimeHdrParse) {m : ClientMemory}
    {client : FcgiClientRequest} (hfits : m.Fits client)
    (calls : List ClientCall) :
    Triple m.blocks (performCalls parse calls client m)
      (CallLeaves (applyCalls parse calls client)
        (calls.map ClientCall.begins).sum
        (calls.map (ClientCall.posts client.isPost)).sum m client) := by
  induction calls generalizing m client with
  | nil =>
      refine .pure ⟨List.Perm.refl _, rfl, ?_⟩
      rintro last hlast
      cases hlast
      exact ⟨hfits, rfl, by simp, by simp, by simp⟩
  | cons call rest ih =>
      rw [performCalls, applyCalls]
      refine (perform_triple parse hfits call).bind ?_
      rintro ⟨result, m'⟩ keep lost ⟨hkeep, hresult, hspent⟩
      dsimp only at hkeep hresult hspent ⊢
      rw [← hresult] at hspent ⊢
      refine .perm hkeep ?_
      cases result with
      | none =>
          refine .pure ⟨List.Perm.refl _, rfl, ?_⟩
          intro last hlast
          contradiction
      | some next =>
          obtain ⟨client', dispatched⟩ := next
          have hfirst := hspent _ rfl
          refine (ih hfirst.fits).bind ?_
          rintro ⟨later, m''⟩ keep' more ⟨hkeep', hlater, hspent'⟩
          refine .pure ⟨hkeep', by rw [hlater], ?_⟩
          rintro last hlast
          obtain ⟨last', hsome, rfl⟩ := Option.map_eq_some_iff.mp hlast
          have hrest := hspent' last' hsome
          rw [hfirst.isPost] at hrest
          rw [List.map_cons, List.sum_cons, List.map_cons, List.sum_cons]
          exact hfirst.trans hrest

/-! ### The life of a request -/

/-- A record that a response has left unfinished. -/
def ResponseDecoder.unfinished (d : ResponseDecoder) : Nat :=
  match d.headerRecord with
  | some record => 1 - record.finished
  | none => 0

/-- The blocks that are never freed: of each begin request its header and its
body, and all of it when another one takes its place; each post header but the
last; the end body of each record. -/
def blocksLost (isPost : Bool) (calls : List ClientCall) (dispatched : Nat)
    (d : ResponseDecoder) : Nat :=
  (4 * (calls.map ClientCall.begins).sum - 2) +
    ((calls.map (ClientCall.posts isPost)).sum - 1) +
    (dispatched + d.unfinished)

theorem Spent.lost_eq {b p : Nat} {m m' : ClientMemory}
    {client client' : FcgiClientRequest} {dispatched : List FcgiRecordList}
    {lost : Nat} (h : Spent b p m client m' client' dispatched lost)
    (hrequest : m.request = none) (hpost : m.postHeader = none)
    (hfresh : client.decoder = {}) :
    lost + (2 * m'.request.isSome.toNat + m'.headerRecord.isSome.toNat) =
      (4 * b - 2) + (p - 1) +
        (dispatched.length + client'.decoder.unfinished) := by
  have hnothing : m.held client = 0 := by
    rw [ClientMemory.held, hrequest, hpost, hfresh]
    rfl
  have hrecord : m'.headerRecord.isSome.toNat =
      client'.decoder.finished + client'.decoder.unfinished := by
    have hrel := h.fits.record
    unfold ResponseDecoder.finished ResponseDecoder.unfinished
    generalize m'.headerRecord = r, client'.decoder.headerRecord = d at hrel
    cases hrel with
    | none => rfl
    | @some r record hfits =>
        dsimp only
        unfold FcgiRecordList.finished
        split <;> rfl
  have hbalance := h.balance
  have hsome := h.request
  have hpostSome := h.postHeader
  rw [hrequest, Option.isSome_none, Bool.false_or] at hsome
  rw [hpost, Option.isSome_none, Bool.false_or] at hpostSome
  rw [ClientMemory.held, hsome, hpostSome, hnothing] at hbalance
  rw [hrecord, hsome]
  by_cases hb : 0 < b <;> by_cases hp : 0 < p <;>
    simp only [hb, hp, decide_true, decide_false, Bool.toNat_true,
      Bool.toNat_false] at hbalance ⊢ <;>
    omega

theorem requestLife_triple (parse : MimeHdrParse) {client : FcgiClientRequest}
    (hfresh : client.decoder = {}) (calls : List ClientCall) :
    Triple [] (requestLife parse client calls) fun result keep lost =>
      keep = [] ∧ result = applyCalls parse calls client ∧
        ∀ last, result = some last → lost =
          blocksLost client.isPost calls last.2.length last.1.decoder := by
  unfold requestLife
  refine .seq newClientRequest_triple (List.Perm.refl _) ?_
  rintro m ⟨hrequest, hheader, hpost, hrecord⟩
  rw [List.append_nil]
  have hfits : m.Fits client := by
    refine ⟨by rw [hheader, hrequest]; rfl, ?_⟩
    rw [hrecord, hfresh]
    exact .none
  refine (performCalls_triple parse hfits calls).bind ?_
  rintro ⟨result, m'⟩ keep lost ⟨hkeep, hresult, hspent⟩
  dsimp only at hkeep hresult hspent ⊢
  subst hresult
  refine .perm hkeep ?_
  cases hlast : applyCalls parse calls client with
  | none =>
      have hall : m'.blocks.Perm (m'.blocks ++ []) := by rw [List.append_nil]
      refine .lose hall (.pure ⟨rfl, rfl, ?_⟩)
      intro last hsome
      contradiction
  | some last =>
      have hlost := (hspent last hlast).lost_eq hrequest hpost hfresh
      refine (deleteClientRequest_triple m').bind ?_
      rintro - keep' more ⟨rfl, rfl⟩
      refine .pure ⟨rfl, rfl, ?_⟩
      rintro last' hsome
      cases hsome
      exact hlost

theorem requestLife_of_fresh (parse : MimeHdrParse) {client : FcgiClientRequest}
    (hfresh : client.decoder = {}) (calls : List ClientCall) {h : Heap}
    (hvalid : h.Valid) :
    ∃ h' gone, requestLife parse client calls h =
        some (applyCalls parse calls client, h') ∧
      h'.Valid ∧ h'.live.Perm (h.live ++ gone) ∧
      ∀ last, applyCalls parse calls client = some last → gone.length =
        blocksLost client.isPost calls last.2.length last.1.decoder := by
  obtain ⟨result, h', gone, hrun, hvalid', hlive, rfl, hlost⟩ :=
    (requestLife_triple parse hfresh calls).leaves hvalid
  exact ⟨h', gone, hrun, hvalid', hlive, hlost⟩

/-- Whatever calls are made on a request between its construction and its
destruction, no block name is used after it was freed, or freed twice, and all
names that were live before still are.  Where the calls return, what is left of
its own blocks is known exactly. -/
theorem requestLife_leaves (parse : MimeHdrParse) (config : FcgiPluginConfig)
    (requestId : Nat) (txn : ClientRequest) (calls : List ClientCall) (h : Heap)
    (hvalid : h.Valid) :
    ∃ h' gone, requestLife parse (.new config requestId txn) calls h =
        some (applyCalls parse calls (.new config requestId txn), h') ∧
      h'.Valid ∧ h'.live.Perm (h.live ++ gone) ∧
      ∀ last, applyCalls parse calls (.new config requestId txn) = some last →
        gone.length =
          blocksLost (FcgiClientRequest.new config requestId txn).isPost calls
            last.2.length last.1.decoder :=
  requestLife_of_fresh parse
    (FcgiClientRequest.new_fresh config requestId txn).2.1 calls hvalid

namespace AllocationWitness

open DecoderSafetyWitness (parse)

def config : FcgiPluginConfig := ⟨[], [], 6, 1, 1, {}⟩

def client : FcgiClientRequest := .new config 1 ⟨false, [], [], [], []⟩

/-- A request without a body, and a whole record of its answer. -/
def calls : List ClientCall :=
  [.feed (.header []), .feed .complete,
    .decode (DecoderSafetyWitness.chunk ++ [0, 0])]

/-- The header and the body of the begin request, and the end body of the
record. -/
theorem requestLife_leaves_three :
    ∃ last h' gone, requestLife parse client calls {} = some (some last, h') ∧
      h'.live.Perm gone ∧ gone.length = 3 := by
  obtain ⟨h', gone, hlife, -, hlive, hgone⟩ := requestLife_leaves parse config 1
    ⟨false, [], [], [], []⟩ calls {} ⟨List.nodup_nil, by simp⟩
  have hlost : (applyCalls parse calls client).map (fun last =>
      blocksLost client.isPost calls last.2.length last.1.decoder) = some 3 := by
    decide +kernel
  obtain ⟨last, hlast, hthree⟩ := Option.map_eq_some_iff.mp hlost
  refine ⟨last, h', gone, ?_, hlive, (hgone last hlast).trans hthree⟩
  rw [← hlast]
  exact hlife

end AllocationWitness

end AtsFastcgi
