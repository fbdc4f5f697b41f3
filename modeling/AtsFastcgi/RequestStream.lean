/-
What the FastCGI server reads.  The bytes on a connection are whole records,
and the server sorts them by their request id: it gets back the writes of each
request by itself, and of a request that was sent whole the parameters and the
body that the client asked with.
-/
import AtsFastcgi.RequestOwnership
import AtsFastcgi.Preamble

namespace AtsFastcgi

open ServerState (ConnEvent Event)

/-! ### Sorting records -/

/-- The bytes are whole records of the request `id`. -/
def HoldsRecords (id : Nat) (bytes : Bytes) : Prop :=
  ∃ recs, bytes = Record.code.encodeAll recs ∧ ∀ r ∈ recs, r.requestId = id

theorem HoldsRecords.nil (id : Nat) : HoldsRecords id [] :=
  ⟨[], rfl, fun _ hr => absurd hr List.not_mem_nil⟩

/-- The records of one request among others. -/
def recordsOf (id : Nat) (recs : List Record) : List Record :=
  recs.filter fun r => r.requestId = id

theorem recordsOf_append (id : Nat) (front back : List Record) :
    recordsOf id (front ++ back) = recordsOf id front ++ recordsOf id back :=
  List.filter_append front back

theorem recordsOf_self {id : Nat} {recs : List Record}
    (hids : ∀ r ∈ recs, r.requestId = id) : recordsOf id recs = recs :=
  List.filter_eq_self.mpr fun r hr => decide_eq_true (hids r hr)

theorem recordsOf_of_ne {id id' : Nat} {recs : List Record}
    (hids : ∀ r ∈ recs, r.requestId = id') (hne : id' ≠ id) :
    recordsOf id recs = [] := by
  refine List.filter_eq_nil_iff.mpr fun r hr hid => hne ?_
  rw [← hids r hr]
  exact of_decide_eq_true hid

/-- A log of whole records is a stream of records, and sorting the records by
their ids sorts the log. -/
theorem exists_records {log : List (Nat × Bytes)}
    (hlog : ∀ w ∈ log, HoldsRecords w.1 w.2) :
    ∃ recs, (log.map Prod.snd).flatten = Record.code.encodeAll recs ∧
      ∀ id, ((log.filter fun w => w.1 = id).map Prod.snd).flatten =
        Record.code.encodeAll (recordsOf id recs) := by
  induction log with
  | nil => exact ⟨[], rfl, fun _ => rfl⟩
  | cons w rest ih =>
      obtain ⟨recs, hrecs, hof⟩ := ih fun w' hw' =>
        hlog w' (List.mem_cons_of_mem w hw')
      obtain ⟨first, hfirst, hids⟩ := hlog w List.mem_cons_self
      refine ⟨first ++ recs, ?_, fun id => ?_⟩
      · rw [List.map_cons, List.flatten_cons, hrecs, hfirst,
          PrefixCode.encodeAll_append]
      · rw [recordsOf_append, PrefixCode.encodeAll_append, ← hof]
        by_cases hid : w.1 = id
        · subst hid
          rw [List.filter_cons_of_pos (by simp), recordsOf_self hids,
            List.map_cons, List.flatten_cons, hfirst]
        · rw [List.filter_cons_of_neg (by simpa using hid),
            recordsOf_of_ne hids hid]
          rfl

/-! ### The writes of a request -/

/-- The parameters of the request fit a record, and so does every chunk of its
body. -/
structure ServerIntercept.FitsRecords (config : FcgiPluginConfig)
    (x : ServerIntercept) : Prop where
  params : paramsSize (x.request config 0).requestHeaders < 65536
  chunks : ∀ data ∈ x.bodies, data.length < 65536

instance (config : FcgiPluginConfig) (x : ServerIntercept) :
    Decidable (x.FitsRecords config) :=
  decidable_of_iff
    (paramsSize (x.request config 0).requestHeaders < 65536 ∧
      ∀ data ∈ x.bodies, data.length < 65536)
    ⟨fun h => ⟨h.1, h.2⟩, fun h => ⟨h.params, h.chunks⟩⟩

theorem FcgiClientRequest.new_sameHeaders (config : FcgiPluginConfig)
    (id id' : Nat) (txn : ClientRequest) :
    (FcgiClientRequest.new config id txn).requestHeaders =
      (FcgiClientRequest.new config id' txn).requestHeaders := by
  simp only [FcgiClientRequest.new]
  split <;> rfl

theorem FcgiClientRequest.stdinRecord_requestId (client : FcgiClientRequest)
    (data : Bytes) (hdata : data.length < 65536) :
    (client.stdinRecord data hdata).requestId = client.requestId % 65536 :=
  byte1_byte0_toNat client.requestId

theorem ServerIntercept.Wrote.holdsRecords {config : FcgiPluginConfig}
    {x : ServerIntercept} {id : Nat} {buf : Bytes}
    (hfits : x.FitsRecords config) (hid : id < 65536)
    (hwrote : x.Wrote config id buf) : HoldsRecords id buf := by
  have hrequest : (x.request config id).requestId = id :=
    (FcgiClientRequest.new_fresh config id x.txn).2.2
  have hmod : (x.request config id).requestId % 65536 = id := by
    rw [hrequest, Nat.mod_eq_of_lt hid]
  cases hwrote with
  | header hheaders =>
      obtain ⟨opening, stream, last, pairs, hread⟩ :=
        (x.request config id).readsBack_preamble
          (by rw [hrequest]; exact hid)
          (by
            rw [ServerIntercept.request,
              FcgiClientRequest.new_sameHeaders config id 0]
            exact hfits.params)
      refine ⟨_, Record.code.decodeAll_eq_some_iff.mp hread.split, ?_⟩
      intro r hr
      rw [hread.ids r hr, hrequest]
  | body hdata =>
      refine ⟨_, (x.request config id).bodyBuffer_eq (hfits.chunks _ hdata), ?_⟩
      intro r hr
      rcases List.mem_pair.mp hr with rfl | rfl
      · rw [FcgiClientRequest.stdinRecord_requestId, hmod]
      · rw [FcgiClientRequest.stdinRecord_requestId, hmod]
  | complete hcompletes =>
      cases hpost : (x.request config id).isPost with
      | true =>
          have hempty : (x.request config id).endBuffer = [] := if_pos hpost
          rw [hempty]
          exact .nil id
      | false =>
          refine ⟨_, (x.request config id).endBuffer_eq hpost, ?_⟩
          intro r hr
          rw [List.mem_singleton.mp hr,
            FcgiClientRequest.stdinRecord_requestId, hmod]

/-! ### Runs -/

/-- The bytes that were written on a connection. -/
def ServerConnection.stream (c : ServerConnection) : Bytes :=
  (c.written.map Prod.snd).flatten

section Streams

variable {parse : MimeHdrParse} {config : FcgiPluginConfig}
  {events : List Event} {s : ServerState}

theorem holdsRecords_of_run
    (hrun : Transition.Run (workerThread parse config) FedInOrder
      (ServerState.new config) events s)
    (hids : s.issued < 65536) {c : ConnId}
    (hfits : ∀ i ∈ dispatched parse config events,
      (s.intercepts i).FitsRecords config) :
    ∀ w ∈ (s.conns c).written, HoldsRecords w.1 w.2 := by
  have hlt : s.issued < 2 ^ 32 - 1 := Nat.lt_trans hids (by decide)
  have h := (scheduled_of_run (.init config)
    (hrun.mono fun _ _ hg => hg.1) hlt).consistent
  intro w hw
  obtain ⟨i, hi, -, hwrote⟩ := writesAttributed_of_run hrun hlt c w hw
  have hid : w.1 < 65536 := by
    have hnext := h.written_lt c w hw
    rw [h.nextId_eq] at hnext
    omega
  exact hwrote.holdsRecords (hfits i (List.mem_of_getElem? hi)) hid

end Streams

/-- As long as the ids and the parts of the requests fit their fields, the
bytes on every connection are whole records, and sorted by their ids they give
back what was written under each id. -/
theorem stream_sorts (parse : MimeHdrParse) (config : FcgiPluginConfig)
    (events : List Event) (s : ServerState)
    (hrun : Transition.Run (workerThread parse config) FedInOrder
      (ServerState.new config) events s)
    (hids : s.issued < 65536) (c : ConnId)
    (hfits : ∀ i ∈ dispatched parse config events,
      (s.intercepts i).FitsRecords config) :
    ∃ recs, Record.code.decodeAll (s.conns c).stream = some recs ∧
      ∀ id, Record.code.decodeAll ((s.conns c).writesOf id).flatten =
        some (recordsOf id recs) := by
  obtain ⟨recs, hrecs, hof⟩ :=
    exists_records (holdsRecords_of_run (c := c) hrun hids hfits)
  exact ⟨recs, Record.code.decodeAll_eq_some_iff.mpr hrecs,
    fun id => Record.code.decodeAll_eq_some_iff.mpr (hof id)⟩

/-- The server reads the request `id` with the parameters `m` and the body
`body` off records. -/
def ReadsRequest (recs : List Record) (id : Nat) (m : StringMap)
    (body : Bytes) : Prop :=
  ∃ front stdin, recs = front ++ stdin ∧
    ReadsBack (Record.code.encodeAll front) id m ∧ StdinStream stdin body

theorem KeepsWhole.fedInOrder {s : ServerState} {e : Event}
    (h : KeepsWhole s e) : FedInOrder s e := by
  refine ⟨h.1, h.2.1, ?_⟩
  cases e with
  | input i input => exact h.2.2.feeds
  | connect | connection | destroy | respond => trivial

/-- A request whose input has ended can be read off its connection. -/
theorem readsRequest_of_run {parse : MimeHdrParse} {config : FcgiPluginConfig}
    {events : List Event} {s : ServerState}
    (hrun : Transition.Run (workerThread parse config) KeepsWhole
      (ServerState.new config) events s)
    (hids : s.issued < 65536)
    (hfits : ∀ i ∈ dispatched parse config events,
      (s.intercepts i).FitsRecords config)
    {id : Nat} {i : InterceptId} {c : ConnId} (hr : s.Registered id i c)
    (hended : 0 < (s.intercepts i).inputCompletes) :
    ∃ recs, Record.code.decodeAll (s.conns c).stream = some recs ∧
      ReadsRequest (recordsOf id recs) id
        ((s.intercepts i).request config id).requestHeaders
        (s.intercepts i).bodies.flatten := by
  have hlt : s.issued < 2 ^ 32 - 1 := Nat.lt_trans hids (by decide)
  have hfed := hrun.mono fun _ _ h => h.fedInOrder
  have h := (scheduled_of_run (.init config)
    (hrun.mono fun _ _ hg => hg.1) hlt).consistent
  have hL := LocalPredicates.holds_of_reach (fun _ _ hg => ⟨hg.1, hg.2.1⟩)
    (sentSoFar_preserved parse config) ((Transition.Reach.init rfl).run hrun)
    hlt
  have hne : (s.intercepts i).inputCompletes ≠ 0 := Nat.ne_of_gt hended
  have hsent := (hL.bound hr).resolve_left fun hunsent =>
    hne (hL.ever i (h.entry_connected hr) hunsent.headers).2
  have hwrites := hsent.writes
  rw [if_neg hne] at hwrites
  obtain ⟨recss, hrecss, hstdin⟩ := (FcgiClientRequest.carriesBody_iff _
    hsent.lengths).mpr (hsent.fits hne)
  have hid : id < 65536 := by
    have hnext := (h.entry_id hr).2
    rw [h.nextId_eq] at hnext
    omega
  have hone : i ∈ dispatched parse config events :=
    List.mem_of_getElem?
      (dispatched_of_registered (hrun.mono fun _ _ hg => hg.1) hlt hr)
  have hread := ((s.intercepts i).request config id).readsBack_preamble
    (by
      rw [ServerIntercept.request, (FcgiClientRequest.new_fresh _ id _).2.2]
      exact hid)
    (by
      rw [ServerIntercept.request,
        FcgiClientRequest.new_sameHeaders config id 0]
      exact (hfits i hone).params)
  obtain ⟨opening, stream, last, pairs, hpreamble⟩ := hread
  have hbytes := Record.code.decodeAll_eq_some_iff.mp hpreamble.split
  obtain ⟨recs, hrecs, hof⟩ :=
    exists_records (holdsRecords_of_run (c := c) hfed hids hfits)
  refine ⟨recs, Record.code.decodeAll_eq_some_iff.mpr hrecs,
    opening :: stream ++ [last], recss.flatten, ?_, ?_, hstdin⟩
  · apply Record.code.encodeAll_injective
    rw [← hof id, PrefixCode.encodeAll_append, Record.encodeAll_flatten,
      ← hrecss, ← hbytes]
    show ((s.conns c).writesOf id).flatten = _
    rw [hwrites, List.flatten_cons]
  · rw [← hbytes]
    refine ⟨opening, stream, last, pairs, ?_⟩
    have hrequest : ((s.intercepts i).request config id).requestId = id :=
      (FcgiClientRequest.new_fresh config id _).2.2
    rw [hrequest] at hpreamble
    exact hpreamble

/-- A request whose input has ended is read off its connection with its
parameters and its body, whatever other requests are on the connection. -/
theorem request_read_back (parse : MimeHdrParse) (config : FcgiPluginConfig)
    (events : List Event) (s : ServerState)
    (hrun : Transition.Run (workerThread parse config) KeepsWhole
      (ServerState.new config) events s)
    (hids : s.issued < 65536)
    (hfits : ∀ i ∈ dispatched parse config events,
      (s.intercepts i).FitsRecords config)
    (id : Nat) (i : InterceptId) (c : ConnId) (hr : s.Registered id i c)
    (hended : 0 < (s.intercepts i).inputCompletes) :
    ∃ recs, Record.code.decodeAll (s.conns c).stream = some recs ∧
      ReadsRequest (recordsOf id recs) id
        ((s.intercepts i).request config id).requestHeaders
        (s.intercepts i).bodies.flatten :=
  readsRequest_of_run hrun hids hfits hr hended

namespace StreamWitness

/-- Two requests on one connection. -/
theorem stream_sorts_final :
    ∃ recs, Record.code.decodeAll (OwnershipWitness.final.conns 0).stream =
        some recs ∧
      ∀ id, Record.code.decodeAll
          ((OwnershipWitness.final.conns 0).writesOf id).flatten =
        some (recordsOf id recs) :=
  stream_sorts IsolationWitness.parse IsolationWitness.config
    IsolationWitness.events OwnershipWitness.final
    (.after (by decide +kernel)) (by decide +kernel) 0 (by decide +kernel)

open DeliveryWitness (failedEvents final)

/-- A `POST` whose first connection could not be made. -/
theorem request_read_back_final :
    ∃ recs, Record.code.decodeAll (final.conns 1).stream = some recs ∧
      ReadsRequest (recordsOf 2 recs) 2
        ((final.intercepts 0).request ResumeWitness.config 2).requestHeaders
        (final.intercepts 0).bodies.flatten :=
  request_read_back DecoderSafetyWitness.parse ResumeWitness.config
    failedEvents final (.after (by decide +kernel)) (by decide +kernel)
    (by decide +kernel) 2 0 1 (by decide +kernel) (by decide +kernel)

end StreamWitness

end AtsFastcgi
