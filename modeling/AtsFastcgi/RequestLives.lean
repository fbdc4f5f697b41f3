/-
The FCGI clients of a worker thread's connections have lives: in every run each
of them is what calls have made of a new one, so that it can be deleted, and
what it leaves behind is bounded by the traffic of its intercept.
-/
import AtsFastcgi.AllocationSafety
import AtsFastcgi.LocalInvariant

namespace AtsFastcgi

open ServerState (ConnEvent Event)
open Ownership

/-- Calls one after the other. -/
theorem applyCalls_append {parse : MimeHdrParse} {calls more : List ClientCall}
    {client client' client'' : FcgiClientRequest}
    {dispatched later : List FcgiRecordList}
    (hcalls : applyCalls parse calls client = some (client', dispatched))
    (hmore : applyCalls parse more client' = some (client'', later)) :
    applyCalls parse (calls ++ more) client =
      some (client'', dispatched ++ later) := by
  induction calls generalizing client dispatched with
  | nil =>
      cases hcalls
      exact hmore
  | cons call rest ih =>
      rw [applyCalls] at hcalls
      rw [List.cons_append, applyCalls]
      split at hcalls
      · next next first hcall =>
          obtain ⟨last, hlast, heq⟩ := Option.map_eq_some_iff.mp hcalls
          cases heq
          rw [ih hlast, Option.map_some, List.append_assoc]
      · contradiction

/-- The block loop decodes its blocks one after the other. -/
theorem applyCalls_transferBlocks {parse : MimeHdrParse} {blocks : List Bytes}
    {t t' : Transfer} (client : FcgiClientRequest)
    (hdecoder : client.decoder = t.decoder)
    (hrun : transferBlocks parse t blocks = some t') :
    ∃ calls dispatched, applyCalls parse calls client =
        some ({ client with decoder := t'.decoder }, dispatched) ∧
      t'.dispatched = t.dispatched ++ dispatched ∧
      ∀ call ∈ calls, ∃ chunk, call = .decode chunk := by
  induction blocks generalizing t client with
  | nil =>
      cases hrun
      refine ⟨[], [], ?_, (List.append_nil _).symm, ?_⟩
      · rw [applyCalls, ← hdecoder]
      · intro call hcall
        contradiction
  | cons block rest ih =>
      rw [transferBlocks] at hrun
      split at hrun
      · exact ih client hdecoder hrun
      · split at hrun
        · next ret hret =>
            obtain ⟨calls, dispatched, hcalls, hdispatched, hdecode⟩ :=
              ih { client with decoder := ret.decoder } rfl hrun
            refine ⟨.decode block :: calls, ret.dispatched ++ dispatched, ?_, ?_,
              ?_⟩
            · rw [applyCalls, ClientCall.apply, hdecoder, hret]
              dsimp only
              rw [hcalls]
              rfl
            · rw [hdispatched, List.append_assoc]
            · intro call hcall
              rcases List.mem_cons.mp hcall with rfl | hrest
              · exact ⟨block, rfl⟩
              · exact hdecode call hrest
        · contradiction

/-! ### Traffic -/

/-- What went to and from an intercept, in blocks: a begin request has four, a
post header and a dispatched record have one each. -/
def ServerIntercept.traffic (x : ServerIntercept) : Nat :=
  4 * x.headers.length + x.bodies.length + x.inputCompletes +
    (x.deliveries.map fun d => d.dispatched.length).sum

/-- The blocks of the calls on a request. -/
def callsCost (isPost : Bool) (calls : List ClientCall) : Nat :=
  4 * (calls.map ClientCall.begins).sum +
    (calls.map (ClientCall.posts isPost)).sum

theorem callsCost_append (isPost : Bool) (calls more : List ClientCall) :
    callsCost isPost (calls ++ more) =
      callsCost isPost calls + callsCost isPost more := by
  simp only [callsCost, List.map_append, List.sum_append]
  omega

theorem callsCost_decode (isPost : Bool) {calls : List ClientCall}
    (hdecode : ∀ call ∈ calls, ∃ chunk, call = .decode chunk) :
    callsCost isPost calls = 0 := by
  induction calls with
  | nil => rfl
  | cons call rest ih =>
      obtain ⟨chunk, rfl⟩ := hdecode call List.mem_cons_self
      have hrest := ih fun other hother =>
        hdecode other (List.mem_cons_of_mem _ hother)
      rw [← List.singleton_append, callsCost_append, hrest]
      rfl

theorem callsCost_feed (isPost : Bool) (input : ClientInput)
    (x : ServerIntercept) :
    x.traffic + callsCost isPost [.feed input] ≤
      (input.sent (input.log x)).traffic := by
  cases input with
  | header data =>
      simp only [callsCost, ClientCall.begins, ClientCall.posts,
        ClientInput.sent, ClientInput.log, ServerIntercept.traffic,
        List.map_cons, List.map_nil, List.sum_cons, List.sum_nil,
        List.length_append, List.length_singleton]
      omega
  | body data =>
      simp only [callsCost, ClientCall.begins, ClientCall.posts,
        ClientInput.sent, ClientInput.log, ServerIntercept.traffic,
        List.map_cons, List.map_nil, List.sum_cons, List.sum_nil,
        List.length_append, List.length_singleton]
      omega
  | complete =>
      have hposts : ClientCall.posts isPost (.feed .complete) ≤ 1 := by
        cases isPost <;> decide
      simp only [callsCost, ClientCall.begins, ClientInput.sent,
        ClientInput.log, ServerIntercept.traffic, List.map_cons, List.map_nil,
        List.sum_cons, List.sum_nil]
      omega

/-- The client is what calls within the traffic of the intercept have made of a
new one. -/
def LivesFor (parse : MimeHdrParse) (config : FcgiPluginConfig) (id : Nat)
    (x : ServerIntercept) (client : FcgiClientRequest) : Prop :=
  ∃ calls dispatched,
    applyCalls parse calls (.new config id x.txn) = some (client, dispatched) ∧
      callsCost (FcgiClientRequest.new config id x.txn).isPost calls +
        dispatched.length ≤ x.traffic

namespace LivesFor

variable {parse : MimeHdrParse} {config : FcgiPluginConfig} {id : Nat}
  {x x' : ServerIntercept} {client client' : FcgiClientRequest}

theorem new (parse : MimeHdrParse) (config : FcgiPluginConfig) (id : Nat)
    (x : ServerIntercept) :
    LivesFor parse config id x (.new config id x.txn) :=
  ⟨[], [], rfl, Nat.zero_le _⟩

theorem congr (h : LivesFor parse config id x client) (htxn : x'.txn = x.txn)
    (htraffic : x.traffic ≤ x'.traffic) :
    LivesFor parse config id x' client := by
  obtain ⟨calls, dispatched, hcalls, hcost⟩ := h
  refine ⟨calls, dispatched, ?_, ?_⟩
  · rw [htxn]
    exact hcalls
  · rw [htxn]
    exact Nat.le_trans hcost htraffic

theorem feed (h : LivesFor parse config id x client) {input : ClientInput}
    (hprepare : input.prepare client = some client') :
    LivesFor parse config id (input.sent (input.log x)) client' := by
  obtain ⟨calls, dispatched, hcalls, hcost⟩ := h
  have htxn : (input.sent (input.log x)).txn = x.txn := by
    cases input <;> rfl
  have hcall : applyCalls parse [.feed input] client = some (client', []) := by
    rw [applyCalls, ClientCall.apply, hprepare]
    rfl
  have hmore := callsCost_feed
    (FcgiClientRequest.new config id x.txn).isPost input x
  refine ⟨calls ++ [.feed input], dispatched ++ [], ?_, ?_⟩
  · rw [htxn]
    exact applyCalls_append hcalls hcall
  · rw [htxn, callsCost_append, List.append_nil]
    omega

theorem read (h : LivesFor parse config id x client) {blocks : List Bytes}
    {t : Transfer} {d : Delivery}
    (hrun : transferBlocks parse { decoder := client.decoder } blocks = some t)
    (hdispatched : d.dispatched = t.dispatched) :
    LivesFor parse config id (x.deliver d)
      { client with decoder := t.decoder } := by
  obtain ⟨calls, dispatched, hcalls, hcost⟩ := h
  obtain ⟨more, later, hmore, hlater, hdecode⟩ :=
    applyCalls_transferBlocks client rfl hrun
  refine ⟨calls ++ more, dispatched ++ later, applyCalls_append hcalls hmore,
    ?_⟩
  have htraffic : (x.deliver d).traffic = x.traffic + later.length := by
    simp only [ServerIntercept.traffic, ServerIntercept.deliver,
      List.map_append, List.sum_append, List.map_singleton,
      List.sum_singleton, hdispatched, hlater, List.nil_append]
    omega
  have htxn : (x.deliver d).txn = x.txn := rfl
  rw [htxn, callsCost_append, callsCost_decode _ hdecode, htraffic,
    List.length_append]
  omega

end LivesFor

/-! ### Runs -/

/-- Events for objects that exist; a transaction feeds and destroys what it was
given. -/
def Given (s : ServerState) (e : Event) : Prop := Exists s e ∧ Owns s e

instance (s : ServerState) (e : Event) : Decidable (Given s e) :=
  inferInstanceAs (Decidable (_ ∧ _))

/-- The FCGI client of a registered connection lives for its intercept. -/
def clientLives (parse : MimeHdrParse) (config : FcgiPluginConfig) :
    LocalPredicates where
  ever _ := True
  waiting _ := True
  idle _ := True
  bound id conn x := ∀ client ∈ conn.fcgiRequest,
    LivesFor parse config id x client

theorem clientLives_attached {parse : MimeHdrParse} {config : FcgiPluginConfig}
    {id : Nat} {conn : ServerConnection} {x : ServerIntercept}
    (hid : conn.requestId = id) (hready : conn.state = .ready) :
    (clientLives parse config).bound id (conn.createFCGIClient config x).1
      (conn.createFCGIClient config x).2 := by
  simp only [ServerConnection.createFCGIClient, hready, true_or, if_true]
  intro client hclient
  obtain rfl := Option.some.inj hclient
  rw [hid]
  exact (LivesFor.new parse config id x).congr rfl (Nat.le_refl _)

theorem clientLives_read {parse : MimeHdrParse} {config : FcgiPluginConfig}
    {id : Nat} {conn conn' : ServerConnection} {x x' : ServerIntercept}
    {responseStatus : Bool} (hbound : (clientLives parse config).bound id conn x)
    (hrun : interceptTransferData parse conn x =
      some (responseStatus, conn', x')) :
    (clientLives parse config).bound id conn' x' := by
  rcases ServerConnection.interceptTransferData_eq_some hrun with
    ⟨-, -, -, rfl, rfl⟩ | ⟨client, t, hclient, ht, -, rfl, rfl⟩
  · exact hbound
  · intro client' hin
    obtain rfl := Option.some.inj hin
    exact (hbound client hclient).read ht rfl

theorem clientLives_preserved (parse : MimeHdrParse)
    (config : FcgiPluginConfig) :
    (clientLives parse config).Preserved parse config Given where
  new _ _ := ⟨trivial, trivial⟩
  bind_new _ _ _ :=
    ⟨trivial, fun _ hclient => absurd hclient.symm (Option.some_ne_none _)⟩
  bind_idle _ _ _ _ := ⟨trivial, clientLives_attached rfl rfl⟩
  net_connect h _ hr _ _ :=
    ⟨trivial, clientLives_attached (h.entry_conn hr) rfl⟩
  net_connect_idle _ _ := trivial
  retry _ _ _ _ _ := trivial
  fail _ _ := ⟨trivial, trivial⟩
  read {s c blocks id i responseStatus conn x} _ _ _ _ hbound hrun := by
    have hreceived : (clientLives parse config).bound id
        ((s.conns c).receive blocks) (s.intercepts i) := hbound
    refine ⟨trivial, ?_⟩
    cases responseStatus with
    | true => exact ⟨trivial, fun _ => trivial⟩
    | false => exact clientLives_read hreceived hrun
  read_idle _ _ := trivial
  read_complete _ _ _ _ := ⟨trivial, fun _ => trivial⟩
  open_read hread := by
    obtain ⟨-, rfl⟩ := ServerConnection.read_eq_some.mp hread
    exact ⟨fun hbound => hbound, fun _ => trivial⟩
  input _ _ _ _ hbound hwrite := by
    obtain ⟨client, client', buf, hclient, hprepare, -, -, rfl⟩ :=
      ServerConnection.write_eq_some.mp hwrite
    refine ⟨trivial, fun other hother => ?_⟩
    obtain rfl := Option.some.inj hother
    exact (hbound client hclient).feed hprepare
  input_kept _ _ := ⟨trivial, fun _ _ => trivial⟩
  destroy _ _ := ⟨trivial, fun _ _ => trivial⟩
  abort {s i id c} _ _ _ hbound := by
    split
    · intro client hclient
      unfold ServerIntercept.destroyedObject
      split <;> exact (hbound client hclient).congr rfl (Nat.le_refl _)
    · exact fun _ => trivial
  respond _ := ⟨fun _ hbound => hbound, fun _ => trivial⟩

/-- A client that lives for an intercept is deleted without a fault, and leaves
no more blocks than the traffic of the intercept and one. -/
theorem LivesFor.deleted {parse : MimeHdrParse} {config : FcgiPluginConfig}
    {id : Nat} {x : ServerIntercept} {client : FcgiClientRequest}
    (hlives : LivesFor parse config id x client) {h : Heap}
    (hvalid : h.Valid) :
    ∃ calls dispatched h' gone,
      requestLife parse (.new config id x.txn) calls h =
        some (some (client, dispatched), h') ∧
      h'.live.Perm (h.live ++ gone) ∧ gone.length ≤ x.traffic + 1 := by
  obtain ⟨calls, dispatched, hcalls, hcost⟩ := hlives
  obtain ⟨h', gone, hlife, -, hlive, hgone⟩ := requestLife_of_fresh parse
    (FcgiClientRequest.new_fresh config id x.txn).2.1 calls hvalid
  refine ⟨calls, dispatched, h', gone, ?_, hlive, ?_⟩
  · rw [hlife, hcalls]
  · have hone : client.decoder.unfinished ≤ 1 := by
      unfold ResponseDecoder.unfinished
      split <;> omega
    rw [hgone _ hcalls, blocksLost]
    unfold callsCost at hcost
    dsimp only
    omega

/-- In every run the FCGI client of a registered request can be deleted at any
time, and also after the read that completes the response, without using or
freeing a block name twice.  What it leaves behind is bounded by what went to
and from its intercept. -/
theorem clients_deletable (parse : MimeHdrParse) (config : FcgiPluginConfig)
    (s : ServerState)
    (hreach : Transition.Reach (workerThread parse config) Given s)
    (hids : s.issued < 2 ^ 32 - 1) (id : Nat) (i : InterceptId) (c : ConnId)
    (hr : s.Registered id i c) (conn : ServerConnection) (x : ServerIntercept)
    (hnow : (conn, x) = (s.conns c, s.intercepts i) ∨
      ∃ blocks responseStatus,
        interceptTransferData parse ((s.conns c).receive blocks)
          (s.intercepts i) = some (responseStatus, conn, x))
    (client : FcgiClientRequest) (hclient : conn.fcgiRequest = some client)
    (h : Heap) (hvalid : h.Valid) :
    ∃ calls dispatched h' gone,
      requestLife parse (.new config id x.txn) calls h =
        some (some (client, dispatched), h') ∧
      h'.live.Perm (h.live ++ gone) ∧ gone.length ≤ x.traffic + 1 := by
  have hL := LocalPredicates.holds_of_reach (fun _ _ hgiven => hgiven)
    (clientLives_preserved parse config) hreach hids
  have hbound : (clientLives parse config).bound id conn x := by
    rcases hnow with heq | ⟨blocks, responseStatus, hrun⟩
    · cases heq
      exact hL.bound hr
    · have hreceived : (clientLives parse config).bound id
          ((s.conns c).receive blocks) (s.intercepts i) := hL.bound hr
      exact clientLives_read hreceived hrun
  exact (hbound client hclient).deleted hvalid

namespace LivesWitness

open DecoderSafetyWitness (parse)
open RegistryWitness (config)

/-- A request whose header and end of input are written. -/
def written : ServerState :=
  Transition.after (workerThread parse config) Given (ServerState.new config)
    [.connect 0 (RegistryWitness.txn (ascii "GET")) 7,
      .connection 0 .netConnect, .input 0 (.header (ascii "GET")),
      .input 0 .complete]

theorem clients_deletable_written :
    ∃ client calls dispatched h' gone,
      (written.conns 0).fcgiRequest = some client ∧
      requestLife parse (.new config 1 (written.intercepts 0).txn) calls {} =
        some (some (client, dispatched), h') ∧
      h'.live.Perm gone ∧ gone.length ≤ 6 := by
  obtain ⟨hreach, hids, hr, hsome, htraffic⟩ :
      Transition.Reach (workerThread parse config) Given written ∧
      written.issued < 2 ^ 32 - 1 ∧ written.Registered 1 0 0 ∧
      (written.conns 0).fcgiRequest.isSome = true ∧
      (written.intercepts 0).traffic = 5 :=
    Transition.Reach.after_and (.init rfl) (by decide +kernel)
  obtain ⟨client, hclient⟩ := Option.isSome_iff_exists.mp hsome
  obtain ⟨calls, dispatched, h', gone, hlife, hlive, hgone⟩ :=
    clients_deletable parse config written hreach hids 1 0 0 hr _ _ (.inl rfl)
      client hclient {} ⟨List.nodup_nil, by simp⟩
  rw [htraffic] at hgone
  exact ⟨client, calls, dispatched, h', gone, hclient, hlife, hlive, hgone⟩

end LivesWitness

end AtsFastcgi
