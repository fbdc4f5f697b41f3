/-
The gateway as a whole.  A FastCGI server reads a request off the records with its
id in one way only, so what the client is given in the end is the response text of
what the program behind the server makes of the client's own request, whatever
other requests use the connection.
-/
import AtsFastcgi.ResponseDelivery

namespace AtsFastcgi

open ServerState (ConnEvent Event)

/-! ### Reading a request -/

/-- What comes before the records of the body is no `FCGI_STDIN` record. -/
theorem PreambleRecords.not_stdin {bytes : Bytes} {id : Nat} {m : StringMap}
    {opening last : Record} {stream : List Record} {pairs : List NameValue}
    (h : PreambleRecords bytes id m opening stream last pairs) :
    ∀ r ∈ opening :: stream ++ [last], r.type ≠ FCGI_STDIN := by
  intro r hr
  have htype : r.type = FCGI_BEGIN_REQUEST ∨ r.type = FCGI_PARAMS := by
    rcases List.mem_append.mp hr with hfront | hlast
    · rcases List.mem_cons.mp hfront with rfl | hstream
      · exact .inl h.begins.1
      · exact .inr (h.types r hstream)
    · rw [List.mem_singleton.mp hlast]
      exact .inr h.ends.1
  rcases htype with htype | htype
  · rw [htype]
    decide
  · rw [htype]
    decide

/-- The preamble determines the parameters. -/
theorem ReadsBack.params_unique {bytes : Bytes} {id : Nat} {m m' : StringMap}
    (h : ReadsBack bytes id m) (h' : ReadsBack bytes id m') (name : Bytes) :
    m[name]? = m'[name]? := by
  obtain ⟨opening, stream, last, pairs, hm⟩ := h
  obtain ⟨opening', stream', last', pairs', hm'⟩ := h'
  have hsplit := Option.some.inj (hm.split.symm.trans hm'.split)
  obtain ⟨hfront, -⟩ := List.append_inj' hsplit rfl
  obtain ⟨-, rfl⟩ := List.cons.inj hfront
  obtain rfl := Option.some.inj (hm.decoded.symm.trans hm'.decoded)
  rw [← hm.params, hm'.params]

/-- The two parts of a request are told apart by the types of the records. -/
theorem ReadsRequest.parts {recs : List Record} {id : Nat} {m : StringMap}
    {body : Bytes} (h : ReadsRequest recs id m body) :
    ReadsBack (Record.code.encodeAll
        (recs.filter fun r => r.type ≠ FCGI_STDIN)) id m ∧
      StdinStream (recs.filter fun r => r.type = FCGI_STDIN) body := by
  obtain ⟨front, stdin, rfl, hfront, hstdin⟩ := h
  have hback := hfront
  obtain ⟨opening, stream, last, pairs, hrecords⟩ := hfront
  have hnone := hrecords.not_stdin
  rw [← Record.code.encodeAll_injective
    (Record.code.decodeAll_eq_some_iff.mp hrecords.split)] at hnone
  have hkept : front.filter (fun r => r.type ≠ FCGI_STDIN) = front :=
    List.filter_eq_self.mpr fun r hr => decide_eq_true (hnone r hr)
  have hdropped : front.filter (fun r => r.type = FCGI_STDIN) = [] :=
    List.filter_eq_nil_iff.mpr fun r hr => by simpa using hnone r hr
  have hkept' : stdin.filter (fun r => r.type = FCGI_STDIN) = stdin :=
    List.filter_eq_self.mpr fun r hr => decide_eq_true (hstdin.type r hr)
  have hdropped' : stdin.filter (fun r => r.type ≠ FCGI_STDIN) = [] :=
    List.filter_eq_nil_iff.mpr fun r hr => by simpa using hstdin.type r hr
  rw [List.filter_append, List.filter_append, hkept, hdropped, hkept',
    hdropped', List.append_nil, List.nil_append]
  exact ⟨hback, hstdin⟩

/-- A request is read in one way only. -/
theorem ReadsRequest.unique {recs : List Record} {id : Nat} {m m' : StringMap}
    {body body' : Bytes} (h : ReadsRequest recs id m body)
    (h' : ReadsRequest recs id m' body') :
    (∀ name : Bytes, m[name]? = m'[name]?) ∧ body = body' := by
  obtain ⟨hback, hstdin⟩ := h.parts
  obtain ⟨hback', hstdin'⟩ := h'.parts
  exact ⟨hback.params_unique hback', hstdin.content.symm.trans hstdin'.content⟩

/-! ### The program behind the server -/

/-- What answers a request: its id, the values of its parameters and its body
determine the records. -/
abbrev CgiProgram := Nat → (Bytes → Option Bytes) → Bytes → List Record

/-- The server has read the request `id` off the connection and has sent what
the program makes of it. -/
def ServerConnection.Served (c : ServerConnection) (program : CgiProgram)
    (id : Nat) : Prop :=
  ∃ recs m body, Record.code.decodeAll c.stream = some recs ∧
    ReadsRequest (recordsOf id recs) id m body ∧
    recordsOf id c.backend.sent = program id (fun name => m[name]?) body

/-- The events of a gateway that works: requests are sent whole, and their
answers are given whole. -/
def Works (s : ServerState) (e : Event) : Prop :=
  KeepsWhole s e ∧ AnswersWhole s e

instance (s : ServerState) (e : Event) : Decidable (Works s e) :=
  inferInstanceAs (Decidable (_ ∧ _))

/-- When a read takes the request out of the registry, its client has been given
the response text of what the program makes of the parameters and the body that
this client asked with, and is given nothing more for the rest of the run. -/
theorem gateway_transparent (parse : MimeHdrParse) (config : FcgiPluginConfig)
    (events : List Event) (s s' s'' : ServerState) (program : CgiProgram)
    (hrun : Transition.Run (workerThread parse config) Works
      (ServerState.new config) events s)
    (hids : s.issued < 65536)
    (hfits : ∀ i ∈ dispatched parse config events,
      (s.intercepts i).FitsRecords config)
    (id : Nat) (i : InterceptId) (c : ConnId) (blocks : List Bytes)
    (hr : s.Registered id i c) (hended : 0 < (s.intercepts i).inputCompletes)
    (hserved : (s.conns c).Served program id)
    (hguard : Works s (.connection c (.readReady blocks)))
    (hstep : s.step parse (.connection c (.readReady blocks)) = some s')
    (hdone : ¬ s'.Registered id i c)
    (hlater : Transition.Reach ((workerThread parse config).startingAt s')
      Exists s'') :
    (s''.intercepts i).given = responseText (statusText parse)
      (program id
        (fun name =>
          ((s.intercepts i).request config id).requestHeaders[name]?)
        (s.intercepts i).bodies.flatten) := by
  have hreach := (Transition.Reach.init rfl).run
    (hrun.mono fun _ _ h => h.2)
  obtain ⟨hopen, hclosed⟩ := read_outcome hreach hids hr hguard.2 hstep
  obtain ⟨x, haside, hconnected, -, hgiven⟩ :=
    hclosed (Bool.not_eq_false _ ▸ fun hnone => hdone (hopen hnone))
  obtain ⟨recs, m, body, hdecode, hreads, hsent⟩ := hserved
  obtain ⟨recs', hdecode', hreads'⟩ := readsRequest_of_run
    (hrun.mono fun _ _ h => h.1) hids hfits hr hended
  obtain rfl := Option.some.inj (hdecode.symm.trans hdecode')
  obtain ⟨hparams, hbody⟩ := hreads.unique hreads'
  obtain ⟨-, hsame⟩ := sameAnswer_of_run haside.free
    (haside.intercept ▸ hconnected) hlater
  rw [ServerIntercept.given, hsame.deliveries, haside.intercept]
  rw [hsent, funext hparams, hbody] at hgiven
  exact hgiven

namespace GatewayWitness

open IsolationWitness (parse config stdout endRequest)

/-- A program that answers `GET` requests. -/
def program : CgiProgram := fun _ param _ =>
  if param (ascii "REQUEST_METHOD") = some (ascii "GET") then
    [stdout, endRequest]
  else []

def events : List Event := IsolationWitness.events.take 7

/-- The request is sent, and its answer is there. -/
def sent : ServerState :=
  Transition.after (workerThread parse config) Works (ServerState.new config)
    events

def blocks : List Bytes := [stdout.encode, endRequest.encode]

def read : ServerState :=
  (sent.step parse (.connection 0 (.readReady blocks))).getD sent

theorem gateway_transparent_read :
    (read.intercepts 0).given = responseText (statusText parse)
      (program 1
        (fun name =>
          ((sent.intercepts 0).request config 1).requestHeaders[name]?)
        (sent.intercepts 0).bodies.flatten) := by
  have hrun : Transition.Run (workerThread parse config) Works
      (ServerState.new config) events sent := .after (by decide +kernel)
  obtain ⟨hids, hfits, hr, hended, hguard, hsome, hdone, hanswer⟩ :
      sent.issued < 65536 ∧
      (∀ i ∈ dispatched parse config events,
        (sent.intercepts i).FitsRecords config) ∧
      sent.Registered 1 0 0 ∧ 0 < (sent.intercepts 0).inputCompletes ∧
      Works sent (.connection 0 (.readReady blocks)) ∧
      (sent.step parse (.connection 0 (.readReady blocks))).isSome = true ∧
      ¬ read.Registered 1 0 0 ∧
      recordsOf 1 (sent.conns 0).backend.sent = program 1
        (fun name =>
          ((sent.intercepts 0).request config 1).requestHeaders[name]?)
        (sent.intercepts 0).bodies.flatten := by decide +kernel
  obtain ⟨recs, hdecode, hreads⟩ := readsRequest_of_run
    (hrun.mono fun _ _ h => h.1) hids hfits hr hended
  exact gateway_transparent parse config events sent read read program hrun hids
    hfits 1 0 0 blocks hr hended ⟨recs, _, _, hdecode, hreads, hanswer⟩ hguard
    (Option.getD_of_ne_none (Option.isSome_iff_ne_none.mp hsome) sent).symm
    hdone (.init rfl)

end GatewayWitness

end AtsFastcgi
