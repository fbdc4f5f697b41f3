/-
The write side of a connection.  `phpWrite` enables the write VIO for every
write but the last one of a request; what is written then is sent, and the
read VIO opened, only if the buffer has not been drained before.
-/
import AtsFastcgi.Registry

namespace AtsFastcgi

open ServerState (ConnEvent Event)

/-- The `TS_EVENT_VCONN_WRITE_READY` case. -/
def ServerConnection.onWriteReady (c : ServerConnection) :
    Option ServerConnection :=
  if c.writeio.readEnable then c.read else some c

theorem ServerState.handlePHPConnectionEvents_writeReady (parse : MimeHdrParse)
    (s : ServerState) (c : ConnId) :
    s.handlePHPConnectionEvents parse c .writeReady =
      (s.conns c).onWriteReady.map (s.setConn c) := by
  simp only [handlePHPConnectionEvents, ServerConnection.onWriteReady]
  split
  · rfl
  · rw [Option.map_some, setConn_eq_self]

/-- The bytes that a write has put into the buffer. -/
def ServerConnection.appended (old new : ServerConnection) : Bytes :=
  (new.written.drop old.written.length).flatMap Prod.snd

/-- A connection with what ATS keeps of its write VIO: the bytes of the buffer
that have not been sent, and whether the VIO is enabled. -/
structure WriteSide where
  conn : ServerConnection
  unsent : Bytes := []
  enabled : Bool := false

namespace WriteSide

/-- What happens on the write side: input of the client is written, and ATS
sends the first `n` bytes of the buffer. -/
inductive WriteEvent where
  | input (input : ClientInput)
  | send (n : Nat)
deriving DecidableEq

variable (w : WriteSide)

/-- `TSVConnWrite` enables the VIO with the first write, `TSVIOReenable` with
every write but that of the end of the input. -/
def write (input : ClientInput) : Option WriteSide :=
  (input.write w.conn).map fun conn =>
    { conn
      unsent := w.unsent ++ w.conn.appended conn
      enabled := !w.conn.writeio.opened || !input.endflag || w.enabled }

/-- A buffer that is drained delivers `WRITE_READY` and disables the VIO. -/
def send (n : Nat) : Option WriteSide :=
  if n = w.unsent.length then
    w.conn.onWriteReady.map fun conn => { conn, unsent := [], enabled := false }
  else some { w with unsent := w.unsent.drop n }

def step : WriteEvent → Option WriteSide
  | .input input => w.write input
  | .send n => w.send n

/-- ATS sends what there is, and nothing while the VIO is disabled. -/
def Sends : WriteEvent → Prop
  | .input _ => True
  | .send n => w.enabled = true ∧ n ≤ w.unsent.length

/-- The end of the input comes while the VIO is enabled, or opens it; if not,
it has nothing to write and nothing to open. -/
def EndsAwake : WriteEvent → Prop
  | .input .complete =>
      w.conn.writeio.opened = true → w.enabled = false →
        (∀ client ∈ w.conn.fcgiRequest, client.isPost = true) ∧
          w.conn.readio.opened = true
  | .input (.header _) | .input (.body _) | .send _ => True

/-- No wakeup is lost: unsent bytes will be sent, and the read VIO is open or
will be opened once the request is written. -/
structure Awake : Prop where
  unsent : w.unsent ≠ [] → w.enabled = true
  readEnable : w.conn.writeio.readEnable = true →
    w.conn.readio.opened = true ∨ w.enabled = true

/-- A connection as `createFCGIClient` leaves it: fresh, or reused with
whatever ATS has still to send on it. -/
structure Begun : Prop where
  vc : w.conn.vc = true
  readEnable : w.conn.writeio.readEnable = false
  client : ∃ config requestId txn, w.conn.fcgiRequest =
    some (FcgiClientRequest.new config requestId txn)
  unsent : w.unsent ≠ [] → w.enabled = true

instance : (e : WriteEvent) → Decidable (w.Sends e)
  | .input _ => inferInstanceAs (Decidable True)
  | .send _ => inferInstanceAs (Decidable (_ ∧ _))

instance : (e : WriteEvent) → Decidable (w.EndsAwake e)
  | .input .complete => inferInstanceAs (Decidable (_ → _ → (∀ client ∈
      w.conn.fcgiRequest, _) ∧ _))
  | .input (.header _) | .input (.body _) | .send _ =>
      inferInstanceAs (Decidable True)

end WriteSide

open WriteSide (WriteEvent)

/-- The write side as a reactive system. -/
def writeSide : Transition.System WriteSide WriteEvent where
  init := WriteSide.Begun
  step w e := w.step e

/-! ### One step -/

theorem ServerConnection.onWriteReady_eq_some {c new : ServerConnection}
    (hready : c.onWriteReady = some new) :
    new.writeio = c.writeio ∧
      (c.writeio.readEnable = true → new.readio.opened = true) := by
  unfold onWriteReady at hready
  split at hready
  · obtain ⟨-, rfl⟩ := read_eq_some.mp hready
    exact ⟨rfl, fun _ => rfl⟩
  · next hclosed =>
      rw [← Option.some.inj hready]
      exact ⟨rfl, fun hopen => absurd hopen hclosed⟩

/-- What the end of the input writes: nothing for a `POST`. -/
theorem FcgiClientRequest.emptyParam_buff (client : FcgiClientRequest) :
    client.emptyParam.buff = [] ↔ client.isPost = true := by
  unfold emptyParam
  split
  · next hpost => exact ⟨fun _ => hpost, fun _ => rfl⟩
  · next hget =>
      constructor
      · intro hnil
        contradiction
      · exact fun hpost => absurd hpost hget

theorem WriteSide.write_eq_some {w w' : WriteSide} {input : ClientInput}
    (hwrite : w.write input = some w') :
    ∃ client client', w.conn.fcgiRequest = some client ∧
      input.prepare client = some client' ∧
      w'.unsent = w.unsent ++ client'.buff ∧
      w'.enabled =
        (!w.conn.writeio.opened || !input.endflag || w.enabled) ∧
      w'.conn.writeio.readEnable =
        (w.conn.writeio.readEnable || input.endflag) ∧
      w'.conn.readio = w.conn.readio := by
  obtain ⟨conn, hconn, rfl⟩ := Option.map_eq_some_iff.mp hwrite
  obtain ⟨client, client', buf, hclient, hprepare, hbuf, -, rfl⟩ :=
    ServerConnection.write_eq_some.mp hconn
  have hbuff : buf = client'.buff := by
    simp only [FcgiClientRequest.addClientRequest,
      Option.ite_none_right_eq_some, Option.some.injEq] at hbuf
    exact hbuf.2.symm
  refine ⟨client, client', hclient, hprepare, ?_, rfl, rfl, rfl⟩
  simp only [ServerConnection.appended, List.drop_left, List.flatMap_cons,
    List.flatMap_nil, List.append_nil, hbuff]

/-- Sending wakes up whoever waits for the buffer to drain. -/
theorem WriteSide.Awake.send {w w' : WriteSide} {n : Nat} (h : w.Awake)
    (hn : w.enabled = true ∧ n ≤ w.unsent.length)
    (hstep : w.send n = some w') : w'.Awake := by
  unfold WriteSide.send at hstep
  split at hstep
  · obtain ⟨conn, hready, rfl⟩ := Option.map_eq_some_iff.mp hstep
    obtain ⟨hwriteio, hopened⟩ :=
      ServerConnection.onWriteReady_eq_some hready
    refine ⟨fun hunsent => absurd rfl hunsent, fun henable => ?_⟩
    rw [hwriteio] at henable
    exact .inl (hopened henable)
  · rw [← Option.some.inj hstep]
    exact ⟨fun _ => hn.1, h.readEnable⟩

/-- A write keeps the write side awake exactly if it does not end the input
on a drained buffer. -/
theorem WriteSide.Awake.write_iff {w w' : WriteSide} {input : ClientInput}
    (h : w.Awake) (hstep : w.write input = some w') :
    w'.Awake ↔ w.EndsAwake (.input input) := by
  obtain ⟨client, client', hclient, hprepare, hunsent, henabled, hreadEnable,
    hreadio⟩ := WriteSide.write_eq_some hstep
  by_cases hwoken : w'.enabled = true
  · refine ⟨fun _ => ?_, fun _ => ⟨fun _ => hwoken, fun _ => .inr hwoken⟩⟩
    cases input with
    | header data => trivial
    | body data => trivial
    | complete =>
        intro hopened hdisabled
        rw [henabled, hopened, hdisabled] at hwoken
        exact Bool.noConfusion hwoken
  · -- only the end of the input, on a drained buffer, leaves the VIO disabled
    have hasleep := Bool.not_eq_true _ ▸ hwoken
    rw [henabled, Bool.or_eq_false_iff, Bool.or_eq_false_iff] at hasleep
    obtain ⟨⟨hopened, hend⟩, hdisabled⟩ := hasleep
    have hdrained : w.unsent = [] :=
      not_not.mp (mt h.unsent (hdisabled ▸ Bool.false_ne_true))
    cases input with
    | header data => exact Bool.noConfusion hend
    | body data => exact Bool.noConfusion hend
    | complete =>
        rw [← Option.some.inj hprepare, hdrained, List.nil_append] at hunsent
        constructor
        · intro hawake _ _
          constructor
          · intro other hother
            rw [← Option.some.inj (hclient.symm.trans hother)]
            apply client.emptyParam_buff.mp
            exact hunsent ▸ not_not.mp (mt hawake.unsent hwoken)
          · have henable : w'.conn.writeio.readEnable = true :=
              hreadEnable.trans (Bool.or_true _)
            have hwait := hawake.readEnable henable
            rw [hreadio] at hwait
            exact hwait.resolve_right hwoken
        · intro hends
          obtain ⟨hpost, hopen⟩ :=
            hends (Bool.not_eq_false' _ ▸ hopened) hdisabled
          have hempty : w'.unsent = [] :=
            hunsent.trans (client.emptyParam_buff.mpr (hpost client hclient))
          refine ⟨fun hne => absurd hempty hne, fun _ => .inl ?_⟩
          rw [hreadio]
          exact hopen

/-! ### Runs -/

/-- The runs in which the end of the input does not come upon a drained
buffer. -/
def KeepsAwake (w : WriteSide) (e : WriteEvent) : Prop :=
  w.Sends e ∧ w.EndsAwake e

instance (w : WriteSide) (e : WriteEvent) : Decidable (KeepsAwake w e) :=
  inferInstanceAs (Decidable (_ ∧ _))

theorem WriteSide.Awake.step_iff {w w' : WriteSide} {e : WriteEvent}
    (h : w.Awake) (hsends : w.Sends e) (hstep : w.step e = some w') :
    w'.Awake ↔ w.EndsAwake e := by
  cases e with
  | input input => exact h.write_iff hstep
  | send n => exact ⟨fun _ => trivial, fun _ => h.send hsends hstep⟩

/-- As long as no end of the input comes upon a drained buffer no wakeup is
lost, and the first one that does loses one. -/
theorem awake_of_reach (w : WriteSide)
    (hreach : Transition.Reach writeSide KeepsAwake w) :
    w.Awake ∧ ∀ e w', w.Sends e → w.step e = some w' →
      (w'.Awake ↔ w.EndsAwake e) := by
  have hawake : w.Awake := by
    refine Transition.Reach.invariant ?_ ?_ hreach
    · intro w hbegun
      refine ⟨hbegun.unsent, fun henable => ?_⟩
      exact Bool.noConfusion (henable.symm.trans hbegun.readEnable)
    · intro w e w' _ hw hguard hstep
      exact (hw.step_iff hguard.1 hstep).mpr hguard.2
  exact ⟨hawake, fun e w' hsends hstep => hawake.step_iff hsends hstep⟩

namespace WriteSideWitness

def txn : ClientRequest := RegistryWitness.txn (ascii "GET")

/-- A new connection that has just been attached. -/
def fresh : WriteSide where
  conn :=
    { ServerConnection.new RegistryWitness.config with
      vc := true
      state := .inuse
      requestId := 1
      fcgiRequest := some
        (FcgiClientRequest.new RegistryWitness.config 1 txn) }

theorem fresh_begun : fresh.Begun :=
  ⟨rfl, rfl, ⟨_, _, _, rfl⟩, fun hunsent => absurd rfl hunsent⟩

/-- The number of bytes of the preamble. -/
def preambleLength : Nat :=
  (FcgiClientRequest.new RegistryWitness.config 1 txn).preamble.length

/-- The header is sent before the input ends. -/
def drained : WriteSide :=
  Transition.after writeSide WriteSide.Sends fresh
    [.input (.header (ascii "GET")), .send preambleLength, .input .complete]

theorem not_always_awake :
    ¬ ∀ w, Transition.Reach writeSide WriteSide.Sends w → w.Awake := by
  intro h
  obtain ⟨hreach, hunsent, hdisabled⟩ :
      Transition.Reach writeSide WriteSide.Sends drained ∧
      drained.unsent ≠ [] ∧ drained.enabled = false :=
    Transition.Reach.after_and (.init fresh_begun) (by decide +kernel)
  have henabled := (h drained hreach).unsent hunsent
  exact Bool.noConfusion (hdisabled.symm.trans henabled)

/-- The input ends before the header is sent. -/
def final : WriteSide :=
  Transition.after writeSide KeepsAwake fresh
    [.input (.header (ascii "GET")), .send 8, .input .complete,
      .send preambleLength]

theorem awake_final :
    final.Awake ∧ ∀ e w', final.Sends e → final.step e = some w' →
      (w'.Awake ↔ final.EndsAwake e) :=
  awake_of_reach final
    (Transition.Reach.after (.init fresh_begun) (by decide +kernel))

example : final.conn.readio.opened = true ∧ final.unsent = [] := by
  decide +kernel

end WriteSideWitness

end AtsFastcgi
