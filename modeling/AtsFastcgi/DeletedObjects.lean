/-
Uses of deleted intercepts.  The registry is where the events of a connection
find its intercept; only the registration of a waiter can put a deleted one
there, and that is a fault.  So in a run no event finds one.
-/
import AtsFastcgi.Lifetimes

namespace AtsFastcgi

open ServerState (ConnEvent Event)

namespace ServerState

/-- Without a fault, a deleted intercept that is registered was so before. -/
structure NoNewDead (s s' : ServerState) : Prop where
  fault : s'.fault = false → s.fault = false
  entry : s'.fault = false → ∀ {id i c}, s'.Registered id i c →
    (s'.intercepts i).destroyed = true →
    s.Registered id i c ∧ (s.intercepts i).destroyed = true

namespace NoNewDead

variable {s s₁ s' : ServerState}

theorem refl (s : ServerState) : s.NoNewDead s :=
  ⟨id, fun _ _ _ _ hr hdead => ⟨hr, hdead⟩⟩

theorem trans (h : s.NoNewDead s₁) (h' : s₁.NoNewDead s') :
    s.NoNewDead s' where
  fault hfault := h.fault (h'.fault hfault)
  entry hfault {_ _ _} hr hdead := by
    obtain ⟨hr₁, hdead₁⟩ := h'.entry hfault hr hdead
    exact h.entry (h'.fault hfault) hr₁ hdead₁

/-- What makes no entry, destroys nothing and uses no deleted object. -/
theorem of_same (h : s.NoNewDead s₁)
    (hregistered : ∀ {id i c}, s'.Registered id i c → s₁.Registered id i c)
    (hdestroyed : ∀ i, (s'.intercepts i).destroyed = true →
      (s₁.intercepts i).destroyed = true)
    (hfault : s'.fault = s₁.fault) : s.NoNewDead s' :=
  h.trans ⟨fun hf => hfault ▸ hf,
    fun _ _ _ _ hr hdead => ⟨hregistered hr, hdestroyed _ hdead⟩⟩

theorem setConn (h : s.NoNewDead s') (c : ConnId) (conn : ServerConnection) :
    s.NoNewDead (s'.setConn c conn) :=
  h.of_same (fun hr => hr) (fun _ hdead => hdead) rfl

theorem setIntercept (h : s.NoNewDead s') (i : InterceptId)
    {x : ServerIntercept}
    (hx : x.destroyed = true → (s'.intercepts i).destroyed = true) :
    s.NoNewDead (s'.setIntercept i x) := by
  refine h.of_same (fun hr => hr) (fun j hdead => ?_) rfl
  by_cases hji : j = i
  · subst hji
    rw [setIntercept_intercepts_self] at hdead
    exact hx hdead
  · rw [setIntercept_intercepts_of_ne s' x hji] at hdead
    exact hdead

theorem unregister (h : s.NoNewDead s') (id : Nat) :
    s.NoNewDead (s'.unregister id) :=
  h.of_same (fun hr => (registered_unregister.mp hr).2)
    (fun _ hdead => hdead) rfl

theorem createFCGIClient (h : s.NoNewDead s') (i : InterceptId) (c : ConnId) :
    s.NoNewDead (s'.createFCGIClient i c) := by
  refine (h.setConn c _).setIntercept i fun hdead => ?_
  rw [(createFCGIClient_lifetime _ _ _).1] at hdead
  exact hdead

/-- The one place where a waiter gets into the registry. -/
theorem register (h : s.NoNewDead s') (i : InterceptId) (c : ConnId) :
    s.NoNewDead (s'.register i c) := by
  have hfault : (s'.register i c).fault =
      (s'.fault || (s'.intercepts i).destroyed) := rfl
  have hsame : ∀ j, ((s'.register i c).intercepts j).destroyed =
      (s'.intercepts j).destroyed := by
    intro j
    by_cases hji : j = i
    · rw [hji, register_intercepts_self]
    · rw [register_intercepts_of_ne s' c hji]
  refine h.trans ⟨fun hf => ?_, fun hf id j d hr hdead => ?_⟩
  · rw [hfault, Bool.or_eq_false_iff] at hf
    exact hf.1
  · rw [hfault, Bool.or_eq_false_iff] at hf
    rw [hsame] at hdead
    rcases registered_register_cases hr with ⟨-, rfl, -⟩ | ⟨-, hold⟩
    · exact Bool.noConfusion (hdead.symm.trans hf.2)
    · exact ⟨hold, hdead⟩

theorem connect (h : s.NoNewDead s') (i : InterceptId) :
    s.NoNewDead (s'.connect i) := by
  have hbooks : ∀ {s₁ : ServerState}, s₁.interceptList = s'.interceptList →
      s₁.intercepts = s'.intercepts → s₁.fault = s'.fault →
      s.NoNewDead s₁ := by
    intro s₁ hlist hintercepts hfault
    refine h.of_same (fun hr => ?_) (fun j hdead => ?_) hfault
    · rw [Registered, hlist] at hr
      exact hr
    · rw [hintercepts] at hdead
      exact hdead
  rcases s'.connect_cases i with ⟨-, heq⟩ | ⟨c, rest, -, -, heq⟩ |
    ⟨-, -, heq⟩
  · have hadd : s.NoNewDead s'.addConnection := hbooks rfl rfl rfl
    rw [heq]
    exact (hadd.register i s'.nextConn).setConn _ _
  · have htake : s.NoNewDead (s'.takeAvailable c rest) := hbooks rfl rfl rfl
    rw [heq]
    exact (htake.register i c).createFCGIClient i c
  · rw [heq]
    exact hbooks rfl rfl rfl

theorem connectNext (h : s.NoNewDead s') : s.NoNewDead s'.connectNext := by
  unfold ServerState.connectNext
  split
  · refine connect ?_ _
    exact h.of_same (fun hr => hr) (fun _ hdead => hdead) rfl
  · exact h

theorem connectionClosed (h : s.NoNewDead s') (c : ConnId) :
    s.NoNewDead (s'.connectionClosed c) :=
  h.of_same (fun hr => (registered_connectionClosed.mp hr).2)
    (fun _ hdead => hdead) rfl

theorem closeConnection (h : s.NoNewDead s') (c : ConnId) :
    s.NoNewDead (s'.closeConnection c) :=
  (h.setConn c _).connectionClosed c

theorem releaseConnection (h : s.NoNewDead s') (c : ConnId) :
    s.NoNewDead (s'.releaseConnection c) := by
  unfold ServerState.releaseConnection
  simp only
  split
  · exact h.of_same (fun hr => hr) (fun _ hdead => hdead) rfl
  · exact (h.setConn c _).connectionClosed c

theorem removeIntercept (h : s.NoNewDead s') (id : Nat) :
    s.NoNewDead (s'.removeIntercept id) := by
  unfold ServerState.removeIntercept
  split
  · exact ((h.unregister id).releaseConnection _).connectNext
  · exact h

theorem complete (h : s.NoNewDead s') (i : InterceptId) (c : ConnId) :
    s.NoNewDead (s'.complete i c) :=
  ((h.setConn c _).setIntercept i (x := (s'.intercepts i).outputComplete)
    fun hdead => hdead).removeIntercept _

theorem retry (h : s.NoNewDead s') (c : ConnId) :
    s.NoNewDead (s'.retry c) := by
  refine closeConnection ?_ c
  unfold ServerState.reConnect
  split
  · exact (h.unregister _).connect _
  · exact h

theorem onReadReady {parse : MimeHdrParse} {c : ConnId} {blocks : List Bytes}
    (hstep : s.onReadReady parse c blocks = some s') : s.NoNewDead s' := by
  rcases onReadReady_cases hstep with ⟨-, rfl⟩ |
    ⟨i, responseStatus, conn, x, -, hrun, rfl⟩
  · exact (refl s).setConn c _
  · have hpair : s.NoNewDead ((s.setConn c conn).setIntercept i x) := by
      refine ((refl s).setConn c conn).setIntercept i fun hdead => ?_
      rcases ServerConnection.interceptTransferData_eq_some hrun with
        ⟨-, -, -, -, rfl⟩ | ⟨client, t, -, -, -, -, rfl⟩
      · exact hdead
      · exact hdead
    cases responseStatus with
    | true => exact hpair.complete i c
    | false => exact hpair

theorem connection {parse : MimeHdrParse} {c : ConnId} {event : ConnEvent}
    (hstep : s.handlePHPConnectionEvents parse c event = some s') :
    s.NoNewDead s' := by
  have hread : ∀ {s'}, (s.conns c).read.map (s.setConn c) = some s' →
      s.NoNewDead s' := by
    intro s' hmap
    obtain ⟨conn, -, rfl⟩ := Option.map_eq_some_iff.mp hmap
    exact (refl s).setConn c conn
  cases event with
  | netConnect =>
      have hset : s.NoNewDead (s.setConn c (s.conns c).netConnect) :=
        (refl s).setConn c _
      rw [← Option.some.inj hstep]
      unfold onNetConnect
      simp only
      split
      · exact hset.createFCGIClient _ c
      · exact hset
  | netConnectFailed =>
      rw [← Option.some.inj hstep]
      exact (refl s).retry c
  | readReady blocks => exact onReadReady hstep
  | readComplete =>
      simp only [handlePHPConnectionEvents] at hstep
      split at hstep
      · rw [← Option.some.inj hstep]
        exact (refl s).complete _ c
      · contradiction
  | writeReady =>
      simp only [handlePHPConnectionEvents] at hstep
      split at hstep
      · exact hread hstep
      · rw [← Option.some.inj hstep]
        exact refl s
  | writeComplete => exact hread hstep
  | eos =>
      rw [← Option.some.inj hstep]
      split
      · unfold onLateEos
        split
        · split
          · next i _ _ =>
              exact ((refl s).setIntercept i (x := (s.intercepts i).error)
                fun hdead => hdead).closeConnection c
          · exact (refl s).closeConnection c
        · exact (refl s).closeConnection c
      · exact (refl s).retry c
  | error =>
      simp only [handlePHPConnectionEvents] at hstep
      split at hstep
      · rw [← Option.some.inj hstep]
        unfold onError
        split
        · next i _ =>
            exact ((refl s).setIntercept i (x := (s.intercepts i).badGateway)
              fun hdead => hdead).closeConnection c
        · exact (refl s).connectionClosed c
      · contradiction

theorem consume {i : InterceptId} {input : ClientInput}
    (hstep : s.consume i input = some s') : s.NoNewDead s' := by
  rcases consume_cases hstep with ⟨i', c, conn, -, -, rfl⟩ | ⟨-, rfl⟩
  · refine ((refl s).setConn c conn).setIntercept i fun hdead => ?_
    rw [(input_lifetime input _).1.1] at hdead
    exact hdead
  · refine (refl s).setIntercept i fun hdead => ?_
    rw [(input_lifetime input _).2.1] at hdead
    exact hdead

end NoNewDead

end ServerState

/-! ### The registry -/

/-- What is registered or waits is not complete. -/
def incomplete : LocalPredicates where
  ever _ := True
  waiting x := x.outputCompleteState = false
  idle _ := True
  bound _ _ x := x.outputCompleteState = false

theorem destroyedObject_incomplete (x : ServerIntercept) :
    x.destroyedObject.outputCompleteState = x.outputCompleteState := by
  unfold ServerIntercept.destroyedObject
  split <;> rfl

theorem incomplete_preserved (parse : MimeHdrParse)
    (config : FcgiPluginConfig) :
    incomplete.Preserved parse config Exists where
  new txn requestId := ⟨trivial, rfl⟩
  bind_new _ hwaiting _ := ⟨trivial, hwaiting⟩
  bind_idle {id _ x} _ _ _ hwaiting := by
    have hx : ({ x with requestId := id }).outputCompleteState = false :=
      hwaiting
    exact ⟨trivial, (createFCGIClient_lifetime _ config _).2.trans hx⟩
  net_connect _ _ _ _ hbound :=
    ⟨trivial, (createFCGIClient_lifetime _ config _).2.trans hbound⟩
  net_connect_idle _ _ := trivial
  retry _ _ _ _ hbound := hbound
  fail _ _ := ⟨trivial, trivial⟩
  read {_ _ _ _ _ responseStatus _ _} _ _ _ _ hbound hrun := by
    refine ⟨trivial, ?_⟩
    cases responseStatus with
    | true => exact ⟨trivial, fun _ => trivial⟩
    | false =>
        rcases ServerConnection.interceptTransferData_eq_some hrun with
          ⟨-, -, -, -, rfl⟩ | ⟨client, t, -, -, -, -, rfl⟩
        · exact hbound
        · exact hbound
  read_idle _ _ := trivial
  read_complete _ _ _ _ := ⟨trivial, fun _ => trivial⟩
  open_read _ := ⟨fun hbound => hbound, fun _ => trivial⟩
  input _ _ _ _ hbound _ := ⟨trivial, (input_lifetime _ _).1.2.trans hbound⟩
  input_kept _ _ :=
    ⟨trivial, fun _ hwaiting => (input_lifetime _ _).2.2.trans hwaiting⟩
  destroy _ _ :=
    ⟨trivial, fun _ hwaiting => (destroyedObject_incomplete _).trans hwaiting⟩
  abort _ _ _ hbound := by
    split
    · exact (destroyedObject_incomplete _).trans hbound
    · exact fun _ => trivial
  respond _ := ⟨fun _ hbound => hbound, fun _ => trivial⟩

theorem incomplete_strays : incomplete.Strays Exists where
  input _ _ _ hbound := hbound
  input_sent _ _ :=
    ⟨trivial, fun hwaiting => (input_lifetime _ _).1.2.trans hwaiting⟩
  abort _ _ _ _ := trivial

/-- The destructor takes its intercept out of the registry. -/
theorem ServerState.destroy_alive {config : FcgiPluginConfig}
    {s : ServerState} (h : Consistent config s) (hL : incomplete.Holds s)
    (halive : ∀ {id i c}, s.Registered id i c →
      (s.intercepts i).destroyed = false)
    (i : InterceptId) (hfault : (s.destroy i).fault = false) {id : Nat}
    {j : InterceptId} {c : ConnId} (hr : (s.destroy i).Registered id j c) :
    ((s.destroy i).intercepts j).destroyed = false := by
  have hset : ∀ {id j c}, s.Registered id j c → j ≠ i →
      ((s.setIntercept i (s.intercepts i).destroyedObject).intercepts
        j).destroyed = false := by
    intro id j c hr hne
    rw [setIntercept_intercepts_of_ne s _ hne]
    exact halive hr
  rw [s.destroy_eq] at hfault hr ⊢
  by_cases hcomplete : (s.intercepts i).outputCompleteState = true
  · rw [if_pos hcomplete] at hr ⊢
    have hr' : s.Registered id j c := hr
    refine hset hr' ?_
    rintro rfl
    exact Bool.noConfusion (hcomplete.symm.trans (hL.bound hr'))
  · rw [if_neg hcomplete] at hfault hr ⊢
    by_contra hdead
    have hdead' := Bool.eq_true_of_not_eq_false hdead
    cases hlookup : s.interceptList[(s.intercepts i).requestId]? with
    | some entry =>
        -- the entry of the intercept is the one that is removed
        have hreg : (s.setIntercept i
            (s.intercepts i).destroyedObject).Registered
              (s.intercepts i).requestId entry.1 entry.2 := hlookup
        rw [removeIntercept_registered hreg] at hfault hr hdead'
        obtain ⟨hold, hdead₁⟩ := ((NoNewDead.refl _).releaseConnection
          entry.2).connectNext.entry hfault hr hdead'
        obtain ⟨hne, hr₀⟩ := registered_unregister.mp hold
        by_cases hji : j = i
        · subst hji
          exact hne (h.entry_intercept hr₀)
        · exact Bool.noConfusion (hdead₁.symm.trans (hset hr₀ hji))
    | none =>
        have hnone : ∀ k d, ¬ (s.setIntercept i
            (s.intercepts i).destroyedObject).Registered
              (s.intercepts i).requestId k d := fun k d hr' => by
          have hlost := hlookup.symm.trans hr'
          contradiction
        rw [removeIntercept_none hnone] at hr hdead'
        by_cases hji : j = i
        · subst hji
          have hr₀ : s.Registered id j c := hr
          have hown := h.entry_intercept hr₀
          rw [hown] at hnone
          exact hnone j c hr₀
        · exact Bool.noConfusion (hdead'.symm.trans (hset hr hji))

/-- In a run no deleted intercept is registered, so the events of a connection
find none. -/
theorem registered_alive (parse : MimeHdrParse) (config : FcgiPluginConfig)
    (s : ServerState)
    (hreach : Transition.Reach (workerThread parse config) Exists s)
    (hids : s.issued < 2 ^ 32 - 1) {id : Nat} {i : InterceptId} {c : ConnId}
    (hr : s.Registered id i c) : (s.intercepts i).destroyed = false := by
  have hall : ∀ {id i c}, s.Registered id i c →
      (s.intercepts i).destroyed = false := by
    refine @Transition.Reach.invariant_while _ _ (workerThread parse config)
      Exists (fun s => ∀ {id i c}, s.Registered id i c →
        (s.intercepts i).destroyed = false)
      (fun s => s.issued < 2 ^ 32 - 1) ?_ ?_ ?_ s hreach hids
    · intro s e s' hstep hlt
      exact Nat.lt_of_le_of_lt (ServerState.step_issued hstep) hlt
    · rintro s rfl id i c hr
      exact absurd hr (by simp [ServerState.Registered, ServerState.new])
    · intro s e s' hreach halive hguard hlt hstep id i c hr
      have hids := Nat.lt_of_le_of_lt (ServerState.step_issued hstep) hlt
      obtain ⟨hhandle, hfault⟩ := ServerState.step_eq_some.mp hstep
      have hkeep : s.NoNewDead s' → (s'.intercepts i).destroyed = false := by
        intro h
        by_contra hdead
        obtain ⟨hold, hdead'⟩ :=
          h.entry hfault hr (Bool.eq_true_of_not_eq_false hdead)
        exact Bool.noConfusion (hdead'.symm.trans (halive hold))
      cases e with
      | connect j txn requestId =>
          obtain rfl := Option.some.inj hhandle
          exact hkeep (((ServerState.NoNewDead.refl s).setIntercept j
            fun hdead => Bool.noConfusion hdead).connect j)
      | connection d event => exact hkeep (.connection hhandle)
      | destroy j =>
          obtain rfl := Option.some.inj hhandle
          exact ServerState.destroy_alive
            (consistent_of_reach (fun _ _ he => he) hreach hids)
            (LocalPredicates.holds_of_reach_strays (fun _ _ he => he)
              (incomplete_preserved parse config) incomplete_strays hreach hids)
            halive j hfault hr
      | input j input => exact hkeep (.consume hhandle)
      | respond d r =>
          obtain rfl := Option.some.inj hhandle
          exact hkeep ((ServerState.NoNewDead.refl s).setConn d _)
  exact hall hr

end AtsFastcgi
