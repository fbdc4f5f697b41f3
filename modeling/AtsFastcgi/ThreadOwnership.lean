/-
Whose input is on the wire when several threads write: the ids are given out
over all threads, and each of them stands for one intercept.
-/
import AtsFastcgi.RequestOwnership
import AtsFastcgi.ThreadViews

namespace AtsFastcgi

open ServerState (ConnEvent Event)

/-! ### Local predicates on a thread among others -/

section Lone

variable {L : LocalPredicates} {parse : MimeHdrParse}
  {config : FcgiPluginConfig} {guard : ServerState → Event → Prop}
  {s : ServerState}

theorem LocalPredicates.Holds.skip (hL : L.Holds s) (ids conns : Nat) :
    L.Holds (s.skip ids conns) :=
  ⟨hL.ever, hL.waiting, hL.idle, hL.bound⟩

/-- What holds along the runs of a worker thread also holds when others take
ids. -/
theorem LocalPredicates.holds_of_lone
    (hguard : ∀ s e, guard s e → Addressed s e)
    (hpre : L.Preserved parse config guard)
    (hreach : Transition.Reach (loneThread parse config) (Alone guard) s)
    (hids : s.issued < 2 ^ 32 - 1) : Scheduled config s ∧ L.Holds s := by
  refine @Transition.Reach.invariant_while _ _ (loneThread parse config)
    (Alone guard) (fun s => Scheduled config s ∧ L.Holds s)
    (fun s => s.issued < 2 ^ 32 - 1) ?_ ?_ ?_ s hreach hids
  · intro s e s' hstep hlt
    cases e with
    | own e => exact Nat.lt_of_le_of_lt (ServerState.step_issued hstep) hlt
    | others ids conns =>
        obtain rfl := Option.some.inj hstep
        exact Nat.lt_of_le_of_lt (Nat.le_add_right _ _) hlt
  · rintro s rfl
    refine ⟨.init config, ?_, ?_, ?_, ?_⟩ <;>
      simp [ServerState.new, ServerState.Registered]
  · rintro s e s' - ⟨h, hL⟩ hpass hlt hstep
    cases e with
    | own e =>
        obtain ⟨hexists, howns⟩ := hguard s e hpass
        exact ⟨(dispatcher_simulation parse config).keeps h hexists hlt hstep,
          hL.step hpre h.consistent hexists (.inl howns) hpass hstep hlt⟩
    | others ids conns =>
        obtain rfl := Option.some.inj hstep
        exact ⟨h.skip hlt, hL.skip ids conns⟩

end Lone

theorem fedInOrder_looksLocally : LooksLocally FedInOrder := by
  intro mine s r e h hown hfed
  obtain ⟨hexists, howns⟩ := addressed_looksLocally h hown
    ⟨hfed.1, hfed.2.1⟩
  refine ⟨hexists, howns, ?_⟩
  cases e with
  | input i input =>
      have hfeeds : (s.intercepts i).Feeds input := hfed.2.2
      show (r.intercepts i).Feeds input
      rw [h.intercepts i hown]
      exact hfeeds
  | connect | connection | destroy | respond => trivial

/-! ### One event -/

section Step

variable {n : Nat} {home : InterceptId → Fin n} {parse : MimeHdrParse}
  {config : FcgiPluginConfig} {p : PluginState n} {r : Fin n → ServerState}
  {t : Fin n} {e : Event} {s' r' : ServerState} {starts : List InterceptId}

/-- An event writes on a connection what it writes there in the state of the
thread. -/
theorem Views.writeStep (h : Views home config p r)
    (hL : (ownClient config).Holds (r t))
    (hown : OfThread (home · = t) (p.seenBy t) e)
    (hguard : FedInOrder (p.seenBy t) e)
    (hstep : (p.seenBy t).step parse e = some s')
    (hr' : (r t).step parse e = some r')
    (hlock : LockStep (home · = t) (p.seenBy t) s' r') (c : ConnId) :
    WriteStep config (p.seenBy t) s' c := by
  have hview := h.lockStep t
  have hcons := (h.scheduled t).consistent
  by_cases hinput : ∃ i input, e = .input i input
  · obtain ⟨i, input, rfl⟩ := hinput
    have hwrites := writeStep_of_step hcons hL
      (fedInOrder_looksLocally hview.mirrors hown hguard) hr' c
    rcases ServerState.consume_cases (ServerState.handle_of_step hstep) with
      ⟨j, d, conn, hr, hwrite, rfl⟩ | ⟨-, rfl⟩
    · by_cases hcd : c = d
      · -- the connection is the thread's own
        have hj := hview.closed.owned_id i hown hguard.2.1 hr
        have hc := (hview.entry hcons hj hr).1
        rw [← hcd] at hc
        have hold := hview.mirrors.conns c hc
        have hnew := hlock.mirrors.conns c hc
        cases hwrites with
        | same hsame =>
            rw [hold, hnew] at hsame
            exact .same hsame
        | new hempty =>
            rw [hnew] at hempty
            exact .new hempty
        | write hr hwritten hwrote =>
            obtain ⟨hk, hr⟩ := hview.mirrors.registered.mp hr
            rw [hold, hnew] at hwritten
            rw [hlock.mirrors.intercepts _ hk] at hwrote
            exact .write hr hwritten hwrote
      · refine .same ?_
        show (((p.seenBy t).setConn d conn).conns c).written = _
        rw [ServerState.setConn_conns_of_ne _ conn hcd]
    · exact .same rfl
  · refine writeStep_of_no_input ?_ hstep c
    rintro i input rfl
    exact hinput ⟨i, input, rfl⟩

theorem Views.idsInUse (h : Views home config p r)
    (hwritten : ∀ c, ∀ w ∈ (p.shared.conns c).written,
      w.1 < p.shared.nextId) (t : Fin n) : IdsInUse (p.seenBy t) where
  nextId_eq := h.nextId t
  written_lt := hwritten
  entry_lt {id i c} hr := by
    have hlt := ((h.scheduled (home i)).consistent.entry_id
      (h.registered hr)).2
    rw [(h.lockStep (home i)).mirrors.nextId] at hlt
    exact hlt
  conn_unique {id id' i i' c} hr hr' := by
    by_contra hne
    exact (h.threadsApart.unshared id i c id' i' c hr hr' hne).2 rfl

end Step

/-! ### Runs -/

/-- `owner` is the intercept that each id was given to, and what is written
under the id is made of its input. -/
structure Attributed {n : Nat} (config : FcgiPluginConfig) (p : PluginState n)
    (owner : Nat → InterceptId) : Prop where
  registered : ∀ {id i c}, p.Registered id i c → owner id = i
  written_lt : ∀ c, ∀ w ∈ (p.shared.conns c).written, w.1 < p.shared.nextId
  connected : ∀ c, ∀ w ∈ (p.shared.conns c).written,
    (p.shared.intercepts (owner w.1)).connected = true
  wrote : ∀ c, ∀ w ∈ (p.shared.conns c).written,
    (p.shared.intercepts (owner w.1)).Wrote config w.1 w.2

section Runs

variable {n : Nat} {home : InterceptId → Fin n} {parse : MimeHdrParse}
  {config : FcgiPluginConfig} {p : PluginState n} {r : Fin n → ServerState}
  {t : Fin n} {e : Event} {s' : ServerState} {starts : List InterceptId}
  {owner : Nat → InterceptId}

theorem Attributed.step (h : Views home config p r)
    (hattr : Attributed config p owner)
    (hguard : FedInOrder (p.seenBy t) e)
    (hstep : (p.seenBy t).step parse e = some s')
    (hnumbers : (p.seenBy t).Numbers s' starts)
    (hle : p.shared.nextId ≤ s'.nextId)
    (hwrites : ∀ c, WriteStep config (p.seenBy t) s' c) :
    Attributed config (p.store t s') fun id =>
      if id < p.shared.nextId then owner id
      else (starts[id - p.shared.nextId]?).getD 0 := by
  have hids := h.idsInUse hattr.written_lt t
  -- every write is under an old id, and goes on being its owner's
  have hall : ∀ c, ∀ w ∈ (s'.conns c).written, w.1 < p.shared.nextId ∧
      (s'.intercepts (owner w.1)).connected = true ∧
      (s'.intercepts (owner w.1)).Wrote config w.1 w.2 := by
    intro c w hw
    refine ⟨(hwrites c).lt hids hw, ?_⟩
    rcases (hwrites c).mem hw with hold | ⟨i, hr, hwrote⟩
    · have hconnected := hattr.connected c w hold
      have hgrows := grows_of_step hguard hstep hconnected
      exact ⟨hgrows.connected.trans hconnected,
        (hattr.wrote c w hold).grows hgrows⟩
    · rw [hattr.registered hr]
      have hconnected := (h.scheduled (home i)).consistent.entry_connected
        (h.registered hr)
      rw [(h.lockStep (home i)).mirrors.intercepts i rfl] at hconnected
      have hgrows := grows_of_step hguard hstep hconnected
      exact ⟨hgrows.connected.trans hconnected, hwrote⟩
  constructor
  · intro id i c hr
    rcases hnumbers.registered hr with hold | ⟨k, hid, hk⟩
    · have hlt : id < p.shared.nextId := hids.entry_lt hold
      rw [if_pos hlt]
      exact hattr.registered hold
    · have hnext : p.shared.nextId = (p.seenBy t).issued + 1 := h.nextId t
      have hk' : id - p.shared.nextId = k := by omega
      rw [if_neg (by omega), hk', hk]
      rfl
  · intro c w hw
    exact Nat.lt_of_lt_of_le (hall c w hw).1 hle
  · intro c w hw
    obtain ⟨hlt, hconnected, -⟩ := hall c w hw
    rw [if_pos hlt]
    exact hconnected
  · intro c w hw
    obtain ⟨hlt, -, hwrote⟩ := hall c w hw
    rw [if_pos hlt]
    exact hwrote

/-- Every id has an owner, and the writes under different ids keep apart. -/
theorem attributed_of_reach
    (hreach : Transition.Reach (workerThreads parse config n)
      (OnOwnThread home FedInOrder) p)
    (hids : p.shared.issued < 2 ^ 32 - 1) :
    (∃ owner, Attributed config p owner) ∧
      WritesApart (p.shared.on (ThreadData.new config)) := by
  refine @Transition.Reach.invariant_while _ _ (workerThreads parse config n)
    (OnOwnThread home FedInOrder)
    (fun p => (∃ owner, Attributed config p owner) ∧
      WritesApart (p.shared.on (ThreadData.new config)))
    (fun p => p.shared.issued < 2 ^ 32 - 1) ?_ ?_ ?_ p hreach hids
  · rintro p ⟨t, e⟩ p' hstep hlt
    rw [workerThreads_step] at hstep
    obtain ⟨s', hs', rfl⟩ := Option.map_eq_some_iff.mp hstep
    exact Nat.lt_of_le_of_lt (ServerState.step_issued hs') hlt
  · rintro p rfl
    refine ⟨⟨fun _ => 0, ?_, ?_, ?_, ?_⟩, fun _ => .nil, ?_, ?_, ?_⟩
    · intro id i c hr
      simp [PluginState.Registered] at hr
    · exact fun c w hw => absurd hw List.not_mem_nil
    · exact fun c w hw => absurd hw List.not_mem_nil
    · exact fun c w hw => absurd hw List.not_mem_nil
    · exact fun _ w hw => absurd hw List.not_mem_nil
    · exact fun hw => absurd hw List.not_mem_nil
    · exact fun hw => absurd hw List.not_mem_nil
  · rintro p ⟨t, e⟩ p' hreach ⟨⟨owner, hattr⟩, hapart⟩ ⟨hown, hguard⟩ hlt hstep
    rw [workerThreads_step] at hstep
    obtain ⟨s', hs', rfl⟩ := Option.map_eq_some_iff.mp hstep
    have hids : p.shared.issued < 2 ^ 32 - 1 :=
      Nat.lt_of_le_of_lt (ServerState.step_issued hs') hlt
    obtain ⟨r, h, hr⟩ := views_of_reach (fun _ _ h => ⟨h.1, h.2.1⟩)
      fedInOrder_looksLocally hreach hids
    obtain ⟨r', hr', hsched', hlock, starts, hnumbers⟩ :=
      h.own_step hown ⟨hguard.1, hguard.2.1⟩ hs' hlt
    have hL := (LocalPredicates.holds_of_lone (fun _ _ h => ⟨h.1, h.2.1⟩)
      (ownClient_preserved parse config) (hr t) (by
        rw [(h.lockStep t).mirrors.issued]
        exact hids)).2
    have hwrites := h.writeStep hL hown hguard hs' hr' hlock
    have hnumbers' := h.numbers hlock hnumbers
    have hle : p.shared.nextId ≤ s'.nextId := by
      have hnext := hsched'.consistent.nextId_eq
      rw [hlock.mirrors.nextId, hlock.mirrors.issued, hnumbers'.issued] at hnext
      rw [hnext, h.nextId t]
      exact Nat.succ_le_succ (Nat.le_add_right _ _)
    have hseen : WritesApart (p.seenBy t) :=
      ⟨hapart.sorted, hapart.latest, hapart.place, hapart.apart⟩
    have hnext := hseen.step (h.idsInUse hattr.written_lt t) hnumbers' hwrites
    exact ⟨⟨_, hattr.step h hguard hs' hnumbers' hle hwrites⟩,
      hnext.sorted, hnext.latest, hnext.place, hnext.apart⟩

end Runs

/-- Over all threads, what is written under an id is made of the input of the
one intercept that has the id; on a connection the requests follow one another,
and no two connections carry the same one. -/
theorem thread_writes_attributed (parse : MimeHdrParse)
    (config : FcgiPluginConfig) (n : Nat) (home : InterceptId → Fin n)
    (p : PluginState n)
    (hreach : Transition.Reach (workerThreads parse config n)
      (OnOwnThread home FedInOrder) p)
    (hids : p.shared.issued < 2 ^ 32 - 1) :
    ∃ owner : Nat → InterceptId,
      (∀ id i c, p.Registered id i c → owner id = i) ∧
      ∀ c, ((p.shared.conns c).written.Pairwise fun w w' => w.1 ≤ w'.1) ∧
        ∀ w ∈ (p.shared.conns c).written,
          (p.shared.intercepts (owner w.1)).Wrote config w.1 w.2 ∧
          ∀ c', ∀ w' ∈ (p.shared.conns c').written, w.1 = w'.1 → c = c' := by
  obtain ⟨⟨owner, hattr⟩, hapart⟩ := attributed_of_reach hreach hids
  refine ⟨owner, fun _ _ _ => hattr.registered, fun c => ?_⟩
  refine ⟨hapart.sorted c, fun w hw => ⟨hattr.wrote c w hw, ?_⟩⟩
  intro c' w' hw' hsame
  exact hapart.apart hw hw' hsame

namespace ThreadOwnershipWitness

open ThreadViewsWitness (home request)

/-- Two requests on two threads, written in turn. -/
def events : List (Fin 2 × Event) :=
  [request 0, request 1, (home 0, .connection 0 .netConnect),
    (home 1, .connection 1 .netConnect),
    (home 0, .input 0 (.header (ascii "GET"))),
    (home 1, .input 1 (.header (ascii "GET"))),
    (home 0, .input 0 .complete), (home 1, .input 1 .complete)]

def final : PluginState 2 :=
  Transition.after
    (workerThreads DecoderSafetyWitness.parse RegistryWitness.config 2)
    (OnOwnThread home FedInOrder)
    ⟨{ config := RegistryWitness.config }, fun _ =>
      ThreadData.new RegistryWitness.config⟩ events

theorem thread_writes_attributed_final :
    ∃ owner : Nat → InterceptId,
      (∀ id i c, final.Registered id i c → owner id = i) ∧
      ∀ c, ((final.shared.conns c).written.Pairwise fun w w' => w.1 ≤ w'.1) ∧
        ∀ w ∈ (final.shared.conns c).written,
          (final.shared.intercepts (owner w.1)).Wrote RegistryWitness.config
            w.1 w.2 ∧
          ∀ c', ∀ w' ∈ (final.shared.conns c').written, w.1 = w'.1 → c = c' :=
  thread_writes_attributed DecoderSafetyWitness.parse RegistryWitness.config 2
    home final (.after (.init rfl) (by decide +kernel)) (by decide +kernel)

end ThreadOwnershipWitness

end AtsFastcgi
