/-
A dispatcher: jobs are served in a bounded number of places, and a job that
finds no place waits in a queue of bounded length.  A job that is finished hands
its place to the head of the queue; one that loses its place hands it to nobody.
-/
import AtsFastcgi.Lib.Simulation
import Mathlib.Data.Finset.Card

universe u

/-- The places that are taken, and the jobs that wait for one. -/
@[ext] structure Dispatcher (J : Type u) where
  places : Nat
  room : Nat
  serving : Finset J := ∅
  waiting : List J := []

namespace Dispatcher

variable {J : Type u}

/-- A job arrives, is finished, loses its place, or asks for another place
before it gives up its own. -/
inductive Action (J : Type u) where
  | submit (j : J)
  | finish (j : J)
  | lose (j : J)
  | retry (j : J)
  | idle
deriving DecidableEq

def Action.completes : Action J → Bool
  | .finish _ => true
  | _ => false

/-- Places are lost without being handed on. -/
def Action.givesUp : Action J → Bool
  | .lose _ | .retry _ => true
  | _ => false

def Action.arrival : Action J → Option J
  | .submit j => some j
  | _ => none

/-- The jobs that arrive, in their order. -/
def arrivals (actions : List (Action J)) : List J :=
  actions.filterMap Action.arrival

theorem arrivals_cons (a : Action J) (rest : List (Action J)) :
    arrivals (a :: rest) = a.arrival.toList ++ arrivals rest := by
  cases a <;> rfl

def completions (actions : List (Action J)) : Nat :=
  actions.countP Action.completes

section Operations

variable [DecidableEq J] (d : Dispatcher J)

def start (j : J) : Dispatcher J := { d with serving := insert j d.serving }

def leave (j : J) : Dispatcher J := { d with serving := d.serving.erase j }

/-- A full queue drops the job. -/
def enqueue (j : J) : Dispatcher J :=
  if d.waiting.length < d.room then { d with waiting := d.waiting ++ [j] }
  else d

def submit (j : J) : Dispatcher J :=
  if d.serving.card < d.places then d.start j else d.enqueue j

/-- The head of the queue gets a place. -/
def next : Dispatcher J :=
  match d.waiting with
  | [] => d
  | j :: rest => { d with waiting := rest }.start j

/-- The new place is taken before the old one is given up. -/
def again (j : J) : Dispatcher J :=
  if d.serving.card < d.places then d else (d.leave j).enqueue j

def perform : Action J → Dispatcher J
  | .submit j => d.submit j
  | .finish j => (d.leave j).next
  | .lose j => d.leave j
  | .retry j => d.again j
  | .idle => d

/-- Only new jobs arrive, and only jobs that are served end. -/
def Allowed (d : Dispatcher J) : Action J → Prop
  | .submit j => j ∉ d.serving ∧ j ∉ d.waiting
  | .finish j | .lose j | .retry j => j ∈ d.serving
  | .idle => True

instance (d : Dispatcher J) : (a : Action J) → Decidable (d.Allowed a)
  | .submit _ => inferInstanceAs (Decidable (_ ∧ _))
  | .finish _ | .lose _ | .retry _ => inferInstanceAs (Decidable (_ ∈ _))
  | .idle => inferInstanceAs (Decidable True)

def system (J : Type u) [DecidableEq J] :
    Transition.System (Dispatcher J) (Action J) where
  init d := d.serving = ∅ ∧ d.waiting = []
  step d a := some (d.perform a)

end Operations

variable [DecidableEq J] {d d' : Dispatcher J}

/-- A run of the dispatcher. -/
abbrev Runs (d : Dispatcher J) (actions : List (Action J))
    (d' : Dispatcher J) : Prop :=
  Transition.Run (system J) Allowed d actions d'

/-! ### Bounds -/

/-- The places and the queue are within their bounds, and no job is in two
places at once. -/
structure Valid (d : Dispatcher J) : Prop where
  serving_le : d.serving.card ≤ d.places
  waiting_le : d.waiting.length ≤ d.room
  waiting_nodup : d.waiting.Nodup
  apart : ∀ j ∈ d.waiting, j ∉ d.serving

theorem Valid.leave (h : d.Valid) (j : J) : (d.leave j).Valid where
  serving_le := Nat.le_trans (Finset.card_erase_le) h.serving_le
  waiting_le := h.waiting_le
  waiting_nodup := h.waiting_nodup
  apart k hk hin := h.apart k hk (Finset.mem_of_mem_erase hin)

omit [DecidableEq J] in
theorem Valid.enqueue (h : d.Valid) {j : J} (hserving : j ∉ d.serving)
    (hwaiting : j ∉ d.waiting) : (d.enqueue j).Valid := by
  unfold Dispatcher.enqueue
  split
  · next hroom =>
      constructor
      · exact h.serving_le
      · show (d.waiting ++ [j]).length ≤ d.room
        rw [List.length_append, List.length_singleton]
        exact hroom
      · show (d.waiting ++ [j]).Nodup
        rw [← List.concat_eq_append]
        exact List.Nodup.concat hwaiting h.waiting_nodup
      · intro k hk
        rcases List.mem_append.mp hk with hold | hnew
        · exact h.apart k hold
        · rw [List.mem_singleton.mp hnew]
          exact hserving
  · exact h

theorem Valid.start (h : d.Valid) {j : J} (hplace : d.serving.card < d.places)
    (hwaiting : j ∉ d.waiting) : (d.start j).Valid where
  serving_le := Nat.le_trans (Finset.card_insert_le j d.serving) hplace
  waiting_le := h.waiting_le
  waiting_nodup := h.waiting_nodup
  apart k hk hin := by
    rcases Finset.mem_insert.mp hin with rfl | hold
    · exact hwaiting hk
    · exact h.apart k hk hold

theorem Valid.next (h : d.Valid) (hplace : d.serving.card < d.places) :
    d.next.Valid := by
  unfold Dispatcher.next
  split
  · exact h
  · next j rest hqueue =>
      have hnodup := h.waiting_nodup
      have hle := h.waiting_le
      rw [hqueue] at hnodup hle
      have hrest : Valid { d with waiting := rest } := {
        serving_le := h.serving_le
        waiting_le := Nat.le_of_succ_le hle
        waiting_nodup := (List.nodup_cons.mp hnodup).2
        apart := fun k hk => h.apart k (by
          rw [hqueue]
          exact List.mem_cons_of_mem j hk) }
      exact hrest.start hplace (List.nodup_cons.mp hnodup).1

/-- A job that leaves makes room for another one. -/
theorem card_leave_lt (h : d.Valid) {j : J} (hj : j ∈ d.serving) :
    (d.leave j).serving.card < (d.leave j).places :=
  Nat.lt_of_lt_of_le (Finset.card_erase_lt_of_mem hj) h.serving_le

theorem Valid.perform (h : d.Valid) {a : Action J} (hallowed : d.Allowed a) :
    (d.perform a).Valid := by
  cases a with
  | submit j =>
      show (d.submit j).Valid
      unfold Dispatcher.submit
      split
      · next hplace => exact h.start hplace hallowed.2
      · exact h.enqueue hallowed.1 hallowed.2
  | finish j => exact (h.leave j).next (card_leave_lt h hallowed)
  | lose j => exact h.leave j
  | retry j =>
      show (d.again j).Valid
      unfold Dispatcher.again
      split
      · exact h
      · apply (h.leave j).enqueue
        · exact Finset.notMem_erase j d.serving
        · exact fun hin => h.apart j hin hallowed
  | idle => exact h

theorem Valid.run (h : d.Valid) {actions : List (Action J)}
    (hrun : d.Runs actions d') : d'.Valid := by
  induction hrun with
  | nil => exact h
  | cons hallowed hstep _ ih =>
      apply ih
      rw [← Option.some.inj hstep]
      exact h.perform hallowed

/-! ### Waiting in turn -/

/-- Unless a job is finished, the queue only grows at its end. -/
theorem waiting_of_not_completes (d : Dispatcher J) {a : Action J}
    (ha : a.completes = false) :
    ∃ more, (d.perform a).waiting = d.waiting ++ more := by
  have henqueue : ∀ (d : Dispatcher J) (j : J),
      ∃ more, (d.enqueue j).waiting = d.waiting ++ more := by
    intro d j
    unfold enqueue
    split
    · exact ⟨[j], rfl⟩
    · exact ⟨[], (List.append_nil _).symm⟩
  cases a with
  | submit j =>
      simp only [perform, submit]
      split
      · exact ⟨[], (List.append_nil _).symm⟩
      · exact henqueue d j
  | finish j => contradiction
  | lose j => exact ⟨[], (List.append_nil _).symm⟩
  | retry j =>
      simp only [perform, again]
      split
      · exact ⟨[], (List.append_nil _).symm⟩
      · exact henqueue (d.leave j) j
  | idle => exact ⟨[], (List.append_nil _).symm⟩

/-- A job that is finished takes the head off the queue and has it served. -/
theorem perform_finish (d : Dispatcher J) (i : J) {j : J} {rest : List J}
    (hqueue : d.waiting = j :: rest) :
    (d.perform (.finish i)).waiting = rest ∧
      j ∈ (d.perform (.finish i)).serving := by
  have hnext : (d.leave i).next =
      { d.leave i with waiting := rest }.start j := by
    rw [next, show (d.leave i).waiting = j :: rest from hqueue]
  rw [perform, hnext]
  exact ⟨rfl, Finset.mem_insert_self j _⟩

/-- A job moves up in the queue by one with each job that is finished, and by
nothing else. -/
theorem Runs.waits {actions : List (Action J)} (hrun : d.Runs actions d')
    {ahead behind : List J} {j : J}
    (hqueue : d.waiting = ahead ++ j :: behind)
    (hle : completions actions ≤ ahead.length) :
    ∃ more, d'.waiting =
      ahead.drop (completions actions) ++ j :: (behind ++ more) := by
  induction hrun generalizing ahead behind with
  | nil => exact ⟨[], by rw [List.append_nil]; exact hqueue⟩
  | @cons d d₁ d' a rest hallowed hstep _ ih =>
      obtain rfl := Option.some.inj hstep
      cases ha : a.completes with
      | true =>
          obtain ⟨i, rfl⟩ : ∃ i, a = .finish i := by
            cases a with
            | finish i => exact ⟨i, rfl⟩
            | _ => contradiction
          have hcount : completions (.finish i :: rest) =
              completions rest + 1 := List.countP_cons_of_pos ha
          rw [hcount] at hle ⊢
          cases ahead with
          | nil => exact absurd hle (Nat.not_succ_le_zero _)
          | cons k front =>
              have htail := (perform_finish d i hqueue).1
              rw [List.drop_succ_cons]
              exact ih htail (Nat.le_of_succ_le_succ hle)
      | false =>
          have hcount : completions (a :: rest) = completions rest :=
            List.countP_cons_of_neg (by rw [ha]; exact Bool.false_ne_true)
          obtain ⟨more, hmore⟩ := waiting_of_not_completes d ha
          rw [hcount] at hle ⊢
          rw [hqueue, List.append_assoc, List.cons_append] at hmore
          obtain ⟨later, hlater⟩ := ih hmore hle
          refine ⟨more ++ later, ?_⟩
          rw [hlater, List.append_assoc]

omit [DecidableEq J] in
/-- One of the actions is the completion that comes after `n` others. -/
theorem exists_completion {actions : List (Action J)} {n : Nat}
    (hn : n < completions actions) :
    ∃ front i back, actions = front ++ .finish i :: back ∧
      completions front = n := by
  induction actions generalizing n with
  | nil => exact absurd hn (Nat.not_lt_zero n)
  | cons a rest ih =>
      cases ha : a.completes with
      | true =>
          cases n with
          | zero =>
              cases a with
              | finish i => exact ⟨[], i, rest, rfl, rfl⟩
              | _ => contradiction
          | succ n =>
              have hcount : completions (a :: rest) = completions rest + 1 :=
                List.countP_cons_of_pos ha
              rw [hcount] at hn
              obtain ⟨front, i, back, hsplit, hfront⟩ :=
                ih (Nat.lt_of_succ_lt_succ hn)
              refine ⟨a :: front, i, back, ?_, ?_⟩
              · rw [hsplit, List.cons_append]
              · rw [completions, List.countP_cons_of_pos ha]
                exact congrArg (· + 1) hfront
      | false =>
          have hne : ¬ a.completes = true := by
            rw [ha]
            exact Bool.false_ne_true
          have hcount : completions (a :: rest) = completions rest :=
            List.countP_cons_of_neg hne
          rw [hcount] at hn
          obtain ⟨front, i, back, hsplit, hfront⟩ := ih hn
          refine ⟨a :: front, i, back, ?_, ?_⟩
          · rw [hsplit, List.cons_append]
          · rw [completions, List.countP_cons_of_neg hne]
            exact hfront

/-! ### No job disappears -/

/-- The jobs that an action drops: they find neither a place nor room. -/
def dropped (d : Dispatcher J) : Action J → Nat
  | .submit _ | .retry _ =>
      if d.serving.card < d.places ∨ d.waiting.length < d.room then 0 else 1
  | _ => 0

/-- The jobs that a run of actions drops. -/
def drops : Dispatcher J → List (Action J) → Nat
  | _, [] => 0
  | d, a :: rest => d.dropped a + drops (d.perform a) rest

/-- The job has an end, good or bad. -/
def Action.ends : Action J → Bool
  | .finish _ | .lose _ => true
  | _ => false

/-- The jobs in the dispatcher. -/
def load (d : Dispatcher J) : Nat := d.serving.card + d.waiting.length

theorem load_next (h : d.Valid) : d.next.load = d.load := by
  unfold next
  split
  · rfl
  · next j rest hqueue =>
      have hnew : j ∉ d.serving := h.apart j (by
        rw [hqueue]
        exact List.mem_cons_self)
      show (insert j d.serving).card + rest.length = d.load
      rw [load, hqueue, Finset.card_insert_of_notMem hnew, List.length_cons]
      exact Nat.succ_add_eq_add_succ _ _

theorem load_leave {j : J} (hj : j ∈ d.serving) :
    (d.leave j).load + 1 = d.load := by
  show (d.serving.erase j).card + d.waiting.length + 1 = d.load
  rw [load, ← Finset.card_erase_add_one hj]
  exact Nat.add_right_comm _ _ _

omit [DecidableEq J] in
theorem load_enqueue (d : Dispatcher J) (j : J) :
    (d.enqueue j).load + (if d.waiting.length < d.room then 0 else 1) =
      d.load + 1 := by
  unfold enqueue
  split
  · show d.serving.card + (d.waiting ++ [j]).length = d.load + 1
    rw [load, List.length_append, List.length_singleton]
    rfl
  · rfl

/-- What an action does to the number of jobs. -/
theorem load_perform (h : d.Valid) {a : Action J} (hallowed : d.Allowed a) :
    (d.perform a).load + a.ends.toNat + d.dropped a =
      d.load + (a.arrival.toList).length := by
  cases a with
  | submit j =>
      simp only [perform, submit, Action.ends, Action.arrival, dropped,
        Bool.toNat_false, Option.toList_some, List.length_singleton,
        Nat.add_zero]
      by_cases hplace : d.serving.card < d.places
      · rw [if_pos hplace, if_pos (.inl hplace), Nat.add_zero]
        show (insert j d.serving).card + d.waiting.length = d.load + 1
        rw [load, Finset.card_insert_of_notMem hallowed.1]
        exact Nat.add_right_comm _ _ _
      · rw [if_neg hplace, ← load_enqueue d j]
        simp only [hplace, false_or]
  | finish j =>
      show (d.leave j).next.load + 1 + 0 = d.load + 0
      rw [load_next (h.leave j), load_leave hallowed]
      rfl
  | lose j => exact load_leave hallowed
  | retry j =>
      simp only [perform, again, Action.ends, Action.arrival, dropped,
        Bool.toNat_false, Option.toList_none, List.length_nil, Nat.add_zero]
      by_cases hplace : d.serving.card < d.places
      · rw [if_pos hplace, if_pos (.inl hplace), Nat.add_zero]
      · have hload := load_enqueue (d.leave j) j
        rw [load_leave hallowed] at hload
        rw [if_neg hplace, ← hload]
        simp only [hplace, false_or]
        rfl
  | idle => rfl

/-- Every job that arrives is served, waits, has an end or was dropped. -/
theorem Runs.accounted (h : d.Valid) {actions : List (Action J)}
    (hrun : d.Runs actions d') :
    d'.load + actions.countP Action.ends + drops d actions =
      d.load + (arrivals actions).length := by
  induction hrun with
  | nil => rfl
  | @cons d d₁ d' a rest hallowed hstep _ ih =>
      obtain rfl := Option.some.inj hstep
      have hone := load_perform h hallowed
      have hrest := ih (h.perform hallowed)
      rw [arrivals_cons, List.length_append, List.countP_cons, drops]
      cases hends : a.ends <;>
        simp only [hends, Bool.toNat_true, Bool.toNat_false, if_true,
          Bool.false_eq_true, if_false] at hone ⊢ <;> omega

/-! ### First come, first served -/

/-- Nobody waits while a place is free. -/
def Saturated (d : Dispatcher J) : Prop :=
  d.waiting ≠ [] → d.serving.card = d.places

/-- The job that an action gives a place. -/
def starts (d : Dispatcher J) : Action J → List J
  | .submit j | .retry j => if d.serving.card < d.places then [j] else []
  | .finish _ => d.waiting.take 1
  | _ => []

/-- The job that an action lets in. -/
def admits (d : Dispatcher J) : Action J → List J
  | .submit j =>
      if d.serving.card < d.places ∨ d.waiting.length < d.room then [j] else []
  | _ => []

/-- The jobs that get a place, in the order in which they do. -/
def started : Dispatcher J → List (Action J) → List J
  | _, [] => []
  | d, a :: rest => d.starts a ++ started (d.perform a) rest

/-- The jobs that are let in, in the order of their arrival. -/
def admitted : Dispatcher J → List (Action J) → List J
  | _, [] => []
  | d, a :: rest => d.admits a ++ admitted (d.perform a) rest

theorem Runs.started_append {actions : List (Action J)}
    (hrun : d.Runs actions d') (more : List (Action J)) :
    started d (actions ++ more) = started d actions ++ started d' more := by
  induction hrun with
  | nil => rfl
  | cons _ hstep _ ih =>
      obtain rfl := Option.some.inj hstep
      rw [List.cons_append, started, ih, started, List.append_assoc]

/-- Without a lost place, nobody waits while a place is free. -/
theorem Saturated.perform (h : d.Valid) (hfull : d.Saturated) {a : Action J}
    (hallowed : d.Allowed a) (ha : a.givesUp = false) :
    (d.perform a).Saturated := by
  cases a with
  | submit j =>
      show (d.submit j).Saturated
      unfold submit
      split
      · next hplace =>
          intro hqueue
          exact absurd (hfull hqueue) (Nat.ne_of_lt hplace)
      · next hplace =>
          have hcard : d.serving.card = d.places :=
            Nat.le_antisymm h.serving_le (Nat.le_of_not_lt hplace)
          intro _
          unfold enqueue
          split
          · exact hcard
          · exact hcard
  | finish j =>
      show (d.leave j).next.Saturated
      cases hqueue : d.waiting with
      | nil =>
          rw [next, show (d.leave j).waiting = [] from hqueue]
          exact fun hne => absurd hqueue hne
      | cons k rest =>
          have hcard : d.serving.card = d.places :=
            hfull (by rw [hqueue]; exact List.cons_ne_nil k rest)
          have hk : k ∉ d.serving.erase j := fun hin =>
            h.apart k (by rw [hqueue]; exact List.mem_cons_self)
              (Finset.mem_of_mem_erase hin)
          rw [next, show (d.leave j).waiting = k :: rest from hqueue]
          intro _
          show (insert k (d.serving.erase j)).card = d.places
          rw [Finset.card_insert_of_notMem hk, Finset.card_erase_add_one hallowed,
            hcard]
  | lose j => contradiction
  | retry j => contradiction
  | idle => exact hfull

/-- One action starts jobs from the front of those that wait or are let in. -/
theorem waiting_perform (hfull : d.Saturated) {a : Action J}
    (ha : a.givesUp = false) :
    d.waiting ++ d.admits a = d.starts a ++ (d.perform a).waiting := by
  cases a with
  | submit j =>
      simp only [admits, starts, perform, submit]
      by_cases hplace : d.serving.card < d.places
      · have hempty : d.waiting = [] := by
          by_contra hne
          exact Nat.ne_of_lt hplace (hfull hne)
        rw [if_pos (.inl hplace), if_pos hplace, if_pos hplace, hempty]
        exact congrArg (j :: ·) hempty.symm
      · simp only [hplace, false_or, if_false, List.nil_append, enqueue]
        split
        · rfl
        · exact List.append_nil _
  | finish j =>
      simp only [admits, starts, perform, List.append_nil]
      cases hqueue : d.waiting with
      | nil =>
          rw [next, show (d.leave j).waiting = [] from hqueue]
          exact hqueue.symm
      | cons k rest =>
          rw [next, show (d.leave j).waiting = k :: rest from hqueue]
          rfl
  | lose j => contradiction
  | retry j => contradiction
  | idle => exact List.append_nil _

/-- As long as no place is lost, jobs are started in the order of their
arrival. -/
theorem Runs.firstComeFirstServed (h : d.Valid) (hfull : d.Saturated)
    {actions : List (Action J)} (hrun : d.Runs actions d')
    (hkeeps : ∀ a ∈ actions, a.givesUp = false) :
    d.waiting ++ admitted d actions = started d actions ++ d'.waiting := by
  induction hrun with
  | nil => exact List.append_nil _
  | @cons d d₁ d' a rest hallowed hstep _ ih =>
      obtain rfl := Option.some.inj hstep
      have ha := hkeeps a List.mem_cons_self
      have hrest := ih (h.perform hallowed) (hfull.perform h hallowed ha)
        fun b hb => hkeeps b (List.mem_cons_of_mem a hb)
      rw [admitted, started, ← List.append_assoc, waiting_perform hfull ha,
        List.append_assoc, hrest, List.append_assoc]

/-! ### No places -/

/-- Without a place, the first jobs fill the queue and nobody is served. -/
theorem Runs.starved (h : d.Valid) (hplaces : d.places = 0)
    {actions : List (Action J)} (hrun : d.Runs actions d') :
    d'.serving = ∅ ∧
      d'.waiting = (d.waiting ++ arrivals actions).take d.room := by
  have hnone : ∀ {d : Dispatcher J}, d.Valid → d.places = 0 →
      d.serving = ∅ := by
    intro d h hplaces
    exact Finset.card_eq_zero.mp
      (Nat.eq_zero_of_le_zero (Nat.le_trans h.serving_le hplaces.le))
  induction hrun with
  | nil s =>
      refine ⟨hnone h hplaces, ?_⟩
      rw [arrivals, List.filterMap_nil, List.append_nil,
        List.take_of_length_le h.waiting_le]
  | @cons d d₁ d' a rest hallowed hstep _ ih =>
      obtain rfl := Option.some.inj hstep
      have hempty := hnone h hplaces
      cases a with
      | submit j =>
          have hsubmit : d.perform (.submit j) = d.enqueue j := by
            rw [perform, submit, if_neg]
            rw [hplaces]
            exact Nat.not_lt_zero _
          rw [hsubmit] at ih
          have hplaces' : (d.enqueue j).places = 0 := by
            unfold enqueue
            split
            · exact hplaces
            · exact hplaces
          have hrest := ih (h.enqueue hallowed.1 hallowed.2) hplaces'
          refine ⟨hrest.1, hrest.2.trans ?_⟩
          show _ = (d.waiting ++ j :: arrivals rest).take d.room
          unfold enqueue
          split
          · rw [List.append_assoc]
            rfl
          · next hfull =>
              have hlen : d.waiting.length = d.room :=
                Nat.le_antisymm h.waiting_le (Nat.le_of_not_lt hfull)
              rw [← hlen, List.take_left, List.take_left]
      | finish j | lose j | retry j =>
          have hj : j ∈ d.serving := hallowed
          rw [hempty] at hj
          exact absurd hj (Finset.notMem_empty j)
      | idle => exact ih h hplaces

end Dispatcher
