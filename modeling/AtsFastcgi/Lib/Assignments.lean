/-
Lists of assignments to keys.  Where a later assignment replaces an earlier one
the last value counts, where it is ignored the first one does.  When some of them
are deleted, only the one that counts for a key matters.
-/
import Mathlib.Data.List.Basic

universe u v

namespace Assignments

variable {K : Type u} {V : Type v} [DecidableEq K]

/-- The value of the last assignment to a key. -/
def last : List (K × V) → K → Option V
  | [], _ => none
  | p :: rest, key =>
      (last rest key).or (if p.1 = key then some p.2 else none)

/-- The value of the first assignment to a key. -/
def first : List (K × V) → K → Option V
  | [], _ => none
  | p :: rest, key => (if p.1 = key then some p.2 else none).or (first rest key)

theorem last_append (earlier later : List (K × V)) (key : K) :
    last (earlier ++ later) key = (last later key).or (last earlier key) := by
  induction earlier with
  | nil => simp [last]
  | cons p rest ih => rw [List.cons_append, last, ih, Option.or_assoc, last]

theorem last_concat (earlier : List (K × V)) (p : K × V) (key : K) :
    last (earlier ++ [p]) key =
      if p.1 = key then some p.2 else last earlier key := by
  rw [last_append]
  by_cases heq : p.1 = key
  · simp [last, heq]
  · simp [last, heq]

theorem last_eq_none_iff {pairs : List (K × V)} {key : K} :
    last pairs key = none ↔ ∀ p ∈ pairs, p.1 ≠ key := by
  induction pairs with
  | nil => simp [last]
  | cons p rest ih =>
      simp only [last, Option.or_eq_none_iff, ih, ite_eq_right_iff,
        reduceCtorEq, imp_false, List.forall_mem_cons]
      exact and_comm

/-- After the last assignment to a key its value stays. -/
theorem last_append_cons {earlier later : List (K × V)} {key : K} {value : V}
    (hlast : ∀ p ∈ later, p.1 ≠ key) :
    last (earlier ++ (key, value) :: later) key = some value := by
  rw [last_append, last, last_eq_none_iff.mpr hlast, Option.none_or, if_pos rfl,
    Option.some_or]

/-- Where a key is assigned once, the order does not matter. -/
theorem last_of_mem {pairs : List (K × V)} {key : K} {value : V}
    (hnodup : (pairs.map Prod.fst).Nodup) (hin : (key, value) ∈ pairs) :
    last pairs key = some value := by
  obtain ⟨earlier, later, rfl⟩ := List.append_of_mem hin
  apply last_append_cons
  intro p hp heq
  have hkey : p.1 ∈ later.map Prod.fst := List.mem_map_of_mem hp
  rw [List.map_append, List.map_cons] at hnodup
  have htail := (List.nodup_append.mp hnodup).2.1
  exact (List.nodup_cons.mp htail).1 (heq ▸ hkey)

/-! ### Deleted assignments -/

/-- The assignments that stay, of those marked with whether they do. -/
def kept (marked : List (Bool × K × V)) : List (K × V) :=
  (marked.filter Prod.fst).map Prod.snd

omit [DecidableEq K] in
theorem kept_append (front back : List (Bool × K × V)) :
    kept (front ++ back) = kept front ++ kept back := by
  simp [kept]

omit [DecidableEq K] in
theorem kept_flatMap {A : Type*} (l : List A) (f : A → List (Bool × K × V)) :
    kept (l.flatMap f) = l.flatMap fun a => kept (f a) := by
  induction l with
  | nil => rfl
  | cons a rest ih => rw [List.flatMap_cons, kept_append, ih, List.flatMap_cons]

theorem first_append (earlier later : List (K × V)) (key : K) :
    first (earlier ++ later) key = (first earlier key).or (first later key) := by
  induction earlier with
  | nil => simp [first]
  | cons p rest ih => rw [List.cons_append, first, ih, first, Option.or_assoc]

theorem last_eq_first_reverse (pairs : List (K × V)) (key : K) :
    last pairs key = first pairs.reverse key := by
  induction pairs with
  | nil => rfl
  | cons p rest ih =>
      rw [List.reverse_cons, first_append, last, ih]
      simp [first]

/-- The first assignment of a key is what a deletion can change: if it is
deleted, the first one that stays behind it counts. -/
theorem first_kept_iff {W : Type*} (read : Option V → W)
    (marked : List (Bool × K × V)) (key : K) :
    read (first (marked.map Prod.snd) key) = read (first (kept marked) key) ↔
      ∀ before value after, marked = before ++ (false, key, value) :: after →
        (∀ p ∈ before, p.2.1 ≠ key) →
        read (some value) = read (first (kept after) key) := by
  induction marked with
  | nil => simp [kept]
  | cons p rest ih =>
      obtain ⟨stays, k, v⟩ := p
      by_cases hkey : k = key
      · subst hkey
        have hall : first (((stays, k, v) :: rest).map Prod.snd) k = some v := by
          simp [first]
        -- only the assignment in front can be the first one
        have hfront : ∀ before value after,
            (stays, k, v) :: rest = before ++ (false, k, value) :: after →
            (∀ p ∈ before, p.2.1 ≠ k) →
            stays = false ∧ v = value ∧ rest = after := by
          intro before value after hsplit hbefore
          cases before with
          | nil => simpa [and_assoc] using hsplit
          | cons q before =>
              rw [List.cons_append, List.cons.injEq] at hsplit
              exact absurd (hsplit.1 ▸ rfl) (hbefore q List.mem_cons_self)
        rw [hall]
        cases stays with
        | true =>
            have hkept : first (kept ((true, k, v) :: rest)) k = some v := by
              simp [kept, first]
            rw [hkept]
            refine ⟨fun _ before value after hsplit hbefore => ?_, fun _ => rfl⟩
            have hstays := (hfront before value after hsplit hbefore).1
            contradiction
        | false =>
            have hkept : kept ((false, k, v) :: rest) = kept rest := by
              simp [kept]
            rw [hkept]
            constructor
            · intro hread before value after hsplit hbefore
              obtain ⟨-, rfl, rfl⟩ := hfront before value after hsplit hbefore
              exact hread
            · intro hall
              exact hall [] v rest rfl fun _ hp => absurd hp List.not_mem_nil
      · have hall : first (((stays, k, v) :: rest).map Prod.snd) key =
            first (rest.map Prod.snd) key := by
          simp [first, hkey]
        have hkept : first (kept ((stays, k, v) :: rest)) key =
            first (kept rest) key := by
          cases stays <;> simp [kept, first, hkey]
        rw [hall, hkept, ih]
        constructor
        · intro h before value after hsplit hbefore
          cases before with
          | nil =>
              rw [List.nil_append, List.cons.injEq] at hsplit
              exact absurd (congrArg (fun p => p.2.1) hsplit.1) hkey
          | cons q before =>
              rw [List.cons_append, List.cons.injEq] at hsplit
              exact h before value after hsplit.2 fun p hp =>
                hbefore p (List.mem_cons_of_mem q hp)
        · intro h before value after hsplit hbefore
          refine h ((stays, k, v) :: before) value after ?_ ?_
          · rw [hsplit, List.cons_append]
          · exact List.forall_mem_cons.mpr ⟨hkey, hbefore⟩

omit [DecidableEq K] in
theorem kept_reverse (marked : List (Bool × K × V)) :
    kept marked.reverse = (kept marked).reverse := by
  simp [kept]

/-- The last assignment of a key is what a deletion can change: if it is
deleted, the last one that stays in front of it counts. -/
theorem last_kept_iff {W : Type*} (read : Option V → W)
    (marked : List (Bool × K × V)) (key : K) :
    read (last (marked.map Prod.snd) key) = read (last (kept marked) key) ↔
      ∀ before value after, marked = before ++ (false, key, value) :: after →
        (∀ p ∈ after, p.2.1 ≠ key) →
        read (some value) = read (last (kept before) key) := by
  have hfirst := first_kept_iff read marked.reverse key
  rw [List.map_reverse, kept_reverse, ← last_eq_first_reverse,
    ← last_eq_first_reverse] at hfirst
  rw [hfirst]
  constructor
  · intro h before value after hsplit hafter
    have hnext := h after.reverse value before.reverse
      (by rw [hsplit]; simp) (by simpa using hafter)
    rw [kept_reverse, ← last_eq_first_reverse] at hnext
    exact hnext
  · intro h before value after hsplit hbefore
    have hnext := h after.reverse value before.reverse
      (by rw [← List.reverse_reverse marked, hsplit]; simp)
      (by simpa using hbefore)
    rw [kept_reverse, last_eq_first_reverse, List.reverse_reverse] at hnext
    exact hnext

end Assignments
