/-
Text read line by line into a buffer and split into words.  A read takes what
fits, up to and including the next line end, so a line that is too long arrives
in several pieces.
-/
import Mathlib.Data.List.DropRight
import Mathlib.Data.List.TakeWhile

universe u

/-- A reader whose buffer holds `capacity` elements. -/
structure LineReader (A : Type u) where
  eol : A
  capacity : Nat
  capacity_pos : 0 < capacity := by decide

namespace LineReader

variable {A : Type u} [DecidableEq A] (R : LineReader A)

/-- An element goes in front of the first part. -/
def consFirst (a : A) : List (List A) → List (List A)
  | [] => [[a]]
  | part :: parts => (a :: part) :: parts

/-- The lines of a text, each with its line end. -/
def lines : List A → List (List A)
  | [] => []
  | a :: rest =>
      if a = R.eol then [a] :: lines rest else consFirst a (lines rest)

/-- One read of at most `room` elements, and what is left of the text. -/
def readPiece : Nat → List A → List A × List A
  | 0, text => ([], text)
  | _ + 1, [] => ([], [])
  | room + 1, a :: rest =>
      if a = R.eol then ([a], rest)
      else (a :: (readPiece room rest).1, (readPiece room rest).2)

/-- The pieces that are read when the current one has room for `room + 1`
elements. -/
def readsFrom : Nat → List A → List (List A)
  | _, [] => []
  | room, a :: rest =>
      if a = R.eol ∨ room = 0 then [a] :: readsFrom (R.capacity - 1) rest
      else consFirst a (readsFrom (room - 1) rest)

/-- The pieces that are read until the end of the text. -/
def reads (text : List A) : List (List A) := R.readsFrom (R.capacity - 1) text

/-! ### Lines -/

omit [DecidableEq A] in
theorem flatten_consFirst (a : A) (parts : List (List A)) :
    (consFirst a parts).flatten = a :: parts.flatten := by
  cases parts with
  | nil => rfl
  | cons part rest => rfl

theorem lines_append_eol {body : List A} (hbody : R.eol ∉ body)
    (rest : List A) :
    R.lines (body ++ R.eol :: rest) = (body ++ [R.eol]) :: R.lines rest := by
  induction body with
  | nil => simp [lines]
  | cons a body ih =>
      have hne : a ≠ R.eol := fun heq => hbody (heq ▸ List.mem_cons_self)
      have htail := ih fun hin => hbody (List.mem_cons_of_mem _ hin)
      rw [List.cons_append, lines, if_neg hne, htail]
      rfl

theorem lines_of_notMem {text : List A} (hne : text ≠ [])
    (htext : R.eol ∉ text) : R.lines text = [text] := by
  induction text with
  | nil => contradiction
  | cons a rest ih =>
      have ha : a ≠ R.eol := fun heq => htext (heq ▸ List.mem_cons_self)
      rw [lines, if_neg ha]
      by_cases hrest : rest = []
      · subst hrest
        rfl
      · rw [ih hrest fun hin => htext (List.mem_cons_of_mem _ hin)]
        rfl

/-- A text is empty, a line without an end, or a line and a text. -/
@[elab_as_elim]
theorem line_induction {motive : List A → Prop} (nil : motive [])
    (last : ∀ text, text ≠ [] → R.eol ∉ text → motive text)
    (line : ∀ body rest, R.eol ∉ body → motive rest →
      motive (body ++ R.eol :: rest)) (text : List A) : motive text := by
  suffices h : ∀ n, ∀ text : List A, text.length = n → motive text from
    h text.length text rfl
  intro n
  induction n using Nat.strong_induction_on with
  | h n ih =>
      intro text hlength
      by_cases hin : R.eol ∈ text
      · obtain ⟨body, rest, rfl, hbody⟩ := List.eq_append_cons_of_mem hin
        apply line body rest hbody
        apply ih rest.length _ rest rfl
        rw [← hlength, List.length_append, List.length_cons]
        omega
      · by_cases hne : text = []
        · exact hne ▸ nil
        · exact last text hne hin

/-- Deleting lines leaves the other lines as they are. -/
theorem lines_filter (keep : List A → Bool) (text : List A) :
    R.lines ((R.lines text).filter keep).flatten =
      (R.lines text).filter keep := by
  induction text using R.line_induction with
  | nil => rfl
  | last text hne htext =>
      rw [R.lines_of_notMem hne htext, List.filter_cons]
      split
      · rw [List.filter_nil, List.flatten_singleton,
          R.lines_of_notMem hne htext]
      · rfl
  | line body rest hbody ih =>
      rw [R.lines_append_eol hbody, List.filter_cons]
      split
      · rw [List.flatten_cons, List.append_assoc, List.singleton_append,
          R.lines_append_eol hbody, ih]
      · exact ih

/-! ### Reads -/

/-- The reads return the text. -/
theorem flatten_readsFrom (room : Nat) (text : List A) :
    (R.readsFrom room text).flatten = text := by
  induction text generalizing room with
  | nil => rfl
  | cons a rest ih =>
      unfold readsFrom
      split
      · rw [List.flatten_cons, ih]
        rfl
      · rw [flatten_consFirst, ih]

/-- The first piece is what the next read takes. -/
theorem readsFrom_eq (room : Nat) {text : List A} (hne : text ≠ []) :
    R.readsFrom room text =
      (R.readPiece (room + 1) text).1 ::
        R.reads (R.readPiece (room + 1) text).2 := by
  induction text generalizing room with
  | nil => contradiction
  | cons a rest ih =>
      rw [readsFrom, readPiece]
      by_cases heol : a = R.eol
      · rw [if_pos (.inl heol), if_pos heol]
        rfl
      · cases room with
        | zero =>
            rw [if_pos (.inr rfl), if_neg heol]
            cases rest with
            | nil => rfl
            | cons b tail => rfl
        | succ room =>
            rw [if_neg (by simp [heol]), if_neg heol]
            cases rest with
            | nil => rfl
            | cons b tail =>
                rw [Nat.add_sub_cancel, ih room (List.cons_ne_nil b tail)]
                rfl

/-- One read after the other, until nothing is left. -/
theorem reads_eq {text : List A} (hne : text ≠ []) :
    R.reads text = (R.readPiece R.capacity text).1 ::
      R.reads (R.readPiece R.capacity text).2 := by
  have hroom : R.capacity - 1 + 1 = R.capacity :=
    Nat.sub_add_cancel R.capacity_pos
  have heq := R.readsFrom_eq (R.capacity - 1) hne
  rw [hroom] at heq
  exact heq

/-- A line end starts a new piece. -/
theorem readsFrom_append_eol (room : Nat) (body rest : List A) :
    R.readsFrom room (body ++ R.eol :: rest) =
      R.readsFrom room (body ++ [R.eol]) ++ R.reads rest := by
  induction body generalizing room with
  | nil => simp [readsFrom, reads]
  | cons a body ih =>
      rw [List.cons_append, readsFrom, List.cons_append, readsFrom]
      split
      · rw [ih, List.cons_append]
      · rw [ih]
        cases hparts : R.readsFrom (room - 1) (body ++ [R.eol]) with
        | nil =>
            have hflat := R.flatten_readsFrom (room - 1) (body ++ [R.eol])
            rw [hparts] at hflat
            simp at hflat
        | cons part parts => rfl

/-- The pieces of a text are those of its lines. -/
theorem reads_eq_flatMap (text : List A) :
    R.reads text = (R.lines text).flatMap R.reads := by
  induction text using R.line_induction with
  | nil => rfl
  | last text hne htext =>
      rw [R.lines_of_notMem hne htext, List.flatMap_singleton]
  | line body rest hbody ih =>
      rw [R.lines_append_eol hbody, List.flatMap_cons, ← ih]
      exact R.readsFrom_append_eol _ body rest

/-- Reading on after some lines are deleted. -/
theorem reads_filter (keep : List A → Bool) (text : List A) :
    R.reads ((R.lines text).filter keep).flatten =
      ((R.lines text).filter keep).flatMap R.reads := by
  rw [R.reads_eq_flatMap, R.lines_filter]

theorem readsFrom_body {body : List A} {room : Nat} (hbody : R.eol ∉ body)
    (hshort : body.length ≤ room) :
    R.readsFrom room (body ++ [R.eol]) = [body ++ [R.eol]] := by
  induction body generalizing room with
  | nil => simp [readsFrom]
  | cons a body ih =>
      have hne : a ≠ R.eol := fun heq => hbody (heq ▸ List.mem_cons_self)
      rw [List.length_cons] at hshort
      have hroom : room ≠ 0 := by omega
      have htail := ih (fun hin => hbody (List.mem_cons_of_mem _ hin))
        (Nat.le_sub_one_of_lt hshort)
      rw [List.cons_append, readsFrom, if_neg (not_or.mpr ⟨hne, hroom⟩), htail]
      rfl

/-- A line that fits into the buffer arrives in one piece. -/
theorem reads_line {body : List A} (hbody : R.eol ∉ body)
    (hshort : body.length < R.capacity) :
    R.reads (body ++ [R.eol]) = [body ++ [R.eol]] :=
  R.readsFrom_body hbody (Nat.le_sub_one_of_lt hshort)

theorem readsFrom_of_notMem {text : List A} {room : Nat} (hne : text ≠ [])
    (htext : R.eol ∉ text) (hshort : text.length ≤ room + 1) :
    R.readsFrom room text = [text] := by
  induction text generalizing room with
  | nil => contradiction
  | cons a rest ih =>
      have ha : a ≠ R.eol := fun heq => htext (heq ▸ List.mem_cons_self)
      rw [List.length_cons] at hshort
      cases rest with
      | nil =>
          rw [readsFrom]
          split <;> rfl
      | cons b tail =>
          rw [List.length_cons] at hshort
          have hroom : room ≠ 0 := by omega
          have htail := @ih (room - 1) (List.cons_ne_nil b tail)
            (fun hin => htext (List.mem_cons_of_mem _ hin))
            (by rw [List.length_cons]; omega)
          rw [readsFrom, if_neg (not_or.mpr ⟨ha, hroom⟩), htail]
          rfl

/-- A line of a text that fits into the buffer arrives in one piece. -/
theorem reads_of_mem_lines {text line : List A} (hline : line ∈ R.lines text)
    (hshort : line.length ≤ R.capacity) : R.reads line = [line] := by
  have hpos := R.capacity_pos
  induction text using R.line_induction with
  | nil => contradiction
  | last text hne htext =>
      rw [R.lines_of_notMem hne htext, List.mem_singleton] at hline
      subst hline
      exact R.readsFrom_of_notMem hne htext (by omega)
  | line body rest hbody ih =>
      rw [R.lines_append_eol hbody] at hline
      rcases List.mem_cons.mp hline with rfl | hrest
      · rw [List.length_append, List.length_singleton] at hshort
        exact R.reads_line hbody (by omega)
      · exact ih hrest

/-- Lines that fit into the buffer arrive one by one. -/
theorem reads_flatMap_line {bodies : List (List A)}
    (hbodies : ∀ body ∈ bodies, R.eol ∉ body ∧ body.length < R.capacity) :
    R.reads (bodies.flatMap fun body => body ++ [R.eol]) =
      bodies.map fun body => body ++ [R.eol] := by
  induction bodies with
  | nil => rfl
  | cons body rest ih =>
      obtain ⟨hbody, hshort⟩ := hbodies body List.mem_cons_self
      rw [List.flatMap_cons, List.append_assoc, List.singleton_append]
      have hsplit := R.readsFrom_append_eol (R.capacity - 1) body
        (rest.flatMap fun body => body ++ [R.eol])
      have hrest := ih fun other hother =>
        hbodies other (List.mem_cons_of_mem _ hother)
      exact hsplit.trans (congrArg₂ (· ++ ·) (R.reads_line hbody hshort) hrest)

end LineReader

/-! ### Words -/

namespace Words

variable {A : Type u} (isDelim isSpace : A → Bool)

/-- The next word, and what follows the delimiter behind it. -/
def next (text : List A) : Option (List A) × List A :=
  match text.dropWhile isDelim with
  | [] => (none, [])
  | a :: rest =>
      (some ((a :: rest).takeWhile fun b => !isDelim b),
        ((a :: rest).dropWhile fun b => !isDelim b).tail)

/-- The text without the space around it. -/
def trim (text : List A) : List A :=
  (text.dropWhile isSpace).rdropWhile isSpace

/-- A text that starts and ends with no space. -/
structure Trimmed (text : List A) : Prop where
  ne_nil : text ≠ []
  head : ∀ hne : text ≠ [], isSpace (text.head hne) = false
  last : ∀ hne : text ≠ [], isSpace (text.getLast hne) = false

variable {isDelim isSpace}

/-- A word and the delimiter behind it are taken off the front. -/
theorem next_append {word : List A} {delim : A} (hne : word ≠ [])
    (hword : ∀ a ∈ word, isDelim a = false) (hdelim : isDelim delim = true)
    (rest : List A) :
    next isDelim (word ++ delim :: rest) = (some word, rest) := by
  cases word with
  | nil => contradiction
  | cons a word =>
      have ha := hword a List.mem_cons_self
      have hfirst : ((a :: word) ++ delim :: rest).dropWhile isDelim =
          a :: (word ++ delim :: rest) := by
        rw [List.cons_append, List.dropWhile_cons_of_neg (by simp [ha])]
      have htake : (a :: (word ++ delim :: rest)).takeWhile
          (fun b => !isDelim b) = a :: word := by
        rw [← List.cons_append,
          List.takeWhile_append_of_pos (by simpa using hword),
          List.takeWhile_cons_of_neg (by simp [hdelim]), List.append_nil]
      have hdrop : (a :: (word ++ delim :: rest)).dropWhile
          (fun b => !isDelim b) = delim :: rest := by
        rw [← List.cons_append,
          List.dropWhile_append_of_pos (by simpa using hword),
          List.dropWhile_cons_of_neg (by simp [hdelim])]
      simp only [next, hfirst, htake, hdrop, List.tail_cons]

/-- Space behind a trimmed text is cut off. -/
theorem trim_concat {text : List A} {a : A} (htext : Trimmed isSpace text)
    (ha : isSpace a = true) : trim isSpace (text ++ [a]) = text := by
  have hfront : (text ++ [a]).dropWhile isSpace = text ++ [a] := by
    cases text with
    | nil => exact absurd rfl htext.ne_nil
    | cons b rest =>
        have hb := htext.head htext.ne_nil
        exact List.dropWhile_cons_of_neg (by simpa using hb)
  rw [trim, hfront, List.rdropWhile_concat_pos _ _ _ ha,
    List.rdropWhile_eq_self_iff]
  intro hne
  simp [htext.last hne]

end Words
