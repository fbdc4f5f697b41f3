/-
Self-delimiting encodings.  A code word can be read off the front of any
stream, so a concatenation of code words determines the words it is made of.
-/
import Mathlib.Data.List.Basic

universe u v

/-- An encoding whose decoder reads one word off the front of a stream and
leaves the rest alone, and reads nothing but encodings. -/
structure PrefixCode (A : Type u) (B : Type v) where
  encode : A → List B
  decode : List B → Option (A × List B)
  decode_encode : ∀ a rest, decode (encode a ++ rest) = some (a, rest)
  encode_of_decode : ∀ {stream a rest}, decode stream = some (a, rest) →
    stream = encode a ++ rest
  encode_ne_nil : ∀ a, encode a ≠ []

namespace PrefixCode

variable {A : Type u} {B : Type v} (C : PrefixCode A B)

def encodeAll (words : List A) : List B :=
  words.flatMap C.encode

@[simp] theorem encodeAll_nil : C.encodeAll [] = [] := rfl

@[simp] theorem encodeAll_cons (a : A) (words : List A) :
    C.encodeAll (a :: words) = C.encode a ++ C.encodeAll words := by
  simp [encodeAll]

@[simp] theorem encodeAll_append (front back : List A) :
    C.encodeAll (front ++ back) = C.encodeAll front ++ C.encodeAll back := by
  simp [encodeAll]

theorem encode_length_pos (a : A) : 0 < (C.encode a).length :=
  List.length_pos_iff.mpr (C.encode_ne_nil a)

@[simp] theorem decode_encode_self (a : A) :
    C.decode (C.encode a) = some (a, []) := by
  simpa using C.decode_encode a []

/-- Two streams that start with a code word and agree start with the same one. -/
theorem encode_append_inj {a b : A} {x y : List B}
    (heq : C.encode a ++ x = C.encode b ++ y) : a = b ∧ x = y := by
  have hread : some (a, x) = some (b, y) := by
    rw [← C.decode_encode a x, heq, C.decode_encode b y]
  simpa using hread

theorem encodeAll_eq_nil {words : List A} (heq : C.encodeAll words = []) :
    words = [] := by
  cases words with
  | nil => rfl
  | cons a rest =>
      have hempty : C.encode a = [] := by
        rw [encodeAll_cons] at heq
        exact List.append_eq_nil_iff.mp heq |>.1
      exact absurd hempty (C.encode_ne_nil a)

/-- A word list whose encoding starts with the word `a` starts with `a`. -/
theorem encodeAll_eq_encode_append {words : List A} {a : A} {rest : List B}
    (heq : C.encodeAll words = C.encode a ++ rest) :
    ∃ tail, words = a :: tail ∧ C.encodeAll tail = rest := by
  cases words with
  | nil =>
      have hempty : C.encode a = [] := List.append_eq_nil_iff.mp heq.symm |>.1
      exact absurd hempty (C.encode_ne_nil a)
  | cons b tail =>
      rw [encodeAll_cons] at heq
      obtain ⟨rfl, hrest⟩ := C.encode_append_inj heq
      exact ⟨tail, rfl, hrest⟩

theorem encodeAll_injective {words words' : List A}
    (heq : C.encodeAll words = C.encodeAll words') : words = words' := by
  induction words generalizing words' with
  | nil => exact (C.encodeAll_eq_nil heq.symm).symm
  | cons a rest ih =>
      rw [encodeAll_cons] at heq
      obtain ⟨tail, rfl, htail⟩ := C.encodeAll_eq_encode_append heq.symm
      rw [ih htail.symm]

/-- Split a whole stream into words, with a bound on their number. -/
def decodeUpTo : Nat → List B → Option (List A)
  | _, [] => some []
  | 0, _ :: _ => none
  | n + 1, b :: rest =>
      match C.decode (b :: rest) with
      | some (a, left) => (decodeUpTo n left).map (a :: ·)
      | none => none

/-- Split a whole stream into words: a word takes at least one letter. -/
def decodeAll (stream : List B) : Option (List A) :=
  C.decodeUpTo stream.length stream

theorem decodeUpTo_encodeAll (words : List A) (n : Nat)
    (hn : (C.encodeAll words).length ≤ n) :
    C.decodeUpTo n (C.encodeAll words) = some words := by
  induction words generalizing n with
  | nil => simp [decodeUpTo]
  | cons a rest ih =>
      have hpos := C.encode_length_pos a
      rw [encodeAll_cons, List.length_append] at hn
      obtain ⟨m, rfl⟩ : ∃ m, n = m + 1 := ⟨n - 1, by omega⟩
      have hread := C.decode_encode a (C.encodeAll rest)
      rw [encodeAll_cons]
      cases hword : C.encode a ++ C.encodeAll rest with
      | nil =>
          exact absurd (List.append_eq_nil_iff.mp hword).1 (C.encode_ne_nil a)
      | cons b left =>
          rw [hword] at hread
          simp only [decodeUpTo, hread, ih m (by omega), Option.map_some]

theorem encodeAll_of_decodeUpTo {n : Nat} {stream : List B} {words : List A}
    (heq : C.decodeUpTo n stream = some words) :
    stream = C.encodeAll words := by
  induction n generalizing stream words with
  | zero =>
      cases stream with
      | nil => simp only [decodeUpTo, Option.some.injEq] at heq; simp [← heq]
      | cons b left => simp [decodeUpTo] at heq
  | succ n ih =>
      cases stream with
      | nil => simp only [decodeUpTo, Option.some.injEq] at heq; simp [← heq]
      | cons b left =>
          simp only [decodeUpTo] at heq
          split at heq
          · next a rest hread =>
              obtain ⟨tail, htail, rfl⟩ := Option.map_eq_some_iff.mp heq
              rw [C.encode_of_decode hread, ih htail, encodeAll_cons]
          · contradiction

/-- A stream splits into `words` exactly when it is their concatenation. -/
theorem decodeAll_eq_some_iff {stream : List B} {words : List A} :
    C.decodeAll stream = some words ↔ stream = C.encodeAll words := by
  constructor
  · exact C.encodeAll_of_decodeUpTo
  · rintro rfl
    exact C.decodeUpTo_encodeAll words _ (Nat.le_refl _)

end PrefixCode
