/-
Encodings with several code words for one value.  A decoder reads one value off
the front of a stream; the encoder writes the shortest word for it, so a stream
of values is at least as long as the words the encoder would write.
-/
import Mathlib.Algebra.Order.BigOperators.Group.List
import Mathlib.Algebra.GroupWithZero.Nat
import Mathlib.Algebra.Order.Group.Nat
import Mathlib.Data.List.Perm.Subperm

universe u v

/-- Different values of a list weigh no more than the whole list. -/
theorem List.sum_map_le_of_subset {A : Type u} {chosen values : List A}
    (hnodup : chosen.Nodup) (hsub : chosen ⊆ values) (f : A → Nat) :
    (chosen.map f).sum ≤ (values.map f).sum := by
  obtain ⟨picked, hperm, hpicked⟩ := List.subperm_of_subset hnodup hsub
  rw [← (hperm.map f).sum_eq]
  exact (hpicked.map f).sum_le_sum fun _ _ => Nat.zero_le _

/-- An encoding whose decoder may accept other words than the encoder writes,
though no shorter ones. -/
structure StreamCode (A : Type u) (B : Type v) where
  encode : A → List B
  decode : List B → Option (A × List B)
  decode_encode : ∀ a rest, decode (encode a ++ rest) = some (a, rest)
  encode_le : ∀ {stream a rest}, decode stream = some (a, rest) →
    (encode a).length + rest.length ≤ stream.length
  encode_ne_nil : ∀ a, encode a ≠ []

namespace StreamCode

variable {A : Type u} {B : Type v} (C : StreamCode A B)

/-- Split a whole stream into values, with a bound on their number. -/
def decodeUpTo : Nat → List B → Option (List A)
  | _, [] => some []
  | 0, _ :: _ => none
  | n + 1, b :: rest =>
      match C.decode (b :: rest) with
      | some (a, left) => (decodeUpTo n left).map (a :: ·)
      | none => none

/-- Split a whole stream into values: each takes at least one letter. -/
def decodeAll (stream : List B) : Option (List A) :=
  C.decodeUpTo stream.length stream

theorem decodeUpTo_flatMap (values : List A) (n : Nat)
    (hn : (values.flatMap C.encode).length ≤ n) :
    C.decodeUpTo n (values.flatMap C.encode) = some values := by
  induction values generalizing n with
  | nil => simp [decodeUpTo]
  | cons a rest ih =>
      have hpos := List.length_pos_iff.mpr (C.encode_ne_nil a)
      rw [List.flatMap_cons, List.length_append] at hn
      obtain ⟨m, rfl⟩ : ∃ m, n = m + 1 := ⟨n - 1, by omega⟩
      have hread := C.decode_encode a (rest.flatMap C.encode)
      rw [List.flatMap_cons]
      cases hword : C.encode a ++ rest.flatMap C.encode with
      | nil =>
          exact absurd (List.append_eq_nil_iff.mp hword).1 (C.encode_ne_nil a)
      | cons b left =>
          rw [hword] at hread
          simp only [decodeUpTo, hread, ih m (by omega), Option.map_some]

/-- What the encoder has written is read back. -/
theorem decodeAll_flatMap (values : List A) :
    C.decodeAll (values.flatMap C.encode) = some values :=
  C.decodeUpTo_flatMap values _ (Nat.le_refl _)

theorem encode_le_of_decodeUpTo {n : Nat} {stream : List B} {values : List A}
    (heq : C.decodeUpTo n stream = some values) :
    (values.map fun a => (C.encode a).length).sum ≤ stream.length := by
  induction n generalizing stream values with
  | zero =>
      cases stream with
      | nil =>
          simp only [decodeUpTo, Option.some.injEq] at heq
          simp [← heq]
      | cons b left => simp [decodeUpTo] at heq
  | succ n ih =>
      cases stream with
      | nil =>
          simp only [decodeUpTo, Option.some.injEq] at heq
          simp [← heq]
      | cons b left =>
          simp only [decodeUpTo] at heq
          split at heq
          · next a rest hread =>
              obtain ⟨tail, htail, rfl⟩ := Option.map_eq_some_iff.mp heq
              have hhead := C.encode_le hread
              have hrest := ih htail
              rw [List.map_cons, List.sum_cons]
              omega
          · contradiction

/-- A stream is at least as long as the shortest words for what it holds. -/
theorem encode_le_of_decodeAll {stream : List B} {values : List A}
    (heq : C.decodeAll stream = some values) :
    (values.map fun a => (C.encode a).length).sum ≤ stream.length :=
  C.encode_le_of_decodeUpTo heq

end StreamCode
