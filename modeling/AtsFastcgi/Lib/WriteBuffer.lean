/-
A buffer that is written through a cursor.  What lies in front of the cursor
has been written for good; a write that does not move the cursor is
overwritten by the next one, but the memory it used is gone.
-/
import Mathlib.Data.List.Basic

universe u

/-- The memory that has been written so far, from the start of the buffer, and
a cursor into it. -/
structure WriteBuffer (A : Type u) where
  mem : List A := []
  pos : Nat := 0
  pos_le : pos ≤ mem.length := by decide

namespace WriteBuffer

variable {A : Type u} (w : WriteBuffer A)

/-- What lies in front of the cursor. -/
def written : List A := w.mem.take w.pos

/-- The number of cells that have been used. -/
def extent : Nat := w.mem.length

/-- Write at the cursor and leave it where it is. -/
def put (data : List A) : WriteBuffer A where
  mem := w.written ++ data ++ w.mem.drop (w.pos + data.length)
  pos := w.pos
  pos_le := by
    simp only [written, List.append_assoc, List.length_append,
      List.length_take, Nat.min_eq_left w.pos_le]
    exact Nat.le_add_right _ _

/-- Write at the cursor and move it behind what was written. -/
def append (data : List A) : WriteBuffer A where
  mem := w.written ++ data ++ w.mem.drop (w.pos + data.length)
  pos := w.pos + data.length
  pos_le := by
    simp only [written, List.length_append, List.length_take,
      Nat.min_eq_left w.pos_le]
    exact Nat.le_add_right _ _

/-- The cursor goes back to the start. -/
def rewind : WriteBuffer A where
  mem := w.mem
  pos := 0
  pos_le := Nat.zero_le _

@[simp] theorem written_length : w.written.length = w.pos := by
  rw [written, List.length_take, Nat.min_eq_left w.pos_le]

@[simp] theorem pos_put (data : List A) : (w.put data).pos = w.pos := rfl

@[simp] theorem pos_append (data : List A) :
    (w.append data).pos = w.pos + data.length := rfl

@[simp] theorem pos_rewind : w.rewind.pos = 0 := rfl

@[simp] theorem written_put (data : List A) :
    (w.put data).written = w.written := by
  have hsplit : (w.put data).mem =
      w.written ++ (data ++ w.mem.drop (w.pos + data.length)) :=
    List.append_assoc _ _ _
  rw [written, hsplit]
  exact List.take_left' w.written_length

@[simp] theorem written_append (data : List A) :
    (w.append data).written = w.written ++ data := by
  have hlen : (w.written ++ data).length = w.pos + data.length := by simp
  rw [written, append]
  exact List.take_left' hlen

@[simp] theorem written_rewind : w.rewind.written = [] := rfl

theorem extent_put (data : List A) :
    (w.put data).extent = max w.extent (w.pos + data.length) := by
  simp only [extent, put, List.length_append, written_length,
    List.length_drop]
  have hle := w.pos_le
  omega

theorem extent_append (data : List A) :
    (w.append data).extent = max w.extent (w.pos + data.length) :=
  w.extent_put data

@[simp] theorem extent_rewind : w.rewind.extent = w.extent := rfl

/-! ### Loops -/

/-- Writing again and again at the same place leaves no trace in front of the
cursor. -/
theorem foldl_put {B : Type u} (f : B → List A) (items : List B) :
    (items.foldl (fun w b => w.put (f b)) w).written = w.written ∧
      (items.foldl (fun w b => w.put (f b)) w).pos = w.pos := by
  induction items generalizing w with
  | nil => exact ⟨rfl, rfl⟩
  | cons b rest ih =>
      obtain ⟨hwritten, hpos⟩ := ih (w.put (f b))
      exact ⟨hwritten.trans (w.written_put (f b)), hpos⟩

/-- It uses no more than one write of all the items. -/
theorem extent_foldl_put_le {B : Type u} (f : B → List A) (items : List B) :
    (items.foldl (fun w b => w.put (f b)) w).extent ≤
      max w.extent (w.pos + (items.flatMap f).length) ∧
    w.extent ≤ (items.foldl (fun w b => w.put (f b)) w).extent := by
  induction items generalizing w with
  | nil => exact ⟨Nat.le_max_left _ _, Nat.le_refl _⟩
  | cons b rest ih =>
      obtain ⟨hle, hge⟩ := ih (w.put (f b))
      rw [extent_put, pos_put] at hle
      rw [extent_put] at hge
      rw [List.foldl_cons, List.flatMap_cons, List.length_append]
      omega

/-- Appending the items one by one is appending all of them. -/
theorem foldl_append {B : Type u} (f : B → List A) (items : List B) :
    (items.foldl (fun w b => w.append (f b)) w).written =
        w.written ++ items.flatMap f ∧
      (items.foldl (fun w b => w.append (f b)) w).pos =
        w.pos + (items.flatMap f).length ∧
      max w.extent (w.pos + (items.flatMap f).length) =
        (items.foldl (fun w b => w.append (f b)) w).extent := by
  induction items generalizing w with
  | nil =>
      have hle := w.pos_le
      simp [extent, hle]
  | cons b rest ih =>
      obtain ⟨hwritten, hpos, hextent⟩ := ih (w.append (f b))
      rw [List.foldl_cons, hwritten, hpos, ← hextent, extent_append,
        written_append, pos_append, List.flatMap_cons, List.length_append]
      refine ⟨List.append_assoc _ _ _, ?_, ?_⟩
      · omega
      · omega

end WriteBuffer
