/-
Programs on an allocator and the names of the blocks they own.  Blocks have no
size and no content here: every allocation succeeds, and no write leaves its
block.  A program faults when it frees or uses a block that is not live.  Its
triple says what it does with the blocks it owns, whatever others are live:
which it owns in the end, and how many it has lost, that is, left live without
a pointer to them.
-/
import Mathlib.Data.List.Nodup
import Mathlib.Data.List.Perm.Basic

namespace Ownership

universe u

abbrev Block := Nat

/-- The names of the live blocks, and of the block that is allocated next. -/
structure Heap where
  live : List Block := []
  next : Block := 0
deriving DecidableEq, Repr

/-- A program on the heap; `none` is a fault. -/
abbrev HeapM := StateT Heap Option

/-- The allocation succeeds, whatever its size; the name of a block is never
used again. -/
def malloc : HeapM Block := fun h =>
  some (h.next, { live := h.next :: h.live, next := h.next + 1 })

/-- Freeing the null pointer does nothing. -/
def free : Option Block → HeapM Unit
  | none => fun h => some ((), h)
  | some b => fun h =>
      if b ∈ h.live then some ((), { h with live := h.live.erase b }) else none

/-- Read or write through a pointer. -/
def deref : Option Block → HeapM Unit
  | none => fun _ => none
  | some b => fun h => if b ∈ h.live then some ((), h) else none

theorem free_live {h : Heap} {b : Block} (hb : b ∈ h.live) :
    free (some b) h = some ((), { h with live := h.live.erase b }) :=
  if_pos hb

theorem deref_live {h : Heap} {b : Block} (hb : b ∈ h.live) :
    deref (some b) h = some ((), h) :=
  if_pos hb

/-! ### The ledger -/

/-- The live blocks are those of `own` and `lost` more. -/
structure Ledger (h : Heap) (own : List Block) (lost : Nat) : Prop where
  nodup : h.live.Nodup
  fresh : ∀ b ∈ h.live, b < h.next
  accounted : ∃ gone, h.live.Perm (own ++ gone) ∧ gone.length = lost

namespace Ledger

variable {h : Heap} {own own' : List Block} {lost : Nat}

theorem perm (hledger : Ledger h own lost) (hperm : own.Perm own') :
    Ledger h own' lost := by
  obtain ⟨gone, hlive, hlost⟩ := hledger.accounted
  exact ⟨hledger.nodup, hledger.fresh, gone,
    hlive.trans (hperm.append_right gone), hlost⟩

theorem mem_live {b : Block} (hledger : Ledger h own lost) (hb : b ∈ own) :
    b ∈ h.live := by
  obtain ⟨gone, hlive, -⟩ := hledger.accounted
  exact hlive.mem_iff.mpr (List.mem_append_left _ hb)

theorem malloc (hledger : Ledger h own lost) :
    Ledger { live := h.next :: h.live, next := h.next + 1 } (h.next :: own)
      lost := by
  obtain ⟨gone, hlive, hlost⟩ := hledger.accounted
  refine ⟨?_, ?_, gone, hlive.cons h.next, hlost⟩
  · refine List.nodup_cons.mpr ⟨fun hnext => ?_, hledger.nodup⟩
    exact Nat.lt_irrefl _ (hledger.fresh _ hnext)
  · intro b hb
    rcases List.mem_cons.mp hb with rfl | hold
    · exact Nat.lt_succ_self _
    · exact Nat.lt_succ_of_lt (hledger.fresh b hold)

theorem free {b : Block} (hledger : Ledger h (b :: own) lost) :
    Ledger { h with live := h.live.erase b } own lost := by
  obtain ⟨gone, hlive, hlost⟩ := hledger.accounted
  refine ⟨hledger.nodup.erase b, ?_, gone, ?_, hlost⟩
  · intro b' hb'
    exact hledger.fresh b' (List.mem_of_mem_erase hb')
  · have herase := hlive.erase b
    rwa [List.cons_append, List.erase_cons_head] at herase

/-- The pointers to the blocks `gone` are overwritten. -/
theorem lose {gone : List Block} (hledger : Ledger h (gone ++ own) lost) :
    Ledger h own (lost + gone.length) := by
  obtain ⟨before, hlive, hlost⟩ := hledger.accounted
  refine ⟨hledger.nodup, hledger.fresh, gone ++ before, hlive.trans ?_, ?_⟩
  · rw [← List.append_assoc]
    exact List.perm_append_comm.append_right before
  · rw [List.length_append, hlost, Nat.add_comm]

end Ledger

/-! ### Triples -/

variable {α β : Type}

/-- Where the program owns the blocks `own`, among any others, it does not fault,
and `post` relates its result, the blocks it then owns and how many it has
lost. -/
def Triple (own : List Block) (prog : HeapM α)
    (post : α → List Block → Nat → Prop) : Prop :=
  ∀ h frame n, Ledger h (own ++ frame) n → ∃ a h' keep lost,
    prog h = some (a, h') ∧ post a keep lost ∧
      Ledger h' (keep ++ frame) (n + lost)

namespace Triple

variable {own own' rest : List Block} {prog : HeapM α} {f : α → HeapM β}
  {post post' : α → List Block → Nat → Prop} {a : α}
  {after : β → List Block → Nat → Prop}

theorem mono (htriple : Triple own prog post)
    (himp : ∀ a keep lost, post a keep lost → post' a keep lost) :
    Triple own prog post' := by
  intro h frame n hledger
  obtain ⟨a, h', keep, lost, hrun, hpost, hledger'⟩ := htriple h frame n hledger
  exact ⟨a, h', keep, lost, hrun, himp a keep lost hpost, hledger'⟩

theorem perm (hperm : own.Perm own') (htriple : Triple own' prog post) :
    Triple own prog post := by
  intro h frame n hledger
  exact htriple h frame n (hledger.perm (hperm.append_right frame))

/-- A program leaves the blocks it does not own alone. -/
theorem frame (more : List Block) (htriple : Triple own prog post) :
    Triple (own ++ more) prog fun a keep lost =>
      ∃ mine, keep = mine ++ more ∧ post a mine lost := by
  intro h others n hledger
  rw [List.append_assoc] at hledger
  obtain ⟨a, h', mine, lost, hrun, hpost, hledger'⟩ := htriple h _ n hledger
  refine ⟨a, h', mine ++ more, lost, hrun, ⟨mine, rfl, hpost⟩, ?_⟩
  rwa [List.append_assoc]

protected theorem pure (hpost : post a own 0) :
    Triple own (pure a) post := by
  intro h frame n hledger
  exact ⟨a, h, own, 0, rfl, hpost, hledger⟩

protected theorem bind {mid : α → List Block → Nat → Prop}
    (hprog : Triple own prog mid)
    (hf : ∀ a keep lost, mid a keep lost →
      Triple keep (f a) fun b kept more => after b kept (lost + more)) :
    Triple own (prog >>= f) after := by
  intro h frame n hledger
  obtain ⟨a, h₁, keep, lost, hrun, hmid, hledger₁⟩ := hprog h frame n hledger
  obtain ⟨b, h₂, kept, more, hrun', hafter, hledger₂⟩ :=
    hf a keep lost hmid h₁ frame _ hledger₁
  refine ⟨b, h₂, kept, lost + more, ?_, hafter, ?_⟩
  · show (prog h).bind _ = _
    rw [hrun]
    exact hrun'
  · rwa [← Nat.add_assoc]

/-- A program that loses nothing, on a part of the blocks, before another one. -/
theorem seq {whole more : List Block} {blocks : α → List Block} {P : α → Prop}
    (hprog : Triple own prog fun a keep lost =>
      keep.Perm (blocks a) ∧ lost = 0 ∧ P a)
    (hperm : whole.Perm (own ++ more))
    (hf : ∀ a, P a → Triple (blocks a ++ more) (f a) after) :
    Triple whole (prog >>= f) after := by
  refine perm hperm ((hprog.frame more).bind fun a keep lost hmid => ?_)
  obtain ⟨mine, rfl, hmine, rfl, hP⟩ := hmid
  refine (perm (hmine.append_right more) (hf a hP)).mono
    fun b kept lost hafter => ?_
  rwa [Nat.zero_add]

/-- The pointers to the blocks `gone` are overwritten. -/
theorem lose {gone : List Block} (hperm : own.Perm (gone ++ rest))
    (htriple : Triple rest prog fun a keep lost =>
      post a keep (gone.length + lost)) :
    Triple own prog post := by
  intro h frame n hledger
  have hown := hledger.perm (hperm.append_right frame)
  rw [List.append_assoc] at hown
  obtain ⟨a, h', keep, lost, hrun, hpost, hledger'⟩ :=
    htriple h frame _ hown.lose
  refine ⟨a, h', keep, _, hrun, hpost, ?_⟩
  rwa [← Nat.add_assoc]

/-! One rule for each command, in front of the rest of the program. -/

theorem malloc_bind {f : Block → HeapM β}
    (hf : ∀ b, Triple (b :: own) (f b) after) :
    Triple own (malloc >>= f) after := by
  intro h frame n hledger
  exact hf h.next _ frame n hledger.malloc

theorem free_bind {p : Option Block} {f : Unit → HeapM β}
    (hperm : own.Perm (p.toList ++ rest)) (hf : Triple rest (f ()) after) :
    Triple own (free p >>= f) after := by
  intro h frame n hledger
  have hown := hledger.perm (hperm.append_right frame)
  cases p with
  | none => exact hf h frame n hown
  | some b =>
      obtain ⟨a, h', keep, lost, hrun, hpost, hledger'⟩ :=
        hf _ frame n hown.free
      refine ⟨a, h', keep, lost, ?_, hpost, hledger'⟩
      show (free (some b) h).bind _ = _
      rw [free_live (hown.mem_live List.mem_cons_self)]
      exact hrun

theorem deref_bind {b : Block} {f : Unit → HeapM β} (hb : b ∈ own)
    (hf : Triple own (f ()) after) :
    Triple own (deref (some b) >>= f) after := by
  intro h frame n hledger
  obtain ⟨a, h', keep, lost, hrun, hpost, hledger'⟩ := hf h frame n hledger
  refine ⟨a, h', keep, lost, ?_, hpost, hledger'⟩
  show (deref (some b) h).bind _ = _
  rw [deref_live (hledger.mem_live (List.mem_append_left _ hb))]
  exact hrun

theorem free {p : Option Block} {post : Unit → List Block → Nat → Prop}
    (hperm : own.Perm (p.toList ++ rest)) (hpost : post () rest 0) :
    Triple own (Ownership.free p) post := by
  rw [← bind_pure (Ownership.free p)]
  exact free_bind hperm (.pure hpost)

theorem deref {b : Block} {post : Unit → List Block → Nat → Prop}
    (hb : b ∈ own) (hpost : post () own 0) :
    Triple own (Ownership.deref (some b)) post := by
  rw [← bind_pure (Ownership.deref (some b))]
  exact deref_bind hb (.pure hpost)

end Triple

/-- A heap as an allocator leaves it. -/
structure Heap.Valid (h : Heap) : Prop where
  nodup : h.live.Nodup
  fresh : ∀ b ∈ h.live, b < h.next

/-- A program that starts without blocks and keeps none leaves those that were
live before and the ones it has lost. -/
theorem Triple.leaves {prog : HeapM α} {post : α → Nat → Prop}
    (htriple : Triple [] prog fun a keep lost => keep = [] ∧ post a lost)
    {h : Heap} (hvalid : h.Valid) :
    ∃ a h' gone, prog h = some (a, h') ∧ h'.Valid ∧
      h'.live.Perm (h.live ++ gone) ∧ post a gone.length := by
  have hledger : Ledger h ([] ++ h.live) 0 :=
    ⟨hvalid.nodup, hvalid.fresh, [], by simp, rfl⟩
  obtain ⟨a, h', keep, lost, hrun, ⟨rfl, hpost⟩, hledger'⟩ :=
    htriple h h.live 0 hledger
  obtain ⟨gone, hlive, hlength⟩ := hledger'.accounted
  refine ⟨a, h', gone, hrun, ⟨hledger'.nodup, hledger'.fresh⟩, hlive, ?_⟩
  rwa [hlength, Nat.zero_add]

end Ownership
