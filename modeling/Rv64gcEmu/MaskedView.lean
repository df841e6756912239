import Mathlib.Tactic.Common

namespace MaskedView

variable {σ : Type} {w : Nat}

/-- The bits of a value inside a mask, and those of the old word outside of it. -/
def merge (mask old value : BitVec w) : BitVec w := (old &&& ~~~mask) ||| (value &&& mask)

section Merge

variable {mask old value : BitVec w}

theorem getLsbD_merge {i : Nat} (hi : i < w) : (merge mask old value).getLsbD i =
    if mask.getLsbD i then value.getLsbD i else old.getLsbD i := by
  rw [merge, BitVec.getLsbD_or, BitVec.getLsbD_and, BitVec.getLsbD_and, BitVec.getLsbD_not]
  cases mask.getLsbD i <;> simp [hi]

theorem merge_and_mask : merge mask old value &&& mask = value &&& mask := by
  apply BitVec.eq_of_getLsbD_eq
  intro i hi
  rw [BitVec.getLsbD_and, BitVec.getLsbD_and, getLsbD_merge hi]
  cases mask.getLsbD i <;> simp

theorem merge_and_not_mask : merge mask old value &&& ~~~mask = old &&& ~~~mask := by
  apply BitVec.eq_of_getLsbD_eq
  intro i hi
  rw [BitVec.getLsbD_and, BitVec.getLsbD_and, BitVec.getLsbD_not, getLsbD_merge hi]
  cases mask.getLsbD i <;> simp [hi]

theorem merge_merge (value' : BitVec w) :
    merge mask (merge mask old value) value' = merge mask old value' := by
  apply BitVec.eq_of_getLsbD_eq
  intro i hi
  rw [getLsbD_merge hi, getLsbD_merge hi, getLsbD_merge hi]
  split <;> rfl

/-- Writing back what was read, through a mask that hides none of the bits written. -/
theorem merge_read {readMask : BitVec w} (h : mask &&& readMask = mask) :
    merge mask old (old &&& readMask) = old := by
  apply BitVec.eq_of_getLsbD_eq
  intro i hi
  rw [getLsbD_merge hi]
  split
  next hm =>
    have hr : readMask.getLsbD i = true := by
      rw [← h, BitVec.getLsbD_and, Bool.and_eq_true] at hm
      exact hm.2
    rw [BitVec.getLsbD_and, hr, Bool.and_true]
  next => rfl

end Merge

/-- A cell of a state that is read through one mask and written through another. The masks
may be part of the state, but not of the cell. -/
structure MaskedCell (σ : Type) (w : Nat) where
  get : σ → BitVec w
  set : σ → BitVec w → σ
  readMask : σ → BitVec w
  writeMask : σ → BitVec w
  get_set : ∀ s v, get (set s v) = v
  set_get : ∀ s, set s (get s) = s
  set_set : ∀ s v v', set (set s v) v' = set s v'
  readMask_set : ∀ s v, readMask (set s v) = readMask s
  writeMask_set : ∀ s v, writeMask (set s v) = writeMask s
  writeMask_le : ∀ s, writeMask s &&& readMask s = writeMask s

namespace MaskedCell

variable (c : MaskedCell σ w)

def load (s : σ) : BitVec w := c.get s &&& c.readMask s

def store (s : σ) (v : BitVec w) : σ := c.set s (merge (c.writeMask s) (c.get s) v)

theorem get_store (s : σ) (v : BitVec w) : c.get (c.store s v) = merge (c.writeMask s) (c.get s) v :=
  c.get_set s _

theorem store_load (s : σ) : c.store s (c.load s) = s := by
  rw [store, load, merge_read (c.writeMask_le s), c.set_get]

theorem store_store (s : σ) (v v' : BitVec w) : c.store (c.store s v) v' = c.store s v' := by
  have hget := c.get_store s v
  unfold store at hget ⊢
  rw [hget, c.set_set, c.writeMask_set, merge_merge]

theorem load_store (s : σ) (v : BitVec w) (h : c.writeMask s = c.readMask s) :
    c.load (c.store s v) = v &&& c.readMask s := by
  have hmask : c.readMask (c.store s v) = c.readMask s := c.readMask_set s _
  rw [load, hmask, c.get_store, h, merge_and_mask]

end MaskedCell

end MaskedView
