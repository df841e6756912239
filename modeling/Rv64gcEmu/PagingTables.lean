import Rv64gcEmu.Paging

namespace Paging

/-- Some walk reads the word. -/
def Reads (mem : Memory) (root : BitVec 64) (levels : Nat) (x : BitVec 64) : Prop :=
  ∃ va, x ∈ walkReads mem va root levels

section Walk

variable {mem mem' : Memory} {va table : BitVec 64} {n : Nat}

/-- Marks on the words that a walk reads do not change it. -/
theorem walk_of_reads (h : ∀ x ∈ walkReads mem va table n, SameButMarks (mem' x) (mem x)) :
    walk mem' va table n =
      (walk mem va table n).map fun leaf => { leaf with pte := mem' leaf.addr } := by
  induction n generalizing table with
  | zero => rfl
  | succ i ih =>
    simp only [walkReads] at h
    have hs : SameButMarks (mem' (entryAddr table va i)) (mem (entryAddr table va i)) := by
      refine h _ ?_
      split <;> exact List.mem_cons_self
    simp only [walk, hs.invalid_eq, hs.isLeaf_eq, nextTable, hs.ppn_eq]
    split
    next => rfl
    next hv =>
      split
      next => rfl
      next hl =>
        refine ih fun x hx => h x ?_
        rw [if_neg (by simp [hv, hl])]
        exact List.mem_cons_of_mem _ hx

theorem walkReads_of_reads (h : ∀ x ∈ walkReads mem va table n, SameButMarks (mem' x) (mem x)) :
    walkReads mem' va table n = walkReads mem va table n := by
  induction n generalizing table with
  | zero => rfl
  | succ i ih =>
    simp only [walkReads] at h ⊢
    have hs : SameButMarks (mem' (entryAddr table va i)) (mem (entryAddr table va i)) := by
      refine h _ ?_
      split <;> exact List.mem_cons_self
    simp only [hs.invalid_eq, hs.isLeaf_eq, nextTable, hs.ppn_eq]
    split
    next => rfl
    next hl =>
      refine congrArg _ (ih fun x hx => h x ?_)
      rw [if_neg hl]
      exact List.mem_cons_of_mem _ hx

theorem walkReads_aligned (ht : table.toNat % 8 = 0) {x : BitVec 64}
    (hx : x ∈ walkReads mem va table n) : x.toNat % 8 = 0 := by
  induction n generalizing table with
  | zero => cases hx
  | succ i ih =>
    simp only [walkReads] at hx
    split at hx
    next =>
      obtain rfl := List.mem_singleton.mp hx
      exact entryAddr_aligned ht va i
    next =>
      rcases List.mem_cons.mp hx with rfl | hx
      · exact entryAddr_aligned ht va i
      · exact ih (nextTable_aligned _) hx

end Walk

/-- The words that walks read differ in their marks at most. -/
def SameTables (mem mem' : Memory) (root : BitVec 64) (levels : Nat) : Prop :=
  ∀ x, Reads mem root levels x → SameButMarks (mem' x) (mem x)

namespace SameTables

variable {mem mem' mem'' : Memory} {root : BitVec 64} {levels : Nat}

theorem refl (mem : Memory) (root : BitVec 64) (levels : Nat) : SameTables mem mem root levels :=
  fun x _ => .refl (mem x)

theorem walk (h : SameTables mem mem' root levels) (va : BitVec 64) : walk mem' va root levels =
    (Paging.walk mem va root levels).map fun leaf => { leaf with pte := mem' leaf.addr } :=
  walk_of_reads fun x hx => h x ⟨va, hx⟩

theorem walkReads (h : SameTables mem mem' root levels) (va : BitVec 64) :
    walkReads mem' va root levels = Paging.walkReads mem va root levels :=
  walkReads_of_reads fun x hx => h x ⟨va, hx⟩

theorem reads (h : SameTables mem mem' root levels) {x : BitVec 64} :
    Reads mem' root levels x ↔ Reads mem root levels x := by
  unfold Reads
  simp only [h.walkReads]

theorem trans (h : SameTables mem mem' root levels) (h' : SameTables mem' mem'' root levels) :
    SameTables mem mem'' root levels := fun x hx => (h' x (h.reads.mpr hx)).trans (h x hx)

/-- Words that are not read at all may change. -/
theorem of_eq (h : ∀ x, Reads mem root levels x → mem' x = mem x) :
    SameTables mem mem' root levels := by
  intro x hx
  rw [h x hx]
  exact .refl _

end SameTables

/-- A memory with the same tables has the same walks. -/
theorem walk_eq_of_reads {mem mem' : Memory} {root : BitVec 64} {levels : Nat}
    (h : ∀ x, Reads mem root levels x → mem' x = mem x) (va : BitVec 64) :
    walk mem' va root levels = walk mem va root levels := by
  rw [(SameTables.of_eq h).walk]
  cases hw : walk mem va root levels with
  | none => rfl
  | some leaf =>
    have hpte := h leaf.addr ⟨va, walk_mem_reads hw⟩
    rw [← walk_pte hw] at hpte
    rw [Option.map_some, hpte]

end Paging
