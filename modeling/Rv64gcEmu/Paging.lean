import Rv64gcEmu.BitField

namespace Paging

/-- The three kinds of access a page table entry permits. -/
inductive Kind where
  | load
  | store
  | fetch
  deriving DecidableEq

/-- The doubleword that the memory holds at a physical address. -/
abbrev Memory := BitVec 64 → BitVec 64

def vpn (va : BitVec 64) (i : Nat) : BitVec 9 := va.extractLsb' (12 + i * 9) 9

def ppn (pte : BitVec 64) : BitVec 44 := pte.extractLsb' 10 44

def valid (pte : BitVec 64) : Bool := pte.getLsbD 0
def readable (pte : BitVec 64) : Bool := pte.getLsbD 1
def writable (pte : BitVec 64) : Bool := pte.getLsbD 2
def executable (pte : BitVec 64) : Bool := pte.getLsbD 3
def user (pte : BitVec 64) : Bool := pte.getLsbD 4
def accessed (pte : BitVec 64) : Bool := pte.getLsbD 6
def dirty (pte : BitVec 64) : Bool := pte.getLsbD 7

/-- An entry that no walk gets past. -/
def invalid (pte : BitVec 64) : Bool := !valid pte || (!readable pte && writable pte)

def isLeaf (pte : BitVec 64) : Bool := readable pte || executable pte

/-- `a + va.vpn[i] * PTESIZE`. -/
def entryAddr (table va : BitVec 64) (i : Nat) : BitVec 64 := table + (vpn va i).setWidth 64 * 8

/-- `pte.ppn * PAGESIZE`. -/
def nextTable (pte : BitVec 64) : BitVec 64 := (ppn pte).setWidth 64 * 4096

structure Leaf where
  level : Nat
  addr : BitVec 64
  pte : BitVec 64
  deriving DecidableEq

/-- The search for a leaf with `n` levels to go. -/
def walk (mem : Memory) (va : BitVec 64) (table : BitVec 64) : Nat → Option Leaf
  | 0 => none
  | i + 1 =>
    let addr := entryAddr table va i
    let pte := mem addr
    if invalid pte then none
    else if isLeaf pte then some ⟨i, addr, pte⟩
    else walk mem va (nextTable pte) i

/-- The addresses that the walk reads. -/
def walkReads (mem : Memory) (va : BitVec 64) (table : BitVec 64) : Nat → List (BitVec 64)
  | 0 => []
  | i + 1 =>
    let addr := entryAddr table va i
    let pte := mem addr
    if invalid pte || isLeaf pte then [addr]
    else addr :: walkReads mem va (nextTable pte) i

/-- A superpage has the page number of its size. -/
def Leaf.aligned (leaf : Leaf) : Bool := leaf.pte.extractLsb' 10 (leaf.level * 9) = 0

/-- The rules of `U`, `SUM`, `MXR` and the three permissions. -/
def permits (pte : BitVec 64) (kind : Kind) (userMode sum mxr : Bool) : Bool :=
  (if userMode then user pte else !user pte || (sum && kind ≠ .fetch)) &&
    match kind with
    | .load => readable pte || (executable pte && mxr)
    | .store => writable pte
    | .fetch => executable pte

/-- The bits of an address below the page number of a leaf. -/
def offsetMask (level : Nat) : BitVec 64 := BitVec.ofNat 64 (2 ^ (12 + level * 9) - 1)

/-- The page number with its low fields replaced by those of the address, and the offset. -/
def Leaf.physical (leaf : Leaf) (va : BitVec 64) : BitVec 64 :=
  (((ppn leaf.pte).setWidth 64 <<< 12) &&& ~~~offsetMask leaf.level) ||| (va &&& offsetMask leaf.level)

/-- The leaf that lets an access through. -/
def access (mem : Memory) (root : BitVec 64) (levels : Nat) (va : BitVec 64) (kind : Kind)
    (userMode sum mxr : Bool) : Option Leaf :=
  (walk mem va root levels).filter fun leaf =>
    leaf.aligned && permits leaf.pte kind userMode sum mxr

/-- The Accessed bit, and for a store the Dirty bit. -/
def mark (pte : BitVec 64) (kind : Kind) : BitVec 64 :=
  if kind = .store then pte ||| (1#64 <<< 6) ||| (1#64 <<< 7) else pte ||| (1#64 <<< 6)

/-- Induction on a walk that finds a leaf: the entry of the last table is one, and what holds
from there holds from each table above it. -/
theorem walk_induction {mem : Memory} {va : BitVec 64} {P : BitVec 64 → Nat → Leaf → Prop}
    (leaf : ∀ {table i}, invalid (mem (entryAddr table va i)) = false →
      isLeaf (mem (entryAddr table va i)) = true →
        P table (i + 1) ⟨i, entryAddr table va i, mem (entryAddr table va i)⟩)
    (next : ∀ {table i l}, invalid (mem (entryAddr table va i)) = false →
      isLeaf (mem (entryAddr table va i)) = false →
        P (nextTable (mem (entryAddr table va i))) i l → P table (i + 1) l)
    {table : BitVec 64} {n : Nat} {l : Leaf} (h : walk mem va table n = some l) : P table n l := by
  induction n generalizing table with
  | zero => cases h
  | succ i ih =>
    simp only [walk] at h
    split at h
    next => cases h
    next hv =>
      have hv' := Bool.eq_false_iff.mpr hv
      split at h
      next hl =>
        cases Option.some.inj h
        exact leaf hv' hl
      next hl => exact next hv' (Bool.eq_false_iff.mpr hl) (ih h)

section Found

variable {mem : Memory} {va table : BitVec 64} {n : Nat} {leaf : Leaf}

theorem walk_pte (h : walk mem va table n = some leaf) : leaf.pte = mem leaf.addr :=
  walk_induction (P := fun _ _ l => l.pte = mem l.addr) (fun _ _ => rfl) (fun _ _ ih => ih) h

theorem walk_level (h : walk mem va table n = some leaf) : leaf.level < n :=
  walk_induction (P := fun _ n l => l.level < n) (fun _ _ => Nat.lt_succ_self _)
    (fun _ _ ih => Nat.lt_succ_of_lt ih) h

/-- A leaf is valid, is a leaf, and does not permit stores alone. -/
theorem walk_leaf (h : walk mem va table n = some leaf) :
    invalid leaf.pte = false ∧ isLeaf leaf.pte = true :=
  walk_induction (P := fun _ _ l => invalid l.pte = false ∧ isLeaf l.pte = true)
    (fun hv hl => ⟨hv, hl⟩) (fun _ _ ih => ih) h

theorem walk_mem_reads (h : walk mem va table n = some leaf) :
    leaf.addr ∈ walkReads mem va table n := by
  refine walk_induction (P := fun table n l => l.addr ∈ walkReads mem va table n) ?_ ?_ h
  · intro table i hv hl
    simp [walkReads, hl]
  · intro table i l hv hl ih
    simp only [walkReads, hv, hl, Bool.or_self, Bool.false_eq_true, if_false]
    exact List.mem_cons_of_mem _ ih

end Found

/-- Two entries that differ in their Accessed and Dirty bits at most. -/
def SameButMarks (a b : BitVec 64) : Prop := ∀ i, i ≠ 6 → i ≠ 7 → a.getLsbD i = b.getLsbD i

namespace SameButMarks

theorem refl (a : BitVec 64) : SameButMarks a a := fun _ _ _ => rfl

theorem symm {a b : BitVec 64} (h : SameButMarks a b) : SameButMarks b a :=
  fun i h6 h7 => (h i h6 h7).symm

theorem trans {a b c : BitVec 64} (h : SameButMarks a b) (h' : SameButMarks b c) :
    SameButMarks a c := fun i h6 h7 => (h i h6 h7).trans (h' i h6 h7)

theorem ppn_eq {a b : BitVec 64} (h : SameButMarks a b) : ppn a = ppn b := by
  apply BitVec.eq_of_getLsbD_eq
  intro i hi
  simp only [ppn, BitVec.getLsbD_extractLsb', h (10 + i) (by omega) (by omega)]

theorem aligned_eq {a b : BitVec 64} (h : SameButMarks a b) (level : Nat) (x y : BitVec 64) :
    Leaf.aligned ⟨level, x, a⟩ = Leaf.aligned ⟨level, y, b⟩ := by
  have he : a.extractLsb' 10 (level * 9) = b.extractLsb' 10 (level * 9) := by
    apply BitVec.eq_of_getLsbD_eq
    intro i hi
    simp only [BitVec.getLsbD_extractLsb', h (10 + i) (by omega) (by omega)]
  simp only [Leaf.aligned, he]

theorem invalid_eq {a b : BitVec 64} (h : SameButMarks a b) : invalid a = invalid b := by
  simp only [invalid, valid, readable, writable, h 0 (by omega) (by omega),
    h 1 (by omega) (by omega), h 2 (by omega) (by omega)]

theorem isLeaf_eq {a b : BitVec 64} (h : SameButMarks a b) : isLeaf a = isLeaf b := by
  simp only [isLeaf, readable, executable, h 1 (by omega) (by omega), h 3 (by omega) (by omega)]

end SameButMarks

theorem getLsbD_mark (pte : BitVec 64) (kind : Kind) {i : Nat} (hi : i < 64) :
    (mark pte kind).getLsbD i =
      (pte.getLsbD i || decide (i = 6) || (decide (kind = .store) && decide (i = 7))) := by
  unfold mark
  split
  next hs =>
    simp only [BitVec.getLsbD_or, BitField.getLsbD_one_shiftLeft, hi, hs, decide_true, Bool.true_and]
  next hs =>
    simp only [BitVec.getLsbD_or, BitField.getLsbD_one_shiftLeft, hi, hs, decide_true, Bool.true_and,
      decide_false, Bool.false_and, Bool.or_false]

theorem accessed_mark (pte : BitVec 64) (kind : Kind) : accessed (mark pte kind) = true := by
  rw [accessed, getLsbD_mark pte kind (by omega)]
  simp

theorem dirty_mark (pte : BitVec 64) (kind : Kind) :
    dirty (mark pte kind) = (dirty pte || decide (kind = .store)) := by
  rw [dirty, getLsbD_mark pte kind (by omega)]
  simp [dirty]

theorem sameButMarks_mark (pte : BitVec 64) (kind : Kind) : SameButMarks (mark pte kind) pte := by
  intro i h6 h7
  by_cases hi : i < 64
  · simp [getLsbD_mark pte kind hi, h6, h7]
  · rw [BitVec.getLsbD_of_ge _ _ (by omega), BitVec.getLsbD_of_ge _ _ (by omega)]

/-- Marking an entry that has its marks changes nothing. -/
theorem mark_eq_self {pte : BitVec 64} {kind : Kind} (ha : accessed pte = true)
    (hd : kind = .store → dirty pte = true) : mark pte kind = pte := by
  apply BitVec.eq_of_getLsbD_eq
  intro i hi
  rw [getLsbD_mark pte kind hi]
  by_cases h6 : i = 6
  · subst h6
    simp only [accessed] at ha
    simp [ha]
  · by_cases h7 : i = 7
    · subst h7
      by_cases hs : kind = .store
      · have hd' := hd hs
        simp only [dirty] at hd'
        simp [hd']
      · simp [hs]
    · simp [h6, h7]

/-- Both marks leave no difference. -/
theorem mark_store_eq {a b : BitVec 64} (h : SameButMarks a b) : mark a .store = mark b .store := by
  apply BitVec.eq_of_getLsbD_eq
  intro i hi
  rw [getLsbD_mark a _ hi, getLsbD_mark b _ hi]
  by_cases h6 : i = 6
  · simp [h6]
  · by_cases h7 : i = 7
    · simp [h7]
    · rw [h i h6 h7]

theorem SameButMarks.mark {a b : BitVec 64} (h : SameButMarks a b) (kind : Kind) :
    SameButMarks (mark a kind) (mark b kind) :=
  ((sameButMarks_mark a kind).trans h).trans (sameButMarks_mark b kind).symm

theorem entryAddr_aligned {table : BitVec 64} (h : table.toNat % 8 = 0) (va : BitVec 64) (i : Nat) :
    (entryAddr table va i).toNat % 8 = 0 := by
  simp only [entryAddr, BitVec.toNat_add, BitVec.toNat_mul]
  have h8 : (8 : BitVec 64).toNat = 8 := rfl
  rw [h8]
  omega

theorem nextTable_aligned (pte : BitVec 64) : (nextTable pte).toNat % 8 = 0 := by
  simp only [nextTable, BitVec.toNat_mul]
  have h : (4096 : BitVec 64).toNat = 4096 := rfl
  rw [h]
  omega

/-- Marks in the tables change no walk. -/
theorem walk_congr {mem mem' : Memory} {va table : BitVec 64} {n : Nat}
    (ht : table.toNat % 8 = 0) (h : ∀ x, x.toNat % 8 = 0 → SameButMarks (mem' x) (mem x)) :
    walk mem' va table n =
      (walk mem va table n).map fun leaf => { leaf with pte := mem' leaf.addr } := by
  induction n generalizing table with
  | zero => rfl
  | succ i ih =>
    have hs := h _ (entryAddr_aligned ht va i)
    simp only [walk, hs.invalid_eq, hs.isLeaf_eq, nextTable, hs.ppn_eq]
    split
    next => rfl
    next =>
      split
      next => rfl
      next => exact ih (nextTable_aligned _)

theorem walkReads_congr {mem mem' : Memory} {va table : BitVec 64} {n : Nat}
    (ht : table.toNat % 8 = 0) (h : ∀ x, x.toNat % 8 = 0 → SameButMarks (mem' x) (mem x)) :
    walkReads mem' va table n = walkReads mem va table n := by
  induction n generalizing table with
  | zero => rfl
  | succ i ih =>
    have hs := h _ (entryAddr_aligned ht va i)
    simp only [walkReads, hs.invalid_eq, hs.isLeaf_eq, nextTable, hs.ppn_eq]
    split
    next => rfl
    next => rw [← nextTable, ih (nextTable_aligned _)]

theorem walk_aligned {mem : Memory} {va table : BitVec 64} {n : Nat} {leaf : Leaf}
    (ht : table.toNat % 8 = 0) (h : walk mem va table n = some leaf) : leaf.addr.toNat % 8 = 0 := by
  revert ht
  refine walk_induction (P := fun table _ l => table.toNat % 8 = 0 → l.addr.toNat % 8 = 0) ?_ ?_ h
  · intro table i _ _ ht
    exact entryAddr_aligned ht va i
  · intro table i l _ _ ih _
    exact ih (nextTable_aligned _)

/-- The walk looks at the page number of the address only. -/
theorem walk_samePage {mem : Memory} {va va' table : BitVec 64} {n : Nat}
    (h : ∀ i, vpn va' i = vpn va i) : walk mem va' table n = walk mem va table n := by
  induction n generalizing table with
  | zero => rfl
  | succ i ih =>
    have he : entryAddr table va' i = entryAddr table va i := by rw [entryAddr, h i, entryAddr]
    unfold walk
    rw [he]
    simp only [ih]

end Paging
