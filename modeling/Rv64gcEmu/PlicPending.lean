import Rv64gcEmu.PlicClaims

namespace Rv64gcEmu

open BitField (getLsbD_one_shiftLeft)

namespace PlicCfg

/-- The claim and completion register of a context. -/
def claimAddr (context : Word) : Word := tresholdClaimAddr + contextOffset * context + 4

end PlicCfg

namespace PlicDevice

/-- Between the two states the bit of the source is set to `b` and no other changes: bit
`n mod 32` of word `n / 32`. -/
def SetsBit (p p' : PlicDevice) (n : Word) (b : Bool) : Prop :=
  ∀ i j, (p'.pending i).getLsbD j =
    if i = n.toNat / 32 ∧ j = n.toNat % 32 then b else (p.pending i).getLsbD j

def pendingBit (p : PlicDevice) (n : Word) : Bool :=
  (p.pending (n.toNat / 32)).getLsbD (n.toNat % 32)

/-- Raising and clearing the source set its bit and clear it, and undo each other; a guest
finds the bit in its word. -/
structure PendingRight (p : PlicDevice) (n : Word) : Prop where
  update : ∃ p', p.updatePending n = .ok p' ∧ p.SetsBit p' n true ∧
    p'.load (PlicCfg.pendingAddr + 4 * (n / 32)) = .ok ((p'.pending (n.toNat / 32)).setWidth 64)
  clear : ∃ p', p.clearPending n = .ok p' ∧ p.SetsBit p' n false
  updateClear : p.pendingBit n = false → ∃ p' p'', p.updatePending n = .ok p' ∧
    p'.clearPending n = .ok p'' ∧ p''.pending = p.pending
  clearUpdate : p.pendingBit n = true → ∃ p' p'', p.clearPending n = .ok p' ∧
    p'.updatePending n = .ok p'' ∧ p''.pending = p.pending

/-- What both functions do to a word. -/
def putBit (w : BitVec 32) (k : Nat) (b : Bool) : BitVec 32 :=
  if b then w ||| (1#32 <<< k) else w &&& ~~~(1#32 <<< k)

variable {p p' p'' : PlicDevice} {n : Word} {b : Bool}

theorem getLsbD_putBit (w : BitVec 32) {k : Nat} (hk : k < 32) (b : Bool) (j : Nat) :
    (putBit w k b).getLsbD j = if j = k then b else w.getLsbD j := by
  have hone : (1#32 <<< k).getLsbD j = decide (j = k) := by
    rw [getLsbD_one_shiftLeft]
    by_cases hj : j = k
    · simp [hj, hk]
    · simp [hj]
  unfold putBit
  cases b with
  | true =>
    rw [if_pos rfl, BitVec.getLsbD_or, hone]
    by_cases hj : j = k
    · simp [hj]
    · simp [hj]
  | false =>
    rw [if_neg (by decide), BitVec.getLsbD_and, BitVec.getLsbD_not, hone]
    by_cases hj : j = k
    · simp [hj]
    · by_cases h32 : j < 32
      · simp [hj, h32]
      · simp [hj, BitVec.getLsbD_of_ge w j (by omega)]

/-- The index of the enable word is inside for every source. -/
theorem updateClaim_ok (p : PlicDevice) (irq : Word) :
    ∃ claim, p.updateClaim irq = .ok { p with claim := claim } := by
  have hidx : ((1 : Word) * 32 + irq % 1024 / 32).toNat < 64 := by
    have h1024 : (1024 : Word).toNat = 1024 := rfl
    have h32 : (32 : Word).toNat = 32 := rfl
    have h1 : ((1 : Word) * 32).toNat = 32 := rfl
    rw [BitVec.toNat_add, BitVec.toNat_udiv, BitVec.toNat_umod, h1, h32, h1024]
    omega
  unfold updateClaim isEnabled checkIndex
  simp only [hidx, if_true, Except.ok_bind]
  split
  next => exact ⟨_, rfl⟩
  next => exact ⟨p.claim, rfl⟩

/-- The bit that the functions write: that of word `n / 4`. -/
def putPending (p : PlicDevice) (n : Word) (b : Bool) : PlicDevice :=
  { p with
    pending := Function.update p.pending (n / 4).toNat (putBit (p.pending (n / 4).toNat) n.toNat b) }

theorem putPending_pending (p : PlicDevice) (n : Word) (b : Bool) : (p.putPending n b).pending =
    Function.update p.pending (n / 4).toNat (putBit (p.pending (n / 4).toNat) n.toNat b) := rfl

theorem updatePending_put (p : PlicDevice) (n : Word) : p.updatePending n =
    checkIndex 32 (n / 4).toNat >>= fun _ => checkShift 32 n >>= fun _ =>
      (p.putPending n true).updateClaim n := rfl

theorem clearPending_put (p : PlicDevice) (n : Word) : p.clearPending n =
    checkIndex 32 (n / 4).toNat >>= fun _ => checkShift 32 n >>= fun _ =>
      (p.putPending n false).updateClaim 0 := rfl

theorem toNat_div_four (n : Word) : (n / 4).toNat = n.toNat / 4 := BitVec.toNat_udiv

/-- They are defined for the first 32 sources only. -/
theorem put_cases {q : PlicDevice} {irq : Word}
    (h : (checkIndex 32 (n / 4).toNat >>= fun _ => checkShift 32 n >>= fun _ =>
      q.updateClaim irq) = .ok p') : n.toNat < 32 ∧ p'.pending = q.pending := by
  obtain ⟨_, _, h⟩ := Except.bind_eq_ok_iff.mp h
  obtain ⟨_, hs, h⟩ := Except.bind_eq_ok_iff.mp h
  obtain ⟨claim, hc⟩ := updateClaim_ok q irq
  cases Except.ok.inj (hc.symm.trans h)
  exact ⟨(Except.ite_error_eq_ok_iff.mp hs).1, rfl⟩

theorem put_ok (hn : n.toNat < 32) (q : PlicDevice) (irq : Word) :
    ∃ p', (checkIndex 32 (n / 4).toNat >>= fun _ => checkShift 32 n >>= fun _ =>
      q.updateClaim irq) = .ok p' ∧ p'.pending = q.pending := by
  have hidx : (n / 4).toNat < 32 := by
    rw [toNat_div_four]
    omega
  obtain ⟨claim, hc⟩ := updateClaim_ok q irq
  unfold checkIndex checkShift
  rw [if_pos hidx, if_pos hn]
  exact ⟨_, hc, rfl⟩

/-- Of the first four sources the two words are the same one. -/
theorem setsBit_put (hn : n.toNat < 4) (h : p'.pending = (p.putPending n b).pending) :
    p.SetsBit p' n b := by
  intro i j
  have h4 : (n / 4).toNat = 0 := by
    rw [toNat_div_four]
    omega
  have h32 : n.toNat / 32 = 0 := by omega
  have hj : n.toNat % 32 = n.toNat := by omega
  rw [h, putPending_pending, h4, h32, hj]
  by_cases hi : i = 0
  · subst hi
    simp only [Function.update_self, true_and]
    exact getLsbD_putBit _ (by omega) b j
  · simp only [Function.update_of_ne hi, hi, false_and, if_false]

/-- For the others the bit is not that of the source. -/
theorem pendingBit_put (hn : 4 ≤ n.toNat) (hlt : n.toNat < 32)
    (h : p'.pending = (p.putPending n b).pending) : p'.pendingBit n = p.pendingBit n := by
  have h4 : 0 ≠ (n / 4).toNat := by
    rw [toNat_div_four]
    omega
  have h32 : n.toNat / 32 = 0 := by omega
  unfold pendingBit
  rw [h, putPending_pending, h32, Function.update_of_ne h4]

theorem SetsBit.pendingBit (h : p.SetsBit p' n b) : p'.pendingBit n = b := by
  unfold PlicDevice.pendingBit
  rw [h, if_pos ⟨rfl, rfl⟩]

/-- The bit is put back. -/
theorem SetsBit.undo {c : Bool} (h : p.SetsBit p' n b) (h' : p'.SetsBit p'' n c)
    (hc : p.pendingBit n = c) : p''.pending = p.pending := by
  funext i
  apply BitVec.eq_of_getLsbD_eq
  intro j _
  rw [h', h]
  split
  next hij =>
    obtain ⟨rfl, rfl⟩ := hij
    exact hc.symm
  next => rfl

theorem pendingRight_iff (p : PlicDevice) (n : Word) : p.PendingRight n ↔ n.toNat < 4 := by
  constructor
  · intro h
    obtain ⟨raised, hr, hset, _⟩ := h.update
    obtain ⟨cleared, hc, hclear⟩ := h.clear
    rw [updatePending_put] at hr
    rw [clearPending_put] at hc
    obtain ⟨hlt, hraised⟩ := put_cases hr
    obtain ⟨_, hcleared⟩ := put_cases hc
    by_contra hge
    have hone := hset.pendingBit
    have hzero := hclear.pendingBit
    rw [pendingBit_put (Nat.not_lt.mp hge) hlt hraised] at hone
    rw [pendingBit_put (Nat.not_lt.mp hge) hlt hcleared, hone] at hzero
    cases hzero
  · intro hn
    have hupdate : ∀ q : PlicDevice, ∃ q', q.updatePending n = .ok q' ∧ q.SetsBit q' n true := by
      intro q
      obtain ⟨q', hq, hpending⟩ := put_ok (by omega : n.toNat < 32) (q.putPending n true) n
      exact ⟨q', hq, setsBit_put hn hpending⟩
    have hclear : ∀ q : PlicDevice, ∃ q', q.clearPending n = .ok q' ∧ q.SetsBit q' n false := by
      intro q
      obtain ⟨q', hq, hpending⟩ := put_ok (by omega : n.toNat < 32) (q.putPending n false) 0
      exact ⟨q', hq, setsBit_put hn hpending⟩
    have hword : n / 32 = 0 := by
      apply BitVec.eq_of_toNat_eq
      rw [BitVec.toNat_udiv]
      change n.toNat / 32 = 0
      omega
    have hnat : n.toNat / 32 = 0 := by omega
    refine ⟨?_, hclear p, fun hb => ?_, fun hb => ?_⟩
    · obtain ⟨p', hp, hs⟩ := hupdate p
      refine ⟨p', hp, hs, ?_⟩
      rw [hword, hnat]
      rfl
    · obtain ⟨p', hp, hs⟩ := hupdate p
      obtain ⟨p'', hp', hs'⟩ := hclear p'
      exact ⟨p', p'', hp, hp', hs.undo hs' hb⟩
    · obtain ⟨p', hp, hs⟩ := hclear p
      obtain ⟨p'', hp', hs'⟩ := hupdate p'
      exact ⟨p', p'', hp, hp', hs.undo hs' hb⟩

/-- A completion is defined exactly for the first 32 sources, in either context. -/
theorem complete_ok_iff (p : PlicDevice) {context : Word} (hc : context = 0 ∨ context = 1)
    (value : Word) :
    (∃ p', p.store (PlicCfg.claimAddr context) value = .ok p') ↔ value.toNat < 32 := by
  have hs : p.store (PlicCfg.claimAddr context) value = p.clearPending value := by
    rcases hc with rfl | rfl
    · rfl
    · rfl
  rw [hs]
  constructor
  · rintro ⟨p', hp⟩
    exact (put_cases hp).1
  · intro hlt
    obtain ⟨p', hp, _⟩ := put_ok hlt (p.putPending value false) 0
    exact ⟨p', hp⟩

/-- The pending bits are right for the sources below 4, and a completion is defined for the
values below 32. -/
theorem pending_iff (p : PlicDevice) :
    (∀ n : Word, p.PendingRight n ↔ n.toNat < 4) ∧
      ∀ context value : Word, context = 0 ∨ context = 1 →
        ((∃ p', p.store (PlicCfg.claimAddr context) value = .ok p') ↔ value.toNat < 32) :=
  ⟨p.pendingRight_iff, fun _ value hc => p.complete_ok_iff hc value⟩

/-- The UART is source 10, whose bit is put into word 2. -/
theorem pending_misplaced :
    (¬∀ (p : PlicDevice) (n : Word), 1 ≤ n → n ≤ 1023 → p.PendingRight n) ∧
      ¬∀ (p : PlicDevice) (context value : Word), context = 0 ∨ context = 1 →
        ∃ p', p.store (PlicCfg.claimAddr context) value = .ok p' := by
  constructor
  · intro h
    obtain ⟨p', hp, hs, _⟩ := (h init 10 (by decide) (by decide)).update
    cases Except.ok.inj hp
    have hbit := hs.pendingBit
    revert hbit
    decide
  · intro h
    obtain ⟨p', hp⟩ := h init 1 32 (.inr rfl)
    cases hp

end PlicDevice

end Rv64gcEmu
