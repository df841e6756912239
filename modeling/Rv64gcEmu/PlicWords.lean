import Rv64gcEmu.PlicPending

namespace Rv64gcEmu

/-- The words of the arrays of `PlicDevice`. -/
inductive PlicWord where
  | prioprity (idx : Nat)
  | pending (idx : Nat)
  | enable (idx : Nat)
  | treshold (context : Nat)
  | claim (context : Nat)
  deriving DecidableEq

namespace PlicWord

open PlicCfg Helper

/-- The word that an address belongs to, and how far into it the address points. -/
def of (address : Word) : Option (PlicWord × Nat) :=
  if valueInRangeInclusive address sourcePrioAddr sourcePrioEndAddr then
    some (prioprity ((address - sourcePrioAddr) / 4).toNat, (address - sourcePrioAddr).toNat % 4)
  else if valueInRangeInclusive address pendingAddr pendingEndAddr then
    some (pending ((address - pendingAddr) / 4).toNat, (address - pendingAddr).toNat % 4)
  else if valueInRangeInclusive address enableAddr enableEndAddr then
    some (enable ((address - enableAddr) / 4).toNat, (address - enableAddr).toNat % 4)
  else if valueInRangeInclusive address tresholdClaimAddr tresholdClaimEndAddr then
    let context := (address - tresholdClaimAddr) / contextOffset
    let offset := address - (tresholdClaimAddr + contextOffset * context)
    if offset = 0 then some (treshold context.toNat, 0)
    else if offset = 4 then some (claim context.toNat, 0)
    else none
  else none

def get (p : PlicDevice) : PlicWord → BitVec 32
  | prioprity idx => p.prioprity idx
  | pending idx => p.pending idx
  | enable idx => p.enable idx
  | treshold context => p.treshold context
  | claim context => p.claim context

/-- What a store makes of the arrays; to the claim register nothing is assigned. -/
def put (p : PlicDevice) (v : BitVec 32) : PlicWord → PlicDevice
  | prioprity idx => { p with prioprity := Function.update p.prioprity idx v }
  | pending idx => { p with pending := Function.update p.pending idx v }
  | enable idx => { p with enable := Function.update p.enable idx v }
  | treshold context => { p with treshold := Function.update p.treshold context v }
  | claim _ => p

/-- The ranges in numbers. -/
theorem of_eq (address : Word) : of address =
    if 0xc000000 ≤ address.toNat ∧ address.toNat ≤ 0xc000fff then
      some (prioprity ((address.toNat - 0xc000000) / 4), (address.toNat - 0xc000000) % 4)
    else if 0xc001000 ≤ address.toNat ∧ address.toNat ≤ 0xc00107f then
      some (pending ((address.toNat - 0xc001000) / 4), (address.toNat - 0xc001000) % 4)
    else if 0xc002000 ≤ address.toNat ∧ address.toNat ≤ 0xc0020ff then
      some (enable ((address.toNat - 0xc002000) / 4), (address.toNat - 0xc002000) % 4)
    else if 0xc200000 ≤ address.toNat ∧ address.toNat ≤ 0xc201007 then
      if (address.toNat - 0xc200000) % 0x1000 = 0 then
        some (treshold ((address.toNat - 0xc200000) / 0x1000), 0)
      else if (address.toNat - 0xc200000) % 0x1000 = 4 then
        some (claim ((address.toNat - 0xc200000) / 0x1000), 0)
      else none
    else none := by
  have hrange : ∀ lower upper : Word, valueInRangeInclusive address lower upper = true ↔
      lower.toNat ≤ address.toNat ∧ address.toNat ≤ upper.toNat := by
    intro lower upper
    unfold valueInRangeInclusive
    rw [Bool.and_eq_true, decide_eq_true_iff, decide_eq_true_iff, BitVec.le_def, BitVec.le_def]
  have hsub : ∀ lower : Word, lower.toNat ≤ address.toNat →
      (address - lower).toNat = address.toNat - lower.toNat :=
    fun lower h => BitVec.toNat_sub_of_le (BitVec.le_def.mpr h)
  have hdiv : ∀ lower : Word, lower.toNat ≤ address.toNat → ((address - lower) / 4).toNat =
      (address.toNat - lower.toNat) / 4 :=
    fun lower h => BitVec.toNat_udiv.trans (congrArg (· / 4) (hsub lower h))
  have e1 : sourcePrioAddr.toNat = 0xc000000 := rfl
  have e2 : sourcePrioEndAddr.toNat = 0xc000fff := rfl
  have e3 : pendingAddr.toNat = 0xc001000 := rfl
  have e4 : pendingEndAddr.toNat = 0xc00107f := rfl
  have e5 : enableAddr.toNat = 0xc002000 := rfl
  have e6 : enableEndAddr.toNat = 0xc0020ff := rfl
  have e7 : tresholdClaimAddr.toNat = 0xc200000 := rfl
  have e8 : tresholdClaimEndAddr.toNat = 0xc201007 := rfl
  unfold of
  simp only [hrange, e1, e2, e3, e4, e5, e6, e7, e8]
  split
  next h => rw [hdiv sourcePrioAddr h.1, hsub sourcePrioAddr h.1, e1]
  next =>
    split
    next h => rw [hdiv pendingAddr h.1, hsub pendingAddr h.1, e3]
    next =>
      split
      next h => rw [hdiv enableAddr h.1, hsub enableAddr h.1, e5]
      next =>
        split
        next h =>
          have hc : ((address - tresholdClaimAddr) / contextOffset).toNat =
              (address.toNat - 0xc200000) / 0x1000 :=
            BitVec.toNat_udiv.trans (congrArg (· / 0x1000) (hsub tresholdClaimAddr h.1))
          have hoff : (address - (tresholdClaimAddr + contextOffset *
              ((address - tresholdClaimAddr) / contextOffset))).toNat =
                (address.toNat - 0xc200000) % 0x1000 := by
            have hmul : contextOffset.toNat = 0x1000 := rfl
            have hlt := address.isLt
            rw [BitVec.toNat_sub, BitVec.toNat_add, BitVec.toNat_mul, hc, hmul, e7]
            omega
          have hzero : ∀ c : Word, address - (tresholdClaimAddr + contextOffset *
              ((address - tresholdClaimAddr) / contextOffset)) = c ↔
                (address.toNat - 0xc200000) % 0x1000 = c.toNat := by
            intro c
            rw [← hoff]
            exact ⟨congrArg _, BitVec.eq_of_toNat_eq⟩
          rw [hc]
          simp only [hzero]
          rfl
        next => rfl

/-- The bytes of a word of the arrays belong to the word; those of the others, but for the first,
to none. -/
theorem of_add {address : Word} {w : PlicWord} {k : Nat} (h : of address = some (w, 0))
    (hk : 0 < k) (hlt : k < 4) : of (address + BitVec.ofNat 64 k) =
      match w with
      | treshold _ | claim _ => none
      | _ => some (w, k) := by
  rw [of_eq] at h
  have hadd : address.toNat < 2 ^ 32 → (address + BitVec.ofNat 64 k).toNat = address.toNat + k := by
    intro ha
    rw [BitVec.toNat_add, BitVec.toNat_ofNat]
    omega
  rw [of_eq]
  split at h
  next hr =>
    obtain ⟨rfl, h0⟩ := Prod.mk.inj (Option.some.inj h)
    rw [hadd (by omega), if_pos (by omega)]
    simp only [Option.some.injEq, Prod.mk.injEq, prioprity.injEq]
    omega
  next =>
    split at h
    next hr =>
      obtain ⟨rfl, h0⟩ := Prod.mk.inj (Option.some.inj h)
      rw [hadd (by omega), if_neg (by omega), if_pos (by omega)]
      simp only [Option.some.injEq, Prod.mk.injEq, pending.injEq]
      omega
    next =>
      split at h
      next hr =>
        obtain ⟨rfl, h0⟩ := Prod.mk.inj (Option.some.inj h)
        rw [hadd (by omega), if_neg (by omega), if_neg (by omega), if_pos (by omega)]
        simp only [Option.some.injEq, Prod.mk.injEq, enable.injEq]
        omega
      next =>
        split at h
        next hr =>
          rw [hadd (by omega), if_neg (by omega), if_neg (by omega), if_neg (by omega)]
          have hnone : (address.toNat - 0xc200000) % 0x1000 = 0 ∨
              (address.toNat - 0xc200000) % 0x1000 = 4 →
              (address.toNat + k - 0xc200000) % 0x1000 ≠ 0 ∧
                (address.toNat + k - 0xc200000) % 0x1000 ≠ 4 := by omega
          split at h
          next h0 =>
            obtain ⟨rfl, _⟩ := Prod.mk.inj (Option.some.inj h)
            rw [if_neg (hnone (.inl h0)).1, if_neg (hnone (.inl h0)).2, ite_self]
          next =>
            split at h
            next h4 =>
              obtain ⟨rfl, _⟩ := Prod.mk.inj (Option.some.inj h)
              rw [if_neg (hnone (.inr h4)).1, if_neg (hnone (.inr h4)).2, ite_self]
            next => cases h
        next => cases h

theorem get_put (p : PlicDevice) (v : BitVec 32) {w : PlicWord} (h : ∀ c, w ≠ claim c) :
    w.get (w.put p v) = v := by
  cases w with
  | prioprity idx => exact Function.update_self ..
  | pending idx => exact Function.update_self ..
  | enable idx => exact Function.update_self ..
  | treshold context => exact Function.update_self ..
  | claim context => exact absurd rfl (h context)

end PlicWord

/-- The words of a range are numbered up to that of its end. -/
theorem checkIndex_range {address lowerRange upperRange k : Word} {size : Nat}
    (h : Helper.valueInRangeInclusive address lowerRange upperRange = true)
    (hsize : (upperRange - lowerRange).toNat / k.toNat < size) :
    checkIndex size ((address - lowerRange) / k).toNat = .ok () := by
  unfold Helper.valueInRangeInclusive at h
  rw [Bool.and_eq_true, decide_eq_true_iff, decide_eq_true_iff] at h
  have hle := BitVec.le_trans h.1 h.2
  have hu := BitVec.le_def.mp h.2
  rw [BitVec.toNat_sub_of_le hle] at hsize
  have hdiv : (address.toNat - lowerRange.toNat) / k.toNat ≤
      (upperRange.toNat - lowerRange.toNat) / k.toNat := Nat.div_le_div_right (by omega)
  unfold checkIndex
  rw [BitVec.toNat_udiv, BitVec.toNat_sub_of_le h.1, if_pos (by omega)]

namespace PlicDevice

open PlicCfg Helper

theorem load_eq (p : PlicDevice) (address : Word) : p.load address =
    .ok (match PlicWord.of address with
      | some (w, _) => (w.get p).setWidth 64
      | none => 0) := by
  unfold load PlicWord.of
  split
  next h =>
    have hidx : checkIndex 1024 ((address - sourcePrioAddr) / 4).toNat = .ok () :=
      checkIndex_range h (by decide)
    simp only [hidx, Except.ok_bind, PlicWord.get]
  next =>
    split
    next h =>
      have hidx : checkIndex 32 ((address - pendingAddr) / 4).toNat = .ok () :=
        checkIndex_range h (by decide)
      simp only [hidx, Except.ok_bind, PlicWord.get]
    next =>
      split
      next h =>
        have hidx : checkIndex 64 ((address - enableAddr) / 4).toNat = .ok () :=
          checkIndex_range h (by decide)
        simp only [hidx, Except.ok_bind, PlicWord.get]
      next =>
        split
        next h =>
          have hidx : checkIndex 2 ((address - tresholdClaimAddr) / contextOffset).toNat = .ok () :=
            checkIndex_range h (by decide)
          simp only [hidx, Except.ok_bind]
          split
          next => rfl
          next =>
            split
            next => rfl
            next => rfl
        next => rfl

theorem store_eq (p : PlicDevice) (address value : Word) : p.store address value =
    match PlicWord.of address with
    | some (.claim _, _) => p.clearPending value
    | some (w, _) => .ok (w.put p (value.setWidth 32))
    | none => .ok p := by
  unfold store PlicWord.of
  split
  next h =>
    have hidx : checkIndex 1024 ((address - sourcePrioAddr) / 4).toNat = .ok () :=
      checkIndex_range h (by decide)
    simp only [hidx, Except.ok_bind, PlicWord.put]
  next =>
    split
    next h =>
      have hidx : checkIndex 32 ((address - pendingAddr) / 4).toNat = .ok () :=
        checkIndex_range h (by decide)
      simp only [hidx, Except.ok_bind, PlicWord.put]
    next =>
      split
      next h =>
        have hidx : checkIndex 64 ((address - enableAddr) / 4).toNat = .ok () :=
          checkIndex_range h (by decide)
        simp only [hidx, Except.ok_bind, PlicWord.put]
      next =>
        split
        next h =>
          have hidx : checkIndex 2 ((address - tresholdClaimAddr) / contextOffset).toNat = .ok () :=
            checkIndex_range h (by decide)
          simp only [hidx, Except.ok_bind]
          split
          next => rfl
          next =>
            split
            next => rfl
            next => rfl
        next => rfl

/-- The completion is defined for the first 32 sources. -/
theorem clearPending_ok (p : PlicDevice) {irq : Word} (h : irq.toNat < 32) :
    ∃ p', p.clearPending irq = .ok p' := by
  obtain ⟨p', hp, _⟩ := put_ok h (p.putPending irq false) 0
  exact ⟨p', hp⟩

theorem clearPending_undefined (p : PlicDevice) {irq : Word} (h : 32 ≤ irq.toNat) :
    p.clearPending irq = .error .undefined := by
  rw [clearPending_put]
  unfold checkIndex checkShift
  rw [if_neg (Nat.not_lt.mpr h)]
  split
  next => rfl
  next => rfl

end PlicDevice

end Rv64gcEmu
