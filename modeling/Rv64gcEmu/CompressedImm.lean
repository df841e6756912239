import Rv64gcEmu.DecoderFields

namespace Rv64gcEmu

open BitField (gather gather_perm gather_setWidth shiftRight_piece shiftLeft_piece)

namespace Ctype

variable (d : Decoder)

omit d in
/-- An immediate, from the pieces in the order of the source. -/
theorem bits_gather {x imm : BitVec 32} {n : Nat} {source pieces : List (Nat × Nat × Nat)}
    (h : imm = gather x 32 source) (hp : source.Perm pieces) (hn : n ≤ 32)
    (hfit : ∀ p ∈ pieces, p.1 + p.2.2 ≤ n) : bits imm = (gather x n pieces).setWidth 64 := by
  rw [gather_setWidth x 64 hn hfit, h, gather_perm x 32 hp, bits]

omit d in
theorem gather_last {x y : BitVec 32} {dst src len : Nat}
    (h : y = (x.extractLsb' src len).setWidth 32 <<< dst) : y = gather x 32 [(dst, src, len)] :=
  h.trans BitVec.or_zero.symm

omit d in
theorem gather_cons {x y z : BitVec 32} {dst src len : Nat} {pieces : List (Nat × Nat × Nat)}
    (h : y = (x.extractLsb' src len).setWidth 32 <<< dst) (hz : z = gather x 32 pieces) :
    y ||| z = gather x 32 ((dst, src, len) :: pieces) := by
  rw [gather, h, hz]

theorem immAddi4spn_eq : immAddi4spn d =
    (gather d.insn 10 [(6, 7, 4), (4, 11, 2), (3, 5, 1), (2, 6, 1)]).setWidth 64 := by
  refine bits_gather ?_ (.refl _) (by decide) (by decide)
  rw [BitVec.or_assoc, BitVec.or_assoc]
  exact gather_cons (shiftRight_piece rfl) (gather_cons (shiftRight_piece rfl)
    (gather_cons (shiftRight_piece rfl) (gather_last (shiftRight_piece rfl))))

theorem offsetWord_eq : offsetWord d =
    (gather d.insn 7 [(6, 5, 1), (3, 10, 3), (2, 6, 1)]).setWidth 64 := by
  refine bits_gather ?_ (.refl _) (by decide) (by decide)
  rw [BitVec.or_assoc]
  exact gather_cons (shiftLeft_piece rfl) (gather_cons (shiftRight_piece rfl)
    (gather_last (shiftRight_piece rfl)))

theorem offsetDouble_eq : offsetDouble d =
    (gather d.insn 8 [(6, 5, 2), (3, 10, 3)]).setWidth 64 := by
  refine bits_gather ?_ (.refl _) (by decide) (by decide)
  exact gather_cons (shiftLeft_piece rfl) (gather_last (shiftRight_piece rfl))

theorem offsetLwsp_eq : offsetLwsp d =
    (gather d.insn 8 [(6, 2, 2), (5, 12, 1), (2, 4, 3)]).setWidth 64 := by
  refine bits_gather ?_ (.refl _) (by decide) (by decide)
  rw [BitVec.or_assoc]
  exact gather_cons (shiftLeft_piece rfl) (gather_cons (shiftRight_piece rfl)
    (gather_last (shiftRight_piece rfl)))

theorem offsetLdsp_eq : offsetLdsp d =
    (gather d.insn 9 [(6, 2, 3), (5, 12, 1), (3, 5, 2)]).setWidth 64 := by
  refine bits_gather ?_ (.refl _) (by decide) (by decide)
  rw [BitVec.or_assoc]
  exact gather_cons (shiftLeft_piece rfl) (gather_cons (shiftRight_piece rfl)
    (gather_last (shiftRight_piece rfl)))

theorem offsetSwsp_eq : offsetSwsp d =
    (gather d.insn 8 [(6, 7, 2), (2, 9, 4)]).setWidth 64 := by
  refine bits_gather ?_ (.refl _) (by decide) (by decide)
  exact gather_cons (shiftRight_piece rfl) (gather_last (shiftRight_piece rfl))

theorem offsetSdsp_eq : offsetSdsp d =
    (gather d.insn 9 [(6, 7, 3), (3, 10, 3)]).setWidth 64 := by
  refine bits_gather ?_ (.refl _) (by decide) (by decide)
  exact gather_cons (shiftRight_piece rfl) (gather_last (shiftRight_piece rfl))

omit d in
/-- The pattern `if (imm & sign) imm = SIGNEXTEND_CAST(imm | fill, intm_t)`. -/
theorem signExtendCast_fill {n m : Nat} (y : BitVec n) {sign fill : Word} (hn : 0 < n) (hnm : n ≤ m)
    (hm : m ≤ 64) (hsign : sign = 1#64 <<< (n - 1))
    (hfill : ∀ i, i < m → fill.getLsbD i = decide (n ≤ i)) :
    (if y.setWidth 64 &&& sign ≠ 0 then signExtendCast (y.setWidth 64 ||| fill) m
      else y.setWidth 64) = y.signExtend 64 := by
  have hx : ∀ i, n ≤ i → (y.setWidth 64).getLsbD i = false := by
    intro i hi
    rw [BitVec.getLsbD_setWidth, BitVec.getLsbD_of_ge y i hi, Bool.and_false]
  have hback : (y.setWidth 64).setWidth n = y := by
    rw [BitVec.setWidth_setWidth_of_le y (by omega : n ≤ 64), BitVec.setWidth_eq]
  have hbit : y.setWidth 64 &&& sign ≠ 0 ↔ (y.setWidth 64).getLsbD (n - 1) = true := by
    rw [hsign]
    exact and_one_shiftLeft_ne_zero (by omega)
  have h := BitField.signExtend_of_fill hn hnm hm hx hfill
  rw [hback] at h
  simpa only [hbit, signExtendCast] using h

theorem imm6_eq : imm6 d = (gather d.insn 6 [(5, 12, 1), (0, 2, 5)]).signExtend 64 := by
  have himm : bits (((d.insn >>> 7) &&& 0x20) ||| ((d.insn >>> 2) &&& 0x1f)) =
      (gather d.insn 6 [(5, 12, 1), (0, 2, 5)]).setWidth 64 := by
    refine bits_gather ?_ (.refl _) (by decide) (by decide)
    exact gather_cons (shiftRight_piece rfl) (gather_last (shiftRight_piece rfl))
  unfold imm6
  rw [himm]
  exact signExtendCast_fill _ (by decide) (by decide) (by decide) rfl (by decide)

theorem immAddi16sp_eq : immAddi16sp d =
    (gather d.insn 10 [(9, 12, 1), (7, 3, 2), (6, 5, 1), (5, 2, 1), (4, 6, 1)]).signExtend 64 := by
  have himm : bits (((d.insn >>> 3) &&& 0x200) ||| ((d.insn >>> 2) &&& 0x10) |||
      ((d.insn <<< 1) &&& 0x40) ||| ((d.insn <<< 4) &&& 0x180) ||| ((d.insn <<< 3) &&& 0x20)) =
      (gather d.insn 10 [(9, 12, 1), (7, 3, 2), (6, 5, 1), (5, 2, 1), (4, 6, 1)]).setWidth 64 := by
    refine @bits_gather _ _ _ [(9, 12, 1), (4, 6, 1), (6, 5, 1), (7, 3, 2), (5, 2, 1)] _ ?_
      (by decide) (by decide) (by decide)
    rw [BitVec.or_assoc, BitVec.or_assoc, BitVec.or_assoc]
    exact gather_cons (shiftRight_piece rfl) (gather_cons (shiftRight_piece rfl)
      (gather_cons (shiftLeft_piece rfl) (gather_cons (shiftLeft_piece rfl)
        (gather_last (shiftLeft_piece rfl)))))
  unfold immAddi16sp
  rw [himm]
  exact signExtendCast_fill _ (by decide) (by decide) (by decide) rfl (by decide)

theorem immLui_eq : immLui d =
    (gather d.insn 18 [(17, 12, 1), (12, 2, 5)]).signExtend 64 := by
  have himm : bits (((d.insn <<< 5) &&& 0x20000) ||| ((d.insn <<< 10) &&& 0x1f000)) =
      (gather d.insn 18 [(17, 12, 1), (12, 2, 5)]).setWidth 64 := by
    refine bits_gather ?_ (.refl _) (by decide) (by decide)
    exact gather_cons (shiftLeft_piece rfl)
      (gather_last (shiftLeft_piece rfl))
  unfold immLui
  rw [himm]
  exact signExtendCast_fill _ (by decide) (by decide) (by decide) rfl (by decide)

theorem immJ_eq : immJ d =
    (gather d.insn 12 [(11, 12, 1), (10, 8, 1), (8, 9, 2), (7, 6, 1), (6, 7, 1), (5, 2, 1),
      (4, 11, 1), (1, 3, 3)]).signExtend 64 := by
  have himm : bits (((d.insn >>> 1) &&& 0x800) ||| ((d.insn <<< 2) &&& 0x400) |||
      ((d.insn >>> 1) &&& 0x300) ||| ((d.insn <<< 1) &&& 0x80) ||| ((d.insn >>> 1) &&& 0x40) |||
      ((d.insn <<< 3) &&& 0x20) ||| ((d.insn >>> 7) &&& 0x10) ||| ((d.insn >>> 2) &&& 0xe)) =
      (gather d.insn 12 [(11, 12, 1), (10, 8, 1), (8, 9, 2), (7, 6, 1), (6, 7, 1), (5, 2, 1),
        (4, 11, 1), (1, 3, 3)]).setWidth 64 := by
    refine bits_gather ?_ (.refl _) (by decide) (by decide)
    rw [BitVec.or_assoc, BitVec.or_assoc, BitVec.or_assoc, BitVec.or_assoc, BitVec.or_assoc,
      BitVec.or_assoc]
    exact gather_cons (shiftRight_piece rfl) (gather_cons (shiftLeft_piece rfl)
      (gather_cons (shiftRight_piece rfl) (gather_cons (shiftLeft_piece rfl)
        (gather_cons (shiftRight_piece rfl) (gather_cons (shiftLeft_piece rfl)
          (gather_cons (shiftRight_piece rfl) (gather_last (shiftRight_piece rfl))))))))
  unfold immJ
  rw [himm]
  exact signExtendCast_fill _ (by decide) (by decide) (by decide) rfl (by decide)

theorem immBranch_eq : immBranch d =
    (gather d.insn 9 [(8, 12, 1), (6, 5, 2), (5, 2, 1), (3, 10, 2), (1, 3, 2)]).signExtend 64 := by
  have himm : bits (((d.insn >>> 4) &&& 0x100) ||| ((d.insn <<< 1) &&& 0xc0) |||
      ((d.insn <<< 3) &&& 0x20) ||| ((d.insn >>> 7) &&& 0x18) ||| ((d.insn >>> 2) &&& 0x6)) =
      (gather d.insn 9 [(8, 12, 1), (6, 5, 2), (5, 2, 1), (3, 10, 2), (1, 3, 2)]).setWidth 64 := by
    refine bits_gather ?_ (.refl _) (by decide) (by decide)
    rw [BitVec.or_assoc, BitVec.or_assoc, BitVec.or_assoc]
    exact gather_cons (shiftRight_piece rfl) (gather_cons (shiftLeft_piece rfl)
      (gather_cons (shiftLeft_piece rfl) (gather_cons (shiftRight_piece rfl)
        (gather_last (shiftRight_piece rfl)))))
  unfold immBranch
  rw [himm]
  exact signExtendCast_fill _ (by decide) (by decide) (by decide) rfl (by decide)

end Ctype

end Rv64gcEmu
