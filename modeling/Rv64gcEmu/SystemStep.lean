import Rv64gcEmu.TrapReturn

namespace Rv64gcEmu

/-- The return instruction of the level is legal. -/
def Level.MayReturn (level : Level) (cpu : Cpu) : Prop :=
  match level with
  | .supervisor => cpu.cregs.status 22 = false ∧ cpu.mode ≠ .user
  | .machine => cpu.mode = .machine

theorem Decoder.returns_unique {d : Decoder} {level other : Level} (h : d.returns level = true)
    (h' : d.returns other = true) : other = level := by
  simp only [returns, Bool.and_eq_true, decide_eq_true_eq] at h h'
  have h7 := h.2.symm.trans h'.2
  cases level <;> cases other <;> simp at h7 ⊢

theorem Cpu.execute_csr {cpu after : Cpu} {d : Decoder} {size : Word} (hd : d.isCsr = true)
    (h : cpu.execute d = .ok (size, after)) : after = CsrInsn.funct3 cpu d := by
  simp only [Decoder.isCsr, Bool.and_eq_true, decide_eq_true_eq] at hd
  rcases execute_cases h with ⟨hs, _, _⟩ | ⟨_, _, hx⟩
  · have h2 := hs.symm.trans hd.1
    simp at h2
  · unfold execute32 at hx
    rw [hd.2] at hx
    exact (Except.ok.inj hx).symm

namespace CsrInsn

/-- The hart stays where it is: no jump, no change of the mode. -/
structure InPlace (a b : Cpu) : Prop where
  mode : b.mode = a.mode
  pc : b.pc = a.pc

theorem csrHandlers_inPlace {cpu : Cpu} {d : Decoder} {rhs : Word} {op : CsrOp} (csr : BitVec 12) :
    InPlace cpu (csrHandlers csr cpu d csr rhs op) := by
  refine @csrHandlers_cases (fun handler => InPlace cpu (handler cpu d csr rhs op)) csr
    ⟨rfl, rfl⟩ ⟨rfl, rfl⟩ ⟨rfl, rfl⟩ ?_ ⟨rfl, rfl⟩ ?_ ?_ ⟨rfl, rfl⟩
  · unfold csrSatpHandler
    simp only
    split
    next => exact ⟨rfl, rfl⟩
    next => exact ⟨rfl, rfl⟩
  · unfold csrEnforcedReadonlyHandler
    simp only
    split
    next => exact ⟨rfl, rfl⟩
    next => exact ⟨rfl, rfl⟩
  · unfold csrPrivledgedHandler
    split
    next => exact ⟨rfl, rfl⟩
    next => exact ⟨rfl, rfl⟩

theorem environment_inPlace {cpu : Cpu} {d : Decoder}
    (hr : ¬(d.rs2 = 2 ∧ (d.funct7 = 0x08 ∨ d.funct7 = 0x18))) : InPlace cpu (environment cpu d) := by
  unfold environment
  split
  next =>
    unfold sfencevma
    simp only
    split
    next => exact ⟨rfl, rfl⟩
    next => exact ⟨rfl, rfl⟩
  next =>
    split
    next => exact ⟨rfl, rfl⟩
    next =>
      split
      next => exact ⟨rfl, rfl⟩
      next =>
        split
        next =>
          unfold ecall
          split <;> exact ⟨rfl, rfl⟩
        next => exact ⟨rfl, rfl⟩
        next h2 =>
          split
          next => exact ⟨rfl, rfl⟩
          next h7 => exact absurd ⟨h2, .inl h7⟩ hr
          next h7 => exact absurd ⟨h2, .inr h7⟩ hr
          next => exact ⟨rfl, rfl⟩
        next =>
          split
          next => exact ⟨rfl, rfl⟩
          next => exact ⟨rfl, rfl⟩
        next => exact ⟨rfl, rfl⟩

/-- The system opcode: a legal return, or an instruction that leaves the mode and `pc`. -/
theorem funct3_cases {cpu : Cpu} {d : Decoder} (hd : d.isCsr = true) :
    (∃ level, d.returns level ∧ level.MayReturn cpu ∧ Returned level cpu (funct3 cpu d)) ∨
      (∀ level, d.returns level → ¬level.MayReturn cpu) ∧ InPlace cpu (funct3 cpu d) := by
  by_cases hr : ∃ level, d.returns level
  · obtain ⟨level, hl⟩ := hr
    rw [funct3_of_returns hl]
    cases level with
    | supervisor =>
      rcases sret_cases cpu d with ⟨hi, hbad⟩ | ⟨hret, hok⟩
      · refine .inr ⟨fun l hl' => ?_, ?_⟩
        · obtain rfl := Decoder.returns_unique hl hl'
          rintro ⟨h22, hu⟩
          rcases hbad with h | h
          · rw [h22] at h
            cases h
          · exact hu h
        · simp only [hi]
          exact ⟨rfl, rfl⟩
      · exact .inl ⟨.supervisor, hl, hok, hret⟩
    | machine =>
      rcases mret_cases cpu d with ⟨hi, hbad⟩ | ⟨hret, hok⟩
      · refine .inr ⟨fun l hl' => ?_, ?_⟩
        · obtain rfl := Decoder.returns_unique hl hl'
          exact hbad
        · simp only [hi]
          exact ⟨rfl, rfl⟩
      · exact .inl ⟨.machine, hl, hok, hret⟩
  · refine .inr ⟨fun l hl => absurd ⟨l, hl⟩ hr, ?_⟩
    unfold funct3
    split
    next h3 =>
      refine environment_inPlace ?_
      rintro ⟨h2, h7⟩
      rcases h7 with h7 | h7
      · exact hr ⟨.supervisor, by simp [Decoder.returns, hd, h3, h2, h7]⟩
      · exact hr ⟨.machine, by simp [Decoder.returns, hd, h3, h2, h7]⟩
    next => exact csrHandlers_inPlace d.csr
    next => exact csrHandlers_inPlace d.csr
    next => exact csrHandlers_inPlace d.csr
    next => exact csrHandlers_inPlace d.csr
    next => exact csrHandlers_inPlace d.csr
    next => exact csrHandlers_inPlace d.csr
    next => exact ⟨rfl, rfl⟩

end CsrInsn

end Rv64gcEmu
