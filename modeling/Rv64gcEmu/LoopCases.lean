import Rv64gcEmu.DecoderFields
import Rv64gcEmu.Execute
import Rv64gcEmu.MmuFrame

namespace Rv64gcEmu

namespace Cpu

/-- `_loop` reaches the decoder: awake, with an instruction word that was fetched
without an exception. -/
structure Fetched (cpu cpu' : Cpu) (d : Decoder) : Prop where
  awake : cpu.sleep = false
  fetch : ∃ v, Mmu.fetch (cpu.setReg 0 0) cpu.pc = .ok (v, cpu') ∧ d = ⟨v.setWidth 32⟩
  exc : cpu'.excVal = none

theorem Fetched.coreEq {cpu cpu' : Cpu} {d : Decoder} (h : Fetched cpu cpu' d) :
    CoreEq (cpu.setReg 0 0) cpu' := by
  obtain ⟨v, hf, _⟩ := h.fetch
  exact Mmu.fetch_coreEq hf

theorem Fetched.regs {cpu cpu' : Cpu} {d : Decoder} (h : Fetched cpu cpu' d) {r : BitVec 5}
    (hr : r ≠ 0) : cpu'.regs r = cpu.regs r := by
  rw [h.coreEq.regs, setReg_regs, Function.update_of_ne hr]

theorem Fetched.regs_zero {cpu cpu' : Cpu} {d : Decoder} (h : Fetched cpu cpu' d) :
    cpu'.regs 0 = 0 := by
  rw [h.coreEq.regs, setReg_regs, Function.update_self]

theorem Fetched.unique {before c c' : Cpu} {d d' : Decoder} (h : before.Fetched c d)
    (h' : before.Fetched c' d') : c' = c ∧ d' = d := by
  obtain ⟨v, hf, rfl⟩ := h.fetch
  obtain ⟨v', hf', rfl⟩ := h'.fetch
  obtain ⟨rfl, rfl⟩ := Prod.mk.inj (Except.ok.inj (hf'.symm.trans hf))
  exact ⟨rfl, rfl⟩

/-- Every turn of `_loop` that reaches the decoder runs the instruction it fetched. -/
theorem loop_of_fetched {cpu cpu' : Cpu} {d : Decoder} (h : Fetched cpu cpu' d) (hd : d.insn ≠ 0) :
    cpu._loop = execute cpu' d := by
  obtain ⟨v, hf, rfl⟩ := h.fetch
  unfold _loop
  have hs : (cpu.setReg 0 0).sleep = false := h.awake
  have hp : (cpu.setReg 0 0).pc = cpu.pc := rfl
  simp only [hs, hp, hf, Except.ok_bind, h.exc, Option.isSome_none, Bool.false_eq_true, if_false,
    if_neg hd]

/-- Everything one turn of `_loop` can do. -/
theorem loop_cases {cpu cpu' : Cpu} {size : Word} (h : cpu._loop = .ok (size, cpu')) :
    (cpu.sleep = true ∧ size = 0 ∧ cpu' = cpu.setReg 0 0) ∨
    (cpu.sleep = false ∧ size = 4 ∧ cpu'.excVal.isSome ∧
      ∃ v, Mmu.fetch (cpu.setReg 0 0) cpu.pc = .ok (v, cpu')) ∨
    (∃ c d, Fetched cpu c d ∧ d.insn = 0 ∧ size = 4 ∧ cpu' = c.setException .illegalInstruction 0) ∨
    (∃ c d, Fetched cpu c d ∧ d.insn ≠ 0 ∧ execute c d = .ok (size, cpu')) := by
  unfold _loop at h
  simp only at h
  split at h
  next hs =>
    obtain ⟨rfl, rfl⟩ := Prod.mk.inj (Except.ok.inj h)
    exact .inl ⟨hs, rfl, rfl⟩
  next hs =>
    have hs' : cpu.sleep = false := by simpa using hs
    obtain ⟨⟨v, c⟩, hf, h⟩ := Except.bind_eq_ok_iff.mp h
    simp only at h
    split at h
    next he =>
      obtain ⟨rfl, rfl⟩ := Prod.mk.inj (Except.ok.inj h)
      exact .inr (.inl ⟨hs', rfl, he, v, hf⟩)
    next he =>
      have hc : Fetched cpu c ⟨v.setWidth 32⟩ := ⟨hs', ⟨v, hf, rfl⟩, by simpa using he⟩
      split at h
      next hz =>
        obtain ⟨rfl, rfl⟩ := Prod.mk.inj (Except.ok.inj h)
        exact .inr (.inr (.inl ⟨c, _, hc, hz, rfl, rfl⟩))
      next hz => exact .inr (.inr (.inr ⟨c, _, hc, hz, h⟩))

/-- The two dispatchers. -/
theorem execute_cases {cpu cpu' : Cpu} {d : Decoder} {size : Word}
    (h : cpu.execute d = .ok (size, cpu')) :
    (d.insnSize = 2 ∧ size = 2 ∧ cpu.execute16 d = .ok cpu') ∨
      (d.insnSize = 4 ∧ size = 4 ∧ cpu.execute32 d = .ok cpu') := by
  unfold execute at h
  rcases d.insnSize_cases with hs | hs
  · simp only [if_pos hs] at h
    obtain ⟨c, hx, h⟩ := Except.bind_eq_ok_iff.mp h
    obtain ⟨rfl, rfl⟩ := Prod.mk.inj (Except.ok.inj h)
    exact .inl ⟨hs, hs, hx⟩
  · have hne : d.insnSize ≠ 2 := by
      rw [hs]
      decide
    simp only [if_neg hne] at h
    obtain ⟨c, hx, h⟩ := Except.bind_eq_ok_iff.mp h
    obtain ⟨rfl, rfl⟩ := Prod.mk.inj (Except.ok.inj h)
    exact .inr ⟨hs, hs, hx⟩

theorem execute_of_type {cpu : Cpu} {d : Decoder} {t : OpcodeType} (h : d.opcodeType = some t) :
    cpu.execute d = (cpu.execute32 d >>= fun c => .ok (4, c)) := by
  have hs := Decoder.insnSize_of_type h
  unfold execute
  rw [hs]
  rfl

/-- The machine of the tests, `Cpu(&dram)`, with one page of RAM. -/
def ofImage (image : List Byte) (h : image.length ≤ 0x1000) : Cpu :=
  init (RamDevice.ofImage 0x80000000 0x1000 image h) none none false ⟨true, true, default⟩

end Cpu

end Rv64gcEmu
