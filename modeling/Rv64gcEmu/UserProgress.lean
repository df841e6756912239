import Rv64gcEmu.UndefinedInsn
import Rv64gcEmu.UserIsolation

open Transition

namespace Rv64gcEmu

open VirtioBlkDevice (Total total_ok)

/-- Every page leads to the RAM, and an access that begins on it does not run over the end. -/
def Mmu.AllInRam (cpu : Cpu) : Prop :=
  ∀ a t leaf, lookup cpu a t = some leaf → cpu.bus.ram.Contains (leaf.physical a) 8

namespace Inside

variable {start cpu : Cpu} {address p : Word} {t : AccessType}

theorem translate_total (hs : Sandbox start) (h : Inside start cpu) (address : Word)
    (t : AccessType) : Total (Mmu.translate cpu address t) := by
  have hact := h.active (hs.active t)
  by_cases hit : cpu.host.useTlb = true ∧ Mmu.HitsEmpty cpu address
  · exact ⟨_, Mmu.translate_of_hitsEmpty hit.1 hact hit.2⟩
  · obtain ⟨tlb, ht, _⟩ := Mmu.translate_answer hact h.sound (h.tablesInRam (hs.tables address))
      fun huse hempty => hit ⟨huse, hempty⟩
    exact ⟨_, ht⟩

/-- A translation fails, or it leads to a place in the RAM with room for every access. -/
theorem translate_cases (hs : Sandbox start) (hr : Mmu.AllInRam start) (h : Inside start cpu)
    (address : Word) (t : AccessType) : ∃ p c, Mmu.translate cpu address t = .ok (p, c) ∧
      (c.excVal = none → ∀ length : Width, c.bus.ram.Contains p length.bytes) := by
  obtain ⟨⟨p, c⟩, ht⟩ := h.translate_total hs address t
  obtain ⟨hc, hlookup⟩ := h.translate hs ht
  refine ⟨p, c, ht, fun hn length => ?_⟩
  obtain ⟨leaf, hl, rfl⟩ := hlookup hn
  have hcontains := hr address t leaf hl
  unfold RamDevice.Contains at hcontains
  rw [← hc.range.1, ← hc.range.2] at hcontains
  exact RamDevice.Contains.mono hcontains length.bytes_le

theorem load_total (hs : Sandbox start) (hr : Mmu.AllInRam start) (h : Inside start cpu)
    (address : Word) (length : Width) : Total (Mmu.load cpu address length) := by
  obtain ⟨p, c, ht, hcontains⟩ := h.translate_cases hs hr address .load
  unfold Mmu.load
  rw [ht, Except.ok_bind]
  simp only
  split
  next => exact total_ok _
  next he => exact ⟨_, Bus.load_ram (hcontains (by simpa using he) length)⟩

theorem fetch_total (hs : Sandbox start) (hr : Mmu.AllInRam start) (h : Inside start cpu)
    (address : Word) : Total (Mmu.fetch cpu address) := by
  obtain ⟨p, c, ht, hcontains⟩ := h.translate_cases hs hr address .instruction
  unfold Mmu.fetch
  rw [ht, Except.ok_bind]
  simp only
  split
  next => exact total_ok _
  next he =>
    rw [Bus.load_ram (hcontains (by simpa using he) .w32), Except.ok_bind]
    simp only
    split <;> exact total_ok _

theorem store_total (hs : Sandbox start) (hr : Mmu.AllInRam start) (h : Inside start cpu)
    (address value : Word) (length : Width) : Total (Mmu.store cpu address value length) := by
  obtain ⟨p, c, ht, hcontains⟩ := h.translate_cases hs hr address .store
  unfold Mmu.store
  rw [ht, Except.ok_bind]
  simp only
  split
  next => exact total_ok _
  next he => exact ⟨_, Bus.store_ram value (hcontains (by simpa using he) length)⟩

theorem serves (hs : Sandbox start) (hr : Mmu.AllInRam start) : Serves (Inside start) where
  load h address length := by
    obtain ⟨⟨v, c⟩, hl⟩ := h.load_total hs hr address length
    exact ⟨v, c, hl, h.load hs hl⟩
  store h := h.store_total hs hr
  setException h := h.setException
  setReservations h _ := h.of_cregs rfl rfl rfl rfl rfl

end Inside

theorem Mmu.userPage_allInRam : AllInRam userPage := by
  intro a t leaf hl
  obtain ⟨hlow, hhigh⟩ := userPage_physical (Option.filter_eq_some_iff.mp hl).1
  refine ⟨BitVec.le_def.mpr (Nat.le_trans (by decide) hlow), ?_⟩
  change _ ≤ 0x100001000
  omega

namespace Cpu

variable {start cpu : Cpu} {env : Env} {turns : List (Step Cpu Phases)}

/-- With the fetch served, all that may be undefined in a turn is the instruction. -/
theorem loop_total_iff (h : Total (Mmu.fetch (cpu.setReg 0 0) cpu.pc)) :
    Total cpu._loop ↔ ∀ c d, cpu.Fetched c d → d.insn ≠ 0 → Total (c.execute d) := by
  obtain ⟨⟨v, c⟩, hfetch⟩ := h
  have hfetched : ∀ {c' d}, cpu.Fetched c' d → c' = c ∧ d = ⟨v.setWidth 32⟩ := by
    intro c' d hf
    obtain ⟨v', hfetch', rfl⟩ := hf.fetch
    obtain ⟨rfl, rfl⟩ := Prod.mk.inj (Except.ok.inj (hfetch'.symm.trans hfetch))
    exact ⟨rfl, rfl⟩
  have hpc : (cpu.setReg 0 0).pc = cpu.pc := rfl
  unfold _loop
  simp only [hpc, hfetch, Except.ok_bind]
  split
  next hs =>
    refine iff_of_true (total_ok _) fun c' d hf _ => ?_
    exact absurd (hf.awake.symm.trans hs) (by decide)
  next hs =>
    split
    next he =>
      refine iff_of_true (total_ok _) fun c' d hf _ => ?_
      obtain ⟨rfl, _⟩ := hfetched hf
      exact absurd he (by simp [hf.exc])
    next he =>
      split
      next hz =>
        refine iff_of_true (total_ok _) fun c' d hf hne => ?_
        obtain ⟨_, rfl⟩ := hfetched hf
        exact absurd hz hne
      next hz =>
        constructor
        · intro hx c' d hf _
          obtain ⟨rfl, rfl⟩ := hfetched hf
          exact hx
        · intro hx
          exact hx c _ ⟨by simpa using hs, ⟨v, hfetch, rfl⟩, by simpa using he⟩ hz

/-- User code is carried out unless an instruction of it is undefined. -/
theorem user_loop_total_iff (hs : Sandbox start) (hr : Mmu.AllInRam start) (h : Inside start cpu) :
    Total cpu._loop ↔ ∀ c d, cpu.Fetched c d → ¬c.Undefined d := by
  rw [loop_total_iff ((h.setReg 0 0).fetch_total hs hr cpu.pc)]
  refine forall_congr' fun c => forall_congr' fun d => imp_congr_right fun hf => ?_
  obtain ⟨v, hfetch, _⟩ := hf.fetch
  rw [(Inside.serves hs hr).execute_iff ((h.setReg 0 0).fetch hs hfetch)]
  exact ⟨fun hx hund => hx hund.insn_ne_zero hund, fun hx _ => hx⟩

/-- Wherever user code has got to, the next turn is made, unless it executes an operation that is
undefined; nothing else that the code does stops the host. -/
theorem user_progress (hs : Sandbox start) (hr : Mmu.AllInRam start) (ha : start.Accepts env)
    (run : Turns start turns cpu) (hu : ∀ t ∈ turns, t.label.InUser) (hm : cpu.mode = .user) :
    ∃ pending polled, cpu.poll env = .ok (pending, polled) ∧ (pending = none →
      ((∃ after, cpu.loop env = .ok after) ↔ ∀ c d, polled.Fetched c d → ¬c.Undefined d)) := by
  have hinside := (Turns.inside hs run hu).2 hm
  have haccepts : cpu.Accepts env := by
    unfold Accepts
    rw [run.host, hinside.console]
    exact ha
  obtain ⟨pending, polled, hp⟩ := poll_ok hinside.idle haccepts
  refine ⟨pending, polled, hp, ?_⟩
  rintro rfl
  rw [← user_loop_total_iff hs hr (hinside.of_ticked (poll_ticked hinside.idle hp))]
  constructor
  · rintro ⟨after, hl⟩
    obtain ⟨i, c, size, c', hp', hl', _⟩ := loop_phases.mp hl
    obtain ⟨rfl, rfl⟩ := Prod.mk.inj (Except.ok.inj (hp.symm.trans hp'))
    exact ⟨_, hl'⟩
  · rintro ⟨⟨size, c'⟩, hl⟩
    exact ⟨_, loop_phases.mpr ⟨none, polled, size, c', hp, hl, rfl⟩⟩

/-- The store on the page follows the instruction before it. -/
theorem user_progress_store : ∃ turns cpu after, Turns Mmu.userPage turns cpu ∧ turns.length = 1 ∧
    cpu.loop ⟨0, .idle⟩ = .ok after := by
  have auipc := @Turns.insn Mmu.userPage Mmu.userPage [] ⟨0, .idle⟩ _ _ _ _ ⟨0x317⟩ _ .start rfl
    ⟨rfl, ⟨_, rfl, rfl⟩, rfl⟩ (by decide) rfl
  have hprogress := @user_progress _ _ ⟨0, .idle⟩ _ Mmu.userPage_sandbox Mmu.userPage_allInRam
    (.inr ⟨rfl, by decide⟩) auipc (fun t ht => ?_) rfl
  · obtain ⟨pending, polled, hp, h⟩ := hprogress
    obtain ⟨rfl, rfl⟩ := Prod.mk.inj (Except.ok.inj hp)
    obtain ⟨after, hl⟩ := (h rfl).mpr fun c d hf hund => by
      obtain ⟨_, rfl⟩ := @Fetched.unique _ _ _ ⟨0x632823⟩ _ ⟨rfl, ⟨_, rfl, rfl⟩, rfl⟩ hf
      obtain ht | ht | ht | ht := hund.type
      all_goals exact absurd ht (by decide)
    exact ⟨_, _, after, auipc, rfl, hl⟩
  · obtain rfl := List.mem_singleton.mp ht
    exact @Phases.InUser.of_fetched _ _ ⟨0x317⟩ rfl ⟨rfl, ⟨_, rfl, rfl⟩, rfl⟩
      fun h => absurd h (by decide)

end Cpu

end Rv64gcEmu
