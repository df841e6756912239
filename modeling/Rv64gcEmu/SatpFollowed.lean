import Rv64gcEmu.TrappedSystem
import Rv64gcEmu.Turns
import Rv64gcEmu.WalkSpec

namespace Rv64gcEmu

open Mmu (SameRoot Kept)
open Transition (Step)

/-- The MMU has the mode and the root that `Mmu::update` would give it. -/
def SatpInForce (cpu : Cpu) : Prop := SameRoot (Mmu.update cpu).mmu cpu.mmu

theorem Mmu.sameRoot_kept (mmu : Mmu) : Kept (SameRoot mmu) :=
  ⟨fun h ht => h.trans (translate_coreEq ht).2⟩

namespace SatpInForce

variable {a b cpu : Cpu} {d : Decoder}

theorem of_update (cpu : Cpu) : SatpInForce (Mmu.update cpu) := .refl _

theorem congr (h : SatpInForce a) (hs : b.cregs.regs Address.satp = a.cregs.regs Address.satp)
    (hm : SameRoot a.mmu b.mmu) : SatpInForce b := by
  have hu : (Mmu.update b).mmu.mode = (Mmu.update a).mmu.mode ∧
      (Mmu.update b).mmu.mppn = (Mmu.update a).mmu.mppn := by
    change (Helper.readBits (b.cregs.regs Address.satp) 63 60).setWidth 4 =
        (Helper.readBits (a.cregs.regs Address.satp) 63 60).setWidth 4 ∧
      (Helper.readBits (b.cregs.regs Address.satp) 43 0 <<< 12).setWidth 32 =
        (Helper.readBits (a.cregs.regs Address.satp) 43 0 <<< 12).setWidth 32
    rw [hs]
    exact ⟨rfl, rfl⟩
  exact ⟨hm.1.trans (h.1.trans hu.1.symm), hm.2.trans (h.2.trans hu.2.symm)⟩

theorem of_coreEq (h : SatpInForce a) (hc : Cpu.CoreEq a b) (hm : SameRoot a.mmu b.mmu) :
    SatpInForce b := h.congr (by rw [hc.cregs]) hm

theorem of_polled (h : SatpInForce a) (hp : Cpu.Polled a b) : SatpInForce b :=
  h.congr (hp.csr _ (by decide) (by decide) (by decide)) (hp.mmu ▸ .refl _)

theorem enter_satp (cpu : Cpu) (deleg : Bool) (offset : Word → Word) (cause tval : Word) :
    (Trap.enter cpu deleg offset cause tval).cregs.regs Address.satp =
      cpu.cregs.regs Address.satp := by
  unfold Trap.enter
  split
  next =>
    unfold Trap.enterSupervisor Csr.writeBitSstatus
    simp (disch := decide) only [Cpu.setCregs_cregs, Cpu.setPc_cregs, Cpu.setMode_cregs,
      Csr.writeBit_of_ne, Csr.store_of_ne]
  next =>
    unfold Trap.enterMachine Csr.writeBitMstatus Csr.writeMppMode Csr.writeBits
    simp (disch := decide) only [Cpu.setCregs_cregs, Cpu.setPc_cregs, Cpu.setMode_cregs,
      Csr.writeBit_of_ne, Csr.store_of_ne]

theorem load {address v : Word} {length : Width} (h : SatpInForce a)
    (hl : Mmu.load a address length = .ok (v, b)) : SatpInForce b :=
  h.of_coreEq (Mmu.load_coreEq hl) ((Mmu.sameRoot_kept a.mmu).load (.refl _) hl)

theorem fetch {address v : Word} (h : SatpInForce a)
    (hf : Mmu.fetch (a.setReg 0 0) address = .ok (v, b)) : SatpInForce b :=
  h.congr (by rw [(Mmu.fetch_coreEq hf).cregs]; rfl)
    ((Mmu.sameRoot_kept (a.setReg 0 0).mmu).fetch (.refl _) hf)

theorem interrupted (h : SatpInForce cpu) (i : Option Interrupt) :
    SatpInForce (cpu.interrupted i) := by
  refine h.congr ?_ ((Cpu.interrupted_frame cpu i).mmu ▸ .refl _)
  cases i with
  | none => rfl
  | some i => exact enter_satp _ _ _ _ _

theorem finish (h : SatpInForce cpu) (size : Word) : SatpInForce (cpu.finish size) := by
  refine h.congr ?_ ((Cpu.finish_frame cpu size).mmu ▸ .refl _)
  cases he : cpu.excVal with
  | none => rw [Cpu.finish_of_none he, Cpu.setPc_cregs]
  | some e =>
    have hp : (Exception.process cpu e).cregs.regs Address.satp = cpu.cregs.regs Address.satp :=
      enter_satp _ _ _ _ _
    rcases Cpu.finish_of_exception he size with hf | hf
    · rw [hf, hp]
    · rw [hf]
      exact hp

theorem csrHandlers {csr : BitVec 12} {rhs : Word} {op : CsrOp} (h : SatpInForce cpu) :
    SatpInForce (CsrInsn.csrHandlers csr cpu d csr rhs op) := by
  by_cases hs : csr = Address.satp
  · subst hs
    exact of_update _
  · have hcell : Address.satp ≠ Csr.cellOf csr := by
      unfold Csr.cellOf
      split
      next => decide
      next =>
        split
        next => decide
        next =>
          split
          next => decide
          next => exact Ne.symm hs
    have hstore : ∀ v, SatpInForce (cpu.setCregs (cpu.cregs.store csr v)) := fun v =>
      h.congr (Csr.store_of_ne hcell v) (.refl _)
    have hcells : ∀ b : Cpu, b.cregs.regs Address.satp = cpu.cregs.regs Address.satp →
        b.mmu = cpu.mmu → SatpInForce b := fun b hb hm => h.congr hb (hm ▸ .refl _)
    refine @CsrInsn.csrHandlers_cases (fun handler => SatpInForce (handler cpu d csr rhs op)) csr
      (hcells _ ?_ rfl) (hcells _ ?_ rfl) (hcells _ ?_ rfl) (of_update _) (hcells _ rfl rfl) ?_ ?_
      (hcells _ (Csr.store_of_ne hcell _) rfl)
    · rfl
    · rfl
    · rfl
    · unfold CsrInsn.csrEnforcedReadonlyHandler
      simp only
      split
      next => exact hcells _ rfl rfl
      next => exact hcells _ rfl rfl
    · unfold CsrInsn.csrPrivledgedHandler
      split
      next => exact hcells _ rfl rfl
      next => exact hcells _ (Csr.store_of_ne hcell _) rfl

theorem sret_mmu (cpu : Cpu) (d : Decoder) : (CsrInsn.sret cpu d).mmu = cpu.mmu := by
  unfold CsrInsn.sret
  split
  next => rfl
  next =>
    simp only
    split
    next => rfl
    next => rfl

theorem mret_mmu (cpu : Cpu) (d : Decoder) : (CsrInsn.mret cpu d).mmu = cpu.mmu := by
  unfold CsrInsn.mret
  split
  next => rfl
  next =>
    simp only
    split
    next => rfl
    next => rfl

theorem environment (h : SatpInForce cpu) : SatpInForce (CsrInsn.environment cpu d) := by
  have hsame : ∀ b : Cpu, b.cregs = cpu.cregs → b.mmu = cpu.mmu → SatpInForce b := fun b hb hm =>
    h.congr (by rw [hb]) (hm ▸ .refl _)
  have hreturn : ∀ {b : Cpu} {level : Level}, Returned level cpu b → b.mmu = cpu.mmu →
      SatpInForce b := fun hr hm => h.congr (hr.cell (by decide)) (hm ▸ .refl _)
  unfold CsrInsn.environment
  split
  next => exact of_update _
  next =>
    split
    next => exact hsame _ rfl rfl
    next =>
      split
      next => exact hsame _ rfl rfl
      next =>
        split
        next =>
          unfold CsrInsn.ecall
          split <;> exact hsame _ rfl rfl
        next => exact hsame _ rfl rfl
        next =>
          split
          next => exact hsame _ rfl rfl
          next =>
            rcases CsrInsn.sret_cases cpu d with ⟨hi, _⟩ | ⟨hret, _⟩
            · rw [hi]
              exact hsame _ rfl rfl
            · exact hreturn hret (sret_mmu cpu d)
          next =>
            rcases CsrInsn.mret_cases cpu d with ⟨hi, _⟩ | ⟨hret, _⟩
            · rw [hi]
              exact hsame _ rfl rfl
            · exact hreturn hret (mret_mmu cpu d)
          next => exact hsame _ rfl rfl
        next =>
          split
          next => exact hsame _ rfl rfl
          next => exact hsame _ rfl rfl
        next => exact hsame _ rfl rfl

theorem funct3 (h : SatpInForce cpu) : SatpInForce (CsrInsn.funct3 cpu d) := by
  unfold CsrInsn.funct3
  split
  next => exact h.environment
  next => exact h.csrHandlers
  next => exact h.csrHandlers
  next => exact h.csrHandlers
  next => exact h.csrHandlers
  next => exact h.csrHandlers
  next => exact h.csrHandlers
  next => exact h.congr rfl (.refl _)

theorem execute {after : Cpu} {size : Word} (h : SatpInForce cpu)
    (hx : cpu.execute d = .ok (size, after)) : SatpInForce after := by
  cases Cpu.execute_ran hx with
  | plain _ _ he =>
    refine h.congr (he.frame.csr _ (by decide)) ((Mmu.sameRoot_kept cpu.mmu).effect (.refl _) he)
  | atomic _ _ ha =>
    obtain ⟨c, hc, hop⟩ := Atomic.funct3_cases ha
    refine h.congr (by rw [(Atomic.funct3_frame ha).cregs]) ?_
    exact (Mmu.sameRoot_kept cpu.mmu).atomicOp (hc.mmu ▸ .refl _) hop
  | csr _ _ hc => exact hc ▸ h.funct3

end SatpInForce

namespace Mmu

/-- The entry of the root table that a walk reads first. -/
def rootPteAddr (mmu : Mmu) (address : Word) : Word :=
  mmu.mppn.setWidth 64 + mmu.getVpn address (mmu.getLevels - 1) * 8

/-- The first access of the loop of `fetch_pte`, and what it does with the entry. -/
theorem fetchPteLoop_first (cpu : Cpu) (address : Word) (accessType : AccessType)
    (entry : TlbEntry) (h : 0 < cpu.mmu.getLevels) :
    fetchPteLoop cpu address accessType (cpu.mmu.getVpn address) (cpu.mmu.mppn.setWidth 64) entry
        cpu.mmu.getLevels =
      Bus.load cpu (cpu.mmu.rootPteAddr address) .w64 >>= fun r =>
        let entry := fillEntry entry (cpu.mmu.rootPteAddr address) r.1
        if !r.1.getLsbD 0 || (!entry.read && entry.write) then
          .ok (none, setCpuError r.2 address accessType)
        else if entry.read || entry.execute then .ok (some (cpu.mmu.getLevels - 1, entry), r.2)
        else fetchPteLoop r.2 address accessType (cpu.mmu.getVpn address)
          (((r.1 >>> 10) &&& 0xfffffffffff) * pageSize) entry (cpu.mmu.getLevels - 1) := by
  unfold rootPteAddr
  generalize cpu.mmu.getVpn address = vpn
  generalize cpu.mmu.getLevels = levels at h ⊢
  cases levels with
  | zero => exact absurd h (lt_irrefl 0)
  | succ n => rfl

end Mmu

/-- The page number of the address in the root table. -/
def SvMode.topVpn (sv : SvMode) (address : Word) : BitVec 9 :=
  address.extractLsb' (12 + 9 * (sv.levels - 1)) 9

/-- The mode is that of `satp`, and a walk starts in the table that `satp` names. -/
structure FollowsSatp (cpu : Cpu) : Prop where
  mode : cpu.mmu.mode = (cpu.cregs.regs Address.satp).extractLsb' 60 4
  root : ∀ sv : SvMode, (cpu.cregs.regs Address.satp).extractLsb' 60 4 = sv.code →
    ∀ address, (cpu.mmu.rootPteAddr address).toNat =
      ((cpu.cregs.regs Address.satp).extractLsb' 0 44).toNat * 4096 +
        8 * (sv.topVpn address).toNat

/-- In a paging mode the root table is below 4 GiB. -/
def RootBelow4G (cpu : Cpu) : Prop :=
  ∀ sv : SvMode, (cpu.cregs.regs Address.satp).extractLsb' 60 4 = sv.code →
    ((cpu.cregs.regs Address.satp).extractLsb' 0 44).toNat < 2 ^ 20

namespace SatpInForce

variable {cpu : Cpu}

theorem mode_eq (h : SatpInForce cpu) :
    cpu.mmu.mode = (cpu.cregs.regs Address.satp).extractLsb' 60 4 := by
  rw [h.1, ← (Mmu.readBits_satp _).1]
  rfl

/-- The shifted page number, cut off at 32 bits. -/
theorem mppn_toNat (h : SatpInForce cpu) : cpu.mmu.mppn.toNat =
    ((cpu.cregs.regs Address.satp).extractLsb' 0 44).toNat * 4096 % 2 ^ 32 := by
  have hm : cpu.mmu.mppn =
      (Helper.readBits (cpu.cregs.regs Address.satp) 43 0 <<< 12).setWidth 32 := h.2
  have hlt := ((cpu.cregs.regs Address.satp).extractLsb' 0 44).isLt
  rw [hm, (Mmu.readBits_satp _).2, BitVec.toNat_setWidth, BitVec.toNat_shiftLeft,
    BitVec.toNat_setWidth, Nat.shiftLeft_eq]
  omega

theorem rootPteAddr_toNat (h : SatpInForce cpu) {sv : SvMode}
    (hsv : (cpu.cregs.regs Address.satp).extractLsb' 60 4 = sv.code) (address : Word) :
    (cpu.mmu.rootPteAddr address).toNat =
      ((cpu.cregs.regs Address.satp).extractLsb' 0 44).toNat * 4096 % 2 ^ 32 +
        8 * (sv.topVpn address).toNat := by
  have hlevels : cpu.mmu.getLevels = sv.levels := by
    unfold Mmu.getLevels
    rw [h.mode_eq, hsv]
    cases sv <;> rfl
  have hpos : sv.levels - 1 < sv.levels := by cases sv <;> decide
  have hvpn : cpu.mmu.getVpn address (cpu.mmu.getLevels - 1) =
      (sv.topVpn address).setWidth 64 := by
    unfold Mmu.getVpn SvMode.topVpn
    rw [hlevels, if_pos hpos, Nat.mul_comm 9]
    exact BitField.field_eq_of_setWidth address (12 + (sv.levels - 1) * 9) 9
  have hlt := (sv.topVpn address).isLt
  have hmod := Nat.mod_lt (((cpu.cregs.regs Address.satp).extractLsb' 0 44).toNat * 4096)
    (show 0 < 2 ^ 32 by omega)
  unfold Mmu.rootPteAddr
  rw [hvpn, BitVec.toNat_add, BitVec.toNat_mul, BitVec.toNat_setWidth, BitVec.toNat_setWidth,
    h.mppn_toNat]
  have h8 : (8 : Word).toNat = 8 := rfl
  rw [h8]
  omega

theorem follows_iff (h : SatpInForce cpu) : FollowsSatp cpu ↔ RootBelow4G cpu := by
  constructor
  · intro hf sv hsv
    have hlt := ((cpu.cregs.regs Address.satp).extractLsb' 0 44).isLt
    have hroot := hf.root sv hsv 0
    rw [h.rootPteAddr_toNat hsv] at hroot
    have hmod := Nat.mod_lt (((cpu.cregs.regs Address.satp).extractLsb' 0 44).toNat * 4096)
      (show 0 < 2 ^ 32 by omega)
    omega
  · intro hb
    refine ⟨h.mode_eq, fun sv hsv address => ?_⟩
    have hlt := hb sv hsv
    rw [h.rootPteAddr_toNat hsv, Nat.mod_eq_of_lt]
    omega

end SatpInForce

namespace Cpu

/-- The states of a run from which an address may be translated: between two turns, where a
turn fetches, and in an instruction, before an access and behind it. -/
inductive Visited (start : Cpu) : Cpu → Prop
  | between {turns : List (Step Cpu Phases)} {cpu : Cpu} (run : Turns start turns cpu) :
      Visited start cpu
  | fetching {turns : List (Step Cpu Phases)} {before cpu : Cpu} {env : Env} {i : Option Interrupt}
      (run : Turns start turns before) (h : before.poll env = .ok (i, cpu)) :
      Visited start (cpu.interrupted i)
  | executing {cpu c : Cpu} {d : Decoder} (hv : Visited start cpu) (h : cpu.Fetched c d) :
      Visited start c
  | access {cpu c : Cpu} (hv : Visited start cpu) (hcregs : c.cregs = cpu.cregs)
      (hmmu : c.mmu = cpu.mmu) : Visited start c
  | loaded {cpu c : Cpu} {address v : Word} {length : Width} (hv : Visited start cpu)
      (h : Mmu.load cpu address length = .ok (v, c)) : Visited start c

theorem Turn.satpInForce {before after : Cpu} {p : Phases} (h : Turn before p after)
    (hb : SatpInForce before) : SatpInForce after := by
  have hf : SatpInForce p.fetching := (hb.of_polled (poll_polled h.poll)).interrupted p.pending
  rw [← h.finish]
  refine SatpInForce.finish ?_ p.size
  obtain ⟨_, _, he⟩ | ⟨_, _, _, v, hfetch⟩ | ⟨c, d, hx, _, _, he⟩ | ⟨c, d, hx, _, he⟩ :=
    loop_cases h.loop
  · exact he ▸ hf.congr rfl (.refl _)
  · exact hf.fetch hfetch
  · obtain ⟨v, hfetch, _⟩ := hx.fetch
    exact he ▸ (hf.fetch hfetch).congr rfl (.refl _)
  · obtain ⟨v, hfetch, _⟩ := hx.fetch
    exact (hf.fetch hfetch).execute he

theorem Turns.satpInForce {start cpu : Cpu} {turns : List (Step Cpu Phases)}
    (h0 : SatpInForce start) (run : Turns start turns cpu) : SatpInForce cpu :=
  run.always (I := SatpInForce) (fun _ _ _ h hb => h.satpInForce hb) h0

theorem Visited.satpInForce {start cpu : Cpu} (h0 : SatpInForce start) (h : Visited start cpu) :
    SatpInForce cpu := by
  induction h with
  | between run => exact run.satpInForce h0
  | fetching run h => exact ((run.satpInForce h0).of_polled (poll_polled h)).interrupted _
  | executing _ h ih =>
    obtain ⟨v, hfetch, _⟩ := h.fetch
    exact ih.fetch hfetch
  | access _ hcregs hmmu ih => exact ih.congr (by rw [hcregs]) (hmmu ▸ .refl _)
  | loaded _ h ih => exact ih.load h

theorem init_satpInForce (ram : RamDevice) (gpu : Option GpuDevice)
    (virtio : Option VirtioBlkDevice) (syscon : Bool) (host : Host) :
    SatpInForce (init ram gpu virtio syscon host) := by
  change (0 : BitVec 4) = (Helper.readBits 0 63 60).setWidth 4 ∧
    (0 : BitVec 32) = (Helper.readBits 0 43 0 <<< 12).setWidth 32
  decide

/-- The MMU follows `satp` in exactly those states in which the root table lies where 32 bits
can tell. -/
theorem visited_followsSatp_iff {ram : RamDevice} {gpu : Option GpuDevice}
    {virtio : Option VirtioBlkDevice} {syscon : Bool} {host : Host} {cpu : Cpu}
    (h : Visited (init ram gpu virtio syscon host) cpu) : FollowsSatp cpu ↔ RootBelow4G cpu :=
  (h.satpInForce (init_satpInForce ram gpu virtio syscon host)).follows_iff

/-- `lui x5, 0x80000`, `addi x5, x5, 1`, `slli x5, x5, 32` and `csrrw x0, satp, x5`, from a
reset: Sv39 with a root table at 2^44. -/
def highRoot : Cpu :=
  ofImage [0xb7, 0x02, 0x00, 0x80, 0x93, 0x82, 0x12, 0x00, 0x93, 0x92, 0x02, 0x02,
    0x73, 0x90, 0x02, 0x18] (by decide)

theorem highRoot_visited : ∃ cpu, Visited highRoot cpu ∧
    cpu.cregs.regs Address.satp = 0x8000000100000000 ∧ ¬FollowsSatp cpu := by
  have lui := @Turns.insn highRoot highRoot [] ⟨0, .idle⟩ _ _ _ _ ⟨0x800002b7⟩ _ .start rfl
    ⟨rfl, ⟨_, rfl, rfl⟩, rfl⟩ (by decide) rfl
  have addi := @Turns.insn _ highRoot _ ⟨0, .idle⟩ _ _ _ _ ⟨0x00128293⟩ _ lui rfl
    ⟨rfl, ⟨_, rfl, rfl⟩, rfl⟩ (by decide) rfl
  have slli := @Turns.insn _ highRoot _ ⟨0, .idle⟩ _ _ _ _ ⟨0x02029293⟩ _ addi rfl
    ⟨rfl, ⟨_, rfl, rfl⟩, rfl⟩ (by decide) rfl
  have csrrw := @Turns.insn _ highRoot _ ⟨0, .idle⟩ _ _ _ _ ⟨0x18029073⟩ _ slli rfl
    ⟨rfl, ⟨_, rfl, rfl⟩, rfl⟩ (by decide) rfl
  exact ⟨_, .between csrrw, rfl, fun hf => absurd (hf.root .sv39 rfl 0) (by decide)⟩

theorem visited_followsSatp_iff_highRoot : ∃ cpu, Visited highRoot cpu ∧
    cpu.cregs.regs Address.satp = 0x8000000100000000 ∧ (FollowsSatp cpu ↔ RootBelow4G cpu) := by
  obtain ⟨cpu, hv, hsatp, _⟩ := highRoot_visited
  exact ⟨cpu, hv, hsatp, visited_followsSatp_iff hv⟩

theorem highRoot_not_followed : ¬ ∀ (ram : RamDevice) (gpu : Option GpuDevice)
    (virtio : Option VirtioBlkDevice) (syscon : Bool) (host : Host) (cpu : Cpu),
    Visited (init ram gpu virtio syscon host) cpu → FollowsSatp cpu := by
  intro h
  obtain ⟨cpu, hv, _, hn⟩ := highRoot_visited
  exact hn (h _ _ _ _ _ cpu hv)

end Cpu

end Rv64gcEmu
