import Rv64gcEmu.IsaVirtual
import Rv64gcEmu.PrivilegeMode
import Rv64gcEmu.ReadonlyCsr
import Rv64gcEmu.SystemStep

open Transition

namespace Rv64gcEmu

open Cpu (CoreEq SameMemory Ticked)

namespace Mmu

/-- A store at the address is let through, and begins at `p`. -/
def StoresTo (cpu : Cpu) (a p : Word) : Prop :=
  ∃ leaf, lookup cpu a .store = some leaf ∧ leaf.physical a = p

/-- A store may change the byte; one that begins at the end of a page goes on behind its frame. -/
def Exposed (cpu : Cpu) (x : Word) : Prop := ∃ a p, StoresTo cpu a p ∧ (x - p).toNat < 8

end Mmu

/-- User mode with page tables in the RAM that no user page reaches into; every page that may be
written is in the RAM, and the disk has not been notified. -/
structure Sandbox (start : Cpu) : Prop where
  user : start.mode = .user
  active : ∀ t, Mmu.Active start t
  sound : Mmu.Sound start
  tables : ∀ a, Mmu.TablesInRam start a
  ram : ∀ a p, Mmu.StoresTo start a p → start.bus.ram.InRange p
  apart : ∀ x, Mmu.Exposed start x → ¬Mmu.TableByte start x
  idle : ∀ v, start.bus.virtio = some v → v.queueNotify = VirtioCfg.queueNotifyReset

/-- No byte but those exposed and those of the tables has changed. -/
structure Contained (start cpu : Cpu) : Prop where
  tables : ∀ x, Mmu.InTables start x → Paging.SameButMarks (cpu.memory x) (start.memory x)
  rest : ∀ x, ¬Mmu.Exposed start x → ¬Mmu.TableByte start x →
    cpu.bus.ram.byteAt x = start.bus.ram.byteAt x

/-- No device has changed but what a console may lose by being read. -/
structure Bus.SameDevices (a b : Bus) : Prop where
  timer : b.clint = a.clint
  console : b.gpu.isSome = a.gpu.isSome
  disk : b.virtio = a.virtio

theorem Bus.SameDevices.of_eq {a b : Bus} (h : b = a) : Bus.SameDevices a b := by
  subst h
  exact ⟨rfl, rfl, rfl⟩

/-- The state of the processor while user code runs: no CSR above the lowest privilege has changed,
but for the lines of the devices in `mip`. -/
structure Inside (start cpu : Cpu) : Prop extends Mmu.SameSpace start cpu where
  csr : ∀ x, CsrInsn.level x ≠ 0 → x ≠ Address.mip → cpu.cregs.regs x = start.cregs.regs x
  rest : ∀ x, ¬Mmu.Exposed start x → ¬Mmu.TableByte start x →
    cpu.bus.ram.byteAt x = start.bus.ram.byteAt x
  timer : cpu.bus.clint.mtimecmp = start.bus.clint.mtimecmp
  console : cpu.bus.gpu.isSome = start.bus.gpu.isSome
  idle : ∀ v, cpu.bus.virtio = some v → v.queueNotify = VirtioCfg.queueNotifyReset

namespace Inside

variable {start cpu after c : Cpu} {address p v value : Word} {length : Width} {t : AccessType}

theorem refl (hs : Sandbox start) : Inside start start :=
  ⟨.refl hs.sound, fun _ _ _ => rfl, fun _ _ _ => rfl, rfl, rfl, hs.idle⟩

theorem contained (h : Inside start cpu) : Contained start cpu := ⟨h.tables, h.rest⟩

theorem of_same (h : Inside start cpu) (hab : SameMemory cpu after)
    (hd : Bus.SameDevices cpu.bus after.bus)
    (hc : ∀ x, CsrInsn.level x ≠ 0 → x ≠ Address.mip → after.cregs.regs x = cpu.cregs.regs x) :
    Inside start after := by
  refine ⟨.of_same hab h.toSameSpace, fun x hx hm => (hc x hx hm).trans (h.csr x hx hm), ?_,
    (congrArg ClintDevice.mtimecmp hd.timer).trans h.timer, hd.console.trans h.console, ?_⟩
  · rw [hab.ram]
    exact h.rest
  · rw [hd.disk]
    exact h.idle

/-- The CSRs are as they were, and so is all that the memory depends on. -/
theorem of_cregs (h : Inside start cpu) (hb : after.bus = cpu.bus) (hm : after.mmu = cpu.mmu)
    (hmode : after.mode = cpu.mode) (hhost : after.host = cpu.host)
    (hc : after.cregs = cpu.cregs) : Inside start after :=
  h.of_same ⟨congrArg Bus.ram hb, hm, hmode, congrFun (congrArg Csr.regs hc) _, hhost⟩
    (.of_eq hb) fun x _ _ => congrFun (congrArg Csr.regs hc) x

theorem of_ticked (h : Inside start cpu) (hab : Ticked cpu after) : Inside start after := by
  refine ⟨.of_same hab.memory h.toSameSpace, fun x hx hm => ?_, ?_, hab.timer.trans h.timer,
    hab.gpu.trans h.console, fun v hv => ?_⟩
  · refine (hab.csr x ?_ ?_ hm).trans (h.csr x hx hm)
    · rintro rfl
      exact hx rfl
    · rintro rfl
      exact hx rfl
  · rw [hab.ram]
    exact h.rest
  · obtain ⟨v', hv', heq⟩ := hab.disk v hv
    exact heq.trans (h.idle v' hv')

theorem setCpuError (h : Inside start cpu) (address : Word) (t : AccessType) :
    Inside start (Mmu.setCpuError cpu address t) where
  mode := h.mode
  status := h.status
  root := h.root
  range := h.range
  sound := ⟨h.sound.root, fun _ => Mmu.coherent_flush h.sound.root rfl⟩
  tables := h.tables
  csr := h.csr
  rest := h.rest
  timer := h.timer
  console := h.console
  idle := h.idle

/-- A translation marks the tables at most, and one without a fault is that of the tables at the
start. -/
theorem translate (hs : Sandbox start) (h : Inside start cpu)
    (ht : Mmu.translate cpu address t = .ok (p, c)) : Inside start c ∧
      (c.excVal = none → ∃ leaf, Mmu.lookup start address t = some leaf ∧
        leaf.physical address = p) := by
  have hact := h.active (hs.active t)
  have herror : Mmu.translate cpu address t = .ok (0, Mmu.setCpuError cpu address t) →
      Inside start c ∧ (c.excVal = none → ∃ leaf, Mmu.lookup start address t = some leaf ∧
        leaf.physical address = p) := by
    intro h0
    obtain ⟨_, rfl⟩ := Prod.mk.inj (Except.ok.inj (h0.symm.trans ht))
    exact ⟨h.setCpuError address t, fun hn => absurd hn (by simp [Mmu.setCpuError])⟩
  by_cases hit : cpu.host.useTlb = true ∧ Mmu.HitsEmpty cpu address
  · exact herror (Mmu.translate_of_hitsEmpty hit.1 hact hit.2)
  · obtain ⟨tlb, ht', hsound⟩ := Mmu.translate_answer hact h.sound
      (h.tablesInRam (hs.tables address)) fun huse hempty => hit ⟨huse, hempty⟩
    cases hl : Mmu.lookup cpu address t with
    | none =>
      have hans : Mmu.answer cpu address t tlb = (0, Mmu.setCpuError cpu address t) := by
        unfold Mmu.answer
        rw [hl]
      exact herror (hans ▸ ht')
    | some leaf =>
      have hans : Mmu.answer cpu address t tlb =
          (leaf.physical address, Mmu.resolved cpu tlb leaf t) := by
        unfold Mmu.answer
        rw [hl]
      rw [hans] at ht' hsound
      obtain ⟨rfl, rfl⟩ := Prod.mk.inj (Except.ok.inj (ht'.symm.trans ht))
      obtain ⟨hspace, hbyte⟩ :=
        h.toSameSpace.resolved (Option.filter_eq_some_iff.mp hl).1 hsound
      refine ⟨⟨hspace, h.csr, fun x hx ht => (hbyte x ht).trans (h.rest x hx ht), h.timer, h.console,
        h.idle⟩, fun _ => ?_⟩
      rw [h.toSameSpace.lookup] at hl
      obtain ⟨leaf', hl', rfl⟩ := Option.map_eq_some_iff.mp hl
      exact ⟨leaf', hl', (h.physical (Option.filter_eq_some_iff.mp hl').1 address).symm⟩

theorem busLoad (h : Inside start cpu) (hl : Bus.load cpu p length = .ok (v, after)) :
    Inside start after := by
  rcases Bus.load_cases hl with ⟨d, bus, _, hd, rfl⟩ | ⟨_, _, rfl⟩
  · refine h.of_same ⟨Bus.deviceLoad_ram hd, rfl, rfl, rfl, rfl⟩ ?_ fun _ _ _ => rfl
    rcases Bus.deviceLoad_cases hd with rfl | ⟨_, _, hg, _, rfl⟩
    · exact .of_eq rfl
    · exact ⟨rfl, (congrArg Option.isSome hg).symm, rfl⟩
  · exact h.of_cregs rfl rfl rfl rfl rfl

theorem load (hs : Sandbox start) (h : Inside start cpu)
    (hl : Mmu.load cpu address length = .ok (v, after)) : Inside start after := by
  obtain ⟨p, c, ht, ⟨_, _, rfl⟩ | ⟨_, hl⟩⟩ := Mmu.load_cases hl
  · exact (h.translate hs ht).1
  · exact (h.translate hs ht).1.busLoad hl

theorem fetch (hs : Sandbox start) (h : Inside start cpu)
    (hf : Mmu.fetch cpu address = .ok (v, after)) : Inside start after := by
  obtain ⟨p, c, ht, ⟨_, _, rfl⟩ | ⟨_, c', hl, rfl | rfl⟩⟩ := Mmu.fetch_cases hf
  · exact (h.translate hs ht).1
  · exact (h.translate hs ht).1.busLoad hl
  · exact ((h.translate hs ht).1.busLoad hl).of_cregs rfl rfl rfl rfl rfl

/-- What a store writes is exposed. -/
theorem store (hs : Sandbox start) (h : Inside start cpu)
    (hst : Mmu.store cpu address value length = .ok after) : Inside start after := by
  obtain ⟨p, c, ht, ⟨_, rfl⟩ | ⟨hn, hst⟩⟩ := Mmu.store_cases hst
  · exact (h.translate hs ht).1
  · obtain ⟨hc, hlookup⟩ := h.translate hs ht
    have hto : Mmu.StoresTo start address p := hlookup hn
    have hrange : c.bus.ram.InRange p := by
      have h0 := hs.ram address p hto
      unfold RamDevice.InRange at h0 ⊢
      rwa [hc.range.1, hc.range.2]
    have hd : c.bus.findBusDevice p = some .ram := Bus.findBusDevice_eq_ram_iff.mpr hrange
    rcases Bus.store_cases hst with ⟨d, bus, hd', hb, rfl⟩ | ⟨hd', _⟩
    · obtain rfl := Option.some.inj (hd.symm.trans hd')
      obtain ⟨ram, hw, hb⟩ := Except.bind_eq_ok_iff.mp hb
      cases Except.ok.inj hb
      obtain ⟨hle, rfl⟩ := RamDevice.store_eq_ok_iff.mp hw
      have hbytes : length.bytes ≤ 8 := by cases length <;> decide
      have hcontains := (RamDevice.contains_iff_offset hrange.1 hrange.2).mpr hle
      have hspace := hc.toSameSpace.put value hcontains fun k hk =>
        hs.apart _ ⟨address, p, hto, by
          rw [ByteMemory.ofNat_sub_toNat p (by omega)]
          omega⟩
      refine ⟨hspace, hc.csr, fun x hx hx' => ?_, hc.timer, hc.console, hc.idle⟩
      refine (RamDevice.byteAt_put value fun hlt => ?_).trans (hc.rest x hx hx')
      exact hx ⟨address, p, hto, by omega⟩
    · rw [hd] at hd'
      cases hd'

theorem of_quiet (h : Inside start cpu) (hq : cpu.Quiet after) : Inside start after :=
  h.of_same ⟨congrArg Bus.ram hq.bus, hq.mmu, hq.mode, hq.csr _ (by decide), hq.host⟩
    (.of_eq hq.bus) fun x hx _ => hq.csr x (by
      rintro rfl
      exact hx rfl)

theorem of_flags (h : Inside start cpu) (hf : cpu.FlagsOnly after) : Inside start after :=
  h.of_quiet hf.quiet

theorem setException (h : Inside start cpu) (e : Exception) (x : Word) :
    Inside start (cpu.setException e x) := h.of_cregs rfl rfl rfl rfl rfl

theorem setReg (h : Inside start cpu) (r : BitVec 5) (x : Word) : Inside start (cpu.setReg r x) :=
  h.of_cregs rfl rfl rfl rfl rfl

theorem effect {access : Option Access} (hs : Sandbox start) (h : Inside start cpu)
    (he : Effect cpu after access) : Inside start after := by
  cases he with
  | quiet hq => exact h.of_quiet hq
  | refused flags eq => exact ((h.of_flags flags).setException _ _).of_flags eq
  | @loaded _ _ value _ rd c load eq =>
    subst eq
    unfold Load.assignIfNoException
    split
    next => exact (h.load hs load).setReg rd value
    next => exact h.load hs load
  | @loadedUnchecked _ _ value _ dest c load _ eq =>
    cases dest with
    | reg r => exact ((h.load hs load).setReg r value).of_flags eq
    | freg r _ => exact ((h.load hs load).of_quiet (.setFreg c r value)).of_flags eq
  | stored store eq => exact (h.store hs store).of_flags eq

theorem atomicOp {d : Decoder} {kind : Option (LrSc × Width)} (hs : Sandbox start)
    (h : Inside start cpu) (hop : Atomic.Op cpu d after kind) : Inside start after := by
  cases hop with
  | amo hx =>
    obtain ⟨⟨v, a⟩, hl, hx⟩ := Except.bind_eq_ok_iff.mp hx
    obtain ⟨b, hst, hx⟩ := Except.bind_eq_ok_iff.mp hx
    cases Except.ok.inj hx
    exact ((h.load hs hl).store hs hst).setReg _ _
  | lr hx =>
    obtain ⟨⟨v, a⟩, hl, hx⟩ := Except.bind_eq_ok_iff.mp hx
    cases Except.ok.inj hx
    exact (h.load hs hl).of_cregs rfl rfl rfl rfl rfl
  | sc hx =>
    unfold Atomic.scOp at hx
    simp only at hx
    split at hx
    next =>
      obtain ⟨b, hst, hx⟩ := Except.bind_eq_ok_iff.mp hx
      cases Except.ok.inj hx
      have hset : Inside start (cpu.setReservations (cpu.reservations.erase (cpu.regs d.rs1))) :=
        h.of_cregs rfl rfl rfl rfl rfl
      exact (hset.store hs hst).setReg _ _
    next =>
      cases Except.ok.inj hx
      exact h.setReg _ _
  | illegal hx =>
    subst hx
    exact h.setException _ _

theorem atomic {d : Decoder} (hs : Sandbox start) (h : Inside start cpu)
    (ha : Atomic.funct3 cpu d = .ok after) : Inside start after := by
  obtain ⟨c, hc, hop⟩ := Atomic.funct3_cases ha
  exact (h.of_cregs hc.bus hc.mmu hc.mode hc.host hc.cregs).atomicOp hs hop

end Inside

/-- No instruction of the system opcode, but `ECALL`, `EBREAK`, and those that name a CSR of the
lowest privilege. -/
def Decoder.Unprivileged (d : Decoder) : Prop :=
  d.opcodeType = some .csr → d.funct3 = 0 ∧ d.funct7 = 0 ∧ (d.rs2 = 0 ∨ d.rs2 = 1) ∨
    d.funct3 ≠ 0 ∧ CsrInsn.level d.csr = 0

namespace CsrInsn

variable {cpu : Cpu} {d : Decoder} {op : CsrOp} {rhs : Word} {csr : BitVec 12}

/-- Only the handler of `satp` has to do with the MMU. -/
theorem csrHandlers_mmu (hs : csr ≠ Address.satp) :
    (csrHandlers csr cpu d csr rhs op).mmu = cpu.mmu := by
  have henforced : (csrEnforcedReadonlyHandler cpu d csr rhs op).mmu = cpu.mmu := by
    unfold csrEnforcedReadonlyHandler
    simp only
    split <;> rfl
  have hprivledged : (csrPrivledgedHandler cpu d csr rhs op).mmu = cpu.mmu := by
    unfold csrPrivledgedHandler
    split <;> rfl
  unfold csrHandlers
  rw [if_neg hs]
  split_ifs
  · rfl
  · rfl
  · rfl
  · rfl
  · exact henforced
  · exact hprivledged
  · rfl

theorem csrHandlers_privileged (h : level csr = 0) {x : BitVec 12} (hx : level x ≠ 0) :
    (csrHandlers csr cpu d csr rhs op).cregs.regs x = cpu.cregs.regs x := by
  have hne : ∀ y, level y ≠ 0 → csr ≠ y := by
    rintro y hy rfl
    exact hy h
  have hcell : Csr.cellOf csr = csr := by
    unfold Csr.cellOf
    rw [if_neg (hne _ (by decide)), if_neg (hne _ (by decide)), if_neg (hne _ (by decide))]
  have hflag : ∀ y, level y = 0 → x ≠ y := by
    rintro y hy rfl
    exact hx hy
  refine csrHandlers_cell ?_ (hflag _ rfl) (hflag _ rfl) (hflag _ rfl)
  rw [hcell]
  exact (hne x hx).symm

end CsrInsn

namespace Inside

open CsrInsn (form form_none funct3_of_form csrHandlers_mmu csrHandlers_privileged
  csrHandlers_inPlace)

variable {start cpu c after : Cpu} {d : Decoder} {size : Word}

theorem csrHandlers (h : Inside start cpu) {csr : BitVec 12} {rhs : Word} {op : CsrOp}
    (hl : CsrInsn.level csr = 0) :
    Inside start (CsrInsn.csrHandlers csr cpu d csr rhs op) := by
  have hframe := @CsrInsn.Frame.csrHandlers cpu d rhs op csr
  refine h.of_same ⟨congrArg Bus.ram hframe.bus, csrHandlers_mmu ?_, (csrHandlers_inPlace csr).mode,
    csrHandlers_privileged hl (by decide), hframe.host⟩ (.of_eq hframe.bus)
    fun x hx _ => csrHandlers_privileged hl hx
  rintro rfl
  exact absurd hl (by decide)

theorem csrInsn (h : Inside start cpu) (ht : d.opcodeType = some .csr) (hd : d.Unprivileged) :
    Inside start (CsrInsn.funct3 cpu d) := by
  rcases hd ht with ⟨h3, h7, h2⟩ | ⟨h3, hl⟩
  · have henv : CsrInsn.funct3 cpu d = CsrInsn.environment cpu d := by
      unfold CsrInsn.funct3
      rw [h3]
      rfl
    rw [henv]
    unfold CsrInsn.environment
    rw [h7]
    rcases h2 with h2 | h2
    · rw [h2]
      change Inside start (CsrInsn.ecall cpu d)
      unfold CsrInsn.ecall
      split <;> exact h.setException _ _
    · rw [h2]
      exact h.setException _ _
  · cases hf : form d with
    | none =>
      rcases form_none hf cpu with hi | ⟨h0, _⟩
      · rw [hi]
        exact h.setException _ _
      · exact absurd h0 h3
    | some p =>
      obtain ⟨op, imm⟩ := p
      rw [funct3_of_form cpu hf]
      exact h.csrHandlers hl

theorem execute (hs : Sandbox start) (h : Inside start c) (hd : d.Unprivileged)
    (hx : c.execute d = .ok (size, after)) : Inside start after := by
  cases Cpu.execute_ran hx with
  | plain _ _ he => exact h.effect hs he
  | atomic _ _ ha => exact h.atomic hs ha
  | csr ht _ hc =>
    rw [hc]
    exact h.csrInsn ht.2 hd

end Inside

/-- A trap leads to Supervisor or Machine mode. -/
theorem Trap.process_not_user (cpu : Cpu) (cause : Cause) : (cause.process cpu).mode ≠ .user := by
  rw [(Trap.process_taken cpu cause).mode]
  cases cause.level cpu <;> simp [Level.mode]

namespace Cpu

variable {start before after cpu : Cpu} {p : Phases} {turns : List (Step Cpu Phases)}

/-- An instruction is fetched in User mode, and it is none of the privileged ones. -/
structure Phases.InUser (p : Phases) : Prop where
  mode : p.fetching.mode = .user
  insn : ∀ c d, p.Executes c d → d.Unprivileged

theorem Phases.InUser.pending (h : p.InUser) : p.pending = none := by
  have hmode := h.mode
  unfold Phases.fetching at hmode
  cases hi : p.pending with
  | none => rfl
  | some i =>
    rw [hi] at hmode
    exact absurd hmode (Trap.process_not_user p.polled (.interrupt i))

theorem Phases.InUser.fetching (h : p.InUser) : p.fetching = p.polled := by
  unfold Phases.fetching
  rw [h.pending]
  rfl

theorem Turn.before_user (h : Turn before p after) (hu : p.InUser) : before.mode = .user := by
  rw [← (poll_polled h.poll).mode, ← hu.fetching]
  exact hu.mode

theorem Phases.InUser.of_fetched {c : Cpu} {d : Decoder} (hm : p.fetching.mode = .user)
    (hf : p.fetching.Fetched c d) (hd : d.Unprivileged) : p.InUser := by
  refine ⟨hm, fun c' d' hx => ?_⟩
  obtain ⟨_, rfl⟩ := hf.unique hx.1
  exact hd

theorem Turn.executed_inside (hs : Sandbox start) (h : Inside start before)
    (ht : Turn before p after) (hu : p.InUser) : Inside start p.executed := by
  have hpolled := h.of_ticked (poll_ticked h.idle ht.poll)
  have hloop := ht.loop
  have hinsn := hu.insn
  unfold Phases.Executes at hinsn
  rw [hu.fetching] at hloop hinsn
  obtain ⟨_, _, he⟩ | ⟨_, _, _, v, hf⟩ | ⟨c, d, hf, _, _, he⟩ | ⟨c, d, hf, hz, hx⟩ :=
    loop_cases hloop
  · rw [he]
    exact hpolled.setReg 0 0
  · exact (hpolled.setReg 0 0).fetch hs hf
  · obtain ⟨v, hf, _⟩ := hf.fetch
    rw [he]
    exact ((hpolled.setReg 0 0).fetch hs hf).setException _ _
  · obtain ⟨v, hfetch, _⟩ := hf.fetch
    exact ((hpolled.setReg 0 0).fetch hs hfetch).execute hs (hinsn c d ⟨hf, hz⟩) hx

/-- A turn of user code stays inside, and a trap is the only way out. -/
theorem Turn.inside (hs : Sandbox start) (h : Inside start before) (ht : Turn before p after)
    (hu : p.InUser) : Contained start after ∧ (after.mode = .user → Inside start after) := by
  have hexecuted := ht.executed_inside hs h hu
  rw [← ht.finish]
  have hframe := finish_frame p.executed p.size
  have hmem : (p.executed.finish p.size).memory = p.executed.memory :=
    congrArg (fun bus : Bus => bus.ram.word) hframe.bus
  refine ⟨⟨hmem ▸ hexecuted.tables, ?_⟩, fun hmode => ?_⟩
  · rw [hframe.bus]
    exact hexecuted.rest
  · cases he : p.executed.excVal with
    | none =>
      rw [finish_of_none he]
      exact hexecuted.of_cregs rfl rfl rfl rfl rfl
    | some e =>
      have hnot := Trap.process_not_user p.executed (.exception e)
      rcases finish_of_exception he p.size with hf | hf
      · rw [hf] at hmode
        exact absurd hmode hnot
      · rw [hf] at hmode
        exact absurd hmode hnot

theorem Turns.inside (hs : Sandbox start) (run : Turns start turns cpu)
    (hu : ∀ t ∈ turns, t.label.InUser) :
    Contained start cpu ∧ (cpu.mode = .user → Inside start cpu) := by
  refine @Steps.invariant _ _ Turn start cpu turns
    (fun c => Contained start c ∧ (c.mode = .user → Inside start c)) (fun t => t.label.InUser)
    ?_ ⟨(Inside.refl hs).contained, fun _ => .refl hs⟩ run hu
  exact fun before p after ht h hp => ht.inside hs (h.2 (ht.before_user hp)) hp

/-- User code, whatever it is and whatever the devices do meanwhile, changes no byte but those of
the frames that it may write to, and marks in the page tables; it stays under the same privileged
CSRs until a trap ends it. -/
theorem user_isolated (hs : Sandbox start) (run : Turns start turns cpu)
    (hu : ∀ t ∈ turns, t.label.InUser) : Contained start cpu ∧
      (cpu.mode = .user → Mmu.SameRoot start.mmu cpu.mmu ∧
        ∀ x, CsrInsn.level x ≠ 0 → x ≠ Address.mip → cpu.cregs.regs x = start.cregs.regs x) := by
  obtain ⟨hcontained, hinside⟩ := run.inside hs hu
  exact ⟨hcontained, fun hmode => ⟨(hinside hmode).root, (hinside hmode).csr⟩⟩

end Cpu

namespace Mmu

open Paging (Leaf)

/-- `auipc x6, 0`, `sw x6, 16(x6)` and `ecall`, at the virtual address `0x1000`, with a timer that is
set for the first millisecond. -/
def userPage : Cpu :=
  let ram := (RamDevice.init 0x80000000 0x80001000).put 0x80000000 0x3000001f .w64
  let ram := (ram.put 0xc0001000 0x63282300000317 .w64).put 0xc0001008 0x73 .w64
  let terminal := GpuDevice.nativeCli ⟨Uart.init, 0⟩
  let cpu := (Cpu.init ram (some terminal) none false ⟨true, false, default⟩).setMode .user
  let cpu := cpu.setBus { cpu.bus with clint := { cpu.bus.clint with mtimecmp := 1000 } }
  let cregs := (cpu.cregs.store Address.satp 0x8000000000080000).store Address.mie Mask.mtip
  update ((cpu.setCregs cregs).setPc 0x1000)

theorem userPage_entry (v : BitVec 9) : userPage.memory (0x80000000 + v.setWidth 64 * 8) =
    if v = 0 then 0x3000001f else 0 := by
  revert v
  decide +kernel

theorem userPage_reads (va : Word) : Paging.walkReads userPage.memory va 0x80000000 3 =
    [0x80000000 + (Paging.vpn va 2).setWidth 64 * 8] := by
  have h := userPage_entry (Paging.vpn va 2)
  refine if_pos ?_
  unfold Paging.entryAddr
  rw [h]
  split <;> decide

theorem userPage_leaf {a : Word} {leaf : Leaf} (h : findLeaf userPage a = some leaf) :
    leaf.level = 2 ∧ leaf.pte = 0x3000001f := by
  have hw : Paging.walk userPage.memory a 0x80000000 3 = some leaf := (findLeaf_walk h).1
  have he := userPage_entry (Paging.vpn a 2)
  rw [Paging.walk] at hw
  simp only [Paging.entryAddr, he] at hw
  split at hw
  next hv =>
    have hi : Paging.invalid (0x3000001f : Word) = false := by decide
    have hl : Paging.isLeaf (0x3000001f : Word) = true := by decide
    rw [hi, hl] at hw
    cases Option.some.inj hw
    exact ⟨rfl, rfl⟩
  next hv =>
    have hi : Paging.invalid (0 : Word) = true := by decide
    rw [hi] at hw
    cases hw

theorem userPage_physical {a : Word} {leaf : Leaf} (h : findLeaf userPage a = some leaf) :
    0xc0000000 ≤ (leaf.physical a).toNat ∧ (leaf.physical a).toNat < 0x100000000 := by
  obtain ⟨hlevel, hpte⟩ := userPage_leaf h
  have hp : leaf.physical a = 0xc0000000 ||| (a &&& 0x3fffffff) := by
    unfold Leaf.physical
    rw [hlevel, hpte]
    rfl
  have hoff : a.toNat &&& 0x3fffffff < 2 ^ 30 := Nat.lt_succ_of_le Nat.and_le_right
  have hor := Nat.two_pow_add_eq_or_of_lt hoff 3
  rw [hp, BitVec.toNat_or, BitVec.toNat_and]
  change 0xc0000000 ≤ 0xc0000000 ||| (a.toNat &&& 0x3fffffff) ∧
    0xc0000000 ||| (a.toNat &&& 0x3fffffff) < 0x100000000
  rw [← hor]
  omega

theorem userPage_stores {a p : Word} (h : StoresTo userPage a p) :
    0xc0000000 ≤ p.toNat ∧ p.toNat < 0x100000000 := by
  obtain ⟨leaf, hl, rfl⟩ := h
  exact userPage_physical (Option.filter_eq_some_iff.mp hl).1

theorem userPage_tableByte {x : Word} (h : TableByte userPage x) : x.toNat < 0x80001000 := by
  obtain ⟨y, ⟨va, hy⟩, hlt⟩ := h
  have hy : y ∈ Paging.walkReads userPage.memory va 0x80000000 3 := hy
  rw [userPage_reads] at hy
  obtain rfl := List.mem_singleton.mp hy
  exact rootEntry_lt (Paging.vpn va 2) hlt

theorem userPage_sandbox : Sandbox userPage where
  user := rfl
  active t := by cases t <;> exact ⟨by decide, by decide⟩
  sound := update_sound _
  tables a := by
    change ∀ x ∈ Paging.walkReads userPage.memory a 0x80000000 3, userPage.bus.ram.Contains x 8
    rw [userPage_reads]
    intro x hx
    obtain rfl := List.mem_singleton.mp hx
    have hv := (Paging.vpn a 2).isLt
    have hx := rootEntry_toNat (Paging.vpn a 2)
    refine ⟨BitVec.le_def.mpr ?_, ?_⟩
    · rw [hx]
      exact Nat.le_add_right _ _
    · rw [hx]
      change _ ≤ 0x100001000
      omega
  ram a p h := by
    obtain ⟨hlow, hhigh⟩ := userPage_stores h
    exact ⟨BitVec.le_def.mpr (Nat.le_trans (by decide) hlow),
      BitVec.lt_def.mpr (Nat.lt_trans hhigh (by decide))⟩
  apart x hx ht := by
    obtain ⟨a, p, hp, hlt⟩ := hx
    have hstores := userPage_stores hp
    have htable := userPage_tableByte ht
    rw [BitVec.toNat_sub] at hlt
    omega
  idle v hv := by cases hv

end Mmu

theorem Cpu.user_isolated_store : ∃ turns cpu, Turns Mmu.userPage turns cpu ∧ turns.length = 2 ∧
    cpu.pc = 0x1008 ∧ Contained Mmu.userPage cpu := by
  have auipc := @Turns.insn Mmu.userPage Mmu.userPage [] ⟨0, .idle⟩ _ _ _ _ ⟨0x317⟩ _ .start rfl
    ⟨rfl, ⟨_, rfl, rfl⟩, rfl⟩ (by decide) rfl
  have sw := @Turns.insn _ Mmu.userPage _ ⟨0, .idle⟩ _ _ _ _ ⟨0x632823⟩ _ auipc rfl
    ⟨rfl, ⟨_, rfl, rfl⟩, rfl⟩ (by decide) rfl
  refine ⟨_, _, sw, rfl, rfl, (user_isolated Mmu.userPage_sandbox sw ?_).1⟩
  simp only [List.mem_cons, List.not_mem_nil, or_false]
  rintro t (rfl | rfl)
  · exact @Phases.InUser.of_fetched _ _ ⟨0x632823⟩ rfl ⟨rfl, ⟨_, rfl, rfl⟩, rfl⟩
      fun h => absurd h (by decide)
  · exact @Phases.InUser.of_fetched _ _ ⟨0x317⟩ rfl ⟨rfl, ⟨_, rfl, rfl⟩, rfl⟩
      fun h => absurd h (by decide)

end Rv64gcEmu
