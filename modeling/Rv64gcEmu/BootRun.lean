import Rv64gcEmu.BootImages
import Rv64gcEmu.IsaRun

open Transition

namespace Rv64gcEmu

open Cpu (Accepts StepExact Turns Undisturbed)
open Rv64 (Hart Regs Sized)

namespace Boot

/-- The bytes of a file from an offset on, over what was there before. -/
def overlay (file : List Byte) (off : Nat) (below : Nat → Byte) (i : Nat) : Byte :=
  if off ≤ i ∧ i < off + file.length then file.getD (i - off) 0 else below i

/-- A memory of `size` bytes with the given contents, from `base` on. -/
def contents (base size : Word) (get : Nat → Byte) : ByteMemory 64 := fun x =>
  if base ≤ x ∧ x < base + size then some (get (x - base).toNat) else none

namespace Options

def dtbOffset (o : Options) : Word := o.ramSizeTotal - sizeMib 2

def overDtb (o : Options) (below : Nat → Byte) : Nat → Byte :=
  match o.dtb with
  | none => below
  | some dtb => overlay (patchDtbRamSize dtb (o.ramSize.setWidth 32)).2 o.dtbOffset.toNat below

def overKernel (o : Options) (below : Nat → Byte) : Nat → Byte :=
  match o.kernel with
  | none => below
  | some kernel => overlay kernel kernelOffset.toNat below

/-- The contents of the RAM: the kernel over the device tree, and both over the BIOS. -/
def image (o : Options) : Nat → Byte := o.overKernel (o.overDtb (overlay o.bios 0 fun _ => 0))

/-- The address of the device tree, if there is one. -/
def a1 (o : Options) : Word := if o.dtb.isSome then dramBase + o.dtbOffset else 0

/-- The hart at the first byte of the BIOS, with the end of the RAM in `sp`. -/
def hart (o : Options) : Hart where
  pc := dramBase
  regs := (Regs.zero.set 2 (dramBase + o.ramSizeTotal)).set 11 o.a1
  mem := contents dramBase o.ramSizeTotal o.image

end Options

/-- A RAM of `size` bytes with the given contents, from `base` on. -/
structure Filled (base size : Word) (get : Nat → Byte) (ram : RamDevice) : Prop where
  first : ram.baseAddr = base
  stop : ram.endAddr = base + size
  length : ram.data.size = size.toNat
  bytes : ram.data.get = get

variable {o : Options} {available : Nat} {gpu : Option GpuDevice} {virtio : Option VirtioBlkDevice}
  {host : Host} {cpu cpu' : Cpu} {base size : Word} {get : Nat → Byte}

theorem Filled.init (base size : Word) :
    Filled base size (fun _ => 0) (RamDevice.init base size) := ⟨rfl, rfl, rfl, rfl⟩

theorem Filled.memcpy {ram ram' : RamDevice} {off : Nat} {file : List Byte}
    (hr : Filled base size get ram) (h : ram.memcpy off file = .ok ram') :
    Filled base size (overlay file off get) ram' := by
  unfold RamDevice.memcpy at h
  split at h
  next =>
    cases h
    exact ⟨hr.first, hr.stop, hr.length, funext fun i => by rw [← hr.bytes]; rfl⟩
  next => cases h

theorem Filled.contents {ram : RamDevice} (hr : Filled base size get ram) :
    ram.bytes = Boot.contents base size get := by
  funext x
  have hiff : ram.Contains x 1 ↔ base ≤ x ∧ x < base + size := by
    unfold RamDevice.Contains
    rw [hr.first, hr.stop, BitVec.lt_def]
    exact Iff.rfl
  unfold RamDevice.bytes RamDevice.byteAt
  rw [hr.first, hr.bytes]
  exact if_congr hiff rfl rfl

theorem Filled.copyToRam {offset : Word} {file : List Byte} (hr : Filled base size get cpu.bus.ram)
    (h : copyToRam cpu offset file = .ok cpu') : ∃ ram,
      Filled base size (overlay file offset.toNat get) ram ∧ cpu' = cpu.setBus (cpu.bus.setRam ram) := by
  obtain ⟨ram, hram, h⟩ := Except.bind_eq_ok_iff.mp h
  exact ⟨ram, hr.memcpy hram, (Except.ok.inj h).symm⟩

theorem Filled.loadDtb (hr : Filled dramBase o.ramSizeTotal get cpu.bus.ram) (h0 : cpu.regs 11 = 0)
    (h : loadDtb o cpu = .ok cpu') : ∃ ram, Filled dramBase o.ramSizeTotal (o.overDtb get) ram ∧
      cpu' = (cpu.setReg 11 o.a1).setBus (cpu.bus.setRam ram) := by
  unfold Boot.loadDtb at h
  unfold Options.overDtb Options.a1
  cases hd : o.dtb with
  | none =>
    rw [hd] at h
    cases h
    have hreg : cpu.setReg 11 0 = cpu :=
      congrArg (fun regs => { cpu with regs := regs }) (h0 ▸ Function.update_eq_self 11 cpu.regs)
    exact ⟨cpu.bus.ram, hr, hreg.symm⟩
  | some dtb =>
    rw [hd] at h
    simp only [hr.first, hr.length, BitVec.ofNat_toNat, BitVec.setWidth_eq] at h
    exact @Filled.copyToRam (cpu.setReg 11 _) _ _ _ _ _ _ hr h

theorem Filled.loadKernel (hr : Filled base size get cpu.bus.ram) (h : loadKernel o cpu = .ok cpu') :
    ∃ ram, Filled base size (o.overKernel get) ram ∧ cpu' = cpu.setBus (cpu.bus.setRam ram) := by
  unfold Boot.loadKernel at h
  unfold Options.overKernel
  cases hk : o.kernel with
  | none =>
    rw [hk] at h
    cases h
    exact ⟨cpu.bus.ram, hr, rfl⟩
  | some kernel =>
    rw [hk] at h
    exact hr.copyToRam h

/-- The constructor looks at the range of the RAM alone. -/
theorem init_setRam {ram ram' : RamDevice} (hr : Filled base size get ram) {get' : Nat → Byte}
    (hr' : Filled base size get' ram') : (Cpu.init ram gpu virtio true host).setBus
      ((Cpu.init ram gpu virtio true host).bus.setRam ram') = Cpu.init ram' gpu virtio true host := by
  unfold Cpu.init
  rw [hr'.first, hr'.stop, hr.first, hr.stop]
  rfl

/-- `main` leaves the machine of the constructor with the files in its RAM. -/
theorem main_eq (h : main o available gpu virtio host = .ok cpu) : ∃ ram,
    Filled dramBase o.ramSizeTotal o.image ram ∧ cpu = (Cpu.init ram gpu virtio true host).setReg 11 o.a1 := by
  unfold main at h
  split at h
  next => cases h
  next =>
    obtain ⟨ram, hc, h⟩ := Except.bind_eq_ok_iff.mp h
    obtain ⟨cpu1, hd, hk⟩ := Except.bind_eq_ok_iff.mp h
    unfold RamDevice.create at hc
    split at hc
    next =>
      have hbios := (Filled.init dramBase o.ramSizeTotal).memcpy hc
      obtain ⟨ram1, hdtb, rfl⟩ :=
        @Filled.loadDtb _ (.init ram gpu virtio true host) _ _ hbios rfl hd
      obtain ⟨ram2, hkernel, rfl⟩ := Filled.loadKernel hdtb hk
      exact ⟨ram2, hkernel, congrArg (·.setReg 11 o.a1) (init_setRam hbios hkernel)⟩
    next => cases hc

/-- The machine that `main` starts is the hart that the files describe. -/
theorem hart_main (h : main o available gpu virtio host = .ok cpu) :
    MemoryView.physical.hart cpu = o.hart := by
  obtain ⟨ram, hr, rfl⟩ := main_eq h
  have hregs : ∀ r, ((Cpu.init ram gpu virtio true host).setReg 11 o.a1).operand r =
      o.hart.regs.get r := by
    intro r
    simp only [Cpu.operand, Cpu.setReg_regs, Cpu.init, Options.hart, Regs.set, Regs.zero, hr.stop,
      Function.update_apply]
    by_cases h0 : r = 0
    · subst h0
      rfl
    · have hne : r ≠ 0#5 := h0
      simp [hne]
  change (⟨ram.baseAddr, ⟨_, _⟩, ram.bytes⟩ : Hart) = _
  rw [hr.contents, hr.first]
  exact congrArg (fun regs => (⟨dramBase, regs, o.hart.mem⟩ : Hart)) (Regs.ext (funext hregs))

variable {disk : Option ByteVec}

/-- No interrupt is enabled, and the disk waits for its driver. -/
theorem undisturbed_main
    (h : main o available gpu (disk.map VirtioBlkDevice.init) host = .ok cpu) : cpu.Undisturbed := by
  obtain ⟨ram, _, rfl⟩ := main_eq h
  refine ⟨rfl, rfl, .inr rfl, fun v hv => ?_⟩
  obtain ⟨image, _, rfl⟩ := Option.map_eq_some_iff.mp hv
  rfl

theorem untranslated_main (h : main o available gpu virtio host = .ok cpu) (t : AccessType) :
    ¬Mmu.Active cpu t := by
  obtain ⟨ram, _, rfl⟩ := main_eq h
  exact fun ha => ha.mode rfl

/-- The machine that is started with the files runs the BIOS as the instruction set has it, over a
memory that holds the files. -/
theorem booted_refined {start : Cpu} {steps : List (Step Hart Sized)} {s : Hart}
    (h : main o available gpu (disk.map VirtioBlkDevice.init) host = .ok start)
    (run : Steps (Rv64.Step isaDecode) o.hart steps s) (he : ∀ t ∈ steps, StepExact t) :
    (∀ envs : List Cpu.Env, envs.length = steps.length → (∀ env ∈ envs, start.Accepts env) →
      ∃ turns cpu, Turns start turns cpu ∧ turns.map (·.label.env) = envs) ∧
    ∀ turns cpu, Turns start turns cpu → turns.length = steps.length →
      (∀ t ∈ turns, start.Accepts t.label.env) → MemoryView.physical.hart cpu = s ∧
        turns.map (fun t => MemoryView.physical.hart t.before) = steps.map (·.before) := by
  rw [← hart_main h] at run
  obtain ⟨hex, hall⟩ := Cpu.refined_of_view (undisturbed_main h) (untranslated_main h) run
    (fun t _ => Cpu.stepReaches_physical t) he
  refine ⟨hex, fun turns cpu hturns hlen ha => ?_⟩
  obtain ⟨hhart, -, hmap⟩ := hall turns cpu hturns hlen ha
  exact ⟨hhart, hmap⟩

/-- A BIOS of `lw x5, 1(a1)`, which reads the size of the RAM from the device tree. -/
def readingBios : Options :=
  ⟨[0x83, 0xa2, 0x15, 0x00], some [0x00, 0x0b, 0xad, 0xc0, 0xde], none, 64⟩

/-- The terminal build, with a UART to poll. -/
def terminal : GpuDevice := .nativeCli ⟨Uart.init, 0⟩

theorem booted_refined_reading : ∃ start turns cpu,
    main readingBios (2 ^ 40) (some terminal) none ⟨true, false, default⟩ = .ok start ∧
      Turns start turns cpu ∧ turns.length = 1 ∧ cpu.regs 5 = 4 := by
  obtain ⟨start, hmain⟩ : ∃ start,
      main readingBios (2 ^ 40) (some terminal) none ⟨true, false, default⟩ = .ok start := ⟨_, rfl⟩
  have hload : readingBios.hart.mem.load (readingBios.hart.regs.get 11 + 1) 4 = some 4 := by decide
  have step : Rv64.Step isaDecode readingBios.hart ⟨4, .load 4 true 5 11 1⟩
      (readingBios.hart.next 5 4 0x80000004) := by
    refine ⟨by decide, ?_⟩
    simp only [Rv64.Instr.exec, hload]
    rfl
  obtain ⟨hex, hall⟩ := @booted_refined _ _ _ _ none _ _ _ hmain (.step .start step) (by
    simp only [List.mem_singleton, forall_eq]
    exact trivial)
  have hgpu : start.bus.gpu = some terminal := by
    obtain ⟨ram, _, rfl⟩ := main_eq hmain
    rfl
  have haccepts : ∀ env : Cpu.Env, env.input = .idle → start.Accepts env := fun env he =>
    .inr ⟨congrArg Option.isSome hgpu, fun hquit => HostInput.noConfusion (he.symm.trans hquit)⟩
  obtain ⟨turns, cpu, hturns, henvs⟩ := hex [⟨0, .idle⟩] rfl fun env henv =>
    haccepts env (List.mem_singleton.mp henv ▸ rfl)
  have hlen : turns.length = 1 := (List.length_map _).symm.trans (congrArg List.length henvs)
  have hidle : ∀ t ∈ turns, start.Accepts t.label.env := fun t ht =>
    haccepts _ (congrArg Cpu.Env.input
      (List.mem_singleton.mp (henvs ▸ List.mem_map_of_mem ht : t.label.env ∈ [⟨0, .idle⟩])))
  have hend := (hall turns cpu hturns hlen hidle).1
  exact ⟨start, turns, cpu, hmain, hturns, hlen, congrArg (fun h : Hart => h.regs.get 5) hend⟩

end Boot

end Rv64gcEmu
