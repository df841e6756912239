import Rv64gcEmu.Execute
import Rv64gcEmu.FirstOccurrence
import Rv64gcEmu.PageTable

namespace Rv64gcEmu

open FirstOccurrence (search IsFirst)

namespace RamDevice

/-- `memcpy(data.data() + off, image.data(), image.size())`. -/
def memcpy (ram : RamDevice) (off : Nat) (image : List Byte) : HostM RamDevice :=
  if off + image.length ≤ ram.data.size then
    .ok { ram with
      data := { ram.data with get := fun i =>
        if off ≤ i ∧ i < off + image.length then image.getD (i - off) 0 else ram.data.get i }
      size_eq := ram.size_eq }
  else .error .undefined

def setData (ram : RamDevice) (data : List Byte) : HostM RamDevice := ram.memcpy 0 data

/-- The constructor with an image, on a host that can make vectors of `available` bytes. -/
def create (available : Nat) (romStartAddress romEndOffset : Word) (data : List Byte) :
    HostM RamDevice :=
  if romEndOffset.toNat ≤ available then (init romStartAddress romEndOffset).setData data
  else .error .exit

/-- The constructor of the other modules, for an image that fits. -/
theorem create_eq_ofImage {available : Nat} {base size : Word} {data : List Byte}
    (h : data.length ≤ size.toNat) (hroom : size.toNat ≤ available) :
    create available base size data = .ok (ofImage base size data h) := by
  have hin : 0 + data.length ≤ (init base size).data.size := by
    rw [Nat.zero_add]
    exact h
  have hget : ∀ i, (if 0 ≤ i ∧ i < 0 + data.length then data.getD (i - 0) 0 else 0) =
      data.getD i 0 := by
    intro i
    split
    next => rfl
    next hi =>
      rw [List.getD_eq_getElem?_getD, List.getElem?_eq_none (by omega), Option.getD_none]
  rw [create, if_pos hroom, setData, memcpy, if_pos hin]
  congr 2
  exact congrArg (ByteVec.mk size.toNat) (funext hget)

end RamDevice

namespace Boot

def sizeMib (size : Word) : Word := 1024 * 1024 * size

def dramBase : Word := 0x80000000

def kernelOffset : Word := 0x200000

def searchPattern : List Byte := [0x0b, 0xad, 0xc0, 0xde]

def ramSizeBe (ramSize : BitVec 32) : BitVec 32 :=
  ((ramSize &&& 0xff000000) >>> 24) ||| ((ramSize &&& 0x00ff0000) >>> 8) |||
    ((ramSize &&& 0x0000ff00) <<< 8) ||| ((ramSize &&& 0x000000ff) <<< 24)

def patchDtbRamSize (dtbData : List Byte) (ramSize : BitVec 32) : Bool × List Byte :=
  match search dtbData searchPattern with
  | none => (false, dtbData)
  | some it => (true, dtbData.take it ++
      (List.range 4).map (LittleEndian.byteOf (ramSizeBe ramSize)) ++ dtbData.drop (it + 4))

/-- The files that the options name, and the number of MiB that `atoi` makes of `-m`. -/
structure Options where
  bios : List Byte
  dtb : Option (List Byte)
  kernel : Option (List Byte)
  memory : BitVec 32

namespace Options

def ramSize (o : Options) : Word := sizeMib (o.memory.signExtend 64)

def ramSizeTotal (o : Options) : Word :=
  if o.dtb.isSome then o.ramSize + sizeMib 2 else o.ramSize

end Options

/-- A copy of a file into the vector of `dram`. -/
def copyToRam (cpu : Cpu) (offset : Word) (file : List Byte) : HostM Cpu := do
  let ram ← cpu.bus.ram.memcpy offset.toNat file
  .ok (cpu.setBus (cpu.bus.setRam ram))

def loadDtb (o : Options) (cpu : Cpu) : HostM Cpu :=
  match o.dtb with
  | none => .ok cpu
  | some dtb =>
    let dtbOffset := BitVec.ofNat 64 cpu.bus.ram.data.size - sizeMib 2
    let cpu := cpu.setReg 11 (cpu.bus.ram.baseAddr + dtbOffset)
    copyToRam cpu dtbOffset (patchDtbRamSize dtb (o.ramSize.setWidth 32)).2

def loadKernel (o : Options) (cpu : Cpu) : HostM Cpu :=
  match o.kernel with
  | none => .ok cpu
  | some kernel => copyToRam cpu kernelOffset kernel

/-- `main` up to `cpu.run`. -/
def main (o : Options) (available : Nat) (gpu : Option GpuDevice) (virtio : Option VirtioBlkDevice)
    (host : Host) : HostM Cpu :=
  if o.kernel.isSome && o.dtb.isNone then .error .exit
  else do
    let dram ← RamDevice.create available dramBase o.ramSizeTotal o.bios
    let cpu ← loadDtb o (Cpu.init dram gpu virtio true host)
    loadKernel o cpu

/-- The number that bytes stand for, the most significant one first. -/
def bigEndian (bytes : List Byte) : Nat := bytes.foldl (fun n b => 256 * n + b.toNat) 0

/-- The device tree with the size of the RAM in the place of the first pattern. -/
structure Patched (dtb out : List Byte) (ramSize : Nat) : Prop where
  replaced : ∀ pre post, IsFirst dtb searchPattern pre post →
    ∃ bytes, bytes.length = 4 ∧ bigEndian bytes = ramSize ∧ out = pre ++ bytes ++ post
  kept : (¬∃ pre post, dtb = pre ++ searchPattern ++ post) → out = dtb

/-- A file stands in the vector, unchanged. -/
structure Holds (ram : RamDevice) (off : Nat) (file : List Byte) : Prop where
  inside : off + file.length ≤ ram.data.size
  byte : ∀ i (h : i < file.length), ram.data.get (off + i) = file[i]

/-- The bytes that the files take in a vector of `size` bytes. -/
def regions (o : Options) (size : Nat) : List (Nat × Nat) :=
  [(0, o.bios.length)] ++
    o.dtb.toList.map (fun dtb => (size - (sizeMib 2).toNat, dtb.length)) ++
    o.kernel.toList.map fun kernel => (kernelOffset.toNat, kernel.length)

/-- No byte lies in both regions. -/
def Unoverlapped (a b : Nat × Nat) : Prop :=
  ∀ i, ¬((a.1 ≤ i ∧ i < a.1 + a.2) ∧ b.1 ≤ i ∧ i < b.1 + b.2)

/-- One of the regions is empty, or ends before the other. -/
def Apart (a b : Nat × Nat) : Prop :=
  a.2 = 0 ∨ b.2 = 0 ∨ a.1 + a.2 ≤ b.1 ∨ b.1 + b.2 ≤ a.1

instance (a b : Nat × Nat) : Decidable (Apart a b) := inferInstanceAs (Decidable (_ ∨ _))

theorem unoverlapped_iff {a b : Nat × Nat} : Unoverlapped a b ↔ Apart a b := by
  unfold Apart
  constructor
  · intro h
    have hm := h (max a.1 b.1)
    omega
  · intro h i
    omega

/-- The patched device tree stands in the top 2 MiB, and `a1` points to it. -/
def DtbLoaded (o : Options) (cpu : Cpu) (dtb : List Byte) : Prop :=
  ∃ off out, off + (sizeMib 2).toNat = cpu.bus.ram.data.size ∧
    Patched dtb out o.ramSize.toNat ∧ Holds cpu.bus.ram off out ∧
      cpu.regs 11 = cpu.bus.ram.baseAddr + BitVec.ofNat 64 off

structure Intact (o : Options) (cpu : Cpu) : Prop where
  bios : Holds cpu.bus.ram 0 o.bios
  kernel : ∀ kernel ∈ o.kernel, Holds cpu.bus.ram kernelOffset.toNat kernel
  dtb : ∀ dtb ∈ o.dtb, DtbLoaded o cpu dtb
  unoverlapped : (regions o cpu.bus.ram.data.size).Pairwise Unoverlapped

/-- The files fit into the RAM next to each other, and the size of the RAM into 32 bits. -/
structure Fits (o : Options) : Prop where
  top : o.dtb.isSome → (sizeMib 2).toNat ≤ o.ramSizeTotal.toNat
  inside : ∀ r ∈ regions o o.ramSizeTotal.toNat, r.1 + r.2 ≤ o.ramSizeTotal.toNat
  apart : (regions o o.ramSizeTotal.toNat).Pairwise Apart
  size : ∀ dtb ∈ o.dtb, (∃ pre post, dtb = pre ++ searchPattern ++ post) → o.ramSize.toNat < 2 ^ 32

theorem byteOf_ramSizeBe (ramSize : BitVec 32) {k : Nat} (hk : k < 4) :
    LittleEndian.byteOf (ramSizeBe ramSize) k = LittleEndian.byteOf ramSize (3 - k) := by
  have h3 : ∀ j, j < 32 → (0xff000000 : BitVec 32).getLsbD j = decide (24 ≤ j) := by decide
  have h2 : ∀ j, j < 32 → (0x00ff0000 : BitVec 32).getLsbD j = decide (16 ≤ j ∧ j < 24) := by decide
  have h1 : ∀ j, j < 32 → (0x0000ff00 : BitVec 32).getLsbD j = decide (8 ≤ j ∧ j < 16) := by decide
  have h0 : ∀ j, j < 32 → (0x000000ff : BitVec 32).getLsbD j = decide (j < 8) := by decide
  apply BitVec.eq_of_getLsbD_eq
  intro i hi
  rw [LittleEndian.getLsbD_byteOf, LittleEndian.getLsbD_byteOf]
  simp only [ramSizeBe, BitVec.getLsbD_or, BitVec.getLsbD_and, BitVec.getLsbD_ushiftRight,
    BitVec.getLsbD_shiftLeft, hi, decide_true, Bool.true_and]
  have hcases : k = 0 ∨ k = 1 ∨ k = 2 ∨ k = 3 := by omega
  rcases hcases with rfl | rfl | rfl | rfl
  all_goals grind

theorem bigEndian_ramSizeBe (ramSize : BitVec 32) :
    bigEndian ((List.range 4).map (LittleEndian.byteOf (ramSizeBe ramSize))) = ramSize.toNat := by
  have hrange : List.range 4 = [0, 1, 2, 3] := rfl
  rw [hrange]
  simp only [bigEndian, List.map_cons, List.map_nil, List.foldl_cons, List.foldl_nil]
  rw [byteOf_ramSizeBe _ (by decide), byteOf_ramSizeBe _ (by decide), byteOf_ramSizeBe _ (by decide),
    byteOf_ramSizeBe _ (by decide)]
  simp only [LittleEndian.byteOf, BitVec.toNat_setWidth, BitVec.toNat_ushiftRight,
    Nat.shiftRight_eq_div_pow]
  have := ramSize.isLt
  omega

theorem bigEndian_lt {bytes : List Byte} (h : bytes.length = 4) : bigEndian bytes < 2 ^ 32 := by
  obtain ⟨a, b, c, d, rfl⟩ : ∃ a b c d, bytes = [a, b, c, d] := by
    match bytes, h with
    | [a, b, c, d], _ => exact ⟨a, b, c, d, rfl⟩
  have := a.isLt
  have := b.isLt
  have := c.isLt
  have := d.isLt
  simp only [bigEndian, List.foldl_cons, List.foldl_nil]
  omega

/-- The patch is right unless it cuts the size. -/
theorem patched_patchDtbRamSize {dtb : List Byte} {ramSize : Word}
    (h : (∃ pre post, dtb = pre ++ searchPattern ++ post) → ramSize.toNat < 2 ^ 32) :
    Patched dtb (patchDtbRamSize dtb (ramSize.setWidth 32)).2 ramSize.toNat := by
  unfold patchDtbRamSize
  split
  next hs =>
    have hno := FirstOccurrence.not_occurs_of_search hs
    exact ⟨fun pre post hf => absurd ⟨pre, post, hf.eq⟩ hno, fun _ => rfl⟩
  next it hs =>
    obtain ⟨pre, post, hf, rfl⟩ := FirstOccurrence.isFirst_of_search hs
    have hocc : ∃ pre post, dtb = pre ++ searchPattern ++ post := ⟨pre, post, hf.eq⟩
    refine ⟨fun pre' post' hf' => ?_, fun hno => absurd hocc hno⟩
    obtain ⟨rfl, rfl⟩ := hf.unique hf'
    refine ⟨(List.range 4).map (LittleEndian.byteOf (ramSizeBe (ramSize.setWidth 32))), rfl, ?_, ?_⟩
    · have hlt := h hocc
      rw [bigEndian_ramSizeBe, BitVec.toNat_setWidth, Nat.mod_eq_of_lt hlt]
    · have htake : dtb.take pre.length = pre := by
        rw [hf.eq, List.append_assoc, List.take_left]
      have hdrop : dtb.drop (pre.length + 4) = post := by
        rw [hf.eq]
        exact List.drop_left' (by rw [List.length_append]; rfl)
      rw [htake, hdrop]

theorem Patched.length {dtb out : List Byte} {n : Nat} (h : Patched dtb out n) :
    out.length = dtb.length := by
  by_cases hocc : ∃ pre post, dtb = pre ++ searchPattern ++ post
  · obtain ⟨pre, post, hf⟩ := FirstOccurrence.exists_isFirst hocc
    obtain ⟨bytes, hlen, _, rfl⟩ := h.replaced pre post hf
    simp only [hf.eq, List.length_append, hlen, searchPattern, List.length_cons, List.length_nil]
  · rw [h.kept hocc]

theorem Patched.lt {dtb out : List Byte} {n : Nat} (h : Patched dtb out n)
    (hocc : ∃ pre post, dtb = pre ++ searchPattern ++ post) : n < 2 ^ 32 := by
  obtain ⟨pre, post, hf⟩ := FirstOccurrence.exists_isFirst hocc
  obtain ⟨bytes, hlen, rfl, _⟩ := h.replaced pre post hf
  exact bigEndian_lt hlen

theorem patchDtbRamSize_length (dtb : List Byte) (ramSize : BitVec 32) :
    (patchDtbRamSize dtb ramSize).2.length = dtb.length := by
  unfold patchDtbRamSize
  split
  next => rfl
  next it hs =>
    obtain ⟨pre, post, hf, rfl⟩ := FirstOccurrence.isFirst_of_search hs
    have hlen := congrArg List.length hf.eq
    simp only [List.length_append, searchPattern, List.length_cons, List.length_nil] at hlen
    simp only [List.length_append, List.length_take, List.length_map, List.length_range,
      List.length_drop]
    omega

section Copies

variable {ram ram' : RamDevice} {off off' : Nat} {file image : List Byte}

/-- What a copy of a file does to the RAM. -/
structure Copied (ram : RamDevice) (off : Nat) (file : List Byte) (ram' : RamDevice) : Prop where
  size : ram'.data.size = ram.data.size
  base : ram'.baseAddr = ram.baseAddr
  holds : Holds ram' off file
  other : ∀ i, ¬(off ≤ i ∧ i < off + file.length) → ram'.data.get i = ram.data.get i

theorem copied_of_memcpy (h : ram.memcpy off file = .ok ram') : Copied ram off file ram' := by
  unfold RamDevice.memcpy at h
  split at h
  next hin =>
    cases h
    refine ⟨rfl, rfl, ⟨hin, fun i hi => ?_⟩, fun i hi => if_neg hi⟩
    have hif : off ≤ off + i ∧ off + i < off + file.length := by omega
    simp only [hif, and_self, if_true, Nat.add_sub_cancel_left]
    rw [List.getD_eq_getElem?_getD, List.getElem?_eq_getElem hi, Option.getD_some]
  next => cases h

theorem exists_memcpy (h : off + file.length ≤ ram.data.size) :
    ∃ ram', ram.memcpy off file = .ok ram' := ⟨_, if_pos h⟩

theorem Holds.of_copied (h : Holds ram off file) (hc : Copied ram off' image ram')
    (ha : Apart (off, file.length) (off', image.length)) : Holds ram' off file := by
  refine ⟨by rw [hc.size]; exact h.inside, fun i hi => ?_⟩
  rw [hc.other _ fun hin => unoverlapped_iff.mpr ha (off + i) ⟨by simp [hi], hin⟩]
  exact h.byte i hi

end Copies

section Main

variable {o : Options} {available : Nat} {gpu : Option GpuDevice} {virtio : Option VirtioBlkDevice}
  {host : Host} {cpu cpu' : Cpu}

theorem copied_of_copyToRam {offset : Word} {file : List Byte}
    (h : copyToRam cpu offset file = .ok cpu') :
    ∃ ram, Copied cpu.bus.ram offset.toNat file ram ∧ cpu' = cpu.setBus (cpu.bus.setRam ram) := by
  obtain ⟨ram, hram, h⟩ := Except.bind_eq_ok_iff.mp h
  exact ⟨ram, copied_of_memcpy hram, (Except.ok.inj h).symm⟩

theorem size_of_copyToRam {offset : Word} {file : List Byte}
    (h : copyToRam cpu offset file = .ok cpu') : cpu'.bus.ram.data.size = cpu.bus.ram.data.size := by
  obtain ⟨ram, hc, rfl⟩ := copied_of_copyToRam h
  exact hc.size

theorem size_of_loadDtb (h : loadDtb o cpu = .ok cpu') :
    cpu'.bus.ram.data.size = cpu.bus.ram.data.size := by
  unfold loadDtb at h
  split at h
  next => cases h; rfl
  next =>
    have hsize := size_of_copyToRam h
    exact hsize

theorem size_of_loadKernel (h : loadKernel o cpu = .ok cpu') :
    cpu'.bus.ram.data.size = cpu.bus.ram.data.size := by
  unfold loadKernel at h
  split at h
  next => cases h; rfl
  next => exact size_of_copyToRam h

theorem size_of_main (h : main o available gpu virtio host = .ok cpu) :
    cpu.bus.ram.data.size = o.ramSizeTotal.toNat := by
  unfold main at h
  split at h
  next => cases h
  next =>
    obtain ⟨ram, hr, h⟩ := Except.bind_eq_ok_iff.mp h
    obtain ⟨cpu1, hd, hk⟩ := Except.bind_eq_ok_iff.mp h
    unfold RamDevice.create at hr
    split at hr
    next => exact (size_of_loadKernel hk).trans ((size_of_loadDtb hd).trans (copied_of_memcpy hr).size)
    next => cases hr

theorem mem_regions {size : Nat} {r : Nat × Nat} : r ∈ regions o size ↔
    r = (0, o.bios.length) ∨ (∃ dtb ∈ o.dtb, r = (size - (sizeMib 2).toNat, dtb.length)) ∨
      ∃ kernel ∈ o.kernel, r = (kernelOffset.toNat, kernel.length) := by
  unfold regions
  simp only [List.mem_append, List.mem_map, Option.mem_toList, List.mem_singleton, or_assoc, eq_comm,
    Option.mem_def]

/-- Intact files have fitted. -/
theorem fits_of_intact (h : main o available gpu virtio host = .ok cpu) (hi : Intact o cpu) :
    Fits o := by
  have hsize := size_of_main h
  have hdtb : ∀ dtb ∈ o.dtb, (sizeMib 2).toNat ≤ o.ramSizeTotal.toNat ∧
      o.ramSizeTotal.toNat - (sizeMib 2).toNat + dtb.length ≤ o.ramSizeTotal.toNat := by
    intro dtb hd
    obtain ⟨off, out, htop, hp, hh, _⟩ := hi.dtb dtb hd
    have hin := hh.inside
    rw [hp.length] at hin
    omega
  refine ⟨fun hd => ?_, fun r hr => ?_, ?_, fun dtb hd hocc => ?_⟩
  · obtain ⟨dtb, hd⟩ := Option.isSome_iff_exists.mp hd
    exact (hdtb dtb hd).1
  · rcases mem_regions.mp hr with rfl | ⟨dtb, hd, rfl⟩ | ⟨kernel, hk, rfl⟩
    · exact hsize ▸ hi.bios.inside
    · exact (hdtb dtb hd).2
    · exact hsize ▸ (hi.kernel kernel hk).inside
  · rw [← hsize]
    exact hi.unoverlapped.imp unoverlapped_iff.mp
  · obtain ⟨off, out, _, hp, _⟩ := hi.dtb dtb hd
    exact hp.lt hocc

/-- The vector with the BIOS in it. -/
theorem exists_create (hf : Fits o) (hroom : o.ramSizeTotal.toNat ≤ available) :
    ∃ ram, RamDevice.create available dramBase o.ramSizeTotal o.bios = .ok ram ∧
      ram.data.size = o.ramSizeTotal.toNat ∧ Holds ram 0 o.bios := by
  have hin := hf.inside _ (mem_regions.mpr (.inl rfl))
  obtain ⟨ram, hram⟩ : ∃ ram, (RamDevice.init dramBase o.ramSizeTotal).memcpy 0 o.bios = .ok ram :=
    exists_memcpy hin
  have hc := copied_of_memcpy hram
  exact ⟨ram, by rw [RamDevice.create, if_pos hroom]; exact hram, hc.size, hc.holds⟩

theorem exists_copyToRam {offset : Word} {file : List Byte}
    (h : offset.toNat + file.length ≤ cpu.bus.ram.data.size) :
    ∃ cpu', copyToRam cpu offset file = .ok cpu' := by
  obtain ⟨ram, hram⟩ := exists_memcpy h
  exact ⟨_, by rw [copyToRam, hram]; rfl⟩

/-- A file that stands in the RAM stands there after a copy to another place. -/
theorem Holds.of_copyToRam {offset : Word} {off : Nat} {file image : List Byte}
    (h : Holds cpu.bus.ram off file) (hc : copyToRam cpu offset image = .ok cpu')
    (ha : Apart (off, file.length) (offset.toNat, image.length)) : Holds cpu'.bus.ram off file := by
  obtain ⟨ram, hram, rfl⟩ := copied_of_copyToRam hc
  exact h.of_copied hram ha

/-- The offset of the device tree. -/
theorem toNat_dtbOffset {n : Nat} (hlt : n < 2 ^ 64) (h : (sizeMib 2).toNat ≤ n) :
    (BitVec.ofNat 64 n - sizeMib 2).toNat = n - (sizeMib 2).toNat := by
  have hle : sizeMib 2 ≤ BitVec.ofNat 64 n := by
    rw [BitVec.le_def, BitVec.toNat_ofNat, Nat.mod_eq_of_lt hlt]
    exact h
  rw [BitVec.toNat_sub_of_le hle, BitVec.toNat_ofNat, Nat.mod_eq_of_lt hlt]

theorem exists_loadDtb (hf : Fits o) (hsize : cpu.bus.ram.data.size = o.ramSizeTotal.toNat)
    (hb : Holds cpu.bus.ram 0 o.bios) : ∃ cpu', loadDtb o cpu = .ok cpu' ∧
      Holds cpu'.bus.ram 0 o.bios ∧ ∀ dtb ∈ o.dtb, DtbLoaded o cpu' dtb := by
  cases hd : o.dtb with
  | none =>
    refine ⟨cpu, ?_, hb, by simp⟩
    unfold loadDtb
    rw [hd]
  | some dtb =>
    have htop := hf.top (by rw [hd]; rfl)
    have hin := hf.inside _ (mem_regions.mpr (.inr (.inl ⟨dtb, hd, rfl⟩)))
    have hlen := patchDtbRamSize_length dtb (o.ramSize.setWidth 32)
    have hoff := toNat_dtbOffset o.ramSizeTotal.isLt htop
    rw [← hsize] at htop hin hoff
    let dtbOffset := BitVec.ofNat 64 cpu.bus.ram.data.size - sizeMib 2
    let patched := (patchDtbRamSize dtb (o.ramSize.setWidth 32)).2
    obtain ⟨cpu', hc⟩ := @exists_copyToRam (cpu.setReg 11 (cpu.bus.ram.baseAddr + dtbOffset))
      dtbOffset patched (by rw [hoff, hlen]; exact hin)
    have hapart : Apart (0, o.bios.length) (dtbOffset.toNat, patched.length) := by
      have hpair := hf.apart
      rw [hoff, hlen, hsize]
      simp only [regions, hd, Option.toList_some, List.map_cons] at hpair
      exact (List.pairwise_cons.mp hpair).1 _ (by simp)
    have hb' : Holds (cpu.setReg 11 (cpu.bus.ram.baseAddr + dtbOffset)).bus.ram 0 o.bios := hb
    refine ⟨cpu', ?_, hb'.of_copyToRam hc hapart, fun dtb' hd' => ?_⟩
    · unfold loadDtb
      rw [hd]
      exact hc
    · cases hd'
      obtain ⟨ram, hram, rfl⟩ := copied_of_copyToRam hc
      refine ⟨dtbOffset.toNat, patched, ?_, patched_patchDtbRamSize (hf.size dtb hd), hram.holds, ?_⟩
      · have hs : ram.data.size = cpu.bus.ram.data.size := hram.size
        have hadd : dtbOffset.toNat + (sizeMib 2).toNat = cpu.bus.ram.data.size := by
          rw [hoff]
          omega
        exact hadd.trans hs.symm
      · have hreg : (cpu.setReg 11 (cpu.bus.ram.baseAddr + dtbOffset)).regs 11 =
            cpu.bus.ram.baseAddr + dtbOffset :=
          Function.update_self (11 : BitVec 5) _ cpu.regs
        rw [BitVec.ofNat_toNat, BitVec.setWidth_eq]
        exact hreg.trans (congrArg (· + dtbOffset) hram.base.symm)

theorem exists_loadKernel (hf : Fits o) (hsize : cpu.bus.ram.data.size = o.ramSizeTotal.toNat)
    (hb : Holds cpu.bus.ram 0 o.bios) (hdtb : ∀ dtb ∈ o.dtb, DtbLoaded o cpu dtb) :
    ∃ cpu', loadKernel o cpu = .ok cpu' ∧ Intact o cpu' := by
  have hunover : (regions o o.ramSizeTotal.toNat).Pairwise Unoverlapped :=
    hf.apart.imp unoverlapped_iff.mpr
  cases hk : o.kernel with
  | none =>
    refine ⟨cpu, ?_, hb, by simp [hk], hdtb, by rw [hsize]; exact hunover⟩
    unfold loadKernel
    rw [hk]
  | some kernel =>
    have hin := hf.inside _ (mem_regions.mpr (.inr (.inr ⟨kernel, hk, rfl⟩)))
    obtain ⟨cpu', hc⟩ := @exists_copyToRam cpu kernelOffset kernel (by rw [hsize]; exact hin)
    have hpair := hf.apart
    have hload : loadKernel o cpu = .ok cpu' := by
      unfold loadKernel
      rw [hk]
      exact hc
    simp only [regions, hk, Option.toList_some, List.map_cons, List.map_nil,
      List.pairwise_append] at hpair
    refine ⟨cpu', hload, Holds.of_copyToRam hb hc ?_, fun kernel' hk' => ?_, fun dtb hd => ?_, ?_⟩
    · exact hpair.2.2 _ (by simp) _ (by simp)
    · cases hk.symm.trans hk'
      obtain ⟨ram, hram, rfl⟩ := copied_of_copyToRam hc
      exact hram.holds
    · obtain ⟨off, out, htop, hp, hh, ha1⟩ := hdtb dtb hd
      have hapart : Apart (off, out.length) (kernelOffset.toNat, kernel.length) := by
        have hoff : off = o.ramSizeTotal.toNat - (sizeMib 2).toNat := by omega
        rw [hp.length, hoff]
        exact hpair.2.2 _ (by simp [Option.mem_def.mp hd]) _ (by simp)
      obtain ⟨ram, hram, rfl⟩ := copied_of_copyToRam hc
      refine ⟨off, out, htop.trans hram.size.symm, hp, hh.of_copied hram hapart, ?_⟩
      exact ha1.trans (congrArg (· + BitVec.ofNat 64 off) hram.base.symm)
    · rw [size_of_loadKernel hload, hsize]
      exact hunover

/-- What fits is loaded, and stays intact. -/
theorem intact_of_fits (hf : Fits o) (hroom : o.ramSizeTotal.toNat ≤ available)
    (hk : (o.kernel.isSome && o.dtb.isNone) = false) :
    ∃ cpu, main o available gpu virtio host = .ok cpu ∧ Intact o cpu := by
  obtain ⟨ram, hram, hsize, hbios⟩ := exists_create hf hroom
  obtain ⟨cpu1, hd, hbios1, hdtb⟩ := @exists_loadDtb o (.init ram gpu virtio true host) hf hsize hbios
  obtain ⟨cpu2, hk2, hi⟩ := exists_loadKernel hf ((size_of_loadDtb hd).trans hsize) hbios1 hdtb
  refine ⟨cpu2, ?_, hi⟩
  unfold main
  rw [hk, if_neg Bool.false_ne_true]
  exact Except.bind_eq_ok_iff.mpr ⟨ram, hram, Except.bind_eq_ok_iff.mpr ⟨cpu1, hd, hk2⟩⟩

/-- Where `main` comes to `cpu.run`, the images are intact exactly when they fit. -/
theorem intact_iff_fits (hrun : main o available gpu virtio host ≠ .error .exit) :
    (∃ cpu, main o available gpu virtio host = .ok cpu ∧ Intact o cpu) ↔ Fits o := by
  constructor
  · rintro ⟨cpu, h, hi⟩
    exact fits_of_intact h hi
  · intro hf
    have hk : (o.kernel.isSome && o.dtb.isNone) = false := by
      rw [← Bool.not_eq_true]
      intro hk
      exact hrun (if_pos hk)
    have hroom : o.ramSizeTotal.toNat ≤ available := by
      by_contra hroom
      apply hrun
      unfold main RamDevice.create
      rw [hk, if_neg hroom]
      rfl
    exact intact_of_fits hf hroom hk

end Main

/-- A BIOS and a device tree with the pattern. -/
def smallFiles (memory : BitVec 32) : Options :=
  ⟨[0x13], some [0x00, 0x0b, 0xad, 0xc0, 0xde], none, memory⟩

/-- On the 64 MiB without the option `-m`. -/
theorem intact_iff_fits_small : ∃ cpu,
    main (smallFiles 64) (2 ^ 40) none none ⟨true, false, default⟩ = .ok cpu ∧ Intact (smallFiles 64) cpu := by
  have hrun : ∃ cpu, main (smallFiles 64) (2 ^ 40) none none ⟨true, false, default⟩ = .ok cpu :=
    ⟨_, rfl⟩
  refine (intact_iff_fits ?_).mpr ⟨by decide, by decide, by decide, fun _ _ _ => by decide⟩
  obtain ⟨cpu, h⟩ := hrun
  rw [h]
  nofun

/-- On 4 GiB, whose size has 33 bits. -/
theorem ram_size_cut : ¬∀ (o : Options) (available : Nat) (gpu : Option GpuDevice)
    (virtio : Option VirtioBlkDevice) (host : Host), main o available gpu virtio host ≠ .error .exit →
      ∃ cpu, main o available gpu virtio host = .ok cpu ∧ Intact o cpu := by
  intro h
  have hrun : ∃ cpu, main (smallFiles 4096) (2 ^ 40) none none ⟨true, false, default⟩ = .ok cpu :=
    ⟨_, rfl⟩
  obtain ⟨cpu, hmain, hi⟩ := h (smallFiles 4096) (2 ^ 40) none none _ (by
    obtain ⟨cpu, h⟩ := hrun
    rw [h]
    nofun)
  have hlt := (fits_of_intact hmain hi).size _ rfl ⟨[0x00], [], rfl⟩
  exact absurd hlt (by decide)

end Boot

end Rv64gcEmu
