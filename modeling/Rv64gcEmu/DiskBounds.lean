import Rv64gcEmu.DiskAccesses

namespace Rv64gcEmu

/-- An operation that C++ defines for some operands only. -/
inductive DiskOp where
  | index (i size : Nat)
  | remainder (divisor : Word)

def DiskOp.Defined : DiskOp → Prop
  | .index i size => i < size
  | .remainder divisor => divisor ≠ 0

namespace BusAccess

/-- One access of a byte. -/
def run (cpu : Cpu) : BusAccess → HostM Cpu
  | .load address => do
    let (_, cpu) ← Bus.load cpu address .w8
    .ok cpu
  | .store address value => Bus.store cpu address value .w8

/-- The bus carries out the accesses, in turn, without an end of the host program. -/
def Served : List BusAccess → Cpu → Prop
  | [], _ => True
  | x :: xs, cpu => ∃ c, x.run cpu = .ok c ∧ Served xs c

theorem served_load_cons {address : Word} {xs : List BusAccess} {cpu : Cpu} :
    Served (.load address :: xs) cpu ↔
      ∃ v c, Bus.load cpu address .w8 = .ok (v, c) ∧ Served xs c := by
  constructor
  · rintro ⟨c, hr, hs⟩
    obtain ⟨⟨v, loaded⟩, hl, hr⟩ := Except.bind_eq_ok_iff.mp hr
    obtain rfl := Except.ok.inj hr
    exact ⟨v, _, hl, hs⟩
  · rintro ⟨v, c, hl, hs⟩
    exact ⟨c, Except.bind_eq_ok_iff.mpr ⟨(v, c), hl, rfl⟩, hs⟩

theorem Served.of_append {xs ys : List BusAccess} {cpu : Cpu} (h : Served (xs ++ ys) cpu) :
    Served xs cpu := by
  induction xs generalizing cpu with
  | nil => trivial
  | cons x xs ih =>
    obtain ⟨c, hr, hs⟩ := h
    exact ⟨c, hr, ih hs⟩

end BusAccess

open BusAccess (Served)

namespace VirtioBlkDevice

/-- The state with another disk image. -/
def withImage (img : ByteVec) (cpu : Cpu) : Cpu :=
  cpu.setBus { cpu.bus with virtio := cpu.bus.virtio.map fun v => { v with rfsimg := img } }

theorem toBus_image {cpu : Cpu} {v : VirtioBlkDevice} (hv : cpu.bus.virtio = some v)
    (img : ByteVec) : toBus cpu { v with rfsimg := img } = withImage img cpu := by
  unfold toBus withImage
  rw [hv]
  rfl

theorem withImage_layout (img : ByteVec) (cpu : Cpu) :
    Bus.SameLayout cpu.bus (withImage img cpu).bus :=
  ⟨rfl, rfl, rfl, Option.isSome_map, rfl⟩

theorem load_withImage {cpu c : Cpu} {address v : Word} {length : Width} (img : ByteVec)
    (h : Bus.load cpu address length = .ok (v, c)) :
    Bus.load (withImage img cpu) address length = .ok (v, withImage img c) := by
  have hfind := (withImage_layout img cpu).findBusDevice address
  unfold Bus.load
  rw [hfind]
  rcases Bus.load_cases h with ⟨d, bus, hd, hl, rfl⟩ | ⟨hd, rfl, rfl⟩
  · rw [hd]
    refine Except.bind_eq_ok_iff.mpr ⟨(v, (withImage img (cpu.setBus bus)).bus), ?_, rfl⟩
    cases d with
    | gpu =>
      simp only [Bus.deviceLoad] at hl
      split at hl
      next g hg =>
        obtain ⟨⟨x, g'⟩, hx, he⟩ := Except.bind_eq_ok_iff.mp hl
        obtain ⟨rfl, rfl⟩ := Prod.mk.inj (Except.ok.inj he)
        have hg' : (withImage img cpu).bus.gpu = some g := hg
        simp only [Bus.deviceLoad, hg']
        exact Except.bind_eq_ok_iff.mpr ⟨(x, g'), hx, rfl⟩
      next => cases hl
    | virtio =>
      simp only [Bus.deviceLoad] at hl
      split at hl
      next w hw =>
        obtain ⟨x, hx, he⟩ := Except.bind_eq_ok_iff.mp hl
        obtain ⟨rfl, rfl⟩ := Prod.mk.inj (Except.ok.inj he)
        have hw' : (withImage img cpu).bus.virtio = some { w with rfsimg := img } := by
          unfold withImage
          rw [hw]
          rfl
        simp only [Bus.deviceLoad, hw']
        exact Except.bind_eq_ok_iff.mpr ⟨x, hx, rfl⟩
      next => cases hl
    | syscon =>
      obtain ⟨rfl, rfl⟩ := Prod.mk.inj (Except.ok.inj hl)
      rfl
    | _ =>
      obtain ⟨x, hx, he⟩ := Except.bind_eq_ok_iff.mp hl
      obtain ⟨rfl, rfl⟩ := Prod.mk.inj (Except.ok.inj he)
      exact Except.bind_eq_ok_iff.mpr ⟨x, hx, rfl⟩
  · rw [hd]
    rfl

theorem withImage_withImage {cpu : Cpu} {v : VirtioBlkDevice} (hv : cpu.bus.virtio = some v)
    (img : ByteVec) : withImage v.rfsimg (withImage img cpu) = cpu := by
  rw [← toBus_image hv, ← toBus_image (v := { v with rfsimg := img }) rfl]
  exact toBus_self hv

theorem withImage_virtio {cpu : Cpu} {v : VirtioBlkDevice} (hv : cpu.bus.virtio = some v)
    (img : ByteVec) : (withImage img cpu).bus.virtio = some { v with rfsimg := img } := by
  rw [← toBus_image hv]
  rfl

/-- Loads that one image lets through another lets through as well. -/
theorem served_withImage {cpu : Cpu} {v : VirtioBlkDevice} (hv : cpu.bus.virtio = some v)
    (img : ByteVec) (f : Nat → Word) (l : List Nat) :
    Served (l.map fun k => .load (f k)) (withImage img cpu) ↔
      Served (l.map fun k => .load (f k)) cpu := by
  have hmp : ∀ (img : ByteVec) (l : List Nat) (cpu : Cpu),
      Served (l.map fun k => .load (f k)) cpu →
        Served (l.map fun k => .load (f k)) (withImage img cpu) := by
    intro img l
    induction l with
    | nil => exact fun _ h => h
    | cons k l ih =>
      intro cpu h
      obtain ⟨v, c, hl, hs⟩ := BusAccess.served_load_cons.mp h
      exact BusAccess.served_load_cons.mpr ⟨v, _, load_withImage img hl, ih c hs⟩
  refine ⟨fun h => ?_, hmp img l cpu⟩
  have hback := hmp v.rfsimg l _ h
  rw [withImage_withImage hv] at hback
  exact hback

/-- The indices of the loop that fills the image: the byte is loaded first. -/
inductive ToDiskComputes (offset addr : Word) : Nat → Word → Cpu → DiskOp → Prop
  | index {n : Nat} {i byte : Word} {cpu c : Cpu} {v : VirtioBlkDevice} :
      Bus.load cpu (addr + i) .w8 = .ok (byte, c) → ofBus c = .ok v →
      ToDiskComputes offset addr (n + 1) i cpu (.index (offset + i).toNat v.rfsimg.size)
  | next {n : Nat} {i byte : Word} {cpu c : Cpu} {v : VirtioBlkDevice} {rfsimg : ByteVec}
      {op : DiskOp} :
      Bus.load cpu (addr + i) .w8 = .ok (byte, c) → ofBus c = .ok v →
      v.rfsimg.store (offset + i).toNat byte .w8 = .ok rfsimg →
      ToDiskComputes offset addr n (i + 1) (toBus c { v with rfsimg := rfsimg }) op →
      ToDiskComputes offset addr (n + 1) i cpu op

/-- The indices of the loop that reads the image. -/
inductive FromDiskComputes (offset addr : Word) : Nat → Word → Cpu → DiskOp → Prop
  | index {n : Nat} {i : Word} {cpu : Cpu} {v : VirtioBlkDevice} :
      ofBus cpu = .ok v →
      FromDiskComputes offset addr (n + 1) i cpu (.index (offset + i).toNat v.rfsimg.size)
  | next {n : Nat} {i byte : Word} {cpu c : Cpu} {v : VirtioBlkDevice} {op : DiskOp} :
      ofBus cpu = .ok v → v.rfsimg.load (offset + i).toNat .w8 = .ok byte →
      Bus.store cpu (addr + i) byte .w8 = .ok c →
      FromDiskComputes offset addr n (i + 1) c op → FromDiskComputes offset addr (n + 1) i cpu op

/-- The indices of the copy of a request. -/
def Request.Copies (r : Request) (c : Cpu) (op : DiskOp) : Prop :=
  if r.blkReqType = VirtioCfg.blkTOut then
    ToDiskComputes r.offset r.desc1.addr r.desc1.len.toNat 0 c op
  else FromDiskComputes r.offset r.desc1.addr r.desc1.len.toNat 0 c op

/-- The remainders and the indices that `access_disk` comes to. -/
inductive Computes (cpu : Cpu) : DiskOp → Prop
  | slot {v : VirtioBlkDevice} {p : Word × Cpu} : ofBus cpu = .ok v →
      Bus.load cpu (v.vq.avail + 2) .w16 = .ok p → Computes cpu (.remainder (v.vq.num.setWidth 64))
  | copy {v : VirtioBlkDevice} {r : Request} {c : Cpu} {op : DiskOp} : ofBus cpu = .ok v →
      readRequest v cpu = .ok (r, c) → r.Copies c op → Computes cpu op
  | used {v : VirtioBlkDevice} {r : Request} {c copied answered : Cpu} : ofBus cpu = .ok v →
      readRequest v cpu = .ok (r, c) → r.copy c = .ok copied →
      Bus.store copied r.desc2.addr VirtioCfg.blkSOk .w8 = .ok answered →
      Computes cpu (.remainder (v.vq.num.setWidth 64))

variable {offset addr i : Word} {n : Nat} {cpu : Cpu} {v : VirtioBlkDevice} {op : DiskOp}

theorem toDiskComputes_undefined (h : ToDiskComputes offset addr n i cpu op) (hop : ¬op.Defined) :
    copyToDisk offset addr n i cpu = .error .undefined := by
  induction h with
  | index hl hv =>
    unfold copyToDisk
    rw [hl, Except.ok_bind]
    simp only [hv, Except.ok_bind]
    unfold ByteVec.store
    rw [if_neg (by exact hop)]
    rfl
  | next hl hv hs _ ih =>
    unfold copyToDisk
    rw [hl, Except.ok_bind]
    simp only [hv, hs, Except.ok_bind]
    exact ih hop

theorem fromDiskComputes_undefined (h : FromDiskComputes offset addr n i cpu op)
    (hop : ¬op.Defined) : copyFromDisk offset addr n i cpu = .error .undefined := by
  induction h with
  | index hv =>
    unfold copyFromDisk
    rw [hv, Except.ok_bind]
    unfold ByteVec.load
    rw [if_neg (by exact hop)]
    rfl
  | next hv hb hs _ ih =>
    unfold copyFromDisk
    rw [hv, Except.ok_bind, hb, Except.ok_bind, hs, Except.ok_bind]
    exact ih hop

theorem Request.Copies.undefined {r : Request} (h : r.Copies cpu op) (hop : ¬op.Defined) :
    r.copy cpu = .error .undefined := by
  unfold Request.Copies at h
  unfold Request.copy
  split
  next ht => exact toDiskComputes_undefined ((if_pos ht).mp h) hop
  next ht => exact fromDiskComputes_undefined ((if_neg ht).mp h) hop

theorem queueIndex_ne_zero {value : BitVec 16} {queueSize slot : Word}
    (h : queueIndex value queueSize = .ok slot) : queueSize ≠ 0 := by
  rintro rfl
  cases h

/-- A request that was read has passed the first remainder. -/
theorem readRequest_num {r : Request} {c : Cpu} (h : readRequest v cpu = .ok (r, c)) :
    v.vq.num.setWidth 64 ≠ (0 : Word) := by
  obtain ⟨⟨idx, c₁⟩, _, h⟩ := Except.bind_eq_ok_iff.mp h
  obtain ⟨slot, hslot, _⟩ := Except.bind_eq_ok_iff.mp h
  exact queueIndex_ne_zero hslot

/-- Where an operand is not defined, neither is `access_disk`. -/
theorem computes_undefined (h : Computes cpu op) (hop : ¬op.Defined) :
    accessDisk cpu = .error .undefined := by
  rw [accessDisk_eq]
  cases h with
  | @slot v p hv hl =>
    have hzero : v.vq.num.setWidth 64 = (0 : Word) := not_not.mp hop
    rw [hv, Except.ok_bind]
    unfold readRequest
    rw [hl, hzero]
    rfl
  | copy hv hr hc =>
    rw [hv, Except.ok_bind, hr, Except.ok_bind, hc.undefined hop]
    rfl
  | used hv hr _ _ => exact absurd (readRequest_num hr) hop

theorem forall_toDiskComputes_succ (hv : cpu.bus.virtio = some v) :
    (∀ op, ToDiskComputes offset addr (n + 1) i cpu op → op.Defined) ↔
      ∀ byte c, Bus.load cpu (addr + i) .w8 = .ok (byte, c) →
        (offset + i).toNat < v.rfsimg.size ∧ ∀ rfsimg,
          v.rfsimg.store (offset + i).toNat byte .w8 = .ok rfsimg →
          ∀ op, ToDiskComputes offset addr n (i + 1) (withImage rfsimg c) op → op.Defined := by
  constructor
  · intro h byte c hl
    have hc : c.bus.virtio = some v := (load_accessed hl).2.trans hv
    refine ⟨h _ (.index hl (ofBus_eq_ok_iff.mpr hc)), fun rfsimg hs op hop => h op ?_⟩
    rw [← toBus_image hc] at hop
    exact .next hl (ofBus_eq_ok_iff.mpr hc) hs hop
  · intro h op hop
    cases hop with
    | index hl hw =>
      have hc := (load_accessed hl).2.trans hv
      cases Option.some.inj (hc.symm.trans (ofBus_eq_ok_iff.mp hw))
      exact (h _ _ hl).1
    | next hl hw hs hop =>
      have hc := (load_accessed hl).2.trans hv
      cases Option.some.inj (hc.symm.trans (ofBus_eq_ok_iff.mp hw))
      rw [toBus_image hc] at hop
      exact (h _ _ hl).2 _ hs _ hop

/-- Every byte that the loads come to has its place in the image. -/
theorem forall_toDiskComputes (hv : cpu.bus.virtio = some v) :
    (∀ op, ToDiskComputes offset addr n i cpu op → op.Defined) ↔
      ∀ k < n, Served ((List.range (k + 1)).map fun j => .load (addr + (i + BitVec.ofNat 64 j))) cpu →
        (offset + (i + BitVec.ofNat 64 k)).toNat < v.rfsimg.size := by
  induction n generalizing i cpu v with
  | zero =>
    refine iff_of_true (fun op hop => by cases hop) fun k hk => absurd hk (Nat.not_lt_zero k)
  | succ n ih =>
    rw [forall_toDiskComputes_succ hv]
    constructor
    · intro h k hk hserved
      rw [map_range_succ fun x => .load (addr + x)] at hserved
      obtain ⟨byte, c, hl, hs⟩ := BusAccess.served_load_cons.mp hserved
      have hc : c.bus.virtio = some v := (load_accessed hl).2.trans hv
      obtain ⟨hlt, hrest⟩ := h byte c hl
      cases k with
      | zero =>
        rw [BitVec.add_zero]
        exact hlt
      | succ k =>
        have hstore := hrest _ (ByteVec.store_eq_ok_iff.mpr ⟨hlt, rfl⟩)
        have hk' := (ih (withImage_virtio hc _)).mp hstore k (by omega)
          ((served_withImage hc _ _ _).mpr hs)
        rw [counter_succ] at hk'
        exact hk'
    · intro h byte c hl
      have hc : c.bus.virtio = some v := (load_accessed hl).2.trans hv
      constructor
      · have hfirst := h 0 (by omega)
        rw [map_range_succ fun x => .load (addr + x), BitVec.add_zero] at hfirst
        exact hfirst (BusAccess.served_load_cons.mpr ⟨byte, c, hl, trivial⟩)
      · intro rfsimg hs
        obtain ⟨_, rfl⟩ := ByteVec.store_eq_ok_iff.mp hs
        refine (ih (withImage_virtio hc _)).mpr fun k hk hserved => ?_
        have hk' := h (k + 1) (by omega) (by
          rw [map_range_succ fun x => .load (addr + x)]
          exact BusAccess.served_load_cons.mpr ⟨byte, c, hl, (served_withImage hc _ _ _).mp hserved⟩)
        rw [counter_succ]
        exact hk'

theorem forall_fromDiskComputes_succ (hv : cpu.bus.virtio = some v) :
    (∀ op, FromDiskComputes offset addr (n + 1) i cpu op → op.Defined) ↔
      (offset + i).toNat < v.rfsimg.size ∧
        ∀ c, Bus.store cpu (addr + i) (LittleEndian.read v.rfsimg.get (offset + i).toNat 1) .w8 = .ok c →
          ∀ op, FromDiskComputes offset addr n (i + 1) c op → op.Defined := by
  constructor
  · intro h
    have hlt : (offset + i).toNat < v.rfsimg.size := h _ (.index (ofBus_eq_ok_iff.mpr hv))
    exact ⟨hlt, fun c hs op hop =>
      h op (.next (ofBus_eq_ok_iff.mpr hv) (ByteVec.load_eq_ok_iff.mpr ⟨hlt, rfl⟩) hs hop)⟩
  · rintro ⟨hlt, h⟩ op hop
    cases hop with
    | index hw =>
      cases Option.some.inj (hv.symm.trans (ofBus_eq_ok_iff.mp hw))
      exact hlt
    | next hw hb hs hop =>
      cases Option.some.inj (hv.symm.trans (ofBus_eq_ok_iff.mp hw))
      obtain ⟨_, rfl⟩ := ByteVec.load_eq_ok_iff.mp hb
      exact h _ hs _ hop

/-- Every byte that is read after the stores before it has its place in the image. -/
theorem forall_fromDiskComputes (hv : cpu.bus.virtio = some v) :
    (∀ op, FromDiskComputes offset addr n i cpu op → op.Defined) ↔
      ∀ k < n, Served ((List.range k).map fun j => .store (addr + (i + BitVec.ofNat 64 j))
          (LittleEndian.read v.rfsimg.get (offset + (i + BitVec.ofNat 64 j)).toNat 1)) cpu →
        (offset + (i + BitVec.ofNat 64 k)).toNat < v.rfsimg.size := by
  induction n generalizing i cpu v with
  | zero =>
    refine iff_of_true (fun op hop => by cases hop) fun k hk => absurd hk (Nat.not_lt_zero k)
  | succ n ih =>
    have himage : ∀ {c value}, Bus.store cpu (addr + i) value .w8 = .ok c →
        ∃ w, c.bus.virtio = some w ∧ w.rfsimg = v.rfsimg := by
      intro c value hs
      obtain ⟨hstored, himg⟩ := store_accessed hs
      obtain ⟨w, hw, _⟩ := hstored.id v hv
      rw [hw, hv] at himg
      exact ⟨w, hw, Option.some.inj himg⟩
    rw [forall_fromDiskComputes_succ hv]
    constructor
    · rintro ⟨hlt, h⟩ k hk hserved
      cases k with
      | zero =>
        rw [BitVec.add_zero]
        exact hlt
      | succ k =>
        rw [map_range_succ fun x => .store (addr + x)
          (LittleEndian.read v.rfsimg.get (offset + x).toNat 1)] at hserved
        obtain ⟨c, hs, hrest⟩ := hserved
        obtain ⟨w, hw, himg⟩ := himage hs
        have hk' := (ih hw).mp (h c hs) k (by omega)
        rw [himg] at hk'
        rw [← counter_succ]
        exact hk' hrest
    · intro h
      constructor
      · have hfirst := h 0 (by omega) trivial
        rw [BitVec.add_zero] at hfirst
        exact hfirst
      · intro c hs
        obtain ⟨w, hw, himg⟩ := himage hs
        refine (ih hw).mpr fun k hk hserved => ?_
        have hk' := h (k + 1) (by omega)
        rw [map_range_succ fun x => .store (addr + x)
          (LittleEndian.read v.rfsimg.get (offset + x).toNat 1), ← counter_succ] at hk'
        rw [himg] at hserved ⊢
        exact hk' ⟨c, hs, hserved⟩

/-- The buffer has its place in the image; a `vector` has less than `2 ^ 64` bytes. -/
def Request.Fits (r : Request) (size : Nat) : Prop :=
  r.desc1.len = 0 ∨ r.offset.toNat + r.desc1.len.toNat ≤ size ∨ 2 ^ 64 ≤ size

/-- The accesses to the buffer that come before the image is used for its byte `k`. -/
def Request.before (r : Request) (rfsimg : ByteVec) (k : Nat) : List BusAccess :=
  (r.transfers rfsimg).take (if r.blkReqType = VirtioCfg.blkTOut then k + 1 else k)

/-- The requests of a disk stay inside of its image: the queue has a size, and the buffer
fits, or the bus puts an end to the host program before the image does. -/
def StaysInside (v : VirtioBlkDevice) (cpu : Cpu) : Prop :=
  ((∃ p, Bus.load cpu (v.vq.avail + 2) .w16 = .ok p) → v.vq.num ≠ 0) ∧
    ∀ r c, readRequest v cpu = .ok (r, c) → r.Fits v.rfsimg.size ∨
      ¬Served (r.before v.rfsimg (v.rfsimg.size - r.offset.toNat)) c

theorem Request.before_mono {r : Request} {rfsimg : ByteVec} {j k : Nat} {c : Cpu} (h : j ≤ k)
    (hs : Served (r.before rfsimg k) c) : Served (r.before rfsimg j) c := by
  have hle : (if r.blkReqType = VirtioCfg.blkTOut then j + 1 else j) ≤
      if r.blkReqType = VirtioCfg.blkTOut then k + 1 else k := by
    split <;> omega
  obtain ⟨rest, hrest⟩ := List.take_prefix_take_left (l := r.transfers rfsimg) hle
  unfold Request.before at hs
  rw [← hrest] at hs
  exact hs.of_append

/-- The first byte that has no place decides. -/
theorem Request.inside_iff {r : Request} {rfsimg : ByteVec} {c : Cpu} :
    (∀ k < r.desc1.len.toNat, Served (r.before rfsimg k) c →
      (r.offset + BitVec.ofNat 64 k).toNat < rfsimg.size) ↔
      r.Fits rfsimg.size ∨ ¬Served (r.before rfsimg (rfsimg.size - r.offset.toNat)) c := by
  have hlen := r.desc1.len.isLt
  have hoffset := r.offset.isLt
  have hindex : ∀ k, (r.offset + BitVec.ofNat 64 k).toNat = (r.offset.toNat + k) % 2 ^ 64 := by
    intro k
    rw [BitVec.toNat_add, BitVec.toNat_ofNat, Nat.add_mod_mod]
  constructor
  · intro h
    refine or_iff_not_imp_left.mpr fun hfits hserved => ?_
    simp only [Request.Fits, not_or, Nat.not_le] at hfits
    obtain ⟨hne, hend, hsize⟩ := hfits
    have hpos : r.desc1.len.toNat ≠ 0 := fun h0 => hne (BitVec.eq_of_toNat_eq h0)
    have hlt := h _ (by omega) hserved
    rw [hindex, Nat.mod_eq_of_lt (by omega)] at hlt
    omega
  · intro h k hk hserved
    rw [hindex]
    have hmod := Nat.mod_le (r.offset.toNat + k) (2 ^ 64)
    have hmod' := Nat.mod_lt (r.offset.toNat + k) (by decide : 0 < 2 ^ 64)
    rcases h with (h0 | hend | hsize) | hstop
    · rw [h0] at hk
      exact absurd hk (Nat.not_lt_zero k)
    · omega
    · omega
    · by_cases hlt : k < rfsimg.size - r.offset.toNat
      · omega
      · exact absurd (before_mono (Nat.not_lt.mp hlt) hserved) hstop

theorem Request.before_eq {r : Request} {rfsimg : ByteVec} {k : Nat} (hk : k < r.desc1.len.toNat) :
    r.before rfsimg k =
      if r.blkReqType = VirtioCfg.blkTOut then
        (List.range (k + 1)).map fun j => .load (r.desc1.addr + BitVec.ofNat 64 j)
      else (List.range k).map fun j => .store (r.desc1.addr + BitVec.ofNat 64 j)
        (LittleEndian.read rfsimg.get (r.offset + BitVec.ofNat 64 j).toNat 1) := by
  unfold Request.before Request.transfers
  split
  next => rw [← List.map_take, List.take_range, Nat.min_eq_left (by omega)]
  next => rw [← List.map_take, List.take_range, Nat.min_eq_left (by omega)]

theorem Request.forall_copies {r : Request} {c : Cpu} (hv : c.bus.virtio = some v) :
    (∀ op, r.Copies c op → op.Defined) ↔
      r.Fits v.rfsimg.size ∨
        ¬Served (r.before v.rfsimg (v.rfsimg.size - r.offset.toNat)) c := by
  have hzero : ∀ k, (0 : Word) + BitVec.ofNat 64 k = BitVec.ofNat 64 k := fun _ => BitVec.zero_add _
  rw [← inside_iff]
  unfold Request.Copies
  split
  next ht =>
    simp only [forall_toDiskComputes hv, hzero]
    refine forall₂_congr fun k hk => ?_
    rw [before_eq hk, if_pos ht]
  next ht =>
    simp only [forall_fromDiskComputes hv, hzero]
    refine forall₂_congr fun k hk => ?_
    rw [before_eq hk, if_neg ht]

/-- The remainders and the indices of a request are defined exactly when the queue has a
size and the buffer has its place in the image. -/
theorem accessDisk_inside_iff (cpu : Cpu) :
    (∀ op, Computes cpu op → op.Defined) ↔ ∀ v, cpu.bus.virtio = some v → v.StaysInside cpu := by
  constructor
  · intro h v hv
    have hof := ofBus_eq_ok_iff.mpr hv
    refine ⟨fun hload => ?_, fun r c hr => ?_⟩
    · obtain ⟨p, hl⟩ := hload
      exact fun hz => h _ (.slot hof hl) ((BitField.setWidth_eq_zero_iff (by decide)).mpr hz)
    · have hvc := (readRequest_accessed hr).2.trans hv
      exact (Request.forall_copies hvc).mp fun op hop => h op (.copy hof hr hop)
  · intro h op hop
    cases hop with
    | slot hv hl =>
      have hnum := (h _ (ofBus_eq_ok_iff.mp hv)).1 ⟨_, hl⟩
      exact fun hz => hnum ((BitField.setWidth_eq_zero_iff (by decide)).mp hz)
    | copy hv hr hc =>
      have hv' := ofBus_eq_ok_iff.mp hv
      have hvc := (readRequest_accessed hr).2.trans hv'
      exact (Request.forall_copies hvc).mpr ((h _ hv').2 _ _ hr) _ hc
    | used hv hr _ _ => exact readRequest_num hr

/-- The capacity that the guest reads, in sectors. -/
def capacity (v : VirtioBlkDevice) : Word := LittleEndian.read v.config 0 8

def Request.WithinCapacity (r : Request) (v : VirtioBlkDevice) : Prop :=
  r.blkReqSector.toNat * 512 + r.desc1.len.toNat ≤ v.capacity.toNat * 512

instance (r : Request) (v : VirtioBlkDevice) : Decidable (r.WithinCapacity v) :=
  inferInstanceAs (Decidable (_ ≤ _))

/-- A chain of three descriptors, with the header of a read of sector 1 behind it. -/
def sectorRequest : List Byte :=
  [0x30, 0, 0, 0x80, 0, 0, 0, 0, 0x10, 0, 0, 0, 1, 0, 1, 0,
    0, 0x04, 0, 0x80, 0, 0, 0, 0, 1, 0, 0, 0, 3, 0, 2, 0,
    0, 0x06, 0, 0x80, 0, 0, 0, 0, 1, 0, 0, 0, 2, 0, 0, 0,
    0, 0, 0, 0, 0, 0, 0, 0, 1, 0, 0, 0, 0, 0, 0, 0]

/-- A disk of one sector. -/
def sectorDisk : VirtioBlkDevice :=
  { init (ByteVec.zeros 0x200) with vq := ⟨4, 0x1000, 0x80000000, 0x80000040, 0x80000100⟩ }

def diskMachine (v : VirtioBlkDevice) : Cpu :=
  Cpu.init (RamDevice.ofImage 0x80000000 0x1000 sectorRequest (by decide)) none (some v) false
    ⟨true, true, default⟩

/-- A read with a buffer begins at the offset of its sector. -/
theorem Request.copies_first {r : Request} {c : Cpu} (hv : c.bus.virtio = some v)
    (ht : r.blkReqType ≠ VirtioCfg.blkTOut) (hlen : 0 < r.desc1.len.toNat) :
    r.Copies c (.index r.offset.toNat v.rfsimg.size) := by
  obtain ⟨m, hm⟩ := Nat.exists_eq_succ_of_ne_zero hlen.ne'
  have hindex := @FromDiskComputes.index r.offset r.desc1.addr m 0 c v (ofBus_eq_ok_iff.mpr hv)
  have hzero : r.offset + 0 = r.offset := BitVec.add_zero _
  rw [hzero] at hindex
  unfold Request.Copies
  rw [if_neg ht, hm]
  exact hindex

theorem sectorDisk_request : ∃ r c, readRequest sectorDisk (diskMachine sectorDisk) = .ok (r, c) ∧
    r.WithinCapacity sectorDisk ∧ r.Copies c (.index 0x200 0x200) := by
  refine ⟨_, _, rfl, by decide, ?_⟩
  exact @Request.copies_first sectorDisk _ _ rfl (by decide) (by decide)

theorem sectorDisk_leaves_image : (¬∀ cpu op, Computes cpu op → op.Defined) ∧
    ¬∀ cpu v r c op, cpu.bus.virtio = some v → v.config = (init v.rfsimg).config →
      readRequest v cpu = .ok (r, c) → r.WithinCapacity v → Computes cpu op → op.Defined := by
  constructor
  · intro h
    have hslot := @Computes.slot (diskMachine (init (ByteVec.zeros 0x200))) _ _ rfl rfl
    exact h _ _ hslot rfl
  · intro h
    obtain ⟨r, c, hr, hcap, hop⟩ := sectorDisk_request
    have hlt := h (diskMachine sectorDisk) sectorDisk r c _ rfl rfl hr hcap (.copy rfl hr hop)
    exact Nat.lt_irrefl _ hlt

end VirtioBlkDevice

end Rv64gcEmu
