import Rv64gcEmu.StoreValue

namespace Rv64gcEmu

open Width (mask)

theorem write_low (length : Width) (mem : Nat → Byte) (off : Nat) (v : Word) :
    LittleEndian.write mem off (length.low v) length.bytes =
      LittleEndian.write mem off v length.bytes := by
  funext i
  unfold LittleEndian.write
  split
  next h =>
    apply BitVec.eq_of_getLsbD_eq
    intro j hj
    have hlt : 8 * (i - off) + j < length.bits := by
      unfold Width.bits
      omega
    rw [LittleEndian.getLsbD_byteOf, LittleEndian.getLsbD_byteOf, Width.getLsbD_low]
    simp [hlt]
  next => rfl

namespace PlicDevice

/-- The bits of a stored value that the register at the address looks at. -/
def seen (address low : Word) : Word :=
  match PlicWord.of address with
  | some (.claim _, _) => if low.toNat < 32 then mask 0 64 else 0
  | some _ => mask 0 32
  | none => 0

theorem clearPending_sees (p : PlicDevice) (length : Width) (v : Word) :
    Sees p.clearPending length v
      ((if (length.low v).toNat < 32 then mask 0 64 else 0) &&& length.upper) := by
  have h32 : ∀ x : Word, x.toNat < 32 → length.low x = x := by
    intro x hx
    apply BitVec.eq_of_toNat_eq
    rw [length.toNat_low]
    cases length <;> exact Nat.mod_eq_of_lt (Nat.lt_trans hx (by decide))
  split
  next hlt =>
    refine .whole fun x hx => ⟨fun he => ?_, fun he => congrArg _ he⟩
    by_cases hx32 : x.toNat < 32
    · rw [← hx, h32 x hx32]
    · obtain ⟨p', hp⟩ := p.clearPending_ok hlt
      rw [p.clearPending_undefined (Nat.not_lt.mp hx32), hp] at he
      cases he
  next hge =>
    refine .none fun x hx => ?_
    have hle : (length.low x).toNat ≤ x.toNat := by
      rw [length.toNat_low]
      exact Nat.mod_le _ _
    rw [hx] at hle
    rw [p.clearPending_undefined (by omega), p.clearPending_undefined (by omega)]

theorem store_sees (p : PlicDevice) (address : Word) (length : Width) (v : Word) :
    Sees (fun x => p.store address x) length v (seen address (length.low v) &&& length.upper) := by
  refine .congr (fun x => p.store_eq address x) ?_
  unfold seen
  have hput : ∀ w : PlicWord, (∀ c, w ≠ .claim c) →
      Sees (fun x => (.ok (w.put p (x.setWidth 32)) : HostM PlicDevice)) length v
        (mask 0 32 &&& length.upper) := by
    intro w hw
    refine .word (g := fun b => (.ok (w.put p b) : HostM PlicDevice)) fun a b hab => ?_
    rw [← PlicWord.get_put p a hw, Except.ok.inj hab, PlicWord.get_put p b hw]
  cases PlicWord.of address with
  | none => exact .none_of_low fun _ => rfl
  | some r =>
    obtain ⟨w, k⟩ := r
    cases w with
    | claim c => exact p.clearPending_sees length v
    | prioprity i => exact hput _ fun _ => PlicWord.noConfusion
    | pending i => exact hput _ fun _ => PlicWord.noConfusion
    | enable i => exact hput _ fun _ => PlicWord.noConfusion
    | treshold c => exact hput _ fun _ => PlicWord.noConfusion

end PlicDevice

namespace VirtioBlkDevice

/-- The feature words and the alignment decide whether the store has a result. -/
def seen (v : VirtioBlkDevice) (address : Word) : Word :=
  let address := address - VirtioCfg.baseAddr
  if VirtioCfg.config ≤ address then
    if (address - VirtioCfg.config).toNat < 8 then
      mask ((address - VirtioCfg.config) * 8).toNat 8 else 0
  else if address = VirtioCfg.deviceFeaturesSel then mask 0 32
  else if address = VirtioCfg.driverFeatures then
    if v.guestFeaturesSel.toNat < 2 then mask 0 32 else 0
  else if address = VirtioCfg.driverFeaturesSel then mask 0 32
  else if address = VirtioCfg.guestPageSize then mask 0 32
  else if address = VirtioCfg.queueSel then 0
  else if address = VirtioCfg.queueNum then mask 0 32
  else if address = VirtioCfg.queueAlign then mask 0 32
  else if address = VirtioCfg.queuePfn then if v.vq.align ≠ 0 then mask 0 32 else 0
  else if address = VirtioCfg.queueNotify then mask 0 32
  else 0

theorem configStore_sees (d : VirtioBlkDevice) (index : Word) (length : Width) (v : Word) :
    Sees (fun x => (checkShift 64 (index * 8) >>= fun _ => checkIndex 8 index.toNat >>= fun _ =>
        .ok { d with
          config := Function.update d.config index.toNat ((x >>> (index * 8).toNat).setWidth 8) } :
        HostM VirtioBlkDevice)) length v
      ((if index.toNat < 8 then mask (index * 8).toNat 8 else 0) &&& length.upper) := by
  by_cases h : index.toNat < 8
  · have h8 : (8 : Word).toNat = 8 := rfl
    have hmul : (index * 8).toNat = index.toNat * 8 := by
      rw [BitVec.toNat_mul, h8]
      omega
    have hshift : checkShift 64 (index * 8) = .ok () := if_pos (by omega)
    have hindex : checkIndex 8 index.toNat = .ok () := if_pos h
    simp only [hshift, hindex, Except.ok_bind, if_pos h, BitVec.setWidth_ushiftRight_eq_extractLsb]
    refine .field (g := fun b => (.ok { d with config := Function.update d.config index.toNat b } :
      HostM VirtioBlkDevice)) (fun a b hab => ?_) (by omega)
    have hc := congrArg (fun e => e.config index.toNat) (Except.ok.inj hab)
    simpa only [Function.update_self] using hc
  · have hindex : checkIndex 8 index.toNat = .error .undefined := if_neg h
    simp only [hindex, if_neg h]
    exact .none_of_low fun _ => rfl

theorem queuePfn_sees (d : VirtioBlkDevice) (length : Width) (v : Word) :
    Sees (fun x => update { d with queuePfn := x.setWidth 32 }) length v
      ((if d.vq.align ≠ 0 then mask 0 32 else 0) &&& length.upper) := by
  have hzero : d.vq.align.setWidth 64 = 0 ↔ d.vq.align = 0 :=
    BitField.setWidth_eq_zero_iff (by decide)
  by_cases h : d.vq.align = 0
  · rw [if_neg (not_not.mpr h)]
    refine .none_of_low fun x => ?_
    unfold update Helper.alignUp
    simp only [if_pos (hzero.mpr h)]
    rfl
  · rw [if_pos h]
    refine .word (g := fun b => update { d with queuePfn := b }) fun a b hab => ?_
    unfold update Helper.alignUp at hab
    simp only [if_neg fun hz => h (hzero.mp hz)] at hab
    exact congrArg VirtioBlkDevice.queuePfn (Except.ok.inj hab)

theorem store_sees (d : VirtioBlkDevice) (address : Word) (length : Width) (v : Word) :
    Sees (fun x => d.store address x) length v (d.seen address &&& length.upper) := by
  have h8 : 8 ≤ length.bits := by cases length <;> decide
  have hword : ∀ g : BitVec 32 → VirtioBlkDevice, Function.Injective g →
      Sees (fun x => (.ok (g (x.setWidth 32)) : HostM VirtioBlkDevice)) length v
        (mask 0 32 &&& length.upper) :=
    fun g hg => .word fun _ _ hab => hg (Except.ok.inj hab)
  unfold store seen
  simp only
  refine .ite (fun _ => d.configStore_sees _ length v) fun _ => ?_
  refine .ite (fun _ => hword (fun b => { d with hostFeaturesSel := b })
    fun _ _ => congrArg VirtioBlkDevice.hostFeaturesSel) fun _ => ?_
  refine .ite (fun _ => ?_) fun _ => ?_
  · by_cases h : d.guestFeaturesSel.toNat < 2
    · have hindex : checkIndex 2 d.guestFeaturesSel.toNat = .ok () := if_pos h
      simp only [hindex, Except.ok_bind, if_pos h]
      refine hword (fun b => { d with
        guestFeatures := Function.update d.guestFeatures d.guestFeaturesSel.toNat b })
        fun a b hab => ?_
      have hc := congrArg (fun e => e.guestFeatures d.guestFeaturesSel.toNat) hab
      simpa only [Function.update_self] using hc
    · have hindex : checkIndex 2 d.guestFeaturesSel.toNat = .error .undefined := if_neg h
      simp only [hindex, if_neg h]
      exact .none_of_low fun _ => rfl
  refine .ite (fun _ => hword (fun b => { d with guestFeaturesSel := b })
    fun _ _ => congrArg VirtioBlkDevice.guestFeaturesSel) fun _ => ?_
  refine .ite (fun _ => hword (fun b => { d with guestPageSize := b })
    fun _ _ => congrArg VirtioBlkDevice.guestPageSize) fun _ => ?_
  refine .ite (fun _ => .none_of_low fun _ => rfl) fun _ => ?_
  refine .ite (fun _ => hword (fun b => { d with vq := { d.vq with num := b } })
    fun _ _ hab => congrArg (fun e => e.vq.num) hab) fun _ => ?_
  refine .ite (fun _ => hword (fun b => { d with vq := { d.vq with align := b } })
    fun _ _ hab => congrArg (fun e => e.vq.align) hab) fun _ => ?_
  refine .ite (fun _ => d.queuePfn_sees length v) fun _ => ?_
  refine .ite (fun _ => hword (fun b => { d with queueNotify := b, notifyClock := d.clock })
    fun _ _ => congrArg VirtioBlkDevice.queueNotify) fun _ => ?_
  refine .none_of_low fun x => ?_
  have hlow := length.setWidth_low x h8
  simp only [BitVec.setWidth_and, hlow]

end VirtioBlkDevice

theorem RamDevice.store_low (ram : RamDevice) (address v : Word) (length : Width) :
    ram.store address (length.low v) length = ram.store address v length := by
  unfold store
  simp only [write_low]

theorem Uart.store_low (u : Uart) (address v : Word) (length : Width) :
    u.store address (length.low v) = u.store address v := by
  have h8 : 8 ≤ length.bits := by cases length <;> decide
  unfold store
  rw [length.setWidth_low v h8]

theorem ClintDevice.store_low (c : ClintDevice) (address v : Word) (length : Width) :
    c.store address (length.low v) length = c.store address v length := by
  have hmerge : ∀ r offset, merge r offset (length.low v) length = merge r offset v length := by
    intro r offset
    unfold merge
    split
    next hne =>
      have hmask : length.low v &&& ((1#64 <<< length.bits) - 1) =
          v &&& ((1#64 <<< length.bits) - 1) := by
        refine length.low_and v ?_
        cases length with
        | w64 => exact absurd rfl hne
        | _ => decide
      simp only [hmask]
    next h64 =>
      rw [not_not.mp h64]
      exact congrArg _ (BitVec.setWidth_eq v)
  unfold store
  simp only [hmerge]

namespace SdlGpu

theorem store_low (g : SdlGpu) (address v : Word) (length : Width) :
    g.store address (length.low v) length = g.store address v length := by
  unfold store
  split
  next => rfl
  next =>
    split
    next =>
      split
      next => rfl
      next h32 =>
        rw [not_not.mp h32, Width.setWidth_low _ _ (by decide),
          BitVec.setWidth_ushiftRight_eq_extractLsb, BitVec.setWidth_ushiftRight_eq_extractLsb,
          Width.extract_low _ _ (by decide)]
    next =>
      split
      next =>
        split
        next => rfl
        next h32 =>
          have hcols : Width.w32.low v &&& 0xffff = v &&& 0xffff := Width.low_and _ v (by decide)
          have hrows : (Width.w32.low v >>> 16) &&& (0xffff : Word) = (v >>> 16) &&& 0xffff := by
            apply BitVec.eq_of_getLsbD_eq
            intro i hi
            have h16 := BitField.getLsbD_field (Width.w32.low v) 16 16 i
            rw [Width.getLsbD_low] at h16
            have hv := BitField.getLsbD_field v 16 16 i
            refine h16.trans (Eq.trans ?_ hv.symm)
            by_cases hlt : i < 16
            · have h32 : 16 + i < Width.w32.bits := by
                change 16 + i < 32
                omega
              simp [hlt, h32]
            · simp [hlt]
          rw [not_not.mp h32, hcols, hrows]
      next =>
        split
        next =>
          simp only [write_low]
        next =>
          rw [g.uart.store_low]

end SdlGpu

namespace Bus

/-- The store draws the framebuffer. -/
def renders (bus : Bus) (device : DeviceId) (address value : Word) : Bool :=
  match device, bus.gpu with
  | .gpu, some (.sdl _) => address = GpuCfg.fbRender ∧ value = 1
  | _, _ => false

/-- What a store to a device comes to. -/
def effect (bus : Bus) (device : DeviceId) (address value : Word) (length : Width) :
    HostM Bus × Bool :=
  (bus.deviceStore device address value length, bus.renders device address value)

/-- The bits of the stored value that its device looks at, among the values with the low bits
`low`. The RAM, the CLINT, the UART and the framebuffer look at the low bits alone. -/
def seen (bus : Bus) (device : DeviceId) (address low : Word) (length : Width) : Word :=
  match device with
  | .gpu =>
    match bus.gpu with
    | some (.sdl _) => if address = GpuCfg.fbRender ∧ low = 1 then mask 0 64 else 0
    | _ => 0
  | .plic => PlicDevice.seen address low
  | .virtio => (bus.virtio.map fun d => d.seen address).getD 0
  | .syscon =>
    if low = length.low SysconCfg.poweroffAddr ∨ low = length.low SysconCfg.rebootAddr then mask 0 64
    else 0
  | _ => 0

theorem bind_ok_injective {α β : Type} {g : α → β} (hg : Function.Injective g) :
    Function.Injective fun r : HostM α => (r >>= fun a => .ok (g a) : HostM β) := by
  intro r s h
  cases r with
  | error e =>
    cases s with
    | error e' => exact congrArg Except.error (Except.error.inj h)
    | ok b => cases h
  | ok a =>
    cases s with
    | error e => cases h
    | ok b => exact congrArg Except.ok (hg (Except.ok.inj h))

variable (bus : Bus) (address : Word) (length : Width) (v : Word)

theorem plic_sees : Sees (fun x => bus.effect .plic address x length) length v
    (bus.seen .plic address (length.low v) length &&& length.upper) := by
  have hg : Function.Injective fun r : HostM PlicDevice =>
      ((r >>= fun plic => .ok { bus with plic := plic } : HostM Bus), false) := by
    intro r s h
    refine bind_ok_injective (g := fun plic => { bus with plic := plic }) ?_ (congrArg Prod.fst h)
    exact fun _ _ hab => congrArg Bus.plic hab
  exact .map hg (bus.plic.store_sees address length v)

theorem virtio_sees : Sees (fun x => bus.effect .virtio address x length) length v
    (bus.seen .virtio address (length.low v) length &&& length.upper) := by
  unfold effect deviceStore seen
  simp only
  cases bus.virtio with
  | none => exact .none_of_low fun _ => rfl
  | some d =>
    have hg : Function.Injective fun r : HostM VirtioBlkDevice =>
        ((r >>= fun d => .ok { bus with virtio := some d } : HostM Bus), false) := by
      intro r s h
      refine bind_ok_injective (g := fun d => { bus with virtio := some d }) ?_ (congrArg Prod.fst h)
      exact fun _ _ hab => Option.some.inj (congrArg Bus.virtio hab)
    exact .map hg (d.store_sees address length v)

theorem gpu_sees : Sees (fun x => bus.effect .gpu address x length) length v
    (bus.seen .gpu address (length.low v) length &&& length.upper) := by
  have hstore : ∀ x, bus.deviceStore .gpu address (length.low x) length =
      bus.deviceStore .gpu address x length := by
    intro x
    unfold deviceStore
    simp only
    cases bus.gpu with
    | none => rfl
    | some g =>
      cases g with
      | sdl g => simp only [GpuDevice.store, g.store_low]
      | nativeCli g => simp only [GpuDevice.store, g.uart.store_low]
  unfold effect seen renders
  cases bus.gpu with
  | none => exact .none_of_low fun x => congrArg (fun r => (r, false)) (hstore x)
  | some g =>
    cases g with
    | nativeCli g => exact .none_of_low fun x => congrArg (fun r => (r, false)) (hstore x)
    | sdl g =>
      simp only
      have hfst : ∀ x, length.low x = length.low v → bus.deviceStore .gpu address x length =
          bus.deviceStore .gpu address (length.low v) length := fun x hx => by rw [← hstore, hx]
      split
      next h =>
        refine .whole fun x hx => ?_
        rw [Prod.mk.injEq, decide_eq_decide, h.2]
        exact ⟨fun he => (he.2.mpr ⟨h.1, rfl⟩).2, fun he => ⟨by rw [hfst x hx, h.2], by rw [he]⟩⟩
      next h =>
        refine .none fun x hx => Prod.ext (hfst x hx) ?_
        refine (decide_eq_false fun hr => h ⟨hr.1, ?_⟩).trans (decide_eq_false h).symm
        rw [← hx, hr.2]
        cases length <;> rfl

theorem syscon_effect (x : Word) : bus.effect .syscon address x length =
    (if x = SysconCfg.poweroffAddr ∨ x = SysconCfg.rebootAddr then .error .exit else .ok bus,
      false) := rfl

/-- A byte is never one of the two numbers, but it may be their lowest one. -/
theorem syscon_sees : Sees (fun x => bus.effect .syscon address x length) length v
    (bus.seen .syscon address (length.low v) length &&& length.upper) := by
  have hexit : ∀ x y, bus.effect .syscon address x length = bus.effect .syscon address y length ↔
      ((x = SysconCfg.poweroffAddr ∨ x = SysconCfg.rebootAddr) ↔
        (y = SysconCfg.poweroffAddr ∨ y = SysconCfg.rebootAddr)) := by
    intro x y
    rw [syscon_effect, syscon_effect, Prod.mk.injEq, and_iff_left rfl]
    split
    next hx =>
      split
      next hy => exact iff_of_true rfl (iff_of_true hx hy)
      next hy => exact iff_of_false (fun h => by cases h) fun h => hy (h.mp hx)
    next hx =>
      split
      next hy => exact iff_of_false (fun h => by cases h) fun h => hx (h.mpr hy)
      next hy => exact iff_of_true rfl (iff_of_false hx hy)
  unfold seen
  simp only
  split
  next h =>
    by_cases h8 : length = .w8
    · subst h8
      refine ⟨iff_of_false (fun hs => ?_) (by decide), fun h => by cases h⟩
      rcases h with h | h
      · have ha := (hexit _ _).mp ((hs SysconCfg.poweroffAddr h.symm).trans
          (hs (Width.w8.low v) (Width.low_low _ _)).symm)
        rw [h] at ha
        exact absurd ha (by decide)
      · have ha := (hexit _ _).mp ((hs SysconCfg.rebootAddr h.symm).trans
          (hs (Width.w8.low v) (Width.low_low _ _)).symm)
        rw [h] at ha
        exact absurd ha (by decide)
    · have hlow : length.low SysconCfg.poweroffAddr = SysconCfg.poweroffAddr ∧
          length.low SysconCfg.rebootAddr = SysconCfg.rebootAddr := by
        cases length with
        | w8 => exact absurd rfl h8
        | _ => exact ⟨rfl, rfl⟩
      rw [hlow.1, hlow.2] at h
      refine .whole fun x hx => ?_
      rw [hexit]
      refine ⟨fun he => ?_, fun he => by rw [he]⟩
      rcases he.mpr h with rfl | rfl
      · rw [← hx, hlow.1]
      · rw [← hx, hlow.2]
  next h =>
    refine .none fun x hx => (hexit _ _).mpr (iff_of_false ?_ ?_)
    · rintro (rfl | rfl)
      · exact h (.inl hx.symm)
      · exact h (.inr hx.symm)
    · intro hl
      refine h (hl.imp ?_ ?_)
      · intro he
        rw [← length.low_low v, he]
      · intro he
        rw [← length.low_low v, he]

theorem effect_sees (device : DeviceId) : Sees (fun x => bus.effect device address x length) length v
    (bus.seen device address (length.low v) length &&& length.upper) := by
  cases device with
  | ram =>
    refine .none_of_low fun x => congrArg (fun r => (r, false)) ?_
    simp only [deviceStore, bus.ram.store_low]
  | gpu => exact bus.gpu_sees address length v
  | plic => exact bus.plic_sees address length v
  | clint =>
    refine .none_of_low fun x => congrArg (fun r => (r, false)) ?_
    simp only [deviceStore, bus.clint.store_low]
  | virtio => exact bus.virtio_sees address length v
  | syscon => exact bus.syscon_sees address length v

end Bus

end Rv64gcEmu
