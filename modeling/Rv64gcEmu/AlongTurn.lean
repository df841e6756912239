import Rv64gcEmu.MmuWriteBack
import Rv64gcEmu.Turns

namespace Rv64gcEmu

/-- A relation of machines that includes every access of the bus, and everything that leaves the
devices alone. -/
structure AlongBus (R : Cpu → Cpu → Prop) : Prop where
  same : ∀ {a b : Cpu}, b.bus = a.bus → R a b
  trans : ∀ {a b c : Cpu}, R a b → R b c → R a c
  load : ∀ {a b : Cpu} {address v : Word} {length : Width},
    Bus.load a address length = .ok (v, b) → R a b
  store : ∀ {a b : Cpu} {address value : Word} {length : Width},
    Bus.store a address value length = .ok b → R a b

namespace AlongBus

variable {R : Cpu → Cpu → Prop} {cpu after : Cpu} {address p v value : Word} {length : Width}
  {t : AccessType}

theorem append (hr : AlongBus R) {b : Cpu} (h : R cpu after) (hb : b.bus = after.bus) : R cpu b :=
  hr.trans h (hr.same hb)

theorem fetchPteLoop (hr : AlongBus R) {vpn : Nat → Word} {a : Word} {entry : TlbEntry} {i : Nat}
    {found : Option (Nat × TlbEntry)}
    (h : Mmu.fetchPteLoop cpu address t vpn a entry i = .ok (found, after)) : R cpu after := by
  induction i generalizing cpu a entry with
  | zero =>
    obtain ⟨_, rfl⟩ := Prod.mk.inj (Except.ok.inj h)
    exact hr.same rfl
  | succ i ih =>
    obtain ⟨⟨pte, c⟩, hl, h⟩ := Except.bind_eq_ok_iff.mp h
    simp only at h
    split at h
    next =>
      obtain ⟨_, rfl⟩ := Prod.mk.inj (Except.ok.inj h)
      exact hr.append (hr.load hl) rfl
    next =>
      split at h
      next =>
        obtain ⟨_, rfl⟩ := Prod.mk.inj (Except.ok.inj h)
        exact hr.load hl
      next => exact hr.trans (hr.load hl) (ih h)

theorem fetchPte (hr : AlongBus R) {entry : TlbEntry} {found : Option TlbEntry}
    (h : Mmu.fetchPte cpu address t entry = .ok (found, after)) : R cpu after := by
  obtain ⟨⟨leaf, c⟩, hl, h⟩ := Except.bind_eq_ok_iff.mp h
  have hwalk := hr.fetchPteLoop hl
  cases leaf with
  | none =>
    obtain ⟨_, rfl⟩ := Prod.mk.inj (Except.ok.inj h)
    exact hwalk
  | some leaf =>
    simp only at h
    split at h
    next =>
      obtain ⟨_, rfl⟩ := Prod.mk.inj (Except.ok.inj h)
      exact hr.append hwalk rfl
    next =>
      obtain ⟨_, rfl⟩ := Prod.mk.inj (Except.ok.inj h)
      exact hwalk

theorem getTlbEntry (hr : AlongBus R) {found : Option (Fin 4)}
    (h : Mmu.getTlbEntry cpu address t = .ok (found, after)) : R cpu after := by
  unfold Mmu.getTlbEntry at h
  split at h
  next =>
    simp only at h
    split at h
    next =>
      obtain ⟨_, rfl⟩ := Prod.mk.inj (Except.ok.inj h)
      exact hr.same rfl
    next =>
      obtain ⟨⟨entry, c⟩, hf, h⟩ := Except.bind_eq_ok_iff.mp h
      have hwalk : R cpu c := by
        refine hr.trans ?_ (hr.fetchPte hf)
        exact hr.same rfl
      cases entry with
      | some e =>
        obtain ⟨_, rfl⟩ := Prod.mk.inj (Except.ok.inj h)
        exact hr.append hwalk rfl
      | none =>
        obtain ⟨_, rfl⟩ := Prod.mk.inj (Except.ok.inj h)
        exact hwalk
  next =>
    obtain ⟨⟨entry, c⟩, hf, h⟩ := Except.bind_eq_ok_iff.mp h
    have hwalk := hr.fetchPte hf
    cases entry with
    | some e =>
      obtain ⟨_, rfl⟩ := Prod.mk.inj (Except.ok.inj h)
      exact hr.append hwalk rfl
    | none =>
      obtain ⟨_, rfl⟩ := Prod.mk.inj (Except.ok.inj h)
      exact hwalk

theorem translate (hr : AlongBus R) (h : Mmu.translate cpu address t = .ok (p, after)) :
    R cpu after := by
  obtain ⟨_, rfl⟩ | ⟨c, hg, rfl⟩ | ⟨_, i, c, hg, hc⟩ := Mmu.translate_cases h
  · exact hr.same rfl
  · exact hr.getTlbEntry hg
  · obtain ⟨_, rfl⟩ | ⟨_, ⟨_, rfl⟩ | ⟨_, hst⟩⟩ := Mmu.checkEntry_cases hc
    · exact hr.append (hr.getTlbEntry hg) rfl
    · exact hr.getTlbEntry hg
    · refine hr.trans (hr.append (hr.getTlbEntry hg) ?_) (hr.store hst)
      rfl

theorem mmuLoad (hr : AlongBus R) (h : Mmu.load cpu address length = .ok (v, after)) :
    R cpu after := by
  obtain ⟨p, c, ht, ⟨_, _, rfl⟩ | ⟨_, hl⟩⟩ := Mmu.load_cases h
  · exact hr.translate ht
  · exact hr.trans (hr.translate ht) (hr.load hl)

theorem mmuStore (hr : AlongBus R) (h : Mmu.store cpu address value length = .ok after) :
    R cpu after := by
  obtain ⟨p, c, ht, ⟨_, rfl⟩ | ⟨_, hst⟩⟩ := Mmu.store_cases h
  · exact hr.translate ht
  · exact hr.trans (hr.translate ht) (hr.store hst)

theorem mmuFetch (hr : AlongBus R) (h : Mmu.fetch cpu address = .ok (v, after)) : R cpu after := by
  obtain ⟨p, c, ht, ⟨_, _, rfl⟩ | ⟨_, c', hl, rfl | rfl⟩⟩ := Mmu.fetch_cases h
  · exact hr.translate ht
  · exact hr.trans (hr.translate ht) (hr.load hl)
  · exact hr.append (hr.trans (hr.translate ht) (hr.load hl)) rfl

theorem effect (hr : AlongBus R) {access : Option Access} (h : Effect cpu after access) :
    R cpu after := by
  cases h with
  | quiet hq => exact hr.same hq.bus
  | refused flags eq => exact hr.same (eq.bus.trans flags.bus)
  | loaded load eq =>
    refine hr.append (hr.mmuLoad load) ?_
    rw [eq]
    unfold Load.assignIfNoException
    split <;> rfl
  | @loadedUnchecked _ _ _ _ dest c load _ eq =>
    refine hr.append (hr.mmuLoad load) (eq.bus.trans ?_)
    cases dest <;> rfl
  | stored store eq => exact hr.append (hr.mmuStore store) eq.bus

theorem atomicOp (hr : AlongBus R) {d : Decoder} {kind : Option (LrSc × Width)}
    (h : Atomic.Op cpu d after kind) : R cpu after := by
  cases h with
  | amo hx =>
    obtain ⟨⟨v, a⟩, hl, hx⟩ := Except.bind_eq_ok_iff.mp hx
    obtain ⟨b, hst, hx⟩ := Except.bind_eq_ok_iff.mp hx
    cases Except.ok.inj hx
    exact hr.append (hr.trans (hr.mmuLoad hl) (hr.mmuStore hst)) rfl
  | lr hx =>
    obtain ⟨⟨v, a⟩, hl, hx⟩ := Except.bind_eq_ok_iff.mp hx
    cases Except.ok.inj hx
    exact hr.append (hr.mmuLoad hl) rfl
  | sc hx =>
    unfold Atomic.scOp at hx
    simp only at hx
    split at hx
    next =>
      obtain ⟨b, hst, hx⟩ := Except.bind_eq_ok_iff.mp hx
      cases Except.ok.inj hx
      refine hr.append (hr.trans ?_ (hr.mmuStore hst)) rfl
      exact hr.same rfl
    next =>
      cases Except.ok.inj hx
      exact hr.same rfl
  | illegal hx =>
    subst hx
    exact hr.same rfl

theorem execute (hr : AlongBus R) {d : Decoder} {size : Word}
    (h : cpu.execute d = .ok (size, after)) : R cpu after := by
  cases Cpu.execute_ran h with
  | plain _ _ he => exact hr.effect he
  | atomic _ _ ha =>
    obtain ⟨c, hc, hop⟩ := Atomic.funct3_cases ha
    exact hr.trans (hr.same hc.bus) (hr.atomicOp hop)
  | csr _ _ hc =>
    subst hc
    exact hr.same (CsrInsn.funct3_frame cpu d).bus

theorem loop (hr : AlongBus R) {size : Word} (h : cpu._loop = .ok (size, after)) : R cpu after := by
  have hzero : R cpu (cpu.setReg 0 0) := hr.same rfl
  obtain ⟨_, _, rfl⟩ | ⟨_, _, _, v, hf⟩ | ⟨c, d, hf, _, _, rfl⟩ | ⟨c, d, hf, _, hx⟩ :=
    Cpu.loop_cases h
  · exact hzero
  · exact hr.trans hzero (hr.mmuFetch hf)
  · obtain ⟨v, hf, _⟩ := hf.fetch
    exact hr.append (hr.trans hzero (hr.mmuFetch hf)) rfl
  · obtain ⟨v, hf, _⟩ := hf.fetch
    exact hr.trans (hr.trans hzero (hr.mmuFetch hf)) (hr.execute hx)

/-- From the poll of a turn to its end. -/
theorem turn (hr : AlongBus R) {before : Cpu} {p : Cpu.Phases} (h : Cpu.Turn before p after) :
    R p.polled after := by
  have hstart : R p.polled p.fetching := hr.same (Cpu.interrupted_frame _ _).bus
  rw [← h.finish]
  exact hr.append (hr.trans hstart (hr.loop h.loop)) (Cpu.finish_frame _ _).bus

end AlongBus

end Rv64gcEmu
