import Mathlib.Data.List.Infix

/-- In a history, the latest event first: `p` held of an event, and `q` of none after it. -/
def Since {α : Type} (p q : α → Prop) (history : List α) : Prop :=
  ∃ later e earlier, history = later ++ e :: earlier ∧ p e ∧ ∀ x ∈ later, ¬q x

namespace Since

variable {α : Type} {p q : α → Prop}

theorem not_nil : ¬Since p q [] := by
  rintro ⟨later, e, earlier, h, _⟩
  cases later <;> cases h

theorem cons_iff {x : α} {history : List α} :
    Since p q (x :: history) ↔ p x ∨ ¬q x ∧ Since p q history := by
  constructor
  · rintro ⟨later, e, earlier, h, hp, hq⟩
    cases later with
    | nil =>
      cases h
      exact .inl hp
    | cons y later =>
      obtain ⟨rfl, rfl⟩ := List.cons.inj h
      exact .inr ⟨hq x (by simp), later, e, earlier, rfl, hp, fun z hz => hq z (by simp [hz])⟩
  · rintro (hp | ⟨hx, later, e, earlier, rfl, hp, hq⟩)
    · exact ⟨[], x, history, rfl, hp, by simp⟩
    · refine ⟨x :: later, e, earlier, rfl, hp, fun z hz => ?_⟩
      rcases List.mem_cons.mp hz with rfl | hz
      · exact hx
      · exact hq z hz

/-- What held of the last event of a kind held of one event only. -/
theorem common {p' : α → Prop} {history : List α} (hp : ∀ x, p x → q x) (hp' : ∀ x, p' x → q x)
    (h : Since p q history) (h' : Since p' q history) : ∃ x, p x ∧ p' x := by
  induction history with
  | nil => exact absurd h not_nil
  | cons x history ih =>
    rcases cons_iff.mp h with hx | ⟨hn, h⟩
    · rcases cons_iff.mp h' with hx' | ⟨hn', _⟩
      · exact ⟨x, hx, hx'⟩
      · exact absurd (hp x hx) hn'
    · rcases cons_iff.mp h' with hx' | ⟨_, h'⟩
      · exact absurd (hp' x hx') hn
      · exact ih h h'

end Since
