import Mathlib.Data.List.Infix

namespace FirstOccurrence

variable {α : Type} {data pattern pre post : List α}

/-- The pattern stands after `pre`, and nowhere before that. -/
structure IsFirst (data pattern pre post : List α) : Prop where
  eq : data = pre ++ pattern ++ post
  first : ∀ pre' post', data = pre' ++ pattern ++ post' → pre.length ≤ pre'.length

theorem IsFirst.unique {pre' post' : List α} (h : IsFirst data pattern pre post)
    (h' : IsFirst data pattern pre' post') : pre = pre' ∧ post = post' := by
  have hlen : pre.length = pre'.length := Nat.le_antisymm (h.first _ _ h'.eq) (h'.first _ _ h.eq)
  have heq := h.eq.symm.trans h'.eq
  rw [List.append_assoc, List.append_assoc] at heq
  obtain ⟨hpre, htail⟩ := List.append_inj heq hlen
  exact ⟨hpre, List.append_cancel_left htail⟩

theorem IsFirst.cons {b : α} (h : IsFirst data pattern pre post)
    (hb : ¬pattern <+: b :: data) : IsFirst (b :: data) pattern (b :: pre) post := by
  refine ⟨by rw [h.eq]; rfl, fun pre' post' heq => ?_⟩
  cases pre' with
  | nil => exact absurd ⟨post', heq.symm⟩ hb
  | cons c pre' =>
    obtain ⟨rfl, htail⟩ := List.cons.inj heq
    exact Nat.succ_le_succ (h.first pre' post' htail)

variable [DecidableEq α]

/-- The first position at which the pattern stands. -/
def search (data pattern : List α) : Option Nat :=
  if pattern <+: data then some 0
  else
    match data with
    | [] => none
    | _ :: rest => (search rest pattern).map (· + 1)

theorem isFirst_of_search {i : Nat} (h : search data pattern = some i) :
    ∃ pre post, IsFirst data pattern pre post ∧ pre.length = i := by
  induction data generalizing i with
  | nil =>
    unfold search at h
    split at h
    next hp =>
      obtain ⟨post, hp⟩ := hp
      cases h
      exact ⟨[], post, ⟨hp.symm, fun _ _ _ => Nat.zero_le _⟩, rfl⟩
    next => cases h
  | cons b rest ih =>
    unfold search at h
    split at h
    next hp =>
      obtain ⟨post, hp⟩ := hp
      cases h
      exact ⟨[], post, ⟨hp.symm, fun _ _ _ => Nat.zero_le _⟩, rfl⟩
    next hp =>
      obtain ⟨j, hj, rfl⟩ := Option.map_eq_some_iff.mp h
      obtain ⟨pre, post, hf, hlen⟩ := ih hj
      exact ⟨b :: pre, post, hf.cons hp, congrArg (· + 1) hlen⟩

theorem not_occurs_of_search (h : search data pattern = none) :
    ¬∃ pre post, data = pre ++ pattern ++ post := by
  induction data with
  | nil =>
    unfold search at h
    split at h
    next => cases h
    next hp =>
      rintro ⟨pre, post, heq⟩
      have hnil := (List.append_eq_nil_iff.mp (List.append_eq_nil_iff.mp heq.symm).1).2
      exact hp ⟨[], by rw [hnil]; rfl⟩
  | cons b rest ih =>
    unfold search at h
    split at h
    next => cases h
    next hp =>
      rintro ⟨pre, post, heq⟩
      cases pre with
      | nil => exact hp ⟨post, heq.symm⟩
      | cons c pre => exact ih (Option.map_eq_none_iff.mp h) ⟨pre, post, (List.cons.inj heq).2⟩

theorem exists_isFirst (h : ∃ pre post, data = pre ++ pattern ++ post) :
    ∃ pre post, IsFirst data pattern pre post := by
  cases hs : search data pattern with
  | none => exact absurd h (not_occurs_of_search hs)
  | some i =>
    obtain ⟨pre, post, hf, _⟩ := isFirst_of_search hs
    exact ⟨pre, post, hf⟩

end FirstOccurrence
