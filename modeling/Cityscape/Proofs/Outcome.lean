import Mathlib.Data.List.Forall2

/-!
# Outcomes in sequence

A sequence of steps that may fail succeeds if all of its steps do.
-/

namespace Cityscape

variable {ε α β : Type}

/-- What two steps in sequence lead to, each of them leads to. -/
theorem exists_of_bind_eq_ok {first : Except ε α} {next : α → Except ε β} {b : β}
    (h : first >>= next = .ok b) : ∃ a, first = .ok a ∧ next a = .ok b := by
  cases first with
  | ok a => exact ⟨a, rfl, h⟩
  | error fault => cases h

/-- Two steps without their faults. -/
theorem toOption_bind (first : Except ε α) (next : α → Except ε β) :
    (first >>= next).toOption = first.toOption.bind fun a ↦ (next a).toOption := by
  cases first <;> rfl

/-- A step for each item of a list. -/
theorem mapM_eq_ok_iff {step : α → Except ε β} {items : List α} {results : List β} :
    items.mapM step = .ok results ↔ List.Forall₂ (fun item result ↦ step item = .ok result) items results := by
  constructor
  · intro h
    induction items generalizing results with
    | nil =>
      cases h
      exact .nil
    | cons item items ih =>
      rw [List.mapM_cons] at h
      obtain ⟨result, hr, h⟩ := exists_of_bind_eq_ok h
      obtain ⟨rest, hm, h⟩ := exists_of_bind_eq_ok h
      cases h
      exact .cons hr (ih hm)
  · intro h
    induction h with
    | nil => rfl
    | cons hr _ ih =>
      rw [List.mapM_cons, hr, ih]
      rfl

/-- Something that related items of two lists say about the first of them. -/
theorem forall_mem_of_forall₂ {related : α → β → Prop} {good : α → Prop} {as : List α} {bs : List β}
    (h : List.Forall₂ related as bs) (hg : ∀ a b, related a b → good a) : ∀ a ∈ as, good a :=
  ((List.forall₂_and_left as bs).mp (h.imp (S := fun a _ ↦ good a ∧ True) fun a b hab ↦ ⟨hg a b hab, True.intro⟩)).1

/-- All steps have to succeed. -/
theorem exists_mapM_eq_ok_iff {step : α → Except ε β} {items : List α} :
    (∃ results, items.mapM step = .ok results) ↔ ∀ item ∈ items, ∃ result, step item = .ok result := by
  simp only [mapM_eq_ok_iff]
  induction items with
  | nil => exact ⟨fun _ ↦ List.forall_mem_nil _, fun _ ↦ ⟨[], .nil⟩⟩
  | cons item items ih =>
    rw [List.forall_mem_cons, ← ih]
    constructor
    · rintro ⟨_, h⟩
      cases h with
      | cons hr h => exact ⟨⟨_, hr⟩, _, h⟩
    · rintro ⟨⟨result, hr⟩, results, h⟩
      exact ⟨result :: results, .cons hr h⟩

end Cityscape
