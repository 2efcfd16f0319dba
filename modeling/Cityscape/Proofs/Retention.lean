import Mathlib.Data.List.DropRight
import Cityscape.Proofs.Simulation

/-!
# The newest records

A journal keeps the newest records, as many as it has room for, and counts all others. Every record that is added keeps
it so, whether the journal still has room, is full or never had any.
-/

namespace Cityscape

namespace Journal

variable {journal : Journal} {capacity : Nat} {history : List Record}

/-- A journal has the newest records of a history, as many as it has room for, and has given up all others. -/
structure Retains (journal : Journal) (capacity : Nat) (history : List Record) : Prop where
  capacity_eq : journal.capacity = capacity
  records_eq : journal.records = history.rtake capacity
  dropped_eq : journal.dropped = history.length - capacity

private theorem length_rtake (history : List Record) (capacity : Nat) :
    (history.rtake capacity).length = min history.length capacity := by
  rw [List.rtake, List.length_drop]
  omega

private theorem rtake_of_length_le (h : history.length ≤ capacity) : history.rtake capacity = history := by
  rw [List.rtake, Nat.sub_eq_zero_of_le h, List.drop_zero]

private theorem rtake_drop_one (h : capacity < history.length) :
    (history.rtake (capacity + 1)).drop 1 = history.rtake capacity := by
  rw [List.rtake, List.rtake, List.drop_drop]
  congr 1
  omega

namespace Retains

private theorem empty (capacity : Nat) : (empty capacity).Retains capacity [] where
  capacity_eq := rfl
  records_eq := (List.rtake_nil capacity).symm
  dropped_eq := (Nat.zero_sub capacity).symm

private theorem length_records (h : journal.Retains capacity history) :
    journal.records.length = min history.length capacity := by
  rw [h.records_eq, length_rtake]

private theorem record (h : journal.Retains capacity history) (r : Record) :
    (journal.record r.line r.message).Retains capacity (history ++ [r]) := by
  have hcapacity := h.capacity_eq
  have hlength := h.length_records
  have hdropped := h.dropped_eq
  have hmore : (history ++ [r]).length = history.length + 1 := List.length_append
  unfold Journal.record
  split_ifs with hzero hfull
  · -- no room for any record
    refine ⟨hcapacity, ?_, ?_⟩
    · change journal.records = (history ++ [r]).rtake capacity
      rw [h.records_eq, ← hcapacity, hzero, List.rtake_zero, List.rtake_zero]
    · change journal.dropped + 1 = (history ++ [r]).length - capacity
      omega
  · obtain ⟨less, rfl⟩ : ∃ less, capacity = less + 1 := Nat.exists_eq_succ_of_ne_zero (hcapacity ▸ hzero)
    refine ⟨hcapacity, ?_, ?_⟩
    · change journal.records.drop 1 ++ [r] = (history ++ [r]).rtake (less + 1)
      rw [h.records_eq, List.rtake_concat_succ, rtake_drop_one (by omega)]
    · change journal.dropped + 1 = (history ++ [r]).length - (less + 1)
      omega
  · refine ⟨hcapacity, ?_, ?_⟩
    · change journal.records ++ [r] = (history ++ [r]).rtake capacity
      rw [h.records_eq, rtake_of_length_le (by omega), rtake_of_length_le (by omega)]
    · change journal.dropped = (history ++ [r]).length - capacity
      omega

private theorem recordAll (capacity : Nat) (history : List Record) :
    ((Journal.empty capacity).recordAll history).Retains capacity history := by
  induction history using List.reverseRecOn with
  | nil => exact .empty capacity
  | append_singleton history r ih =>
    rw [recordAll_append_singleton]
    exact ih.record r

private theorem render (h : journal.Retains capacity history) :
    journal.render =
      (if capacity < history.length then
        ["(" ++ toString (history.length - capacity) ++ " earlier messages dropped)"] else []) ++
        (history.rtake capacity).map fun r ↦ "line " ++ toString r.line ++ ": " ++ r.message := by
  have hdropped := h.dropped_eq
  rw [Journal.render, h.records_eq, hdropped]
  by_cases hc : capacity < history.length
  · rw [if_pos hc, if_neg (by omega)]
    rfl
  · rw [if_neg hc, if_pos (by omega)]
    rfl

end Retains

/-- The newest records are kept, as many as there is room for, and all others are counted. -/
theorem newest_records_kept (capacity : Nat) (history : List Record) :
    let journal := (Journal.empty capacity).recordAll history
    let kept := min history.length capacity
    journal.records = history.rtake kept ∧ journal.size = kept ∧ journal.dropped = history.length - kept ∧
      (journal.isEmpty = true ↔ kept = 0) ∧
      journal.render =
        (if capacity < history.length then
          ["(" ++ toString (history.length - kept) ++ " earlier messages dropped)"] else []) ++
          journal.records.map fun r ↦ "line " ++ toString r.line ++ ": " ++ r.message := by
  intro journal kept
  have h : journal.Retains capacity history := .recordAll capacity history
  have hdropped : history.length - capacity = history.length - kept := by omega
  have hrecords : history.rtake capacity = history.rtake kept := by
    rw [List.rtake, List.rtake, hdropped]
  have hsize : journal.size = kept := h.length_records
  refine ⟨h.records_eq.trans hrecords, hsize, h.dropped_eq.trans hdropped, ?_, ?_⟩
  · rw [isEmpty, List.isEmpty_iff_length_eq_zero]
    exact iff_of_eq (congrArg (· = 0) hsize)
  · rw [h.render, h.records_eq, hdropped]

/-- A full journal gives up its oldest record. -/
example : (((empty 2).recordAll [⟨1, "a"⟩, ⟨2, "b"⟩, ⟨3, "c"⟩]).records.map Record.line) = [2, 3] := by
  decide

end Journal

end Cityscape
