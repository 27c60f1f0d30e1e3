import OutboxFanout.Relay.Service

/-!
# The batch of a poll

`pending_event_ids` selects the rows that may be tried, oldest first.
-/

namespace OutboxFanout.Relay

instance : IsTrans OutboxEvent (fun s t => s.createdAt ≤ t.createdAt) :=
  ⟨fun _ _ _ => Nat.le_trans⟩

instance : Std.Total (fun s t : OutboxEvent => s.createdAt ≤ t.createdAt) :=
  ⟨fun _ _ => Nat.le_total _ _⟩

/-- The selectable rows, oldest first. -/
def pendingRows (maxAttempts : Nat) (rows : List OutboxEvent) : List OutboxEvent :=
  (rows.filter (Selectable maxAttempts)).insertionSort (·.createdAt ≤ ·.createdAt)

theorem pendingEventIds_eq :
    pendingEventIds maxAttempts limit rows = ((pendingRows maxAttempts rows).take limit).map (·.id) :=
  rfl

theorem mem_pendingRows :
    row ∈ pendingRows maxAttempts rows ↔ row ∈ rows ∧ Selectable maxAttempts row := by
  simp [pendingRows, List.mem_insertionSort]

theorem pendingRows_pairwise :
    (pendingRows maxAttempts rows).Pairwise (·.createdAt ≤ ·.createdAt) :=
  List.pairwise_insertionSort _ _

/-- A selectable row is in the batch once the limit covers the selectable rows
that are not newer. -/
theorem mem_pendingEventIds (hmem : row ∈ rows) (hsel : Selectable maxAttempts row)
    (hlimit : rows.countP (fun old => Selectable maxAttempts old ∧ old.createdAt ≤ row.createdAt)
      ≤ limit) : row.id ∈ pendingEventIds maxAttempts limit rows := by
  rw [pendingEventIds_eq]
  refine List.mem_map_of_mem (Rows.mem_take_of_pairwise (fun _ => Nat.le_refl _) pendingRows_pairwise
    (mem_pendingRows.mpr ⟨hmem, hsel⟩) ?_)
  rw [← List.countP_eq_length_filter, pendingRows, (List.perm_insertionSort ..).countP_eq,
    List.countP_filter]
  simpa [and_comm] using hlimit

theorem pendingEventIds_ne_nil {rows : List OutboxEvent} (hmem : row ∈ rows)
    (hsel : Selectable maxAttempts row) (hlimit : 0 < limit) : pendingEventIds maxAttempts limit rows ≠ [] := by
  have hpending := List.ne_nil_of_mem (mem_pendingRows.mpr ⟨hmem, hsel⟩)
  rw [pendingEventIds_eq, ne_eq, List.map_eq_nil_iff, List.take_eq_nil_iff, not_or]
  exact ⟨hlimit.ne', hpending⟩

theorem selectable_of_mem_pendingEventIds (h : eventId ∈ pendingEventIds maxAttempts limit rows) :
    ∃ row ∈ rows, row.id = eventId ∧ Selectable maxAttempts row := by
  rw [pendingEventIds_eq] at h
  obtain ⟨row, hmem, rfl⟩ := List.mem_map.mp h
  obtain ⟨hmem, hsel⟩ := mem_pendingRows.mp (List.mem_of_mem_take hmem)
  exact ⟨row, hmem, rfl, hsel⟩

theorem find?_eq_of_mem (hk : Rows.Keyed OutboxEvent.id rows) (hmem : event ∈ rows)
    {p : OutboxEvent → Bool} (hp : p event = true) (hid : ∀ row, p row = true → row.id = event.id) :
    rows.find? p = some event := by
  cases hf : rows.find? p with
  | none => exact absurd hp (List.find?_eq_none.mp hf event hmem)
  | some row =>
    rw [hk.eq_of_mem (List.mem_of_find?_eq_some hf) hmem (hid row (List.find?_some hf))]

end OutboxFanout.Relay
