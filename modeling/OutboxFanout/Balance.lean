import OutboxFanout.Fulfilment

/-!
# The books balance

At every moment of a run in which no table is emptied, what Billing has stored
and what it still owes make up the orders, and so with Shipping. What a service
owes is on its way: the row is to be published, or a message of it is queued.
-/

namespace OutboxFanout.System

variable {config : Notifications.Config} {s : State} {ledger : Ledger}

def unbilled (s : State) : List Order :=
  s.outbox.orders.filter fun order => ¬Billing.projection.Holds s.billing.store order.id

def unshipped (s : State) : List Order :=
  s.outbox.orders.filter fun order => ¬Shipping.projection.Holds s.shipping.store order.id

section
variable {ν δ ρ : Type} {p : Projection ν δ ρ} {site : Site (Table ρ) (Insert ν ρ)}

/-- The table holds the orders the service has taken. -/
theorem Matches.holds_iff {entry : ρ → γ} {ticket : Order → γ} (hm : Matches s ledger)
    (hrows : site.store.rows.map entry = (ledger.taken k).map ticket)
    (hentry : ∀ record order, entry record = ticket order → p.rowOrderId record = order.id)
    (horder : order ∈ s.outbox.orders) : p.Holds site.store order.id ↔ order ∈ ledger.taken k := by
  constructor
  · rintro ⟨record, hmem, hid⟩
    obtain ⟨taken, htaken, heq⟩ := List.mem_map.mp (hrows ▸ List.mem_map_of_mem (f := entry) hmem)
    have hplaced := ledger.announced_placed taken (ledger.taken_announced k taken htaken)
    have hsame : taken.id = order.id := (hentry record taken heq.symm).symm.trans hid
    exact ledger.keyed.eq_of_mem hplaced (hm.orders ▸ horder) hsame ▸ htaken
  · intro htaken
    obtain ⟨record, hmem, heq⟩ := List.mem_map.mp (hrows ▸ List.mem_map_of_mem (f := ticket) htaken)
    exact ⟨record, hmem, hentry record order heq⟩

theorem Matches.balance {entry : ρ → γ} {ticket : Order → γ} (hm : Matches s ledger)
    (hrows : site.store.rows.map entry = (ledger.taken k).map ticket)
    (hentry : ∀ record order, entry record = ticket order → p.rowOrderId record = order.id)
    (hk : k.Once) : (site.store.rows.map entry ++ (s.outbox.orders.filter fun order =>
      ¬p.Holds site.store order.id).map ticket).Perm (s.outbox.orders.map ticket) := by
  have hfilter : (s.outbox.orders.filter fun order => ¬p.Holds site.store order.id) =
      ledger.outstanding k := by
    rw [Fanout.outstanding, ← hm.orders]
    refine List.filter_congr fun order horder => ?_
    simp [hm.holds_iff hrows hentry horder]
  rw [hfilter, hrows, ← List.map_append, hm.orders]
  exact (ledger.balance hk).map ticket

/-- What a service owes is on its way to it. -/
theorem owed_onTheWay (h : Follows p s.outbox site) (hsnapshot : s.outbox.Snapshot)
    (horder : order ∈ s.outbox.orders) (howed : ¬p.Holds site.store order.id) :
    ∃ row ∈ s.outbox.outbox, row.orderId = order.id ∧
      (row.published = false ∨ ∃ x ∈ site.queue.contents, Carries x.2 row) := by
  obtain ⟨row, hrow, hid⟩ := hsnapshot.exists_row horder
  refine ⟨row, hrow, hid, ?_⟩
  rcases h.onTheWay hsnapshot hrow with hunpub | hqueued | hholds
  · exact .inl hunpub
  · exact .inr hqueued
  · exact absurd (hid ▸ hholds) howed

end

/-- Billed and unbilled make up the orders, shipped and unshipped, too; and the
unbilled and unshipped are on their way. -/
theorem balance_of_reaches (h : (machine config).Reaches Lasting (.empty limit) s) :
    (s.billing.store.rows.map (fun record => (record.orderId, record.customerId, record.amount)) ++
      (unbilled s).map bill).Perm (s.outbox.orders.map bill) ∧
    (s.shipping.store.rows.map (fun record => (record.orderId, record.customerId, record.item)) ++
      (unshipped s).map parcel).Perm (s.outbox.orders.map parcel) ∧
    (∀ order ∈ unbilled s, ∃ row ∈ s.outbox.outbox, row.orderId = order.id ∧
      (row.published = false ∨ ∃ x ∈ s.billing.queue.contents, Carries x.2 row)) ∧
    ∀ order ∈ unshipped s, ∃ row ∈ s.outbox.outbox, row.orderId = order.id ∧
      (row.published = false ∨ ∃ x ∈ s.shipping.queue.contents, Carries x.2 row) := by
  have hsound := sound_of_reaches h
  obtain ⟨steps, hpath, -⟩ := h.exists_path
  obtain ⟨ledger, -, -, hm⟩ := (simulation config).path hpath (t := .empty)
    ⟨.empty, rfl, rfl, rfl, rfl, rfl⟩
  refine ⟨?_, ?_, fun order hmem => ?_, fun order hmem => ?_⟩
  · exact hm.balance (p := Billing.projection) hm.billing (fun _ _ heq => congrArg Prod.fst heq) trivial
  · exact hm.balance (p := Shipping.projection) hm.shipping (fun _ _ heq => congrArg Prod.fst heq) trivial
  · obtain ⟨horder, howed⟩ := List.mem_filter.mp hmem
    exact owed_onTheWay hsound.billing hsound.snapshot horder (of_decide_eq_true howed)
  · obtain ⟨horder, howed⟩ := List.mem_filter.mp hmem
    exact owed_onTheWay hsound.shipping hsound.snapshot horder (of_decide_eq_true howed)

/-- One order is billed: nothing is unbilled, and its parcel is owed. -/
theorem balance_keyboard : ∃ s : State, (∃ record ∈ s.billing.store.rows, record.orderId = ⟨1⟩) ∧
    (s.billing.store.rows.map (fun record => (record.orderId, record.customerId, record.amount)) ++
      (unbilled s).map bill).Perm (s.outbox.orders.map bill) := by
  obtain ⟨s, hreach, hbilled⟩ := reaches_billed ⟨60, false⟩
  exact ⟨s, hbilled, (balance_of_reaches hreach).1⟩

end OutboxFanout.System
