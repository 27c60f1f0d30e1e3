import OutboxFanout.Lib.Top
import OutboxFanout.Order.Routes
import OutboxFanout.Relay.Consistency

/-!
# The reads of the order service

`get_order` and `list_outbox` of `order/routes.py`: one SELECT each, which sees
what is committed. The `numeric(12, 2)` column answers with two decimals however
the amount was spelled, so the body of a GET may differ from that of the POST.
-/

namespace OutboxFanout.Ingress

open Outbox (OneUnit Accepted)

-- ---------------------------------------------------------------------------
-- The source functions
-- ---------------------------------------------------------------------------

def getOrder (tables : Outbox.State) (orderId : UUID) : Except Response Order :=
  match tables.orders.find? (·.id = orderId) with
  | none => .error (.httpException 404 "No such order")
  | some order => .ok order.loaded

structure OutboxEventResponse where
  id : UUID
  orderId : UUID
  eventType : String
  payload : Json
  published : Bool
  createdAt : Datetime
  publishedAt : Option Datetime

def OutboxEventResponse.ofRow (row : OutboxEvent) : OutboxEventResponse where
  id := row.id
  orderId := row.orderId
  eventType := row.eventType
  payload := row.payload
  published := row.published
  createdAt := row.createdAt
  publishedAt := row.publishedAt

/-- The rows of `list_outbox`, newest first; `scan` is the table as the database
meets it. -/
def listedRows (unpublishedOnly : Bool) (limit : Nat) (scan : List OutboxEvent) : List OutboxEvent :=
  ((scan.filter fun row => !unpublishedOnly || row.published = false).insertionSort
    fun a b => b.createdAt ≤ a.createdAt).take limit

/-- LIMIT takes a bigint that is not negative. -/
def listOutbox (unpublishedOnly : Bool) (limit : Int) (scan : List OutboxEvent) :
    Except Exc (List OutboxEventResponse) :=
  if limit < 0 then .error (.plain "DataError" "LIMIT must not be negative")
  else if 2 ^ 63 ≤ limit then .error (.plain "DataError" "bigint out of range")
  else .ok ((listedRows unpublishedOnly limit.toNat scan).map .ofRow)

-- ---------------------------------------------------------------------------
-- get_order
-- ---------------------------------------------------------------------------

variable {s s' : State} {scan : List OutboxEvent} {unpublishedOnly : Bool}

/-- `get_order` answers with what was committed under the id. -/
theorem getOrder_iff (h : machine.Reaches C .empty s) :
    getOrder s.db key = .ok found ↔ ∃ w ∈ s.writes, w.order.id = key ∧ found = w.order.loaded := by
  have hreach := h.mono (D := Machine.anyStep) fun _ _ _ => trivial
  have horders := (written_of_reaches hreach).orders
  have hkeyed := (Outbox.oneUnit_of_reaches (reaches_db hreach)).keyedOrders
  constructor
  · intro hget
    unfold getOrder at hget
    split at hget
    next => cases hget
    next order hfind =>
      cases hget
      have hmem := List.mem_of_find?_eq_some hfind
      rw [horders] at hmem
      obtain ⟨w, hw, rfl⟩ := List.mem_map.mp hmem
      exact ⟨w, hw, by simpa using List.find?_some hfind, rfl⟩
  · rintro ⟨w, hw, rfl, rfl⟩
    have hmem : w.order ∈ s.db.orders := horders ▸ List.mem_map_of_mem hw
    unfold getOrder
    cases hfind : s.db.orders.find? (·.id = w.order.id) with
    | none => exact absurd (List.find?_eq_none.mp hfind w.order hmem) (by simp)
    | some order =>
      have hid : order.id = w.order.id := by simpa using List.find?_some hfind
      rw [hkeyed.eq_of_mem (List.mem_of_find?_eq_some hfind) hmem hid]

theorem writes_of_reaches (h : machine.Reaches C s s') : s.writes ⊆ s'.writes := by
  refine h.invariant (I := fun t => s.writes ⊆ t.writes) (fun _ hw => hw) fun t action u hsub _ hs => ?_
  rcases writes_cases (step_cases hs) with ⟨hw, -⟩ | ⟨w, hw, -⟩
  · rwa [hw]
  · rw [hw]
    exact fun _ hmem => List.mem_append_left _ (hsub hmem)

/-- A 201 is for a committed order, whatever happened to other requests. -/
theorem written_of_created (h : machine.Reaches C .empty s)
    (hcreated : s.ended q = some (.answered (.created order))) : ∃ row, ⟨q, order, row⟩ ∈ s.writes := by
  refine h.invariant (I := fun t => ∀ q order, t.ended q = some (.answered (.created order)) →
    ∃ row, ⟨q, order, row⟩ ∈ t.writes) nofun ?_ q order hcreated
  intro t action u hi _ hs q order hended
  cases step_cases hs with
  | moves => exact hi q order hended
  | fails _ _ _ _ hout =>
    rcases finish_ended hended with ⟨-, heq⟩ | ⟨-, hold⟩
    · exact absurd heq (not_created hout)
    · exact hi q order hold
  | commits _ _ _ hout =>
    rcases finish_ended hended with ⟨rfl, rfl⟩ | ⟨-, hold⟩
    · rcases hout with ⟨heq | heq, -⟩ | ⟨error, -, heq⟩
      · cases heq
        exact ⟨_, List.mem_append_right _ (List.mem_singleton_self _)⟩
      · cases heq
      · exact absurd rfl (not_created (.inr ⟨error, heq⟩))
    · obtain ⟨row, hmem⟩ := hi q order hold
      exact ⟨row, List.mem_append_left _ hmem⟩

theorem fits_of_ok (h : Outbox.RequestPc.Ok (.flushed order row)) : order.Fits := by
  cases h with
  | flushed => exact createOrder_fits

theorem fits_of_reaches (h : machine.Reaches C .empty s) : ∀ w ∈ s.writes, w.order.Fits := by
  have hboth : Outbox.machine.Reaches Machine.anyStep .empty s.db ∧ ∀ w ∈ s.writes, w.order.Fits := by
    refine h.invariant (I := fun t => Outbox.machine.Reaches Machine.anyStep .empty t.db ∧
      ∀ w ∈ t.writes, w.order.Fits) ⟨.refl, nofun⟩ ?_
    rintro t action u ⟨hdb, hi⟩ - hs
    obtain ⟨a, ha⟩ := (step_cases hs).db
    refine ⟨.next a hdb trivial ha, ?_⟩
    cases step_cases hs with
    | moves | fails => exact hi
    | @commits q _ _ _ _ _ _ hq =>
      intro w hw
      rcases List.mem_append.mp hw with hw | hw
      · exact hi w hw
      · obtain rfl := List.mem_singleton.mp hw
        exact fits_of_ok (hq ▸ (Outbox.oneUnit_of_reaches hdb).requests q)
  exact hboth.2

/-- What the client was told with a 201 it can read ever after, the amount with
two decimals; what it has read does not change, and what was committed, whatever
it was told, is what it can read. -/
theorem getOrder_of_reaches (h : machine.Reaches C .empty s) (h' : machine.Reaches C s s') :
    (∀ q order, s.ended q = some (.answered (.created order)) →
      getOrder s'.db order.id = .ok order.loaded ∧ order.loaded.amount.value = order.amount.value) ∧
    (∀ key order, getOrder s.db key = .ok order → getOrder s'.db key = .ok order) ∧
    ∀ key order, getOrder s'.db key = .ok order ↔
      ∃ w ∈ s'.writes, w.order.id = key ∧ order = w.order.loaded := by
  have hafter : machine.Reaches C .empty s' := h.trans h'
  refine ⟨fun q order hcreated => ?_, fun key order hget => ?_, fun key order => getOrder_iff hafter⟩
  · obtain ⟨row, hw⟩ := written_of_created h hcreated
    exact ⟨(getOrder_iff hafter).mpr ⟨_, writes_of_reaches h' hw, rfl, rfl⟩,
      (fits_of_reaches h _ hw).loaded_value⟩
  · obtain ⟨w, hw, hid, hfound⟩ := (getOrder_iff h).mp hget
    exact (getOrder_iff hafter).mpr ⟨w, writes_of_reaches h' hw, hid, hfound⟩

theorem spelled_places : ∃ cents : Nat, cents < 10 ^ 12 ∧ ((5 : Nat) : Rat) * 10 ^ (2 : Int) * 100 = cents :=
  ⟨50000, by norm_num, by norm_num⟩

/-- An order with the amount 5E+2. -/
def spelledOrder : OrderCreate :=
  { keyboardOrder with
    amount := ⟨false, 5, 2⟩
    amount_positive := ⟨rfl, Nat.succ_pos 4⟩
    amount_places := spelled_places }

/-- It is read while another one is under way. -/
theorem getOrder_spelled : ∃ (s : State) (found : Order), getOrder s.db ⟨1⟩ = .ok found ∧
    found.amount = ⟨false, 50000, -2⟩ ∧ found.amount.value = Decimal.value ⟨false, 5, 2⟩ := by
  obtain ⟨s, s', hs, hcreated, hs', -⟩ := machine.exists_reaches_via (C := Machine.anyStep) (s := .empty)
    [.post 0 false ⟨1⟩ placedAt spelledOrder, .flush 0 ⟨2⟩ placedAt, .commit 0 .done]
    [.post 1 false ⟨3⟩ placedAt keyboardOrder, .flush 1 ⟨4⟩ placedAt]
    (fun s => (s.ended 0).any (fun
      | .answered (.created order) => order.id = ⟨1⟩ ∧ order.amount = ⟨false, 5, 2⟩
      | _ => False) = true) (fun _ => True) (by decide)
  obtain ⟨outcome, hended, houtcome⟩ := (Option.any_eq_true ..).mp hcreated
  split at houtcome
  next order =>
    obtain ⟨hid, hamount⟩ := of_decide_eq_true houtcome
    obtain ⟨hget, hvalue⟩ := (getOrder_of_reaches hs hs').1 0 order hended
    have hloaded : order.loaded.amount = ⟨false, 50000, -2⟩ :=
      (congrArg (Decimal.toScale 2) hamount).trans (by decide)
    exact ⟨s', order.loaded, hid ▸ hget, hloaded, hamount ▸ hvalue⟩
  next => cases of_decide_eq_true houtcome

-- ---------------------------------------------------------------------------
-- list_outbox
-- ---------------------------------------------------------------------------

theorem accepted_of_reaches (h : Outbox.machine.Reaches C .empty t) : Accepted t := by
  have hboth : OneUnit t ∧ Accepted t := by
    refine h.invariant (I := fun t => OneUnit t ∧ Accepted t) ⟨.empty,
      nofun, by simp [Outbox.State.empty, Outbox.State.holding]⟩ ?_
    rintro t action u ⟨hunit, hacc⟩ - hs
    have hs := Outbox.step_cases hs
    exact ⟨hunit.step hs, hacc.step hunit.toInv hunit.requests hs⟩
  exact hboth.2

instance : Std.Total fun a b : OutboxEvent => b.createdAt ≤ a.createdAt :=
  ⟨fun a b => Nat.le_total b.createdAt.key a.createdAt.key⟩

instance : IsTrans OutboxEvent fun a b => b.createdAt ≤ a.createdAt :=
  ⟨fun _ _ _ hab hbc => Nat.le_trans hbc hab⟩

theorem top_listedRows (unpublishedOnly : Bool) (limit : Nat) (scan : List OutboxEvent) :
    Rows.Top (fun a b : OutboxEvent => b.createdAt ≤ a.createdAt) limit
      (scan.filter fun row => !unpublishedOnly || row.published = false)
      (listedRows unpublishedOnly limit scan) :=
  Rows.top_take_insertionSort

/-- Every committed order has one outbox row, and every row is that of one. -/
theorem orderIds_nodup (h : machine.Reaches Machine.anyStep .empty s) :
    (s.db.outbox.map (·.orderId)).Nodup := by
  have hwritten := written_of_reaches h
  have hkeyed := (Outbox.oneUnit_of_reaches (reaches_db h)).keyedOrders
  have hrows := congrArg (List.map fun facts => facts.2.1) hwritten.outbox
  simp only [List.map_map] at hrows
  have hids : s.db.outbox.map (·.orderId) = s.writes.map (·.order.id) :=
    hrows.trans (List.map_congr_left fun w hw => (hwritten.unit w hw).1)
  rw [hids]
  rw [Rows.Keyed, hwritten.orders, List.map_map] at hkeyed
  exact hkeyed

theorem listOutbox_ok : listOutbox unpublishedOnly limit scan = .ok listed ↔
    0 ≤ limit ∧ limit < 2 ^ 63 ∧ (listedRows unpublishedOnly limit.toNat scan).map .ofRow = listed := by
  unfold listOutbox
  split
  next hneg => simpa using fun hpos => absurd hneg (Int.not_lt.mpr hpos)
  next hpos =>
    split
    next hbig => simpa using fun _ hsmall => absurd hbig (Int.not_le.mpr hsmall)
    next hsmall =>
      have hin : 0 ≤ limit ∧ limit < 2 ^ 63 := ⟨Int.not_lt.mp hpos, Int.not_le.mp hsmall⟩
      rw [Except.ok.injEq, ← and_assoc, and_iff_right hin]

/-- What a listing says about the orders. One that is not in it comes after all
that are, the limit being reached; or, where only what is unpublished was asked
for, SNS has accepted its event. -/
structure Listing (s : State) (unpublishedOnly : Bool) (limit : Int)
    (listed : List OutboxEventResponse) : Prop where
  newest : listed.Pairwise fun a b => b.createdAt ≤ a.createdAt
  once : (listed.map (·.orderId)).Nodup
  committed : ∀ event ∈ listed, ∃ w ∈ s.writes,
    event.orderId = w.order.id ∧ event.payload = buildPayload w.order
  complete : ∀ w ∈ s.writes, (∃ event ∈ listed, event.orderId = w.order.id) ∨
    (listed.length = limit ∧ ∀ event ∈ listed, w.row.createdAt ≤ event.createdAt) ∨
    unpublishedOnly = true ∧ ∃ old, .accepted old ∈ s.db.history ∧ old.orderId = w.order.id

/-- The row of a write, as it is now. -/
theorem exists_row (h : machine.Reaches Machine.anyStep .empty s) (hw : w ∈ s.writes) :
    ∃ row ∈ s.db.outbox, row.orderId = w.order.id ∧ row.createdAt = w.row.createdAt := by
  have hwritten := written_of_reaches h
  have hfacts : w.row.facts ∈ s.db.outbox.map OutboxEvent.facts :=
    hwritten.outbox ▸ List.mem_map.mpr ⟨w, hw, rfl⟩
  obtain ⟨row, hmem, heq⟩ := List.mem_map.mp hfacts
  have horder : row.orderId = w.row.orderId := congrArg (·.2.1) heq
  exact ⟨row, hmem, horder.trans (hwritten.unit w hw).1, congrArg (·.2.2.2.2) heq⟩

theorem exists_write (h : machine.Reaches Machine.anyStep .empty s) (hmem : row ∈ s.db.outbox) :
    ∃ w ∈ s.writes, row.orderId = w.order.id ∧ row.payload = buildPayload w.order := by
  have hwritten := written_of_reaches h
  have hfacts : row.facts ∈ s.writes.map (·.row.facts) := hwritten.outbox ▸ List.mem_map_of_mem hmem
  obtain ⟨w, hw, heq⟩ := List.mem_map.mp hfacts
  obtain ⟨horder, hpayload⟩ := hwritten.unit w hw
  have horder' : w.row.orderId = row.orderId := congrArg (·.2.1) heq
  have hpayload' : w.row.payload = row.payload := congrArg (·.2.2.2.1) heq
  exact ⟨w, hw, horder'.symm.trans horder, hpayload'.symm.trans hpayload⟩

theorem listing_of_top (h : machine.Reaches Machine.anyStep .empty s) (hscan : scan.Perm s.db.outbox)
    {limit : Nat} {rows : List OutboxEvent}
    (htop : Rows.Top (fun a b : OutboxEvent => b.createdAt ≤ a.createdAt) limit
      (scan.filter fun row => !unpublishedOnly || row.published = false) rows) :
    Listing s unpublishedOnly limit (rows.map .ofRow) := by
  have htable : ∀ row ∈ rows, row ∈ s.db.outbox := fun row hrow =>
    hscan.subset (List.mem_of_mem_filter (htop.subset hrow))
  refine ⟨List.pairwise_map.mpr htop.sorted, ?_, fun event hevent => ?_, fun w hw => ?_⟩
  · rw [List.map_map]
    refine htop.nodup (List.Nodup.sublist (List.filter_sublist.map _) ?_)
    exact (hscan.map _).nodup_iff.mpr (orderIds_nodup h)
  · obtain ⟨row, hrow, rfl⟩ := List.mem_map.mp hevent
    exact exists_write h (htable row hrow)
  · obtain ⟨row, hmem, horder, htime⟩ := exists_row h hw
    by_cases hasked : unpublishedOnly = true ∧ row.published = true
    · obtain ⟨old, hold, hfacts⟩ := (accepted_of_reaches (reaches_db h)).published row hmem hasked.2
      have hid : old.orderId = row.orderId := congrArg (·.2.1) hfacts
      exact .inr (.inr ⟨hasked.1, old, hold, hid.trans horder⟩)
    · have hrow : row ∈ scan.filter fun row => !unpublishedOnly || row.published = false := by
        refine List.mem_filter.mpr ⟨hscan.mem_iff.mpr hmem, ?_⟩
        cases unpublishedOnly <;> simp_all
      rcases htop.mem_or hrow with hin | ⟨hfull, hlater⟩
      · exact .inl ⟨_, List.mem_map_of_mem hin, horder⟩
      · refine .inr (.inl ⟨by rw [List.length_map, hfull], fun event hevent => ?_⟩)
        obtain ⟨other, hother, rfl⟩ := List.mem_map.mp hevent
        exact htime ▸ hlater other hother

/-- Whatever the limit, and however the database scans the table. -/
theorem listOutbox_of_reaches (h : machine.Reaches Machine.anyStep .empty s)
    (hscan : scan.Perm s.db.outbox) (hlist : listOutbox unpublishedOnly limit scan = .ok listed) :
    Listing s unpublishedOnly limit listed ∧ ∀ scan', scan'.Perm s.db.outbox →
      ∃ listed', listOutbox unpublishedOnly limit scan' = .ok listed' ∧
        listed'.map (·.createdAt.key) = listed.map (·.createdAt.key) := by
  obtain ⟨hpos, hsmall, rfl⟩ := listOutbox_ok.mp hlist
  have hlisting := listing_of_top h hscan (top_listedRows unpublishedOnly limit.toNat scan)
  rw [Int.toNat_of_nonneg hpos] at hlisting
  refine ⟨hlisting, fun scan' hscan' => ⟨_, listOutbox_ok.mpr ⟨hpos, hsmall, rfl⟩, ?_⟩⟩
  rw [List.map_map, List.map_map]
  exact (top_listedRows ..).keys_eq (· ≥ ·) (top_listedRows ..) (fun _ _ hle => hle)
    ((hscan'.trans hscan.symm).filter _)

/-- Of two orders the first is published, the second is on the unpublished listing. -/
theorem listOutbox_published : ∃ (s : State) (listed : List OutboxEventResponse),
    s.db.outbox.length = 2 ∧ listed.map (·.orderId) = [⟨3⟩] ∧ Listing s true 50 listed := by
  obtain ⟨s, hs, htwo, hlisted⟩ := machine.exists_reaches (C := Machine.anyStep) (s := .empty)
    [.post 0 false ⟨1⟩ placedAt keyboardOrder, .flush 0 ⟨2⟩ placedAt, .commit 0 .done,
      .relay 0 (.start ⟨10, 5, false⟩), .relay 0 (.poll [⟨2⟩]), .relay 0 .select,
      .relay 0 (.publish .accepted), .relay 0 (.commit .done placedAt),
      .post 1 false ⟨3⟩ placedAt keyboardOrder, .flush 1 ⟨4⟩ placedAt, .commit 1 .done]
    (fun s => s.db.outbox.length = 2 ∧
      (listOutbox true 50 s.db.outbox).toOption.map (·.map (·.orderId)) = some [⟨3⟩]) (by decide)
  obtain ⟨listed, hok, hids⟩ := Option.map_eq_some_iff.mp hlisted
  cases hlist : listOutbox true 50 s.db.outbox with
  | error exc => simp [hlist, Except.toOption] at hok
  | ok found =>
    obtain rfl : found = listed := by simpa [hlist, Except.toOption] using hok
    exact ⟨s, found, htwo, hids, (listOutbox_of_reaches hs (.refl _) hlist).1⟩

end OutboxFanout.Ingress
