import OutboxFanout.Billing.Service
import OutboxFanout.Lib.Firsts
import OutboxFanout.Notifications.Claims
import OutboxFanout.Relay.Publisher
import OutboxFanout.Shipping.Service

/-!
# What each consumer takes for new

Billing and Shipping know an order by the UUID they parse, Notifications by the
text it was given. On a sequence of events that all three accept, each takes
the first event of every key for new (`Dedups.feeds`), so they agree just when
a UUID is always spelled the same way (`dedup_agrees_iff`).
-/

namespace OutboxFanout

variable {σ η α ε κ : Type}

-- ---------------------------------------------------------------------------
-- Events handled one after another
-- ---------------------------------------------------------------------------

/-- The call returns, and leaves the store so. Meanwhile the store undergoes
what is `quiet`. -/
inductive Handler.Runs (handler : Handler σ η α ε) (quiet : σ → ε → Prop) : σ → η → σ → Prop
  | returned {store store' : σ} {call : η} {answer : α}
      (h : handler.step store call answer = some (store', .returned)) :
      Runs handler quiet store call store'
  | continues {store store' store'' : σ} {call call' : η} {answer : α}
      (h : handler.step store call answer = some (store', .continues call'))
      (hrest : Runs handler quiet store' call' store'') : Runs handler quiet store call store''
  | waits {store store' store'' : σ} {call : η} {event : ε} (hquiet : quiet store event)
      (h : handler.env store event = some store')
      (hrest : Runs handler quiet store' call store'') : Runs handler quiet store call store''

/-- The handler returns on each of the events; `fresh` tells the ones that
raised the count. -/
inductive Handler.Feeds (handler : Handler σ η α ε) (quiet : σ → ε → Prop) (count : σ → Nat) :
    σ → List Json → List Bool → σ → Prop
  | nil {store : σ} : Feeds handler quiet count store [] [] store
  | cons {store store' store'' : σ} {event : Json} {events : List Json} {call : η} {fresh : List Bool}
      (hstart : handler.start event = .ok call) (hrun : handler.Runs quiet store call store')
      (hrest : Feeds handler quiet count store' events fresh store'') :
      Feeds handler quiet count store (event :: events)
        (decide (count store < count store') :: fresh) store''

/-- The handler counts an event unless it knows its key, and knows it then. -/
structure Handler.Dedups (handler : Handler σ η α ε) (quiet : σ → ε → Prop) (count : σ → Nat)
    (key : Json → κ) (Knows : σ → κ → Prop) : Prop where
  known : ∀ {store store' event call}, handler.start event = .ok call →
    handler.Runs quiet store call store' → Knows store (key event) → count store' = count store
  fresh : ∀ {store store' event call}, handler.start event = .ok call →
    handler.Runs quiet store call store' → ¬Knows store (key event) →
    count store' = count store + 1
  learns : ∀ {store store' event call}, handler.start event = .ok call →
    handler.Runs quiet store call store' → ∀ k, Knows store' k ↔ k = key event ∨ Knows store k

section
variable {handler : Handler σ η α ε} {quiet : σ → ε → Prop} {count : σ → Nat} {key : Json → κ}
  {Knows : σ → κ → Prop} {store store' : σ} {before events : List Json} {fresh : List Bool}

/-- New is what comes first of its key. -/
theorem Handler.Dedups.feeds [DecidableEq κ] (h : handler.Dedups quiet count key Knows)
    (hknows : ∀ k, Knows store k ↔ k ∈ before.map key)
    (hfeeds : handler.Feeds quiet count store events fresh store') :
    fresh = Firsts.firsts key before events ∧ count store' = count store + fresh.count true := by
  induction hfeeds generalizing before with
  | nil => exact ⟨rfl, rfl⟩
  | @cons store store' store'' event events call fresh hstart hrun hrest ih =>
    have hlearns : ∀ k, Knows store' k ↔ k ∈ (event :: before).map key := by
      intro k
      rw [h.learns hstart hrun, hknows, List.map_cons, List.mem_cons]
    obtain ⟨hfresh, hcount⟩ := ih hlearns
    by_cases hknown : Knows store (key event)
    · have hsame := h.known hstart hrun hknown
      have hmem := (hknows _).mp hknown
      exact ⟨by simp [Firsts.firsts, hmem, hsame, hfresh], by simp [hcount, hsame]⟩
    · have hmore := h.fresh hstart hrun hknown
      have hmem := mt (hknows _).mpr hknown
      refine ⟨by simp [Firsts.firsts, hmem, hmore, hfresh], ?_⟩
      simp [hcount, hmore, Nat.add_assoc, Nat.add_comm 1]

theorem Handler.Feeds.started (h : handler.Feeds quiet count store events fresh store') :
    ∀ event ∈ events, ∃ call, handler.start event = .ok call := by
  induction h with
  | nil => exact nofun
  | cons hstart _ _ ih => exact List.forall_mem_cons.mpr ⟨⟨_, hstart⟩, ih⟩

/-- Events are handled when each one is, whatever the store. -/
theorem Handler.feeds_exists (idle : σ → Prop)
    (h : ∀ event ∈ events, ∃ call, handler.start event = .ok call ∧
      ∀ store, idle store → ∃ store', handler.Runs quiet store call store' ∧ idle store')
    (hidle : idle store) : ∃ fresh store', handler.Feeds quiet count store events fresh store' := by
  induction events generalizing store with
  | nil => exact ⟨[], store, .nil⟩
  | cons event events ih =>
    obtain ⟨call, hstart, hruns⟩ := h event List.mem_cons_self
    obtain ⟨store', hrun, hidle'⟩ := hruns store hidle
    obtain ⟨fresh, store'', hrest⟩ := ih (fun _ hmem => h _ (List.mem_cons_of_mem _ hmem)) hidle'
    exact ⟨_, store'', .cons hstart hrun hrest⟩

end

-- ---------------------------------------------------------------------------
-- Billing and Shipping
-- ---------------------------------------------------------------------------

/-- The order as Billing and Shipping know it. -/
def orderKey (event : Json) : Option UUID := (readOrderId event).toOption

def Table.count (table : Table ρ) : Nat := table.rows.length

namespace Projection

variable {ν δ ρ : Type} {p : Projection ν δ ρ} {table table' : Table ρ}

/-- Nobody empties the table. -/
def Quiet (_ : Table ρ) (_ : TableEvent) : Prop := False

def Knows (p : Projection ν δ ρ) (table : Table ρ) (key : Option UUID) : Prop :=
  key ∈ table.rows.map (some ∘ p.rowOrderId)

theorem knows_some {order : UUID} : p.Knows table (some order) ↔ p.Holds table order := by
  simp [Knows, Holds]

theorem empty_knows (key : Option UUID) : p.Knows .empty key ↔ key ∈ ([] : List Json).map orderKey :=
  Iff.rfl

/-- What is left by a call that returns. -/
def Leaves (p : Projection ν δ ρ) (table : Table ρ) : Insert ν ρ → Table ρ → Prop
  | .ready values, table' =>
    p.Holds table (p.orderId values) ∧ table' = table ∨
      ¬p.Holds table (p.orderId values) ∧
        ∃ draws, table' = { table with rows := table.rows ++ [p.row values draws] }
  | .inserted row, table' => table' = p.commit table row
  | .conflict _, table' => table' = table

theorem runs_leaves {call : Insert ν ρ} (h : p.handler.Runs Quiet table call table') :
    p.Leaves table call table' := by
  induction h with
  | returned h =>
    cases step_cases h with
    | committed => rfl
    | ignored => rfl
  | continues h hrest ih =>
    cases step_cases h with
    | conflict hholds => exact .inl ⟨hholds, ih⟩
    | @inserted values draws hfree hpending =>
      refine .inr ⟨hfree, draws, ih.trans ?_⟩
      simp [commit, release, p.rowOrderId_row]
    | committed hout => rcases hout with ⟨-, h⟩ | ⟨_, -, h⟩ <;> cases h
  | waits hquiet => exact hquiet.elim

theorem start_ok {call : Insert ν ρ} (h : p.handler.start event = .ok call) :
    ∃ values, p.read event = .ok values ∧ call = .ready values ∧
      orderKey event = some (p.orderId values) := by
  cases hread : p.read event with
  | error exc => simp [handler, hread, Except.map] at h
  | ok values =>
    simp only [handler, hread, Except.map] at h
    cases h
    exact ⟨values, rfl, rfl, by simp [orderKey, p.read_orderId hread, Except.toOption]⟩

theorem dedups : p.handler.Dedups Quiet Table.count orderKey p.Knows where
  known := by
    intro table table' event call hstart hrun hknown
    obtain ⟨values, -, rfl, hkey⟩ := start_ok hstart
    rw [hkey, knows_some] at hknown
    rcases runs_leaves hrun with ⟨-, rfl⟩ | ⟨hfree, -⟩
    · rfl
    · exact absurd hknown hfree
  fresh := by
    intro table table' event call hstart hrun hfresh
    obtain ⟨values, -, rfl, hkey⟩ := start_ok hstart
    rw [hkey, knows_some] at hfresh
    rcases runs_leaves hrun with ⟨hholds, -⟩ | ⟨-, draws, rfl⟩
    · exact absurd hholds hfresh
    · exact List.length_append
  learns := by
    intro table table' event call hstart hrun key
    obtain ⟨values, -, rfl, hkey⟩ := start_ok hstart
    rw [hkey]
    rcases runs_leaves hrun with ⟨hholds, heq⟩ | ⟨-, draws, rfl⟩
    · have hknown : p.Knows table (some (p.orderId values)) := knows_some.mpr hholds
      rw [heq]
      exact ⟨.inr, fun h => h.elim (fun heq => heq ▸ hknown) id⟩
    · simp only [Knows, List.map_append, List.mem_append, List.map_singleton, List.mem_singleton,
        Function.comp_apply, p.rowOrderId_row]
      exact or_comm

theorem runs_exists {values : ν} (draws : δ) (hidle : table.pending = []) :
    ∃ table', p.handler.Runs Quiet table (.ready values) table' ∧ table'.pending = [] := by
  by_cases hholds : p.Holds table (p.orderId values)
  · have hconflict : p.handler.step table (.ready values) (.execute draws) =
        some (table, .continues (.conflict (p.orderId values))) := by simp [handler, step, hholds]
    have hcommit : p.handler.step table (.conflict (p.orderId values)) (.commit .done) =
        some (table, .returned) := rfl
    exact ⟨table, .continues hconflict (.returned hcommit), hidle⟩
  · have hinsert : p.handler.step table (.ready values) (.execute draws) =
        some ({ table with pending := [p.orderId values] },
          .continues (.inserted (p.row values draws))) := by simp [handler, step, hholds, hidle]
    have hcommit : ∀ table row, p.handler.step table (.inserted row) (.commit .done) =
        some (p.commit table row, .returned) := fun _ _ => rfl
    refine ⟨_, .continues hinsert (.returned (hcommit _ _)), ?_⟩
    simp [commit, release, p.rowOrderId_row]

theorem feeds_exists {events : List Json} (draws : δ)
    (h : ∀ event ∈ events, ∃ values, p.read event = .ok values) :
    ∃ fresh table, p.handler.Feeds Quiet Table.count .empty events fresh table := by
  refine Handler.feeds_exists (fun table : Table ρ => table.pending = []) ?_ rfl
  intro event hmem
  obtain ⟨values, hread⟩ := h event hmem
  exact ⟨.ready values, by simp [handler, hread, Except.map], fun table hidle => runs_exists draws hidle⟩

end Projection

-- ---------------------------------------------------------------------------
-- Notifications
-- ---------------------------------------------------------------------------

/-- The order as Notifications knows it. -/
def textKey (event : Json) : Option String := (Notifications.keyOf event).toOption

namespace Notifications

variable {config : Config} {store store' : Store}

/-- No key expires. -/
def Store.Quiet (store : Store) (n : Nat) : Prop := (store.tick n).entries = store.entries

def Event.isSent : Event → Bool
  | .sent .. => true
  | _ => false

/-- The notifications sent. -/
def Store.sentCount (store : Store) : Nat := store.history.countP Event.isSent

def Store.Knows (store : Store) (key : Option String) : Prop :=
  key ∈ store.entries.map (some ∘ Entry.key)

theorem knows_some : store.Knows (some key) ↔ ∃ entry, store.find key = some entry := by
  rw [← Option.isSome_iff_exists]
  simp [Store.Knows, Store.find]

theorem empty_knows (key : Option String) :
    Store.empty.Knows key ↔ key ∈ ([] : List Json).map textKey := Iff.rfl

/-- The keys and the number of sends at the end of a call that returns. -/
def Leaves (store : Store) : Call → Store → Prop
  | .claiming key _ _, store' =>
    (∃ entry, store.find key = some entry) ∧ store'.entries = store.entries ∧
        store'.sentCount = store.sentCount ∨
      store.find key = none ∧
        store'.entries.map Entry.key = key :: store.entries.map Entry.key ∧
        store'.sentCount = store.sentCount + 1
  | .duplicate _, store' => store'.entries = store.entries ∧ store'.sentCount = store.sentCount
  | .claimed .., store' => store'.entries = store.entries ∧ store'.sentCount = store.sentCount + 1
  | .releasing .., _ => False

theorem sentCount_note (event : Event) :
    (store.note event).sentCount = store.sentCount + event.isSent.toNat := by
  cases h : event.isSent <;> simp [Store.sentCount, Store.note, h]

theorem Leaves.waits (h : Leaves store' call store'') (hentries : store'.entries = store.entries)
    (hsends : store'.sentCount = store.sentCount) : Leaves store call store'' := by
  have hfind : ∀ key, store'.find key = store.find key := fun key => by
    rw [Store.find, hentries, Store.find]
  cases call with
  | releasing => exact h
  | _ => simpa only [Leaves, hfind, hentries, hsends] using h

theorem runs_leaves (h : (handle config).Runs Store.Quiet store call store') :
    Leaves store call store' := by
  induction h with
  | returned h =>
    cases step_cases h with
    | duplicate _ hreply | claimed _ hreply => rcases hreply with ⟨-, h⟩ | ⟨_, -, h⟩ <;> cases h
    | got => exact ⟨rfl, rfl⟩
    | sent => exact ⟨rfl, sentCount_note _⟩
  | continues h hrest ih =>
    cases step_cases h with
    | duplicate hfind hreply =>
      rcases hreply with ⟨-, h⟩ | ⟨_, -, h⟩ <;> cases h
      obtain ⟨hentries, hsends⟩ := ih
      exact .inl ⟨⟨_, hfind⟩, hentries, hsends.trans (sentCount_note _)⟩
    | claimed hfind hreply =>
      rcases hreply with ⟨-, h⟩ | ⟨_, -, h⟩ <;> cases h
      obtain ⟨hentries, hsends⟩ := ih
      exact .inr ⟨hfind, by rw [hentries]; rfl, hsends.trans (congrArg (· + 1) (sentCount_note _))⟩
    | sendRaises => exact ih.elim
  | waits hquiet h hrest ih =>
    cases h
    exact ih.waits hquiet rfl

theorem start_ok (h : start event = .ok call) :
    ∃ key value payload, call = .claiming key value payload ∧ textKey event = some key := by
  simp only [start, Except.bind_eq_ok, Except.pure_eq_ok] at h
  obtain ⟨key, hkey, payload, -, _, -, value, -, rfl⟩ := h
  exact ⟨key, value, payload, rfl, by simp [textKey, hkey, Except.toOption]⟩

theorem dedups : (handle config).Dedups Store.Quiet Store.sentCount textKey Store.Knows where
  known := by
    intro store store' event call hstart hrun hknown
    obtain ⟨key, value, payload, rfl, hkey⟩ := start_ok hstart
    rw [hkey, knows_some] at hknown
    obtain ⟨entry, hfind⟩ := hknown
    rcases runs_leaves hrun with ⟨-, -, hsends⟩ | ⟨hfree, -⟩
    · exact hsends
    · exact absurd (hfree.symm.trans hfind) nofun
  fresh := by
    intro store store' event call hstart hrun hfresh
    obtain ⟨key, value, payload, rfl, hkey⟩ := start_ok hstart
    rw [hkey, knows_some] at hfresh
    rcases runs_leaves hrun with ⟨hfind, -⟩ | ⟨-, -, hsends⟩
    · exact absurd hfind hfresh
    · exact hsends
  learns := by
    intro store store' event call hstart hrun k
    obtain ⟨key, value, payload, rfl, hkey⟩ := start_ok hstart
    rw [hkey]
    rcases runs_leaves hrun with ⟨hfind, hentries, -⟩ | ⟨-, hentries, -⟩
    · have hknown : store.Knows (some key) := knows_some.mpr hfind
      rw [Store.Knows, hentries, ← Store.Knows]
      exact ⟨.inr, fun h => h.elim (fun heq => heq ▸ hknown) id⟩
    · simp only [Store.Knows, ← List.map_map, hentries, List.map_cons, List.mem_cons]

theorem runs_exists (hcrash : config.crashAfterMark = false) (hsend : sendable payload = .ok ()) :
    ∃ store', (handle config).Runs Store.Quiet store (.claiming key value payload) store' := by
  cases hfind : store.find key with
  | some entry =>
    have hset : (handle config).step store (.claiming key value payload) (.set .ok) =
        some (store.set config key value, .continues (.duplicate key)) := by
      simp [handle, step, hfind]
    have hget : ∀ store, (handle config).step store (.duplicate key) (.get .ok) =
        some (store, .returned) := fun _ => rfl
    exact ⟨_, .continues hset (.returned (hget _))⟩
  | none =>
    have hset : (handle config).step store (.claiming key value payload) (.set .ok) =
        some (store.set config key value, .continues (.claimed key store.claims payload)) := by
      simp [handle, step, hfind]
    have hsent : ∀ store claim, (handle config).step store (.claimed key claim payload)
        (.send (.ok ())) = some (store.note (.sent key claim store.now), .returned) := by
      simp [handle, step, hcrash, hsend]
    exact ⟨_, .continues hset (.returned (hsent _ _))⟩

theorem feeds_exists {events : List Json} (hcrash : config.crashAfterMark = false)
    (h : ∀ event ∈ events, ∃ key value payload,
      start event = .ok (.claiming key value payload) ∧ sendable payload = .ok ()) :
    ∃ fresh store, (handle config).Feeds Store.Quiet Store.sentCount .empty events fresh store := by
  refine Handler.feeds_exists (fun _ => True) ?_ trivial
  intro event hmem
  obtain ⟨key, value, payload, hstart, hsend⟩ := h event hmem
  refine ⟨_, hstart, fun store _ => ?_⟩
  have hruns : ∃ store', (handle config).Runs Store.Quiet store (.claiming key value payload) store' :=
    runs_exists hcrash hsend
  obtain ⟨store', hrun⟩ := hruns
  exact ⟨store', hrun, trivial⟩

end Notifications

-- ---------------------------------------------------------------------------
-- The three on the same events
-- ---------------------------------------------------------------------------

/-- `event["payload"]["order_id"]`, as it is written. -/
def orderText (event : Json) : Option Json :=
  (getItem event "payload" >>= (getItem · "order_id")).toOption

/-- Order ids of one UUID are one text. -/
def SpelledAlike (events : List Json) : Prop := Firsts.Alike orderKey orderText events

/-- The three take the same events for new and store equally many. -/
structure Agree (billing : List Bool × Table Billing.BillingRecord)
    (shipping : List Bool × Table Shipping.Shipment) (notifications : List Bool × Notifications.Store) :
    Prop where
  shipping_fresh : shipping.1 = billing.1
  notifications_fresh : notifications.1 = billing.1
  shipments : shipping.2.count = billing.2.count
  sent : notifications.2.sentCount = billing.2.count

theorem orderKey_some (h : orderKey event = some order) :
    ∃ text, orderText event = some (.str text) ∧ UUID.parse text = .ok order ∧
      textKey event = some (Notifications.notifyKey text) := by
  have hread : readOrderId event = .ok order := Except.toOption_eq_some.mp h
  simp only [readOrderId, Except.bind_eq_ok] at hread
  obtain ⟨payload, hpayload, item, hitem, hnew⟩ := hread
  have htext : orderText event = some item :=
    Except.toOption_eq_some.mpr (Except.bind_eq_ok.mpr ⟨payload, hpayload, hitem⟩)
  cases item with
  | str text =>
    have hkey : Notifications.keyOf event = .ok (Notifications.notifyKey text) := by
      simp only [Notifications.keyOf, Except.bind_eq_ok, Except.pure_eq_ok]
      exact ⟨payload, hpayload, _, hitem, rfl⟩
    exact ⟨text, htext, hnew, Except.toOption_eq_some.mpr hkey⟩
  | _ => cases hnew

theorem notifyKey_inj : Notifications.notifyKey text = Notifications.notifyKey text' ↔ text = text' :=
  String.append_right_inj "notify:processed:"

section
variable {events : List Json} (hread : ∀ event ∈ events, ∃ order, orderKey event = some order)
include hread

/-- One text is one UUID. -/
theorem textKey_fine : Firsts.Alike textKey orderKey events := by
  intro event hevent event' hevent' heq
  obtain ⟨order, horder⟩ := hread event hevent
  obtain ⟨order', horder'⟩ := hread event' hevent'
  obtain ⟨text, -, hparse, hkey⟩ := orderKey_some horder
  obtain ⟨text', -, hparse', hkey'⟩ := orderKey_some horder'
  have htext : text = text' := by simpa [hkey, hkey', notifyKey_inj] using heq
  rw [htext, hparse'] at hparse
  cases hparse
  rw [horder, horder']

theorem alike_textKey_iff : Firsts.Alike orderKey textKey events ↔ SpelledAlike events := by
  have hsame : ∀ event ∈ events, ∀ event' ∈ events,
      textKey event = textKey event' ↔ orderText event = orderText event' := by
    intro event hevent event' hevent'
    obtain ⟨order, horder⟩ := hread event hevent
    obtain ⟨order', horder'⟩ := hread event' hevent'
    obtain ⟨text, htext, -, hkey⟩ := orderKey_some horder
    obtain ⟨text', htext', -, hkey'⟩ := orderKey_some horder'
    simp [hkey, hkey', htext, htext', notifyKey_inj]
  constructor
  · exact fun h event hevent event' hevent' heq =>
      (hsame event hevent event' hevent').mp (h event hevent event' hevent' heq)
  · exact fun h event hevent event' hevent' heq =>
      (hsame event hevent event' hevent').mpr (h event hevent event' hevent' heq)

end

-- ---------------------------------------------------------------------------
-- One order in two spellings
-- ---------------------------------------------------------------------------

def spelled (orderId : String) : Json := .obj [
  ("event_id", .str "e7b1c1b4-9f5e-4a55-8a33-3cf8a1d1c7a0"),
  ("payload", .obj [
    ("order_id", .str orderId), ("customer_id", .str "alice"), ("item", .str "keyboard"),
    ("amount", .str "499.99")])]

def lowercase : Json := spelled "9f5c4013-a1b2-4c3d-8e9f-001122334455"

def uppercase : Json := spelled "9F5C4013-A1B2-4C3D-8E9F-001122334455"

def sober : Notifications.Config := ⟨86400, false⟩

/-- The three handle any of these events, in any order. -/
theorem spelled_feeds {events : List Json}
    (hevents : ∀ event ∈ events, event = lowercase ∨ event = uppercase) :
    ∃ (billing : List Bool × Table Billing.BillingRecord)
      (shipping : List Bool × Table Shipping.Shipment)
      (notifications : List Bool × Notifications.Store),
      Billing.handle.Feeds Projection.Quiet Table.count .empty events billing.1 billing.2 ∧
      Shipping.handle.Feeds Projection.Quiet Table.count .empty events shipping.1 shipping.2 ∧
      (Notifications.handle sober).Feeds Notifications.Store.Quiet Notifications.Store.sentCount .empty
        events notifications.1 notifications.2 := by
  have hread : ∀ event ∈ events, (∃ values, Billing.read event = .ok values) ∧
      ∃ values, Shipping.read event = .ok values := by
    intro event hmem
    rcases hevents event hmem with rfl | rfl <;> exact ⟨⟨_, rfl⟩, ⟨_, rfl⟩⟩
  have hsend : ∀ event ∈ events, ∃ key value payload,
      Notifications.start event = .ok (.claiming key value payload) ∧
        Notifications.sendable payload = .ok () := by
    intro event hmem
    rcases hevents event hmem with rfl | rfl <;> exact ⟨_, _, _, rfl, rfl⟩
  obtain ⟨fb, billing, hbilling⟩ := @Projection.feeds_exists _ _ _ Billing.projection _
    ⟨⟨0⟩, placedAt⟩ fun event hmem => (hread event hmem).1
  obtain ⟨fs, shipping, hshipping⟩ := @Projection.feeds_exists _ _ _ Shipping.projection _
    ⟨⟨0⟩, ⟨0⟩, placedAt⟩ fun event hmem => (hread event hmem).2
  obtain ⟨fn, notifications, hnotifications⟩ := @Notifications.feeds_exists sober _ rfl hsend
  exact ⟨(fb, billing), (fs, shipping), (fn, notifications), hbilling, hshipping, hnotifications⟩

/-- The handlers take the same events for new just when the order ids of one
UUID are one text, whatever the columns of Billing and Shipping let through. -/
theorem dedup_agrees_iff {events : List Json} {billed shipped : Columns}
    {config : Notifications.Config}
    {billing : List Bool × Table Billing.BillingRecord}
    {shipping : List Bool × Table Shipping.Shipment}
    {notifications : List Bool × Notifications.Store}
    (hbilling : (Billing.handleWith billed).Feeds Projection.Quiet Table.count .empty events
      billing.1 billing.2)
    (hshipping : (Shipping.handleWith shipped).Feeds Projection.Quiet Table.count .empty events
      shipping.1 shipping.2)
    (hnotifications : (Notifications.handle config).Feeds Notifications.Store.Quiet
      Notifications.Store.sentCount .empty events notifications.1 notifications.2) :
    Agree billing shipping notifications ↔ SpelledAlike events := by
  obtain ⟨hfb, hcb⟩ := Projection.dedups.feeds Projection.empty_knows hbilling
  obtain ⟨hfs, hcs⟩ := Projection.dedups.feeds Projection.empty_knows hshipping
  obtain ⟨hfn, hcn⟩ := Notifications.dedups.feeds Notifications.empty_knows hnotifications
  have hread : ∀ event ∈ events, ∃ order, orderKey event = some order := by
    intro event hevent
    obtain ⟨call, hstart⟩ := hbilling.started event hevent
    obtain ⟨values, -, -, hkey⟩ := Projection.start_ok (p := Billing.projectionWith billed) hstart
    exact ⟨_, hkey⟩
  have hsame : shipping.1 = billing.1 := hfs.trans hfb.symm
  rw [← alike_textKey_iff hread, ← Firsts.firsts_eq_iff (textKey_fine hread), ← hfb, ← hfn]
  constructor
  · exact fun h => h.notifications_fresh.symm
  · intro h
    exact ⟨hsame, h.symm, by rw [hcs, hcb, hsame]; rfl, by rw [hcn, hcb, h]; rfl⟩

theorem dedup_agrees_twice : ∃ (billing : List Bool × Table Billing.BillingRecord)
    (shipping : List Bool × Table Shipping.Shipment)
    (notifications : List Bool × Notifications.Store),
    Billing.handle.Feeds Projection.Quiet Table.count .empty [lowercase, lowercase]
      billing.1 billing.2 ∧
    Shipping.handle.Feeds Projection.Quiet Table.count .empty [lowercase, lowercase]
      shipping.1 shipping.2 ∧
    (Notifications.handle sober).Feeds Notifications.Store.Quiet Notifications.Store.sentCount .empty
      [lowercase, lowercase] notifications.1 notifications.2 ∧
    Agree billing shipping notifications := by
  obtain ⟨billing, shipping, notifications, hbilling, hshipping, hnotifications⟩ :=
    @spelled_feeds [lowercase, lowercase] (by simp)
  have halike : SpelledAlike [lowercase, lowercase] := by simp [SpelledAlike, Firsts.Alike]
  exact ⟨billing, shipping, notifications, hbilling, hshipping, hnotifications,
    (dedup_agrees_iff hbilling hshipping hnotifications).mpr halike⟩

/-- In two spellings the order is notified twice, and billed and shipped once. -/
theorem dedup_disagrees : ¬∀ (events : List Json) (config : Notifications.Config)
    (billing : List Bool × Table Billing.BillingRecord)
    (shipping : List Bool × Table Shipping.Shipment)
    (notifications : List Bool × Notifications.Store),
    Billing.handle.Feeds Projection.Quiet Table.count .empty events billing.1 billing.2 →
    Shipping.handle.Feeds Projection.Quiet Table.count .empty events shipping.1 shipping.2 →
    (Notifications.handle config).Feeds Notifications.Store.Quiet Notifications.Store.sentCount .empty
      events notifications.1 notifications.2 →
    Agree billing shipping notifications := by
  intro hall
  obtain ⟨billing, shipping, notifications, hbilling, hshipping, hnotifications⟩ :=
    @spelled_feeds [lowercase, uppercase] (by simp)
  have hagree := hall _ _ _ _ _ hbilling hshipping hnotifications
  have hb := (Projection.dedups.feeds Projection.empty_knows hbilling).1
  have hn := (Notifications.dedups.feeds Notifications.empty_knows hnotifications).1
  have hsame := hn.symm.trans (hagree.notifications_fresh.trans hb)
  have hdiffer : Firsts.firsts textKey [] [lowercase, uppercase] ≠
      Firsts.firsts orderKey [] [lowercase, uppercase] := by decide
  exact hdiffer hsame

end OutboxFanout
