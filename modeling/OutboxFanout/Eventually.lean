import OutboxFanout.Course

/-!
# Every order is settled in the end

What every fair run does, from any reachable state: a row that may be tried is
parked at some time, or, once it is published, its order is billed and shipped
if Billing's and Shipping's consumers are served (`exists_fulfilled`), and
notified if those of Notifications are (`exists_notified`). If consumers do
whatever they like, but no message stands still, Billing has its record or a
dead letter of the row, and so has Shipping (`exists_disposed`).
-/

namespace OutboxFanout.System

variable {config : Notifications.Config} {s s' : State} {run : (machine config).Run}
  {r : Outbox.RelayId} {row : OutboxEvent}

-- ---------------------------------------------------------------------------
-- Fair runs
-- ---------------------------------------------------------------------------

/-- The relay drains the row, and the consumers are served. -/
structure Fair (run : (machine config).Run) (r : Outbox.RelayId) (row : OutboxEvent) : Prop where
  relay : Outbox.Drains (outboxRun run) r row
  billing : Served Billing.projection.calls (billingRun run)
  shipping : Served Shipping.projection.calls (shippingRun run)

theorem Fair.lasting (h : Fair run r row) : run.Within Lasting := by
  intro k action haction
  cases action with
  | billing action =>
    cases action with
    | env event =>
      have hshown : (billingRun run).action k = some (.env event) := by
        simp [billingRun, Machine.Run.project, haction, onBilling]
      exact h.billing.within k _ hshown
    | _ => trivial
  | shipping action =>
    cases action with
    | env event =>
      have hshown : (shippingRun run).action k = some (.env event) := by
        simp [shippingRun, Machine.Run.project, haction, onShipping]
      exact h.shipping.within k _ hshown
    | _ => trivial
  | _ => trivial

-- ---------------------------------------------------------------------------
-- One order
-- ---------------------------------------------------------------------------

/-- What a step of a fair run may be. -/
structure Fairly (config : Notifications.Config) (r : Outbox.RelayId) (row : OutboxEvent) (s : State)
    (action : Action) : Prop where
  relay : ∀ a, onOutbox s action = some a → Outbox.Lone r (row.createdAt < ·.createdAt) s.outbox a
  billing : ∀ a, onBilling s action = some a → Billing.projection.calls.Serves s.billing a
  shipping : ∀ a, onShipping s action = some a → Shipping.projection.calls.Serves s.shipping a
  notify : ∀ a, onNotify s action = some a → (Notifications.calls config).Serves s.notify a
  unparked : ∀ row ∈ s.outbox.outbox, row.failedAt = none

section
variable {σ η α ε : Type} {handler : Handler σ η α ε} {calls : Calls handler} {store store' store'' : σ}

def OwnServed (calls : Calls handler) (site : Site σ η) (action : SiteAction α ε) : Prop :=
  Own site action ∧ calls.Serves site action

/-- One consumer, on a queue. -/
def single (queue : Queue String) (store : σ) (tried : List Nat) (pc : ConsumerPc η) : Site σ η where
  queue := queue
  store := store
  tried := tried
  consumers := Function.update (Site.empty 5 store).consumers 0 ⟨⟨10, 5⟩, pc, false⟩

theorem single_pc {pc : ConsumerPc η} : ((single queue store tried pc).consumers 0).pc = pc := by
  simp [single]

theorem single_down {pc : ConsumerPc η} (hc : c ≠ 0) :
    ((single queue store tried pc).consumers c).pc = .down := by
  simp [single, hc, Site.empty]

theorem single_step {pc pc' : ConsumerPc η}
    (h : (single queue store tried pc).step handler action = some
      ({ single queue store tried pc with
        queue := queue', store := store', tried := tried' }.goto 0 pc')) :
    (Site.machine handler).step (single queue store tried pc) action =
      some (single queue' store' tried' pc') := by
  refine h.trans ?_
  simp [single, Site.goto, Site.put, Site.empty]

/-- A delivery is handled in two answers and deleted. -/
theorem reaches_drained {answer answer' : α} (hnests : Nests 5 body)
    (hopen : handler.open_ 5 ⟨0, 1, body⟩ [] = .handling ⟨0, 1, body⟩ event call [])
    (hcall : handler.step store call answer = some (store', .continues call'))
    (hcall' : handler.step store' call' answer' = some (store'', .returned))
    (hwell : calls.well answer) (hwell' : calls.well answer') :
    (Site.machine handler).Reaches (OwnServed calls) { Site.empty 5 store with queue := mailbox body }
      (single Notifications.drained store'' [0] .polling) := by
  let taken := (mailbox body).move [0] .inFlight 1
  let start : Site σ η := { Site.empty 5 store with queue := mailbox body }
  have hpolling : (Site.machine handler).Reaches (OwnServed calls) start
      (single (mailbox body) store [] .polling) :=
    .next (.consumer 0 (.start ⟨10, 5⟩)) .refl ⟨own_consumer, (by decide : 2 ≤ 5)⟩ rfl
  have htaken : (Site.machine handler).Reaches (OwnServed calls) start
      (single taken store [] (.batch [⟨0, 1, body⟩])) :=
    .next (.consumer 0 (.receive [0] true)) hpolling ⟨own_consumer, rfl⟩ (single_step rfl)
  have hready : (Site.machine handler).Reaches (OwnServed calls) start
      (single taken store [0] (.handling ⟨0, 1, body⟩ event call [])) :=
    .next (.consumer 0 .next) htaken ⟨own_consumer, fun _ hd => Option.some.inj hd ▸ hnests⟩
      (single_step (Site.step_next _ single_pc (by simp [single]) (by simpa [single] using hopen)))
  have hcalled : (Site.machine handler).Reaches (OwnServed calls) start
      (single taken store' [0] (.handling ⟨0, 1, body⟩ event call' [])) :=
    .next (.consumer 0 (.handle answer)) hready ⟨own_consumer, hwell⟩
      (single_step (Site.step_handle _ single_pc hcall))
  have hreturned : (Site.machine handler).Reaches (OwnServed calls) start
      (single taken store'' [0] (.deleting ⟨0, 1, body⟩ event [])) :=
    .next (.consumer 0 (.handle answer')) hcalled ⟨own_consumer, hwell'⟩
      (single_step (Site.step_handle _ single_pc hcall'))
  have hdeleted : (Site.machine handler).Reaches (OwnServed calls) start
      (single Notifications.drained store'' [0] (.batch [])) :=
    .next (.consumer 0 (.delete false true)) hreturned ⟨own_consumer, trivial⟩ (single_step rfl)
  exact .next (.consumer 0 .next) hdeleted ⟨own_consumer, nofun⟩ (single_step rfl)

variable {part : (Site.machine handler).Run}

/-- Whoever has drained its queue has been served. -/
theorem served_of_rest (hwithin : part.Within calls.Serves)
    (hstart : ∀ c, ((part.state 0).consumers c).pc = .down)
    (hrest : ∀ k ≥ b, part.state k = single Notifications.drained store tried .polling) :
    Served calls part where
  within := hwithin
  able c hpc := absurd (hstart c) hpc
  received key := by
    refine Machine.Run.ends_of_rest hrest ?_
    rintro ⟨m, hm, -⟩
    cases hm
  moves c pc hbusy := by
    refine Machine.Run.ends_of_rest hrest fun hpc => hbusy ?_
    by_cases hc : c = 0
    · subst hc
      rw [single_pc] at hpc
      exact hpc ▸ rfl
    · rw [single_down hc] at hpc
      exact hpc ▸ rfl

theorem moves_of_rest {t : Site σ η} (hrest : ∀ k ≥ b, part.state k = t)
    (hempty : t.queue.messages = []) : Moves part := fun key place receives _ =>
  Machine.Run.ends_of_rest hrest (by simp [Site.whereabouts, Queue.find, hempty])

end

section
variable {ν δ ρ : Type} {p : Projection ν δ ρ}

theorem reaches_row (hnests : Nests 5 body)
    (hopen : p.handler.open_ 5 ⟨0, 1, body⟩ [] = .handling ⟨0, 1, body⟩ event (.ready values) [])
    (draws : δ) :
    (Site.machine p.handler).Reaches (OwnServed p.calls)
      { Site.empty 5 .empty with queue := mailbox body }
      (single Notifications.drained ⟨[p.row values draws], []⟩ [0] .polling) := by
  have hexecute : p.handler.step .empty (.ready values) (.execute draws) =
      some (⟨[], [p.orderId values]⟩, .continues (.inserted (p.row values draws))) := by
    simp [Projection.handler, Projection.step, Projection.Holds, Table.empty]
  have hcommit : p.handler.step ⟨[], [p.orderId values]⟩ (.inserted (p.row values draws))
      (.commit .done) = some (⟨[p.row values draws], []⟩, .returned) := by
    simp [Projection.handler, Projection.step, Projection.commit, Projection.release,
      p.rowOrderId_row]
  exact reaches_drained hnests hopen hexecute hcommit trivial trivial

end

theorem reaches_email (hnests : Nests 5 body)
    (hopen : (Notifications.handle Notifications.defaultConfig).open_ 5 ⟨0, 1, body⟩ [] =
      .handling ⟨0, 1, body⟩ event (.claiming key value payload) [])
    (hsend : Notifications.sendable payload = .ok ()) :
    (Site.machine (Notifications.handle Notifications.defaultConfig)).Reaches
      (OwnServed (Notifications.calls Notifications.defaultConfig))
      { Site.empty 5 .empty with queue := mailbox body }
      (single Notifications.drained ((Notifications.claimedStore key value).note (.sent key 0 0)) [0]
        .polling) := by
  have hclaim : (Notifications.handle Notifications.defaultConfig).step .empty
      (.claiming key value payload) (.set .ok) =
      some (Notifications.claimedStore key value, .continues (.claimed key 0 payload)) :=
    Notifications.step_claim
  have hsent : (Notifications.handle Notifications.defaultConfig).step
      (Notifications.claimedStore key value) (.claimed key 0 payload) (.send (.ok ())) =
      some ((Notifications.claimedStore key value).note (.sent key 0 0), .returned) :=
    Notifications.step_send hsend
  exact reaches_drained hnests hopen hclaim hsent rfl rfl

theorem fairly_billing {billing : BillingSite}
    (hunparked : ∀ row ∈ s.outbox.outbox, row.failedAt = none)
    (h : (Site.machine Billing.handle).Reaches (OwnServed Billing.projection.calls) s.billing billing) :
    (machine config).Reaches (Fairly config r row) s { s with billing } := by
  refine h.project (fun billing => { s with billing }) fun site action site' hown hs => .inr ?_
  obtain ⟨hown, hserves⟩ := hown
  refine ⟨.billing action, ⟨nofun, ?_, nofun, nofun, hunparked⟩, ?_⟩
  · rintro _ ⟨⟩
    exact hserves
  · simp only [machine, step, ownStep_of_own hown]
    exact Option.map_eq_some_iff.mpr ⟨site', hs, rfl⟩

theorem fairly_shipping {shipping : ShippingSite}
    (hunparked : ∀ row ∈ s.outbox.outbox, row.failedAt = none)
    (h : (Site.machine Shipping.handle).Reaches (OwnServed Shipping.projection.calls) s.shipping
      shipping) :
    (machine config).Reaches (Fairly config r row) s { s with shipping } := by
  refine h.project (fun shipping => { s with shipping }) fun site action site' hown hs => .inr ?_
  obtain ⟨hown, hserves⟩ := hown
  refine ⟨.shipping action, ⟨nofun, nofun, ?_, nofun, hunparked⟩, ?_⟩
  · rintro _ ⟨⟩
    exact hserves
  · simp only [machine, step, ownStep_of_own hown]
    exact Option.map_eq_some_iff.mpr ⟨site', hs, rfl⟩

theorem fairly_notify {notify : NotifySite} (hunparked : ∀ row ∈ s.outbox.outbox, row.failedAt = none)
    (h : (Site.machine (Notifications.handle config)).Reaches (OwnServed (Notifications.calls config))
      s.notify notify) :
    (machine config).Reaches (Fairly config r row) s { s with notify } := by
  refine h.project (fun notify => { s with notify }) fun site action site' hown hs => .inr ?_
  obtain ⟨hown, hserves⟩ := hown
  refine ⟨.notify action, ⟨nofun, nofun, nofun, ?_, hunparked⟩, ?_⟩
  · rintro _ ⟨⟩
    exact hserves
  · simp only [machine, step, ownStep_of_own hown]
    exact Option.map_eq_some_iff.mpr ⟨site', hs, rfl⟩

theorem fairly_relay (hans : action.Answered)
    (hacc : Outbox.accepted? s.outbox (.relay r action) = none)
    (hunparked : ∀ row ∈ s.outbox.outbox, row.failedAt = none) :
    Fairly config r row s (.outbox (.relay r action) bodies) where
  relay := by
    rintro _ ⟨⟩
    exact ⟨rfl, hans⟩
  billing := by simp [onBilling, hacc]
  shipping := by simp [onShipping, hacc]
  notify := by simp [onNotify, hacc]
  unparked := hunparked

theorem fairly_publish (hacc : Outbox.accepted? s.outbox (.relay r (.publish .accepted)) = some event)
    (hunparked : ∀ row ∈ s.outbox.outbox, row.failedAt = none) :
    Fairly config r row s (.outbox (.relay r (.publish .accepted)) bodies) where
  relay := by
    rintro _ ⟨⟩
    exact ⟨rfl, trivial⟩
  billing := by simp [onBilling, hacc, Calls.Serves]
  shipping := by simp [onShipping, hacc, Calls.Serves]
  notify := by simp [onNotify, hacc, Calls.Serves]
  unparked := hunparked

/-- The keyboard's order is committed, and a relay is running. -/
def waiting (requests : Outbox.RequestId → Outbox.RequestPc) : State :=
  { State.empty 5 with
    outbox := { Outbox.State.empty with
      orders := [(createOrder false ⟨1⟩ placedAt keyboardOrder).1]
      outbox := [keyboardRow]
      relays := Function.update Outbox.State.empty.relays 0 ⟨⟨10, 5, false⟩, .idle⟩
      requests := requests } }

theorem reaches_waiting (config : Notifications.Config) :
    ∃ requests, (machine config).Reaches Lasting (.empty 5) (waiting requests) := by
  let bodies : Bodies := ⟨"", "", ""⟩
  exact ⟨_, .next (.outbox (.relay 0 (.start ⟨10, 5, false⟩)) bodies)
    (.next (.outbox (.commitOrder 0) bodies) (.next (.outbox (.flush 0 ⟨2⟩ placedAt) bodies)
      (.next (.outbox (.post 0 false ⟨1⟩ placedAt keyboardOrder) bodies) .refl trivial rfl) trivial rfl)
      trivial rfl) trivial rfl⟩

/-- The row is published and marked. -/
theorem waiting_published (config : Notifications.Config)
    (requests : Outbox.RequestId → Outbox.RequestPc) :
    ∃ outbox : Outbox.State, outbox.outbox = [keyboardRow.mark placedAt] ∧
      (machine config).Reaches (Fairly config 0 keyboardRow) (waiting requests)
        ({ State.empty 5 with outbox }.fanOut ⟨keyboardBody, keyboardBody, keyboardBody⟩) := by
  let bodies : Bodies := ⟨keyboardBody, keyboardBody, keyboardBody⟩
  have hcarry : bodies.Carry keyboardRow :=
    ⟨keyboardBody_carries, keyboardBody_carries, keyboardBody_carries⟩
  have hunparked : ∀ row ∈ [keyboardRow], row.failedAt = none := by simp [keyboardRow]
  have hmarked : ∀ row ∈ [keyboardRow.mark placedAt], row.failedAt = none := by simp [keyboardRow]
  have hlocked : (machine config).Reaches (Fairly config 0 keyboardRow) (waiting requests)
      { waiting requests with outbox := _ } :=
    .next (.outbox (.relay 0 .select) bodies) (.next (.outbox (.relay 0 (.poll [⟨2⟩])) bodies) .refl
      (fairly_relay trivial rfl hunparked) rfl) (fairly_relay trivial rfl hunparked) rfl
  have haccepted : (machine config).Reaches (Fairly config 0 keyboardRow) (waiting requests)
      ({ waiting requests with outbox := _ }.fanOut bodies) :=
    .next (.outbox (.relay 0 (.publish .accepted)) bodies) hlocked (fairly_publish rfl hunparked)
      (step_publish rfl rfl hcarry)
  exact ⟨_, rfl, .next (.outbox (.relay 0 .endPoll) bodies)
    (.next (.outbox (.relay 0 (.commit .done placedAt)) bodies) haccepted
      (fairly_relay trivial rfl hunparked) rfl) (fairly_relay trivial rfl hmarked) rfl⟩

/-- The keyboard's order is published, billed, shipped and notified, and nothing
else happens. -/
structure Quiet (run : (machine Notifications.defaultConfig).Run) : Prop where
  start : (machine Notifications.defaultConfig).Reaches Lasting (.empty 5) (run.state 0)
  row : keyboardRow ∈ (run.state 0).outbox.outbox
  selectable : Relay.Selectable ((run.state 0).outbox.relays 0).config.maxAttempts keyboardRow
  fair : Fair run 0 keyboardRow
  notify : Served (Notifications.calls Notifications.defaultConfig) (notifyRun run)
  unclaimed : ¬(run.state 0).notify.store.Claimed (Notifications.notifyKey keyboardRow.orderId.str)
  billing : Moves (billingRun run)
  shipping : Moves (shippingRun run)
  unparked : ¬Parks run keyboardRow

theorem exists_quiet : ∃ run : (machine Notifications.defaultConfig).Run, Quiet run := by
  have hpayload : keyboardRow.payload =
    buildPayload (createOrder false ⟨1⟩ placedAt keyboardOrder).1 := rfl
  have hbody := unwrap_keyboardBody (Nat.le_add_right 3 2)
  have hnests : Nests 5 keyboardBody := keyboardBody_nests (Nat.le_add_right 3 2)
  have hparse : parseBody 5 keyboardBody = .ok (buildMessage keyboardRow) :=
    Except.bind_eq_ok.mpr ⟨_, hbody, rfl⟩
  obtain ⟨requests, hwaiting⟩ := reaches_waiting Notifications.defaultConfig
  obtain ⟨outbox, houtbox, hpublished⟩ := waiting_published Notifications.defaultConfig requests
  have hunparked : ∀ row ∈ outbox.outbox, row.failedAt = none := by simp [houtbox, keyboardRow]
  let published : State :=
    { State.empty 5 with outbox }.fanOut ⟨keyboardBody, keyboardBody, keyboardBody⟩
  have hbilled : (machine Notifications.defaultConfig).Reaches (Fairly _ 0 keyboardRow) published
      { published with billing := _ } :=
    fairly_billing hunparked (reaches_row (p := Billing.projection) hnests
      (Handler.open_starts hparse (Projection.start_of_read (Billing.read_ok hpayload createOrder_fits)))
      ⟨⟨3⟩, placedAt⟩)
  have hshipped : (machine Notifications.defaultConfig).Reaches (Fairly _ 0 keyboardRow) _
      { published with billing := _, shipping := _ } :=
    hbilled.trans (fairly_shipping hunparked (reaches_row (p := Shipping.projection) hnests
      (Handler.open_starts hparse
        (Projection.start_of_read (Shipping.read_ok hpayload createOrder_fits)))
      ⟨⟨4⟩, ⟨5⟩, placedAt⟩))
  have hnotified : (machine Notifications.defaultConfig).Reaches (Fairly _ 0 keyboardRow) _
      { published with billing := _, shipping := _, notify := _ } :=
    hshipped.trans (fairly_notify hunparked (reaches_email hnests
      (Notifications.open_of_unwrap hpayload hbody 1) (hpayload ▸ Notifications.sendable_buildPayload)))
  obtain ⟨run, hstart, hwithin, b, hrest⟩ := Machine.Run.exists_rest (hpublished.trans hnotified)
  have hrow : (run.state 0).outbox.outbox = [keyboardRow] := by rw [hstart]; rfl
  have hrelays : (run.state 0).outbox.relays =
      Function.update Outbox.State.empty.relays 0 ⟨⟨10, 5, false⟩, .idle⟩ := by rw [hstart]; rfl
  have hdown : (∀ c, ((run.state 0).billing.consumers c).pc = .down) ∧
      (∀ c, ((run.state 0).shipping.consumers c).pc = .down) ∧
      ∀ c, ((run.state 0).notify.consumers c).pc = .down := by
    rw [hstart]
    exact ⟨fun _ => rfl, fun _ => rfl, fun _ => rfl⟩
  have hstore : (run.state 0).notify.store = .empty := by rw [hstart]; rfl
  have hdrains : Outbox.Drains (outboxRun run) 0 keyboardRow := by
    refine ⟨fun r hr => ?_, ?_, ?_, hwithin.project fun _ _ a hc ha => hc.relay a ha, fun pc => ?_⟩
    · show ((run.state 0).outbox.relays r).pc.holds = none
      rw [hrelays, Function.update_of_ne hr]
      rfl
    · show ((run.state 0).outbox.relays 0).pc = .idle
      rw [hrelays]
      rfl
    · show 1 ≤ ((run.state 0).outbox.relays 0).config.batchSize
      rw [hrelays]
      decide
    · refine Machine.Run.ends_of_rest (fun k hk => congrArg State.outbox (hrest k hk))
        fun hlasts => hlasts.2 ?_
      exact ⟨keyboardRow.mark placedAt, houtbox ▸ List.mem_singleton_self _, rfl, .inl rfl⟩
  have hbilling := fun k hk => congrArg State.billing (hrest k hk)
  have hshipping := fun k hk => congrArg State.shipping (hrest k hk)
  refine ⟨run, {
    start := hstart ▸ hwaiting
    row := hrow ▸ List.mem_singleton_self _
    selectable := by rw [hrelays]; decide
    fair := ⟨hdrains,
      served_of_rest (hwithin.project fun _ _ a hc ha => hc.billing a ha) hdown.1 hbilling,
      served_of_rest (hwithin.project fun _ _ a hc ha => hc.shipping a ha) hdown.2.1 hshipping⟩
    notify := served_of_rest (hwithin.project fun _ _ a hc ha => hc.notify a ha) hdown.2.2
      fun k hk => congrArg State.notify (hrest k hk)
    unclaimed := ?_
    billing := moves_of_rest hbilling rfl
    shipping := moves_of_rest hshipping rfl
    unparked := ?_ }⟩
  · rw [hstore]
    rintro (⟨entry, hmem, -⟩ | ⟨claim, haway⟩)
    · cases hmem
    · cases haway
  · rintro ⟨n, row', hmem, -, hparked⟩
    refine hparked ?_
    rcases hwithin.rest_or hrest n with heq | ⟨action, hfairly⟩
    · rw [heq] at hmem
      exact hunparked row' hmem
    · exact hfairly.unparked row' hmem

-- ---------------------------------------------------------------------------
-- Billed and shipped
-- ---------------------------------------------------------------------------

/-- What is published is billed and shipped from some moment on. -/
theorem Fair.exists_taken (hfair : Fair run r row)
    (hstart : (machine config).Reaches Lasting (.empty limit) (run.state 0))
    (h : Published (run.state k) key event order) : ∃ n ≥ k, ∀ l ≥ n,
      Billing.projection.Holds (run.state l).billing.store order.id ∧
        Shipping.projection.Holds (run.state l).shipping.store order.id := by
  have hsound := sound_of_reaches hstart
  have hentry : ∀ l ≥ k, (run.state l).outbox.log[key]? = some event := fun l hl =>
    entry_of_reaches (hfair.lasting.reaches hl) h.entry
  have hlogged : ∀ l, Logged (run.state l) := fun l =>
    Logged.empty.of_reaches (hstart.trans (hfair.lasting.reaches (Nat.zero_le l)))
  obtain ⟨n, hn, hbilled⟩ := Projection.exists_holds hfair.billing hsound.billing.ok
    (fun l hl c d hd hid => (hlogged l).billing.tells (hentry l hl) h.payload
      (Billing.read_ok h.payload h.fits) hd hid) h.billing
  obtain ⟨n', hn', hshipped⟩ := Projection.exists_holds hfair.shipping hsound.shipping.ok
    (fun l hl c d hd hid => (hlogged l).shipping.tells (hentry l hl) h.payload
      (Shipping.read_ok h.payload h.fits) hd hid) h.shipping
  refine ⟨max n n', hn.trans (le_max_left ..), fun l hl => ⟨?_, ?_⟩⟩
  · exact hbilled.mono (keeps_of_reaches (hfair.lasting.reaches ((le_max_left ..).trans hl))).billing
  · exact hshipped.mono (keeps_of_reaches (hfair.lasting.reaches ((le_max_right ..).trans hl))).shipping

/-- The row is parked at some time, or its order is billed and shipped for good. -/
theorem exists_fulfilled (hfair : Fair run r row)
    (hstart : (machine config).Reaches Lasting (.empty limit) (run.state 0)) (hlimit : 0 < limit)
    (hmem : row ∈ (run.state 0).outbox.outbox)
    (hsel : Relay.Selectable ((run.state 0).outbox.relays r).config.maxAttempts row) :
    Parks run row ∨ ∃ n, ∀ l ≥ n, Billing.projection.Holds (run.state l).billing.store row.orderId ∧
      Shipping.projection.Holds (run.state l).shipping.store row.orderId := by
  have hdrained : Drained run r row limit := ⟨hstart, hfair.relay, hfair.lasting⟩
  rcases hdrained.exists_published hlimit hmem hsel with
    hparked | ⟨k, key, event, order, hpublished, hfacts⟩
  · exact .inl hparked
  · obtain ⟨n, -, htaken⟩ := hfair.exists_taken hstart hpublished
    have horder : order.id = row.orderId :=
      hpublished.orderId.trans (congrArg (fun facts => facts.2.1) hfacts)
    exact .inr ⟨n, horder ▸ htaken⟩

theorem exists_fulfilled_keyboard : ∃ run : (machine Notifications.defaultConfig).Run,
    Fair run 0 keyboardRow ∧ ∃ n, ∀ l ≥ n,
      Billing.projection.Holds (run.state l).billing.store ⟨1⟩ ∧
        Shipping.projection.Holds (run.state l).shipping.store ⟨1⟩ := by
  obtain ⟨run, hquiet⟩ := exists_quiet
  exact ⟨run, hquiet.fair, (exists_fulfilled hquiet.fair hquiet.start (by decide) hquiet.row
    hquiet.selectable).resolve_left hquiet.unparked⟩

-- ---------------------------------------------------------------------------
-- Notified
-- ---------------------------------------------------------------------------

/-- A call that is about to claim has the event's payload. -/
def PayloadOf (event : Json) (call : Notifications.Call) : Prop :=
  ∀ key value payload, call = .claiming key value payload → getItem event "payload" = .ok payload

theorem payloadOf_start (h : Notifications.start event = .ok call) : PayloadOf event call := by
  rintro key value payload rfl
  simp only [Notifications.start, Except.bind_eq_ok, Except.pure_eq_ok] at h
  obtain ⟨_, -, payload', hpayload, _, -, _, -, heq⟩ := h
  cases heq
  exact hpayload

theorem payloadOf_continues
    (h : Notifications.step config store call answer = some (store', .continues call')) :
    PayloadOf event call' := by
  rintro key value payload rfl
  have hwork : 2 < call.work := (Notifications.step_cases h).work_lt
  exact absurd hwork (Nat.not_lt.mpr call.work_le)

structure Told (s : State) : Prop where
  ok : s.notify.Ok Notifications.During Notifications.Done
  payloads : s.notify.From (fun _ => True) PayloadOf

theorem Told.siteStep {notify : NotifySite} (h : Told s)
    (hs : SiteStep (Notifications.handle config) s.notify action notify) : Told { s with notify } where
  ok := h.ok.step (Notifications.settles config) hs fun _ _ _ => Notifications.env_grows
  payloads := h.payloads.step (fun _ _ => payloadOf_start) (fun _ _ _ _ _ _ _ => payloadOf_continues)
    hs fun _ _ => trivial

theorem told_of_reaches (h : (machine config).Reaches C (.empty limit) s) : Told s := by
  refine h.invariant ⟨Site.empty_ok, .empty⟩ fun t action u ht _ hs => ?_
  cases step_cases hs with
  | outbox | billing | shipping => exact ⟨ht.ok, ht.payloads⟩
  | publish =>
    obtain ⟨hok, hpayloads⟩ := ht.siteStep
      (.deliver : SiteStep (Notifications.handle config) t.notify (.deliver _) _)
    exact ⟨hok, hpayloads⟩
  | notify hnotify =>
    obtain ⟨hok, hpayloads⟩ := ht.siteStep hnotify
    exact ⟨hok, hpayloads⟩

/-- The members a send reads are there. -/
theorem sendable_of_reaches (h : (machine config).Reaches C (.empty limit) s) :
    Notifications.Sendable s.notify := by
  rintro c call hcall key value payload rfl
  obtain ⟨delivery, event, rest, hpc⟩ := Notifications.ConsumerPc.handling_of_call? hcall
  have htraced := traced_of_reaches h
  have hbodies := htraced.toNotify.taken c
  have hcalls := (told_of_reaches h).payloads.taken c
  rw [hpc] at hbodies hcalls
  obtain ⟨-, hreads, hpayloadOf⟩ := hcalls
  obtain ⟨order, -, row, -, -, hpayload, rfl⟩ :=
    htraced.origin (hbodies.1 delivery List.mem_cons_self) hreads
  obtain rfl := Except.ok.inj (buildMessage_payload.symm.trans (hpayloadOf key value payload rfl))
  rw [hpayload]
  exact Notifications.sendable_buildPayload

/-- The row is parked at some time, or its order is notified, if nobody has claimed
to do so before. -/
theorem exists_notified (h : Drained run r row limit) (hlimit : 0 < limit)
    (hserved : Served (Notifications.calls config) (notifyRun run))
    (hunclaimed : ¬(run.state 0).notify.store.Claimed (Notifications.notifyKey row.orderId.str))
    (hmem : row ∈ (run.state 0).outbox.outbox)
    (hsel : Relay.Selectable ((run.state 0).outbox.relays r).config.maxAttempts row) :
    Parks run row ∨ ∃ n, ∀ l ≥ n,
      (run.state l).notify.store.Sent (Notifications.notifyKey row.orderId.str) := by
  rcases h.exists_published hlimit hmem hsel with hparked | ⟨k, key, event, order, hpublished, hfacts⟩
  · exact .inl hparked
  have hpayload := hpublished.payload
  have horder : order.id = row.orderId :=
    hpublished.orderId.trans (congrArg (fun facts => facts.2.1) hfacts)
  obtain ⟨n, -, hsent⟩ := Notifications.exists_sent (n := k) hserved
    (told_of_reaches h.start).ok (fun l => sendable_of_reaches (h.reaches l))
    (fun hclaimed => absurd hclaimed hunclaimed) (fun l hl c d hd hid => by
      obtain ⟨event', hentry, hcarries⟩ := (Logged.empty.of_reaches (h.reaches l)).notify.taken c d hd
      rw [hid, entry_of_reaches (h.lasting.reaches hl) hpublished.entry] at hentry
      cases hentry
      refine ⟨fun depth hdepth hnests => ⟨_, _, hcarries.parseBody_ok hpayload hdepth hnests,
        Notifications.start_of_payload hpayload, Notifications.sendable_buildPayload⟩,
        fun message hreads => ?_⟩
      obtain rfl := hreads.eq_buildMessage hcarries
      exact horder ▸ Notifications.keyOf_buildMessage hpayload) hpublished.notify
  refine .inr ⟨n, fun l hl => ?_⟩
  exact (notifyRun run).invariant (I := (·.store.Sent (Notifications.notifyKey row.orderId.str))) hsent
    (fun _ _ _ hsent hs => Notifications.sent_step (Site.step_cases hs) hsent) hl

theorem exists_notified_keyboard : ∃ run : (machine Notifications.defaultConfig).Run, ∃ n, ∀ l ≥ n,
    (run.state l).notify.store.Sent (Notifications.notifyKey (UUID.str ⟨1⟩)) := by
  obtain ⟨run, hquiet⟩ := exists_quiet
  exact ⟨run, (exists_notified ⟨hquiet.start, hquiet.fair.relay, hquiet.fair.lasting⟩ (by decide)
    hquiet.notify hquiet.unclaimed hquiet.row hquiet.selectable).resolve_left hquiet.unparked⟩

-- ---------------------------------------------------------------------------
-- Any consumers
-- ---------------------------------------------------------------------------

section
variable {ν δ ρ : Type} {p : Projection ν δ ρ} {site : Site (Table ρ) (Insert ν ρ)}

/-- A copy of the row is in the dead letter queue. -/
def Buried (site : Site σ η) (row : OutboxEvent) : Prop :=
  ∃ m ∈ site.queue.messages, m.place = .dead ∧ Carries m.body row

theorem Buried.lasts (part : (Site.machine p.handler).Run) (h : Buried (part.state k) row)
    (hl : k ≤ l) : Buried (part.state l) row := by
  obtain ⟨m, hm, hdead, hcarries⟩ := h
  refine ⟨m, ?_, hdead, hcarries⟩
  exact part.invariant (I := fun site => m ∈ site.queue.messages) hm
    (fun _ _ _ hm hs => (Site.step_cases hs).dead_stays hm hdead) hl

/-- A message that is handled is in the table, and one that is dead is a copy of its entry. -/
theorem disposed (hok : site.Ok p.During p.Done) (hcopies : site.Copies log)
    (hentry : log[key]? = some event) (hpayload : event.payload = buildPayload order)
    (hread : p.read (buildMessage event) = .ok values) (h : site.Handled key ∨ site.Dead key) :
    p.Holds site.store (p.orderId values) ∨ Buried site event := by
  rcases h with hhandled | ⟨m, hm, rfl, hdead⟩
  · exact .inl (Projection.holds_of_handled hok
      (fun c d hd hid => hcopies.tells hentry hpayload hread hd hid) hhandled)
  · obtain ⟨event', hentry', hcarries⟩ := hcopies.queued (m.id, m.body) (List.mem_map.mpr ⟨m, hm, rfl⟩)
    obtain rfl := Option.some.inj (hentry'.symm.trans hentry)
    exact .inr ⟨m, hm, hdead, hcarries⟩

end

/-- The row is parked at some time, or from some moment on Billing has a record of its
order or a dead letter, and Shipping a shipment or a dead letter. -/
theorem exists_disposed (h : Drained run r row limit) (hlimit : 0 < limit)
    (hbilling : Moves (billingRun run)) (hshipping : Moves (shippingRun run))
    (hmem : row ∈ (run.state 0).outbox.outbox)
    (hsel : Relay.Selectable ((run.state 0).outbox.relays r).config.maxAttempts row) :
    Parks run row ∨ ∃ n, ∀ l ≥ n,
      (Billing.projection.Holds (run.state l).billing.store row.orderId ∨
        Buried (run.state l).billing row) ∧
      (Shipping.projection.Holds (run.state l).shipping.store row.orderId ∨
        Buried (run.state l).shipping row) := by
  rcases h.exists_published hlimit hmem hsel with hparked | ⟨k, key, event, order, hpublished, hfacts⟩
  · exact .inl hparked
  have horder : order.id = row.orderId :=
    hpublished.orderId.trans (congrArg (fun facts => facts.2.1) hfacts)
  have hburied : ∀ {σ η : Type} {site : Site σ η}, Buried site event → Buried site row := by
    rintro σ η site ⟨m, hm, hdead, hcarries⟩
    exact ⟨m, hm, hdead, hcarries.congr hfacts⟩
  have hentry : ∀ l ≥ k, (run.state l).outbox.log[key]? = some event := fun l hl =>
    entry_of_reaches (h.lasting.reaches hl) hpublished.entry
  obtain ⟨n, hn, hbilled⟩ := hbilling.exists_left (n := k) hpublished.billing.holds
  obtain ⟨n', hn', hshipped⟩ := hshipping.exists_left (n := k) hpublished.shipping.holds
  have hbilled := disposed (sound_of_reaches (h.reaches n)).billing.ok
    (Logged.empty.of_reaches (h.reaches n)).billing (hentry n hn) hpublished.payload
    (Billing.read_ok hpublished.payload hpublished.fits) hbilled
  have hshipped := disposed (sound_of_reaches (h.reaches n')).shipping.ok
    (Logged.empty.of_reaches (h.reaches n')).shipping (hentry n' hn') hpublished.payload
    (Shipping.read_ok hpublished.payload hpublished.fits) hshipped
  refine .inr ⟨max n n', fun l hl => ⟨?_, ?_⟩⟩
  · have hnl : n ≤ l := (le_max_left ..).trans hl
    refine hbilled.imp (fun hholds => ?_) fun hdead => hburied (.lasts (billingRun run) hdead hnl)
    exact horder ▸ hholds.mono (keeps_of_reaches (h.lasting.reaches hnl)).billing
  · have hnl : n' ≤ l := (le_max_right ..).trans hl
    refine hshipped.imp (fun hholds => ?_) fun hdead => hburied (.lasts (shippingRun run) hdead hnl)
    exact horder ▸ hholds.mono (keeps_of_reaches (h.lasting.reaches hnl)).shipping

theorem exists_disposed_keyboard : ∃ run : (machine Notifications.defaultConfig).Run,
    Moves (billingRun run) ∧ Moves (shippingRun run) ∧ ∃ n, ∀ l ≥ n,
      (Billing.projection.Holds (run.state l).billing.store ⟨1⟩ ∨
        Buried (run.state l).billing keyboardRow) ∧
      (Shipping.projection.Holds (run.state l).shipping.store ⟨1⟩ ∨
        Buried (run.state l).shipping keyboardRow) := by
  obtain ⟨run, hquiet⟩ := exists_quiet
  exact ⟨run, hquiet.billing, hquiet.shipping, (exists_disposed ⟨hquiet.start, hquiet.fair.relay,
    hquiet.fair.lasting⟩ (by decide) hquiet.billing hquiet.shipping hquiet.row
    hquiet.selectable).resolve_left hquiet.unparked⟩

end OutboxFanout.System
