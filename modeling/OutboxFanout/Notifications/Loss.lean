import OutboxFanout.Notifications.Claims
import OutboxFanout.Relay.Publisher

/-!
# When a notification is lost

A message deleted from the queue was sent for, or a delivery of it was turned
away by a claim. As long as no claim that turned a delivery away is released,
the claim's call either is still at work or has sent.
-/

namespace OutboxFanout.Notifications

variable {config : Config} {s s' t : State}

/-- The body is a message of this order. -/
def Concerns (body : String) (orderId : String) : Prop :=
  ∃ event payload, ReadsAs body event ∧ getItem event "payload" = .ok payload ∧
    getItem payload "order_id" = .ok (.str orderId)

/-- A send for the order has completed, or a call of `handle` for it is between
its claim and its end. -/
def SentOrUnderway (s : State) (orderId : String) : Prop :=
  s.store.Sent (notifyKey orderId) ∨ ∃ c claim, claimOf s c = some (notifyKey orderId, claim)

/-- No message of the order is left that was there; then it is sent or being
sent, and once every call has ended, sent. -/
def NotLost (t s : State) : Prop :=
  ∀ orderId, (∃ x ∈ t.queue.contents, Concerns x.2 orderId) →
    (∀ x ∈ s.queue.contents, ¬Concerns x.2 orderId) →
    SentOrUnderway s orderId ∧
      ((∀ c, (s.consumers c).pc.call? = none) → s.store.Sent (notifyKey orderId))

theorem readsAs_unique (h : ReadsAs body event) (h' : ReadsAs body event') : event = event' := by
  obtain ⟨depth, hparse⟩ := h
  obtain ⟨depth', hparse'⟩ := h'
  simp only [parseBody, Except.bind_eq_ok, Except.pure_eq_ok] at hparse hparse'
  obtain ⟨_, hunwrap, _, _, rfl⟩ := hparse
  obtain ⟨_, hunwrap', _, _, rfl⟩ := hparse'
  exact unwrap_unique hunwrap hunwrap'

structure Inv (s : State) : Prop where
  ok : s.Ok During Done
  owned : Owned s.store (claimOf s)

theorem Inv.notLost {x : Nat × String} (h : Inv s) (hkept : s.Kept Done x)
    (hconcerns : Concerns x.2 orderId) (hgone : ∀ x ∈ s.queue.contents, ¬Concerns x.2 orderId) :
    SentOrUnderway s orderId := by
  rcases hkept with hmem | ⟨event, hreads, key, hkey, hdone⟩
  · exact absurd hconcerns (hgone x hmem)
  · obtain ⟨event', payload, hreads', hpayload, horder⟩ := hconcerns
    obtain rfl := readsAs_unique hreads hreads'
    obtain rfl : notifyKey orderId = key := by
      simpa [keyOf, hpayload, horder, bind, Except.bind, pure, Except.pure, formatted] using hkey
    rcases hdone with hsent | ⟨claim, haway⟩
    · exact .inl hsent
    · obtain ⟨entry, hmem, hkey, rfl⟩ := h.owned.away _ claim haway
      rcases h.owned.owner entry hmem with hsent | ⟨c, hc⟩
      · exact .inl (hkey ▸ hsent)
      · exact .inr ⟨c, _, hkey ▸ hc⟩

/-- The condition: what the claim assumes of Redis and the processes, and
that no claim is released once it has turned another delivery away. -/
def Uncontested (s : State) (action : Action) : Prop :=
  Smooth s action ∧ ReleasesUncontested s action

theorem Inv.step (h : Inv s) (hs : SiteStep (handle config) s action s')
    (hc : Uncontested s action) : Inv s' where
  ok := h.ok.step (settles config) hs fun _ _ _ => env_grows
  owned := h.owned.step hs hc.1 hc.2

theorem inv_of_reaches (h : (machine config).Reaches Uncontested (.empty limit .empty) s) : Inv s :=
  h.invariant ⟨Site.empty_ok, .empty⟩ fun _ _ _ hi hc hs => hi.step (Site.step_cases hs) hc

/-- From any state of such a run on, no notification is lost. -/
theorem notLost_of_reaches (h : (machine config).Reaches Uncontested (.empty limit .empty) t)
    (h' : (machine config).Reaches Uncontested t s) : NotLost t s := by
  rintro orderId ⟨x, hx, hconcerns⟩ hgone
  obtain ⟨hinv, hkept⟩ : Inv s ∧ s.Kept Done x := by
    refine h'.invariant (I := fun s => Inv s ∧ s.Kept Done x) ⟨inv_of_reaches h, .inl hx⟩ ?_
    rintro u action v ⟨hi, hx⟩ hc hs
    have hs := Site.step_cases hs
    exact ⟨hi.step hs hc, hi.ok.kept (settles config) hs (fun _ _ _ => env_grows) hx⟩
  have hsent := hinv.notLost hkept hconcerns hgone
  refine ⟨hsent, fun hended => hsent.resolve_right ?_⟩
  rintro ⟨c, claim, hc⟩
  simp [claimOf, hended c] at hc

-- ---------------------------------------------------------------------------
-- Two overlapping deliveries of one message
-- ---------------------------------------------------------------------------

section
variable {body key value : String} {event payload : Json} {queue queue' : Queue String}
  {store store' : Store} {tried tried' : List Nat} {pc₀ pc₁ pc : ConsumerPc Call} {action : Action}

/-- A queue with one message. -/
def holding (body : String) (receives : Nat) (place : Place) : Queue String where
  limit := 5
  messages := [⟨0, body, receives, place⟩]
  nextId := 1
  keyed := List.nodup_singleton _
  bound := by simp

def drained : Queue String := ⟨5, [], 1, List.nodup_nil, nofun⟩

def duo (queue : Queue String) (store : Store) (tried : List Nat) (pc₀ pc₁ : ConsumerPc Call) :
    State where
  queue := queue
  store := store
  tried := tried
  consumers := Function.update (Function.update (Site.empty 5 Store.empty).consumers
    0 ⟨⟨10, 5⟩, pc₀, false⟩) 1 ⟨⟨10, 5⟩, pc₁, false⟩

theorem duo_idle (h₀ : pc₀.call? = none) (h₁ : pc₁.call? = none) (c : ConsumerId) :
    ((duo queue store tried pc₀ pc₁).consumers c).pc.call? = none := by
  by_cases hc₁ : c = 1
  · simpa [duo, hc₁] using h₁
  by_cases hc₀ : c = 0
  · simpa [duo, hc₀] using h₀
  simp [duo, hc₀, hc₁, Site.empty, ConsumerPc.call?]

theorem duo_pc₀ : ((duo queue store tried pc₀ pc₁).consumers 0).pc = pc₀ := by simp [duo]

theorem duo_running₀ : ((duo queue store tried pc₀ pc₁).consumers 0).shutdown = false := by
  simp [duo]

/-- Consumer 0 moves on, and with it the queue, the store or the log. -/
theorem duo_step₀ (h : (duo queue store tried pc₀ pc₁).step (handle config) action =
      some ((duo queue' store' tried' pc₀ pc₁).goto 0 pc)) :
    (duo queue store tried pc₀ pc₁).step (handle config) action =
      some (duo queue' store' tried' pc pc₁) := by
  rw [h]
  simp only [Site.goto, Site.put, duo, Function.update_self, ne_eq, zero_ne_one, not_false_eq_true,
    Function.update_of_ne]
  rw [Function.update_comm zero_ne_one, Function.update_idem, Function.update_comm zero_ne_one]

theorem duo_step₁ (h : (duo queue store tried pc₀ pc₁).step (handle config) action =
      some ((duo queue' store' tried' pc₀ pc₁).goto 1 pc)) :
    (duo queue store tried pc₀ pc₁).step (handle config) action =
      some (duo queue' store' tried' pc₀ pc) := by
  rw [h]
  simp only [Site.goto, Site.put, duo, Function.update_self, Function.update_idem]

section
variable {delivery : Delivery String} {rest : List (Delivery String)} {call : Call}
  {progress : Progress Call}

theorem duo_next₀ (h : (handle config).open_ 5 delivery rest = pc) :
    (duo queue store tried (.batch (delivery :: rest)) pc₁).step (handle config) (.consumer 0 .next) =
      some (duo queue store (delivery.id :: tried) pc pc₁) :=
  duo_step₀ (Site.step_next _ duo_pc₀ (by simp [duo]) (by simpa [duo] using h))

theorem duo_next₁ (h : (handle config).open_ 5 delivery rest = pc) :
    (duo queue store tried pc₀ (.batch (delivery :: rest))).step (handle config) (.consumer 1 .next) =
      some (duo queue store (delivery.id :: tried) pc₀ pc) :=
  have hpc : ((duo queue store tried pc₀ (.batch (delivery :: rest))).consumers 1).pc =
    .batch (delivery :: rest) := by simp [duo]
  duo_step₁ (Site.step_next _ hpc (by simp [duo]) (by simpa [duo] using h))

theorem duo_handle₀ (h : step config store call answer = some (store', progress)) :
    (duo queue store tried (.handling delivery event call rest) pc₁).step (handle config)
      (.consumer 0 (.handle answer)) =
      some (duo queue store' tried (progress.pc delivery event rest) pc₁) :=
  duo_step₀ (Site.step_handle _ duo_pc₀ h)

theorem duo_handle₁ (h : step config store call answer = some (store', progress)) :
    (duo queue store tried pc₀ (.handling delivery event call rest)).step (handle config)
      (.consumer 1 (.handle answer)) =
      some (duo queue store' tried pc₀ (progress.pc delivery event rest)) :=
  duo_step₁ (Site.step_handle _ (by simp [duo]) h)

end

def defaultConfig : Config := ⟨172800, false⟩

def claimedStore (key value : String) : Store := Store.empty.claim defaultConfig key value

def turnedStore (key value : String) : Store := (claimedStore key value).note (.duplicate key 0)

def timedOut : Exc := .plain "TimeoutError" "timed out"

theorem find_claimedStore :
    (claimedStore key value).find key = some ⟨key, value, 172800000, 0⟩ := by
  simp [claimedStore, Store.claim, Store.find, Store.empty, Store.note, defaultConfig]

theorem step_claim : step defaultConfig .empty (.claiming key value payload) (.set .ok) =
    some (claimedStore key value, .continues (.claimed key 0 payload)) := by
  simp [step, Store.set, Store.find, Store.empty, claimedStore]

theorem step_set :
    step defaultConfig (claimedStore key value) (.claiming key value payload) (.set .ok) =
    some (turnedStore key value, .continues (.duplicate key)) := by
  simp [step, Store.set, find_claimedStore, turnedStore]

theorem step_get :
    step defaultConfig store (.duplicate key) (.get .ok) = some (store, .returned) := rfl

theorem step_send (hsend : sendable payload = .ok ()) :
    step defaultConfig (claimedStore key value) (.claimed key 0 payload) (.send (.ok ())) =
      some ((claimedStore key value).note (.sent key 0 0), .returned) := by
  simp [step, defaultConfig, hsend, claimedStore, Store.claim, Store.empty, Store.note]

theorem step_del : step defaultConfig store (.releasing key 0 timedOut) (.del .ok) =
    some (store.del key 0, .raised timedOut) := rfl

theorem reaches_move (h : (machine config).Reaches C s t) (action : Action) (hc : C t action)
    (hs : t.step (handle config) action = some s') : (machine config).Reaches C s s' :=
  .next action h hc hs

/-- The first delivery claims; the second, made when its visibility timeout
has run out, is turned away and deletes the message; then the first send raises. -/
theorem reaches_overlap (hsend : sendable payload = .ok ())
    (hopen : ∀ receipt, (handle defaultConfig).open_ 5 ⟨0, receipt, body⟩ [] =
      .handling ⟨0, receipt, body⟩ event (.claiming key value payload) []) :
    (machine defaultConfig).Reaches Smooth (duo (holding body 0 .visible) .empty [] .polling .polling)
      (duo drained ((turnedStore key value).del key 0) [0, 0] (.batch []) (.batch [])) := by
  have step_send : step defaultConfig (turnedStore key value) (.claimed key 0 payload)
      (.send (.error timedOut)) =
      some (turnedStore key value, .continues (.releasing key 0 timedOut)) := by
    simp [step, defaultConfig, hsend]
  let start := duo (holding body 0 .visible) .empty [] .polling .polling
  have h₁ : (machine defaultConfig).Reaches Smooth start (duo (holding body 1 .inFlight) .empty []
      (.batch [⟨0, 1, body⟩]) .polling) :=
    reaches_move .refl (.consumer 0 (.receive [0] true)) trivial (duo_step₀ rfl)
  have h₂ : (machine defaultConfig).Reaches Smooth start (duo (holding body 1 .inFlight) .empty [0]
      (.handling ⟨0, 1, body⟩ event (.claiming key value payload) []) .polling) :=
    reaches_move h₁ (.consumer 0 .next) trivial (duo_next₀ (hopen 1))
  have h₃ : (machine defaultConfig).Reaches Smooth start (duo (holding body 1 .inFlight)
      (claimedStore key value) [0] (.handling ⟨0, 1, body⟩ event (.claimed key 0 payload) [])
      .polling) :=
    reaches_move h₂ (.consumer 0 (.handle (.set .ok))) rfl
      (duo_handle₀ step_claim)
  have h₄ : (machine defaultConfig).Reaches Smooth start (duo (holding body 1 .visible)
      (claimedStore key value) [0] (.handling ⟨0, 1, body⟩ event (.claimed key 0 payload) [])
      .polling) :=
    reaches_move h₃ (.expire 0) trivial rfl
  have h₅ : (machine defaultConfig).Reaches Smooth start (duo (holding body 2 .inFlight)
      (claimedStore key value) [0] (.handling ⟨0, 1, body⟩ event (.claimed key 0 payload) [])
      (.batch [⟨0, 2, body⟩])) :=
    reaches_move h₄ (.consumer 1 (.receive [0] true)) trivial (duo_step₁ rfl)
  have h₆ : (machine defaultConfig).Reaches Smooth start (duo (holding body 2 .inFlight)
      (claimedStore key value) [0, 0] (.handling ⟨0, 1, body⟩ event (.claimed key 0 payload) [])
      (.handling ⟨0, 2, body⟩ event (.claiming key value payload) [])) :=
    reaches_move h₅ (.consumer 1 .next) trivial (duo_next₁ (hopen 2))
  have h₇ : (machine defaultConfig).Reaches Smooth start (duo (holding body 2 .inFlight)
      (turnedStore key value) [0, 0] (.handling ⟨0, 1, body⟩ event (.claimed key 0 payload) [])
      (.handling ⟨0, 2, body⟩ event (.duplicate key) [])) :=
    reaches_move h₆ (.consumer 1 (.handle (.set .ok))) rfl
      (duo_handle₁ step_set)
  have h₈ : (machine defaultConfig).Reaches Smooth start (duo (holding body 2 .inFlight)
      (turnedStore key value) [0, 0] (.handling ⟨0, 1, body⟩ event (.claimed key 0 payload) [])
      (.deleting ⟨0, 2, body⟩ event [])) :=
    reaches_move h₇ (.consumer 1 (.handle (.get .ok))) rfl (duo_handle₁ step_get)
  have h₉ : (machine defaultConfig).Reaches Smooth start (duo drained
      (turnedStore key value) [0, 0] (.handling ⟨0, 1, body⟩ event (.claimed key 0 payload) [])
      (.batch [])) :=
    reaches_move h₈ (.consumer 1 (.delete false true)) trivial (duo_step₁ rfl)
  have h₁₀ : (machine defaultConfig).Reaches Smooth start (duo drained
      (turnedStore key value) [0, 0]
      (.handling ⟨0, 1, body⟩ event (.releasing key 0 timedOut) []) (.batch [])) :=
    reaches_move h₉ (.consumer 0 (.handle (.send (.error timedOut)))) trivial
      (duo_handle₀ step_send)
  exact reaches_move h₁₀ (.consumer 0 (.handle (.del .ok))) rfl
    (duo_handle₀ step_del)

/-- Nothing fails or is released, no time passes, and calls start one at a time. -/
def Calm (s : State) : Action → Prop
  | .deliver _ | .expire _ => True
  | .consumer _ (.start _) | .consumer _ (.receive _ _) | .consumer _ (.delete _ _) => True
  | .consumer _ .next => ∀ c, (s.consumers c).pc.call? = none
  | .consumer _ (.handle (.set reply)) | .consumer _ (.handle (.get reply)) => reply = .ok
  | .consumer _ (.handle (.send _)) => True
  | _ => False

theorem Calm.uncontested (h : Calm s action) : Uncontested s action := by
  unfold Calm at h
  split at h
  all_goals first | exact h.elim | exact ⟨trivial, trivial⟩ | exact ⟨h, trivial⟩

theorem reaches_duo : (machine config).Reaches Calm (.empty 5 .empty)
    (duo (holding body 0 .visible) .empty [] .polling .polling) :=
  .next (.consumer 1 (.start ⟨10, 5⟩)) (.next (.consumer 0 (.start ⟨10, 5⟩))
    (.next (.deliver body) .refl trivial rfl) trivial rfl) trivial rfl

/-- The first delivery claims. -/
theorem reaches_claimed (hopen : ∀ receipt, (handle defaultConfig).open_ 5 ⟨0, receipt, body⟩ [] =
      .handling ⟨0, receipt, body⟩ event (.claiming key value payload) []) :
    (machine defaultConfig).Reaches Calm
      (duo (holding body 0 .visible) .empty [] .polling .polling)
      (duo (holding body 1 .inFlight) (claimedStore key value) [0]
        (.handling ⟨0, 1, body⟩ event (.claimed key 0 payload) []) .polling) := by
  let start := duo (holding body 0 .visible) .empty [] .polling .polling
  have h₁ : (machine defaultConfig).Reaches Calm start (duo (holding body 1 .inFlight) .empty []
      (.batch [⟨0, 1, body⟩]) .polling) :=
    reaches_move .refl (.consumer 0 (.receive [0] true)) trivial (duo_step₀ rfl)
  have h₂ : (machine defaultConfig).Reaches Calm start (duo (holding body 1 .inFlight) .empty [0]
      (.handling ⟨0, 1, body⟩ event (.claiming key value payload) []) .polling) :=
    reaches_move h₁ (.consumer 0 .next) (duo_idle rfl rfl) (duo_next₀ (hopen 1))
  exact reaches_move h₂ (.consumer 0 (.handle (.set .ok))) rfl (duo_handle₀ step_claim)

/-- It sends and deletes the message. -/
theorem reaches_sent (hsend : sendable payload = .ok ()) :
    (machine defaultConfig).Reaches Calm
      (duo (holding body 1 .inFlight) (claimedStore key value) [0]
        (.handling ⟨0, 1, body⟩ event (.claimed key 0 payload) []) .polling)
      (duo drained ((claimedStore key value).note (.sent key 0 0)) [0] (.batch []) .polling) := by
  have hsent : (machine defaultConfig).Reaches Calm
      (duo (holding body 1 .inFlight) (claimedStore key value) [0]
        (.handling ⟨0, 1, body⟩ event (.claimed key 0 payload) []) .polling)
      (duo (holding body 1 .inFlight) ((claimedStore key value).note (.sent key 0 0)) [0]
        (.deleting ⟨0, 1, body⟩ event []) .polling) :=
    reaches_move .refl (.consumer 0 (.handle (.send (.ok ())))) trivial
      (duo_handle₀ (step_send hsend))
  exact reaches_move hsent (.consumer 0 (.delete false true)) trivial (duo_step₀ rfl)

theorem mem_duo_holding : (0, body) ∈
    (duo (holding body receives place) store tried pc₀ pc₁).queue.contents := List.mem_cons_self

theorem not_sent_turnedStore : ¬((turnedStore key value).del key 0).Sent key := by
  rintro ⟨claim, now, hsent⟩
  rcases mem_history_del hsent with hsent | ⟨_, heq⟩
  · simp [turnedStore, claimedStore, Store.claim, Store.note, Store.empty] at hsent
  · cases heq

end

theorem start_buildMessage (h : event.payload = buildPayload order) : start (buildMessage event) =
    .ok (.claiming (notifyKey order.id.str) event.id.str event.payload) := by
  simp [start, keyOf, buildMessage_payload, h, buildPayload_orderId, formatted, buildMessage_eventId,
    redisValue, bind, Except.bind, pure, Except.pure]

theorem sendable_buildPayload : sendable (buildPayload order) = .ok () := rfl

theorem concerns_of_unwrap (h : event.payload = buildPayload order)
    (hbody : unwrap depth body = .ok (buildMessage event)) : Concerns body order.id.str :=
  ⟨buildMessage event, event.payload, ⟨depth, Except.bind_eq_ok.mpr ⟨_, hbody, rfl⟩⟩, buildMessage_payload,
    h ▸ buildPayload_orderId⟩

theorem open_of_unwrap (h : event.payload = buildPayload order)
    (hbody : unwrap depth body = .ok (buildMessage event)) (receipt : Nat) :
    (handle config).open_ depth ⟨0, receipt, body⟩ [] = .handling ⟨0, receipt, body⟩
      (buildMessage event) (.claiming (notifyKey order.id.str) event.id.str event.payload) [] := by
  have hparse : parseBody depth body = .ok (buildMessage event) := Except.bind_eq_ok.mpr ⟨_, hbody, rfl⟩
  have hstart : (handle config).start (buildMessage event) = _ := start_buildMessage h
  simp only [Handler.open_, hparse, hstart]

theorem keyboardRow_payload :
    keyboardRow.payload = buildPayload (createOrder false ⟨1⟩ placedAt keyboardOrder).1 := rfl

theorem notLost_sent : ∃ t s, (machine defaultConfig).Reaches Uncontested (.empty 5 .empty) t ∧
    (machine defaultConfig).Reaches Uncontested t s ∧ NotLost t s ∧
    s.store.Sent (notifyKey (UUID.str ⟨1⟩)) := by
  have hbody := unwrap_keyboardBody (Nat.le_add_right 3 2)
  have hduo : (machine defaultConfig).Reaches Uncontested (.empty 5 .empty)
      (duo (holding keyboardBody 0 .visible) .empty [] .polling .polling) :=
    reaches_duo.mono fun _ _ hc => hc.uncontested
  have hrun := ((reaches_claimed (open_of_unwrap keyboardRow_payload hbody)).trans
    (reaches_sent (keyboardRow_payload ▸ sendable_buildPayload))).mono fun _ _ hc => hc.uncontested
  have hsent := notLost_of_reaches hduo hrun
  exact ⟨_, _, hduo, hrun, hsent, (hsent _ ⟨_, mem_duo_holding,
    concerns_of_unwrap keyboardRow_payload hbody⟩ nofun).2 (duo_idle rfl rfl)⟩

/-- Without a kill, a Redis failure or an expiry a notification is lost. -/
theorem not_notLost_overlap : ¬∀ t s, (machine defaultConfig).Reaches Smooth (.empty 5 .empty) t →
    (machine defaultConfig).Reaches Smooth t s → NotLost t s := by
  intro h
  have hbody := unwrap_keyboardBody (Nat.le_add_right 3 2)
  have hrun := reaches_overlap (keyboardRow_payload ▸ sendable_buildPayload)
    (open_of_unwrap keyboardRow_payload hbody)
  have hlost := h _ _ (reaches_duo.mono fun _ _ hc => hc.uncontested.1) hrun _ ⟨_, mem_duo_holding,
    concerns_of_unwrap keyboardRow_payload hbody⟩ nofun
  exact not_sent_turnedStore (hlost.2 (duo_idle rfl rfl))

end OutboxFanout.Notifications
