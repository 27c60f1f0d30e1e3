import OutboxFanout.Projections
import OutboxFanout.Shared.Ownership

/-!
# Nothing keeps a message from being handled

An INSERT waits for another transaction alone, and that for nothing
(`waits_for_commit`). And whatever the consumers of a site are doing, a message
that is not used up can be handled to the end (`exists_handled`): the processes
in the way are stopped, one is started, receives the message once it is
visible, inserts, commits and deletes.
-/

-- ---------------------------------------------------------------------------
-- One message of a queue
-- ---------------------------------------------------------------------------

namespace Queue

variable {β : Type} {q : Queue β}

theorem receive_single (hm : m ∈ q.messages) (hvisible : m.place = .visible)
    (hleft : m.receives < q.limit) : q.receive [m.id] =
      some ([⟨m.id, m.receives + 1, m.body⟩], q.move [m.id] .inFlight 1) := by
  have hsome : q.receivable m.id ≠ none := fun hnone => by
    have hcontra := List.find?_eq_none.mp hnone m hm
    simp [hvisible, hleft] at hcontra
  obtain ⟨m', hm'⟩ := Option.ne_none_iff_exists'.mp hsome
  obtain ⟨rfl, -, -⟩ := receivable_of_mem hm hm'
  simp [receive, hm']

theorem expire_eq_some (hm : m ∈ q.messages) (hplace : m.place = .inFlight) :
    q.expire m.id = some (q.move [m.id] .visible 0) := by
  simp [expire, find_eq hm, hplace]

theorem mem_move (hm : m ∈ q.messages) :
    { m with place, receives := m.receives + n } ∈ (q.move [m.id] place n).messages :=
  List.mem_map.mpr ⟨m, hm, by simp⟩

/-- The message of `key` goes, when it is not dead, and nothing comes. -/
theorem contents_delete (hm : m ∈ q.messages) (hplace : m.place ≠ .dead) {x : Nat × β}
    (hx : x ∈ (q.delete m.id).contents) : x ∈ q.contents ∧ x.1 ≠ m.id := by
  refine ⟨contents_of_delete hx, fun hid => ?_⟩
  obtain ⟨m', hm', hid', -⟩ := mem_contents.mp hx
  obtain ⟨hold, hkept⟩ := List.mem_filter.mp hm'
  obtain rfl := q.keyed.eq_of_mem hold hm (hid'.trans hid)
  simp [hplace] at hkept

end Queue

namespace OutboxFanout

variable {ν δ ρ : Type} {p : Projection ν δ ρ} {s t : Site (Table ρ) (Insert ν ρ)} {m : Message String}

open OutboxFanout.System (Own own_consumer)

theorem Handler.open_starts {σ η α ε : Type} {handler : Handler σ η α ε} {call : η}
    (hparse : parseBody depth delivery.body = .ok event) (hstart : handler.start event = .ok call) :
    handler.open_ depth delivery rest = .handling delivery event call rest := by
  simp only [Handler.open_, hparse, hstart]

theorem Site.goto_consumer {σ η : Type} {s : Site σ η} {pc : ConsumerPc η} :
    (s.goto c pc).consumers c = { s.consumers c with pc } := by
  simp [Site.goto, Site.put]

namespace Projection

-- ---------------------------------------------------------------------------
-- Making way
-- ---------------------------------------------------------------------------

/-- A process is stopped: its uncommitted row, if it has one, goes with it. -/
theorem exists_kill (p : Projection ν δ ρ) (s : Site (Table ρ) (Insert ν ρ)) (c : ConsumerId) : ∃ table,
    (Site.machine p.handler).Reaches Own s ({ s with store := table }.goto c .down) ∧
    table.pending ⊆ s.store.pending ∧ ((s.consumers c).pc.call? = none → table = s.store) ∧
    ∀ order, s.holders p.inserted? c = some order → table.pending = s.store.pending.erase order := by
  cases hpc : (s.consumers c).pc with
  | handling delivery event call rest =>
    refine ⟨p.handler.die s.store call, .next (.consumer c .kill) .refl own_consumer ?_, ?_, nofun, ?_⟩
    · simp [Site.machine, Site.step, Site.consumerStep, hpc]
    · cases call with
      | inserted record => exact List.erase_subset
      | ready | conflict => exact List.Subset.refl _
    · intro order hholds
      obtain ⟨_, _, record, _, hrecord, hpc'⟩ := handling_of_holder hholds
      rw [hpc] at hpc'
      cases hpc'
      rw [← hrecord]
      rfl
  | _ =>
    refine ⟨s.store, .next (.consumer c .kill) .refl own_consumer ?_, List.Subset.refl _, fun _ => rfl, ?_⟩
    · simp [Site.machine, Site.step, Site.consumerStep, hpc]
    · intro order hholds
      obtain ⟨_, _, _, _, -, hpc'⟩ := handling_of_holder hholds
      rw [hpc] at hpc'
      cases hpc'

theorem exists_free (h : Owned p s.store (s.holders p.inserted?)) (order : UUID) :
    ∃ t, (Site.machine p.handler).Reaches Own s t ∧ t.queue = s.queue ∧ order ∉ t.store.pending := by
  by_cases hpending : order ∈ s.store.pending
  · obtain ⟨c, hholder⟩ := h.owner order hpending
    obtain ⟨table, hreach, -, -, herase⟩ := exists_kill p s c
    refine ⟨_, hreach, rfl, ?_⟩
    show order ∉ table.pending
    rw [herase order hholder, h.nodup.mem_erase_iff]
    exact fun hmem => hmem.1 rfl
  · exact ⟨s, .refl, rfl, hpending⟩

/-- A new process polls. -/
theorem exists_polling (p : Projection ν δ ρ) (s : Site (Table ρ) (Insert ν ρ)) (c : ConsumerId)
    (depth : Nat) : ∃ t, (Site.machine p.handler).Reaches Own s t ∧ t.queue = s.queue ∧
      t.store.pending ⊆ s.store.pending ∧ ((s.consumers c).pc.call? = none → t.store = s.store) ∧
      t.consumers = Function.update s.consumers c ⟨⟨1, depth⟩, .polling, false⟩ := by
  obtain ⟨table, hreach, hpending, hsame, -⟩ := exists_kill p s c
  have hstart : (Site.machine p.handler).step ({ s with store := table }.goto c .down)
      (.consumer c (.start ⟨1, depth⟩)) =
        some (({ s with store := table }.goto c .down).put c ⟨⟨1, depth⟩, .polling, false⟩) := by
    simp [Site.machine, Site.step, Site.consumerStep, Site.goto_consumer]
  exact ⟨_, .next _ hreach own_consumer hstart, rfl, hpending, hsame,
    by simp [Site.put, Site.goto]⟩

/-- The visibility timeout runs out, if it is running. -/
theorem exists_visible (p : Projection ν δ ρ) (hm : m ∈ s.queue.messages) (hplace : m.place ≠ .dead) :
    ∃ queue : Queue String, (Site.machine p.handler).Reaches Own s { s with queue } ∧
      { m with place := .visible } ∈ queue.messages ∧ queue.limit = s.queue.limit ∧
      queue.contents = s.queue.contents := by
  cases hat : m.place with
  | visible =>
    refine ⟨s.queue, .refl, ?_, rfl, rfl⟩
    rwa [← hat]
  | inFlight =>
    refine ⟨s.queue.move [m.id] .visible 0, .next (.expire m.id) .refl ⟨nofun, nofun⟩ ?_,
      Queue.mem_move hm, rfl, Queue.contents_move⟩
    simp [Site.machine, Site.step, Queue.expire_eq_some hm hat]
  | dead => exact absurd hat hplace

-- ---------------------------------------------------------------------------
-- From the receive to the delete
-- ---------------------------------------------------------------------------

/-- An answer of the store, and where it leaves the consumer. -/
theorem exists_answered (hpc : (s.consumers c).pc = .handling delivery event call rest)
    (hstep : p.step s.store call answer = some (table, progress)) : ∃ t,
      (Site.machine p.handler).Reaches Own s t ∧ (t.consumers c).pc = progress.pc delivery event rest ∧
      t.store = table ∧ t.queue = s.queue ∧ ∀ c', c' ≠ c → t.consumers c' = s.consumers c' :=
  ⟨_, .next (.consumer c (.handle answer)) .refl own_consumer (Site.step_handle p.handler hpc hstep),
    congrArg Consumer.pc Site.goto_consumer, rfl, rfl, fun _ hne => Function.update_of_ne hne _ _⟩

theorem step_insert (draws : δ) (hholds : ¬p.Holds table (p.orderId values))
    (hfree : p.orderId values ∉ table.pending) : p.step table (.ready values) (.execute draws) =
      some ({ table with pending := p.orderId values :: table.pending },
        .continues (.inserted (p.row values draws))) := by
  simp [Projection.step, hholds, hfree]

/-- The call returns and leaves a row for its order. -/
theorem exists_returned (hpc : (s.consumers c).pc = .handling delivery event (.ready values) rest)
    (hfree : p.orderId values ∉ s.store.pending) (draws : δ) : ∃ t,
      (Site.machine p.handler).Reaches Own s t ∧ (t.consumers c).pc = .deleting delivery event rest ∧
      p.Holds t.store (p.orderId values) ∧ t.queue = s.queue := by
  by_cases hholds : p.Holds s.store (p.orderId values)
  · have hconflict : p.step s.store (.ready values) (.execute draws) =
        some (s.store, .continues (.conflict (p.orderId values))) := by
      simp [Projection.step, hholds]
    obtain ⟨t, hreach, hpc, hstore, hqueue, -⟩ := exists_answered hpc hconflict
    have hcommit : p.step t.store (.conflict (p.orderId values)) (.commit .done : InsertAnswer δ) =
        some (t.store, .returned) := rfl
    obtain ⟨u, hreach', hpc, hstore', hqueue', -⟩ := exists_answered hpc hcommit
    refine ⟨u, hreach.trans hreach', hpc, ?_, hqueue'.trans hqueue⟩
    rwa [hstore', hstore]
  · obtain ⟨t, hreach, hpc, hstore, hqueue, -⟩ := exists_answered hpc (step_insert draws hholds hfree)
    have hcommit : p.step t.store (.inserted (p.row values draws)) (.commit .done) =
        some (p.commit t.store (p.row values draws), .returned) := rfl
    obtain ⟨u, hreach', hpc, hstore', hqueue', -⟩ := exists_answered hpc hcommit
    refine ⟨u, hreach.trans hreach', hpc, ?_, hqueue'.trans hqueue⟩
    rw [hstore', ← p.rowOrderId_row values draws]
    exact commit_holds

theorem start_of_read (h : p.read event = .ok values) : p.handler.start event = .ok (.ready values) := by
  simp [handler, h, Except.map]

/-- Some interpreter reads the body as an event with these values. -/
def Opens (p : Projection ν δ ρ) (body : String) (values : ν) : Prop :=
  ∃ depth event, parseBody depth body = .ok event ∧ p.read event = .ok values

/-- A consumer that polls takes the message and calls the handler. -/
theorem exists_ready (hconsumer : s.consumers c = ⟨⟨1, depth⟩, .polling, false⟩)
    (hm : m ∈ s.queue.messages) (hvisible : m.place = .visible) (hleft : m.receives < s.queue.limit)
    (hparse : parseBody depth m.body = .ok event) (hread : p.read event = .ok values) : ∃ t,
      (Site.machine p.handler).Reaches Own s t ∧
      (t.consumers c).pc = .handling ⟨m.id, m.receives + 1, m.body⟩ event (.ready values) [] ∧
      t.store = s.store ∧ t.queue = s.queue.move [m.id] .inFlight 1 ∧
      ∀ c', c' ≠ c → t.consumers c' = s.consumers c' := by
  let d : Delivery String := ⟨m.id, m.receives + 1, m.body⟩
  let taken : Site (Table ρ) (Insert ν ρ) :=
    { s with queue := s.queue.move [m.id] .inFlight 1 }.goto c (.batch [d])
  have hreceive : (Site.machine p.handler).step s (.consumer c (.receive [m.id] true)) = some taken := by
    simp [Site.machine, Site.step, Site.consumerStep, hconsumer,
      Queue.receive_single hm hvisible hleft, taken, d]
  have htaken : taken.consumers c = ⟨⟨1, depth⟩, .batch [d], false⟩ := by
    rw [Site.goto_consumer, hconsumer]
  have hopen : p.handler.open_ (taken.consumers c).config.depth d [] =
      .handling d event (.ready values) [] := by
    rw [htaken]
    exact Handler.open_starts hparse (start_of_read hread)
  have hnext := Site.step_next p.handler (by rw [htaken]) (by rw [htaken]) hopen
  refine ⟨_, .next (.consumer c .next) (.next (.consumer c (.receive [m.id] true)) .refl own_consumer
    hreceive) own_consumer hnext, congrArg Consumer.pc Site.goto_consumer, rfl, rfl, fun c' hne => ?_⟩
  simp [Site.goto, Site.put, hne, taken]

theorem exists_deleted (hpc : (s.consumers c).pc = .deleting delivery event rest) : ∃ t,
    (Site.machine p.handler).Reaches Own s t ∧ t.store = s.store ∧
      t.queue = s.queue.delete delivery.id := by
  refine ⟨{ s with queue := s.queue.delete delivery.id }.goto c (.batch rest),
    .next (.consumer c (.delete false true)) .refl own_consumer ?_, rfl, rfl⟩
  simp [Site.machine, Site.step, Site.consumerStep, hpc]

/-- The message can be handled and deleted. -/
theorem exists_handled (h : Owned p s.store (s.holders p.inserted?)) (hm : m ∈ s.queue.messages)
    (hplace : m.place ≠ .dead) (hleft : m.receives < s.queue.limit) (hopens : p.Opens m.body values)
    (draws : δ) : ∃ t, (Site.machine p.handler).Reaches Own s t ∧
      p.Holds t.store (p.orderId values) ∧
      ∀ x ∈ t.queue.contents, x ∈ s.queue.contents ∧ x.1 ≠ m.id := by
  obtain ⟨depth, event, hparse, hread⟩ := hopens
  obtain ⟨t₁, hreach₁, hqueue₁, hfree₁⟩ := exists_free h (p.orderId values)
  obtain ⟨t₂, hreach₂, hqueue₂, hpending₂, -, hconsumers⟩ := exists_polling p t₁ 0 depth
  have hqueue : t₂.queue = s.queue := hqueue₂.trans hqueue₁
  obtain ⟨queue, hreach₃, hvisible, hlimit, hcontents⟩ :=
    exists_visible p (s := t₂) (hqueue ▸ hm) hplace
  obtain ⟨t₄, hreach₄, hpc₄, hstore₄, hqueue₄, -⟩ := exists_ready (p := p) (s := { t₂ with queue })
    (by rw [hconsumers, Function.update_self]) hvisible rfl (by simpa [hlimit, hqueue] using hleft) hparse hread
  have hfree : p.orderId values ∉ t₄.store.pending := by
    rw [hstore₄]
    exact fun hmem => hfree₁ (hpending₂ hmem)
  obtain ⟨t₅, hreach₅, hpc₅, hholds, hqueue₅⟩ := exists_returned hpc₄ hfree draws
  obtain ⟨t₆, hreach₆, hstore₆, hqueue₆⟩ := exists_deleted (p := p) hpc₅
  have hreach := ((((hreach₁.trans hreach₂).trans hreach₃).trans hreach₄).trans hreach₅).trans hreach₆
  refine ⟨t₆, hreach, hstore₆ ▸ hholds, fun x hx => ?_⟩
  rw [hqueue₆, hqueue₅, hqueue₄] at hx
  have hmoved : ⟨m.id, m.body, m.receives + 1, .inFlight⟩ ∈ (queue.move [m.id] .inFlight 1).messages :=
    Queue.mem_move (m := { m with place := .visible }) hvisible
  obtain ⟨hx, hid⟩ := Queue.contents_delete hmoved nofun hx
  rw [Queue.contents_move] at hx
  exact ⟨hqueue ▸ hcontents ▸ hx, hid⟩

-- ---------------------------------------------------------------------------
-- An INSERT waits for a commit, and a commit for nothing
-- ---------------------------------------------------------------------------

/-- The INSERT of the consumer's call cannot be answered yet. -/
def Waits (p : Projection ν δ ρ) (s : Site (Table ρ) (Insert ν ρ)) (c : ConsumerId) : Prop :=
  ∃ values draws, (s.consumers c).pc.call? = some (.ready values) ∧
    p.step s.store (.ready values) (.execute draws) = none

theorem pending_of_none (h : p.step table (.ready values) (.execute draws) = none) :
    p.orderId values ∈ table.pending := by
  simp only [Projection.step] at h
  split at h
  · cases h
  · split at h
    · assumption
    · cases h

theorem not_waits_put {t : Site (Table ρ) (Insert ν ρ)} (hne : c ≠ c')
    (hpc : (s.consumers c).pc.call? = some (.ready values)) (ht : t.consumers = s.consumers)
    (hfree : p.orderId values ∉ t.store.pending) : ¬Waits p (t.put c' q) c := by
  rintro ⟨values', draws, hcall, hnone⟩
  obtain rfl : values = values' := by simpa [Site.put, hne, ht, hpc] using hcall
  exact hfree (pending_of_none hnone)

/-- How a transaction ends: by its commit, or with its process. -/
def Ends (action : ConsumerAction (InsertAnswer δ)) : Prop :=
  action = .kill ∨ ∃ outcome, action = .handle (.commit outcome)

/-- An INSERT waits for the transaction of another consumer alone, which waits
for nothing: however that ends, the INSERT goes on. -/
theorem waits_for_commit (h : (Site.machine p.handler).Reaches C (.empty limit .empty) s)
    (hwaits : Waits p s c) : ∃ c', c' ≠ c ∧ ¬Waits p s c' ∧ ∀ action, Ends action →
      ∃ s', (Site.machine p.handler).step s (.consumer c' action) = some s' ∧ ¬Waits p s' c := by
  have howned := owned_of_reaches h
  obtain ⟨values, draws, hcall, hnone⟩ := hwaits
  obtain ⟨c', hholder⟩ := howned.owner _ (pending_of_none hnone)
  obtain ⟨delivery, event, record, rest, hrecord, hpc⟩ := handling_of_holder hholder
  have hne : c ≠ c' := by
    rintro rfl
    rw [hpc] at hcall
    cases hcall
  have hfree : p.orderId values ∉ s.store.pending.erase (p.rowOrderId record) := by
    rw [hrecord, howned.nodup.mem_erase_iff]
    exact fun hmem => hmem.1 rfl
  refine ⟨c', hne.symm, ?_, ?_⟩
  · rintro ⟨_, _, hready, -⟩
    rw [hpc] at hready
    cases hready
  · rintro action (rfl | ⟨outcome, rfl⟩)
    · have hstep : (Site.machine p.handler).step s (.consumer c' .kill) =
          some ({ s with store := p.release s.store record }.goto c' .down) := by
        simp [Site.machine, Site.step, Site.consumerStep, hpc, Projection.handler]
      exact ⟨_, hstep, not_waits_put hne hcall rfl hfree⟩
    · have hstep : ∃ table progress, p.step s.store (.inserted record) (.commit outcome) =
          some (table, progress) ∧ table.pending = s.store.pending.erase (p.rowOrderId record) := by
        cases outcome with
        | done | lost | refused => exact ⟨_, _, rfl, rfl⟩
      obtain ⟨table, progress, hcommit, hpending⟩ := hstep
      exact ⟨_, Site.step_handle p.handler hpc hcommit, not_waits_put hne hcall rfl (hpending ▸ hfree)⟩

/-- Two consumers have a copy each; one has inserted and not committed. -/
theorem exists_waits (hopens : p.Opens body values) (draws : δ) : ∃ s,
    (Site.machine p.handler).Reaches Machine.anyStep (.empty 5 .empty) s ∧ Waits p s 1 := by
  obtain ⟨depth, event, hparse, hread⟩ := hopens
  let s₀ : Site (Table ρ) (Insert ν ρ) :=
    { Site.empty 5 .empty with queue := ((Queue.empty 5).send body).send body }
  have hreach₀ : (Site.machine p.handler).Reaches Machine.anyStep (.empty 5 .empty) s₀ :=
    .next (.deliver body) (.next (.deliver body) .refl trivial rfl) trivial rfl
  obtain ⟨t₁, hreach₁, hqueue₁, -, hstore₁, hconsumers₁⟩ := exists_polling p s₀ 0 depth
  obtain ⟨t₂, hreach₂, hpc₂, hstore₂, hqueue₂, hothers₂⟩ := exists_ready (p := p) (c := 0)
    (m := ⟨0, body, 0, .visible⟩) (by rw [hconsumers₁, Function.update_self])
    (by rw [hqueue₁]; exact List.mem_cons_self) rfl (by rw [hqueue₁]; exact Nat.succ_pos 4) hparse hread
  have hempty : t₂.store = .empty := hstore₂.trans (hstore₁ rfl)
  obtain ⟨t₃, hreach₃, -, hstore₃, hqueue₃, hothers₃⟩ := exists_answered hpc₂
    (step_insert draws (by rw [hempty]; exact nofun) (by rw [hempty]; exact List.not_mem_nil))
  have hidle : (t₃.consumers 1).pc.call? = none := by
    rw [hothers₃ 1 (by decide), hothers₂ 1 (by decide), hconsumers₁]
    rfl
  obtain ⟨t₄, hreach₄, hqueue₄, -, hstore₄, hconsumers₄⟩ := exists_polling p t₃ 1 depth
  have hqueue : t₄.queue = s₀.queue.move [0] .inFlight 1 := by
    rw [hqueue₄, hqueue₃, hqueue₂, hqueue₁]
  obtain ⟨t₅, hreach₅, hpc₅, hstore₅, -⟩ := exists_ready (p := p) (c := 1) (m := ⟨1, body, 0, .visible⟩)
    (by rw [hconsumers₄, Function.update_self])
    (by rw [hqueue]; exact List.mem_cons_of_mem _ List.mem_cons_self) rfl
    (by rw [hqueue]; exact Nat.succ_pos 4) hparse hread
  have hstore : t₅.store = ⟨[], [p.orderId values]⟩ := by
    rw [hstore₅, hstore₄ hidle, hstore₃, hempty]
    rfl
  have hreach := (((hreach₁.trans hreach₂).trans hreach₃).trans hreach₄).trans hreach₅
  refine ⟨t₅, hreach₀.trans (hreach.mono fun _ _ _ => trivial), values, draws, by rw [hpc₅]; rfl, ?_⟩
  simp [hstore, Projection.step, Projection.Holds]

theorem waits_for_commit_copies : ∃ s : System.BillingSite, Waits Billing.projection s 1 ∧
    ∃ c, c ≠ 1 ∧ ¬Waits Billing.projection s c := by
  have hpayload : keyboardRow.payload =
    buildPayload (createOrder false ⟨1⟩ placedAt keyboardOrder).1 := rfl
  have hparse : parseBody 5 keyboardBody = .ok (buildMessage keyboardRow) :=
    Except.bind_eq_ok.mpr ⟨_, unwrap_keyboardBody (by decide),
      Except.bind_eq_ok.mpr ⟨_, buildMessage_eventId, rfl⟩⟩
  obtain ⟨s, hreach, hwaits⟩ := exists_waits (p := Billing.projection)
    ⟨5, _, hparse, Billing.read_ok hpayload createOrder_fits⟩ ⟨⟨3⟩, placedAt⟩
  obtain ⟨c, hne, hruns, -⟩ := waits_for_commit hreach hwaits
  exact ⟨s, hwaits, c, hne, hruns⟩

end Projection

end OutboxFanout
