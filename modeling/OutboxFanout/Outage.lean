import OutboxFanout.Attempts
import OutboxFanout.Lib.Run
import OutboxFanout.Notifications.Loss

/-!
# What an outage of the store costs

The loop leaves every message whose handling raised on the queue, and the queue
counts the deliveries. So a message comes through an outage if it can be
received once more when the store is back, or is in a batch then
(`Site.handled_after_outage`); one that used up its receives against the store
that was down is in the dead letter queue, and is never handled.
-/

namespace OutboxFanout

variable {σ η α ε : Type} {handler : Handler σ η α ε} {s s' : Site σ η} {queue : Queue String}
  {store : σ} {run : (Site.machine handler).Run}

/-- The handler has returned for the message, the delete comes next. -/
def Site.Handled (s : Site σ η) (key : Nat) : Prop :=
  ∃ c delivery event rest, (s.consumers c).pc = .deleting delivery event rest ∧ delivery.id = key

def Site.Receivable (s : Site σ η) (key : Nat) : Prop :=
  ∃ m ∈ s.queue.messages, m.id = key ∧ m.place = .visible ∧ m.receives < s.queue.limit

/-- Its visibility timeout is running, and it can be received again after it. -/
def Site.InFlight (s : Site σ η) (key : Nat) : Prop :=
  ∃ m ∈ s.queue.messages, m.id = key ∧ m.place = .inFlight ∧ m.receives < s.queue.limit

/-- The process passes the head of its batch to `_handle_one`. -/
structure Tries (run : (Site.machine handler).Run) (n : Nat) (c : ConsumerId)
    (delivery : Delivery String) (rest : List (Delivery String)) : Prop where
  pc : ((run.state n).consumers c).pc = .batch (delivery :: rest)
  running : ((run.state n).consumers c).shutdown = false
  action : run.action n = some (.consumer c .next)

/-- From `b` on, SQS and the loops go on with the message: its visibility
timeout ends, it is received while it may be, and a process that has it in its
batch is neither killed nor stopped before its turn. -/
structure Attended (run : (Site.machine handler).Run) (b key : Nat) : Prop where
  expires : ∀ n ≥ b, (run.state n).InFlight key → ∃ k ≥ n, ¬(run.state k).InFlight key
  received : ∀ n ≥ b, (run.state n).Receivable key → ∃ k ≥ n, (run.state k).Waits key
  tried : ∀ n ≥ b, ∀ c delivery rest, ((run.state n).consumers c).pc = .batch (delivery :: rest) →
    key ∈ (delivery :: rest).map Delivery.id → ∃ k ≥ n, Tries run k c delivery rest
  ends : ∀ n ≥ b, ∀ c delivery event call rest,
    ((run.state n).consumers c).pc = .handling delivery event call rest →
    key ∈ rest.map Delivery.id → ∃ k ≥ n, ((run.state k).consumers c).pc = .batch rest ∨
      ((run.state k).consumers c).pc = .deleting delivery event rest
  deleted : ∀ n ≥ b, ∀ c delivery event rest,
    ((run.state n).consumers c).pc = .deleting delivery event rest →
    key ∈ rest.map Delivery.id → ∃ k ≥ n, ((run.state k).consumers c).pc = .batch rest

/-- From `b` on, a call of `_handle_one` on the message gets its handler to return. -/
def GetsHandled (run : (Site.machine handler).Run) (b key : Nat) : Prop :=
  ∀ n ≥ b, ∀ c delivery rest, Tries run n c delivery rest → delivery.id = key →
    ∃ k ≥ n, ∃ event, ((run.state k).consumers c).pc = .deleting delivery event rest

-- ---------------------------------------------------------------------------
-- What is in a batch is tried
-- ---------------------------------------------------------------------------

theorem Site.Waits.of_mem (hpc : (s.consumers c).pc.waiting = rest)
    (h : key ∈ rest.map Delivery.id) : s.Waits key := by
  obtain ⟨d, hd, hid⟩ := List.mem_map.mp h
  exact ⟨c, d, hpc ▸ hd, hid⟩

/-- The process comes to the rest of its batch. -/
theorem Attended.reaches_batch (h : Attended run b key) (hn : b ≤ n)
    (hwaiting : ((run.state n).consumers c).pc.waiting = rest) (hkey : key ∈ rest.map Delivery.id) :
    ∃ k ≥ n, ((run.state k).consumers c).pc = .batch rest := by
  cases hpc : ((run.state n).consumers c).pc with
  | down | polling =>
    rw [hpc] at hwaiting
    obtain rfl : [] = rest := hwaiting
    cases hkey
  | batch rest' =>
    rw [hpc] at hwaiting
    obtain rfl : rest' = rest := hwaiting
    exact ⟨n, le_rfl, hpc⟩
  | handling delivery event call rest' =>
    rw [hpc] at hwaiting
    obtain rfl : rest' = rest := hwaiting
    obtain ⟨k, hk, hbatch | hdeleting⟩ := h.ends n hn c delivery event call rest' hpc hkey
    · exact ⟨k, hk, hbatch⟩
    · obtain ⟨l, hl, hbatch⟩ := h.deleted k (hn.trans hk) c delivery event rest' hdeleting hkey
      exact ⟨l, hk.trans hl, hbatch⟩
  | deleting delivery event rest' =>
    rw [hpc] at hwaiting
    obtain rfl : rest' = rest := hwaiting
    exact h.deleted n hn c delivery event rest' hpc hkey

theorem Tries.waiting_next (h : Tries run n c delivery rest) :
    ((run.state (n + 1)).consumers c).pc.waiting = rest := by
  have hstep : (run.state n).step handler (.consumer c .next) = some (run.state (n + 1)) :=
    run.step_of_action h.action
  rw [Site.step_next handler h.pc h.running rfl] at hstep
  rw [← Option.some.inj hstep]
  simpa [Site.goto, Site.put, -ConsumerPc.waiting] using Handler.open_waiting

/-- By induction on what is left of the batch. -/
theorem Attended.tries (h : Attended run b key) (hn : b ≤ n)
    (hwaiting : ((run.state n).consumers c).pc.waiting = rest) (hkey : key ∈ rest.map Delivery.id) :
    ∃ k ≥ n, ∃ delivery left, Tries run k c delivery left ∧ delivery.id = key := by
  induction rest generalizing n with
  | nil => cases hkey
  | cons delivery rest ih =>
    obtain ⟨k, hk, hbatch⟩ := h.reaches_batch hn hwaiting hkey
    obtain ⟨l, hl, htries⟩ := h.tried k (hn.trans hk) c delivery rest hbatch hkey
    by_cases hid : delivery.id = key
    · exact ⟨l, hk.trans hl, delivery, rest, htries, hid⟩
    · have hlater : n ≤ l + 1 := Nat.le_succ_of_le (hk.trans hl)
      have hrest : key ∈ rest.map Delivery.id :=
        (List.mem_cons.mp hkey).resolve_left fun heq => hid heq.symm
      obtain ⟨j, hj, left⟩ := ih (hn.trans hlater) htries.waiting_next hrest
      exact ⟨j, hlater.trans hj, left⟩

theorem Attended.handled_of_waits (h : Attended run b key) (hback : GetsHandled run b key)
    (hn : b ≤ n) (hwaits : (run.state n).Waits key) : ∃ k ≥ n, (run.state k).Handled key := by
  obtain ⟨c, d, hd, hid⟩ := hwaits
  obtain ⟨k, hk, delivery, rest, htries, hkey⟩ :=
    h.tries hn rfl (List.mem_map.mpr ⟨d, hd, hid⟩)
  obtain ⟨l, hl, event, hpc⟩ := hback k (hn.trans hk) c delivery rest htries hkey
  exact ⟨l, hk.trans hl, c, delivery, event, rest, hpc, hkey⟩

-- ---------------------------------------------------------------------------
-- What a step does to a message
-- ---------------------------------------------------------------------------

/-- What a step does to a message of the queue. -/
inductive Turn (s s' : Site σ η) (action : SiteAction α ε) (m : Message String) : Prop
  | stays (hm : m ∈ s'.queue.messages)
  | handled (hplace : m.place ≠ .dead) (hhandled : s.Handled m.id)
  | received (c : ConsumerId) (ids : List Nat) (answered : Bool)
      (haction : action = .consumer c (.receive ids answered))
      (hplace : m.place = .visible) (hleft : m.receives < s.queue.limit)
      (hm : { m with place := .inFlight, receives := m.receives + 1 } ∈ s'.queue.messages)
      (hwaits : answered = true → s'.Waits m.id)
  | expired (hplace : m.place = .inFlight)
      (hm : { m with place := .visible, receives := m.receives + 0 } ∈ s'.queue.messages)
  | redriven (hplace : m.place = .visible) (hdue : s.queue.limit ≤ m.receives)
      (hm : { m with place := .dead, receives := m.receives + 0 } ∈ s'.queue.messages)

theorem SiteStep.turn (hs : SiteStep handler s action s') (hm : m ∈ s.queue.messages) :
    Turn s s' action m := by
  have hkept : ∀ {ids place n}, m.id ∉ ids → m ∈ (s.queue.move ids place n).messages := fun hout =>
    List.mem_map.mpr ⟨m, hm, if_neg hout⟩
  have hmoved : ∀ {ids place n}, m.id ∈ ids →
      { m with place, receives := m.receives + n } ∈ (s.queue.move ids place n).messages := fun hin =>
    List.mem_map.mpr ⟨m, hm, if_pos hin⟩
  cases hs with
  | @receive c ids deliveries queue answered pc hpc hq hnext =>
    have hmove := (Queue.receive_eq hq).1
    by_cases hin : m.id ∈ ids
    · obtain ⟨hplace, hleft, hd⟩ := Queue.receive_mem hq hm hin
      refine .received c ids answered rfl hplace hleft (hmove ▸ hmoved hin) fun hanswered => ?_
      obtain ⟨-, rfl⟩ := hnext.resolve_right fun hlost => by simp [hanswered] at hlost
      exact ⟨c, _, by simpa [Site.goto, Site.put] using hd, rfl⟩
    · exact .stays (hmove ▸ hkept hin)
  | @delete c delivery event rest raised hpc =>
    by_cases hid : m.id = delivery.id ∧ m.place ≠ .dead
    · exact .handled hid.2 ⟨c, delivery, event, rest, hpc, hid.1.symm⟩
    · refine .stays (List.mem_filter.mpr ⟨hm, ?_⟩)
      by_cases hplace : m.place = .dead
      · simp [hplace]
      · simp [show m.id ≠ delivery.id from fun heq => hid ⟨heq, hplace⟩]
  | deliver => exact .stays (List.mem_append_left _ hm)
  | @expire key queue hq =>
    by_cases hid : m.id = key
    · subst hid
      obtain rfl := Queue.expire_eq hq
      exact .expired (Queue.expire_mem hq hm) (hmoved (List.mem_singleton_self _))
    · exact .stays (Queue.expire_eq hq ▸ hkept (by simpa using hid))
  | @redrive key queue hq =>
    by_cases hid : m.id = key
    · subst hid
      obtain rfl := Queue.redrive_eq hq
      obtain ⟨hplace, hdue⟩ := Queue.redrive_mem hq hm
      exact .redriven hplace hdue (hmoved (List.mem_singleton_self _))
    · exact .stays (Queue.redrive_eq hq ▸ hkept (by simpa using hid))
  | _ => exact .stays hm

/-- Where a message was before the step after which it is on the queue. -/
inductive Origin (s : Site σ η) (m : Message String) : Prop
  | new (hid : s.queue.nextId ≤ m.id) (hplace : m.place = .visible)
  | old (old : Message String) (hold : old ∈ s.queue.messages) (hid : old.id = m.id)
      (hle : old.receives ≤ m.receives)
      (hdead : m.place = .dead → old.place = .dead ∨ s.queue.limit ≤ old.receives)

theorem SiteStep.origin (hs : SiteStep handler s action s') :
    ∀ m ∈ s'.queue.messages, Origin s m := by
  have hsame : ∀ m ∈ s.queue.messages, Origin s m := fun m hm => .old m hm rfl le_rfl .inl
  cases hs with
  | receive hpc hq hnext =>
    rw [Site.goto_queue, (Queue.receive_eq hq).1]
    exact Queue.forall_move (fun m hm _ => .old m hm rfl (Nat.le_succ _) nofun) fun m hm _ => hsame m hm
  | delete hpc => exact fun m hm => hsame m (List.mem_of_mem_filter hm)
  | deliver =>
    intro m hm
    rcases List.mem_append.mp hm with hm | hm
    · exact hsame m hm
    · obtain rfl := List.mem_singleton.mp hm
      exact .new le_rfl rfl
  | expire hq =>
    rw [Queue.expire_eq hq]
    exact Queue.forall_move (fun m hm _ => .old m hm rfl le_rfl nofun) fun m hm _ => hsame m hm
  | redrive hq =>
    rw [Queue.redrive_eq hq]
    refine Queue.forall_move (fun m hm hin => .old m hm rfl le_rfl fun _ => .inr ?_)
      fun m hm _ => hsame m hm
    rw [← List.mem_singleton.mp hin] at hq
    exact (Queue.redrive_mem hq hm).2
  | _ => exact hsame

/-- The message is on the queue or in its dead letter queue. -/
def Site.Holds (s : Site σ η) (key : Nat) : Prop := ∃ m ∈ s.queue.messages, m.id = key

theorem SiteStep.nextId_le (hs : SiteStep handler s action s') :
    s.queue.nextId ≤ s'.queue.nextId := by
  cases hs with
  | receive hpc hq hnext => rw [Site.goto_queue, (Queue.receive_eq hq).1]; exact le_rfl
  | expire hq => rw [Queue.expire_eq hq]; exact le_rfl
  | redrive hq => rw [Queue.redrive_eq hq]; exact le_rfl
  | deliver => exact Nat.le_succ _
  | _ => exact le_rfl

theorem SiteStep.arrives (hs : SiteStep handler s action s') (h : key < s'.queue.nextId) :
    key < s.queue.nextId ∨ s'.Holds key := by
  cases hs with
  | receive hpc hq hnext =>
    rw [Site.goto_queue, (Queue.receive_eq hq).1] at h
    exact .inl h
  | expire hq =>
    rw [Queue.expire_eq hq] at h
    exact .inl h
  | redrive hq =>
    rw [Queue.redrive_eq hq] at h
    exact .inl h
  | deliver =>
    rcases Nat.lt_or_eq_of_le (Nat.le_of_lt_succ h) with h | rfl
    · exact .inl h
    · exact .inr ⟨_, List.mem_append_right _ (List.mem_singleton_self _), rfl⟩
  | _ => exact .inl h

theorem Site.Holds.step (h : s.Holds key) (hs : SiteStep handler s action s') :
    s'.Holds key ∨ s.Handled key := by
  obtain ⟨m, hm, rfl⟩ := h
  cases hs.turn hm with
  | stays hm => exact .inl ⟨m, hm, rfl⟩
  | handled _ hhandled => exact .inr hhandled
  | received _ _ _ _ _ _ hm => exact .inl ⟨_, hm, rfl⟩
  | expired _ hm | redriven _ _ hm => exact .inl ⟨_, hm, rfl⟩

theorem Site.InFlight.step (h : s.InFlight key) (hs : SiteStep handler s action s') :
    s'.InFlight key ∨ s.Handled key ∨ s'.Receivable key := by
  have hlimit := hs.limit_eq
  obtain ⟨m, hm, rfl, hflight, hleft⟩ := h
  cases hs.turn hm with
  | stays hm => exact .inl ⟨m, hm, rfl, hflight, hlimit ▸ hleft⟩
  | handled _ hhandled => exact .inr (.inl hhandled)
  | expired hplace hm => exact .inr (.inr ⟨_, hm, rfl, rfl, hlimit ▸ hleft⟩)
  | received _ _ _ _ hplace | redriven hplace =>
    rw [hflight] at hplace
    cases hplace

/-- What is dead has used up its receives. -/
theorem SiteStep.dead_spent (hs : SiteStep handler s action s')
    (h : ∀ m ∈ s.queue.messages, m.place = .dead → s.queue.limit ≤ m.receives) :
    ∀ m ∈ s'.queue.messages, m.place = .dead → s'.queue.limit ≤ m.receives := by
  intro m hm hdead
  rw [hs.limit_eq]
  cases hs.origin m hm with
  | new hid hplace => rw [hdead] at hplace; cases hplace
  | old old hold hid hle hdead' =>
    rcases hdead' hdead with hdead | hdue
    · exact (h old hold hdead).trans hle
    · exact hdue.trans hle

-- ---------------------------------------------------------------------------
-- What used up its receives is not handled
-- ---------------------------------------------------------------------------

@[simp] def ConsumerPc.inHand : ConsumerPc η → List (Delivery String)
  | .down | .polling => []
  | .batch rest => rest
  | .handling delivery _ _ rest | .deleting delivery _ rest => delivery :: rest

/-- No process has the message in hand, and none will receive it. -/
structure Site.Spent (s : Site σ η) (key : Nat) : Prop where
  arrived : key < s.queue.nextId
  due : ∀ m ∈ s.queue.messages, m.id = key → s.queue.limit ≤ m.receives
  idle : ∀ c, ∀ d ∈ (s.consumers c).pc.inHand, d.id ≠ key

theorem Handler.open_inHand :
    ∀ d ∈ (handler.open_ depth delivery rest).inHand, d ∈ delivery :: rest := by
  refine Handler.open_cases ?_ fun event call _ _ => ?_
  · exact fun d hd => List.mem_cons_of_mem _ hd
  · exact fun d hd => hd

theorem Progress.pc_inHand {progress : Progress η} :
    ∀ d ∈ (progress.pc delivery event rest).inHand, d ∈ delivery :: rest := by
  cases progress with
  | continues call => exact fun d hd => hd
  | returned => exact fun d hd => hd
  | raised exc => exact fun d hd => List.mem_cons_of_mem _ hd

theorem Site.Spent.idle_put {p : Consumer η} {tried : List Nat} (h : s.Spent key)
    (hp : ∀ d ∈ p.pc.inHand, d.id ≠ key) (c' : ConsumerId) :
    ∀ d ∈ (({ s with queue, store, tried }.put c p).consumers c').pc.inHand, d.id ≠ key :=
  Site.forall_put (P := fun pc => ∀ d ∈ pc.inHand, d.id ≠ key) hp h.idle c'

theorem Site.Spent.idle_step (h : s.Spent key) (hs : SiteStep handler s action s') :
    ∀ c, ∀ d ∈ (s'.consumers c).pc.inHand, d.id ≠ key := by
  have hkept : ∀ {c} {old pc : ConsumerPc η}, (s.consumers c).pc = old →
      (∀ d ∈ pc.inHand, d ∈ old.inHand) → ∀ d ∈ pc.inHand, d.id ≠ key := fun hpc hsub d hd =>
    h.idle _ d (hpc ▸ hsub d hd)
  cases hs with
  | start | exit | killCall | kill | drop => exact h.idle_put nofun
  | stop => exact h.idle_put (h.idle _)
  | @receive c ids deliveries queue pc answered hpc hq hnext =>
    refine h.idle_put fun d hd => ?_
    rcases hnext with ⟨-, rfl⟩ | ⟨-, rfl⟩
    · obtain ⟨m, hm, hid, hleft⟩ := Queue.mem_of_receive hq hd
      exact fun hkey => absurd (h.due m hm (hid.trans hkey)) (Nat.not_le.mpr hleft)
    · cases hd
  | next hpc => exact h.idle_put (hkept hpc Handler.open_inHand)
  | handle hpc hcall => exact h.idle_put (hkept hpc Progress.pc_inHand)
  | delete hpc | keep hpc => exact h.idle_put (hkept hpc fun d hd => List.mem_cons_of_mem _ hd)
  | deliver | expire | redrive | env => exact h.idle

theorem Site.Spent.step (h : s.Spent key) (hs : SiteStep handler s action s') : s'.Spent key := by
  refine ⟨h.arrived.trans_le hs.nextId_le, fun m hm hid => ?_, h.idle_step hs⟩
  rw [hs.limit_eq]
  cases hs.origin m hm with
  | new hnew => exact absurd (hid ▸ hnew) (Nat.not_le.mpr h.arrived)
  | old old hold hid' hle => exact (h.due old hold (hid'.trans hid)).trans hle

theorem Site.Spent.not_handled (h : s.Spent key) : ¬s.Handled key := by
  rintro ⟨c, delivery, event, rest, hpc, hid⟩
  exact h.idle c delivery (hpc ▸ List.mem_cons_self) hid

theorem Site.Spent.later (h : (run.state b).Spent key) (hn : b ≤ n) : (run.state n).Spent key :=
  run.invariant (I := fun s => s.Spent key) h
    (fun _ _ _ hspent hs => hspent.step (Site.step_cases hs)) hn

theorem Site.Spent.never_handled (h : (run.state b).Spent key) (hn : b ≤ n) :
    ¬(run.state n).Handled key :=
  (h.later hn).not_handled

-- ---------------------------------------------------------------------------
-- Through an outage
-- ---------------------------------------------------------------------------

theorem Attended.handled_of_receivable (h : Attended run b key) (hback : GetsHandled run b key)
    (hn : b ≤ n) (hreceivable : (run.state n).Receivable key) :
    ∃ k ≥ n, (run.state k).Handled key := by
  obtain ⟨k, hk, hwaits⟩ := h.received n hn hreceivable
  obtain ⟨l, hl, hhandled⟩ := h.handled_of_waits hback (hn.trans hk) hwaits
  exact ⟨l, hk.trans hl, hhandled⟩

theorem Attended.handled_of_inFlight (h : Attended run b key) (hback : GetsHandled run b key)
    (hn : b ≤ n) (hflight : (run.state n).InFlight key) : ∃ k ≥ n, (run.state k).Handled key := by
  obtain ⟨k, hk, hend⟩ : ∃ k ≥ n, (run.state k).Handled key ∨ (run.state k).Receivable key := by
    refine run.leads (P := fun s => s.InFlight key)
      (Q := fun s => s.Handled key ∨ s.Receivable key) hflight (fun s action s' hp hs => ?_)
      (h.expires n hn hflight)
    rcases hp.step (Site.step_cases hs) with hp | hhandled | hreceivable
    · exact .inl hp
    · exact .inr (.inl (.inl hhandled))
    · exact .inr (.inr (.inr hreceivable))
  rcases hend with hhandled | hreceivable
  · exact ⟨k, hk, hhandled⟩
  · obtain ⟨l, hl, hhandled⟩ := h.handled_of_receivable hback (hn.trans hk) hreceivable
    exact ⟨l, hk.trans hl, hhandled⟩

theorem Site.Spent.waits (h : s.Spent key) : ¬s.Waits key := by
  rintro ⟨c, d, hd, hid⟩
  cases hpc : (s.consumers c).pc with
  | down | polling => simp [hpc] at hd
  | batch rest =>
    rw [hpc] at hd
    exact h.idle c d (hpc ▸ hd) hid
  | handling | deleting =>
    rw [hpc] at hd
    exact h.idle c d (hpc ▸ List.mem_cons_of_mem _ hd) hid

/-- There is nothing left to do with the message. -/
theorem Site.Spent.attended (h : (run.state b).Spent key) : Attended run b key where
  expires n hn := by
    rintro ⟨m, hm, hid, -, hleft⟩
    exact absurd ((h.later hn).due m hm hid) (Nat.not_le.mpr hleft)
  received n hn := by
    rintro ⟨m, hm, hid, -, hleft⟩
    exact absurd ((h.later hn).due m hm hid) (Nat.not_le.mpr hleft)
  tried n hn c delivery rest hpc hkey :=
    absurd (.of_mem (congrArg ConsumerPc.waiting hpc) hkey) (h.later hn).waits
  ends n hn c delivery event call rest hpc hkey :=
    absurd (.of_mem (congrArg ConsumerPc.waiting hpc) hkey) (h.later hn).waits
  deleted n hn c delivery event rest hpc hkey :=
    absurd (.of_mem (congrArg ConsumerPc.waiting hpc) hkey) (h.later hn).waits

theorem Site.Spent.getsHandled (h : (run.state b).Spent key) : GetsHandled run b key := by
  intro n hn c delivery rest htries hid
  refine absurd (.of_mem (congrArg ConsumerPc.waiting htries.pc) ?_) (h.later hn).waits
  exact hid ▸ List.mem_cons_self

section
variable {later : (Site.machine handler).Run}

theorem Tries.of_later (h : run.From later b) :
    Tries run (b + n) c delivery rest ↔ Tries later n c delivery rest := by
  refine ⟨fun ⟨hpc, hrun, haction⟩ => ⟨?_, ?_, ?_⟩, fun ⟨hpc, hrun, haction⟩ => ⟨?_, ?_, ?_⟩⟩
  · rwa [h.state] at hpc
  · rwa [h.state] at hrun
  · rwa [h.action] at haction
  · rwa [h.state]
  · rwa [h.state]
  · rwa [h.action]

theorem exists_ge_add {P : Nat → Prop} (h : ∃ k ≥ n, P (b + k)) : ∃ k ≥ b + n, P k := by
  obtain ⟨k, hk, hp⟩ := h
  exact ⟨b + k, Nat.add_le_add_left hk b, hp⟩

theorem Attended.of_later (h : run.From later b) (hlater : Attended later 0 key) :
    Attended run b key where
  expires n hn hflight := by
    obtain ⟨n, rfl⟩ := Nat.exists_eq_add_of_le hn
    rw [h.state] at hflight
    exact exists_ge_add (by simpa only [h.state] using hlater.expires n (Nat.zero_le n) hflight)
  received n hn hreceivable := by
    obtain ⟨n, rfl⟩ := Nat.exists_eq_add_of_le hn
    rw [h.state] at hreceivable
    exact exists_ge_add (by simpa only [h.state] using hlater.received n (Nat.zero_le n) hreceivable)
  tried n hn c delivery rest hpc hkey := by
    obtain ⟨n, rfl⟩ := Nat.exists_eq_add_of_le hn
    rw [h.state] at hpc
    exact exists_ge_add (by
      simpa only [Tries.of_later h] using hlater.tried n (Nat.zero_le n) c delivery rest hpc hkey)
  ends n hn c delivery event call rest hpc hkey := by
    obtain ⟨n, rfl⟩ := Nat.exists_eq_add_of_le hn
    rw [h.state] at hpc
    exact exists_ge_add (by
      simpa only [h.state] using hlater.ends n (Nat.zero_le n) c delivery event call rest hpc hkey)
  deleted n hn c delivery event rest hpc hkey := by
    obtain ⟨n, rfl⟩ := Nat.exists_eq_add_of_le hn
    rw [h.state] at hpc
    exact exists_ge_add (by
      simpa only [h.state] using hlater.deleted n (Nat.zero_le n) c delivery event rest hpc hkey)

theorem GetsHandled.of_later (h : run.From later b) (hlater : GetsHandled later 0 key) :
    GetsHandled run b key := by
  intro n hn c delivery rest htries hid
  obtain ⟨n, rfl⟩ := Nat.exists_eq_add_of_le hn
  exact exists_ge_add (by
    simpa only [h.state] using
      hlater n (Nat.zero_le n) c delivery rest ((Tries.of_later h).mp htries) hid)

end

/-- Only what was handled leaves the queue. -/
theorem holds_of_unhandled (hab : a ≤ b)
    (hon : (run.state a).queue.nextId ≤ key ∨ (run.state a).Holds key)
    (hout : ∀ n, a ≤ n → n < b → ¬(run.state n).Handled key)
    (harrived : key < (run.state b).queue.nextId) : (run.state b).Holds key := by
  induction b, hab using Nat.le_induction with
  | base => exact hon.resolve_left (Nat.not_le.mpr harrived)
  | succ n hn ih =>
    have hbefore : key < (run.state n).queue.nextId → (run.state n).Holds key :=
      ih fun k hk hlt => hout k hk (Nat.lt_succ_of_lt hlt)
    rcases run.next n with hrest | ⟨action, -, hs⟩
    · rw [hrest] at harrived ⊢
      exact hbefore harrived
    · have hs := Site.step_cases hs
      rcases hs.arrives harrived with hlt | hholds
      · exact ((hbefore hlt).step hs).resolve_right (hout n hn (Nat.lt_succ_self n))
      · exact hholds

/-- It can be received once more, or is in a batch. -/
def Site.Recoverable (s : Site σ η) (key : Nat) : Prop :=
  s.Waits key ∨ ∀ m ∈ s.queue.messages, m.id = key → m.receives < s.queue.limit

/-- The store is down from `a` to `b`. A message that was there at `a` or
arrives by `b`, for which no call returns in between, is handled after `b`. -/
theorem Site.handled_after_outage (hstart : run.state 0 = .empty limit store) (hab : a ≤ b)
    (hon : (run.state a).queue.nextId ≤ key ∨ (run.state a).Holds key)
    (harrived : key < (run.state b).queue.nextId)
    (hout : ∀ n, a ≤ n → n < b → ¬(run.state n).Handled key)
    (hrecoverable : (run.state b).Recoverable key) (hattended : Attended run b key)
    (hback : GetsHandled run b key) : ∃ n ≥ b, (run.state n).Handled key := by
  rcases hrecoverable with hwaits | hleft
  · exact hattended.handled_of_waits hback le_rfl hwaits
  · obtain ⟨m, hm, rfl⟩ := holds_of_unhandled hab hon hout harrived
    have hspent : ∀ m ∈ (run.state b).queue.messages, m.place = .dead →
        (run.state b).queue.limit ≤ m.receives :=
      run.invariant (k := 0)
        (I := fun s => ∀ m ∈ s.queue.messages, m.place = .dead → s.queue.limit ≤ m.receives)
        (by rw [hstart]; exact nofun) (fun _ _ _ h hs => (Site.step_cases hs).dead_spent h)
        (Nat.zero_le b)
    have hlt := hleft m hm rfl
    cases hplace : m.place with
    | visible => exact hattended.handled_of_receivable hback le_rfl ⟨m, hm, rfl, hplace, hlt⟩
    | inFlight => exact hattended.handled_of_inFlight hback le_rfl ⟨m, hm, rfl, hplace, hlt⟩
    | dead => exact absurd (hspent m hm hplace) (Nat.not_le.mpr hlt)

-- ---------------------------------------------------------------------------
-- Redis is down
-- ---------------------------------------------------------------------------

/-- The call can return. -/
inductive Handler.Returns (handler : Handler σ η α ε) : σ → η → Prop
  | returned {store store' : σ} {call : η} {answer : α}
      (h : handler.step store call answer = some (store', .returned)) : Returns handler store call
  | continues {store store' : σ} {call call' : η} {answer : α}
      (h : handler.step store call answer = some (store', .continues call'))
      (hrest : Returns handler store' call') : Returns handler store call

/-- A call of the handler made in this step raises. -/
def Site.Fails (handler : Handler σ η α ε) (s : Site σ η) (action : SiteAction α ε) : Prop :=
  ∀ c answer call store progress, action = .consumer c (.handle answer) →
    (s.consumers c).pc.call? = some call → handler.step s.store call answer = some (store, progress) →
    ∃ exc, progress = .raised exc

def ConsumerPc.Deleting (pc : ConsumerPc η) : Prop :=
  ∃ delivery event rest, pc = .deleting delivery event rest

theorem Handler.open_not_deleting : ¬(handler.open_ depth delivery rest).Deleting := by
  refine Handler.open_cases ?_ fun event call _ _ => ?_ <;> rintro ⟨_, _, _, ⟨⟩⟩

theorem SiteStep.not_deleting (hs : SiteStep handler s action s') (hfails : s.Fails handler action)
    (h : ∀ c, ¬(s.consumers c).pc.Deleting) (c : ConsumerId) : ¬(s'.consumers c).pc.Deleting := by
  have hput : ∀ {c' : ConsumerId} {p : Consumer η} {queue : Queue String} {store : σ}
      {tried : List Nat}, ¬p.pc.Deleting →
      ¬(({ s with queue, store, tried }.put c' p).consumers c).pc.Deleting := fun hp =>
    Site.forall_put (P := fun pc => ¬pc.Deleting) hp h c
  have hpolling : ¬(ConsumerPc.polling : ConsumerPc η).Deleting := nofun
  have hdown : ¬(ConsumerPc.down : ConsumerPc η).Deleting := nofun
  have hbatch : ∀ {rest}, ¬(ConsumerPc.batch rest : ConsumerPc η).Deleting := nofun
  cases hs with
  | start | drop => exact hput hpolling
  | killCall | kill | exit => exact hput hdown
  | stop => exact hput (h _)
  | receive hpc hq hnext =>
    rcases hnext with ⟨-, rfl⟩ | ⟨-, rfl⟩
    · exact hput hbatch
    · exact hput hpolling
  | next => exact hput Handler.open_not_deleting
  | handle hpc hcall =>
    obtain ⟨exc, rfl⟩ := hfails _ _ _ _ _ rfl (congrArg ConsumerPc.call? hpc) hcall
    exact hput hbatch
  | delete | keep => exact hput hbatch
  | deliver | expire | redrive | env => exact h c

theorem Site.not_handled_of_fails
    (h : (Site.machine handler).Reaches (Site.Fails handler) (Site.empty limit store) s) :
    ¬s.Handled key := by
  have hnone : ∀ c, ¬(s.consumers c).pc.Deleting :=
    h.invariant (I := fun s => ∀ c, ¬(s.consumers c).pc.Deleting) nofun
      fun t action u ht hfails hs => (Site.step_cases hs).not_deleting hfails ht
  rintro ⟨c, delivery, event, rest, hpc, -⟩
  exact hnone c ⟨delivery, event, rest, hpc⟩

namespace Notifications

variable {body key value : String} {event payload : Json} {queue : Queue String} {store : Store}
  {tried : List Nat} {pc : ConsumerPc Call}

theorem fails_of_ne {s : State} {action : Action}
    (h : ∀ c answer, action ≠ .consumer c (.handle answer)) : s.Fails (handle defaultConfig) action :=
  fun c answer _ _ _ heq _ _ => absurd heq (h c answer)

theorem reaches_fails {s t u : State}
    (h : (Site.machine (handle defaultConfig)).Reaches (Site.Fails (handle defaultConfig)) s t)
    (action : Action) (hfails : t.Fails (handle defaultConfig) action)
    (hs : t.step (handle defaultConfig) action = some u) :
    (Site.machine (handle defaultConfig)).Reaches (Site.Fails (handle defaultConfig)) s u :=
  .next action h hfails hs

theorem duo_received (hreceives : receives < 5) :
    (duo (holding body receives .visible) store tried .polling pc).step (handle defaultConfig)
        (.consumer 0 (.receive [0] true)) =
      some (duo (holding body (receives + 1) .inFlight) store tried
        (.batch [⟨0, receives + 1, body⟩]) pc) := by
  refine duo_step₀ ?_
  simp [Site.step, Site.consumerStep, duo, Queue.receive, Queue.receivable, holding, hreceives, Queue.move]

theorem duo_deleted :
    (duo (holding body receives .inFlight) store tried (.deleting ⟨0, receipt, body⟩ event []) pc).step
        (handle defaultConfig) (.consumer 0 (.delete false true)) =
      some (duo drained store tried (.batch []) pc) :=
  duo_step₀ rfl

/-- One more delivery that Redis refuses. -/
theorem reaches_refused (hreceives : receives < 5)
    (hopen : ∀ receipt, (handle defaultConfig).open_ 5 ⟨0, receipt, body⟩ [] =
      .handling ⟨0, receipt, body⟩ event (.claiming key value payload) []) :
    (Site.machine (handle defaultConfig)).Reaches (Site.Fails (handle defaultConfig))
      (duo (holding body receives .visible) .empty tried .polling .polling)
      (duo (holding body (receives + 1) .visible) .empty (0 :: tried) .polling .polling) := by
  let start := duo (holding body receives .visible) .empty tried .polling .polling
  have h₁ : (Site.machine (handle defaultConfig)).Reaches (Site.Fails (handle defaultConfig)) start
      (duo (holding body (receives + 1) .inFlight) .empty tried
        (.batch [⟨0, receives + 1, body⟩]) .polling) :=
    reaches_fails .refl (.consumer 0 (.receive [0] true)) (fails_of_ne nofun) (duo_received hreceives)
  have h₂ : (Site.machine (handle defaultConfig)).Reaches (Site.Fails (handle defaultConfig)) start
      (duo (holding body (receives + 1) .inFlight) .empty (0 :: tried)
        (.handling ⟨0, receives + 1, body⟩ event (.claiming key value payload) []) .polling) :=
    reaches_fails h₁ (.consumer 0 .next) (fails_of_ne nofun) (duo_next₀ (hopen (receives + 1)))
  have h₃ : (Site.machine (handle defaultConfig)).Reaches (Site.Fails (handle defaultConfig)) start
      (duo (holding body (receives + 1) .inFlight) .empty (0 :: tried) (.batch []) .polling) := by
    have hrefused : step defaultConfig .empty (.claiming key value payload) (.set (.refused timedOut)) =
        some (.empty, .raised timedOut) := rfl
    refine reaches_fails h₂ (.consumer 0 (.handle (.set (.refused timedOut)))) ?_ (duo_handle₀ hrefused)
    rintro c answer call store progress ⟨⟩ hcall hstep
    rw [duo_pc₀] at hcall
    cases hcall
    cases hstep
    exact ⟨_, rfl⟩
  have h₄ : (Site.machine (handle defaultConfig)).Reaches (Site.Fails (handle defaultConfig)) start
      (duo (holding body (receives + 1) .inFlight) .empty (0 :: tried) .polling .polling) :=
    reaches_fails h₃ (.consumer 0 .next) (fails_of_ne nofun) (duo_step₀ rfl)
  exact reaches_fails h₄ (.expire 0) (fails_of_ne nofun) rfl

theorem reaches_refusals (hn : n ≤ 5)
    (hopen : ∀ receipt, (handle defaultConfig).open_ 5 ⟨0, receipt, body⟩ [] =
      .handling ⟨0, receipt, body⟩ event (.claiming key value payload) []) :
    (Site.machine (handle defaultConfig)).Reaches (Site.Fails (handle defaultConfig))
      (.empty 5 .empty)
      (duo (holding body n .visible) .empty (List.replicate n 0) .polling .polling) := by
  induction n with
  | zero =>
    have h₀ : (Site.machine (handle defaultConfig)).Reaches (Site.Fails (handle defaultConfig))
        (.empty 5 .empty) (.empty 5 .empty) := .refl
    have h₁ := reaches_fails h₀ (.deliver body) (fails_of_ne nofun) rfl
    have h₂ := reaches_fails h₁ (.consumer 0 (.start ⟨10, 5⟩)) (fails_of_ne nofun) rfl
    exact reaches_fails h₂ (.consumer 1 (.start ⟨10, 5⟩)) (fails_of_ne nofun) rfl
  | succ n ih => exact (ih (Nat.le_of_succ_le hn)).trans (reaches_refused hn hopen)

theorem returns_claiming (hsend : sendable payload = .ok ()) :
    (handle defaultConfig).Returns .empty (.claiming key value payload) := by
  have hclaimed : (handle defaultConfig).step .empty (.claiming key value payload) (.set .ok) =
      some (claimedStore key value, .continues (.claimed key 0 payload)) := step_claim
  have hreturned : (handle defaultConfig).step (claimedStore key value) (.claimed key 0 payload)
      (.send (.ok ())) = some ((claimedStore key value).note (.sent key 0 0), .returned) :=
        step_send hsend
  exact .continues hclaimed (.returned hreturned)

theorem duo_inHand_polling (c : ConsumerId) :
    ((duo queue store tried .polling .polling).consumers c).pc.inHand = [] := by
  by_cases hc₁ : c = 1
  · simp [duo, hc₁]
  by_cases hc₀ : c = 0
  · simp [duo, hc₀]
  simp [duo, hc₀, hc₁, Site.empty]

theorem spent_dead : (duo (holding body 5 .dead) store tried .polling .polling).Spent 0 where
  arrived := Nat.zero_lt_one
  due m hm _ := by
    obtain rfl := List.mem_singleton.mp hm
    exact le_rfl
  idle c d hd := by
    rw [duo_inHand_polling] at hd
    cases hd

/-- Redis is down while a message is received five times. The message, whose
call would return now that Redis is back, is in the dead letter queue. -/
theorem lost_in_outage : ∃ (run : (Site.machine (handle defaultConfig)).Run) (b : Nat),
    run.state 0 = .empty 5 .empty ∧
    (∀ n ≤ b, (Site.machine (handle defaultConfig)).Reaches (Site.Fails (handle defaultConfig))
      (.empty 5 .empty) (run.state n)) ∧
    (∃ event call, (0, keyboardBody) ∈ (run.state b).queue.contents ∧ ReadsAs keyboardBody event ∧
      (handle defaultConfig).start event = .ok call ∧
      (handle defaultConfig).Returns (run.state b).store call) ∧
    Attended run b 0 ∧ GetsHandled run b 0 ∧ ∀ n, ¬(run.state n).Handled 0 := by
  have hbody := unwrap_keyboardBody (Nat.le_add_right 3 2)
  have hrun : (Site.machine (handle defaultConfig)).Reaches (Site.Fails (handle defaultConfig))
      (.empty 5 .empty)
      (duo (holding keyboardBody 5 .dead) .empty (List.replicate 5 0) .polling .polling) :=
    reaches_fails (reaches_refusals le_rfl (open_of_unwrap keyboardRow_payload hbody)) (.redrive 0)
      (fails_of_ne nofun) rfl
  obtain ⟨run, b, hstart, hfrom, hfails⟩ := Machine.Run.exists_from (.rest _ _) hrun rfl
  have hend : run.state b = _ := hfrom.state 0
  have hspent : (run.state b).Spent 0 := hend ▸ spent_dead
  refine ⟨run, b, hstart, hfails, ?_, hspent.attended, hspent.getsHandled, fun n => ?_⟩
  · refine ⟨buildMessage keyboardRow, _, ?_, ⟨5, Except.bind_eq_ok.mpr ⟨_, hbody, rfl⟩⟩,
      start_buildMessage keyboardRow_payload, ?_⟩
    · rw [hend]
      exact List.mem_cons_self
    · rw [hend]
      exact returns_claiming (keyboardRow_payload ▸ sendable_buildPayload)
  · rcases Nat.le_total n b with hn | hn
    · exact Site.not_handled_of_fails (hfails n hn)
    · exact hspent.never_handled hn

-- Redis is back: the message is received a second time, claimed for, sent and deleted.
section
variable (body key value : String) (event payload : Json)

def recoveryState : Nat → State
  | 0 => duo (holding body 1 .visible) .empty [0] .polling .polling
  | 1 => duo (holding body 2 .inFlight) .empty [0] (.batch [⟨0, 2, body⟩]) .polling
  | 2 => duo (holding body 2 .inFlight) .empty [0, 0]
    (.handling ⟨0, 2, body⟩ event (.claiming key value payload) []) .polling
  | 3 => duo (holding body 2 .inFlight) (claimedStore key value) [0, 0]
    (.handling ⟨0, 2, body⟩ event (.claimed key 0 payload) []) .polling
  | 4 => duo (holding body 2 .inFlight) ((claimedStore key value).note (.sent key 0 0)) [0, 0]
    (.deleting ⟨0, 2, body⟩ event []) .polling
  | _ => duo drained ((claimedStore key value).note (.sent key 0 0)) [0, 0] (.batch []) .polling

def recoveryAction : Nat → Option Action
  | 0 => some (.consumer 0 (.receive [0] true))
  | 1 => some (.consumer 0 .next)
  | 2 => some (.consumer 0 (.handle (.set .ok)))
  | 3 => some (.consumer 0 (.handle (.send (.ok ()))))
  | 4 => some (.consumer 0 (.delete false true))
  | _ => none

end

def recovery (hsend : sendable payload = .ok ())
    (hopen : ∀ receipt, (handle defaultConfig).open_ 5 ⟨0, receipt, body⟩ [] =
      .handling ⟨0, receipt, body⟩ event (.claiming key value payload) []) :
    (Site.machine (handle defaultConfig)).Run where
  state := recoveryState body key value event payload
  action := recoveryAction
  step
    | 0 => @duo_received body .empty [0] .polling 1 (by decide)
    | 1 => duo_next₀ (hopen 2)
    | 2 => duo_handle₀ step_claim
    | 3 => duo_handle₀ (step_send hsend)
    | 4 => duo_deleted
    | _ + 5 => rfl

theorem duo_pc_eq {waits : ConsumerPc Call}
    (h : ((duo queue store tried pc .polling).consumers c).pc = waits) (hpolling : waits ≠ .polling)
    (hdown : waits ≠ .down) : c = 0 ∧ pc = waits := by
  by_cases hc₁ : c = 1
  · exact absurd (by simpa [duo, hc₁] using h.symm) hpolling
  by_cases hc₀ : c = 0
  · subst hc₀
    exact ⟨rfl, by simpa [duo] using h⟩
  · exact absurd (by simpa [duo, hc₀, hc₁, Site.empty] using h.symm) hdown

section
variable {hsend : sendable payload = .ok ()}
  {hopen : ∀ receipt, (handle defaultConfig).open_ 5 ⟨0, receipt, body⟩ [] =
    .handling ⟨0, receipt, body⟩ event (.claiming key value payload) []}

theorem recovery_attended : Attended (recovery hsend hopen) 0 0 where
  expires n _ _ := by
    refine ⟨n + 5, Nat.le_add_right n 5, ?_⟩
    rintro ⟨m, hm, -⟩
    cases hm
  received n _ hreceivable := by
    match n with
    | 0 =>
      have hwaits : (((recovery hsend hopen).state 1).consumers 0).pc.waiting = [⟨0, 2, body⟩] :=
        congrArg ConsumerPc.waiting duo_pc₀
      exact ⟨1, Nat.zero_le 1, .of_mem hwaits List.mem_cons_self⟩
    | 1 | 2 | 3 | 4 =>
      obtain ⟨m, hm, -, hplace, -⟩ := hreceivable
      obtain rfl := List.mem_singleton.mp hm
      cases hplace
    | n + 5 =>
      obtain ⟨m, hm, -⟩ := hreceivable
      cases hm
  tried n _ c delivery rest hpc hkey := by
    match n with
    | 0 => cases (duo_pc_eq hpc nofun nofun).2
    | 1 =>
      obtain ⟨rfl, heq⟩ := duo_pc_eq hpc nofun nofun
      exact ⟨1, le_rfl, hpc, duo_running₀, rfl⟩
    | 2 | 3 | 4 => cases (duo_pc_eq hpc nofun nofun).2
    | n + 5 => cases (duo_pc_eq hpc nofun nofun).2
  ends n _ c delivery event call rest hpc hkey := by
    match n with
    | 0 | 1 | 4 => cases (duo_pc_eq hpc nofun nofun).2
    | 2 | 3 =>
      cases (duo_pc_eq hpc nofun nofun).2
      cases hkey
    | n + 5 => cases (duo_pc_eq hpc nofun nofun).2
  deleted n _ c delivery event rest hpc hkey := by
    match n with
    | 0 | 1 | 2 | 3 => cases (duo_pc_eq hpc nofun nofun).2
    | 4 =>
      cases (duo_pc_eq hpc nofun nofun).2
      cases hkey
    | n + 5 => cases (duo_pc_eq hpc nofun nofun).2

theorem recovery_getsHandled : GetsHandled (recovery hsend hopen) 0 0 := by
  intro n _ c delivery rest htries hid
  have hpc := htries.pc
  match n with
  | 0 | 2 | 3 | 4 => cases (duo_pc_eq hpc nofun nofun).2
  | 1 =>
    obtain ⟨rfl, heq⟩ := duo_pc_eq hpc nofun nofun
    cases heq
    exact ⟨4, by decide, event, duo_pc₀⟩
  | n + 5 => cases (duo_pc_eq hpc nofun nofun).2

end

/-- An outage of one delivery. -/
theorem handled_after_outage_keyboard : ∃ (run : (Site.machine (handle defaultConfig)).Run) (b : Nat),
    run.state 0 = .empty 5 .empty ∧
    (∀ n ≤ b, (Site.machine (handle defaultConfig)).Reaches (Site.Fails (handle defaultConfig))
      (.empty 5 .empty) (run.state n)) ∧
    ∃ n ≥ b, (run.state n).Handled 0 := by
  have hbody := unwrap_keyboardBody (Nat.le_add_right 3 2)
  have hopen : ∀ receipt, (handle defaultConfig).open_ 5 ⟨0, receipt, keyboardBody⟩ [] = _ :=
    open_of_unwrap keyboardRow_payload hbody
  have hrun := reaches_refusals (show 1 ≤ 5 by decide) hopen
  obtain ⟨run, b, hstart, hfrom, hfails⟩ := Machine.Run.exists_from
    (recovery (keyboardRow_payload ▸ sendable_buildPayload) hopen) hrun rfl
  have hend : run.state b = _ := hfrom.state 0
  refine ⟨run, b, hstart, hfails, Site.handled_after_outage hstart (Nat.zero_le b) (.inl ?_) ?_
    (fun n _ hn => Site.not_handled_of_fails (hfails n hn.le)) (.inr ?_)
    (.of_later hfrom recovery_attended) (.of_later hfrom recovery_getsHandled)⟩
  · rw [hstart]
    exact Nat.le_refl 0
  · rw [hend]
    exact Nat.zero_lt_one
  · rw [hend]
    intro m hm _
    obtain rfl := List.mem_singleton.mp hm
    exact Nat.lt_of_sub_eq_succ rfl

end Notifications

end OutboxFanout
