import OutboxFanout.Outage
import OutboxFanout.Projections

/-!
# One log, three queues

The publishes that SNS accepted form a log. Each of the three queues numbers
its messages as the log does: the message of number i, wherever it is, is a
copy of entry i (`Copies`), whatever relays, consumers and crashes do.
-/

namespace OutboxFanout

-- ---------------------------------------------------------------------------
-- The log
-- ---------------------------------------------------------------------------

namespace Outbox

/-- What SNS accepted, oldest first. -/
def State.log (s : State) : List OutboxEvent :=
  (s.history.filterMap fun | .accepted row => some row | _ => none).reverse

theorem State.mem_log {s : State} : row ∈ s.log ↔ .accepted row ∈ s.history := by
  simp only [log, List.mem_reverse, List.mem_filterMap]
  constructor
  · rintro ⟨event, hmem, hevent⟩
    split at hevent <;> cases hevent
    exact hmem
  · exact fun hmem => ⟨_, hmem, rfl⟩

theorem State.kill_log {s : State} : (s.kill r).log = s.log := by
  rcases s.kill_history r with heq | ⟨_, heq⟩ <;> simp [log, heq]

theorem RelayStep.log (h : RelayStep s r action s') :
    s'.log = s.log ++ (accepted? s (.relay r action)).toList := by
  have hsame : s'.log = s.log → accepted? s (.relay r action) = none →
      s'.log = s.log ++ (accepted? s (.relay r action)).toList := by
    rintro hlog hnone
    rw [hlog, hnone, Option.toList_none, List.append_nil]
  cases h with
  | kill => exact hsame State.kill_log rfl
  | accepted hpc | lostAck hpc => simp [State.log, accepted?, hpc]
  | refused hpc => exact hsame rfl (by simp [accepted?, hpc])
  | _ => exact hsame rfl rfl

theorem Step.log (h : Step s action s') : s'.log = s.log ++ (accepted? s action).toList := by
  cases h with
  | relay hr => exact hr.log
  | _ => exact (List.append_nil _).symm

end Outbox

-- ---------------------------------------------------------------------------
-- The messages of a site
-- ---------------------------------------------------------------------------

section
variable {σ η α ε : Type} {handler : Handler σ η α ε} {s s' : Site σ η}

/-- Only a delivery adds a message, under the next number. -/
theorem SiteStep.contents_cases (h : SiteStep handler s action s') (hx : x ∈ s'.queue.contents) :
    x ∈ s.queue.contents ∨ ∃ body, action = .deliver body ∧ x = (s.queue.nextId, body) := by
  cases h with
  | receive hpc hq =>
    rw [Site.goto_queue, (Queue.receive_eq hq).1, Queue.contents_move] at hx
    exact .inl hx
  | delete => exact .inl (Queue.contents_of_delete hx)
  | @deliver body =>
    rw [Queue.contents_send] at hx
    rcases List.mem_append.mp hx with hx | hx
    · exact .inl hx
    · exact .inr ⟨body, rfl, List.mem_singleton.mp hx⟩
  | expire hq =>
    rw [Queue.expire_eq hq, Queue.contents_move] at hx
    exact .inl hx
  | redrive hq =>
    rw [Queue.redrive_eq hq, Queue.contents_move] at hx
    exact .inl hx
  | _ => exact .inl hx

theorem SiteStep.nextId (h : SiteStep handler s action s') (hown : ∀ body, action ≠ .deliver body) :
    s'.queue.nextId = s.queue.nextId := by
  cases h with
  | receive hpc hq => rw [Site.goto_queue, (Queue.receive_eq hq).1]; rfl
  | deliver => exact absurd rfl (hown _)
  | expire hq => rw [Queue.expire_eq hq]; rfl
  | redrive hq => rw [Queue.redrive_eq hq]; rfl
  | _ => rfl

theorem Site.inHand_put {p : Consumer η} (hp : d ∈ p.pc.inHand → P)
    (hd : d ∈ ((s.put c p).consumers c').pc.inHand) : P ∨ d ∈ (s.consumers c').pc.inHand := by
  by_cases hc : c' = c
  · subst hc
    exact .inl (hp (by simpa [Site.put] using hd))
  · exact .inr (by simpa [Site.put, hc] using hd)

/-- What a consumer has in hand it had before, or takes from the queue. -/
theorem SiteStep.inHand_cases (h : SiteStep handler s action s')
    (hd : d ∈ (s'.consumers c).pc.inHand) :
    d ∈ (s.consumers c).pc.inHand ∨ (d.id, d.body) ∈ s.queue.contents := by
  have hmove : ∀ {t : Site σ η} {c' : ConsumerId} {p : Consumer η}, t.consumers = s.consumers →
      p.pc.inHand ⊆ (s.consumers c').pc.inHand → d ∈ ((t.put c' p).consumers c).pc.inHand →
      d ∈ (s.consumers c).pc.inHand ∨ (d.id, d.body) ∈ s.queue.contents := by
    intro t c' p ht hp hd
    by_cases hc : c = c'
    · subst hc
      exact .inl (hp (by simpa [Site.put] using hd))
    · exact .inl (by simpa [Site.put, hc, ht] using hd)
  cases h with
  | start | kill | killCall | exit | drop => exact hmove rfl (List.nil_subset _) hd
  | stop =>
    refine hmove rfl ?_ hd
    exact List.Subset.refl _
  | @receive c' ids ds queue answered pc hpc hq hnext =>
    refine (Site.inHand_put (P := (d.id, d.body) ∈ s.queue.contents) ?_ hd).symm
    rcases hnext with ⟨-, rfl⟩ | ⟨-, rfl⟩
    · exact fun hd => Queue.mem_contents_of_receive hq hd
    · exact fun hd => absurd hd List.not_mem_nil
  | next hpc =>
    refine hmove rfl ?_ hd
    rw [hpc]
    exact fun d hd => Handler.open_inHand d hd
  | handle hpc =>
    refine hmove rfl ?_ hd
    rw [hpc]
    exact fun d hd => Progress.pc_inHand d hd
  | delete hpc | keep hpc =>
    refine hmove rfl ?_ hd
    rw [hpc]
    exact List.subset_cons_self _ _
  | deliver | expire | redrive | env => exact .inl hd

/-- The message is a copy of the entry of its number. -/
def CopyOf (log : List OutboxEvent) (number : Nat) (body : String) : Prop :=
  ∃ event, log[number]? = some event ∧ Carries body event

theorem CopyOf.append (h : CopyOf log number body) : CopyOf (log ++ new) number body := by
  obtain ⟨event, hentry, hcarries⟩ := h
  exact ⟨event, List.getElem?_append_left (List.getElem?_eq_some_iff.mp hentry).1 ▸ hentry, hcarries⟩

theorem copyOf_length (h : Carries body event) : CopyOf (log ++ [event]) log.length body :=
  ⟨event, List.getElem?_concat_length, h⟩

/-- The queue counts its messages as the log counts its entries, and what is on
the queue, dead or in a consumer's hands is a copy of an entry. -/
structure Site.Copies (log : List OutboxEvent) (s : Site σ η) : Prop where
  nextId : s.queue.nextId = log.length
  queued : ∀ x ∈ s.queue.contents, CopyOf log x.1 x.2
  taken : ∀ c, ∀ d ∈ (s.consumers c).pc.inHand, CopyOf log d.id d.body

theorem Site.Copies.empty {store : σ} : (Site.empty limit store : Site σ η).Copies [] :=
  ⟨rfl, nofun, fun _ _ hd => absurd hd List.not_mem_nil⟩

theorem Site.Copies.step (h : s.Copies log) (hs : SiteStep handler s action s')
    (hown : ∀ body, action ≠ .deliver body) : s'.Copies log where
  nextId := (hs.nextId hown).trans h.nextId
  queued x hx := by
    rcases hs.contents_cases hx with hx | ⟨body, rfl, -⟩
    · exact h.queued x hx
    · exact absurd rfl (hown body)
  taken c d hd := by
    rcases hs.inHand_cases hd with hd | hd
    · exact h.taken c d hd
    · exact h.queued _ hd

theorem Site.Copies.send (h : s.Copies log) (hcarries : Carries body event) :
    { s with queue := s.queue.send body }.Copies (log ++ [event]) where
  nextId := by simp [Queue.send, h.nextId]
  queued x hx := by
    rw [Queue.contents_send] at hx
    rcases List.mem_append.mp hx with hx | hx
    · exact (h.queued x hx).append
    · obtain rfl := List.mem_singleton.mp hx
      rw [h.nextId]
      exact copyOf_length hcarries
  taken c d hd := (h.taken c d hd).append

end

-- ---------------------------------------------------------------------------
-- The system
-- ---------------------------------------------------------------------------

namespace System

variable {config : Notifications.Config} {s s' : State}

structure Logged (s : State) : Prop where
  billing : s.billing.Copies s.outbox.log
  shipping : s.shipping.Copies s.outbox.log
  notify : s.notify.Copies s.outbox.log

theorem Logged.empty : Logged (.empty limit) := ⟨.empty, .empty, .empty⟩

theorem Logged.step (h : Logged s) (hs : Step config s action s') : Logged s' := by
  cases hs with
  | outbox hs hacc =>
    have hlog := hs.log
    rw [hacc, Option.toList_none, List.append_nil] at hlog
    exact ⟨hlog ▸ h.billing, hlog ▸ h.shipping, hlog ▸ h.notify⟩
  | publish hs hacc hcarry =>
    have hlog := hs.log
    rw [hacc, Option.toList_some] at hlog
    obtain ⟨hbilling, hshipping, hnotify⟩ := hcarry
    exact ⟨hlog ▸ h.billing.send hbilling, hlog ▸ h.shipping.send hshipping,
      hlog ▸ h.notify.send hnotify⟩
  | billing hs hown => exact { h with billing := h.billing.step hs hown }
  | shipping hs hown => exact { h with shipping := h.shipping.step hs hown }
  | notify hs hown => exact { h with notify := h.notify.step hs hown }

/-- The three queues number their messages alike: each is fed every accepted
publish once and nothing else, and entry i is message i of all three. -/
theorem logged_of_reaches (h : (machine config).Reaches C (.empty limit) s) : Logged s :=
  h.invariant .empty fun _ _ _ hi _ hs => hi.step (step_cases hs)

/-- One order is published: message 0 of each queue is entry 0. -/
theorem logged_keyboard : ∃ s : State, s.outbox.log.length = 1 ∧
    s.billing.queue.contents = [(0, keyboardBody)] ∧ CopyOf s.outbox.log 0 keyboardBody := by
  obtain ⟨outbox, -, -, hreach⟩ := @reaches_published ⟨60, false⟩
  have hlogged := logged_of_reaches hreach
  exact ⟨_, hlogged.billing.nextId.symm, rfl,
    hlogged.billing.queued (0, keyboardBody) List.mem_cons_self⟩

end System

end OutboxFanout
