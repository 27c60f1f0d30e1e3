import OutboxFanout.Billing.Service
import OutboxFanout.Relay.Publisher
import OutboxFanout.Shared.Settlement

/-!
# Who tried a dead message

SQS counts receives; the loop tries messages one at a time and may leave a
batch early. So a message can be received for the last time and given up
untried (`untried_in_dlq`). Where no step does that (`Site.Spares`), a message
that cannot be received again and was never tried is waiting its turn in some
process, in flight, and what is in the dead letter queue was tried.
-/

namespace OutboxFanout

variable {σ η α ε : Type} {handler : Handler σ η α ε} {s s' : Site σ η} {queue : Queue String}
  {store : σ}

/-- Received, and not yet passed to `_handle_one`. -/
@[simp] def ConsumerPc.waiting : ConsumerPc η → List (Delivery String)
  | .down | .polling => []
  | .batch rest | .handling _ _ _ rest | .deleting _ _ rest => rest

/-- The message cannot be received again, and has not been tried. -/
def Site.LastChance (s : Site σ η) (key : Nat) : Prop :=
  key ∉ s.tried ∧ ∃ m ∈ s.queue.messages, m.id = key ∧ s.queue.limit ≤ m.receives

instance : Decidable (s.LastChance key) := inferInstanceAs (Decidable (_ ∧ _))

/-- The step gives up no message in its last chance: not at the break of the
loop or the end of its process, not in a receive whose answer is lost, not by
its visibility timeout. -/
def Site.Spares (s : Site σ η) : SiteAction α ε → Prop
  | .consumer c .kill => ∀ d ∈ (s.consumers c).pc.waiting, ¬s.LastChance d.id
  | .consumer c .next =>
    (s.consumers c).shutdown = true → ∀ d ∈ (s.consumers c).pc.waiting, ¬s.LastChance d.id
  | .consumer _ (.receive ids false) =>
    ∀ m ∈ s.queue.messages, m.id ∈ ids → m.id ∈ s.tried ∨ m.receives + 1 < s.queue.limit
  | .expire key => ¬s.LastChance key
  | _ => True

instance : DecidablePred (s.Spares : SiteAction α ε → Prop) := fun action => by
  unfold Site.Spares
  split <;> infer_instance

-- ---------------------------------------------------------------------------
-- The invariant
-- ---------------------------------------------------------------------------

def Site.Waits (s : Site σ η) (key : Nat) : Prop :=
  ∃ c, ∃ d ∈ (s.consumers c).pc.waiting, d.id = key

/-- Of a message that was not tried. -/
structure Site.Safe (s : Site σ η) (m : Message String) : Prop where
  alive : m.place ≠ .dead
  waits : s.queue.limit ≤ m.receives → m.place = .inFlight ∧ s.Waits m.id

structure Site.Attempted (s : Site σ η) : Prop where
  pos : 1 ≤ s.queue.limit
  safe : ∀ m ∈ s.queue.messages, m.id ∉ s.tried → s.Safe m

theorem Site.Attempted.empty (hlimit : 1 ≤ limit) : (Site.empty limit store : Site σ η).Attempted :=
  ⟨hlimit, nofun⟩

/-- A process moves on. What was waiting in it is still waiting, or has been
tried, or has another chance. -/
theorem Site.Attempted.put {p : Consumer η} {tried : List Nat} (h : s.Attempted)
    (hlimit : queue.limit = s.queue.limit) (hqueue : queue.messages ⊆ s.queue.messages)
    (htried : s.tried ⊆ tried)
    (hwaits : ∀ d ∈ (s.consumers c).pc.waiting, d ∈ p.pc.waiting ∨ d.id ∈ tried ∨ ¬s.LastChance d.id) :
    ({ s with queue, store, tried }.put c p).Attempted := by
  refine ⟨hlimit ▸ h.pos, fun m hm hnew => ?_⟩
  replace hm : m ∈ s.queue.messages := hqueue hm
  have hold : m.id ∉ s.tried := fun hold => hnew (htried hold)
  have hsafe := h.safe m hm hold
  refine ⟨hsafe.alive, fun hlast => ?_⟩
  replace hlast : s.queue.limit ≤ m.receives := hlimit ▸ hlast
  obtain ⟨hplace, c', d, hd, hid⟩ := hsafe.waits hlast
  refine ⟨hplace, c', d, ?_, hid⟩
  by_cases hc : c' = c
  · subst hc
    rcases hwaits d hd with hd' | hd' | hchance
    · simpa [Site.put] using hd'
    · exact absurd (hid ▸ hd') hnew
    · exact absurd ⟨hid ▸ hold, m, hm, hid.symm, hlast⟩ hchance
  · simpa [Site.put, hc] using hd

/-- … when none of the queue has changed. -/
theorem Site.Attempted.goto {p : Consumer η} (h : s.Attempted)
    (hwaits : ∀ d ∈ (s.consumers c).pc.waiting, d ∈ p.pc.waiting ∨ ¬s.LastChance d.id) :
    ({ s with store }.put c p).Attempted :=
  h.put rfl (List.Subset.refl _) (List.Subset.refl _) fun d hd => (hwaits d hd).imp id .inr

/-- What the handler does with a message leaves the rest of the batch waiting. -/
theorem Handler.open_waiting : (handler.open_ depth delivery rest).waiting = rest :=
  Handler.open_cases rfl fun _ _ _ _ => rfl

theorem Progress.pc_waiting {progress : Progress η} :
    (progress.pc delivery event rest).waiting = rest := by
  cases progress <;> rfl

theorem Site.Attempted.receive (h : s.Attempted) (hpc : (s.consumers c).pc = .polling)
    (hq : s.queue.receive ids = some (deliveries, queue))
    (hkeep : pc = .batch deliveries ∨
      ∀ m ∈ s.queue.messages, m.id ∈ ids → m.id ∈ s.tried ∨ m.receives + 1 < s.queue.limit) :
    ({ s with queue }.goto c pc).Attempted := by
  have hmove := (Queue.receive_eq hq).1
  have hlimit : queue.limit = s.queue.limit := by rw [hmove]; rfl
  refine ⟨hlimit ▸ h.pos, ?_⟩
  rw [Site.goto_queue, hmove]
  refine Queue.forall_move (fun m hm hin hnew => ?_) (fun m hm hout hnew => ?_)
  · obtain ⟨-, -, hd⟩ := Queue.receive_mem hq hm hin
    refine ⟨nofun, fun hlast => ⟨rfl, ?_⟩⟩
    replace hlast : s.queue.limit ≤ m.receives + 1 := hlimit ▸ hlast
    rcases hkeep with rfl | hleft
    · exact ⟨c, _, by simpa [Site.goto, Site.put] using hd, rfl⟩
    · rcases hleft m hm hin with htried | hlt
      · exact absurd htried hnew
      · omega
  · have hsafe := h.safe m hm hnew
    refine ⟨hsafe.alive, fun hlast => ?_⟩
    obtain ⟨hplace, c', d, hd, hid⟩ := hsafe.waits (hlimit ▸ hlast)
    have hc : c' ≠ c := by
      rintro rfl
      simp [hpc] at hd
    exact ⟨hplace, c', d, by simpa [Site.goto, Site.put, hc] using hd, hid⟩

theorem Site.Attempted.expire (h : s.Attempted) (hq : s.queue.expire key = some queue)
    (hchance : ¬s.LastChance key) : { s with queue }.Attempted := by
  obtain rfl := Queue.expire_eq hq
  refine ⟨h.pos, Queue.forall_move (fun m hm hin hnew => ?_) (fun m hm _ hnew => ?_)⟩
  · obtain rfl := List.mem_singleton.mp hin
    exact ⟨nofun, fun hlast => absurd ⟨hnew, m, hm, rfl, hlast⟩ hchance⟩
  · have hsafe := h.safe m hm hnew
    exact ⟨hsafe.alive, hsafe.waits⟩

/-- A message that is moved to the dead letter queue is visible, so it is not
in its last chance. -/
theorem Site.Attempted.redrive (h : s.Attempted) (hq : s.queue.redrive key = some queue) :
    { s with queue }.Attempted := by
  obtain rfl := Queue.redrive_eq hq
  refine ⟨h.pos, Queue.forall_move (fun m hm hin hnew => ?_) (fun m hm _ hnew => ?_)⟩
  · obtain rfl := List.mem_singleton.mp hin
    obtain ⟨hvisible, hdue⟩ := Queue.redrive_mem hq hm
    obtain ⟨hflight, -⟩ := (h.safe m hm hnew).waits hdue
    rw [hvisible] at hflight
    cases hflight
  · have hsafe := h.safe m hm hnew
    exact ⟨hsafe.alive, hsafe.waits⟩

theorem Site.Attempted.deliver (h : s.Attempted) :
    { s with queue := s.queue.send body }.Attempted := by
  refine ⟨h.pos, fun m hm hnew => ?_⟩
  rcases List.mem_append.mp hm with hm | hm
  · have hsafe := h.safe m hm hnew
    exact ⟨hsafe.alive, hsafe.waits⟩
  · obtain rfl := List.mem_singleton.mp hm
    exact ⟨nofun, fun hlast => absurd hlast (Nat.not_le.mpr h.pos)⟩

theorem Site.Attempted.step (h : s.Attempted) (hspares : s.Spares action)
    (hs : SiteStep handler s action s') : s'.Attempted := by
  cases hs with
  | start hpc | exit hpc => exact h.goto (by simp [hpc])
  | killCall hpc | kill hpc => exact h.goto fun d hd => .inr (hspares d hd)
  | stop => exact h.goto fun d hd => .inl hd
  | @receive c ids deliveries queue pc answered hpc hq hnext =>
    refine h.receive hpc hq ?_
    rcases hnext with ⟨-, rfl⟩ | ⟨rfl, rfl⟩
    · exact .inl rfl
    · exact .inr hspares
  | drop hpc hstop =>
    refine h.goto fun d hd => .inr ?_
    rcases hstop with rfl | hstop
    · simp [hpc] at hd
    · exact hspares hstop d hd
  | @next c delivery rest hpc =>
    refine h.put rfl (List.Subset.refl _) (List.subset_cons_self _ _) fun d hd => ?_
    rw [hpc] at hd
    rcases List.mem_cons.mp hd with rfl | hd
    · exact .inr (.inl List.mem_cons_self)
    · exact .inl (Handler.open_waiting ▸ hd)
  | @handle c delivery event call rest answer store progress hpc hcall =>
    refine h.goto fun d hd => .inl ?_
    rw [hpc] at hd
    exact Progress.pc_waiting ▸ hd
  | @delete c delivery event rest raised hpc =>
    refine h.put rfl (List.filter_subset_self _) (List.Subset.refl _) fun d hd => .inl ?_
    rwa [hpc] at hd
  | @keep c delivery event rest raised hpc =>
    refine h.goto fun d hd => .inl ?_
    rwa [hpc] at hd
  | deliver => exact h.deliver
  | expire hq => exact h.expire hq hspares
  | redrive hq => exact h.redrive hq
  | env hstore => exact ⟨h.pos, fun m hm hnew => ⟨(h.safe m hm hnew).alive, (h.safe m hm hnew).waits⟩⟩

-- ---------------------------------------------------------------------------
-- Every run
-- ---------------------------------------------------------------------------

theorem Site.dead_was_tried (hlimit : 1 ≤ limit)
    (h : (Site.machine handler).Reaches Site.Spares (Site.empty limit store) s) :
    ∀ m ∈ s.queue.messages, m.place = .dead → m.id ∈ s.tried := by
  have hattempted : s.Attempted := h.invariant (Site.Attempted.empty hlimit)
    fun t action u ht hspares hs => ht.step hspares (Site.step_cases hs)
  intro m hm hdead
  by_contra hnew
  exact (hattempted.safe m hm hnew).alive hdead

/-- Two messages in one batch. The signal arrives while the first is tried, and
the process started after it tries the second before that is dead. -/
theorem Site.dead_was_tried_poison :
    ∃ s, (Site.machine Billing.handle).Reaches Site.Spares (Site.empty 2 .empty) s ∧
      (∃ m ∈ s.queue.messages, m.id = 1 ∧ m.place = .dead) ∧
      ∀ m ∈ s.queue.messages, m.place = .dead → m.id ∈ s.tried := by
  obtain ⟨s, hs, hdead⟩ : ∃ s, (Site.machine Billing.handle).Reaches Site.Spares (Site.empty 2 .empty) s ∧
      ∃ m ∈ s.queue.messages, m.id = 1 ∧ m.place = .dead :=
    Machine.exists_reaches _ [.deliver "?", .deliver "?", .consumer 0 (.start ⟨10, 5⟩),
      .consumer 0 (.receive [0, 1] true), .consumer 0 .next, .consumer 0 .stop, .consumer 0 .next,
      .consumer 0 .exit, .expire 0, .expire 1, .consumer 0 (.start ⟨10, 5⟩),
      .consumer 0 (.receive [0, 1] true), .consumer 0 .next, .consumer 0 .next, .expire 0, .expire 1,
      .redrive 1] _ (by decide)
  exact ⟨s, hs, hdead, Site.dead_was_tried (by decide) hs⟩

/-- Two messages in one batch. The signal arrives while the first is tried, and
the second, which will not be received again, is given up at the break. -/
theorem Site.untried_in_dlq :
    ∃ s, (Site.machine Billing.handle).Reaches Machine.anyStep (Site.empty 1 .empty) s ∧
      ∃ m ∈ s.queue.messages, m.place = .dead ∧ m.id ∉ s.tried :=
  Machine.exists_reaches _ [.deliver "?", .deliver keyboardBody, .consumer 0 (.start ⟨10, 5⟩),
    .consumer 0 (.receive [0, 1] true), .consumer 0 .next, .consumer 0 .stop, .consumer 0 .next,
    .consumer 0 .exit, .expire 1, .redrive 1] _ (by decide)

end OutboxFanout
