import OutboxFanout.Shared.Consumer

/-!
# A message leaves the queue only once it is settled

`SiteStep` lists the steps of a site. `Settles` is what a handler owes the
loop: a call that returns has made `Done` true of its event, and `Done` is
never undone while the store only grows (`le`). Handling first and deleting
second then give `Site.Ok.kept`: a message is on the queue (or its dead letter
queue), or its event is done.
-/

namespace OutboxFanout

variable {σ η α ε : Type}

-- ---------------------------------------------------------------------------
-- The steps of a site
-- ---------------------------------------------------------------------------

inductive SiteStep (handler : Handler σ η α ε) (s : Site σ η) : SiteAction α ε → Site σ η → Prop
  | start {config : ConsumerConfig} (hpc : (s.consumers c).pc = .down) :
    SiteStep handler s (.consumer c (.start config)) (s.put c ⟨config, .polling, false⟩)
  | killCall (hpc : (s.consumers c).pc = .handling delivery event call rest) :
    SiteStep handler s (.consumer c .kill)
      ({ s with store := handler.die s.store call }.goto c .down)
  | kill (hpc : ∀ delivery event call rest,
      (s.consumers c).pc ≠ .handling delivery event call rest) :
    SiteStep handler s (.consumer c .kill) (s.goto c .down)
  | stop : SiteStep handler s (.consumer c .stop) (s.put c { s.consumers c with shutdown := true })
  | exit (hpc : (s.consumers c).pc = .polling) :
    SiteStep handler s (.consumer c .exit) (s.goto c .down)
  | receive (hpc : (s.consumers c).pc = .polling) (hq : s.queue.receive ids = some (deliveries, queue))
      (hnext : answered = true ∧ pc = .batch deliveries ∨ answered = false ∧ pc = .polling) :
    SiteStep handler s (.consumer c (.receive ids answered)) ({ s with queue }.goto c pc)
  | drop (hpc : (s.consumers c).pc = .batch rest)
      (hstop : rest = [] ∨ (s.consumers c).shutdown = true) :
    SiteStep handler s (.consumer c .next) (s.goto c .polling)
  | next (hpc : (s.consumers c).pc = .batch (delivery :: rest))
      (hrun : (s.consumers c).shutdown = false) :
    SiteStep handler s (.consumer c .next) ({ s with tried := delivery.id :: s.tried }.goto c
      (handler.open_ (s.consumers c).config.depth delivery rest))
  | handle (hpc : (s.consumers c).pc = .handling delivery event call rest)
      (hcall : handler.step s.store call answer = some (store, progress)) :
    SiteStep handler s (.consumer c (.handle answer))
      ({ s with store }.goto c (progress.pc delivery event rest))
  | delete (hpc : (s.consumers c).pc = .deleting delivery event rest) :
    SiteStep handler s (.consumer c (.delete raised true))
      ({ s with queue := s.queue.delete delivery.id }.goto c (.batch rest))
  | keep (hpc : (s.consumers c).pc = .deleting delivery event rest) :
    SiteStep handler s (.consumer c (.delete raised false)) (s.goto c (.batch rest))
  | deliver : SiteStep handler s (.deliver body) { s with queue := s.queue.send body }
  | expire (hq : s.queue.expire key = some queue) : SiteStep handler s (.expire key) { s with queue }
  | redrive (hq : s.queue.redrive key = some queue) :
    SiteStep handler s (.redrive key) { s with queue }
  | env (hstore : handler.env s.store event = some store) :
    SiteStep handler s (.env event) { s with store }

theorem Site.consumerStep_cases {handler : Handler σ η α ε} {s s' : Site σ η}
    (h : s.consumerStep handler c action = some s') : SiteStep handler s (.consumer c action) s' := by
  unfold Site.consumerStep at h
  dsimp only at h
  split at h
  next hpc => cases h; exact .start hpc
  next hpc => cases h; exact .killCall hpc
  next hpc => cases h; exact .kill hpc
  next => cases h; exact .stop
  next hpc =>
    split at h
    · cases h; exact .exit hpc
    · cases h
  next hpc =>
    split at h
    · obtain ⟨⟨deliveries, queue⟩, hq, heq⟩ := Option.map_eq_some_iff.mp h
      cases heq
      refine .receive hpc hq ?_
      split
      next hanswered => exact .inl ⟨hanswered, rfl⟩
      next hlost => exact .inr ⟨Bool.not_eq_true _ ▸ hlost, rfl⟩
    · cases h
  next hpc => cases h; exact .drop hpc (.inl rfl)
  next hpc =>
    split at h
    next hstop => cases h; exact .drop hpc (.inr hstop)
    next hrun => cases h; exact .next hpc (Bool.not_eq_true _ ▸ hrun)
  next hpc =>
    obtain ⟨⟨store, progress⟩, hcall, heq⟩ := Option.map_eq_some_iff.mp h
    cases heq
    exact .handle hpc hcall
  next raised removed _ _ _ hpc =>
    split at h
    · cases removed <;> cases h
      · exact .keep hpc
      · exact .delete hpc
    · cases h
  next => cases h

theorem Site.step_cases {handler : Handler σ η α ε} {s s' : Site σ η}
    (h : s.step handler action = some s') : SiteStep handler s action s' := by
  cases action with
  | consumer c action => exact Site.consumerStep_cases h
  | deliver body => cases h; exact .deliver
  | expire key =>
    obtain ⟨queue, hq, rfl⟩ := Option.map_eq_some_iff.mp h
    exact .expire hq
  | redrive key =>
    obtain ⟨queue, hq, rfl⟩ := Option.map_eq_some_iff.mp h
    exact .redrive hq
  | env event =>
    obtain ⟨store, hstore, rfl⟩ := Option.map_eq_some_iff.mp h
    exact .env hstore

theorem SiteStep.limit_eq {handler : Handler σ η α ε} {s s' : Site σ η}
    (hs : SiteStep handler s action s') : s'.queue.limit = s.queue.limit := by
  cases hs with
  | receive hpc hq hnext => rw [Site.goto_queue, (Queue.receive_eq hq).1]; rfl
  | expire hq => rw [Queue.expire_eq hq]; rfl
  | redrive hq => rw [Queue.redrive_eq hq]; rfl
  | _ => rfl

-- ---------------------------------------------------------------------------
-- Handle first, delete second
-- ---------------------------------------------------------------------------

/-- What a handler owes the loop. `le` is how its store may grow. -/
structure Settles (handler : Handler σ η α ε) (le : σ → σ → Prop) (During : σ → Json → η → Prop)
    (Done : σ → Json → Prop) : Prop where
  refl : ∀ {store}, le store store
  during_le : ∀ {store store' event call}, During store event call → le store store' →
    During store' event call
  done_le : ∀ {store store' event}, Done store event → le store store' → Done store' event
  start : ∀ {store event call}, handler.start event = .ok call → During store event call
  grows : ∀ {store call answer store' progress},
    handler.step store call answer = some (store', progress) → le store store'
  dies : ∀ {store call}, le store (handler.die store call)
  continues : ∀ {store event call answer store' call'}, During store event call →
    handler.step store call answer = some (store', .continues call') → During store' event call'
  returned : ∀ {store event call answer store'}, During store event call →
    handler.step store call answer = some (store', .returned) → Done store' event

/-- `_handle_one` reads the body as this event. -/
def ReadsAs (body : String) (event : Json) : Prop := ∃ depth, parseBody depth body = .ok event

section
variable {handler : Handler σ η α ε} {le : σ → σ → Prop} {During : σ → Json → η → Prop}
  {Done : σ → Json → Prop} {s s' : Site σ η} {queue queue' : Queue String} {store store' : σ}

def ConsumerPc.Ok (During : σ → Json → η → Prop) (Done : σ → Json → Prop) (queue : Queue String)
    (store : σ) : ConsumerPc η → Prop
  | .down | .polling => True
  | .batch rest => ∀ d ∈ rest, queue.Knows d
  | .handling delivery event call rest =>
    (∀ d ∈ delivery :: rest, queue.Knows d) ∧ ReadsAs delivery.body event ∧ During store event call
  | .deleting delivery event rest =>
    (∀ d ∈ delivery :: rest, queue.Knows d) ∧ ReadsAs delivery.body event ∧ Done store event

def Site.Ok (During : σ → Json → η → Prop) (Done : σ → Json → Prop) (s : Site σ η) : Prop :=
  ∀ c, (s.consumers c).pc.Ok During Done s.queue s.store

theorem Site.empty_ok : (Site.empty limit store).Ok During Done := fun _ => trivial

theorem ConsumerPc.Ok.later (hsettles : Settles handler le During Done) {pc : ConsumerPc η}
    (h : pc.Ok During Done queue store) (hqueue : queue.Later queue') (hstore : le store store') :
    pc.Ok During Done queue' store' := by
  cases pc with
  | down | polling => trivial
  | batch rest => exact fun d hd => (h d hd).later hqueue
  | handling =>
    obtain ⟨hknows, hreads, hduring⟩ := h
    exact ⟨fun d hd => (hknows d hd).later hqueue, hreads, hsettles.during_le hduring hstore⟩
  | deleting =>
    obtain ⟨hknows, hreads, hdone⟩ := h
    exact ⟨fun d hd => (hknows d hd).later hqueue, hreads, hsettles.done_le hdone hstore⟩

/-- One consumer moves on while queue and store grow. -/
theorem Site.Ok.put {p : Consumer η} {tried : List Nat}
    (hsettles : Settles handler le During Done) (h : s.Ok During Done)
    (hqueue : s.queue.Later queue) (hstore : le s.store store)
    (hpc : p.pc.Ok During Done queue store) :
    ({ s with queue, store, tried }.put c p).Ok During Done := by
  have hothers : ∀ c, (s.consumers c).pc.Ok During Done queue store := fun c =>
    (h c).later hsettles hqueue hstore
  exact Site.forall_put hpc hothers

theorem Handler.open_ok (hsettles : Settles handler le During Done)
    (hknows : ∀ d ∈ delivery :: rest, queue.Knows d) :
    (handler.open_ depth delivery rest).Ok During Done queue store := by
  have hrest : ∀ d ∈ rest, queue.Knows d := fun d hd => hknows d (List.mem_cons_of_mem _ hd)
  refine Handler.open_cases hrest fun event call hparse hcall => ?_
  exact ⟨hknows, ⟨depth, hparse⟩, hsettles.start hcall⟩

theorem Site.Ok.step (hsettles : Settles handler le During Done) (h : s.Ok During Done)
    (hs : SiteStep handler s action s')
    (henv : ∀ event store, action = .env event → handler.env s.store event = some store →
      le s.store store) : s'.Ok During Done := by
  have hlater := Queue.Later.refl s.queue
  have hle : le s.store s.store := hsettles.refl
  cases hs with
  | start => exact h.put hsettles hlater hle trivial
  | killCall => exact h.put hsettles hlater hsettles.dies trivial
  | kill => exact h.put hsettles hlater hle trivial
  | stop => exact h.put hsettles hlater hle (h _)
  | exit => exact h.put hsettles hlater hle trivial
  | receive hpc hq hnext =>
    have hmove := (Queue.receive_eq hq).1
    refine h.put hsettles (hmove ▸ .move) hle ?_
    rcases hnext with ⟨-, rfl⟩ | ⟨-, rfl⟩
    · exact fun d hd => (Queue.Knows.receive hq hd).later (hmove ▸ .move)
    · trivial
  | drop => exact h.put hsettles hlater hle trivial
  | @next c delivery rest hpc =>
    have hok := h c
    rw [hpc] at hok
    exact h.put hsettles hlater hle (Handler.open_ok hsettles hok)
  | @handle c delivery event call rest answer store progress hpc hcall =>
    have hok := h c
    rw [hpc] at hok
    obtain ⟨hknows, hreads, hduring⟩ := hok
    refine h.put hsettles hlater (hsettles.grows hcall) ?_
    cases progress with
    | continues call' => exact ⟨hknows, hreads, hsettles.continues hduring hcall⟩
    | returned => exact ⟨hknows, hreads, hsettles.returned hduring hcall⟩
    | raised exc => exact fun d hd => hknows d (List.mem_cons_of_mem _ hd)
  | @delete c delivery event rest raised hpc =>
    have hok := h c
    rw [hpc] at hok
    refine h.put hsettles .delete hle fun d hd => ?_
    exact (hok.1 d (List.mem_cons_of_mem _ hd)).later .delete
  | @keep c delivery event rest raised hpc =>
    have hok := h c
    rw [hpc] at hok
    exact h.put hsettles hlater hle fun d hd => hok.1 d (List.mem_cons_of_mem _ hd)
  | deliver => exact fun c => (h c).later hsettles .send hle
  | expire hq => exact fun c => (h c).later hsettles (Queue.expire_eq hq ▸ .move) hle
  | redrive hq => exact fun c => (h c).later hsettles (Queue.redrive_eq hq ▸ .move) hle
  | env hstore => exact fun c => (h c).later hsettles hlater (henv _ _ rfl hstore)

/-- The message is on the queue or its dead letter queue, or its event is done. -/
def Site.Kept (Done : σ → Json → Prop) (s : Site σ η) (x : Nat × String) : Prop :=
  x ∈ s.queue.contents ∨ ∃ event, ReadsAs x.2 event ∧ Done s.store event

theorem SiteStep.store_le (hsettles : Settles handler le During Done)
    (hs : SiteStep handler s action s')
    (henv : ∀ event store, action = .env event → handler.env s.store event = some store →
      le s.store store) : le s.store s'.store := by
  cases hs with
  | killCall => exact hsettles.dies
  | handle hpc hcall => exact hsettles.grows hcall
  | env hstore => exact henv _ _ rfl hstore
  | _ => exact hsettles.refl

theorem SiteStep.contents {x : Nat × String} (hs : SiteStep handler s action s')
    (hx : x ∈ s.queue.contents) :
    x ∈ s'.queue.contents ∨
      ∃ c delivery event rest, (s.consumers c).pc = .deleting delivery event rest ∧ x.1 = delivery.id := by
  cases hs with
  | receive hpc hq hnext =>
    left
    rwa [Site.goto_queue, (Queue.receive_eq hq).1, Queue.contents_move]
  | @delete c delivery event rest raised hpc =>
    by_cases hid : x.1 = delivery.id
    · exact .inr ⟨c, delivery, event, rest, hpc, hid⟩
    · exact .inl (Queue.contents_delete_of_ne hx hid)
  | deliver => exact .inl (Queue.contents_send ▸ List.mem_append_left _ hx)
  | expire hq => exact .inl (by rwa [Queue.expire_eq hq, Queue.contents_move])
  | redrive hq => exact .inl (by rwa [Queue.redrive_eq hq, Queue.contents_move])
  | _ => exact .inl hx

theorem Site.Ok.kept {x : Nat × String} (hsettles : Settles handler le During Done)
    (h : s.Ok During Done) (hs : SiteStep handler s action s')
    (henv : ∀ event store, action = .env event → handler.env s.store event = some store →
      le s.store store) (hx : s.Kept Done x) : s'.Kept Done x := by
  have hle := hs.store_le hsettles henv
  rcases hx with hx | ⟨event, hreads, hdone⟩
  · rcases hs.contents hx with hx' | ⟨c, delivery, event, rest, hpc, hid⟩
    · exact .inl hx'
    · have hok := h c
      rw [hpc] at hok
      obtain ⟨hknows, hreads, hdone⟩ := hok
      obtain ⟨key, body⟩ := x
      obtain rfl : key = delivery.id := hid
      obtain rfl := (hknows delivery List.mem_cons_self).body body hx
      exact .inr ⟨event, hreads, hsettles.done_le hdone hle⟩
  · exact .inr ⟨event, hreads, hsettles.done_le hdone hle⟩

end

-- ---------------------------------------------------------------------------
-- What the calls in progress hold
-- ---------------------------------------------------------------------------

section
variable {κ : Type} {held : η → Option κ} {holder : ConsumerId → Option κ}

/-- `held` says what a call holds of the store; here by consumer. -/
def Site.holders (held : η → Option κ) (s : Site σ η) (c : ConsumerId) : Option κ :=
  (s.consumers c).pc.call?.bind held

theorem Site.holders_put {s : Site σ η} :
    (s.put c p).holders held = Function.update (s.holders held) c (p.pc.call?.bind held) := by
  funext c'
  by_cases hc : c' = c
  · subst hc
    simp [Site.holders, Site.put]
  · simp [Site.holders, Site.put, hc]

/-- A call ends: whoever else holds something still does. -/
theorem holder_of_leave (h : Function.update holder c none c' = some x) :
    c' ≠ c ∧ holder c' = some x := by
  by_cases hc : c' = c
  · subst hc
    simp at h
  · exact ⟨hc, by rwa [Function.update_of_ne hc] at h⟩

theorem holder_of_acquire (h : Function.update holder c (some taken) c' = some x) :
    c' = c ∧ x = taken ∨ c' ≠ c ∧ holder c' = some x := by
  by_cases hc : c' = c
  · subst hc
    rw [Function.update_self] at h
    exact .inl ⟨rfl, (Option.some.inj h).symm⟩
  · exact .inr ⟨hc, by rwa [Function.update_of_ne hc] at h⟩

/-- What nobody held is held by its taker alone. -/
theorem alone_of_acquire (halone : ∀ c c' x, holder c = some x → holder c' = some x → c = c')
    (hfree : ∀ c, holder c ≠ some taken) (h : Function.update holder c (some taken) c₁ = some x)
    (h' : Function.update holder c (some taken) c₂ = some x) : c₁ = c₂ := by
  rcases holder_of_acquire h with ⟨rfl, heq⟩ | ⟨-, hold⟩ <;>
    rcases holder_of_acquire h' with ⟨rfl, heq'⟩ | ⟨-, hold'⟩
  · rfl
  · exact absurd (heq ▸ hold') (hfree c₂)
  · exact absurd (heq' ▸ hold) (hfree c₁)
  · exact halone c₁ c₂ x hold hold'

end

end OutboxFanout
