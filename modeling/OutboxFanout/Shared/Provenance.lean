import OutboxFanout.Shared.Projection

/-!
# Where a row comes from

If every body put into the queue is a `Body`, so is every body a consumer has
in hand, and every row of the table was written for the event some `Body` reads
as.
-/

namespace OutboxFanout

section
variable {σ η α ε : Type} {handler : Handler σ η α ε} {s s' : Site σ η} {pc : ConsumerPc η}
  {Body Body' : String → Prop} {During : Json → η → Prop}

def ConsumerPc.From (Body : String → Prop) (During : Json → η → Prop) : ConsumerPc η → Prop
  | .down | .polling => True
  | .batch rest => ∀ d ∈ rest, Body d.body
  | .handling delivery event call rest =>
    (∀ d ∈ delivery :: rest, Body d.body) ∧ ReadsAs delivery.body event ∧ During event call
  | .deleting delivery _ rest => ∀ d ∈ delivery :: rest, Body d.body

structure Site.From (Body : String → Prop) (During : Json → η → Prop) (s : Site σ η) : Prop where
  queued : ∀ x ∈ s.queue.contents, Body x.2
  taken : ∀ c, (s.consumers c).pc.From Body During

theorem Site.From.empty {store : σ} : (Site.empty limit store).From Body During :=
  ⟨fun _ hx => absurd hx List.not_mem_nil, fun _ => trivial⟩

theorem ConsumerPc.From.mono (h : pc.From Body During) (hbody : ∀ body, Body body → Body' body) :
    pc.From Body' During := by
  cases pc with
  | down | polling => trivial
  | batch | deleting => exact fun d hd => hbody _ (h d hd)
  | handling =>
    obtain ⟨hbodies, hreads, hduring⟩ := h
    exact ⟨fun d hd => hbody _ (hbodies d hd), hreads, hduring⟩

theorem Site.From.mono (h : s.From Body During) (hbody : ∀ body, Body body → Body' body) :
    s.From Body' During :=
  ⟨fun x hx => hbody _ (h.queued x hx), fun c => (h.taken c).mono hbody⟩

theorem Site.From.put {p : Consumer η} {store : σ} {tried : List Nat} (h : s.From Body During)
    (hpc : p.pc.From Body During) : ({ s with store, tried }.put c p).From Body During :=
  ⟨h.queued, Site.forall_put hpc h.taken⟩

theorem Site.From.queue {queue : Queue String} (h : s.From Body During)
    (hqueue : ∀ x ∈ queue.contents, Body x.2) : { s with queue }.From Body During :=
  ⟨hqueue, h.taken⟩

theorem Handler.open_from (hstart : ∀ event call, handler.start event = .ok call → During event call)
    (hbodies : ∀ d ∈ delivery :: rest, Body d.body) :
    (handler.open_ depth delivery rest).From Body During := by
  have hrest : ∀ d ∈ rest, Body d.body := fun d hd => hbodies d (List.mem_cons_of_mem _ hd)
  refine Handler.open_cases hrest fun event call hparse hcall => ?_
  exact ⟨hbodies, ⟨depth, hparse⟩, hstart event call hcall⟩

theorem Site.From.step (h : s.From Body During)
    (hstart : ∀ event call, handler.start event = .ok call → During event call)
    (hcontinues : ∀ store event call answer store' call', During event call →
      handler.step store call answer = some (store', .continues call') → During event call')
    (hs : SiteStep handler s action s') (hdeliver : ∀ body, action = .deliver body → Body body) :
    s'.From Body During := by
  cases hs with
  | start | killCall | kill | exit | drop => exact h.put trivial
  | @stop c => exact h.put (h.taken c)
  | receive hpc hq hnext =>
    have hcontents : ∀ x ∈ s.queue.contents, Body x.2 := h.queued
    refine Site.From.put (h.queue ?_) ?_
    · rwa [(Queue.receive_eq hq).1, Queue.contents_move]
    · rcases hnext with ⟨-, rfl⟩ | ⟨-, rfl⟩
      · exact fun d hd => hcontents _ (Queue.mem_contents_of_receive hq hd)
      · trivial
  | @next c delivery rest hpc =>
    have hbodies := h.taken c
    rw [hpc] at hbodies
    exact h.put (Handler.open_from hstart hbodies)
  | @handle c delivery event call rest answer store progress hpc hcall =>
    have hhandling := h.taken c
    rw [hpc] at hhandling
    obtain ⟨hbodies, hreads, hduring⟩ := hhandling
    refine h.put ?_
    cases progress with
    | continues call' => exact ⟨hbodies, hreads, hcontinues _ _ _ _ _ _ hduring hcall⟩
    | returned => exact hbodies
    | raised => exact fun d hd => hbodies d (List.mem_cons_of_mem _ hd)
  | @delete c delivery event rest raised hpc =>
    have hbodies := h.taken c
    rw [hpc] at hbodies
    refine Site.From.put (h.queue fun x hx => h.queued x (Queue.contents_of_delete hx)) ?_
    exact fun d hd => hbodies d (List.mem_cons_of_mem _ hd)
  | @keep c delivery event rest raised hpc =>
    have hbodies := h.taken c
    rw [hpc] at hbodies
    exact h.put fun d hd => hbodies d (List.mem_cons_of_mem _ hd)
  | @deliver body =>
    refine h.queue fun x hx => ?_
    rw [Queue.contents_send] at hx
    rcases List.mem_append.mp hx with hx | hx
    · exact h.queued x hx
    · obtain rfl := List.mem_singleton.mp hx
      exact hdeliver body rfl
  | expire hq => exact h.queue (by rw [Queue.expire_eq hq, Queue.contents_move]; exact h.queued)
  | redrive hq => exact h.queue (by rw [Queue.redrive_eq hq, Queue.contents_move]; exact h.queued)
  | env => exact ⟨h.queued, h.taken⟩

end

-- ---------------------------------------------------------------------------
-- The rows of a projection
-- ---------------------------------------------------------------------------

namespace Projection

variable {ν δ ρ : Type} {p : Projection ν δ ρ} {s s' : Site (Table ρ) (Insert ν ρ)}
  {Body Body' : String → Prop}

/-- A row `handle` makes of the event. -/
def Writes (p : Projection ν δ ρ) (event : Json) (record : ρ) : Prop :=
  ∃ values draws, p.read event = .ok values ∧ record = p.row values draws

def Writing (p : Projection ν δ ρ) (event : Json) : Insert ν ρ → Prop
  | .ready values => p.read event = .ok values
  | .inserted record => p.Writes event record
  | .conflict _ => True

structure Sourced (p : Projection ν δ ρ) (Body : String → Prop) (s : Site (Table ρ) (Insert ν ρ)) :
    Prop where
  messages : s.From Body p.Writing
  rows : ∀ record ∈ s.store.rows, ∃ body event, Body body ∧ ReadsAs body event ∧ p.Writes event record

theorem Sourced.empty : Sourced p Body (.empty limit .empty) := ⟨.empty, nofun⟩

theorem Sourced.mono (h : Sourced p Body s) (hbody : ∀ body, Body body → Body' body) :
    Sourced p Body' s := by
  refine ⟨h.messages.mono hbody, fun record hmem => ?_⟩
  obtain ⟨body, event, hknown, hrest⟩ := h.rows record hmem
  exact ⟨body, event, hbody _ hknown, hrest⟩

theorem writing_start (h : p.handler.start event = .ok call) : p.Writing event call := by
  cases hread : p.read event with
  | error exc => simp [handler, hread, Except.map] at h
  | ok values =>
    simp only [handler, hread, Except.map] at h
    cases h
    exact hread

theorem Answered.writing (h : Answered p table call answer table' (.continues call'))
    (hwriting : p.Writing event call) : p.Writing event call' := by
  cases h with
  | conflict => trivial
  | inserted => exact ⟨_, _, hwriting, rfl⟩
  | committed hout => rcases hout with ⟨-, h⟩ | ⟨_, -, h⟩ <;> cases h

theorem Sourced.step (h : Sourced p Body s) (hs : SiteStep p.handler s action s')
    (hdeliver : ∀ body, action = .deliver body → Body body) : Sourced p Body s' := by
  refine ⟨h.messages.step (fun _ _ => writing_start)
    (fun _ _ _ _ _ _ hwriting hcall => (step_cases hcall).writing hwriting) hs hdeliver, ?_⟩
  cases hs with
  | @killCall c delivery event call rest =>
    cases call <;> exact h.rows
  | @handle c delivery event call rest answer store progress hpc hcall =>
    cases step_cases hcall with
    | committed =>
      intro record hmem
      rcases List.mem_append.mp hmem with hmem | hmem
      · exact h.rows record hmem
      · obtain rfl := List.mem_singleton.mp hmem
        have hhandling := h.messages.taken c
        rw [hpc] at hhandling
        obtain ⟨hbodies, hreads, hwrites⟩ := hhandling
        exact ⟨delivery.body, event, hbodies delivery List.mem_cons_self, hreads, hwrites⟩
    | _ => exact h.rows
  | @env event store hstore =>
    cases event
    cases hstore
    exact nofun
  | _ => exact h.rows

end Projection

end OutboxFanout
