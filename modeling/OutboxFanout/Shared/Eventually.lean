import OutboxFanout.Lib.Fair
import OutboxFanout.Outage
import OutboxFanout.Shared.Completion

/-!
# What becomes of a message in the end

Whatever handlers and consumers do, a message that never stands still on the
queue is handled at some time or dead: it is received `maxReceiveCount` times at
most (`Moves.exists_left`). And while the consumers of Billing or Shipping are
served (SQS and the database answer, nobody is killed or stopped) and none
stands still in the midst of its batch, whatever can be received is handled
(`Served.exists_handled`): each step of a consumer brings it nearer to the end
of its batch.
-/

namespace OutboxFanout

-- ---------------------------------------------------------------------------
-- Any consumers
-- ---------------------------------------------------------------------------

section
variable {σ η α ε : Type} {handler : Handler σ η α ε} {s s' : Site σ η} {m : Message String}

/-- Where the message is, and how often it was received. -/
def Site.whereabouts (s : Site σ η) (key : Nat) : Option (Place × Nat) :=
  (s.queue.find key).map fun m => (m.place, m.receives)

def Site.Dead (s : Site σ η) (key : Nat) : Prop := ∃ m ∈ s.queue.messages, m.id = key ∧ m.place = .dead

theorem SiteStep.dead_stays (hs : SiteStep handler s action s') (hm : m ∈ s.queue.messages)
    (hdead : m.place = .dead) : m ∈ s'.queue.messages := by
  cases hs.turn hm with
  | stays hm' => exact hm'
  | handled hplace => exact absurd hdead hplace
  | received _ _ _ _ hplace | expired hplace | redriven hplace =>
    rw [hdead] at hplace
    cases hplace

theorem Site.whereabouts_eq (hm : m ∈ s.queue.messages) :
    s.whereabouts m.id = some (m.place, m.receives) := by
  rw [whereabouts, Queue.find_eq hm, Option.map_some]

/-- The moves a message can still make on a queue of this limit. -/
def movesLeft (limit : Nat) : Option (Place × Nat) → Nat
  | some (.visible, receives) => 2 * (limit - receives) + 1
  | some (.inFlight, receives) => 2 * (limit - receives) + 2
  | some (.dead, _) | none => 0

theorem SiteStep.movesLeft_lt (hs : SiteStep handler s action s') (h : s.Holds key) :
    s.Handled key ∨ s'.Holds key ∧ (s'.whereabouts key = s.whereabouts key ∨
      movesLeft s.queue.limit (s'.whereabouts key) < movesLeft s.queue.limit (s.whereabouts key)) := by
  obtain ⟨m, hm, rfl⟩ := h
  have hto : ∀ m' ∈ s'.queue.messages, m'.id = m.id →
      movesLeft s.queue.limit (some (m'.place, m'.receives)) <
        movesLeft s.queue.limit (some (m.place, m.receives)) →
      s'.Holds m.id ∧ (s'.whereabouts m.id = s.whereabouts m.id ∨
        movesLeft s.queue.limit (s'.whereabouts m.id) <
          movesLeft s.queue.limit (s.whereabouts m.id)) := by
    intro m' hm' hid hlt
    rw [Site.whereabouts_eq hm, ← hid, Site.whereabouts_eq hm']
    exact ⟨⟨m', hm', rfl⟩, .inr hlt⟩
  cases hs.turn hm with
  | stays hm' =>
    exact .inr ⟨⟨m, hm', rfl⟩, .inl ((Site.whereabouts_eq hm').trans (Site.whereabouts_eq hm).symm)⟩
  | handled _ hhandled => exact .inl hhandled
  | received c ids answered _ hplace hleft hm' =>
    refine .inr (hto _ hm' rfl ?_)
    simp only [hplace, movesLeft]
    omega
  | expired hplace hm' =>
    refine .inr (hto _ hm' rfl ?_)
    simp [hplace, movesLeft]
  | redriven hplace _ hm' =>
    refine .inr (hto _ hm' rfl ?_)
    simp [hplace, movesLeft]

/-- No message that is not dead stays for ever as it is: what is visible is
received or redriven, what is in flight is deleted or becomes visible again. -/
def Moves (run : (Site.machine handler).Run) : Prop :=
  ∀ key place receives, place ≠ .dead → run.Ends (Site.whereabouts · key = some (place, receives))

variable {run : (Site.machine handler).Run}

theorem Moves.exists_left (h : Moves run) (hholds : (run.state n).Holds key) :
    ∃ k ≥ n, (run.state k).Handled key ∨ (run.state k).Dead key := by
  refine Machine.Run.exists_of_descent (P := fun k => (run.state k).Holds key ∧
      (run.state k).queue.limit = (run.state n).queue.limit) (fun k => (run.state k).whereabouts key)
    (movesLeft (run.state n).queue.limit) (fun k hk => ?_) (fun k hk => ?_) ⟨hholds, rfl⟩
  · obtain ⟨hholds, hlimit⟩ := hk
    rcases run.next k with hrest | ⟨action, -, hs⟩
    · rw [hrest]
      exact .inr ⟨⟨hholds, hlimit⟩, .inl rfl⟩
    · have hs := Site.step_cases hs
      rcases hs.movesLeft_lt hholds with hhandled | ⟨hholds', hmove⟩
      · exact .inl (.inl hhandled)
      · rw [hlimit] at hmove
        exact .inr ⟨⟨hholds', hs.limit_eq.trans hlimit⟩, hmove⟩
  · obtain ⟨⟨m, hm, rfl⟩, -⟩ := hk
    have hwhere := Site.whereabouts_eq hm
    by_cases hdead : m.place = .dead
    · exact ⟨k, le_rfl, .inl (.inr ⟨m, hm, rfl, hdead⟩)⟩
    · obtain ⟨l, hl, hleft⟩ := h m.id m.place m.receives hdead k hwhere
      exact ⟨l, hl, .inr (hwhere ▸ hleft)⟩

-- ---------------------------------------------------------------------------
-- Consumers that are served
-- ---------------------------------------------------------------------------

/-- How a handler's calls come to their end: each answer that does not end a call
brings it nearer, and a call that is `sound` returns when it is answered well. -/
structure Calls (handler : Handler σ η α ε) where
  well : α → Prop
  -- what may happen to the store meanwhile
  allowed : ε → Prop
  sound : η → Prop
  work : η → Nat
  bound : Nat
  work_le : ∀ call, work call ≤ bound
  continues : ∀ {store call answer store' call'},
    handler.step store call answer = some (store', .continues call') → work call' < work call
  returns : ∀ {store call answer store' progress}, sound call → well answer →
    handler.step store call answer = some (store', progress) →
    progress = .returned ∨ ∃ call', progress = .continues call' ∧ sound call'

namespace Calls

variable (calls : Calls handler)

/-- SQS and the store answer, no process is killed or stopped, and each that
starts can nest the event's two containers, and those of a body it is to read. -/
def Serves (s : Site σ η) : SiteAction α ε → Prop
  | .consumer _ (.start config) => 2 ≤ config.depth
  | .consumer c .next =>
    ∀ d ∈ (s.consumers c).pc.waiting.head?, Nests (s.consumers c).config.depth d.body
  | .consumer _ .kill | .consumer _ .stop => False
  | .consumer _ (.receive _ answered) => answered = true
  | .consumer _ (.handle answer) => calls.well answer
  | .env event => calls.allowed event
  | _ => True

/-- Whoever nests as deep as the body makes a sound call for it. -/
def Opens (body : String) : Prop :=
  ∀ depth ≥ 2, Nests depth body → ∃ event call, parseBody depth body = .ok event ∧
    handler.start event = .ok call ∧ calls.sound call

/-- The steps to the end of the batch. -/
def left : ConsumerPc η → Nat
  | .down | .polling => 0
  | .batch rest => (calls.bound + 3) * rest.length
  | .handling _ _ call rest => (calls.bound + 3) * rest.length + calls.work call + 2
  | .deleting _ _ rest => (calls.bound + 3) * rest.length + 1

/-- The message waits, or is being handled soundly or deleted. -/
def InHand (key : Nat) : ConsumerPc η → Prop
  | .down | .polling => False
  | .batch rest => ∃ d ∈ rest, d.id = key
  | .handling delivery _ call rest => delivery.id = key ∧ calls.sound call ∨ ∃ d ∈ rest, d.id = key
  | .deleting delivery _ rest => ∃ d ∈ delivery :: rest, d.id = key

end Calls

/-- Whoever is running goes on running. -/
def Site.Able (s : Site σ η) : Prop :=
  ∀ c, (s.consumers c).pc ≠ .down → (s.consumers c).shutdown = false ∧ 2 ≤ (s.consumers c).config.depth

variable {calls : Calls handler}

theorem Site.Able.batch (h : s.Able) (hpc : (s.consumers c).pc = .batch rest) :
    (s.consumers c).shutdown = false ∧ 2 ≤ (s.consumers c).config.depth :=
  h c (by rw [hpc]; nofun)

theorem Site.Able.put {queue : Queue String} {store : σ} {tried : List Nat} {q : Consumer η}
    (h : s.Able) (hq : q.pc ≠ .down → q.shutdown = false ∧ 2 ≤ q.config.depth) :
    ({ s with queue, store, tried }.put c q).Able := by
  intro c' hpc
  by_cases hc : c' = c
  · subst hc
    simpa [Site.put] using hq (by simpa [Site.put] using hpc)
  · simpa [Site.put, hc] using h c' (by simpa [Site.put, hc] using hpc)

theorem Site.Able.step (h : s.Able) (hs : SiteStep handler s action s')
    (hserves : calls.Serves s action) : s'.Able := by
  have hgoto : ∀ {queue : Queue String} {store : σ} {tried : List Nat} {c : ConsumerId}
      {pc : ConsumerPc η}, (s.consumers c).pc ≠ .down → ({ s with queue, store, tried }.goto c pc).Able :=
    fun hpc => h.put fun _ => h _ hpc
  cases hs with
  | start => exact h.put fun _ => ⟨rfl, hserves⟩
  | kill | killCall | stop => exact hserves.elim
  | deliver | expire | redrive | env => exact h
  | exit hpc | receive hpc | drop hpc | next hpc | handle hpc | delete hpc | keep hpc =>
    exact hgoto (by rw [hpc]; nofun)

/-- A message that can be received is received, or stays as it is. -/
theorem Calls.receivable_step (h : s.Receivable key) (hs : SiteStep handler s action s')
    (hserves : calls.Serves s action) : s'.Receivable key ∨ s.Handled key ∨ s'.Waits key := by
  obtain ⟨m, hm, rfl, hvisible, hleft⟩ := h
  cases hs.turn hm with
  | stays hm' => exact .inl ⟨m, hm', rfl, hvisible, hs.limit_eq ▸ hleft⟩
  | handled _ hhandled => exact .inr (.inl hhandled)
  | received c ids answered haction _ _ _ hwaits =>
    rw [haction] at hserves
    exact .inr (.inr (hwaits hserves))
  | expired hplace =>
    rw [hvisible] at hplace
    cases hplace
  | redriven _ hdue => exact absurd hdue (Nat.not_le.mpr hleft)

namespace Calls

theorem inHand_of_waiting {pc : ConsumerPc η} (hd : d ∈ pc.waiting) (hid : d.id = key) :
    calls.InHand key pc := by
  cases pc with
  | down | polling => cases hd
  | batch => exact ⟨d, hd, hid⟩
  | handling => exact .inr ⟨d, hd, hid⟩
  | deleting => exact ⟨d, List.mem_cons_of_mem _ hd, hid⟩

theorem left_handling_lt : calls.left (.handling d event call rest) <
    calls.left (.batch (delivery :: rest)) := by
  have hwork := calls.work_le call
  simp only [left, List.length_cons, Nat.mul_succ]
  omega

theorem left_batch_lt :
    calls.left (.batch rest) < calls.left (.batch (delivery :: rest)) := by
  simp [left, Nat.mul_succ]

/-- The handler is called for the message, or the one before it is passed. -/
theorem next_step (hdepth : 2 ≤ depth) (hnests : Nests depth delivery.body)
    (hopens : delivery.id = key → calls.Opens delivery.body)
    (hin : calls.InHand key (.batch (delivery :: rest))) :
    calls.InHand key (handler.open_ depth delivery rest) ∧
      calls.left (handler.open_ depth delivery rest) < calls.left (.batch (delivery :: rest)) := by
  obtain ⟨d, hd, hid⟩ := hin
  by_cases hfirst : delivery.id = key
  · obtain ⟨event, call, hparse, hstart, hsound⟩ := hopens hfirst depth hdepth hnests
    rw [Handler.open_starts hparse hstart]
    exact ⟨.inl ⟨hfirst, hsound⟩, left_handling_lt⟩
  · have hrest : d ∈ rest := (List.mem_cons.mp hd).resolve_left fun heq => hfirst (heq ▸ hid)
    exact Handler.open_cases ⟨⟨d, hrest, hid⟩, left_batch_lt⟩
      fun event call _ _ => ⟨.inr ⟨d, hrest, hid⟩, left_handling_lt⟩

/-- An answer takes the call one step further, or ends that of another message. -/
theorem handle_step (hin : calls.InHand key (.handling delivery event call rest))
    (hcall : handler.step store call answer = some (store', progress)) (hwell : calls.well answer) :
    calls.InHand key (progress.pc delivery event rest) ∧
      calls.left (progress.pc delivery event rest) < calls.left (.handling delivery event call rest) := by
  have hlt : calls.left (progress.pc delivery event rest) <
      calls.left (.handling delivery event call rest) := by
    cases progress with
    | continues call' =>
      have hwork := calls.continues hcall
      simp only [Progress.pc, left]
      omega
    | returned | raised =>
      simp only [Progress.pc, left]
      omega
  refine ⟨?_, hlt⟩
  rcases hin with ⟨hid, hsound⟩ | ⟨d, hd, hid⟩
  · obtain rfl | ⟨call', rfl, hsound'⟩ := calls.returns hsound hwell hcall
    · exact ⟨delivery, List.mem_cons_self, hid⟩
    · exact .inl ⟨hid, hsound'⟩
  · cases progress with
    | continues => exact .inr ⟨d, hd, hid⟩
    | returned => exact ⟨d, List.mem_cons_of_mem _ hd, hid⟩
    | raised => exact ⟨d, hd, hid⟩

/-- A step of another process, or one to the next call for the message or past another. -/
theorem inHand_step (h : calls.InHand key (s.consumers c).pc) (hable : s.Able) (hnot : ¬s.Handled key)
    (hopens : ∀ d ∈ (s.consumers c).pc.inHand, d.id = key → calls.Opens d.body)
    (hs : SiteStep handler s action s') (hserves : calls.Serves s action) :
    calls.InHand key (s'.consumers c).pc ∧ ((s'.consumers c).pc = (s.consumers c).pc ∨
      calls.left (s'.consumers c).pc < calls.left (s.consumers c).pc) := by
  have hput : ∀ {queue : Queue String} {store : σ} {tried : List Nat} {c' : ConsumerId} {q : Consumer η},
      (c = c' → calls.InHand key q.pc ∧ calls.left q.pc < calls.left (s.consumers c).pc) →
      calls.InHand key (({ s with queue, store, tried }.put c' q).consumers c).pc ∧
        ((({ s with queue, store, tried }.put c' q).consumers c).pc = (s.consumers c).pc ∨
          calls.left (({ s with queue, store, tried }.put c' q).consumers c).pc <
            calls.left (s.consumers c).pc) := by
    intro queue store tried c' q hq
    by_cases hc : c = c'
    · obtain ⟨hin, hlt⟩ := hq hc
      subst hc
      exact ⟨by simpa [Site.put] using hin, .inr (by simpa [Site.put] using hlt)⟩
    · have hsame : ({ s with queue, store, tried }.put c' q).consumers c = s.consumers c := by
        simp [Site.put, hc]
      rw [hsame]
      exact ⟨h, .inl rfl⟩
  cases hs with
  | kill | killCall | stop => exact hserves.elim
  | deliver | expire | redrive | env => exact ⟨h, .inl rfl⟩
  | start hpc | exit hpc | receive hpc =>
    refine hput ?_
    rintro rfl
    rw [hpc] at h
    exact h.elim
  | drop hpc hstop =>
    refine hput ?_
    rintro rfl
    rcases hstop with rfl | hstop
    · rw [hpc] at h
      obtain ⟨d, hd, -⟩ := h
      cases hd
    · rw [(hable.batch hpc).1] at hstop
      cases hstop
  | @next c' delivery rest hpc =>
    refine hput ?_
    rintro rfl
    have hdepth := (hable.batch hpc).2
    have hnests : Nests (s.consumers c).config.depth delivery.body := hserves delivery (by rw [hpc]; rfl)
    rw [hpc] at h hopens ⊢
    exact next_step hdepth hnests (hopens delivery List.mem_cons_self) h
  | handle hpc hcall =>
    refine hput ?_
    rintro rfl
    rw [hpc] at h ⊢
    exact handle_step h hcall hserves
  | @delete c' delivery event rest raised hpc | @keep c' delivery event rest raised hpc =>
    refine hput ?_
    rintro rfl
    have hother : delivery.id ≠ key := fun hkey => hnot ⟨c, delivery, event, rest, hpc, hkey⟩
    rw [hpc] at h ⊢
    obtain ⟨d, hd, hid⟩ := h
    have hrest : d ∈ rest := (List.mem_cons.mp hd).resolve_left fun heq => hother (heq ▸ hid)
    exact ⟨⟨d, hrest, hid⟩, Nat.lt_succ_self _⟩

end Calls

/-- The consumers are served, no message that can be received is left for ever,
and no process with messages in hand stands still for ever. -/
structure Served (calls : Calls handler) (run : (Site.machine handler).Run) : Prop where
  within : run.Within calls.Serves
  able : (run.state 0).Able
  received : ∀ key, run.Ends (Site.Receivable · key)
  moves : ∀ c pc, pc.inHand ≠ [] → run.Ends fun s => (s.consumers c).pc = pc

theorem Served.able_at (h : Served calls run) (k : Nat) : (run.state k).Able :=
  (h.within.reaches (Nat.zero_le k)).invariant h.able fun _ _ _ ht hserves hs =>
    ht.step (Site.step_cases hs) hserves

theorem Calls.inHand_ne_nil {pc : ConsumerPc η} (h : calls.InHand key pc) : pc.inHand ≠ [] := by
  cases pc with
  | down | polling => exact h.elim
  | handling | deleting => exact List.cons_ne_nil _ _
  | batch =>
    obtain ⟨d, hd, -⟩ := h
    exact List.ne_nil_of_mem hd

theorem Served.handled_of_inHand (h : Served calls run)
    (hopens : ∀ k ≥ n, ∀ c, ∀ d ∈ ((run.state k).consumers c).pc.inHand, d.id = key → calls.Opens d.body)
    (hin : calls.InHand key ((run.state n).consumers c).pc) : ∃ k ≥ n, (run.state k).Handled key := by
  refine Machine.Run.exists_of_descent
    (P := fun k => n ≤ k ∧ calls.InHand key ((run.state k).consumers c).pc)
    (fun k => ((run.state k).consumers c).pc) calls.left (fun k hk => ?_) (fun k hk => ?_) ⟨le_rfl, hin⟩
  · obtain ⟨hk, hin⟩ := hk
    by_cases hhandled : (run.state k).Handled key
    · exact .inl hhandled
    · right
      rcases run.next k with hrest | ⟨action, haction, hs⟩
      · rw [hrest]
        exact ⟨⟨Nat.le_succ_of_le hk, hin⟩, .inl rfl⟩
      · obtain ⟨hin', hmove⟩ := Calls.inHand_step hin (h.able_at k) hhandled (hopens k hk c)
          (Site.step_cases hs) (h.within k action haction)
        exact ⟨⟨Nat.le_succ_of_le hk, hin'⟩, hmove⟩
  · obtain ⟨-, hin⟩ := hk
    obtain ⟨l, hl, hleft⟩ := h.moves c _ (Calls.inHand_ne_nil hin) k rfl
    exact ⟨l, hl, .inr hleft⟩

theorem Served.exists_handled (h : Served calls run)
    (hopens : ∀ k ≥ n, ∀ c, ∀ d ∈ ((run.state k).consumers c).pc.inHand, d.id = key → calls.Opens d.body)
    (hreceivable : (run.state n).Receivable key) : ∃ k ≥ n, (run.state k).Handled key := by
  obtain ⟨k, hk, hhandled | ⟨c, d, hd, hid⟩⟩ := h.within.leads
    (Q := fun s => s.Handled key ∨ s.Waits key) (h.received key) hreceivable
    fun s action s' hp hserves hs => by
      rcases Calls.receivable_step hp (Site.step_cases hs) hserves with hp' | hhandled | hwaits
      · exact .inl hp'
      · exact .inr (.inl (.inl hhandled))
      · exact .inr (.inr (.inr hwaits))
  · exact ⟨k, hk, hhandled⟩
  · obtain ⟨l, hl, hhandled⟩ := h.handled_of_inHand (fun l hl => hopens l (hk.trans hl))
      (Calls.inHand_of_waiting hd hid)
    exact ⟨l, hk.trans hl, hhandled⟩

end

-- ---------------------------------------------------------------------------
-- Billing and Shipping
-- ---------------------------------------------------------------------------

namespace Projection

variable {ν δ ρ : Type} {p : Projection ν δ ρ} {s : Site (Table ρ) (Insert ν ρ)}
  {run : (Site.machine p.handler).Run}

/-- Whoever nests as deep as the body reads an event of this order. -/
structure Tells (p : Projection ν δ ρ) (body : String) (order : UUID) : Prop where
  parses : ∀ depth ≥ 2, Nests depth body → ∃ event, parseBody depth body = .ok event
  reads : ∀ event, ReadsAs body event → ∃ values, p.read event = .ok values ∧ p.orderId values = order

/-- The table has a row for the order of a message that is about to be deleted. -/
theorem holds_of_handled (hok : s.Ok p.During p.Done)
    (htells : ∀ c, ∀ d ∈ (s.consumers c).pc.inHand, d.id = key → p.Tells d.body order)
    (h : s.Handled key) : p.Holds s.store order := by
  obtain ⟨c, delivery, event, rest, hpc, hid⟩ := h
  have hdone := hok c
  rw [hpc] at hdone
  obtain ⟨-, hreads, values, hread, hholds⟩ := hdone
  have hinHand : delivery ∈ (s.consumers c).pc.inHand := hpc ▸ List.mem_cons_self
  obtain ⟨values', hread', rfl⟩ := (htells c delivery hinHand hid).reads event hreads
  obtain rfl := Except.ok.inj (hread.symm.trans hread')
  exact hholds

/-- The database executes and commits. -/
def Well : InsertAnswer δ → Prop
  | .execute _ | .commit .done => True
  | _ => False

def work : Insert ν ρ → Nat
  | .ready _ => 1
  | _ => 0

theorem work_le {call : Insert ν ρ} : work call ≤ 1 := by cases call <;> simp [work]

theorem Answered.work_lt {call call' : Insert ν ρ}
    (h : Answered p table call answer table' (.continues call')) : work call' < work call := by
  cases h with
  | conflict | inserted => exact Nat.zero_lt_one
  | committed hout => rcases hout with ⟨-, heq⟩ | ⟨_, -, heq⟩ <;> cases heq

theorem Answered.not_raised {call : Insert ν ρ} {progress : Progress (Insert ν ρ)}
    (h : Answered p table call answer table' progress) (hwell : Well answer) :
    progress = .returned ∨ ∃ call', progress = .continues call' ∧ True := by
  cases h with
  | conflict | inserted => exact .inr ⟨_, rfl, trivial⟩
  | ignored => exact .inl rfl
  | executeFails | refused => exact hwell.elim
  | committed hout =>
    obtain ⟨-, rfl⟩ | ⟨error, rfl, -⟩ := hout
    · exact .inl rfl
    · exact hwell.elim
  | ignoredFails hout => rcases hout with rfl | rfl <;> exact hwell.elim

/-- Nobody wipes the table. -/
def calls (p : Projection ν δ ρ) : Calls p.handler where
  well := Well
  allowed _ := False
  sound _ := True
  work := work
  bound := 1
  work_le _ := work_le
  continues hcall := (step_cases hcall).work_lt
  returns _ hwell hcall := (step_cases hcall).not_raised hwell

theorem Tells.opens (h : p.Tells body order) : p.calls.Opens body := by
  intro depth hdepth hnests
  obtain ⟨event, hparse⟩ := h.parses depth hdepth hnests
  obtain ⟨values, hread, -⟩ := h.reads event ⟨depth, hparse⟩
  exact ⟨event, .ready values, hparse, start_of_read hread, trivial⟩

theorem ok_of_served (h : Served p.calls run) (hok : (run.state 0).Ok p.During p.Done) (k : Nat) :
    (run.state k).Ok p.During p.Done := by
  refine (h.within.reaches (Nat.zero_le k)).invariant hok fun t action u ht hserves hs =>
    ht.step p.settles (Site.step_cases hs) ?_
  rintro event table rfl
  exact hserves.elim

/-- The table gets a row for the order of a message that can be received. -/
theorem exists_holds (h : Served p.calls run) (hok : (run.state 0).Ok p.During p.Done)
    (htells : ∀ k ≥ n, ∀ c, ∀ d ∈ ((run.state k).consumers c).pc.inHand, d.id = key →
      p.Tells d.body order)
    (hreceivable : (run.state n).Receivable key) : ∃ k ≥ n, p.Holds (run.state k).store order := by
  obtain ⟨k, hk, hhandled⟩ := h.exists_handled
    (fun k hk c d hd hid => (htells k hk c d hd hid).opens) hreceivable
  exact ⟨k, hk, holds_of_handled (ok_of_served h hok k) (htells k hk) hhandled⟩

end Projection

end OutboxFanout
