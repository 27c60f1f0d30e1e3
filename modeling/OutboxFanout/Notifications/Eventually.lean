import OutboxFanout.Notifications.Claims
import OutboxFanout.Shared.Eventually

/-!
# An order nobody has claimed is notified

While the consumers are served, whoever claims a key sends under it: nobody is
killed in between, and the send does not raise. So a delivery that is turned
away is turned away by a claim that has sent or is about to (`Tended`), and a
message that is handled leaves its order notified (`exists_sent`), whether or
not keys expire meanwhile.
-/

namespace OutboxFanout.Notifications

variable {config : Config} {store store' : Store} {s s' : State}

-- ---------------------------------------------------------------------------
-- Calls that are answered well
-- ---------------------------------------------------------------------------

/-- Redis executes and answers, the send does not raise. -/
def Well : Answer → Prop
  | .set reply | .get reply | .del reply => reply = .ok
  | .send result => result = .ok ()

/-- The send will not raise by itself. -/
def Call.Sound : Call → Prop
  | .claiming _ _ payload | .claimed _ _ payload => sendable payload = .ok ()
  | .duplicate _ => True
  | .releasing .. => False

def Call.work : Call → Nat
  | .claiming .. => 2
  | .claimed .. => 1
  | .duplicate _ | .releasing .. => 0

theorem Call.work_le {call : Call} : call.work ≤ 2 := by cases call <;> simp [work]

theorem Answered.work_lt (h : Answered config store call answer store' (.continues call')) :
    call'.work < call.work := by
  cases h with
  | duplicate _ hreply | claimed _ hreply =>
    rcases hreply with ⟨-, heq⟩ | ⟨_, -, heq⟩ <;> cases heq
    simp [Call.work]
  | sendRaises => exact Nat.zero_lt_one

theorem step_sent (hsend : sendable payload = .ok ()) (hwell : Well answer)
    (h : step config store (.claimed key claim payload) answer = some (store', progress)) :
    store'.Sent key ∧ progress = .returned := by
  cases answer with
  | send result =>
    cases hwell
    simp only [step, hsend] at h
    split at h
    · cases h
    · cases h
      exact ⟨⟨claim, _, List.mem_cons_self⟩, rfl⟩
  | set | get | del => cases h

theorem returns_of_well (hsound : call.Sound) (hwell : Well answer)
    (h : step config store call answer = some (store', progress)) :
    progress = .returned ∨ ∃ call', progress = .continues call' ∧ call'.Sound := by
  cases step_cases h with
  | duplicate _ hreply =>
    obtain ⟨-, rfl⟩ | ⟨_, rfl, -⟩ := hreply
    · exact .inr ⟨_, rfl, trivial⟩
    · cases hwell
  | claimed _ hreply =>
    obtain ⟨-, rfl⟩ | ⟨_, rfl, -⟩ := hreply
    · exact .inr ⟨_, rfl, hsound⟩
    · cases hwell
  | setRefused => cases hwell
  | got => exact .inl rfl
  | getFails hreply => rcases hreply with rfl | rfl <;> cases hwell
  | sendRaises => exact .inl (step_sent hsound hwell h).2
  | sent => exact .inl rfl
  | released | delRefused => exact hsound.elim

/-- Time may pass and keys may expire. -/
def calls (config : Config) : Calls (handle config) where
  well := Well
  allowed _ := True
  sound := Call.Sound
  work := Call.work
  bound := 2
  work_le _ := Call.work_le
  continues hcall := (step_cases hcall).work_lt
  returns := returns_of_well

-- ---------------------------------------------------------------------------
-- Who claims sends
-- ---------------------------------------------------------------------------

/-- Some call holds the key, or has turned a delivery away from it. -/
def Store.Claimed (store : Store) (key : String) : Prop :=
  (∃ entry ∈ store.entries, entry.key = key) ∨ ∃ claim, store.TurnedAway key claim

/-- The order is notified, or a call that has claimed its key is about to send. -/
def Sending (s : State) (key : String) : Prop :=
  s.store.Sent key ∨ ∃ c claim payload,
    (s.consumers c).pc.call? = some (.claimed key claim payload) ∧ sendable payload = .ok ()

/-- No claim of the key has been abandoned. -/
def Tended (s : State) (key : String) : Prop := s.store.Claimed key → Sending s key

theorem Store.Sent.mono (h : store.Sent key) (hgrows : Grows store store') : store'.Sent key := by
  obtain ⟨claim, now, hsent⟩ := h
  exact ⟨claim, now, hgrows _ hsent⟩

theorem ConsumerPc.handling_of_call? {pc : ConsumerPc Call} (h : pc.call? = some call) :
    ∃ delivery event rest, pc = .handling delivery event call rest := by
  cases pc with
  | handling delivery event call' rest =>
    cases h
    exact ⟨delivery, event, rest, rfl⟩
  | down | polling | batch | deleting => cases h

/-- Whoever has claimed goes on to send. -/
theorem holder_step
    (hpc : (s.consumers c).pc = .handling delivery event (.claimed key claim payload) rest)
    (hsend : sendable payload = .ok ()) (hs : SiteStep (handle config) s action s')
    (hserves : (calls config).Serves s action) :
    (s'.consumers c).pc = (s.consumers c).pc ∨ s'.store.Sent key := by
  have hother : ∀ {queue : Queue String} {store : Store} {tried : List Nat} {c' : ConsumerId}
      {q : Consumer Call}, (s.consumers c').pc.call? = none →
      (({ s with queue, store, tried }.put c' q).consumers c).pc = (s.consumers c).pc := by
    intro queue store tried c' q hnone
    have hc : c ≠ c' := by
      rintro rfl
      rw [hpc] at hnone
      cases hnone
    simp [Site.put, hc]
  cases hs with
  | kill | killCall | stop => exact hserves.elim
  | deliver | expire | redrive | env => exact .inl rfl
  | start hpc' | exit hpc' | receive hpc' | drop hpc' | next hpc' | delete hpc' | keep hpc' =>
    exact .inl (hother (by rw [hpc']; rfl))
  | @handle c' _ _ call' _ answer store' progress hpc' hcall =>
    by_cases hc : c = c'
    · subst hc
      rw [hpc] at hpc'
      cases hpc'
      exact .inr (step_sent hsend hserves hcall).1
    · exact .inl (by simp [Site.goto, Site.put, hc])

theorem sent_step (hs : SiteStep (handle config) s action s') (h : s.store.Sent key) :
    s'.store.Sent key :=
  h.mono (hs.store_le (settles config) fun _ _ _ => env_grows)

theorem Sending.step (h : Sending s key) (hs : SiteStep (handle config) s action s')
    (hserves : (calls config).Serves s action) : Sending s' key := by
  rcases h with hsent | ⟨c, claim, payload, hcall, hsend⟩
  · exact .inl (sent_step hs hsent)
  · obtain ⟨delivery, event, rest, hpc⟩ := ConsumerPc.handling_of_call? hcall
    rcases holder_step hpc hsend hs hserves with hsame | hsent
    · exact .inr ⟨c, claim, payload, hsame ▸ hcall, hsend⟩
    · exact .inl hsent

/-- A key is claimed by a call that goes on to send. -/
theorem Answered.claimed_cases (h : Answered config store call answer store' progress)
    (hwell : Well answer) (hclaimed : store'.Claimed key) : store.Claimed key ∨
      ∃ value payload, call = .claiming key value payload ∧
        progress = .continues (.claimed key store.claims payload) := by
  cases h with
  | @duplicate key' entry _ _ value payload hfind hreply =>
    left
    rcases hclaimed with hentry | ⟨claim, haway⟩
    · exact .inl hentry
    · rcases List.mem_cons.mp haway with heq | haway
      · cases heq
        exact .inl ⟨entry, find_some hfind⟩
      · exact .inr ⟨claim, haway⟩
  | @claimed key' _ _ payload value hfind hreply =>
    obtain ⟨-, rfl⟩ | ⟨_, rfl, -⟩ := hreply
    · rcases hclaimed with ⟨entry, hmem, hkey⟩ | ⟨claim, haway⟩
      · rcases List.mem_cons.mp hmem with rfl | hmem
        · cases hkey
          exact .inr ⟨_, _, rfl, rfl⟩
        · exact .inl (.inl ⟨entry, hmem, hkey⟩)
      · exact .inl (.inr ⟨claim, (List.mem_cons.mp haway).resolve_left nofun⟩)
    · cases hwell
  | sent =>
    left
    rcases hclaimed with hentry | ⟨claim, haway⟩
    · exact .inl hentry
    · exact .inr ⟨claim, (List.mem_cons.mp haway).resolve_left nofun⟩
  | released =>
    left
    rcases hclaimed with ⟨entry, hmem, hkey⟩ | ⟨claim, haway⟩
    · exact .inl ⟨entry, (mem_del.mp hmem).1, hkey⟩
    · exact .inr ⟨claim, (mem_history_del haway).resolve_right fun ⟨_, heq⟩ => by cases heq⟩
  | setRefused | got | getFails | sendRaises | delRefused => exact .inl hclaimed

/-- The calls in progress will not raise by themselves. -/
def Sendable (s : State) : Prop :=
  ∀ c call, (s.consumers c).pc.call? = some call → ∀ key value payload,
    call = .claiming key value payload → sendable payload = .ok ()

theorem Tended.step (h : Tended s key) (hsendable : Sendable s)
    (hs : SiteStep (handle config) s action s') (hserves : (calls config).Serves s action) :
    Tended s' key := by
  intro hclaimed
  have hback : s.store.Claimed key ∨ Sending s' key := by
    cases hs with
    | @handle c delivery event call rest answer store' progress hpc hcall =>
      rcases (step_cases hcall).claimed_cases hserves hclaimed with hold | ⟨value, payload, rfl, rfl⟩
      · exact .inl hold
      · have hsend := hsendable c _ (by rw [hpc]; rfl) key value payload rfl
        refine .inr (.inr ⟨c, s.store.claims, payload, ?_, hsend⟩)
        simp [Site.goto, Site.put, Progress.pc, ConsumerPc.call?]
    | @env _ store' hstore =>
      cases hstore
      refine .inl (hclaimed.imp_left ?_)
      rintro ⟨entry, hmem, hkey⟩
      exact ⟨entry, (List.mem_filter.mp hmem).1, hkey⟩
    | killCall => exact hserves.elim
    | _ => exact .inl hclaimed
  exact hback.elim (fun hold => (h hold).step hs hserves) id

-- ---------------------------------------------------------------------------
-- What is handled is notified
-- ---------------------------------------------------------------------------

variable {run : (Site.machine (handle config)).Run}

theorem ok_of_served (h : Served (calls config) run) (hok : (run.state 0).Ok During Done) (k : Nat) :
    (run.state k).Ok During Done :=
  (h.within.reaches (Nat.zero_le k)).invariant hok fun _ _ _ ht _ hs =>
    ht.step (settles config) (Site.step_cases hs) fun _ _ _ => env_grows

theorem tended_of_served (h : Served (calls config) run) (hsendable : ∀ k, Sendable (run.state k))
    (htended : Tended (run.state 0) key) (k : Nat) : Tended (run.state k) key := by
  induction k with
  | zero => exact htended
  | succ k ih =>
    rcases run.next k with hrest | ⟨action, haction, hs⟩
    · exact hrest ▸ ih
    · exact ih.step (hsendable k) (Site.step_cases hs) (h.within k action haction)

/-- A claim in progress ends in a send. -/
theorem sent_of_sending (h : Served (calls config) run) (hsending : Sending (run.state k) key) :
    ∃ l ≥ k, (run.state l).store.Sent key := by
  rcases hsending with hsent | ⟨c, claim, payload, hcall, hsend⟩
  · exact ⟨k, le_rfl, hsent⟩
  · obtain ⟨delivery, event, rest, hpc⟩ := ConsumerPc.handling_of_call? hcall
    have hends := h.moves c (.handling delivery event (.claimed key claim payload) rest)
      (List.cons_ne_nil delivery rest)
    refine h.within.leads (Q := (·.store.Sent key)) hends hpc fun s action s' hp hserves hs => ?_
    rcases holder_step hp hsend (Site.step_cases hs) hserves with hsame | hsent
    · exact .inl (hsame.trans hp)
    · exact .inr (.inr hsent)

/-- A message that can be received is handled, and then its order is notified. -/
theorem exists_sent (h : Served (calls config) run) (hok : (run.state 0).Ok During Done)
    (hsendable : ∀ k, Sendable (run.state k)) (htended : Tended (run.state 0) key)
    (hopens : ∀ k ≥ n, ∀ c, ∀ d ∈ ((run.state k).consumers c).pc.inHand, d.id = number →
      (calls config).Opens d.body ∧ ∀ event, ReadsAs d.body event → keyOf event = .ok key)
    (hreceivable : (run.state n).Receivable number) : ∃ k ≥ n, (run.state k).store.Sent key := by
  obtain ⟨k, hk, c, delivery, event, rest, hpc, hid⟩ := h.exists_handled
    (fun k hk c d hd hid => (hopens k hk c d hd hid).1) hreceivable
  have hdone := ok_of_served h hok k c
  rw [hpc] at hdone
  obtain ⟨-, hreads, key', hkey', hsettled⟩ := hdone
  have hinHand : delivery ∈ ((run.state k).consumers c).pc.inHand := hpc ▸ List.mem_cons_self
  have hkey := (hopens k hk c delivery hinHand hid).2 event hreads
  obtain rfl := Except.ok.inj (hkey'.symm.trans hkey)
  have hsending : Sending (run.state k) key' :=
    hsettled.elim .inl fun haway => tended_of_served h hsendable htended k (.inr haway)
  obtain ⟨l, hl, hsent⟩ := sent_of_sending h hsending
  exact ⟨l, hk.trans hl, hsent⟩

end OutboxFanout.Notifications
