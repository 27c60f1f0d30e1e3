import OutboxFanout.Log
import OutboxFanout.Relay.Serial

/-!
# A lone relay publishes in order

`pending_event_ids` sorts, `relay_batch` gives a poll up at a transient failure,
and a permanent one parks its row. With one relay, however often it dies and
whatever SNS and the database answer it, SNS therefore accepts the events in
order of `created_at`, repeats included, and none while an older one may still
be tried (`in_order_of_reaches`). Two relays do not keep the order.
-/

namespace OutboxFanout.Outbox

open Relay

/-- Only `r` is ever started, with the same OUTBOX_MAX_ATTEMPTS; orders commit in
the order of their `created_at`; no operator edits a row. -/
def InTurn (r : RelayId) (maxAttempts : Nat) (s : State) : Action → Prop
  | .relay r' action => r' = r ∧ Fixed maxAttempts s (.relay r' action)
  | .commitOrder q =>
    match s.requests q with
    | .flushed _ row => ∀ old ∈ s.outbox, old.createdAt ≤ row.createdAt
    | _ => True
  | .post _ _ _ _ _ | .flush _ _ _ | .abort _ => True
  | .clearFailedAt _ => False

instance : DecidablePred (InTurn r maxAttempts s)
  | .relay r' action => inferInstanceAs (Decidable (r' = r ∧ Fixed maxAttempts s (.relay r' action)))
  | .commitOrder q =>
    match hq : s.requests q with
    | .flushed _ row =>
      decidable_of_iff (∀ old ∈ s.outbox, old.createdAt ≤ row.createdAt) (by simp [InTurn, hq])
    | .idle | .staged _ _ => .isTrue (by simp [InTurn, hq])
  | .post _ _ _ _ _ | .flush _ _ _ | .abort _ => .isTrue trivial
  | .clearFailedAt _ => .isFalse id

theorem InTurn.fixed (h : InTurn r limit s action) : Fixed limit s action := by
  cases action with
  | relay => exact h.2
  | clearFailedAt => exact h
  | _ => trivial

-- ---------------------------------------------------------------------------
-- What may still be tried
-- ---------------------------------------------------------------------------

theorem RowWrite.selectable (h : RowWrite s row action row') (hedit : ∀ key, action ≠ .clearFailedAt key)
    (hsel : Selectable limit row') : Selectable limit row := by
  cases h with
  | same => exact hsel
  | mark => cases hsel.1
  | record =>
    obtain ⟨hunpub, hunparked, hlt⟩ := hsel
    rw [recordedFailure_attempts] at hlt
    exact ⟨recordedFailure_published.symm.trans hunpub, (recordedFailure_failedAt.mp hunparked).1,
      Nat.lt_of_succ_lt hlt⟩
  | clear => exact absurd rfl (hedit _)

/-- No row comes or goes, and none becomes selectable. -/
structure Narrowed (limit : Nat) (s s' : State) : Prop where
  facts : s'.outbox.map OutboxEvent.facts = s.outbox.map OutboxEvent.facts
  rows : ∀ row' ∈ s'.outbox, Selectable limit row' →
    ∃ row ∈ s.outbox, Selectable limit row ∧ row.facts = row'.facts

theorem narrowed_of_relay (hi : Inv s) (hr : RequestsOk s) (hs : Step s (.relay r action) s') :
    Narrowed limit s s' := by
  obtain ⟨new, hfacts, hnew⟩ := hs.write.facts
  have hnone : new = [] := List.eq_nil_iff_forall_not_mem.mpr fun row hrow => by
    obtain ⟨q, order, heq, -⟩ := hnew row hrow
    cases heq
  rw [hnone, List.map_nil, List.append_nil] at hfacts
  refine ⟨hfacts, fun row' hmem' hsel => ?_⟩
  rcases hs.write.origin hi.keyed hr hmem' with ⟨row, hmem, hrow⟩ | ⟨-, habsent⟩
  · exact ⟨row, hmem, hrow.selectable nofun hsel, hrow.facts.symm⟩
  · have hids := congrArg (List.map Prod.fst) hfacts
    simp only [List.map_map] at hids
    exact absurd (hids ▸ List.mem_map_of_mem hmem') habsent

section
variable {rows : List OutboxEvent} {row event : OutboxEvent}

theorem createdAt_of_facts (h : row.facts = event.facts) : row.createdAt = event.createdAt :=
  congrArg (fun facts => facts.2.2.2.2) h

theorem id_of_facts (h : row.facts = event.facts) : row.id = event.id := congrArg Prod.fst h

/-- What an id stands for. -/
theorem facts_of_id (hk : Rows.Keyed OutboxEvent.id rows) (hrow : row ∈ rows)
    (hevent : event.facts ∈ rows.map OutboxEvent.facts) (hid : row.id = event.id) :
    row.facts = event.facts := by
  obtain ⟨old, hold, hfacts⟩ := List.mem_map.mp hevent
  rw [hk.eq_of_mem hrow hold (hid.trans (id_of_facts hfacts).symm), hfacts]

end

-- ---------------------------------------------------------------------------
-- The invariant
-- ---------------------------------------------------------------------------

/-- The row that `relay_one` steps over. -/
def RelayPc.skips : RelayPc → Option UUID
  | .skipped id _ => some id
  | _ => none

theorem mem_batchIds_of_skips (h : RelayPc.skips pc = some key) : key ∈ batchIds pc := by
  cases pc with
  | skipped =>
    cases h
    exact List.mem_cons_self
  | _ => cases h

/-- What is left of the batch of `r` are `events`. They come after what SNS has
accepted and before what else may be tried. -/
structure InOrder (limit : Nat) (r : RelayId) (events : List OutboxEvent) (s : State) : Prop where
  others : ∀ r', r' ≠ r → (s.relays r').pc = .down
  batch_eq : batchIds (s.relays r).pc = events.map (·.id)
  known : ∀ event ∈ s.log ++ events, event.facts ∈ s.outbox.map OutboxEvent.facts
  sorted : (s.log ++ events).Pairwise (·.createdAt ≤ ·.createdAt)
  selectable : ∀ row ∈ s.outbox, Selectable limit row →
    row.id ∈ events.map (·.id) ∨ ∀ event ∈ s.log ++ events, event.createdAt ≤ row.createdAt
  skipped : ∀ key, (s.relays r).pc.skips = some key →
    ∀ row ∈ s.outbox, Selectable limit row → row.id ≠ key

theorem InOrder.empty : InOrder limit r [] .empty where
  others _ _ := rfl
  batch_eq := rfl
  known := nofun
  sorted := .nil
  selectable := nofun
  skipped := nofun

variable {s s' : State}

/-- A selectable row is not older than anything accepted. -/
theorem InOrder.passed (h : InOrder limit r events s) (hk : Rows.Keyed OutboxEvent.id s.outbox)
    (hmem : row ∈ s.outbox) (hsel : Selectable limit row) :
    ∀ old ∈ s.log, old.createdAt ≤ row.createdAt := by
  intro old hold
  rcases h.selectable row hmem hsel with hin | hlater
  · obtain ⟨event, hevent, hid⟩ := List.mem_map.mp hin
    have hfacts := facts_of_id hk hmem (h.known event (List.mem_append_right _ hevent)) hid.symm
    rw [createdAt_of_facts hfacts]
    exact (List.pairwise_append.mp h.sorted).2.2 old hold event hevent
  · exact hlater old (List.mem_append_left _ hold)

/-- The relay goes on with the last `events'` of its batch; what it leaves may
not be tried any more, or comes later. -/
theorem InOrder.move (h : InOrder limit r events s) (hn : Narrowed limit s s')
    (hothers : ∀ r', r' ≠ r → s'.relays r' = s.relays r') (hlog : s'.log = s.log)
    (hbatch : batchIds (s'.relays r).pc = events'.map (·.id)) (hsuffix : events' <:+ events)
    (hleft : ∀ row ∈ s'.outbox, Selectable limit row → row.id ∈ events.map (·.id) →
      row.id ∈ events'.map (·.id) ∨ events' = [])
    (hskipped : ∀ key, (s'.relays r).pc.skips = some key →
      ∀ row ∈ s'.outbox, Selectable limit row → row.id ≠ key)
    (hk : Rows.Keyed OutboxEvent.id s.outbox) : InOrder limit r events' s' where
  others r' hr := by
    rw [hothers r' hr]
    exact h.others r' hr
  batch_eq := hbatch
  known event hevent := by
    rw [hn.facts]
    rw [hlog] at hevent
    exact h.known event (((List.Sublist.refl _).append hsuffix.sublist).subset hevent)
  sorted := hlog ▸ h.sorted.sublist ((List.Sublist.refl _).append hsuffix.sublist)
  selectable row' hmem' hsel := by
    obtain ⟨row, hmem, hold, hfacts⟩ := hn.rows row' hmem' hsel
    rw [hlog, ← id_of_facts hfacts, ← createdAt_of_facts hfacts]
    rcases h.selectable row hmem hold with hin | hlater
    · rcases hleft row' hmem' hsel (id_of_facts hfacts ▸ hin) with hin' | rfl
      · exact .inl (id_of_facts hfacts ▸ hin')
      · rw [List.append_nil]
        exact .inr (h.passed hk hmem hold)
    · exact .inr fun event hevent =>
        hlater event (((List.Sublist.refl _).append hsuffix.sublist).subset hevent)
  skipped := hskipped

/-- SNS accepts the first row of the batch. -/
theorem InOrder.accept (h : InOrder limit r events s) (hk : Rows.Keyed OutboxEvent.id s.outbox)
    (hmem : event ∈ s.outbox) (hhead : batchIds (s.relays r).pc = event.id :: ids)
    (houtbox : s'.outbox = s.outbox) (hothers : ∀ r', r' ≠ r → s'.relays r' = s.relays r')
    (hlog : s'.log = s.log ++ [event]) (hbatch : batchIds (s'.relays r).pc = event.id :: ids)
    (hskipped : (s'.relays r).pc.skips = none) : InOrder limit r events s' := by
  obtain ⟨first, rest, rfl, hid, -⟩ := List.map_eq_cons_iff.mp (h.batch_eq.symm.trans hhead)
  have hknown := h.known first (List.mem_append_right _ List.mem_cons_self)
  have hfacts := facts_of_id hk hmem hknown hid.symm
  have hfirst : ∀ old ∈ first :: rest, event.createdAt ≤ old.createdAt := fun old hold => by
    rw [createdAt_of_facts hfacts]
    rcases List.mem_cons.mp hold with rfl | hrest
    · exact Nat.le_refl _
    · exact (List.pairwise_cons.mp (List.pairwise_append.mp h.sorted).2.1).1 old hrest
  refine ⟨fun r' hr => by rw [hothers r' hr]; exact h.others r' hr, ?_, ?_, ?_, ?_, ?_⟩
  · rw [hbatch, ← hhead, h.batch_eq]
  · intro old hold
    rw [houtbox]
    rw [hlog, List.append_assoc, List.mem_append, List.mem_append, List.mem_singleton] at hold
    rcases hold with hold | rfl | hold
    · exact h.known old (List.mem_append_left _ hold)
    · exact List.mem_map_of_mem hmem
    · exact h.known old (List.mem_append_right _ hold)
  · obtain ⟨hlogged, hevents, hcross⟩ := List.pairwise_append.mp h.sorted
    rw [hlog, List.append_assoc, List.singleton_append]
    refine List.pairwise_append.mpr ⟨hlogged, List.pairwise_cons.mpr ⟨hfirst, hevents⟩, ?_⟩
    intro old hold later hlater
    rcases List.mem_cons.mp hlater with rfl | hlater
    · rw [createdAt_of_facts hfacts]
      exact hcross old hold first List.mem_cons_self
    · exact hcross old hold later hlater
  · intro row hrow hsel
    rw [houtbox] at hrow
    rw [hlog, List.append_assoc, List.singleton_append]
    refine (h.selectable row hrow hsel).imp_right fun hlater old hold => ?_
    rcases List.mem_append.mp hold with hold | hold
    · exact hlater old (List.mem_append_left _ hold)
    · rcases List.mem_cons.mp hold with rfl | hold
      · rw [createdAt_of_facts hfacts]
        exact hlater first (List.mem_append_right _ List.mem_cons_self)
      · exact hlater old (List.mem_append_right _ hold)
  · intro key hpc
    rw [hskipped] at hpc
    cases hpc

/-- A new batch: the first of what is selectable. -/
theorem InOrder.polled (h : InOrder limit r events s) (hk : Rows.Keyed OutboxEvent.id s.outbox)
    {scanned : List OutboxEvent} (hscan : scanned.Perm s.outbox) (n : Nat) :
    InOrder limit r ((pendingRows limit scanned).take n)
      (s.goto r (.batch (((pendingRows limit scanned).take n).map (·.id)))) := by
  have hpending : ∀ row, row ∈ pendingRows limit scanned ↔ row ∈ s.outbox ∧ Selectable limit row :=
    fun row => by rw [mem_pendingRows, hscan.mem_iff]
  have hsplit := List.take_append_drop n (pendingRows limit scanned)
  have hsorted : ((pendingRows limit scanned).take n ++ (pendingRows limit scanned).drop n).Pairwise
      (·.createdAt ≤ ·.createdAt) := by
    rw [hsplit]
    exact pendingRows_pairwise
  obtain ⟨htaken, -, hcross⟩ := List.pairwise_append.mp hsorted
  refine ⟨fun r' hr => by rw [State.goto_of_ne hr]; exact h.others r' hr, ?_, ?_, ?_, ?_, ?_⟩
  · rw [State.goto_pc]
    rfl
  · intro event hevent
    rcases List.mem_append.mp hevent with hevent | hevent
    · exact h.known event (List.mem_append_left _ hevent)
    · exact List.mem_map_of_mem ((hpending event).mp (List.mem_of_mem_take hevent)).1
  · refine List.pairwise_append.mpr ⟨(List.pairwise_append.mp h.sorted).1, htaken, ?_⟩
    intro old hold event hevent
    obtain ⟨hmem, hsel⟩ := (hpending event).mp (List.mem_of_mem_take hevent)
    exact h.passed hk hmem hsel old hold
  · intro row hmem hsel
    have hrow := (hpending row).mpr ⟨hmem, hsel⟩
    rw [← hsplit] at hrow
    rcases List.mem_append.mp hrow with htake | hdrop
    · exact .inl (List.mem_map_of_mem htake)
    · refine .inr fun event hevent => ?_
      rcases List.mem_append.mp hevent with hevent | hevent
      · exact h.passed hk hmem hsel event hevent
      · exact hcross event hevent row hdrop
  · intro key hpc
    rw [State.goto_pc] at hpc
    cases hpc

-- ---------------------------------------------------------------------------
-- Every run
-- ---------------------------------------------------------------------------

/-- The write that ends a row's turn leaves nothing to be tried of it. -/
theorem ne_of_selectable_update {rows : List OutboxEvent} {f : OutboxEvent → OutboxEvent}
    (hf : ∀ row, ¬Selectable limit (f row)) (hmem : row ∈ Rows.update OutboxEvent.id key f rows)
    (hsel : Selectable limit row) : row.id ≠ key := by
  rcases Rows.mem_update.mp hmem with ⟨-, hne⟩ | ⟨old, -, -, rfl⟩
  · exact hne
  · exact absurd hsel (hf old)

/-- Nobody else holds a row, so an unpublished one is not stepped over. -/
theorem InOrder.not_skipped (h : InOrder limit r events s) (hi : Inv s)
    (hpc : (s.relays r).pc = .batch (key :: ids)) (hmem : row ∈ s.outbox) (hsel : Selectable limit row)
    (hs : relayStep s r .select = some (s.goto r (.skipped key ids))) : row.id ≠ key := by
  rintro rfl
  have hfree := free_of_lone hi (fun r' hr => by rw [h.others r' hr]; rfl) (by rw [hpc]; rfl) row.id
  have hfind := find?_eq_of_mem (p := fun old => old.id = row.id ∧ old.published = false) hi.keyed hmem
    (by simp [hsel.1]) (by simp +contextual)
  have hpcs := congrArg (fun t : State => (t.relays r).pc)
    (Option.some.inj ((select_eq hpc hfree hfind).symm.trans hs))
  simp at hpcs

theorem InOrder.relayStep (h : InOrder limit r events s) (ht : Recounts limit s)
    (hs : Outbox.relayStep s r action = some s') : ∃ events', InOrder limit r events' s' := by
  have hstep := relayStep_cases hs
  have hn : Narrowed limit s s' := narrowed_of_relay ht.toInv ht.requests (.relay hstep)
  have hothers : ∀ r', r' ≠ r → s'.relays r' = s.relays r' := fun r' hr => hstep.others hr
  have hkeep : s'.log = s.log → batchIds (s'.relays r).pc = batchIds (s.relays r).pc →
      (s'.relays r).pc.skips = none → ∃ events', InOrder limit r events' s' :=
    fun hlog hids hskips => ⟨events, h.move hn hothers hlog (hids.trans h.batch_eq) List.suffix_rfl
      (fun _ _ _ => .inl) (fun key hpc => by cases hskips.symm.trans hpc) ht.keyed⟩
  have hstop : s'.log = s.log → batchIds (s'.relays r).pc = [] → (s'.relays r).pc.skips = none →
      ∃ events', InOrder limit r events' s' := fun hlog hids hskips =>
    ⟨[], h.move hn hothers hlog hids List.nil_suffix (fun _ _ _ _ => .inr rfl)
      (fun key hpc => by cases hskips.symm.trans hpc) ht.keyed⟩
  have hnext : ∀ {key ids}, s'.log = s.log → batchIds (s.relays r).pc = key :: ids →
      (s'.relays r).pc = .batch ids → (∀ row ∈ s'.outbox, Selectable limit row → row.id ≠ key) →
      ∃ events', InOrder limit r events' s' := fun hlog hids hpc hdone => by
    obtain ⟨first, rest, rfl, hid, hrest⟩ := List.map_eq_cons_iff.mp (h.batch_eq.symm.trans hids)
    refine ⟨rest, h.move hn hothers hlog (by rw [hpc, hrest]; rfl) (List.suffix_cons first rest) ?_ ?_
      ht.keyed⟩
    · intro row hmem hsel hin
      rw [List.map_cons, hid] at hin
      exact .inl ((List.mem_cons.mp hin).resolve_left (hdone row hmem hsel))
    · intro key hpc'
      rw [hpc] at hpc'
      cases hpc'
  cases hstep with
  | start => exact hstop rfl (by simp [batchIds]) (by simp [RelayPc.skips])
  | kill => exact hstop State.kill_log (by rw [State.kill_pc]; rfl) (by rw [State.kill_pc]; rfl)
  | poll hpc hscan =>
    have hlimit : (s.relays r).config.maxAttempts = limit :=
      (ht.limitIs r).resolve_left fun hdown => by cases hpc.symm.trans hdown
    rw [hlimit]
    exact ⟨_, h.polled ht.keyed (perm_scanned ht.keyed hscan) _⟩
  | endPoll | recordMissing | recordFails | recordRefused =>
    exact hstop rfl (by rw [State.goto_pc]; rfl) (by rw [State.goto_pc]; rfl)
  | lock hpc | selectFails hpc | skipFails hpc | refused hpc | markRefused hpc | markLost hpc
  | record hpc => exact hkeep rfl (by rw [State.goto_pc, hpc]; rfl) (by rw [State.goto_pc]; rfl)
  | skip hpc =>
    refine ⟨events, h.move hn hothers rfl ?_ List.suffix_rfl (fun _ _ _ => .inl) ?_ ht.keyed⟩
    · rw [State.goto_pc, ← h.batch_eq, hpc]
      rfl
    · intro key hpc' row hmem hsel
      rw [State.goto_pc] at hpc'
      cases hpc'
      exact h.not_skipped ht.toInv hpc hmem hsel hs
  | skipDone hpc =>
    exact hnext rfl (by rw [hpc]; rfl) State.goto_pc (h.skipped _ (by rw [hpc]; rfl))
  | accepted hpc | lostAck hpc =>
    have hmem := (ht.held r _ (by rw [hpc]; rfl)).1
    refine ⟨events, h.accept ht.keyed hmem (by rw [hpc]; rfl) rfl hothers ?_ (by rw [State.goto_pc]; rfl)
      (by rw [State.goto_pc]; rfl)⟩
    simp [State.log]
  | mark hpc =>
    exact hnext rfl (by rw [hpc]; rfl) State.goto_pc fun row hmem hsel =>
      ne_of_selectable_update (fun _ hmarked => by cases hmarked.1) hmem hsel
  | @recorded key exc ids pc now outcome hpc hout =>
    rcases hout with ⟨rfl, rfl⟩ | ⟨-, rfl⟩
    · by_cases hperm : isPermanent exc = true
      · refine hnext rfl (by rw [hpc]; rfl) (by simp [hperm]) fun row hmem hsel => ?_
        refine ne_of_selectable_update (fun old hparked => ?_) hmem hsel
        cases hperm.symm.trans (recordedFailure_failedAt.mp hparked.2.1).2.1
      · exact hstop rfl (by simp [hperm, batchIds]) (by simp [hperm, RelayPc.skips])
    · exact hstop rfl (by rw [State.goto_pc]; rfl) (by rw [State.goto_pc]; rfl)

theorem InOrder.commit (h : InOrder limit r events s) (hfresh : row.id ∉ s.outbox.map (·.id))
    (hlater : ∀ old ∈ s.outbox, old.createdAt ≤ row.createdAt) (houtbox : s'.outbox = s.outbox ++ [row])
    (hrelays : s'.relays = s.relays) (hlog : s'.log = s.log) : InOrder limit r events s' := by
  refine ⟨hrelays ▸ h.others, hrelays ▸ h.batch_eq, ?_, hlog ▸ h.sorted, ?_, ?_⟩
  · intro event hevent
    rw [houtbox, List.map_append]
    exact List.mem_append_left _ (h.known event (hlog ▸ hevent))
  · intro other hmem hsel
    rw [hlog]
    rcases List.mem_append.mp (houtbox ▸ hmem) with hmem | hmem
    · exact h.selectable other hmem hsel
    · obtain rfl := List.mem_singleton.mp hmem
      refine .inr fun event hevent => ?_
      obtain ⟨old, hold, hfacts⟩ := List.mem_map.mp (h.known event hevent)
      exact createdAt_of_facts hfacts ▸ hlater old hold
  · intro key hpc other hmem hsel
    rw [hrelays] at hpc
    rcases List.mem_append.mp (houtbox ▸ hmem) with hmem | hmem
    · exact h.skipped key hpc other hmem hsel
    · obtain rfl := List.mem_singleton.mp hmem
      rintro rfl
      -- what is stepped over is a row of the batch, hence of the table
      have hin : other.id ∈ events.map (·.id) := h.batch_eq ▸ mem_batchIds_of_skips hpc
      obtain ⟨event, hevent, hid⟩ := List.mem_map.mp hin
      obtain ⟨old, hold, hfacts⟩ := List.mem_map.mp (h.known event (List.mem_append_right _ hevent))
      exact hfresh (List.mem_map.mpr ⟨old, hold, (id_of_facts hfacts).trans hid⟩)

theorem InOrder.step (h : InOrder limit r events s) (ht : Recounts limit s) (hturn : InTurn r limit s action)
    (hs : step s action = some s') : ∃ events', InOrder limit r events' s' := by
  cases step_cases hs with
  | relay =>
    obtain ⟨rfl, -⟩ := hturn
    exact h.relayStep ht hs
  | post | flush | flushFails | abort =>
    exact ⟨events, h.others, h.batch_eq, h.known, h.sorted, h.selectable, h.skipped⟩
  | commitOrder hq hfree =>
    exact ⟨events, h.commit hfree.2 (by simpa [InTurn, hq] using hturn) rfl rfl rfl⟩
  | clearFailedAt => exact hturn.elim

theorem inOrder_of_reaches (h : machine.Reaches (InTurn r limit) .empty s) :
    Recounts limit s ∧ ∃ events, InOrder limit r events s := by
  refine ⟨recounts_of_reaches (h.mono fun _ _ => InTurn.fixed), ?_⟩
  have hboth : machine.Reaches (Fixed limit) .empty s ∧ ∃ events, InOrder limit r events s := by
    refine h.invariant (I := fun s => machine.Reaches (Fixed limit) .empty s ∧
      ∃ events, InOrder limit r events s) ⟨.refl, [], .empty⟩ ?_
    rintro t action u ⟨hreach, events, ht⟩ hturn hs
    exact ⟨.next action hreach hturn.fixed hs, ht.step (recounts_of_reaches hreach) hturn hs⟩
  exact hboth.2

/-- A lone relay has SNS accept the events oldest first, and none before every
older one is published or given up. -/
theorem in_order_of_reaches (h : machine.Reaches (InTurn r limit) .empty s) :
    s.log.Pairwise (·.createdAt ≤ ·.createdAt) ∧
      ∀ event ∈ s.log, ∀ row ∈ s.outbox, row.createdAt < event.createdAt → ¬Selectable limit row := by
  obtain ⟨ht, events, hi⟩ := inOrder_of_reaches h
  refine ⟨(List.pairwise_append.mp hi.sorted).1, fun event hevent row hmem hlt hsel => ?_⟩
  exact absurd (hi.passed ht.keyed hmem hsel event hevent) (Nat.not_le.mpr hlt)

/-- Two orders, a second apart. -/
def twoOrders : List Action :=
  [.post 0 false ⟨1⟩ placedAt keyboardOrder, .flush 0 ⟨2⟩ placedAt, .commitOrder 0,
    .post 1 false ⟨3⟩ placedAt keyboardOrder, .flush 1 ⟨4⟩ { placedAt with second := 1 }, .commitOrder 1]

/-- The first publish times out, the second kills the relay, and it starts again. -/
theorem in_order_restarted : ∃ s : State, s.log.map (·.id) = [⟨2⟩, ⟨2⟩, ⟨4⟩] ∧
    s.log.Pairwise (·.createdAt ≤ ·.createdAt) := by
  obtain ⟨s, hreach, hlog⟩ := machine.exists_reaches (C := InTurn 0 5) (s := .empty)
    (twoOrders ++ [.relay 0 (.start ⟨10, 5, false⟩), .relay 0 (.poll [⟨4⟩, ⟨2⟩]), .relay 0 .select,
      .relay 0 (.publish (.refused connectTimeout)), .relay 0 .record, .relay 0 (.commit .done placedAt),
      .relay 0 (.poll [⟨4⟩, ⟨2⟩]), .relay 0 .select, .relay 0 (.publish .accepted), .relay 0 .kill,
      .relay 0 (.start ⟨10, 5, false⟩), .relay 0 (.poll [⟨2⟩, ⟨4⟩]), .relay 0 .select,
      .relay 0 (.publish .accepted), .relay 0 (.commit .done placedAt), .relay 0 .select,
      .relay 0 (.publish .accepted)]) (fun s => s.log.map (·.id) = [⟨2⟩, ⟨2⟩, ⟨4⟩]) (by decide)
  exact ⟨s, hlog, (in_order_of_reaches hreach).1⟩

-- A second relay steps over the row that the first has locked.
example : ∃ s, machine.Reaches (Fixed 5) .empty s ∧ s.log.map (·.id) = [⟨4⟩, ⟨2⟩] :=
  machine.exists_reaches (twoOrders ++ [.relay 0 (.start ⟨10, 5, false⟩), .relay 0 (.poll [⟨2⟩, ⟨4⟩]),
    .relay 0 .select, .relay 1 (.start ⟨10, 5, false⟩), .relay 1 (.poll [⟨2⟩, ⟨4⟩]), .relay 1 .select,
    .relay 1 (.commit .done placedAt), .relay 1 .select, .relay 1 (.publish .accepted),
    .relay 0 (.publish .accepted)]) (fun s => s.log.map (·.id) = [⟨4⟩, ⟨2⟩]) (by decide)

end OutboxFanout.Outbox
