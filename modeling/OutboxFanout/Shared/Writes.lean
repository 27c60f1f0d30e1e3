import OutboxFanout.Notifications.Claims
import OutboxFanout.Shared.Projection

/-!
# What a step of a site leaves for good

Of the steps of Billing and Shipping only a commit that took effect adds a row
(and an operator may empty the table); of the steps of Notifications only a
send that returned notifies.
-/

namespace OutboxFanout

-- ---------------------------------------------------------------------------
-- The table of a projection
-- ---------------------------------------------------------------------------

inductive TableWrite (ρ : Type) where
  | add (record : ρ)
  | wipe

def TableWrite.apply (rows : List ρ) : Option (TableWrite ρ) → List ρ
  | none => rows
  | some (.add record) => rows ++ [record]
  | some .wipe => []

namespace Projection

variable {ν δ ρ : Type} {p : Projection ν δ ρ} {s s' : Site (Table ρ) (Insert ν ρ)}

def committed? : Insert ν ρ → InsertAnswer δ → Option ρ
  | .inserted record, .commit .done => some record
  | .inserted record, .commit (.lost _) => some record
  | _, _ => none

def writes? (s : Site (Table ρ) (Insert ν ρ)) :
    SiteAction (InsertAnswer δ) TableEvent → Option (TableWrite ρ)
  | .consumer c (.handle answer) =>
    ((s.consumers c).pc.call?.bind (committed? · answer)).map .add
  | .env .wipe => some .wipe
  | _ => none

theorem Answered.rows (h : Answered p table call answer table' progress) :
    table'.rows = TableWrite.apply table.rows ((committed? call answer).map .add) := by
  cases h with
  | committed hout => rcases hout with ⟨rfl, -⟩ | ⟨_, rfl, -⟩ <;> rfl
  | ignoredFails hout => rcases hout with rfl | rfl <;> rfl
  | _ => rfl

theorem rows_step (hs : SiteStep p.handler s action s') :
    s'.store.rows = TableWrite.apply s.store.rows (writes? s action) := by
  cases hs with
  | @killCall c delivery event call rest => cases call <;> rfl
  | handle hpc hcall =>
    simpa [writes?, hpc, ConsumerPc.call?] using (step_cases hcall).rows
  | @env event store hstore =>
    cases event
    cases hstore
    rfl
  | _ => rfl

theorem writes?_add (h : writes? s action = some (.add record)) : ∃ c delivery event rest,
    (s.consumers c).pc = .handling delivery event (.inserted record) rest := by
  unfold writes? at h
  split at h
  next c answer =>
    obtain ⟨_, hcommitted, heq⟩ := Option.map_eq_some_iff.mp h
    cases heq
    obtain ⟨call, hcall, hrecord⟩ := Option.bind_eq_some_iff.mp hcommitted
    have hinserted : call = .inserted record := by
      unfold committed? at hrecord
      split at hrecord <;> cases hrecord <;> rfl
    subst hinserted
    cases hpc : (s.consumers c).pc with
    | handling delivery event call rest =>
      rw [hpc] at hcall
      cases hcall
      exact ⟨c, delivery, event, rest, hpc⟩
    | _ => simp [hpc, ConsumerPc.call?] at hcall
  next => cases h
  next => cases h

end Projection

-- ---------------------------------------------------------------------------
-- The notifications
-- ---------------------------------------------------------------------------

namespace Notifications

variable {config : Config} {s s' : State}

/-- The keys of the completed sends, oldest first. -/
def Store.sendLog (store : Store) : List String :=
  (store.history.filterMap fun | .sent key _ _ => some key | _ => none).reverse

def completed? : Call → Answer → Option String
  | .claimed key _ payload, .send (.ok _) =>
    match sendable payload with
    | .ok _ => some key
    | .error _ => none
  | _, _ => none

/-- The event whose notification the step completes, and its key. -/
def notifies? (s : State) : Action → Option (Json × String)
  | .consumer c (.handle answer) =>
    match (s.consumers c).pc with
    | .handling _ event call _ => (completed? call answer).map fun key => (event, key)
    | _ => none
  | _ => none

theorem sendLog_note (store : Store) (event : Event)
    (hevent : ∀ key claim t, event ≠ .sent key claim t) :
    (store.note event).sendLog = store.sendLog := by
  cases event with
  | sent key claim t => exact absurd rfl (hevent key claim t)
  | _ => simp [Store.sendLog, Store.note]

theorem sendLog_set : (Store.set config store key value).sendLog = store.sendLog := by
  unfold Store.set
  split
  · exact sendLog_note store _ nofun
  · exact sendLog_note store (.claimed key store.claims store.now) nofun

theorem sendLog_del : (Store.del store key claim).sendLog = store.sendLog := by
  unfold Store.del
  split
  · exact sendLog_note store _ nofun
  · rfl

theorem sendLog_step (h : step config store call answer = some (store', progress)) :
    store'.sendLog = store.sendLog ++ (completed? call answer).toList := by
  have hsame : store'.sendLog = store.sendLog → completed? call answer = none →
      store'.sendLog = store.sendLog ++ (completed? call answer).toList := by
    rintro hlog hnone
    rw [hlog, hnone, Option.toList_none, List.append_nil]
  unfold step at h
  split at h
  next key value payload reply =>
    cases reply <;> cases h
    · exact hsame sendLog_set rfl
    · exact hsame rfl rfl
    · exact hsame sendLog_set rfl
  next => cases h; exact hsame rfl rfl
  next => cases h; exact hsame rfl rfl
  next => cases h; exact hsame rfl rfl
  next key claim payload result =>
    split at h
    · cases h
    cases hsendable : sendable payload with
    | error =>
      simp only [hsendable, Option.some.injEq, Prod.mk.injEq] at h
      obtain ⟨rfl, -⟩ := h
      exact hsame rfl (by cases result <;> simp [completed?, hsendable])
    | ok =>
      simp only [hsendable] at h
      cases result <;> cases h
      · exact hsame rfl rfl
      · simp [completed?, hsendable, Store.sendLog, Store.note]
  next key claim exc reply =>
    cases reply <;> cases h
    · exact hsame sendLog_del rfl
    · exact hsame rfl rfl
    · exact hsame sendLog_del rfl
  next => cases h

theorem sendLog_siteStep (hs : SiteStep (handle config) s action s') :
    s'.store.sendLog = s.store.sendLog ++ ((notifies? s action).map Prod.snd).toList := by
  cases hs with
  | handle hpc hcall =>
    simp only [notifies?, hpc, Option.map_map]
    simpa [Function.comp_def] using sendLog_step hcall
  | env hstore =>
    cases hstore
    exact (List.append_nil _).symm
  | _ => exact (List.append_nil _).symm

theorem notifies?_handling (h : notifies? s action = some (event, key)) :
    ∃ c delivery claim payload rest,
      (s.consumers c).pc = .handling delivery event (.claimed key claim payload) rest := by
  unfold notifies? at h
  split at h
  next c answer =>
    split at h
    next delivery event' call rest hpc =>
      obtain ⟨key', hcompleted, heq⟩ := Option.map_eq_some_iff.mp h
      cases heq
      unfold completed? at hcompleted
      split at hcompleted
      next key' claim payload _ =>
        split at hcompleted <;> cases hcompleted
        exact ⟨c, delivery, claim, payload, rest, hpc⟩
      next => cases hcompleted
    next => cases h
  next => cases h

end Notifications

end OutboxFanout
