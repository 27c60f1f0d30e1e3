import OutboxFanout.Notifications.Release

/-!
# Failures that suppress a notification

Deliveries of an order one after another, with Redis commands and sends that
may raise. As long as a call that raises leaves no claim of its own behind, the
key is set by a call at work or by one that has sent (`Honest`), so whoever is
turned away may return. A claim left behind (`Stranded`) stays for good and
turns every later delivery away.
-/

namespace OutboxFanout.Notifications

variable {config : Config} {key : String} {store store' : Store} {s s' : State}

/-- The process is inside `handle`, with a call for the key. -/
def ConsumerOn (key : String) (pc : ConsumerPc Call) : Prop :=
  ∃ call, pc.call? = some call ∧ call.key = key

/-- Deliveries of the order do not overlap, no process is killed and no key expires. -/
def Apart (key : String) (s : State) : Action → Prop
  | .consumer _ .kill => False
  | .consumer c .next => ∀ delivery rest event, (s.consumers c).pc = .batch (delivery :: rest) →
    ReadsAs delivery.body event → keyOf event = .ok key → ∀ c', ¬ConsumerOn key (s.consumers c').pc
  | .env n => NoExpiry s (.env n)
  | _ => True

/-- The condition: no SET of the free key takes effect and raises, and no DEL of
it raises without effect. -/
def LeavesNoClaim (key : String) (s : State) : Action → Prop
  | .consumer c (.handle (.set (.lost _))) =>
    ConsumerOn key (s.consumers c).pc → s.store.find key ≠ none
  | .consumer c (.handle (.del (.refused _))) => ¬ConsumerOn key (s.consumers c).pc
  | _ => True

/-- Whoever returned for the order found it sent, and a claim is held by the
call that made it or has sent: a call that raised leaves none behind. -/
structure Notified (key : String) (s : State) : Prop where
  returned : ∀ c delivery event rest, (s.consumers c).pc = .deleting delivery event rest →
    keyOf event = .ok key → s.store.Sent key
  claimed : ∀ entry ∈ s.store.entries, entry.key = key →
    s.store.Sent key ∨ ∃ c, claimOf s c = some (key, entry.claim)

-- ---------------------------------------------------------------------------
-- The order's key in the store
-- ---------------------------------------------------------------------------

theorem find_ne_none : store.find key ≠ none ↔ ∃ entry ∈ store.entries, entry.key = key := by
  simp [Store.find, List.find?_eq_none]

/-- Nothing has happened to the key. -/
structure SameKey (key : String) (store store' : Store) : Prop where
  entries : ∀ entry, entry.key = key → (entry ∈ store'.entries ↔ entry ∈ store.entries)
  sent : store'.Sent key ↔ store.Sent key

theorem SameKey.refl : SameKey key store store := ⟨fun _ _ => .rfl, .rfl⟩

theorem SameKey.find (h : SameKey key store store') :
    store'.find key ≠ none ↔ store.find key ≠ none := by
  rw [find_ne_none, find_ne_none]
  exact exists_congr fun entry => and_congr_left fun hkey => h.entries entry hkey

theorem sent_note (hevent : ∀ claim now, event ≠ .sent key claim now) :
    (store.note event).Sent key ↔ store.Sent key := by
  simp [Store.Sent, Store.note, (hevent _ _).symm]

theorem SameKey.note (hevent : ∀ claim now, event ≠ .sent key claim now) :
    SameKey key store (store.note event) := ⟨fun _ _ => .rfl, sent_note hevent⟩

theorem sent_claim : (store.claim config key' value).Sent key ↔ store.Sent key :=
  sent_note (by simp)

theorem find_claim : (store.claim config key value).find key ≠ none :=
  find_ne_none.mpr ⟨_, List.mem_cons_self, rfl⟩

theorem sent_del : (store.del key' claim).Sent key ↔ store.Sent key := by
  unfold Store.del
  split
  · exact sent_note (by simp)
  · exact .rfl

theorem SameKey.duplicate : SameKey key store (store.note (.duplicate key' claim)) :=
  .note (by simp)

/-- A call for another key. -/
theorem Answered.sameKey (h : Answered config store call answer store' progress)
    (hne : call.key ≠ key) : SameKey key store store' := by
  cases h with
  | duplicate => exact .duplicate
  | claimed =>
    refine ⟨fun entry hkey => ⟨fun hmem => ?_, List.mem_cons_of_mem _⟩, sent_claim⟩
    rcases List.mem_cons.mp hmem with rfl | hmem
    · exact absurd hkey hne
    · exact hmem
  | sent => exact .note fun _ _ heq => hne (Event.sent.inj heq).1
  | released =>
    refine ⟨fun entry hkey => mem_del.trans ⟨And.left, fun hmem => ⟨hmem, ?_⟩⟩, sent_del⟩
    exact fun heq => hne (heq.symm.trans hkey)
  | setRefused | got | getFails | sendRaises | delRefused => exact .refl

theorem Answered.key_eq (h : Answered config store call answer store' (.continues call')) :
    call'.key = call.key := by
  cases h with
  | duplicate _ hreply | claimed _ hreply =>
    rcases hreply with ⟨-, heq⟩ | ⟨_, -, heq⟩ <;> cases heq
    rfl
  | sendRaises => rfl

theorem on_of_claim {pc : ConsumerPc Call} (hc : pc.call?.bind Call.claim? = some (key, claim)) :
    ConsumerOn key pc := by
  obtain ⟨call, hcall, hclaim⟩ := Option.bind_eq_some_iff.mp hc
  refine ⟨call, hcall, ?_⟩
  cases call <;> cases hclaim
  all_goals rfl

theorem on_of_claimOf (hc : claimOf s c = some (key, claim)) :
    ConsumerOn key (s.consumers c).pc := on_of_claim hc

theorem Answered.not_on (h : Answered config store call answer store' progress)
    (hne : call.key ≠ key) : ¬ConsumerOn key (progress.pc delivery event rest) := by
  rintro ⟨call', hcall', hkey'⟩
  cases progress <;> cases hcall'
  exact hne (h.key_eq.symm.trans hkey')

-- ---------------------------------------------------------------------------
-- As long as no claim is left behind
-- ---------------------------------------------------------------------------

/-- What the process has come to. -/
def Fits (key : String) (store : Store) : ConsumerPc Call → Prop
  | .handling _ event call _ =>
    keyOf event = .ok call.key ∧ (call = .duplicate key → store.Sent key)
  | .deleting _ event _ => keyOf event = .ok key → store.Sent key
  | _ => True

theorem Fits.later (hlater : store.Sent key → store'.Sent key) {pc : ConsumerPc Call}
    (h : Fits key store pc) : Fits key store' pc := by
  cases pc with
  | handling => exact ⟨h.1, fun hcall => hlater (h.2 hcall)⟩
  | deleting => exact fun hkey => hlater (h hkey)
  | _ => trivial

structure Honest (key : String) (s : State) : Prop where
  fits : ∀ c, Fits key s.store (s.consumers c).pc
  alone : ∀ c c', ConsumerOn key (s.consumers c).pc → ConsumerOn key (s.consumers c').pc → c = c'
  claimed : ∀ entry ∈ s.store.entries, entry.key = key →
    s.store.Sent key ∨ ∃ c, claimOf s c = some (key, entry.claim)
  held : ∀ c claim, claimOf s c = some (key, claim) → s.store.find key ≠ none ∧ ¬s.store.Sent key
  kept : s.store.Sent key → s.store.find key ≠ none

theorem Honest.empty : Honest key (.empty limit .empty) :=
  ⟨fun _ => trivial, by rintro _ _ ⟨_, ⟨⟩, _⟩, nofun, nofun, nofun⟩

theorem Honest.notified (h : Honest key s) : Notified key s := by
  refine ⟨fun c delivery event rest hpc => ?_, h.claimed⟩
  have hfits := h.fits c
  rwa [hpc] at hfits

section
variable {p : Consumer Call} {queue : Queue String} {tried : List Nat}

theorem alone_put
    (h : ∀ c c', ConsumerOn key (s.consumers c).pc → ConsumerOn key (s.consumers c').pc → c = c')
    (hon : ConsumerOn key p.pc → ∀ c', ConsumerOn key (s.consumers c').pc → c' = c) (c₁ c₂ : ConsumerId)
    (h₁ : ConsumerOn key ((s.put c p).consumers c₁).pc)
    (h₂ : ConsumerOn key ((s.put c p).consumers c₂).pc) : c₁ = c₂ := by
  by_cases hc₁ : c₁ = c <;> by_cases hc₂ : c₂ = c
  · exact hc₁.trans hc₂.symm
  · subst hc₁
    simp only [Site.put, Function.update_self, Function.update_of_ne hc₂] at h₁ h₂
    exact (hon h₁ c₂ h₂).symm
  · subst hc₂
    simp only [Site.put, Function.update_self, Function.update_of_ne hc₁] at h₁ h₂
    exact hon h₂ c₁ h₁
  · simp only [Site.put, Function.update_of_ne hc₁, Function.update_of_ne hc₂] at h₁ h₂
    exact h c₁ c₂ h₁ h₂

/-- A process moves on, and nothing has happened to the key or to who holds it. -/
theorem Honest.put (h : Honest key s) (hsame : SameKey key s.store store)
    (hp : Fits key store p.pc)
    (hon : ConsumerOn key p.pc → ∀ c', ConsumerOn key (s.consumers c').pc → c' = c)
    (hclaim : ∀ claim, p.pc.call?.bind Call.claim? = some (key, claim) ↔
      claimOf s c = some (key, claim)) : Honest key ({ s with queue, store, tried }.put c p) := by
  have hholder : ∀ c' claim, claimOf ({ s with queue, store, tried }.put c p) c' = some (key, claim) ↔
      claimOf s c' = some (key, claim) := by
    intro c' claim
    rw [claimOf_put]
    by_cases hc : c' = c
    · subst hc
      rw [Function.update_self, hclaim]
    · rw [Function.update_of_ne hc]
      rfl
  constructor
  case fits => exact Site.forall_put hp fun c' => (h.fits c').later hsame.sent.mpr
  case alone => exact alone_put h.alone hon
  case claimed =>
    intro entry hmem hkey
    simp only [hholder]
    exact (h.claimed entry ((hsame.entries entry hkey).mp hmem) hkey).imp_left hsame.sent.mpr
  case held =>
    intro c' claim hc'
    obtain ⟨hfind, hunsent⟩ := h.held c' claim ((hholder c' claim).mp hc')
    exact ⟨hsame.find.mpr hfind, fun hsent => hunsent (hsame.sent.mp hsent)⟩
  case kept => exact fun hsent => hsame.find.mpr (h.kept (hsame.sent.mp hsent))

/-- The one process with a call for the key moves on. -/
theorem Honest.move (h : Honest key s) (hc : ConsumerOn key (s.consumers c).pc)
    (hsent : s.store.Sent key → store.Sent key) (hp : Fits key store p.pc)
    (hclaimed : ∀ entry ∈ store.entries, entry.key = key →
      store.Sent key ∨ p.pc.call?.bind Call.claim? = some (key, entry.claim))
    (hheld : ∀ claim, p.pc.call?.bind Call.claim? = some (key, claim) →
      store.find key ≠ none ∧ ¬store.Sent key)
    (hkept : store.Sent key → store.find key ≠ none) :
    Honest key ({ s with queue, store, tried }.put c p) := by
  have honly : ∀ c', ConsumerOn key (s.consumers c').pc → c' = c := fun c' hc' => h.alone c' c hc' hc
  constructor
  case fits => exact Site.forall_put hp fun c' => (h.fits c').later hsent
  case alone => exact alone_put h.alone fun _ => honly
  case claimed =>
    intro entry hmem hkey
    refine (hclaimed entry hmem hkey).imp_right fun hclaim => ⟨c, ?_⟩
    rwa [claimOf_put, Function.update_self]
  case held =>
    intro c' claim hc'
    rw [claimOf_put] at hc'
    by_cases heq : c' = c
    · subst heq
      rw [Function.update_self] at hc'
      exact hheld claim hc'
    · rw [Function.update_of_ne heq] at hc'
      exact absurd (honly c' (on_of_claimOf (s := s) hc')) heq
  case kept => exact hkept

end

/-- A call for another key. -/
theorem Honest.other (h : Honest key s)
    (hpc : (s.consumers c).pc = .handling delivery event call rest) (hkey : call.key ≠ key)
    (hanswer : Answered config s.store call answer store progress) :
    Honest key ({ s with store }.goto c (progress.pc delivery event rest)) := by
  obtain ⟨hevent, -⟩ : Fits key s.store (.handling delivery event call rest) := hpc ▸ h.fits c
  have hoff : ¬ConsumerOn key (progress.pc delivery event rest) := hanswer.not_on hkey
  have hold : ∀ claim, claimOf s c ≠ some (key, claim) := by
    intro claim hc
    obtain ⟨call', hcall', hkey'⟩ := on_of_claimOf hc
    rw [hpc] at hcall'
    cases hcall'
    exact hkey hkey'
  refine h.put (hanswer.sameKey hkey) ?_ (fun hon => absurd hon hoff) ?_
  · cases progress with
    | continues call' =>
      have hkey' := hanswer.key_eq
      refine ⟨hkey' ▸ hevent, ?_⟩
      rintro rfl
      exact absurd hkey'.symm hkey
    | returned => exact fun hkey' => absurd (Except.ok.inj (hevent.symm.trans hkey')) hkey
    | raised => trivial
  · exact fun claim => iff_of_false (fun hc => hoff (on_of_claim hc)) (hold claim)

theorem Honest.answered (h : Honest key s)
    (hpc : (s.consumers c).pc = .handling delivery event call rest)
    (hanswer : Answered config s.store call answer store progress)
    (hleaves : LeavesNoClaim key s (.consumer c (.handle answer))) :
    Honest key ({ s with store }.goto c (progress.pc delivery event rest)) := by
  by_cases hkey : call.key = key
  case neg => exact h.other hpc hkey hanswer
  have hon : ConsumerOn key (s.consumers c).pc := ⟨call, by rw [hpc]; rfl, hkey⟩
  have honly : ∀ c', ConsumerOn key (s.consumers c').pc → c' = c := fun c' hc' => h.alone c' c hc' hon
  have hclaim : claimOf s c = call.claim? := claimOf_handling hpc
  obtain ⟨hevent, hduplicate⟩ : Fits key s.store (.handling delivery event call rest) :=
    hpc ▸ h.fits c
  cases hanswer with
  | @duplicate _ entry _ _ _ _ hfind hreply =>
    obtain rfl : key = _ := hkey.symm
    -- whoever holds the claim it found would be the call itself
    have hsent : s.store.Sent key := by
      obtain ⟨hmem, hentry⟩ := find_some hfind
      rcases h.claimed _ hmem hentry with hsent | ⟨c', hc'⟩
      · exact hsent
      · obtain rfl := honly c' (on_of_claimOf hc')
        rw [hclaim] at hc'
        cases hc'
    have hsame : SameKey key s.store (s.store.note (.duplicate key entry.claim)) := .duplicate
    refine h.put hsame ?_ (fun _ => honly) ?_
    · rcases hreply with ⟨-, rfl⟩ | ⟨_, -, rfl⟩
      · exact ⟨hevent, fun _ => hsame.sent.mpr hsent⟩
      · trivial
    · rw [hclaim]
      rcases hreply with ⟨-, rfl⟩ | ⟨_, -, rfl⟩ <;> exact fun _ => .rfl
  | claimed hfind hreply =>
    obtain rfl : key = _ := hkey.symm
    rcases hreply with ⟨rfl, rfl⟩ | ⟨_, rfl, -⟩
    case inr => exact absurd hfind (hleaves hon)
    have hunsent : ¬s.store.Sent key := fun hsent => h.kept hsent hfind
    refine h.move hon sent_claim.mpr ⟨hevent, nofun⟩ ?_ ?_ fun _ => find_claim
    · intro entry hmem hentry
      rcases List.mem_cons.mp hmem with rfl | hmem
      · exact .inr rfl
      · exact absurd hentry (find_none hfind entry hmem)
    · exact fun claim _ => ⟨find_claim, fun hsent => hunsent (sent_claim.mp hsent)⟩
  | setRefused => exact h.put .refl trivial (fun _ => honly) fun _ => by rw [hclaim]; exact .rfl
  | got =>
    obtain rfl : key = _ := hkey.symm
    exact h.put .refl (fun _ => hduplicate rfl) (fun _ => honly) fun _ => by rw [hclaim]; exact .rfl
  | getFails => exact h.put .refl trivial (fun _ => honly) fun _ => by rw [hclaim]; exact .rfl
  | sendRaises =>
    exact h.put .refl ⟨hevent, nofun⟩ (fun _ => honly) fun _ => by rw [hclaim]; exact .rfl
  | @sent _ claim =>
    obtain rfl : key = _ := hkey.symm
    have hsent : (s.store.note (.sent key claim s.store.now)).Sent key :=
      ⟨claim, _, List.mem_cons_self⟩
    refine h.move hon (fun _ => hsent) (fun _ => hsent) (fun _ _ _ => .inl hsent) nofun fun _ => ?_
    exact (h.held c _ hclaim).1
  | released =>
    obtain rfl : key = _ := hkey.symm
    refine h.move hon sent_del.mpr trivial ?_ nofun ?_
    · exact fun entry hmem hentry => absurd hentry (mem_del.mp hmem).2
    · exact fun hsent => absurd (sent_del.mp hsent) (h.held c _ hclaim).2
  | delRefused => exact absurd hon hleaves

/-- A process without a call moves on, and into none. -/
theorem Honest.idle (h : Honest key s) {queue : Queue String} {p : Consumer Call}
    (hpc : (s.consumers c).pc.call? = none) (hp : p.pc.call? = none) (hfits : Fits key s.store p.pc) :
    Honest key ({ s with queue }.put c p) :=
  h.put .refl hfits (by rintro ⟨_, hcall, _⟩; rw [hp] at hcall; cases hcall) fun _ => by
    rw [claimOf, hpc, hp]

theorem start_claiming (h : start event = .ok call) :
    keyOf event = .ok call.key ∧ ∃ value payload, call = .claiming call.key value payload := by
  simp only [start, Except.bind_eq_ok, Except.pure_eq_ok] at h
  obtain ⟨key, hkey, payload, -, _, -, value, -, rfl⟩ := h
  exact ⟨hkey, value, payload, rfl⟩

theorem Honest.open_ (h : Honest key s) (hpc : (s.consumers c).pc = .batch (delivery :: rest))
    (hapart : Apart key s (.consumer c .next)) :
    Honest key ({ s with tried }.goto c ((handle config).open_ depth delivery rest)) := by
  have hnone : claimOf s c = none := claimOf_none (by rw [hpc]; rfl)
  refine Handler.open_cases ?_ fun event call hparse hstart => ?_
  · refine h.put .refl trivial ?_ fun _ => by rw [hnone]; exact .rfl
    rintro ⟨_, ⟨⟩, _⟩
  · obtain ⟨hkey, value, payload, hcall⟩ := start_claiming hstart
    rw [hcall] at hkey ⊢
    refine h.put .refl ⟨hkey, nofun⟩ ?_ fun _ => by rw [hnone]; exact .rfl
    rintro ⟨_, ⟨⟩, hon⟩ c' hc'
    exact absurd hc' (hapart delivery rest event hpc ⟨depth, hparse⟩ (hon ▸ hkey) c')

theorem Honest.step (h : Honest key s) (hs : SiteStep (handle config) s action s')
    (hapart : Apart key s action) (hleaves : LeavesNoClaim key s action) : Honest key s' := by
  have hidle : ∀ {c pc}, (s.consumers c).pc = pc → pc.call? = none → (s.consumers c).pc.call? = none :=
    fun hpc hcall => hpc ▸ hcall
  cases hs with
  | killCall | kill => exact hapart.elim
  | start hpc | exit hpc | drop hpc | delete hpc | keep hpc => exact h.idle (hidle hpc rfl) rfl trivial
  | receive hpc hq hnext =>
    rcases hnext with ⟨-, rfl⟩ | ⟨-, rfl⟩ <;> exact h.idle (hidle hpc rfl) rfl trivial
  | stop => exact h.put .refl (h.fits _) (fun hon c' hc' => h.alone _ _ hc' hon) fun _ => .rfl
  | next hpc => exact h.open_ hpc hapart
  | handle hpc hcall => exact h.answered hpc (step_cases hcall) hleaves
  | deliver | expire | redrive => exact ⟨h.fits, h.alone, h.claimed, h.held, h.kept⟩
  | env hstore =>
    cases hstore
    rw [tick_eq hapart]
    exact ⟨fun c => (h.fits c).later id, h.alone, h.claimed, h.held, h.kept⟩

-- ---------------------------------------------------------------------------
-- A claim left behind
-- ---------------------------------------------------------------------------

/-- The key is set by a call that has ended without a send. -/
structure Stranded (key : String) (s : State) : Prop where
  set : s.store.find key ≠ none
  unsent : ¬s.store.Sent key
  free : ∀ c claim, claimOf s c ≠ some (key, claim)

theorem Stranded.not_notified (h : Stranded key s) : ¬Notified key s := by
  intro hnotified
  obtain ⟨entry, hmem, hkey⟩ := find_ne_none.mp h.set
  rcases hnotified.claimed entry hmem hkey with hsent | ⟨c, hc⟩
  · exact h.unsent hsent
  · exact h.free c _ hc

/-- The call that leaves it behind ends. -/
theorem Honest.strand (h : Honest key s) (hon : ConsumerOn key (s.consumers c).pc)
    (hset : store.find key ≠ none) (hunsent : ¬store.Sent key) :
    Stranded key ({ s with store }.goto c (.batch rest)) := by
  refine ⟨hset, hunsent, fun c' claim hc' => ?_⟩
  rw [Site.goto, claimOf_put] at hc'
  by_cases heq : c' = c
  · subst heq
    rw [Function.update_self] at hc'
    cases hc'
  · rw [Function.update_of_ne heq] at hc'
    exact heq (h.alone c' c (on_of_claimOf (s := s) hc') hon)

theorem Honest.slip (h : Honest key s) (hs : SiteStep (handle config) s action s')
    (hleaves : ¬LeavesNoClaim key s action) : Stranded key s' := by
  cases hs with
  | @handle c _ _ call _ _ _ _ hpc hcall =>
    have hclaim : claimOf s c = call.claim? := claimOf_handling hpc
    have hkey : ∀ {key'}, ConsumerOn key' (s.consumers c).pc → call.key = key' := by
      rintro key' ⟨_, hcall', hkey⟩
      rw [hpc] at hcall'
      cases hcall'
      exact hkey
    cases step_cases hcall with
    | duplicate hfind hreply =>
      rcases hreply with ⟨rfl, -⟩ | ⟨_, rfl, -⟩
      · exact absurd trivial hleaves
      · refine absurd (fun hon => ?_) hleaves
        obtain rfl := hkey hon
        exact Option.ne_none_iff_exists'.mpr ⟨_, hfind⟩
    | claimed hfind hreply =>
      rcases hreply with ⟨rfl, -⟩ | ⟨_, rfl, rfl⟩
      · exact absurd trivial hleaves
      · simp only [LeavesNoClaim, Classical.not_imp] at hleaves
        obtain ⟨hon, -⟩ := hleaves
        obtain rfl := hkey hon
        exact h.strand hon find_claim fun hsent => h.kept (sent_claim.mp hsent) hfind
    | delRefused =>
      obtain hon := Classical.not_not.mp hleaves
      obtain rfl := hkey hon
      exact h.strand hon (h.held c _ hclaim).1 (h.held c _ hclaim).2
    | released hreply => rcases hreply with rfl | ⟨_, rfl⟩ <;> exact absurd trivial hleaves
    | _ => exact absurd trivial hleaves
  | _ => exact absurd trivial hleaves

theorem Stranded.put (h : Stranded key s) {queue : Queue String} {tried : List Nat}
    {p : Consumer Call} (hsame : SameKey key s.store store)
    (hp : ∀ claim, p.pc.call?.bind Call.claim? ≠ some (key, claim)) :
    Stranded key ({ s with queue, store, tried }.put c p) := by
  refine ⟨hsame.find.mpr h.set, fun hsent => h.unsent (hsame.sent.mp hsent), fun c' claim => ?_⟩
  rw [claimOf_put]
  by_cases hc : c' = c
  · subst hc
    rw [Function.update_self]
    exact hp claim
  · rw [Function.update_of_ne hc]
    exact h.free c' claim

theorem Stranded.answered (h : Stranded key s)
    (hpc : (s.consumers c).pc = .handling delivery event call rest)
    (hanswer : Answered config s.store call answer store progress) :
    Stranded key ({ s with store }.goto c (progress.pc delivery event rest)) := by
  by_cases hkey : call.key = key
  case neg => exact h.put (hanswer.sameKey hkey) fun _ hc => hanswer.not_on hkey (on_of_claim hc)
  have hfree : ∀ claim, call.claim? ≠ some (key, claim) := fun claim hc =>
    h.free c claim ((claimOf_handling hpc).trans hc)
  cases hanswer with
  | duplicate hfind hreply =>
    refine h.put .duplicate ?_
    rcases hreply with ⟨-, rfl⟩ | ⟨_, -, rfl⟩ <;> exact nofun
  | claimed hfind => exact absurd (hkey ▸ hfind) h.set
  | setRefused | got | getFails => exact h.put .refl nofun
  | sendRaises | sent | released | delRefused =>
    obtain rfl : key = _ := hkey.symm
    exact absurd rfl (hfree _)

theorem Stranded.step (h : Stranded key s) (hs : SiteStep (handle config) s action s')
    (hapart : Apart key s action) : Stranded key s' := by
  cases hs with
  | start | exit | drop | delete | keep | killCall | kill => exact h.put .refl nofun
  | receive hpc hq hnext =>
    refine h.put .refl ?_
    rcases hnext with ⟨-, rfl⟩ | ⟨-, rfl⟩ <;> exact nofun
  | stop => exact h.put .refl (h.free _)
  | next hpc => exact h.put .refl fun claim => by rw [claim?_open]; exact nofun
  | handle hpc hcall => exact h.answered hpc (step_cases hcall)
  | deliver | expire | redrive => exact ⟨h.set, h.unsent, h.free⟩
  | env hstore =>
    cases hstore
    rw [tick_eq hapart]
    exact ⟨h.set, h.unsent, h.free⟩

/-- Over deliveries of an order one after another, a failure has suppressed its
notification just when some call that raised left its claim behind. -/
theorem notified_iff (orderId : String) (h : (machine config).Path (.empty limit .empty) steps s)
    (hapart : Machine.Along (Apart (notifyKey orderId)) steps) :
    Notified (notifyKey orderId) s ↔ Machine.Along (LeavesNoClaim (notifyKey orderId)) steps := by
  let key := notifyKey orderId
  refine h.holds_iff (C := Apart key) (D := LeavesNoClaim key) (I := Honest key) (J := Stranded key)
    (P := Notified key) hapart .empty ?_ ?_ ?_ ?_ ?_
  · exact fun t a u hi hc hd hs => hi.step (Site.step_cases hs) hc hd
  · exact fun t a u hi _ hd hs => hi.slip (Site.step_cases hs) hd
  · exact fun t a u hj hc hs => hj.step (Site.step_cases hs) hc
  · exact fun t hi => hi.notified
  · exact fun t hj => hj.not_notified

-- ---------------------------------------------------------------------------
-- A claim whose answer is lost
-- ---------------------------------------------------------------------------

theorem apart_next (h : ∀ c, (s.consumers c).pc.call? = none) : Apart key s (.consumer c .next) := by
  rintro _ _ _ - - - c' ⟨call, hcall, -⟩
  rw [h c'] at hcall
  cases hcall

theorem Calm.apart (h : Calm s action) : Apart key s action := by
  unfold Calm at h
  split at h
  all_goals first | exact h.elim | exact apart_next h | trivial

theorem Calm.leavesNoClaim (h : Calm s action) : LeavesNoClaim key s action := by
  unfold LeavesNoClaim
  split
  next => cases h
  next => exact h.elim
  next => trivial

/-- Redis executes the first SET and the call raises; the next delivery finds
the key set and returns. -/
theorem reaches_suppressed {body key value : String} {event payload : Json}
    (hopen : ∀ receipt, (handle defaultConfig).open_ 5 ⟨0, receipt, body⟩ [] =
      .handling ⟨0, receipt, body⟩ event (.claiming key value payload) []) :
    (machine defaultConfig).Reaches (Apart key) (.empty 5 .empty)
      (duo (holding body 2 .inFlight) (turnedStore key value) [0, 0] (.deleting ⟨0, 2, body⟩ event [])
        .polling) := by
  have hlost : step defaultConfig .empty (.claiming key value payload) (.set (.lost timedOut)) =
      some (claimedStore key value, .raised timedOut) := rfl
  have h₀ : (machine defaultConfig).Reaches (Apart key) (.empty 5 .empty)
      (duo (holding body 0 .visible) .empty [] .polling .polling) :=
    reaches_duo.mono fun _ _ hc => hc.apart
  have h₁ : (machine defaultConfig).Reaches (Apart key) (.empty 5 .empty)
      (duo (holding body 1 .inFlight) .empty [] (.batch [⟨0, 1, body⟩]) .polling) :=
    reaches_move h₀ (.consumer 0 (.receive [0] true)) trivial (duo_step₀ rfl)
  have h₂ : (machine defaultConfig).Reaches (Apart key) (.empty 5 .empty)
      (duo (holding body 1 .inFlight) .empty [0]
        (.handling ⟨0, 1, body⟩ event (.claiming key value payload) []) .polling) :=
    reaches_move h₁ (.consumer 0 .next) (apart_next (duo_idle rfl rfl)) (duo_next₀ (hopen 1))
  have h₃ : (machine defaultConfig).Reaches (Apart key) (.empty 5 .empty)
      (duo (holding body 1 .inFlight) (claimedStore key value) [0] (.batch []) .polling) :=
    reaches_move h₂ (.consumer 0 (.handle (.set (.lost timedOut)))) trivial (duo_handle₀ hlost)
  have h₄ : (machine defaultConfig).Reaches (Apart key) (.empty 5 .empty)
      (duo (holding body 1 .inFlight) (claimedStore key value) [0] .polling .polling) :=
    reaches_move h₃ (.consumer 0 .next) (apart_next (duo_idle rfl rfl)) (duo_step₀ rfl)
  have h₅ : (machine defaultConfig).Reaches (Apart key) (.empty 5 .empty)
      (duo (holding body 1 .visible) (claimedStore key value) [0] .polling .polling) :=
    reaches_move h₄ (.expire 0) trivial rfl
  have h₆ : (machine defaultConfig).Reaches (Apart key) (.empty 5 .empty)
      (duo (holding body 2 .inFlight) (claimedStore key value) [0] (.batch [⟨0, 2, body⟩])
        .polling) :=
    reaches_move h₅ (.consumer 0 (.receive [0] true)) trivial (duo_step₀ rfl)
  have h₇ : (machine defaultConfig).Reaches (Apart key) (.empty 5 .empty)
      (duo (holding body 2 .inFlight) (claimedStore key value) [0, 0]
        (.handling ⟨0, 2, body⟩ event (.claiming key value payload) []) .polling) :=
    reaches_move h₆ (.consumer 0 .next) (apart_next (duo_idle rfl rfl)) (duo_next₀ (hopen 2))
  have h₈ : (machine defaultConfig).Reaches (Apart key) (.empty 5 .empty)
      (duo (holding body 2 .inFlight) (turnedStore key value) [0, 0]
        (.handling ⟨0, 2, body⟩ event (.duplicate key) []) .polling) :=
    reaches_move h₇ (.consumer 0 (.handle (.set .ok))) trivial (duo_handle₀ step_set)
  exact reaches_move h₈ (.consumer 0 (.handle (.get .ok))) trivial (duo_handle₀ step_get)

theorem unsent_turnedStore : ¬(turnedStore key value).Sent key := by
  simp [Store.Sent, turnedStore, claimedStore, Store.claim, Store.note, Store.empty]

theorem notified_keyboard : ∃ steps s, (machine defaultConfig).Path (.empty 5 .empty) steps s ∧
    Machine.Along (Apart (notifyKey (UUID.str ⟨1⟩))) steps ∧
    s.store.Sent (notifyKey (UUID.str ⟨1⟩)) ∧ Notified (notifyKey (UUID.str ⟨1⟩)) s := by
  have hbody := unwrap_keyboardBody (Nat.le_add_right 3 2)
  obtain ⟨steps, hpath, hcalm⟩ := ((reaches_duo.trans
    (reaches_claimed (open_of_unwrap keyboardRow_payload hbody))).trans
      (reaches_sent (keyboardRow_payload ▸ sendable_buildPayload))).exists_path
  have hapart : Machine.Along (Apart (notifyKey (UUID.str ⟨1⟩))) steps := fun x hx => (hcalm x hx).apart
  refine ⟨steps, _, hpath, hapart, ⟨_, _, List.mem_cons_self⟩, ?_⟩
  exact (notified_iff (UUID.str ⟨1⟩) hpath hapart).mpr fun x hx => (hcalm x hx).leavesNoClaim

/-- A SET that takes effect and raises suppresses the notification. -/
theorem not_notified_lost : ¬∀ steps s orderId,
    (machine defaultConfig).Path (.empty 5 .empty) steps s →
    Machine.Along (Apart (notifyKey orderId)) steps → Notified (notifyKey orderId) s := by
  intro h
  have hbody := unwrap_keyboardBody (Nat.le_add_right 3 2)
  obtain ⟨steps, hpath, hapart⟩ :=
    (reaches_suppressed (open_of_unwrap keyboardRow_payload hbody)).exists_path
  have hkey : keyOf (buildMessage keyboardRow) = .ok (notifyKey (UUID.str ⟨1⟩)) :=
    (start_claiming (start_buildMessage keyboardRow_payload)).1
  exact unsent_turnedStore
    ((h steps _ _ hpath hapart).returned 0 ⟨0, 2, keyboardBody⟩ _ [] duo_pc₀ hkey)

end OutboxFanout.Notifications
