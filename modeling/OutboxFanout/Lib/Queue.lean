import OutboxFanout.Lib.Rows

/-!
# A queue with visibility timeouts and a dead letter queue

A message is visible, in flight (received, not deleted, its visibility timeout
running) or dead: moved to the dead letter queue, which happens once it has
been received `limit` times. Only a delete removes a message, and never a dead
one. `contents` is what every other operation keeps.
-/

inductive Place where
  | visible
  | inFlight
  | dead
  deriving DecidableEq, Repr

structure Message (β : Type) where
  id : Nat
  body : β
  receives : Nat
  place : Place

/-- One delivery of a message: `receipt` counts the receives up to it. -/
structure Delivery (β : Type) where
  id : Nat
  receipt : Nat
  body : β

structure Queue (β : Type) where
  limit : Nat
  messages : List (Message β)
  nextId : Nat
  keyed : Rows.Keyed Message.id messages
  bound : ∀ m ∈ messages, m.id < nextId

namespace Queue

variable {β : Type} {q : Queue β}

def empty (limit : Nat) : Queue β := ⟨limit, [], 0, List.nodup_nil, nofun⟩

def contents (q : Queue β) : List (Nat × β) := q.messages.map fun m => (m.id, m.body)

def find (q : Queue β) (id : Nat) : Option (Message β) := q.messages.find? (·.id = id)

def send (q : Queue β) (body : β) : Queue β where
  limit := q.limit
  messages := q.messages ++ [⟨q.nextId, body, 0, .visible⟩]
  nextId := q.nextId + 1
  keyed := q.keyed.append fun old hold => (q.bound old hold).ne
  bound := by
    intro m hm
    rcases List.mem_append.mp hm with hm | hm
    · exact Nat.lt_succ_of_lt (q.bound m hm)
    · exact List.mem_singleton.mp hm ▸ Nat.lt_succ_self _

/-- Moves the messages of `ids` to `place` and counts `received` more receives. -/
def move (q : Queue β) (ids : List Nat) (place : Place) (received : Nat) : Queue β where
  limit := q.limit
  messages := q.messages.map fun m =>
    if m.id ∈ ids then { m with place, receives := m.receives + received } else m
  nextId := q.nextId
  keyed := by
    have hids : ∀ m : Message β, (if m.id ∈ ids then
        { m with place, receives := m.receives + received } else m).id = m.id := fun m => by
      split <;> rfl
    simpa [Rows.Keyed, hids, Function.comp_def] using q.keyed
  bound := by
    intro m hm
    obtain ⟨old, hold, rfl⟩ := List.mem_map.mp hm
    split <;> exact q.bound old hold

def receivable (q : Queue β) (id : Nat) : Option (Message β) :=
  q.messages.find? fun m => m.id = id ∧ m.place = .visible ∧ m.receives < q.limit

/-- `receive_message` returns these messages. -/
def receive (q : Queue β) (ids : List Nat) : Option (List (Delivery β) × Queue β) :=
  if ids.Nodup ∧ ids.all fun id => (q.receivable id).isSome then
    some ((ids.filterMap q.receivable).map fun m => ⟨m.id, m.receives + 1, m.body⟩,
      q.move ids .inFlight 1)
  else none

/-- The visibility timeout runs out. -/
def expire (q : Queue β) (id : Nat) : Option (Queue β) :=
  (q.find id).bind fun m => if m.place = .inFlight then some (q.move [id] .visible 0) else none

def redrive (q : Queue β) (id : Nat) : Option (Queue β) :=
  (q.find id).bind fun m =>
    if m.place = .visible ∧ q.limit ≤ m.receives then some (q.move [id] .dead 0) else none

def delete (q : Queue β) (id : Nat) : Queue β where
  limit := q.limit
  messages := q.messages.filter fun m => m.id ≠ id ∨ m.place = .dead
  nextId := q.nextId
  keyed := q.keyed.sublist (List.filter_sublist.map _)
  bound := fun m hm => q.bound m (List.mem_of_mem_filter hm)

/-- The receipt is the latest one: deleting with it removes the message. -/
def current (q : Queue β) (d : Delivery β) : Bool :=
  (q.find d.id).all fun m => m.receives ≤ d.receipt

-- ---------------------------------------------------------------------------
-- What each operation leaves
-- ---------------------------------------------------------------------------

theorem mem_contents {x : Nat × β} :
    x ∈ q.contents ↔ ∃ m ∈ q.messages, m.id = x.1 ∧ m.body = x.2 := by
  simp [contents, Prod.ext_iff]

theorem contents_lt {x : Nat × β} (h : x ∈ q.contents) : x.1 < q.nextId := by
  obtain ⟨m, hm, hid, -⟩ := mem_contents.mp h
  exact hid ▸ q.bound m hm

theorem contents_unique (h : (key, b) ∈ q.contents) (h' : (key, b') ∈ q.contents) : b = b' := by
  obtain ⟨m, hm, rfl, rfl⟩ := mem_contents.mp h
  obtain ⟨m', hm', hid, rfl⟩ := mem_contents.mp h'
  rw [q.keyed.eq_of_mem hm' hm hid]

theorem contents_send : (q.send body).contents = q.contents ++ [(q.nextId, body)] := by
  simp [contents, send]

theorem contents_move : (q.move ids place n).contents = q.contents := by
  simp only [contents, move, List.map_map]
  refine List.map_congr_left fun m _ => ?_
  simp only [Function.comp]
  split <;> rfl

theorem receive_eq (h : q.receive ids = some (ds, q')) :
    q' = q.move ids .inFlight 1 ∧
      ds = (ids.filterMap q.receivable).map fun m => ⟨m.id, m.receives + 1, m.body⟩ := by
  simp only [receive] at h
  split at h
  · cases h; exact ⟨rfl, rfl⟩
  · cases h

/-- What is received was there. -/
theorem mem_contents_of_receive (h : q.receive ids = some (ds, q')) (hd : d ∈ ds) :
    (d.id, d.body) ∈ q.contents := by
  rw [(receive_eq h).2] at hd
  obtain ⟨m, hm, rfl⟩ := List.mem_map.mp hd
  obtain ⟨key, -, hfind⟩ := List.mem_filterMap.mp hm
  exact mem_contents.mpr ⟨m, List.mem_of_find?_eq_some hfind, rfl, rfl⟩

theorem expire_eq (h : q.expire key = some q') : q' = q.move [key] .visible 0 := by
  obtain ⟨m, -, hm⟩ := Option.bind_eq_some_iff.mp h
  split at hm <;> cases hm
  rfl

theorem redrive_eq (h : q.redrive key = some q') : q' = q.move [key] .dead 0 := by
  obtain ⟨m, -, hm⟩ := Option.bind_eq_some_iff.mp h
  split at hm <;> cases hm
  rfl

theorem contents_of_delete {x : Nat × β} (h : x ∈ (q.delete key).contents) : x ∈ q.contents := by
  obtain ⟨m, hm, hx⟩ := mem_contents.mp h
  exact mem_contents.mpr ⟨m, List.mem_of_mem_filter hm, hx⟩

theorem contents_delete_of_ne {x : Nat × β} (h : x ∈ q.contents) (hne : x.1 ≠ key) :
    x ∈ (q.delete key).contents := by
  obtain ⟨m, hm, hid, hbody⟩ := mem_contents.mp h
  exact mem_contents.mpr ⟨m, List.mem_filter.mpr ⟨hm, by simp [hid, hne]⟩, hid, hbody⟩

-- ---------------------------------------------------------------------------
-- One message
-- ---------------------------------------------------------------------------

/-- What holds of the moved messages as moved, and of the others as they are,
holds of all. -/
theorem forall_move {P : Message β → Prop}
    (hmoved : ∀ m ∈ q.messages, m.id ∈ ids → P { m with place, receives := m.receives + n })
    (hother : ∀ m ∈ q.messages, m.id ∉ ids → P m) : ∀ m ∈ (q.move ids place n).messages, P m := by
  intro m hm
  obtain ⟨old, hold, rfl⟩ := List.mem_map.mp hm
  split
  next hin => exact hmoved old hold hin
  next hout => exact hother old hold hout

theorem find_eq (hm : m ∈ q.messages) : q.find m.id = some m := by
  obtain ⟨m', hfind⟩ : ∃ m', q.find m.id = some m' :=
    Option.isSome_iff_exists.mp (List.find?_isSome.mpr ⟨m, hm, by simp⟩)
  have hid : m'.id = m.id := by simpa using List.find?_some hfind
  rw [hfind, q.keyed.eq_of_mem (List.mem_of_find?_eq_some hfind) hm hid]

theorem receivable_of_mem (hm : m ∈ q.messages) (h : q.receivable m.id = some m') :
    m' = m ∧ m.place = .visible ∧ m.receives < q.limit := by
  have hm' := List.mem_of_find?_eq_some h
  obtain ⟨hid, hvisible, hleft⟩ : m'.id = m.id ∧ m'.place = .visible ∧ m'.receives < q.limit := by
    simpa using List.find?_some h
  obtain rfl := q.keyed.eq_of_mem hm' hm hid
  exact ⟨rfl, hvisible, hleft⟩

theorem receive_mem (h : q.receive ids = some (ds, q')) (hm : m ∈ q.messages) (hid : m.id ∈ ids) :
    m.place = .visible ∧ m.receives < q.limit ∧ ⟨m.id, m.receives + 1, m.body⟩ ∈ ds := by
  have hds := (receive_eq h).2
  simp only [receive] at h
  split at h
  next hall =>
    obtain ⟨m', hm'⟩ := Option.isSome_iff_exists.mp (List.all_eq_true.mp hall.2 _ hid)
    obtain ⟨rfl, hvisible, hleft⟩ := receivable_of_mem hm hm'
    exact ⟨hvisible, hleft, hds ▸ List.mem_map.mpr ⟨_, List.mem_filterMap.mpr ⟨_, hid, hm'⟩, rfl⟩⟩
  next => cases h

theorem mem_of_receive (h : q.receive ids = some (ds, q')) (hd : d ∈ ds) :
    ∃ m ∈ q.messages, m.id = d.id ∧ m.receives < q.limit := by
  rw [(receive_eq h).2] at hd
  obtain ⟨m, hm, rfl⟩ := List.mem_map.mp hd
  obtain ⟨key, -, hfind⟩ := List.mem_filterMap.mp hm
  have hleft : m.id = key ∧ m.place = .visible ∧ m.receives < q.limit := by
    simpa using List.find?_some hfind
  exact ⟨m, List.mem_of_find?_eq_some hfind, rfl, hleft.2.2⟩

theorem expire_mem (h : q.expire m.id = some q') (hm : m ∈ q.messages) : m.place = .inFlight := by
  rw [expire, find_eq hm, Option.bind_some] at h
  split at h
  next hplace => exact hplace
  next => cases h

theorem redrive_mem (h : q.redrive m.id = some q') (hm : m ∈ q.messages) :
    m.place = .visible ∧ q.limit ≤ m.receives := by
  rw [redrive, find_eq hm, Option.bind_some] at h
  split at h
  next hdue => exact hdue
  next => cases h

-- ---------------------------------------------------------------------------
-- What a delivery knows of the queue
-- ---------------------------------------------------------------------------

/-- `q'` is `q` some operations later: ids are never used again. -/
structure Later (q q' : Queue β) : Prop where
  nextId : q.nextId ≤ q'.nextId
  contents : ∀ x ∈ q'.contents, x ∈ q.contents ∨ q.nextId ≤ x.1

theorem Later.refl (q : Queue β) : Later q q := ⟨le_rfl, fun _ h => .inl h⟩

theorem Later.send : Later q (q.send body) := by
  refine ⟨Nat.le_succ _, fun x h => ?_⟩
  rw [contents_send, List.mem_append, List.mem_singleton] at h
  rcases h with h | rfl
  · exact .inl h
  · exact .inr le_rfl

theorem Later.delete : Later q (q.delete key) := ⟨le_rfl, fun _ h => .inl (contents_of_delete h)⟩

theorem Later.move : Later q (q.move ids place n) := ⟨le_rfl, fun _ hx => .inl (contents_move ▸ hx)⟩

/-- The message of `d`, if it is still there, has the body `d` has. -/
structure Knows (q : Queue β) (d : Delivery β) : Prop where
  lt : d.id < q.nextId
  body : ∀ b, (d.id, b) ∈ q.contents → b = d.body

theorem Knows.later (h : Knows q d) (hq : Later q q') : Knows q' d := by
  refine ⟨h.lt.trans_le hq.nextId, fun b hb => ?_⟩
  rcases hq.contents _ hb with hb | hnew
  · exact h.body b hb
  · exact absurd h.lt (Nat.not_lt.mpr hnew)

theorem Knows.receive (h : q.receive ids = some (ds, q')) (hd : d ∈ ds) : Knows q d :=
  have hmem := mem_contents_of_receive h hd
  ⟨contents_lt hmem, fun _ hb => contents_unique hb hmem⟩

end Queue
