import OutboxFanout.Lib.Path
import OutboxFanout.Shared.Db
import OutboxFanout.Shared.Settlement

/-!
# One batch of the loop

`_handle_one` and the `for message in batch` of `run`, in `shared/consumer.py`,
as far as they call others: whatever a message makes them raise is caught in
one of two places. `loads` is `json.loads`, of which nothing is assumed. What
the loop does with a batch is what `_handle_one` does with each of its messages
by itself, up to the signal (`callsOf_eq`), and a consumer of a `Site` calls
the same for its batch (`calls_through`).
-/

namespace OutboxFanout.Loop

inductive Call where
  | handleOne (message : Delivery String)
  | handler (event : Json)
  | deleteMessage (message : Delivery String)

/-- The calls made so far, oldest first; an exception keeps them. -/
abbrev Calling := Db (List Call)

def say (call : Call) : Calling Unit := modify (· ++ [call])

/-- A message of a batch and what it meets. -/
structure Turn where
  message : Delivery String
  -- shutdown.is_set() when its turn comes
  stopped : Bool
  handler : Except Exc Unit
  delete : Except Exc Unit

variable (loads : String → Except Exc Json)

/-- `unwrap`. -/
def unwrapWith (body : String) : Except Exc Json := do
  let outer ← loads body
  match outer.member? "Type", outer.member? "Message" with
  | some (.str type), some message =>
    if type = "Notification" then
      match message with
      | .str text => loads text
      | _ => .error (.plain "TypeError" "the JSON object must be str, bytes or bytearray")
    else return outer
  | _, _ => return outer

/-- The `try` of `_handle_one`. -/
def parse (body : String) : Except Exc Json := do
  let event ← unwrapWith loads body
  let _ ← getItem event "event_id"
  return event

/-- What its `except` catches. -/
def unparsable (exc : Exc) : Bool :=
  ["JSONDecodeError", "KeyError", "TypeError"].contains exc.typeName

def handleOne (turn : Turn) : Calling Unit := do
  match parse loads turn.message.body with
  | .error exc => if unparsable exc then return () else throw exc
  | .ok event =>
    say (.handler event)
    turn.handler
    say (.deleteMessage turn.message)
    turn.delete

/-- `for message in batch`. -/
def forBatch : List Turn → Calling Unit
  | [] => return ()
  | turn :: turns =>
    if turn.stopped then return ()
    else do
      say (.handleOne turn.message)
      -- except Exception
      let _ ← caught (handleOne loads turn)
      forBatch turns

/-- What the loop calls for a batch. -/
def callsOf (turns : List Turn) : List Call := ((forBatch loads turns).run []).2

/-- `unwrap` yields a mapping with an event_id and the handler returns. -/
def Turn.processed (turn : Turn) : Bool :=
  match unwrapWith loads turn.message.body with
  | .ok (.obj members) => ((Json.obj members).member? "event_id").isSome && turn.handler.isOk
  | _ => false

def Call.handled? : Call → Option (Delivery String)
  | .handleOne message => some message
  | _ => none

def Call.deleted? : Call → Option (Delivery String)
  | .deleteMessage message => some message
  | _ => none

/-- What is called for one message, with nothing before it. -/
def Turn.calls (turn : Turn) : List Call :=
  .handleOne turn.message :: ((handleOne loads turn).run []).2

-- ---------------------------------------------------------------------------
-- One message
-- ---------------------------------------------------------------------------

variable {loads} {turn : Turn} {turns : List Turn} {calls : List Call}

theorem say_run : (say call).run calls = (.ok (), calls ++ [call]) := rfl

theorem handleOne_run : (handleOne loads turn).run calls =
    match parse loads turn.message.body, turn.handler with
    | .error exc, _ => (if unparsable exc then .ok () else .error exc, calls)
    | .ok event, .error exc => (.error exc, calls ++ [.handler event])
    | .ok event, .ok () => (turn.delete, calls ++ [.handler event, .deleteMessage turn.message]) := by
  unfold handleOne
  cases parse loads turn.message.body with
  | error exc =>
    simp only
    split <;> rfl
  | ok event =>
    simp only [bind_run, say_run]
    cases hhandler : turn.handler with
    | error exc => rfl
    | ok => exact Prod.ext rfl (List.append_assoc ..)

/-- Whatever was called before, the message adds the same calls. -/
theorem handleOne_calls :
    ((handleOne loads turn).run calls).2 = calls ++ ((handleOne loads turn).run []).2 := by
  rw [handleOne_run, handleOne_run]
  split <;> simp

theorem calls_eq : turn.calls loads = .handleOne turn.message ::
    match parse loads turn.message.body, turn.handler with
    | .error _, _ => []
    | .ok event, .error _ => [.handler event]
    | .ok event, .ok () => [.handler event, .deleteMessage turn.message] := by
  rw [Turn.calls, handleOne_run]
  split <;> rfl

theorem getItem_isOk {value : Json} : (getItem value key).isOk = (value.member? key).isSome := by
  unfold getItem
  split
  next hmember => rw [hmember]; rfl
  next hmember => rw [hmember]; rfl
  next hmember => rw [hmember]; rfl

theorem parse_isOk (hunwrap : unwrapWith loads body = .ok value) :
    (parse loads body).isOk = (value.member? "event_id").isSome := by
  rw [← getItem_isOk, parse, hunwrap]
  simp only [bind, Except.bind]
  cases getItem value "event_id" <;> rfl

theorem processed_eq :
    turn.processed loads = ((parse loads turn.message.body).isOk && turn.handler.isOk) := by
  cases hunwrap : unwrapWith loads turn.message.body with
  | error exc => simp [Turn.processed, parse, hunwrap, bind, Except.bind, Except.isOk, Except.toBool]
  | ok value =>
    rw [parse_isOk hunwrap, Turn.processed, hunwrap]
    cases value <;> rfl

theorem forBatch_run : (forBatch loads turns).run calls =
    (.ok (), calls ++ (turns.takeWhile (!·.stopped)).flatMap (Turn.calls loads)) := by
  induction turns generalizing calls with
  | nil => 
    simp [forBatch]; rfl
  | cons turn turns ih =>
    rw [forBatch]
    cases hstop : turn.stopped with
    | true => simp [hstop]; rfl
    | false =>
      rw [if_neg (by simp), bind_run, say_run]
      simp only [caught_bind]
      rw [ih, handleOne_calls]
      simp [hstop, Turn.calls]

theorem callsOf_eq :
    callsOf loads turns = (turns.takeWhile (!·.stopped)).flatMap (Turn.calls loads) := by
  rw [callsOf, forBatch_run, List.nil_append]

theorem calls_handled : (turn.calls loads).filterMap Call.handled? = [turn.message] := by
  rw [calls_eq]
  split <;> rfl

theorem calls_deleted : (turn.calls loads).filterMap Call.deleted? =
    if turn.processed loads then [turn.message] else [] := by
  rw [calls_eq, processed_eq]
  cases parse loads turn.message.body with
  | error => rfl
  | ok => cases turn.handler <;> rfl

theorem callsOf_cons : callsOf loads (turn :: turns) =
    if turn.stopped then [] else turn.calls loads ++ callsOf loads turns := by
  rw [callsOf_eq, callsOf_eq, List.takeWhile_cons]
  cases turn.stopped <;> rfl

theorem callsOf_append {before after : List Turn} :
    callsOf loads (before ++ turn :: after) = callsOf loads before ++
      if (before ++ [turn]).all (!·.stopped) then turn.calls loads ++ callsOf loads after else [] := by
  induction before with
  | nil =>
    rw [List.nil_append, callsOf_cons]
    cases hstop : turn.stopped <;> simp [hstop, callsOf_eq]
  | cons first before ih =>
    rw [List.cons_append, callsOf_cons, callsOf_cons, ih]
    cases hstop : first.stopped <;> simp [hstop]

/-- `_handle_one` is called once on each message up to the signal, in order; it
deletes just those it could read and its handler returned for; nothing is
raised; and what is called for a message does not depend on the others. -/
theorem forBatch_harmless (loads : String → Except Exc Json) (turns : List Turn) :
    ((forBatch loads turns).run []).1 = .ok () ∧
    (callsOf loads turns).filterMap Call.handled? =
      (turns.takeWhile (!·.stopped)).map (·.message) ∧
    (callsOf loads turns).filterMap Call.deleted? =
      ((turns.takeWhile (!·.stopped)).filter (Turn.processed loads)).map (·.message) ∧
    ∀ before turn after, callsOf loads (before ++ turn :: after) = callsOf loads before ++
      if (before ++ [turn]).all (!·.stopped) then turn.calls loads ++ callsOf loads after else [] := by
  refine ⟨by rw [forBatch_run], ?_, ?_, fun _ _ _ => callsOf_append⟩
  · simp only [callsOf_eq, List.filterMap_flatMap, calls_handled]
    exact List.map_eq_flatMap.symm
  · simp only [callsOf_eq, List.filterMap_flatMap, calls_deleted]
    induction turns.takeWhile (!·.stopped) with
    | nil => rfl
    | cons turn turns ih => cases hdone : turn.processed loads <;> simp [hdone, ih]

-- ---------------------------------------------------------------------------
-- A consumer of a site
-- ---------------------------------------------------------------------------

section
variable {σ η α ε : Type} {handler : Handler σ η α ε} {c : ConsumerId} {s s' t : Site σ η}
  {batch : List (Delivery String)}

/-- What a step of the site makes consumer `c` call. -/
def callsAt (c : ConsumerId) (s : Site σ η) (action : SiteAction α ε) : List Call :=
  match action, (s.consumers c).pc with
  | .consumer c' .next, .batch (delivery :: _) =>
    if c' = c ∧ (s.consumers c).shutdown = false then
      .handleOne delivery :: match parseBody (s.consumers c).config.depth delivery.body with
        | .ok event => [.handler event]
        | .error _ => []
    else []
  | .consumer c' (.delete _ _), .deleting delivery _ _ =>
    if c' = c then [.deleteMessage delivery] else []
  | _, _ => []

/-- The steps of a path come latest first. -/
def traceOf (c : ConsumerId) : List (Site σ η × SiteAction α ε) → List Call
  | [] => []
  | (s, action) :: steps => traceOf c steps ++ callsAt c s action

/-- The consumer is in its batch and lives on. -/
def InBatch (c : ConsumerId) (s : Site σ η) (action : SiteAction α ε) : Prop :=
  (s.consumers c).pc ≠ .polling ∧ action ≠ .consumer c .kill

/-- Where a consumer is that has called `calls` for its batch. -/
def Through (loads : String → Except Exc Json) (batch : List (Delivery String)) (calls : List Call) :
    ConsumerPc η → Prop
  | .down => False
  | .batch rest => ∃ turns, turns.map (·.message) ++ rest = batch ∧
    (∀ turn ∈ turns, turn.stopped = false) ∧ calls = callsOf loads turns
  | .handling delivery event _ rest | .deleting delivery event rest =>
    ∃ turns, turns.map (·.message) ++ delivery :: rest = batch ∧
      (∀ turn ∈ turns, turn.stopped = false) ∧ parse loads delivery.body = .ok event ∧
      calls = callsOf loads turns ++ [.handleOne delivery, .handler event]
  | .polling => ∃ turns, turns.map (·.message) = batch ∧ calls = callsOf loads turns

theorem parseBody_eq : parseBody depth body = parse (jsonLoads depth) body := rfl

theorem callsOf_concat (hturns : ∀ turn ∈ turns, turn.stopped = false) (hturn : turn.stopped = false) :
    callsOf loads (turns ++ [turn]) = callsOf loads turns ++ turn.calls loads := by
  rw [callsOf_append, if_pos (by simpa [hturn] using hturns)]
  simp [callsOf_eq]

/-- The consumer is done with a message. -/
theorem Through.done (turn : Turn) (hbatch : turns.map (·.message) ++ turn.message :: rest = batch)
    (hturns : ∀ turn ∈ turns, turn.stopped = false) (hturn : turn.stopped = false)
    (hcalls : calls = callsOf loads turns ++ turn.calls loads) :
    Through (η := η) loads batch calls (.batch rest) := by
  refine ⟨turns ++ [turn], by simpa using hbatch, ?_, hcalls.trans (callsOf_concat hturns hturn).symm⟩
  intro turn' hmem
  rcases List.mem_append.mp hmem with hmem | hmem
  · exact hturns turn' hmem
  · rwa [List.mem_singleton.mp hmem]

/-- The loop ends, or breaks. -/
theorem Through.polling (h : Through (η := η) loads batch calls (.batch rest)) :
    Through (η := η) loads batch calls .polling := by
  obtain ⟨turns, hbatch, hturns, hcalls⟩ := h
  refine ⟨turns ++ rest.map fun delivery => ⟨delivery, true, .ok (), .ok ()⟩, ?_, hcalls.trans ?_⟩
  · simpa [Function.comp_def] using hbatch
  · cases rest with
    | nil => simp
    | cons delivery rest => simp [callsOf_append]

theorem others (hs : SiteStep handler s action s') (h : ∀ a, action ≠ .consumer c a) :
    s'.consumers c = s.consumers c := by
  cases hs with
  | deliver | expire | redrive | env => rfl
  | _ =>
    refine Function.update_of_ne ?_ _ _
    rintro rfl
    exact h _ rfl

theorem callsAt_others {action : SiteAction α ε} (h : ∀ a, action ≠ .consumer c a) :
    callsAt c s action = [] := by
  unfold callsAt
  split
  next c' _ _ _ _ => rw [if_neg]; rintro ⟨rfl, -⟩; exact h _ rfl
  next c' _ _ _ _ _ _ => rw [if_neg]; rintro rfl; exact h _ rfl
  next => rfl

theorem Through.open_ (handler : Handler σ η α ε)
    (h : Through (η := η) (jsonLoads depth) batch calls (.batch (delivery :: rest))) :
    Through (jsonLoads depth) batch (calls ++ .handleOne delivery ::
      match parseBody depth delivery.body with
      | .ok event => [.handler event]
      | .error _ => []) (handler.open_ depth delivery rest) := by
  obtain ⟨turns, hbatch, hturns, rfl⟩ := h
  unfold Handler.open_
  rw [parseBody_eq]
  cases hparse : parse (jsonLoads depth) delivery.body with
  | error exc =>
    exact .done ⟨delivery, false, .ok (), .ok ()⟩ hbatch hturns rfl (by rw [calls_eq, hparse])
  | ok event =>
    simp only
    split
    next exc hstart =>
      exact .done ⟨delivery, false, .error exc, .ok ()⟩ hbatch hturns rfl (by rw [calls_eq, hparse])
    next call hstart => exact ⟨turns, hbatch, hturns, hparse, rfl⟩

theorem Through.answered {progress : Progress η}
    (h : Through loads batch calls (.handling delivery event call rest)) :
    Through loads batch calls (progress.pc delivery event rest) := by
  cases progress with
  | continues | returned => exact h
  | raised exc =>
    obtain ⟨turns, hbatch, hturns, hparse, hcalls⟩ := h
    exact .done ⟨delivery, false, .error exc, .ok ()⟩ hbatch hturns rfl
      (by rw [calls_eq, hparse, hcalls])

theorem Through.deleted (h : Through (η := η) loads batch calls (.deleting delivery event rest)) :
    Through (η := η) loads batch (calls ++ [.deleteMessage delivery]) (.batch rest) := by
  obtain ⟨turns, hbatch, hturns, hparse, hcalls⟩ := h
  refine .done ⟨delivery, false, .ok (), .ok ()⟩ hbatch hturns rfl ?_
  rw [calls_eq, hparse, hcalls, List.append_assoc]
  rfl

theorem goto_self : ((s.goto c pc).consumers c) = { s.consumers c with pc } := Function.update_self ..

theorem Through.step (h : Through loads batch calls (s.consumers c).pc)
    (hloads : loads = jsonLoads (s.consumers c).config.depth)
    (hs : SiteStep handler s action s') (hin : InBatch c s action) :
    Through loads batch (calls ++ callsAt c s action) (s'.consumers c).pc ∧
      (s'.consumers c).config = (s.consumers c).config := by
  obtain ⟨hpolling, hkill⟩ := hin
  by_cases hc : ∃ a, action = .consumer c a
  case neg =>
    rw [not_exists] at hc
    rw [others hs hc, callsAt_others hc, List.append_nil]
    exact ⟨h, rfl⟩
  obtain ⟨a, rfl⟩ := hc
  subst hloads
  cases hs with
  | start hpc =>
    rw [hpc] at h
    exact h.elim
  | killCall | kill => exact absurd rfl hkill
  | stop =>
    have hself : ((s.put c { s.consumers c with shutdown := true }).consumers c) =
      { s.consumers c with shutdown := true } := Function.update_self ..
    rw [hself]
    exact ⟨by simpa [callsAt] using h, rfl⟩
  | exit hpc => exact absurd hpc hpolling
  | receive hpc => exact absurd hpc hpolling
  | @drop _ rest hpc hstop =>
    rw [hpc] at h
    rw [goto_self]
    have hnone : callsAt c s (.consumer c .next : SiteAction α ε) = [] := by
      rcases hstop with rfl | hstop
      · simp [callsAt, hpc]
      · cases rest <;> simp [callsAt, hpc, hstop]
    rw [hnone, List.append_nil]
    exact ⟨h.polling, rfl⟩
  | next hpc hrun =>
    rw [hpc] at h
    rw [goto_self]
    refine ⟨?_, rfl⟩
    simpa [callsAt, hpc, hrun] using h.open_ handler
  | handle hpc hcall =>
    rw [hpc] at h
    rw [goto_self]
    exact ⟨by simpa [callsAt] using h.answered, rfl⟩
  | delete hpc | keep hpc =>
    rw [hpc] at h
    rw [goto_self]
    exact ⟨by simpa [callsAt, hpc] using h.deleted, rfl⟩

/-- A consumer that has got through its batch has called what `forBatch` calls,
for some outcomes of the calls. -/
theorem calls_through (h : (Site.machine handler).Path s steps t)
    (hin : Machine.Along (InBatch c) steps) (hstart : (s.consumers c).pc = .batch batch)
    (hend : (t.consumers c).pc = .polling) :
    ∃ turns, turns.map (·.message) = batch ∧
      traceOf c steps = callsOf (jsonLoads (s.consumers c).config.depth) turns := by
  have hthrough : Through (jsonLoads (s.consumers c).config.depth) batch (traceOf c steps)
      (t.consumers c).pc ∧ (t.consumers c).config = (s.consumers c).config := by
    clear hend
    induction h with
    | refl =>
      rw [hstart]
      exact ⟨⟨[], rfl, nofun, rfl⟩, rfl⟩
    | next a _ hs ih =>
      obtain ⟨ha, hrest⟩ := Machine.along_cons.mp hin
      obtain ⟨hthrough, hconfig⟩ := ih hrest
      obtain ⟨hthrough', hconfig'⟩ := hthrough.step (by rw [hconfig]) (Site.step_cases hs) ha
      exact ⟨hthrough', hconfig'.trans hconfig⟩
  rw [hend] at hthrough
  exact hthrough.1

end

end OutboxFanout.Loop
