import OutboxFanout.Lib.JsonRoundTrip
import OutboxFanout.Python

/-!
# What arrives on a queue

`shared/messages.py`: a body is the event envelope, or SNS's own envelope with
ours as a string in its `Message`. `Delivers` is SNS's side: the bodies under
which a subscription of ours may see a published text.
-/

namespace OutboxFanout

def unwrap (depth : Nat) (body : String) : Except Exc Json := do
  let outer ← jsonLoads depth body
  match outer.member? "Type", outer.member? "Message" with
  | some (.str type), some message =>
    if type = "Notification" then
      match message with
      | .str text => jsonLoads depth text
      | _ => .error (.plain "TypeError" "the JSON object must be str, bytes or bytearray")
    else return outer
  | _, _ => return outer

/-- SNS's envelope of a text, whatever else it says. -/
def Wraps (outer : Json) (text : String) : Prop :=
  outer.member? "Type" = some (.str "Notification") ∧ outer.member? "Message" = some (.str text)

/-- Raw delivery passes the text on; otherwise it is the `Message` of a notification. -/
def Delivers (body text : String) : Prop :=
  body = text ∨ ∃ depth outer, Json.loads depth body = .ok outer ∧ Wraps outer text

def isText (text : String) : Option Json → Bool
  | some (.str text') => text' = text
  | _ => false

theorem isText_iff : isText text item = true ↔ item = some (.str text) := by
  unfold isText
  split <;> simp_all

theorem delivers_iff :
    (body = text ∨ ∃ outer ∈ (Json.loads body.length body).toOption, Wraps outer text) ↔
      Delivers body text := by
  refine or_congr_right ⟨fun ⟨outer, hread, hwraps⟩ => ?_, fun ⟨depth, outer, hread, hwraps⟩ => ?_⟩
  · exact ⟨body.length, outer, Except.toOption_eq_some.mp hread, hwraps⟩
  · exact ⟨outer, Except.toOption_eq_some.mpr (Json.loads_length hread), hwraps⟩

instance : Decidable (item = some (Json.str text)) := decidable_of_iff _ isText_iff

instance : Decidable (Wraps outer text) := by unfold Wraps; infer_instance

instance : Decidable (Delivers body text) := decidable_of_iff _ delivers_iff

theorem jsonLoads_ok (h : jsonLoads depth text = .ok j) : Json.loads depth text = .ok j := by
  unfold jsonLoads at h
  cases hloads : Json.loads depth text with
  | error e => rw [hloads] at h; cases h
  | ok i => rw [hloads] at h; cases h; rfl

theorem eq_of_jsonLoads_dumps (h : jsonLoads depth (Json.dumps message) = .ok j) : j = message :=
  Json.loads_unique (jsonLoads_ok h) (Json.loads_dumps le_rfl)

theorem jsonLoads_unique (h : jsonLoads depth text = .ok i) (h' : jsonLoads depth' text = .ok j) :
    i = j :=
  Json.loads_unique (jsonLoads_ok h) (jsonLoads_ok h')

theorem jsonLoads_of_depth (h : Json.loads limit text = .ok j) (hdepth : j.depth ≤ depth) :
    jsonLoads depth text = .ok j := by
  rw [jsonLoads, Json.loads_of_depth h hdepth, Except.mapError]

theorem jsonLoads_dumps (h : message.depth ≤ depth) :
    jsonLoads depth (Json.dumps message) = .ok message :=
  jsonLoads_of_depth (Json.loads_dumps le_rfl) h

/-- The interpreter nests as deep as the body. -/
def Nests (depth : Nat) (body : String) : Prop :=
  ∀ limit outer, Json.loads limit body = .ok outer → outer.depth ≤ depth

theorem nests_dumps (h : message.depth ≤ depth) : Nests depth (Json.dumps message) := by
  intro limit outer hread
  exact Json.loads_unique (Json.loads_dumps le_rfl) hread ▸ h

theorem exists_nests (body : String) : ∃ depth ≥ 2, Nests depth body := by
  by_cases h : ∃ limit outer, Json.loads limit body = .ok outer
  · obtain ⟨limit, outer, hread⟩ := h
    exact ⟨max 2 outer.depth, le_max_left .., fun _ _ hread' =>
      Json.loads_unique hread hread' ▸ le_max_right ..⟩
  · exact ⟨2, le_rfl, fun limit outer hread => (h ⟨limit, outer, hread⟩).elim⟩

/-- A text that is delivered is read back. -/
theorem Delivers.unwrap_ok (h : Delivers body (Json.dumps message)) (hnests : Nests depth body)
    (hdepth : message.depth ≤ depth) (hplain : message.member? "Type" = none) :
    unwrap depth body = .ok message := by
  rcases h with rfl | ⟨limit, outer, hread, htype, htext⟩
  · refine Except.bind_eq_ok.mpr ⟨message, jsonLoads_dumps hdepth, ?_⟩
    rw [hplain]
    rfl
  · refine Except.bind_eq_ok.mpr ⟨outer, jsonLoads_of_depth hread (hnests _ _ hread), ?_⟩
    simp only [htype, htext, ↓reduceIte]
    exact jsonLoads_dumps hdepth

/-- The notification SNS sends to an unraw subscription. -/
def notification (messageId topicArn text timestamp eventType : String) : Json := .obj [
  ("Type", .str "Notification"),
  ("MessageId", .str messageId),
  ("TopicArn", .str topicArn),
  ("Message", .str text),
  ("Timestamp", .str timestamp),
  ("MessageAttributes", .obj [
    ("event_type", .obj [("Type", .str "String"), ("Value", .str eventType)])])]

theorem notification_depth :
    (notification messageId topicArn text timestamp eventType).depth = 3 := rfl

theorem delivers_notification :
    Delivers (Json.dumps (notification messageId topicArn text timestamp eventType)) text :=
  .inr ⟨3, _, Json.loads_dumps notification_depth.le, rfl, rfl⟩

/-- A body reads as one event, if at all, under any interpreter. -/
theorem unwrap_unique (h : unwrap depth body = .ok event) (h' : unwrap depth' body = .ok event') :
    event = event' := by
  obtain ⟨outer, houter, h⟩ := Except.bind_eq_ok.mp h
  obtain ⟨outer', houter', h'⟩ := Except.bind_eq_ok.mp h'
  obtain rfl := jsonLoads_unique houter houter'
  split at h
  next type message htype hmessage =>
    simp only [htype, hmessage] at h'
    split at h
    next hnotification =>
      rw [if_pos hnotification] at h'
      split at h
      · exact jsonLoads_unique h h'
      · cases h
    next hplain =>
      rw [if_neg hplain] at h'
      exact (Except.pure_eq_ok.mp h).symm.trans (Except.pure_eq_ok.mp h')
  next hother =>
    split at h'
    next type message htype hmessage => exact (hother type message htype hmessage).elim
    next => exact (Except.pure_eq_ok.mp h).symm.trans (Except.pure_eq_ok.mp h')

/-- Whichever way a text is delivered, `unwrap` reads what was published. -/
theorem Delivers.unwrap_eq (h : Delivers body (Json.dumps message))
    (hplain : message.member? "Type" = none) (hevent : unwrap depth body = .ok event) :
    event = message := by
  obtain ⟨outer, houter, hout⟩ := Except.bind_eq_ok.mp hevent
  rcases h with rfl | ⟨limit, outer', hread, htype, htext⟩
  · obtain rfl := eq_of_jsonLoads_dumps houter
    rw [hplain] at hout
    exact (Except.pure_eq_ok.mp hout).symm
  · obtain rfl := Json.loads_unique hread (jsonLoads_ok houter)
    simp only [htype, htext, ↓reduceIte] at hout
    exact eq_of_jsonLoads_dumps hout

end OutboxFanout
