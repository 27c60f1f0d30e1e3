import OutboxFanout.Lib.Machine

/-!
# Runs with their steps

`Reaches` forgets a run, a `Path` keeps it: its steps, each with the state it
was taken in. `holds_iff` is the rule for an exact condition: what a run meets
at its end holds just when every step of it met the condition.
-/

namespace Machine

variable {σ α : Type} {m : Machine σ α} {C D : σ → α → Prop}

/-- The steps come latest first. -/
inductive Path (m : Machine σ α) (s : σ) : List (σ × α) → σ → Prop
  | refl : Path m s [] s
  | next {t u : σ} {steps : List (σ × α)} (a : α) :
    Path m s steps t → m.step t a = some u → Path m s ((t, a) :: steps) u

/-- Every step of the run was taken where the condition allows it. -/
def Along (C : σ → α → Prop) (steps : List (σ × α)) : Prop := ∀ x ∈ steps, C x.1 x.2

theorem along_nil : Along C [] := nofun

theorem along_cons {steps : List (σ × α)} : Along C ((s, a) :: steps) ↔ C s a ∧ Along C steps := by
  simp [Along]

theorem Path.reaches (h : m.Path s steps t) (hc : Along C steps) : m.Reaches C s t := by
  induction h with
  | refl => exact .refl
  | next a _ hs ih =>
    obtain ⟨ha, hrest⟩ := along_cons.mp hc
    exact .next a (ih hrest) ha hs

theorem Reaches.exists_path (h : m.Reaches C s t) : ∃ steps, m.Path s steps t ∧ Along C steps := by
  induction h with
  | refl => exact ⟨[], .refl, along_nil⟩
  | next a _ ha hs ih =>
    obtain ⟨steps, hpath, hc⟩ := ih
    exact ⟨_, hpath.next a hs, along_cons.mpr ⟨ha, hc⟩⟩

theorem Path.append {before after : List (σ × α)} (h : m.Path s before t) (h' : m.Path t after u) :
    m.Path s (after ++ before) u := by
  induction h' with
  | refl => exact h
  | next a _ hs ih => exact ih.next a hs

theorem path_of_exec [∀ s, DecidablePred (C s)] (h : m.exec C s as = some t) :
    ∃ steps, m.Path s steps t ∧ Along C steps ∧ steps.map Prod.snd = as.reverse := by
  induction as generalizing s with
  | nil =>
    cases h
    exact ⟨[], .refl, along_nil, rfl⟩
  | cons a as ih =>
    simp only [exec] at h
    split at h
    next hc =>
      obtain ⟨u, hu, ht⟩ := Option.bind_eq_some_iff.mp h
      obtain ⟨steps, hpath, halong, hactions⟩ := ih ht
      refine ⟨steps ++ [(s, a)], (Path.next a .refl hu).append hpath, fun x hx => ?_, by simp [hactions]⟩
      rcases List.mem_append.mp hx with hx | hx
      · exact halong x hx
      · obtain rfl := List.mem_singleton.mp hx
        exact hc
    next => cases h

theorem countP_actions {steps : List (σ × α)} {as : List α} {p : α → Bool} (h : steps.map Prod.snd = as.reverse) :
    steps.countP (fun x => p x.2) = as.countP p := by
  rw [← List.countP_reverse (l := as), ← h, List.countP_map]
  rfl

/-- A run on given actions, by evaluation. -/
theorem exists_path (m : Machine σ α) [∀ s, DecidablePred (C s)] (as : List α) (P : σ → Prop)
    [DecidablePred P] (h : (m.exec C s as).any (fun t => P t) = true) :
    ∃ steps t, m.Path s steps t ∧ Along C steps ∧ steps.map Prod.snd = as.reverse ∧ P t := by
  obtain ⟨t, ht, hp⟩ := (Option.any_eq_true ..).mp h
  obtain ⟨steps, hpath, halong, hactions⟩ := path_of_exec ht
  exact ⟨steps, t, hpath, halong, hactions, of_decide_eq_true hp⟩

/-- As long as every step meets `D` the run keeps `I`; the first one that does
not makes `J` true, for ever. -/
theorem Path.holds_iff {I J P : σ → Prop} (h : m.Path s steps t) (hc : Along C steps) (h₀ : I s)
    (hkeeps : ∀ t a u, I t → C t a → D t a → m.step t a = some u → I u)
    (hslips : ∀ t a u, I t → C t a → ¬D t a → m.step t a = some u → J u)
    (hstays : ∀ t a u, J t → C t a → m.step t a = some u → J u)
    (hholds : ∀ t, I t → P t) (hfails : ∀ t, J t → ¬P t) : P t ↔ Along D steps := by
  have hends : Along D steps ∧ I t ∨ ¬Along D steps ∧ J t := by
    induction h with
    | refl => exact .inl ⟨along_nil, h₀⟩
    | @next t u steps a _ hs ih =>
      obtain ⟨ha, hrest⟩ := along_cons.mp hc
      rw [along_cons]
      rcases ih hrest with ⟨hd, hi⟩ | ⟨hd, hj⟩
      · by_cases hda : D t a
        · exact .inl ⟨⟨hda, hd⟩, hkeeps t a u hi ha hda hs⟩
        · exact .inr ⟨fun h => hda h.1, hslips t a u hi ha hda hs⟩
      · exact .inr ⟨fun h => hd h.2, hstays t a u hj ha hs⟩
  rcases hends with ⟨hd, hi⟩ | ⟨hd, hj⟩
  · exact ⟨fun _ => hd, fun _ => hholds t hi⟩
  · exact ⟨fun hp => absurd hp (hfails t hj), fun h => absurd h hd⟩

end Machine
