/-!
# Programs that call a service

A `Script` ends, or makes a call and goes on with the reply; a call that fails
ends it. Others may use the service between any two calls. `Ensures` is the
rely-guarantee rule for a script: as long as the others move the state along
`rely`, its own calls move it along `guar`, none fails unless `fails`, and it
ends with `Q`.
-/

inductive Script (C : Type) (R : C → Type) (α : Type) where
  | done (a : α)
  | call (c : C) (k : R c → Script C R α)

abbrev Service (σ : Type) (C : Type) (R : C → Type) (ε : Type) :=
  σ → (c : C) → Except ε (R c × σ)

namespace Script

variable {C : Type} {R : C → Type} {α β σ ε : Type}

protected def bind : Script C R α → (α → Script C R β) → Script C R β
  | .done a, f => f a
  | .call c k, f => .call c fun r => (k r).bind f

instance : Monad (Script C R) where
  pure := .done
  bind := Script.bind

def lift (c : C) : Script C R (R c) := .call c .done

structure Contract (σ : Type) where
  rely : σ → σ → Prop
  guar : σ → σ → Prop
  fails : Prop

def Ensures (service : Service σ C R ε) (Γ : Contract σ) (Q : α → σ → Prop) : Script C R α → σ → Prop
  | .done a, s => ∀ t, Γ.rely s t → Q a t
  | .call c k, s => ∀ t, Γ.rely s t →
    match service t c with
    | .ok (r, t') => Γ.guar t t' ∧ Ensures service Γ Q (k r) t'
    | .error _ => Γ.fails

section
variable {service : Service σ C R ε} {Γ : Contract σ} {Q : α → σ → Prop}

theorem Ensures.step {k : R c → Script C R α} (h : Ensures service Γ Q (.call c k) s)
    (hrely : Γ.rely s t) (hcall : service t c = .ok (r, t')) :
    Γ.guar t t' ∧ Ensures service Γ Q (k r) t' := by
  have h := h t hrely
  rwa [hcall] at h

/-- What the others do between two calls changes nothing. -/
theorem Ensures.stable {prog : Script C R α}
    (htrans : ∀ {s t u}, Γ.rely s t → Γ.rely t u → Γ.rely s u)
    (h : Ensures service Γ Q prog s) (hrely : Γ.rely s t) : Ensures service Γ Q prog t := by
  cases prog with
  | done a => exact fun u hu => h u (htrans hrely hu)
  | call c k => exact fun u hu => h u (htrans hrely hu)

theorem ensures_pure {Q : α → σ → Prop} (h : ∀ t, Γ.rely s t → Q a t) :
    Ensures service Γ Q (pure a : Script C R α) s := h

theorem ensures_lift {Q : R c → σ → Prop} (h : ∀ t, Γ.rely s t → match service t c with
      | .ok (r, t') => Γ.guar t t' ∧ ∀ u, Γ.rely t' u → Q r u
      | .error _ => Γ.fails) :
    Ensures service Γ Q (lift c) s := h

theorem Ensures.bind {P : α → σ → Prop} {Q : β → σ → Prop} {prog : Script C R α}
    {f : α → Script C R β} (hrefl : ∀ {s}, Γ.rely s s) (h : Ensures service Γ P prog s)
    (hf : ∀ a t, P a t → Ensures service Γ Q (f a) t) : Ensures service Γ Q (prog >>= f) s := by
  induction prog generalizing s with
  | done a => exact hf a s (h s hrefl)
  | call c k ih =>
    intro t hrely
    have h := h t hrely
    change match service t c with
      | .ok (r, t') => Γ.guar t t' ∧ Ensures service Γ Q ((k r).bind f) t'
      | .error _ => Γ.fails
    cases hcall : service t c with
    | error e => simpa only [hcall] using h
    | ok reply =>
      simp only [hcall] at h
      exact ⟨h.1, ih _ h.2⟩

theorem Ensures.mono {Q Q' : α → σ → Prop} {prog : Script C R α} (h : Ensures service Γ Q prog s)
    (hq : ∀ a t, Q a t → Q' a t) : Ensures service Γ Q' prog s := by
  induction prog generalizing s with
  | done a => exact fun t ht => hq a t (h t ht)
  | call c k ih =>
    intro t ht
    have h := h t ht
    cases hcall : service t c with
    | error e => simpa only [hcall] using h
    | ok reply =>
      simp only [hcall] at h
      exact ⟨h.1, ih _ h.2⟩

/-- What both the others and the script itself keep may be added. -/
theorem Ensures.frame {F : σ → Prop} {prog : Script C R α} (h : Ensures service Γ Q prog s)
    (hs : F s) (hrely : ∀ {s t}, Γ.rely s t → F s → F t) (hguar : ∀ {s t}, Γ.guar s t → F s → F t) :
    Ensures service Γ (fun a t => Q a t ∧ F t) prog s := by
  induction prog generalizing s with
  | done a => exact fun t ht => ⟨h t ht, hrely ht hs⟩
  | call c k ih =>
    intro t ht
    have h := h t ht
    cases hcall : service t c with
    | error e => simpa only [hcall] using h
    | ok reply =>
      simp only [hcall] at h
      exact ⟨h.1, ih _ h.2 (hguar h.1 (hrely ht hs))⟩

end

end Script
