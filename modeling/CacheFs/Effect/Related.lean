/-
  CacheFs.Effect.Related

  Two programs run side by side.

  `rwp` compares the executions of two programs whose environments make choices that
  `ρ` relates, call by call.  It asks that neither program returns before the other, and
  its postcondition speaks about both results and both states; a program that has used
  up its fuel is not compared any further.  `rwp_run` is what it says about executions
  along two streams of choices.  Where both sides are one program, all of whose calls keep
  a relation between the states and give equal replies, `rwp_same` is the only rule that is
  needed.
-/

import CacheFs.Effect.Trace

namespace CacheFs.Effect

universe u

namespace Prog

variable {Op : Type u} {Res : Op → Type u} {S C α β γ δ : Type u}
variable (E : Env Op Res S C) (ρ : C → C → Prop)

/-- However two environments answer that make related choices, the programs return
    together, and `Q` holds of what they return. -/
def rwp : Prog Op Res α → Prog Op Res β → (α → S → β → S → Prop) → S → S → Prop
  | .ret a, .ret b, Q, s, t => Q a s b t
  | .call op k, .call op' k', Q, s, t => ∀ c d, ρ c d → E.allow c op s → E.allow d op' t →
      rwp (k (E.handle c op s).1) (k' (E.handle d op' t).1) Q (E.handle c op s).2
        (E.handle d op' t).2
  | .spin, _, _, _, _ => True
  | .ret _, .spin, _, _, _ => True
  | .call _ _, .spin, _, _, _ => True
  | .ret _, .call _ _, _, _, _ => False
  | .call _ _, .ret _, _, _, _ => False

variable {E ρ}

@[simp] theorem rwp_pure {a : α} {b : β} {Q : α → S → β → S → Prop} {s t : S} :
    rwp E ρ (pure a : Prog Op Res α) (pure b : Prog Op Res β) Q s t ↔ Q a s b t := Iff.rfl

theorem rwp_spin_right (p : Prog Op Res α) {Q : α → S → β → S → Prop} {s t : S} :
    rwp E ρ p (.spin : Prog Op Res β) Q s t := by
  cases p with
  | ret a => trivial
  | call op k => trivial
  | spin => trivial

/-- Sequential composition. -/
theorem rwp_bind {p : Prog Op Res α} {q : Prog Op Res β} {f : α → Prog Op Res γ}
    {g : β → Prog Op Res δ} {Q : γ → S → δ → S → Prop} {s t : S}
    (h : rwp E ρ p q (fun a s b t => rwp E ρ (f a) (g b) Q s t) s t) :
    rwp E ρ (p >>= f) (q >>= g) Q s t := by
  rw [bind_def, bind_def]
  induction p generalizing q s t with
  | ret a =>
      cases q with
      | ret b => exact h
      | call op k => exact h.elim
      | spin => exact rwp_spin_right _
  | call op k ih =>
      cases q with
      | ret b => exact h.elim
      | call op' k' => exact fun c d hρ hc hd => ih _ (h c d hρ hc hd)
      | spin => trivial
  | spin => trivial

/-- The rule of consequence. -/
theorem rwp_mono {p : Prog Op Res α} {q : Prog Op Res β} {Q R : α → S → β → S → Prop} {s t : S}
    (h : rwp E ρ p q Q s t) (hQR : ∀ a s b t, Q a s b t → R a s b t) : rwp E ρ p q R s t := by
  induction p generalizing q s t with
  | ret a =>
      cases q with
      | ret b => exact hQR a s b t h
      | call op k => exact h.elim
      | spin => trivial
  | call op k ih =>
      cases q with
      | ret b => exact h.elim
      | call op' k' => exact fun c d hρ hc hd => ih _ (h c d hρ hc hd)
      | spin => trivial
  | spin => trivial

/-- What a weakest precondition says about the execution on the left. -/
theorem rwp_and_wp {p : Prog Op Res α} {q : Prog Op Res β} {Q : α → S → β → S → Prop}
    {R : α → S → Prop} {s t : S} (h : rwp E ρ p q Q s t) (hR : wp E p R s) :
    rwp E ρ p q (fun a s b t => Q a s b t ∧ R a s) s t := by
  induction p generalizing q s t with
  | ret a =>
      cases q with
      | ret b => exact ⟨h, hR⟩
      | call op k => exact h.elim
      | spin => trivial
  | call op k ih =>
      cases q with
      | ret b => exact h.elim
      | call op' k' => exact fun c d hρ hc hd => ih _ (h c d hρ hc hd) (hR c hc).2
      | spin => trivial
  | spin => trivial

/-- The loop rule: `I` relates the items done so far to both accumulators and states. -/
theorem rwp_foldlM {ι : Type u} {f : α → ι → Prog Op Res α} {g : β → ι → Prog Op Res β}
    {I : List ι → α → S → β → S → Prop} {xs : List ι} {a : α} {b : β} {s t : S}
    (h0 : I [] a s b t)
    (hstep : ∀ done x rest a s b t, xs = done ++ x :: rest → I done a s b t →
      rwp E ρ (f a x) (g b x) (I (done ++ [x])) s t) :
    rwp E ρ (xs.foldlM f a) (xs.foldlM g b) (I xs) s t := by
  suffices h : ∀ rest done a s b t, xs = done ++ rest → I done a s b t →
      rwp E ρ (rest.foldlM f a) (rest.foldlM g b) (I xs) s t from h xs [] a s b t rfl h0
  intro rest
  induction rest with
  | nil =>
      intro done a s b t hxs hI
      rw [List.append_nil] at hxs
      simpa [hxs] using hI
  | cons x rest ih =>
      intro done a s b t hxs hI
      rw [List.foldlM_cons, List.foldlM_cons]
      refine rwp_bind (rwp_mono (hstep done x rest a s b t hxs hI) fun a' s' b' t' hI' => ?_)
      exact ih (done ++ [x]) a' s' b' t' (by simp [hxs]) hI'

/-- One program on both sides whose calls keep the relation `R`: it returns the same. -/
theorem rwp_same {ok : Op → Prop} {p : Prog Op Res α} (hp : Only ok p) {R : S → S → Prop}
    (hop : ∀ c d op s t, ok op → ρ c d → R s t →
      (E.handle d op t).1 = (E.handle c op s).1 ∧ R (E.handle c op s).2 (E.handle d op t).2)
    {s t : S} (hR : R s t) : rwp E ρ p p (fun a s b t => b = a ∧ R s t) s t := by
  induction p generalizing s t with
  | ret a => exact ⟨rfl, hR⟩
  | call op k ih =>
      intro c d hρ _ _
      obtain ⟨hreply, hR'⟩ := hop c d op s t hp.1 hρ hR
      rw [hreply]
      exact ih _ (hp.2 _) hR'
  | spin => trivial

/-- Two executions along related streams end as `rwp` says. -/
theorem rwp_run [∀ c op s, Decidable (E.allow c op s)] {p : Prog Op Res α} {q : Prog Op Res β}
    {Q : α → S → β → S → Prop} {s t s' t' : S} {a : α} {b : β} {cs ds : Nat → C}
    (h : rwp E ρ p q Q s t) (hρ : ∀ n, ρ (cs n) (ds n))
    (hp : runAllowed E cs p s = some (a, s')) (hq : runAllowed E ds q t = some (b, t')) :
    Q a s' b t' := by
  induction p generalizing q s t cs ds with
  | ret x =>
      simp only [runAllowed, Option.some.injEq, Prod.mk.injEq] at hp
      obtain ⟨rfl, rfl⟩ := hp
      cases q with
      | ret y =>
          simp only [runAllowed, Option.some.injEq, Prod.mk.injEq] at hq
          obtain ⟨rfl, rfl⟩ := hq
          exact h
      | call op k => exact h.elim
      | spin => cases hq
  | call op k ih =>
      rw [runAllowed] at hp
      split at hp
      · next hc =>
          cases q with
          | ret y => exact h.elim
          | call op' k' =>
              rw [runAllowed] at hq
              split at hq
              · next hd => exact ih _ (h _ _ (hρ 0) hc hd) (fun n => hρ (n + 1)) hp hq
              · cases hq
          | spin => cases hq
      · cases hp
  | spin => cases hp

end Prog

end CacheFs.Effect
