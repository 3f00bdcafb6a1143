/-
  CacheFs.Effect.Simulate

  Programs over different calls that do the same.

  `p` simulates `q` along `R` when each execution of `p` is matched by an execution of `q`
  that returns the same value.  `R` relates the state of `p`, the state of `q` and the events
  of `q` so far: it can say that the states correspond, and also count on the side of `p`
  what the events of `q` account for.  The rules follow the text of the programs, so a call
  of `q` may stand for any number of calls of `p`.
-/

import CacheFs.Effect.Trace

namespace CacheFs.Effect

universe u

namespace Prog

variable {Op Op' : Type u} {Res : Op → Type u} {Res' : Op' → Type u} {S S' C C' α β : Type u}

/-- Each execution of `p` from related states is matched by one of `q`. -/
def Simulates (E : Env Op Res S C) (E' : Env Op' Res' S' C')
    (R : S → S' → List (Event Op' S' C') → Prop) (p : Prog Op Res α) (q : Prog Op' Res' α) : Prop :=
  ∀ s t tr, R s t tr → ∀ r s', Exec E p s r s' →
    ∃ tr' t', Traced E' q t tr' r t' ∧ R s' t' (tr ++ tr')

variable {E : Env Op Res S C} {E' : Env Op' Res' S' C'}
  {R : S → S' → List (Event Op' S' C') → Prop}

theorem simulates_pure (a : α) : Simulates E E' R (pure a) (pure a) := by
  rintro s t tr hR r s' ⟨rfl, rfl⟩
  exact ⟨[], t, ⟨rfl, rfl, rfl⟩, by rwa [List.append_nil]⟩

theorem Simulates.bind {p : Prog Op Res α} {q : Prog Op' Res' α} {f : α → Prog Op Res β}
    {g : α → Prog Op' Res' β} (hp : Simulates E E' R p q) (hf : ∀ a, Simulates E E' R (f a) (g a)) :
    Simulates E E' R (p >>= f) (q >>= g) := by
  intro s t tr hR r s' h
  obtain ⟨trp, htrp⟩ := exec_traced h
  obtain ⟨tr₁, tr₂, a, s₁, -, h₁, h₂⟩ := traced_bind.mp htrp
  obtain ⟨tr₁', t₁, hq, hR₁⟩ := hp s t tr hR a s₁ (traced_exec h₁)
  obtain ⟨tr₂', t', hg, hR'⟩ := hf a s₁ t₁ _ hR₁ r s' (traced_exec h₂)
  refine ⟨tr₁' ++ tr₂', t', traced_bind.mpr ⟨tr₁', tr₂', a, t₁, rfl, hq, hg⟩, ?_⟩
  rwa [← List.append_assoc]

theorem simulates_ite (c : Prop) [Decidable c] {p p' : Prog Op Res α} {q q' : Prog Op' Res' α}
    (h : Simulates E E' R p q) (h' : Simulates E E' R p' q') :
    Simulates E E' R (if c then p else p') (if c then q else q') := by
  split
  · exact h
  · exact h'

/-- Two loops over one list. -/
theorem simulates_foldlM {f : α → β → Prog Op Res α} {g : α → β → Prog Op' Res' α} {xs : List β}
    (h : ∀ a, ∀ x ∈ xs, Simulates E E' R (f a x) (g a x)) (a : α) :
    Simulates E E' R (xs.foldlM f a) (xs.foldlM g a) := by
  induction xs generalizing a with
  | nil => exact simulates_pure a
  | cons x xs ih =>
      rw [List.foldlM_cons, List.foldlM_cons]
      exact (h a x List.mem_cons_self).bind fun b =>
        ih (fun b y hy => h b y (List.mem_cons_of_mem x hy)) b

/-- One call on each side. -/
theorem simulates_call {op : Op} {op' : Op'} {k : Res op → Prog Op Res α}
    {k' : Res' op' → Prog Op' Res' α}
    (h : ∀ s t tr, R s t tr → ∀ c, E.allow c op s → ∃ c', E'.allow c' op' t ∧
      R (E.handle c op s).2 (E'.handle c' op' t).2 (tr ++ [⟨op', c', t⟩]) ∧
        Simulates E E' R (k (E.handle c op s).1) (k' (E'.handle c' op' t).1)) :
    Simulates E E' R (.call op k) (.call op' k') := by
  rintro s t tr hR r s' ⟨c, hc, hk⟩
  obtain ⟨c', hc', hR', hsim⟩ := h s t tr hR c hc
  obtain ⟨tr', t', htr', hR''⟩ := hsim _ _ _ hR' r s' hk
  refine ⟨⟨op', c', t⟩ :: tr', t', ⟨c', tr', hc', rfl, htr'⟩, ?_⟩
  rwa [List.append_assoc] at hR''

end Prog

end CacheFs.Effect
