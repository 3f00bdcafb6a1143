/-
  CacheFs.Effect.Project

  Programs that look alike in one part of the state.

  `view` is the part of the state that counts.  `p` projects to `q` when every
  execution of `p` is matched by one of `q` that returns the same value and leaves
  the same view, and that makes only calls `p` has made, in their order and with the
  same answers of the environment.  Calls of `p` that `q` does not make have to be
  silent, and those they share must depend on the view alone.
-/

import CacheFs.Effect.Trace

namespace CacheFs.Effect

universe u

/-- The call and the choice that answered it. -/
def Event.key {Op S C : Type u} (e : Event Op S C) : Op × C := (e.op, e.choice)

namespace Prog

variable {Op : Type u} {Res : Op → Type u} {S C V α β : Type u}

/-- Where the view is `x`, the executions of `p` are matched by executions of `q`. -/
def Projects (E : Env Op Res S C) (view : S → V) (x : V) (p q : Prog Op Res α) : Prop :=
  ∀ s tr r s', view s = x → Traced E p s tr r s' → ∀ t, view t = x →
    ∃ tr' t', Traced E q t tr' r t' ∧ view t' = view s' ∧
      (tr'.map Event.key).Sublist (tr.map Event.key)

/-- Where the view is `x`, the reply to the call and the view after it are decided by
    the view before it. -/
def Visible (E : Env Op Res S C) (view : S → V) (x : V) (op : Op) : Prop :=
  ∀ c s t, view s = x → view t = x → E.allow c op s →
    E.allow c op t ∧ (E.handle c op t).1 = (E.handle c op s).1 ∧
      view (E.handle c op t).2 = view (E.handle c op s).2

variable {E : Env Op Res S C} {view : S → V} {x : V}

theorem projects_refl_pure (a : α) : Projects E view x (pure a) (pure a) := by
  rintro s tr r s' hs ⟨rfl, rfl, rfl⟩ t ht
  exact ⟨[], t, ⟨rfl, rfl, rfl⟩, ht.trans hs.symm, .slnil⟩

theorem projects_call {op : Op} {k k' : Res op → Prog Op Res α} (hop : Visible E view x op)
    (hk : ∀ c s, view s = x → E.allow c op s →
      Projects E view (view (E.handle c op s).2) (k (E.handle c op s).1)
        (k' (E.handle c op s).1)) :
    Projects E view x (.call op k) (.call op k') := by
  rintro s tr r s' hs ⟨c, tr₁, hc, rfl, htr⟩ t ht
  obtain ⟨hallow, hreply, hview⟩ := hop c s t hs ht hc
  obtain ⟨tr', t', htr', hview', hsub⟩ := hk c s hs hc _ _ _ _ rfl htr _ hview
  refine ⟨⟨op, c, t⟩ :: tr', t', ⟨c, tr', hallow, rfl, ?_⟩, hview', hsub.cons_cons _⟩
  rwa [hreply]

theorem Projects.bind {p q : Prog Op Res α} {f g : α → Prog Op Res β} (hp : Projects E view x p q)
    (hf : ∀ s tr a s', view s = x → Traced E p s tr a s' →
      Projects E view (view s') (f a) (g a)) :
    Projects E view x (p >>= f) (q >>= g) := by
  intro s tr r s' hs htr t ht
  obtain ⟨tr₁, tr₂, a, s₁, rfl, h₁, h₂⟩ := traced_bind.mp htr
  obtain ⟨tr₁', t₁, h₁', hview₁, hsub₁⟩ := hp s tr₁ a s₁ hs h₁ t ht
  obtain ⟨tr₂', t₂, h₂', hview₂, hsub₂⟩ := hf s tr₁ a s₁ hs h₁ s₁ tr₂ r s' rfl h₂ t₁ hview₁
  refine ⟨tr₁' ++ tr₂', t₂, traced_bind.mpr ⟨tr₁', tr₂', a, t₁, rfl, h₁', h₂'⟩, hview₂, ?_⟩
  rw [List.map_append, List.map_append]
  exact hsub₁.append hsub₂

/-- Where the view is `x`, the program leaves it as it is. -/
def Silent (E : Env Op Res S C) (view : S → V) (x : V) (p : Prog Op Res α) : Prop :=
  ∀ s tr a s', view s = x → Traced E p s tr a s' → view s' = x

theorem silent_pure (a : α) : Silent E view x (pure a) := by
  rintro s tr r s' hs ⟨rfl, rfl, rfl⟩
  exact hs

theorem silent_call {op : Op} {k : Res op → Prog Op Res α}
    (hk : ∀ c s, view s = x → E.allow c op s →
      view (E.handle c op s).2 = x ∧ Silent E view x (k (E.handle c op s).1)) :
    Silent E view x (.call op k) := by
  rintro s tr r s' hs ⟨c, tr', hc, rfl, htr⟩
  obtain ⟨hview, hrest⟩ := hk c s hs hc
  exact hrest _ tr' r s' hview htr

theorem Silent.bind {p : Prog Op Res α} {f : α → Prog Op Res β} (hp : Silent E view x p)
    (hf : ∀ a, Silent E view x (f a)) : Silent E view x (p >>= f) := by
  intro s tr r s' hs htr
  obtain ⟨tr₁, tr₂, a, s₁, rfl, h₁, h₂⟩ := traced_bind.mp htr
  exact hf a s₁ tr₂ r s' (hp s tr₁ a s₁ hs h₁) h₂

/-- A program is silent when all its calls are. -/
theorem Only.silent {ok : Op → Prop} {p : Prog Op Res α} (hp : Only ok p)
    (hok : ∀ c op s, ok op → E.allow c op s → view s = x → view (E.handle c op s).2 = x) :
    Silent E view x p :=
  fun _ _ _ _ hs h => (Stopped.invariant hp hok hs h.stopped).1

/-- A silent part need not be matched. -/
theorem Silent.projects {p : Prog Op Res α} {f : α → Prog Op Res β} {q : Prog Op Res β}
    (hp : Silent E view x p) (hf : ∀ a, Projects E view x (f a) q) :
    Projects E view x (p >>= f) q := by
  intro s tr r s' hs htr t ht
  obtain ⟨tr₁, tr₂, a, s₁, rfl, h₁, h₂⟩ := traced_bind.mp htr
  obtain ⟨tr', t', h', hview, hsub⟩ := hf a s₁ tr₂ r s' (hp s tr₁ a s₁ hs h₁) h₂ t ht
  refine ⟨tr', t', h', hview, hsub.trans ?_⟩
  rw [List.map_append]
  exact List.sublist_append_right _ _

/-- Two loops over one list.  `I` is what the turns keep of the view. -/
theorem projects_foldlM {f g : α → β → Prog Op Res α} {I : V → Prop} {xs : List β} {a : α}
    (hx : I x)
    (hturn : ∀ y, I y → ∀ a b, Projects E view y (f a b) (g a b))
    (hkeep : ∀ s tr a b r s', I (view s) → Traced E (g a b) s tr r s' → I (view s')) :
    Projects E view x (xs.foldlM f a) (xs.foldlM g a) := by
  induction xs generalizing a x with
  | nil => exact projects_refl_pure a
  | cons b xs ih =>
      rw [List.foldlM_cons, List.foldlM_cons]
      refine (hturn x hx a b).bind fun s tr r s' hs htr => ih ?_
      -- the matching turn leaves the same view
      obtain ⟨tr', t', h', hview, -⟩ := hturn x hx a b s tr r s' hs htr s hs
      rw [← hview]
      exact hkeep s tr' a b r t' (hs ▸ hx) h'

end Prog

end CacheFs.Effect
