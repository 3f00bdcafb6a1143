/-
  CacheFs.Effect.Trace

  Executions together with the calls they make.

  `Traced` is `Exec` with the events of the execution: for each call the choice
  that answered it and the state in which it was issued.  A statement about which
  calls failed, or about what a program read and from where, is a statement about
  events.  `Stopped` is the same for an execution that has been cut short after any
  of its calls.  `Only` bounds the calls of a program from its text; what such
  calls keep is an invariant of the program (`Stopped.invariant`).
-/

import CacheFs.Effect.Wp

namespace CacheFs.Effect

universe u

/-- A call that has been answered. -/
structure Event (Op : Type u) (S C : Type u) where
  op : Op
  choice : C
  /-- The state in which the call was issued. -/
  before : S

namespace Prog

variable {Op : Type u} {Res : Op → Type u} {S C α β : Type u}
variable (E : Env Op Res S C)

/-- The program returns `r` in state `s'` after the events `tr`. -/
def Traced : Prog Op Res α → S → List (Event Op S C) → α → S → Prop
  | .ret a, s, tr, r, s' => tr = [] ∧ r = a ∧ s' = s
  | .call op k, s, tr, r, s' => ∃ c tr', E.allow c op s ∧ tr = ⟨op, c, s⟩ :: tr' ∧
      Traced (k (E.handle c op s).1) (E.handle c op s).2 tr' r s'
  | .spin, _, _, _, _ => False

variable {E}

@[simp] theorem traced_pure {a r : α} {s s' : S} {tr : List (Event Op S C)} :
    Traced E (pure a : Prog Op Res α) s tr r s' ↔ tr = [] ∧ r = a ∧ s' = s := Iff.rfl

/-- The events of two programs one after the other. -/
theorem traced_bind {p : Prog Op Res α} {f : α → Prog Op Res β} {s s' : S} {r : β}
    {tr : List (Event Op S C)} :
    Traced E (p >>= f) s tr r s' ↔ ∃ tr₁ tr₂ a s₁, tr = tr₁ ++ tr₂ ∧ Traced E p s tr₁ a s₁ ∧
      Traced E (f a) s₁ tr₂ r s' := by
  rw [bind_def]
  induction p generalizing s tr with
  | ret a =>
      constructor
      · exact fun h => ⟨[], tr, a, s, rfl, ⟨rfl, rfl, rfl⟩, h⟩
      · rintro ⟨tr₁, tr₂, b, s₁, rfl, ⟨rfl, rfl, rfl⟩, h⟩
        exact h
  | call op k ih =>
      constructor
      · rintro ⟨c, tr', hc, rfl, h⟩
        obtain ⟨tr₁, tr₂, a, s₁, rfl, h₁, h₂⟩ := (ih _).mp h
        exact ⟨⟨op, c, s⟩ :: tr₁, tr₂, a, s₁, rfl, ⟨c, tr₁, hc, rfl, h₁⟩, h₂⟩
      · rintro ⟨tr₁, tr₂, a, s₁, rfl, ⟨c, tr', hc, rfl, h₁⟩, h₂⟩
        exact ⟨c, tr' ++ tr₂, hc, rfl, (ih _).mpr ⟨tr', tr₂, a, s₁, rfl, h₁, h₂⟩⟩
  | spin =>
      constructor
      · exact fun h => h.elim
      · rintro ⟨tr₁, tr₂, a, s₁, -, h, -⟩
        exact h

theorem traced_exec {p : Prog Op Res α} {s s' : S} {r : α} {tr : List (Event Op S C)}
    (h : Traced E p s tr r s') : Exec E p s r s' := by
  induction p generalizing s tr with
  | ret a => exact h.2
  | call op k ih =>
      obtain ⟨c, tr', hc, -, h⟩ := h
      exact ⟨c, hc, ih _ h⟩
  | spin => exact h

theorem exec_traced {p : Prog Op Res α} {s s' : S} {r : α} (h : Exec E p s r s') :
    ∃ tr, Traced E p s tr r s' := by
  induction p generalizing s with
  | ret a => exact ⟨[], rfl, h⟩
  | call op k ih =>
      obtain ⟨c, hc, h⟩ := h
      obtain ⟨tr, htr⟩ := ih _ h
      exact ⟨_, c, tr, hc, rfl, htr⟩
  | spin => exact h.elim

/-- `runAllowed` with the events of the execution. -/
def runTraced (E : Env Op Res S C) [∀ c op s, Decidable (E.allow c op s)] (cs : Nat → C) :
    Prog Op Res α → S → Option (List (Event Op S C) × α × S)
  | .ret a, s => some ([], a, s)
  | .call op k, s =>
      if E.allow (cs 0) op s then
        (runTraced E (fun n => cs (n + 1)) (k (E.handle (cs 0) op s).1)
          (E.handle (cs 0) op s).2).map fun x => (⟨op, cs 0, s⟩ :: x.1, x.2)
      else none
  | .spin, _ => none

theorem traced_of_runTraced [∀ c op s, Decidable (E.allow c op s)] {p : Prog Op Res α}
    {cs : Nat → C} {s s' : S} {r : α} {tr : List (Event Op S C)}
    (h : runTraced E cs p s = some (tr, r, s')) : Traced E p s tr r s' := by
  induction p generalizing cs s tr with
  | ret a =>
      simp only [runTraced, Option.some.injEq, Prod.mk.injEq] at h
      exact ⟨h.1.symm, h.2.1.symm, h.2.2.symm⟩
  | call op k ih =>
      rw [runTraced] at h
      split at h
      · next ha =>
          obtain ⟨⟨tr', x⟩, hx, heq⟩ := Option.map_eq_some_iff.mp h
          obtain ⟨rfl, rfl⟩ := Prod.mk.inj heq
          exact ⟨cs 0, tr', ha, rfl, ih _ hx⟩
      · exact nomatch h
  | spin => exact nomatch h

/-- An execution whose events another environment allows is one of that
    environment. -/
theorem Traced.allow (E' : Env Op Res S C) (hhandle : E'.handle = E.handle) {p : Prog Op Res α}
    {s s' : S} {r : α} {tr : List (Event Op S C)} (h : Traced E p s tr r s')
    (hallow : ∀ e ∈ tr, E'.allow e.choice e.op e.before) : Traced E' p s tr r s' := by
  induction p generalizing s tr with
  | ret a => exact h
  | call op k ih =>
      obtain ⟨c, tr', -, rfl, h⟩ := h
      refine ⟨c, tr', hallow _ List.mem_cons_self, rfl, ?_⟩
      rw [hhandle]
      exact ih _ h fun e he => hallow e (List.mem_cons_of_mem _ he)
  | spin => exact h

/-- The environment has allowed every call. -/
theorem Traced.allowed {p : Prog Op Res α} {s s' : S} {r : α} {tr : List (Event Op S C)}
    (h : Traced E p s tr r s') : ∀ e ∈ tr, E.allow e.choice e.op e.before := by
  induction p generalizing s tr with
  | ret a =>
      obtain ⟨rfl, -⟩ := h
      exact fun e he => absurd he List.not_mem_nil
  | call op k ih =>
      obtain ⟨c, tr', hc, rfl, h⟩ := h
      intro e he
      rcases List.mem_cons.mp he with rfl | he
      · exact hc
      · exact ih _ h e he
  | spin => exact h.elim

/-- A weakest precondition speaks about every event. -/
theorem wp_traced {p : Prog Op Res α} {Q : α → S → Prop} {s s' : S} {r : α}
    {tr : List (Event Op S C)} (h : wp E p Q s) (ht : Traced E p s tr r s') :
    Q r s' ∧ ∀ e ∈ tr, E.watch e.op (E.handle e.choice e.op e.before).2 := by
  induction p generalizing s tr with
  | ret a =>
      obtain ⟨rfl, rfl, rfl⟩ := ht
      exact ⟨h, fun e he => absurd he List.not_mem_nil⟩
  | call op k ih =>
      obtain ⟨c, tr', hc, rfl, ht⟩ := ht
      obtain ⟨hQ, hw⟩ := ih _ (h c hc).2 ht
      refine ⟨hQ, fun e he => ?_⟩
      rcases List.mem_cons.mp he with rfl | he
      · exact (h c hc).1
      · exact hw e he
  | spin => exact ht.elim

-- ============================================================================
-- Executions that are cut short
-- ============================================================================

/-- The program has made the calls `tr` and is in `s'`; it may have returned. -/
def Stopped (E : Env Op Res S C) : Prog Op Res α → S → List (Event Op S C) → S → Prop
  | .ret _, s, tr, s' => tr = [] ∧ s' = s
  | .call op k, s, tr, s' => (tr = [] ∧ s' = s) ∨ ∃ c tr', E.allow c op s ∧
      tr = ⟨op, c, s⟩ :: tr' ∧ Stopped E (k (E.handle c op s).1) (E.handle c op s).2 tr' s'
  | .spin, s, tr, s' => tr = [] ∧ s' = s

theorem stopped_nil (p : Prog Op Res α) (s : S) : Stopped E p s [] s := by
  cases p with
  | ret a => exact ⟨rfl, rfl⟩
  | call op k => exact Or.inl ⟨rfl, rfl⟩
  | spin => exact ⟨rfl, rfl⟩

-- ============================================================================
-- What all calls of a program have in common
-- ============================================================================

/-- Whatever the replies, the program makes calls from `ok` only. -/
def Only (ok : Op → Prop) : Prog Op Res α → Prop
  | .ret _ => True
  | .call op k => ok op ∧ ∀ r, Only ok (k r)
  | .spin => True

variable {ok : Op → Prop}

@[simp] theorem only_pure (a : α) : Only ok (pure a : Prog Op Res α) := trivial

theorem only_true (p : Prog Op Res α) : Only (fun _ => True) p := by
  induction p with
  | ret a => trivial
  | call op k ih => exact ⟨trivial, ih⟩
  | spin => trivial

theorem only_bind {p : Prog Op Res α} {f : α → Prog Op Res β} (hp : Only ok p)
    (hf : ∀ a, Only ok (f a)) : Only ok (p >>= f) := by
  rw [bind_def]
  induction p with
  | ret a => exact hf a
  | call op k ih => exact ⟨hp.1, fun r => ih r (hp.2 r)⟩
  | spin => trivial

theorem only_ite (c : Prop) [Decidable c] {p q : Prog Op Res α} (hp : Only ok p)
    (hq : Only ok q) : Only ok (if c then p else q) := by
  split
  · exact hp
  · exact hq

theorem only_foldlM {f : α → β → Prog Op Res α} {xs : List β} (hf : ∀ a, ∀ x ∈ xs, Only ok (f a x))
    (a : α) : Only ok (xs.foldlM f a) := by
  induction xs generalizing a with
  | nil => exact only_pure a
  | cons x xs ih =>
      rw [List.foldlM_cons]
      exact only_bind (hf a x List.mem_cons_self)
        (ih fun b y hy => hf b y (List.mem_cons_of_mem x hy))

theorem only_mono {ok' : Op → Prop} (h : ∀ op, ok op → ok' op) {p : Prog Op Res α}
    (hp : Only ok p) : Only ok' p := by
  induction p with
  | ret a => trivial
  | call op k ih => exact ⟨h op hp.1, fun r => ih r (hp.2 r)⟩
  | spin => trivial

/-- What every such call keeps holds at the end. -/
theorem wp_of_only {p : Prog Op Res α} {I : S → Prop} (hp : Only ok p) (hspin : E.spins)
    (hstep : ∀ c op s, ok op → E.allow c op s → I s →
      E.watch op (E.handle c op s).2 ∧ I (E.handle c op s).2) {s : S} (hs : I s) :
    wp E p (fun _ s' => I s') s := by
  induction p generalizing s with
  | ret a => exact hs
  | call op k ih =>
      intro c hc
      obtain ⟨hw, hI⟩ := hstep c op s hp.1 hc hs
      exact ⟨hw, ih _ (hp.2 _) hI⟩
  | spin => exact hspin

/-- What every such call keeps holds wherever the program is stopped. -/
theorem Stopped.invariant {p : Prog Op Res α} {I : S → Prop} (hp : Only ok p)
    (hstep : ∀ c op s, ok op → E.allow c op s → I s → I (E.handle c op s).2) {s s' : S}
    {tr : List (Event Op S C)} (hs : I s) (h : Stopped E p s tr s') :
    I s' ∧ ∀ e ∈ tr, ok e.op ∧ I e.before := by
  induction p generalizing s tr with
  | ret a =>
      obtain ⟨rfl, rfl⟩ := h
      exact ⟨hs, fun e he => absurd he List.not_mem_nil⟩
  | call op k ih =>
      rcases h with ⟨rfl, rfl⟩ | ⟨c, tr', hc, rfl, h⟩
      · exact ⟨hs, fun e he => absurd he List.not_mem_nil⟩
      · obtain ⟨hs', htr⟩ := ih _ (hp.2 _) (hstep c op s hp.1 hc hs) h
        refine ⟨hs', fun e he => ?_⟩
        rcases List.mem_cons.mp he with rfl | he
        · exact ⟨hp.1, hs⟩
        · exact htr e he
  | spin =>
      obtain ⟨rfl, rfl⟩ := h
      exact ⟨hs, fun e he => absurd he List.not_mem_nil⟩

/-- A program that has returned is one that has been stopped at its end. -/
theorem Traced.stopped {p : Prog Op Res α} {s s' : S} {r : α} {tr : List (Event Op S C)}
    (h : Traced E p s tr r s') : Stopped E p s tr s' := by
  induction p generalizing s tr with
  | ret a => exact ⟨h.1, h.2.2⟩
  | call op k ih =>
      obtain ⟨c, tr', hc, rfl, h⟩ := h
      exact Or.inr ⟨c, tr', hc, rfl, ih _ h⟩
  | spin => exact h.elim

theorem Traced.invariant {p : Prog Op Res α} {I : S → Prop} (hp : Only ok p)
    (hstep : ∀ c op s, ok op → E.allow c op s → I s → I (E.handle c op s).2) {s s' : S} {r : α}
    {tr : List (Event Op S C)} (hs : I s) (h : Traced E p s tr r s') :
    I s' ∧ ∀ e ∈ tr, ok e.op ∧ I e.before :=
  Stopped.invariant hp hstep hs h.stopped

/-- What every call keeps, told with the calls before it: it holds before each call, and at
    the end. -/
theorem Traced.history {p : Prog Op Res α} {I : List (Event Op S C) → S → Prop} (hp : Only ok p)
    {s s' : S} {r : α} {tr t : List (Event Op S C)} (h : Traced E p s tr r s')
    (hstep : ∀ t, ∀ e ∈ tr, ok e.op → E.allow e.choice e.op e.before → I t e.before →
      I (t ++ [e]) (E.handle e.choice e.op e.before).2) (hs : I t s) :
    I (t ++ tr) s' ∧ ∀ tr₁ e tr₂, tr = tr₁ ++ e :: tr₂ → I (t ++ tr₁) e.before := by
  induction p generalizing s tr t with
  | ret a =>
      obtain ⟨rfl, -, rfl⟩ := h
      exact ⟨by rwa [List.append_nil], fun tr₁ e tr₂ heq => absurd heq (by simp)⟩
  | call op k ih =>
      obtain ⟨c, tr', hc, rfl, h⟩ := h
      obtain ⟨hend, hall⟩ := ih _ (hp.2 _) h
        (fun t e he => hstep t e (List.mem_cons_of_mem _ he))
        (hstep t ⟨op, c, s⟩ List.mem_cons_self hp.1 hc hs)
      rw [List.append_assoc] at hend
      refine ⟨hend, fun tr₁ e tr₂ heq => ?_⟩
      cases tr₁ with
      | nil =>
          obtain ⟨rfl, -⟩ := List.cons.inj heq
          rwa [List.append_nil]
      | cons e₁ tr₁ =>
          obtain ⟨rfl, htail⟩ := List.cons.inj heq
          have hbefore := hall tr₁ e tr₂ htail
          rwa [List.append_assoc] at hbefore
  | spin => exact h.elim

theorem Traced.only {p : Prog Op Res α} (hp : Only ok p) {s s' : S} {r : α}
    {tr : List (Event Op S C)} (h : Traced E p s tr r s') : ∀ e ∈ tr, ok e.op :=
  fun e he => ((h.invariant (I := fun _ => True) hp (fun _ _ _ _ _ _ => trivial) trivial).2 e he).1

/-- The loop rule for executions: `I` relates the items done so far to the accumulator,
    the state and the events. -/
theorem Traced.foldlM_invariant {f : α → β → Prog Op Res α} {xs : List β}
    {I : List β → α → S → List (Event Op S C) → Prop} {a : α} {s : S} (h0 : I [] a s [])
    (hstep : ∀ done x rest acc s₁ tr₁ acc' s₂ tr₂, xs = done ++ x :: rest → I done acc s₁ tr₁ →
      Traced E (f acc x) s₁ tr₂ acc' s₂ → I (done ++ [x]) acc' s₂ (tr₁ ++ tr₂)) {r : α} {s' : S}
    {tr : List (Event Op S C)} (h : Traced E (xs.foldlM f a) s tr r s') : I xs r s' tr := by
  suffices hloop : ∀ rest done acc s₁ tr₁ tr₂, xs = done ++ rest → I done acc s₁ tr₁ →
      Traced E (rest.foldlM f acc) s₁ tr₂ r s' → I xs r s' (tr₁ ++ tr₂) from
    hloop xs [] a s [] tr rfl h0 h
  intro rest
  induction rest with
  | nil =>
      rintro done acc s₁ tr₁ tr₂ hxs hI ⟨rfl, rfl, rfl⟩
      rw [List.append_nil] at hxs ⊢
      rwa [hxs]
  | cons x rest ih =>
      intro done acc s₁ tr₁ tr₂ hxs hI h
      rw [List.foldlM_cons] at h
      obtain ⟨tr₃, tr₄, acc', s₂, rfl, h₁, h₂⟩ := traced_bind.mp h
      rw [← List.append_assoc]
      exact ih (done ++ [x]) acc' s₂ (tr₁ ++ tr₃) tr₄ (by simp [hxs])
        (hstep done x rest acc s₁ tr₁ acc' s₂ tr₃ hxs hI h₁) h₂

/-- A loop has an event of the kind `T` when the turn of one of its items has; `I` is
    what the turns keep. -/
theorem Traced.event_foldlM {f : α → β → Prog Op Res α} {xs : List β} {T : Event Op S C → Prop}
    {D : β → Prop} {I : S → Prop}
    (hturn : ∀ x ∈ xs, ∀ a s tr a' s', I s → Traced E (f a x) s tr a' s' →
      I s' ∧ ((∃ e ∈ tr, T e) ↔ D x)) {a r : α} {s s' : S} {tr : List (Event Op S C)} (hs : I s)
    (h : Traced E (xs.foldlM f a) s tr r s') : I s' ∧ ((∃ e ∈ tr, T e) ↔ ∃ x ∈ xs, D x) := by
  induction xs generalizing a s tr with
  | nil =>
      obtain ⟨rfl, -, rfl⟩ := h
      exact ⟨hs, by simp⟩
  | cons x xs ih =>
      rw [List.foldlM_cons] at h
      obtain ⟨tr₁, tr₂, a₁, s₁, rfl, h₁, h₂⟩ := traced_bind.mp h
      obtain ⟨hs₁, hx⟩ := hturn x List.mem_cons_self a s tr₁ a₁ s₁ hs h₁
      obtain ⟨hs', hxs⟩ := ih (fun y hy => hturn y (List.mem_cons_of_mem x hy)) hs₁ h₂
      refine ⟨hs', ?_⟩
      simp only [List.mem_append, or_and_right, exists_or, List.mem_cons, exists_eq_left, hx, hxs]

/-- Whether a program returns does not depend on `watch` and `spins`. -/
theorem exec_mono (E' : Env Op Res S C) (hhandle : E'.handle = E.handle)
    (hallow : ∀ c op s, E.allow c op s → E'.allow c op s) {p : Prog Op Res α} {s s' : S} {r : α}
    (h : Exec E p s r s') : Exec E' p s r s' := by
  induction p generalizing s with
  | ret a => exact h
  | call op k ih =>
      obtain ⟨c, hc, h⟩ := h
      refine ⟨c, hallow _ _ _ hc, ?_⟩
      rw [hhandle]
      exact ih _ h
  | spin => exact h

end Prog

end CacheFs.Effect
