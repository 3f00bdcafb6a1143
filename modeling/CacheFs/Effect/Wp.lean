/-
  CacheFs.Effect.Wp

  Executions of a program in an environment, and a weakest-precondition
  calculus for them.

  An environment answers each call by a function of the state and of a choice;
  `allow` says which choices it may make.  `Exec` is the relation between the
  state before and the value and state after a returned program, and `run` executes
  a program along one given stream of choices.

  `wp` speaks about both at once: its postcondition holds of every returned execution
  (`wp_exec`), `watch` holds right after every call of every execution, returned or
  not, and with `spins := False` the program returns under every allowed stream of
  choices (`wp_run`).
-/

import CacheFs.Effect.Prog

namespace CacheFs.Effect

universe u

/-- An environment for programs over the calls `Op`, with states `S` and
    choices `C`. -/
structure Env (Op : Type u) (Res : Op → Type u) (S C : Type u) where
  /-- The reply to a call, and the state after it. -/
  handle : C → (op : Op) → S → Res op × S
  /-- The choices the environment may make when `op` is issued. -/
  allow : C → Op → S → Prop
  /-- What is to hold in the state right after a call. -/
  watch : Op → S → Prop := fun _ _ => True
  /-- Whether a program may go on for ever. -/
  spins : Prop := False

namespace Prog

variable {Op : Type u} {Res : Op → Type u} {S C α β : Type u}
variable (E : Env Op Res S C)

-- ============================================================================
-- Executions
-- ============================================================================

/-- The program returns `r` in state `s'` when it is started in `s`. -/
def Exec : Prog Op Res α → S → α → S → Prop
  | .ret a, s, r, s' => r = a ∧ s' = s
  | .call op k, s, r, s' => ∃ c, E.allow c op s ∧
      Exec (k (E.handle c op s).1) (E.handle c op s).2 r s'
  | .spin, _, _, _ => False

/-- The execution along the choices `cs`; `none` while the program is running. -/
def run (cs : Nat → C) : Prog Op Res α → S → Option (α × S)
  | .ret a, s => some (a, s)
  | .call op k, s =>
      run (fun n => cs (n + 1)) (k (E.handle (cs 0) op s).1) (E.handle (cs 0) op s).2
  | .spin, _ => none

/-- The choices `cs` are allowed at every call the program makes. -/
def Along (cs : Nat → C) : Prog Op Res α → S → Prop
  | .ret _, _ => True
  | .call op k, s => E.allow (cs 0) op s ∧
      Along (fun n => cs (n + 1)) (k (E.handle (cs 0) op s).1) (E.handle (cs 0) op s).2
  | .spin, _ => True

/-- The execution along `cs`, given up at the first choice that is not allowed.  It
    is computed, so concrete executions are established by evaluation. -/
def runAllowed [∀ c op s, Decidable (E.allow c op s)] (cs : Nat → C) :
    Prog Op Res α → S → Option (α × S)
  | .ret a, s => some (a, s)
  | .call op k, s =>
      if E.allow (cs 0) op s then
        runAllowed (fun n => cs (n + 1)) (k (E.handle (cs 0) op s).1) (E.handle (cs 0) op s).2
      else none
  | .spin, _ => none

theorem exec_of_runAllowed [∀ c op s, Decidable (E.allow c op s)] {p : Prog Op Res α}
    {cs : Nat → C} {s s' : S} {r : α} (h : runAllowed E cs p s = some (r, s')) :
    Exec E p s r s' := by
  induction p generalizing cs s with
  | ret a =>
      simp only [runAllowed, Option.some.injEq, Prod.mk.injEq] at h
      exact ⟨h.1.symm, h.2.symm⟩
  | call op k ih =>
      rw [runAllowed] at h
      split at h
      · next ha => exact ⟨cs 0, ha, ih _ h⟩
      · exact nomatch h
  | spin => exact nomatch h

-- ============================================================================
-- Weakest preconditions
-- ============================================================================

/-- Every execution from `s` ends in `Q`, and `watch` holds after each call. -/
def wp : Prog Op Res α → (α → S → Prop) → S → Prop
  | .ret a, Q, s => Q a s
  | .call op k, Q, s => ∀ c, E.allow c op s →
      E.watch op (E.handle c op s).2 ∧
        wp (k (E.handle c op s).1) Q (E.handle c op s).2
  | .spin, _, _ => E.spins

variable {E}

@[simp] theorem wp_ret (a : α) (Q : α → S → Prop) (s : S) :
    wp E (.ret a) Q s ↔ Q a s := Iff.rfl

@[simp] theorem wp_pure (a : α) (Q : α → S → Prop) (s : S) :
    wp E (pure a : Prog Op Res α) Q s ↔ Q a s := Iff.rfl

@[simp] theorem wp_spin (Q : α → S → Prop) (s : S) :
    wp E (.spin : Prog Op Res α) Q s ↔ E.spins := Iff.rfl

theorem wp_call (op : Op) (k : Res op → Prog Op Res α) (Q : α → S → Prop) (s : S) :
    wp E (.call op k) Q s ↔ ∀ c, E.allow c op s →
      E.watch op (E.handle c op s).2 ∧
        wp E (k (E.handle c op s).1) Q (E.handle c op s).2 :=
  Iff.rfl

@[simp] theorem wp_bind (p : Prog Op Res α) (f : α → Prog Op Res β)
    (Q : β → S → Prop) (s : S) :
    wp E (p >>= f) Q s ↔ wp E p (fun a => wp E (f a) Q) s := by
  rw [bind_def]
  induction p generalizing s with
  | ret a => rfl
  | call op k ih => simp only [bind, wp, ih]
  | spin => rfl

@[simp] theorem wp_ite (c : Prop) [Decidable c] (p q : Prog Op Res α)
    (Q : α → S → Prop) (s : S) :
    wp E (if c then p else q) Q s ↔ if c then wp E p Q s else wp E q Q s := by
  split <;> rfl

/-- The rule of consequence. -/
theorem wp_mono {p : Prog Op Res α} {Q R : α → S → Prop} {s : S}
    (h : wp E p Q s) (hQR : ∀ a s', Q a s' → R a s') : wp E p R s := by
  induction p generalizing s with
  | ret a => exact hQR a s h
  | call op k ih => exact fun c hc => ⟨(h c hc).1, ih _ (h c hc).2⟩
  | spin => exact h

/-- Two postconditions hold together. -/
theorem wp_and {p : Prog Op Res α} {Q R : α → S → Prop} {s : S}
    (hQ : wp E p Q s) (hR : wp E p R s) : wp E p (fun a s' => Q a s' ∧ R a s') s := by
  induction p generalizing s with
  | ret a => exact ⟨hQ, hR⟩
  | call op k ih => exact fun c hc => ⟨(hQ c hc).1, ih _ (hQ c hc).2 (hR c hc).2⟩
  | spin => exact hQ

/-- The loop rule: `I` relates the items done so far to the accumulator and the
    state, and one turn of the body takes it one item further. -/
theorem wp_foldlM {I : List β → α → S → Prop} {f : α → β → Prog Op Res α}
    {xs : List β} {a : α} {s : S} (h0 : I [] a s)
    (hstep : ∀ done x rest a s, xs = done ++ x :: rest → I done a s →
      wp E (f a x) (fun a' => I (done ++ [x]) a') s) :
    wp E (xs.foldlM f a) (I xs) s := by
  suffices h : ∀ rest done a s, xs = done ++ rest → I done a s →
      wp E (rest.foldlM f a) (I xs) s from h xs [] a s rfl h0
  intro rest
  induction rest with
  | nil =>
      intro done a s hxs hI
      rw [List.append_nil] at hxs
      simpa [hxs] using hI
  | cons x rest ih =>
      intro done a s hxs hI
      rw [List.foldlM_cons, wp_bind]
      refine wp_mono (hstep done x rest a s hxs hI) fun a' s' hI' => ?_
      exact ih (done ++ [x]) a' s' (by simp [hxs]) hI'

-- ============================================================================
-- What a weakest precondition says about executions
-- ============================================================================

theorem wp_exec {p : Prog Op Res α} {Q : α → S → Prop} {s s' : S} {r : α}
    (h : wp E p Q s) (he : Exec E p s r s') : Q r s' := by
  induction p generalizing s with
  | ret a =>
      obtain ⟨rfl, rfl⟩ := he
      exact h
  | call op k ih =>
      obtain ⟨c, hc, he⟩ := he
      exact ih _ (h c hc).2 he
  | spin => exact he.elim

/-- Without `spins` the program returns along every allowed stream. -/
theorem wp_run {p : Prog Op Res α} {Q : α → S → Prop} {s : S} {cs : Nat → C}
    (hspin : ¬ E.spins) (h : wp E p Q s) (ha : Along E cs p s) :
    ∃ r s', run E cs p s = some (r, s') ∧ Q r s' := by
  induction p generalizing cs s with
  | ret a => exact ⟨a, s, rfl, h⟩
  | call op k ih => exact ih _ (h (cs 0) ha.1).2 ha.2
  | spin => exact absurd h hspin

/-- What a program returns along a stream is decided by the answers alone. -/
theorem run_congr (E₁ E₂ : Env Op Res S C) (hhandle : E₁.handle = E₂.handle) (cs : Nat → C)
    (p : Prog Op Res α) (s : S) : run E₁ cs p s = run E₂ cs p s := by
  induction p generalizing cs s with
  | ret a => rfl
  | call op k ih =>
      simp only [run, hhandle]
      exact ih _ _ _
  | spin => rfl

/-- An allowed stream along which the program returns is an execution. -/
theorem exec_of_run {p : Prog Op Res α} {cs : Nat → C} {s s' : S} {r : α} (ha : Along E cs p s)
    (hr : run E cs p s = some (r, s')) : Exec E p s r s' := by
  induction p generalizing cs s with
  | ret a =>
      simp only [run, Option.some.injEq, Prod.mk.injEq] at hr
      exact ⟨hr.1.symm, hr.2.symm⟩
  | call op k ih => exact ⟨cs 0, ha.1, ih _ ha.2 hr⟩
  | spin => exact nomatch hr

/-- Choices that are always allowed make an allowed stream. -/
theorem along_of_allow {cs : Nat → C} (hcs : ∀ n op s, E.allow (cs n) op s) (p : Prog Op Res α)
    (s : S) : Along E cs p s := by
  induction p generalizing cs s with
  | ret a => trivial
  | call op k ih => exact ⟨hcs 0 op s, ih _ (fun n => hcs (n + 1)) _⟩
  | spin => trivial

end Prog

end CacheFs.Effect
