/-
  CacheFs.Effect.Ghost

  Executions with a ghost state beside the state.

  Where an execution has been cut short may matter to what it leaves behind: the
  state alone does not tell which of two writes that belong together has been made.
  A ghost state can: it starts at some value and `upd` advances it at each call.
  `Env.ghost` is the environment with the ghost beside the state, and an invariant of
  the pairs that is to hold after each call.  `stopped_ghost` gives the invariant at
  every point at which an execution can be stopped; `wp_ghost_silent` uses a rule
  about the program without a ghost for calls that do not advance it.
-/

import CacheFs.Effect.Trace

namespace CacheFs.Effect

universe u

variable {Op : Type u} {Res : Op → Type u} {S C G α β : Type u}

/-- The environment `E` with a ghost state; `inv` is to hold after each call. -/
def Env.ghost (E : Env Op Res S C) (upd : G → Event Op S C → G) (inv : S → G → Prop) :
    Env Op Res (S × G) C where
  handle c op x := ((E.handle c op x.1).1, (E.handle c op x.1).2, upd x.2 ⟨op, c, x.1⟩)
  allow c op x := E.allow c op x.1
  watch _ x := inv x.1 x.2
  spins := E.spins

namespace Prog

variable {E : Env Op Res S C} {upd : G → Event Op S C → G} {inv : S → G → Prop}

/-- What is watched holds wherever an execution is stopped. -/
theorem stopped_ghost {p : Prog Op Res α} {Q : α → S × G → Prop} {s s' : S} {g : G}
    {tr : List (Event Op S C)} (hs : inv s g) (hwp : wp (E.ghost upd inv) p Q (s, g))
    (h : Stopped E p s tr s') : inv s' (tr.foldl upd g) := by
  induction p generalizing s g tr with
  | ret a =>
      obtain ⟨rfl, rfl⟩ := h
      exact hs
  | call op k ih =>
      rcases h with ⟨rfl, rfl⟩ | ⟨c, tr', hc, rfl, h⟩
      · exact hs
      · obtain ⟨hinv, hk⟩ := hwp c hc
        exact ih (E.handle c op s).1 (s := (E.handle c op s).2) (g := upd g ⟨op, c, s⟩) hinv hk h
  | spin =>
      obtain ⟨rfl, rfl⟩ := h
      exact hs

/-- Calls that leave the ghost alone and keep the invariant: what is known about the
    program without a ghost is enough. -/
theorem wp_ghost_silent {ok : Op → Prop} {p : Prog Op Res α} {Q : α → S × G → Prop} {s : S}
    {g : G} (hp : Only ok p) (hs : inv s g)
    (hstep : ∀ c op s, ok op → E.allow c op s → inv s g →
      upd g ⟨op, c, s⟩ = g ∧ inv (E.handle c op s).2 g)
    (hwp : wp E p (fun a s' => inv s' g → Q a (s', g)) s) : wp (E.ghost upd inv) p Q (s, g) := by
  induction p generalizing s with
  | ret a => exact hwp hs
  | call op k ih =>
      intro c hc
      obtain ⟨hupd, hinv⟩ := hstep c op s hp.1 hc hs
      change inv (E.handle c op s).2 (upd g ⟨op, c, s⟩) ∧ wp (E.ghost upd inv)
        (k (E.handle c op s).1) Q ((E.handle c op s).2, upd g ⟨op, c, s⟩)
      rw [hupd]
      exact ⟨hinv, ih _ (hp.2 _) hinv (hwp c hc).2⟩
  | spin => exact hwp

/-- The execution along the choices `cs`, stopped after `n` calls. -/
def stopAfter (E : Env Op Res S C) [∀ c op s, Decidable (E.allow c op s)] (cs : Nat → C) :
    Nat → Prog Op Res α → S → Option (List (Event Op S C) × S)
  | 0, _, s => some ([], s)
  | n + 1, .call op k, s =>
      if E.allow (cs 0) op s then
        (stopAfter E (fun i => cs (i + 1)) n (k (E.handle (cs 0) op s).1)
          (E.handle (cs 0) op s).2).map fun x => (⟨op, cs 0, s⟩ :: x.1, x.2)
      else none
  | _ + 1, .ret _, _ => none
  | _ + 1, .spin, _ => none

theorem stopped_of_stopAfter [∀ c op s, Decidable (E.allow c op s)] {p : Prog Op Res α}
    {cs : Nat → C} {n : Nat} {s s' : S} {tr : List (Event Op S C)}
    (h : stopAfter E cs n p s = some (tr, s')) : Stopped E p s tr s' := by
  induction n generalizing p cs s tr with
  | zero =>
      obtain ⟨rfl, rfl⟩ := Prod.mk.inj (Option.some.inj h)
      exact stopped_nil p s
  | succ n ih =>
      cases p with
      | ret a => exact nomatch h
      | spin => exact nomatch h
      | call op k =>
          rw [stopAfter] at h
          split at h
          · next ha =>
              obtain ⟨⟨tr', x⟩, hx, heq⟩ := Option.map_eq_some_iff.mp h
              obtain ⟨rfl, rfl⟩ := Prod.mk.inj heq
              exact Or.inr ⟨cs 0, tr', ha, rfl, ih hx⟩
          · exact nomatch h

end Prog

end CacheFs.Effect
