/-
  CacheFs.Effect.Prog

  Programs over a signature of external calls.

  A program is a tree: it returns a value, or issues one call and continues
  with the reply, or has used up the fuel of one of its loops and is still
  running (`spin`).  The tree says which calls a program makes and in which
  order, and nothing about what a call does; the environment that answers the
  calls is a parameter of everything in `CacheFs.Effect.Wp`.  One program text
  therefore serves a run in which all calls succeed, a run with failures, a run
  that is killed half way, and an interleaving of several programs.
-/

import Mathlib.Logic.Relation

namespace CacheFs.Effect

universe u

/-- A program that issues calls `Op`, each answered by a value of `Res op`. -/
inductive Prog (Op : Type u) (Res : Op → Type u) (α : Type u) : Type u
  /-- The program has returned. -/
  | ret (a : α)
  /-- The program issues `op` and goes on with the reply. -/
  | call (op : Op) (k : Res op → Prog Op Res α)
  /-- A loop of the program has used up its fuel: it is still running. -/
  | spin

namespace Prog

variable {Op : Type u} {Res : Op → Type u} {α β γ : Type u}

/-- Sequential composition. -/
def bind (p : Prog Op Res α) (f : α → Prog Op Res β) : Prog Op Res β :=
  match p with
  | .ret a => f a
  | .call op k => .call op fun r => (k r).bind f
  | .spin => .spin

instance : Monad (Prog Op Res) where
  pure := .ret
  bind := .bind

theorem pure_def (a : α) : (pure a : Prog Op Res α) = .ret a := rfl

theorem bind_def (p : Prog Op Res α) (f : α → Prog Op Res β) : p >>= f = p.bind f := rfl

theorem bind_ret (p : Prog Op Res α) : p.bind .ret = p := by
  induction p with
  | ret a => rfl
  | call op k ih => simp only [bind, ih]
  | spin => rfl

theorem bind_assoc (p : Prog Op Res α) (f : α → Prog Op Res β) (g : β → Prog Op Res γ) :
    (p.bind f).bind g = p.bind fun a => (f a).bind g := by
  induction p with
  | ret a => rfl
  | call op k ih => simp only [bind, ih]
  | spin => rfl

instance : LawfulMonad (Prog Op Res) :=
  LawfulMonad.mk' _ bind_ret (fun _ _ => rfl) bind_assoc

end Prog

end CacheFs.Effect
