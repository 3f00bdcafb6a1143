/-
  CacheFs.Effect.Interleave

  Several programs at once over one state.

  A `Pool` is a list of threads and the state they share.  A step lets one thread make
  one call, which is indivisible; the other threads stay where they are.  With each thread
  goes what is remembered of its calls (`past`), advanced by `next`: a history
  variable, on which neither the programs nor the answers depend, but which
  `may`, the calls a run is restricted to, can mention.

  The rule for invariants separates the programs from the state.  What a thread does
  with whatever replies it gets is a `wp` of that thread alone (`Env.alone`), in
  which the past is the state; what one call does to an invariant of all the pasts and the
  shared state is a fact about that call (`Kept`).  `Steps.invariant` puts them together.
  Where a thread needs to know more of the state than that it satisfies an invariant, because
  of what it has done itself, `Env.amid` and `Upheld` take their places.
-/

import CacheFs.Effect.Wp

namespace CacheFs.Effect

universe u

/-- What the program has returned. -/
def Prog.value? {Op : Type u} {Res : Op → Type u} {α : Type u} : Prog Op Res α → Option α
  | .ret a => some a
  | .call _ _ => none
  | .spin => none

theorem Prog.eq_ret_of_value? {Op : Type u} {Res : Op → Type u} {α : Type u} {p : Prog Op Res α}
    {a : α} (h : p.value? = some a) : p = .ret a := by
  cases p with
  | ret b => exact congrArg Prog.ret (Option.some.inj h)
  | call op k => exact absurd h (by simp [Prog.value?])
  | spin => exact absurd h (by simp [Prog.value?])

/-- A program that is under way, and what is remembered of its calls. -/
structure Thread (Op : Type u) (Res : Op → Type u) (G α : Type u) where
  prog : Prog Op Res α
  past : G

/-- Threads over one state. -/
structure Pool (Op : Type u) (Res : Op → Type u) (G S α : Type u) where
  threads : List (Thread Op Res G α)
  state : S

namespace Pool

variable {Op : Type u} {Res : Op → Type u} {G S C α : Type u}

def pasts (p : Pool Op Res G S α) : List G := p.threads.map (·.past)

/-- Every thread has returned. -/
def Finished (p : Pool Op Res G S α) : Prop := ∀ t ∈ p.threads, t.prog.value?.isSome

instance (p : Pool Op Res G S α) : Decidable p.Finished :=
  inferInstanceAs (Decidable (∀ t ∈ p.threads, t.prog.value?.isSome))

/-- The programs, none of which has made a call yet. -/
def start (g : G) (progs : List (Prog Op Res α)) (s : S) : Pool Op Res G S α :=
  ⟨progs.map fun prog => ⟨prog, g⟩, s⟩

variable (E : Env Op Res S C) (next : G → (op : Op) → Res op → G)
variable (may : List G → G → Op → S → Prop)

/-- One thread makes one call.  `may` sees the pasts of the others and its own. -/
inductive Step : Pool Op Res G S α → Pool Op Res G S α → Prop
  | call {pre post : List (Thread Op Res G α)} {op : Op} {k : Res op → Prog Op Res α} {g : G}
      {s : S} {c : C} (ha : E.allow c op s)
      (hmay : may (pre.map (·.past) ++ post.map (·.past)) g op s) :
      Step ⟨pre ++ ⟨.call op k, g⟩ :: post, s⟩
        ⟨pre ++ ⟨k (E.handle c op s).1, next g op (E.handle c op s).1⟩ :: post,
          (E.handle c op s).2⟩

/-- Any number of steps, of any threads in any order. -/
abbrev Steps : Pool Op Res G S α → Pool Op Res G S α → Prop :=
  Relation.ReflTransGen (Step E next may)

end Pool

/-- No restriction on the calls. -/
def Pool.anyCall {Op G S : Type u} (_ : List G) (_ : G) (_ : Op) (_ : S) : Prop := True

instance {Op G S : Type u} (gs : List G) (g : G) (op : Op) (s : S) :
    Decidable (Pool.anyCall gs g op s) := inferInstanceAs (Decidable True)

-- ============================================================================
-- Invariants
-- ============================================================================

section Invariant

variable {Op : Type u} {Res : Op → Type u} {G S C α : Type u}

/-- One thread alone.  The state is its past; each reply is one the environment gives
    in some state that satisfies `inv`, since the other threads may have
    changed the shared state in between.  The past is `ok` after each call. -/
def Env.alone (E : Env Op Res S C) (next : G → (op : Op) → Res op → G) (inv : S → Prop)
    (ok : G → Prop) : Env Op Res G (C × S) where
  handle d op g := ((E.handle d.1 op d.2).1, next g op (E.handle d.1 op d.2).1)
  allow d op _ := inv d.2 ∧ E.allow d.1 op d.2
  watch _ g := ok g

/-- `I`, of the pasts in any order and the shared state, is kept by every call that leaves
    the past of its thread `ok`. -/
structure Kept (E : Env Op Res S C) (next : G → (op : Op) → Res op → G)
    (may : List G → G → Op → S → Prop) (inv : S → Prop) (ok : G → Prop)
    (I : List G → S → Prop) : Prop where
  state : ∀ gs s, I gs s → inv s
  perm : ∀ gs gs' s, gs.Perm gs' → I gs s → I gs' s
  call : ∀ g gs op c s, I (g :: gs) s → E.allow c op s → may gs g op s →
    ok (next g op (E.handle c op s).1) → I (next g op (E.handle c op s).1 :: gs) (E.handle c op s).2

namespace Pool

variable {E : Env Op Res S C} {next : G → (op : Op) → Res op → G}
variable {may : List G → G → Op → S → Prop} {inv : S → Prop} {ok : G → Prop}
variable {I : List G → S → Prop} {Q : α → G → Prop} {p p' : Pool Op Res G S α}

/-- A step keeps the invariant and what is known of each thread alone. -/
theorem Step.invariant (hk : Kept E next may inv ok I) (h : Step E next may p p')
    (hI : I p.pasts p.state)
    (hwp : ∀ t ∈ p.threads, Prog.wp (E.alone next inv ok) t.prog Q t.past) :
    I p'.pasts p'.state ∧ ∀ t ∈ p'.threads, Prog.wp (E.alone next inv ok) t.prog Q t.past := by
  cases h with
  | @call pre post op k g s c ha hmay =>
      simp only [pasts, List.map_append, List.map_cons] at hI ⊢
      -- the thread that runs gets its reply in the current state
      have hself := hwp ⟨.call op k, g⟩ (List.mem_append_right _ List.mem_cons_self)
      obtain ⟨hok, hrest⟩ := hself (c, s) ⟨hk.state _ _ hI, ha⟩
      have hnext := hk.call g _ op c s (hk.perm _ _ s List.perm_middle hI) ha hmay hok
      refine ⟨hk.perm _ _ _ List.perm_middle.symm hnext, fun t ht => ?_⟩
      rcases List.mem_append.mp ht with ht | ht
      · exact hwp t (List.mem_append_left _ ht)
      · rcases List.mem_cons.mp ht with rfl | ht
        · exact hrest
        · exact hwp t (List.mem_append_right _ (List.mem_cons_of_mem _ ht))

/-- The same for a run. -/
theorem Steps.invariant (hk : Kept E next may inv ok I) (h : Steps E next may p p')
    (hI : I p.pasts p.state)
    (hwp : ∀ t ∈ p.threads, Prog.wp (E.alone next inv ok) t.prog Q t.past) :
    I p'.pasts p'.state ∧ ∀ t ∈ p'.threads, Prog.wp (E.alone next inv ok) t.prog Q t.past := by
  induction h with
  | refl => exact ⟨hI, hwp⟩
  | tail _ hs ih => exact hs.invariant hk ih.1 ih.2

/-- At the end of a run the invariant holds, and each thread has left its past as it is to
    leave it. -/
theorem Steps.finished (hk : Kept E next may inv ok I) {g : G} {progs : List (Prog Op Res α)}
    {s : S} (hI : I (progs.map fun _ => g) s)
    (hwp : ∀ prog ∈ progs, Prog.wp (E.alone next inv ok) prog Q g)
    (h : Steps E next may (start g progs s) p') (hfin : p'.Finished) :
    I p'.pasts p'.state ∧ ∀ g' ∈ p'.pasts, ∃ a, Q a g' := by
  have hstart : (start g progs s).pasts = progs.map fun _ => g := by
    simp only [pasts, start, List.map_map, Function.comp_def]
  have hwp : ∀ t ∈ (start g progs s).threads,
      Prog.wp (E.alone next inv ok) t.prog Q t.past := by
    intro t ht
    obtain ⟨prog, hprog, rfl⟩ := List.mem_map.mp ht
    exact hwp prog hprog
  rw [← hstart] at hI
  obtain ⟨hI, hend⟩ := Steps.invariant hk h hI hwp
  refine ⟨hI, fun g' hg' => ?_⟩
  obtain ⟨t, ht, rfl⟩ := List.mem_map.mp hg'
  have hret := hend t ht
  have hsome := hfin t ht
  obtain ⟨prog, g⟩ := t
  cases prog with
  | ret a => exact ⟨a, hret⟩
  | call op k => exact nomatch hsome
  | spin => exact nomatch hsome

end Pool

end Invariant

-- ============================================================================
-- Threads that rely on what they have done
-- ============================================================================

section Rely

variable {Op : Type u} {Res : Op → Type u} {G S C α : Type u}

/-- One thread amid others.  The state is its past.  At a call it may `rely` on something of
    the shared state, which can depend on its past and on the call; in return it sees to it
    that the call and the past after it are `ok`. -/
def Env.amid (E : Env Op Res S C) (next : G → (op : Op) → Res op → G)
    (rely : G → Op → S → Prop) (ok : Op → G → Prop) : Env Op Res G (C × S) where
  handle d op g := ((E.handle d.1 op d.2).1, next g op (E.handle d.1 op d.2).1)
  allow d op g := rely g op d.2 ∧ E.allow d.1 op d.2
  watch := ok
  spins := E.spins

/-- `I`, of the pasts in any order and the shared state, grants what the threads rely on and is
    kept by every call that is `ok`. -/
structure Upheld (E : Env Op Res S C) (next : G → (op : Op) → Res op → G)
    (may : List G → G → Op → S → Prop) (rely : G → Op → S → Prop) (ok : Op → G → Prop)
    (I : List G → S → Prop) : Prop where
  rely : ∀ g gs op s, I (g :: gs) s → may gs g op s → rely g op s
  perm : ∀ gs gs' s, gs.Perm gs' → I gs s → I gs' s
  call : ∀ g gs op c s, I (g :: gs) s → E.allow c op s → may gs g op s →
    ok op (next g op (E.handle c op s).1) →
      I (next g op (E.handle c op s).1 :: gs) (E.handle c op s).2

theorem wp_amid_call {E : Env Op Res S C} {next : G → (op : Op) → Res op → G}
    {rely : G → Op → S → Prop} {ok : Op → G → Prop} {op : Op} {k : Res op → Prog Op Res α}
    {Q : α → G → Prop} {g : G} : Prog.wp (E.amid next rely ok) (.call op k) Q g ↔
      ∀ c s, rely g op s → E.allow c op s → ok op (next g op (E.handle c op s).1) ∧
        Prog.wp (E.amid next rely ok) (k (E.handle c op s).1) Q
          (next g op (E.handle c op s).1) := by
  simp only [Prog.wp_call, Prod.forall, Env.amid, and_imp]

namespace Pool

variable {E : Env Op Res S C} {next : G → (op : Op) → Res op → G}
variable {may : List G → G → Op → S → Prop} {rely : G → Op → S → Prop} {ok : Op → G → Prop}
variable {I : List G → S → Prop} {Q : α → G → Prop} {p p' : Pool Op Res G S α}

/-- A step keeps the invariant and what is known of each thread. -/
theorem Step.upheld (hu : Upheld E next may rely ok I) (h : Step E next may p p')
    (hI : I p.pasts p.state)
    (hwp : ∀ t ∈ p.threads, Prog.wp (E.amid next rely ok) t.prog Q t.past) :
    I p'.pasts p'.state ∧ ∀ t ∈ p'.threads, Prog.wp (E.amid next rely ok) t.prog Q t.past := by
  cases h with
  | @call pre post op k g s c ha hmay =>
      simp only [pasts, List.map_append, List.map_cons] at hI ⊢
      have hfirst := hu.perm _ _ s List.perm_middle hI
      have hself := hwp ⟨.call op k, g⟩ (List.mem_append_right _ List.mem_cons_self)
      obtain ⟨hok, hrest⟩ := wp_amid_call.mp hself c s (hu.rely _ _ _ _ hfirst hmay) ha
      refine ⟨hu.perm _ _ _ List.perm_middle.symm (hu.call _ _ _ _ _ hfirst ha hmay hok), ?_⟩
      intro t ht
      rcases List.mem_append.mp ht with ht | ht
      · exact hwp t (List.mem_append_left _ ht)
      · rcases List.mem_cons.mp ht with rfl | ht
        · exact hrest
        · exact hwp t (List.mem_append_right _ (List.mem_cons_of_mem _ ht))

/-- The same for a run. -/
theorem Steps.upheld (hu : Upheld E next may rely ok I) (h : Steps E next may p p')
    (hI : I p.pasts p.state)
    (hwp : ∀ t ∈ p.threads, Prog.wp (E.amid next rely ok) t.prog Q t.past) :
    I p'.pasts p'.state ∧ ∀ t ∈ p'.threads, Prog.wp (E.amid next rely ok) t.prog Q t.past := by
  induction h with
  | refl => exact ⟨hI, hwp⟩
  | tail _ hs ih => exact hs.upheld hu ih.1 ih.2

/-- What no call changes of a past stays, thread by thread. -/
theorem Steps.map_pasts {β : Type u} {f : G → β} (hf : ∀ g op r, f (next g op r) = f g)
    (h : Steps E next may p p') : p'.pasts.map f = p.pasts.map f := by
  induction h with
  | refl => rfl
  | tail _ hs ih =>
      rw [← ih]
      cases hs with
      | call ha hmay =>
          simp only [pasts, List.map_append, List.map_cons, hf]

/-- A thread that has returned has done what it is to do. -/
theorem returned_of_finished (hfin : p.Finished)
    (hwp : ∀ t ∈ p.threads, Prog.wp (E.amid next rely ok) t.prog Q t.past) :
    ∀ t ∈ p.threads, ∃ a, t.prog = .ret a ∧ Q a t.past := by
  intro t ht
  have hret := hwp t ht
  obtain ⟨a, ha⟩ := Option.isSome_iff_exists.mp (hfin t ht)
  rw [Prog.eq_ret_of_value? ha] at hret ⊢
  exact ⟨a, rfl, hret⟩

end Pool

end Rely

-- ============================================================================
-- Given schedules
-- ============================================================================

namespace Pool

variable {Op : Type u} {Res : Op → Type u} {G S C α : Type u}
variable (E : Env Op Res S C) (next : G → (op : Op) → Res op → G)
variable (may : List G → G → Op → S → Prop)
variable [∀ c op s, Decidable (E.allow c op s)] [∀ gs g op s, Decidable (may gs g op s)]

/-- The thread at place `i` makes its next call. -/
def turn (i : Nat) (c : C) (p : Pool Op Res G S α) : Option (Pool Op Res G S α) :=
  match p.threads.drop i with
  | ⟨.call op k, g⟩ :: post =>
      if E.allow c op p.state ∧
          may ((p.threads.take i).map (·.past) ++ post.map (·.past)) g op p.state then
        some ⟨p.threads.take i ++
          ⟨k (E.handle c op p.state).1, next g op (E.handle c op p.state).1⟩ :: post,
          (E.handle c op p.state).2⟩
      else none
  | _ => none

/-- The run in which the threads at the given places take turns; `none` if one of them
    may not make its call. -/
def schedule : List (Nat × C) → Pool Op Res G S α → Option (Pool Op Res G S α)
  | [], p => some p
  | (i, c) :: rest, p => (turn E next may i c p).bind (schedule rest)

variable {E next may} {p p' : Pool Op Res G S α}

theorem step_of_turn {i : Nat} {c : C} (h : turn E next may i c p = some p') :
    Step E next may p p' := by
  obtain ⟨threads, s⟩ := p
  unfold turn at h
  dsimp only at h
  split at h
  · next op k g post hdrop =>
      split at h
      · next ha =>
          obtain rfl := Option.some.inj h
          have hsplit := List.take_append_drop i threads
          rw [hdrop] at hsplit
          have hstep : Step E next may ⟨threads.take i ++ ⟨.call op k, g⟩ :: post, s⟩
              ⟨threads.take i ++ ⟨k (E.handle c op s).1, next g op (E.handle c op s).1⟩ :: post,
                (E.handle c op s).2⟩ := Step.call ha.1 ha.2
          rwa [hsplit] at hstep
      · exact nomatch h
  · exact nomatch h

theorem steps_of_schedule {sched : List (Nat × C)} (h : schedule E next may sched p = some p') :
    Steps E next may p p' := by
  induction sched generalizing p with
  | nil =>
      obtain rfl := Option.some.inj h
      exact .refl
  | cons e rest ih =>
      obtain ⟨q, hq, hrest⟩ := Option.bind_eq_some_iff.mp h
      exact .head (step_of_turn hq) (ih hrest)

/-- A schedule is run and what it reaches is tested by evaluation. -/
theorem steps_of_test {sched : List (Nat × C)} {test : Pool Op Res G S α → Bool}
    (h : (schedule E next may sched p).any test = true) :
    ∃ p', Steps E next may p p' ∧ test p' = true := by
  rw [Option.any_eq_true] at h
  obtain ⟨p', hrun, htest⟩ := h
  exact ⟨p', steps_of_schedule hrun, htest⟩

end Pool

end CacheFs.Effect
