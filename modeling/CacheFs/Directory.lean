/-
  CacheFs.Directory

  The callbacks for directories.

  `cfs_opendir`, `cfs_readdir` and `cfs_releasedir` work on the directory of the NAS alone,
  and `cfs_readdir` ignores the offset it is given: one call is to hand the whole
  directory to `filler`, and a handle has one stream that is never wound back.  The tree of
  the NAS may change before every call of the system, by other callbacks as well as by
  other clients.
-/

import CacheFs.Callbacks
import CacheFs.Effect.Trace
import CacheFs.Posix.DirStream

namespace CacheFs

open CacheFs.Posix
open CacheFs.Effect (Prog Env Event)

-- ============================================================================
-- Calls
-- ============================================================================

inductive DirCall where
  /-- Null is 0. -/
  | opendir (path : Path)
  | readdir (dp : Nat)
  | closedir (dp : Nat)
  /-- `filler(buf, name, NULL, 0)`. -/
  | filler (name : Path)
  | errno

/-- The type of the reply to a call. -/
@[reducible] def DirCall.Reply : DirCall → Type
  | .opendir _ | .errno => Nat
  | .readdir _ => Option Path
  | .closedir _ | .filler _ => Int

/-- An open directory of the NAS. -/
structure OpenDir where
  ino : Ino
  stream : DirStream Path

structure DirState where
  nas : Fs
  /-- The open streams, by address. -/
  streams : Nat → Option OpenDir
  nextDir : Nat
  errno : Nat

/-- What is decided outside about one call. -/
structure DirChoice where
  /-- The trees the NAS has had since the call before, the present one last. -/
  trees : List Fs := []
  /-- The error the call reports, or the one a message to the log has left in `errno`. -/
  err : Option Errno := none
  /-- The entry a stream returns. -/
  entry : Option Path := none
  /-- What `filler` returns. -/
  full : Int := 0

namespace DirState

/-- The NAS has a new tree: every open stream is of a directory that may have changed. -/
def renew (s : DirState) (nas : Fs) : DirState where
  nas := nas
  streams := fun dp => (s.streams dp).map fun o =>
    { o with stream := o.stream.change (s.nas.entries o.ino) (nas.entries o.ino) }
  nextDir := s.nextDir
  errno := s.errno

/-- The state in which a call is answered. -/
def now (s : DirState) (c : DirChoice) : DirState := c.trees.foldl renew s

def fail (s : DirState) (e : Errno) : DirState := { s with errno := e }

def opendir (c : DirChoice) (s : DirState) (path : Path) : Nat × DirState :=
  match c.err, s.nas.follow Fs.maxLinks path with
  | some e, _ => (0, s.fail e)
  | none, .error e => (0, s.fail e)
  | none, .ok i =>
    if (s.nas.inode i).kind ≠ .dir then (0, s.fail ENOTDIR)
    else (s.nextDir + 1, { s with
      streams := Function.update s.streams (s.nextDir + 1) (some ⟨i, .start (s.nas.entries i)⟩)
      nextDir := s.nextDir + 1 })

/-- The end of a stream leaves `errno` as it is. -/
def readdir (c : DirChoice) (s : DirState) (dp : Nat) : Option Path × DirState :=
  match c.err, s.streams dp, c.entry with
  | some e, _, _ => (none, s.fail e)
  | none, some o, some a => (some a, { s with
      streams := Function.update s.streams dp (some { o with stream := o.stream.advance a }) })
  | none, _, _ => (none, s)

def closedir (s : DirState) (dp : Nat) : DirState :=
  { s with streams := Function.update s.streams dp none }

end DirState

/-- The answer to a call, and the state after it. -/
def dirHandle (c : DirChoice) : (op : DirCall) → DirState → op.Reply × DirState
  | .opendir path, s => (s.now c).opendir c path
  | .readdir dp, s => (s.now c).readdir c dp
  | .closedir dp, s => (0, (s.now c).closedir dp)
  | .filler _, s => (c.full, s.now c)
  | .errno, s =>
    let errno := (c.err.map PNat.val).getD (s.now c).errno
    (errno, { s.now c with errno })

/-- What `readdir` may return: an entry that may come, or the end when nothing is left that
    has to come. -/
def OpenDir.MayReturn (o : OpenDir) : Option Path → Prop
  | some a => a ∈ o.stream.may
  | none => o.stream.must = []

instance (o : OpenDir) : (reply : Option Path) → Decidable (o.MayReturn reply)
  | some a => inferInstanceAs (Decidable (a ∈ o.stream.may))
  | none => inferInstanceAs (Decidable (o.stream.must = []))

def dirAllow (c : DirChoice) : DirCall → DirState → Prop
  | .readdir dp, s => c.err = none → ∀ o ∈ (s.now c).streams dp, o.MayReturn c.entry
  | _, _ => True

instance (c : DirChoice) : (op : DirCall) → (s : DirState) → Decidable (dirAllow c op s)
  | .readdir dp, s => inferInstanceAs
      (Decidable (c.err = none → ∀ o ∈ (s.now c).streams dp, o.MayReturn c.entry))
  | .opendir _, _ | .closedir _, _ | .filler _, _ | .errno, _ => inferInstanceAs (Decidable True)

abbrev DirM := Prog DirCall DirCall.Reply

def dirEnv : Env DirCall DirCall.Reply DirState DirChoice where
  handle := dirHandle
  allow := dirAllow

instance (c : DirChoice) (op : DirCall) (s : DirState) : Decidable (dirEnv.allow c op s) :=
  inferInstanceAs (Decidable (dirAllow c op s))

namespace Dir

def call (op : DirCall) : DirM op.Reply := .call op .ret

end Dir

-- ============================================================================
-- The callbacks
-- ============================================================================

def ENOMEM : Errno := 12

/-- `log_error`. -/
def logError : DirM Int := do
  let errno ← Dir.call .errno
  pure (-errno)

/-- Returns the status and the new `fi->fh`. -/
def cfsOpendir (cfg : Config) (path : Path) : DirM (Int × Nat) := do
  let dp ← Dir.call (.opendir (cfg.fullNasPath path))
  if dp = 0 then do
    let retstat ← logError
    pure (retstat, dp)
  else pure (0, dp)

/-- The loop of `cfs_readdir`, at the entry `de`. -/
def fillDir : Nat → Nat → Path → DirM Int
  | 0, _, _ => .spin
  | fuel + 1, dp, de => do
    let full ← Dir.call (.filler de)
    if full ≠ 0 then pure (-(ENOMEM : Nat))
    else do
      let de ← Dir.call (.readdir dp)
      match de with
      | some de => fillDir fuel dp de
      | none => pure 0

def cfsReaddir (fuel dp : Nat) : DirM Int := do
  let de ← Dir.call (.readdir dp)
  match de with
  | some de => fillDir fuel dp de
  | none => logError

def cfsReleasedir (dp : Nat) : DirM Int := do
  let _ ← Dir.call (.closedir dp)
  pure 0

/-- Only a message to the log. -/
def cfsFsyncdir (_datasync : Bool) (_dp : Nat) : DirM Int := pure 0

-- ============================================================================
-- Runs
-- ============================================================================

inductive DirRequest where
  | cfsOpendir (path : Path)
  | cfsReaddir (dp : Nat)
  | cfsReleasedir (dp : Nat)
  | cfsFsyncdir (datasync : Bool) (dp : Nat)
deriving DecidableEq

def DirRequest.prog (cfg : Config) (fuel : Nat) : DirRequest → DirM Int
  | .cfsOpendir path => do
    let r ← CacheFs.cfsOpendir cfg path
    pure r.1
  | .cfsReaddir dp => CacheFs.cfsReaddir fuel dp
  | .cfsReleasedir dp => CacheFs.cfsReleasedir dp
  | .cfsFsyncdir datasync dp => CacheFs.cfsFsyncdir datasync dp

abbrev DirEv := Event DirCall DirState DirChoice

namespace DirEv

/-- The name `filler` was called with. -/
def offered (e : DirEv) : Option Path :=
  match e.op with
  | .filler name => some name
  | _ => none

/-- The name `filler` has taken. -/
def accepted (e : DirEv) : Option Path := if e.choice.full = 0 then e.offered else none

/-- The name `filler` had no room for. -/
def refused (e : DirEv) : Option Path := if e.choice.full = 0 then none else e.offered

/-- What the stream `dp` has returned. -/
def returned (dp : Nat) (e : DirEv) : Option Path :=
  match e.op with
  | .readdir p => if p = dp then ((e.before.now e.choice).readdir e.choice p).1 else none
  | _ => none

end DirEv

/-- A callback that has returned. -/
structure DirDone where
  request : DirRequest
  trace : List DirEv
  status : Int

namespace DirDone

def offered (d : DirDone) : List Path := d.trace.filterMap DirEv.offered

def accepted (d : DirDone) : List Path := d.trace.filterMap DirEv.accepted

def refused (d : DirDone) : List Path := d.trace.filterMap DirEv.refused

/-- `filler` had room for everything, and no call of `readdir` has failed. -/
def Whole (d : DirDone) : Prop :=
  d.refused = [] ∧ ∀ e ∈ d.trace, (∃ dp, e.op = .readdir dp) → e.choice.err = none

end DirDone

/-- The callbacks `ds` one after the other. -/
def DirRun (cfg : Config) : List DirDone → DirState → DirState → Prop
  | [], s, s' => s' = s
  | d :: ds, s, s' => ∃ fuel s₁,
      Prog.Traced dirEnv (d.request.prog cfg fuel) s d.trace d.status s₁ ∧ DirRun cfg ds s₁ s'

/-- What the calls of `cfs_readdir` on the stream `dp` add up to. -/
def listing (dp : Nat) (names : DirDone → List Path) (ds : List DirDone) : List Path :=
  (ds.filter fun d => d.request = .cfsReaddir dp).flatMap names

-- ============================================================================
-- One call
-- ============================================================================

section OneCall

variable {s s' : DirState} {tr : List DirEv} {r : Int} {fuel dp : Nat}

namespace DirEv

variable {c : DirChoice}

@[simp] theorem offered_filler (name : Path) : offered ⟨.filler name, c, s⟩ = some name := rfl

@[simp] theorem offered_readdir (dp : Nat) : offered ⟨.readdir dp, c, s⟩ = none := rfl

@[simp] theorem offered_errno : offered ⟨.errno, c, s⟩ = none := rfl

@[simp] theorem accepted_readdir (dp : Nat) : accepted ⟨.readdir dp, c, s⟩ = none := ite_self _

@[simp] theorem refused_readdir (dp : Nat) : refused ⟨.readdir dp, c, s⟩ = none := ite_self _

@[simp] theorem accepted_errno : accepted ⟨.errno, c, s⟩ = none := ite_self _

@[simp] theorem refused_errno : refused ⟨.errno, c, s⟩ = none := ite_self _

theorem accepted_of_room (h : c.full = 0) (name : Path) :
    accepted ⟨.filler name, c, s⟩ = some name := if_pos h

theorem refused_of_room (h : c.full = 0) (name : Path) :
    refused ⟨.filler name, c, s⟩ = none := if_pos h

theorem accepted_of_full (h : c.full ≠ 0) (name : Path) :
    accepted ⟨.filler name, c, s⟩ = none := if_neg h

theorem refused_of_full (h : c.full ≠ 0) (name : Path) :
    refused ⟨.filler name, c, s⟩ = some name := if_neg h

@[simp] theorem returned_filler (dp : Nat) (name : Path) :
    returned dp ⟨.filler name, c, s⟩ = none := rfl

@[simp] theorem returned_errno (dp : Nat) : returned dp ⟨.errno, c, s⟩ = none := rfl

@[simp] theorem returned_readdir (dp : Nat) :
    returned dp ⟨.readdir dp, c, s⟩ = (dirHandle c (.readdir dp) s).1 := if_pos rfl

end DirEv

/-- What a call has handed to `filler`, and what became of it. -/
structure Handed (dp : Nat) (tr : List DirEv) (r : Int) : Prop where
  returned : tr.filterMap DirEv.offered = tr.filterMap (DirEv.returned dp)
  split : tr.filterMap DirEv.offered = tr.filterMap DirEv.accepted ++ tr.filterMap DirEv.refused
  /-- A name is refused by a last call that reports no memory, or the stream has ended. -/
  ends : (∃ name, tr.filterMap DirEv.refused = [name] ∧ r = -(ENOMEM : Nat)) ∨
    tr.filterMap DirEv.refused = [] ∧ (tr.filterMap DirEv.offered ≠ [] → r = 0) ∧
      ∃ e ∈ tr, e.op = .readdir dp ∧ e.returned dp = none

theorem traced_dirCall {op : DirCall} {r : op.Reply} :
    Prog.Traced dirEnv (Dir.call op) s tr r s' ↔ ∃ c, dirAllow c op s ∧ tr = [⟨op, c, s⟩] ∧
      r = (dirHandle c op s).1 ∧ s' = (dirHandle c op s).2 := by
  constructor
  · rintro ⟨c, tr', hc, rfl, rfl, hr, hs⟩
    exact ⟨c, hc, rfl, hr, hs⟩
  · rintro ⟨c, hc, rfl, hr, hs⟩
    exact ⟨c, [], hc, rfl, rfl, hr, hs⟩

/-- The loop, whose first name has been returned before. -/
theorem traced_fillDir {de : Path} (h : Prog.Traced dirEnv (fillDir fuel dp de) s tr r s') :
    tr.filterMap DirEv.offered = de :: tr.filterMap (DirEv.returned dp) ∧
      tr.filterMap DirEv.offered =
        tr.filterMap DirEv.accepted ++ tr.filterMap DirEv.refused ∧
      ((∃ name, tr.filterMap DirEv.refused = [name] ∧ r = -(ENOMEM : Nat)) ∨
        tr.filterMap DirEv.refused = [] ∧ r = 0 ∧
          ∃ e ∈ tr, e.op = .readdir dp ∧ e.returned dp = none) := by
  induction fuel generalizing de s tr with
  | zero => exact h.elim
  | succ fuel ih =>
      rw [fillDir] at h
      obtain ⟨tr₁, tr₂, full, s₁, rfl, hfill, h⟩ := Prog.traced_bind.mp h
      obtain ⟨c, -, rfl, rfl, rfl⟩ := traced_dirCall.mp hfill
      by_cases hfull : c.full = 0
      · rw [if_neg (by simpa [dirHandle] using hfull)] at h
        obtain ⟨tr₃, tr₄, de', s₂, rfl, hread, h⟩ := Prog.traced_bind.mp h
        obtain ⟨c', -, rfl, rfl, rfl⟩ := traced_dirCall.mp hread
        cases hde : (dirHandle c' (.readdir dp) (dirHandle c (.filler de) s).2).1 with
        | none =>
            rw [hde] at h
            obtain ⟨rfl, rfl, -⟩ := Prog.traced_pure.mp h
            refine ⟨?_, ?_, Or.inr ⟨?_, rfl, _, by simp, rfl,
              (DirEv.returned_readdir _).trans hde⟩⟩
            · simp [List.filterMap_cons, hde]
            · simp [List.filterMap_cons, DirEv.accepted_of_room hfull, DirEv.refused_of_room hfull]
            · simp [DirEv.refused_of_room hfull]
        | some next =>
            rw [hde] at h
            obtain ⟨hall, hsplit, hend⟩ := ih h
            refine ⟨?_, ?_, ?_⟩
            · simp [List.filterMap_cons, hde, hall]
            · simp [List.filterMap_cons, DirEv.accepted_of_room hfull,
                DirEv.refused_of_room hfull, hsplit]
            · simpa [DirEv.refused_of_room hfull, hde] using hend
      · rw [if_pos (by simpa [dirHandle] using hfull)] at h
        obtain ⟨rfl, rfl, -⟩ := Prog.traced_pure.mp h
        refine ⟨rfl, ?_, Or.inl ⟨de, ?_, rfl⟩⟩
        · simp [DirEv.accepted_of_full hfull, DirEv.refused_of_full hfull]
        · simp [DirEv.refused_of_full hfull]

/-- What `cfs_readdir` gets from the stream it hands on. -/
theorem traced_cfsReaddir (h : Prog.Traced dirEnv (cfsReaddir fuel dp) s tr r s') :
    Handed dp tr r := by
  rw [cfsReaddir] at h
  obtain ⟨tr₁, tr₂, de, s₁, rfl, hread, h⟩ := Prog.traced_bind.mp h
  obtain ⟨c, -, rfl, rfl, rfl⟩ := traced_dirCall.mp hread
  cases hde : (dirHandle c (.readdir dp) s).1 with
  | none =>
      rw [hde, logError] at h
      obtain ⟨tr₃, tr₄, e, s₂, rfl, herrno, h⟩ := Prog.traced_bind.mp h
      obtain ⟨c', -, rfl, rfl, rfl⟩ := traced_dirCall.mp herrno
      obtain ⟨rfl, rfl, -⟩ := Prog.traced_pure.mp h
      refine ⟨by simp [List.filterMap_cons, hde], by simp [List.filterMap_cons],
        Or.inr ⟨by simp, fun hne => absurd (by simp) hne, _, List.mem_cons_self, rfl, ?_⟩⟩
      exact (DirEv.returned_readdir _).trans hde
  | some de =>
      rw [hde] at h
      obtain ⟨hall, hsplit, hend⟩ := traced_fillDir h
      refine ⟨?_, ?_, ?_⟩
      · simpa [List.filterMap_cons, hde] using hall
      · simp [List.filterMap_cons, hsplit]
      · rcases hend with ⟨name, hname, hr⟩ | ⟨hnone, hr, e, he, hop, hend⟩
        · exact Or.inl ⟨name, by simpa using hname, hr⟩
        · exact Or.inr ⟨by simpa using hnone, fun _ => hr, e, List.mem_cons_of_mem _ he, hop, hend⟩

end OneCall

-- ============================================================================
-- An entry that stays
-- ============================================================================

section Entry

variable {cfg : Config} {s s₀ s' : DirState} {c : DirChoice} {tr : List DirEv} {r : Int}
variable {fuel dp k : Nat} {i : Ino} {a : Path} {d : DirDone} {ds : List DirDone}

/-- The entry `a` is in the directory `i` whenever the tree of the NAS changes. -/
def Stays (i : Ino) (a : Path) (tr : List DirEv) : Prop :=
  ∀ e ∈ tr, ∀ nas ∈ e.choice.trees, a ∈ nas.entries i

/-- The stream `dp` reads the directory `i`, which has the entry `a`, and has returned it
    `k` times. -/
structure Reads (dp : Nat) (i : Ino) (a : Path) (k : Nat) (s : DirState) : Prop where
  present : a ∈ s.nas.entries i
  opened : dp ≤ s.nextDir
  stream : ∃ d, s.streams dp = some ⟨i, d⟩ ∧ d.Returned a k

namespace Reads

theorem renew (h : Reads dp i a k s) {nas : Fs} (ha : a ∈ nas.entries i) :
    Reads dp i a k (s.renew nas) := by
  obtain ⟨d, hd, hret⟩ := h.stream
  exact ⟨ha, h.opened, d.change (s.nas.entries i) (nas.entries i), by simp [DirState.renew, hd],
    hret.change h.present ha⟩

theorem now (h : Reads dp i a k s) (hc : ∀ nas ∈ c.trees, a ∈ nas.entries i) :
    Reads dp i a k (s.now c) := by
  rw [DirState.now]
  generalize c.trees = trees at hc
  induction trees generalizing s with
  | nil => exact h
  | cons nas trees ih =>
      exact ih (h.renew (hc nas List.mem_cons_self)) fun t ht => hc t (List.mem_cons_of_mem _ ht)

theorem opendir (h : Reads dp i a k s) (path : Path) : Reads dp i a k (s.opendir c path).2 := by
  unfold DirState.opendir
  split
  · exact ⟨h.present, h.opened, h.stream⟩
  · exact ⟨h.present, h.opened, h.stream⟩
  · split
    · exact ⟨h.present, h.opened, h.stream⟩
    · obtain ⟨d, hd, hret⟩ := h.stream
      have hne : dp ≠ s.nextDir + 1 := Nat.ne_of_lt (Nat.lt_succ_of_le h.opened)
      exact ⟨h.present, Nat.le_succ_of_le h.opened, d,
        (Function.update_of_ne hne _ _).trans hd, hret⟩

theorem readdir (h : Reads dp i a k s) {p : Nat}
    (hallow : c.err = none → ∀ o ∈ s.streams p, ∀ b ∈ c.entry, b ∈ o.stream.may) :
    Reads dp i a (k + (if p = dp then (s.readdir c p).1 else none).toList.count a)
      (s.readdir c p).2 := by
  obtain ⟨d, hd, hret⟩ := h.stream
  cases herr : c.err with
  | some e =>
      have hfst : (s.readdir c p).1 = none := by simp [DirState.readdir, herr]
      rw [hfst, ite_self]
      simp only [DirState.readdir, herr]
      exact ⟨h.present, h.opened, d, hd, hret⟩
  | none =>
      by_cases hp : p = dp
      · subst hp
        cases hb : c.entry with
        | none => simpa [DirState.readdir, herr, hd, hb] using h
        | some b =>
            have hadv := hret.advance (hallow herr _ hd b hb)
            simp only [DirState.readdir, herr, hd, hb, if_true, Option.toList_some,
              List.count_singleton, beq_iff_eq]
            exact ⟨h.present, h.opened, d.advance b, by simp, hadv⟩
      · rw [if_neg hp]
        unfold DirState.readdir
        split
        · exact ⟨h.present, h.opened, d, hd, hret⟩
        · exact ⟨h.present, h.opened, d,
            (Function.update_of_ne (Ne.symm hp) _ _).trans hd, hret⟩
        · exact ⟨h.present, h.opened, d, hd, hret⟩

theorem handle (h : Reads dp i a k s) {op : DirCall} (hop : op ≠ .closedir dp)
    (hallow : dirAllow c op s) (hc : ∀ nas ∈ c.trees, a ∈ nas.entries i) :
    Reads dp i a (k + (DirEv.returned dp ⟨op, c, s⟩).toList.count a) (dirHandle c op s).2 := by
  have hnow := h.now hc
  cases op with
  | opendir path => exact hnow.opendir path
  | readdir p =>
      refine hnow.readdir fun herr o ho b hb => ?_
      have hmay := hallow herr o ho
      rwa [hb] at hmay
  | closedir p =>
      obtain ⟨d, hd, hret⟩ := hnow.stream
      have hne : dp ≠ p := fun he => hop (he ▸ rfl)
      exact ⟨hnow.present, hnow.opened, d, (Function.update_of_ne hne _ _).trans hd, hret⟩
  | filler name => exact hnow
  | errno => exact ⟨hnow.present, hnow.opened, hnow.stream⟩

end Reads

/-- The calls a callback may make. -/
def DirRequest.MayCall : DirRequest → DirCall → Prop
  | .cfsOpendir _, .opendir _ | .cfsOpendir _, .errno => True
  | .cfsReaddir dp, .readdir p => p = dp
  | .cfsReaddir _, .filler _ | .cfsReaddir _, .errno => True
  | .cfsReleasedir dp, .closedir p => p = dp
  | _, _ => False

theorem only_dirCall {ok : DirCall → Prop} {op : DirCall} (h : ok op) :
    Prog.Only ok (Dir.call op) :=
  ⟨h, fun _ => trivial⟩

theorem only_fillDir (de : Path) :
    Prog.Only (DirRequest.cfsReaddir dp).MayCall (fillDir fuel dp de) := by
  induction fuel generalizing de with
  | zero => trivial
  | succ fuel ih =>
      refine Prog.only_bind (only_dirCall trivial) fun full => Prog.only_ite _ (Prog.only_pure _) ?_
      refine Prog.only_bind (only_dirCall rfl) fun de => ?_
      cases de with
      | some de => exact ih de
      | none => exact Prog.only_pure _

theorem only_dirProg (q : DirRequest) : Prog.Only q.MayCall (q.prog cfg fuel) := by
  cases q with
  | cfsOpendir path =>
      refine Prog.only_bind (Prog.only_bind (only_dirCall trivial) fun dp => ?_)
        fun r => Prog.only_pure _
      refine Prog.only_ite _ (Prog.only_bind ?_ fun r => Prog.only_pure _) (Prog.only_pure _)
      exact Prog.only_bind (only_dirCall trivial) fun e => Prog.only_pure _
  | cfsReaddir dp =>
      refine Prog.only_bind (only_dirCall rfl) fun de => ?_
      cases de with
      | some de => exact only_fillDir de
      | none => exact Prog.only_bind (only_dirCall trivial) fun e => Prog.only_pure _
  | cfsReleasedir dp => exact Prog.only_bind (only_dirCall rfl) fun r => Prog.only_pure _
  | cfsFsyncdir datasync dp => trivial

/-- Before each call of a callback that does not close the stream, and at its end. -/
theorem Reads.traced (h : Reads dp i a k s) {q : DirRequest} (hq : q ≠ .cfsReleasedir dp)
    (hstay : Stays i a tr) (htr : Prog.Traced dirEnv (q.prog cfg fuel) s tr r s') :
    Reads dp i a (k + (tr.filterMap (DirEv.returned dp)).count a) s' ∧
      ∀ tr₁ e tr₂, tr = tr₁ ++ e :: tr₂ →
        Reads dp i a (k + (tr₁.filterMap (DirEv.returned dp)).count a) e.before := by
  refine htr.history (t := []) (I := fun past s =>
    Reads dp i a (k + (past.filterMap (DirEv.returned dp)).count a) s)
    (only_dirProg q) (fun past e he hop hallow hreads => ?_) h
  have hopen : e.op ≠ .closedir dp := by
    intro hclose
    rw [hclose] at hop
    cases q with
    | cfsReleasedir p => exact hq (hop ▸ rfl)
    | cfsOpendir _ | cfsReaddir _ | cfsFsyncdir _ _ => exact hop
  have hnext := hreads.handle hopen hallow (hstay e he)
  rw [List.filterMap_append, List.count_append, ← Nat.add_assoc]
  have hlast : [e].filterMap (DirEv.returned dp) = (DirEv.returned dp e).toList := by
    rw [List.filterMap_cons]
    cases DirEv.returned dp e <;> rfl
  rwa [hlast]

/-- A stream that ends without an error has returned what it had to. -/
theorem Reads.eq_one_of_end (h : Reads dp i a k s) (hc : ∀ nas ∈ c.trees, a ∈ nas.entries i)
    (hallow : dirAllow c (.readdir dp) s) (herr : c.err = none)
    (hend : (dirHandle c (.readdir dp) s).1 = none) : k = 1 := by
  obtain ⟨d, hd, hret⟩ := (h.now hc).stream
  have hmust := hallow herr _ hd
  cases hb : c.entry with
  | none => exact hret.eq_one (by rwa [hb] at hmust)
  | some b => simp [dirHandle, DirState.readdir, herr, hd, hb] at hend

/-- A call that has come to the end of the stream. -/
theorem Reads.whole (h : Reads dp i a k s) (hstay : Stays i a tr)
    (htr : Prog.Traced dirEnv (DirRequest.prog cfg fuel (.cfsReaddir dp)) s tr r s')
    (hrefused : tr.filterMap DirEv.refused = [])
    (herr : ∀ e ∈ tr, e.op = .readdir dp → e.choice.err = none) :
    k + (tr.filterMap (DirEv.returned dp)).count a = 1 := by
  obtain ⟨hlast, hbefore⟩ := h.traced (by simp) hstay htr
  obtain ⟨-, -, ⟨name, hname, -⟩ | ⟨-, -, ⟨op, c, s₁⟩, he, rfl, hend⟩⟩ := traced_cfsReaddir htr
  · rw [hrefused] at hname
    exact absurd hname (by simp)
  · obtain ⟨tr₁, tr₂, rfl⟩ := List.append_of_mem he
    rw [DirEv.returned_readdir] at hend
    have hone := (hbefore tr₁ _ tr₂ rfl).eq_one_of_end (hstay _ he) (htr.allowed _ he)
      (herr _ he rfl) hend
    obtain ⟨d, -, hret⟩ := hlast.stream
    have hle := hret.le_one
    rw [List.filterMap_append, List.count_append] at hle ⊢
    omega

-- ============================================================================
-- A run
-- ============================================================================

theorem DirRun.append {ds₁ ds₂ : List DirDone} : DirRun cfg (ds₁ ++ ds₂) s s' ↔
    ∃ s₁, DirRun cfg ds₁ s s₁ ∧ DirRun cfg ds₂ s₁ s' := by
  induction ds₁ generalizing s with
  | nil => simp [DirRun]
  | cons d ds₁ ih =>
      simp only [List.cons_append, DirRun, ih]
      constructor
      · rintro ⟨fuel, s₁, h₁, s₂, h₂, h₃⟩
        exact ⟨s₂, ⟨fuel, s₁, h₁, h₂⟩, h₃⟩
      · rintro ⟨s₂, ⟨fuel, s₁, h₁, h₂⟩, h₃⟩
        exact ⟨fuel, s₁, h₁, s₂, h₂, h₃⟩

theorem listing_append (dp : Nat) (names : DirDone → List Path) (ds₁ ds₂ : List DirDone) :
    listing dp names (ds₁ ++ ds₂) = listing dp names ds₁ ++ listing dp names ds₂ := by
  rw [listing, List.filter_append, List.flatMap_append, listing, listing]

theorem listing_singleton (dp : Nat) (names : DirDone → List Path) (d : DirDone) :
    listing dp names [d] = if d.request = .cfsReaddir dp then names d else [] := by
  by_cases h : d.request = .cfsReaddir dp <;> simp [listing, h]

/-- What a callback gets from the stream `dp` it hands on. -/
theorem returned_eq_listing
    (htr : Prog.Traced dirEnv (d.request.prog cfg fuel) s d.trace d.status s') :
    d.trace.filterMap (DirEv.returned dp) = listing dp DirDone.offered [d] := by
  rw [listing_singleton]
  by_cases hreq : d.request = .cfsReaddir dp
  · rw [if_pos hreq]
    rw [hreq] at htr
    exact (traced_cfsReaddir htr).returned.symm
  · rw [if_neg hreq, List.filterMap_eq_nil_iff]
    rintro ⟨op, c, s₁⟩ he
    have hop := htr.only (only_dirProg d.request) _ he
    cases op with
    | readdir p =>
        refine if_neg fun hp => hreq ?_
        generalize d.request = q at hop
        cases q with
        | cfsReaddir p' => rw [← hp, show p = p' from hop]
        | cfsOpendir _ | cfsReleasedir _ | cfsFsyncdir _ _ => exact hop.elim
    | opendir _ | closedir _ | filler _ | errno => rfl

theorem Reads.run (h : Reads dp i a k s) (hrun : DirRun cfg ds s s')
    (hkeep : ∀ d ∈ ds, d.request ≠ .cfsReleasedir dp) (hstay : ∀ d ∈ ds, Stays i a d.trace) :
    Reads dp i a (k + (listing dp DirDone.offered ds).count a) s' := by
  induction ds generalizing k s with
  | nil =>
      obtain rfl : s' = s := hrun
      exact h
  | cons d ds ih =>
      obtain ⟨fuel, s₁, htr, hrest⟩ := hrun
      have hd := (h.traced (hkeep d List.mem_cons_self) (hstay d List.mem_cons_self) htr).1
      rw [returned_eq_listing htr] at hd
      have hds := ih hd hrest (fun d' hd' => hkeep d' (List.mem_cons_of_mem _ hd'))
        fun d' hd' => hstay d' (List.mem_cons_of_mem _ hd')
      rw [show d :: ds = [d] ++ ds from rfl, listing_append, List.count_append, ← Nat.add_assoc]
      exact hds

/-- What the calls of `cfs_readdir` on the stream `dp` have made of the entry `a`. -/
structure Delivered (dp : Nat) (a : Path) (ds : List DirDone) : Prop where
  once : (listing dp DirDone.accepted ds).count a + (listing dp DirDone.refused ds).count a ≤ 1
  whole : ∀ before d after, ds = before ++ d :: after → d.request = .cfsReaddir dp → d.Whole →
    (listing dp DirDone.accepted (before ++ [d])).count a +
        (listing dp DirDone.refused (before ++ [d])).count a = 1 ∧
      a ∉ listing dp DirDone.offered after
  status : ∀ d ∈ ds, d.request = .cfsReaddir dp →
    (∃ name, d.refused = [name] ∧ d.status = -(ENOMEM : Nat)) ∨
      d.refused = [] ∧ (d.offered ≠ [] → d.status = 0)

theorem DirRun.handed (hrun : DirRun cfg ds s s') (hd : d ∈ ds)
    (hreq : d.request = .cfsReaddir dp) : Handed dp d.trace d.status := by
  obtain ⟨ds₁, ds₂, rfl⟩ := List.append_of_mem hd
  obtain ⟨s₁, -, fuel, s₂, htr, -⟩ := DirRun.append.mp hrun
  rw [hreq] at htr
  exact traced_cfsReaddir htr

/-- Names are accepted or refused. -/
theorem DirRun.count_offered (hrun : DirRun cfg ds s s') :
    (listing dp DirDone.offered ds).count a =
      (listing dp DirDone.accepted ds).count a + (listing dp DirDone.refused ds).count a := by
  induction ds generalizing s with
  | nil => rfl
  | cons d ds ih =>
      have hhanded : d.request = .cfsReaddir dp → Handed dp d.trace d.status :=
        hrun.handed List.mem_cons_self
      obtain ⟨fuel, s₁, -, hrest⟩ := hrun
      rw [show d :: ds = [d] ++ ds from rfl]
      simp only [listing_append, List.count_append, listing_singleton, ih hrest]
      by_cases hreq : d.request = .cfsReaddir dp
      · simp only [if_pos hreq, DirDone.offered, DirDone.accepted, DirDone.refused,
          (hhanded hreq).split, List.count_append]
        omega
      · simp only [if_neg hreq, List.count_nil]
        omega

theorem errno_now (s : DirState) (c : DirChoice) : (s.now c).errno = s.errno := by
  rw [DirState.now]
  generalize c.trees = trees
  induction trees generalizing s with
  | nil => rfl
  | cons nas trees ih => exact ih (s.renew nas)

theorem logError_ne (hs : s.errno ≠ 0) (h : Prog.Traced dirEnv logError s tr r s') : r ≠ 0 := by
  rw [logError] at h
  obtain ⟨tr₁, tr₂, errno, s₁, rfl, hcall, h⟩ := Prog.traced_bind.mp h
  obtain ⟨c, -, rfl, rfl, rfl⟩ := traced_dirCall.mp hcall
  obtain ⟨-, rfl, -⟩ := Prog.traced_pure.mp h
  cases herr : c.err with
  | none => simpa [dirHandle, herr, errno_now] using hs
  | some e => simp [dirHandle, herr]

theorem DirState.opendir_cases (c : DirChoice) (s : DirState) (path : Path) :
    (∃ e, s.opendir c path = (0, s.fail e)) ∨ ∃ i, s.nas.follow Fs.maxLinks path = .ok i ∧
      s.opendir c path = (s.nextDir + 1, { s with
        streams := Function.update s.streams (s.nextDir + 1) (some ⟨i, .start (s.nas.entries i)⟩)
        nextDir := s.nextDir + 1 }) := by
  unfold DirState.opendir
  split
  · exact Or.inl ⟨_, rfl⟩
  · exact Or.inl ⟨_, rfl⟩
  · next i _ hi =>
      split
      · exact Or.inl ⟨_, rfl⟩
      · exact Or.inr ⟨i, hi, rfl⟩

/-- After `cfs_opendir` the stream has returned nothing of the directory. -/
theorem Reads.of_cfsOpendir {path : Path}
    (h : Prog.Traced dirEnv (cfsOpendir cfg path) s tr (0, dp) s')
    (hi : s'.nas.follow Fs.maxLinks (cfg.fullNasPath path) = .ok i) (ha : a ∈ s'.nas.entries i) :
    Reads dp i a 0 s' := by
  rw [cfsOpendir] at h
  obtain ⟨tr₁, tr₂, dp', s₁, rfl, hopen, h⟩ := Prog.traced_bind.mp h
  obtain ⟨c, -, rfl, hdp', hs₁⟩ := traced_dirCall.mp hopen
  rcases (s.now c).opendir_cases c (cfg.fullNasPath path) with ⟨e, hfail⟩ | ⟨j, hj, hok⟩
  · obtain rfl : dp' = 0 := hdp'.trans (congrArg Prod.fst hfail)
    obtain rfl : s₁ = (s.now c).fail e := hs₁.trans (congrArg Prod.snd hfail)
    rw [if_pos rfl] at h
    obtain ⟨tr₃, tr₄, ret, s₂, rfl, hlog, h⟩ := Prog.traced_bind.mp h
    obtain ⟨-, hret, -⟩ := Prog.traced_pure.mp h
    exact absurd (Prod.mk.inj hret).1.symm (logError_ne (PNat.ne_zero e) hlog)
  · obtain rfl : dp' = (s.now c).nextDir + 1 := hdp'.trans (congrArg Prod.fst hok)
    obtain rfl := hs₁.trans (congrArg Prod.snd hok)
    rw [if_neg (Nat.succ_ne_zero _)] at h
    obtain ⟨-, hret, rfl⟩ := Prog.traced_pure.mp h
    obtain rfl : dp = (s.now c).nextDir + 1 := (Prod.mk.inj hret).2
    obtain rfl : i = j := Except.ok.inj (hi.symm.trans hj)
    exact ⟨ha, le_refl _, _, Function.update_self _ _ _, DirStream.returned_start ha⟩

/-- **A directory is listed once.**  Of an entry that stays from `cfs_opendir` on, all calls
    of `cfs_readdir` through the handle hand out one copy at most; once a call has come to
    the end it has been handed out, if not to a `filler` without room, and no later call
    hands it out again. -/
theorem directory_listed_once {path : Path}
    (hopen : Prog.Traced dirEnv (cfsOpendir cfg path) s tr (0, dp) s₀)
    (hi : s₀.nas.follow Fs.maxLinks (cfg.fullNasPath path) = .ok i)
    (ha : a ∈ s₀.nas.entries i) (hrun : DirRun cfg ds s₀ s')
    (hkeep : ∀ d ∈ ds, d.request ≠ .cfsReleasedir dp) (hstay : ∀ d ∈ ds, Stays i a d.trace) :
    Delivered dp a ds := by
  have hstart := Reads.of_cfsOpendir hopen hi ha
  have hle : (listing dp DirDone.offered ds).count a ≤ 1 := by
    obtain ⟨d, -, hret⟩ := (hstart.run hrun hkeep hstay).stream
    simpa using hret.le_one
  refine ⟨hrun.count_offered ▸ hle, ?_, fun d hd hreq => ?_⟩
  · rintro before d after rfl hreq ⟨hrefused, herr⟩
    rw [show before ++ d :: after = (before ++ [d]) ++ after by simp] at hrun hle
    obtain ⟨s₂, huntil, -⟩ := DirRun.append.mp hrun
    obtain ⟨s₁, hbefore, fuel, s₂', htr, rfl⟩ := DirRun.append.mp huntil
    have hone : (listing dp DirDone.offered (before ++ [d])).count a = 1 := by
      have hreads := hstart.run hbefore (fun d' hd' => hkeep d' (List.mem_append_left _ hd'))
        fun d' hd' => hstay d' (List.mem_append_left _ hd')
      rw [listing_append, List.count_append, ← returned_eq_listing htr]
      rw [hreq] at htr
      have hwhole := hreads.whole (hstay d (by simp)) htr hrefused
        fun e he hop => herr e he ⟨dp, hop⟩
      omega
    rw [listing_append, List.count_append, hone] at hle
    exact ⟨huntil.count_offered ▸ hone, List.count_eq_zero.mp (by omega)⟩
  · rcases (hrun.handed hd hreq).ends with hend | ⟨hnone, hzero, -⟩
    · exact Or.inl hend
    · exact Or.inr ⟨hnone, hzero⟩

end Entry

-- ============================================================================
-- The end of a call
-- ============================================================================

/-- The tree of the NAS stands still while the call lasts. -/
def stillEnv : Env DirCall DirCall.Reply DirState DirChoice where
  handle := dirHandle
  allow c op s := dirAllow c op s ∧ c.trees = []

/-- How many entries the stream may still return. -/
def DirState.ahead (s : DirState) (dp : Nat) : Nat :=
  (s.streams dp).elim 0 fun o => o.stream.may.length

section Still

variable {s : DirState} {c : DirChoice} {fuel dp : Nat}

/-- A stream that returns an entry has one less ahead. -/
theorem DirState.ahead_readdir {b : Path}
    (hallow : c.err = none → ∀ o ∈ s.streams dp, o.MayReturn c.entry)
    (hb : (s.readdir c dp).1 = some b) : (s.readdir c dp).2.ahead dp < s.ahead dp := by
  unfold DirState.readdir at hb ⊢
  split at hb
  · exact absurd hb (by simp)
  · next herr ho hentry =>
      have hmay := hallow herr _ ho
      rw [hentry] at hmay
      simp only [DirState.ahead, Function.update_self, ho, Option.elim_some]
      exact List.length_filter_lt_length_iff_exists.mpr ⟨_, hmay, by simp⟩
  · exact absurd hb (by simp)

theorem wp_dirCall {op : DirCall} {Q : op.Reply → DirState → Prop} :
    Prog.wp stillEnv (Dir.call op) Q s ↔ ∀ c, dirAllow c op s → c.trees = [] →
      Q (dirHandle c op s).1 (dirHandle c op s).2 := by
  constructor
  · exact fun h c hallow hstill => (h c ⟨hallow, hstill⟩).2
  · exact fun h c hc => ⟨trivial, h c hc.1 hc.2⟩

theorem returns_fillDir {de : Path} (h : s.ahead dp < fuel) :
    Prog.wp stillEnv (fillDir fuel dp de) (fun _ _ => True) s := by
  induction fuel generalizing s de with
  | zero => exact absurd h (Nat.not_lt_zero _)
  | succ fuel ih =>
      rw [fillDir, Prog.wp_bind, wp_dirCall]
      intro c _ hstill
      have hsame : (dirHandle c (.filler de) s).2 = s := by simp [dirHandle, DirState.now, hstill]
      rw [hsame, Prog.wp_ite]
      split
      · trivial
      · rw [Prog.wp_bind, wp_dirCall]
        intro c' hallow hstill'
        have hnow : s.now c' = s := by simp [DirState.now, hstill']
        simp only [dirAllow, hnow] at hallow
        simp only [dirHandle, hnow]
        cases hde : (s.readdir c' dp).1 with
        | none => trivial
        | some b => exact ih (by have := DirState.ahead_readdir hallow hde; omega)

/-- **`cfs_readdir` returns** while the directory stands still, whatever `filler` does. -/
theorem readdir_returns (h : s.ahead dp ≤ fuel) :
    Prog.wp stillEnv (cfsReaddir fuel dp) (fun _ _ => True) s := by
  rw [cfsReaddir, Prog.wp_bind, wp_dirCall]
  intro c hallow hstill
  have hnow : s.now c = s := by simp [DirState.now, hstill]
  simp only [dirAllow, hnow] at hallow
  simp only [dirHandle, hnow]
  cases hde : (s.readdir c dp).1 with
  | none =>
      rw [logError, Prog.wp_bind, wp_dirCall]
      exact fun _ _ _ => trivial
  | some b =>
      exact returns_fillDir (Nat.lt_of_lt_of_le (DirState.ahead_readdir hallow hde) h)

end Still

/-- The callbacks `qs` along given choices. -/
def runDirs (cfg : Config) (fuel : Nat) :
    List (DirRequest × (Nat → DirChoice)) → DirState → Option (List DirDone × DirState)
  | [], s => some ([], s)
  | (q, cs) :: qs, s => do
    let x ← Prog.runTraced dirEnv cs (q.prog cfg fuel) s
    let y ← runDirs cfg fuel qs x.2.2
    some (⟨q, x.1, x.2.1⟩ :: y.1, y.2)

theorem dirRun_of_runDirs {cfg : Config} {fuel : Nat} {qs : List (DirRequest × (Nat → DirChoice))}
    {s s' : DirState} {ds : List DirDone} (h : runDirs cfg fuel qs s = some (ds, s')) :
    DirRun cfg ds s s' := by
  induction qs generalizing s ds with
  | nil =>
      obtain ⟨rfl, rfl⟩ := Prod.mk.inj (Option.some.inj h)
      rfl
  | cons q qs ih =>
      obtain ⟨x, hx, h⟩ := Option.bind_eq_some_iff.mp h
      obtain ⟨y, hy, h⟩ := Option.bind_eq_some_iff.mp h
      obtain ⟨rfl, rfl⟩ := Prod.mk.inj (Option.some.inj h)
      exact ⟨fuel, x.2.2, Prog.traced_of_runTraced hx, ih hy⟩

/-- A directory with one file. -/
def sampleDir : DirState where
  nas :=
    { names := [("/n/d/a".toList, 2), ("/n/d".toList, 1)]
      inode := fun i => { kind := if i = 1 then .dir else .reg, mode := 493, mtime := 0 }
      nextIno := 3 }
  streams := fun _ => none
  nextDir := 0
  errno := 0

def sampleDirConfig : Config := ⟨"/n".toList, "/c".toList, 1, 4⟩

/-- A listing whose second name does not fit, the rest of it, and one more. -/
def sampleListing : List (DirRequest × (Nat → DirChoice)) :=
  [(.cfsReaddir 1, fun n => [{ entry := some ['.'] }, {}, { entry := some ['.', '.'] },
      { full := 1 }].getD n {}),
   (.cfsReaddir 1, fun n => [{ entry := some ['a'] }].getD n {}),
   (.cfsReaddir 1, fun _ => {})]

/-- The directory is open. -/
def sampleDirOpened : DirState :=
  { sampleDir with
    streams := Function.update sampleDir.streams 1 (some ⟨1, .start (sampleDir.nas.entries 1)⟩)
    nextDir := 1 }

theorem directory_listed_once_twice : ∃ ds s', DirRun sampleDirConfig ds sampleDirOpened s' ∧
    ds.map DirDone.status = [-12, 0, 0] ∧ Delivered 1 ['a'] ds := by
  have hopen : Prog.Traced dirEnv (cfsOpendir sampleDirConfig "/d".toList) sampleDir
      [⟨.opendir "/n/d".toList, {}, sampleDir⟩] (0, 1) sampleDirOpened :=
    Prog.traced_of_runTraced (show Prog.runTraced dirEnv (fun _ => {}) _ _ = some _ from rfl)
  have hlisted : (runDirs sampleDirConfig 5 sampleListing sampleDirOpened).any (fun y =>
      decide (y.1.map DirDone.status = [-12, 0, 0]) && y.1.all fun d =>
        decide (d.request = .cfsReaddir 1) && d.trace.all (·.choice.trees.isEmpty)) = true := by
    decide
  obtain ⟨⟨ds, s'⟩, hds, hall⟩ := (Option.any_eq_true _ _).mp hlisted
  simp only [Bool.and_eq_true, decide_eq_true_eq, List.all_eq_true, List.isEmpty_iff] at hall
  have hrun := dirRun_of_runDirs hds
  refine ⟨ds, s', hrun, hall.1, directory_listed_once hopen rfl (by decide) hrun ?_ ?_⟩
  · intro d hd
    simp [(hall.2 d hd).1]
  · intro d hd e he nas hnas
    rw [(hall.2 d hd).2 e he] at hnas
    exact absurd hnas List.not_mem_nil

end CacheFs
