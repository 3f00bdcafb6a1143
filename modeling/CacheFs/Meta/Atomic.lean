/-
  CacheFs.Meta.Atomic

  What a mutator that returns -1 has left behind.

  Every statement of `meta.c` commits by itself, and no function takes back what
  its earlier statements have done.  A failure is harmless as long as nothing has
  been committed before it; `HalfDone` names the failures that come later, from the
  answers of the environment and the state before the call, and `atomic_iff` says
  that they are all of them.  Answers are numbered from 0 in the order in which the
  function issues its calls, the accesses to the counters included.
-/

import CacheFs.Meta.Account
import CacheFs.Meta.Cold

namespace CacheFs

open CacheFs.Effect

-- ============================================================================
-- Statements that change something
-- ============================================================================

namespace Db

variable {db : Db} {blkOffset : Nat} {filename : FileName}

theorem insertDatablock_ne {now : Int} {db' : Db}
    (h : db.insertDatablock blkOffset filename now = some db') : db' ≠ db := by
  obtain ⟨f, -, -, -, rfl⟩ := insertDatablock_eq_some h
  intro heq
  have hlen := congrArg (·.datablocks.length) heq
  simp at hlen

/-- Only a block that is recorded can be deleted. -/
theorem deleteDatablock_eq_iff :
    db.deleteDatablock blkOffset filename = db ↔ db.selectBlockId blkOffset filename = false := by
  unfold deleteDatablock selectBlockId
  cases db.fileId? filename with
  | none => simp
  | some id =>
      simp only [List.any_eq_false, decide_eq_true_eq]
      constructor
      · intro h b hb
        have hmem := congrArg (b ∈ ·.datablocks) h
        simp only [List.mem_filter, hb, true_and, eq_iff_iff, iff_true, decide_eq_true_eq] at hmem
        exact hmem
      · intro h
        have hall : db.datablocks.filter (fun b =>
            ¬(b.blkStartOffset = blkOffset ∧ b.fileId = id)) = db.datablocks :=
          List.filter_eq_self.mpr fun b hb => decide_eq_true (h b hb)
        simp only [hall]

end Db

-- ============================================================================
-- Failures after a commit
-- ============================================================================

/-- Statements have been committed, and a later one fails. -/
def MetaCall.HalfDone (cs : Nat → Choice) (db : Db) : MetaCall → Prop
  -- the INSERT is carried out, the UPDATE is not
  | .insertBlock filename blkOffset => (cs 0).err = none ∧
      (db.insertDatablock blkOffset filename (cs 0).now).isSome ∧ (cs 2).err ≠ none
  -- the DELETE removes a row, the UPDATE is not carried out
  | .deleteBlock filename blkOffset => (cs 0).err = none ∧
      db.selectBlockId blkOffset filename = true ∧ (cs 2).err ≠ none
  -- the size has been taken off the counter, the file is not deleted
  | .deleteFile filename => (cs 0).err = none ∧
      ¬ (2 : Int) ^ 64 ∣ (db.localSize? filename).getD 0 ∧
      ((cs 2).err ≠ none ∨ (cs 3).err ≠ none)
  | _ => False

/-- A call that returns -1 has changed neither the tables nor the counter. -/
def MetaCall.Atomic (q : MetaCall) (cs : Nat → Choice) (w : World) : Prop :=
  ∀ w', Prog.run (env anyOutcome False) cs q.prog w = some (-1, w') →
    w'.db = w.db ∧ w'.metadata.cacheUsedSize = w.metadata.cacheUsedSize

section Atomic

variable {cs : Nat → Choice} {w : World}

theorem wrap64_sub_eq_iff {n : Nat} (h : n < 2 ^ 64) (x : Int) :
    wrap64 (n + -x) = n ↔ (2 : Int) ^ 64 ∣ x := by
  unfold wrap64
  omega

theorem World.sql_err {c : Choice} (h : c.err ≠ none) (r : Option Db) :
    w.sql c r = (.error, w) := by
  unfold World.sql
  split
  · exact absurd ‹_› h
  · rfl

namespace MetaCall

theorem atomic_insertBlock (filename : FileName) (blkOffset : Nat) :
    (insertBlock filename blkOffset).Atomic cs w ↔
      ¬ (insertBlock filename blkOffset).HalfDone cs w.db := by
  simp only [Atomic, HalfDone, prog, CacheFs.insertBlock, ask, Prog.bind_def, Prog.bind, Prog.run,
    env, handle]
  by_cases h0 : (cs 0).err = none
  · rcases Option.eq_none_or_eq_some (w.db.insertDatablock blkOffset filename (cs 0).now) with
      hi | ⟨db, hi⟩
    · simp [hi, World.sql_none, Prog.pure_def, Prog.run]
    · have hne : db ≠ w.db := Db.insertDatablock_ne hi
      simp only [hi, World.sql_some h0, tests_done, Prog.run, handle]
      by_cases h2 : (cs 2).err = none
      · simp [World.sql_some h2, Prog.pure_def, finalizeOk, Prog.run, handle, h2]
      · simp only [World.sql_err h2]
        simp [Prog.pure_def, Prog.run, h0, h2]
        exact fun h => absurd h hne
  · simp [World.sql_err h0, Prog.pure_def, Prog.run, h0]

theorem atomic_deleteBlock (filename : FileName) (blkOffset : Nat) :
    (deleteBlock filename blkOffset).Atomic cs w ↔
      ¬ (deleteBlock filename blkOffset).HalfDone cs w.db := by
  simp only [Atomic, HalfDone, prog, CacheFs.deleteBlock, ask, Prog.bind_def, Prog.bind, Prog.run,
    env, handle]
  by_cases h0 : (cs 0).err = none
  · simp only [World.sql_some h0, tests_done, Prog.run, handle]
    by_cases h2 : (cs 2).err = none
    · simp [World.sql_some h2, Prog.pure_def, finalizeOk, Prog.run, handle, h2]
    · simp only [World.sql_err h2]
      simp [Prog.pure_def, Prog.run, h0, h2]
      exact Db.deleteDatablock_eq_iff
  · simp [World.sql_err h0, Prog.pure_def, Prog.run, h0]

/-- What is left of `delete_file` once the SELECT has been stepped twice. -/
def deleteRow (filename : FileName) (ret : Rc) : CfsM Int :=
  if ret ≠ .done then pure (-1)
  else if !finalizeOk ret then pure (-1)
  else do
    let ret ← ask (.deleteFile filename)
    if ret ≠ .done then pure (-1) else if !finalizeOk ret then pure (-1) else pure 0

/-- It returns -1 exactly when a statement has failed, and then it has changed
    nothing. -/
theorem run_deleteRow (filename : FileName) (ret : Rc) :
    Prog.run (env anyOutcome False) cs (deleteRow filename ret) w =
      if ret ≠ .done ∨ (cs 0).err ≠ none then some (-1, w)
      else some (0, { w with metadata := { w.metadata with db := w.db.deleteFile filename } }) := by
  unfold deleteRow
  cases ret with
  | row => simp [Prog.pure_def, Prog.run]
  | error => simp [Prog.pure_def, Prog.run]
  | done =>
      simp only [tests_done, ask, Prog.bind_def, Prog.bind, Prog.run, env, handle]
      by_cases h : (cs 0).err = none
      · simp [World.sql_some h, finalizeOk, Prog.pure_def, Prog.run, h]
      · simp [World.sql_err h, Prog.pure_def, Prog.run, h]

/-- `delete_file` with its last part set apart. -/
theorem deleteFile_eq (filename : FileName) :
    CacheFs.deleteFile filename = .call (.selectLocalSize filename) fun first =>
      .call (.addCacheUsedSize (-first.2)) fun _ =>
        if first.1 = .row then .call .stepSelect (deleteRow filename)
        else .call (.selectLocalSize filename) fun again => deleteRow filename again.1 := by
  unfold CacheFs.deleteFile
  simp only [ask, Prog.bind_def, Prog.bind]
  congr 1

/-- Where no size has been read, `delete_file` fails without a change. -/
theorem run_deleteFile_again {w' : World} (filename : FileName)
    (h : Prog.run (env anyOutcome False) cs (.call (.selectLocalSize filename) fun again =>
      deleteRow filename again.1) w = some (-1, w')) :
    w' = w := by
  rw [Prog.run, run_deleteRow] at h
  split at h
  · exact (Prod.mk.inj (Option.some.inj h)).2.symm
  · exact absurd (Prod.mk.inj (Option.some.inj h)).1 (by decide)

/-- Where one has been read, it fails when a later statement does. -/
theorem run_deleteFile_row (cs : Nat → Choice) (w w' : World) (filename : FileName) :
    Prog.run (env anyOutcome False) cs (.call .stepSelect (deleteRow filename)) w = some (-1, w') ↔
      w' = w ∧ ((cs 0).err ≠ none ∨ (cs 1).err ≠ none) := by
  rw [Prog.run, run_deleteRow]
  by_cases h0 : (cs 0).err = none
  · by_cases h1 : (cs 1).err = none
    · simp [env, handle, World.select_eq h0, h0, h1]
    · simp [env, handle, h1, eq_comm]
  · have hrow : World.select (cs 0) false = .error := by
      rw [World.select, Option.isSome_iff_ne_none.mpr h0, if_pos rfl]
    simp [env, handle, hrow, h0, eq_comm]

theorem run_deleteFile_of_size {w' : World} {filename : FileName} {size : Int}
    (h0 : (cs 0).err = none) (hs : w.db.localSize? filename = some size) :
    Prog.run (env anyOutcome False) cs (CacheFs.deleteFile filename) w = some (-1, w') ↔
      w' = { w with metadata := { w.metadata with
        cacheUsedSize := wrap64 (w.metadata.cacheUsedSize + -size) } } ∧
      ((cs 2).err ≠ none ∨ (cs 3).err ≠ none) := by
  have hrest := run_deleteFile_row (fun n => cs (n + 1 + 1)) { w with metadata := { w.metadata with
    cacheUsedSize := wrap64 (w.metadata.cacheUsedSize + -size) } } w' filename
  rw [deleteFile_eq, Prog.run, Prog.run]
  simpa [env, handle, h0, hs, World.select_eq h0] using hrest

theorem run_deleteFile_of_no_size {w' : World} {filename : FileName}
    (hused : w.metadata.cacheUsedSize < 2 ^ 64)
    (h : (cs 0).err ≠ none ∨ w.db.localSize? filename = none)
    (hrun : Prog.run (env anyOutcome False) cs (CacheFs.deleteFile filename) w = some (-1, w')) :
    w' = w := by
  rw [deleteFile_eq, Prog.run, Prog.run] at hrun
  have hagain : Prog.run (env anyOutcome False) (fun n => cs (n + 1 + 1))
      (.call (.selectLocalSize filename) fun again => deleteRow filename again.1) w =
        some (-1, w') := by
    by_cases h0 : (cs 0).err = none
    · have hs := h.resolve_left (not_not_intro h0)
      simpa [env, handle, h0, hs, World.select_eq h0, wrap64_of_nat hused] using hrun
    · have hsome : (cs 0).err.isSome = true := Option.isSome_iff_ne_none.mpr h0
      simpa [env, handle, World.select, hsome, h0, wrap64_of_nat hused] using hrun
  exact run_deleteFile_again filename hagain

theorem atomic_deleteFile (hused : w.metadata.cacheUsedSize < 2 ^ 64) (filename : FileName) :
    (deleteFile filename).Atomic cs w ↔ ¬ (deleteFile filename).HalfDone cs w.db := by
  unfold Atomic HalfDone
  by_cases h0 : (cs 0).err = none
  · rcases Option.eq_none_or_eq_some (w.db.localSize? filename) with hs | ⟨size, hs⟩
    · refine iff_of_true (fun w' hrun => ?_) fun h => h.2.1 ?_
      · rw [run_deleteFile_of_no_size hused (Or.inr hs) hrun]
        exact ⟨rfl, rfl⟩
      · rw [hs]
        exact Int.dvd_zero _
    · have hdvd := wrap64_sub_eq_iff hused size
      simp only [prog, run_deleteFile_of_size h0 hs, hs, Option.getD_some, h0, true_and]
      constructor
      · intro h hhalf
        exact hhalf.1 (hdvd.mp (h _ ⟨rfl, hhalf.2⟩).2)
      · rintro h w' ⟨rfl, hfail⟩
        exact ⟨rfl, hdvd.mpr (not_not.mp fun hne => h ⟨hne, hfail⟩)⟩
  · refine iff_of_true (fun w' hrun => ?_) fun h => h0 h.1
    rw [run_deleteFile_of_no_size hused (Or.inl h0) hrun]
    exact ⟨rfl, rfl⟩

/-- A function that always returns 0. -/
theorem atomic_of_zero {q : MetaCall} {p : CfsM Unit} (hq : q.prog = p >>= fun _ => pure 0) :
    q.Atomic cs w := by
  intro w' hrun
  rw [hq] at hrun
  have halong : Prog.Along (env anyOutcome False) cs (p >>= fun _ => pure (0 : Int)) w :=
    Prog.along_of_allow (fun _ _ _ => trivial) _ _
  have he := Prog.exec_of_run halong hrun
  obtain ⟨tr, htr⟩ := Prog.exec_traced he
  obtain ⟨-, -, -, -, -, -, -, hret, -⟩ := Prog.traced_bind.mp htr
  exact absurd hret (by decide)

/-- A statement that is not done has changed nothing. -/
theorem run_tests {c : Choice} {r : Option Db} {w' : World}
    (hrun : Prog.run (env anyOutcome False) cs
      (if (w.sql c r).1 ≠ .done then pure (-1)
        else if !finalizeOk (w.sql c r).1 then pure (-1) else pure 0 : CfsM Int)
      (w.sql c r).2 = some (-1, w')) : w' = w := by
  by_cases hc : c.err = none
  · cases r with
    | none =>
        rw [World.sql_none] at hrun
        exact (Prod.mk.inj (Option.some.inj hrun)).2.symm
    | some db =>
        rw [World.sql_some hc] at hrun
        exact absurd (Prod.mk.inj (Option.some.inj hrun)).1 (by decide)
  · rw [World.sql_err hc] at hrun
    exact (Prod.mk.inj (Option.some.inj hrun)).2.symm

end MetaCall

/-- A mutator that returns -1 has left the metadata as it was, unless one of its
    later statements has failed after an earlier one had been committed. -/
theorem atomic_iff (q : MetaCall) (hused : w.metadata.cacheUsedSize < 2 ^ 64) :
    q.Atomic cs w ↔ ¬ q.HalfDone cs w.db := by
  cases q with
  | createFile filename remoteSize =>
      refine iff_of_true (fun w' hrun => ?_) id
      rw [MetaCall.run_tests hrun]
      exact ⟨rfl, rfl⟩
  | insertBlock filename blkOffset => exact MetaCall.atomic_insertBlock filename blkOffset
  | insertBlocks filename blkArr =>
      exact iff_of_true (MetaCall.atomic_of_zero rfl) id
  | writeBlks filename blkArr =>
      exact iff_of_true (MetaCall.atomic_of_zero (bind_assoc ..).symm) id
  | deleteBlock filename blkOffset => exact MetaCall.atomic_deleteBlock filename blkOffset
  | deleteBlocks filename blkArr => exact iff_of_true (MetaCall.atomic_of_zero rfl) id
  | deleteFile filename => exact MetaCall.atomic_deleteFile hused filename
  | updateBlkTime filename blkOffset =>
      refine iff_of_true (fun w' hrun => ?_) id
      rw [MetaCall.run_tests hrun]
      exact ⟨rfl, rfl⟩

end Atomic

/-- A state with one file of one block. -/
def oneBlock : World :=
  { World.init .empty .empty with
    metadata :=
      { db := { files := [⟨1, ['/', 'f'], 10, 4⟩], datablocks := [⟨1, 0, 0, 1⟩] }
        cacheUsedSize := 4
        metaBlockSize := 4 } }

/-- The statement with index `n` meets an I/O error. -/
def failAt (n : Nat) : Nat → Choice := fun i => if i = n then { err := some Posix.EIO } else {}

/-- The INSERT for a second block fails. -/
theorem atomic_iff_refused :
    (∃ w', Prog.run (env anyOutcome False) (failAt 0) (MetaCall.insertBlock ['/', 'f'] 4).prog
      oneBlock = some (-1, w')) ∧
      (MetaCall.insertBlock ['/', 'f'] 4).Atomic (failAt 0) oneBlock := by
  refine ⟨⟨_, rfl⟩, (atomic_iff _ (by decide)).mpr ?_⟩
  rintro ⟨hfirst, -, -⟩
  exact absurd hfirst (by decide)

/-- When the UPDATE of `insert_block` fails, the row is there and not in the sum. -/
theorem not_atomic : ¬ ∀ (q : MetaCall) (cs : Nat → Choice) (w : World), w.db.WF →
    (w.metadata.cacheUsedSize : Int) = w.db.total → q.Atomic cs w := by
  intro h
  have hatomic := h (.insertBlock ['/', 'f'] 4) (failAt 2) oneBlock (by constructor <;> decide)
    (by decide) _ rfl
  have hlen := congrArg (·.datablocks.length) hatomic.1
  exact absurd hlen (by decide)

end CacheFs
