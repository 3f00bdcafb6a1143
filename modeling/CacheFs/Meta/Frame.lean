/-
  CacheFs.Meta.Frame

  What a call can change.

  A call on names or files replaces at most the tree of the side it is about
  (`handle_onFiles`).  Only SQL statements and the updates of the two counters reach
  the metadata, so the outcomes of all other calls do not matter to it.
-/

import CacheFs.Meta.Spec

namespace CacheFs

open CacheFs.Effect
open CacheFs.Posix

-- ============================================================================
-- Calls on names and files
-- ============================================================================

/-- The calls that change names or files and nothing else. -/
def Call.onFiles : Call → Bool
  | .pwrite _ _ _ | .truncate _ _ _ | .ftruncate _ _ | .utime _ _ _ | .chmod _ _ _ | .chown _ _ _ _
  | .mkdir _ _ _ | .mknod _ _ _ _ | .symlink _ _ _ | .link _ _ _ | .unlink _ _ | .rmdir _ _
  | .rename _ _ _ | .system _ => true
  | _ => false

/-- The side such a call is about. -/
def Call.side? (w : World) : Call → Option Side
  | .pwrite fd _ _ | .ftruncate fd _ => (w.fds fd).map (·.side)
  | .truncate side _ _ | .utime side _ _ | .chmod side _ _ | .chown side _ _ _ | .mkdir side _ _
  | .mknod side _ _ _ | .symlink side _ _ | .link side _ _ | .unlink side _ | .rmdir side _
  | .rename side _ _ => some side
  | .system _ => some .cache
  | _ => none

section OnFiles

variable {c : Choice} {w : World}

/-- A command changes nothing, or the time of the file it digs. -/
theorem World.system_cases (command : List Char) : (w.system c command).2 = w ∨
    ∃ i, w.digIno command = some i ∧
      (w.system c command).2 = { w with cache := w.cache.setTime i c.now } := by
  unfold World.system
  split
  · exact Or.inl rfl
  · exact Or.inl rfl
  · next i _ hi =>
      split
      · exact Or.inr ⟨i, hi, rfl⟩
      · exact Or.inl rfl

/-- All these calls can do to the world: nothing, or replace the tree of their side. -/
theorem handle_onFiles {op : Call} (hop : op.onFiles = true) : (handle c op w).2 = w ∨
    ∃ side fs, op.side? w = some side ∧ (handle c op w).2 = w.setFs side fs := by
  have hname : ∀ side r, (w.nameCall c side r).2 = w ∨
      ∃ side' fs, some side = some side' ∧ (w.nameCall c side r).2 = w.setFs side' fs := by
    intro side r
    unfold World.nameCall
    split
    · exact Or.inl rfl
    · exact Or.inl rfl
    · exact Or.inr ⟨side, _, rfl, rfl⟩
  cases op
  case pwrite fd buf off =>
    simp only [handle, World.pwrite, Call.side?]
    split
    · exact Or.inl rfl
    · exact Or.inl rfl
    · next f _ hf =>
        rw [hf]
        split
        · exact Or.inl rfl
        · split
          · exact Or.inl rfl
          · exact Or.inr ⟨f.side, _, rfl, rfl⟩
  case ftruncate fd size =>
    simp only [handle, World.ftruncate, Call.side?]
    split
    · exact Or.inl rfl
    · exact Or.inl rfl
    · next f _ hf =>
        rw [hf]
        split
        · exact Or.inl rfl
        · exact Or.inr ⟨f.side, _, rfl, rfl⟩
  case truncate side path size =>
    simp only [handle, World.truncate, Call.side?]
    split
    · exact Or.inl rfl
    · exact Or.inl rfl
    · split
      · exact Or.inl rfl
      · split
        · exact Or.inl rfl
        · exact Or.inr ⟨side, _, rfl, rfl⟩
  case utime side path modtime =>
    simp only [handle, World.utime, Call.side?]
    split
    · exact Or.inl rfl
    · exact Or.inl rfl
    · exact Or.inr ⟨side, _, rfl, rfl⟩
  case chmod side path mode =>
    simp only [handle, World.chmod, Call.side?]
    split
    · exact Or.inl rfl
    · exact Or.inl rfl
    · exact Or.inr ⟨side, _, rfl, rfl⟩
  case chown side path uid gid =>
    simp only [handle, World.chown, Call.side?]
    split
    · exact Or.inl rfl
    · exact Or.inl rfl
    · exact Or.inr ⟨side, _, rfl, rfl⟩
  case mknod side path kind mode =>
    simp only [handle, World.mknod, Call.side?]
    split
    · exact Or.inl rfl
    · exact Or.inl rfl
    · exact hname _ _
  case system command =>
    rcases World.system_cases (c := c) (w := w) command with heq | ⟨i, -, heq⟩
    · exact Or.inl heq
    · exact Or.inr ⟨.cache, _, rfl, heq⟩
  case mkdir | symlink | link | unlink | rmdir | rename => exact hname _ _
  all_goals exact absurd hop Bool.false_ne_true

end OnFiles

-- ============================================================================
-- Calls that do not reach the metadata
-- ============================================================================

/-- The calls that can change what `meta.c` keeps. -/
def Call.reachesMeta : Call → Bool
  | .addCacheUsedSize _ | .setCacheUsedSize _ | .setMetaBlockSize _ => true
  | op => op.isSql

section Frame

variable {c : Choice} {w : World} {side : Side} {path : Path}

@[simp] theorem World.metadata_setFs (fs : Fs) : (w.setFs side fs).metadata = w.metadata := by
  cases side <;> rfl

theorem World.metadata_openFile (flags : Nat) :
    (w.openFile c side path flags).2.metadata = w.metadata := by
  unfold World.openFile
  split
  · rfl
  · rfl
  · split
    · rfl
    · split <;> rfl

theorem World.metadata_creat (mode : Nat) :
    (w.creat c side path mode).2.metadata = w.metadata := by
  unfold World.creat
  split <;> simp [World.addFd]

theorem World.metadata_close (fd : Int) : (w.close c fd).2.metadata = w.metadata := by
  unfold World.close
  split <;> rfl

theorem metadata_handle {op : Call} (h : op.reachesMeta = false) :
    (handle c op w).2.metadata = w.metadata := by
  by_cases hop : op.onFiles = true
  · rcases handle_onFiles hop with heq | ⟨side, fs, -, heq⟩ <;> rw [heq]
    exact World.metadata_setFs fs
  cases op
  case openFile => exact World.metadata_openFile _
  case creat => exact World.metadata_creat _
  case close => exact World.metadata_close _
  -- what is left reads, works on memory, or is excluded
  all_goals first | rfl | exact absurd rfl hop | simp [Call.reachesMeta, Call.isSql] at h

-- ============================================================================
-- Calls that do not reach descriptors and handles
-- ============================================================================

/-- The calls that can change which descriptors and handles there are. -/
def Call.reachesHandles : Call → Bool
  | .openFile _ _ _ | .creat _ _ _ | .close _ | .mallocHandle _ | .freeHandle _ => true
  | _ => false

theorem held_handle {op : Call} (h : op.reachesHandles = false) :
    (handle c op w).2.fds = w.fds ∧ (handle c op w).2.handles = w.handles ∧
      (handle c op w).2.nextFd = w.nextFd ∧ (handle c op w).2.nextHandle = w.nextHandle := by
  have hset : ∀ side fs, (w.setFs side fs).fds = w.fds ∧ (w.setFs side fs).handles = w.handles ∧
      (w.setFs side fs).nextFd = w.nextFd ∧ (w.setFs side fs).nextHandle = w.nextHandle := by
    intro side fs
    cases side <;> exact ⟨rfl, rfl, rfl, rfl⟩
  have hsql : ∀ r, (w.sql c r).2.fds = w.fds ∧ (w.sql c r).2.handles = w.handles ∧
      (w.sql c r).2.nextFd = w.nextFd ∧ (w.sql c r).2.nextHandle = w.nextHandle := by
    intro r
    unfold World.sql
    split <;> exact ⟨rfl, rfl, rfl, rfl⟩
  by_cases hop : op.onFiles = true
  · rcases handle_onFiles hop with heq | ⟨side, fs, -, heq⟩ <;> rw [heq]
    · exact ⟨rfl, rfl, rfl, rfl⟩
    · exact hset side fs
  cases op
  case insertFile | insertDatablock | addLocalSize | subLocalSize | deleteFile | deleteDatablock
     | touchDatablock => exact hsql _
  all_goals first | exact ⟨rfl, rfl, rfl, rfl⟩ | exact absurd rfl hop | exact nomatch h

theorem handles_handle {op : Call} (h : op.reachesHandles = false) :
    (handle c op w).2.fds = w.fds ∧ (handle c op w).2.handles = w.handles :=
  ⟨(held_handle h).1, (held_handle h).2.1⟩

-- ============================================================================
-- The rule of calls without effect on the metadata
-- ============================================================================

variable {A : Choice → Call → World → Prop} {S : Prop}

/-- The rule for a call of which only the metadata afterwards matters. -/
theorem wp_frame {op : Call} (h : op.reachesMeta = false) {Q : op.Reply → World → Prop}
    (hQ : ∀ r w', w'.metadata = w.metadata → Q r w') : Prog.wp (env A S) (ask op) Q w := by
  simp only [ask, wp_call, Prog.wp_ret]
  exact fun c _ => hQ _ _ (metadata_handle h)

end Frame

end CacheFs
