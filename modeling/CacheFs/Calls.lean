/-
  CacheFs.Calls

  One rule for each call that is not a SQL statement, in an environment in which
  every call succeeds in full.

  `succeeds` excludes the errors and short transfers the environment could choose,
  and also the errors the state itself would cause, so that a rule may use what a
  successful reply tells about the state: that the name exists, that the
  descriptor is open.  The rules are in continuation form, as those of
  `CacheFs.Meta.Spec` are.
-/

import CacheFs.Callbacks
import CacheFs.Meta.Cold

namespace CacheFs

open CacheFs.Effect
open CacheFs.Posix

-- ============================================================================
-- Success
-- ============================================================================

/-- The reply of a system call is not an error. -/
def Call.succeeded : (op : Call) → op.Reply → Bool
  | .pread _ _ _, r => r.isOk
  | .lstat _ _, r => r.1.isOk
  | .openFile _ _ _, r | .creat _ _ _, r | .close _, r | .pwrite _ _ _, r | .truncate _ _ _, r
  | .ftruncate _ _, r | .utime _ _ _, r | .chmod _ _ _, r | .chown _ _ _ _, r | .fsync _ _, r
  | .mkdir _ _ _, r | .mknod _ _ _ _, r
  | .symlink _ _ _, r | .link _ _ _, r | .unlink _ _, r | .rmdir _ _, r | .rename _ _ _, r
  | .system _, r => r.isOk
  | _, _ => true

theorem not_isOk_error {α : Type} {e : Errno} : ¬ (Except.error e : SysRet α).isOk = true :=
  Bool.false_ne_true

/-- The call is carried out, in full and without an error; a SQL statement fails
    only for a constraint. -/
def succeeds (c : Choice) (op : Call) (w : World) : Prop :=
  c.err = none ∧ c.len = none ∧ op.succeeded (handle c op w).1 = true

instance (c : Choice) (op : Call) (w : World) : Decidable (succeeds c op w) :=
  inferInstanceAs (Decidable (_ ∧ _))

/-- Every call succeeds. -/
def AllSucceed (A : Choice → Call → World → Prop) : Prop :=
  ∀ c op w, A c op w → succeeds c op w

theorem allSucceed_succeeds : AllSucceed succeeds := fun _ _ _ h => h

theorem AllSucceed.sql {A : Choice → Call → World → Prop} (hA : AllSucceed A) : SqlSucceeds A :=
  fun c op w h _ => (hA c op w h).1

-- ============================================================================
-- Memory and counters
-- ============================================================================

section Rules

variable {A : Choice → Call → World → Prop} {S : Prop} {w : World}

theorem wp_loadHandle {fh : Nat} {h : DualFileHandle} {Q : DualFileHandle → World → Prop}
    (hfh : w.handles fh = some h) (hQ : Q h w) :
    Prog.wp (env A S) (ask (.loadHandle fh)) Q w := by
  simp only [ask, wp_call, Prog.wp_ret, handle, hfh, Option.getD_some]
  exact fun _ _ => hQ

theorem wp_mallocHandle {fh : DualFileHandle} {Q : Nat → World → Prop}
    (hQ : Q w.nextHandle (w.addHandle fh)) :
    Prog.wp (env A S) (ask (.mallocHandle fh)) Q w := by
  simp only [ask, wp_call, Prog.wp_ret, handle]
  exact fun _ _ => hQ

theorem wp_freeHandle {ptr : Nat} {Q : Unit → World → Prop} (hQ : Q () (w.dropHandle ptr)) :
    Prog.wp (env A S) (ask (.freeHandle ptr)) Q w := by
  simp only [ask, wp_call, Prog.wp_ret, handle]
  exact fun _ _ => hQ

theorem wp_malloc {n : Nat} {Q : List UInt8 → World → Prop}
    (hQ : ∀ buf : List UInt8, buf.length = n → Q buf w) :
    Prog.wp (env A S) (ask (.malloc n)) Q w := by
  simp only [ask, wp_call, Prog.wp_ret, handle]
  exact fun c _ => hQ _ (by simp)

theorem wp_strayRead {n : Nat} {Q : List UInt8 → World → Prop}
    (hQ : ∀ buf : List UInt8, buf.length = n → Q buf w) :
    Prog.wp (env A S) (ask (.strayRead n)) Q w := by
  simp only [ask, wp_call, Prog.wp_ret, handle]
  exact fun c _ => hQ _ (by simp)

/-- The eviction loop ends at once or, its body freeing nothing, never. -/
theorem wp_evictionWait {cfg : Config} {fuel : Nat} {Q : Unit → World → Prop}
    (hspin : fuel = 0 ∨ cfg.capacity ≤ w.metadata.cacheUsedSize → S)
    (hQ : w.metadata.cacheUsedSize < cfg.capacity → Q () w) :
    Prog.wp (env A S) (evictionWait cfg fuel) Q w := by
  induction fuel with
  | zero => exact hspin (Or.inl rfl)
  | succ fuel ih =>
      simp only [evictionWait, getCacheUsedSize, ask, Prog.wp_bind, wp_call, Prog.wp_ret, handle]
      intro c _
      split
      · next hfull => exact ih fun _ => hspin (Or.inr hfull)
      · next hroom => exact hQ (by omega)

theorem only_evictionWait {cfg : Config} {ok : Call → Prop} (hused : ok .getCacheUsedSize)
    (fuel : Nat) : Prog.Only ok (evictionWait cfg fuel) := by
  induction fuel with
  | zero => trivial
  | succ fuel ih =>
      exact Prog.only_bind (only_ask hused) fun _ => Prog.only_ite _ ih (Prog.only_pure _)

theorem only_copyOut {ok : Call → Prop} (hstray : ∀ n, ok (.strayRead n)) (cacheBuf : List UInt8)
    (pos size : Nat) : Prog.Only ok (copyOut cacheBuf pos size) :=
  Prog.only_ite _ (Prog.only_bind (only_ask (hstray _)) fun _ => Prog.only_pure _)
    (Prog.only_pure _)

/-- The calls of `cfs_open`. -/
def Call.ofOpen : Call → Bool
  | .openFile _ _ _ | .selectFileId _ | .stepSelect | .lstat _ _ | .selectLocalSize _
  | .addCacheUsedSize _ | .deleteFile _ | .unlink .cache _ | .insertFile _ _ | .creat .cache _ _
  | .mknod .cache _ _ _ | .close _ | .mallocHandle _ => true
  | _ => false

theorem only_mkNod {ok : Call → Prop} {side : Side} {p : Path} {kind : Kind} {mode : Nat}
    (hcreat : ok (.creat side p mode)) (hmknod : ok (.mknod side p kind mode))
    (hclose : ∀ fd, ok (.close fd)) : Prog.Only ok (mkNod side p kind mode) := by
  cases kind with
  | reg =>
      refine Prog.only_bind (only_ask hcreat) fun r => ?_
      cases r with
      | ok fd => exact Prog.only_bind (only_ask (hclose _)) fun _ => Prog.only_pure _
      | error e => exact Prog.only_pure _
  | dir | lnk | fifo | special =>
      exact Prog.only_bind (only_ask hmknod) fun _ => Prog.only_pure _

theorem only_ensureCached {cfg : Config} {path : Path} {st : Stat} {ok : Call → Prop}
    (hins : ok (.insertFile (cfsPathToFileName path) st.size))
    (hcreat : ok (.creat .cache (cfg.fullCachePath path) st.mode))
    (hmknod : ok (.mknod .cache (cfg.fullCachePath path) st.kind st.mode))
    (hclose : ∀ fd, ok (.close fd)) (present : Bool) :
    Prog.Only ok (ensureCached cfg path st present) :=
  Prog.only_ite _ (Prog.only_pure _) (Prog.only_bind (only_createFile hins) fun _ =>
    Prog.only_bind (only_mkNod hcreat hmknod hclose) fun _ => Prog.only_pure _)

theorem only_openHandle {cfg : Config} {path : Path} {ok : Call → Prop}
    (hopen : ok (.openFile .cache (cfg.fullCachePath path) O_RDWR))
    (hmalloc : ∀ fh, ok (.mallocHandle fh)) (nasFH : Int) :
    Prog.Only ok (openHandle cfg path nasFH) :=
  Prog.only_bind (only_ask hopen) fun _ => Prog.only_bind (only_ask (hmalloc _)) fun _ =>
    Prog.only_pure _

theorem only_cfsOpen {cfg : Config} (path : Path) (flags : Nat) :
    Prog.Only (·.ofOpen = true) (cfsOpen cfg path flags) := by
  have hdrop : Prog.Only (·.ofOpen = true) (dropCached cfg path) :=
    Prog.only_bind (only_deleteFile rfl (fun _ => rfl) rfl rfl) fun _ =>
      Prog.only_bind (only_ask rfl) fun _ => Prog.only_pure _
  have hcheck : ∀ st b, Prog.Only (·.ofOpen = true) (checkUpToDate cfg path st b) := fun st b =>
    Prog.only_ite _ (Prog.only_bind (Prog.only_bind (only_ask rfl) fun _ => Prog.only_pure _)
      fun _ => Prog.only_ite _ (Prog.only_bind hdrop fun _ => Prog.only_pure _) (Prog.only_pure _))
      (Prog.only_pure _)
  have hensure : ∀ st b, Prog.Only (·.ofOpen = true) (ensureCached cfg path st b) :=
    fun _ => only_ensureCached rfl rfl rfl fun _ => rfl
  have hopen : ∀ nasFH, Prog.Only (·.ofOpen = true) (openHandle cfg path nasFH) :=
    only_openHandle rfl fun _ => rfl
  refine Prog.only_bind (only_ask rfl) fun r => Prog.only_bind (only_lookupRow (only_ask rfl) rfl)
    fun present => Prog.only_ite _ (Prog.only_ite _ (Prog.only_bind hdrop fun _ =>
      Prog.only_pure _) (Prog.only_pure _)) ?_
  exact Prog.only_bind (Prog.only_bind (only_ask rfl) fun _ => Prog.only_pure _) fun st =>
    Prog.only_bind (hcheck st _) fun b => Prog.only_bind (hensure st b) fun _ => hopen _

-- ============================================================================
-- Descriptors
-- ============================================================================

theorem wp_openFile (hA : AllSucceed A) {side : Side} {path : Path} {flags : Nat}
    {Q : SysRet Int → World → Prop}
    (hQ : ∀ i, (w.fs side).follow Fs.maxLinks path = .ok i →
      Q (.ok w.nextFd)
        (w.addFd ⟨side, i, opensRead flags, opensWrite flags, opensAppend flags⟩)) :
    Prog.wp (env A S) (ask (.openFile side path flags)) Q w := by
  simp only [ask, wp_call, Prog.wp_ret]
  intro c hc
  obtain ⟨herr, -, hv⟩ := hA _ _ _ hc
  simp only [handle, Call.succeeded, World.openFile, herr] at hv ⊢
  cases hi : (w.fs side).follow Fs.maxLinks path with
  | error e => exact absurd (by simpa only [hi] using hv) not_isOk_error
  | ok i =>
      simp only [hi] at hv ⊢
      split
      · next hd => exact absurd (by simpa only [if_pos hd] using hv) not_isOk_error
      · next hd =>
          split
          · next hp =>
              rw [if_neg hd, if_pos hp] at hv
              exact absurd hv not_isOk_error
          · exact hQ i hi

theorem wp_creat (hA : AllSucceed A) {side : Side} {path : Path} {mode : Nat}
    {Q : SysRet Int → World → Prop}
    (hQ : ∀ fs now, Clock A now →
      (w.fs side).mkNode path .reg (w.granted mode) now = .ok fs →
      Q (.ok w.nextFd)
        ((w.setFs side fs).addFd ⟨side, (w.fs side).nextIno, false, true, false⟩)) :
    Prog.wp (env A S) (ask (.creat side path mode)) Q w := by
  simp only [ask, wp_call, Prog.wp_ret]
  intro c hc
  obtain ⟨herr, -, hv⟩ := hA _ _ _ hc
  simp only [handle, Call.succeeded, World.creat, herr] at hv ⊢
  cases hfs : (w.fs side).mkNode path .reg (w.granted mode) c.now with
  | error e => exact absurd (by simpa only [hfs] using hv) not_isOk_error
  | ok fs => exact hQ fs c.now ⟨c, _, _, hc, rfl⟩ hfs

theorem wp_close (hA : AllSucceed A) {fd : Int} {Q : SysRet Int → World → Prop}
    (hQ : Q (.ok 0) (w.dropFd fd)) : Prog.wp (env A S) (ask (.close fd)) Q w := by
  simp only [ask, wp_call, Prog.wp_ret]
  intro c hc
  obtain ⟨herr, -, hv⟩ := hA _ _ _ hc
  simp only [handle, Call.succeeded, World.close, herr] at hv ⊢
  cases hfd : w.fds fd with
  | none => exact absurd (by simpa only [hfd] using hv) not_isOk_error
  | some f => exact hQ

theorem wp_pread (hA : AllSucceed A) {fd : Int} {n off : Nat} {f : OpenFile}
    {Q : SysRet (List UInt8) → World → Prop} (hfd : w.fds fd = some f)
    (hQ : n < 2 ^ 63 → Q (.ok (Posix.pread ((w.fs f.side).inode f.ino).data n off)) w) :
    Prog.wp (env A S) (ask (.pread fd n off)) Q w := by
  simp only [ask, wp_call, Prog.wp_ret]
  intro c hc
  obtain ⟨herr, hlen, hv⟩ := hA _ _ _ hc
  simp only [handle, Call.succeeded, World.pread, herr, hlen, hfd, Option.getD_none,
    List.take_length] at hv ⊢
  split
  · next hr => exact absurd (by simpa only [if_pos hr] using hv) not_isOk_error
  · next hr =>
      split
      · next hn =>
          rw [if_neg hr, if_pos hn] at hv
          exact absurd hv not_isOk_error
      · next hn => exact hQ (by omega)

theorem wp_pwrite (hA : AllSucceed A) {fd : Int} {buf : List UInt8} {off : Nat} {f : OpenFile}
    {Q : SysRet Int → World → Prop} (hfd : w.fds fd = some f)
    (hQ : max off (w.writePos f off) + buf.length < 2 ^ 63 → ∀ now, Clock A now →
      Q (.ok buf.length)
        (w.setFs f.side ((w.fs f.side).pwrite f.ino buf (w.writePos f off) now))) :
    Prog.wp (env A S) (ask (.pwrite fd buf off)) Q w := by
  simp only [ask, wp_call, Prog.wp_ret]
  intro c hc
  obtain ⟨herr, hlen, hv⟩ := hA _ _ _ hc
  simp only [handle, Call.succeeded, World.pwrite, herr, hlen, hfd, Option.getD_none,
    List.take_length] at hv ⊢
  split
  · next hr => exact absurd (by simpa only [if_pos hr] using hv) not_isOk_error
  · next hr =>
      split
      · next hn =>
          rw [if_neg hr, if_pos hn] at hv
          exact absurd hv not_isOk_error
      · next hn => exact hQ (by omega) c.now ⟨c, _, _, hc, rfl⟩

section Sides

variable {fd : Int} {ino : Ino} {r wr ap : Bool}

theorem wp_pread_nas (hA : AllSucceed A) (hfd : w.fds fd = some ⟨.nas, ino, r, wr, ap⟩)
    {n off : Nat}
    {Q : SysRet (List UInt8) → World → Prop}
    (hQ : n < 2 ^ 63 → Q (.ok (Posix.pread (w.nas.inode ino).data n off)) w) :
    Prog.wp (env A S) (ask (.pread fd n off)) Q w :=
  wp_pread hA hfd hQ

theorem wp_pread_cache (hA : AllSucceed A) (hfd : w.fds fd = some ⟨.cache, ino, r, wr, ap⟩)
    {n off : Nat} {Q : SysRet (List UInt8) → World → Prop}
    (hQ : n < 2 ^ 63 → Q (.ok (Posix.pread (w.cache.inode ino).data n off)) w) :
    Prog.wp (env A S) (ask (.pread fd n off)) Q w :=
  wp_pread hA hfd hQ

theorem wp_pwrite_nas (hA : AllSucceed A) (hfd : w.fds fd = some ⟨.nas, ino, r, wr, ap⟩)
    {buf : List UInt8} {off : Nat} {Q : SysRet Int → World → Prop}
    (hQ : max off (w.writePos ⟨.nas, ino, r, wr, ap⟩ off) + buf.length < 2 ^ 63 →
      ∀ now, Clock A now → Q (.ok buf.length) { w with
        nas := w.nas.pwrite ino buf (w.writePos ⟨.nas, ino, r, wr, ap⟩ off) now }) :
    Prog.wp (env A S) (ask (.pwrite fd buf off)) Q w :=
  wp_pwrite hA hfd hQ

/-- Cache files are not opened in append mode. -/
theorem wp_pwrite_cache (hA : AllSucceed A) (hfd : w.fds fd = some ⟨.cache, ino, r, wr, false⟩)
    {buf : List UInt8} {off : Nat} {Q : SysRet Int → World → Prop}
    (hQ : off + buf.length < 2 ^ 63 → ∀ now, Clock A now →
      Q (.ok buf.length) { w with cache := w.cache.pwrite ino buf off now }) :
    Prog.wp (env A S) (ask (.pwrite fd buf off)) Q w :=
  wp_pwrite hA hfd fun hfit =>
    hQ (lt_of_le_of_lt (Nat.add_le_add_right (le_max_left _ _) _) hfit)

end Sides

-- ============================================================================
-- Names
-- ============================================================================

theorem wp_lstat (hA : AllSucceed A) {side : Side} {path : Path}
    {Q : SysRet Int × Stat → World → Prop}
    (hQ : ∀ i, (w.fs side).lookup path = some i → Q (.ok 0, ((w.fs side).inode i).stat) w) :
    Prog.wp (env A S) (ask (.lstat side path)) Q w := by
  simp only [ask, wp_call, Prog.wp_ret]
  intro c hc
  obtain ⟨herr, -, hv⟩ := hA _ _ _ hc
  simp only [handle, Call.succeeded, World.lstat, herr] at hv ⊢
  cases hi : (w.fs side).lookup path with
  | none => exact absurd (by simpa only [hi] using hv) not_isOk_error
  | some i => exact hQ i hi

theorem wp_unlink (hA : AllSucceed A) {side : Side} {path : Path}
    {Q : SysRet Int → World → Prop}
    (hQ : Q (.ok 0) (w.setFs side ((w.fs side).dropName path))) :
    Prog.wp (env A S) (ask (.unlink side path)) Q w := by
  simp only [ask, wp_call, Prog.wp_ret]
  intro c hc
  obtain ⟨herr, -, hv⟩ := hA _ _ _ hc
  simp only [handle, Call.succeeded, World.nameCall, herr, Fs.unlink] at hv ⊢
  cases hi : (w.fs side).lookup path with
  | none => exact absurd (by simpa only [hi] using hv) not_isOk_error
  | some i =>
      simp only [hi] at hv ⊢
      by_cases hd : ((w.fs side).inode i).kind = .dir
      · rw [if_pos hd] at hv
        exact absurd hv not_isOk_error
      · rw [if_neg hd]
        exact hQ

theorem wp_utime (hA : AllSucceed A) {side : Side} {path : Path} {modtime : Option Int}
    {Q : SysRet Int → World → Prop}
    (hQ : ∀ now i, Clock A now → (w.fs side).follow Fs.maxLinks path = .ok i →
      Q (.ok 0) (w.setFs side ((w.fs side).setTime i (modtime.getD now)))) :
    Prog.wp (env A S) (ask (.utime side path modtime)) Q w := by
  simp only [ask, wp_call, Prog.wp_ret]
  intro c hc
  obtain ⟨herr, -, hv⟩ := hA _ _ _ hc
  simp only [handle, Call.succeeded, World.utime, herr] at hv ⊢
  cases hi : (w.fs side).follow Fs.maxLinks path with
  | error e => exact absurd (by simpa only [hi] using hv) not_isOk_error
  | ok i => exact hQ c.now i ⟨c, _, _, hc, rfl⟩ hi

/-- `w'` is `w` after the shell has run a command: its file may have been dug. -/
def Dug (A : Choice → Call → World → Prop) (command : List Char) (w w' : World) : Prop :=
  w' = w ∨ ∃ i now, w.digIno command = some i ∧ Clock A now ∧
    w' = { w with cache := w.cache.setTime i now }

namespace Dug

variable {command : List Char} {w' : World}

theorem nas (h : Dug A command w w') : w'.nas = w.nas := by
  rcases h with rfl | ⟨i, now, -, -, rfl⟩ <;> rfl

theorem metadata (h : Dug A command w w') : w'.metadata = w.metadata := by
  rcases h with rfl | ⟨i, now, -, -, rfl⟩ <;> rfl

theorem fds (h : Dug A command w w') : w'.fds = w.fds := by
  rcases h with rfl | ⟨i, now, -, -, rfl⟩ <;> rfl

theorem handles (h : Dug A command w w') : w'.handles = w.handles := by
  rcases h with rfl | ⟨i, now, -, -, rfl⟩ <;> rfl

theorem lookup (h : Dug A command w w') (x : Path) : w'.cache.lookup x = w.cache.lookup x := by
  rcases h with rfl | ⟨i, now, -, -, rfl⟩ <;> rfl

theorem nextIno (h : Dug A command w w') : w'.cache.nextIno = w.cache.nextIno := by
  rcases h with rfl | ⟨i, now, -, -, rfl⟩ <;> rfl

theorem kind (h : Dug A command w w') (j : Ino) :
    (w'.cache.inode j).kind = (w.cache.inode j).kind := by
  rcases h with rfl | ⟨i, now, -, -, rfl⟩
  · rfl
  · exact Fs.kind_setTime _ _ _ _

theorem data (h : Dug A command w w') (j : Ino) :
    (w'.cache.inode j).data = (w.cache.inode j).data := by
  rcases h with rfl | ⟨i, now, -, -, rfl⟩
  · rfl
  · exact Fs.data_setTime _ _ _ _

/-- Only the file that is dug gets the time of the command. -/
theorem mtime (h : Dug A command w w') (j : Ino) :
    (w'.cache.inode j).mtime = (w.cache.inode j).mtime ∨
      (w.digIno command = some j ∧ Clock A (w'.cache.inode j).mtime) := by
  rcases h with rfl | ⟨i, now, hi, hnow, rfl⟩
  · exact Or.inl rfl
  · rw [Fs.mtime_setTime]
    split
    · next hj => exact Or.inr ⟨hj ▸ hi, hnow⟩
    · exact Or.inl rfl

end Dug

theorem wp_system {command : List Char} {Q : SysRet Int → World → Prop}
    (hQ : ∀ r w', Dug A command w w' → Q r w') :
    Prog.wp (env A S) (ask (.system command)) Q w := by
  simp only [ask, wp_call, Prog.wp_ret, handle]
  intro c hc
  refine hQ _ _ ((World.system_cases command).imp id ?_)
  rintro ⟨i, hi, heq⟩
  exact ⟨i, c.now, hi, ⟨c, _, _, hc, rfl⟩, heq⟩

end Rules

end CacheFs
