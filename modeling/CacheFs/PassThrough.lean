/-
  CacheFs.PassThrough

  The NAS side of the callbacks that change it.

  Beside each callback stands the same callback on a file system that has no cache:
  the call on the NAS and its status, and nothing else.  The callbacks do to the
  NAS and return what these do, whatever becomes of the rest of their calls.  The
  two directories are apart: no symbolic link of one leads into the other.
-/

import CacheFs.Effect.Project
import CacheFs.Meta.Cold
import CacheFs.Session

namespace CacheFs

open CacheFs.Effect
open CacheFs.Posix

-- ============================================================================
-- The part of the state a pass-through has
-- ============================================================================

/-- The NAS, the descriptors, the handles, and the umask. -/
structure NasView where
  nas : Fs
  fds : Int → Option OpenFile
  nextFd : Nat
  handles : Nat → Option DualFileHandle
  umask : Nat

def World.nasView (w : World) : NasView := ⟨w.nas, w.fds, w.nextFd, w.handles, w.umask⟩

namespace NasView

/-- The descriptor does not refer to a file of `side`. -/
def NotOn (x : NasView) (side : Side) (fd : Int) : Prop :=
  ∀ f, x.fds fd = some f → f.side ≠ side

/-- The descriptors of handles are what `cfs_open` has made them: those for the NAS
    refer to the NAS or to nothing, those for the cache to the cache or to nothing,
    now and after other descriptors have been handed out. -/
structure Apart (x : NasView) : Prop where
  negative : ∀ fd < 0, x.fds fd = none
  nasFH : ∀ fh d, x.handles fh = some d → x.NotOn .cache d.nasFH
  cacheFH : ∀ fh d, x.handles fh = some d → x.NotOn .nas d.cacheFH ∧ d.cacheFH < x.nextFd

end NasView

/-- The calls that leave the NAS, the descriptors and the handles alone. -/
def Call.OffNas (x : NasView) : Call → Prop
  | .openFile _ _ _ | .creat _ _ _ | .close _ | .mallocHandle _ | .freeHandle _ => False
  | .pwrite fd _ _ | .ftruncate fd _ => x.NotOn .nas fd
  | .truncate side _ _ | .utime side _ _ | .chmod side _ _ | .chown side _ _ _ | .mkdir side _ _
  | .mknod side _ _ _ | .symlink side _ _ | .link side _ _ | .unlink side _ | .rmdir side _
  | .rename side _ _ => side = .cache
  | _ => True

/-- The calls a pass-through makes. -/
def Call.OnNas (x : NasView) : Call → Prop
  | .loadHandle _ | .close _ => True
  | .pwrite fd _ _ | .ftruncate fd _ | .fsync fd _ => x.NotOn .cache fd
  | .creat side _ _ | .truncate side _ _ | .utime side _ _ | .chmod side _ _ | .chown side _ _ _
  | .mkdir side _ _ | .mknod side _ _ _ | .symlink side _ _ | .link side _ _ | .unlink side _
  | .rmdir side _ | .rename side _ _ => side = .nas
  | _ => False

section View

variable {c : Choice} {w v : World} {x : NasView} {S : Prop}

theorem World.nasView_sql (r : Option Db) : (w.sql c r).2.nasView = w.nasView := by
  unfold World.sql
  split <;> rfl

theorem Side.eq_cache {side : Side} (h : side ≠ .nas) : side = .cache := by
  cases side with
  | nas => exact absurd rfl h
  | cache => rfl

theorem Side.eq_nas {side : Side} (h : side ≠ .cache) : side = .nas := by
  cases side with
  | nas => rfl
  | cache => exact absurd rfl h

/-- A call on files that is off the NAS is about the cache. -/
theorem Call.OffNas.side {op : Call} (h : op.OffNas w.nasView) {side : Side}
    (hs : op.side? w = some side) : side = .cache := by
  cases op
  case pwrite fd _ _ | ftruncate fd _ =>
    obtain ⟨f, hf, rfl⟩ := Option.map_eq_some_iff.mp hs
    exact Side.eq_cache (h f hf)
  case truncate | utime | chmod | chown | mkdir | mknod | symlink | link | unlink | rmdir |
      rename =>
    rw [← Option.some.inj hs]
    exact h
  case system => exact (Option.some.inj hs).symm
  all_goals exact nomatch hs

theorem nasView_handle {op : Call} (h : op.OffNas w.nasView) :
    (handle c op w).2.nasView = w.nasView := by
  by_cases hop : op.onFiles = true
  · rcases handle_onFiles hop with heq | ⟨side, fs, hs, heq⟩ <;> rw [heq]
    rw [h.side hs]
    rfl
  cases op
  case insertFile | insertDatablock | addLocalSize | subLocalSize | deleteFile | deleteDatablock
     | touchDatablock => exact World.nasView_sql _
  all_goals first | rfl | exact absurd rfl hop | exact h.elim

theorem World.nasView_nameCall_nas {r : Except Errno Fs} (h : v.nasView = w.nasView) :
    (v.nameCall c .nas r).1 = (w.nameCall c .nas r).1 ∧
      (v.nameCall c .nas r).2.nasView = (w.nameCall c .nas r).2.nasView := by
  simp only [World.nasView, NasView.mk.injEq] at h
  unfold World.nameCall
  split <;> simp [World.nasView, World.setFs, h]

/-- The reply to such a call is decided by the view, and so is the view after it. -/
theorem visible_of_onNas {op : Call} (h : op.OnNas x) :
    Prog.Visible (env anyOutcome S) World.nasView x op := by
  rintro c s t hs ht -
  refine ⟨trivial, ?_⟩
  have hview : t.nasView = s.nasView := ht.trans hs.symm
  have hparts := hview
  simp only [World.nasView, NasView.mk.injEq] at hparts
  obtain ⟨hnas, hfds, hnext, hhandles, humask⟩ := hparts
  have hgranted : ∀ mode, t.granted mode = s.granted mode := by
    intro mode
    simp only [World.granted, humask]
  cases op
  case creat side path mode =>
    obtain rfl : side = .nas := h
    simp only [env, handle, World.creat, World.fs, hnas, hgranted]
    split
    · exact ⟨rfl, hview⟩
    · exact ⟨rfl, hview⟩
    · simp [World.nasView, World.addFd, World.setFs, hfds, hnext, hhandles, humask]
  case truncate side path size =>
    obtain rfl : side = .nas := h
    simp only [env, handle, World.truncate, World.fs, hnas]
    split
    · exact ⟨rfl, hview⟩
    · exact ⟨rfl, hview⟩
    · next i _ _ =>
        by_cases hd : (s.nas.inode i).kind = .dir
        · simpa [hd] using hview
        · by_cases hk : (s.nas.inode i).kind = .reg
          · simp [hk, World.nasView, World.setFs, hfds, hnext, hhandles, humask]
          · simpa [hd, hk] using hview
  case utime side path modtime =>
    obtain rfl : side = .nas := h
    simp only [env, handle, World.utime, World.fs, hnas]
    split <;> simp [World.nasView, World.setFs, hnas, hfds, hnext, hhandles, humask]
  case chmod side path mode =>
    obtain rfl : side = .nas := h
    simp only [env, handle, World.chmod, World.fs, hnas]
    split <;> simp [World.nasView, World.setFs, hnas, hfds, hnext, hhandles, humask]
  case chown side path uid gid =>
    obtain rfl : side = .nas := h
    simp only [env, handle, World.chown, World.fs, hnas]
    split <;> simp [World.nasView, World.setFs, hnas, hfds, hnext, hhandles, humask]
  case mknod side path kind mode =>
    obtain rfl : side = .nas := h
    simp only [env, handle, World.mknod, World.fs, hnas, hgranted]
    split
    · exact ⟨rfl, hview⟩
    · exact ⟨rfl, hview⟩
    · exact World.nasView_nameCall_nas hview
  case mkdir side _ _ | symlink side _ _ | link side _ _ | unlink side _ | rmdir side _
     | rename side _ _ =>
    obtain rfl : side = .nas := h
    simp only [env, handle, World.fs, hnas, hgranted]
    exact World.nasView_nameCall_nas hview
  case pwrite fd buf off =>
    simp only [env, handle, World.pwrite, hfds]
    split
    · exact ⟨rfl, hview⟩
    · exact ⟨rfl, hview⟩
    · next f _ hf =>
        have hside : f.side = .nas := Side.eq_nas (h f (hs ▸ hf))
        have hpos : t.writePos f off = s.writePos f off := by
          simp only [World.writePos, hside, World.fs, hnas]
        cases hw : f.writable with
        | false => simpa [hw] using hview
        | true =>
          rw [hpos]
          by_cases hbig : 2 ^ 63 ≤ max off (s.writePos f off) + buf.length
          · simpa only [Bool.not_true, Bool.false_eq_true, if_false, if_pos hbig, true_and]
              using hview
          · simp only [Bool.not_true, Bool.false_eq_true, if_false, if_neg hbig, hside,
              World.nasView, World.setFs, World.fs, hnas, hfds, hnext, hhandles, humask, and_self]
  case ftruncate fd size =>
    simp only [env, handle, World.ftruncate, hfds]
    split
    · exact ⟨rfl, hview⟩
    · exact ⟨rfl, hview⟩
    · next f _ hf =>
        have hside : f.side = .nas := Side.eq_nas (h f (hs ▸ hf))
        cases hw : f.writable with
        | false => simpa [hw] using hview
        | true =>
          simp [hside, World.nasView, World.setFs, World.fs, hnas, hfds, hnext, hhandles, humask]
  case fsync =>
    simp only [env, handle, World.fsync, hfds]
    exact ⟨trivial, hview⟩
  case close =>
    simp only [env, handle, World.close, hfds]
    split <;> simp [World.nasView, World.dropFd, hnas, hfds, hnext, hhandles, humask]
  case loadHandle =>
    simp only [env, handle, hhandles]
    exact ⟨trivial, hview⟩
  all_goals exact h.elim

theorem World.apart_setFs (h : w.nasView.Apart) {side : Side} (fs : Fs) :
    (w.setFs side fs).nasView.Apart := by
  cases side <;> exact ⟨h.negative, h.nasFH, h.cacheFH⟩

/-- A new descriptor for the NAS is in no handle as one for the cache. -/
theorem World.apart_addFd (h : w.nasView.Apart) {f : OpenFile} (hf : f.side = .nas) :
    (w.addFd f).nasView.Apart := by
  have hfds : ∀ fd g, (w.addFd f).nasView.fds fd = some g →
      (fd = w.nextFd ∧ g = f) ∨ w.nasView.fds fd = some g := by
    intro fd g hg
    simp only [World.nasView, World.addFd, Function.update_apply] at hg
    split at hg
    · exact Or.inl ⟨‹_›, (Option.some.inj hg).symm⟩
    · exact Or.inr hg
  refine ⟨fun fd hneg => ?_, fun fh d hd g hg => ?_, fun fh d hd => ⟨fun g hg => ?_, ?_⟩⟩
  · simp only [World.nasView, World.addFd, Function.update_apply]
    rw [if_neg (by omega)]
    exact h.negative fd hneg
  · rcases hfds _ g hg with ⟨-, rfl⟩ | hg
    · rw [hf]
      decide
    · exact h.nasFH fh d hd g hg
  · rcases hfds _ g hg with ⟨heq, -⟩ | hg
    · have hlt := (h.cacheFH fh d hd).2
      simp only [World.nasView] at hlt
      omega
    · exact (h.cacheFH fh d hd).1 g hg
  · exact Int.lt_trans (h.cacheFH fh d hd).2 (Int.lt_succ _)

theorem World.apart_dropFd (h : w.nasView.Apart) (fd : Int) : (w.dropFd fd).nasView.Apart := by
  have hfds : ∀ fd' g, (w.dropFd fd).nasView.fds fd' = some g → w.nasView.fds fd' = some g := by
    intro fd' g hg
    simp only [World.nasView, World.dropFd, Function.update_apply] at hg
    split at hg
    · exact nomatch hg
    · exact hg
  refine ⟨fun fd' hneg => ?_, fun fh d hd g hg => h.nasFH fh d hd g (hfds _ g hg),
    fun fh d hd => ⟨fun g hg => (h.cacheFH fh d hd).1 g (hfds _ g hg), (h.cacheFH fh d hd).2⟩⟩
  by_contra hne
  obtain ⟨g, hg⟩ := Option.ne_none_iff_exists'.mp hne
  have hsome := hfds fd' g hg
  rw [h.negative fd' hneg] at hsome
  exact nomatch hsome

/-- The calls of a pass-through, whatever they are about. -/
def Call.ofBare : Call → Prop
  | .loadHandle _ | .close _ | .fsync _ _ => True
  | .creat side _ _ => side = .nas
  | op => op.onFiles = true

/-- They leave the descriptors of handles apart. -/
theorem NasView.Apart.handle (h : w.nasView.Apart) {op : Call} (hop : op.ofBare) :
    (CacheFs.handle c op w).2.nasView.Apart := by
  by_cases hfiles : op.onFiles = true
  · rcases handle_onFiles hfiles with heq | ⟨side, fs, -, heq⟩ <;> rw [heq]
    · exact h
    · exact World.apart_setFs h fs
  cases op
  case creat side path mode =>
    obtain rfl : side = .nas := hop
    simp only [CacheFs.handle, World.creat]
    split
    · exact h
    · exact h
    · exact World.apart_addFd (World.apart_setFs h _) rfl
  case close fd =>
    simp only [CacheFs.handle, World.close]
    split
    · exact h
    · exact World.apart_dropFd h fd
    · exact World.apart_dropFd h fd
  case loadHandle | fsync => exact h
  all_goals exact absurd hop hfiles

end View

-- ============================================================================
-- The callbacks and their bare counterparts
-- ============================================================================

/-- The callbacks that change the NAS. -/
inductive NasRequest where
  | cfsMknod (path : Path) (kind : Kind) (mode : Nat)
  | cfsMkdir (path : Path) (mode : Nat)
  | cfsUnlink (path : Path)
  | cfsRmdir (path : Path)
  | cfsSymlink (path linkPath : Path)
  | cfsRename (path newpath : Path)
  | cfsLink (path newpath : Path)
  | cfsChmod (path : Path) (mode : Nat)
  | cfsChown (path : Path) (uid gid : Nat)
  | cfsTruncate (path : Path) (newsize : Nat)
  | cfsFtruncate (fh offset : Nat)
  | cfsUtime (path : Path) (modtime : Option Int)
  | cfsWrite (path : Path) (buf : List UInt8) (offset fh : Nat)
  | cfsFsync (datasync : Bool) (fh : Nat)

namespace NasRequest

variable (cfg : Config)

def prog (fuel : Nat) : NasRequest → CfsM Int
  | .cfsMknod path kind mode => CacheFs.cfsMknod cfg path kind mode
  | .cfsMkdir path mode => CacheFs.cfsMkdir cfg path mode
  | .cfsUnlink path => CacheFs.cfsUnlink cfg path
  | .cfsRmdir path => CacheFs.cfsRmdir cfg path
  | .cfsSymlink path linkPath => CacheFs.cfsSymlink cfg path linkPath
  | .cfsRename path newpath => CacheFs.cfsRename cfg path newpath
  | .cfsLink path newpath => CacheFs.cfsLink cfg path newpath
  | .cfsChmod path mode => CacheFs.cfsChmod cfg path mode
  | .cfsChown path uid gid => CacheFs.cfsChown cfg path uid gid
  | .cfsTruncate path newsize => CacheFs.cfsTruncate cfg path newsize
  | .cfsFtruncate fh offset => CacheFs.cfsFtruncate fh offset
  | .cfsUtime path modtime => CacheFs.cfsUtime cfg path modtime
  | .cfsWrite path buf offset fh => CacheFs.cfsWrite cfg fuel path buf offset fh
  | .cfsFsync datasync fh => CacheFs.cfsFsync datasync fh

/-- The same callback without a cache. -/
def bare : NasRequest → CfsM Int
  | .cfsMknod path kind mode => mkNod .nas (cfg.fullNasPath path) kind mode
  | .cfsMkdir path mode => do
    let r ← ask (.mkdir .nas (cfg.fullNasPath path) mode)
    pure (logSyscall r)
  | .cfsUnlink path => do
    let r ← ask (.unlink .nas (cfg.fullNasPath path))
    pure (logSyscall r)
  | .cfsRmdir path => do
    let r ← ask (.rmdir .nas (cfg.fullNasPath path))
    pure (logSyscall r)
  | .cfsSymlink path linkPath => do
    let r ← ask (.symlink .nas path (cfg.fullNasPath linkPath))
    pure (logSyscall r)
  | .cfsRename path newpath => do
    let r ← ask (.rename .nas (cfg.fullNasPath path) (cfg.fullNasPath newpath))
    pure (logSyscall r)
  | .cfsLink path newpath => do
    let r ← ask (.link .nas (cfg.fullNasPath path) (cfg.fullNasPath newpath))
    pure (logSyscall r)
  | .cfsChmod path mode => do
    let r ← ask (.chmod .nas (cfg.fullNasPath path) mode)
    pure (logSyscall r)
  | .cfsChown path uid gid => do
    let r ← ask (.chown .nas (cfg.fullNasPath path) uid gid)
    pure (logSyscall r)
  | .cfsTruncate path newsize => do
    let r ← ask (.truncate .nas (cfg.fullNasPath path) newsize)
    pure (logSyscall r)
  | .cfsFtruncate fh offset => do
    let dualFH ← ask (.loadHandle fh)
    let r ← ask (.ftruncate dualFH.nasFH offset)
    pure (logSyscall r)
  | .cfsUtime path modtime => do
    let r ← ask (.utime .nas (cfg.fullNasPath path) modtime)
    pure (logSyscall r)
  | .cfsWrite _ buf offset fh => do
    let dualFH ← ask (.loadHandle fh)
    let r ← ask (.pwrite dualFH.nasFH buf offset)
    pure (logSyscall r)
  | .cfsFsync datasync fh => do
    let dualFH ← ask (.loadHandle fh)
    let r ← ask (.fsync dualFH.nasFH datasync)
    pure (logSyscall r)

end NasRequest

section Projects

variable {cfg : Config} {x : NasView} {S : Prop}

/-- The last call of a callback and its status. -/
theorem projects_last {α : Type} (op : Call) (hop : op.OnNas x) (f : op.Reply → α) :
    Prog.Projects (env anyOutcome S) World.nasView x (ask op >>= fun r => pure (f r))
      (ask op >>= fun r => pure (f r)) :=
  Prog.projects_call (visible_of_onNas hop) fun _ _ _ _ => Prog.projects_refl_pure _

theorem silent_of_only {α : Type} {p : CfsM α} (h : Prog.Only (Call.OffNas x) p) :
    Prog.Silent (env anyOutcome S) World.nasView x p :=
  Prog.Only.silent h fun _ _ _ hop _ hs => (nasView_handle (hs ▸ hop)).trans hs

theorem silent_ask (op : Call) (h : op.OffNas x) :
    Prog.Silent (env anyOutcome S) World.nasView x (ask op) := silent_of_only (only_ask h)

/-- The same call on the cache comes first. -/
theorem projects_mirror {α : Type} (op op' : Call) (hop : op.OffNas x) (hop' : op'.OnNas x)
    (f : op'.Reply → α) :
    Prog.Projects (env anyOutcome S) World.nasView x
      (ask op >>= fun _ => ask op' >>= fun r => pure (f r)) (ask op' >>= fun r => pure (f r)) :=
  (silent_ask op hop).projects fun _ => projects_last op' hop' f

/-- The descriptors a callback gets from its handle. -/
theorem NasView.Apart.loaded (h : x.Apart) (fh : Nat) :
    x.NotOn .cache ((x.handles fh).getD ⟨-1, -1⟩).nasFH ∧
      x.NotOn .nas ((x.handles fh).getD ⟨-1, -1⟩).cacheFH := by
  cases hfh : x.handles fh with
  | none =>
      have hneg := h.negative (-1) (by decide)
      constructor <;> intro f hf <;> rw [Option.getD_none, hneg] at hf <;> exact nomatch hf
  | some d => exact ⟨h.nasFH fh d hfh, (h.cacheFH fh d hfh).1⟩

/-- A callback that begins with its handle. -/
theorem projects_load {α : Type} {fh : Nat} {k k' : DualFileHandle → CfsM α}
    (hk : Prog.Projects (env anyOutcome S) World.nasView x (k ((x.handles fh).getD ⟨-1, -1⟩))
      (k' ((x.handles fh).getD ⟨-1, -1⟩))) :
    Prog.Projects (env anyOutcome S) World.nasView x (ask (.loadHandle fh) >>= k)
      (ask (.loadHandle fh) >>= k') := by
  refine Prog.projects_call (visible_of_onNas trivial) fun c s hs _ => ?_
  subst hs
  exact hk

theorem silent_deleteFile (filename : FileName) :
    Prog.Silent (env anyOutcome S) World.nasView x (deleteFile filename) :=
  silent_of_only (only_deleteFile trivial (fun _ => trivial) trivial trivial)

theorem silent_cfsCacheWrite (h : x.Apart) (fuel : Nat) (cacheFileName : FileName)
    (buf : List UInt8) (size offset fh : Nat) :
    Prog.Silent (env anyOutcome S) World.nasView x
      (cfsCacheWrite cfg fuel cacheFileName buf size offset fh) := by
  refine Prog.silent_call fun c s hs _ => ⟨hs, ?_⟩
  refine (silent_of_only (only_evictionWait trivial fuel)).bind fun _ => Prog.Silent.bind
    (silent_of_only (only_writeBlks (fun _ => trivial) trivial (fun _ => trivial)
      (fun _ => trivial) trivial (fun _ => trivial) fun _ => trivial)) fun _ => ?_
  subst hs
  exact (silent_ask (.pwrite _ _ _) (h.loaded fh).2).bind fun _ => Prog.silent_pure _

theorem projects_mkNod (path : Path) (kind : Kind) (mode : Nat) :
    Prog.Projects (env anyOutcome S) World.nasView x (mkNod .nas path kind mode)
      (mkNod .nas path kind mode) := by
  cases kind with
  | reg =>
      refine Prog.projects_call (visible_of_onNas rfl) fun c s _ _ => ?_
      cases ((env anyOutcome S).handle c (.creat .nas path mode) s).1 with
      | ok fd => exact projects_last (.close fd) trivial logSyscall
      | error e => exact Prog.projects_refl_pure _
  | dir | lnk | fifo | special => exact projects_last (.mknod .nas path _ mode) rfl logSyscall

/-- Each callback does to the NAS and returns what the bare one does. -/
theorem projects_prog (h : x.Apart) (fuel : Nat) (rq : NasRequest) :
    Prog.Projects (env anyOutcome S) World.nasView x (rq.prog cfg fuel) (rq.bare cfg) := by
  cases rq with
  | cfsMknod path kind mode => exact projects_mkNod _ _ _
  | cfsMkdir path mode => exact projects_last (.mkdir .nas _ _) rfl logSyscall
  | cfsUnlink path =>
      exact (silent_deleteFile _).projects fun _ =>
        projects_mirror (.unlink .cache _) (.unlink .nas _) rfl rfl logSyscall
  | cfsRmdir path => exact projects_last (.rmdir .nas _) rfl logSyscall
  | cfsSymlink path linkPath =>
      exact projects_mirror (.symlink .cache _ _) (.symlink .nas _ _) rfl rfl logSyscall
  | cfsRename path newpath =>
      exact projects_mirror (.rename .cache _ _) (.rename .nas _ _) rfl rfl logSyscall
  | cfsLink path newpath =>
      exact projects_mirror (.link .cache _ _) (.link .nas _ _) rfl rfl logSyscall
  | cfsChmod path mode => exact projects_last (.chmod .nas _ _) rfl logSyscall
  | cfsChown path uid gid => exact projects_last (.chown .nas _ _ _) rfl logSyscall
  | cfsTruncate path newsize =>
      exact projects_mirror (.truncate .cache _ _) (.truncate .nas _ _) rfl rfl logSyscall
  | cfsFtruncate fh offset =>
      exact projects_load (projects_mirror (.ftruncate _ _) (.ftruncate _ _) (h.loaded fh).2
        (h.loaded fh).1 logSyscall)
  | cfsUtime path modtime =>
      exact projects_mirror (.utime .cache _ _) (.utime .nas _ _) rfl rfl logSyscall
  | cfsWrite path buf offset fh =>
      have hop : Call.OnNas x (.pwrite _ buf offset) := (h.loaded fh).1
      refine projects_load (Prog.projects_call (visible_of_onNas hop) fun c s hs _ => ?_)
      -- what follows the write to the NAS only reads from it
      subst hs
      have hpwrite : ((env anyOutcome S).handle c
          (.pwrite ((s.nasView.handles fh).getD ⟨-1, -1⟩).nasFH buf offset) s).2.nasView.Apart :=
        NasView.Apart.handle h rfl
      refine (silent_ask (.lstat .nas _) trivial).projects fun _ => ?_
      refine (silent_ask (.malloc _) trivial).projects fun _ => ?_
      refine (silent_ask (.pread _ _ _) trivial).projects fun _ => ?_
      refine (silent_cfsCacheWrite hpwrite fuel _ _ _ _ _).projects fun _ => ?_
      exact Prog.projects_refl_pure _
  | cfsFsync datasync fh =>
      cases datasync with
      | true =>
          exact projects_load (projects_mirror (.fsync _ _) (.fsync _ _) trivial (h.loaded fh).1
            logSyscall)
      | false =>
          exact projects_load (projects_mirror (.fsync _ _) (.fsync _ _) trivial (h.loaded fh).1
            logSyscall)

theorem only_ofBare (rq : NasRequest) : Prog.Only Call.ofBare (rq.bare cfg) := by
  have hlast : ∀ (op : Call) (f : op.Reply → Int), op.ofBare →
      Prog.Only Call.ofBare (ask op >>= fun r => pure (f r)) :=
    fun op f hop => Prog.only_bind (only_ask hop) fun _ => Prog.only_pure _
  cases rq with
  | cfsMknod path kind mode =>
      cases kind with
      | reg =>
          refine Prog.only_bind (only_ask rfl) fun r => ?_
          cases r with
          | ok fd => exact hlast (.close fd) logSyscall trivial
          | error e => exact Prog.only_pure _
      | dir | lnk | fifo | special => exact hlast (.mknod .nas _ _ mode) logSyscall rfl
  | cfsMkdir | cfsUnlink | cfsRmdir | cfsSymlink | cfsRename | cfsLink | cfsChmod | cfsChown
  | cfsTruncate | cfsUtime => exact Prog.only_bind (only_ask rfl) fun _ => Prog.only_pure _
  | cfsFtruncate fh offset =>
      exact Prog.only_bind (only_ask trivial) fun d =>
        hlast (.ftruncate d.nasFH offset) logSyscall rfl
  | cfsWrite path buf offset fh =>
      exact Prog.only_bind (only_ask trivial) fun d =>
        hlast (.pwrite d.nasFH buf offset) logSyscall rfl
  | cfsFsync datasync fh =>
      exact Prog.only_bind (only_ask trivial) fun d => hlast (.fsync d.nasFH datasync) logSyscall
        trivial

end Projects

-- ============================================================================
-- Runs
-- ============================================================================

/-- The callbacks one after the other, and the values they return. -/
def serve (cfg : Config) (fuel : Nat) (rqs : List NasRequest) : CfsM (List Int) :=
  rqs.foldlM (fun rets rq => do
    let ret ← rq.prog cfg fuel
    pure (rets ++ [ret])) []

/-- The same run on a file system without a cache. -/
def serveBare (cfg : Config) (rqs : List NasRequest) : CfsM (List Int) :=
  rqs.foldlM (fun rets rq => do
    let ret ← rq.bare cfg
    pure (rets ++ [ret])) []

/-- Whatever fails, a run does to the NAS and returns what the same run without a
    cache does and returns, its NAS calls meeting the same outcomes. -/
theorem nas_passes_through {cfg : Config} {fuel : Nat} {rqs : List NasRequest} {w w' v : World}
    {tr : List (Event Call World Choice)} {rets : List Int} (h : w.nasView.Apart)
    (hv : v.nasView = w.nasView)
    (hrun : Prog.Traced (env anyOutcome False) (serve cfg fuel rqs) w tr rets w') :
    ∃ tr' v', Prog.Traced (env anyOutcome False) (serveBare cfg rqs) v tr' rets v' ∧
      v'.nas = w'.nas ∧ (tr'.map Event.key).Sublist (tr.map Event.key) := by
  have hproj : Prog.Projects (env anyOutcome False) World.nasView w.nasView (serve cfg fuel rqs)
      (serveBare cfg rqs) := by
    refine Prog.projects_foldlM h (fun x hx rets rq => ?_) fun s tr rets rq r s' hs htr => ?_
    · exact (projects_prog hx fuel rq).bind fun _ _ _ _ _ _ => Prog.projects_refl_pure _
    · have honly : Prog.Only Call.ofBare (rq.bare cfg >>= fun ret => pure (rets ++ [ret]) :
          CfsM (List Int)) := Prog.only_bind (only_ofBare rq) fun _ => Prog.only_pure _
      exact (Prog.Stopped.invariant (I := fun w : World => w.nasView.Apart) honly
        (fun c op w hop _ hw => NasView.Apart.handle hw hop) hs htr.stopped).1
  obtain ⟨tr', v', htr', hview, hsub⟩ := hproj w tr rets w' rfl hrun v hv
  exact ⟨tr', v', htr', congrArg NasView.nas hview, hsub⟩

/-- A mount whose file is open, descriptor 3 for the NAS and 4 for a cache file that
    has lost its name and its row. -/
def sampleHeld : World :=
  ((((sampleWorld [1, 2, 3]).setFs .cache ((sampleWorld []).cache.setInode 2
    { kind := .reg, mode := 0o644, mtime := 0 })).addFd ⟨.nas, 1, true, true, false⟩).addFd
    ⟨.cache, 2, true, true, false⟩).addHandle ⟨3, 4⟩

theorem sampleHeld_apart : sampleHeld.nasView.Apart := by
  have hfds : ∀ fd, sampleHeld.nasView.fds fd = if fd = 4 then some ⟨.cache, 2, true, true, false⟩
      else if fd = 3 then some ⟨.nas, 1, true, true, false⟩ else none :=
    fun fd => (Function.update_apply _ _ _ fd).trans (congrArg _ (Function.update_apply _ _ _ fd))
  have hhandles : ∀ fh, sampleHeld.nasView.handles fh = if fh = 1 then some ⟨3, 4⟩ else none :=
    fun fh => Function.update_apply _ _ _ fh
  have hone : ∀ fh d, sampleHeld.nasView.handles fh = some d → d = ⟨3, 4⟩ := by
    intro fh d hd
    rw [hhandles] at hd
    split at hd
    · exact (Option.some.inj hd).symm
    · exact nomatch hd
  refine ⟨fun fd hneg => ?_, fun fh d hd f hf => ?_, fun fh d hd => ?_⟩
  · rw [hfds, if_neg (by omega), if_neg (by omega)]
  · rw [hone fh d hd, hfds] at hf
    rw [← Option.some.inj hf]
    decide
  · rw [hone fh d hd]
    refine ⟨fun f hf => ?_, by decide⟩
    rw [hfds] at hf
    rw [← Option.some.inj hf]
    decide

/-- A run in which the write cannot read back what it has written, no block can be
    recorded, and the cache has nothing to rename. -/
theorem nas_passes_through_failing : ∃ tr rets w',
    Prog.Traced (env anyOutcome False) (serve sampleConfig 1
      [.cfsMkdir ['/', 'd'] 0o755, .cfsWrite samplePath [7, 8] 1 1,
        .cfsRename samplePath ['/', 'd', '/', 'g'], .cfsFtruncate 1 2]) sampleHeld tr rets w' ∧
    rets = [0, 2, 0, 0] ∧
    ∃ tr' v', Prog.Traced (env anyOutcome False) (serveBare sampleConfig
      [.cfsMkdir ['/', 'd'] 0o755, .cfsWrite samplePath [7, 8] 1 1,
        .cfsRename samplePath ['/', 'd', '/', 'g'], .cfsFtruncate 1 2]) sampleHeld tr' rets v' ∧
      v'.nas = w'.nas ∧ (tr'.map Event.key).Sublist (tr.map Event.key) := by
  have hrun : ((Prog.runAllowed (env anyOutcome False)
      (fun n => if n = 5 then { err := some EACCES } else {}) (serve sampleConfig 1
      [.cfsMkdir ['/', 'd'] 0o755, .cfsWrite samplePath [7, 8] 1 1,
        .cfsRename samplePath ['/', 'd', '/', 'g'], .cfsFtruncate 1 2]) sampleHeld).map
      Prod.fst) = some [0, 2, 0, 0] := by decide
  obtain ⟨⟨rets, w'⟩, hr, hrets⟩ := Option.map_eq_some_iff.mp hrun
  obtain ⟨tr, htr⟩ := Prog.exec_traced (Prog.exec_of_runAllowed _ hr)
  exact ⟨tr, rets, w', htr, hrets, nas_passes_through sampleHeld_apart rfl htr⟩

end CacheFs
