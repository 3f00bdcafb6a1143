/-
  CacheFs.HalfCreated

  A database that has `Files` and not `Datablocks`.

  `create_tables` makes both tables with one text.  Where it fails after the first one, every
  later start fails at that one and never comes to the second; `main` ignores the result.
  All statements on `Datablocks` fail from then on, and `are_blocks_in_cache`, which takes the
  error for a hit, sends every read to the cache file.
-/

import CacheFs.Meta.Lives
import CacheFs.Session

namespace CacheFs

open CacheFs.Sql
open CacheFs.Effect
open CacheFs.Posix

-- ============================================================================
-- Functions without the table
-- ============================================================================

/-- Every statement on `Datablocks` fails; the environment decides everything else. -/
def blind (c : Choice) (op : Call) (_ : World) : Prop := op.onBlocks = true → c.err ≠ none

instance (c : Choice) (op : Call) (w : World) : Decidable (blind c op w) :=
  inferInstanceAs (Decidable (_ → _))

theorem World.select_err {c : Choice} (h : c.err ≠ none) (found : Bool) :
    World.select c found = .error :=
  if_pos (Option.isSome_iff_ne_none.mpr h)

section Blind

variable {S : Prop} {w : World} {filename : FileName} {blkOffset : Nat} {blkArr : List Nat}

theorem wp_isBlkInCache_blind {Q : Int → World → Prop} (hQ : Q (-1) w) :
    Prog.wp (env blind S) (isBlkInCache filename blkOffset) Q w := by
  unfold isBlkInCache lookupRow
  simp only [Prog.wp_bind, ask, wp_call]
  intro c hc
  simpa [handle, World.select_err (hc rfl)] using hQ

/-- Every block counts as a hit. -/
theorem wp_areBlocksInCache_blind {Q : Int × List Int → World → Prop}
    (hQ : Q (1, List.replicate blkArr.length (-1)) w) :
    Prog.wp (env blind S) (areBlocksInCache filename blkArr) Q w := by
  refine Prog.wp_mono (Prog.wp_foldlM (I := fun done acc w' => w' = w ∧
    acc = (1, List.replicate done.length (-1))) ⟨rfl, rfl⟩ ?_) ?_
  · rintro done o rest acc w' - ⟨rfl, rfl⟩
    rw [Prog.wp_bind]
    refine wp_isBlkInCache_blind ?_
    rw [Prog.wp_pure, if_neg (by decide), List.length_append, List.length_singleton,
      List.replicate_succ']
    exact ⟨rfl, rfl⟩
  · rintro acc w' ⟨rfl, rfl⟩
    exact hQ

theorem wp_insertBlock_blind {Q : Int → World → Prop} (hQ : Q (-1) w) :
    Prog.wp (env blind S) (insertBlock filename blkOffset) Q w := by
  unfold insertBlock
  simp only [Prog.wp_bind, ask, wp_call, handle]
  intro c hc
  rw [World.sql_err (hc rfl), Prog.wp_ret, tests_error]
  exact hQ

theorem wp_deleteBlock_blind {Q : Int → World → Prop} (hQ : Q (-1) w) :
    Prog.wp (env blind S) (deleteBlock filename blkOffset) Q w := by
  unfold deleteBlock
  simp only [Prog.wp_bind, ask, wp_call, handle]
  intro c hc
  rw [World.sql_err (hc rfl), Prog.wp_ret, tests_error]
  exact hQ

theorem wp_updateBlkTime_blind {Q : Int → World → Prop} (hQ : Q (-1) w) :
    Prog.wp (env blind S) (updateBlkTime filename blkOffset) Q w := by
  unfold updateBlkTime
  simp only [Prog.wp_bind, ask, wp_call, handle]
  intro c hc
  rw [World.sql_err (hc rfl), Prog.wp_ret, tests_error]
  exact hQ

/-- A loop over the offsets whose turns change nothing. -/
theorem wp_turns_blind {α : Type} {xs : List α} {f : α → CfsM Unit}
    (hf : ∀ x (Q : Unit → World → Prop), Q () w → Prog.wp (env blind S) (f x) Q w)
    {Q : Unit → World → Prop} (hQ : Q () w) :
    Prog.wp (env blind S) (xs.foldlM (fun _ x => f x) ()) Q w := by
  refine Prog.wp_mono (Prog.wp_foldlM (I := fun _ _ w' => w' = w) rfl ?_) ?_
  · rintro done x rest _ w' - rfl
    exact hf x _ rfl
  · rintro _ w' rfl
    exact hQ

/-- What a function returns without the table. -/
def MetaFn.Refused : MetaFn → Int × List Int → Prop
  | .change (.insertBlock _ _), r | .change (.deleteBlock _ _), r
  | .change (.updateBlkTime _ _), r | .isBlkInCache _ _, r => r = (-1, [])
  | .change (.insertBlocks _ _), r | .change (.deleteBlocks _ _), r
  | .change (.writeBlks _ _), r => r = (0, [])
  | .areBlocksInCache _ os, r => r = (1, List.replicate os.length (-1))
  | .change (.createFile _ _), _ | .change (.deleteFile _), _ | .isFileInCache _, _ => True

theorem MetaFn.wp_blind (f : MetaFn) :
    Prog.wp (env blind True) f.prog (fun r _ => f.Refused r) w := by
  have htrue : ∀ {α : Type} (p : CfsM α), Prog.wp (env blind True) p (fun _ _ => True) w :=
    fun p => Prog.wp_of_only (Prog.only_true p) trivial (fun _ _ _ _ _ _ => ⟨trivial, trivial⟩)
      trivial
  cases f with
  | isFileInCache f => exact htrue _
  | isBlkInCache f o =>
      exact (Prog.wp_bind _ _ _ _).mpr (wp_isBlkInCache_blind rfl)
  | areBlocksInCache f os => exact wp_areBlocksInCache_blind rfl
  | change q =>
      cases q with
      | createFile f n => exact htrue _
      | deleteFile f => exact htrue _
      | insertBlock f o =>
          exact (Prog.wp_bind _ _ _ _).mpr (wp_insertBlock_blind rfl)
      | deleteBlock f o =>
          exact (Prog.wp_bind _ _ _ _).mpr (wp_deleteBlock_blind rfl)
      | updateBlkTime f o =>
          exact (Prog.wp_bind _ _ _ _).mpr (wp_updateBlkTime_blind rfl)
      | insertBlocks f os =>
          refine (Prog.wp_bind _ _ _ _).mpr ((Prog.wp_bind _ _ _ _).mpr ?_)
          refine wp_turns_blind (fun o Q hQ => ?_) rfl
          exact (Prog.wp_bind _ _ _ _).mpr (wp_insertBlock_blind hQ)
      | deleteBlocks f os =>
          refine (Prog.wp_bind _ _ _ _).mpr ((Prog.wp_bind _ _ _ _).mpr ?_)
          refine wp_turns_blind (fun o Q hQ => ?_) rfl
          exact (Prog.wp_bind _ _ _ _).mpr (wp_deleteBlock_blind hQ)
      | writeBlks f os =>
          refine (Prog.wp_bind _ _ _ _).mpr ((Prog.wp_bind _ _ _ _).mpr
            (wp_areBlocksInCache_blind ((Prog.wp_bind _ _ _ _).mpr ?_)))
          refine wp_turns_blind (fun e Q hQ => ?_) rfl
          rw [Prog.wp_ite]
          split
          · exact (Prog.wp_bind _ _ _ _).mpr (wp_updateBlkTime_blind hQ)
          · exact (Prog.wp_bind _ _ _ _).mpr (wp_insertBlock_blind hQ)

end Blind

-- ============================================================================
-- Every later life
-- ============================================================================

section Lives

/-- What a life returns without the table. -/
def Life.Refused (l : Life) (results : Results) : Prop :=
  ∀ rs, results = some rs → List.Forall₂ MetaFn.Refused l.fns rs

theorem Life.wp_blind (l : Life) {w : World} :
    Prog.wp (env blind True) l.prog (fun r _ => l.Refused r) w := by
  have htrue : ∀ {α : Type} (p : CfsM α) (w : World),
      Prog.wp (env blind True) p (fun _ _ => True) w := fun p w =>
    Prog.wp_of_only (Prog.only_true p) trivial (fun _ _ _ _ _ _ => ⟨trivial, trivial⟩) trivial
  unfold Life.prog
  rw [Prog.wp_bind]
  refine Prog.wp_mono (htrue _ _) fun started w₁ _ => ?_
  cases started with
  | none =>
      rw [Prog.wp_pure]
      exact fun rs hrs => absurd hrs (by simp)
  | some _ =>
      rw [Prog.wp_bind]
      refine Prog.wp_mono (Prog.wp_foldlM (I := fun done acc _ =>
        List.Forall₂ MetaFn.Refused done acc) .nil ?_) ?_
      · rintro done f rest acc w₂ - hacc
        rw [Prog.wp_bind]
        refine Prog.wp_mono f.wp_blind fun r w₃ hr => ?_
        rw [Prog.wp_pure]
        exact List.rel_append hacc (.cons hr .nil)
      · rintro acc w₂ hacc
        rw [Prog.wp_pure]
        rintro rs hrs
        rw [← Option.some.inj hrs]
        exact hacc

/-- Once `create_tables` has stopped between the two tables, no later life makes the second
    one: whatever fails or does not, all of them record no block, report errors for the single
    ones and report hits for arrays of them. -/
theorem half_created_for_good {lives : List Life} {db : Db} {tables' : Tables MetaCol}
    {ends : List (Results × Nat)} (hlives : ∀ l ∈ lives, l.InRange) (hwf : db.WF)
    (hblocks : db.datablocks = []) (h : ApiLives False lives (db.encode false) ends tables') :
    tables' .datablocks = none ∧ List.Forall₂ (fun l e => l.Refused e.1) lives ends := by
  induction lives generalizing db ends with
  | nil =>
      obtain ⟨rfl, rfl⟩ := h
      exact ⟨rfl, .nil⟩
  | cons l lives ih =>
      obtain ⟨r, s₁, ends', he, rfl, hrest⟩ := h
      have hin : Stage.filesOnly.Holds db (db.encode false) := ⟨hblocks, rfl⟩
      obtain ⟨stage₁, tr, w₁, hafter, htr, hstands⟩ :=
        life_refines (w := { World.init .empty .empty with metadata := { db } })
          (hlives l List.mem_cons_self) hwf hin (fun hs => hs.elim) he
      obtain rfl : stage₁ = .filesOnly := hafter.elim id fun hbare => absurd hbare (by simp)
      obtain ⟨hblocks₁, htables⟩ := hstands.tables
      rw [htables] at hrest
      obtain ⟨hnone, hends⟩ := ih (fun l' hl' => hlives l' (List.mem_cons_of_mem _ hl'))
        hstands.wf hblocks₁ hrest
      have hall := Prog.Traced.allow (E := env (sqlFails False) False) (env blind True) rfl htr
        (hstands.blind (by simp))
      have hl := Prog.wp_exec l.wp_blind (Prog.traced_exec hall)
      exact ⟨hnone, .cons hl hends⟩

/-- In the life that enters a file and two blocks, all three blocks that are looked up count
    as found. -/
theorem half_created_for_good_sample : ∃ ends tables',
    ApiLives False [sampleLife] (({} : Db).encode false) ends tables' ∧
      tables' .datablocks = none ∧ List.Forall₂ (fun l e => l.Refused e.1) [sampleLife] ends := by
  obtain ⟨x, hx⟩ : ∃ x, Prog.runAllowed (apiEnv False) (fun _ => {}) sampleLife.api
      (.fresh (({} : Db).encode false)) = some x := Option.isSome_iff_exists.mp (by decide)
  have h : ApiLives False [sampleLife] (({} : Db).encode false) [(x.1, x.2.conn.live)]
      x.2.conn.tables := ⟨x.1, x.2, [], Prog.exec_of_runAllowed _ hx, rfl, rfl, rfl⟩
  exact ⟨_, _, h, half_created_for_good inRange_sampleLife Db.wf_empty rfl h⟩

end Lives

-- ============================================================================
-- Reads without the table
-- ============================================================================

section Hollow

variable {cfg : Config} {P : Path → Prop} {w w' : World} {c : Choice}

/-- The cache files of `P`, and those that are open, hold no bytes. -/
structure Hollow (cfg : Config) (P : Path → Prop) (w : World) : Prop where
  cached : ∀ p i, P p → w.cache.lookup (cfg.fullCachePath p) = some i →
    (w.cache.inode i).data = [] ∧ ∀ t, (w.cache.inode i).kind ≠ .lnk t
  opened : ∀ fd f, w.fds fd = some f → f.side = .cache → (w.cache.inode f.ino).data = []

/-- The calls of `cfs_open`, `cfs_release` and the hit path of `cfs_read`. -/
def Call.spares (cfg : Config) (P : Path → Prop) : Call → Prop
  | .openFile .cache path _ => ∃ p, P p ∧ path = cfg.fullCachePath p
  | .openFile .nas _ _ | .creat .cache _ _ | .mknod .cache _ _ _ | .unlink .cache _ | .close _
  | .lstat _ _ | .pread _ _ _ | .system _ | .malloc _ | .strayRead _ | .loadHandle _
  | .mallocHandle _ | .freeHandle _ | .addCacheUsedSize _ => True
  | op => op.isSql = true

theorem Hollow.content (h : Hollow cfg P w) (p : Path) (hp : P p) :
    w.cache.content (cfg.fullCachePath p) = [] := by
  rcases Option.eq_none_or_eq_some (w.cache.lookup (cfg.fullCachePath p)) with hi | ⟨i, hi⟩
  · exact Fs.content_of_none hi
  · rw [Fs.content_of_lookup hi]
    exact (h.cached p i hp hi).1

/-- A new node holds no bytes either. -/
theorem Hollow.mkNode (h : Hollow cfg P w) {path : Path} {kind : Kind} {mode : Nat} {now : Int}
    {fs : Fs} (hkind : ∀ t, kind ≠ .lnk t) (hfs : w.cache.mkNode path kind mode now = .ok fs) :
    Hollow cfg P (w.setFs .cache fs) := by
  have hinode := Fs.inode_mkNode hfs
  refine ⟨fun p i hp hi => ?_, fun fd f hf hside => ?_⟩
  · change fs.lookup _ = _ at hi
    change (fs.inode i).data = [] ∧ ∀ t, (fs.inode i).kind ≠ .lnk t
    rw [hinode]
    split
    · exact ⟨rfl, hkind⟩
    · next hne =>
        rw [Fs.lookup_mkNode hfs] at hi
        split at hi
        · exact absurd (Option.some.inj hi).symm hne
        · exact h.cached p i hp hi
  · change (fs.inode f.ino).data = []
    rw [hinode]
    split
    · rfl
    · exact h.opened fd f hf hside

/-- An open leaves the world alone or adds a descriptor for the file it finds. -/
theorem World.openFile_found (side : Side) (path : Path) (flags : Nat) :
    (w.openFile c side path flags).2 = w ∨ ∃ f, (w.openFile c side path flags).2 = w.addFd f ∧
      f.side = side ∧ (w.fs side).follow Fs.maxLinks path = .ok f.ino := by
  unfold World.openFile
  split
  · exact Or.inl rfl
  · exact Or.inl rfl
  · next i _ hi =>
      split
      · exact Or.inl rfl
      · split
        · exact Or.inl rfl
        · exact Or.inr ⟨_, rfl, rfl, hi⟩

theorem Hollow.addFd (h : Hollow cfg P w) {f : OpenFile}
    (hf : f.side = .cache → (w.cache.inode f.ino).data = []) : Hollow cfg P (w.addFd f) := by
  refine ⟨h.cached, fun fd f' hf' hside => ?_⟩
  change Function.update w.fds w.nextFd (some f) fd = some f' at hf'
  rw [Function.update_apply] at hf'
  split at hf'
  · obtain rfl := Option.some.inj hf'
    exact hf hside
  · exact h.opened fd f' hf' hside

theorem Hollow.openFile (h : Hollow cfg P w) {path : Path} (hp : P path) (flags : Nat) :
    Hollow cfg P (w.openFile c .cache (cfg.fullCachePath path) flags).2 := by
  rcases World.openFile_found (c := c) (w := w) .cache (cfg.fullCachePath path) flags with
    heq | ⟨f, heq, -, hi⟩ <;> rw [heq]
  · exact h
  · refine h.addFd fun _ => ?_
    obtain ⟨j, hj⟩ := Fs.lookup_of_follow hi
    obtain ⟨hdata, hlink⟩ := h.cached path j hp hj
    rwa [Except.ok.inj (hi.symm.trans (Fs.follow_of_lookup hj hlink _))]

theorem Hollow.creat (h : Hollow cfg P w) (path : Path) (mode : Nat) :
    Hollow cfg P (w.creat c .cache path mode).2 := by
  unfold World.creat
  split
  · exact h
  · exact h
  · next fs _ hfs =>
      refine (h.mkNode (by simp) hfs).addFd fun _ => ?_
      change (fs.inode (w.fs .cache).nextIno).data = []
      rw [Fs.inode_mkNode hfs, if_pos rfl]

theorem Hollow.nameCall (h : Hollow cfg P w) {r : Except Errno Fs}
    (hr : ∀ fs, r = .ok fs → Hollow cfg P (w.setFs .cache fs)) :
    Hollow cfg P (w.nameCall c .cache r).2 := by
  unfold World.nameCall
  split
  · exact h
  · exact h
  · next fs _ => exact hr fs rfl

theorem Hollow.mknod (h : Hollow cfg P w) (path : Path) (kind : Kind) (mode : Nat) :
    Hollow cfg P (w.mknod c .cache path kind mode).2 := by
  cases kind with
  | dir => exact h
  | lnk t => exact h
  | reg | fifo | special => exact h.nameCall fun fs hfs => h.mkNode (by simp) hfs

theorem Hollow.unlink (h : Hollow cfg P w) (path : Path) :
    Hollow cfg P (w.nameCall c .cache (w.cache.unlink path)).2 := by
  refine h.nameCall fun fs hfs => ?_
  obtain rfl := Fs.unlink_eq_ok hfs
  refine ⟨fun p i hp hi => h.cached p i hp ?_, h.opened⟩
  change (w.cache.dropName path).lookup _ = _ at hi
  rw [Fs.lookup_dropName] at hi
  split at hi
  · exact absurd hi (by simp)
  · exact hi

theorem Hollow.handle (h : Hollow cfg P w) {op : Call} (hop : op.spares cfg P) :
    Hollow cfg P (handle c op w).2 := by
  have hsql : ∀ r, Hollow cfg P (w.sql c r).2 := by
    intro r
    unfold World.sql
    split
    · exact ⟨h.cached, h.opened⟩
    · exact h
  cases op
  case openFile side path flags =>
    cases side with
    | nas =>
        rcases World.openFile_found (c := c) (w := w) .nas path flags with
          heq | ⟨f, heq, hf, -⟩ <;> rw [CacheFs.handle, heq]
        · exact h
        · exact h.addFd fun hside => absurd (hf.symm.trans hside) (by simp)
    | cache =>
        obtain ⟨p, hp, rfl⟩ := hop
        exact h.openFile hp flags
  case creat side path mode =>
    cases side with
    | nas => exact absurd hop Bool.false_ne_true
    | cache => exact h.creat path mode
  case mknod side path kind mode =>
    cases side with
    | nas => exact absurd hop Bool.false_ne_true
    | cache => exact h.mknod path kind mode
  case unlink side path =>
    cases side with
    | nas => exact absurd hop Bool.false_ne_true
    | cache => exact h.unlink path
  case close fd =>
    have hdrop : Hollow cfg P (w.dropFd fd) := by
      refine ⟨h.cached, fun fd' f hf hside => h.opened fd' f ?_ hside⟩
      change Function.update w.fds fd none fd' = some f at hf
      rw [Function.update_apply] at hf
      split at hf
      · exact absurd hf (by simp)
      · exact hf
    simp only [CacheFs.handle, World.close]
    split
    · exact h
    · exact hdrop
    · exact hdrop
  case system command =>
    rcases World.system_cases (c := c) (w := w) command with heq | ⟨i, -, heq⟩ <;>
      rw [CacheFs.handle, heq]
    · exact h
    · refine ⟨fun p j hp hj => ?_, fun fd f hf hside => ?_⟩
      · rw [Fs.data_setTime, Fs.kind_setTime]
        exact h.cached p j hp hj
      · rw [Fs.data_setTime]
        exact h.opened fd f hf hside
  -- the other calls leave the cache directory and its descriptors alone
  all_goals first
    | exact h
    | exact hsql _
    | exact ⟨h.cached, h.opened⟩
    | exact absurd hop Bool.false_ne_true

theorem World.pread_empty (c : Choice) {fd : Int} {f : OpenFile} (hfd : w.fds fd = some f)
    (hdata : ((w.fs f.side).inode f.ino).data = []) (n off : Nat) :
    (∃ e, w.pread c fd n off = .error e) ∨ w.pread c fd n off = .ok [] := by
  unfold World.pread
  rw [hfd]
  split
  · exact Or.inl ⟨_, rfl⟩
  · exact Or.inl ⟨_, rfl⟩
  · next f' _ hf' =>
      obtain rfl := Option.some.inj hf'
      split
      · exact Or.inl ⟨_, rfl⟩
      · split
        · exact Or.inl ⟨_, rfl⟩
        · rw [hdata]
          simp [Posix.pread]

/-- `cfs_read` takes every block for cached and finds nothing. -/
theorem wp_cfsRead_blind {fuel : Nat} {path : Path} {size offset fh : Nat} {ni ci : Ino}
    (h : Hollow cfg P w) (hfh : Opened w fh ni ci) :
    Prog.wp (env blind True) (cfsRead cfg fuel path size offset fh)
      (fun r w' => r.1 ≤ 0 ∧ w' = w) w := by
  obtain ⟨dualFH, hh, -, r, wr, hfd⟩ := hfh
  have hempty : (w.cache.inode ci).data = [] := h.opened _ _ hfd rfl
  unfold cfsRead
  rw [Prog.wp_bind]
  refine wp_areBlocksInCache_blind ?_
  rw [Prog.wp_bind]
  apply wp_loadHandle hh
  rw [Prog.wp_bind]
  refine wp_malloc fun cacheBuf _ => ?_
  rw [Prog.wp_bind, readWindow, decide_eq_true (Int.one_pos), if_pos rfl, Prog.wp_bind, ask,
    wp_call]
  intro c _
  rw [Prog.wp_ret, Prog.wp_pure, Prog.wp_bind]
  refine wp_copyOut fun buf _ _ => ⟨?_, rfl⟩
  -- the only read is from a file without bytes
  simp only [handle]
  rcases World.pread_empty c hfd hempty (cfg.alignedSize size) (cfg.alignLowerOffset offset) with
    ⟨e, heq⟩ | heq <;> rw [heq]
  · exact Int.neg_nonpos_of_nonneg (Int.natCast_nonneg e)
  · exact wrap32_zero.le

/-- The requests of a mount that is only read. -/
def ReadOnly (cfg : Config) (P : Path → Prop) (w : World) : Request → Prop
  | .cfsOpen path _ => P path
  | .cfsRead path _ _ fh | .cfsRelease path fh => P path ∧ HandleOf cfg w path fh
  | _ => False

theorem only_cfsOpen_spares {path : Path} (hp : P path) (flags : Nat) :
    Prog.Only (·.spares cfg P) (cfsOpen cfg path flags) := by
  have hdrop : Prog.Only (·.spares cfg P) (dropCached cfg path) :=
    Prog.only_bind (only_deleteFile rfl (fun _ => trivial) rfl rfl) fun _ =>
      Prog.only_bind (only_ask trivial) fun _ => Prog.only_pure _
  have hcheck : ∀ st b, Prog.Only (·.spares cfg P) (checkUpToDate cfg path st b) := fun st b =>
    Prog.only_ite _ (Prog.only_bind (Prog.only_bind (only_ask trivial) fun _ => Prog.only_pure _)
      fun _ => Prog.only_ite _ (Prog.only_bind hdrop fun _ => Prog.only_pure _) (Prog.only_pure _))
      (Prog.only_pure _)
  have hensure : ∀ st b, Prog.Only (·.spares cfg P) (ensureCached cfg path st b) :=
    fun _ => only_ensureCached rfl trivial trivial fun _ => trivial
  refine Prog.only_bind (only_ask trivial) fun r => Prog.only_bind
    (only_lookupRow (only_ask rfl) rfl) fun present => Prog.only_ite _ (Prog.only_ite _
      (Prog.only_bind hdrop fun _ => Prog.only_pure _) (Prog.only_pure _)) ?_
  exact Prog.only_bind (Prog.only_bind (only_ask trivial) fun _ => Prog.only_pure _) fun st =>
    Prog.only_bind (hcheck st _) fun b => Prog.only_bind (hensure st b) fun _ =>
      only_openHandle ⟨path, hp, rfl⟩ (fun _ => trivial) _

theorem Hollow.step (h : Hollow cfg P w) (hs : Step blind cfg (ReadOnly cfg P) w w') :
    Hollow cfg P w' := by
  obtain ⟨rq, fuel, hrq, he⟩ := hs
  have honly : ∀ {α : Type} {p : CfsM α}, Prog.Only (·.spares cfg P) p →
      Prog.wp (env blind True) p (fun _ w' => Hollow cfg P w') w := fun hp =>
    Prog.wp_of_only hp trivial (fun _ _ _ hop _ hI => ⟨trivial, hI.handle hop⟩) h
  refine Prog.wp_exec (Q := fun _ w' => Hollow cfg P w') ?_ he
  cases rq with
  | cfsOpen path flags =>
      exact (Prog.wp_bind _ _ _ _).mpr (honly (only_cfsOpen_spares hrq flags))
  | cfsRead path size offset fh =>
      obtain ⟨-, ni, ci, hfh, -⟩ := hrq
      refine (Prog.wp_bind _ _ _ _).mpr (Prog.wp_mono (wp_cfsRead_blind h hfh) ?_)
      rintro r w' ⟨-, rfl⟩
      exact h
  | cfsRelease path fh =>
      refine (Prog.wp_bind _ _ _ _).mpr (honly ?_)
      exact Prog.only_bind (only_ask trivial) fun _ => Prog.only_bind (only_ask trivial) fun _ =>
        Prog.only_bind (only_ask trivial) fun _ => Prog.only_bind (only_ask trivial) fun _ =>
          Prog.only_bind (only_ask trivial) fun _ => Prog.only_pure _
  | cfsWrite path buf offset fh => exact hrq.elim
  | cfsUtime path modtime => exact hrq.elim
  | cfsUnlink path => exact hrq.elim

/-- After `create_tables` has stopped between the two tables, a mount with an empty cache
    serves no byte of any file: whatever else fails, no cache file gets a byte, and each
    read returns 0 or an error and changes nothing. -/
theorem half_created_serves_nothing {w₀ : World} (hfresh : Fresh cfg P w₀)
    (hfds : w₀.fds = fun _ => none) (hrun : Run blind cfg (ReadOnly cfg P) w₀ w) {path : Path}
    {size offset fh fuel : Nat} {r : Int × List UInt8} (hfh : HandleOf cfg w path fh)
    (he : Prog.Exec (env blind True) (cfsRead cfg fuel path size offset fh) w r w') :
    (∀ p, P p → w.cache.content (cfg.fullCachePath p) = []) ∧ r.1 ≤ 0 ∧ w' = w := by
  have hstart : Hollow cfg P w₀ :=
    ⟨fun p i hp hi => absurd (hfresh.cacheEmpty p hp) (by simp [hi]),
      fun fd f hf => absurd hf (by simp [hfds])⟩
  have hollow : Hollow cfg P w := by
    clear hfh he
    induction hrun with
    | refl => exact hstart
    | tail _ hs ih => exact ih.step hs
  obtain ⟨ni, ci, hopened, -⟩ := hfh
  exact ⟨hollow.content,
    Prog.wp_exec (Q := fun r w' => r.1 ≤ 0 ∧ w' = w) (wp_cfsRead_blind hollow hopened) he⟩

/-- The mount of `sampleOpened`, without the table. -/
def sampleBlind : World :=
  (sampleWorld [1, 2, 3, 4, 5, 6, 7, 8]).served blind sampleConfig {} (.cfsOpen samplePath 2)

/-- A file of eight bytes is opened and read; the lookups of its two blocks fail. -/
theorem half_created_serves_nothing_sample : ∃ r w',
    Run blind sampleConfig (ReadOnly sampleConfig (· = samplePath))
      (sampleWorld [1, 2, 3, 4, 5, 6, 7, 8]) sampleBlind ∧
    Prog.Exec (env blind True) (cfsRead sampleConfig 1 samplePath 8 0 1) sampleBlind r w' ∧
      sampleBlind.cache.content (sampleConfig.fullCachePath samplePath) = [] ∧
        r.1 ≤ 0 ∧ w' = sampleBlind := by
  have hfh : HandleOf sampleConfig sampleBlind samplePath 1 :=
    ⟨1, 2, ⟨⟨3, 5⟩, by decide, ⟨true, true, false, by decide⟩, true, true, by decide⟩, by decide⟩
  have hrun : Run blind sampleConfig (ReadOnly sampleConfig (· = samplePath))
      (sampleWorld [1, 2, 3, 4, 5, 6, 7, 8]) sampleBlind :=
    .single (step_served {} (.cfsOpen samplePath 2) (by decide) rfl)
  obtain ⟨x, hx⟩ : ∃ x, Prog.runAllowed (env blind True)
      (fun n => if n < 2 then { err := some EIO } else {})
      (cfsRead sampleConfig 1 samplePath 8 0 1) sampleBlind = some x :=
    Option.isSome_iff_exists.mp (by decide)
  have he := Prog.exec_of_runAllowed _ hx
  obtain ⟨hempty, hread⟩ :=
    half_created_serves_nothing (sampleWorld_fresh _) rfl hrun hfh he
  exact ⟨x.1, x.2, hrun, he, hempty samplePath rfl, hread⟩

end Hollow

end CacheFs
