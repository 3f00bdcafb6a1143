/-
  CacheFs.Truncation

  What `cfs_truncate` and `cfs_ftruncate` do to recorded blocks.

  Both resize the cache file and then the NAS file, report the second result only,
  and leave the rows alone.  Either call may fail alone, and a handle may refer to
  files that the path does not name any more, so each of the two files under the
  path is resized or not.  `TruncateSafe` says for the four cases which recorded
  positions matter: where the NAS file grows the copy may hold padding, and where
  only the copy shrinks it loses bytes.
-/

import CacheFs.Transparency

namespace CacheFs

open CacheFs.Effect
open CacheFs.Posix

/-- The recorded blocks of `path` survive a change to `newsize` bytes that reaches
    the copy and the NAS file, or only one of them. -/
def TruncateSafe (cfg : Config) (path : Path) (newsize : Nat) (copyCut nasCut : Bool)
    (w : World) : Prop :=
  ∀ o, w.db.Recorded (cfsPathToFileName path) o → ∀ i, o ≤ i → i < o + cfg.blockSize →
    match copyCut, nasCut with
    | true, true => (w.nas.content (cfg.fullNasPath path)).length ≤ i → i < newsize →
        (w.cache.content (cfg.fullCachePath path))[i]?.getD 0 = 0
    | false, true => (w.nas.content (cfg.fullNasPath path)).length ≤ i → i < newsize →
        (w.cache.content (cfg.fullCachePath path))[i]? = some 0
    | true, false => newsize ≤ i → (w.nas.content (cfg.fullNasPath path)).length ≤ i
    | false, false => True

section Truncate

variable {cfg : Config} {path : Path} {w w' : World} {newsize : Nat}

/-- The bytes under a name after they have been resized, or not. -/
def resized (cut : Bool) (data : List UInt8) (newsize : Nat) : List UInt8 :=
  if cut then truncate data newsize else data

/-- The four cases. -/
theorem blocksAgree_resized_iff {copyCut nasCut : Bool} (h : BlocksAgree cfg path w)
    (hdb : w'.db = w.db)
    (hcopy : w'.cache.content (cfg.fullCachePath path) =
      resized copyCut (w.cache.content (cfg.fullCachePath path)) newsize)
    (hnas : w'.nas.content (cfg.fullNasPath path) =
      resized nasCut (w.nas.content (cfg.fullNasPath path)) newsize) :
    BlocksAgree cfg path w' ↔ TruncateSafe cfg path newsize copyCut nasCut w := by
  unfold BlocksAgree TruncateSafe
  rw [hdb, hcopy, hnas]
  refine forall₂_congr fun o ho => ?_
  obtain ⟨hmod, hag⟩ := h o ho
  rw [and_iff_right hmod]
  cases copyCut <;> cases nasCut
  · simpa [resized] using hag
  · exact hag.truncate_master_iff newsize
  · exact hag.truncate_copy_iff newsize
  · exact hag.truncate_both_iff newsize

-- ============================================================================
-- The calls
-- ============================================================================

/-- The world after the inode `i` has been resized. -/
def World.resize (w : World) (side : Side) (i : Ino) (newsize : Nat) (now : Int) : World :=
  w.setFs side ((w.fs side).setData i (Posix.truncate ((w.fs side).inode i).data newsize) now)

variable {c : Choice} {side : Side} {p : Path} {fd : Int} {i : Ino} {now : Int}

/-- `truncate` fails and changes nothing, or resizes the file the name leads to. -/
theorem World.truncate_cases (w : World) (c : Choice) (side : Side) (p : Path) (newsize : Nat) :
    (∃ e, w.truncate c side p newsize = (.error e, w)) ∨
    ∃ i, (w.fs side).follow Fs.maxLinks p = .ok i ∧
      w.truncate c side p newsize = (.ok 0, w.resize side i newsize c.now) := by
  unfold World.truncate
  split
  · exact Or.inl ⟨_, rfl⟩
  · exact Or.inl ⟨_, rfl⟩
  · next i _ hi =>
      split
      · exact Or.inl ⟨EISDIR, rfl⟩
      · split
        · exact Or.inl ⟨EINVAL, rfl⟩
        · exact Or.inr ⟨i, hi, rfl⟩

/-- So does `ftruncate`, with the file of the descriptor. -/
theorem World.ftruncate_cases (w : World) (c : Choice) (fd : Int) (newsize : Nat) :
    (∃ e, w.ftruncate c fd newsize = (.error e, w)) ∨
    ∃ f, w.fds fd = some f ∧
      w.ftruncate c fd newsize = (.ok 0, w.resize f.side f.ino newsize c.now) := by
  unfold World.ftruncate
  split
  · exact Or.inl ⟨_, rfl⟩
  · exact Or.inl ⟨EBADF, rfl⟩
  · next f _ hf =>
      split
      · exact Or.inl ⟨EINVAL, rfl⟩
      · exact Or.inr ⟨f, hf, rfl⟩

/-- The outcome depends on the side it is about only. -/
theorem World.truncate_fst_congr (h : w'.fs side = w.fs side) :
    (w'.truncate c side p newsize).1 = (w.truncate c side p newsize).1 := by
  unfold World.truncate
  rw [h]
  split <;> try rfl
  split <;> try rfl
  split <;> rfl

theorem World.ftruncate_fst_congr (h : w'.fds = w.fds) :
    (w'.ftruncate c fd newsize).1 = (w.ftruncate c fd newsize).1 := by
  unfold World.ftruncate
  rw [h]
  split <;> try rfl
  split <;> rfl

@[simp] theorem World.db_resize : (w.resize side i newsize now).db = w.db := by
  cases side <;> rfl

@[simp] theorem World.fds_resize : (w.resize side i newsize now).fds = w.fds := by
  cases side <;> rfl

theorem World.fs_resize_ne {side' : Side} (h : side' ≠ side) :
    (w.resize side i newsize now).fs side' = w.fs side' := by
  cases side <;> cases side' <;> first | rfl | exact absurd rfl h

/-- The bytes under a name after an inode has been resized. -/
theorem World.content_resize : ((w.resize side i newsize now).fs side).content p =
    resized (decide ((w.fs side).lookup p = some i)) ((w.fs side).content p) newsize := by
  have hfs : (w.resize side i newsize now).fs side =
      (w.fs side).setData i (Posix.truncate ((w.fs side).inode i).data newsize) now := by
    cases side <;> rfl
  rw [hfs]
  by_cases hi : (w.fs side).lookup p = some i
  · rw [Fs.content_of_lookup (by rwa [Fs.lookup_setData]), Fs.content_of_lookup hi,
      Fs.inode_setData, if_pos rfl, decide_eq_true hi]
    rfl
  · rw [decide_eq_false hi]
    refine Fs.content_congr (Fs.lookup_setData _ _ _ _ _) fun j hj => ?_
    have hji : j ≠ i := fun heq => hi (heq ▸ hj)
    rw [Fs.inode_setData, if_neg hji]

/-- The bytes under a regular name after `truncate` of that name. -/
theorem World.content_truncate (w : World) (side : Side)
    (hreg : ∀ i, (w.fs side).lookup p = some i → ((w.fs side).inode i).kind = .reg) :
    ((w.truncate c side p newsize).2.fs side).content p =
      resized (w.truncate c side p newsize).1.isOk ((w.fs side).content p) newsize := by
  rcases w.truncate_cases c side p newsize with
    ⟨e, he⟩ | ⟨i, hi, he⟩
  · rw [he]
    rfl
  · obtain ⟨j, hj⟩ := Fs.lookup_of_follow hi
    have hij : i = j := Except.ok.inj (hi.symm.trans
      (Fs.follow_of_lookup hj (by simp [hreg j hj]) _))
    rw [he, World.content_resize, hij, decide_eq_true hj]
    rfl

/-- The bytes under a name after `ftruncate` of a descriptor of that side. -/
theorem World.content_ftruncate {f : OpenFile} (hfd : w.fds fd = some f) :
    ((w.ftruncate c fd newsize).2.fs f.side).content p =
      resized ((w.ftruncate c fd newsize).1.isOk && decide ((w.fs f.side).lookup p = some f.ino))
        ((w.fs f.side).content p) newsize := by
  rcases w.ftruncate_cases c fd newsize with ⟨e, he⟩ | ⟨g, hg, he⟩
  · rw [he]
    rfl
  · obtain rfl : g = f := Option.some.inj (hg.symm.trans hfd)
    rw [he, World.content_resize]
    rfl

/-- Neither call touches the rows, the descriptors or the other side. -/
theorem World.truncate_frame (w : World) (c : Choice) (side : Side) (p : Path) (newsize : Nat) :
    (w.truncate c side p newsize).2.db = w.db ∧
    ∀ side', side' ≠ side → (w.truncate c side p newsize).2.fs side' = w.fs side' := by
  rcases w.truncate_cases c side p newsize with
    ⟨e, he⟩ | ⟨i, hi, he⟩
  · rw [he]
    exact ⟨rfl, fun _ _ => rfl⟩
  · rw [he]
    exact ⟨World.db_resize, fun _ hne => World.fs_resize_ne hne⟩

theorem World.ftruncate_frame (c : Choice) (newsize : Nat) {f : OpenFile}
    (hfd : w.fds fd = some f) :
    (w.ftruncate c fd newsize).2.db = w.db ∧ (w.ftruncate c fd newsize).2.fds = w.fds ∧
      ∀ side', side' ≠ f.side → (w.ftruncate c fd newsize).2.fs side' = w.fs side' := by
  rcases w.ftruncate_cases c fd newsize with ⟨e, he⟩ | ⟨g, hg, he⟩
  · rw [he]
    exact ⟨rfl, rfl, fun _ _ => rfl⟩
  · obtain rfl : g = f := Option.some.inj (hg.symm.trans hfd)
    rw [he]
    exact ⟨World.db_resize, World.fds_resize, fun _ hne => World.fs_resize_ne hne⟩

-- ============================================================================
-- The callbacks
-- ============================================================================

variable {cs : Nat → Choice} {ret : Int}

theorem run_cfsTruncate
    (h : Prog.run (env anyOutcome False) cs (cfsTruncate cfg path newsize) w = some (ret, w')) :
    w' = ((w.truncate (cs 0) .cache (cfg.fullCachePath path) newsize).2.truncate (cs 1) .nas
      (cfg.fullNasPath path) newsize).2 :=
  (Prod.mk.inj (Option.some.inj h)).2.symm

theorem run_cfsFtruncate {fh : Nat} {dualFH : DualFileHandle} (hfh : w.handles fh = some dualFH)
    (h : Prog.run (env anyOutcome False) cs (cfsFtruncate fh newsize) w = some (ret, w')) :
    w' = ((w.ftruncate (cs 1) dualFH.cacheFH newsize).2.ftruncate (cs 2) dualFH.nasFH
      newsize).2 := by
  have hload : (w.handles fh).getD ⟨-1, -1⟩ = dualFH := by rw [hfh, Option.getD_some]
  have hw' := (Prod.mk.inj (Option.some.inj h)).2.symm
  simpa only [env, handle, hload] using hw'

/-- After `cfs_truncate`, and after `cfs_ftruncate` through an open handle, with
    any outcome of the two calls, the recorded blocks agree exactly when the resizing
    was safe for them. -/
theorem truncation_coherent_iff
    (hnas : ∀ i, w.nas.lookup (cfg.fullNasPath path) = some i → (w.nas.inode i).kind = .reg)
    (hcache : ∀ i, w.cache.lookup (cfg.fullCachePath path) = some i →
      (w.cache.inode i).kind = .reg) (h : BlocksAgree cfg path w) (newsize : Nat)
    (cs : Nat → Choice) :
    (∀ ret w', Prog.run (env anyOutcome False) cs (cfsTruncate cfg path newsize) w =
        some (ret, w') →
      (BlocksAgree cfg path w' ↔ TruncateSafe cfg path newsize
        (w.truncate (cs 0) .cache (cfg.fullCachePath path) newsize).1.isOk
        (w.truncate (cs 1) .nas (cfg.fullNasPath path) newsize).1.isOk w)) ∧
    (∀ fh dualFH ni ci ret w', w.handles fh = some dualFH → Descriptors w dualFH ni ci →
      Prog.run (env anyOutcome False) cs (cfsFtruncate fh newsize) w = some (ret, w') →
      (BlocksAgree cfg path w' ↔ TruncateSafe cfg path newsize
        ((w.ftruncate (cs 1) dualFH.cacheFH newsize).1.isOk &&
          decide (w.cache.lookup (cfg.fullCachePath path) = some ci))
        ((w.ftruncate (cs 2) dualFH.nasFH newsize).1.isOk &&
          decide (w.nas.lookup (cfg.fullNasPath path) = some ni)) w)) := by
  constructor
  · intro ret w' hrun
    set w₁ := (w.truncate (cs 0) .cache (cfg.fullCachePath path) newsize).2 with hw₁
    obtain ⟨hdb₁, hfs₁⟩ := w.truncate_frame (cs 0) .cache (cfg.fullCachePath path) newsize
    obtain ⟨hdb₂, hfs₂⟩ := w₁.truncate_frame (cs 1) .nas (cfg.fullNasPath path) newsize
    have hnas₁ : w₁.fs .nas = w.fs .nas := hfs₁ .nas (by decide)
    have hcache₂ := hfs₂ .cache (by decide)
    have hw' := run_cfsTruncate hrun
    rw [← hw₁] at hw'
    refine blocksAgree_resized_iff h ?_ ?_ ?_
    · rw [hw', hdb₂, hw₁, hdb₁]
    · rw [hw']
      refine Eq.trans (congrArg (fun fs => Fs.content fs _) hcache₂) ?_
      exact World.content_truncate w .cache hcache
    · rw [hw', ← World.truncate_fst_congr hnas₁]
      refine Eq.trans (World.content_truncate w₁ .nas ?_) ?_
      · rw [hnas₁]
        exact hnas
      · rw [hnas₁]
        rfl
  · intro fh dualFH ni ci ret w' hfh hd hrun
    obtain ⟨⟨r₁, wr₁, ap, hnasFH⟩, r₂, wr₂, hcacheFH⟩ := hd
    set w₁ := (w.ftruncate (cs 1) dualFH.cacheFH newsize).2 with hw₁
    obtain ⟨hdb₁, hfds₁, hfs₁⟩ := World.ftruncate_frame (cs 1) newsize hcacheFH
    have hnasFH₁ := hnasFH
    rw [← hfds₁] at hnasFH₁
    obtain ⟨hdb₂, -, hfs₂⟩ := World.ftruncate_frame (cs 2) newsize hnasFH₁
    have hnas₁ : w₁.fs .nas = w.fs .nas := hfs₁ .nas Side.noConfusion
    have hcache₂ := hfs₂ .cache Side.noConfusion
    have hw' := run_cfsFtruncate hfh hrun
    rw [← hw₁] at hw'
    refine blocksAgree_resized_iff h ?_ ?_ ?_
    · rw [hw', hdb₂, hdb₁]
    · rw [hw']
      refine Eq.trans (congrArg (fun fs => Fs.content fs _) hcache₂) ?_
      exact World.content_ftruncate hcacheFH
    · rw [hw', ← World.ftruncate_fst_congr hfds₁]
      refine Eq.trans (World.content_ftruncate (p := cfg.fullNasPath path) hnasFH₁) ?_
      rw [hnas₁]
      rfl

/-- A file of 6 bytes has been opened and read: its second block is stored with two
    bytes of the heap after the end of the file. -/
def samplePadded : World :=
  (sampleOpened [1, 2, 3, 4, 5, 6]).served succeeds sampleConfig { junk := fun _ => 7 }
    (.cfsRead samplePath 8 0 1)

theorem run_samplePadded : Run succeeds sampleConfig (Clean sampleConfig (· = samplePath))
    (sampleWorld [1, 2, 3, 4, 5, 6]) samplePadded := by
  have hcur : Current sampleConfig (sampleOpened [1, 2, 3, 4, 5, 6]) samplePath 1 1 2 :=
    ⟨⟨⟨3, 5⟩, by decide, ⟨true, true, false, by decide⟩, true, true, by decide⟩,
      by decide, by decide⟩
  exact (Relation.ReflTransGen.single (step_served {} (.cfsOpen samplePath 2) (by decide) rfl)).tail
    (step_served _ (.cfsRead samplePath 8 0 1) (by decide) ⟨rfl, 1, 2, hcur, by decide⟩)

theorem blocksAgree_samplePadded : BlocksAgree sampleConfig samplePath samplePadded :=
  (Clean.run (by decide) (sampleWorld_fresh _) run_samplePadded).2 _ rfl

/-- Cutting the file to 3 bytes is safe. -/
theorem truncation_coherent_cut : ∃ ret w',
    Prog.run (env anyOutcome False) (fun _ => {}) (cfsTruncate sampleConfig samplePath 3)
      samplePadded = some (ret, w') ∧
    BlocksAgree sampleConfig samplePath w' := by
  have hni : samplePadded.nas.lookup (sampleConfig.fullNasPath samplePath) = some 1 := by decide
  have hci : samplePadded.cache.lookup (sampleConfig.fullCachePath samplePath) = some 2 := by decide
  have hnas : ∀ i, samplePadded.nas.lookup (sampleConfig.fullNasPath samplePath) = some i →
      (samplePadded.nas.inode i).kind = .reg := by
    intro i hi
    rw [← Option.some.inj (hni.symm.trans hi)]
    decide
  have hcache : ∀ i, samplePadded.cache.lookup (sampleConfig.fullCachePath samplePath) = some i →
      (samplePadded.cache.inode i).kind = .reg := by
    intro i hi
    rw [← Option.some.inj (hci.symm.trans hi)]
    decide
  have hcopyCut : (samplePadded.truncate {} .cache (sampleConfig.fullCachePath samplePath)
      3).1.isOk = true := by decide
  have hnasCut : (samplePadded.truncate {} .nas (sampleConfig.fullNasPath samplePath)
      3).1.isOk = true := by decide
  have hlen : (samplePadded.nas.content (sampleConfig.fullNasPath samplePath)).length = 6 := by
    decide
  obtain ⟨⟨ret, w'⟩, hrun⟩ := Option.isSome_iff_exists.mp
    (by decide : (Prog.run (env anyOutcome False) (fun _ => {})
      (cfsTruncate sampleConfig samplePath 3) samplePadded).isSome = true)
  refine ⟨ret, w', hrun, ((truncation_coherent_iff hnas hcache blocksAgree_samplePadded 3
    (fun _ => {})).1 ret w' hrun).mpr ?_⟩
  rw [hcopyCut, hnasCut]
  intro o _ i _ _ hge hlt
  omega

/-- Growing it to 8 bytes exposes the padding, both calls succeeding. -/
theorem truncation_not_coherent : ¬ ∀ (cfg : Config) (P : Path → Prop) (w₀ w w' : World)
    (path : Path) (newsize : Nat) (cs : Nat → Choice) (ret : Int), 0 < cfg.blockSize →
    Fresh cfg P w₀ → Run succeeds cfg (OnFiles cfg P) w₀ w → P path → BlocksAgree cfg path w →
    Prog.run (env anyOutcome False) cs (cfsTruncate cfg path newsize) w = some (ret, w') →
    BlocksAgree cfg path w' := by
  intro h
  have hrun : Run succeeds sampleConfig (OnFiles sampleConfig (· = samplePath))
      (sampleWorld [1, 2, 3, 4, 5, 6]) samplePadded := Clean.onFiles run_samplePadded
  obtain ⟨⟨ret, w'⟩, htrunc, hf⟩ := Option.map_eq_some_iff.mp
    (by decide : (Prog.run (env anyOutcome False) (fun _ => {})
      (cfsTruncate sampleConfig samplePath 8) samplePadded).map (fun x =>
        (x.2.db.selectBlockId 4 (cfsPathToFileName samplePath),
          x.2.cache.content (sampleConfig.fullCachePath samplePath),
          x.2.nas.content (sampleConfig.fullNasPath samplePath))) =
      some (true, [1, 2, 3, 4, 5, 6, 7, 7], [1, 2, 3, 4, 5, 6, 0, 0]))
  simp only [Prod.mk.injEq] at hf
  obtain ⟨hsel, hcopy, hdata⟩ := hf
  have hblock := (h _ _ _ _ _ _ _ _ _ (by decide) (sampleWorld_fresh _) hrun rfl
    blocksAgree_samplePadded htrunc 4 (Db.recorded_of_selectBlockId hsel)).2
  rw [hcopy, hdata] at hblock
  exact absurd (hblock 6 (by decide) (by decide) (by decide)) (by decide)

end Truncate

end CacheFs
