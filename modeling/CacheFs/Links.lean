/-
  CacheFs.Links

  Whether the names of one NAS file serve the same bytes.

  Rows and cache files belong to a name.  `cfs_link` links the cache file as well, when
  there is one: the two names then have one cache file, but rows of their own.  Names
  that were linked before, or of which one has been invalidated since, have two cache
  files.  A write stores its window under the name it came through, so a block recorded
  for another name gets the new bytes only if the cache file is the same one.
  `SparesLinks` is the condition under which no recorded block is left behind.
-/

import CacheFs.Availability

namespace CacheFs

open CacheFs.Effect
open CacheFs.Posix

-- ============================================================================
-- Opening a name that may have a cache file already
-- ============================================================================

/-- The copy of `path` is the cache file that was there, now with a row. -/
structure Adopted (cfg : Config) (path : Path) (w w' : World) : Prop where
  wf : w'.db.WF
  cache : w'.cache = w.cache
  hasFile : ∀ n, w'.db.HasFile n ↔ w.db.HasFile n ∨ n = cfsPathToFileName path
  recorded : ∀ n o, w'.db.Recorded n o ↔ w.db.Recorded n o
  lookup : ∃ i, w.cache.lookup (cfg.fullCachePath path) = some i

theorem onlyNatural_natural : OnlyNatural natural := fun _ _ _ h => h

theorem clock_natural (now : Int) : Clock natural now :=
  ⟨{ now }, .stepSelect, .init .empty .empty, ⟨rfl, rfl⟩, rfl⟩

section Opening

variable {S : Prop} {cfg : Config} {w : World} {path : Path}

theorem World.OpensRdwr.lookup {p : Path} (h : w.OpensRdwr p) : ∃ i, w.cache.lookup p = some i := by
  obtain ⟨i, hi, -⟩ := h
  exact Fs.lookup_of_follow hi

/-- An open that succeeds has opened the cache file. -/
theorem wp_openHandle_opens (nasFH : Int) :
    Prog.wp (env natural S) (openHandle cfg path nasFH) (fun r w' => r.1 = 0 →
      w.OpensRdwr (cfg.fullCachePath path) ∧ w'.nas = w.nas ∧ w'.cache = w.cache ∧
        w'.metadata = w.metadata) w := by
  unfold openHandle
  rw [Prog.wp_bind]
  refine wp_openFile_rdwr onlyNatural_natural (fun hopen i hi => ?_) fun _ e => ?_
  · rw [Prog.wp_bind]
    apply wp_mallocHandle
    rw [Prog.wp_pure]
    exact fun _ => ⟨hopen, rfl, rfl, rfl⟩
  · have he := e.pos
    have hneg : logSyscall (.error e) < 0 := by
      simp only [logSyscall]
      omega
    rw [Prog.wp_bind]
    apply wp_mallocHandle
    rw [Prog.wp_pure, if_pos hneg]
    exact fun h => absurd h (Int.ne_of_lt hneg)

/-- Without a copy to use, there is a new one afterwards, or a row for what was there. -/
theorem wp_ensureCached_opens {w₁ : World} (hb : Blank cfg path w w₁) {st : Stat}
    (hreg : st.kind = .reg) (nasFH : Int) :
    Prog.wp (env natural S) (ensureCached cfg path st false >>= fun _ => openHandle cfg path nasFH)
      (fun r w' => r.1 = 0 → w'.nas = w.nas ∧ (Renewed cfg natural path w w' ∨
        (w₁.OpensRdwr (cfg.fullCachePath path) ∧ w'.cache = w₁.cache ∧
          w₁.db.insertFile (cfsPathToFileName path) st.size = some w'.db))) w₁ := by
  have hnone : ¬ w₁.db.HasFile (cfsPathToFileName path) := fun h => ((hb.hasFile _).mp h).2 rfl
  unfold ensureCached
  rw [if_neg (by decide), Prog.wp_bind, Prog.wp_bind]
  refine wp_createFile onlyNatural_natural.sql (fun h => absurd h hnone) fun db hdb => ?_
  rw [Prog.wp_bind, hreg]
  refine wp_mkNod_natural onlyNatural_natural (fun _ _ => ?_) fun _ now fs fds nextFd hfs => ?_
  · rw [Prog.wp_pure]
    refine Prog.wp_mono (wp_openHandle_opens nasFH) fun r w' h hr => ?_
    obtain ⟨hopen, hnas, hcache, hmeta⟩ := h hr
    refine ⟨hnas.trans hb.nas, Or.inr ⟨hopen, hcache, ?_⟩⟩
    rw [hdb, World.db, hmeta]
  · rw [Prog.wp_pure]
    refine Prog.wp_mono (wp_openHandle_opens nasFH) fun r w' h hr => ?_
    obtain ⟨-, hnas, hcache, hmeta⟩ := h hr
    exact ⟨hnas.trans hb.nas, Or.inl (hb.renewed hdb hfs (clock_natural now) hmeta hcache)⟩

/-- An open that succeeds keeps the copy, adopts the cache file under its name, or starts
    a new one. -/
theorem wp_cfsOpen_linked (hwf : w.db.WF) {ni : Ino}
    (hni : w.nas.lookup (cfg.fullNasPath path) = some ni) (hreg : (w.nas.inode ni).kind = .reg)
    (hcache : ∀ i, w.cache.lookup (cfg.fullCachePath path) = some i →
      (w.cache.inode i).kind = .reg)
    (hrow : w.db.HasFile (cfsPathToFileName path) →
      ∃ i, w.cache.lookup (cfg.fullCachePath path) = some i) {flags : Nat} :
    Prog.wp (env natural S) (cfsOpen cfg path flags) (fun r w' => r.1 = 0 →
      w'.nas = w.nas ∧ (Adopted cfg path w w' ∨ Renewed cfg natural path w w')) w := by
  unfold cfsOpen
  rw [Prog.wp_bind]
  refine wp_openFile_nas onlyNatural_natural hni hreg fun f => ?_
  have hret : ¬ logSyscall (.ok (w.nextFd : Int)) < 0 := by simp [logSyscall]
  rw [Prog.wp_bind]
  apply wp_isFileInCache onlyNatural_natural.sql
  have hdb : (w.addFd f).db = w.db := rfl
  rw [hdb, if_neg hret, Prog.wp_bind]
  unfold cfsGetNASattr
  rw [Prog.wp_bind]
  refine wp_lstat_natural onlyNatural_natural (fun i hi => ?_) fun hnone =>
    absurd (hni.symm.trans hnone) (Option.some_ne_none ni)
  obtain rfl : ni = i := Option.some.inj (hni.symm.trans hi)
  rw [Prog.wp_pure, Prog.wp_bind]
  by_cases hfile : w.db.HasFile (cfsPathToFileName path)
  · have hsome := Option.isSome_iff_ne_none.mpr (mt Db.fileId?_eq_none_iff.mp (not_not.mpr hfile))
    obtain ⟨ci₀, hci₀⟩ := hrow hfile
    rw [hsome, decide_eq_true (by decide)]
    have hcopy : w.cache.lookup (cfg.fullCachePath path) ≠ none := by
      rw [hci₀]
      exact Option.some_ne_none ci₀
    refine wp_checkUpToDate_natural onlyNatural_natural (fun ci hci _ => ?_) (fun ci hci _ _ => ?_)
      (fun ci hci _ hdir => ?_) (fun hnone => absurd hnone hcopy) fun hnone => absurd hnone hcopy
    · unfold ensureCached
      rw [if_pos rfl, Prog.wp_bind, Prog.wp_pure]
      refine Prog.wp_mono (wp_openHandle_opens _) fun r w' h hr => ?_
      obtain ⟨-, hnas, hc, hmeta⟩ := h hr
      have hdb' : w'.db = w.db := by rw [World.db, hmeta]; rfl
      refine ⟨hnas, Or.inl ⟨hdb' ▸ hwf, hc, fun n => ?_, fun n o => by rw [hdb'], ⟨ci, hci⟩⟩⟩
      rw [hdb']
      exact ⟨Or.inl, fun h => h.elim id fun hn => hn ▸ hfile⟩
    · have hb : Blank cfg path w (w.forget cfg path) := .forget hwf
      have hb₁ : Blank cfg path w ((w.addFd f).forget cfg path) := ⟨hb.nas, hb.wf,
        hb.metaBlockSize, hb.hasFile, hb.recorded, hb.lookup, hb.inode, hb.nextIno⟩
      refine Prog.wp_mono (wp_ensureCached_opens hb₁ hreg _) fun r w' h hr => ?_
      obtain ⟨hnas, hr | ⟨hopen, -, -⟩⟩ := h hr
      · exact ⟨hnas, Or.inr hr⟩
      · -- nothing is left under the name
        obtain ⟨i, hi⟩ := hopen.lookup
        have hgone := Fs.lookup_dropName w.cache (cfg.fullCachePath path) (cfg.fullCachePath path)
        rw [if_pos rfl] at hgone
        cases hgone.symm.trans hi
    · cases hdir.symm.trans (hcache ci hci)
  · rw [Db.fileId?_eq_none_iff.mpr hfile]
    have hb : Blank cfg path w w := .refl hwf hfile
    have hb₁ : Blank cfg path w (w.addFd f) := ⟨hb.nas, hb.wf, hb.metaBlockSize, hb.hasFile,
      hb.recorded, hb.lookup, hb.inode, hb.nextIno⟩
    unfold checkUpToDate
    simp only [Option.isSome_none, Bool.false_eq_true, if_false, ne_eq, not_true_eq_false,
      decide_false, Prog.wp_pure]
    refine Prog.wp_mono (wp_ensureCached_opens hb₁ hreg _) fun r w' h hr => ?_
    obtain ⟨hnas, hr | ⟨hopen, hc, hi⟩⟩ := h hr
    · exact ⟨hnas, Or.inr hr⟩
    · exact ⟨hnas, Or.inl ⟨hwf.insertFile hi, hc, Db.hasFile_insertFile hi,
        hwf.recorded_insertFile hi, hopen.lookup⟩⟩

end Opening

-- ============================================================================
-- The invariant
-- ============================================================================

/-- Names that share a cache file are names of one NAS file, and the recorded blocks of
    each name agree with it. -/
structure Linked (cfg : Config) (P : Path → Prop) (w : World) : Prop where
  wf : w.db.WF
  nasRegular : ∀ p i, P p → w.nas.lookup (cfg.fullNasPath p) = some i →
    (w.nas.inode i).kind = .reg
  cacheRegular : ∀ p i, P p → w.cache.lookup (cfg.fullCachePath p) = some i →
    (w.cache.inode i).kind = .reg
  rows : ∀ p, P p → w.db.HasFile (cfsPathToFileName p) →
    ∃ i, w.cache.lookup (cfg.fullCachePath p) = some i
  copies : ∀ p i, P p → w.cache.lookup (cfg.fullCachePath p) = some i →
    ∃ j, w.nas.lookup (cfg.fullNasPath p) = some j
  shared : ∀ p q i, P p → P q → w.cache.lookup (cfg.fullCachePath p) = some i →
    w.cache.lookup (cfg.fullCachePath q) = some i →
      w.nas.lookup (cfg.fullNasPath p) = w.nas.lookup (cfg.fullNasPath q)
  cacheBounded : w.cache.Bounded
  agree : Coherent cfg P w

/-- A mount without rows and without cache files for the names of `P`.  No two of them
    have one cache name, but they may be names of one NAS file. -/
structure Unlinked (cfg : Config) (P : Path → Prop) (w : World) : Prop where
  db : w.db = {}
  nasRegular : ∀ p i, P p → w.nas.lookup (cfg.fullNasPath p) = some i →
    (w.nas.inode i).kind = .reg
  cacheEmpty : ∀ p, P p → w.cache.lookup (cfg.fullCachePath p) = none
  cacheBounded : w.cache.Bounded

/-- The recorded blocks of the names of a NAS file that a write through a handle for
    `ci`, asked for at `offset` and landing at `pos`, neither changes nor stores again: it
    stores its window under every name that has the cache file of the handle. -/
def SparesLinks (cfg : Config) (P : Path → Prop) (w : World) (ni ci : Ino)
    (offset pos n : Nat) : Prop :=
  0 < n → ∀ q o, P q → w.nas.lookup (cfg.fullNasPath q) = some ni →
    w.db.Recorded (cfsPathToFileName q) o →
    (w.cache.lookup (cfg.fullCachePath q) = some ci → o ∉ cfg.window offset n) →
    ∀ i, o ≤ i → i < o + cfg.blockSize → min pos (w.nas.inode ni).data.length ≤ i →
      pos + n ≤ i

section Steps

variable {cfg : Config} {A : Choice → Call → World → Prop} {P : Path → Prop} {w w' : World}
  {path newpath : Path} {fh : Nat} {ni ci : Ino}

theorem Unlinked.linked (h : Unlinked cfg P w) : Linked cfg P w := by
  have hnone : ∀ {p i}, P p → w.cache.lookup (cfg.fullCachePath p) ≠ some i := by
    intro p i hp hi
    rw [h.cacheEmpty p hp] at hi
    exact nomatch hi
  exact ⟨h.db ▸ Db.wf_empty, h.nasRegular, fun p i hp hi => absurd hi (hnone hp),
    fun p _ hf => absurd (h.db ▸ hf) (not_hasFile_empty _), fun p i hp hi => absurd hi (hnone hp),
    fun p q i hp _ hi _ => absurd hi (hnone hp), h.cacheBounded,
    fun p _ o ho => absurd (h.db ▸ ho) (not_recorded_empty _ o)⟩

/-- Bytes of the NAS file are stored in the cache file of a handle: each block that is
    recorded afterwards is one of those stored, or it has agreed before. -/
theorem Coherent.stored (h : Coherent cfg P w) {nas : Fs} {m : MetaState} {buf : List UInt8}
    {off : Nat} {now : Int} (hdenotes : w.nas.lookup (cfg.fullNasPath path) = some ni)
    (hsole : ∀ q, P q → w.cache.lookup (cfg.fullCachePath q) = some ci →
      w.nas.lookup (cfg.fullNasPath q) = some ni)
    (hlook : ∀ x, nas.lookup x = w.nas.lookup x) (hother : ∀ i ≠ ni, nas.inode i = w.nas.inode i)
    (hbuf : ∀ j < buf.length, off + j < (nas.inode ni).data.length →
      buf[j]? = (nas.inode ni).data[off + j]?)
    (hrec : ∀ q o, P q → m.db.Recorded (cfsPathToFileName q) o → o % cfg.blockSize = 0 ∧
      (w.db.Recorded (cfsPathToFileName q) o ∨ q = path) ∧
      (w.nas.lookup (cfg.fullNasPath q) = some ni →
        (w.cache.lookup (cfg.fullCachePath q) = some ci ∧ off ≤ o ∧
          o + cfg.blockSize ≤ off + buf.length) ∨
        Agree o (o + cfg.blockSize) (w.cache.content (cfg.fullCachePath q)) (nas.inode ni).data)) :
    Coherent cfg P (World.store { w with nas } m ci buf off now) := by
  intro q hq o ho
  obtain ⟨hmod, hold, hagree⟩ := hrec q o hq ho
  refine ⟨hmod, ?_⟩
  have hcache : ∀ x, (World.store { w with nas } m ci buf off now).cache.lookup x =
      w.cache.lookup x := fun x => Fs.lookup_pwrite _ _ _ _ _ _
  have hdata : ∀ i, ((World.store { w with nas } m ci buf off now).cache.inode i).data =
      if i = ci then pwrite (w.cache.inode ci).data buf off else (w.cache.inode i).data :=
    fun i => Fs.data_pwrite _ _ _ _ _ _
  have hkept : w.cache.lookup (cfg.fullCachePath q) ≠ some ci →
      (World.store { w with nas } m ci buf off now).cache.content (cfg.fullCachePath q) =
        w.cache.content (cfg.fullCachePath q) := by
    intro hci
    refine Fs.content_congr (hcache _) fun i hi => ?_
    have hne : i ≠ ci := fun heq => hci (heq ▸ hi)
    rw [hdata, if_neg hne]
  have hnas : (World.store { w with nas } m ci buf off now).nas = nas := rfl
  by_cases hni : w.nas.lookup (cfg.fullNasPath q) = some ni
  · rw [hnas, Fs.content_of_lookup ((hlook _).trans hni)]
    by_cases hci : w.cache.lookup (cfg.fullCachePath q) = some ci
    · rw [Fs.content_of_lookup ((hcache _).trans hci), hdata, if_pos rfl]
      rcases hagree hni with ⟨-, hlo, hhi⟩ | hagree
      · exact Agree.fill hbuf hlo hhi
      · rw [Fs.content_of_lookup hci] at hagree
        exact hagree.pwrite_of_master hbuf
    · -- another cache file
      rw [hkept hci]
      exact (hagree hni).resolve_left fun h => hci h.1
  · -- another NAS file, so another cache file
    have hne : q ≠ path := fun heq => hni (heq ▸ hdenotes)
    have hci : w.cache.lookup (cfg.fullCachePath q) ≠ some ci := fun hci => hni (hsole q hq hci)
    have hsame : nas.content (cfg.fullNasPath q) = w.nas.content (cfg.fullNasPath q) := by
      refine Fs.content_congr (hlook _) fun i hi => ?_
      have hne : i ≠ ni := fun heq => hni (heq ▸ hi)
      rw [hother i hne]
    rw [hnas, hkept hci, hsame]
    exact (h q hq o (hold.resolve_right hne)).2

/-- A block that `cfs_read` stores agrees with the NAS file. -/
theorem Coherent.fill (h : Coherent cfg P w) (hP : InUse P) (hpath : P path)
    (hni : w.nas.lookup (cfg.fullNasPath path) = some ni)
    (hci : w.cache.lookup (cfg.fullCachePath path) = some ci)
    (hsole : ∀ q, P q → w.cache.lookup (cfg.fullCachePath q) = some ci →
      w.nas.lookup (cfg.fullNasPath q) = some ni) {window : List Nat}
    (hwindow : ∀ o ∈ window, o % cfg.blockSize = 0)
    (hf : Fill cfg A (cfsPathToFileName path) ni ci window w w') : Coherent cfg P w' := by
  obtain ⟨hin, hnew, hm, hlen, hbytes, -⟩ := hf
  refine h.stored hni hsole (fun _ => rfl) (fun _ _ => rfl) hbytes fun q o hq ho => ?_
  rcases (hm.recorded _ _).mp ho with ho | ⟨hn, -, ho⟩
  · obtain ⟨hmod, hagree⟩ := h q hq o ho
    refine ⟨hmod, Or.inl ho, fun hni => Or.inr ?_⟩
    rwa [Fs.content_of_lookup hni] at hagree
  · rw [hP.names q path hq hpath hn, List.mem_singleton.mp ho]
    exact ⟨hwindow _ hin, Or.inr rfl, fun _ => Or.inl ⟨hci, le_refl _, by omega⟩⟩

namespace Linked

/-- The names, the rows and the kinds of the files matter to all but the bytes. -/
theorem congr (h : Linked cfg P w) (hwf : w'.db.WF)
    (hfile : ∀ n, w'.db.HasFile n ↔ w.db.HasFile n)
    (hnasLookup : ∀ x, w'.nas.lookup x = w.nas.lookup x)
    (hnasKind : ∀ i, (w'.nas.inode i).kind = (w.nas.inode i).kind)
    (hlookup : ∀ x, w'.cache.lookup x = w.cache.lookup x)
    (hkind : ∀ i, (w'.cache.inode i).kind = (w.cache.inode i).kind)
    (hnext : w'.cache.nextIno = w.cache.nextIno) (hagree : Coherent cfg P w') :
    Linked cfg P w' where
  wf := hwf
  nasRegular p i hp hi := by
    rw [hnasLookup] at hi
    rw [hnasKind]
    exact h.nasRegular p i hp hi
  cacheRegular p i hp hi := by
    rw [hlookup] at hi
    rw [hkind]
    exact h.cacheRegular p i hp hi
  rows p hp hf := by
    rw [hlookup]
    exact h.rows p hp ((hfile _).mp hf)
  copies p i hp hi := by
    rw [hlookup] at hi
    rw [hnasLookup]
    exact h.copies p i hp hi
  shared p q i hp hq hi hj := by
    rw [hlookup] at hi hj
    rw [hnasLookup, hnasLookup]
    exact h.shared p q i hp hq hi hj
  cacheBounded x i hi := by
    rw [hlookup] at hi
    rw [hnext]
    exact h.cacheBounded x i hi
  agree := hagree

/-- A new name gets a link to the cache file of the old one, if that has one. -/
theorem link (h : Linked cfg P w) (hpath : P path) (hnew : P newpath) (hP : InUse P)
    {nas : Fs} (hnas : w.nas.link (cfg.fullNasPath path) (cfg.fullNasPath newpath) = .ok nas)
    {cache : Fs} (hcache : cache = w.cache ∨
      w.cache.link (cfg.fullCachePath path) (cfg.fullCachePath newpath) = .ok cache) :
    Linked cfg P { w with nas, cache } := by
  obtain ⟨ni, hni, hfree, rfl⟩ := Fs.link_eq_ok hnas
  have hnasLookup : ∀ p, (w.nas.bindName (cfg.fullNasPath newpath) ni).lookup (cfg.fullNasPath p) =
      if p = newpath then some ni else w.nas.lookup (cfg.fullNasPath p) := by
    intro p
    rw [Fs.lookup_bindName]
    simp only [cfg.fullNasPath_inj]
  -- the new name had neither a cache file nor a row
  have hnone : w.cache.lookup (cfg.fullCachePath newpath) = none := by
    by_contra hsome
    obtain ⟨i, hi⟩ := Option.ne_none_iff_exists'.mp hsome
    obtain ⟨j, hj⟩ := h.copies newpath i hnew hi
    exact nomatch hfree.symm.trans hj
  have hrow : ¬ w.db.HasFile (cfsPathToFileName newpath) := by
    intro hf
    obtain ⟨i, hi⟩ := h.rows newpath hnew hf
    exact nomatch hnone.symm.trans hi
  have hother : ∀ {p}, w.db.HasFile (cfsPathToFileName p) → p ≠ newpath :=
    fun hf heq => hrow (heq ▸ hf)
  have hlook : ∃ c : Option Ino, (c = none ∨ c = w.cache.lookup (cfg.fullCachePath path)) ∧
      ∀ p, P p → cache.lookup (cfg.fullCachePath p) =
        if p = newpath then c else w.cache.lookup (cfg.fullCachePath p) := by
    rcases hcache with rfl | hc
    · refine ⟨none, Or.inl rfl, fun p _ => ?_⟩
      split
      · next heq => rw [heq, hnone]
      · rfl
    · obtain ⟨ci, hci, -, rfl⟩ := Fs.link_eq_ok hc
      refine ⟨some ci, Or.inr hci.symm, fun p hp => ?_⟩
      rw [Fs.lookup_bindName]
      by_cases heq : p = newpath
      · rw [heq, if_pos rfl, if_pos rfl]
      · rw [if_neg (hP.cachePath_ne hp hnew heq), if_neg heq]
  have hinode : cache.inode = w.cache.inode := by
    rcases hcache with rfl | hc
    · rfl
    · obtain ⟨ci, -, -, rfl⟩ := Fs.link_eq_ok hc
      rfl
  obtain ⟨c, hc, hlook⟩ := hlook
  -- a cache file under the new name is that of the old one
  have hfrom : ∀ {p i}, P p → cache.lookup (cfg.fullCachePath p) = some i →
      ∃ q, P q ∧ w.cache.lookup (cfg.fullCachePath q) = some i ∧
        (w.nas.bindName (cfg.fullNasPath newpath) ni).lookup (cfg.fullNasPath p) =
          w.nas.lookup (cfg.fullNasPath q) := by
    intro p i hp hi
    rw [hlook p hp] at hi
    rw [hnasLookup]
    by_cases heq : p = newpath
    · rw [if_pos heq] at hi
      rcases hc with rfl | rfl
      · exact nomatch hi
      · exact ⟨path, hpath, hi, by rw [if_pos heq, hni]⟩
    · rw [if_neg heq] at hi
      exact ⟨p, hp, hi, by rw [if_neg heq]⟩
  refine ⟨h.wf, fun p i hp hi => ?_, fun p i hp hi => ?_, fun p hp hf => ?_, fun p i hp hi => ?_,
    fun p q i hp hq hi hj => ?_, ?_, fun p hp o ho => ?_⟩
  · rw [hnasLookup] at hi
    split at hi
    · exact h.nasRegular path i hpath (hni.trans hi)
    · exact h.nasRegular p i hp hi
  · obtain ⟨q, hq, hi, -⟩ := hfrom hp hi
    rw [hinode]
    exact h.cacheRegular q i hq hi
  · rw [hlook p hp, if_neg (hother hf)]
    exact h.rows p hp hf
  · obtain ⟨q, hq, hi, hnas⟩ := hfrom hp hi
    rw [hnas]
    exact h.copies q i hq hi
  · obtain ⟨p', hp', hi', hnas⟩ := hfrom hp hi
    obtain ⟨q', hq', hj', hnas'⟩ := hfrom hq hj
    rw [hnas, hnas']
    exact h.shared p' q' i hp' hq' hi' hj'
  · rcases hcache with rfl | hc
    · exact h.cacheBounded
    · exact h.cacheBounded.link hc
  · have hne := hother ho.hasFile
    have hagree : BlocksAgree cfg p { w with
        nas := w.nas.bindName (cfg.fullNasPath newpath) ni, cache } := by
      refine (h.agree p hp).congr (fun _ => id) ?_ ?_ (fun _ _ => rfl) fun _ _ => by rw [hinode]
      · rw [hnasLookup, if_neg hne]
      · rw [hlook p hp, if_neg hne]
    exact hagree o ho

/-- An open of a name starts a new copy or leaves the cache files as they are. -/
theorem opened (h : Linked cfg P w) (hP : InUse P) (hpath : P path)
    (hdenotes : w.nas.lookup (cfg.fullNasPath path) = some ni) (hnas : w'.nas = w.nas)
    (ho : Adopted cfg path w w' ∨ Renewed cfg natural path w w') : Linked cfg P w' := by
  rcases ho with ha | hr
  · refine ⟨ha.wf, by rw [hnas]; exact h.nasRegular, by rw [ha.cache]; exact h.cacheRegular,
      fun p hp hf => ?_, by rw [ha.cache, hnas]; exact h.copies,
      by rw [ha.cache, hnas]; exact h.shared,
      by rw [ha.cache]; exact h.cacheBounded, fun p hp => ?_⟩
    · rw [ha.cache]
      rcases (ha.hasFile _).mp hf with hf | hn
      · exact h.rows p hp hf
      · rw [hP.names p path hp hpath hn]
        exact ha.lookup
    · exact (h.agree p hp).congr (fun o => (ha.recorded _ o).mp) (by rw [hnas]) (by rw [ha.cache])
        (fun _ _ => by rw [hnas]) fun _ _ => by rw [ha.cache]
  · obtain ⟨mode, now, -, hinode⟩ := hr.inode
    have hlook : ∀ {p}, P p → p ≠ path →
        w'.cache.lookup (cfg.fullCachePath p) = w.cache.lookup (cfg.fullCachePath p) :=
      fun hp hne => by rw [hr.lookup, if_neg (hP.cachePath_ne hp hpath hne)]
    have hnew : w'.cache.lookup (cfg.fullCachePath path) = some w.cache.nextIno := by
      rw [hr.lookup, if_pos rfl]
    have hold : ∀ {p i}, P p → p ≠ path → w'.cache.lookup (cfg.fullCachePath p) = some i →
        w.cache.lookup (cfg.fullCachePath p) = some i ∧ i ≠ w.cache.nextIno := by
      intro p i hp hne hi
      rw [hlook hp hne] at hi
      exact ⟨hi, Nat.ne_of_lt (h.cacheBounded _ _ hi)⟩
    refine ⟨hr.wf, by rw [hnas]; exact h.nasRegular, fun p i hp hi => ?_, fun p hp hf => ?_,
      fun p i hp hi => ?_, fun p q i hp hq hi hj => ?_, fun x i hi => ?_, fun p hp o ho => ?_⟩
    · rw [hinode]
      by_cases hne : p = path
      · rw [hne, hnew] at hi
        rw [if_pos (Option.some.inj hi).symm]
      · obtain ⟨hi, hlt⟩ := hold hp hne hi
        rw [if_neg hlt]
        exact h.cacheRegular p i hp hi
    · by_cases hne : p = path
      · exact ⟨_, hne ▸ hnew⟩
      · rw [hlook hp hne]
        exact h.rows p hp (((hr.hasFile _).mp hf).resolve_right fun hn =>
          hne (hP.names p path hp hpath hn))
    · rw [hnas]
      by_cases hne : p = path
      · exact ⟨ni, hne ▸ hdenotes⟩
      · exact h.copies p i hp (hold hp hne hi).1
    · rw [hnas]
      by_cases hp' : p = path <;> by_cases hq' : q = path
      · rw [hp', hq']
      · rw [hp', hnew] at hi
        exact absurd (Option.some.inj hi).symm (hold hq hq' hj).2
      · rw [hq', hnew] at hj
        exact absurd (Option.some.inj hj).symm (hold hp hp' hi).2
      · exact h.shared p q i hp hq (hold hp hp' hi).1 (hold hq hq' hj).1
    · rw [hr.lookup] at hi
      rw [hr.nextIno]
      split at hi
      · rw [← Option.some.inj hi]
        exact Nat.lt_succ_self _
      · exact Nat.lt_succ_of_lt (h.cacheBounded _ _ hi)
    · obtain ⟨hrec, hne⟩ := (hr.recorded _ _).mp ho
      have hpp : p ≠ path := fun heq => hne (by rw [heq])
      have hagree : BlocksAgree cfg p w' :=
        (h.agree p hp).congr (fun o ho => ((hr.recorded _ _).mp ho).1) (by rw [hnas]) (hlook hp hpp)
          (fun _ _ => by rw [hnas]) fun i hi => by
            rw [hinode, if_neg (Nat.ne_of_lt (h.cacheBounded _ _ hi))]
      exact hagree o ho

/-- The names of the cache file of a handle are names of its NAS file. -/
theorem sole (h : Linked cfg P w) (hpath : P path) (hcur : Current cfg w path fh ni ci) (q : Path)
    (hq : P q) (hci : w.cache.lookup (cfg.fullCachePath q) = some ci) :
    w.nas.lookup (cfg.fullNasPath q) = some ni :=
  (h.shared q path ci hq hpath hci hcur.cache).trans hcur.nas

theorem fill (h : Linked cfg P w) (hP : InUse P) (hpath : P path)
    (hcur : Current cfg w path fh ni ci) {window : List Nat}
    (hwindow : ∀ o ∈ window, o % cfg.blockSize = 0)
    (hf : Fill cfg A (cfsPathToFileName path) ni ci window w w') : Linked cfg P w' := by
  obtain ⟨hin, hnew, hm, hlen, hbytes, hnow⟩ := hf
  refine h.congr (AddSteps.wf hm.steps h.wf) hm.hasFile (fun _ => rfl) (fun _ => rfl)
    (fun _ => Fs.lookup_pwrite _ _ _ _ _ _) (fun _ => Fs.kind_pwrite _ _ _ _ _ _)
    (Fs.nextIno_pwrite _ _ _ _ _) ?_
  exact h.agree.fill hP hpath hcur.nas hcur.cache (h.sole hpath hcur) hwindow
    (.mk hin hnew hm hlen hbytes hnow)

theorem fills (h : Linked cfg P w) (hP : InUse P) (hpath : P path)
    (hcur : Current cfg w path fh ni ci) {window : List Nat}
    (hwindow : ∀ o ∈ window, o % cfg.blockSize = 0)
    (hf : Fills cfg A (cfsPathToFileName path) ni ci window w w') : Linked cfg P w' := by
  induction hf with
  | refl => exact h
  | tail hf hs ih =>
      refine ih.fill hP hpath ⟨hcur.opened.congr (Fills.handles hf) (Fills.fds hf), ?_, ?_⟩
        hwindow hs
      · rw [Fills.nas hf]
        exact hcur.nas
      · rw [Fills.lookup hf]
        exact hcur.cache

theorem released (h : Linked cfg P w) {command : List Char} {w₁ : World}
    (hdug : Dug A command w w₁) (fds : Int → Option OpenFile)
    (handles : Nat → Option DualFileHandle) : Linked cfg P { w₁ with fds, handles } := by
  refine h.congr ?_ (fun n => ?_) ?_ ?_ hdug.lookup hdug.kind hdug.nextIno
    (h.agree.released hdug fds handles) <;>
    simp only [World.db, hdug.metadata, hdug.nas, implies_true]
  exact h.wf

theorem write (h : Linked cfg P w) (hP : InUse P) (hpath : P path)
    (hcur : Current cfg w path fh ni ci) {m : MetaState} {buf block : List UInt8} {offset pos : Nat}
    {now₁ now₂ : Int} (hspares : SparesLinks cfg P w ni ci offset pos buf.length)
    (hlen : block.length = cfg.alignedSize buf.length)
    (hblock : ∀ j < block.length, cfg.alignLowerOffset offset + j <
      (pwrite (w.nas.inode ni).data buf pos).length → block[j]? =
        (pwrite (w.nas.inode ni).data buf pos)[cfg.alignLowerOffset offset + j]?)
    (hm : WriteBlksPost w.metadata (cfsPathToFileName path) (cfg.window offset buf.length) m) :
    Linked cfg P (World.store { w with nas := w.nas.pwrite ni buf pos now₁ } m ci block
      (cfg.alignLowerOffset offset) now₂) := by
  have hdata : ((w.nas.pwrite ni buf pos now₁).inode ni).data =
      pwrite (w.nas.inode ni).data buf pos := by simp [Fs.data_pwrite]
  refine h.congr (AddSteps.wf hm.steps h.wf) hm.hasFile (fun _ => Fs.lookup_pwrite _ _ _ _ _ _)
    (fun _ => Fs.kind_pwrite _ _ _ _ _ _) (fun _ => Fs.lookup_pwrite _ _ _ _ _ _)
    (fun _ => Fs.kind_pwrite _ _ _ _ _ _) (Fs.nextIno_pwrite _ _ _ _ _) ?_
  refine h.agree.stored hcur.nas (h.sole hpath hcur) (fun _ => Fs.lookup_pwrite _ _ _ _ _ _)
    (fun i hi => Fs.inode_pwrite_ne _ hi _ _ _) (by rwa [hdata]) fun q o hq ho => ?_
  by_cases hin : o ∈ cfg.window offset buf.length ∧
      w.cache.lookup (cfg.fullCachePath q) = some ci
  · -- stored again
    obtain ⟨i, hi, rfl⟩ := cfg.mem_offsetArray.mp hin.1
    refine ⟨cfg.mod_of_mem_window hin.1, ?_, fun _ => Or.inl ⟨hin.2, Nat.le_add_right _ _, ?_⟩⟩
    · exact ((hm.recorded _ _).mp ho).imp id fun ho => hP.names q path hq hpath ho.1
    · rw [hlen, Nat.add_assoc]
      exact Nat.add_le_add_left (cfg.mul_add_le_alignedSize hi) _
  · -- left alone, and not changed either
    have hrec : w.db.Recorded (cfsPathToFileName q) o := by
      refine ((hm.recorded _ _).mp ho).resolve_right fun ho => hin ⟨ho.2.2, ?_⟩
      rw [hP.names q path hq hpath ho.1]
      exact hcur.cache
    obtain ⟨hmod, hagree⟩ := h.agree q hq o hrec
    refine ⟨hmod, Or.inl hrec, fun hni => Or.inr ?_⟩
    rw [Fs.content_of_lookup hni] at hagree
    rw [hdata]
    by_cases hbuf : buf = []
    · rw [hbuf, pwrite_nil]
      exact hagree
    · exact hagree.pwrite_master (hspares (List.length_pos_iff.mpr hbuf) q o hq hni hrec
        fun hci hmem => hin ⟨hmem, hci⟩)

end Linked

end Steps

-- ============================================================================
-- Runs
-- ============================================================================

/-- A mount, with the bytes of the NAS files as its requests have written them. -/
structure Mounted where
  world : World
  written : Ino → List UInt8

/-- What has been written after a request. -/
def Request.written (w : World) (bytes : Ino → List UInt8) : Request → Ino → List UInt8
  | .cfsWrite _ buf offset fh =>
      Function.update bytes (w.nasIno fh)
        (pwrite (bytes (w.nasIno fh)) buf (w.nasPos fh offset))
  | _ => bytes

/-- A successful request on names of `P`: a link or an open, some calls of which on the
    cache directory may have been refused, or one of the other requests that meet `cond`. -/
inductive LinkStep (cfg : Config) (P : Path → Prop) (cond : World → Request → Prop) :
    Mounted → Mounted → Prop
  | link {w w' : World} {bytes : Ino → List UInt8} {path newpath : Path} (hpath : P path)
      (hnew : P newpath) (he : Prog.Exec (env natural False) (cfsLink cfg path newpath) w 0 w') :
      LinkStep cfg P cond ⟨w, bytes⟩ ⟨w', bytes⟩
  | opened {w w' : World} {bytes : Ino → List UInt8} {path : Path} {flags : Nat} {ni : Ino}
      {fh : Option Nat} (hpath : P path) (hni : w.nas.lookup (cfg.fullNasPath path) = some ni)
      (he : Prog.Exec (env natural False) (cfsOpen cfg path flags) w (0, fh) w') :
      LinkStep cfg P cond ⟨w, bytes⟩ ⟨w', bytes⟩
  | served {w w' : World} {bytes : Ino → List UInt8} {rq : Request} {fuel : Nat} (hrq : cond w rq)
      (he : Prog.Exec (env succeeds True) (rq.prog cfg fuel) w () w') :
      LinkStep cfg P cond ⟨w, bytes⟩ ⟨w', rq.written w bytes⟩

abbrev LinkRun (cfg : Config) (P : Path → Prop) (cond : World → Request → Prop) :
    Mounted → Mounted → Prop :=
  Relation.ReflTransGen (LinkStep cfg P cond)

/-- Requests for whole blocks, each through a handle of the file it names. -/
def WholeBlocks (cfg : Config) (P : Path → Prop) (w : World) : Request → Prop
  | .cfsRead path size offset fh => P path ∧ HandleOf cfg w path fh ∧
      offset % cfg.blockSize = 0 ∧ size % cfg.blockSize = 0
  | .cfsWrite path buf offset fh => P path ∧ HandleOf cfg w path fh ∧
      offset % cfg.blockSize = 0 ∧ buf.length % cfg.blockSize = 0
  | .cfsRelease path fh => P path ∧ HandleOf cfg w path fh
  | _ => False

/-- The requests that leave no name behind: the handle is current, and a write spares
    the blocks that it does not store again. -/
def LinksClean (cfg : Config) (P : Path → Prop) (w : World) : Request → Prop
  | .cfsRead path _ _ fh => P path ∧ ∃ ni ci, Current cfg w path fh ni ci
  | .cfsWrite path buf offset fh => P path ∧ ∃ ni ci, Current cfg w path fh ni ci ∧
      SparesLinks cfg P w ni ci offset (w.nasPos fh offset) buf.length
  | .cfsRelease path fh => P path ∧ HandleOf cfg w path fh
  | _ => False

section Run

variable {cfg : Config} {P : Path → Prop} {w w' : World} {path newpath : Path}

/-- `cfs_link`, if it succeeds, has linked the NAS file, and the cache file or nothing. -/
theorem wp_cfsLink_links {S : Prop} : Prog.wp (env natural S) (cfsLink cfg path newpath)
    (fun r w' => r = 0 → ∃ nas cache, w' = { w with nas, cache } ∧
      w.nas.link (cfg.fullNasPath path) (cfg.fullNasPath newpath) = .ok nas ∧
      (cache = w.cache ∨
        w.cache.link (cfg.fullCachePath path) (cfg.fullCachePath newpath) = .ok cache)) w := by
  have hnas : ∀ cache, (cache = w.cache ∨
      w.cache.link (cfg.fullCachePath path) (cfg.fullCachePath newpath) = .ok cache) →
      Prog.wp (env natural S) (do
        let r ← ask (.link .nas (cfg.fullNasPath path) (cfg.fullNasPath newpath))
        pure (logSyscall r)) (fun r w' => r = 0 → ∃ nas cache, w' = { w with nas, cache } ∧
          w.nas.link (cfg.fullNasPath path) (cfg.fullNasPath newpath) = .ok nas ∧
          (cache = w.cache ∨ w.cache.link (cfg.fullCachePath path) (cfg.fullCachePath newpath) =
            .ok cache)) { w with cache } := by
    intro cache hcache
    rw [Prog.wp_bind]
    refine wp_link (fun nas hnas => ?_) fun e => ?_
    · exact fun _ => ⟨nas, cache, rfl, hnas, hcache⟩
    · exact fun h => absurd h (logSyscall_error_ne e)
  unfold cfsLink
  rw [Prog.wp_bind]
  exact wp_link (fun cache hcache => hnas cache (Or.inr hcache)) fun _ => hnas w.cache (Or.inl rfl)

theorem LinkStep.linked (hbs : 0 < cfg.blockSize) (hP : InUse P) {s s' : Mounted}
    (h : Linked cfg P s.world) (hbytes : ∀ i, (s.world.nas.inode i).data = s.written i)
    (hs : LinkStep cfg P (LinksClean cfg P) s s') :
    Linked cfg P s'.world ∧ ∀ i, (s'.world.nas.inode i).data = s'.written i := by
  cases hs with
  | @link w w' bytes path newpath hpath hnew he =>
      obtain ⟨nas, cache, rfl, hnas, hcache⟩ := Prog.wp_exec wp_cfsLink_links he rfl
      refine ⟨h.link hpath hnew hP hnas hcache, fun i => ?_⟩
      obtain ⟨ni, -, -, rfl⟩ := Fs.link_eq_ok hnas
      exact hbytes i
  | @opened w w' bytes path flags ni fh hpath hni he =>
      obtain ⟨hnas, ho⟩ := Prog.wp_exec (wp_cfsOpen_linked h.wf hni (h.nasRegular path ni hpath hni)
        (fun i => h.cacheRegular path i hpath) (h.rows path hpath)) he rfl
      refine ⟨h.opened hP hpath hni hnas ho, fun i => ?_⟩
      dsimp only at hnas ⊢
      rw [hnas]
      exact hbytes i
  | @served w w' bytes rq fuel hrq he =>
      have hA := allSucceed_succeeds
      refine Prog.wp_exec (Q := fun _ w' => Linked cfg P w' ∧
        ∀ i, (w'.nas.inode i).data = rq.written w bytes i) ?_ he
      cases rq with
      | cfsRead path size offset fh =>
          obtain ⟨hpath, ni, ci, hcur⟩ := hrq
          simp only [Request.prog, Prog.wp_bind]
          refine wp_cfsRead hA hbs h.wf hcur.opened fun ret buf w' hf _ _ _ _ => ?_
          refine ⟨h.fills hP hpath hcur (fun o => cfg.mod_of_mem_window) hf, fun i => ?_⟩
          rw [hf.nas]
          exact hbytes i
      | cfsWrite path buf offset fh =>
          obtain ⟨hpath, ni, ci, hcur, hspares⟩ := hrq
          simp only [Request.prog, Prog.wp_bind]
          refine wp_cfsWrite hA h.wf hcur.opened fun m now₁ now₂ block _ _ hlen hblock hm _ => ?_
          refine ⟨h.write hP hpath hcur hspares hlen (hblock hcur.nas) hm, fun i => ?_⟩
          simp only [World.store, Fs.data_pwrite, Request.written, World.nasIno_eq hcur.opened,
            Function.update_apply]
          split
          · rw [show (w.nas.inode ni).data = bytes ni from hbytes ni]
          · exact hbytes i
      | cfsRelease path fh =>
          obtain ⟨-, ni, ci, hopen, -⟩ := hrq
          simp only [Request.prog, Prog.wp_bind]
          refine wp_cfsRelease hA hopen fun _ w₁ fds handles hdug => ?_
          refine ⟨h.released hdug fds handles, fun i => ?_⟩
          dsimp only
          rw [hdug.nas]
          exact hbytes i
      | cfsOpen path flags => exact hrq.elim
      | cfsUtime path modtime => exact hrq.elim
      | cfsUnlink path => exact hrq.elim

theorem LinkRun.linked (hbs : 0 < cfg.blockSize) (hP : InUse P) {s s' : Mounted}
    (h : Linked cfg P s.world) (hbytes : ∀ i, (s.world.nas.inode i).data = s.written i)
    (hrun : LinkRun cfg P (LinksClean cfg P) s s') :
    Linked cfg P s'.world ∧ ∀ i, (s'.world.nas.inode i).data = s'.written i := by
  induction hrun with
  | refl => exact ⟨h, hbytes⟩
  | tail _ hs ih => exact LinkStep.linked hbs hP ih.1 ih.2 hs

/-- In a run that leaves no name behind, a read of whole blocks through a current handle
    of any name puts into the buffer what has been written last, through whatever name. -/
theorem linked_reads_written (hbs : 0 < cfg.blockSize) (hP : InUse P) {w₀ : World}
    (h₀ : Unlinked cfg P w₀) {bytes : Ino → List UInt8}
    (hrun : LinkRun cfg P (LinksClean cfg P) ⟨w₀, fun i => (w₀.nas.inode i).data⟩ ⟨w, bytes⟩)
    (hpath : P path) {size offset fh fuel : Nat} {ni ci : Ino}
    (hcur : Current cfg w path fh ni ci) (hoffset : offset % cfg.blockSize = 0) {ret : Int}
    {buf : List UInt8}
    (he : Prog.Exec (env succeeds True) (cfsRead cfg fuel path size offset fh) w (ret, buf) w') :
    ∀ i < size, offset + i < (bytes ni).length → buf[i]? = (bytes ni)[offset + i]? := by
  obtain ⟨h, hbytes⟩ := LinkRun.linked hbs hP h₀.linked (fun _ => rfl) hrun
  rw [← show (w.nas.inode ni).data = bytes ni from hbytes ni]
  refine Prog.wp_exec (Q := fun r _ => ∀ i < size, offset + i < (w.nas.inode ni).data.length →
    r.2[i]? = (w.nas.inode ni).data[offset + i]?) ?_ he
  refine wp_cfsRead allSucceed_succeeds hbs h.wf hcur.opened
    fun ret buf w' _ _ _ _ hbuf i hi hlt => ?_
  have hlower : cfg.alignLowerOffset offset = offset := by
    rw [Config.alignLowerOffset, hoffset, Nat.sub_zero]
  have hsize := cfg.le_alignedSize hbs size
  obtain ⟨o, hin, hlo, hhi, hsource⟩ := hbuf i hi (by omega)
  rw [List.getElem?_eq_getElem hlt]
  refine hsource _ ?_
  rw [← List.getElem?_eq_getElem hlt, World.source]
  split
  · next hsel =>
      have hrec := h.wf.selectBlockId_iff.mp hsel
      exact ((h.agree path hpath).agree_of_lookup hcur.nas hcur.cache hrec).2 _ hlo hhi hlt
  · rfl

/-- The world after a program in which the environment interferes with nothing. -/
def World.after {α : Type} (w : World) (p : CfsM α) : World :=
  ((Prog.runAllowed (env natural False) (fun _ => {}) p w).map Prod.snd).getD w

theorem exec_after {α : Type} {p : CfsM α} {r : α}
    (h : (Prog.runAllowed (env natural False) (fun _ => {}) p w).map Prod.fst = some r) :
    Prog.Exec (env natural False) p w r (w.after p) := by
  obtain ⟨⟨r', w'⟩, hr, rfl⟩ := Option.map_eq_some_iff.mp h
  rw [World.after, hr]
  exact Prog.exec_of_runAllowed _ hr

section After

variable {cond : World → Request → Prop} {bytes : Ino → List UInt8}

theorem linkStep_link (path newpath : Path) (hpath : P path) (hnew : P newpath)
    (hr : (Prog.runAllowed (env natural False) (fun _ => {}) (cfsLink cfg path newpath) w).map
      Prod.fst = some 0) :
    LinkStep cfg P cond ⟨w, bytes⟩ ⟨w.after (cfsLink cfg path newpath), bytes⟩ :=
  .link hpath hnew (exec_after hr)

theorem linkStep_open (path : Path) (flags : Nat) (ni : Ino) (fh : Option Nat) (hpath : P path)
    (hni : w.nas.lookup (cfg.fullNasPath path) = some ni)
    (hr : (Prog.runAllowed (env natural False) (fun _ => {}) (cfsOpen cfg path flags) w).map
      Prod.fst = some (0, fh)) :
    LinkStep cfg P cond ⟨w, bytes⟩ ⟨w.after (cfsOpen cfg path flags), bytes⟩ :=
  .opened hpath hni (exec_after hr)

theorem linkStep_served (rq : Request) (hc : cond w rq)
    (hr : (Prog.runAllowed (env succeeds True) (fun _ => {}) (rq.prog cfg 1) w).isSome = true) :
    LinkStep cfg P cond ⟨w, bytes⟩ ⟨w.served succeeds cfg {} rq, rq.written w bytes⟩ :=
  .served hc (exec_served {} rq hr)

end After

/-- One file of two blocks. -/
def sampleSingle : World := sampleWorld [1, 2, 3, 4, 5, 6, 7, 8]

theorem sampleSingle_unlinked : Unlinked sampleConfig (· ∈ samplePaths) sampleSingle where
  db := rfl
  nasRegular p i hp hi := by
    have hone : ∀ p ∈ samplePaths, sampleSingle.nas.lookup (sampleConfig.fullNasPath p) = none ∨
        sampleSingle.nas.lookup (sampleConfig.fullNasPath p) = some 1 := by decide
    rcases hone p hp with h | h
    · exact nomatch h.symm.trans hi
    · rw [← Option.some.inj (h.symm.trans hi)]
      rfl
  cacheEmpty := by decide
  cacheBounded := (sampleWorld_fresh [1, 2, 3, 4, 5, 6, 7, 8]).cacheBounded

/-- A file is read, linked and read under the new name, which gets the same cache file; a
    write through the old name is then read through the new one. -/
theorem linked_reads_written_shared : ∃ bytes w w' ret buf,
    LinkRun sampleConfig (· ∈ samplePaths)
      (LinksClean sampleConfig (· ∈ samplePaths))
      ⟨sampleSingle, fun i => (sampleSingle.nas.inode i).data⟩ ⟨w, bytes⟩ ∧
    Prog.Exec (env succeeds True) (cfsRead sampleConfig 1 ['/', 'g'] 4 0 2) w (ret, buf) w' ∧
    bytes 1 = [9, 9, 9, 9, 5, 6, 7, 8] ∧
    ∀ i < 4, 0 + i < (bytes 1).length → buf[i]? = (bytes 1)[0 + i]? := by
  let w₁ := sampleSingle.after (cfsOpen sampleConfig samplePath 2)
  let w₂ := w₁.served succeeds sampleConfig {} (.cfsRead samplePath 4 0 1)
  let w₃ := w₂.after (cfsLink sampleConfig samplePath ['/', 'g'])
  let w₄ := w₃.after (cfsOpen sampleConfig ['/', 'g'] 2)
  let w₅ := w₄.served succeeds sampleConfig {} (.cfsRead ['/', 'g'] 4 0 2)
  let w₆ := w₅.served succeeds sampleConfig {} (.cfsWrite samplePath [9, 9, 9, 9] 0 1)
  let bytes : Ino → List UInt8 := fun i => (sampleSingle.nas.inode i).data
  have hcur₁ : Current sampleConfig w₁ samplePath 1 1 2 :=
    ⟨⟨⟨3, 5⟩, by decide, ⟨true, true, false, by decide⟩, true, true, by decide⟩,
      by decide, by decide⟩
  have hcur₄ : Current sampleConfig w₄ ['/', 'g'] 2 1 2 :=
    ⟨⟨⟨6, 7⟩, by decide, ⟨true, true, false, by decide⟩, true, true, by decide⟩,
      by decide, by decide⟩
  have hcur₅ : Current sampleConfig w₅ samplePath 1 1 2 :=
    ⟨⟨⟨3, 5⟩, by decide, ⟨true, true, false, by decide⟩, true, true, by decide⟩,
      by decide, by decide⟩
  have hcur₆ : Current sampleConfig w₆ ['/', 'g'] 2 1 2 :=
    ⟨⟨⟨6, 7⟩, by decide, ⟨true, true, false, by decide⟩, true, true, by decide⟩,
      by decide, by decide⟩
  have hspares : SparesLinks sampleConfig (· ∈ samplePaths) w₅ 1 2 0 0 4 := by
    rintro - q o hq hni ⟨f, -, -, b, hb, -, rfl⟩ hout
    have hci : ∀ q ∈ samplePaths, w₅.nas.lookup (sampleConfig.fullNasPath q) = some 1 →
        w₅.cache.lookup (sampleConfig.fullCachePath q) = some 2 := by decide
    exact absurd ((by decide : ∀ b ∈ w₅.db.datablocks,
      b.blkStartOffset ∈ sampleConfig.window 0 4) b hb) (hout (hci q hq hni))
  have hrun : LinkRun sampleConfig (· ∈ samplePaths) (LinksClean sampleConfig (· ∈ samplePaths))
      ⟨sampleSingle, bytes⟩
      ⟨w₆, Request.written w₅ bytes (.cfsWrite samplePath [9, 9, 9, 9] 0 1)⟩ :=
    (((((Relation.ReflTransGen.single
      (linkStep_open samplePath 2 1 (some 1) (by decide) (by decide) (by decide))).tail
      (linkStep_served (.cfsRead samplePath 4 0 1) ⟨by decide, 1, 2, hcur₁⟩ (by decide))).tail
      (linkStep_link samplePath ['/', 'g'] (by decide) (by decide) (by decide))).tail
      (linkStep_open ['/', 'g'] 2 1 (some 2) (by decide) (by decide) (by decide))).tail
      (linkStep_served (.cfsRead ['/', 'g'] 4 0 2) ⟨by decide, 1, 2, hcur₄⟩ (by decide))).tail
      (linkStep_served (.cfsWrite samplePath [9, 9, 9, 9] 0 1) ⟨by decide, 1, 2, hcur₅, hspares⟩
        (by decide))
  have heval : (Prog.runAllowed (env succeeds True) (fun _ => {})
      (cfsRead sampleConfig 1 ['/', 'g'] 4 0 2) w₆).map (fun _ => ()) = some () := by decide
  obtain ⟨⟨ret, buf⟩, w', he, -⟩ := exec_of_eval heval
  exact ⟨_, w₆, w', ret, buf, hrun, he, by decide,
    linked_reads_written (by decide) inUse_samplePaths
      sampleSingle_unlinked hrun (by decide) hcur₆ (by decide) he⟩

/-- A file is linked and then read under both names, which get cache files of their own:
    after a write through one of them the other serves the old bytes. -/
theorem linked_reads_stale : ¬ ∀ (cfg : Config) (P : Path → Prop) (w₀ w w' : World)
    (bytes : Ino → List UInt8) (path : Path) (size offset fh fuel : Nat) (ni : Ino) (ret : Int)
    (buf : List UInt8), 0 < cfg.blockSize → InUse P → Unlinked cfg P w₀ →
    LinkRun cfg P (WholeBlocks cfg P) ⟨w₀, fun i => (w₀.nas.inode i).data⟩ ⟨w, bytes⟩ →
    WholeBlocks cfg P w (.cfsRead path size offset fh) →
    w.nas.lookup (cfg.fullNasPath path) = some ni →
    Prog.Exec (env succeeds True) (cfsRead cfg fuel path size offset fh) w (ret, buf) w' →
    ∀ i < size, offset + i < (bytes ni).length → buf[i]? = (bytes ni)[offset + i]? := by
  intro h
  let w₁ := sampleSingle.after (cfsLink sampleConfig samplePath ['/', 'g'])
  let w₂ := w₁.after (cfsOpen sampleConfig samplePath 2)
  let w₃ := w₂.served succeeds sampleConfig {} (.cfsRead samplePath 4 0 1)
  let w₄ := w₃.after (cfsOpen sampleConfig ['/', 'g'] 2)
  let w₅ := w₄.served succeeds sampleConfig {} (.cfsRead ['/', 'g'] 4 0 2)
  let w₆ := w₅.served succeeds sampleConfig {} (.cfsWrite samplePath [9, 9, 9, 9] 0 1)
  let bytes : Ino → List UInt8 := fun i => (sampleSingle.nas.inode i).data
  have hof₂ : HandleOf sampleConfig w₂ samplePath 1 :=
    ⟨1, 2, ⟨⟨3, 5⟩, by decide, ⟨true, true, false, by decide⟩, true, true, by decide⟩, by decide⟩
  have hof₄ : HandleOf sampleConfig w₄ ['/', 'g'] 2 :=
    ⟨1, 3, ⟨⟨6, 8⟩, by decide, ⟨true, true, false, by decide⟩, true, true, by decide⟩, by decide⟩
  have hof₅ : HandleOf sampleConfig w₅ samplePath 1 :=
    ⟨1, 2, ⟨⟨3, 5⟩, by decide, ⟨true, true, false, by decide⟩, true, true, by decide⟩, by decide⟩
  have hof₆ : HandleOf sampleConfig w₆ ['/', 'g'] 2 :=
    ⟨1, 3, ⟨⟨6, 8⟩, by decide, ⟨true, true, false, by decide⟩, true, true, by decide⟩, by decide⟩
  have hrun : LinkRun sampleConfig (· ∈ samplePaths) (WholeBlocks sampleConfig (· ∈ samplePaths))
      ⟨sampleSingle, bytes⟩
      ⟨w₆, Request.written w₅ bytes (.cfsWrite samplePath [9, 9, 9, 9] 0 1)⟩ :=
    (((((Relation.ReflTransGen.single
      (linkStep_link samplePath ['/', 'g'] (by decide) (by decide) (by decide))).tail
      (linkStep_open samplePath 2 1 (some 1) (by decide) (by decide) (by decide))).tail
      (linkStep_served (.cfsRead samplePath 4 0 1) ⟨by decide, hof₂, by decide, by decide⟩
        (by decide))).tail
      (linkStep_open ['/', 'g'] 2 1 (some 2) (by decide) (by decide) (by decide))).tail
      (linkStep_served (.cfsRead ['/', 'g'] 4 0 2) ⟨by decide, hof₄, by decide, by decide⟩
        (by decide))).tail
      (linkStep_served (.cfsWrite samplePath [9, 9, 9, 9] 0 1)
        ⟨by decide, hof₅, by decide, by decide⟩ (by decide))
  have heval : (Prog.runAllowed (env succeeds True) (fun _ => {})
      (cfsRead sampleConfig 1 ['/', 'g'] 4 0 2) w₆).map (fun r => r.1.2) = some [1, 2, 3, 4] := by
    decide
  obtain ⟨⟨ret, buf⟩, w', he, hbuf⟩ := exec_of_eval heval
  have hbyte := h sampleConfig (· ∈ samplePaths) sampleSingle w₆ w' _ ['/', 'g'] 4 0 2 1 1 ret buf
    (by decide) inUse_samplePaths sampleSingle_unlinked hrun ⟨by decide, hof₆, by decide, by decide⟩
    (by decide) he 0 (by decide) (by decide)
  simp only at hbuf
  rw [hbuf] at hbyte
  exact absurd hbyte (by decide)

end Run

end CacheFs
