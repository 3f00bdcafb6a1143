/-
  CacheFs.Transparency

  When a read returns the bytes of the NAS file.

  `Coherent` says that every recorded block agrees with the NAS file below its end.
  Opening and reading keep it.  A write keeps it for the blocks of its window, which
  it stores again, but the window has the size of the request rounded up and starts
  at the rounded-down offset: the last block the write touches can lie behind it,
  and so can the hole before a write past the end.  `Clean` is the condition under
  which nothing recorded is touched there, and under which the window of a read
  covers the bytes asked for.
-/

import CacheFs.Session

namespace CacheFs

open CacheFs.Effect
open CacheFs.Posix

-- ============================================================================
-- Agreement of the recorded blocks
-- ============================================================================

/-- Every recorded block of `path` is on the grid and agrees with the NAS file. -/
def BlocksAgree (cfg : Config) (path : Path) (w : World) : Prop :=
  ∀ o, w.db.Recorded (cfsPathToFileName path) o → o % cfg.blockSize = 0 ∧
    Agree o (o + cfg.blockSize) (w.cache.content (cfg.fullCachePath path))
      (w.nas.content (cfg.fullNasPath path))

/-- So does every block of the files of a run. -/
def Coherent (cfg : Config) (P : Path → Prop) (w : World) : Prop :=
  ∀ p, P p → BlocksAgree cfg p w

section BlocksAgree

variable {cfg : Config} {A : Choice → Call → World → Prop} {P : Path → Prop} {w w' : World}
  {path : Path} {ni ci : Ino}

theorem BlocksAgree.agree_of_lookup (h : BlocksAgree cfg path w)
    (hni : w.nas.lookup (cfg.fullNasPath path) = some ni)
    (hci : w.cache.lookup (cfg.fullCachePath path) = some ci) {o : Nat}
    (ho : w.db.Recorded (cfsPathToFileName path) o) : o % cfg.blockSize = 0 ∧
      Agree o (o + cfg.blockSize) (w.cache.inode ci).data (w.nas.inode ni).data := by
  have hag := h o ho
  rwa [Fs.content_of_lookup hni, Fs.content_of_lookup hci] at hag

/-- Storing blocks in the file under the cache name: those stored agree when the
    buffer does, the other ones must have agreed before and lie outside. -/
theorem BlocksAgree.store {m : MetaState} {offs : List Nat} {buf : List UInt8} {off : Nat}
    {now : Int} (hni : w.nas.lookup (cfg.fullNasPath path) = some ni)
    (hci : w.cache.lookup (cfg.fullCachePath path) = some ci)
    (hm : WriteBlksPost w.metadata (cfsPathToFileName path) offs m)
    (hoffs : ∀ o ∈ offs, o % cfg.blockSize = 0 ∧ off ≤ o ∧
      o + cfg.blockSize ≤ off + buf.length)
    (hbuf : ∀ j < buf.length, off + j < (w.nas.inode ni).data.length →
      buf[j]? = (w.nas.inode ni).data[off + j]?)
    (hold : ∀ o, w.db.Recorded (cfsPathToFileName path) o → o ∉ offs →
      o % cfg.blockSize = 0 ∧ (o + cfg.blockSize ≤ off ∨ off + buf.length ≤ o) ∧
        Agree o (o + cfg.blockSize) (w.cache.inode ci).data (w.nas.inode ni).data) :
    BlocksAgree cfg path (w.store m ci buf off now) := by
  intro o ho
  have hrec := (hm.recorded _ _).mp ho
  have hdata : ((w.store m ci buf off now).cache.inode ci).data =
      pwrite (w.cache.inode ci).data buf off := by
    simp [World.store, Fs.data_pwrite]
  have hagree : o % cfg.blockSize = 0 ∧ Agree o (o + cfg.blockSize)
      (pwrite (w.cache.inode ci).data buf off) (w.nas.inode ni).data := by
    by_cases hin : o ∈ offs
    · obtain ⟨hmod, hlo, hhi⟩ := hoffs o hin
      exact ⟨hmod, Agree.fill hbuf hlo hhi⟩
    · have hrec : w.db.Recorded (cfsPathToFileName path) o :=
        hrec.resolve_right fun h => hin h.2.2
      obtain ⟨hmod, hout, hag⟩ := hold o hrec hin
      exact ⟨hmod, hag.pwrite_copy hout⟩
  have hci' : (w.store m ci buf off now).cache.lookup (cfg.fullCachePath path) = some ci := by
    simpa only [World.store, Fs.lookup_pwrite] using hci
  rw [Fs.content_of_lookup hci', hdata, World.store, Fs.content_of_lookup hni]
  exact hagree

/-- Changes to other files leave the blocks of `path` alone. -/
theorem BlocksAgree.congr (h : BlocksAgree cfg path w)
    (hrec : ∀ o, w'.db.Recorded (cfsPathToFileName path) o →
      w.db.Recorded (cfsPathToFileName path) o)
    (hnas : w'.nas.lookup (cfg.fullNasPath path) = w.nas.lookup (cfg.fullNasPath path))
    (hcache : w'.cache.lookup (cfg.fullCachePath path) =
      w.cache.lookup (cfg.fullCachePath path))
    (hnasData : ∀ i, w.nas.lookup (cfg.fullNasPath path) = some i →
      (w'.nas.inode i).data = (w.nas.inode i).data)
    (hcacheData : ∀ i, w.cache.lookup (cfg.fullCachePath path) = some i →
      (w'.cache.inode i).data = (w.cache.inode i).data) : BlocksAgree cfg path w' := by
  intro o ho
  obtain ⟨hmod, hag⟩ := h o (hrec o ho)
  rw [Fs.content_congr hnas hnasData, Fs.content_congr hcache hcacheData]
  exact ⟨hmod, hag⟩

/-- One block stored by a read. -/
theorem BlocksAgree.fill {window : List Nat} (h : BlocksAgree cfg path w)
    (hni : w.nas.lookup (cfg.fullNasPath path) = some ni)
    (hci : w.cache.lookup (cfg.fullCachePath path) = some ci)
    (hwindow : ∀ o ∈ window, o % cfg.blockSize = 0)
    (hs : Fill cfg A (cfsPathToFileName path) ni ci window w w') : BlocksAgree cfg path w' := by
  obtain ⟨hin, hnew, hm, hlen, hbytes, -⟩ := hs
  refine BlocksAgree.store hni hci hm ?_ hbytes fun o ho hne => ?_
  · intro o ho
    rw [List.mem_singleton.mp ho]
    exact ⟨hwindow _ hin, le_refl _, by omega⟩
  · obtain ⟨hmod, hag⟩ := h.agree_of_lookup hni hci ho
    rw [List.mem_singleton] at hne
    have hapart := aligned_apart hmod (hwindow _ hin) hne
    exact ⟨hmod, by omega, hag⟩

/-- A write of `n` bytes that lands at `pos`, for a request at `offset`, changes no
    recorded block that it does not store again. -/
def WriteClear (cfg : Config) (w : World) (path : Path) (ni : Ino) (offset pos n : Nat) : Prop :=
  0 < n → ∀ o, w.db.Recorded (cfsPathToFileName path) o → o ∉ cfg.window offset n →
    ∀ i, o ≤ i → i < o + cfg.blockSize → min pos (w.nas.inode ni).data.length ≤ i → pos + n ≤ i

/-- A write changes the NAS file and stores its window; the blocks behind it must
    have agreed before. -/
theorem BlocksAgree.write {m : MetaState} {buf block : List UInt8} {offset pos : Nat}
    {now₁ now₂ : Int}
    (h : ∀ o, w.db.Recorded (cfsPathToFileName path) o → o ∉ cfg.window offset buf.length →
      o % cfg.blockSize = 0 ∧
        Agree o (o + cfg.blockSize) (w.cache.inode ci).data (w.nas.inode ni).data)
    (hni : w.nas.lookup (cfg.fullNasPath path) = some ni)
    (hci : w.cache.lookup (cfg.fullCachePath path) = some ci)
    (hclear : WriteClear cfg w path ni offset pos buf.length)
    (hlen : block.length = cfg.alignedSize buf.length)
    (hblock : ∀ j < block.length, cfg.alignLowerOffset offset + j <
      (pwrite (w.nas.inode ni).data buf pos).length → block[j]? =
        (pwrite (w.nas.inode ni).data buf pos)[cfg.alignLowerOffset offset + j]?)
    (hm : WriteBlksPost w.metadata (cfsPathToFileName path) (cfg.window offset buf.length) m) :
    BlocksAgree cfg path (World.store { w with nas := w.nas.pwrite ni buf pos now₁ } m ci
      block (cfg.alignLowerOffset offset) now₂) := by
  have hdata : ((w.nas.pwrite ni buf pos now₁).inode ni).data =
      pwrite (w.nas.inode ni).data buf pos := by simp [Fs.data_pwrite]
  have hlook : (w.nas.pwrite ni buf pos now₁).lookup (cfg.fullNasPath path) = some ni := by
    rwa [Fs.lookup_pwrite]
  refine BlocksAgree.store hlook hci hm ?_ ?_ fun o ho hout => ?_
  · intro o ho
    obtain ⟨i, hi, rfl⟩ := cfg.mem_offsetArray.mp ho
    refine ⟨cfg.mod_of_mem_window ho, Nat.le_add_right _ _, ?_⟩
    rw [hlen, Nat.add_assoc]
    exact Nat.add_le_add_left (cfg.mul_add_le_alignedSize hi) _
  · rw [hdata]
    exact hblock
  · obtain ⟨hmod, hag⟩ := h o ho hout
    refine ⟨hmod, ?_, ?_⟩
    · rw [hlen]
      exact (cfg.mem_window_or_apart hmod).resolve_left hout
    · rw [hdata]
      by_cases hbuf : buf = []
      · rw [hbuf, pwrite_nil]
        exact hag
      · exact hag.pwrite_master (hclear (List.length_pos_iff.mpr hbuf) o ho hout)

end BlocksAgree

-- ============================================================================
-- Every request keeps the files of a run coherent
-- ============================================================================

section Coherent

variable {cfg : Config} {A : Choice → Call → World → Prop} {P : Path → Prop} {w w' : World}
  {path : Path} {fh : Nat} {ni ci : Ino}

theorem Fresh.coherent (h : Fresh cfg P w) : Coherent cfg P w :=
  fun p _ o ho => absurd (h.db ▸ ho) (not_recorded_empty (cfsPathToFileName p) o)

namespace Coherent

theorem opened (h : Coherent cfg P w) (hl : Layout cfg P w) (hpath : P path)
    (ho : OpenPost cfg A path fh w w') : Coherent cfg P w' := by
  obtain ⟨hnas, ni, ci, -, -, -, hk | hr⟩ := ho
  · intro p hp
    refine (h p hp).congr (fun o => ?_) (by rw [hnas]) (by rw [hk.cache])
      (fun _ _ => by rw [hnas]) (fun _ _ => by rw [hk.cache])
    rw [World.db, hk.metadata]
    exact id
  · intro p hp o ho
    -- nothing is recorded for the new copy
    obtain ⟨hrec, hne⟩ := (hr.recorded _ _).mp ho
    have hpp : p ≠ path := fun heq => hne (by rw [heq])
    have hlook := hr.lookup (cfg.fullCachePath p)
    rw [if_neg (hl.cachePath_ne hp hpath hpp)] at hlook
    obtain ⟨mode, now, -, hinode⟩ := hr.inode
    have hagree : BlocksAgree cfg p w' :=
      (h p hp).congr (fun o ho => ((hr.recorded _ _).mp ho).1) (by rw [hnas]) hlook
        (fun _ _ => by rw [hnas]) fun i hi => by
          rw [hinode, if_neg (Nat.ne_of_lt (hl.cacheBounded _ _ hi))]
    exact hagree o ho

/-- What is stored through a current handle of `path` does not reach other files. -/
theorem other_store {p : Path} (h : BlocksAgree cfg p w) (hl : Layout cfg P w) (hp : P p)
    (hpath : P path) (hne : p ≠ path)
    (hci : w.cache.lookup (cfg.fullCachePath path) = some ci) {m : MetaState}
    {offs : List Nat} (hm : WriteBlksPost w.metadata (cfsPathToFileName path) offs m)
    (buf : List UInt8) (off : Nat) (now : Int) :
    BlocksAgree cfg p (w.store m ci buf off now) := by
  refine h.congr (fun o ho => ?_) rfl (Fs.lookup_pwrite _ _ _ _ _ _) (fun _ _ => rfl) fun i hi => ?_
  · exact ((hm.recorded _ _).mp ho).resolve_right fun heq => hne (hl.names p path hp hpath heq.1)
  · have hic : i ≠ ci := by
      rintro rfl
      exact hne (hl.cacheApart p path _ hp hpath hi hci)
    simp only [World.store, Fs.data_pwrite, if_neg hic]

theorem fills (h : Coherent cfg P w) (hl : Layout cfg P w) (hpath : P path)
    (hcur : Current cfg w path fh ni ci) {window : List Nat}
    (hwindow : ∀ o ∈ window, o % cfg.blockSize = 0)
    (hf : Fills cfg A (cfsPathToFileName path) ni ci window w w') : Coherent cfg P w' := by
  have hcache : ∀ {w'}, Fills cfg A (cfsPathToFileName path) ni ci window w w' →
      w'.cache.lookup (cfg.fullCachePath path) = some ci :=
    fun hf => (hf.lookup _).trans hcur.cache
  induction hf with
  | refl => exact h
  | tail hf hs ih =>
      intro p hp
      by_cases hpp : p = path
      · rw [hpp]
        have hnas := Fills.nas hf
        exact (ih path hpath).fill (by rw [hnas]; exact hcur.nas) (hcache hf) hwindow hs
      · cases hs with
        | mk _ _ hm => exact other_store (ih p hp) (hl.fills hf) hp hpath hpp (hcache hf) hm _ _ _

theorem write (h : Coherent cfg P w) (hl : Layout cfg P w) (hpath : P path)
    (hcur : Current cfg w path fh ni ci) {m : MetaState} {buf block : List UInt8}
    {offset pos : Nat} {now₁ now₂ : Int}
    (hclear : WriteClear cfg w path ni offset pos buf.length)
    (hlen : block.length = cfg.alignedSize buf.length)
    (hblock : ∀ j < block.length, cfg.alignLowerOffset offset + j <
      (pwrite (w.nas.inode ni).data buf pos).length → block[j]? =
        (pwrite (w.nas.inode ni).data buf pos)[cfg.alignLowerOffset offset + j]?)
    (hm : WriteBlksPost w.metadata (cfsPathToFileName path) (cfg.window offset buf.length) m) :
    Coherent cfg P (World.store { w with nas := w.nas.pwrite ni buf pos now₁ } m ci block
      (cfg.alignLowerOffset offset) now₂) := by
  intro p hp
  by_cases hpp : p = path
  · rw [hpp]
    refine BlocksAgree.write (fun o ho _ => ?_) hcur.nas hcur.cache hclear hlen hblock hm
    exact (h path hpath).agree_of_lookup hcur.nas hcur.cache ho
  · refine other_store ?_ (hl.nasWrite ni buf pos now₁) hp hpath hpp hcur.cache hm _ _ _
    refine (h p hp).congr (fun _ => id) (Fs.lookup_pwrite _ _ _ _ _ _) rfl (fun i hi => ?_)
      fun _ _ => rfl
    have hin : i ≠ ni := by
      rintro rfl
      exact hpp (hl.nasApart p path _ hp hpath hi hcur.nas)
    simp only [Fs.data_pwrite, if_neg hin]

/-- A release leaves the bytes of the cache files alone. -/
theorem released (h : Coherent cfg P w) {command : List Char} {w₁ : World}
    (hdug : Dug A command w w₁) (fds : Int → Option OpenFile)
    (handles : Nat → Option DualFileHandle) :
    Coherent cfg P { w₁ with fds, handles } := fun p hp =>
  (h p hp).congr (fun o => by simp only [World.db, hdug.metadata, imp_self])
    (by simp only [hdug.nas]) (hdug.lookup _) (fun i _ => by simp only [hdug.nas])
    fun i _ => hdug.data i

end Coherent

end Coherent

-- ============================================================================
-- Runs
-- ============================================================================

/-- The requests on `P` that keep the cache coherent and read inside their window:
    the handle is current; of a read, the window covers the bytes asked for that
    exist; of a write, no recorded block behind the window is changed. -/
def Clean (cfg : Config) (P : Path → Prop) (w : World) : Request → Prop
  | .cfsOpen path _ => P path
  | .cfsRead path size offset fh => P path ∧ ∃ ni ci, Current cfg w path fh ni ci ∧
      ∀ i < size, offset + i < (w.nas.inode ni).data.length →
        offset + i < cfg.alignLowerOffset offset + cfg.alignedSize size
  | .cfsWrite path buf offset fh => P path ∧
      ∃ ni ci, Current cfg w path fh ni ci ∧
        WriteClear cfg w path ni offset (w.nasPos fh offset) buf.length
  | .cfsRelease path fh => P path ∧ HandleOf cfg w path fh
  | _ => False

section Run

variable {cfg : Config} {P : Path → Prop} {w₀ w w' : World}

/-- Clean requests are requests on the files of the run. -/
theorem Clean.onFiles (h : Run succeeds cfg (Clean cfg P) w₀ w) :
    Run succeeds cfg (OnFiles cfg P) w₀ w := by
  refine Relation.ReflTransGen.mono (fun w w' hs => ?_) _ _ h
  obtain ⟨rq, fuel, hclean, he⟩ := hs
  refine ⟨rq, fuel, ?_, he⟩
  cases rq with
  | cfsOpen path flags => exact hclean
  | cfsRead path size offset fh =>
      obtain ⟨hpath, ni, ci, hcur, -⟩ := hclean
      exact ⟨hpath, ni, ci, hcur.opened, hcur.nas⟩
  | cfsWrite path buf offset fh =>
      obtain ⟨hpath, ni, ci, hcur, -⟩ := hclean
      exact ⟨hpath, ni, ci, hcur.opened, hcur.nas⟩
  | cfsRelease path fh => exact hclean
  | cfsUtime path modtime => exact hclean
  | cfsUnlink path => exact hclean

theorem Clean.step (hbs : 0 < cfg.blockSize) (hl : Layout cfg P w) (hc : Coherent cfg P w)
    (hs : Step succeeds cfg (Clean cfg P) w w') : Layout cfg P w' ∧ Coherent cfg P w' := by
  have hA := allSucceed_succeeds
  obtain ⟨rq, fuel, hclean, he⟩ := hs
  refine Prog.wp_exec (Q := fun _ w' => Layout cfg P w' ∧ Coherent cfg P w') ?_ he
  cases rq with
  | cfsOpen path flags =>
      simp only [Request.prog, Prog.wp_bind]
      refine hl.wp_cfsOpen hA hclean fun fh w' ho => ?_
      exact ⟨hl.opened hclean ho, hc.opened hl hclean ho⟩
  | cfsRead path size offset fh =>
      obtain ⟨hpath, ni, ci, hcur, -⟩ := hclean
      simp only [Request.prog, Prog.wp_bind]
      refine wp_cfsRead hA hbs hl.wf hcur.opened fun ret buf w' hf _ _ _ _ => ?_
      exact ⟨hl.fills hf, hc.fills hl hpath hcur (fun o => cfg.mod_of_mem_window) hf⟩
  | cfsWrite path buf offset fh =>
      obtain ⟨hpath, ni, ci, hcur, hclear⟩ := hclean
      simp only [Request.prog, Prog.wp_bind]
      refine wp_cfsWrite hA hl.wf hcur.opened fun m now₁ now₂ block _ _ hlen hblock hm _ => ?_
      exact ⟨(hl.nasWrite ni buf (w.nasPos fh offset) now₁).store hm _ _ _ _,
        hc.write hl hpath hcur hclear hlen (hblock hcur.nas) hm⟩
  | cfsRelease path fh =>
      obtain ⟨-, ni, ci, hopen, -⟩ := hclean
      simp only [Request.prog, Prog.wp_bind]
      exact wp_cfsRelease hA hopen fun ret w₁ fds handles hdug =>
        ⟨hl.released hdug fds handles, hc.released hdug fds handles⟩
  | cfsUtime path modtime => exact hclean.elim
  | cfsUnlink path => exact hclean.elim

theorem Clean.run (hbs : 0 < cfg.blockSize) (h₀ : Fresh cfg P w₀)
    (h : Run succeeds cfg (Clean cfg P) w₀ w) : Layout cfg P w ∧ Coherent cfg P w := by
  induction h with
  | refl => exact ⟨h₀.layout, h₀.coherent⟩
  | tail _ hs ih => exact Clean.step hbs ih.1 ih.2 hs

/-- In a run of clean requests every read puts into the buffer what the NAS file
    holds. -/
theorem reads_transparent (hbs : 0 < cfg.blockSize) (h₀ : Fresh cfg P w₀)
    (hrun : Run succeeds cfg (Clean cfg P) w₀ w) {path : Path} {size offset fh fuel : Nat}
    (hclean : Clean cfg P w (.cfsRead path size offset fh)) {ret : Int} {buf : List UInt8}
    (he : Prog.Exec (env succeeds True) (cfsRead cfg fuel path size offset fh) w (ret, buf) w')
    {ni : Ino} (hni : w.nas.lookup (cfg.fullNasPath path) = some ni) :
    ∀ i < size, offset + i < (w.nas.inode ni).data.length →
      buf[i]? = (w.nas.inode ni).data[offset + i]? := by
  obtain ⟨hl, hc⟩ := Clean.run hbs h₀ hrun
  obtain ⟨hpath, ni', ci, hcur, hcover⟩ := hclean
  obtain rfl : ni' = ni := Option.some.inj (hcur.nas.symm.trans hni)
  refine Prog.wp_exec (Q := fun r _ => ∀ i < size, offset + i < (w.nas.inode ni').data.length →
    r.2[i]? = (w.nas.inode ni').data[offset + i]?) ?_ he
  refine wp_cfsRead allSucceed_succeeds hbs hl.wf hcur.opened
    fun ret buf w' _ _ _ _ hbuf i hi hlt => ?_
  obtain ⟨o, hin, hlo, hhi, hsource⟩ := hbuf i hi (hcover i hi hlt)
  rw [List.getElem?_eq_getElem hlt]
  refine hsource _ ?_
  rw [← List.getElem?_eq_getElem hlt, World.source]
  split
  · -- a block from the cache file: it is recorded, so it agrees
    next hsel =>
      have hrec := hl.wf.selectBlockId_iff.mp hsel
      exact ((hc path hpath).agree_of_lookup hni hcur.cache hrec).2 _ hlo hhi hlt
  · rfl

theorem current_sampleOpened :
    Current sampleConfig (sampleOpened [1, 2, 3, 4, 5, 6, 7, 8]) samplePath 1 1 2 :=
  ⟨⟨⟨3, 5⟩, by decide, ⟨true, true, false, by decide⟩, true, true, by decide⟩, by decide, by decide⟩

/-- Opening and reading a file of two blocks is clean. -/
theorem run_sampleReadAll : Run succeeds sampleConfig (Clean sampleConfig (· = samplePath))
    (sampleWorld [1, 2, 3, 4, 5, 6, 7, 8]) (sampleReadAll [1, 2, 3, 4, 5, 6, 7, 8]) :=
  (Relation.ReflTransGen.single (step_served {} (.cfsOpen samplePath 2) (by decide) rfl)).tail
    (step_served {} (.cfsRead samplePath 8 0 1) (by decide)
      ⟨rfl, 1, 2, current_sampleOpened, by decide⟩)

/-- A file of two blocks is opened and read, then its second block is read again. -/
theorem reads_transparent_again : ∃ w w' ret buf,
    Run succeeds sampleConfig (Clean sampleConfig (· = samplePath))
      (sampleWorld [1, 2, 3, 4, 5, 6, 7, 8]) w ∧
    Prog.Exec (env succeeds True) (cfsRead sampleConfig 1 samplePath 4 4 1) w (ret, buf) w' ∧
    ∀ i < 4, 4 + i < (w.nas.inode 1).data.length →
      buf[i]? = (w.nas.inode 1).data[4 + i]? := by
  have hcur : Current sampleConfig (sampleReadAll [1, 2, 3, 4, 5, 6, 7, 8]) samplePath 1 1 2 :=
    ⟨⟨⟨3, 5⟩, by decide, ⟨true, true, false, by decide⟩, true, true, by decide⟩,
      by decide, by decide⟩
  have heval : (Prog.runAllowed (env succeeds True) (fun _ => {})
      (cfsRead sampleConfig 1 samplePath 4 4 1) (sampleReadAll [1, 2, 3, 4, 5, 6, 7, 8])).map
        (fun _ => ()) = some () := by decide
  obtain ⟨⟨ret, buf⟩, w', he, -⟩ := exec_of_eval heval
  exact ⟨_, w', ret, buf, run_sampleReadAll, he, reads_transparent (by decide)
    (sampleWorld_fresh _) run_sampleReadAll ⟨rfl, 1, 2, hcur, by decide⟩ he (by decide)⟩

/-- A write of 4 bytes at offset 2 changes both blocks of a file and stores the
    first one only: the recorded second block is served with its old bytes. -/
theorem reads_not_transparent : ¬ ∀ (cfg : Config) (P : Path → Prop) (w₀ w w' : World)
    (path : Path) (size offset fh fuel : Nat) (ret : Int) (buf : List UInt8) (ni : Ino),
    0 < cfg.blockSize → Fresh cfg P w₀ → Run succeeds cfg (OnFiles cfg P) w₀ w →
    OnFiles cfg P w (.cfsRead path size offset fh) →
    Prog.Exec (env succeeds True) (cfsRead cfg fuel path size offset fh) w (ret, buf) w' →
    w.nas.lookup (cfg.fullNasPath path) = some ni →
    ∀ i < size, offset + i < (w.nas.inode ni).data.length →
      buf[i]? = (w.nas.inode ni).data[offset + i]? := by
  intro h
  let data : List UInt8 := [1, 2, 3, 4, 5, 6, 7, 8]
  let w := (sampleReadAll data).served succeeds sampleConfig {}
    (.cfsWrite samplePath [9, 9, 9, 9] 2 1)
  have hof₁ : HandleOf sampleConfig (sampleOpened data) samplePath 1 :=
    ⟨1, 2, ⟨⟨3, 5⟩, by decide, ⟨true, true, false, by decide⟩, true, true, by decide⟩, by decide⟩
  have hof₂ : HandleOf sampleConfig (sampleReadAll data) samplePath 1 :=
    ⟨1, 2, ⟨⟨3, 5⟩, by decide, ⟨true, true, false, by decide⟩, true, true, by decide⟩, by decide⟩
  have hof₃ : HandleOf sampleConfig w samplePath 1 :=
    ⟨1, 2, ⟨⟨3, 5⟩, by decide, ⟨true, true, false, by decide⟩, true, true, by decide⟩, by decide⟩
  have hrun : Run succeeds sampleConfig (OnFiles sampleConfig (· = samplePath))
      (sampleWorld data) w :=
    ((Relation.ReflTransGen.single (step_served {} (.cfsOpen samplePath 2) (by decide) rfl)).tail
      (step_served {} (.cfsRead samplePath 8 0 1) (by decide) ⟨rfl, hof₁⟩)).tail
      (step_served {} (.cfsWrite samplePath [9, 9, 9, 9] 2 1) (by decide) ⟨rfl, hof₂⟩)
  have heval : (Prog.runAllowed (env succeeds True) (fun _ => {})
      (cfsRead sampleConfig 1 samplePath 4 4 1) w).map (fun r => r.1.2) = some [5, 6, 7, 8] := by
    decide
  obtain ⟨⟨ret, buf⟩, w', he, hbuf⟩ := exec_of_eval heval
  have hbyte := h sampleConfig (· = samplePath) (sampleWorld data) w w' samplePath 4 4 1 1 ret buf 1
    (by decide) (sampleWorld_fresh data) hrun ⟨rfl, hof₃⟩ he (by decide) 0 (by decide) (by decide)
  simp only at hbuf
  rw [hbuf] at hbyte
  exact absurd hbyte (by decide)

end Run

end CacheFs
