/-
  CacheFs.ReadPaths

  `cfs_read` from the cache, from the NAS and from both.

  A read takes each block of its window from the cache file when it is recorded, and
  from the NAS file otherwise, storing it.  `Servable` is what makes the two sources
  the same: every recorded block equals the bytes of the NAS file, and the cache file
  of the handle belongs to no other name.  A read keeps it, so the blocks of one
  request can come from either side in any combination, and the same request can be
  made again: it is then served from the cache alone.
-/

import CacheFs.Lookup

namespace CacheFs

open CacheFs.Effect
open CacheFs.Posix

-- ============================================================================
-- Recorded blocks that equal the file
-- ============================================================================

/-- Every recorded block of `path` equals the bytes of the NAS file below its end;
    the block may start anywhere. -/
def Mirrors (cfg : Config) (path : Path) (w : World) : Prop :=
  ∀ o, w.db.Recorded (cfsPathToFileName path) o →
    Agree o (o + cfg.blockSize) (w.cache.content (cfg.fullCachePath path))
      (w.nas.content (cfg.fullNasPath path))

/-- A read of `path` through `fh` can be served: the recorded blocks of all files equal
    the NAS files, and the cache file is that of no other name. -/
structure Servable (cfg : Config) (P : Path → Prop) (w : World) (path : Path) (fh : Nat)
    (ni ci : Ino) : Prop where
  wf : w.db.WF
  inP : P path
  file : w.db.HasFile (cfsPathToFileName path)
  current : Current cfg w path fh ni ci
  own : ∀ q, P q → w.cache.lookup (cfg.fullCachePath q) = some ci → q = path
  mirrors : ∀ q, P q → Mirrors cfg q w

/-- `buf` holds the bytes of the file as far as the window of the request and the file
    reach. -/
def Delivers (cfg : Config) (nasData : List UInt8) (offset size : Nat) (buf : List UInt8) : Prop :=
  ∀ i < size, offset + i < cfg.alignLowerOffset offset + cfg.alignedSize size →
    offset + i < nasData.length → buf[i]? = nasData[offset + i]?

section Servable

variable {cfg : Config} {A : Choice → Call → World → Prop} {P : Path → Prop} {w w' : World}
  {path : Path} {fh : Nat} {ni ci : Ino}

theorem Mirrors.agree_of_lookup (h : Mirrors cfg path w)
    (hni : w.nas.lookup (cfg.fullNasPath path) = some ni)
    (hci : w.cache.lookup (cfg.fullCachePath path) = some ci) {o : Nat}
    (ho : w.db.Recorded (cfsPathToFileName path) o) :
    Agree o (o + cfg.blockSize) (w.cache.inode ci).data (w.nas.inode ni).data := by
  have hag := h o ho
  rwa [Fs.content_of_lookup hni, Fs.content_of_lookup hci] at hag

/-- A block is stored for the file itself: it is one more that equals the file, and the
    other ones keep their bytes or get the same ones again. -/
theorem Mirrors.fill {window : List Nat} (h : Mirrors cfg path w)
    (hni : w.nas.lookup (cfg.fullNasPath path) = some ni)
    (hci : w.cache.lookup (cfg.fullCachePath path) = some ci)
    (hs : Fill cfg A (cfsPathToFileName path) ni ci window w w') : Mirrors cfg path w' := by
  obtain ⟨-, -, hm, hlen, hbytes, -⟩ := hs
  next m bytes off now =>
  intro o ho
  have hci' : (w.store m ci bytes off now).cache.lookup (cfg.fullCachePath path) = some ci := by
    simpa only [World.store, Fs.lookup_pwrite] using hci
  have hdata : ((w.store m ci bytes off now).cache.inode ci).data =
      pwrite (w.cache.inode ci).data bytes off := by
    simp only [World.store, Fs.data_pwrite, if_true]
  rw [Fs.content_of_lookup hci', hdata, World.store, Fs.content_of_lookup hni]
  rcases (hm.recorded _ _).mp ho with hrec | ⟨-, -, hin⟩
  · exact (h.agree_of_lookup hni hci hrec).pwrite_of_master hbytes
  · rw [List.mem_singleton.mp hin]
    exact Agree.fill hbytes (le_refl _) (by omega)

/-- A block is stored for another file. -/
theorem Mirrors.fill_other {q : Path} {filename : FileName} {window : List Nat}
    (h : Mirrors cfg q w) (hname : cfsPathToFileName q ≠ filename)
    (hino : w.cache.lookup (cfg.fullCachePath q) ≠ some ci)
    (hs : Fill cfg A filename ni ci window w w') : Mirrors cfg q w' := by
  obtain ⟨-, -, hm, -, -, -⟩ := hs
  next m bytes off now =>
  intro o ho
  have hrec := ((hm.recorded _ _).mp ho).resolve_right fun heq => hname heq.1
  have hcontent : (w.store m ci bytes off now).cache.content (cfg.fullCachePath q) =
      w.cache.content (cfg.fullCachePath q) := by
    refine Fs.content_congr (Fs.lookup_pwrite _ _ _ _ _ _) fun i hi => ?_
    have hne : i ≠ ci := fun heq => hino (heq ▸ hi)
    simp only [World.store, Fs.data_pwrite, if_neg hne]
  rw [hcontent]
  exact h o hrec

namespace Servable

theorem name_ne (h : Servable cfg P w path fh ni ci) {q : Path} (hq : P q) (hne : q ≠ path) :
    cfsPathToFileName q ≠ cfsPathToFileName path := by
  intro heq
  refine hne (h.own q hq ?_)
  rw [cfg.fullCachePath_inj.mpr heq]
  exact h.current.cache

theorem fill (h : Servable cfg P w path fh ni ci) {window : List Nat}
    (hs : Fill cfg A (cfsPathToFileName path) ni ci window w w') :
    Servable cfg P w' path fh ni ci := by
  have hf := Relation.ReflTransGen.single hs
  have hlook := Fills.lookup hf
  refine ⟨Fills.wf hf h.wf, h.inP, (Fills.hasFile hf _).mpr h.file,
    ⟨h.current.opened.congr (Fills.handles hf) (Fills.fds hf), ?_, ?_⟩, fun q hq hci => ?_,
    fun q hq => ?_⟩
  · rw [Fills.nas hf]
    exact h.current.nas
  · rw [hlook]
    exact h.current.cache
  · rw [hlook] at hci
    exact h.own q hq hci
  · by_cases hqp : q = path
    · rw [hqp]
      exact (h.mirrors path h.inP).fill h.current.nas h.current.cache hs
    · exact (h.mirrors q hq).fill_other (h.name_ne hq hqp) (fun hci => hqp (h.own q hq hci)) hs

theorem fills (h : Servable cfg P w path fh ni ci) {window : List Nat}
    (hf : Fills cfg A (cfsPathToFileName path) ni ci window w w') :
    Servable cfg P w' path fh ni ci := by
  induction hf with
  | refl => exact h
  | tail _ hs ih => exact ih.fill hs

/-- Below the end of the file both sources of a block hold the bytes of the file. -/
theorem source_eq (h : Servable cfg P w path fh ni ci) {o i : Nat} (hlo : o ≤ i)
    (hhi : i < o + cfg.blockSize) (hlt : i < (w.nas.inode ni).data.length) :
    (w.source (cfsPathToFileName path) ni ci o)[i]? = (w.nas.inode ni).data[i]? := by
  rw [World.source]
  split
  · next hsel =>
      have hrec := h.wf.selectBlockId_iff.mp hsel
      exact (h.mirrors path h.inP).agree_of_lookup h.current.nas h.current.cache hrec i hlo hhi hlt
  · rfl

/-- What a read does, whichever blocks of its window are recorded. -/
theorem wp_cfsRead (h : Servable cfg P w path fh ni ci) (hA : AllSucceed A)
    (hbs : 0 < cfg.blockSize) {fuel size offset : Nat} {Q : Int × List UInt8 → World → Prop}
    (hQ : ∀ ret buf w', Servable cfg P w' path fh ni ci → w'.nas = w.nas →
      Delivers cfg (w.nas.inode ni).data offset size buf →
      (∀ o ∈ cfg.window offset size, w'.db.Recorded (cfsPathToFileName path) o) →
      Stamped (Clock A) (cfsPathToFileName path)
        (w.db.missing (cfsPathToFileName path) (cfg.window offset size)) w.metadata w'.metadata →
      Q (ret, buf) w') :
    Prog.wp (env A True) (cfsRead cfg fuel path size offset fh) Q w := by
  refine CacheFs.wp_cfsRead hA hbs h.wf h.current.opened fun ret buf w' hf hm hs _ hbuf => ?_
  refine hQ ret buf w' (h.fills hf) hf.nas (fun i hi hin hlt => ?_) (fun o ho => ?_) hs
  · obtain ⟨o, -, hlo, hhi, hsource⟩ := hbuf i hi hin
    rw [List.getElem?_eq_getElem hlt]
    refine hsource _ ?_
    rw [h.source_eq hlo hhi hlt, List.getElem?_eq_getElem hlt]
  · rw [World.db, hm.recorded]
    by_cases hsel : w.db.selectBlockId o (cfsPathToFileName path) = true
    · exact Or.inl (h.wf.selectBlockId_iff.mp hsel)
    · refine Or.inr ⟨rfl, h.file, List.mem_filter.mpr ⟨ho, ?_⟩⟩
      rw [Bool.not_eq_true', ← Bool.not_eq_true]
      exact hsel

end Servable

end Servable

-- ============================================================================
-- Reads from the cache alone
-- ============================================================================

/-- The event reads a NAS file. -/
def ReadsNas (e : CfsEvent) : Prop :=
  ∃ fd n off f, e.op = .pread fd n off ∧ e.before.fds fd = some f ∧ f.side = .nas

/-- When the whole window is recorded, no read goes to the NAS. -/
theorem traced_cfsRead_recorded {S : Prop} {cfg : Config} {w w' : World} {path : Path}
    {fuel size offset fh : Nat} {ni ci : Ino} {tr : List CfsEvent} {r : Int × List UInt8}
    (hwf : w.db.WF) (hfh : Opened w fh ni ci)
    (hrec : ∀ o ∈ cfg.window offset size, w.db.Recorded (cfsPathToFileName path) o)
    (h : Prog.Traced (env anyOutcome S) (cfsRead cfg fuel path size offset fh) w tr r w') :
    ∀ e ∈ tr, ¬ ReadsNas e := by
  obtain ⟨dualFH, hdual, -, rd, wr, hcache⟩ := hfh
  obtain ⟨tr₁, pre, tr₂, post, hits, cacheBuf, acc, rfl, hlook, hmemory, -, hwindow⟩ :=
    traced_cfsRead_split h
  -- no lookup answers 0, so the window is filled with one read from the cache file
  have hzero : 0 ∉ hits := by
    intro hz
    obtain ⟨o, ho, hno, -⟩ := hlook.zero_mem_iff.mp hz
    exact hwf.selectBlockId_eq_false_iff.mp hno (hrec o ho)
  rw [hdual, Option.getD_some, if_neg hzero, readWindow, if_pos (by decide)] at hwindow
  obtain ⟨c, tr', -, rfl, rfl, -, rfl⟩ := traced_ask.mp hwindow
  have hnot : ∀ e : CfsEvent, (∀ fd n off, e.op ≠ .pread fd n off) → ¬ ReadsNas e := by
    rintro e he ⟨fd, n, off, f, hop, -⟩
    exact he fd n off hop
  intro e he
  simp only [List.mem_append, List.mem_cons, List.not_mem_nil, or_false] at he hmemory
  rcases he with he | he | rfl | he
  · exact hnot e (hlook.no_read he)
  · exact hnot e (Call.no_read_of_onMemory (hmemory e (Or.inl he)))
  · rintro ⟨fd, n, off, f, hop, hfd, hside⟩
    obtain ⟨rfl, -, -⟩ := Call.pread.inj hop
    rw [← Option.some.inj (hcache.symm.trans hfd)] at hside
    exact nomatch hside
  · exact hnot e (Call.no_read_of_onMemory (hmemory e (Or.inr he)))

/-- Whichever blocks of its window are recorded, a read delivers the bytes of the NAS
    file, records the window and no other block, keeps every recorded block equal to
    its file, and is served from the cache with the same bytes when it is repeated. -/
theorem read_paths_agree {cfg : Config} {P : Path → Prop} {w w' : World} {path : Path}
    {fh fuel size offset : Nat} {ni ci : Ino} {ret : Int} {buf : List UInt8}
    (hbs : 0 < cfg.blockSize) (h : Servable cfg P w path fh ni ci)
    (he : Prog.Exec (env succeeds True) (cfsRead cfg fuel path size offset fh) w (ret, buf) w') :
    Delivers cfg (w.nas.inode ni).data offset size buf ∧
    (∀ q, P q → Mirrors cfg q w') ∧
    (∀ o ∈ cfg.window offset size, w'.db.Recorded (cfsPathToFileName path) o) ∧
    w'.db.datablocks.filter (!w.db.listed (cfsPathToFileName path)
        (w.db.missing (cfsPathToFileName path) (cfg.window offset size)) ·) =
      w.db.datablocks.filter (!w.db.listed (cfsPathToFileName path)
        (w.db.missing (cfsPathToFileName path) (cfg.window offset size)) ·) ∧
    ∀ fuel' tr ret' buf' w'', Prog.Traced (env succeeds True)
        (cfsRead cfg fuel' path size offset fh) w' tr (ret', buf') w'' →
      (∀ e ∈ tr, ¬ ReadsNas e) ∧
        ∀ i < size, offset + i < cfg.alignLowerOffset offset + cfg.alignedSize size →
          offset + i < (w.nas.inode ni).data.length → buf'[i]? = buf[i]? := by
  have hread := Prog.wp_exec (Q := fun (r : Int × List UInt8) w' =>
    Servable cfg P w' path fh ni ci ∧ w'.nas = w.nas ∧
    Delivers cfg (w.nas.inode ni).data offset size r.2 ∧
    (∀ o ∈ cfg.window offset size, w'.db.Recorded (cfsPathToFileName path) o) ∧
    Stamped (Clock succeeds) (cfsPathToFileName path)
      (w.db.missing (cfsPathToFileName path) (cfg.window offset size)) w.metadata w'.metadata)
    (h.wp_cfsRead allSucceed_succeeds hbs fun _ _ _ hw' hnas hbuf hrec hs =>
      ⟨hw', hnas, hbuf, hrec, hs⟩) he
  obtain ⟨hw', hnas, hbuf, hrec, hs⟩ := hread
  refine ⟨hbuf, hw'.mirrors, hrec, hs.kept, fun fuel' tr ret' buf' w'' htr => ⟨?_, ?_⟩⟩
  · have hany : Prog.Traced (env anyOutcome True) (cfsRead cfg fuel' path size offset fh) w' tr
        (ret', buf') w'' := 
      Prog.Traced.allow (E := env succeeds True) (env anyOutcome True) rfl htr fun _ _ => trivial
    exact traced_cfsRead_recorded hw'.wf hw'.current.opened hrec hany
  · have hagain : Delivers cfg (w'.nas.inode ni).data offset size buf' :=
      Prog.wp_exec (Q := fun (r : Int × List UInt8) _ =>
        Delivers cfg (w'.nas.inode ni).data offset size r.2)
        (hw'.wp_cfsRead allSucceed_succeeds hbs fun _ _ _ _ _ hbuf' _ _ => hbuf')
        (Prog.traced_exec htr)
    intro i hi hin hlt
    rw [hbuf i hi hin hlt, hagain i hi hin (by rwa [hnas]), hnas]

theorem servable_sampleOpened : Servable sampleConfig (· = samplePath)
    (sampleOpened [1, 2, 3, 4, 5, 6, 7, 8]) samplePath 1 1 2 where
  wf := by constructor <;> decide
  inP := rfl
  file := by decide
  current := ⟨opened_sampleOpened, by decide, by decide⟩
  own _ hq _ := hq
  mirrors q _ o ho := by
    obtain ⟨_, _, _, b, hb, _⟩ := ho
    have hnone : (sampleOpened [1, 2, 3, 4, 5, 6, 7, 8]).db.datablocks = [] := by decide
    rw [hnone] at hb
    exact nomatch hb

/-- The first block of the file is read, then both. -/
theorem read_paths_agree_mixed : ∃ (w₁ w₂ : World) (ret : Int) (buf : List UInt8),
    w₁.db.datablocks.map (·.blkStartOffset) = [0] ∧
    Prog.Exec (env succeeds True) (cfsRead sampleConfig 1 samplePath 8 0 1) w₁ (ret, buf) w₂ ∧
    Delivers sampleConfig (w₁.nas.inode 1).data 0 8 buf ∧
    ∀ o ∈ sampleConfig.window 0 8, w₂.db.Recorded (cfsPathToFileName samplePath) o := by
  let w := sampleOpened [1, 2, 3, 4, 5, 6, 7, 8]
  have hfirst : (Prog.runAllowed (env succeeds True) (fun _ => {})
      (cfsRead sampleConfig 1 samplePath 4 0 1) w).map (fun x =>
        (x.2.db.datablocks.map (·.blkStartOffset),
          (Prog.runAllowed (env succeeds True) (fun _ => {})
            (cfsRead sampleConfig 1 samplePath 8 0 1) x.2).isSome)) = some ([0], true) := by decide
  obtain ⟨⟨_, _⟩, w₁, he₁, hf⟩ := exec_of_eval hfirst
  obtain ⟨hrows, hboth⟩ := Prod.mk.inj hf
  obtain ⟨⟨⟨ret, buf⟩, w₂⟩, hrun⟩ := Option.isSome_iff_exists.mp hboth
  have he₂ := Prog.exec_of_runAllowed _ hrun
  have hw₁ : Servable sampleConfig (· = samplePath) w₁ samplePath 1 1 2 :=
    Prog.wp_exec (Q := fun _ w' => Servable sampleConfig (· = samplePath) w' samplePath 1 1 2)
      (servable_sampleOpened.wp_cfsRead allSucceed_succeeds (by decide)
        fun _ _ _ hw' _ _ _ _ => hw') he₁
  obtain ⟨hbuf, -, hrec, -, -⟩ := read_paths_agree (by decide) hw₁ he₂
  exact ⟨w₁, w₂, ret, buf, hrows, he₂, hbuf, hrec⟩

end CacheFs
