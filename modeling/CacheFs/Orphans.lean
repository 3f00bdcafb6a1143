/-
  CacheFs.Orphans

  Which cache file holds a recorded block when a path has several handles.

  The rows of a path are keyed by its name, but blocks are written through the
  descriptor that the handle got when it was opened.  When a later open renews the
  copy, the older handle keeps writing to a file that has no name any more.  A
  session therefore carries a record of what was last stored for each block, and
  the invariant is that the file under the cache name has it (`Held`).  It is kept
  by every request that stores nothing or stores through a current handle.
-/

import CacheFs.Session

namespace CacheFs

open CacheFs.Effect
open CacheFs.Posix

-- ============================================================================
-- What has been stored
-- ============================================================================

/-- The block at `o` of the cache file that `fh` writes to. -/
def World.handleBlock (w : World) (cfg : Config) (fh o : Nat) : List UInt8 :=
  match (w.handles fh).bind fun dualFH => w.fds dualFH.cacheFH with
  | some f => Posix.pread (w.cache.inode f.ino).data cfg.blockSize o
  | none => []

/-- The handle through which a request stores the block at `o` of `path`, if it
    does: a read stores the blocks of its window that are not recorded, a write
    stores them all. -/
def Request.storesThrough (cfg : Config) (w : World) (path : Path) (o : Nat) :
    Request → Option Nat
  | .cfsRead p size offset fh =>
      if p = path ∧ o ∈ cfg.window offset size ∧
          w.db.selectBlockId o (cfsPathToFileName path) = false then some fh else none
  | .cfsWrite p buf offset fh =>
      if p = path ∧ o ∈ cfg.window offset buf.length then some fh else none
  | _ => none

/-- What is stored for each block of `path` after a request. -/
def Request.noted (cfg : Config) (w w' : World) (path : Path) (stored : Nat → List UInt8)
    (rq : Request) (o : Nat) : List UInt8 :=
  match rq.storesThrough cfg w path o with
  | some fh => w'.handleBlock cfg fh o
  | none => stored o

/-- The session after a request that `World.served` answers. -/
def Request.after (cfg : Config) (s : (Path → Nat → List UInt8) × World) (rq : Request) :
    (Path → Nat → List UInt8) × World :=
  (fun p => rq.noted cfg s.2 (s.2.served succeeds cfg {} rq) p (s.1 p),
    s.2.served succeeds cfg {} rq)

/-- Requests, and changes of the NAS by others, in any order. -/
inductive SessionStep (cfg : Config) (P : Path → Prop) (cond : World → Request → Prop) :
    (Path → Nat → List UInt8) × World → (Path → Nat → List UInt8) × World → Prop
  | request {stored : Path → Nat → List UInt8} {w w' : World} (rq : Request) (fuel : Nat)
      (hc : cond w rq) (he : Prog.Exec (env succeeds True) (rq.prog cfg fuel) w () w') :
      SessionStep cfg P cond (stored, w) (fun p => rq.noted cfg w w' p (stored p), w')
  | foreign {stored : Path → Nat → List UInt8} {w : World} (nas : Fs)
      (hregular : ∀ p i, P p → nas.lookup (cfg.fullNasPath p) = some i →
        (nas.inode i).kind = .reg)
      (hapart : ∀ p q i, P p → P q → nas.lookup (cfg.fullNasPath p) = some i →
        nas.lookup (cfg.fullNasPath q) = some i → p = q) :
      SessionStep cfg P cond (stored, w) (stored, { w with nas })

abbrev Session (cfg : Config) (P : Path → Prop) (cond : World → Request → Prop) :
    (Path → Nat → List UInt8) × World → (Path → Nat → List UInt8) × World → Prop :=
  Relation.ReflTransGen (SessionStep cfg P cond)

/-- The file under the cache name of `path` has every recorded block as it was
    stored. -/
def Held (cfg : Config) (path : Path) (stored : Nat → List UInt8) (w : World) : Prop :=
  ∀ o, w.db.Recorded (cfsPathToFileName path) o →
    o % cfg.blockSize = 0 ∧ (stored o).length = cfg.blockSize ∧
      ∃ ci, w.cache.lookup (cfg.fullCachePath path) = some ci ∧
        pread (w.cache.inode ci).data cfg.blockSize o = stored o

-- ============================================================================
-- Blocks of a file
-- ============================================================================

section Blocks

variable {cfg : Config} {A : Choice → Call → World → Prop} {P : Path → Prop} {w w' : World}
  {path : Path} {fh : Nat} {ni ci : Ino} {stored : Nat → List UInt8}

theorem Opened.handleBlock (h : Opened w fh ni ci) (o : Nat) :
    w.handleBlock cfg fh o = pread (w.cache.inode ci).data cfg.blockSize o := by
  obtain ⟨dualFH, hh, -, r, wr, hfd⟩ := h
  simp only [World.handleBlock, hh, Option.bind_some, hfd]

/-- What a read has recorded it has written in full. -/
theorem Fills.recorded_or {filename : FileName} {window : List Nat} (hbs : 0 < cfg.blockSize)
    (hf : Fills cfg A filename ni ci window w w') {o : Nat} (ho : w'.db.Recorded filename o) :
    w.db.Recorded filename o ∨
      (o ∈ window ∧ o + cfg.blockSize ≤ (w'.cache.inode ci).data.length) := by
  induction hf generalizing o with
  | refl => exact Or.inl ho
  | @tail w₁ w₂ _ hs ih =>
      obtain ⟨hin, hnew, hm, hlen, -, -⟩ := hs
      next m bytes o' now =>
      have hne : bytes ≠ [] := by
        rintro rfl
        simp only [List.length_nil] at hlen
        omega
      have hdata : ((w₁.store m ci bytes o' now).cache.inode ci).data.length =
          max (w₁.cache.inode ci).data.length (o' + bytes.length) := by
        simp only [World.store, Fs.data_pwrite, if_true]
        rw [pwrite_length _ _ _ hne]
      rw [hdata]
      rcases (hm.recorded _ _).mp ho with ho | ⟨-, -, ho⟩
      · exact (ih ho).imp_right fun h => ⟨h.1, le_trans h.2 (le_max_left _ _)⟩
      · rw [List.mem_singleton.mp ho]
        exact Or.inr ⟨hin, by omega⟩

namespace Held

/-- Changes to other files, and to the NAS, leave the blocks of `path` alone. -/
theorem congr (h : Held cfg path stored w)
    (hrec : ∀ o, w'.db.Recorded (cfsPathToFileName path) o →
      w.db.Recorded (cfsPathToFileName path) o)
    (hcache : w'.cache.lookup (cfg.fullCachePath path) = w.cache.lookup (cfg.fullCachePath path))
    (hdata : ∀ i, w.cache.lookup (cfg.fullCachePath path) = some i →
      (w'.cache.inode i).data = (w.cache.inode i).data) : Held cfg path stored w' := by
  intro o ho
  obtain ⟨hmod, hlen, ci, hci, hblock⟩ := h o (hrec o ho)
  exact ⟨hmod, hlen, ci, hcache.trans hci, by rw [hdata ci hci, hblock]⟩

/-- An open keeps the copy, or nothing is recorded of the new one. -/
theorem opened {p : Path} (h : Held cfg p stored w) (hl : Layout cfg P w) (hp : P p)
    (hpath : P path) (ho : OpenPost cfg A path fh w w') : Held cfg p stored w' := by
  obtain ⟨-, ni, ci, -, -, -, hk | hr⟩ := ho
  · refine h.congr (fun o => ?_) (by rw [hk.cache]) fun _ _ => by rw [hk.cache]
    rw [World.db, hk.metadata]
    exact id
  · by_cases hpp : p = path
    · rw [hpp]
      exact fun o ho => absurd rfl ((hr.recorded _ _).mp ho).2
    · obtain ⟨mode, now, -, hinode⟩ := hr.inode
      refine h.congr (fun o ho => ((hr.recorded _ _).mp ho).1) ?_ fun i hi => ?_
      · rw [hr.lookup, if_neg (hl.cachePath_ne hp hpath hpp)]
      · rw [hinode, if_neg (Nat.ne_of_lt (hl.cacheBounded _ _ hi))]

/-- A read through a current handle: the new blocks are in the file of the handle,
    and the old ones stay as they are. -/
theorem fills (h : Held cfg path stored w) (hbs : 0 < cfg.blockSize) (hl : Layout cfg P w)
    (hopen : Opened w fh ni ci) (hci : w.cache.lookup (cfg.fullCachePath path) = some ci)
    {size offset : Nat}
    (hf : Fills cfg A (cfsPathToFileName path) ni ci (cfg.window offset size) w w') :
    Held cfg path ((Request.cfsRead path size offset fh).noted cfg w w' path stored) w' := by
  have hgrid : ∀ o ∈ cfg.window offset size, o % cfg.blockSize = 0 :=
    fun o => cfg.mod_of_mem_window
  have hopen' : Opened w' fh ni ci := hopen.congr hf.handles hf.fds
  intro o ho
  by_cases hold : w.db.Recorded (cfsPathToFileName path) o
  · obtain ⟨hmod, hlen, ci', hci', hblock⟩ := h o hold
    obtain rfl : ci' = ci := Option.some.inj (hci'.symm.trans hci)
    have hnoted : (Request.cfsRead path size offset fh).noted cfg w w' path stored o =
        stored o := by
      have hsel := hl.wf.selectBlockId_iff.mpr hold
      simp [Request.noted, Request.storesThrough, hsel]
    have hfull := pread_length_eq_iff.mp (hblock ▸ hlen)
    rw [hnoted]
    refine ⟨hmod, hlen, ci', (hf.lookup _).trans hci, ?_⟩
    rw [← hblock]
    refine pread_congr fun i hlo hhi => ?_
    have hlt : i < (w.cache.inode ci').data.length := by omega
    rw [List.getElem?_eq_getElem hlt]
    exact hf.data_of_recorded hgrid hold hmod hlo hhi (List.getElem?_eq_getElem hlt)
  · obtain ⟨hin, hfull⟩ := (hf.recorded_or hbs ho).resolve_left hold
    have hsel : w.db.selectBlockId o (cfsPathToFileName path) = false := by
      rw [← Bool.not_eq_true, hl.wf.selectBlockId_iff]
      exact hold
    have hnoted : (Request.cfsRead path size offset fh).noted cfg w w' path stored o =
        pread (w'.cache.inode ci).data cfg.blockSize o := by
      simp only [Request.noted, Request.storesThrough, hsel, hin, and_self, if_true]
      exact hopen'.handleBlock o
    rw [hnoted]
    exact ⟨hgrid o hin, pread_length_eq_iff.mpr (Or.inr hfull), ci, (hf.lookup _).trans hci, rfl⟩

/-- A write stores its whole window and leaves the other blocks as they are. -/
theorem write (h : Held cfg path stored w) (hopen : Opened w fh ni ci)
    {buf block : List UInt8} {offset : Nat} {m : MetaState} {nas : Fs} {now : Int}
    (hlen : block.length = cfg.alignedSize buf.length)
    (hm : WriteBlksPost w.metadata (cfsPathToFileName path) (cfg.window offset buf.length) m)
    (hci : buf ≠ [] → w.cache.lookup (cfg.fullCachePath path) = some ci)
    (hw' : w' = World.store { w with nas } m ci block (cfg.alignLowerOffset offset) now) :
    Held cfg path ((Request.cfsWrite path buf offset fh).noted cfg w w' path stored) w' := by
  have hopen' : Opened w' fh ni ci := hopen.congr (by rw [hw']; rfl) (by rw [hw']; rfl)
  have hlook : ∀ x, w'.cache.lookup x = w.cache.lookup x := by
    intro x
    rw [hw']
    exact Fs.lookup_pwrite _ _ _ _ _ _
  have hdata : (w'.cache.inode ci).data =
      pwrite (w.cache.inode ci).data block (cfg.alignLowerOffset offset) := by
    rw [hw']
    simp [World.store, Fs.data_pwrite]
  intro o ho
  have hrec : w.db.Recorded (cfsPathToFileName path) o ∨ o ∈ cfg.window offset buf.length := by
    rw [hw'] at ho
    exact ((hm.recorded _ _).mp ho).imp_right fun h => h.2.2
  by_cases hin : o ∈ cfg.window offset buf.length
  · have hbuf : buf ≠ [] := by
      rintro rfl
      rw [List.length_nil, cfg.window_zero] at hin
      exact absurd hin List.not_mem_nil
    have hnoted : (Request.cfsWrite path buf offset fh).noted cfg w w' path stored o =
        pread (w'.cache.inode ci).data cfg.blockSize o := by
      simp only [Request.noted, Request.storesThrough, hin, and_self, if_true]
      exact hopen'.handleBlock o
    rw [hnoted]
    refine ⟨cfg.mod_of_mem_window hin, pread_length_eq_iff.mpr ?_, ci,
      (hlook _).trans (hci hbuf), rfl⟩
    obtain ⟨i, hi, rfl⟩ := cfg.mem_offsetArray.mp hin
    have hfit : i * cfg.blockSize + cfg.blockSize ≤ cfg.alignedSize buf.length := by
      rw [cfg.alignedSize_eq, ← Nat.succ_mul]
      exact Nat.mul_le_mul_right _ hi
    rw [hdata]
    by_cases hblock : block = []
    · left
      rw [hblock, List.length_nil] at hlen
      omega
    · rw [pwrite_length _ _ _ hblock]
      omega
  · have hold := hrec.resolve_right hin
    obtain ⟨hmod, hfull, ci', hci', hblock⟩ := h o hold
    have hnoted : (Request.cfsWrite path buf offset fh).noted cfg w w' path stored o =
        stored o := by simp [Request.noted, Request.storesThrough, hin]
    rw [hnoted]
    refine ⟨hmod, hfull, ci', (hlook _).trans hci', ?_⟩
    rw [← hblock]
    refine pread_congr fun i hlo hhi => ?_
    by_cases hic : ci' = ci
    · have hapart := (cfg.mem_window_or_apart hmod).resolve_left hin
      have hroom := pread_length_eq_iff.mp (hblock ▸ hfull)
      rw [hic] at hroom ⊢
      rw [hdata]
      exact pwrite_getElem?_frame (by omega) (by omega)
    · rw [hw']
      simp only [World.store, Fs.data_pwrite, if_neg hic]

end Held

end Blocks

-- ============================================================================
-- Sessions
-- ============================================================================

/-- The requests on `P` that store through current handles only.  The NAS file of a
    handle need not be the one the path names any more. -/
def ThroughCurrent (cfg : Config) (P : Path → Prop) (w : World) : Request → Prop
  | .cfsOpen path _ => P path
  | .cfsRead path size offset fh => P path ∧ ∃ ni ci, Opened w fh ni ci ∧
      ((∀ o ∈ cfg.window offset size, w.db.Recorded (cfsPathToFileName path) o) ∨
        w.cache.lookup (cfg.fullCachePath path) = some ci)
  | .cfsWrite path buf _ fh => P path ∧ ∃ ni ci, Opened w fh ni ci ∧
      (buf ≠ [] → w.cache.lookup (cfg.fullCachePath path) = some ci)
  | .cfsRelease path fh => P path ∧ ∃ ni ci, Opened w fh ni ci
  | _ => False

section Session

variable {cfg : Config} {P : Path → Prop} {s₀ s : (Path → Nat → List UInt8) × World}
  {w w' : World} {path : Path} {fh : Nat} {ni ci : Ino}

theorem Layout.foreign (h : Layout cfg P w) {nas : Fs}
    (hregular : ∀ p i, P p → nas.lookup (cfg.fullNasPath p) = some i → (nas.inode i).kind = .reg)
    (hapart : ∀ p q i, P p → P q → nas.lookup (cfg.fullNasPath p) = some i →
      nas.lookup (cfg.fullNasPath q) = some i → p = q) : Layout cfg P { w with nas } :=
  ⟨h.wf, h.metaBlockSize, h.names, h.database, hregular, hapart, h.cacheRegular, h.cacheApart,
    h.cacheBounded⟩

theorem Request.noted_eq {rq : Request} {stored : Nat → List UInt8}
    (h : ∀ o, rq.storesThrough cfg w path o = none) : rq.noted cfg w w' path stored = stored := by
  funext o
  rw [Request.noted, h]

theorem Request.storesThrough_cfsRead_ne {p : Path} (h : p ≠ path) (o : Nat) {size offset : Nat} :
    (Request.cfsRead p size offset fh).storesThrough cfg w path o = none := if_neg fun h' => h h'.1

theorem Request.storesThrough_cfsWrite_ne {p : Path} (h : p ≠ path) (o : Nat) {buf : List UInt8}
    {offset : Nat} : (Request.cfsWrite p buf offset fh).storesThrough cfg w path o = none :=
  if_neg fun h' => h h'.1

/-- A file other than the one that is written through a current handle. -/
theorem Held.other {p : Path} {stored : Nat → List UInt8} (h : Held cfg p stored w)
    (hl : Layout cfg P w) (hp : P p) (hpath : P path) (hne : p ≠ path)
    (hci : w.cache.lookup (cfg.fullCachePath path) = some ci)
    (hrec : ∀ o, w'.db.Recorded (cfsPathToFileName p) o → w.db.Recorded (cfsPathToFileName p) o)
    (hlook : ∀ x, w'.cache.lookup x = w.cache.lookup x)
    (hinode : ∀ i, i ≠ ci → (w'.cache.inode i).data = (w.cache.inode i).data) :
    Held cfg p stored w' := by
  refine h.congr hrec (hlook _) fun i hi => hinode i ?_
  rintro rfl
  exact hne (hl.cacheApart p path _ hp hpath hi hci)

/-- The rows a read adds are of its own file. -/
theorem Fills.recorded_other {A : Choice → Call → World → Prop} {filename n : FileName}
    {window : List Nat} (hf : Fills cfg A filename ni ci window w w') (hne : n ≠ filename) {o : Nat}
    (ho : w'.db.Recorded n o) : w.db.Recorded n o := by
  induction hf with
  | refl => exact ho
  | tail _ hs ih =>
      cases hs with
      | mk _ _ hm => exact ih (((hm.recorded _ _).mp ho).resolve_right fun h => hne h.1)

theorem ThroughCurrent.step (hbs : 0 < cfg.blockSize) (hl : Layout cfg P s₀.2)
    (hh : ∀ p, P p → Held cfg p (s₀.1 p) s₀.2)
    (hs : SessionStep cfg P (ThroughCurrent cfg P) s₀ s) :
    Layout cfg P s.2 ∧ ∀ p, P p → Held cfg p (s.1 p) s.2 := by
  have hA := allSucceed_succeeds
  cases hs with
  | foreign nas hregular hapart =>
      exact ⟨hl.foreign hregular hapart, fun p hp =>
        (hh p hp).congr (fun _ => id) rfl fun _ _ => rfl⟩
  | @request stored w w' rq fuel hc he =>
      refine Prog.wp_exec (Q := fun _ w' => Layout cfg P w' ∧
        ∀ p, P p → Held cfg p (rq.noted cfg w w' p (stored p)) w') ?_ he
      cases rq with
      | cfsOpen path flags =>
          simp only [Request.prog, Prog.wp_bind]
          refine hl.wp_cfsOpen hA hc fun fh w' ho => ⟨hl.opened hc ho, fun p hp => ?_⟩
          rw [Request.noted_eq fun _ => rfl]
          exact (hh p hp).opened hl hp hc ho
      | cfsRead path size offset fh =>
          obtain ⟨hpath, ni, ci, hopen, hsafe⟩ := hc
          simp only [Request.prog, Prog.wp_bind]
          refine wp_cfsRead hA hbs hl.wf hopen fun ret buf w' hf _ _ _ _ =>
            ⟨hl.fills hf, fun p hp => ?_⟩
          rcases hsafe with hall | hci
          · -- nothing is stored
            obtain rfl : w' = w := hf.eq_of_recorded hall
            rw [Request.noted_eq]
            · exact hh p hp
            · intro o
              rw [Request.storesThrough, if_neg]
              rintro ⟨rfl, hin, hsel⟩
              rw [hl.wf.selectBlockId_iff.mpr (hall o hin)] at hsel
              exact Bool.noConfusion hsel
          · by_cases hpp : p = path
            · rw [hpp]
              exact (hh path hpath).fills hbs hl hopen hci hf
            · rw [Request.noted_eq fun o => Request.storesThrough_cfsRead_ne (Ne.symm hpp) o]
              exact (hh p hp).other hl hp hpath hpp hci
                (fun o => hf.recorded_other fun heq => hpp (hl.names p path hp hpath heq))
                hf.lookup fun i hi => by rw [hf.inode_ne hi]
      | cfsWrite path buf offset fh =>
          obtain ⟨hpath, ni, ci, hopen, hci⟩ := hc
          simp only [Request.prog, Prog.wp_bind]
          refine wp_cfsWrite hA hl.wf hopen fun m now₁ now₂ block _ _ hlen hblock hm _ =>
            ⟨(hl.nasWrite ni buf (w.nasPos fh offset) now₁).store hm _ _ _ _, fun p hp => ?_⟩
          by_cases hpp : p = path
          · rw [hpp]
            exact (hh path hpath).write hopen hlen hm hci rfl
          · rw [Request.noted_eq fun o => Request.storesThrough_cfsWrite_ne (Ne.symm hpp) o]
            have hrec : ∀ o, m.db.Recorded (cfsPathToFileName p) o →
                w.db.Recorded (cfsPathToFileName p) o := fun o ho =>
              ((hm.recorded _ _).mp ho).resolve_right fun h => hpp (hl.names p path hp hpath h.1)
            by_cases hbuf : buf = []
            · refine (hh p hp).congr hrec (Fs.lookup_pwrite _ _ _ _ _ _) fun i _ => ?_
              have hblock : block = [] := by
                rw [← List.length_eq_zero_iff, hlen, hbuf, List.length_nil, cfg.alignedSize_zero]
              simp [World.store, hblock]
            · exact (hh p hp).other hl hp hpath hpp (hci hbuf) hrec
                (fun _ => Fs.lookup_pwrite _ _ _ _ _ _)
                fun i hi => by simp only [World.store, Fs.inode_pwrite_ne _ hi]
      | cfsRelease path fh =>
          obtain ⟨-, ni, ci, hopen⟩ := hc
          simp only [Request.prog, Prog.wp_bind]
          refine wp_cfsRelease hA hopen fun ret w₁ fds handles hdug =>
            ⟨hl.released hdug fds handles, fun p hp => ?_⟩
          rw [Request.noted_eq fun _ => rfl]
          refine (hh p hp).congr (fun o => ?_) (hdug.lookup _) fun i _ => hdug.data i
          simp only [World.db, hdug.metadata, imp_self]
      | cfsUtime path modtime => exact hc.elim
      | cfsUnlink path => exact hc.elim

/-- In a session whose requests store through current handles, every recorded block
    is in the file that is now under the cache name, as it was stored. -/
theorem recorded_in_current_file (hbs : 0 < cfg.blockSize) (hl : Layout cfg P s₀.2)
    (hh : ∀ p, P p → Held cfg p (s₀.1 p) s₀.2) (h : Session cfg P (ThroughCurrent cfg P) s₀ s)
    {o : Nat} (hpath : P path) (ho : s.2.db.Recorded (cfsPathToFileName path) o) :
    ∃ ci, s.2.cache.lookup (cfg.fullCachePath path) = some ci ∧
      pread (s.2.cache.inode ci).data cfg.blockSize o = s.1 path o := by
  have hinv : Layout cfg P s.2 ∧ ∀ p, P p → Held cfg p (s.1 p) s.2 := by
    clear ho
    induction h with
    | refl => exact ⟨hl, hh⟩
    | tail _ hs ih => exact ThroughCurrent.step hbs ih.1 ih.2 hs
  obtain ⟨-, -, ci, hci, hblock⟩ := hinv.2 path hpath o ho
  exact ⟨ci, hci, hblock⟩

/-- The session after another client has rewritten the sample file. -/
def sampleRewritten (s : (Path → Nat → List UInt8) × World) (data : List UInt8) (now : Int) :
    (Path → Nat → List UInt8) × World :=
  (s.1, { s.2 with nas := s.2.nas.setData 1 data now })

theorem SessionStep.rewritten {cond : World → Request → Prop}
    {s : (Path → Nat → List UInt8) × World} (data : List UInt8) (now : Int)
    (hni : s.2.nas.lookup (sampleConfig.fullNasPath samplePath) = some 1)
    (hreg : (s.2.nas.inode 1).kind = .reg) :
    SessionStep sampleConfig (· = samplePath) cond s (sampleRewritten s data now) := by
  refine .foreign _ (fun p i hp hi => ?_) fun p q _ hp hq _ _ => hp.trans hq.symm
  subst hp
  rw [Fs.lookup_setData, hni] at hi
  rw [← Option.some.inj hi, Fs.inode_setData, if_pos rfl]
  exact hreg

/-- A request of a session to which every call answers. -/
theorem SessionStep.after {cond : World → Request → Prop} {s : (Path → Nat → List UInt8) × World}
    (rq : Request) (hc : cond s.2 rq) (hr : (Prog.runAllowed (env succeeds True) (fun _ => {})
      (rq.prog cfg 1) s.2).isSome = true) : SessionStep cfg P cond s (rq.after cfg s) :=
  .request rq 1 hc (exec_served {} rq hr)

theorem Fresh.held (h : Fresh cfg P w) (p : Path) (stored : Nat → List UInt8) :
    Held cfg p stored w := fun o ho => absurd (h.db ▸ ho) (not_recorded_empty _ o)

/-- A file is opened and read, changed by another client, and opened and read again,
    now through the second handle, the current one. -/
theorem recorded_in_current_file_reopened :
    ∃ s : (Path → Nat → List UInt8) × World,
      Session sampleConfig (· = samplePath) (ThroughCurrent sampleConfig (· = samplePath))
        (fun _ _ => [], sampleWorld [1, 2, 3, 4, 5, 6, 7, 8]) s ∧
      s.2.db.Recorded (cfsPathToFileName samplePath) 4 ∧
      ∃ ci, s.2.cache.lookup (sampleConfig.fullCachePath samplePath) = some ci ∧
        pread (s.2.cache.inode ci).data sampleConfig.blockSize 4 = s.1 samplePath 4 := by
  let s₀ : (Path → Nat → List UInt8) × World :=
    (fun _ _ => [], sampleWorld [1, 2, 3, 4, 5, 6, 7, 8])
  let s₁ := (Request.cfsOpen samplePath 2).after sampleConfig s₀
  let s₂ := (Request.cfsRead samplePath 8 0 1).after sampleConfig s₁
  let s₃ := sampleRewritten s₂ [8, 7, 6, 5, 4, 3, 2, 1] 1
  let s₄ := (Request.cfsOpen samplePath 2).after sampleConfig s₃
  let s₅ := (Request.cfsRead samplePath 8 0 2).after sampleConfig s₄
  have hopen₁ : Opened s₁.2 1 1 2 :=
    ⟨⟨3, 5⟩, by decide, ⟨true, true, false, by decide⟩, true, true, by decide⟩
  have hopen₄ : Opened s₄.2 2 1 3 :=
    ⟨⟨6, 8⟩, by decide, ⟨true, true, false, by decide⟩, true, true, by decide⟩
  have hchanged : SessionStep sampleConfig (· = samplePath)
      (ThroughCurrent sampleConfig (· = samplePath)) s₂ s₃ := .rewritten _ _ (by decide) (by decide)
  have hrun : Session sampleConfig (· = samplePath)
      (ThroughCurrent sampleConfig (· = samplePath)) s₀ s₅ :=
    ((((Relation.ReflTransGen.single (.after (.cfsOpen samplePath 2) rfl (by decide))).tail
      (.after (.cfsRead samplePath 8 0 1) ⟨rfl, 1, 2, hopen₁, Or.inr (by decide)⟩
        (by decide))).tail hchanged).tail
      (.after (.cfsOpen samplePath 2) rfl (by decide))).tail
      (.after (.cfsRead samplePath 8 0 2) ⟨rfl, 1, 3, hopen₄, Or.inr (by decide)⟩
        (by decide))
  have hrec : s₅.2.db.Recorded (cfsPathToFileName samplePath) 4 :=
    Db.recorded_of_selectBlockId (by decide)
  have hfresh := sampleWorld_fresh [1, 2, 3, 4, 5, 6, 7, 8]
  exact ⟨s₅, hrun, hrec, recorded_in_current_file (by decide) hfresh.layout
    (fun p _ => hfresh.held p _) hrun rfl hrec⟩

/-- A file is opened and read, changed by another client, opened again, and read
    through the first handle, which is still open: the row this adds is one of the
    new copy, the bytes are in the old one. -/
theorem recorded_not_in_current_file : ¬ ∀ (cfg : Config) (P : Path → Prop)
    (s₀ s : (Path → Nat → List UInt8) × World) (path : Path) (o : Nat), 0 < cfg.blockSize →
    Fresh cfg P s₀.2 → Session cfg P (OnFiles cfg P) s₀ s → P path →
    s.2.db.Recorded (cfsPathToFileName path) o →
    ∃ ci, s.2.cache.lookup (cfg.fullCachePath path) = some ci ∧
      pread (s.2.cache.inode ci).data cfg.blockSize o = s.1 path o := by
  intro h
  let s₀ : (Path → Nat → List UInt8) × World :=
    (fun _ _ => [], sampleWorld [1, 2, 3, 4, 5, 6, 7, 8])
  let s₁ := (Request.cfsOpen samplePath 2).after sampleConfig s₀
  let s₂ := (Request.cfsRead samplePath 8 0 1).after sampleConfig s₁
  let s₃ := sampleRewritten s₂ [8, 7, 6, 5, 4, 3, 2, 1] 1
  let s₄ := (Request.cfsOpen samplePath 2).after sampleConfig s₃
  let s₅ := (Request.cfsRead samplePath 4 0 1).after sampleConfig s₄
  have hof₁ : HandleOf sampleConfig s₁.2 samplePath 1 :=
    ⟨1, 2, ⟨⟨3, 5⟩, by decide, ⟨true, true, false, by decide⟩, true, true, by decide⟩, by decide⟩
  have hof₄ : HandleOf sampleConfig s₄.2 samplePath 1 :=
    ⟨1, 2, ⟨⟨3, 5⟩, by decide, ⟨true, true, false, by decide⟩, true, true, by decide⟩, by decide⟩
  have hchanged : SessionStep sampleConfig (· = samplePath)
      (OnFiles sampleConfig (· = samplePath)) s₂ s₃ := .rewritten _ _ (by decide) (by decide)
  have hrun : Session sampleConfig (· = samplePath)
      (OnFiles sampleConfig (· = samplePath)) s₀ s₅ :=
    ((((Relation.ReflTransGen.single (.after (.cfsOpen samplePath 2) rfl (by decide))).tail
      (.after (.cfsRead samplePath 8 0 1) ⟨rfl, hof₁⟩ (by decide))).tail hchanged).tail
      (.after (.cfsOpen samplePath 2) rfl (by decide))).tail
      (.after (.cfsRead samplePath 4 0 1) ⟨rfl, hof₄⟩ (by decide))
  have hrec : s₅.2.db.Recorded (cfsPathToFileName samplePath) 0 :=
    Db.recorded_of_selectBlockId (by decide)
  obtain ⟨ci, hci, hblock⟩ := h sampleConfig (· = samplePath) s₀ s₅ samplePath 0 (by decide)
    (sampleWorld_fresh _) hrun rfl hrec
  have hcur : s₅.2.cache.lookup (sampleConfig.fullCachePath samplePath) = some 3 := by decide
  obtain rfl : ci = 3 := Option.some.inj (hci.symm.trans hcur)
  exact absurd hblock (by decide)

end Session

end CacheFs
