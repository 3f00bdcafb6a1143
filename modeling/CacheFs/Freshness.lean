/-
  CacheFs.Freshness

  Whether an open finds out that another client has changed the file.

  `cfs_open` drops the copy when its mtime is before that of the NAS file, so a
  foreign change is noticed as long as the copy is not written after it.  The
  invariant is that the copy agrees with the file or is `Behind` it.  Storing a
  block moves the mtime of the copy forward, and so does a release whose command digs
  a hole in it; `cfs_utime` makes the two times equal: each of these, done while an
  older block is recorded, hides the change for good.  `Careful` is the condition that
  excludes this.
-/

import CacheFs.Transparency

namespace CacheFs

open CacheFs.Effect
open CacheFs.Posix

-- ============================================================================
-- Runs on one clock
-- ============================================================================

/-- Every call succeeds and takes place in the second `t`. -/
def succeedsAt (t : Int) (c : Choice) (op : Call) (w : World) : Prop :=
  succeeds c op w ∧ c.now = t

instance (t : Int) (c : Choice) (op : Call) (w : World) : Decidable (succeedsAt t c op w) :=
  inferInstanceAs (Decidable (_ ∧ _))

theorem allSucceed_succeedsAt (t : Int) : AllSucceed (succeedsAt t) := fun _ _ _ h => h.1

theorem clock_succeedsAt {t now : Int} (h : Clock (succeedsAt t) now) : now = t := by
  obtain ⟨c, op, w, ha, rfl⟩ := h
  exact ha.2

/-- Another client has changed the bytes of the file `path` names. -/
def Foreign (cfg : Config) (path : Path) (t : Int) (w w' : World) : Prop :=
  ∃ ni data, w.nas.lookup (cfg.fullNasPath path) = some ni ∧
    w' = { w with nas := w.nas.setData ni data t }

/-- One event, in a later second than the events before it. -/
def Tick (cfg : Config) (path : Path) (cond : Int → World → Request → Prop)
    (s s' : Int × World) : Prop :=
  s.1 < s'.1 ∧ (Step (succeedsAt s'.1) cfg (cond s'.1) s.2 s'.2 ∨
    Foreign cfg path s'.1 s.2 s'.2)

/-- Requests of this mount and changes by other clients, in any order. -/
abbrev Ticks (cfg : Config) (path : Path) (cond : Int → World → Request → Prop) :
    Int × World → Int × World → Prop :=
  Relation.ReflTransGen (Tick cfg path cond)

-- ============================================================================
-- The invariant
-- ============================================================================

/-- The copy of `path` is older than the file. -/
def Behind (cfg : Config) (path : Path) (w : World) : Prop :=
  ∀ ni ci, w.nas.lookup (cfg.fullNasPath path) = some ni →
    w.cache.lookup (cfg.fullCachePath path) = some ci →
    (w.cache.inode ci).mtime < (w.nas.inode ni).mtime

/-- What holds of the copy of `path` at time `t`: it was last written in the past,
    and it agrees with the file or is older than it. -/
structure Watched (cfg : Config) (path : Path) (t : Int) (w : World) : Prop where
  layout : Layout cfg (· = path) w
  onGrid : ∀ o, w.db.Recorded (cfsPathToFileName path) o → o % cfg.blockSize = 0
  past : w.db.HasFile (cfsPathToFileName path) → ∀ ci,
    w.cache.lookup (cfg.fullCachePath path) = some ci → (w.cache.inode ci).mtime ≤ t
  fresh : BlocksAgree cfg path w ∨ Behind cfg path w

section Watched

variable {cfg : Config} {A : Choice → Call → World → Prop} {path : Path} {t t' : Int}
  {w w' : World} {fh : Nat} {ni ci : Ino}

theorem BlocksAgree.onGrid (h : BlocksAgree cfg path w) {o : Nat}
    (ho : w.db.Recorded (cfsPathToFileName path) o) : o % cfg.blockSize = 0 := (h o ho).1

/-- Nothing recorded, nothing to disagree. -/
theorem blocksAgree_of_none (h : ∀ o, ¬ w.db.Recorded (cfsPathToFileName path) o) :
    BlocksAgree cfg path w := fun o ho => absurd ho (h o)

/-- Changes that leave the files of `path` and its rows as they are. -/
theorem Behind.congr (h : Behind cfg path w) (hnas : w'.nas = w.nas)
    (hlook : w'.cache.lookup (cfg.fullCachePath path) = w.cache.lookup (cfg.fullCachePath path))
    (hinode : ∀ i, w.cache.lookup (cfg.fullCachePath path) = some i →
      (w'.cache.inode i).mtime = (w.cache.inode i).mtime) : Behind cfg path w' := by
  intro ni ci hni hci
  rw [hnas] at hni ⊢
  rw [hlook] at hci
  rw [hinode ci hci]
  exact h ni ci hni hci

/-- The mtime of the file that is written is a time of the environment. -/
theorem Fills.mtime {filename : FileName} {window : List Nat}
    (hf : Fills cfg A filename ni ci window w w') :
    (w'.cache.inode ci).mtime = (w.cache.inode ci).mtime ∨ Clock A (w'.cache.inode ci).mtime := by
  induction hf with
  | refl => exact Or.inl rfl
  | tail _ hs ih =>
      cases hs with
      | mk _ _ _ _ _ hnow =>
          simp only [World.store, Fs.mtime_pwrite, true_and]
          split
          · exact Or.inr hnow
          · exact ih

/-- The blocks of a window are on the grid, so what is recorded stays on it. -/
theorem Fills.onGrid {filename : FileName} {window : List Nat}
    (hf : Fills cfg A filename ni ci window w w')
    (hwindow : ∀ o ∈ window, o % cfg.blockSize = 0)
    (h : ∀ o, w.db.Recorded filename o → o % cfg.blockSize = 0) {o : Nat}
    (ho : w'.db.Recorded filename o) : o % cfg.blockSize = 0 := by
  induction hf generalizing o with
  | refl => exact h o ho
  | tail _ hs ih =>
      cases hs with
      | mk hin _ hm =>
          rcases (hm.recorded _ _).mp ho with ho | ⟨-, -, ho⟩
          · exact ih ho
          · rw [List.mem_singleton.mp ho]
            exact hwindow _ hin

namespace Watched

theorem opened (h : Watched cfg path t w) (htt : t ≤ t')
    (ho : OpenPost cfg (succeedsAt t') path fh w w') :
    Watched cfg path t' w' ∧ BlocksAgree cfg path w' := by
  have hl := h.layout.opened rfl ho
  obtain ⟨hnas, ni, ci, hni, hci, -, hk | hr⟩ := ho
  · -- the copy has been kept: it is not behind, so it agrees
    obtain ⟨ci', hci', hle⟩ := hk.fresh
    have hagree : BlocksAgree cfg path w := by
      refine h.fresh.resolve_right fun hb => ?_
      have hlt := hb ni ci' hni hci'
      omega
    have hdb : w'.db = w.db := by rw [World.db, hk.metadata, World.db]
    have hagree' : BlocksAgree cfg path w' :=
      hagree.congr (fun o ho => hdb ▸ ho) (by rw [hnas]) (by rw [hk.cache])
        (fun _ _ => by rw [hnas]) (fun _ _ => by rw [hk.cache])
    refine ⟨⟨hl, fun o => hagree'.onGrid, fun hf i hi => ?_, Or.inl hagree'⟩, hagree'⟩
    rw [hdb] at hf
    rw [hk.cache] at hi ⊢
    have hpast := h.past hf i hi
    omega
  · have hagree' : BlocksAgree cfg path w' :=
      blocksAgree_of_none fun o ho => ((hr.recorded _ _).mp ho).2 rfl
    refine ⟨⟨hl, fun o => hagree'.onGrid, fun _ i hi => ?_, Or.inl hagree'⟩, hagree'⟩
    obtain ⟨mode, now, hnow, hinode⟩ := hr.inode
    rw [hr.lookup, if_pos rfl] at hi
    rw [← Option.some.inj hi, hinode, if_pos rfl]
    exact le_of_eq (clock_succeedsAt hnow)

/-- A change by another client leaves the copy behind. -/
theorem foreign (h : Watched cfg path t w) (htt : t < t') (hf : Foreign cfg path t' w w') :
    Watched cfg path t' w' := by
  obtain ⟨ni, data, hni, rfl⟩ := hf
  have hkind : ∀ i, ((w.nas.setData ni data t').inode i).kind = (w.nas.inode i).kind := by
    intro i
    rw [Fs.inode_setData]
    split
    · next hi => rw [hi]
    · rfl
  refine ⟨h.layout.congr h.layout.wf rfl (fun _ => Iff.rfl) (fun _ => rfl) hkind (fun _ => rfl)
    (fun _ => rfl) rfl, h.onGrid, fun hf ci hci => le_trans (h.past hf ci hci) htt.le, ?_⟩
  by_cases hfile : w.db.HasFile (cfsPathToFileName path)
  · refine Or.inr fun ni' ci hni' hci => ?_
    have hi : ni' = ni := Option.some.inj (hni'.symm.trans hni)
    have hpast := h.past hfile ci hci
    simp only [hi, Fs.inode_setData, if_true]
    omega
  · exact Or.inl (blocksAgree_of_none fun o ho => hfile ho.hasFile)

theorem mono (h : Watched cfg path t w) (htt : t ≤ t') : Watched cfg path t' w :=
  ⟨h.layout, h.onGrid, fun hf i hi => le_trans (h.past hf i hi) htt, h.fresh⟩

/-- A copy that agrees if it is not behind, or has nothing recorded, agrees. -/
theorem agree (h : Watched cfg path t w)
    (hsafe : ¬ Behind cfg path w ∨ ∀ o, ¬ w.db.Recorded (cfsPathToFileName path) o) :
    BlocksAgree cfg path w :=
  hsafe.elim h.fresh.resolve_right blocksAgree_of_none

/-- What a read stores is written to the file of the handle. -/
theorem fills (h : Watched cfg path t w) (htt : t ≤ t') {offset size : Nat}
    (hopen : Opened w fh ni ci) (hni : w.nas.lookup (cfg.fullNasPath path) = some ni)
    (hf : Fills cfg (succeedsAt t') (cfsPathToFileName path) ni ci (cfg.window offset size) w w')
    (hsafe : (w.cache.lookup (cfg.fullCachePath path) = some ci ∧ BlocksAgree cfg path w) ∨
      (w.cache.lookup (cfg.fullCachePath path) ≠ some ci ∧ Behind cfg path w)) :
    Watched cfg path t' w' := by
  have hgrid : ∀ o ∈ cfg.window offset size, o % cfg.blockSize = 0 :=
    fun o => cfg.mod_of_mem_window
  refine ⟨h.layout.fills hf, fun o => hf.onGrid hgrid h.onGrid, fun hfile i hi => ?_, ?_⟩
  · rw [hf.hasFile] at hfile
    rw [hf.lookup] at hi
    have hpast := h.past hfile i hi
    by_cases hic : i = ci
    · subst hic
      rcases hf.mtime with heq | hnow
      · omega
      · exact le_of_eq (clock_succeedsAt hnow)
    · rw [hf.inode_ne hic]
      omega
  · rcases hsafe with ⟨hci, hagree⟩ | ⟨hci, hbehind⟩
    · have hcoh : Coherent cfg (· = path) w := fun p hp => by rwa [hp]
      exact Or.inl (hcoh.fills h.layout rfl ⟨hopen, hni, hci⟩ hgrid hf path rfl)
    · refine Or.inr (hbehind.congr hf.nas (hf.lookup _) fun i hi => ?_)
      have hic : i ≠ ci := fun heq => hci (heq ▸ hi)
      rw [hf.inode_ne hic]

/-- A write moves the mtime of the file; the mtime of the copy follows if the handle
    is current, and otherwise the copy is left behind. -/
theorem write (h : Watched cfg path t w) (htt : t < t') {m : MetaState} {buf block : List UInt8}
    {offset pos : Nat} (hni : w.nas.lookup (cfg.fullNasPath path) = some ni)
    (hlen : block.length = cfg.alignedSize buf.length)
    (hblock : ∀ j < block.length, cfg.alignLowerOffset offset + j <
      (pwrite (w.nas.inode ni).data buf pos).length → block[j]? =
        (pwrite (w.nas.inode ni).data buf pos)[cfg.alignLowerOffset offset + j]?)
    (hm : WriteBlksPost w.metadata (cfsPathToFileName path) (cfg.window offset buf.length) m)
    (hsafe : buf ≠ [] → w.cache.lookup (cfg.fullCachePath path) = some ci →
      WriteClear cfg w path ni offset pos buf.length ∧
        (¬ Behind cfg path w ∨ ∀ o, w.db.Recorded (cfsPathToFileName path) o →
          o ∈ cfg.window offset buf.length)) :
    Watched cfg path t' (World.store { w with nas := w.nas.pwrite ni buf pos t' } m ci block
      (cfg.alignLowerOffset offset) t') := by
  set w' := World.store { w with nas := w.nas.pwrite ni buf pos t' } m ci block
    (cfg.alignLowerOffset offset) t' with hw'
  have hlook : ∀ x, w'.cache.lookup x = w.cache.lookup x := fun x => Fs.lookup_pwrite _ _ _ _ _ _
  have hrec : ∀ n o, w'.db.Recorded n o ↔ w.db.Recorded n o ∨
      (n = cfsPathToFileName path ∧ w.db.HasFile (cfsPathToFileName path) ∧
        o ∈ cfg.window offset buf.length) := hm.recorded
  have hmtime : ∀ i, (w'.cache.inode i).mtime =
      if i = ci ∧ block ≠ [] then t' else (w.cache.inode i).mtime :=
    fun i => Fs.mtime_pwrite _ _ _ _ _ _
  refine ⟨(h.layout.nasWrite ni buf pos t').store hm _ _ _ _, fun o ho => ?_,
    fun hfile i hi => ?_, ?_⟩
  · rcases (hrec _ _).mp ho with ho | ⟨-, -, ho⟩
    · exact h.onGrid o ho
    · exact cfg.mod_of_mem_window ho
  · rw [hlook] at hi
    have hpast := h.past ((hm.hasFile _).mp hfile) i hi
    rw [hmtime]
    split <;> omega
  · by_cases hbuf : buf = []
    · -- nothing is written and nothing stored
      have hblocknil : block = [] := by
        rw [← List.length_eq_zero_iff, hlen, hbuf, List.length_nil, cfg.alignedSize_zero]
      have hnas : w'.nas = w.nas := by simp [hw', World.store, hbuf]
      have hcache : w'.cache = w.cache := by simp [hw', World.store, hblocknil]
      refine h.fresh.imp (fun hagree => ?_) fun hb => ?_
      · refine hagree.congr (fun o ho => ?_) (by rw [hnas]) (hlook _) (fun _ _ => by rw [hnas])
          fun _ _ => by rw [hcache]
        refine ((hrec _ _).mp ho).resolve_right fun hin => ?_
        rw [hbuf, List.length_nil, cfg.window_zero] at hin
        exact absurd hin.2.2 List.not_mem_nil
      · exact hb.congr hnas (hlook _) fun _ _ => by rw [hcache]
    · by_cases hci : w.cache.lookup (cfg.fullCachePath path) = some ci
      · -- the handle is current: the copy must have agreed outside the window
        obtain ⟨hclear, hsafe⟩ := hsafe hbuf hci
        refine Or.inl (BlocksAgree.write (fun o ho hout => ?_) hni hci hclear hlen hblock hm)
        have hagree := h.fresh.resolve_right (hsafe.resolve_right fun hall => hout (hall o ho))
        exact hagree.agree_of_lookup hni hci ho
      · -- an old handle: the file has become newer than the copy
        by_cases hfile : w.db.HasFile (cfsPathToFileName path)
        · refine Or.inr fun ni' i hni' hi => ?_
          rw [hlook] at hi
          have hnilook : (w.nas.pwrite ni buf pos t').lookup (cfg.fullNasPath path) = some ni' :=
            hni'
          rw [Fs.lookup_pwrite] at hnilook
          have hino : ni' = ni := Option.some.inj (hnilook.symm.trans hni)
          have hic : i ≠ ci := fun heq => hci (heq ▸ hi)
          have hpast := h.past hfile i hi
          have hnasTime : (w'.nas.inode ni').mtime = t' := by
            simp only [hw', World.store, Fs.mtime_pwrite, hino, true_and]
            exact if_pos hbuf
          rw [hmtime, hnasTime, if_neg fun hin => hic hin.1]
          omega
        · refine Or.inl (blocksAgree_of_none fun o ho => ?_)
          rcases (hrec _ _).mp ho with ho | ho
          · exact hfile ho.hasFile
          · exact hfile ho.2.1

/-- `cfs_utime` sets the mtimes of the file and of the copy to one value. -/
theorem wp_cfsUtime (h : Watched cfg path t w) (htt : t ≤ t') {modtime : Option Int}
    (hpast : modtime.getD t' ≤ t')
    (hsafe : ¬ Behind cfg path w ∨ ∀ o, ¬ w.db.Recorded (cfsPathToFileName path) o)
    {Q : Int → World → Prop} (hQ : ∀ ret w', Watched cfg path t' w' → Q ret w') :
    Prog.wp (env (succeedsAt t') True) (cfsUtime cfg path modtime) Q w := by
  have hA := allSucceed_succeedsAt t'
  unfold cfsUtime
  rw [Prog.wp_bind]
  refine wp_utime hA fun now₁ i hnow₁ _ => ?_
  rw [Prog.wp_bind]
  refine wp_utime hA fun now₂ j _ _ => ?_
  rw [clock_succeedsAt hnow₁]
  have hagree := h.agree hsafe
  refine hQ _ _ ⟨h.layout.congr h.layout.wf rfl (fun _ => Iff.rfl) (fun _ => rfl)
    (fun _ => Fs.kind_setTime _ _ _ _) (fun _ => rfl) (fun _ => Fs.kind_setTime _ _ _ _) rfl,
    h.onGrid, fun hfile k hk => ?_, Or.inl (hagree.congr (fun _ => id) rfl rfl
      (fun _ _ => Fs.data_setTime _ _ _ _) fun _ _ => Fs.data_setTime _ _ _ _)⟩
  have hold := h.past hfile k hk
  simp only [World.setFs, World.fs, Fs.mtime_setTime]
  split
  · exact hpast
  · omega

/-- A release moves the time of the copy if its command digs the copy. -/
theorem released (h : Watched cfg path t w) (htt : t ≤ t') {command : List Char} {w₁ : World}
    (hdug : Dug (succeedsAt t') command w w₁)
    (hsafe : ∀ ci, w.digIno command = some ci →
      w.cache.lookup (cfg.fullCachePath path) = some ci →
        ¬ Behind cfg path w ∨ ∀ o, ¬ w.db.Recorded (cfsPathToFileName path) o)
    (fds : Int → Option OpenFile) (handles : Nat → Option DualFileHandle) :
    Watched cfg path t' { w₁ with fds, handles } := by
  have hdb : w₁.db = w.db := by rw [World.db, hdug.metadata, World.db]
  have hrec : ∀ o, w₁.db.Recorded (cfsPathToFileName path) o →
      w.db.Recorded (cfsPathToFileName path) o := fun o ho => hdb ▸ ho
  refine ⟨h.layout.released hdug fds handles, fun o ho => h.onGrid o (hrec o ho),
    fun hfile i hi => ?_, ?_⟩
  · have hi : w.cache.lookup (cfg.fullCachePath path) = some i := (hdug.lookup _).symm.trans hi
    rcases hdug.mtime i with heq | ⟨-, hnow⟩
    · exact heq ▸ le_trans (h.past (hdb ▸ hfile) i hi) htt
    · exact le_of_eq (clock_succeedsAt hnow)
  · by_cases hcopy : ∃ ci, w.digIno command = some ci ∧
        w.cache.lookup (cfg.fullCachePath path) = some ci
    · obtain ⟨ci, hdig, hci⟩ := hcopy
      refine Or.inl ((h.agree (hsafe ci hdig hci)).congr hrec (by rw [hdug.nas])
        (hdug.lookup _) (fun _ _ => by rw [hdug.nas]) fun i _ => hdug.data i)
    · refine h.fresh.imp (fun hagree => ?_) fun hb => ?_
      · exact hagree.congr hrec (by rw [hdug.nas]) (hdug.lookup _)
          (fun _ _ => by rw [hdug.nas]) fun i _ => hdug.data i
      · refine hb.congr hdug.nas (hdug.lookup _) fun i hi => ?_
        exact (hdug.mtime i).resolve_right fun hdig => hcopy ⟨i, hdig.1, hi⟩

end Watched

end Watched

-- ============================================================================
-- Runs
-- ============================================================================

/-- The requests on `path` that cannot hide a foreign change.  A read that stores a
    block: the handle is current and nothing is recorded of an older state, or the
    copy is behind and an old handle leaves its mtime alone.  A write through a
    current handle: no recorded block outside its window is stale or becomes stale.
    A change of times: nothing recorded is of an older state, and the copy is not
    dated into the future.  A release that digs the copy: nothing recorded is of an
    older state. -/
def Careful (cfg : Config) (path : Path) (t : Int) (w : World) : Request → Prop
  | .cfsOpen p _ => p = path
  | .cfsRead p size offset fh => p = path ∧ ∃ ni ci, Opened w fh ni ci ∧
      w.nas.lookup (cfg.fullNasPath path) = some ni ∧
      ((∀ o ∈ cfg.window offset size, w.db.Recorded (cfsPathToFileName path) o) ∨
        (w.cache.lookup (cfg.fullCachePath path) = some ci ∧
          (¬ Behind cfg path w ∨ ∀ o, ¬ w.db.Recorded (cfsPathToFileName path) o)) ∨
        (w.cache.lookup (cfg.fullCachePath path) ≠ some ci ∧ Behind cfg path w))
  | .cfsWrite p buf offset fh => p = path ∧
      ∃ ni ci, Opened w fh ni ci ∧ w.nas.lookup (cfg.fullNasPath path) = some ni ∧
        (buf ≠ [] → w.cache.lookup (cfg.fullCachePath path) = some ci →
          WriteClear cfg w path ni offset (w.nasPos fh offset) buf.length ∧
            (¬ Behind cfg path w ∨ ∀ o, w.db.Recorded (cfsPathToFileName path) o →
              o ∈ cfg.window offset buf.length))
  | .cfsUtime p modtime => p = path ∧ modtime.getD t ≤ t ∧
      (¬ Behind cfg path w ∨ ∀ o, ¬ w.db.Recorded (cfsPathToFileName path) o)
  | .cfsRelease p fh => p = path ∧ HandleOf cfg w path fh ∧
      ∀ ci, w.digIno ("fallocate -d ".toList ++ cfg.fullCachePath path) = some ci →
        w.cache.lookup (cfg.fullCachePath path) = some ci →
          ¬ Behind cfg path w ∨ ∀ o, ¬ w.db.Recorded (cfsPathToFileName path) o
  | .cfsUnlink _ => False

section Runs

variable {cfg : Config} {path : Path} {t₀ t t' : Int} {w₀ w w' : World}

theorem Careful.step (hbs : 0 < cfg.blockSize) (h : Watched cfg path t w) (htt : t < t')
    (hs : Step (succeedsAt t') cfg (Careful cfg path t') w w') : Watched cfg path t' w' := by
  have hA := allSucceed_succeedsAt t'
  obtain ⟨rq, fuel, hcareful, he⟩ := hs
  refine Prog.wp_exec (Q := fun _ w' => Watched cfg path t' w') ?_ he
  cases rq with
  | cfsOpen p flags =>
      obtain rfl := hcareful
      simp only [Request.prog, Prog.wp_bind]
      exact h.layout.wp_cfsOpen hA rfl fun fh w' ho => (h.opened htt.le ho).1
  | cfsRead p size offset fh =>
      obtain ⟨rfl, ni, ci, hopen, hni, hsafe⟩ := hcareful
      simp only [Request.prog, Prog.wp_bind]
      refine wp_cfsRead hA hbs h.layout.wf hopen fun ret buf w' hf _ _ _ _ => ?_
      rcases hsafe with hall | ⟨hci, hsafe⟩ | hold
      · have hw : w' = w := hf.eq_of_recorded hall
        rw [hw]
        exact h.mono htt.le
      · exact h.fills htt.le hopen hni hf (Or.inl ⟨hci, h.agree hsafe⟩)
      · exact h.fills htt.le hopen hni hf (Or.inr hold)
  | cfsWrite p buf offset fh =>
      obtain ⟨rfl, ni, ci, hopen, hni, hsafe⟩ := hcareful
      simp only [Request.prog, Prog.wp_bind]
      refine wp_cfsWrite hA h.layout.wf hopen
        fun m now₁ now₂ block hnow₁ hnow₂ hlen hblock hm _ => ?_
      rw [clock_succeedsAt hnow₁, clock_succeedsAt hnow₂]
      exact h.write htt hni hlen (hblock hni) hm hsafe
  | cfsRelease p fh =>
      obtain ⟨rfl, ⟨ni, ci, hopen, -⟩, hsafe⟩ := hcareful
      simp only [Request.prog, Prog.wp_bind]
      exact wp_cfsRelease hA hopen fun ret w₁ fds handles hdug =>
        h.released htt.le hdug hsafe fds handles
  | cfsUtime p modtime =>
      obtain ⟨rfl, hpast, hsafe⟩ := hcareful
      simp only [Request.prog, Prog.wp_bind]
      exact h.wp_cfsUtime htt.le hpast hsafe fun _ _ hw => hw
  | cfsUnlink p => exact hcareful.elim

theorem Careful.run (hbs : 0 < cfg.blockSize) {s s' : Int × World}
    (h₀ : Watched cfg path s.1 s.2) (h : Ticks cfg path (Careful cfg path) s s') :
    Watched cfg path s'.1 s'.2 := by
  induction h with
  | refl => exact h₀
  | tail _ hs ih =>
      obtain ⟨htt, hs | hf⟩ := hs
      · exact Careful.step hbs ih htt hs
      · exact ih.foreign htt hf

/-- A request at the time `t` to which every call answers. -/
theorem Tick.served {cond : Int → World → Request → Prop} {s : Int} (hs : s < t) (rq : Request)
    (hr : (Prog.runAllowed (env (succeedsAt t) True) (fun _ => { now := t }) (rq.prog cfg 1)
      w).isSome = true) (hc : cond t w rq) :
    Tick cfg path cond (s, w) (t, w.served (succeedsAt t) cfg { now := t } rq) :=
  ⟨hs, Or.inl (step_served _ rq hr hc)⟩

end Runs

end CacheFs
