/-
  CacheFs.Meta.Catalogue

  What the metadata are for: a catalogue of files and of the blocks that are in the cache.

  `MetaFn.answer` and `MetaFn.effect` say what each function of `meta.c` is there to do, in
  terms of a catalogue and without rows, ids, sizes and times.  Where SQLite works, the functions
  do that (`wp_follows`), and so does any number of lives of the daemon at the SQLite interface
  (`lives_follow_catalogue`).
-/

import CacheFs.Store.Catalogue
import CacheFs.Meta.Lives
import CacheFs.Meta.Removal

namespace CacheFs

open CacheFs.Sql
open CacheFs.Effect
open CacheFs.Store

/-- The files, and the offsets of the blocks of each. -/
abbrev BlockCatalogue : Type := Catalogue FileName Nat

-- ============================================================================
-- What the functions are for
-- ============================================================================

namespace MetaFn

open Classical in
/-- What a function returns, with `bool_arr` where there is one. -/
noncomputable def answer (s : BlockCatalogue) : MetaFn → Int × List Int
  | .change (.createFile n _) => (if s.Entered n then -1 else 0, [])
  | .change (.insertBlock n o) => (if ¬ s.Entered n ∨ s.Lists n o then -1 else 0, [])
  | .change (.insertBlocks _ _) | .change (.writeBlks _ _) | .change (.deleteBlock _ _)
  | .change (.deleteBlocks _ _) | .change (.deleteFile _) | .change (.updateBlkTime _ _) => (0, [])
  | .isFileInCache n => (if s.Entered n then 1 else 0, [])
  | .isBlkInCache n o => (if s.Lists n o then 1 else 0, [])
  | .areBlocksInCache n os =>
      (if ∀ o ∈ os, s.Lists n o then 1 else 0, os.map fun o => if s.Lists n o then 1 else 0)

/-- What a function leaves behind. -/
def effect (s : BlockCatalogue) : MetaFn → BlockCatalogue
  | .change (.createFile n _) => s.enter n
  | .change (.insertBlock n o) => s.add n {o}
  | .change (.insertBlocks n os) | .change (.writeBlks n os) => s.add n {o | o ∈ os}
  | .change (.deleteBlock n o) => s.remove n {o}
  | .change (.deleteBlocks n os) => s.remove n {o | o ∈ os}
  | .change (.deleteFile n) => s.forget n
  | .change (.updateBlkTime _ _) | .isFileInCache _ | .isBlkInCache _ _
  | .areBlocksInCache _ _ => s

/-- The answers of functions one after the other, and what they leave behind. -/
noncomputable def answers (s : BlockCatalogue) : List MetaFn → List (Int × List Int)
  | [] => []
  | f :: fns => f.answer s :: answers (f.effect s) fns

def effects (s : BlockCatalogue) (fns : List MetaFn) : BlockCatalogue := fns.foldl effect s

theorem answers_concat (s : BlockCatalogue) (fns : List MetaFn) (f : MetaFn) :
    answers s (fns ++ [f]) = answers s fns ++ [f.answer (effects s fns)] := by
  induction fns generalizing s with
  | nil => rfl
  | cons g fns ih => simp [answers, effects, ih]

theorem effects_concat (s : BlockCatalogue) (fns : List MetaFn) (f : MetaFn) :
    effects s (fns ++ [f]) = f.effect (effects s fns) := by
  simp [effects]

end MetaFn

-- ============================================================================
-- The database as a catalogue
-- ============================================================================

namespace Db

variable {db db' : Db} {n filename : FileName} {o blkOffset : Nat} {s : BlockCatalogue}

/-- The catalogue a database stands for. -/
def catalogue (db : Db) : BlockCatalogue := fun n =>
  if db.HasFile n then some {o | db.Recorded n o} else none

@[simp] theorem entered_catalogue : db.catalogue.Entered n ↔ db.HasFile n := by
  unfold Catalogue.Entered catalogue
  split <;> simp_all

@[simp] theorem lists_catalogue : db.catalogue.Lists n o ↔ db.Recorded n o := by
  unfold Catalogue.Lists catalogue
  split
  · simp
  · next h => simpa using fun hr => h (Recorded.hasFile hr)

/-- A database stands for the catalogue that answers as it does. -/
theorem catalogue_eq (hfile : ∀ n, db.HasFile n ↔ s.Entered n)
    (hblock : ∀ n o, db.Recorded n o ↔ s.Lists n o) : db.catalogue = s :=
  Catalogue.ext_lists (fun n => by rw [entered_catalogue, hfile])
    fun n o => by rw [lists_catalogue, hblock]

theorem WF.recorded_deleteDatablock (h : db.WF) :
    (db.deleteDatablock blkOffset filename).Recorded n o ↔
      db.Recorded n o ∧ ¬ (n = filename ∧ o = blkOffset) := by
  constructor
  · refine fun hr => ⟨recorded_of_deleteDatablock hr, ?_⟩
    rintro ⟨rfl, rfl⟩
    obtain ⟨f, hf, rfl, b, hb, hid, ho⟩ := hr
    rw [files_deleteDatablock] at hf
    rw [Db.deleteDatablock, h.fileId?_eq hf] at hb
    exact of_decide_eq_true (List.mem_filter.mp hb).2 ⟨ho, hid⟩
  · rintro ⟨⟨f, hf, rfl, b, hb, hid, rfl⟩, hne⟩
    refine ⟨f, by rwa [files_deleteDatablock], rfl, b, ?_, hid, rfl⟩
    unfold Db.deleteDatablock
    split
    · exact hb
    · next id hfound =>
        refine List.mem_filter.mpr ⟨hb, decide_eq_true ?_⟩
        rintro ⟨ho, hb'⟩
        obtain ⟨g, hg, hp, hgid⟩ := fileId?_eq_some hfound
        have hgf : g = f := h.eq_of_fileId hg hf (hgid.trans (hb'.symm.trans hid))
        exact hne ⟨by rw [← hp, hgf], ho⟩

theorem hasFile_deleteDatablock :
    (db.deleteDatablock blkOffset filename).HasFile n ↔ db.HasFile n := by
  rw [HasFile, files_deleteDatablock, HasFile]

-- What each statement does to the catalogue.

theorem WF.catalogue_insertFile (h : db.WF) {remoteSize : Nat}
    (hi : db.insertFile filename remoteSize = some db') :
    db'.catalogue = db.catalogue.enter filename :=
  catalogue_eq (fun n => by simp [hasFile_insertFile hi])
    fun n o => by simp [h.recorded_insertFile hi]

theorem WF.catalogue_insertDatablock (h : db.WF) {now : Int}
    (hi : db.insertDatablock blkOffset filename now = some db') (amount : Int) :
    (db'.addLocalSize amount filename).catalogue = db.catalogue.add filename {blkOffset} := by
  have hfile : db.HasFile filename := by
    obtain ⟨f, hf, hp, -⟩ := insertDatablock_eq_some hi
    exact ⟨f, hf, hp⟩
  refine catalogue_eq (fun n => by simp [hasFile_insertDatablock hi]) fun n o => ?_
  simp [h.recorded_insertDatablock hi, hfile]

theorem WF.catalogue_deleteDatablock (h : db.WF) (amount : Int) :
    ((db.deleteDatablock blkOffset filename).addLocalSize amount filename).catalogue =
      db.catalogue.remove filename {blkOffset} :=
  catalogue_eq (fun n => by simp [hasFile_deleteDatablock]) fun n o => by
    simp [h.recorded_deleteDatablock]

theorem WF.catalogue_deleteFile (h : db.WF) :
    (db.deleteFile filename).catalogue = db.catalogue.forget filename :=
  catalogue_eq (fun n => by simp [hasFile_deleteFile]) fun n o => by simp [h.recorded_deleteFile]

theorem catalogue_touchDatablock {now : Int} :
    (db.touchDatablock blkOffset filename now).catalogue = db.catalogue :=
  catalogue_eq (fun n => by simp) fun n o => by simp

end Db

-- ============================================================================
-- The functions
-- ============================================================================

section Functions

variable {A : Choice → Call → World → Prop} {S : Prop} {w : World}

/-- The function has answered `r` and left the catalogue `s`. -/
structure Follows (r : Int × List Int) (s : BlockCatalogue) (ret : Int × List Int) (w' : World) :
    Prop where
  wf : w'.db.WF
  answer : ret = r
  catalogue : w'.db.catalogue = s

theorem wp_deleteBlock (hA : SqlSucceeds A) {filename : FileName} {blkOffset : Nat}
    {Q : Int → World → Prop}
    (hQ : Q 0 { w with metadata := w.metadata.dropBlock filename blkOffset }) :
    Prog.wp (env A S) (deleteBlock filename blkOffset) Q w := by
  unfold deleteBlock
  simp only [Prog.wp_bind, ask, wp_call, Prog.wp_ret]
  intro c hc
  simp only [handle, World.sql_some (hA _ _ _ hc rfl), tests_done, Prog.wp_bind, wp_call,
    Prog.wp_ret]
  intro c₁ _ c₂ hc₂
  simp only [World.sql_some (hA _ _ _ hc₂ rfl), tests_done, Prog.wp_bind, wp_call, Prog.wp_ret,
    handle]
  intro c₃ _ c₄ _
  exact hQ

theorem Db.WF.selectBlockId_iff_lists {db : Db} (h : db.WF) {n : FileName} {o : Nat} :
    db.selectBlockId o n = true ↔ db.catalogue.Lists n o := by
  rw [h.selectBlockId_iff, Db.lists_catalogue]

theorem Db.fileId?_isSome_iff {db : Db} {n : FileName} :
    (db.fileId? n).isSome = true ↔ db.catalogue.Entered n := by
  rw [Db.entered_catalogue, ← not_iff_not, ← Db.fileId?_eq_none_iff, Option.not_isSome_iff_eq_none]

/-- A loop over the offsets that takes the catalogue along. -/
theorem wp_turns_follow {os : List Nat} {f : Nat → CfsM Unit}
    (g : Set Nat → BlockCatalogue) (h0 : g ∅ = w.db.catalogue) (hwf : w.db.WF)
    (hf : ∀ (o : Nat) (done : Set Nat) (w₁ : World), w₁.db.WF → w₁.db.catalogue = g done →
      Prog.wp (env A S) (f o) (fun _ w₂ => w₂.db.WF ∧ w₂.db.catalogue = g (done ∪ {o})) w₁) :
    Prog.wp (env A S) (os.foldlM (fun _ o => f o) ())
      (fun _ w' => w'.db.WF ∧ w'.db.catalogue = g {o | o ∈ os}) w := by
  refine Prog.wp_foldlM (I := fun done _ (w' : World) => w'.db.WF ∧
    w'.db.catalogue = g {o | o ∈ done}) ⟨hwf, by simpa using h0.symm⟩ ?_
  rintro done o rest _ w₁ - ⟨hwf₁, hcat⟩
  have hset : {x | x ∈ done ++ [o]} = {x | x ∈ done} ∪ {o} := by
    ext x
    simp [or_comm]
  rw [hset]
  exact hf o _ w₁ hwf₁ hcat

theorem wp_insertBlock_follows (hA : SqlSucceeds A) (hwf : w.db.WF) (n : FileName) (o : Nat) :
    Prog.wp (env A S) (insertBlock n o) (fun ret w' => w'.db.WF ∧
      (ret, []) = (MetaFn.change (.insertBlock n o)).answer w.db.catalogue ∧
      w'.db.catalogue = w.db.catalogue.add n {o}) w := by
  refine wp_insertBlock hA (fun hnone => ?_) fun now _ db hi => ?_
  · have hold := hwf.insertDatablock_eq_none_iff.mp (hnone 0)
    rw [← Db.entered_catalogue, ← Db.lists_catalogue] at hold
    exact ⟨hwf, by rw [MetaFn.answer, if_pos hold], (Catalogue.add_of_listed hold).symm⟩
  · have hnew : ¬ (¬ w.db.HasFile n ∨ w.db.Recorded n o) := fun hold => by
      rw [hwf.insertDatablock_eq_none_iff.mpr hold] at hi
      exact absurd hi (by simp)
    rw [← Db.entered_catalogue, ← Db.lists_catalogue] at hnew
    exact ⟨(hwf.insertDatablock hi).addLocalSize, by rw [MetaFn.answer, if_neg hnew],
      hwf.catalogue_insertDatablock hi _⟩

theorem wp_deleteBlock_follows (hA : SqlSucceeds A) (hwf : w.db.WF) (n : FileName) (o : Nat) :
    Prog.wp (env A S) (deleteBlock n o) (fun ret w' => w'.db.WF ∧ ret = 0 ∧
      w'.db.catalogue = w.db.catalogue.remove n {o}) w :=
  wp_deleteBlock hA ⟨hwf.deleteDatablock.addLocalSize, rfl, hwf.catalogue_deleteDatablock _⟩

open Classical in
/-- Where SQLite works, each function does what it is for. -/
theorem MetaFn.wp_follows (hA : SqlSucceeds A) (hwf : w.db.WF) (f : MetaFn) :
    Prog.wp (env A S) f.prog (Follows (f.answer w.db.catalogue) (f.effect w.db.catalogue)) w := by
  cases f with
  | isFileInCache n =>
      refine (Prog.wp_bind _ _ _ _).mpr (wp_isFileInCache hA ⟨hwf, ?_, rfl⟩)
      exact Prod.ext (if_congr Db.fileId?_isSome_iff rfl rfl) rfl
  | isBlkInCache n o =>
      refine (Prog.wp_bind _ _ _ _).mpr (wp_isBlkInCache hA ⟨hwf, ?_, rfl⟩)
      exact Prod.ext (if_congr hwf.selectBlockId_iff_lists rfl rfl) rfl
  | areBlocksInCache n os =>
      refine wp_areBlocksInCache hA ⟨hwf, Prod.ext (if_congr ?_ rfl rfl) ?_, rfl⟩
      · simp only [List.all_eq_true, hwf.selectBlockId_iff_lists]
      · exact List.map_congr_left fun o _ => if_congr hwf.selectBlockId_iff_lists rfl rfl
  | change q =>
      refine (Prog.wp_bind _ _ _ _).mpr ?_
      cases q with
      | createFile n size =>
          refine wp_createFile hA (fun hold => ?_) fun db hi => ?_
          · rw [← Db.entered_catalogue] at hold
            exact ⟨hwf, by rw [answer, if_pos hold], (Catalogue.enter_of_entered hold).symm⟩
          · have hnew := (Db.insertFile_eq_some hi).1
            rw [← Db.entered_catalogue] at hnew
            exact ⟨hwf.insertFile hi, by rw [answer, if_neg hnew], hwf.catalogue_insertFile hi⟩
      | insertBlock n o =>
          refine Prog.wp_mono (wp_insertBlock_follows hA hwf n o) ?_
          rintro ret w' ⟨hwf', hret, hcat⟩
          exact ⟨hwf', hret, hcat⟩
      | insertBlocks n os =>
          refine (Prog.wp_bind _ _ _ _).mpr (Prog.wp_mono (wp_turns_follow
            (fun done => w.db.catalogue.add n done) Catalogue.add_empty hwf ?_) ?_)
          · intro o done w₁ hwf₁ hcat
            refine (Prog.wp_bind _ _ _ _).mpr
              (Prog.wp_mono (wp_insertBlock_follows hA hwf₁ n o) ?_)
            rintro ret w₂ ⟨hwf₂, -, hcat₂⟩
            exact ⟨hwf₂, by rw [hcat₂, hcat, Catalogue.add_add]⟩
          · rintro _ w' ⟨hwf', hcat⟩
            exact ⟨hwf', rfl, hcat⟩
      | writeBlks n os =>
          refine wp_writeBlks hA hwf fun m' hm => ⟨AddSteps.wf hm.steps hwf, rfl, ?_⟩
          refine Db.catalogue_eq (fun x => (hm.hasFile x).trans ?_)
            fun x o => (hm.recorded x o).trans ?_
          · rw [effect, Catalogue.entered_add, Db.entered_catalogue, World.db]
          · rw [effect, Catalogue.lists_add, Db.lists_catalogue, Db.entered_catalogue, World.db]
            rfl
      | deleteBlock n o =>
          refine Prog.wp_mono (wp_deleteBlock_follows hA hwf n o) ?_
          rintro ret w' ⟨hwf', rfl, hcat⟩
          exact ⟨hwf', rfl, hcat⟩
      | deleteBlocks n os =>
          refine (Prog.wp_bind _ _ _ _).mpr (Prog.wp_mono (wp_turns_follow
            (fun done => w.db.catalogue.remove n done) Catalogue.remove_empty hwf ?_) ?_)
          · intro o done w₁ hwf₁ hcat
            refine (Prog.wp_bind _ _ _ _).mpr
              (Prog.wp_mono (wp_deleteBlock_follows hA hwf₁ n o) ?_)
            rintro ret w₂ ⟨hwf₂, -, hcat₂⟩
            exact ⟨hwf₂, by rw [hcat₂, hcat, Catalogue.remove_remove]⟩
          · rintro _ w' ⟨hwf', hcat⟩
            exact ⟨hwf', rfl, hcat⟩
      | deleteFile n => exact wp_deleteFile hA ⟨hwf.deleteFile, rfl, hwf.catalogue_deleteFile⟩
      | updateBlkTime n o =>
          exact wp_updateBlkTime hA fun now _ =>
            ⟨hwf.touchDatablock, rfl, Db.catalogue_touchDatablock⟩

end Functions

-- ============================================================================
-- Lives
-- ============================================================================

/-- The results of lives that go by a catalogue: a life that ends at its start leaves it as it
    is. -/
def LivesFollow : List Life → BlockCatalogue → List Results → BlockCatalogue → Prop
  | [], s, results, s' => results = [] ∧ s' = s
  | l :: lives, s, results, s' => ∃ r results', results = r :: results' ∧
      ((r = none ∧ LivesFollow lives s results' s') ∨
        (r = some (MetaFn.answers s l.fns) ∧
          LivesFollow lives (MetaFn.effects s l.fns) results' s'))

section Lives

variable {w w' : World} {l : Life} {r : Results}

/-- The start changes the counters only. -/
theorem only_mount (blkSize : Nat) :
    Prog.Only (fun op => ∀ c w, (handle c op w).2.db = w.db) (mount blkSize) := by
  refine Prog.only_bind (only_ask fun _ _ => rfl) fun _ =>
    Prog.only_bind (only_ask fun _ _ => rfl) fun r => Prog.only_ite _ trivial ?_
  cases r.2 with
  | none => exact Prog.only_pure _
  | some text =>
      dsimp only
      cases strToNum text with
      | none => exact Prog.only_pure _
      | some size => exact Prog.only_bind (only_ask fun _ _ => rfl) fun _ => Prog.only_pure _

/-- One life, in which statements fail only for constraints. -/
theorem life_follows {A : Choice → Call → World → Prop} (hA : SqlSucceeds A) (hwf : w.db.WF)
    {tr : List CfsEv} (h : Prog.Traced (env A False) l.prog w.reboot tr r w') :
    (r = none ∧ w'.db.catalogue = w.db.catalogue) ∨
      (r = some (MetaFn.answers w.db.catalogue l.fns) ∧
        w'.db.catalogue = MetaFn.effects w.db.catalogue l.fns) := by
  unfold Life.prog at h
  obtain ⟨tr₁, tr₂, started, w₁, -, h₁, h₂⟩ := Prog.traced_bind.mp h
  have hdb : w₁.db = w.db := (h₁.invariant (I := fun x => x.db = w.db) (only_mount l.blkSize)
    (fun c _ x hop _ hx => (hop c x).trans hx) rfl).1
  cases started with
  | none =>
      obtain ⟨-, rfl, rfl⟩ := h₂
      exact Or.inl ⟨rfl, by rw [hdb]⟩
  | some _ =>
      refine Or.inr (Prog.wp_exec (E := env A False) (Q := fun r w' =>
        r = some (MetaFn.answers w.db.catalogue l.fns) ∧
          w'.db.catalogue = MetaFn.effects w.db.catalogue l.fns) ?_ (Prog.traced_exec h₂))
      rw [Prog.wp_bind]
      refine Prog.wp_mono (Prog.wp_foldlM (I := fun done acc (w' : World) => w'.db.WF ∧
        acc = MetaFn.answers w.db.catalogue done ∧
          w'.db.catalogue = MetaFn.effects w.db.catalogue done)
            ⟨hdb ▸ hwf, rfl, by rw [hdb]; rfl⟩ ?_) ?_
      · rintro done f rest acc w₂ - ⟨hwf₂, rfl, hcat⟩
        rw [Prog.wp_bind]
        refine Prog.wp_mono (MetaFn.wp_follows hA hwf₂ f) ?_
        rintro ret w₃ ⟨hwf₃, rfl, hcat₃⟩
        rw [Prog.wp_pure, MetaFn.answers_concat, MetaFn.effects_concat, ← hcat]
        exact ⟨hwf₃, rfl, hcat₃⟩
      · rintro acc w₂ ⟨-, rfl, hcat⟩
        exact ⟨rfl, hcat⟩

/-- At the SQLite interface, where calls fail only for a constraint, any number of lives of the
    daemon are a catalogue of files and blocks that lasts from one to the next. -/
theorem lives_follow_catalogue {lives : List Life} {stage : Stage} {db : Db}
    {tables tables' : Tables MetaCol} {ends : List (Results × Nat)}
    (hlives : ∀ l ∈ lives, l.InRange) (hwf : db.WF) (hin : stage.Holds db tables)
    (hset : stage ≠ .filesOnly) (h : ApiLives True lives tables ends tables') :
    ∃ (stage' : Stage) (db' : Db), stage'.Holds db' tables' ∧
      LivesFollow lives db.catalogue (ends.map Prod.fst) db'.catalogue := by
  induction lives generalizing db stage tables ends with
  | nil =>
      obtain ⟨rfl, rfl⟩ := h
      exact ⟨stage, db, hin, rfl, rfl⟩
  | cons l lives ih =>
      obtain ⟨r, s₁, ends', he, rfl, hrest⟩ := h
      let w : World := { World.init .empty .empty with metadata := { db } }
      obtain ⟨stage₁, tr, w₁, -, htr, hstands⟩ :=
        life_refines (w := w) (hlives l List.mem_cons_self) hwf hin (fun _ => hset) he
      obtain ⟨stage', db', hin', hfollow⟩ := ih
        (fun l' hl' => hlives l' (List.mem_cons_of_mem _ hl')) hstands.wf hstands.tables
        (by simp [hstands.complete trivial]) hrest
      refine ⟨stage', db', hin', r, ends'.map Prod.fst, rfl, ?_⟩
      -- the life at the upper level goes by the catalogue
      refine (life_follows (w := w) (fun _ _ _ h => h trivial) hwf htr).imp ?_ ?_
      · rintro ⟨hr, hcat⟩
        exact ⟨hr, hcat ▸ hfollow⟩
      · rintro ⟨hr, hcat⟩
        exact ⟨hr, hcat ▸ hfollow⟩

theorem lives_follow_catalogue_sample : ∃ (tables' : Tables MetaCol)
    (ends : List (Results × Nat)) (stage' : Stage) (db' : Db),
    ApiLives True [sampleLife] (fun _ => none) ends tables' ∧ stage'.Holds db' tables' ∧
      LivesFollow [sampleLife] ({} : Db).catalogue (ends.map Prod.fst) db'.catalogue := by
  obtain ⟨ends, tables', h⟩ := apiLives_sample
  have hin : Stage.bare.Holds {} fun _ => none := ⟨rfl, rfl⟩
  obtain ⟨stage', db', hrest⟩ :=
    lives_follow_catalogue inRange_sampleLife Db.wf_empty hin (by simp) h
  exact ⟨tables', ends, stage', db', h, hrest⟩

end Lives

end CacheFs
