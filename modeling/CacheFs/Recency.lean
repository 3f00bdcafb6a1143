/-
  CacheFs.Recency

  Whether `evict_blocks` selects the least recently used blocks.

  It goes by the timestamps, and a timestamp is the time at which the block was last
  stored.  That is an access too when a read brings in the bytes it was asked for, and
  when a write covers the block.  But a read from the cache leaves the timestamp alone
  (`update_lru_blk`, which would set it, is empty), and a read also stores blocks of its
  window that it delivers nothing of.  `KeepsOrder` says when neither matters to the order.
-/

import CacheFs.Freshness
import CacheFs.Meta.Victims

namespace CacheFs

open CacheFs.Effect
open CacheFs.Posix

-- ============================================================================
-- Timestamps
-- ============================================================================

/-- The block at `o` of the file `n` has a row with the time `ts`. -/
def Db.StampedAt (db : Db) (n : FileName) (o : Nat) (ts : Int) : Prop :=
  ∃ f ∈ db.files, f.relativePath = n ∧
    ∃ b ∈ db.datablocks, b.fileId = f.fileId ∧ b.blkStartOffset = o ∧ b.timestamp = ts

section StampedAt

variable {db db' : Db} {n : FileName} {o : Nat} {ts : Int}

theorem Db.StampedAt.recorded (h : db.StampedAt n o ts) : db.Recorded n o := by
  obtain ⟨f, hf, hp, b, hb, hid, ho, -⟩ := h
  exact ⟨f, hf, hp, b, hb, hid, ho⟩

/-- A new file has no rows that a file of its id has left behind. -/
theorem Db.WF.stampedAt_insertFile (h : db.WF) {filename : FileName} {remoteSize : Nat}
    (hi : db.insertFile filename remoteSize = some db') (hs : db'.StampedAt n o ts) :
    db.StampedAt n o ts := by
  obtain ⟨-, rfl⟩ := Db.insertFile_eq_some hi
  obtain ⟨f, hf, hp, b, hb, hid, hbo⟩ := hs
  rcases List.mem_append.mp hf with hf | hf
  · exact ⟨f, hf, hp, b, hb, hid, hbo⟩
  · obtain ⟨g, hg, hgid⟩ := h.foreignKey b hb
    rw [List.mem_singleton.mp hf] at hid
    exact absurd (List.mem_map.mpr ⟨g, hg, hgid.trans hid⟩) (freshId_not_mem _)

theorem Db.StampedAt.of_deleteFile {filename : FileName}
    (h : (db.deleteFile filename).StampedAt n o ts) : db.StampedAt n o ts := by
  obtain ⟨f, hf, hp, b, hb, hbo⟩ := h
  exact ⟨f, (Db.mem_files_deleteFile.mp hf).1, hp, b, (Db.mem_datablocks_deleteFile.mp hb).1, hbo⟩

/-- The calls of `cfs_open` add no rows and change no timestamps. -/
theorem stampedAt_of_handle {c : Choice} {op : Call} {w : World} (h : w.db.WF)
    (hop : op.ofOpen = true) (hs : (handle c op w).2.db.StampedAt n o ts) :
    w.db.StampedAt n o ts := by
  by_cases hframe : op.reachesMeta = false
  · rwa [World.db, metadata_handle hframe] at hs
  revert hs
  cases op
  case insertFile =>
    exact World.sql_db (I := fun db => db.StampedAt n o ts → w.db.StampedAt n o ts) id
      fun db hi => h.stampedAt_insertFile hi
  case deleteFile =>
    exact World.sql_db (I := fun db => db.StampedAt n o ts → w.db.StampedAt n o ts) id
      fun db hi => Option.some.inj hi ▸ Db.StampedAt.of_deleteFile
  all_goals first | exact id | exact absurd hop Bool.false_ne_true | exact absurd rfl hframe

/-- A row either got its time now or is one of the rows before. -/
theorem Stamped.stampedAt {T : Int → Prop} {filename : FileName} {blkArr : List Nat}
    {m m' : MetaState} (h : Stamped T filename blkArr m m') (hwf : m.db.WF) (hwf' : m'.db.WF)
    (hs : m'.db.StampedAt n o ts) :
    (n = filename ∧ m.db.HasFile n ∧ o ∈ blkArr ∧ T ts) ∨
      (¬(n = filename ∧ o ∈ blkArr) ∧ m.db.StampedAt n o ts) := by
  obtain ⟨f, hf, rfl, b, hb, hid, rfl, rfl⟩ := hs
  have hrow := hwf'.fileId?_eq hf
  rw [h.fileId, ← hid] at hrow
  obtain ⟨g, hg, hgp, hgid⟩ := Db.fileId?_eq_some hrow
  by_cases hl : m.db.listed filename blkArr b = true
  · obtain ⟨hfile, ho⟩ := of_decide_eq_true hl
    obtain ⟨g', hg', hgp', hgid'⟩ := Db.fileId?_eq_some hfile
    rw [hwf.eq_of_fileId hg' hg (hgid'.trans hgid.symm), hgp] at hgp'
    exact Or.inl ⟨hgp', ⟨g, hg, hgp⟩, ho, h.time b hb hl⟩
  · refine Or.inr ⟨?_, g, hg, hgp, b, (h.mem_iff (by simpa using hl)).mp hb, hgid.symm, rfl, rfl⟩
    rintro ⟨hn, ho⟩
    exact hl (decide_eq_true ⟨hn ▸ hrow, ho⟩)

end StampedAt

-- ============================================================================
-- Accesses
-- ============================================================================

namespace Request

variable (cfg : Config) (w : World) (n : FileName) (o : Nat)

/-- The request accesses the block at `o` of the file `n`: it is a read that delivers
    bytes of the block, or a write some bytes of which go there. -/
def accesses : Request → Prop
  | .cfsRead path size offset fh => n = cfsPathToFileName path ∧ o ∈ cfg.window offset size ∧
      max offset o < min (min (offset + size) (o + cfg.blockSize))
        (w.source n (w.nasIno fh) (w.cacheIno fh) o).length
  | .cfsWrite path buf offset _ => n = cfsPathToFileName path ∧
      max offset o < min (offset + buf.length) (o + cfg.blockSize)
  | _ => False

/-- The request stores the block. -/
def stamps : Request → Prop
  | .cfsRead path size offset _ => n = cfsPathToFileName path ∧ w.db.HasFile n ∧
      o ∈ w.db.missing n (cfg.window offset size)
  | .cfsWrite path buf offset _ => n = cfsPathToFileName path ∧ w.db.HasFile n ∧
      o ∈ cfg.window offset buf.length
  | _ => False

instance : (rq : Request) → Decidable (rq.accesses cfg w n o)
  | .cfsRead path size offset fh => inferInstanceAs (Decidable (n = cfsPathToFileName path ∧
      o ∈ cfg.window offset size ∧ max offset o < min (min (offset + size) (o + cfg.blockSize))
        (w.source n (w.nasIno fh) (w.cacheIno fh) o).length))
  | .cfsWrite path buf offset _ => inferInstanceAs (Decidable (n = cfsPathToFileName path ∧
      max offset o < min (offset + buf.length) (o + cfg.blockSize)))
  | .cfsOpen _ _ | .cfsRelease _ _ | .cfsUtime _ _ | .cfsUnlink _ =>
      inferInstanceAs (Decidable False)

end Request

/-- The time of the last access to each block. -/
abbrev History := FileName → Nat → Int

/-- The history after a request at the time `t`. -/
def History.after (H : History) (cfg : Config) (w : World) (t : Int) (rq : Request) : History :=
  fun n o => if rq.accesses cfg w n o then t else H n o

/-- A mount at a time, with the history of its requests. -/
structure Moment where
  time : Int
  world : World
  lastAccess : History

/-- One request that meets `cond` has been served, in a later second than those before. -/
def Paced (cfg : Config) (cond : Moment → Request → Prop) (s s' : Moment) : Prop :=
  s.time < s'.time ∧ ∃ rq fuel, OnFiles cfg (fun _ => True) s.world rq ∧ cond s rq ∧
    Prog.Exec (env (succeedsAt s'.time) True) (rq.prog cfg fuel) s.world () s'.world ∧
    s'.lastAccess = s.lastAccess.after cfg s.world s'.time rq

abbrev PacedRun (cfg : Config) (cond : Moment → Request → Prop) : Moment → Moment → Prop :=
  Relation.ReflTransGen (Paced cfg cond)

/-- The requests that do not disturb the order.  With a recorded block they read from
    the cache, they access those whose timestamps are not older, unless they store
    them.  And what they store without an access has been accessed no earlier than any
    block that will be recorded, none of which they access. -/
structure KeepsOrder (cfg : Config) (s : Moment) (rq : Request) : Prop where
  hits : ∀ n o ts n' o' ts', s.world.db.StampedAt n o ts → s.world.db.StampedAt n' o' ts' →
    ts ≤ ts' → ¬ rq.stamps cfg s.world n o → ¬ rq.stamps cfg s.world n' o' →
      rq.accesses cfg s.world n o → rq.accesses cfg s.world n' o'
  fills : ∀ n o, rq.stamps cfg s.world n o → ¬ rq.accesses cfg s.world n o →
    ∀ n' o', s.world.db.Recorded n' o' ∨ rq.stamps cfg s.world n' o' →
      ¬ rq.accesses cfg s.world n' o' ∧ s.lastAccess n' o' ≤ s.lastAccess n o

-- ============================================================================
-- The invariant
-- ============================================================================

/-- The timestamps have the order of the last accesses. -/
structure Ordered (s : Moment) : Prop where
  wf : s.world.db.WF
  stamped : ∀ n o ts, s.world.db.StampedAt n o ts → ts ≤ s.time
  accessed : ∀ n o, s.lastAccess n o ≤ s.time
  order : ∀ n o ts n' o' ts', s.world.db.StampedAt n o ts → s.world.db.StampedAt n' o' ts' →
    ts ≤ ts' → s.lastAccess n o ≤ s.lastAccess n' o'

section Steps

variable {cfg : Config} {t : Int} {w w' : World} {rq : Request} {fuel : Nat}

/-- The rows after a request: those it has stored have its time, and the other ones
    are as before. -/
theorem stampedAt_request (hbs : 0 < cfg.blockSize) (hwf : w.db.WF)
    (hon : OnFiles cfg (fun _ => True) w rq)
    (he : Prog.Exec (env (succeedsAt t) True) (rq.prog cfg fuel) w () w') {n : FileName} {o : Nat}
    {ts : Int} (hs : w'.db.StampedAt n o ts) :
    (rq.stamps cfg w n o ∧ ts = t) ∨ (¬ rq.stamps cfg w n o ∧ w.db.StampedAt n o ts) := by
  have hA := allSucceed_succeedsAt t
  have hwf' := wf_exec hwf he
  have hstored : ∀ {filename : FileName} {blkArr : List Nat},
      Stamped (Clock (succeedsAt t)) filename blkArr w.metadata w'.metadata →
      (∀ n o, rq.stamps cfg w n o ↔ n = filename ∧ w.db.HasFile n ∧ o ∈ blkArr) →
      (rq.stamps cfg w n o ∧ ts = t) ∨ (¬ rq.stamps cfg w n o ∧ w.db.StampedAt n o ts) := by
    intro filename blkArr h hiff
    rw [hiff]
    rcases h.stampedAt hwf hwf' hs with ⟨hn, hfile, ho, hts⟩ | ⟨hout, hs⟩
    · exact Or.inl ⟨⟨hn, hfile, ho⟩, clock_succeedsAt hts⟩
    · exact Or.inr ⟨fun hin => hout ⟨hin.1, hin.2.2⟩, hs⟩
  cases rq with
  | cfsOpen path flags =>
      refine Or.inr ⟨id, ?_⟩
      obtain ⟨tr, htr⟩ := Prog.exec_traced he
      have honly : Prog.Only (·.ofOpen = true) (Request.prog cfg fuel (.cfsOpen path flags)) :=
        Prog.only_bind (only_cfsOpen path flags) fun _ => Prog.only_pure _
      exact (Prog.Stopped.invariant (I := fun w' => w'.db.WF ∧
        ∀ n o ts, w'.db.StampedAt n o ts → w.db.StampedAt n o ts) honly
        (fun _ _ _ hop _ h => ⟨wf_handle h.1, fun n o ts hs =>
          h.2 n o ts (stampedAt_of_handle h.1 hop hs)⟩) ⟨hwf, fun _ _ _ hs => hs⟩
        htr.stopped).1.2 n o ts hs
  | cfsRead path size offset fh =>
      obtain ⟨-, ni, ci, hopen, -⟩ := hon
      have hread : Stamped (Clock (succeedsAt t)) (cfsPathToFileName path)
          (w.db.missing (cfsPathToFileName path) (cfg.window offset size)) w.metadata
          w'.metadata := by
        refine Prog.wp_exec (Q := fun _ w' => Stamped (Clock (succeedsAt t))
          (cfsPathToFileName path) (w.db.missing (cfsPathToFileName path)
            (cfg.window offset size)) w.metadata w'.metadata) ?_ he
        simp only [Request.prog, Prog.wp_bind]
        exact wp_cfsRead hA hbs hwf hopen fun _ _ _ _ _ hstamped _ _ => hstamped
      refine hstored hread fun n o => ⟨?_, ?_⟩
      · rintro ⟨rfl, h⟩
        exact ⟨rfl, h⟩
      · rintro ⟨rfl, h⟩
        exact ⟨rfl, h⟩
  | cfsWrite path buf offset fh =>
      obtain ⟨-, ni, ci, hopen, -⟩ := hon
      have hwrite : Stamped (Clock (succeedsAt t)) (cfsPathToFileName path)
          (cfg.window offset buf.length) w.metadata w'.metadata := by
        refine Prog.wp_exec (Q := fun _ w' => Stamped (Clock (succeedsAt t))
          (cfsPathToFileName path) (cfg.window offset buf.length) w.metadata w'.metadata) ?_ he
        simp only [Request.prog, Prog.wp_bind]
        exact wp_cfsWrite hA hwf hopen fun _ _ _ _ _ _ _ _ _ hstamped => hstamped
      exact hstored hwrite fun n o => Iff.rfl
  | cfsRelease path fh =>
      obtain ⟨-, ni, ci, hopen, -⟩ := hon
      refine Or.inr ⟨id, ?_⟩
      have hdb : w'.db = w.db := by
        refine Prog.wp_exec (Q := fun _ w' => w'.db = w.db) ?_ he
        simp only [Request.prog, Prog.wp_bind]
        exact wp_cfsRelease hA hopen fun _ w₁ _ _ hdug => congrArg MetaState.db hdug.metadata
      rwa [hdb] at hs
  | cfsUtime path modtime => exact hon.elim
  | cfsUnlink path => exact hon.elim

theorem Ordered.step (hbs : 0 < cfg.blockSize) {s s' : Moment} (h : Ordered s)
    (hs : Paced cfg (KeepsOrder cfg) s s') : Ordered s' := by
  obtain ⟨hlt, rq, fuel, hon, hkeeps, he, hafter⟩ := hs
  have hrows : ∀ {n o ts}, s'.world.db.StampedAt n o ts →
      (rq.stamps cfg s.world n o ∧ ts = s'.time) ∨
        (¬ rq.stamps cfg s.world n o ∧ s.world.db.StampedAt n o ts) :=
    fun hs => stampedAt_request hbs h.wf hon he hs
  have hlast : ∀ {n o}, rq.accesses cfg s.world n o → s'.lastAccess n o = s'.time :=
    fun ha => by rw [hafter, History.after, if_pos ha]
  have hkept : ∀ {n o}, ¬ rq.accesses cfg s.world n o →
      s'.lastAccess n o = s.lastAccess n o :=
    fun ha => by rw [hafter, History.after, if_neg ha]
  have haccessed : ∀ n o, s'.lastAccess n o ≤ s'.time := by
    intro n o
    by_cases ha : rq.accesses cfg s.world n o
    · exact (hlast ha).le
    · rw [hkept ha]
      exact (h.accessed n o).trans hlt.le
  refine ⟨wf_exec h.wf he, fun n o ts hs => ?_, haccessed, fun n o ts n' o' ts' hs hs' hle => ?_⟩
  · rcases hrows hs with ⟨-, rfl⟩ | ⟨-, hs⟩
    · exact le_refl _
    · exact (h.stamped n o ts hs).trans hlt.le
  by_cases ha' : rq.accesses cfg s.world n' o'
  · rw [hlast ha']
    exact haccessed n o
  rw [hkept ha']
  rcases hrows hs' with ⟨hin', rfl⟩ | ⟨hout', hs'⟩
  · -- stored without an access: it has become the newest row
    have hrec : s.world.db.Recorded n o ∨ rq.stamps cfg s.world n o :=
      (hrows hs).elim (fun hin => Or.inr hin.1) fun hout => Or.inl hout.2.recorded
    obtain ⟨ha, hle⟩ := hkeeps.fills n' o' hin' ha' n o hrec
    rw [hkept ha]
    exact hle
  · have hts' := h.stamped n' o' ts' hs'
    rcases hrows hs with ⟨-, rfl⟩ | ⟨hout, hs⟩
    · omega
    · -- neither is stored: if the first is read from the cache, so is the second
      have ha : ¬ rq.accesses cfg s.world n o := fun ha =>
        ha' (hkeeps.hits n o ts n' o' ts' hs hs' hle hout hout' ha)
      rw [hkept ha]
      exact h.order n o ts n' o' ts' hs hs' hle

theorem Ordered.run (hbs : 0 < cfg.blockSize) {s s' : Moment} (h : Ordered s)
    (hrun : PacedRun cfg (KeepsOrder cfg) s s') : Ordered s' := by
  induction hrun with
  | refl => exact h
  | tail _ hs ih => exact ih.step hbs hs

end Steps

-- ============================================================================
-- Runs
-- ============================================================================

/-- The moment after a request to which every call answers in the second `t`. -/
def Moment.served (s : Moment) (cfg : Config) (t : Int) (rq : Request) : Moment where
  time := t
  world := s.world.served (succeedsAt t) cfg { now := t } rq
  lastAccess := s.lastAccess.after cfg s.world t rq

end CacheFs
