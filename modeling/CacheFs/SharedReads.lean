/-
  CacheFs.SharedReads

  Reads that run at the same time.

  FUSE serves the requests on several threads.  A `cfs_read` records a block before
  it stores it: between the INSERT of `write_blks` and the `pwrite` of `cfs_cacheWrite`
  another request finds the block recorded while the cache file does not have it yet.
  `Reading` remembers of each request which blocks it has found or recorded and which
  ones it still owes to the cache file.

  Whatever the order of the calls is, the requests together end as if they had been served one
  after the other: the windows are recorded, every recorded block agrees with the NAS
  file, and the sizes agree (`shared_reads_settle`).  The bytes a request delivers on the way
  are right when no block is read from the cache file while another request owes it
  (`shared_reads_deliver`).
-/

import CacheFs.Concurrent
import CacheFs.Transparency

namespace CacheFs

open CacheFs.Effect
open CacheFs.Posix

-- ============================================================================
-- What a request has done
-- ============================================================================

/-- The arguments of a `cfs_read`. -/
structure ReadRequest where
  path : Path
  size : Nat
  offset : Nat
  fh : Nat
deriving DecidableEq

namespace ReadRequest

/-- The name of the cache file. -/
def name (rq : ReadRequest) : FileName := cfsPathToFileName rq.path

def window (cfg : Config) (rq : ReadRequest) : List Nat := cfg.window rq.offset rq.size

def prog (cfg : Config) (fuel : Nat) (rq : ReadRequest) : CfsM (Int × List UInt8) :=
  cfsRead cfg fuel rq.path rq.size rq.offset rq.fh

/-- The handle is the one of the file the path names now, on both sides, and the file has a
    row: the state after an open. -/
structure Ready (cfg : Config) (P : Path → Prop) (w : World) (rq : ReadRequest) : Prop where
  path : P rq.path
  hasFile : w.db.HasFile rq.name
  current : ∃ ni ci, Current cfg w rq.path rq.fh ni ci

end ReadRequest

/-- A request that is under way. -/
structure Reading where
  request : ReadRequest
  /-- The blocks it has found recorded or has recorded. -/
  seen : List Nat := []
  /-- The blocks it has recorded and not stored yet. -/
  owed : List Nat := []
  /-- What it still owes to the sizes. -/
  pending : Pending := .idle
deriving DecidableEq

namespace Reading

/-- The effect of one call and its reply. -/
def next (bs : Nat) (g : Reading) : (op : Call) → op.Reply → Reading
  | .selectBlockId o _, ret => { g with seen := if ret = .row then o :: g.seen else g.seen }
  | .insertDatablock o n, ret =>
      { g with seen := o :: g.seen
               owed := if ret = .done then o :: g.owed else g.owed
               pending := g.pending.next bs (.insertDatablock o n) ret }
  | .pwrite _ _ off, _ => { g with owed := g.owed.filter (· ≠ off) }
  | .touchDatablock o n, ret => { g with pending := g.pending.next bs (.touchDatablock o n) ret }
  | .addLocalSize x n, ret => { g with pending := g.pending.next bs (.addLocalSize x n) ret }
  | .addCacheUsedSize x, ret => { g with pending := g.pending.next bs (.addCacheUsedSize x) ret }
  | _, _ => g

theorem request_next {bs : Nat} {g : Reading} {op : Call} {r : op.Reply} :
    (g.next bs op r).request = g.request := by
  cases op <;> rfl

end Reading

/-- The calls a request makes, each about its own file: it records blocks of its window and
    stores blocks that agree with the NAS file. -/
def OwnCall (cfg : Config) (w₀ : World) (rq : ReadRequest) : Call → Prop
  | .loadHandle _ | .malloc _ | .strayRead _ | .pread _ _ _ | .getCacheUsedSize | .stepSelect
  | .getMetaBlockSize | .touchDatablock _ _ | .addLocalSize _ _ | .addCacheUsedSize _ => True
  | .selectBlockId _ n => n = rq.name
  | .insertDatablock o n => n = rq.name ∧ o ∈ rq.window cfg
  | .pwrite fd buf off => off % cfg.blockSize = 0 ∧ buf.length = cfg.blockSize ∧
      (∃ dualFH, w₀.handles rq.fh = some dualFH ∧ fd = dualFH.cacheFH) ∧
      ∀ ni, w₀.nas.lookup (cfg.fullNasPath rq.path) = some ni → ∀ j < buf.length,
        off + j < (w₀.nas.inode ni).data.length → buf[j]? = (w₀.nas.inode ni).data[off + j]?
  | _ => False

/-- What a request sees to with every call. -/
def Proper (cfg : Config) (w₀ : World) (op : Call) (g : Reading) : Prop :=
  OwnCall cfg w₀ g.request op ∧ g.pending ≠ .broken

-- ============================================================================
-- The invariant
-- ============================================================================

/-- Where the requests `gs` have brought the world `w₀`. -/
structure Shared (cfg : Config) (P : Path → Prop) (w₀ : World) (gs : List Reading) (w : World) :
    Prop where
  ready : ∀ g ∈ gs, g.request.Ready cfg P w₀
  nas : w.nas = w₀.nas
  fds : w.fds = w₀.fds
  handles : w.handles = w₀.handles
  lookup : ∀ x, w.cache.lookup x = w₀.cache.lookup x
  kind : ∀ i, (w.cache.inode i).kind = (w₀.cache.inode i).kind
  nextIno : w.cache.nextIno = w₀.cache.nextIno
  tallied : Tallied cfg.blockSize (gs.map (·.pending)) w.metadata
  hasFile : ∀ n, w.db.HasFile n ↔ w₀.db.HasFile n
  kept : ∀ n o, w₀.db.Recorded n o → w.db.Recorded n o
  recorded : ∀ n o, w.db.Recorded n o →
    w₀.db.Recorded n o ∨ ∃ g ∈ gs, n = g.request.name ∧ o ∈ g.request.window cfg
  seen : ∀ g ∈ gs, ∀ o ∈ g.seen, w.db.Recorded g.request.name o
  /-- A recorded block agrees with the NAS file, or one of the requests owes it. -/
  agree : ∀ p, P p → ∀ o, w.db.Recorded (cfsPathToFileName p) o → o % cfg.blockSize = 0 ∧
    (Agree o (o + cfg.blockSize) (w.cache.content (cfg.fullCachePath p))
        (w.nas.content (cfg.fullNasPath p)) ∨
      ∃ g ∈ gs, g.request.name = cfsPathToFileName p ∧ o ∈ g.owed)

namespace Shared

variable {cfg : Config} {P : Path → Prop} {w₀ w : World} {g g' : Reading} {gs gs' : List Reading}

theorem perm (h : Shared cfg P w₀ gs w) (hp : gs.Perm gs') : Shared cfg P w₀ gs' w where
  ready g hg := h.ready g (hp.mem_iff.mpr hg)
  nas := h.nas
  fds := h.fds
  handles := h.handles
  lookup := h.lookup
  kind := h.kind
  nextIno := h.nextIno
  tallied := h.tallied.perm (hp.map _)
  hasFile := h.hasFile
  kept := h.kept
  recorded n o ho := by
    rcases h.recorded n o ho with h₀ | ⟨g, hg, hin⟩
    · exact .inl h₀
    · exact .inr ⟨g, hp.mem_iff.mp hg, hin⟩
  seen g hg := h.seen g (hp.mem_iff.mpr hg)
  agree p hP o ho := by
    obtain ⟨hmod, hag | ⟨g, hg, howed⟩⟩ := h.agree p hP o ho
    · exact ⟨hmod, .inl hag⟩
    · exact ⟨hmod, .inr ⟨g, hp.mem_iff.mp hg, howed⟩⟩

/-- A step of the metadata: `new` are the blocks of the file of the request that are now
    recorded, and it owes them. -/
theorem metadata (h : Shared cfg P w₀ (g :: gs) w) {m : MetaState} (new : List Nat)
    (hreq : g'.request = g.request)
    (htally : Tallied cfg.blockSize (g'.pending :: gs.map (·.pending)) m)
    (hfile : ∀ n, m.db.HasFile n ↔ w.db.HasFile n)
    (hrec : ∀ n o, m.db.Recorded n o ↔ w.db.Recorded n o ∨ n = g.request.name ∧ o ∈ new)
    (hnew : ∀ o ∈ new, o ∈ g.request.window cfg ∧ o ∈ g'.owed)
    (howed : ∀ o ∈ g.owed, o ∈ g'.owed)
    (hseen : ∀ o ∈ g'.seen, m.db.Recorded g.request.name o) :
    Shared cfg P w₀ (g' :: gs) { w with metadata := m } where
  ready := by
    rintro g₁ (_ | ⟨_, hg₁⟩)
    · rw [hreq]
      exact h.ready g List.mem_cons_self
    · exact h.ready g₁ (List.mem_cons_of_mem _ hg₁)
  nas := h.nas
  fds := h.fds
  handles := h.handles
  lookup := h.lookup
  kind := h.kind
  nextIno := h.nextIno
  tallied := htally
  hasFile n := (hfile n).trans (h.hasFile n)
  kept n o h₀ := (hrec n o).mpr (.inl (h.kept n o h₀))
  recorded n o ho := by
    rcases (hrec n o).mp ho with ho | ⟨hn, hin⟩
    · rcases h.recorded n o ho with h₀ | ⟨g₁, hg₁, hn, hin⟩
      · exact .inl h₀
      · rcases List.mem_cons.mp hg₁ with rfl | hg₁
        · exact .inr ⟨g', List.mem_cons_self, by rw [hreq, hn], by rwa [hreq]⟩
        · exact .inr ⟨g₁, List.mem_cons_of_mem _ hg₁, hn, hin⟩
    · refine .inr ⟨g', List.mem_cons_self, by rw [hreq, hn], ?_⟩
      rw [hreq]
      exact (hnew o hin).1
  seen := by
    rintro g₁ (_ | ⟨_, hg₁⟩) o ho
    · rw [hreq]
      exact hseen o ho
    · exact (hrec _ o).mpr (.inl (h.seen g₁ (List.mem_cons_of_mem _ hg₁) o ho))
  agree p hp o ho := by
    rcases (hrec _ o).mp ho with ho | ⟨hn, ho⟩
    · obtain ⟨hmod, hag | ⟨g₁, hg₁, hn, ho₁⟩⟩ := h.agree p hp o ho
      · exact ⟨hmod, .inl hag⟩
      · refine ⟨hmod, .inr ?_⟩
        rcases List.mem_cons.mp hg₁ with rfl | hg₁
        · exact ⟨g', List.mem_cons_self, by rw [hreq, hn], howed o ho₁⟩
        · exact ⟨g₁, List.mem_cons_of_mem _ hg₁, hn, ho₁⟩
    · refine ⟨cfg.mod_of_mem_window (hnew o ho).1, .inr ⟨g', List.mem_cons_self, ?_, (hnew o ho).2⟩⟩
      rw [hreq, hn]

/-- A step after which the request knows more, and nothing else has changed. -/
theorem learned (h : Shared cfg P w₀ (g :: gs) w) (hreq : g'.request = g.request)
    (hpending : g'.pending = g.pending) (howed : g'.owed = g.owed)
    (hseen : ∀ o ∈ g'.seen, w.db.Recorded g.request.name o) : Shared cfg P w₀ (g' :: gs) w :=
  h.metadata (m := w.metadata) [] hreq (hpending ▸ h.tallied) (fun _ => Iff.rfl)
    (fun n o => by simp only [List.not_mem_nil, and_false, or_false, World.db])
    (fun o ho => absurd ho List.not_mem_nil) (fun o ho => howed ▸ ho) hseen

/-- A block is stored, and is owed no longer. -/
theorem stored (h : Shared cfg P w₀ (g :: gs) w) (hl : Layout cfg P w₀) {ni ci : Ino}
    (hcur : Current cfg w₀ g.request.path g.request.fh ni ci) {buf : List UInt8} {off : Nat}
    {now : Int} (hmod : off % cfg.blockSize = 0) (hlen : buf.length = cfg.blockSize)
    (hbuf : ∀ j < buf.length, off + j < (w₀.nas.inode ni).data.length →
      buf[j]? = (w₀.nas.inode ni).data[off + j]?) :
    Shared cfg P w₀ ({ g with owed := g.owed.filter (· ≠ off) } :: gs)
      { w with cache := w.cache.pwrite ci buf off now } where
  ready := by
    rintro g₁ (_ | ⟨_, hg₁⟩)
    · exact h.ready g List.mem_cons_self
    · exact h.ready g₁ (List.mem_cons_of_mem _ hg₁)
  nas := h.nas
  fds := h.fds
  handles := h.handles
  lookup x := (Fs.lookup_pwrite _ _ _ _ _ x).trans (h.lookup x)
  kind i := (Fs.kind_pwrite _ _ _ _ _ _).trans (h.kind i)
  nextIno := (Fs.nextIno_pwrite _ _ _ _ _).trans h.nextIno
  tallied := h.tallied
  hasFile := h.hasFile
  kept := h.kept
  recorded n o ho := by
    rcases h.recorded n o ho with h₀ | ⟨g₁, hg₁, hin⟩
    · exact .inl h₀
    · rcases List.mem_cons.mp hg₁ with rfl | hg₁
      · exact .inr ⟨_, List.mem_cons_self, hin⟩
      · exact .inr ⟨g₁, List.mem_cons_of_mem _ hg₁, hin⟩
  seen := by
    rintro g₁ (_ | ⟨_, hg₁⟩)
    · exact h.seen g List.mem_cons_self
    · exact h.seen g₁ (List.mem_cons_of_mem _ hg₁)
  agree p hp o ho := by
    have hpath := (h.ready g List.mem_cons_self).path
    have hci : w.cache.lookup (cfg.fullCachePath g.request.path) = some ci :=
      (h.lookup _).trans hcur.cache
    have hci' : (w.cache.pwrite ci buf off now).lookup (cfg.fullCachePath g.request.path) =
        some ci := (Fs.lookup_pwrite _ _ _ _ _ _).trans hci
    have hni : w.nas.lookup (cfg.fullNasPath g.request.path) = some ni := h.nas ▸ hcur.nas
    obtain ⟨hmod', hold⟩ := h.agree p hp o ho
    refine ⟨hmod', ?_⟩
    by_cases hpp : p = g.request.path
    · subst hpp
      rw [Fs.content_of_lookup hci', Fs.content_of_lookup hni, Fs.data_pwrite, if_pos rfl]
      rw [Fs.content_of_lookup hci, Fs.content_of_lookup hni] at hold
      by_cases hoff : o = off
      · left
        rw [hoff, h.nas, ← hlen]
        exact Agree.fill hbuf (le_refl _) (le_refl _)
      · have hapart := aligned_apart hmod' hmod hoff
        rcases hold with hag | ⟨g₁, hg₁, hn, ho₁⟩
        · exact .inl (hag.pwrite_copy (by omega))
        · right
          rcases List.mem_cons.mp hg₁ with rfl | hg₁
          · exact ⟨_, List.mem_cons_self, hn, List.mem_filter.mpr ⟨ho₁, by simpa using hoff⟩⟩
          · exact ⟨g₁, List.mem_cons_of_mem _ hg₁, hn, ho₁⟩
    · -- another file has another cache file, and the request owes it nothing
      rcases hold with hag | ⟨g₁, hg₁, hn, ho₁⟩
      · left
        rw [Fs.content_congr (Fs.lookup_pwrite _ _ _ _ _ _) fun i hi => ?_]
        · exact hag
        · have hic : i ≠ ci := by
            rintro rfl
            exact hpp (hl.cacheApart p _ i hp hpath ((h.lookup _).symm.trans hi) hcur.cache)
          rw [Fs.data_pwrite, if_neg hic]
      · right
        rcases List.mem_cons.mp hg₁ with rfl | hg₁
        · exact absurd (hl.names _ _ hp hpath hn.symm) hpp
        · exact ⟨g₁, List.mem_cons_of_mem _ hg₁, hn, ho₁⟩

/-- One call of one request. -/
theorem call (h : Shared cfg P w₀ (g :: gs) w) (hl : Layout cfg P w₀) {op : Call} {c : Choice}
    (hc : succeeds c op w) (hroom : ∀ x n, op = .addLocalSize x n → w.db.total + x < 2 ^ 63)
    (hok : Proper cfg w₀ op (g.next cfg.blockSize op (handle c op w).1)) :
    Shared cfg P w₀ (g.next cfg.blockSize op (handle c op w).1 :: gs) (handle c op w).2 := by
  have herr := hc.1
  obtain ⟨hown, hpending⟩ := hok
  rw [Reading.request_next] at hown
  have hwf := h.tallied.wf
  have hseen := h.seen g List.mem_cons_self
  -- what the step does to the sizes
  have htally := h.tallied.call (fun _ => herr : constraintsOnly c op w)
  cases op with
  | loadHandle ptr | malloc n | strayRead n | pread fd n off | getCacheUsedSize | stepSelect
  | getMetaBlockSize => exact h
  | selectBlockId o n =>
      obtain rfl : n = g.request.name := hown
      refine h.learned rfl rfl rfl fun o' ho' => ?_
      simp only [handle, Reading.next, World.select_eq herr] at ho'
      cases hsel : w.db.selectBlockId o g.request.name with
      | false =>
          simp only [hsel, Bool.false_eq_true, if_false, reduceCtorEq] at ho'
          exact hseen o' ho'
      | true =>
          simp only [hsel, if_true] at ho'
          rcases List.mem_cons.mp ho' with rfl | ho'
          · exact Db.recorded_of_selectBlockId hsel
          · exact hseen o' ho'
  | touchDatablock o n =>
      have htally := htally trivial hpending
      simp only [handle, World.sql_some herr] at htally ⊢
      refine h.metadata [] rfl htally (fun n' => Db.hasFile_touchDatablock n') (fun n' o' => ?_)
        (fun o ho => absurd ho List.not_mem_nil) (fun o ho => ho) fun o' ho' => ?_
      · rw [Db.recorded_touchDatablock]
        simp only [List.not_mem_nil, and_false, or_false]
      · exact (Db.recorded_touchDatablock _ _).mpr (hseen o' ho')
  | addLocalSize x n =>
      have htally := htally (h.tallied.undisturbed_addLocalSize (hroom x n rfl) _ _) hpending
      simp only [handle, World.sql_some herr] at htally ⊢
      refine h.metadata [] rfl htally (fun n' => Db.hasFile_addLocalSize n') (fun n' o' => ?_)
        (fun o ho => absurd ho List.not_mem_nil) (fun o ho => ho) fun o' ho' => ?_
      · rw [Db.recorded_addLocalSize]
        simp only [List.not_mem_nil, and_false, or_false]
      · exact (Db.recorded_addLocalSize _ _).mpr (hseen o' ho')
  | addCacheUsedSize x =>
      exact h.metadata [] rfl (htally trivial hpending) (fun _ => Iff.rfl)
        (fun n' o' => by simp only [List.not_mem_nil, and_false, or_false, World.db])
        (fun o ho => absurd ho List.not_mem_nil) (fun o ho => ho) hseen
  | insertDatablock o n =>
      obtain ⟨rfl, hwindow⟩ := hown
      have htally := htally trivial hpending
      have hfile : w.db.HasFile g.request.name :=
        (h.hasFile _).mpr (h.ready g List.mem_cons_self).hasFile
      cases hi : w.db.insertDatablock o g.request.name c.now with
      | none =>
          -- refused, so the block has a row
          have hrec := (hwf.insertDatablock_eq_none_iff.mp hi).resolve_left (not_not.mpr hfile)
          simp only [handle, hi, World.sql_none, Reading.next, Pending.next, reduceCtorEq,
            if_false] at htally ⊢
          refine h.learned rfl rfl rfl fun o' ho' => ?_
          rcases List.mem_cons.mp ho' with rfl | ho'
          · exact hrec
          · exact hseen o' ho'
      | some db =>
          simp only [handle, hi, World.sql_some herr, Reading.next, if_true] at htally ⊢
          have hrec := hwf.recorded_insertDatablock hi
          refine h.metadata [o] rfl htally (Db.hasFile_insertDatablock hi) (fun n' o' => ?_)
            (fun o' ho' => ?_) (fun o' ho' => List.mem_cons_of_mem _ ho')
            fun o' ho' => (hrec _ _).mpr ?_
          · rw [List.mem_singleton]
            exact hrec n' o'
          · rw [List.mem_singleton.mp ho']
            exact ⟨hwindow, List.mem_cons_self⟩
          · rcases List.mem_cons.mp ho' with rfl | ho'
            · exact .inr ⟨rfl, rfl⟩
            · exact .inl (hseen o' ho')
  | pwrite fd buf off =>
      obtain ⟨hmod, hlen, ⟨dualFH, hdual, rfl⟩, hbuf⟩ := hown
      obtain ⟨ni, ci, hcur⟩ := (h.ready g List.mem_cons_self).current
      obtain ⟨dualFH', hdual', -, r, wr, hfd⟩ := hcur.opened
      obtain rfl : dualFH' = dualFH := Option.some.inj (hdual'.symm.trans hdual)
      rw [← h.fds] at hfd
      have hwrite : Prog.wp (env succeeds True) (ask (.pwrite dualFH'.cacheFH buf off))
          (fun _ w' => ∃ now, w' = { w with cache := w.cache.pwrite ci buf off now }) w :=
        wp_pwrite_cache allSucceed_succeeds hfd fun _ now _ => ⟨now, rfl⟩
      simp only [ask, wp_call, Prog.wp_ret] at hwrite
      obtain ⟨now, hw⟩ := hwrite c hc
      rw [hw]
      exact h.stored hl hcur hmod hlen (hbuf ni hcur.nas)
  | _ => exact absurd hown id

end Shared

-- ============================================================================
-- What a request can rely on
-- ============================================================================

/-- What the call adds to the size of a file. -/
def Call.growth? : Call → Option Int
  | .addLocalSize x _ => some x
  | _ => none

/-- The sizes stay in the range of the column. -/
def SizesFit (_ : List Reading) (_ : Reading) (op : Call) (w : World) : Prop :=
  ∀ x ∈ op.growth?, w.db.total + x < 2 ^ 63

/-- No block is read from the cache file while another request owes it. -/
def StoredFirst (bs : Nat) (others : List Reading) (g : Reading) : Call → World → Prop
  | .pread fd n off, w => (w.fds fd).map (·.side) = some .cache →
      ∀ g' ∈ others, g'.request.name = g.request.name → ∀ o ∈ g'.owed, o + bs ≤ off ∨ off + n ≤ o
  | op, w => SizesFit others g op w

instance (others : List Reading) (g : Reading) (op : Call) (w : World) :
    Decidable (SizesFit others g op w) :=
  inferInstanceAs (Decidable (∀ x ∈ op.growth?, w.db.total + x < 2 ^ 63))

instance (bs : Nat) (others : List Reading) (g : Reading) (op : Call) (w : World) :
    Decidable (StoredFirst bs others g op w) := by
  unfold StoredFirst
  split <;> infer_instance

/-- What a request knows of the world at a call.  When all reads are `StoredFirst`
    (`calm`), the blocks it has seen and does not owe are in the cache file. -/
structure Rely (cfg : Config) (P : Path → Prop) (w₀ : World) (calm : Prop) (g : Reading) (op : Call)
    (w : World) : Prop where
  ready : g.request.Ready cfg P w₀
  nas : w.nas = w₀.nas
  fds : w.fds = w₀.fds
  handles : w.handles = w₀.handles
  blockSize : w.metadata.metaBlockSize = cfg.blockSize
  cached : calm → ∀ fd n off r wr ni ci, op = .pread fd n off →
    Current cfg w₀ g.request.path g.request.fh ni ci → w₀.fds fd = some ⟨.cache, ci, r, wr, false⟩ →
    ∀ o ∈ g.seen, o ∉ g.owed → off ≤ o → o + cfg.blockSize ≤ off + n →
      Agree o (o + cfg.blockSize) (w.cache.inode ci).data (w₀.nas.inode ni).data

section Upheld

variable {cfg : Config} {P : Path → Prop} {w₀ : World}

theorem Shared.rely {g : Reading} {gs : List Reading} {w : World} {calm : Prop} {op : Call}
    (h : Shared cfg P w₀ (g :: gs) w) (hbs : 0 < cfg.blockSize)
    (hcalm : calm → StoredFirst cfg.blockSize gs g op w) : Rely cfg P w₀ calm g op w where
  ready := h.ready g List.mem_cons_self
  nas := h.nas
  fds := h.fds
  handles := h.handles
  blockSize := h.tallied.blockSize
  cached := by
    rintro hc fd n off r wr ni ci rfl hcur hfd o hseen howed hlo hhi
    have hapart := hcalm hc
    have hpath := (h.ready g List.mem_cons_self).path
    obtain ⟨-, hag | ⟨g₁, hg₁, hn, ho₁⟩⟩ := h.agree _ hpath o (h.seen g List.mem_cons_self o hseen)
    · rw [Fs.content_of_lookup ((h.lookup _).trans hcur.cache), h.nas,
        Fs.content_of_lookup hcur.nas] at hag
      exact hag
    · rcases List.mem_cons.mp hg₁ with rfl | hg₁
      · exact absurd ho₁ howed
      · have hside : (w.fds fd).map (·.side) = some .cache := by rw [h.fds, hfd]; rfl
        have := hapart hside g₁ hg₁ hn o ho₁
        omega

/-- The invariant is upheld, whatever the requests are restricted to beyond the range of the
    sizes. -/
theorem Shared.upheld (hbs : 0 < cfg.blockSize) (hl : Layout cfg P w₀) {calm : Prop}
    {may : List Reading → Reading → Call → World → Prop}
    (hroom : ∀ gs g op w, may gs g op w → SizesFit gs g op w)
    (hcalm : calm → ∀ gs g op w, may gs g op w → StoredFirst cfg.blockSize gs g op w) :
    Upheld (env succeeds True) (Reading.next cfg.blockSize) may (Rely cfg P w₀ calm)
      (Proper cfg w₀) (Shared cfg P w₀) where
  rely g gs op w h hmay := h.rely hbs fun hc => hcalm hc gs g op w hmay
  perm _ _ _ hp h := h.perm hp
  call g gs op c w h hc hmay hok := by
    refine h.call hl hc (fun x n hop => ?_) hok
    subst hop
    exact hroom gs g _ w hmay x rfl

end Upheld

-- ============================================================================
-- Each request alone
-- ============================================================================

section Alone

variable {cfg : Config} {P : Path → Prop} {w₀ : World} {calm : Prop} {g : Reading}

/-- One request, others changing the world between its calls. -/
abbrev amidReads (cfg : Config) (P : Path → Prop) (w₀ : World) (calm : Prop) :
    Env Call Call.Reply Reading (Choice × World) :=
  (env succeeds True).amid (Reading.next cfg.blockSize) (Rely cfg P w₀ calm) (Proper cfg w₀)

theorem wp_amid_ask {op : Call} {Q : op.Reply → Reading → Prop}
    (h : ∀ c w, Rely cfg P w₀ calm g op w → succeeds c op w →
      Proper cfg w₀ op (g.next cfg.blockSize op (handle c op w).1) ∧
        Q (handle c op w).1 (g.next cfg.blockSize op (handle c op w).1)) :
    Prog.wp (amidReads cfg P w₀ calm) (ask op) Q g :=
  wp_amid_call.mpr h

/-- A call that adds nothing to what the request knows. -/
theorem wp_amid_skip {op : Call} {Q : op.Reply → Reading → Prop} (hsound : g.pending ≠ .broken)
    (hown : OwnCall cfg w₀ g.request op) (hnext : ∀ r, g.next cfg.blockSize op r = g)
    (hQ : ∀ c w, Rely cfg P w₀ calm g op w → succeeds c op w → Q (handle c op w).1 g) :
    Prog.wp (amidReads cfg P w₀ calm) (ask op) Q g := by
  refine wp_amid_ask fun c w hrely hc => ?_
  rw [hnext]
  exact ⟨⟨hown, hsound⟩, hQ c w hrely hc⟩

theorem wp_amid_loadHandle {dualFH : DualFileHandle} {Q : DualFileHandle → Reading → Prop}
    (hsound : g.pending ≠ .broken) {fh : Nat} (hh : w₀.handles fh = some dualFH)
    (hQ : Q dualFH g) : Prog.wp (amidReads cfg P w₀ calm) (ask (.loadHandle fh)) Q g := by
  refine wp_amid_skip hsound trivial (fun _ => rfl) fun c w hrely _ => ?_
  simpa only [handle, hrely.handles, hh, Option.getD_some] using hQ

theorem wp_amid_getMetaBlockSize {Q : Nat → Reading → Prop} (hsound : g.pending ≠ .broken)
    (hQ : Q cfg.blockSize g) :
    Prog.wp (amidReads cfg P w₀ calm) (ask .getMetaBlockSize) Q g := by
  refine wp_amid_skip hsound trivial (fun _ => rfl) fun c w hrely _ => ?_
  simpa only [handle, hrely.blockSize] using hQ

/-- What a read of an open file returns. -/
theorem pread_of_succeeds {w : World} {c : Choice} {fd : Int} {n off : Nat} {f : OpenFile}
    (hfd : w.fds fd = some f) (hc : succeeds c (.pread fd n off) w) :
    (handle c (.pread fd n off) w).1 =
      .ok (Posix.pread ((w.fs f.side).inode f.ino).data n off) := by
  have hread := wp_pread (S := True) (Q := fun r _ =>
    r = .ok (Posix.pread ((w.fs f.side).inode f.ino).data n off))
      allSucceed_succeeds hfd fun _ => rfl
  simp only [ask, wp_call, Prog.wp_ret] at hread
  exact hread c hc

/-- A block is looked up: it is recorded, or the request learns nothing. -/
theorem wp_amid_isBlkInCache {o : Nat} {Q : Int → Reading → Prop} (hsound : g.pending ≠ .broken)
    (hmiss : Q 0 g) (hhit : Q 1 { g with seen := o :: g.seen }) :
    Prog.wp (amidReads cfg P w₀ calm) (isBlkInCache g.request.name o) Q g := by
  unfold isBlkInCache lookupRow
  rw [Prog.wp_bind]
  refine wp_amid_ask fun c w _ hc => ⟨⟨rfl, ?_⟩, ?_⟩
  · exact hsound
  · simp only [handle, World.select_eq hc.1, Reading.next]
    cases w.db.selectBlockId o g.request.name with
    | false => simpa using hmiss
    | true =>
        simp only [if_true, ne_eq, not_true_eq_false, if_false, Prog.wp_bind]
        refine wp_amid_skip hsound trivial (fun _ => rfl) fun c' w' _ hc' => ?_
        simpa [handle, World.select_eq hc'.1, finalizeOk] using hhit

/-- The blocks reported as hits have been seen. -/
theorem wp_amid_areBlocksInCache {blkArr : List Nat} {Q : Int × List Int → Reading → Prop}
    (hsound : g.pending ≠ .broken)
    (hQ : ∀ (total : Int) (hits : List Int) (seen : List Nat), hits.length = blkArr.length →
      (∀ o ∈ g.seen, o ∈ seen) →
      (∀ (i : Nat) hit, hits[i]? = some hit → hit ≠ 0 → ∃ o, blkArr[i]? = some o ∧ o ∈ seen) →
      (0 < total → ∀ o ∈ blkArr, o ∈ seen) → Q (total, hits) { g with seen }) :
    Prog.wp (amidReads cfg P w₀ calm) (areBlocksInCache g.request.name blkArr) Q g := by
  refine Prog.wp_mono (Prog.wp_foldlM (I := fun done (acc : Int × List Int) g' =>
    acc.2.length = done.length ∧ ∃ seen, g' = { g with seen } ∧ (∀ o ∈ g.seen, o ∈ seen) ∧
      (∀ (i : Nat) hit, acc.2[i]? = some hit → hit ≠ 0 → ∃ o, done[i]? = some o ∧ o ∈ seen) ∧
      (0 < acc.1 → ∀ o ∈ done, o ∈ seen)) ?_ ?_) ?_
  · exact ⟨rfl, g.seen, rfl, fun _ => id, fun i hit h => by simp at h, fun _ o ho => by simp at ho⟩
  · rintro done x rest acc g' - ⟨hlen, seen, rfl, hmono, hhits, htotal⟩
    rw [Prog.wp_bind]
    -- one more entry, for a block that has been seen if the entry says so
    have hentry : ∀ (seen' : List Nat) (hit : Int), (∀ o ∈ seen, o ∈ seen') →
        (hit ≠ 0 → x ∈ seen') → ∀ (i : Nat) h, (acc.2 ++ [hit])[i]? = some h → h ≠ 0 →
        ∃ o, (done ++ [x])[i]? = some o ∧ o ∈ seen' := by
      intro seen' hit hsub hx i h hi hne
      rcases Nat.lt_trichotomy i acc.2.length with hlt | heq | hgt
      · rw [List.getElem?_append_left hlt] at hi
        obtain ⟨o, ho, hin⟩ := hhits i h hi hne
        exact ⟨o, by rw [List.getElem?_append_left (by omega)]; exact ho, hsub o hin⟩
      · subst heq
        rw [List.getElem?_concat_length] at hi
        obtain rfl := Option.some.inj hi
        exact ⟨x, by rw [hlen, List.getElem?_concat_length], hx hne⟩
      · rw [List.getElem?_eq_none (by simp; omega)] at hi
        exact absurd hi (by simp)
    refine wp_amid_isBlkInCache hsound ?_ ?_
    · refine ⟨by simp [hlen], seen, rfl, hmono, hentry seen 0 (fun _ => id) (by simp), ?_⟩
      simp
    · refine ⟨by simp [hlen], x :: seen, rfl, fun o ho => List.mem_cons_of_mem _ (hmono o ho),
        hentry _ 1 (fun o ho => List.mem_cons_of_mem _ ho) fun _ => List.mem_cons_self, ?_⟩
      intro hpos o ho
      rcases List.mem_append.mp ho with ho | ho
      · exact List.mem_cons_of_mem _ (htotal (by simpa using hpos) o ho)
      · rw [List.mem_singleton.mp ho]
        exact List.mem_cons_self
  · rintro ⟨total, hits⟩ g' ⟨hlen, seen, rfl, hmono, hhits, htotal⟩
    exact hQ total hits seen hlen hmono hhits htotal

/-- The row, the column, the counter.  The block is recorded afterwards, and is owed if it is
    this request that has recorded it. -/
theorem wp_amid_insertBlock {o : Nat} {Q : Int → Reading → Prop} (hidle : g.pending = .idle)
    (hwindow : o ∈ g.request.window cfg)
    (hQ : ∀ r owed, owed = g.owed ∨ owed = o :: g.owed →
      Q r { g with seen := o :: g.seen, owed }) :
    Prog.wp (amidReads cfg P w₀ calm) (insertBlock g.request.name o) Q g := by
  unfold insertBlock
  rw [Prog.wp_bind]
  refine wp_amid_ask fun c w _ hc => ?_
  cases hi : w.db.insertDatablock o g.request.name c.now with
  | none =>
      simp only [handle, hi, World.sql_none, tests_error, Reading.next, Pending.next, reduceCtorEq,
        if_false, Prog.wp_pure]
      exact ⟨⟨⟨rfl, hwindow⟩, hidle ▸ by simp⟩, hQ _ _ (.inl rfl)⟩
  | some db =>
      simp only [handle, hi, World.sql_some hc.1, tests_done, Reading.next, Pending.next, hidle,
        if_true, Prog.wp_bind]
      refine ⟨⟨⟨rfl, hwindow⟩, by simp⟩, ?_⟩
      refine wp_amid_getMetaBlockSize (by simp) ?_
      rw [Prog.wp_bind]
      refine wp_amid_ask fun c₂ w₂ _ hc₂ => ?_
      simp only [handle, Reading.next, Pending.next, and_self, if_true, World.sql_some hc₂.1,
        tests_done, Prog.wp_bind]
      refine ⟨⟨trivial, by simp⟩, wp_amid_getMetaBlockSize (by simp) ?_⟩
      rw [Prog.wp_bind]
      refine wp_amid_ask fun _ _ _ _ => ?_
      simp only [Reading.next, Pending.next, if_true, Prog.wp_pure]
      refine ⟨⟨trivial, by simp⟩, ?_⟩
      rw [← hidle]
      exact hQ _ _ (.inr rfl)

/-- One block is written to the metadata. -/
theorem wp_amid_writeBlks {o : Nat} {Q : Int → Reading → Prop} (hidle : g.pending = .idle)
    (hwindow : o ∈ g.request.window cfg)
    (hQ : ∀ r seen owed, o ∈ seen → (∀ o' ∈ g.seen, o' ∈ seen) →
      (owed = g.owed ∨ owed = o :: g.owed) → Q r { g with seen, owed }) :
    Prog.wp (amidReads cfg P w₀ calm) (writeBlks g.request.name [o]) Q g := by
  have hsound : g.pending ≠ .broken := hidle ▸ by simp
  unfold writeBlks
  rw [Prog.wp_bind]
  refine wp_amid_areBlocksInCache hsound fun total hits seen hlen hmono hhits _ => ?_
  obtain ⟨hit, rfl⟩ := List.length_eq_one_iff.mp hlen
  simp only [List.zip_cons_cons, List.zip_nil_right, List.foldlM_cons, List.foldlM_nil,
    Prog.wp_bind]
  by_cases hne : hit ≠ 0
  · obtain ⟨o', ho', hin⟩ := hhits 0 hit rfl hne
    obtain rfl := Option.some.inj ho'
    rw [if_pos hne]
    unfold updateBlkTime
    rw [Prog.wp_bind, Prog.wp_bind]
    refine wp_amid_ask fun c w _ hc => ?_
    simp only [handle, World.sql_some hc.1, tests_done, Reading.next, Pending.next, Prog.wp_pure]
    exact ⟨⟨trivial, hsound⟩, hQ _ seen g.owed hin hmono (.inl rfl)⟩
  · rw [if_neg hne, Prog.wp_bind]
    refine wp_amid_insertBlock (g := { g with seen }) hidle hwindow fun r owed howed => ?_
    exact hQ _ _ owed List.mem_cons_self (fun o' ho' => List.mem_cons_of_mem _ (hmono o' ho')) howed

theorem wp_amid_evictionWait {fuel : Nat} {Q : Unit → Reading → Prop}
    (hsound : g.pending ≠ .broken) (hQ : Q () g) :
    Prog.wp (amidReads cfg P w₀ calm) (evictionWait cfg fuel) Q g := by
  induction fuel with
  | zero => exact trivial
  | succ fuel ih =>
      unfold evictionWait getCacheUsedSize
      rw [Prog.wp_bind]
      refine wp_amid_skip hsound trivial (fun _ => rfl) fun c w _ _ => ?_
      rw [Prog.wp_ite]
      split
      · exact ih
      · exact hQ

/-- A block of the window is recorded and stored. -/
theorem wp_amid_cfsCacheWrite {fuel : Nat} {buf : List UInt8} {off : Nat}
    {Q : Int → Reading → Prop} (hbs : 0 < cfg.blockSize) (hidle : g.pending = .idle)
    (howed : g.owed = []) {ni ci : Ino} (hcur : Current cfg w₀ g.request.path g.request.fh ni ci)
    (hwindow : off ∈ g.request.window cfg) (hlen : buf.length = cfg.blockSize)
    (hbuf : ∀ j < buf.length, off + j < (w₀.nas.inode ni).data.length →
      buf[j]? = (w₀.nas.inode ni).data[off + j]?)
    (hQ : ∀ r seen, off ∈ seen → (∀ o ∈ g.seen, o ∈ seen) → Q r { g with seen }) :
    Prog.wp (amidReads cfg P w₀ calm)
      (cfsCacheWrite cfg fuel g.request.name buf cfg.blockSize off g.request.fh) Q g := by
  have hsound : g.pending ≠ .broken := hidle ▸ by simp
  obtain ⟨dualFH, hdual, -⟩ := hcur.opened
  unfold cfsCacheWrite
  rw [Prog.wp_bind]
  refine wp_amid_loadHandle hsound hdual ?_
  rw [Prog.wp_bind, cfg.offsetArray_one hbs]
  refine wp_amid_evictionWait hsound ?_
  rw [Prog.wp_bind]
  refine wp_amid_writeBlks hidle hwindow fun _ seen owed hin hmono howed' => ?_
  rw [Prog.wp_bind]
  refine wp_amid_ask fun c w _ _ => ?_
  have hfilter : owed.filter (· ≠ off) = g.owed := by
    rcases howed' with rfl | rfl <;> simp [howed]
  refine ⟨⟨⟨cfg.mod_of_mem_window hwindow, hlen, ⟨dualFH, hdual, rfl⟩, fun ni' hni' => ?_⟩,
    hsound⟩, ?_⟩
  · obtain rfl : ni = ni' := Option.some.inj (hcur.nas.symm.trans hni')
    exact hbuf
  · simp only [Reading.next, hfilter, Prog.wp_pure]
    exact hQ _ seen hin hmono

/-- The first `n` bytes of `buf` are those of the NAS file from `lo` on. -/
def NasBytes (data : List UInt8) (lo n : Nat) (buf : List UInt8) : Prop :=
  ∀ j < n, lo + j < data.length → buf[j]? = data[lo + j]?

/-- A block is read from a file that agrees with the NAS file there. -/
theorem NasBytes.fill {data src buf : List UInt8} {lo pos n : Nat} (h : NasBytes data lo pos buf)
    (hroom : pos + n ≤ buf.length) (hsrc : Agree (lo + pos) (lo + pos + n) src data) :
    NasBytes data lo (pos + n) (fillBuf buf pos (.ok (Posix.pread src n (lo + pos)))) := by
  intro j hj hlt
  rw [fillBuf_getElem? hroom]
  by_cases hpos : pos ≤ j
  · have hidx : lo + pos + (j - pos) = lo + j := by omega
    have hin := hsrc.lt_length (i := lo + j) (by omega) (by omega) hlt
    rw [hidx, if_pos ⟨hpos, hj, hin⟩]
    exact hsrc _ (by omega) (by omega) hlt
  · rw [if_neg fun hin => hpos hin.1]
    exact h j (by omega) hlt

section Window

variable {dualFH : DualFileHandle} {ni ci : Ino} {lo : Nat}

/-- One turn of the loop of `cfs_read`. -/
theorem wp_amid_readBlock {fuel i : Nat} {hit : Int} {acc : Int × List UInt8}
    {Q : Int × List UInt8 → Reading → Prop} (hbs : 0 < cfg.blockSize) (hidle : g.pending = .idle)
    (howed : g.owed = []) (hcur : Current cfg w₀ g.request.path g.request.fh ni ci)
    (hdual : w₀.handles g.request.fh = some dualFH)
    (hwindow : lo + i * cfg.blockSize ∈ g.request.window cfg)
    (hhit : hit ≠ 0 → lo + i * cfg.blockSize ∈ g.seen)
    (hroom : i * cfg.blockSize + cfg.blockSize ≤ acc.2.length)
    (hbytes : calm → NasBytes (w₀.nas.inode ni).data lo (i * cfg.blockSize) acc.2)
    (hQ : ∀ (ret : Int) buf seen, lo + i * cfg.blockSize ∈ seen → (∀ o ∈ g.seen, o ∈ seen) →
      buf.length = acc.2.length →
      (calm → NasBytes (w₀.nas.inode ni).data lo (i * cfg.blockSize + cfg.blockSize) buf) →
      Q (ret, buf) { g with seen }) :
    Prog.wp (amidReads cfg P w₀ calm)
      (readBlock cfg fuel g.request.name lo g.request.fh dualFH acc i hit) Q g := by
  have hsound : g.pending ≠ .broken := hidle ▸ by simp
  obtain ⟨dualFH', hdual', ⟨r₁, wr₁, ap, hnas⟩, r₂, wr₂, hcache⟩ := hcur.opened
  obtain rfl : dualFH' = dualFH := Option.some.inj (hdual'.symm.trans hdual)
  unfold readBlock
  simp only [Prog.wp_ite]
  split
  · next hne =>
      rw [Prog.wp_bind]
      refine wp_amid_skip hsound trivial (fun _ => rfl) fun c w hrely hc => ?_
      rw [pread_of_succeeds (by rw [hrely.fds]; exact hcache) hc]
      refine hQ _ _ g.seen (hhit hne) (fun _ => id) (fillBuf_length hroom) fun hcalm => ?_
      refine (hbytes hcalm).fill hroom ?_
      exact hrely.cached hcalm _ _ _ _ _ ni ci rfl hcur hcache _ (hhit hne)
        (by rw [howed]; exact List.not_mem_nil) (le_refl _) (le_refl _)
  · next heq =>
      rw [Prog.wp_bind]
      refine wp_amid_skip hsound trivial (fun _ => rfl) fun c w hrely hc => ?_
      rw [pread_of_succeeds (by rw [hrely.fds]; exact hnas) hc, Prog.wp_bind]
      obtain ⟨hslice, hsame⟩ := slice_fillBuf hroom (w₀.nas.inode ni).data
        (lo + i * cfg.blockSize)
      simp only [World.fs, hrely.nas]
      refine wp_amid_cfsCacheWrite hbs hidle howed hcur hwindow hslice (fun j hj => ?_)
        fun _ seen hin hmono => ?_
      · exact hsame j (hslice ▸ hj)
      · refine hQ _ _ seen hin hmono (fillBuf_length hroom) fun hcalm => ?_
        exact (hbytes hcalm).fill hroom fun _ _ _ _ => rfl

/-- The loop of `cfs_read`. -/
theorem wp_amid_readLoop {fuel : Nat} {hits : List Int} {cacheBuf : List UInt8}
    (hbs : 0 < cfg.blockSize) (hidle : g.pending = .idle) (howed : g.owed = [])
    (hcur : Current cfg w₀ g.request.path g.request.fh ni ci)
    (hdual : w₀.handles g.request.fh = some dualFH)
    (hlo : lo = cfg.alignLowerOffset g.request.offset)
    (hlen : hits.length = cfg.windowBlocks g.request.size)
    (hhits : ∀ (i : Nat) hit, hits[i]? = some hit → hit ≠ 0 → lo + i * cfg.blockSize ∈ g.seen)
    (hbuf : cacheBuf.length = cfg.alignedSize g.request.size) :
    Prog.wp (amidReads cfg P w₀ calm)
      (((List.range (cfg.windowBlocks g.request.size)).zip hits).foldlM
        (fun acc e => readBlock cfg fuel g.request.name lo g.request.fh dualFH acc e.1 e.2)
        (0, cacheBuf))
      (fun acc g' => ∃ seen, g' = { g with seen } ∧ (∀ o ∈ g.request.window cfg, o ∈ seen) ∧
        acc.2.length = cfg.alignedSize g.request.size ∧ (calm →
          NasBytes (w₀.nas.inode ni).data lo (cfg.alignedSize g.request.size) acc.2)) g := by
  refine Prog.wp_mono (Prog.wp_foldlM (I := fun done (acc : Int × List UInt8) g' =>
    ∃ seen, g' = { g with seen } ∧ (∀ o ∈ g.seen, o ∈ seen) ∧
      (∀ k < done.length, lo + k * cfg.blockSize ∈ seen) ∧
      acc.2.length = cfg.alignedSize g.request.size ∧
      (calm → NasBytes (w₀.nas.inode ni).data lo (done.length * cfg.blockSize) acc.2)) ?_ ?_) ?_
  · exact ⟨g.seen, rfl, fun _ => id, fun k hk => absurd hk (Nat.not_lt_zero _), hbuf,
      fun _ j hj => by simp at hj⟩
  · rintro done ⟨i, hit⟩ rest acc g' hzip ⟨seen, rfl, hmono, hdone, hacc, hbytes⟩
    -- the turn is about the next block
    have hget : ((List.range (cfg.windowBlocks g.request.size)).zip hits)[done.length]? =
        some (i, hit) := by
      rw [hzip, List.getElem?_append_right (le_refl _), Nat.sub_self, List.getElem?_cons_zero]
    obtain ⟨hi, hhit⟩ := List.getElem?_zip_eq_some.mp hget
    obtain ⟨hlt, hidx⟩ := List.getElem?_eq_some_iff.mp hi
    rw [List.getElem_range] at hidx
    rw [List.length_range] at hlt
    dsimp only at hidx hhit
    subst hidx
    rw [List.length_append, List.length_singleton]
    refine wp_amid_readBlock (g := { g with seen }) hbs hidle howed hcur hdual ?_ ?_ ?_ hbytes ?_
    · rw [hlo]
      exact cfg.mem_offsetArray.mpr ⟨_, hlt, rfl⟩
    · exact fun hne => hmono _ (hhits _ _ hhit hne)
    · rw [hacc]
      exact cfg.mul_add_le_alignedSize hlt
    · intro ret buf seen' hin hmono' hbuflen hbytes'
      refine ⟨seen', rfl, fun o ho => hmono' o (hmono o ho), fun k hk => ?_, ?_, ?_⟩
      · rcases Nat.lt_succ_iff_lt_or_eq.mp hk with hk | rfl
        · exact hmono' _ (hdone k hk)
        · exact hin
      · exact hbuflen.trans hacc
      · rw [Nat.succ_mul]
        exact hbytes'
  · rintro acc g' ⟨seen, rfl, -, hdone, hacc, hbytes⟩
    rw [List.length_zip, List.length_range, hlen, Nat.min_self] at hdone hbytes
    refine ⟨seen, rfl, fun o ho => ?_, hacc, ?_⟩
    · obtain ⟨k, hk, rfl⟩ := cfg.mem_offsetArray.mp ho
      rw [← hlo]
      exact hdone k hk
    · rw [cfg.alignedSize_eq]
      exact hbytes

end Window

/-- What a request has done when it returns: it owes nothing, its window is recorded, its buffer
    is full, and, where all reads are `StoredFirst`, the bytes of its window are those of the NAS
    file. -/
structure ReadServed (cfg : Config) (w₀ : World) (calm : Prop) (r : Int × List UInt8)
    (g : Reading) : Prop where
  idle : g.pending = .idle
  owed : g.owed = []
  window : ∀ o ∈ g.request.window cfg, o ∈ g.seen
  length : r.2.length = g.request.size
  bytes : calm → ∀ ni, w₀.nas.lookup (cfg.fullNasPath g.request.path) = some ni →
    ∀ i < g.request.size, g.request.offset + i < (w₀.nas.inode ni).data.length →
      g.request.offset + i < cfg.alignLowerOffset g.request.offset +
        cfg.alignedSize g.request.size →
      r.2[i]? = (w₀.nas.inode ni).data[g.request.offset + i]?

theorem wp_amid_copyOut {cacheBuf : List UInt8} {pos size : Nat} {Q : List UInt8 → Reading → Prop}
    (hsound : g.pending ≠ .broken)
    (hQ : ∀ buf : List UInt8, buf.length = size →
      (∀ i < size, pos + i < cacheBuf.length → buf[i]? = cacheBuf[pos + i]?) → Q buf g) :
    Prog.wp (amidReads cfg P w₀ calm) (copyOut cacheBuf pos size) Q g := by
  have hbytes : ((cacheBuf.drop pos).take size).length = min size (cacheBuf.length - pos) := by
    rw [List.length_take, List.length_drop]
  have hget : ∀ i < size, ((cacheBuf.drop pos).take size)[i]? = cacheBuf[pos + i]? := by
    intro i hi
    rw [List.getElem?_take, if_pos hi, List.getElem?_drop]
  unfold copyOut
  simp only [Prog.wp_ite]
  split
  · next hshort =>
      rw [Prog.wp_bind]
      refine wp_amid_skip hsound trivial (fun _ => rfl) fun c w _ _ => hQ _ ?_ fun i hi hlt => ?_
      · simp only [handle, List.length_append, List.length_map, List.length_range]
        omega
      · rw [List.getElem?_append_left (by omega), hget i hi]
  · next hfull => exact hQ _ (by omega) fun i hi _ => hget i hi

/-- One request from its first call to its last. -/
theorem wp_amid_cfsRead {fuel : Nat} (hbs : 0 < cfg.blockSize) (hready : g.request.Ready cfg P w₀)
    (hidle : g.pending = .idle) (howed : g.owed = []) :
    Prog.wp (amidReads cfg P w₀ calm) (g.request.prog cfg fuel) (ReadServed cfg w₀ calm) g := by
  have hsound : g.pending ≠ .broken := hidle ▸ by simp
  obtain ⟨ni, ci, hcur⟩ := hready.current
  obtain ⟨dualFH, hdual, -, r, wr, hcache⟩ := hcur.opened
  have hlower := cfg.alignLowerOffset_le g.request.offset
  -- what is left to do once the aligned buffer has been filled
  have hcopy : ∀ (acc : Int × List UInt8) (seen : List Nat),
      (∀ o ∈ g.request.window cfg, o ∈ seen) →
      acc.2.length = cfg.alignedSize g.request.size →
      (calm → NasBytes (w₀.nas.inode ni).data (cfg.alignLowerOffset g.request.offset)
        (cfg.alignedSize g.request.size) acc.2) →
      Prog.wp (amidReads cfg P w₀ calm) (do
        let buf ← copyOut acc.2 (g.request.offset - cfg.alignLowerOffset g.request.offset)
          g.request.size
        pure (acc.1, buf)) (ReadServed cfg w₀ calm) { g with seen } := by
    intro acc seen hwindow hlen hbytes
    rw [Prog.wp_bind]
    refine wp_amid_copyOut hsound fun buf hsize hbuf => ⟨hidle, howed, hwindow, hsize, ?_⟩
    intro hcalm ni' hni' i hi hlt hin
    obtain rfl : ni = ni' := Option.some.inj (hcur.nas.symm.trans hni')
    have hbyte := hbytes hcalm (g.request.offset - cfg.alignLowerOffset g.request.offset + i)
      (by dsimp only at hin; omega)
    have hpos : cfg.alignLowerOffset g.request.offset +
        (g.request.offset - cfg.alignLowerOffset g.request.offset + i) = g.request.offset + i := by
      omega
    rw [hpos] at hbyte
    rw [hbuf i hi (by dsimp only at hin; omega)]
    exact hbyte hlt
  unfold ReadRequest.prog cfsRead
  rw [Prog.wp_bind]
  refine wp_amid_areBlocksInCache hsound fun total hits seen hlen hmono hhits htotal => ?_
  rw [Config.offsetArray, List.length_map, List.length_range] at hlen
  rw [Prog.wp_bind]
  refine wp_amid_loadHandle (g := { g with seen }) hsound hdual ?_
  rw [Prog.wp_bind]
  refine wp_amid_skip (g := { g with seen }) hsound trivial (fun _ => rfl) fun c w _ _ => ?_
  rw [Prog.wp_bind]
  have hbuf : ((List.range (cfg.alignedSize g.request.size)).map c.junk).length =
      cfg.alignedSize g.request.size := by rw [List.length_map, List.length_range]
  simp only [handle]
  generalize (List.range (cfg.alignedSize g.request.size)).map c.junk = cacheBuf at hbuf
  unfold readWindow
  by_cases hpos : 0 < total
  · -- every block has been seen: one read from the cache file
    have hall := htotal hpos
    simp only [hpos, decide_true, if_true, Prog.wp_bind]
    refine wp_amid_skip (g := { g with seen }) hsound trivial (fun _ => rfl)
      fun c' w' hrely hc' => ?_
    rw [pread_of_succeeds (by rw [hrely.fds]; exact hcache) hc']
    refine hcopy (_, _) seen hall ?_ fun hcalm => ?_
    · rw [fillBuf_length (by omega), hbuf]
    · -- the blocks of the window cover it
      have hag : Agree (cfg.alignLowerOffset g.request.offset + 0)
          (cfg.alignLowerOffset g.request.offset + 0 + cfg.alignedSize g.request.size)
          (w'.cache.inode ci).data (w₀.nas.inode ni).data := by
        intro i hlo hhi hlt
        have hj : i - cfg.alignLowerOffset g.request.offset < cfg.alignedSize g.request.size := by
          omega
        have hin : _ ∈ cfg.window g.request.offset g.request.size := cfg.block_mem_window hbs hj
        obtain ⟨k, hk, heq⟩ := cfg.mem_offsetArray.mp hin
        have hfit := cfg.mul_add_le_alignedSize hk
        have hdiv := Nat.div_add_mod' (i - cfg.alignLowerOffset g.request.offset) cfg.blockSize
        have hmod := Nat.mod_lt (i - cfg.alignLowerOffset g.request.offset) hbs
        refine hrely.cached hcalm _ _ _ _ _ ni ci rfl hcur hcache _ (hall _ hin) ?_
          (Nat.le_add_right _ _) (by omega) i (by omega) (by omega) hlt
        dsimp only
        rw [howed]
        exact List.not_mem_nil
      have hempty : NasBytes (w₀.nas.inode ni).data (cfg.alignLowerOffset g.request.offset) 0
          cacheBuf := fun j hj => absurd hj (Nat.not_lt_zero j)
      have hfill := hempty.fill (by omega) hag
      rw [Nat.zero_add] at hfill
      exact hfill
  · simp only [hpos, decide_false, Bool.false_eq_true, if_false]
    refine Prog.wp_mono (wp_amid_readLoop (g := { g with seen }) hbs hidle howed hcur hdual rfl hlen
      (fun i hit hi hne => ?_) hbuf) ?_
    · obtain ⟨o, ho, hin⟩ := hhits i hit hi hne
      obtain ⟨hlt, rfl⟩ := List.getElem?_eq_some_iff.mp ho
      simpa [Config.offsetArray] using hin
    · rintro acc g' ⟨seen', rfl, hwindow, hacc, hbytes⟩
      exact hcopy acc seen' hwindow hacc hbytes

end Alone

-- ============================================================================
-- Whole runs
-- ============================================================================

/-- Requests that are served together. -/
abbrev Readers : Type := Pool Call Call.Reply Reading World (Int × List UInt8)

/-- The requests before their first call. -/
def Readers.start (cfg : Config) (fuel : Nat) (rqs : List ReadRequest) (w : World) : Readers :=
  ⟨rqs.map fun rq => ⟨rq.prog cfg fuel, { request := rq }⟩, w⟩

theorem Readers.pasts_start (cfg : Config) (fuel : Nat) (rqs : List ReadRequest) (w : World) :
    (Readers.start cfg fuel rqs w).pasts = rqs.map fun rq => { request := rq } := by
  simp only [Pool.pasts, Readers.start, List.map_map, Function.comp_def]

section Run

variable {cfg : Config} {P : Path → Prop} {fuel : Nat} {rqs : List ReadRequest} {w : World}
  {p : Readers} {may : List Reading → Reading → Call → World → Prop}

/-- Before the requests nothing is owed. -/
theorem Shared.start (hl : Layout cfg P w) (hc : Coherent cfg P w) (hs : SizesAgree w.metadata)
    (hlt : w.metadata.cacheUsedSize < 2 ^ 64) (hready : ∀ rq ∈ rqs, rq.Ready cfg P w) :
    Shared cfg P w (rqs.map fun rq => { request := rq }) w where
  ready g hg := by
    obtain ⟨rq, hrq, rfl⟩ := List.mem_map.mp hg
    exact hready rq hrq
  nas := rfl
  fds := rfl
  handles := rfl
  lookup _ := rfl
  kind _ := rfl
  nextIno := rfl
  tallied := by
    have hidle : (rqs.map fun rq => ({ request := rq } : Reading)).map (·.pending) =
        List.replicate rqs.length .idle := by
      rw [List.map_map]
      exact List.map_const'
    rw [hidle, ← hl.metaBlockSize]
    exact .start hs hlt _
  hasFile _ := Iff.rfl
  kept _ _ := id
  recorded _ _ := .inl
  seen g hg o ho := by
    obtain ⟨rq, -, rfl⟩ := List.mem_map.mp hg
    exact absurd ho List.not_mem_nil
  agree q hq o ho := by
    obtain ⟨hmod, hag⟩ := hc q hq o ho
    exact ⟨hmod, .inl hag⟩

/-- What holds throughout a run. -/
theorem Readers.upheld (hbs : 0 < cfg.blockSize) (hl : Layout cfg P w) (hc : Coherent cfg P w)
    (hs : SizesAgree w.metadata) (hlt : w.metadata.cacheUsedSize < 2 ^ 64)
    (hready : ∀ rq ∈ rqs, rq.Ready cfg P w) (calm : Prop)
    (hroom : ∀ gs g op w, may gs g op w → SizesFit gs g op w)
    (hcalm : calm → ∀ gs g op w, may gs g op w → StoredFirst cfg.blockSize gs g op w)
    (hrun : Pool.Steps (env succeeds True) (Reading.next cfg.blockSize) may
      (Readers.start cfg fuel rqs w) p) :
    Shared cfg P w p.pasts p.state ∧ ∀ t ∈ p.threads,
      Prog.wp (amidReads cfg P w calm) t.prog (ReadServed cfg w calm) t.past := by
  refine Pool.Steps.upheld (Shared.upheld hbs hl hroom hcalm) hrun ?_ fun t ht => ?_
  · rw [Readers.pasts_start]
    exact .start hl hc hs hlt hready
  · obtain ⟨rq, hrq, rfl⟩ := List.mem_map.mp ht
    exact wp_amid_cfsRead (g := { request := rq }) hbs (hready rq hrq) rfl rfl

/-- Reads that run at the same time end, in any order of their calls, as if they had been served
    one after the other: their windows are recorded and nothing else, every recorded block
    agrees with the NAS file, and the sizes agree. -/
theorem shared_reads_settle (hbs : 0 < cfg.blockSize) (hl : Layout cfg P w)
    (hc : Coherent cfg P w) (hs : SizesAgree w.metadata)
    (hlt : w.metadata.cacheUsedSize < 2 ^ 64) (hready : ∀ rq ∈ rqs, rq.Ready cfg P w)
    (hrun : Pool.Steps (env succeeds True) (Reading.next cfg.blockSize) SizesFit
      (Readers.start cfg fuel rqs w) p) (hfin : p.Finished) :
    Layout cfg P p.state ∧ Coherent cfg P p.state ∧ SizesAgree p.state.metadata ∧
      p.state.nas = w.nas ∧ ∀ n o, p.state.db.Recorded n o ↔
        w.db.Recorded n o ∨ ∃ rq ∈ rqs, n = rq.name ∧ o ∈ rq.window cfg := by
  obtain ⟨h, hwp⟩ := Readers.upheld hbs hl hc hs hlt hready False (fun _ _ _ _ => id)
    False.elim hrun
  have hserved : ∀ g ∈ p.pasts, ∃ r, ReadServed cfg w False r g := by
    intro g hg
    obtain ⟨t, ht, rfl⟩ := List.mem_map.mp hg
    obtain ⟨r, -, hr⟩ := Pool.returned_of_finished hfin hwp t ht
    exact ⟨r, hr⟩
  have hrequests : p.pasts.map (·.request) = rqs := by
    rw [Pool.Steps.map_pasts (fun _ _ _ => Reading.request_next) hrun, Readers.pasts_start,
      List.map_map]
    exact List.map_id _
  refine ⟨?_, fun q hq o ho => ?_, ?_, h.nas, fun n o => ⟨fun ho => ?_, ?_⟩⟩
  · exact hl.congr h.tallied.wf (h.tallied.blockSize.trans hl.metaBlockSize.symm) h.hasFile
      (fun _ => by rw [h.nas]) (fun _ => by rw [h.nas]) h.lookup h.kind h.nextIno
  · obtain ⟨hmod, hag | ⟨g, hg, -, howed⟩⟩ := h.agree q hq o ho
    · exact ⟨hmod, hag⟩
    · obtain ⟨r, hr⟩ := hserved g hg
      rw [hr.owed] at howed
      exact absurd howed List.not_mem_nil
  · refine h.tallied.finish fun a ha => ?_
    obtain ⟨g, hg, rfl⟩ := List.mem_map.mp ha
    obtain ⟨r, hr⟩ := hserved g hg
    exact .inl hr.idle
  · rcases h.recorded n o ho with h₀ | ⟨g, hg, hn, hin⟩
    · exact .inl h₀
    · exact .inr ⟨g.request, hrequests ▸ List.mem_map.mpr ⟨g, hg, rfl⟩, hn, hin⟩
  · rintro (h₀ | ⟨rq, hrq, rfl, hin⟩)
    · exact h.kept n o h₀
    · rw [← hrequests] at hrq
      obtain ⟨g, hg, rfl⟩ := List.mem_map.mp hrq
      obtain ⟨r, hr⟩ := hserved g hg
      exact h.seen g hg o (hr.window o hin)

/-- When no block is read from the cache file while another request owes it, every request that
    has returned has filled its buffer and delivered the bytes of the NAS file, as far as its
    window reaches. -/
theorem shared_reads_deliver (hbs : 0 < cfg.blockSize) (hl : Layout cfg P w)
    (hc : Coherent cfg P w) (hs : SizesAgree w.metadata)
    (hlt : w.metadata.cacheUsedSize < 2 ^ 64) (hready : ∀ rq ∈ rqs, rq.Ready cfg P w)
    (hrun : Pool.Steps (env succeeds True) (Reading.next cfg.blockSize)
      (StoredFirst cfg.blockSize) (Readers.start cfg fuel rqs w) p)
    {t : Thread Call Call.Reply Reading (Int × List UInt8)} (ht : t ∈ p.threads) {ret : Int}
    {buf : List UInt8} (hret : t.prog = .ret (ret, buf)) {ni : Ino}
    (hni : w.nas.lookup (cfg.fullNasPath t.past.request.path) = some ni) :
    buf.length = t.past.request.size ∧ ∀ i < t.past.request.size,
      t.past.request.offset + i < (w.nas.inode ni).data.length →
      t.past.request.offset + i < cfg.alignLowerOffset t.past.request.offset +
        cfg.alignedSize t.past.request.size →
      buf[i]? = (w.nas.inode ni).data[t.past.request.offset + i]? := by
  have hroom : ∀ gs g op w, StoredFirst cfg.blockSize gs g op w → SizesFit gs g op w := by
    intro gs g op w h
    cases op with
    | pread fd n off => exact fun x hx => absurd hx (by simp [Call.growth?])
    | _ => exact h
  obtain ⟨-, hwp⟩ := Readers.upheld hbs hl hc hs hlt hready True hroom
    (fun _ _ _ _ _ => id) hrun
  have hserved := hwp t ht
  rw [hret, Prog.wp_ret] at hserved
  exact ⟨hserved.length, hserved.bytes trivial ni hni⟩

/-- Two reads of one block of which the second starts when the first has recorded the block and
    not stored it: it is served from an empty cache file. -/
example : ((Pool.schedule (env succeeds True) (Reading.next 4) SizesFit
    ((List.replicate 8 0 ++ List.replicate 5 1 ++ List.replicate 5 0).map fun i => (i, {}))
    (Readers.start sampleConfig 1 [⟨samplePath, 4, 0, 1⟩, ⟨samplePath, 4, 0, 1⟩]
      (sampleOpened [1, 2, 3, 4, 5, 6, 7, 8]))).map fun p => p.threads.map (·.prog.value?)) =
    some [some (4, [1, 2, 3, 4]), some (0, [0, 0, 0, 0])] := by decide

/-- The opened file of two blocks. -/
theorem sampleOpened_settled : Layout sampleConfig (· = samplePath)
      (sampleOpened [1, 2, 3, 4, 5, 6, 7, 8]) ∧
    Coherent sampleConfig (· = samplePath) (sampleOpened [1, 2, 3, 4, 5, 6, 7, 8]) ∧
    SizesAgree (sampleOpened [1, 2, 3, 4, 5, 6, 7, 8]).metadata := by
  have hrun : Run succeeds sampleConfig (Clean sampleConfig (· = samplePath))
      (sampleWorld [1, 2, 3, 4, 5, 6, 7, 8]) (sampleOpened [1, 2, 3, 4, 5, 6, 7, 8]) :=
    .single (step_served {} (.cfsOpen samplePath 2) (by decide) rfl)
  obtain ⟨hl, hc⟩ := Clean.run (by decide) (sampleWorld_fresh _) hrun
  exact ⟨hl, hc, hl.wf, by decide, by decide⟩

/-- Reads of the first block and of both blocks. -/
def sampleReads : List ReadRequest := [⟨samplePath, 4, 0, 1⟩, ⟨samplePath, 8, 0, 1⟩]

theorem sampleReads_ready : ∀ rq ∈ sampleReads,
    rq.Ready sampleConfig (· = samplePath) (sampleOpened [1, 2, 3, 4, 5, 6, 7, 8]) := by
  intro rq hrq
  have hargs : ∀ rq ∈ sampleReads, rq.path = samplePath ∧ rq.fh = 1 := by decide
  obtain ⟨hpath, hfh⟩ := hargs rq hrq
  refine ⟨hpath, ?_, 1, 2, ?_⟩
  · rw [ReadRequest.name, hpath]
    decide
  · rw [hpath, hfh]
    exact current_sampleOpened

/-- The two requests take turns: the second one finds the first block recorded before it is
    stored, and reads it when it is. -/
def sampleTurns : List (Nat × Choice) :=
  (List.replicate 8 0 ++ List.replicate 5 1 ++ List.replicate 5 0 ++ List.replicate 11 1).map
    fun i => (i, {})

theorem shared_reads_settle_turns : ∃ p : Readers, p.Finished ∧
    Coherent sampleConfig (· = samplePath) p.state ∧ SizesAgree p.state.metadata ∧
    ∀ n o, p.state.db.Recorded n o ↔
      (sampleOpened [1, 2, 3, 4, 5, 6, 7, 8]).db.Recorded n o ∨
        ∃ rq ∈ sampleReads, n = rq.name ∧ o ∈ rq.window sampleConfig := by
  have htest : ((Pool.schedule (env succeeds True) (Reading.next 4) SizesFit sampleTurns
      (Readers.start sampleConfig 1 sampleReads (sampleOpened [1, 2, 3, 4, 5, 6, 7, 8]))).any
      fun p => p.Finished) = true := by decide
  obtain ⟨p, hrun, hfin⟩ := Pool.steps_of_test htest
  obtain ⟨hl, hc, hs⟩ := sampleOpened_settled
  obtain ⟨-, hcoherent, hsizes, -, hrec⟩ := shared_reads_settle (by decide) hl hc hs (by decide)
    sampleReads_ready hrun (of_decide_eq_true hfin)
  exact ⟨p, of_decide_eq_true hfin, hcoherent, hsizes, hrec⟩

theorem shared_reads_deliver_turns : ∃ (p : Readers) (ret : Int) (buf : List UInt8),
    (∃ t ∈ p.threads, t.past.request = ⟨samplePath, 8, 0, 1⟩ ∧ t.prog = .ret (ret, buf)) ∧
    buf.length = 8 ∧ buf[2]? = ((sampleOpened [1, 2, 3, 4, 5, 6, 7, 8]).nas.inode 1).data[2]? := by
  have htest : ((Pool.schedule (env succeeds True) (Reading.next 4) (StoredFirst 4) sampleTurns
      (Readers.start sampleConfig 1 sampleReads (sampleOpened [1, 2, 3, 4, 5, 6, 7, 8]))).any
      fun p => p.threads.any fun t => t.prog.value? = some (8, [1, 2, 3, 4, 5, 6, 7, 8]) ∧
        t.past.request = ⟨samplePath, 8, 0, 1⟩) = true := by decide
  obtain ⟨p, hrun, hthread⟩ := Pool.steps_of_test htest
  obtain ⟨t, ht, htest⟩ := List.any_eq_true.mp hthread
  obtain ⟨hvalue, hrq⟩ := of_decide_eq_true htest
  have hret := Prog.eq_ret_of_value? hvalue
  obtain ⟨hl, hc, hs⟩ := sampleOpened_settled
  refine ⟨p, 8, [1, 2, 3, 4, 5, 6, 7, 8], ⟨t, ht, hrq, hret⟩, ?_⟩
  have hni : (sampleOpened [1, 2, 3, 4, 5, 6, 7, 8]).nas.lookup
      (sampleConfig.fullNasPath t.past.request.path) = some 1 := by rw [hrq]; decide
  obtain ⟨hsize, hbytes⟩ := shared_reads_deliver (by decide) hl hc hs (by decide) sampleReads_ready
    hrun ht hret hni
  rw [hrq] at hsize hbytes
  exact ⟨hsize, hbytes 2 (by decide) (by decide) (by decide)⟩

end Run

end CacheFs
