/-
  CacheFs.Leak

  What becomes of memory that nobody has written.

  `cfs_read` and `cfs_write` fill a freshly allocated buffer as far as the NAS file goes
  and store whole blocks of it, so bytes of the heap reach the cache file behind the end
  of the NAS file.  Two runs are compared here whose environments differ only in what
  such memory contains.  `Unwritten` keeps the account of the cache file bytes that come
  from it; all the rest of the two worlds stays equal (`Alike`).
-/

import CacheFs.Effect.Related
import CacheFs.Meta.Cold
import CacheFs.Transparency

namespace CacheFs

open CacheFs.Effect
open CacheFs.Posix

-- ============================================================================
-- Worlds that differ in unwritten bytes
-- ============================================================================

/-- The two choices differ at most in the content of memory nobody has written. -/
def SameButJunk (c d : Choice) : Prop := ∃ junk, d = { c with junk }

/-- The positions of cache files whose bytes come from such memory. -/
abbrev Unwritten := Ino → Nat → Prop

/-- The tree with other bytes in its files. -/
def Posix.Fs.withData (fs : Fs) (data : Ino → List UInt8) : Fs :=
  { fs with inode := fun i => { fs.inode i with data := data i } }

def World.withCacheData (w : World) (data : Ino → List UInt8) : World :=
  { w with cache := w.cache.withData data }

/-- The two worlds differ at most in cache file bytes that nobody has written. -/
def Alike (U : Unwritten) (w w' : World) : Prop :=
  ∃ data, w' = w.withCacheData data ∧ ∀ i, AgreeOff (U i) (w.cache.inode i).data (data i)

section WithData

variable {fs : Fs} {data : Ino → List UInt8} {w : World}

@[simp] theorem Posix.Fs.lookup_withData (p : Path) :
    (fs.withData data).lookup p = fs.lookup p := rfl

@[simp] theorem Posix.Fs.kind_withData (i : Ino) :
    ((fs.withData data).inode i).kind = (fs.inode i).kind := rfl

@[simp] theorem Posix.Fs.lookupError_withData (p : Path) :
    (fs.withData data).lookupError p = fs.lookupError p := rfl

@[simp] theorem Posix.Fs.entryError_withData (p : Path) :
    (fs.withData data).entryError p = fs.entryError p := rfl

@[simp] theorem Posix.Fs.follow_withData (fuel : Nat) (p : Path) :
    (fs.withData data).follow fuel p = fs.follow fuel p := by
  induction fuel generalizing p with
  | zero =>
      rw [Fs.follow, Fs.follow, lookup_withData, lookupError_withData]
      cases fs.lookup p with
      | none => rfl
      | some i =>
          dsimp only
          rw [kind_withData]
          cases (fs.inode i).kind <;> rfl
  | succ fuel ih =>
      rw [Fs.follow, Fs.follow, lookup_withData, lookupError_withData]
      cases fs.lookup p with
      | none => rfl
      | some i =>
          dsimp only
          rw [kind_withData]
          cases (fs.inode i).kind with
          | lnk t => exact ih _
          | reg | dir | fifo | special => rfl

theorem Posix.Fs.stat_withData {i : Ino} (h : (data i).length = (fs.inode i).data.length) :
    ((fs.withData data).inode i).stat = (fs.inode i).stat := by
  simp only [Fs.withData, Inode.stat, h]

theorem Posix.Fs.mkNode_withData (p : Path) (kind : Kind) (mode : Nat) (now : Int) :
    (fs.withData data).mkNode p kind mode now =
      (fs.mkNode p kind mode now).map fun fs' =>
        fs'.withData (Function.update data fs.nextIno []) := by
  rw [Fs.mkNode, Fs.mkNode]
  by_cases hp : (fs.lookup p).isSome = true
  · rw [if_pos hp, if_pos (show ((fs.withData data).lookup p).isSome = true from hp)]
    rfl
  · rw [if_neg hp, if_neg (show ¬ ((fs.withData data).lookup p).isSome = true from hp)]
    rw [entryError_withData]
    cases fs.entryError p with
    | some e => rfl
    | none =>
        simp only [Except.map, Except.ok.injEq, Fs.withData, Fs.mk.injEq, true_and, and_true]
        funext i
        by_cases hi : i = fs.nextIno
        · rw [hi]
          simp
        · simp [hi]

theorem Posix.Fs.unlink_withData (p : Path) :
    (fs.withData data).unlink p = (fs.unlink p).map fun fs' => fs'.withData data := by
  rw [Fs.unlink, Fs.unlink, lookup_withData, lookupError_withData]
  cases fs.lookup p with
  | none => rfl
  | some i =>
      dsimp only
      by_cases hdir : (fs.inode i).kind = .dir
      · rw [if_pos hdir, if_pos (show ((fs.withData data).inode i).kind = .dir from hdir)]
        rfl
      · rw [if_neg hdir, if_neg (show ¬ ((fs.withData data).inode i).kind = .dir from hdir)]
        rfl

theorem Posix.Fs.pwrite_withData (i : Ino) (bytes bytes' : List UInt8) (off : Nat) (now : Int)
    (hlen : bytes'.length = bytes.length) :
    (fs.withData data).pwrite i bytes' off now = (fs.pwrite i bytes off now).withData
      (Function.update data i (Posix.pwrite (data i) bytes' off)) := by
  unfold Fs.pwrite
  by_cases hb : bytes = []
  · have hb' : bytes' = [] := by rw [← List.length_eq_zero_iff, hlen, hb, List.length_nil]
    rw [if_pos hb, if_pos hb', hb', Posix.pwrite_nil, Function.update_eq_self]
  · have hb' : bytes' ≠ [] := by
      rw [← List.length_pos_iff, hlen]
      exact List.length_pos_iff.mpr hb
    rw [if_neg hb, if_neg hb']
    simp only [Fs.setData, Fs.setInode, Fs.withData, Fs.mk.injEq, true_and, and_true]
    funext j
    by_cases hj : j = i <;> simp [hj]

theorem Posix.Fs.setTime_withData (i : Ino) (time : Int) :
    (fs.withData data).setTime i time = (fs.setTime i time).withData data := by
  simp only [Fs.setTime, Fs.setInode, Fs.withData, Fs.mk.injEq, true_and, and_true]
  funext j
  by_cases hj : j = i <;> simp [hj]

theorem World.digIno_withCacheData (command : List Char) :
    (w.withCacheData data).digIno command = w.digIno command := by
  simp only [World.digIno, World.withCacheData, Fs.follow_withData]

end WithData

namespace Alike

variable {U V : Unwritten} {w w' : World}

theorem refl (U : Unwritten) (w : World) : Alike U w w :=
  ⟨fun i => (w.cache.inode i).data, rfl, fun _ => AgreeOff.refl _ _⟩

theorem mono (h : Alike U w w') (hUV : ∀ i j, U i j → V i j) : Alike V w w' := by
  obtain ⟨data, rfl, hag⟩ := h
  exact ⟨data, rfl, fun i => (hag i).mono (hUV i)⟩

theorem data (h : Alike U w w') (i : Ino) :
    AgreeOff (U i) (w.cache.inode i).data (w'.cache.inode i).data := by
  obtain ⟨data, rfl, hag⟩ := h
  exact hag i

theorem nas (h : Alike U w w') : w'.nas = w.nas := by
  obtain ⟨data, rfl, -⟩ := h
  rfl

theorem metadata (h : Alike U w w') : w'.metadata = w.metadata := by
  obtain ⟨data, rfl, -⟩ := h
  rfl

theorem fds (h : Alike U w w') : w'.fds = w.fds := by
  obtain ⟨data, rfl, -⟩ := h
  rfl

theorem handles (h : Alike U w w') : w'.handles = w.handles := by
  obtain ⟨data, rfl, -⟩ := h
  rfl

/-- Buffers that have been stored in both worlds. -/
theorem store (h : Alike U w w') {m : MetaState} {ci : Ino} {buf buf' : List UInt8} {off : Nat}
    {now : Int} {bad : Nat → Prop} (hbuf : AgreeOff bad buf buf') :
    Alike (fun i j => if i = ci ∧ off ≤ j ∧ j < off + buf.length then bad (j - off) else U i j)
      (w.store m ci buf off now) (w'.store m ci buf' off now) := by
  obtain ⟨data, rfl, hag⟩ := h
  refine ⟨Function.update data ci (pwrite (data ci) buf' off), ?_, fun i => ?_⟩
  · simp only [World.store, World.withCacheData]
    rw [Fs.pwrite_withData _ _ _ _ _ hbuf.length]
  · simp only [World.store, Fs.data_pwrite]
    by_cases hi : i = ci
    · subst hi
      simpa using (hag i).pwrite hbuf
    · simpa [hi] using hag i

end Alike

-- ============================================================================
-- Calls in both worlds
-- ============================================================================

/-- The calls that look at and change the metadata only. -/
def Call.onMeta : Call → Bool
  | .getCacheUsedSize | .getMetaBlockSize => true
  | op => op.reachesMeta

/-- The calls that do not move bytes of files and memory. -/
def Call.isPlain : Call → Bool
  | .malloc _ | .strayRead _ | .pread _ _ _ | .pwrite _ _ _ | .truncate _ _ _ | .ftruncate _ _
  | .utime _ _ _ | .chmod _ _ _ | .chown _ _ _ _ | .mkdir _ _ _ | .symlink _ _ _ | .link _ _ _
  | .rmdir _ _ | .rename _ _ _ => false
  | _ => true

section Calls

variable {c d : Choice} {op : Call} {U : Unwritten} {w w' : World}

/-- What such a call does depends on the metadata, and it changes nothing else. -/
theorem handle_onMeta (hop : op.onMeta = true) (hcd : SameButJunk c d)
    (hm : w'.metadata = w.metadata) : (handle d op w').1 = (handle c op w).1 ∧
      ∃ m, (handle c op w).2 = { w with metadata := m } ∧
        (handle d op w').2 = { w' with metadata := m } := by
  obtain ⟨junk, rfl⟩ := hcd
  obtain ⟨_, _, _, _, _, _, m, _⟩ := w
  obtain ⟨_, _, _, _, _, _, m', _⟩ := w'
  obtain rfl : m' = m := hm
  have hsql : ∀ r : Option Db, ∀ u v : World, v.metadata = u.metadata →
      (v.sql { c with junk } r).1 = (u.sql c r).1 ∧ ∃ m, (u.sql c r).2 = { u with metadata := m } ∧
        (v.sql { c with junk } r).2 = { v with metadata := m } := by
    rintro r u v huv
    unfold World.sql
    cases c.err with
    | some e => exact ⟨rfl, u.metadata, rfl, by rw [← huv]⟩
    | none =>
        cases r with
        | some db => exact ⟨rfl, _, rfl, by rw [huv]⟩
        | none => exact ⟨rfl, u.metadata, rfl, by rw [← huv]⟩
  cases op
  case insertFile | insertDatablock | addLocalSize | subLocalSize | deleteFile | deleteDatablock
    | touchDatablock => exact hsql _ _ _ rfl
  case selectLocalSize | selectFileId | selectBlockId | stepSelect | sumLocalSize
    | getCacheUsedSize | getMetaBlockSize => exact ⟨rfl, m', rfl, rfl⟩
  case addCacheUsedSize | setCacheUsedSize | setMetaBlockSize => exact ⟨rfl, _, rfl, rfl⟩
  all_goals exact nomatch hop

/-- A new node is empty in both worlds. -/
theorem agreeOff_mkNode {fs fs' : Fs} {p : Path} {kind : Kind} {mode : Nat} {now : Int}
    {data : Ino → List UInt8} (hag : ∀ i, AgreeOff (U i) (fs.inode i).data (data i))
    (hfs : fs.mkNode p kind mode now = .ok fs') (i : Ino) :
    AgreeOff (U i) (fs'.inode i).data (Function.update data fs.nextIno [] i) := by
  rw [Fs.inode_mkNode hfs]
  by_cases hi : i = fs.nextIno
  · rw [hi]
    simpa using AgreeOff.refl (U fs.nextIno) ([] : List UInt8)
  · simpa [hi] using hag i

/-- A call on names of the NAS. -/
theorem alike_nameCall_nas {data : Ino → List UInt8} {junk : Nat → UInt8}
    (hag : ∀ i, AgreeOff (U i) (w.cache.inode i).data (data i)) (r : Except Errno Fs) :
    (World.nameCall { c with junk } (w.withCacheData data) .nas r).1 = (w.nameCall c .nas r).1 ∧
      Alike U (w.nameCall c .nas r).2
        (World.nameCall { c with junk } (w.withCacheData data) .nas r).2 := by
  unfold World.nameCall
  cases c.err with
  | some e => exact ⟨rfl, data, rfl, hag⟩
  | none =>
      cases r with
      | error e => exact ⟨rfl, data, rfl, hag⟩
      | ok fs => exact ⟨rfl, data, rfl, hag⟩

/-- A call on names of the cache directory that leaves the tree `fs'` or, in the other
    world, the same tree with the bytes `data'`. -/
theorem alike_nameCall_cache {data data' : Ino → List UInt8} {junk : Nat → UInt8}
    (hag : ∀ i, AgreeOff (U i) (w.cache.inode i).data (data i)) {r : Except Errno Fs}
    (hr : ∀ fs', r = .ok fs' → ∀ i, AgreeOff (U i) (fs'.inode i).data (data' i)) :
    (World.nameCall { c with junk } (w.withCacheData data) .cache
        (r.map (·.withData data'))).1 = (w.nameCall c .cache r).1 ∧
      Alike U (w.nameCall c .cache r).2 (World.nameCall { c with junk } (w.withCacheData data)
        .cache (r.map (·.withData data'))).2 := by
  unfold World.nameCall
  cases c.err with
  | some e => exact ⟨rfl, data, rfl, hag⟩
  | none =>
      cases r with
      | error e => exact ⟨rfl, data, rfl, hag⟩
      | ok fs => exact ⟨rfl, data', rfl, hr fs rfl⟩

/-- Plain calls get equal replies in worlds that are alike, and leave them alike. -/
theorem Alike.handle (h : Alike U w w') (hop : op.isPlain = true) (hcd : SameButJunk c d) :
    (CacheFs.handle d op w').1 = (CacheFs.handle c op w).1 ∧
      Alike U (CacheFs.handle c op w).2 (CacheFs.handle d op w').2 := by
  by_cases hmeta : op.onMeta = true
  · obtain ⟨hreply, m, hw, hw'⟩ := handle_onMeta hmeta hcd h.metadata
    obtain ⟨data, rfl, hag⟩ := h
    rw [hw, hw']
    exact ⟨hreply, data, rfl, hag⟩
  obtain ⟨junk, rfl⟩ := hcd
  obtain ⟨data, rfl, hag⟩ := h
  cases op
  case mallocHandle | freeHandle => exact ⟨rfl, data, rfl, hag⟩
  case loadHandle | fsync => exact ⟨rfl, data, rfl, hag⟩
  case openFile side path flags =>
    have hfollow : ((w.withCacheData data).fs side).follow Fs.maxLinks path =
        (w.fs side).follow Fs.maxLinks path := by
      cases side with
      | nas => rfl
      | cache => exact Fs.follow_withData _ _
    have hkind : ∀ i, (((w.withCacheData data).fs side).inode i).kind =
        ((w.fs side).inode i).kind ∧ (((w.withCacheData data).fs side).inode i).mode =
          ((w.fs side).inode i).mode := by
      cases side <;> exact fun _ => ⟨rfl, rfl⟩
    simp only [CacheFs.handle, World.openFile, hfollow]
    cases c.err with
    | some e => exact ⟨rfl, data, rfl, hag⟩
    | none =>
        cases (w.fs side).follow Fs.maxLinks path with
        | error e => exact ⟨rfl, data, rfl, hag⟩
        | ok i =>
            simp only [(hkind i).1, (hkind i).2]
            split
            · exact ⟨rfl, data, rfl, hag⟩
            · split
              · exact ⟨rfl, data, rfl, hag⟩
              · exact ⟨rfl, data, rfl, hag⟩
  case creat side path mode =>
    have hgranted : (w.withCacheData data).granted mode = w.granted mode := rfl
    cases side with
    | nas =>
        have hnas : (w.withCacheData data).fs .nas = w.fs .nas := rfl
        simp only [CacheFs.handle, World.creat, hnas, hgranted]
        cases c.err with
        | some e => exact ⟨rfl, data, rfl, hag⟩
        | none =>
            cases (w.fs .nas).mkNode path .reg (w.granted mode) c.now with
            | error e => exact ⟨rfl, data, rfl, hag⟩
            | ok fs => exact ⟨rfl, data, rfl, hag⟩
    | cache =>
        have hcache : (w.withCacheData data).fs .cache = (w.fs .cache).withData data := rfl
        simp only [CacheFs.handle, World.creat, hcache, hgranted, Fs.mkNode_withData]
        cases c.err with
        | some e => exact ⟨rfl, data, rfl, hag⟩
        | none =>
            cases hfs : (w.fs .cache).mkNode path .reg (w.granted mode) c.now with
            | error e => exact ⟨rfl, data, rfl, hag⟩
            | ok fs => exact ⟨rfl, _, rfl, agreeOff_mkNode hag hfs⟩
  case close fd =>
    have hfd : (w.withCacheData data).fds fd = w.fds fd := rfl
    simp only [CacheFs.handle, World.close, hfd]
    cases w.fds fd with
    | none => exact ⟨rfl, data, rfl, hag⟩
    | some f =>
        cases c.err with
        | none => exact ⟨rfl, data, rfl, hag⟩
        | some e => exact ⟨rfl, data, rfl, hag⟩
  case lstat side path =>
    refine ⟨?_, data, rfl, hag⟩
    have hlook : ((w.withCacheData data).fs side).lookup path = (w.fs side).lookup path ∧
        ((w.withCacheData data).fs side).lookupError path = (w.fs side).lookupError path := by
      cases side <;> exact ⟨rfl, rfl⟩
    have hstat : ∀ i, (((w.withCacheData data).fs side).inode i).stat =
        ((w.fs side).inode i).stat := by
      cases side with
      | nas => exact fun _ => rfl
      | cache => exact fun i => Fs.stat_withData (hag i).length
    simp only [CacheFs.handle, World.lstat, hlook.1, hlook.2]
    cases c.err with
    | some e => rfl
    | none =>
        cases (w.fs side).lookup path with
        | none => rfl
        | some i => simp only [hstat]
  case mknod side path kind mode =>
    have hname : ∀ kind mode, (World.nameCall { c with junk } (w.withCacheData data) side
        (((w.withCacheData data).fs side).mkNode path kind mode c.now)).1 =
          (World.nameCall c w side ((w.fs side).mkNode path kind mode c.now)).1 ∧
        Alike U (World.nameCall c w side ((w.fs side).mkNode path kind mode c.now)).2
          (World.nameCall { c with junk } (w.withCacheData data) side
            (((w.withCacheData data).fs side).mkNode path kind mode c.now)).2 := by
      intro kind mode
      cases side with
      | nas => exact alike_nameCall_nas hag _
      | cache =>
          have hcache : (w.withCacheData data).fs .cache = (w.fs .cache).withData data := rfl
          rw [hcache, Fs.mkNode_withData]
          exact alike_nameCall_cache hag fun fs hfs => agreeOff_mkNode hag hfs
    cases kind with
    | dir | lnk => exact ⟨rfl, data, rfl, hag⟩
    | reg | fifo | special => exact hname _ (w.granted mode)
  case unlink side path =>
    cases side with
    | nas => exact alike_nameCall_nas hag _
    | cache =>
        have hcache : (w.withCacheData data).fs .cache = (w.fs .cache).withData data := rfl
        simp only [CacheFs.handle]
        rw [hcache, Fs.unlink_withData]
        refine alike_nameCall_cache hag fun fs hfs => ?_
        rw [Fs.unlink_eq_ok hfs]
        exact hag
  case system command =>
    simp only [CacheFs.handle, World.system, World.digIno_withCacheData]
    cases c.err with
    | some e => exact ⟨rfl, data, rfl, hag⟩
    | none =>
        cases w.digIno command with
        | none => exact ⟨rfl, data, rfl, hag⟩
        | some i =>
            cases c.digs with
            | false => exact ⟨rfl, data, rfl, hag⟩
            | true =>
                refine ⟨rfl, data, ?_, fun j => ?_⟩
                · simp only [World.withCacheData, Fs.setTime_withData, if_true]
                · simpa using hag j
  all_goals first | exact absurd rfl hmeta | cases hop

end Calls

-- ============================================================================
-- The callbacks in both worlds
-- ============================================================================

section Pairs

variable {cfg : Config} {U : Unwritten} {s t : World} {fuel fh : Nat} {α β : Type}

theorem rwp_ask {A : Choice → Call → World → Prop} {S : Prop} {ρ : Choice → Choice → Prop}
    {op op' : Call} {f : op.Reply → CfsM α} {g : op'.Reply → CfsM β}
    {Q : α → World → β → World → Prop} :
    Prog.rwp (env A S) ρ (ask op >>= f) (ask op' >>= g) Q s t ↔ ∀ c d, ρ c d → A c op s →
      A d op' t → Prog.rwp (env A S) ρ (f (handle c op s).1) (g (handle d op' t).1) Q
        (handle c op s).2 (handle d op' t).2 := Iff.rfl

/-- A program of plain calls. -/
theorem rwp_plain {A : Choice → Call → World → Prop} {S : Prop} {p : CfsM α}
    (hp : Prog.Only (·.isPlain = true) p) (h : Alike U s t) :
    Prog.rwp (env A S) SameButJunk p p (fun a s b t => b = a ∧ Alike U s t) s t :=
  Prog.rwp_same hp (fun _ _ _ _ _ hop hcd h => h.handle hop hcd) h

/-- A program on the metadata. -/
theorem rwp_onMeta {A : Choice → Call → World → Prop} {S : Prop} {p : CfsM α}
    (hp : Prog.Only (·.onMeta = true) p) (hm : t.metadata = s.metadata) :
    Prog.rwp (env A S) SameButJunk p p (fun a s' b t' => b = a ∧
      ∃ m, s' = { s with metadata := m } ∧ t' = { t with metadata := m }) s t := by
  refine Prog.rwp_same hp (R := fun s' t' => ∃ m, s' = { s with metadata := m } ∧
    t' = { t with metadata := m }) (fun c d op s' t' hop hcd h => ?_) ⟨s.metadata, rfl, ?_⟩
  · obtain ⟨m, rfl, rfl⟩ := h
    have hmeta : ({ t with metadata := m } : World).metadata =
        ({ s with metadata := m } : World).metadata := rfl
    obtain ⟨hreply, m', hs', ht'⟩ := handle_onMeta hop hcd hmeta
    exact ⟨hreply, m', hs', ht'⟩
  · rw [← hm]

theorem rwp_loadHandle {A : Choice → Call → World → Prop} {S : Prop}
    {ρ : Choice → Choice → Prop} {dualFH : DualFileHandle} (hs : s.handles fh = some dualFH)
    (ht : t.handles fh = some dualFH) {f : DualFileHandle → CfsM α} {g : DualFileHandle → CfsM β}
    {Q : α → World → β → World → Prop} (h : Prog.rwp (env A S) ρ (f dualFH) (g dualFH) Q s t) :
    Prog.rwp (env A S) ρ (ask (.loadHandle fh) >>= f) (ask (.loadHandle fh) >>= g) Q s t := by
  have hreply : ∀ {w : World} (c : Choice), w.handles fh = some dualFH →
      (handle c (.loadHandle fh) w).1 = dualFH := by
    intro w c hw
    rw [handle, hw, Option.getD_some]
  refine rwp_ask.mpr fun c d _ _ _ => ?_
  rw [hreply c hs, hreply d ht]
  exact h

theorem rwp_malloc {A : Choice → Call → World → Prop} {S : Prop} {ρ : Choice → Choice → Prop}
    {n : Nat} {f : List UInt8 → CfsM α} {g : List UInt8 → CfsM β}
    {Q : α → World → β → World → Prop}
    (h : ∀ buf buf' : List UInt8, buf.length = n → buf'.length = n →
      Prog.rwp (env A S) ρ (f buf) (g buf') Q s t) :
    Prog.rwp (env A S) ρ (ask (.malloc n) >>= f) (ask (.malloc n) >>= g) Q s t :=
  rwp_ask.mpr fun c d _ _ _ => h ((List.range n).map c.junk) ((List.range n).map d.junk)
    (by simp) (by simp)

theorem rwp_pread {fd : Int} {n off : Nat} {o : OpenFile} (hs : s.fds fd = some o)
    (ht : t.fds fd = some o) {f : SysRet (List UInt8) → CfsM α} {g : SysRet (List UInt8) → CfsM β}
    {Q : α → World → β → World → Prop} {ρ : Choice → Choice → Prop}
    (h : n < 2 ^ 63 → Prog.rwp (env succeeds True) ρ
      (f (.ok (pread ((s.fs o.side).inode o.ino).data n off)))
      (g (.ok (pread ((t.fs o.side).inode o.ino).data n off))) Q s t) :
    Prog.rwp (env succeeds True) ρ (ask (.pread fd n off) >>= f) (ask (.pread fd n off) >>= g)
      Q s t := by
  have hreply : ∀ {w : World} {c : Choice}, w.fds fd = some o → succeeds c (.pread fd n off) w →
      n < 2 ^ 63 ∧ w.pread c fd n off = .ok (pread ((w.fs o.side).inode o.ino).data n off) :=
    fun {w c} hw hc => (wp_pread (S := True) (Q := fun r _ => n < 2 ^ 63 ∧ r =
      .ok (pread ((w.fs o.side).inode o.ino).data n off)) allSucceed_succeeds hw
        (fun hn => ⟨hn, rfl⟩) c hc).2
  refine rwp_ask.mpr fun c d _ hc hd => ?_
  obtain ⟨hn, hs'⟩ := hreply hs hc
  simp only [handle]
  rw [hs', (hreply ht hd).2]
  exact h hn

/-- The two buffers may differ. -/
theorem rwp_pwrite {fd : Int} {buf buf' : List UInt8} {off : Nat} {o : OpenFile}
    (hs : s.fds fd = some o) (ht : t.fds fd = some o) (hlen : buf'.length = buf.length)
    (hpos : t.writePos o off = s.writePos o off)
    {f : SysRet Int → CfsM α} {g : SysRet Int → CfsM β} {Q : α → World → β → World → Prop}
    (h : max off (s.writePos o off) + buf.length < 2 ^ 63 → ∀ now,
      Prog.rwp (env succeeds True) SameButJunk (f (.ok buf.length)) (g (.ok buf.length)) Q
        (s.setFs o.side ((s.fs o.side).pwrite o.ino buf (s.writePos o off) now))
        (t.setFs o.side ((t.fs o.side).pwrite o.ino buf' (s.writePos o off) now))) :
    Prog.rwp (env succeeds True) SameButJunk (ask (.pwrite fd buf off) >>= f)
      (ask (.pwrite fd buf' off) >>= g) Q s t := by
  have hreply : ∀ {w : World} {c : Choice} {buf : List UInt8}, w.fds fd = some o →
      succeeds c (.pwrite fd buf off) w →
        max off (w.writePos o off) + buf.length < 2 ^ 63 ∧
        w.pwrite c fd buf off = (.ok buf.length,
          w.setFs o.side ((w.fs o.side).pwrite o.ino buf (w.writePos o off) c.now)) := by
    intro w c buf hw hc
    refine (wp_pwrite (A := fun c' op w => succeeds c' op w ∧ c'.now = c.now) (S := True)
      (Q := fun r w' => max off (w.writePos o off) + buf.length < 2 ^ 63 ∧
        (r, w') = (.ok buf.length,
          w.setFs o.side ((w.fs o.side).pwrite o.ino buf (w.writePos o off) c.now)))
      (fun _ _ _ h => h.1) hw (fun hfit now hnow => ⟨hfit, ?_⟩) c ⟨hc, rfl⟩).2
    obtain ⟨c', _, _, ⟨-, heq⟩, rfl⟩ := hnow
    rw [heq]
  refine rwp_ask.mpr fun c d hcd hc hd => ?_
  obtain ⟨hfit, hs'⟩ := hreply hs hc
  obtain ⟨junk, rfl⟩ := hcd
  simp only [handle]
  rw [hs', (hreply ht hd).2, hlen, hpos]
  exact h hfit c.now

/-- Two buffers of one length are stored at the same place. -/
theorem rwp_cfsCacheWrite {ni ci : Ino} (hfh : Opened s fh ni ci) (h : Alike U s t)
    {cacheFileName : FileName} {buf buf' : List UInt8} {size off : Nat}
    (hlen : buf'.length = buf.length) {Q : Int → World → Int → World → Prop}
    (hQ : off + buf.length < 2 ^ 63 → ∀ m now ret, Q ret (s.store m ci buf off now) ret
      (t.store m ci buf' off now)) :
    Prog.rwp (env succeeds True) SameButJunk
      (cfsCacheWrite cfg fuel cacheFileName buf size off fh)
      (cfsCacheWrite cfg fuel cacheFileName buf' size off fh) Q s t := by
  obtain ⟨dualFH, hdual, -, r, wr, hfd⟩ := hfh
  refine rwp_loadHandle hdual ((congrFun h.handles fh).trans hdual) ?_
  -- the loop and the rows
  have hwait := rwp_onMeta (A := succeeds) (S := True) (s := s) (t := t)
    (show Prog.Only _ (evictionWait cfg fuel) from only_evictionWait (by rfl) fuel) h.metadata
  refine Prog.rwp_bind (Prog.rwp_mono hwait ?_)
  rintro _ _ _ _ ⟨rfl, m₁, rfl, rfl⟩
  have honly : Prog.Only (·.onMeta = true) (writeBlks cacheFileName (cfg.offsetArray off
      (size / cfg.blockSize))) :=
    only_writeBlks (fun _ => rfl) rfl (fun _ => rfl) (fun _ => rfl) rfl (fun _ => rfl) fun _ => rfl
  have hblks := rwp_onMeta (A := succeeds) (S := True) (s := { s with metadata := m₁ })
    (t := { t with metadata := m₁ }) honly rfl
  refine Prog.rwp_bind (Prog.rwp_mono hblks ?_)
  rintro _ _ _ _ ⟨rfl, m, rfl, rfl⟩
  refine rwp_pwrite (s := { s with metadata := m }) (t := { t with metadata := m }) hfd
    ((congrFun h.fds _).trans hfd) hlen rfl fun hfit now => ?_
  exact hQ (lt_of_le_of_lt (Nat.add_le_add_right (le_max_left _ _) _) hfit) m now
    (logSyscall (.ok buf.length))

end Pairs

-- ============================================================================
-- What a request leaves unwritten
-- ============================================================================

/-- The positions from `lo` up to `hi` of `ci` whose blocks are not recorded are stored with
    what the NAS file has there; behind its end nobody has written them. -/
def Unwritten.fill (U : Unwritten) (cfg : Config) (w : World) (cacheFileName : FileName)
    (ni ci : Ino) (lo hi : Nat) : Unwritten := fun i j =>
  if i = ci ∧ lo ≤ j ∧ j < hi ∧
      w.db.selectBlockId (cfg.alignLowerOffset j) cacheFileName = false then
    (w.nas.inode ni).data.length ≤ j
  else U i j

/-- The file from which byte `j` is read has no such byte, or nobody has written it. -/
def Unfilled (cfg : Config) (U : Unwritten) (w : World) (cacheFileName : FileName)
    (ni ci : Ino) (j : Nat) : Prop :=
  if w.db.selectBlockId (cfg.alignLowerOffset j) cacheFileName then
    (w.cache.inode ci).data.length ≤ j ∨ U ci j
  else (w.nas.inode ni).data.length ≤ j

/-- What is unwritten after a request. -/
def Request.unwritten (cfg : Config) (w : World) (U : Unwritten) : Request → Unwritten
  | .cfsRead path size offset fh => U.fill cfg w (cfsPathToFileName path) (w.nasIno fh)
      (w.cacheIno fh) (cfg.alignLowerOffset offset)
      (cfg.alignLowerOffset offset + cfg.alignedSize size)
  | .cfsWrite _ buf offset fh => fun i j =>
      if i = w.cacheIno fh ∧ cfg.alignLowerOffset offset ≤ j ∧
          j < cfg.alignLowerOffset offset + cfg.alignedSize buf.length then
        (pwrite (w.nas.inode (w.nasIno fh)).data buf (w.nasPos fh offset)).length ≤ j
      else U i j
  | _ => U

instance (U : Unwritten) [∀ i j, Decidable (U i j)] (cfg : Config) (w : World)
    (cacheFileName : FileName) (ni ci : Ino) (lo hi i j : Nat) :
    Decidable (U.fill cfg w cacheFileName ni ci lo hi i j) :=
  inferInstanceAs (Decidable (if i = ci ∧ lo ≤ j ∧ j < hi ∧
      w.db.selectBlockId (cfg.alignLowerOffset j) cacheFileName = false then
    (w.nas.inode ni).data.length ≤ j
  else U i j))

instance (U : Unwritten) [h : ∀ i j, Decidable (U i j)] (cfg : Config) (w : World) (rq : Request)
    (i j : Nat) : Decidable (rq.unwritten cfg w U i j) :=
  match rq with
  | .cfsRead path size offset fh => inferInstanceAs (Decidable (U.fill cfg w
      (cfsPathToFileName path) (w.nasIno fh) (w.cacheIno fh) (cfg.alignLowerOffset offset)
      (cfg.alignLowerOffset offset + cfg.alignedSize size) i j))
  | .cfsWrite _ buf offset fh => inferInstanceAs (Decidable (if i = w.cacheIno fh ∧
      cfg.alignLowerOffset offset ≤ j ∧
        j < cfg.alignLowerOffset offset + cfg.alignedSize buf.length then
      (pwrite (w.nas.inode (w.nasIno fh)).data buf (w.nasPos fh offset)).length ≤ j else U i j))
  | .cfsOpen _ _ | .cfsRelease _ _ | .cfsUtime _ _ | .cfsUnlink _ => h i j

instance (U : Unwritten) [∀ i j, Decidable (U i j)] (cfg : Config) (w : World)
    (cacheFileName : FileName) (ni ci j : Nat) :
    Decidable (Unfilled cfg U w cacheFileName ni ci j) :=
  inferInstanceAs (Decidable (if w.db.selectBlockId (cfg.alignLowerOffset j) cacheFileName then
    (w.cache.inode ci).data.length ≤ j ∨ U ci j
  else (w.nas.inode ni).data.length ≤ j))

section Reads

variable {cfg : Config} {U : Unwritten} {w w' s s' : World} {fuel fh : Nat}
  {cacheFileName : FileName} {dualFH : DualFileHandle} {ni ci : Ino} {lowerOffset k : Nat}

/-- The block of a position of the window. -/
theorem alignLowerOffset_of_mem (hmod : lowerOffset % cfg.blockSize = 0) {j : Nat}
    (hlo : lowerOffset + k * cfg.blockSize ≤ j)
    (hhi : j < lowerOffset + k * cfg.blockSize + cfg.blockSize) :
    cfg.alignLowerOffset j = lowerOffset + k * cfg.blockSize := by
  have hmod' : (lowerOffset + k * cfg.blockSize) % cfg.blockSize = 0 := by
    rw [Nat.add_mul_mod_self_right, hmod]
  have hj : j % cfg.blockSize = j - (lowerOffset + k * cfg.blockSize) := by
    obtain ⟨d, rfl⟩ := Nat.exists_eq_add_of_le hlo
    rw [Nat.add_mod, hmod', Nat.zero_add, Nat.mod_mod, Nat.mod_eq_of_lt (by omega),
      Nat.add_sub_cancel_left]
  rw [Config.alignLowerOffset, hj]
  omega

/-- What the loops of `cfs_read` have reached in both worlds after `k` blocks. -/
structure ReadPair (cfg : Config) (U : Unwritten) (w w' : World) (cacheFileName : FileName)
    (ni ci : Ino) (lowerOffset bufLen k : Nat) (acc : Int × List UInt8) (s : World)
    (acc' : Int × List UInt8) (s' : World) : Prop where
  ret : acc'.1 = acc.1
  count : acc.1 = wrap32 (w.held cfg cacheFileName ni ci lowerOffset k)
  length : acc.2.length = bufLen
  buf : AgreeOff (fun j => k * cfg.blockSize ≤ j ∨
    Unfilled cfg U w cacheFileName ni ci (lowerOffset + j)) acc.2 acc'.2
  nas : s.nas = w.nas
  fds : s.fds = w.fds
  handles : s.handles = w.handles
  alike : Alike (U.fill cfg w cacheFileName ni ci lowerOffset
    (lowerOffset + k * cfg.blockSize)) s s'
  behind : ∀ j, lowerOffset + k * cfg.blockSize ≤ j →
    (s.cache.inode ci).data[j]? = (w.cache.inode ci).data[j]? ∧
      (s'.cache.inode ci).data[j]? = (w'.cache.inode ci).data[j]?

namespace ReadPair

variable {bufLen : Nat} {acc acc' : Int × List UInt8}

/-- A block that is read from the cache files. -/
theorem step_hit (hmod : lowerOffset % cfg.blockSize = 0) (hd : Descriptors w dualFH ni ci)
    (halike : Alike U w w')
    (h : ReadPair cfg U w w' cacheFileName ni ci lowerOffset bufLen k acc s acc' s')
    (hroom : k * cfg.blockSize + cfg.blockSize ≤ bufLen)
    (hsel : w.db.selectBlockId (lowerOffset + k * cfg.blockSize) cacheFileName = true) :
    Prog.rwp (env succeeds True) SameButJunk
      (readBlock cfg fuel cacheFileName lowerOffset fh dualFH acc k 1)
      (readBlock cfg fuel cacheFileName lowerOffset fh dualFH acc' k 1)
      (ReadPair cfg U w w' cacheFileName ni ci lowerOffset bufLen (k + 1)) s s' := by
  have hmul : (k + 1) * cfg.blockSize = k * cfg.blockSize + cfg.blockSize := Nat.succ_mul ..
  obtain ⟨-, r, wr, hcache⟩ := hd
  rw [← h.fds] at hcache
  have hcache' := (congrFun h.alike.fds dualFH.cacheFH).trans hcache
  unfold readBlock
  rw [if_pos (by decide), if_pos (by decide)]
  refine rwp_pread hcache hcache' fun _ => ?_
  -- no earlier block has been stored behind the start of this one
  have hx : pread (s.cache.inode ci).data cfg.blockSize (lowerOffset + k * cfg.blockSize) =
      pread (w.cache.inode ci).data cfg.blockSize (lowerOffset + k * cfg.blockSize) :=
    pread_congr fun j hj _ => (h.behind j hj).1
  have hy : pread (s'.cache.inode ci).data cfg.blockSize (lowerOffset + k * cfg.blockSize) =
      pread (w'.cache.inode ci).data cfg.blockSize (lowerOffset + k * cfg.blockSize) :=
    pread_congr fun j hj _ => (h.behind j hj).2
  have hbytes := (halike.data ci).pread cfg.blockSize (lowerOffset + k * cfg.blockSize)
  have hlen := pread_length (w.cache.inode ci).data cfg.blockSize (lowerOffset + k * cfg.blockSize)
  simp only [World.fs, hx, hy]
  set x := pread (w.cache.inode ci).data cfg.blockSize (lowerOffset + k * cfg.blockSize) with hxdef
  set y := pread (w'.cache.inode ci).data cfg.blockSize (lowerOffset + k * cfg.blockSize)
  have hfit : k * cfg.blockSize + x.length ≤ acc.2.length := by
    rw [h.length]
    omega
  refine ⟨?_, ?_, ?_, ?_, h.nas, h.fds, h.handles, ?_, fun j hj => h.behind j (by omega)⟩
  · simp only [h.ret, readRet, Except.map, rawRet, hbytes.length]
  · simp only [readRet, Except.map, rawRet]
    rw [h.count, wrap32_add, World.held_succ, World.source, if_pos hsel, ← hlen, Int.natCast_add]
  · exact (overwrite_length _ _ _ hfit).trans h.length
  · refine (h.buf.overwrite hbytes hfit).mono fun j hj => ?_
    split at hj
    · next hin =>
        refine Or.inr ?_
        rw [Unfilled, alignLowerOffset_of_mem hmod (k := k) (by omega) (by omega), if_pos hsel]
        refine Or.inr ?_
        rwa [show lowerOffset + k * cfg.blockSize + (j - k * cfg.blockSize) = lowerOffset + j by
          omega] at hj
    · next hout =>
        rcases hj with hj | hj
        · by_cases hnext : (k + 1) * cfg.blockSize ≤ j
          · exact Or.inl hnext
          · refine Or.inr ?_
            rw [Unfilled, alignLowerOffset_of_mem hmod (k := k) (by omega) (by omega), if_pos hsel]
            exact Or.inl (by omega)
        · exact Or.inr hj
  · refine h.alike.mono fun i j hj => ?_
    unfold Unwritten.fill at hj ⊢
    split at hj
    · next hold => rwa [if_pos ⟨hold.1, hold.2.1, by omega, hold.2.2.2⟩]
    · next hnew =>
        rw [if_neg]
        · exact hj
        · rintro ⟨hi, hlo, hhi, hno⟩
          have hge : lowerOffset + k * cfg.blockSize ≤ j := by
            by_contra hlt
            exact hnew ⟨hi, hlo, by omega, hno⟩
          rw [alignLowerOffset_of_mem hmod hge (by omega), hsel] at hno
          cases hno

/-- A block that is read from the NAS and stored. -/
theorem step_miss (hbs : 0 < cfg.blockSize) (hmod : lowerOffset % cfg.blockSize = 0)
    (hdual : w.handles fh = some dualFH) (hd : Descriptors w dualFH ni ci)
    (h : ReadPair cfg U w w' cacheFileName ni ci lowerOffset bufLen k acc s acc' s')
    (hroom : k * cfg.blockSize + cfg.blockSize ≤ bufLen)
    (hsel : w.db.selectBlockId (lowerOffset + k * cfg.blockSize) cacheFileName = false) :
    Prog.rwp (env succeeds True) SameButJunk
      (readBlock cfg fuel cacheFileName lowerOffset fh dualFH acc k 0)
      (readBlock cfg fuel cacheFileName lowerOffset fh dualFH acc' k 0)
      (ReadPair cfg U w w' cacheFileName ni ci lowerOffset bufLen (k + 1)) s s' := by
  have hmul : (k + 1) * cfg.blockSize = k * cfg.blockSize + cfg.blockSize := Nat.succ_mul ..
  have hopened : Opened s fh ni ci := by
    exact ⟨dualFH, by rw [h.handles, hdual], hd.congr h.fds⟩
  obtain ⟨⟨r, wr, ap, hnas⟩, -⟩ := hd
  rw [← h.fds] at hnas
  have hnas' := (congrFun h.alike.fds dualFH.nasFH).trans hnas
  unfold readBlock
  rw [if_neg (by decide), if_neg (by decide)]
  refine rwp_pread hnas hnas' fun _ => ?_
  simp only [World.fs, h.alike.nas, h.nas]
  have hlen := pread_length (w.nas.inode ni).data cfg.blockSize (lowerOffset + k * cfg.blockSize)
  set x := pread (w.nas.inode ni).data cfg.blockSize (lowerOffset + k * cfg.blockSize) with hxdef
  have hfit : k * cfg.blockSize + x.length ≤ acc.2.length := by
    rw [h.length]
    omega
  have hbuf := h.buf.overwrite (AgreeOff.refl (fun _ => False) x) hfit
  have hblen : (overwrite acc.2 (k * cfg.blockSize) x).length = bufLen :=
    (overwrite_length _ _ _ hfit).trans h.length
  -- the block of the buffer is full of NAS bytes up to the end of the NAS file
  have hslice := (hbuf.drop (k * cfg.blockSize)).take cfg.blockSize
  have hslen : (((overwrite acc.2 (k * cfg.blockSize) x).drop (k * cfg.blockSize)).take
      cfg.blockSize).length = cfg.blockSize := by
    rw [List.length_take, List.length_drop, hblen]
    omega
  refine Prog.rwp_bind (rwp_cfsCacheWrite hopened h.alike hslice.length fun _ m now _ => ?_)
  refine ⟨?_, ?_, hblen, ?_, h.nas, h.fds, h.handles, ?_, fun j hj => ?_⟩
  · simp only [h.ret]
  · simp only [readRet, Except.map, rawRet]
    rw [h.count, wrap32_add, World.held_succ, World.source, if_neg (by rw [hsel]; decide), ← hlen,
      Int.natCast_add]
  · refine hbuf.mono fun j hj => ?_
    split at hj
    · exact hj.elim
    · next hout =>
        rcases hj with hj | hj
        · by_cases hnext : (k + 1) * cfg.blockSize ≤ j
          · exact Or.inl hnext
          · refine Or.inr ?_
            rw [Unfilled, alignLowerOffset_of_mem hmod (k := k) (by omega) (by omega),
              if_neg (by rw [hsel]; decide)]
            omega
        · exact Or.inr hj
  · refine (h.alike.store hslice).mono fun i j hj => ?_
    rw [hslen] at hj
    split at hj
    · next hin =>
        obtain ⟨rfl, hlo, hhi⟩ := hin
        unfold Unwritten.fill
        rw [if_pos ⟨rfl, by omega, by omega, by rwa [alignLowerOffset_of_mem hmod hlo hhi]⟩]
        split at hj
        · exact hj.elim
        · omega
    · next hout =>
        unfold Unwritten.fill at hj ⊢
        split at hj
        · next hold => rwa [if_pos ⟨hold.1, hold.2.1, by omega, hold.2.2.2⟩]
        · next hnew =>
            rw [if_neg]
            · exact hj
            · rintro ⟨hi, hlo, hhi, hno⟩
              by_cases hge : lowerOffset + k * cfg.blockSize ≤ j
              · exact hout ⟨hi, hge, by omega⟩
              · exact hnew ⟨hi, hlo, by omega, hno⟩
  · simp only [World.store, Fs.data_pwrite, if_pos]
    rw [pwrite_getElem?_behind, pwrite_getElem?_behind]
    · exact h.behind j (by omega)
    · rw [hslice.length, hslen]
      omega
    · rw [hslen]
      omega

end ReadPair

/-- The window is filled by one read from the cache files, or by the loops. -/
theorem rwp_readWindow (hbs : 0 < cfg.blockSize) (hdual : w.handles fh = some dualFH)
    (hd : Descriptors w dualFH ni ci) (halike : Alike U w w') {size offset : Nat}
    {cacheBuf cacheBuf' : List UInt8} (hbuf : cacheBuf.length = cfg.alignedSize size)
    (hbuf' : cacheBuf'.length = cfg.alignedSize size) {found : Bool}
    (hfound : found = decide ((0 : Int) < if (cfg.window offset size).all
      (w.db.selectBlockId · cacheFileName) then 1 else 0)) :
    Prog.rwp (env succeeds True) SameButJunk
      (readWindow cfg fuel cacheFileName (cfg.alignLowerOffset offset) (cfg.alignedSize size) fh
        dualFH cacheBuf found ((cfg.window offset size).map (w.db.hitFlag cacheFileName)))
      (readWindow cfg fuel cacheFileName (cfg.alignLowerOffset offset) (cfg.alignedSize size) fh
        dualFH cacheBuf' found ((cfg.window offset size).map (w.db.hitFlag cacheFileName)))
      (ReadPair cfg U w w' cacheFileName ni ci (cfg.alignLowerOffset offset)
        (cfg.alignedSize size) (cfg.windowBlocks size)) w w' := by
  have halign : cfg.alignedSize size = cfg.windowBlocks size * cfg.blockSize :=
    cfg.alignedSize_eq size
  have hmod := cfg.alignLowerOffset_mod offset
  set lo := cfg.alignLowerOffset offset with hlo
  unfold readWindow
  by_cases hall : (cfg.window offset size).all (w.db.selectBlockId · cacheFileName) = true
  · rw [if_pos hall] at hfound
    rw [hfound, if_pos (by decide), if_pos (by decide)]
    have hsel : ∀ i < cfg.windowBlocks size, w.db.selectBlockId (lo + i * cfg.blockSize)
        cacheFileName = true := fun i hi =>
      List.all_eq_true.mp hall _ (cfg.mem_offsetArray.mpr ⟨i, hi, rfl⟩)
    have hselAt : ∀ j, lo ≤ j → j < lo + cfg.alignedSize size →
        w.db.selectBlockId (cfg.alignLowerOffset j) cacheFileName = true := by
      intro j hlo hhi
      have hdiv := Nat.div_add_mod' (j - lo) cfg.blockSize
      have hrest := Nat.mod_lt (j - lo) hbs
      rw [alignLowerOffset_of_mem hmod (k := (j - lo) / cfg.blockSize) (by omega) (by omega)]
      refine hsel _ ((Nat.div_lt_iff_lt_mul hbs).mpr ?_)
      omega
    obtain ⟨-, r, wr, hcache⟩ := hd
    refine rwp_pread hcache ((congrFun halike.fds dualFH.cacheFH).trans hcache) fun _ => ?_
    have hbytes := (halike.data ci).pread (cfg.alignedSize size) lo
    have hlen := pread_length (w.cache.inode ci).data (cfg.alignedSize size) lo
    simp only [World.fs]
    set x := pread (w.cache.inode ci).data (cfg.alignedSize size) lo with hx
    have hfit : 0 + x.length ≤ cacheBuf.length := by omega
    have hfresh : AgreeOff (fun _ => True) cacheBuf cacheBuf' :=
      AgreeOff.of_length (hbuf'.trans hbuf.symm) fun _ _ => trivial
    refine ⟨?_, ?_, ?_, ?_, rfl, rfl, rfl, ?_, fun _ _ => ⟨rfl, rfl⟩⟩
    · simp only [readRet, Except.map, logSyscall, hbytes.length]
    · rw [World.held_of_source (w.cache.inode ci).data fun i hi => if_pos (hsel i hi),
        ← halign, ← hlen]
      simp only [readRet, Except.map, logSyscall]
    · exact (overwrite_length _ _ _ hfit).trans hbuf
    · refine (hfresh.overwrite hbytes hfit).mono fun j hj => ?_
      rw [← halign]
      by_cases hin : j < cfg.alignedSize size
      · refine Or.inr ?_
        rw [Unfilled, hselAt _ (by omega) (by omega), if_pos rfl]
        split at hj
        · next hread =>
            refine Or.inr ?_
            rwa [Nat.sub_zero] at hj
        · exact Or.inl (by omega)
      · exact Or.inl (by omega)
    · refine halike.mono fun i j hj => ?_
      unfold Unwritten.fill
      rw [if_neg]
      · exact hj
      · rintro ⟨-, hlo, hhi, hno⟩
        rw [hselAt j hlo (by omega)] at hno
        cases hno
  · rw [if_neg hall] at hfound
    rw [hfound, if_neg (by decide), if_neg (by decide), ← Config.windowBlocks, cfg.zip_window]
    refine Prog.rwp_mono (Prog.rwp_foldlM (I := fun done acc s acc' s' => ReadPair cfg U w w'
      cacheFileName ni ci lo (cfg.alignedSize size) done.length acc s acc' s') ?_ ?_) ?_
    · refine ⟨rfl, ?_, hbuf, ?_, rfl, rfl, rfl, ?_, fun _ _ => ⟨rfl, rfl⟩⟩
      · exact wrap32_zero.symm
      · exact AgreeOff.of_length (hbuf'.trans hbuf.symm) fun j _ => Or.inl (by simp)
      · refine halike.mono fun i j hj => ?_
        unfold Unwritten.fill
        rw [if_neg]
        · exact hj
        · rintro ⟨-, hlo, hhi, -⟩
          simp only [List.length_nil, Nat.zero_mul, Nat.add_zero] at hhi
          omega
    · rintro done x rest acc s acc' s' hx h
      obtain ⟨hk, rfl⟩ := range_map_split hx
      rw [List.length_append, List.length_singleton]
      generalize done.length = k at *
      have hroom := cfg.mul_add_le_alignedSize hk
      cases hsel : w.db.selectBlockId (lo + k * cfg.blockSize) cacheFileName with
      | true =>
          simp only [Db.hitFlag, ← hlo, hsel, if_true]
          exact h.step_hit hmod hd halike hroom hsel
      | false =>
          simp only [Db.hitFlag, ← hlo, hsel, Bool.false_eq_true, if_false]
          exact h.step_miss hbs hmod hdual hd hroom hsel
    · intro acc s acc' s' h
      simpa using h

theorem rwp_copyOut {A : Choice → Call → World → Prop} {S : Prop} {cacheBuf cacheBuf' : List UInt8}
    (hlen : cacheBuf'.length = cacheBuf.length) {pos size : Nat}
    {Q : List UInt8 → World → List UInt8 → World → Prop}
    (hQ : ∀ buf buf', (pos + size ≤ cacheBuf.length → buf = (cacheBuf.drop pos).take size ∧
      buf' = (cacheBuf'.drop pos).take size) → Q buf s buf' s') :
    Prog.rwp (env A S) SameButJunk (copyOut cacheBuf pos size) (copyOut cacheBuf' pos size) Q
      s s' := by
  have hbytes : ((cacheBuf'.drop pos).take size).length =
      ((cacheBuf.drop pos).take size).length := by
    simp only [List.length_take, List.length_drop, hlen]
  unfold copyOut
  simp only [hbytes]
  split
  · next hshort =>
      refine rwp_ask.mpr fun c d _ _ _ => hQ _ _ fun hfit => ?_
      rw [List.length_take, List.length_drop] at hshort
      omega
  · exact hQ _ _ fun _ => ⟨rfl, rfl⟩

/-- `cfs_read` in both worlds. -/
theorem rwp_cfsRead (hbs : 0 < cfg.blockSize) (hfh : Opened w fh ni ci) (halike : Alike U w w')
    {path : Path} {size offset : Nat} :
    Prog.rwp (env succeeds True) SameButJunk (cfsRead cfg fuel path size offset fh)
      (cfsRead cfg fuel path size offset fh)
      (fun a s b s' => b.1 = a.1 ∧
        a.1 = wrap32 (w.held cfg (cfsPathToFileName path) ni ci (cfg.alignLowerOffset offset)
          (cfg.windowBlocks size)) ∧
        Alike (U.fill cfg w (cfsPathToFileName path) ni ci (cfg.alignLowerOffset offset)
          (cfg.alignLowerOffset offset + cfg.alignedSize size)) s s' ∧
        (offset % cfg.blockSize = 0 → ∀ j < size,
          ¬ Unfilled cfg U w (cfsPathToFileName path) ni ci (offset + j) →
            b.2[j]? = a.2[j]?)) w w' := by
  obtain ⟨dualFH, hdual, hd⟩ := hfh
  have halign : cfg.alignedSize size = cfg.windowBlocks size * cfg.blockSize :=
    cfg.alignedSize_eq size
  have honly : Prog.Only (·.onMeta = true) (areBlocksInCache (cfsPathToFileName path)
      (cfg.window offset size)) := only_areBlocksInCache (fun _ => rfl) rfl
  have hcheck := Prog.rwp_and_wp (rwp_onMeta (A := succeeds) (S := True) (s := w) (t := w')
    honly halike.metadata) (wp_areBlocksInCache allSucceed_succeeds.sql
        (Q := fun found s => s = w ∧ found = _) ⟨rfl, rfl⟩)
  refine Prog.rwp_bind (Prog.rwp_mono hcheck ?_)
  rintro _ s₁ _ _ ⟨⟨rfl, m, hs, rfl⟩, hs₁, rfl⟩
  rw [hs₁] at hs
  obtain rfl : m = w'.metadata := by rw [halike.metadata, hs]
  rw [hs₁]
  refine rwp_loadHandle hdual ((congrFun halike.handles fh).trans hdual) ?_
  refine rwp_malloc fun cacheBuf cacheBuf' hbuf hbuf' => ?_
  refine Prog.rwp_bind (Prog.rwp_mono (rwp_readWindow hbs hdual hd halike hbuf hbuf' rfl) ?_)
  intro acc s acc' s' h
  refine Prog.rwp_bind (rwp_copyOut h.buf.length fun buf buf' hbufs => ?_)
  refine ⟨h.ret, h.count, by rw [halign]; exact h.alike, fun hmod j hj hfilled => ?_⟩
  have hpos : offset - cfg.alignLowerOffset offset = 0 := by
    rw [Config.alignLowerOffset, hmod]
    omega
  have hlow : cfg.alignLowerOffset offset = offset := by
    rw [Config.alignLowerOffset, hmod, Nat.sub_zero]
  have hle := cfg.le_alignedSize hbs size
  obtain ⟨rfl, rfl⟩ := hbufs (by rw [h.length]; omega)
  rw [hpos, List.drop_zero, List.drop_zero, List.getElem?_take, List.getElem?_take, if_pos hj,
    if_pos hj]
  refine h.buf.get j (not_or.mpr ⟨by omega, ?_⟩)
  rwa [hlow]

/-- `cfs_write` in both worlds. -/
theorem rwp_cfsWrite (hfh : Opened w fh ni ci) (halike : Alike U w w') {path : Path}
    (hni : w.nas.lookup (cfg.fullNasPath path) = some ni) {buf : List UInt8} {offset : Nat} :
    Prog.rwp (env succeeds True) SameButJunk (cfsWrite cfg fuel path buf offset fh)
      (cfsWrite cfg fuel path buf offset fh)
      (fun _ s _ s' => Alike (fun i j => if i = ci ∧ cfg.alignLowerOffset offset ≤ j ∧
          j < cfg.alignLowerOffset offset + cfg.alignedSize buf.length then
        (pwrite (w.nas.inode ni).data buf (w.nasPos fh offset)).length ≤ j else U i j) s s')
      w w' := by
  obtain ⟨dualFH, hdual, hd⟩ := hfh
  obtain ⟨r, wr, ap, hnas⟩ := hd.1
  have hnas' := (congrFun halike.fds dualFH.nasFH).trans hnas
  have hpos : w'.writePos ⟨.nas, ni, r, wr, ap⟩ offset =
      w.writePos ⟨.nas, ni, r, wr, ap⟩ offset := by
    simp only [World.writePos, World.fs, halike.nas]
  rw [World.nasPos_eq hdual hnas]
  refine rwp_loadHandle hdual ((congrFun halike.handles fh).trans hdual) ?_
  refine rwp_pwrite hnas hnas' rfl hpos fun hoff now => ?_
  generalize w.writePos ⟨.nas, ni, r, wr, ap⟩ offset = pos at hoff ⊢
  -- the NAS files stay equal
  set s := w.setFs .nas ((w.fs .nas).pwrite ni buf pos now) with hs
  set t := w'.setFs .nas ((w'.fs .nas).pwrite ni buf pos now) with ht
  have hst : Alike U s t := by
    obtain ⟨data, rfl, hag⟩ := halike
    exact ⟨data, rfl, hag⟩
  have hdata : (s.nas.inode ni).data = pwrite (w.nas.inode ni).data buf pos := by
    rw [hs, World.setFs, Fs.data_pwrite, if_pos rfl]
    rfl
  have hlook : (s.fs .nas).lookup (cfg.fullNasPath path) = some ni :=
    (Fs.lookup_pwrite _ _ _ _ _ _).trans hni
  have hstat := Prog.rwp_and_wp (rwp_plain (A := succeeds) (S := True) (p := cfsGetNASattr cfg path)
    (Prog.only_bind (only_ask rfl) fun _ => Prog.only_pure _) hst)
    (show Prog.wp (env succeeds True) (cfsGetNASattr cfg path) (fun st s' => s' = s ∧
        st.size = (s.nas.inode ni).data.length) s by
      rw [cfsGetNASattr, Prog.wp_bind]
      refine wp_lstat allSucceed_succeeds fun i hi => ?_
      obtain rfl : ni = i := Option.some.inj (hlook.symm.trans hi)
      exact ⟨rfl, rfl⟩)
  refine Prog.rwp_bind (Prog.rwp_mono hstat ?_)
  rintro _ s₁ st t₁ ⟨⟨rfl, halike₁⟩, hs₁, hsize⟩
  rw [hs₁] at halike₁ ⊢
  refine rwp_malloc fun cacheBuf cacheBuf' hbuf hbuf' => ?_
  refine rwp_pread (s := s) hnas ((congrFun halike₁.fds dualFH.nasFH).trans hnas) fun hread => ?_
  have hle := nasReadSize_le (lt_of_le_of_lt (cfg.alignLowerOffset_le offset) (by omega)) hread
  simp only [World.fs, halike₁.nas]
  generalize hn : nasReadSize (cfg.alignedSize buf.length) (cfg.alignLowerOffset offset) st.size = n
    at hle hread ⊢
  have hlen := pread_length (s.nas.inode ni).data n (cfg.alignLowerOffset offset)
  set x := pread (s.nas.inode ni).data n (cfg.alignLowerOffset offset) with hx
  have hfit : 0 + x.length ≤ cacheBuf.length := by omega
  have hfresh : AgreeOff (fun _ => True) cacheBuf cacheBuf' :=
    AgreeOff.of_length (hbuf'.trans hbuf.symm) fun _ _ => trivial
  have hbufs := hfresh.overwrite (AgreeOff.refl (fun _ => False) x) hfit
  have hblen : (overwrite cacheBuf 0 x).length = cfg.alignedSize buf.length :=
    (overwrite_length _ _ _ hfit).trans hbuf
  have hopened : Opened s fh ni ci := ⟨dualFH, hdual, hd⟩
  refine Prog.rwp_bind (rwp_cfsCacheWrite hopened halike₁ hbufs.length fun hroom m now₂ _ => ?_)
  refine (halike₁.store hbufs).mono fun i j hj => ?_
  have hroom : cfg.alignLowerOffset offset + (overwrite cacheBuf 0 x).length < 2 ^ 63 := hroom
  rw [hblen] at hj hroom
  have hge := le_nasReadSize st.size hroom
  rw [hn, hsize] at hge
  split at hj
  · next hin =>
      rw [if_pos hin, ← hdata]
      split at hj
      · exact hj.elim
      · omega
  · next hout =>
      rw [if_neg hout]
      exact hj

/-- `cfs_open` makes plain calls only. -/
theorem plain_cfsOpen (path : Path) (flags : Nat) :
    Prog.Only (·.isPlain = true) (cfsOpen cfg path flags) := by
  refine Prog.only_mono (fun op hop => ?_) (only_cfsOpen path flags)
  cases op <;> first | rfl | exact nomatch hop

theorem plain_cfsRelease (path : Path) (fh : Nat) :
    Prog.Only (·.isPlain = true) (cfsRelease cfg path fh) :=
  Prog.only_bind (only_ask rfl) fun _ => Prog.only_bind (only_ask rfl) fun _ =>
    Prog.only_bind (only_ask rfl) fun _ => Prog.only_bind (only_ask rfl) fun _ =>
      Prog.only_bind (only_ask rfl) fun _ => Prog.only_pure _

end Reads

-- ============================================================================
-- Two runs
-- ============================================================================

/-- The worlds two runs have reached, and the account of unwritten bytes. -/
structure Pair where
  world : World
  world' : World
  unwritten : Unwritten

/-- The offset of a request is a multiple of the block size. -/
def Request.Aligned (cfg : Config) : Request → Prop
  | .cfsRead _ _ offset _ | .cfsWrite _ _ offset _ => offset % cfg.blockSize = 0
  | _ => True

/-- Both runs serve one request; their environments answer alike up to the content of
    memory nobody has written. -/
def PairStep (cfg : Config) (x y : Pair) : Prop :=
  ∃ rq fuel cs ds, OnFiles cfg (fun _ => True) x.world rq ∧ rq.Aligned cfg ∧
    (∀ n, SameButJunk (cs n) (ds n)) ∧
    Prog.runAllowed (env succeeds True) cs (rq.prog cfg fuel) x.world = some ((), y.world) ∧
    Prog.runAllowed (env succeeds True) ds (rq.prog cfg fuel) x.world' = some ((), y.world') ∧
    y.unwritten = rq.unwritten cfg x.world x.unwritten

section TwoRuns

variable {cfg : Config} {x y : Pair} {w : World} {path : Path}

/-- A request keeps the account. -/
theorem PairStep.alike (hbs : 0 < cfg.blockSize) (h : PairStep cfg x y)
    (halike : Alike x.unwritten x.world x.world') : Alike y.unwritten y.world y.world' := by
  obtain ⟨rq, fuel, cs, ds, hon, -, hcs, hrun, hrun', hU⟩ := h
  rw [hU]
  have hend : Prog.rwp (env succeeds True) SameButJunk (rq.prog cfg fuel) (rq.prog cfg fuel)
      (fun _ s _ s' => Alike (rq.unwritten cfg x.world x.unwritten) s s') x.world x.world' := by
    cases rq with
    | cfsOpen path flags =>
        exact Prog.rwp_bind (Prog.rwp_mono (rwp_plain (plain_cfsOpen path flags) halike)
          fun _ _ _ _ h => h.2)
    | cfsRelease path fh =>
        exact Prog.rwp_bind (Prog.rwp_mono (rwp_plain (plain_cfsRelease path fh) halike)
          fun _ _ _ _ h => h.2)
    | cfsRead path size offset fh =>
        obtain ⟨-, ni, ci, hfh, -⟩ := hon
        refine Prog.rwp_bind (Prog.rwp_mono (rwp_cfsRead hbs hfh halike) fun _ _ _ _ h => ?_)
        simp only [Request.unwritten, World.nasIno_eq hfh, World.cacheIno_eq hfh]
        exact h.2.2.1
    | cfsWrite path buf offset fh =>
        obtain ⟨-, ni, ci, hfh, hni⟩ := hon
        refine Prog.rwp_bind (Prog.rwp_mono (rwp_cfsWrite hfh halike hni) fun _ _ _ _ h => ?_)
        simp only [Request.unwritten, World.nasIno_eq hfh, World.cacheIno_eq hfh]
        exact h
    | cfsUtime | cfsUnlink => exact hon.elim
  exact Prog.rwp_run hend hcs hrun hrun'

end TwoRuns

end CacheFs
