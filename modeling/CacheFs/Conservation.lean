/-
  CacheFs.Conservation

  The descriptors and handle records of the daemon, over runs of opens, reads,
  writes and releases.

  `cfs_open` takes the NAS descriptor first, then the cache descriptor, and then makes
  the record that `cfs_release` finds both in.  When it cannot open the cache file it
  returns the error and keeps what it has: the record is made, but FUSE forgets the handle of a
  failed open.  As long as that one open succeeds, the daemon holds two descriptors and
  a record for each open file and nothing else (`Conserved`).
-/

import CacheFs.Availability
import CacheFs.Lookup

namespace CacheFs

open CacheFs.Effect
open CacheFs.Posix

-- ============================================================================
-- What the daemon holds
-- ============================================================================

/-- For the handles `hs` the daemon holds a record each, in it one descriptor for the NAS
    and one for the cache, each of its own, and it holds nothing else. -/
structure Conserved (hs : List Nat) (w : World) : Prop where
  nodup : hs.Nodup
  records : ∀ ptr, (w.handles ptr).isSome ↔ ptr ∈ hs
  nas : ∀ ptr d, w.handles ptr = some d → ∃ f, w.fds d.nasFH = some f ∧ f.side = .nas
  cache : ∀ ptr d, w.handles ptr = some d → ∃ f, w.fds d.cacheFH = some f ∧ f.side = .cache
  apart : ∀ ptr ptr' d d', w.handles ptr = some d → w.handles ptr' = some d' →
    d.nasFH = d'.nasFH ∨ d.cacheFH = d'.cacheFH → ptr = ptr'
  nothingElse : ∀ fd, (w.fds fd).isSome →
    ∃ ptr d, w.handles ptr = some d ∧ (fd = d.nasFH ∨ fd = d.cacheFH)

/-- Numbers and addresses that are yet to be given out are free. -/
structure Numbered (w : World) : Prop where
  fds : ∀ fd, (w.fds fd).isSome → fd < w.nextFd
  handles : ∀ ptr, (w.handles ptr).isSome → ptr < w.nextHandle

/-- The step from `w` to `w'` has left all descriptors and records as they were. -/
structure HeldKept (w w' : World) : Prop where
  fds : w'.fds = w.fds
  handles : w'.handles = w.handles
  nextFd : w.nextFd ≤ w'.nextFd
  nextHandle : w'.nextHandle = w.nextHandle

/-- The step from `w` to `w'` has added the record `fh` and its two descriptors. -/
structure HeldMore (fh : Nat) (w w' : World) : Prop where
  pair : ∃ (nasFH cacheFH : Int) (n c : OpenFile), w.nextFd ≤ nasFH ∧ nasFH < cacheFH ∧
    cacheFH < w'.nextFd ∧ n.side = .nas ∧ c.side = .cache ∧
    w'.fds = Function.update (Function.update w.fds nasFH (some n)) cacheFH (some c) ∧
    w'.handles = Function.update w.handles fh (some ⟨nasFH, cacheFH⟩)
  fresh : fh = w.nextHandle
  nextHandle : w'.nextHandle = w.nextHandle + 1

namespace HeldKept

variable {w w₁ w' : World}

theorem refl (w : World) : HeldKept w w := ⟨rfl, rfl, le_refl _, rfl⟩

theorem trans (h₁ : HeldKept w w₁) (h₂ : HeldKept w₁ w') : HeldKept w w' :=
  ⟨h₂.fds.trans h₁.fds, h₂.handles.trans h₁.handles, h₁.nextFd.trans h₂.nextFd,
    h₂.nextHandle.trans h₁.nextHandle⟩

theorem numbered (h : HeldKept w w') (hn : Numbered w) : Numbered w' where
  fds fd hfd := by
    rw [h.fds] at hfd
    have hlt := hn.fds fd hfd
    have hle := h.nextFd
    omega
  handles ptr hptr := by
    rw [h.handles] at hptr
    rw [h.nextHandle]
    exact hn.handles ptr hptr

theorem conserved (h : HeldKept w w') {hs : List Nat} (hc : Conserved hs w) : Conserved hs w' := by
  obtain ⟨hfds, hhandles, -, -⟩ := h
  refine ⟨hc.nodup, ?_, ?_, ?_, ?_, ?_⟩
  · rw [hhandles]
    exact hc.records
  · rw [hhandles, hfds]
    exact hc.nas
  · rw [hhandles, hfds]
    exact hc.cache
  · rw [hhandles]
    exact hc.apart
  · rw [hhandles, hfds]
    exact hc.nothingElse

end HeldKept

section Steps

variable {A : Choice → Call → World → Prop} {cfg : Config} {w w' : World} {path : Path}
  {fh : Nat} {hs : List Nat}

theorem HeldMore.numbered (h : HeldMore fh w w') (hn : Numbered w) : Numbered w' := by
  obtain ⟨⟨nasFH, cacheFH, n, c, hlo, hlt, hhi, -, -, hfds, hhandles⟩, rfl, hnext⟩ := h
  refine ⟨fun fd hfd => ?_, fun ptr hptr => ?_⟩
  · rw [hfds] at hfd
    by_cases hc : fd = cacheFH
    · omega
    · rw [Function.update_of_ne hc] at hfd
      by_cases hn' : fd = nasFH
      · omega
      · rw [Function.update_of_ne hn'] at hfd
        have := hn.fds fd hfd
        omega
  · rw [hhandles] at hptr
    rw [hnext]
    by_cases heq : ptr = w.nextHandle
    · omega
    · rw [Function.update_of_ne heq] at hptr
      have := hn.handles ptr hptr
      omega

theorem HeldMore.conserved (h : HeldMore fh w w') (hn : Numbered w) (hc : Conserved hs w) :
    Conserved (fh :: hs) w' := by
  obtain ⟨⟨nasFH, cacheFH, n, c, hlo, hlt, -, hnas, hcache, hfds, hhandles⟩, rfl, -⟩ := h
  have hnew : w.nextHandle ∉ hs := fun hmem =>
    Nat.lt_irrefl _ (hn.handles _ ((hc.records _).mpr hmem))
  -- the descriptors of the old records are not the new ones
  have hold : ∀ fd f, w.fds fd = some f → fd ≠ nasFH ∧ fd ≠ cacheFH ∧ w'.fds fd = some f := by
    intro fd f hf
    have hbound := hn.fds fd (Option.isSome_iff_exists.mpr ⟨f, hf⟩)
    refine ⟨by omega, by omega, ?_⟩
    rw [hfds, Function.update_of_ne (by omega), Function.update_of_ne (by omega), hf]
  have hrecord : ∀ ptr d, w'.handles ptr = some d →
      (ptr = w.nextHandle ∧ d = ⟨nasFH, cacheFH⟩) ∨ w.handles ptr = some d := by
    intro ptr d hd
    rw [hhandles, Function.update_apply] at hd
    split at hd
    · exact Or.inl ⟨‹_›, (Option.some.inj hd).symm⟩
    · exact Or.inr hd
  refine ⟨List.nodup_cons.mpr ⟨hnew, hc.nodup⟩, fun ptr => ?_, fun ptr d hd => ?_,
    fun ptr d hd => ?_, fun ptr ptr' d d' hd hd' hsame => ?_, fun fd hfd => ?_⟩
  · rw [hhandles, Function.update_apply, List.mem_cons, ← hc.records]
    split <;> simp_all
  · rcases hrecord ptr d hd with ⟨-, rfl⟩ | hd
    · have hne : nasFH ≠ cacheFH := by omega
      exact ⟨n, by rw [hfds, Function.update_of_ne hne, Function.update_self], hnas⟩
    · obtain ⟨f, hf, hside⟩ := hc.nas ptr d hd
      exact ⟨f, (hold _ _ hf).2.2, hside⟩
  · rcases hrecord ptr d hd with ⟨-, rfl⟩ | hd
    · exact ⟨c, by rw [hfds, Function.update_self], hcache⟩
    · obtain ⟨f, hf, hside⟩ := hc.cache ptr d hd
      exact ⟨f, (hold _ _ hf).2.2, hside⟩
  · rcases hrecord ptr d hd with ⟨hptr, rfl⟩ | hd <;>
      rcases hrecord ptr' d' hd' with ⟨hptr', rfl⟩ | hd'
    · rw [hptr, hptr']
    · obtain ⟨f, hf, -⟩ := hc.nas ptr' d' hd'
      obtain ⟨g, hg, -⟩ := hc.cache ptr' d' hd'
      exact absurd hsame (not_or.mpr ⟨fun h => (hold _ _ hf).1 h.symm,
        fun h => (hold _ _ hg).2.1 h.symm⟩)
    · obtain ⟨f, hf, -⟩ := hc.nas ptr d hd
      obtain ⟨g, hg, -⟩ := hc.cache ptr d hd
      exact absurd hsame (not_or.mpr ⟨(hold _ _ hf).1, (hold _ _ hg).2.1⟩)
    · exact hc.apart ptr ptr' d d' hd hd' hsame
  · have hself : w'.handles w.nextHandle = some ⟨nasFH, cacheFH⟩ := by
      rw [hhandles, Function.update_self]
    by_cases hfn : fd = nasFH
    · exact ⟨_, _, hself, Or.inl hfn⟩
    · by_cases hfc : fd = cacheFH
      · exact ⟨_, _, hself, Or.inr hfc⟩
      · rw [hfds, Function.update_of_ne hfc, Function.update_of_ne hfn] at hfd
        obtain ⟨ptr, d, hd, hor⟩ := hc.nothingElse fd hfd
        refine ⟨ptr, d, ?_, hor⟩
        have hne : ptr ≠ w.nextHandle := fun heq => hnew
          ((hc.records _).mp (heq ▸ Option.isSome_iff_exists.mpr ⟨d, hd⟩))
        rw [hhandles, Function.update_of_ne hne, hd]

/-- The record and its descriptors are given back. -/
theorem Conserved.release (hc : Conserved hs w) {d : DualFileHandle}
    (hd : w.handles fh = some d) :
    Conserved (hs.erase fh) (((w.dropFd d.cacheFH).dropFd d.nasFH).dropHandle fh) := by
  have hrecord : ∀ ptr d', (((w.dropFd d.cacheFH).dropFd d.nasFH).dropHandle fh).handles ptr =
      some d' → ptr ≠ fh ∧ w.handles ptr = some d' := by
    intro ptr d' hd'
    simp only [World.dropFd, World.dropHandle, Function.update_apply] at hd'
    split at hd'
    · cases hd'
    · exact ⟨‹_›, hd'⟩
  -- a descriptor of another record stays
  have hstay : ∀ ptr d' fd f, ptr ≠ fh → w.handles ptr = some d' →
      (fd = d'.nasFH ∧ f.side = .nas ∨ fd = d'.cacheFH ∧ f.side = .cache) → w.fds fd = some f →
      (((w.dropFd d.cacheFH).dropFd d.nasFH).dropHandle fh).fds fd = some f := by
    intro ptr d' fd f hne hd' hor hf
    obtain ⟨fn, hfn, hnside⟩ := hc.nas fh d hd
    obtain ⟨fc, hfc, hcside⟩ := hc.cache fh d hd
    have hnas : fd ≠ d.nasFH := by
      rintro rfl
      obtain rfl := Option.some.inj (hfn.symm.trans hf)
      rcases hor with ⟨heq, -⟩ | ⟨-, hside⟩
      · exact hne (hc.apart ptr fh d' d hd' hd (Or.inl heq.symm))
      · cases hnside.symm.trans hside
    have hcache : fd ≠ d.cacheFH := by
      rintro rfl
      obtain rfl := Option.some.inj (hfc.symm.trans hf)
      rcases hor with ⟨-, hside⟩ | ⟨heq, -⟩
      · cases hcside.symm.trans hside
      · exact hne (hc.apart ptr fh d' d hd' hd (Or.inr heq.symm))
    simp only [World.dropFd, World.dropHandle, Function.update_of_ne hnas,
      Function.update_of_ne hcache, hf]
  refine ⟨hc.nodup.erase fh, fun ptr => ?_, fun ptr d' hd' => ?_, fun ptr d' hd' => ?_,
    fun ptr ptr' d₁ d₂ hd₁ hd₂ => ?_, fun fd hfd => ?_⟩
  · rw [hc.nodup.mem_erase_iff, ← hc.records]
    simp only [World.dropFd, World.dropHandle, Function.update_apply]
    split <;> simp_all
  · obtain ⟨hne, hd'⟩ := hrecord ptr d' hd'
    obtain ⟨f, hf, hside⟩ := hc.nas ptr d' hd'
    exact ⟨f, hstay ptr d' _ f hne hd' (Or.inl ⟨rfl, hside⟩) hf, hside⟩
  · obtain ⟨hne, hd'⟩ := hrecord ptr d' hd'
    obtain ⟨f, hf, hside⟩ := hc.cache ptr d' hd'
    exact ⟨f, hstay ptr d' _ f hne hd' (Or.inr ⟨rfl, hside⟩) hf, hside⟩
  · exact hc.apart ptr ptr' d₁ d₂ (hrecord ptr d₁ hd₁).2 (hrecord ptr' d₂ hd₂).2
  · simp only [World.dropFd, World.dropHandle, Function.update_apply] at hfd ⊢
    split at hfd
    · cases hfd
    · split at hfd
      · cases hfd
      · obtain ⟨ptr, d', hd', hor⟩ := hc.nothingElse fd hfd
        refine ⟨ptr, d', ?_, hor⟩
        have hne : ptr ≠ fh := by
          rintro rfl
          obtain rfl := Option.some.inj (hd'.symm.trans hd)
          rcases hor with rfl | rfl <;> simp_all
        rw [if_neg hne, hd']

-- ============================================================================
-- The callbacks
-- ============================================================================

def Call.opensCache : Call → Bool
  | .openFile .cache _ _ => true
  | _ => false

/-- Every call may fail, but not the open of a cache file. -/
def cacheOpens (c : Choice) (op : Call) (w : World) : Prop :=
  op.opensCache = true → op.succeeded (handle c op w).1 = true

instance (c : Choice) (op : Call) (w : World) : Decidable (cacheOpens c op w) :=
  inferInstanceAs (Decidable (_ → _))

/-- The environment lets a cache file be opened. -/
def CacheOpens (A : Choice → Call → World → Prop) : Prop :=
  ∀ c op w, A c op w → cacheOpens c op w

theorem cacheOpens_cacheOpens : CacheOpens cacheOpens := fun _ _ _ h => h

theorem heldKept_handle {c : Choice} {op : Call} (h : op.reachesHandles = false) :
    HeldKept w (handle c op w).2 := by
  obtain ⟨hfds, hhandles, hnextFd, hnextHandle⟩ := held_handle (c := c) (w := w) h
  exact ⟨hfds, hhandles, hnextFd.ge, hnextHandle⟩

/-- A program that neither opens nor closes anything leaves all as it was. -/
theorem wp_heldKept {α : Type} {p : CfsM α} (hp : Prog.Only (·.reachesHandles = false) p) :
    Prog.wp (env A True) p (fun _ w' => HeldKept w w') w :=
  Prog.wp_of_only hp trivial (fun _ _ _ hop _ h => ⟨trivial, h.trans (heldKept_handle hop)⟩)
    (.refl w)

/-- An open fails, or takes the next number. -/
theorem World.openFile_cases (c : Choice) (w : World) (side : Side) (p : Path) (flags : Nat) :
    (∃ e, w.openFile c side p flags = (.error e, w)) ∨ ∃ f : OpenFile, f.side = side ∧
      w.openFile c side p flags = (.ok w.nextFd, w.addFd f) := by
  unfold World.openFile
  split
  · exact Or.inl ⟨_, rfl⟩
  · exact Or.inl ⟨_, rfl⟩
  · split
    · exact Or.inl ⟨_, rfl⟩
    · split
      · exact Or.inl ⟨_, rfl⟩
      · exact Or.inr ⟨_, rfl, rfl⟩

theorem wp_openFile_any {side : Side} {p : Path} {flags : Nat} {Q : SysRet Int → World → Prop}
    (herr : ∀ e, Q (.error e) w)
    (hok : ∀ f : OpenFile, f.side = side → Q (.ok w.nextFd) (w.addFd f)) :
    Prog.wp (env A True) (ask (.openFile side p flags)) Q w := by
  simp only [ask, wp_call, Prog.wp_ret, handle]
  intro c _
  rcases World.openFile_cases c w side p flags with ⟨e, heq⟩ | ⟨f, hside, heq⟩ <;> rw [heq]
  · exact herr e
  · exact hok f hside

theorem wp_openFile_cache (hA : CacheOpens A) {p : Path} {flags : Nat}
    {Q : SysRet Int → World → Prop}
    (hok : ∀ f : OpenFile, f.side = .cache → Q (.ok w.nextFd) (w.addFd f)) :
    Prog.wp (env A True) (ask (.openFile .cache p flags)) Q w := by
  simp only [ask, wp_call, Prog.wp_ret, handle]
  intro c hc
  have hopen : (w.openFile c .cache p flags).1.isOk = true := hA c _ w hc rfl
  rcases World.openFile_cases c w .cache p flags with ⟨e, heq⟩ | ⟨f, hside, heq⟩
  · rw [heq] at hopen
    exact absurd hopen not_isOk_error
  · rw [heq]
    exact hok f hside

/-- A close releases the descriptor, whatever it returns. -/
theorem wp_close_any {fd : Int} {Q : SysRet Int → World → Prop} (hQ : ∀ r, Q r (w.dropFd fd)) :
    Prog.wp (env A True) (ask (.close fd)) Q w := by
  simp only [ask, wp_call, Prog.wp_ret, handle, World.close]
  intro c _
  split
  · next hnone =>
      have hsame : w.dropFd fd = w := by
        rw [World.dropFd, Function.update_eq_self_iff.mpr hnone.symm]
      exact hsame ▸ hQ _
  · exact hQ _
  · exact hQ _

theorem wp_creat_any {side : Side} {p : Path} {mode : Nat} {Q : SysRet Int → World → Prop}
    (herr : ∀ e, Q (.error e) w) (hok : ∀ fs f, Q (.ok w.nextFd) ((w.setFs side fs).addFd f)) :
    Prog.wp (env A True) (ask (.creat side p mode)) Q w := by
  simp only [ask, wp_call, Prog.wp_ret, handle, World.creat]
  intro c _
  split
  · exact herr _
  · exact herr _
  · exact hok _ _

/-- A new descriptor that is given back at once. -/
theorem heldKept_addFd_dropFd (hn : Numbered w) (side : Side) (fs : Fs) (f : OpenFile) :
    HeldKept w (((w.setFs side fs).addFd f).dropFd w.nextFd) := by
  have hfree : w.fds w.nextFd = none := by
    by_contra hne
    exact Int.lt_irrefl _ (hn.fds _ (Option.isSome_iff_ne_none.mpr hne))
  have hback : Function.update (Function.update w.fds w.nextFd (some f)) w.nextFd none = w.fds := by
    rw [Function.update_idem, Function.update_eq_self_iff, hfree]
  cases side <;> exact ⟨hback, rfl, Nat.le_succ _, rfl⟩

/-- The node of the cache file is made through a descriptor that is closed again. -/
theorem wp_mkNod_held (hn : Numbered w) {side : Side} {p : Path} {kind : Kind} {mode : Nat} :
    Prog.wp (env A True) (mkNod side p kind mode) (fun _ w' => HeldKept w w') w := by
  have hspecial : ∀ kind, Prog.wp (env A True) (do
      let r ← ask (.mknod side p kind mode)
      pure (logSyscall r)) (fun _ w' => HeldKept w w') w :=
    fun kind => wp_heldKept (Prog.only_bind (only_ask rfl) fun _ => trivial)
  cases kind with
  | reg =>
      unfold mkNod
      rw [Prog.wp_bind]
      refine wp_creat_any (fun e => .refl w) fun fs f => ?_
      rw [Prog.wp_bind]
      exact wp_close_any fun r => heldKept_addFd_dropFd hn side fs f
  | dir | lnk | fifo | special => exact hspecial _

theorem Numbered.addFd (hn : Numbered w) (f : OpenFile) : Numbered (w.addFd f) := by
  refine ⟨fun fd hfd => ?_, hn.handles⟩
  simp only [World.addFd, Function.update_apply] at hfd ⊢
  split at hfd
  · omega
  · have := hn.fds fd hfd
    omega

theorem Numbered.release (hn : Numbered w) (d : DualFileHandle) (fh : Nat) :
    Numbered (((w.dropFd d.cacheFH).dropFd d.nasFH).dropHandle fh) := by
  refine ⟨fun fd hfd => hn.fds fd ?_, fun ptr hptr => hn.handles ptr ?_⟩
  · simp only [World.dropFd, World.dropHandle, Function.update_apply] at hfd
    split at hfd
    · cases hfd
    · split at hfd
      · cases hfd
      · exact hfd
  · simp only [World.dropFd, World.dropHandle, Function.update_apply] at hptr
    split at hptr
    · cases hptr
    · exact hptr

theorem only_dropCached {ok : Call → Prop} (hmeta : ∀ op : Call, op.reachesMeta = true → ok op)
    (hunlink : ok (.unlink .cache (cfg.fullCachePath path))) :
    Prog.Only ok (dropCached cfg path) :=
  Prog.only_bind (only_deleteFile (hmeta _ rfl) (fun _ => hmeta _ rfl) (hmeta _ rfl) (hmeta _ rfl))
    fun _ => Prog.only_bind (only_ask hunlink) fun _ => trivial

theorem wp_dropCached_held :
    Prog.wp (env A True) (dropCached cfg path) (fun _ w' => HeldKept w w') w := by
  refine wp_heldKept (only_dropCached (fun op h => ?_) rfl)
  cases op
  case openFile | creat | close | mallocHandle | freeHandle => exact nomatch h
  all_goals rfl

theorem wp_isFileInCache_held {filename : FileName} :
    Prog.wp (env A True) (isFileInCache filename) (fun _ w' => HeldKept w w') w :=
  wp_heldKept (only_lookupRow (only_ask rfl) rfl)

/-- What `cfs_open` does between its two opens. -/
theorem wp_prepare_held (hn : Numbered w) {present : Bool} {nasFH : Int}
    {Q : Int × Option Nat → World → Prop}
    (hQ : ∀ w', HeldKept w w' → Prog.wp (env A True) (openHandle cfg path nasFH) Q w') :
    Prog.wp (env A True) (do
      let nasFileInfo ← cfsGetNASattr cfg path
      let presentInCache ← checkUpToDate cfg path nasFileInfo present
      ensureCached cfg path nasFileInfo presentInCache
      openHandle cfg path nasFH) Q w := by
  have hattr : ∀ {v : World} {side : Side} {p : Path},
      Prog.wp (env A True) (do
        let r ← ask (.lstat side p)
        pure r.2) (fun _ w' => HeldKept v w') v :=
    wp_heldKept (Prog.only_bind (only_ask rfl) fun _ => trivial)
  rw [Prog.wp_bind]
  refine Prog.wp_mono hattr fun st w₁ h₁ => ?_
  rw [Prog.wp_bind]
  have hcheck : Prog.wp (env A True) (checkUpToDate cfg path st present)
      (fun _ w' => HeldKept w w') w₁ := by
    unfold checkUpToDate
    split
    · rw [Prog.wp_bind]
      refine Prog.wp_mono hattr fun _ w₂ h₂ => ?_
      rw [Prog.wp_ite]
      split
      · rw [Prog.wp_bind]
        exact Prog.wp_mono wp_dropCached_held fun _ w₃ h₃ => (h₁.trans h₂).trans h₃
      · exact h₁.trans h₂
    · exact h₁
  refine Prog.wp_mono hcheck fun p w₂ h₂ => ?_
  rw [Prog.wp_bind]
  unfold ensureCached
  split
  · exact hQ w₂ h₂
  · rw [Prog.wp_bind]
    refine Prog.wp_mono (wp_heldKept (only_createFile rfl)) fun _ w₃ h₃ => ?_
    rw [Prog.wp_bind]
    have hn₃ := (h₂.trans h₃).numbered hn
    exact Prog.wp_mono (wp_mkNod_held hn₃) fun _ w₄ h₄ => hQ w₄ ((h₂.trans h₃).trans h₄)

theorem wp_cfsOpen_held (hA : CacheOpens A) (hn : Numbered w) {flags : Nat} :
    Prog.wp (env A True) (cfsOpen cfg path flags) (fun r w' =>
      (r.1 < 0 ∧ HeldKept w w') ∨ ∃ fh, r = (0, some fh) ∧ HeldMore fh w w') w := by
  unfold cfsOpen
  rw [Prog.wp_bind]
  refine wp_openFile_any (fun e => ?_) fun f hside => ?_
  · -- the NAS file cannot be opened
    have hneg : logSyscall (.error e) < 0 := by
      have := e.pos
      simp only [logSyscall]
      omega
    rw [Prog.wp_bind]
    refine Prog.wp_mono wp_isFileInCache_held fun present w₁ h₁ => ?_
    rw [if_pos hneg, Prog.wp_ite]
    split
    · rw [Prog.wp_bind]
      exact Prog.wp_mono wp_dropCached_held fun _ w₂ h₂ => Or.inl ⟨hneg, h₁.trans h₂⟩
    · exact Or.inl ⟨hneg, h₁⟩
  · have hpos : ¬ logSyscall (.ok (w.nextFd : Int)) < 0 := by simp [logSyscall]
    rw [Prog.wp_bind]
    refine Prog.wp_mono wp_isFileInCache_held fun present w₁ h₁ => ?_
    rw [if_neg hpos]
    refine wp_prepare_held (h₁.numbered (hn.addFd f)) fun w₂ h₂ => ?_
    have hkept := h₁.trans h₂
    unfold openHandle
    rw [Prog.wp_bind]
    refine wp_openFile_cache hA fun g hg => ?_
    have hpos₂ : ¬ logSyscall (.ok (w₂.nextFd : Int)) < 0 := by simp [logSyscall]
    rw [Prog.wp_bind]
    apply wp_mallocHandle
    have hle : w.nextFd + 1 ≤ w₂.nextFd := hkept.nextFd
    have hnext : w₂.nextHandle = w.nextHandle := hkept.nextHandle
    refine Or.inr ⟨w₂.nextHandle, by rw [if_neg hpos₂]; rfl, ?_, hnext, ?_⟩
    · refine ⟨w.nextFd, w₂.nextFd, f, g, le_refl _, by omega, ?_, hside, hg, ?_, ?_⟩
      · show (w₂.nextFd : Int) < (w₂.nextFd + 1 : Nat)
        omega
      · show Function.update w₂.fds w₂.nextFd (some g) = _
        rw [hkept.fds]
        rfl
      · show Function.update w₂.handles w₂.nextHandle (some ⟨w.nextFd, w₂.nextFd⟩) = _
        rw [hkept.handles]
        rfl
    · show w₂.nextHandle + 1 = _
      rw [hnext]

theorem wp_cfsRelease_held {d : DualFileHandle} (hd : w.handles fh = some d) :
    Prog.wp (env A True) (cfsRelease cfg path fh) (fun _ w' => ∃ w₁, HeldKept w w₁ ∧
      w' = ((w₁.dropFd d.cacheFH).dropFd d.nasFH).dropHandle fh) w := by
  unfold cfsRelease
  rw [Prog.wp_bind]
  apply wp_loadHandle hd
  rw [Prog.wp_bind]
  refine Prog.wp_mono (wp_heldKept (only_ask rfl)) fun _ w₁ h₁ => ?_
  rw [Prog.wp_bind]
  refine wp_close_any fun _ => ?_
  rw [Prog.wp_bind]
  refine wp_close_any fun _ => ?_
  rw [Prog.wp_bind]
  exact wp_freeHandle ⟨w₁, h₁, rfl⟩

theorem only_cacheWrite_held {fuel size offset : Nat} {name : FileName} {buf : List UInt8} :
    Prog.Only (·.reachesHandles = false) (cfsCacheWrite cfg fuel name buf size offset fh) :=
  Prog.only_mono (fun _ => Call.reachesHandles_of_storing) (only_cfsCacheWrite _ _ _)

theorem only_cfsRead_held {fuel size offset : Nat} :
    Prog.Only (·.reachesHandles = false) (cfsRead cfg fuel path size offset fh) := by
  have hwindow : ∀ n lower size d buf hit hits, Prog.Only (·.reachesHandles = false)
      (readWindow cfg fuel n lower size fh d buf hit hits) := by
    intro n lower size d buf hit hits
    refine Prog.only_ite _ (Prog.only_bind (only_ask rfl) fun _ => trivial)
      (Prog.only_foldlM (fun _ _ _ => ?_) _)
    exact Prog.only_ite _ (Prog.only_bind (only_ask rfl) fun _ => trivial)
      (Prog.only_bind (only_ask rfl) fun _ => Prog.only_bind only_cacheWrite_held fun _ => trivial)
  exact Prog.only_bind (only_areBlocksInCache (fun _ => rfl) rfl) fun _ =>
    Prog.only_bind (only_ask rfl) fun _ => Prog.only_bind (only_ask rfl) fun _ =>
      Prog.only_bind (hwindow _ _ _ _ _ _ _) fun _ =>
        Prog.only_bind (only_copyOut (fun _ => rfl) _ _ _) fun _ => trivial

theorem only_cfsWrite_held {fuel offset : Nat} {buf : List UInt8} :
    Prog.Only (·.reachesHandles = false) (cfsWrite cfg fuel path buf offset fh) :=
  Prog.only_bind (only_ask rfl) fun _ => Prog.only_bind (only_ask rfl) fun _ =>
    Prog.only_bind (Prog.only_bind (only_ask rfl) fun _ => trivial) fun _ =>
      Prog.only_bind (only_ask rfl) fun _ => Prog.only_bind (only_ask rfl) fun _ =>
        Prog.only_bind only_cacheWrite_held fun _ => trivial

end Steps

-- ============================================================================
-- Runs
-- ============================================================================

/-- One callback has been served, by which the open files `hs` have changed: FUSE takes a
    handle for an open that returned 0 only, and releases each once. -/
inductive FileStep (A : Choice → Call → World → Prop) (cfg : Config) :
    List Nat × World → List Nat × World → Prop
  | cfsOpen {hs : List Nat} {w w' : World} {path : Path} {flags fh : Nat}
      (h : Prog.Exec (env A True) (cfsOpen cfg path flags) w (0, some fh) w') :
      FileStep A cfg (hs, w) (fh :: hs, w')
  | cfsOpenFailed {hs : List Nat} {w w' : World} {path : Path} {flags : Nat} {ret : Int}
      {fh : Option Nat} (hret : ret < 0)
      (h : Prog.Exec (env A True) (CacheFs.cfsOpen cfg path flags) w (ret, fh) w') :
      FileStep A cfg (hs, w) (hs, w')
  | cfsRead {hs : List Nat} {w w' : World} {fuel : Nat} {path : Path} {size offset fh : Nat}
      {r : Int × List UInt8} (hfh : fh ∈ hs)
      (h : Prog.Exec (env A True) (CacheFs.cfsRead cfg fuel path size offset fh) w r w') :
      FileStep A cfg (hs, w) (hs, w')
  | cfsWrite {hs : List Nat} {w w' : World} {fuel : Nat} {path : Path} {buf : List UInt8}
      {offset fh : Nat} {r : Int} (hfh : fh ∈ hs)
      (h : Prog.Exec (env A True) (CacheFs.cfsWrite cfg fuel path buf offset fh) w r w') :
      FileStep A cfg (hs, w) (hs, w')
  | cfsRelease {hs : List Nat} {w w' : World} {path : Path} {fh : Nat} {r : Int} (hfh : fh ∈ hs)
      (h : Prog.Exec (env A True) (CacheFs.cfsRelease cfg path fh) w r w') :
      FileStep A cfg (hs, w) (hs.erase fh, w')

theorem FileStep.conserved {A : Choice → Call → World → Prop} {cfg : Config}
    {x y : List Nat × World} (hA : CacheOpens A) (h : FileStep A cfg x y)
    (hx : Conserved x.1 x.2 ∧ Numbered x.2) : Conserved y.1 y.2 ∧ Numbered y.2 := by
  obtain ⟨hc, hn⟩ := hx
  cases h with
  | cfsOpen h =>
      rcases Prog.wp_exec (wp_cfsOpen_held hA hn) h with ⟨hneg, -⟩ | ⟨fh, heq, hmore⟩
      · exact absurd hneg (Int.lt_irrefl 0)
      · obtain rfl := Option.some.inj (Prod.mk.inj heq).2
        exact ⟨hmore.conserved hn hc, hmore.numbered hn⟩
  | cfsOpenFailed hret h =>
      rcases Prog.wp_exec (wp_cfsOpen_held hA hn) h with ⟨-, hkept⟩ | ⟨fh, heq, -⟩
      · exact ⟨hkept.conserved hc, hkept.numbered hn⟩
      · rw [(Prod.mk.inj heq).1] at hret
        exact absurd hret (Int.lt_irrefl 0)
  | cfsRead _ h =>
      have hkept := Prog.wp_exec (wp_heldKept only_cfsRead_held) h
      exact ⟨hkept.conserved hc, hkept.numbered hn⟩
  | cfsWrite _ h =>
      have hkept := Prog.wp_exec (wp_heldKept only_cfsWrite_held) h
      exact ⟨hkept.conserved hc, hkept.numbered hn⟩
  | cfsRelease hfh h =>
      obtain ⟨d, hd⟩ := Option.isSome_iff_exists.mp ((hc.records _).mpr hfh)
      obtain ⟨w₁, hkept, rfl⟩ := Prog.wp_exec (wp_cfsRelease_held hd) h
      rw [← hkept.handles] at hd
      exact ⟨(hkept.conserved hc).release hd, (hkept.numbered hn).release d _⟩

/-- In every run in which no cache file refuses to be opened, whatever else fails, the
    daemon holds two descriptors and a record for each open file and nothing else. -/
theorem descriptors_conserved {A : Choice → Call → World → Prop} {cfg : Config} {w₀ w : World}
    {hs : List Nat} (hA : CacheOpens A) (hfds : ∀ fd, w₀.fds fd = none)
    (hhandles : ∀ ptr, w₀.handles ptr = none)
    (hrun : Relation.ReflTransGen (FileStep A cfg) ([], w₀) (hs, w)) : Conserved hs w := by
  suffices h : ∀ y, Relation.ReflTransGen (FileStep A cfg) ([], w₀) y →
      Conserved y.1 y.2 ∧ Numbered y.2 from (h _ hrun).1
  intro y hy
  induction hy with
  | refl =>
      refine ⟨⟨List.nodup_nil, fun ptr => ?_, fun ptr d hd => ?_, fun ptr d hd => ?_,
        fun ptr _ d _ hd => ?_, fun fd hfd => ?_⟩, fun fd hfd => ?_, fun ptr hptr => ?_⟩
      · simp [hhandles]
      all_goals simp_all
  | tail _ hstep ih => exact hstep.conserved hA ih

/-- The file is opened twice and released once, and the release meets an error in the
    shell and in the `close` of the NAS descriptor. -/
theorem descriptors_conserved_twice : ∃ w, Conserved [2] w := by
  have exec {α : Type} {p : CfsM α} {w w' : World} {r : α} (cs : Nat → Choice)
      (hr : Prog.runAllowed (env cacheOpens True) cs p w = some (r, w')) :
      Prog.Exec (env cacheOpens True) p w r w' := Prog.exec_of_runAllowed _ hr
  obtain ⟨w₁, w₂, w₃, h₁, h₂, h₃⟩ : ∃ w₁ w₂ w₃,
      Prog.Exec (env cacheOpens True) (cfsOpen sampleConfig samplePath 2) (sampleWorld [1, 2, 3])
        (0, some 1) w₁ ∧
      Prog.Exec (env cacheOpens True) (cfsOpen sampleConfig samplePath 0) w₁ (0, some 2) w₂ ∧
      Prog.Exec (env cacheOpens True) (cfsRelease sampleConfig samplePath 1) w₂ (-5) w₃ :=
    ⟨_, _, _, exec (fun _ => {}) rfl, exec (fun _ => {}) rfl,
      exec (fun n => if n = 1 ∨ n = 3 then { err := some EIO } else {}) rfl⟩
  have hrun : Relation.ReflTransGen (FileStep cacheOpens sampleConfig)
      ([], sampleWorld [1, 2, 3]) ([2], w₃) :=
    ((Relation.ReflTransGen.single (.cfsOpen h₁)).tail (.cfsOpen h₂)).tail
      (.cfsRelease (by decide) h₃)
  exact ⟨w₃, descriptors_conserved cacheOpens_cacheOpens (fun _ => rfl) (fun _ => rfl) hrun⟩

/-- A file that has been made read-only is opened: the open fails, and the descriptor for
    the NAS and the record stay. -/
theorem descriptors_leaked : (∀ fd, sampleReadOnly.fds fd = none) ∧
    (∀ ptr, sampleReadOnly.handles ptr = none) ∧
    ∃ w, Relation.ReflTransGen (FileStep anyOutcome sampleConfig) ([], sampleReadOnly) ([], w) ∧
      (w.fds 3).isSome ∧ (w.handles 1).isSome ∧ ¬ Conserved [] w := by
  have hrun : Prog.runAllowed (env anyOutcome True) (fun _ => {})
      (cfsOpen sampleConfig samplePath 0) sampleReadOnly = some ((-13, some 1), _) := rfl
  refine ⟨fun _ => rfl, fun _ => rfl, _, .single (.cfsOpenFailed (by decide)
    (Prog.exec_of_runAllowed _ hrun)), rfl, rfl, fun h => ?_⟩
  exact absurd ((h.records 1).mp rfl) List.not_mem_nil

end CacheFs
