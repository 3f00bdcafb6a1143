/-
  CacheFs.Path

  How a path of the mounted file system becomes a path of the NAS directory, a
  file name of the cache, and a path of the cache directory.

  The cache is flat: `cfs_pathToFileName` removes every '/' but the first from
  the path, in place, with one pointer that reads and one that writes.  The loop
  is modelled on the buffer (`compact`); `cfsPathToFileName_eq` says what it
  leaves there.  The flattened name is the key of every metadata statement and
  the name of the cache file, so two paths with one flattened name share both.
-/

import CacheFs.Posix.Tree

namespace CacheFs

open CacheFs.Posix (Path)

/-- A file name of the cache, the key of table `Files`. -/
abbrev FileName := List Char

def nul : Char := Char.ofNat 0

/-- The string a buffer holds: its characters before the first NUL. -/
def cString (buf : List Char) : List Char := buf.takeWhile (· ≠ nul)

/-! ## The functions of `cachefs.c` -/

def cfsFullNasPath (nasdir path : Path) : Path := nasdir ++ path

def cfsFullCachePath (cachedir path : Path) : Path := cachedir ++ path

/-- The loop of `cfs_pathToFileName` from the pointers `src` and `dst` on;
    returns the buffer and the final `dst`. -/
def compact : Nat → List Char → Nat → Nat → List Char × Nat
  | 0, buf, _, dst => (buf, dst)
  | fuel + 1, buf, src, dst =>
    let c := buf.getD src nul
    if c = nul then (buf, dst)
    else compact fuel (buf.set dst c) (src + 1) (if c ≠ '/' ∨ src = 0 then dst + 1 else dst)

def cfsPathToFileName (path : Path) : FileName :=
  let buf := path ++ [nul]
  let r := compact buf.length buf 0 0
  cString (r.1.set r.2 nul)

/-- The metadata database file that `main` opens. -/
def metadataFile (cachedir : Path) : Path := cachedir ++ "/Metadata-File.db".toList

/-- The names of the files SQLite keeps in the cache directory: the database, and its
    journal while a statement is being carried out. -/
def databaseNames : List FileName :=
  ["/Metadata-File.db".toList, "/Metadata-File.db-journal".toList]

/-! ## What the loop leaves in the buffer -/

/-- A path without its inner slashes. -/
def flatten : Path → FileName
  | [] => []
  | c :: cs => c :: cs.filter (· ≠ '/')

/-- The characters the loop keeps of `rest` when it has read `src` characters. -/
def kept (src : Nat) (rest : List Char) : List Char :=
  if src = 0 then flatten rest else rest.filter (· ≠ '/')

theorem kept_cons (src : Nat) (c : Char) (rest : List Char) :
    kept src (c :: rest) =
      if c ≠ '/' ∨ src = 0 then c :: kept (src + 1) rest else kept (src + 1) rest := by
  by_cases hs : src = 0
  · simp [kept, hs, flatten]
  · by_cases hc : c = '/' <;> simp [kept, hs, hc]

/-- Writing `c` at the end of `done` when `c` is also the next character to be
    read: one character of the gap is lost, and `c`'s old place joins it. -/
theorem set_done (done gap rest : List Char) (c : Char) :
    (done ++ gap ++ c :: rest).set done.length c =
      done ++ c :: (gap ++ [c]).tail ++ rest := by
  rw [List.append_assoc, List.set_append_right _ _ (le_refl _), Nat.sub_self]
  cases gap <;> simp

/-- The character under the reading pointer. -/
theorem getD_src (done gap rest : List Char) (c : Char) :
    (done ++ gap ++ c :: rest).getD (done.length + gap.length) nul = c := by
  rw [← List.length_append, List.getD_eq_getElem?_getD,
    List.getElem?_append_right (le_refl _), Nat.sub_self]
  rfl

/-- The loop invariant: the buffer is the compacted text `done`, then some
    characters already read, then the text `rest` still to be read.  The writing
    pointer stands at the end of `done`, so it never overtakes the reading one. -/
theorem compact_spec (fuel : Nat) (done gap rest tail : List Char) (hnul : nul ∉ rest)
    (hfuel : rest.length < fuel) :
    ∃ gap', compact fuel (done ++ gap ++ (rest ++ nul :: tail))
        (done.length + gap.length) done.length =
      (done ++ kept (done.length + gap.length) rest ++ gap' ++ nul :: tail,
        (done ++ kept (done.length + gap.length) rest).length) := by
  induction fuel generalizing done gap rest with
  | zero => omega
  | succ fuel ih =>
      cases rest with
      | nil =>
          refine ⟨gap, ?_⟩
          have hkept : kept (done.length + gap.length) [] = [] := by simp [kept, flatten]
          simp only [List.nil_append, compact, getD_src, if_pos, hkept, List.append_nil]
      | cons c rest =>
          simp only [List.mem_cons, not_or, List.length_cons] at hnul hfuel
          have hgap : ((gap ++ [c]).tail).length = gap.length := by simp
          simp only [compact, List.cons_append, getD_src, if_neg (Ne.symm hnul.1), set_done,
            kept_cons]
          by_cases hc : c ≠ '/' ∨ done.length + gap.length = 0
          · -- `c` is kept: the compacted text grows by it
            obtain ⟨gap', h⟩ := ih (done ++ [c]) (gap ++ [c]).tail rest hnul.2 (by omega)
            refine ⟨gap', ?_⟩
            rw [if_pos hc, if_pos hc]
            simpa [Nat.add_right_comm, hgap] using h
          · -- a slash is dropped: the gap grows by it
            obtain ⟨gap', h⟩ := ih done (c :: (gap ++ [c]).tail) rest hnul.2 (by omega)
            refine ⟨gap', ?_⟩
            rw [if_neg hc, if_neg hc]
            simpa [Nat.add_assoc, hgap] using h

theorem nul_not_mem_flatten {path : Path} (h : nul ∉ path) : nul ∉ flatten path := by
  cases path with
  | nil => exact h
  | cons c cs =>
      simp only [List.mem_cons, not_or] at h
      simp only [flatten, List.mem_cons, List.mem_filter, not_or, not_and]
      exact ⟨h.1, fun hm => absurd hm h.2⟩

/-- A buffer that starts with a NUL-free text and a NUL holds that text. -/
theorem cString_append {text tail : List Char} (h : nul ∉ text) :
    cString (text ++ nul :: tail) = text := by
  rw [cString, List.takeWhile_append_of_pos]
  · simp
  · intro c hc
    simpa using fun heq : c = nul => h (heq ▸ hc)

theorem cfsPathToFileName_eq {path : Path} (h : nul ∉ path) :
    cfsPathToFileName path = flatten path := by
  obtain ⟨gap, hc⟩ := compact_spec (path ++ [nul]).length [] [] path [] h (by simp)
  simp only [List.nil_append, List.length_nil, Nat.add_zero, kept, if_pos] at hc
  simp only [cfsPathToFileName, hc, List.append_assoc]
  rw [List.set_append_right _ _ (le_refl _), Nat.sub_self]
  cases gap <;> simpa using cString_append (nul_not_mem_flatten h)

/-! ## The loop one access at a time -/

/-- The buffer and the two pointers of the loop. -/
structure Scan where
  buf : List Char
  src : Nat
  dst : Nat
deriving DecidableEq

namespace Scan

/-- An access of the loop to a place of the buffer: `*src` read, `*dst` written,
    and `*dst` read back by the test on '/'. -/
inductive Access
  | fetch (place : Nat)
  | store (place : Nat)
  | test (place : Nat)
deriving DecidableEq

def Access.place : Access → Nat
  | .fetch i | .store i | .test i => i

/-- The second access does not fetch what the first has overwritten. -/
def Access.Spares : Access → Access → Prop
  | .store i, .fetch j => i ≠ j
  | _, _ => True

/-- `*src` -/
def char (s : Scan) : Char := s.buf.getD s.src nul

/-- One turn of the loop; the test reads the character back from the buffer. -/
def turn (s : Scan) : Scan :=
  let buf := s.buf.set s.dst s.char
  ⟨buf, s.src + 1, if buf.getD s.dst nul ≠ '/' ∨ s.src = 0 then s.dst + 1 else s.dst⟩

/-- The runs of the loop that end, with their accesses: the condition fetches
    `*src`; a turn fetches it again, stores it, and tests what it stored. -/
inductive Loop : Scan → List Access → Scan → Prop
  | done {s} (h : s.char = nul) : Loop s [.fetch s.src] s
  | turn {s tr s'} (h : s.char ≠ nul) (rest : Loop s.turn tr s') :
      Loop s (.fetch s.src :: .fetch s.src :: .store s.dst :: .test s.dst :: tr) s'

/-- The buffer after the statement that ends the string. -/
def terminated (s : Scan) : List Char := s.buf.set s.dst nul

theorem Loop.unique {s s₁ s₂ : Scan} {tr₁ tr₂ : List Access} (h₁ : Loop s tr₁ s₁)
    (h₂ : Loop s tr₂ s₂) : tr₁ = tr₂ ∧ s₁ = s₂ := by
  induction h₁ generalizing tr₂ with
  | done h =>
      cases h₂ with
      | done _ => exact ⟨rfl, rfl⟩
      | turn h' _ => exact absurd h h'
  | turn h _ ih =>
      cases h₂ with
      | done h' => exact absurd h' h
      | turn _ rest =>
          obtain ⟨htr, hs⟩ := ih rest
          exact ⟨by rw [htr], hs⟩

/-- What a run may access once `src` and `dst` stand where they do: it fetches
    nothing before `src`, touches nothing past `last`, and spares what it reads. -/
structure Orderly (src last : Nat) (tr : List Access) : Prop where
  ahead : ∀ i, .fetch i ∈ tr → src ≤ i
  inside : ∀ a ∈ tr, a.place ≤ last
  spares : tr.Pairwise Access.Spares

theorem Orderly.done (src : Nat) : Orderly src src [.fetch src] where
  ahead := by simp
  inside := by simp [Access.place]
  spares := List.pairwise_singleton _ _

/-- A turn that writes no further than it reads leaves the later turns nothing
    to fetch that it has overwritten. -/
theorem Orderly.turn {src dst last : Nat} {tr : List Access} (h : Orderly (src + 1) last tr)
    (hdst : dst ≤ src) (hlast : src ≤ last) :
    Orderly src last (.fetch src :: .fetch src :: .store dst :: .test dst :: tr) where
  ahead := by
    intro i hi
    simp only [List.mem_cons, Access.fetch.injEq, reduceCtorEq, false_or] at hi
    rcases hi with rfl | rfl | hi
    · exact le_refl _
    · exact le_refl _
    · exact (h.ahead i hi).trans' (Nat.le_succ src)
  inside := by
    intro a ha
    simp only [List.mem_cons] at ha
    rcases ha with rfl | rfl | rfl | rfl | ha
    · exact hlast
    · exact hlast
    · exact hdst.trans hlast
    · exact hdst.trans hlast
    · exact h.inside a ha
  spares := by
    refine .cons (by simp [Access.Spares]) (.cons (by simp [Access.Spares]) (.cons ?_ (.cons ?_
      h.spares)))
    · intro a ha
      rcases List.mem_cons.mp ha with rfl | ha
      · trivial
      · cases a with
        | fetch i =>
            have hi := h.ahead i ha
            show dst ≠ i
            omega
        | store i => trivial
        | test i => trivial
    · intro a _
      cases a <;> trivial

/-- The loop with the compacted text `done` behind the writing pointer, `gap`
    already read, and `ahead` still to be read. -/
def between (done gap ahead : List Char) : Scan :=
  ⟨done ++ gap ++ ahead, done.length + gap.length, done.length⟩

theorem char_between (done gap rest : List Char) (c : Char) :
    (between done gap (c :: rest)).char = c := getD_src done gap rest c

/-- A kept character moves to the end of `done`; a dropped one widens the gap. -/
theorem turn_between (done gap rest : List Char) (c : Char) :
    (between done gap (c :: rest)).turn =
      if c ≠ '/' ∨ done.length + gap.length = 0 then between (done ++ [c]) (gap ++ [c]).tail rest
      else between done (c :: (gap ++ [c]).tail) rest := by
  have hback : (done ++ c :: (gap ++ [c]).tail ++ rest).getD done.length nul = c := by
    simp
  rw [turn, char_between]
  simp only [between, set_done, hback]
  split <;> simp [Nat.add_assoc, Nat.add_comm 1]

/-- The loop from any such point on: it ends with the kept characters behind the
    writing pointer, and no character is lost but the slashes it drops. -/
theorem Loop.compacts (done gap rest tail : List Char) (hnul : nul ∉ rest) :
    ∃ tr gap',
      Loop (between done gap (rest ++ nul :: tail)) tr
        (between (done ++ kept (done.length + gap.length) rest) gap' (nul :: tail)) ∧
      Orderly (done.length + gap.length) (done.length + gap.length + rest.length) tr ∧
      (kept (done.length + gap.length) rest).length + gap'.length = gap.length + rest.length := by
  induction rest generalizing done gap with
  | nil =>
      have hkept : kept (done.length + gap.length) [] = [] := by simp [kept, flatten]
      rw [hkept, List.append_nil]
      exact ⟨_, gap, .done (char_between done gap tail nul), .done _, by simp⟩
  | cons c rest ih =>
      simp only [List.mem_cons, not_or] at hnul
      have hne : (between done gap (c :: (rest ++ nul :: tail))).char ≠ nul := by
        rw [char_between]
        exact Ne.symm hnul.1
      have hturn := turn_between done gap (rest ++ nul :: tail) c
      have hgap : (gap ++ [c]).tail.length = gap.length := by simp
      have hlast : done.length + gap.length + 1 + rest.length =
          done.length + gap.length + (rest.length + 1) := by omega
      rw [kept_cons, List.cons_append, List.length_cons]
      by_cases hc : c ≠ '/' ∨ done.length + gap.length = 0
      · obtain ⟨tr, gap', hrun, hord, hlen⟩ := ih (done ++ [c]) (gap ++ [c]).tail hnul.2
        have hsrc : (done ++ [c]).length + (gap ++ [c]).tail.length =
            done.length + gap.length + 1 := by
          simp [Nat.add_right_comm]
        rw [hsrc, List.append_assoc, List.singleton_append] at hrun
        rw [hsrc, hlast] at hord
        rw [hsrc, hgap] at hlen
        rw [if_pos hc] at hturn ⊢
        rw [← hturn] at hrun
        refine ⟨_, gap', .turn hne hrun,
          hord.turn (Nat.le_add_right _ _) (Nat.le_add_right _ _), ?_⟩
        simp only [List.length_cons]
        omega
      · obtain ⟨tr, gap', hrun, hord, hlen⟩ := ih done (c :: (gap ++ [c]).tail) hnul.2
        have hsrc : done.length + (c :: (gap ++ [c]).tail).length =
            done.length + gap.length + 1 := by
          simp [Nat.add_assoc]
        rw [hsrc] at hrun
        rw [hsrc, hlast] at hord
        rw [hsrc, List.length_cons, hgap] at hlen
        rw [if_neg hc] at hturn ⊢
        rw [← hturn] at hrun
        refine ⟨_, gap', .turn hne hrun,
          hord.turn (Nat.le_add_right _ _) (Nat.le_add_right _ _), ?_⟩
        omega

/-- The loop on a buffer that holds `text`. -/
theorem Loop.of_text {text : Path} (tail : List Char) (hnul : nul ∉ text) :
    ∃ tr gap, Loop ⟨text ++ nul :: tail, 0, 0⟩ tr (between (flatten text) gap (nul :: tail)) ∧
      Orderly 0 text.length tr ∧ (flatten text).length + gap.length = text.length := by
  obtain ⟨tr, gap, hrun, hord, hlen⟩ := Loop.compacts [] [] text tail hnul
  refine ⟨tr, gap, hrun, ?_, ?_⟩
  · simpa using hord
  · simpa [kept] using hlen

theorem terminated_between (done gap tail : List Char) :
    (between done gap (nul :: tail)).terminated = done ++ nul :: (gap ++ nul :: tail).tail := by
  rw [terminated, between, List.append_assoc, List.set_append_right _ _ (le_refl _), Nat.sub_self]
  cases gap <;> simp

end Scan

theorem flatten_flatten (path : Path) : flatten (flatten path) = flatten path := by
  cases path <;> simp [flatten]

theorem nul_not_mem_cString (buf : List Char) : nul ∉ cString buf := by
  intro h
  simpa using List.all_eq_true.mp List.all_takeWhile nul h

/-- A buffer with a NUL is its string, that NUL and what stands behind it. -/
theorem exists_cString {buf : List Char} (h : nul ∈ buf) :
    ∃ tail, buf = cString buf ++ nul :: tail := by
  obtain ⟨text, tail, rfl, hnul⟩ := List.eq_append_cons_of_mem h
  exact ⟨tail, by rw [cString_append hnul]⟩

/-- Non-empty texts are flattened alike exactly when they start alike and go on
    alike but for slashes. -/
theorem flatten_eq_iff {p q : Path} (hp : p ≠ []) (hq : q ≠ []) :
    flatten p = flatten q ↔
      p.head? = q.head? ∧ p.tail.filter (· ≠ '/') = q.tail.filter (· ≠ '/') := by
  cases p with
  | nil => exact absurd rfl hp
  | cons c p =>
      cases q with
      | nil => exact absurd rfl hq
      | cons d q => simp [flatten]

/-- The loop on a buffer with a string: it ends, fetches nothing it has
    overwritten, stays inside the buffer, and leaves the flattened string there,
    which a second run leaves as it is. -/
theorem cfsPathToFileName_exact (buf : List Char) (hbuf : nul ∈ buf) :
    (∃ tr s, Scan.Loop ⟨buf, 0, 0⟩ tr s) ∧
      (∀ tr s, Scan.Loop ⟨buf, 0, 0⟩ tr s →
        tr.Pairwise Scan.Access.Spares ∧ (∀ a ∈ tr, a.place < buf.length) ∧ s.dst < buf.length ∧
          (∃ rest, s.terminated = flatten (cString buf) ++ nul :: rest) ∧
          ∀ tr' s', Scan.Loop ⟨s.terminated, 0, 0⟩ tr' s' → s'.terminated = s.terminated) ∧
      cfsPathToFileName (cString buf) = flatten (cString buf) ∧
      cfsPathToFileName (cfsPathToFileName (cString buf)) = cfsPathToFileName (cString buf) ∧
      ∀ buf' : List Char, nul ∈ buf' → cString buf ≠ [] → cString buf' ≠ [] →
        (cfsPathToFileName (cString buf) = cfsPathToFileName (cString buf') ↔
          (cString buf).head? = (cString buf').head? ∧
            (cString buf).tail.filter (· ≠ '/') = (cString buf').tail.filter (· ≠ '/')) := by
  have hnul := nul_not_mem_cString buf
  have hflat := nul_not_mem_flatten hnul
  have hname := cfsPathToFileName_eq hnul
  obtain ⟨tail, htail⟩ := exists_cString hbuf
  obtain ⟨tr, gap, hrun, hord, hlen⟩ := Scan.Loop.of_text tail hnul
  rw [← htail] at hrun
  have hlast : (cString buf).length < buf.length := by
    conv_rhs => rw [htail]
    simp
  refine ⟨⟨tr, _, hrun⟩, ?_, hname, ?_, ?_⟩
  · intro tr' s' hrun'
    obtain ⟨rfl, rfl⟩ := hrun.unique hrun'
    refine ⟨hord.spares, fun a ha => (hord.inside a ha).trans_lt hlast, ?_, ?_, ?_⟩
    · show (flatten (cString buf)).length < buf.length
      omega
    · exact ⟨_, Scan.terminated_between _ gap tail⟩
    · -- the second run drops nothing, so its pointers never part
      intro tr₂ s₂ hrun₂
      rw [Scan.terminated_between] at hrun₂ ⊢
      obtain ⟨tr₃, gap₃, hrun₃, -, hlen₃⟩ :=
        Scan.Loop.of_text (gap ++ nul :: tail).tail hflat
      obtain ⟨-, rfl⟩ := hrun₃.unique hrun₂
      rw [flatten_flatten] at hlen₃ ⊢
      have hgap : gap₃ = [] := List.length_eq_zero_iff.mp (by omega)
      rw [Scan.terminated_between, hgap, List.nil_append, List.tail_cons]
  · rw [hname, cfsPathToFileName_eq hflat, flatten_flatten]
  · intro buf' _ hne hne'
    rw [hname, cfsPathToFileName_eq (nul_not_mem_cString buf')]
    exact flatten_eq_iff hne hne'

/-- The buffer holds "/a//b", a NUL and two characters of an older text. -/
theorem cfsPathToFileName_exact_inner_slashes :
    nul ∈ ['/', 'a', '/', '/', 'b', nul, 'x', 'y'] ∧
      cfsPathToFileName ['/', 'a', '/', '/', 'b'] = ['/', 'a', 'b'] ∧
      cfsPathToFileName ['/', 'a', '/', '/', 'b'] = cfsPathToFileName ['/', 'a', 'b'] := by
  obtain ⟨-, -, hname, -, hiff⟩ :=
    cfsPathToFileName_exact ['/', 'a', '/', '/', 'b', nul, 'x', 'y'] (by decide)
  exact ⟨by decide, hname, (hiff ['/', 'a', 'b', nul] (by decide) (by decide) (by decide)).mpr
    (by decide)⟩

/-! ## Which paths share a cache file -/

/-- An absolute path as FUSE passes it: non-empty components, each led by one
    '/'.  The root has no component. -/
structure FusePath where
  components : List (List Char)
  wf : ∀ c ∈ components, c ≠ [] ∧ '/' ∉ c ∧ nul ∉ c

namespace FusePath

/-- The text of the path. -/
def text (p : FusePath) : Path :=
  if p.components = [] then ['/'] else p.components.flatMap fun c => '/' :: c

theorem nul_not_mem_text (p : FusePath) : nul ∉ p.text := by
  have hslash : nul ≠ '/' := by decide
  intro h
  rw [text] at h
  split at h
  · exact hslash (List.mem_singleton.mp h)
  · obtain ⟨c, hc, hm⟩ := List.mem_flatMap.mp h
    rcases List.mem_cons.mp hm with heq | hm
    · exact hslash heq
    · exact (p.wf c hc).2.2 hm

theorem filter_slash_components {cs : List (List Char)} (h : ∀ c ∈ cs, '/' ∉ c) :
    (cs.flatMap fun c => '/' :: c).filter (· ≠ '/') = cs.flatten := by
  induction cs with
  | nil => rfl
  | cons c cs ih =>
      have hc : c.filter (· ≠ '/') = c := by
        rw [List.filter_eq_self]
        intro x hx
        simpa using fun heq : x = '/' => h c List.mem_cons_self (heq ▸ hx)
      rw [List.flatMap_cons, List.filter_append, List.filter_cons_of_neg (by simp), hc,
        ih fun d hd => h d (List.mem_cons_of_mem c hd), List.flatten_cons]

/-- The cache name of a path is the concatenation of its components. -/
theorem cacheName (p : FusePath) :
    cfsPathToFileName p.text = '/' :: p.components.flatten := by
  rw [cfsPathToFileName_eq p.nul_not_mem_text, text]
  split
  · next h => simp [h, flatten]
  · next h =>
      obtain ⟨c, cs, hcs⟩ := List.exists_cons_of_ne_nil h
      have hfilter := filter_slash_components fun d hd => (p.wf d hd).2.1
      rw [hcs] at hfilter ⊢
      rw [List.flatMap_cons, List.cons_append, List.filter_cons_of_neg (by simp)] at hfilter
      rw [List.flatMap_cons, List.cons_append, flatten, hfilter]

/-- The cache is flat: no cache name lies below another one. -/
theorem not_under_cacheName (p q : FusePath) :
    Posix.under (cfsPathToFileName p.text) (cfsPathToFileName q.text) = false := by
  rw [cacheName, cacheName, ← Bool.not_eq_true, Posix.Fs.under_iff]
  rintro ⟨r, hr⟩
  rw [List.cons_append, List.cons.injEq] at hr
  have hmem : '/' ∈ q.components.flatten := by simp [hr.2]
  obtain ⟨c, hc, hslash⟩ := List.mem_flatten.mp hmem
  exact (q.wf c hc).2.1 hslash

/-- The path of the cache file of `p`. -/
def cachePath (cachedir : Path) (p : FusePath) : Path :=
  cfsFullCachePath cachedir (cfsPathToFileName p.text)

end FusePath

end CacheFs
