/-
  CacheFs.Release

  The command `cfs_release` gives to the shell.

  The cache path is put behind `fallocate -d ` without any quoting, so the shell
  splits and expands it.  It is read as one word, and as itself, exactly when the
  cache name of the file has no character the shell treats specially where it
  stands; the name comes from whoever names files on the NAS.
-/

import CacheFs.Effect.Trace
import CacheFs.Callbacks
import CacheFs.Posix.Shell

namespace CacheFs

open CacheFs.Effect
open CacheFs.Posix

/-- Two words have been read when the path begins. -/
theorem tokens_fallocate (text : List Char) :
    Shell.tokens .plain none ("fallocate -d ".toList ++ text) =
      ([.word "fallocate".toList, .word "-d".toList] ++ ·) <$> Shell.tokens .plain none text := by
  have hsplit : Shell.tokens .plain none ("fallocate -d ".toList ++ text) =
      ([.word "fallocate".toList] ++ ·) <$> ([.word "-d".toList] ++ ·) <$>
        Shell.tokens .plain none text := rfl
  rw [hsplit]
  cases Shell.tokens .plain none text <;> rfl

section Release

variable {cfg : Config} {fh : Nat}

/-- Whatever command the program gives to the shell, it digs holes in `file` and does
    nothing else. -/
def DigsOnly (file : Path) (prog : CfsM Int) : Prop :=
  Prog.Only (fun op => ∀ command, op = .system command →
    Shell.ReadsAs command ["fallocate".toList, "-d".toList, file]) prog

theorem digsOnly_cfsRelease_iff {path file : Path} :
    DigsOnly file (cfsRelease cfg path fh) ↔
      Shell.ReadsAs ("fallocate -d ".toList ++ cfg.fullCachePath path)
        ["fallocate".toList, "-d".toList, file] := by
  constructor
  · exact fun h => (h.2 ⟨-1, -1⟩).1 _ rfl
  · intro h
    refine ⟨fun _ => nofun, fun dualFH => ⟨fun command heq => ?_, fun _ => ?_⟩⟩
    · rwa [← Call.system.inj heq]
    · exact ⟨fun _ => nofun, fun _ => ⟨fun _ => nofun, fun _ => ⟨fun _ => nofun, fun _ => trivial⟩⟩⟩

/-- `cfs_release` runs the intended command exactly when the cache name has no special
    character. -/
theorem release_digs_iff (cfg : Config) (p : FusePath) (fh : Nat)
    (hdir : ∀ c ∈ cfg.cachedir, Shell.isMeta c = false) :
    DigsOnly (cfg.fullCachePath p.text) (cfsRelease cfg p.text fh) ↔
      Shell.Plain p.components.flatten := by
  have hname : cfg.fullCachePath p.text = (cfg.cachedir ++ ['/']) ++ p.components.flatten := by
    rw [Config.fullCachePath, cfsFullCachePath, FusePath.cacheName, List.append_assoc]
    rfl
  have hmeta : ∀ c ∈ cfg.cachedir ++ ['/'], Shell.isMeta c = false := by
    intro c hc
    rcases List.mem_append.mp hc with hc | hc
    · exact hdir c hc
    · rw [List.mem_singleton.mp hc]
      decide
  -- the path has a first character, so it begins a word
  obtain ⟨c, rest, hcons⟩ : ∃ c rest, cfg.fullCachePath p.text = c :: rest := by
    rw [hname]
    cases cfg.cachedir with
    | nil => exact ⟨_, _, rfl⟩
    | cons c dir => exact ⟨_, _, rfl⟩
  rw [digsOnly_cfsRelease_iff, Shell.ReadsAs, tokens_fallocate, ← Shell.plain_append_iff hmeta,
    ← hname, hcons, ← Shell.tokens_first_word_iff]
  cases Shell.tokens .plain none (c :: rest) <;> simp

end Release

/-- Settings whose paths the shell leaves alone. -/
def digConfig : Config :=
  { nasdir := "/n".toList, cachedir := "/c".toList, cacheSize := 1, blockSize := 4 }

theorem isMeta_digConfig : ∀ c ∈ digConfig.cachedir, Shell.isMeta c = false := by
  have hall : digConfig.cachedir.all (fun c => Shell.isMeta c == false) = true := by decide
  simpa using hall

/-- A file whose name is one word of ordinary characters. -/
theorem release_digs_plain : DigsOnly "/c/ab".toList (cfsRelease digConfig "/a/b".toList 1) := by
  have hplain : Shell.Plain "ab".toList := by decide
  exact (release_digs_iff digConfig ⟨["a".toList, "b".toList], by decide⟩ 1
    isMeta_digConfig).mpr hplain

/-- The name of this file runs a second command. -/
theorem release_runs_more : ¬ ∀ (cfg : Config) (p : FusePath) (fh : Nat),
    (∀ c ∈ cfg.cachedir, Shell.isMeta c = false) →
    DigsOnly (cfg.fullCachePath p.text) (cfsRelease cfg p.text fh) := by
  intro h
  have hdigs := h digConfig ⟨["a;reboot".toList], by decide⟩ 1 isMeta_digConfig
  exact absurd (digsOnly_cfsRelease_iff.mp hdigs) (by decide)

end CacheFs
