import Nek0.Dart.AvatarCache
import Nek0.Proofs.Dart.Containment

/-!
# `Nek0.Proofs.Dart.AvatarFiles`: the files of the avatar cache

The file name of an avatar is its hash, as the server sent it. `contained_of_run`: if no hash has a
slash or a NUL (`plainHashes`), every path that the cache uses is a file directly in its directory,
and two hashes never use the same file. The invariant is `Tidy`: whatever the cache remembers is
about a plain hash, and every path is one of the two names of its hash.

With a slash a hash is a path of its own (`not_contained`).
-/

set_option autoImplicit false

namespace Nek0.Proofs.Dart

open Nek0.Dart hiding FtEntry
open Nek0.Dart.AvatarCache (Event)
open Nek0.Lib.Paths (resolveFrom)
open Nek0.Lib.System (Run)
open Nek0.Native hiding FtEntry

/-- A hash that is a file name. -/
def Plain (hash : String) : Prop := '/' ∉ hash.toList ∧ '\x00' ∉ hash.toList

instance (hash : String) : Decidable (Plain hash) :=
  inferInstanceAs (Decidable (_ ∧ _))

/-- The hashes that a roster brings are plain. -/
def plainHashes (_ : AvatarCache) : Event → Prop
  | .update clients _ => ∀ client ∈ clients, ∀ avatar ∈ client.avatar, Plain avatar.1
  | _ => True

/-- The hash that `_drain` works on. -/
def awaited : Await → String
  | .probe hash _ => hash
  | .ensureDir hash _ => hash
  | .transfer hash => hash
  | .rename hash => hash
  | .copy hash => hash
  | .remove hash _ => hash
  | .check hash => hash

/-- The path is one of the two names of a plain hash. -/
def Named (dir hash path : String) : Prop :=
  Plain hash ∧ (path = finalPath dir hash ∨ path = partPath dir hash)

/-- The cache uses the path for the hash, or shows it. -/
def Uses (c : AvatarCache) (hash path : String) : Prop :=
  (hash, path) ∈ c.files ∨ c.state hash = some path

/-- Everything is about plain hashes and their names. -/
structure Tidy (dir : String) (c : AvatarCache) : Prop where
  pending : ∀ entry ∈ c.pending, Plain entry.1
  draining : ∀ a ∈ c.draining, Plain (awaited a)
  uses : ∀ hash path, Uses c hash path → Named dir hash path

variable {dir : String} {c : AvatarCache} {hash : String} {connected : Nat → Bool}

/-! ### What the steps keep -/

/-- One more path of a plain hash. -/
theorem tidy_uses (h : Tidy dir c) {path : String} (hpath : Named dir hash path) :
    Tidy dir (c.uses hash path) where
  pending := h.pending
  draining := h.draining
  uses := by
    rintro hash' path' (hmem | hstate)
    · rcases List.mem_append.mp hmem with hold | hnew
      · exact h.uses hash' path' (.inl hold)
      · cases List.mem_singleton.mp hnew
        exact hpath
    · exact h.uses hash' path' (.inr hstate)

/-- A wait that is about a plain hash. -/
theorem tidy_wait (h : Tidy dir c) {a : Await} (ha : Plain (awaited a)) :
    Tidy dir { c with draining := some a } where
  pending := h.pending
  draining := by
    intro a' ha'
    rw [← Option.mem_some.mp ha']
    exact ha
  uses := h.uses

theorem named_final (hplain : Plain hash) : Named dir hash (finalPath dir hash) :=
  ⟨hplain, .inl rfl⟩

theorem named_part (hplain : Plain hash) : Named dir hash (partPath dir hash) := ⟨hplain, .inr rfl⟩

/-- The queue is replaced by plain entries. -/
theorem tidy_drainFrom (h : Tidy dir c) (n : Nat) {pending : List (String × String)}
    (hpending : ∀ entry ∈ pending, Plain entry.1) :
    Tidy dir (c.drainFrom dir connected n pending) := by
  induction pending generalizing n with
  | nil => exact ⟨hpending, nofun, h.uses⟩
  | cons entry rest ih =>
      have hrest : ∀ entry ∈ rest, Plain entry.1 := fun e he => hpending e (.tail _ he)
      obtain ⟨hash, uid⟩ := entry
      unfold AvatarCache.drainFrom
      split
      · exact ⟨hpending, nofun, h.uses⟩
      · split
        · exact ih (n + 1) hrest
        · have hplain := hpending _ List.mem_cons_self
          have hqueue : Tidy dir { c with pending := rest } := ⟨hrest, h.draining, h.uses⟩
          exact tidy_uses (tidy_wait (a := .probe hash uid) hqueue hplain) (named_final hplain)

theorem tidy_drain (h : Tidy dir c) : Tidy dir (c.drain dir connected) :=
  tidy_drainFrom h 0 h.pending

/-- The state shows the final name. -/
theorem tidy_update (h : Tidy dir c) (hplain : Plain hash) : Tidy dir
    { c with state := Function.update c.state hash (some (finalPath dir hash)) } where
  pending := h.pending
  draining := h.draining
  uses := by
    rintro hash' path' (hmem | hstate)
    · exact h.uses hash' path' (.inl hmem)
    · by_cases heq : hash' = hash
      · subst heq
        simp only [Function.update_self, Option.some.injEq] at hstate
        rw [← hstate]
        exact named_final hplain
      · simp only [Function.update_of_ne heq] at hstate
        exact h.uses hash' path' (.inr hstate)

theorem tidy_fail (h : Tidy dir c) : Tidy dir (c.fail dir connected hash) :=
  tidy_drain ⟨h.pending, h.draining, h.uses⟩

theorem tidy_publish (h : Tidy dir c) (hplain : Plain hash) :
    Tidy dir (c.publish dir connected hash) := by
  have hstate := tidy_update h hplain
  exact tidy_drain ⟨hstate.pending, hstate.draining, hstate.uses⟩

/-- Queueing one client's avatar keeps the cache tidy. -/
theorem tidy_enqueue (h : Tidy dir c) {client : AvatarClient}
    (hclient : ∀ avatar ∈ client.avatar, Plain avatar.1) : Tidy dir (c.enqueue client) := by
  unfold AvatarCache.enqueue
  split
  · exact h
  · rename_i hash uid havatar
    split
    · exact h
    · refine ⟨?_, h.draining, h.uses⟩
      intro entry hentry
      rcases List.mem_append.mp hentry with hold | hnew
      · exact h.pending entry hold
      · rw [List.mem_singleton.mp hnew]
        exact hclient _ havatar

/-- Queueing the avatars of a roster does as well. -/
theorem tidy_enqueues (h : Tidy dir c) {clients : List AvatarClient}
    (hclients : ∀ client ∈ clients, ∀ avatar ∈ client.avatar, Plain avatar.1) :
    Tidy dir (clients.foldl AvatarCache.enqueue c) := by
  induction clients generalizing c with
  | nil => exact h
  | cons client clients ih =>
      exact ih (tidy_enqueue h (hclients client List.mem_cons_self))
        fun client' hmem => hclients client' (.tail _ hmem)

/-- So does `updateFromClients`. -/
theorem tidy_updateFromClients (h : Tidy dir c) {clients : List AvatarClient}
    (hclients : ∀ client ∈ clients, ∀ avatar ∈ client.avatar, Plain avatar.1) :
    Tidy dir (c.updateFromClients dir connected clients) := by
  have hqueue := tidy_enqueues h hclients
  unfold AvatarCache.updateFromClients
  simp only
  split
  · exact tidy_drain hqueue
  · exact hqueue

/-- `ts_download_avatar` passes the local path on up to its first NUL. -/
theorem localPath_of_tsDownloadAvatar {decode : String → Option (List UInt8)} {uid dest : String}
    {t : Transfer} (h : tsDownloadAvatar decode (some uid) (some dest) = some (.startTransfer t)) :
    t.localPath = cut dest := by
  unfold tsDownloadAvatar at h
  simp only [Option.isNone_some, Bool.false_eq_true, if_false] at h
  split at h
  · cases h
  · simp only [Option.ite_none_left_eq_some, Option.some.injEq, Call.startTransfer.injEq] at h
    obtain ⟨-, -, rfl⟩ := h
    rfl

/-! ### The paths of plain hashes -/

theorem noNul_avatars (tmp : TempDir) : '\x00' ∉ tmp.avatars.toList := by
  simp [TempDir.avatars, tmp.noNul]

/-- A plain hash crosses the FFI as it is. -/
theorem cut_named (tmp : TempDir) {path : String} (h : Named tmp.avatars hash path) :
    cut path = path := by
  have hdir := noNul_avatars tmp
  have hhash := h.1.2
  apply cut_eq_self
  rcases h.2 with rfl | rfl
  · simp [finalPath, hdir, hhash]
  · simp [partPath, hdir, hhash]

/-- A file of a plain name is placed in its directory. -/
theorem place_file {cwd : List (List Char)} {dir name : String} (hdir : dir ≠ "")
    (hslash : '/' ∉ name.toList) (hname : name.toList ≠ [] ∧ name.toList ≠ ['.'] ∧
      name.toList ≠ ['.', '.']) :
    place cwd (dir ++ "/" ++ name) = place cwd dir ++ [name.toList] := by
  have hpath : (dir ++ "/" ++ name).toList = dir.toList ++ '/' :: name.toList := by simp
  have hsplit : name.toList.splitOn '/' = [name.toList] :=
    List.splitOn_eq_singleton (by simpa using hslash)
  rw [place_below hdir hpath, hsplit]
  show (if name.toList = [] ∨ name.toList = ['.'] then _ else _) = _
  rw [if_neg (not_or.mpr ⟨hname.1, hname.2.1⟩), if_neg hname.2.2]

/-- A name with a long ending is not one of the special names. -/
theorem ordinary_of_ending {name ending : List Char} (h : 2 < ending.length) :
    name ++ ending ≠ [] ∧ name ++ ending ≠ ['.'] ∧ name ++ ending ≠ ['.', '.'] := by
  have hlong : 2 < (name ++ ending).length := by
    rw [List.length_append]
    omega
  refine ⟨?_, ?_, ?_⟩ <;> intro heq <;> rw [heq] at hlong <;> simp at hlong

/-- The files of a plain hash are directly in the directory, and their names tell the hash. -/
theorem place_named (cwd : List (List Char)) (tmp : TempDir) {path : String}
    (h : Named tmp.avatars hash path) :
    place cwd path = place cwd tmp.avatars ++ [hash.toList ++ ".img".toList] ∨
      place cwd path = place cwd tmp.avatars ++ [hash.toList ++ ".img.part".toList] := by
  have hdir : tmp.avatars ≠ "" := by
    intro hempty
    have hlist := congrArg String.toList hempty
    simp [TempDir.avatars] at hlist
  have hslash := h.1.1
  rcases h.2 with rfl | rfl
  · refine .inl ?_
    have hname : (hash ++ ".img").toList = hash.toList ++ ".img".toList := String.toList_append
    rw [finalPath, place_file hdir, hname]
    · simp [hslash]
    · rw [hname]
      exact ordinary_of_ending (by decide)
  · refine .inr ?_
    have hname : (hash ++ ".img.part").toList = hash.toList ++ ".img.part".toList :=
      String.toList_append
    rw [partPath, place_file hdir, hname]
    · simp [hslash]
    · rw [hname]
      exact ordinary_of_ending (by decide)

/-- Equal files are files of the same hash. -/
theorem hash_of_place {cwd : List (List Char)} (tmp : TempDir) {path hash' path' : String}
    (h : Named tmp.avatars hash path) (h' : Named tmp.avatars hash' path')
    (hsame : place cwd path = place cwd path') : hash = hash' := by
  -- The two endings differ in their last letter.
  have hcross (l l' : List Char) : l ++ ".img".toList ≠ l' ++ ".img.part".toList := by
    intro heq
    have hlast := congrArg List.getLast? heq
    have himg : ".img".toList.getLast? = some 'g' := rfl
    have hpart : ".img.part".toList.getLast? = some 't' := rfl
    rw [List.getLast?_append, List.getLast?_append, himg, hpart, Option.some_or, Option.some_or]
      at hlast
    exact absurd hlast (by decide)
  apply String.toList_inj.mp
  rcases place_named cwd tmp h with hplace | hplace <;>
    rcases place_named cwd tmp h' with hplace' | hplace' <;>
    rw [hplace, hplace'] at hsame <;>
    have hname := List.singleton_inj.mp (List.append_cancel_left hsame)
  · exact List.append_cancel_right hname
  · exact absurd hname (hcross _ _)
  · exact absurd hname.symm (hcross _ _)
  · exact List.append_cancel_right hname

/-! ### Runs -/

/-- Starting a transfer keeps the cache tidy. -/
theorem tidy_startTransfer {tmp : TempDir} (h : Tidy tmp.avatars c)
    {decode : String → Option (List UInt8)} {ready : Bool} {uid : String} (hplain : Plain hash) :
    Tidy tmp.avatars (c.startTransfer tmp.avatars connected decode ready hash uid) := by
  unfold AvatarCache.startTransfer
  split
  · rename_i t ht
    unfold AvatarCache.avatarTransfer at ht
    split at ht
    · rename_i t' hcall
      split at ht
      · cases ht
        rw [localPath_of_tsDownloadAvatar hcall, cut_named tmp (named_part hplain)]
        exact tidy_uses (tidy_wait (a := .transfer hash) h hplain) (named_part hplain)
      · cases ht
    · cases ht
  · exact tidy_fail h

/-- Every event keeps the cache tidy. -/
theorem tidy_of_next {tmp : TempDir} {decode : String → Option (List UInt8)} {e : Event}
    {c' : AvatarCache} (h : Tidy tmp.avatars c) (hok : plainHashes c e)
    (hnext : AvatarCache.next tmp.avatars decode e c = some c') : Tidy tmp.avatars c' := by
  unfold AvatarCache.next at hnext
  split at hnext
  · -- A roster.
    cases hnext
    exact tidy_updateFromClients h hok
  · cases hnext
    exact ⟨nofun, h.draining, h.uses⟩
  · -- The probe of the cache file.
    rename_i found connected hash uid hwait
    have hplain : Plain hash := h.draining _ hwait
    split at hnext
    · cases hnext
      exact tidy_drain (tidy_update h hplain)
    · cases hnext
      have hflight : Tidy tmp.avatars { c with inFlight := c.inFlight.insert hash } :=
        ⟨h.pending, h.draining, h.uses⟩
      exact tidy_wait (a := .ensureDir hash uid) hflight hplain
  · cases hnext
    exact ⟨h.pending, nofun, h.uses⟩
  · -- The directory.
    rename_i ready connected hash uid hwait
    cases hnext
    exact tidy_startTransfer h (h.draining _ hwait)
  · -- The transfer.
    rename_i ok hash hwait
    have hplain : Plain hash := h.draining _ hwait
    cases hnext
    split
    · exact tidy_uses (tidy_uses (tidy_wait (a := .rename hash) h hplain) (named_part hplain))
        (named_final hplain)
    · exact tidy_uses (tidy_wait (a := .remove hash true) h hplain) (named_part hplain)
  · -- The renaming.
    rename_i ok hash hwait
    have hplain : Plain hash := h.draining _ hwait
    cases hnext
    split
    · exact tidy_uses (tidy_wait (a := .check hash) h hplain) (named_final hplain)
    · exact tidy_uses (tidy_uses (tidy_wait (a := .copy hash) h hplain) (named_part hplain))
        (named_final hplain)
  · -- The copy.
    rename_i ok connected hash hwait
    have hplain : Plain hash := h.draining _ hwait
    cases hnext
    split
    · exact tidy_uses (tidy_wait (a := .remove hash false) h hplain) (named_part hplain)
    · exact tidy_fail h
  · -- The temporary file is removed.
    rename_i connected hash transferFailed hwait
    have hplain : Plain hash := h.draining _ hwait
    cases hnext
    split
    · exact tidy_fail h
    · exact tidy_uses (tidy_wait (a := .check hash) h hplain) (named_final hplain)
  · -- The last check.
    rename_i found connected hash hwait
    have hplain : Plain hash := h.draining _ hwait
    cases hnext
    split
    · exact tidy_publish h hplain
    · exact tidy_fail h
  · cases hnext

/-- Every run with plain hashes keeps the cache tidy. -/
theorem tidy_of_run {tmp : TempDir} {decode : String → Option (List UInt8)}
    (hrun : (AvatarCache.system tmp decode).Run plainHashes c) : Tidy tmp.avatars c := by
  refine hrun.invariant ?_ fun c c' e h hok hnext => tidy_of_next h hok hnext
  rintro c rfl
  exact ⟨nofun, nofun, fun hash path huse => huse.elim nofun nofun⟩

/-- In a run with plain hashes, every path that the cache uses is a file directly in its directory,
and no file is used for two hashes. -/
theorem contained_of_run (cwd : List (List Char)) {tmp : TempDir}
    {decode : String → Option (List UInt8)}
    (hrun : (AvatarCache.system tmp decode).Run plainHashes c) :
    (∀ hash path, Uses c hash path →
      ∃ name, place cwd (cut path) = place cwd tmp.avatars ++ [name]) ∧
    ∀ hash path hash' path', Uses c hash path → Uses c hash' path' →
      place cwd (cut path) = place cwd (cut path') → hash = hash' := by
  have htidy := tidy_of_run hrun
  constructor
  · intro hash path huse
    have hnamed := htidy.uses hash path huse
    rw [cut_named tmp hnamed]
    rcases place_named cwd tmp hnamed with hplace | hplace
    · exact ⟨_, hplace⟩
    · exact ⟨_, hplace⟩
  · intro hash path hash' path' huse huse' hsame
    have hnamed := htidy.uses hash path huse
    have hnamed' := htidy.uses hash' path' huse'
    rw [cut_named tmp hnamed, cut_named tmp hnamed'] at hsame
    exact hash_of_place tmp hnamed hnamed' hsame

/-- The temporary directory of the examples. -/
def systemTmp : TempDir := ⟨"/tmp", by decide⟩

/-- A client with an avatar. -/
def withAvatar (hash : String) : AvatarClient where
  clientType := 0
  uid := some "u"
  avatarHash := some hash

/-- A plain hash is probed. -/
theorem contained_plain : ∃ c, (AvatarCache.system systemTmp fun _ => none).Run plainHashes c ∧
    Uses c "0cc1" "/tmp/avatars/0cc1.img" ∧
    ∃ name, place [] (cut "/tmp/avatars/0cc1.img") = place [] systemTmp.avatars ++ [name] := by
  have hrun : (AvatarCache.system systemTmp fun _ => none).Run plainHashes
      (AvatarCache.build.updateFromClients systemTmp.avatars (fun _ => true)
        [withAvatar "0cc1"]) := by
    refine (Run.start rfl).step (i := .update [withAvatar "0cc1"] fun _ => true) ?_ rfl
    intro client hclient avatar havatar
    cases List.mem_singleton.mp hclient
    cases havatar
    decide
  have huse : Uses (AvatarCache.build.updateFromClients systemTmp.avatars (fun _ => true)
      [withAvatar "0cc1"]) "0cc1" "/tmp/avatars/0cc1.img" := .inl (List.mem_singleton_self _)
  exact ⟨_, hrun, huse, (contained_of_run [] hrun).1 _ _ huse⟩

/-- A hash `../x` is a file outside of the directory, and `x` and `./x` are the same file. -/
theorem not_contained :
    (∃ c, (AvatarCache.system systemTmp fun _ => none).Reachable c ∧
      ∃ hash path, Uses c hash path ∧
        ¬ ∃ name, place [] (cut path) = place [] systemTmp.avatars ++ [name]) ∧
    ∃ c, (AvatarCache.system systemTmp fun _ => none).Reachable c ∧
      ∃ hash path hash' path', Uses c hash path ∧ Uses c hash' path' ∧
        place [] (cut path) = place [] (cut path') ∧ hash ≠ hash' := by
  constructor
  -- The file of `../x` is two names above the directory, not one below it.
  · obtain ⟨c, hrun, hfiles⟩ := Run.exists_of_exec (AvatarCache.system systemTmp fun _ => none)
      (fun _ _ => True) (fun _ _ => true) [.update [withAvatar "../x"] fun _ => true] (·.files)
      (fun _ _ _ => trivial) (.start rfl) (a := [("../x", "/tmp/avatars/../x.img")]) rfl
    refine ⟨c, hrun, "../x", "/tmp/avatars/../x.img", .inl ?_, ?_⟩
    · rw [hfiles]
      exact List.mem_singleton_self _
    · rintro ⟨name, hplace⟩
      have hlength := congrArg List.length hplace
      rw [List.length_append, List.length_singleton] at hlength
      exact absurd hlength (by decide)
  -- Here the second hash is another name for the file of the first.
  · obtain ⟨c, hrun, hfiles⟩ := Run.exists_of_exec (AvatarCache.system systemTmp fun _ => none)
      (fun _ _ => True) (fun _ _ => true)
      [.update [withAvatar "x", withAvatar "./x"] fun _ => true, .probed true fun _ => true]
      (·.files) (fun _ _ _ => trivial) (.start rfl)
      (a := [("x", "/tmp/avatars/x.img"), ("./x", "/tmp/avatars/./x.img")]) rfl
    have hsame : place [] (cut "/tmp/avatars/x.img") = place [] (cut "/tmp/avatars/./x.img") := by
      decide
    refine ⟨c, hrun, "x", "/tmp/avatars/x.img", "./x", "/tmp/avatars/./x.img", .inl ?_, .inl ?_,
      hsame, by decide⟩
    · rw [hfiles]
      exact List.mem_cons_self
    · rw [hfiles]
      exact .tail _ List.mem_cons_self

end Nek0.Proofs.Dart
