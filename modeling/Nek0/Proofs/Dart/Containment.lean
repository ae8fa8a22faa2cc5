import Nek0.Dart.FolderDownload
import Nek0.Proofs.Native.CanonicalPaths

/-!
# `Nek0.Proofs.Dart.Containment`: downloads stay below their directory

The local path of a download is never checked. It ends with the same names as the remote path, and
`valid_remote_path` rejects the remote path if one of them is `..`. `inside_iff` says when this is
enough: unless a NUL in the remote directory cuts the remote path before the names (`Confined`).

`inside_of_accept` is the comparison of the two paths, and `exists_outside` the listing that
escapes.
-/

set_option autoImplicit false

namespace Nek0.Proofs.Dart

open Nek0.Lib.Paths hiding trim
open Nek0.Dart hiding FtEntry
open Nek0.Native hiding FtEntry
open Nek0.Proofs.Native

/-- A string as it crosses the FFI: up to the first NUL. -/
abbrev cut (s : String) : String := cstrToString (some s)

/-- Where a local path leads, from the working directory `cwd`. -/
def place (cwd : List (List Char)) (path : String) : List (List Char) :=
  resolveFrom ['.'] ['.', '.'] (if path.toList.head? = some '/' then [] else cwd)
    (path.toList.splitOn '/')

/-- The path leads to the directory or below it. -/
def Inside (cwd : List (List Char)) (dir path : String) : Prop :=
  place cwd (cut dir) <+: place cwd path

/-- The remote directory has no NUL, or the NUL does no harm: the local directory has one too or is
the root, or the remote directory is rejected. -/
def Confined (cwd : List (List Char)) (remoteDir localDir : String) : Prop :=
  '\x00' ∈ remoteDir.toList →
    '\x00' ∈ localDir.toList ∨ place cwd localDir = [] ∨
      validRemotePath (normalizeRemotePath (cut remoteDir)) = false

/-! ### Strings across the FFI -/

theorem toList_cut (s : String) : (cut s).toList = s.toList.takeWhile (· ≠ '\x00') :=
  String.toList_ofList

/-- A string without a NUL reaches the library whole. -/
theorem cut_eq_self {s : String} (h : '\x00' ∉ s.toList) : cut s = s := by
  apply String.toList_inj.mp
  rw [toList_cut, List.takeWhile_eq_self_iff]
  intro c hc
  have hne : c ≠ '\x00' := fun heq => h (heq ▸ hc)
  simpa using hne

/-- Taking from a list stops where its first part does. -/
theorem takeWhile_append_of_mem {α : Type} {p : α → Bool} {a : α} {l : List α} (ha : a ∈ l)
    (hp : p a = false) (l' : List α) : (l ++ l').takeWhile p = l.takeWhile p := by
  induction l with
  | nil => exact absurd ha List.not_mem_nil
  | cons b l ih =>
      rw [List.cons_append, List.takeWhile_cons, List.takeWhile_cons]
      rcases List.mem_cons.mp ha with rfl | hmem
      · rw [hp]
        rfl
      · rw [ih hmem]

/-- What follows a NUL is cut away. -/
theorem cut_append_of_mem {s : String} (h : '\x00' ∈ s.toList) (s' : String) :
    cut (s ++ s') = cut s := by
  apply String.toList_inj.mp
  rw [toList_cut, toList_cut, String.toList_append]
  exact takeWhile_append_of_mem h (by decide) _

/-- The NUL is looked for in the second part, if the first has none. -/
theorem toList_cut_append {s : String} (h : '\x00' ∉ s.toList) (s' : String) :
    (cut (s ++ s')).toList = s.toList ++ (cut s').toList := by
  rw [toList_cut, toList_cut, String.toList_append, List.takeWhile_append_of_pos]
  intro c hc
  have hne : c ≠ '\x00' := fun heq => h (heq ▸ hc)
  simpa using hne

/-- A path below a directory without a NUL. -/
theorem toList_cut_below {dir : String} (h : '\x00' ∉ dir.toList) (rel : String) :
    (cut (dir ++ "/" ++ rel)).toList = dir.toList ++ '/' :: (cut rel).toList := by
  have hslash : '\x00' ∉ (dir ++ "/").toList := by simp [h]
  rw [toList_cut_append hslash, String.toList_append]
  simp

/-! ### Two paths with the same end -/

/-- A path below a directory is resolved from where the directory is. -/
theorem place_below {cwd : List (List Char)} {dir path : String} {rel : List Char} (hdir : dir ≠ "")
    (hpath : path.toList = dir.toList ++ '/' :: rel) :
    place cwd path = resolveFrom ['.'] ['.', '.'] (place cwd dir) (rel.splitOn '/') := by
  have hne : dir.toList ≠ [] := fun h => hdir (String.toList_inj.mp h)
  rw [place, place, hpath, List.head?_append_of_ne_nil _ hne, List.splitOn_append_cons_self,
    resolveFrom, List.foldl_append]
  rfl

/-- A valid path has the parent's name nowhere behind a slash. -/
theorem not_mem_of_valid {path : String}
    (hvalid : validRemotePath (normalizeRemotePath path) = true)
    {front rel : List Char} (hpath : path.toList = front ++ '/' :: rel) :
    ['.', '.'] ∉ rel.splitOn '/' := by
  intro hmem
  have hsplit : ['.', '.'] ∈ path.toList.splitOn '/' := by
    rw [hpath, List.splitOn_append_cons_self]
    exact List.mem_append_right _ hmem
  -- The trimming does not reach it, and it is not empty.
  have hdot : isWhitespace '.' = false := rfl
  have htrim : ['.', '.'] ∈ (trim path.toList).splitOn '/' :=
    mem_splitOn_trim '/' rfl (by simp [hdot]) hsplit
  have hseg : ['.', '.'] ∈ segments '/' (trim path.toList) := List.mem_filter.mpr ⟨htrim, rfl⟩
  have hnorm : segments '/' (normalizeRemotePath path).toList =
      segments '/' (trim path.toList) := by
    rw [toList_normalize, segments_rooted '/' (proper_segments '/' _)]
  rw [← hnorm] at hseg
  exact (canonical_of_valid hvalid).noParent (List.mem_filter.mp hseg).1

/-- A call that starts a download has a valid remote path, and the local path up to the first NUL.
-/
theorem tsFtDownload_eq_some {cid : UInt32} {remote dest : String} {pw : Option String}
    {t : Transfer} (h : tsFtDownload cid (some remote) (some dest) pw = some (.startTransfer t)) :
    validRemotePath (normalizeRemotePath (cut remote)) = true ∧ t.localPath = cut dest := by
  simp only [tsFtDownload, Option.isNone_some, Bool.false_eq_true, if_false,
    Option.ite_none_left_eq_some, Bool.not_eq_true', Bool.not_eq_false, Option.some.injEq,
    Call.startTransfer.injEq] at h
  obtain ⟨hvalid, -, rfl⟩ := h
  exact ⟨hvalid, rfl⟩

/-- And with these it starts one. -/
theorem exists_tsFtDownload {remote dest : String}
    (hvalid : validRemotePath (normalizeRemotePath (cut remote)) = true)
    (hdest : (cut dest).toList ≠ []) (cid : UInt32) (pw : Option String) :
    ∃ t, tsFtDownload cid (some remote) (some dest) pw = some (.startTransfer t) ∧
      t.localPath = cut dest := by
  have hempty : (cut dest).isEmpty = false := by
    rw [Bool.eq_false_iff]
    intro h
    exact hdest (congrArg String.toList (String.isEmpty_iff.mp h))
  unfold tsFtDownload
  simp only [Option.isNone_some, Bool.false_eq_true, if_false, hvalid, Bool.not_true, hempty]
  exact ⟨_, rfl, rfl⟩

/-- An accepted download whose two paths end alike is inside its directory. -/
theorem inside_of_accept {cwd : List (List Char)} {remoteDir localDir rel : String} {cid : UInt32}
    {pw : Option String} {t : Transfer} (hlocal : localDir ≠ "")
    (hconfined : Confined cwd remoteDir localDir)
    (h : tsFtDownload cid (some (remoteDir ++ "/" ++ rel)) (some (localDir ++ "/" ++ rel)) pw =
      some (.startTransfer t)) : Inside cwd localDir t.localPath := by
  obtain ⟨hvalid, hpath⟩ := tsFtDownload_eq_some h
  rw [Inside, hpath]
  by_cases hnul : '\x00' ∈ localDir.toList
  · -- The local path is cut to the directory itself.
    rw [String.append_assoc, cut_append_of_mem hnul]
  · have hbelow := toList_cut_below hnul rel
    rw [place_below hlocal hbelow, cut_eq_self hnul]
    by_cases hremote : '\x00' ∈ remoteDir.toList
    · rcases hconfined hremote with hmem | hroot | hrejected
      · exact absurd hmem hnul
      · rw [hroot]
        exact List.nil_prefix
      · rw [String.append_assoc, cut_append_of_mem hremote, hrejected] at hvalid
        exact absurd hvalid Bool.false_ne_true
    · exact prefix_resolveFrom ['.'] ['.', '.']
        (not_mem_of_valid hvalid (toList_cut_below hremote rel)) _

/-- Every other pair of directories has an entry that escapes. Its name leads to the parent. -/
theorem exists_outside {cwd : List (List Char)} {remoteDir localDir : String}
    (hlocal : localDir ≠ "")
    (h : ¬ Confined cwd remoteDir localDir) (cid : UInt32) (pw : Option String) :
    ∃ t,
      tsFtDownload cid (some (remoteDir ++ "/" ++ "../.")) (some (localDir ++ "/" ++ "../.")) pw =
      some (.startTransfer t) ∧ ¬ Inside cwd localDir t.localPath := by
  simp only [Confined, not_forall, not_or, Bool.not_eq_false] at h
  obtain ⟨hremote, hnul, hroot, hvalid⟩ := h
  have hbelow := toList_cut_below hnul "../."
  have hpath : cut (remoteDir ++ "/" ++ "../.") = cut remoteDir := by
    rw [String.append_assoc, cut_append_of_mem hremote]
  have hdest : (cut (localDir ++ "/" ++ "../.")).toList ≠ [] := by
    rw [hbelow]
    exact List.append_ne_nil_of_right_ne_nil _ (List.cons_ne_nil _ _)
  obtain ⟨t, ht, hlocalPath⟩ := exists_tsFtDownload (hpath ▸ hvalid) hdest cid pw
  refine ⟨t, ht, fun hinside => ?_⟩
  rw [Inside, hlocalPath, cut_eq_self hnul, place_below hlocal hbelow] at hinside
  -- The name goes up once and stays there.
  have hup : resolveFrom ['.'] ['.', '.'] (place cwd localDir) ((cut "../.").toList.splitOn '/') =
      (place cwd localDir).dropLast := rfl
  have hlength := hinside.length_le
  rw [hup, List.length_dropLast] at hlength
  have hpos := List.length_pos_iff.mpr hroot
  omega

/-! ### The paths of the two downloads -/

/-- The local target is the directory and the relative path. -/
theorem localTarget_eq (dir rel : String) : Walk.localTarget dir rel = dir ++ "/" ++ rel := by
  have hsplit : ['/'].intercalate (splitPath rel) = rel.toList := List.intercalate_splitOn '/'
  have hne : splitPath rel ≠ [] := List.splitOn_ne_nil '/' rel.toList
  have hlast := List.dropLast_concat_getLast hne
  unfold Walk.localTarget
  generalize (splitPath rel).getLast hne = last at hlast
  apply String.toList_inj.mp
  rw [← hlast] at hsplit ⊢
  generalize (splitPath rel).dropLast = front at hsplit
  simp only [List.dropLast_concat, List.getLast?_concat, Option.getD_some]
  cases front with
  | nil =>
      simp only [List.nil_append, List.intercalate_singleton] at hsplit
      simp [hsplit]
  | cons seg front =>
      have hjoin : ['/'].intercalate (seg :: front ++ [last]) =
          ['/'].intercalate (seg :: front) ++ '/' :: last :=
        congrArg List.tail (rooted_concat '/' (List.cons_ne_nil seg front) last)
      rw [hjoin] at hsplit
      simp [← hsplit]

/-- The path of a child is not empty, whatever its parent's is. -/
theorem childRel_ne_empty {rel name : String} (h : name ≠ "") : Walk.childRel rel name ≠ "" := by
  unfold Walk.childRel
  split
  · exact h
  · intro hchild
    have hlist := congrArg String.toList hchild
    simp at hlist

/-- What the scan finds has a name. -/
theorem ne_empty_of_visit {rel : String} {st : List String × List String} {e : Nek0.Dart.FtEntry}
    (h : ∀ found ∈ st.2, found ≠ "") : ∀ found ∈ (Walk.visit rel st e).2, found ≠ "" := by
  unfold Walk.visit
  split
  · exact h
  · rename_i hskip
    have hname : e.name ≠ "" := by
      intro hname
      rw [hname] at hskip
      simp at hskip
    split
    · exact h
    · split
      · intro found hfound
        rcases List.mem_append.mp hfound with hmem | hnew
        · exact h found hmem
        · rw [List.mem_singleton.mp hnew]
          exact childRel_ne_empty hname
      · exact h

/-- A visited listing adds no empty path. -/
theorem ne_empty_of_foldl_visit {rel : String} (entries : List Nek0.Dart.FtEntry)
    {st : List String × List String} (h : ∀ found ∈ st.2, found ≠ "") :
    ∀ found ∈ (entries.foldl (Walk.visit rel) st).2, found ≠ "" := by
  induction entries generalizing st with
  | nil => exact h
  | cons e entries ih => exact ih (ne_empty_of_visit h)

/-- So the whole scan finds none. -/
theorem ne_empty_of_mem_scan (w : Walk) (root : String) {remaining i : Nat}
    {dirs found : List String} (h : ∀ rel ∈ found, rel ≠ "") :
    ∀ rel ∈ w.scan root remaining i dirs found, rel ≠ "" := by
  induction remaining generalizing i dirs found with
  | zero => exact h
  | succ remaining ih =>
      unfold Walk.scan
      split
      · exact h
      · split
        · exact h
        · split
          · exact ih h
          · split
            · exact ih h
            · exact ih (ne_empty_of_foldl_visit _ h)

/-- A remote path that is not empty is joined behind the root and a slash. -/
theorem joinRemote_eq (root : String) {rel : String} (h : rel ≠ "") :
    joinRemote root rel = joinRemote root "" ++ "/" ++ rel := by
  have hempty : rel.isEmpty = false := by
    rw [Bool.eq_false_iff]
    exact fun hrel => h (String.isEmpty_iff.mp hrel)
  unfold joinRemote
  simp [hempty]

/-- A slash at the end of the remote directory makes no difference. -/
theorem confined_joinRemote {cwd : List (List Char)} (root localDir : String) :
    Confined cwd (joinRemote root "") localDir ↔ Confined cwd root localDir := by
  by_cases hslash : root.toList.getLast? = some '/'
  · obtain ⟨front, hfront⟩ := List.getLast?_eq_some_iff.mp hslash
    have hstrip : joinRemote root "" = String.ofList front := by
      unfold joinRemote
      simp [hfront]
    have hroot : root = String.ofList front ++ "/" := String.toList_inj.mp (by simp [hfront])
    have hmem : '\x00' ∈ root.toList ↔ '\x00' ∈ (String.ofList front).toList := by
      rw [hroot]
      simp
    rw [hstrip, Confined, Confined, hmem]
    refine imp_congr_right fun hnul => ?_
    rw [hroot, cut_append_of_mem hnul]
  · have hstrip : joinRemote root "" = root := by
      unfold joinRemote
      simp [hslash]
    rw [hstrip]

/-- `_join` with the prefix it puts before the slash. -/
theorem exists_join (currentPath : String) : ∃ front,
    (∀ name, FileManager.join currentPath name = front ++ "/" ++ name) ∧
    ∀ cwd localDir, Confined cwd front localDir ↔ Confined cwd currentPath localDir := by
  unfold FileManager.join
  by_cases hroot : (currentPath == "/" || currentPath.isEmpty) = true
  · refine ⟨"", fun name => by rw [if_pos hroot]; rfl, fun cwd localDir => ?_⟩
    have hnul : '\x00' ∉ currentPath.toList := by
      rcases Bool.or_eq_true_iff.mp hroot with hslash | hempty
      · rw [eq_of_beq hslash]
        decide
      · rw [String.isEmpty_iff.mp hempty]
        decide
    exact iff_of_true (fun hmem => absurd hmem (by decide)) fun hmem => absurd hmem hnul
  · exact ⟨currentPath, fun name => by rw [if_neg hroot], fun _ _ => Iff.rfl⟩

/-! ### Containment -/

/-- A server that lists one file. -/
def listsFile (name : String) : Walk where
  channelId := 0
  password := none
  uuid := fun _ => "t"
  server := fun _ _ => some [{ name := name, size := 0, datetime := 0, isFile := true }]

/-- If its root can be listed, the walk finds just that file. -/
theorem scan_listsFile {root : String}
    (hvalid : validRemotePath (normalizeRemotePath (cut (joinRemote root ""))) = true) :
    (listsFile "../.").scan root maxFolderFiles 0 [""] [] = ["../."] := by
  have hlist : (listsFile "../.").listDirectory 0 (joinRemote root "") =
      some [{ name := "../.", size := 0, datetime := 0, isFile := true }] := by
    have htoken : (cut "t").isEmpty = false := by decide
    unfold Walk.listDirectory tsFtList
    simp only [listsFile, Option.isNone_some, Bool.false_eq_true, if_false, hvalid, Bool.not_true,
      htoken]
    rfl
  have hmax : maxFolderFiles = 499 + 1 := rfl
  rw [hmax, Walk.scan]
  simp only [List.getElem?_cons_zero, hlist]
  rfl

/-- The file that is listed as `../.` is downloaded with its folder. -/
theorem mem_folderDownloads {root localDir : String}
    (hvalid : validRemotePath (normalizeRemotePath (cut (joinRemote root ""))) = true) {call : Call}
    (h : tsFtDownload 0 (some (joinRemote root "" ++ "/" ++ "../."))
      (some (localDir ++ "/" ++ "../.")) none = some call) :
    call ∈ (listsFile "../.").folderDownloads root localDir 1 := by
  rw [← joinRemote_eq root (by decide), ← localTarget_eq] at h
  refine List.mem_filterMap.mpr ⟨"../.", ?_, h⟩
  rw [scan_listsFile hvalid]
  exact List.mem_singleton_self _

/-- A tapped file is downloaded to its name in the staging directory. -/
theorem entryDownload_of_isFile {channelId : UInt32} {password : Option String}
    {currentPath tmpDir : String} {stamp : Nat} {entry : Nek0.Dart.FtEntry}
    (h : entry.isFile = true) :
    entryDownload channelId password currentPath tmpDir stamp entry =
      tsFtDownload channelId (some (FileManager.join currentPath entry.name))
        (some (stageDir tmpDir stamp ++ "/" ++ entry.name)) password := by
  unfold entryDownload
  rw [h]
  exact if_neg Bool.false_ne_true

/-- A folder download stays in its destination, whatever the server lists, if and only if the remote
directory is confined. The same holds of the download of one file. -/
theorem inside_iff (cwd : List (List Char)) :
    (∀ remoteDirPath localDestDir, localDestDir ≠ "" →
      ((∀ (w : Walk) started t,
          .startTransfer t ∈ w.folderDownloads remoteDirPath localDestDir started →
          Inside cwd localDestDir t.localPath) ↔
        Confined cwd remoteDirPath localDestDir)) ∧
    ∀ currentPath tmpDir stamp,
      (∀ channelId password entry t,
          entryDownload channelId password currentPath tmpDir stamp entry =
            some (.startTransfer t) →
          Inside cwd (stageDir tmpDir stamp) t.localPath) ↔
        Confined cwd currentPath (stageDir tmpDir stamp) := by
  constructor
  · intro remoteDirPath localDestDir hlocal
    rw [← confined_joinRemote]
    constructor
    -- A server that lists `../.` leads out of a destination that is not confined.
    · intro hall
      by_contra hnot
      have hvalid : validRemotePath (normalizeRemotePath (cut (joinRemote remoteDirPath ""))) =
          true := by
        simp only [Confined, not_forall, not_or, Bool.not_eq_false] at hnot
        exact hnot.2.2.2
      obtain ⟨t, ht, houtside⟩ := exists_outside hlocal hnot 0 none
      exact houtside (hall (listsFile "../.") 1 t (mem_folderDownloads hvalid ht))
    · intro hconfined w started t ht
      obtain ⟨rel, hrel, hcall⟩ := List.mem_filterMap.mp ht
      -- Every path that the walk finds has a name, so it is joined behind the root.
      have hname := ne_empty_of_mem_scan w remoteDirPath 
        (fun _ h => absurd h List.not_mem_nil) rel (List.mem_of_mem_take hrel)
      rw [joinRemote_eq remoteDirPath hname, localTarget_eq] at hcall
      exact inside_of_accept hlocal hconfined hcall
  · intro currentPath tmpDir stamp
    have hlocal : stageDir tmpDir stamp ≠ "" := by
      intro h
      have hlist := congrArg String.toList h
      simp [stageDir] at hlist
    obtain ⟨front, hjoin, hconfined⟩ := exists_join currentPath
    rw [← hconfined]
    constructor
    -- The same file leads out of the staging directory.
    · intro hall
      by_contra hnot
      obtain ⟨t, ht, houtside⟩ := exists_outside hlocal hnot 0 none
      refine houtside
        (hall 0 none { name := "../.", size := 0, datetime := 0, isFile := true } t ?_)
      rw [entryDownload_of_isFile rfl, hjoin]
      exact ht
    · intro hcond channelId password entry t ht
      unfold entryDownload at ht
      split at ht
      · cases ht
      · rw [hjoin] at ht
        exact inside_of_accept hlocal hcond ht

/-- A download from channel 0. -/
def downloadOf (path name localPath : String) : Transfer where
  kind := .download
  name := name
  localPath := localPath
  total := 0
  cid := 0
  path := path
  password := none

/-- A file of `/docs` is downloaded into `/tmp`. -/
theorem inside_docs :
    .startTransfer (downloadOf "/docs/a" "a" "/tmp/a") ∈
        (listsFile "a").folderDownloads "/docs" "/tmp" 1 ∧
      Inside [] "/tmp" "/tmp/a" := by
  have hmem : .startTransfer (downloadOf "/docs/a" "a" "/tmp/a") ∈
      (listsFile "a").folderDownloads "/docs" "/tmp" 1 := by
    rw [show (listsFile "a").folderDownloads "/docs" "/tmp" 1 =
      [.startTransfer (downloadOf "/docs/a" "a" "/tmp/a")] from rfl]
    exact List.mem_singleton_self _
  exact ⟨hmem, ((inside_iff []).1 "/docs" "/tmp" (by decide)).mpr (fun h => absurd h (by decide))
    _ 1 _ hmem⟩

/-- A directory with a NUL in its name lists `../../evil`. The download is accepted for the remote
path `/a`, and it is written outside of its directory. -/
theorem not_inside : ¬ ∀ (w : Walk) remoteDirPath localDestDir started t, localDestDir ≠ "" →
    .startTransfer t ∈ w.folderDownloads remoteDirPath localDestDir started →
    Inside [] localDestDir t.localPath := by
  intro hall
  have hmem : .startTransfer (downloadOf "/a" "a" "/tmp/nek0_1/../../evil") ∈
      (listsFile "../../evil").folderDownloads "/a\x00b" "/tmp/nek0_1" 1 := by
    rw [show (listsFile "../../evil").folderDownloads "/a\x00b" "/tmp/nek0_1" 1 =
      [.startTransfer (downloadOf "/a" "a" "/tmp/nek0_1/../../evil")] from rfl]
    exact List.mem_singleton_self _
  have h := hall _ "/a\x00b" "/tmp/nek0_1" 1 _ (by decide) hmem
  unfold Inside at h
  exact absurd h (by decide)

end Nek0.Proofs.Dart
