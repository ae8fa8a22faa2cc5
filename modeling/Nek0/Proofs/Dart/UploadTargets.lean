import Nek0.Dart.FolderUpload
import Nek0.Proofs.Dart.Containment

/-!
# `Nek0.Proofs.Dart.UploadTargets`: where `uploadFolder` puts the files

Every file that the walk finds is at the local directory, a separator, and then the names that lead
to it (`LedTo`). `uploadRel` looks for the directory with a slash after it. So it depends on whether
the directory ends with a slash itself:

* Without one, `uploadRel_of_open` gives these names, with a slash for each backslash in them.
* With one, `uploadRel_of_closed` gives the last name only.

`keepsTree_iff` is what follows for the remote paths: they are those of the files in the tree just
if no name has a backslash, or all files are in the directory itself.
-/

set_option autoImplicit false

namespace Nek0.Proofs.Dart

open Nek0.Dart
open Nek0.Lib.Paths

/-- The path of a local file relative to the directory. -/
def relativePath (localDirPath path : String) : String :=
  .ofList (path.toList.drop (ensureTrailingSeparator localDirPath).toList.length)

/-- The uploads keep the tree: each file goes to its relative path, and no two to one path. -/
structure KeepsTree (localDirPath remoteDirPath : String) (calls : List UploadCall) : Prop where
  placed : ∀ remoteFile localFile, .ftUpload remoteFile localFile ∈ calls →
    remoteFile = joinRemote remoteDirPath (relativePath localDirPath localFile)
  injective : ∀ remoteFile local₁ local₂, .ftUpload remoteFile local₁ ∈ calls →
    .ftUpload remoteFile local₂ ∈ calls → local₁ = local₂

/-- The directory is written with a slash at its end. The empty path is one of its names. -/
def Closed (localDirPath : String) : Prop :=
  localDirPath = "" ∨ localDirPath.toList.getLast? = some '/'

/-- The relative path is found as it is. -/
def PlainPath (localDirPath rel : String) : Prop :=
  (Closed localDirPath → '/' ∉ rel.toList) ∧ (¬Closed localDirPath → '\\' ∉ rel.toList)

/-- The path leads from the directory along some names. -/
def LedTo (localDirPath path : String) (names : List (List Char)) : Prop :=
  names ≠ [] ∧ Proper '/' names ∧
    path.toList = (ensureTrailingSeparator localDirPath).toList ++ ['/'].intercalate names

/-! ### Local paths -/

/-- The path ends in a separator afterwards. -/
theorem getLast?_ensureTrailingSeparator (path : String) :
    (ensureTrailingSeparator path).toList.getLast? = some '/' := by
  unfold ensureTrailingSeparator
  dsimp only
  generalize (if path.isEmpty = true then "." else path) = p
  split
  · assumption
  · simp

/-- A path without one is given one. -/
theorem ensureTrailingSeparator_of_open {path : String} (hne : path ≠ "")
    (hlast : path.toList.getLast? ≠ some '/') : ensureTrailingSeparator path = path ++ "/" := by
  have hpath : (if path.isEmpty = true then "." else path) = path := if_neg (by simpa using hne)
  unfold ensureTrailingSeparator
  dsimp only
  rw [hpath, if_neg hlast]

theorem relativePath_of_ledTo {localDirPath path : String} {names : List (List Char)}
    (h : LedTo localDirPath path names) : relativePath localDirPath path = joinPath names := by
  rw [relativePath, h.2.2, List.drop_left]
  rfl

/-- Names that are not empty join to a path that is not empty. -/
theorem intercalate_ne_nil {names : List (List Char)} (hne : names ≠ []) (h : Proper '/' names) :
    ['/'].intercalate names ≠ [] := by
  intro hnil
  have := segments_intercalate '/' h
  rw [hnil] at this
  exact hne this.symm

/-- The names do not begin with a slash. -/
theorem head_intercalate {names : List (List Char)} (h : Proper '/' names) :
    (['/'].intercalate names).head? ≠ some '/' := by
  cases names with
  | nil => simp
  | cons name names =>
      obtain ⟨hne, hslash⟩ := h name List.mem_cons_self
      obtain ⟨c, name, rfl⟩ := List.exists_cons_of_ne_nil hne
      have hc : c ≠ '/' := fun hc => hslash (hc ▸ List.mem_cons_self)
      cases names with
      | nil => simpa using hc
      | cons second names => simpa [List.intercalate_cons_cons] using hc

/-- Nor do they end with one. -/
theorem getLast_intercalate {names : List (List Char)} (hne : names ≠ []) (h : Proper '/' names) :
    (['/'].intercalate names).getLast? ≠ some '/' := by
  obtain ⟨front, last, rfl⟩ := (List.eq_nil_or_concat' names).resolve_left hne
  obtain ⟨hlast, hslash⟩ := h last (by simp)
  obtain ⟨last, c, rfl⟩ := (List.eq_nil_or_concat' last).resolve_left hlast
  rw [getLast?_intercalate_concat]
  intro hc
  exact hslash (by simp [Option.some.inj hc])

/-- An entity of the directory itself. -/
theorem ledTo_entityPath_root (localDirPath : String) (e : LocalEntity) :
    LedTo localDirPath (entityPath localDirPath e.name) [e.name.toList] := by
  refine ⟨by simp, ?_, by simp [entityPath]⟩
  intro name hname
  rw [List.mem_singleton.mp hname]
  exact ⟨by simpa using e.valid.1, e.valid.2⟩

/-- An entity of a directory further down. -/
theorem ledTo_entityPath {localDirPath dir : String} {names : List (List Char)}
    (h : LedTo localDirPath dir names) (e : LocalEntity) :
    LedTo localDirPath (entityPath dir e.name) (names ++ [e.name.toList]) := by
  obtain ⟨hne, hproper, hdir⟩ := h
  refine ⟨by simp, ?_, ?_⟩
  · intro name hname
    rcases List.mem_append.mp hname with hname | hname
    · exact hproper name hname
    · rw [List.mem_singleton.mp hname]
      exact ⟨by simpa using e.valid.1, e.valid.2⟩
  · have hdirNe : dir ≠ "" := by
      rintro rfl
      have := intercalate_ne_nil hne hproper
      simp_all
    have hlast : dir.toList.getLast? ≠ some '/' := by
      rw [hdir, List.getLast?_append_of_ne_nil _ (intercalate_ne_nil hne hproper)]
      exact getLast_intercalate hne hproper
    have hconcat : ['/'].intercalate (names ++ [e.name.toList]) =
        ['/'].intercalate names ++ '/' :: e.name.toList :=
      (List.cons.inj (rooted_concat '/' hne e.name.toList)).2
    rw [entityPath, ensureTrailingSeparator_of_open hdirNe hlast, hconcat, ← List.append_assoc,
      ← hdir]
    simp

/-! ### Relative paths -/

/-- Without a slash at the end of the directory, the names are found, with a slash for each
backslash. -/
theorem uploadRel_of_open {localDirPath path : String} {names : List (List Char)}
    (hopen : ¬Closed localDirPath) (h : LedTo localDirPath path names) :
    uploadRel localDirPath path =
      .ofList ((['/'].intercalate names).map fun c => if c = '\\' then '/' else c) := by
  obtain ⟨hne, hlast⟩ := not_or.mp hopen
  obtain ⟨-, -, hpath⟩ := h
  rw [ensureTrailingSeparator_of_open hne hlast] at hpath
  have hprefix : (localDirPath ++ "/").toList.isPrefixOf path.toList = true := by
    rw [hpath, List.isPrefixOf_iff_prefix]
    exact List.prefix_append _ _
  have hlength : localDirPath.toList.length + 1 = (localDirPath ++ "/").toList.length := by simp
  rw [uploadRel, if_pos hprefix, hpath, hlength, List.drop_left]

/-- With one, only the last name is found. -/
theorem uploadRel_of_closed {localDirPath path : String} {names : List (List Char)}
    (hclosed : Closed localDirPath) (h : LedTo localDirPath path names) :
    uploadRel localDirPath path = .ofList (names.getLast?.getD []) := by
  obtain ⟨hne, hproper, hpath⟩ := h
  have hprefix : ¬(localDirPath ++ "/").toList.isPrefixOf path.toList = true := by
    rw [List.isPrefixOf_iff_prefix, hpath]
    rcases hclosed with rfl | hlast
    · intro hp
      simp [ensureTrailingSeparator] at hp
    · intro hp
      have hensure : ensureTrailingSeparator localDirPath = localDirPath := by
        have hne : localDirPath ≠ "" := by
          rintro rfl
          simp at hlast
        unfold ensureTrailingSeparator
        simp [hne, hlast]
      rw [hensure, String.toList_append, List.prefix_append_right_inj] at hp
      obtain ⟨rest, hrest⟩ := hp
      exact head_intercalate hproper (by rw [← hrest]; rfl)
  -- The directory ends with a slash, so the names are the last segments.
  obtain ⟨front, hfront⟩ := List.getLast?_eq_some_iff.mp
    (getLast?_ensureTrailingSeparator localDirPath)
  have hsegments : (splitPath path).filter (!·.isEmpty) = segments '/' front ++ names := by
    show segments '/' path.toList = _
    rw [hpath, hfront, List.append_assoc, List.singleton_append, segments_append,
      segments_intercalate '/' hproper]
  rw [uploadRel, if_neg hprefix, hsegments, List.getLast?_append_of_ne_nil _ hne]

/-- Replacing changes nothing where there is nothing to replace. -/
theorem map_replace_eq_self_iff {l : List Char} {a b : Char} (hab : b ≠ a) :
    l.map (fun c => if c = a then b else c) = l ↔ a ∉ l := by
  induction l with
  | nil => simp
  | cons c l ih =>
      rw [List.map_cons, List.cons.injEq, ih, List.mem_cons, not_or]
      refine and_congr_left fun _ => ?_
      split
      · next hc => simp [hc, hab]
      · next hc => exact iff_of_true rfl (Ne.symm hc)

/-- One name, just if there is no slash in the path. -/
theorem getLast_eq_intercalate_iff {names : List (List Char)} (hne : names ≠ [])
    (h : Proper '/' names) :
    names.getLast?.getD [] = ['/'].intercalate names ↔ '/' ∉ ['/'].intercalate names := by
  obtain ⟨front, last, rfl⟩ := (List.eq_nil_or_concat' names).resolve_left hne
  have hslash : '/' ∉ last := (h last (by simp)).2
  rw [List.getLast?_concat, Option.getD_some]
  constructor
  · intro heq
    rwa [← heq]
  · intro hnone
    cases front with
    | nil => simp
    | cons name front =>
        refine absurd ?_ hnone
        rw [List.cons_append, List.intercalate_cons_of_ne_nil (by simp)]
        simp

/-- A path is uploaded under its relative path if and only if it is plain. -/
theorem plain_iff {localDirPath path : String} {names : List (List Char)}
    (h : LedTo localDirPath path names) :
    uploadRel localDirPath path = relativePath localDirPath path ↔
      PlainPath localDirPath (relativePath localDirPath path) := by
  rw [relativePath_of_ledTo h, PlainPath, joinPath, String.toList_ofList]
  by_cases hclosed : Closed localDirPath
  · rw [uploadRel_of_closed hclosed h, String.ofList_inj, getLast_eq_intercalate_iff h.1 h.2.1]
    simp [hclosed]
  · rw [uploadRel_of_open hclosed h, String.ofList_inj, map_replace_eq_self_iff (by decide)]
    simp [hclosed]

/-- No file is uploaded under an empty path. -/
theorem uploadRel_ne_empty {localDirPath path : String} {names : List (List Char)}
    (h : LedTo localDirPath path names) : uploadRel localDirPath path ≠ "" := by
  have ⟨hne, hproper, _⟩ := h
  by_cases hclosed : Closed localDirPath
  · rw [uploadRel_of_closed hclosed h]
    obtain ⟨front, last, rfl⟩ := (List.eq_nil_or_concat' names).resolve_left hne
    simpa using (hproper last (by simp)).1
  · rw [uploadRel_of_open hclosed h]
    simpa using intercalate_ne_nil hne hproper

theorem relativePath_ne_empty {localDirPath path : String} {names : List (List Char)}
    (h : LedTo localDirPath path names) : relativePath localDirPath path ≠ "" := by
  rw [relativePath_of_ledTo h, joinPath]
  simpa using intercalate_ne_nil h.1 h.2.1

theorem joinRemote_inj {root rel rel' : String} (h : rel ≠ "") (h' : rel' ≠ "") :
    joinRemote root rel = joinRemote root rel' ↔ rel = rel' := by
  rw [joinRemote_eq root h, joinRemote_eq root h', ← String.toList_inj, ← String.toList_inj]
  simp

/-! ### The walk -/

/-- A directory of the walk. -/
def Reached (localDirPath dir : String) : Prop :=
  dir = localDirPath ∨ ∃ names, LedTo localDirPath dir names

/-- What is known of the files found. -/
def Found (localDirPath : String) (files : List (String × String)) : Prop :=
  ∀ f ∈ files, f.2 = uploadRel localDirPath f.1 ∧ ∃ names, LedTo localDirPath f.1 names

/-- An entity of a directory that is reached is led to by names. -/
theorem Reached.entityPath {localDirPath dir : String} (h : Reached localDirPath dir)
    (e : LocalEntity) : ∃ names, LedTo localDirPath (entityPath dir e.name) names := by
  rcases h with rfl | ⟨names, h⟩
  · exact ⟨_, ledTo_entityPath_root dir e⟩
  · exact ⟨_, ledTo_entityPath h e⟩

/-- A file that the walk meets is added to what it has found. -/
theorem Found.setFile {localDirPath path : String} {files : List (String × String)}
    (h : Found localDirPath files) (hpath : ∃ names, LedTo localDirPath path names) :
    Found localDirPath (setFile files path (uploadRel localDirPath path)) := by
  unfold Nek0.Dart.setFile
  split
  · intro f hf
    obtain ⟨g, hg, rfl⟩ := List.mem_map.mp hf
    split
    · exact ⟨rfl, hpath⟩
    · exact h g hg
  · intro f hf
    rcases List.mem_append.mp hf with hf | hf
    · exact h f hf
    · rw [List.mem_singleton.mp hf]
      exact ⟨rfl, hpath⟩

/-- Visiting a directory reaches its directories and finds its files. -/
theorem found_visitEntities {localDirPath dir : String} (hdir : Reached localDirPath dir)
    (entities : List LocalEntity) {pendingDirs : List String} {files : List (String × String)}
    (hdirs : ∀ d ∈ pendingDirs, Reached localDirPath d) (hfiles : Found localDirPath files) :
    (∀ d ∈ (visitEntities localDirPath dir entities pendingDirs files).1,
        Reached localDirPath d) ∧
      Found localDirPath (visitEntities localDirPath dir entities pendingDirs files).2 := by
  induction entities generalizing pendingDirs files with
  | nil => exact ⟨hdirs, hfiles⟩
  | cons e entities ih =>
      have hpath := hdir.entityPath e
      rw [visitEntities]
      dsimp only
      split
      · split
        · exact ih hdirs hfiles
        · split
          · exact ⟨hdirs, hfiles.setFile hpath⟩
          · exact ih hdirs (hfiles.setFile hpath)
      · refine ih (fun d hd => ?_) hfiles
        rcases List.mem_append.mp hd with hd | hd
        · exact hdirs d hd
        · rw [List.mem_singleton.mp hd]
          exact .inr hpath
      · exact ih hdirs hfiles

/-- Everything that the walk lists was found on the way. -/
theorem found_walkLocal {tree : LocalTree} {localDirPath : String} {remaining : Nat}
    {pendingDirs : List String} {files found : List (String × String)}
    (hdirs : ∀ d ∈ pendingDirs, Reached localDirPath d) (hfiles : Found localDirPath files)
    (h : walkLocal tree localDirPath remaining pendingDirs files = some found) :
    Found localDirPath found := by
  induction remaining generalizing pendingDirs files with
  | zero =>
      cases h
      exact hfiles
  | succ remaining ih =>
      cases pendingDirs with
      | nil =>
          cases h
          exact hfiles
      | cons dir pendingDirs =>
          rw [walkLocal] at h
          split at h
          · cases h
          · next entities _ =>
              obtain ⟨hdirs', hfiles'⟩ := found_visitEntities
                (hdirs dir List.mem_cons_self) entities
                (fun d hd => hdirs d (List.mem_cons_of_mem _ hd)) hfiles
              dsimp only at h
              split at h
              · cases h
                exact hfiles'
              · exact ih hdirs' hfiles' h

theorem found_localFiles {tree : LocalTree} {localDirPath : String}
    {files : List (String × String)} (h : localFiles tree localDirPath = some files) :
    Found localDirPath files :=
  found_walkLocal (fun d hd => .inl (List.mem_singleton.mp hd)) (by simp [Found]) h

/-! ### The uploads -/

/-- Creating directories uploads nothing. -/
theorem ftUpload_not_mem_mkdirs {root remoteFile localFile : String} {ordered seen : List String} :
    UploadCall.ftUpload remoteFile localFile ∉ mkdirs root ordered seen := by
  induction ordered generalizing seen with
  | nil => simp [mkdirs]
  | cons rel ordered ih =>
      rw [mkdirs]
      split
      · exact ih
      · split
        · exact ih
        · intro hmem
          rcases List.mem_append.mp hmem with hmem | hmem
          · obtain ⟨i, -, hi⟩ := List.mem_map.mp hmem
            cases hi
          · exact ih hmem

/-- The uploads of a call. -/
theorem ftUpload_mem_iff {tree : LocalTree} {sort : (rels : List String) → DepthOrder rels}
    {connected : Bool} {localDirPath remoteDirPath : String} {started : Nat}
    {files : List (String × String)} {calls : List UploadCall} {remoteFile localFile : String}
    (hfiles : localFiles tree localDirPath = some files)
    (hcalls : uploadFolder tree sort connected localDirPath remoteDirPath started = some calls) :
    .ftUpload remoteFile localFile ∈ calls ↔ connected = true ∧
      ∃ f ∈ files.take started, joinRemote remoteDirPath f.2 = remoteFile ∧ f.1 = localFile := by
  rw [uploadFolder, hfiles, Option.map_some, Option.some.injEq] at hcalls
  subst hcalls
  cases connected with
  | false => simp
  | true =>
      rw [if_pos rfl, List.mem_append, or_iff_right ftUpload_not_mem_mkdirs, List.mem_map]
      simp only [UploadCall.ftUpload.injEq, true_and]

/-- The remote paths are those of the tree, just if the relative paths are plain. -/
theorem keepsTree_iff (tree : LocalTree) (sort : (rels : List String) → DepthOrder rels)
    (connected : Bool) (localDirPath remoteDirPath : String) :
    (∀ started calls,
        uploadFolder tree sort connected localDirPath remoteDirPath started = some calls →
          KeepsTree localDirPath remoteDirPath calls) ↔
      (connected = true → ∀ files, localFiles tree localDirPath = some files →
        ∀ f ∈ files, PlainPath localDirPath (relativePath localDirPath f.1)) := by
  constructor
  -- If all files go up, each shows that its relative path is plain.
  · rintro hkeeps rfl files hfiles f hf
    obtain ⟨hrel, names, hnames⟩ := found_localFiles hfiles f hf
    obtain ⟨calls, hcalls⟩ : ∃ calls,
        uploadFolder tree sort true localDirPath remoteDirPath files.length = some calls := by
      rw [uploadFolder, hfiles]
      exact ⟨_, rfl⟩
    have hplaced := (hkeeps files.length _ hcalls).placed _ _
      ((ftUpload_mem_iff hfiles hcalls).mpr ⟨rfl, f, by rwa [List.take_length], rfl, rfl⟩)
    rw [hrel, joinRemote_inj (uploadRel_ne_empty hnames) (relativePath_ne_empty hnames)] at hplaced
    exact (plain_iff hnames).mp hplaced
  · intro hplain started calls hcalls
    obtain ⟨files, hfiles⟩ : ∃ files, localFiles tree localDirPath = some files := by
      cases h : localFiles tree localDirPath with
      | none => simp [uploadFolder, h] at hcalls
      | some files => exact ⟨files, rfl⟩
    -- An uploaded file is one of the walk, and its path is plain by the condition.
    have hplaced : ∀ remoteFile localFile, .ftUpload remoteFile localFile ∈ calls →
        remoteFile = joinRemote remoteDirPath (relativePath localDirPath localFile) ∧
          ∃ names, LedTo localDirPath localFile names := by
      intro remoteFile localFile hmem
      obtain ⟨hconnected, f, hf, rfl, rfl⟩ := (ftUpload_mem_iff hfiles hcalls).mp hmem
      have hf := List.mem_of_mem_take hf
      obtain ⟨hrel, names, hnames⟩ := found_localFiles hfiles f hf
      rw [hrel, (plain_iff hnames).mpr (hplain hconnected files hfiles f hf)]
      exact ⟨rfl, names, hnames⟩
    refine ⟨fun remoteFile localFile hmem => (hplaced _ _ hmem).1, ?_⟩
    -- One remote path has one relative path, and a relative path has one file.
    intro remoteFile local₁ local₂ h₁ h₂
    obtain ⟨hremote₁, names₁, hnames₁⟩ := hplaced _ _ h₁
    obtain ⟨hremote₂, names₂, hnames₂⟩ := hplaced _ _ h₂
    have heq := (joinRemote_inj (relativePath_ne_empty hnames₁)
      (relativePath_ne_empty hnames₂)).mp (hremote₁.symm.trans hremote₂)
    rw [relativePath_of_ledTo hnames₁, relativePath_of_ledTo hnames₂, joinPath, joinPath,
      String.ofList_inj] at heq
    exact String.toList_inj.mp (by rw [hnames₁.2.2, hnames₂.2.2, heq])

/-- Two directories with a file of one name. -/
def twoDirectories : LocalTree := fun dir =>
  if dir = "/d/" then some [⟨"a", .directory, by decide⟩, ⟨"b", .directory, by decide⟩]
  else if dir = "/d/a" ∨ dir = "/d/b" then some [⟨"x", .file, by decide⟩]
  else none

theorem localFiles_twoDirectories :
    localFiles twoDirectories "/d/" = some [("/d/a/x", "x"), ("/d/b/x", "x")] := by
  decide +kernel

/-- Both files go to one path. -/
theorem not_keepsTree : ∃ calls,
    uploadFolder twoDirectories stableSort true "/d/" "/new" 2 = some calls ∧
      ¬KeepsTree "/d/" "/new" calls := by
  obtain ⟨calls, hcalls⟩ : ∃ calls,
      uploadFolder twoDirectories stableSort true "/d/" "/new" 2 = some calls := by
    rw [uploadFolder, localFiles_twoDirectories]
    exact ⟨_, rfl⟩
  refine ⟨calls, hcalls, fun hkeeps => ?_⟩
  have heq := hkeeps.injective (joinRemote "/new" "x") "/d/a/x" "/d/b/x"
    ((ftUpload_mem_iff localFiles_twoDirectories hcalls).mpr ⟨rfl, ("/d/a/x", "x"), by simp⟩)
    ((ftUpload_mem_iff localFiles_twoDirectories hcalls).mpr ⟨rfl, ("/d/b/x", "x"), by simp⟩)
  exact absurd heq (by decide)

end Nek0.Proofs.Dart
