import Nek0.Lib.Precedence
import Nek0.Proofs.Dart.UploadTargets

/-!
# `Nek0.Proofs.Dart.UploadDirectories`: the directories that `uploadFolder` makes

The directories on the remote path of a file are its `level`s: level 0 is the remote directory of
the call, and each further level takes one more name. `mkdirs` asks for every level from 1 on of
every file (`level_mem_mkdirs`), and for no level before those above it (`preceded_mkdirs`). Level 0
is left out: `_mkdirLevels` begins with the first name.

Only a name that is empty makes the first level the same as level 0. There is one when the name of a
local file begins with a backslash. `prepared_iff` says that the uploads find their directories just
if the first file with directories is such a file, or nothing is uploaded.
-/

set_option autoImplicit false

namespace Nek0.Proofs.Dart

open Nek0.Dart
open Nek0.Lib.Paths
open Nek0.Lib.Precedence

/-- The `k`-th directory on the way to a file with the directories `segs`. -/
def level (root : String) (segs : List (List Char)) (k : Nat) : String :=
  joinRemote root (joinPath (segs.take k))

/-- Before a file is uploaded, each directory on its path was asked for, after those above it. -/
def Prepared (root : String) (calls : List UploadCall) : Prop :=
  ∀ before rel localFile after,
    calls = before ++ .ftUpload (joinRemote root rel) localFile :: after →
    ∀ k ≤ (dirSegments rel).length, .mkDir (level root (dirSegments rel) k) ∈ before ∧
      ∀ earlier later, before = earlier ++ .mkDir (level root (dirSegments rel) k) :: later →
        ∀ j < k, level root (dirSegments rel) j ≠ level root (dirSegments rel) k →
          .mkDir (level root (dirSegments rel) j) ∈ earlier

/-- The first file with directories has an empty name for its first one. -/
def RootFirst (ordered : List String) : Prop :=
  ∃ rel, ordered.find? (fun rel => !(dirSegments rel).isEmpty) = some rel ∧
    (dirSegments rel).head? = some []

/-- Names without a slash. -/
def SlashFree (segs : List (List Char)) : Prop := ∀ seg ∈ segs, '/' ∉ seg

/-- Within the path of some file, the directory of the first request is above that of the second. -/
def AboveOf (root : String) (b a : UploadCall) : Prop :=
  ∃ segs, SlashFree segs ∧ ∃ j, 1 ≤ j ∧ j < segs.length ∧
    b = .mkDir (joinRemote root (joinPath (segs.take j))) ∧
    a = .mkDir (joinRemote root (joinPath segs))

/-! ### Paths of directories -/

theorem slashFree_dirSegments (rel : String) : SlashFree (dirSegments rel) := fun _ hseg =>
  not_mem_of_mem_splitOn '/' (List.mem_of_mem_dropLast hseg)

theorem SlashFree.take {segs : List (List Char)} (h : SlashFree segs) (k : Nat) :
    SlashFree (segs.take k) := fun seg hseg => h seg (List.mem_of_mem_take hseg)

/-- The joined path tells the names. -/
theorem joinPath_inj {segs segs' : List (List Char)} (h : SlashFree segs) (h' : SlashFree segs')
    (hne : segs ≠ []) (hne' : segs' ≠ []) : joinPath segs = joinPath segs' ↔ segs = segs' := by
  refine ⟨fun heq => ?_, fun heq => heq ▸ rfl⟩
  have := congrArg (List.splitOn '/') (String.ofList_injective heq)
  rwa [List.splitOn_intercalate '/' h hne, List.splitOn_intercalate '/' h' hne'] at this

/-- Two paths of a tree are two remote paths. -/
theorem joinRemote_injective (root : String) : Function.Injective (joinRemote root) := by
  intro rel rel' h
  by_cases hrel : rel = ""
  · by_cases hrel' : rel' = ""
    · rw [hrel, hrel']
    · rw [hrel, joinRemote_eq root hrel', ← String.toList_inj] at h
      simp at h
  · by_cases hrel' : rel' = ""
    · rw [hrel', joinRemote_eq root hrel, ← String.toList_inj] at h
      simp at h
    · exact (joinRemote_inj hrel hrel').mp h

theorem level_of_le {root : String} {segs : List (List Char)} {j k : Nat} (h : j ≤ k) :
    level root segs j = joinRemote root (joinPath ((segs.take k).take j)) := by
  rw [level, List.take_take, Nat.min_eq_left h]

/-- The first level is the root, just if the first name is empty. -/
theorem level_one_eq_iff (root : String) {segs : List (List Char)} (hne : segs ≠ []) :
    level root segs 1 = level root segs 0 ↔ segs.head? = some [] := by
  obtain ⟨seg, segs, rfl⟩ := List.exists_cons_of_ne_nil hne
  rw [level, level, (joinRemote_injective root).eq_iff, joinPath, joinPath, String.ofList_inj]
  simp

/-! ### The order of the requests -/

/-- The levels of one path are created from the top. -/
theorem preceded_mkdirLevels (root : String) {segs : List (List Char)} (h : SlashFree segs) :
    Preceded (AboveOf root) (mkdirLevels root segs) := by
  refine preceded_of_positions fun i hi b hb => ?_
  obtain ⟨segs', hsegs', j, hj, hjlt, rfl, ha⟩ := hb
  -- The request at position `i` tells the names, and those above it are a beginning of them.
  have hsame : segs.take (i + 1) = segs' := by
    have hne : segs.take (i + 1) ≠ [] := by
      refine List.ne_nil_of_length_pos ?_
      rw [List.length_take]
      omega
    have hne' : segs' ≠ [] := List.ne_nil_of_length_pos (by omega)
    exact (joinPath_inj (h.take _) hsegs' hne hne').mp
      (joinRemote_injective root (UploadCall.mkDir.inj ha))
  subst hsame
  rw [List.length_take] at hjlt
  refine ⟨j - 1, by omega, ?_⟩
  rw [List.take_take, Nat.min_eq_left (by omega), Nat.sub_add_cancel hj]

/-- So are all directories: a level that was seen was created before. -/
theorem preceded_mkdirs (root : String) (ordered seen : List String) :
    Preceded (AboveOf root) (mkdirs root ordered seen) := by
  induction ordered generalizing seen with
  | nil => exact preceded_nil
  | cons rel ordered ih =>
      rw [mkdirs]
      split
      · exact ih seen
      · split
        · exact ih seen
        · exact preceded_append (preceded_mkdirLevels root (slashFree_dirSegments rel)) (ih _)

theorem level_mem_mkdirLevels {root : String} {segs : List (List Char)} {k : Nat} (hk : 1 ≤ k)
    (hle : k ≤ segs.length) : .mkDir (level root segs k) ∈ mkdirLevels root segs := by
  refine List.mem_map.mpr ⟨k - 1, List.mem_range.mpr (by omega), ?_⟩
  rw [Nat.sub_add_cancel hk, level]

/-- Every level from 1 on is asked for, unless its path was seen before. -/
theorem level_mem_mkdirs (root : String) {ordered : List String} (seen : List String) {rel : String}
    (hrel : rel ∈ ordered) (hne : dirSegments rel ≠ []) :
    joinPath (dirSegments rel) ∈ seen ∨ ∀ k, 1 ≤ k → k ≤ (dirSegments rel).length →
      .mkDir (level root (dirSegments rel) k) ∈ mkdirs root ordered seen := by
  induction ordered generalizing seen with
  | nil => cases hrel
  | cons first ordered ih =>
      rw [mkdirs]
      rcases List.mem_cons.mp hrel with rfl | hrel
      · rw [if_neg (by simpa using hne)]
        split
        · next hseen => exact .inl (by simpa using hseen)
        · exact .inr fun k hk hle => List.mem_append_left _ (level_mem_mkdirLevels hk hle)
      · split
        · exact ih seen hrel
        · next hfirst =>
            split
            · exact ih seen hrel
            · rcases ih (joinPath (dirSegments first) :: seen) hrel with hmem | hall
              · rcases List.mem_cons.mp hmem with heq | hmem
                · -- The same directories were asked for just now.
                  have hsame := (joinPath_inj (slashFree_dirSegments rel)
                    (slashFree_dirSegments first) hne (by simpa using hfirst)).mp heq
                  rw [hsame]
                  exact .inr fun k hk hle => List.mem_append_left _ (level_mem_mkdirLevels hk hle)
                · exact .inl hmem
              · exact .inr fun k hk hle => List.mem_append_right _ (hall k hk hle)

/-- The first request is for the first level of the first file with directories. -/
theorem mkdirs_eq_cons (root : String) {ordered : List String} {rel : String}
    (h : ordered.find? (fun rel => !(dirSegments rel).isEmpty) = some rel) :
    ∃ rest, mkdirs root ordered [] = .mkDir (level root (dirSegments rel) 1) :: rest := by
  induction ordered with
  | nil => cases h
  | cons first ordered ih =>
      rw [mkdirs]
      cases hfirst : (dirSegments first).isEmpty with
      | true =>
          rw [List.find?_cons_of_neg (by simp [hfirst])] at h
          exact ih h
      | false =>
          rw [List.find?_cons_of_pos (by simp [hfirst])] at h
          cases h
          have hlength : ∃ n, (dirSegments rel).length = n + 1 := by
            refine ⟨(dirSegments rel).length - 1, ?_⟩
            have := List.length_pos_of_ne_nil (l := dirSegments rel) (by simpa using hfirst)
            omega
          obtain ⟨n, hn⟩ := hlength
          simp only [Bool.false_eq_true, if_false, List.contains_nil, mkdirLevels, hn,
            List.range_succ_eq_map, List.map_cons, List.cons_append]
          exact ⟨_, rfl⟩

/-- Files at the top need no directory. -/
theorem mkdirs_eq_nil {root : String} {ordered seen : List String}
    (h : ordered.find? (fun rel => !(dirSegments rel).isEmpty) = none) :
    mkdirs root ordered seen = [] := by
  induction ordered generalizing seen with
  | nil => rfl
  | cons first ordered ih =>
      rw [mkdirs]
      cases hfirst : (dirSegments first).isEmpty with
      | true =>
          rw [List.find?_cons_of_neg (by simp [hfirst])] at h
          exact ih h
      | false =>
          rw [List.find?_cons_of_pos (by simp [hfirst])] at h
          cases h

/-! ### The uploads -/

/-- The requests for the files. -/
def uploadCalls (root : String) (uploads : List (String × String)) : List UploadCall :=
  uploads.map fun f => .ftUpload (joinRemote root f.2) f.1

/-- An upload comes after all the directories. -/
theorem before_of_upload {root : String} {ordered : List String} {uploads : List (String × String)}
    {before after : List UploadCall} {rel localFile : String}
    (h : mkdirs root ordered [] ++ uploadCalls root uploads =
      before ++ .ftUpload (joinRemote root rel) localFile :: after) :
    (∃ f ∈ uploads, f.2 = rel) ∧ ∃ ups, before = mkdirs root ordered [] ++ ups ∧
      ∀ path, UploadCall.mkDir path ∉ ups := by
  -- The calls are cut behind the directories, because directories upload nothing.
  obtain ⟨ups, hbefore, hups⟩ : ∃ ups, before = mkdirs root ordered [] ++ ups ∧
      ups ++ .ftUpload (joinRemote root rel) localFile :: after = uploadCalls root uploads := by
    rcases List.append_eq_append_iff.mp h with ⟨ups, hups, hafter⟩ | ⟨ups, hdirs, hafter⟩
    · exact ⟨ups, hups, hafter.symm⟩
    · cases ups with
      | nil => exact ⟨[], by simpa using hdirs.symm, by simpa using hafter⟩
      | cons call ups =>
          obtain ⟨rfl, -⟩ := List.cons.inj hafter
          -- Otherwise the upload would be among the directories.
          have hmem : .ftUpload (joinRemote root rel) localFile ∈ mkdirs root ordered [] := by
            rw [hdirs]
            exact List.mem_append_right _ List.mem_cons_self
          exact absurd hmem ftUpload_not_mem_mkdirs
  refine ⟨?_, ups, hbefore, ?_⟩
  · have hmem : .ftUpload (joinRemote root rel) localFile ∈ uploadCalls root uploads := by
      rw [← hups]
      exact List.mem_append_right _ List.mem_cons_self
    obtain ⟨f, hf, hcall⟩ := List.mem_map.mp hmem
    exact ⟨f, hf, joinRemote_injective root (UploadCall.ftUpload.inj hcall).1⟩
  -- And among the uploads no directory is created.
  · intro path hpath
    have hmem : .mkDir path ∈ uploadCalls root uploads := by
      rw [← hups]
      exact List.mem_append_left _ hpath
    obtain ⟨f, -, hcall⟩ := List.mem_map.mp hmem
    cases hcall

/-- A request for a directory that is before an upload is one of `mkdirs`. -/
theorem split_of_mkDir {dirs ups earlier later : List UploadCall} {path : String}
    (hups : ∀ path, UploadCall.mkDir path ∉ ups)
    (h : dirs ++ ups = earlier ++ .mkDir path :: later) :
    ∃ later', dirs = earlier ++ .mkDir path :: later' := by
  rcases List.append_eq_append_iff.mp h with ⟨between, -, hups'⟩ | ⟨between, hdirs, hlater⟩
  · exact absurd (by rw [hups']; exact List.mem_append_right _ List.mem_cons_self) (hups path)
  · cases between with
    | nil =>
        rw [List.nil_append] at hlater
        exact absurd (by rw [← hlater]; exact List.mem_cons_self) (hups path)
    | cons call between =>
        obtain ⟨rfl, -⟩ := List.cons.inj hlater
        exact ⟨between, hdirs⟩

/-- If the root comes first, everything is there in time. -/
theorem prepared_of_rootFirst {root : String} {ordered : List String}
    {uploads : List (String × String)} (hfirst : RootFirst ordered)
    (hmem : ∀ f ∈ uploads, f.2 ∈ ordered) :
    Prepared root (mkdirs root ordered [] ++ uploadCalls root uploads) := by
  obtain ⟨first, hfind, hhead⟩ := hfirst
  obtain ⟨rest, hrest⟩ := mkdirs_eq_cons root hfind
  have hneFirst : dirSegments first ≠ [] := by
    intro hnil
    rw [hnil] at hhead
    cases hhead
  -- The first level of the first directory is the root of all of them.
  have hroot : ∀ segs, level root (dirSegments first) 1 = level root segs 0 := fun segs =>
    (level_one_eq_iff root hneFirst).mpr hhead
  intro before rel localFile after hcalls k hk
  obtain ⟨⟨f, hf, rfl⟩, ups, rfl, hups⟩ := before_of_upload hcalls
  constructor
  -- A level was created: the root at first, and the others with the path that they are in.
  · refine List.mem_append_left _ ?_
    rcases Nat.eq_zero_or_pos k with rfl | hpos
    · rw [hrest, hroot (dirSegments f.2)]
      exact List.mem_cons_self
    · have hne : dirSegments f.2 ≠ [] := List.ne_nil_of_length_pos (by omega)
      rcases level_mem_mkdirs root [] (hmem f hf) hne with hseen | hall
      · exact absurd hseen List.not_mem_nil
      · exact hall k hpos hk
  · intro earlier later hsplit j hj hdiffer
    obtain ⟨later', hdirs⟩ := split_of_mkDir hups hsplit
    rcases Nat.eq_zero_or_pos j with rfl | hpos
    · -- The root is the first directory, so a request for another one comes later.
      cases earlier with
      | nil =>
          rw [hrest, hroot (dirSegments f.2), List.nil_append] at hdirs
          exact absurd (UploadCall.mkDir.inj (List.cons.inj hdirs).1) hdiffer
      | cons call earlier =>
          rw [hrest, hroot (dirSegments f.2), List.cons_append] at hdirs
          rw [← (List.cons.inj hdirs).1]
          exact List.mem_cons_self
    -- The level above another one was created before it.
    · refine preceded_mkdirs root ordered [] earlier _ later' hdirs _
        ⟨_, (slashFree_dirSegments f.2).take k, j, hpos, ?_, ?_, rfl⟩
      · rw [List.length_take]
        omega
      · rw [level_of_le hj.le]

/-- An upload that finds its directories needs the root. -/
theorem rootFirst_of_prepared {root : String} {ordered : List String}
    {uploads : List (String × String)} (hne : uploads ≠ [])
    (hmem : ∀ rel ∈ ordered, ∃ f ∈ uploads, f.2 = rel)
    (hprepared : Prepared root (mkdirs root ordered [] ++ uploadCalls root uploads)) :
    RootFirst ordered := by
  cases hfind : ordered.find? fun rel => !(dirSegments rel).isEmpty with
  | none =>
      -- No directory is asked for, not even the root.
      obtain ⟨f, uploads, rfl⟩ := List.exists_cons_of_ne_nil hne
      have := (hprepared (mkdirs root ordered []) f.2 f.1 _ rfl 0 (Nat.zero_le _)).1
      rw [mkdirs_eq_nil hfind] at this
      cases this
  | some first =>
      refine ⟨first, hfind, ?_⟩
      obtain ⟨rest, hrest⟩ := mkdirs_eq_cons root hfind
      have hneFirst : dirSegments first ≠ [] := by
        simpa using List.find?_some hfind
      obtain ⟨f, hf, hfrel⟩ := hmem first (List.mem_of_find?_eq_some hfind)
      obtain ⟨ups, ups', rfl⟩ := List.append_of_mem hf
      by_contra hhead
      have hdiffer := mt (level_one_eq_iff root hneFirst).mp hhead
      -- The first request is for the first level, and there is none before it.
      have := (hprepared (mkdirs root ordered [] ++ uploadCalls root ups) first f.1
        (uploadCalls root ups') (by simp [uploadCalls, hfrel]) 1
        (List.length_pos_of_ne_nil hneFirst)).2 [] (rest ++ uploadCalls root ups)
        (by rw [hrest]; rfl) 0 Nat.zero_lt_one (Ne.symm hdiffer)
      cases this

/-- The uploads find their directories, just if the root comes first. -/
theorem prepared_iff (tree : LocalTree) (sort : (rels : List String) → DepthOrder rels)
    (connected : Bool) (localDirPath remoteDirPath : String) :
    (∀ started calls,
        uploadFolder tree sort connected localDirPath remoteDirPath started = some calls →
          Prepared remoteDirPath calls) ↔
      (connected = true → ∀ files, localFiles tree localDirPath = some files → files ≠ [] →
        RootFirst (sort (files.map (·.2))).ordered) := by
  constructor
  -- All of the files go up, so the condition is about all directories of the tree.
  · rintro hprepared rfl files hfiles hne
    have hcalls := hprepared files.length
      (mkdirs remoteDirPath (sort (files.map (·.2))).ordered [] ++ uploadCalls remoteDirPath files)
      (by rw [uploadFolder, hfiles, Option.map_some, if_pos rfl, List.take_length]; rfl)
    refine rootFirst_of_prepared hne (fun rel hrel => ?_) hcalls
    exact List.mem_map.mp ((sort (files.map (·.2))).perm.mem_iff.mp hrel)
  · intro hfirst started calls hcalls
    rw [uploadFolder] at hcalls
    obtain ⟨files, hfiles, rfl⟩ := Option.map_eq_some_iff.mp hcalls
    cases connected with
    | false =>
        intro before rel localFile after h
        simp at h
    | true =>
        rw [if_pos rfl]
        -- Without files nothing is uploaded.
        by_cases hne : files = []
        · intro before rel localFile after h
          obtain ⟨⟨f, hf, -⟩, -⟩ := before_of_upload h
          exact absurd (List.mem_of_mem_take hf) (hne ▸ List.not_mem_nil)
        · refine prepared_of_rootFirst (hfirst rfl files hfiles hne) fun f hf => ?_
          exact (sort (files.map (·.2))).perm.mem_iff.mpr
            (List.mem_map.mpr ⟨f, List.mem_of_mem_take hf, rfl⟩)

/-- A directory with one file. -/
def oneFile : LocalTree := fun dir => if dir = "/d" then some [⟨"f", .file, by decide⟩] else none

/-- The file is uploaded, and the new directory was never asked for. -/
theorem not_prepared : ∃ calls,
    uploadFolder oneFile stableSort true "/d" "/new" 1 = some calls ∧ ¬Prepared "/new" calls := by
  have hfiles : localFiles oneFile "/d" = some [("/d/f", "f")] := by decide +kernel
  have hcalls : uploadFolder oneFile stableSort true "/d" "/new" 1 =
      some [.ftUpload (joinRemote "/new" "f") "/d/f"] := by
    have hdirs : mkdirs "/new" (stableSort ["f"]).ordered [] = [] :=
      mkdirs_eq_nil (by simp only [stableSort, List.mergeSort_singleton]; decide)
    rw [uploadFolder, hfiles, Option.map_some, if_pos rfl]
    show some (mkdirs "/new" (stableSort ["f"]).ordered [] ++ _) = _
    rw [hdirs]
    rfl
  refine ⟨_, hcalls, fun hprepared => ?_⟩
  exact absurd (hprepared [] "f" "/d/f" [] rfl 0 (Nat.zero_le _)).1 List.not_mem_nil

end Nek0.Proofs.Dart
