import Nek0.Dart.FolderDiscovery

/-!
# `Nek0.Proofs.Dart.BoundedWalks`: the limits of `downloadFolder`

Every round of the discovery goes on to the next directory, and there is none after
`maxFolderFiles` directories. So the discovery ends (`discovery_ends`), and there are no more
listings than that.

The limit on the files is another matter. The loop compares the number of the files found with it
before each directory, and not within the answer for one. `bounded_iff` says that the number of
transfers stays within the limit just if no answer takes it beyond: the files of the answers before
it and its own are together at most `maxFolderFiles`. Files whose transfer is refused do not count.
-/

set_option autoImplicit false

namespace Nek0.Proofs.Dart

open Nek0.Dart
open Nek0.Lib.Loop
open Nek0.Native (Call tsFtDownload tsFtList)

/-- The transfers that are started for the files. -/
def transfers (w : Walk) (remoteDirPath localDestDir : String) (rels : List String) : List Call :=
  rels.filterMap fun rel =>
    tsFtDownload w.channelId (some (joinRemote remoteDirPath rel))
      (some (Walk.localTarget localDestDir rel)) w.password

/-- The entry is a file that is found. -/
def isFound (rel : String) (e : FtEntry) : Bool :=
  !(e.isParent || e.name.isEmpty || e.name == ".") &&
    (splitPath (Walk.childRel rel e.name)).length ≤ maxFolderDepth && e.isFile

/-- The files of an answer. -/
def answerFiles (rel : String) (entries : List FtEntry) : List String :=
  (entries.filter (isFound rel)).map fun e => Walk.childRel rel e.name

/-- The files of several answers. -/
def filesOf (answers : List Answer) : List String :=
  answers.flatMap fun a => answerFiles a.rel a.entries

/-- The limits, for a call that is not stopped or is stopped after some file. -/
structure Bounded (w : Walk) (remoteDirPath localDestDir : String) (d : Discovery) : Prop where
  listings : d.listings.length ≤ maxFolderFiles
  transfers : ∀ started,
    (w.folderDownloads remoteDirPath localDestDir started).length ≤ maxFolderFiles
  depth : ∀ rel ∈ d.foundPaths, (splitPath rel).length ≤ maxFolderDepth

/-- After these answers, the next one does not take the number of the transfers beyond the limit. -/
def Fits (w : Walk) (remoteDirPath localDestDir : String) (before : List Answer) (a : Answer) :
    Prop :=
  (transfers w remoteDirPath localDestDir (filesOf before)).length +
    (transfers w remoteDirPath localDestDir (answerFiles a.rel a.entries)).length ≤ maxFolderFiles

/-- Each of the answers fits after those before it. -/
def AllFit (w : Walk) (remoteDirPath localDestDir : String) (answers : List Answer) : Prop :=
  ∀ before a after, answers = before ++ a :: after → Fits w remoteDirPath localDestDir before a

/-! ### One answer -/

/-- An answer of one entry names at most one file. -/
theorem answerFiles_singleton (rel : String) (e : FtEntry) :
    answerFiles rel [e] = if isFound rel e then [Walk.childRel rel e.name] else [] := by
  unfold answerFiles
  cases h : isFound rel e with
  | true => rw [List.filter_cons_of_pos h]; rfl
  | false => rw [List.filter_cons_of_neg (by simp [h])]; rfl

/-- A visit adds the file that the entry is, if it is one. -/
theorem visit_snd (rel : String) (st : List String × List String) (e : FtEntry) :
    (Walk.visit rel st e).2 = st.2 ++ answerFiles rel [e] := by
  rw [answerFiles_singleton]
  unfold Walk.visit isFound
  cases hspecial : e.isParent || e.name.isEmpty || e.name == "." with
  | true => simp
  | false =>
      by_cases hdeep : (splitPath (Walk.childRel rel e.name)).length > maxFolderDepth
      · simp [hdeep, Nat.not_le.mpr hdeep]
      · cases hfile : e.isFile with
        | true => simp [hdeep, Nat.not_lt.mp hdeep]
        | false => simp [hdeep]

/-- A listing adds its files, in its order. -/
theorem foldl_visit_snd (rel : String) (entries : List FtEntry) (st : List String × List String) :
    (entries.foldl (Walk.visit rel) st).2 = st.2 ++ answerFiles rel entries := by
  induction entries generalizing st with
  | nil => simp [answerFiles]
  | cons e entries ih =>
      rw [List.foldl_cons, ih, visit_snd, List.append_assoc, answerFiles, answerFiles, answerFiles,
        ← List.map_append, ← List.filter_append, List.singleton_append]

/-- Every file of an answer is within the depth that the walk allows. -/
theorem depth_of_mem_answerFiles {rel : String} {entries : List FtEntry} {found : String}
    (h : found ∈ answerFiles rel entries) : (splitPath found).length ≤ maxFolderDepth := by
  obtain ⟨e, he, rfl⟩ := List.mem_map.mp h
  have := (List.mem_filter.mp he).2
  simp only [isFound, Bool.and_eq_true, decide_eq_true_eq] at this
  exact this.1.2

/-! ### The discovery -/

section
variable (w : Walk) (remoteDirPath localDestDir : String)

/-- What a round of the discovery changes. -/
theorem discovery_step {d d' : Discovery} (h : d.step w remoteDirPath = some d') :
    d.i < maxFolderFiles ∧ d'.i = d.i + 1 ∧ d'.listings.length ≤ d.listings.length + 1 ∧
      ((d'.foundPaths = d.foundPaths ∧ d'.answers = d.answers) ∨
        ∃ rel entries, d'.foundPaths = d.foundPaths ++ answerFiles rel entries ∧
          d'.answers = d.answers ++ [⟨rel, entries⟩]) := by
  unfold Discovery.step at h
  split at h
  · cases h
  · next rel _ =>
      split at h
      · cases h
      · next hlimits =>
          have hi : d.i < maxFolderFiles := by omega
          split at h
          · cases h
            exact ⟨hi, rfl, Nat.le_succ _, .inl ⟨rfl, rfl⟩⟩
          · dsimp only at h
            split at h
            · cases h
              exact ⟨hi, rfl, by simp, .inl ⟨rfl, rfl⟩⟩
            · next entries _ =>
                cases h
                exact ⟨hi, rfl, by simp, .inr ⟨rel, entries, foldl_visit_snd rel entries _, rfl⟩⟩

/-- The discovery ends, whatever the server answers. -/
theorem discovery_ends :
    ∃ d, ∀ fuel > maxFolderFiles, Discovery.run w remoteDirPath fuel = some d :=
  loop_of_measure (fun d => maxFolderFiles - d.i)
    (fun d d' h => by
      obtain ⟨hi, hi', -⟩ := discovery_step w remoteDirPath h
      show maxFolderFiles - d'.i < maxFolderFiles - d.i
      omega)
    Discovery.start

/-- What `scan` still does from a state of the loop. -/
def scanFrom (d : Discovery) : List String :=
  w.scan remoteDirPath (maxFolderFiles - d.i) d.i d.dirsToScan d.foundPaths

/-- A walk that can take no step has found what it found. -/
theorem scanFrom_of_none {d : Discovery} (h : d.step w remoteDirPath = none) :
    scanFrom w remoteDirPath d = d.foundPaths := by
  unfold scanFrom
  cases hremaining : maxFolderFiles - d.i with
  | zero => rfl
  | succ remaining =>
      have hi : ¬d.i ≥ maxFolderFiles := by omega
      unfold Discovery.step at h
      unfold Walk.scan
      cases hrel : d.dirsToScan[d.i]? with
      | none => rfl
      | some rel =>
          simp only [hrel, hi, or_false] at h ⊢
          split
          · rfl
          · next hfound =>
              rw [if_neg hfound] at h
              split at h
              · cases h
              · split at h
                · cases h
                · cases h

/-- A step of the walk is a step of the scan. -/
theorem scanFrom_of_some {d d' : Discovery} (h : d.step w remoteDirPath = some d') :
    scanFrom w remoteDirPath d = scanFrom w remoteDirPath d' := by
  obtain ⟨hi, hi', -⟩ := discovery_step w remoteDirPath h
  obtain ⟨remaining, hremaining⟩ : ∃ n, maxFolderFiles - d.i = n + 1 :=
    ⟨maxFolderFiles - d.i - 1, by omega⟩
  -- The fuel of the scan is what is left of the bound, and a step takes one of it.
  have hremaining' : maxFolderFiles - d'.i = remaining := by omega
  have hlimit : ¬d.i ≥ maxFolderFiles := by omega
  unfold scanFrom
  rw [hremaining, hremaining', hi']
  unfold Discovery.step at h
  rw [Walk.scan]
  cases hrel : d.dirsToScan[d.i]? with
  | none => simp [hrel] at h
  | some rel =>
      simp only [hrel, hlimit, or_false] at h ⊢
      -- The branches of the step are those of the scan: enough files, too deep, no answer, a
      -- listing.
      split at h
      · cases h
      · next hfound =>
          rw [if_neg hfound]
          split at h
          · next hdeep =>
              rw [if_pos hdeep]
              cases h
              rfl
          · next hdeep =>
              rw [if_neg hdeep]
              cases hlist : w.listDirectory d.i (joinRemote remoteDirPath rel) with
              | none =>
                  rw [hlist] at h
                  cases h
                  rfl
              | some entries =>
                  rw [hlist] at h
                  cases h
                  rfl

/-- The loop finds the same files as `scan`. -/
theorem foundPaths_of_run {fuel : Nat} {d : Discovery}
    (h : Discovery.run w remoteDirPath fuel = some d) :
    d.foundPaths = w.scan remoteDirPath maxFolderFiles 0 [""] [] := by
  have hkept := loop_invariant
    (P := fun d => scanFrom w remoteDirPath Discovery.start = scanFrom w remoteDirPath d)
    (fun d d' hd h => hd.trans (scanFrom_of_some w remoteDirPath h)) rfl h
  rw [scanFrom_of_none w remoteDirPath (step_of_loop h)] at hkept
  exact hkept.symm

/-- What holds before each directory. -/
structure Scanned (d : Discovery) : Prop where
  i_le : d.i ≤ maxFolderFiles
  listings_le : d.listings.length ≤ d.i
  depth : ∀ rel ∈ d.foundPaths, (splitPath rel).length ≤ maxFolderDepth
  found : d.foundPaths = filesOf d.answers

theorem transfers_append (rels rels' : List String) :
    transfers w remoteDirPath localDestDir (rels ++ rels') =
      transfers w remoteDirPath localDestDir rels ++ transfers w remoteDirPath localDestDir rels' :=
  List.filterMap_append

/-- The answers fit just if the transfers for all of them are within the limit: if they are after
the last answer, then they were after every one before it. -/
theorem allFit_iff (answers : List Answer) :
    AllFit w remoteDirPath localDestDir answers ↔
      (transfers w remoteDirPath localDestDir (filesOf answers)).length ≤ maxFolderFiles := by
  have hsplit : ∀ before a after,
      (transfers w remoteDirPath localDestDir (filesOf (before ++ a :: after))).length =
        (transfers w remoteDirPath localDestDir (filesOf before)).length +
          ((transfers w remoteDirPath localDestDir (answerFiles a.rel a.entries)).length +
            (transfers w remoteDirPath localDestDir (filesOf after)).length) := by
    intro before a after
    rw [filesOf, List.flatMap_append, List.flatMap_cons, transfers_append, transfers_append,
      List.length_append, List.length_append]
    rfl
  constructor
  · intro hall
    cases answers.eq_nil_or_concat with
    | inl hnil =>
        rw [hnil]
        exact Nat.zero_le _
    | inr hlast =>
        obtain ⟨before, a, rfl⟩ := hlast
        have hfits := hall before a [] List.concat_eq_append
        rw [List.concat_eq_append, hsplit]
        exact hfits
  · rintro hle before a after rfl
    rw [hsplit] at hle
    rw [Fits]
    omega

/-- A step keeps what the walk knows of its listings. -/
theorem Scanned.step {d d' : Discovery} (hd : Scanned d)
    (h : d.step w remoteDirPath = some d') : Scanned d' := by
  obtain ⟨hi, hi', hlistings, hkept | ⟨rel, entries, hfound, hanswers⟩⟩ :=
    discovery_step w remoteDirPath h
  · obtain ⟨hfound, hanswers⟩ := hkept
    exact
      { i_le := by omega
        listings_le := by have := hd.listings_le; omega
        depth := hfound ▸ hd.depth
        found := by rw [hfound, hanswers]; exact hd.found }
  · refine
      { i_le := by omega
        listings_le := by have := hd.listings_le; omega
        depth := ?_
        found := ?_ }
    · intro found hmem
      rw [hfound, List.mem_append] at hmem
      exact hmem.elim (hd.depth found) depth_of_mem_answerFiles
    · rw [hfound, hanswers, hd.found, filesOf, filesOf, List.flatMap_append, List.flatMap_singleton]

/-- Hence every run does. -/
theorem scanned_of_run {fuel : Nat} {d : Discovery}
    (h : Discovery.run w remoteDirPath fuel = some d) : Scanned d := by
  refine loop_invariant (fun d d' hd h => hd.step w remoteDirPath h) ?_ h
  exact
    { i_le := Nat.zero_le _
      listings_le := Nat.le_refl _
      depth := by simp [Discovery.start]
      found := rfl }

/-- The downloads of a call that is stopped are among those of one that is not. -/
theorem folderDownloads_le_iff {fuel : Nat} {d : Discovery}
    (h : Discovery.run w remoteDirPath fuel = some d) :
    (∀ started, (w.folderDownloads remoteDirPath localDestDir started).length ≤ maxFolderFiles) ↔
      (transfers w remoteDirPath localDestDir d.foundPaths).length ≤ maxFolderFiles := by
  have hstarted : ∀ started, w.folderDownloads remoteDirPath localDestDir started =
      transfers w remoteDirPath localDestDir (d.foundPaths.take started) := by
    intro started
    rw [foundPaths_of_run w remoteDirPath h]
    rfl
  constructor
  · intro hall
    have := hall d.foundPaths.length
    rwa [hstarted, List.take_length] at this
  · intro hle started
    rw [hstarted]
    exact (((List.take_sublist _ _).filterMap _).length_le).trans hle

/-- The limits hold just if every answer fits. -/
theorem bounded_iff : ∃ d, (∀ fuel > maxFolderFiles, Discovery.run w remoteDirPath fuel = some d) ∧
    (Bounded w remoteDirPath localDestDir d ↔ AllFit w remoteDirPath localDestDir d.answers) := by
  obtain ⟨d, hd⟩ := discovery_ends w remoteDirPath
  refine ⟨d, hd, ?_⟩
  have hrun := hd (maxFolderFiles + 1) (Nat.lt_succ_self _)
  have hscanned := scanned_of_run w remoteDirPath hrun
  have htransfers := folderDownloads_le_iff w remoteDirPath localDestDir hrun
  rw [allFit_iff, ← hscanned.found, ← htransfers]
  constructor
  · intro hbounded
    exact hbounded.transfers
  · intro htransfers
    exact
      { listings := hscanned.listings_le.trans hscanned.i_le
        transfers := htransfers
        depth := hscanned.depth }

end

/-- A server that lists a file more often than there may be files. -/
def listsMany : Walk where
  channelId := 0
  password := none
  uuid := fun _ => "t"
  server := fun _ _ =>
    some (List.replicate (maxFolderFiles + 1)
      { name := "a", size := 0, datetime := 0, isFile := true })

/-- A listing of one file many times over, as the walk reads it. -/
theorem answerFiles_replicate (n : Nat) :
    answerFiles "" (List.replicate n { name := "a", size := 0, datetime := 0, isFile := true }) =
      List.replicate n "a" := by
  have hfound : isFound "" { name := "a", size := 0, datetime := 0, isFile := true } = true := by
    decide
  rw [answerFiles, List.filter_replicate_of_pos hfound, List.map_replicate]
  rfl

/-- The loop is left as soon as there are enough files. -/
theorem scan_of_full {w : Walk} {remoteDirPath : String} {remaining i : Nat}
    {dirs found : List String} (h : found.length ≥ maxFolderFiles) :
    w.scan remoteDirPath remaining i dirs found = found := by
  cases remaining with
  | zero => rfl
  | succ remaining =>
      rw [Walk.scan]
      cases dirs[i]? with
      | none => rfl
      | some rel => exact if_pos h

/-- It finds one file more than there may be. -/
theorem scan_listsMany : listsMany.scan "/docs" maxFolderFiles 0 [""] [] =
    List.replicate (maxFolderFiles + 1) "a" := by
  have hlist : listsMany.listDirectory 0 (joinRemote "/docs" "") = some
      (List.replicate (maxFolderFiles + 1)
        { name := "a", size := 0, datetime := 0, isFile := true }) := by
    have hcall : (tsFtList 0 (some (joinRemote "/docs" "")) none (some "t")).isSome = true := by
      decide
    obtain ⟨call, hcall⟩ := Option.isSome_iff_exists.mp hcall
    exact Option.bind_eq_some_iff.mpr ⟨call, hcall, rfl⟩
  rw [show maxFolderFiles = 499 + 1 from rfl, Walk.scan]
  simp only [List.getElem?_cons_zero, hlist]
  rw [if_neg (by decide), if_neg (by decide), scan_of_full, foldl_visit_snd, answerFiles_replicate]
  · rfl
  · rw [foldl_visit_snd, answerFiles_replicate]
    exact Nat.le_of_lt (by simp)

/-- One answer with more files than there may be has them all downloaded. -/
theorem not_bounded : ∃ d,
    (∀ fuel > maxFolderFiles, Discovery.run listsMany "/docs" fuel = some d) ∧
      ¬Bounded listsMany "/docs" "/tmp" d := by
  obtain ⟨d, hd⟩ := discovery_ends listsMany "/docs"
  refine ⟨d, hd, fun hbounded => ?_⟩
  have hfound := foundPaths_of_run listsMany "/docs" (hd (maxFolderFiles + 1) (Nat.lt_succ_self _))
  have hlength := (folderDownloads_le_iff listsMany "/docs" "/tmp"
    (hd (maxFolderFiles + 1) (Nat.lt_succ_self _))).mp hbounded.transfers
  have hcall : (tsFtDownload 0 (some (joinRemote "/docs" "a"))
      (some (Walk.localTarget "/tmp" "a")) none).isSome = true := by decide
  obtain ⟨call, hcall⟩ := Option.isSome_iff_exists.mp hcall
  have htransfers : transfers listsMany "/docs" "/tmp" (List.replicate (maxFolderFiles + 1) "a") =
      List.replicate (maxFolderFiles + 1) call :=
    List.filterMap_replicate_of_some (f := fun rel => tsFtDownload listsMany.channelId
      (some (joinRemote "/docs" rel)) (some (Walk.localTarget "/tmp" rel)) none) hcall
  rw [hfound, scan_listsMany, htransfers, List.length_replicate] at hlength
  omega

end Nek0.Proofs.Dart
