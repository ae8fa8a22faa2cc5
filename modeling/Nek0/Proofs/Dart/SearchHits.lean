import Nek0.Dart.FileSearch

/-!
# `Nek0.Proofs.Dart.SearchHits`: what the hits of a search stand for

* `addressed_hit_iff`: a tap on a file is for the path of the hit exactly if the current path was
  the root when its directory was listed. A tap on a directory is exactly if the current path is the
  one of that moment again.
* `answersLatest_of_run`: while no search is under way, the hits answer the latest search, under the
  condition `endsCurrent`.

`RunSearch.Sound` says what a search has found so far, and every step keeps it.
-/

set_option autoImplicit false

namespace Nek0.Proofs.Dart

open Nek0.Lib.System (Run)
open Nek0.Dart
open FileManager (join)

/-! ### Joined paths -/

/-- The paths that `_join` treats as the root. -/
def isRoot (path : String) : Bool := path == "/" || path.isEmpty

theorem join_of_root {base : String} (h : isRoot base = true) (name : String) :
    join base name = "/" ++ name := if_pos h

theorem join_of_not_root {base : String} (h : isRoot base = false) (name : String) :
    join base name = base ++ "/" ++ name := if_neg (by rw [isRoot] at h; simp [h])

/-- A path of two or more characters is not the root: both spellings of the root are shorter. -/
theorem isRoot_eq_false_of_length {path : String} (h : 2 ≤ path.toList.length) :
    isRoot path = false := by
  rw [isRoot, Bool.or_eq_false_iff]
  constructor
  · refine beq_eq_false_iff_ne.mpr fun hroot => ?_
    subst hroot
    exact absurd h (by decide)
  · by_contra hempty
    have hnil : path = "" := by simpa using hempty
    subst hnil
    exact absurd h (by decide)

/-- A joined path is not the root, if the name is not empty. -/
theorem isRoot_join {base name : String} (h : name.isEmpty = false) :
    isRoot (join base name) = false := by
  -- A non-empty name adds at least one character behind the slash.
  have hlong : 1 ≤ name.toList.length := by
    rw [Nat.one_le_iff_ne_zero, Ne, List.length_eq_zero_iff]
    intro hnil
    have hname : name = "" := String.toList_inj.mp hnil
    subst hname
    exact absurd h (by decide)
  apply isRoot_eq_false_of_length
  cases hroot : isRoot base with
  | true =>
      rw [join_of_root hroot, String.toList_append, List.length_append]
      have : "/".toList.length = 1 := rfl
      omega
  | false =>
      rw [join_of_not_root hroot, String.toList_append, String.toList_append, List.length_append,
        List.length_append]
      have : "/".toList.length = 1 := rfl
      omega

/-- The path of a found entry is the current path joined with its relative path. -/
theorem join_scanPath (currentPath rel name : String) :
    join (scanPath currentPath rel) name = join currentPath (childRel rel name) := by
  -- At the root of the search the relative path is the name, below it the scanned path goes in
  -- front.
  cases hrel : rel.isEmpty with
  | true => rw [scanPath, childRel, hrel, if_pos rfl, if_pos rfl]
  | false =>
      rw [scanPath, childRel, hrel, if_neg Bool.false_ne_true, if_neg Bool.false_ne_true,
        join_of_not_root (isRoot_join hrel)]
      cases hroot : isRoot currentPath with
      | true =>
          rw [join_of_root hroot, join_of_root hroot]
          simp only [String.append_assoc]
      | false =>
          rw [join_of_not_root hroot, join_of_not_root hroot]
          simp only [String.append_assoc]

/-- Below the root, a joined path has something in front of the slash. -/
theorem root_append_ne {base : String} (h : isRoot base = false) (name : String) :
    "/" ++ name ≠ base ++ "/" ++ name := by
  intro heq
  -- Equal texts with the same end have equal fronts, and the front of the root is one slash.
  have hlist := congrArg String.toList heq
  rw [String.toList_append, String.toList_append, String.toList_append,
    List.append_left_inj] at hlist
  have hlen := congrArg List.length hlist
  rw [List.length_append] at hlen
  have hnil : base.toList = [] := List.length_eq_zero_iff.mp (by omega)
  have hempty : base = "" := String.toList_inj.mp hnil
  subst hempty
  exact absurd h (by decide)

/-- Joined with the same name, two paths agree if they are the same, or both the root. -/
theorem join_eq_join_iff {p q name : String} :
    join p name = join q name ↔ isRoot p = true ∧ isRoot q = true ∨ p = q := by
  cases hp : isRoot p with
  | true =>
      -- The spellings `/` and the empty text both join to `/name`. Every other base is recovered
      -- from the joined path.
      rw [join_of_root hp]
      cases hq : isRoot q with
      | true => simp [join_of_root hq]
      | false =>
          have hne : p ≠ q := fun h => by rw [h, hq] at hp; cases hp
          rw [join_of_not_root hq]
          simp [root_append_ne hq, hne]
  | false =>
      rw [join_of_not_root hp]
      cases hq : isRoot q with
      | true =>
          have hne : p ≠ q := fun h => by rw [h, hq] at hp; cases hp
          rw [join_of_root hq]
          simp [(root_append_ne hp name).symm, hne]
      | false =>
          rw [join_of_not_root hq]
          simp [← String.toList_inj]

/-! ### What a search has found -/

/-- The hit is in the listing of a directory below the current path of that moment. -/
def Located (hit : SearchHit) : Prop :=
  ∃ rel, hit.relativePath = childRel rel hit.entry.name ∧ hit.foundIn = scanPath hit.listedAt rel

/-- The path of a located hit. -/
theorem Located.path {hit : SearchHit} (h : Located hit) :
    join hit.foundIn hit.entry.name = join hit.listedAt hit.relativePath := by
  obtain ⟨rel, hrel, hfound⟩ := h
  rw [hfound, hrel]
  exact join_scanPath _ _ _

section
variable {lower : String → String}

/-- The search waits for its directory, and its hits are located and have its needle. -/
structure SearchSound (lower : String → String) (s : RunSearch) : Prop where
  path : s.path = scanPath s.listedAt s.rel
  hits : ∀ hit ∈ s.hits, Located hit ∧ nameMatches lower s.needle hit.entry.name = true

/-- A search has found nothing when it starts, and so nothing wrong. -/
theorem searchSound_start (currentPath needle : String) :
    SearchSound lower (.start currentPath needle) := by
  constructor
  · rfl
  · exact fun hit hmem => absurd hmem List.not_mem_nil

theorem searchSound_ask {s : RunSearch} (h : SearchSound lower s) (currentPath : String) :
    SearchSound lower (s.ask currentPath) := ⟨rfl, h.hits⟩

@[simp] theorem needle_visit (s : RunSearch) (e : FtEntry) :
    (s.visit lower e).needle = s.needle := by
  unfold RunSearch.visit
  split
  · rfl
  · dsimp only
    split <;> split <;> rfl

/-- An entry becomes a hit where it was listed. -/
theorem searchSound_visit {s : RunSearch} (h : SearchSound lower s) (e : FtEntry) :
    SearchSound lower (s.visit lower e) := by
  unfold RunSearch.visit
  -- Without a new hit the search is the same. A new hit is located by the listing that is being
  -- read.
  split
  · exact h
  · dsimp only
    by_cases hmatch : nameMatches lower s.needle e.name = true
    · rw [if_pos hmatch]
      have hits : ∀ hit ∈ s.hits ++ [{
          entry := e
          relativePath := childRel s.rel e.name
          foundIn := s.path
          listedAt := s.listedAt : SearchHit }],
          Located hit ∧ nameMatches lower s.needle hit.entry.name = true := by
        intro hit hmem
        -- A hit is an old one, or the entry that has just been read.
        rcases List.mem_append.mp hmem with hold | hnew
        · exact h.hits hit hold
        · rw [List.mem_singleton.mp hnew]
          exact ⟨⟨s.rel, rfl, h.path⟩, hmatch⟩
      -- A directory is queued for a listing of its own either way. The hits do not depend on it.
      split <;> exact ⟨h.path, hits⟩
    · rw [if_neg hmatch]
      split <;> exact ⟨h.path, h.hits⟩

/-- What holds of a search and is kept by every entry holds behind the listing. -/
theorem read_induction {P : RunSearch → Prop} {s : RunSearch} {entries : List FtEntry}
    (hstep : ∀ s e, e ∈ entries → P s → P (s.visit lower e)) (h : P s) (searchMode : Bool) :
    P (s.read lower searchMode entries) := by
  unfold RunSearch.read
  split
  -- The induction is on the entries of the listing. `visit` is applied from the front, so the
  -- search varies.
  · induction entries generalizing s with
    | nil => exact h
    | cons e entries ih =>
        exact ih (fun s e he => hstep s e (List.mem_cons_of_mem _ he))
          (hstep s e List.mem_cons_self h)
  · exact h

theorem searchSound_read {s : RunSearch} (h : SearchSound lower s) (searchMode : Bool)
    (entries : List FtEntry) : SearchSound lower (s.read lower searchMode entries) :=
  read_induction (P := SearchSound lower) (fun _ e _ hs => searchSound_visit hs e) h searchMode

theorem needle_read (s : RunSearch) (searchMode : Bool) (entries : List FtEntry) :
    (s.read lower searchMode entries).needle = s.needle :=
  read_induction (P := fun s' => s'.needle = s.needle)
    (fun s' e _ hs => (needle_visit s' e).trans hs) rfl searchMode

/-! ### Every hit is located -/

/-- Every search is sound, and so are the hits on the screen. -/
structure HitsSound (lower : String → String) (fs : FileSearch) : Prop where
  searches : ∀ s ∈ fs.searches, SearchSound lower s
  shown : ∀ hit ∈ fs.searchHits, Located hit

@[simp] theorem searches_onScreen (e : FileManager.Event) (fs : FileSearch) :
    (fs.onScreen e).searches = fs.searches := by
  cases e <;> simp only [FileSearch.onScreen, FileSearch.clearSearch]
  split <;> rfl

/-- The screen leaves the hits or clears them. -/
theorem searchHits_onScreen (e : FileManager.Event) (fs : FileSearch) :
    (fs.onScreen e).searchHits = fs.searchHits ∨ (fs.onScreen e).searchHits = [] := by
  cases e with
  | navigate path =>
      simp only [FileSearch.onScreen]
      split
      · exact .inr rfl
      · exact .inl rfl
  | enterSearch => exact .inr rfl
  | exitSearch => exact .inr rfl
  | _ => exact .inl rfl

/-- Behind a scanned directory the search waits for the next listing, or its hits are shown. -/
theorem hitsSound_scan {fs : FileSearch} {s : RunSearch} (h : HitsSound lower fs)
    (hs : SearchSound lower s) : HitsSound lower (fs.scan s) := by
  unfold FileSearch.scan
  split
  -- The search goes on: it asks for the next directory under the path of this moment.
  · constructor
    · intro s' hmem
      rcases List.mem_append.mp hmem with hold | hnew
      · exact h.searches s' hold
      · rw [List.mem_singleton.mp hnew]
        exact searchSound_ask hs _
    · exact h.shown
  -- The queue is empty: the hits are shown, unless the screen is gone.
  · unfold FileSearch.showHits
    split
    · exact h
    · exact ⟨h.searches, fun hit hmem => (hs.hits hit hmem).1⟩

/-- Every event keeps the hits sound. -/
theorem hitsSound_of_next {fs fs' : FileSearch} {e : FileSearch.Event} (h : HitsSound lower fs)
    (hnext : FileSearch.next lower e fs = some fs') : HitsSound lower fs' := by
  -- Only `elapsed` and `answered` reach a search. The other events leave the hits or clear them.
  cases e with
  | screen e =>
      obtain ⟨fm, -, rfl⟩ := Option.map_eq_some_iff.mp hnext
      constructor
      · show ∀ s ∈ (fs.onScreen e).searches, SearchSound lower s
        rw [searches_onScreen]
        exact h.searches
      · show ∀ hit ∈ (fs.onScreen e).searchHits, Located hit
        rcases searchHits_onScreen e fs with hsame | hnone
        · rw [hsame]
          exact h.shown
        · rw [hnone]
          exact fun hit hmem => absurd hmem List.not_mem_nil
  | changed query =>
      simp only [FileSearch.next, FileSearch.onSearchChanged] at hnext
      split at hnext
      · cases hnext
        split
        · exact ⟨h.searches, fun hit hmem => absurd hmem List.not_mem_nil⟩
        · exact ⟨h.searches, h.shown⟩
      · cases hnext
  | elapsed =>
      obtain ⟨query, -, rfl⟩ := Option.map_eq_some_iff.mp hnext
      exact hitsSound_scan ⟨h.searches, h.shown⟩ (searchSound_start _ _)
  | answered i result =>
      obtain ⟨s, hs, rfl⟩ := Option.map_eq_some_iff.mp hnext
      apply hitsSound_scan
      · exact ⟨fun s' hmem => h.searches s' (List.eraseIdx_subset hmem), h.shown⟩
      · exact searchSound_read (h.searches s (List.mem_of_getElem? hs)) _ _

/-- In every run all hits are located, those on the screen and those of searches under way. -/
theorem hitsSound_of_run {ok : FileSearch → FileSearch.Event → Prop} {fs : FileSearch}
    (hrun : (FileSearch.system lower).Run ok fs) : HitsSound lower fs := by
  refine hrun.invariant (P := HitsSound lower) ?_ fun fs fs' e h _ hnext =>
    hitsSound_of_next h hnext
  rintro fs ⟨connected, rfl⟩
  exact ⟨fun s hmem => absurd hmem List.not_mem_nil, fun hit hmem => absurd hmem List.not_mem_nil⟩

/-- A hit of a search that is under way, or on the screen. -/
def Produced (fs : FileSearch) (hit : SearchHit) : Prop :=
  hit ∈ fs.searchHits ∨ ∃ s ∈ fs.searches, hit ∈ s.hits

/-- The current path of the tap and the one that the hit was listed under stand for one directory.
-/
def sameDirectory (p q : String) : Bool := isRoot p && isRoot q || p == q

/-- The tap on a file goes to where it was found if and only if the directory was listed while the
current path was the root. The tap on a directory does if and only if the current path is the one
under which the directory was listed. -/
theorem addressed_hit_iff {fs : FileSearch} {hit : SearchHit}
    (hreach : (FileSearch.system lower).Reachable fs) (hhit : Produced fs hit) :
    fs.tapPath hit = join hit.foundIn hit.entry.name ↔
      if hit.entry.isFile then isRoot hit.listedAt = true
      else sameDirectory fs.currentPath hit.listedAt = true := by
  -- A hit is located where it was listed, whether it is on the screen or still with its search.
  have hsound := hitsSound_of_run hreach
  have hlocated : Located hit := by
    rcases hhit with hshown | ⟨s, hs, hmem⟩
    · exact hsound.shown hit hshown
    · exact ((hsound.searches s hs).hits hit hmem).1
  rw [hlocated.path, FileSearch.tapPath]
  -- A file is downloaded from `/` and its relative path. A directory is opened below the current
  -- path.
  cases hit.entry.isFile with
  | true =>
      show join "/" hit.relativePath = _ ↔ isRoot hit.listedAt = true
      rw [join_eq_join_iff]
      constructor
      · rintro (⟨-, hroot⟩ | heq)
        · exact hroot
        · rw [← heq]
          rfl
      · intro hroot
        exact .inl ⟨rfl, hroot⟩
  | false =>
      show join fs.currentPath hit.relativePath = _ ↔ sameDirectory _ _ = true
      rw [join_eq_join_iff, sameDirectory, Bool.or_eq_true, Bool.and_eq_true, beq_iff_eq]

/-! ### The hits and the latest search -/

/-- The hits on the screen match the needle of the latest search. With an empty query, or out of
search mode, there are none. -/
structure AnswersLatest (lower : String → String) (fs : FileSearch) : Prop where
  latest : ∀ hit ∈ fs.searchHits,
    ∃ needle, fs.submitted = some needle ∧ nameMatches lower needle hit.entry.name = true
  none_of_idle : (trimQuery fs.query).isEmpty = true ∨ fs.searchMode = false → fs.searchHits = []

/-- An answer that ends the last search under way belongs to the latest search, and the query is
still there and search mode on, or the search has found nothing. -/
def endsCurrent (lower : String → String) (fs : FileSearch) (e : FileSearch.Event) : Prop :=
  match e with
  | .answered i result =>
    ∀ s ∈ fs.searches[i]?, fs.searches.length = 1 →
      (s.read lower fs.searchMode (result.getD [])).goesOn fs.searchMode = false →
      (fs.submitted = some s.needle ∧ (trimQuery fs.query).isEmpty = false ∧
        fs.searchMode = true) ∨
      (s.hits = [] ∧ (fs.searchMode = true →
        ∀ entry ∈ result.getD [], nameMatches lower s.needle entry.name = false))
  | _ => True

instance (fs : FileSearch) (e : FileSearch.Event) : Decidable (endsCurrent lower fs e) := by
  cases e <;> unfold endsCurrent <;> infer_instance

/-- The screen is gone, or a search is under way, or the hits answer the latest search. -/
def Settled (lower : String → String) (fs : FileSearch) : Prop :=
  fs.mounted = true → fs.searches = [] → AnswersLatest lower fs

/-- A screen without hits shows the answer to anything. -/
theorem answersLatest_of_none {fs : FileSearch} (h : fs.searchHits = []) :
    AnswersLatest lower fs := by
  constructor
  · rw [h]
    exact fun hit hmem => absurd hmem List.not_mem_nil
  · exact fun _ => h

/-- A search that has found nothing and sees no match has found nothing behind the listing. -/
theorem hits_read {s : RunSearch} (h : s.hits = []) {searchMode : Bool} {entries : List FtEntry}
    (hnone : searchMode = true →
      ∀ entry ∈ entries, nameMatches lower s.needle entry.name = false) :
    (s.read lower searchMode entries).hits = [] := by
  cases searchMode with
  | false => exact h
  -- In search mode the entries are read one by one. The needle is kept with the hits, for the next
  -- entry.
  | true =>
      have hkept : (s.read lower true entries).needle = s.needle ∧
          (s.read lower true entries).hits = [] := by
        refine read_induction (P := fun s' => s'.needle = s.needle ∧ s'.hits = []) ?_ ⟨rfl, h⟩ true
        intro s' e he hs
        refine ⟨(needle_visit s' e).trans hs.1, ?_⟩
        have hmiss : ¬ nameMatches lower s'.needle e.name = true := by
          rw [hs.1, hnone rfl e he]
          exact Bool.false_ne_true
        unfold RunSearch.visit
        split
        · exact hs.2
        · dsimp only
          split <;> exact hs.2
      exact hkept.2

theorem navigate_searchMode (fm : FileManager) (path : String) :
    (fm.navigate path).searchMode = false := by
  unfold FileManager.navigate FileManager.refresh
  split <;> rfl

theorem navigate_mounted (fm : FileManager) (path : String) :
    (fm.navigate path).mounted = fm.mounted := by
  unfold FileManager.navigate FileManager.refresh
  split <;> rfl

/-- A listing of the screen itself does not touch the search. -/
theorem next_screen_kept {fm fm' : FileManager} {e : FileManager.Event}
    (hnext : FileManager.next e fm = some fm')
    (he : e = .refresh ∨ (∃ path entries, e = .listingDone path entries) ∨
      (∃ path, e = .listingFailed path) ∨ ∃ b, e = .connected b) :
    fm'.searchMode = fm.searchMode ∧ fm'.mounted = fm.mounted := by
  rcases he with rfl | ⟨path, entries, rfl⟩ | ⟨path, rfl⟩ | ⟨b, rfl⟩
  · cases hnext
    unfold FileManager.refresh
    split <;> exact ⟨rfl, rfl⟩
  · simp only [FileManager.next] at hnext
    split at hnext
    · cases hnext
      unfold FileManager.listingDone
      split <;> exact ⟨rfl, rfl⟩
    · cases hnext
  · simp only [FileManager.next] at hnext
    split at hnext
    · cases hnext
      unfold FileManager.listingFailed
      split <;> exact ⟨rfl, rfl⟩
    · cases hnext
  · cases hnext
    exact ⟨rfl, rfl⟩

/-- An event of the screen that leaves the search as it is. -/
theorem settled_of_kept {fs : FileSearch} (h : Settled lower fs) {fm : FileManager}
    (hkept : fm.searchMode = fs.searchMode ∧ fm.mounted = fs.mounted) :
    Settled lower { fs with toFileManager := fm } := by
  intro hmounted hidle
  have hanswers := h (hkept.2 ▸ hmounted) hidle
  exact ⟨hanswers.latest, fun hq => hanswers.none_of_idle (hq.imp_right (hkept.1 ▸ ·))⟩

/-- Every event of the screen keeps it settled: it clears the hits, or leaves search mode as it is.
-/
theorem settled_screen {fs : FileSearch} {fm : FileManager} {e : FileManager.Event}
    (h : Settled lower fs) (hnext : FileManager.next e fs.toFileManager = some fm) :
    Settled lower { fs.onScreen e with toFileManager := fm } := by
  cases e with
  | navigate path =>
      cases hnext
      simp only [FileSearch.onScreen]
      split
      -- Navigation in search mode clears the hits. Out of search mode it stays so.
      · exact fun _ _ => answersLatest_of_none rfl
      · rename_i hmode
        apply settled_of_kept h
        rw [navigate_searchMode, navigate_mounted]
        exact ⟨(Bool.not_eq_true _ ▸ hmode).symm, rfl⟩
  | refresh => exact settled_of_kept h (next_screen_kept hnext (.inl rfl))
  | listingDone path entries =>
      exact settled_of_kept h (next_screen_kept hnext (.inr (.inl ⟨path, entries, rfl⟩)))
  | listingFailed path =>
      exact settled_of_kept h (next_screen_kept hnext (.inr (.inr (.inl ⟨path, rfl⟩))))
  | enterSearch => exact fun _ _ => answersLatest_of_none rfl
  | exitSearch => exact fun _ _ => answersLatest_of_none rfl
  | connected b =>
      exact settled_of_kept h (next_screen_kept hnext (.inr (.inr (.inr ⟨b, rfl⟩))))
  | dispose =>
      cases hnext
      exact fun hmounted => absurd hmounted Bool.false_ne_true

/-- The loop of a search goes on, or its hits are shown. -/
theorem settled_scan {fs : FileSearch} {s : RunSearch}
    (h : s.goesOn fs.searchMode = false → fs.mounted = true → fs.searches = [] →
      AnswersLatest lower { fs with searchHits := s.hits, searching := false }) :
    Settled lower (fs.scan s) := by
  unfold FileSearch.scan
  -- A search that goes on is under way, so nothing is claimed. One that ends shows its hits.
  cases hgoes : s.goesOn fs.searchMode with
  | true =>
      rw [if_pos rfl]
      intro _ hidle
      exact absurd hidle (List.append_ne_nil_of_right_ne_nil _ (List.cons_ne_nil _ _))
  | false =>
      rw [if_neg Bool.false_ne_true]
      unfold FileSearch.showHits
      intro hmounted hidle
      cases hm : fs.mounted with
      | true =>
          rw [hm] at hidle
          exact h hgoes hm hidle
      | false =>
          rw [hm, Bool.not_false, if_pos rfl, hm] at hmounted
          cases hmounted

/-- Typing leaves a settled screen settled. -/
theorem settled_changed {fs : FileSearch} (h : Settled lower fs) (query : String) :
    Settled lower (fs.onSearchChanged query) := by
  unfold FileSearch.onSearchChanged
  split
  · exact fun _ _ => answersLatest_of_none rfl
  · rename_i hquery
    intro hmounted hidle
    have hanswers := h hmounted hidle
    exact ⟨hanswers.latest, fun hq => hanswers.none_of_idle (.inr (hq.resolve_left hquery))⟩

/-- An answer keeps the screen settled, if it ends a current search or none. -/
theorem settled_answered {fs : FileSearch} {s : RunSearch} {i : Nat}
    {result : Option (List FtEntry)} (hsound : HitsSound lower fs)
    (hok : endsCurrent lower fs (.answered i result)) (hs : fs.searches[i]? = some s) :
    Settled lower ({ fs with searches := fs.searches.eraseIdx i }.resume lower s result) := by
  apply settled_scan
  intro hends _ hidle
  -- The answered search was the only one: without it none is under way.
  have hlength : fs.searches.length = 1 := by
    have hlt : i < fs.searches.length := (List.getElem?_eq_some_iff.mp hs).1
    have herased : (fs.searches.eraseIdx i).length = 0 := by
      rw [show fs.searches.eraseIdx i = [] from hidle]
      rfl
    rw [List.length_eraseIdx_of_lt hlt] at herased
    omega
  have hread : SearchSound lower (s.read lower fs.searchMode (result.getD [])) :=
    searchSound_read (hsound.searches s (List.mem_of_getElem? hs)) _ _
  -- The search is the latest one, or it ends without a hit.
  rcases hok s hs hlength hends with ⟨hlatest, hquery, hmode⟩ | ⟨hnone, hmiss⟩
  · constructor
    · intro hit hmem
      refine ⟨s.needle, hlatest, ?_⟩
      have hmatch := (hread.hits hit hmem).2
      rwa [needle_read] at hmatch
    · rintro (hempty | hoff)
      · exact absurd hempty (by rw [hquery]; exact Bool.false_ne_true)
      · exact absurd hoff (by rw [hmode]; exact Bool.true_eq_false_eq_False)
  · exact answersLatest_of_none (hits_read hnone hmiss)

/-- Every event keeps the screen settled, if an answer that ends the last search ends a current one.
-/
theorem settled_of_next {fs fs' : FileSearch} {e : FileSearch.Event} (hsound : HitsSound lower fs)
    (h : Settled lower fs) (hok : endsCurrent lower fs e)
    (hnext : FileSearch.next lower e fs = some fs') : Settled lower fs' := by
  cases e with
  | screen e =>
      obtain ⟨fm, hfm, rfl⟩ := Option.map_eq_some_iff.mp hnext
      exact settled_screen h hfm
  | changed query =>
      simp only [FileSearch.next] at hnext
      split at hnext
      · cases hnext
        exact settled_changed h query
      · cases hnext
  | elapsed =>
      obtain ⟨query, -, rfl⟩ := Option.map_eq_some_iff.mp hnext
      -- A search that asks for no listing has no hits.
      exact settled_scan fun _ _ _ => answersLatest_of_none rfl
  | answered i result =>
      obtain ⟨s, hs, rfl⟩ := Option.map_eq_some_iff.mp hnext
      exact settled_answered hsound hok hs

/-- In a run in which every last search ends current, the hits answer the latest search while no
search is under way. -/
theorem answersLatest_of_run {fs : FileSearch}
    (hrun : (FileSearch.system lower).Run (endsCurrent lower) fs) (hmounted : fs.mounted = true)
    (hidle : fs.searches = []) : AnswersLatest lower fs := by
  -- `HitsSound` holds in every reachable state, and gives the needle of each hit.
  have hsettled : Settled lower fs := by
    refine Run.invariant_of (Q := HitsSound lower) (P := Settled lower)
      (fun _ h => hitsSound_of_run h) ?_
      (fun fs fs' e hsound _ h hok hnext => settled_of_next hsound h hok hnext) hrun
    rintro fs ⟨connected, rfl⟩
    exact fun _ _ => answersLatest_of_none rfl
  exact hsettled hmounted hidle

end

/-! ### Searches of one file -/

/-- A file of the server. -/
def fileEntry (name : String) : FtEntry :=
  { name := name, size := 1, datetime := 0, isFile := true }

/-- The hit for the file `name` of the directory `dir`, found while the user was there. -/
def fileHit (dir name : String) : SearchHit where
  entry := fileEntry name
  relativePath := name
  foundIn := dir
  listedAt := dir

/-- The user goes to `dir` and searches it for the song that is there. -/
def searchIn (dir : String) : List FileSearch.Event :=
  [.screen (.navigate dir), .screen .enterSearch, .changed "song", .elapsed,
    .answered 0 (some [fileEntry "song.mp3"])]

/-- What the specifications look at. -/
def searchView (fs : FileSearch) : List SearchHit × Option String × String × Bool :=
  (fs.searchHits, fs.submitted, fs.currentPath, fs.mounted && fs.searches.isEmpty)

/-- What an execution of the screen ends with is seen in a state of a run. -/
theorem exists_search {cond : FileSearch → FileSearch.Event → Prop}
    (check : FileSearch → FileSearch.Event → Bool) (hcheck : ∀ fs e, check fs e = true → cond fs e)
    (labels : List FileSearch.Event) {a : List SearchHit × Option String × String × Bool}
    (hexec : ((FileSearch.system id).exec check labels (.opened true)).map searchView = some a) :
    ∃ fs, (FileSearch.system id).Run cond fs ∧ fs.searchHits = a.1 ∧ fs.submitted = a.2.1 ∧
      fs.currentPath = a.2.2.1 ∧ (a.2.2.2 = true → fs.mounted = true ∧ fs.searches = []) := by
  obtain ⟨fs, hrun, hview⟩ := Run.exists_of_exec (FileSearch.system id) cond check labels searchView
    hcheck (.start ⟨true, rfl⟩) hexec
  subst hview
  exact ⟨fs, hrun, rfl, rfl, rfl, by simp [searchView]⟩

/-- The song of the root is downloaded from where it is. -/
theorem addressed_hit_root : ∃ fs : FileSearch, (FileSearch.system id).Reachable fs ∧
    fs.searchHits = [fileHit "/" "song.mp3"] ∧
    fs.tapPath (fileHit "/" "song.mp3") = join "/" "song.mp3" := by
  obtain ⟨fs, hrun, hhits, -, -, -⟩ := exists_search (fun _ _ => true) (fun _ _ _ => trivial)
    (searchIn "/") (a := ([fileHit "/" "song.mp3"], some "song", "/", true)) rfl
  have hproduced : Produced fs (fileHit "/" "song.mp3") :=
    .inl (hhits ▸ List.mem_singleton_self _)
  exact ⟨fs, hrun, hhits, (addressed_hit_iff hrun hproduced).mpr rfl⟩

/-- The song of `/music` is asked for in the root. -/
theorem not_addressed_hit : ¬ ∀ (lower : String → String) (fs : FileSearch) (hit : SearchHit),
    (FileSearch.system lower).Reachable fs → Produced fs hit →
      fs.tapPath hit = join hit.foundIn hit.entry.name := by
  intro hall
  obtain ⟨fs, hrun, hhits, -⟩ := exists_search (fun _ _ => true) (fun _ _ _ => trivial)
    (searchIn "/music") (a := ([fileHit "/music" "song.mp3"], some "song", "/music", true)) rfl
  have hproduced : Produced fs (fileHit "/music" "song.mp3") :=
    .inl (hhits ▸ List.mem_singleton_self _)
  have hpath : "/song.mp3" = "/music/song.mp3" := hall id fs _ hrun hproduced
  exact absurd hpath (by decide)

/-- The search for the song is the only one. -/
theorem answersLatest_song : ∃ fs : FileSearch, (FileSearch.system id).Run (endsCurrent id) fs ∧
    fs.searchHits = [fileHit "/music" "song.mp3"] ∧ AnswersLatest id fs := by
  obtain ⟨fs, hrun, hhits, -, -, hidle⟩ := exists_search
    (fun fs e => decide (endsCurrent id fs e)) (fun _ _ => of_decide_eq_true)
    (searchIn "/music") (a := ([fileHit "/music" "song.mp3"], some "song", "/music", true)) rfl
  exact ⟨fs, hrun, hhits, answersLatest_of_run hrun (hidle rfl).1 (hidle rfl).2⟩

/-- The search for `a` is answered behind the one for `b`. -/
theorem not_answersLatest : ¬ ∀ (lower : String → String) (fs : FileSearch),
    (FileSearch.system lower).Reachable fs → fs.mounted = true → fs.searches = [] →
      AnswersLatest lower fs := by
  intro hall
  obtain ⟨fs, hrun, hhits, hsubmitted, -, hidle⟩ := exists_search (fun _ _ => true)
    (fun _ _ _ => trivial)
    [.screen .enterSearch, .changed "a", .elapsed, .changed "b", .elapsed,
      .answered 1 (some [fileEntry "b"]), .answered 0 (some [fileEntry "a"])]
    (a := ([fileHit "/" "a"], some "b", "/", true)) rfl
  obtain ⟨needle, hneedle, hmatch⟩ :=
    (hall id fs hrun (hidle rfl).1 (hidle rfl).2).latest (fileHit "/" "a")
      (hhits ▸ List.mem_singleton_self _)
  rw [hsubmitted, Option.some.injEq] at hneedle
  subst hneedle
  exact absurd hmatch (by decide)

end Nek0.Proofs.Dart
