import Nek0.Dart.TreeDeletion
import Nek0.Lib.Requests
import Nek0.Proofs.Dart.PassedPaths

/-!
# `Nek0.Proofs.Dart.DeletedTrees`: what `deleteTree` deletes

A `Forest` is the content of a remote directory, in the order in which the server lists it. The
requests that `deleteTree` is to make for it are its `plan`: each directory is listed, then come its
entries, and then its own deletion. `deleteTree_eq_issue` shows that `deleteTree` makes the requests
of the plan until one fails.

`plan_pairwise` is the order of the plan: what comes after the deletion of a path is neither at that
path nor below it. From this, no path is deleted twice, a path is deleted after everything below it,
and when a request fails nothing above it has been deleted.

All of this is about the paths of the requests. The native side trims them (`passedOn`), so that the
request for a name with a blank at its end is passed on for another path. `treeDeleted_iff` puts
both together: the law holds for every server if and only if the requests of the plan, up to the
first one that is refused, are passed on for their own paths. `asMeant_of_clean` says for which
names that is so.

`follows_deleteTree` says that a run of `deleteTree` depends on the replies to its own requests
only. With it the plan is followed as far as the requests go, whatever a server says to the others.
-/

set_option autoImplicit false

namespace Nek0.Proofs.Dart

open Nek0.Dart
open Nek0.Lib.Paths (Proper)
open Nek0.Lib.Requests
open Nek0.Native (cstrToString normalizeRemotePath tsFtDelete validRemotePath)
open Nek0.Proofs.Native (endsBlank)

/-- The content of a directory: its files and directories, in the order of the listing. -/
inductive Forest where
  | nil
  | file (name : String) (rest : Forest)
  | dir (name : String) (content rest : Forest)
  deriving DecidableEq, Repr

namespace Forest

/-- The names in the directory itself. -/
def names : Forest → List String
  | nil => []
  | file name rest => name :: rest.names
  | dir name _ rest => name :: rest.names

/-- The names in the directory itself, and which of them are files. -/
def listing : Forest → List (String × Bool)
  | nil => []
  | file name rest => (name, true) :: rest.listing
  | dir name _ rest => (name, false) :: rest.listing

/-- A name that an entry can have. -/
def ValidName (name : String) : Prop :=
  name ≠ "" ∧ '/' ∉ name.toList ∧ name ≠ "." ∧ name ≠ ".."

/-- The names are valid, and there is one entry for each name. -/
def Valid : Forest → Prop
  | nil => True
  | file name rest => ValidName name ∧ name ∉ rest.names ∧ rest.Valid
  | dir name content rest => ValidName name ∧ name ∉ rest.names ∧ content.Valid ∧ rest.Valid

/-- The files and directories below `base`. -/
def paths (base : String) : Forest → List String
  | nil => []
  | file name rest => (base ++ "/" ++ name) :: rest.paths base
  | dir name content rest =>
    (base ++ "/" ++ name) :: content.paths (base ++ "/" ++ name) ++ rest.paths base

/-- How deep the directories are nested. -/
def height : Forest → Nat
  | nil => 0
  | file _ rest => rest.height
  | dir _ content rest => max (content.height + 1) rest.height

end Forest

/-- The answer lists the directory: what is left without the special entries is its content. -/
def Lists (entries : List FtEntry) (f : Forest) : Prop :=
  (entries.filter fun e => !(e.isParent || e.name == "." || e.name == "..")).map
    (fun e => (e.name, e.isFile)) = f.listing

/-- When a listing of a directory in `base`, which has the content `f`, is answered, then with what
is in it. -/
def Serves (list : Nat → String → Option (List FtEntry)) (base : String) : Forest → Prop
  | .nil => True
  | .file _ rest => Serves list base rest
  | .dir name content rest =>
    (∀ n entries, list n (base ++ "/" ++ name) = some entries → Lists entries content) ∧
      Serves list (base ++ "/" ++ name) content ∧ Serves list base rest

/-- The listings of the directory `base` and of those in it are answered with what is in them. -/
def ServesTree (list : Nat → String → Option (List FtEntry)) (base : String) (f : Forest) : Prop :=
  (∀ n entries, list n base = some entries → Lists entries f) ∧ Serves list base f

/-- `q` is below `p`. -/
def Below (p q : String) : Prop := ∃ rel, q.toList = p.toList ++ '/' :: rel

/-- The path that a request is about. -/
def requestPath : TreeRequest → String
  | .list path => path
  | .delete path => path

/-- The path that a request deletes. -/
def deletedPath : TreeRequest → Option String
  | .list _ => none
  | .delete path => some path

/-- The paths that were deleted. -/
def deletes (log : List TreeRequest) : List String := log.filterMap deletedPath

/-- The request succeeds. -/
def succeeds (replies : TreeReplies) (n : Nat) : TreeRequest → Bool
  | .list path => (replies.list n path).isSome
  | .delete path => replies.delete n path

/-- The paths of the command that the native side makes of the `n`-th request. -/
def commandPaths (N : TsNative) (n : Nat) : TreeRequest → List String
  | .list path => (N.ftListToken n path).toList
  | .delete path => (N.ftDelete n [path]).getD []

/-- The paths of the delete commands. -/
def commandedDeletes (N : TsNative) (log : List TreeRequest) : List String :=
  log.zipIdx.flatMap fun x => if (deletedPath x.1).isSome then commandPaths N x.2 x.1 else []

/-- What `deleteTree` did for the directory `base` with the content `f`. -/
structure TreeDeleted (N : TsNative) (server : TreeServer) (base : String) (f : Forest)
    (log : List TreeRequest) (ok : Bool) : Prop where
  /-- If every request succeeded, it ended normally. -/
  normal : (∀ n r, log[n]? = some r → succeeds (server.replies N) n r = true) → ok = true
  /-- If it ended normally, it deleted the base and everything below it. -/
  complete : ok = true → (commandedDeletes N log).Perm (base :: f.paths base)
  /-- Each command is for the file or the directory that the request was for. -/
  addressed : ∀ n r, log[n]? = some r → ∀ path ∈ commandPaths N n r, path = requestPath r
  /-- It deleted nothing else, and nothing twice. -/
  inside : ∀ p ∈ commandedDeletes N log, p = base ∨ Below base p
  once : (commandedDeletes N log).Nodup
  /-- It deleted a path after everything below it. -/
  bottomUp : ∀ i p, (commandedDeletes N log)[i]? = some p → ∀ q ∈ base :: f.paths base,
    Below p q → q ∈ (commandedDeletes N log).take i
  /-- A request that fails is the last one, and `deleteTree` throws. -/
  stops : ∀ n r, log[n]? = some r → succeeds (server.replies N) n r = false →
    n + 1 = log.length ∧ ok = false
  /-- It throws only then, and has deleted nothing above that path. -/
  failed : ok = false → ∃ r, log.getLast? = some r ∧
    succeeds (server.replies N) (log.length - 1) r = false ∧
      ∀ p ∈ commandedDeletes N log, ¬Below p (requestPath r)

/-! ### The plan -/

/-- The requests for the content of `base`. -/
def entriesPlan (base : String) : Forest → List TreeRequest
  | .nil => []
  | .file name rest => .delete (base ++ "/" ++ name) :: entriesPlan base rest
  | .dir name content rest =>
    .list (base ++ "/" ++ name) :: entriesPlan (base ++ "/" ++ name) content ++
      .delete (base ++ "/" ++ name) :: entriesPlan base rest

/-- The requests for `base`. -/
def plan (base : String) (f : Forest) : List TreeRequest :=
  .list base :: entriesPlan base f ++ [.delete base]

/-! ### Paths -/

/-- `q` is `p` or below it. -/
def Within (p q : String) : Prop := q = p ∨ Below p q

/-- A path is within another if it is that path, or goes on behind a slash. -/
theorem within_iff {p q : String} :
    Within p q ↔ ∃ rest, q.toList = p.toList ++ rest ∧ (rest = [] ∨ ∃ rel, rest = '/' :: rel) := by
  constructor
  · rintro (rfl | ⟨rel, h⟩)
    · exact ⟨[], by simp, .inl rfl⟩
    · exact ⟨_, h, .inr ⟨rel, rfl⟩⟩
  · rintro ⟨rest, h, rfl | ⟨rel, rfl⟩⟩
    · exact .inl (String.toList_inj.mp (by simpa using h))
    · exact .inr ⟨rel, h⟩

theorem Below.trans {p q r : String} (hpq : Below p q) (hqr : Below q r) : Below p r := by
  obtain ⟨rel, hq⟩ := hpq
  obtain ⟨rel', hr⟩ := hqr
  exact ⟨rel ++ '/' :: rel', by rw [hr, hq]; simp⟩

/-- No path is below itself. -/
theorem not_below_self (p : String) : ¬Below p p := by
  rintro ⟨rel, h⟩
  have := congrArg List.length h
  rw [List.length_append, List.length_cons] at this
  omega

theorem Below.asymm {p q : String} (hpq : Below p q) : ¬Below q p :=
  fun hqp => not_below_self p (hpq.trans hqp)

theorem below_child (base name : String) : Below base (base ++ "/" ++ name) :=
  ⟨name.toList, by simp [String.toList_append]⟩

/-- What is within a child is below its parent. -/
theorem Within.below_of_child {base name q : String} (h : Within (base ++ "/" ++ name) q) :
    Below base q := by
  rcases h with rfl | h
  · exact below_child base name
  · exact (below_child base name).trans h

/-- Before the first slash of a path within a directory there is the name of the directory. -/
theorem takeWhile_name {name rest : List Char} (hname : '/' ∉ name)
    (hrest : rest = [] ∨ ∃ rel, rest = '/' :: rel) :
    (name ++ rest).takeWhile (· != '/') = name := by
  have hne : ∀ c ∈ name, (c != '/') = true := by
    intro c hc
    exact bne_iff_ne.mpr fun h => hname (h ▸ hc)
  rw [List.takeWhile_append_of_pos hne]
  rcases hrest with rfl | ⟨rel, rfl⟩
  · simp
  · simp

/-- A path is within one entry of a directory only. -/
theorem name_eq_of_within {base name name' q : String} (hname : '/' ∉ name.toList)
    (hname' : '/' ∉ name'.toList) (h : Within (base ++ "/" ++ name) q)
    (h' : Within (base ++ "/" ++ name') q) : name = name' := by
  obtain ⟨rest, hq, hrest⟩ := within_iff.mp h
  obtain ⟨rest', hq', hrest'⟩ := within_iff.mp h'
  have heq : name.toList ++ rest = name'.toList ++ rest' := by
    have := hq.symm.trans hq'
    simpa [String.toList_append, List.append_assoc] using this
  have := congrArg (List.takeWhile (· != '/')) heq
  rw [takeWhile_name hname hrest, takeWhile_name hname' hrest'] at this
  exact String.toList_inj.mp this

/-- A directory without a trailing slash is its own base. -/
theorem treeBase_child {base name : String} (hname : Forest.ValidName name) :
    TreeReplies.treeBase (base ++ "/" ++ name) = base ++ "/" ++ name := by
  obtain ⟨hne, hslash, -, -⟩ := hname
  have hlast : (base ++ "/" ++ name).toList.getLast? ≠ some '/' := by
    have hne' : name.toList ≠ [] := by simpa using hne
    rw [String.toList_append, List.getLast?_append_of_ne_nil _ hne']
    exact fun h => hslash (List.mem_of_getLast? h)
  unfold TreeReplies.treeBase
  rw [if_neg]
  intro h
  exact hlast (beq_iff_eq.mp (Bool.and_eq_true_iff.mp h).2)

/-- Every path below a directory is within one of its entries. -/
theorem within_of_mem_paths {f : Forest} {base q : String} (hq : q ∈ f.paths base) :
    ∃ name ∈ f.names, Within (base ++ "/" ++ name) q := by
  induction f generalizing base with
  | nil => simp [Forest.paths] at hq
  | file name rest ih =>
      rw [Forest.paths, List.mem_cons] at hq
      rcases hq with rfl | hq
      · exact ⟨name, List.mem_cons_self, .inl rfl⟩
      · obtain ⟨name', hmem, h⟩ := ih hq
        exact ⟨name', List.mem_cons_of_mem _ hmem, h⟩
  | dir name content rest ihcontent ihrest =>
      rw [Forest.paths, List.cons_append, List.mem_cons, List.mem_append] at hq
      rcases hq with rfl | hq | hq
      · exact ⟨name, List.mem_cons_self, .inl rfl⟩
      · obtain ⟨name', -, h⟩ := ihcontent hq
        exact ⟨name, List.mem_cons_self, .inr h.below_of_child⟩
      · obtain ⟨name', hmem, h⟩ := ihrest hq
        exact ⟨name', List.mem_cons_of_mem _ hmem, h⟩

theorem below_of_mem_paths {f : Forest} {base q : String} (hq : q ∈ f.paths base) :
    Below base q := by
  obtain ⟨name, -, h⟩ := within_of_mem_paths hq
  exact h.below_of_child

/-- A name of a valid forest has no slash. -/
theorem Forest.Valid.slash_not_mem {f : Forest} (hf : f.Valid) {name : String}
    (hname : name ∈ f.names) : '/' ∉ name.toList := by
  induction f with
  | nil => simp [Forest.names] at hname
  | file name' rest ih =>
      rcases List.mem_cons.mp hname with rfl | hname
      · exact hf.1.2.1
      · exact ih hf.2.2 hname
  | dir name' content rest _ ih =>
      rcases List.mem_cons.mp hname with rfl | hname
      · exact hf.1.2.1
      · exact ih hf.2.2.2 hname

/-- A path within one entry is not below the others. -/
theorem apart_of_mem_paths {rest : Forest} {base name p q : String} (hname : Forest.ValidName name)
    (hnotMem : name ∉ rest.names) (hrest : rest.Valid) (hp : Within (base ++ "/" ++ name) p)
    (hq : q ∈ rest.paths base) : q ≠ p ∧ ¬Below p q := by
  obtain ⟨name', hmem, hq⟩ := within_of_mem_paths hq
  have hneq : ¬Within (base ++ "/" ++ name) q := by
    intro h
    have := name_eq_of_within hname.2.1 (hrest.slash_not_mem hmem) h hq
    exact hnotMem (this ▸ hmem)
  constructor
  · rintro rfl
    exact hneq hp
  · intro hpq
    rcases hp with rfl | hp
    · exact hneq (.inr hpq)
    · exact hneq (.inr (hp.trans hpq))

/-! ### The order of the plan -/

@[simp] theorem deletes_append (log log' : List TreeRequest) :
    deletes (log ++ log') = deletes log ++ deletes log' := List.filterMap_append

@[simp] theorem deletes_list (path : String) (log : List TreeRequest) :
    deletes (.list path :: log) = deletes log := rfl

@[simp] theorem deletes_delete (path : String) (log : List TreeRequest) :
    deletes (.delete path :: log) = path :: deletes log := rfl

@[simp] theorem deletes_nil : deletes [] = [] := rfl

/-- A planned request is for a path of the tree. -/
theorem requestPath_mem_paths {f : Forest} {base : String} {r : TreeRequest}
    (hr : r ∈ entriesPlan base f) : requestPath r ∈ f.paths base := by
  induction f generalizing base with
  | nil => simp [entriesPlan] at hr
  | file name rest ih =>
      rw [entriesPlan, List.mem_cons] at hr
      rw [Forest.paths, List.mem_cons]
      rcases hr with rfl | hr
      · exact .inl rfl
      · exact .inr (ih hr)
  | dir name content rest ihcontent ihrest =>
      rw [entriesPlan, List.cons_append, List.mem_cons, List.mem_append, List.mem_cons] at hr
      rw [Forest.paths, List.cons_append, List.mem_cons, List.mem_append]
      rcases hr with rfl | hr | rfl | hr
      · exact .inl rfl
      · exact .inr (.inl (ihcontent hr))
      · exact .inl rfl
      · exact .inr (.inr (ihrest hr))

/-- Only deletes delete a path. -/
theorem deletedPath_eq_some {r : TreeRequest} {p : String} (h : deletedPath r = some p) :
    r = .delete p := by
  cases r with
  | list path => simp [deletedPath] at h
  | delete path => rw [show path = p by simpa [deletedPath] using h]

/-- After the deletion of a path comes no request at that path or below it. -/
def Leaves (r r' : TreeRequest) : Prop :=
  ∀ p, deletedPath r = some p → requestPath r' ≠ p ∧ ¬Below p (requestPath r')

/-- Each request of a plan leaves the later ones their paths, since an entry goes after its content.
-/
theorem entriesPlan_pairwise {f : Forest} (base : String) (hf : f.Valid) :
    (entriesPlan base f).Pairwise Leaves := by
  induction f generalizing base with
  | nil => exact List.Pairwise.nil
  | file name rest ih =>
      obtain ⟨hname, hnotMem, hrest⟩ := hf
      refine List.pairwise_cons.mpr ⟨?_, ih base hrest⟩
      intro r' hr' p hp
      have hp : base ++ "/" ++ name = p := by simpa [deletedPath] using hp
      exact apart_of_mem_paths hname hnotMem hrest (.inl hp.symm) (requestPath_mem_paths hr')
  | dir name content rest ihcontent ihrest =>
      obtain ⟨hname, hnotMem, hcontent, hrest⟩ := hf
      rw [entriesPlan, List.cons_append]
      refine List.pairwise_cons.mpr ⟨fun r' _ p hp => by simp [deletedPath] at hp, ?_⟩
      refine List.pairwise_append.mpr ⟨ihcontent _ hcontent, ?_, ?_⟩
      · refine List.pairwise_cons.mpr ⟨?_, ihrest base hrest⟩
        intro r' hr' p hp
        have hp : base ++ "/" ++ name = p := by simpa [deletedPath] using hp
        exact apart_of_mem_paths hname hnotMem hrest (.inl hp.symm) (requestPath_mem_paths hr')
      · intro r hr r' hr' p hp
        -- The content is below the directory, and its siblings are elsewhere.
        have hbelow : Below (base ++ "/" ++ name) p := by
          have := below_of_mem_paths (requestPath_mem_paths hr)
          rwa [deletedPath_eq_some hp] at this
        rcases List.mem_cons.mp hr' with rfl | hr'
        · exact ⟨fun h => not_below_self p (h ▸ hbelow), hbelow.asymm⟩
        · exact apart_of_mem_paths hname hnotMem hrest (.inr hbelow) (requestPath_mem_paths hr')

/-- The plan for a whole tree does too. -/
theorem plan_pairwise {f : Forest} (base : String) (hf : f.Valid) :
    (plan base f).Pairwise Leaves := by
  refine List.pairwise_cons.mpr ⟨fun r' _ p hp => by simp [deletedPath] at hp, ?_⟩
  refine List.pairwise_append.mpr
    ⟨entriesPlan_pairwise base hf, List.pairwise_singleton _ _, ?_⟩
  intro r hr r' hr' p hp
  obtain rfl := List.mem_singleton.mp hr'
  have hbelow : Below base p := by
    have := below_of_mem_paths (requestPath_mem_paths hr)
    rwa [deletedPath_eq_some hp] at this
  exact ⟨fun h => not_below_self p (h ▸ hbelow), hbelow.asymm⟩

/-- The plan deletes the paths of the tree, each once. -/
theorem deletes_entriesPlan_perm (base : String) (f : Forest) :
    (deletes (entriesPlan base f)).Perm (f.paths base) := by
  induction f generalizing base with
  | nil => exact List.Perm.refl _
  | file name rest ih => exact (ih base).cons _
  | dir name content rest ihcontent ihrest =>
      rw [entriesPlan, Forest.paths, List.cons_append, deletes_list, deletes_append, deletes_delete]
      exact List.perm_middle.trans (((ihcontent _).append (ihrest base)).cons _)

/-- The plan deletes the base and everything below it. -/
theorem deletes_plan_perm (base : String) (f : Forest) :
    (deletes (plan base f)).Perm (base :: f.paths base) := by
  rw [plan, List.cons_append, deletes_list, deletes_append, deletes_delete, deletes_nil]
  exact (List.perm_append_singleton _ _).trans ((deletes_entriesPlan_perm base f).cons _)

/-- So it deletes in this order. -/
theorem deletes_pairwise {log : List TreeRequest} (h : log.Pairwise Leaves) :
    (deletes log).Pairwise fun p q => q ≠ p ∧ ¬Below p q := by
  refine List.Pairwise.filterMap _ ?_ h
  intro r r' hleaves p hp q hq
  have := hleaves p hp
  rwa [deletedPath_eq_some hq] at this

/-! ### `deleteTree` makes the requests of the plan -/

/-- The requests for the files of a directory are sent in a row, up to the first that fails. -/
theorem deletePaths_eq_issue (replies : TreeReplies) (paths : List String)
    (log : List TreeRequest) :
    replies.deletePaths paths log = issue (succeeds replies) (paths.map .delete) log := by
  induction paths generalizing log with
  | nil => rfl
  | cons path paths ih =>
      rw [TreeReplies.deletePaths, List.map_cons, issue_cons, ih]
      rfl

/-- The special entries are skipped. -/
theorem deleteEntries_filter (replies : TreeReplies)
    (descend : String → List TreeRequest → Option (List TreeRequest × Bool)) (base : String)
    (entries : List FtEntry) (log : List TreeRequest) :
    replies.deleteEntries descend base entries log = replies.deleteEntries descend base
      (entries.filter fun e => !(e.isParent || e.name == "." || e.name == "..")) log := by
  induction entries generalizing log with
  | nil => rfl
  | cons entry children ih =>
      by_cases hspecial : (entry.isParent || entry.name == "." || entry.name == "..") = true
      · rw [TreeReplies.deleteEntries, if_pos hspecial,
          List.filter_cons_of_neg (by simp [hspecial])]
        exact ih log
      · rw [List.filter_cons_of_pos (by simp [hspecial]), TreeReplies.deleteEntries,
          TreeReplies.deleteEntries, if_neg hspecial, if_neg hspecial]
        simp only [ih]

/-- One entry, and then the others. -/
theorem deleteEntries_cons {replies : TreeReplies}
    {descend : String → List TreeRequest → Option (List TreeRequest × Bool)} {base : String}
    {entry : FtEntry} {children : List FtEntry} {log : List TreeRequest} {rs rs' : List TreeRequest}
    (hordinary : ¬(entry.isParent || entry.name == "." || entry.name == "..") = true)
    (hentry : (if entry.isFile then some (replies.deletePaths [base ++ "/" ++ entry.name] log)
      else descend (base ++ "/" ++ entry.name) log) = some (issue (succeeds replies) rs log))
    (hchildren : ∀ log, replies.deleteEntries descend base children log =
      some (issue (succeeds replies) rs' log)) :
    replies.deleteEntries descend base (entry :: children) log =
      some (issue (succeeds replies) (rs ++ rs') log) := by
  rw [TreeReplies.deleteEntries, if_neg hordinary, issue_append]
  simp only [hentry]
  rcases issue (succeeds replies) rs log with ⟨log', ok⟩
  cases ok with
  | true => exact hchildren log'
  | false => rfl

/-- A directory: its listing, its entries, and its deletion. -/
theorem deleteTree_of_deleteEntries {replies : TreeReplies} (fuel : Nat) (dirPath : String)
    {f : Forest}
    (hlists : ∀ n entries, replies.list n (TreeReplies.treeBase dirPath) = some entries →
      Lists entries f)
    (hentries : ∀ entries log, Lists entries f →
      replies.deleteEntries (replies.deleteTree fuel) (TreeReplies.treeBase dirPath) entries log =
        some (issue (succeeds replies) (entriesPlan (TreeReplies.treeBase dirPath) f) log))
    (log : List TreeRequest) :
    replies.deleteTree (fuel + 1) dirPath log =
      some (issue (succeeds replies) (plan (TreeReplies.treeBase dirPath) f) log) := by
  rw [TreeReplies.deleteTree, plan, List.cons_append, issue_cons]
  cases hlist : replies.list log.length (TreeReplies.treeBase dirPath) with
  | none => simp [succeeds, hlist]
  | some children =>
      simp only [succeeds, hlist, hentries children _ (hlists _ _ hlist), Option.isSome_some,
        if_true, issue_append, deletePaths_eq_issue]
      rcases issue (succeeds replies) (entriesPlan (TreeReplies.treeBase dirPath) f) _
        with ⟨log', ok⟩
      cases ok with
      | true => rfl
      | false => rfl

theorem not_special {entry : FtEntry} (hname : Forest.ValidName entry.name) :
    ¬(entry.isParent || entry.name == "." || entry.name == "..") = true := by
  obtain ⟨-, -, hdot, hdots⟩ := hname
  simp [FtEntry.isParent, hdot, hdots]

/-- The entries of a directory, by induction on its content. -/
theorem deleteEntries_eq_issue {replies : TreeReplies} {f : Forest} {base : String} {fuel : Nat}
    (hf : f.Valid) (hfuel : f.height ≤ fuel) (hserves : Serves replies.list base f)
    (entries : List FtEntry) (log : List TreeRequest) (hlists : Lists entries f) :
    replies.deleteEntries (replies.deleteTree fuel) base entries log =
      some (issue (succeeds replies) (entriesPlan base f) log) := by
  rw [deleteEntries_filter]
  unfold Lists at hlists
  revert hlists
  generalize (entries.filter fun e => !(e.isParent || e.name == "." || e.name == "..")) = es
  intro hlists
  induction f generalizing base fuel es log with
  | nil =>
      rw [List.map_eq_nil_iff.mp hlists]
      rfl
  | file name rest ih =>
      obtain ⟨hname, -, hrest⟩ := hf
      obtain ⟨entry, es, rfl, hentry, hes⟩ := List.map_eq_cons_iff.mp hlists
      obtain ⟨rfl, hfile⟩ := Prod.mk.inj hentry
      have hentry : (if entry.isFile then
          some (replies.deletePaths [base ++ "/" ++ entry.name] log)
          else replies.deleteTree fuel (base ++ "/" ++ entry.name) log) =
            some (issue (succeeds replies) [.delete (base ++ "/" ++ entry.name)] log) := by
        rw [if_pos hfile, deletePaths_eq_issue]
        rfl
      exact deleteEntries_cons (not_special hname) hentry
        fun log => ih hrest hfuel hserves log es hes
  | dir name content rest ihcontent ihrest =>
      obtain ⟨hname, -, hcontent, hrest⟩ := hf
      obtain ⟨hlist, hservesContent, hservesRest⟩ := hserves
      obtain ⟨entry, es, rfl, hentry, hes⟩ := List.map_eq_cons_iff.mp hlists
      obtain ⟨rfl, hfile⟩ := Prod.mk.inj hentry
      have hheight : content.height + 1 ≤ fuel := le_trans (Nat.le_max_left _ _) hfuel
      have hheightRest : rest.height ≤ fuel := le_trans (Nat.le_max_right _ _) hfuel
      obtain ⟨fuel, rfl⟩ : ∃ n, fuel = n + 1 := ⟨fuel - 1, by omega⟩
      rw [show entriesPlan base (.dir entry.name content rest) =
        plan (base ++ "/" ++ entry.name) content ++ entriesPlan base rest by
          simp [entriesPlan, plan]]
      refine deleteEntries_cons (not_special hname) ?_
        fun log => ihrest hrest hheightRest hservesRest log es hes
      -- The entry is a directory, and there `deleteTree` starts again.
      have hdescend := @deleteTree_of_deleteEntries replies fuel (base ++ "/" ++ entry.name) content
      rw [treeBase_child hname] at hdescend
      rw [if_neg (by simp [hfile])]
      refine hdescend hlist (fun entries log hlists => ?_) log
      rw [deleteEntries_filter]
      exact ihcontent hcontent (by omega) hservesContent log _ hlists

/-- `deleteTree` makes the requests of the plan until one fails. -/
theorem deleteTree_eq_issue {replies : TreeReplies} {f : Forest} {dirPath : String} {fuel : Nat}
    (hf : f.Valid) (hfuel : f.height < fuel)
    (hlists : ∀ n entries, replies.list n (TreeReplies.treeBase dirPath) = some entries →
      Lists entries f)
    (hserves : Serves replies.list (TreeReplies.treeBase dirPath) f) (log : List TreeRequest) :
    replies.deleteTree fuel dirPath log =
      some (issue (succeeds replies) (plan (TreeReplies.treeBase dirPath) f) log) := by
  obtain ⟨fuel, rfl⟩ : ∃ n, fuel = n + 1 := ⟨fuel - 1, by omega⟩
  refine deleteTree_of_deleteEntries fuel dirPath hlists (fun entries log hentries => ?_) log
  exact deleteEntries_eq_issue hf (by omega) hserves entries log hentries

/-! ### The replies to the requests that were made -/

/-- The two reply to the request in the same way. -/
def Agree (replies replies' : TreeReplies) (n : Nat) : TreeRequest → Prop
  | .list path => replies.list n path = replies'.list n path
  | .delete path => replies.delete n path = replies'.delete n path

/-- Replies that agree on a request have one outcome for it. -/
theorem Agree.succeeds_eq {replies replies' : TreeReplies} {n : Nat} {r : TreeRequest}
    (h : Agree replies replies' n r) : succeeds replies n r = succeeds replies' n r := by
  cases r with
  | list path =>
      rw [Agree] at h
      rw [succeeds, succeeds, h]
  | delete path => exact h

/-- The run goes on from its log. It is the same run with other replies that agree on its
requests. -/
def Follows (replies replies' : TreeReplies)
    (run run' : List TreeRequest → Option (List TreeRequest × Bool)) : Prop :=
  ∀ log log' ok, run log = some (log', ok) → log <+: log' ∧
    ((∀ n r, log'[n]? = some r → Agree replies replies' n r) → run' log = some (log', ok))

section
variable {replies replies' : TreeReplies}

/-- A run, and another one if it ended normally. -/
theorem Follows.andThen {run run' rest rest' : List TreeRequest → Option (List TreeRequest × Bool)}
    (hrun : Follows replies replies' run run') (hrest : Follows replies replies' rest rest') :
    Follows replies replies'
      (fun log => match run log with
        | none => none
        | some (log, true) => rest log
        | some (log, false) => some (log, false))
      (fun log => match run' log with
        | none => none
        | some (log, true) => rest' log
        | some (log, false) => some (log, false)) := by
  intro log log' ok h
  dsimp only at h ⊢
  cases hfirst : run log with
  | none =>
      rw [hfirst] at h
      cases h
  | some r =>
      obtain ⟨log₁, ok₁⟩ := r
      rw [hfirst] at h
      have hfollows := hrun log log₁ ok₁ hfirst
      cases ok₁ with
      | false =>
          obtain ⟨rfl, rfl⟩ := Prod.mk.inj (Option.some.inj h)
          refine ⟨hfollows.1, fun hagree => ?_⟩
          rw [hfollows.2 hagree]
      | true =>
          have hfollowsRest := hrest log₁ log' ok h
          refine ⟨hfollows.1.trans hfollowsRest.1, fun hagree => ?_⟩
          -- The requests of the first run are among those of both.
          have hsub : ∀ (n : Nat) (r : TreeRequest), log₁[n]? = some r → log'[n]? = some r := by
            intro n r hr
            obtain ⟨more, rfl⟩ := hfollowsRest.1
            rw [List.getElem?_append_left (List.getElem?_eq_some_iff.mp hr).1, hr]
          rw [hfollows.2 fun n r hr => hagree n r (hsub n r hr)]
          exact hfollowsRest.2 hagree

/-- A request keeps its place in the log, however long the log gets. -/
theorem request_at_length {log log' : List TreeRequest} {r : TreeRequest}
    (h : log ++ [r] <+: log') : log'[log.length]? = some r := by
  obtain ⟨more, rfl⟩ := h
  simp

/-- Sending the deletes of the files depends on the replies to them only. -/
theorem follows_deletePaths (paths : List String) :
    Follows replies replies' (fun log => some (replies.deletePaths paths log))
      (fun log => some (replies'.deletePaths paths log)) := by
  -- The induction is on the paths.
  induction paths with
  | nil =>
      intro log log' ok h
      cases h
      exact ⟨List.prefix_rfl, fun _ => rfl⟩
  | cons path paths ih =>
      intro log log' ok h
      simp only [TreeReplies.deletePaths] at h ⊢
      cases hreply : replies.delete log.length path with
      -- The delete succeeds, and the loop goes on.
      | true =>
          rw [hreply, if_pos rfl] at h
          obtain ⟨hbefore, hsame⟩ := ih (log ++ [.delete path]) log' ok h
          refine ⟨(List.prefix_append _ _).trans hbefore, fun hagree => ?_⟩
          have hreply' : replies.delete log.length path = replies'.delete log.length path :=
            hagree _ _ (request_at_length hbefore)
          rw [← hreply', hreply, if_pos rfl]
          exact hsame hagree
      | false =>
          -- The delete fails, and the loop is left.
          rw [hreply, if_neg Bool.false_ne_true] at h
          obtain ⟨rfl, rfl⟩ := Prod.mk.inj (Option.some.inj h)
          refine ⟨List.prefix_append _ _, fun hagree => ?_⟩
          have hreply' : replies.delete log.length path = replies'.delete log.length path :=
            hagree _ _ (request_at_length List.prefix_rfl)
          rw [← hreply', hreply, if_neg Bool.false_ne_true]

/-- Deleting the entries does too, if going into a directory does. -/
theorem follows_deleteEntries
    {descend descend' : String → List TreeRequest → Option (List TreeRequest × Bool)}
    (hdescend : ∀ path, Follows replies replies' (descend path) (descend' path)) (base : String)
    (entries : List FtEntry) :
    Follows replies replies' (replies.deleteEntries descend base entries)
      (replies'.deleteEntries descend' base entries) := by
  induction entries with
  | nil =>
      intro log log' ok h
      cases h
      exact ⟨List.prefix_rfl, fun _ => rfl⟩
  | cons entry children ih =>
      intro log log' ok h
      rw [TreeReplies.deleteEntries] at h ⊢
      by_cases hspecial : (entry.isParent || entry.name == "." || entry.name == "..") = true
      · rw [if_pos hspecial] at h ⊢
        exact ih log log' ok h
      · rw [if_neg hspecial] at h ⊢
        cases hfile : entry.isFile with
        | true =>
            simp only [hfile, if_true] at h ⊢
            exact (follows_deletePaths [base ++ "/" ++ entry.name]).andThen ih log log' ok h
        | false =>
            simp only [hfile, Bool.false_eq_true, if_false] at h ⊢
            exact (hdescend (base ++ "/" ++ entry.name)).andThen ih log log' ok h

/-- A run of `deleteTree` depends on the replies to its own requests only. -/
theorem follows_deleteTree (fuel : Nat) (dirPath : String) :
    Follows replies replies' (replies.deleteTree fuel dirPath)
      (replies'.deleteTree fuel dirPath) := by
  -- The induction is on the fuel, for all directories at once.
  induction fuel generalizing dirPath with
  | zero =>
      intro log log' ok h
      cases h
  | succ fuel ih =>
      intro log log' ok h
      rw [TreeReplies.deleteTree] at h ⊢
      cases hlist : replies.list log.length (TreeReplies.treeBase dirPath) with
      -- Without a listing the call ends. Agreeing on that one request is enough.
      | none =>
          rw [hlist] at h
          obtain ⟨rfl, rfl⟩ := Prod.mk.inj (Option.some.inj h)
          refine ⟨List.prefix_append _ _, fun hagree => ?_⟩
          have hlist' : replies.list log.length _ = replies'.list log.length _ :=
            hagree _ _ (request_at_length List.prefix_rfl)
          rw [← hlist', hlist]
      -- With one, the entries come first, and then the directory itself.
      | some children =>
          rw [hlist] at h
          obtain ⟨hbefore, hsame⟩ := ((follows_deleteEntries ih _ children).andThen
            (follows_deletePaths [TreeReplies.treeBase dirPath])) _ log' ok h
          refine ⟨(List.prefix_append _ _).trans hbefore, fun hagree => ?_⟩
          have hlist' : replies.list log.length _ = replies'.list log.length _ :=
            hagree _ _ (request_at_length hbefore)
          rw [← hlist', hlist]
          exact hsame hagree

end

/-! ### What the native side passes on -/

/-- The path that the native side passes on for a request, unless it refuses. -/
def passedOn (r : TreeRequest) : Option String :=
  let path :=
    match r with
    | .list path => normalizeRemotePath (cstrToString (some path))
    | .delete path => normalizeRemotePath path
  if validRemotePath path then some path else none

/-- The paths of a command on the wire are those that the bridge passes on. -/
theorem commandPaths_eq (N : TsNative) (n : Nat) (r : TreeRequest) :
    commandPaths N n r = (passedOn r).toList := by
  cases r with
  | list path =>
      rw [commandPaths, ftListToken_eq, passedOn]
  | delete path =>
      rw [commandPaths, ftDelete_eq, passedOn]
      cases validRemotePath (normalizeRemotePath path) <;> rfl

/-- The paths of the delete commands do not depend on the numbers of the requests. -/
theorem commandedDeletes_eq (N : TsNative) (log : List TreeRequest) :
    commandedDeletes N log = log.flatMap fun r =>
      if (deletedPath r).isSome then (passedOn r).toList else [] := by
  have hfst := congrArg (List.flatMap fun r =>
    if (deletedPath r).isSome then (passedOn r).toList else []) (List.zipIdx_map_fst 0 log)
  rw [List.flatMap_map] at hfst
  rw [commandedDeletes, ← hfst]
  simp only [commandPaths_eq]

/-- Requests that are passed on for their own paths. -/
theorem commandedDeletes_of_asMeant {N : TsNative} {log : List TreeRequest}
    (h : ∀ r ∈ log, passedOn r = some (requestPath r)) : commandedDeletes N log = deletes log := by
  rw [commandedDeletes_eq]
  induction log with
  | nil => rfl
  | cons r log ih =>
      have ih' := ih fun r' hr' => h r' (List.mem_cons_of_mem r hr')
      rw [List.flatMap_cons, ih', h r List.mem_cons_self]
      cases r with
      | list path => rfl
      | delete path => rfl

/-- The last request may be refused. -/
theorem commandedDeletes_concat {N : TsNative} {before : List TreeRequest} {r : TreeRequest}
    (h : ∀ r' ∈ before, passedOn r' = some (requestPath r'))
    (hlast : ∀ path, passedOn r = some path → path = requestPath r) :
    commandedDeletes N (before ++ [r]) <+: deletes (before ++ [r]) := by
  have hbefore := commandedDeletes_of_asMeant (N := N) h
  rw [commandedDeletes_eq] at hbefore ⊢
  rw [List.flatMap_append, hbefore, deletes_append]
  refine (List.prefix_append_right_inj _).mpr ?_
  rw [List.flatMap_singleton]
  cases r with
  | list path => exact List.prefix_rfl
  | delete path =>
      show (passedOn (.delete path)).toList <+: [path]
      cases hpath : passedOn (.delete path) with
      | none => exact List.nil_prefix
      | some path' =>
          rw [hlast path' hpath]
          exact List.prefix_rfl

/-- The requests of the plan, up to the first one that is refused, are passed on for their own
paths. -/
def AsMeant (base : String) (f : Forest) : Prop :=
  ∀ before r after, plan base f = before ++ r :: after → (∀ r' ∈ before, passedOn r' ≠ none) →
    ∀ path, passedOn r = some path → path = requestPath r

/-! ### Deletions in the order of the plan -/

section
variable {f : Forest} {base p q : String} {log : List String}

/-- What is deleted of a tree is the tree's base or below it. -/
theorem inside_of_prefix (hlog : log <+: deletes (plan base f)) (hp : p ∈ log) :
    p = base ∨ Below base p := by
  have hmem : p ∈ deletes (plan base f) := hlog.subset hp
  rcases List.mem_cons.mp ((deletes_plan_perm base f).mem_iff.mp hmem) with rfl | hp
  · exact .inl rfl
  · exact .inr (below_of_mem_paths hp)

theorem nodup_of_prefix (hf : f.Valid) (hlog : log <+: deletes (plan base f)) : log.Nodup :=
  ((deletes_pairwise (plan_pairwise base hf)).imp fun h => h.1.symm).sublist hlog.sublist

/-- What is deleted below a path of the plan is deleted before it. -/
theorem bottomUp_of_prefix (hf : f.Valid) (hlog : log <+: deletes (plan base f)) {i : Nat}
    (hp : log[i]? = some p) (hq : q ∈ base :: f.paths base) (hbelow : Below p q) :
    q ∈ log.take i := by
  obtain ⟨rest, hsplit⟩ := hlog
  have hordered := deletes_pairwise (plan_pairwise base hf)
  have hmem : q ∈ deletes (plan base f) := (deletes_plan_perm base f).mem_iff.mpr hq
  obtain ⟨j, hj⟩ := List.mem_iff_getElem?.mp hmem
  have hi : (deletes (plan base f))[i]? = some p := by
    rw [← hsplit, List.getElem?_append_left (List.getElem?_eq_some_iff.mp hp).1, hp]
  -- At `i` is `p` itself, and after it is nothing below `p`.
  have hji : j < i := by
    obtain ⟨hilt, hieq⟩ := List.getElem?_eq_some_iff.mp hi
    obtain ⟨hjlt, hjeq⟩ := List.getElem?_eq_some_iff.mp hj
    rcases Nat.lt_trichotomy j i with h | rfl | h
    · exact h
    · rw [hieq] at hjeq
      exact absurd (hjeq ▸ hbelow) (not_below_self p)
    · have := List.pairwise_iff_getElem.mp hordered i j hilt hjlt h
      rw [hieq, hjeq] at this
      exact absurd hbelow this.2
  have hilt := (List.getElem?_eq_some_iff.mp hp).1
  refine List.mem_iff_getElem?.mpr ⟨j, ?_⟩
  rw [List.getElem?_take_of_lt hji, ← hj, ← hsplit, List.getElem?_append_left (by omega)]

end

/-! ### The whole tree -/

section
variable {N : TsNative} {server : TreeServer} {f : Forest} {base : String}

/-- A request that succeeds was not refused. -/
theorem passedOn_ne_none {n : Nat} {r : TreeRequest}
    (h : succeeds (server.replies N) n r = true) : passedOn r ≠ none := by
  intro hrefused
  have hpaths := commandPaths_eq N n r
  rw [hrefused] at hpaths
  cases r with
  | list path =>
      have hnone : N.ftListToken n path = none := by
        simpa [commandPaths] using hpaths
      simp [succeeds, TreeServer.replies, hnone] at h
  | delete path =>
      have hnone : N.ftDelete n [path] = none ∨ N.ftDelete n [path] = some [] := by
        simp only [commandPaths] at hpaths
        cases hdelete : N.ftDelete n [path] with
        | none => exact .inl rfl
        | some names =>
            rw [hdelete] at hpaths
            exact .inr (congrArg some hpaths)
      rcases hnone with hnone | hnone
      · simp [succeeds, TreeServer.replies, hnone] at h
      · -- A command has at least one path.
        rw [ftDelete_eq] at hnone
        split at hnone <;> cases hnone

/-- A request that is refused fails. -/
theorem succeeds_of_refused {n : Nat} {r : TreeRequest} (hrefused : passedOn r = none) :
    succeeds (server.replies N) n r = false := by
  by_contra h
  exact passedOn_ne_none (Bool.not_eq_false _ ▸ h) hrefused

/-- All requests were made and succeeded. -/
theorem treeDeleted_of_all (hf : f.Valid)
    (hmeant : ∀ r ∈ plan base f, passedOn r = some (requestPath r))
    (hall : ∀ n r, (plan base f)[n]? = some r → succeeds (server.replies N) n r = true) :
    TreeDeleted N server base f (plan base f) true := by
  have hdeletes := commandedDeletes_of_asMeant (N := N) hmeant
  have hfront : commandedDeletes N (plan base f) <+: deletes (plan base f) :=
    hdeletes ▸ List.prefix_rfl
  exact
    { normal := fun _ => rfl
      complete := fun _ => by
        rw [hdeletes]
        exact deletes_plan_perm base f
      addressed := fun n r hr path hpath => by
        rw [commandPaths_eq, hmeant r (List.mem_of_getElem? hr)] at hpath
        exact List.mem_singleton.mp hpath
      inside := fun p hp => inside_of_prefix hfront hp
      once := nodup_of_prefix hf hfront
      bottomUp := fun i p hp q hq hbelow => bottomUp_of_prefix hf hfront hp hq hbelow
      stops := fun n r hr hfails => by
        rw [hall n r hr] at hfails
        cases hfails
      failed := fun h => by cases h }

/-- The request `r` was the first that failed. -/
theorem treeDeleted_of_failure (hf : f.Valid) {before after : List TreeRequest} {r : TreeRequest}
    (hplan : plan base f = before ++ r :: after)
    (hmeant : ∀ r' ∈ before, passedOn r' = some (requestPath r'))
    (hlast : ∀ path, passedOn r = some path → path = requestPath r)
    (hbefore : ∀ n r', before[n]? = some r' → succeeds (server.replies N) n r' = true)
    (hfails : succeeds (server.replies N) before.length r = false) :
    TreeDeleted N server base f (before ++ [r]) false := by
  have hlength : (before ++ [r]).length = before.length + 1 := by
    rw [List.length_append, List.length_singleton]
  -- What was deleted is a part of what the plan deletes, and a first part of it.
  have hfront : commandedDeletes N (before ++ [r]) <+: deletes (plan base f) := by
    refine (commandedDeletes_concat hmeant hlast).trans ?_
    rw [hplan, show before ++ r :: after = (before ++ [r]) ++ after by simp,
      deletes_append (before ++ [r])]
    exact List.prefix_append _ _
  have hat : (before ++ [r])[before.length]? = some r := List.getElem?_concat_length
  exact
    -- A run without failures would not have ended with `r`.
    { normal := fun h => by
        rw [h before.length r hat] at hfails
        cases hfails
      complete := fun h => by cases h
      addressed := fun n r' hr' path hpath => by
        rw [commandPaths_eq, Option.mem_toList] at hpath
        rcases List.mem_append.mp (List.mem_of_getElem? hr') with hmem | hmem
        · rw [hmeant r' hmem] at hpath
          exact (Option.some.inj hpath).symm
        · obtain rfl := List.mem_singleton.mp hmem
          exact hlast path hpath
      inside := fun p hp => inside_of_prefix hfront hp
      once := nodup_of_prefix hf hfront
      bottomUp := fun i p hp q hq hbelow => bottomUp_of_prefix hf hfront hp hq hbelow
      stops := fun n r' hr' hfails' => by
        refine ⟨?_, rfl⟩
        -- A request that fails is `r`, since those before it succeeded and none comes behind it.
        rcases Nat.lt_trichotomy n before.length with h | rfl | h
        · rw [List.getElem?_append_left h] at hr'
          rw [hbefore n r' hr'] at hfails'
          cases hfails'
        · rw [hlength]
        · have := (List.getElem?_eq_some_iff.mp hr').1
          omega
      failed := fun _ => by
        refine ⟨r, List.getLast?_concat, ?_, ?_⟩
        · rw [hlength, Nat.add_sub_cancel]
          exact hfails
        -- No deleted path is above `r`: the plan leaves later requests their paths.
        · intro p hp
          obtain ⟨r', hr', hpath⟩ :=
            List.mem_filterMap.mp ((commandedDeletes_concat hmeant hlast).subset hp)
          rcases List.mem_append.mp hr' with hr' | hr'
          · have := plan_pairwise base hf
            rw [hplan] at this
            exact ((List.pairwise_append.mp this).2.2 r' hr' r List.mem_cons_self p hpath).2
          · obtain rfl := List.mem_singleton.mp hr'
            rw [deletedPath_eq_some hpath]
            exact not_below_self p }

/-- Replies that are among those of a server that serves the tree serve it as well. -/
theorem serves_mono {list list' : Nat → String → Option (List FtEntry)} {f : Forest}
    (hle : ∀ n path entries, list' n path = some entries → list n path = some entries)
    {base : String} (h : Serves list base f) : Serves list' base f := by
  induction f generalizing base with
  | nil => trivial
  | file name rest ih => exact @ih base h
  | dir name content rest ihcontent ihrest =>
      exact ⟨fun n entries hlist => h.1 n entries (hle n _ entries hlist), ihcontent h.2.1,
        ihrest h.2.2⟩

/-- The replies, but to listings only if they are passed on for their own path. -/
def meantReplies (replies : TreeReplies) : TreeReplies where
  list n path := if passedOn (.list path) = some path then replies.list n path else none
  delete := replies.delete

@[simp] theorem delete_meantReplies (replies : TreeReplies) :
    (meantReplies replies).delete = replies.delete := by
  unfold meantReplies
  simp only

/-- For a listing that is passed on for its own path, the server has the say. -/
theorem list_of_passedOn {n : Nat} {path : String} (h : passedOn (.list path) = some path) :
    (server.replies N).list n path = server.list n path := by
  have hpaths := commandPaths_eq N n (.list path)
  rw [h] at hpaths
  have hsome : N.ftListToken n path = some path := by
    simpa [commandPaths, Option.toList_eq_singleton_iff] using hpaths
  simp [TreeServer.replies, hsome]

/-- A delete that the bridge passes on unchanged is answered by the server for its path. -/
theorem delete_of_passedOn {n : Nat} {path : String} (h : passedOn (.delete path) = some path) :
    (server.replies N).delete n path = server.delete n [path] := by
  have hpaths := commandPaths_eq N n (.delete path)
  rw [h] at hpaths
  simp only [commandPaths] at hpaths
  simp only [TreeServer.replies]
  cases hdelete : N.ftDelete n [path] with
  | none =>
      rw [hdelete] at hpaths
      cases hpaths
  | some names =>
      rw [hdelete] at hpaths
      rw [show names = [path] from hpaths]

/-- A request that succeeds as it is meant succeeds. -/
theorem succeeds_of_meantReplies {replies : TreeReplies} {n : Nat} {r : TreeRequest}
    (h : succeeds (meantReplies replies) n r = true) : succeeds replies n r = true := by
  cases r with
  | list path =>
      simp only [succeeds, meantReplies] at h ⊢
      split at h
      · exact h
      · cases h
  | delete path =>
      rw [succeeds, delete_meantReplies] at h
      rwa [succeeds]

/-- They are the replies to the requests that are refused or passed on for their own path. -/
theorem agree_meantReplies {replies : TreeReplies} {n : Nat} {r : TreeRequest}
    (hrefused : passedOn r = none → succeeds replies n r = false)
    (hpath : passedOn r = none ∨ passedOn r = some (requestPath r)) :
    Agree (meantReplies replies) replies n r := by
  cases r with
  | list path =>
      rcases hpath with hnone | hsome
      · have hlist : replies.list n path = none := by
          simpa [succeeds] using hrefused hnone
        simp [Agree, meantReplies, hlist]
      · have hpassed : passedOn (.list path) = some path := hsome
        simp [Agree, meantReplies, hpassed]
  | delete path => rw [Agree, delete_meantReplies]

/-- If the requests are passed on for their own paths, the law holds for every server. -/
theorem treeDeleted_of_asMeant {dirPath : String} (hf : f.Valid)
    (hmeant : AsMeant (TreeReplies.treeBase dirPath) f)
    (hserves : ServesTree server.list (TreeReplies.treeBase dirPath) f) :
    ∃ log ok, (∀ fuel > f.height,
        (server.replies N).deleteTree fuel dirPath [] = some (log, ok)) ∧
      TreeDeleted N server (TreeReplies.treeBase dirPath) f log ok := by
  -- Follow the plan with the replies that are meant, and then come back to all replies.
  have hle : ∀ n path entries, (meantReplies (server.replies N)).list n path = some entries →
      server.list n path = some entries := by
    intro n path entries h
    simp only [meantReplies] at h
    split at h
    · next hpath => rwa [list_of_passedOn hpath] at h
    · cases h
  have hplanned : ∀ fuel > f.height, (meantReplies (server.replies N)).deleteTree fuel dirPath [] =
      some (issue (succeeds (meantReplies (server.replies N)))
        (plan (TreeReplies.treeBase dirPath) f) []) :=
    fun fuel hfuel => deleteTree_eq_issue hf hfuel
      (fun n entries h => hserves.1 n entries (hle n _ entries h))
      (serves_mono hle hserves.2) []
  have hown : ∀ r, (∀ path, passedOn r = some path → path = requestPath r) →
      passedOn r = none ∨ passedOn r = some (requestPath r) := by
    intro r h
    cases hpath : passedOn r with
    | none => exact .inl rfl
    | some path => exact .inr (by rw [h path hpath])
  rcases issue_cases (succeeds (meantReplies (server.replies N)))
      (plan (TreeReplies.treeBase dirPath) f) []
    with ⟨heq, hall⟩ | ⟨before, r, after, hplan, heq, hbefore, hlast⟩
  · rw [heq] at hplanned
    have hall' : ∀ n r, (plan (TreeReplies.treeBase dirPath) f)[n]? = some r →
        succeeds (server.replies N) n r = true := by
      intro n r hr
      have h := hall n r hr
      rw [List.length_nil, Nat.zero_add] at h
      exact succeeds_of_meantReplies h
    have hmeantAll : ∀ r ∈ plan (TreeReplies.treeBase dirPath) f,
        passedOn r = some (requestPath r) := by
      intro r hr
      obtain ⟨before, after, hsplit⟩ := List.append_of_mem hr
      have hpath := hmeant before r after hsplit fun r' hr' => by
        obtain ⟨n, hn⟩ := List.mem_iff_getElem?.mp
          (hsplit ▸ List.mem_append_left _ hr' : r' ∈ plan (TreeReplies.treeBase dirPath) f)
        exact passedOn_ne_none (hall' n r' hn)
      obtain ⟨n, hn⟩ := List.mem_iff_getElem?.mp hr
      exact (hown r hpath).resolve_left (passedOn_ne_none (hall' n r hn))
    refine ⟨_, _, fun fuel hfuel => ?_, treeDeleted_of_all hf hmeantAll hall'⟩
    exact (follows_deleteTree fuel dirPath _ _ _ (hplanned fuel hfuel)).2 fun n r hr =>
      agree_meantReplies succeeds_of_refused (.inr (hmeantAll r (List.mem_of_getElem? hr)))
  · rw [heq] at hplanned
    have hbefore' : ∀ n r', before[n]? = some r' → succeeds (server.replies N) n r' = true := by
      intro n r' hr'
      have h := hbefore n r' hr'
      rw [List.length_nil, Nat.zero_add] at h
      exact succeeds_of_meantReplies h
    have hmeantBefore : ∀ r' ∈ before, passedOn r' = some (requestPath r') := by
      intro r' hr'
      obtain ⟨first, later, rfl⟩ := List.append_of_mem hr'
      have hpath := hmeant first r' (later ++ r :: after) (by rw [hplan]; simp)
        fun r'' hr'' => by
          obtain ⟨n, hn⟩ := List.mem_iff_getElem?.mp
            (List.mem_append_left _ hr'' : r'' ∈ first ++ r' :: later)
          exact passedOn_ne_none (hbefore' n r'' hn)
      obtain ⟨n, hn⟩ := List.mem_iff_getElem?.mp hr'
      exact (hown r' hpath).resolve_left (passedOn_ne_none (hbefore' n r' hn))
    have hmeantLast := hmeant before r after hplan fun r' hr' => by
      rw [hmeantBefore r' hr']
      exact Option.some_ne_none _
    have hagree : ∀ n r', (before ++ [r])[n]? = some r' →
        Agree (meantReplies (server.replies N)) (server.replies N) n r' := by
      intro n r' hr'
      rcases List.mem_append.mp (List.mem_of_getElem? hr') with hmem | hmem
      · exact agree_meantReplies succeeds_of_refused (.inr (hmeantBefore r' hmem))
      · obtain rfl := List.mem_singleton.mp hmem
        exact agree_meantReplies succeeds_of_refused (hown r' hmeantLast)
    have hlast' : succeeds (server.replies N) before.length r = false := by
      rw [List.length_nil, Nat.zero_add] at hlast
      rwa [(hagree before.length r List.getElem?_concat_length).succeeds_eq] at hlast
    refine ⟨_, _, fun fuel hfuel => ?_,
      treeDeleted_of_failure hf hplan hmeantBefore hmeantLast hbefore' hlast'⟩
    exact (follows_deleteTree fuel dirPath _ _ _ (hplanned fuel hfuel)).2 hagree

end

/-! ### A server for each tree -/

/-- The entries of a directory. -/
def entriesOf : Forest → List FtEntry
  | .nil => []
  | .file name rest => ⟨name, 0, 0, true⟩ :: entriesOf rest
  | .dir name _ rest => ⟨name, 0, 0, false⟩ :: entriesOf rest

/-- The entries made from a forest list it. -/
theorem lists_entriesOf {f : Forest} (hf : f.Valid) : Lists (entriesOf f) f := by
  unfold Lists
  induction f with
  | nil => rfl
  | file name rest ih =>
      rw [entriesOf, List.filter_cons_of_pos (by simpa using not_special hf.1), List.map_cons,
        ih hf.2.2]
      rfl
  | dir name content rest _ ih =>
      rw [entriesOf, List.filter_cons_of_pos (by simpa using not_special hf.1), List.map_cons,
        ih hf.2.2.2]
      rfl

/-- The content of the directory `path`. -/
def contentOf (path : String) : String → Forest → Option Forest
  | _, .nil => none
  | base, .file _ rest => contentOf path base rest
  | base, .dir name content rest =>
    if path = base ++ "/" ++ name then some content
    else (contentOf path (base ++ "/" ++ name) content).or (contentOf path base rest)

/-- A path with a content is one of the tree. -/
theorem mem_paths_of_contentOf {path base : String} {f content : Forest}
    (h : contentOf path base f = some content) : path ∈ f.paths base := by
  induction f generalizing base with
  | nil => cases h
  | file name rest ih => exact List.mem_cons_of_mem _ (ih h)
  | dir name content' rest ihcontent ihrest =>
      rw [contentOf] at h
      rw [Forest.paths, List.cons_append, List.mem_cons, List.mem_append]
      split at h
      · next heq => exact .inl heq
      · rcases Option.or_eq_some_iff.mp h with h | ⟨-, h⟩
        · exact .inr (.inl (ihcontent h))
        · exact .inr (.inr (ihrest h))

/-- Who finds the content of each directory serves the tree. -/
theorem serves_of_contentOf {list : Nat → String → Option (List FtEntry)} {f : Forest}
    {base : String} (hf : f.Valid)
    (hlist : ∀ path content, contentOf path base f = some content →
      ∀ n entries, list n path = some entries → Lists entries content) :
    Serves list base f := by
  induction f generalizing base with
  | nil => trivial
  | file name rest ih => exact ih hf.2.2 hlist
  | dir name content rest ihcontent ihrest =>
      obtain ⟨hname, hnotMem, hcontent, hrest⟩ := hf
      refine ⟨hlist _ content (if_pos rfl), ihcontent hcontent ?_, ihrest hrest ?_⟩
      · intro path content' h
        have hbelow := below_of_mem_paths (mem_paths_of_contentOf h)
        have hne : path ≠ base ++ "/" ++ name := fun heq => not_below_self _ (heq ▸ hbelow)
        exact hlist path content' (by rw [contentOf, if_neg hne, h, Option.some_or])
      · intro path content' h
        have hmem := mem_paths_of_contentOf h
        have hne := (apart_of_mem_paths hname hnotMem hrest (.inl rfl) hmem).1
        have hnone : contentOf path (base ++ "/" ++ name) content = none := by
          by_contra hsome
          obtain ⟨content'', hcontent''⟩ := Option.ne_none_iff_exists'.mp hsome
          have hbelow := below_of_mem_paths (mem_paths_of_contentOf hcontent'')
          exact (apart_of_mem_paths hname hnotMem hrest (.inr hbelow) hmem).1 rfl
        exact hlist path content' (by rw [contentOf, if_neg hne, hnone, Option.none_or, h])

/-- The directories of the plan have a content. -/
theorem isSome_contentOf {path base : String} {f : Forest}
    (h : TreeRequest.list path ∈ entriesPlan base f) : (contentOf path base f).isSome = true := by
  induction f generalizing base with
  | nil => cases h
  | file name rest ih =>
      rcases List.mem_cons.mp h with heq | h
      · cases heq
      · exact ih h
  | dir name content rest ihcontent ihrest =>
      rw [entriesPlan, List.cons_append, List.mem_cons, List.mem_append, List.mem_cons] at h
      rw [contentOf]
      split
      · rfl
      · next hne =>
          rw [Option.isSome_or, Bool.or_eq_true]
          rcases h with heq | h | heq | h
          · exact absurd (TreeRequest.list.inj heq) hne
          · exact .inl (ihcontent h)
          · cases heq
          · exact .inr (ihrest h)

/-- A server with the tree that answers the first `k` requests only. -/
def firstAnswers (base : String) (f : Forest) (k : Nat) : TreeServer where
  list n path :=
    if n < k then
      if path = base then some (entriesOf f) else (contentOf path base f).map entriesOf
    else none
  delete n _ := decide (n < k)

/-- The content of a directory of a valid forest is valid. -/
theorem valid_of_contentOf {path base : String} {f content : Forest} (hf : f.Valid)
    (h : contentOf path base f = some content) : content.Valid := by
  induction f generalizing base with
  | nil => cases h
  | file name rest ih => exact ih hf.2.2 h
  | dir name content' rest ihcontent ihrest =>
      rw [contentOf] at h
      split at h
      · obtain rfl := Option.some.inj h
        exact hf.2.2.1
      · rcases Option.or_eq_some_iff.mp h with h | ⟨-, h⟩
        · exact ihcontent hf.2.2.1 h
        · exact ihrest hf.2.2.2 h

/-- The server that answers the first `k` requests serves the tree. -/
theorem serves_firstAnswers {f : Forest} (hf : f.Valid) (base : String) (k : Nat) :
    ServesTree (firstAnswers base f k).list base f := by
  constructor
  · intro n entries h
    simp only [firstAnswers, if_true] at h
    split at h
    · rw [← Option.some.inj h]
      exact lists_entriesOf hf
    · cases h
  · refine serves_of_contentOf hf fun path content hcontent n entries h => ?_
    have hbelow := below_of_mem_paths (mem_paths_of_contentOf hcontent)
    have hne : path ≠ base := fun heq => not_below_self _ (heq ▸ hbelow)
    simp only [firstAnswers, if_neg hne, hcontent] at h
    split at h
    · rw [← Option.some.inj h]
      exact lists_entriesOf (valid_of_contentOf hf hcontent)
    · cases h

/-- Its answers to the first requests of the plan, as they are meant. -/
def firstReplies (base : String) (f : Forest) (k : Nat) : TreeReplies where
  list := (firstAnswers base f k).list
  delete n path := (firstAnswers base f k).delete n [path]

/-- The first `k` requests of the plan succeed, and no others. -/
theorem succeeds_firstReplies {base : String} {f : Forest} {k n : Nat} {r : TreeRequest}
    (hr : r ∈ plan base f) : succeeds (firstReplies base f k) n r = decide (n < k) := by
  cases r with
  | delete path => rfl
  | list path =>
      show ((firstAnswers base f k).list n path).isSome = _
      simp only [firstAnswers]
      by_cases hn : n < k
      · rw [if_pos hn, decide_eq_true hn]
        rw [plan, List.cons_append, List.mem_cons, List.mem_append, List.mem_singleton] at hr
        by_cases hbase : path = base
        · rw [if_pos hbase]
          rfl
        · rw [if_neg hbase, Option.isSome_map]
          rcases hr with heq | hr | heq
          · exact absurd (TreeRequest.list.inj heq) hbase
          · exact isSome_contentOf hr
          · cases heq
      · rw [if_neg hn, decide_eq_false hn]
        rfl

/-- After its last answer no request succeeds, whatever path is passed on for it. -/
theorem agree_firstReplies {N : TsNative} {base : String} {f : Forest} {k n : Nat}
    {r : TreeRequest} (h : n < k → passedOn r = some (requestPath r)) :
    Agree (firstReplies base f k) ((firstAnswers base f k).replies N) n r := by
  by_cases hn : n < k
  · cases r with
    | list path =>
        have hpath : passedOn (.list path) = some path := h hn
        simp only [Agree, firstReplies, list_of_passedOn hpath]
    | delete path =>
        have hpath : passedOn (.delete path) = some path := h hn
        simp only [Agree, firstReplies, delete_of_passedOn hpath]
  · cases r with
    | list path =>
        have hnone : (firstAnswers base f k).list n = fun _ => none := by
          funext path'
          exact if_neg hn
        simp [Agree, firstReplies, TreeServer.replies, hnone]
    | delete path =>
        have hfalse : (firstAnswers base f k).delete n = fun _ => false := by
          funext paths
          exact decide_eq_false hn
        simp only [Agree, firstReplies, TreeServer.replies, hfalse]
        cases N.ftDelete n [path] <;> rfl

/-- With this server, the requests of the plan are made up to the one after its last answer. -/
theorem deleteTree_firstAnswers {N : TsNative} {f : Forest} {dirPath : String} (hf : f.Valid)
    {before after : List TreeRequest} {r : TreeRequest}
    (hplan : plan (TreeReplies.treeBase dirPath) f = before ++ r :: after)
    (hmeant : ∀ r' ∈ before, passedOn r' = some (requestPath r')) :
    ((firstAnswers (TreeReplies.treeBase dirPath) f before.length).replies N).deleteTree
      (f.height + 1) dirPath [] = some (before ++ [r], false) := by
  have hserves := serves_firstAnswers hf (TreeReplies.treeBase dirPath) before.length
  have hrun : (firstReplies (TreeReplies.treeBase dirPath) f before.length).deleteTree
      (f.height + 1) dirPath [] = some (before ++ [r], false) := by
    rw [deleteTree_eq_issue hf (Nat.lt_succ_self _) hserves.1 hserves.2, hplan, issue_of_failure]
    · rfl
    · intro n r' hr'
      rw [succeeds_firstReplies (hplan ▸ List.mem_append_left _ (List.mem_of_getElem? hr')),
        List.length_nil, Nat.zero_add]
      exact decide_eq_true (List.getElem?_eq_some_iff.mp hr').1
    · rw [succeeds_firstReplies (hplan ▸ List.mem_append_right _ List.mem_cons_self),
        List.length_nil, Nat.zero_add]
      exact decide_eq_false (Nat.lt_irrefl _)
  refine (follows_deleteTree (f.height + 1) dirPath _ _ _ hrun).2 fun n r' hr' => ?_
  refine agree_firstReplies fun hn => hmeant r' ?_
  rw [List.getElem?_append_left hn] at hr'
  exact List.mem_of_getElem? hr'

/-- If the law holds for every server, the requests are passed on for their own paths. The first
one that is not would be the last one that the server above gets to see. -/
theorem asMeant_of_treeDeleted {N : TsNative} {f : Forest} {dirPath : String} (hf : f.Valid)
    (hlaw : ∀ server : TreeServer, ServesTree server.list (TreeReplies.treeBase dirPath) f →
      ∃ log ok, (∀ fuel > f.height,
          (server.replies N).deleteTree fuel dirPath [] = some (log, ok)) ∧
        TreeDeleted N server (TreeReplies.treeBase dirPath) f log ok) :
    AsMeant (TreeReplies.treeBase dirPath) f := by
  intro before
  -- The induction is on the length of what is passed on before the request.
  induction hlength : before.length using Nat.strong_induction_on generalizing before with
  | _ k ih =>
      intro r after hplan hpassed path hpath
      -- Those before it are passed on for their own paths, by induction.
      have hmeant : ∀ r' ∈ before, passedOn r' = some (requestPath r') := by
        intro r' hr'
        obtain ⟨first, later, rfl⟩ := List.append_of_mem hr'
        obtain ⟨path', hpath'⟩ := Option.ne_none_iff_exists'.mp (hpassed r' hr')
        have hshorter : first.length < k := by
          rw [← hlength, List.length_append, List.length_cons]
          omega
        rw [hpath', ih _ hshorter first rfl r' (later ++ r :: after) (by rw [hplan]; simp)
          (fun r'' hr'' => hpassed r'' (List.mem_append_left _ hr'')) path' hpath']
      -- A server that answers just these lets the run end with the request.
      obtain ⟨log, ok, hrun, hdeleted⟩ := hlaw _ (serves_firstAnswers hf _ before.length)
      have hlog : (before ++ [r], false) = (log, ok) := by
        have := hrun _ (Nat.lt_succ_self _)
        rw [deleteTree_firstAnswers hf hplan hmeant] at this
        exact Option.some.inj this
      obtain ⟨rfl, rfl⟩ := Prod.mk.inj hlog
      refine hdeleted.addressed before.length r List.getElem?_concat_length path ?_
      rw [commandPaths_eq, hpath]
      exact List.mem_singleton_self _

/-! ### Paths that are passed on -/

/-- No name has NUL in it or white space at its end. -/
def Forest.CleanNames : Forest → Prop
  | .nil => True
  | .file name rest => ('\x00' ∉ name.toList ∧ endsBlank name.toList = false) ∧ rest.CleanNames
  | .dir name content rest =>
    ('\x00' ∉ name.toList ∧ endsBlank name.toList = false) ∧ content.CleanNames ∧ rest.CleanNames

theorem cleanName_of_valid {name : String} (hname : Forest.ValidName name)
    (hclean : '\x00' ∉ name.toList ∧ endsBlank name.toList = false) : CleanName name :=
  ⟨hname.1, hname.2.1, hclean.1, hclean.2⟩

/-- A request for a clean path is passed on for it, unless it is refused. -/
theorem passedOn_of_clean {r : TreeRequest} (hclean : CleanPath (requestPath r)) {path : String}
    (h : passedOn r = some path) : path = requestPath r := by
  cases r with
  | list p =>
      have hp : CleanPath p := hclean
      simp only [passedOn, cstrToString_of_clean hp, normalize_of_clean hp,
        Option.ite_none_right_eq_some, Option.some.injEq] at h
      exact h.2.symm
  | delete p =>
      have hp : CleanPath p := hclean
      simp only [passedOn, normalize_of_clean hp, Option.ite_none_right_eq_some,
        Option.some.injEq] at h
      exact h.2.symm

/-- A child of a directory is not the root. -/
theorem child_ne_root {base name : String} (hname : name ≠ "") : base ++ "/" ++ name ≠ "/" := by
  intro h
  have hlength := congrArg (fun s => s.toList.length) h
  have hne : name.toList.length ≠ 0 := by simpa using hname
  simp only [String.toList_append, List.length_append] at hlength
  have hslash : "/".toList.length = 1 := rfl
  omega

/-- In a tree of clean names under a clean base every path is clean. -/
theorem clean_of_mem_paths {f : Forest} {base path : String} (hbase : CleanPath base)
    (hroot : base ≠ "/") (hf : f.Valid) (hnames : f.CleanNames) (h : path ∈ f.paths base) :
    CleanPath path := by
  induction f generalizing base with
  | nil => cases h
  | file name rest ih =>
      rcases List.mem_cons.mp h with rfl | h
      · exact hbase.child hroot (cleanName_of_valid hf.1 hnames.1)
      · exact ih hbase hroot hf.2.2 hnames.2 h
  | dir name content rest ihcontent ihrest =>
      have hdir := hbase.child hroot (cleanName_of_valid hf.1 hnames.1)
      rw [Forest.paths, List.cons_append, List.mem_cons, List.mem_append] at h
      rcases h with rfl | h | h
      · exact hdir
      · exact ihcontent hdir (child_ne_root hf.1.1) hf.2.2.1 hnames.2.1 h
      · exact ihrest hbase hroot hf.2.2.2 hnames.2.2 h

/-- The condition holds of a directory in canonical form, but not the root, in which no name has NUL
in it or white space at its end. -/
theorem asMeant_of_clean {f : Forest} {base : String} (hbase : CleanPath base)
    (hroot : base ≠ "/") (hf : f.Valid) (hnames : f.CleanNames) : AsMeant base f := by
  intro before r after hplan _ path hpath
  refine passedOn_of_clean ?_ hpath
  have hr : r ∈ plan base f := hplan ▸ List.mem_append_right _ List.mem_cons_self
  rw [plan, List.cons_append, List.mem_cons, List.mem_append, List.mem_singleton] at hr
  rcases hr with rfl | hr | rfl
  · exact hbase
  · exact clean_of_mem_paths hbase hroot hf hnames (requestPath_mem_paths hr)
  · exact hbase

/-! ### The law -/

/-- `deleteTree` deletes the tree from the bottom up and stops at the first failure, whatever the
server answers, if and only if the native side passes its requests on for their own paths, up to the
first one that it refuses. -/
theorem treeDeleted_iff (N : TsNative) (f : Forest) (dirPath : String) (hf : f.Valid) :
    (∀ server : TreeServer, ServesTree server.list (TreeReplies.treeBase dirPath) f →
      ∃ log ok, (∀ fuel > f.height,
          (server.replies N).deleteTree fuel dirPath [] = some (log, ok)) ∧
        TreeDeleted N server (TreeReplies.treeBase dirPath) f log ok) ↔
      AsMeant (TreeReplies.treeBase dirPath) f :=
  ⟨asMeant_of_treeDeleted hf, fun hmeant _ hserves => treeDeleted_of_asMeant hf hmeant hserves⟩

/-- A server with an album, whose song cannot be deleted. -/
def albumServer : TreeServer where
  list _ path := some (if path = "/album" then
    [⟨"cd1", 0, 0, false⟩, ⟨"..", 0, 0, false⟩, ⟨"cover", 9, 0, true⟩]
    else [⟨"song", 7, 0, true⟩])
  delete _ paths := !paths.contains "/album/cd1/song"

/-- What is in the album. -/
def album : Forest := .dir "cd1" (.file "song" .nil) (.file "cover" .nil)

/-- The album is deleted as the server has it, up to the song that stays. -/
theorem treeDeleted_album : ∃ log ok,
    (∀ fuel > album.height,
        (albumServer.replies jsonNative).deleteTree fuel "/album/" [] = some (log, ok)) ∧
      TreeDeleted jsonNative albumServer (TreeReplies.treeBase "/album/") album log ok := by
  have hbase : TreeReplies.treeBase "/album/" = "/album" := by decide
  have hvalid : album.Valid := by
    simp [album, Forest.Valid, Forest.ValidName, Forest.names]
  have hclean : CleanPath "/album" :=
    ⟨⟨["album".toList], by simp [Proper], by decide⟩, by decide, by decide⟩
  refine (treeDeleted_iff jsonNative album "/album/" hvalid).mpr ?_ albumServer ?_
  · rw [hbase]
    exact asMeant_of_clean hclean (by decide) hvalid (by simp [album, Forest.CleanNames]; decide)
  · rw [hbase]
    refine ⟨fun n entries h => ?_, fun n entries h => ?_, trivial, trivial⟩
    · rw [← Option.some.inj h]
      unfold Lists
      decide
    · rw [← Option.some.inj h]
      unfold Lists
      decide

/-- A server with a directory of two files, whose names are a blank and `x`. All requests
succeed. -/
def blankServer : TreeServer where
  list _ _ := some [⟨" ", 1, 0, true⟩, ⟨"x", 1, 0, true⟩]
  delete _ _ := true

/-- The path of the blank is trimmed to that of the directory, which is so deleted first, and twice.
The blank itself is not deleted. -/
theorem not_treeDeleted_blank :
    ServesTree blankServer.list "/d" (.file " " (.file "x" .nil)) ∧
    (blankServer.replies jsonNative).deleteTree 2 "/d" [] =
      some ([.list "/d", .delete "/d/ ", .delete "/d/x", .delete "/d"], true) ∧
    commandedDeletes jsonNative [.list "/d", .delete "/d/ ", .delete "/d/x", .delete "/d"] =
      ["/d", "/d/x", "/d"] ∧
    ¬TreeDeleted jsonNative blankServer "/d" (.file " " (.file "x" .nil))
      [.list "/d", .delete "/d/ ", .delete "/d/x", .delete "/d"] true := by
  have hdeletes : commandedDeletes jsonNative
      [.list "/d", .delete "/d/ ", .delete "/d/x", .delete "/d"] = ["/d", "/d/x", "/d"] := by
    decide +kernel
  refine ⟨⟨fun n entries h => ?_, trivial⟩, by decide +kernel, hdeletes, fun h => ?_⟩
  · rw [← Option.some.inj h]
    unfold Lists
    decide
  · have honce := h.once
    rw [hdeletes] at honce
    exact absurd honce (by decide)

end Nek0.Proofs.Dart
