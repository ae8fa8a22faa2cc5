import Nek0.Lib.JsonLists
import Nek0.Native.RemotePaths

/-!
# `Nek0.Proofs.Native.CanonicalPaths`: the remote paths that reach the server

`normalize_remote_path` gives a path in canonical form whatever it gets (`shape_normalize`), and
`valid_remote_path` rejects the parent's name and NUL. All six entry points do both before they make
a command (`canonical_of_call`).

It trims white space at the end of the whole string, and so at the end of the last segment. A
canonical path comes back unchanged if and only if it does not end so (`normalize_eq_self_iff`).
-/

set_option autoImplicit false

namespace Nek0.Proofs.Native

open Nek0.Lib (JsonLists.decode)
open Nek0.Lib.Paths hiding trim
open Nek0.Native

/-- A canonical remote path: `/`, or `/` followed by segments with single slashes between them. It
has no segment `..` and no NUL. -/
structure Canonical (path : String) : Prop where
  shape : ∃ segs, Proper '/' segs ∧ path.toList = rooted '/' segs
  noParent : ['.', '.'] ∉ path.toList.splitOn '/'
  noNul : '\x00' ∉ path.toList

/-- The paths in a command. -/
def remotePaths : Command → List String
  | .ftList _ path _ _ => [path]
  | .ftCreateDir _ dirname _ _ => [dirname]
  | .ftDelete _ names _ _ => names
  | .ftDownload _ path _ _ => [path]
  | .ftUpload _ path _ _ => [path]
  | _ => []

/-- The call queues the command. The command of a transfer has the id of its task. -/
def Queues : Call → Command → Prop
  | .queueFtCommand c, cmd => cmd = c
  | .startTransfer t, cmd => ∃ taskId, cmd = t.command taskId
  | _, _ => False

/-! ### Normalising -/

theorem toList_normalize (path : String) :
    (normalizeRemotePath path).toList = rooted '/' (segments '/' (trim path.toList)) :=
  String.toList_ofList

/-- Whatever it gets, the result has the canonical form. -/
theorem shape_normalize (path : String) :
    ∃ segs, Proper '/' segs ∧ (normalizeRemotePath path).toList = rooted '/' segs :=
  ⟨_, proper_segments '/' _, toList_normalize path⟩

/-- What is normalised and valid is canonical. -/
theorem canonical_of_valid {path : String} (h : validRemotePath (normalizeRemotePath path) = true) :
    Canonical (normalizeRemotePath path) := by
  unfold validRemotePath at h
  split at h
  · rename_i hroot
    rw [eq_of_beq hroot]
    exact ⟨⟨[], nofun, rfl⟩, by decide, by decide⟩
  · simp only [Bool.and_eq_true, Bool.not_eq_true', List.any_eq_false, List.contains_eq_mem,
      decide_eq_false_iff_not] at h
    refine ⟨shape_normalize path, ?_, h.1.2⟩
    intro hmem
    exact h.2 _ hmem (beq_self_eq_true _)

/-! ### The entry points -/

/-- The command of a transfer has the transfer's path. -/
theorem remotePaths_command (t : Transfer) (taskId : TaskId) :
    remotePaths (t.command taskId) = [t.path] := by
  unfold Transfer.command
  split <;> rfl

/-- The path of a transfer that passed the check. -/
theorem canonical_of_transfer {t : Transfer} {cmd : Command}
    (hqueues : Queues (.startTransfer t) cmd) {path : String}
    (ht : t.path = normalizeRemotePath path)
    (hvalid : validRemotePath (normalizeRemotePath path) = true) :
    ∀ p ∈ remotePaths cmd, Canonical p := by
  obtain ⟨taskId, rfl⟩ := hqueues
  intro p hp
  rw [remotePaths_command, List.mem_singleton] at hp
  rw [hp, ht]
  exact canonical_of_valid hvalid

/-- Every path of a command that a call of the app queues is canonical. -/
theorem canonical_of_call (fromStr : String → Option (List String))
    (decode : String → Option (List UInt8)) (metadata : String → Option UInt64) {e : FtEntry}
    {c : Call} (h : e.call fromStr decode metadata = some c) {cmd : Command}
    (hqueues : Queues c cmd) : ∀ p ∈ remotePaths cmd, Canonical p := by
  cases e with
  | list cid path pw token =>
      simp only [FtEntry.call, tsFtList, Option.ite_none_left_eq_some, Bool.not_eq_true',
        Bool.not_eq_false, Option.some.injEq] at h
      obtain ⟨-, hvalid, -, rfl⟩ := h
      obtain rfl := hqueues
      intro p hp
      rw [List.mem_singleton.mp hp]
      exact canonical_of_valid hvalid
  | mkdir cid path pw token =>
      simp only [FtEntry.call, tsFtMkdir, Option.ite_none_left_eq_some, Bool.not_eq_true',
        Bool.not_eq_false, Option.some.injEq] at h
      obtain ⟨-, hvalid, -, rfl⟩ := h
      obtain rfl := hqueues
      intro p hp
      rw [List.mem_singleton.mp hp]
      exact canonical_of_valid hvalid
  -- The paths of the list are normalized one by one, and those that are not valid are left out.
  | delete cid namesJson pw token =>
      simp only [FtEntry.call, tsFtDelete, Option.ite_none_left_eq_some] at h
      obtain ⟨-, h⟩ := h
      split at h
      · cases h
      · simp only [Option.ite_none_left_eq_some, Option.some.injEq] at h
        obtain ⟨-, -, -, rfl⟩ := h
        obtain rfl := hqueues
        intro p hp
        obtain ⟨hmem, hvalid⟩ := List.mem_filter.mp hp
        obtain ⟨raw, -, rfl⟩ := List.mem_map.mp hmem
        exact canonical_of_valid hvalid
  | download cid path dest pw =>
      simp only [FtEntry.call, tsFtDownload, Option.ite_none_left_eq_some, Bool.not_eq_true',
        Bool.not_eq_false, Option.some.injEq] at h
      obtain ⟨-, hvalid, -, rfl⟩ := h
      exact canonical_of_transfer hqueues rfl hvalid
  -- The path of an avatar is built on the native side, and checked like the others.
  | downloadAvatar uid dest =>
      simp only [FtEntry.call, tsDownloadAvatar, Option.ite_none_left_eq_some] at h
      obtain ⟨-, h⟩ := h
      split at h
      · cases h
      · simp only [Option.ite_none_left_eq_some, Bool.not_eq_true', Bool.not_eq_false,
          Option.some.injEq] at h
        obtain ⟨hvalid, -, rfl⟩ := h
        exact canonical_of_transfer hqueues rfl hvalid
  | upload cid path src pw =>
      simp only [FtEntry.call, tsFtUpload, Option.ite_none_left_eq_some, Bool.not_eq_true',
        Bool.not_eq_false] at h
      obtain ⟨-, hvalid, -, h⟩ := h
      split at h
      · cases h
      · obtain rfl := Option.some.inj h
        exact canonical_of_transfer hqueues rfl hvalid

/-- Doubled slashes are collapsed, and the parent's name is refused in a list. -/
theorem canonical_delete :
    Canonical "/a/b" ∧ Queues (.queueFtCommand (.ftDelete 1 ["/a/b"] none "t"))
      (.ftDelete 1 ["/a/b"] none "t") :=
  ⟨canonical_of_call JsonLists.decode (fun _ => none) (fun _ => none)
    (e := .delete 1 (some "[\"//a//b/\",\"/../c\"]") none (some "t"))
    (c := .queueFtCommand (.ftDelete 1 ["/a/b"] none "t"))
    (by decide +kernel) rfl "/a/b" List.mem_cons_self, rfl⟩

/-! ### Paths that come back unchanged -/

/-- The string ends with white space. -/
def endsBlank (s : List Char) : Bool := s.getLast?.any isWhitespace

/-- A path in canonical form is normalised to itself if and only if it does not end with white
space. -/
theorem normalize_eq_self_iff {path : String} {segs : List (List Char)} (hproper : Proper '/' segs)
    (hpath : path.toList = rooted '/' segs) :
    normalizeRemotePath path = path ↔ endsBlank path.toList = false := by
  have hslash : isWhitespace '/' = false := by decide
  rw [← String.toList_inj, toList_normalize, hpath]
  constructor
  · intro hself
    by_contra hblank
    obtain ⟨b, hb, hwhite⟩ : ∃ b ∈ (rooted '/' segs).getLast?, isWhitespace b = true := by
      simpa [endsBlank, Option.any_eq_true] using hblank
    -- What was trimmed at the end is missing in the result.
    obtain ⟨rest, htrim, hshorter⟩ := trim_of_blank hslash hb hwhite
    have htrim : trim (rooted '/' segs) = '/' :: rest := htrim
    have hlength := length_rooted_segments '/' rest
    rw [← htrim, hself, htrim] at hlength
    simp only [rooted, List.length_cons] at hlength
    omega
  · intro hend
    have htrim : trim (rooted '/' segs) = rooted '/' segs := by
      refine trim_eq_self hslash ?_
      intro b hb
      rw [endsBlank, show (rooted '/' segs).getLast? = some b from hb] at hend
      simpa using hend
    rw [htrim, segments_rooted '/' hproper]

/-- The rooted segments end as the list does without its trailing slashes. -/
theorem endsBlank_rooted_segments (l : List Char) :
    endsBlank (rooted '/' (segments '/' l)) = endsBlank (l.rdropWhile (· == '/')) := by
  have hlast := getLast?_intercalate_segments '/' l
  rw [endsBlank, endsBlank, ← hlast, rooted, List.getLast?_cons]
  cases (['/'].intercalate (segments '/' l)).getLast? with
  | none => rfl
  | some c => rfl

/-- `normalize_remote_path` is idempotent on a string if and only if the string, trimmed and without
its trailing slashes, does not end with white space. -/
theorem normalize_idem_iff (q : String) :
    normalizeRemotePath (normalizeRemotePath q) = normalizeRemotePath q ↔
      endsBlank ((trim q.toList).rdropWhile (· == '/')) = false := by
  rw [normalize_eq_self_iff (proper_segments '/' _) (toList_normalize q), toList_normalize,
    endsBlank_rooted_segments]

end Nek0.Proofs.Native
