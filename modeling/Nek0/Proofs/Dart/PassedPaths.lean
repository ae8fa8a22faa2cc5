import Nek0.Dart.FtCalls
import Nek0.Lib.JsonLists
import Nek0.Proofs.Native.CanonicalPaths

/-!
# `Nek0.Proofs.Dart.PassedPaths`: the paths that the native side passes on

What the calls of `TsNative` make of a path: `ftListToken_eq`, `ftDelete_eq` and `ftDownload_eq`. A
listing and a download take the path as a C string, so that they also cut it at a NUL.

A `CleanPath` comes through as it is (`normalize_of_clean`). A name without NUL and without white
space at its end leads from a clean path to a clean path (`CleanPath.child`).

`jsonNative` is a native side with JSON texts.
-/

set_option autoImplicit false

namespace Nek0.Proofs.Dart

open Nek0.Dart
open Nek0.Lib
open Nek0.Lib.Paths (Proper rooted rooted_concat)
open Nek0.Native (cstrToString normalizeRemotePath tsFtDelete tsFtDownload tsFtList validRemotePath)
open Nek0.Proofs.Native (endsBlank normalize_eq_self_iff)

/-! ### The paths of the commands -/

/-- What `ts_ft_list` makes of its path: cut, trimmed, and refused if it is not valid. -/
theorem ftListToken_eq (N : TsNative) (n : Nat) (path : String) :
    N.ftListToken n path =
      if validRemotePath (normalizeRemotePath (cstrToString (some path))) then
        some (normalizeRemotePath (cstrToString (some path)))
      else none := by
  have htoken := N.token_ne_empty n
  simp only [TsNative.ftListToken, tsFtList, htoken]
  cases validRemotePath (normalizeRemotePath (cstrToString (some path))) <;> rfl

/-- What `ts_ft_delete` makes of one path. -/
theorem ftDelete_eq (N : TsNative) (n : Nat) (path : String) :
    N.ftDelete n [path] =
      if validRemotePath (normalizeRemotePath path) then some [normalizeRemotePath path]
      else none := by
  have htoken := N.token_ne_empty n
  simp only [TsNative.ftDelete, tsFtDelete, N.fromStr_jsonEncode, htoken, List.map_cons,
    List.map_nil]
  cases hvalid : validRemotePath (normalizeRemotePath path) <;> simp [hvalid]

/-- A path in canonical form, without NUL and without white space at its end. -/
structure CleanPath (path : String) : Prop where
  shape : ∃ segs, Proper '/' segs ∧ path.toList = rooted '/' segs
  noNul : '\x00' ∉ path.toList
  noBlank : endsBlank path.toList = false

/-- The name of an entry, without NUL and without white space at its end. -/
structure CleanName (name : String) : Prop where
  ne_empty : name ≠ ""
  noSlash : '/' ∉ name.toList
  noNul : '\x00' ∉ name.toList
  noBlank : endsBlank name.toList = false

theorem CleanName.toList_ne_nil {name : String} (h : CleanName name) : name.toList ≠ [] := by
  simpa using h.ne_empty

/-- One more segment. -/
theorem cleanPath_concat {segs : List (List Char)} {name path : String} (hproper : Proper '/' segs)
    (hnul : '\x00' ∉ rooted '/' segs) (hname : CleanName name)
    (hpath : path.toList = rooted '/' (segs ++ [name.toList])) : CleanPath path := by
  have hsplit : ∃ front, path.toList = front ++ '/' :: name.toList ∧ '\x00' ∉ front := by
    cases segs with
    | nil => exact ⟨[], by simpa [rooted] using hpath, List.not_mem_nil⟩
    | cons seg segs =>
        rw [rooted_concat '/' (List.cons_ne_nil seg segs)] at hpath
        exact ⟨_, hpath, hnul⟩
  obtain ⟨front, hfront, hfrontNul⟩ := hsplit
  refine ⟨⟨_, ?_, hpath⟩, ?_, ?_⟩
  · intro seg hseg
    rcases List.mem_append.mp hseg with hseg | hseg
    · exact hproper seg hseg
    · rw [List.mem_singleton.mp hseg]
      exact ⟨hname.toList_ne_nil, hname.noSlash⟩
  · rw [hfront]
    simp [hfrontNul, hname.noNul]
  · rw [hfront, endsBlank, List.getLast?_append_of_ne_nil _ (List.cons_ne_nil _ _),
      List.getLast?_cons_of_ne_nil hname.toList_ne_nil]
    exact hname.noBlank

/-- The path of an entry of a directory. -/
theorem CleanPath.child {base name : String} (hbase : CleanPath base) (hroot : base ≠ "/")
    (hname : CleanName name) : CleanPath (base ++ "/" ++ name) := by
  obtain ⟨segs, hproper, hpath⟩ := hbase.shape
  have hne : segs ≠ [] := by
    rintro rfl
    exact hroot (String.toList_inj.mp hpath)
  refine cleanPath_concat hproper (hpath ▸ hbase.noNul) hname ?_
  rw [rooted_concat '/' hne, ← hpath]
  simp

/-- A clean path reaches the library whole. -/
theorem cstrToString_of_clean {path : String} (h : CleanPath path) :
    cstrToString (some path) = path := by
  have hall : ∀ c ∈ path.toList, decide (c ≠ '\x00') = true := by
    intro c hc
    exact decide_eq_true fun heq => h.noNul (heq ▸ hc)
  rw [cstrToString, List.takeWhile_eq_self_iff.mpr hall, String.ofList_toList]

/-- A clean path comes through the native side as it is. -/
theorem normalize_of_clean {path : String} (h : CleanPath path) :
    normalizeRemotePath path = path := by
  obtain ⟨segs, hproper, hpath⟩ := h.shape
  exact (normalize_eq_self_iff hproper hpath).mpr h.noBlank

/-! ### A native side -/

/-- The native side with JSON texts. -/
def jsonNative : TsNative where
  channelId := 1
  password := none
  token n := "t" ++ toString n
  jsonEncode := JsonLists.encode
  fromStr := JsonLists.decode
  token_ne_empty n := by simp [cstrToString]
  fromStr_jsonEncode path := by
    have hall : ∀ c ∈ (JsonLists.encode [path]).toList, decide (c ≠ '\x00') = true := by
      intro c hc
      have hvisible := JsonLists.visible_of_mem_encode hc
      refine decide_eq_true ?_
      rintro rfl
      exact absurd hvisible (by decide)
    rw [cstrToString, List.takeWhile_eq_self_iff.mpr hall, String.ofList_toList,
      JsonLists.decode_encode]

end Nek0.Proofs.Dart
