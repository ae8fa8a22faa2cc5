import Mathlib

/-!
# `Nek0.Lib.Paths`: separated lists and lexical paths

A path is a list with a separator. `segments` are the parts between separators that are not empty,
and `rooted` puts a separator in front of each. `trim` drops the blanks at both ends, and
`resolveFrom` follows parts without looking at a file system: an empty part and the name of the
directory itself stay, and the name of the parent goes up.

* `segments_rooted`: a rooted list of proper segments has just these segments.
* `mem_splitOn_trim`: a part without a blank survives the trimming.
* `prefix_resolveFrom`: without the name of the parent, parts do not leave their directory.
* `idxOf?_append`, `lastIdxOf?_append`: a separator alone on its side is found in its place.
-/

set_option autoImplicit false

namespace Nek0.Lib.Paths

variable {α : Type} [DecidableEq α] (sep : α)

/-- The parts that are not empty. -/
def segments (l : List α) : List (List α) := (l.splitOn sep).filter fun seg => !seg.isEmpty

/-- A separator, and the segments with one separator between any two. -/
def rooted (segs : List (List α)) : List α := sep :: [sep].intercalate segs

/-- Segments that can be told apart: not empty, and without a separator. -/
def Proper (segs : List (List α)) : Prop := ∀ seg ∈ segs, seg ≠ [] ∧ sep ∉ seg

/-- Drops the blanks at both ends. -/
def trim (blank : α → Bool) (l : List α) : List α := (l.dropWhile blank).rdropWhile blank

/-! ### Splitting -/

theorem splitOn_cons_self (l : List α) : (sep :: l).splitOn sep = [] :: l.splitOn sep :=
  List.splitOn_append_cons_self [] l

/-- An element that does not separate goes to the first part. -/
theorem splitOn_cons_of_ne {a : α} (ha : a ≠ sep) (l : List α) :
    (a :: l).splitOn sep = (l.splitOn sep).modifyHead (a :: ·) := by
  rw [List.splitOn_cons_eq_if_modifyHead, if_neg (by simpa using ha)]

/-- No part has a separator. -/
theorem not_mem_of_mem_splitOn {l seg : List α} (h : seg ∈ l.splitOn sep) : sep ∉ seg := by
  induction l generalizing seg with
  | nil =>
      rw [List.splitOn_nil, List.mem_singleton] at h
      simp [h]
  | cons a l ih =>
      by_cases ha : a = sep
      · subst ha
        rw [splitOn_cons_self] at h
        rcases List.mem_cons.mp h with rfl | hmem
        · simp
        · exact ih hmem
      · rw [splitOn_cons_of_ne sep ha] at h
        match hsplit : l.splitOn sep with
        | [] => exact absurd hsplit (List.splitOn_ne_nil sep l)
        | head :: tail =>
            rw [hsplit, List.modifyHead_cons] at h
            rcases List.mem_cons.mp h with rfl | hmem
            · have hhead : sep ∉ head := ih (by rw [hsplit]; exact List.mem_cons_self)
              simp [hhead, Ne.symm ha]
            · exact ih (by rw [hsplit]; exact .tail _ hmem)

/-- One more element at the end goes to the last part. -/
theorem splitOn_concat_of_ne {a : α} (ha : a ≠ sep) (l : List α) :
    ∃ front last, l.splitOn sep = front ++ [last] ∧
      (l ++ [a]).splitOn sep = front ++ [last ++ [a]] := by
  induction l with
  | nil => exact ⟨[], [], rfl, List.splitOn_eq_singleton (by simpa using Ne.symm ha)⟩
  | cons b l ih =>
      obtain ⟨front, last, hbefore, hafter⟩ := ih
      by_cases hb : b = sep
      · subst hb
        refine ⟨[] :: front, last, ?_, ?_⟩
        · rw [splitOn_cons_self, hbefore, List.cons_append]
        · rw [List.cons_append, splitOn_cons_self, hafter, List.cons_append]
      · rw [List.cons_append, splitOn_cons_of_ne sep hb, splitOn_cons_of_ne sep hb, hbefore, hafter]
        cases front with
        | nil => exact ⟨[], b :: last, rfl, rfl⟩
        | cons head tail => exact ⟨(b :: head) :: tail, last, rfl, rfl⟩

/-! ### Segments -/

theorem proper_segments (l : List α) : Proper sep (segments sep l) := by
  intro seg hseg
  obtain ⟨hmem, hne⟩ := List.mem_filter.mp hseg
  exact ⟨by simpa using hne, not_mem_of_mem_splitOn sep hmem⟩

@[simp]
theorem segments_cons_self (l : List α) : segments sep (sep :: l) = segments sep l := by
  rw [segments, splitOn_cons_self, List.filter_cons_of_neg (by simp), segments]

/-- A separator keeps the segments on its sides apart. -/
theorem segments_append (l m : List α) :
    segments sep (l ++ sep :: m) = segments sep l ++ segments sep m := by
  rw [segments, List.splitOn_append_cons_self, List.filter_append, segments, segments]

/-- Proper segments are found again. -/
theorem segments_intercalate {segs : List (List α)} (h : Proper sep segs) :
    segments sep ([sep].intercalate segs) = segs := by
  by_cases hnil : segs = []
  · subst hnil
    rfl
  · rw [segments, List.splitOn_intercalate sep (fun seg hseg => (h seg hseg).2) hnil,
      List.filter_eq_self]
    intro seg hseg
    simpa using (h seg hseg).1

theorem segments_rooted {segs : List (List α)} (h : Proper sep segs) :
    segments sep (rooted sep segs) = segs := by
  rw [rooted, segments_cons_self, segments_intercalate sep h]

omit [DecidableEq α] in
/-- One more segment. -/
theorem rooted_concat {segs : List (List α)} (hsegs : segs ≠ []) (seg : List α) :
    rooted sep (segs ++ [seg]) = rooted sep segs ++ sep :: seg := by
  rw [rooted, rooted, List.cons_append]
  congr 1
  induction segs with
  | nil => exact absurd rfl hsegs
  | cons first segs ih =>
      cases segs with
      | nil => simp
      | cons second segs =>
          rw [List.cons_append, List.cons_append, List.intercalate_cons_cons,
            ← List.cons_append, ih (by simp), List.intercalate_cons_cons]
          simp

omit [DecidableEq α] in
/-- Leaving out the empty parts makes a list no longer. -/
theorem length_intercalate_filter (parts : List (List α)) :
    ([sep].intercalate (parts.filter fun seg => !seg.isEmpty)).length ≤
      ([sep].intercalate parts).length := by
  induction parts with
  | nil => exact Nat.le_refl 0
  | cons part parts ih =>
      have hgrow : ([sep].intercalate parts).length ≤
        ([sep].intercalate (part :: parts)).length := by
        by_cases hnil : parts = []
        · simp [hnil]
        · rw [List.intercalate_cons_of_ne_nil hnil]
          simp only [List.length_append]
          omega
      cases part with
      | nil =>
          rw [List.filter_cons_of_neg (by simp)]
          exact ih.trans hgrow
      | cons a part =>
          rw [List.filter_cons_of_pos (by simp)]
          by_cases hkept : parts.filter (fun seg => !seg.isEmpty) = []
          · rw [hkept, List.intercalate_singleton]
            by_cases hnil : parts = []
            · simp [hnil]
            · rw [List.intercalate_cons_of_ne_nil hnil]
              simp only [List.length_append]
              omega
          · have hnil : parts ≠ [] := by
              rintro rfl
              exact hkept rfl
            rw [List.intercalate_cons_of_ne_nil hkept, List.intercalate_cons_of_ne_nil hnil]
            simp only [List.length_append]
            omega

/-- The rooted segments of a rooted list are no longer than the list. -/
theorem length_rooted_segments (l : List α) :
    (rooted sep (segments sep (sep :: l))).length ≤ (sep :: l).length := by
  rw [segments_cons_self]
  simp only [rooted, List.length_cons, Nat.add_le_add_iff_right]
  calc ([sep].intercalate (segments sep l)).length
      ≤ ([sep].intercalate (l.splitOn sep)).length := length_intercalate_filter sep _
    _ = l.length := by rw [List.intercalate_splitOn]

/-! ### Trimming -/

omit [DecidableEq α] in
/-- Nothing is trimmed where the ends are not blank. -/
theorem trim_eq_self {blank : α → Bool} {a : α} {l : List α} (ha : blank a = false)
    (hlast : ∀ b ∈ (a :: l).getLast?, blank b = false) : trim blank (a :: l) = a :: l := by
  rw [trim, List.dropWhile_cons_of_neg (by simp [ha]), List.rdropWhile_eq_self_iff]
  intro hne
  simp [hlast _ (List.getLast?_eq_getLast_of_ne_nil hne)]

omit [DecidableEq α] in
/-- Just the blanks around a list without a blank are trimmed. -/
theorem trim_append {blank : α → Bool} {before core after : List α}
    (hbefore : ∀ a ∈ before, blank a = true) (hcore : ∀ a ∈ core, blank a = false)
    (hafter : ∀ a ∈ after, blank a = true) : trim blank (before ++ core ++ after) = core := by
  have hkeep : ∀ l : List α, (∀ a ∈ l, blank a = false) → l.dropWhile blank = l := by
    intro l hl
    cases l with
    | nil => rfl
    | cons a l => exact List.dropWhile_cons_of_neg (by simp [hl a (List.mem_cons_self ..)])
  have hreverse : (core ++ after).rdropWhile blank = core := by
    rw [List.rdropWhile, List.reverse_append, List.dropWhile_append_of_pos (by simpa using hafter),
      hkeep _ (by simpa using hcore), List.reverse_reverse]
  rw [trim, List.append_assoc, List.dropWhile_append_of_pos hbefore]
  cases core with
  | nil =>
      rw [List.nil_append, List.dropWhile_eq_nil_iff.mpr hafter]
      rfl
  | cons a core =>
      rw [List.cons_append, List.dropWhile_cons_of_neg (by simp [hcore a (List.mem_cons_self ..)])]
      exact hreverse

omit [DecidableEq α] in
/-- A blank end is trimmed, a front that is not blank stays. -/
theorem trim_of_blank {blank : α → Bool} {a : α} {l : List α} (ha : blank a = false)
    {b : α} (hb : b ∈ (a :: l).getLast?) (hblank : blank b = true) :
    ∃ l', trim blank (a :: l) = a :: l' ∧ l'.length < l.length := by
  obtain ⟨front, hfront⟩ := List.getLast?_eq_some_iff.mp hb
  cases front with
  | nil =>
      obtain ⟨rfl, rfl⟩ : a = b ∧ l = [] := by simpa using hfront
      rw [ha] at hblank
      cases hblank
  | cons a' front =>
      obtain ⟨rfl, rfl⟩ : a = a' ∧ l = front ++ [b] := by simpa using hfront
      have hdrop : trim blank (a :: (front ++ [b])) = (a :: front).rdropWhile blank := by
        rw [trim, List.dropWhile_cons_of_neg (by simp [ha]), ← List.cons_append,
          List.rdropWhile_concat_pos _ _ _ hblank]
      rw [hdrop]
      have hprefix : (a :: front).rdropWhile blank <+: a :: front := List.rdropWhile_prefix _ _
      match hcase : (a :: front).rdropWhile blank with
      | [] =>
          have hall := List.rdropWhile_eq_nil_iff.mp hcase a List.mem_cons_self
          rw [ha] at hall
          cases hall
      | a'' :: l' =>
          rw [hcase] at hprefix
          obtain ⟨rfl, hle⟩ := List.cons_prefix_cons.mp hprefix
          refine ⟨l', rfl, ?_⟩
          have hlength := hle.length_le
          simp only [List.length_append, List.length_cons, List.length_nil]
          omega

/-- A part without a blank survives the trimming at the front. -/
theorem mem_splitOn_dropWhile {blank : α → Bool} (hsep : blank sep = false) {l seg : List α}
    (hseg : ∀ a ∈ seg, blank a = false) (h : seg ∈ l.splitOn sep) :
    seg ∈ (l.dropWhile blank).splitOn sep := by
  induction l with
  | nil => exact h
  | cons a l ih =>
      by_cases ha : blank a = true
      · rw [List.dropWhile_cons_of_pos ha]
        have hne : a ≠ sep := by
          rintro rfl
          rw [hsep] at ha
          cases ha
        refine ih ?_
        rw [splitOn_cons_of_ne sep hne] at h
        -- Only the first part has lost an element, and that one is blank.
        match hsplit : l.splitOn sep with
        | [] => exact absurd hsplit (List.splitOn_ne_nil sep l)
        | head :: tail =>
            rw [hsplit, List.modifyHead_cons] at h
            rcases List.mem_cons.mp h with rfl | hmem
            · have hblank := hseg a List.mem_cons_self
              rw [ha] at hblank
              cases hblank
            · exact .tail _ hmem
      · rw [List.dropWhile_cons_of_neg ha]
        exact h

/-- A part without a blank survives the trimming at the end. -/
theorem mem_splitOn_rdropWhile {blank : α → Bool} (hsep : blank sep = false) {l seg : List α}
    (hseg : ∀ a ∈ seg, blank a = false) (h : seg ∈ l.splitOn sep) :
    seg ∈ (l.rdropWhile blank).splitOn sep := by
  induction l using List.reverseRecOn with
  | nil => exact h
  | append_singleton l a ih =>
      by_cases ha : blank a = true
      · rw [List.rdropWhile_concat_pos _ _ _ ha]
        have hne : a ≠ sep := by
          rintro rfl
          rw [hsep] at ha
          cases ha
        refine ih ?_
        obtain ⟨front, last, hbefore, hafter⟩ := splitOn_concat_of_ne sep hne l
        rw [hafter] at h
        rw [hbefore]
        -- Only the last part has lost an element, and that one is blank.
        rcases List.mem_append.mp h with hmem | hmem
        · exact List.mem_append_left _ hmem
        · rw [List.mem_singleton] at hmem
          subst hmem
          have hblank := hseg a (List.mem_append_right _ List.mem_cons_self)
          rw [ha] at hblank
          cases hblank
      · rw [List.rdropWhile_concat_neg _ _ _ ha]
        exact h

theorem mem_splitOn_trim {blank : α → Bool} (hsep : blank sep = false) {l seg : List α}
    (hseg : ∀ a ∈ seg, blank a = false) (h : seg ∈ l.splitOn sep) :
    seg ∈ (trim blank l).splitOn sep :=
  mem_splitOn_rdropWhile sep hsep hseg (mem_splitOn_dropWhile sep hsep hseg h)

/-! ### The last element -/

omit [DecidableEq α] in
/-- A joined list ends with the end of its last part. -/
theorem getLast?_intercalate_concat (front : List (List α)) (last : List α) (a : α) :
    ([sep].intercalate (front ++ [last ++ [a]])).getLast? = some a := by
  induction front with
  | nil => simp
  | cons part front ih =>
      rw [List.cons_append, List.intercalate_cons_of_ne_nil (by simp), List.getLast?_append, ih]
      rfl

/-- The segments of a list end with its last element that does not separate. -/
theorem getLast?_intercalate_segments (l : List α) :
    ([sep].intercalate (segments sep l)).getLast? = (l.rdropWhile (· == sep)).getLast? := by
  induction l using List.reverseRecOn with
  | nil => rfl
  | append_singleton l a ih =>
      by_cases ha : a = sep
      · subst ha
        rw [List.rdropWhile_concat_pos _ _ _ (by simp), segments_append]
        simpa [segments] using ih
      · rw [List.rdropWhile_concat_neg _ _ _ (by simpa using ha)]
        obtain ⟨front, last, -, hafter⟩ := splitOn_concat_of_ne sep ha l
        rw [segments, hafter, List.filter_append, List.filter_cons_of_pos (by simp)]
        simpa using getLast?_intercalate_concat sep (front.filter fun seg => !seg.isEmpty) last a

/-! ### The first and the last separator -/

/-- The position of the last separator. -/
def lastIdxOf? (l : List α) : Option Nat := (l.reverse.idxOf? sep).map fun i => l.length - 1 - i

variable {sep}

/-- The first separator stands behind what has none. -/
theorem idxOf?_append {x : List α} (h : sep ∉ x) (y : List α) :
    (x ++ sep :: y).idxOf? sep = some x.length := by
  induction x with
  | nil => simp [List.idxOf?_cons]
  | cons a x ih =>
      rw [List.mem_cons, not_or] at h
      rw [List.cons_append, List.idxOf?_cons, if_neg (by simpa using Ne.symm h.1), ih h.2]
      rfl

/-- The last separator stands in front of what has none. -/
theorem lastIdxOf?_append (x : List α) {y : List α} (h : sep ∉ y) :
    lastIdxOf? sep (x ++ sep :: y) = some x.length := by
  have hreverse : (x ++ sep :: y).reverse = y.reverse ++ sep :: x.reverse := by simp
  rw [lastIdxOf?, hreverse, idxOf?_append (by simpa using h), Option.map_some]
  simp only [List.length_append, List.length_cons, List.length_reverse, Option.some.injEq]
  omega

theorem lastIdxOf?_eq_none {l : List α} (h : sep ∉ l) : lastIdxOf? sep l = none := by
  rw [lastIdxOf?, List.idxOf?_eq_none_iff.mpr (by simpa using h)]
  rfl

omit [DecidableEq α] in
/-- The list up to its last separator, and what stands behind it. -/
theorem exists_last {l : List α} (h : sep ∈ l) : ∃ x y, l = x ++ sep :: y ∧ sep ∉ y := by
  obtain ⟨y, x, hsplit, hmem⟩ := List.eq_append_cons_of_mem (List.mem_reverse.mpr h)
  refine ⟨x.reverse, y.reverse, ?_, by simpa using hmem⟩
  rw [← List.reverse_inj, hsplit]
  simp

/-- With two separators, the first one is not the last one. -/
theorem exists_lastIdxOf?_ne {l : List α} (h : 2 ≤ l.count sep) :
    ∃ i, lastIdxOf? sep l = some i ∧ l.idxOf? sep ≠ some i := by
  obtain ⟨x, y, rfl, hx⟩ := List.eq_append_cons_of_mem
    (List.count_pos_iff.mp (show 0 < l.count sep by omega))
  have hcount : 0 < y.count sep := by
    rw [List.count_append, List.count_eq_zero_of_not_mem hx, List.count_cons_self] at h
    omega
  obtain ⟨y₁, y₂, rfl, hy⟩ := exists_last (List.count_pos_iff.mp hcount)
  have hassoc : x ++ sep :: (y₁ ++ sep :: y₂) = (x ++ sep :: y₁) ++ sep :: y₂ := by simp
  refine ⟨(x ++ sep :: y₁).length, ?_, ?_⟩
  · rw [hassoc]
    exact lastIdxOf?_append _ hy
  · rw [idxOf?_append hx]
    simp

variable (sep)

/-! ### Following a path -/

section Resolve

variable (here up : List α)

/-- Goes from a directory along the parts. At the root, the parent is the root. -/
def resolveFrom (dir : List (List α)) (parts : List (List α)) : List (List α) :=
  parts.foldl (fun dir part =>
    if part = [] ∨ part = here then dir else if part = up then dir.dropLast else dir ++ [part]) dir

/-- Without the parent's name, a path does not leave its directory. -/
theorem prefix_resolveFrom {parts : List (List α)} (h : up ∉ parts) (dir : List (List α)) :
    dir <+: resolveFrom here up dir parts := by
  induction parts generalizing dir with
  | nil => exact List.prefix_rfl
  | cons part parts ih =>
      rw [List.mem_cons, not_or] at h
      show dir <+: resolveFrom here up (if part = [] ∨ part = here then dir
        else if part = up then dir.dropLast else dir ++ [part]) parts
      split
      · exact ih h.2 dir
      · rw [if_neg (Ne.symm h.1)]
        exact (List.prefix_append dir [part]).trans (ih h.2 _)

end Resolve

end Nek0.Lib.Paths
