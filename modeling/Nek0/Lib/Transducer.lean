import Mathlib.Data.List.Basic

/-!
# `Nek0.Lib.Transducer`: machines that turn pieces into messages

A step takes a piece of input and gives messages, or fails. `feed` takes pieces one after the other.

Messages that are cut into pieces come out again: when the pieces of a message, taken from the idle
state, give just this message and lead back to it, and no message before the last piece, then what
comes out of the pieces that were taken so far is a prefix of the messages (`feed_isPrefix`), and
all of them in the end (`feed_flatMap`).
-/

set_option autoImplicit false

namespace Nek0.Lib.Transducer

variable {σ ι ο β : Type} {step : σ → ι → Option (σ × List ο)}

/-- Takes the pieces in their order, and collects the messages. -/
def feed (step : σ → ι → Option (σ × List ο)) (s : σ) : List ι → Option (σ × List ο)
  | [] => some (s, [])
  | i :: is =>
    (step s i).bind fun r => (feed step r.1 is).map fun r' => (r'.1, r.2 ++ r'.2)

theorem feed_cons_of_some {s s' : σ} {i : ι} {os : List ο} (h : step s i = some (s', os))
    (is : List ι) : feed step s (i :: is) = (feed step s' is).map fun r => (r.1, os ++ r.2) := by
  rw [feed, h]
  rfl

/-- Two inputs in a row are fed one after the other, and their outputs are put together. -/
theorem feed_append (s : σ) (is is' : List ι) :
    feed step s (is ++ is') =
      (feed step s is).bind fun r => (feed step r.1 is').map fun r' => (r'.1, r.2 ++ r'.2) := by
  induction is generalizing s with
  | nil =>
      show feed step s is' = (feed step s is').map fun r' => (r'.1, [] ++ r'.2)
      cases feed step s is' <;> rfl
  | cons i is ih =>
      rw [List.cons_append, feed, feed]
      cases hstep : step s i with
      | none => rfl
      | some r =>
          rw [Option.bind_some, Option.bind_some, ih]
          cases hfeed : feed step r.1 is with
          | none => rfl
          | some r' =>
              -- Both halves have been fed. The output of the first step is in front of both.
              simp only [Option.bind_some, Option.map_some]
              cases feed step r'.1 is' with
              | none => rfl
              | some r'' => simp only [Option.map_some, List.append_assoc]

theorem feed_append_of_some {s s' : σ} {is : List ι} {os : List ο}
    (h : feed step s is = some (s', os)) (is' : List ι) :
    feed step s (is ++ is') = (feed step s' is').map fun r => (r.1, os ++ r.2) := by
  rw [feed_append, h]
  rfl

/-- What was taken before can be taken. -/
theorem feed_of_append {s s' : σ} {is is' : List ι} {os : List ο}
    (h : feed step s (is ++ is') = some (s', os)) :
    ∃ s₁ os₁ os₂, feed step s is = some (s₁, os₁) ∧ feed step s₁ is' = some (s', os₂) ∧
      os = os₁ ++ os₂ := by
  rw [feed_append] at h
  obtain ⟨⟨s₁, os₁⟩, hfirst, hrest⟩ := Option.bind_eq_some_iff.mp h
  obtain ⟨⟨s₂, os₂⟩, hsecond, heq⟩ := Option.map_eq_some_iff.mp hrest
  cases heq
  exact ⟨s₁, os₁, os₂, hfirst, hsecond, rfl⟩

/-- The pieces of a message, taken from the idle state. -/
structure IsCut (step : σ → ι → Option (σ × List ο)) (idle : σ) (pieces : List ι) (message : ο) :
    Prop where
  /-- All of them give the message, if they can be taken. -/
  whole : ∀ s os, feed step idle pieces = some (s, os) → s = idle ∧ os = [message]
  /-- The message does not come out before. -/
  before : ∀ front back s os, pieces = front ++ back → back ≠ [] →
    feed step idle front = some (s, os) → os = []

section Cut

variable {idle : σ} {pieces : β → List ι} {message : β → ο}

/-- All messages come out. -/
theorem feed_flatMap {bs : List β} (hcut : ∀ b ∈ bs, IsCut step idle (pieces b) (message b))
    {s : σ} {os : List ο} (h : feed step idle (bs.flatMap pieces) = some (s, os)) :
    s = idle ∧ os = bs.map message := by
  induction bs generalizing s os with
  | nil =>
      cases h
      exact ⟨rfl, rfl⟩
  | cons b bs ih =>
      rw [List.flatMap_cons] at h
      obtain ⟨s₁, os₁, os₂, hfirst, hrest, rfl⟩ := feed_of_append h
      obtain ⟨rfl, rfl⟩ := (hcut b List.mem_cons_self).whole s₁ os₁ hfirst
      obtain ⟨hs, hos⟩ := ih (fun b' hb' => hcut b' (List.mem_cons_of_mem b hb')) hrest
      refine ⟨hs, ?_⟩
      rw [hos]
      rfl

/-- What came out so far are the first messages. -/
theorem feed_isPrefix {bs : List β} (hcut : ∀ b ∈ bs, IsCut step idle (pieces b) (message b))
    {front back : List ι} (hparts : bs.flatMap pieces = front ++ back) {s : σ} {os : List ο}
    (h : feed step idle front = some (s, os)) : os <+: bs.map message := by
  induction bs generalizing front s os with
  | nil =>
      have hfront : front = [] := (List.append_eq_nil_iff.mp hparts.symm).1
      rw [hfront] at h
      cases h
      exact List.nil_prefix
  | cons b bs ih =>
      rw [List.flatMap_cons] at hparts
      have hb := hcut b List.mem_cons_self
      rcases List.append_eq_append_iff.mp hparts with ⟨more, hfront, hrest⟩ | ⟨more, hcutb, -⟩
      · -- The first message is complete.
        rw [hfront] at h
        obtain ⟨s₁, os₁, os₂, hfirst, hsecond, rfl⟩ := feed_of_append h
        obtain ⟨rfl, rfl⟩ := hb.whole s₁ os₁ hfirst
        have hprefix := ih (fun b' hb' => hcut b' (List.mem_cons_of_mem b hb')) hrest hsecond
        exact List.cons_prefix_cons.mpr ⟨rfl, hprefix⟩
      · cases more with
        | nil =>
            rw [List.append_nil] at hcutb
            obtain ⟨-, rfl⟩ := hb.whole s os (by rw [hcutb]; exact h)
            exact List.cons_prefix_cons.mpr ⟨rfl, List.nil_prefix⟩
        | cons i more =>
            rw [hb.before front (i :: more) s os hcutb (List.cons_ne_nil _ _) h]
            exact List.nil_prefix

end Cut

end Nek0.Lib.Transducer
