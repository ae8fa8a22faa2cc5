import Mathlib

/-!
# `Nek0.Lib.Requests`: requests that are made until one fails

A program makes requests one after the other and stops at the first one that fails. Whether a
request succeeds depends on its number and on the request. `issue` makes the requests of a list,
after those of a log.

* `issue_append`: a list of requests in two parts.
* `issue_of_failure`: the requests up to the first one that fails.
* `issue_cases`: all requests were made and succeeded, or those up to the first one that failed.
-/

set_option autoImplicit false

namespace Nek0.Lib.Requests

variable {ρ : Type} (succeeds : Nat → ρ → Bool)

/-- Makes the requests in order, until one fails. The result is the log, and whether all
succeeded. -/
def issue : List ρ → List ρ → List ρ × Bool
  | [], log => (log, true)
  | r :: rs, log => if succeeds log.length r then issue rs (log ++ [r]) else (log ++ [r], false)

@[simp] theorem issue_nil (log : List ρ) : issue succeeds [] log = (log, true) := rfl

theorem issue_cons (r : ρ) (rs log : List ρ) : issue succeeds (r :: rs) log =
    if succeeds log.length r then issue succeeds rs (log ++ [r]) else (log ++ [r], false) := rfl

/-- After the first part, the second one is made if nothing failed. -/
theorem issue_append (rs rs' log : List ρ) : issue succeeds (rs ++ rs') log =
    if (issue succeeds rs log).2 then issue succeeds rs' (issue succeeds rs log).1
    else issue succeeds rs log := by
  induction rs generalizing log with
  | nil => rfl
  | cons r rs ih =>
      rw [List.cons_append, issue_cons, issue_cons]
      split
      · exact ih _
      · rfl

/-- The requests before the first one that fails, and that one. -/
theorem issue_of_failure {before after : List ρ} {r : ρ} (log : List ρ)
    (hbefore : ∀ i r', before[i]? = some r' → succeeds (log.length + i) r' = true)
    (hfails : succeeds (log.length + before.length) r = false) :
    issue succeeds (before ++ r :: after) log = (log ++ (before ++ [r]), false) := by
  induction before generalizing log with
  | nil =>
      have hr : succeeds log.length r = false := hfails
      rw [List.nil_append, issue_cons, hr]
      rfl
  | cons first before ih =>
      have hlength : (log ++ [first]).length = log.length + 1 := by
        rw [List.length_append, List.length_singleton]
      have hfirst : succeeds log.length first = true := hbefore 0 first rfl
      rw [List.cons_append, issue_cons, if_pos hfirst, ih (log ++ [first])]
      · rw [List.append_assoc, List.singleton_append, List.cons_append]
      · intro i r' hi
        rw [hlength, Nat.add_assoc, Nat.add_comm 1]
        exact hbefore (i + 1) r' hi
      · rw [hlength, Nat.add_assoc, Nat.add_comm 1]
        exact hfails

/-- Either every request was made and succeeded, or the last one that was made is the first that
failed. -/
theorem issue_cases (rs log : List ρ) :
    (issue succeeds rs log = (log ++ rs, true) ∧
      ∀ i r, rs[i]? = some r → succeeds (log.length + i) r = true) ∨
    ∃ before r after, rs = before ++ r :: after ∧
      issue succeeds rs log = (log ++ (before ++ [r]), false) ∧
      (∀ i r', before[i]? = some r' → succeeds (log.length + i) r' = true) ∧
      succeeds (log.length + before.length) r = false := by
  induction rs generalizing log with
  | nil => exact .inl ⟨by rw [issue_nil, List.append_nil], by simp⟩
  | cons r rs ih =>
      rw [issue_cons]
      by_cases hr : succeeds log.length r = true
      · rw [if_pos hr]
        -- The numbers of the later requests are counted from the log with `r`.
        have hshift : ∀ (l : List ρ) i r', (∀ i r', l[i]? = some r' →
            succeeds ((log ++ [r]).length + i) r' = true) → (r :: l)[i]? = some r' →
            succeeds (log.length + i) r' = true := by
          intro l i r' hl hi
          cases i with
          | zero =>
              obtain rfl : r = r' := by simpa using hi
              exact hr
          | succ i =>
              have h := hl i r' (by simpa using hi)
              rwa [List.length_append, List.length_singleton, Nat.add_assoc, Nat.add_comm 1] at h
        rcases ih (log ++ [r]) with ⟨heq, hall⟩ | ⟨before, r₁, after, rfl, heq, hbefore, hfails⟩
        · refine .inl ⟨?_, fun i r' hi => hshift rs i r' hall hi⟩
          rw [heq, List.append_assoc, List.singleton_append]
        · refine .inr ⟨r :: before, r₁, after, rfl, ?_, ?_, ?_⟩
          · rw [heq, List.append_assoc, List.singleton_append, List.cons_append]
          · exact fun i r' hi => hshift before i r' hbefore hi
          · rwa [List.length_append, List.length_singleton, Nat.add_assoc, Nat.add_comm 1] at hfails
      · rw [if_neg hr]
        exact .inr ⟨[], r, rs, rfl, rfl, by simp, by simpa using hr⟩

end Nek0.Lib.Requests
