import Nek0.Lib.Pool

/-!
# `Nek0.Lib.OneThread`: all threads of a pool but one

`Others A skip threads` says that the programs of all threads satisfy `A`, but for the one at
`skip`. Where one thread at a time is in a section, that is the thread at `skip`, and `A` says that
a thread is not in it.
-/

set_option autoImplicit false

namespace Nek0.Lib.Pool

variable {ω κ : Type}

/-- The programs satisfy `A`, but for the one at `skip`. -/
def Others (A : List κ → Prop) (skip : Option Nat) (threads : List (Thread ω κ)) : Prop :=
  ∀ j t, threads[j]? = some t → some j ≠ skip → A t.prog

variable {A : List κ → Prop} {skip skip' : Option Nat} {threads spawn : List (Thread ω κ)} {i : Nat}

/-- A thread is replaced and threads are added, and another thread may be skipped. -/
theorem Others.set_append {th : Thread ω κ} (h : Others A skip threads)
    (hskip : ∀ j, some j ≠ skip' → j = i ∨ some j ≠ skip)
    (hself : some i ≠ skip' → A th.prog)
    (hspawn : ∀ k t, spawn[k]? = some t → some (threads.length + k) ≠ skip' → A t.prog) :
    Others A skip' (threads.set i th ++ spawn) := by
  intro j t hj hne
  rcases Nat.lt_or_ge j threads.length with hlt | hge
  · rw [List.getElem?_append_left (by rwa [List.length_set]), List.getElem?_set] at hj
    split at hj
    · next heq =>
      rw [if_pos (heq ▸ hlt)] at hj
      cases hj
      exact hself (heq ▸ hne)
    · next hij => exact h j t hj ((hskip j hne).resolve_left (Ne.symm hij))
  · rw [List.getElem?_append_right (by rwa [List.length_set]), List.length_set] at hj
    refine hspawn (j - threads.length) t hj ?_
    rwa [Nat.add_sub_cancel' hge]

/-- A thread that is not skipped executes a statement. -/
theorem Others.run {th : Thread ω κ} {st : κ} {front rest : List κ} (h : Others A skip threads)
    (hth : threads[i]? = some th) (hprog : th.prog = st :: rest) (hne : some i ≠ skip)
    (hself : A (st :: rest) → A (front ++ rest)) (hspawn : ∀ t ∈ spawn, A t.prog) :
    Others A skip (threads.set i ⟨th.owner, front ++ rest⟩ ++ spawn) :=
  h.set_append (fun _ hj => .inr hj) (fun _ => hself (hprog ▸ h i th hth hne))
    fun _ t ht _ => hspawn t (List.mem_of_getElem? ht)

/-- The thread that is skipped executes a statement. -/
theorem Others.run_skip {th : Thread ω κ} (h : Others A (some i) threads) :
    Others A (some i) (threads.set i th ++ []) :=
  h.set_append (fun _ hj => .inr hj) (fun hne => absurd rfl hne) fun _ _ ht => by simp at ht

/-- The thread that is skipped leaves its section. -/
theorem Others.run_leave {th : Thread ω κ} (h : Others A (some i) threads) (hself : A th.prog) :
    Others A none (threads.set i th ++ []) := by
  refine h.set_append (fun j _ => ?_) (fun _ => hself) fun _ _ ht => by simp at ht
  by_cases hj : j = i
  · exact .inl hj
  · exact .inr fun heq => hj (Option.some.inj heq)

/-- Threads are added. -/
theorem Others.append (h : Others A skip threads) (hspawn : ∀ t ∈ spawn, A t.prog) :
    Others A skip (threads ++ spawn) := by
  intro j t hj hne
  rcases Nat.lt_or_ge j threads.length with hlt | hge
  · exact h j t ((List.getElem?_append_left hlt).symm.trans hj) hne
  · rw [List.getElem?_append_right hge] at hj
    exact hspawn t (List.mem_of_getElem? hj)

/-- A thread is still there when threads were added. -/
theorem getElem?_append {t : Thread ω κ} (h : threads[i]? = some t) :
    (threads ++ spawn)[i]? = some t := by
  rw [List.getElem?_append_left (List.getElem?_eq_some_iff.mp h).1]
  exact h

end Nek0.Lib.Pool
