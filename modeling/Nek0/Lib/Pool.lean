import Mathlib
import Nek0.Lib.System

/-!
# `Nek0.Lib.Pool`: threads over one shared state

A `Thread` is a list of statements still to execute, under an owner. A `Language` says what one
statement does: it changes the shared state, puts statements in its own place, and starts
threads. A `Pool` executes one statement of one thread at a time, in any order. What happens
outside the threads is the environment.

Each rule reduces a fact about the whole pool to a fact about one statement.

* `keeps_run`: an invariant of the shared state, with an assertion for each statement still to
  execute.
* `weight_run`: a quantity that is spread over the shared state and the statements.
* `held_run`: where a thing can be held, in the shared state or by a statement.

`Amid` executes the program of one thread while the others go on. `Amid.invariant` relates what is
left of the program to the state.
-/

set_option autoImplicit false

namespace Nek0.Lib

/-- A thread: who it belongs to, and what it still has to execute. -/
structure Thread (ω κ : Type) where
  owner : ω
  prog : List κ
  deriving DecidableEq, Repr

/-- The shared state and the threads. -/
structure Pool (σ ω κ : Type) where
  shared : σ
  threads : List (Thread ω κ)

/-- What a statement leads to: the new shared state, the statements in its place, and the threads
it starts. -/
structure Outcome (σ ω κ : Type) where
  shared : σ
  front : List κ := []
  spawn : List (Thread ω κ) := []

/-- What a statement does under a choice, and what the environment does. -/
structure Language (σ ω κ χ ε : Type) where
  exec : χ → κ → σ → Option (Outcome σ ω κ)
  env : ε → σ → Option (σ × List (Thread ω κ))

namespace Pool

variable {σ ω κ χ ε α : Type}

/-- The next step: thread `i` executes a statement, or the environment acts. -/
inductive Label (χ ε : Type) where
  | run (i : Nat) (choice : χ)
  | env (event : ε)
  deriving DecidableEq, Repr

/-- One step of the pool. -/
def next (L : Language σ ω κ χ ε) : Label χ ε → Pool σ ω κ → Option (Pool σ ω κ)
  | .run i choice, P =>
      match P.threads[i]? with
      | none => none
      | some th =>
        match th.prog with
        | [] => none
        | st :: rest =>
          (L.exec choice st P.shared).map fun out =>
            { shared := out.shared
              threads := P.threads.set i ⟨th.owner, out.front ++ rest⟩ ++ out.spawn }
  | .env event, P =>
      (L.env event P.shared).map fun r => { shared := r.1, threads := P.threads ++ r.2 }

/-- The pool as a transition system. It starts without threads. -/
def system (L : Language σ ω κ χ ε) (init : σ → Prop) :
    System (Pool σ ω κ) (Label χ ε) where
  init := fun P => init P.shared ∧ P.threads = []
  next := next L

variable {L : Language σ ω κ χ ε} {P P' : Pool σ ω κ}

/-- A thread's step executes the statement at its head. -/
theorem next_run {i : Nat} {choice : χ} (h : next L (.run i choice) P = some P') :
    ∃ th st rest out, P.threads[i]? = some th ∧ th.prog = st :: rest ∧
      L.exec choice st P.shared = some out ∧
      P' = { shared := out.shared
             threads := P.threads.set i ⟨th.owner, out.front ++ rest⟩ ++ out.spawn } := by
  unfold next at h
  cases hth : P.threads[i]? with
  | none => simp [hth] at h
  | some th =>
      cases hprog : th.prog with
      | nil => simp [hth, hprog] at h
      | cons st rest =>
          simp only [hth, hprog, Option.map_eq_some_iff] at h
          obtain ⟨out, hexec, hP⟩ := h
          exact ⟨th, st, rest, out, rfl, hprog, hexec, hP.symm⟩

/-- The environment's step. -/
theorem next_env {event : ε} (h : next L (.env event) P = some P') :
    ∃ s spawn, L.env event P.shared = some (s, spawn) ∧
      P' = { shared := s, threads := P.threads ++ spawn } := by
  obtain ⟨r, hr, hP⟩ := Option.map_eq_some_iff.mp h
  exact ⟨r.1, r.2, hr, hP.symm⟩

/-- The last thread's step, if it starts none. -/
theorem next_last {s : σ} {threads : List (Thread ω κ)} {owner : ω} {st : κ} {rest : List κ}
    {choice : χ} {out : Outcome σ ω κ} (hexec : L.exec choice st s = some out)
    (hspawn : out.spawn = []) :
    next L (.run threads.length choice) ⟨s, threads ++ [⟨owner, st :: rest⟩]⟩ =
      some ⟨out.shared, threads ++ [⟨owner, out.front ++ rest⟩]⟩ := by
  simp [next, hexec, hspawn]

/-- The threads after a step: a new one, the one that ran, or one that was there. -/
theorem mem_set_append {i : Nat} {th t : Thread ω κ} {spawn : List (Thread ω κ)}
    (h : t ∈ P.threads.set i th ++ spawn) : t ∈ P.threads ∨ t = th ∨ t ∈ spawn := by
  rcases List.mem_append.mp h with hset | hspawn
  · rcases List.mem_or_eq_of_mem_set hset with hold | heq
    · exact .inl hold
    · exact .inr (.inl heq)
  · exact .inr (.inr hspawn)

/-- The same, with the other threads told apart from the one that ran. -/
theorem cases_set_append {i : Nat} {th t : Thread ω κ} {spawn : List (Thread ω κ)}
    (h : t ∈ P.threads.set i th ++ spawn) :
    (∃ j, j ≠ i ∧ P.threads[j]? = some t) ∨ t = th ∨ t ∈ spawn := by
  rcases List.mem_append.mp h with hset | hspawn
  · obtain ⟨j, hj⟩ := List.mem_iff_getElem?.mp hset
    by_cases hji : j = i
    · subst hji
      rw [List.getElem?_set_self' ] at hj
      obtain ⟨_, -, rfl⟩ := Option.map_eq_some_iff.mp hj
      exact .inr (.inl rfl)
    · rw [List.getElem?_set_ne (Ne.symm hji)] at hj
      exact .inl ⟨j, hji, hj⟩
  · exact .inr (.inr hspawn)

/-- Another thread is still there after a thread's step. -/
theorem getElem?_of_ne {i j : Nat} {th t : Thread ω κ} {spawn : List (Thread ω κ)} (hij : j ≠ i)
    (h : P.threads[j]? = some t) : (P.threads.set i th ++ spawn)[j]? = some t := by
  have hlt : j < P.threads.length := (List.getElem?_eq_some_iff.mp h).1
  rw [List.getElem?_append_left (by rwa [List.length_set]), List.getElem?_set_ne (Ne.symm hij), h]

/-- The thread that ran is still in its place. -/
theorem getElem?_self {i : Nat} {th th' : Thread ω κ} {spawn : List (Thread ω κ)}
    (h : P.threads[i]? = some th) : (P.threads.set i th' ++ spawn)[i]? = some th' := by
  have hlt : i < P.threads.length := (List.getElem?_eq_some_iff.mp h).1
  rw [List.getElem?_append_left (by rwa [List.length_set]), List.getElem?_set_self hlt]

/-! ### Step conditions -/

/-- The statement that thread `i` executes next. -/
def head (P : Pool σ ω κ) (i : Nat) : Option κ := (P.threads[i]?).bind fun th => th.prog.head?

/-- A condition on the statement that is executed, as a condition on steps. -/
def checks (cond : Pool σ ω κ → χ → κ → Bool) (P : Pool σ ω κ) : Label χ ε → Bool
  | .run i choice => (head P i).all (cond P choice)
  | .env _ => true

/-- The condition holds of the statement that is executed. -/
theorem cond_of_checks {cond : Pool σ ω κ → χ → κ → Bool} {i : Nat} {choice : χ}
    {th : Thread ω κ} {st : κ} {rest : List κ}
    (h : checks cond P (.run i choice : Label χ ε) = true) (hth : P.threads[i]? = some th)
    (hprog : th.prog = st :: rest) : cond P choice st = true := by
  have hhead : head P i = some st := by
    rw [head, hth]
    simp [hprog]
  simpa only [checks, hhead, Option.all_some] using h

/-! ### A program executed amid the other threads -/

/-- From `P` to `P'`, thread `i` executes the program `prog`. The other threads and the environment
may act as long as it is not done. Every step satisfies `ok`. -/
inductive Amid (L : Language σ ω κ χ ε) (ok : Pool σ ω κ → Label χ ε → Prop) (i : Nat) :
    List κ → Pool σ ω κ → Pool σ ω κ → Prop
  | done {P : Pool σ ω κ} : Amid L ok i [] P P
  | own {P P₁ P' : Pool σ ω κ} {choice : χ} {st : κ} {rest : List κ} {out : Outcome σ ω κ} :
      ok P (.run i choice) → next L (.run i choice) P = some P₁ →
      L.exec choice st P.shared = some out → Amid L ok i (out.front ++ rest) P₁ P' →
      Amid L ok i (st :: rest) P P'
  | other {P P₁ P' : Pool σ ω κ} {st : κ} {rest : List κ} {label : Label χ ε} :
      (∀ choice, label ≠ .run i choice) → ok P label → next L label P = some P₁ →
      Amid L ok i (st :: rest) P₁ P' → Amid L ok i (st :: rest) P P'

/-- The rule for `Amid`: a relation between what is left of the program and the state. The thread
is in its place all along. -/
theorem Amid.invariant {ok : Pool σ ω κ → Label χ ε → Prop} {i : Nat} {o : ω} {prog tail : List κ}
    {R : List κ → Pool σ ω κ → Prop} (h : Amid L ok i prog P P')
    (hth : P.threads[i]? = some ⟨o, prog ++ tail⟩) (hR : R prog P)
    (hown : ∀ {P P₁ : Pool σ ω κ} {choice st rest out},
      P.threads[i]? = some ⟨o, st :: rest ++ tail⟩ → R (st :: rest) P →
      ok P (.run i choice) → next L (.run i choice) P = some P₁ →
      L.exec choice st P.shared = some out → P₁.shared = out.shared → R (out.front ++ rest) P₁)
    (hother : ∀ {P P₁ : Pool σ ω κ} {label st rest},
      P.threads[i]? = some ⟨o, st :: rest ++ tail⟩ → R (st :: rest) P →
      (∀ choice, label ≠ .run i choice) → ok P label → next L label P = some P₁ →
      R (st :: rest) P₁) : R [] P' := by
  induction h with
  | done => exact hR
  | @own P P₁ P' choice st rest out hok hnext hexec _ ih =>
      -- The step is the thread's own: its program is known, and the invariant moves to the rest.
      obtain ⟨th, st', rest', out', hth', hprog, hexec', rfl⟩ := next_run hnext
      obtain rfl : th = ⟨o, st :: rest ++ tail⟩ := by
        rw [hth'] at hth
        exact Option.some.inj hth
      obtain ⟨rfl, rfl⟩ := List.cons.inj hprog
      obtain rfl : out' = out := by
        rw [hexec'] at hexec
        exact Option.some.inj hexec
      refine ih ?_ (hown hth hR hok hnext hexec rfl)
      rw [List.append_assoc]
      exact getElem?_self hth
  -- A step of another thread or of the environment leaves the thread where it is.
  | @other P P₁ P' st rest label hne hok hnext _ ih =>
      refine ih ?_ (hother hth hR hne hok hnext)
      cases label with
      | run j choice =>
          obtain ⟨th, _, _, _, _, _, _, rfl⟩ := next_run hnext
          refine getElem?_of_ne ?_ hth
          rintro rfl
          exact hne choice rfl
      | env event =>
          obtain ⟨_, _, _, rfl⟩ := next_env hnext
          rw [List.getElem?_append_left (List.getElem?_eq_some_iff.mp hth).1]
          exact hth

/-- Executes a program of thread `i` while no other thread takes a step, with `check` at each step.
-/
def alone (L : Language σ ω κ χ ε) (check : Pool σ ω κ → Label χ ε → Bool) (i : Nat) :
    List χ → List κ → Pool σ ω κ → Option (Pool σ ω κ)
  | [], [], P => some P
  | choice :: choices, st :: rest, P =>
      if check P (.run i choice) then
        (next L (.run i choice) P).bind fun P₁ =>
          (L.exec choice st P.shared).bind fun out => alone L check i choices (out.front ++ rest) P₁
      else none
  | _, _, _ => none

/-- That is one way to execute it. -/
theorem Amid.of_alone {check : Pool σ ω κ → Label χ ε → Bool} {i : Nat} {choices : List χ}
    {prog : List κ} (h : alone L check i choices prog P = some P') :
    Amid L (fun P label => check P label = true) i prog P P' := by
  induction choices generalizing prog P with
  | nil =>
      cases prog with
      | nil =>
          obtain rfl := Option.some.inj h
          exact .done
      | cons st rest => cases h
  | cons choice choices ih =>
      cases prog with
      | nil => cases h
      | cons st rest =>
          simp only [alone] at h
          split at h
          · rename_i hcheck
            obtain ⟨P₁, hnext, hbind⟩ := Option.bind_eq_some_iff.mp h
            obtain ⟨out, hexec, hrest⟩ := Option.bind_eq_some_iff.mp hbind
            exact .own hcheck hnext hexec (ih hrest)
          · cases h

/-! ### Invariants with an assertion for each thread -/

/-- The shared state satisfies `I`, and each thread satisfies `A`. -/
structure Keeps (I : σ → Prop) (A : σ → Thread ω κ → Prop) (P : Pool σ ω κ) : Prop where
  shared : I P.shared
  threads : ∀ t ∈ P.threads, A P.shared t

/-- What a step of a thread must do to keep them: also for the other threads. -/
structure StepKeeps (I : σ → Prop) (A : σ → Thread ω κ → Prop) (s : σ)
    (others : Thread ω κ → Prop) (th : Thread ω κ) (rest : List κ) (out : Outcome σ ω κ) :
    Prop where
  shared : I out.shared
  stable : ∀ t, others t → A s t → A out.shared t
  self : A out.shared ⟨th.owner, out.front ++ rest⟩
  spawn : ∀ t ∈ out.spawn, A out.shared t

/-- The rule for a thread's step. -/
theorem keeps_run {I : σ → Prop} {A : σ → Thread ω κ → Prop} {i : Nat} {choice : χ}
    (h : next L (.run i choice) P = some P') (hkeeps : Keeps I A P)
    (hstep : ∀ th st rest out, P.threads[i]? = some th → th.prog = st :: rest →
      L.exec choice st P.shared = some out →
      StepKeeps I A P.shared (fun t => ∃ j, j ≠ i ∧ P.threads[j]? = some t) th rest out) :
    Keeps I A P' := by
  obtain ⟨th, st, rest, out, hth, hprog, hexec, rfl⟩ := next_run h
  have hout := hstep th st rest out hth hprog hexec
  refine ⟨hout.shared, ?_⟩
  intro t ht
  rcases List.mem_append.mp ht with hset | hnew
  · obtain ⟨j, hj⟩ := List.mem_iff_getElem?.mp hset
    by_cases hij : j = i
    · subst hij
      have hlt : j < P.threads.length := (List.getElem?_eq_some_iff.mp hth).1
      rw [List.getElem?_set_self hlt] at hj
      exact Option.some.inj hj ▸ hout.self
    · rw [List.getElem?_set_ne (Ne.symm hij)] at hj
      exact hout.stable t ⟨j, hij, hj⟩ (hkeeps.threads t (List.mem_of_getElem? hj))
  · exact hout.spawn t hnew

/-- The rule for the environment's step. -/
theorem keeps_env {I : σ → Prop} {A : σ → Thread ω κ → Prop} {event : ε}
    (h : next L (.env event) P = some P') (hkeeps : Keeps I A P)
    (hstep : ∀ s spawn, L.env event P.shared = some (s, spawn) → I s ∧
      (∀ t ∈ P.threads, A P.shared t → A s t) ∧ ∀ t ∈ spawn, A s t) :
    Keeps I A P' := by
  obtain ⟨s, spawn, henv, rfl⟩ := next_env h
  obtain ⟨hI, hstable, hspawn⟩ := hstep s spawn henv
  refine ⟨hI, ?_⟩
  intro t ht
  rcases List.mem_append.mp ht with hold | hnew
  · exact hstable t hold (hkeeps.threads t hold)
  · exact hspawn t hnew

/-! ### Weights -/

section
variable (ws : σ → Nat) (wt : Thread ω κ → Nat) (wk : κ → Nat)

/-- The weight of threads. -/
def threadsWeight (threads : List (Thread ω κ)) : Nat := (threads.map wt).sum

/-- The weight of a pool. -/
def weight (P : Pool σ ω κ) : Nat := ws P.shared + threadsWeight wt P.threads

/-- The weight of a list of statements. -/
def progWeight (prog : List κ) : Nat := (prog.map wk).sum

@[simp] theorem progWeight_nil : progWeight wk [] = 0 := rfl

@[simp] theorem progWeight_cons (st : κ) (prog : List κ) :
    progWeight wk (st :: prog) = wk st + progWeight wk prog := by
  simp [progWeight]

@[simp] theorem progWeight_append (p q : List κ) :
    progWeight wk (p ++ q) = progWeight wk p + progWeight wk q := by
  simp [progWeight]

@[simp] theorem threadsWeight_nil : threadsWeight wt [] = 0 := rfl

@[simp] theorem threadsWeight_cons (t : Thread ω κ) (threads : List (Thread ω κ)) :
    threadsWeight wt (t :: threads) = wt t + threadsWeight wt threads := by
  simp [threadsWeight]

@[simp] theorem threadsWeight_append (p q : List (Thread ω κ)) :
    threadsWeight wt (p ++ q) = threadsWeight wt p + threadsWeight wt q := by
  simp [threadsWeight]

/-- Statements that weigh nothing weigh nothing together. -/
theorem progWeight_eq_zero {prog : List κ} (h : ∀ k ∈ prog, wk k = 0) :
    progWeight wk prog = 0 := by
  refine List.sum_eq_zero ?_
  intro n hn
  obtain ⟨k, hk, rfl⟩ := List.mem_map.mp hn
  exact h k hk

/-- Threads that weigh nothing weigh nothing together. -/
theorem threadsWeight_eq_zero {threads : List (Thread ω κ)} (h : ∀ t ∈ threads, wt t = 0) :
    threadsWeight wt threads = 0 := by
  refine List.sum_eq_zero ?_
  intro n hn
  obtain ⟨t, ht, rfl⟩ := List.mem_map.mp hn
  exact h t ht

/-- Replacing one thread exchanges its weight. -/
private theorem threadsWeight_set {threads : List (Thread ω κ)} {i : Nat} {th : Thread ω κ}
    (h : threads[i]? = some th) (th' : Thread ω κ) :
    threadsWeight wt (threads.set i th') + wt th = threadsWeight wt threads + wt th' := by
  induction threads generalizing i with
  | nil => simp at h
  | cons t threads ih =>
      cases i with
      | zero =>
          obtain rfl : t = th := by simpa using h
          rw [List.set_cons_zero, threadsWeight_cons, threadsWeight_cons]
          omega
      | succ i =>
          have hi := ih (i := i) (by simpa using h)
          rw [List.set_cons_succ, threadsWeight_cons, threadsWeight_cons]
          omega

/-- A thread weighs no more than all threads. -/
theorem le_threadsWeight {threads : List (Thread ω κ)} {t : Thread ω κ} (h : t ∈ threads) :
    wt t ≤ threadsWeight wt threads :=
  List.le_sum_of_mem (List.mem_map_of_mem h)

/-- Two threads weigh no more than all threads. -/
theorem add_le_threadsWeight {threads : List (Thread ω κ)} {i j : Nat} {t u : Thread ω κ}
    (hij : j ≠ i) (hi : threads[i]? = some t) (hj : threads[j]? = some u) :
    wt t + wt u ≤ threadsWeight wt threads := by
  induction threads generalizing i j with
  | nil => simp at hi
  | cons v threads ih =>
      rw [threadsWeight_cons]
      cases i with
      | zero =>
          obtain rfl : v = t := by simpa using hi
          cases j with
          | zero => exact absurd rfl hij
          | succ j =>
              have hu := le_threadsWeight wt (List.mem_of_getElem? (i := j) (by simpa using hj))
              omega
      | succ i =>
          cases j with
          | zero =>
              obtain rfl : v = u := by simpa using hj
              have ht := le_threadsWeight wt (List.mem_of_getElem? (i := i) (by simpa using hi))
              omega
          | succ j =>
              have hih := ih (i := i) (j := j) (by omega) (by simpa using hi) (by simpa using hj)
              omega

/-- Replacing one thread and adding threads exchanges the weights. -/
theorem weight_set {i : Nat} {th : Thread ω κ} (hth : P.threads[i]? = some th) (s : σ)
    (th' : Thread ω κ) (spawn : List (Thread ω κ)) :
    weight ws wt { shared := s, threads := P.threads.set i th' ++ spawn } + (ws P.shared + wt th)
      = weight ws wt P + (ws s + wt th' + threadsWeight wt spawn) := by
  have hset := threadsWeight_set wt hth th'
  simp only [weight, threadsWeight_append]
  omega

/-- A thread's step exchanges the weight of the thread and of the shared state. -/
theorem weight_run {i : Nat} {choice : χ} (h : next L (.run i choice) P = some P') :
    ∃ th st rest out, P.threads[i]? = some th ∧ th.prog = st :: rest ∧
      L.exec choice st P.shared = some out ∧ P'.shared = out.shared ∧
      weight ws wt P' + (ws P.shared + wt th)
        = weight ws wt P + (ws out.shared + wt ⟨th.owner, out.front ++ rest⟩
          + threadsWeight wt out.spawn) := by
  obtain ⟨th, st, rest, out, hth, hprog, hexec, rfl⟩ := next_run h
  exact ⟨th, st, rest, out, hth, hprog, hexec, rfl, weight_set ws wt hth _ _ _⟩

/-- The weight of the statements still to execute. -/
def pendingWeight (t : Thread ω κ) : Nat := progWeight wk t.prog

/-- Executing a statement exchanges its weight for the weight of its outcome. -/
theorem weight_exec {i : Nat} {th : Thread ω κ} {st : κ} {rest : List κ}
    (hth : P.threads[i]? = some th) (hprog : th.prog = st :: rest) (out : Outcome σ ω κ) :
    weight ws (pendingWeight wk)
        { shared := out.shared
          threads := P.threads.set i ⟨th.owner, out.front ++ rest⟩ ++ out.spawn } +
        (ws P.shared + wk st)
      = weight ws (pendingWeight wk) P + (ws out.shared + progWeight wk out.front
        + threadsWeight (pendingWeight wk) out.spawn) := by
  have hset := weight_set ws (pendingWeight wk) hth out.shared ⟨th.owner, out.front ++ rest⟩
    out.spawn
  have hold : pendingWeight wk th = wk st + progWeight wk rest := by
    rw [pendingWeight, hprog, progWeight_cons]
  have hnew : pendingWeight wk (⟨th.owner, out.front ++ rest⟩ : Thread ω κ) =
      progWeight wk out.front + progWeight wk rest := progWeight_append wk _ _
  omega

/-- The environment's step adds the weight of the threads it starts. -/
theorem weight_env {event : ε} (h : next L (.env event) P = some P') :
    ∃ s spawn, L.env event P.shared = some (s, spawn) ∧ P'.shared = s ∧
      weight ws wt P' + ws P.shared
        = weight ws wt P + (ws s + threadsWeight wt spawn) := by
  obtain ⟨s, spawn, henv, rfl⟩ := next_env h
  refine ⟨s, spawn, henv, rfl, ?_⟩
  simp only [weight, threadsWeight_append]
  omega

end

/-! ### Holding -/

section
variable (hs : σ → α → Prop) (hk : κ → α → Prop)

/-- One of the statements holds `a`. -/
def ProgHolds (prog : List κ) (a : α) : Prop := ∃ st ∈ prog, hk st a

/-- One of the threads holds `a`. -/
def ThreadsHold (threads : List (Thread ω κ)) (a : α) : Prop :=
  ∃ t ∈ threads, ProgHolds hk t.prog a

/-- The shared state or a thread holds `a`. -/
def Holds (P : Pool σ ω κ) (a : α) : Prop := hs P.shared a ∨ ThreadsHold hk P.threads a

/-- What a thread's statements held before its step, they hold after it, except for the statement
that was executed. What the outcome's statements hold is held too. -/
theorem held_run {i : Nat} {choice : χ} (h : next L (.run i choice) P = some P') :
    ∃ th st rest out, P.threads[i]? = some th ∧ th.prog = st :: rest ∧
      L.exec choice st P.shared = some out ∧ P'.shared = out.shared ∧
      (∀ a, ThreadsHold hk P.threads a → hk st a ∨ ThreadsHold hk P'.threads a) ∧
      (∀ a, ProgHolds hk (out.front ++ rest) a ∨ ThreadsHold hk out.spawn a →
        ThreadsHold hk P'.threads a) := by
  obtain ⟨th, st, rest, out, hth, hprog, hexec, rfl⟩ := next_run h
  have hself : (P.threads.set i ⟨th.owner, out.front ++ rest⟩ ++ out.spawn)[i]? =
      some ⟨th.owner, out.front ++ rest⟩ := getElem?_self hth
  refine ⟨th, st, rest, out, hth, hprog, hexec, rfl, ?_, ?_⟩
  · rintro a ⟨t, ht, k, hk', hka⟩
    obtain ⟨j, hj⟩ := List.mem_iff_getElem?.mp ht
    by_cases hij : j = i
    · subst hij
      obtain rfl : t = th := by
        rw [hj] at hth
        exact Option.some.inj hth
      rw [hprog] at hk'
      rcases List.mem_cons.mp hk' with rfl | hrest
      · exact .inl hka
      · exact .inr ⟨_, List.mem_of_getElem? hself, k, List.mem_append_right _ hrest, hka⟩
    · exact .inr ⟨t, List.mem_of_getElem? (getElem?_of_ne hij hj), k, hk', hka⟩
  · rintro a (hown | ⟨t, ht, hta⟩)
    · exact ⟨_, List.mem_of_getElem? hself, hown⟩
    · exact ⟨t, List.mem_append_right _ ht, hta⟩

/-- What the threads' statements held, they hold after a step of the environment. -/
theorem held_env {event : ε} (h : next L (.env event) P = some P') :
    ∃ s spawn, L.env event P.shared = some (s, spawn) ∧ P'.shared = s ∧
      ∀ a, ThreadsHold hk P.threads a ∨ ThreadsHold hk spawn a → ThreadsHold hk P'.threads a := by
  obtain ⟨s, spawn, henv, rfl⟩ := next_env h
  refine ⟨s, spawn, henv, rfl, ?_⟩
  rintro a (⟨t, ht, hta⟩ | ⟨t, ht, hta⟩)
  · exact ⟨t, List.mem_append_left _ ht, hta⟩
  · exact ⟨t, List.mem_append_right _ ht, hta⟩

end

end Pool

end Nek0.Lib
