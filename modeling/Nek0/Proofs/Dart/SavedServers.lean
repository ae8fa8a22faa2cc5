import Mathlib.Data.List.GetD
import Nek0.Dart.ServerList

/-!
# `Nek0.Proofs.Dart.SavedServers`: what is left of the saved servers

`kept_of_run`: once the load, the saves and the writes have completed, the state and the store have
the servers that were stored at first, with the edits applied in call order, if the load met the
condition `loadsFresh`. Either the store was still the initial one and the edits so far change
nothing in it, or nothing was stored at first and every save was through.

Otherwise the load overwrites the edits, or it reads what an edit saved without the stored servers.
-/

set_option autoImplicit false

namespace Nek0.Proofs.Dart

open Nek0.Dart
open Nek0.Lib.System (Run)

/-! ### Records -/

@[simp] theorem asStringOrNull_ofString (s : Option String) :
    (JsonValue.ofString? s).asStringOrNull = some s := by
  cases s <;> rfl

@[simp] theorem asIntOrNull_ofInt (n : Option Int) :
    (JsonValue.ofInt? n).asIntOrNull = some n := by
  cases n <;> rfl

/-- The first field of a record hides a later one of its name. -/
theorem get_cons (k : String) (v : JsonValue) (json : JsonRecord) (key : String) :
    JsonRecord.get ((k, v) :: json) key = if key = k then v else json.get key := by
  unfold JsonRecord.get
  rw [List.lookup_cons]
  by_cases h : key = k
  · simp [h]
  · rw [beq_false_of_ne h, if_neg h]

/-- A server is read back from its record. -/
theorem fromJson_toJson (s : Server) : Server.fromJson s.toJson = some s := by
  simp [Server.fromJson, Server.toJson, get_cons, JsonValue.asString]

/-- Saved servers are read back. -/
theorem mapM_fromJson_toJson (servers : List Server) :
    (servers.map Server.toJson).mapM Server.fromJson = some servers := by
  induction servers with
  | nil => rfl
  | cons s servers ih => simp [fromJson_toJson, ih]

/-! ### The invariant -/

/-- A load reads the initial list, with edits that change nothing in it, or it reads what the edits
of an empty list saved. -/
def loadsFresh (sl : ServerList) (e : ServerList.Event) : Prop :=
  match e with
  | .loaded =>
    ∀ servers ∈ sl.initial.mapM Server.fromJson,
      (sl.prefs = sl.initial ∧ applyOps sl.ops servers = servers) ∨
      (servers = [] ∧ sl.saves = 0)
  | _ => True

instance (sl : ServerList) (e : ServerList.Event) : Decidable (loadsFresh sl e) := by
  cases e <;> unfold loadsFresh <;> infer_instance

/-- `servers` was stored at first. The state has the edits of what was loaded, the cache has the
state if no save waits, and the disk gets what the cache has. -/
structure Kept (servers : List Server) (sl : ServerList) : Prop where
  first : sl.initial.mapM Server.fromJson = some servers
  edited : sl.servers = applyOps sl.ops (if sl.loadPending then [] else servers)
  cached : sl.loadPending = false ∨ servers = [] → sl.saves = 0 →
    sl.prefs.mapM Server.fromJson = some sl.servers
  stored : sl.writes.getLastD sl.stored = sl.prefs

variable {servers : List Server} {sl sl' : ServerList}

theorem applyOps_concat (ops : List ServerOp) (op : ServerOp) (servers : List Server) :
    applyOps (ops ++ [op]) servers = op.apply (applyOps ops servers) := by
  rw [applyOps, List.foldl_append]
  rfl

/-- What a call changes. -/
theorem call_eq (op : ServerOp) (sl : ServerList) :
    sl.call op = { sl with servers := op.apply sl.servers, saves := (sl.call op).saves } := by
  cases op with
  | add server => rfl
  | update server =>
      simp only [ServerList.call, ServerList.updateServer, ServerOp.apply]
      split <;> rfl
  | remove serverId => rfl

/-- A call that starts no save changes nothing. -/
theorem saves_call {op : ServerOp} (h : (sl.call op).saves = 0) : sl.call op = sl := by
  cases op with
  | add server => exact absurd h (Nat.succ_ne_zero _)
  | update server =>
      simp only [ServerList.call, ServerList.updateServer] at h ⊢
      split at h
      · rfl
      · exact absurd h (Nat.succ_ne_zero _)
  | remove serverId => exact absurd h (Nat.succ_ne_zero _)

/-- An operation on the list keeps what the servers should be. -/
theorem kept_call (h : Kept servers sl) (op : ServerOp) :
    Kept servers { sl.call op with ops := sl.ops ++ [op] } := by
  have heq := call_eq op sl
  constructor
  · rw [heq]
    exact h.first
  · rw [heq]
    show op.apply sl.servers = applyOps (sl.ops ++ [op]) _
    rw [applyOps_concat, h.edited]
  · intro hloaded hsaves
    have hsame : sl.call op = sl := saves_call hsaves
    rw [hsame] at hloaded hsaves ⊢
    exact h.cached hloaded hsaves
  · rw [heq]
    exact h.stored

/-- So does a load that no operation came before. -/
theorem kept_load (h : Kept servers sl) (hok : loadsFresh sl .loaded)
    (hpending : sl.loadPending = true) : Kept servers sl.loadFromDisk := by
  have hedited := h.edited
  rw [hpending, if_pos rfl] at hedited
  -- Both cases of the condition load the edited list.
  have hload : sl.prefs.mapM Server.fromJson = some (applyOps sl.ops servers) := by
    rcases hok servers h.first with ⟨hprefs, hnothing⟩ | ⟨hempty, hsaves⟩
    · rw [hprefs, hnothing]
      exact h.first
    · rw [h.cached (.inr hempty) hsaves, hedited, hempty]
  unfold ServerList.loadFromDisk
  rw [hload]
  exact ⟨h.first, rfl, fun _ _ => hload, h.stored⟩

/-- Saving changes the disk's queue only. -/
theorem kept_save (h : Kept servers sl) : Kept servers sl.saveToDisk where
  first := h.first
  edited := h.edited
  cached := fun _ _ => mapM_fromJson_toJson _
  stored := by
    show (sl.writes ++ [sl.servers.map Server.toJson]).getLastD sl.stored = _
    rw [List.getLastD_concat]
    rfl

/-- A write that is done is what the disk holds. -/
theorem kept_write (h : Kept servers sl) {records : List JsonRecord}
    {writes : List (List JsonRecord)} (hwrites : sl.writes = records :: writes) :
    Kept servers { sl with stored := records, writes := writes } where
  first := h.first
  edited := h.edited
  cached := h.cached
  stored := by
    have hstored := h.stored
    rwa [hwrites, List.getLastD_cons] at hstored

/-- Every step of a run with a fresh load keeps it. -/
theorem kept_of_next {e : ServerList.Event} (h : Kept servers sl) (hok : loadsFresh sl e)
    (hnext : ServerList.next e sl = some sl') : Kept servers sl' := by
  cases e with
  | call op =>
      cases hnext
      exact kept_call h op
  | loaded =>
      simp only [ServerList.next] at hnext
      split at hnext
      · rename_i hpending
        cases hnext
        exact kept_load h hok hpending
      · cases hnext
  | saved =>
      simp only [ServerList.next] at hnext
      split at hnext
      · cases hnext
        exact kept_save h
      · cases hnext
  | written =>
      simp only [ServerList.next] at hnext
      split at hnext
      · cases hnext
      · rename_i records writes hwrites
        cases hnext
        exact kept_write h hwrites

/-- When everything has completed, the state and the store have the stored servers with the edits in
call order, if the load was fresh. -/
theorem kept_of_run (hrun : ServerList.system.Run loadsFresh sl)
    (hdone : sl.completed = true) :
    ∃ servers, sl.initial.mapM Server.fromJson = some servers ∧
      sl.servers = applyOps sl.ops servers ∧
      sl.stored.mapM Server.fromJson = some (applyOps sl.ops servers) := by
  have hkept : ∃ servers, Kept servers sl := by
    refine Run.invariant (P := fun sl => ∃ servers, Kept servers sl) ?_ ?_ hrun
    · rintro sl ⟨stored, servers, hstored, rfl⟩
      refine ⟨servers, hstored, rfl, ?_, rfl⟩
      rintro (hloaded | rfl) -
      · cases hloaded
      · exact hstored
    · rintro sl sl' e ⟨servers, h⟩ hok hnext
      exact ⟨servers, kept_of_next h hok hnext⟩
  obtain ⟨servers, h⟩ := hkept
  simp only [ServerList.completed, Bool.and_eq_true, Bool.not_eq_true', beq_iff_eq,
    List.isEmpty_iff] at hdone
  obtain ⟨⟨hloaded, hsaves⟩, hwrites⟩ := hdone
  have hedited := h.edited
  rw [hloaded, if_neg Bool.false_ne_true] at hedited
  have hstored := h.stored
  rw [hwrites] at hstored
  refine ⟨servers, h.first, hedited, ?_⟩
  rw [show sl.stored = sl.prefs from hstored, h.cached (.inl hloaded) hsaves, hedited]

/-! ### Two servers -/

/-- A server with this id. -/
def namedServer (id : String) : Server where
  id := id
  name := id
  address := "host"
  nickname := "nick"
  channel := none
  password := none
  voicePort := some 9987
  serverQueryPort := none
  serverQuerySshPort := none
  fileTransferPort := none

/-- What the specification looks at. -/
def serverView (sl : ServerList) : Bool × List Server × List JsonRecord :=
  (sl.completed, sl.servers, sl.stored)

/-- What an execution over a store with the server `a` ends with is seen in a state of a run. -/
theorem exists_serverRun {cond : ServerList → ServerList.Event → Prop}
    (check : ServerList → ServerList.Event → Bool)
    (hcheck : ∀ sl e, check sl e = true → cond sl e) (labels : List ServerList.Event)
    {a : (Bool × List Server × List JsonRecord) × List JsonRecord × List ServerOp}
    (hexec : (ServerList.system.exec check labels (.build [(namedServer "a").toJson])).map
      (fun sl => (serverView sl, sl.initial, sl.ops)) = some a) :
    ∃ sl, ServerList.system.Run cond sl ∧ serverView sl = a.1 ∧ sl.initial = a.2.1 ∧
      sl.ops = a.2.2 := by
  obtain ⟨sl, hrun, hview⟩ := Run.exists_of_exec ServerList.system cond check labels
    (fun sl => (serverView sl, sl.initial, sl.ops)) hcheck
    (.start ⟨_, _, mapM_fromJson_toJson [namedServer "a"], rfl⟩) hexec
  subst hview
  exact ⟨sl, hrun, rfl, rfl, rfl⟩

/-- A server is added behind the load. -/
theorem kept_added : ∃ sl servers, ServerList.system.Run loadsFresh sl ∧
    sl.ops = [.add (namedServer "b")] ∧ sl.initial.mapM Server.fromJson = some servers ∧
    sl.servers = applyOps sl.ops servers ∧
    sl.stored.mapM Server.fromJson = some (applyOps sl.ops servers) := by
  obtain ⟨sl, hrun, hview, -, hops⟩ := exists_serverRun (fun sl e => decide (loadsFresh sl e))
    (fun _ _ => of_decide_eq_true)
    [.loaded, .call (.add (namedServer "b")), .saved, .written]
    (a := ((true, [namedServer "a", namedServer "b"],
        [(namedServer "a").toJson, (namedServer "b").toJson]),
      [(namedServer "a").toJson], [.add (namedServer "b")])) rfl
  obtain ⟨servers, hkept⟩ := kept_of_run hrun (congrArg Prod.fst hview)
  exact ⟨sl, servers, hrun, hops, hkept⟩

/-- A server is added before the load, which then reads a list without the stored server. -/
theorem not_kept : ∃ sl, ServerList.system.Reachable sl ∧ sl.completed = true ∧
    ∃ servers, sl.initial.mapM Server.fromJson = some servers ∧
      sl.servers ≠ applyOps sl.ops servers ∧
      sl.stored.mapM Server.fromJson ≠ some (applyOps sl.ops servers) := by
  obtain ⟨sl, hrun, hview, hinitial, hops⟩ := exists_serverRun (fun _ _ => true)
    (fun _ _ _ => trivial)
    [.call (.add (namedServer "b")), .saved, .loaded, .written]
    (a := ((true, [namedServer "b"], [(namedServer "b").toJson]),
      [(namedServer "a").toJson], [.add (namedServer "b")])) rfl
  simp only [serverView, Prod.mk.injEq] at hview
  obtain ⟨hdone, hservers, hstored⟩ := hview
  refine ⟨sl, hrun, hdone, [namedServer "a"], ?_, ?_, ?_⟩
  · rw [hinitial]
    exact mapM_fromJson_toJson [namedServer "a"]
  · rw [hservers, hops]
    decide
  · rw [hstored, hops]
    decide

end Nek0.Proofs.Dart
