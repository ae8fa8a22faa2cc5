import Nek0.Lib.JsonLists
import Nek0.Native.FtDelete

/-!
# `Nek0.Proofs.Native.MultiDelete`: what a list of paths to delete becomes

`ts_ft_delete` does not reject a list for an unacceptable path. It leaves the path out.

* `values_ftDeletePacket`: the one packet names every path of the command, in order.
* `ftDelete_queues`: what is queued, and when.
* `deletesAll_iff`: the call does what was asked if and only if the paths are all acceptable or all
  unacceptable, or the call cannot queue anything.
-/

set_option autoImplicit false

namespace Nek0.Proofs.Native

open Nek0.Lib
open Nek0.Native

variable (fromStr : String → Option (List String)) (encodePassword : String → String)

/-- The path can be deleted: its normalised form is valid. -/
def acceptable (path : String) : Bool := validRemotePath (normalizeRemotePath path)

/-- The call did what was asked. When it returns 1, the command that was queued names every path of
the list in its one packet, and it has the call's token. When a path is unacceptable, the call
returns 0 and nothing is queued. -/
structure DeletesAll (raw : List String) (token : Option String) (before : Shared)
    (r : Shared × UInt8) : Prop where
  covers : r.2 = 1 → ∃ generation cid names pw,
    before.commandTx = some generation ∧
      (r.1.queues generation).commands = (before.queues generation).commands ++
        [.ftDelete cid names pw (cstrToString token)] ∧
      names = raw.map normalizeRemotePath ∧
      (ftDeletePacket encodePassword cid names pw).values "name" = raw.map normalizeRemotePath
  refuses : (∃ path ∈ raw, acceptable path = false) → r.2 = 0 ∧ r.1 = before

/-- The call gets as far as to queue a command: the file-transfer calls are ready, there is a token,
and an event loop receives. -/
def CanQueue (a : Accesses) (token : Option String) : Prop :=
  ftReady a = true ∧ cstrToString token ≠ "" ∧
    ∃ generation, a.commandTx.commandTx = some generation ∧
      (a.commandTx.queues generation).receiving = true

/-! ### The packet -/

/-- Writing an entry adds its path. -/
theorem values_writeEntry (cid cpw : String) (p : OutCommand) (entry : String × Nat) :
    (writeEntry cid cpw p entry).values "name" = p.values "name" ++ [entry.1] := by
  unfold writeEntry
  split <;> simp [OutCommand.values, OutCommand.writeArg, OutCommand.startNewPart]

/-- Writing the entries appends their names. -/
theorem values_foldl (cid cpw : String) (entries : List (String × Nat)) (p : OutCommand) :
    (entries.foldl (writeEntry cid cpw) p).values "name" =
      p.values "name" ++ entries.map Prod.fst := by
  induction entries generalizing p with
  | nil => simp
  | cons entry entries ih =>
      rw [List.foldl_cons, ih, values_writeEntry, List.map_cons, List.append_assoc,
        List.singleton_append]

/-- The packet names every path of the command, in order. -/
theorem values_ftDeletePacket (cid : UInt64) (names : List String) (password : Option String) :
    (ftDeletePacket encodePassword cid names password).values "name" = names := by
  unfold ftDeletePacket
  rw [values_foldl, List.zipIdx_map_fst, OutCommand.new]
  rfl

/-! ### The call -/

theorem acceptable_eq : acceptable = validRemotePath ∘ normalizeRemotePath := by
  funext path
  rw [acceptable, Function.comp_apply]

/-- A list of paths gives a command for those of them that are acceptable. -/
theorem tsFtDelete_eq {raw : List String} {namesJson : Option String}
    (hparse : fromStr (cstrToString namesJson) = some raw) (cid : UInt32)
    (pw token : Option String) :
    tsFtDelete fromStr cid namesJson pw token =
      if raw.filter acceptable = [] ∨ cstrToString token = "" then none
      else some (.queueFtCommand (.ftDelete cid.toUInt64
        ((raw.filter acceptable).map normalizeRemotePath) (ftPassword pw)
        (cstrToString token))) := by
  have hnames : (raw.map normalizeRemotePath).filter validRemotePath =
      (raw.filter acceptable).map normalizeRemotePath := by
    rw [List.filter_map, acceptable_eq]
  unfold tsFtDelete
  rw [hparse]
  simp only [hnames]
  cases raw with
  | nil => simp
  | cons path raw =>
      cases token with
      | none => simp [cstrToString]
      | some token => simp [ite_or]

/-- `send` under the lock: the command is queued if an event loop receives. -/
theorem trySend_of_receiving {s : Shared} {generation : Nat} (htx : s.commandTx = some generation)
    (hreceiving : (s.queues generation).receiving = true) (c : Command) :
    (s.trySend c).2 = true ∧ ((s.trySend c).1.queues generation).commands =
      (s.queues generation).commands ++ [c] := by
  rw [Shared.trySend, htx]
  simp [hreceiving, Shared.setQueue]

/-- Otherwise nothing changes. -/
theorem trySend_of_not_receiving {s : Shared}
    (h : ¬ ∃ generation, s.commandTx = some generation ∧
      (s.queues generation).receiving = true) (c : Command) : s.trySend c = (s, false) := by
  unfold Shared.trySend
  cases htx : s.commandTx with
  | none => rfl
  | some generation =>
      have hclosed : ¬ (s.queues generation).receiving = true :=
        fun hreceiving => h ⟨generation, htx, hreceiving⟩
      simp [hclosed]

/-- A call that cannot queue anything, or has no acceptable path, returns 0. -/
theorem ftDelete_refuses (a : Accesses) {raw : List String} (namesJson token : Option String)
    (hparse : fromStr (cstrToString namesJson) = some raw)
    (h : ¬ CanQueue a token ∨ raw.filter acceptable = []) (cid : UInt32) (pw : Option String) :
    ftDeleteReturns fromStr a cid namesJson pw token = (a.commandTx, 0) := by
  unfold ftDeleteReturns
  rw [tsFtDelete_eq fromStr hparse]
  by_cases hready : ftReady a = true
  · by_cases hnone : raw.filter acceptable = [] ∨ cstrToString token = ""
    · rw [if_pos hnone]
      simp [hready]
    · rw [if_neg hnone]
      rw [not_or] at hnone
      have hclosed : ¬ ∃ generation, a.commandTx.commandTx = some generation ∧
          (a.commandTx.queues generation).receiving = true := by
        intro hopen
        exact (h.resolve_right hnone.1) ⟨hready, hnone.2, hopen⟩
      simp [hready, trySend_of_not_receiving hclosed]
  · simp [hready]

/-- A call that can queue a command and has an acceptable path returns 1. The command has the
acceptable paths. -/
theorem ftDelete_queues (a : Accesses) {raw : List String} (namesJson token : Option String)
    (hparse : fromStr (cstrToString namesJson) = some raw) (hqueue : CanQueue a token)
    (hsome : raw.filter acceptable ≠ []) (cid : UInt32) (pw : Option String) :
    (ftDeleteReturns fromStr a cid namesJson pw token).2 = 1 ∧
      ∃ generation, a.commandTx.commandTx = some generation ∧
        ((ftDeleteReturns fromStr a cid namesJson pw token).1.queues generation).commands =
          (a.commandTx.queues generation).commands ++
            [.ftDelete cid.toUInt64 ((raw.filter acceptable).map normalizeRemotePath)
              (ftPassword pw) (cstrToString token)] := by
  obtain ⟨hready, htoken, generation, htx, hreceiving⟩ := hqueue
  have hsend := trySend_of_receiving htx hreceiving (.ftDelete cid.toUInt64
    ((raw.filter acceptable).map normalizeRemotePath) (ftPassword pw) (cstrToString token))
  have hreturns : ftDeleteReturns fromStr a cid namesJson pw token =
      ((a.commandTx.trySend (.ftDelete cid.toUInt64
        ((raw.filter acceptable).map normalizeRemotePath) (ftPassword pw)
        (cstrToString token))).1, 1) := by
    unfold ftDeleteReturns
    rw [tsFtDelete_eq fromStr hparse]
    simp [hready, hsome, htoken, hsend.1]
  rw [hreturns]
  exact ⟨rfl, generation, htx, hsend.2⟩

/-- A call that returns 0 and queues nothing promises nothing. -/
theorem deletesAll_of_refused (raw : List String) (token : Option String) (before : Shared) :
    DeletesAll encodePassword raw token before (before, 0) where
  covers hone := absurd (show (0 : UInt8) = 1 from hone) (by decide)
  refuses _ := ⟨rfl, rfl⟩

/-- `ts_ft_delete` does what was asked of it if and only if it cannot queue anything, or its paths
are all acceptable, or none of them is. -/
theorem deletesAll_iff (a : Accesses) {raw : List String} (namesJson token : Option String)
    (hparse : fromStr (cstrToString namesJson) = some raw) (hraw : raw ≠ []) (cid : UInt32)
    (pw : Option String) :
    DeletesAll encodePassword raw token a.commandTx
        (ftDeleteReturns fromStr a cid namesJson pw token) ↔
      (CanQueue a token →
        (∀ path ∈ raw, acceptable path = true) ∨ ∀ path ∈ raw, acceptable path = false) := by
  constructor
  · intro h hqueue
    by_contra hmixed
    rw [not_or] at hmixed
    obtain ⟨hbad, hgood⟩ := hmixed
    have hsome : raw.filter acceptable ≠ [] := by
      simpa [List.filter_eq_nil_iff] using hgood
    have hrefused := h.refuses (by simpa using hbad)
    rw [(ftDelete_queues fromStr a namesJson token hparse hqueue hsome cid pw).1] at hrefused
    exact absurd hrefused.1 (by decide)
  · intro h
    by_cases hqueue : CanQueue a token
    · cases h hqueue with
      | inl hall =>
          have hfilter : raw.filter acceptable = raw := List.filter_eq_self.mpr hall
          obtain ⟨hone, generation, htx, hcommands⟩ :=
            ftDelete_queues fromStr a namesJson token hparse hqueue (by rwa [hfilter]) cid pw
          rw [hfilter] at hcommands
          refine ⟨fun _ => ⟨generation, _, _, _, htx, hcommands, rfl, ?_⟩, ?_⟩
          · exact values_ftDeletePacket encodePassword _ _ _
          · rintro ⟨path, hmem, hbad⟩
            rw [hall path hmem] at hbad
            cases hbad
      | inr hnone =>
          have hfilter : raw.filter acceptable = [] := by
            simpa [List.filter_eq_nil_iff] using hnone
          rw [ftDelete_refuses fromStr a namesJson token hparse (.inr hfilter) cid pw]
          exact deletesAll_of_refused encodePassword raw token a.commandTx
    · rw [ftDelete_refuses fromStr a namesJson token hparse (.inl hqueue) cid pw]
      exact deletesAll_of_refused encodePassword raw token a.commandTx

/-- A session whose event loop receives. -/
def listening : Shared :=
  { Shared.initial with
      connected := true
      eventLoopAlive := true
      commandTx := some 1
      queues := fun _ => { commands := [], receiving := true, attempt := 1 } }

theorem canQueue_listening : CanQueue ⟨listening, listening, listening⟩ (some "t") :=
  ⟨rfl, by decide, 1, rfl, rfl⟩

/-- Two acceptable paths are both deleted. -/
theorem deletesAll_acceptable :
    DeletesAll id ["/a", "b//c/"] (some "t") listening
      (ftDeleteReturns JsonLists.decode ⟨listening, listening, listening⟩ 1
        (some "[\"/a\",\"b//c/\"]") none (some "t")) :=
  (deletesAll_iff JsonLists.decode id ⟨listening, listening, listening⟩ (some "[\"/a\",\"b//c/\"]")
    (some "t") (by decide +kernel) (by decide) 1 none).mpr fun _ => .inl (by decide)

/-- With an unacceptable path in the list, the other path is deleted and the call returns 1. -/
theorem not_deletesAll :
    ¬ DeletesAll id ["/a", "/../b"] (some "t") listening
      (ftDeleteReturns JsonLists.decode ⟨listening, listening, listening⟩ 1
        (some "[\"/a\",\"/../b\"]") none (some "t")) := by
  intro h
  have hparse : JsonLists.decode (cstrToString (some "[\"/a\",\"/../b\"]")) =
      some ["/a", "/../b"] := by
    decide +kernel
  have hone := (ftDelete_queues JsonLists.decode ⟨listening, listening, listening⟩
    (some "[\"/a\",\"/../b\"]") (some "t") hparse canQueue_listening (by decide) 1 none).1
  have hzero := (h.refuses ⟨"/../b", by decide, by decide⟩).1
  rw [hone] at hzero
  exact absurd hzero (by decide)

end Nek0.Proofs.Native
