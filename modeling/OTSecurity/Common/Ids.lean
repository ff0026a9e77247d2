import Std.Data.String.ToInt
import OTSecurity.Lib.Joined
import OTSecurity.Lib.Sha1

/-!
# Deterministic identifiers

Model of `lib/sih_common/ids.py`: every identifier is the version 5 UUID of its parts joined by
`|`, in a namespace of its kind.

`joinName_int_inj` — a name that ends in a number determines the number and the parts before it;
`updateName_inj` for the names of updates.
-/

namespace OTS

/-- The keys of `NAMESPACES`. -/
inductive IdKind where
  | event
  | incident
  | update
  | alert
  | feature
  | invalid
  deriving DecidableEq, Repr

def NAMESPACES : IdKind → String
  | .event => "5d0c1c52-8a4e-4f0e-9a51-3e3b8f6f2a01"
  | .incident => "5d0c1c52-8a4e-4f0e-9a51-3e3b8f6f2a02"
  | .update => "5d0c1c52-8a4e-4f0e-9a51-3e3b8f6f2a03"
  | .alert => "5d0c1c52-8a4e-4f0e-9a51-3e3b8f6f2a04"
  | .feature => "5d0c1c52-8a4e-4f0e-9a51-3e3b8f6f2a05"
  | .invalid => "5d0c1c52-8a4e-4f0e-9a51-3e3b8f6f2a06"

/-- `None` is joined as the empty text. -/
def joinName (parts : List (Option String)) : String :=
  "|".intercalate (parts.map (·.getD ""))

def derivedId (kind : IdKind) (parts : List (Option String)) : String :=
  uuid5 (NAMESPACES kind) (joinName parts)

def eventId (sensorId bootId : String) (sequence : Int) (originalSha256 : String) : String :=
  derivedId .event [sensorId, bootId, toString sequence, originalSha256]

def incidentId (threatClass entityType entityKey : String) (incidentEpochMs : Int) : String :=
  derivedId .incident [threatClass, entityType, entityKey, toString incidentEpochMs]

def updateId (incident : String) (updateSeq : Nat) : String :=
  derivedId .update [incident, toString updateSeq]

def alertId (detector entityType entityKey : String) (windowEndMs : Int) (subtype : String) :
    String :=
  derivedId .alert [detector, entityType, entityKey, toString windowEndMs, subtype]

def featureRecordId (detector entityType entityKey : String) (windowEndMs : Int) : String :=
  derivedId .feature [detector, entityType, entityKey, toString windowEndMs]

def invalidId (stage reason : String) (rawSha256 sensorId bootId : Option String)
    (sequence : Option Int) : String :=
  derivedId .invalid [stage, reason, rawSha256, sensorId, bootId, sequence.map toString]

-- A vector of `schemas/examples/id_vectors.json`.
example : incidentId "scan" "src_host" "10.10.1.99" 1788256800000 =
    "a1fc3f70-e4d2-5474-a401-e2821a927b4c" := by decide +kernel

/-! ## Names -/

/-- What follows the last `|` of a name is determined by the name. -/
theorem last_part_inj {a b s t : String} (hs : '|' ∉ s.toList) (ht : '|' ∉ t.toList)
    (h : a ++ "|" ++ s = b ++ "|" ++ t) : a = b ∧ s = t := by
  have hr : s.toList.reverse ++ '|' :: a.toList.reverse =
      t.toList.reverse ++ '|' :: b.toList.reverse := by
    have := congrArg (fun x : String => x.toList.reverse) h
    simpa using this
  obtain ⟨hst, hab⟩ := append_sep_inj (by simpa using hs) (by simpa using ht) hr
  exact ⟨String.toList_inj.1 (List.reverse_inj.1 hab), String.toList_inj.1 (List.reverse_inj.1 hst)⟩

theorem joinName_concat {ps : List (Option String)} (hps : ps ≠ []) (q : String) :
    joinName (ps ++ [some q]) = joinName ps ++ "|" ++ q := by
  unfold joinName
  rw [List.map_append, String.intercalate_append_of_ne_nil (by simpa using hps) (by simp)]
  simp

theorem nat_repr_no_bar (n : Nat) : '|' ∉ n.repr.toList := by
  rw [Nat.toList_repr]
  intro h
  exact absurd (Nat.isDigit_of_mem_toDigits (by decide) (by decide) h) (by decide)

theorem int_repr_no_bar (e : Int) : '|' ∉ e.repr.toList := by
  rw [Int.repr_eq_if]
  split
  · exact nat_repr_no_bar _
  · rw [String.toList_append]
    intro h
    rcases List.mem_append.1 h with h | h
    · exact absurd h (by decide)
    · exact nat_repr_no_bar _ h

/-- **A name ending in a number determines the number and what precedes it.** -/
theorem joinName_int_inj {ps qs : List (Option String)} {e e' : Int} (hps : ps ≠ [])
    (hqs : qs ≠ []) (h : joinName (ps ++ [some (toString e)]) = joinName (qs ++ [some (toString e')])) :
    joinName ps = joinName qs ∧ e = e' := by
  rw [joinName_concat hps, joinName_concat hqs] at h
  obtain ⟨hpq, he⟩ := last_part_inj (int_repr_no_bar e) (int_repr_no_bar e') h
  exact ⟨hpq, Int.repr_injective he⟩

theorem updateName_inj {a b : String} {m n : Nat}
    (h : joinName [a, toString m] = joinName [b, toString n]) : a = b ∧ m = n := by
  have hcast : ∀ n : Nat, toString n = toString (n : Int) := fun n => rfl
  rw [hcast m, hcast n] at h
  obtain ⟨hab, hmn⟩ : joinName [some a] = joinName [some b] ∧ (m : Int) = n :=
    joinName_int_inj (List.cons_ne_nil _ _) (List.cons_ne_nil _ _) h
  exact ⟨by simpa [joinName] using hab, by exact_mod_cast hmn⟩

end OTS
